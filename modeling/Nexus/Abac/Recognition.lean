import Nexus.Abac.AtomParser
import Mathlib.Data.List.Find

/-!
# The parser recognises the policy language

`parseAbacPolicy_eq_ok` says which trees `parse_abac_policy` accepts and which rule it
returns for each of them.  `parseAbacPolicy_iff` compares this with the language: the
two agree on an input exactly if the input does not use what the parser gets wrong.

* The value of an attribute is refused if it is a number, and taken if it is a dotted
  identifier: one of the two comparisons in the check of the token is the wrong way round.
* A number that starts with a zero is no token.
* A number beyond an `int` wraps around.
* A name of more than 32 characters is cut, and one of 32 is read on into the count of
  its values.
-/

namespace Nexus.Abac

open List Parse

/-! ## What the parser makes of a tree -/

/-- The rule as `__parse_rule` makes it. -/
def RuleTree.parsed (tree : RuleTree) (uuid : Uuid) : PolicyRule :=
  ⟨tree.perm, uuid, tree.atoms.map AtomTree.parsed⟩

/-- The value of an attribute is not a dotted identifier. -/
def AtomTree.NoDottedValue : AtomTree → Prop
  | .regular _ _ (some (.dotted _)) => False
  | _ => True

/-! ## Atoms and rules -/

variable {text : List Char} {p : Parser} {space : Option AttributeSpace}

theorem consumeToken_eq_ok {expected : Token} :
    (consumeToken expected ⟨text, none⟩).outcome = .ok p ↔
      ∃ rest, lexerNextToken text = some (expected, rest) ∧ p = ⟨rest, none⟩ := by
  simp only [consumeToken, bind_eq_ok, Prod.exists, nextToken_eq_ok]
  constructor
  · rintro ⟨t, p', ⟨rest, hlex, rfl⟩, h⟩
    split at h
    · next heq =>
      subst heq
      exact ⟨rest, hlex, (pure_eq_ok.mp h).symm⟩
    · cases h
  · rintro ⟨rest, hlex, rfl⟩
    exact ⟨expected, _, ⟨rest, hlex, rfl⟩, congrArg outcome (if_pos rfl)⟩

theorem parseAtom_eq_ok {atom : PolicyAtom} :
    (parseAtom space ⟨text, none⟩).outcome = .ok (atom, p) ↔
      ∃ (tree : AtomTree) (rest : List Char), Reads text tree.tokens rest ∧ tree.NoNumberValue ∧
        policyAtomIsValid space tree.parsed = true ∧ atom = tree.parsed ∧ p = ⟨rest, none⟩ := by
  rw [(takes_atom space).ok]
  constructor
  · rintro ⟨_, rest, ⟨tree, rfl, htaken, rfl⟩, hreads, rfl⟩
    exact ⟨tree, rest, hreads, htaken.1, htaken.2, rfl, rfl⟩
  · rintro ⟨tree, rest, hreads, hnumber, hvalid, rfl, rfl⟩
    exact ⟨_, rest, ⟨tree, rfl, ⟨hnumber, hvalid⟩, rfl⟩, hreads, rfl⟩

theorem parseAtoms_eq_ok {fuel : Nat} {atoms : List PolicyAtom} {last : Token} :
    (parseAtoms space fuel ⟨text, none⟩).outcome = .ok ((atoms, last), p) ↔
      ∃ (first : AtomTree) (others : List AtomTree) (rest : List Char), others.length < fuel ∧
        Reads text (atomsTokens first others ++ [last]) rest ∧ last ≠ .comma ∧
        (∀ tree ∈ first :: others, tree.Taken space) ∧
        atoms = (first :: others).map AtomTree.parsed ∧ p = ⟨rest, none⟩ := by
  induction fuel generalizing text atoms p with
  | zero => simp [parseAtoms]
  | succ fuel ih =>
    simp only [parseAtoms, bind_eq_ok, Prod.exists, parseAtom_eq_ok]
    constructor
    · rintro ⟨_, _, ⟨first, rest₁, hreads, hnumber, hvalid, rfl, rfl⟩, t, _, hnext, h⟩
      obtain ⟨rest₂, hlex, rfl⟩ := nextToken_eq_ok.mp hnext
      split at h
      · next hcomma =>
        subst hcomma
        simp only [bind_eq_ok, Prod.exists, pure_eq_ok, Prod.mk.injEq] at h
        obtain ⟨_, _, _, hloop, ⟨rfl, rfl⟩, rfl⟩ := h
        obtain ⟨second, others, rest, hfuel, hreads', hlast, htaken, rfl, rfl⟩ := ih.mp hloop
        refine ⟨first, second :: others, rest, Nat.succ_lt_succ hfuel, ?_, hlast, ?_, rfl, rfl⟩
        · rw [atomsTokens, append_assoc]
          exact reads_append_iff.mpr ⟨rest₁, hreads, .cons hlex hreads'⟩
        · exact forall_mem_cons.mpr ⟨⟨hnumber, hvalid⟩, htaken⟩
      · next hcomma =>
        obtain ⟨hpair, rfl⟩ := Prod.mk.inj (pure_eq_ok.mp h)
        cases hpair
        exact ⟨first, [], rest₂, Nat.succ_pos _,
          reads_append_iff.mpr ⟨rest₁, hreads, .cons hlex .nil⟩, hcomma,
          by simpa using ⟨hnumber, hvalid⟩, rfl, rfl⟩
    · rintro ⟨first, others, rest, hfuel, hreads, hlast, htaken, rfl, rfl⟩
      obtain ⟨⟨hnumber, hvalid⟩, htaken⟩ := forall_mem_cons.mp htaken
      cases others with
      | nil =>
        obtain ⟨rest₁, hreads, hlex⟩ := reads_append_iff.mp hreads
        obtain ⟨_, hlex, hnil⟩ := reads_cons_iff.mp hlex
        cases hnil
        exact ⟨_, _, ⟨first, rest₁, hreads, hnumber, hvalid, rfl, rfl⟩, last, _,
          nextToken_eq_ok.mpr ⟨_, hlex, rfl⟩, congrArg outcome (if_neg hlast)⟩
      | cons second others =>
        rw [atomsTokens, append_assoc] at hreads
        obtain ⟨rest₁, hreads, hlex⟩ := reads_append_iff.mp hreads
        obtain ⟨rest₂, hlex, hreads'⟩ := reads_cons_iff.mp hlex
        have hloop := ih.mpr ⟨second, others, rest, Nat.lt_of_succ_lt_succ hfuel, hreads', hlast,
          htaken, rfl, rfl⟩
        refine ⟨_, _, ⟨first, rest₁, hreads, hnumber, hvalid, rfl, rfl⟩, .comma, _,
          nextToken_eq_ok.mpr ⟨_, hlex, rfl⟩, ?_⟩
        simp only [if_true, bind_eq_ok, Prod.exists, pure_eq_ok, Prod.mk.injEq]
        exact ⟨_, _, _, hloop, ⟨rfl, rfl⟩, rfl⟩

theorem permTypeFromString_eq_some {str : String} {perm : Perm} :
    permTypeFromString str = some perm ↔ str = perm.toString := by
  constructor
  · intro h
    have hfound := find?_some h
    have hname : nameChars perm.toString = nameChars str := of_decide_eq_true hfound
    unfold nameChars at hname
    have hshort : perm.toString.toList.length < attributeNameMax := by
      rw [String.length_toList]
      exact length_toString_lt perm
    rw [take_of_length_le hshort.le] at hname
    have hlength := congrArg List.length hname
    rw [length_take] at hlength
    rw [take_of_length_le (by omega)] at hname
    exact (String.toList_inj.mp hname).symm
  · rintro rfl
    exact permTypeFromString_toString perm

theorem parsePermission_eq_ok {perm : Perm} :
    (parsePermission ⟨text, none⟩).outcome = .ok (perm, p) ↔
      ∃ rest, Reads text [.identifier perm.toString.toList] rest ∧ p = ⟨rest, none⟩ := by
  simp only [parsePermission, bind_eq_ok, Prod.exists, nextToken_eq_ok]
  constructor
  · rintro ⟨t, _, ⟨rest, hlex, rfl⟩, h⟩
    split at h
    · next name =>
      split at h
      · cases h
      · next perm' hperm =>
        obtain ⟨rfl, rfl⟩ := Prod.mk.inj (pure_eq_ok.mp h)
        have hname := permTypeFromString_eq_some.mp hperm
        obtain rfl : name = perm'.toString.toList := by rw [← hname, String.toList_ofList]
        exact ⟨rest, .cons hlex .nil, rfl⟩
    · cases h
  · rintro ⟨rest, hreads, rfl⟩
    obtain ⟨_, hlex, hnil⟩ := reads_cons_iff.mp hreads
    cases hnil
    refine ⟨_, _, ⟨_, hlex, rfl⟩, ?_⟩
    simp only [String.ofList_toList, permTypeFromString_toString]
    rfl

/-! ## The tokens of a tree are enough fuel -/

variable {first : AtomTree} {others : List AtomTree}

theorem ArgTree.proper_token (arg : ArgTree) : arg.token.Proper := by
  cases arg <;> exact ⟨nofun, nofun⟩

theorem AtomTree.proper_tokens (tree : AtomTree) : ∀ t ∈ tree.tokens, t.Proper := by
  have hfixed : ∀ t ∈ [Token.lparen, .rparen, .comma], t.Proper := by
    simp [Token.Proper]
  have hident : ∀ val, Token.Proper (.identifier val) := fun _ => ⟨nofun, nofun⟩
  have hcmp : ∀ cmp : Comparison, cmp.token.Proper := by
    intro cmp
    cases cmp <;> exact ⟨nofun, nofun⟩
  match tree with
  | .regular name type none => simp [tokens, hident, hfixed]
  | .regular name type (some arg) => simp [tokens, hident, hfixed, arg.proper_token]
  | .comparison cmp left right =>
    simp [tokens, hfixed, hcmp, left.proper_token, right.proper_token]

theorem proper_atomsTokens (first : AtomTree) (others : List AtomTree) :
    ∀ t ∈ atomsTokens first others, t.Proper := by
  induction others generalizing first with
  | nil => exact first.proper_tokens
  | cons second others ih =>
    intro t ht
    obtain ht | ht := mem_append.mp ht
    · exact first.proper_tokens t ht
    · obtain rfl | ht := mem_cons.mp ht
      · exact ⟨nofun, nofun⟩
      · exact ih second t ht

theorem RuleTree.proper_tokens (tree : RuleTree) : ∀ t ∈ tree.tokens, t.Proper :=
  forall_mem_cons.mpr ⟨⟨nofun, nofun⟩, forall_mem_cons.mpr ⟨⟨nofun, nofun⟩,
    proper_atomsTokens tree.first tree.others⟩⟩

theorem length_le_atomsTokens (first : AtomTree) (others : List AtomTree) :
    others.length ≤ (atomsTokens first others).length := by
  induction others generalizing first with
  | nil => exact Nat.zero_le _
  | cons second others ih =>
    have h := ih second
    simp only [atomsTokens, length_append, length_cons]
    omega

theorem Spells.length_le {tokens : List Token} (h : Spells tokens text)
    (hwf : ∀ t ∈ tokens, t.WellFormed) : tokens.length ≤ text.length := by
  induction h with
  | nil => exact le_rfl
  | blank _ _ ih => exact Nat.le_succ_of_le (ih hwf)
  | token t _ ih =>
    have hrest := ih fun t ht => hwf t (mem_cons_of_mem _ ht)
    obtain ⟨c, cs, htext, -⟩ := (hwf t mem_cons_self).text_eq_cons
    simp only [htext, length_cons, length_append]
    omega

theorem length_le_of_reads {rest : List Char}
    (h : Reads text (atomsTokens first others ++ [.done]) rest) : others.length ≤ text.length := by
  obtain ⟨hspells, hlexed⟩ :=
    spells_of_reads (separated_atomsTokens first others) (proper_atomsTokens first others) h
  exact (length_le_atomsTokens first others).trans
    (hspells.length_le fun t ht => (hlexed t ht).1)

/-! ## What is accepted -/

/-- The text of a policy: the input up to its end. -/
def policyText (input : List Char) : List Char := input.takeWhile (· ≠ '\x00')

theorem parseRule_eq_ok {uuid : Uuid} {rule : PolicyRule} :
    (parseRule space uuid ⟨text, none⟩).outcome = .ok (rule, .done) ↔
      ∃ tree : RuleTree, (∃ rest, Reads text (tree.tokens ++ [.done]) rest) ∧
        (∀ atom ∈ tree.atoms, atom.Taken space) ∧ rule = tree.parsed uuid := by
  simp only [parseRule, bind_eq_ok, Prod.exists, parsePermission_eq_ok, pure_eq_ok,
    Prod.mk.injEq]
  constructor
  · rintro ⟨perm, _, ⟨rest₁, hperm, rfl⟩, p, hcolon, atoms, last, _, hloop, rfl, rfl⟩
    obtain ⟨rest₂, hlex, rfl⟩ := consumeToken_eq_ok.mp hcolon
    obtain ⟨first, others, rest, -, hreads, -, htaken, rfl, -⟩ := parseAtoms_eq_ok.mp hloop
    refine ⟨⟨perm, first, others⟩, ⟨rest, ?_⟩, htaken, rfl⟩
    obtain ⟨_, hlex', hnil⟩ := reads_cons_iff.mp hperm
    cases hnil
    exact .cons hlex' (.cons hlex hreads)
  · rintro ⟨⟨perm, first, others⟩, ⟨rest, hreads⟩, htaken, rfl⟩
    obtain ⟨rest₁, hperm, hreads⟩ := reads_cons_iff.mp hreads
    obtain ⟨rest₂, hcolon, hreads⟩ := reads_cons_iff.mp hreads
    have hfuel : others.length < rest₂.length + 1 := Nat.lt_succ_of_le (length_le_of_reads hreads)
    exact ⟨perm, _, ⟨rest₁, .cons hperm .nil, rfl⟩, _, consumeToken_eq_ok.mpr ⟨rest₂, hcolon, rfl⟩,
      _, _, _, parseAtoms_eq_ok.mpr ⟨first, others, rest, hfuel, hreads, nofun, htaken, rfl, rfl⟩,
      rfl, rfl⟩

/-- The rules that `parse_abac_policy` returns, by the trees that it accepts. -/
theorem parseAbacPolicy_eq_ok {uuid : Uuid} {input : List Char} {rule : PolicyRule} :
    (parseAbacPolicy space uuid input).outcome = .ok rule ↔
      ∃ tree : RuleTree, Spells tree.tokens (policyText input) ∧
        (∀ t ∈ tree.tokens, t.Lexed) ∧ (∀ atom ∈ tree.atoms, atom.Taken space) ∧
        rule = tree.parsed uuid := by
  have hdone : (parseAbacPolicy space uuid input).outcome = .ok rule ↔
      (parseRule space uuid ⟨policyText input, none⟩).outcome = .ok (rule, .done) := by
    simp only [parseAbacPolicy, bind_eq_ok, Prod.exists]
    constructor
    · rintro ⟨rule', last, hparse, h⟩
      split at h
      · next hlast =>
        obtain rfl := pure_eq_ok.mp h
        exact hlast ▸ hparse
      · cases h
    · intro hparse
      exact ⟨rule, .done, hparse, congrArg outcome (if_pos rfl)⟩
  rw [hdone, parseRule_eq_ok]
  constructor
  · rintro ⟨tree, hreads, htaken, rfl⟩
    obtain ⟨hspells, hlexed⟩ :=
      (reads_iff_spells tree.separated_tokens tree.proper_tokens).mp hreads
    exact ⟨tree, hspells, hlexed, htaken, rfl⟩
  · rintro ⟨tree, hspells, hlexed, htaken, rfl⟩
    exact ⟨tree, (reads_iff_spells tree.separated_tokens tree.proper_tokens).mpr
      ⟨hspells, hlexed⟩, htaken, rfl⟩

/-! ## Cut names and wrapped numbers -/

theorem atoi_eq_iff (digits : List Char) :
    atoi digits = digitsValue digits ↔ digitsValue digits < 2 ^ 31 := by
  unfold atoi
  generalize digitsValue digits = n
  constructor
  · intro h
    have hlt := BitVec.toInt_lt (x := BitVec.ofNat 32 (min n (2 ^ 63 - 1)))
    rw [h] at hlt
    norm_num at hlt ⊢
    omega
  · intro h
    rw [min_eq_left (by omega), BitVec.toInt_ofNat']
    exact Int.bmod_eq_of_le (by norm_num) (by norm_num; omega)

section

variable (name : List Char) (arg : Option AbacValue)

theorem take_storedPredicate {k : Nat} (hk : k ≤ attributeNameMax) :
    (storedPredicate name arg).toList.take k = name.take k := by
  unfold storedPredicate storedName
  split
  · rw [String.toList_ofList]
  · next hlong =>
    rw [String.length_ofList] at hlong
    rw [String.toList_append, nameChars, String.toList_ofList, String.toList_ofList,
      take_append_of_le_length (by rw [length_take]; omega), take_take,
      min_eq_left hk]

theorem isPrefixOf_storedPredicate {start : List Char} (hstart : start.length ≤ attributeNameMax) :
    start.isPrefixOf (storedPredicate name arg).toList = start.isPrefixOf name := by
  rw [Bool.eq_iff_iff, isPrefixOf_iff_prefix, isPrefixOf_iff_prefix,
    prefix_iff_eq_take, prefix_iff_eq_take, take_storedPredicate name arg hstart]

theorem checkSystemFunction_storedPredicate (type : AtomType) :
    checkSystemFunction (storedPredicate name arg) type =
      checkSystemFunction (String.ofList name) type := by
  have hshort : ∀ function ∈ systemFunctions, function.1.toList.length ≤ attributeNameMax := by
    decide
  have hfind : findSystemFunction (storedPredicate name arg) =
      findSystemFunction (String.ofList name) :=
    find?_congr fun function hmem => by
      rw [isPrefixOf_storedPredicate name arg (hshort function hmem), String.toList_ofList]
  rw [checkSystemFunction, hfind, checkSystemFunction]

theorem head_storedPredicate : (storedPredicate name arg).toList.head? = name.head? := by
  have htake := take_storedPredicate name arg (show 1 ≤ attributeNameMax by decide)
  simpa [head?_take] using congrArg head? htake

end

/-- Cutting names and wrapping numbers does not change which atoms are valid. -/
theorem policyAtomIsValid_parsed (space : Option AttributeSpace) (tree : AtomTree) :
    policyAtomIsValid space tree.parsed = policyAtomIsValid space tree.atom := by
  cases tree with
  | regular name type arg =>
    simp only [AtomTree.parsed, AtomTree.atom, policyAtomIsValid, head_storedPredicate,
      String.toList_ofList, checkSystemFunction_storedPredicate]
  | comparison cmp left right =>
    have harg : ∀ arg : ArgTree, validateArgument space arg.parsed = validateArgument space arg.value := by
      intro arg
      cases arg <;> rfl
    simp only [AtomTree.parsed, AtomTree.atom, policyAtomIsValid, harg]

theorem storedPredicate_eq_iff {name : List Char} (hname : ∀ c ∈ name, identifierChar c = true)
    (arg : Option AbacValue) :
    storedPredicate name arg = String.ofList name ↔
      name.length < attributeNameMax ∨ name.length = attributeNameMax ∧ arg = none := by
  unfold storedPredicate storedName
  rw [String.length_ofList]
  split
  · next hshort => simp [hshort]
  · next hlong =>
    rw [← String.toList_inj, String.toList_append, nameChars, String.toList_ofList,
      String.toList_ofList]
    cases arg with
    | none =>
      have hempty : (if (none : Option AbacValue).isSome then "\x01" else "").toList = [] := rfl
      rw [hempty, append_nil, take_eq_self_iff]
      simp only [and_true]
      omega
    | some value =>
      -- the byte after the name is the count of values, which no name contains
      have hcount : (if (some value).isSome then "\x01" else "").toList = ['\x01'] := by
        rw [Option.isSome_some, if_pos rfl]
        rfl
      rw [hcount]
      constructor
      · intro heq
        have hmem : '\x01' ∈ name := heq ▸ mem_append_right _ mem_cons_self
        exact absurd (hname _ hmem) (by decide)
      · rintro (hshort | ⟨-, hnone⟩)
        · exact absurd hshort hlong
        · cases hnone

/-! ## The language -/

/-- The input is a policy of the language with this tree: the values of attributes are
strings and numbers, and every atom is valid. -/
structure RuleTree.InLanguage (space : Option AttributeSpace) (input : List Char)
    (tree : RuleTree) : Prop where
  spells : Spells tree.tokens (policyText input)
  wellFormed : tree.WellFormed
  values : ∀ atom ∈ tree.atoms, atom.NoDottedValue
  valid : ∀ atom ∈ tree.atoms, policyAtomIsValid space atom.atom = true

/-- A number that does not start with a zero and fits into an `int`, or no number. -/
def ArgTree.Plain : ArgTree → Prop
  | .number digits => digits.head? ≠ some '0' ∧ digitsValue digits < 2 ^ 31
  | _ => True

/-- An atom that the parser reads as it is written: the value of an attribute is a
string, the name fits into its field, and so do the numbers of a comparison. -/
def AtomTree.Plain : AtomTree → Prop
  | .regular name _ arg =>
    (arg = none ∨ ∃ val, arg = some (.string val)) ∧
      (name.length < attributeNameMax ∨ name.length = attributeNameMax ∧ arg = none)
  | .comparison _ left right => left.Plain ∧ right.Plain

/-- The values of attributes are of one kind that the grammar or the parser takes. -/
def RuleTree.Uniform (tree : RuleTree) : Prop :=
  (∀ atom ∈ tree.atoms, atom.NoDottedValue) ∨
    (∀ atom ∈ tree.atoms, atom.NoNumberValue) ∧ ∀ t ∈ tree.tokens, t.Lexed

/-- What the tree of the input must be like for the parser to be right about it. -/
def PlainPolicy (space : Option AttributeSpace) (input : List Char) : Prop :=
  ∀ tree : RuleTree, tree.WellFormed → Spells tree.tokens (policyText input) →
    (∀ atom ∈ tree.atoms, policyAtomIsValid space atom.atom = true) → tree.Uniform →
    ∀ atom ∈ tree.atoms, atom.Plain

theorem ArgTree.plain_iff {arg : ArgTree} (hwf : arg.token.WellFormed) :
    arg.Plain ↔ arg.token.Lexed ∧ arg.parsed = arg.value := by
  cases arg with
  | string val | dotted val => exact ⟨fun _ => ⟨⟨hwf, nofun⟩, rfl⟩, fun _ => trivial⟩
  | number digits =>
    simp only [Plain, Token.Lexed, token, parsed, value, AbacValue.number.injEq, atoi_eq_iff]
    constructor
    · rintro ⟨hzero, hlt⟩
      exact ⟨⟨hwf, fun val heq => Token.number.inj heq ▸ hzero⟩, hlt⟩
    · rintro ⟨⟨-, hzero⟩, hlt⟩
      exact ⟨hzero _ rfl, hlt⟩

theorem AtomTree.plain_iff {tree : AtomTree} (hwf : ∀ t ∈ tree.tokens, t.WellFormed) :
    tree.Plain ↔ tree.NoDottedValue ∧ tree.NoNumberValue ∧ (∀ t ∈ tree.tokens, t.Lexed) ∧
      tree.parsed = tree.atom := by
  match tree with
  | .comparison cmp left right =>
    have hleft := ArgTree.plain_iff (hwf left.token (by simp [tokens]))
    have hright := ArgTree.plain_iff (hwf right.token (by simp [tokens]))
    have hcmp : cmp.token.Lexed := ⟨hwf _ (by simp [tokens]), by cases cmp <;> simp [Comparison.token]⟩
    have hfixed : ∀ t ∈ [Token.lparen, .comma, .rparen], t.Lexed := by
      simp [Token.Lexed, Token.WellFormed]
    simp only [Plain, hleft, hright, NoDottedValue, NoNumberValue, true_and, tokens, parsed, atom,
      PolicyAtom.bool.injEq, forall_mem_cons]
    constructor
    · rintro ⟨⟨hl, hlv⟩, hr, hrv⟩
      exact ⟨⟨hcmp, hfixed _ (by simp), hl, hfixed _ (by simp), hr, hfixed _ (by simp), by simp⟩,
        hlv, hrv⟩
    · rintro ⟨⟨-, -, hl, -, hr, -⟩, hlv, hrv⟩
      exact ⟨⟨hl, hlv⟩, hr, hrv⟩
  | .regular name type none =>
    have hname : ∀ c ∈ name, identifierChar c = true :=
      (hwf (.identifier name) (by simp [tokens])).chars
    have hnumber : ∀ t ∈ (regular name type none).tokens, ∀ val, t ≠ .number val := by
      simp [tokens]
    have hlexed : ∀ t ∈ (regular name type none).tokens, t.Lexed := fun t ht =>
      (hwf t ht).lexed (hnumber t ht)
    simp only [Plain, NoDottedValue, NoNumberValue, true_and, true_or, parsed, atom, Option.map_none,
      PolicyAtom.normal.injEq, and_true, storedPredicate_eq_iff hname]
    exact ⟨fun h => ⟨hlexed, h⟩, fun h => h.2⟩
  | .regular name type (some (.string val)) =>
    have hname : ∀ c ∈ name, identifierChar c = true :=
      (hwf (.identifier name) (by simp [tokens])).chars
    have hnumber : ∀ t ∈ (regular name type (some (.string val))).tokens,
        ∀ val, t ≠ .number val := by
      simp [tokens, ArgTree.token]
    have hlexed : ∀ t ∈ (regular name type (some (.string val))).tokens, t.Lexed := fun t ht =>
      (hwf t ht).lexed (hnumber t ht)
    simp only [Plain, NoDottedValue, NoNumberValue, true_and, parsed, atom, Option.map_some,
      PolicyAtom.normal.injEq, storedPredicate_eq_iff hname, ArgTree.parsed, ArgTree.value,
      and_true, reduceCtorEq, and_false, or_false, false_or, Option.some.injEq,
      ArgTree.string.injEq, exists_eq']
    exact ⟨fun h => ⟨hlexed, h⟩, fun h => h.2⟩
  | .regular name type (some (.number digits)) =>
    constructor
    · rintro ⟨h | ⟨val, h⟩, -⟩ <;> cases h
    · exact fun h => h.2.1.elim
  | .regular name type (some (.dotted val)) =>
    constructor
    · rintro ⟨h | ⟨val, h⟩, -⟩ <;> cases h
    · exact fun h => h.1.elim

variable {t : Token}

theorem mem_atomsTokens (h : t ∈ atomsTokens first others) :
    t = .comma ∨ ∃ atom ∈ first :: others, t ∈ atom.tokens := by
  induction others generalizing first with
  | nil => exact .inr ⟨first, mem_cons_self, h⟩
  | cons second others ih =>
    obtain h | h := mem_append.mp h
    · exact .inr ⟨first, mem_cons_self, h⟩
    · obtain rfl | h := mem_cons.mp h
      · exact .inl rfl
      · exact (ih h).imp id fun ⟨atom, hatom, ht⟩ => ⟨atom, mem_cons_of_mem _ hatom, ht⟩

theorem mem_atomsTokens_of_mem {atom : AtomTree} (hatom : atom ∈ first :: others)
    (ht : t ∈ atom.tokens) : t ∈ atomsTokens first others := by
  induction others generalizing first with
  | nil =>
    obtain rfl := mem_singleton.mp hatom
    exact ht
  | cons second others ih =>
    obtain rfl | hatom := mem_cons.mp hatom
    · exact mem_append_left _ ht
    · exact mem_append_right _ (mem_cons_of_mem _ (ih hatom))

variable {tree : RuleTree}

theorem RuleTree.mem_tokens {atom : AtomTree} (hatom : atom ∈ tree.atoms) (ht : t ∈ atom.tokens) :
    t ∈ tree.tokens :=
  mem_cons_of_mem _ (mem_cons_of_mem _ (mem_atomsTokens_of_mem hatom ht))

theorem RuleTree.lexed_of_atoms (hwf : tree.WellFormed)
    (h : ∀ atom ∈ tree.atoms, ∀ t ∈ atom.tokens, t.Lexed) : ∀ t ∈ tree.tokens, t.Lexed := by
  intro t ht
  have htwf := hwf t ht
  obtain rfl | ht := mem_cons.mp ht
  · exact htwf.lexed nofun
  obtain rfl | ht := mem_cons.mp ht
  · exact htwf.lexed nofun
  obtain rfl | ⟨atom, hatom, ht⟩ := mem_atomsTokens ht
  · exact htwf.lexed nofun
  · exact h atom hatom t ht

theorem RuleTree.plain_iff (hwf : tree.WellFormed) (uuid : Uuid) :
    (∀ atom ∈ tree.atoms, atom.Plain) ↔
      (∀ atom ∈ tree.atoms, atom.NoDottedValue) ∧ (∀ atom ∈ tree.atoms, atom.NoNumberValue) ∧
        (∀ t ∈ tree.tokens, t.Lexed) ∧ tree.parsed uuid = tree.rule uuid := by
  have hatom : ∀ atom ∈ tree.atoms, atom.Plain ↔ atom.NoDottedValue ∧ atom.NoNumberValue ∧
      (∀ t ∈ atom.tokens, t.Lexed) ∧ atom.parsed = atom.atom :=
    fun atom hatom => AtomTree.plain_iff fun t ht => hwf t (tree.mem_tokens hatom ht)
  have hrule : tree.parsed uuid = tree.rule uuid ↔
      ∀ atom ∈ tree.atoms, atom.parsed = atom.atom := by
    simp only [parsed, rule, PolicyRule.mk.injEq, true_and, map_inj_left]
  rw [hrule]
  constructor
  · intro h
    have hparts := fun atom hmem => (hatom atom hmem).mp (h atom hmem)
    exact ⟨fun atom hmem => (hparts atom hmem).1, fun atom hmem => (hparts atom hmem).2.1,
      tree.lexed_of_atoms hwf fun atom hmem => (hparts atom hmem).2.2.1,
      fun atom hmem => (hparts atom hmem).2.2.2⟩
  · rintro ⟨hdotted, hnumber, hlexed, hparsed⟩ atom hmem
    exact (hatom atom hmem).mpr ⟨hdotted atom hmem, hnumber atom hmem,
      fun t ht => hlexed t (tree.mem_tokens hmem ht), hparsed atom hmem⟩

/-- The parser accepts exactly the policies of the language, and returns the rule that is
written, if and only if the policy is written in the plain part of the language. -/
theorem parseAbacPolicy_iff (space : Option AttributeSpace) (uuid : Uuid) (input : List Char) :
    (∀ rule, (parseAbacPolicy space uuid input).outcome = .ok rule ↔
      ∃ tree : RuleTree, tree.InLanguage space input ∧ rule = tree.rule uuid) ↔
    PlainPolicy space input := by
  constructor
  · intro hright tree hwf hspells hvalid huniform
    rw [tree.plain_iff hwf uuid]
    obtain hdotted | ⟨hnumber, hlexed⟩ := huniform
    · -- a policy of the language, which the parser accepts with the same tree
      have hparse := (hright _).mpr ⟨tree, ⟨hspells, hwf, hdotted, hvalid⟩, rfl⟩
      obtain ⟨tree', hspells', hlexed', htaken, hrule⟩ := parseAbacPolicy_eq_ok.mp hparse
      obtain rfl := tree.eq_of_spells hwf (fun t ht => (hlexed' t ht).1) hspells hspells'
      exact ⟨hdotted, fun atom hatom => (htaken atom hatom).1, hlexed', hrule.symm⟩
    · -- a policy that the parser accepts, which is one of the language with the same tree
      have htaken : ∀ atom ∈ tree.atoms, atom.Taken space := fun atom hatom =>
        ⟨hnumber atom hatom, by rw [policyAtomIsValid_parsed]; exact hvalid atom hatom⟩
      have hparse : (parseAbacPolicy space uuid input).outcome = .ok (tree.parsed uuid) :=
        parseAbacPolicy_eq_ok.mpr ⟨tree, hspells, hlexed, htaken, rfl⟩
      obtain ⟨tree', hlanguage, hrule⟩ := (hright (tree.parsed uuid)).mp hparse
      obtain rfl := tree.eq_of_spells hwf hlanguage.wellFormed hspells hlanguage.spells
      exact ⟨hlanguage.values, hnumber, hlexed, hrule⟩
  · intro hplain rule
    rw [parseAbacPolicy_eq_ok]
    constructor
    · rintro ⟨tree, hspells, hlexed, htaken, rfl⟩
      have hwf : tree.WellFormed := fun t ht => (hlexed t ht).1
      have hvalid : ∀ atom ∈ tree.atoms, policyAtomIsValid space atom.atom = true :=
        fun atom hatom => policyAtomIsValid_parsed space atom ▸ (htaken atom hatom).2
      have huniform : tree.Uniform := .inr ⟨fun atom hatom => (htaken atom hatom).1, hlexed⟩
      obtain ⟨hdotted, -, -, hrule⟩ :=
        (tree.plain_iff hwf uuid).mp (hplain tree hwf hspells hvalid huniform)
      exact ⟨tree, ⟨hspells, hwf, hdotted, hvalid⟩, hrule⟩
    · rintro ⟨tree, ⟨hspells, hwf, hdotted, hvalid⟩, rfl⟩
      obtain ⟨-, hnumber, hlexed, hrule⟩ :=
        (tree.plain_iff hwf uuid).mp (hplain tree hwf hspells hvalid (.inl hdotted))
      refine ⟨tree, hspells, hlexed, fun atom hatom => ⟨hnumber atom hatom, ?_⟩, hrule.symm⟩
      rw [policyAtomIsValid_parsed]
      exact hvalid atom hatom

/-- The policy `read:-a(u,5)`. -/
def numberPolicy : RuleTree := ⟨.read, .regular ['a'] .user (some (.number ['5'])), []⟩

theorem isIdentifier_of_mem {val : List Char}
    (h : val ∈ [['r', 'e', 'a', 'd'], ['a'], ['u']]) : IsIdentifier val 0 := by
  simp only [mem_cons, not_mem_nil, or_false] at h
  obtain rfl | rfl | rfl := h <;>
    exact ⟨by decide, all_eq_true.mp rfl, by decide, by decide, by decide⟩

/-- A policy with a number as the value of an attribute is one of the language, and is
refused. -/
theorem number_value_refused :
    numberPolicy.InLanguage none "read:-a(u,5)".toList ∧
      (parseAbacPolicy none 0 "read:-a(u,5)".toList).outcome = .failed := by
  have hnumber : Token.WellFormed (.number ['5']) := ⟨by decide, all_eq_true.mp rfl, by decide⟩
  refine ⟨⟨?_, ?_, forall_mem_singleton.mpr trivial, by decide⟩, by decide⟩
  · exact .token (.identifier ['r', 'e', 'a', 'd']) (.token .colonequals
      (.token (.identifier ['a']) (.token .lparen (.token (.identifier ['u'])
        (.token .comma (.token (.number ['5']) (.token .rparen .nil)))))))
  · have htokens : numberPolicy.tokens = [.identifier ['r', 'e', 'a', 'd'], .colonequals,
        .identifier ['a'], .lparen, .identifier ['u'], .comma, .number ['5'], .rparen] := by
      decide
    rw [RuleTree.WellFormed, htokens]
    simp only [forall_mem_cons]
    exact ⟨isIdentifier_of_mem (by decide), trivial, isIdentifier_of_mem (by decide), trivial,
      isIdentifier_of_mem (by decide), trivial, hnumber, trivial, by simp⟩

end Nexus.Abac
