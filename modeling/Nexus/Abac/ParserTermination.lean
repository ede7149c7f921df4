import Nexus.Abac.Recognition

/-!
# When the parser returns

`parse_abac_policy` reads each character of a policy a bounded number of times, and it
stays before the end of the text: `parseAbacPolicy_reads` and `Reads.suffix`.  It does
not always return.  `parseAbacPolicy_returns_iff` says when it does: at no place where
it asks for the next token may a string begin that is not closed, and after the comma of
an attribute there must be a value.

`Parse.Costs` is the account: what a call has read and what it leaves together stay below
what it was given, up to two characters for each token.
-/

namespace Nexus.Abac

/-! ## What the lexer leaves -/

variable {rest : List Char} {t : Token}

theorem lexDigits_suffix (last : Char) (text : List Char) :
    (lexDigits last text).2 <:+ last :: text := by
  induction text generalizing last with
  | nil => exact List.suffix_rfl
  | cons c cs ih =>
    rw [lexDigits]
    split
    · exact (ih c).trans (List.suffix_cons last _)
    · exact List.suffix_cons last _

theorem lexIdentifierChars_suffix (dot sign : Bool) (last : Char) (text : List Char) :
    (lexIdentifierChars dot sign last text).2 <:+ last :: text := by
  induction text generalizing dot sign last with
  | nil => exact List.suffix_rfl
  | cons c cs ih =>
    have hgo : ∀ dot sign, (lexIdentifierChars dot sign c cs).2 <:+ last :: c :: cs :=
      fun dot sign => (ih dot sign c).trans (List.suffix_cons last _)
    have hskip : cs <:+ last :: c :: cs := (List.suffix_cons c cs).trans (List.suffix_cons last _)
    rw [lexIdentifierChars]
    split
    · exact hgo dot sign
    split
    · split
      · exact hskip
      · exact hgo true sign
    split
    · split
      · exact hskip
      · exact hgo dot true
    · exact List.suffix_cons last _

theorem lexString_suffix {cs : List Char} (h : lexString cs = some (t, rest)) :
    rest <:+ cs := by
  obtain ⟨⟨run, rest'⟩, hrun, heq⟩ := Option.map_eq_some_iff.mp h
  obtain ⟨-, rfl⟩ := lexStringChars_eq_some.mp hrun
  obtain ⟨-, rfl⟩ := Prod.mk.inj heq
  exact ⟨run ++ ['"'], by simp⟩

theorem lexAngle_suffix (c : Char) (alone withEquals : Token) (cs : List Char) :
    (lexAngle c alone withEquals cs).2 <:+ c :: cs := by
  unfold lexAngle
  split
  · exact (List.suffix_cons _ _).trans (List.suffix_cons _ _)
  · exact List.suffix_rfl
  · exact List.suffix_cons _ _

theorem lexWithEquals_suffix (t : Token) (cs : List Char) : (lexWithEquals t cs).2 <:+ cs := by
  unfold lexWithEquals
  split
  · exact List.suffix_cons _ _
  · exact List.suffix_cons _ _
  · exact List.suffix_rfl

theorem lexColon_suffix (cs : List Char) : (lexColon cs).2 <:+ cs := by
  unfold lexColon
  split
  · exact List.suffix_cons _ _
  · exact List.suffix_cons _ _
  · exact List.suffix_rfl

theorem digitsReads_le (last : Char) (text : List Char) :
    digitsReads text + (lexDigits last text).2.length ≤ text.length + 2 := by
  induction text generalizing last with
  | nil => exact le_rfl
  | cons c cs ih =>
    have h := ih c
    rw [digitsReads, lexDigits]
    split <;> simp only [List.length_cons] <;> omega

theorem identifierReads_le (dot sign : Bool) (last : Char) (text : List Char) :
    identifierReads dot sign text + (lexIdentifierChars dot sign last text).2.length ≤
      text.length + 2 := by
  induction text generalizing dot sign last with
  | nil => exact le_rfl
  | cons c cs ih =>
    have hgo := fun dot sign => ih dot sign c
    rw [identifierReads, lexIdentifierChars]
    split
    · have h := hgo dot sign
      simp only [List.length_cons]
      omega
    split
    · split
      · simp only [List.length_cons]
        omega
      · have h := hgo true sign
        simp only [List.length_cons]
        omega
    split
    · split
      · simp only [List.length_cons]
        omega
      · have h := hgo dot true
        simp only [List.length_cons]
        omega
    · simp only [List.length_cons]
      omega

theorem lexIdentifier_rest (c : Char) (cs : List Char) :
    (lexIdentifier c cs).2 = (lexIdentifierChars false (c = '@') c cs).2 := by
  rw [lexIdentifier]
  split
  · next heq => rw [heq]
  · next heq =>
    rw [heq]
    split
    · rfl
    split <;> rfl

theorem lexNumber_rest (c : Char) (cs : List Char) : (lexNumber c cs).2 = (lexDigits c cs).2 := by
  rw [lexNumber]
  split <;> rfl

theorem stringReads_append {run : List Char} (hrun : '"' ∉ run) (rest : List Char) :
    stringReads (run ++ '"' :: rest) = run.length + 1 := by
  induction run with
  | nil => rfl
  | cons c cs ih =>
    have hc : c ≠ '"' := fun heq => hrun (heq ▸ List.mem_cons_self)
    rw [List.cons_append, stringReads, if_neg hc, ih fun h => hrun (List.mem_cons_of_mem _ h),
      List.length_cons]

theorem stringReads_le {cs : List Char} (h : lexString cs = some (t, rest)) :
    stringReads cs + rest.length ≤ cs.length + 2 := by
  obtain ⟨⟨run, rest'⟩, hrun, heq⟩ := Option.map_eq_some_iff.mp h
  obtain ⟨hquote, rfl⟩ := lexStringChars_eq_some.mp hrun
  obtain ⟨-, rfl⟩ := Prod.mk.inj heq
  rw [stringReads_append hquote, List.length_append, List.length_cons]
  dsimp only
  omega

/-- A call of the lexer leaves a part of the text, and has read no more than what it took
off and two characters. -/
theorem lexerNextToken_account {text : List Char} (h : lexerNextToken text = some (t, rest)) :
    rest <:+ text ∧ lexerReads text + rest.length ≤ text.length + 2 := by
  -- a branch that reads at most two characters needs no count
  have hshort : ∀ {c : Char} {cs : List Char} {r : Token × List Char},
      some r = some (t, rest) → r.2 <:+ c :: cs → lexerReads (c :: cs) ≤ 2 →
        rest <:+ c :: cs ∧ lexerReads (c :: cs) + rest.length ≤ (c :: cs).length + 2 := by
    intro c cs r heq hsuffix hreads
    cases heq
    have hlength : rest.length ≤ (c :: cs).length := hsuffix.length_le
    exact ⟨hsuffix, by omega⟩
  fun_induction lexerNextToken text with
  | case1 =>
    cases h
    exact ⟨List.suffix_rfl, by decide⟩
  | case2 c cs hblank ih =>
    obtain ⟨hsuffix, hreads⟩ := ih h
    refine ⟨hsuffix.trans (List.suffix_cons c cs), ?_⟩
    rw [lexerReads, if_pos hblank, List.length_cons]
    omega
  | case3 cs | case4 cs | case5 cs => exact hshort h (List.suffix_cons _ cs) (by simp [lexerReads])
  | case6 cs | case7 cs => exact hshort h (lexAngle_suffix _ _ _ cs) (by simp [lexerReads])
  | case8 cs | case9 cs =>
    exact hshort h ((lexWithEquals_suffix _ cs).trans (List.suffix_cons _ cs)) (by simp [lexerReads])
  | case10 cs =>
    exact hshort h ((lexColon_suffix cs).trans (List.suffix_cons _ cs)) (by simp [lexerReads])
  | case11 c cs _ _ _ _ _ _ _ _ _ hident =>
    have hrest : rest = (lexIdentifierChars false (c = '@') c cs).2 := by
      rw [← lexIdentifier_rest, Option.some.inj h]
    have hcount := identifierReads_le false (c = '@') c cs
    have hreads : lexerReads (c :: cs) = identifierReads false (c = '@') cs + 1 := by
      simp [lexerReads, *]
    rw [hreads, hrest, List.length_cons]
    exact ⟨lexIdentifierChars_suffix _ _ c cs, by omega⟩
  | case12 cs =>
    have hcount := stringReads_le h
    have hreads : lexerReads ('"' :: cs) = stringReads cs + 1 := by simp [lexerReads]
    rw [hreads, List.length_cons]
    exact ⟨(lexString_suffix h).trans (List.suffix_cons _ cs), by omega⟩
  | case13 c cs _ _ _ _ _ _ _ _ _ _ _ hnumber =>
    have hrest : rest = (lexDigits c cs).2 := by rw [← lexNumber_rest, Option.some.inj h]
    have hcount := digitsReads_le c cs
    have hreads : lexerReads (c :: cs) = digitsReads cs + 1 := by simp [lexerReads, *]
    rw [hreads, hrest, List.length_cons]
    exact ⟨lexDigits_suffix c cs, by omega⟩
  | case14 c cs => exact hshort h List.suffix_rfl (by simp [lexerReads, *])

theorem Reads.suffix {text : List Char} {tokens : List Token} (h : Reads text tokens rest) :
    rest <:+ text := by
  induction h with
  | nil => exact List.suffix_rfl
  | cons hlex _ ih => exact ih.trans (lexerNextToken_account hlex).1

/-! ## The account of a call -/

namespace Parse

variable {α β : Type}

/-- What the call reads, and what its result leaves, stay below the bound. -/
structure Costs (left : α → Nat) (x : Parse α) (bound : Nat) : Prop where
  ok : ∀ a, x.outcome = .ok a → x.reads + left a ≤ bound
  failed : x.outcome = .failed → x.reads ≤ bound

variable {left : α → Nat} {x : Parse α} {bound : Nat}

theorem Costs.mono {bound' : Nat} (h : x.Costs left bound) (hle : bound ≤ bound') :
    x.Costs left bound' :=
  ⟨fun a ha => (h.ok a ha).trans hle, fun hf => (h.failed hf).trans hle⟩

theorem costs_pure (left : α → Nat) (a : α) : (pure a : Parse α).Costs left (left a) :=
  ⟨fun b hb => by cases hb; simp, nofun⟩

theorem costs_fail (left : α → Nat) (bound : Nat) : (fail : Parse α).Costs left bound :=
  ⟨nofun, fun _ => by simp⟩

theorem costs_crash (left : α → Nat) (bound : Nat) : (crash : Parse α).Costs left bound :=
  ⟨nofun, nofun⟩

theorem Costs.bind {left' : β → Nat} {f : α → Parse β} (hx : x.Costs left bound) (extra : Nat)
    (hf : ∀ a, x.outcome = .ok a → (f a).Costs left' (left a + extra)) :
    (x >>= f).Costs left' (bound + extra) := by
  change (Parse.bind x f).Costs left' (bound + extra)
  unfold Parse.bind
  split
  · next a ha =>
    have hok := hx.ok a ha
    refine ⟨fun b hb => ?_, fun hfailed => ?_⟩
    · have h := (hf a ha).ok b hb
      dsimp only
      omega
    · have h := (hf a ha).failed hfailed
      dsimp only
      omega
  · next hfailed =>
    exact ⟨nofun, fun _ => (hx.failed hfailed).trans (Nat.le_add_right _ _)⟩
  · exact ⟨nofun, nofun⟩

theorem costs_ite {y : Parse α} {p : Prop} [Decidable p] (hx : x.Costs left bound)
    (hy : y.Costs left bound) :
    (if p then x else y).Costs left bound := by
  split
  · exact hx
  · exact hy

end Parse

open Parse

/-- The text that a parser leaves. -/
abbrev leftOver {α : Type} (r : α × Parser) : Nat := r.2.rest.length

theorem nextToken_costs (p : Parser) : (nextToken p).Costs leftOver (p.rest.length + 2) := by
  unfold nextToken
  split
  · exact (costs_pure _ _).mono (Nat.le_add_right _ _)
  · split
    · exact ⟨nofun, nofun⟩
    · next token rest hlex =>
      refine ⟨fun a ha => ?_, nofun⟩
      cases ha
      exact (lexerNextToken_account hlex).2

theorem consumeToken_costs (expected : Token) (p : Parser) :
    (consumeToken expected p).Costs (fun p => p.rest.length) (p.rest.length + 2) :=
  (nextToken_costs p).bind 0 fun _ _ => costs_ite (costs_pure _ _) (costs_fail _ _)

theorem parseEntity_costs (p : Parser) : (parseEntity p).Costs leftOver (p.rest.length + 2) := by
  refine (nextToken_costs p).bind 0 fun r _ => ?_
  dsimp only
  split
  · exact costs_pure _ _
  · exact costs_pure _ _
  · exact costs_fail _ _

theorem parseOptionalValue_costs (p : Parser) :
    (parseOptionalValue p).Costs leftOver (p.rest.length + 4) := by
  refine (nextToken_costs p).bind 2 fun r _ => ?_
  dsimp only
  split
  · refine (nextToken_costs r.2).bind 0 fun r' _ => ?_
    split
    · exact costs_fail _ _
    · split
      · exact costs_crash _ _
      · exact costs_pure _ _
  · exact (costs_pure _ _).mono (Nat.le_add_right _ _)
  · exact costs_fail _ _

theorem parseArgument_costs (p : Parser) :
    (parseArgument p).Costs leftOver (p.rest.length + 2) := by
  refine (nextToken_costs p).bind 0 fun r _ => ?_
  dsimp only
  split
  · exact costs_fail _ _
  · exact costs_pure _ _

theorem parseRegularAtomType_costs (p : Parser) :
    (parseRegularAtomType p).Costs leftOver (p.rest.length + 6) :=
  (parseEntity_costs p).bind 4 fun r _ =>
    (parseOptionalValue_costs r.2).bind 0 fun _ _ => costs_pure _ _

theorem parseBooleanAtomType_costs (p : Parser) :
    (parseBooleanAtomType p).Costs leftOver (p.rest.length + 6) :=
  (parseArgument_costs p).bind 4 fun r _ =>
    (consumeToken_costs .comma r.2).bind 2 fun p' _ =>
      (parseArgument_costs p').bind 0 fun _ _ => costs_pure _ _

theorem parseAtomFrom_costs (token : Token) (p : Parser) :
    (parseAtomFrom token p).Costs leftOver (p.rest.length + 8) := by
  unfold parseAtomFrom
  split
  · exact (consumeToken_costs .lparen p).bind 6 fun p' _ =>
      (parseRegularAtomType_costs p').bind 0 fun _ _ => costs_pure _ _
  · split
    · exact costs_fail _ _
    · exact (consumeToken_costs .lparen p).bind 6 fun p' _ =>
        (parseBooleanAtomType_costs p').bind 0 fun _ _ => costs_pure _ _

theorem parseAtom_costs (space : Option AttributeSpace) (p : Parser) :
    (parseAtom space p).Costs leftOver (p.rest.length + 12) :=
  (nextToken_costs p).bind 10 fun r _ =>
    (parseAtomFrom_costs r.1 r.2).bind 2 fun r' _ =>
      (consumeToken_costs .rparen r'.2).bind 0 fun _ _ =>
        costs_ite (costs_pure _ _) (costs_fail _ _)

theorem parseAtoms_costs (space : Option AttributeSpace) (fuel : Nat) (p : Parser) :
    (parseAtoms space fuel p).Costs leftOver (p.rest.length + 14 * fuel) := by
  induction fuel generalizing p with
  | zero => exact costs_crash _ _
  | succ fuel ih =>
    refine Costs.mono ((parseAtom_costs space p).bind (2 + 14 * fuel) fun r _ => ?_) (by omega)
    refine Costs.mono ((nextToken_costs r.2).bind (14 * fuel) fun r' _ => ?_)
      (Nat.add_assoc _ _ _).le
    refine costs_ite ?_ ((costs_pure _ _).mono (Nat.le_add_right _ _))
    exact (ih r'.2).bind 0 fun _ _ => costs_pure _ _

theorem parsePermission_costs (p : Parser) :
    (parsePermission p).Costs leftOver (p.rest.length + 2) := by
  refine (nextToken_costs p).bind 0 fun r _ => ?_
  dsimp only
  split
  · split
    · exact costs_fail _ _
    · exact costs_pure _ _
  · exact costs_fail _ _

theorem parseRule_costs (space : Option AttributeSpace) (uuid : Uuid) (text : List Char) :
    (parseRule space uuid ⟨text, none⟩).Costs (fun _ => 0) (15 * text.length + 18) := by
  refine Costs.mono ((parsePermission_costs ⟨text, none⟩).bind (2 + 14 * (text.length + 1))
    fun r hr => ?_) (by dsimp only; omega)
  obtain ⟨rest, hreads, hrest⟩ := parsePermission_eq_ok.mp hr
  have hperm : r.2.rest.length ≤ text.length := by
    rw [hrest]
    exact hreads.suffix.length_le
  refine Costs.mono ((consumeToken_costs .colonequals r.2).bind (14 * (text.length + 1))
    fun p' hp' => ?_) (Nat.add_assoc _ _ _).le
  rw [hrest] at hp'
  obtain ⟨rest', hlex, rfl⟩ := consumeToken_eq_ok.mp hp'
  have hcolon := (lexerNextToken_account hlex).1.length_le
  rw [hrest] at hperm
  refine Costs.mono ((parseAtoms_costs space _ _).bind 0 fun _ _ =>
    (costs_pure _ _).mono (Nat.zero_le _)) ?_
  exact Nat.add_le_add_left (Nat.mul_le_mul_left 14 (Nat.succ_le_succ (hcolon.trans hperm))) _

/-- Whatever the parser returns, it has read each character a bounded number of times. -/
theorem parseAbacPolicy_reads (space : Option AttributeSpace) (uuid : Uuid) (input : List Char)
    (h : (parseAbacPolicy space uuid input).outcome ≠ .stuck) :
    (parseAbacPolicy space uuid input).reads ≤ 15 * (policyText input).length + 18 := by
  have hcosts : (parseAbacPolicy space uuid input).Costs (fun _ => 0)
      (15 * (policyText input).length + 18) :=
    (parseRule_costs space uuid (policyText input)).bind 0 fun _ _ =>
      costs_ite (costs_pure _ _) (costs_fail _ _)
  cases houtcome : (parseAbacPolicy space uuid input).outcome with
  | ok rule => exact hcosts.ok rule houtcome
  | failed => exact hcosts.failed houtcome
  | stuck => exact absurd houtcome h

/-! ## Where the parser does not return -/

variable {text : List Char}

theorem consumeToken_eq_stuck {expected : Token} :
    (consumeToken expected ⟨text, none⟩).outcome = .stuck ↔ Unclosed text := by
  simp only [consumeToken, bind_eq_stuck, nextToken_eq_stuck, Prod.exists]
  refine ⟨?_, .inl⟩
  rintro (h | ⟨t, p, -, h⟩)
  · exact h
  · split at h <;> cases h

/-- The beginnings of lists of atoms after which the parser asks for another token. -/
inductive AtomsPart (space : Option AttributeSpace) : Bool → List Token → Prop
  | part {value : Bool} {tokens : List Token} : AtomPart value tokens → AtomsPart space value tokens
  | whole (tree : AtomTree) : tree.Taken space → AtomsPart space false tree.tokens
  | more {value : Bool} {tokens : List Token} (tree : AtomTree) :
      tree.Taken space → AtomsPart space value tokens →
        AtomsPart space value (tree.tokens ++ .comma :: tokens)

theorem length_lt_of_comma {rest : List Char} (h : lexerNextToken text = some (.comma, rest)) :
    rest.length < text.length := by
  obtain heq | ⟨heq, -⟩ | ⟨blanks, body, rfl, -, -, rfl | ⟨hopen, -⟩⟩ := lexerNextToken_sound h
  · cases heq
  · cases heq
  · simp only [Token.text, List.length_append, List.length_cons, List.length_nil]
    omega
  · cases hopen

variable {space : Option AttributeSpace}

theorem parseAtoms_eq_stuck {fuel : Nat} (hfuel : text.length < fuel) :
    (parseAtoms space fuel ⟨text, none⟩).outcome = .stuck ↔
      ∃ value tokens rest, AtomsPart space value tokens ∧ Reads text tokens rest ∧
        Fatal value rest := by
  induction fuel generalizing text with
  | zero => exact absurd hfuel (Nat.not_lt_zero _)
  | succ fuel ih =>
    -- after an atom and a comma there is enough fuel for what is left
    have hrest : ∀ {tree : AtomTree} {rest₁ rest₂ : List Char}, Reads text tree.tokens rest₁ →
        lexerNextToken rest₁ = some (.comma, rest₂) → rest₂.length < fuel := by
      intro tree rest₁ rest₂ hreads hlex
      have hcomma := length_lt_of_comma hlex
      have hatom := hreads.suffix.length_le
      omega
    simp only [parseAtoms, bind_eq_stuck, Prod.exists, parseAtom_eq_ok,
      (takes_atom space).stuck]
    constructor
    · rintro (⟨value, tokens, rest, hpart, hreads, hfatal⟩ |
        ⟨_, _, ⟨tree, rest₁, hreads, hnumber, hvalid, rfl, rfl⟩, h⟩)
      · exact ⟨value, tokens, rest, .part hpart, hreads, hfatal⟩
      obtain h | ⟨t, _, hnext, h⟩ := h
      · exact ⟨false, _, rest₁, .whole tree ⟨hnumber, hvalid⟩, hreads, .inl (nextToken_eq_stuck.mp h)⟩
      obtain ⟨rest₂, hlex, rfl⟩ := nextToken_eq_ok.mp hnext
      split at h
      · next hcomma =>
        subst hcomma
        simp only [bind_eq_stuck, Parse.pure_outcome, reduceCtorEq, and_false, exists_false,
          or_false] at h
        obtain ⟨value, tokens, rest, hpart, hreads', hfatal⟩ := (ih (hrest hreads hlex)).mp h
        exact ⟨value, _, rest, .more tree ⟨hnumber, hvalid⟩ hpart,
          reads_append_iff.mpr ⟨_, hreads, .cons hlex hreads'⟩, hfatal⟩
      · cases h
    · rintro ⟨value, tokens, rest, hpart, hreads, hfatal⟩
      cases hpart with
      | part hpart => exact .inl ⟨value, tokens, rest, hpart, hreads, hfatal⟩
      | whole tree htaken =>
        exact .inr ⟨_, _, ⟨tree, rest, hreads, htaken.1, htaken.2, rfl, rfl⟩,
          .inl (nextToken_eq_stuck.mpr (fatal_false.mp hfatal))⟩
      | more tree htaken hpart =>
        obtain ⟨rest₁, hreads, hmore⟩ := reads_append_iff.mp hreads
        obtain ⟨rest₂, hlex, hreads'⟩ := reads_cons_iff.mp hmore
        refine .inr ⟨_, _, ⟨tree, rest₁, hreads, htaken.1, htaken.2, rfl, rfl⟩,
          .inr ⟨.comma, _, nextToken_eq_ok.mpr ⟨_, hlex, rfl⟩, ?_⟩⟩
        rw [if_pos rfl]
        exact bind_eq_stuck.mpr (.inl
          ((ih (hrest hreads hlex)).mpr ⟨value, _, rest, hpart, hreads', hfatal⟩))

/-- The beginnings of rules after which the parser asks for another token. -/
inductive RulePart (space : Option AttributeSpace) : Bool → List Token → Prop
  | start : RulePart space false []
  | perm (perm : Perm) : RulePart space false [.identifier perm.toString.toList]
  | atoms {value : Bool} {tokens : List Token} (perm : Perm) : AtomsPart space value tokens →
      RulePart space value (.identifier perm.toString.toList :: .colonequals :: tokens)

theorem parseRule_eq_stuck {uuid : Uuid} :
    (parseRule space uuid ⟨text, none⟩).outcome = .stuck ↔
      ∃ value tokens rest, RulePart space value tokens ∧ Reads text tokens rest ∧
        Fatal value rest := by
  have hperm : (parsePermission ⟨text, none⟩).outcome = .stuck ↔ Unclosed text := by
    simp only [parsePermission, bind_eq_stuck, nextToken_eq_stuck, Prod.exists]
    refine ⟨?_, .inl⟩
    rintro (h | ⟨t, p, -, h⟩)
    · exact h
    · split at h
      · split at h <;> cases h
      · cases h
  simp only [parseRule, bind_eq_stuck, hperm, Prod.exists, parsePermission_eq_ok,
    Parse.pure_outcome, reduceCtorEq, and_false, exists_false, or_false]
  constructor
  · rintro (h | ⟨perm, _, ⟨rest₁, hreads, rfl⟩, h | ⟨_, hcolon, h⟩⟩)
    · exact ⟨false, [], text, .start, .nil, .inl h⟩
    · exact ⟨false, _, rest₁, .perm perm, hreads, .inl (consumeToken_eq_stuck.mp h)⟩
    · obtain ⟨rest₂, hlex, rfl⟩ := consumeToken_eq_ok.mp hcolon
      obtain ⟨value, tokens, rest, hpart, hreads', hfatal⟩ :=
        (parseAtoms_eq_stuck (Nat.lt_succ_self _)).mp h
      exact ⟨value, _, rest, .atoms perm hpart,
        reads_append_iff.mpr ⟨_, hreads, .cons hlex hreads'⟩, hfatal⟩
  · rintro ⟨value, tokens, rest, hpart, hreads, hfatal⟩
    cases hpart with
    | start =>
      cases hreads
      exact .inl (fatal_false.mp hfatal)
    | perm perm =>
      exact .inr ⟨perm, _, ⟨rest, hreads, rfl⟩, .inl (consumeToken_eq_stuck.mpr (fatal_false.mp hfatal))⟩
    | atoms perm hpart =>
      obtain ⟨rest₁, hlex, hreads⟩ := reads_cons_iff.mp hreads
      obtain ⟨rest₂, hcolon, hreads⟩ := reads_cons_iff.mp hreads
      exact .inr ⟨perm, _, ⟨rest₁, .cons hlex .nil, rfl⟩,
        .inr ⟨_, consumeToken_eq_ok.mpr ⟨_, hcolon, rfl⟩,
          (parseAtoms_eq_stuck (Nat.lt_succ_self _)).mpr
            ⟨value, _, rest, hpart, hreads, hfatal⟩⟩⟩

/-- At every place where the parser asks for a token, a string that begins there is
closed, and after the comma of an attribute a value follows.  The places are those of the
lexer, which goes on inside of a word that no delimiter ends; for texts of the grammar see
`returningPolicy_of_spells`. -/
def ReturningPolicy (space : Option AttributeSpace) (input : List Char) : Prop :=
  ∀ value tokens rest, RulePart space value tokens → Reads (policyText input) tokens rest →
    ¬ Unclosed rest ∧
      (value = true → ∃ (arg : ArgTree) (rest' : List Char),
        lexerNextToken rest = some (arg.token, rest'))

theorem not_fatal_iff {value : Bool} :
    ¬ Fatal value text ↔ ¬ Unclosed text ∧ (value = true →
      ∃ (arg : ArgTree) (rest : List Char), lexerNextToken text = some (arg.token, rest)) := by
  constructor
  · intro h
    refine ⟨fun hunclosed => h (.inl hunclosed), fun hvalue => ?_⟩
    cases hlex : lexerNextToken text with
    | none => exact absurd (.inl (lexerNextToken_eq_none.mp hlex)) h
    | some r =>
      obtain ⟨t, rest⟩ := r
      cases hv : abacValueFromToken t with
      | none => exact absurd (.inr ⟨hvalue, t, rest, hlex, hv⟩) h
      | some v =>
        obtain ⟨arg, rfl, -⟩ := abacValueFromToken_eq_some.mp hv
        exact ⟨arg, rest, rfl⟩
  · rintro ⟨hclosed, hvalue⟩ (h | ⟨hv, t, rest, hlex, hnone⟩)
    · exact hclosed h
    · obtain ⟨arg, rest', hlex'⟩ := hvalue hv
      rw [hlex] at hlex'
      cases hlex'
      rw [abacValueFromToken_eq_some.mpr ⟨arg, rfl, rfl⟩] at hnone
      cases hnone

theorem parseAbacPolicy_eq_stuck {uuid : Uuid} {input : List Char} :
    (parseAbacPolicy space uuid input).outcome = .stuck ↔
      ∃ value tokens rest, RulePart space value tokens ∧ Reads (policyText input) tokens rest ∧
        Fatal value rest := by
  rw [← @parseRule_eq_stuck _ space uuid, parseAbacPolicy, bind_eq_stuck]
  refine ⟨?_, .inl⟩
  rintro (h | ⟨r, -, h⟩)
  · exact h
  · dsimp only at h
    split at h <;> cases h

/-- The parser returns, within a linear number of reads and without leaving the text, if
and only if no string is left open where it asks for a token and every attribute with a
comma has a value. -/
theorem parseAbacPolicy_returns_iff (space : Option AttributeSpace) (uuid : Uuid)
    (input : List Char) :
    ((parseAbacPolicy space uuid input).outcome ≠ .stuck ∧
      (parseAbacPolicy space uuid input).reads ≤ 15 * (policyText input).length + 18 ∧
      ∀ tokens rest, Reads (policyText input) tokens rest → rest <:+ policyText input) ↔
    ReturningPolicy space input := by
  constructor
  · rintro ⟨hreturns, -, -⟩ value tokens rest hpart hreads
    refine not_fatal_iff.mp fun hfatal => hreturns ?_
    exact parseAbacPolicy_eq_stuck.mpr ⟨value, tokens, rest, hpart, hreads, hfatal⟩
  · intro hpolicy
    have hreturns : (parseAbacPolicy space uuid input).outcome ≠ .stuck := by
      intro hstuck
      obtain ⟨value, tokens, rest, hpart, hreads, hfatal⟩ := parseAbacPolicy_eq_stuck.mp hstuck
      exact not_fatal_iff.mpr (hpolicy value tokens rest hpart hreads) hfatal
    exact ⟨hreturns, parseAbacPolicy_reads space uuid input hreturns,
      fun _ _ hreads => hreads.suffix⟩

/-- After a part of a text that spells tokens, the lexer finds the next of them. -/
theorem Reads.next {tokens part : List Token} (h : Reads text (tokens ++ [.done]) [])
    (hpart : Reads text part rest) :
    ∃ t rest' n, lexerNextToken rest = some (t, rest') ∧
      part ++ [t] <+: tokens ++ List.replicate n .done := by
  induction part generalizing text tokens with
  | nil =>
    cases hpart
    cases tokens with
    | nil =>
      obtain ⟨rest', hlex, -⟩ := reads_cons_iff.mp h
      exact ⟨.done, rest', 1, hlex, List.prefix_rfl⟩
    | cons t tokens =>
      obtain ⟨rest', hlex, -⟩ := reads_cons_iff.mp h
      exact ⟨t, rest', 0, hlex, [] ++ tokens, by simp⟩
  | cons p part ih =>
    obtain ⟨text', hlex, hpart⟩ := reads_cons_iff.mp hpart
    cases tokens with
    | nil =>
      -- at the end of the text the lexer stays there
      obtain ⟨_, hdone, hend⟩ := reads_cons_iff.mp h
      cases hlex.symm.trans hdone
      cases hend
      have hagain : Reads [] ([] ++ [.done]) [] := .cons rfl .nil
      obtain ⟨t, rest', n, hnext, hprefix⟩ := ih hagain hpart
      exact ⟨t, rest', n + 1, hnext, (List.prefix_cons_inj _).mpr hprefix⟩
    | cons t tokens =>
      obtain ⟨_, hfirst, hreads⟩ := reads_cons_iff.mp h
      cases hlex.symm.trans hfirst
      obtain ⟨t, rest', n, hnext, hprefix⟩ := ih hreads hpart
      exact ⟨t, rest', n, hnext, (List.prefix_cons_inj _).mpr hprefix⟩

/-- In the words of the grammar: the parser returns on every text that spells tokens in
which an attribute with a comma has a value. -/
theorem returningPolicy_of_spells {input : List Char} {tokens : List Token}
    (hspells : Spells tokens (policyText input)) (hsep : Separated tokens)
    (hlexed : ∀ t ∈ tokens, t.Lexed)
    (hvalue : ∀ n part t, RulePart space true part →
      part ++ [t] <+: tokens ++ List.replicate n .done → ∃ arg : ArgTree, t = arg.token) :
    ReturningPolicy space input := by
  intro value part rest hpart hreads
  obtain ⟨t, rest', n, hnext, hprefix⟩ := (reads_of_spells hspells hsep hlexed).next hreads
  refine ⟨fun hunclosed => ?_, fun htrue => ?_⟩
  · rw [lexerNextToken_eq_none.mpr hunclosed] at hnext
    cases hnext
  · subst htrue
    obtain ⟨arg, rfl⟩ := hvalue n part t hpart hprefix
    exact ⟨arg, rest', hnext⟩

/-- A policy that ends inside of a string is never left. -/
theorem unclosed_string_stuck :
    (parseAbacPolicy none 0 ("read:-a(u,".toList ++ ['"', 'x'])).outcome = .stuck := by
  decide

end Nexus.Abac
