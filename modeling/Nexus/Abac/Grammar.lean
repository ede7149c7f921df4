import Nexus.Abac.Parser

/-!
# The policy language

The language of policies is given by syntax trees:

* a rule is a permission and one or more atoms,
* an atom is a name applied to `u` or `o` and at most one value, or a comparison of two
  values,
* a value is a string, a number or a dotted identifier.

`RuleTree.tokens` writes a tree as tokens, and `Spells` says which texts spell a list of
tokens, with blanks and tabs between them.  Nothing here runs the lexer or the parser.
`RuleTree.eq_of_spells` shows that a text spells at most one tree: no two tokens that a
tree has side by side can be read as one.
-/

namespace Nexus.Abac

open List

/-! ## Tokens as text -/

/-- The text of a token. -/
def Token.text : Token → List Char
  | .lparen => ['(']
  | .rparen => [')']
  | .comma => [',']
  | .number val => val
  | .string val => '"' :: (val ++ ['"'])
  | .identifier val => val
  | .dotNotation val => val
  | .colonequals => [':', '-']
  | .lt => ['<']
  | .le => ['<', '=']
  | .gt => ['>']
  | .ge => ['>', '=']
  | .ee => ['=', '=']
  | .ne => ['!', '=']
  | .done => []
  | .unknown => []

/-- The characters an identifier starts with. -/
def identifierStart (c : Char) : Bool := c.isAlpha || c = '@'

/-- The characters of an identifier. -/
def identifierChar (c : Char) : Bool := c.isAlphanum || c = '.' || c = '@'

/-- A text of identifier characters, with the given number of dots and at most one `@`. -/
structure IsIdentifier (val : List Char) (dots : Nat) : Prop where
  start : val.head?.any identifierStart = true
  chars : ∀ c ∈ val, identifierChar c = true
  dots : val.count '.' = dots
  signs : val.count '@' ≤ 1
  short : val.length ≤ maxArgumentLen

/-- A token that may stand in a policy: what its text is made of, and its length. -/
def Token.WellFormed : Token → Prop
  | .number val => val ≠ [] ∧ (∀ c ∈ val, c.isDigit = true) ∧ val.length ≤ maxArgumentLen
  | .string val => '"' ∉ val ∧ val.length ≤ maxArgumentLen
  | .identifier val => IsIdentifier val 0
  | .dotNotation val => IsIdentifier val 1
  | .done | .unknown => False
  | _ => True

/-- Tokens whose text can be the beginning of that of another. -/
def Token.isOpen : Token → Bool
  | .number _ | .identifier _ | .dotNotation _ | .lt | .gt => true
  | _ => false

/-- Tokens that end any token before them. -/
def Token.isPunctuation : Token → Bool
  | .lparen | .rparen | .comma | .colonequals => true
  | _ => false

/-- The characters between tokens. -/
def isBlank (c : Char) : Bool := c = ' ' || c = '\t'

/-- The characters that end an open token. -/
def isDelimiter (c : Char) : Bool :=
  isBlank c || c = '(' || c = ')' || c = ',' || c = ':'

/-- The text spells the tokens, with blanks and tabs around them. -/
inductive Spells : List Token → List Char → Prop
  | nil : Spells [] []
  | blank {tokens : List Token} {text : List Char} {c : Char} :
      isBlank c = true → Spells tokens text → Spells tokens (c :: text)
  | token {tokens : List Token} {text : List Char} (t : Token) :
      Spells tokens text → Spells (t :: tokens) (t.text ++ text)

/-- Every open token is followed by punctuation. -/
def Separated : List Token → Prop
  | [] => True
  | t :: tokens =>
    (t.isOpen = true → ∃ t' rest, tokens = t' :: rest ∧ t'.isPunctuation = true) ∧
      Separated tokens

/-- The text goes on with a character that ends an open token. -/
def Delimited (text : List Char) : Prop :=
  ∃ c rest, text = c :: rest ∧ isDelimiter c = true

variable {t : Token}

theorem Spells.delimited {tokens : List Token} {text : List Char} (h : Spells (t :: tokens) text)
    (ht : t.isPunctuation = true) : Delimited text := by
  generalize hall : t :: tokens = all at h
  induction h with
  | nil => cases hall
  | blank hc _ _ => exact ⟨_, _, rfl, by simp [isDelimiter, hc]⟩
  | token t' _ _ =>
    obtain ⟨rfl, -⟩ := cons.inj hall
    cases t <;> first | exact ⟨_, _, rfl, by decide⟩ | cases ht

/-! ## A text spells one list of tokens -/

/-- The token a text begins with, read off its characters. -/
def firstToken : List Char → Token
  | [] => .done
  | c :: cs =>
    if identifierStart c then
      let run := (c :: cs).takeWhile identifierChar
      if '.' ∈ run then .dotNotation run else .identifier run
    else if c.isDigit then .number ((c :: cs).takeWhile Char.isDigit)
    else if c = '"' then .string (cs.takeWhile (· ≠ '"'))
    else
      match c, cs.head? with
      | '(', _ => .lparen
      | ')', _ => .rparen
      | ',', _ => .comma
      | ':', _ => .colonequals
      | '<', some '=' => .le
      | '<', _ => .lt
      | '>', some '=' => .ge
      | '>', _ => .gt
      | '=', _ => .ee
      | '!', _ => .ne
      | _, _ => .unknown

variable {c : Char}

theorem takeWhile_append_cons {p : Char → Bool} {run : List Char} (rest : List Char)
    (hrun : ∀ x ∈ run, p x = true) (hc : p c = false) :
    (run ++ c :: rest).takeWhile p = run := by
  rw [takeWhile_append_of_pos hrun, takeWhile_cons_of_neg (by simp [hc]),
    append_nil]

theorem not_identifierStart_of_isDigit (h : c.isDigit = true) :
    identifierStart c = false := by
  have hat : c ≠ '@' := by
    rintro rfl
    cases h
  simp only [Char.isDigit, Bool.and_eq_true, decide_eq_true_eq, ge_iff_le,
    UInt32.le_iff_toNat_le] at h
  have h9 : '9'.val.toNat = 57 := rfl
  have hstart : identifierStart c = (decide (c.val ≥ 'A'.val ∧ c.val ≤ 'Z'.val) ||
    c.val ≥ 'a'.val && c.val ≤ 'z'.val || c = '@') := rfl
  simp only [hstart, Bool.or_eq_false_iff, Bool.and_eq_false_iff, decide_eq_false_iff_not,
    ge_iff_le, UInt32.le_iff_toNat_le, hat, not_false_eq_true, and_true]
  have hA : 'A'.val.toNat = 65 := rfl
  have ha : 'a'.val.toNat = 97 := rfl
  omega

theorem not_isDigit_of_isDelimiter (h : isDelimiter c = true) :
    c.isDigit = false := by
  simp only [isDelimiter, isBlank, Bool.or_eq_true, decide_eq_true_eq] at h
  obtain ((((rfl | rfl) | rfl) | rfl) | rfl) | rfl := h <;> decide

theorem not_identifierChar_of_isDelimiter (h : isDelimiter c = true) :
    identifierChar c = false := by
  simp only [isDelimiter, isBlank, Bool.or_eq_true, decide_eq_true_eq] at h
  obtain ((((rfl | rfl) | rfl) | rfl) | rfl) | rfl := h <;> decide

variable {val : List Char}

theorem firstToken_identifier {dots : Nat} {text : List Char} (h : IsIdentifier val dots)
    (htext : Delimited text) :
    firstToken (val ++ text) = if '.' ∈ val then .dotNotation val else .identifier val := by
  obtain ⟨d, rest, rfl, hd⟩ := htext
  cases val with
  | nil => exact absurd h.start (by simp)
  | cons c cs =>
    have hstart : identifierStart c = true := by simpa using h.start
    have hrun := takeWhile_append_cons rest h.chars (not_identifierChar_of_isDelimiter hd)
    rw [cons_append] at hrun ⊢
    simp only [firstToken, hstart, if_true, hrun]

theorem firstToken_number {text : List Char} (hne : val ≠ [])
    (hdigits : ∀ c ∈ val, c.isDigit = true) (htext : Delimited text) :
    firstToken (val ++ text) = .number val := by
  obtain ⟨d, rest, rfl, hd⟩ := htext
  cases val with
  | nil => exact absurd rfl hne
  | cons c cs =>
    have hc := hdigits c mem_cons_self
    have hrun := takeWhile_append_cons rest hdigits (not_isDigit_of_isDelimiter hd)
    rw [cons_append] at hrun ⊢
    simp only [firstToken, not_identifierStart_of_isDigit hc, hc, hrun, if_true,
      Bool.false_eq_true, if_false]

theorem firstToken_string {text : List Char} (hval : '"' ∉ val) :
    firstToken ('"' :: (val ++ ['"']) ++ text) = .string val := by
  have hrun : (val ++ '"' :: text).takeWhile (· ≠ '"') = val :=
    takeWhile_append_cons text (fun c hc => decide_eq_true (ne_of_mem_of_not_mem hc hval))
      (by decide)
  have hnone : identifierStart '"' = false := by decide
  have hdigit : '"'.isDigit = false := by decide
  simp only [cons_append, append_assoc, nil_append, firstToken, hnone, hdigit,
    hrun, Bool.false_eq_true, if_false, if_true]

theorem firstToken_angle {text : List Char} (htext : Delimited text) :
    firstToken ('<' :: text) = .lt ∧ firstToken ('>' :: text) = .gt := by
  obtain ⟨d, rest, rfl, hd⟩ := htext
  simp only [isDelimiter, isBlank, Bool.or_eq_true, decide_eq_true_eq] at hd
  obtain ((((rfl | rfl) | rfl) | rfl) | rfl) | rfl := hd <;> exact ⟨rfl, rfl⟩

/-- The characters of a text that begins with a token determine the token. -/
theorem firstToken_append {text : List Char} (ht : t.WellFormed)
    (hopen : t.isOpen = true → Delimited text) : firstToken (t.text ++ text) = t := by
  cases t with
  | number val => exact firstToken_number ht.1 ht.2.1 (hopen rfl)
  | string val => exact firstToken_string ht.1
  | identifier val =>
    have hdot : '.' ∉ val := count_eq_zero.mp ht.dots
    exact (firstToken_identifier ht (hopen rfl)).trans (if_neg hdot)
  | dotNotation val =>
    have hdot : '.' ∈ val := count_pos_iff.mp (by rw [ht.dots]; exact Nat.one_pos)
    exact (firstToken_identifier ht (hopen rfl)).trans (if_pos hdot)
  | lt => exact (firstToken_angle (hopen rfl)).1
  | gt => exact (firstToken_angle (hopen rfl)).2
  | done | unknown => exact ht.elim
  | _ => rfl

theorem Token.WellFormed.text_eq_cons (ht : t.WellFormed) :
    ∃ c cs, t.text = c :: cs ∧ isBlank c = false := by
  have hclass : ∀ {c : Char}, identifierStart c = true ∨ c.isDigit = true → isBlank c = false := by
    intro c hc
    rw [Bool.eq_false_iff]
    intro hblank
    simp only [isBlank, Bool.or_eq_true, decide_eq_true_eq] at hblank
    obtain rfl | rfl := hblank <;> exact absurd hc (by decide)
  have hident : ∀ {val : List Char} {dots : Nat}, IsIdentifier val dots →
      ∃ c cs, val = c :: cs ∧ isBlank c = false := by
    intro val dots h
    cases val with
    | nil => exact absurd h.start (by simp)
    | cons c cs => exact ⟨c, cs, rfl, hclass (.inl (by simpa using h.start))⟩
  cases t with
  | number val =>
    obtain ⟨c, cs, rfl⟩ := exists_cons_of_ne_nil ht.1
    exact ⟨c, cs, rfl, hclass (.inr (ht.2.1 c mem_cons_self))⟩
  | identifier val | dotNotation val => exact hident ht
  | done | unknown => exact ht.elim
  | _ => exact ⟨_, _, rfl, by decide⟩

theorem Spells.delimited_of_separated {tokens : List Token} {text : List Char}
    (h : Spells tokens text) (hsep : Separated (t :: tokens)) (hopen : t.isOpen = true) :
    Delimited text := by
  obtain ⟨t', rest, rfl, hpunct⟩ := hsep.1 hopen
  exact h.delimited hpunct

/-- How a text can spell tokens: by being empty, after a blank, or after a token. -/
theorem Spells.inversion {tokens : List Token} {text : List Char} (h : Spells tokens text) :
    (tokens = [] ∧ text = []) ∨
    (∃ c rest, isBlank c = true ∧ text = c :: rest ∧ Spells tokens rest) ∨
    ∃ t ts rest, tokens = t :: ts ∧ text = t.text ++ rest ∧ Spells ts rest := by
  cases h with
  | nil => exact .inl ⟨rfl, rfl⟩
  | blank hc hrest => exact .inr (.inl ⟨_, _, hc, rfl, hrest⟩)
  | token t hrest => exact .inr (.inr ⟨t, _, _, rfl, rfl, hrest⟩)

theorem Token.WellFormed.append_ne_blank (ht : t.WellFormed) {text rest : List Char}
    (hc : isBlank c = true) : t.text ++ text ≠ c :: rest := by
  obtain ⟨d, ds, htext, hd⟩ := ht.text_eq_cons
  intro heq
  rw [htext, cons_append] at heq
  rw [(cons.inj heq).1, hc] at hd
  cases hd

theorem Spells.unique {tokens tokens' : List Token} {text : List Char}
    (h : Spells tokens text) (h' : Spells tokens' text)
    (hsep : Separated tokens) (hsep' : Separated tokens')
    (hwf : ∀ t ∈ tokens, t.WellFormed) (hwf' : ∀ t ∈ tokens', t.WellFormed) :
    tokens = tokens' := by
  induction h generalizing tokens' with
  | nil =>
    obtain ⟨rfl, -⟩ | ⟨c, rest, -, heq, -⟩ | ⟨t', ts, rest, rfl, heq, -⟩ := h'.inversion
    · rfl
    · cases heq
    · obtain ⟨c, cs, htext, -⟩ := (hwf' t' mem_cons_self).text_eq_cons
      simp [htext] at heq
  | blank hc hrest ih =>
    obtain ⟨-, heq⟩ | ⟨c', rest, -, heq, hrest'⟩ | ⟨t', ts, rest, rfl, heq, -⟩ := h'.inversion
    · cases heq
    · obtain ⟨-, rfl⟩ := cons.inj heq
      exact ih hrest' hsep hsep' hwf hwf'
    · exact absurd heq.symm ((hwf' t' mem_cons_self).append_ne_blank hc)
  | token t hrest ih =>
    have ht := hwf t mem_cons_self
    obtain ⟨-, heq⟩ | ⟨c, rest, hc, heq, -⟩ | ⟨t', ts, rest, rfl, heq, hrest'⟩ := h'.inversion
    · obtain ⟨c, cs, htext, -⟩ := ht.text_eq_cons
      simp [htext] at heq
    · exact absurd heq (ht.append_ne_blank hc)
    · -- both tokens are the one that the characters determine
      have ht' := hwf' t' mem_cons_self
      obtain rfl : t = t' := by
        rw [← firstToken_append ht (hrest.delimited_of_separated hsep), heq,
          firstToken_append ht' (hrest'.delimited_of_separated hsep')]
      obtain rfl := append_cancel_left heq
      rw [ih hrest' hsep.2 hsep'.2 (fun t h => hwf t (mem_cons_of_mem _ h))
        (fun t h => hwf' t (mem_cons_of_mem _ h))]

/-! ## Syntax trees -/

/-- A value as it is written. -/
inductive ArgTree where
  | string (val : List Char)
  | number (digits : List Char)
  | dotted (val : List Char)
  deriving DecidableEq, Repr

/-- The token of a value. -/
def ArgTree.token : ArgTree → Token
  | .string val => .string val
  | .number digits => .number digits
  | .dotted val => .dotNotation val

/-- The value that is written. -/
def ArgTree.value : ArgTree → AbacValue
  | .string val => .string (String.ofList val)
  | .number digits => .number (digitsValue digits)
  | .dotted val => .identifier (String.ofList val)

/-- The comparisons. -/
inductive Comparison where
  | lt | le | gt | ge | ee | ne
  deriving DecidableEq, Repr

/-- The token of a comparison. -/
def Comparison.token : Comparison → Token
  | .lt => .lt
  | .le => .le
  | .gt => .gt
  | .ge => .ge
  | .ee => .ee
  | .ne => .ne

/-- The predicate of a comparison: its text. -/
def Comparison.operator (cmp : Comparison) : String := String.ofList cmp.token.text

/-- The text of an entity. -/
def AtomType.text : AtomType → List Char
  | .user => ['u']
  | .object => ['o']

/-- An atom as it is written. -/
inductive AtomTree where
  | regular (name : List Char) (type : AtomType) (arg : Option ArgTree)
  | comparison (cmp : Comparison) (left right : ArgTree)
  deriving DecidableEq, Repr

/-- The tokens of an atom. -/
def AtomTree.tokens : AtomTree → List Token
  | .regular name type none => [.identifier name, .lparen, .identifier type.text, .rparen]
  | .regular name type (some arg) =>
    [.identifier name, .lparen, .identifier type.text, .comma, arg.token, .rparen]
  | .comparison cmp left right =>
    [cmp.token, .lparen, left.token, .comma, right.token, .rparen]

/-- The atom that is written. -/
def AtomTree.atom : AtomTree → PolicyAtom
  | .regular name type arg => .normal (String.ofList name) type (arg.map ArgTree.value)
  | .comparison cmp left right => .bool cmp.operator left.value right.value

/-- A rule as it is written: a permission and at least one atom. -/
structure RuleTree where
  perm : Perm
  first : AtomTree
  others : List AtomTree

/-- The atoms of a rule. -/
def RuleTree.atoms (tree : RuleTree) : List AtomTree := tree.first :: tree.others

/-- The tokens of the atoms, with commas between them. -/
def atomsTokens (first : AtomTree) : List AtomTree → List Token
  | [] => first.tokens
  | second :: others => first.tokens ++ .comma :: atomsTokens second others

/-- The tokens of a rule. -/
def RuleTree.tokens (tree : RuleTree) : List Token :=
  .identifier tree.perm.toString.toList :: .colonequals :: atomsTokens tree.first tree.others

/-- The rule that is written, under a uuid. -/
def RuleTree.rule (tree : RuleTree) (uuid : Uuid) : PolicyRule :=
  ⟨tree.perm, uuid, tree.atoms.map AtomTree.atom⟩

/-! ## Trees are determined by their tokens -/

theorem ArgTree.token_injective {arg arg' : ArgTree} (h : arg.token = arg'.token) :
    arg = arg' := by
  cases arg <;> cases arg' <;> cases h <;> rfl

theorem Comparison.token_injective {cmp cmp' : Comparison} (h : cmp.token = cmp'.token) :
    cmp = cmp' := by
  cases cmp <;> cases cmp' <;> cases h <;> rfl

theorem Comparison.token_ne_identifier (cmp : Comparison) (val : List Char) :
    cmp.token ≠ .identifier val := by
  cases cmp <;> exact Token.noConfusion

theorem AtomType.text_injective {type type' : AtomType} (h : type.text = type'.text) :
    type = type' := by
  cases type <;> cases type' <;> first | rfl | cases h

theorem AtomTree.tokens_append_inj {atom atom' : AtomTree} {rest rest' : List Token}
    (h : atom.tokens ++ rest = atom'.tokens ++ rest') : atom = atom' ∧ rest = rest' := by
  match atom, atom' with
  | .regular name type none, .regular name' type' none =>
    simp only [tokens, cons_append, nil_append, cons.injEq, Token.identifier.injEq,
      true_and] at h
    obtain ⟨rfl, htype, rfl⟩ := h
    exact ⟨by rw [AtomType.text_injective htype], rfl⟩
  | .regular name type (some arg), .regular name' type' (some arg') =>
    simp only [tokens, cons_append, nil_append, cons.injEq, Token.identifier.injEq,
      true_and] at h
    obtain ⟨rfl, htype, harg, rfl⟩ := h
    exact ⟨by rw [AtomType.text_injective htype, ArgTree.token_injective harg], rfl⟩
  | .comparison cmp left right, .comparison cmp' left' right' =>
    simp only [tokens, cons_append, nil_append, cons.injEq, true_and] at h
    obtain ⟨hcmp, hleft, hright, rfl⟩ := h
    exact ⟨by rw [Comparison.token_injective hcmp, ArgTree.token_injective hleft,
      ArgTree.token_injective hright], rfl⟩
  | .regular _ _ none, .regular _ _ (some _) | .regular _ _ (some _), .regular _ _ none =>
    simp [tokens] at h
  | .comparison cmp _ _, .regular name _ none | .comparison cmp _ _, .regular name _ (some _) =>
    exact absurd (cons.inj h).1 (cmp.token_ne_identifier name)
  | .regular name _ none, .comparison cmp _ _ | .regular name _ (some _), .comparison cmp _ _ =>
    exact absurd (cons.inj h).1.symm (cmp.token_ne_identifier name)

theorem atomsTokens_inj {first first' : AtomTree} {others others' : List AtomTree}
    (h : atomsTokens first others = atomsTokens first' others') :
    first = first' ∧ others = others' := by
  induction others generalizing first first' others' with
  | nil =>
    cases others' with
    | nil =>
      obtain ⟨rfl, -⟩ := AtomTree.tokens_append_inj (congrArg (· ++ []) h)
      exact ⟨rfl, rfl⟩
    | cons second' others' =>
      have h' : first.tokens ++ [] = first'.tokens ++ .comma :: atomsTokens second' others' := by
        rw [append_nil]
        exact h
      cases (AtomTree.tokens_append_inj h').2
  | cons second others ih =>
    cases others' with
    | nil =>
      have h' : first.tokens ++ .comma :: atomsTokens second others = first'.tokens ++ [] := by
        rw [append_nil]
        exact h
      cases (AtomTree.tokens_append_inj h').2
    | cons second' others' =>
      obtain ⟨rfl, hrest⟩ := AtomTree.tokens_append_inj h
      obtain ⟨rfl, rfl⟩ := ih (cons.inj hrest).2
      exact ⟨rfl, rfl⟩

theorem RuleTree.tokens_injective {tree tree' : RuleTree} (h : tree.tokens = tree'.tokens) :
    tree = tree' := by
  obtain ⟨perm, first, others⟩ := tree
  obtain ⟨perm', first', others'⟩ := tree'
  simp only [tokens, cons.injEq, Token.identifier.injEq, true_and] at h
  obtain ⟨hperm, hatoms⟩ := h
  obtain ⟨rfl, rfl⟩ := atomsTokens_inj hatoms
  have hname := String.toList_inj.mp hperm
  have hsome := permTypeFromString_toString perm
  rw [hname, permTypeFromString_toString] at hsome
  cases hsome
  rfl

/-! ## Trees are written with punctuation after every open token -/

theorem Separated.cons_punctuation {t' : Token} {tokens : List Token}
    (ht' : t'.isPunctuation = true) (h : Separated (t' :: tokens)) :
    Separated (t :: t' :: tokens) :=
  ⟨fun _ => ⟨t', tokens, rfl, ht'⟩, h⟩

theorem Separated.cons_closed {tokens : List Token} (ht : t.isOpen = false) (h : Separated tokens) :
    Separated (t :: tokens) :=
  ⟨fun hopen => by simp [ht] at hopen, h⟩

theorem AtomTree.separated_append (atom : AtomTree) {rest : List Token} (h : Separated rest) :
    Separated (atom.tokens ++ rest) := by
  have hclose : Separated (.rparen :: rest) := h.cons_closed rfl
  match atom with
  | .regular name type none =>
    exact (((hclose.cons_punctuation rfl).cons_closed rfl).cons_punctuation rfl)
  | .regular name type (some arg) =>
    exact (((((hclose.cons_punctuation rfl).cons_closed rfl).cons_punctuation rfl).cons_closed
      rfl).cons_punctuation rfl)
  | .comparison cmp left right =>
    exact (((((hclose.cons_punctuation rfl).cons_closed rfl).cons_punctuation rfl).cons_closed
      rfl).cons_punctuation rfl)

theorem separated_atomsTokens (first : AtomTree) (others : List AtomTree) :
    Separated (atomsTokens first others) := by
  induction others generalizing first with
  | nil =>
    have h : Separated (first.tokens ++ []) := first.separated_append trivial
    rwa [append_nil] at h
  | cons second others ih => exact first.separated_append ((ih second).cons_closed rfl)

theorem RuleTree.separated_tokens (tree : RuleTree) : Separated tree.tokens :=
  ((separated_atomsTokens tree.first tree.others).cons_closed rfl).cons_punctuation rfl

/-- Every token of the tree may stand in a policy. -/
def RuleTree.WellFormed (tree : RuleTree) : Prop := ∀ t ∈ tree.tokens, t.WellFormed

theorem RuleTree.eq_of_spells {tree tree' : RuleTree} {text : List Char}
    (hwf : tree.WellFormed) (hwf' : tree'.WellFormed)
    (h : Spells tree.tokens text) (h' : Spells tree'.tokens text) : tree = tree' :=
  tokens_injective (h.unique h' tree.separated_tokens tree'.separated_tokens hwf hwf')

end Nexus.Abac
