import Nexus.Abac.Lexing

/-!
# Atoms, token by token

`Takes` describes a call of the parser by the tokens that it takes off the text: after
which of them it returns which result, and after which of them it asks for another one and
does not return if the text goes on fatally.  Calls are put together as their tokens are,
and `takes_atom` is what comes out for `__parse_atom`.
-/

namespace Nexus.Abac

open Parse List Parse

/-! ## What the parser makes of a tree -/

/-- The value as `__abac_value_from_token` makes it. -/
def ArgTree.parsed : ArgTree → AbacValue
  | .string val => .string (String.ofList val)
  | .number digits => .number (atoi digits)
  | .dotted val => .identifier (String.ofList val)

/-- The atom as `__parse_atom` makes it. -/
def AtomTree.parsed : AtomTree → PolicyAtom
  | .regular name type arg =>
    .normal (storedPredicate name (arg.map ArgTree.parsed)) type (arg.map ArgTree.parsed)
  | .comparison cmp left right => .bool cmp.operator left.parsed right.parsed

/-- The value of an attribute is not a number. -/
def AtomTree.NoNumberValue : AtomTree → Prop
  | .regular _ _ (some (.number _)) => False
  | _ => True

/-- The atom passes the checks of `__parse_atom`. -/
def AtomTree.Taken (space : Option AttributeSpace) (tree : AtomTree) : Prop :=
  tree.NoNumberValue ∧ policyAtomIsValid space tree.parsed = true

/-- The value is not a number. -/
def NotNumber (arg : Option ArgTree) : Prop := ∀ digits, arg ≠ some (.number digits)

theorem noNumberValue_regular {name : List Char} {type : AtomType} {arg : Option ArgTree} :
    (AtomTree.regular name type arg).NoNumberValue ↔ NotNumber arg := by
  constructor
  · rintro h digits rfl
    exact h
  · intro h
    match arg, h with
    | none, _ | some (.string _), _ | some (.dotted _), _ => trivial
    | some (.number digits), h => exact h digits rfl

/-! ## Where the parser does not return -/

/-- After blanks a string begins that is not closed. -/
def Unclosed (text : List Char) : Prop :=
  ∃ blanks tail, text = blanks ++ '"' :: tail ∧ (∀ c ∈ blanks, isBlank c = true) ∧ '"' ∉ tail

variable {text : List Char}

theorem lexStringChars_eq_none : lexStringChars text = none ↔ '"' ∉ text := by
  induction text with
  | nil => simp [lexStringChars]
  | cons c cs ih =>
    by_cases hc : c = '"'
    · simp [lexStringChars, hc]
    · simp [lexStringChars, hc, ih, Ne.symm hc]

/-- A call of the lexer does not return exactly if it meets a string that is not closed. -/
theorem lexerNextToken_eq_none : lexerNextToken text = none ↔ Unclosed text := by
  constructor
  · intro h
    induction text with
    | nil => cases h
    | cons c cs ih =>
      rw [lexerNextToken] at h
      by_cases hblank : c = ' ' ∨ c = '\t'
      · rw [if_pos hblank] at h
        obtain ⟨blanks, tail, rfl, hblanks, htail⟩ := ih h
        have hc : isBlank c = true := by simpa [isBlank] using hblank
        exact ⟨c :: blanks, tail, rfl, by simpa [hc] using hblanks, htail⟩
      rw [if_neg hblank] at h
      -- only the branch of strings can fail to return
      by_cases hquote : c = '"'
      · subst c
        have hstring : lexString cs = none := h
        exact ⟨[], cs, rfl, by simp, lexStringChars_eq_none.mp (Option.map_eq_none_iff.mp hstring)⟩
      · rw [if_neg hquote] at h
        repeat' first | (split at h; cases h) | cases h
  · rintro ⟨blanks, tail, rfl, hblanks, htail⟩
    induction blanks with
    | nil =>
      have hstring : lexString tail = none :=
        Option.map_eq_none_iff.mpr (lexStringChars_eq_none.mpr htail)
      exact hstring
    | cons c cs ih =>
      rw [cons_append, lexerNextToken_blank (hblanks c mem_cons_self)]
      exact ih fun d hd => hblanks d (mem_cons_of_mem _ hd)

/-- The next token is not a value. -/
def NoValue (text : List Char) : Prop :=
  ∃ t rest, lexerNextToken text = some (t, rest) ∧ abacValueFromToken t = none

/-- The text goes on so that the parser does not return: a string is not closed, or a
value is needed and does not follow. -/
def Fatal (value : Bool) (text : List Char) : Prop :=
  Unclosed text ∨ value = true ∧ NoValue text

theorem fatal_false : Fatal false text ↔ Unclosed text := by
  simp [Fatal]

theorem nextToken_eq_ok {t : Token} {p : Parser} :
    (nextToken ⟨text, none⟩).outcome = .ok (t, p) ↔
      ∃ rest, lexerNextToken text = some (t, rest) ∧ p = ⟨rest, none⟩ := by
  unfold nextToken
  cases lexerNextToken text with
  | none => simp
  | some r =>
    obtain ⟨t', rest'⟩ := r
    simp only [Outcome.ok.injEq, Prod.mk.injEq, Option.some.injEq]
    constructor
    · rintro ⟨rfl, rfl⟩
      exact ⟨rest', ⟨rfl, rfl⟩, rfl⟩
    · rintro ⟨rest, ⟨rfl, rfl⟩, rfl⟩
      exact ⟨rfl, rfl⟩

theorem nextToken_eq_stuck :
    (nextToken ⟨text, none⟩).outcome = .stuck ↔ Unclosed text := by
  rw [← lexerNextToken_eq_none]
  unfold nextToken
  cases lexerNextToken text <;> simp

variable {α : Type}

theorem pure_eq_ok {a b : α} : (pure a : Parse α).outcome = .ok b ↔ a = b := by
  rw [pure_outcome, Outcome.ok.injEq]

theorem Parse.bind_eq_stuck {β : Type} {x : Parse α} {f : α → Parse β} :
    (x >>= f).outcome = .stuck ↔
      x.outcome = .stuck ∨ ∃ a, x.outcome = .ok a ∧ (f a).outcome = .stuck := by
  change (Parse.bind x f).outcome = .stuck ↔ _
  unfold Parse.bind
  cases x.outcome <;> simp

theorem Parse.bind_assoc {β γ : Type} (x : Parse α) (f : α → Parse β) (g : β → Parse γ) :
    (x >>= f) >>= g = x >>= fun a => f a >>= g := by
  change Parse.bind (Parse.bind x f) g = Parse.bind x fun a => Parse.bind (f a) g
  unfold Parse.bind
  cases x.outcome with
  | ok a =>
    dsimp only
    cases (f a).outcome <;> simp [Nat.add_assoc]
  | failed => rfl
  | stuck => rfl

theorem Parse.pure_bind {β : Type} (a : α) (f : α → Parse β) : (pure a >>= f) = f a := by
  change Parse.bind (pure a) f = f a
  simp [Parse.bind, pure]

/-! ## Calls by their tokens -/

/-- A call of the parser: it returns `a` if it can read tokens of `accepts a`, and it does
not return if the text goes on fatally after tokens of `asks`. -/
structure Takes {α : Type} (x : Parser → Parse (α × Parser)) (accepts : α → List Token → Prop)
    (asks : Bool → List Token → Prop) : Prop where
  ok : ∀ {text : List Char} {a : α} {p : Parser}, (x ⟨text, none⟩).outcome = .ok (a, p) ↔
    ∃ tokens rest, accepts a tokens ∧ Reads text tokens rest ∧ p = ⟨rest, none⟩
  stuck : ∀ {text : List Char}, (x ⟨text, none⟩).outcome = .stuck ↔
    ∃ value tokens rest, asks value tokens ∧ Reads text tokens rest ∧ Fatal value rest

section Takes

variable {α β : Type} {x y : Parser → Parse (α × Parser)} {L L' : α → List Token → Prop}
  {S S' : Bool → List Token → Prop}

theorem Takes.congr (h : Takes x L S) (hL : ∀ a tokens, L a tokens ↔ L' a tokens)
    (hS : ∀ value tokens, S value tokens ↔ S' value tokens) : Takes x L' S' where
  ok := by simp only [h.ok, hL, implies_true]
  stuck := by simp only [h.stuck, hS, implies_true]

theorem Takes.of_outcome (h : Takes y L S)
    (heq : ∀ text, (x ⟨text, none⟩).outcome = (y ⟨text, none⟩).outcome) : Takes x L S where
  ok := by simp only [heq, h.ok, implies_true]
  stuck := by simp only [heq, h.stuck, implies_true]

theorem takes_pure (a : α) :
    Takes (fun p => pure (a, p)) (fun b tokens => b = a ∧ tokens = []) (fun _ _ => False) where
  ok := by
    intro text b p
    rw [pure_eq_ok]
    constructor
    · intro h
      cases h
      exact ⟨[], text, ⟨rfl, rfl⟩, .nil, rfl⟩
    · rintro ⟨_, rest, ⟨rfl, rfl⟩, hreads, rfl⟩
      cases hreads
      rfl
  stuck := by simp

theorem takes_fail : Takes (fun _ => (.fail : Parse (α × Parser))) (fun _ _ => False)
    (fun _ _ => False) where
  ok := by simp [fail]
  stuck := by simp [fail]

theorem Takes.next {f : Token → Parser → Parse (α × Parser)} {L : Token → α → List Token → Prop}
    {S : Token → Bool → List Token → Prop} (h : ∀ t, Takes (f t) (L t) (S t)) :
    Takes (fun p => nextToken p >>= fun r => f r.1 r.2)
      (fun a tokens => ∃ t ts, tokens = t :: ts ∧ L t a ts)
      (fun value tokens => value = false ∧ tokens = [] ∨
        ∃ t ts, tokens = t :: ts ∧ S t value ts) where
  ok := by
    intro text a p
    simp only [bind_eq_ok, Prod.exists, nextToken_eq_ok]
    constructor
    · rintro ⟨t, _, ⟨mid, hlex, rfl⟩, hrest⟩
      obtain ⟨ts, rest, hL, hreads, rfl⟩ := (h t).ok.mp hrest
      exact ⟨t :: ts, rest, ⟨t, ts, rfl, hL⟩, .cons hlex hreads, rfl⟩
    · rintro ⟨_, rest, ⟨t, ts, rfl, hL⟩, hreads, rfl⟩
      obtain ⟨mid, hlex, hreads⟩ := reads_cons_iff.mp hreads
      exact ⟨t, _, ⟨mid, hlex, rfl⟩, (h t).ok.mpr ⟨ts, rest, hL, hreads, rfl⟩⟩
  stuck := by
    intro text
    simp only [bind_eq_stuck, Prod.exists, nextToken_eq_ok, nextToken_eq_stuck]
    constructor
    · rintro (hnone | ⟨t, _, ⟨mid, hlex, rfl⟩, hrest⟩)
      · exact ⟨false, [], text, .inl ⟨rfl, rfl⟩, .nil, .inl hnone⟩
      · obtain ⟨value, ts, rest, hS, hreads, hfatal⟩ := (h t).stuck.mp hrest
        exact ⟨value, t :: ts, rest, .inr ⟨t, ts, rfl, hS⟩, .cons hlex hreads, hfatal⟩
    · rintro ⟨value, _, rest, ⟨rfl, rfl⟩ | ⟨t, ts, rfl, hS⟩, hreads, hfatal⟩
      · cases hreads
        exact .inl (fatal_false.mp hfatal)
      · obtain ⟨mid, hlex, hreads⟩ := reads_cons_iff.mp hreads
        exact .inr ⟨t, _, ⟨mid, hlex, rfl⟩, (h t).stuck.mpr ⟨value, ts, rest, hS, hreads, hfatal⟩⟩

theorem takes_token (g : Token → Option α) :
    Takes (fun p => nextToken p >>= fun r => (g r.1).elim .fail fun a => pure (a, r.2))
      (fun a tokens => ∃ t, tokens = [t] ∧ g t = some a)
      (fun value tokens => value = false ∧ tokens = []) := by
  have hrest : ∀ t, Takes (fun p => (g t).elim (.fail : Parse (α × Parser)) fun a => pure (a, p))
      (fun a tokens => g t = some a ∧ tokens = []) (fun _ _ => False) := by
    intro t
    cases g t with
    | none => exact takes_fail.congr (by simp) (by simp)
    | some a => exact (takes_pure a).congr (by simp [eq_comm]) (by simp)
  exact (Takes.next hrest).congr (by aesop) (by simp)

theorem Takes.consume (h : Takes x L S) (t : Token) :
    Takes (fun p => consumeToken t p >>= x) (fun a tokens => ∃ ts, tokens = t :: ts ∧ L a ts)
      (fun value tokens => value = false ∧ tokens = [] ∨ ∃ ts, tokens = t :: ts ∧ S value ts) := by
  have hrest : ∀ t', Takes (fun p => if t' = t then x p else .fail)
      (fun a ts => t' = t ∧ L a ts) (fun value ts => t' = t ∧ S value ts) := by
    intro t'
    by_cases heq : t' = t
    · simpa [heq] using h
    · simpa [heq] using (takes_fail : Takes ..)
  refine ((Takes.next hrest).congr (by aesop) (by aesop)).of_outcome fun text => ?_
  rw [consumeToken, bind_assoc]
  congr 2
  funext r
  dsimp only
  split
  · exact pure_bind r.2 x
  · rfl

theorem Takes.bind {f : α → Parser → Parse (β × Parser)} {L' : α → β → List Token → Prop}
    {S' : α → Bool → List Token → Prop} (hx : Takes x L S) (hf : ∀ a, Takes (f a) (L' a) (S' a)) :
    Takes (fun p => x p >>= fun r => f r.1 r.2)
      (fun b tokens => ∃ a ts ts', tokens = ts ++ ts' ∧ L a ts ∧ L' a b ts')
      (fun value tokens => S value tokens ∨
        ∃ a ts ts', tokens = ts ++ ts' ∧ L a ts ∧ S' a value ts') where
  ok := by
    intro text b p
    simp only [bind_eq_ok, Prod.exists, hx.ok]
    constructor
    · rintro ⟨a, _, ⟨ts, mid, hL, hreads, rfl⟩, hrest⟩
      obtain ⟨ts', rest, hL', hreads', rfl⟩ := (hf a).ok.mp hrest
      exact ⟨_, rest, ⟨a, ts, ts', rfl, hL, hL'⟩, reads_append_iff.mpr ⟨mid, hreads, hreads'⟩, rfl⟩
    · rintro ⟨_, rest, ⟨a, ts, ts', rfl, hL, hL'⟩, hreads, rfl⟩
      obtain ⟨mid, hreads, hreads'⟩ := reads_append_iff.mp hreads
      exact ⟨a, _, ⟨ts, mid, hL, hreads, rfl⟩, (hf a).ok.mpr ⟨ts', rest, hL', hreads', rfl⟩⟩
  stuck := by
    intro text
    simp only [bind_eq_stuck, Prod.exists, hx.ok, hx.stuck]
    constructor
    · rintro (⟨value, ts, rest, hS, hreads, hfatal⟩ | ⟨a, _, ⟨ts, mid, hL, hreads, rfl⟩, hrest⟩)
      · exact ⟨value, ts, rest, .inl hS, hreads, hfatal⟩
      · obtain ⟨value, ts', rest, hS', hreads', hfatal⟩ := (hf a).stuck.mp hrest
        exact ⟨value, _, rest, .inr ⟨a, ts, ts', rfl, hL, hS'⟩,
          reads_append_iff.mpr ⟨mid, hreads, hreads'⟩, hfatal⟩
    · rintro ⟨value, _, rest, hS | ⟨a, ts, ts', rfl, hL, hS'⟩, hreads, hfatal⟩
      · exact .inl ⟨value, _, rest, hS, hreads, hfatal⟩
      · obtain ⟨mid, hreads, hreads'⟩ := reads_append_iff.mp hreads
        exact .inr ⟨a, _, ⟨ts, mid, hL, hreads, rfl⟩,
          (hf a).stuck.mpr ⟨value, ts', rest, hS', hreads', hfatal⟩⟩

end Takes

/-! ## The parts of an atom -/

theorem abacValueFromToken_eq_some {t : Token} {value : AbacValue} :
    abacValueFromToken t = some value ↔ ∃ arg : ArgTree, t = arg.token ∧ value = arg.parsed := by
  constructor
  · intro h
    cases t with
    | number val => cases h; exact ⟨.number val, rfl, rfl⟩
    | string val => cases h; exact ⟨.string val, rfl, rfl⟩
    | dotNotation val => cases h; exact ⟨.dotted val, rfl, rfl⟩
    | _ => cases h
  · rintro ⟨arg, rfl, rfl⟩
    cases arg <;> rfl

theorem takes_argument :
    Takes parseArgument (fun v tokens => ∃ arg : ArgTree, tokens = [arg.token] ∧ v = arg.parsed)
      (fun value tokens => value = false ∧ tokens = []) := by
  refine ((takes_token abacValueFromToken).congr (by simp [abacValueFromToken_eq_some])
    fun _ _ => Iff.rfl).of_outcome fun text => ?_
  rw [parseArgument]
  congr 2
  funext r
  dsimp only
  cases abacValueFromToken r.1 <;> rfl

/-- The entity of a token. -/
def entityFromToken : Token → Option AtomType
  | .identifier ['u'] => some .user
  | .identifier ['o'] => some .object
  | _ => none

theorem takes_entity :
    Takes parseEntity (fun type tokens => tokens = [.identifier type.text])
      (fun value tokens => value = false ∧ tokens = []) := by
  refine ((takes_token entityFromToken).congr ?_ fun _ _ => Iff.rfl).of_outcome fun text => ?_
  · intro type tokens
    constructor
    · rintro ⟨t, rfl, ht⟩
      unfold entityFromToken at ht
      split at ht <;> cases ht <;> rfl
    · rintro rfl
      exact ⟨_, rfl, by cases type <;> rfl⟩
  · rw [parseEntity]
    congr 2
    funext r
    obtain ⟨t, p⟩ := r
    unfold entityFromToken
    repeat' split
    all_goals first | rfl | simp_all

theorem notNumber_of_token {arg : ArgTree} (h : ∀ digits, arg.token = .number digits → False) :
    NotNumber (some arg) := by
  rintro digits heq
  cases heq
  exact h digits rfl

/-- The tokens of an atom after its entity, without the closing parenthesis. -/
def valueTokens : Option ArgTree → List Token
  | none => []
  | some arg => [.comma, arg.token]

theorem takes_comparison {check : AbacValue → AbacValue → Parser → Parse (PolicyAtom × Parser)}
    {L : AbacValue → AbacValue → PolicyAtom → List Token → Prop}
    (hcheck : ∀ l r, Takes (check l r) (L l r) fun _ _ => False) :
    Takes (fun p => parseBooleanAtomType p >>= fun r => consumeToken .rparen r.2 >>= check r.1.1 r.1.2)
      (fun atom tokens => ∃ (l r : ArgTree) (ts : List Token),
        tokens = l.token :: .comma :: r.token :: .rparen :: ts ∧ L l.parsed r.parsed atom ts)
      (fun value tokens => value = false ∧ (tokens = [] ∨ ∃ l : ArgTree, tokens = [l.token] ∨
        tokens = [l.token, .comma] ∨ ∃ r : ArgTree, tokens = [l.token, .comma, r.token])) := by
  refine ((takes_argument.bind fun l => (takes_argument.bind fun r =>
    (hcheck l r).consume .rparen).consume .comma).congr (by aesop) (by aesop)).of_outcome
      fun text => ?_
  simp only [parseBooleanAtomType, bind_assoc, pure_bind]

theorem takes_value {x : Option AbacValue → Parser → Parse (PolicyAtom × Parser)}
    {L : Option AbacValue → PolicyAtom → List Token → Prop}
    {S : Option AbacValue → Bool → List Token → Prop} (hx : ∀ v, Takes (x v) (L v) (S v)) :
    Takes (fun p => nextToken p >>= fun r => (match r.1 with
        | .number _ => .fail
        | token => match abacValueFromToken token with
          | none => .crash
          | some v => x (some v) r.2))
      (fun atom tokens => ∃ (arg : ArgTree) (ts : List Token), NotNumber (some arg) ∧
        tokens = arg.token :: ts ∧ L (some arg.parsed) atom ts)
      (fun value tokens => value = true ∧ tokens = [] ∨ ∃ (arg : ArgTree) (ts : List Token),
        NotNumber (some arg) ∧ tokens = arg.token :: ts ∧ S (some arg.parsed) value ts) where
  ok := by
    intro text atom p
    simp only [bind_eq_ok, Prod.exists, nextToken_eq_ok]
    constructor
    · rintro ⟨t, _, ⟨mid, hlex, rfl⟩, h⟩
      split at h
      · cases h
      next hnumber =>
      split at h
      · cases h
      next v hv =>
      obtain ⟨arg, rfl, rfl⟩ := abacValueFromToken_eq_some.mp hv
      obtain ⟨ts, rest, hL, hreads, rfl⟩ := (hx _).ok.mp h
      exact ⟨_, rest, ⟨arg, ts, notNumber_of_token hnumber, rfl, hL⟩, .cons hlex hreads, rfl⟩
    · rintro ⟨_, rest, ⟨arg, ts, hnumber, rfl, hL⟩, hreads, rfl⟩
      obtain ⟨mid, hlex, hreads⟩ := reads_cons_iff.mp hreads
      have hrest := (hx (some arg.parsed)).ok.mpr ⟨ts, rest, hL, hreads, rfl⟩
      refine ⟨_, _, ⟨mid, hlex, rfl⟩, ?_⟩
      cases arg with
      | number digits => exact absurd rfl (hnumber digits)
      | string val | dotted val => exact hrest
  stuck := by
    intro text
    simp only [bind_eq_stuck, Prod.exists, nextToken_eq_ok, nextToken_eq_stuck]
    constructor
    · rintro (h | ⟨t, _, ⟨mid, hlex, rfl⟩, h⟩)
      · exact ⟨true, [], text, .inl ⟨rfl, rfl⟩, .nil, .inl h⟩
      split at h
      · cases h
      next hnumber =>
      split at h
      · next hnone => exact ⟨true, [], text, .inl ⟨rfl, rfl⟩, .nil, .inr ⟨rfl, t, mid, hlex, hnone⟩⟩
      next v hv =>
      obtain ⟨arg, rfl, rfl⟩ := abacValueFromToken_eq_some.mp hv
      obtain ⟨value, ts, rest, hS, hreads, hfatal⟩ := (hx _).stuck.mp h
      exact ⟨value, _, rest, .inr ⟨arg, ts, notNumber_of_token hnumber, rfl, hS⟩,
        .cons hlex hreads, hfatal⟩
    · rintro ⟨value, _, rest, ⟨rfl, rfl⟩ | ⟨arg, ts, hnumber, rfl, hS⟩, hreads, hfatal⟩
      · cases hreads
        obtain h | ⟨-, t, mid, hlex, hnone⟩ := hfatal
        · exact .inl h
        · refine .inr ⟨t, _, ⟨mid, hlex, rfl⟩, ?_⟩
          cases t <;> first | rfl | cases hnone
      · obtain ⟨mid, hlex, hreads⟩ := reads_cons_iff.mp hreads
        have hrest := (hx (some arg.parsed)).stuck.mpr ⟨value, ts, rest, hS, hreads, hfatal⟩
        refine .inr ⟨_, _, ⟨mid, hlex, rfl⟩, ?_⟩
        cases arg with
        | number digits => exact absurd rfl (hnumber digits)
        | string val | dotted val => exact hrest

/-- The calls after the token that follows the entity of an atom. -/
def closedFrom (check : Option AbacValue → Parser → Parse (PolicyAtom × Parser)) (t : Token)
    (p : Parser) : Parse (PolicyAtom × Parser) :=
  (match t with
    | .comma => do
      let (token, p) ← nextToken p
      match token with
      | .number _ => .fail
      | token =>
        match abacValueFromToken token with
        | none => .crash
        | some value => pure (some value, p)
    | .rparen => pure (none, ⟨p.rest, some .rparen⟩)
    | _ => .fail) >>= fun r => consumeToken .rparen r.2 >>= check r.1

/-- The value of an attribute and the closing parenthesis, which may have been pushed back. -/
theorem takes_closedValue {check : Option AbacValue → Parser → Parse (PolicyAtom × Parser)}
    {L : Option AbacValue → PolicyAtom → List Token → Prop}
    (hcheck : ∀ v, Takes (check v) (L v) fun _ _ => False) :
    Takes (fun p => parseOptionalValue p >>= fun r => consumeToken .rparen r.2 >>= check r.1)
      (fun atom tokens => ∃ (arg : Option ArgTree) (ts : List Token), NotNumber arg ∧
        tokens = valueTokens arg ++ .rparen :: ts ∧ L (arg.map ArgTree.parsed) atom ts)
      (fun value tokens => value = false ∧ tokens = [] ∨ value = true ∧ tokens = [.comma] ∨
        ∃ arg : ArgTree, NotNumber (some arg) ∧ value = false ∧ tokens = [.comma, arg.token]) := by
  have hcomma : Takes (closedFrom check .comma)
      (fun atom tokens => ∃ (arg : ArgTree) (ts : List Token), NotNumber (some arg) ∧
        tokens = arg.token :: .rparen :: ts ∧ L (some arg.parsed) atom ts)
      (fun value tokens => value = true ∧ tokens = [] ∨
        ∃ arg : ArgTree, NotNumber (some arg) ∧ value = false ∧ tokens = [arg.token]) := by
    refine ((takes_value fun v => (hcheck v).consume .rparen).congr (by aesop) (by aesop)).of_outcome
      fun text => ?_
    rw [closedFrom]
    dsimp only
    rw [bind_assoc]
    congr 2
    funext r
    repeat' split
    all_goals first | rfl | exact pure_bind _ _
  have hrparen : Takes (closedFrom check .rparen) (L none) fun _ _ => False := by
    refine (hcheck none).of_outcome fun text => ?_
    rw [closedFrom, pure_bind]
    rw [consumeToken, bind_assoc]
    rfl
  have hrest : ∀ t, Takes (closedFrom check t)
      (fun atom tokens => (t = .comma ∧ ∃ (arg : ArgTree) (ts : List Token), NotNumber (some arg) ∧
        tokens = arg.token :: .rparen :: ts ∧ L (some arg.parsed) atom ts) ∨
          t = .rparen ∧ L none atom tokens)
      (fun value tokens => t = .comma ∧ (value = true ∧ tokens = [] ∨
        ∃ arg : ArgTree, NotNumber (some arg) ∧ value = false ∧ tokens = [arg.token])) := by
    intro t
    by_cases ht : t = .comma
    · subst ht
      simpa using hcomma
    by_cases ht' : t = .rparen
    · subst ht'
      simpa using hrparen
    · refine (takes_fail.congr (by simp [ht, ht']) (by simp [ht])).of_outcome fun text => ?_
      unfold closedFrom
      split
      · exact absurd rfl ht
      · exact absurd rfl ht'
      · rfl
  refine ((Takes.next hrest).congr ?_ ?_).of_outcome fun text => ?_
  · intro atom tokens
    constructor
    · rintro ⟨_, _, rfl, ⟨rfl, arg, ts, hnumber, rfl, hL⟩ | ⟨rfl, hL⟩⟩
      · exact ⟨some arg, ts, hnumber, rfl, hL⟩
      · exact ⟨none, _, by simp [NotNumber], rfl, hL⟩
    · rintro ⟨arg, ts, hnumber, rfl, hL⟩
      cases arg with
      | none => exact ⟨_, _, rfl, .inr ⟨rfl, hL⟩⟩
      | some arg => exact ⟨_, _, rfl, .inl ⟨rfl, arg, ts, hnumber, rfl, hL⟩⟩
  · aesop
  · rw [parseOptionalValue, bind_assoc]
    rfl

/-! ## Atoms -/

theorem comparisonToString_eq_some {t : Token} {operator : String} :
    comparisonToString t = some operator ↔
      ∃ cmp : Comparison, t = cmp.token ∧ operator = cmp.operator := by
  constructor
  · intro h
    cases t <;> cases h
    exacts [⟨.lt, rfl, rfl⟩, ⟨.le, rfl, rfl⟩, ⟨.gt, rfl, rfl⟩, ⟨.ge, rfl, rfl⟩, ⟨.ee, rfl, rfl⟩,
      ⟨.ne, rfl, rfl⟩]
  · rintro ⟨cmp, rfl, rfl⟩
    cases cmp <;> rfl

/-- The beginnings of atoms after which the parser asks for another token, and whether
it takes any token for a value there. -/
inductive AtomPart : Bool → List Token → Prop
  | start : AtomPart false []
  | name (name : List Char) : AtomPart false [.identifier name]
  | opened (name : List Char) : AtomPart false [.identifier name, .lparen]
  | entity (name : List Char) (type : AtomType) :
      AtomPart false [.identifier name, .lparen, .identifier type.text]
  | value (name : List Char) (type : AtomType) :
      AtomPart true [.identifier name, .lparen, .identifier type.text, .comma]
  | closing (name : List Char) (type : AtomType) (arg : ArgTree) (h : NotNumber (some arg)) :
      AtomPart false [.identifier name, .lparen, .identifier type.text, .comma, arg.token]
  | comparison (cmp : Comparison) : AtomPart false [cmp.token]
  | comparing (cmp : Comparison) : AtomPart false [cmp.token, .lparen]
  | left (cmp : Comparison) (l : ArgTree) : AtomPart false [cmp.token, .lparen, l.token]
  | between (cmp : Comparison) (l : ArgTree) : AtomPart false [cmp.token, .lparen, l.token, .comma]
  | right (cmp : Comparison) (l r : ArgTree) :
      AtomPart false [cmp.token, .lparen, l.token, .comma, r.token]

/-- The check of an atom, after its closing parenthesis. -/
def checkAtom (space : Option AttributeSpace) (atom : PolicyAtom) (p : Parser) :
    Parse (PolicyAtom × Parser) :=
  if policyAtomIsValid space atom then pure (atom, p) else .fail

theorem takes_checkAtom (space : Option AttributeSpace) (atom : PolicyAtom) :
    Takes (checkAtom space atom)
      (fun a tokens => a = atom ∧ policyAtomIsValid space atom = true ∧ tokens = [])
      fun _ _ => False := by
  unfold checkAtom
  cases policyAtomIsValid space atom with
  | true => simpa using takes_pure atom
  | false => simpa using (takes_fail : Takes ..)

theorem takes_regular (space : Option AttributeSpace) (name : List Char) :
    Takes (fun p => parseAtomFrom (.identifier name) p >>= fun r =>
        consumeToken .rparen r.2 >>= checkAtom space r.1)
      (fun atom tokens => ∃ tree : AtomTree, tree.tokens = .identifier name :: tokens ∧
        tree.Taken space ∧ atom = tree.parsed)
      (fun value tokens => AtomPart value (.identifier name :: tokens)) := by
  refine (((takes_entity.bind fun type => takes_closedValue fun v =>
    takes_checkAtom space (.normal (storedPredicate name v) type v)).consume .lparen).congr
      ?_ ?_).of_outcome fun text => ?_
  · intro atom tokens
    constructor
    · rintro ⟨_, rfl, type, _, _, rfl, rfl, arg, _, hnumber, rfl, rfl, hvalid, rfl⟩
      refine ⟨.regular name type arg, ?_, ⟨noNumberValue_regular.mpr hnumber, hvalid⟩, rfl⟩
      cases arg <;> rfl
    · rintro ⟨tree, htokens, ⟨hnumber, hvalid⟩, rfl⟩
      cases tree with
      | regular name' type arg =>
        obtain ⟨rfl, rfl⟩ : name' = name ∧ tokens =
            .lparen :: .identifier type.text :: (valueTokens arg ++ [.rparen]) := by
          cases arg <;> simpa [AtomTree.tokens, valueTokens, eq_comm] using htokens
        exact ⟨_, rfl, type, [_], _, rfl, rfl, arg, [], noNumberValue_regular.mp hnumber, rfl, rfl,
          hvalid, rfl⟩
      | comparison cmp l r => exact absurd (cons.inj htokens).1 (cmp.token_ne_identifier name)
  · intro value tokens
    constructor
    · rintro (⟨rfl, rfl⟩ | ⟨_, rfl, ⟨rfl, rfl⟩ | ⟨type, _, _, rfl, rfl, ⟨rfl, rfl⟩ | ⟨rfl, rfl⟩ |
        ⟨arg, hnumber, rfl, rfl⟩⟩⟩)
      · exact .name name
      · exact .opened name
      · exact .entity name type
      · exact .value name type
      · exact .closing name type arg hnumber
    · intro hpart
      generalize htokens : Token.identifier name :: tokens = ts at hpart
      cases hpart with
      | start => cases htokens
      | name =>
        cases htokens
        exact .inl ⟨rfl, rfl⟩
      | opened =>
        cases htokens
        exact .inr ⟨_, rfl, .inl ⟨rfl, rfl⟩⟩
      | entity _ type =>
        cases htokens
        exact .inr ⟨_, rfl, .inr ⟨type, [_], _, rfl, rfl, .inl ⟨rfl, rfl⟩⟩⟩
      | value _ type =>
        cases htokens
        exact .inr ⟨_, rfl, .inr ⟨type, [_], _, rfl, rfl, .inr (.inl ⟨rfl, rfl⟩)⟩⟩
      | closing _ type arg hnumber =>
        cases htokens
        exact .inr ⟨_, rfl, .inr ⟨type, [_], _, rfl, rfl, .inr (.inr ⟨arg, hnumber, rfl, rfl⟩)⟩⟩
      | comparison cmp | comparing cmp | left cmp | between cmp | right cmp =>
        exact absurd (cons.inj htokens).1.symm (cmp.token_ne_identifier name)
  · simp only [parseAtomFrom, parseRegularAtomType, bind_assoc, pure_bind]

theorem takes_comparisonAtom (space : Option AttributeSpace) (cmp : Comparison) :
    Takes (fun p => parseAtomFrom cmp.token p >>= fun r =>
        consumeToken .rparen r.2 >>= checkAtom space r.1)
      (fun atom tokens => ∃ tree : AtomTree, tree.tokens = cmp.token :: tokens ∧
        tree.Taken space ∧ atom = tree.parsed)
      (fun value tokens => AtomPart value (cmp.token :: tokens)) := by
  refine (((takes_comparison fun l r => takes_checkAtom space (.bool cmp.operator l r)).consume
    .lparen).congr ?_ ?_).of_outcome fun text => ?_
  · intro atom tokens
    constructor
    · rintro ⟨_, rfl, l, r, _, rfl, rfl, hvalid, rfl⟩
      exact ⟨.comparison cmp l r, rfl, ⟨trivial, hvalid⟩, rfl⟩
    · rintro ⟨tree, htokens, ⟨-, hvalid⟩, rfl⟩
      cases tree with
      | regular name type arg =>
        cases arg <;> exact absurd (cons.inj htokens).1.symm (cmp.token_ne_identifier name)
      | comparison cmp' l r =>
        obtain ⟨hcmp, rfl⟩ := cons.inj htokens
        obtain rfl := Comparison.token_injective hcmp
        exact ⟨_, rfl, l, r, [], rfl, rfl, hvalid, rfl⟩
  · intro value tokens
    constructor
    · rintro (⟨rfl, rfl⟩ | ⟨_, rfl, rfl, rfl | ⟨l, rfl | rfl | ⟨r, rfl⟩⟩⟩)
      · exact .comparison cmp
      · exact .comparing cmp
      · exact .left cmp l
      · exact .between cmp l
      · exact .right cmp l r
    · intro hpart
      generalize htokens : cmp.token :: tokens = ts at hpart
      cases hpart with
      | start => cases htokens
      | name name | opened name | entity name | value name | closing name =>
        exact absurd (cons.inj htokens).1 (cmp.token_ne_identifier name)
      | comparison =>
        obtain rfl := (cons.inj htokens).2
        exact .inl ⟨rfl, rfl⟩
      | comparing =>
        obtain rfl := (cons.inj htokens).2
        exact .inr ⟨_, rfl, rfl, .inl rfl⟩
      | left _ l =>
        obtain rfl := (cons.inj htokens).2
        exact .inr ⟨_, rfl, rfl, .inr ⟨l, .inl rfl⟩⟩
      | between _ l =>
        obtain rfl := (cons.inj htokens).2
        exact .inr ⟨_, rfl, rfl, .inr ⟨l, .inr (.inl rfl)⟩⟩
      | right _ l r =>
        obtain rfl := (cons.inj htokens).2
        exact .inr ⟨_, rfl, rfl, .inr ⟨l, .inr (.inr ⟨r, rfl⟩)⟩⟩
  · have hfrom : parseAtomFrom cmp.token ⟨text, none⟩ =
        consumeToken .lparen ⟨text, none⟩ >>= fun p => parseBooleanAtomType p >>= fun r =>
          pure (.bool cmp.operator r.1.1 r.1.2, r.2) := by
      cases cmp <;> rfl
    simp only [hfrom, bind_assoc, pure_bind]

/-- `__parse_atom`: the trees that it takes, and the beginnings of trees after which it may
not return. -/
theorem takes_atom (space : Option AttributeSpace) :
    Takes (parseAtom space)
      (fun atom tokens => ∃ tree : AtomTree, tokens = tree.tokens ∧ tree.Taken space ∧
        atom = tree.parsed) AtomPart := by
  have hfrom : ∀ t, Takes
      (fun p => parseAtomFrom t p >>= fun r => consumeToken .rparen r.2 >>= checkAtom space r.1)
      (fun atom tokens => ∃ tree : AtomTree, tree.tokens = t :: tokens ∧ tree.Taken space ∧
        atom = tree.parsed) (fun value tokens => AtomPart value (t :: tokens)) := by
    intro t
    by_cases hname : ∃ name, t = .identifier name
    · obtain ⟨name, rfl⟩ := hname
      exact takes_regular space name
    by_cases hcmp : ∃ cmp : Comparison, t = cmp.token
    · obtain ⟨cmp, rfl⟩ := hcmp
      exact takes_comparisonAtom space cmp
    have hnone : comparisonToString t = none := by
      rw [Option.eq_none_iff_forall_not_mem]
      intro operator hoperator
      obtain ⟨cmp, heq, -⟩ := comparisonToString_eq_some.mp hoperator
      exact hcmp ⟨cmp, heq⟩
    refine (takes_fail.congr ?_ ?_).of_outcome fun text => ?_
    · intro atom tokens
      simp only [false_iff]
      rintro ⟨tree, htokens, -⟩
      match tree with
      | .regular name type none | .regular name type (some arg) =>
        exact hname ⟨name, (cons.inj htokens).1.symm⟩
      | .comparison cmp l r => exact hcmp ⟨cmp, (cons.inj htokens).1.symm⟩
    · intro value tokens
      simp only [false_iff]
      intro hpart
      generalize htokens : t :: tokens = ts at hpart
      cases hpart with
      | start => cases htokens
      | name name | opened name | entity name | value name | closing name =>
        exact hname ⟨name, (cons.inj htokens).1⟩
      | comparison cmp | comparing cmp | left cmp | between cmp | right cmp =>
        exact hcmp ⟨cmp, (cons.inj htokens).1⟩
    · have hfail : parseAtomFrom t ⟨text, none⟩ = .fail := by
        unfold parseAtomFrom
        split
        · exact absurd ⟨_, rfl⟩ hname
        · rw [hnone]
      rw [hfail]
      rfl
  refine (Takes.next hfrom).congr ?_ ?_
  · intro atom tokens
    constructor
    · rintro ⟨t, ts, rfl, tree, htokens, htree⟩
      exact ⟨tree, htokens.symm, htree⟩
    · rintro ⟨tree, rfl, htree⟩
      obtain ⟨t, ts, htokens⟩ : ∃ t ts, tree.tokens = t :: ts := by
        match tree with
        | .regular _ _ none | .regular _ _ (some _) | .comparison _ _ _ => exact ⟨_, _, rfl⟩
      exact ⟨t, ts, htokens, tree, htokens, htree⟩
  · intro value tokens
    constructor
    · rintro (⟨rfl, rfl⟩ | ⟨t, ts, rfl, hpart⟩)
      · exact .start
      · exact hpart
    · intro hpart
      cases tokens with
      | nil =>
        cases hpart
        exact .inl ⟨rfl, rfl⟩
      | cons t ts => exact .inr ⟨t, ts, rfl, hpart⟩

end Nexus.Abac
