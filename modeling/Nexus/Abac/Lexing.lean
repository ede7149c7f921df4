import Nexus.Abac.Grammar

/-!
# The lexer reads what a text spells

`reads_iff_spells` relates the tokens that `lexer_next_token` hands out, call by call,
to the texts that spell them.

One difference has to be dealt with.  At the end of the text an open token is backed up
onto its own last character.  The character is then read again, but it never begins a
punctuation mark, and in a policy every open token is followed by one.
-/

namespace Nexus.Abac

open List

/-- A token that the lexer can return: no number starts with a zero. -/
def Token.Lexed (t : Token) : Prop :=
  t.WellFormed ∧ ∀ val, t = .number val → val.head? ≠ some '0'

variable {t : Token}

theorem Token.WellFormed.lexed (h : t.WellFormed) (hnumber : ∀ val, t ≠ .number val) :
    t.Lexed :=
  ⟨h, fun val heq => absurd heq (hnumber val)⟩

/-- What is left is the last character of the token, backed up at the end of the text. -/
def BackedUp (rest : List Char) : Prop := ∃ c, rest = [c] ∧ isDelimiter c = false

variable {c : Char}

theorem not_isDelimiter_of_isDigit (h : c.isDigit = true) : isDelimiter c = false := by
  rw [Bool.eq_false_iff]
  intro hd
  rw [not_isDigit_of_isDelimiter hd] at h
  cases h

theorem not_isDelimiter_of_identifierChar (h : identifierChar c = true) :
    isDelimiter c = false := by
  rw [Bool.eq_false_iff]
  intro hd
  rw [not_identifierChar_of_isDelimiter hd] at h
  cases h

theorem identifierChar_of_identifierStart (h : identifierStart c = true) :
    identifierChar c = true := by
  simp only [identifierStart, Bool.or_eq_true] at h
  simp only [identifierChar, Char.isAlphanum, Bool.or_eq_true]
  tauto

/-! ## The loops -/

variable {run rest text : List Char}

theorem lexDigits_sound {last : Char} (hlast : isDelimiter last = false) (text : List Char) :
    (∀ c ∈ (lexDigits last text).1, c.isDigit = true) ∧
      (text = (lexDigits last text).1 ++ (lexDigits last text).2 ∨
        BackedUp (lexDigits last text).2) := by
  induction text generalizing last with
  | nil => exact ⟨by simp [lexDigits], .inr ⟨last, rfl, hlast⟩⟩
  | cons c cs ih =>
    by_cases hc : c.isDigit = true
    · obtain ⟨hdigits, hrest⟩ := ih (not_isDelimiter_of_isDigit hc)
      simp only [lexDigits, hc, if_true]
      refine ⟨?_, hrest.imp (fun h => ?_) id⟩
      · simpa [hc] using hdigits
      · rw [cons_append, ← h]
    · simp [lexDigits, hc]

theorem lexDigits_complete (last : Char) {d : Char} (hrun : ∀ c ∈ run, c.isDigit = true)
    (hd : d.isDigit = false) :
    lexDigits last (run ++ d :: rest) = (run, d :: rest) := by
  induction run generalizing last with
  | nil => simp [lexDigits, hd]
  | cons c cs ih =>
    have hc := hrun c mem_cons_self
    have hcs := ih c fun x hx => hrun x (mem_cons_of_mem _ hx)
    simp only [cons_append, lexDigits, hc, if_true, hcs]

theorem ne_of_isAlphanum (h : c.isAlphanum = true) : c ≠ '.' ∧ c ≠ '@' := by
  constructor
  all_goals
    rintro rfl
    cases h

theorem lexIdentifierChars_sound {dot sign dot' : Bool} {last : Char}
    (hlast : isDelimiter last = false)
    (h : lexIdentifierChars dot sign last text = (some (run, dot'), rest)) :
    (∀ c ∈ run, identifierChar c = true) ∧ run.count '.' + dot.toNat = dot'.toNat ∧
      run.count '@' + sign.toNat ≤ 1 ∧ (text = run ++ rest ∨ BackedUp rest) := by
  induction text generalizing dot sign last run with
  | nil =>
    simp only [lexIdentifierChars, Prod.mk.injEq, Option.some.injEq] at h
    obtain ⟨⟨rfl, rfl⟩, rfl⟩ := h
    exact ⟨by simp, by simp, by simpa using Bool.toNat_le sign, .inr ⟨last, rfl, hlast⟩⟩
  | cons c cs ih =>
    -- one more character of the identifier, after which the loop goes on
    have hgo : ∀ {dot₁ sign₁ : Bool}, identifierChar c = true →
        ((lexIdentifierChars dot₁ sign₁ c cs).1.map (fun r => (c :: r.1, r.2)),
          (lexIdentifierChars dot₁ sign₁ c cs).2) = (some (run, dot'), rest) →
        ∃ run', run = c :: run' ∧ (∀ x ∈ run, identifierChar x = true) ∧
          run'.count '.' + dot₁.toNat = dot'.toNat ∧ run'.count '@' + sign₁.toNat ≤ 1 ∧
          (c :: cs = run ++ rest ∨ BackedUp rest) := by
      intro dot₁ sign₁ hc heq
      obtain ⟨hmap, hrest⟩ := Prod.mk.inj heq
      obtain ⟨⟨run', dot''⟩, hsome, hpair⟩ := Option.map_eq_some_iff.mp hmap
      cases hpair
      obtain ⟨hchars, hdots, hsigns, htext⟩ :=
        ih (not_isDelimiter_of_identifierChar hc) (Prod.ext hsome hrest)
      refine ⟨run', rfl, ?_, hdots, hsigns, htext.imp (fun htext => ?_) id⟩
      · simpa [hc] using hchars
      · rw [htext, cons_append]
    rw [lexIdentifierChars] at h
    split at h
    · next hc =>
      obtain ⟨run', rfl, hchars, hdots, hsigns, htext⟩ := hgo (by simp [identifierChar, hc]) h
      obtain ⟨hdot, hat⟩ := ne_of_isAlphanum hc
      exact ⟨hchars, by rwa [count_cons_of_ne hdot],
        by rwa [count_cons_of_ne hat], htext⟩
    split at h
    · next hc =>
      subst hc
      split at h
      · cases h
      · next hdot =>
        obtain ⟨run', rfl, hchars, hdots, hsigns, htext⟩ := hgo (by decide) h
        simp only [Bool.not_eq_true] at hdot
        subst hdot
        exact ⟨hchars, by simpa using hdots,
          by rwa [count_cons_of_ne (by decide)], htext⟩
    split at h
    · next hc =>
      subst hc
      split at h
      · cases h
      · next hsign =>
        obtain ⟨run', rfl, hchars, hdots, hsigns, htext⟩ := hgo (by decide) h
        simp only [Bool.not_eq_true] at hsign
        subst hsign
        exact ⟨hchars, by rwa [count_cons_of_ne (by decide)],
          by simpa using hsigns, htext⟩
    · simp only [Prod.mk.injEq, Option.some.injEq] at h
      obtain ⟨⟨rfl, rfl⟩, rfl⟩ := h
      exact ⟨by simp, by simp, by simpa using Bool.toNat_le sign, .inl rfl⟩

theorem lexIdentifierChars_complete {dot sign : Bool} {last d : Char}
    (hrun : ∀ c ∈ run, identifierChar c = true) (hdots : run.count '.' + dot.toNat ≤ 1)
    (hsigns : run.count '@' + sign.toNat ≤ 1) (hd : identifierChar d = false) :
    lexIdentifierChars dot sign last (run ++ d :: rest) =
      (some (run, dot || decide ('.' ∈ run)), d :: rest) := by
  induction run generalizing dot sign last with
  | nil =>
    simp only [identifierChar, Bool.or_eq_false_iff, decide_eq_false_iff_not] at hd
    obtain ⟨⟨hal, hdot⟩, hat⟩ := hd
    simp [lexIdentifierChars, hal, hdot, hat]
  | cons c cs ih =>
    have hcs : ∀ x ∈ cs, identifierChar x = true := fun x hx => hrun x (mem_cons_of_mem _ hx)
    have hc := hrun c mem_cons_self
    simp only [identifierChar, Bool.or_eq_true, decide_eq_true_eq] at hc
    rw [cons_append, lexIdentifierChars]
    obtain (hal | rfl) | rfl := hc
    · obtain ⟨hdot, hat⟩ := ne_of_isAlphanum hal
      rw [count_cons_of_ne hdot] at hdots
      rw [count_cons_of_ne hat] at hsigns
      simp [hal, ih hcs hdots hsigns, hdot.symm]
    · rw [count_cons_self] at hdots
      rw [count_cons_of_ne (by decide)] at hsigns
      obtain rfl : dot = false := by
        cases dot with
        | false => rfl
        | true => exact absurd hdots (by simp)
      have hgo : lexIdentifierChars true sign '.' (cs ++ d :: rest) = _ :=
        ih hcs (by simpa using hdots) hsigns
      simp [hgo, show '.'.isAlphanum = false by decide]
    · rw [count_cons_of_ne (by decide)] at hdots
      rw [count_cons_self] at hsigns
      obtain rfl : sign = false := by
        cases sign with
        | false => rfl
        | true => exact absurd hsigns (by simp)
      have hgo : lexIdentifierChars dot true '@' (cs ++ d :: rest) = _ :=
        ih hcs hdots (by simpa using hsigns)
      simp [hgo, show '@'.isAlphanum = false by decide]

theorem lexStringChars_eq_some :
    lexStringChars text = some (run, rest) ↔ '"' ∉ run ∧ text = run ++ '"' :: rest := by
  induction text generalizing run rest with
  | nil => simp [lexStringChars]
  | cons c cs ih =>
    by_cases hc : c = '"'
    · subst hc
      simp only [lexStringChars, if_true, Option.some.injEq, Prod.mk.injEq]
      constructor
      · rintro ⟨rfl, rfl⟩
        exact ⟨by simp, rfl⟩
      · rintro ⟨hrun, htext⟩
        cases run with
        | nil => exact ⟨rfl, (cons.inj htext).2⟩
        | cons d ds => exact absurd ((cons.inj htext).1 ▸ mem_cons_self) hrun
    · simp only [lexStringChars, hc, if_false, Option.map_eq_some_iff, Prod.exists, ih,
        Prod.mk.injEq]
      constructor
      · rintro ⟨run', rest', ⟨hrun, rfl⟩, rfl, rfl⟩
        exact ⟨by simp [hrun, Ne.symm hc], rfl⟩
      · rintro ⟨hrun, htext⟩
        cases run with
        | nil => exact absurd (cons.inj htext).1 hc
        | cons d ds =>
          obtain ⟨rfl, rfl⟩ := cons.inj htext
          exact ⟨ds, rest, ⟨fun hmem => hrun (mem_cons_of_mem _ hmem), rfl⟩, rfl, rfl⟩

/-! ## Soundness -/

/-- The token was cut off the front of the text. -/
def Cut (text : List Char) (t : Token) (rest : List Char) : Prop :=
  t.Lexed ∧ (text = t.text ++ rest ∨ t.isOpen = true ∧ BackedUp rest)

theorem lexNumber_sound (hc : c.isDigit = true) (hzero : c ≠ '0') (cs : List Char) :
    (lexNumber c cs).1 = .unknown ∨ Cut (c :: cs) (lexNumber c cs).1 (lexNumber c cs).2 := by
  obtain ⟨hdigits, hrest⟩ := lexDigits_sound (not_isDelimiter_of_isDigit hc) cs
  rw [lexNumber]
  split
  · exact .inl rfl
  · next hlen =>
    refine .inr ⟨⟨⟨by simp, ?_, Nat.not_lt.mp hlen⟩, ?_⟩, hrest.imp (fun h => ?_) fun h => ⟨rfl, h⟩⟩
    · simpa [hc] using hdigits
    · rintro val heq
      obtain rfl := Token.number.inj heq
      simpa using hzero
    · exact congrArg (c :: ·) h

theorem lexIdentifier_sound (hc : identifierStart c = true) (cs : List Char) :
    (lexIdentifier c cs).1 = .unknown ∨
      Cut (c :: cs) (lexIdentifier c cs).1 (lexIdentifier c cs).2 := by
  rw [lexIdentifier]
  split
  · exact .inl rfl
  · next run dot rest heq =>
    have hchar := identifierChar_of_identifierStart hc
    obtain ⟨hchars, hdots, hsigns, hrest⟩ :=
      lexIdentifierChars_sound (not_isDelimiter_of_identifierChar hchar) heq
    split
    · exact .inl rfl
    · next hlen =>
      have hdot : c ≠ '.' := by
        rintro rfl
        cases hc
      have hident : IsIdentifier (c :: run) dot.toNat := by
        refine ⟨by simpa using hc, by simpa [hchar] using hchars, ?_, ?_, Nat.not_lt.mp hlen⟩
        · rw [count_cons_of_ne hdot]
          simpa using hdots
        · by_cases hat : c = '@'
          · subst hat
            simpa using hsigns
          · rw [count_cons_of_ne hat]
            simpa [hat] using hsigns
      have hcut : c :: cs = (c :: run) ++ rest ∨ BackedUp rest :=
        hrest.imp (fun h => congrArg (c :: ·) h) id
      cases dot with
      | true =>
        exact .inr ⟨⟨hident, fun _ heq => by cases heq⟩, hcut.imp id fun h => ⟨rfl, h⟩⟩
      | false =>
        exact .inr ⟨⟨hident, fun _ heq => by cases heq⟩, hcut.imp id fun h => ⟨rfl, h⟩⟩

theorem lexString_sound {cs : List Char} (h : lexString cs = some (t, rest)) :
    t = .unknown ∨ Cut ('"' :: cs) t rest := by
  obtain ⟨⟨run, rest'⟩, hrun, heq⟩ := Option.map_eq_some_iff.mp h
  obtain ⟨hquote, rfl⟩ := lexStringChars_eq_some.mp hrun
  obtain ⟨ht, rfl⟩ := Prod.mk.inj heq
  split at ht
  · exact .inl ht.symm
  · next hlen =>
    subst ht
    refine .inr ⟨⟨⟨hquote, Nat.not_lt.mp hlen⟩, fun _ heq => by cases heq⟩, .inl ?_⟩
    simp [Token.text]

theorem Cut.fixed (ht : t.Lexed) : Cut (t.text ++ rest) t rest :=
  ⟨ht, .inl rfl⟩

theorem lexAngle_sound {alone withEquals : Token} (hc : isDelimiter c = false)
    (halone : alone.text = [c]) (hequals : withEquals.text = [c, '='])
    (hopen : alone.isOpen = true) (ha : alone.Lexed) (hw : withEquals.Lexed) (cs : List Char) :
    Cut (c :: cs) (lexAngle c alone withEquals cs).1 (lexAngle c alone withEquals cs).2 := by
  unfold lexAngle
  split
  · exact ⟨hw, .inl (by rw [hequals]; rfl)⟩
  · exact ⟨ha, .inr ⟨hopen, c, rfl, hc⟩⟩
  · exact ⟨ha, .inl (by rw [halone]; rfl)⟩

theorem lexWithEquals_sound (htext : t.text = [c, '=']) (ht : t.Lexed) (cs : List Char) :
    (lexWithEquals t cs).1 = .unknown ∨
      Cut (c :: cs) (lexWithEquals t cs).1 (lexWithEquals t cs).2 := by
  unfold lexWithEquals
  split
  · exact .inr ⟨ht, .inl (by rw [htext]; rfl)⟩
  · exact .inl rfl
  · exact .inl rfl

theorem lexColon_sound (cs : List Char) :
    (lexColon cs).1 = .unknown ∨ Cut (':' :: cs) (lexColon cs).1 (lexColon cs).2 := by
  unfold lexColon
  split
  · exact .inr ⟨⟨trivial, fun _ heq => by cases heq⟩, .inl rfl⟩
  · exact .inl rfl
  · exact .inl rfl

/-- What a call of the lexer can return: an unknown token, the end of a blank text, or a
token that was cut off after blanks. -/
theorem lexerNextToken_sound (h : lexerNextToken text = some (t, rest)) :
    t = .unknown ∨ (t = .done ∧ rest = [] ∧ ∀ c ∈ text, isBlank c = true) ∨
      ∃ blanks body, text = blanks ++ body ∧ (∀ c ∈ blanks, isBlank c = true) ∧
        Cut body t rest := by
  have hcut : ∀ {body : List Char} {r : Token × List Char}, some r = some (t, rest) →
      r.1 = .unknown ∨ Cut body r.1 r.2 → t = .unknown ∨
        (t = .done ∧ rest = [] ∧ ∀ c ∈ body, isBlank c = true) ∨
        ∃ blanks body', body = blanks ++ body' ∧ (∀ c ∈ blanks, isBlank c = true) ∧
          Cut body' t rest := by
    intro body r heq h
    cases heq
    exact h.imp id fun h => .inr ⟨[], body, rfl, by simp, h⟩
  have hfixed : ∀ t ∈ [.comma, .lparen, .rparen, .lt, .le, .gt, .ge, .ne, Token.ee], t.Lexed := by
    simp [Token.Lexed, Token.WellFormed]
  fun_induction lexerNextToken text with
  | case1 =>
    cases h
    exact .inr (.inl ⟨rfl, rfl, by simp⟩)
  | case2 c cs hblank ih =>
    have hc : isBlank c = true := by simpa [isBlank] using hblank
    obtain hunk | ⟨hdone, hrest, hall⟩ | ⟨blanks, body, rfl, hblanks, hbody⟩ := ih h
    · exact .inl hunk
    · exact .inr (.inl ⟨hdone, hrest, by simpa [hc] using hall⟩)
    · exact .inr (.inr ⟨c :: blanks, body, rfl, by simpa [hc] using hblanks, hbody⟩)
  | case3 cs => exact hcut h (.inr (Cut.fixed (hfixed .comma (by simp))))
  | case4 cs => exact hcut h (.inr (Cut.fixed (hfixed .lparen (by simp))))
  | case5 cs => exact hcut h (.inr (Cut.fixed (hfixed .rparen (by simp))))
  | case6 cs =>
    exact hcut h (.inr (lexAngle_sound (by decide) rfl rfl rfl (hfixed .lt (by simp))
      (hfixed .le (by simp)) cs))
  | case7 cs =>
    exact hcut h (.inr (lexAngle_sound (by decide) rfl rfl rfl (hfixed .gt (by simp))
      (hfixed .ge (by simp)) cs))
  | case8 cs => exact hcut h (lexWithEquals_sound rfl (hfixed .ne (by simp)) cs)
  | case9 cs => exact hcut h (lexWithEquals_sound rfl (hfixed .ee (by simp)) cs)
  | case10 cs => exact hcut h (lexColon_sound cs)
  | case11 c cs _ _ _ _ _ _ _ _ _ hident =>
    exact hcut h (lexIdentifier_sound (by simpa [identifierStart] using hident) cs)
  | case12 cs => exact hcut rfl (lexString_sound h)
  | case13 c cs _ _ _ _ _ _ _ _ _ _ _ hnumber =>
    exact hcut h (lexNumber_sound hnumber.1 hnumber.2 cs)
  | case14 => exact hcut h (.inl rfl)

/-! ## Completeness -/

theorem lexerNextToken_blank (hc : isBlank c = true) (cs : List Char) :
    lexerNextToken (c :: cs) = lexerNextToken cs := by
  rw [lexerNextToken, if_pos (by simpa [isBlank] using hc)]

theorem lexerNextToken_identifierStart (hc : identifierStart c = true) (cs : List Char) :
    lexerNextToken (c :: cs) = some (lexIdentifier c cs) := by
  have hne : ∀ {d : Char}, identifierStart d = false → c ≠ d := by
    rintro d hd rfl
    rw [hc] at hd
    cases hd
  have halpha : c.isAlpha = true ∨ c = '@' := by simpa [identifierStart] using hc
  have hblank : ¬ (c = ' ' ∨ c = '\t') := not_or.mpr ⟨hne (by decide), hne (by decide)⟩
  rw [lexerNextToken, if_neg hblank]
  repeat rw [if_neg (hne (by decide))]
  rw [if_pos halpha]

theorem lexerNextToken_digit (hc : c.isDigit = true) (hzero : c ≠ '0') (cs : List Char) :
    lexerNextToken (c :: cs) = some (lexNumber c cs) := by
  have hne : ∀ {d : Char}, d.isDigit = false → c ≠ d := by
    rintro d hd rfl
    rw [hc] at hd
    cases hd
  have halpha : ¬ (c.isAlpha = true ∨ c = '@') := by
    have hstart := not_identifierStart_of_isDigit hc
    simpa [identifierStart] using hstart
  have hblank : ¬ (c = ' ' ∨ c = '\t') := not_or.mpr ⟨hne (by decide), hne (by decide)⟩
  rw [lexerNextToken, if_neg hblank]
  repeat rw [if_neg (hne (by decide))]
  rw [if_neg halpha, if_pos ⟨hc, hzero⟩]

theorem lexerNextToken_identifier {val : List Char} {dots : Nat} (h : IsIdentifier val dots)
    (hdots : dots ≤ 1) (hrest : Delimited rest) :
    lexerNextToken (val ++ rest) =
      some (if '.' ∈ val then .dotNotation val else .identifier val, rest) := by
  obtain ⟨d, rest, rfl, hd⟩ := hrest
  cases val with
  | nil => exact absurd h.start (by simp)
  | cons c cs =>
    have hstart : identifierStart c = true := by simpa using h.start
    have hdot : c ≠ '.' := by
      rintro rfl
      cases hstart
    have hcount := h.dots
    rw [count_cons_of_ne hdot] at hcount
    have hsigns : cs.count '@' + (decide (c = '@')).toNat ≤ 1 := by
      have hsigns := h.signs
      by_cases hat : c = '@'
      · subst hat
        simpa using hsigns
      · rw [count_cons_of_ne hat] at hsigns
        simpa [hat] using hsigns
    have hrun : lexIdentifierChars false (decide (c = '@')) c (cs ++ d :: rest) = _ :=
      lexIdentifierChars_complete (fun x hx => h.chars x (mem_cons_of_mem _ hx))
        (by simpa [hcount] using hdots) hsigns (not_identifierChar_of_isDelimiter hd)
    have hlen : ¬ maxArgumentLen < (c :: cs).length := Nat.not_lt.mpr h.short
    rw [cons_append, lexerNextToken_identifierStart hstart, lexIdentifier, hrun]
    simp only [hlen, if_false, Bool.false_or, decide_eq_true_eq, mem_cons, hdot.symm,
      false_or]
    split <;> rfl

theorem lexerNextToken_number {val : List Char} (h : Token.Lexed (.number val))
    (hrest : Delimited rest) : lexerNextToken (val ++ rest) = some (.number val, rest) := by
  obtain ⟨⟨hne, hdigits, hlen⟩, hzero⟩ := h
  obtain ⟨d, rest, rfl, hd⟩ := hrest
  cases val with
  | nil => exact absurd rfl hne
  | cons c cs =>
    have hc : c ≠ '0' := by simpa using hzero _ rfl
    have hrun : lexDigits c (cs ++ d :: rest) = (cs, d :: rest) :=
      lexDigits_complete c (fun x hx => hdigits x (mem_cons_of_mem _ hx))
        (not_isDigit_of_isDelimiter hd)
    have hlen' : ¬ maxArgumentLen < (c :: cs).length := Nat.not_lt.mpr hlen
    rw [cons_append, lexerNextToken_digit (hdigits c mem_cons_self) hc, lexNumber]
    simp only [hrun, hlen', if_false]

theorem lexerNextToken_string {val : List Char} (h : Token.WellFormed (.string val)) :
    lexerNextToken ('"' :: (val ++ ['"']) ++ rest) = some (.string val, rest) := by
  have hrun : lexStringChars (val ++ '"' :: rest) = some (val, rest) :=
    lexStringChars_eq_some.mpr ⟨h.1, rfl⟩
  have hlex : lexerNextToken ('"' :: (val ++ '"' :: rest)) = lexString (val ++ '"' :: rest) := rfl
  have hlen : ¬ maxArgumentLen < val.length := Nat.not_lt.mpr h.2
  simp only [cons_append, append_assoc, nil_append, hlex, lexString, hrun,
    Option.map_some, hlen, if_false]

theorem lexerNextToken_angle (hrest : Delimited rest) :
    lexerNextToken ('<' :: rest) = some (.lt, rest) ∧
      lexerNextToken ('>' :: rest) = some (.gt, rest) := by
  obtain ⟨d, rest, rfl, hd⟩ := hrest
  simp only [isDelimiter, isBlank, Bool.or_eq_true, decide_eq_true_eq] at hd
  obtain ((((rfl | rfl) | rfl) | rfl) | rfl) | rfl := hd <;> exact ⟨rfl, rfl⟩

/-- A text that begins with a token gives that token and the text after it. -/
theorem lexerNextToken_complete (ht : t.Lexed) (hopen : t.isOpen = true → Delimited rest) :
    lexerNextToken (t.text ++ rest) = some (t, rest) := by
  cases t with
  | number val => exact lexerNextToken_number ht (hopen rfl)
  | string val => exact lexerNextToken_string ht.1
  | identifier val =>
    have hdot : '.' ∉ val := count_eq_zero.mp ht.1.dots
    have h := lexerNextToken_identifier ht.1 (Nat.zero_le 1) (hopen rfl)
    rwa [if_neg hdot] at h
  | dotNotation val =>
    have hdot : '.' ∈ val := count_pos_iff.mp (by rw [ht.1.dots]; exact Nat.one_pos)
    have h := lexerNextToken_identifier ht.1 le_rfl (hopen rfl)
    rwa [if_pos hdot] at h
  | lt => exact (lexerNextToken_angle (hopen rfl)).1
  | gt => exact (lexerNextToken_angle (hopen rfl)).2
  | done | unknown => exact ht.1.elim
  | _ => rfl

/-! ## Call after call -/

/-- Successive calls of the lexer return the tokens and leave the rest of the text. -/
inductive Reads : List Char → List Token → List Char → Prop
  | nil {text : List Char} : Reads text [] text
  | cons {text text' rest : List Char} {t : Token} {tokens : List Token} :
      lexerNextToken text = some (t, text') → Reads text' tokens rest →
        Reads text (t :: tokens) rest

theorem reads_nil_iff : Reads text [] rest ↔ text = rest :=
  ⟨fun h => by cases h; rfl, fun h => h ▸ .nil⟩

variable {tokens : List Token}

theorem reads_cons_iff :
    Reads text (t :: tokens) rest ↔
      ∃ text', lexerNextToken text = some (t, text') ∧ Reads text' tokens rest := by
  constructor
  · intro h
    cases h with
    | cons hlex hreads => exact ⟨_, hlex, hreads⟩
  · rintro ⟨text', hlex, hreads⟩
    exact .cons hlex hreads

theorem reads_append_iff {tokens' : List Token} :
    Reads text (tokens ++ tokens') rest ↔
      ∃ mid, Reads text tokens mid ∧ Reads mid tokens' rest := by
  induction tokens generalizing text with
  | nil => simp [reads_nil_iff]
  | cons t tokens ih =>
    simp only [cons_append, reads_cons_iff, ih]
    constructor
    · rintro ⟨text', hlex, mid, hreads, hreads'⟩
      exact ⟨mid, ⟨text', hlex, hreads⟩, hreads'⟩
    · rintro ⟨mid, ⟨text', hlex, hreads⟩, hreads'⟩
      exact ⟨text', hlex, mid, hreads, hreads'⟩

theorem not_isPunctuation_of_backedUp (h : BackedUp text)
    (hlex : lexerNextToken text = some (t, rest)) : t.isPunctuation = false := by
  obtain ⟨c, rfl, hc⟩ := h
  obtain rfl | ⟨rfl, -, -⟩ | ⟨blanks, body, htext, hblanks, hlexed, hbody⟩ :=
    lexerNextToken_sound hlex
  · rfl
  · rfl
  -- the token is closed, so it was cut off a text that begins with the character
  rw [Bool.eq_false_iff]
  intro hpunct
  obtain hbody | ⟨hopen, -⟩ := hbody
  · obtain ⟨d, ds, htoken, hd⟩ : ∃ d ds, t.text = d :: ds ∧ isDelimiter d = true := by
      cases t <;> first | exact ⟨_, _, rfl, by decide⟩ | cases hpunct
    cases blanks with
    | nil =>
      rw [hbody, htoken] at htext
      rw [(cons.inj htext).1, hd] at hc
      cases hc
    | cons b bs =>
      have hblank := hblanks b mem_cons_self
      rw [← (cons.inj htext).1] at hblank
      simp [isDelimiter, hblank] at hc
  · revert hopen hpunct
    cases t <;> simp [Token.isOpen, Token.isPunctuation]

theorem spells_nil_of_blank (h : ∀ c ∈ text, isBlank c = true) :
    Spells [] text := by
  induction text with
  | nil => exact .nil
  | cons c cs ih =>
    exact .blank (h c mem_cons_self) (ih fun d hd => h d (mem_cons_of_mem _ hd))

theorem Spells.blanks_append {blanks : List Char} (h : Spells tokens text)
    (hblanks : ∀ c ∈ blanks, isBlank c = true) :
    Spells tokens (blanks ++ text) := by
  induction blanks with
  | nil => exact h
  | cons c cs ih =>
    exact .blank (hblanks c mem_cons_self)
      (ih fun d hd => hblanks d (mem_cons_of_mem _ hd))

/-- A token of a policy: neither the end nor an error. -/
def Token.Proper (t : Token) : Prop := t ≠ .done ∧ t ≠ .unknown

theorem spells_of_reads (hsep : Separated tokens) (hproper : ∀ t ∈ tokens, t.Proper)
    (h : Reads text (tokens ++ [.done]) rest) :
    Spells tokens text ∧ ∀ t ∈ tokens, t.Lexed := by
  induction tokens generalizing text with
  | nil =>
    obtain ⟨text', hlex, -⟩ := reads_cons_iff.mp h
    obtain heq | ⟨-, -, hblank⟩ | ⟨_, _, _, _, hlexed, -⟩ := lexerNextToken_sound hlex
    · cases heq
    · exact ⟨spells_nil_of_blank hblank, by simp⟩
    · exact hlexed.1.elim
  | cons t tokens ih =>
    obtain ⟨text', hlex, hreads⟩ := reads_cons_iff.mp h
    obtain ⟨hspells, hlexed⟩ :=
      ih hsep.2 (fun t ht => hproper t (mem_cons_of_mem _ ht)) hreads
    obtain ⟨hdone, hunknown⟩ := hproper t mem_cons_self
    obtain heq | ⟨heq, -⟩ | ⟨blanks, body, rfl, hblanks, ht, hbody⟩ := lexerNextToken_sound hlex
    · exact absurd heq hunknown
    · exact absurd heq hdone
    refine ⟨Spells.blanks_append ?_ hblanks, by simpa [ht] using hlexed⟩
    obtain rfl | ⟨hopen, hbacked⟩ := hbody
    · exact .token t hspells
    · -- the next token is punctuation, which a backed up character does not begin
      obtain ⟨t', tokens', rfl, hpunct⟩ := hsep.1 hopen
      obtain ⟨text'', hlex', -⟩ := reads_cons_iff.mp hreads
      rw [not_isPunctuation_of_backedUp hbacked hlex'] at hpunct
      cases hpunct

theorem reads_of_spells (h : Spells tokens text) (hsep : Separated tokens)
    (hlexed : ∀ t ∈ tokens, t.Lexed) :
    Reads text (tokens ++ [.done]) [] := by
  induction h with
  | nil => exact .cons rfl .nil
  | blank hc hrest ih =>
    have hreads := ih hsep hlexed
    obtain ⟨t, ts, heq⟩ := exists_cons_of_ne_nil (append_ne_nil_of_right_ne_nil _
      (cons_ne_nil Token.done []))
    rw [heq] at hreads ⊢
    obtain ⟨text', hlex, hreads⟩ := reads_cons_iff.mp hreads
    exact .cons ((lexerNextToken_blank hc _).trans hlex) hreads
  | token t hrest ih =>
    have hlex := lexerNextToken_complete (hlexed t mem_cons_self)
      (hrest.delimited_of_separated hsep)
    exact .cons hlex (ih hsep.2 fun t ht => hlexed t (mem_cons_of_mem _ ht))

/-- The lexer reads separated tokens up to the end exactly if the text spells them. -/
theorem reads_iff_spells (hsep : Separated tokens) (hproper : ∀ t ∈ tokens, t.Proper) :
    (∃ rest, Reads text (tokens ++ [.done]) rest) ↔
      Spells tokens text ∧ ∀ t ∈ tokens, t.Lexed := by
  constructor
  · rintro ⟨rest, h⟩
    exact spells_of_reads hsep hproper h
  · rintro ⟨hspells, hlexed⟩
    exact ⟨[], reads_of_spells hspells hsep hlexed⟩

end Nexus.Abac
