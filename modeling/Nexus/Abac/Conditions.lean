import Nexus.Abac.Translation
import Nexus.Abac.Grammar

/-!
# Conditions on users and objects

What a condition means on a set of facts, and when the literals of its translation say the
same (`Condition.satisfiable_given_iff`).

`Covers` compares two lists of conditions.  If one covers the other, then this one holds
wherever the first does (`Covers.holds`).  For the converse (`covers_of_holds`) the facts and
the primitives are made from the first list: they are what its conditions need, where an
attribute has a value that nothing else is.
-/

namespace Nexus.Abac

open Datalog

/-! ## Conditions on facts -/

section Conditions

variable (prims : Primitives) (facts : Set GroundAtom) (u o : String)

/-- The values of a side: the constant, or those of the attribute or function. -/
def Side.Denotes : Side → String → Prop
  | .value text, x => x = text
  | .named type name, x => ⟨name, [type.entity u o, x]⟩ ∈ facts

/-- The fact is present, or values of the two sides are related. -/
def Condition.Holds : Condition → Prop
  | .fact predicate type value => groundFact predicate (type.entity u o) value ∈ facts
  | .compare primitive left right =>
    ∃ x y, left.Denotes facts u o x ∧ right.Denotes facts u o y ∧ prims primitive x y

variable {prims facts u o}

/-- What the parser leaves of a side: constants without quotes, names of no primitive. -/
def Side.Proper : Side → Prop
  | .value text => '"' ∉ text.toList
  | .named _ name => name ∉ primitiveNames

/-- What the parser leaves of a condition. -/
def Condition.Proper : Condition → Prop
  | .fact predicate _ value => predicate ∉ primitiveNames ∧ '"' ∉ value.toList
  | .compare primitive left right => primitive ∈ primitiveNames ∧ left.Proper ∧ right.Proper

instance (s : Side) : Decidable s.Proper :=
  match s with
  | .value text => inferInstanceAs (Decidable ('"' ∉ text.toList))
  | .named _ name => inferInstanceAs (Decidable (name ∉ primitiveNames))

instance (c : Condition) : Decidable c.Proper :=
  match c with
  | .fact predicate _ value =>
    inferInstanceAs (Decidable (predicate ∉ primitiveNames ∧ '"' ∉ value.toList))
  | .compare primitive left right =>
    inferInstanceAs (Decidable (primitive ∈ primitiveNames ∧ left.Proper ∧ right.Proper))

/-- The side is not an empty constant. -/
def Side.Pushed (s : Side) : Prop := s ≠ .value ""

/-- No side is an empty constant. -/
def Condition.Pushed : Condition → Prop
  | .fact _ _ _ => True
  | .compare _ left right => left.Pushed ∧ right.Pushed

instance (s : Side) : Decidable s.Pushed := inferInstanceAs (Decidable (s ≠ .value ""))

instance (c : Condition) : Decidable c.Pushed :=
  match c with
  | .fact _ _ _ => .isTrue trivial
  | .compare _ left right => inferInstanceAs (Decidable (left.Pushed ∧ right.Pushed))

/-- The value of a side among the values of the variables. -/
def Side.valueAt (f : Nat → String) (index : Nat) : Side → String
  | .value text => text
  | .named _ _ => f index

theorem Side.constants_eq {s : Side} (h : s.Pushed) (f : Nat → String) (index : Nat) :
    s.constants f index = [s.valueAt f index] := by
  cases s with
  | value text =>
    have hne : text ≠ "" := fun heq => h (congrArg Side.value heq)
    exact if_neg hne
  | named type name => rfl

theorem given_of_not_primitive {a : GroundAtom} (h : a.pred ∉ primitiveNames) :
    Given prims facts a ↔ a ∈ facts := by
  have hnone : a.isPrimitive = false := by simp [GroundAtom.isPrimitive, h]
  simp [Given, hnone]

theorem given_primitive {primitive x y : String} (h : primitive ∈ primitiveNames) :
    Given prims facts ⟨primitive, [x, y]⟩ ↔ prims primitive x y := by
  have hprim : GroundAtom.isPrimitive ⟨primitive, [x, y]⟩ = true := by
    simp [GroundAtom.isPrimitive, h]
  rw [Given, if_pos hprim]
  constructor
  · rintro ⟨name, x', y', heq, hholds⟩
    obtain ⟨rfl, rfl, rfl⟩ : primitive = name ∧ x = x' ∧ y = y' := by simpa using heq
    exact hholds
  · exact fun hholds => ⟨primitive, x, y, rfl, hholds⟩

theorem Side.satAt_given {s : Side} (h : s.Proper) (f : Nat → String) (index : Nat) :
    s.SatAt (Given prims facts) u o f index ↔ s.Denotes facts u o (s.valueAt f index) := by
  cases s with
  | value text => simp [Side.SatAt, Side.Denotes, Side.valueAt]
  | named type name => exact given_of_not_primitive h

/-- Without empty constants the literals of a condition say what the condition does. -/
theorem Condition.satisfiable_given_iff {c : Condition} (hproper : c.Proper) (hpushed : c.Pushed) :
    c.Satisfiable (Given prims facts) u o ↔ c.Holds prims facts u o := by
  cases c with
  | fact predicate type value =>
    constructor
    · rintro ⟨f, h⟩
      exact (given_of_not_primitive hproper.1).mp h
    · exact fun h => ⟨fun _ => "", (given_of_not_primitive hproper.1).mpr h⟩
  | compare primitive left right =>
    obtain ⟨hprimitive, hleft, hright⟩ := hproper
    have hsat : ∀ f, (Condition.compare primitive left right).SatAt (Given prims facts) u o f 0 ↔
        left.Denotes facts u o (left.valueAt f 0) ∧
          right.Denotes facts u o (right.valueAt f (0 + left.width)) ∧
          prims primitive (left.valueAt f 0) (right.valueAt f (0 + left.width)) := by
      intro f
      rw [Condition.SatAt, Side.satAt_given hleft, Side.satAt_given hright,
        Side.constants_eq hpushed.1, Side.constants_eq hpushed.2]
      exact and_congr_right fun _ => and_congr_right fun _ => given_primitive hprimitive
    constructor
    · rintro ⟨f, h⟩
      exact ⟨_, _, (hsat f).mp h⟩
    · rintro ⟨x, y, hx, hy, hholds⟩
      -- the first variable is that of the left side, if it has one
      let f : Nat → String := fun k => if k < left.width then x else y
      have hxf : left.valueAt f 0 = x := by
        cases left with
        | value text => exact hx.symm
        | named type name => rfl
      have hyf : right.valueAt f (0 + left.width) = y := by
        cases right with
        | value text => exact hy.symm
        | named type name => exact if_neg (by omega)
      refine ⟨f, (hsat f).mpr ?_⟩
      rw [hxf, hyf]
      exact ⟨hx, hy, hholds⟩

/-- A comparison with an empty constant needs a fact under the name of the primitive. -/
theorem Condition.exists_fact_of_not_pushed {primitive : String} {left right : Side}
    (hpushed : ¬ (Condition.compare primitive left right).Pushed)
    (h : (Condition.compare primitive left right).Satisfiable (Given prims facts) u o) :
    ∃ a ∈ facts, a.pred = primitive := by
  obtain ⟨f, -, -, hgiven⟩ := h
  have hshort : ∀ (s : Side) (index : Nat), (s.constants f index).length ≤ 1 := by
    intro s index
    cases s with
    | value text =>
      rw [Side.constants]
      split <;> simp
    | named type name => exact Nat.le_refl 1
  have hempty : ∀ index, (Side.value "").constants f index = [] := fun _ => rfl
  have hlength : (left.constants f 0 ++ right.constants f (0 + left.width)).length < 2 := by
    rw [List.length_append]
    have hl := hshort left 0
    have hr := hshort right (0 + left.width)
    by_cases hleft : left = .value ""
    · rw [hleft, hempty, List.length_nil]
      rw [hleft] at hr
      omega
    · have hright : right = .value "" := by
        by_contra hright
        exact hpushed ⟨hleft, hright⟩
      rw [hright, hempty, List.length_nil]
      omega
  have hnone : GroundAtom.isPrimitive ⟨primitive,
      left.constants f 0 ++ right.constants f (0 + left.width)⟩ = false := by
    simp only [GroundAtom.isPrimitive]
    rw [beq_eq_false_iff_ne.mpr hlength.ne, Bool.and_false]
  rw [Given, if_neg (by rw [hnone]; decide)] at hgiven
  exact ⟨_, hgiven, rfl⟩

end Conditions

/-! ## Conditions that imply others

Conditions `K` imply others with the same facts for all facts and primitives exactly if each
comparison of these is one of `K`, up to constants that `K` says to be values. -/

/-- Every value of the side is one of the other side, if the facts of `K` are present. -/
def Side.Refines (K : List Condition) (s t : Side) : Prop :=
  s = t ∨ ∃ type name v, s = .value v ∧ t = .named type name ∧ v ≠ "" ∧
    .fact name type v ∈ K

/-- Each comparison of `K'` follows from one of `K`. -/
def Covers (K K' : List Condition) : Prop :=
  ∀ primitive left' right', .compare primitive left' right' ∈ K' →
    ∃ left right, .compare primitive left right ∈ K ∧ left.Refines K left' ∧
      right.Refines K right'

/-- The facts that `K'` asks for are asked for by `K`. -/
def SameFacts (K K' : List Condition) : Prop :=
  ∀ predicate type value, .fact predicate type value ∈ K' → .fact predicate type value ∈ K

section Covering

variable {prims : Primitives} {facts : Set GroundAtom} {u o : String} {K K' : List Condition}

theorem groundFact_of_ne {predicate entity value : String} (h : value ≠ "") :
    groundFact predicate entity value = ⟨predicate, [entity, value]⟩ := by
  rw [groundFact, if_neg h]

theorem Side.Denotes.refines {s t : Side} {x : String} (hK : ∀ c ∈ K, c.Holds prims facts u o)
    (h : s.Refines K t) (hx : s.Denotes facts u o x) : t.Denotes facts u o x := by
  obtain rfl | ⟨type, name, v, rfl, rfl, hne, hfact⟩ := h
  · exact hx
  · obtain rfl : x = v := hx
    have hholds := hK _ hfact
    rw [Condition.Holds, groundFact_of_ne hne] at hholds
    exact hholds

theorem Covers.holds (h : Covers K K') (hfacts : SameFacts K K')
    (hK : ∀ c ∈ K, c.Holds prims facts u o) : ∀ c ∈ K', c.Holds prims facts u o := by
  intro c hc
  cases c with
  | fact predicate type value => exact hK _ (hfacts _ _ _ hc)
  | compare primitive left' right' =>
    obtain ⟨left, right, hmem, hleft, hright⟩ := h _ _ _ hc
    obtain ⟨x, y, hx, hy, hholds⟩ := hK _ hmem
    exact ⟨x, y, Side.Denotes.refines hK hleft hx, Side.Denotes.refines hK hright hy, hholds⟩

/-! ### The facts and primitives that conditions need -/

/-- A value of an attribute that is no constant of a policy: it has a quote. -/
def freshValue (type : AtomType) (name : String) : String :=
  String.ofList ('"' :: (type.text ++ name.toList))

/-- The value that is given to a side. -/
def Side.own : Side → String
  | .value text => text
  | .named type name => freshValue type name

/-- The attribute or function is a side of a comparison. -/
def Compared (K : List Condition) (type : AtomType) (name : String) : Prop :=
  ∃ primitive left right, .compare primitive left right ∈ K ∧
    (left = .named type name ∨ right = .named type name)

/-- The facts that the conditions need. -/
def ownFacts (u o : String) (K : List Condition) : Set GroundAtom :=
  {a | a = ⟨"_isUser", [u]⟩ ∨ a = ⟨"_isObject", [o]⟩ ∨
    (∃ predicate type value, .fact predicate type value ∈ K ∧
      a = groundFact predicate (type.entity u o) value) ∨
    ∃ type name, Compared K type name ∧ a = ⟨name, [type.entity u o, freshValue type name]⟩}

/-- The comparisons that the conditions need. -/
def ownPrims (K : List Condition) : Primitives := fun primitive x y =>
  ∃ left right, .compare primitive left right ∈ K ∧ x = left.own ∧ y = right.own

theorem Side.denotes_own {s : Side}
    (h : ∀ type name, s = .named type name → Compared K type name) :
    s.Denotes (ownFacts u o K) u o s.own := by
  cases s with
  | value text => rfl
  | named type name => exact .inr (.inr (.inr ⟨type, name, h type name rfl, rfl⟩))

theorem holds_own {c : Condition} (hc : c ∈ K) : c.Holds (ownPrims K) (ownFacts u o K) u o := by
  cases c with
  | fact predicate type value => exact .inr (.inr (.inl ⟨predicate, type, value, hc, rfl⟩))
  | compare primitive left right =>
    refine ⟨left.own, right.own, Side.denotes_own ?_, Side.denotes_own ?_, left, right, hc, rfl,
      rfl⟩
    · rintro type name rfl
      exact ⟨_, _, _, hc, .inl rfl⟩
    · rintro type name rfl
      exact ⟨_, _, _, hc, .inr rfl⟩

theorem quote_mem_freshValue (type : AtomType) (name : String) :
    '"' ∈ (freshValue type name).toList := by
  rw [freshValue, String.toList_ofList]
  exact List.mem_cons_self

theorem freshValue_injective {type type' : AtomType} {name name' : String}
    (h : freshValue type name = freshValue type' name') : type = type' ∧ name = name' := by
  have hlist := congrArg String.toList h
  rw [freshValue, freshValue, String.toList_ofList, String.toList_ofList, List.cons.injEq] at hlist
  have hsplit := List.append_inj hlist.2 (by cases type <;> cases type' <;> rfl)
  exact ⟨AtomType.text_injective hsplit.1, String.toList_inj.mp hsplit.2⟩

theorem Side.own_eq_value {s : Side} {text : String} (h : s.own = text) (htext : '"' ∉ text.toList) :
    s = .value text := by
  cases s with
  | value text' => exact congrArg Side.value h
  | named type name =>
    subst h
    exact absurd (quote_mem_freshValue type name) htext

theorem AtomType.entity_injective (hne : u ≠ o) {type type' : AtomType}
    (h : type.entity u o = type'.entity u o) : type = type' := by
  cases type <;> cases type' <;> first | rfl | exact absurd h hne | exact absurd h.symm hne

/-- A side has the value that was given to another only if that one refines it. -/
theorem Side.refines_of_denotes {s t : Side} (hne : u ≠ o) (ht : t.Proper)
    (hs : s.Proper) (hK : ∀ c ∈ K, c.Proper) (h : t.Denotes (ownFacts u o K) u o s.own) :
    s.Refines K t := by
  cases t with
  | value text => exact .inl (Side.own_eq_value h ht)
  | named type name =>
    obtain heq | heq | ⟨predicate, type', value, hmem, heq⟩ | ⟨type', name', -, heq⟩ := h
    · simp at heq
    · simp at heq
    · -- the value is one that a fact asks for
      have hvalue : value ≠ "" := by
        rintro rfl
        simp [groundFact] at heq
      rw [groundFact_of_ne hvalue] at heq
      obtain ⟨rfl, hentity, hown⟩ : name = predicate ∧ type.entity u o = type'.entity u o ∧
          s.own = value := by simpa using heq
      obtain rfl := AtomType.entity_injective hne hentity
      have hquote : '"' ∉ value.toList := (hK _ hmem).2
      exact .inr ⟨type, name, value, Side.own_eq_value hown hquote, rfl, hvalue, hmem⟩
    · obtain ⟨rfl, hentity, hown⟩ : name = name' ∧ type.entity u o = type'.entity u o ∧
          s.own = freshValue type' name' := by simpa using heq
      obtain rfl := AtomType.entity_injective hne hentity
      cases s with
      | value text =>
        have hquote := quote_mem_freshValue type name
        rw [← hown] at hquote
        exact absurd hquote hs
      | named type' name' =>
        obtain ⟨rfl, rfl⟩ := freshValue_injective hown
        exact .inl rfl

theorem covers_of_holds (hne : u ≠ o) (hK : ∀ c ∈ K, c.Proper) (hK' : ∀ c ∈ K', c.Proper)
    (h : ∀ c ∈ K', c.Holds (ownPrims K) (ownFacts u o K) u o) : Covers K K' := by
  intro primitive left' right' hmem'
  obtain ⟨x, y, hx, hy, left, right, hmem, rfl, rfl⟩ := h _ hmem'
  have hproper := hK _ hmem
  have hproper' := hK' _ hmem'
  exact ⟨left, right, hmem, Side.refines_of_denotes hne hproper'.2.1 hproper.2.1 hK hx,
    Side.refines_of_denotes hne hproper'.2.2 hproper.2.2 hK hy⟩

end Covering

end Nexus.Abac
