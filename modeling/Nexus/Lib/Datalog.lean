import Mathlib.Data.Set.Basic

/-!
# Ground datalog programs

A program is a set of ground rules.  An atom is derived if a rule has it as its head
and all atoms of the body are derived; a fact is a rule without a body.

`not_derives_of_unfounded` is the rule for atoms that are not derived: a set of atoms
is empty of derived ones if every rule for one of them needs another of them.
-/

namespace Nexus.Datalog

variable {A : Type}

/-- A ground rule: the head holds if all of the body does. -/
structure Rule (A : Type) where
  head : A
  body : List A

/-- What follows from the rules of a program. -/
inductive Derives (P : Set (Rule A)) : A → Prop where
  | intro {r : Rule A} (hr : r ∈ P) (hbody : ∀ b ∈ r.body, Derives P b) : Derives P r.head

variable {P : Set (Rule A)} {a : A}

/-- The last step of a derivation. -/
theorem derives_iff :
    Derives P a ↔ ∃ r ∈ P, r.head = a ∧ ∀ b ∈ r.body, Derives P b := by
  constructor
  · rintro ⟨hr, hbody⟩
    exact ⟨_, hr, rfl, hbody⟩
  · rintro ⟨r, hr, rfl, hbody⟩
    exact .intro hr hbody

/-- An atom that only facts have as their head is derived if it is one of them. -/
theorem derives_iff_of_facts (h : ∀ r ∈ P, r.head = a → r.body = []) :
    Derives P a ↔ ⟨a, []⟩ ∈ P := by
  rw [derives_iff]
  constructor
  · rintro ⟨⟨head, body⟩, hr, rfl, -⟩
    obtain rfl : body = [] := h _ hr rfl
    exact hr
  · intro hfact
    exact ⟨_, hfact, rfl, fun b hb => absurd hb List.not_mem_nil⟩

/-- If every rule for an atom of the set needs another atom of the set, none of them is
derived. -/
theorem not_derives_of_unfounded {S : Set A}
    (h : ∀ r ∈ P, r.head ∈ S → ∃ b ∈ r.body, b ∈ S) (ha : a ∈ S) : ¬ Derives P a := by
  intro hderives
  induction hderives with
  | intro hr hbody ih =>
    obtain ⟨b, hb, hmem⟩ := h _ hr ha
    exact ih b hb hmem

end Nexus.Datalog
