import Mathlib.Data.Set.Card

/-!
# Counting references

The places at which a partial map has a value, how many they are, and how this
changes when the map is updated at one place.
-/

namespace Nexus

open Function

variable {α β : Type*} {f : α → Option β} {a : α} {b : β} {v : Option β}

/-- The places with the value `b`. -/
def refs (f : α → Option β) (b : β) : Set α := {a | f a = some b}

@[simp] theorem mem_refs : a ∈ refs f b ↔ f a = some b := Iff.rfl

variable [DecidableEq α]

theorem update_eq_some {a' : α} (h : update f a v a' = some b) :
    (a' = a ∧ v = some b) ∨ (a' ≠ a ∧ f a' = some b) := by
  rw [update_apply] at h
  split at h <;> simp_all

theorem update_none_eq_some {a' : α} (h : update f a none a' = some b) :
    a' ≠ a ∧ f a' = some b := by
  simpa using update_eq_some h

theorem refs_update_self (f : α → Option β) (a : α) (b : β) :
    refs (update f a (some b)) b = insert a (refs f b) := by
  ext x
  by_cases hx : x = a <;> simp [hx]

theorem refs_update_of_ne (f : α → Option β) (a : α) (hv : v ≠ some b) :
    refs (update f a v) b = refs f b \ {a} := by
  ext x
  by_cases hx : x = a <;> simp [hx, hv]

theorem finite_refs_update (hfin : (refs f b).Finite) (a : α) (v : Option β) :
    (refs (update f a v) b).Finite := by
  by_cases hv : v = some b
  · rw [hv, refs_update_self]
    exact hfin.insert a
  · rw [refs_update_of_ne f a hv]
    exact hfin.sdiff

/-- One reference more. -/
theorem ncard_refs_update_self (hfin : (refs f b).Finite) (ha : f a ≠ some b) :
    (refs (update f a (some b)) b).ncard = (refs f b).ncard + 1 := by
  have hnot : a ∉ refs f b := ha
  rw [refs_update_self, Set.ncard_insert_of_notMem hnot hfin]

/-- One reference less. -/
theorem ncard_refs_update_of_ne (hfin : (refs f b).Finite) (ha : f a = some b)
    (hv : v ≠ some b) :
    (refs (update f a v) b).ncard + 1 = (refs f b).ncard := by
  have hmem : a ∈ refs f b := ha
  rw [refs_update_of_ne f a hv, Set.ncard_sdiff_singleton_add_one hmem hfin]

/-- The other values are not concerned. -/
theorem refs_update_other (ha : f a ≠ some b) (hv : v ≠ some b) :
    refs (update f a v) b = refs f b := by
  rw [refs_update_of_ne f a hv]
  exact Set.sdiff_singleton_eq_self (show a ∉ refs f b from ha)

end Nexus
