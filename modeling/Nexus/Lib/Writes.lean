import Mathlib.Logic.Function.Basic
import Mathlib.Data.List.Basic

/-!
# Sequences of writes to a keyed store

A write sets one key to a value or deletes it.  A sequence that is cut short is
a `List.take` of it, so what a store holds after a crash is what a prefix of the
writes leaves: a key that no write names keeps its value, and any other key
holds what one of the writes gave it.
-/

namespace Nexus.Writes

open Function

variable {K V : Type} [DecidableEq K]

/-- The store after the writes, in order; `none` deletes the key. -/
def apply : List (K × Option V) → (K → Option V) → K → Option V
  | [], store => store
  | (k, v) :: ws, store => apply ws (update store k v)

/-- The keys that the writes name. -/
def keys (ws : List (K × Option V)) : List K := ws.map Prod.fst

theorem apply_append (ws vs : List (K × Option V)) (store : K → Option V) :
    apply (ws ++ vs) store = apply vs (apply ws store) := by
  induction ws generalizing store with
  | nil => rfl
  | cons w ws ih => exact ih (update store w.1 w.2)

variable {ws : List (K × Option V)} {k : K}

theorem apply_of_notMem (h : k ∉ keys ws) (store : K → Option V) : apply ws store k = store k := by
  induction ws generalizing store with
  | nil => rfl
  | cons w ws ih =>
    obtain ⟨hw, hws⟩ := not_or.mp (List.mem_cons.not.mp h)
    rw [apply, ih hws, update_of_ne hw]

theorem apply_of_mem (h : k ∈ keys ws) (store : K → Option V) : (k, apply ws store k) ∈ ws := by
  induction ws generalizing store with
  | nil => simp [keys] at h
  | cons w ws ih =>
    rw [apply]
    by_cases hws : k ∈ keys ws
    · exact List.mem_cons_of_mem _ (ih hws _)
    · -- the first write is the last one to this key
      have hk : k = w.1 := (List.mem_cons.mp h).resolve_right hws
      rw [apply_of_notMem hws, hk, update_self]
      exact List.mem_cons_self

/-- What a key holds afterwards depends on what it held before, not on other
keys. -/
theorem apply_congr {store store' : K → Option V} (h : store k = store' k)
    (ws : List (K × Option V)) : apply ws store k = apply ws store' k := by
  induction ws generalizing store store' with
  | nil => exact h
  | cons w ws ih =>
    apply ih
    by_cases hk : k = w.1
    · rw [hk, update_self, update_self]
    · rw [update_of_ne hk, update_of_ne hk, h]

/-- Without the writes to some keys, the other keys hold what all the writes leave. -/
theorem apply_filter (p : K → Bool) (ws : List (K × Option V)) (store : K → Option V) (k : K) :
    apply (ws.filter fun w => p w.1) store k = if p k then apply ws store k else store k := by
  induction ws generalizing store with
  | nil => exact (ite_self _).symm
  | cons w ws ih =>
    rw [List.filter_cons]
    by_cases hk : k = w.1
    · subst hk
      cases hp : p w.1 with
      | false => simp [ih, hp]
      | true => simp [apply, ih, hp]
    · have hupdate : update store w.1 w.2 k = store k := update_of_ne hk ..
      cases hp : p w.1 with
      | false => simp [apply, ih, apply_congr hupdate]
      | true => simp [apply, ih, hupdate]

/-- The last write to a key decides, if all writes to it agree. -/
theorem apply_eq {v : Option V} (h : k ∈ keys ws) (hv : ∀ w ∈ ws, w.1 = k → w.2 = v)
    (store : K → Option V) : apply ws store k = v :=
  hv _ (apply_of_mem h store) rfl

end Nexus.Writes
