import Mathlib.Data.List.Nodup

/-!
# Least-recently-used lists

A bounded cache kept as a list of values, most recently used first.  Values are
found by a key, and at most one value of each key is kept.
-/

namespace Lru

variable {K V : Type} [DecidableEq K]

/-- Move the value with key `k` to the front. -/
def touch (key : V → K) (k : K) (l : List V) : List V :=
  match l.find? (fun v => key v = k) with
  | none => l
  | some v => v :: l.eraseP (fun v => key v = k)

/-- Insert a value whose key is not there.  A full list gives up its last
value. -/
def put (capacity : Nat) (v : V) (l : List V) : List V × Option V :=
  if l.length < capacity then (v :: l, none) else (v :: l.dropLast, l.getLast?)

/-- Replace the value of key `k` in place. -/
def update (key : V → K) (k : K) (f : V → V) (l : List V) : List V :=
  l.map fun v => if key v = k then f v else v

variable (key : V → K) (k : K)

/-- Only the order changes. -/
theorem touch_perm (l : List V) : (touch key k l).Perm l := by
  unfold touch
  split
  · exact List.Perm.refl l
  · next v hfind =>
    induction l with
    | nil => cases hfind
    | cons w l ih =>
      by_cases hw : key w = k
      · rw [List.find?_cons_of_pos (by simp [hw])] at hfind
        cases hfind
        rw [List.eraseP_cons_of_pos (by simp [hw])]
      · rw [List.find?_cons_of_neg (by simp [hw])] at hfind
        rw [List.eraseP_cons_of_neg (by simp [hw])]
        exact (List.Perm.swap w v _).trans ((ih hfind).cons w)

/-- A full list that is not empty gives up its last value. -/
theorem put_cases {capacity : Nat} (hpos : 0 < capacity) (v : V) (l : List V) :
    l.length < capacity ∧ put capacity v l = (v :: l, none) ∨
      ∃ init w, l = init ++ [w] ∧ put capacity v l = (v :: init, some w) := by
  unfold put
  split
  · next hroom => exact .inl ⟨hroom, rfl⟩
  · next hfull =>
    have hne : l ≠ [] := by
      intro hnil
      rw [hnil] at hfull
      exact hfull hpos
    refine .inr ⟨l.dropLast, l.getLast hne, (List.dropLast_append_getLast hne).symm, ?_⟩
    rw [List.getLast?_eq_getLast_of_ne_nil hne]

theorem mem_update_iff {f : V → V} {l : List V} {v : V} :
    v ∈ update key k f l ↔ ∃ w ∈ l, v = if key w = k then f w else w := by
  unfold update
  rw [List.mem_map]
  exact exists_congr fun w => and_congr_right fun _ => eq_comm

end Lru
