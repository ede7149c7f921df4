import Mathlib.Data.List.Nodup
import Mathlib.Data.Set.Card

/-!
# Lists of records with a key

A list in which no two records have the same key is a finite map.  The lemmas
say what the usual operations on such a list do to the map: appending a record
with a new key, erasing the record of a key, changing the record of a key in
place, and reordering the list.  `ncard_keys` counts the keys.
-/

namespace Keyed

open List

variable {K V : Type} [DecidableEq K] {key : V → K} {l l' : List V} {k k' : K} {v : V}

/-- The record of a key. -/
def get (key : V → K) (l : List V) (k : K) : Option V := l.find? fun v => key v = k

theorem mem_of_get (h : get key l k = some v) : v ∈ l ∧ key v = k := by
  refine ⟨mem_of_find?_eq_some h, ?_⟩
  simpa using find?_some h

theorem get_eq_none_iff : get key l k = none ↔ k ∉ l.map key := by
  unfold get
  rw [find?_eq_none, mem_map]
  constructor
  · rintro h ⟨v, hv, hk⟩
    exact h v hv (decide_eq_true hk)
  · intro h v hv hk
    exact h ⟨v, hv, of_decide_eq_true hk⟩

theorem isSome_get_iff : (get key l k).isSome = true ↔ k ∈ l.map key := by
  rw [← not_iff_not, ← get_eq_none_iff, Option.not_isSome_iff_eq_none]

/-- A record is found under its key. -/
theorem get_of_mem (hl : (l.map key).Nodup) (hv : v ∈ l) : get key l (key v) = some v := by
  cases hget : get key l (key v) with
  | none => exact absurd (mem_map_of_mem hv) (get_eq_none_iff.mp hget)
  | some w =>
    obtain ⟨hw, hkey⟩ := mem_of_get hget
    rw [inj_on_of_nodup_map hl hw hv hkey]

theorem find?_of_mem (hl : (l.map key).Nodup) (hv : v ∈ l) :
    l.find? (fun w => key w = key v) = some v := get_of_mem hl hv

theorem get_eq_some_iff (hl : (l.map key).Nodup) : get key l k = some v ↔ v ∈ l ∧ key v = k := by
  constructor
  · exact mem_of_get
  · rintro ⟨hv, rfl⟩
    exact get_of_mem hl hv

theorem get_append (hv : key v ∉ l.map key) :
    get key (l ++ [v]) k = if k = key v then some v else get key l k := by
  have happend : get key (l ++ [v]) k = (get key l k).or (get key [v] k) := find?_append
  rw [happend]
  by_cases hk : k = key v
  · subst hk
    rw [get_eq_none_iff.mpr hv, if_pos rfl, Option.none_or]
    simp [get]
  · have hlast : get key [v] k = none := by
      rw [get_eq_none_iff]
      simpa using hk
    rw [if_neg hk, hlast, Option.or_none]

theorem get_eraseP (hl : (l.map key).Nodup) :
    get key (l.eraseP fun v => key v = k') k = if k = k' then none else get key l k := by
  have hnodup : ((l.eraseP fun v => key v = k').map key).Nodup :=
    hl.sublist (List.Sublist.map key eraseP_sublist)
  split
  next hk =>
    subst hk
    rw [get_eq_none_iff]
    intro hmem
    obtain ⟨w, hw, hkey⟩ := mem_map.mp hmem
    -- the erased record is the only one with its key
    have hw' := mem_of_mem_eraseP hw
    obtain ⟨v, l₁, l₂, h₁, hv, hsplit, herase⟩ :=
      exists_of_eraseP (p := fun v => decide (key v = k)) hw' (decide_eq_true hkey)
    rw [hsplit, map_append, map_cons, nodup_middle, nodup_cons,
      ← map_append] at hl
    rw [herase] at hw
    refine hl.1 ?_
    rw [of_decide_eq_true hv, ← hkey]
    exact mem_map_of_mem hw
  next hk =>
    cases hget : get key l k with
    | none =>
      rw [get_eq_none_iff] at hget ⊢
      exact fun hmem => hget ((List.Sublist.map key eraseP_sublist).subset hmem)
    | some w =>
      obtain ⟨hw, hkey⟩ := mem_of_get hget
      rw [get_eq_some_iff hnodup]
      refine ⟨?_, hkey⟩
      rw [mem_eraseP_of_neg]
      · exact hw
      · rw [hkey]
        simpa using hk

/-- A change in place that keeps the key. -/
theorem get_map_of_key {f : V → V} (hf : ∀ v, key (f v) = key v) :
    get key (l.map f) k = (get key l k).map f := by
  unfold get
  rw [find?_map]
  congr 2
  funext v
  simp [hf]

theorem get_perm (hl : (l.map key).Nodup) (h : l'.Perm l) : get key l' k = get key l k := by
  have hl' : (l'.map key).Nodup := (h.map key).nodup_iff.mpr hl
  cases hget : get key l k with
  | none =>
    rw [get_eq_none_iff] at hget ⊢
    exact fun hmem => hget ((h.map key).mem_iff.mp hmem)
  | some v =>
    rw [get_eq_some_iff hl] at hget
    rw [get_eq_some_iff hl']
    exact ⟨h.mem_iff.mpr hget.1, hget.2⟩

theorem ncard_keys (hl : (l.map key).Nodup) : {k | k ∈ l.map key}.ncard = l.length := by
  have hset : {k | k ∈ l.map key} = ((l.map key).toFinset : Set K) := by
    ext k
    simp
  rw [hset, Set.ncard_coe_finset, toFinset_card_of_nodup hl, length_map]

end Keyed
