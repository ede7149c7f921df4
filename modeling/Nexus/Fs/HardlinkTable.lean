import Nexus.Basic
import Nexus.Lib.Keyed

/-!
# The hardlink table

`hardlink_table.c` keeps, for every file with more than one name, how many
names it has.  A file with one name has no entry.
-/

namespace Nexus

/-- `struct hardlink_table`: the hash table and its running count. -/
structure HardlinkTable where
  count : Nat
  hashtable : List (Uuid × BitVec 32)
  unique : (hashtable.map Prod.fst).Nodup
  counted : count = hashtable.length

namespace HardlinkTable

/-- `hardlink_table_create`. -/
def create : HardlinkTable where
  count := 0
  hashtable := []
  unique := List.nodup_nil
  counted := rfl

/-- `__get_entry`, with the count of the entry. -/
def getEntry (t : HardlinkTable) (uuid : Uuid) : Option (BitVec 32) :=
  (t.hashtable.find? fun e => e.1 = uuid).map Prod.snd

theorem getEntry_eq_get (t : HardlinkTable) (uuid : Uuid) :
    t.getEntry uuid = (Keyed.get Prod.fst t.hashtable uuid).map Prod.snd := rfl

theorem getEntry_eq_none_iff {t : HardlinkTable} {uuid : Uuid} :
    t.getEntry uuid = none ↔ uuid ∉ t.hashtable.map Prod.fst := by
  rw [getEntry_eq_get, Option.map_eq_none_iff, Keyed.get_eq_none_iff]

/-- `__put_entry`, for a uuid that has no entry yet. -/
def putEntry (t : HardlinkTable) (uuid : Uuid) (count : BitVec 32)
    (h : t.getEntry uuid = none) : HardlinkTable where
  count := t.count + 1
  hashtable := (uuid, count) :: t.hashtable
  unique := List.nodup_cons.mpr ⟨getEntry_eq_none_iff.mp h, t.unique⟩
  counted := by simp [t.counted]

/-- Assign the count of an entry. -/
def setCount (t : HardlinkTable) (uuid : Uuid) (count : BitVec 32) : HardlinkTable where
  count := t.count
  hashtable := t.hashtable.map fun e => if e.1 = uuid then (uuid, count) else e
  unique := by
    have hkeys : (t.hashtable.map fun e => if e.1 = uuid then (uuid, count) else e).map Prod.fst
        = t.hashtable.map Prod.fst := by
      rw [List.map_map]
      refine List.map_congr_left fun e _ => ?_
      by_cases he : e.1 = uuid
      · simp [he]
      · simp [he]
    rw [hkeys]
    exact t.unique
  counted := by simp [t.counted]

/-- `__del_entry`. -/
def delEntry (t : HardlinkTable) (uuid : Uuid) : HardlinkTable where
  count := if t.hashtable.any fun e => e.1 = uuid then t.count - 1 else t.count
  hashtable := t.hashtable.eraseP fun e => e.1 = uuid
  unique := t.unique.sublist (List.eraseP_sublist.map Prod.fst)
  counted := by rw [List.length_eraseP, t.counted]

/-- `hardlink_table_incr_uuid`. -/
def incrUuid (t : HardlinkTable) (uuid : Uuid) : HardlinkTable :=
  match h : t.getEntry uuid with
  | none => (t.putEntry uuid 1 h).setCount uuid (1 + 1)
  | some count => t.setCount uuid (count + 1)

/-- `hardlink_table_decr_uuid`: the result is the new count as an `int`. -/
def decrUuid (t : HardlinkTable) (uuid : Uuid) : HardlinkTable × Int :=
  match t.getEntry uuid with
  | none => (t, -1)
  | some count =>
    let t := t.setCount uuid (count - 1)
    let linkCount := (count - 1).toInt
    (if linkCount < 2 then t.delEntry uuid else t, linkCount)

/-- `hardlink_table_contains_uuid`. -/
def containsUuid (t : HardlinkTable) (uuid : Uuid) : Bool := (t.getEntry uuid).isSome

/-! ## The table as a map -/

theorem getEntry_putEntry (t : HardlinkTable) {uuid : Uuid} (count : BitVec 32)
    (h : t.getEntry uuid = none) (v : Uuid) :
    (t.putEntry uuid count h).getEntry v = if v = uuid then some count else t.getEntry v := by
  by_cases hv : v = uuid
  · simp [getEntry, putEntry, hv]
  · have hne : ¬ uuid = v := fun heq => hv heq.symm
    simp [getEntry, putEntry, hv, hne]

theorem getEntry_setCount (t : HardlinkTable) (uuid : Uuid) (count : BitVec 32) (v : Uuid) :
    (t.setCount uuid count).getEntry v =
      if v = uuid then (t.getEntry v).map fun _ => count else t.getEntry v := by
  rw [getEntry_eq_get, setCount, Keyed.get_map_of_key]
  · cases hget : Keyed.get Prod.fst t.hashtable v with
    | none => simp [getEntry_eq_get, hget]
    | some e =>
      have hkey : e.1 = v := (Keyed.mem_of_get hget).2
      rw [Option.map_some, hkey, getEntry_eq_get, hget]
      split <;> rfl
  · intro e
    split
    next he => exact he.symm
    next => rfl

theorem getEntry_delEntry (t : HardlinkTable) (uuid v : Uuid) :
    (t.delEntry uuid).getEntry v = if v = uuid then none else t.getEntry v := by
  rw [getEntry_eq_get, delEntry, Keyed.get_eraseP t.unique]
  split
  · rfl
  · rfl

/-- Incrementing adds one name to a file that had one or more. -/
theorem getEntry_incrUuid (t : HardlinkTable) (uuid v : Uuid) :
    (t.incrUuid uuid).getEntry v =
      if v = uuid then some ((t.getEntry uuid).getD 1 + 1) else t.getEntry v := by
  unfold incrUuid
  split
  next h =>
    rw [getEntry_setCount, getEntry_putEntry, h]
    by_cases hv : v = uuid
    · simp [hv]
    · simp [hv]
  next count h =>
    rw [getEntry_setCount]
    by_cases hv : v = uuid
    · simp [hv, h]
    · simp [hv]

/-- Decrementing takes one name away, and the entry with it once one is left. -/
theorem getEntry_decrUuid {t : HardlinkTable} {uuid : Uuid} {count : BitVec 32}
    (h : t.getEntry uuid = some count) (v : Uuid) :
    (t.decrUuid uuid).1.getEntry v =
      if v = uuid then (if (count - 1).toInt < 2 then none else some (count - 1))
      else t.getEntry v := by
  unfold decrUuid
  rw [h]
  dsimp only
  split
  · rw [getEntry_delEntry, getEntry_setCount]
    by_cases hv : v = uuid
    · simp [hv]
    · simp [hv]
  · rw [getEntry_setCount]
    by_cases hv : v = uuid
    · simp [hv, h]
    · simp [hv]

end HardlinkTable

end Nexus
