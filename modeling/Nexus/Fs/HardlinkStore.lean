import Nexus.Fs.HardlinkTable
import Nexus.Lib.Codec
import Nexus.Lib.Runs

/-!
# The hardlink table counts

A file that has one name is not in the table.  So the count of an entry is one more
than the number of names that were added since the entry was made.  The table is
written entry by entry, in the order in which the hash table is iterated, which can
be any order.
-/

namespace Nexus.HardlinkTable

open Function List

/-! ## The serialised table -/

/-- `struct __hardlink_table_entry`. -/
def entryBytes (e : Uuid × BitVec 32) : Bytes := Codec.le 4 e.2.toNat ++ Codec.le 16 e.1.toNat

/-- `__serialize_hardlink_table`, for an iterator that gives the entries in this
order. -/
def serialize (t : HardlinkTable) (myUuid rootUuid : Uuid) (order : List (Uuid × BitVec 32)) :
    Bytes :=
  Codec.le 16 myUuid.toNat ++ (Codec.le 16 rootUuid.toNat ++ (Codec.le 4 t.count ++
    order.flatMap entryBytes))

def parseEntry : Codec.Parser (Uuid × BitVec 32) := fun bs => do
  let (count, bs) ← Codec.nat 4 bs
  let (uuid, bs) ← Codec.nat 16 bs
  some ((BitVec.ofNat 128 uuid, BitVec.ofNat 32 count), bs)

/-- The entries are put into the table one by one.  A second entry of a uuid, which is
never written, is not modelled. -/
def putEntries : List (Uuid × BitVec 32) → HardlinkTable → Option HardlinkTable
  | [], t => some t
  | e :: es, t => if h : t.getEntry e.1 = none then putEntries es (t.putEntry e.1 e.2 h) else none

/-- `__parse_hardlink_table`: the two uuids and the table. -/
def parse (bs : Bytes) : Option (Uuid × Uuid × HardlinkTable) := do
  let (myUuid, bs) ← Codec.nat 16 bs
  let (rootUuid, bs) ← Codec.nat 16 bs
  let (count, bs) ← Codec.nat 4 bs
  let (entries, _) ← Codec.many parseEntry count bs
  let t ← putEntries entries create
  some (BitVec.ofNat 128 myUuid, BitVec.ofNat 128 rootUuid, t)

variable {t : HardlinkTable} {u : Uuid}

theorem parseEntry_append (e : Uuid × BitVec 32) (rest : Bytes) :
    parseEntry (entryBytes e ++ rest) = some (e, rest) := by
  simp [parseEntry, entryBytes, append_assoc]

theorem putEntries_eq (es : List (Uuid × BitVec 32)) (t : HardlinkTable)
    (hnodup : ((es.reverse ++ t.hashtable).map Prod.fst).Nodup) :
    ∃ t', putEntries es t = some t' ∧ t'.hashtable = es.reverse ++ t.hashtable := by
  induction es generalizing t with
  | nil => exact ⟨t, rfl, rfl⟩
  | cons e es ih =>
    rw [reverse_cons, append_assoc, singleton_append] at hnodup
    have hnew : t.getEntry e.1 = none := by
      rw [getEntry_eq_none_iff]
      rw [map_append, map_cons] at hnodup
      exact (nodup_cons.mp hnodup.of_append_right).1
    obtain ⟨t', hput, htable⟩ := ih (t.putEntry e.1 e.2 hnew) hnodup
    refine ⟨t', ?_, ?_⟩
    · rw [putEntries, dif_pos hnew, hput]
    · rw [htable, reverse_cons, append_assoc]
      rfl

/-- The table is read as the same map, whatever the order in which it was written. -/
theorem parse_serialize (hcount : t.count < 2 ^ 32) (myUuid rootUuid : Uuid)
    {order : List (Uuid × BitVec 32)} (horder : order.Perm t.hashtable) :
    ∃ t', parse (t.serialize myUuid rootUuid order) = some (myUuid, rootUuid, t') ∧
      t'.count = t.count ∧ ∀ u, t'.getEntry u = t.getEntry u := by
  have hperm : order.reverse.Perm t.hashtable := (reverse_perm order).trans horder
  obtain ⟨t', hput, htable⟩ := putEntries_eq order create (by
    rw [show create.hashtable = [] from rfl, append_nil]
    exact (hperm.map Prod.fst).nodup_iff.mpr t.unique)
  rw [show create.hashtable = [] from rfl, append_nil] at htable
  have hlength : t.count = order.length := t.counted.trans horder.length_eq.symm
  refine ⟨t', ?_, ?_, fun u => ?_⟩
  · have hmany := Codec.many_all hlength fun e (_ : e ∈ order) => parseEntry_append e
    simp [parse, serialize, Codec.nat_append_of_lt (w := 4) hcount, hmany, hput]
  · rw [t'.counted, t.counted, htable, hperm.length_eq]
  · rw [getEntry_eq_get, getEntry_eq_get, htable, Keyed.get_perm t.unique hperm]

/-! ## Runs -/

inductive CountCall where
  | incr (uuid : Uuid)
  | decr (uuid : Uuid)
  deriving DecidableEq, Repr

/-- A table, and for each uuid how many increments there were since its entry was made,
minus the decrements. -/
structure Counting where
  table : HardlinkTable
  added : Uuid → Nat

/-- One call.  An increment makes an entry for a uuid that has none. -/
def Counting.step (c : Counting) : CountCall → Counting
  | .incr u =>
    let added := if c.table.containsUuid u then c.added u + 1 else 1
    ⟨c.table.incrUuid u, update c.added u added⟩
  | .decr u => ⟨(c.table.decrUuid u).1, update c.added u (c.added u - 1)⟩

/-- Only uuids that are present are decremented, and counts stay below `2^31`. -/
def CountCall.Allowed (c : Counting) : CountCall → Prop
  | .incr u => c.added u + 2 < 2 ^ 31 ∧ c.table.count + 1 < 2 ^ 31
  | .decr u => c.table.containsUuid u = true

/-- What the table is for. -/
structure Counting.Counts (c : Counting) : Prop where
  present : ∀ u, c.table.containsUuid u = true ↔ 1 ≤ c.added u
  count : ∀ u n, c.table.getEntry u = some n → n.toNat = c.added u + 1
  size : c.table.count = {u | c.table.containsUuid u = true}.ncard
  reread : ∀ myUuid rootUuid order, order.Perm c.table.hashtable →
    ∃ t', parse (c.table.serialize myUuid rootUuid order) = some (myUuid, rootUuid, t') ∧
      t'.count = c.table.count ∧ ∀ u, t'.getEntry u = c.table.getEntry u

/-- `hardlink_table_decr_uuid` returns the count after it, and drops an entry whose count
is less than two. -/
def CountCall.Returns (c : Counting) : CountCall → Prop
  | .incr _ => True
  | .decr u => (c.table.decrUuid u).2 = (c.added u : Int) ∧
    ((c.table.decrUuid u).1.containsUuid u = true ↔ 2 ≤ (c.table.decrUuid u).2)

/-- The invariant: the entries are what was added. -/
structure Counting.Inv (c : Counting) : Prop where
  entries : ∀ u, c.table.getEntry u =
    if c.added u = 0 then none else some (BitVec.ofNat 32 (c.added u + 1))
  bounded : ∀ u, c.added u + 1 < 2 ^ 31
  size : c.table.count < 2 ^ 31

variable {c : Counting}

theorem Counting.Inv.contains (h : c.Inv) (u : Uuid) :
    c.table.containsUuid u = true ↔ 1 ≤ c.added u := by
  rw [containsUuid, h.entries]
  split <;> simp <;> omega

theorem Counting.Inv.sound (h : c.Inv) : c.Counts where
  present := h.contains
  count := by
    intro u n hn
    rw [h.entries] at hn
    split at hn
    · cases hn
    · cases hn
      have := h.bounded u
      rw [BitVec.toNat_ofNat, Nat.mod_eq_of_lt (by omega)]
  size := by
    have hkeys : {u | c.table.containsUuid u = true} = {u | u ∈ c.table.hashtable.map Prod.fst} := by
      ext u
      simp [containsUuid, getEntry_eq_get, Keyed.isSome_get_iff]
    rw [hkeys, Keyed.ncard_keys c.table.unique, c.table.counted]
  reread := fun _ _ _ horder => parse_serialize (by have := h.size; omega) _ _ horder

theorem count_incrUuid (t : HardlinkTable) (u : Uuid) : (t.incrUuid u).count ≤ t.count + 1 := by
  unfold incrUuid
  split
  · exact le_rfl
  · exact Nat.le_succ _

theorem count_decrUuid (t : HardlinkTable) (u : Uuid) : (t.decrUuid u).1.count ≤ t.count := by
  unfold decrUuid
  split
  · exact le_rfl
  · dsimp only
    split
    · simp only [delEntry]
      split
      · exact Nat.sub_le _ _
      · exact le_rfl
    · exact le_rfl

theorem Counting.Inv.toInt_sub (h : c.Inv) (u : Uuid) (hpos : 1 ≤ c.added u) :
    (BitVec.ofNat 32 (c.added u + 1) - 1).toInt = c.added u ∧
      BitVec.ofNat 32 (c.added u + 1) - 1 = BitVec.ofNat 32 (c.added u) := by
  have hsub : BitVec.ofNat 32 (c.added u + 1) - 1 = BitVec.ofNat 32 (c.added u) := by
    rw [BitVec.ofNat_add]
    exact BitVec.add_sub_cancel _ _
  refine ⟨?_, hsub⟩
  have := h.bounded u
  rw [hsub, BitVec.toInt_eq_toNat_of_lt] <;>
    simp only [BitVec.toNat_ofNat, Nat.mod_eq_of_lt (show c.added u < 2 ^ 32 by omega)]
  omega

theorem Counting.Inv.decr (h : c.Inv) (hpos : 1 ≤ c.added u) :
    (c.table.decrUuid u).2 = (c.added u : Int) ∧ ∀ v, (c.table.decrUuid u).1.getEntry v =
      if v = u then (if c.added u = 1 then none else some (BitVec.ofNat 32 (c.added u)))
      else c.table.getEntry v := by
  have hentry := h.entries u
  rw [if_neg (by omega)] at hentry
  obtain ⟨hint, hsub⟩ := h.toInt_sub u hpos
  refine ⟨?_, fun v => ?_⟩
  · simp only [decrUuid, hentry]
    exact hint
  · rw [getEntry_decrUuid hentry, hint, hsub]
    have hiff : (c.added u : Int) < 2 ↔ c.added u = 1 := by omega
    simp only [hiff]

theorem Counting.Inv.step (c : Counting) (e : CountCall) (h : c.Inv) (he : e.Allowed c) :
    (c.step e).Inv := by
  cases e with
  | incr u =>
    have hadded : (if c.table.containsUuid u then c.added u + 1 else 1) = c.added u + 1 := by
      split
      · rfl
      · next hnot =>
        rw [h.contains] at hnot
        omega
    refine ⟨fun v => ?_, fun v => ?_, (count_incrUuid c.table u).trans_lt he.2⟩
    · simp only [Counting.step, hadded, getEntry_incrUuid, update_apply]
      split
      · rw [h.entries]
        split
        · next hzero => simp [hzero]
        · rw [if_neg (by omega), Option.getD_some]
          exact congrArg some (BitVec.ofNat_add (c.added u + 1) 1).symm
      · exact h.entries v
    · simp only [Counting.step, hadded, update_apply]
      split
      · exact he.1
      · exact h.bounded v
  | decr u =>
    have hpos := (h.contains u).mp he
    refine ⟨fun v => ?_, fun v => ?_, (count_decrUuid c.table u).trans_lt h.size⟩
    · simp only [Counting.step, (h.decr hpos).2, update_apply]
      split
      · rw [Nat.sub_add_cancel hpos]
        exact if_congr (by omega) rfl rfl
      · exact h.entries v
    · have hu := h.bounded u
      have hv := h.bounded v
      simp only [Counting.step, update_apply]
      split <;> omega

theorem Counting.Inv.returns (c : Counting) (e : CountCall) (h : c.Inv) (he : e.Allowed c) :
    e.Returns c := by
  cases e with
  | incr u => exact trivial
  | decr u =>
    have hpos := (h.contains u).mp he
    obtain ⟨hresult, hentry⟩ := h.decr hpos
    refine ⟨hresult, ?_⟩
    rw [hresult, containsUuid, hentry u, if_pos rfl]
    split <;> simp <;> omega

/-- In every run that only decrements what is present, the table is a map from uuids to
counts, and it is read back as the same map. -/
theorem counts (events : List CountCall)
    (h : Runs.Meets Counting.step (fun c e => e.Allowed c) ⟨create, fun _ => 0⟩ events) :
    Runs.Always Counting.step Counting.Counts ⟨create, fun _ => 0⟩ events ∧
      Runs.Meets Counting.step (fun c e => e.Returns c) ⟨create, fun _ => 0⟩ events := by
  have hinit : Counting.Inv ⟨create, fun _ => 0⟩ :=
    ⟨fun u => by simp [getEntry, create], fun _ => Nat.lt_of_sub_eq_succ rfl, by decide⟩
  refine ⟨?_, Runs.meets_of_meets Counting.Inv.step Counting.Inv.returns hinit h⟩
  exact (Runs.always_of_meets Counting.Inv.step hinit h).mono fun _ => Counting.Inv.sound

/-- A file gets two more names and loses one. -/
def threeNames : List CountCall := [.incr 7, .incr 7, .decr 7]

theorem threeNames_counts :
    Runs.Always Counting.step Counting.Counts ⟨create, fun _ => 0⟩ threeNames ∧
      Runs.Meets Counting.step (fun c e => e.Returns c) ⟨create, fun _ => 0⟩ threeNames :=
  counts threeNames ⟨⟨by decide, by decide⟩, ⟨by decide, by decide⟩, by
    show containsUuid _ 7 = true
    decide, trivial⟩

end Nexus.HardlinkTable
