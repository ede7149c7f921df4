import Nexus.Dirnode.Authentic
import Nexus.Dirnode.Reachable
import Nexus.Lib.Writes

/-!
# A store of a dirnode that is cut short

`dirnode_store` deletes the buckets that became empty, writes the dirty buckets
one after another, and writes the main object with their macs last.  None of
this is logged anywhere.  A write that fails ends the store, and so does the end
of the process, so the datastore then holds what a prefix of the writes left.
The result of a delete is not looked at.  A put of an object that an earlier call
left locked is deferred: it counts as done, and nothing is written.

`Session` is the life of one directory: it is created, modified, stored and
loaded.  After a failed store the copy in the enclave is invalid, so the session
goes on only if the directory loads again.
-/

namespace Nexus

open Codec List Writes

/-! ## The writes of a store -/

/-- The write of one bucket object: `none` deletes it. -/
abbrev BucketWrite := Uuid × Option (Bytes × Mac)

/-- `__delete_empty_dirnode_buckets`. -/
def deleteWrites (d : Dirnode) : List BucketWrite :=
  ((d.bucketList.drop 1).filter Bucket.isDeletable).map fun b => (b.uuid, none)

/-- `__store_other_buckets`. -/
def putWrites (mac : Uuid → Mac) (bs : List Bucket) : List BucketWrite :=
  (bs.filter Bucket.isDirty).map fun b =>
    (b.uuid, some (padTo b.sizeBytes (bucketSerialize b), mac b.uuid))

/-- The bucket writes of `dirnode_store`, in order.  The main object follows. -/
def bucketWrites (mac : Uuid → Mac) (d : Dirnode) : List BucketWrite :=
  deleteWrites d ++ putWrites mac ((deleteEmptyBuckets d).bucketList.drop 1)

/-- One `dirnode_store`, up to the point where it ends. -/
structure StoreCut where
  /-- What `abac_global_export_macversion` gives. -/
  macversion : MacAndVersion
  /-- The mac each stored bucket gets. -/
  bucketMac : Uuid → Mac
  /-- The deletes that succeed. -/
  deletes : Uuid → Bool
  /-- The puts that stay in the buffer layer. -/
  deferred : Deferred
  /-- How many writes are issued before one fails or the process stops.  The
  main object is one more write than there are bucket writes. -/
  writes : Nat

/-- The same store if nothing fails. -/
def StoreCut.whole (c : StoreCut) : StoreOutcome where
  macversion := some c.macversion
  bucketStore := fun _ => true
  bucketMac := c.bucketMac
  bucketDelete := c.deletes
  put := true

/-- The put of the main object is issued. -/
def StoreCut.Reaches (c : StoreCut) (d : Dirnode) : Prop :=
  (bucketWrites c.bucketMac d).length < c.writes

instance (c : StoreCut) (d : Dirnode) : Decidable (c.Reaches d) := Nat.decLt _ _

/-- The main object in the datastore is replaced. -/
def StoreCut.Replaces (c : StoreCut) (d : Dirnode) : Prop :=
  c.Reaches d ∧ c.deferred.main = false

instance (c : StoreCut) (d : Dirnode) : Decidable (c.Replaces d) :=
  inferInstanceAs (Decidable (_ ∧ _))

/-- The bucket writes that take effect. -/
def StoreCut.effective (c : StoreCut) (d : Dirnode) : List BucketWrite :=
  ((bucketWrites c.bucketMac d).take c.writes).filter fun w =>
    if w.2.isSome then !c.deferred.buckets w.1 else c.deletes w.1

/-- The datastore after a `dirnode_store` that is cut short. -/
def dirnodeStoreCut (c : StoreCut) (d : Dirnode) (s : StoredDirnode) : StoredDirnode where
  main := if c.Replaces d then (dirnodeStore c.whole d s).2.1.main else s.main
  buckets := Writes.apply (c.effective d) s.buckets

/-! ### A store is a cut store -/

variable {c : StoreCut}

theorem apply_deleteWrites (o : StoreOutcome) (d : Dirnode) (store : BucketStore) :
    Writes.apply ((deleteWrites d).filter fun w => o.bucketDelete w.1) store =
      deleteEmptyObjects o d store := by
  have hkeys : keys (deleteWrites d)
      = ((d.bucketList.drop 1).filter Bucket.isDeletable).map Bucket.uuid := by
    rw [Writes.keys, deleteWrites, map_map]
    rfl
  funext uuid
  rw [apply_filter, deleteEmptyObjects_eq, ← hkeys]
  by_cases hmem : uuid ∈ keys (deleteWrites d)
  · have hnone : Writes.apply (deleteWrites d) store uuid = none := by
      apply apply_eq hmem
      intro w hw _
      obtain ⟨b, -, rfl⟩ := mem_map.mp hw
      rfl
    simp only [mem_filter, hmem, true_and, hnone]
  · simp only [mem_filter, hmem, false_and, if_false, apply_of_notMem hmem, ite_self]

theorem putWrites_cons_of_clean {mac : Uuid → Mac} {b : Bucket} (h : b.isDirty = false)
    (bs : List Bucket) : putWrites mac (b :: bs) = putWrites mac bs := by
  simp [putWrites, h]

theorem putWrites_cons_of_dirty {mac : Uuid → Mac} {b : Bucket} (h : b.isDirty = true)
    (bs : List Bucket) :
    putWrites mac (b :: bs) =
      (b.uuid, some (padTo b.sizeBytes (bucketSerialize b), mac b.uuid)) :: putWrites mac bs := by
  simp [putWrites, h]

/-- `__store_other_buckets` issues a prefix of the puts, and all of them if it
succeeds. -/
theorem storeOtherBuckets_prefix (o : StoreOutcome) (bs : List Bucket) (store : BucketStore) :
    ∃ n ≤ (putWrites o.bucketMac bs).length,
      (storeOtherBuckets o bs store).2.1
        = Writes.apply ((putWrites o.bucketMac bs).take n) store ∧
      ((storeOtherBuckets o bs store).2.2 = true → n = (putWrites o.bucketMac bs).length) := by
  fun_induction storeOtherBuckets o bs store with
  | case1 => exact ⟨0, le_rfl, rfl, fun _ => rfl⟩
  | case2 b bs store hclean r ih =>
    rw [putWrites_cons_of_clean (by simpa using hclean)]
    exact ih
  | case3 => exact ⟨0, Nat.zero_le _, rfl, by simp⟩
  | case4 b bs store hdirty hstored mac r ih =>
    rw [putWrites_cons_of_dirty (by simpa using hdirty)]
    obtain ⟨n, hn, heq, hall⟩ := ih
    refine ⟨n + 1, Nat.succ_le_succ hn, heq, fun h => ?_⟩
    rw [length_cons, hall h]

/-- A bucket after `__store_other_buckets` has passed it. -/
def Bucket.passed (mac : Uuid → Mac) (b : Bucket) : Bucket :=
  if b.isDirty then { b with isDirty := false, onDisk := true, mac := mac b.uuid } else b

theorem Bucket.passed_of_dirty {b : Bucket} (h : b.isDirty = true) (mac : Uuid → Mac) :
    b.passed mac = { b with isDirty := false, onDisk := true, mac := mac b.uuid } := if_pos h

theorem Bucket.passed_of_clean {b : Bucket} (h : b.isDirty = false) (mac : Uuid → Mac) :
    b.passed mac = b := if_neg (by simp [h])

@[simp] theorem Bucket.passed_uuid (mac : Uuid → Mac) (b : Bucket) : (b.passed mac).uuid = b.uuid := by
  unfold passed
  split <;> rfl

theorem storeOtherBuckets_memory {o : StoreOutcome} {bs : List Bucket} {store : BucketStore}
    (hok : (storeOtherBuckets o bs store).2.2 = true) :
    (storeOtherBuckets o bs store).1 = bs.map (Bucket.passed o.bucketMac) := by
  fun_induction storeOtherBuckets o bs store with
  | case1 => rfl
  | case2 b bs store hclean r ih =>
    rw [map_cons, Bucket.passed_of_clean (by simpa using hclean)]
    exact congrArg (b :: ·) (ih hok)
  | case3 => contradiction
  | case4 b bs store hdirty hstored mac r ih =>
    rw [map_cons, Bucket.passed_of_dirty (by simpa using hdirty)]
    exact congrArg (_ :: ·) (ih hok)

theorem StoreCut.effective_eq {d : Dirnode} {n : Nat}
    (h : c.writes = (deleteWrites d).length + n) :
    c.effective d = (deleteWrites d).filter (fun w => c.deletes w.1) ++
      ((putWrites c.bucketMac ((deleteEmptyBuckets d).bucketList.drop 1)).take n).filter
        fun w => !c.deferred.buckets w.1 := by
  rw [effective, h, bucketWrites, take_length_add_append, filter_append]
  congr 1
  · apply filter_congr
    intro w hw
    obtain ⟨b, -, rfl⟩ := mem_map.mp hw
    rfl
  · apply filter_congr
    intro w hw
    obtain ⟨b, -, rfl⟩ := mem_map.mp (mem_of_mem_take hw)
    rfl

theorem dirnodeStoreCut_buckets {d : Dirnode} {n : Nat}
    (h : c.writes = (deleteWrites d).length + n) (s : StoredDirnode) (uuid : Uuid) :
    (dirnodeStoreCut c d s).buckets uuid =
      if c.deferred.buckets uuid then deleteEmptyObjects c.whole d s.buckets uuid
      else Writes.apply ((putWrites c.bucketMac ((deleteEmptyBuckets d).bucketList.drop 1)).take n)
        (deleteEmptyObjects c.whole d s.buckets) uuid := by
  show Writes.apply (c.effective d) s.buckets uuid = _
  rw [StoreCut.effective_eq h, apply_append, apply_filter (!c.deferred.buckets ·),
    ← apply_deleteWrites]
  cases c.deferred.buckets uuid with
  | false => rfl
  | true => rfl

theorem StoreCut.whole_succeeds (c : StoreCut) : c.whole.Succeeds := ⟨rfl, fun _ => rfl, rfl⟩

/-- The dirnode that a store of all buckets leaves in memory. -/
def storedMemory (o : StoreOutcome) (mv : MacAndVersion) (d : Dirnode) (buckets : BucketStore) :
    Dirnode :=
  let d := deleteEmptyBuckets d
  { d with
    attributeTable := exportMacversion mv d.attributeTable
    bucketList := ((d.bucketList.take 1).map fun b => { b with isDirty := false }) ++
      (storeOtherBuckets o (d.bucketList.drop 1) buckets).1 }

variable {d : Dirnode}

theorem dirnodeStore_fst {o : StoreOutcome} {mv : MacAndVersion} (hmv : o.macversion = some mv)
    (d : Dirnode) (s : StoredDirnode) :
    (dirnodeStore o d s).1 = storedMemory o mv d (deleteEmptyObjects o d s.buckets) := by
  unfold dirnodeStore
  simp only [hmv]
  split
  · rfl
  split <;> rfl

theorem dirnodeStore_of_ok {o : StoreOutcome} {s : StoredDirnode}
    (hok : (dirnodeStore o d s).2.2 = true) :
    ∃ mv, o.macversion = some mv ∧
      (storeOtherBuckets o ((deleteEmptyBuckets d).bucketList.drop 1)
        (deleteEmptyObjects o d s.buckets)).2.2 = true ∧
      (dirnodeStore o d s).2.1.main =
        (let d' := storedMemory o mv d (deleteEmptyObjects o d s.buckets)
         padTo (getBucket0Size d') (dirnodeSerialize d')) := by
  revert hok
  unfold dirnodeStore
  split
  · nofun
  next mv hmv =>
    dsimp only
    split
    · nofun
    next hstored =>
      split
      · nofun
      · exact fun _ => ⟨mv, hmv, by simpa using hstored, rfl⟩

theorem dirnodeStore_drop {o : StoreOutcome} {s : StoredDirnode} (h : d.bucketList ≠ [])
    (hok : (dirnodeStore o d s).2.2 = true) :
    (dirnodeStore o d s).1.bucketList.drop 1 =
      ((deleteEmptyBuckets d).bucketList.drop 1).map (Bucket.passed o.bucketMac) := by
  obtain ⟨mv, hmv, hstored, -⟩ := dirnodeStore_of_ok hok
  obtain ⟨b₀, bs, hlist⟩ := exists_cons_of_ne_nil h
  have hkept : (deleteEmptyBuckets d).bucketList.take 1 = [b₀] := by
    simp [deleteEmptyBuckets, hlist]
  rw [dirnodeStore_fst hmv, storedMemory, storeOtherBuckets_memory hstored]
  simp only [hkept, map_cons, map_nil]
  rfl

/-- `dirnode_store` issues the deletes and a prefix of the puts, and all of them if
it succeeds. -/
theorem dirnodeStore_prefix (o : StoreOutcome) (d : Dirnode) (s : StoredDirnode) :
    ∃ n ≤ (putWrites o.bucketMac ((deleteEmptyBuckets d).bucketList.drop 1)).length,
      (dirnodeStore o d s).2.1.buckets = Writes.apply
        ((putWrites o.bucketMac ((deleteEmptyBuckets d).bucketList.drop 1)).take n)
        (deleteEmptyObjects o d s.buckets) ∧
      ((dirnodeStore o d s).2.2 = true →
        n = (putWrites o.bucketMac ((deleteEmptyBuckets d).bucketList.drop 1)).length) := by
  rw [dirnodeStore_buckets]
  cases hmv : o.macversion with
  | none =>
    refine ⟨0, Nat.zero_le _, rfl, fun hok => ?_⟩
    simp [dirnodeStore, hmv] at hok
  | some mv =>
    obtain ⟨n, hn, heq, hall⟩ := storeOtherBuckets_prefix o
      ((deleteEmptyBuckets d).bucketList.drop 1) (deleteEmptyObjects o d s.buckets)
    refine ⟨n, hn, heq, fun hok => ?_⟩
    obtain ⟨-, -, hstored, -⟩ := dirnodeStore_of_ok hok
    exact hall hstored

theorem length_bucketWrites (mac : Uuid → Mac) (d : Dirnode) :
    (bucketWrites mac d).length = (deleteWrites d).length +
      (putWrites mac ((deleteEmptyBuckets d).bucketList.drop 1)).length :=
  length_append

theorem dirnodeStore_main_congr {o o' : StoreOutcome} {s : StoredDirnode}
    (hmv : o.macversion = o'.macversion) (hmac : o.bucketMac = o'.bucketMac)
    (hok : (dirnodeStore o d s).2.2 = true) (hok' : (dirnodeStore o' d s).2.2 = true) :
    (dirnodeStore o d s).2.1.main = (dirnodeStore o' d s).2.1.main := by
  obtain ⟨mv, hsome, hstored, hmain⟩ := dirnodeStore_of_ok hok
  obtain ⟨mv', hsome', hstored', hmain'⟩ := dirnodeStore_of_ok hok'
  obtain rfl := Option.some.inj (hsome.symm.trans (hmv.trans hsome'))
  rw [hmain, hmain', storedMemory, storedMemory, storeOtherBuckets_memory hstored,
    storeOtherBuckets_memory hstored', hmac]

/-- Whatever puts are deferred, every `dirnode_store` leaves in the datastore what a
cut store leaves, and it succeeds exactly if it reaches the main object. -/
theorem dirnodeStore_eq_cut (deferred : Deferred) (o : StoreOutcome) (d : Dirnode)
    (s : StoredDirnode) :
    ∃ c : StoreCut, c.bucketMac = o.bucketMac ∧ c.deletes = o.bucketDelete ∧
      c.deferred = deferred ∧ (c.Reaches d ↔ (dirnodeStore o d s).2.2 = true) ∧
      dirnodeStoreCut c d s = dirnodeStoreDisk deferred o d s := by
  obtain ⟨n, hn, hbuckets, hall⟩ := dirnodeStore_prefix o d s
  have hlength := length_bucketWrites o.bucketMac d
  cases hok : (dirnodeStore o d s).2.2 with
  | false =>
    let c : StoreCut := ⟨⟨0, 0⟩, o.bucketMac, o.bucketDelete, deferred, (deleteWrites d).length + n⟩
    have hreach : ¬ c.Reaches d := by
      show ¬ (bucketWrites o.bucketMac d).length < (deleteWrites d).length + n
      omega
    refine ⟨c, rfl, rfl, rfl, ⟨fun h => absurd h hreach, fun h => by contradiction⟩, ?_⟩
    rw [dirnodeStoreDisk, hbuckets, hok]
    refine congrArg₂ StoredDirnode.mk (if_neg fun h => hreach h.1) (funext fun uuid => ?_)
    exact dirnodeStoreCut_buckets rfl s uuid
  | true =>
    obtain ⟨mv, hmv, -⟩ := dirnodeStore_of_ok hok
    let c : StoreCut :=
      ⟨mv, o.bucketMac, o.bucketDelete, deferred, (deleteWrites d).length + (n + 1)⟩
    have hreach : c.Reaches d := by
      show (bucketWrites o.bucketMac d).length < (deleteWrites d).length + (n + 1)
      have := hall hok
      omega
    have hmac : c.whole.bucketMac = o.bucketMac := rfl
    have hmain := dirnodeStore_main_congr hmv.symm hmac
      (dirnodeStore_succeeds c.whole_succeeds d s) hok
    refine ⟨c, rfl, rfl, rfl, ⟨fun _ => rfl, fun _ => hreach⟩, ?_⟩
    rw [dirnodeStoreDisk, hok]
    refine congrArg₂ StoredDirnode.mk ?_ (funext fun uuid => ?_)
    · rw [hmain]
      cases hdeferred : deferred.main with
      | false => exact if_pos ⟨hreach, hdeferred⟩
      | true => exact if_neg fun h => Bool.false_ne_true (h.2.symm.trans hdeferred)
    · have hall := hall hok
      rw [hall, take_length] at hbuckets
      rw [hbuckets]
      refine (dirnodeStoreCut_buckets rfl s uuid).trans ?_
      rw [take_of_length_le (by rw [hall]; exact Nat.le_succ _)]
      rfl

/-! ## Before and after the main object -/

theorem StoreCut.effective_sublist (c : StoreCut) (d : Dirnode) :
    (c.effective d).Sublist (bucketWrites c.bucketMac d) :=
  filter_sublist.trans (take_sublist ..)

theorem mem_bucketWrites {mac : Uuid → Mac} {w : BucketWrite} (h : w ∈ bucketWrites mac d) :
    w.2 = none ∨ ∃ content, w.2 = some (content, mac w.1) := by
  rcases mem_append.mp h with h | h
  · obtain ⟨b, -, rfl⟩ := mem_map.mp h
    exact .inl rfl
  · obtain ⟨b, -, rfl⟩ := mem_map.mp h
    exact .inr ⟨_, rfl⟩

/-- The buckets whose objects a cut store deletes or rewrites. -/
def StoreCut.touched (c : StoreCut) (d : Dirnode) : List Uuid := Writes.keys (c.effective d)

theorem dirnodeStoreCut_touchedBy (h : ¬ c.Replaces d) (s : StoredDirnode) :
    s.TouchedBy (dirnodeStoreCut c d s) (· ∈ c.touched d) c.bucketMac where
  main := if_neg h
  kept _ huntouched := apply_of_notMem huntouched s.buckets
  changed _ htouched :=
    mem_bucketWrites ((c.effective_sublist d).mem (apply_of_mem htouched s.buckets))

theorem deleteEmptyObjects_kept (h : d.WF) (o : StoreOutcome) (store : BucketStore) {b : Bucket}
    (hkept : b ∈ (deleteEmptyBuckets d).bucketList.drop 1) :
    deleteEmptyObjects o d store b.uuid = store b.uuid := by
  rw [deleteEmptyBuckets_drop h.hasBucket] at hkept
  obtain ⟨hmem, hnot⟩ := mem_filter.mp hkept
  rw [deleteEmptyObjects_eq, if_neg]
  intro hdeleted
  obtain ⟨b', hb', huuid⟩ := mem_map.mp (mem_filter.mp hdeleted).1
  obtain ⟨hmem', hdel⟩ := mem_filter.mp hb'
  have hsame : b' = b := inj_on_of_nodup_map h.bucketUuids (mem_of_mem_drop hmem')
    (mem_of_mem_drop hmem) huuid
  rw [hsame] at hdel
  simp [hdel] at hnot

theorem dirnodeStoreCut_kept (h : d.WF) (hreach : c.Reaches d) (s : StoredDirnode) {b : Bucket}
    (hkept : b ∈ (deleteEmptyBuckets d).bucketList.drop 1) :
    (dirnodeStoreCut c d s).buckets b.uuid =
      if c.deferred.buckets b.uuid then s.buckets b.uuid
      else (dirnodeStore c.whole d s).2.1.buckets b.uuid := by
  have hlength := length_bucketWrites c.bucketMac d
  obtain ⟨n, hn⟩ := Nat.exists_eq_add_of_le
    (show (deleteWrites d).length ≤ c.writes by unfold StoreCut.Reaches at hreach; omega)
  have hputs : (putWrites c.bucketMac ((deleteEmptyBuckets d).bucketList.drop 1)).length ≤ n := by
    unfold StoreCut.Reaches at hreach
    omega
  obtain ⟨m, -, hbuckets, hall⟩ := dirnodeStore_prefix c.whole d s
  rw [hall (dirnodeStore_succeeds c.whole_succeeds d s), take_length] at hbuckets
  rw [dirnodeStoreCut_buckets hn, deleteEmptyObjects_kept h _ _ hkept, take_of_length_le hputs,
    hbuckets]
  rfl

/-- Every bucket that the store puts is written. -/
def StoreCut.PutsWritten (c : StoreCut) (d : Dirnode) : Prop :=
  ∀ b ∈ (deleteEmptyBuckets d).bucketList.drop 1, b.isDirty = true →
    c.deferred.buckets b.uuid = false

/-- The macs of the store are new: no object in the datastore has one of them. -/
def StoreCut.FreshMacs (c : StoreCut) (s : StoredDirnode) : Prop :=
  ∀ uuid content mac, s.buckets uuid = some (content, mac) → c.bucketMac uuid ≠ mac

section Replaced

variable {s : StoredDirnode} (h : d.Storable)
  (hsync : BucketsSynced s.buckets (d.bucketList.drop 1)) (hreplaces : c.Replaces d)
include h hsync hreplaces

theorem dirnodeStoreCut_written {b : Bucket}
    (hkept : b ∈ (deleteEmptyBuckets d).bucketList.drop 1)
    (hwritten : b.isDirty = true → c.deferred.buckets b.uuid = false) :
    (dirnodeStoreCut c d s).buckets b.uuid = some (bucketObject (b.passed c.bucketMac)) := by
  have hok := dirnodeStore_succeeds c.whole_succeeds d s
  rw [dirnodeStoreCut_kept h.wf hreplaces.1 s hkept]
  split
  next hdeferred =>
    -- a put of another bucket, or none: this one is in the datastore already
    have hclean : b.isDirty = false := by
      cases hdirty : b.isDirty with
      | false => rfl
      | true => simp [hwritten hdirty] at hdeferred
    rw [deleteEmptyBuckets_drop h.wf.hasBucket] at hkept
    rw [Bucket.passed_of_clean hclean]
    exact hsync b (mem_of_mem_filter hkept) hclean
  · have hintact := (dirnodeStore_authentic h hsync hok).2 (b.passed c.bucketMac) (by
      rw [dirnodeStore_drop h.wf.hasBucket hok]
      exact mem_map_of_mem hkept)
    rw [Bucket.passed_uuid] at hintact
    exact hintact

theorem dirnodeStoreCut_authentic (hfresh : c.FreshMacs s) :
    (dirnodeStoreCut c d s).Authentic (dirnodeStore c.whole d s).1 := by
  have hok := dirnodeStore_succeeds c.whole_succeeds d s
  have hauthentic := (dirnodeStore_authentic h hsync hok).1
  refine ⟨hauthentic.storable, (if_pos hreplaces).trans hauthentic.main, ?_⟩
  intro b hb content hcontent
  rw [dirnodeStore_drop h.wf.hasBucket hok] at hb
  obtain ⟨b, hkept, rfl⟩ := mem_map.mp hb
  rw [Bucket.passed_uuid] at hcontent
  by_cases hwritten : b.isDirty = true → c.deferred.buckets b.uuid = false
  · rw [dirnodeStoreCut_written h hsync hreplaces hkept hwritten] at hcontent
    exact (congrArg Prod.fst (Option.some.inj hcontent)).symm
  · -- the object is the old one, and its mac is not the new one
    obtain ⟨hdirty, hdeferred⟩ := Classical.not_imp.mp hwritten
    rw [dirnodeStoreCut_kept h.wf hreplaces.1 s hkept, if_pos (by simpa using hdeferred),
      Bucket.passed_of_dirty hdirty] at hcontent
    exact absurd rfl (hfresh _ _ _ hcontent)

theorem dirnodeStoreCut_intact (hwritten : c.PutsWritten d) :
    (dirnodeStoreCut c d s).Intact (dirnodeStore c.whole d s).1 := by
  intro b hb
  rw [dirnodeStore_drop h.wf.hasBucket (dirnodeStore_succeeds c.whole_succeeds d s)] at hb
  obtain ⟨b, hkept, rfl⟩ := mem_map.mp hb
  rw [Bucket.passed_uuid]
  exact dirnodeStoreCut_written h hsync hreplaces hkept (hwritten b hkept)

/-- The new directory is whole exactly when none of its puts was deferred. -/
theorem dirnodeStoreCut_intact_iff (hfresh : c.FreshMacs s) :
    (dirnodeStoreCut c d s).Intact (dirnodeStore c.whole d s).1 ↔ c.PutsWritten d := by
  refine ⟨fun hintact b hkept hdirty => ?_, dirnodeStoreCut_intact h hsync hreplaces⟩
  have hok := dirnodeStore_succeeds c.whole_succeeds d s
  by_contra hdeferred
  have hobject := hintact (b.passed c.bucketMac) (by
    rw [dirnodeStore_drop h.wf.hasBucket hok]
    exact mem_map_of_mem hkept)
  rw [Bucket.passed_uuid, dirnodeStoreCut_kept h.wf hreplaces.1 s hkept,
    if_pos (by simpa using hdeferred), Bucket.passed_of_dirty hdirty] at hobject
  exact hfresh _ _ _ hobject rfl

end Replaced

/-! ## Failure atomicity -/

/-- The two dirnodes hold the same entries, links and attributes.  The stamp of
the attribute space, which every store renews, is left out. -/
structure Dirnode.SameContents (d d' : Dirnode) : Prop where
  entries : ∀ name, (d.lookup name).map (fun e => (e.type, e.linkUuid)) =
    (d'.lookup name).map fun e => (e.type, e.linkUuid)
  links : ∀ uuid, dirnodeGetLink d uuid = dirnodeGetLink d' uuid
  attributes : ∀ mv, exportMacversion mv d.attributeTable = exportMacversion mv d'.attributeTable

theorem Dirnode.SameContents.refl (d : Dirnode) : d.SameContents d :=
  ⟨fun _ => rfl, fun _ => rfl, fun _ => rfl⟩

/-- What a whole store writes has the contents of the dirnode in memory. -/
theorem dirnodeStore_sameContents (h : d.Storable) (o : StoreOutcome) (s : StoredDirnode) :
    (dirnodeStore o d s).1.reloaded.SameContents d where
  entries name := by
    rw [reloaded_lookup (dirnodeStore_storable h o s).wf, dirnodeStore_lookup]
  links uuid := dirnodeStore_getLink o d s uuid
  attributes mv := by
    obtain ⟨table, bs, heq, -, htable⟩ := dirnodeStore_memory o d s
    have hreloaded : (dirnodeStore o d s).1.reloaded.attributeTable = table := by rw [heq]; rfl
    rw [hreloaded]
    rcases htable with rfl | ⟨mv', rfl⟩ <;> rfl

/-- A later load succeeds and gives the contents before the modifications, as the
datastore held them, or the contents after them. -/
def FailureAtomic (before : Dirnode) (after : Dirnode) (s : StoredDirnode) : Prop :=
  ∃ l, dirnodeLoad s = some l ∧ (l.SameContents before ∨ l.SameContents after)

/-- The cut is harmless: the main object was written and with it every bucket that
was put, or it was not, and no bucket of the stored directory was deleted or
rewritten. -/
def StoreCut.Harmless (c : StoreCut) (before after : Dirnode) : Prop :=
  if c.Replaces after then c.PutsWritten after
  else ∀ b ∈ before.bucketList.drop 1, b.uuid ∉ c.touched after

end Nexus
