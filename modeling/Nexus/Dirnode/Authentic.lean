import Nexus.Dirnode.Sound

/-!
# Stored dirnodes after a failed store

The main object of a dirnode records the mac of every other bucket, and a load
compares it.  A store that fails half-way has already rewritten or deleted some
buckets, so the directory then loads exactly when none of the buckets that its
main object records is among those the store touched.
-/

namespace Nexus

open Codec Function List

/-- The main object was written by storing `d`, and an object with the mac that
it records for a bucket is that bucket. -/
structure StoredDirnode.Authentic (s : StoredDirnode) (d : Dirnode) : Prop where
  storable : d.Storable
  main : s.main = padTo (getBucket0Size d) (dirnodeSerialize d)
  macs : ∀ b ∈ d.bucketList.drop 1, ∀ content,
    s.buckets b.uuid = some (content, b.mac) → content = (bucketObject b).1

/-- The buckets that the main object records are all there. -/
def StoredDirnode.Intact (s : StoredDirnode) (d : Dirnode) : Prop :=
  ∀ b ∈ d.bucketList.drop 1, s.buckets b.uuid = some (bucketObject b)

/-! ## Loading -/

variable {bs : List Bucket} {s : StoredDirnode} {d : Dirnode} {o : StoreOutcome}

theorem loadOtherBuckets_macs {store : BucketStore} {cs : List Bucket}
    (h : loadOtherBuckets store (bs.map Bucket.asRecord) = some cs) :
    ∀ b ∈ bs, ∃ content, store b.uuid = some (content, b.mac) := by
  induction bs generalizing cs with
  | nil => simp
  | cons c bs ih =>
    simp only [map_cons, loadOtherBuckets, Option.bind_eq_bind, Option.bind_eq_some_iff] at h
    obtain ⟨⟨content, mac⟩, hstore, loaded, -, h⟩ := h
    dsimp only at h
    split at h
    next hmac =>
      obtain ⟨rest, hrest, -⟩ := Option.bind_eq_some_iff.mp h
      intro b hb
      rcases mem_cons.mp hb with rfl | hb
      · refine ⟨content, ?_⟩
        rw [show b.mac = b.asRecord.mac from rfl, ← hmac]
        exact hstore
      · exact ih hrest b hb
    · contradiction

theorem StoredDirnode.Authentic.intact_of_load {d' : Dirnode} (h : s.Authentic d)
    (hload : dirnodeLoad s = some d') : s.Intact d := by
  rw [dirnodeLoad, h.main, padTo, dirnodeFromBuffer_append h.storable] at hload
  obtain ⟨bs, hbs, -⟩ := Option.map_eq_some_iff.mp hload
  obtain ⟨b₀, cs, hlist⟩ := exists_cons_of_ne_nil h.storable.wf.hasBucket
  rw [hlist, map_cons, loadBuckets] at hbs
  simp only [Option.bind_eq_bind, Option.bind_eq_some_iff] at hbs
  obtain ⟨-, -, others, hothers, -⟩ := hbs
  intro b hb
  have hmem : b ∈ cs := by
    rw [hlist] at hb
    exact hb
  obtain ⟨content, hcontent⟩ := loadOtherBuckets_macs hothers b hmem
  rw [hcontent, h.macs b hb content hcontent]
  rfl

theorem map_uuid_bucketsAsLoaded (bs : List Bucket) :
    (bucketsAsLoaded bs).map Bucket.uuid = bs.map Bucket.uuid := by
  have hmap (onDisk : Bool) (cs : List Bucket) :
      (cs.map (Bucket.asLoaded onDisk)).map Bucket.uuid = cs.map Bucket.uuid := by
    rw [map_map]
    rfl
  rw [bucketsAsLoaded, map_append, hmap, hmap, ← map_append, take_append_drop]

theorem mem_bucketsAsLoaded {b : Bucket} (h : b ∈ bucketsAsLoaded bs) :
    ∃ c ∈ bs, ∃ onDisk, b = c.asLoaded onDisk := by
  rcases mem_append.mp h with h | h
  · obtain ⟨c, hc, rfl⟩ := mem_map.mp h
    exact ⟨c, mem_of_mem_take hc, false, rfl⟩
  · obtain ⟨c, hc, rfl⟩ := mem_map.mp h
    exact ⟨c, mem_of_mem_drop hc, true, rfl⟩

theorem Dirnode.WF.reloaded (h : d.WF) : d.reloaded.WF := by
  have hperm : d.reloaded.dirents.Perm d.dirents := h.direntsPerm.symm
  have hlength : (bucketsAsLoaded d.bucketList).length = d.bucketList.length := by
    simpa using congrArg List.length (map_uuid_bucketsAsLoaded d.bucketList)
  exact {
    bucketCount := h.bucketCount.trans hlength.symm
    hasBucket := by
      intro hnil
      rw [show bucketsAsLoaded d.bucketList = [] from hnil, length_nil] at hlength
      exact h.hasBucket (eq_nil_of_length_eq_zero hlength.symm)
    bucketUuids := by
      show ((bucketsAsLoaded d.bucketList).map Bucket.uuid).Nodup
      rw [map_uuid_bucketsAsLoaded]
      exact h.bucketUuids
    buckets := by
      intro b hb
      obtain ⟨c, hc, onDisk, rfl⟩ := mem_bucketsAsLoaded hb
      have hwf := h.buckets c hc
      exact ⟨hwf.numItems, hwf.capacity, hwf.sizeBytes⟩
    direntsPerm := by
      show (bucketEntries d.bucketList).Perm (bucketEntries (bucketsAsLoaded d.bucketList))
      rw [bucketEntries_bucketsAsLoaded]
    names := ((hperm.map DirEntry.name).nodup_iff).mpr h.names
    entries := fun e he => h.entries e (hperm.mem_iff.mp he)
    dirEntryCount := h.dirEntryCount.trans hperm.length_eq.symm
    dirEntryBuflen := h.dirEntryBuflen.trans (recLenSum_perm hperm.symm)
    lastFailedLookup := by simp [Dirnode.reloaded]
    symlinkCount := h.symlinkCount
    attributeTable := h.attributeTable }

theorem Dirnode.Storable.reloaded (h : d.Storable) : d.reloaded.Storable :=
  { wf := h.wf.reloaded
    symlinks := h.symlinks
    symlinkBuflen := h.symlinkBuflen
    symlinkFits := h.symlinkFits
    attributes := h.attributes
    bucketCount := h.bucketCount }

theorem drop_reloaded (d : Dirnode) :
    d.reloaded.bucketList.drop 1 = (d.bucketList.drop 1).map (Bucket.asLoaded true) := by
  show (bucketsAsLoaded d.bucketList).drop 1 = _
  cases d.bucketList with
  | nil => rfl
  | cons b₀ bs => simp [bucketsAsLoaded]

theorem StoredDirnode.Intact.synced (h : s.Intact d) :
    BucketsSynced s.buckets (d.reloaded.bucketList.drop 1) := by
  intro b hb _
  rw [drop_reloaded] at hb
  obtain ⟨c, hc, rfl⟩ := mem_map.mp hb
  exact h c hc

/-- An authentic directory loads exactly when it is intact. -/
theorem StoredDirnode.Authentic.load_iff {d' : Dirnode} (h : s.Authentic d) :
    dirnodeLoad s = some d' ↔ s.Intact d ∧ d' = d.reloaded := by
  have hintact (hi : s.Intact d) : dirnodeLoad s = some d.reloaded := by
    rw [dirnodeLoad, h.main, padTo]
    exact dirnodeFromBuffer_serialize h.storable hi _
  constructor
  · intro hload
    have hi := h.intact_of_load hload
    rw [hintact hi] at hload
    exact ⟨hi, (Option.some.inj hload).symm⟩
  · rintro ⟨hi, rfl⟩
    exact hintact hi

/-- A successful store leaves an authentic, intact directory. -/
theorem dirnodeStore_authentic (h : d.Storable)
    (hsync : BucketsSynced s.buckets (d.bucketList.drop 1))
    (hok : (dirnodeStore o d s).2.2 = true) :
    (dirnodeStore o d s).2.1.Authentic (dirnodeStore o d s).1 ∧
      (dirnodeStore o d s).2.1.Intact (dirnodeStore o d s).1 := by
  obtain ⟨hmain, hdisk⟩ := dirnodeStore_ok h hsync hok
  refine ⟨⟨dirnodeStore_storable h o s, hmain, ?_⟩, hdisk.stored⟩
  intro b hb content hcontent
  rw [hdisk.stored b hb] at hcontent
  exact (congrArg Prod.fst (Option.some.inj hcontent)).symm

/-! ## What a store touches -/

/-- The dirty buckets that are stored before one fails. -/
def storedBuckets (o : StoreOutcome) : List Bucket → List Uuid
  | [] => []
  | b :: bs =>
    if !b.isDirty then storedBuckets o bs
    else if !o.bucketStore b.uuid then []
    else b.uuid :: storedBuckets o bs

/-- The buckets whose objects a store deletes or rewrites. -/
def touchedBuckets (o : StoreOutcome) (d : Dirnode) : List Uuid :=
  (((d.bucketList.drop 1).filter Bucket.isDeletable).map Bucket.uuid).filter o.bucketDelete ++
    if o.macversion.isSome then
      storedBuckets o ((d.bucketList.drop 1).filter fun b => !b.isDeletable)
    else []

theorem storeOtherBuckets_buckets (o : StoreOutcome) (bs : List Bucket) (store : BucketStore)
    (uuid : Uuid) :
    (storeOtherBuckets o bs store).2.1 uuid = store uuid ∨
      ∃ content, (storeOtherBuckets o bs store).2.1 uuid = some (content, o.bucketMac uuid) := by
  fun_induction storeOtherBuckets o bs store with
  | case1 => exact .inl rfl
  | case2 b bs store hclean r ih => exact ih
  | case3 => exact .inl rfl
  | case4 b bs store hdirty hstored mac r ih =>
    rcases ih with hkept | hnew
    · by_cases heq : uuid = b.uuid
      · subst heq
        exact .inr ⟨_, hkept.trans (update_self ..)⟩
      · exact .inl (hkept.trans (update_of_ne heq ..))
    · exact .inr hnew

variable {uuid : Uuid}

theorem storeOtherBuckets_of_notMem (h : uuid ∉ storedBuckets o bs) (store : BucketStore) :
    (storeOtherBuckets o bs store).2.1 uuid = store uuid := by
  fun_induction storeOtherBuckets o bs store with
  | case1 => rfl
  | case2 b bs store hclean r ih => exact ih (by simpa [storedBuckets, hclean] using h)
  | case3 => rfl
  | case4 b bs store hdirty hstored mac r ih =>
    have hne : uuid ≠ b.uuid ∧ uuid ∉ storedBuckets o bs := by
      simpa [storedBuckets, hdirty, hstored] using h
    exact (ih hne.2).trans (update_of_ne hne.1 ..)

theorem storeOtherBuckets_of_mem (h : uuid ∈ storedBuckets o bs) (store : BucketStore) :
    ∃ content, (storeOtherBuckets o bs store).2.1 uuid = some (content, o.bucketMac uuid) := by
  fun_induction storeOtherBuckets o bs store with
  | case1 => simp [storedBuckets] at h
  | case2 b bs store hclean r ih => exact ih (by simpa [storedBuckets, hclean] using h)
  | case3 b bs store hdirty hfails => simp [storedBuckets, hdirty, hfails] at h
  | case4 b bs store hdirty hstored mac r ih =>
    have hmem : uuid = b.uuid ∨ uuid ∈ storedBuckets o bs := by
      simpa [storedBuckets, hdirty, hstored] using h
    rcases hmem with rfl | hmem
    · -- the bucket is written here, and later writes keep its mac
      rcases storeOtherBuckets_buckets o bs (update store b.uuid
        (some (padTo b.sizeBytes (bucketSerialize b), o.bucketMac b.uuid))) b.uuid with
        hkept | hnew
      · exact ⟨_, hkept.trans (update_self ..)⟩
      · exact hnew
    · exact ih hmem

/-- The kept buckets after the first are those of the list that are not
deletable. -/
theorem deleteEmptyBuckets_drop (h : d.bucketList ≠ []) :
    (deleteEmptyBuckets d).bucketList.drop 1 =
      (d.bucketList.drop 1).filter fun b => !b.isDeletable := by
  obtain ⟨b, bs, hbs⟩ := exists_cons_of_ne_nil h
  simp [deleteEmptyBuckets, hbs]

theorem dirnodeStore_main_of_failed (hfail : (dirnodeStore o d s).2.2 = false) :
    (dirnodeStore o d s).2.1.main = s.main := by
  revert hfail
  unfold dirnodeStore
  cases o.macversion with
  | none => exact fun _ => rfl
  | some mv =>
    dsimp only
    split
    · exact fun _ => rfl
    split
    · exact fun _ => rfl
    · intro hfail
      contradiction

theorem dirnodeStore_buckets (o : StoreOutcome) (d : Dirnode) (s : StoredDirnode) :
    (dirnodeStore o d s).2.1.buckets =
      if o.macversion.isSome then
        (storeOtherBuckets o ((deleteEmptyBuckets d).bucketList.drop 1)
          (deleteEmptyObjects o d s.buckets)).2.1
      else deleteEmptyObjects o d s.buckets := by
  unfold dirnodeStore
  cases o.macversion with
  | none => rfl
  | some mv =>
    dsimp only [Option.isSome_some]
    split
    · rfl
    split
    · rfl
    · rfl

theorem deleteEmptyObjects_eq (o : StoreOutcome) (d : Dirnode) (store : BucketStore)
    (uuid : Uuid) :
    deleteEmptyObjects o d store uuid =
      if uuid ∈ (((d.bucketList.drop 1).filter Bucket.isDeletable).map Bucket.uuid).filter
        o.bucketDelete then none else store uuid := by
  have hany : ((d.bucketList.drop 1).any fun b => b.isDeletable && b.uuid == uuid) = true ↔
      uuid ∈ ((d.bucketList.drop 1).filter Bucket.isDeletable).map Bucket.uuid := by
    simp only [any_eq_true, Bool.and_eq_true, beq_iff_eq, mem_map, mem_filter, and_assoc]
  unfold deleteEmptyObjects
  simp only [Bool.and_eq_true, hany, mem_filter]

theorem dirnodeStore_untouched (hne : d.bucketList ≠ []) (s : StoredDirnode)
    (h : uuid ∉ touchedBuckets o d) :
    (dirnodeStore o d s).2.1.buckets uuid = s.buckets uuid := by
  rw [touchedBuckets, mem_append, not_or] at h
  rw [dirnodeStore_buckets]
  split
  next hmv =>
    rw [if_pos hmv, ← deleteEmptyBuckets_drop hne] at h
    rw [storeOtherBuckets_of_notMem h.2, deleteEmptyObjects_eq, if_neg h.1]
  · rw [deleteEmptyObjects_eq, if_neg h.1]

theorem dirnodeStore_touched (hne : d.bucketList ≠ []) (s : StoredDirnode)
    (h : uuid ∈ touchedBuckets o d) :
    (dirnodeStore o d s).2.1.buckets uuid = none ∨
      ∃ content, (dirnodeStore o d s).2.1.buckets uuid = some (content, o.bucketMac uuid) := by
  rw [touchedBuckets, mem_append] at h
  rw [dirnodeStore_buckets]
  split
  next hmv =>
    rw [if_pos hmv, ← deleteEmptyBuckets_drop hne] at h
    rcases h with h | h
    · rcases storeOtherBuckets_buckets o ((deleteEmptyBuckets d).bucketList.drop 1)
        (deleteEmptyObjects o d s.buckets) uuid with hkept | hnew
      · rw [hkept, deleteEmptyObjects_eq, if_pos h]
        exact .inl rfl
      · exact .inr hnew
    · exact .inr (storeOtherBuckets_of_mem h _)
  next hmv =>
    rw [if_neg hmv] at h
    rcases h with h | h
    · exact .inl ((deleteEmptyObjects_eq ..).trans (if_pos h))
    · simp at h

/-! ## Failed stores -/

/-- The macs a store makes are not the recorded ones. -/
def StoreOutcome.FreshMacs (o : StoreOutcome) (d : Dirnode) : Prop :=
  ∀ b ∈ d.bucketList.drop 1, o.bucketMac b.uuid ≠ b.mac

/-- `s'` is `s` after some of its buckets were deleted or written with the macs
`mac`, while the main object was left alone. -/
structure StoredDirnode.TouchedBy (s s' : StoredDirnode) (touched : Uuid → Prop)
    (mac : Uuid → Mac) : Prop where
  main : s'.main = s.main
  kept : ∀ uuid, ¬ touched uuid → s'.buckets uuid = s.buckets uuid
  changed : ∀ uuid, touched uuid →
    s'.buckets uuid = none ∨ ∃ content, s'.buckets uuid = some (content, mac uuid)

section Touched

variable {s s' : StoredDirnode} {touched : Uuid → Prop} {mac : Uuid → Mac} {d₀ : Dirnode}

theorem StoredDirnode.Authentic.of_touchedBy (h : s.Authentic d₀)
    (ht : s.TouchedBy s' touched mac) (hmacs : ∀ b ∈ d₀.bucketList.drop 1, mac b.uuid ≠ b.mac) :
    s'.Authentic d₀ := by
  refine ⟨h.storable, ht.main.trans h.main, ?_⟩
  intro b hb content hcontent
  by_cases htouched : touched b.uuid
  · rcases ht.changed b.uuid htouched with hnone | ⟨content', hnew⟩
    · simp [hnone] at hcontent
    · rw [hnew] at hcontent
      exact absurd (congrArg Prod.snd (Option.some.inj hcontent)) (hmacs b hb)
  · rw [ht.kept b.uuid htouched] at hcontent
    exact h.macs b hb content hcontent

/-- The old buckets are there exactly when they were and none of them was
touched. -/
theorem StoredDirnode.TouchedBy.intact_iff (ht : s.TouchedBy s' touched mac)
    (hmacs : ∀ b ∈ d₀.bucketList.drop 1, mac b.uuid ≠ b.mac) :
    s'.Intact d₀ ↔ s.Intact d₀ ∧ ∀ b ∈ d₀.bucketList.drop 1, ¬ touched b.uuid := by
  constructor
  · intro hi
    have huntouched (b : Bucket) (hb : b ∈ d₀.bucketList.drop 1) : ¬ touched b.uuid := by
      intro htouched
      have hobj := hi b hb
      rcases ht.changed b.uuid htouched with hnone | ⟨content, hnew⟩
      · simp [hnone] at hobj
      · rw [hnew] at hobj
        exact hmacs b hb (congrArg Prod.snd (Option.some.inj hobj))
    refine ⟨fun b hb => ?_, huntouched⟩
    rw [← ht.kept b.uuid (huntouched b hb)]
    exact hi b hb
  · rintro ⟨hintact, huntouched⟩ b hb
    rw [ht.kept b.uuid (huntouched b hb)]
    exact hintact b hb

theorem map_uuid_drop_reloaded (d : Dirnode) :
    (d.reloaded.bucketList.drop 1).map Bucket.uuid = (d.bucketList.drop 1).map Bucket.uuid := by
  rw [map_drop, map_drop]
  exact congrArg (List.drop 1) (map_uuid_bucketsAsLoaded d.bucketList)

theorem forall_uuid_reloaded (d : Dirnode) (P : Uuid → Prop) :
    (∀ b ∈ d.reloaded.bucketList.drop 1, P b.uuid) ↔ ∀ b ∈ d.bucketList.drop 1, P b.uuid := by
  rw [← forall_mem_map (f := Bucket.uuid) (P := P), map_uuid_drop_reloaded,
    forall_mem_map]

/-- The old directory loads exactly when it did and none of its buckets was
touched. -/
theorem StoredDirnode.Authentic.load_touchedBy_iff (h : s.Authentic d₀)
    (ht : s.TouchedBy s' touched mac) (hmacs : ∀ b ∈ d₀.bucketList.drop 1, mac b.uuid ≠ b.mac)
    {d' : Dirnode} :
    dirnodeLoad s' = some d' ↔
      dirnodeLoad s = some d' ∧ ∀ b ∈ d'.bucketList.drop 1, ¬ touched b.uuid := by
  rw [(h.of_touchedBy ht hmacs).load_iff, h.load_iff, ht.intact_iff hmacs]
  constructor
  · rintro ⟨⟨hintact, huntouched⟩, rfl⟩
    exact ⟨⟨hintact, rfl⟩, (forall_uuid_reloaded d₀ (¬ touched ·)).mpr huntouched⟩
  · rintro ⟨⟨hintact, rfl⟩, huntouched⟩
    exact ⟨⟨hintact, (forall_uuid_reloaded d₀ (¬ touched ·)).mp huntouched⟩, rfl⟩

end Touched

variable {o : StoreOutcome} {d : Dirnode} {s : StoredDirnode}

theorem dirnodeStore_touchedBy (hne : d.bucketList ≠ [])
    (hfail : (dirnodeStore o d s).2.2 = false) :
    s.TouchedBy (dirnodeStore o d s).2.1 (· ∈ touchedBuckets o d) o.bucketMac where
  main := dirnodeStore_main_of_failed hfail
  kept _ h := dirnodeStore_untouched hne s h
  changed _ h := dirnodeStore_touched hne s h

theorem StoredDirnode.Authentic.of_failed {d₀ : Dirnode} (h : s.Authentic d₀)
    (hmacs : o.FreshMacs d₀) (hne : d.bucketList ≠ []) (hfail : (dirnodeStore o d s).2.2 = false) :
    (dirnodeStore o d s).2.1.Authentic d₀ :=
  h.of_touchedBy (dirnodeStore_touchedBy hne hfail) hmacs

/-- After a failed store the old directory loads exactly when it did and none of
its buckets was touched. -/
theorem StoredDirnode.Authentic.load_store_iff {d₀ : Dirnode} (h : s.Authentic d₀)
    (hmacs : o.FreshMacs d₀) (hne : d.bucketList ≠ []) (hfail : (dirnodeStore o d s).2.2 = false)
    {d' : Dirnode} :
    dirnodeLoad (dirnodeStore o d s).2.1 = some d' ↔
      dirnodeLoad s = some d' ∧ ∀ b ∈ d'.bucketList.drop 1, b.uuid ∉ touchedBuckets o d :=
  h.load_touchedBy_iff (dirnodeStore_touchedBy hne hfail) hmacs

end Nexus
