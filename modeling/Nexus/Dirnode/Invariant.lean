import Nexus.Dirnode.Dirnode
import Mathlib.Data.List.Perm.Basic

/-!
# The invariant of a dirnode

`Dirnode.WF` says that the redundant parts of a dirnode agree: the buckets hold
the entries of `dirents_list` and no others, names are unique, and every running
count is what it counts.  The operations of `dirnode.c` keep it.  The proofs go
in three layers: one bucket, a list of buckets, the dirnode.
-/

namespace Nexus

open Codec List

/-- The bytes a list of entries takes in a buffer. -/
def recLenSum (es : List DirEntry) : Nat := (es.map DirEntry.recLen).sum

@[simp] theorem recLenSum_nil : recLenSum [] = 0 := rfl

@[simp] theorem recLenSum_append (xs ys : List DirEntry) :
    recLenSum (xs ++ ys) = recLenSum xs + recLenSum ys := by
  simp [recLenSum]

@[simp] theorem recLenSum_cons (e : DirEntry) (es : List DirEntry) :
    recLenSum (e :: es) = e.recLen + recLenSum es := by
  simp [recLenSum]

theorem recLenSum_perm {xs ys : List DirEntry} (h : xs.Perm ys) :
    recLenSum xs = recLenSum ys :=
  (h.map DirEntry.recLen).sum_eq

variable {e : DirEntry}

theorem recLenSum_erase {es : List DirEntry} (h : e ∈ es) :
    recLenSum es = e.recLen + recLenSum (es.erase e) := by
  rw [← recLenSum_cons]
  exact recLenSum_perm (perm_cons_erase h)

/-! ## Entries and buckets -/

/-- The length fields of a record belong to its name. -/
structure DirEntry.WF (e : DirEntry) : Prop where
  recLen : e.recLen = dirRecHdrSize + e.name.bytes.length + 1
  nameLen : e.nameLen = e.name.bytes.length

theorem newDirEntry_wf (uuid : Uuid) (type : DirentType) (name : Name) :
    (newDirEntry uuid type name).WF := ⟨rfl, rfl⟩

theorem renameDirEntry_wf (e : DirEntry) (name : Name) : (renameDirEntry e name).WF :=
  ⟨rfl, rfl⟩

/-- The running counts of a bucket are right and it is not overfull. -/
structure Bucket.WF (b : Bucket) : Prop where
  numItems : b.numItems = b.dirEntries.length
  capacity : b.numItems ≤ bucketCapacity
  sizeBytes : b.sizeBytes = recLenSum b.dirEntries

theorem bucketCreate_wf (uuid : Uuid) : (bucketCreate uuid).WF :=
  ⟨rfl, Nat.zero_le _, rfl⟩

theorem bucketAddDirentry_wf {b : Bucket} (h : b.WF) (e : DirEntry)
    (hroom : b.numItems < bucketCapacity) : (bucketAddDirentry b e).WF := by
  refine ⟨?_, hroom, ?_⟩
  · simp [bucketAddDirentry, h.numItems]
  · simp [bucketAddDirentry, h.sizeBytes]

theorem bucketDelDirentry_wf {b : Bucket} (h : b.WF) (he : e ∈ b.dirEntries) :
    (bucketDelDirentry b e).WF := by
  have hlen := length_erase_of_mem he
  have hsum := recLenSum_erase he
  have hcap := h.capacity
  refine ⟨?_, ?_, ?_⟩
  · show b.numItems - 1 = (b.dirEntries.erase e).length
    rw [hlen, h.numItems]
  · show b.numItems - 1 ≤ bucketCapacity
    omega
  · show b.sizeBytes - e.recLen = recLenSum (b.dirEntries.erase e)
    rw [h.sizeBytes, hsum]
    omega

/-! ## Lists of buckets -/

/-- All entries of a list of buckets. -/
def bucketEntries (bs : List Bucket) : List DirEntry := bs.flatMap Bucket.dirEntries

@[simp] theorem bucketEntries_cons (b : Bucket) (bs : List Bucket) :
    bucketEntries (b :: bs) = b.dirEntries ++ bucketEntries bs := rfl

@[simp] theorem bucketEntries_append (bs cs : List Bucket) :
    bucketEntries (bs ++ cs) = bucketEntries bs ++ bucketEntries cs := by
  simp [bucketEntries]

/-- Some bucket has room. -/
def HasRoom (bs : List Bucket) : Prop := ∃ b ∈ bs, b.numItems < bucketCapacity

section

variable (e : DirEntry) (bs : List Bucket)

@[simp] theorem map_uuid_addToBucket : (addToBucket e bs).map Bucket.uuid = bs.map Bucket.uuid := by
  induction bs with
  | nil => rfl
  | cons b bs ih =>
    unfold addToBucket
    split
    · rfl
    · rw [map_cons, ih, map_cons]

@[simp] theorem map_uuid_delFromBucket :
    (delFromBucket e bs).map Bucket.uuid = bs.map Bucket.uuid := by
  induction bs with
  | nil => rfl
  | cons b bs ih =>
    unfold delFromBucket
    split
    · rfl
    · rw [map_cons, ih, map_cons]

@[simp] theorem length_addToBucket : (addToBucket e bs).length = bs.length := by
  rw [← length_map (f := Bucket.uuid), map_uuid_addToBucket, length_map]

@[simp] theorem length_delFromBucket : (delFromBucket e bs).length = bs.length := by
  rw [← length_map (f := Bucket.uuid), map_uuid_delFromBucket, length_map]

end

variable {bs : List Bucket}

theorem addToBucket_wf (h : ∀ b ∈ bs, b.WF) (e : DirEntry) :
    ∀ b ∈ addToBucket e bs, b.WF := by
  induction bs with
  | nil => simp [addToBucket]
  | cons b bs ih =>
    obtain ⟨hb, hbs⟩ := forall_mem_cons.mp h
    unfold addToBucket
    split
    next hroom => exact forall_mem_cons.mpr ⟨bucketAddDirentry_wf hb e hroom, hbs⟩
    · exact forall_mem_cons.mpr ⟨hb, ih hbs⟩

theorem delFromBucket_wf (h : ∀ b ∈ bs, b.WF) (e : DirEntry) :
    ∀ b ∈ delFromBucket e bs, b.WF := by
  induction bs with
  | nil => simp [delFromBucket]
  | cons b bs ih =>
    obtain ⟨hb, hbs⟩ := forall_mem_cons.mp h
    unfold delFromBucket
    split
    next he => exact forall_mem_cons.mpr ⟨bucketDelDirentry_wf hb he, hbs⟩
    · exact forall_mem_cons.mpr ⟨hb, ih hbs⟩

theorem bucketEntries_addToBucket (e : DirEntry) (hroom : HasRoom bs) :
    (bucketEntries (addToBucket e bs)).Perm (e :: bucketEntries bs) := by
  induction bs with
  | nil =>
    obtain ⟨b, hb, -⟩ := hroom
    simp at hb
  | cons b bs ih =>
    unfold addToBucket
    split
    · simp only [bucketEntries_cons, bucketAddDirentry, append_assoc,
        singleton_append]
      exact perm_middle
    next hfull =>
      have hroom' : HasRoom bs := by
        obtain ⟨c, hc, hlt⟩ := hroom
        rcases mem_cons.mp hc with rfl | hc
        · exact absurd hlt hfull
        · exact ⟨c, hc, hlt⟩
      rw [bucketEntries_cons, bucketEntries_cons]
      exact ((ih hroom').append_left b.dirEntries).trans perm_middle

theorem bucketEntries_delFromBucket (he : e ∈ bucketEntries bs) :
    (e :: bucketEntries (delFromBucket e bs)).Perm (bucketEntries bs) := by
  induction bs with
  | nil => simp [bucketEntries] at he
  | cons b bs ih =>
    unfold delFromBucket
    split
    next hb =>
      rw [bucketEntries_cons, bucketEntries_cons, ← cons_append]
      exact (perm_cons_erase hb).symm.append_right _
    next hb =>
      have he' : e ∈ bucketEntries bs := by
        rw [bucketEntries_cons, mem_append] at he
        exact he.resolve_left hb
      rw [bucketEntries_cons, bucketEntries_cons]
      exact perm_middle.symm.trans ((ih he').append_left b.dirEntries)

/-! ## Dirnodes -/

/-- The entries, the buckets, the counters and the memory of failed lookups agree. -/
structure Dirnode.Coherent (d : Dirnode) : Prop where
  bucketCount : d.bucketCount = d.bucketList.length
  hasBucket : d.bucketList ≠ []
  buckets : ∀ b ∈ d.bucketList, b.WF
  direntsPerm : d.dirents.Perm (bucketEntries d.bucketList)
  names : (d.dirents.map DirEntry.name).Nodup
  entries : ∀ e ∈ d.dirents, e.WF
  dirEntryCount : d.dirEntryCount = d.dirents.length
  dirEntryBuflen : d.dirEntryBuflen = recLenSum d.dirents
  lastFailedLookup : ∀ name ∈ d.lastFailedLookup, d.lookup name = none

/-- The redundant parts of a dirnode agree. -/
structure Dirnode.WF (d : Dirnode) : Prop extends coherent : d.Coherent where
  bucketUuids : (d.bucketList.map Bucket.uuid).Nodup
  symlinkCount : d.symlinkCount = d.symlinkList.length
  attributeTable : d.attributeTable.WF

variable {d : Dirnode}

theorem dirnodeCreate_coherent (rootUuid myUuid bucket0 : Uuid) :
    (dirnodeCreate rootUuid myUuid bucket0).Coherent where
  bucketCount := rfl
  hasBucket := by simp [dirnodeCreate]
  buckets := by
    intro b hb
    obtain rfl : b = bucketCreate bucket0 := by simpa [dirnodeCreate] using hb
    exact bucketCreate_wf bucket0
  direntsPerm := by simp [dirnodeCreate, bucketEntries, bucketCreate]
  names := by simp [dirnodeCreate]
  entries := by simp [dirnodeCreate]
  dirEntryCount := rfl
  dirEntryBuflen := rfl
  lastFailedLookup := by simp [dirnodeCreate]

theorem dirnodeCreate_wf (rootUuid myUuid bucket0 : Uuid) :
    (dirnodeCreate rootUuid myUuid bucket0).WF :=
  { dirnodeCreate_coherent rootUuid myUuid bucket0 with
    bucketUuids := by simp [dirnodeCreate]
    symlinkCount := rfl
    attributeTable := attributeTableCreate_wf }

/-! ### Lookups -/

theorem Dirnode.mem_of_lookup {name : Name} (h : d.lookup name = some e) :
    e ∈ d.dirents ∧ e.name = name :=
  ⟨mem_of_find?_eq_some h, by simpa using find?_some h⟩

theorem Dirnode.lookup_eq_none_iff {name : Name} :
    d.lookup name = none ↔ ∀ e ∈ d.dirents, e.name ≠ name := by
  simp [Dirnode.lookup]

theorem Dirnode.Coherent.lookup_of_mem (h : d.Coherent) (he : e ∈ d.dirents) :
    d.lookup e.name = some e := by
  cases hfind : d.lookup e.name with
  | none => exact absurd rfl (Dirnode.lookup_eq_none_iff.mp hfind e he)
  | some e' =>
    obtain ⟨hmem, hname⟩ := Dirnode.mem_of_lookup hfind
    rw [inj_on_of_nodup_map h.names hmem he hname]

/-- `__find_by_name` is the plain lookup: its memory of a failed lookup never
hides an entry. -/
theorem findByName_result (h : d.Coherent) (name : Name) :
    (findByName d name).2 = d.lookup name := by
  unfold findByName
  split
  next hlast =>
    exact (h.lastFailedLookup name hlast).symm
  · cases hfind : d.lookup name <;> rfl

/-- Only the memory of the last failed lookup changes in a lookup. -/
theorem findByName_frame (d : Dirnode) (name : Name) :
    ∃ last, (findByName d name).1 = { d with lastFailedLookup := last } := by
  unfold findByName
  split
  · exact ⟨d.lastFailedLookup, rfl⟩
  · cases d.lookup name with
    | none => exact ⟨some name, rfl⟩
    | some e => exact ⟨none, rfl⟩

theorem findByName_lastFailedLookup (h : d.Coherent) (name : Name) :
    ∀ n ∈ (findByName d name).1.lastFailedLookup, d.lookup n = none := by
  unfold findByName
  split
  · exact h.lastFailedLookup
  · cases hfind : d.lookup name with
    | none =>
      intro n hn
      obtain rfl : name = n := by simpa using hn
      exact hfind
    | some e => simp

theorem findByName_coherent (h : d.Coherent) (name : Name) :
    (findByName d name).1.Coherent := by
  have hlast := findByName_lastFailedLookup h name
  obtain ⟨last, heq⟩ := findByName_frame d name
  rw [heq] at hlast ⊢
  exact { h with lastFailedLookup := hlast }

theorem findByName_wf (h : d.WF) (name : Name) : (findByName d name).1.WF := by
  have hlast := findByName_lastFailedLookup h.coherent name
  obtain ⟨last, heq⟩ := findByName_frame d name
  rw [heq] at hlast ⊢
  exact { h with lastFailedLookup := hlast }

/-! ### Adding and deleting an entry -/

variable {fresh : Uuid}

theorem getAvailableBucket_coherent (h : d.Coherent) (fresh : Uuid) :
    (getAvailableBucket d fresh).Coherent := by
  unfold getAvailableBucket
  split
  · exact h
  · refine { h with
      bucketCount := by simp [h.bucketCount]
      hasBucket := by simp
      buckets := ?_
      direntsPerm := ?_ }
    · intro b hb
      rcases mem_append.mp hb with hb | hb
      · exact h.buckets b hb
      · rw [mem_singleton.mp hb]
        exact bucketCreate_wf fresh
    · simpa [bucketEntries, bucketCreate] using h.direntsPerm

theorem getAvailableBucket_bucketUuids (h : (d.bucketList.map Bucket.uuid).Nodup)
    (hfresh : fresh ∉ d.bucketList.map Bucket.uuid) :
    ((getAvailableBucket d fresh).bucketList.map Bucket.uuid).Nodup := by
  unfold getAvailableBucket
  split
  · exact h
  · rw [map_append, nodup_append_comm]
    exact nodup_cons.mpr ⟨hfresh, h⟩

section

variable (d : Dirnode) (fresh : Uuid)

theorem getAvailableBucket_hasRoom : HasRoom (getAvailableBucket d fresh).bucketList := by
  unfold getAvailableBucket
  split
  next hany =>
    obtain ⟨b, hb, hlt⟩ := any_eq_true.mp hany
    exact ⟨b, hb, by simpa using hlt⟩
  · refine ⟨bucketCreate fresh, by simp, ?_⟩
    show 0 < bucketCapacity
    decide

@[simp] theorem getAvailableBucket_dirents : (getAvailableBucket d fresh).dirents = d.dirents := by
  unfold getAvailableBucket
  split <;> rfl

@[simp] theorem getAvailableBucket_symlinkCount :
    (getAvailableBucket d fresh).symlinkCount = d.symlinkCount := by
  unfold getAvailableBucket
  split <;> rfl

@[simp] theorem getAvailableBucket_symlinkList :
    (getAvailableBucket d fresh).symlinkList = d.symlinkList := by
  unfold getAvailableBucket
  split <;> rfl

@[simp] theorem getAvailableBucket_attributeTable :
    (getAvailableBucket d fresh).attributeTable = d.attributeTable := by
  unfold getAvailableBucket
  split <;> rfl

end

theorem dirnodeAddDirentry_coherent (h : d.Coherent) (he : e.WF) (hname : d.lookup e.name = none)
    (fresh : Uuid) :
    (dirnodeAddDirentry d e fresh).Coherent := by
  have hroom := getAvailableBucket_hasRoom d fresh
  have hdirents := getAvailableBucket_dirents d fresh
  have hw := getAvailableBucket_coherent h fresh
  unfold dirnodeAddDirentry
  generalize getAvailableBucket d fresh = d' at hroom hdirents hw
  refine { hw with
    bucketCount := by simp [hw.bucketCount]
    hasBucket := ?_
    buckets := addToBucket_wf hw.buckets e
    direntsPerm := ?_
    names := ?_
    entries := ?_
    dirEntryCount := by simp [hw.dirEntryCount]
    dirEntryBuflen := by simp [hw.dirEntryBuflen]
    lastFailedLookup := by simp }
  · intro hnil
    have := congrArg List.length hnil
    rw [length_addToBucket] at this
    exact hw.hasBucket (eq_nil_of_length_eq_zero this)
  · refine (perm_append_singleton e d'.dirents).trans ?_
    exact (hw.direntsPerm.cons e).trans (bucketEntries_addToBucket e hroom).symm
  · have hnew : e.name ∉ d'.dirents.map DirEntry.name := by
      rw [hdirents]
      intro hmem
      obtain ⟨e', he', heq⟩ := mem_map.mp hmem
      exact Dirnode.lookup_eq_none_iff.mp hname e' he' heq
    rw [map_append, nodup_append_comm]
    exact nodup_cons.mpr ⟨hnew, hw.names⟩
  · intro e' he'
    rcases mem_append.mp he' with he' | he'
    · exact hw.entries e' he'
    · rw [mem_singleton.mp he']
      exact he

theorem dirnodeAddDirentry_wf (h : d.WF) (he : e.WF) (hname : d.lookup e.name = none)
    (hfresh : fresh ∉ d.bucketList.map Bucket.uuid) : (dirnodeAddDirentry d e fresh).WF :=
  { dirnodeAddDirentry_coherent h.coherent he hname fresh with
    bucketUuids := by
      simpa [dirnodeAddDirentry] using getAvailableBucket_bucketUuids h.bucketUuids hfresh
    symlinkCount := by simpa [dirnodeAddDirentry] using h.symlinkCount
    attributeTable := by simpa [dirnodeAddDirentry] using h.attributeTable }

theorem dirnodeDelDirentry_coherent (h : d.Coherent) (he : e ∈ d.dirents) :
    (dirnodeDelDirentry d e).Coherent := by
  have hbuckets : e ∈ bucketEntries d.bucketList := h.direntsPerm.mem_iff.mp he
  have hcons : (e :: d.dirents.erase e).Perm
      (e :: bucketEntries (delFromBucket e d.bucketList)) :=
    ((perm_cons_erase he).symm.trans h.direntsPerm).trans
      (bucketEntries_delFromBucket hbuckets).symm
  have hsum := recLenSum_erase he
  refine { h with
    bucketCount := by simp [dirnodeDelDirentry, h.bucketCount]
    hasBucket := ?_
    buckets := delFromBucket_wf h.buckets e
    direntsPerm := hcons.cons_inv
    names := h.names.sublist ((erase_sublist).map _)
    entries := fun e' he' => h.entries e' (mem_of_mem_erase he')
    dirEntryCount := ?_
    dirEntryBuflen := ?_
    lastFailedLookup := by simp [dirnodeDelDirentry] }
  · intro hnil
    have := congrArg List.length hnil
    simp only [dirnodeDelDirentry, length_delFromBucket] at this
    exact h.hasBucket (eq_nil_of_length_eq_zero this)
  · show d.dirEntryCount - 1 = (d.dirents.erase e).length
    rw [h.dirEntryCount, length_erase_of_mem he]
  · show d.dirEntryBuflen - e.recLen = recLenSum (d.dirents.erase e)
    rw [h.dirEntryBuflen, hsum]
    omega

theorem dirnodeDelDirentry_wf (h : d.WF) (he : e ∈ d.dirents) :
    (dirnodeDelDirentry d e).WF :=
  { dirnodeDelDirentry_coherent h.coherent he with
    bucketUuids := by simpa [dirnodeDelDirentry] using h.bucketUuids
    symlinkCount := h.symlinkCount
    attributeTable := h.attributeTable }

/-! ### What the operations do to the map from names to entries -/

theorem Dirnode.Coherent.lookup_eq_some_iff (h : d.Coherent) {name : Name} :
    d.lookup name = some e ↔ e ∈ d.dirents ∧ e.name = name := by
  constructor
  · exact Dirnode.mem_of_lookup
  · rintro ⟨he, rfl⟩
    exact h.lookup_of_mem he

theorem lookup_dirnodeDelDirentry (h : d.Coherent) (he : e ∈ d.dirents) (name : Name) :
    (dirnodeDelDirentry d e).lookup name = if name = e.name then none else d.lookup name := by
  have hnodup : d.dirents.Nodup := List.Nodup.of_map _ h.names
  have hdel := dirnodeDelDirentry_coherent h he
  have hmem (x : DirEntry) : x ∈ (dirnodeDelDirentry d e).dirents ↔ x ≠ e ∧ x ∈ d.dirents :=
    hnodup.mem_erase_iff
  split
  next hname =>
    rw [Dirnode.lookup_eq_none_iff]
    intro x hx hxname
    obtain ⟨hne, hx⟩ := (hmem x).mp hx
    exact hne (inj_on_of_nodup_map h.names hx he (hxname.trans hname))
  next hname =>
    ext x
    rw [hdel.lookup_eq_some_iff, h.lookup_eq_some_iff, hmem]
    constructor
    · rintro ⟨⟨-, hx⟩, hxname⟩
      exact ⟨hx, hxname⟩
    · rintro ⟨hx, hxname⟩
      refine ⟨⟨?_, hx⟩, hxname⟩
      rintro rfl
      exact hname hxname.symm

theorem lookup_dirnodeAddDirentry (hname : d.lookup e.name = none) (fresh : Uuid) (name : Name) :
    (dirnodeAddDirentry d e fresh).lookup name =
      if name = e.name then some e else d.lookup name := by
  have hdirents : (dirnodeAddDirentry d e fresh).dirents = d.dirents ++ [e] := by
    show (getAvailableBucket d fresh).dirents ++ [e] = _
    rw [getAvailableBucket_dirents]
  rw [Dirnode.lookup, hdirents, find?_append]
  by_cases h : name = e.name
  · subst h
    simp only [Dirnode.lookup] at hname
    simp [hname]
  · have hne : ¬ e.name = name := fun heq => h heq.symm
    simp [h, hne, Dirnode.lookup]

@[simp] theorem dirnodeDelDirentry_bucketUuids (d : Dirnode) (e : DirEntry) :
    (dirnodeDelDirentry d e).bucketList.map Bucket.uuid = d.bucketList.map Bucket.uuid := by
  simp [dirnodeDelDirentry]

/-! ### The operations -/

theorem dirnodeAddDirentry_lastFailed (d : Dirnode) (last : Option Name) (e : DirEntry)
    (fresh : Uuid) :
    dirnodeAddDirentry { d with lastFailedLookup := last } e fresh =
      dirnodeAddDirentry d e fresh := by
  by_cases h : (d.bucketList.any fun b => b.numItems < bucketCapacity) = true <;>
    simp [dirnodeAddDirentry, getAvailableBucket, h]

/-- `dirnode_add` in terms of the map: it fails on a used name, and otherwise
adds the new entry. -/
theorem dirnodeAdd_eq (h : d.Coherent) (name : Name) (type : DirentType) (uuid fresh : Uuid) :
    dirnodeAdd d name type uuid fresh =
      if (d.lookup name).isSome then ((findByName d name).1, false)
      else (dirnodeAddDirentry d (newDirEntry uuid type name) fresh, true) := by
  have hres := findByName_result h name
  obtain ⟨last, hframe⟩ := findByName_frame d name
  unfold dirnodeAdd
  generalize findByName d name = r at hres hframe
  obtain ⟨d', found⟩ := r
  dsimp only at hres hframe
  subst hres hframe
  cases hfind : d.lookup name with
  | some e => simp
  | none =>
    simp only [Option.isSome_none, Bool.false_eq_true, if_false, Prod.mk.injEq, and_true]
    exact dirnodeAddDirentry_lastFailed d last _ fresh

theorem dirnodeAdd_wf (h : d.WF) (name : Name) (type : DirentType) (uuid : Uuid)
    (hfresh : fresh ∉ d.bucketList.map Bucket.uuid) :
    (dirnodeAdd d name type uuid fresh).1.WF := by
  rw [dirnodeAdd_eq h.coherent]
  split
  · exact findByName_wf h name
  next hfree =>
    exact dirnodeAddDirentry_wf h (newDirEntry_wf ..) (by simpa [newDirEntry] using hfree)
      hfresh

theorem dirnodeAddSymlink_wf (h : d.WF) (uuid : Uuid) (target : Bytes) :
    (dirnodeAddSymlink d uuid target).WF :=
  { h with
    lastFailedLookup := by simp [dirnodeAddSymlink]
    symlinkCount := by simp [dirnodeAddSymlink, h.symlinkCount] }

theorem removeSymlink_wf (h : d.WF) (uuid : Uuid) :
    (removeSymlink d uuid).1.WF := by
  unfold removeSymlink
  cases hfind : findSymlink d uuid with
  | none => exact h
  | some l =>
    have hmem : l ∈ d.symlinkList := mem_of_find?_eq_some hfind
    refine { h with symlinkCount := ?_ }
    show d.symlinkCount - 1 = (d.symlinkList.erase l).length
    rw [h.symlinkCount, length_erase_of_mem hmem]

/-! ### Rename -/

theorem clobberOverwritten_coherent (h : d.Coherent) (name : Name) :
    (clobberOverwritten d (d.lookup name)).Coherent := by
  cases hfind : d.lookup name with
  | none => exact h
  | some e => exact dirnodeDelDirentry_coherent h (Dirnode.mem_of_lookup hfind).1

theorem clobberOverwritten_wf (h : d.WF) (name : Name) :
    (clobberOverwritten d (d.lookup name)).WF := by
  cases hfind : d.lookup name with
  | none => exact h
  | some e => exact dirnodeDelDirentry_wf h (Dirnode.mem_of_lookup hfind).1

/-- Removing the overwritten entry frees its name. -/
theorem lookup_clobberOverwritten (h : d.Coherent) (newname name : Name) :
    (clobberOverwritten d (d.lookup newname)).lookup name =
      if name = newname then none else d.lookup name := by
  cases hfind : d.lookup newname with
  | none =>
    simp only [clobberOverwritten]
    split
    next heq => rw [heq, hfind]
    · rfl
  | some e =>
    obtain ⟨he, hname⟩ := Dirnode.mem_of_lookup hfind
    simp only [clobberOverwritten]
    rw [lookup_dirnodeDelDirentry h he, hname]

@[simp] theorem clobberOverwritten_bucketUuids (d : Dirnode) (o : Option DirEntry) :
    (clobberOverwritten d o).bucketList.map Bucket.uuid = d.bucketList.map Bucket.uuid := by
  cases o with
  | none => rfl
  | some e => exact dirnodeDelDirentry_bucketUuids d e

theorem clobberOverwritten_lastFailed (d : Dirnode) (last : Option Name)
    (o : Option DirEntry) (e : DirEntry) :
    dirnodeDelDirentry (clobberOverwritten { d with lastFailedLookup := last } o) e =
      dirnodeDelDirentry (clobberOverwritten d o) e := by
  cases o <;> rfl

/-- `dirnode_rename` inside one directory, without the lookup memory. -/
theorem dirnodeRenameWithin_eq (h : d.Coherent) (oldname newname : Name) (fresh : Uuid) :
    dirnodeRenameWithin d oldname newname fresh =
      match d.lookup oldname with
      | none => ((findByName d oldname).1, .notFound)
      | some e =>
        if oldname = newname then ((findByName d oldname).1, .undefined)
        else
          (dirnodeAddDirentry (dirnodeDelDirentry (clobberOverwritten d (d.lookup newname)) e)
            (renameDirEntry e newname) fresh,
            .renamed (renameDirEntry e newname) (d.lookup newname)) := by
  have hres := findByName_result h oldname
  have hwf := findByName_coherent h oldname
  obtain ⟨last, hframe⟩ := findByName_frame d oldname
  unfold dirnodeRenameWithin
  generalize findByName d oldname = r at hres hframe hwf
  obtain ⟨d', found⟩ := r
  dsimp only at hres hframe hwf
  subst hres
  cases d.lookup oldname with
  | none => rfl
  | some e =>
    dsimp only
    split
    · rfl
    · have hres' := findByName_result hwf newname
      obtain ⟨last', hframe'⟩ := findByName_frame d' newname
      generalize findByName d' newname = r' at hres' hframe'
      obtain ⟨d'', found'⟩ := r'
      dsimp only at hres' hframe'
      subst hres' hframe' hframe
      rw [show Dirnode.lookup { d with lastFailedLookup := last } newname = d.lookup newname
        from rfl]
      rw [clobberOverwritten_lastFailed { d with lastFailedLookup := last },
        clobberOverwritten_lastFailed d]

/-- The facts about the two steps of a rename inside a directory: the moved
entry can be deleted after the overwritten one, and the new name is then free. -/
theorem rename_ready (h : d.Coherent) {oldname newname : Name} (hfind : d.lookup oldname = some e)
    (hne : oldname ≠ newname) :
    e ∈ (clobberOverwritten d (d.lookup newname)).dirents ∧
      (dirnodeDelDirentry (clobberOverwritten d (d.lookup newname)) e).lookup newname = none := by
  have hwf := clobberOverwritten_coherent h newname
  have hold : (clobberOverwritten d (d.lookup newname)).lookup oldname = some e := by
    rw [lookup_clobberOverwritten h, if_neg hne, hfind]
  have hmem := (Dirnode.mem_of_lookup hold).1
  refine ⟨hmem, ?_⟩
  rw [lookup_dirnodeDelDirentry hwf hmem, lookup_clobberOverwritten h]
  simp

theorem dirnodeRenameWithin_wf (h : d.WF) (oldname newname : Name)
    (hfresh : fresh ∉ d.bucketList.map Bucket.uuid) :
    (dirnodeRenameWithin d oldname newname fresh).1.WF := by
  rw [dirnodeRenameWithin_eq h.coherent]
  cases hfind : d.lookup oldname with
  | none => exact findByName_wf h oldname
  | some e =>
    dsimp only
    split
    · exact findByName_wf h oldname
    next hne =>
      obtain ⟨hmem, hfree⟩ := rename_ready h.coherent hfind hne
      refine dirnodeAddDirentry_wf
        (dirnodeDelDirentry_wf (clobberOverwritten_wf h newname) hmem)
        (renameDirEntry_wf e newname) hfree ?_
      simpa using hfresh

/-- `dirnode_rename` between two directories, without the lookup memory. -/
theorem dirnodeRenameAcross_eq {src dst : Dirnode} (hsrc : src.Coherent) (hdst : dst.Coherent)
    (oldname newname : Name) (fresh : Uuid) :
    dirnodeRenameAcross src dst oldname newname fresh =
      match src.lookup oldname with
      | none => ((findByName src oldname).1, dst, .notFound)
      | some e =>
        let moved := moveSymlink (dirnodeDelDirentry src e)
          (dirnodeAddDirentry (clobberOverwritten dst (dst.lookup newname))
            (renameDirEntry e newname) fresh) e.linkUuid
        (moved.1, moved.2, .renamed (renameDirEntry e newname) (dst.lookup newname)) := by
  have hres := findByName_result hsrc oldname
  obtain ⟨last, hframe⟩ := findByName_frame src oldname
  unfold dirnodeRenameAcross
  generalize findByName src oldname = r at hres hframe
  obtain ⟨src', found⟩ := r
  dsimp only at hres hframe
  subst hres hframe
  cases src.lookup oldname with
  | none => rfl
  | some e =>
    have hres' := findByName_result hdst newname
    obtain ⟨last', hframe'⟩ := findByName_frame dst newname
    generalize findByName dst newname = r' at hres' hframe'
    obtain ⟨dst', found'⟩ := r'
    dsimp only at hres' hframe'
    subst hres' hframe'
    have hadd : dirnodeAddDirentry
        (clobberOverwritten { dst with lastFailedLookup := last' } (dst.lookup newname))
        (renameDirEntry e newname) fresh =
        dirnodeAddDirentry (clobberOverwritten dst (dst.lookup newname))
          (renameDirEntry e newname) fresh := by
      cases dst.lookup newname with
      | none => exact dirnodeAddDirentry_lastFailed dst last' _ fresh
      | some o => rfl
    dsimp only
    rw [hadd]
    rfl

end Nexus
