import Nexus.Dirnode.Store

/-!
# A stored dirnode loads back

The round trip is proved section by section of the main object, each in the
shape of `Codec`: parsing the section in front of any rest gives the section's
value and the rest.  `dirnodeFromBuffer_serialize` chains the sections, and
`dirnodeLoad_store` adds the separately stored buckets.

Two parts of a dirnode do not survive in general: a symlink record whose length
does not fit its one-byte `total_len`, and an attribute value with the tail of
an older value behind it.  `Dirnode.Storable` rules them out and bounds the
counters by the widths they are written in.
-/

namespace Nexus

open Codec List Bucket

/-! ## Directory entries -/

variable {e : DirEntry} {b : Bucket}

theorem dirRecHdr_length (e : DirEntry) :
    (le 2 e.recLen ++ le 4 e.type.code ++ le 16 e.linkUuid.toNat ++ le 2 e.nameLen).length
      = dirRecHdrSize := by
  simp [dirRecHdrSize]

/-- A well-formed entry is written as its header and its terminated name. -/
theorem serializeDirEntry_eq (h : e.WF) :
    serializeDirEntry e =
      le 2 e.recLen ++ le 4 e.type.code ++ le 16 e.linkUuid.toNat ++ le 2 e.nameLen ++
        (e.name.bytes ++ [0]) := by
  have hname := e.name.fits
  have hpad : (padTo 256 e.name.bytes).take (e.name.bytes.length + 1) = e.name.bytes ++ [0] := by
    obtain ⟨k, hk⟩ : ∃ k, 256 - e.name.bytes.length = k + 1 := ⟨255 - e.name.bytes.length, by omega⟩
    rw [padTo, hk, replicate_succ, take_append,
      take_of_length_le (Nat.le_succ _), Nat.add_sub_cancel_left, take_succ_cons,
      take_zero]
  rw [serializeDirEntry, take_append, dirRecHdr_length,
    take_of_length_le (by rw [dirRecHdr_length, h.recLen]; omega)]
  congr 1
  rw [← hpad, h.recLen]
  congr 1
  omega

theorem length_serializeDirEntry (h : e.WF) :
    (serializeDirEntry e).length = e.recLen := by
  rw [serializeDirEntry_eq h, length_append, dirRecHdr_length, h.recLen]
  simp [Nat.add_assoc]

theorem ofCode?_code (t : DirentType) : DirentType.ofCode? t.code = some t := by
  cases t <;> rfl

theorem code_lt (t : DirentType) : t.code < 256 ^ 4 := by
  cases t <;> norm_num [DirentType.code]

theorem DirEntry.WF.recLen_le (h : e.WF) : e.recLen ≤ dirRecSize := by
  have hname := e.name.fits
  have hrec := h.recLen
  unfold dirRecSize
  omega

theorem Name.ofBytes?_bytes (name : Name) : Name.ofBytes? name.bytes = some name := by
  rw [Name.ofBytes?, dif_pos ⟨name.fits, name.noNul⟩]

theorem parseDirEntry_append (h : e.WF) (rest : Bytes) :
    parseDirEntry (serializeDirEntry e ++ rest) = some (e, rest) := by
  have hrec : e.recLen < 256 ^ 2 := by
    have hle := h.recLen_le
    unfold dirRecSize dirRecHdrSize at hle
    omega
  have hname : e.nameLen < 256 ^ 2 := by
    have := e.name.fits
    rw [h.nameLen]
    omega
  have hrange : dirRecHdrSize ≤ e.recLen ∧ e.recLen ≤ dirRecSize :=
    ⟨by rw [h.recLen]; omega, h.recLen_le⟩
  have hbuf : (e.name.bytes ++ [0]).length = e.recLen - dirRecHdrSize := by
    rw [h.recLen, length_append, length_singleton]
    omega
  rw [serializeDirEntry_eq h]
  simp only [parseDirEntry, append_assoc, nat_append_of_lt hrec,
    nat_append_of_lt (code_lt e.type), nat_append_sixteen, nat_append_of_lt hname,
    Option.bind_eq_bind, Option.bind_some, ofCode?_code, if_pos hrange]
  rw [← append_assoc, bytes_append_of_length hbuf]
  simp only [Option.bind_some]
  rw [cstring_append_zero e.name.noNul, Name.ofBytes?_bytes]
  simp

theorem length_flatMap_serializeDirEntry {es : List DirEntry} (h : ∀ e ∈ es, e.WF) :
    (es.flatMap serializeDirEntry).length = recLenSum es := by
  rw [length_flatMap, recLenSum,
    map_congr_left fun e he => length_serializeDirEntry (h e he)]

theorem bucketLoadFromBuffer_append {es : List DirEntry} (hnum : b.numItems = es.length)
    (hes : ∀ e ∈ es, e.WF) (rest : Bytes) :
    bucketLoadFromBuffer b (es.flatMap serializeDirEntry ++ rest)
      = some { b with dirEntries := es } := by
  have hmany : many parseDirEntry es.length (es.flatMap serializeDirEntry ++ rest)
      = some (es.map id, rest) :=
    many_flatMap es rest fun e he => parseDirEntry_append (hes e he)
  rw [map_id] at hmany
  simp [bucketLoadFromBuffer, hnum, hmany]

/-! ## Symlink records -/

/-- The longest target whose record length fits one byte. -/
def symlinkTargetMax : Nat := 235

/-- The record is one `__dirnode_add_symlink` builds from a short target. -/
def SymlinkEntry.Sound (l : SymlinkEntry) : Prop :=
  ∃ target, (0 : UInt8) ∉ target ∧ target.length ≤ symlinkTargetMax ∧
    l = newSymlinkEntry l.uuid target

theorem newSymlinkEntry_totalLen {target : Bytes} (h : target.length ≤ symlinkTargetMax)
    (uuid : Uuid) : (newSymlinkEntry uuid target).totalLen.toNat = symlinkTotalLen target := by
  rw [symlinkTargetMax] at h
  simp only [newSymlinkEntry, symlinkTotalLen, symlinkHdrSize, BitVec.toNat_ofNat]
  omega

theorem serializeSymlink_newSymlinkEntry {target : Bytes}
    (h : target.length ≤ symlinkTargetMax) (uuid : Uuid) :
    serializeSymlink (newSymlinkEntry uuid target) =
      le 1 (symlinkTotalLen target) ++ le 16 uuid.toNat ++
        le 2 (BitVec.ofNat 16 target.length).toNat ++ (target ++ [0]) := by
  rw [serializeSymlink, newSymlinkEntry_totalLen h]
  apply take_of_length_le
  simp only [newSymlinkEntry, symlinkTotalLen, symlinkHdrSize, length_append, length_le,
    length_singleton]
  omega

theorem length_serializeSymlink {l : SymlinkEntry} (h : l.Sound) :
    (serializeSymlink l).length = l.totalLen.toNat := by
  obtain ⟨target, -, hlen, heq⟩ := h
  rw [heq, serializeSymlink_newSymlinkEntry hlen, newSymlinkEntry_totalLen hlen]
  simp only [symlinkTotalLen, symlinkHdrSize, length_append, length_le,
    length_singleton]
  omega

theorem parseSymlink_append {l : SymlinkEntry} (h : l.Sound) (rest : Bytes) :
    parseSymlink (serializeSymlink l ++ rest) = some (l, rest) := by
  obtain ⟨target, -, hlen, heq⟩ := h
  have hlt : symlinkTotalLen target < 256 ^ 1 := by
    rw [symlinkTargetMax] at hlen
    rw [symlinkTotalLen, symlinkHdrSize]
    omega
  have hhdr : symlinkHdrSize ≤ symlinkTotalLen target := by
    rw [symlinkTotalLen]
    omega
  have hpath : (target ++ [0]).length = symlinkTotalLen target - symlinkHdrSize := by
    rw [symlinkTotalLen, length_append, length_singleton]
    omega
  rw [heq, serializeSymlink_newSymlinkEntry hlen]
  simp only [parseSymlink, append_assoc, nat_append_of_lt hlt, nat_append_sixteen,
    nat_append_two, Option.bind_eq_bind, Option.bind_some, if_pos hhdr]
  rw [← append_assoc, bytes_append_of_length hpath]
  simp only [newSymlinkEntry, Option.bind_some, BitVec.ofNat_toNat, BitVec.setWidth_eq]

/-- The bytes the records of a list take. -/
def symlinkLenSum (ls : List SymlinkEntry) : Nat := (ls.map fun l => l.totalLen.toNat).sum

theorem length_flatMap_serializeSymlink {ls : List SymlinkEntry} (h : ∀ l ∈ ls, l.Sound) :
    (ls.flatMap serializeSymlink).length = symlinkLenSum ls := by
  rw [length_flatMap, symlinkLenSum,
    map_congr_left fun l hl => length_serializeSymlink (h l hl)]

/-! ## Buckets -/

/-- A bucket as its record describes it, before its entries are loaded. -/
def Bucket.asRecord (b : Bucket) : Bucket :=
  { b with isDirty := false, onDisk := false, dirEntries := [] }

/-- A bucket right after it is loaded. -/
def Bucket.asLoaded (onDisk : Bool) (b : Bucket) : Bucket :=
  { b with isDirty := false, onDisk := onDisk }

theorem bucketFromRecord_append (hnum : b.numItems < 256 ^ 4) (hsize : b.sizeBytes < 256 ^ 4)
    (rest : Bytes) :
    bucketFromRecord (bucketToRecord b ++ rest) = some (b.asRecord, rest) := by
  simp [bucketFromRecord, bucketToRecord, nat_append_of_lt hnum, nat_append_of_lt hsize,
    asRecord]

theorem recLenSum_le {es : List DirEntry} (h : ∀ e ∈ es, e.WF) :
    recLenSum es ≤ dirRecSize * es.length := by
  induction es with
  | nil => simp
  | cons e es ih =>
    have hhead := (h e (by simp)).recLen_le
    have htail := ih fun e he => h e (by simp [he])
    rw [recLenSum_cons, length_cons, Nat.mul_succ]
    omega

theorem Bucket.WF.sizes_fit (h : b.WF) (hes : ∀ e ∈ b.dirEntries, e.WF) :
    b.numItems < 256 ^ 4 ∧ b.sizeBytes < 256 ^ 4 := by
  have hcap := h.capacity
  have hnum := h.numItems
  have hsize := h.sizeBytes
  have hsum := recLenSum_le hes
  unfold bucketCapacity at hcap
  unfold dirRecSize dirRecHdrSize at hsum
  omega

/-- The object a bucket is stored as. -/
def bucketObject (b : Bucket) : Bytes × Mac := (padTo b.sizeBytes (bucketSerialize b), b.mac)

variable {store : BucketStore} {bs : List Bucket}

theorem loadOtherBuckets_records (hwf : ∀ b ∈ bs, b.WF) (hes : ∀ b ∈ bs, ∀ e ∈ b.dirEntries, e.WF)
    (hstore : ∀ b ∈ bs, store b.uuid = some (bucketObject b)) :
    loadOtherBuckets store (bs.map Bucket.asRecord) = some (bs.map (Bucket.asLoaded true)) := by
  induction bs with
  | nil => rfl
  | cons b bs ih =>
    have hload : bucketLoadFromBuffer b.asRecord (padTo b.sizeBytes (bucketSerialize b))
        = some { b.asRecord with dirEntries := b.dirEntries } :=
      bucketLoadFromBuffer_append (b := b.asRecord) (hwf b (by simp)).numItems
        (hes b (by simp)) _
    have hrest := ih (fun c hc => hwf c (by simp [hc])) (fun c hc => hes c (by simp [hc]))
      (fun c hc => hstore c (by simp [hc]))
    have hobj : store b.asRecord.uuid
        = some (padTo b.sizeBytes (bucketSerialize b), b.asRecord.mac) := hstore b (by simp)
    simp only [map_cons, loadOtherBuckets, hobj, hload, hrest, Option.bind_eq_bind,
      Option.bind_some, if_true]
    rfl

/-! ## The main object -/

/-- Every part of the dirnode survives being written. -/
structure Dirnode.Sound (d : Dirnode) : Prop where
  wf : d.WF
  symlinks : ∀ l ∈ d.symlinkList, l.Sound
  symlinkBuflen : d.symlinkBuflen = symlinkLenSum d.symlinkList
  symlinkFits : d.symlinkBuflen < 2 ^ 32
  attributes : d.attributeTable.Canonical

/-- The dirnode can be written without losing anything: it also has no more
buckets than its 16-bit bucket count can say. -/
structure Dirnode.Storable (d : Dirnode) : Prop extends Dirnode.Sound d where
  bucketCount : d.bucketCount ≤ 65535

variable {d : Dirnode}

theorem Dirnode.WF.bucket_entries_wf (h : d.WF) (hb : b ∈ d.bucketList) :
    ∀ e ∈ b.dirEntries, e.WF := by
  intro e he
  have hmem : e ∈ bucketEntries d.bucketList := mem_flatMap.mpr ⟨b, hb, he⟩
  exact h.entries e (h.direntsPerm.mem_iff.mpr hmem)

theorem length_bucketEntries_le (h : ∀ b ∈ bs, b.WF) :
    (bucketEntries bs).length ≤ bucketCapacity * bs.length := by
  induction bs with
  | nil => simp [bucketEntries]
  | cons b bs ih =>
    have hhead := h b (by simp)
    have hnum := hhead.numItems
    have hcap := hhead.capacity
    have htail := ih fun c hc => h c (by simp [hc])
    rw [bucketEntries_cons, length_append, length_cons, Nat.mul_succ]
    omega

theorem Dirnode.Storable.counters_fit (h : d.Storable) :
    d.dirEntryCount < 256 ^ 4 ∧ d.dirEntryBuflen < 256 ^ 4 := by
  have hbuckets := h.bucketCount
  have hcount := h.wf.bucketCount
  have hlen := h.wf.direntsPerm.length_eq
  have hentries := length_bucketEntries_le h.wf.buckets
  have hsum := recLenSum_le h.wf.entries
  have hec := h.wf.dirEntryCount
  have heb := h.wf.dirEntryBuflen
  unfold bucketCapacity at hentries
  unfold dirRecSize dirRecHdrSize at hsum
  omega

theorem length_le_symlinkLenSum {ls : List SymlinkEntry} (h : ∀ l ∈ ls, l.Sound) :
    ls.length ≤ symlinkLenSum ls := by
  induction ls with
  | nil => simp
  | cons l ls ih =>
    obtain ⟨target, -, hlen, heq⟩ := h l (by simp)
    have hl : 1 ≤ l.totalLen.toNat := by
      rw [heq, newSymlinkEntry_totalLen hlen, symlinkTotalLen]
      omega
    have htail := ih fun l hl => h l (by simp [hl])
    simp only [symlinkLenSum, map_cons, sum_cons, length_cons] at htail ⊢
    omega

theorem length_bucketToRecord (b : Bucket) : (bucketToRecord b).length = bucketRecSize := by
  simp only [bucketToRecord, length_append, length_le, bucketRecSize]

theorem length_dirnodeSerialize (h : d.Storable) :
    (dirnodeSerialize d).length = getBucket0Size d := by
  have hrecords : (d.bucketList.flatMap bucketToRecord).length
      = bucketRecSize * d.bucketCount := by
    rw [length_flatMap, map_congr_left fun b _ => length_bucketToRecord b,
      h.wf.bucketCount]
    simp [Nat.mul_comm]
  have hbucket0 : ((d.bucketList.take 1).flatMap bucketSerialize).length
      = ((d.bucketList.take 1).map sizeBytes).sum := by
    rw [length_flatMap]
    congr 1
    refine map_congr_left fun b hb => ?_
    have hmem := mem_of_mem_take hb
    rw [bucketSerialize, length_flatMap_serializeDirEntry (h.wf.bucket_entries_wf hmem),
      (h.wf.buckets b hmem).sizeBytes]
  have hlinks := length_flatMap_serializeSymlink h.symlinks
  simp only [dirnodeSerialize, serializeDirnodeHeader, length_append, length_le,
    hlinks, hrecords, hbucket0, length_attributeTableBytes h.wf.attributeTable, getBucket0Size,
    dirnodeHdrSize, h.symlinkBuflen]

/-- The header of a dirnode. -/
def Dirnode.header (d : Dirnode) : DirnodeHdr where
  myUuid := d.myUuid
  rootUuid := d.rootUuid
  symlinkCount := d.symlinkCount
  symlinkBuflen := d.symlinkBuflen
  dirEntryCount := d.dirEntryCount
  dirEntryBuflen := d.dirEntryBuflen
  bucketCount := d.bucketCount

theorem parseDirnodeHeader_append (h : d.Storable) (rest : Bytes) :
    parseDirnodeHeader (serializeDirnodeHeader d ++ rest) = some (d.header, rest) := by
  obtain ⟨hec, heb⟩ := h.counters_fit
  have hsc : d.symlinkCount < 256 ^ 4 := by
    have hle := length_le_symlinkLenSum h.symlinks
    have heq := h.symlinkBuflen
    have hfits := h.symlinkFits
    have hcount := h.wf.symlinkCount
    omega
  have hsb : d.symlinkBuflen < 256 ^ 4 := lt_of_lt_of_eq h.symlinkFits (by norm_num)
  have hbc : d.bucketCount < 256 ^ 2 := by
    have hle := h.bucketCount
    omega
  simp [parseDirnodeHeader, serializeDirnodeHeader, nat_append_of_lt hsc, nat_append_of_lt hsb,
    nat_append_of_lt hec, nat_append_of_lt heb, nat_append_of_lt hbc, Dirnode.header]

/-- The buckets of a list after a load. -/
def bucketsAsLoaded (bs : List Bucket) : List Bucket :=
  (bs.take 1).map (Bucket.asLoaded false) ++ (bs.drop 1).map (Bucket.asLoaded true)

theorem bucketEntries_bucketsAsLoaded (bs : List Bucket) :
    bucketEntries (bucketsAsLoaded bs) = bucketEntries bs := by
  have hmap (onDisk : Bool) (cs : List Bucket) :
      bucketEntries (cs.map (asLoaded onDisk)) = bucketEntries cs := by
    rw [bucketEntries, flatMap_map]
    rfl
  rw [bucketsAsLoaded, bucketEntries_append, hmap, hmap, ← bucketEntries_append,
    take_append_drop]

theorem loadBuckets_append (hne : bs ≠ []) (hwf : ∀ b ∈ bs, b.WF)
    (hes : ∀ b ∈ bs, ∀ e ∈ b.dirEntries, e.WF)
    (hstore : ∀ b ∈ bs.drop 1, store b.uuid = some (bucketObject b)) (rest : Bytes) :
    loadBuckets store ((bs.take 1).flatMap bucketSerialize ++ rest) (bs.map Bucket.asRecord)
      = some (bucketsAsLoaded bs) := by
  obtain ⟨b, cs, rfl⟩ := exists_cons_of_ne_nil hne
  have hb0 : bucketLoadFromBuffer b.asRecord (bucketSerialize b ++ rest)
      = some { b.asRecord with dirEntries := b.dirEntries } :=
    bucketLoadFromBuffer_append (b := b.asRecord) (hwf b (by simp)).numItems
      (hes b (by simp)) rest
  have hothers : loadOtherBuckets store (cs.map asRecord)
      = some (cs.map (asLoaded true)) :=
    loadOtherBuckets_records (fun c hc => hwf c (by simp [hc]))
      (fun c hc => hes c (by simp [hc])) hstore
  have hfirst : ((b :: cs).take 1).flatMap bucketSerialize = bucketSerialize b := by simp
  rw [hfirst, map_cons, loadBuckets, hb0, Option.bind_eq_bind, Option.bind_some, hothers]
  rfl

/-- The dirnode as a load shows it: entries are listed bucket by bucket, and
nothing is dirty. -/
def Dirnode.reloaded (d : Dirnode) : Dirnode :=
  { d with
    lastFailedLookup := none
    dirents := bucketEntries d.bucketList
    bucketList := bucketsAsLoaded d.bucketList }

/-- Parsing the main object of a dirnode: all that can go wrong is a bucket. -/
theorem dirnodeFromBuffer_append (h : d.Storable) (store : BucketStore) (rest : Bytes) :
    dirnodeFromBuffer store (dirnodeSerialize d ++ rest) =
      (loadBuckets store ((d.bucketList.take 1).flatMap bucketSerialize ++ rest)
        (d.bucketList.map Bucket.asRecord)).map fun bucketList =>
          { d with lastFailedLookup := none, dirents := bucketEntries bucketList, bucketList } := by
  have hlinks (rest : Bytes) : many parseSymlink d.header.symlinkCount
      (d.symlinkList.flatMap serializeSymlink ++ rest) = some (d.symlinkList.map id, rest) := by
    rw [show d.header.symlinkCount = d.symlinkList.length from h.wf.symlinkCount]
    exact many_flatMap _ _ fun l hl => parseSymlink_append (h.symlinks l hl)
  have hrecords (rest : Bytes) : many bucketFromRecord d.header.bucketCount
      (d.bucketList.flatMap bucketToRecord ++ rest)
      = some (d.bucketList.map asRecord, rest) := by
    rw [show d.header.bucketCount = d.bucketList.length from h.wf.bucketCount]
    refine many_flatMap _ _ fun b hb => ?_
    obtain ⟨hnum, hsize⟩ := (h.wf.buckets b hb).sizes_fit (h.wf.bucket_entries_wf hb)
    exact bucketFromRecord_append hnum hsize
  have hattr (rest : Bytes) : attributeTableFromBuffer
      (attributeTableBytes d.attributeTable ++ rest) = some (d.attributeTable, rest) := by
    rw [attributeTableFromBuffer_append h.wf.attributeTable,
      AttributeTable.reloaded_eq h.attributes]
  simp only [dirnodeFromBuffer, dirnodeSerialize, append_assoc, Option.bind_eq_bind]
  rw [parseDirnodeHeader_append h, Option.bind_some]
  dsimp only
  rw [hlinks, Option.bind_some]
  dsimp only
  rw [hrecords, Option.bind_some]
  dsimp only
  rw [hattr, Option.bind_some, map_id]
  cases loadBuckets store ((d.bucketList.take 1).flatMap bucketSerialize ++ rest)
    (d.bucketList.map asRecord) with
  | none => rfl
  | some bucketList => rfl

/-- Parsing the main object of a dirnode whose buckets are in the store. -/
theorem dirnodeFromBuffer_serialize (h : d.Storable)
    (hstore : ∀ b ∈ d.bucketList.drop 1, store b.uuid = some (bucketObject b)) (rest : Bytes) :
    dirnodeFromBuffer store (dirnodeSerialize d ++ rest) = some d.reloaded := by
  rw [dirnodeFromBuffer_append h, loadBuckets_append h.wf.hasBucket h.wf.buckets
    (fun b hb => h.wf.bucket_entries_wf hb) hstore rest, Option.map_some,
    bucketEntries_bucketsAsLoaded]
  rfl

/-! ## Storing

Storing a dirnode rewrites the flags and macs of its buckets and drops empty
buckets.  What a bucket holds is its `content`. -/

/-- The bucket without its flags and mac. -/
def Bucket.content (b : Bucket) : Bucket :=
  { b with isDirty := false, onDisk := false, mac := 0 }

variable {cs : List Bucket}

section

variable (h : cs.map Bucket.content = bs.map Bucket.content)
include h

theorem map_uuid_of_content : cs.map Bucket.uuid = bs.map Bucket.uuid := by
  have huuids := congrArg (List.map uuid) h
  rw [map_map, map_map] at huuids
  exact huuids

theorem length_of_content : cs.length = bs.length := by
  simpa using congrArg List.length h

theorem bucketEntries_of_content : bucketEntries cs = bucketEntries bs := by
  have hcontent (l : List Bucket) : bucketEntries (l.map content) = bucketEntries l := by
    rw [bucketEntries, flatMap_map]
    rfl
  rw [← hcontent, h, hcontent]

theorem buckets_wf_of_content (hwf : ∀ b ∈ bs, b.WF) : ∀ b ∈ cs, b.WF := by
  intro b hb
  have hmem : b.content ∈ bs.map content := h ▸ mem_map_of_mem hb
  obtain ⟨c, hc, heq⟩ := mem_map.mp hmem
  have hcwf := hwf c hc
  have hcontent : c.content.WF := ⟨hcwf.numItems, hcwf.capacity, hcwf.sizeBytes⟩
  rw [heq] at hcontent
  exact ⟨hcontent.numItems, hcontent.capacity, hcontent.sizeBytes⟩

end

theorem Dirnode.Coherent.of_content (h : d.Coherent)
    (hbs : bs.map Bucket.content = d.bucketList.map Bucket.content) :
    Dirnode.Coherent { d with bucketList := bs } :=
  { h with
    bucketCount := by
      rw [h.bucketCount]
      exact (length_of_content hbs).symm
    hasBucket := by
      intro hnil
      have hlen := length_of_content hbs
      rw [show bs = [] from hnil] at hlen
      exact h.hasBucket (eq_nil_of_length_eq_zero hlen.symm)
    buckets := buckets_wf_of_content hbs h.buckets
    direntsPerm := by
      show d.dirents.Perm (bucketEntries bs)
      rw [bucketEntries_of_content hbs]
      exact h.direntsPerm }

theorem Dirnode.Storable.of_content (h : d.Storable)
    (hbs : bs.map Bucket.content = d.bucketList.map Bucket.content) :
    Dirnode.Storable { d with bucketList := bs } where
  wf := { h.wf.coherent.of_content hbs with
    bucketUuids := by
      show (bs.map uuid).Nodup
      rw [map_uuid_of_content hbs]
      exact h.wf.bucketUuids
    symlinkCount := h.wf.symlinkCount
    attributeTable := h.wf.attributeTable }
  symlinks := h.symlinks
  symlinkBuflen := h.symlinkBuflen
  symlinkFits := h.symlinkFits
  attributes := h.attributes
  bucketCount := h.bucketCount

/-! ### Empty buckets -/

theorem deleteEmptyBuckets_bucketEntries (h : ∀ b ∈ bs, b.WF) :
    bucketEntries (bs.filter fun b => !b.isDeletable) = bucketEntries bs := by
  induction bs with
  | nil => rfl
  | cons b bs ih =>
    have htail := ih fun c hc => h c (by simp [hc])
    by_cases hdel : b.isDeletable = true
    · have hnum := (h b (by simp)).numItems
      have hempty : b.dirEntries = [] := by
        simp only [isDeletable, Bool.and_eq_true, beq_iff_eq] at hdel
        rw [hdel.2] at hnum
        exact eq_nil_of_length_eq_zero hnum.symm
      rw [filter_cons_of_neg (by simp [hdel]), bucketEntries_cons, hempty, htail,
        nil_append]
    · rw [filter_cons_of_pos (by simp [hdel]), bucketEntries_cons, bucketEntries_cons, htail]

theorem deleteEmptyBuckets_sublist (d : Dirnode) :
    (deleteEmptyBuckets d).bucketList.Sublist d.bucketList := by
  have hsub : ((d.bucketList.drop 1).filter fun b => !b.isDeletable).Sublist
      (d.bucketList.drop 1) := filter_sublist
  have := List.Sublist.append_left hsub (d.bucketList.take 1)
  rwa [take_append_drop] at this

theorem deleteEmptyBuckets_coherent (h : d.Coherent) :
    (deleteEmptyBuckets d).Coherent := by
  have hsub := deleteEmptyBuckets_sublist d
  have hcount : (deleteEmptyBuckets d).bucketCount
      = (deleteEmptyBuckets d).bucketList.length := by
    have hle := hsub.length_le
    have hd := h.bucketCount
    show d.bucketCount - (d.bucketList.length - (deleteEmptyBuckets d).bucketList.length) = _
    omega
  refine { h with
    bucketCount := hcount
    hasBucket := ?_
    buckets := fun b hb => h.buckets b (hsub.subset hb)
    direntsPerm := ?_ }
  · obtain ⟨b, bs, hbs⟩ := exists_cons_of_ne_nil h.hasBucket
    simp [deleteEmptyBuckets, hbs]
  · have hwf : ∀ b ∈ d.bucketList.drop 1, b.WF :=
      fun b hb => h.buckets b (mem_of_mem_drop hb)
    show d.dirents.Perm (bucketEntries (d.bucketList.take 1 ++ _))
    rw [bucketEntries_append, deleteEmptyBuckets_bucketEntries hwf, ← bucketEntries_append,
      take_append_drop]
    exact h.direntsPerm

theorem deleteEmptyBuckets_storable (h : d.Storable) :
    (deleteEmptyBuckets d).Storable := by
  refine { h with wf := ?_, bucketCount := ?_ }
  · exact { deleteEmptyBuckets_coherent h.wf.coherent with
      bucketUuids := h.wf.bucketUuids.sublist ((deleteEmptyBuckets_sublist d).map _)
      symlinkCount := h.wf.symlinkCount
      attributeTable := h.wf.attributeTable }
  · have hle : (deleteEmptyBuckets d).bucketCount ≤ d.bucketCount := Nat.sub_le ..
    exact hle.trans h.bucketCount

/-! ### The other buckets -/

/-- The objects of the clean buckets are in the store. -/
def BucketsSynced (store : BucketStore) (bs : List Bucket) : Prop :=
  ∀ b ∈ bs, b.isDirty = false → store b.uuid = some (bucketObject b)

theorem storeOtherBuckets_content (o : StoreOutcome) (bs : List Bucket) (store : BucketStore) :
    (storeOtherBuckets o bs store).1.map Bucket.content = bs.map Bucket.content := by
  fun_induction storeOtherBuckets o bs store with
  | case1 | case3 => rfl
  | case2 b bs store hclean r ih => exact congrArg (b.content :: ·) ih
  | case4 b bs store hdirty hstored mac r ih => exact congrArg (b.content :: ·) ih

theorem storeOtherBuckets_ok {o : StoreOutcome} (h : ∀ uuid, o.bucketStore uuid = true)
    (bs : List Bucket) (store : BucketStore) : (storeOtherBuckets o bs store).2.2 = true := by
  fun_induction storeOtherBuckets o bs store with
  | case1 => rfl
  | case3 b bs store hdirty hfails => simp [h] at hfails
  | case2 _ _ _ _ _ ih | case4 _ _ _ _ _ _ _ ih => exact ih

theorem storeOtherBuckets_frame (o : StoreOutcome) (bs : List Bucket) (store : BucketStore)
    {uuid : Uuid} (h : uuid ∉ bs.map Bucket.uuid) :
    (storeOtherBuckets o bs store).2.1 uuid = store uuid := by
  fun_induction storeOtherBuckets o bs store with
  | case1 | case3 => rfl
  | case2 b bs store hclean r ih => exact ih (not_mem_of_not_mem_cons h)
  | case4 b bs store hdirty hstored mac r ih =>
    exact (ih (not_mem_of_not_mem_cons h)).trans
      (Function.update_of_ne (ne_of_not_mem_cons h) ..)

theorem storeOtherBuckets_synced {o : StoreOutcome} (hnodup : (bs.map Bucket.uuid).Nodup)
    (hsync : BucketsSynced store bs) (hok : (storeOtherBuckets o bs store).2.2 = true) :
    ∀ b ∈ (storeOtherBuckets o bs store).1, b.isDirty = false ∧
      (storeOtherBuckets o bs store).2.1 b.uuid = some (bucketObject b) := by
  fun_induction storeOtherBuckets o bs store with
  | case1 => simp
  | case2 b bs store hclean r ih =>
    obtain ⟨hnew, hnodup⟩ := nodup_cons.mp hnodup
    intro c hc
    rcases mem_cons.mp hc with rfl | hc
    · have hclean : c.isDirty = false := by simpa using hclean
      exact ⟨hclean, (storeOtherBuckets_frame o bs store hnew).trans (hsync c (by simp) hclean)⟩
    · exact ih hnodup (fun c hc => hsync c (by simp [hc])) hok c hc
  | case3 => simp at hok
  | case4 b bs store hdirty hstored mac r ih =>
    obtain ⟨hnew, hnodup⟩ := nodup_cons.mp hnodup
    intro c hc
    rcases mem_cons.mp hc with rfl | hc
    · exact ⟨rfl, (storeOtherBuckets_frame o bs _ hnew).trans (Function.update_self ..)⟩
    · refine ih hnodup ?_ hok c hc
      intro c hc hclean
      have hne : c.uuid ≠ b.uuid := fun heq => hnew (heq ▸ mem_map_of_mem hc)
      rw [Function.update_of_ne hne]
      exact hsync c (by simp [hc]) hclean

/-! ### The whole store -/

theorem deleteEmptyObjects_synced (o : StoreOutcome) (hnodup : (d.bucketList.map Bucket.uuid).Nodup)
    (hsync : BucketsSynced store (d.bucketList.drop 1)) :
    BucketsSynced (deleteEmptyObjects o d store) ((deleteEmptyBuckets d).bucketList.drop 1) := by
  have hdrop : (deleteEmptyBuckets d).bucketList.drop 1
      ⊆ (d.bucketList.drop 1).filter fun b => !b.isDeletable := by
    cases hbs : d.bucketList with
    | nil | cons b bs => simp [deleteEmptyBuckets, hbs]
  intro b hb hclean
  obtain ⟨hmem, hkept⟩ := mem_filter.mp (hdrop hb)
  -- no deleted bucket has the uuid of a kept one
  have hnot : ¬ ((d.bucketList.drop 1).any fun c => c.isDeletable && c.uuid == b.uuid) = true := by
    intro hany
    obtain ⟨c, hc, hdel⟩ := any_eq_true.mp hany
    simp only [Bool.and_eq_true, beq_iff_eq] at hdel
    have hsame : c = b := inj_on_of_nodup_map hnodup (mem_of_mem_drop hc)
      (mem_of_mem_drop hmem) hdel.2
    rw [hsame] at hdel
    simp [hdel.1] at hkept
  rw [deleteEmptyObjects, if_neg fun hand => hnot (Bool.and_eq_true_iff.mp hand).1]
  exact hsync b hmem hclean

/-- A dirnode all of whose buckets are clean and in the store. -/
structure CleanOnDisk (d : Dirnode) (store : BucketStore) : Prop where
  clean : ∀ b ∈ d.bucketList, b.isDirty = false
  stored : ∀ b ∈ d.bucketList.drop 1, store b.uuid = some (bucketObject b)

theorem exportMacversion_storable (h : d.Storable) (mv : MacAndVersion) :
    Dirnode.Storable { d with attributeTable := exportMacversion mv d.attributeTable } :=
  { h with
    wf := { h.wf with
      attributeTable :=
        { count := h.wf.attributeTable.count
          countFits := h.wf.attributeTable.countFits
          entries := h.wf.attributeTable.entries
          unique := h.wf.attributeTable.unique } }
    attributes := h.attributes }

/-- What `dirnode_store` leaves in memory, up to the flags and macs of the
buckets. -/
theorem dirnodeStore_memory (o : StoreOutcome) (d : Dirnode) (s : StoredDirnode) :
    ∃ table bs, (dirnodeStore o d s).1 =
        { deleteEmptyBuckets d with attributeTable := table, bucketList := bs } ∧
      bs.map Bucket.content = (deleteEmptyBuckets d).bucketList.map Bucket.content ∧
      (table = d.attributeTable ∨ ∃ mv, table = exportMacversion mv d.attributeTable) := by
  unfold dirnodeStore
  cases o.macversion with
  | none =>
    exact ⟨d.attributeTable, (deleteEmptyBuckets d).bucketList, rfl, rfl, .inl rfl⟩
  | some mv =>
    have hcontent (store : BucketStore) :
        ((((deleteEmptyBuckets d).bucketList.take 1).map
            fun b : Bucket => { b with isDirty := false }) ++
          (storeOtherBuckets o ((deleteEmptyBuckets d).bucketList.drop 1) store).1).map
            content = (deleteEmptyBuckets d).bucketList.map content := by
      rw [map_append, storeOtherBuckets_content, map_map]
      conv_rhs => rw [← take_append_drop 1 (deleteEmptyBuckets d).bucketList]
      rw [map_append]
      rfl
    dsimp only
    split
    · exact ⟨_, _, rfl, hcontent _, .inr ⟨mv, rfl⟩⟩
    split
    · exact ⟨_, _, rfl, hcontent _, .inr ⟨mv, rfl⟩⟩
    · exact ⟨_, _, rfl, hcontent _, .inr ⟨mv, rfl⟩⟩

theorem dirnodeStore_coherent (h : d.Coherent) (o : StoreOutcome) (s : StoredDirnode) :
    (dirnodeStore o d s).1.Coherent := by
  obtain ⟨table, bs, heq, hcontent, -⟩ := dirnodeStore_memory o d s
  rw [heq]
  exact { (deleteEmptyBuckets_coherent h).of_content hcontent with }

theorem dirnodeStore_storable (h : d.Storable) (o : StoreOutcome) (s : StoredDirnode) :
    (dirnodeStore o d s).1.Storable := by
  obtain ⟨table, bs, heq, hcontent, htable⟩ := dirnodeStore_memory o d s
  have hdel := deleteEmptyBuckets_storable h
  rw [heq]
  rcases htable with rfl | ⟨mv, rfl⟩
  · exact hdel.of_content hcontent
  · exact (exportMacversion_storable hdel mv).of_content hcontent

/-- A successful store writes the dirnode it leaves in memory, and all of its
buckets are then clean and stored. -/
theorem dirnodeStore_ok (h : d.Storable) {o : StoreOutcome} {s : StoredDirnode}
    (hsync : BucketsSynced s.buckets (d.bucketList.drop 1))
    (hok : (dirnodeStore o d s).2.2 = true) :
    (dirnodeStore o d s).2.1.main
        = padTo (getBucket0Size (dirnodeStore o d s).1) (dirnodeSerialize (dirnodeStore o d s).1) ∧
      CleanOnDisk (dirnodeStore o d s).1 (dirnodeStore o d s).2.1.buckets := by
  have hdel := deleteEmptyBuckets_storable h
  have hsync' := deleteEmptyObjects_synced o h.wf.bucketUuids hsync
  have hnodup : (((deleteEmptyBuckets d).bucketList.drop 1).map uuid).Nodup := by
    rw [map_drop]
    exact hdel.wf.bucketUuids.sublist (drop_sublist ..)
  unfold dirnodeStore at hok ⊢
  cases hmv : o.macversion with
  | none => simp [hmv] at hok
  | some mv =>
    simp only [hmv] at hok ⊢
    have hothers (hr : (storeOtherBuckets o ((deleteEmptyBuckets d).bucketList.drop 1)
        (deleteEmptyObjects o d s.buckets)).2.2 = true) := storeOtherBuckets_synced hnodup hsync' hr
    generalize storeOtherBuckets o ((deleteEmptyBuckets d).bucketList.drop 1)
      (deleteEmptyObjects o d s.buckets) = r at hok hothers ⊢
    obtain ⟨bs, store, ok⟩ := r
    cases ok with
    | false => simp at hok
    | true =>
      cases hput : o.put with
      | false => simp [hput] at hok
      | true =>
        simp only [Bool.not_true, Bool.false_eq_true, if_false]
        obtain ⟨b, cs, hbs⟩ := exists_cons_of_ne_nil hdel.wf.hasBucket
        refine ⟨trivial, ?_, ?_⟩
        · intro c hc
          rw [hbs] at hc
          rcases mem_append.mp hc with hc | hc
          · obtain ⟨c', -, rfl⟩ := mem_map.mp hc
            rfl
          · exact (hothers rfl c hc).1
        · intro c hc
          rw [hbs] at hc
          exact (hothers rfl c (by simpa using hc)).2

/-- A dirnode stored from a storable one loads back. -/
theorem dirnodeLoad_store (h : d.Storable) {o : StoreOutcome} {s : StoredDirnode}
    (hsync : BucketsSynced s.buckets (d.bucketList.drop 1))
    (hok : (dirnodeStore o d s).2.2 = true) :
    dirnodeLoad (dirnodeStore o d s).2.1 = some (dirnodeStore o d s).1.reloaded := by
  have hstorable := dirnodeStore_storable h o s
  obtain ⟨hmain, hdisk⟩ := dirnodeStore_ok h hsync hok
  rw [dirnodeLoad, hmain, padTo]
  exact dirnodeFromBuffer_serialize hstorable hdisk.stored _

/-! ## What a load shows

A load lists the entries in another order, but it is the same directory. -/

theorem reloaded_lookup (h : d.WF) (name : Name) :
    d.reloaded.lookup name = d.lookup name := by
  have hnames : ((bucketEntries d.bucketList).map DirEntry.name).Nodup :=
    (h.direntsPerm.map DirEntry.name).nodup_iff.mp h.names
  cases hfind : d.lookup name with
  | none =>
    rw [Dirnode.lookup_eq_none_iff] at hfind ⊢
    intro e he
    exact hfind e (h.direntsPerm.mem_iff.mpr he)
  | some e =>
    obtain ⟨he, rfl⟩ := Dirnode.mem_of_lookup hfind
    have hmem : e ∈ d.reloaded.dirents := h.direntsPerm.mem_iff.mp he
    cases hfind' : d.reloaded.lookup e.name with
    | none => exact absurd rfl (Dirnode.lookup_eq_none_iff.mp hfind' e hmem)
    | some e' =>
      obtain ⟨he', hname⟩ := Dirnode.mem_of_lookup hfind'
      rw [inj_on_of_nodup_map hnames he' hmem hname]

/-- The two dirnodes hold the same directory: the same map from names to types
and uuids, the same link targets, the same attribute table and the same
counters. -/
structure Dirnode.Same (d d' : Dirnode) : Prop where
  entries : ∀ name, (d.lookup name).map (fun e => (e.type, e.linkUuid)) =
    (d'.lookup name).map fun e => (e.type, e.linkUuid)
  links : ∀ uuid, dirnodeGetLink d uuid = dirnodeGetLink d' uuid
  attributeTable : d.attributeTable = d'.attributeTable
  symlinkCount : d.symlinkCount = d'.symlinkCount
  symlinkBuflen : d.symlinkBuflen = d'.symlinkBuflen
  dirEntryCount : d.dirEntryCount = d'.dirEntryCount
  dirEntryBuflen : d.dirEntryBuflen = d'.dirEntryBuflen
  bucketCount : d.bucketCount = d'.bucketCount

theorem reloaded_same (h : d.WF) : d.reloaded.Same d where
  entries name := by rw [reloaded_lookup h]
  links _ := rfl
  attributeTable := rfl
  symlinkCount := rfl
  symlinkBuflen := rfl
  dirEntryCount := rfl
  dirEntryBuflen := rfl
  bucketCount := rfl

/-- Storing changes neither the map nor the links of the dirnode in memory. -/
theorem dirnodeStore_lookup (o : StoreOutcome) (d : Dirnode) (s : StoredDirnode) (name : Name) :
    (dirnodeStore o d s).1.lookup name = d.lookup name := by
  obtain ⟨table, bs, heq, -, -⟩ := dirnodeStore_memory o d s
  rw [heq]
  rfl

theorem dirnodeStore_getLink (o : StoreOutcome) (d : Dirnode) (s : StoredDirnode)
    (uuid : Uuid) : dirnodeGetLink (dirnodeStore o d s).1 uuid = dirnodeGetLink d uuid := by
  obtain ⟨table, bs, heq, -, -⟩ := dirnodeStore_memory o d s
  rw [heq]
  rfl

end Nexus
