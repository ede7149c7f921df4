import Nexus.Dirnode.Invariant

/-!
# Storing and loading a dirnode

A dirnode is stored as one main object and one object for each bucket after the
first.  The main object is the header, the symlink records, one record for each
bucket, the attribute table, and the entries of bucket 0.  A bucket record holds
the mac of the separately stored bucket, and a bucket whose mac does not match
is refused on load.

`StoredDirnode` is what the datastore holds for one dirnode, as plaintext: the
encryption is taken to return what was put.  `StoreOutcome` says which of the
calls of one `dirnode_store` succeed.
-/

namespace Nexus

open Codec

/-! ## Serialisation -/

/-- The value of a `nexus_dirent_type_t`. -/
def DirentType.code : DirentType → Nat
  | .reg => 1
  | .dir => 2
  | .lnk => 3

def DirentType.ofCode? : Nat → Option DirentType
  | 1 => some .reg
  | 2 => some .dir
  | 3 => some .lnk
  | _ => none

/-- `sizeof(struct __dir_rec)`. -/
def dirRecSize : Nat := dirRecHdrSize + 256

/-- `__serialize_dir_entry`: the first `rec_len` bytes of the record. -/
def serializeDirEntry (e : DirEntry) : Bytes :=
  (le 2 e.recLen ++ le 4 e.type.code ++ le 16 e.linkUuid.toNat ++ le 2 e.nameLen ++
    padTo 256 e.name.bytes).take e.recLen

/-- `bucket_serialize`. -/
def bucketSerialize (b : Bucket) : Bytes := b.dirEntries.flatMap serializeDirEntry

/-- `sizeof(struct __dirnode_hdr)`. -/
def dirnodeHdrSize : Nat := 16 + 16 + 4 + 4 + 4 + 4 + 2

/-- `__serialize_dirnode_header`. -/
def serializeDirnodeHeader (d : Dirnode) : Bytes :=
  le 16 d.myUuid.toNat ++ le 16 d.rootUuid.toNat ++ le 4 d.symlinkCount ++
    le 4 d.symlinkBuflen ++ le 4 d.dirEntryCount ++ le 4 d.dirEntryBuflen ++ le 2 d.bucketCount

/-- One record of `__serialize_symlinks`: `total_len` bytes of it. -/
def serializeSymlink (l : SymlinkEntry) : Bytes :=
  (le 1 l.totalLen.toNat ++ le 16 l.uuid.toNat ++ le 2 l.targetLen.toNat ++
    l.targetPath).take l.totalLen.toNat

/-- `sizeof(struct __bucket_rec)`. -/
def bucketRecSize : Nat := 4 + 4 + 16 + 16

/-- `bucket_to_record`. -/
def bucketToRecord (b : Bucket) : Bytes :=
  le 4 b.numItems ++ le 4 b.sizeBytes ++ le 16 b.uuid.toNat ++ le 16 b.mac.toNat

/-- The bytes `dirnode_serialize` writes. -/
def dirnodeSerialize (d : Dirnode) : Bytes :=
  serializeDirnodeHeader d ++ d.symlinkList.flatMap serializeSymlink ++
    d.bucketList.flatMap bucketToRecord ++ attributeTableBytes d.attributeTable ++
    (d.bucketList.take 1).flatMap bucketSerialize

/-- `__get_bucket0_size`. -/
def getBucket0Size (d : Dirnode) : Nat :=
  dirnodeHdrSize + d.symlinkBuflen + bucketRecSize * d.bucketCount +
    attributeTableGetSize d.attributeTable + ((d.bucketList.take 1).map Bucket.sizeBytes).sum

/-! ## Parsing -/

/-- `__parse_dir_entry`; a record that does not fit `struct __dir_rec` is outside
what the C code defines. -/
def parseDirEntry : Parser DirEntry := fun bs => do
  let (recLen, bs) ← nat 2 bs
  let (code, bs) ← nat 4 bs
  let (uuid, bs) ← nat 16 bs
  let (nameLen, bs) ← nat 2 bs
  let type ← DirentType.ofCode? code
  if dirRecHdrSize ≤ recLen ∧ recLen ≤ dirRecSize then do
    let (buf, bs) ← bytes (recLen - dirRecHdrSize) bs
    let name ← Name.ofBytes? (cstring buf)
    some ({ recLen, type, linkUuid := BitVec.ofNat 128 uuid, nameLen, name }, bs)
  else none

/-- One record of `__parse_symlinks`; one shorter than its header is outside what
the C code defines. -/
def parseSymlink : Parser SymlinkEntry := fun bs => do
  let (totalLen, bs) ← nat 1 bs
  let (uuid, bs) ← nat 16 bs
  let (targetLen, bs) ← nat 2 bs
  if symlinkHdrSize ≤ totalLen then do
    let (path, bs) ← bytes (totalLen - symlinkHdrSize) bs
    some ({ totalLen := BitVec.ofNat 8 totalLen, uuid := BitVec.ofNat 128 uuid,
            targetLen := BitVec.ofNat 16 targetLen, targetPath := path }, bs)
  else none

/-- `bucket_from_record`. -/
def bucketFromRecord : Parser Bucket := fun bs => do
  let (numItems, bs) ← nat 4 bs
  let (sizeBytes, bs) ← nat 4 bs
  let (uuid, bs) ← nat 16 bs
  let (mac, bs) ← nat 16 bs
  some ({ isDirty := false, onDisk := false, numItems, sizeBytes,
          uuid := BitVec.ofNat 128 uuid, mac := BitVec.ofNat 128 mac, dirEntries := [] }, bs)

/-- `bucket_load_from_buffer`. -/
def bucketLoadFromBuffer (b : Bucket) (bs : Bytes) : Option Bucket := do
  let (entries, _) ← many parseDirEntry b.numItems bs
  some { b with dirEntries := entries }

/-- The separately stored buckets of a dirnode, with the mac of each object. -/
abbrev BucketStore := Uuid → Option (Bytes × Mac)

/-- `__load_other_buckets`. -/
def loadOtherBuckets (store : BucketStore) : List Bucket → Option (List Bucket)
  | [] => some []
  | b :: bs => do
    let (content, mac) ← store b.uuid
    let loaded ← bucketLoadFromBuffer b content
    if mac = b.mac then do
      let rest ← loadOtherBuckets store bs
      some ({ loaded with onDisk := true } :: rest)
    else none

/-- `struct __dirnode_hdr`. -/
structure DirnodeHdr where
  myUuid : Uuid
  rootUuid : Uuid
  symlinkCount : Nat
  symlinkBuflen : Nat
  dirEntryCount : Nat
  dirEntryBuflen : Nat
  bucketCount : Nat

/-- `__parse_dirnode_header`. -/
def parseDirnodeHeader : Parser DirnodeHdr := fun bs => do
  let (myUuid, bs) ← nat 16 bs
  let (rootUuid, bs) ← nat 16 bs
  let (symlinkCount, bs) ← nat 4 bs
  let (symlinkBuflen, bs) ← nat 4 bs
  let (dirEntryCount, bs) ← nat 4 bs
  let (dirEntryBuflen, bs) ← nat 4 bs
  let (bucketCount, bs) ← nat 2 bs
  some ({ myUuid := BitVec.ofNat 128 myUuid, rootUuid := BitVec.ofNat 128 rootUuid,
          symlinkCount, symlinkBuflen, dirEntryCount, dirEntryBuflen, bucketCount }, bs)

/-- `__load_bucket0` and `__load_other_buckets`. -/
def loadBuckets (store : BucketStore) (bs : Bytes) : List Bucket → Option (List Bucket)
  | [] => none
  | b :: records => do
    let bucket0 ← bucketLoadFromBuffer b bs
    let others ← loadOtherBuckets store records
    some (bucket0 :: others)

/-- `dirnode_from_buffer`. -/
def dirnodeFromBuffer (store : BucketStore) (bs : Bytes) : Option Dirnode := do
  let (hdr, bs) ← parseDirnodeHeader bs
  let (symlinkList, bs) ← many parseSymlink hdr.symlinkCount bs
  let (records, bs) ← many bucketFromRecord hdr.bucketCount bs
  let (attributeTable, bs) ← attributeTableFromBuffer bs
  let bucketList ← loadBuckets store bs records
  some {
    myUuid := hdr.myUuid
    rootUuid := hdr.rootUuid
    symlinkCount := hdr.symlinkCount
    symlinkBuflen := hdr.symlinkBuflen
    dirEntryCount := hdr.dirEntryCount
    dirEntryBuflen := hdr.dirEntryBuflen
    bucketCount := hdr.bucketCount
    lastFailedLookup := none
    symlinkList
    dirents := bucketEntries bucketList
    bucketList, attributeTable }

/-! ## The datastore -/

/-- The objects of one dirnode. -/
structure StoredDirnode where
  main : Bytes
  buckets : BucketStore

/-- `dirnode_load`. -/
def dirnodeLoad (s : StoredDirnode) : Option Dirnode := dirnodeFromBuffer s.buckets s.main

/-- The outcomes of one `dirnode_store`. -/
structure StoreOutcome where
  /-- `abac_global_export_macversion`. -/
  macversion : Option MacAndVersion
  /-- `bucket_store` of each bucket. -/
  bucketStore : Uuid → Bool
  /-- The mac each stored bucket gets. -/
  bucketMac : Uuid → Mac
  /-- `buffer_layer_delete` of each bucket; the result is not looked at. -/
  bucketDelete : Uuid → Bool
  /-- `nexus_crypto_buf_put` of the main object. -/
  put : Bool

/-- A bucket `__delete_empty_dirnode_buckets` deletes, unless it is the first. -/
def Bucket.isDeletable (b : Bucket) : Bool := b.isDirty && b.numItems == 0

/-- `__delete_empty_dirnode_buckets`, in memory. -/
def deleteEmptyBuckets (d : Dirnode) : Dirnode :=
  let kept := d.bucketList.take 1 ++ (d.bucketList.drop 1).filter fun b => !b.isDeletable
  { d with
    bucketList := kept
    bucketCount := d.bucketCount - (d.bucketList.length - kept.length) }

/-- `__delete_empty_dirnode_buckets`, in the datastore. -/
def deleteEmptyObjects (o : StoreOutcome) (d : Dirnode) (store : BucketStore) : BucketStore :=
  fun uuid =>
    if ((d.bucketList.drop 1).any fun b => b.isDeletable && b.uuid == uuid) && o.bucketDelete uuid
    then none else store uuid

/-- `__store_other_buckets`: the dirty buckets are stored until one fails. -/
def storeOtherBuckets (o : StoreOutcome) :
    List Bucket → BucketStore → List Bucket × BucketStore × Bool
  | [], store => ([], store, true)
  | b :: bs, store =>
    if !b.isDirty then
      let r := storeOtherBuckets o bs store
      (b :: r.1, r.2.1, r.2.2)
    else if !o.bucketStore b.uuid then (b :: bs, store, false)
    else
      let mac := o.bucketMac b.uuid
      let r := storeOtherBuckets o bs
        (Function.update store b.uuid (some (padTo b.sizeBytes (bucketSerialize b), mac)))
      ({ b with isDirty := false, onDisk := true, mac } :: r.1, r.2.1, r.2.2)

/-- `dirnode_store`: the dirnode, its objects as the enclave reads them back through
the buffer layer, and the result. -/
def dirnodeStore (o : StoreOutcome) (d : Dirnode) (s : StoredDirnode) :
    Dirnode × StoredDirnode × Bool :=
  let buckets := deleteEmptyObjects o d s.buckets
  let d := deleteEmptyBuckets d
  match o.macversion with
  | none => (d, { s with buckets }, false)
  | some mv =>
    let bucket0 := (d.bucketList.take 1).map fun b => { b with isDirty := false }
    let r := storeOtherBuckets o (d.bucketList.drop 1) buckets
    let d := { d with
      attributeTable := exportMacversion mv d.attributeTable
      bucketList := bucket0 ++ r.1 }
    if !r.2.2 then (d, { s with buckets := r.2.1 }, false)
    else if !o.put then (d, { s with buckets := r.2.1 }, false)
    else (d, { main := padTo (getBucket0Size d) (dirnodeSerialize d), buckets := r.2.1 }, true)

/-- The puts that `buffer_layer_put` defers: an earlier call has left the object
locked, so the put gives back its own lock, returns 0 and writes nothing. -/
structure Deferred where
  main : Bool
  buckets : Uuid → Bool

/-- What `dirnode_store` leaves in the datastore. -/
def dirnodeStoreDisk (deferred : Deferred) (o : StoreOutcome) (d : Dirnode) (s : StoredDirnode) :
    StoredDirnode :=
  let r := dirnodeStore o d s
  { main := if r.2.2 && !deferred.main then r.2.1.main else s.main
    buckets := fun uuid =>
      if deferred.buckets uuid then deleteEmptyObjects o d s.buckets uuid
      else r.2.1.buckets uuid }

end Nexus
