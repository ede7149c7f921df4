import Nexus.Dirnode.AttributeTable

/-!
# Directory nodes in memory

`dirnode.c` and `bucket.c`.  The entries of a directory are spread over buckets
of at most 128 entries; every entry is also in the list `dirents_list`, which
gives the listing order, and in a hash map by name.  Names are unique, so the
hash map is modelled by a search of the list.  Buckets and the dirnode keep
running counts of entries and bytes.

Symbolic links have a second record, in `symlink_list`, with the target path.
Its `total_len` field is one byte wide, while the running byte count
`symlink_buflen` adds the full length.

A call that draws a uuid with `nexus_uuid_gen` takes the uuid as an argument.
-/

namespace Nexus

open Codec

/-- A file name: a C string that fits `char name[NEXUS_NAME_MAX]`. -/
structure Name where
  bytes : Bytes
  fits : bytes.length < 256
  noNul : (0 : UInt8) ∉ bytes
  deriving DecidableEq

/-- The name `a`. -/
def nameA : Name := ⟨[0x61], by decide, by decide⟩

/-- The name `l`. -/
def linkName : Name := ⟨[0x6c], by decide, by decide⟩

/-- The name held by a buffer, if it is one. -/
def Name.ofBytes? (bs : Bytes) : Option Name :=
  if h : bs.length < 256 ∧ (0 : UInt8) ∉ bs then some ⟨bs, h.1, h.2⟩ else none

/-- `struct dir_entry`, as the fields of its `__dir_rec`. -/
structure DirEntry where
  recLen : Nat
  type : DirentType
  linkUuid : Uuid
  nameLen : Nat
  name : Name
  deriving DecidableEq

/-- `sizeof(struct __dir_rec)` without the name. -/
def dirRecHdrSize : Nat := 2 + 4 + 16 + 2

/-- `__new_dir_entry`. -/
def newDirEntry (uuid : Uuid) (type : DirentType) (name : Name) : DirEntry where
  recLen := dirRecHdrSize + name.bytes.length + 1
  type := type
  linkUuid := uuid
  nameLen := name.bytes.length
  name := name

/-- `__rename_dir_entry`. -/
def renameDirEntry (e : DirEntry) (name : Name) : DirEntry :=
  { e with
    recLen := dirRecHdrSize + name.bytes.length + 1
    nameLen := name.bytes.length
    name := name }

/-! ## Buckets -/

/-- `BUCKET_CAPACITY`. -/
def bucketCapacity : Nat := 128

/-- `struct dir_bucket`. -/
structure Bucket where
  isDirty : Bool
  onDisk : Bool
  numItems : Nat
  sizeBytes : Nat
  uuid : Uuid
  mac : Mac
  dirEntries : List DirEntry
  deriving DecidableEq

/-- `bucket_create`. -/
def bucketCreate (uuid : Uuid) : Bucket where
  isDirty := false
  onDisk := false
  numItems := 0
  sizeBytes := 0
  uuid := uuid
  mac := 0
  dirEntries := []

/-- `bucket_add_direntry` and the dirty mark of its caller. -/
def bucketAddDirentry (b : Bucket) (e : DirEntry) : Bucket :=
  { b with
    isDirty := true
    numItems := b.numItems + 1
    sizeBytes := b.sizeBytes + e.recLen
    dirEntries := b.dirEntries ++ [e] }

/-- `bucket_del_direntry` and the dirty mark of its caller. -/
def bucketDelDirentry (b : Bucket) (e : DirEntry) : Bucket :=
  { b with
    isDirty := true
    numItems := b.numItems - 1
    sizeBytes := b.sizeBytes - e.recLen
    dirEntries := b.dirEntries.erase e }

/-! ## Symbolic links -/

/-- `struct symlink_entry`; `targetPath` is what was allocated behind the
header, the terminating zero included. -/
structure SymlinkEntry where
  totalLen : BitVec 8
  uuid : Uuid
  targetLen : BitVec 16
  targetPath : Bytes
  deriving DecidableEq

/-- `sizeof(struct symlink_entry)`. -/
def symlinkHdrSize : Nat := 1 + 16 + 2

/-- `NEXUS_PATH_MAX`. -/
def nexusPathMax : Nat := 1024

/-- The `size_t total_len` of `__dirnode_add_symlink`. -/
def symlinkTotalLen (target : Bytes) : Nat := target.length + symlinkHdrSize + 1

/-- The record `__dirnode_add_symlink` builds; its `total_len` is one byte. -/
def newSymlinkEntry (uuid : Uuid) (target : Bytes) : SymlinkEntry where
  totalLen := BitVec.ofNat 8 (symlinkTotalLen target)
  uuid := uuid
  targetLen := BitVec.ofNat 16 target.length
  targetPath := target ++ [0]

/-- The path a reader of the record gets. -/
def SymlinkEntry.target (l : SymlinkEntry) : Bytes := (cstring l.targetPath).take nexusPathMax

/-! ## Dirnodes -/

/-- `struct nexus_dirnode`. -/
structure Dirnode where
  myUuid : Uuid
  rootUuid : Uuid
  symlinkCount : Nat
  symlinkBuflen : Nat
  dirEntryCount : Nat
  dirEntryBuflen : Nat
  bucketCount : Nat
  lastFailedLookup : Option Name
  symlinkList : List SymlinkEntry
  dirents : List DirEntry
  bucketList : List Bucket
  attributeTable : AttributeTable
  deriving DecidableEq

/-- `dirnode_create`; `bucket0` is the uuid of the first bucket. -/
def dirnodeCreate (rootUuid myUuid bucket0 : Uuid) : Dirnode where
  myUuid := myUuid
  rootUuid := rootUuid
  symlinkCount := 0
  symlinkBuflen := 0
  dirEntryCount := 0
  dirEntryBuflen := 0
  bucketCount := 1
  lastFailedLookup := none
  symlinkList := []
  dirents := []
  bucketList := [bucketCreate bucket0]
  attributeTable := attributeTableCreate

/-- The entry a name has in the hash map. -/
def Dirnode.lookup (d : Dirnode) (name : Name) : Option DirEntry :=
  d.dirents.find? fun e => e.name = name

/-- `__find_by_name`, with its memory of the last failed lookup. -/
def findByName (d : Dirnode) (name : Name) : Dirnode × Option DirEntry :=
  if d.lastFailedLookup = some name then (d, none)
  else
    match d.lookup name with
    | none => ({ d with lastFailedLookup := some name }, none)
    | some e => ({ d with lastFailedLookup := none }, some e)

/-- The part of `__get_available_bucket` that makes a bucket when all are full. -/
def getAvailableBucket (d : Dirnode) (fresh : Uuid) : Dirnode :=
  if d.bucketList.any fun b => b.numItems < bucketCapacity then d
  else
    { d with
      bucketList := d.bucketList ++ [bucketCreate fresh]
      bucketCount := d.bucketCount + 1 }

/-- Put an entry into the first bucket that has room. -/
def addToBucket (e : DirEntry) : List Bucket → List Bucket
  | [] => []
  | b :: bs =>
    if b.numItems < bucketCapacity then bucketAddDirentry b e :: bs
    else b :: addToBucket e bs

/-- `__dirnode_add_direntry`. -/
def dirnodeAddDirentry (d : Dirnode) (e : DirEntry) (fresh : Uuid) : Dirnode :=
  let d := getAvailableBucket d fresh
  { d with
    bucketList := addToBucket e d.bucketList
    dirents := d.dirents ++ [e]
    dirEntryCount := d.dirEntryCount + 1
    dirEntryBuflen := d.dirEntryBuflen + e.recLen
    lastFailedLookup := none }

/-- Take an entry out of the bucket that holds it. -/
def delFromBucket (e : DirEntry) : List Bucket → List Bucket
  | [] => []
  | b :: bs =>
    if e ∈ b.dirEntries then bucketDelDirentry b e :: bs else b :: delFromBucket e bs

/-- `__dirnode_del_direntry`. -/
def dirnodeDelDirentry (d : Dirnode) (e : DirEntry) : Dirnode :=
  { d with
    bucketList := delFromBucket e d.bucketList
    dirents := d.dirents.erase e
    dirEntryCount := d.dirEntryCount - 1
    dirEntryBuflen := d.dirEntryBuflen - e.recLen
    lastFailedLookup := none }

/-- `dirnode_add`. -/
def dirnodeAdd (d : Dirnode) (name : Name) (type : DirentType) (uuid fresh : Uuid) :
    Dirnode × Bool :=
  match findByName d name with
  | (d, some _) => (d, false)
  | (d, none) => (dirnodeAddDirentry d (newDirEntry uuid type name) fresh, true)

/-- `__dirnode_add_symlink`; the target is a C string cut to the path limit. -/
def dirnodeAddSymlink (d : Dirnode) (uuid : Uuid) (target : Bytes) : Dirnode :=
  let target := (cstring target).take nexusPathMax
  { d with
    symlinkList := d.symlinkList ++ [newSymlinkEntry uuid target]
    symlinkCount := d.symlinkCount + 1
    symlinkBuflen := d.symlinkBuflen + symlinkTotalLen target
    lastFailedLookup := none }

/-- `dirnode_add_link`. -/
def dirnodeAddLink (d : Dirnode) (name : Name) (target : Bytes) (uuid fresh : Uuid) :
    Dirnode × Bool :=
  match dirnodeAdd d name .lnk uuid fresh with
  | (d, false) => (d, false)
  | (d, true) => (dirnodeAddSymlink d uuid target, true)

/-- `__find_symlink`. -/
def findSymlink (d : Dirnode) (uuid : Uuid) : Option SymlinkEntry :=
  d.symlinkList.find? fun l => l.uuid = uuid

/-- `__remove_symlink`: the target path of the removed record. -/
def removeSymlink (d : Dirnode) (uuid : Uuid) : Dirnode × Option Bytes :=
  match findSymlink d uuid with
  | none => (d, none)
  | some l =>
    ({ d with
        symlinkList := d.symlinkList.erase l
        symlinkCount := d.symlinkCount - 1
        symlinkBuflen := d.symlinkBuflen - l.totalLen.toNat },
      some l.target)

/-- `dirnode_get_link`. -/
def dirnodeGetLink (d : Dirnode) (uuid : Uuid) : Option Bytes :=
  (findSymlink d uuid).map SymlinkEntry.target

/-- `dirnode_remove`.  The out parameters `type` and `link_uuid` keep the
caller's values when the name is not found, and the type is read all the
same. -/
def dirnodeRemove (d : Dirnode) (name : Name) (type : Option DirentType) (uuid : Uuid) :
    Dirnode × Bool :=
  match findByName d name with
  | (d, none) => (if type = some .lnk then (removeSymlink d uuid).1 else d, false)
  | (d, some e) =>
    let d := dirnodeDelDirentry d e
    (if e.type = .lnk then (removeSymlink d e.linkUuid).1 else d, true)

/-! ## Rename -/

/-- What `dirnode_rename` reports. -/
inductive RenameResult where
  /-- The old name is not there. -/
  | notFound
  /-- The entry is freed and then used: old and new name are the same entry. -/
  | undefined
  /-- The moved entry, and the one it replaced. -/
  | renamed (moved : DirEntry) (overwritten : Option DirEntry)
  deriving DecidableEq

/-- Remove the entry that a rename overwrites.  Its symlink record stays. -/
def clobberOverwritten (d : Dirnode) (overwritten : Option DirEntry) : Dirnode :=
  match overwritten with
  | none => d
  | some e => dirnodeDelDirentry d e

/-- `dirnode_rename` with one dirnode as source and destination. -/
def dirnodeRenameWithin (d : Dirnode) (oldname newname : Name) (fresh : Uuid) :
    Dirnode × RenameResult :=
  match findByName d oldname with
  | (d, none) => (d, .notFound)
  | (d, some e) =>
    if oldname = newname then (d, .undefined)
    else
      let (d, overwritten) := findByName d newname
      let d := dirnodeDelDirentry (clobberOverwritten d overwritten) e
      let moved := renameDirEntry e newname
      (dirnodeAddDirentry d moved fresh, .renamed moved overwritten)

/-- The symlink record of a moved entry goes with it. -/
def moveSymlink (src dst : Dirnode) (uuid : Uuid) : Dirnode × Dirnode :=
  match removeSymlink src uuid with
  | (src, none) => (src, dst)
  | (src, some target) => (src, dirnodeAddSymlink dst uuid target)

/-- `dirnode_rename` between two dirnodes. -/
def dirnodeRenameAcross (src dst : Dirnode) (oldname newname : Name) (fresh : Uuid) :
    Dirnode × Dirnode × RenameResult :=
  match findByName src oldname with
  | (src, none) => (src, dst, .notFound)
  | (src, some e) =>
    let (dst, overwritten) := findByName dst newname
    let dst := clobberOverwritten dst overwritten
    let moved := renameDirEntry e newname
    let (src, dst) := moveSymlink (dirnodeDelDirentry src e)
      (dirnodeAddDirentry dst moved fresh) e.linkUuid
    (src, dst, .renamed moved overwritten)

end Nexus
