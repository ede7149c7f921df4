import Nexus.Lib.Lru
import Nexus.Storage.MetadataLocks

/-!
# The metadata cache

`vfs.c` keeps the metadata of the objects that were used last in an LRU list.  A metadata is
a struct that points to its object: a reload frees the object and puts a new one in its place,
an eviction frees both.  Ecalls count their references in `ref_count`, and a transfer of
`file_crypto.c` keeps the metadata and its filenode between ecalls.

Structs and objects are known by their addresses, which are never used twice.  `dropped` and
`finished` are not part of the program: the first has the metadata whose object was freed, as
they were then, and the second has, for each transfer that was finished, the filenode that it
changed and the object that was stored.  What the locks do is taken from `ObjectLocks`.
-/

namespace Nexus.Cache

/-- `struct nexus_metadata`. -/
structure CachedMetadata where
  uuid : Uuid
  type : MetadataType
  address : Nat
  object : Nat
  refCount : BitVec 64
  lock : MetadataLock
  deriving DecidableEq, Repr

/-- `struct data_xfer_context`, the two pointers. -/
structure Transfer where
  id : Nat
  metadata : Nat
  filenode : Nat
  deriving DecidableEq, Repr

/-- The cache, the buffer layer below it, the references of the ecalls that are running, and
the transfers that are open. -/
structure Vfs where
  lru : List CachedMetadata
  buffers : Uuid → BufferState
  next : Nat
  held : List Nat
  xfers : List Transfer
  xferCounter : Nat
  dropped : List CachedMetadata
  finished : List (Nat × Option Nat)

def lruCapacity : Nat := 256

/-- `nexus_lru_get`, without the move to the front. -/
def Vfs.find (s : Vfs) (uuid : Uuid) : Option CachedMetadata := s.lru.find? (·.uuid = uuid)

/-- The metadata at the address. -/
def Vfs.deref (s : Vfs) (address : Nat) : Option CachedMetadata :=
  s.lru.find? (·.address = address)

def Vfs.touch (s : Vfs) (uuid : Uuid) : Vfs :=
  { s with lru := Lru.touch (fun m : CachedMetadata => m.uuid) uuid s.lru }

def Vfs.setBuffer (s : Vfs) (uuid : Uuid) (buffer : BufferState) : Vfs :=
  { s with buffers := fun u => if u = uuid then buffer else s.buffers u }

/-- The metadata at the address changes. -/
def Vfs.update (s : Vfs) (address : Nat) (f : CachedMetadata → CachedMetadata) : Vfs :=
  { s with lru := Lru.update (fun m : CachedMetadata => m.address) address f s.lru }

/-- What is known of the locks of a cached metadata. -/
def Vfs.locks (s : Vfs) (m : CachedMetadata) : ObjectLocks := ⟨some m.lock, s.buffers m.uuid⟩

/-- The lock state of a metadata after a call. -/
def Vfs.setLocks (s : Vfs) (m : CachedMetadata) (c : ObjectLocks) : Vfs :=
  (s.setBuffer m.uuid c.buffer).update m.address fun m => { m with lock := c.metadata.getD m.lock }

/-! ## Loading -/

/-- `nexus_metadata_revalidate` reads the object again. -/
def Vfs.rereads (s : Vfs) (o : RevalidateOutcome) (m : CachedMetadata) : Bool :=
  m.lock.isInvalid || (s.locks m).hasChanged o

/-- `nexus_metadata_revalidate`.  `__set_metadata_object` frees the object that is replaced. -/
def nexusMetadataRevalidate (flags : IoFlags) (o : RevalidateOutcome) (s : Vfs)
    (m : CachedMetadata) : Vfs × Bool :=
  let (c, ok) := (s.locks m).revalidate flags o m.lock
  if s.rereads o m && ok then
    ({ (s.setLocks m c).update m.address fun m => { m with object := s.next } with
      next := s.next + 1
      dropped := m :: s.dropped }, true)
  else (s.setLocks m c, ok)

/-- `nexus_vfs_revalidate`: a metadata that is current goes to the front. -/
def nexusVfsRevalidate (flags : IoFlags) (o : RevalidateOutcome) (s : Vfs) (m : CachedMetadata) :
    Vfs × Bool :=
  let (s, ok) := nexusMetadataRevalidate flags { o with uninit := false } s m
  (if ok then s.touch m.uuid else s, ok)

/-- `__lru_shrinker`. -/
def lruShrinker (s : Vfs) (m : CachedMetadata) : Vfs :=
  { s.setBuffer m.uuid { s.buffers m.uuid with metaBuf := none } with dropped := m :: s.dropped }

/-- `nexus_lru_put`: the metadata of the uuid is replaced, or else a full list gives up its
last one. -/
def nexusLruPut (s : Vfs) (m : CachedMetadata) : Vfs :=
  match s.find m.uuid with
  | some old =>
    { lruShrinker s old with lru := m :: s.lru.filter (·.uuid ≠ m.uuid) }
  | none =>
    let (lru, victim) := Lru.put lruCapacity m s.lru
    match victim with
    | some victim => { lruShrinker s victim with lru }
    | none => { s with lru }

/-- `nexus_metadata_load` and `nexus_lru_put`. -/
def loadFromDisk (flags : IoFlags) (type : MetadataType) (o : ReadOutcome) (s : Vfs)
    (uuid : Uuid) : Vfs × Bool :=
  let (c, ok) := (ObjectLocks.mk none (s.buffers uuid)).load flags o
  let s := s.setBuffer uuid c.buffer
  if ok then
    (nexusLruPut { s with next := s.next + 2 }
      ⟨uuid, type, s.next, s.next + 1, 0, .fromObject flags⟩, true)
  else (s, false)

/-- `nexus_vfs_load`. -/
def nexusVfsLoad (flags : IoFlags) (type : MetadataType) (o : LoadOutcome) (s : Vfs)
    (uuid : Uuid) : Vfs × Bool :=
  match s.find uuid with
  | none => loadFromDisk flags type o.load s uuid
  | some m =>
    match nexusVfsRevalidate flags o.revalidate (s.touch uuid) m with
    | (s, true) => (s, true)
    | (s, false) => loadFromDisk flags type o.load s uuid

/-- `dentry_revalidate`. -/
def dentryRevalidate (flags : IoFlags) (type : MetadataType) (o : DentryOutcome) (s : Vfs)
    (uuid : Uuid) : Vfs × Bool :=
  let (s, ok) :=
    match s.find uuid with
    | some m =>
      if o.instantiated then nexusVfsRevalidate flags o.load.revalidate s m
      else nexusVfsLoad flags type o.load s uuid
    | none => nexusVfsLoad flags type o.load s uuid
  (s, ok && o.verified)

/-! ## References -/

/-- `nexus_metadata_get`. -/
def nexusMetadataGet (s : Vfs) (address : Nat) : Vfs :=
  { s.update address fun m => { m with refCount := m.refCount + 1 } with
    held := address :: s.held }

/-- `nexus_vfs_get`, from the dentry that the lookup found. -/
def nexusVfsGet (flags : IoFlags) (type : MetadataType) (o : DentryOutcome) (s : Vfs)
    (uuid : Uuid) : Vfs :=
  match dentryRevalidate flags type o s uuid with
  | (s, false) => s
  | (s, true) =>
    match s.find uuid with
    | some m => nexusMetadataGet s m.address
    | none => s

/-- `nexus_vfs_put`: also the lock is given back. -/
def nexusVfsPut (r : OcallResult) (s : Vfs) (address : Nat) : Vfs :=
  let s := s.update address fun m => { m with refCount := m.refCount - 1 }
  match s.deref address with
  | none => s
  | some m => s.setLocks m ((s.locks m).unlock r)

/-- `nexus_metadata_store`. -/
def nexusMetadataStore (o : PutOutcome) (s : Vfs) (address : Nat) : Vfs :=
  match s.deref address with
  | none => s
  | some m => s.setLocks m ((s.locks m).store o).1

/-- `__nexus_metadata_sync`. -/
def nexusMetadataSync (o : SyncOutcome) (s : Vfs) (address : Nat) : Vfs :=
  match s.deref address with
  | none => s
  | some m => s.setLocks m ((s.locks m).sync o).1

/-- `__metadata_set_dirty`. -/
def metadataSetDirty (s : Vfs) (address : Nat) : Vfs :=
  s.update address fun m => { m with lock := { m.lock with isDirty := true } }

/-- `nexus_vfs_delete`, in the cache. -/
def nexusVfsDelete (s : Vfs) (uuid : Uuid) : Vfs :=
  match s.find uuid with
  | none => s.setBuffer uuid { s.buffers uuid with metaBuf := none }
  | some m => { lruShrinker s m with lru := s.lru.filter (·.uuid ≠ uuid) }

/-! ## Transfers -/

/-- `file_crypto_new`: the transfer takes over the reference of the ecall. -/
def fileCryptoNew (s : Vfs) (address : Nat) : Vfs :=
  match s.deref address with
  | none => s
  | some m =>
    { s with
      held := s.held.erase address
      xfers := ⟨s.xferCounter + 1, address, m.object⟩ :: s.xfers
      xferCounter := s.xferCounter + 1 }

/-- `__get_context`. -/
def getContext (s : Vfs) (id : Nat) : Option Transfer := s.xfers.find? (·.id = id)

/-- `__filenode_set_dirty` by a transfer: the filenode points back to the metadata that it was
made for.  With a filenode that was freed this does nothing here. -/
def transferSetDirty (s : Vfs) (id : Nat) : Vfs :=
  match getContext s id with
  | none => s
  | some x =>
    match s.deref x.metadata with
    | none => s
    | some m => if m.object = x.filenode then metadataSetDirty s m.address else s

/-- `file_crypto_finish`. -/
def fileCryptoFinish (o : PutOutcome) (r : OcallResult) (s : Vfs) (id : Nat) : Vfs :=
  match getContext s id with
  | none => s
  | some x =>
    let stored := (s.deref x.metadata).map (·.object)
    { nexusVfsPut r (nexusMetadataStore o s x.metadata) x.metadata with
      xfers := s.xfers.erase x
      finished := (x.filenode, stored) :: s.finished }

end Nexus.Cache
