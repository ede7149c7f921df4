import Nexus.Dirnode.Store
import Nexus.Fs.Filenode
import Nexus.Fs.HardlinkTable

/-!
# The state of a mounted volume

A volume is the objects of its datastore and the copies of them that the
enclave holds (`vfs.c`, `metadata.c`).  Directories and files are named by uuid:
resolving a path to a uuid is not part of this model, and neither are other
clients of the volume.  Whatever the enclave
cannot decide by itself, whether a call to the outside succeeds and which uuids
and macs are generated, is part of the `Outcome` of a call.

Between the enclave and the datastore is the buffer layer.  While a call holds
all the locks there are, a put goes to the datastore.  A put of an object that an
earlier call has left locked is deferred: it succeeds, the buffer layer shows it
from then on, and the datastore does not get it.
-/

namespace Nexus

open Function

/-- `struct nexus_metadata`: an object in enclave memory.  An invalid one is
read again before it is used. -/
structure Node (α : Type) where
  object : α
  isDirty : Bool
  isInvalid : Bool

/-- An object as it is right after it was read. -/
def Node.clean {α : Type} (object : α) : Node α where
  object := object
  isDirty := false
  isInvalid := false

/-- An object of the datastore. -/
inductive Object where
  /-- `buffer_layer_new`: nothing was stored yet.  No code reads what the object
  was made for. -/
  | empty (madeFor : DirentType)
  | dirnode (stored : StoredDirnode)
  | filenode (stored : Filenode)

/-- `struct metadata_buffer` of a file. -/
structure FileBuffer where
  writers : Nat
  lockMode : Bool
  /-- What was put while there were other writers.  A later put frees it, and then
  nothing can be read. -/
  pending : Option (Option Filenode)

/-- `buffer_layer_lock`. -/
def FileBuffer.lock (b : FileBuffer) : FileBuffer :=
  { b with writers := b.writers + 1, lockMode := true }

/-- `buffer_layer_unlock`; the last writer gives up the lock if the outside
does. -/
def FileBuffer.unlock (unlocked : Bool) (b : FileBuffer) : FileBuffer :=
  if !b.lockMode || b.writers = 0 then b
  else { b with writers := b.writers - 1, lockMode := b.writers != 1 || !unlocked }

/-- What a call can leave locked. -/
inductive Lock where
  | dir (uuid : Uuid)
  | bucket (uuid : Uuid)
  | table
  deriving DecidableEq

/-- The datastore, the buffer layer and the enclave memory of a mounted volume. -/
structure Fs where
  rootUuid : Uuid
  /-- The objects and the hardlink table as the buffer layer shows them. -/
  objects : Uuid → Option Object
  storedTable : HardlinkTable
  /-- The same in the datastore. -/
  disk : Uuid → Option Object
  diskTable : HardlinkTable
  /-- What earlier calls have left locked. -/
  leftover : Lock → Bool
  dirnodes : Uuid → Option (Node Dirnode)
  filenodes : Uuid → Option (Node Filenode)
  table : Option (Node HardlinkTable)
  fileBuffers : Uuid → FileBuffer

/-- What the outside and the random generator answer during one call. -/
structure Outcome where
  /-- `bouncer_access_check`. -/
  granted : Bool
  /-- `nexus_vfs_get` of the first and of the second directory. -/
  getFirst : Bool
  getSecond : Bool
  /-- The uuid of the first bucket of an object that was never stored. -/
  bucket0 : Uuid → Uuid
  /-- `nexus_uuid_gen`, for the new entry and for a new bucket. -/
  entryUuid : Uuid
  bucketUuid : Uuid
  bufferNew : Bool
  bufferDel : Bool
  tableAcquire : Bool
  tableFlush : Bool
  /-- The steps of storing each dirnode. -/
  store : Uuid → StoreOutcome
  /-- A step that fails after the object was locked leaves it locked. -/
  leaves : Lock → Bool
  /-- The put of an object that was left locked finds the other writer. -/
  defers : Lock → Bool
  fileLeft : Bool
  fileUnlock : Bool
  filePut : Bool
  fileCryptoNew : Bool
  chunk : Nat → ChunkEntry

/-- The result of an ecall. -/
inductive Result (α : Type) where
  | ok (value : α)
  | error
  /-- The call used memory that it had freed, or an object of one type as one of
  another. -/
  | undefined

/-- The call returned 0. -/
def Result.isOk {α : Type} : Result α → Bool
  | ok _ => true
  | _ => false

/-! ## Locks -/

/-- The object stays locked when the call returns. -/
def Fs.leave (s : Fs) (l : Lock) : Fs := { s with leftover := update s.leftover l true }

/-- A failed acquisition, which may have locked the object. -/
def Fs.mayLeave (s : Fs) (o : Outcome) (l : Lock) : Fs :=
  { s with leftover := update s.leftover l (s.leftover l || o.leaves l) }

/-- `buffer_layer_put` finds more than one writer. -/
def Fs.defers (s : Fs) (o : Outcome) (l : Lock) : Bool := s.leftover l && o.defers l

/-- The volume as a session that starts anew reads it. -/
def Fs.atDisk (s : Fs) : Fs := { s with objects := s.disk, storedTable := s.diskTable }

/-! ## Reading -/

/-- `nexus_metadata_revalidate`, `nexus_metadata_reload` and
`nexus_metadata_load`, given what a read of the object gives. -/
def readNode {α : Type} (read : Option α) : Option (Node α) → Option (Node α)
  | none => read.map Node.clean
  | some n => if n.isInvalid then read.map Node.clean else some n

/-- `__read_object` of a dirnode. -/
def Fs.readDirnode (s : Fs) (bucket0 : Uuid → Uuid) (uuid : Uuid) : Option Dirnode :=
  match s.objects uuid with
  | some (.empty _) => some (dirnodeCreate s.rootUuid uuid (bucket0 uuid))
  | some (.dirnode stored) => dirnodeLoad stored
  | _ => none

/-- `__read_object` of a filenode; a put that is still pending is read first. -/
def Fs.readFilenode (s : Fs) (uuid : Uuid) : Option Filenode :=
  match (s.fileBuffers uuid).pending, s.objects uuid with
  | some f, _ => f
  | none, some (.empty _) => some (Filenode.create s.rootUuid uuid)
  | none, some (.filenode stored) => some stored
  | none, _ => none

/-- `nexus_vfs_get` of a directory. -/
def Fs.getDirnode (s : Fs) (o : Outcome) (get : Bool) (uuid : Uuid) : Fs × Option Dirnode :=
  match if get then readNode (s.readDirnode o.bucket0 uuid) (s.dirnodes uuid) else none with
  | none => (s, none)
  | some n => ({ s with dirnodes := update s.dirnodes uuid (some n) }, some n.object)

/-- `nexus_vfs_get` of a directory for writing. -/
def Fs.lockDirnode (s : Fs) (o : Outcome) (get : Bool) (uuid : Uuid) : Fs × Option Dirnode :=
  match s.getDirnode o get uuid with
  | (s, none) => (s.mayLeave o (.dir uuid), none)
  | (s, some d) => (s, some d)

/-- `nexus_vfs_get` of a file, which locks it. -/
def Fs.getFilenode (s : Fs) (o : Outcome) (uuid : Uuid) : Fs × Option Filenode :=
  match if o.getFirst then readNode (s.readFilenode uuid) (s.filenodes uuid) else none with
  | none =>
    ({ s with
        fileBuffers := update s.fileBuffers uuid
          (if o.fileLeft then (s.fileBuffers uuid).lock else s.fileBuffers uuid) },
      none)
  | some n =>
    ({ s with
        filenodes := update s.filenodes uuid (some n)
        fileBuffers := update s.fileBuffers uuid (s.fileBuffers uuid).lock },
      some n.object)

/-! ## Directories -/

/-- A lookup in the cached dirnode changed its memory of failed lookups. -/
def Fs.setDirnode (s : Fs) (uuid : Uuid) (d : Dirnode) : Fs :=
  { s with
    dirnodes := update s.dirnodes uuid
      ((s.dirnodes uuid).map fun n => { n with object := d }) }

/-- The cached dirnode was modified and marked dirty. -/
def Fs.modifyDirnode (s : Fs) (uuid : Uuid) (d : Dirnode) : Fs :=
  { s with
    dirnodes := update s.dirnodes uuid
      ((s.dirnodes uuid).map fun n => { n with object := d, isDirty := true }) }

/-- The objects that a store of a dirnode starts from. -/
def Fs.storedDirnode (s : Fs) (uuid : Uuid) : StoredDirnode :=
  match s.objects uuid with
  | some (.dirnode stored) => stored
  | _ => { main := [], buckets := fun _ => none }

/-- What storing `d` does to the datastore.  The bucket whose `bucket_store` fails
may stay locked. -/
def Fs.diskStore (s : Fs) (o : Outcome) (uuid : Uuid) (d : Dirnode) : Fs :=
  let deferred : Deferred :=
    { main := s.defers o (.dir uuid), buckets := fun b => s.defers o (.bucket b) }
  let old := s.atDisk.storedDirnode uuid
  let ok := (dirnodeStore (o.store uuid) d old).2.2
  let stored := some (.dirnode (dirnodeStoreDisk deferred (o.store uuid) d old))
  { s with
    disk :=
      match ok && !deferred.main, s.disk uuid with
      | true, _ => update s.disk uuid stored
      | false, some (.dirnode _) => update s.disk uuid stored
      | false, _ => s.disk
    leftover := fun l => s.leftover l || match l with
      | .bucket b => !ok && !(o.store uuid).bucketStore b && o.leaves l
      | _ => false }

/-- `nexus_metadata_store` of a dirnode.  A failed store leaves the main object
as it was and makes the cached copy invalid. -/
def Fs.storeDirnode (s : Fs) (o : Outcome) (uuid : Uuid) : Fs × Bool :=
  match s.dirnodes uuid with
  | none => (s, false)
  | some n =>
    if !n.isDirty then (s, true)
    else
      let (d, stored, ok) := dirnodeStore (o.store uuid) n.object (s.storedDirnode uuid)
      if ok then
        ({ s.diskStore o uuid n.object with
            objects := update s.objects uuid (some (.dirnode stored))
            dirnodes := update s.dirnodes uuid
              (some { n with object := d, isDirty := false }) },
          true)
      else
        ({ s.diskStore o uuid n.object with
            objects :=
              match s.objects uuid with
              | some (.dirnode _) => update s.objects uuid (some (.dirnode stored))
              | _ => s.objects
            dirnodes := update s.dirnodes uuid
              (some { n with object := d, isInvalid := true }) },
          false)

/-- `buffer_layer_new`. -/
def Fs.withObject (s : Fs) (uuid : Uuid) (type : DirentType) : Fs :=
  { s with
    objects := update s.objects uuid (some (.empty type))
    disk := update s.disk uuid (some (.empty type)) }

/-- `nexus_vfs_delete`; what the datastore answers is not looked at. -/
def Fs.delete (s : Fs) (o : Outcome) (uuid : Uuid) : Fs :=
  { s with
    objects := if o.bufferDel then update s.objects uuid none else s.objects
    disk := if o.bufferDel then update s.disk uuid none else s.disk
    dirnodes := update s.dirnodes uuid none
    filenodes := update s.filenodes uuid none }

/-! ## The hardlink table -/

/-- `nexus_vfs_acquire_hardlink_table`. -/
def Fs.acquireTable (s : Fs) (o : Outcome) : Fs × Option HardlinkTable :=
  match if o.tableAcquire then readNode (some s.storedTable) s.table else none with
  | none => (s.mayLeave o .table, none)
  | some n => ({ s with table := some n }, some n.object)

/-- The cached table was modified and marked dirty. -/
def Fs.modifyTable (s : Fs) (t : HardlinkTable) : Fs :=
  { s with table := s.table.map fun n => { n with object := t, isDirty := true } }

/-- `nexus_vfs_flush_hardlink_table`.  No caller releases the table if it fails. -/
def Fs.flushTable (s : Fs) (o : Outcome) : Fs × Bool :=
  match s.table with
  | none => (s, false)
  | some n =>
    if !n.isDirty then (s, true)
    else if o.tableFlush then
      ({ s with
          storedTable := n.object
          diskTable := if s.defers o .table then s.diskTable else n.object
          table := some { n with isDirty := false } },
        true)
    else ({ s.leave .table with table := some { n with isInvalid := true } }, false)

/-! ## Files -/

/-- `nexus_vfs_put` of a locked file. -/
def Fs.putFilenode (s : Fs) (o : Outcome) (uuid : Uuid) : Fs :=
  { s with
    fileBuffers := update s.fileBuffers uuid
      ((s.fileBuffers uuid).unlock o.fileUnlock) }

/-- The cached filenode was modified and marked dirty. -/
def Fs.modifyFilenode (s : Fs) (uuid : Uuid) (f : Filenode) : Fs :=
  { s with
    filenodes := update s.filenodes uuid
      ((s.filenodes uuid).map fun n => { n with object := f, isDirty := true }) }

/-- `nexus_metadata_store` of a filenode.  It needs the file to be locked, and
leaves the write to the others while there are other writers. -/
def Fs.storeFilenode (s : Fs) (o : Outcome) (uuid : Uuid) : Fs × Bool :=
  match s.filenodes uuid with
  | none => (s, false)
  | some n =>
    let buffer := s.fileBuffers uuid
    let freed := { buffer with pending := buffer.pending.map fun _ => none }
    let stored := { s with
      filenodes := update s.filenodes uuid (some { n with isDirty := false }) }
    let failed := { s with
      filenodes := update s.filenodes uuid (some { n with isInvalid := true }) }
    if !n.isDirty then (s, true)
    else if !buffer.lockMode then (failed, false)
    else if !o.filePut then
      ({ failed with fileBuffers := update s.fileBuffers uuid freed }, false)
    else if buffer.writers > 1 then
      ({ stored with
          fileBuffers := update s.fileBuffers uuid
            { buffer with writers := buffer.writers - 1, pending := some (some n.object) } },
        true)
    else
      ({ stored with
          objects := update s.objects uuid (some (.filenode n.object))
          disk := update s.disk uuid (some (.filenode n.object))
          fileBuffers := update s.fileBuffers uuid
            { freed with writers := 0, lockMode := false } },
        true)

end Nexus
