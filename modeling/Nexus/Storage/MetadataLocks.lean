import Nexus.Storage.Versions

/-!
# The locks of a metadata object

`metadata.c` and `vfs.c` take the locks of the buffer layer.  A copy of an object
remembers in one flag, `is_locked`, that it was locked, and gives the lock back
when it is stored or unlocked.  What the copy holds does not matter here: whether
the contents that a get returns are decrypted and parsed is an outcome, like the
results of the ocalls.
-/

namespace Nexus

/-- `struct nexus_metadata`, without the object and its version. -/
structure MetadataLock where
  flags : IoFlags
  isDirty : Bool
  isInvalid : Bool
  isLocked : Bool
  deriving DecidableEq, Repr

/-- `nexus_metadata_from_object`. -/
def MetadataLock.fromObject (flags : IoFlags) : MetadataLock where
  flags := flags
  isDirty := false
  isInvalid := false
  isLocked := nexusIoInLockMode flags

/-- A store has something to write. -/
def MetadataLock.mustStore (m : MetadataLock) : Bool := m.isDirty || m.flags.fcreate

/-- The copy of an object that is cached, and the buffer layer below it. -/
structure ObjectLocks where
  metadata : Option MetadataLock
  buffer : BufferState
  deriving DecidableEq, Repr

/-- How `__read_object` ends: the get, and whether its answer is decrypted and
parsed. -/
structure ReadOutcome where
  get : GetResult
  parsed : Bool
  deriving DecidableEq, Repr

/-- How the ocalls of `nexus_metadata_revalidate` end; `stattime` is `none` if the
ocall fails, and `uninit` is what `has_changed` then is. -/
structure RevalidateOutcome where
  stattime : Option Nat
  uninit : Bool
  read : ReadOutcome
  lock : OcallResult
  deriving DecidableEq, Repr

/-- How a store ends: whether it gets as far as the put, and how that ends. -/
structure PutOutcome where
  reached : Bool
  heap : Bool
  put : OcallResult
  bytes : Bytes
  now : Nat
  deriving DecidableEq, Repr

/-- The put comes after a step that may have failed. -/
def PutOutcome.after (stored : Bool) (o : PutOutcome) : PutOutcome :=
  { o with reached := o.reached && stored }

/-- How `bucket_store` ends: whether `buffer_layer_lock` succeeds, and the put. -/
structure BucketPut where
  uuid : Uuid
  onDisk : Bool
  locked : Bool
  put : PutOutcome
  deriving DecidableEq, Repr

structure SyncOutcome where
  lock : OcallResult
  put : PutOutcome
  relock : OcallResult
  deriving DecidableEq, Repr

/-- How `nexus_vfs_load` ends; `load` is its second attempt. -/
structure LoadOutcome where
  revalidate : RevalidateOutcome
  load : ReadOutcome
  deriving DecidableEq, Repr

/-- The revalidation of a copy that is cached. -/
abbrev LoadOutcome.cached (o : LoadOutcome) : RevalidateOutcome :=
  { o.revalidate with uninit := false }

/-- How `dentry_revalidate` ends: whether the dentry has its metadata, how the
metadata is found, and whether the uuids agree. -/
structure DentryOutcome where
  instantiated : Bool
  load : LoadOutcome
  verified : Bool
  deriving DecidableEq, Repr

/-- A directory that the ecall holds is visited through the dentry that it is held
by. -/
def DentryOutcome.through (o : DentryOutcome) (held : Bool) : DentryOutcome :=
  { o with instantiated := o.instantiated || held }

theorem DentryOutcome.through_false (o : DentryOutcome) : o.through false = o := by
  simp [DentryOutcome.through]

namespace ObjectLocks

/-- `nexus_metadata_load`, and `nexus_metadata_reload` of a cached copy. -/
def load (flags : IoFlags) (o : ReadOutcome) (c : ObjectLocks) : ObjectLocks × Bool :=
  match bufferLayerGet flags o.get c.buffer with
  | (buffer, none) => ({ c with buffer }, false)
  | (buffer, some _) =>
    if o.parsed then (⟨some (.fromObject flags), buffer⟩, true) else ({ c with buffer }, false)

/-- `nexus_metadata_create`. -/
def create (r : OcallResult) (c : ObjectLocks) : ObjectLocks × Bool :=
  match bufferLayerLock nexusFcreate r c.buffer with
  | (buffer, false) => ({ c with buffer }, false)
  | (buffer, true) => (⟨some (.fromObject nexusFcreate), buffer⟩, true)

/-- `buffer_layer_revalidate`: `*should_reload` after the call. -/
def hasChanged (o : RevalidateOutcome) (c : ObjectLocks) : Bool :=
  match c.buffer.metaBuf with
  | none => true
  | some b =>
    match o.stattime with
    | none => o.uninit
    | some t => decide (b.timestamp < t)

/-- `nexus_metadata_lock`. -/
def lock (flags : IoFlags) (r : OcallResult) (c : ObjectLocks) : ObjectLocks × Bool :=
  match bufferLayerLock flags r c.buffer with
  | (buffer, false) => ({ c with buffer }, false)
  | (buffer, true) =>
    (⟨c.metadata.map fun m => { m with isLocked := true }, buffer⟩, true)

/-- `nexus_metadata_revalidate`. -/
def revalidate (flags : IoFlags) (o : RevalidateOutcome) (m : MetadataLock) (c : ObjectLocks) :
    ObjectLocks × Bool :=
  if m.isInvalid then c.load flags o.read
  else if c.hasChanged o then c.load flags o.read
  else if nexusIoInLockMode flags then c.lock flags o.lock
  else (c, true)

/-- `nexus_metadata_unlock`. -/
def unlock (r : OcallResult) (c : ObjectLocks) : ObjectLocks :=
  match c.metadata with
  | none => c
  | some m =>
    if m.isLocked then
      ⟨some { m with isLocked := false }, (bufferLayerUnlock r c.buffer).1⟩
    else c

/-- `nexus_metadata_store`.  After a failure, `buffer_layer_lock_status` says
whether the file is still locked. -/
def store (o : PutOutcome) (c : ObjectLocks) : ObjectLocks × Bool :=
  match c.metadata with
  | none => (c, false)
  | some m =>
    if !m.mustStore then (c, true)
    else if !o.reached then
      ({ c with metadata := some { m with isInvalid := true, isLocked := c.buffer.inWriteMode } },
        false)
    else
      match bufferLayerAllocPut o.bytes o.heap o.put o.now c.buffer with
      | (buffer, false) =>
        (⟨some { m with isInvalid := true, isLocked := buffer.inWriteMode }, buffer⟩, false)
      | (buffer, true) => (⟨some { m with isDirty := false, isLocked := false }, buffer⟩, true)

/-- A store finds nothing to write, and returns at once. -/
def skipsStore (c : ObjectLocks) : Bool := c.metadata.any (!·.mustStore)

/-- `bucket_store`, for a bucket, which has no copy of its own.  Once the bucket is
locked, no error exit gives the lock back. -/
def storeBucket (o : BucketPut) (c : ObjectLocks) : ObjectLocks × Bool :=
  if !o.locked then (c, false)
  else
    let buffer := (bufferLayerLock (if o.onDisk then nexusFwrite else nexusFcreate) .ok c.buffer).1
    if !o.put.reached then ({ c with buffer }, false)
    else
      let (buffer, ok) :=
        bufferLayerAllocPut o.put.bytes o.put.heap o.put.put o.put.now buffer
      ({ c with buffer }, ok)

/-- `nexus_metadata_reset`. -/
def reset (r : OcallResult) (o : ReadOutcome) (c : ObjectLocks) : ObjectLocks :=
  ((c.unlock r).load nexusFread o).1

/-- `__nexus_metadata_sync`. -/
def sync (o : SyncOutcome) (c : ObjectLocks) : ObjectLocks × Bool :=
  match c.metadata with
  | none => (c, false)
  | some m =>
    match (if m.isLocked then (c, true) else c.lock nexusFwrite o.lock) with
    | (c, false) => (c, false)
    | (c, true) =>
      match c.store o.put with
      | (c, false) => (c, false)
      | (c, true) =>
        -- reopen in old mode
        if nexusIoInLockMode m.flags then c.lock m.flags o.relock else (c, true)

/-- The first lock of a sync succeeds. -/
def syncLocks (r : OcallResult) (c : ObjectLocks) : Bool :=
  c.metadata.any fun m => m.isLocked || c.buffer.inWriteMode || decide (r = .ok)

/-- `__metadata_set_dirty`. -/
def setDirty (c : ObjectLocks) : ObjectLocks :=
  { c with metadata := c.metadata.map fun m => { m with isDirty := true } }

/-- `nexus_metadata_free`. -/
def free (c : ObjectLocks) : ObjectLocks := { c with metadata := none }

/-- `buffer_layer_evict`. -/
def evictBuffer (c : ObjectLocks) : ObjectLocks :=
  { c with buffer := { c.buffer with metaBuf := none } }

/-- `__lru_shrinker`. -/
def evict (c : ObjectLocks) : ObjectLocks := c.evictBuffer.free

/-- `nexus_vfs_acquire_hardlink_table` and its siblings. -/
def acquire (flags : IoFlags) (o : RevalidateOutcome) (c : ObjectLocks) : ObjectLocks × Bool :=
  match c.metadata with
  | none => c.load flags o.read
  | some m => c.revalidate flags o m

/-- The second attempt of `nexus_vfs_load`.  Its `nexus_lru_put` frees the copy that
it replaces, and with it the entry of the buffer layer. -/
def vfsReload (flags : IoFlags) (o : ReadOutcome) (c : ObjectLocks) : ObjectLocks × Bool :=
  match c.load flags o with
  | (c, false) => (c, false)
  | (c, true) => (c.evictBuffer, true)

/-- `nexus_vfs_load`, and `nexus_vfs_revalidate` of a dentry that has its
metadata. -/
def vfsLoad (instantiated : Bool) (flags : IoFlags) (o : LoadOutcome) (c : ObjectLocks) :
    ObjectLocks × Bool :=
  match c.metadata with
  | none => c.load flags o.load
  | some m =>
    match c.revalidate flags { o.revalidate with uninit := false } m with
    | (c, true) => (c, true)
    | (c, false) => if instantiated then (c, false) else c.vfsReload flags o.load

/-- `dentry_revalidate`. -/
def dentryRevalidate (flags : IoFlags) (o : DentryOutcome) (c : ObjectLocks) :
    ObjectLocks × Bool :=
  let (c, ok) := c.vfsLoad o.instantiated flags o.load
  (c, ok && o.verified)

end ObjectLocks

end Nexus
