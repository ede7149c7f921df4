import Nexus.Files.Backend
import Nexus.Storage.BufferLayer

/-!
# Metadata buffers in batch mode

In batch mode `io.c` keeps the changes of metadata objects from the main store until a
commit.  A changed directory object is only held in the buffer; a changed file object is
written to a second store, the batch store, where every object is copied when it is opened.
`io_buffer_sync_buffers` brings the changes to the main store.

What belongs to a uuid is decided by flags of its buffer:

* `isDirty`: the contents are in the buffer and not in the batch store,
* `batchModeCreated`: the object was created in batch mode,
* `batchModeModified`: the commit has to copy the object,
* `batchFileExists`: the batch store has a current copy,
* `syncFileExists`: the main store is known to have the object.

The stores read, write and copy what they are asked to, or fail and change nothing.  A file
object is laid out in its file by `__store_filenode`.
-/

namespace Nexus.Backend

open List

open Files (storeFilenode parseFilenode)

/-! ## Stores and buffers -/

/-- A datastore: the contents of its objects. -/
abbrev Datastore := Uuid → Option Bytes

/-- Write an object. -/
def Datastore.put (store : Datastore) (uuid : Uuid) (bytes : Bytes) : Datastore :=
  fun u => if u = uuid then some bytes else store u

/-- Remove an object. -/
def Datastore.del (store : Datastore) (uuid : Uuid) : Datastore :=
  fun u => if u = uuid then none else store u

/-- `nexus_io_flags_t` with the flag for file objects. -/
structure OpenFlags extends IoFlags where
  fnode : Bool
  deriving DecidableEq, Repr

/-- All of the flags are among the others. -/
def OpenFlags.subset (flags others : OpenFlags) : Bool :=
  (!flags.fread || others.fread) && (!flags.fwrite || others.fwrite) &&
    (!flags.fcreate || others.fcreate) && (!flags.fcrypto || others.fcrypto) &&
    (!flags.fnode || others.fnode)

/-- `struct metadata_buf`.  `handle` is the batch handle with its flags. -/
structure MetadataBuf where
  uuid : Uuid
  buffer : Bytes
  handle : Option OpenFlags
  isDirty : Bool
  batchModeCreated : Bool
  batchModeModified : Bool
  batchFileExists : Bool
  syncFileExists : Bool
  deriving DecidableEq, Repr

/-- `__alloc_metadata_buf`. -/
def allocMetadataBuf (uuid : Uuid) : MetadataBuf :=
  ⟨uuid, [], none, false, false, false, false, false⟩

/-- The two stores, the table of buffers, and the deletions that are left to the commit.
`hung` after a call that waits for a lock that is never given back. -/
structure Io where
  main : Datastore
  batch : Datastore
  table : List MetadataBuf
  deleted : List Uuid
  hung : Bool

/-- `buffer_manager_find`. -/
def bufferManagerFind (io : Io) (uuid : Uuid) : Option MetadataBuf :=
  io.table.find? (·.uuid = uuid)

/-- `buffer_manager_del`. -/
def bufferManagerDel (io : Io) (uuid : Uuid) : Io :=
  { io with table := io.table.filter (·.uuid ≠ uuid) }

/-- `buffer_manager_add`: an old buffer is replaced. -/
def bufferManagerAdd (io : Io) (buf : MetadataBuf) : Io :=
  { io with table := buf :: io.table.filter (·.uuid ≠ buf.uuid) }

/-- The buffer in the table changes. -/
def updateBuf (io : Io) (buf : MetadataBuf) : Io :=
  { io with table := io.table.map fun b => if b.uuid = buf.uuid then buf else b }

@[simp] theorem Datastore.put_self (store : Datastore) (uuid : Uuid) (bytes : Bytes) :
    store.put uuid bytes uuid = some bytes := if_pos rfl

variable {u : Uuid}

theorem Datastore.put_of_ne (store : Datastore) {uuid : Uuid} (h : u ≠ uuid) (bytes : Bytes) :
    store.put uuid bytes u = store u := if_neg h

variable {io : Io} {buf : MetadataBuf}

theorem uuid_of_find (h : bufferManagerFind io u = some buf) : buf.uuid = u := by
  simpa using find?_some h

theorem mem_of_find (h : bufferManagerFind io u = some buf) : buf ∈ io.table :=
  mem_of_find?_eq_some h

theorem find_of_mem (hnodup : (io.table.map (·.uuid)).Nodup) (h : buf ∈ io.table) :
    bufferManagerFind io buf.uuid = some buf :=
  Keyed.get_of_mem hnodup h

theorem find_eq_none_iff :
    bufferManagerFind io u = none ↔ u ∉ io.table.map (·.uuid) := by
  simp [bufferManagerFind]

theorem find_updateBuf (io : Io) (buf : MetadataBuf) (u : Uuid) :
    bufferManagerFind (updateBuf io buf) u =
      if u = buf.uuid then (bufferManagerFind io u).map fun _ => buf
      else bufferManagerFind io u := by
  obtain ⟨main, batch, table, deleted, hung⟩ := io
  simp only [bufferManagerFind, updateBuf]
  induction table with
  | nil => simp
  | cons b table ih =>
    rw [map_cons, find?_cons, find?_cons, ih]
    by_cases hb : b.uuid = buf.uuid
    · by_cases hu : u = buf.uuid
      · simp [hb, hu]
      · simp [hb, hu, Ne.symm hu]
    · by_cases hu : u = buf.uuid
      · simp [hb, hu]
      · simp [hb, hu]

theorem find_bufferManagerDel (io : Io) (uuid u : Uuid) :
    bufferManagerFind (bufferManagerDel io uuid) u =
      if u = uuid then none else bufferManagerFind io u := by
  by_cases hu : u = uuid
  · simp [bufferManagerFind, bufferManagerDel, hu, find?_filter]
  · have hsame : (fun b : MetadataBuf => !decide (b.uuid = uuid) && decide (b.uuid = u)) =
        fun b => decide (b.uuid = u) := by
      funext b
      by_cases hb : b.uuid = u
      · simp [hb, hu]
      · simp [hb]
    simp [bufferManagerFind, bufferManagerDel, hu, find?_filter, hsame]

theorem find_bufferManagerAdd (io : Io) (buf : MetadataBuf) (u : Uuid) :
    bufferManagerFind (bufferManagerAdd io buf) u =
      if u = buf.uuid then some buf else bufferManagerFind io u := by
  by_cases hu : u = buf.uuid
  · simp [bufferManagerFind, bufferManagerAdd, hu]
  · have hdel := find_bufferManagerDel io buf.uuid u
    rw [if_neg hu] at hdel ⊢
    rw [← hdel]
    simp [bufferManagerFind, bufferManagerAdd, bufferManagerDel, Ne.symm hu]

theorem nodup_bufferManagerDel (h : (io.table.map (·.uuid)).Nodup) (uuid : Uuid) :
    ((bufferManagerDel io uuid).table.map (·.uuid)).Nodup :=
  h.sublist (filter_sublist.map _)

theorem nodup_bufferManagerAdd (h : (io.table.map (·.uuid)).Nodup) (buf : MetadataBuf) :
    ((bufferManagerAdd io buf).table.map (·.uuid)).Nodup := by
  rw [bufferManagerAdd, map_cons, nodup_cons]
  refine ⟨?_, nodup_bufferManagerDel h buf.uuid⟩
  simp

@[simp] theorem map_uuid_updateBuf (io : Io) (buf : MetadataBuf) :
    (updateBuf io buf).table.map (·.uuid) = io.table.map (·.uuid) := by
  rw [updateBuf, map_map]
  refine map_congr_left fun b _ => ?_
  by_cases hb : b.uuid = buf.uuid
  · simp [hb]
  · simp [hb]

/-! ## Opening and releasing -/

/-- Which of the calls of `__open_metadata_file` succeed. -/
structure OpenEnv where
  copied : Bool
  opened : Bool
  deriving DecidableEq, Repr

/-- `__copy_metadata_file_to_batch_directory`, unless the copy exists. -/
def copyToBatch (copied : Bool) (main batch : Datastore) (buf : MetadataBuf) :
    Datastore × MetadataBuf × Bool :=
  if buf.batchFileExists then (batch, buf, true)
  else
    match main buf.uuid with
    | none => (batch, buf, false)
    | some bytes =>
      if copied then
        (batch.put buf.uuid bytes, { buf with batchFileExists := true, syncFileExists := true }, true)
      else (batch, buf, false)

/-- `nexus_datastore_fopen` on the batch store: a file that is not there is created if the
flags say so, and the flags of the buffer follow. -/
def openBatchFile (opened : Bool) (batch : Datastore) (buf : MetadataBuf) (flags : OpenFlags) :
    Datastore × MetadataBuf × Bool :=
  if opened && (flags.fcreate || (batch buf.uuid).isSome) then
    (batch.put buf.uuid ((batch buf.uuid).getD []),
      { buf with
        handle := some flags
        batchModeCreated := buf.batchModeCreated || flags.fcreate
        batchFileExists := buf.batchFileExists || flags.fcreate }, true)
  else (batch, buf, false)

/-- `__open_metadata_file` on a buffer without a handle: the new batch store and buffer, and
whether the file was opened. -/
def openMetadataFile (env : OpenEnv) (main batch : Datastore) (buf : MetadataBuf)
    (flags : OpenFlags) : Datastore × MetadataBuf × Bool :=
  let (batch, buf, copied) :=
    if flags.fcreate || buf.batchModeCreated then (batch, buf, true)
    else copyToBatch env.copied main batch buf
  if copied then openBatchFile env.opened batch buf flags else (batch, buf, false)

/-- `__release_metadata_buf`: nothing without a handle. -/
def releaseMetadataBuf (buf : MetadataBuf) : MetadataBuf :=
  match buf.handle with
  | none => buf
  | some _ => { buf with handle := none, isDirty := false }

/-! ## The calls -/

/-- How a call ends. -/
inductive IoResult where
  | ok
  | failed
  deriving DecidableEq, Repr

/-- `__io_buffer_lock`. -/
def ioBufferLock (env : OpenEnv) (io : Io) (uuid : Uuid) (flags : OpenFlags) : Io × IoResult :=
  let (io, buf) :=
    match bufferManagerFind io uuid with
    | some buf => (io, buf)
    | none => (bufferManagerAdd io (allocMetadataBuf uuid), allocMetadataBuf uuid)
  match buf.handle with
  | some ioFlags =>
    if !flags.subset ioFlags then (io, .failed)
    -- the lock of the buffer is held by whoever opened it
    else if nexusIoInLockMode ioFlags.toIoFlags then ({ io with hung := true }, .failed)
    else (io, .ok)
  | none =>
    let (batch, buf, opened) := openMetadataFile env io.main io.batch buf flags
    (updateBuf { io with batch } buf, if opened then .ok else .failed)

/-- `__io_buffer_unlock`. -/
def ioBufferUnlock (io : Io) (uuid : Uuid) (closed : Bool) : Io × IoResult :=
  match bufferManagerFind io uuid with
  | none => (io, .ok)
  | some buf =>
    (updateBuf io (releaseMetadataBuf buf), if buf.handle.isNone || closed then .ok else .failed)

/-- What `__io_buffer_get` depends on besides: whether the file can be examined, whether it is
empty, whether the buffer is not older than the file, and whether the file can be read. -/
structure GetEnv where
  lockEnv : OpenEnv
  statted : Bool
  upToDate : Bool
  openEnv : OpenEnv
  read : Bool
  deriving DecidableEq, Repr

/-- `io_backend_get_datastore`. -/
def ioBackendGetDatastore (io : Io) (uuid : Uuid) : Datastore :=
  match bufferManagerFind io uuid with
  | some buf => if buf.batchFileExists then io.batch else io.main
  | none => io.main

/-- `__read_metadata_file`, on the bytes of the open file. -/
def readMetadataFile (ioFlags : OpenFlags) (read : Bool) (bytes : Bytes) : Option Bytes :=
  if !read then none
  else if ioFlags.fnode then parseFilenode ⟨bytes, 0⟩
  else some bytes

/-- The part of `__io_buffer_read` that reads the file: the buffer with its contents. -/
def readDatastore (env : GetEnv) (io : Io) (buf : MetadataBuf) (flags : OpenFlags)
    (size : Nat) : Io × Option MetadataBuf :=
  if size = 0 then (io, some { buf with buffer := [] })
  else
    match buf.handle with
    | some ioFlags =>
      match readMetadataFile ioFlags env.read ((io.batch buf.uuid).getD []) with
      | some buffer => (io, some { buf with buffer })
      | none => (io, none)
    | none =>
      let (batch, buf, opened) := openMetadataFile env.openEnv io.main io.batch buf flags
      if !opened then (updateBuf { io with batch } buf, none)
      else
        match readMetadataFile flags env.read ((batch buf.uuid).getD []) with
        | some buffer => ({ io with batch }, some (releaseMetadataBuf { buf with buffer }))
        | none => (updateBuf { io with batch } (releaseMetadataBuf buf), none)

/-- `__io_buffer_read`. -/
def ioBufferRead (env : GetEnv) (io : Io) (uuid : Uuid) (flags : OpenFlags) (size : Nat) :
    Io × IoResult :=
  match bufferManagerFind io uuid with
  | none =>
    match readDatastore env io (allocMetadataBuf uuid) flags size with
    | (io, some buf) => (bufferManagerAdd io buf, .ok)
    | (io, none) => (io, .failed)
  | some buf =>
    if buf.isDirty || env.upToDate then (io, .ok)
    else
      match readDatastore env io buf flags size with
      | (io, some buf) => (updateBuf io buf, .ok)
      | (io, none) => (io, .failed)

/-- `__io_buffer_get`. -/
def ioBufferGet (env : GetEnv) (io : Io) (uuid : Uuid) (flags : OpenFlags) : Io × IoResult :=
  match ioBackendGetDatastore io uuid uuid with
  | none => (io, .failed)
  | some contents =>
    if !env.statted then (io, .failed)
    else
      let (io, result) :=
        if flags.fwrite || flags.fcrypto then ioBufferLock env.lockEnv io uuid flags
        else (io, .ok)
      if result = .ok && flags.fread then ioBufferRead env io uuid flags contents.length
      else (io, result)

/-- Which calls of `__io_buffer_put` succeed. -/
structure PutEnv where
  stored : Bool
  closed : Bool
  deriving DecidableEq, Repr

/-- `__io_buffer_store_filenode` on the batch store, and whether it succeeded. -/
def ioBufferStoreFilenode (stored : Bool) (batch : Datastore) (uuid : Uuid) (buffer : Bytes)
    (dataSize : Nat) : Datastore × Bool :=
  if stored then
    let (file, ok) := storeFilenode ⟨(batch uuid).getD [], 0⟩ buffer dataSize
    (batch.put uuid file.bytes, ok)
  else (batch, false)

/-- `__io_buffer_put`. -/
def ioBufferPut (env : PutEnv) (io : Io) (uuid : Uuid) (buffer : Bytes) (dataSize : Nat) :
    Io × IoResult :=
  match bufferManagerFind io uuid with
  | none => (io, .failed)
  | some buf =>
    match buf.handle with
    | none => (io, .failed)
    | some ioFlags =>
      let (batch, stored) :=
        if ioFlags.fnode then ioBufferStoreFilenode env.stored io.batch uuid buffer dataSize
        else (io.batch, true)
      let io := { io with batch }
      if !stored then (updateBuf io (releaseMetadataBuf buf), .failed)
      else
        let buf := releaseMetadataBuf { buf with batchModeModified := true, isDirty := true }
        if env.closed then (updateBuf io { buf with buffer, isDirty := !ioFlags.fnode }, .ok)
        else (updateBuf io buf, .failed)

/-- `__io_buffer_new`.  A file that is there is left as it is. -/
def ioBufferNew (touched : Bool) (io : Io) (uuid : Uuid) : Io × IoResult :=
  if touched then
    (bufferManagerAdd { io with batch := io.batch.put uuid ((io.batch uuid).getD []) }
      { allocMetadataBuf uuid with
        batchModeCreated := true
        batchModeModified := true
        batchFileExists := true }, .ok)
  else (io, .failed)

/-- `batch_deleted_uuids` after a deletion: only an object that the buffer knows to be in the
main store is left to the commit. -/
def batchDeletedUuids (io : Io) (uuid : Uuid) : List Uuid :=
  match bufferManagerFind io uuid with
  | some buf => if buf.syncFileExists then io.deleted ++ [uuid] else io.deleted
  | none => io.deleted

/-- `__io_buffer_del`. -/
def ioBufferDel (unlinked : Bool) (io : Io) (uuid : Uuid) : Io × IoResult :=
  let io := bufferManagerDel { io with deleted := batchDeletedUuids io uuid } uuid
  if unlinked && (io.batch uuid).isSome then
    ({ io with batch := io.batch.del uuid }, .ok)
  else (io, .failed)

/-! ## The commit -/

/-- Which calls succeed when a buffer is brought to the main store. -/
structure SyncEnv where
  copied : Bool
  opened : Bool
  written : Bool
  flushed : Bool
  closed : Bool
  deriving DecidableEq, Repr

/-- How a commit ends. -/
inductive SyncResult where
  | ok
  | failed
  | hung
  deriving DecidableEq, Repr

/-- `__sync_on_disk_metadata`. -/
def syncOnDiskMetadata (env : SyncEnv) (batch main : Datastore) (buf : MetadataBuf) :
    Datastore × MetadataBuf × SyncResult :=
  match batch buf.uuid with
  | some bytes => if env.copied then (main.put buf.uuid bytes, buf, .ok) else (main, buf, .failed)
  | none => (main, buf, .failed)

/-- `__sync_in_memory_metadata`.  The handle of the main file replaces the flags of the
batch handle, and both are dropped. -/
def syncInMemoryMetadata (env : SyncEnv) (main : Datastore) (buf : MetadataBuf) :
    Datastore × MetadataBuf × SyncResult :=
  if !(env.opened && (buf.batchModeCreated || (main buf.uuid).isSome)) then (main, buf, .failed)
  else
    let main := main.put buf.uuid ((main buf.uuid).getD [])
    let buf := { buf with syncFileExists := true }
    match buf.handle.map fun ioFlags => nexusIoInLockMode ioFlags.toIoFlags with
    | some true => (main, buf, .hung)
    | _ =>
      let released := { buf with handle := none, isDirty := false }
      if !env.written then (main, released, .failed)
      else
        (main.put buf.uuid buf.buffer, released, if env.flushed && env.closed then .ok else .failed)

/-- One round of the loop of `__io_buffer_sync_buffers`, on a modified buffer. -/
def syncBuffer (env : SyncEnv) (batch main : Datastore) (buf : MetadataBuf) :
    Datastore × MetadataBuf × SyncResult :=
  let (main, buf, result) :=
    if buf.isDirty then syncInMemoryMetadata env main buf
    else syncOnDiskMetadata env batch main buf
  if result = .hung then (main, buf, .hung)
  else
    (main, { buf with
      batchModeCreated := false
      batchFileExists := false
      batchModeModified := false }, result)

/-- The loop of `__io_buffer_sync_buffers`, over the buffers in the order of the table. -/
def syncLoop (env : Uuid → SyncEnv) (batch : Datastore) :
    Datastore → List MetadataBuf → Datastore × List MetadataBuf × SyncResult
  | main, [] => (main, [], .ok)
  | main, buf :: bufs =>
    if !buf.batchModeModified then
      let (main, bufs, result) := syncLoop env batch main bufs
      (main, buf :: bufs, result)
    else
      match syncBuffer (env buf.uuid) batch main buf with
      | (main, buf, .ok) =>
        let (main, bufs, result) := syncLoop env batch main bufs
        (main, buf :: bufs, result)
      | (main, buf, result) => (main, buf :: bufs, result)

/-- `__sync_deleted_uuids`: a deletion that fails is dropped with the others. -/
def syncDeletedUuids (removed : Uuid → Bool) (main : Datastore) (deleted : List Uuid) : Datastore :=
  fun u => if u ∈ deleted ∧ removed u then none else main u

/-- `__io_buffer_sync_buffers`.  Without any buffer the deletions are not looked at. -/
def ioBufferSyncBuffers (env : Uuid → SyncEnv) (removed : Uuid → Bool) (io : Io) :
    Io × IoResult :=
  if io.table = [] then (io, .ok)
  else
    match syncLoop env io.batch io.main io.table with
    | (main, table, .ok) =>
      ({ io with main := syncDeletedUuids removed main io.deleted, table, deleted := [] }, .ok)
    | (main, table, .failed) => ({ io with main, table }, .failed)
    | (main, table, .hung) => ({ io with main, table, hung := true }, .failed)

end Nexus.Backend
