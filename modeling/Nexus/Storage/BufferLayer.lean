import Nexus.Lib.Codec

/-!
# The buffer layer

`buffer_layer.c` sits between the encrypted buffers of the enclave and the
ocalls.  For every uuid it counts the writers, remembers in which mode the file
was last opened, and keeps the buffer of a put.  A put of a file with more than
one writer is not written: the buffer is kept and marked dirty, "as there will
be another on the way".

The state is that of one uuid: the entry of the buffer cache and the file on the
untrusted side, as `io.c` holds it.  Each ocall takes its outcome as an argument.
-/

namespace Nexus

/-- `nexus_io_flags_t`, the bits that matter to locks. -/
structure IoFlags where
  fread : Bool
  fwrite : Bool
  fcreate : Bool
  fcrypto : Bool
  deriving DecidableEq, Repr

def nexusFread : IoFlags := ⟨true, false, false, false⟩

def nexusFwrite : IoFlags := ⟨false, true, false, false⟩

def nexusFrdwr : IoFlags := ⟨true, true, false, false⟩

def nexusFcreate : IoFlags := ⟨false, false, true, false⟩

def nexusIoInLockMode (flags : IoFlags) : Bool :=
  flags.fwrite || flags.fcreate || flags.fcrypto

/-- `struct metadata_buffer`. -/
structure MetadataBuffer where
  writers : Nat
  isDirty : Bool
  flags : IoFlags
  timestamp : Nat
  tmpBuffer : Option Bytes
  deriving DecidableEq, Repr

/-- The file on the untrusted side: its bytes, their time, and whether it is held
open in lock mode. -/
structure RemoteFile where
  bytes : Bytes
  bufferTime : Nat
  locked : Bool
  deriving DecidableEq, Repr

/-- The buffer layer and the file of one uuid. -/
structure BufferState where
  metaBuf : Option MetadataBuffer
  remote : RemoteFile
  deriving DecidableEq, Repr

/-- How an ocall ends: it returns zero, it returns an error, or it does not run. -/
inductive OcallResult where
  | ok
  | failed
  | error
  deriving DecidableEq, Repr

/-- How `ocall_buffer_get` ends.  `io_buffer_get` takes the lock before it reads,
and does not give it back when the read fails. -/
inductive GetResult where
  | ok
  | failed (tookLock : Bool)
  deriving DecidableEq, Repr

def MetadataBuffer.inWriteMode (b : MetadataBuffer) : Bool := nexusIoInLockMode b.flags

/-- What `nexus_malloc` gives: zero bytes. -/
def MetadataBuffer.zeroed : MetadataBuffer where
  writers := 0
  isDirty := false
  flags := ⟨false, false, false, false⟩
  timestamp := 0
  tmpBuffer := none

/-- `__metadata_buf_update`. -/
def metadataBufUpdate (b : MetadataBuffer) (timestamp : Nat) (flags : IoFlags) : MetadataBuffer :=
  { b with timestamp := if timestamp ≠ 0 then timestamp else b.timestamp, flags }

/-- `__bcache_update`. -/
def bcacheUpdate (b : Option MetadataBuffer) (timestamp : Nat) (flags : IoFlags) :
    MetadataBuffer :=
  metadataBufUpdate (b.getD .zeroed) timestamp flags

/-- `if (__in_write_mode(meta_buf)) meta_buf->writers += 1`. -/
def MetadataBuffer.countWriter (b : MetadataBuffer) : MetadataBuffer :=
  if b.inWriteMode then { b with writers := b.writers + 1 } else b

/-- `io_buffer_lock` that succeeds. -/
def RemoteFile.lock (flags : IoFlags) (f : RemoteFile) : RemoteFile :=
  { f with locked := f.locked || nexusIoInLockMode flags }

/-- `__release_metadata_buf`. -/
def RemoteFile.release (f : RemoteFile) : RemoteFile := { f with locked := false }

/-- `io_buffer_get` locks the file only for these flags. -/
def IoFlags.locksOnGet (flags : IoFlags) : Bool := flags.fwrite || flags.fcrypto

/-- The file after `io_buffer_get` that got to the lock.  `io.c` waits for `file_mutex` if
the file is already locked; the model lets the get go on. -/
def RemoteFile.lockForGet (flags : IoFlags) (f : RemoteFile) : RemoteFile :=
  { f with locked := f.locked || flags.locksOnGet }

/-- `buffer_layer_lock`. -/
def bufferLayerLock (flags : IoFlags) (r : OcallResult) (s : BufferState) : BufferState × Bool :=
  let ocall : BufferState × Bool :=
    match r with
    | .ok => (⟨some (bcacheUpdate s.metaBuf 0 flags).countWriter, s.remote.lock flags⟩, true)
    | .failed | .error => (s, false)
  match s.metaBuf with
  | none => ocall
  | some b =>
    -- prevent double locking
    if b.inWriteMode then ({ s with metaBuf := some { b with writers := b.writers + 1 } }, true)
    else ocall

/-- `buffer_layer_unlock`. -/
def bufferLayerUnlock (r : OcallResult) (s : BufferState) : BufferState × Bool :=
  match s.metaBuf with
  | none => (s, true)
  | some b =>
    if !b.inWriteMode then (s, true)
    else if b.writers = 0 then (s, false)
    else
      let b := { b with writers := b.writers - 1 }
      if b.writers ≠ 0 then ({ s with metaBuf := some b }, true)
      else
        match r with
        | .error => ({ s with metaBuf := some b }, false)
        | .failed => (⟨some (metadataBufUpdate b 0 nexusFread), s.remote.release⟩, false)
        | .ok => (⟨some (metadataBufUpdate b 0 nexusFread), s.remote.release⟩, true)

/-- `buffer_layer_get`: the buffer returned, or `none` for `NULL`. -/
def bufferLayerGet (flags : IoFlags) (r : GetResult) (s : BufferState) :
    BufferState × Option Bytes :=
  let ocall : BufferState × Option Bytes :=
    match r with
    | .failed true => ({ s with remote := s.remote.lockForGet flags }, none)
    | .failed false => (s, none)
    | .ok =>
      (⟨some (bcacheUpdate s.metaBuf s.remote.bufferTime flags).countWriter,
        s.remote.lockForGet flags⟩, some s.remote.bytes)
  match s.metaBuf with
  | none => ocall
  | some b => if b.isDirty then (s, b.tmpBuffer) else ocall

/-- `buffer_layer_alloc`, with the bytes that the caller then writes into the
buffer; `heap` is whether `nexus_heap_malloc` succeeds. -/
def bufferLayerAlloc (bytes : Bytes) (heap : Bool) (s : BufferState) : BufferState × Bool :=
  match s.metaBuf with
  | none => (s, false)
  | some b =>
    if !b.inWriteMode then (s, false)
    else if heap then ({ s with metaBuf := some { b with tmpBuffer := some bytes } }, true)
    else ({ s with metaBuf := some { b with tmpBuffer := none } }, false)

/-- `buffer_layer_dealloc`. -/
def bufferLayerDealloc (b : MetadataBuffer) : MetadataBuffer :=
  if !b.inWriteMode then b else { b with tmpBuffer := none }

/-- `buffer_layer_put`; `now` is the timestamp that the ocall returns. -/
def bufferLayerPut (r : OcallResult) (now : Nat) (s : BufferState) : BufferState × Bool :=
  match s.metaBuf with
  | none => (s, false)
  | some b =>
    match b.tmpBuffer with
    | none => (s, false)
    | some bytes =>
      -- no need to flush the buffer, as there will be another on the way
      if 1 < b.writers then
        ({ s with metaBuf := some { b with isDirty := true, writers := b.writers - 1 } }, true)
      else
        let b := bufferLayerDealloc b
        match r with
        | .error => ({ s with metaBuf := some b }, false)
        -- io.c gives the lock back also when the write fails
        | .failed => (⟨some b, s.remote.release⟩, false)
        | .ok =>
          (⟨some { metadataBufUpdate b now nexusFread with writers := 0 }, ⟨bytes, now, false⟩⟩,
            true)

/-- The writes of `nexus_crypto_buf_put`: the buffer is allocated, filled and
put. -/
def bufferLayerAllocPut (bytes : Bytes) (heap : Bool) (r : OcallResult) (now : Nat)
    (s : BufferState) : BufferState × Bool :=
  match bufferLayerAlloc bytes heap s with
  | (s, false) => (s, false)
  | (s, true) => bufferLayerPut r now s

/-- A call of the buffer layer, with how its ocall ends. -/
inductive BufferCall where
  | lock (flags : IoFlags) (r : OcallResult)
  | unlock (r : OcallResult)
  | get (flags : IoFlags) (r : GetResult)
  | put (bytes : Bytes) (heap : Bool) (r : OcallResult) (now : Nat)
  deriving DecidableEq, Repr

/-- The state after the call, and whether it succeeded. -/
def BufferCall.run (s : BufferState) : BufferCall → BufferState × Bool
  | .lock flags r => bufferLayerLock flags r s
  | .unlock r => bufferLayerUnlock r s
  | .get flags r => ((bufferLayerGet flags r s).1, (bufferLayerGet flags r s).2.isSome)
  | .put bytes heap r now => bufferLayerAllocPut bytes heap r now s

/-- A file that nobody has opened. -/
def BufferState.closed (bytes : Bytes) (time : Nat) : BufferState :=
  ⟨none, ⟨bytes, time, false⟩⟩

/-! ## The entry of the buffer cache

A uuid without an entry is handled like one with an entry of zero bytes. -/

namespace MetadataBuffer

variable (b : MetadataBuffer) (timestamp : Nat) (flags : IoFlags)

@[simp] theorem inWriteMode_countWriter : b.countWriter.inWriteMode = b.inWriteMode := by
  unfold countWriter
  split <;> rfl

theorem writers_countWriter :
    b.countWriter.writers = if b.inWriteMode then b.writers + 1 else b.writers := by
  unfold countWriter
  split <;> rfl

@[simp] theorem isDirty_countWriter : b.countWriter.isDirty = b.isDirty := by
  unfold countWriter
  split <;> rfl

@[simp] theorem tmpBuffer_countWriter : b.countWriter.tmpBuffer = b.tmpBuffer := by
  unfold countWriter
  split <;> rfl

@[simp] theorem inWriteMode_update :
    (metadataBufUpdate b timestamp flags).inWriteMode = nexusIoInLockMode flags := rfl

end MetadataBuffer

/-- The entry after a put that was not written. -/
def MetadataBuffer.deferred (bytes : Bytes) (b : MetadataBuffer) : MetadataBuffer :=
  { b with tmpBuffer := some bytes, isDirty := true, writers := b.writers - 1 }

namespace BufferState

/-- The entry of the uuid. -/
def buf (s : BufferState) : MetadataBuffer := s.metaBuf.getD .zeroed

/-- `meta_buf->writers`. -/
def writers (s : BufferState) : Nat := s.buf.writers

/-- `__in_write_mode(meta_buf)`. -/
def inWriteMode (s : BufferState) : Bool := s.buf.inWriteMode

/-- `meta_buf->is_dirty`. -/
def isDirty (s : BufferState) : Bool := s.buf.isDirty

/-- `meta_buf->tmp_buffer`. -/
def tmpBuffer (s : BufferState) : Option Bytes := s.buf.tmpBuffer

section Some

variable (b : MetadataBuffer) (f : RemoteFile)

@[simp] theorem buf_some : buf ⟨some b, f⟩ = b := rfl

@[simp] theorem writers_some : writers ⟨some b, f⟩ = b.writers := rfl

@[simp] theorem inWriteMode_some : inWriteMode ⟨some b, f⟩ = b.inWriteMode := rfl

@[simp] theorem isDirty_some : isDirty ⟨some b, f⟩ = b.isDirty := rfl

@[simp] theorem tmpBuffer_some : tmpBuffer ⟨some b, f⟩ = b.tmpBuffer := rfl

end Some

variable (s : BufferState)

theorem lock_eq (flags : IoFlags) (r : OcallResult) : bufferLayerLock flags r s =
    if s.inWriteMode then
      ({ s with metaBuf := some { s.buf with writers := s.writers + 1 } }, true)
    else if r = .ok then
      (⟨some (metadataBufUpdate s.buf 0 flags).countWriter, s.remote.lock flags⟩, true)
    else (s, false) := by
  obtain ⟨_ | b, remote⟩ := s <;> cases r <;> rfl

theorem unlock_eq (r : OcallResult) : bufferLayerUnlock r s =
    if s.inWriteMode = false then (s, true)
    else if s.writers = 0 then (s, false)
    else if 1 < s.writers then
      ({ s with metaBuf := some { s.buf with writers := s.writers - 1 } }, true)
    else if r = .error then ({ s with metaBuf := some { s.buf with writers := 0 } }, false)
    else (⟨some (metadataBufUpdate { s.buf with writers := 0 } 0 nexusFread), s.remote.release⟩,
      decide (r = .ok)) := by
  obtain ⟨_ | b, remote⟩ := s
  · rfl
  · simp only [bufferLayerUnlock, inWriteMode, writers, buf, Option.getD_some]
    by_cases hmode : b.inWriteMode = false
    · simp only [hmode, Bool.not_false, if_true]
    simp only [Bool.not_eq_false] at hmode
    simp only [hmode, Bool.not_true, Bool.false_eq_true, Bool.true_eq_false, if_false]
    by_cases hw : b.writers = 0
    · simp only [hw, if_true]
    by_cases hmany : 1 < b.writers
    · have hrest : b.writers - 1 ≠ 0 := by omega
      simp only [hw, hmany, hrest, if_false, if_true, ne_eq, not_false_eq_true]
    · have hzero : b.writers - 1 = 0 := by omega
      simp only [hw, hmany, hzero, if_false, ne_eq, not_true_eq_false]
      cases r <;> rfl

theorem get_eq (flags : IoFlags) (r : GetResult) : bufferLayerGet flags r s =
    if s.isDirty then (s, s.tmpBuffer)
    else match r with
      | .failed true => ({ s with remote := s.remote.lockForGet flags }, none)
      | .failed false => (s, none)
      | .ok =>
        (⟨some (metadataBufUpdate s.buf s.remote.bufferTime flags).countWriter,
          s.remote.lockForGet flags⟩, some s.remote.bytes) := by
  obtain ⟨_ | b, remote⟩ := s <;> rfl

theorem allocPut_eq (bytes : Bytes) (heap : Bool) (r : OcallResult) (now : Nat) :
    bufferLayerAllocPut bytes heap r now s =
      if s.inWriteMode = false then (s, false)
      else if heap = false then
        ({ s with metaBuf := some { s.buf with tmpBuffer := none } }, false)
      else if 1 < s.writers then
        ({ s with metaBuf := some (s.buf.deferred bytes) }, true)
      else match r with
        | .error => ({ s with metaBuf := some { s.buf with tmpBuffer := none } }, false)
        | .failed => (⟨some { s.buf with tmpBuffer := none }, s.remote.release⟩, false)
        | .ok =>
          (⟨some { (metadataBufUpdate { s.buf with tmpBuffer := none } now nexusFread) with
            writers := 0 }, ⟨bytes, now, false⟩⟩, true) := by
  obtain ⟨_ | b, remote⟩ := s
  · rfl
  · simp only [bufferLayerAllocPut, bufferLayerAlloc, inWriteMode, writers, buf, Option.getD_some]
    by_cases hmode : b.inWriteMode = false
    · simp only [hmode, Bool.not_false, if_true]
    simp only [Bool.not_eq_false] at hmode
    simp only [hmode, Bool.not_true, Bool.false_eq_true, Bool.true_eq_false, if_false]
    cases heap with
    | false => rfl
    | true =>
      have hdealloc : bufferLayerDealloc { b with tmpBuffer := some bytes }
          = { b with tmpBuffer := none } := by
        rw [bufferLayerDealloc, if_neg]
        rw [Bool.not_eq_true, Bool.not_eq_false']
        exact hmode
      simp only [if_true, Bool.true_eq_false, if_false, bufferLayerPut, hdealloc]
      cases r <;> rfl

/-! ### What stays

Only a put changes the bytes of the datastore or the dirty flag. -/

/-- The bytes and the dirty flag are as before. -/
structure Keeps (s s' : BufferState) : Prop where
  bytes : s'.remote.bytes = s.remote.bytes
  dirty : s'.isDirty = s.isDirty

variable {s}

theorem Keeps.refl : Keeps s s := ⟨rfl, rfl⟩

theorem lock_keeps (flags : IoFlags) (r : OcallResult) :
    Keeps s (bufferLayerLock flags r s).1 := by
  rw [lock_eq]
  split
  · exact ⟨rfl, rfl⟩
  split
  · exact ⟨rfl, MetadataBuffer.isDirty_countWriter _⟩
  · exact .refl

theorem unlock_keeps (r : OcallResult) : Keeps s (bufferLayerUnlock r s).1 := by
  rw [unlock_eq]
  split
  · exact .refl
  split
  · exact .refl
  split
  · exact ⟨rfl, rfl⟩
  split <;> exact ⟨rfl, rfl⟩

theorem get_keeps (flags : IoFlags) (r : GetResult) :
    Keeps s (bufferLayerGet flags r s).1 := by
  rw [get_eq]
  split
  · exact .refl
  split
  · exact ⟨rfl, rfl⟩
  · exact .refl
  · exact ⟨rfl, MetadataBuffer.isDirty_countWriter _⟩

theorem get_of_clean (hdirty : s.isDirty = false) (flags : IoFlags) {r : GetResult} {bytes : Bytes}
    (h : (bufferLayerGet flags r s).2 = some bytes) : bytes = s.remote.bytes := by
  rw [get_eq, if_neg (by simp [hdirty])] at h
  split at h
  · contradiction
  · contradiction
  · exact (Option.some.inj h).symm

/-- A put without other writers is written if it succeeds, and changes no contents
if it fails. -/
theorem allocPut_of_writers (hw : s.writers ≤ 1) (bytes : Bytes) (heap : Bool) (r : OcallResult)
    (now : Nat) :
    (bufferLayerAllocPut bytes heap r now s).1.isDirty = s.isDirty ∧
      (bufferLayerAllocPut bytes heap r now s).1.remote.bytes =
        if (bufferLayerAllocPut bytes heap r now s).2 then bytes else s.remote.bytes := by
  rw [allocPut_eq]
  split
  · exact ⟨rfl, rfl⟩
  split
  · exact ⟨rfl, rfl⟩
  rw [if_neg (Nat.not_lt.mpr hw)]
  cases r <;> exact ⟨rfl, rfl⟩

theorem allocPut_ok_iff (bytes : Bytes) (heap : Bool) (r : OcallResult) (now : Nat) :
    (bufferLayerAllocPut bytes heap r now s).2 = true ↔
      s.inWriteMode = true ∧ heap = true ∧ (1 < s.writers ∨ r = .ok) := by
  rw [allocPut_eq]
  cases s.inWriteMode <;> cases heap <;> by_cases hw : 1 < s.writers <;> cases r <;> simp [hw]

end BufferState

end Nexus
