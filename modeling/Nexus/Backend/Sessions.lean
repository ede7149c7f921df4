import Nexus.Backend.IoBuffers
import Nexus.Files.RoundTrip

/-!
# Sessions in batch mode

What a commit has to bring to the main store is what the callers were told: the bytes of the
last put that succeeded, nothing for an object whose deletion succeeded, and the earlier
contents otherwise.

The invariant is one of single objects (`Coherent`): an object whose buffer is not modified
is in the main store, a modified one is in its buffer if that is dirty and in the batch store
if not.

The calls do not keep track of that in every case: a lock that is given back without a put
takes the dirty mark of an earlier put away, and a deletion is only scheduled if the buffer
knows that the main store has the object.  `BatchCall.Careful` says when they do.
-/

namespace Nexus.Backend

open List Option

open Files (parseFilenode maxRwCount)

/-! ## What the callers were told -/

/-- The contents of an object: all bytes of its file, or the metadata in the file of a file
object. -/
inductive Contents where
  | file (bytes : Bytes)
  | filenode (metadata : Bytes)
  deriving DecidableEq, Repr

/-- The file has the contents; without contents there is no file. -/
def StoredAs : Option Contents → Option Bytes → Prop
  | none, bytes => bytes = none
  | some (.file contents), bytes => bytes = some contents
  | some (.filenode metadata), bytes => bytes.bind (fun bs => parseFilenode ⟨bs, 0⟩) = some metadata

instance (contents : Option Contents) (bytes : Option Bytes) : Decidable (StoredAs contents bytes) :=
  match contents with
  | none => inferInstanceAs (Decidable (bytes = none))
  | some (.file _) => inferInstanceAs (Decidable (bytes = some _))
  | some (.filenode _) => inferInstanceAs (Decidable (bytes.bind _ = some _))

/-- The calls of a session in batch mode, with what the system answers. -/
inductive BatchCall where
  | new (touched : Bool) (uuid : Uuid)
  | lock (env : OpenEnv) (uuid : Uuid) (flags : OpenFlags)
  | unlock (uuid : Uuid) (closed : Bool)
  | get (env : GetEnv) (uuid : Uuid) (flags : OpenFlags)
  | put (env : PutEnv) (uuid : Uuid) (buffer : Bytes) (dataSize : Nat)
  | del (unlinked : Bool) (uuid : Uuid)
  | sync (env : Uuid → SyncEnv) (removed : Uuid → Bool)

/-- The buffers with what the callers were told about each object. -/
structure BatchSession where
  io : Io
  saved : Uuid → Option Contents

/-- What a put on the uuid stores. -/
def putContents (io : Io) (uuid : Uuid) (buffer : Bytes) : Contents :=
  match (bufferManagerFind io uuid).bind (·.handle) with
  | some ioFlags => if ioFlags.fnode then .filenode buffer else .file buffer
  | none => .file buffer

/-- What the caller of a call that succeeded is told. -/
def tell (saved : Uuid → Option Contents) (result : IoResult) (uuid : Uuid)
    (contents : Option Contents) : Uuid → Option Contents :=
  if result = .ok then fun u => if u = uuid then contents else saved u else saved

/-- The session after a call that changes an object. -/
def BatchSession.told (s : BatchSession) (call : Io × IoResult) (uuid : Uuid)
    (contents : Option Contents) : BatchSession :=
  ⟨call.1, tell s.saved call.2 uuid contents⟩

/-- One call; after one that never returned there is none. -/
def BatchSession.step (s : BatchSession) (call : BatchCall) : BatchSession :=
  if s.io.hung then s
  else
    match call with
    | .new touched uuid =>
      s.told (ioBufferNew touched s.io uuid) uuid (some ((s.saved uuid).getD (.file [])))
    | .lock env uuid flags => { s with io := (ioBufferLock env s.io uuid flags).1 }
    | .unlock uuid closed => { s with io := (ioBufferUnlock s.io uuid closed).1 }
    | .get env uuid flags => { s with io := (ioBufferGet env s.io uuid flags).1 }
    | .put env uuid buffer dataSize =>
      s.told (ioBufferPut env s.io uuid buffer dataSize) uuid
        (some (putContents s.io uuid buffer))
    | .del unlinked uuid => s.told (ioBufferDel unlinked s.io uuid) uuid none
    | .sync env removed => { s with io := (ioBufferSyncBuffers env removed s.io).1 }

/-- Batch mode has just been started: nothing is open, and no buffer has a trace of an earlier
batch. -/
structure Io.Started (io : Io) : Prop where
  running : io.hung = false
  deleted : io.deleted = []
  nodup : (io.table.map (·.uuid)).Nodup
  table : ∀ buf ∈ io.table, buf.handle = none ∧ buf.isDirty = false ∧
    buf.batchModeCreated = false ∧ buf.batchModeModified = false ∧ buf.batchFileExists = false

/-- The session at the start of batch mode. -/
def BatchSession.start (io : Io) : BatchSession := ⟨io, fun u => (io.main u).map .file⟩

/-- The next commit will look at the object. -/
def Io.Scheduled (io : Io) (uuid : Uuid) : Prop :=
  (∃ buf, bufferManagerFind io uuid = some buf ∧ buf.batchModeModified = true) ∨ uuid ∈ io.deleted

/-- A commit that succeeds leaves every object as the callers were told, and one that fails
leaves the others scheduled. -/
def BatchCall.Faithful (s : BatchSession) : BatchCall → Prop
  | .sync env removed => s.io.hung = false →
    let (io, result) := ioBufferSyncBuffers env removed s.io
    io.hung = false →
      (result = .ok → ∀ u, StoredAs (s.saved u) (io.main u)) ∧
        (result = .failed → ∀ u, StoredAs (s.saved u) (io.main u) ∨ io.Scheduled u)
  | _ => True

/-! ## When it holds -/

/-- The buffer can be brought to the main store. -/
def SyncEnv.Writes (env : SyncEnv) (main : Datastore) (buf : MetadataBuf) : Prop :=
  if buf.isDirty then
    env.opened = true ∧ env.written = true ∧
      (buf.batchModeCreated = true ∨ (main buf.uuid).isSome = true)
  else env.copied = true

/-- The call does not lose track of what the commit has to do. -/
def BatchCall.Careful (s : BatchSession) : BatchCall → Prop
  | .new touched uuid => touched = true →
    bufferManagerFind s.io uuid = none ∧ s.io.main uuid = none ∧ s.io.batch uuid = none ∧
      uuid ∉ s.io.deleted
  | .lock _ _ _ => True
  | .get _ _ _ => True
  -- nothing that was put before is only in the buffer
  | .unlock uuid _ => ∀ buf ∈ bufferManagerFind s.io uuid, buf.handle ≠ none → buf.isDirty = false
  | .put env uuid buffer dataSize =>
    ∀ buf ∈ bufferManagerFind s.io uuid, ∀ ioFlags ∈ buf.handle,
      uuid ∉ s.io.deleted ∧
        if ioFlags.fnode = true ∧ env.stored = false then buf.batchModeModified = false
        else
          env.closed = true ∧ (ioFlags.fnode = true →
            buffer.length ≤ maxRwCount ∧ dataSize + buffer.length < 2 ^ 32)
  -- the buffer knows what is in the main store, and a deletion that fails had nothing to drop
  | .del unlinked uuid =>
    if unlinked = true ∧ s.io.batch uuid ≠ none then
      s.io.main uuid = none ∨ uuid ∈ s.io.deleted ∨
        ∃ buf ∈ bufferManagerFind s.io uuid, buf.syncFileExists = true
    else ∀ buf ∈ bufferManagerFind s.io uuid,
      buf.batchModeModified = false ∧ buf.syncFileExists = false
  | .sync env removed =>
    (∀ u ∈ s.io.deleted, s.io.main u = none ∨ (s.io.table ≠ [] ∧ removed u = true)) ∧
      ∀ buf ∈ s.io.table, buf.batchModeModified = true →
        buf.handle = none ∧ (env buf.uuid).Writes s.io.main buf

instance (env : SyncEnv) (main : Datastore) (buf : MetadataBuf) : Decidable (env.Writes main buf) :=
  inferInstanceAs (Decidable (if buf.isDirty then
    env.opened = true ∧ env.written = true ∧
      (buf.batchModeCreated = true ∨ (main buf.uuid).isSome = true)
    else env.copied = true))

instance (s : BatchSession) (call : BatchCall) : Decidable (call.Careful s) :=
  match call with
  | .new _ _ | .lock _ _ _ | .get _ _ _ | .unlock _ _ | .put _ _ _ _ | .del _ _ => by
    dsimp only [BatchCall.Careful]
    infer_instance
  | .sync env removed =>
    -- over the list, and not over all uuids
    have : Decidable (∀ u ∈ s.io.deleted,
        s.io.main u = none ∨ (s.io.table ≠ [] ∧ removed u = true)) := decidableBAll _ _
    inferInstanceAs (Decidable (_ ∧ ∀ buf ∈ s.io.table, buf.batchModeModified = true →
      buf.handle = none ∧ (env buf.uuid).Writes s.io.main buf))

/-! ## The invariant of an object -/

/-- Where the contents of an object with a buffer are. -/
structure Coherent (main batch : Option Bytes) (gone : Prop) (saved : Option Contents)
    (buf : MetadataBuf) : Prop where
  created : buf.batchModeCreated = true → buf.batchFileExists = true
  opened : buf.handle ≠ none → buf.batchFileExists = true
  modified : buf.batchModeModified = true → buf.batchFileExists = true
  dirty : buf.isDirty = true → buf.batchModeModified = true
  copied : buf.batchFileExists = true → batch ≠ none
  live : buf.batchModeModified = true → ¬ gone
  inMemory : buf.isDirty = true → saved = some (.file buf.buffer)
  onDisk : buf.batchModeModified = true → buf.isDirty = false → StoredAs saved batch
  unchanged : buf.batchModeModified = false → ¬ gone → StoredAs saved main

/-- Every object is where its buffer says, or in the main store. -/
structure Io.Inv (io : Io) (saved : Uuid → Option Contents) : Prop where
  nodup : (io.table.map (·.uuid)).Nodup
  gone : ∀ u ∈ io.deleted, saved u = none
  buf : ∀ u buf, bufferManagerFind io u = some buf →
    Coherent (io.main u) (io.batch u) (u ∈ io.deleted) (saved u) buf
  rest : ∀ u, bufferManagerFind io u = none → u ∉ io.deleted → StoredAs (saved u) (io.main u)

section Objects

variable {main batch : Option Bytes} {gone : Prop} {saved : Option Contents} {buf : MetadataBuf}

theorem coherent_alloc (uuid : Uuid) (h : ¬ gone → StoredAs saved main) :
    Coherent main batch gone saved (allocMetadataBuf uuid) where
  created := nofun
  opened := fun hopened => absurd rfl hopened
  modified := nofun
  dirty := nofun
  copied := nofun
  live := nofun
  inMemory := nofun
  onDisk := nofun
  unchanged := fun _ => h

namespace Coherent

section

variable (h : Coherent main batch gone saved buf)
include h

theorem setBuffer (hclean : buf.isDirty = false) (buffer : Bytes) :
    Coherent main batch gone saved { buf with buffer } :=
  { h with
    inMemory := fun hdirty => by
      rw [show buf.isDirty = true from hdirty] at hclean
      cases hclean }

theorem clean (hunmodified : buf.batchModeModified = false) : buf.isDirty = false := by
  rw [Bool.eq_false_iff]
  intro hdirty
  rw [h.dirty hdirty] at hunmodified
  cases hunmodified

theorem release (hclean : buf.handle ≠ none → buf.isDirty = false) :
    Coherent main batch gone saved (releaseMetadataBuf buf) := by
  unfold releaseMetadataBuf
  split
  · exact h
  · next hhandle =>
    have hclean := hclean (by rw [hhandle]; exact nofun)
    exact ⟨h.created, fun hopened => absurd rfl hopened, h.modified, nofun, h.copied, h.live, nofun,
      fun hmodified _ => h.onDisk hmodified hclean, h.unchanged⟩

theorem copy (hmissing : buf.batchFileExists = false) (bytes : Bytes) :
    Coherent main (some bytes) gone saved
      { buf with batchFileExists := true, syncFileExists := true } := by
  have hunmodified : buf.batchModeModified = false := by
    rw [Bool.eq_false_iff]
    intro hmodified
    rw [h.modified hmodified] at hmissing
    cases hmissing
  refine ⟨fun _ => rfl, fun _ => rfl, fun _ => rfl, h.dirty, fun _ => nofun, h.live, h.inMemory, ?_,
    h.unchanged⟩
  intro hmodified
  rw [show buf.batchModeModified = true from hmodified] at hunmodified
  cases hunmodified

theorem openBatch (flags : OpenFlags)
    (hexists : flags.fcreate = true ∨ buf.batchFileExists = true) :
    Coherent main (some (batch.getD [])) gone saved
      { buf with
        handle := some flags
        batchModeCreated := buf.batchModeCreated || flags.fcreate
        batchFileExists := buf.batchFileExists || flags.fcreate } := by
  have hfile : (buf.batchFileExists || flags.fcreate) = true := by
    rw [Bool.or_eq_true]
    exact hexists.symm
  refine ⟨fun _ => hfile, fun _ => hfile, fun _ => hfile, h.dirty, fun _ => nofun, h.live,
    h.inMemory, fun hmodified hclean => ?_, h.unchanged⟩
  obtain ⟨bytes, hbytes⟩ := ne_none_iff_exists'.mp (h.copied (h.modified hmodified))
  rw [hbytes, getD_some, ← hbytes]
  exact h.onDisk hmodified hclean

end

end Coherent

end Objects

end Nexus.Backend
