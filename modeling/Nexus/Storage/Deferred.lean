import Nexus.Lib.Runs
import Nexus.Storage.BufferLayer

/-!
# Deferred puts

The put of a file with more than one writer keeps its bytes in the temporary
buffer of the entry and sets `is_dirty`.  The bytes are written only if another
put follows: `buffer_layer_unlock` of the last writer gives the lock back and
leaves them behind.  The flag is never cleared, so once a later put has written
and freed the buffer, `buffer_layer_get` returns `NULL`.

`Fresh` is the invariant of the runs in which this does not happen: a temporary
buffer holds the latest bytes and has a writer, and without one the datastore
holds them.
-/

namespace Nexus

open BufferCall

/-- The state of a uuid with the bytes of the most recent put that returned 0, or
those of the datastore if there was none. -/
structure Updating where
  state : BufferState
  latest : Bytes
  deriving DecidableEq, Repr

def BufferCall.latest (ok : Bool) (latest : Bytes) : BufferCall → Bytes
  | .put bytes .. => if ok then bytes else latest
  | .lock .. | .unlock _ | .get .. => latest

def Updating.step (u : Updating) (c : BufferCall) : Updating where
  state := (c.run u.state).1
  latest := c.latest (c.run u.state).2 u.latest

/-- A file that nobody has opened. -/
def Updating.closed (bytes : Bytes) (time : Nat) : Updating :=
  ⟨BufferState.closed bytes time, bytes⟩

/-- The ocalls of the call succeed. -/
def BufferCall.Succeeds : BufferCall → Prop
  | .lock _ r | .unlock r | .put _ _ r _ => r = .ok
  | .get _ r => r = .ok

instance BufferCall.decidableSucceeds : (c : BufferCall) → Decidable c.Succeeds
  | .lock _ r | .unlock r | .put _ _ r _ => inferInstanceAs (Decidable (r = .ok))
  | .get _ r => inferInstanceAs (Decidable (r = .ok))

/-- Without writers, the datastore holds the latest bytes. -/
def Updating.Current (u : Updating) : Prop :=
  u.state.writers = 0 → u.state.remote.bytes = u.latest

/-- A get returns the latest bytes. -/
def Updating.GetsLatest (u : Updating) : BufferCall → Prop
  | .get flags r => (bufferLayerGet flags r u.state).2 = some u.latest
  | .lock .. | .unlock _ | .put .. => True

/-- The call does not come after or drop a deferred put.

* A get must not find the dirty flag of a put that has been written since.
* The last writer must not unlock while the bytes of a put are deferred.
* While they are, the next put must not fail to allocate its buffer: the deferred
  one is freed first. -/
def BufferCall.KeepsDeferred (s : BufferState) : BufferCall → Prop
  | .lock .. => True
  | .get .. => s.isDirty = true → s.tmpBuffer ≠ none
  | .unlock _ => s.inWriteMode = true → s.writers = 1 → s.tmpBuffer = none
  | .put _ heap .. => s.inWriteMode = true → heap = false → s.tmpBuffer = none

instance BufferCall.decidableKeepsDeferred (s : BufferState) :
    (c : BufferCall) → Decidable (c.KeepsDeferred s)
  | .lock .. => isTrue trivial
  | .get .. => inferInstanceAs (Decidable (s.isDirty = true → s.tmpBuffer ≠ none))
  | .unlock _ =>
    inferInstanceAs (Decidable (s.inWriteMode = true → s.writers = 1 → s.tmpBuffer = none))
  | .put _ heap .. =>
    inferInstanceAs (Decidable (s.inWriteMode = true → heap = false → s.tmpBuffer = none))

/-- Where the latest bytes are. -/
structure Fresh (u : Updating) : Prop where
  deferred : ∀ bytes, u.state.tmpBuffer = some bytes →
    bytes = u.latest ∧ u.state.isDirty = true ∧ u.state.inWriteMode = true ∧ 0 < u.state.writers
  written : u.state.tmpBuffer = none → u.state.remote.bytes = u.latest

section Steps

variable {s : BufferState} {latest : Bytes}

theorem Fresh.of_written (htmp : s.tmpBuffer = none) (hbytes : s.remote.bytes = latest) :
    Fresh ⟨s, latest⟩ where
  deferred bytes h := by
    simp [htmp] at h
  written _ := hbytes

/-- A file with a deferred put is locked, so in any other mode nothing is
deferred. -/
theorem Fresh.tmpBuffer_of_readMode (h : Fresh ⟨s, latest⟩) (hmode : s.inWriteMode = false) :
    s.tmpBuffer = none := by
  cases htmp : s.tmpBuffer with
  | none => rfl
  | some bytes =>
    have hmode' := (h.deferred bytes htmp).2.2.1
    simp [hmode] at hmode'

theorem Fresh.tmpBuffer_of_clean (h : Fresh ⟨s, latest⟩) (hdirty : ¬ s.isDirty = true) :
    s.tmpBuffer = none := by
  cases htmp : s.tmpBuffer with
  | none => rfl
  | some bytes => exact absurd (h.deferred bytes htmp).2.1 hdirty

section

variable (h : Fresh ⟨s, latest⟩)
include h

theorem lock_fresh (flags : IoFlags) : Fresh (Updating.step ⟨s, latest⟩ (.lock flags .ok)) := by
  simp only [Updating.step, run, s.lock_eq, if_true]
  split
  next hmode =>
    refine ⟨fun bytes htmp => ?_, h.written⟩
    obtain ⟨hbytes, hdirty, -, -⟩ := h.deferred bytes htmp
    exact ⟨hbytes, hdirty, hmode, Nat.succ_pos _⟩
  next hmode =>
    have htmp := h.tmpBuffer_of_readMode (by simpa using hmode)
    exact .of_written ((MetadataBuffer.tmpBuffer_countWriter _).trans htmp) (h.written htmp)

theorem get_fresh (flags : IoFlags) : Fresh (Updating.step ⟨s, latest⟩ (.get flags .ok)) := by
  simp only [Updating.step, run, s.get_eq]
  split
  · exact h
  next hdirty =>
    have htmp := h.tmpBuffer_of_clean hdirty
    exact .of_written ((MetadataBuffer.tmpBuffer_countWriter _).trans htmp) (h.written htmp)

theorem get_latest (flags : IoFlags) (hkeep : s.isDirty = true → s.tmpBuffer ≠ none) :
    (bufferLayerGet flags .ok s).2 = some latest := by
  rw [s.get_eq]
  by_cases hdirty : s.isDirty = true
  · obtain ⟨bytes, htmp⟩ := Option.ne_none_iff_exists'.mp (hkeep hdirty)
    rw [if_pos hdirty, htmp, (h.deferred bytes htmp).1]
  · rw [if_neg hdirty]
    exact congrArg some (h.written (h.tmpBuffer_of_clean hdirty))

theorem unlock_fresh (hkeep : s.inWriteMode = true → s.writers = 1 → s.tmpBuffer = none) :
    Fresh (Updating.step ⟨s, latest⟩ (.unlock .ok)) := by
  simp only [Updating.step, run, s.unlock_eq]
  split
  · exact h
  split
  · exact h
  split
  next hmany =>
    refine ⟨fun bytes htmp => ?_, h.written⟩
    obtain ⟨hbytes, hdirty, hwrite, -⟩ := h.deferred bytes htmp
    exact ⟨hbytes, hdirty, hwrite, Nat.sub_pos_of_lt hmany⟩
  next hmode hzero hmany =>
    -- the last writer: nothing may be deferred
    have htmp := hkeep (by simpa using hmode) (by omega)
    exact .of_written htmp (h.written htmp)

theorem put_fresh (bytes : Bytes) (heap : Bool) (now : Nat)
    (hkeep : s.inWriteMode = true → heap = false → s.tmpBuffer = none) :
    Fresh (Updating.step ⟨s, latest⟩ (.put bytes heap .ok now)) := by
  simp only [Updating.step, run, s.allocPut_eq]
  split
  · exact h
  next hmode =>
    have hwrite : s.inWriteMode = true := by simpa using hmode
    split
    next hheap => exact .of_written rfl (h.written (hkeep hwrite hheap))
    split
    next hmany =>
      refine ⟨fun bytes' htmp => ?_, fun htmp => ?_⟩
      · cases htmp
        exact ⟨rfl, rfl, hwrite, Nat.sub_pos_of_lt hmany⟩
      · have hsome : some bytes = none := htmp
        contradiction
    next => exact .of_written rfl rfl

end

end Steps

/-- A call whose ocall succeeds and that keeps deferred puts leaves the latest
bytes where the buffer layer finds them. -/
theorem Fresh.step (u : Updating) (c : BufferCall) (h : Fresh u)
    (hc : c.Succeeds ∧ c.KeepsDeferred u.state) : Fresh (u.step c) := by
  obtain ⟨s, latest⟩ := u
  obtain ⟨hok, hkeep⟩ := hc
  cases c with
  | lock flags r =>
    obtain rfl : r = .ok := hok
    exact lock_fresh h flags
  | unlock r =>
    obtain rfl : r = .ok := hok
    exact unlock_fresh h hkeep
  | get flags r =>
    obtain rfl : r = .ok := hok
    exact get_fresh h flags
  | put bytes heap r now =>
    obtain rfl : r = .ok := hok
    exact put_fresh h bytes heap now hkeep

theorem Fresh.current (u : Updating) (h : Fresh u) : u.Current := by
  intro hzero
  refine h.written ?_
  cases htmp : u.state.tmpBuffer with
  | none => rfl
  | some bytes => exact absurd hzero (h.deferred bytes htmp).2.2.2.ne'

theorem Fresh.getsLatest (u : Updating) (c : BufferCall) (h : Fresh u)
    (hc : c.Succeeds ∧ c.KeepsDeferred u.state) : u.GetsLatest c := by
  obtain ⟨hok, hkeep⟩ := hc
  cases c with
  | get flags r =>
    obtain rfl : r = .ok := hok
    exact get_latest h flags hkeep
  | lock flags r | unlock r | put bytes heap r now => trivial

theorem fresh_closed (bytes : Bytes) (time : Nat) : Fresh (Updating.closed bytes time) :=
  .of_written rfl rfl

/-- In every run whose ocalls succeed and whose calls keep deferred puts, each get
returns the bytes of the most recent put that returned 0, and whenever there is no
writer the datastore holds them. -/
theorem no_lost_update (bytes : Bytes) (time : Nat) (cs : List BufferCall)
    (h : Runs.Meets Updating.step (fun u c => c.Succeeds ∧ c.KeepsDeferred u.state)
      (Updating.closed bytes time) cs) :
    Runs.Always Updating.step Updating.Current (Updating.closed bytes time) cs ∧
      Runs.Meets Updating.step Updating.GetsLatest (Updating.closed bytes time) cs := by
  have hclosed := fresh_closed bytes time
  constructor
  · exact (Runs.always_of_meets Fresh.step hclosed h).mono Fresh.current
  · exact Runs.meets_of_meets Fresh.step Fresh.getsLatest hclosed h

/-- A put that is deferred, read back, and overwritten by the put of the other
writer. -/
def twoPuts : List BufferCall :=
  [.get nexusFrdwr .ok, .lock nexusFwrite .ok, .put [2] true .ok 2, .get nexusFread .ok,
    .put [3] true .ok 3]

theorem twoPuts_no_lost_update :
    Runs.Meets Updating.step (fun u c => c.Succeeds ∧ c.KeepsDeferred u.state)
        (Updating.closed [1] 1) twoPuts ∧
      Runs.Always Updating.step Updating.Current (Updating.closed [1] 1) twoPuts ∧
      Runs.Meets Updating.step Updating.GetsLatest (Updating.closed [1] 1) twoPuts :=
  ⟨by decide, no_lost_update [1] 1 twoPuts (by decide)⟩

/-- The put of one of two writers is deferred, and the other writer unlocks. -/
def putUnlock : List BufferCall :=
  [.lock nexusFwrite .ok, .lock nexusFwrite .ok, .put [2] true .ok 2, .unlock .ok]

/-- The put has returned 0, there is no writer left, and the datastore still holds
the old bytes. -/
theorem putUnlock_loses_update :
    (∀ c ∈ putUnlock, c.Succeeds) ∧
      ¬ Runs.Always Updating.step Updating.Current (Updating.closed [1] 1) putUnlock := by
  refine ⟨by decide, fun h => ?_⟩
  have hlast : Updating.Current _ := h.2.2.2.2
  exact absurd (hlast (by decide)) (by decide)

end Nexus
