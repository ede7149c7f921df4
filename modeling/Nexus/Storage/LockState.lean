import Nexus.Lib.Runs
import Nexus.Storage.BufferLayer

/-!
# The lock state of the buffer layer

Three things say whether a file is locked: the number of writers, the mode that
is recorded for it, and the untrusted side.  `LockInv` is that they agree, and
that the writers are the acquisitions that are still outstanding.  A call keeps
this exactly when it is `LockSafe`.
-/

namespace Nexus

open BufferCall

/-- The state of a uuid with the number of acquisitions that no put or unlock has
matched yet. -/
structure Holding where
  state : BufferState
  outstanding : Nat
  deriving DecidableEq, Repr

/-- A lock or a get in lock mode that succeeds is an acquisition.  A put that
succeeds matches one, and so does every unlock: its callers drop its result. -/
def BufferCall.outstanding (ok : Bool) (n : Nat) : BufferCall → Nat
  | .lock flags _ | .get flags _ => n + (ok && nexusIoInLockMode flags).toNat
  | .put .. => n - ok.toNat
  | .unlock _ => n - 1

def Holding.step (h : Holding) (c : BufferCall) : Holding where
  state := (c.run h.state).1
  outstanding := c.outstanding (c.run h.state).2 h.outstanding

/-- The counter, the recorded mode and the untrusted side agree. -/
structure LockInv (h : Holding) : Prop where
  mode : 0 < h.state.writers ↔ h.state.inWriteMode = true
  remote : h.state.inWriteMode = true ↔ h.state.remote.locked = true
  count : h.state.writers = h.outstanding

/-- The call keeps the lock state consistent.

* A lock in read mode must not be taken on a locked file: it is counted as a writer.
* A get for writing must not be answered with a deferred buffer: it is not counted.
* A get in read mode must not read a locked file: it resets the mode.
* A get in create mode only must find the file locked: the untrusted side does not
  lock it.
* A get that fails must not have locked the file before.
* The put of the only writer must not fail: the untrusted side gives the lock back.
* The unlock of the only writer must run. -/
def BufferCall.LockSafe (s : BufferState) : BufferCall → Prop
  | .lock flags _ => s.inWriteMode = true → nexusIoInLockMode flags = true
  | .get flags r =>
    if s.isDirty then nexusIoInLockMode flags = true → s.tmpBuffer = none
    else
      match r with
      | .ok =>
        if s.inWriteMode then nexusIoInLockMode flags = true
        else nexusIoInLockMode flags = true → flags.locksOnGet = true
      | .failed tookLock => tookLock = true → flags.locksOnGet = true → s.inWriteMode = true
  | .put _ heap r _ =>
    s.inWriteMode = true → heap = true → s.writers ≤ 1 → r ≠ .failed
  | .unlock r => s.inWriteMode = true → s.writers = 1 → r ≠ .error

section Steps

variable {s : BufferState} {n : Nat}

theorem lockInv_of_writeMode (hmode : s.inWriteMode = true) :
    LockInv ⟨s, n⟩ ↔ s.remote.locked = true ∧ s.writers = n ∧ 0 < n := by
  constructor
  · intro h
    have hcount : s.writers = n := h.count
    have hpos : 0 < s.writers := h.mode.mpr hmode
    exact ⟨h.remote.mp hmode, hcount, hcount ▸ hpos⟩
  · rintro ⟨hremote, hcount, hpos⟩
    exact ⟨iff_of_true (hcount ▸ hpos) hmode, iff_of_true hmode hremote, hcount⟩

theorem lockInv_of_readMode (hmode : s.inWriteMode = false) :
    LockInv ⟨s, n⟩ ↔ s.remote.locked = false ∧ s.writers = 0 ∧ n = 0 := by
  have hnot : ¬ s.inWriteMode = true := by rw [hmode]; exact Bool.false_ne_true
  constructor
  · intro h
    have hcount : s.writers = n := h.count
    have hzero : s.writers = 0 := Nat.eq_zero_of_not_pos (mt h.mode.mp hnot)
    exact ⟨Bool.eq_false_iff.mpr (mt h.remote.mpr hnot), hzero, hcount ▸ hzero⟩
  · rintro ⟨hremote, hzero, rfl⟩
    refine ⟨iff_of_false (by rw [hzero]; exact lt_irrefl 0) hnot, iff_of_false hnot ?_, hzero⟩
    rw [hremote]
    exact Bool.false_ne_true

/-- The entry and the file after an ocall that opened the file with these flags. -/
theorem lockInv_opened (hinv : LockInv ⟨s, n⟩) (hmode : s.inWriteMode = false) (timestamp : Nat)
    {flags : IoFlags} {f : RemoteFile} (hf : f.locked = nexusIoInLockMode flags) :
    LockInv ⟨⟨some (metadataBufUpdate s.buf timestamp flags).countWriter, f⟩,
      n + (nexusIoInLockMode flags).toNat⟩ := by
  obtain ⟨-, hzero, rfl⟩ := (lockInv_of_readMode hmode).mp hinv
  have hwriters : (metadataBufUpdate s.buf timestamp flags).writers = 0 := hzero
  cases hflags : nexusIoInLockMode flags with
  | true =>
    rw [lockInv_of_writeMode (by simp [hflags])]
    simp [MetadataBuffer.writers_countWriter, hwriters, hflags, hf]
  | false =>
    rw [lockInv_of_readMode (by simp [hflags])]
    simp [MetadataBuffer.writers_countWriter, hwriters, hflags, hf]

theorem lock_lockInv_iff (hinv : LockInv ⟨s, n⟩) (flags : IoFlags) (r : OcallResult) :
    LockInv (Holding.step ⟨s, n⟩ (.lock flags r)) ↔ (BufferCall.lock flags r).LockSafe s := by
  simp only [BufferCall.LockSafe, Holding.step, run, s.lock_eq]
  split
  next hmode =>
    obtain ⟨hremote, hcount, hpos⟩ := (lockInv_of_writeMode hmode).mp hinv
    rw [lockInv_of_writeMode (by exact hmode)]
    cases hflags : nexusIoInLockMode flags <;>
      simp [outstanding, hflags, hmode, hremote, hcount]
  next hmode =>
    refine iff_of_true ?_ fun h => absurd h hmode
    have hmode : s.inWriteMode = false := by simpa using hmode
    have hremote := ((lockInv_of_readMode hmode).mp hinv).1
    split
    · exact lockInv_opened hinv hmode 0 (by simp [RemoteFile.lock, hremote])
    · exact hinv

theorem lockInv_count_iff (hinv : LockInv ⟨s, n⟩) {m : Nat} : LockInv ⟨s, m⟩ ↔ m = n := by
  constructor
  · intro h
    exact h.count.symm.trans hinv.count
  · rintro rfl
    exact hinv

theorem lockInv_remote_iff (hinv : LockInv ⟨s, n⟩) {f : RemoteFile} :
    LockInv ⟨{ s with remote := f }, n⟩ ↔ f.locked = s.remote.locked := by
  constructor
  · intro h
    exact Bool.eq_iff_iff.mpr (h.remote.symm.trans hinv.remote)
  · intro h
    exact ⟨hinv.mode, h ▸ hinv.remote, hinv.count⟩

theorem IoFlags.inLockMode_of_locksOnGet {flags : IoFlags} (h : flags.locksOnGet = true) :
    nexusIoInLockMode flags = true := by
  simp only [locksOnGet, nexusIoInLockMode, Bool.or_eq_true] at h ⊢
  tauto

theorem get_ok_lockInv_iff (hinv : LockInv ⟨s, n⟩) (hdirty : ¬ s.isDirty = true)
    (flags : IoFlags) :
    LockInv (Holding.step ⟨s, n⟩ (.get flags .ok)) ↔ (BufferCall.get flags .ok).LockSafe s := by
  simp only [Holding.step, run, s.get_eq, BufferCall.LockSafe, if_neg hdirty, outstanding,
    Option.isSome_some, Bool.true_and]
  cases hmode : s.inWriteMode with
  | true =>
    obtain ⟨hremote, hcount, hpos⟩ := (lockInv_of_writeMode hmode).mp hinv
    have hwriters : (metadataBufUpdate s.buf s.remote.bufferTime flags).writers = n := hcount
    cases hflags : nexusIoInLockMode flags with
    | true =>
      rw [lockInv_of_writeMode (by simp [hflags])]
      simp [MetadataBuffer.writers_countWriter, hwriters, hflags, RemoteFile.lockForGet, hremote]
    | false =>
      -- the mode is reset although there are writers
      rw [lockInv_of_readMode (by simp [hflags])]
      simp [hpos.ne']
  | false =>
    have hremote := ((lockInv_of_readMode hmode).mp hinv).1
    have hlocked : (s.remote.lockForGet flags).locked = flags.locksOnGet := by
      simp [RemoteFile.lockForGet, hremote]
    simp only [Bool.false_eq_true, if_false]
    constructor
    · intro h hflags
      rw [← hlocked]
      exact h.remote.mp (by simp [hflags])
    · intro h
      refine lockInv_opened hinv hmode _ (hlocked.trans ?_)
      exact Bool.eq_iff_iff.mpr ⟨IoFlags.inLockMode_of_locksOnGet, h⟩

theorem get_lockInv_iff (hinv : LockInv ⟨s, n⟩) (flags : IoFlags) (r : GetResult) :
    LockInv (Holding.step ⟨s, n⟩ (.get flags r)) ↔ (BufferCall.get flags r).LockSafe s := by
  by_cases hdirty : s.isDirty = true
  · -- the deferred buffer is returned and nothing is counted
    simp only [Holding.step, run, s.get_eq, if_pos hdirty, BufferCall.LockSafe, outstanding]
    rw [lockInv_count_iff hinv]
    cases nexusIoInLockMode flags <;> cases s.tmpBuffer <;> simp
  cases r with
  | ok => exact get_ok_lockInv_iff hinv hdirty flags
  | failed tookLock =>
    simp only [Holding.step, run, s.get_eq, BufferCall.LockSafe, if_neg hdirty, outstanding]
    cases tookLock with
    | true =>
      have hlocked : s.remote.locked = s.inWriteMode := Bool.eq_iff_iff.mpr hinv.remote.symm
      simp only [Option.isSome_none, Bool.false_and, Bool.toNat_false, Nat.add_zero]
      rw [lockInv_remote_iff hinv, RemoteFile.lockForGet, hlocked]
      cases s.inWriteMode <;> simp
    | false => simpa using hinv

theorem unlock_lockInv_iff (hinv : LockInv ⟨s, n⟩) (r : OcallResult) :
    LockInv (Holding.step ⟨s, n⟩ (.unlock r)) ↔ (BufferCall.unlock r).LockSafe s := by
  simp only [BufferCall.LockSafe, Holding.step, run, s.unlock_eq]
  split
  next hmode =>
    obtain ⟨-, -, rfl⟩ := (lockInv_of_readMode hmode).mp hinv
    simpa [outstanding, hmode] using hinv
  next hread =>
    have hmode : s.inWriteMode = true := by simpa using hread
    obtain ⟨hremote, hcount, hpos⟩ := (lockInv_of_writeMode hmode).mp hinv
    rw [if_neg (by omega)]
    split
    next hmany =>
      rw [lockInv_of_writeMode (by exact hmode)]
      refine iff_of_true ⟨hremote, ?_, ?_⟩ (fun _ hone => absurd hone hmany.ne')
      · rw [← hcount]
        rfl
      · exact hcount ▸ Nat.sub_pos_of_lt hmany
    have hone : s.writers = 1 := by omega
    split
    next hr =>
      -- the writer is gone and the mode stays
      rw [lockInv_of_writeMode (by exact hmode)]
      refine iff_of_false (fun h => ?_) (fun h => h hmode hone hr)
      exact absurd h.2.1 h.2.2.ne
    next hr =>
      rw [lockInv_of_readMode rfl]
      refine iff_of_true ⟨rfl, rfl, ?_⟩ (fun _ _ => hr)
      rw [← hcount, hone]
      rfl

theorem put_lockInv_iff (hinv : LockInv ⟨s, n⟩) (bytes : Bytes) (heap : Bool) (r : OcallResult)
    (now : Nat) : LockInv (Holding.step ⟨s, n⟩ (.put bytes heap r now)) ↔
      (BufferCall.put bytes heap r now).LockSafe s := by
  simp only [BufferCall.LockSafe, Holding.step, run, s.allocPut_eq]
  split
  next hmode => simpa [outstanding, hmode] using hinv
  next hread =>
    have hmode : s.inWriteMode = true := by simpa using hread
    obtain ⟨hremote, hcount, hpos⟩ := (lockInv_of_writeMode hmode).mp hinv
    split
    next hheap =>
      rw [lockInv_of_writeMode (by exact hmode)]
      exact iff_of_true ⟨hremote, hcount, hpos⟩ (by simp [hheap])
    next hheap =>
      split
      next hmany =>
        rw [lockInv_of_writeMode (by exact hmode)]
        refine iff_of_true ⟨hremote, ?_, ?_⟩ (fun _ _ hone => absurd hmany hone.not_gt)
        · rw [← hcount]
          rfl
        · exact hcount ▸ Nat.sub_pos_of_lt hmany
      have hone : s.writers ≤ 1 := by omega
      cases r with
      | error =>
        rw [lockInv_of_writeMode (by exact hmode)]
        exact iff_of_true ⟨hremote, hcount, hpos⟩ (fun _ _ _ => by decide)
      | failed =>
        -- the untrusted side has given the lock back
        rw [lockInv_of_writeMode (by exact hmode)]
        exact iff_of_false (fun h => absurd h.1 Bool.false_ne_true)
          (fun h => h hmode (by simpa using hheap) hone rfl)
      | ok =>
        rw [lockInv_of_readMode rfl]
        refine iff_of_true ⟨rfl, rfl, ?_⟩ (fun _ _ _ => by decide)
        have : n = 1 := by omega
        rw [this]
        rfl

end Steps

theorem BufferCall.lockInv_iff (h : Holding) (c : BufferCall) (hinv : LockInv h) :
    LockInv (h.step c) ↔ c.LockSafe h.state := by
  cases c with
  | lock flags r => exact lock_lockInv_iff hinv flags r
  | unlock r => exact unlock_lockInv_iff hinv r
  | get flags r => exact get_lockInv_iff hinv flags r
  | put bytes heap r now => exact put_lockInv_iff hinv bytes heap r now

theorem lockInv_closed (bytes : Bytes) (time : Nat) :
    LockInv ⟨BufferState.closed bytes time, 0⟩ :=
  (lockInv_of_readMode rfl).mpr ⟨rfl, rfl, rfl⟩

/-- In every run of the buffer layer on a file, the lock state is consistent after
every call exactly if every call is safe. -/
theorem lockInv_run_iff (bytes : Bytes) (time : Nat) (cs : List BufferCall) :
    Runs.Always Holding.step LockInv ⟨BufferState.closed bytes time, 0⟩ cs ↔
      Runs.Meets Holding.step (fun h c => c.LockSafe h.state)
        ⟨BufferState.closed bytes time, 0⟩ cs :=
  Runs.always_iff_meets lockInv_iff (lockInv_closed bytes time) cs

/-- The file is locked for writing and then read: the recorded mode is that of the
read, with one writer left. -/
theorem read_of_locked_not_lockInv :
    ¬ Runs.Always Holding.step LockInv ⟨BufferState.closed [1] 1, 0⟩
      [.lock nexusFwrite .ok, .get nexusFread .ok] := by
  intro h
  have hmode := (h.2.2 : LockInv _).mode
  exact absurd (hmode.mp (by decide)) (by decide)

end Nexus
