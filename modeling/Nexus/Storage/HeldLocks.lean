import Nexus.Storage.MetadataLocks

/-!
# Where a lock can be

Between two ecalls an object is `Free`: it has no writer.  An acquisition for
writing leaves it `Held`, with one writer and a copy that is marked as locked.  A
release makes `Free` out of both.  So what is acquired is given back by a release,
and without one only by a store that succeeds.
-/

namespace Nexus

/-- The put of the store succeeds, if the file is locked. -/
def PutOutcome.succeeds (o : PutOutcome) : Bool := o.reached && o.heap && decide (o.put = .ok)

/-- The bucket is stored. -/
def BucketPut.stored (o : BucketPut) : Bool := o.locked && o.put.succeeds

/-- The bucket is not locked, or it is stored. -/
def BucketPut.kept (o : BucketPut) : Bool := !o.locked || o.put.succeeds

namespace ObjectLocks

/-- There is no writer. -/
structure Free (c : ObjectLocks) : Prop where
  writers : c.buffer.writers = 0
  clean : c.buffer.isDirty = false
  opened : ∀ m ∈ c.metadata, m.flags.fcreate = false

/-- The copy has the only lock. -/
structure Held (c : ObjectLocks) : Prop where
  writers : c.buffer.writers = 1
  mode : c.buffer.inWriteMode = true
  clean : c.buffer.isDirty = false
  opened : ∀ m ∈ c.metadata, m.flags.fcreate = false
  locked : ∃ m ∈ c.metadata, m.isLocked = true

/-- What a release makes free. -/
def Ready (c : ObjectLocks) : Prop := c.Free ∨ c.Held

variable {c : ObjectLocks}

/-! ## Reads -/

theorem load_of_get_failed {o : ReadOutcome} (hclean : c.buffer.isDirty = false)
    (h : o.get ≠ .ok) (flags : IoFlags) :
    ∃ remote, c.load flags o = ({ c with buffer := ⟨c.buffer.metaBuf, remote⟩ }, false) := by
  unfold load
  rw [c.buffer.get_eq, if_neg (by simp [hclean])]
  cases hget : o.get with
  | ok => exact absurd hget h
  | failed tookLock => cases tookLock <;> exact ⟨_, rfl⟩

/-- The buffer layer after a get that succeeds. -/
def opened (flags : IoFlags) (b : BufferState) : BufferState :=
  ⟨some (metadataBufUpdate b.buf b.remote.bufferTime flags).countWriter, b.remote.lockForGet flags⟩

theorem load_of_get {o : ReadOutcome} (hclean : c.buffer.isDirty = false) (h : o.get = .ok)
    (flags : IoFlags) :
    c.load flags o =
      if o.parsed then (⟨some (.fromObject flags), opened flags c.buffer⟩, true)
      else ({ c with buffer := opened flags c.buffer }, false) := by
  unfold load
  rw [c.buffer.get_eq, if_neg (by simp [hclean]), h]
  rfl

section Opened

variable (flags : IoFlags) (b : BufferState)

@[simp] theorem opened_writers :
    (opened flags b).writers = b.writers + (nexusIoInLockMode flags).toNat := by
  cases hmode : nexusIoInLockMode flags <;>
    simp [opened, MetadataBuffer.writers_countWriter, hmode] <;> rfl

@[simp] theorem opened_mode : (opened flags b).inWriteMode = nexusIoInLockMode flags := by
  simp [opened]

@[simp] theorem opened_isDirty : (opened flags b).isDirty = b.isDirty := by
  simp [opened, BufferState.isDirty, metadataBufUpdate]

end Opened

variable {flags : IoFlags}

theorem fcreate_of_not_lockMode (h : nexusIoInLockMode flags = false) :
    flags.fcreate = false := by
  simp only [nexusIoInLockMode, Bool.or_eq_false_iff] at h
  exact h.1.2

/-- A read that is not for writing takes no lock. -/
theorem Free.load_read (h : c.Free) (hflags : nexusIoInLockMode flags = false) (o : ReadOutcome) :
    (c.load flags o).1.Free := by
  by_cases hget : o.get = .ok
  · rw [load_of_get h.clean hget]
    split
    · refine ⟨by simp [hflags, h.writers], by simp [h.clean], ?_⟩
      rintro _ ⟨⟩
      exact fcreate_of_not_lockMode hflags
    · exact ⟨by simp [hflags, h.writers], by simp [h.clean], h.opened⟩
  · obtain ⟨remote, hload⟩ := load_of_get_failed h.clean hget flags
    rw [hload]
    exact ⟨h.writers, h.clean, h.opened⟩

/-- A read for writing from a free object locks the file, also if the contents are
then rejected. -/
theorem Free.load_lock (h : c.Free) (hflags : nexusIoInLockMode flags = true)
    (hcreate : flags.fcreate = false) {o : ReadOutcome} (hget : o.get = .ok) :
    (c.load flags o).2 = o.parsed ∧ (c.load flags o).1.buffer.writers = 1 ∧
      (o.parsed = true → (c.load flags o).1.Held) := by
  rw [load_of_get h.clean hget]
  cases o.parsed with
  | false => simp [hflags, h.writers]
  | true =>
    refine ⟨rfl, by simp [hflags, h.writers], fun _ => ?_⟩
    refine ⟨by simp [hflags, h.writers], by simp [hflags], by simp [h.clean], ?_, ?_⟩
    · rintro _ ⟨⟩
      exact hcreate
    · exact ⟨_, rfl, hflags⟩

/-! ## Locks -/

variable {m : MetadataLock}

theorem Free.lock_refused {r : OcallResult} (hmode : c.buffer.inWriteMode = false) (hr : r ≠ .ok) :
    c.lock flags r = (c, false) := by
  unfold lock
  rw [c.buffer.lock_eq, if_neg (by simp [hmode]), if_neg hr]

theorem Free.lock_held (h : c.Free) (hm : c.metadata = some m)
    (hflags : nexusIoInLockMode flags = true) {r : OcallResult}
    (hr : c.buffer.inWriteMode = true ∨ r = .ok) :
    (c.lock flags r).2 = true ∧ (c.lock flags r).1.Held := by
  have hopened : ∀ m' ∈ c.metadata.map fun m => { m with isLocked := true },
      m'.flags.fcreate = false := by
    simpa [hm] using h.opened m hm
  have hlocked : ∃ m' ∈ c.metadata.map fun m => { m with isLocked := true },
      m'.isLocked = true := ⟨_, by rw [hm]; rfl, rfl⟩
  unfold lock
  rw [c.buffer.lock_eq]
  by_cases hmode : c.buffer.inWriteMode = true
  · rw [if_pos hmode]
    refine ⟨rfl, ?_, hmode, h.clean, hopened, hlocked⟩
    simp [h.writers]
  · rw [if_neg hmode, if_pos (hr.resolve_left hmode)]
    have hwriters : (metadataBufUpdate c.buffer.buf 0 flags).writers = 0 := h.writers
    refine ⟨rfl, ?_, by simp [hflags], ?_, hopened, hlocked⟩
    · simp [MetadataBuffer.writers_countWriter, hflags, hwriters]
    · have hdirty : (metadataBufUpdate c.buffer.buf 0 flags).isDirty = false := h.clean
      simp [hdirty]

theorem lock_metadata {r : OcallResult} (h : (c.lock flags r).2 = true) :
    (c.lock flags r).1.metadata = c.metadata.map fun m => { m with isLocked := true } := by
  revert h
  unfold lock
  split
  · nofun
  · exact fun _ => rfl

theorem lockMode_fwrite : nexusIoInLockMode nexusFwrite = true := rfl

theorem lockMode_frdwr : nexusIoInLockMode nexusFrdwr = true := rfl

/-! ## Releases -/

theorem unlock_writers_of_free (h : c.buffer.writers = 0) (r : OcallResult) :
    (bufferLayerUnlock r c.buffer).1 = c.buffer := by
  rw [c.buffer.unlock_eq, if_pos h]
  split <;> rfl

theorem Free.unlock (h : c.Free) (r : OcallResult) : (c.unlock r).Free := by
  unfold ObjectLocks.unlock
  cases hm : c.metadata with
  | none => exact h
  | some m =>
    dsimp only
    split
    · rw [unlock_writers_of_free h.writers]
      refine ⟨h.writers, h.clean, ?_⟩
      rintro _ ⟨⟩
      exact h.opened m hm
    · exact h

theorem Held.unlock (h : c.Held) (r : OcallResult) : (c.unlock r).Free := by
  obtain ⟨m, hm, hlocked⟩ := h.locked
  have hkeeps := BufferState.unlock_keeps (s := c.buffer) r
  have hwriters : (bufferLayerUnlock r c.buffer).1.writers = 0 := by
    rw [c.buffer.unlock_eq, if_neg (by simp [h.mode]), if_neg (by simp [h.writers]),
      if_neg (by simp [h.writers])]
    split <;> rfl
  simp only [ObjectLocks.unlock, Option.mem_def.mp hm, hlocked, if_true]
  refine ⟨hwriters, hkeeps.dirty.trans h.clean, ?_⟩
  rintro _ ⟨⟩
  exact h.opened m hm

theorem Ready.unlock (h : c.Ready) (r : OcallResult) : (c.unlock r).Free :=
  h.elim (·.unlock r) (·.unlock r)

/-! ## Stores -/

/-- The copy has something to write. -/
def mustStore (c : ObjectLocks) : Bool := c.metadata.any (·.mustStore)

@[simp] theorem skipsStore_setDirty (c : ObjectLocks) : c.setDirty.skipsStore = false := by
  cases hm : c.metadata <;> simp [skipsStore, setDirty, MetadataLock.mustStore, hm]

theorem store_of_not_mustStore (hm : c.metadata = some m) (hmust : c.mustStore = false)
    (o : PutOutcome) : c.store o = (c, true) := by
  have hm' : m.mustStore = false := by simpa [mustStore, hm] using hmust
  simp [store, hm, hm']

theorem allocPut_of_free {b : BufferState} (h : b.writers = 0) (bytes : Bytes) (heap : Bool)
    (r : OcallResult) (now : Nat) :
    (bufferLayerAllocPut bytes heap r now b).1.writers = 0 ∧
      (bufferLayerAllocPut bytes heap r now b).1.isDirty = b.isDirty := by
  refine ⟨?_, (BufferState.allocPut_of_writers (by omega) bytes heap r now).1⟩
  rw [b.allocPut_eq]
  split
  · exact h
  split
  · exact h
  rw [if_neg (by omega)]
  cases r <;> first | exact h | rfl

theorem Free.store (h : c.Free) (o : PutOutcome) : (c.store o).1.Free := by
  unfold ObjectLocks.store
  cases hm : c.metadata with
  | none => exact h
  | some m =>
    have hput := allocPut_of_free h.writers o.bytes o.heap o.put o.now
    dsimp only
    split
    · exact h
    split
    · refine ⟨h.writers, h.clean, ?_⟩
      rintro _ ⟨⟩
      exact h.opened m hm
    · cases hres : bufferLayerAllocPut o.bytes o.heap o.put o.now c.buffer with
      | mk buffer ok =>
        rw [hres] at hput
        have hfree : ∀ m' : MetadataLock, m'.flags = m.flags → Free ⟨some m', buffer⟩ := by
          intro m' hflags
          refine ⟨hput.1, hput.2.trans h.clean, ?_⟩
          rintro _ ⟨⟩
          rw [hflags]
          exact h.opened m hm
        cases ok <;> exact hfree _ rfl

/-- A store of a held object that has something to write gives the lock back exactly
if it succeeds. -/
theorem Held.store (h : c.Held) (hmust : c.mustStore = true) (o : PutOutcome) :
    (c.store o).2 = o.succeeds ∧
      if o.succeeds then (c.store o).1.Free else (c.store o).1.Held := by
  obtain ⟨m, hm, -⟩ := h.locked
  have hm : c.metadata = some m := hm
  have hm' : m.mustStore = true := by simpa [mustStore, hm] using hmust
  have hopened := h.opened m hm
  have hheld : ∀ buffer : BufferState, buffer.writers = 1 → buffer.inWriteMode = true →
      buffer.isDirty = false →
      Held ⟨some { m with isInvalid := true, isLocked := buffer.inWriteMode }, buffer⟩ := by
    intro buffer hwriters hmode hclean
    refine ⟨hwriters, hmode, hclean, ?_, _, rfl, hmode⟩
    rintro _ ⟨⟩
    exact hopened
  simp only [ObjectLocks.store, hm, hm', Bool.not_true, Bool.false_eq_true, if_false,
    PutOutcome.succeeds]
  cases o.reached with
  | false => exact ⟨rfl, hheld _ h.writers h.mode h.clean⟩
  | true =>
    simp only [Bool.not_true, Bool.false_eq_true, if_false, Bool.true_and, c.buffer.allocPut_eq,
      h.mode, h.writers, Bool.true_eq_false, lt_irrefl]
    cases o.heap with
    | false => exact ⟨rfl, hheld _ h.writers h.mode h.clean⟩
    | true =>
      cases o.put with
      | ok =>
        refine ⟨rfl, rfl, h.clean, ?_⟩
        rintro _ ⟨⟩
        exact hopened
      | failed | error => exact ⟨rfl, hheld _ h.writers h.mode h.clean⟩

theorem Ready.store (h : c.Ready) (o : PutOutcome) : (c.store o).1.Ready := by
  obtain hfree | hheld := h
  · exact .inl (hfree.store o)
  cases hmust : c.mustStore with
  | false =>
    obtain ⟨m, hm, -⟩ := hheld.locked
    rw [store_of_not_mustStore hm hmust]
    exact .inr hheld
  | true =>
    have hstore := (hheld.store hmust o).2
    split at hstore
    · exact .inl hstore
    · exact .inr hstore

theorem Free.setDirty (h : c.Free) : c.setDirty.Free := by
  refine ⟨h.writers, h.clean, ?_⟩
  cases hm : c.metadata with
  | none => simp [ObjectLocks.setDirty, hm]
  | some m => simpa [ObjectLocks.setDirty, hm] using h.opened m hm

theorem Held.setDirty (h : c.Held) : c.setDirty.Held ∧ c.setDirty.mustStore = true := by
  obtain ⟨m, hm, hlocked⟩ := h.locked
  have hm : c.metadata = some m := hm
  have hopened := h.opened m hm
  refine ⟨⟨h.writers, h.mode, h.clean, ?_, ?_⟩, ?_⟩
  · simpa [ObjectLocks.setDirty, hm] using hopened
  · simpa [ObjectLocks.setDirty, hm] using hlocked
  · simp [ObjectLocks.setDirty, mustStore, MetadataLock.mustStore, hm]

theorem Ready.setDirty (h : c.Ready) : c.setDirty.Ready :=
  h.imp Free.setDirty (·.setDirty.1)

theorem store_result (hm : c.metadata = some m) (hmust : m.mustStore = true)
    (hw : c.buffer.writers ≤ 1) (o : PutOutcome) :
    (c.store o).2 = (c.buffer.inWriteMode && o.succeeds) ∧
      ((c.store o).2 = true → (c.store o).1.buffer.inWriteMode = false ∧
        (c.store o).1.metadata = some { m with isDirty := false, isLocked := false }) := by
  simp only [store, hm, hmust, Bool.not_true, Bool.false_eq_true, if_false, PutOutcome.succeeds]
  cases o.reached with
  | false => simp
  | true =>
    simp only [Bool.not_true, Bool.false_eq_true, if_false, Bool.true_and, c.buffer.allocPut_eq,
      Nat.not_lt.mpr hw]
    cases hmode : c.buffer.inWriteMode with
    | false => simp
    | true =>
      cases o.heap with
      | false => simp
      | true =>
        cases o.put with
        | ok => exact ⟨rfl, fun _ => ⟨rfl, rfl⟩⟩
        | failed | error => simp

theorem setDirty_setDirty (c : ObjectLocks) : c.setDirty.setDirty = c.setDirty := by
  cases hm : c.metadata <;> simp [setDirty, hm]

theorem store_reached {o : PutOutcome} (hskips : c.skipsStore = false)
    (h : (c.store o).2 = true) : o.reached = true := by
  cases hm : c.metadata with
  | none => simp [store, hm] at h
  | some m =>
    have hmust : m.mustStore = true := by simpa [skipsStore, hm] using hskips
    cases hreached : o.reached with
    | true => rfl
    | false => simp [store, hm, hmust, hreached] at h

theorem skipsStore_of_store {o : PutOutcome} {c' : ObjectLocks}
    (hopened : ∀ m ∈ c.metadata, m.flags.fcreate = false) (h : c.store o = (c', true)) :
    c'.skipsStore = true := by
  unfold store at h
  cases hm : c.metadata with
  | none => simp [hm] at h
  | some m =>
    simp only [hm] at h
    split at h
    next hmust =>
      cases h
      simpa [skipsStore, hm] using hmust
    split at h
    · cases h
    split at h
    · cases h
    · cases h
      simpa [skipsStore, MetadataLock.mustStore] using hopened m hm

theorem lockMode_bucket (onDisk : Bool) :
    nexusIoInLockMode (if onDisk then nexusFwrite else nexusFcreate) = true := by
  cases onDisk <;> rfl

theorem Free.storeBucket (h : c.Free) (o : BucketPut) :
    (c.storeBucket o).2 = o.stored ∧
      if o.kept then (c.storeBucket o).1.Free else (c.storeBucket o).1.buffer.writers ≠ 0 := by
  unfold ObjectLocks.storeBucket BucketPut.stored BucketPut.kept
  cases o.locked with
  | false => exact ⟨rfl, h⟩
  | true =>
    have hlocked : ∃ buffer, (bufferLayerLock (if o.onDisk then nexusFwrite else nexusFcreate) .ok
        c.buffer).1 = buffer ∧ buffer.writers = 1 ∧ buffer.inWriteMode = true ∧
          buffer.isDirty = false := by
      refine ⟨_, rfl, ?_⟩
      rw [c.buffer.lock_eq]
      have hwriters : ∀ flags, (metadataBufUpdate c.buffer.buf 0 flags).writers = 0 :=
        fun _ => h.writers
      have hdirty : ∀ flags, (metadataBufUpdate c.buffer.buf 0 flags).isDirty = false :=
        fun _ => h.clean
      by_cases hmode : c.buffer.inWriteMode = true
      · rw [if_pos hmode]
        exact ⟨by simp [h.writers], hmode, h.clean⟩
      · rw [if_neg hmode, if_pos rfl]
        simp [MetadataBuffer.writers_countWriter, lockMode_bucket, hwriters, hdirty]
    obtain ⟨buffer, heq, hwriters, hmode, hclean⟩ := hlocked
    have hkept : buffer.buf.writers ≠ 0 := hwriters.trans_ne Nat.one_ne_zero
    simp only [heq, Bool.not_true, Bool.false_eq_true, if_false, Bool.true_and, Bool.false_or,
      PutOutcome.succeeds]
    cases o.put.reached with
    | false => exact ⟨rfl, by simp [hwriters]⟩
    | true =>
      simp only [buffer.allocPut_eq, hmode, hwriters]
      cases o.put.heap with
      | false => exact ⟨rfl, by simpa using hkept⟩
      | true =>
        cases o.put.put with
        | ok => exact ⟨rfl, rfl, hclean, h.opened⟩
        | failed | error => exact ⟨rfl, by simpa using hkept⟩

/-! ## Syncs -/

/-- The lock, the put and the second lock of a sync succeed. -/
def syncs (o : SyncOutcome) (c : ObjectLocks) : Bool :=
  c.metadata.any fun m =>
    (if m.isLocked then c.buffer.inWriteMode
      else c.buffer.inWriteMode || decide (o.lock = .ok)) &&
    o.put.succeeds && (!nexusIoInLockMode m.flags || decide (o.relock = .ok))

@[simp] theorem syncLocks_setDirty (c : ObjectLocks) (r : OcallResult) :
    c.setDirty.syncLocks r = c.syncLocks r := by
  cases hm : c.metadata <;> simp [syncLocks, setDirty, hm]

theorem syncs_of_not_syncLocks {o : SyncOutcome} (h : c.syncLocks o.lock = false) :
    c.syncs o = false := by
  cases hm : c.metadata with
  | none => simp [syncs, hm]
  | some m =>
    simp only [syncLocks, hm, Option.any_some, Bool.or_eq_false_iff] at h
    simp [syncs, hm, h]

theorem syncs_after_false (c : ObjectLocks) (o : SyncOutcome) :
    c.syncs { o with put := o.put.after false } = false := by
  cases hm : c.metadata <;> simp [syncs, PutOutcome.succeeds, PutOutcome.after, hm]

/-- The part of a sync after the first lock. -/
def syncLocked (oldFlags : IoFlags) (o : SyncOutcome) (c : ObjectLocks) : ObjectLocks × Bool :=
  match c.store o.put with
  | (c, false) => (c, false)
  | (c, true) => if nexusIoInLockMode oldFlags then c.lock oldFlags o.relock else (c, true)

theorem Ready.syncLocked (h : c.Ready) (hm : c.metadata = some m) (hmust : m.mustStore = true)
    (o : SyncOutcome) :
    (c.syncLocked m.flags o).1.Ready ∧ (c.syncLocked m.flags o).2 =
      (c.buffer.inWriteMode && o.put.succeeds &&
        (!nexusIoInLockMode m.flags || decide (o.relock = .ok))) := by
  have hw : c.buffer.writers ≤ 1 := h.elim (by simp [·.writers]) (by simp [·.writers])
  obtain ⟨hresult, hafter⟩ := store_result hm hmust hw o.put
  have hready := h.store o.put
  unfold ObjectLocks.syncLocked
  cases hstore : c.store o.put with
  | mk c' ok =>
    rw [hstore] at hresult hafter hready
    cases ok with
    | false => exact ⟨hready, by rw [← hresult]; rfl⟩
    | true =>
      obtain ⟨hmode, hm'⟩ := hafter rfl
      have hfree : c'.Free := hready.resolve_right fun hheld => by simp [hheld.mode] at hmode
      rw [← hresult]
      cases hflags : nexusIoInLockMode m.flags with
      | false => exact ⟨hready, rfl⟩
      | true =>
        by_cases hr : o.relock = .ok
        · obtain ⟨hok, hheld⟩ := hfree.lock_held hm' hflags (.inr hr)
          refine ⟨.inr hheld, ?_⟩
          rw [decide_eq_true hr]
          exact hok
        · simp only [if_true, Free.lock_refused hmode hr]
          exact ⟨hready, by simp [hr]⟩

theorem Ready.sync (h : c.Ready) (hmust : c.mustStore = true) (o : SyncOutcome) :
    (c.sync o).1.Ready ∧ (c.sync o).2 = c.syncs o := by
  cases hm : c.metadata with
  | none => simp [mustStore, hm] at hmust
  | some m =>
    have hm' : m.mustStore = true := by simpa [mustStore, hm] using hmust
    simp only [ObjectLocks.sync, syncs, hm, Option.any_some]
    cases hlocked : m.isLocked with
    | true => exact h.syncLocked hm hm' o
    | false =>
      have hfree : c.Free := h.resolve_right fun hheld => by
        obtain ⟨m', hm'', hl⟩ := hheld.locked
        rw [hm] at hm''
        cases hm''
        exact Bool.false_ne_true (hlocked.symm.trans hl)
      simp only [Bool.false_eq_true, if_false]
      by_cases hr : c.buffer.inWriteMode = true ∨ o.lock = .ok
      · obtain ⟨hok, hheld⟩ := hfree.lock_held hm lockMode_fwrite hr
        have hmeta := lock_metadata hok
        cases hlock : c.lock nexusFwrite o.lock with
        | mk c' ok =>
          rw [hlock] at hok hheld hmeta
          cases hok
          rw [hm] at hmeta
          have hsync := Ready.syncLocked (.inr hheld) hmeta hm' o
          rw [hheld.mode] at hsync
          have hfirst : (c.buffer.inWriteMode || decide (o.lock = .ok)) = true := by simpa using hr
          rw [hfirst]
          exact hsync
      · rw [not_or, Bool.not_eq_true] at hr
        rw [Free.lock_refused hr.1 hr.2, hr.1, decide_eq_false hr.2]
        exact ⟨h, rfl⟩

theorem Ready.sync_setDirty (h : c.Ready) (o : SyncOutcome) :
    (c.setDirty.sync o).1.Ready ∧ (c.setDirty.sync o).2 = c.syncs o := by
  cases hm : c.metadata with
  | none =>
    have hdirty : c.setDirty = c := by cases c; simp_all [ObjectLocks.setDirty]
    rw [hdirty]
    simp [ObjectLocks.sync, syncs, hm, h]
  | some m =>
    have hsync := h.setDirty.sync (by simp [mustStore, ObjectLocks.setDirty, hm,
      MetadataLock.mustStore]) o
    refine ⟨hsync.1, hsync.2.trans ?_⟩
    simp [syncs, ObjectLocks.setDirty, hm]

end ObjectLocks

end Nexus
