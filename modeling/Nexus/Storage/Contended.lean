import Nexus.Storage.Acquire

/-!
# Locks that are touched again while they are held

A copy that is held for writing and read anew loses the mode of its entry, and one
that is acquired twice has two writers and one mark.  In both cases a writer stays
that no release removes.
-/

namespace Nexus.ObjectLocks

variable {c : ObjectLocks}

/-! ## Held objects that are read -/

/-- There is a writer, but the entry is not in write mode. -/
structure Stuck (c : ObjectLocks) : Prop where
  writers : c.buffer.writers = 1
  mode : c.buffer.inWriteMode = false
  clean : c.buffer.isDirty = false

/-- A visit for reading finds the object changed, and the get succeeds. -/
def rereads (o : DentryOutcome) (c : ObjectLocks) : Bool :=
  c.reads { o.load.revalidate with uninit := false } &&
    decide (o.load.revalidate.read.get = .ok)

theorem rereads_through (o : DentryOutcome) (held : Bool) (c : ObjectLocks) :
    c.rereads (o.through held) = c.rereads o := rfl

theorem load_read_failed {o : ReadOutcome} (hclean : c.buffer.isDirty = false)
    (h : o.get ≠ .ok) : c.load nexusFread o = (c, false) := by
  unfold load
  rw [c.buffer.get_eq, if_neg (by simp [hclean])]
  cases hget : o.get with
  | ok => exact absurd hget h
  | failed tookLock =>
    cases tookLock <;> simp [RemoteFile.lockForGet, IoFlags.locksOnGet, nexusFread]

variable {o : DentryOutcome}

theorem dentryRevalidate_of_instantiated {m : MetadataLock} (hm : c.metadata = some m)
    (flags : IoFlags) (hinst : o.instantiated = true) :
    c.dentryRevalidate flags o =
      ((c.acquire flags o.load.cached).1,
        (c.acquire flags o.load.cached).2 && o.verified) := by
  simp [dentryRevalidate, vfsLoad_eq, hm, hinst]

theorem stuck_load_read {o : ReadOutcome} (hwriters : c.buffer.writers = 1)
    (hclean : c.buffer.isDirty = false) (hget : o.get = .ok) :
    (c.load nexusFread o).1.Stuck := by
  rw [load_of_get hclean hget]
  cases o.parsed <;>
    exact ⟨by simp [hwriters, lockMode_fread], by simp [lockMode_fread], by simp [hclean]⟩

theorem Held.dentryRevalidate_read (h : c.Held) (hinst : o.instantiated = true) :
    if c.rereads o then (c.dentryRevalidate nexusFread o).1.Stuck
    else (c.dentryRevalidate nexusFread o).1 = c := by
  obtain ⟨m, hm, -⟩ := h.locked
  rw [dentryRevalidate_of_instantiated hm nexusFread hinst, acquire_eq, rereads]
  cases c.reads o.load.cached with
  | false => rfl
  | true =>
    by_cases hget : o.load.revalidate.read.get = .ok
    · simp only [hget, decide_true, Bool.and_self, if_true]
      exact stuck_load_read h.writers h.clean hget
    · simp only [hget, decide_false, Bool.and_false, Bool.false_eq_true, if_false, if_true]
      rw [load_read_failed h.clean hget]

theorem dentryRevalidate_reads_of_instantiated {m : MetadataLock} (hm : c.metadata = some m)
    (hclean : c.buffer.isDirty = false) (hinst : o.instantiated = true) :
    (c.dentryRevalidate nexusFread o).2 = c.dentryReads o := by
  rw [dentryRevalidate_of_instantiated hm nexusFread hinst, acquire_eq]
  simp only [dentryReads, readSucceeds, hm, hinst, Option.isNone_some, Bool.false_eq_true,
    if_false, Bool.not_true, Bool.false_and, Bool.or_false]
  cases c.reads o.load.cached with
  | false => rfl
  | true => simp [load_succeeds hclean]

theorem Stuck.dentryRevalidate_read (h : c.Stuck) (hinst : o.instantiated = true) :
    (c.dentryRevalidate nexusFread o).1.Stuck := by
  have hload : ∀ o, (c.load nexusFread o).1.Stuck := by
    intro o
    by_cases hget : o.get = .ok
    · exact stuck_load_read h.writers h.clean hget
    · rw [load_read_failed h.clean hget]
      exact h
  cases hm : c.metadata with
  | none =>
    simp only [ObjectLocks.dentryRevalidate, vfsLoad, hm]
    exact hload o.load.load
  | some m =>
    rw [dentryRevalidate_of_instantiated hm nexusFread hinst, acquire_eq]
    split
    · exact hload _
    · exact h

theorem Stuck.setDirty (h : c.Stuck) : c.setDirty.Stuck := ⟨h.writers, h.mode, h.clean⟩

theorem Stuck.unlock (h : c.Stuck) (r : OcallResult) : (c.unlock r).Stuck := by
  unfold ObjectLocks.unlock
  cases c.metadata with
  | none => exact h
  | some m =>
    dsimp only
    rw [c.buffer.unlock_eq, if_pos h.mode]
    split
    · exact ⟨h.writers, h.mode, h.clean⟩
    · exact h

theorem Stuck.store (h : c.Stuck) (o : PutOutcome) : (c.store o).1.Stuck := by
  unfold ObjectLocks.store
  cases c.metadata with
  | none => exact h
  | some m =>
    dsimp only
    rw [c.buffer.allocPut_eq, if_pos h.mode]
    split
    · exact h
    split <;> exact ⟨h.writers, h.mode, h.clean⟩

/-! ## Copies with nothing to write -/

section SkipsStore

variable (h : c.skipsStore = true)
include h

theorem skipsStore_load_read (o : ReadOutcome) : (c.load nexusFread o).1.skipsStore = true := by
  unfold load
  split
  · exact h
  split
  · rfl
  · exact h

theorem skipsStore_acquire_read (o : RevalidateOutcome) :
    (c.acquire nexusFread o).1.skipsStore = true := by
  rw [acquire_eq]
  split
  · exact skipsStore_load_read h o.read
  · exact h

theorem skipsStore_dentryRevalidate_read (o : DentryOutcome) :
    (c.dentryRevalidate nexusFread o).1.skipsStore = true := by
  change (c.vfsLoad o.instantiated nexusFread o.load).1.skipsStore = true
  have hacquire := skipsStore_acquire_read h o.load.cached
  rw [vfsLoad_eq]
  split
  · exact skipsStore_load_read h o.load.load
  dsimp only
  split
  · exact hacquire
  · have hload := skipsStore_load_read hacquire o.load.load
    unfold vfsReload
    split <;> next heq => rwa [heq] at hload

end SkipsStore

/-! ## Objects that are acquired twice -/

/-- There are two writers. -/
structure Twice (c : ObjectLocks) : Prop where
  writers : c.buffer.writers = 2
  mode : c.buffer.inWriteMode = true
  opened : ∀ m ∈ c.metadata, m.flags.fcreate = false

/-- There is a writer, and the copy does not give it back. -/
structure Dropped (c : ObjectLocks) : Prop where
  writers : c.buffer.writers ≠ 0
  unlocked : ∀ m ∈ c.metadata, m.isLocked = false

/-- The second acquisition of an object that is held fails before its get, or makes
a second writer. -/
theorem Held.dentryRevalidate_again (h : c.Held) (hinst : o.instantiated = true) :
    if c.reads o.load.cached &&
        decide (o.load.revalidate.read.get ≠ .ok) then
      (c.dentryRevalidate nexusFrdwr o).2 = false ∧ (c.dentryRevalidate nexusFrdwr o).1.Held
    else (c.dentryRevalidate nexusFrdwr o).1.Twice := by
  obtain ⟨m, hm, hlocked⟩ := h.locked
  rw [dentryRevalidate_of_instantiated hm nexusFrdwr hinst, acquire_eq]
  cases c.reads o.load.cached with
  | false =>
    simp only [Bool.false_and, Bool.false_eq_true, if_false, lockMode_frdwr, if_true, lock,
      c.buffer.lock_eq, h.mode, Option.mem_def.mp hm, Option.map_some]
    refine ⟨by simp [h.writers], h.mode, ?_⟩
    rintro _ ⟨⟩
    exact h.opened m hm
  | true =>
    by_cases hget : o.load.revalidate.read.get = .ok
    · simp only [hget, ne_eq, not_true_eq_false, decide_false, Bool.and_false, Bool.false_eq_true,
        if_false, if_true]
      rw [load_of_get h.clean hget]
      cases o.load.revalidate.read.parsed with
      | false => exact ⟨by simp [h.writers, lockMode_frdwr], by simp [lockMode_frdwr], h.opened⟩
      | true =>
        refine ⟨by simp [h.writers, lockMode_frdwr], by simp [lockMode_frdwr], ?_⟩
        rintro _ ⟨⟩
        rfl
    · simp only [hget, ne_eq, not_false_eq_true, decide_true, Bool.and_self, if_true]
      obtain ⟨remote, hload⟩ := load_of_get_failed h.clean hget nexusFrdwr
      rw [hload]
      exact ⟨rfl, h.writers, h.mode, h.clean, h.opened, m, hm, hlocked⟩

theorem Twice.setDirty (h : c.Twice) : c.setDirty.Twice := by
  refine ⟨h.writers, h.mode, ?_⟩
  cases hm : c.metadata with
  | none => simp [ObjectLocks.setDirty, hm]
  | some m => simpa [ObjectLocks.setDirty, hm] using h.opened m hm

theorem Twice.store (h : c.Twice) (o : PutOutcome) :
    (c.store o).1.Twice ∨ (c.store o).1.Dropped ∧ (c.store o).1.mustStore = false := by
  unfold ObjectLocks.store
  cases hm : c.metadata with
  | none => exact .inl h
  | some m =>
    have hopened := h.opened m hm
    have htwice : ∀ (m' : MetadataLock) (buffer : BufferState), m'.flags = m.flags →
        buffer.writers = 2 → buffer.inWriteMode = true → Twice ⟨some m', buffer⟩ := by
      intro m' buffer hflags hwriters hmode
      refine ⟨hwriters, hmode, ?_⟩
      rintro _ ⟨⟩
      rw [hflags]
      exact hopened
    dsimp only
    split
    · exact .inl h
    split
    · exact .inl (htwice _ _ rfl h.writers h.mode)
    · rw [c.buffer.allocPut_eq, if_neg (by simp [h.mode])]
      cases o.heap with
      | false => exact .inl (htwice _ _ rfl h.writers h.mode)
      | true =>
        rw [if_neg (by simp), if_pos (by simp [h.writers])]
        refine .inr ⟨⟨?_, ?_⟩, ?_⟩
        · simp [MetadataBuffer.deferred, show c.buffer.buf.writers = 2 from h.writers]
        · rintro _ ⟨⟩
          rfl
        · simp [mustStore, MetadataLock.mustStore, hopened]

/-- A writer that no release gives back, or two of them. -/
def Unbalanced (c : ObjectLocks) : Prop := c.Twice ∨ c.Dropped ∧ c.mustStore = false

theorem Unbalanced.store (h : c.Unbalanced) (o : PutOutcome) : (c.store o).1.Unbalanced := by
  obtain htwice | ⟨hdropped, hmust⟩ := h
  · exact htwice.store o
  · have hsame : (c.store o).1 = c := by
      cases hm : c.metadata with
      | none => simp [ObjectLocks.store, hm]
      | some m => rw [store_of_not_mustStore hm (by simpa [mustStore, hm] using hmust)]
    rw [hsame]
    exact .inr ⟨hdropped, hmust⟩

theorem Twice.unlock (h : c.Twice) (r : OcallResult) : (c.unlock r).Dropped := by
  unfold ObjectLocks.unlock
  cases hm : c.metadata with
  | none => exact ⟨by simp [h.writers], by simp [hm]⟩
  | some m =>
    dsimp only
    split
    · rw [c.buffer.unlock_eq, if_neg (by simp [h.mode]), if_neg (by simp [h.writers]),
        if_pos (by simp [h.writers])]
      refine ⟨by simp [h.writers], ?_⟩
      rintro _ ⟨⟩
      rfl
    next hlocked => exact ⟨by simp [h.writers], by simpa [hm] using hlocked⟩

theorem Dropped.unlock (h : c.Dropped) (r : OcallResult) : (c.unlock r).Dropped := by
  unfold ObjectLocks.unlock
  cases hm : c.metadata with
  | none => exact h
  | some m =>
    dsimp only
    rw [if_neg (by simp [h.unlocked m hm])]
    exact h

theorem Unbalanced.unlock (h : c.Unbalanced) (r : OcallResult) : (c.unlock r).Dropped := by
  obtain htwice | ⟨hdropped, -⟩ := h
  · exact htwice.unlock r
  · exact hdropped.unlock r

/-! ## Objects whose first acquisition failed or was replaced -/

theorem Lost.load (h : c.Lost) (flags : IoFlags) (o : ReadOutcome) : (c.load flags o).1.Lost := by
  refine ⟨?_, (load_isDirty flags o c).trans h.clean⟩
  by_cases hget : o.get = .ok
  · rw [load_of_get h.clean hget]
    cases o.parsed <;> simp [h.writers]
  · obtain ⟨remote, hload⟩ := load_of_get_failed h.clean hget flags
    rw [hload]
    exact h.writers

theorem Lost.lock (h : c.Lost) (r : OcallResult) : (c.lock nexusFrdwr r).1.Lost ∧
    ((c.lock nexusFrdwr r).2 = (c.buffer.inWriteMode || decide (r = .ok))) := by
  unfold ObjectLocks.lock
  rw [c.buffer.lock_eq]
  by_cases hmode : c.buffer.inWriteMode = true
  · rw [if_pos hmode]
    exact ⟨⟨by simp, h.clean⟩, by simp [hmode]⟩
  · by_cases hr : r = .ok
    · rw [if_neg hmode, if_pos hr]
      have hdirty : (metadataBufUpdate c.buffer.buf 0 nexusFrdwr).isDirty = false := h.clean
      exact ⟨⟨by simp [MetadataBuffer.writers_countWriter, lockMode_frdwr], by simp [hdirty]⟩,
        by simp [hr]⟩
    · rw [if_neg hmode, if_neg hr]
      exact ⟨h, by simp [hmode, hr]⟩

theorem Lost.acquire (h : c.Lost) (o : RevalidateOutcome) :
    (c.acquire nexusFrdwr o).1.Lost ∧
      (c.acquire nexusFrdwr o).2 = decide (c.acquireEnding o = .held) := by
  rw [acquire_eq, acquireEnding]
  cases c.reads o with
  | true => exact ⟨h.load _ _, by simp [load_succeeds h.clean]⟩
  | false =>
    simp only [Bool.false_eq_true, if_false, lockMode_frdwr, if_true]
    refine ⟨(h.lock o.lock).1, (h.lock o.lock).2.trans ?_⟩
    cases c.buffer.inWriteMode || decide (o.lock = .ok) <;> simp

/-- A lock that was lost is forgotten if a second copy takes the place of the first. -/
theorem Lost.dentryRevalidate (h : c.Lost) (o : DentryOutcome) :
    if c.loadEnding o.instantiated o.load = .replaced then
      (c.dentryRevalidate nexusFrdwr o).1.Free
    else (c.dentryRevalidate nexusFrdwr o).1.Lost := by
  have hload : (c.dentryRevalidate nexusFrdwr o).1 =
      (c.vfsLoad o.instantiated nexusFrdwr o.load).1 := rfl
  rw [hload, vfsLoad_eq, loadEnding]
  split
  · rw [if_neg (ReadOutcome.ending_ne_replaced o.load.load)]
    exact h.load _ _
  obtain ⟨hlost, hok⟩ := h.acquire o.load.cached
  have hne := acquireEnding_ne_replaced o.load.cached c
  generalize c.acquire nexusFrdwr o.load.cached = r at hlost hok
  obtain ⟨c', ok⟩ := r
  cases hins : o.instantiated with
  | true =>
    rw [if_pos rfl, if_neg hne]
    cases ok <;> exact hlost
  | false =>
    rw [if_neg Bool.false_ne_true]
    cases ok with
    | true =>
      rw [of_decide_eq_true hok.symm]
      exact hlost
    | false =>
      have hnot := of_decide_eq_false hok.symm
      have hreplaced : reloadEnding o.load.load
          (c.acquireEnding o.load.cached) = .replaced ↔
            o.load.load.ending = .held := by
        have hload := ReadOutcome.ending_ne_replaced o.load.load
        cases hfirst : c.acquireEnding o.load.cached with
        | refused => by_cases hheld : o.load.load.ending = .held <;> simp [reloadEnding, *]
        | orphaned => simp [reloadEnding]
        | held => exact absurd hfirst hnot
        | replaced => exact absurd hfirst hne
      have hends := vfsReload_ends (e := .orphaned) ⟨rfl, hlost⟩ o.load.load
      simp only [hreplaced]
      rw [reloadEnding] at hends
      split
      next hheld =>
        rw [if_pos hheld] at hends
        exact hends.2.toFree
      next hheld =>
        rw [if_neg hheld] at hends
        exact hends.2

/-- The copy is marked as locked, whether it is or not. -/
def Marked (c : ObjectLocks) : Prop := ∃ m ∈ c.metadata, m.isLocked = true

theorem load_marked {o : ReadOutcome} (h : (c.load nexusFrdwr o).2 = true) :
    (c.load nexusFrdwr o).1.Marked := by
  revert h
  unfold load
  split
  · nofun
  split
  · exact fun _ => ⟨_, rfl, rfl⟩
  · nofun

theorem vfsReload_marked {o : ReadOutcome} (h : (c.vfsReload nexusFrdwr o).2 = true) :
    (c.vfsReload nexusFrdwr o).1.Marked := by
  have hload := load_marked (c := c) (o := o)
  unfold vfsReload at h ⊢
  cases hres : c.load nexusFrdwr o with
  | mk c' ok =>
    rw [hres] at h hload
    cases ok with
    | false => cases h
    | true => exact hload rfl

theorem acquire_marked {o : RevalidateOutcome} (h : (c.acquire nexusFrdwr o).2 = true) :
    (c.acquire nexusFrdwr o).1.Marked := by
  revert h
  rw [acquire_eq]
  split
  · exact load_marked
  next hreads =>
    rw [if_pos lockMode_frdwr]
    intro h
    cases hm : c.metadata with
    | none => simp [reads, hm] at hreads
    | some m => exact ⟨{ m with isLocked := true }, by rw [lock_metadata h, hm]; rfl, rfl⟩

theorem dentryRevalidate_marked (h : (c.dentryRevalidate nexusFrdwr o).2 = true) :
    (c.dentryRevalidate nexusFrdwr o).1.Marked := by
  have hload : (c.vfsLoad o.instantiated nexusFrdwr o.load).2 = true := (Bool.and_eq_true _ _ ▸ h).1
  change (c.vfsLoad o.instantiated nexusFrdwr o.load).1.Marked
  revert hload
  rw [vfsLoad_eq]
  split
  · exact load_marked
  dsimp only
  split
  · exact acquire_marked
  · exact vfsReload_marked

/-- A free object whose copy is marked gives back what a second acquisition through
its dentry takes, even if that fails. -/
theorem Free.dentryRevalidate_ready (h : c.Free) (hmarked : c.Marked)
    (hinst : o.instantiated = true) : (c.dentryRevalidate nexusFrdwr o).1.Ready := by
  obtain ⟨m, hm, hlocked⟩ := hmarked
  rw [dentryRevalidate_of_instantiated hm nexusFrdwr hinst, acquire_eq]
  cases c.reads o.load.cached with
  | true =>
    rw [if_pos rfl]
    by_cases hget : o.load.revalidate.read.get = .ok
    · obtain ⟨-, -, hheld⟩ := h.load_lock lockMode_frdwr rfl hget
      cases hparsed : o.load.revalidate.read.parsed with
      | true => exact .inr (hheld hparsed)
      | false =>
        rw [load_of_get h.clean hget, hparsed]
        exact .inr ⟨by simp [h.writers, lockMode_frdwr], by simp [lockMode_frdwr],
          by simp [h.clean], h.opened, m, hm, hlocked⟩
    · obtain ⟨remote, hload⟩ := load_of_get_failed h.clean hget nexusFrdwr
      rw [hload]
      exact .inl ⟨h.writers, h.clean, h.opened⟩
  | false =>
    simp only [Bool.false_eq_true, if_false, lockMode_frdwr, if_true]
    by_cases hlock : c.buffer.inWriteMode = true ∨ o.load.revalidate.lock = .ok
    · exact .inr (h.lock_held hm lockMode_frdwr hlock).2
    · rw [not_or, Bool.not_eq_true] at hlock
      rw [Free.lock_refused hlock.1 hlock.2]
      exact .inl h

end Nexus.ObjectLocks
