import Nexus.Storage.HeldLocks

/-!
# How an acquisition ends

An acquisition for writing from a free object succeeds or fails, and in both cases
the lock may end up where no release of the copy reaches it: the contents of a
file that the get has locked are rejected, or the uuids of a dentry do not agree.
-/

namespace Nexus

open ObjectLocks

/-- How an acquisition for writing ends. -/
inductive Ending where
  /-- It fails without a lock. -/
  | refused
  /-- It fails and leaves the file locked. -/
  | orphaned
  /-- The copy has the lock. -/
  | held
  /-- A new copy takes the place of the cached one, and the writer is forgotten with
  the old one. -/
  | replaced
  deriving DecidableEq, Repr

def Ending.succeeds : Ending → Bool
  | .refused | .orphaned => false
  | .held | .replaced => true

/-- `__read_object` for writing. -/
def ReadOutcome.ending (o : ReadOutcome) : Ending :=
  if o.get = .ok then (if o.parsed then .held else .orphaned) else .refused

namespace ObjectLocks

/-- There is no copy, it is invalid, or the datastore has a newer one. -/
def reads (o : RevalidateOutcome) (c : ObjectLocks) : Bool :=
  match c.metadata with
  | none => true
  | some m => m.isInvalid || c.hasChanged o

/-- How `nexus_vfs_acquire_hardlink_table` and its siblings end. -/
def acquireEnding (o : RevalidateOutcome) (c : ObjectLocks) : Ending :=
  if c.reads o then o.read.ending
  else if c.buffer.inWriteMode || decide (o.lock = .ok) then .held
  else .refused

/-- How the second attempt of `nexus_vfs_load` ends, after the first. -/
def reloadEnding (o : ReadOutcome) : Ending → Ending
  | .refused => if o.ending = .held then .replaced else o.ending
  | .orphaned => if o.ending = .held then .replaced else .orphaned
  | ending => ending

/-- How `nexus_vfs_load` ends. -/
def loadEnding (instantiated : Bool) (o : LoadOutcome) (c : ObjectLocks) : Ending :=
  if c.metadata.isNone then o.load.ending
  else
    let first := c.acquireEnding { o.revalidate with uninit := false }
    if instantiated then first else reloadEnding o.load first

/-- How `dentry_revalidate` ends. -/
def dentryEnding (o : DentryOutcome) (c : ObjectLocks) : Ending :=
  match c.loadEnding o.instantiated o.load with
  | .held => if o.verified then .held else .orphaned
  | .replaced => if o.verified then .replaced else .refused
  | ending => ending

/-- The lock has no copy that would give it back. -/
structure Lost (c : ObjectLocks) : Prop where
  writers : c.buffer.writers ≠ 0
  clean : c.buffer.isDirty = false

/-- The copy is a new one, and its file is not locked. -/
structure Replaced (c : ObjectLocks) : Prop extends Free c where
  mode : c.buffer.inWriteMode = false
  fresh : c.skipsStore = true

end ObjectLocks

/-- What an acquisition that ends so leaves behind and returns. -/
def Ending.Ends : Ending → ObjectLocks × Bool → Prop
  | .refused, r => r.2 = false ∧ r.1.Free
  | .orphaned, r => r.2 = false ∧ r.1.Lost
  | .held, r => r.2 = true ∧ r.1.Held
  | .replaced, r => r.2 = true ∧ r.1.Replaced

theorem ReadOutcome.ending_ne_replaced (o : ReadOutcome) : o.ending ≠ .replaced := by
  unfold ending
  intro h
  split at h
  · split at h <;> contradiction
  · contradiction

theorem ReadOutcome.ending_eq_held {o : ReadOutcome} (h : o.ending = .held) :
    o.get = .ok ∧ o.parsed = true := by
  unfold ending at h
  split at h
  next hget =>
    split at h
    next hparsed => exact ⟨hget, hparsed⟩
    next => contradiction
  next => contradiction

theorem Ending.Ends.succeeds {e : Ending} {r : ObjectLocks × Bool} (h : e.Ends r) :
    r.2 = e.succeeds := by
  cases e <;> exact h.1

theorem Ending.Ends.failed {e : Ending} {c : ObjectLocks} (h : e.Ends (c, false)) :
    e = .refused ∧ c.Free ∨ e = .orphaned ∧ c.Lost := by
  cases e with
  | refused => exact .inl ⟨rfl, h.2⟩
  | orphaned => exact .inr ⟨rfl, h.2⟩
  | held | replaced => cases h.1

namespace ObjectLocks

variable {c : ObjectLocks}

theorem load_isDirty (flags : IoFlags) (o : ReadOutcome) (c : ObjectLocks) :
    (c.load flags o).1.buffer.isDirty = c.buffer.isDirty := by
  have hkeeps := (BufferState.get_keeps (s := c.buffer) flags o.get).dirty
  unfold load
  cases hget : bufferLayerGet flags o.get c.buffer with
  | mk buffer external =>
    rw [hget] at hkeeps
    cases external with
    | none => exact hkeeps
    | some bytes => cases o.parsed <;> exact hkeeps

theorem Free.load_ends (h : c.Free) (o : ReadOutcome) : o.ending.Ends (c.load nexusFrdwr o) := by
  unfold ReadOutcome.ending
  split
  next hget =>
    obtain ⟨hok, hwriters, hheld⟩ := h.load_lock lockMode_frdwr rfl hget
    cases hparsed : o.parsed with
    | true => exact ⟨hok.trans hparsed, hheld hparsed⟩
    | false =>
      refine ⟨hok.trans hparsed, by simp [hwriters], ?_⟩
      rw [load_isDirty]
      exact h.clean
  next hget =>
    obtain ⟨remote, hload⟩ := load_of_get_failed h.clean hget nexusFrdwr
    rw [hload]
    exact ⟨rfl, h.writers, h.clean, h.opened⟩

theorem acquire_eq (flags : IoFlags) (o : RevalidateOutcome) (c : ObjectLocks) :
    c.acquire flags o =
      if c.reads o then c.load flags o.read
      else if nexusIoInLockMode flags then c.lock flags o.lock
      else (c, true) := by
  cases hm : c.metadata with
  | none => simp [acquire, reads, hm]
  | some m =>
    simp only [acquire, reads, revalidate, hm]
    cases m.isInvalid <;> rfl

theorem Free.acquire_ends (h : c.Free) (o : RevalidateOutcome) :
    (c.acquireEnding o).Ends (c.acquire nexusFrdwr o) := by
  rw [acquire_eq, acquireEnding]
  cases hreads : c.reads o with
  | true => exact h.load_ends o.read
  | false =>
    obtain ⟨m, hm⟩ : ∃ m, c.metadata = some m := by
      cases hm : c.metadata with
      | none => simp [reads, hm] at hreads
      | some m => exact ⟨m, rfl⟩
    simp only [Bool.false_eq_true, if_false, lockMode_frdwr, if_true, Bool.or_eq_true,
      decide_eq_true_eq]
    split
    next hr => exact h.lock_held hm lockMode_frdwr hr
    next hr =>
      rw [not_or, Bool.not_eq_true] at hr
      rw [Free.lock_refused hr.1 hr.2]
      exact ⟨rfl, h⟩

theorem acquireEnding_ne_replaced (o : RevalidateOutcome) (c : ObjectLocks) :
    c.acquireEnding o ≠ .replaced := by
  unfold acquireEnding
  intro h
  split at h
  · exact ReadOutcome.ending_ne_replaced o.read h
  · split at h <;> contradiction

/-- A copy that is read anew has nothing to write, and one that is only locked is
left as it was. -/
theorem Free.acquire_mustStore (h : c.Free) {o : RevalidateOutcome}
    (hheld : c.acquireEnding o = .held) :
    (c.acquire nexusFrdwr o).1.mustStore = (!c.reads o && c.mustStore) := by
  have hok : (c.acquire nexusFrdwr o).2 = true := by
    rw [(h.acquire_ends o).succeeds, hheld]
    rfl
  rw [acquire_eq] at hok ⊢
  rw [acquireEnding] at hheld
  cases hreads : c.reads o with
  | true =>
    rw [hreads] at hheld
    obtain ⟨hget, hparsed⟩ := ReadOutcome.ending_eq_held hheld
    simp only [if_true, load_of_get h.clean hget, hparsed]
    rfl
  | false =>
    simp only [hreads, Bool.false_eq_true, if_false, lockMode_frdwr, if_true] at hok ⊢
    rw [mustStore, lock_metadata hok]
    cases hm : c.metadata with
    | none => simp [mustStore, hm]
    | some m => simp [mustStore, MetadataLock.mustStore, hm]

theorem evictBuffer_free (h : ∀ m ∈ c.metadata, m.flags.fcreate = false) : c.evictBuffer.Free :=
  ⟨rfl, rfl, h⟩

theorem evict_free (c : ObjectLocks) : c.evict.Free := ⟨rfl, rfl, nofun⟩

/-- The second attempt of `nexus_vfs_load`: it forgets the writers, or leaves the lock
of the first attempt where it is. -/
theorem vfsReload_ends {e : Ending} (hfirst : e.Ends (c, false)) (o : ReadOutcome) :
    (reloadEnding o e).Ends (c.vfsReload nexusFrdwr o) := by
  have hfailed := hfirst.failed
  have hclean : c.buffer.isDirty = false := hfailed.elim (·.2.clean) (·.2.clean)
  unfold vfsReload
  by_cases hget : o.get = .ok
  · rw [load_of_get hclean hget]
    cases hparsed : o.parsed with
    | true =>
      have hending : reloadEnding o e = .replaced := by
        obtain ⟨rfl, -⟩ | ⟨rfl, -⟩ := hfailed <;>
          simp [reloadEnding, ReadOutcome.ending, hget, hparsed]
      rw [hending]
      refine ⟨rfl, evictBuffer_free ?_, rfl, rfl⟩
      rintro _ ⟨⟩
      rfl
    | false =>
      have hending : reloadEnding o e = .orphaned := by
        obtain ⟨rfl, -⟩ | ⟨rfl, -⟩ := hfailed <;>
          simp [reloadEnding, ReadOutcome.ending, hget, hparsed]
      rw [hending]
      exact ⟨rfl, by simp [lockMode_frdwr], by simp [hclean]⟩
  · have hending : reloadEnding o e = e := by
      cases e <;> simp [reloadEnding, ReadOutcome.ending, hget]
    obtain ⟨remote, hload⟩ := load_of_get_failed hclean hget nexusFrdwr
    rw [hload, hending]
    obtain ⟨rfl, hfree⟩ | ⟨rfl, hlost⟩ := hfailed
    · exact ⟨rfl, hfree.writers, hclean, hfree.opened⟩
    · exact ⟨rfl, hlost.writers, hclean⟩

theorem vfsLoad_eq (instantiated : Bool) (flags : IoFlags) (o : LoadOutcome) (c : ObjectLocks) :
    c.vfsLoad instantiated flags o =
      if c.metadata.isNone then c.load flags o.load
      else
        let r := c.acquire flags o.cached
        if r.2 || instantiated then r else r.1.vfsReload flags o.load := by
  unfold vfsLoad acquire
  cases c.metadata with
  | none => rfl
  | some m =>
    dsimp only
    cases c.revalidate flags o.cached m with
    | mk c' ok => cases ok <;> cases instantiated <;> rfl

theorem reloadEnding_of_succeeds {first : Ending} (h : first.succeeds = true) (o : ReadOutcome) :
    reloadEnding o first = first := by
  cases first with
  | refused | orphaned => cases h
  | held => rfl
  | replaced => rfl

theorem Free.vfsLoad_ends (h : c.Free) (instantiated : Bool) (o : LoadOutcome) :
    (c.loadEnding instantiated o).Ends (c.vfsLoad instantiated nexusFrdwr o) := by
  rw [vfsLoad_eq, loadEnding]
  split
  · exact h.load_ends o.load
  have hends := h.acquire_ends o.cached
  generalize c.acquire nexusFrdwr o.cached = r at hends
  obtain ⟨c', ok⟩ := r
  cases ok with
  | true =>
    dsimp only
    rw [reloadEnding_of_succeeds hends.succeeds.symm, ite_self]
    exact hends
  | false =>
    cases instantiated with
    | true => exact hends
    | false => exact vfsReload_ends hends o.load

theorem Free.dentryRevalidate_ends (h : c.Free) (o : DentryOutcome) :
    (c.dentryEnding o).Ends (c.dentryRevalidate nexusFrdwr o) := by
  have hends := h.vfsLoad_ends o.instantiated o.load
  unfold dentryRevalidate dentryEnding
  cases hload : c.vfsLoad o.instantiated nexusFrdwr o.load with
  | mk c' ok =>
    rw [hload] at hends
    generalize c.loadEnding o.instantiated o.load = ending at hends
    cases ending with
    | refused =>
      cases hends.1
      exact hends
    | orphaned =>
      cases hends.1
      exact hends
    | held =>
      cases hends.1
      cases o.verified with
      | true => exact hends
      | false => exact ⟨rfl, by simp [hends.2.writers], hends.2.clean⟩
    | replaced =>
      cases hends.1
      cases o.verified with
      | true => exact hends
      | false => exact ⟨rfl, hends.2.toFree⟩

/-! ## Acquisitions for reading -/

theorem lockMode_fread : nexusIoInLockMode nexusFread = false := rfl

theorem Held.reset (h : c.Held) (r : OcallResult) (o : ReadOutcome) : (c.reset r o).Free :=
  (h.unlock r).load_read lockMode_fread o

theorem Free.acquire_read (h : c.Free) (o : RevalidateOutcome) :
    (c.acquire nexusFread o).1.Free := by
  rw [acquire_eq]
  split
  · exact h.load_read lockMode_fread o.read
  · exact h

/-- When an acquisition for reading succeeds. -/
def readSucceeds (o : RevalidateOutcome) (c : ObjectLocks) : Bool :=
  !c.reads o || decide (o.read.ending = .held)

theorem load_succeeds (hclean : c.buffer.isDirty = false) (flags : IoFlags) (o : ReadOutcome) :
    (c.load flags o).2 = decide (o.ending = .held) := by
  unfold ReadOutcome.ending
  by_cases hget : o.get = .ok
  · rw [load_of_get hclean hget]
    cases o.parsed <;> simp [hget]
  · obtain ⟨remote, hload⟩ := load_of_get_failed hclean hget flags
    rw [hload]
    simp [hget]

theorem load_mustStore (hclean : c.buffer.isDirty = false) {o : ReadOutcome}
    (h : o.ending = .held) : (c.load nexusFrdwr o).1.mustStore = false := by
  obtain ⟨hget, hparsed⟩ := ReadOutcome.ending_eq_held h
  rw [load_of_get hclean hget, hparsed]
  rfl

theorem Free.acquire_read_succeeds (h : c.Free) (o : RevalidateOutcome) :
    (c.acquire nexusFread o).2 = c.readSucceeds o := by
  rw [acquire_eq, readSucceeds]
  cases c.reads o with
  | true => exact load_succeeds h.clean nexusFread o.read
  | false => rfl

theorem Free.vfsReload_read (h : c.Free) (o : ReadOutcome) :
    (c.vfsReload nexusFread o).1.Free := by
  have hload := h.load_read lockMode_fread o
  unfold vfsReload
  cases hres : c.load nexusFread o with
  | mk c' ok =>
    rw [hres] at hload
    cases ok with
    | false => exact hload
    | true => exact evictBuffer_free hload.opened

theorem Free.vfsLoad_read (h : c.Free) (instantiated : Bool) (o : LoadOutcome) :
    (c.vfsLoad instantiated nexusFread o).1.Free := by
  have hfree := h.acquire_read o.cached
  rw [vfsLoad_eq]
  split
  · exact h.load_read lockMode_fread o.load
  dsimp only
  split
  · exact hfree
  · exact hfree.vfsReload_read o.load

theorem Free.dentryRevalidate_read (h : c.Free) (o : DentryOutcome) :
    (c.dentryRevalidate nexusFread o).1.Free :=
  h.vfsLoad_read o.instantiated o.load

/-- When a dentry is revalidated for reading. -/
def dentryReads (o : DentryOutcome) (c : ObjectLocks) : Bool :=
  (if c.metadata.isNone then decide (o.load.load.ending = .held)
    else c.readSucceeds { o.load.revalidate with uninit := false } ||
      !o.instantiated && decide (o.load.load.ending = .held)) && o.verified

theorem Free.vfsReload_succeeds (h : c.Free) (o : ReadOutcome) :
    (c.vfsReload nexusFread o).2 = decide (o.ending = .held) := by
  have hload := load_succeeds h.clean nexusFread o
  unfold vfsReload
  cases hres : c.load nexusFread o with
  | mk c' ok =>
    rw [hres] at hload
    cases ok <;> exact hload

theorem Free.dentryRevalidate_reads (h : c.Free) (o : DentryOutcome) :
    (c.dentryRevalidate nexusFread o).2 = c.dentryReads o := by
  change ((c.vfsLoad o.instantiated nexusFread o.load).2 && o.verified) = c.dentryReads o
  rw [vfsLoad_eq, dentryReads]
  split
  · simp [load_succeeds h.clean]
  have hacquire := h.acquire_read_succeeds o.load.cached
  have hfree := h.acquire_read o.load.cached
  rw [← hacquire]
  generalize c.acquire nexusFread o.load.cached = r at hfree
  obtain ⟨c', ok⟩ := r
  cases ok with
  | true => rfl
  | false =>
    cases o.instantiated with
    | true => rfl
    | false => simp [hfree.vfsReload_succeeds]

/-! ## Stores without a lock -/

theorem setDirty_store_fails (hmode : c.buffer.inWriteMode = false) (o : PutOutcome) :
    (c.setDirty.store o).2 = false := by
  cases hm : c.metadata with
  | none => simp [store, setDirty, hm]
  | some m =>
    have hbuffer : c.setDirty.buffer = c.buffer := rfl
    simp only [store, setDirty, hm, Option.map_some, MetadataLock.mustStore, Bool.true_or,
      Bool.not_true, Bool.false_eq_true, if_false]
    cases o.reached with
    | false => rfl
    | true =>
      simp only [Bool.not_true, Bool.false_eq_true, if_false, c.buffer.allocPut_eq, hmode, if_true]

/-! ## New objects -/

/-- A store of the only writer, which gives the lock back exactly if it succeeds. -/
theorem store_writers {m : MetadataLock} (hm : c.metadata = some m) (hmust : m.mustStore = true)
    (hw : c.buffer.writers = 1) (hmode : c.buffer.inWriteMode = true) (o : PutOutcome) :
    (c.store o).1.buffer.writers = (!o.succeeds).toNat ∧
      (c.store o).1.buffer.isDirty = c.buffer.isDirty := by
  simp only [store, hm, hmust, Bool.not_true, Bool.false_eq_true, if_false, PutOutcome.succeeds]
  cases o.reached with
  | false => exact ⟨hw, rfl⟩
  | true =>
    simp only [Bool.not_true, Bool.false_eq_true, if_false, Bool.true_and, c.buffer.allocPut_eq,
      hmode, hw, Bool.true_eq_false, lt_irrefl]
    cases o.heap with
    | false => exact ⟨hw, rfl⟩
    | true => cases o.put <;> exact ⟨by first | exact hw | rfl, rfl⟩

theorem create_of_evicted_failed (c : ObjectLocks) {r : OcallResult} (hr : r ≠ .ok) :
    c.evict.create r = (c.evict, false) := by
  unfold create
  rw [BufferState.lock_eq, if_neg (by exact Bool.false_ne_true), if_neg hr]

theorem create_of_evicted (c : ObjectLocks) {r : OcallResult} (hr : r = .ok) :
    ∃ c', c.evict.create r = (c', true) ∧ c'.buffer.writers = 1 ∧
      ∀ o : PutOutcome, (c'.store o).2 = o.succeeds ∧
        if o.succeeds then (c'.store o).1.free.Free else (c'.store o).1.free.Lost := by
  have hcreate : c.evict.create r = (⟨some (.fromObject nexusFcreate),
      ⟨some (metadataBufUpdate .zeroed 0 nexusFcreate).countWriter,
        c.buffer.remote.lock nexusFcreate⟩⟩, true) := by
    unfold create
    rw [BufferState.lock_eq, if_neg (by exact Bool.false_ne_true), if_pos hr]
    rfl
  refine ⟨_, hcreate, rfl, fun o => ?_⟩
  generalize hc' : (⟨some (.fromObject nexusFcreate),
    ⟨some (metadataBufUpdate .zeroed 0 nexusFcreate).countWriter,
      c.buffer.remote.lock nexusFcreate⟩⟩ : ObjectLocks) = c'
  have hm : c'.metadata = some (.fromObject nexusFcreate) := by rw [← hc']
  have hw : c'.buffer.writers = 1 := by rw [← hc']; rfl
  have hmode : c'.buffer.inWriteMode = true := by rw [← hc']; rfl
  have hclean : c'.buffer.isDirty = false := by rw [← hc']; rfl
  obtain ⟨hwriters, hdirty⟩ := store_writers hm rfl hw hmode o
  have hresult := (store_result hm rfl (Nat.le_of_eq hw) o).1
  rw [hmode, Bool.true_and] at hresult
  refine ⟨hresult, ?_⟩
  cases hsucc : o.succeeds with
  | true =>
    rw [hsucc] at hwriters
    exact ⟨hwriters, hdirty.trans hclean, nofun⟩
  | false =>
    rw [hsucc] at hwriters
    refine ⟨?_, hdirty.trans hclean⟩
    intro hzero
    exact absurd (hwriters.symm.trans hzero) Nat.one_ne_zero

end ObjectLocks

end Nexus
