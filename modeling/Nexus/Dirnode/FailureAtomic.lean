import Nexus.Dirnode.Crash

/-!
# When a store is failure-atomic

A `Session` is the life of one directory: it is created, modified, stored and
loaded, and a store may be cut short anywhere.  After a failed store the copy in
the enclave is invalid, so the session goes on only if the directory loads.

In every session the directory that is stored is whole, and what a cut store
leaves behind loads exactly when the cut is harmless: the main object was written
with every bucket that was put, or it was not written and no separately stored
bucket of the old directory was touched.  After a store with deferred puts the
enclave and the datastore differ; the session then goes on from the datastore.
-/

namespace Nexus

open Codec Writes

/-- The modifications that the stored format can hold, while there is room for
another bucket. -/
def DirnodeOp.Fits (d : Dirnode) (op : DirnodeOp) : Prop := op.Benign d ∧ d.bucketCount < 65535

/-- The dirnode in the enclave and its objects in the datastore, in a run in
which every modification meets `ok`. -/
inductive Session (ok : Dirnode → DirnodeOp → Prop) : Dirnode → StoredDirnode → Prop where
  | create (rootUuid myUuid bucket0 : Uuid) :
      Session ok (dirnodeCreate rootUuid myUuid bucket0) ⟨[], fun _ => none⟩
  | modify {d : Dirnode} {s : StoredDirnode} (op : DirnodeOp) (reached : Session ok d s)
      (others : Dirnode → StoredDirnode) (other : ∀ d' ∈ op.other, Session ok d' (others d'))
      (valid : op.Valid d) (allowed : ok d op) : Session ok (op.apply d) s
  | store {d : Dirnode} {s : StoredDirnode} (c : StoreCut) (reached : Session ok d s)
      (whole : c.Replaces d) (written : c.PutsWritten d) :
      Session ok (dirnodeStore c.whole d s).1 (dirnodeStoreCut c d s)
  | cut {d l : Dirnode} {s : StoredDirnode} (c : StoreCut) (reached : Session ok d s)
      (fresh : c.FreshMacs s)
      (load : dirnodeLoad (dirnodeStoreCut c d s) = some l) : Session ok l (dirnodeStoreCut c d s)
  | load {d l : Dirnode} {s : StoredDirnode} (reached : Session ok d s)
      (load : dirnodeLoad s = some l) : Session ok l s

/-! ## The invariant -/

/-- The directory in memory can be stored, its clean buckets are in the
datastore, and what is stored is nothing yet or a whole directory. -/
structure SessionInv (d : Dirnode) (s : StoredDirnode) : Prop where
  storable : d.Storable
  synced : BucketsSynced s.buckets (d.bucketList.drop 1)
  stored : s.main = [] ∨ ∃ d₀, s.Authentic d₀ ∧ s.Intact d₀

variable {s : StoredDirnode}

theorem dirnodeLoad_of_empty (h : s.main = []) : dirnodeLoad s = none := by
  rw [dirnodeLoad, h]
  rfl

variable {d : Dirnode}

theorem SessionInv.of_load {before : Dirnode} (h : SessionInv d s)
    (hload : dirnodeLoad s = some before) :
    ∃ d₀, s.Authentic d₀ ∧ s.Intact d₀ ∧ before = d₀.reloaded := by
  rcases h.stored with hempty | ⟨d₀, hauthentic, hintact⟩
  · simp [dirnodeLoad_of_empty hempty] at hload
  · exact ⟨d₀, hauthentic, hintact, (hauthentic.load_iff.mp hload).2⟩

theorem StoredDirnode.Authentic.sessionInv {d₀ l : Dirnode} (h : s.Authentic d₀)
    (hload : dirnodeLoad s = some l) : SessionInv l s := by
  obtain ⟨hintact, rfl⟩ := h.load_iff.mp hload
  exact ⟨h.storable.reloaded, hintact.synced, .inr ⟨d₀, h, hintact⟩⟩

variable {c : StoreCut}

theorem StoreCut.FreshMacs.of_intact {d₀ : Dirnode} (h : c.FreshMacs s) (hintact : s.Intact d₀) :
    ∀ b ∈ d₀.bucketList.drop 1, c.bucketMac b.uuid ≠ b.mac :=
  fun b hb => h b.uuid _ _ (hintact b hb)

theorem SessionInv.modify {op : DirnodeOp} (h : SessionInv d s)
    (hother : ∀ d' ∈ op.other, d'.Sound) (hvalid : op.Valid d) (hfits : op.Fits d) :
    SessionInv (op.apply d) s := by
  have hwf (d' : Dirnode) (hd' : d' ∈ op.other) : d'.WF := (hother d' hd').wf
  refine ⟨⟨op.apply_sound h.storable.toSound hother hvalid hfits.1, ?_⟩,
    h.synced.of_bucketsFrom (op.apply_edits h.storable.wf hwf).bucketsFrom, h.stored⟩
  have hcount := (op.apply_edits h.storable.wf hwf).bucketCount
  have hroom := hfits.2
  omega

theorem SessionInv.store (h : SessionInv d s) (hreplaces : c.Replaces d)
    (hwritten : c.PutsWritten d) :
    SessionInv (dirnodeStore c.whole d s).1 (dirnodeStoreCut c d s) := by
  have hintact := dirnodeStoreCut_intact h.storable h.synced hreplaces hwritten
  have hmain := (dirnodeStore_authentic h.storable h.synced
    (dirnodeStore_succeeds c.whole_succeeds d s)).1.main
  have hstorable := dirnodeStore_storable h.storable c.whole s
  refine ⟨hstorable, fun b hb _ => hintact b hb,
    .inr ⟨_, ⟨hstorable, (if_pos hreplaces).trans hmain, ?_⟩, hintact⟩⟩
  intro b hb content hcontent
  rw [hintact b hb] at hcontent
  exact (congrArg Prod.fst (Option.some.inj hcontent)).symm

theorem SessionInv.cut {l : Dirnode} (h : SessionInv d s) (hfresh : c.FreshMacs s)
    (hload : dirnodeLoad (dirnodeStoreCut c d s) = some l) :
    SessionInv l (dirnodeStoreCut c d s) := by
  by_cases hreplaces : c.Replaces d
  · exact (dirnodeStoreCut_authentic h.storable h.synced hreplaces hfresh).sessionInv hload
  rcases h.stored with hempty | ⟨d₀, hauthentic, hintact⟩
  · -- the first store of a directory leaves nothing that loads
    have hmain : (dirnodeStoreCut c d s).main = [] := (if_neg hreplaces).trans hempty
    simp [dirnodeLoad_of_empty hmain] at hload
  · exact (hauthentic.of_touchedBy (dirnodeStoreCut_touchedBy hreplaces s)
      (hfresh.of_intact hintact)).sessionInv hload

theorem Session.inv (h : Session (fun d op => op.Fits d) d s) : SessionInv d s := by
  induction h with
  | create rootUuid myUuid bucket0 =>
    have hcount : (dirnodeCreate rootUuid myUuid bucket0).bucketCount ≤ 65535 :=
      show 1 ≤ 65535 by decide
    refine ⟨⟨dirnodeCreate_sound rootUuid myUuid bucket0, hcount⟩, ?_, .inl rfl⟩
    simp [BucketsSynced, dirnodeCreate]
  | modify op _ _ _ hvalid hfits ih ihother =>
    exact ih.modify (fun d' hd' => (ihother d' hd').storable.toSound) hvalid hfits
  | store c _ hreplaces hwritten ih => exact ih.store hreplaces hwritten
  | cut c _ hfresh hload ih => exact ih.cut hfresh hload
  | load _ hload ih =>
    obtain ⟨d₀, hauthentic, -⟩ := ih.of_load hload
    exact hauthentic.sessionInv hload

/-! ## Failure atomicity -/

theorem SessionInv.failureAtomic_iff {before : Dirnode} (h : SessionInv d s)
    (hload : dirnodeLoad s = some before) (hfresh : c.FreshMacs s) :
    FailureAtomic before d (dirnodeStoreCut c d s) ↔ c.Harmless before d := by
  unfold StoreCut.Harmless
  split
  next hreplaces =>
    -- the main object is there, and with it the new contents, if they load
    have hauthentic := dirnodeStoreCut_authentic h.storable h.synced hreplaces hfresh
    rw [← dirnodeStoreCut_intact_iff h.storable h.synced hreplaces hfresh]
    constructor
    · intro hatomic
      obtain ⟨l, hl, -⟩ := hatomic
      exact (hauthentic.load_iff.mp hl).1
    · intro hintact
      exact ⟨_, hauthentic.load_iff.mpr ⟨hintact, rfl⟩,
        .inr (dirnodeStore_sameContents h.storable c.whole s)⟩
  next hkept =>
    obtain ⟨d₀, hauthentic, hintact, rfl⟩ := h.of_load hload
    have hiff (l : Dirnode) : dirnodeLoad (dirnodeStoreCut c d s) = some l ↔ _ :=
      hauthentic.load_touchedBy_iff (dirnodeStoreCut_touchedBy hkept s)
        (hfresh.of_intact hintact)
    constructor
    · intro hatomic
      obtain ⟨l, hl, -⟩ := hatomic
      obtain ⟨hl, huntouched⟩ := (hiff l).mp hl
      rw [hload] at hl
      rw [← Option.some.inj hl] at huntouched
      exact huntouched
    · intro huntouched
      exact ⟨_, (hiff _).mpr ⟨hload, huntouched⟩, .inl (.refl _)⟩

/-- In every session, whatever the modifications, the deferred puts and the failing
deletes, and wherever the store is cut: a later load gives the old contents or the
new ones exactly when the cut is harmless. -/
theorem Session.store_failureAtomic_iff {d before : Dirnode} {s : StoredDirnode}
    (h : Session (fun d op => op.Fits d) d s) (hload : dirnodeLoad s = some before)
    (c : StoreCut) (hfresh : c.FreshMacs s) :
    FailureAtomic before d (dirnodeStoreCut c d s) ↔ c.Harmless before d :=
  h.inv.failureAtomic_iff hload hfresh

/-! ### A directory with two buckets -/

/-- Files added one after another, with their uuids and the uuids for buckets. -/
def addFiles (d : Dirnode) : List (Name × Uuid × Uuid) → Dirnode
  | [] => d
  | (name, uuid, fresh) :: files => addFiles (dirnodeAdd d name .reg uuid fresh).1 files

/-- Every file of the list fits when its turn comes. -/
def addFilesFit (d : Dirnode) : List (Name × Uuid × Uuid) → Bool
  | [] => true
  | (name, uuid, fresh) :: files =>
    decide (fresh ∉ d.bucketList.map Bucket.uuid) && decide (d.bucketCount < 65535) &&
      addFilesFit (dirnodeAdd d name .reg uuid fresh).1 files

theorem DirnodeReachable.addFiles {ok : Dirnode → DirnodeOp → Prop}
    (hok : ∀ (d : Dirnode) name uuid fresh, d.bucketCount < 65535 → ok d (.add name .reg uuid fresh))
    (h : DirnodeReachable ok d) {files : List (Name × Uuid × Uuid)}
    (hfit : addFilesFit d files = true) : DirnodeReachable ok (addFiles d files) := by
  induction files generalizing d with
  | nil => exact h
  | cons file files ih =>
    obtain ⟨name, uuid, fresh⟩ := file
    simp only [addFilesFit, Bool.and_eq_true, decide_eq_true_eq] at hfit
    obtain ⟨⟨hfresh, hcount⟩, hrest⟩ := hfit
    refine ih (.step (.add name .reg uuid fresh) h ?_ hfresh (hok d name uuid fresh hcount)) hrest
    intro d' hd'
    simp [DirnodeOp.other] at hd'

theorem DirnodeReachable.session {ok : Dirnode → DirnodeOp → Prop} (h : DirnodeReachable ok d) :
    Session ok d ⟨[], fun _ => none⟩ := by
  induction h with
  | create rootUuid myUuid bucket0 => exact .create rootUuid myUuid bucket0
  | step op _ _ hvalid hok ih ihother => exact .modify op ih (fun _ => _) ihother hvalid hok

/-- A name for each number below 255. -/
def fileName (i : Nat) : Name := (Name.ofBytes? [UInt8.ofNat (i + 1)]).getD linkName

/-- The 129 files `0` to `128`, one more than a bucket holds. -/
def manyFiles : List (Name × Uuid × Uuid) :=
  (List.range 129).map fun i =>
    (fileName i, BitVec.ofNat 128 (100 + i), BitVec.ofNat 128 (1000 + i))

/-- The directory with these files. -/
def twoBuckets : Dirnode := addFiles (dirnodeCreate 1 2 3) manyFiles

/-- A store without deferred puts whose writes end after `n`; every bucket gets the
mac `mac`. -/
def cutAfter (n : Nat) (mac : Mac) : StoreCut where
  macversion := ⟨0, 0⟩
  bucketMac := fun _ => mac
  deletes := fun _ => true
  deferred := ⟨false, fun _ => false⟩
  writes := n

/-- The store that writes all of it. -/
def firstStore : StoreCut := cutAfter 2 5

/-- The directory in memory after it was stored. -/
def savedMemory : Dirnode := (dirnodeStore firstStore.whole twoBuckets ⟨[], fun _ => none⟩).1

/-- The directory in the datastore. -/
def savedObjects : StoredDirnode := dirnodeStoreCut firstStore twoBuckets ⟨[], fun _ => none⟩

/-- The last file is removed again, which empties the second bucket. -/
def lastRemoved : Dirnode := (DirnodeOp.remove (fileName 128) none 0).apply savedMemory

theorem twoBuckets_evaluated :
    addFilesFit (dirnodeCreate 1 2 3) manyFiles = true ∧ firstStore.Reaches twoBuckets ∧
      savedMemory.bucketCount < 65535 ∧
      (cutAfter 2 6).Reaches lastRemoved ∧ ¬ (cutAfter 1 6).Reaches lastRemoved ∧
      (savedMemory.bucketList.drop 1).any
        (fun b => decide (b.uuid ∈ (cutAfter 1 6).touched lastRemoved)) = true := by
  decide +kernel

theorem cutAfter_putsWritten (n : Nat) (mac : Mac) (d : Dirnode) : (cutAfter n mac).PutsWritten d :=
  fun _ _ _ => rfl

theorem twoBuckets_reachable : DirnodeReachable (fun d op => op.Fits d) twoBuckets :=
  (DirnodeReachable.create 1 2 3).addFiles (fun _ _ _ _ hcount => ⟨trivial, hcount⟩)
    twoBuckets_evaluated.1

theorem twoBuckets_session : Session (fun d op => op.Fits d) twoBuckets ⟨[], fun _ => none⟩ :=
  twoBuckets_reachable.session

theorem saved_session : Session (fun d op => op.Fits d) savedMemory savedObjects := by
  rw [savedMemory, savedObjects]
  exact .store firstStore twoBuckets_session ⟨twoBuckets_evaluated.2.1, rfl⟩
    (cutAfter_putsWritten 2 5 _)

theorem load_savedObjects : dirnodeLoad savedObjects = some savedMemory.reloaded := by
  have hinv := twoBuckets_session.inv
  have hreplaces : firstStore.Replaces twoBuckets := ⟨twoBuckets_evaluated.2.1, rfl⟩
  have hintact := dirnodeStoreCut_intact hinv.storable hinv.synced hreplaces
    (cutAfter_putsWritten 2 5 _)
  rw [savedObjects, savedMemory]
  exact (dirnodeStoreCut_authentic hinv.storable hinv.synced hreplaces nofun).load_iff.mpr
    ⟨hintact, rfl⟩

theorem lastRemoved_session : Session (fun d op => op.Fits d) lastRemoved savedObjects := by
  rw [lastRemoved]
  refine .modify _ saved_session (fun _ => savedObjects) ?_ trivial
    ⟨trivial, twoBuckets_evaluated.2.2.1⟩
  intro d' hd'
  simp [DirnodeOp.other] at hd'

theorem bucketMac_of_first (hnone : ∀ uuid, s.buckets uuid = none) {uuid : Uuid} {content : Bytes}
    {mac : Mac} (h : (dirnodeStoreCut c d s).buckets uuid = some (content, mac)) :
    mac = c.bucketMac uuid := by
  by_cases htouched : uuid ∈ c.touched d
  · have hwrite := mem_bucketWrites ((c.effective_sublist d).mem (apply_of_mem htouched s.buckets))
    rw [show Writes.apply (c.effective d) s.buckets uuid = _ from h] at hwrite
    simpa using hwrite
  · rw [show (dirnodeStoreCut c d s).buckets uuid = s.buckets uuid from
      apply_of_notMem htouched s.buckets, hnone] at h
    contradiction

theorem cutAfter_freshMacs (n : Nat) : (cutAfter n 6).FreshMacs savedObjects := by
  intro uuid content mac hstored
  rw [savedObjects] at hstored
  rw [bucketMac_of_first (fun _ => rfl) hstored]
  show (6 : Mac) ≠ 5
  decide

/-- The removal of the last file, stored whole. -/
theorem remove_failureAtomic :
    FailureAtomic savedMemory.reloaded lastRemoved
      (dirnodeStoreCut (cutAfter 2 6) lastRemoved savedObjects) := by
  have hreplaces : (cutAfter 2 6).Replaces lastRemoved := ⟨twoBuckets_evaluated.2.2.2.1, rfl⟩
  refine (Session.store_failureAtomic_iff lastRemoved_session load_savedObjects (cutAfter 2 6)
    (cutAfter_freshMacs 2)).mpr ?_
  rw [StoreCut.Harmless, if_pos hreplaces]
  exact cutAfter_putsWritten 2 6 _

/-- The same removal, when the store ends after it deleted the second bucket:
the directory no longer loads. -/
theorem remove_not_failureAtomic :
    Session (fun d op => op.Fits d) lastRemoved savedObjects ∧
      dirnodeLoad savedObjects = some savedMemory.reloaded ∧
      (cutAfter 1 6).FreshMacs savedObjects ∧
      ¬ FailureAtomic savedMemory.reloaded lastRemoved
        (dirnodeStoreCut (cutAfter 1 6) lastRemoved savedObjects) := by
  refine ⟨lastRemoved_session, load_savedObjects, cutAfter_freshMacs 1, ?_⟩
  obtain ⟨-, -, -, -, hreach, htouched⟩ := twoBuckets_evaluated
  rw [lastRemoved_session.inv.failureAtomic_iff load_savedObjects (cutAfter_freshMacs 1),
    StoreCut.Harmless, if_neg fun hreplaces => hreach hreplaces.1]
  intro hharmless
  obtain ⟨b, hb, hmem⟩ := List.any_eq_true.mp htouched
  have huntouched := (forall_uuid_reloaded savedMemory
    (· ∉ (cutAfter 1 6).touched lastRemoved)).mp hharmless
  exact huntouched b hb (of_decide_eq_true hmem)

end Nexus
