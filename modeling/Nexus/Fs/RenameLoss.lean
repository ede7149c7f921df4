import Nexus.Fs.Durable

/-!
# What a rename can lose

A rename between directories stores the source without the entry before it
stores the target with it.  If the second store fails, the entry is in neither.
-/

namespace Nexus

namespace Fs

variable {s s' : Fs} {o : Outcome} {dir fromDir toDir uuid : Uuid} {name oldname newname : Name}

/-- The directory in the datastore has the name for the object. -/
def StoredAs (s : Fs) (dir : Uuid) (name : Name) (uuid : Uuid) : Prop :=
  ∃ c type, s.dirStored dir = some c ∧ c.entries name = some (type, uuid)

/-- The directory in the buffer layer has the name for the object. -/
def ShownAs (s : Fs) (dir : Uuid) (name : Name) (uuid : Uuid) : Prop :=
  ∃ c type, s.dirBuffered dir = some c ∧ c.entries name = some (type, uuid)

theorem Synced.storedAs (h : s.Synced) : s.StoredAs = s.ShownAs := by
  unfold StoredAs ShownAs
  rw [h.dirStored]

/-- The enclave sees the name for the object. -/
def SeenAs (s : Fs) (dir : Uuid) (name : Name) (uuid : Uuid) : Prop :=
  ∃ c type, s.dirView dir = some c ∧ c.entries name = some (type, uuid)

/-- When a rename of `uuid` keeps it under the old or the new name. -/
def RenameKeeps (o : Outcome) (s : Fs) (fromDir : Uuid) (oldname : Name) (toDir : Uuid)
    (newname : Name) (uuid : Uuid) : Prop :=
  match s.available o o.getFirst fromDir, s.available o o.getSecond toDir with
  | some src, some dst =>
    let (src', dst', _) := dirnodeRenameAcross src dst oldname newname o.bucketUuid
    if (s.storeResult o fromDir src').2.2 then
      -- the source is stored without the entry
      (s.storeResult o toDir dst').2.2 = true ∨
        s.StoredAs toDir newname uuid ∧ s.Untouched o toDir dst'
    else
      s.StoredAs fromDir oldname uuid ∧ s.Untouched o fromDir src' ∨ s.StoredAs toDir newname uuid
  | _, _ => s.StoredAs fromDir oldname uuid ∨ s.StoredAs toDir newname uuid

theorem ShownAs.congr (hroot : s'.rootUuid = s.rootUuid)
    (hobjects : s'.objects dir = s.objects dir) :
    s'.ShownAs dir name uuid ↔ s.ShownAs dir name uuid := by
  unfold ShownAs
  rw [dirBuffered_congr hroot hobjects]

theorem Idle.shownAs_iff (h : s.Idle s') : s'.ShownAs dir name uuid ↔ s.ShownAs dir name uuid :=
  ShownAs.congr h.rootUuid (congrFun h.unaffected.objects dir)

theorem shownAs_of_failed {d : Dirnode} (h : s.Sane) (hmacs : s.FreshMacs o dir) {n : Node Dirnode}
    (hn : s.dirnodes dir = some n) (hdirty : n.isDirty = true) (hd : n.object = d)
    (hbuckets : d.bucketList ≠ []) (hfail : (s.storeResult o dir d).2.2 = false) :
    (s.storeDirnode o dir).1.ShownAs dir name uuid ↔
      s.ShownAs dir name uuid ∧ s.Untouched o dir d := by
  subst hd
  unfold ShownAs
  simp only [storeDirnode_failed_stored h hmacs hn hdirty hbuckets hfail]
  constructor
  · rintro ⟨c, type, ⟨hc, huntouched⟩, hentry⟩
    exact ⟨⟨c, type, hc, hentry⟩, huntouched⟩
  · rintro ⟨⟨c, type, hc, hentry⟩, huntouched⟩
    exact ⟨c, type, ⟨hc, huntouched⟩, hentry⟩

theorem Written.shownAs_iff {d : Dirnode} {c : Contents} (h : s.Written dir d c) :
    s.ShownAs dir name uuid ↔ ∃ type, d.contents.entries name = some (type, uuid) := by
  unfold ShownAs
  rw [h.stored, ← h.entries]
  constructor
  · rintro ⟨c', type, hc', hentry⟩
    cases hc'
    exact ⟨type, hentry⟩
  · rintro ⟨type, hentry⟩
    exact ⟨c, type, rfl, hentry⟩

theorem storeResult_of_objects (h : s'.objects dir = s.objects dir) (d : Dirnode) :
    s'.storeResult o dir d = s.storeResult o dir d := by
  rw [storeResult, storedDirnode_congr h]
  rfl

theorem Untouched.congr (hroot : s'.rootUuid = s.rootUuid)
    (hobjects : s'.objects dir = s.objects dir) (d : Dirnode) :
    s'.Untouched o dir d ↔ s.Untouched o dir d := by
  unfold Untouched
  rw [show s'.readDirnode o.bucket0 dir = s.readDirnode o.bucket0 dir by
    simp only [readDirnode, hroot, hobjects]]

theorem dirnodeRenameAcross_of_entry {src dst : Dirnode} (hsrc : src.WF) (hdst : dst.WF)
    {type : DirentType} (hentry : src.contents.entries oldname = some (type, uuid))
    (newname : Name) (fresh : Uuid) :
    ∃ src' dst' moved overwritten, moved.linkUuid = uuid ∧
      dirnodeRenameAcross src dst oldname newname fresh
        = (src', dst', .renamed moved overwritten) := by
  obtain ⟨e, hfind, -, huuid⟩ := entries_eq_some.mp hentry
  have heq := dirnodeRenameAcross_eq hsrc.coherent hdst.coherent oldname newname fresh
  rw [hfind] at heq
  exact ⟨_, _, renameDirEntry e newname, _, huuid, heq⟩

/-- If the first store fails, the source is left as far as its buckets are, and
the target is not stored at all. -/
theorem shownAs_of_first_failed (hs : s.Sane) (hmacs : s.FreshMacs o fromDir)
    (hne : fromDir ≠ toDir) {n : Node Dirnode} (hn : s.dirnodes fromDir = some n) {src : Dirnode}
    (hsrc : src.Tracks (s.storedDirnode fromDir))
    (hfail : (s.storeResult o fromDir src).2.2 = false) :
    ((s.save o fromDir src).1.ShownAs fromDir oldname uuid ∨
        (s.save o fromDir src).1.ShownAs toDir newname uuid) ↔
      (s.ShownAs fromDir oldname uuid ∧ s.Untouched o fromDir src ∨
        s.ShownAs toDir newname uuid) := by
  have hmod := modifyDirnode_self hn src
  have hfailed : (s.save o fromDir src).1.ShownAs fromDir oldname uuid ↔
      s.ShownAs fromDir oldname uuid ∧ s.Untouched o fromDir src :=
    shownAs_of_failed (n := { n with object := src, isDirty := true })
      (hs.modifyDirnode fun _ _ => hsrc) hmacs hmod rfl rfl hsrc.storable.wf.hasBucket hfail
  rw [hfailed, ShownAs.congr (save_rootUuid ..) (save_frame s o src hne.symm).1]

theorem shownAs_of_first_stored (hs : s.Sane) (hmacs : ∀ dir, s.FreshMacs o dir)
    (hne : fromDir ≠ toDir) {n m : Node Dirnode} (hn : s.dirnodes fromDir = some n)
    (hvalid : n.isInvalid = false) {src : Dirnode} (hsrc : src.Tracks (s.storedDirnode fromDir))
    (hm : s.dirnodes toDir = some m) (hvalid' : m.isInvalid = false) (hdirty : m.isDirty = true)
    (hdst : m.object.Tracks (s.storedDirnode toDir))
    (hok : (s.storeResult o fromDir src).2.2 = true)
    (hgone : src.contents.entries oldname = none) {type : DirentType}
    (hnew : m.object.contents.entries newname = some (type, uuid)) :
    (((s.save o fromDir src).1.storeDirnode o toDir).1.ShownAs fromDir oldname uuid ∨
        ((s.save o fromDir src).1.storeDirnode o toDir).1.ShownAs toDir newname uuid) ↔
      ((s.storeResult o toDir m.object).2.2 = true ∨
        s.ShownAs toDir newname uuid ∧ s.Untouched o toDir m.object) := by
  have hsaved : (s.save o fromDir src).2 = true := (save_snd hn o src).trans hok
  obtain ⟨c, hc⟩ := save_written hn hvalid hsrc hsaved
  have hs' : (s.save o fromDir src).1.Sane := by
    refine hs.save (fun _ _ => hsrc) ?_ (hmacs fromDir)
    intro k hk
    rw [hn, Option.some.injEq] at hk
    rw [← hk]
    exact hvalid
  obtain ⟨hobjects, hdirnodes⟩ := save_frame s o src hne.symm
  have hroot : (s.save o fromDir src).1.rootUuid = s.rootUuid := save_rootUuid ..
  rw [← hdirnodes] at hm
  rw [← storedDirnode_congr hobjects] at hdst
  rw [← storeResult_of_objects hobjects, ← ShownAs.congr hroot hobjects,
    ← Untouched.congr hroot hobjects]
  have hmacs' : (s.save o fromDir src).1.FreshMacs o toDir := by
    refine (hmacs toDir).mono ?_
    intro stored hstored
    rwa [hobjects] at hstored
  generalize (s.save o fromDir src).1 = s₂ at *
  obtain ⟨hobjects', hdirnodes'⟩ := storeDirnode_frame s₂ o hne
  have hlost : ¬ (s₂.storeDirnode o toDir).1.ShownAs fromDir oldname uuid := by
    rw [(hc.of_frame (storeDirnode_rootUuid ..) hobjects' hdirnodes').shownAs_iff, hgone]
    simp
  cases hok' : (s₂.storeResult o toDir m.object).2.2 with
  | true =>
    have hstored : (s₂.storeDirnode o toDir).2 = true := by
      rw [storeDirnode_of_ok hm hdirty hok']
    obtain ⟨c', hc'⟩ := storeDirnode_written hm hvalid' hdirty hdst hstored
    refine iff_of_true (.inr ?_) (.inl rfl)
    rw [hc'.shownAs_iff]
    exact ⟨type, hnew⟩
  | false =>
    rw [shownAs_of_failed hs' hmacs' hm hdirty rfl hdst.storable.wf.hasBucket hok']
    simp only [hlost, false_or, Bool.false_eq_true]

end Fs

/-- The file `a` moves from the root directory into `d`; storing `d` fails. -/
def secondStoreFails : Outcome :=
  { Outcome.smooth 12 22 with
    store := fun uuid => if uuid = 11 then { StoreOutcome.smooth with put := false } else .smooth }

theorem Fs.seenAs_of_check {s : Fs} {dir uuid : Uuid} {name : Name} (type : DirentType)
    (h : ((s.dirView dir).bind fun c => c.entries name) = some (type, uuid)) :
    s.SeenAs dir name uuid := by
  obtain ⟨c, hc, hentry⟩ := Option.bind_eq_some_iff.mp h
  exact ⟨c, type, hc, hentry⟩

theorem renameFits_of_check {s : Fs} {bucket0 : Uuid → Uuid} {dir : Uuid} {src : Node Dirnode}
    (h : ((s.dirNode bucket0 dir).all fun n => n.object.symlinkList.isEmpty) = true)
    (hsrc : s.dirNode bucket0 dir = some src) (dst : Dirnode) (oldname : Name) :
    RenameFits src.object dst oldname := by
  intro e _ l hl
  rw [hsrc, Option.all_some, List.isEmpty_iff] at h
  simp [findSymlink, h] at hl

theorem rename_across_ready : secondStoreFails.Fresh volumeWithBoth ∧
    (Call.rename 1 nameA 11 nameA).Fits secondStoreFails volumeWithBoth ∧
      volumeWithBoth.SeenAs 1 nameA 10 :=
  ⟨volumeWithBoth_within.fresh (by decide) (by decide +kernel), ⟨volumeWithBoth_ready.2.2,
    fun _ _ hsrc _ => renameFits_of_check (by decide +kernel) hsrc _ _⟩,
    Fs.seenAs_of_check .reg (by decide +kernel)⟩

theorem rename_across_dirs :
    volumeWithBoth.isFile 1 = false ∧ volumeWithBoth.isFile 11 = false := by
  decide +kernel

/-- The volume after the rename. -/
def afterFailedRename : Fs :=
  ((Call.rename 1 nameA 11 nameA).run secondStoreFails volumeWithBoth).1

end Nexus
