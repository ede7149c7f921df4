import Nexus.Fs.Run

/-!
# Durability

After a successful call the datastore holds what the enclave shows of the
directories that the call changed, except when a hardlink is made from one
directory into another: that call stores the directory of the target, not the
one with the new link.
-/

namespace Nexus

namespace Call

/-- The directories that lose or get an entry. -/
def changed : Call → List Uuid
  | create dir _ _ => [dir]
  | remove dir _ => [dir]
  | symlink dir _ _ => [dir]
  | hardlink linkDir _ _ _ => [linkDir]
  | rename fromDir _ toDir _ => [fromDir, toDir]
  | truncate _ _ => []
  | encryptStart _ _ => []

/-- If the call succeeds, what it changed reads the same from the datastore. -/
def Durable (o : Outcome) (s : Fs) (c : Call) : Prop :=
  (c.run o s).2.isOk = true → ∀ dir ∈ c.changed, ∃ contents,
    (c.run o s).1.dirView dir = some contents ∧ (c.run o s).1.dirStored dir = some contents

/-- A hardlink stays in the directory of its target. -/
def LinksWithin : Call → Prop
  | hardlink linkDir _ targetDir _ => linkDir = targetDir
  | _ => True

end Call

namespace Fs

variable {s : Fs} {o : Outcome} {dir : Uuid}

theorem Written.reads {d : Dirnode} {c : Contents} (h : s.Written dir d c) :
    ∃ contents, s.dirView dir = some contents ∧ s.dirBuffered dir = some contents :=
  ⟨c, h.view, h.stored⟩

theorem isOk_stored {α : Type} {r : Fs × Bool} {value : α} (h : (stored r value).2.isOk = true) :
    r.2 = true := by
  obtain ⟨s, _ | _⟩ := r
  · contradiction
  · rfl

theorem isOk_report {α : Type} {r : Fs × Result α} (h : (Call.report r).2.isOk = true) :
    r.2.isOk = true := by
  obtain ⟨s, _ | _ | _⟩ := r <;> exact h

theorem not_isOk_of_error {α : Type} {r : Fs × Result α} (herror : r.2 = .error)
    (hok : r.2.isOk = true) : False := by
  rw [herror] at hok
  contradiction

theorem AddEnds.written {type : DirentType} {add : Dirnode → Dirnode × Bool}
    {r : Fs × Result Uuid} (hr : AddEnds o s dir type add r) (hfresh : o.Fresh s)
    (hadd : ∀ n, s.dirNode o.bucket0 dir = some n →
      (add n.object).1.Tracks (s.storedDirnode dir)) (hok : r.2.isOk = true) :
    ∃ n c, s.dirNode o.bucket0 dir = some n ∧ (add n.object).2 = true ∧
      r = stored (((s.withCopy dir n).withObject o.entryUuid type).save o dir (add n.object).1)
        o.entryUuid ∧
      r.1.Written dir (add n.object).1 c := by
  rcases hr with ⟨herror, -⟩ | ⟨n, hnode, ⟨-, rfl⟩ | ⟨htrue, heq⟩⟩
  · exact (not_isOk_of_error herror hok).elim
  · contradiction
  rw [heq] at hok
  have hcopy : ((s.withCopy dir n).withObject o.entryUuid type).dirnodes dir = some n :=
    withCopy_self
  have htracks := tracks_withObject (hadd n hnode) hfresh n type
  obtain ⟨c, hc⟩ := save_written hcopy (dirNode_valid hnode) htracks (isOk_stored hok)
  refine ⟨n, c, hnode, htrue, heq, ?_⟩
  rw [heq]
  exact hc

theorem save_has_copy {d : Dirnode} (hok : (s.save o dir d).2 = true) :
    ∃ n, s.dirnodes dir = some n := by
  cases hn : s.dirnodes dir with
  | some n => exact ⟨n, rfl⟩
  | none =>
    have hmod : (s.modifyDirnode dir d).dirnodes dir = none := by simp [modifyDirnode, hn]
    simp [save, storeDirnode, hmod] at hok

theorem ecallFsRemove_written (h : s.Sane) {name : Name}
    (hok : (s.ecallFsRemove o dir name).2.isOk = true) :
    ∃ n e c, s.dirNode o.bucket0 dir = some n ∧ (findByName n.object name).2 = some e ∧
      let d := (findByName n.object name).1
      let removed := removeObject o (s.withCopy dir { n with object := d }) e
      removed.2.1 = true ∧
      (s.ecallFsRemove o dir name).1 = (removed.1.save o dir (dirnodeDelDirentry d e)).1 ∧
      (s.ecallFsRemove o dir name).1.Written dir (dirnodeDelDirentry d e) c := by
  rcases ecallFsRemove_ends o s dir name with
    ⟨herror, -⟩ | ⟨n, e, hnode, hfound, ⟨-, heq⟩ | ⟨htrue, heq⟩⟩
  · exact (not_isOk_of_error herror hok).elim
  · rw [heq] at hok
    contradiction
  have hsaved := isOk_stored (heq ▸ hok)
  obtain ⟨m, hm⟩ := save_has_copy hsaved
  obtain ⟨hcopy, hobject⟩ := removeObject_copy hm
  have htracks := ((h.dirNode hnode).findByName name).delDirentry
    (mem_of_findByName (h.dirNode hnode).storable.wf hfound)
  rw [← storedDirnode_congr hobject] at htracks
  have hvalid : m.isInvalid = false := by
    rw [hcopy]
    exact dirNode_valid hnode (n := n)
  obtain ⟨c, hc⟩ := save_written hm hvalid htracks hsaved
  refine ⟨n, e, c, hnode, hfound, htrue, congrArg Prod.fst heq, ?_⟩
  rw [heq]
  exact hc

theorem ecallFsHardlink_written (h : s.Sane) (hfresh : o.Fresh s) (hroom : s.HasRoom o dir)
    {linkName targetName : Name}
    (hok : (s.ecallFsHardlink o dir linkName dir targetName).2.isOk = true) :
    ∃ n e c, s.dirNode o.bucket0 dir = some n ∧ (findByName n.object targetName).2 = some e ∧
      e.type = .reg ∧
      let d := (findByName n.object targetName).1
      let counted := countLink o (s.withCopy dir { n with object := d }) e.linkUuid
      let add := dirnodeAdd d linkName .reg e.linkUuid o.bucketUuid
      counted.2 = true ∧ add.2 = true ∧
      (s.ecallFsHardlink o dir linkName dir targetName).1 = (counted.1.save o dir add.1).1 ∧
      (s.ecallFsHardlink o dir linkName dir targetName).1.Written dir add.1 c := by
  rcases ecallFsHardlink_ends_within o s dir linkName targetName with
    ⟨herror, -⟩ | ⟨n, e, hnode, hfound, htype, ⟨-, heq⟩ | ⟨hcounted, ⟨-, heq⟩ | ⟨hadd, heq⟩⟩⟩
  · exact (not_isOk_of_error herror hok).elim
  · rw [heq] at hok
    contradiction
  · rw [heq] at hok
    contradiction
  have hsaved := isOk_stored (heq ▸ hok)
  obtain ⟨hdirnodes, hobjects, -⟩ := countLink_dirnodes o
    (s.withCopy dir { n with object := (findByName n.object targetName).1 }) e.linkUuid
  have hroom' : (findByName n.object targetName).1.bucketCount < 65535 := by
    rw [findByName_bucketCount]
    exact hroom n hnode
  have hfresh' : o.bucketUuid ∉ (findByName n.object targetName).1.bucketList.map Bucket.uuid := by
    obtain ⟨last, hframe⟩ := findByName_frame n.object targetName
    rw [hframe]
    exact hfresh.bucketUuid dir n hnode
  have htracks := ((h.dirNode hnode).findByName targetName).add hroom' linkName .reg e.linkUuid
    hfresh'
  rw [show s.storedDirnode dir = _ from (storedDirnode_congr (congrFun hobjects dir)).symm]
    at htracks
  have hcopy := congrFun hdirnodes dir
  rw [withCopy_self] at hcopy
  have hvalid : n.isInvalid = false := dirNode_valid hnode
  obtain ⟨c, hc⟩ := save_written hcopy hvalid htracks hsaved
  refine ⟨n, e, c, hnode, hfound, htype, hcounted, hadd, congrArg Prod.fst heq, ?_⟩
  rw [heq]
  exact hc

theorem renameWithin_written (h : s.Sane) (hfresh : o.Fresh s) (hroom : s.HasRoom o dir)
    {oldname newname : Name} (hok : (renameWithin o s dir oldname newname).2.isOk = true) :
    ∃ n d moved overwritten c, s.dirNode o.bucket0 dir = some n ∧
      dirnodeRenameWithin n.object oldname newname o.bucketUuid
        = (d, .renamed moved overwritten) ∧
      (renameWithin o s dir oldname newname).1 = ((s.withCopy dir n).save o dir d).1 ∧
      (renameWithin o s dir oldname newname).1.Written dir d c := by
  rcases renameWithin_ends o s dir oldname newname with ⟨-, herror, -⟩ | ⟨n, -, hnode, hend⟩
  · exact (not_isOk_of_error herror hok).elim
  have htracks := (h.dirNode hnode).renameWithin (hroom n hnode) oldname newname
    (hfresh.bucketUuid dir n hnode)
  cases hrenamed : dirnodeRenameWithin n.object oldname newname o.bucketUuid with
  | mk d result =>
    rw [hrenamed] at hend htracks
    cases result with
    | notFound | undefined =>
      rw [hend] at hok
      contradiction
    | renamed moved overwritten =>
      have hsaved := isOk_stored (hend ▸ hok)
      obtain ⟨c, hc⟩ := save_written withCopy_self (dirNode_valid hnode) htracks hsaved
      refine ⟨n, d, moved, overwritten, c, hnode, hrenamed, congrArg Prod.fst hend, ?_⟩
      rw [hend]
      exact hc

theorem Written.of_frame {s' : Fs} {d : Dirnode} {c : Contents} (h : s.Written dir d c)
    (hroot : s'.rootUuid = s.rootUuid) (hobjects : s'.objects dir = s.objects dir)
    (hdirnodes : s'.dirnodes dir = s.dirnodes dir) : s'.Written dir d c where
  entries := h.entries
  links := h.links
  view := (dirView_congr hroot hobjects hdirnodes).trans h.view
  stored := (dirBuffered_congr hroot hobjects).trans h.stored

theorem renameAcross_written (h : s.Sane) (hfresh : o.Fresh s) {fromDir toDir : Uuid}
    (hne : fromDir ≠ toDir) (hroom : s.HasRoom o toDir) {oldname newname : Name}
    (hfits : ∀ src dst, s.dirNode o.bucket0 fromDir = some src →
      s.dirNode o.bucket0 toDir = some dst → RenameFits src.object dst.object oldname)
    (hok : (renameAcross o s fromDir oldname toDir newname).2.isOk = true) :
    ∃ n m src dst moved overwritten c c', s.dirNode o.bucket0 fromDir = some n ∧
      s.dirNode o.bucket0 toDir = some m ∧
      dirnodeRenameAcross n.object m.object oldname newname o.bucketUuid
        = (src, dst, .renamed moved overwritten) ∧
      (renameAcross o s fromDir oldname toDir newname).1 =
        ((((s.withCopy fromDir n).withCopy toDir { m with object := dst, isDirty := true }).save o
          fromDir src).1.storeDirnode o toDir).1 ∧
      (renameAcross o s fromDir oldname toDir newname).1.Written fromDir src c ∧
      (renameAcross o s fromDir oldname toDir newname).1.Written toDir dst c' := by
  rcases renameAcross_ends o s hne oldname newname with
    ⟨-, herror, -⟩ | ⟨n, m, -, hnode, hnode', hend⟩
  · exact (not_isOk_of_error herror hok).elim
  have htracks := (h.dirNode hnode).renameAcross (h.dirNode hnode') (hroom m hnode') newname
    (hfresh.bucketUuid toDir m hnode') (hfits n m hnode hnode')
  rcases hrenamed : dirnodeRenameAcross n.object m.object oldname newname o.bucketUuid with
    ⟨src, dst, _ | _ | ⟨moved, overwritten⟩⟩
  · rw [hrenamed] at hend
    rw [hend] at hok
    contradiction
  · rw [hrenamed] at hend
    rw [hend] at hok
    contradiction
  rw [hrenamed] at hend htracks
  dsimp only at hend
  set s₁ := (s.withCopy fromDir n).withCopy toDir { m with object := dst, isDirty := true }
  rcases hend with ⟨-, heq⟩ | ⟨hsaved, heq⟩
  · rw [heq] at hok
    contradiction
  have hstored := isOk_stored (heq ▸ hok)
  have hfrom : s₁.dirnodes fromDir = some n := by
    rw [withCopy_of_ne hne, withCopy_self]
  obtain ⟨c, hc⟩ := save_written hfrom (dirNode_valid hnode) htracks.1 hsaved
  obtain ⟨hobjects, hdirnodes⟩ := save_frame s₁ o src hne.symm
  have hto : (s₁.save o fromDir src).1.dirnodes toDir
      = some { m with object := dst, isDirty := true } := by
    rw [hdirnodes, withCopy_self]
  have htracks' : dst.Tracks ((s₁.save o fromDir src).1.storedDirnode toDir) := by
    rw [storedDirnode_congr hobjects]
    exact htracks.2
  have hvalid' : m.isInvalid = false := dirNode_valid hnode'
  obtain ⟨c', hc'⟩ := storeDirnode_written hto hvalid' rfl htracks' hstored
  obtain ⟨hobjects', hdirnodes'⟩ := storeDirnode_frame (s₁.save o fromDir src).1 o hne
  refine ⟨n, m, src, dst, moved, overwritten, c, c', hnode, hnode', hrenamed,
    congrArg Prod.fst heq, ?_, ?_⟩
  · rw [heq]
    exact hc.of_frame (storeDirnode_rootUuid ..) hobjects' hdirnodes'
  · rw [heq]
    exact hc'

end Fs

/-- In every run whose calls fit and find nothing locked, a successful call is
durable unless it makes a hardlink in another directory. -/
theorem Call.reachable_durable {s : Fs} {o : Outcome} {c : Call}
    (h : Fs.Reachable (fun o s c => c.Ready o s) s) (hfresh : o.Fresh s) (hready : c.Ready o s)
    (hwithin : c.LinksWithin) : c.Durable o s := by
  have hsane := h.sane fun _ _ _ hok => hok.1
  have hsynced := h.synced fun _ _ _ hok _ => hok.2
  obtain ⟨hfits, hunlocked⟩ := hready
  intro hok dir hdir
  rw [(c.run_settled ⟨hsynced, hunlocked⟩ o).1.dirStored]
  have heq := run_of_isOk hok
  rw [heq] at hok ⊢
  cases c with
  | create dir' name type =>
    obtain rfl : dir = dir' := by simpa [changed] using hdir
    obtain ⟨n, c, -, -, -, hc⟩ := (Fs.ecallFsCreate_ends o s dir name type).written hfresh
      (fun n hnode => (hsane.dirNode hnode).add (hfits n hnode) name type o.entryUuid
        (hfresh.bucketUuid dir n hnode)) (Fs.isOk_report hok)
    exact hc.reads
  | symlink dir' name target =>
    obtain rfl : dir = dir' := by simpa [changed] using hdir
    obtain ⟨n, c, -, -, -, hc⟩ := (Fs.ecallFsSymlink_ends o s dir name target).written hfresh
      (fun n hnode => (hsane.dirNode hnode).addLink (hfits.1 n hnode) name o.entryUuid
        (hfresh.bucketUuid dir n hnode) (hfits.2 n hnode)) (Fs.isOk_report hok)
    exact hc.reads
  | remove dir' name =>
    obtain rfl : dir = dir' := by simpa [changed] using hdir
    obtain ⟨n, e, c, -, -, -, -, hc⟩ := Fs.ecallFsRemove_written hsane (Fs.isOk_report hok)
    exact hc.reads
  | hardlink linkDir linkName targetDir targetName =>
    obtain rfl : dir = linkDir := by simpa [changed] using hdir
    obtain rfl : dir = targetDir := hwithin
    obtain ⟨n, e, c, -, -, -, -, -, -, hc⟩ := Fs.ecallFsHardlink_written hsane hfresh hfits
      (Fs.isOk_report hok)
    exact hc.reads
  | rename fromDir oldname toDir newname =>
    unfold perform Fs.ecallFsRename at hok ⊢
    dsimp only at hok ⊢
    by_cases hdirs : fromDir = toDir
    · subst hdirs
      simp only [if_true] at hok ⊢
      obtain rfl : dir = fromDir := by simpa [changed] using hdir
      obtain ⟨n, d, moved, overwritten, c, -, -, -, hc⟩ :=
        Fs.renameWithin_written hsane hfresh hfits.1 (Fs.isOk_report hok)
      exact hc.reads
    · simp only [if_neg hdirs] at hok ⊢
      obtain ⟨n, m, src, dst, moved, overwritten, c, c', -, -, -, -, hc, hc'⟩ :=
        Fs.renameAcross_written hsane hfresh hdirs hfits.1 hfits.2 (Fs.isOk_report hok)
      rcases (by simpa [changed] using hdir : dir = fromDir ∨ dir = toDir) with rfl | rfl
      · exact hc.reads
      · exact hc'.reads
  | truncate file size | encryptStart file size => simp [changed] at hdir

/-! ### Two runs -/

theorem create_file_durable : (Call.create 1 nameA .reg).Durable (.smooth 10 20) newVolume :=
  Call.reachable_durable (.create nxCreateVolume_newVolume) newVolume_ready.1
    ⟨newVolume_ready.2, (Fs.nxCreateVolume_tidy nxCreateVolume_newVolume).unlocked⟩ trivial

/-- The file `a` of the root directory is linked into `d`.  The call succeeds,
but `d` as stored has no entry `a`. -/
theorem hardlink_across_not_durable :
    Fs.Reachable (fun o s c => c.Ready o s) volumeWithBoth ∧
      (Outcome.smooth 12 22).Fresh volumeWithBoth ∧
      (Call.hardlink 11 nameA 1 nameA).Ready (.smooth 12 22) volumeWithBoth ∧
      ¬ (Call.hardlink 11 nameA 1 nameA).Durable (.smooth 12 22) volumeWithBoth := by
  refine ⟨volumeWithBoth_reachable, volumeWithBoth_ready.1,
    ⟨volumeWithBoth_ready.2.2, volumeWithBoth_tidy.unlocked⟩, ?_⟩
  intro hdurable
  have hok : ((Call.hardlink 11 nameA 1 nameA).run (.smooth 12 22) volumeWithBoth).2.isOk = true := by
    decide +kernel
  obtain ⟨contents, hview, hstored⟩ := hdurable hok 11 (by simp [Call.changed])
  have hdiffer : ((((Call.hardlink 11 nameA 1 nameA).run (.smooth 12 22) volumeWithBoth).1.dirView
        11).bind fun c => c.entries nameA) ≠
      ((((Call.hardlink 11 nameA 1 nameA).run (.smooth 12 22) volumeWithBoth).1.dirStored
        11).bind fun c => c.entries nameA) := by
    decide +kernel
  rw [hview, hstored] at hdiffer
  exact hdiffer rfl

end Nexus
