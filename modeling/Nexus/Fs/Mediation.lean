import Nexus.Fs.Effect

/-!
# Calls whose access is denied

When `bouncer_access_check` denies everything, a call should fail and leave
nothing changed.  Creating, removing and starting to encrypt do.  The other
calls do not ask, or do not act on the answer, so for them it takes a failure
further on.
-/

open Function Option

namespace Nexus

namespace Fs

/-- The call has failed, and nothing is changed: neither the datastore nor the buffer
layer nor any copy in the enclave, not even one that the call has made invalid. -/
structure Refused {α : Type} (s : Fs) (r : Fs × Result α) : Prop where
  error : r.2 = .error
  unaffected : s.Unaffected r.1
  copies : r.1.CopiesShown

end Fs

namespace Call

def Mediated (o : Outcome) (s : Fs) (c : Call) : Prop := s.Refused (c.run o s)

/-- When a call that is denied everything is mediated.  Creating, removing and
starting to encrypt always are.  The others need something else to go wrong
before they have an effect. -/
def DeniedIsIdle (o : Outcome) (s : Fs) : Call → Prop
  | create .. => True
  | remove .. => True
  | encryptStart .. => True
  | symlink dir _ _ => s.available o o.getFirst dir = none ∨ o.bufferNew = false
  | hardlink linkDir _ targetDir targetName =>
    (linkDir ≠ targetDir ∧ s.available o o.getSecond linkDir = none) ∨
      (∀ d ∈ s.available o o.getFirst targetDir, ∀ e ∈ (findByName d targetName).2,
        e.type ≠ .reg) ∨
      o.tableAcquire = false
  | rename fromDir oldname toDir _ =>
    (fromDir ≠ toDir ∧ s.available o o.getSecond toDir = none) ∨
      ∀ d ∈ s.available o o.getFirst fromDir, (findByName d oldname).2 = none
  | truncate file size =>
    o.getFirst = true → ∀ n ∈ readNode (s.readFilenode file) (s.filenodes file),
      -- nobody else has the file locked, or nothing is freed by a put that fails
      ((s.fileBuffers file).writers = 0 ∧ o.fileUnlock = true ∨
        o.filePut = false ∧
          (s.fileBuffers file).pending.map (fun _ => none) = (s.fileBuffers file).pending) ∧
      n.object.setFilesize size o.chunk = n.object ∧ s.readFilenode file = some n.object

end Call

namespace Fs

variable {s s' : Fs} {o : Outcome} {dir : Uuid} {n : Node Dirnode} {α : Type}

theorem refused_report {r : Fs × Result α} : s.Refused (Call.report r) ↔ s.Refused r := by
  have hresult : (Call.report r).2 = .error ↔ r.2 = .error := by
    obtain ⟨s', _ | _ | _⟩ := r <;> simp [Call.report]
  exact ⟨fun h => ⟨hresult.mp h.error, h.unaffected, h.copies⟩,
    fun h => ⟨hresult.mpr h.error, h.unaffected, h.copies⟩⟩

theorem Idle.refused (h : s.Idle s') (hcopies : s.CopiesShown) :
    s.Refused (s', (.error : Result α)) :=
  ⟨rfl, h.unaffected, h.copies hcopies⟩

section

variable (hcopies : s.CopiesShown)
include hcopies

/-! ## Calls that act on the answer -/

theorem ecallFsCreate_refused (hdenied : o.granted = false) (dir : Uuid) (name : Name)
    (type : DirentType) : s.Refused (s.ecallFsCreate o dir name type) := by
  unfold ecallFsCreate
  rcases lockDirnode_ends s o o.getFirst dir with ⟨-, heq⟩ | ⟨n, -, hnode, heq⟩ <;> rw [heq]
  · exact (mayLeave_idle ..).refused hcopies
  · simp only [hdenied, Bool.not_false, if_true]
    exact (withCopy_idle hnode).refused hcopies

theorem ecallFsRemove_refused (hdenied : o.granted = false) (dir : Uuid) (name : Name) :
    s.Refused (s.ecallFsRemove o dir name) := by
  unfold ecallFsRemove
  rcases lockDirnode_ends s o o.getFirst dir with ⟨-, heq⟩ | ⟨n, -, hnode, heq⟩ <;> rw [heq]
  · exact (mayLeave_idle ..).refused hcopies
  · simp only [hdenied, Bool.not_false, if_true]
    exact (withCopy_idle hnode).refused hcopies

theorem CopiesShown.getFilenode (o : Outcome) (file : Uuid) :
    (s.getFilenode o file).1.CopiesShown := by
  have hfiles := (getFilenode_unaffected s o file).files
  rcases getFilenode_cases s o file with ⟨⟨b, -, heq⟩, -⟩ | ⟨m, -, hnode, heq⟩ <;>
    rw [heq] at hfiles ⊢ <;>
    refine ⟨hcopies.dirs, fun v n hn => ?_, hcopies.table⟩ <;>
    rw [hfiles]
  · exact hcopies.files v n hn
  · by_cases hv : v = file
    · subst hv
      cases (update_self ..).symm.trans hn
      rw [fileView, hnode]
      rfl
    · exact hcopies.files v n ((update_of_ne hv ..).symm.trans hn)

theorem CopiesShown.putFilenode (o : Outcome) (file : Uuid) :
    (s.putFilenode o file).CopiesShown := by
  have hunaffected := putFilenode_unaffected s o file
  refine ⟨hcopies.dirs, fun v n hn => ?_, hcopies.table⟩
  rw [hunaffected.files]
  exact hcopies.files v n hn

theorem ecallFsFileEncryptStart_refused (hdenied : o.granted = false) (file : Uuid) (size : Nat) :
    s.Refused (s.ecallFsFileEncryptStart o file size) := by
  have hget := getFilenode_unaffected s o file
  have hshown := hcopies.getFilenode o file
  unfold ecallFsFileEncryptStart
  generalize s.getFilenode o file = r at hget hshown
  obtain ⟨s', _ | f⟩ := r
  · exact ⟨rfl, hget, hshown⟩
  · simp only [hdenied, Bool.not_false, if_true]
    exact ⟨rfl, hget.trans (putFilenode_unaffected s' o file), hshown.putFilenode o file⟩

/-! ## Symlinks -/

theorem ecallFsSymlink_refused_iff (hfresh : s.objects o.entryUuid = none) (dir : Uuid)
    (name : Name) (target : Bytes) :
    s.Refused (s.ecallFsSymlink o dir name target) ↔
      s.available o o.getFirst dir = none ∨ o.bufferNew = false := by
  unfold ecallFsSymlink
  rcases lockDirnode_ends s o o.getFirst dir with
    ⟨hnone, heq⟩ | ⟨n, havail, hnode, heq⟩ <;> rw [heq]
  · exact iff_of_true ((mayLeave_idle ..).refused hcopies) (.inl hnone)
  cases hnew : o.bufferNew with
  | false => exact iff_of_true ((withCopy_idle hnode).refused hcopies) (.inr rfl)
  | true =>
    refine iff_of_false ?_ (by simp [havail])
    -- the object of the new entry stays in the datastore whatever follows
    rintro ⟨-, haff, -⟩
    have hobj := congrFun haff.objects o.entryUuid
    rw [hfresh] at hobj
    revert hobj
    simp only [Bool.not_true, Bool.false_eq_true, if_false]
    generalize dirnodeAddLink n.object name target o.entryUuid o.bucketUuid = added
    obtain ⟨d, _ | _⟩ := added
    · simp [setDirnode, withObject]
    · have hkept := storeDirnode_object
        (((s.withCopy dir n).withObject o.entryUuid .lnk).modifyDirnode dir d) o dir o.entryUuid
      revert hkept
      dsimp only [withObject, modifyDirnode]
      generalize storeDirnode _ o dir = r
      obtain ⟨s', _ | _⟩ := r <;> rintro (h | ⟨-, _, h⟩) <;> dsimp only at h <;> simp [h]

/-! ## Hardlinks -/

omit hcopies in
theorem getEntry_incrUuid_ne (t : HardlinkTable) (uuid : Uuid) :
    (t.incrUuid uuid).getEntry ≠ t.getEntry := by
  intro h
  have hself := congrFun h uuid
  rw [HardlinkTable.getEntry_incrUuid, if_pos rfl] at hself
  cases hentry : t.getEntry uuid with
  | none =>
    simp [hentry] at hself
  | some count =>
    rw [hentry, getD_some, Option.some.injEq] at hself
    have hnat := congrArg BitVec.toNat hself
    rw [BitVec.toNat_add] at hnat
    have hlt := count.isLt
    simp at hnat
    omega

omit hcopies in
theorem countLink_table (hacquire : o.tableAcquire = true) (uuid : Uuid) :
    ∃ m, (countLink o s uuid).1.table = some m ∧ m.object.getEntry ≠ s.tableView.getEntry := by
  have hne := getEntry_incrUuid_ne s.tableView uuid
  rcases countLink_cases s o uuid with ⟨hfalse, -⟩ | ⟨-, -, heq⟩ | ⟨-, -, heq⟩
  · simp [hacquire] at hfalse
  · rw [heq]
    exact ⟨_, rfl, hne⟩
  · rw [heq]
    exact ⟨_, rfl, hne⟩

omit hcopies in
/-- `__nxs_fs_hardlink` fails without effect, or there is a table with one more link. -/
theorem nxsFsHardlink_cases {targetDir : Uuid} (hn : s.dirnodes targetDir = some n)
    (hvalid : n.isInvalid = false) (linkDir : Uuid) (linkName targetName : Name) :
    let r := nxsFsHardlink o s linkDir linkName targetDir n.object targetName
    (r.2 = none ∧ s.Idle r.1 ∧
        ((∀ e ∈ (findByName n.object targetName).2, e.type ≠ .reg) ∨ o.tableAcquire = false)) ∨
      ((∃ e ∈ (findByName n.object targetName).2, e.type = .reg) ∧ o.tableAcquire = true ∧
        ∃ m, r.1.table = some m ∧ m.object.getEntry ≠ s.tableView.getEntry) := by
  have hidle := findByName_idle hn hvalid targetName
  unfold nxsFsHardlink
  generalize findByName n.object targetName = found at hidle
  obtain ⟨target, e⟩ := found
  cases e with
  | none => exact .inl ⟨rfl, hidle, .inl (by simp)⟩
  | some e =>
    dsimp only at hidle ⊢
    by_cases htype : e.type = .reg
    · rw [if_neg (not_not_intro htype)]
      cases hacquire : o.tableAcquire with
      | false =>
        rcases countLink_cases (s.setDirnode targetDir target) o e.linkUuid with
          ⟨-, heq⟩ | ⟨htrue, -⟩ | ⟨htrue, -⟩
        · rw [heq]
          exact .inl ⟨rfl, hidle.trans (mayLeave_idle ..), .inr rfl⟩
        · simp [hacquire] at htrue
        · simp [hacquire] at htrue
      | true =>
        refine .inr ⟨⟨e, rfl, htype⟩, rfl, ?_⟩
        have hcount := countLink_table (s := s.setDirnode targetDir target) hacquire e.linkUuid
        generalize countLink o (s.setDirnode targetDir target) e.linkUuid = counted at hcount
        obtain ⟨s₁, _ | _⟩ := counted
        · exact hcount
        · dsimp only
          split
          · exact hcount
          · split <;> exact hcount
    · rw [if_pos htype]
      exact .inl ⟨rfl, hidle, .inl (by simpa using htype)⟩

/-- The end of `ecall_fs_hardlink`, from a state that differs from `s` only in
what was read. -/
theorem hardlink_tail_iff (hidle : s.Idle s') {targetDir : Uuid}
    (hn : s'.dirnodes targetDir = some n) (hvalid : n.isInvalid = false) (linkDir : Uuid)
    (linkName targetName : Name) :
    s.Refused (match nxsFsHardlink o s' linkDir linkName targetDir n.object targetName with
      | (s, none) => (s, .error)
      | (s, some uuid) =>
        match s.storeDirnode o targetDir with
        | (s, true) => (s, .ok uuid)
        | (s, false) => (s, .error)) ↔
      (∀ e ∈ (findByName n.object targetName).2, e.type ≠ .reg) ∨ o.tableAcquire = false := by
  have hcases := nxsFsHardlink_cases (o := o) hn hvalid linkDir linkName targetName
  generalize nxsFsHardlink o s' linkDir linkName targetDir n.object targetName = r at hcases
  obtain ⟨s₁, found⟩ := r
  dsimp only at hcases ⊢
  rcases hcases with ⟨rfl, hidle', hstops⟩ | ⟨⟨e, he, htype⟩, hacquire, m, hm, hne⟩
  · exact iff_of_true ((hidle.trans hidle').refused hcopies) hstops
  · refine iff_of_false ?_ (by simpa [hacquire] using ⟨e, he, htype⟩)
    -- the new table stays in the enclave whatever the store of the directory does
    rintro ⟨-, haff, hshown⟩
    apply hne
    rw [hidle.unaffected.table, ← haff.table]
    refine hshown.table m ?_
    cases found with
    | none => exact hm
    | some uuid =>
      have htable := storeDirnode_table s₁ o targetDir
      dsimp only
      generalize s₁.storeDirnode o targetDir = stored at htable
      obtain ⟨s₂, _ | _⟩ := stored <;> exact htable.1.trans hm

theorem ecallFsHardlink_refused_iff (linkDir : Uuid) (linkName : Name) (targetDir : Uuid)
    (targetName : Name) :
    s.Refused (s.ecallFsHardlink o linkDir linkName targetDir targetName) ↔
      (Call.hardlink linkDir linkName targetDir targetName).DeniedIsIdle o s := by
  simp only [Call.DeniedIsIdle, ecallFsHardlink]
  rcases lockDirnode_ends s o o.getFirst targetDir with
    ⟨hnone, heq⟩ | ⟨n, havail, hnode, heq⟩ <;> rw [heq]
  · exact iff_of_true ((mayLeave_idle ..).refused hcopies) (.inr (.inl (by simp [hnone])))
  have hidle := withCopy_idle hnode
  simp only [havail, mem_def, Option.some.injEq, forall_eq']
  by_cases hsame : linkDir = targetDir
  · simp only [hsame, if_true, ne_eq, not_true_eq_false, false_and, false_or]
    exact hardlink_tail_iff hcopies hidle withCopy_self (dirNode_valid hnode) targetDir linkName
      targetName
  simp only [hsame, if_false, ne_eq, not_false_eq_true, true_and]
  rw [← available_withCopy_of_ne (n := n) hsame]
  rcases getDirnode_ends (s.withCopy targetDir n) o o.getSecond linkDir with
    ⟨hnone, heq'⟩ | ⟨m, havail', hnode', heq'⟩
  · rw [heq']
    exact iff_of_true (hidle.refused hcopies) (.inl hnone)
  · rw [heq']
    simp only [havail', reduceCtorEq, false_or]
    refine hardlink_tail_iff hcopies (hidle.trans (withCopy_idle hnode')) ?_ (dirNode_valid hnode)
      linkDir linkName targetName
    rw [withCopy_of_ne (Ne.symm hsame), withCopy_self]

/-! ## Renames -/

omit hcopies in
theorem not_refused_of_entry {r : Fs × Result α} {c : Contents} {n' : Node Dirnode} (name : Name)
    (hview : s.dirView dir = some c) (hn' : r.1.dirnodes dir = some n')
    (hne : n'.object.contents.entries name ≠ c.entries name) : ¬ s.Refused r := by
  rintro ⟨-, haff, hshown⟩
  have hshows := hshown.dirs dir n' hn'
  rw [haff.dirs, hview, Option.some.injEq] at hshows
  rw [hshows] at hne
  exact hne rfl

omit hcopies in
/-- Whether the store succeeds or not, the copy keeps the entries that were to be
stored. -/
theorem save_copy (hn : s.dirnodes dir = some n) (o : Outcome) (d : Dirnode) :
    ∃ n', (s.save o dir d).1.dirnodes dir = some n' ∧
      n'.object.contents.entries = d.contents.entries := by
  have hentries : (s.storeResult o dir d).1.contents.entries = d.contents.entries := by
    funext name
    simp only [Dirnode.contents, storeResult, dirnodeStore_lookup]
  cases hok : (s.storeResult o dir d).2.2 with
  | true =>
    rw [save_of_ok hn hok]
    exact ⟨_, update_self .., hentries⟩
  | false =>
    rw [save_of_failed hn hok]
    exact ⟨_, update_self .., hentries⟩

/-- Every directory that can be read is well formed. -/
def DirnodesWF (s : Fs) (o : Outcome) : Prop :=
  ∀ uuid n, s.dirNode o.bucket0 uuid = some n → n.object.WF

omit hcopies in
theorem Sane.dirnodesWF (h : s.Sane) (o : Outcome) : s.DirnodesWF o :=
  fun _ _ hnode => (h.dirNode hnode).storable.wf

theorem renameWithin_refused_iff (hwf : s.DirnodesWF o) (dir : Uuid) (oldname newname : Name) :
    s.Refused (renameWithin o s dir oldname newname) ↔
      ∀ d ∈ s.available o o.getFirst dir, (findByName d oldname).2 = none := by
  rcases renameWithin_ends o s dir oldname newname with
    ⟨hnone, herror, hidle⟩ | ⟨n, havail, hnode, hend⟩
  · exact iff_of_true ⟨herror, hidle.unaffected, hidle.copies hcopies⟩ (by simp [hnone])
  simp only [havail, mem_def, Option.some.injEq, forall_eq']
  cases hfound : (findByName n.object oldname).2 with
  | none =>
    rw [dirnodeRenameWithin, findByName_of_snd hfound] at hend
    rw [hend]
    exact iff_of_true ((lookup_idle hnode oldname).refused hcopies) rfl
  | some e =>
    refine iff_of_false ?_ (by simp)
    rcases hrenamed : dirnodeRenameWithin n.object oldname newname o.bucketUuid with
      ⟨d, _ | _ | ⟨moved, overwritten⟩⟩ <;> rw [hrenamed] at hend
    · rw [dirnodeRenameWithin, findByName_of_snd hfound] at hrenamed
      dsimp only at hrenamed
      split at hrenamed <;> cases hrenamed
    · rw [hend]
      rintro ⟨herror, -, -⟩
      cases herror
    · obtain ⟨hnames, hold, hentries⟩ :=
        entries_dirnodeRenameWithin (hwf dir n hnode).coherent hrenamed
      obtain ⟨n', hn', hcopy⟩ := save_copy (s := s.withCopy dir n) withCopy_self o d
      rw [hend]
      refine not_refused_of_entry oldname (dirView_eq_of_dirNode hnode) hn' ?_
      simp [hcopy, hentries, hnames, hold]

theorem renameAcross_refused_iff (hwf : s.DirnodesWF o) {fromDir toDir : Uuid}
    (hne : fromDir ≠ toDir) (oldname newname : Name) :
    s.Refused (renameAcross o s fromDir oldname toDir newname) ↔
      s.available o o.getSecond toDir = none ∨
        ∀ d ∈ s.available o o.getFirst fromDir, (findByName d oldname).2 = none := by
  rcases renameAcross_ends o s hne oldname newname with
    ⟨hnone, herror, hidle⟩ | ⟨n, m, ⟨havail, havail'⟩, hnode, hnode', hend⟩
  · refine iff_of_true ⟨herror, hidle.unaffected, hidle.copies hcopies⟩ ?_
    rcases hnone with hnone | hnone <;> simp [hnone]
  simp only [havail, havail', mem_def, Option.some.injEq, forall_eq', reduceCtorEq, false_or]
  cases hfound : (findByName n.object oldname).2 with
  | none =>
    rw [dirnodeRenameAcross, findByName_of_snd hfound] at hend
    rw [hend]
    have hread := dirNode_withCopy_of_ne (s := s)
      (n := { n with object := (findByName n.object oldname).1 }) hne.symm o.bucket0
    have hidle := (lookup_idle hnode oldname).trans (withCopy_idle (hread.trans hnode'))
    exact iff_of_true (hidle.refused hcopies) rfl
  | some e =>
    refine iff_of_false ?_ (by simp)
    have hsrc := (hwf fromDir n hnode).coherent
    have hdst := (hwf toDir m hnode').coherent
    have hlookup := (findByName_result hsrc oldname).symm.trans hfound
    rcases hrenamed : dirnodeRenameAcross n.object m.object oldname newname o.bucketUuid with
      ⟨src, dst, _ | _ | ⟨moved, overwritten⟩⟩
    · simp [dirnodeRenameAcross_eq hsrc hdst, hlookup] at hrenamed
    · simp [dirnodeRenameAcross_eq hsrc hdst, hlookup] at hrenamed
    · rw [hrenamed] at hend
      obtain ⟨hold, hentries, -⟩ := entries_dirnodeRenameAcross hsrc hdst hrenamed
      dsimp only at hend
      set s₁ := (s.withCopy fromDir n).withCopy toDir { m with object := dst, isDirty := true }
      have hfrom : s₁.dirnodes fromDir = some n := (withCopy_of_ne hne).trans withCopy_self
      obtain ⟨n', hn', hcopy⟩ := save_copy hfrom o src
      have hlost : n'.object.contents.entries oldname ≠ n.object.contents.entries oldname := by
        simp [hcopy, hentries, hold]
      have hview := dirView_eq_of_dirNode hnode
      rcases hend with ⟨-, hr⟩ | ⟨-, hr⟩ <;> rw [hr]
      · exact not_refused_of_entry _ hview hn' hlost
      -- the second store leaves the copy of the source alone
      · exact not_refused_of_entry _ hview ((storeDirnode_frame _ o hne).2.trans hn') hlost

/-! ## Truncating -/

omit hcopies in
theorem unlock_lock (b : FileBuffer) (unlocked : Bool) :
    b.lock.unlock unlocked = { b with lockMode := b.writers != 0 || !unlocked } := by
  simp [FileBuffer.lock, FileBuffer.unlock]

theorem truncate_failed_iff {file : Uuid} {m : Node Filenode} {f : Filenode} {b : FileBuffer}
    (hnode : readNode (s.readFilenode file) (s.filenodes file) = some m) :
    s.Refused ({ s with
        filenodes := update s.filenodes file
          (some { object := f, isDirty := true, isInvalid := true })
        fileBuffers := update s.fileBuffers file b }, (.error : Result α)) ↔
      b.pending = (s.fileBuffers file).pending ∧ f = m.object ∧
        s.readFilenode file = some m.object := by
  set s' : Fs := { s with
    filenodes := update s.filenodes file
      (some { object := f, isDirty := true, isInvalid := true })
    fileBuffers := update s.fileBuffers file b }
  have hcopy : s'.filenodes file = some { object := f, isDirty := true, isInvalid := true } :=
    update_self ..
  have hbefore : s.fileView file = some m.object := by
    rw [fileView, hnode]
    rfl
  have hafter (hpending : b.pending = (s.fileBuffers file).pending) :
      s'.fileView file = s.readFilenode file := by
    have hread : s'.readFilenode file = s.readFilenode file :=
      readFilenode_congr rfl rfl (pending_update s file file hpending)
    rw [fileView, hread, hcopy]
    simp [readNode, Node.clean, comp_def]
  constructor
  · rintro ⟨-, haff, hshown⟩
    have hpending : b.pending = (s.fileBuffers file).pending := by
      rw [← haff.pending file]
      simp [s']
    have hview := (haff.files file).trans hbefore
    refine ⟨hpending, ?_, (hafter hpending).symm.trans hview⟩
    exact Option.some.inj ((hshown.files file _ hcopy).symm.trans hview)
  · rintro ⟨hpending, rfl, hread⟩
    have hpendings v := pending_update s file v hpending
    have hfiles (v : Uuid) : s'.fileView v = s.fileView v := by
      by_cases hv : v = file
      · rw [hv, hafter hpending, hread, hbefore]
      · exact fileView_congr rfl rfl (hpendings v) (by simp [s', hv])
    refine ⟨rfl, ⟨rfl, rfl, rfl, rfl, hpendings, fun _ => rfl, hfiles, rfl⟩,
      hcopies.dirs, fun v k hk => ?_, hcopies.table⟩
    rw [hfiles v]
    by_cases hv : v = file
    · subst hv
      cases hcopy.symm.trans hk
      exact hbefore
    · exact hcopies.files v k ((update_of_ne hv ..).symm.trans hk)

theorem ecallFsTruncate_refused_iff (hdenied : o.granted = false) (file : Uuid) (size : Nat) :
    s.Refused (s.ecallFsTruncate o file size) ↔
      (Call.truncate file size).DeniedIsIdle o s := by
  have hget := getFilenode_unaffected s o file
  have hshown := hcopies.getFilenode o file
  unfold ecallFsTruncate
  rcases getFilenode_cases s o file with ⟨⟨b, -, heq⟩, hnone⟩ | ⟨m, htrue, hnode, heq⟩
  · rw [heq] at hget hshown ⊢
    refine iff_of_true ⟨rfl, hget, hshown⟩ ?_
    intro htrue m hm
    simp [hnone htrue] at hm
  rw [heq]
  simp only [hdenied, Call.DeniedIsIdle, htrue, hnode, Bool.false_eq_true, if_false, mem_def,
    Option.some.injEq, forall_eq', forall_const]
  simp only [putFilenode, modifyFilenode, storeFilenode, update_self, update_idem, map_some,
    unlock_lock, Bool.not_true, Bool.false_eq_true, if_false]
  generalize m.object.setFilesize size o.chunk = f
  by_cases hstops : (s.fileBuffers file).writers = 0 ∧ o.fileUnlock = true
  · -- the lock is gone, so the store has no buffer to write to
    rw [if_pos (by simpa using hstops)]
    simp only [update_self, update_idem]
    rw [truncate_failed_iff hcopies hnode, unlock_pending]
    simp [hstops]
  rw [if_neg (by simpa using hstops)]
  simp only [hstops, false_or]
  cases hput : o.filePut with
  | false =>
    simp only [Bool.not_false, if_true, update_self, update_idem]
    rw [truncate_failed_iff hcopies hnode, unlock_pending, true_and]
  | true =>
    simp only [Bool.not_true, Bool.false_eq_true, Bool.true_eq_false, if_false, false_and, iff_false]
    intro hrefused
    by_cases hwriters : (s.fileBuffers file).writers > 1
    · rw [if_pos hwriters] at hrefused
      cases hrefused.error
    · rw [if_neg hwriters] at hrefused
      cases hrefused.error

end

end Fs

/-! ## All calls -/

theorem Call.run_eq_perform {s : Fs} {o : Outcome} {c : Call} (h : c.confuses o s = false) :
    c.run o s = c.perform o s := by
  rw [run, h]
  rfl

/-- A denied call that gets objects of the types it expects has no effect exactly if
something else stops it.  The copies in the enclave are up to date, and the uuid
that the random generator gives is not in use. -/
theorem Call.denied_mediated_iff {s : Fs} {o : Outcome} (hdenied : o.granted = false)
    (hfresh : s.objects o.entryUuid = none) (hwf : s.DirnodesWF o) (hcopies : s.CopiesShown)
    (c : Call) (htypes : c.confuses o s = false) : c.Mediated o s ↔ c.DeniedIsIdle o s := by
  unfold Mediated
  rw [run_eq_perform htypes]
  cases c <;> rw [perform, Fs.refused_report]
  case create dir name type =>
    exact iff_of_true (Fs.ecallFsCreate_refused hcopies hdenied dir name type) trivial
  case remove dir name =>
    exact iff_of_true (Fs.ecallFsRemove_refused hcopies hdenied dir name) trivial
  case encryptStart file size =>
    exact iff_of_true (Fs.ecallFsFileEncryptStart_refused hcopies hdenied file size) trivial
  case symlink dir name target => exact Fs.ecallFsSymlink_refused_iff hcopies hfresh dir name target
  case hardlink linkDir linkName targetDir targetName =>
    exact Fs.ecallFsHardlink_refused_iff hcopies linkDir linkName targetDir targetName
  case truncate file size => exact Fs.ecallFsTruncate_refused_iff hcopies hdenied file size
  case rename fromDir oldname toDir newname =>
    unfold Fs.ecallFsRename DeniedIsIdle
    by_cases hdirs : fromDir = toDir
    · simp only [hdirs, if_true, ne_eq, not_true_eq_false, false_and, false_or]
      exact Fs.renameWithin_refused_iff hcopies hwf toDir oldname newname
    · simp only [hdirs, if_false, ne_eq, not_false_eq_true, true_and]
      exact Fs.renameAcross_refused_iff hcopies hwf hdirs oldname newname

/-- A call of a user who is denied everything. -/
def deniedOutcome : Outcome := { Outcome.smooth 5 6 with granted := false }

theorem Fs.nxCreateVolume_copiesShown {s : Fs} {so : StoreOutcome} {rootUuid bucket0 : Uuid}
    (h : nxCreateVolume so rootUuid bucket0 = some s) : s.CopiesShown := by
  unfold nxCreateVolume at h
  split at h
  · contradiction
  · cases h
    exact ⟨nofun, nofun, nofun⟩

theorem denied_create_mediated :
    (Call.create 1 linkName .dir).Mediated deniedOutcome newVolume :=
  (Call.denied_mediated_iff rfl rfl (newVolume_sane.dirnodesWF deniedOutcome)
    (Fs.nxCreateVolume_copiesShown nxCreateVolume_newVolume) _ rfl).mpr trivial

/-- A symlink is made although the access is denied. -/
theorem denied_symlink_not_mediated :
    deniedOutcome.granted = false ∧ newVolume.objects deniedOutcome.entryUuid = none ∧
      (Call.symlink 1 linkName [0x61]).confuses deniedOutcome newVolume = false ∧
      ¬ (Call.symlink 1 linkName [0x61]).Mediated deniedOutcome newVolume := by
  refine ⟨rfl, rfl, by decide +kernel, ?_⟩
  rintro ⟨herror, -, -⟩
  have hok : ((Call.symlink 1 linkName [0x61]).run deniedOutcome newVolume).2.isOk = true := by
    decide +kernel
  rw [herror] at hok
  exact Bool.false_ne_true hok

end Nexus
