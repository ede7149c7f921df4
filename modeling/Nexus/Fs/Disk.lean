import Nexus.Dirnode.Authentic
import Nexus.Fs.View

/-!
# The buffer layer and the datastore

As long as no call has left anything locked, what the buffer layer shows is what
the datastore holds.  A call that starts so ends with both in step, whatever
fails in it, and if it succeeds it leaves nothing locked.
-/

open Function

namespace Nexus

/-- Without deferred puts the datastore gets what the buffer layer shows. -/
theorem dirnodeStoreDisk_of_written (o : StoreOutcome) (d : Dirnode) (s : StoredDirnode) :
    dirnodeStoreDisk { main := false, buckets := fun _ => false } o d s
      = (dirnodeStore o d s).2.1 := by
  cases hok : (dirnodeStore o d s).2.2 with
  | true => simp [dirnodeStoreDisk, hok]
  | false => simp [dirnodeStoreDisk, hok, ← dirnodeStore_main_of_failed hok]

namespace Fs

variable {s s' : Fs} {o : Outcome} {uuid dir : Uuid} {ok : Bool}

/-- The buffer layer and the datastore are in step. -/
structure Synced (s : Fs) : Prop where
  objects : s.disk = s.objects
  table : s.diskTable = s.storedTable

/-- Nothing is left locked. -/
def Unlocked (s : Fs) : Prop := ∀ l, s.leftover l = false

/-- Nothing is left locked, and the datastore has all that was put. -/
structure Tidy (s : Fs) : Prop extends synced : s.Synced where
  unlocked : s.Unlocked

theorem Synced.atDisk (h : s.Synced) : s.atDisk = s := by
  cases s
  obtain ⟨hobjects, htable⟩ := h
  cases hobjects
  cases htable
  rfl

theorem Synced.dirStored (h : s.Synced) : s.dirStored = s.dirBuffered := by
  funext uuid
  rw [Fs.dirStored, h.atDisk]

/-- How a step ends that started with nothing locked. -/
def Settled (s : Fs) (ok : Bool) : Prop := s.Synced ∧ (ok = true → s.Unlocked)

theorem Tidy.settled (h : s.Tidy) (ok : Bool) : s.Settled ok := ⟨h.synced, fun _ => h.unlocked⟩

theorem Settled.tidy (h : s.Settled true) : s.Tidy := ⟨h.1, h.2 rfl⟩

theorem Settled.failed (h : s.Settled ok) : s.Settled false := ⟨h.1, nofun⟩

section

variable (h : s.Tidy)
include h

theorem Tidy.defers_eq (o : Outcome) (l : Lock) : s.defers o l = false := by
  rw [defers, h.unlocked l]
  rfl

theorem Tidy.lockDirnode {get : Bool} {d : Option Dirnode}
    (heq : s.lockDirnode o get dir = (s', d)) : s'.Settled d.isSome := by
  rcases lockDirnode_cases s o get dir with ⟨-, hnone⟩ | ⟨n, -, -, hsome⟩
  · cases hnone.symm.trans heq
    exact ⟨⟨h.objects, h.table⟩, nofun⟩
  · cases hsome.symm.trans heq
    exact ⟨⟨h.objects, h.table⟩, fun _ => h.unlocked⟩

theorem Tidy.diskStore (o : Outcome) (uuid : Uuid) (d : Dirnode) :
    (s.diskStore o uuid d).disk =
        (if (s.storeResult o uuid d).2.2 then
          update s.objects uuid (some (.dirnode (s.storeResult o uuid d).2.1))
        else s.objectsOfFailed uuid (s.storeResult o uuid d).2.1) ∧
      ((s.storeResult o uuid d).2.2 = true → (s.diskStore o uuid d).Unlocked) := by
  have hstored := dirnodeStoreDisk_of_written (o.store uuid) d (s.storedDirnode uuid)
  unfold Fs.diskStore storeResult objectsOfFailed
  simp only [h.synced.atDisk, h.defers_eq, hstored, h.objects, Bool.not_false, Bool.and_true]
  constructor
  · cases (dirnodeStore (o.store uuid) d (s.storedDirnode uuid)).2.2 with
    | true => rfl
    | false =>
      simp only [Bool.false_eq_true, if_false]
      split <;> simp_all
  · intro hok l
    simp only [hok, h.unlocked l, Bool.not_true, Bool.false_and, Bool.false_or]
    cases l <;> rfl

theorem Tidy.storeDirnode (heq : s.storeDirnode o uuid = (s', ok)) : s'.Settled ok := by
  cases hn : s.dirnodes uuid with
  | none =>
    simp only [Fs.storeDirnode, hn, Prod.mk.injEq] at heq
    rw [← heq.1]
    exact h.settled ok
  | some n =>
    cases hdirty : n.isDirty with
    | false =>
      simp only [Fs.storeDirnode, hn, hdirty, Bool.not_false, if_true, Prod.mk.injEq] at heq
      rw [← heq.1]
      exact h.settled ok
    | true =>
      obtain ⟨hdisk, hlocks⟩ := h.diskStore o uuid n.object
      cases hok : (s.storeResult o uuid n.object).2.2 with
      | true =>
        rw [hok, if_pos rfl] at hdisk
        cases (storeDirnode_of_ok hn hdirty hok).symm.trans heq
        exact ⟨⟨hdisk, h.table⟩, fun _ => hlocks hok⟩
      | false =>
        rw [hok, if_neg Bool.false_ne_true] at hdisk
        cases (storeDirnode_of_failed hn hdirty hok).symm.trans heq
        exact ⟨⟨hdisk, h.table⟩, fun hstored => absurd hstored Bool.false_ne_true⟩

theorem Tidy.withObject (uuid : Uuid) (type : DirentType) : (s.withObject uuid type).Tidy := by
  refine ⟨⟨?_, h.table⟩, h.unlocked⟩
  simp only [Fs.withObject, h.objects]

theorem Tidy.delete (o : Outcome) (uuid : Uuid) : (s.delete o uuid).Tidy := by
  refine ⟨⟨?_, h.table⟩, h.unlocked⟩
  simp only [Fs.delete, h.objects]

theorem Tidy.acquireTable {t : Option HardlinkTable} (heq : s.acquireTable o = (s', t)) :
    s'.Settled t.isSome := by
  rcases acquireTable_cases s o with ⟨-, hnone⟩ | ⟨n, -, -, -, hsome⟩
  · cases hnone.symm.trans heq
    exact ⟨⟨h.objects, h.table⟩, nofun⟩
  · cases hsome.symm.trans heq
    exact ⟨⟨h.objects, h.table⟩, fun _ => h.unlocked⟩

theorem Tidy.flushTable (heq : s.flushTable o = (s', ok)) : s'.Settled ok := by
  unfold Fs.flushTable at heq
  split at heq
  · cases heq
    exact h.settled _
  split at heq
  · cases heq
    exact h.settled _
  split at heq
  · cases heq
    refine ⟨⟨h.objects, ?_⟩, fun _ => h.unlocked⟩
    simp only [h.defers_eq, Bool.false_eq_true, if_false]
  · cases heq
    exact ⟨⟨h.objects, h.table⟩, nofun⟩

end

/-- The copies in the enclave do not matter. -/
theorem Tidy.withCopies (h : s.Tidy) (dirnodes : Uuid → Option (Node Dirnode))
    (filenodes : Uuid → Option (Node Filenode)) (table : Option (Node HardlinkTable))
    (fileBuffers : Uuid → FileBuffer) :
    ({ s with dirnodes, filenodes, table, fileBuffers } : Fs).Tidy :=
  ⟨⟨h.objects, h.table⟩, h.unlocked⟩

theorem Tidy.setDirnode (h : s.Tidy) (uuid : Uuid) (d : Dirnode) : (s.setDirnode uuid d).Tidy :=
  h.withCopies ..

theorem Tidy.modifyDirnode (h : s.Tidy) (uuid : Uuid) (d : Dirnode) :
    (s.modifyDirnode uuid d).Tidy :=
  h.withCopies ..

theorem Tidy.modifyTable (h : s.Tidy) (t : HardlinkTable) : (s.modifyTable t).Tidy :=
  h.withCopies ..

theorem Tidy.dropCopies (h : s.Tidy) (dirnodes filenodes : Uuid → Bool) (table : Bool) :
    (s.dropCopies dirnodes filenodes table).Tidy :=
  h.withCopies ..

theorem nxCreateVolume_tidy {so : StoreOutcome} {rootUuid bucket0 : Uuid}
    (h : nxCreateVolume so rootUuid bucket0 = some s) : s.Tidy := by
  unfold nxCreateVolume at h
  split at h
  · contradiction
  · cases h
    exact ⟨⟨rfl, rfl⟩, fun _ => rfl⟩

/-! ## The calls -/

theorem Tidy.stored {α : Type} (h : s.Tidy) (o : Outcome) (uuid : Uuid) (value : α) :
    let r : Fs × Result α := match s.storeDirnode o uuid with
      | (s, true) => (s, .ok value)
      | (s, false) => (s, .error)
    r.1.Settled r.2.isOk := by
  rcases hstore : s.storeDirnode o uuid with ⟨s₁, _ | _⟩ <;> exact h.storeDirnode hstore

section

variable (h : s.Tidy) (o : Outcome) (dir : Uuid)
include h

theorem ecallFsCreate_settled (name : Name) (type : DirentType) :
    (s.ecallFsCreate o dir name type).1.Settled (s.ecallFsCreate o dir name type).2.isOk := by
  unfold ecallFsCreate
  rcases hget : s.lockDirnode o o.getFirst dir with ⟨s₁, _ | d⟩
  · exact h.lockDirnode hget
  have h₁ := (h.lockDirnode hget).tidy
  dsimp only
  split
  · exact h₁.settled _
  split
  · exact h₁.settled _
  have h₂ := h₁.withObject o.entryUuid type
  rcases dirnodeAdd d name type o.entryUuid o.bucketUuid with ⟨d, _ | _⟩
  · exact (h₂.setDirnode dir d).settled _
  · exact (h₂.modifyDirnode dir d).stored o dir o.entryUuid

theorem ecallFsSymlink_settled (name : Name) (target : Bytes) :
    (s.ecallFsSymlink o dir name target).1.Settled
      (s.ecallFsSymlink o dir name target).2.isOk := by
  unfold ecallFsSymlink
  rcases hget : s.lockDirnode o o.getFirst dir with ⟨s₁, _ | d⟩
  · exact h.lockDirnode hget
  have h₁ := (h.lockDirnode hget).tidy
  dsimp only
  split
  · exact h₁.settled _
  have h₂ := h₁.withObject o.entryUuid .lnk
  rcases dirnodeAddLink d name target o.entryUuid o.bucketUuid with ⟨d, _ | _⟩
  · exact (h₂.setDirnode dir d).settled _
  · exact (h₂.modifyDirnode dir d).stored o dir o.entryUuid

theorem removeFilenode_settled (uuid : Uuid) :
    (removeFilenode o s uuid).1.Settled (removeFilenode o s uuid).2.1 := by
  unfold removeFilenode
  rcases htable : s.acquireTable o with ⟨s₁, _ | t⟩
  · exact h.acquireTable htable
  have h₁ := (h.acquireTable htable).tidy
  dsimp only
  split
  · exact (h₁.delete o uuid).settled _
  rcases t.decrUuid uuid with ⟨t, linkCount⟩
  have h₂ := h₁.modifyTable t
  dsimp only
  split
  · rcases hflush : ((s₁.modifyTable t).delete o uuid).flushTable o with ⟨s₂, ok⟩
    exact (h₂.delete o uuid).flushTable hflush
  · rcases hflush : (s₁.modifyTable t).flushTable o with ⟨s₂, ok⟩
    exact h₂.flushTable hflush

theorem removeObject_settled (e : DirEntry) :
    (removeObject o s e).1.Settled (removeObject o s e).2.1 := by
  unfold removeObject
  split
  · exact removeFilenode_settled h o e.linkUuid
  · exact (h.delete o e.linkUuid).settled _
  · exact h.settled _

theorem ecallFsRemove_settled (name : Name) :
    (s.ecallFsRemove o dir name).1.Settled (s.ecallFsRemove o dir name).2.isOk := by
  unfold ecallFsRemove
  rcases hget : s.lockDirnode o o.getFirst dir with ⟨s₁, _ | d⟩
  · exact h.lockDirnode hget
  have h₁ := (h.lockDirnode hget).tidy
  dsimp only
  split
  · exact h₁.settled _
  rcases findByName d name with ⟨d, _ | e⟩
  · exact (h₁.setDirnode dir d).settled _
  have hremoved := removeObject_settled (h₁.setDirnode dir d) o e
  dsimp only
  generalize removeObject o (s₁.setDirnode dir d) e = removed at hremoved
  obtain ⟨s₂, _ | _, shouldRemove⟩ := removed
  · exact hremoved
  · exact (hremoved.tidy.modifyDirnode dir (dirnodeDelDirentry d e)).stored o dir _

theorem countLink_settled (uuid : Uuid) :
    (countLink o s uuid).1.Settled (countLink o s uuid).2 := by
  unfold countLink
  rcases htable : s.acquireTable o with ⟨s₁, _ | t⟩
  · exact h.acquireTable htable
  rcases hflush : (s₁.modifyTable (t.incrUuid uuid)).flushTable o with ⟨s₂, ok⟩
  have h₁ := (h.acquireTable htable).tidy.modifyTable (t.incrUuid uuid)
  dsimp only
  rw [hflush]
  exact h₁.flushTable hflush

theorem nxsFsHardlink_settled (linkName : Name) (targetDir : Uuid) (target : Dirnode)
    (targetName : Name) :
    (nxsFsHardlink o s dir linkName targetDir target targetName).1.Settled
      (nxsFsHardlink o s dir linkName targetDir target targetName).2.isSome := by
  unfold nxsFsHardlink
  rcases findByName target targetName with ⟨target, _ | e⟩
  · exact (h.setDirnode targetDir target).settled _
  dsimp only
  split
  · exact (h.setDirnode targetDir target).settled _
  have hcounted := countLink_settled (h.setDirnode targetDir target) o e.linkUuid
  generalize countLink o (s.setDirnode targetDir target) e.linkUuid = counted at hcounted
  obtain ⟨s₁, _ | _⟩ := counted
  · exact hcounted
  dsimp only
  rcases s₁.dirnodes dir with _ | link
  · exact hcounted.failed
  dsimp only
  rcases dirnodeAdd link.object linkName .reg e.linkUuid o.bucketUuid with ⟨link, _ | _⟩
  · exact (hcounted.tidy.setDirnode dir link).settled _
  · exact (hcounted.tidy.modifyDirnode dir link).settled _

theorem ecallFsHardlink_settled (linkName : Name) (targetDir : Uuid) (targetName : Name) :
    (s.ecallFsHardlink o dir linkName targetDir targetName).1.Settled
      (s.ecallFsHardlink o dir linkName targetDir targetName).2.isOk := by
  unfold ecallFsHardlink
  rcases hget : s.lockDirnode o o.getFirst targetDir with ⟨s₁, _ | target⟩
  · exact h.lockDirnode hget
  have h₁ := (h.lockDirnode hget).tidy
  dsimp only
  have h₂ : (if dir = targetDir then (s₁, some target)
      else s₁.getDirnode o o.getSecond dir).1.Tidy := by
    split
    · exact h₁
    · rcases getDirnode_cases s₁ o o.getSecond dir with ⟨-, heq⟩ | ⟨n, -, -, heq⟩ <;> rw [heq]
      · exact h₁
      · exact h₁.withCopies ..
  generalize (if dir = targetDir then (s₁, some target)
    else s₁.getDirnode o o.getSecond dir) = got at h₂
  obtain ⟨s₂, _ | _⟩ := got
  · exact h₂.settled _
  dsimp only at h₂
  have hlinked := nxsFsHardlink_settled h₂ o dir linkName targetDir target targetName
  dsimp only
  generalize nxsFsHardlink o s₂ dir linkName targetDir target targetName = linked at hlinked
  obtain ⟨s₃, _ | uuid⟩ := linked
  · exact hlinked
  · exact hlinked.tidy.stored o targetDir uuid

theorem renameWithin_settled (oldname newname : Name) :
    (renameWithin o s dir oldname newname).1.Settled
      (renameWithin o s dir oldname newname).2.isOk := by
  unfold renameWithin
  rcases hget : s.lockDirnode o o.getFirst dir with ⟨s₁, _ | d⟩
  · exact h.lockDirnode hget
  have h₁ := (h.lockDirnode hget).tidy
  dsimp only
  rcases dirnodeRenameWithin d oldname newname o.bucketUuid with ⟨d, _ | _ | ⟨moved, _⟩⟩
  · exact (h₁.setDirnode dir d).settled _
  · exact (h₁.setDirnode dir d).settled _
  · exact (h₁.modifyDirnode dir d).stored o dir moved.linkUuid

theorem renameAcross_settled (oldname : Name) (toDir : Uuid) (newname : Name) :
    (renameAcross o s dir oldname toDir newname).1.Settled
      (renameAcross o s dir oldname toDir newname).2.isOk := by
  unfold renameAcross
  rcases hget : s.lockDirnode o o.getFirst dir with ⟨s₁, _ | src⟩
  · -- the call fails, so only the datastore counts
    have hsynced := (h.lockDirnode hget).1
    dsimp only
    rcases lockDirnode_cases s₁ o o.getSecond toDir with ⟨-, heq⟩ | ⟨n, -, -, heq⟩ <;> rw [heq] <;>
      exact ⟨⟨hsynced.objects, hsynced.table⟩, nofun⟩
  have h₁ := (h.lockDirnode hget).tidy
  dsimp only
  rcases hget' : s₁.lockDirnode o o.getSecond toDir with ⟨s₂, _ | dst⟩
  · exact h₁.lockDirnode hget'
  have h₂ := (h₁.lockDirnode hget').tidy
  dsimp only
  rcases dirnodeRenameAcross src dst oldname newname o.bucketUuid with
    ⟨src, dst, _ | _ | ⟨moved, _⟩⟩
  · exact ((h₂.setDirnode dir src).setDirnode toDir dst).settled _
  · exact ((h₂.setDirnode dir src).setDirnode toDir dst).settled _
  · have h₃ := (h₂.modifyDirnode dir src).modifyDirnode toDir dst
    dsimp only
    rcases hstore : ((s₂.modifyDirnode dir src).modifyDirnode toDir dst).storeDirnode o dir with
      ⟨s₃, _ | _⟩
    · exact h₃.storeDirnode hstore
    · dsimp only
      rcases hstore' : s₃.storeDirnode o toDir with ⟨s₄, _ | _⟩ <;>
        exact (h₃.storeDirnode hstore).tidy.storeDirnode hstore'

theorem getFilenode_tidy (file : Uuid) : (s.getFilenode o file).1.Tidy := by
  rcases getFilenode_cases s o file with ⟨⟨b, -, heq⟩, -⟩ | ⟨n, -, -, heq⟩ <;> rw [heq] <;>
    exact h.withCopies ..

theorem storeFilenode_tidy (file : Uuid) : (s.storeFilenode o file).1.Tidy := by
  unfold storeFilenode
  split
  · exact h
  dsimp only
  split
  · exact h
  split
  · exact h.withCopies ..
  split
  · exact h.withCopies ..
  split
  · exact h.withCopies ..
  · refine ⟨⟨?_, h.table⟩, h.unlocked⟩
    simp only [h.objects]

theorem ecallFsTruncate_tidy (file : Uuid) (size : Nat) :
    (s.ecallFsTruncate o file size).1.Tidy := by
  have hget := getFilenode_tidy h o file
  unfold ecallFsTruncate
  generalize s.getFilenode o file = r at hget
  obtain ⟨s₁, _ | f⟩ := r
  · exact hget
  dsimp only at hget ⊢
  have hmodified : ((if o.granted = true then s₁ else s₁.putFilenode o file).modifyFilenode file
      (f.setFilesize size o.chunk)).Tidy := by
    split <;> exact hget.withCopies ..
  have hstore := storeFilenode_tidy hmodified o file
  generalize Fs.storeFilenode _ o file = r at hstore
  obtain ⟨s₃, _ | _⟩ := r
  · exact hstore.withCopies ..
  · exact hstore

theorem ecallFsFileEncryptStart_tidy (file : Uuid) (size : Nat) :
    (s.ecallFsFileEncryptStart o file size).1.Tidy := by
  have hget := getFilenode_tidy h o file
  unfold ecallFsFileEncryptStart
  generalize s.getFilenode o file = r at hget
  obtain ⟨s₁, _ | f⟩ := r
  · exact hget
  dsimp only at hget ⊢
  split
  · exact hget.withCopies ..
  · split <;> exact hget.withCopies ..

end

end Fs

theorem Call.isOk_report_eq {α : Type} (r : Fs × Result α) : (report r).2.isOk = r.2.isOk := by
  obtain ⟨s, _ | _ | _⟩ := r <;> rfl

/-- A call that finds nothing locked leaves the datastore in step, and leaves nothing
locked if it succeeds. -/
theorem Call.run_settled {s : Fs} (h : s.Tidy) (o : Outcome) (c : Call) :
    (c.run o s).1.Settled (c.run o s).2.isOk := by
  rcases c.run_cases o s with heq | heq <;> rw [heq]
  · exact h.settled _
  cases c <;> rw [perform, isOk_report_eq]
  case create dir name type => exact Fs.ecallFsCreate_settled h o dir name type
  case remove dir name => exact Fs.ecallFsRemove_settled h o dir name
  case symlink dir name target => exact Fs.ecallFsSymlink_settled h o dir name target
  case hardlink linkDir linkName targetDir targetName =>
    exact Fs.ecallFsHardlink_settled h o linkDir linkName targetDir targetName
  case rename fromDir oldname toDir newname =>
    unfold Fs.ecallFsRename
    split
    · exact Fs.renameWithin_settled h o fromDir oldname newname
    · exact Fs.renameAcross_settled h o fromDir oldname toDir newname
  case truncate file size => exact (Fs.ecallFsTruncate_tidy h o file size).settled _
  case encryptStart file size => exact (Fs.ecallFsFileEncryptStart_tidy h o file size).settled _

end Nexus
