import Nexus.Fs.Disk
import Nexus.Fs.Effect

/-!
# Runs

A run starts from a new volume and is made of calls, of which any step may fail,
and of the enclave dropping copies.  It ends with a call whose behaviour is not
defined.  While what is added to a directory can be
represented in its stored form, the invariant of the volume holds throughout.
-/

open Function

namespace Nexus

/-- The generated uuids and macs are not in use. -/
structure Outcome.Fresh (o : Outcome) (s : Fs) : Prop where
  entryUuid : s.objects o.entryUuid = none
  bucketUuid : ∀ uuid n, s.dirNode o.bucket0 uuid = some n →
    o.bucketUuid ∉ n.object.bucketList.map Bucket.uuid
  macs : ∀ uuid, s.FreshMacs o uuid

/-- The directory can be given one more bucket. -/
def Fs.HasRoom (s : Fs) (o : Outcome) (dir : Uuid) : Prop :=
  ∀ n, s.dirNode o.bucket0 dir = some n → n.object.bucketCount < 65535

/-- What the call adds to a directory can be stored. -/
def Call.Fits (o : Outcome) (s : Fs) : Call → Prop
  | create dir _ _ => s.HasRoom o dir
  | remove _ _ => True
  | symlink dir _ target =>
    s.HasRoom o dir ∧ ∀ n, s.dirNode o.bucket0 dir = some n → SymlinkFits n.object target
  | hardlink linkDir _ _ _ => s.HasRoom o linkDir
  | rename fromDir oldname toDir _ =>
    s.HasRoom o toDir ∧ ∀ src dst, s.dirNode o.bucket0 fromDir = some src →
      s.dirNode o.bucket0 toDir = some dst → RenameFits src.object dst.object oldname
  -- files are not kept where a directory is
  | truncate file _ => ∀ stored, s.objects file ≠ some (.dirnode stored)
  | encryptStart _ _ => True

/-- What the call adds can be stored, and no earlier call has left anything locked. -/
structure Call.Ready (o : Outcome) (s : Fs) (c : Call) : Prop where
  fits : c.Fits o s
  unlocked : s.Unlocked

namespace Fs

variable {s s' : Fs} {o : Outcome} {uuid dir : Uuid}

theorem FreshMacs.mono (h : s.FreshMacs o uuid)
    (hobjects : ∀ stored, s'.objects uuid = some (.dirnode stored) →
      s.objects uuid = some (.dirnode stored)) : s'.FreshMacs o uuid :=
  fun stored d hstored hauth => h stored d (hobjects stored hstored) hauth

theorem storedDirnode_withObject (hfresh : s.objects uuid = none) (type : DirentType) (v : Uuid) :
    (s.withObject uuid type).storedDirnode v = s.storedDirnode v := by
  by_cases hv : v = uuid
  · subst hv
    simp only [storedDirnode, withObject, update_self, hfresh]
  · exact storedDirnode_congr (update_of_ne hv ..)

theorem FreshMacs.withObject {v : Uuid} (h : s.FreshMacs o v) (type : DirentType) :
    (s.withObject uuid type).FreshMacs o v := by
  refine h.mono ?_
  intro stored hstored
  by_cases hv : v = uuid
  · subst hv
    simp only [Fs.withObject, update_self, Option.some.injEq, reduceCtorEq] at hstored
  · simpa only [Fs.withObject, update_of_ne hv] using hstored

/-! ## The invariant -/

theorem valid_of_copy {n : Node Dirnode} (hn : s.dirnodes dir = some n)
    (hvalid : n.isInvalid = false) : ∀ m, s.dirnodes dir = some m → m.isInvalid = false := by
  intro m hm
  rwa [← Option.some.inj (hn.symm.trans hm)]

theorem tracks_withObject {d : Dirnode} (h : d.Tracks (s.storedDirnode dir)) (hfresh : o.Fresh s)
    (n : Node Dirnode) (type : DirentType) :
    d.Tracks (((s.withCopy dir n).withObject o.entryUuid type).storedDirnode dir) := by
  rwa [storedDirnode_withObject (s := s.withCopy dir n) hfresh.entryUuid type dir]

theorem AddEnds.sane {type : DirentType} {add : Dirnode → Dirnode × Bool} {r : Fs × Result Uuid}
    (hr : AddEnds o s dir type add r) (h : s.Sane) (hfresh : o.Fresh s)
    (hadd : ∀ n, s.dirNode o.bucket0 dir = some n →
      (add n.object).1.Tracks (s.storedDirnode dir)) : r.1.Sane := by
  rcases hr with ⟨-, hidle⟩ | ⟨n, hnode, hend⟩
  · exact hidle.sane h
  have hs : ((s.withCopy dir n).withObject o.entryUuid type).Sane :=
    ((withCopy_idle hnode).sane h).newObject hfresh.entryUuid type
  have htracks := tracks_withObject (hadd n hnode) hfresh n type
  rcases hend with ⟨-, rfl⟩ | ⟨-, rfl⟩
  · exact hs.setDirnode fun _ _ => htracks
  · exact hs.save (fun _ _ => htracks) (valid_of_copy withCopy_self (dirNode_valid hnode))
      (FreshMacs.withObject (hfresh.macs dir) type)

theorem Sane.removeObject (h : s.Sane) (o : Outcome) (e : DirEntry) :
    (removeObject o s e).1.Sane := by
  rcases (removeObject_frame o s e).2 with ⟨hobjects, hdirnodes⟩ | ⟨hobjects, hdirnodes⟩
  · exact h.of_eq hobjects hdirnodes
  · exact (h.delete o e.linkUuid).of_eq hobjects hdirnodes

theorem ecallFsRemove_sane (h : s.Sane) (hfresh : o.Fresh s) (dir : Uuid) (name : Name) :
    (s.ecallFsRemove o dir name).1.Sane := by
  rcases ecallFsRemove_ends o s dir name with ⟨-, hidle⟩ | ⟨n, e, hnode, hfound, hend⟩
  · exact hidle.sane h
  have htracks := (h.dirNode hnode).findByName name
  set d := (findByName n.object name).1
  have he : e ∈ d.dirents := mem_of_findByName (h.dirNode hnode).storable.wf hfound
  have hs : (s.withCopy dir { n with object := d }).Sane := h.cache htracks
  set s₁ := s.withCopy dir { n with object := d }
  have hremoved := hs.removeObject o e
  rcases hend with ⟨-, heq⟩ | ⟨-, heq⟩ <;> rw [heq]
  · exact hremoved
  have hcopy (m : Node Dirnode) (hm : (removeObject o s₁ e).1.dirnodes dir = some m) :=
    removeObject_copy hm
  refine hremoved.save ?_ ?_ ?_
  · intro m hm
    rw [storedDirnode_congr (hcopy m hm).2]
    exact htracks.delDirentry he
  · intro m hm
    rw [(hcopy m hm).1]
    show n.isInvalid = false
    exact dirNode_valid hnode
  · refine (hfresh.macs dir).mono ?_
    intro stored hstored
    exact (removeObject_objects hstored : s₁.objects dir = _)

theorem LinkEnds.sane {s₁ : Fs} {linkDir targetDir : Uuid} {linkName : Name} {l t : Node Dirnode}
    {e : DirEntry} {r : Fs × Result Uuid}
    (hr : LinkEnds o s₁ linkDir linkName targetDir l.object e r) (h : s₁.Sane)
    (hl : s₁.dirnodes linkDir = some l) (hlvalid : l.isInvalid = false)
    (ht : s₁.dirnodes targetDir = some t) (htvalid : t.isInvalid = false)
    (hroom : l.object.bucketCount < 65535)
    (hfresh : o.bucketUuid ∉ l.object.bucketList.map Bucket.uuid)
    (hmacs : s₁.FreshMacs o targetDir) : r.1.Sane := by
  obtain ⟨hdirnodes, hobjects, -⟩ := countLink_dirnodes o s₁ e.linkUuid
  have hcounted : (countLink o s₁ e.linkUuid).1.Sane := h.of_eq hobjects hdirnodes
  have htracks := (h.cached linkDir l hl hlvalid).add hroom linkName .reg e.linkUuid hfresh
  rw [← storedDirnode_congr (congrFun hobjects linkDir)] at htracks
  rcases hr with ⟨-, rfl⟩ | ⟨-, ⟨-, rfl⟩ | ⟨-, rfl⟩⟩
  · exact hcounted
  · exact hcounted.setDirnode fun _ _ => htracks
  · refine (hcounted.modifyDirnode fun _ _ => htracks).storeDirnode ?_ ?_
    · refine hmacs.mono ?_
      intro stored hstored
      rw [← hobjects]
      exact hstored
    · by_cases hsame : targetDir = linkDir
      · subst hsame
        exact valid_of_copy (modifyDirnode_self (by rw [hdirnodes, hl]) _) hlvalid
      · refine valid_of_copy ?_ htvalid
        rw [← ht, ← hdirnodes]
        exact update_of_ne hsame ..

theorem ecallFsHardlink_sane (h : s.Sane) (hfresh : o.Fresh s) {linkDir : Uuid}
    (hroom : s.HasRoom o linkDir) (linkName : Name) (targetDir : Uuid) (targetName : Name) :
    (s.ecallFsHardlink o linkDir linkName targetDir targetName).1.Sane := by
  by_cases hsame : linkDir = targetDir
  · subst hsame
    rcases ecallFsHardlink_ends_within o s linkDir linkName targetName with
      ⟨-, hidle⟩ | ⟨n, e, hnode, -, -, hend⟩
    · exact hidle.sane h
    have htracks := (h.dirNode hnode).findByName targetName
    obtain ⟨last, hframe⟩ := findByName_frame n.object targetName
    have hvalid : n.isInvalid = false := dirNode_valid hnode
    have hs : (s.withCopy linkDir { n with object := (findByName n.object targetName).1 }).Sane :=
      h.cache htracks
    refine LinkEnds.sane (l := { n with object := (findByName n.object targetName).1 }) hend hs
      withCopy_self hvalid withCopy_self hvalid ?_ ?_ (hfresh.macs linkDir)
    · rw [findByName_bucketCount]
      exact hroom n hnode
    · rw [hframe]
      exact hfresh.bucketUuid linkDir n hnode
  · rcases ecallFsHardlink_ends_across o s hsame linkName targetName with
      ⟨-, hidle⟩ | ⟨n, m, e, hnode, hnode', -, -, hend⟩
    · exact hidle.sane h
    have htracks := (h.dirNode hnode).findByName targetName
    have hs : ((s.withCopy targetDir
        { n with object := (findByName n.object targetName).1 }).withCopy linkDir m).Sane :=
      Sane.cache (h.cache htracks) (h.dirNode hnode')
    refine LinkEnds.sane (t := { n with object := (findByName n.object targetName).1 }) hend hs
      withCopy_self (dirNode_valid hnode') ?_ (dirNode_valid hnode : n.isInvalid = false)
      (hroom m hnode') (hfresh.bucketUuid linkDir m hnode') (hfresh.macs targetDir)
    rw [withCopy_of_ne (Ne.symm hsame), withCopy_self]

theorem renameWithin_sane (h : s.Sane) (hfresh : o.Fresh s) {dir : Uuid} (hroom : s.HasRoom o dir)
    (oldname newname : Name) : (renameWithin o s dir oldname newname).1.Sane := by
  rcases renameWithin_ends o s dir oldname newname with ⟨-, -, hidle⟩ | ⟨n, -, hnode, hend⟩
  · exact hidle.sane h
  have htracks := (h.dirNode hnode).renameWithin (hroom n hnode) oldname newname
    (hfresh.bucketUuid dir n hnode)
  generalize dirnodeRenameWithin n.object oldname newname o.bucketUuid = renamed at hend htracks
  obtain ⟨d, _ | _ | ⟨moved, _⟩⟩ := renamed <;> rw [hend]
  · exact h.cache htracks
  · exact h.cache htracks
  · exact ((withCopy_idle hnode).sane h).save (fun _ _ => htracks)
      (valid_of_copy withCopy_self (dirNode_valid hnode)) (hfresh.macs dir)

theorem renameAcross_sane (h : s.Sane) (hfresh : o.Fresh s) {fromDir toDir : Uuid}
    (hne : fromDir ≠ toDir) (hroom : s.HasRoom o toDir) {oldname : Name}
    (hfits : ∀ src dst, s.dirNode o.bucket0 fromDir = some src →
      s.dirNode o.bucket0 toDir = some dst → RenameFits src.object dst.object oldname)
    (newname : Name) : (renameAcross o s fromDir oldname toDir newname).1.Sane := by
  rcases renameAcross_ends o s hne oldname newname with
    ⟨-, -, hidle⟩ | ⟨n, m, -, hnode, hnode', hend⟩
  · exact hidle.sane h
  have htracks := (h.dirNode hnode).renameAcross (h.dirNode hnode') (hroom m hnode') newname
    (hfresh.bucketUuid toDir m hnode') (hfits n m hnode hnode')
  generalize dirnodeRenameAcross n.object m.object oldname newname o.bucketUuid = renamed
    at hend htracks
  obtain ⟨src, dst, _ | _ | ⟨moved, _⟩⟩ := renamed
  · rw [hend]
    exact Sane.cache (h.cache htracks.1) htracks.2
  · rw [hend]
    exact Sane.cache (h.cache htracks.1) htracks.2
  · have hs : ((s.withCopy fromDir n).withCopy toDir
        { m with object := dst, isDirty := true }).Sane :=
      Sane.cache (h.cache (h.dirNode hnode)) htracks.2
    dsimp only at hend
    set s₁ := (s.withCopy fromDir n).withCopy toDir { m with object := dst, isDirty := true }
    have hsaved : (s₁.save o fromDir src).1.Sane :=
      hs.save (fun _ _ => htracks.1) (valid_of_copy ((withCopy_of_ne hne).trans withCopy_self)
        (dirNode_valid hnode)) (hfresh.macs fromDir)
    rcases hend with ⟨-, heq⟩ | ⟨-, heq⟩ <;> rw [heq]
    · exact hsaved
    · obtain ⟨hobjects, hdirnodes⟩ := save_frame s₁ o src hne.symm
      refine hsaved.storeDirnode ?_ ?_
      · refine (hfresh.macs toDir).mono ?_
        intro stored hstored
        rwa [hobjects] at hstored
      · have hvalid : m.isInvalid = false := dirNode_valid hnode'
        exact valid_of_copy (hdirnodes.trans withCopy_self) hvalid

theorem storeFilenode_frame (s : Fs) (o : Outcome) (file : Uuid) :
    (s.storeFilenode o file).1.dirnodes = s.dirnodes ∧
      ((s.storeFilenode o file).1.objects = s.objects ∨
        ∃ f, (s.storeFilenode o file).1.objects
          = update s.objects file (some (.filenode f))) := by
  unfold storeFilenode
  split
  · exact ⟨rfl, .inl rfl⟩
  dsimp only
  split
  · exact ⟨rfl, .inl rfl⟩
  split
  · exact ⟨rfl, .inl rfl⟩
  split
  · exact ⟨rfl, .inl rfl⟩
  split
  · exact ⟨rfl, .inl rfl⟩
  · exact ⟨rfl, .inr ⟨_, rfl⟩⟩

theorem getFilenode_frame (s : Fs) (o : Outcome) (file : Uuid) :
    (s.getFilenode o file).1.dirnodes = s.dirnodes ∧
      (s.getFilenode o file).1.objects = s.objects := by
  rcases getFilenode_cases s o file with ⟨⟨b, -, heq⟩, -⟩ | ⟨n, -, -, heq⟩ <;> rw [heq] <;>
    exact ⟨rfl, rfl⟩

theorem Sane.storeFilenode (h : s.Sane) {file : Uuid}
    (hfile : ∀ stored, s.objects file ≠ some (.dirnode stored)) :
    (s.storeFilenode o file).1.Sane := by
  obtain ⟨hdirnodes, hobjects | ⟨f, hobjects⟩⟩ := storeFilenode_frame s o file
  · exact h.of_eq hobjects hdirnodes
  refine h.of_frame (fun v (hv : v ≠ file) => by rw [hobjects, update_of_ne hv])
    (fun v _ => congrFun hdirnodes v) ?_ ?_
  · intro stored hstored
    rw [hobjects, update_self] at hstored
    simp at hstored
  · intro n hn hvalid
    rw [hdirnodes] at hn
    have htracks := h.cached file n hn hvalid
    -- neither before nor after is there a stored directory to track
    have hbefore : s.storedDirnode file = { main := [], buckets := fun _ => none } := by
      unfold storedDirnode
      split
      next stored hstored =>
        exact absurd hstored (hfile stored)
      · rfl
    rw [hbefore] at htracks
    simp only [storedDirnode, hobjects, update_self]
    exact htracks

theorem ecallFsTruncate_sane (h : s.Sane) {file : Uuid}
    (hfile : ∀ stored, s.objects file ≠ some (.dirnode stored)) (size : Nat) :
    (s.ecallFsTruncate o file size).1.Sane := by
  obtain ⟨hdirnodes, hobjects⟩ := getFilenode_frame s o file
  have hget : (s.getFilenode o file).1.Sane := h.of_eq hobjects hdirnodes
  unfold ecallFsTruncate
  generalize s.getFilenode o file = r at hobjects hget
  obtain ⟨s₁, _ | f⟩ := r
  · exact hget
  dsimp only at hobjects hget ⊢
  rw [← hobjects] at hfile
  set s₂ : Fs := (if o.granted = true then s₁ else s₁.putFilenode o file).modifyFilenode file
    (f.setFilesize size o.chunk) with hs₂
  have hframe : s₂.objects = s₁.objects ∧ s₂.dirnodes = s₁.dirnodes := by
    rw [hs₂]
    split <;> exact ⟨rfl, rfl⟩
  rw [← hframe.1] at hfile
  have hstore := (hget.of_eq hframe.1 hframe.2).storeFilenode (o := o) hfile
  generalize s₂.storeFilenode o file = r at hstore
  obtain ⟨s₃, _ | _⟩ := r
  · exact hstore.of_eq rfl rfl
  · exact hstore

theorem ecallFsFileEncryptStart_sane (h : s.Sane) (file : Uuid) (size : Nat) :
    (s.ecallFsFileEncryptStart o file size).1.Sane := by
  obtain ⟨hdirnodes, hobjects⟩ := getFilenode_frame s o file
  have hget : (s.getFilenode o file).1.Sane := h.of_eq hobjects hdirnodes
  unfold ecallFsFileEncryptStart
  generalize s.getFilenode o file = r at hget
  obtain ⟨s₁, _ | f⟩ := r
  · exact hget
  dsimp only at hget ⊢
  split
  · exact hget.of_eq rfl rfl
  · split <;> exact hget.of_eq rfl rfl

theorem Sane.dropCopies (h : s.Sane) (dirnodes filenodes : Uuid → Bool) (table : Bool) :
    (s.dropCopies dirnodes filenodes table).Sane where
  stored := h.stored
  cached uuid n hn hvalid := by
    simp only [Fs.dropCopies] at hn
    split at hn
    · contradiction
    · exact h.cached uuid n hn hvalid

end Fs

theorem Call.run_sane {s : Fs} {o : Outcome} (h : s.Sane) (hfresh : o.Fresh s) {c : Call}
    (hfits : c.Fits o s) : (c.run o s).1.Sane := by
  rcases c.run_cases o s with heq | heq <;> rw [heq]
  · exact h
  cases c with
  | create dir name type =>
    refine (Fs.ecallFsCreate_ends o s dir name type).sane h hfresh ?_
    intro n hnode
    exact (h.dirNode hnode).add (hfits n hnode) name type o.entryUuid
      (hfresh.bucketUuid dir n hnode)
  | symlink dir name target =>
    refine (Fs.ecallFsSymlink_ends o s dir name target).sane h hfresh ?_
    intro n hnode
    exact (h.dirNode hnode).addLink (hfits.1 n hnode) name o.entryUuid
      (hfresh.bucketUuid dir n hnode) (hfits.2 n hnode)
  | remove dir name => exact Fs.ecallFsRemove_sane h hfresh dir name
  | hardlink linkDir linkName targetDir targetName =>
    exact Fs.ecallFsHardlink_sane h hfresh hfits linkName targetDir targetName
  | rename fromDir oldname toDir newname =>
    unfold perform Fs.ecallFsRename
    dsimp only
    by_cases hdirs : fromDir = toDir
    · subst hdirs
      rw [if_pos rfl]
      exact Fs.renameWithin_sane h hfresh hfits.1 oldname newname
    · rw [if_neg hdirs]
      exact Fs.renameAcross_sane h hfresh hdirs hfits.1 hfits.2 newname
  | truncate file size => exact Fs.ecallFsTruncate_sane h hfits size
  | encryptStart file size => exact Fs.ecallFsFileEncryptStart_sane h file size

/-! ## No call moves the root directory -/

namespace Fs

variable {s s' : Fs} {o : Outcome} {dir : Uuid} {ok : Bool}

@[grind →] theorem getDirnode_rootUuid {get : Bool} {d : Option Dirnode}
    (h : s.getDirnode o get dir = (s', d)) : s'.rootUuid = s.rootUuid := by
  rcases getDirnode_cases s o get dir with ⟨-, heq⟩ | ⟨n, -, -, heq⟩ <;> grind

@[grind →] theorem lockDirnode_rootUuid {get : Bool} {d : Option Dirnode}
    (h : s.lockDirnode o get dir = (s', d)) : s'.rootUuid = s.rootUuid := by
  grind [lockDirnode, mayLeave]

@[grind →] theorem rootUuid_of_storeDirnode (h : s.storeDirnode o dir = (s', ok)) :
    s'.rootUuid = s.rootUuid := by
  rw [← storeDirnode_rootUuid s o dir, h]

@[grind →] theorem acquireTable_rootUuid {t : Option HardlinkTable}
    (h : s.acquireTable o = (s', t)) : s'.rootUuid = s.rootUuid := by
  grind [acquireTable, mayLeave]

@[grind →] theorem flushTable_rootUuid (h : s.flushTable o = (s', ok)) :
    s'.rootUuid = s.rootUuid := by
  grind [flushTable, leave]

@[grind →] theorem getFilenode_rootUuid {f : Option Filenode}
    (h : s.getFilenode o dir = (s', f)) : s'.rootUuid = s.rootUuid := by
  grind [getFilenode]

@[grind →] theorem storeFilenode_rootUuid (h : s.storeFilenode o dir = (s', ok)) :
    s'.rootUuid = s.rootUuid := by
  grind [storeFilenode]

@[grind →] theorem removeObject_rootUuid {e : DirEntry} {shouldRemove : Bool}
    (h : removeObject o s e = (s', ok, shouldRemove)) : s'.rootUuid = s.rootUuid := by
  unfold removeObject removeFilenode at h
  grind [modifyTable, delete]

@[grind →] theorem nxsFsHardlink_rootUuid {linkDir : Uuid} {linkName targetName : Name}
    {target : Dirnode} {uuid : Option Uuid}
    (h : nxsFsHardlink o s linkDir linkName dir target targetName = (s', uuid)) :
    s'.rootUuid = s.rootUuid := by
  unfold nxsFsHardlink countLink at h
  grind [setDirnode, modifyDirnode, modifyTable]

end Fs

theorem Call.run_rootUuid (o : Outcome) (s : Fs) (c : Call) :
    (c.run o s).1.rootUuid = s.rootUuid := by
  rcases c.run_cases o s with heq | heq <;> rw [heq]
  cases c with
  | create dir name type =>
    simp only [perform, report, Fs.ecallFsCreate]
    grind [Fs.setDirnode, Fs.modifyDirnode, Fs.withObject]
  | symlink dir name target =>
    simp only [perform, report, Fs.ecallFsSymlink]
    grind [Fs.setDirnode, Fs.modifyDirnode, Fs.withObject]
  | remove dir name =>
    simp only [perform, report, Fs.ecallFsRemove]
    grind [Fs.setDirnode, Fs.modifyDirnode]
  | hardlink linkDir linkName targetDir targetName =>
    simp only [perform, report, Fs.ecallFsHardlink]
    grind
  | rename fromDir oldname toDir newname =>
    simp only [perform, report, Fs.ecallFsRename, Fs.renameWithin, Fs.renameAcross]
    grind [Fs.setDirnode, Fs.modifyDirnode, Fs.leave]
  | truncate file size =>
    simp only [perform, report, Fs.ecallFsTruncate]
    grind [Fs.putFilenode, Fs.modifyFilenode]
  | encryptStart file size =>
    simp only [perform, report, Fs.ecallFsFileEncryptStart]
    grind [Fs.putFilenode, Fs.modifyFilenode]

/-- The states of runs whose calls are defined and all meet `ok`. -/
inductive Fs.Reachable (ok : Outcome → Fs → Call → Prop) : Fs → Prop
  | create {so : StoreOutcome} {rootUuid bucket0 : Uuid} {s : Fs} :
      nxCreateVolume so rootUuid bucket0 = some s → Reachable ok s
  | call {s : Fs} (o : Outcome) (c : Call) :
      Reachable ok s → o.Fresh s → ok o s c → (c.run o s).2 ≠ .undefined →
        Reachable ok (c.run o s).1
  | dropCopies {s : Fs} (dirnodes filenodes : Uuid → Bool) (table : Bool) :
      Reachable ok s → Reachable ok (s.dropCopies dirnodes filenodes table)

theorem Fs.Reachable.sane {ok : Outcome → Fs → Call → Prop} {s : Fs} (h : Reachable ok s)
    (hok : ∀ o s c, ok o s c → c.Fits o s) : s.Sane := by
  induction h with
  | create hcreate => exact nxCreateVolume_sane hcreate
  | call o c _ hfresh hstep _ ih => exact c.run_sane ih hfresh (hok _ _ _ hstep)
  | dropCopies dirnodes filenodes table _ ih => exact ih.dropCopies dirnodes filenodes table

/-- If every call finds nothing locked, the datastore has all that was put. -/
theorem Fs.Reachable.synced {ok : Outcome → Fs → Call → Prop} {s : Fs} (h : Reachable ok s)
    (hok : ∀ o s c, ok o s c → s.Synced → s.Unlocked) : s.Synced := by
  induction h with
  | create hcreate => exact (nxCreateVolume_tidy hcreate).synced
  | call o c _ _ hstep _ ih => exact (c.run_settled ⟨ih, hok _ _ _ hstep ih⟩ o).1
  | dropCopies dirnodes filenodes table _ ih => exact ⟨ih.objects, ih.table⟩

theorem Fs.Reachable.tidy {ok : Outcome → Fs → Call → Prop} {s : Fs} (h : Reachable ok s)
    (hok : ∀ o s c, ok o s c → (c.run o s).2.isOk = true) : s.Tidy := by
  induction h with
  | create hcreate => exact nxCreateVolume_tidy hcreate
  | call o c _ _ hstep _ ih =>
    have hsettled := c.run_settled ih o
    rw [hok _ _ _ hstep] at hsettled
    exact hsettled.tidy
  | dropCopies dirnodes filenodes table _ ih => exact ih.dropCopies dirnodes filenodes table

/-! ## Small volumes

What a concrete run needs to be checked by evaluation. -/

/-- Objects and copies are at the given uuids only. -/
structure Fs.Within (s : Fs) (uuids : List Uuid) : Prop where
  objects : ∀ v ∉ uuids, s.objects v = none
  dirnodes : ∀ v ∉ uuids, s.dirnodes v = none

/-- No bucket of the directory has the new uuid, and no stored one is apart. -/
def Fs.freshAt (s : Fs) (o : Outcome) (v : Uuid) : Bool :=
  ((s.dirNode o.bucket0 v).all fun n => !(n.object.bucketList.map Bucket.uuid).contains o.bucketUuid)
    && match s.objects v with
      | some (.dirnode stored) => (dirnodeLoad stored).any fun d => d.bucketList.length == 1
      | _ => true

theorem Fs.ecallFsCreate_frame {s : Fs} {o : Outcome} {dir v : Uuid} {name : Name}
    {type : DirentType} (hdir : v ≠ dir) (hentry : v ≠ o.entryUuid) :
    (s.ecallFsCreate o dir name type).1.objects v = s.objects v ∧
      (s.ecallFsCreate o dir name type).1.dirnodes v = s.dirnodes v := by
  have hcopy (n : Node Dirnode) : (s.withCopy dir n).dirnodes v = s.dirnodes v :=
    withCopy_of_ne hdir
  unfold ecallFsCreate
  rcases lockDirnode_ends s o o.getFirst dir with ⟨-, heq⟩ | ⟨n, -, -, heq⟩ <;> rw [heq]
  · exact ⟨rfl, rfl⟩
  dsimp only
  split
  · exact ⟨rfl, hcopy n⟩
  split
  · exact ⟨rfl, hcopy n⟩
  let s₁ := (s.withCopy dir n).withObject o.entryUuid type
  have hobject : s₁.objects v = s.objects v := update_of_ne hentry ..
  generalize dirnodeAdd n.object name type o.entryUuid o.bucketUuid = add
  obtain ⟨d, _ | _⟩ := add
  · exact ⟨hobject, (update_of_ne hdir ..).trans (hcopy n)⟩
  · have hsave := save_frame s₁ o d hdir
    have hstore := congrArg Prod.fst (stored_eq (s₁.save o dir d) o.entryUuid)
    exact ⟨(congrArg (objects · v) hstore).trans (hsave.1.trans hobject),
      (congrArg (dirnodes · v) hstore).trans (hsave.2.trans (hcopy n))⟩

namespace Fs.Within

variable {s : Fs} {o : Outcome} {uuids : List Uuid}

theorem dirNode_eq_none (h : s.Within uuids) {v : Uuid} (hv : v ∉ uuids) (bucket0 : Uuid → Uuid) :
    s.dirNode bucket0 v = none := by
  simp [dirNode, readNode, readDirnode, h.objects v hv, h.dirnodes v hv]

theorem fresh (h : s.Within uuids) (hentry : o.entryUuid ∉ uuids)
    (hall : uuids.all (s.freshAt o) = true) : o.Fresh s where
  entryUuid := h.objects _ hentry
  bucketUuid := by
    intro v n hnode
    by_cases hv : v ∈ uuids
    · have hbuckets := List.all_eq_true.mp hall v hv
      simp only [freshAt, hnode, Option.all_some, Bool.and_eq_true, Bool.not_eq_true'] at hbuckets
      simpa using hbuckets.1
    · simp [h.dirNode_eq_none hv] at hnode
  macs := by
    intro v stored d hobject hauth
    by_cases hv : v ∈ uuids
    · have hload := List.all_eq_true.mp hall v hv
      simp only [freshAt, hobject, Bool.and_eq_true, Option.any_eq_true, beq_iff_eq] at hload
      obtain ⟨-, d', hd', hlength⟩ := hload
      obtain ⟨-, rfl⟩ := hauth.load_iff.mp hd'
      -- a directory with one bucket has no mac to repeat
      have hbuckets : d.bucketList.drop 1 = [] := by
        have hmap := congrArg List.length (map_uuid_bucketsAsLoaded d.bucketList)
        simp only [List.length_map] at hmap
        have hone : d.bucketList.length = 1 := hmap.symm.trans hlength
        exact List.drop_eq_nil_of_le hone.le
      intro b hb
      simp [hbuckets] at hb
    · simp [h.objects v hv] at hobject

theorem create (h : s.Within uuids) {dir : Uuid} (hdir : dir ∈ uuids) (o : Outcome) (name : Name)
    (type : DirentType) :
    ((Call.create dir name type).run o s).1.Within (o.entryUuid :: uuids) := by
  have hne {v : Uuid} (hv : v ∉ o.entryUuid :: uuids) : v ≠ o.entryUuid ∧ v ≠ dir ∧ v ∉ uuids := by
    refine ⟨List.ne_of_not_mem_cons hv, ?_, List.not_mem_of_not_mem_cons hv⟩
    rintro rfl
    exact hv (List.mem_cons_of_mem _ hdir)
  have hframe {v : Uuid} (hv : v ∉ o.entryUuid :: uuids) :
      ((Call.create dir name type).run o s).1.objects v = s.objects v ∧
        ((Call.create dir name type).run o s).1.dirnodes v = s.dirnodes v := by
    obtain ⟨hentry, hvdir, -⟩ := hne hv
    rcases (Call.create dir name type).run_cases o s with heq | heq <;> rw [heq]
    · exact ⟨rfl, rfl⟩
    · exact ecallFsCreate_frame hvdir hentry
  constructor
  · intro v hv
    rw [(hframe hv).1]
    exact h.objects v (hne hv).2.2
  · intro v hv
    rw [(hframe hv).2]
    exact h.dirnodes v (hne hv).2.2

end Fs.Within

theorem newVolume_within : newVolume.Within [1] := by
  obtain ⟨-, hobjects, hdirnodes, -⟩ := Fs.nxCreateVolume_state nxCreateVolume_newVolume
  refine ⟨fun v hv => hobjects v ?_, fun v _ => hdirnodes v⟩
  simpa using hv

/-- The name `d`. -/
def nameD : Name := ⟨[0x64], by decide, by decide⟩

/-- A file `a` in the root directory. -/
def volumeWithFile : Fs := ((Call.create 1 nameA .reg).run (.smooth 10 20) newVolume).1

/-- A file `a` and a directory `d` in the root directory. -/
def volumeWithBoth : Fs := ((Call.create 1 nameD .dir).run (.smooth 11 21) volumeWithFile).1

theorem hasRoom_of_check {s : Fs} {o : Outcome} {dir : Uuid}
    (h : ((s.dirNode o.bucket0 dir).all fun n => n.object.bucketCount < 65535) = true) :
    s.HasRoom o dir := by
  intro n hnode
  simpa [hnode] using h

theorem volumeWithFile_within : volumeWithFile.Within [10, 1] :=
  newVolume_within.create (by simp) _ _ _

theorem volumeWithBoth_within : volumeWithBoth.Within [11, 10, 1] :=
  volumeWithFile_within.create (by simp) _ _ _

theorem newVolume_ready :
    (Outcome.smooth 10 20).Fresh newVolume ∧ newVolume.HasRoom (.smooth 10 20) 1 :=
  ⟨newVolume_within.fresh (by decide) (by decide +kernel), hasRoom_of_check (by decide +kernel)⟩

theorem volumeWithFile_ready :
    (Outcome.smooth 11 21).Fresh volumeWithFile ∧ volumeWithFile.HasRoom (.smooth 11 21) 1 :=
  ⟨volumeWithFile_within.fresh (by decide) (by decide +kernel),
    hasRoom_of_check (by decide +kernel)⟩

theorem volumeWithBoth_ready : (Outcome.smooth 12 22).Fresh volumeWithBoth ∧
    volumeWithBoth.HasRoom (.smooth 12 22) 1 ∧ volumeWithBoth.HasRoom (.smooth 12 22) 11 :=
  ⟨volumeWithBoth_within.fresh (by decide) (by decide +kernel),
    hasRoom_of_check (by decide +kernel), hasRoom_of_check (by decide +kernel)⟩

theorem Result.ne_undefined {α : Type} {r : Result α} (h : r.isOk = true) : r ≠ .undefined := by
  rintro rfl
  contradiction

/-- Both calls succeed. -/
theorem volumeWithBoth_created :
    ((Call.create 1 nameA .reg).run (.smooth 10 20) newVolume).2.isOk = true ∧
      ((Call.create 1 nameD .dir).run (.smooth 11 21) volumeWithFile).2.isOk = true :=
  ⟨by decide +kernel, by decide +kernel⟩

theorem volumeWithFile_tidy : volumeWithFile.Tidy :=
  (volumeWithBoth_created.1 ▸ Call.run_settled
    (Fs.nxCreateVolume_tidy nxCreateVolume_newVolume) _ _).tidy

theorem volumeWithBoth_tidy : volumeWithBoth.Tidy :=
  (volumeWithBoth_created.2 ▸ Call.run_settled volumeWithFile_tidy _ _).tidy

theorem volumeWithFile_reachable : Fs.Reachable (fun o s c => c.Ready o s) volumeWithFile :=
  .call _ _ (.create nxCreateVolume_newVolume) newVolume_ready.1
    ⟨newVolume_ready.2, (Fs.nxCreateVolume_tidy nxCreateVolume_newVolume).unlocked⟩
    (Result.ne_undefined volumeWithBoth_created.1)

theorem volumeWithBoth_reachable : Fs.Reachable (fun o s c => c.Ready o s) volumeWithBoth :=
  .call _ _ volumeWithFile_reachable volumeWithFile_ready.1
    ⟨volumeWithFile_ready.2, volumeWithFile_tidy.unlocked⟩
    (Result.ne_undefined volumeWithBoth_created.2)

end Nexus
