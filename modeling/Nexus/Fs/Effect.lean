import Nexus.Fs.Invariant

/-!
# How each call ends

The namespace calls of `dirs.c` in closed form: which states they can leave,
written with three state changes.  A copy of a directory is cached, an object
is made, or the modified copy of a directory is stored.
-/

open Function

namespace Nexus

namespace Fs

variable {s s' : Fs} {o : Outcome} {uuid dir v : Uuid} {n : Node Dirnode}

/-- The state with a copy of a directory. -/
def withCopy (s : Fs) (dir : Uuid) (n : Node Dirnode) : Fs :=
  { s with dirnodes := update s.dirnodes dir (some n) }

/-- The copy of a directory is replaced and stored. -/
def save (s : Fs) (o : Outcome) (dir : Uuid) (d : Dirnode) : Fs × Bool :=
  (s.modifyDirnode dir d).storeDirnode o dir

@[simp] theorem withCopy_self : (s.withCopy dir n).dirnodes dir = some n :=
  update_self ..

theorem withCopy_of_ne (h : v ≠ dir) : (s.withCopy dir n).dirnodes v = s.dirnodes v :=
  update_of_ne h ..

theorem setDirnode_withCopy (s : Fs) (dir : Uuid) (n : Node Dirnode) (d : Dirnode) :
    (s.withCopy dir n).setDirnode dir d = s.withCopy dir { n with object := d } := by
  simp [setDirnode, withCopy]

theorem setDirnode_withCopy_of_ne (s : Fs) (h : v ≠ dir) (n : Node Dirnode) (d : Dirnode) :
    (s.withCopy dir n).setDirnode v d = (s.setDirnode v d).withCopy dir n := by
  simp only [setDirnode, withCopy, update_of_ne h, update_comm h]

theorem modifyDirnode_withCopy (s : Fs) (dir : Uuid) (n : Node Dirnode) (d : Dirnode) :
    (s.withCopy dir n).modifyDirnode dir d
      = s.withCopy dir { n with object := d, isDirty := true } := by
  simp [modifyDirnode, withCopy]

theorem modifyDirnode_withCopy_of_ne (s : Fs) (h : v ≠ dir) (n : Node Dirnode) (d : Dirnode) :
    (s.withCopy dir n).modifyDirnode v d = (s.modifyDirnode v d).withCopy dir n := by
  simp only [modifyDirnode, withCopy, update_of_ne h, update_comm h]

/-! ## Storing -/

theorem modifyDirnode_self (hn : s.dirnodes dir = some n) (d : Dirnode) :
    (s.modifyDirnode dir d).dirnodes dir = some { n with object := d, isDirty := true } := by
  simp [modifyDirnode, hn]

theorem save_of_ok (hn : s.dirnodes dir = some n) {d : Dirnode}
    (hok : (s.storeResult o dir d).2.2 = true) :
    s.save o dir d =
      ({ s.diskStore o dir d with
          objects := update s.objects dir (some (.dirnode (s.storeResult o dir d).2.1))
          dirnodes := update s.dirnodes dir
            (some { n with object := (s.storeResult o dir d).1, isDirty := false }) }, true) := by
  rw [save, storeDirnode_of_ok (modifyDirnode_self hn d) rfl hok]
  simp only [modifyDirnode, update_idem]
  rfl

theorem save_of_failed (hn : s.dirnodes dir = some n) {d : Dirnode}
    (hfail : (s.storeResult o dir d).2.2 = false) :
    s.save o dir d =
      ({ s.diskStore o dir d with
          objects := s.objectsOfFailed dir (s.storeResult o dir d).2.1
          dirnodes := update s.dirnodes dir
            (some { object := (s.storeResult o dir d).1, isDirty := true, isInvalid := true }) },
        false) := by
  rw [save, storeDirnode_of_failed (modifyDirnode_self hn d) rfl hfail]
  simp only [modifyDirnode, update_idem]
  rfl

theorem save_snd (hn : s.dirnodes dir = some n) (o : Outcome) (d : Dirnode) :
    (s.save o dir d).2 = (s.storeResult o dir d).2.2 := by
  cases hok : (s.storeResult o dir d).2.2 with
  | true => rw [save_of_ok hn hok]
  | false => rw [save_of_failed hn hok]

theorem save_frame (s : Fs) (o : Outcome) (d : Dirnode) (hv : v ≠ dir) :
    (s.save o dir d).1.objects v = s.objects v ∧ (s.save o dir d).1.dirnodes v = s.dirnodes v := by
  obtain ⟨hobjects, hdirnodes⟩ := storeDirnode_frame (s.modifyDirnode dir d) o hv
  exact ⟨hobjects, hdirnodes.trans (update_of_ne hv ..)⟩

theorem save_rootUuid (s : Fs) (o : Outcome) (dir : Uuid) (d : Dirnode) :
    (s.save o dir d).1.rootUuid = s.rootUuid := storeDirnode_rootUuid ..

theorem save_table (s : Fs) (o : Outcome) (dir : Uuid) (d : Dirnode) :
    (s.save o dir d).1.table = s.table ∧ (s.save o dir d).1.storedTable = s.storedTable :=
  storeDirnode_table ..

theorem Sane.save (h : s.Sane) {d : Dirnode}
    (hd : ∀ n, s.dirnodes dir = some n → d.Tracks (s.storedDirnode dir))
    (hvalid : ∀ n, s.dirnodes dir = some n → n.isInvalid = false)
    (hmacs : s.FreshMacs o dir) : (s.save o dir d).1.Sane := by
  refine (h.modifyDirnode hd).storeDirnode hmacs ?_
  intro n hn
  simp only [Fs.modifyDirnode, update_self] at hn
  obtain ⟨m, hm, rfl⟩ := Option.map_eq_some_iff.mp hn
  exact hvalid m hm

/-- What a successful store of a copy leaves: memory and datastore show the
same directory. -/
structure Written (s : Fs) (dir : Uuid) (d : Dirnode) (c : Contents) : Prop where
  entries : c.entries = d.contents.entries
  links : c.links = d.contents.links
  view : s.dirView dir = some c
  stored : s.dirBuffered dir = some c

theorem dirBuffered_of_object {stored : StoredDirnode}
    (h : s.objects uuid = some (.dirnode stored)) :
    s.dirBuffered uuid = (dirnodeLoad stored).map Dirnode.contents := by
  simp only [dirBuffered, readDirnode, h]

theorem storeDirnode_written (hn : s.dirnodes dir = some n) (hvalid : n.isInvalid = false)
    (hdirty : n.isDirty = true) (hd : n.object.Tracks (s.storedDirnode dir))
    (hok : (s.storeDirnode o dir).2 = true) :
    ∃ c, (s.storeDirnode o dir).1.Written dir n.object c := by
  have hok' : (s.storeResult o dir n.object).2.2 = true := by
    by_contra hres
    simp [storeDirnode_of_failed hn hdirty (by simpa using hres)] at hok
  have hload := dirnodeLoad_store hd.storable hd.synced hok'
  have hstorable := dirnodeStore_storable hd.storable (o.store dir) (s.storedDirnode dir)
  have hobject : (s.storeDirnode o dir).1.objects dir
      = some (.dirnode (s.storeResult o dir n.object).2.1) := by
    rw [storeDirnode_of_ok hn hdirty hok']
    exact update_self ..
  have hcopy : (s.storeDirnode o dir).1.dirnodes dir
      = some { n with object := (s.storeResult o dir n.object).1, isDirty := false } := by
    rw [storeDirnode_of_ok hn hdirty hok']
    exact update_self ..
  refine ⟨(s.storeResult o dir n.object).1.contents, ?_, ?_, dirView_of_valid hcopy hvalid, ?_⟩
  · funext name
    simp only [Dirnode.contents, storeResult, dirnodeStore_lookup]
  · funext link
    simp only [Dirnode.contents, storeResult, dirnodeStore_getLink]
  · rw [dirBuffered_of_object hobject, storeResult, hload, Option.map_some,
      (reloaded_same hstorable.wf).contents]

theorem save_written (hn : s.dirnodes dir = some n) (hvalid : n.isInvalid = false) {d : Dirnode}
    (hd : d.Tracks (s.storedDirnode dir)) (hok : (s.save o dir d).2 = true) :
    ∃ c, (s.save o dir d).1.Written dir d c :=
  storeDirnode_written (modifyDirnode_self hn d) hvalid rfl hd hok

/-- Storing `d` touches no bucket of the directory as stored. -/
def Untouched (s : Fs) (o : Outcome) (dir : Uuid) (d : Dirnode) : Prop :=
  ∀ d₀, s.readDirnode o.bucket0 dir = some d₀ →
    ∀ b ∈ d₀.bucketList.drop 1, b.uuid ∉ touchedBuckets (o.store dir) d

theorem storeDirnode_failed_view (hn : s.dirnodes dir = some n) (hdirty : n.isDirty = true)
    (hfail : (s.storeResult o dir n.object).2.2 = false) :
    (s.storeDirnode o dir).1.dirView dir = (s.storeDirnode o dir).1.dirBuffered dir := by
  refine dirView_of_invalid ?_
  simp [storeDirnode_of_failed hn hdirty hfail]

/-- After a failed store the stored directory is as before if its buckets were
not touched, and cannot be read otherwise. -/
theorem storeDirnode_failed_stored (h : s.Sane) (hmacs : s.FreshMacs o dir)
    (hn : s.dirnodes dir = some n) (hdirty : n.isDirty = true) (hd : n.object.bucketList ≠ [])
    (hfail : (s.storeResult o dir n.object).2.2 = false) {c : Contents} :
    (s.storeDirnode o dir).1.dirBuffered dir = some c ↔
      s.dirBuffered dir = some c ∧ s.Untouched o dir n.object := by
  have heq := storeDirnode_of_failed hn hdirty hfail
  rcases objectsOfFailed_cases s dir (s.storeResult o dir n.object).2.1 with
    ⟨old, hold, hobjects⟩ | ⟨hnone, hobjects⟩
  · have hobject : (s.storeDirnode o dir).1.objects dir
        = some (.dirnode (s.storeResult o dir n.object).2.1) := by
      simp [heq, hobjects]
    obtain ⟨d₀, hd₀⟩ := h.stored dir old hold
    rw [dirBuffered_of_object hobject, dirBuffered_of_object hold, Untouched]
    simp only [readDirnode, hold]
    rw [storeResult, storedDirnode_of_object hold] at hfail ⊢
    have hload (d' : Dirnode) :
        dirnodeLoad (dirnodeStore (o.store dir) n.object old).2.1 = some d' ↔ _ :=
      hd₀.load_store_iff (hmacs old d₀ hold hd₀) hd hfail
    simp only [Option.map_eq_some_iff, hload]
    constructor
    · rintro ⟨d', ⟨hd', huntouched⟩, hc⟩
      refine ⟨⟨d', hd', hc⟩, fun d₁ hd₁ => ?_⟩
      cases hd'.symm.trans hd₁
      exact huntouched
    · rintro ⟨⟨d', hd', hc⟩, huntouched⟩
      exact ⟨d', ⟨hd', huntouched d' hd'⟩, hc⟩
  · have hsame : (s.storeDirnode o dir).1.objects dir = s.objects dir := by rw [heq, hobjects]
    rw [dirBuffered_congr (storeDirnode_rootUuid ..) hsame, iff_self_and]
    intro _ d₀ hread
    -- the object was never stored, so there are no buckets to touch
    unfold readDirnode at hread
    split at hread
    · cases hread
      simp [dirnodeCreate]
    next stored hstored =>
      exact absurd hstored (hnone stored)
    · contradiction

theorem getDirnode_ends (s : Fs) (o : Outcome) (get : Bool) (dir : Uuid) :
    (s.available o get dir = none ∧ s.getDirnode o get dir = (s, none)) ∨
      ∃ n, s.available o get dir = some n.object ∧ s.dirNode o.bucket0 dir = some n ∧
        s.getDirnode o get dir = (s.withCopy dir n, some n.object) := by
  rcases getDirnode_cases s o get dir with ⟨hnone, heq⟩ | ⟨n, hget, hnode, heq⟩
  · exact .inl ⟨hnone, heq⟩
  · exact .inr ⟨n, by simp [available, hget, hnode], hnode, heq⟩

theorem lockDirnode_ends (s : Fs) (o : Outcome) (get : Bool) (dir : Uuid) :
    (s.available o get dir = none ∧
        s.lockDirnode o get dir = (s.mayLeave o (.dir dir), none)) ∨
      ∃ n, s.available o get dir = some n.object ∧ s.dirNode o.bucket0 dir = some n ∧
        s.lockDirnode o get dir = (s.withCopy dir n, some n.object) := by
  rcases getDirnode_ends s o get dir with ⟨hnone, heq⟩ | ⟨n, havail, hnode, heq⟩
  · exact .inl ⟨hnone, by rw [lockDirnode, heq]⟩
  · exact .inr ⟨n, havail, hnode, by rw [lockDirnode, heq]⟩

/-- The result of a call that ends with a store. -/
def stored {α : Type} (r : Fs × Bool) (value : α) : Fs × Result α :=
  (r.1, if r.2 then .ok value else .error)

theorem stored_eq {α : Type} (r : Fs × Bool) (value : α) :
    (match r with
      | (s, true) => (s, Result.ok value)
      | (s, false) => (s, .error)) = stored r value := by
  obtain ⟨s, _ | _⟩ := r <;> rfl

/-- Nothing that can be seen has changed. -/
structure Idle (s s' : Fs) : Prop where
  rootUuid : s'.rootUuid = s.rootUuid
  unaffected : s.Unaffected s'
  sane : s.Sane → s'.Sane
  copies : s.CopiesShown → s'.CopiesShown

theorem Idle.trans {s'' : Fs} (h : s.Idle s') (h' : s'.Idle s'') : s.Idle s'' :=
  ⟨h'.rootUuid.trans h.rootUuid, h.unaffected.trans h'.unaffected, h'.sane ∘ h.sane,
    h'.copies ∘ h.copies⟩

/-- What is left locked cannot be seen. -/
theorem withLeftover_idle (s : Fs) (leftover : Lock → Bool) : s.Idle { s with leftover } :=
  ⟨rfl, ⟨rfl, rfl, rfl, rfl, fun _ => rfl, fun _ => rfl, fun _ => rfl, rfl⟩,
    fun h => h.of_eq rfl rfl, fun h => ⟨h.dirs, h.files, h.table⟩⟩

theorem leave_idle (s : Fs) (l : Lock) : s.Idle (s.leave l) := s.withLeftover_idle _

theorem mayLeave_idle (s : Fs) (o : Outcome) (l : Lock) : s.Idle (s.mayLeave o l) :=
  s.withLeftover_idle _

theorem withCopy_idle {bucket0 : Uuid → Uuid} (h : s.dirNode bucket0 dir = some n) :
    s.Idle (s.withCopy dir n) := by
  have hself : (s.withCopy dir n).dirView dir = some n.object.contents :=
    dirView_of_valid withCopy_self (dirNode_valid h)
  have hother (v : Uuid) (hv : v ≠ dir) : (s.withCopy dir n).dirView v = s.dirView v :=
    dirView_congr rfl rfl (withCopy_of_ne hv)
  refine ⟨rfl, ⟨rfl, rfl, rfl, rfl, fun _ => rfl, ?_, fun _ => rfl, rfl⟩,
    fun hs => hs.cache (hs.dirNode h), fun hs => ⟨?_, hs.files, hs.table⟩⟩
  · intro v
    by_cases hv : v = dir
    · rw [hv, hself, dirView_eq_of_dirNode h]
    · exact hother v hv
  · intro v m hm
    by_cases hv : v = dir
    · subst hv
      cases withCopy_self.symm.trans hm
      exact hself
    · rw [hother v hv]
      exact hs.dirs v m ((withCopy_of_ne hv).symm.trans hm)

theorem findByName_idle (hn : s.dirnodes dir = some n) (hvalid : n.isInvalid = false)
    (name : Name) : s.Idle (s.setDirnode dir (findByName n.object name).1) := by
  have hunaffected := findByName_setDirnode_unaffected hn name
  refine ⟨rfl, hunaffected, ?_, fun hs => ⟨?_, hs.files, hs.table⟩⟩
  · intro hs
    refine hs.setDirnode ?_
    intro m hm
    exact (hs.cached dir n hn hvalid).findByName name
  · intro v m hm
    rw [hunaffected.dirs]
    by_cases hv : v = dir
    · subst hv
      simp only [setDirnode, update_self, hn, Option.map_some, Option.some.injEq] at hm
      rw [dirView_of_valid hn hvalid, ← hm, contents_findByName]
    · exact hs.dirs v m ((update_of_ne hv ..).symm.trans hm)

theorem lookup_idle (hnode : s.dirNode o.bucket0 dir = some n) (name : Name) :
    s.Idle (s.withCopy dir { n with object := (findByName n.object name).1 }) := by
  have hfind := findByName_idle (s := s.withCopy dir n) withCopy_self (dirNode_valid hnode) name
  rw [setDirnode_withCopy] at hfind
  exact (withCopy_idle hnode).trans hfind

theorem findByName_of_snd {d : Dirnode} {name : Name} {found : Option DirEntry}
    (h : (findByName d name).2 = found) : findByName d name = ((findByName d name).1, found) :=
  Prod.ext rfl h

/-- The ways to end for a call that adds the entry of a new object. -/
def AddEnds (o : Outcome) (s : Fs) (dir : Uuid) (type : DirentType)
    (add : Dirnode → Dirnode × Bool) (r : Fs × Result Uuid) : Prop :=
  (r.2 = .error ∧ s.Idle r.1) ∨
    ∃ n, s.dirNode o.bucket0 dir = some n ∧
      let s₁ := (s.withCopy dir n).withObject o.entryUuid type
      ((add n.object).2 = false ∧ r = (s₁.setDirnode dir (add n.object).1, .error) ∨
        (add n.object).2 = true ∧ r = stored (s₁.save o dir (add n.object).1) o.entryUuid)

section

variable (o : Outcome) (s : Fs) (dir : Uuid)

theorem ecallFsCreate_ends (name : Name) (type : DirentType) :
    AddEnds o s dir type (dirnodeAdd · name type o.entryUuid o.bucketUuid)
      (s.ecallFsCreate o dir name type) := by
  unfold ecallFsCreate AddEnds
  rcases lockDirnode_ends s o o.getFirst dir with ⟨-, heq⟩ | ⟨n, -, hnode, heq⟩ <;> rw [heq]
  · exact .inl ⟨rfl, mayLeave_idle ..⟩
  have hidle := withCopy_idle hnode
  dsimp only
  split
  · exact .inl ⟨rfl, hidle⟩
  split
  · exact .inl ⟨rfl, hidle⟩
  refine .inr ⟨n, hnode, ?_⟩
  generalize dirnodeAdd n.object name type o.entryUuid o.bucketUuid = r
  obtain ⟨d, _ | _⟩ := r
  · exact .inl ⟨rfl, rfl⟩
  · exact .inr ⟨rfl, stored_eq ..⟩

theorem ecallFsSymlink_ends (name : Name) (target : Bytes) :
    AddEnds o s dir .lnk (dirnodeAddLink · name target o.entryUuid o.bucketUuid)
      (s.ecallFsSymlink o dir name target) := by
  unfold ecallFsSymlink AddEnds
  rcases lockDirnode_ends s o o.getFirst dir with ⟨-, heq⟩ | ⟨n, -, hnode, heq⟩ <;> rw [heq]
  · exact .inl ⟨rfl, mayLeave_idle ..⟩
  dsimp only
  split
  · exact .inl ⟨rfl, withCopy_idle hnode⟩
  refine .inr ⟨n, hnode, ?_⟩
  generalize dirnodeAddLink n.object name target o.entryUuid o.bucketUuid = r
  obtain ⟨d, _ | _⟩ := r
  · exact .inl ⟨rfl, rfl⟩
  · exact .inr ⟨rfl, stored_eq ..⟩

theorem ecallFsRemove_ends (name : Name) :
    let r := s.ecallFsRemove o dir name
    (r.2 = .error ∧ s.Idle r.1) ∨
      ∃ n e, s.dirNode o.bucket0 dir = some n ∧ (findByName n.object name).2 = some e ∧
        let d := (findByName n.object name).1
        let removed := removeObject o (s.withCopy dir { n with object := d }) e
        (removed.2.1 = false ∧ r = (removed.1, .error) ∨
          removed.2.1 = true ∧ r = stored (removed.1.save o dir (dirnodeDelDirentry d e))
            { uuid := e.linkUuid, type := e.type, shouldRemove := removed.2.2 }) := by
  unfold ecallFsRemove
  rcases lockDirnode_ends s o o.getFirst dir with ⟨-, heq⟩ | ⟨n, -, hnode, heq⟩ <;> rw [heq]
  · exact .inl ⟨rfl, mayLeave_idle ..⟩
  have hidle := withCopy_idle hnode
  dsimp only
  split
  · exact .inl ⟨rfl, hidle⟩
  have hfind := findByName_idle (s := s.withCopy dir n) withCopy_self (dirNode_valid hnode) name
  cases hfound : (findByName n.object name).2 with
  | none =>
    left
    rw [findByName_of_snd hfound]
    exact ⟨rfl, hidle.trans hfind⟩
  | some e =>
    refine .inr ⟨n, e, hnode, hfound, ?_⟩
    rw [findByName_of_snd hfound]
    dsimp only
    rw [setDirnode_withCopy]
    generalize removeObject o _ e = removed
    obtain ⟨s₂, _ | _, shouldRemove⟩ := removed
    · exact .inl ⟨rfl, rfl⟩
    · exact .inr ⟨rfl, stored_eq ..⟩

theorem renameWithin_ends (oldname newname : Name) :
    let r := renameWithin o s dir oldname newname
    (s.available o o.getFirst dir = none ∧ r.2 = .error ∧ s.Idle r.1) ∨
      ∃ n, s.available o o.getFirst dir = some n.object ∧ s.dirNode o.bucket0 dir = some n ∧
        match dirnodeRenameWithin n.object oldname newname o.bucketUuid with
        | (d, .notFound) => r = (s.withCopy dir { n with object := d }, .error)
        | (d, .undefined) => r = (s.withCopy dir { n with object := d }, .undefined)
        | (d, .renamed moved _) => r = stored ((s.withCopy dir n).save o dir d) moved.linkUuid := by
  unfold renameWithin
  rcases lockDirnode_ends s o o.getFirst dir with ⟨hnone, heq⟩ | ⟨n, havail, hnode, heq⟩ <;> rw [heq]
  · exact .inl ⟨hnone, rfl, mayLeave_idle ..⟩
  refine .inr ⟨n, havail, hnode, ?_⟩
  dsimp only
  rcases dirnodeRenameWithin n.object oldname newname o.bucketUuid with ⟨d, _ | _ | _⟩
  · exact congrArg (·, Result.error) (setDirnode_withCopy ..)
  · exact congrArg (·, Result.undefined) (setDirnode_withCopy ..)
  · exact stored_eq ..

end

/-- The copy of another directory does not matter for a read. -/
theorem dirNode_withCopy_of_ne (h : v ≠ dir) (bucket0 : Uuid → Uuid) :
    (s.withCopy dir n).dirNode bucket0 v = s.dirNode bucket0 v := by
  rw [dirNode, withCopy_of_ne h]
  rfl

theorem available_withCopy_of_ne (h : v ≠ dir) (get : Bool) :
    (s.withCopy dir n).available o get v = s.available o get v := by
  rw [available, dirNode_withCopy_of_ne h]
  rfl

theorem renameAcross_ends (o : Outcome) (s : Fs) {fromDir toDir : Uuid} (hne : fromDir ≠ toDir)
    (oldname newname : Name) :
    let r := renameAcross o s fromDir oldname toDir newname
    ((s.available o o.getFirst fromDir = none ∨ s.available o o.getSecond toDir = none) ∧
        r.2 = .error ∧ s.Idle r.1) ∨
      ∃ n m, (s.available o o.getFirst fromDir = some n.object ∧
          s.available o o.getSecond toDir = some m.object) ∧
        s.dirNode o.bucket0 fromDir = some n ∧ s.dirNode o.bucket0 toDir = some m ∧
        match dirnodeRenameAcross n.object m.object oldname newname o.bucketUuid with
        | (src, dst, .renamed moved _) =>
          let s₁ := (s.withCopy fromDir n).withCopy toDir { m with object := dst, isDirty := true }
          ((s₁.save o fromDir src).2 = false ∧ r = ((s₁.save o fromDir src).1, .error)) ∨
            ((s₁.save o fromDir src).2 = true ∧
              r = stored ((s₁.save o fromDir src).1.storeDirnode o toDir) moved.linkUuid)
        | (src, dst, _) =>
          r = ((s.withCopy fromDir { n with object := src }).withCopy toDir
            { m with object := dst }, .error) := by
  unfold renameAcross
  rcases lockDirnode_ends s o o.getFirst fromDir with
    ⟨hnone, heq⟩ | ⟨n, havail, hnode, heq⟩ <;> rw [heq]
  · refine .inl ⟨.inl hnone, ?_⟩
    have hleft := mayLeave_idle s o (.dir fromDir)
    dsimp only
    rcases lockDirnode_ends (s.mayLeave o (.dir fromDir)) o o.getSecond toDir with
      ⟨-, heq'⟩ | ⟨m, -, hnode', heq'⟩ <;> rw [heq']
    · exact ⟨rfl, hleft.trans (mayLeave_idle ..)⟩
    · exact ⟨rfl, hleft.trans ((withCopy_idle hnode').trans (leave_idle ..))⟩
  dsimp only
  rcases lockDirnode_ends (s.withCopy fromDir n) o o.getSecond toDir with
    ⟨hnone, heq'⟩ | ⟨m, havail', hnode', heq'⟩
  · rw [heq']
    rw [available_withCopy_of_ne hne.symm] at hnone
    exact .inl ⟨.inr hnone, rfl, (withCopy_idle hnode).trans (mayLeave_idle ..)⟩
  rw [heq']
  rw [available_withCopy_of_ne hne.symm] at havail'
  rw [dirNode_withCopy_of_ne hne.symm] at hnode'
  refine .inr ⟨n, m, ⟨havail, havail'⟩, hnode, hnode', ?_⟩
  have hset (src dst : Dirnode) :
      (((s.withCopy fromDir n).withCopy toDir m).setDirnode fromDir src).setDirnode toDir dst =
        (s.withCopy fromDir { n with object := src }).withCopy toDir { m with object := dst } := by
    rw [setDirnode_withCopy_of_ne _ hne, setDirnode_withCopy, setDirnode_withCopy]
  have hmodify (src dst : Dirnode) :
      (((s.withCopy fromDir n).withCopy toDir m).modifyDirnode fromDir src).modifyDirnode toDir dst
        = ((s.withCopy fromDir n).withCopy toDir
          { m with object := dst, isDirty := true }).modifyDirnode fromDir src := by
    rw [modifyDirnode_withCopy_of_ne _ hne, modifyDirnode_withCopy,
      modifyDirnode_withCopy_of_ne _ hne]
  dsimp only
  rcases dirnodeRenameAcross n.object m.object oldname newname o.bucketUuid with
    ⟨src, dst, _ | _ | ⟨moved, _⟩⟩
  · exact congrArg (·, Result.error) (hset src dst)
  · exact congrArg (·, Result.error) (hset src dst)
  · dsimp only
    rw [hmodify]
    unfold save
    generalize storeDirnode _ o fromDir = stored₁
    obtain ⟨s₂, _ | _⟩ := stored₁
    · exact .inl ⟨rfl, rfl⟩
    · refine .inr ⟨rfl, ?_⟩
      dsimp only
      generalize s₂.storeDirnode o toDir = stored₂
      obtain ⟨s₃, _ | _⟩ := stored₂ <;> rfl

/-- The ways to end for `ecall_fs_hardlink` once the entry `e` of the target is
found, from a state `s₁` with both copies, of which `link` is the one that gets
the new entry. -/
def LinkEnds (o : Outcome) (s₁ : Fs) (linkDir : Uuid) (linkName : Name) (targetDir : Uuid)
    (link : Dirnode) (e : DirEntry) (r : Fs × Result Uuid) : Prop :=
  let counted := countLink o s₁ e.linkUuid
  let add := dirnodeAdd link linkName .reg e.linkUuid o.bucketUuid
  (counted.2 = false ∧ r = (counted.1, .error)) ∨
    (counted.2 = true ∧
      (add.2 = false ∧ r = (counted.1.setDirnode linkDir add.1, .error) ∨
        add.2 = true ∧
          r = stored ((counted.1.modifyDirnode linkDir add.1).storeDirnode o targetDir)
            e.linkUuid))

theorem countLink_dirnodes (o : Outcome) (s : Fs) (uuid : Uuid) :
    (countLink o s uuid).1.dirnodes = s.dirnodes ∧
      (countLink o s uuid).1.objects = s.objects ∧
      (countLink o s uuid).1.rootUuid = s.rootUuid := by
  rcases countLink_cases s o uuid with ⟨-, heq⟩ | ⟨-, -, heq⟩ | ⟨-, -, heq⟩ <;> rw [heq] <;>
    exact ⟨rfl, rfl, rfl⟩

theorem nxsFsHardlink_ends {targetDir linkDir : Uuid} {n l : Node Dirnode}
    (hn : s.dirnodes targetDir = some n) (hvalid : n.isInvalid = false) (linkName targetName : Name)
    (hl : (s.setDirnode targetDir (findByName n.object targetName).1).dirnodes linkDir = some l)
    (r : Fs × Result Uuid)
    (hr : r = match nxsFsHardlink o s linkDir linkName targetDir n.object targetName with
      | (s, none) => (s, .error)
      | (s, some uuid) =>
        match s.storeDirnode o targetDir with
        | (s, true) => (s, .ok uuid)
        | (s, false) => (s, .error)) :
    (r.2 = .error ∧ s.Idle r.1) ∨
      ∃ e, (findByName n.object targetName).2 = some e ∧ e.type = .reg ∧
        LinkEnds o (s.setDirnode targetDir (findByName n.object targetName).1) linkDir linkName
          targetDir l.object e r := by
  have hidle := findByName_idle hn hvalid targetName
  unfold nxsFsHardlink at hr
  cases hfound : (findByName n.object targetName).2 with
  | none =>
    rw [findByName_of_snd hfound] at hr
    rw [hr]
    exact .inl ⟨rfl, hidle⟩
  | some e =>
    rw [findByName_of_snd hfound] at hr
    dsimp only at hr
    by_cases htype : e.type = .reg
    · refine .inr ⟨e, rfl, htype, ?_⟩
      rw [if_neg (by simpa using htype)] at hr
      have hframe := countLink_dirnodes o
        (s.setDirnode targetDir (findByName n.object targetName).1) e.linkUuid
      rw [← hframe.1] at hl
      unfold LinkEnds
      generalize countLink o _ e.linkUuid = counted at hr hl
      obtain ⟨s₂, _ | _⟩ := counted
      · exact .inl ⟨rfl, hr⟩
      · refine .inr ⟨rfl, ?_⟩
        dsimp only at hr hl ⊢
        rw [hl] at hr
        dsimp only at hr
        generalize dirnodeAdd l.object linkName .reg e.linkUuid o.bucketUuid = add at hr
        obtain ⟨d, _ | _⟩ := add
        · exact .inl ⟨rfl, hr⟩
        · exact .inr ⟨rfl, hr.trans (stored_eq ..)⟩
    · rw [if_pos htype] at hr
      rw [hr]
      exact .inl ⟨rfl, hidle⟩

theorem ecallFsHardlink_ends_within (o : Outcome) (s : Fs) (dir : Uuid)
    (linkName targetName : Name) :
    let r := s.ecallFsHardlink o dir linkName dir targetName
    (r.2 = .error ∧ s.Idle r.1) ∨
      ∃ n e, s.dirNode o.bucket0 dir = some n ∧ (findByName n.object targetName).2 = some e ∧
        e.type = .reg ∧
        let d := (findByName n.object targetName).1
        LinkEnds o (s.withCopy dir { n with object := d }) dir linkName dir d e r := by
  unfold ecallFsHardlink
  rcases lockDirnode_ends s o o.getFirst dir with ⟨-, heq⟩ | ⟨n, -, hnode, heq⟩ <;> rw [heq]
  · exact .inl ⟨rfl, mayLeave_idle ..⟩
  have hidle := withCopy_idle hnode
  simp only [if_true]
  have hset := setDirnode_withCopy s dir n (findByName n.object targetName).1
  rcases nxsFsHardlink_ends withCopy_self (dirNode_valid hnode) linkName targetName
    (by rw [hset]; exact withCopy_self) _ rfl with ⟨herror, htail⟩ | ⟨e, he, htype, hends⟩
  · exact .inl ⟨herror, hidle.trans htail⟩
  · rw [hset] at hends
    exact .inr ⟨n, e, hnode, he, htype, hends⟩

theorem ecallFsHardlink_ends_across (o : Outcome) (s : Fs) {linkDir targetDir : Uuid}
    (hne : linkDir ≠ targetDir) (linkName targetName : Name) :
    let r := s.ecallFsHardlink o linkDir linkName targetDir targetName
    (r.2 = .error ∧ s.Idle r.1) ∨
      ∃ n m e, s.dirNode o.bucket0 targetDir = some n ∧ s.dirNode o.bucket0 linkDir = some m ∧
        (findByName n.object targetName).2 = some e ∧ e.type = .reg ∧
        let d := (findByName n.object targetName).1
        LinkEnds o ((s.withCopy targetDir { n with object := d }).withCopy linkDir m) linkDir
          linkName targetDir m.object e r := by
  unfold ecallFsHardlink
  rcases lockDirnode_ends s o o.getFirst targetDir with ⟨-, heq⟩ | ⟨n, -, hnode, heq⟩ <;> rw [heq]
  · exact .inl ⟨rfl, mayLeave_idle ..⟩
  have hidle := withCopy_idle hnode
  simp only [hne, if_false]
  rcases getDirnode_ends (s.withCopy targetDir n) o o.getSecond linkDir with
    ⟨-, heq'⟩ | ⟨m, -, hnode', heq'⟩
  · rw [heq']
    exact .inl ⟨rfl, hidle⟩
  have hidle' := hidle.trans (withCopy_idle hnode')
  rw [heq']
  rw [dirNode_withCopy_of_ne hne] at hnode'
  have hset : ((s.withCopy targetDir n).withCopy linkDir m).setDirnode targetDir
        (findByName n.object targetName).1 =
      (s.withCopy targetDir { n with object := (findByName n.object targetName).1 }).withCopy
        linkDir m := by
    rw [setDirnode_withCopy_of_ne _ hne.symm, setDirnode_withCopy]
  have hn : ((s.withCopy targetDir n).withCopy linkDir m).dirnodes targetDir = some n := by
    rw [withCopy_of_ne hne.symm, withCopy_self]
  rcases nxsFsHardlink_ends hn (dirNode_valid hnode) linkName targetName
    (by rw [hset]; exact withCopy_self) _ rfl with ⟨herror, htail⟩ | ⟨e, he, htype, hends⟩
  · exact .inl ⟨herror, hidle'.trans htail⟩
  · rw [hset] at hends
    exact .inr ⟨n, m, e, hnode, hnode', he, htype, hends⟩

/-! ## Removing an object -/

/-- How `__remove_filenode` ends: without a table, with the object deleted, or
with one link less and the table stored or not. -/
theorem removeFilenode_ends (o : Outcome) (s : Fs) (uuid : Uuid) :
    removeFilenode o s uuid = (s.mayLeave o .table, false, true) ∨
      ∃ n : Node HardlinkTable, n.isInvalid = false ∧ n.object = s.tableView ∧
        ((s.tableView.containsUuid uuid = false ∧
            removeFilenode o s uuid = (delete { s with table := some n } o uuid, true, true)) ∨
          (s.tableView.containsUuid uuid = true ∧
            let (t, linkCount) := s.tableView.decrUuid uuid
            let s₁ := if linkCount = 0 then s.delete o uuid else s
            removeFilenode o s uuid =
              if o.tableFlush then (s₁.withTable o t, true, decide (linkCount = 0))
              else (s₁.withLostTable t, false, decide (linkCount = 0)))) := by
  unfold removeFilenode
  rcases acquireTable_cases s o with ⟨-, heq⟩ | ⟨n, -, hvalid, hobject, heq⟩ <;> rw [heq]
  · exact .inl rfl
  refine .inr ⟨n, hvalid, hobject, ?_⟩
  dsimp only
  rw [hobject]
  cases hcontains : s.tableView.containsUuid uuid with
  | false => exact .inl ⟨rfl, rfl⟩
  | true =>
    refine .inr ⟨rfl, ?_⟩
    generalize s.tableView.decrUuid uuid = decr
    obtain ⟨t, linkCount⟩ := decr
    have hflushed (s' : Fs) (hs' : s'.table = some n) := flushTable_modified hs' hvalid o t
    dsimp only
    by_cases hzero : linkCount = 0
    · have hdelete : (({ s with table := some n } : Fs).modifyTable t).delete o uuid
          = (({ s.delete o uuid with table := some n } : Fs).modifyTable t) := rfl
      rw [if_pos hzero, if_pos hzero, hdelete, hflushed _ rfl]
      cases o.tableFlush <;> simp [hzero] <;> rfl
    · rw [if_neg hzero, if_neg hzero, hflushed _ rfl]
      cases o.tableFlush <;> simp [hzero] <;> rfl

/-- Either no directory is touched or the object is deleted. -/
theorem removeObject_frame (o : Outcome) (s : Fs) (e : DirEntry) :
    (removeObject o s e).1.rootUuid = s.rootUuid ∧
      ((removeObject o s e).1.objects = s.objects ∧
          (removeObject o s e).1.dirnodes = s.dirnodes ∨
        (removeObject o s e).1.objects = (s.delete o e.linkUuid).objects ∧
          (removeObject o s e).1.dirnodes = (s.delete o e.linkUuid).dirnodes) := by
  unfold removeObject
  cases e.type with
  | lnk => exact ⟨rfl, .inl ⟨rfl, rfl⟩⟩
  | dir => exact ⟨rfl, .inr ⟨rfl, rfl⟩⟩
  | reg =>
    dsimp only
    rcases removeFilenode_ends o s e.linkUuid with heq | ⟨n, -, -, ⟨-, heq⟩ | ⟨-, heq⟩⟩
    · rw [heq]
      exact ⟨rfl, .inl ⟨rfl, rfl⟩⟩
    · rw [heq]
      exact ⟨rfl, .inr ⟨rfl, rfl⟩⟩
    · generalize s.tableView.decrUuid e.linkUuid = decr at heq
      obtain ⟨t, linkCount⟩ := decr
      dsimp only at heq
      rw [heq]
      by_cases hzero : linkCount = 0
      · simp only [if_pos hzero]
        split <;> exact ⟨rfl, .inr ⟨rfl, rfl⟩⟩
      · simp only [if_neg hzero]
        split <;> exact ⟨rfl, .inl ⟨rfl, rfl⟩⟩

theorem removeObject_objects {e : DirEntry} {object : Object}
    (h : (removeObject o s e).1.objects v = some object) : s.objects v = some object := by
  rcases (removeObject_frame o s e).2 with ⟨hobjects, -⟩ | ⟨hobjects, -⟩
  · rwa [hobjects] at h
  · rw [hobjects] at h
    by_cases hv : v = e.linkUuid
    · subst hv
      unfold delete at h
      dsimp only at h
      split at h
      · simp [update_self] at h
      · exact h
    · rwa [delete_objects s o hv] at h

theorem removeObject_copy {e : DirEntry} {m : Node Dirnode}
    (hm : (removeObject o (s.withCopy dir n) e).1.dirnodes dir = some m) :
    m = n ∧ (removeObject o (s.withCopy dir n) e).1.objects dir = s.objects dir := by
  rcases (removeObject_frame o (s.withCopy dir n) e).2 with
    ⟨hobjects, hdirnodes⟩ | ⟨hobjects, hdirnodes⟩
  · rw [hdirnodes, withCopy_self, Option.some.injEq] at hm
    exact ⟨hm.symm, congrFun hobjects dir⟩
  · by_cases hself : dir = e.linkUuid
    · rw [hdirnodes, hself, show (delete _ o e.linkUuid).dirnodes e.linkUuid = none from
        update_self ..] at hm
      contradiction
    · rw [hdirnodes, show (delete _ o e.linkUuid).dirnodes dir = (s.withCopy dir n).dirnodes dir
        from update_of_ne hself .., withCopy_self, Option.some.injEq] at hm
      exact ⟨hm.symm, by rw [hobjects, delete_objects _ _ hself]; rfl⟩

end Fs

theorem mem_of_findByName {d : Dirnode} (h : d.WF) {name : Name} {e : DirEntry}
    (hfound : (findByName d name).2 = some e) : e ∈ (findByName d name).1.dirents := by
  obtain ⟨last, hframe⟩ := findByName_frame d name
  rw [findByName_result h.coherent] at hfound
  rw [hframe]
  exact (Dirnode.mem_of_lookup hfound).1

end Nexus
