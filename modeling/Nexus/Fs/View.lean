import Nexus.Dirnode.Entries
import Nexus.Fs.Ecalls

/-!
# What a volume shows

The enclave works on its cached copy of an object while it is valid and on the
stored object otherwise.  Reading an object into the cache therefore changes
nothing that can be seen.
-/

open Function Option

namespace Nexus

theorem readNode_valid {α : Type} {read : Option α} {old : Option (Node α)} {n : Node α}
    (h : readNode read old = some n) : n.isInvalid = false := by
  unfold readNode at h
  split at h
  · obtain ⟨d, -, rfl⟩ := map_eq_some_iff.mp h
    rfl
  · split at h
    · obtain ⟨d, -, rfl⟩ := map_eq_some_iff.mp h
      rfl
    next hvalid =>
      cases h
      simpa using hvalid

namespace Fs

variable {s s' s'' : Fs} {o : Outcome} {uuid v : Uuid}

/-- The node that a read of a directory gives. -/
def dirNode (s : Fs) (bucket0 : Uuid → Uuid) (uuid : Uuid) : Option (Node Dirnode) :=
  readNode (s.readDirnode bucket0 uuid) (s.dirnodes uuid)

/-- The contents of a directory, as the enclave sees them. -/
def dirView (s : Fs) (uuid : Uuid) : Option Contents :=
  (s.dirNode id uuid).map fun n => n.object.contents

/-- The contents of a directory as the buffer layer shows it. -/
def dirBuffered (s : Fs) (uuid : Uuid) : Option Contents :=
  (s.readDirnode id uuid).map Dirnode.contents

/-- The contents of a directory in the datastore. -/
def dirStored (s : Fs) (uuid : Uuid) : Option Contents := s.atDisk.dirBuffered uuid

/-- A file as the enclave sees it. -/
def fileView (s : Fs) (uuid : Uuid) : Option Filenode :=
  (readNode (s.readFilenode uuid) (s.filenodes uuid)).map Node.object

/-- The hardlink table as the enclave sees it. -/
def tableView (s : Fs) : HardlinkTable :=
  match s.table with
  | none => s.storedTable
  | some n => if n.isInvalid then s.storedTable else n.object

/-! ## Reading does not show -/

variable {n : Node Dirnode}

theorem readDirnode_contents (s : Fs) (bucket0 bucket0' : Uuid → Uuid) (uuid : Uuid) :
    (s.readDirnode bucket0 uuid).map Dirnode.contents
      = (s.readDirnode bucket0' uuid).map Dirnode.contents := by
  unfold readDirnode
  split <;> rfl

theorem dirNode_contents (s : Fs) (bucket0 bucket0' : Uuid → Uuid) (uuid : Uuid) :
    (s.dirNode bucket0 uuid).map (fun n => n.object.contents)
      = (s.dirNode bucket0' uuid).map fun n => n.object.contents := by
  have hread := readDirnode_contents s bucket0 bucket0' uuid
  unfold dirNode readNode
  cases s.dirnodes uuid with
  | none =>
    rw [map_map, map_map]
    exact hread
  | some n =>
    dsimp only
    split
    · rw [map_map, map_map]
      exact hread
    · rfl

theorem dirView_eq_of_dirNode {bucket0 : Uuid → Uuid} (h : s.dirNode bucket0 uuid = some n) :
    s.dirView uuid = some n.object.contents := by
  rw [dirView, dirNode_contents s id bucket0, h]
  rfl

theorem dirView_eq_none_of_dirNode {bucket0 : Uuid → Uuid}
    (h : s.dirNode bucket0 uuid = none) : s.dirView uuid = none := by
  rw [dirView, dirNode_contents s id bucket0, h]
  rfl

/-- A valid cached copy is what is seen. -/
theorem dirView_of_valid (h : s.dirnodes uuid = some n) (hvalid : n.isInvalid = false) :
    s.dirView uuid = some n.object.contents := by
  have hnode : s.dirNode id uuid = some n := by
    simp [dirNode, readNode, h, hvalid]
  exact dirView_eq_of_dirNode hnode

/-- Without a valid copy the stored object is what is seen. -/
theorem dirView_of_invalid (h : ∀ n, s.dirnodes uuid = some n → n.isInvalid = true) :
    s.dirView uuid = s.dirBuffered uuid := by
  unfold dirView dirBuffered dirNode readNode
  cases hn : s.dirnodes uuid with
  | none =>
    rw [map_map]
    rfl
  | some n =>
    simp only [h n hn, if_true]
    rw [map_map]
    rfl

theorem dirView_congr (hroot : s'.rootUuid = s.rootUuid)
    (hobjects : s'.objects uuid = s.objects uuid) (hnodes : s'.dirnodes uuid = s.dirnodes uuid) :
    s'.dirView uuid = s.dirView uuid := by
  simp only [dirView, dirNode, readDirnode, hroot, hobjects, hnodes]

theorem dirBuffered_congr (hroot : s'.rootUuid = s.rootUuid)
    (hobjects : s'.objects uuid = s.objects uuid) : s'.dirBuffered uuid = s.dirBuffered uuid := by
  simp only [dirBuffered, readDirnode, hroot, hobjects]

/-! ## `nexus_vfs_get` -/

/-- The directory a call works on, if it can get it. -/
def available (s : Fs) (o : Outcome) (get : Bool) (uuid : Uuid) : Option Dirnode :=
  if get then (s.dirNode o.bucket0 uuid).map Node.object else none

/-- The two ways `nexus_vfs_get` ends. -/
theorem getDirnode_cases (s : Fs) (o : Outcome) (get : Bool) (uuid : Uuid) :
    (s.available o get uuid = none ∧ s.getDirnode o get uuid = (s, none)) ∨
      ∃ n, get = true ∧ s.dirNode o.bucket0 uuid = some n ∧
        s.getDirnode o get uuid =
          ({ s with dirnodes := update s.dirnodes uuid (some n) }, some n.object) := by
  unfold available getDirnode
  cases get with
  | false => exact .inl ⟨rfl, rfl⟩
  | true =>
    cases hn : s.dirNode o.bucket0 uuid <;> unfold dirNode at hn
    · simp [hn]
    · exact .inr ⟨_, rfl, rfl, by simp [hn]⟩

theorem lockDirnode_cases (s : Fs) (o : Outcome) (get : Bool) (uuid : Uuid) :
    (s.available o get uuid = none ∧
        s.lockDirnode o get uuid = (s.mayLeave o (.dir uuid), none)) ∨
      ∃ n, get = true ∧ s.dirNode o.bucket0 uuid = some n ∧
        s.lockDirnode o get uuid =
          ({ s with dirnodes := update s.dirnodes uuid (some n) }, some n.object) := by
  rcases getDirnode_cases s o get uuid with ⟨hnone, heq⟩ | ⟨n, hget, hnode, heq⟩
  · exact .inl ⟨hnone, by rw [lockDirnode, heq]⟩
  · exact .inr ⟨n, hget, hnode, by rw [lockDirnode, heq]⟩

theorem dirNode_valid {bucket0 : Uuid → Uuid} (h : s.dirNode bucket0 uuid = some n) :
    n.isInvalid = false := readNode_valid h

/-! ## `nexus_metadata_store` -/

/-- What storing the cached dirnode `d` does. -/
def storeResult (s : Fs) (o : Outcome) (uuid : Uuid) (d : Dirnode) :
    Dirnode × StoredDirnode × Bool :=
  dirnodeStore (o.store uuid) d (s.storedDirnode uuid)

/-- The objects after a failed store of a directory. -/
def objectsOfFailed (s : Fs) (uuid : Uuid) (stored : StoredDirnode) : Uuid → Option Object :=
  match s.objects uuid with
  | some (.dirnode _) => update s.objects uuid (some (.dirnode stored))
  | _ => s.objects

theorem storeDirnode_of_ok (h : s.dirnodes uuid = some n) (hdirty : n.isDirty = true)
    (hok : (s.storeResult o uuid n.object).2.2 = true) :
    s.storeDirnode o uuid =
      ({ s.diskStore o uuid n.object with
          objects := update s.objects uuid
            (some (.dirnode (s.storeResult o uuid n.object).2.1))
          dirnodes := update s.dirnodes uuid
            (some { n with object := (s.storeResult o uuid n.object).1, isDirty := false }) },
        true) := by
  unfold storeResult at hok
  simp [storeDirnode, storeResult, h, hdirty, hok]

theorem storeDirnode_of_failed (h : s.dirnodes uuid = some n) (hdirty : n.isDirty = true)
    (hfail : (s.storeResult o uuid n.object).2.2 = false) :
    s.storeDirnode o uuid =
      ({ s.diskStore o uuid n.object with
          objects := s.objectsOfFailed uuid (s.storeResult o uuid n.object).2.1
          dirnodes := update s.dirnodes uuid
            (some { n with object := (s.storeResult o uuid n.object).1, isInvalid := true }) },
        false) := by
  unfold storeResult at hfail
  simp only [storeDirnode, storeResult, objectsOfFailed, h, hdirty, hfail]
  rfl

theorem objectsOfFailed_cases (s : Fs) (uuid : Uuid) (stored : StoredDirnode) :
    (∃ old, s.objects uuid = some (.dirnode old) ∧
        s.objectsOfFailed uuid stored = update s.objects uuid (some (.dirnode stored))) ∨
      ((∀ old, s.objects uuid ≠ some (.dirnode old)) ∧
        s.objectsOfFailed uuid stored = s.objects) := by
  unfold objectsOfFailed
  split
  next old h => exact .inl ⟨old, h, rfl⟩
  next h => exact .inr ⟨h, rfl⟩

theorem storeDirnode_cases (s : Fs) (o : Outcome) (uuid : Uuid) :
    (s.storeDirnode o uuid).1 = s ∨ ∃ objects n' d, (s.storeDirnode o uuid).1 =
        { s.diskStore o uuid d with
          objects := objects, dirnodes := update s.dirnodes uuid (some n') } ∧
      (objects = s.objects ∨ ∃ stored, objects = update s.objects uuid (some (.dirnode stored))) := by
  unfold storeDirnode
  split
  · exact .inl rfl
  split
  · exact .inl rfl
  dsimp only
  split
  · exact .inr ⟨_, _, _, rfl, .inr ⟨_, rfl⟩⟩
  · refine .inr ⟨_, _, _, rfl, ?_⟩
    split
    · exact .inr ⟨_, rfl⟩
    · exact .inl rfl

theorem storeDirnode_rootUuid (s : Fs) (o : Outcome) (uuid : Uuid) :
    (s.storeDirnode o uuid).1.rootUuid = s.rootUuid := by
  obtain h | ⟨_, _, _, h, -⟩ := storeDirnode_cases s o uuid <;> rw [h] <;> rfl

/-- Storing does not touch the hardlink table. -/
theorem storeDirnode_table (s : Fs) (o : Outcome) (uuid : Uuid) :
    (s.storeDirnode o uuid).1.table = s.table ∧
      (s.storeDirnode o uuid).1.storedTable = s.storedTable := by
  obtain h | ⟨_, _, _, h, -⟩ := storeDirnode_cases s o uuid <;> rw [h] <;> exact ⟨rfl, rfl⟩

/-- Storing a directory leaves every other object alone. -/
theorem storeDirnode_frame (s : Fs) (o : Outcome) (hne : v ≠ uuid) :
    (s.storeDirnode o uuid).1.objects v = s.objects v ∧
      (s.storeDirnode o uuid).1.dirnodes v = s.dirnodes v := by
  obtain h | ⟨_, n', _, h, rfl | ⟨stored, rfl⟩⟩ := storeDirnode_cases s o uuid <;> simp [h, hne]

theorem storeDirnode_object (s : Fs) (o : Outcome) (uuid v : Uuid) :
    (s.storeDirnode o uuid).1.objects v = s.objects v ∨
      v = uuid ∧ ∃ stored, (s.storeDirnode o uuid).1.objects v = some (.dirnode stored) := by
  by_cases hv : v = uuid
  · subst hv
    obtain h | ⟨_, n', _, h, rfl | ⟨stored, rfl⟩⟩ := storeDirnode_cases s o v <;> simp [h]
  · exact .inl (storeDirnode_frame s o hv).1

/-! ## The hardlink table -/

/-- The two ways `nexus_vfs_acquire_hardlink_table` ends. -/
theorem acquireTable_cases (s : Fs) (o : Outcome) :
    (o.tableAcquire = false ∧ s.acquireTable o = (s.mayLeave o .table, none)) ∨
      ∃ n, o.tableAcquire = true ∧ n.isInvalid = false ∧ n.object = s.tableView ∧
        s.acquireTable o = ({ s with table := some n }, some n.object) := by
  unfold acquireTable tableView readNode
  cases o.tableAcquire with
  | false => exact .inl ⟨rfl, rfl⟩
  | true =>
    right
    cases s.table with
    | none => exact ⟨Node.clean s.storedTable, rfl, rfl, rfl, rfl⟩
    | some n =>
      cases hvalid : n.isInvalid with
      | true => exact ⟨Node.clean s.storedTable, rfl, rfl, by simp [Node.clean, hvalid],
          by simp [hvalid]⟩
      | false => exact ⟨n, rfl, hvalid, by simp [hvalid], by simp [hvalid]⟩

/-- The cached table `t` is stored. -/
def withTable (s : Fs) (o : Outcome) (t : HardlinkTable) : Fs :=
  { s with
    storedTable := t
    diskTable := if s.defers o .table then s.diskTable else t
    table := some (Node.clean t) }

/-- The cached table `t` could not be stored. -/
def withLostTable (s : Fs) (t : HardlinkTable) : Fs :=
  { s.leave .table with table := some { object := t, isDirty := true, isInvalid := true } }

theorem flushTable_modified {n : Node HardlinkTable} (hn : s.table = some n)
    (hvalid : n.isInvalid = false) (o : Outcome) (t : HardlinkTable) :
    (s.modifyTable t).flushTable o =
      if o.tableFlush then (s.withTable o t, true) else (s.withLostTable t, false) := by
  cases hflush : o.tableFlush with
  | true => simp [modifyTable, flushTable, withTable, hn, hflush, hvalid, Node.clean, defers]
  | false => simp [modifyTable, flushTable, withLostTable, leave, hn, hflush]

/-- How counting a new link ends: not at all, stored, or with an invalid copy. -/
theorem countLink_cases (s : Fs) (o : Outcome) (uuid : Uuid) :
    (o.tableAcquire = false ∧ countLink o s uuid = (s.mayLeave o .table, false)) ∨
      (o.tableAcquire = true ∧ o.tableFlush = true ∧
        countLink o s uuid = (s.withTable o (s.tableView.incrUuid uuid), true)) ∨
      (o.tableAcquire = true ∧ o.tableFlush = false ∧
        countLink o s uuid = (s.withLostTable (s.tableView.incrUuid uuid), false)) := by
  rcases acquireTable_cases s o with ⟨hacq, heq⟩ | ⟨n, hacq, hvalid, hobj, heq⟩
  · left
    simp [countLink, heq, hacq]
  · right
    have hflushed := flushTable_modified (s := { s with table := some n }) rfl hvalid o
      (s.tableView.incrUuid uuid)
    rw [countLink, heq]
    dsimp only
    rw [hobj, hflushed]
    cases hflush : o.tableFlush with
    | true => exact .inl ⟨hacq, rfl, rfl⟩
    | false => exact .inr ⟨hacq, rfl, rfl⟩

/-! ## Nothing to see -/

/-- No directory, file or hardlink-table state differs, neither in the datastore
nor in the buffer layer nor in what the enclave sees. -/
structure Unaffected (s s' : Fs) : Prop where
  objects : s'.objects = s.objects
  storedTable : s'.storedTable = s.storedTable
  disk : s'.disk = s.disk
  diskTable : s'.diskTable = s.diskTable
  pending : ∀ uuid, (s'.fileBuffers uuid).pending = (s.fileBuffers uuid).pending
  dirs : ∀ uuid, s'.dirView uuid = s.dirView uuid
  files : ∀ uuid, s'.fileView uuid = s.fileView uuid
  table : s'.tableView.getEntry = s.tableView.getEntry

theorem Unaffected.trans (h : s.Unaffected s') (h' : s'.Unaffected s'') : s.Unaffected s'' where
  objects := h'.objects.trans h.objects
  storedTable := h'.storedTable.trans h.storedTable
  disk := h'.disk.trans h.disk
  diskTable := h'.diskTable.trans h.diskTable
  pending uuid := (h'.pending uuid).trans (h.pending uuid)
  dirs uuid := (h'.dirs uuid).trans (h.dirs uuid)
  files uuid := (h'.files uuid).trans (h.files uuid)
  table := h'.table.trans h.table

/-- Every copy in the enclave, whether it is valid or not, holds what the enclave
sees. -/
structure CopiesShown (s : Fs) : Prop where
  dirs : ∀ uuid n, s.dirnodes uuid = some n → s.dirView uuid = some n.object.contents
  files : ∀ uuid n, s.filenodes uuid = some n → s.fileView uuid = some n.object
  table : ∀ n, s.table = some n → n.object.getEntry = s.tableView.getEntry

theorem setDirnode_unaffected {d : Dirnode}
    (h : ∀ n, s.dirnodes uuid = some n → d.contents = n.object.contents) :
    s.Unaffected (s.setDirnode uuid d) := by
  refine ⟨rfl, rfl, rfl, rfl, fun _ => rfl, ?_, fun _ => rfl, rfl⟩
  intro v
  by_cases hv : v = uuid
  · subst hv
    have hnode : (s.setDirnode v d).dirnodes v
        = (s.dirnodes v).map fun n => { n with object := d } := update_self ..
    cases hn : s.dirnodes v with
    | none => exact dirView_congr rfl rfl (by rw [hnode, hn]; rfl)
    | some n =>
      rw [hn, map_some] at hnode
      cases hvalid : n.isInvalid with
      | false =>
        rw [dirView_of_valid hnode hvalid, dirView_of_valid hn hvalid, ← h n hn]
      | true =>
        rw [dirView_of_invalid (s := s) (fun m hm => by rw [hn] at hm; cases hm; exact hvalid),
          dirView_of_invalid fun m hm => by rw [hnode] at hm; cases hm; exact hvalid]
        exact dirBuffered_congr rfl rfl
  · exact dirView_congr rfl rfl (update_of_ne hv ..)

/-- The two ways `nexus_vfs_get` of a file ends. -/
theorem getFilenode_cases (s : Fs) (o : Outcome) (uuid : Uuid) :
    ((∃ b, b.pending = (s.fileBuffers uuid).pending ∧
          s.getFilenode o uuid = ({ s with fileBuffers := update s.fileBuffers uuid b }, none)) ∧
        (o.getFirst = true → readNode (s.readFilenode uuid) (s.filenodes uuid) = none)) ∨
      ∃ n, o.getFirst = true ∧ readNode (s.readFilenode uuid) (s.filenodes uuid) = some n ∧
        s.getFilenode o uuid =
          ({ s with
              filenodes := update s.filenodes uuid (some n)
              fileBuffers := update s.fileBuffers uuid (s.fileBuffers uuid).lock },
            some n.object) := by
  have hpending : (if o.fileLeft then (s.fileBuffers uuid).lock else s.fileBuffers uuid).pending
      = (s.fileBuffers uuid).pending := by
    split <;> rfl
  unfold getFilenode
  cases o.getFirst with
  | false => exact .inl ⟨⟨_, hpending, rfl⟩, by simp⟩
  | true =>
    cases hn : readNode (s.readFilenode uuid) (s.filenodes uuid) with
    | none => exact .inl ⟨⟨_, hpending, by simp⟩, fun _ => rfl⟩
    | some n => exact .inr ⟨n, rfl, rfl, by simp⟩

section

variable (hroot : s'.rootUuid = s.rootUuid) (hobjects : s'.objects v = s.objects v)
  (hpending : (s'.fileBuffers v).pending = (s.fileBuffers v).pending)
include hroot hobjects hpending

theorem readFilenode_congr : s'.readFilenode v = s.readFilenode v := by
  simp only [readFilenode, hroot, hobjects, hpending]

theorem fileView_congr
    (hnode : readNode (s.readFilenode v) (s'.filenodes v)
      = readNode (s.readFilenode v) (s.filenodes v)) : s'.fileView v = s.fileView v := by
  rw [fileView, readFilenode_congr hroot hobjects hpending, hnode]
  rfl

end

theorem pending_update (s : Fs) (uuid v : Uuid) {b : FileBuffer}
    (h : b.pending = (s.fileBuffers uuid).pending) :
    (update s.fileBuffers uuid b v).pending = (s.fileBuffers v).pending := by
  by_cases hv : v = uuid
  · rw [hv, update_self, h]
  · rw [update_of_ne hv]

theorem unlock_pending (unlocked : Bool) (b : FileBuffer) :
    (b.unlock unlocked).pending = b.pending := by
  unfold FileBuffer.unlock
  split <;> rfl

theorem getFilenode_unaffected (s : Fs) (o : Outcome) (uuid : Uuid) :
    s.Unaffected (s.getFilenode o uuid).1 := by
  rcases getFilenode_cases s o uuid with ⟨⟨b, hb, heq⟩, -⟩ | ⟨n, -, hnode, heq⟩
  · rw [heq]
    exact ⟨rfl, rfl, rfl, rfl, fun v => pending_update s uuid v hb, fun _ => rfl,
      fun v => fileView_congr rfl rfl (pending_update s uuid v hb) rfl, rfl⟩
  · rw [heq]
    refine ⟨rfl, rfl, rfl, rfl, fun v => pending_update s uuid v rfl, fun _ => rfl, ?_, rfl⟩
    intro v
    refine fileView_congr rfl rfl (pending_update s uuid v rfl) ?_
    by_cases hv : v = uuid
    · subst hv
      dsimp only
      rw [update_self, hnode]
      simp [readNode, readNode_valid hnode]
    · dsimp only
      rw [update_of_ne hv]

theorem putFilenode_unaffected (s : Fs) (o : Outcome) (uuid : Uuid) :
    s.Unaffected (s.putFilenode o uuid) := by
  have hpending v := pending_update s uuid v (unlock_pending o.fileUnlock (s.fileBuffers uuid))
  exact ⟨rfl, rfl, rfl, rfl, hpending, fun _ => rfl,
    fun v => fileView_congr rfl rfl (hpending v) rfl, rfl⟩

theorem findByName_setDirnode_unaffected {dir : Uuid} (hn : s.dirnodes dir = some n) (name : Name) :
    s.Unaffected (s.setDirnode dir (findByName n.object name).1) := by
  refine setDirnode_unaffected fun m hm => ?_
  rw [hn] at hm
  cases hm
  exact contents_findByName n.object name

end Fs

end Nexus
