import Nexus.Fs.Durable
import Nexus.Fs.Rooted

/-!
# A volume and its namespace

A volume represents the namespace that the enclave shows while the datastore
says the same.  Calls that keep it so carry out one change of the namespace, or
none.
-/

open Function Option

namespace Nexus

/-- What an object was made for. -/
def Object.kind : Object → DirentType
  | .empty madeFor => madeFor
  | .dirnode _ => .dir
  | .filenode _ => .reg

/-- The entries of one directory are replaced. -/
def Namespace.withDir (a : Namespace) (dir : Uuid)
    (entries : Name → Option (DirentType × Uuid)) : Namespace :=
  { a with entry := fun place => if place.1 = dir then entries place.2 else a.entry place }

theorem Namespace.withDir_entry_update (a : Namespace) (dir : Uuid) (name : Name)
    (v : Option (DirentType × Uuid)) :
    (a.withDir dir (update (fun x => a.entry (dir, x)) name v)).entry
      = update a.entry (dir, name) v := by
  funext ⟨u, x⟩
  by_cases hu : u = dir <;> simp [withDir, update_apply, hu]

theorem Namespace.withDir_entry_update_update (a : Namespace) (dir : Uuid) (oldname newname : Name)
    (v w : Option (DirentType × Uuid)) :
    (a.withDir dir (update (update (fun x => a.entry (dir, x)) oldname v)
        newname w)).entry
      = update (update a.entry (dir, oldname) v) (dir, newname) w := by
  set b := a.withDir dir (update (fun x => a.entry (dir, x)) oldname v)
  have hb : b.entry = update a.entry (dir, oldname) v := withDir_entry_update ..
  have hdir : (fun x => b.entry (dir, x))
      = update (fun x => a.entry (dir, x)) oldname v := by
    funext x
    simp [b, withDir]
  rw [← hb, ← hdir, ← withDir_entry_update]
  funext place
  by_cases hplace : place.1 = dir
  · simp [withDir, hplace]
  · simp [b, withDir, hplace]

namespace Fs

variable {s s' : Fs} {a : Namespace} {o : Outcome} {uuid dir : Uuid} {n : Node Dirnode}
  {d : Dirnode} {type : DirentType}

/-- What the enclave shows of the directories, the objects and the links. -/
def toNamespace (s : Fs) : Namespace where
  entry place := (s.dirView place.1).bind fun c => c.entries place.2
  kind uuid := (s.objects uuid).map Object.kind
  links uuid := (s.tableView.getEntry uuid).map BitVec.toNat

/-- The volume shows `a` and has stored it. -/
structure Represents (s : Fs) (a : Namespace) : Prop where
  shows : s.toNamespace = a
  dirs : ∀ uuid, s.dirView uuid = s.dirBuffered uuid
  table : s.tableView.getEntry = s.storedTable.getEntry
  /-- The counts are positive as an `int`. -/
  small : ∀ uuid count, a.links uuid = some count → count ≤ 2 ^ 31

theorem Represents.entry_eq (h : s.Represents a) (place : Place) :
    a.entry place = (s.dirView place.1).bind fun c => c.entries place.2 := by
  rw [← h.shows]
  rfl

theorem Represents.kind_eq (h : s.Represents a) (uuid : Uuid) :
    a.kind uuid = (s.objects uuid).map Object.kind := by
  rw [← h.shows]
  rfl

theorem Represents.links_eq (h : s.Represents a) (uuid : Uuid) :
    a.links uuid = (s.tableView.getEntry uuid).map BitVec.toNat := by
  rw [← h.shows]
  rfl

theorem Represents.entries {bucket0 : Uuid → Uuid} (h : s.Represents a)
    (hnode : s.dirNode bucket0 dir = some n) :
    n.object.contents.entries = fun x => a.entry (dir, x) := by
  funext x
  rw [h.entry_eq, dirView_eq_of_dirNode hnode, bind_some]

theorem dirBuffered_of_kind (h : (s.objects uuid).map Object.kind ≠ some .dir) (x : Name) :
    (s.dirBuffered uuid).bind (fun c => c.entries x) = none := by
  unfold dirBuffered readDirnode
  cases hobject : s.objects uuid with
  | none => rfl
  | some object =>
    cases object with
    | empty type => rfl
    | dirnode stored =>
      rw [hobject] at h
      exact absurd rfl h
    | filenode f => rfl

section

variable (h : s.Represents a)
include h

theorem Represents.entry_of_kind (hkind : a.kind uuid ≠ some .dir) (x : Name) :
    a.entry (uuid, x) = none := by
  rw [h.kind_eq] at hkind
  rw [h.entry_eq, h.dirs]
  exact dirBuffered_of_kind hkind x

/-! ## What does not change the namespace -/

theorem Represents.of_unaffected (hroot : s'.rootUuid = s.rootUuid)
    (hunaffected : s.Unaffected s') :
    s'.Represents a where
  shows := by
    rw [← h.shows]
    simp only [toNamespace, hunaffected.objects, hunaffected.dirs, hunaffected.table]
  dirs uuid := by
    rw [hunaffected.dirs, h.dirs, dirBuffered_congr hroot (congrFun hunaffected.objects uuid)]
  table := by
    rw [hunaffected.table, h.table, hunaffected.storedTable]
  small := h.small

theorem Represents.idle (hidle : s.Idle s') : s'.Represents a :=
  h.of_unaffected hidle.rootUuid hidle.unaffected

theorem Represents.dropCopies (dirnodes filenodes : Uuid → Bool) (table : Bool) :
    (s.dropCopies dirnodes filenodes table).Represents a := by
  have hview (uuid : Uuid) : (s.dropCopies dirnodes filenodes table).dirView uuid
      = s.dirView uuid := by
    by_cases hdrop : dirnodes uuid = true
    · rw [h.dirs, dirView_of_invalid]
      · rfl
      · intro m hm
        simp [Fs.dropCopies, hdrop] at hm
    · exact dirView_congr rfl rfl (by simp [Fs.dropCopies, hdrop])
  have htable : (s.dropCopies dirnodes filenodes table).tableView.getEntry
      = s.tableView.getEntry := by
    cases table with
    | true =>
      rw [h.table]
      rfl
    | false => rfl
  refine ⟨?_, ?_, ?_, h.small⟩
  · rw [← h.shows]
    simp only [toNamespace, hview, htable]
    rfl
  · intro uuid
    rw [hview, h.dirs]
    rfl
  · rw [htable, h.table]
    rfl

theorem Represents.of_dirs {b : Namespace} (hroot : s'.rootUuid = s.rootUuid)
    (htable : s'.table = s.table ∧ s'.storedTable = s.storedTable) (hlinks : b.links = a.links)
    (hkind : ∀ v, (s'.objects v).map Object.kind = b.kind v)
    (hdirs : ∀ v, (s'.dirView v = s'.dirBuffered v ∧
        ∀ x, (s'.dirBuffered v).bind (fun c => c.entries x) = b.entry (v, x)) ∨
      (s'.objects v = s.objects v ∧ s'.dirnodes v = s.dirnodes v ∧
        ∀ x, b.entry (v, x) = a.entry (v, x))) : s'.Represents b := by
  have htableView : s'.tableView = s.tableView := by
    simp only [tableView, htable.1, htable.2]
  refine ⟨?_, ?_, ?_, ?_⟩
  · ext1
    · funext p
      obtain ⟨v, x⟩ := p
      show (s'.dirView v).bind (fun c => c.entries x) = b.entry (v, x)
      rcases hdirs v with ⟨hview, hstored⟩ | ⟨hobjects, hdirnodes, hsame⟩
      · rw [hview, hstored]
      · rw [dirView_congr hroot hobjects hdirnodes, hsame, h.entry_eq]
    · funext v
      exact hkind v
    · funext v
      show (s'.tableView.getEntry v).map BitVec.toNat = b.links v
      rw [htableView, hlinks, h.links_eq]
  · intro v
    rcases hdirs v with ⟨hview, -⟩ | ⟨hobjects, hdirnodes, -⟩
    · exact hview
    · rw [dirView_congr hroot hobjects hdirnodes, h.dirs, dirBuffered_congr hroot hobjects]
  · rw [htableView, h.table, htable.2]
  · rw [hlinks]
    exact h.small

/-! ## New objects and deleted ones -/

theorem Represents.withObject (hfresh : s.objects uuid = none) (type : DirentType) :
    (s.withObject uuid type).Represents (a.alloc uuid type) := by
  refine h.of_dirs rfl ⟨rfl, rfl⟩ rfl ?_ ?_
  · intro v
    show Option.map Object.kind (update s.objects uuid (some (.empty type)) v)
      = update a.kind uuid (some type) v
    by_cases hv : v = uuid <;> simp [hv, Object.kind, h.kind_eq]
  · intro v
    by_cases hv : v = uuid
    · subst hv
      refine .inl ⟨dirView_of_invalid ?_, ?_⟩
      · -- a valid copy of an object that is not there would show
        intro m hm
        by_contra hvalid
        have hview := dirView_of_valid (s := s) hm (by simpa using hvalid)
        rw [h.dirs] at hview
        simp [dirBuffered, readDirnode, hfresh] at hview
      · intro x
        have hkind : a.kind v ≠ some .dir := by simp [h.kind_eq, hfresh]
        simp only [dirBuffered, readDirnode, Fs.withObject, update_self]
        exact (h.entry_of_kind hkind x).symm
    · exact .inr ⟨update_of_ne hv .., rfl, fun _ => rfl⟩

theorem Represents.delete (hempty : ∀ x, a.entry (uuid, x) = none) (hdel : o.bufferDel = true) :
    (s.delete o uuid).Represents { a with kind := update a.kind uuid none } := by
  refine h.of_dirs rfl ⟨rfl, rfl⟩ rfl ?_ ?_
  · intro v
    by_cases hv : v = uuid <;> simp [hv, Fs.delete, hdel, h.kind_eq]
  · intro v
    by_cases hv : v = uuid
    · subst hv
      refine .inl ⟨dirView_of_invalid (by simp [Fs.delete]), ?_⟩
      simp [dirBuffered, readDirnode, Fs.delete, hdel, hempty]
    · exact .inr ⟨by simp [Fs.delete, hdel, hv], update_of_ne hv .., fun _ => rfl⟩

end

/-! ## Storing directories -/

theorem storeDirnode_kind (hkind : (s.objects dir).map Object.kind = some .dir) (o : Outcome)
    (v : Uuid) : ((s.storeDirnode o dir).1.objects v).map Object.kind
      = (s.objects v).map Object.kind := by
  obtain heq | ⟨rfl, stored, heq⟩ := storeDirnode_object s o dir v
  · rw [heq]
  · rw [heq, hkind]
    rfl

theorem save_kind (hkind : (s.objects dir).map Object.kind = some .dir) (o : Outcome)
    (d : Dirnode) (v : Uuid) :
    ((s.save o dir d).1.objects v).map Object.kind = (s.objects v).map Object.kind :=
  storeDirnode_kind (s := s.modifyDirnode dir d) hkind o v

section

variable (h : s.Represents a)
include h

theorem Represents.save (hkind : a.kind dir = some .dir) {c : Contents}
    (hc : (s.save o dir d).1.Written dir d c) :
    (s.save o dir d).1.Represents (a.withDir dir d.contents.entries) := by
  refine h.of_dirs (save_rootUuid ..) (save_table ..) rfl ?_ ?_
  · intro v
    rw [h.kind_eq] at hkind
    rw [save_kind hkind o d v]
    exact (h.kind_eq v).symm
  · intro v
    by_cases hv : v = dir
    · subst hv
      refine .inl ⟨hc.view.trans hc.stored.symm, ?_⟩
      simp [hc.stored, hc.entries, Namespace.withDir]
    · obtain ⟨hobjects, hdirnodes⟩ := save_frame s o d hv
      exact .inr ⟨hobjects, hdirnodes, fun x => if_neg hv⟩

theorem Represents.save_failed (hsane : s.Sane) (hkind : a.kind dir = some .dir)
    (hmacs : s.FreshMacs o dir) (hn : s.dirnodes dir = some n) (hvalid : n.isInvalid = false)
    (hd : d.Tracks (s.storedDirnode dir)) (hfail : (s.save o dir d).2 = false)
    (huntouched : s.Untouched o dir d) : (s.save o dir d).1.Represents a := by
  rw [save_snd hn] at hfail
  have hmod := modifyDirnode_self hn d
  have hview := storeDirnode_failed_view hmod rfl hfail
  obtain ⟨c, hc⟩ : ∃ c, s.dirBuffered dir = some c := by
    rw [← h.dirs, dirView_of_valid hn hvalid]
    exact ⟨_, rfl⟩
  have hstored : (s.save o dir d).1.dirBuffered dir = some c :=
    (storeDirnode_failed_stored (hsane.modifyDirnode fun _ _ => hd) hmacs hmod rfl
      hd.storable.wf.hasBucket hfail).mpr ⟨hc, huntouched⟩
  refine h.of_dirs (save_rootUuid ..) (save_table ..) rfl ?_ ?_
  · intro v
    rw [h.kind_eq] at hkind
    rw [save_kind hkind o d v, h.kind_eq]
  · intro v
    by_cases hv : v = dir
    · subst hv
      refine .inl ⟨hview, ?_⟩
      intro x
      rw [h.entry_eq, h.dirs, hc, hstored]
    · obtain ⟨hobjects, hdirnodes⟩ := save_frame s o d hv
      exact .inr ⟨hobjects, hdirnodes, fun x => rfl⟩

/-! ## The hardlink table -/

theorem Represents.withTable (o : Outcome) (t : HardlinkTable)
    (hsmall : ∀ v count, t.getEntry v = some count → count.toNat ≤ 2 ^ 31) :
    (s.withTable o t).Represents
      { a with links := fun v => (t.getEntry v).map BitVec.toNat } where
  shows := by
    rw [← h.shows]
    rfl
  dirs := h.dirs
  table := rfl
  small := by
    intro v count hcount
    obtain ⟨entry, hentry, rfl⟩ := map_eq_some_iff.mp hcount
    exact hsmall v entry hentry

theorem Represents.mayLeave (o : Outcome) (l : Lock) : (s.mayLeave o l).Represents a :=
  h.of_unaffected rfl ⟨rfl, rfl, rfl, rfl, fun _ => rfl, fun _ => rfl, fun _ => rfl, rfl⟩

theorem Represents.withLostTable (t : HardlinkTable) : (s.withLostTable t).Represents a := by
  have htable : (s.withLostTable t).tableView.getEntry = s.tableView.getEntry := by
    rw [h.table]
    rfl
  exact h.of_unaffected rfl
    ⟨rfl, rfl, rfl, rfl, fun _ => rfl, fun _ => rfl, fun _ => rfl, htable⟩

theorem Represents.of_read_table {m : Node HardlinkTable} (hvalid : m.isInvalid = false)
    (hobject : m.object = s.tableView) : Represents { s with table := some m } a := by
  have htable : ({ s with table := some m } : Fs).tableView.getEntry = s.tableView.getEntry := by
    simp [tableView, hvalid, hobject]
  exact h.of_unaffected rfl
    ⟨rfl, rfl, rfl, rfl, fun _ => rfl, fun _ => rfl, fun _ => rfl, htable⟩

theorem Represents.countLink (hroom : (a.links uuid).getD 1 < 2 ^ 31)
    (hok : (Fs.countLink o s uuid).2 = true) :
    (Fs.countLink o s uuid).1.Represents
      { a with links := update a.links uuid (some ((a.links uuid).getD 1 + 1)) } := by
  have hcount : ((s.tableView.getEntry uuid).getD 1 + 1).toNat = (a.links uuid).getD 1 + 1 := by
    rw [h.links_eq] at hroom ⊢
    cases hentry : s.tableView.getEntry uuid with
    | none => rfl
    | some count =>
      rw [hentry] at hroom
      simp only [map_some, getD_some] at hroom ⊢
      rw [BitVec.toNat_add, show (1 : BitVec 32).toNat = 1 from rfl, Nat.mod_eq_of_lt (by omega)]
  have hlinks : (fun v => ((s.tableView.incrUuid uuid).getEntry v).map BitVec.toNat)
      = update a.links uuid (some ((a.links uuid).getD 1 + 1)) := by
    funext v
    rw [HardlinkTable.getEntry_incrUuid, update_apply]
    split
    · rw [map_some, hcount]
    · rw [h.links_eq]
  rcases countLink_cases s o uuid with ⟨-, heq⟩ | ⟨-, -, heq⟩ | ⟨-, -, heq⟩
  · simp [heq] at hok
  · rw [heq, ← hlinks]
    refine h.withTable o _ ?_
    intro v count hentry
    rw [HardlinkTable.getEntry_incrUuid] at hentry
    split at hentry
    · cases hentry
      omega
    · exact h.small v count.toNat (by rw [h.links_eq, hentry]; rfl)
  · simp [heq] at hok

theorem Represents.countLink_failed (hfail : (Fs.countLink o s uuid).2 = false) :
    (Fs.countLink o s uuid).1.Represents a := by
  rcases countLink_cases s o uuid with ⟨-, heq⟩ | ⟨-, -, heq⟩ | ⟨-, -, heq⟩
  · rw [heq]
    exact h.mayLeave o .table
  · simp [heq] at hfail
  · rw [heq]
    exact h.withLostTable _

theorem Represents.decrUuid (o : Outcome) {count : BitVec 32}
    (hentry : s.tableView.getEntry uuid = some count)
    (htwo : 2 ≤ count.toNat) :
    (s.tableView.decrUuid uuid).2 ≠ 0 ∧
      (s.withTable o (s.tableView.decrUuid uuid).1).Represents
        { a with
          links := update a.links uuid
            (if count.toNat ≤ 2 then none else some (count.toNat - 1)) } := by
  have hsmall : count.toNat ≤ 2 ^ 31 := h.small uuid count.toNat (by rw [h.links_eq, hentry]; rfl)
  have hsub : (count - 1).toNat = count.toNat - 1 := by
    rw [BitVec.toNat_sub_of_le]
    · rfl
    · rw [BitVec.le_def]
      exact Nat.le_of_succ_le htwo
  have hint : (count - 1).toInt = (count.toNat - 1 : Nat) := by
    rw [BitVec.toInt_eq_toNat_of_lt (by omega), hsub]
  have hlinks : (fun v => ((s.tableView.decrUuid uuid).1.getEntry v).map BitVec.toNat)
      = update a.links uuid
          (if count.toNat ≤ 2 then none else some (count.toNat - 1)) := by
    funext v
    rw [HardlinkTable.getEntry_decrUuid hentry, hint, update_apply]
    split
    · by_cases hle : count.toNat ≤ 2
      · rw [if_pos hle, if_pos (by omega)]
        rfl
      · rw [if_neg hle, if_neg (by omega), map_some, hsub]
    · rw [h.links_eq]
  constructor
  · rw [HardlinkTable.decrUuid, hentry]
    show (count - 1).toInt ≠ 0
    omega
  · rw [← hlinks]
    refine h.withTable o _ ?_
    intro v count' hentry'
    have hbound : ((s.tableView.decrUuid uuid).1.getEntry v).map BitVec.toNat
        = some count'.toNat := by rw [hentry']; rfl
    rw [congrFun hlinks v] at hbound
    rw [update_apply] at hbound
    split at hbound
    · split at hbound
      · contradiction
      · rw [Option.some.injEq] at hbound
        omega
    · exact h.small v _ hbound

end

/-! ## A new volume -/

theorem nxCreateVolume_dirBuffered {so : StoreOutcome} {rootUuid bucket0 : Uuid}
    (h : nxCreateVolume so rootUuid bucket0 = some s) :
    (s.objects rootUuid).map Object.kind = some .dir ∧
      ∃ c, s.dirBuffered rootUuid = some c ∧ c.entries = fun _ => none := by
  have htracks := dirnodeCreate_tracks rootUuid rootUuid bucket0
    { main := [], buckets := fun _ => none }
  unfold nxCreateVolume at h
  split at h
  · contradiction
  next d' stored hstore =>
  cases h
  have hload := dirnodeLoad_store htracks.storable htracks.synced (o := so) (by rw [hstore])
  have hwf := (dirnodeStore_storable htracks.storable so
    { main := [], buckets := fun _ => none }).wf
  have hlookup := dirnodeStore_lookup so (dirnodeCreate rootUuid rootUuid bucket0)
    { main := [], buckets := fun _ => none }
  rw [hstore] at hload hwf hlookup
  refine ⟨by simp [Object.kind], d'.contents, ?_, ?_⟩
  · rw [dirBuffered_of_object (show _ = some (Object.dirnode stored) by simp), hload, map_some,
      (reloaded_same hwf).contents]
  · funext name
    simp only [Dirnode.contents, hlookup]
    rfl

theorem nxCreateVolume_represents {so : StoreOutcome} {rootUuid bucket0 : Uuid}
    (h : nxCreateVolume so rootUuid bucket0 = some s) :
    s.Represents (Namespace.fresh s.rootUuid) := by
  obtain ⟨hroot, hobjects, hdirnodes, htable, hstored⟩ := nxCreateVolume_state h
  obtain ⟨hkind, c, hc, hentries⟩ := nxCreateVolume_dirBuffered h
  have hdirs (v : Uuid) : s.dirView v = s.dirBuffered v := by
    refine dirView_of_invalid ?_
    simp [hdirnodes]
  have hview : s.tableView = HardlinkTable.create := by simp [tableView, htable, hstored]
  rw [hroot]
  refine ⟨?_, hdirs, by rw [hview, hstored], by simp [Namespace.fresh]⟩
  ext1
  · funext p
    obtain ⟨v, x⟩ := p
    show (s.dirView v).bind (fun c => c.entries x) = none
    rw [hdirs]
    by_cases hv : v = rootUuid
    · rw [hv, hc, bind_some, hentries]
    · exact dirBuffered_of_kind (by simp [hobjects v hv]) x
  · funext v
    show (s.objects v).map Object.kind = update (fun _ => none) rootUuid (some .dir) v
    by_cases hv : v = rootUuid <;> simp [hv, hkind, hobjects]
  · funext v
    show (s.tableView.getEntry v).map BitVec.toNat = none
    rw [hview]
    rfl

end Fs

/-! ## Small volumes -/

theorem Call.run_rename_within {o : Outcome} {s : Fs} {dir : Uuid} (oldname newname : Name)
    (hdir : s.isFile dir = false) :
    ((Call.rename dir oldname dir newname).run o s).1
      = (Fs.renameWithin o s dir oldname newname).1 := by
  simp [run, confuses, perform, report, Fs.ecallFsRename, hdir]

namespace Fs.Within

variable {s : Fs} {o : Outcome} {uuids : List Uuid}

theorem save (h : s.Within uuids) {dir : Uuid} (hdir : dir ∈ uuids) (n : Node Dirnode)
    (d : Dirnode) : ((s.withCopy dir n).save o dir d).1.Within uuids := by
  have hne {v : Uuid} (hv : v ∉ uuids) : v ≠ dir := by
    rintro rfl
    exact hv hdir
  constructor
  · intro v hv
    rw [(save_frame _ o d (hne hv)).1]
    exact h.objects v hv
  · intro v hv
    rw [(save_frame _ o d (hne hv)).2, withCopy_of_ne (hne hv)]
    exact h.dirnodes v hv

theorem renameWithin (h : s.Within uuids) {dir : Uuid} (hdir : dir ∈ uuids) (hsane : s.Sane)
    (hfresh : o.Fresh s) (hroom : s.HasRoom o dir) {oldname newname : Name}
    (hok : (Fs.renameWithin o s dir oldname newname).2.isOk = true) :
    (Fs.renameWithin o s dir oldname newname).1.Within uuids := by
  obtain ⟨n, d, moved, overwritten, c, -, -, heq, -⟩ := renameWithin_written hsane hfresh hroom hok
  rw [heq]
  exact h.save hdir n d

theorem entry_ne (h : s.Within uuids) (uuid : Uuid)
    (hall : (uuids.all fun v => (s.dirNode id v).all fun n =>
      n.object.dirents.all fun e => e.linkUuid != uuid) = true) (place : Place)
    (type : DirentType) : s.toNamespace.entry place ≠ some (type, uuid) := by
  intro hentry
  change (s.dirView place.1).bind (fun c => c.entries place.2) = some (type, uuid) at hentry
  by_cases hv : place.1 ∈ uuids
  · have hdir := List.all_eq_true.mp hall place.1 hv
    cases hnode : s.dirNode id place.1 with
    | none =>
      simp [dirView_eq_none_of_dirNode hnode] at hentry
    | some n =>
      rw [dirView_eq_of_dirNode hnode, bind_some] at hentry
      obtain ⟨e, hlookup, -, hlink⟩ := entries_eq_some.mp hentry
      rw [hnode, all_some] at hdir
      have hne := List.all_eq_true.mp hdir e (Dirnode.mem_of_lookup hlookup).1
      simp [hlink] at hne
  · simp [dirView_eq_none_of_dirNode (h.dirNode_eq_none hv id)] at hentry

end Fs.Within

end Nexus
