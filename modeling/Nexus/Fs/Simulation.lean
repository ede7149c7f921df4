import Nexus.Fs.Refine

/-!
# The calls as changes of the namespace

Each call that succeeds carries out the change that its name says.  A call that
fails leaves the namespace alone, if the stores that it makes last succeed or
touch nothing.
-/

namespace Nexus

open Function Option

/-- Every step of storing the directory succeeds. -/
def Outcome.Stores (o : Outcome) (dir : Uuid) : Prop :=
  (o.store dir).macversion ≠ none ∧ (∀ bucket, (o.store dir).bucketStore bucket = true) ∧
    (o.store dir).put = true

namespace Fs

variable {s s' : Fs} {a : Namespace} {o : Outcome} {uuid dir : Uuid} {n : Node Dirnode}
  {d : Dirnode} {type : DirentType} {name : Name}

theorem storeResult_of_stores (h : o.Stores dir) (s : Fs) (d : Dirnode) :
    (s.storeResult o dir d).2.2 = true := by
  obtain ⟨hmacversion, hbuckets, hput⟩ := h
  obtain ⟨mv, hmv⟩ := ne_none_iff_exists'.mp hmacversion
  simp [storeResult, dirnodeStore, hmv, hput, storeOtherBuckets_ok hbuckets]

/-- Storing `d` succeeds, or fails with the stored directory as it was. -/
def StoreSafe (s : Fs) (o : Outcome) (dir : Uuid) (d : Dirnode) : Prop :=
  (s.storeResult o dir d).2.2 = true ∨ s.Untouched o dir d

theorem StoreSafe.congr (h : s.StoreSafe o dir d) (hobjects : s'.objects dir = s.objects dir)
    (hroot : s'.rootUuid = s.rootUuid) : s'.StoreSafe o dir d := by
  unfold StoreSafe storeResult Untouched readDirnode at h ⊢
  rwa [storedDirnode_congr hobjects, hroot, hobjects]

theorem Represents.save_failed_safe (h : s.Represents a) (hsane : s.Sane)
    (hkind : a.kind dir = some .dir) (hmacs : s.FreshMacs o dir) (hn : s.dirnodes dir = some n)
    (hvalid : n.isInvalid = false) (hd : d.Tracks (s.storedDirnode dir))
    (hsafe : s.StoreSafe o dir d) (hfail : (s.save o dir d).2 = false) :
    (s.save o dir d).1.Represents a := by
  refine h.save_failed hsane hkind hmacs hn hvalid hd hfail ?_
  refine hsafe.resolve_left ?_
  rw [← save_snd hn, hfail]
  exact Bool.false_ne_true

theorem isOk_stored_eq {α : Type} (r : Fs × Bool) (value : α) :
    (stored r value).2.isOk = r.2 := by
  obtain ⟨s, _ | _⟩ := r <;> rfl

/-! ## Adding -/

theorem ne_of_kind (h : s.Represents a) (hkind : a.kind dir = some .dir)
    (hfresh : s.objects uuid = none) : dir ≠ uuid := by
  rintro rfl
  simp [h.kind_eq, hfresh] at hkind

theorem Represents.newObject (h : s.Represents a) (hfresh : o.Fresh s)
    (hnode : s.dirNode o.bucket0 dir = some n) (type : DirentType) :
    ((s.withCopy dir n).withObject o.entryUuid type).Represents (a.alloc o.entryUuid type) :=
  (h.idle (withCopy_idle hnode)).withObject hfresh.entryUuid type

theorem alloc_kind_dir (h : s.Represents a) (hfresh : o.Fresh s) (hkind : a.kind dir = some .dir)
    (type : DirentType) : (a.alloc o.entryUuid type).kind dir = some .dir :=
  (update_of_ne (ne_of_kind h hkind hfresh.entryUuid) ..).trans hkind

theorem AddEnds.represents {add : Dirnode → Dirnode × Bool} {r : Fs × Result Uuid}
    (hr : AddEnds o s dir type add r) (h : s.Represents a) (hfresh : o.Fresh s)
    (hkind : a.kind dir = some .dir)
    (htracks : ∀ n, s.dirNode o.bucket0 dir = some n →
      (add n.object).1.Tracks (s.storedDirnode dir))
    (hadd : ∀ n, s.dirNode o.bucket0 dir = some n → (add n.object).2 = true →
      n.object.contents.entries name = none ∧ (add n.object).1.contents.entries
        = update n.object.contents.entries name (some (type, o.entryUuid)))
    (hok : r.2.isOk = true) :
    a.Ok (.create (dir, name) type o.entryUuid) ∧
      r.1.Represents (a.apply (.create (dir, name) type o.entryUuid)) := by
  obtain ⟨n, c, hnode, htrue, heq, hwritten⟩ := hr.written hfresh htracks hok
  obtain ⟨hfree, hentries⟩ := hadd n hnode htrue
  rw [h.entries hnode] at hfree hentries
  have hnew : a.kind o.entryUuid = none := by
    rw [h.kind_eq, hfresh.entryUuid]
    rfl
  refine ⟨⟨hkind, hfree, hnew⟩, ?_⟩
  rw [heq] at hwritten ⊢
  have hsaved := (h.newObject hfresh hnode type).save (alloc_kind_dir h hfresh hkind type) hwritten
  have happly : (a.alloc o.entryUuid type).withDir dir (add n.object).1.contents.entries
      = a.apply (.create (dir, name) type o.entryUuid) := by
    ext1
    · rw [hentries]
      exact Namespace.withDir_entry_update ..
    · rfl
    · rfl
  rwa [happly] at hsaved

/-- A call that could not add its entry leaves at most an object without one. -/
theorem AddEnds.represents_error {add : Dirnode → Dirnode × Bool} {r : Fs × Result Uuid}
    (hr : AddEnds o s dir type add r) (h : s.Represents a) (hsane : s.Sane) (hfresh : o.Fresh s)
    (hkind : a.kind dir = some .dir)
    (htracks : ∀ n, s.dirNode o.bucket0 dir = some n →
      (add n.object).1.Tracks (s.storedDirnode dir))
    (hadd : ∀ n, s.dirNode o.bucket0 dir = some n → (add n.object).2 = false →
      (add n.object).1.contents = n.object.contents)
    (hsafe : ∀ n, s.dirNode o.bucket0 dir = some n → s.StoreSafe o dir (add n.object).1)
    (herror : r.2.isOk = false) : ∃ b, a.Step b ∧ r.1.Represents b := by
  rcases hr with ⟨-, hidle⟩ | ⟨n, hnode, hend⟩
  · exact ⟨a, .idle, h.idle hidle⟩
  have hnew : a.kind o.entryUuid = none := by
    rw [h.kind_eq, hfresh.entryUuid]
    rfl
  have h₁ := h.newObject hfresh hnode type
  refine ⟨a.alloc o.entryUuid type, .alloc hnew type, ?_⟩
  rcases hend with ⟨hfalse, heq⟩ | ⟨-, heq⟩
  · rw [heq]
    refine h₁.of_unaffected rfl (setDirnode_unaffected ?_)
    intro m hm
    have hcopy : some n = some m := withCopy_self.symm.trans hm
    rw [hadd n hnode hfalse, Option.some.inj hcopy]
  · rw [heq, isOk_stored_eq] at herror
    rw [heq]
    have htracks' := tracks_withObject (htracks n hnode) hfresh n type
    have hsame : ((s.withCopy dir n).withObject o.entryUuid type).objects dir = s.objects dir :=
      update_of_ne (ne_of_kind h hkind hfresh.entryUuid) ..
    exact h₁.save_failed_safe (((withCopy_idle hnode).sane hsane).newObject hfresh.entryUuid type)
      (alloc_kind_dir h hfresh hkind type) (FreshMacs.withObject (hfresh.macs dir) type)
      withCopy_self (dirNode_valid hnode) htracks' ((hsafe n hnode).congr hsame rfl) herror

/-! ## Removing -/

variable {e : DirEntry}

theorem entry_of_findByName (h : s.Represents a) (hsane : s.Sane)
    (hnode : s.dirNode o.bucket0 dir = some n) (hfound : (findByName n.object name).2 = some e) :
    e.name = name ∧ a.entry (dir, name) = some (e.type, e.linkUuid) := by
  rw [findByName_result (hsane.dirNode hnode).storable.wf.coherent] at hfound
  refine ⟨(Dirnode.mem_of_lookup hfound).2, ?_⟩
  have hentries := congrFun (h.entries hnode) name
  rw [← hentries, entries_eq, hfound]
  rfl

/-- What may be removed: a file whose object can be deleted with its last name,
an empty directory, a symlink. -/
def Removable (a : Namespace) (o : Outcome) (place : Place) : Prop :=
  match a.entry place with
  | some (.reg, uuid) => a.links uuid = none → o.bufferDel = true
  | some (.dir, uuid) => (∀ x, a.entry (uuid, x) = none) ∧ o.bufferDel = true
  | _ => True

/-- The namespace after an entry was removed, with the entry still there. -/
def removedObject (a : Namespace) (place : Place) : Namespace :=
  { a.apply (.unlink place) with entry := a.entry }

theorem removeFilenode_represents (h : s.Represents a) (hcounted : a.Counted) (o : Outcome)
    (uuid : Uuid) :
    ((removeFilenode o s uuid).2.1 = false ∧ (removeFilenode o s uuid).1.Represents a) ∨
      ((removeFilenode o s uuid).2.1 = true ∧ ∀ place, a.entry place = some (.reg, uuid) →
        (a.links uuid = none → o.bufferDel = true) →
          (removeFilenode o s uuid).1.Represents (removedObject a place)) := by
  have happly {place : Place} (hentry : a.entry place = some (.reg, uuid)) :
      removedObject a place = { a.unlinkFile place uuid with entry := a.entry } := by
    rw [removedObject, Namespace.apply_unlink, hentry]
  rcases removeFilenode_ends o s uuid with heq | ⟨m, hvalid, hobject, ⟨hcontains, heq⟩ | hdecr⟩
  · rw [heq]
    exact .inl ⟨rfl, h.mayLeave o .table⟩
  · have hlinks : a.links uuid = none := by
      rw [HardlinkTable.containsUuid, isSome_eq_false_iff, isNone_iff_eq_none]
        at hcontains
      rw [h.links_eq, hcontains]
      rfl
    refine .inr ⟨by rw [heq], fun place hentry hdel => ?_⟩
    have hempty (x : Name) : a.entry (uuid, x) = none :=
      h.entry_of_kind (by simp [hcounted.kinds hentry]) x
    have hrep := (h.of_read_table hvalid hobject).delete hempty (hdel hlinks)
    rw [heq, happly hentry]
    convert hrep using 1
    ext1
    · rfl
    · exact if_pos hlinks
    · show update a.links uuid ((a.links uuid).bind _) = a.links
      rw [hlinks, bind_none, ← hlinks, update_eq_self]
  · obtain ⟨hcontains, heq⟩ := hdecr
    rw [HardlinkTable.containsUuid, isSome_iff_exists] at hcontains
    obtain ⟨count, hcount⟩ := hcontains
    have hlinks : a.links uuid = some count.toNat := by
      rw [h.links_eq, hcount]
      rfl
    obtain ⟨hne, hrep⟩ := h.decrUuid o hcount (hcounted.nameCount_of_links hlinks).2
    dsimp only at heq
    rw [if_neg hne] at heq
    rw [heq]
    cases hflush : o.tableFlush with
    | false => exact .inl ⟨rfl, h.withLostTable _⟩
    | true =>
      refine .inr ⟨rfl, fun place hentry _ => ?_⟩
      rw [if_pos rfl, happly hentry]
      convert hrep using 1
      ext1
      · rfl
      · exact if_neg (by simp [hlinks])
      · show update a.links uuid ((a.links uuid).bind _) = _
        rw [hlinks, bind_some]

theorem removeObject_represents (h : s.Represents a) (hcounted : a.Counted) (o : Outcome)
    (e : DirEntry) :
    ((removeObject o s e).2.1 = false ∧ (removeObject o s e).1.Represents a) ∨
      ((removeObject o s e).2.1 = true ∧ ∀ place, a.entry place = some (e.type, e.linkUuid) →
        Removable a o place → (removeObject o s e).1.Represents (removedObject a place)) := by
  unfold removeObject Removable
  cases htype : e.type with
  | reg =>
    refine (removeFilenode_represents h hcounted o e.linkUuid).imp_right (And.imp_right ?_)
    intro hrep place hentry hremovable
    rw [hentry] at hremovable
    exact hrep place hentry hremovable
  | dir =>
    refine .inr ⟨rfl, fun place hentry hremovable => ?_⟩
    rw [hentry] at hremovable
    have hrep := h.delete hremovable.1 hremovable.2
    convert hrep using 1
    rw [removedObject, Namespace.apply_unlink, hentry]
    rfl
  | lnk =>
    refine .inr ⟨rfl, fun place hentry _ => ?_⟩
    convert h using 1
    rw [removedObject, Namespace.apply_unlink, hentry]
    rfl

theorem ne_of_removable (hcounted : a.Counted)
    (hkind : a.kind dir = some .dir) (hentry : a.entry (dir, name) = some (type, uuid))
    (hremovable : Removable a o (dir, name)) : dir ≠ uuid := by
  rintro rfl
  unfold Removable at hremovable
  obtain rfl : type = .dir := by
    have := hcounted.kinds hentry
    rw [hkind, Option.some.injEq] at this
    exact this.symm
  rw [hentry] at hremovable
  simp [hremovable.1 name] at hentry

theorem removedObject_kind (hkind : a.kind dir = some .dir) {place : Place}
    (hentry : a.entry place = some (type, uuid)) (hne : dir ≠ uuid) :
    (removedObject a place).kind dir = some .dir := by
  show (a.apply (.unlink place)).kind dir = some .dir
  rw [Namespace.apply_unlink, hentry]
  cases type with
  | reg =>
    show (if a.links uuid = none then update a.kind uuid none else a.kind) dir = _
    split
    · rwa [update_of_ne hne]
    · exact hkind
  | dir => exact (update_of_ne hne ..).trans hkind
  | lnk => exact hkind

theorem removedObject_withDir (a : Namespace) (dir : Uuid) (name : Name)
    (hentry : a.entry (dir, name) ≠ none) :
    (removedObject a (dir, name)).withDir dir
        (update (fun x => a.entry (dir, x)) name none)
      = a.apply (.unlink (dir, name)) := by
  have hupdate : (a.apply (.unlink (dir, name))).entry
      = update a.entry (dir, name) none := by
    rw [Namespace.apply_unlink]
    cases hplace : a.entry (dir, name) with
    | none => exact absurd hplace hentry
    | some e =>
      obtain ⟨type, uuid⟩ := e
      cases type <;> rfl
  ext1
  · rw [hupdate]
    exact Namespace.withDir_entry_update ..
  · rfl
  · rfl

theorem ecallFsRemove_represents (h : s.Represents a) (hsane : s.Sane) (hcounted : a.Counted)
    (hkind : a.kind dir = some .dir) (hremovable : Removable a o (dir, name))
    (hok : (s.ecallFsRemove o dir name).2.isOk = true) :
    a.Ok (.unlink (dir, name)) ∧
      (s.ecallFsRemove o dir name).1.Represents (a.apply (.unlink (dir, name))) := by
  obtain ⟨n, e, c, hnode, hfound, htrue, heq, hwritten⟩ := ecallFsRemove_written hsane hok
  obtain ⟨hname, hentry⟩ := entry_of_findByName h hsane hnode hfound
  have hwf := (hsane.dirNode hnode).storable.wf
  constructor
  · intro uuid hdir
    unfold Removable at hremovable
    rw [hdir] at hremovable
    exact hremovable.1
  obtain ⟨hfalse, -⟩ | ⟨-, hrep⟩ :=
    removeObject_represents (h.idle (lookup_idle hnode name)) hcounted o e
  · simp [htrue] at hfalse
  have hrep := hrep _ hentry hremovable
  have hne := ne_of_removable hcounted hkind hentry hremovable
  rw [heq] at hwritten ⊢
  have hafter := hrep.save (removedObject_kind hkind hentry hne) hwritten
  rw [entries_dirnodeDelDirentry (findByName_wf hwf name).coherent (mem_of_findByName hwf hfound),
    contents_findByName, h.entries hnode, hname,
    removedObject_withDir a dir name (by simp [hentry])] at hafter
  exact hafter

theorem removeObject_dirnodes (hne : dir ≠ e.linkUuid) :
    (removeObject o s e).1.dirnodes dir = s.dirnodes dir := by
  rcases (removeObject_frame o s e).2 with ⟨-, hdirnodes⟩ | ⟨-, hdirnodes⟩
  · rw [hdirnodes]
  · rw [hdirnodes]
    exact update_of_ne hne ..

theorem save_of_stores (hstores : o.Stores dir) (hn : s.dirnodes dir = some n) (d : Dirnode) :
    (s.save o dir d).2 = true := by
  rw [save_snd hn]
  exact storeResult_of_stores hstores s d

theorem ecallFsRemove_represents_error (h : s.Represents a) (hsane : s.Sane)
    (hcounted : a.Counted) (hkind : a.kind dir = some .dir)
    (hremovable : Removable a o (dir, name)) (hstores : o.Stores dir)
    (herror : (s.ecallFsRemove o dir name).2.isOk = false) :
    (s.ecallFsRemove o dir name).1.Represents a := by
  rcases ecallFsRemove_ends o s dir name with
    ⟨-, hidle⟩ | ⟨n, e, hnode, hfound, ⟨hfalse, heq⟩ | ⟨htrue, heq⟩⟩
  · exact h.idle hidle
  · obtain ⟨-, hrep⟩ | ⟨htrue, -⟩ :=
      removeObject_represents (h.idle (lookup_idle hnode name)) hcounted o e
    · rwa [heq]
    · simp [hfalse] at htrue
  · obtain ⟨-, hentry⟩ := entry_of_findByName h hsane hnode hfound
    have hne := ne_of_removable hcounted hkind hentry hremovable
    have hcopy := (removeObject_dirnodes (o := o) (s := s.withCopy dir
      { n with object := (findByName n.object name).1 }) hne).trans withCopy_self
    simp [heq, isOk_stored_eq, save_of_stores hstores hcopy] at herror

/-! ## Linking -/

theorem ecallFsHardlink_represents (h : s.Represents a) (hsane : s.Sane) (hfresh : o.Fresh s)
    (hroom : s.HasRoom o dir) (hkind : a.kind dir = some .dir) {linkName targetName : Name}
    (hcount : ∀ uuid, a.entry (dir, targetName) = some (.reg, uuid) →
      (a.links uuid).getD 1 < 2 ^ 31)
    (hok : (s.ecallFsHardlink o dir linkName dir targetName).2.isOk = true) :
    ∃ uuid, a.Ok (.link (dir, linkName) uuid) ∧
      (s.ecallFsHardlink o dir linkName dir targetName).1.Represents
        (a.apply (.link (dir, linkName) uuid)) := by
  obtain ⟨n, e, c, hnode, hfound, htype, hcounted, hadd, heq, hwritten⟩ :=
    ecallFsHardlink_written hsane hfresh hroom hok
  obtain ⟨-, hentry⟩ := entry_of_findByName h hsane hnode hfound
  rw [htype] at hentry
  have hwf := findByName_wf (hsane.dirNode hnode).storable.wf targetName
  obtain ⟨hfree, hentries⟩ := entries_dirnodeAdd hwf.coherent hadd
  rw [contents_findByName, h.entries hnode] at hfree hentries
  have hrep := (h.idle (lookup_idle hnode targetName)).countLink (hcount e.linkUuid hentry) hcounted
  refine ⟨e.linkUuid, ⟨hkind, hfree, (dir, targetName), hentry⟩, ?_⟩
  rw [heq] at hwritten ⊢
  have hafter := hrep.save hkind hwritten
  convert hafter using 1
  ext1
  · rw [hentries]
    exact (Namespace.withDir_entry_update ..).symm
  · rfl
  · rfl

/-- A link that was counted gets its entry, so a failed call was one that did
not count. -/
theorem ecallFsHardlink_represents_error (h : s.Represents a) (hsane : s.Sane)
    {linkName targetName : Name} (hstores : o.Stores dir)
    (hsafe : (∃ uuid, a.entry (dir, targetName) = some (.reg, uuid)) → o.tableAcquire = true →
      o.tableFlush = true → a.entry (dir, linkName) = none)
    (herror : (s.ecallFsHardlink o dir linkName dir targetName).2.isOk = false) :
    (s.ecallFsHardlink o dir linkName dir targetName).1.Represents a := by
  rcases ecallFsHardlink_ends_within o s dir linkName targetName with
    ⟨-, hidle⟩ | ⟨n, e, hnode, hfound, htype, ⟨hfalse, heq⟩ | ⟨hcounted, hend⟩⟩
  · exact h.idle hidle
  · rw [heq]
    exact (h.idle (lookup_idle hnode targetName)).countLink_failed hfalse
  have hwf := findByName_wf (hsane.dirNode hnode).storable.wf targetName
  set s₁ := s.withCopy dir { n with object := (findByName n.object targetName).1 }
  have hfree : a.entry (dir, linkName) = none := by
    obtain ⟨-, hentry⟩ := entry_of_findByName h hsane hnode hfound
    rw [htype] at hentry
    rcases countLink_cases s₁ o e.linkUuid with ⟨-, heq⟩ | ⟨hacquire, hflush, -⟩ | ⟨-, -, heq⟩
    · simp [heq] at hcounted
    · exact hsafe ⟨_, hentry⟩ hacquire hflush
    · simp [heq] at hcounted
  rcases hend with ⟨hfalse, -⟩ | ⟨-, heq⟩
  · rw [dirnodeAdd_eq hwf.coherent, if_neg] at hfalse
    · contradiction
    · rw [Bool.not_eq_true, isSome_eq_false_iff, isNone_iff_eq_none,
        ← entries_eq_none, contents_findByName, h.entries hnode]
      exact hfree
  · have hcopy := (congrFun (countLink_dirnodes o s₁ e.linkUuid).1 dir).trans withCopy_self
    rw [heq, isOk_stored_eq] at herror
    exact absurd (herror.symm.trans (save_of_stores hstores hcopy _)) Bool.false_ne_true

/-! ## Moving -/

/-- Only a symlink is overwritten. -/
def Spares (a : Namespace) (place : Place) : Prop :=
  ∀ type uuid, a.entry place = some (type, uuid) → type = .lnk

variable {oldname newname : Name}

section

variable (h : s.Represents a) (hsane : s.Sane)
include h hsane

theorem renameWithin_represents (hfresh : o.Fresh s) (hroom : s.HasRoom o dir)
    (hkind : a.kind dir = some .dir) (hspares : Spares a (dir, newname))
    (hok : (renameWithin o s dir oldname newname).2.isOk = true) :
    a.Ok (.move (dir, oldname) (dir, newname)) ∧
      (renameWithin o s dir oldname newname).1.Represents
        (a.apply (.move (dir, oldname) (dir, newname))) := by
  obtain ⟨n, d, moved, overwritten, c, hnode, hrenamed, heq, hwritten⟩ :=
    renameWithin_written hsane hfresh hroom hok
  obtain ⟨hnames, hold, hentries⟩ :=
    entries_dirnodeRenameWithin (hsane.dirNode hnode).storable.wf.coherent hrenamed
  rw [h.entries hnode] at hold hentries
  refine ⟨⟨hkind, by simp [hnames], by simp [hold], hspares⟩, ?_⟩
  rw [heq] at hwritten ⊢
  have hafter := (h.idle (withCopy_idle hnode)).save hkind hwritten
  convert hafter using 1
  ext1
  · rw [hentries, Namespace.withDir_entry_update_update]
    exact congrArg (update (update a.entry (dir, oldname) none) (dir, newname))
      hold
  · rfl
  · rfl

theorem renameWithin_represents_error (hfresh : o.Fresh s) (hroom : s.HasRoom o dir)
    (hkind : a.kind dir = some .dir)
    (hsafe : ∀ n, s.dirNode o.bucket0 dir = some n →
      s.StoreSafe o dir (dirnodeRenameWithin n.object oldname newname o.bucketUuid).1)
    (herror : (renameWithin o s dir oldname newname).2.isOk = false) :
    (renameWithin o s dir oldname newname).1.Represents a := by
  rcases renameWithin_ends o s dir oldname newname with ⟨-, -, hidle⟩ | ⟨n, -, hnode, hend⟩
  · exact h.idle hidle
  have hwf := (hsane.dirNode hnode).storable.wf
  have htracks := (hsane.dirNode hnode).renameWithin (hroom n hnode) oldname newname
    (hfresh.bucketUuid dir n hnode)
  have hsafe := hsafe n hnode
  have hcopy {d : Dirnode} (hd : d.contents = n.object.contents) :
      (s.withCopy dir { n with object := d }).Represents a := by
    rw [← setDirnode_withCopy]
    refine (h.idle (withCopy_idle hnode)).of_unaffected rfl (setDirnode_unaffected ?_)
    intro m hm
    rw [withCopy_self, Option.some.injEq] at hm
    rw [hd, hm]
  cases hrenamed : dirnodeRenameWithin n.object oldname newname o.bucketUuid with
  | mk d result =>
    rw [hrenamed] at hend htracks hsafe
    cases result with
    | notFound =>
      rw [hend]
      exact hcopy (contents_dirnodeRenameWithin_of_failed hwf.coherent hrenamed (by simp))
    | undefined =>
      rw [hend]
      exact hcopy (contents_dirnodeRenameWithin_of_failed hwf.coherent hrenamed (by simp))
    | renamed moved overwritten =>
      rw [hend, isOk_stored_eq] at herror
      rw [hend]
      exact (h.idle (withCopy_idle hnode)).save_failed_safe ((withCopy_idle hnode).sane hsane)
        hkind (hfresh.macs dir) withCopy_self (dirNode_valid hnode) htracks
        (hsafe.congr rfl rfl) herror

theorem renameAcross_represents (hfresh : o.Fresh s) {fromDir toDir : Uuid} (hne : fromDir ≠ toDir)
    (hroom : s.HasRoom o toDir)
    (hfits : ∀ src dst, s.dirNode o.bucket0 fromDir = some src →
      s.dirNode o.bucket0 toDir = some dst → RenameFits src.object dst.object oldname)
    (hkind : a.kind fromDir = some .dir) (hkind' : a.kind toDir = some .dir)
    (hspares : Spares a (toDir, newname))
    (hok : (renameAcross o s fromDir oldname toDir newname).2.isOk = true) :
    a.Ok (.move (fromDir, oldname) (toDir, newname)) ∧
      (renameAcross o s fromDir oldname toDir newname).1.Represents
        (a.apply (.move (fromDir, oldname) (toDir, newname))) := by
  obtain ⟨n, m, src, dst, moved, overwritten, c, c', hnode, hnode', hrenamed, heq, hsrc, hdst⟩ :=
    renameAcross_written hsane hfresh hne hroom hfits hok
  obtain ⟨hold, hfrom, hto⟩ := entries_dirnodeRenameAcross
    (hsane.dirNode hnode).storable.wf.coherent (hsane.dirNode hnode').storable.wf.coherent hrenamed
  rw [h.entries hnode] at hold hfrom
  rw [h.entries hnode'] at hto
  refine ⟨⟨hkind', by simp [hne], by simp [hold], hspares⟩, ?_⟩
  set s₁ := (s.withCopy fromDir n).withCopy toDir { m with object := dst, isDirty := true }
  have hafter : (renameAcross o s fromDir oldname toDir newname).1.Represents
      ((a.withDir fromDir src.contents.entries).withDir toDir dst.contents.entries) := by
    refine h.of_dirs ?_ ?_ rfl ?_ ?_
    · rw [heq, storeDirnode_rootUuid, save_rootUuid]
      rfl
    · obtain ⟨htable, hstored⟩ := storeDirnode_table (s₁.save o fromDir src).1 o toDir
      obtain ⟨htable', hstored'⟩ := save_table s₁ o fromDir src
      rw [heq]
      exact ⟨htable.trans htable', hstored.trans hstored'⟩
    · intro v
      rw [h.kind_eq] at hkind hkind'
      have hfirst := save_kind (s := s₁) hkind o src
      rw [heq, storeDirnode_kind ((hfirst toDir).trans hkind'), hfirst v]
      exact (h.kind_eq v).symm
    · intro v
      by_cases hv' : v = toDir
      · subst hv'
        refine .inl ⟨hdst.view.trans hdst.stored.symm, ?_⟩
        simp [hdst.stored, hdst.entries, Namespace.withDir]
      by_cases hv : v = fromDir
      · subst hv
        refine .inl ⟨hsrc.view.trans hsrc.stored.symm, ?_⟩
        simp [hsrc.stored, hsrc.entries, Namespace.withDir, hne]
      obtain ⟨hobjects, hdirnodes⟩ := storeDirnode_frame (s₁.save o fromDir src).1 o hv'
      obtain ⟨hobjects', hdirnodes'⟩ := save_frame s₁ o src hv
      rw [heq]
      refine .inr ⟨hobjects.trans hobjects', (hdirnodes.trans hdirnodes').trans ?_, ?_⟩
      · exact (withCopy_of_ne hv').trans (withCopy_of_ne hv)
      · intro x
        simp [Namespace.withDir, hv, hv']
  convert hafter using 1
  ext1
  · set b := a.withDir fromDir src.contents.entries with hb
    have hentry : b.entry = update a.entry (fromDir, oldname) none := by
      rw [hb, hfrom]
      exact Namespace.withDir_entry_update ..
    have hother : (fun x => a.entry (toDir, x)) = fun x => b.entry (toDir, x) := by
      funext x
      simp [b, Namespace.withDir, hne.symm]
    rw [hto, hother, Namespace.withDir_entry_update, hentry]
    exact congrArg (update (update a.entry (fromDir, oldname) none)
      (toDir, newname)) hold
  · rfl
  · rfl

theorem renameAcross_represents_error {fromDir toDir : Uuid} (hne : fromDir ≠ toDir)
    (hstores : o.Stores fromDir) (hstores' : o.Stores toDir)
    (herror : (renameAcross o s fromDir oldname toDir newname).2.isOk = false) :
    (renameAcross o s fromDir oldname toDir newname).1.Represents a := by
  rcases renameAcross_ends o s hne oldname newname with
    ⟨-, -, hidle⟩ | ⟨n, m, -, hnode, hnode', hend⟩
  · exact h.idle hidle
  rw [dirnodeRenameAcross_eq (hsane.dirNode hnode).storable.wf.coherent
    (hsane.dirNode hnode').storable.wf.coherent] at hend
  cases hfind : n.object.lookup oldname with
  | none =>
    simp only [hfind] at hend
    rw [hend]
    have hread := dirNode_withCopy_of_ne (s := s)
      (n := { n with object := (findByName n.object oldname).1 }) hne.symm o.bucket0
    exact (h.idle (lookup_idle hnode oldname)).idle (withCopy_idle (hread.trans hnode'))
  | some e =>
    simp only [hfind] at hend
    generalize moveSymlink _ _ e.linkUuid = moved at hend
    set s₁ := (s.withCopy fromDir n).withCopy toDir { m with object := moved.2, isDirty := true }
    have hcopy : s₁.dirnodes fromDir = some n := (withCopy_of_ne hne).trans withCopy_self
    have hcopy' : (s₁.save o fromDir moved.1).1.dirnodes toDir
        = some { m with object := moved.2, isDirty := true } :=
      (save_frame s₁ o moved.1 hne.symm).2.trans withCopy_self
    rcases hend with ⟨hfalse, -⟩ | ⟨-, heq⟩
    · simp [save_of_stores hstores hcopy] at hfalse
    · rw [heq, isOk_stored_eq, storeDirnode_of_ok hcopy' rfl (storeResult_of_stores hstores' ..)]
        at herror
      contradiction

end

end Fs

/-! ## All calls -/

namespace Call

variable {s : Fs} {a : Namespace} {o : Outcome} {c : Call}

/-- The directories are directories, no name of something that stays behind is
dropped, and a link is made where it gets stored. -/
def Orderly (o : Outcome) (a : Namespace) : Call → Prop
  | create dir _ _ => a.kind dir = some .dir
  | symlink dir _ _ => a.kind dir = some .dir
  | remove dir name => a.kind dir = some .dir ∧ Fs.Removable a o (dir, name)
  | hardlink linkDir _ targetDir targetName =>
    linkDir = targetDir ∧ a.kind linkDir = some .dir ∧
      ∀ uuid, a.entry (targetDir, targetName) = some (.reg, uuid) → (a.links uuid).getD 1 < 2 ^ 31
  | rename fromDir _ toDir newname =>
    a.kind fromDir = some .dir ∧ a.kind toDir = some .dir ∧ Fs.Spares a (toDir, newname)
  | truncate _ _ => False
  | encryptStart _ _ => False

/-- No directory is moved below itself. -/
def Acyclic (a : Namespace) : Call → Prop
  | rename fromDir oldname toDir newname => a.Acyclic (.move (fromDir, oldname) (toDir, newname))
  | _ => True

/-- A store fails only where the datastore is left as it was, and a link is
counted only for a name that is free. -/
def FailsSafely (o : Outcome) (s : Fs) : Call → Prop
  | create dir name type => ∀ n, s.dirNode o.bucket0 dir = some n →
    s.StoreSafe o dir (dirnodeAdd n.object name type o.entryUuid o.bucketUuid).1
  | symlink dir name target => ∀ n, s.dirNode o.bucket0 dir = some n →
    s.StoreSafe o dir (dirnodeAddLink n.object name target o.entryUuid o.bucketUuid).1
  | remove dir _ => o.Stores dir
  | hardlink linkDir linkName targetDir targetName =>
    o.Stores targetDir ∧
      ((∃ uuid, s.toNamespace.entry (targetDir, targetName) = some (.reg, uuid)) →
        o.tableAcquire = true → o.tableFlush = true →
        s.toNamespace.entry (linkDir, linkName) = none)
  | rename fromDir oldname toDir newname =>
    (fromDir, oldname) ≠ (toDir, newname) ∧
      if fromDir = toDir then
        ∀ n, s.dirNode o.bucket0 fromDir = some n →
          s.StoreSafe o fromDir (dirnodeRenameWithin n.object oldname newname o.bucketUuid).1
      else o.Stores fromDir ∧ o.Stores toDir
  | truncate _ _ => True
  | encryptStart _ _ => True

theorem run_represents (h : s.Represents a) (hsane : s.Sane) (hcounted : a.Counted)
    (hfresh : o.Fresh s) (hfits : c.Fits o s) (horderly : c.Orderly o a)
    (hok : (c.run o s).2.isOk = true) :
    ∃ change, a.Ok change ∧ (c.Acyclic a → a.Acyclic change) ∧
      (c.run o s).1.Represents (a.apply change) := by
  have hperform := run_of_isOk hok
  rw [hperform] at hok ⊢
  cases c with
  | create dir name type =>
    obtain ⟨hok, hrep⟩ := (Fs.ecallFsCreate_ends o s dir name type).represents h hfresh horderly
      (fun n hnode => (hsane.dirNode hnode).add (hfits n hnode) name type o.entryUuid
        (hfresh.bucketUuid dir n hnode))
      (fun n hnode => entries_dirnodeAdd (hsane.dirNode hnode).storable.wf.coherent)
      (Fs.isOk_report hok)
    exact ⟨_, hok, fun _ => trivial, hrep⟩
  | symlink dir name target =>
    obtain ⟨hok, hrep⟩ := (Fs.ecallFsSymlink_ends o s dir name target).represents h hfresh horderly
      (fun n hnode => (hsane.dirNode hnode).addLink (hfits.1 n hnode) name o.entryUuid
        (hfresh.bucketUuid dir n hnode) (hfits.2 n hnode))
      (fun n hnode => entries_dirnodeAddLink (hsane.dirNode hnode).storable.wf.coherent)
      (Fs.isOk_report hok)
    exact ⟨_, hok, fun _ => trivial, hrep⟩
  | remove dir name =>
    obtain ⟨hok, hrep⟩ := Fs.ecallFsRemove_represents h hsane hcounted horderly.1 horderly.2
      (Fs.isOk_report hok)
    exact ⟨_, hok, fun _ => trivial, hrep⟩
  | hardlink linkDir linkName targetDir targetName =>
    obtain ⟨rfl, hkind, hcount⟩ := horderly
    obtain ⟨uuid, hok, hrep⟩ := Fs.ecallFsHardlink_represents h hsane hfresh hfits hkind hcount
      (Fs.isOk_report hok)
    exact ⟨_, hok, fun _ => trivial, hrep⟩
  | rename fromDir oldname toDir newname =>
    obtain ⟨hkind, hkind', hspares⟩ := horderly
    unfold perform Fs.ecallFsRename at hok ⊢
    dsimp only at hok ⊢
    by_cases hdirs : fromDir = toDir
    · subst hdirs
      simp only [if_true] at hok ⊢
      obtain ⟨hok, hrep⟩ := Fs.renameWithin_represents h hsane hfresh hfits.1 hkind hspares
        (Fs.isOk_report hok)
      exact ⟨_, hok, id, hrep⟩
    · simp only [if_neg hdirs] at hok ⊢
      obtain ⟨hok, hrep⟩ := Fs.renameAcross_represents h hsane hfresh hdirs hfits.1 hfits.2 hkind
        hkind' hspares (Fs.isOk_report hok)
      exact ⟨_, hok, id, hrep⟩
  | truncate file size | encryptStart file size => exact horderly.elim

theorem run_represents_step (h : s.Represents a) (hsane : s.Sane) (hcounted : a.Counted)
    (hfresh : o.Fresh s) (hfits : c.Fits o s) (horderly : c.Orderly o a)
    (hsafe : c.FailsSafely o s) : ∃ b, a.Step b ∧ (c.run o s).1.Represents b := by
  cases hok : (c.run o s).2.isOk with
  | true =>
    obtain ⟨change, hchange, -, hrep⟩ :=
      run_represents h hsane hcounted hfresh hfits horderly hok
    exact ⟨_, .change hchange, hrep⟩
  | false =>
    have hshows := h.shows
    rcases c.run_cases o s with hperform | hperform
    · rw [hperform]
      exact ⟨a, .idle, h⟩
    rw [hperform] at hok ⊢
    cases c with
    | create dir name type =>
      rw [perform, isOk_report_eq] at hok
      exact (Fs.ecallFsCreate_ends o s dir name type).represents_error h hsane hfresh horderly
        (fun n hnode => (hsane.dirNode hnode).add (hfits n hnode) name type o.entryUuid
          (hfresh.bucketUuid dir n hnode))
        (fun n hnode => contents_dirnodeAdd_of_failed (hsane.dirNode hnode).storable.wf.coherent)
        hsafe hok
    | symlink dir name target =>
      rw [perform, isOk_report_eq] at hok
      exact (Fs.ecallFsSymlink_ends o s dir name target).represents_error h hsane hfresh horderly
        (fun n hnode => (hsane.dirNode hnode).addLink (hfits.1 n hnode) name o.entryUuid
          (hfresh.bucketUuid dir n hnode) (hfits.2 n hnode))
        (fun n hnode => contents_dirnodeAddLink_of_failed (hsane.dirNode hnode).storable.wf.coherent)
        hsafe hok
    | remove dir name =>
      rw [perform, isOk_report_eq] at hok
      exact ⟨a, .idle, Fs.ecallFsRemove_represents_error h hsane hcounted horderly.1 horderly.2
        hsafe hok⟩
    | hardlink linkDir linkName targetDir targetName =>
      obtain ⟨rfl, -, -⟩ := horderly
      obtain ⟨hstores, hfree⟩ := hsafe
      rw [hshows] at hfree
      rw [perform, isOk_report_eq] at hok
      exact ⟨a, .idle, Fs.ecallFsHardlink_represents_error h hsane hstores hfree hok⟩
    | rename fromDir oldname toDir newname =>
      obtain ⟨hkind, -, -⟩ := horderly
      obtain ⟨-, hstores⟩ := hsafe
      rw [perform, isOk_report_eq] at hok
      unfold perform Fs.ecallFsRename at *
      dsimp only at hok ⊢
      refine ⟨a, .idle, ?_⟩
      by_cases hdirs : fromDir = toDir
      · subst hdirs
        simp only [if_true] at hok hstores ⊢
        exact Fs.renameWithin_represents_error h hsane hfresh hfits.1 hkind hstores hok
      · simp only [if_neg hdirs] at hok hstores ⊢
        exact Fs.renameAcross_represents_error h hsane hdirs hstores.1 hstores.2 hok
    | truncate file size | encryptStart file size => exact horderly.elim

end Call

/-- What the steps of a namespace keep holds of the namespace after every run. -/
theorem Fs.Reachable.represents_and {ok : Outcome → Fs → Call → Prop} {s : Fs}
    {P : Uuid → Namespace → Prop} (h : Reachable ok s) (hfresh : ∀ root, P root (.fresh root))
    (hok : ∀ o s c, ok o s c → c.Fits o s)
    (hstep : ∀ {s : Fs} (o : Outcome) (c : Call) (a : Namespace), s.Represents a → s.Sane →
      P s.rootUuid a → o.Fresh s → ok o s c → ∃ b, (c.run o s).1.Represents b ∧ P s.rootUuid b) :
    s.Represents s.toNamespace ∧ P s.rootUuid s.toNamespace := by
  suffices hsome : ∃ a, s.Represents a ∧ P s.rootUuid a by
    obtain ⟨a, hrep, hp⟩ := hsome
    rw [hrep.shows]
    exact ⟨hrep, hp⟩
  induction h with
  | create hcreate => exact ⟨_, nxCreateVolume_represents hcreate, hfresh _⟩
  | dropCopies dirnodes filenodes table _ ih =>
    obtain ⟨a, hrep, hp⟩ := ih
    exact ⟨a, hrep.dropCopies dirnodes filenodes table, hp⟩
  | call o c hreach hnew hcall _ ih =>
    obtain ⟨a, hrep, hp⟩ := ih
    rw [Call.run_rootUuid]
    exact hstep o c a hrep (hreach.sane hok) hp hnew hcall

end Nexus
