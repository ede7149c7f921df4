import Nexus.Fs.RenameLoss
import Nexus.Fs.Simulation

/-!
# Link counts

In runs whose calls are orderly and fail safely, the hardlink table counts the
names of every file, and a file is deleted with its last name.  Overwriting a
file by a rename does neither.
-/

namespace Nexus

open Namespace

/-- What the link counts need of a call. -/
def Call.KeepsCounts (o : Outcome) (s : Fs) (c : Call) : Prop :=
  c.Orderly o s.toNamespace ∧ c.FailsSafely o s

namespace Fs

variable {s : Fs} {a : Namespace}

/-- The entries of the volume that refer to a file. -/
def names (s : Fs) (uuid : Uuid) : Set Place :=
  {place | s.toNamespace.entry place = some (.reg, uuid)}

/-- The hardlink table in the datastore holds the number of names of a file with
several names, and has no entry for a file with one. -/
structure CountsLinks (s : Fs) (uuid : Uuid) : Prop where
  finite : (s.names uuid).Finite
  several : 2 ≤ (s.names uuid).ncard →
    (s.diskTable.getEntry uuid).map BitVec.toNat = some (s.names uuid).ncard
  one : (s.names uuid).ncard = 1 → s.diskTable.getEntry uuid = none
  cached : s.tableView.getEntry uuid = s.diskTable.getEntry uuid

theorem Represents.names_eq (h : s.Represents a) (uuid : Uuid) :
    s.names uuid = refs a.entry (.reg, uuid) := by
  rw [names, h.shows]
  rfl

theorem Represents.countsLinks (h : s.Represents a) (hcounted : a.Counted) (hsynced : s.Synced)
    (uuid : Uuid) : s.CountsLinks uuid := by
  have hnames := h.names_eq uuid
  have hlinks : (s.diskTable.getEntry uuid).map BitVec.toNat = a.links uuid := by
    rw [h.links_eq, h.table, hsynced.table]
  constructor
  · rw [hnames]
    exact hcounted.finite uuid
  · intro htwo
    rw [hnames] at htwo ⊢
    rw [hlinks]
    exact hcounted.links_of_two htwo
  · intro hone
    rw [hnames] at hone
    rw [hcounted.links_of_one (show a.nameCount uuid ≤ 1 from hone.le),
      Option.map_eq_none_iff] at hlinks
    exact hlinks
  · rw [h.table, hsynced.table]

end Fs

/-- The call deletes the object of a file exactly if it takes its last name. -/
def Call.DeletesLast (o : Outcome) (s : Fs) (c : Call) : Prop :=
  ∀ uuid object, s.disk uuid = some object → object.kind = .reg →
    ((c.run o s).1.disk uuid = none ↔
      (s.names uuid).Nonempty ∧ (c.run o s).1.names uuid = ∅)

theorem Fs.Reachable.represents {ok : Outcome → Fs → Call → Prop} {s : Fs} (h : Reachable ok s)
    (hok : ∀ o s c, ok o s c → c.Ready o s ∧ c.KeepsCounts o s) :
    s.Represents s.toNamespace ∧ s.toNamespace.Counted := by
  refine h.represents_and (fun _ => (fresh_rooted _).counted) (fun o s c hc => (hok o s c hc).1.fits)
    fun o c a hrep hsane hcounted hfresh hstep => ?_
  obtain ⟨hready, horderly, hsafe⟩ := hok _ _ _ hstep
  rw [hrep.shows] at horderly
  obtain ⟨b, hab, hrep'⟩ :=
    Call.run_represents_step hrep hsane hcounted hfresh hready.fits horderly hsafe
  exact ⟨b, hrep', hcounted.step hab⟩

theorem Call.deletesLast_of_represents {s : Fs} {o : Outcome} {c : Call} {a b : Namespace}
    (hrep : s.Represents a) (hcounted : a.Counted) (hsynced : s.Synced) (hab : a.Step b)
    (hrep' : (c.run o s).1.Represents b) (hsynced' : (c.run o s).1.Synced) :
    c.DeletesLast o s := by
  unfold DeletesLast
  rw [hsynced.objects, hsynced'.objects]
  intro uuid object hobject hreg
  have hkind : a.kind uuid = some .reg := by
    rw [hrep.kind_eq, hobject, Option.map_some, hreg]
  have hgone : (c.run o s).1.objects uuid = none ↔ b.kind uuid = none := by
    rw [hrep'.kind_eq, Option.map_eq_none_iff]
  rw [hgone, hrep.names_eq, hrep'.names_eq]
  by_cases hnamed : (refs a.entry (.reg, uuid)).Nonempty
  · obtain ⟨place, hplace⟩ := hnamed
    rw [hcounted.step_deletes_last hab hplace, Set.eq_empty_iff_forall_notMem]
    exact ⟨fun hall => ⟨⟨place, hplace⟩, hall⟩, fun hall => hall.2⟩
  · have hstays : b.kind uuid ≠ none := by
      refine hab.keeps_unnamed (by simp [hkind]) ?_
      intro place type hplace
      obtain rfl : type = .reg := by
        have := hcounted.kinds hplace
        rw [hkind, Option.some.injEq] at this
        exact this.symm
      exact hnamed ⟨place, hplace⟩
    exact ⟨fun hnone => absurd hnone hstays, fun hall => absurd hall.1 hnamed⟩

/-- In every run whose calls find nothing locked, are orderly and fail safely, the
table counts the links and every further such call deletes a file with its last
name. -/
theorem Fs.reachable_counts_links {s : Fs}
    (h : Fs.Reachable (fun o s c => c.Ready o s ∧ c.KeepsCounts o s) s) :
    (∀ dir, s.dirView dir = s.dirStored dir) ∧ (∀ uuid, s.CountsLinks uuid) ∧
      ∀ (o : Outcome) (c : Call), o.Fresh s → c.Ready o s → c.KeepsCounts o s →
        c.DeletesLast o s := by
  obtain ⟨hrep, hcounted⟩ := h.represents fun _ _ _ hok => hok
  have hsynced := h.synced fun _ _ _ hok _ => hok.1.unlocked
  refine ⟨?_, hrep.countsLinks hcounted hsynced, ?_⟩
  · rw [hsynced.dirStored]
    exact hrep.dirs
  intro o c hfresh hready hkeeps
  have hsane := h.sane fun _ _ _ hok => hok.1.fits
  obtain ⟨b, hab, hrep'⟩ :=
    Call.run_represents_step hrep hsane hcounted hfresh hready.fits hkeeps.1 hkeeps.2
  have hsettled := c.run_settled ⟨hsynced, hready.unlocked⟩ o
  exact Call.deletesLast_of_represents hrep hcounted hsynced hab hrep' hsettled.1

/-! ### Two runs -/

theorem Outcome.smooth_stores (entryUuid bucketUuid dir : Uuid) :
    (Outcome.smooth entryUuid bucketUuid).Stores dir :=
  ⟨by simp [Outcome.smooth, StoreOutcome.smooth], fun _ => rfl, rfl⟩

theorem Call.remove_file_keepsCounts {s : Fs} {o : Outcome} {dir uuid : Uuid} {name : Name}
    (hkind : s.toNamespace.kind dir = some .dir)
    (hentry : s.toNamespace.entry (dir, name) = some (.reg, uuid)) (hdel : o.bufferDel = true)
    (hstores : o.Stores dir) : (Call.remove dir name).KeepsCounts o s := by
  refine ⟨⟨hkind, ?_⟩, hstores⟩
  unfold Fs.Removable
  rw [hentry]
  exact fun _ => hdel

theorem volumeWithFile_create_keepsCounts :
    (Call.create 1 nameA .reg).KeepsCounts (.smooth 10 20) newVolume := by
  refine ⟨show (newVolume.objects 1).map Object.kind = some .dir by decide +kernel, ?_⟩
  intro n _
  exact .inl (Fs.storeResult_of_stores (Outcome.smooth_stores ..) ..)

/-- A run that makes the file `a` keeps the counts, and removing `a` then deletes
it. -/
theorem remove_file_deletes_last :
    (∀ uuid, volumeWithFile.CountsLinks uuid) ∧
      (Call.remove 1 nameA).DeletesLast (.smooth 12 22) volumeWithFile := by
  have hreach : Fs.Reachable (fun o s c => c.Ready o s ∧ c.KeepsCounts o s) volumeWithFile :=
    .call _ _ (.create nxCreateVolume_newVolume) newVolume_ready.1
      ⟨⟨newVolume_ready.2, (Fs.nxCreateVolume_tidy nxCreateVolume_newVolume).unlocked⟩,
        volumeWithFile_create_keepsCounts⟩
      (Result.ne_undefined volumeWithBoth_created.1)
  obtain ⟨-, hcounts, hdeletes⟩ := Fs.reachable_counts_links hreach
  have hfresh : (Outcome.smooth 12 22).Fresh volumeWithFile :=
    volumeWithFile_within.fresh (by decide) (by decide +kernel)
  have hkind : volumeWithFile.toNamespace.kind 1 = some .dir := by decide +kernel
  have hentry : volumeWithFile.toNamespace.entry ((1 : Uuid), nameA) = some (.reg, 10) := by
    decide +kernel
  exact ⟨hcounts, hdeletes (.smooth 12 22) (.remove 1 nameA) hfresh
    ⟨trivial, volumeWithFile_tidy.unlocked⟩
    (Call.remove_file_keepsCounts hkind hentry rfl (Outcome.smooth_stores ..))⟩

/-- Two files `a` and `d` in the root directory. -/
def volumeWithFiles : Fs := ((Call.create 1 nameD .reg).run (.smooth 11 21) volumeWithFile).1

theorem volumeWithFiles_within : volumeWithFiles.Within [11, 10, 1] :=
  volumeWithFile_within.create (by simp) _ _ _

theorem volumeWithFiles_created :
    ((Call.create 1 nameD .reg).run (.smooth 11 21) volumeWithFile).2.isOk = true := by
  decide +kernel

theorem volumeWithFiles_tidy : volumeWithFiles.Tidy :=
  (volumeWithFiles_created ▸ Call.run_settled volumeWithFile_tidy _ _).tidy

theorem volumeWithFiles_reachable :
    Fs.Reachable (fun o s c => c.Ready o s) volumeWithFiles :=
  .call _ _ volumeWithFile_reachable volumeWithFile_ready.1
    ⟨volumeWithFile_ready.2, volumeWithFile_tidy.unlocked⟩
    (Result.ne_undefined volumeWithFiles_created)

theorem Call.rename_not_deletesLast {s : Fs} {o : Outcome} {dir uuid : Uuid}
    {oldname newname : Name} {place : Place} (hdir : s.isFile dir = false)
    (hobject : (s.disk uuid).map Object.kind = some .reg)
    (hentry : s.toNamespace.entry place = some (.reg, uuid))
    (hnone : ∀ place type, (Fs.renameWithin o s dir oldname newname).1.toNamespace.entry place
      ≠ some (type, uuid))
    (hstays : ((Fs.renameWithin o s dir oldname newname).1.disk uuid).isSome = true) :
    ¬ (Call.rename dir oldname dir newname).DeletesLast o s := by
  intro hdeletes
  obtain ⟨object, hsome, hreg⟩ := Option.map_eq_some_iff.mp hobject
  have hgone := (hdeletes uuid object hsome hreg).mpr
  rw [Call.run_rename_within _ _ hdir] at hgone
  rw [hgone ⟨⟨place, hentry⟩,
    Set.eq_empty_iff_forall_notMem.mpr fun place => hnone place .reg⟩] at hstays
  contradiction

/-- Renaming `a` to `d` succeeds and takes the only name of the file that was
`d`, but its object stays. -/
theorem rename_over_file_keeps_object :
    Fs.Reachable (fun o s c => c.Ready o s) volumeWithFiles ∧
      (Outcome.smooth 12 22).Fresh volumeWithFiles ∧
      (Call.rename 1 nameA 1 nameD).Ready (.smooth 12 22) volumeWithFiles ∧
      ((Call.rename 1 nameA 1 nameD).run (.smooth 12 22) volumeWithFiles).2.isOk = true ∧
      ¬ (Call.rename 1 nameA 1 nameD).DeletesLast (.smooth 12 22) volumeWithFiles := by
  have hfresh : (Outcome.smooth 12 22).Fresh volumeWithFiles :=
    volumeWithFiles_within.fresh (by decide) (by decide +kernel)
  have hroom : volumeWithFiles.HasRoom (.smooth 12 22) 1 := hasRoom_of_check (by decide +kernel)
  have hok : (Fs.renameWithin (.smooth 12 22) volumeWithFiles 1 nameA nameD).2.isOk = true := by
    decide +kernel
  have hsane := volumeWithFiles_reachable.sane fun _ _ _ hok => hok.fits
  refine ⟨volumeWithFiles_reachable, hfresh, ⟨⟨hroom, ?_⟩, volumeWithFiles_tidy.unlocked⟩,
    by decide +kernel, ?_⟩
  · intro src dst hsrc _
    exact renameFits_of_check (by decide +kernel) hsrc _ _
  have hwithin := volumeWithFiles_within.renameWithin (by simp) hsane hfresh hroom hok
  have hentry : volumeWithFiles.toNamespace.entry ((1 : Uuid), nameD) = some (.reg, 11) := by
    decide +kernel
  exact Call.rename_not_deletesLast (by decide +kernel) (by decide +kernel) hentry
    (hwithin.entry_ne 11 (by decide +kernel)) (by decide +kernel)

end Nexus
