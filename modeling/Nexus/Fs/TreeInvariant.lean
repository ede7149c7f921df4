import Nexus.Fs.RenameLoss
import Nexus.Fs.Simulation

/-!
# The directory tree of a volume

After runs of successful calls the directories are a tree, as long as nothing
but a symlink is overwritten, only empty directories are removed, what is
removed gets deleted, links stay in their directory and no directory moves below
itself.
-/

namespace Nexus

open Relation LabelledTree Namespace

namespace Fs

variable {s : Fs} {a : Namespace}

/-- The directory `u` has an entry for the directory `v`. -/
def Contains (s : Fs) (u v : Uuid) : Prop :=
  ∃ name, s.toNamespace.entry (u, name) = some (.dir, v)

/-- The directories are a tree below the root directory, every entry refers to
an object, and every file has an entry in the tree. -/
structure IsTree (s : Fs) : Prop where
  root : s.toNamespace.kind s.rootUuid = some .dir
  existsUnique : ∀ uuid, s.toNamespace.kind uuid = some .dir → uuid ≠ s.rootUuid →
    ∃! place, s.toNamespace.entry place = some (.dir, uuid)
  reachable : ∀ uuid, s.toNamespace.kind uuid = some .dir →
    ReflTransGen s.Contains s.rootUuid uuid
  acyclic : ∀ uuid, ¬ TransGen s.Contains uuid uuid
  objects : ∀ place type uuid, s.toNamespace.entry place = some (type, uuid) →
    s.toNamespace.kind uuid = some type
  files : ∀ uuid, s.toNamespace.kind uuid = some .reg →
    ∃ place, s.toNamespace.entry place = some (.reg, uuid) ∧
      ReflTransGen s.Contains s.rootUuid place.1

theorem contains_eq (s : Fs) : s.Contains = Child s.toNamespace.edge := by
  funext u v
  exact propext (exists_congr fun _ => edge_eq_some.symm)

theorem IsTree.of_rooted (h : s.toNamespace.Rooted s.rootUuid) : s.IsTree where
  root := h.tree.root_mem
  existsUnique uuid hkind hne := by
    obtain ⟨place, hplace, hunique⟩ := h.tree.existsUnique_edge hkind hne
    exact ⟨place, edge_eq_some.mp hplace, fun q hq => hunique q (edge_eq_some.mpr hq)⟩
  reachable uuid hkind := by
    rw [contains_eq]
    exact h.tree.reach hkind
  acyclic uuid hcycle := by
    rw [contains_eq] at hcycle
    -- only directories are on a cycle
    obtain ⟨v, ⟨x, hx⟩, -⟩ := TransGen.head'_iff.mp hcycle
    exact h.tree.acyclic (h.tree.source_mem hx) hcycle
  objects _ _ _ hentry := h.counted.kinds hentry
  files uuid hkind := by
    obtain ⟨place, hplace⟩ := h.named hkind
    refine ⟨place, hplace, ?_⟩
    rw [contains_eq]
    exact h.tree.reach (h.places (by simp [hplace]))

theorem Reachable.rooted {ok : Outcome → Fs → Call → Prop} (h : Reachable ok s)
    (hok : ∀ o s c, ok o s c → c.Fits o s ∧ (c.run o s).2.isOk = true ∧
      c.Orderly o s.toNamespace ∧ c.Acyclic s.toNamespace) :
    s.Represents s.toNamespace ∧ s.toNamespace.Rooted s.rootUuid := by
  refine h.represents_and (P := fun root a => a.Rooted root) fresh_rooted
    (fun o s c hc => (hok o s c hc).1)
    fun o c a hrep hsane hrooted hfresh hstep => ?_
  obtain ⟨hfits, hsuccess, horderly, hacyclic⟩ := hok _ _ _ hstep
  rw [hrep.shows] at horderly hacyclic
  obtain ⟨change, hchange, hmoves, hrep'⟩ :=
    Call.run_represents hrep hsane hrooted.counted hfresh hfits horderly hsuccess
  exact ⟨a.apply change, hrep', hrooted.apply hchange (hmoves hacyclic)⟩

/-- In every run of successful calls that are orderly and move no directory below
itself, the directories are a tree, in the enclave and in the datastore. -/
theorem reachable_isTree
    (h : Reachable (fun o s c => c.Fits o s ∧ (c.run o s).2.isOk = true ∧
      c.Orderly o s.toNamespace ∧ c.Acyclic s.toNamespace) s) :
    s.IsTree ∧ ∀ dir, s.dirView dir = s.dirStored dir := by
  obtain ⟨hrep, hrooted⟩ := h.rooted fun _ _ _ hok => hok
  refine ⟨.of_rooted hrooted, ?_⟩
  rw [(h.tidy fun _ _ _ hok => hok.2.1).dirStored]
  exact hrep.dirs

end Fs

/-! ### Two runs -/

theorem volumeWithBoth_isTree :
    volumeWithBoth.IsTree ∧ ∀ dir, volumeWithBoth.dirView dir = volumeWithBoth.dirStored dir := by
  have hkind : newVolume.toNamespace.kind 1 = some .dir := by decide +kernel
  have hkind' : volumeWithFile.toNamespace.kind 1 = some .dir := by decide +kernel
  obtain ⟨hfile, hboth⟩ := volumeWithBoth_created
  refine Fs.reachable_isTree (.call _ _ (.call _ _ (.create nxCreateVolume_newVolume)
    newVolume_ready.1 ⟨newVolume_ready.2, hfile, hkind, trivial⟩ (Result.ne_undefined hfile))
    volumeWithFile_ready.1 ⟨volumeWithFile_ready.2, hboth, hkind', trivial⟩
    (Result.ne_undefined hboth))

theorem Fs.not_isTree_of_unnamed {s : Fs} {uuid : Uuid}
    (hkind : s.toNamespace.kind uuid = some .dir) (hne : uuid ≠ s.rootUuid)
    (hnone : ∀ place type, s.toNamespace.entry place ≠ some (type, uuid)) : ¬ s.IsTree := by
  intro htree
  obtain ⟨place, hplace, -⟩ := htree.existsUnique uuid hkind hne
  exact hnone place .dir hplace

/-- Renaming the file `a` to `d` succeeds and leaves the directory that was `d`
without an entry. -/
theorem rename_over_directory_not_isTree :
    Fs.Reachable (fun o s c => c.Fits o s ∧ (c.run o s).2.isOk = true) volumeWithBoth ∧
      (Outcome.smooth 12 22).Fresh volumeWithBoth ∧
      (Call.rename 1 nameA 1 nameD).Fits (.smooth 12 22) volumeWithBoth ∧
      ((Call.rename 1 nameA 1 nameD).run (.smooth 12 22) volumeWithBoth).2.isOk = true ∧
      ¬ ((Call.rename 1 nameA 1 nameD).run (.smooth 12 22) volumeWithBoth).1.IsTree := by
  obtain ⟨hfile, hboth⟩ := volumeWithBoth_created
  have hreach : Fs.Reachable (fun o s c => c.Fits o s ∧ (c.run o s).2.isOk = true)
      volumeWithBoth :=
    .call _ _ (.call _ _ (.create nxCreateVolume_newVolume) newVolume_ready.1
      ⟨newVolume_ready.2, hfile⟩ (Result.ne_undefined hfile))
      volumeWithFile_ready.1 ⟨volumeWithFile_ready.2, hboth⟩ (Result.ne_undefined hboth)
  obtain ⟨hfresh, hroom, -⟩ := volumeWithBoth_ready
  have hok : (Fs.renameWithin (.smooth 12 22) volumeWithBoth 1 nameA nameD).2.isOk = true := by
    decide +kernel
  have hsane := hreach.sane fun _ _ _ hok => hok.1
  refine ⟨hreach, hfresh, ⟨hroom, ?_⟩, by decide +kernel, ?_⟩
  · intro src dst hsrc _
    exact renameFits_of_check (by decide +kernel) hsrc _ _
  · have hwithin := volumeWithBoth_within.renameWithin (by simp) hsane hfresh hroom hok
    rw [Call.run_rename_within _ _ (by decide +kernel)]
    exact Fs.not_isTree_of_unnamed (by decide +kernel) (by decide +kernel)
      (hwithin.entry_ne 11 (by decide +kernel))

end Nexus
