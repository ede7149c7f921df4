import Nexus.Fs.Namespace

/-!
# The directory tree

While no directory moves below itself and no name of something that stays is
dropped, the directories are a tree and every file has a name in it.
-/

namespace Nexus

open Function Relation LabelledTree

namespace Namespace

variable {a b : Namespace} {root uuid : Uuid} {place : Place}

/-- The directories that there are. -/
def dirs (a : Namespace) : Set Uuid := {uuid | a.kind uuid = some .dir}

structure Rooted (a : Namespace) (root : Uuid) : Prop where
  counted : a.Counted
  tree : IsTree a.edge root a.dirs
  places : ∀ {place}, a.entry place ≠ none → place.1 ∈ a.dirs
  named : ∀ {uuid}, a.kind uuid = some .reg → ∃ place, a.entry place = some (.reg, uuid)

variable {v : Option (DirentType × Uuid)}

theorem edge_update (hb : b.entry = update a.entry place v) :
    b.edge = update a.edge place (dirOf v) := by
  rw [edge, hb, comp_update]
  rfl

theorem edge_update_same (hb : b.entry = update a.entry place v)
    (hv : dirOf v = a.edge place) :
    b.edge = a.edge := by
  rw [edge_update hb, hv, update_eq_self]

theorem edge_eq (a : Namespace) (place : Place) : a.edge place = dirOf (a.entry place) := rfl

theorem edge_eq_some : a.edge place = some uuid ↔ a.entry place = some (.dir, uuid) := by
  rw [edge_eq]
  match a.entry place with
  | none | some (.reg, u) | some (.dir, u) | some (.lnk, u) => simp [dirOf]

theorem dirOf_eq_none (h : ∀ u, v ≠ some (.dir, u)) :
    dirOf v = none := by
  match v with
  | none | some (.reg, u) | some (.lnk, u) => rfl
  | some (.dir, u) => exact absurd rfl (h u)

theorem edge_eq_none (h : ∀ u, a.entry place ≠ some (.dir, u)) : a.edge place = none :=
  dirOf_eq_none h

theorem dirs_update_of_ne {type : Option DirentType}
    (hb : b.kind = update a.kind uuid type) (hold : uuid ∉ a.dirs)
    (hnew : type ≠ some .dir) : b.dirs = a.dirs := by
  ext u
  show b.kind u = some .dir ↔ a.kind u = some .dir
  rw [hb]
  rw [update_apply]
  split
  next hu => exact iff_of_false hnew (hu ▸ hold)
  · rfl

section

variable (h : a.Rooted root)
include h

theorem places_update {p : Place} (hp : update a.entry place v p ≠ none)
    (hv : v ≠ none → place.1 ∈ a.dirs) : p.1 ∈ a.dirs := by
  rw [update_apply] at hp
  split at hp
  next hpp => exact hpp ▸ hv hp
  · exact h.places hp

theorem Rooted.create {type : DirentType} (hok : a.Ok (.create place type uuid)) :
    (a.apply (.create place type uuid)).Rooted root := by
  have hcounted := h.counted.create hok
  obtain ⟨hdir, hfree, hfresh⟩ := hok
  have hnot : uuid ∉ a.dirs := by
    show a.kind uuid ≠ some .dir
    simp [hfresh]
  have hedge : a.edge place = none := edge_eq_none (by simp [hfree])
  have hentry : (a.apply (.create place type uuid)).entry
      = update a.entry place (some (type, uuid)) := rfl
  have hkind : (a.apply (.create place type uuid)).kind
      = update a.kind uuid (some type) := rfl
  have hnamed {u : Uuid} (hu : (a.apply (.create place type uuid)).kind u = some .reg) :
      ∃ p, (a.apply (.create place type uuid)).entry p = some (.reg, u) := by
    by_cases huu : u = uuid
    · subst huu
      rw [hkind, update_self, Option.some.injEq] at hu
      exact ⟨place, by rw [hentry, update_self, hu]⟩
    · rw [hkind, update_of_ne huu] at hu
      obtain ⟨p, hp⟩ := h.named hu
      have hpp : p ≠ place := by
        rintro rfl
        simp [hfree] at hp
      exact ⟨p, by rw [hentry, update_of_ne hpp, hp]⟩
  by_cases htype : type = .dir
  · subst htype
    have hdirs : (a.apply (.create place .dir uuid)).dirs = insert uuid a.dirs := by
      ext u
      show update a.kind uuid (some .dir) u = some .dir ↔ _
      by_cases hu : u = uuid <;> simp [hu, dirs]
    refine ⟨hcounted, ?_, ?_, hnamed⟩
    · rw [hdirs, edge_update hentry]
      exact h.tree.insert hdir hedge hnot
    · intro p hp
      rw [hdirs]
      exact Set.mem_insert_of_mem uuid (places_update h hp fun _ => hdir)
  · have hdirs := dirs_update_of_ne hkind hnot (by simpa using htype)
    have hsame := edge_update_same hentry
      (by rw [hedge]; exact dirOf_eq_none (by simp [htype]))
    refine ⟨hcounted, ?_, ?_, hnamed⟩
    · rw [hdirs, hsame]
      exact h.tree
    · intro p hp
      rw [hdirs]
      exact places_update h hp fun _ => hdir

theorem Rooted.link (hok : a.Ok (.link place uuid)) : (a.apply (.link place uuid)).Rooted root := by
  have hcounted := h.counted.link hok
  have hstill {p : Place} {u : Uuid} (hp : a.entry p = some (.reg, u)) :=
    h.counted.named_of_ne hok hp (by simp)
  obtain ⟨hdir, hfree, -⟩ := hok
  have hedge : a.edge place = none := edge_eq_none (by simp [hfree])
  have hentry : (a.apply (.link place uuid)).entry
      = update a.entry place (some (.reg, uuid)) := rfl
  refine ⟨hcounted, ?_, ?_, ?_⟩
  · rw [edge_update_same hentry (by rw [hedge]; rfl)]
    exact h.tree
  · intro p hp
    exact places_update h hp fun _ => hdir
  · intro u hu
    obtain ⟨p, hp⟩ := h.named hu
    exact hstill hp

theorem Rooted.unlinkFile (hentry : a.entry place = some (.reg, uuid)) (hok : a.Ok
    (.unlink place)) :
    (a.unlinkFile place uuid).Rooted root := by
  have happly : a.apply (.unlink place) = a.unlinkFile place uuid := by
    rw [apply_unlink, hentry]
  have hkind : a.kind uuid = some .reg := h.counted.kinds hentry
  have hdirs : (a.unlinkFile place uuid).dirs = a.dirs := by
    ext u
    show (a.unlinkFile place uuid).kind u = _ ↔ a.kind u = _
    rw [unlinkFile_kind]
    split
    next hlast => simp [hlast.2, hkind]
    · rfl
  refine ⟨h.counted.unlinkFile hentry, ?_, ?_, ?_⟩
  · rw [hdirs, edge_update_same (a := a) rfl (by rw [edge_eq, hentry]; rfl)]
    exact h.tree
  · intro p hp
    rw [hdirs]
    exact places_update h hp (by simp)
  · intro u hu
    rw [unlinkFile_kind] at hu
    split at hu
    · contradiction
    next hlast' =>
    obtain ⟨p, hp⟩ := h.named hu
    rw [← happly]
    refine h.counted.named_of_ne hok hp ?_
    -- the last name takes the object with it
    intro hlast hlinks
    obtain rfl : place = p := (Change.unlink.inj hlast)
    cases hentry.symm.trans hp
    exact hlast' ⟨hlinks, rfl⟩

theorem Rooted.named_update (hother : a.entry place ≠ some (.reg, uuid))
    (huuid : a.kind uuid = some .reg) : ∃ p, update a.entry place v p = some (.reg, uuid) := by
  obtain ⟨p, hp⟩ := h.named huuid
  have hpp : p ≠ place := by
    rintro rfl
    exact hother hp
  exact ⟨p, (update_of_ne hpp ..).trans hp⟩

theorem Rooted.unlinkDir (hentry : a.entry place = some (.dir, uuid))
    (hempty : ∀ name, a.entry (uuid, name) = none) : (a.unlinkDir place uuid).Rooted root := by
  have hdirs : (a.unlinkDir place uuid).dirs = a.dirs \ {uuid} := by
    ext u
    show update a.kind uuid none u = some .dir ↔ _
    by_cases hu : u = uuid <;> simp [hu, dirs]
  have hne : ∀ {p : Place}, a.entry p ≠ none → p.1 ≠ uuid := by
    rintro ⟨u, x⟩ hp rfl
    exact hp (hempty x)
  refine ⟨h.counted.unlinkDir hentry, ?_, ?_, ?_⟩
  · rw [hdirs, edge_update (a := a) (b := a.unlinkDir place uuid) rfl]
    exact h.tree.erase (edge_eq_some.mpr hentry) fun name =>
      edge_eq_none (by simp [hempty name])
  · intro p hp
    rw [hdirs]
    refine ⟨places_update h hp (by simp), ?_⟩
    intro hmem
    refine hne ?_ hmem
    intro hnone
    refine hp ?_
    show update a.entry place none p = none
    rw [update_apply, hnone, ite_self]
  · intro u hu
    exact h.named_update (by simp [hentry]) (update_none_eq_some hu).2

theorem Rooted.unlinkLink (hentry : a.entry place = some (.lnk, uuid)) :
    (a.unlinkLink place).Rooted root := by
  refine ⟨h.counted.unlinkLink hentry, ?_, ?_, ?_⟩
  · rw [edge_update_same (a := a) (b := a.unlinkLink place) rfl (by rw [edge_eq, hentry]; rfl)]
    exact h.tree
  · intro p hp
    exact places_update h hp (by simp)
  · intro u hu
    exact h.named_update (by simp [hentry]) hu

theorem Rooted.move {source target : Place} (hok : a.Ok (.move source target))
    (hacyclic : a.Acyclic (.move source target)) : (a.apply (.move source target)).Rooted root := by
  have hcounted := h.counted.move hok
  have hstill {p : Place} {u : Uuid} (hp : a.entry p = some (.reg, u)) :=
    h.counted.named_of_ne hok hp (by simp)
  obtain ⟨hdir, hne, -, htarget⟩ := hok
  have hfree : a.edge target = none := by
    refine edge_eq_none ?_
    intro u hu
    exact absurd (htarget _ _ hu) (by decide)
  have hedge : (a.apply (.move source target)).edge
      = update (update a.edge source none) target (a.edge source) := by
    rw [edge_update (a := a.unlinkLink source) (b := a.apply (.move source target)) rfl,
      edge_update (a := a) (b := a.unlinkLink source) rfl]
    rfl
  refine ⟨hcounted, ?_, ?_, ?_⟩
  · rw [hedge]
    cases hsource : a.edge source with
    | none =>
      have hback : update a.edge source none = a.edge := by
        rw [← hsource, update_eq_self]
      rw [hback, ← hfree, update_eq_self]
      exact h.tree
    | some uuid =>
      exact h.tree.move hsource hdir hfree (hacyclic uuid (edge_eq_some.mp hsource))
  · intro p hp
    show p.1 ∈ a.dirs
    by_cases hpt : p = target
    · rw [hpt]
      exact hdir
    · rw [show (a.apply (.move source target)).entry p
        = update a.entry source none p from update_of_ne hpt ..] at hp
      exact places_update h hp (by simp)
  · intro u hu
    obtain ⟨p, hp⟩ := h.named hu
    exact hstill hp

theorem Rooted.apply {change : Change} (hok : a.Ok change) (hacyclic : a.Acyclic change) :
    (a.apply change).Rooted root := by
  cases change with
  | create place type uuid => exact h.create hok
  | link place uuid => exact h.link hok
  | move source target => exact h.move hok hacyclic
  | unlink place =>
    rw [apply_unlink]
    split
    · exact h
    next hentry => exact h.unlinkFile hentry hok
    next hentry => exact h.unlinkDir hentry (hok _ hentry)
    next hentry => exact h.unlinkLink hentry

end

/-- Nothing but the root directory. -/
def fresh (root : Uuid) : Namespace where
  entry := fun _ => none
  kind := update (fun _ => none) root (some .dir)
  links := fun _ => none

theorem fresh_kind (root uuid : Uuid) :
    (fresh root).kind uuid = if uuid = root then some .dir else none := by
  simp only [fresh, update_apply]

theorem fresh_rooted (root : Uuid) : (fresh root).Rooted root where
  counted := {
    finite := by simp [refs, fresh]
    links := by simp [fresh, nameCount, refs]
    kinds := by simp [fresh]
    single := by simp [fresh] }
  tree := by
    have hdirs : (fresh root).dirs = {root} := by
      ext uuid
      simp [dirs, fresh_kind]
    rw [hdirs]
    exact isTree_singleton root
  places := by simp [fresh]
  named := by
    intro uuid huuid
    rw [fresh_kind] at huuid
    split at huuid <;> simp at huuid

end Namespace

end Nexus
