import Nexus.Dirnode.Dirnode
import Nexus.Lib.Tree

/-!
# The namespace of a volume

What the calls are for, without dirnodes, copies and stores: a map from places
to entries, the objects there are, and the link counts.  A change keeps the
counts right and the directories a tree when it does not drop a name of
something that stays behind.
-/

namespace Nexus

open Function Relation LabelledTree

/-- A name in a directory. -/
abbrev Place := Uuid × Name

@[ext]
structure Namespace where
  entry : Place → Option (DirentType × Uuid)
  /-- The objects, with what they were made for. -/
  kind : Uuid → Option DirentType
  /-- The hardlink table. -/
  links : Uuid → Option Nat

/-- The directory that an entry leads to. -/
def dirOf : Option (DirentType × Uuid) → Option Uuid
  | some (.dir, uuid) => some uuid
  | _ => none

inductive Change where
  | create (place : Place) (type : DirentType) (uuid : Uuid)
  | link (place : Place) (uuid : Uuid)
  | unlink (place : Place)
  | move (source target : Place)

namespace Namespace

/-- The edges between directories. -/
def edge (a : Namespace) : Place → Option Uuid := dirOf ∘ a.entry

/-- One of the names of a file goes; the file goes with the last. -/
def unlinkFile (a : Namespace) (place : Place) (uuid : Uuid) : Namespace where
  entry := update a.entry place none
  kind := if a.links uuid = none then update a.kind uuid none else a.kind
  links := update a.links uuid
    ((a.links uuid).bind fun count => if count ≤ 2 then none else some (count - 1))

def unlinkDir (a : Namespace) (place : Place) (uuid : Uuid) : Namespace where
  entry := update a.entry place none
  kind := update a.kind uuid none
  links := a.links

/-- The object of a symlink stays. -/
def unlinkLink (a : Namespace) (place : Place) : Namespace where
  entry := update a.entry place none
  kind := a.kind
  links := a.links

def apply (a : Namespace) : Change → Namespace
  | .create place type uuid =>
    { a with
      entry := update a.entry place (some (type, uuid))
      kind := update a.kind uuid (some type) }
  | .link place uuid =>
    { a with
      entry := update a.entry place (some (.reg, uuid))
      links := update a.links uuid (some ((a.links uuid).getD 1 + 1)) }
  | .unlink place =>
    match a.entry place with
    | none => a
    | some (.reg, uuid) => a.unlinkFile place uuid
    | some (.dir, uuid) => a.unlinkDir place uuid
    | some (.lnk, _) => a.unlinkLink place
  | .move source target =>
    { a with
      entry := update (update a.entry source none) target (a.entry source) }

/-- An object that no entry refers to. -/
def alloc (a : Namespace) (uuid : Uuid) (type : DirentType) : Namespace :=
  { a with kind := update a.kind uuid (some type) }

/-- No name of something that stays behind is dropped. -/
def Ok (a : Namespace) : Change → Prop
  | .create place _ uuid =>
    a.kind place.1 = some .dir ∧ a.entry place = none ∧ a.kind uuid = none
  | .link place uuid =>
    a.kind place.1 = some .dir ∧ a.entry place = none ∧ ∃ other, a.entry other = some (.reg, uuid)
  | .unlink place => ∀ uuid, a.entry place = some (.dir, uuid) → ∀ name, a.entry (uuid, name) = none
  | .move source target =>
    a.kind target.1 = some .dir ∧ source ≠ target ∧ a.entry source ≠ none ∧
      ∀ type uuid, a.entry target = some (type, uuid) → type = .lnk

/-- A directory does not move below itself. -/
def Acyclic (a : Namespace) : Change → Prop
  | .move source target => ∀ uuid, a.entry source = some (.dir, uuid) →
    ¬ ReflTransGen (Child a.edge) uuid target.1
  | _ => True

/-- The number of names of a file. -/
noncomputable def nameCount (a : Namespace) (uuid : Uuid) : Nat :=
  (refs a.entry (.reg, uuid)).ncard

/-- The table counts the names of every file that has more than one. -/
structure Counted (a : Namespace) : Prop where
  finite : ∀ uuid, (refs a.entry (.reg, uuid)).Finite
  links : ∀ uuid, a.links uuid = if 2 ≤ a.nameCount uuid then some (a.nameCount uuid) else none
  kinds : ∀ {place type uuid}, a.entry place = some (type, uuid) → a.kind uuid = some type
  single : ∀ {place place' uuid}, a.entry place = some (.dir, uuid) →
    a.entry place' = some (.dir, uuid) → place = place'

variable {a : Namespace}

variable {uuid : Uuid}

theorem Counted.unused (h : a.Counted) (hfresh : a.kind uuid = none) {p : Place}
    {t : DirentType} : a.entry p ≠ some (t, uuid) := by
  intro hentry
  simp [h.kinds hentry] at hfresh

theorem Counted.alloc (h : a.Counted) (hfresh : a.kind uuid = none) (type : DirentType) :
    (a.alloc uuid type).Counted where
  finite := h.finite
  links := h.links
  kinds := by
    intro place type' uuid' hentry
    have hne : uuid' ≠ uuid := by
      rintro rfl
      exact h.unused hfresh hentry
    exact (update_of_ne hne ..).trans (h.kinds hentry)
  single := h.single

/-! ## Link counts -/

variable {place : Place} {b : Namespace}

theorem Counted.links_of_one (h : a.Counted) (hone : a.nameCount uuid ≤ 1) :
    a.links uuid = none := by
  rw [h.links, if_neg (by omega)]

theorem Counted.links_of_two (h : a.Counted) (htwo : 2 ≤ a.nameCount uuid) :
    a.links uuid = some (a.nameCount uuid) := by
  rw [h.links, if_pos htwo]

theorem Counted.nameCount_of_links (h : a.Counted) {count : Nat}
    (hlinks : a.links uuid = some count) : a.nameCount uuid = count ∧ 2 ≤ count := by
  by_cases htwo : 2 ≤ a.nameCount uuid
  · rw [h.links_of_two htwo, Option.some.injEq] at hlinks
    omega
  · rw [h.links_of_one (by omega)] at hlinks
    contradiction

theorem Counted.nameCount_le_of_links (h : a.Counted) (hlinks : a.links uuid = none) :
    a.nameCount uuid ≤ 1 := by
  by_contra hlt
  rw [h.links_of_two (by omega)] at hlinks
  contradiction

theorem Counted.nameCount_pos (h : a.Counted) (hentry : a.entry place = some (.reg, uuid)) :
    1 ≤ a.nameCount uuid :=
  (Set.ncard_pos (h.finite uuid)).mpr ⟨place, hentry⟩

theorem Counted.place_unique (h : a.Counted) {place' : Place} (hlinks : a.links uuid = none)
    (hentry : a.entry place = some (.reg, uuid)) (hentry' : a.entry place' = some (.reg, uuid)) :
    place = place' := by
  have hone : a.nameCount uuid = 1 :=
    le_antisymm (h.nameCount_le_of_links hlinks) (h.nameCount_pos hentry)
  obtain ⟨q, hq⟩ := Set.ncard_eq_one.mp hone
  have hmem : place ∈ refs a.entry (.reg, uuid) := hentry
  have hmem' : place' ∈ refs a.entry (.reg, uuid) := hentry'
  rw [hq, Set.mem_singleton_iff] at hmem hmem'
  rw [hmem, hmem']

/-- What holds of the counts after an update at one place that leaves the
table alone. -/
theorem nameCount_update_other {v : Option (DirentType × Uuid)}
    (hb : b.entry = update a.entry place v) (hold : a.entry place ≠ some (.reg, uuid))
    (hnew : v ≠ some (.reg, uuid)) :
    b.nameCount uuid = a.nameCount uuid := by
  rw [nameCount, hb, refs_update_other hold hnew]
  rfl

theorem nameCount_update_self (hb : b.entry = update a.entry place (some (.reg, uuid)))
    (hfin : (refs a.entry (.reg, uuid)).Finite) (hold : a.entry place ≠ some (.reg, uuid)) :
    b.nameCount uuid = a.nameCount uuid + 1 := by
  rw [nameCount, hb]
  exact ncard_refs_update_self hfin hold

theorem nameCount_update_gone {v : Option (DirentType × Uuid)}
    (hb : b.entry = update a.entry place v) (hfin : (refs a.entry (.reg, uuid)).Finite)
    (hold : a.entry place = some (.reg, uuid)) (hnew : v ≠ some (.reg, uuid)) :
    b.nameCount uuid + 1 = a.nameCount uuid := by
  rw [nameCount, hb]
  exact ncard_refs_update_of_ne hfin hold hnew

section

variable (h : a.Counted)
include h

theorem Counted.finite_update (place : Place) (v : Option (DirentType × Uuid)) (uuid : Uuid) :
    (refs (update a.entry place v) (.reg, uuid)).Finite :=
  finite_refs_update (h.finite uuid) place v

theorem Counted.create {type : DirentType} (hok : a.Ok (.create place type uuid)) :
    (a.apply (.create place type uuid)).Counted := by
  obtain ⟨-, hfree, hfresh⟩ := hok
  have hunused {p : Place} {t : DirentType} := h.unused hfresh (p := p) (t := t)
  refine ⟨h.finite_update place _, ?_, ?_, ?_⟩
  · intro u
    show a.links u = _
    by_cases hnew : (type, uuid) = (DirentType.reg, u)
    · cases hnew
      have hcount := nameCount_update_self (b := a.apply (.create place .reg uuid)) rfl
        (h.finite uuid) hunused
      have hzero : a.nameCount uuid = 0 := by
        rw [nameCount, Set.ncard_eq_zero (h.finite uuid), Set.eq_empty_iff_forall_notMem]
        exact fun p hp => hunused hp
      rw [h.links_of_one (by omega), if_neg (by omega)]
    · have hold : a.entry place ≠ some (.reg, u) := by
        rw [hfree]
        simp
      rw [nameCount_update_other (b := a.apply (.create place type uuid)) rfl hold
        (fun heq => hnew (Option.some.inj heq))]
      exact h.links u
  · intro p t u hentry
    rcases update_eq_some hentry with ⟨-, hnew⟩ | ⟨-, hold⟩
    · cases hnew
      exact update_self ..
    · exact (h.alloc hfresh type).kinds hold
  · intro p q u hp hq
    rcases update_eq_some hp with ⟨rfl, hnew⟩ | ⟨-, hold⟩ <;>
      rcases update_eq_some hq with ⟨rfl, hnew'⟩ | ⟨-, hold'⟩
    · rfl
    · cases hnew
      exact absurd hold' hunused
    · cases hnew'
      exact absurd hold hunused
    · exact h.single hold hold'

theorem Counted.link (hok : a.Ok (.link place uuid)) : (a.apply (.link place uuid)).Counted := by
  obtain ⟨-, hfree, other, hother⟩ := hok
  have hpos := h.nameCount_pos hother
  refine ⟨h.finite_update place _, ?_, ?_, ?_⟩
  · intro u
    show update a.links uuid (some ((a.links uuid).getD 1 + 1)) u = _
    have hold : a.entry place ≠ some (.reg, u) := by
      rw [hfree]
      simp
    by_cases hu : u = uuid
    · subst hu
      have hcount := nameCount_update_self (b := a.apply (.link place u)) rfl (h.finite u) hold
      rw [update_self, if_pos (by omega), hcount, Option.some.injEq]
      by_cases htwo : 2 ≤ a.nameCount u
      · rw [h.links_of_two htwo, Option.getD_some]
      · rw [h.links_of_one (by omega), Option.getD_none]
        omega
    · have hnew : some (DirentType.reg, uuid) ≠ some (.reg, u) := by
        simpa using fun heq => hu heq.symm
      rw [update_of_ne hu, nameCount_update_other (b := a.apply (.link place uuid)) rfl
        hold hnew]
      exact h.links u
  · intro p t u hentry
    show a.kind u = some t
    rcases update_eq_some hentry with ⟨-, hnew⟩ | ⟨-, hold⟩
    · cases hnew
      exact h.kinds hother
    · exact h.kinds hold
  · intro p q u hp hq
    rcases update_eq_some hp with ⟨-, ⟨⟩⟩ | ⟨-, hp⟩
    rcases update_eq_some hq with ⟨-, ⟨⟩⟩ | ⟨-, hq⟩
    exact h.single hp hq

theorem Counted.single_update {p q : Place} {u : Uuid}
    (hp : update a.entry place none p = some (.dir, u))
    (hq : update a.entry place none q = some (.dir, u)) : p = q :=
  h.single (update_none_eq_some hp).2 (update_none_eq_some hq).2

omit h in
theorem unlinkFile_kind (u : Uuid) : (a.unlinkFile place uuid).kind u =
    if a.links uuid = none ∧ u = uuid then none else a.kind u := by
  unfold Namespace.unlinkFile
  split <;> simp_all [update_apply]

theorem Counted.unlinkFile (hentry : a.entry place = some (.reg, uuid)) :
    (a.unlinkFile place uuid).Counted := by
  have hpos := h.nameCount_pos hentry
  have hgone : (a.unlinkFile place uuid).nameCount uuid + 1 = a.nameCount uuid :=
    nameCount_update_gone rfl (h.finite uuid) hentry (by simp)
  refine ⟨h.finite_update place _, ?_, ?_, h.single_update⟩
  · intro u
    show update a.links uuid _ u = _
    by_cases hu : u = uuid
    · subst hu
      rw [update_self]
      cases hlinks : a.links u with
      | none =>
        have hone := h.nameCount_le_of_links hlinks
        rw [Option.bind_none, if_neg (by omega)]
      | some count =>
        obtain ⟨hn, htwo⟩ := h.nameCount_of_links hlinks
        rw [Option.bind_some]
        by_cases hle : count ≤ 2
        · rw [if_pos hle, if_neg (by omega)]
        · rw [if_neg hle, if_pos (by omega), Option.some.injEq]
          omega
    · have hother : (a.unlinkFile place uuid).nameCount u = a.nameCount u := by
        refine nameCount_update_other rfl ?_ (by simp)
        rw [hentry]
        simpa using fun heq => hu heq.symm
      rw [update_of_ne hu, hother]
      exact h.links u
  · intro p t u hp
    obtain ⟨hne, hold⟩ := update_none_eq_some hp
    have hkind := h.kinds hold
    rw [unlinkFile_kind]
    split
    next hlast =>
      -- the only name of the file is the one that went
      obtain ⟨hlinks, rfl⟩ := hlast
      rw [h.kinds hentry] at hkind
      cases hkind
      exact absurd (h.place_unique hlinks hold hentry) hne
    · exact hkind

theorem Counted.unlinkDir (hentry : a.entry place = some (.dir, uuid)) :
    (a.unlinkDir place uuid).Counted := by
  refine ⟨h.finite_update place _, ?_, ?_, h.single_update⟩
  · intro u
    rw [nameCount_update_other (a := a) rfl (by simp [hentry]) (by simp)]
    exact h.links u
  · intro p t u hp
    obtain ⟨hne, hold⟩ := update_none_eq_some hp
    have hkind := h.kinds hold
    have hu : u ≠ uuid := by
      rintro rfl
      rw [h.kinds hentry] at hkind
      cases hkind
      exact hne (h.single hold hentry)
    exact (update_of_ne hu ..).trans hkind

theorem Counted.unlinkLink (hentry : a.entry place = some (.lnk, uuid)) :
    (a.unlinkLink place).Counted := by
  refine ⟨h.finite_update place _, ?_, ?_, h.single_update⟩
  · intro u
    rw [nameCount_update_other (a := a) rfl (by simp [hentry]) (by simp)]
    exact h.links u
  · intro p t u hp
    exact h.kinds (update_none_eq_some hp).2

end

theorem apply_unlink (a : Namespace) (place : Place) :
    a.apply (.unlink place) =
      match a.entry place with
      | none => a
      | some (.reg, uuid) => a.unlinkFile place uuid
      | some (.dir, uuid) => a.unlinkDir place uuid
      | some (.lnk, _) => a.unlinkLink place := rfl

section

variable (h : a.Counted)
include h

theorem Counted.unlink (place : Place) : (a.apply (.unlink place)).Counted := by
  rw [apply_unlink]
  split
  · exact h
  next hentry => exact h.unlinkFile hentry
  next hentry => exact h.unlinkDir hentry
  next hentry => exact h.unlinkLink hentry

theorem Counted.move {source target : Place} (hok : a.Ok (.move source target)) :
    (a.apply (.move source target)).Counted := by
  obtain ⟨-, hne, -, htarget⟩ := hok
  have hcases {p : Place} {t : DirentType} {u : Uuid}
      (hp : (a.apply (.move source target)).entry p = some (t, u)) :
      (p = target ∧ a.entry source = some (t, u)) ∨ (p ≠ source ∧ a.entry p = some (t, u)) := by
    rcases update_eq_some hp with ⟨hp, hnew⟩ | ⟨-, hp⟩
    · exact .inl ⟨hp, hnew⟩
    · exact .inr (update_none_eq_some hp)
  refine ⟨fun u => finite_refs_update (h.finite_update source none u) target _, ?_, ?_, ?_⟩
  · intro u
    have hmid : update a.entry source none target ≠ some (.reg, u) := by
      rw [update_of_ne hne.symm]
      intro hentry
      exact absurd (htarget _ _ hentry) (by decide)
    -- the name is taken away and given again, or neither
    have hcount : (a.apply (.move source target)).nameCount u = a.nameCount u := by
      by_cases hsource : a.entry source = some (.reg, u)
      · have hgone := nameCount_update_gone (b := a.unlinkLink source) rfl (h.finite u) hsource
          (by simp)
        have hback := nameCount_update_self (a := a.unlinkLink source)
          (b := a.apply (.move source target))
          (congrArg (update (update a.entry source none) target) hsource)
          (h.finite_update source none u) hmid
        omega
      · rw [nameCount_update_other (a := a.unlinkLink source) (b := a.apply (.move source target))
          rfl hmid hsource]
        exact nameCount_update_other rfl hsource (by simp)
    rw [hcount]
    exact h.links u
  · intro p t u hp
    rcases hcases hp with ⟨-, hp⟩ | ⟨-, hp⟩ <;> exact h.kinds hp
  · intro p q u hp hq
    rcases hcases hp with ⟨hp, hsrc⟩ | ⟨hps, hp⟩ <;> rcases hcases hq with ⟨hq, hsrc'⟩ | ⟨hqs, hq⟩
    · rw [hp, hq]
    · exact absurd (h.single hq hsrc) hqs
    · exact absurd (h.single hp hsrc') hps
    · exact h.single hp hq

theorem Counted.apply {change : Change} (hok : a.Ok change) : (a.apply change).Counted := by
  cases change with
  | create place type uuid => exact h.create hok
  | link place uuid => exact h.link hok
  | unlink place => exact h.unlink place
  | move source target => exact h.move hok

/-- A file that had a name still has one, unless its last name was removed. -/
theorem Counted.named_of_ne {change : Change} (hok : a.Ok change)
    (hentry : a.entry place = some (.reg, uuid))
    (hlast : change = .unlink place → a.links uuid ≠ none) :
    ∃ p, (a.apply change).entry p = some (.reg, uuid) := by
  cases change with
  | create place' | link place' =>
    have hne : place ≠ place' := by
      rintro rfl
      simp [hok.2.1] at hentry
    exact ⟨place, (update_of_ne hne ..).trans hentry⟩
  | unlink place' =>
    by_cases hp : place = place'
    · subst hp
      obtain ⟨count, hcount⟩ := Option.ne_none_iff_exists'.mp (hlast rfl)
      obtain ⟨hn, htwo⟩ := h.nameCount_of_links hcount
      have hgone : (a.unlinkFile place uuid).nameCount uuid + 1 = a.nameCount uuid :=
        nameCount_update_gone rfl (h.finite uuid) hentry (by simp)
      obtain ⟨p, hp⟩ := Set.nonempty_of_ncard_ne_zero
        (show (a.unlinkFile place uuid).nameCount uuid ≠ 0 by omega)
      refine ⟨p, ?_⟩
      rw [apply_unlink, hentry]
      exact hp
    · have hkeep : update a.entry place' none place = some (.reg, uuid) := by
        rw [update_of_ne hp, hentry]
      refine ⟨place, ?_⟩
      rw [apply_unlink]
      split
      · exact hentry
      all_goals exact hkeep
  | move source target =>
    obtain ⟨-, hne, -, htarget⟩ := hok
    show ∃ p, update (update a.entry source none) target (a.entry source) p = _
    by_cases hp : place = source
    · exact ⟨target, by rw [update_self, ← hp, hentry]⟩
    · refine ⟨place, ?_⟩
      have hpt : place ≠ target := by
        rintro rfl
        exact absurd (htarget _ _ hentry) (by decide)
      rw [update_of_ne hpt, update_of_ne hp, hentry]

/-- A change deletes the object of a file exactly if it takes its last name. -/
theorem Counted.deletes_last {change : Change} (hok : a.Ok change)
    (hentry : a.entry place = some (.reg, uuid)) :
    (a.apply change).kind uuid = none ↔ ∀ p, (a.apply change).entry p ≠ some (.reg, uuid) := by
  constructor
  · intro hgone p hp
    simp [(h.apply hok).kinds hp] at hgone
  · intro hnone
    by_cases hlast : change = .unlink place → a.links uuid ≠ none
    · obtain ⟨p, hp⟩ := h.named_of_ne hok hentry hlast
      exact absurd hp (hnone p)
    · simp only [Classical.not_imp, ne_eq, not_not] at hlast
      obtain ⟨rfl, hlinks⟩ := hlast
      simp [apply_unlink, hentry, unlinkFile_kind, hlinks]

/-- What a call does to the namespace: nothing, a change, or an object that
never got its entry. -/
inductive Step (a : Namespace) : Namespace → Prop
  | idle : a.Step a
  | alloc {uuid : Uuid} (hfresh : a.kind uuid = none) (type : DirentType) :
    a.Step (a.alloc uuid type)
  | change {change : Change} (hok : a.Ok change) : a.Step (a.apply change)

theorem Counted.step (hstep : a.Step b) : b.Counted := by
  cases hstep with
  | idle => exact h
  | alloc hfresh type => exact h.alloc hfresh type
  | change hok => exact h.apply hok

theorem Counted.step_deletes_last (hstep : a.Step b) (hentry : a.entry place = some (.reg, uuid)) :
    b.kind uuid = none ↔ ∀ p, b.entry p ≠ some (.reg, uuid) := by
  have hkind (c : Namespace) (hc : c.kind uuid ≠ none) (hstill : c.entry place = some (.reg, uuid)) :
      c.kind uuid = none ↔ ∀ p, c.entry p ≠ some (.reg, uuid) :=
    ⟨fun hnone => absurd hnone hc, fun hgone => absurd hstill (hgone place)⟩
  cases hstep with
  | idle => exact hkind a (by simp [h.kinds hentry]) hentry
  | alloc hfresh type =>
    refine hkind _ ?_ hentry
    simp [(h.alloc hfresh type).kinds hentry]
  | change hok => exact h.deletes_last hok hentry

end

theorem Step.keeps_unnamed (hstep : a.Step b) (hkind : a.kind uuid ≠ none)
    (hunnamed : ∀ place type, a.entry place ≠ some (type, uuid)) :
    b.kind uuid ≠ none := by
  have hupdate (v : Uuid) (type : DirentType) :
      update a.kind v (some type) uuid ≠ none := by
    rw [update_apply]
    split
    · simp
    · exact hkind
  cases hstep with
  | idle => exact hkind
  | alloc hfresh type => exact hupdate _ _
  | @change change hok =>
    cases change with
    | create place type v => exact hupdate _ _
    | link place v | move source target => exact hkind
    | unlink place =>
      have hv {v : Uuid} {type : DirentType} (hentry : a.entry place = some (type, v)) :
          uuid ≠ v := by
        rintro rfl
        exact hunnamed place type hentry
      rw [apply_unlink]
      split
      · exact hkind
      next hentry => simpa [unlinkFile_kind, hv hentry] using hkind
      next hentry => exact (update_of_ne (hv hentry) ..).trans_ne hkind
      · exact hkind

end Namespace

end Nexus
