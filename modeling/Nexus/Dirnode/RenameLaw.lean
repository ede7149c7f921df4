import Nexus.Dirnode.Directories
import Nexus.Dirnode.Entries

/-!
# The law of `dirnode_rename`

A rename moves an entry: the new name maps to what the old name mapped to, the old
name is gone, no other name changes, and what the new name mapped to before is
reported.  The code keeps this law but for one call.  When a name is renamed to
itself in its directory, the entry that is overwritten is the one that is moved: it
is freed and then used.
-/

namespace Nexus.Directories

open Function

variable {ι : Type} [DecidableEq ι] {s : Directories ι} {src dst : ι} {oldname newname : Name}

/-- What `dirnode_find_by_name` finds in a directory. -/
def find (s : Directories ι) (i : ι) (name : Name) : Option (DirentType × Uuid) :=
  (dirnodeFindByName (s.node i) name).2

/-- The law of a rename, with `r` what it leaves and reports. -/
structure RenameLaw (s : Directories ι) (src : ι) (oldname : Name) (dst : ι) (newname : Name)
    (r : Directories ι × RenameResult) : Prop where
  reported : ∃ moved overwritten, r.2 = .renamed moved overwritten ∧
    s.find src oldname = some (moved.type, moved.linkUuid) ∧
    overwritten.map (fun e => (e.type, e.linkUuid)) =
      if src = dst ∧ oldname = newname then none else s.find dst newname
  new : r.1.find dst newname = s.find src oldname
  old : ¬ (src = dst ∧ oldname = newname) → r.1.find src oldname = none
  others : ∀ i name, ¬ (i = src ∧ name = oldname) → ¬ (i = dst ∧ name = newname) →
    r.1.find i name = s.find i name
  self : src = dst → oldname = newname → ∀ name, r.1.find src name = s.find src name

omit [DecidableEq ι] in
theorem find_eq {i : ι} (h : (s.node i).Coherent) (name : Name) :
    s.find i name = (s.node i).contents.entries name := by
  rw [find, dirnodeFindByName, findByName_result h]
  rfl

theorem rename_entries (hs : ∀ i, (s.node i).Coherent) {e : DirEntry}
    (hfind : (s.node src).lookup oldname = some e) (hne : ¬ (src = dst ∧ oldname = newname))
    (fresh : Uuid) :
    let r := s.rename src oldname dst newname fresh
    r.2 = .renamed (renameDirEntry e newname) ((s.node dst).lookup newname) ∧
      ∀ i name, (r.1.node i).contents.entries name =
        if i = dst ∧ name = newname then some (e.type, e.linkUuid)
        else if i = src ∧ name = oldname then none
        else (s.node i).contents.entries name := by
  unfold rename
  split
  next hsame =>
    subst hsame
    have hnames : oldname ≠ newname := by simpa using hne
    obtain ⟨d, heq⟩ : ∃ d, dirnodeRenameWithin (s.node src) oldname newname fresh =
        (d, .renamed (renameDirEntry e newname) ((s.node src).lookup newname)) := by
      rw [dirnodeRenameWithin_eq (hs src), hfind]
      exact ⟨_, if_neg hnames⟩
    obtain ⟨-, -, hentries⟩ := entries_dirnodeRenameWithin (hs src) heq
    rw [heq]
    refine ⟨rfl, ?_⟩
    intro i name
    by_cases hi : i = src
    · subst hi
      simp only [set, update_self, hentries, update_apply, true_and]
      rfl
    · simp [set, hi]
  next hdirs =>
    obtain ⟨d, d', heq⟩ : ∃ d d', dirnodeRenameAcross (s.node src) (s.node dst) oldname newname
        fresh = (d, d', .renamed (renameDirEntry e newname) ((s.node dst).lookup newname)) := by
      rw [dirnodeRenameAcross_eq (hs src) (hs dst), hfind]
      exact ⟨_, _, rfl⟩
    obtain ⟨-, hsrc, hdst⟩ := entries_dirnodeRenameAcross (hs src) (hs dst) heq
    rw [heq]
    refine ⟨rfl, ?_⟩
    intro i name
    by_cases hi : i = dst
    · subst hi
      simp only [set, update_self, hdst, update_apply, true_and, Ne.symm hdirs,
        false_and, if_false]
      rfl
    · by_cases hi' : i = src
      · subst hi'
        simp [set, hi, hsrc, update_apply]
      · simp [set, hi, hi']

/-- The law holds for a name that is there unless it is renamed to itself in its
directory. -/
theorem rename_law_iff (hs : ∀ i, (s.node i).Coherent) (hold : s.find src oldname ≠ none)
    (fresh : Uuid) :
    RenameLaw s src oldname dst newname (s.rename src oldname dst newname fresh) ↔
      ¬ (src = dst ∧ oldname = newname) := by
  obtain ⟨e, hfind⟩ : ∃ e, (s.node src).lookup oldname = some e := by
    rw [find_eq (hs src), entries_eq, ne_eq, Option.map_eq_none_iff] at hold
    exact Option.ne_none_iff_exists'.mp hold
  have hfound : s.find src oldname = some (e.type, e.linkUuid) := by
    rw [find_eq (hs src), entries_eq, hfind]
    rfl
  constructor
  · rintro hlaw ⟨rfl, rfl⟩
    obtain ⟨moved, overwritten, hrenamed, -⟩ := hlaw.reported
    rw [rename, if_pos rfl, dirnodeRenameWithin_eq (hs src), hfind] at hrenamed
    simp at hrenamed
  · intro hne
    obtain ⟨hresult, hentries⟩ := rename_entries hs hfind hne fresh
    have hafter (i : ι) (name : Name) := (find_eq
      ((rename_moves hs src oldname dst newname fresh i).coherent (hs i)) name).trans
      (hentries i name)
    refine ⟨⟨_, _, hresult, hfound, ?_⟩, ?_, ?_, ?_, ?_⟩
    · rw [if_neg hne, find_eq (hs dst)]
      rfl
    · rw [hafter, if_pos ⟨rfl, rfl⟩, hfound]
    · intro _
      rw [hafter, if_neg hne, if_pos ⟨rfl, rfl⟩]
    · intro i name hsrc hdst
      rw [hafter, if_neg hdst, if_neg hsrc, find_eq (hs i)]
    · intro hdirs hnames
      exact absurd ⟨hdirs, hnames⟩ hne

/-- Two directories, with a file `l` in the first. -/
def oneFile : Directories Bool :=
  let s := create 1 (fun i : Bool => if i then 2 else 3) fun _ => 4
  s.set false (dirnodeAdd (s.node false) linkName .reg 5 6).1

theorem oneFile_coherent (i : Bool) : (oneFile.node i).Coherent := by
  have hnew (j : Bool) : ((create 1 (fun i : Bool => if i then 2 else 3) fun _ => 4).node
      j).Coherent := dirnodeCreate_coherent ..
  exact (moves_set (dirnodeAdd_edits (hnew false) linkName .reg 5 6) i).coherent (hnew i)

theorem rename_law_moved :
    RenameLaw oneFile false linkName true linkName (oneFile.rename false linkName true linkName 7) :=
  (rename_law_iff oneFile_coherent (by decide) 7).mpr (by decide)

/-- The file is renamed to itself. -/
theorem rename_law_self :
    (∀ i, (oneFile.node i).Coherent) ∧ oneFile.find false linkName = some (.reg, 5) ∧
      ¬ RenameLaw oneFile false linkName false linkName
        (oneFile.rename false linkName false linkName 7) := by
  refine ⟨oneFile_coherent, by decide, ?_⟩
  intro hlaw
  obtain ⟨moved, overwritten, hrenamed, -⟩ := hlaw.reported
  have hundefined : (oneFile.rename false linkName false linkName 7).2 = .undefined := by decide
  rw [hundefined] at hrenamed
  contradiction

end Nexus.Directories
