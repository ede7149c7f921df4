import Nexus.Dirnode.Sound

/-!
# What a directory holds

The contents of a dirnode, and the operations of `dirnode.c` as updates of the map from
names to entries.
-/

open Function

namespace Nexus

/-- What a directory holds. -/
structure Contents where
  entries : Name → Option (DirentType × Uuid)
  links : Uuid → Option Bytes
  attributes : AttributeTable

/-- The contents of a dirnode. -/
def Dirnode.contents (d : Dirnode) : Contents where
  entries := fun name => (d.lookup name).map fun e => (e.type, e.linkUuid)
  links := dirnodeGetLink d
  attributes := d.attributeTable

theorem Dirnode.Same.contents {d d' : Dirnode} (h : d.Same d') : d.contents = d'.contents := by
  unfold Dirnode.contents
  rw [funext h.entries, funext h.links, h.attributeTable]

@[simp] theorem contents_findByName (d : Dirnode) (name : Name) :
    (findByName d name).1.contents = d.contents := by
  obtain ⟨last, hframe⟩ := findByName_frame d name
  rw [hframe]
  rfl

variable {d d' src dst src' dst' : Dirnode} {name oldname newname : Name} {fresh : Uuid}

theorem entries_eq (d : Dirnode) (name : Name) :
    d.contents.entries name = (d.lookup name).map fun e => (e.type, e.linkUuid) := rfl

variable {type : DirentType} {uuid : Uuid}

theorem entries_eq_some :
    d.contents.entries name = some (type, uuid) ↔
      ∃ e, d.lookup name = some e ∧ e.type = type ∧ e.linkUuid = uuid := by
  simp only [entries_eq, Option.map_eq_some_iff, Prod.mk.injEq]

theorem entries_eq_none : d.contents.entries name = none ↔ d.lookup name = none := by
  simp [entries_eq]

theorem entries_dirnodeDelDirentry (h : d.Coherent) {e : DirEntry} (he : e ∈ d.dirents) :
    (dirnodeDelDirentry d e).contents.entries
      = update d.contents.entries e.name none := by
  funext x
  rw [entries_eq, lookup_dirnodeDelDirentry h he, update_apply]
  split <;> rfl

theorem entries_dirnodeAddDirentry {e : DirEntry} (hname : d.lookup e.name = none)
    (fresh : Uuid) :
    (dirnodeAddDirentry d e fresh).contents.entries
      = update d.contents.entries e.name (some (e.type, e.linkUuid)) := by
  funext x
  rw [entries_eq, lookup_dirnodeAddDirentry hname, update_apply]
  split <;> rfl

section

variable (h : d.Coherent)
include h

theorem entries_clobberOverwritten (newname : Name) :
    (clobberOverwritten d (d.lookup newname)).contents.entries
      = update d.contents.entries newname none := by
  funext x
  rw [entries_eq, lookup_clobberOverwritten h, update_apply]
  split <;> rfl

theorem entries_dirnodeAdd (hok : (dirnodeAdd d name type uuid fresh).2 = true) :
    d.contents.entries name = none ∧
      (dirnodeAdd d name type uuid fresh).1.contents.entries
        = update d.contents.entries name (some (type, uuid)) := by
  revert hok
  rw [dirnodeAdd_eq h]
  split
  · nofun
  next hsome =>
    have hnone : d.lookup name = none := by simpa using hsome
    exact fun _ => ⟨entries_eq_none.mpr hnone,
      entries_dirnodeAddDirentry (e := newDirEntry uuid type name) hnone fresh⟩

theorem contents_dirnodeAdd_of_failed (hfail : (dirnodeAdd d name type uuid fresh).2 = false) :
    (dirnodeAdd d name type uuid fresh).1.contents = d.contents := by
  revert hfail
  rw [dirnodeAdd_eq h]
  split
  · exact fun _ => contents_findByName d name
  · nofun

theorem entries_dirnodeAddLink {target : Bytes}
    (hok : (dirnodeAddLink d name target uuid fresh).2 = true) :
    d.contents.entries name = none ∧
      (dirnodeAddLink d name target uuid fresh).1.contents.entries
        = update d.contents.entries name (some (.lnk, uuid)) := by
  have hadd : (dirnodeAdd d name .lnk uuid fresh).2 = true → _ := entries_dirnodeAdd h
  unfold dirnodeAddLink at hok ⊢
  generalize dirnodeAdd d name .lnk uuid fresh = r at hok hadd
  obtain ⟨d', _ | _⟩ := r
  · contradiction
  · exact hadd rfl

theorem contents_dirnodeAddLink_of_failed {target : Bytes}
    (hfail : (dirnodeAddLink d name target uuid fresh).2 = false) :
    (dirnodeAddLink d name target uuid fresh).1.contents = d.contents := by
  have hadd : (dirnodeAdd d name .lnk uuid fresh).2 = false → _ := contents_dirnodeAdd_of_failed h
  unfold dirnodeAddLink at hfail ⊢
  generalize dirnodeAdd d name .lnk uuid fresh = r at hfail hadd
  obtain ⟨d', _ | _⟩ := r
  · exact hadd rfl
  · contradiction

/-! ## Rename -/

theorem entries_dirnodeRenameWithin {moved : DirEntry} {overwritten : Option DirEntry}
    (hrenamed : dirnodeRenameWithin d oldname newname fresh = (d', .renamed moved overwritten)) :
    oldname ≠ newname ∧ d.contents.entries oldname = some (moved.type, moved.linkUuid) ∧
      d'.contents.entries = update (update d.contents.entries oldname none)
        newname (some (moved.type, moved.linkUuid)) := by
  rw [dirnodeRenameWithin_eq h] at hrenamed
  cases hfind : d.lookup oldname with
  | none => simp [hfind] at hrenamed
  | some e =>
    simp only [hfind] at hrenamed
    by_cases hnames : oldname = newname
    · simp [hnames] at hrenamed
    · simp only [if_neg hnames, Prod.mk.injEq, RenameResult.renamed.injEq] at hrenamed
      obtain ⟨rfl, rfl, -⟩ := hrenamed
      refine ⟨hnames, entries_eq_some.mpr ⟨e, hfind, rfl, rfl⟩, ?_⟩
      obtain ⟨hmem, hfree⟩ := rename_ready h hfind hnames
      have hold : e.name = oldname := (Dirnode.mem_of_lookup hfind).2
      calc (dirnodeAddDirentry _ (renameDirEntry e newname) fresh).contents.entries
        _ = update _ newname (some (e.type, e.linkUuid)) :=
            entries_dirnodeAddDirentry (e := renameDirEntry e newname) hfree fresh
        _ = _ := by
            rw [entries_dirnodeDelDirentry (clobberOverwritten_coherent h newname) hmem,
              entries_clobberOverwritten h, hold, update_comm (Ne.symm hnames),
              update_idem]
            rfl

theorem contents_dirnodeRenameWithin_of_failed {result : RenameResult}
    (hrenamed : dirnodeRenameWithin d oldname newname fresh = (d', result))
    (hfail : ∀ moved overwritten, result ≠ .renamed moved overwritten) :
    d'.contents = d.contents := by
  rw [dirnodeRenameWithin_eq h] at hrenamed
  cases hfind : d.lookup oldname with
  | none =>
    simp only [hfind, Prod.mk.injEq] at hrenamed
    rw [← hrenamed.1]
    exact contents_findByName d oldname
  | some e =>
    simp only [hfind] at hrenamed
    by_cases hnames : oldname = newname
    · simp only [if_pos hnames, Prod.mk.injEq] at hrenamed
      rw [← hrenamed.1]
      exact contents_findByName d oldname
    · simp only [if_neg hnames, Prod.mk.injEq] at hrenamed
      exact absurd hrenamed.2.symm (hfail _ _)

end

theorem entries_moveSymlink (src dst : Dirnode) (uuid : Uuid) :
    (moveSymlink src dst uuid).1.contents.entries = src.contents.entries ∧
      (moveSymlink src dst uuid).2.contents.entries = dst.contents.entries := by
  unfold moveSymlink removeSymlink
  cases findSymlink src uuid <;> exact ⟨rfl, rfl⟩

theorem entries_dirnodeRenameAcross (hsrc : src.Coherent) (hdst : dst.Coherent) {moved : DirEntry}
    {overwritten : Option DirEntry}
    (hrenamed : dirnodeRenameAcross src dst oldname newname fresh
      = (src', dst', .renamed moved overwritten)) :
    src.contents.entries oldname = some (moved.type, moved.linkUuid) ∧
      src'.contents.entries = update src.contents.entries oldname none ∧
      dst'.contents.entries
        = update dst.contents.entries newname (some (moved.type, moved.linkUuid)) := by
  rw [dirnodeRenameAcross_eq hsrc hdst] at hrenamed
  cases hfind : src.lookup oldname with
  | none => simp [hfind] at hrenamed
  | some e =>
    simp only [hfind, Prod.mk.injEq, RenameResult.renamed.injEq] at hrenamed
    obtain ⟨rfl, rfl, rfl, -⟩ := hrenamed
    obtain ⟨hmem, hold⟩ := Dirnode.mem_of_lookup hfind
    have hfree : (clobberOverwritten dst (dst.lookup newname)).lookup newname = none := by
      rw [lookup_clobberOverwritten hdst, if_pos rfl]
    have hmove := entries_moveSymlink (dirnodeDelDirentry src e)
      (dirnodeAddDirentry (clobberOverwritten dst (dst.lookup newname))
        (renameDirEntry e newname) fresh) e.linkUuid
    refine ⟨entries_eq_some.mpr ⟨e, hfind, rfl, rfl⟩, ?_, ?_⟩
    · rw [hmove.1, entries_dirnodeDelDirentry hsrc hmem, hold]
    · rw [hmove.2, entries_dirnodeAddDirentry (e := renameDirEntry e newname) hfree,
        entries_clobberOverwritten hdst]
      exact update_idem ..

end Nexus
