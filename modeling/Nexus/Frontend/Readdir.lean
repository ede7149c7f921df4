import Nexus.Lib.Runs
import Mathlib.Tactic

/-!
# Reading an open directory

`nxs_fuse_readdir` answers from the cursor of the directory handle and never looks at the
offset it is asked for.  `replies_honour_offset_iff` says along which runs the replies are
nevertheless those of the offsets: the runs in which every offset is where the cursor stands.
-/

namespace Nexus.Frontend

open Runs

variable {Dirent : Type}

/-- The loop of `UNSAFE_dirnode_readdir`: it skips `offset` entries and copies the next ones
until `count` of them are copied. -/
def copyDirents : List Dirent → Nat → Nat → List Dirent
  | [], _, _ => []
  | _ :: dirents, offset + 1, count => copyDirents dirents offset count
  | dirent :: dirents, 0, count =>
    dirent :: if count = 1 then [] else copyDirents dirents 0 (count - 1)

/-- `UNSAFE_dirnode_readdir`: the entries copied and the size of the directory. -/
def unsafeDirnodeReaddir (dirents : List Dirent) (count offset : Nat) :
    Option (List Dirent × Nat) :=
  if count < 1 then none
  else if offset ≥ dirents.length then some ([], dirents.length)
  else some (copyDirents dirents offset count, dirents.length)

theorem copyDirents_eq (dirents : List Dirent) (offset count : Nat) :
    copyDirents dirents offset (count + 1) = (dirents.drop offset).take (count + 1) := by
  induction dirents generalizing offset count with
  | nil => simp [copyDirents]
  | cons dirent dirents ih =>
    cases offset with
    | succ offset => exact ih offset count
    | zero =>
      cases count with
      | zero => rfl
      | succ count => exact congrArg (dirent :: ·) (ih 0 count)

/-- `struct my_dir`. -/
structure MyDir where
  readdirOffset : Nat

/-- `vfs_dir_alloc`. -/
def vfsDirAlloc : MyDir := ⟨0⟩

/-- A call of `nxs_fuse_readdir`: whether the inode has a dentry and whether the backend lists
its directory. -/
structure Readdir where
  size : Nat
  off : Nat
  dentry : Bool
  listed : Bool

/-- `nexus_fuse_readdir`. -/
def nexusFuseReaddir (dirents : List Dirent) (listed : Bool) (offset : Nat) :
    Option (List Dirent × Nat) :=
  if listed then unsafeDirnodeReaddir dirents 128 offset else none

variable (entrySize : Dirent → Nat) (dirents : List Dirent)

/-- The loop of `nxs_fuse_readdir`; `entrySize` is what `fuse_add_direntry` returns. -/
def addDirentries : List Dirent → Nat → Nat → List (Dirent × Nat)
  | [], _, _ => []
  | dirent :: entries, left, nextOffset =>
    if entrySize dirent > left then []
    else (dirent, nextOffset + 1) ::
      addDirentries entries (left - entrySize dirent) (nextOffset + 1)

/-- `nxs_fuse_readdir`: the handle, and the entries of the reply with their offsets, or an
error. -/
def nxsFuseReaddir (dir : MyDir) (c : Readdir) : MyDir × Option (List (Dirent × Nat)) :=
  if !c.dentry then (dir, none)
  else match nexusFuseReaddir dirents c.listed dir.readdirOffset with
    | none => (dir, some [])
    | some (entries, directorySize) =>
      if dir.readdirOffset ≥ directorySize then (dir, some [])
      else
        let reply := addDirentries entrySize entries c.size dir.readdirOffset
        (⟨dir.readdirOffset + reply.length⟩, some reply)

/-- The offset is a position of the directory, as 0 and every offset of a reply is, and every
entry fits the buffer. -/
def Asked (c : Readdir) : Prop :=
  c.off ≤ dirents.length ∧ ∀ dirent ∈ dirents, entrySize dirent ≤ c.size

/-- The entries from a position on, each with the position after it. -/
def entriesFrom (off count : Nat) : List (Dirent × Nat) :=
  ((dirents.drop off).take count).zipIdx (off + 1)

/-- The reply lists entries from the offset on, and none only at the end. -/
def Honours (dir : MyDir) (c : Readdir) : Prop :=
  ∃ count, (nxsFuseReaddir entrySize dirents dir c).2 = some (entriesFrom dirents c.off count) ∧
    (entriesFrom dirents c.off count = [] ↔ c.off = dirents.length)

/-- The offset is where the cursor stands, or the backend fails at the end. -/
def AtCursor (dir : MyDir) (c : Readdir) : Prop :=
  c.dentry = true ∧ c.off = if c.listed then dir.readdirOffset else dirents.length

theorem addDirentries_eq (entries : List Dirent) (left next : Nat) :
    ∃ count, addDirentries entrySize entries left next =
      (entries.take count).zipIdx (next + 1) := by
  induction entries generalizing left next with
  | nil => exact ⟨0, rfl⟩
  | cons dirent entries ih =>
    rw [addDirentries]
    split
    · exact ⟨0, rfl⟩
    · obtain ⟨count, heq⟩ := ih (left - entrySize dirent) (next + 1)
      exact ⟨count + 1, congrArg _ heq⟩

variable {entrySize dirents} {dir : MyDir} {c : Readdir}

theorem offset_of_entriesFrom {off count : Nat} {e : Dirent × Nat} {es : List (Dirent × Nat)}
    (h : entriesFrom dirents off count = e :: es) : e.2 = off + 1 := by
  unfold entriesFrom at h
  cases htake : (dirents.drop off).take count with
  | nil => simp [htake] at h
  | cons dirent rest =>
    rw [htake, List.zipIdx_cons] at h
    exact congrArg Prod.snd (List.cons.inj h).1.symm

theorem nxsFuseReaddir_listed (hasked : Asked entrySize dirents c) (hdentry : c.dentry = true)
    (hlisted : c.listed = true) (hle : dir.readdirOffset ≤ dirents.length) :
    ∃ count, let reply := entriesFrom dirents dir.readdirOffset count
      nxsFuseReaddir entrySize dirents dir c = (⟨dir.readdirOffset + reply.length⟩, some reply) ∧
      (reply = [] ↔ dir.readdirOffset = dirents.length) := by
  unfold nxsFuseReaddir nexusFuseReaddir unsafeDirnodeReaddir
  rw [hdentry, hlisted, copyDirents_eq]
  rcases hle.eq_or_lt with hend | hlt
  · refine ⟨0, ?_, by simp [entriesFrom, hend]⟩
    simp only [hend, ge_iff_le, le_refl, if_true]
    simp [entriesFrom, ← hend]
  · obtain ⟨dirent, rest, hdrop⟩ : ∃ dirent rest, dirents.drop dir.readdirOffset = dirent :: rest :=
      List.exists_cons_of_ne_nil fun hnil => hlt.not_ge (List.drop_eq_nil_iff.mp hnil)
    have hfits := hasked.2 dirent (List.mem_of_mem_drop (hdrop ▸ List.mem_cons_self))
    obtain ⟨count, heq⟩ := addDirentries_eq entrySize (rest.take 127)
      (c.size - entrySize dirent) (dir.readdirOffset + 1)
    have hreply : addDirentries entrySize (dirent :: rest.take 127) c.size dir.readdirOffset =
        entriesFrom dirents dir.readdirOffset (min count 127 + 1) := by
      rw [addDirentries, if_neg hfits.not_gt, heq, entriesFrom, hdrop, List.take_take]
      rfl
    refine ⟨min count 127 + 1, ?_, by simp [entriesFrom, hdrop, hlt.ne]⟩
    simp [hlt.not_ge, hdrop, hreply]

theorem readdirOffset_le (hasked : Asked entrySize dirents c)
    (hle : dir.readdirOffset ≤ dirents.length) :
    (nxsFuseReaddir entrySize dirents dir c).1.readdirOffset ≤ dirents.length := by
  cases hdentry : c.dentry with
  | false => simpa [nxsFuseReaddir, hdentry]
  | true =>
    cases hlisted : c.listed with
    | false => simpa [nxsFuseReaddir, nexusFuseReaddir, hdentry, hlisted]
    | true =>
      obtain ⟨count, heq, -⟩ := nxsFuseReaddir_listed hasked hdentry hlisted hle
      rw [heq]
      simp only [entriesFrom, List.length_zipIdx, List.length_take, List.length_drop]
      omega

theorem honours_iff (hasked : Asked entrySize dirents c)
    (hle : dir.readdirOffset ≤ dirents.length) :
    Honours entrySize dirents dir c ↔ AtCursor dirents dir c := by
  unfold Honours AtCursor
  cases hdentry : c.dentry with
  | false => simp [nxsFuseReaddir, hdentry]
  | true =>
    cases hlisted : c.listed with
    | false =>
      have hreply : (nxsFuseReaddir entrySize dirents dir c).2 = some [] := by
        simp [nxsFuseReaddir, nexusFuseReaddir, hdentry, hlisted]
      rw [hreply]
      constructor
      · rintro ⟨count, heq, hend⟩
        exact ⟨rfl, hend.mp (Option.some.inj heq).symm⟩
      · rintro ⟨-, hoff⟩
        exact ⟨0, by simp [entriesFrom], by simpa [entriesFrom] using hoff⟩
    | true =>
      obtain ⟨count, heq, hend⟩ := nxsFuseReaddir_listed hasked hdentry hlisted hle
      rw [heq]
      constructor
      · rintro ⟨count', heq', hend'⟩
        have heq' := Option.some.inj heq'
        refine ⟨rfl, ?_⟩
        -- the tag of its first entry says where a reply starts
        cases hreply : entriesFrom dirents dir.readdirOffset count with
        | nil => exact (hend'.mp (heq' ▸ hreply)).trans (hend.mp hreply).symm
        | cons e es =>
          have htag := offset_of_entriesFrom hreply
          have htag' := offset_of_entriesFrom (heq' ▸ hreply)
          exact Nat.succ.inj (htag'.symm.trans htag)
      · rintro ⟨-, hoff⟩
        have hoff : c.off = dir.readdirOffset := hoff
        rw [hoff]
        exact ⟨count, rfl, hend⟩

/-- The replies are those of the offsets in exactly the runs that ask for the entries at the
cursor. -/
theorem replies_honour_offset_iff (entrySize : Dirent → Nat) (dirents : List Dirent)
    (calls : List Readdir) :
    Meets (fun dir c => (nxsFuseReaddir entrySize dirents dir c).1)
        (fun dir c => Asked entrySize dirents c ∧ Honours entrySize dirents dir c)
        vfsDirAlloc calls ↔
      Meets (fun dir c => (nxsFuseReaddir entrySize dirents dir c).1)
        (fun dir c => Asked entrySize dirents c ∧ AtCursor dirents dir c) vfsDirAlloc calls :=
  meets_iff_meets (P := fun dir => dir.readdirOffset ≤ dirents.length)
    (fun _ _ hle h => readdirOffset_le h.1 hle)
    (fun _ _ hle => and_congr_right fun hasked => honours_iff hasked hle) (Nat.zero_le _) calls

/-- After the only entry is read, a call that starts over gets nothing. -/
theorem rewinddir_lists_nothing :
    let first := nxsFuseReaddir (fun _ => 32) ["a"] vfsDirAlloc ⟨4096, 0, true, true⟩
    first.2 = some [("a", 1)] ∧
      (nxsFuseReaddir (fun _ => 32) ["a"] first.1 ⟨4096, 0, true, true⟩).2 = some [] ∧
      ¬ Honours (fun _ => 32) ["a"] first.1 ⟨4096, 0, true, true⟩ := by
  refine ⟨by decide, by decide, fun h => ?_⟩
  have hcursor := (honours_iff ⟨Nat.zero_le 1, fun _ _ => by norm_num⟩ (Nat.le_refl 1)).mp h
  exact absurd hcursor.2 (by decide)

end Nexus.Frontend
