import Nexus.Dentry.Refine

/-!
# Links that lead back to themselves

`walk_path` and `dentry_follow_link` call each other for every link on the way, and
nothing counts the links.  A lookup returns exactly if no link is met again while it is
being followed and only finitely many are met.
-/

namespace Nexus.Dcache

open Recursion Relation

namespace Tree

/-- A link that is being followed meets another one.  A link is the place of the directory
that holds it and its target. -/
def Meets (t : Tree) : Place × Bytes → Place × Bytes → Prop :=
  Enters (t.followLink Component.goesUp)

/-- A path leads through a link. -/
def LeadsThrough (t : Tree) (type : WalkType) (path : Bytes) : Place × Bytes → Prop :=
  MadeBy (t.followLink Component.goesUp) (t.walk Component.goesUp type (components path) [])

/-- Only finitely many links are on the way, and none of them leads to itself. -/
def WellFoundedLinks (t : Tree) (type : WalkType) (path : Bytes) : Prop :=
  {x | t.LeadsThrough type path x}.Finite ∧
    ∀ x, t.LeadsThrough type path x → ¬ TransGen t.Meets x x

end Tree

theorem Agrees.isSome_iff {t : Tree} {r : Option (Vfs × Option Nat)} {r' : Option (Option Place)}
    (h : Agrees t r r') : r.isSome = true ↔ ∃ p, r' = some p := by
  cases r with
  | none =>
    cases r' with
    | none => simp
    | some p => exact h.elim
  | some r =>
    obtain ⟨s, id⟩ := r
    cases r' with
    | none => cases id <;> exact h.elim
    | some p => simp

/-- The root directory holds the link `l`, with the given target. -/
def linkedRoot (target : Bytes) : Uuid → Option StoredDir := fun uuid =>
  if uuid = 0 then
    some
      { dirnode :=
          { entries := fun name => if name.bytes = [108] then some (.lnk, 1) else none
            links := fun uuid => if uuid = 1 then some target else none
            attributes := attributeTableCreate }
        timestamp := 0 }
  else none

/-- A lookup returns a dentry or `NULL`, at some depth of the stack, exactly if the links on
the way are well founded. -/
theorem dentryLookup_returns_iff {s : Vfs} (h : s.Coherent) (type : WalkType) (path : Bytes) :
    (∃ depth, (dentryLookup depth type path s).isSome = true) ↔
      s.tree.WellFoundedLinks type path := by
  refine Iff.trans ?_ (run_iff (s.tree.walk Component.goesUp type (components path) []))
  exact exists_congr fun depth => (dentryLookup_agrees h depth type path).isSome_iff

/-- A link to the directory that holds it is followed. -/
theorem linkToDirectory_returns :
    (dcacheInitRoot 0 (linkedRoot [46])).Coherent ∧
      (dcacheInitRoot 0 (linkedRoot [46])).tree.WellFoundedLinks .normal [108] :=
  ⟨Vfs.coherent_dcacheInitRoot _ _,
    (dentryLookup_returns_iff (Vfs.coherent_dcacheInitRoot _ _) .normal [108]).mp
      ⟨1, by decide⟩⟩

/-- The link `l` leads to `l`: no depth of the stack is enough to look it up. -/
theorem linkToItself_never_returns : ¬ ∃ depth,
    (dentryLookup depth .normal [108] (dcacheInitRoot 0 (linkedRoot [108]))).isSome = true := by
  rintro ⟨depth, hsome⟩
  have hcalls : ∃ k, (Tree.mk 0 (linkedRoot [108])).followLink Component.goesUp ([], [108]) =
      .call ([], [108]) k := ⟨_, rfl⟩
  obtain ⟨k, hk⟩ := hcalls
  have heval : ∀ depth,
      eval ((Tree.mk 0 (linkedRoot [108])).followLink Component.goesUp) depth ([], [108]) = none := by
    intro depth
    induction depth with
    | zero => rfl
    | succ depth ih =>
      unfold eval
      rw [hk, Proc.run, ih]
  have hagrees := dentryLookup_agrees (Vfs.coherent_dcacheInitRoot 0 (linkedRoot [108])) depth
    .normal [108]
  -- the walk of the path is the walk of the link
  have hresolve : (dcacheInitRoot 0 (linkedRoot [108])).tree.resolve Component.goesUp depth .normal
      [108] = none := heval (depth + 1)
  rw [hresolve] at hagrees
  obtain ⟨p, hp⟩ := hagrees.isSome_iff.mp hsome
  cases hp

end Nexus.Dcache
