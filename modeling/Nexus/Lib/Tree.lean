import Mathlib.Data.Set.Insert
import Mathlib.Logic.Function.Basic
import Mathlib.Logic.Relation
import Nexus.Lib.Refs

/-!
# Rooted trees with labelled edges

A graph is a partial map from a vertex and a label to the vertex at the end of
the edge.  It is a tree over a set of vertices when all of them can be reached
from the root and no vertex is at the end of two edges.
-/

namespace Nexus.LabelledTree

open Function Relation

variable {V L : Type*} {edge : V × L → Option V} {root u v w : V} {x y : L} {nodes : Set V}

/-- Some edge leads from `u` to `v`. -/
def Child (edge : V × L → Option V) (u v : V) : Prop := ∃ x, edge (u, x) = some v

structure IsTree (edge : V × L → Option V) (root : V) (nodes : Set V) : Prop where
  root_mem : root ∈ nodes
  source_mem : ∀ {u x v}, edge (u, x) = some v → u ∈ nodes
  target_mem : ∀ {p v}, edge p = some v → v ∈ nodes
  root_top : ∀ p, edge p ≠ some root
  unique : ∀ {p q v}, edge p = some v → edge q = some v → p = q
  reach : ∀ {v}, v ∈ nodes → ReflTransGen (Child edge) root v

theorem isTree_singleton (root : V) : IsTree (fun _ : V × L => none) root {root} where
  root_mem := rfl
  source_mem := by simp
  target_mem := by simp
  root_top := by simp
  unique := by simp
  reach := by
    rintro v rfl
    exact .refl

/-- There is no cycle. -/
theorem IsTree.acyclic (h : IsTree edge root nodes) (hv : v ∈ nodes) :
    ¬ TransGen (Child edge) v v := by
  induction h.reach hv with
  | refl =>
    intro hcycle
    obtain ⟨u, -, x, hx⟩ := TransGen.tail'_iff.mp hcycle
    exact h.root_top _ hx
  | @tail b c hb hchild ih =>
    intro hcycle
    obtain ⟨u, hu, x, hx⟩ := TransGen.tail'_iff.mp hcycle
    obtain ⟨y, hy⟩ := hchild
    obtain ⟨rfl, -⟩ := Prod.mk.inj (h.unique hx hy)
    exact ih (h.source_mem hy) (TransGen.head' ⟨y, hy⟩ hu)

/-- Every vertex but the root is at the end of exactly one edge. -/
theorem IsTree.existsUnique_edge (h : IsTree edge root nodes) (hv : v ∈ nodes) (hne : v ≠ root) :
    ∃! p, edge p = some v := by
  rcases ReflTransGen.cases_tail (h.reach hv) with heq | ⟨u, -, x, hx⟩
  · exact absurd heq hne
  · exact ⟨(u, x), hx, fun q hq => h.unique hq hx⟩

section Update

variable [DecidableEq V] [DecidableEq L]

/-- A new vertex below an old one. -/
theorem IsTree.insert (h : IsTree edge root nodes) (hu : u ∈ nodes) (hfree : edge (u, x) = none)
    (hv : v ∉ nodes) :
    IsTree (update edge (u, x) (some v)) root (insert v nodes) := by
  have hkeep {p : V × L} {z : V} (hz : edge p = some z) :
      update edge (u, x) (some v) p = some z := by
    have hp : p ≠ (u, x) := by
      rintro rfl
      simp [hfree] at hz
    rw [update_of_ne hp, hz]
  have hcases {p : V × L} {z : V} (hz : update edge (u, x) (some v) p = some z) :=
    update_eq_some hz
  have hold {z : V} (hz : z ∈ nodes) :
      ReflTransGen (Child (update edge (u, x) (some v))) root z :=
    (h.reach hz).lift id fun _ _ ⟨l, hl⟩ => ⟨l, hkeep hl⟩
  refine ⟨Set.mem_insert_of_mem v h.root_mem, ?_, ?_, ?_, ?_, ?_⟩
  · intro u' x' z hz
    rcases hcases hz with ⟨hp, -⟩ | ⟨-, hz⟩
    · rw [(Prod.mk.inj hp).1]
      exact Set.mem_insert_of_mem v hu
    · exact Set.mem_insert_of_mem v (h.source_mem hz)
  · intro p z hz
    rcases hcases hz with ⟨-, ⟨⟩⟩ | ⟨-, hz⟩
    · exact Set.mem_insert v nodes
    · exact Set.mem_insert_of_mem v (h.target_mem hz)
  · intro p hp
    rcases hcases hp with ⟨-, ⟨⟩⟩ | ⟨-, hz⟩
    · exact hv h.root_mem
    · exact h.root_top p hz
  · intro p q z hzp hzq
    rcases hcases hzp with ⟨hp, ⟨⟩⟩ | ⟨-, hp⟩ <;> rcases hcases hzq with ⟨hq, ⟨⟩⟩ | ⟨-, hq⟩
    · rw [hp, hq]
    · exact absurd (h.target_mem hq) hv
    · exact absurd (h.target_mem hp) hv
    · exact h.unique hp hq
  · intro z hz
    rcases Set.mem_insert_iff.mp hz with rfl | hz
    · exact (hold hu).tail ⟨x, update_self ..⟩
    · exact hold hz

/-- A vertex without children is taken away. -/
theorem IsTree.erase (h : IsTree edge root nodes) (hedge : edge (u, x) = some v)
    (hleaf : ∀ y, edge (v, y) = none) :
    IsTree (update edge (u, x) none) root (nodes \ {v}) := by
  have hcases {p : V × L} {z : V} (hz : update edge (u, x) none p = some z) :
      p ≠ (u, x) ∧ edge p = some z :=
    (update_eq_some hz).resolve_left nofun
  have hroot : root ≠ v := fun heq => h.root_top _ (heq ▸ hedge)
  refine ⟨⟨h.root_mem, hroot⟩, ?_, ?_, ?_, ?_, ?_⟩
  · intro u' x' z hz
    obtain ⟨-, hz⟩ := hcases hz
    refine ⟨h.source_mem hz, ?_⟩
    rintro rfl
    simp [hleaf] at hz
  · intro p z hz
    obtain ⟨hp, hz⟩ := hcases hz
    refine ⟨h.target_mem hz, ?_⟩
    rintro rfl
    exact hp (h.unique hz hedge)
  · exact fun p hp => h.root_top p (hcases hp).2
  · exact fun hp hq => h.unique (hcases hp).2 (hcases hq).2
  · rintro z ⟨hz, hzv⟩
    induction h.reach hz with
    | refl => exact .refl
    | @tail b c _ hchild ih =>
      obtain ⟨y, hy⟩ := hchild
      have hb : b ≠ v := by
        rintro rfl
        simp [hleaf] at hy
      have hp : (b, y) ≠ (u, x) := by
        intro hp
        rw [hp, hedge, Option.some.injEq] at hy
        exact hzv hy.symm
      exact (ih (h.source_mem hy) hb).tail ⟨y, by rw [update_of_ne hp, hy]⟩

/-- A vertex moves with all that is below it, to a vertex that is not below it. -/
theorem IsTree.move (h : IsTree edge root nodes) (hedge : edge (u, x) = some v)
    (hw : w ∈ nodes) (hfree : edge (w, y) = none) (hbelow : ¬ ReflTransGen (Child edge) v w) :
    IsTree (update (update edge (u, x) none) (w, y) (some v)) root nodes := by
  have hcases {p : V × L} {z : V}
      (hz : update (update edge (u, x) none) (w, y) (some v) p = some z) :
      (p = (w, y) ∧ some v = some z) ∨ (p ≠ (u, x) ∧ edge p = some z) := by
    refine (update_eq_some hz).imp_right fun hz => ?_
    exact (update_eq_some hz.2).resolve_left fun h => nomatch h.2
  have hkeep {p : V × L} {z : V} (hz : edge p = some z) (hp : p ≠ (u, x)) :
      update (update edge (u, x) none) (w, y) (some v) p = some z := by
    have hp' : p ≠ (w, y) := by
      rintro rfl
      simp [hfree] at hz
    rw [update_of_ne hp', update_of_ne hp, hz]
  -- what is not below the moved vertex is reached as before, the new parent among it
  have houtside {z : V} (hz : z ∈ nodes) (hnot : ¬ ReflTransGen (Child edge) v z) :
      ReflTransGen (Child (update (update edge (u, x) none) (w, y) (some v)))
        root z := by
    induction h.reach hz with
    | refl => exact .refl
    | @tail b c _ hchild ih =>
      obtain ⟨l, hl⟩ := hchild
      have hb : ¬ ReflTransGen (Child edge) v b := fun hb => hnot (hb.tail ⟨l, hl⟩)
      have hp : (b, l) ≠ (u, x) := by
        intro hp
        rw [hp, hedge, Option.some.injEq] at hl
        exact hnot (hl ▸ .refl)
      exact (ih (h.source_mem hl) hb).tail ⟨l, hkeep hl hp⟩
  have hmoved := (houtside hw hbelow).tail ⟨y, update_self (w, y) (some v)
    (update edge (u, x) none)⟩
  refine ⟨h.root_mem, ?_, ?_, ?_, ?_, ?_⟩
  · intro u' x' z hz
    rcases hcases hz with ⟨hp, -⟩ | ⟨-, hz⟩
    · rw [(Prod.mk.inj hp).1]
      exact hw
    · exact h.source_mem hz
  · intro p z hz
    rcases hcases hz with ⟨-, ⟨⟩⟩ | ⟨-, hz⟩
    · exact h.target_mem hedge
    · exact h.target_mem hz
  · intro p hp
    rcases hcases hp with ⟨-, ⟨⟩⟩ | ⟨-, hz⟩
    · exact h.root_top _ hedge
    · exact h.root_top p hz
  · intro p q z hzp hzq
    rcases hcases hzp with ⟨hp, ⟨⟩⟩ | ⟨hpu, hp⟩ <;> rcases hcases hzq with ⟨hq, ⟨⟩⟩ | ⟨hqu, hq⟩
    · rw [hp, hq]
    · exact absurd (h.unique hq hedge) hqu
    · exact absurd (h.unique hp hedge) hpu
    · exact h.unique hp hq
  · intro z hz
    induction h.reach hz with
    | refl => exact .refl
    | @tail b c _ hchild ih =>
      obtain ⟨l, hl⟩ := hchild
      by_cases hp : (b, l) = (u, x)
      · rw [hp, hedge, Option.some.injEq] at hl
        exact hl ▸ hmoved
      · exact (ih (h.source_mem hl)).tail ⟨l, hkeep hl hp⟩

end Update

end Nexus.LabelledTree
