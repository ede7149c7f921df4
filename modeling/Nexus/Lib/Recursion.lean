import Mathlib.Data.Set.Finite.Lattice
import Mathlib.Logic.Relation
import Mathlib.Order.WellFounded

/-!
# Recursive procedures and their depth

A procedure returns a result or calls itself and goes on with the answer.  It is
run with a bound on the depth of the calls.  It returns at some depth exactly if
finitely many calls are made and none of them is made again while it is running.
-/

namespace Nexus.Recursion

/-- The body of a procedure: its result, or a call and what is done with the
answer. -/
inductive Proc (X R : Type) where
  | ret (r : R)
  | call (x : X) (k : R → Proc X R)

variable {X R : Type}

namespace Proc

/-- Run a body, given what its calls answer; `none` is a call that does not
return. -/
def run (answer : X → Option R) : Proc X R → Option R
  | ret r => some r
  | call x k =>
    match answer x with
    | none => none
    | some r => (k r).run answer

/-- The calls that a body makes, given what they may answer. -/
inductive Calls (answer : X → R → Prop) : Proc X R → X → Prop where
  | here (x : X) (k : R → Proc X R) : Calls answer (call x k) x
  | later {x y : X} {r : R} {k : R → Proc X R} (hr : answer x r) (hy : Calls answer (k r) y) :
      Calls answer (call x k) y

end Proc

open Proc Relation

variable (body : X → Proc X R)

/-- The result of a call whose own calls are nested less deep than the bound. -/
def eval : Nat → X → Option R
  | 0, _ => none
  | depth + 1, x => (body x).run (eval depth)

/-- The call returns at some depth. -/
def Returns (x : X) (r : R) : Prop := ∃ depth, eval body depth x = some r

/-- One call makes another. -/
def Enters (x y : X) : Prop := Calls (Returns body) (body x) y

variable {body}

/-! ## More depth changes no result -/

variable {r : R} {depth : Nat} {x : X}

theorem Proc.run_mono {answer answer' : X → Option R}
    (h : ∀ x r, answer x = some r → answer' x = some r) {p : Proc X R}
    (hrun : p.run answer = some r) : p.run answer' = some r := by
  induction p with
  | ret r' => exact hrun
  | call x k ih =>
    unfold run at hrun ⊢
    cases hx : answer x with
    | none => simp [hx] at hrun
    | some a =>
      rw [hx] at hrun
      rw [h x a hx]
      exact ih a hrun

theorem eval_succ (h : eval body depth x = some r) :
    eval body (depth + 1) x = some r := by
  induction depth generalizing x r with
  | zero => simp [eval] at h
  | succ depth ih => exact run_mono (fun _ _ => ih) h

theorem eval_mono {depth' : Nat} (hle : depth ≤ depth') (h : eval body depth x = some r) :
    eval body depth' x = some r := by
  induction depth', hle using Nat.le_induction with
  | base => exact h
  | succ depth' _ ih => exact eval_succ ih

theorem Returns.unique {r' : R} (h : Returns body x r) (h' : Returns body x r') :
    r = r' := by
  obtain ⟨d, hd⟩ := h
  obtain ⟨d', hd'⟩ := h'
  have hmax := eval_mono (Nat.le_max_left d d') hd
  rw [eval_mono (Nat.le_max_right d d') hd'] at hmax
  exact (Option.some.inj hmax).symm

/-! ## Returning and well-founded calls -/

/-- What a body that returns has called has returned at the same bound. -/
theorem Proc.run_calls {p : Proc X R} (hrun : p.run (eval body depth) = some r) {y : X}
    (hy : Calls (Returns body) p y) :
    ∃ a, eval body depth y = some a := by
  induction hy with
  | here x k =>
    unfold run at hrun
    cases hx : eval body depth x with
    | none => simp [hx] at hrun
    | some a => exact ⟨a, rfl⟩
  | @later x y a k ha _ ih =>
    unfold run at hrun
    cases hx : eval body depth x with
    | none => simp [hx] at hrun
    | some a' =>
      rw [hx] at hrun
      obtain rfl := ha.unique ⟨depth, hx⟩
      exact ih hrun

/-- A body returns if all its calls do. -/
theorem Proc.run_of_calls {p : Proc X R}
    (h : ∀ y, Calls (Returns body) p y → ∃ a, Returns body y a) :
    ∃ depth r, p.run (eval body depth) = some r := by
  induction p with
  | ret r => exact ⟨0, r, rfl⟩
  | call x k ih =>
    obtain ⟨a, d, hd⟩ := h x (.here x k)
    obtain ⟨d', r, hr⟩ := ih a fun y hy => h y (.later ⟨d, hd⟩ hy)
    refine ⟨max d d', r, ?_⟩
    unfold run
    rw [eval_mono (Nat.le_max_left d d') hd]
    exact run_mono (fun _ _ => eval_mono (Nat.le_max_right d d')) hr

theorem acc_of_returns (h : eval body depth x = some r) :
    Acc (fun y x => Enters body x y) x := by
  induction depth generalizing x r with
  | zero => simp [eval] at h
  | succ depth ih =>
    refine ⟨x, fun y hy => ?_⟩
    obtain ⟨a, ha⟩ := run_calls h hy
    exact ih ha

theorem returns_of_acc (h : Acc (fun y x => Enters body x y) x) :
    ∃ r, Returns body x r := by
  induction h with
  | intro x _ ih =>
    obtain ⟨d, r, hr⟩ := run_of_calls ih
    exact ⟨r, d + 1, hr⟩

/-! ## Calls that are made again -/

theorem Proc.finite_calls (p : Proc X R) : {y | Calls (Returns body) p y}.Finite := by
  induction p with
  | ret r => exact Set.finite_empty.subset fun y hy => nomatch hy
  | call x k ih =>
    by_cases hx : ∃ a, Returns body x a
    · obtain ⟨a, ha⟩ := hx
      refine ((ih a).insert x).subset fun y hy => ?_
      cases hy with
      | here => exact Set.mem_insert x _
      | later ha' hy' => exact Set.mem_insert_of_mem x (ha.unique ha' ▸ hy')
    · refine (Set.finite_singleton x).subset fun y hy => ?_
      cases hy with
      | here => exact Set.mem_singleton x
      | later ha' _ => exact absurd ⟨_, ha'⟩ hx

theorem finite_of_acc (h : Acc (fun y x => Enters body x y) x) :
    {y | ReflTransGen (Enters body) x y}.Finite := by
  induction h with
  | intro x _ ih =>
    have hbelow : (⋃ y ∈ {y | Enters body x y}, {z | ReflTransGen (Enters body) y z}).Finite :=
      (finite_calls (body x)).biUnion ih
    refine (hbelow.insert x).subset fun z hz => ?_
    obtain rfl | ⟨y, hy, hyz⟩ := hz.cases_head
    · exact Set.mem_insert _ _
    · exact Set.mem_insert_of_mem x (Set.mem_biUnion hy hyz)

theorem not_again_of_acc {y : X} (h : Acc (fun y x => Enters body x y) x)
    (hy : ReflTransGen (Enters body) x y) : ¬ TransGen (Enters body) y y := by
  have hacc : Acc (fun y x => Enters body x y) y := by
    induction hy with
    | refl => exact h
    | tail _ hstep ih => exact ih.inv hstep
  clear hy h
  intro hloop
  induction hacc with
  | intro y _ ih =>
    obtain ⟨z, hyz, hzy⟩ := TransGen.head'_iff.mp hloop
    exact ih z hyz (TransGen.tail' hzy hyz)

/-- If finitely many calls are made and none is made again while it is running, the
calls are well founded. -/
theorem acc_of_finite (hfin : {y | ReflTransGen (Enters body) x y}.Finite)
    (hloop : ∀ y, ReflTransGen (Enters body) x y → ¬ TransGen (Enters body) y y) :
    Acc (fun y x => Enters body x y) x := by
  have : Finite {y | ReflTransGen (Enters body) x y} := hfin
  let below (a b : {y | ReflTransGen (Enters body) x y}) : Prop :=
    TransGen (Enters body) b.1 a.1
  have htrans : IsTrans _ below := ⟨fun _ _ _ hab hbc => TransGen.trans hbc hab⟩
  have hirrefl : Std.Irrefl below := ⟨fun a => hloop a.1 a.2⟩
  have hwf : WellFounded below := Finite.wellFounded_of_trans_of_irrefl below
  have hacc : ∀ a, Acc below a → Acc (fun y x => Enters body x y) a.1 := by
    intro a ha
    induction ha with
    | intro a _ ih =>
      refine ⟨a.1, fun y hy => ?_⟩
      exact ih ⟨y, ReflTransGen.tail a.2 hy⟩ (TransGen.single hy)
  exact hacc ⟨x, ReflTransGen.refl⟩ (hwf.apply _)

/-- A call returns exactly if finitely many calls are made and none of them is made
again while it is running. -/
theorem returns_iff (x : X) :
    (∃ r, Returns body x r) ↔
      {y | ReflTransGen (Enters body) x y}.Finite ∧
        ∀ y, ReflTransGen (Enters body) x y → ¬ TransGen (Enters body) y y := by
  constructor
  · rintro ⟨r, d, hd⟩
    have hacc := acc_of_returns hd
    exact ⟨finite_of_acc hacc, fun y hy => not_again_of_acc hacc hy⟩
  · rintro ⟨hfin, hloop⟩
    exact returns_of_acc (acc_of_finite hfin hloop)

/-- The calls that are made while a body runs. -/
def MadeBy (body : X → Proc X R) (p : Proc X R) (y : X) : Prop :=
  ∃ x, Calls (Returns body) p x ∧ ReflTransGen (Enters body) x y

/-- The same for a body that is run by itself. -/
theorem run_iff (p : Proc X R) :
    (∃ depth r, p.run (eval body depth) = some r) ↔
      {y | MadeBy body p y}.Finite ∧ ∀ y, MadeBy body p y → ¬ TransGen (Enters body) y y := by
  constructor
  · rintro ⟨depth, r, hrun⟩
    have hacc : ∀ x, Calls (Returns body) p x → Acc (fun y x => Enters body x y) x := by
      intro x hx
      obtain ⟨a, ha⟩ := Proc.run_calls hrun hx
      exact acc_of_returns ha
    constructor
    · refine ((Proc.finite_calls p).biUnion fun x hx => finite_of_acc (hacc x hx)).subset ?_
      rintro y ⟨x, hx, hxy⟩
      exact Set.mem_biUnion hx hxy
    · rintro y ⟨x, hx, hxy⟩
      exact not_again_of_acc (hacc x hx) hxy
  · rintro ⟨hfin, hloop⟩
    refine Proc.run_of_calls fun x hx => (returns_iff x).mpr ⟨?_, fun y hy => hloop y ⟨x, hx, hy⟩⟩
    exact hfin.subset fun y hy => ⟨x, hx, hy⟩

end Nexus.Recursion
