import Nexus.Abac.Policy
import Nexus.Lib.Datalog

/-!
# What the engine derives

The clauses of `datalog.lua` as a ground program.  A clause stands for its instances,
one for each assignment of constants to its variables.  The comparisons are primitives:
they hold of the pairs of constants that their code accepts, and clauses asserted for
them are ignored.  A predicate is a name and an arity, which here is the number of
arguments.
-/

namespace Nexus.Abac

open Datalog

/-- A predicate name and its constants. -/
structure GroundAtom where
  pred : String
  args : List String
  deriving DecidableEq, Repr

/-- The value of a term under an assignment. -/
def Term.value (σ : String → String) : Term → String
  | .const id => id
  | .var id => σ id

/-- The instance of a literal. -/
def Literal.ground (σ : String → String) (l : Literal) : GroundAtom :=
  ⟨l.pred, l.terms.map (Term.value σ)⟩

/-- The instance of a clause. -/
def Clause.ground (σ : String → String) (c : Clause) : Rule GroundAtom :=
  ⟨c.head.ground σ, c.body.map (Literal.ground σ)⟩

/-- The names of the primitives, all of arity 2. -/
def primitiveNames : List String := ["=", "_ge", "_gt", "_le", "_lt", "_ne"]

/-- The predicate is a primitive. -/
def GroundAtom.isPrimitive (a : GroundAtom) : Bool :=
  decide (a.pred ∈ primitiveNames) && a.args.length == 2

/-- Which pairs of constants a primitive accepts. -/
abbrev Primitives := String → String → String → Prop

/-- The ground program of the clauses and the primitives. -/
def program (prims : Primitives) (kb : Set Clause) : Set (Rule GroundAtom) :=
  {r | (r.head.isPrimitive = false ∧ ∃ c ∈ kb, ∃ σ, r = c.ground σ) ∨
    ∃ name x y, name ∈ primitiveNames ∧ prims name x y ∧ r = ⟨⟨name, [x, y]⟩, []⟩}

theorem derives_primitive_iff {prims : Primitives} {kb : Set Clause} {name x y : String}
    (hname : name ∈ primitiveNames) :
    Derives (program prims kb) ⟨name, [x, y]⟩ ↔ prims name x y := by
  have hfacts : ∀ r ∈ program prims kb, r.head = ⟨name, [x, y]⟩ → r.body = [] := by
    rintro r (⟨hprim, -⟩ | ⟨name', x', y', -, -, rfl⟩) hhead
    · simp [GroundAtom.isPrimitive, hhead, hname] at hprim
    · rfl
  rw [derives_iff_of_facts hfacts]
  constructor
  · rintro (⟨hprim, -⟩ | ⟨name', x', y', -, hholds, heq⟩)
    · simp [GroundAtom.isPrimitive, hname] at hprim
    · obtain ⟨⟨rfl, rfl, rfl⟩, -⟩ : (name = name' ∧ x = x' ∧ y = y') ∧ True := by
        simpa using heq
      exact hholds
  · intro hholds
    exact .inr ⟨name, x, y, hname, hholds, rfl⟩

end Nexus.Abac
