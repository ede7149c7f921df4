import Mathlib.Logic.Basic

/-!
# Invariants along runs

A machine is a step function on its states.  `Always` says that a property holds
in every state of a run, and `Meets` that every step of the run meets a condition
on the state before it and on the event.  If the condition is what a step needs
to keep an invariant, the runs along which the invariant holds are those whose
steps meet it.
-/

namespace Nexus.Runs

variable {S E : Type} (step : S → E → S)

/-- The property holds in every state of the run. -/
def Always (P : S → Prop) : S → List E → Prop
  | s, [] => P s
  | s, e :: es => P s ∧ Always P (step s e) es

/-- Every step of the run meets the condition. -/
def Meets (C : S → E → Prop) : S → List E → Prop
  | _, [] => True
  | s, e :: es => C s e ∧ Meets C (step s e) es

instance Meets.decidable (C : S → E → Prop) [∀ s e, Decidable (C s e)] :
    (s : S) → (es : List E) → Decidable (Meets step C s es)
  | _, [] => isTrue trivial
  | s, e :: es =>
    have := Meets.decidable C (step s e) es
    inferInstanceAs (Decidable (C s e ∧ Meets step C (step s e) es))

variable {step} {P Q : S → Prop} {C : S → E → Prop}

variable {s : S} {es : List E}

theorem Always.head (h : Always step P s es) : P s := by
  cases es with
  | nil => exact h
  | cons e es => exact h.1

theorem Always.mono (hPQ : ∀ s, P s → Q s) (h : Always step P s es) :
    Always step Q s es := by
  induction es generalizing s with
  | nil => exact hPQ s h
  | cons e es ih => exact ⟨hPQ s h.1, ih h.2⟩

/-- A condition on the events alone. -/
theorem meets_of_forall (h : ∀ s, ∀ e ∈ es, C s e) : Meets step C s es := by
  induction es generalizing s with
  | nil => trivial
  | cons e es ih =>
    exact ⟨h s e List.mem_cons_self, ih fun s e' he' => h s e' (List.mem_cons_of_mem e he')⟩

section

variable (hstep : ∀ s e, P s → C s e → P (step s e))
include hstep

/-- An invariant that every step under the condition keeps holds along the run. -/
theorem always_of_meets (hs : P s) (h : Meets step C s es) : Always step P s es := by
  induction es generalizing s with
  | nil => exact hs
  | cons e es ih => exact ⟨hs, ih (hstep s e hs h.1) h.2⟩

/-- What every step from a state with the invariant does, under the condition, holds
of all steps of the run. -/
theorem meets_of_meets {D : S → E → Prop} (hdo : ∀ s e, P s → C s e → D s e) (hs : P s)
    (h : Meets step C s es) : Meets step D s es := by
  induction es generalizing s with
  | nil => trivial
  | cons e es ih => exact ⟨hdo s e hs h.1, ih (hstep s e hs h.1) h.2⟩

/-- Under the invariant two conditions say the same of a step; if a step that meets
them keeps the invariant, they say the same of a run. -/
theorem meets_iff_meets {D : S → E → Prop} (hiff : ∀ s e, P s → (D s e ↔ C s e)) (hs : P s)
    (es : List E) : Meets step D s es ↔ Meets step C s es := by
  induction es generalizing s with
  | nil => exact Iff.rfl
  | cons e es ih =>
    constructor
    · intro h
      have hc := (hiff s e hs).mp h.1
      exact ⟨hc, (ih (hstep s e hs hc)).mp h.2⟩
    · intro h
      exact ⟨(hiff s e hs).mpr h.1, (ih (hstep s e hs h.1)).mpr h.2⟩

end

/-- A property that follows from the invariant and that needs the condition holds along
the runs whose steps meet the condition. -/
theorem always_iff_meets_of_kept {I : S → Prop} (hkeep : ∀ s e, I s → C s e → I (step s e))
    (hprop : ∀ s, I s → P s) (hneed : ∀ s e, I s → P (step s e) → C s e) (hs : I s) (es : List E) :
    Always step P s es ↔ Meets step C s es := by
  induction es generalizing s with
  | nil => exact ⟨fun _ => trivial, fun _ => hprop s hs⟩
  | cons e es ih =>
    constructor
    · intro h
      have hc := hneed s e hs h.2.head
      exact ⟨hc, (ih (hkeep s e hs hc)).mp h.2⟩
    · intro h
      exact ⟨hprop s hs, (ih (hkeep s e hs h.1)).mpr h.2⟩

/-- If the condition is exactly what a step needs to keep a property, in states with the
invariant, it is exactly what a run needs. -/
theorem always_iff_meets_of_invariant {I : S → Prop} (hinv : ∀ s e, I s → I (step s e))
    (hstep : ∀ s e, I s → P s → (P (step s e) ↔ C s e)) (hi : I s) (hs : P s) (es : List E) :
    Always step P s es ↔ Meets step C s es :=
  always_iff_meets_of_kept (I := fun s => I s ∧ P s)
    (fun s e h hc => ⟨hinv s e h.1, (hstep s e h.1 h.2).mpr hc⟩) (fun _ h => h.2)
    (fun s e h => (hstep s e h.1 h.2).mp) ⟨hi, hs⟩ es

/-- If the condition is exactly what a step needs to keep the invariant, it is
exactly what a run needs. -/
theorem always_iff_meets (hstep : ∀ s e, P s → (P (step s e) ↔ C s e)) (hs : P s) (es : List E) :
    Always step P s es ↔ Meets step C s es :=
  always_iff_meets_of_invariant (I := fun _ => True) (fun _ _ _ => trivial)
    (fun s e _ => hstep s e) trivial hs es

end Nexus.Runs
