import Mathlib.Logic.Basic

/-!
# Programs that may abort

A program on a state returns a value and the next state, or aborts.  `Ensures` is
partial correctness: a postcondition of the runs that return.  `Returns` is total
correctness.
-/

namespace Nexus.Programs

variable {σ α β : Type}

/-- If the program returns from the state, the postcondition holds. -/
def Ensures (m : StateT σ Option α) (s : σ) (Q : α → σ → Prop) : Prop :=
  ∀ a s', m.run s = some (a, s') → Q a s'

variable {m : StateT σ Option α} {s : σ} {Q R : α → σ → Prop}

theorem Ensures.mono (h : Ensures m s Q) (hQR : ∀ a s', Q a s' → R a s') : Ensures m s R :=
  fun a s' hm => hQR a s' (h a s' hm)

theorem Ensures.and (h : Ensures m s Q) (h' : Ensures m s R) :
    Ensures m s fun a s' => Q a s' ∧ R a s' :=
  fun a s' hm => ⟨h a s' hm, h' a s' hm⟩

theorem ensures_pure {a : α} (h : Q a s) : Ensures (pure a) s Q := by
  rintro _ _ ⟨⟩
  exact h

theorem ensures_bind {f : α → StateT σ Option β} {Q : β → σ → Prop}
    (h : Ensures m s fun a s' => Ensures (f a) s' Q) : Ensures (m >>= f) s Q := by
  intro b s'' hrun
  rw [StateT.run_bind] at hrun
  cases hm : m.run s with
  | none => rw [hm] at hrun; contradiction
  | some r =>
    rw [hm] at hrun
    exact h r.1 r.2 hm b s'' hrun

/-- The rule of composition. -/
theorem Ensures.bind {f : α → StateT σ Option β} {Q : β → σ → Prop} (h : Ensures m s R)
    (hf : ∀ a s', R a s' → Ensures (f a) s' Q) : Ensures (m >>= f) s Q :=
  ensures_bind (h.mono hf)

/-- The rule of a program that stops when its first step fails. -/
theorem Ensures.guard {m : StateT σ Option Bool} {f : Bool → StateT σ Option β} {P : σ → Prop}
    {b : β} (h : Ensures m s fun _ => P) (hfalse : f false = pure b)
    (htrue : ∀ s', P s' → Ensures (f true) s' fun _ => P) : Ensures (m >>= f) s fun _ => P := by
  refine h.bind fun ok s' hs' => ?_
  cases ok with
  | false => exact hfalse ▸ ensures_pure hs'
  | true => exact htrue s' hs'

theorem ensures_get {Q : σ → σ → Prop} (h : Q s s) : Ensures (get : StateT σ Option σ) s Q := by
  intro _ _ hrun
  cases hrun
  exact h

theorem ensures_failure : Ensures (failure : StateT σ Option α) s Q := by
  intro _ _ h
  contradiction

/-- The program returns from the state, and the postcondition holds. -/
def Returns (m : StateT σ Option α) (s : σ) (Q : α → σ → Prop) : Prop :=
  ∃ a s', m.run s = some (a, s') ∧ Q a s'

theorem returns_pure {a : α} (h : Q a s) : Returns (pure a) s Q := ⟨a, s, rfl, h⟩

theorem returns_get {Q : σ → σ → Prop} (h : Q s s) : Returns (get : StateT σ Option σ) s Q :=
  ⟨s, s, rfl, h⟩

theorem returns_bind {f : α → StateT σ Option β} {Q : β → σ → Prop}
    (h : Returns m s fun a s' => Returns (f a) s' Q) : Returns (m >>= f) s Q := by
  obtain ⟨a, s', hm, b, s'', hf, hQ⟩ := h
  refine ⟨b, s'', ?_, hQ⟩
  rw [StateT.run_bind, hm]
  exact hf

theorem Returns.mono (h : Returns m s Q) (hQR : ∀ a s', Q a s' → R a s') : Returns m s R := by
  obtain ⟨a, s', hm, hQ⟩ := h
  exact ⟨a, s', hm, hQR a s' hQ⟩

theorem Returns.bind {f : α → StateT σ Option β} {Q : β → σ → Prop} (h : Returns m s R)
    (hf : ∀ a s', R a s' → Returns (f a) s' Q) : Returns (m >>= f) s Q :=
  returns_bind (h.mono hf)

/-- What holds of every run that returns holds of this one. -/
theorem Returns.ensures (h : Returns m s Q) (h' : Ensures m s R) :
    Returns m s fun a s' => Q a s' ∧ R a s' := by
  obtain ⟨a, s', hm, hQ⟩ := h
  exact ⟨a, s', hm, hQ, h' a s' hm⟩

end Nexus.Programs
