import Mathlib.Data.List.Basic

/-!
# Runs of a labelled transition system, with their history

`Run step s₀ h s`: the system goes from `s₀` to `s` through the transitions `h`,
the newest first. Each transition keeps its state before and after, so that a
property of a run can speak about what was done at some earlier point and about
every state since. `Run.invariant` and `Run.invariant_history` are the induction
rules; `Run.split` cuts a run at one of its transitions.
-/

namespace PinOp.Lib

/-- One step taken: the state before, what happened, the state after. -/
structure Transition (σ ε : Type*) where
  pre : σ
  event : ε
  post : σ

variable {σ ε : Type*}

inductive Run (step : σ → ε → σ → Prop) (s₀ : σ) : List (Transition σ ε) → σ → Prop where
  | start : Run step s₀ [] s₀
  | next {h : List (Transition σ ε)} {s s' : σ} {e : ε} :
      Run step s₀ h s → step s e s' → Run step s₀ (⟨s, e, s'⟩ :: h) s'

namespace Run

variable {step : σ → ε → σ → Prop} {s₀ s s' : σ} {h h₁ h₂ : List (Transition σ ε)}

/-- What holds at the start and is kept by every step holds at the end. -/
theorem invariant {P : σ → Prop} (h₀ : P s₀)
    (hstep : ∀ s e s', P s → step s e s' → P s') (hr : Run step s₀ h s) : P s := by
  induction hr with
  | start => exact h₀
  | next _ hs ih => exact hstep _ _ _ ih hs

/-- The same for a property of the history and the state it led to. -/
theorem invariant_history {P : List (Transition σ ε) → σ → Prop} (h₀ : P [] s₀)
    (hstep : ∀ h s e s', Run step s₀ h s → P h s → step s e s' → P (⟨s, e, s'⟩ :: h) s')
    (hr : Run step s₀ h s) : P h s := by
  induction hr with
  | start => exact h₀
  | next hr hs ih => exact hstep _ _ _ _ hr ih hs

theorem trans (hr₁ : Run step s₀ h₁ s) (hr₂ : Run step s h₂ s') :
    Run step s₀ (h₂ ++ h₁) s' := by
  induction hr₂ with
  | start => exact hr₁
  | next _ hs ih => exact .next ih hs

theorem of_append (hr : Run step s₀ (h₂ ++ h₁) s') :
    ∃ s, Run step s₀ h₁ s ∧ Run step s h₂ s' := by
  induction h₂ generalizing s' with
  | nil => exact ⟨s', hr, .start⟩
  | cons t h₂ ih =>
    cases hr with
    | next hr hs =>
      obtain ⟨s, hr₁, hr₂⟩ := ih hr
      exact ⟨s, hr₁, .next hr₂ hs⟩

/-- Cut a run at one of its transitions. -/
theorem split {t : Transition σ ε} (hr : Run step s₀ (h₂ ++ t :: h₁) s) :
    Run step s₀ h₁ t.pre ∧ step t.pre t.event t.post ∧ Run step t.post h₂ s := by
  obtain ⟨s', hr₁, hr₂⟩ := of_append hr
  cases hr₁ with
  | next hr₁ hs => exact ⟨hr₁, hs, hr₂⟩

/-- The history of a run tells where it ended. -/
theorem end_unique (hr : Run step s₀ h s) (hr' : Run step s₀ h s') : s = s' := by
  cases hr with
  | start => cases hr'; rfl
  | next _ _ => cases hr'; rfl

/-- The run of a list of events, where each of them has at most one outcome. -/
theorem of_foldlM {f : σ → ε → Option σ} {events : List ε} {s₀ s : σ}
    (hf : events.foldlM f s₀ = some s) :
    ∃ h, Run (fun s e s' => f s e = some s') s₀ h s ∧ h.reverse.map (·.event) = events := by
  induction events generalizing s₀ with
  | nil =>
    cases hf
    exact ⟨[], .start, rfl⟩
  | cons e events ih =>
    simp only [List.foldlM_cons, Option.bind_eq_bind, Option.bind_eq_some_iff] at hf
    obtain ⟨s₁, h₁, hf⟩ := hf
    obtain ⟨h, hr, he⟩ := ih hf
    exact ⟨h ++ [⟨s₀, e, s₁⟩], trans (.next .start h₁) hr, by simp [he]⟩

/-- The history of a list of events, and the state it leads to. -/
def history (f : σ → ε → Option σ) : σ → List ε → Option (List (Transition σ ε) × σ)
  | s, [] => some ([], s)
  | s, e :: events =>
    (f s e).bind fun s₁ => (history f s₁ events).map fun r => (r.1 ++ [⟨s, e, s₁⟩], r.2)

theorem of_history {f : σ → ε → Option σ} {events : List ε} {s₀ s : σ}
    {h : List (Transition σ ε)} (hf : history f s₀ events = some (h, s)) :
    Run (fun s e s' => f s e = some s') s₀ h s := by
  induction events generalizing s₀ h with
  | nil =>
    cases hf
    exact .start
  | cons e events ih =>
    simp only [history, Option.bind_eq_some_iff, Option.map_eq_some_iff] at hf
    obtain ⟨s₁, h₁, ⟨h', s'⟩, hh, heq⟩ := hf
    cases heq
    exact trans (.next .start h₁) (ih hh)

theorem step_of_mem {t : Transition σ ε} (hr : Run step s₀ h s) (ht : t ∈ h) :
    ∃ h', Run step s₀ h' t.pre ∧ step t.pre t.event t.post := by
  obtain ⟨h₂, h₁, rfl⟩ := List.append_of_mem ht
  exact ⟨h₁, hr.split.1, hr.split.2.1⟩

end Run

end PinOp.Lib
