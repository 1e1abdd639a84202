import Mathlib.Logic.Basic

/-!
# Programs that change a state and may throw

What a program has done to the state when it throws stays done. `Sat P m Q` is partial
correctness for both ends of a program, the one that returns and the one that throws; its rules
follow the constructors of programs.
-/

namespace PinOp.Lib

/-- A bind that succeeds, taken apart. -/
theorem bind_eq_ok {ε α β : Type} {x : Except ε α} {f : α → Except ε β} {b : β} :
    (x >>= f) = .ok b ↔ ∃ a, x = .ok a ∧ f a = .ok b := by
  cases x with
  | error e => exact ⟨nofun, fun ⟨_, h, _⟩ => by cases h⟩
  | ok a => exact ⟨fun h => ⟨a, rfl, h⟩, fun ⟨_, h, hf⟩ => by cases h; exact hf⟩

def Program (σ ε α : Type) : Type := σ → Except ε α × σ

namespace Program

variable {σ ε α β : Type}

protected def pure (a : α) : Program σ ε α := fun s => (.ok a, s)

protected def bind (m : Program σ ε α) (f : α → Program σ ε β) : Program σ ε β := fun s =>
  match m s with
  | (.ok a, s') => f a s'
  | (.error e, s') => (.error e, s')

instance : Monad (Program σ ε) where
  pure := Program.pure
  bind := Program.bind

def get : Program σ ε σ := fun s => (.ok s, s)

def modify (f : σ → σ) : Program σ ε Unit := fun s => (.ok (), f s)

def throw (e : ε) : Program σ ε α := fun s => (.error e, s)

/-- Run a program that may throw; whether it did not. -/
def succeeds (m : Program σ ε Unit) : Program σ ε Bool := fun s =>
  match m s with
  | (.ok (), s') => (.ok true, s')
  | (.error _, s') => (.ok false, s')

variable {m : Program σ ε α} {f : α → Program σ ε β} {s s' : σ} {a : α} {e : ε}

@[simp] theorem run_pure (a : α) (s : σ) : (pure a : Program σ ε α) s = (.ok a, s) := rfl

@[simp] theorem run_get (s : σ) : (get : Program σ ε σ) s = (.ok s, s) := rfl

@[simp] theorem run_modify (g : σ → σ) (s : σ) : (modify g : Program σ ε Unit) s = (.ok (), g s) :=
  rfl

@[simp] theorem run_throw (e : ε) (s : σ) : (throw e : Program σ ε α) s = (.error e, s) := rfl

theorem run_bind_ok (h : m s = (.ok a, s')) : (m >>= f) s = f a s' := by
  show Program.bind m f s = f a s'
  unfold Program.bind
  rw [h]

theorem run_bind_error (h : m s = (.error e, s')) : (m >>= f) s = (.error e, s') := by
  show Program.bind m f s = (.error e, s')
  unfold Program.bind
  rw [h]

@[simp] theorem run_get_bind (f : σ → Program σ ε β) (s : σ) : ((get : Program σ ε σ) >>= f) s = f s s :=
  rfl

@[simp] theorem run_modify_bind (g : σ → σ) (f : Unit → Program σ ε β) (s : σ) :
    ((modify g : Program σ ε Unit) >>= f) s = f () (g s) := rfl

@[simp] theorem run_pure_bind (a : α) (f : α → Program σ ε β) (s : σ) :
    ((pure a : Program σ ε α) >>= f) s = f a s := rfl

/-! ## Partial correctness -/

/-- Started where `P` holds, the program returns or throws where `Q` holds. -/
def Sat (P : σ → Prop) (m : Program σ ε α) (Q : Except ε α → σ → Prop) : Prop :=
  ∀ s, P s → Q (m s).1 (m s).2

namespace Sat

variable {P P' : σ → Prop} {Q Q' : Except ε α → σ → Prop} {R : Except ε β → σ → Prop}
  {m' : Program σ ε β}

theorem pure (h : ∀ s, P s → Q (.ok a) s) : Sat P (pure a) Q := h

theorem throw (h : ∀ s, P s → Q (.error e) s) : Sat P (throw e) Q := h

theorem bind (hm : Sat P m Q) (hf : ∀ a, Sat (Q (.ok a)) (f a) R)
    (he : ∀ e s, Q (.error e) s → R (.error e) s) : Sat P (m >>= f) R := by
  intro s hs
  have hq := hm s hs
  cases hr : m s with
  | mk r s' =>
    rw [hr] at hq
    cases r with
    | ok a =>
      rw [run_bind_ok hr]
      exact hf a s' hq
    | error e =>
      rw [run_bind_error hr]
      exact he e s' hq

/-- The program goes on with the state it reads. -/
theorem get {f : σ → Program σ ε β} (h : ∀ s₀, P s₀ → Sat (fun s => s = s₀) (f s₀) R) :
    Sat P (Program.get >>= f) R := fun s hs => h s hs s rfl

theorem modify {g : σ → σ} {Q : Except ε Unit → σ → Prop} (h : ∀ s, P s → Q (.ok ()) (g s)) :
    Sat P (Program.modify g) Q := h

theorem modify_bind {g : σ → σ} {f : Unit → Program σ ε β} (hg : ∀ s, P s → P' (g s))
    (hf : Sat P' (f ()) R) : Sat P (Program.modify g >>= f) R := fun s hs => hf (g s) (hg s hs)

theorem of_eq {s₀ : σ} (h : R (m' s₀).1 (m' s₀).2) : Sat (fun s => s = s₀) m' R := by
  rintro s rfl
  exact h

/-- What holds of the state before, whatever it is, may be assumed. -/
theorem assume {φ : Prop} (hφ : ∀ s, P s → φ) (hm : φ → Sat P m Q) : Sat P m Q := fun s hs =>
  hm (hφ s hs) s hs

theorem mono (hm : Sat P m Q) (hP : ∀ s, P' s → P s) (hQ : ∀ r s, Q r s → Q' r s) :
    Sat P' m Q' := fun s hs => hQ _ _ (hm s (hP s hs))

end Sat

end Program

end PinOp.Lib
