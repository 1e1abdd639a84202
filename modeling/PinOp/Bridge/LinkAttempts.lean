import PinOp.Bridge.LinkAuthenticator
import PinOp.Lib.Runs

/-!
# Guessing the PIN

Along a run with a valid clock that never goes back, at most five wrong PINs are compared within
a minute without a link; a cooldown lasts a minute from the fifth, nothing that is attempted in
it has an effect, and the right PIN is accepted after it.
-/

namespace PinOp.Bridge

open PinOp.Lib PinOp.Protocol

namespace LinkAuthenticator

structure Event where
  call : Call
  answer : Answer

def Step (a : LinkAuthenticator) (e : Event) (a' : LinkAuthenticator) : Prop :=
  a.perform e.call = (e.answer, a')

abbrev Trace := List (Transition LinkAuthenticator Event)

/-- The time of the call. -/
def Event.time (e : Event) : Option ℤ := e.call.now.join

def Event.notBefore (newer older : Event) : Bool :=
  newer.time.all fun now => older.time.all fun before => before ≤ now

/-- The clock gives valid dates and never goes back. Traces have the newest call first. -/
structure Clocked (h : Trace) : Prop where
  valid : ∀ t ∈ h, t.event.call.now ≠ some none
  ordered : h.Pairwise fun newer older => newer.event.notBefore older.event = true

/-! ## What attempts are -/

/-- The call is an attempt at this time with this PIN. -/
def Event.attempts (e : Event) (now : ℤ) (pin : String) : Prop :=
  ∃ role random, e.call = .attemptLink (some now) pin role random

/-- An attempt of the window of a minute from `since` on, whose wrong PIN is compared with the
real one. -/
def comparesWrong (since : ℤ) (t : Transition LinkAuthenticator Event) : Bool :=
  match t.event.call with
  | .attemptLink (some now) pin _ _ =>
    since ≤ now && now < since + failureWindow && !t.pre.cooling now && pin ≠ t.pre.pin
  | _ => false

/-- One that does not throw. -/
def guesses (since : ℤ) (t : Transition LinkAuthenticator Event) : Bool :=
  comparesWrong since t && match t.event.answer with
    | .attempt (.ok _) => true
    | _ => false

/-- The call links. -/
def accepts (t : Transition LinkAuthenticator Event) : Prop :=
  ∃ sessionId bridgeInstanceId token,
    t.event.answer = .attempt (.ok (.accepted sessionId bridgeInstanceId token))

/-- The attempt throws. -/
def throws (t : Transition LinkAuthenticator Event) : Prop :=
  ∃ error, t.event.answer = .attempt (.error error)

/-- The attempt is answered with a cooldown. -/
def limits (t : Transition LinkAuthenticator Event) (retryAt : ℤ) : Prop :=
  t.event.answer = .attempt (.ok (.rateLimited retryAt))

variable {a a' : LinkAuthenticator} {h : Trace} {since now deadline : ℤ} {pin : String} {e : Event}
  {sessionId bridgeInstanceId : String} {linkPin : LinkPin}

/-- An attempt goes one of the ways of `Attempted`. -/
theorem attempted_of_step (hs : Step a e a') (he : e.attempts now pin) :
    ∃ result, e.answer = .attempt result ∧ Attempted a now pin result a' := by
  obtain ⟨role, random, hcall⟩ := he
  have hatt := attemptLink_attempted a now pin role random
  rw [Step, hcall, perform, Prod.ext_iff] at hs
  obtain ⟨hanswer, rfl⟩ := hs
  exact ⟨_, hanswer.symm, hatt⟩

/-- Every other call leaves the failures and the cooldown alone, but an attempt at an invalid
date, which changes nothing either. -/
theorem rest_of_step (hs : Step a e a') (he : ∀ now pin, ¬e.attempts now pin) :
    a'.pin = a.pin ∧ a'.failures = a.failures ∧ a'.cooldownUntil = a.cooldownUntil := by
  rw [Step, Prod.ext_iff] at hs
  obtain ⟨-, rfl⟩ := hs
  by_cases hcall : ∃ now pin role random, e.call = .attemptLink now pin role random
  · obtain ⟨now, pin, role, random, hcall⟩ := hcall
    cases now with
    | none =>
      rw [hcall]
      exact ⟨rfl, rfl, rfl⟩
    | some now => exact absurd ⟨role, random, hcall⟩ (he now pin)
  · simp only [not_exists] at hcall
    exact perform_rest a e.call hcall

theorem Event.time_of_attempts (he : e.attempts now pin) : e.time = some now := by
  obtain ⟨role, random, hcall⟩ := he
  simp [Event.time, hcall, Call.now]

/-! ## Failures -/

/-- Five failures are a cooldown. -/
def Bounded (a : LinkAuthenticator) : Prop :=
  a.cooldownUntil = none → a.failures.length + 1 ≤ maxFailures

theorem ready_length (hb : Bounded a) (now : ℤ) :
    (a.ready now).failures.length + 1 ≤ maxFailures := by
  unfold ready
  split
  · rename_i hc
    have hle : (a.pruneFailures now).failures.length ≤ a.failures.length := List.length_filter_le _ _
    have := hb hc
    omega
  · show 0 + 1 ≤ 5
    omega

theorem Bounded.attempted {result : Except LinkError LinkAttempt} (hb : Bounded a)
    (ha : Attempted a now pin result a') : Bounded a' := by
  intro hc
  cases ha with
  | refused deadline hd _ =>
    rw [show a.cooldownUntil = none from hc] at hd
    cases hd
  | rejected _ _ hf =>
    rw [List.length_append, List.length_singleton]
    omega
  | undated _ _ _ => exact ready_length hb now
  | limited _ _ _ => cases hc
  | right _ _ hfail _ _ _ =>
    rw [hfail]
    decide

theorem Bounded.of_run (run : Run Step (start sessionId bridgeInstanceId linkPin) h a) :
    Bounded a := by
  refine run.invariant (fun _ => Nat.le_of_ble_eq_true rfl) fun a e a' hb hs => ?_
  by_cases he : ∃ now pin, e.attempts now pin
  · obtain ⟨now, pin, he⟩ := he
    obtain ⟨result, -, ha⟩ := attempted_of_step hs he
    exact hb.attempted ha
  · simp only [not_exists] at he
    obtain ⟨-, hf, hc⟩ := rest_of_step hs he
    unfold Bounded
    rw [hf, hc]
    exact hb

/-- An attempt with a wrong PIN that throws changes nothing. -/
theorem unchanged_of_throw {error : LinkError} (hb : Bounded a) (hpin : pin ≠ a.pin)
    (ha : Attempted a now pin (.error error) a') :
    a'.failures = a.failures ∧ a'.cooldownUntil = a.cooldownUntil ∧ a'.tokens = a.tokens := by
  generalize hr : (Except.error error : Except LinkError LinkAttempt) = result at ha
  cases ha with
  | refused _ _ _ => cases hr
  | rejected _ _ _ => cases hr
  | limited _ _ _ => cases hr
  | right _ heq _ _ _ _ => exact absurd heq hpin
  | undated hcool _ hf =>
    refine ⟨?_, ?_, (ready_rest a now).2⟩
    · unfold ready at hf ⊢
      split at hf
      · rename_i hc
        -- four failures are all there can be, so that none was forgotten
        have hle := hb hc
        refine List.filter_eq_self.mpr (List.length_filter_eq_length_iff.mp ?_)
        have hlt : (a.pruneFailures now).failures.length ≤ a.failures.length :=
          List.length_filter_le _ _
        show (a.pruneFailures now).failures.length = a.failures.length
        omega
      · exact absurd hf (by show ¬5 ≤ 0 + 1; omega)
    · rw [ready_cooldownUntil]
      unfold ready at hf
      split at hf
      · rename_i hc
        exact hc.symm
      · exact absurd hf (by show ¬5 ≤ 0 + 1; omega)

/-! ## A window of a minute -/

/-- Until the window is over, the failures of the window are kept, unless they are forgotten with
the cooldown they led to. -/
structure WindowInvariant (since : ℤ) (h : Trace) (a : LinkAuthenticator) : Prop where
  bound : h.countP (guesses since) ≤ maxFailures
  failures : (∀ t ∈ h, ∀ now, t.event.time = some now → now < since + failureWindow) →
    a.cooldownUntil = none →
      h.countP (guesses since) ≤ a.failures.countP fun failedAt => since ≤ failedAt
  cooling : (∀ t ∈ h, ∀ now, t.event.time = some now → now < since + failureWindow) →
    ∀ deadline, a.cooldownUntil = some deadline → deadline < since + cooldown →
      h.countP (guesses since) = 0

theorem guesses_of_not {t : Transition LinkAuthenticator Event}
    (ht : ∀ now pin, t.event.attempts now pin → now < since ∨ since + failureWindow ≤ now) :
    guesses since t = false := by
  rw [guesses, Bool.and_eq_false_iff]
  left
  unfold comparesWrong
  split
  · rename_i now pin role random hcall
    have hout := ht now pin ⟨role, random, hcall⟩
    by_contra hne
    simp only [Bool.not_eq_false, Bool.and_eq_true, decide_eq_true_eq] at hne
    omega
  · rfl

theorem countP_eq_zero_of_before {h : Trace}
    (hbefore : ∀ t ∈ h, ∀ now, t.event.time = some now → now < since) :
    h.countP (guesses since) = 0 := by
  refine List.countP_eq_zero.mpr fun t ht => ?_
  rw [guesses_of_not fun now pin hatt => .inl (hbefore t ht now (Event.time_of_attempts hatt))]
  exact Bool.false_ne_true

/-- Pruning keeps what a window that is not over holds. -/
theorem countP_pruneFailures (a : LinkAuthenticator) (hlt : now < since + failureWindow) :
    (a.pruneFailures now).failures.countP (fun failedAt => since ≤ failedAt) =
      a.failures.countP fun failedAt => since ≤ failedAt := by
  rw [show (a.pruneFailures now).failures =
    a.failures.filter fun failedAt => now - failureWindow ≤ failedAt from rfl, List.countP_filter]
  refine List.countP_congr fun failedAt _ => ?_
  simp only [Bool.and_eq_true, decide_eq_true_eq]
  omega

theorem Clocked.tail {t : Transition LinkAuthenticator Event} (hc : Clocked (t :: h)) : Clocked h :=
  ⟨fun t ht => hc.valid t (List.mem_cons_of_mem _ ht), (List.pairwise_cons.mp hc.ordered).2⟩

theorem Clocked.before {t : Transition LinkAuthenticator Event} (hc : Clocked (t :: h))
    (htime : t.event.time = some now) : ∀ s ∈ h, ∀ before, s.event.time = some before →
      before ≤ now := by
  intro s hs before hb
  have := (List.pairwise_cons.mp hc.ordered).1 s hs
  simpa [Event.notBefore, htime, hb] using this

/-- Nothing in the window resets the failures: no link, and no right PIN that throws. -/
def Undisturbed (since : ℤ) (h : Trace) : Prop :=
  ∀ t ∈ h, ∀ now, t.event.time = some now → since ≤ now → now < since + failureWindow →
    ¬accepts t ∧ ¬(throws t ∧ t.event.attempts now t.pre.pin)

theorem Undisturbed.tail {t : Transition LinkAuthenticator Event} (hu : Undisturbed since (t :: h)) :
    Undisturbed since h := fun t ht => hu t (List.mem_cons_of_mem _ ht)

namespace WindowInvariant

/-- The failures that an attempt of the window finds. -/
theorem ready (inv : WindowInvariant since h a) (hc : a.cooling now = false)
    (hbefore : ∀ t ∈ h, ∀ before, t.event.time = some before → before ≤ now)
    (hlt : now < since + failureWindow) :
    h.countP (guesses since) ≤
      (a.ready now).failures.countP fun failedAt => since ≤ failedAt := by
  have hall : ∀ t ∈ h, ∀ before, t.event.time = some before → before < since + failureWindow :=
    fun t ht before hb => by
      have := hbefore t ht before hb
      omega
  unfold LinkAuthenticator.ready
  split
  · rename_i hd
    rw [countP_pruneFailures a hlt]
    exact inv.failures hall hd
  · rename_i deadline hd
    have hle : deadline ≤ now := by simpa [LinkAuthenticator.cooling, hd] using hc
    have hz := inv.cooling hall deadline hd (by unfold failureWindow at hlt; unfold cooldown; omega)
    omega

theorem attempted {result : Except LinkError LinkAttempt} (inv : WindowInvariant since h a)
    (hb : Bounded a) (hb' : Bounded a') (hatt : e.attempts now pin)
    (hanswer : e.answer = .attempt result) (ha : Attempted a now pin result a')
    (hbefore : ∀ t ∈ h, ∀ before, t.event.time = some before → before ≤ now)
    (hu : Undisturbed since (⟨a, e, a'⟩ :: h)) : WindowInvariant since (⟨a, e, a'⟩ :: h) a' := by
  have htime : e.time = some now := Event.time_of_attempts hatt
  have hearly (hlt : now < since) : h.countP (guesses since) = 0 :=
    countP_eq_zero_of_before fun t ht before hbe => by
      have := hbefore t ht before hbe
      omega
  have hall (hlt : now < since + failureWindow) :
      ∀ t ∈ h, ∀ before, t.event.time = some before → before < since + failureWindow :=
    fun t ht before hbe => by
      have := hbefore t ht before hbe
      omega
  -- what the attempt adds to the count
  have hcount : guesses since ⟨a, e, a'⟩ = true →
      since ≤ now ∧ now < since + failureWindow ∧ a.cooling now = false ∧ pin ≠ a.pin ∧
        ∃ attempt, result = .ok attempt := by
    intro hcw
    obtain ⟨role, random, hcall⟩ := hatt
    simp only [guesses, comparesWrong, hcall, hanswer, Bool.and_eq_true, decide_eq_true_eq,
      Bool.not_eq_true'] at hcw
    obtain ⟨⟨⟨⟨hge, hlt⟩, hc⟩, hne⟩, hok⟩ := hcw
    refine ⟨hge, hlt, hc, hne, ?_⟩
    cases result with
    | error error => cases hok
    | ok attempt => exact ⟨attempt, rfl⟩
  have hskip (hn : ¬guesses since ⟨a, e, a'⟩ = true) :
      List.countP (guesses since) (⟨a, e, a'⟩ :: h) = h.countP (guesses since) :=
    List.countP_cons_of_neg hn
  have hstep : List.countP (guesses since) (⟨a, e, a'⟩ :: h) =
      h.countP (guesses since) ∨ since ≤ now ∧ now < since + failureWindow ∧
        a.cooling now = false ∧ List.countP (guesses since) (⟨a, e, a'⟩ :: h) =
          h.countP (guesses since) + 1 := by
    by_cases hcw : guesses since ⟨a, e, a'⟩ = true
    · exact .inr ⟨(hcount hcw).1, (hcount hcw).2.1, (hcount hcw).2.2.1,
        List.countP_cons_of_pos hcw⟩
    · exact .inl (hskip hcw)
  have hbound : List.countP (guesses since) (⟨a, e, a'⟩ :: h) ≤ maxFailures := by
    rcases hstep with heq | ⟨-, hlt, hc, heq⟩
    · exact heq ▸ inv.bound
    · have hready := inv.ready hc hbefore hlt
      have hle := (a.ready now).failures.countP_le_length (p := fun failedAt => since ≤ failedAt)
      have hlen := ready_length hb now
      omega
  have hlast (hl : ∀ t ∈ (⟨a, e, a'⟩ :: h : Trace), ∀ now, t.event.time = some now →
      now < since + failureWindow) : now < since + failureWindow := hl _ List.mem_cons_self now htime
  cases ha with
  | refused deadline hd hlt =>
    have heq := hskip fun hcw => by
      have := (hcount hcw).2.2.1
      simp [LinkAuthenticator.cooling, hd, hlt] at this
    refine ⟨hbound, fun hl hn => ?_, fun hl d hd' hlt' => ?_⟩
    · rw [show a.cooldownUntil = none from hn] at hd
      cases hd
    · rw [heq]
      exact inv.cooling (hall (hlast hl)) d hd' hlt'
  | rejected hc _ hf =>
    refine ⟨hbound, fun hl _ => ?_, fun hl d hd _ => ?_⟩
    · have hready := inv.ready hc hbefore (hlast hl)
      rw [List.countP_append, List.countP_singleton]
      rcases hstep with heq | ⟨hge, -, -, heq⟩
      · omega
      · rw [if_pos (decide_eq_true hge)]
        omega
    · rw [show _ = none from ready_cooldownUntil a now] at hd
      cases hd
  | undated hc _ hf =>
    have heq := hskip fun hcw => by
      obtain ⟨-, -, -, -, attempt, ha⟩ := hcount hcw
      cases ha
    refine ⟨hbound, fun hl _ => ?_, fun hl d hd _ => ?_⟩
    · rw [heq]
      exact inv.ready hc hbefore (hlast hl)
    · rw [ready_cooldownUntil] at hd
      cases hd
  | limited hc _ hf =>
    refine ⟨hbound, (fun hl hn => by cases hn), fun hl d hd hlt => ?_⟩
    have hd : now + cooldown = d := Option.some.inj hd
    have hnow : now < since := by omega
    rcases hstep with heq | ⟨hge, -⟩
    · rw [heq, hearly hnow]
    · omega
  | right hc hpin hfail hcool hresult _ =>
    have heq := hskip fun hcw => (hcount hcw).2.2.2.1 hpin
    refine ⟨hbound, fun hl _ => ?_, fun hl d hd _ => by rw [hcool] at hd; cases hd⟩
    -- the failures are forgotten, so that the attempt is not one of the window
    have hnow : now < since := by
      by_contra hge
      have hun := hu _ List.mem_cons_self now htime (not_lt.mp hge) (hlast hl)
      cases result with
      | error error => exact hun.2 ⟨⟨error, hanswer⟩, hpin ▸ hatt⟩
      | ok attempt =>
        obtain ⟨sessionId, bridgeInstanceId, token, rfl⟩ := hresult attempt rfl
        exact hun.1 ⟨sessionId, bridgeInstanceId, token, hanswer⟩
    rw [heq, hearly hnow]
    exact Nat.zero_le _

theorem of_run (run : Run Step (start sessionId bridgeInstanceId linkPin) h a) (hc : Clocked h)
    (hu : Undisturbed since h) : WindowInvariant since h a := by
  induction run with
  | start => exact ⟨Nat.zero_le _, fun _ _ => Nat.zero_le _, fun _ _ _ _ => rfl⟩
  | @next h s s' e hr hs ih =>
    have inv := ih hc.tail hu.tail
    have hb := Bounded.of_run hr
    have hb' := Bounded.of_run (.next hr hs)
    by_cases he : ∃ now pin, e.attempts now pin
    · obtain ⟨now, pin, he⟩ := he
      obtain ⟨result, hanswer, ha⟩ := attempted_of_step hs he
      exact inv.attempted hb hb' he hanswer ha (hc.before (Event.time_of_attempts he)) hu
    · simp only [not_exists] at he
      obtain ⟨-, hf, hcool⟩ := rest_of_step hs he
      have hn : ¬guesses since ⟨s, e, s'⟩ = true := by
        rw [guesses_of_not fun now pin hatt => absurd hatt (he now pin)]
        exact Bool.false_ne_true
      have heq : List.countP (guesses since) (⟨s, e, s'⟩ :: h) =
          h.countP (guesses since) := List.countP_cons_of_neg hn
      refine ⟨heq ▸ inv.bound, fun hl hnone => ?_, fun hl d hd hlt => ?_⟩
      · rw [heq, hf]
        exact inv.failures (fun t ht => hl t (List.mem_cons_of_mem _ ht)) (hcool ▸ hnone)
      · rw [heq]
        exact inv.cooling (fun t ht => hl t (List.mem_cons_of_mem _ ht)) d (hcool ▸ hd) hlt

end WindowInvariant

/-! ## Cooldowns -/

theorem attempts_of_answer {attempt : LinkAttempt} (hs : Step a e a')
    (he : e.answer = .attempt (.ok attempt)) : ∃ now pin, e.attempts now pin := by
  rw [Step, he] at hs
  cases hcall : e.call with
  | attemptLink date pin role random =>
    rw [hcall] at hs
    cases date with
    | none => cases hs
    | some now => exact ⟨now, pin, role, random, hcall⟩
  | issueTrustedToken _ _ => rw [hcall] at hs; cases hs
  | validateToken _ _ _ _ _ => rw [hcall] at hs; cases hs
  | revokeToken _ => rw [hcall] at hs; cases hs
  | revokeRole _ => rw [hcall] at hs; cases hs
  | revokeAll => rw [hcall] at hs; cases hs

/-- An attempt in a cooldown is refused. -/
theorem Attempted.of_cooling {result : Except LinkError LinkAttempt}
    (ha : Attempted a now pin result a') (hd : a.cooldownUntil = some deadline)
    (hlt : now < deadline) :
    result = .ok (.rateLimited deadline) ∧ a'.cooldownUntil = some deadline ∧
      a'.tokens = a.tokens := by
  have hcool : a.cooling now = true := by simp [cooling, hd, hlt]
  cases ha with
  | refused deadline' hd' _ =>
    rw [hd] at hd'
    cases hd'
    exact ⟨rfl, hd, rfl⟩
  | rejected hc _ _ => rw [hcool] at hc; cases hc
  | undated hc _ _ => rw [hcool] at hc; cases hc
  | limited hc _ _ => rw [hcool] at hc; cases hc
  | right hc _ _ _ _ _ => rw [hcool] at hc; cases hc

/-- What an attempt leaves of the cooldown is what it answers with, or what was there. -/
theorem Attempted.cooldownUntil {result : Except LinkError LinkAttempt}
    (ha : Attempted a now pin result a') :
    a'.cooldownUntil = none ∨ ∃ retryAt, a'.cooldownUntil = some retryAt ∧
      result = .ok (.rateLimited retryAt) := by
  cases ha with
  | refused deadline hd _ => exact .inr ⟨deadline, hd, rfl⟩
  | rejected _ _ _ => exact .inl (ready_cooldownUntil a now)
  | undated _ _ _ => exact .inl (ready_cooldownUntil a now)
  | limited _ _ _ => exact .inr ⟨now + cooldown, rfl, rfl⟩
  | right _ _ _ hcool _ _ => exact .inl hcool

/-- An answer with a cooldown is one that the state keeps. -/
theorem Attempted.of_limited {result : Except LinkError LinkAttempt} {retryAt : ℤ}
    (ha : Attempted a now pin result a') (hr : result = .ok (.rateLimited retryAt)) :
    a'.cooldownUntil = some retryAt ∧ (a.cooling now = false → retryAt = now + cooldown) := by
  cases ha with
  | refused deadline hd hlt =>
    cases hr
    refine ⟨hd, fun hc => ?_⟩
    simp [cooling, hd, hlt] at hc
  | rejected _ _ _ => cases hr
  | undated _ _ _ => cases hr
  | limited _ _ _ =>
    cases hr
    exact ⟨rfl, fun _ => rfl⟩
  | right _ _ _ _ hresult _ =>
    obtain ⟨s, b, token, he⟩ := hresult _ hr
    cases he

/-- The right PIN is accepted when a token can be dated. -/
theorem Attempted.of_right {result : Except LinkError LinkAttempt}
    (ha : Attempted a now pin result a') (hpin : pin = a.pin) (hcool : a.cooling now = false)
    (hdated : (newDate (now + tokenTtl)).isSome = true) :
    ∃ s b token, result = .ok (.accepted s b token) := by
  cases ha with
  | refused deadline hd hlt => simp [cooling, hd, hlt] at hcool
  | rejected _ hne _ => exact absurd hpin hne
  | undated _ hne _ => exact absurd hpin hne
  | limited _ hne _ => exact absurd hpin hne
  | right _ _ _ _ hresult hok =>
    obtain ⟨attempt, rfl⟩ := hok hdated
    obtain ⟨s, b, token, rfl⟩ := hresult attempt rfl
    exact ⟨s, b, token, rfl⟩

/-- A cooldown lasts as long as the clock has not reached its end. -/
theorem cooldownUntil_of_before (run : Run Step a h a') (hd : a.cooldownUntil = some deadline)
    (hbefore : ∀ t ∈ h, ∀ now, t.event.time = some now → now < deadline) :
    a'.cooldownUntil = some deadline := by
  induction run with
  | start => exact hd
  | @next h s s' e hr hs ih =>
    have hs' := ih fun t ht => hbefore t (List.mem_cons_of_mem _ ht)
    by_cases he : ∃ now pin, e.attempts now pin
    · obtain ⟨now, pin, he⟩ := he
      obtain ⟨result, -, ha⟩ := attempted_of_step hs he
      have hlt := hbefore _ List.mem_cons_self now (Event.time_of_attempts he)
      exact (ha.of_cooling hs' hlt).2.1
    · simp only [not_exists] at he
      rw [(rest_of_step hs he).2.2, hs']

/-- No other cooldown begins unless it is answered with. -/
theorem cooldownUntil_of_no_other (run : Run Step a h a')
    (hd : a.cooldownUntil = none ∨ a.cooldownUntil = some deadline)
    (hno : ∀ t ∈ h, ∀ retryAt, limits t retryAt → retryAt = deadline) :
    a'.cooldownUntil = none ∨ a'.cooldownUntil = some deadline := by
  induction run with
  | start => exact hd
  | @next h s s' e hr hs ih =>
    have hs' := ih fun t ht => hno t (List.mem_cons_of_mem _ ht)
    by_cases he : ∃ now pin, e.attempts now pin
    · obtain ⟨now, pin, he⟩ := he
      obtain ⟨result, hanswer, ha⟩ := attempted_of_step hs he
      rcases ha.cooldownUntil with hn | ⟨retryAt, hsome, rfl⟩
      · exact .inl hn
      · have := hno _ List.mem_cons_self retryAt hanswer
        exact .inr (this ▸ hsome)
    · simp only [not_exists] at he
      rw [(rest_of_step hs he).2.2]
      exact hs'

/-! ## Runs -/

structure GuessingBounded (pin : String) (h : Trace) : Prop where
  /-- At most five wrong PINs within a minute. -/
  window : ∀ since, Undisturbed since h → h.countP (guesses since) ≤ 5
  /-- The fifth starts a cooldown of a minute, and an attempt in it has no effect. -/
  cooldown : ∀ h₂ u h₁, h = h₂ ++ u :: h₁ → ∀ retryAt, limits u retryAt →
    (∀ now pin, u.event.attempts now pin → u.pre.cooling now = false → retryAt = now + 60000) ∧
    ∀ t ∈ h₂, ∀ now pin, t.event.attempts now pin → now < retryAt →
      limits t retryAt ∧ t.post.tokens = t.pre.tokens ∧ t.post.cooldownUntil = some retryAt
  /-- The right PIN links when the cooldown is over and no other has begun. -/
  retry : ∀ h₃ t h₂ u h₁, h = h₃ ++ t :: (h₂ ++ u :: h₁) → ∀ retryAt now, limits u retryAt →
    t.event.attempts now pin → retryAt ≤ now → (∀ s ∈ h₂, ∀ r, limits s r → r = retryAt) →
    (newDate (now + tokenTtl)).isSome = true → accepts t
  /-- A wrong PIN that throws changes nothing. -/
  throwing : ∀ t ∈ h, ∀ now wrong, t.event.attempts now wrong → wrong ≠ pin → throws t →
    t.post.failures = t.pre.failures ∧ t.post.cooldownUntil = t.pre.cooldownUntil ∧
      t.post.tokens = t.pre.tokens

theorem pin_of_step (hs : Step a e a') : a'.pin = a.pin := by
  by_cases he : ∃ now pin role random, e.call = .attemptLink (some now) pin role random
  · obtain ⟨now, pin, role, random, hcall⟩ := he
    rw [Step, hcall, Prod.ext_iff] at hs
    obtain ⟨-, rfl⟩ := hs
    have hready := (ready_rest a now).1
    simp only [perform, attemptLink, readNow, Prod.map_snd, id, comparePin]
    repeat' split
    all_goals first
      | exact hready
      | rfl
      | rename_i heq
        have hrest := (issueToken_rest { a.ready now with failures := [] } role.toClientRole now
          random).1
        rw [heq] at hrest
        exact hrest.trans hready
  · refine (rest_of_step hs ?_).1
    rintro now pin ⟨role, random, hcall⟩
    exact he ⟨now, pin, role, random, hcall⟩

theorem pin_of_run (run : Run Step (start sessionId bridgeInstanceId linkPin) h a) :
    a.pin = linkPin.value :=
  run.invariant (P := fun a => a.pin = linkPin.value) rfl fun _ _ _ hp hs =>
    (pin_of_step hs).trans hp

theorem pinGuessingBounded (run : Run Step (start sessionId bridgeInstanceId linkPin) h a)
    (hclock : Clocked h) : GuessingBounded linkPin.value h := by
  refine ⟨fun since hu => (WindowInvariant.of_run run hclock hu).bound, ?_, ?_, ?_⟩
  · rintro h₂ u h₁ rfl retryAt hlim
    obtain ⟨-, hs, hrun⟩ := run.split
    obtain ⟨now, pin, hatt⟩ := attempts_of_answer hs hlim
    obtain ⟨result, hanswer, ha⟩ := attempted_of_step hs hatt
    have hr : result = .ok (.rateLimited retryAt) := by
      rw [hlim] at hanswer
      exact (Answer.attempt.inj hanswer).symm
    obtain ⟨hcool, hminute⟩ := ha.of_limited hr
    refine ⟨fun now' pin' hatt' hc => ?_, fun t ht now' pin' hatt' hlt => ?_⟩
    · have htime := Event.time_of_attempts hatt
      rw [Event.time_of_attempts hatt'] at htime
      cases htime
      exact hminute hc
    · obtain ⟨h₄, h₃, rfl⟩ := List.append_of_mem ht
      obtain ⟨hrun₃, hs', -⟩ := hrun.split
      have hclock' : Clocked (t :: (h₃ ++ u :: h₁)) := by
        rw [List.append_assoc, List.cons_append] at hclock
        exact ⟨fun t ht => hclock.valid t (List.mem_append_right _ ht),
          (List.pairwise_append.mp hclock.ordered).2.1⟩
      have hbefore := hclock'.before (Event.time_of_attempts hatt')
      have hcool' := cooldownUntil_of_before hrun₃ hcool fun s hs before hb =>
        lt_of_le_of_lt (hbefore s (List.mem_append_left _ hs) before hb) hlt
      obtain ⟨result', hanswer', ha'⟩ := attempted_of_step hs' hatt'
      obtain ⟨rfl, hrest⟩ := ha'.of_cooling hcool' hlt
      exact ⟨hanswer', hrest.2, hrest.1⟩
  · rintro h₃ t h₂ u h₁ rfl retryAt now hlim hatt hle hno hdated
    obtain ⟨hr, hs, -⟩ := run.split
    obtain ⟨-, hsu, hr₂⟩ := hr.split
    obtain ⟨now', pin', hatt'⟩ := attempts_of_answer hsu hlim
    obtain ⟨result', hanswer', ha'⟩ := attempted_of_step hsu hatt'
    have hr' : result' = .ok (.rateLimited retryAt) := by
      rw [hlim] at hanswer'
      exact (Answer.attempt.inj hanswer').symm
    have hcool : t.pre.cooling now = false := by
      rcases cooldownUntil_of_no_other hr₂ (.inr (ha'.of_limited hr').1) hno with hn | hd
      · simp [cooling, hn]
      · simp [cooling, hd, hle]
    obtain ⟨result, hanswer, ha⟩ := attempted_of_step hs hatt
    obtain ⟨s, b, token, rfl⟩ := ha.of_right (pin_of_run hr).symm hcool hdated
    exact ⟨s, b, token, hanswer⟩
  · rintro t ht now wrong hatt hne ⟨error, hthrow⟩
    obtain ⟨h', hr, hs⟩ := run.step_of_mem ht
    obtain ⟨result, hanswer, ha⟩ := attempted_of_step hs hatt
    rw [hthrow] at hanswer
    cases hanswer
    exact unchanged_of_throw (Bounded.of_run hr) (pin_of_run hr ▸ hne) ha

/-! ## Samples -/

/-- The calls one after the other, the first one first. -/
def traceOf (a : LinkAuthenticator) : List Call → Trace × LinkAuthenticator
  | [] => ([], a)
  | call :: calls =>
    let (answer, a') := a.perform call
    let (h, a'') := traceOf a' calls
    (h ++ [⟨a, ⟨call, answer⟩, a'⟩], a'')

theorem run_traceOf (a : LinkAuthenticator) (calls : List Call) :
    Run Step a (traceOf a calls).1 (traceOf a calls).2 := by
  induction calls generalizing a with
  | nil => exact .start
  | cons call calls ih => exact Run.trans (.next .start rfl) (ih _)

def samplePin : LinkPin := ⟨"07", by decide⟩

def sampleStart : LinkAuthenticator := start "default" "instance-1" samplePin

/-- Attempts with PINs at times. -/
def sampleAttempts (attempts : List (ℤ × String)) : Trace :=
  (traceOf sampleStart (attempts.map fun (now, pin) => .attemptLink (some now) pin .browser "token")).1

instance (h : Trace) : Decidable (Clocked h) :=
  decidable_of_iff ((∀ t ∈ h, t.event.call.now ≠ some none) ∧
    h.Pairwise fun newer older => newer.event.notBefore older.event = true)
    ⟨fun ⟨hv, ho⟩ => ⟨hv, ho⟩, fun h => ⟨h.valid, h.ordered⟩⟩

/-- Five wrong PINs, the right one too early, and the right one in time. -/
def sampleTrace : Trace :=
  sampleAttempts [(0, "99"), (10, "98"), (20, "97"), (30, "96"), (40, "95"), (60039, "07"),
    (60040, "07")]

theorem pinGuessingBounded_sample : Clocked sampleTrace ∧ sampleTrace.countP (guesses 0) = 5 ∧
    GuessingBounded "07" sampleTrace := by
  have hclock : Clocked sampleTrace := by decide
  have run : Run Step (start "default" "instance-1" samplePin) sampleTrace _ :=
    run_traceOf sampleStart _
  exact ⟨hclock, by decide, pinGuessingBounded run hclock⟩

/-- Six wrong PINs at the last date there is, where no cooldown can be dated. -/
def lastDateTrace : Trace :=
  sampleAttempts [(maxTime, "99"), (maxTime, "98"), (maxTime, "97"), (maxTime, "96"),
    (maxTime, "95"), (maxTime, "94")]

/-- A cooldown is over at 60000; another begins before the first right PIN comes. -/
def secondCooldownTrace : Trace :=
  sampleAttempts [(0, "99"), (0, "98"), (0, "97"), (0, "96"), (0, "95"), (60000, "94"),
    (60000, "93"), (60000, "92"), (60000, "91"), (60000, "90"), (60001, "07")]

def Event.pin? (e : Event) : Option String :=
  match e.call with
  | .attemptLink _ pin _ _ => some pin
  | _ => none

/-- All six are compared within a minute without a link, and the first right PIN after the first
cooldown is refused. -/
theorem guessing_unbounded :
    (∃ a, Run Step sampleStart lastDateTrace a ∧ Clocked lastDateTrace ∧
      lastDateTrace.countP (comparesWrong maxTime) = 6) ∧
    ∃ a t h, Run Step sampleStart (t :: h) a ∧ Clocked (t :: h) ∧ (∃ u ∈ h, limits u 60000) ∧
      (∀ s ∈ h, s.event.pin? ≠ some "07") ∧ t.event.attempts 60001 "07" ∧ limits t 120000 := by
  refine ⟨⟨_, run_traceOf sampleStart _, by decide, by decide⟩, ?_⟩
  have run : Run Step sampleStart secondCooldownTrace _ := run_traceOf sampleStart _
  have hclock : Clocked secondCooldownTrace := by decide
  have hlimits : ∃ u ∈ secondCooldownTrace.tail, limits u 60000 := by
    unfold limits
    decide
  have hwrong : ∀ s ∈ secondCooldownTrace.tail, s.event.pin? ≠ some "07" := by decide
  have hhead : secondCooldownTrace.head?.any (fun t =>
      t.event.call = .attemptLink (some 60001) "07" .browser "token" &&
        t.event.answer = .attempt (.ok (.rateLimited 120000))) = true := by decide
  generalize secondCooldownTrace = trace at *
  cases trace with
  | nil => cases hhead
  | cons t h =>
    simp only [List.head?_cons, Option.any_some, Bool.and_eq_true, decide_eq_true_eq] at hhead
    exact ⟨_, t, h, run, hclock, hlimits, hwrong, ⟨.browser, "token", hhead.1⟩, hhead.2⟩

end LinkAuthenticator

end PinOp.Bridge
