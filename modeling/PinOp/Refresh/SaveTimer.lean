import PinOp.Refresh.SaveObserver

/-!
# The timer of the saves

`Orderly` holds in every state that is reached: there is a timer exactly while something waits for
it, and it is due by the deadline of the window where only styles are pending.
-/

namespace PinOp.Refresh

open PinOp.Lib
open PinOp.Protocol (PageRefreshMode)

namespace SaveObserver

variable {o o' : SaveObserver} {now delay deadline due : ℚ} {m : Moment} {h : History}
  {pathname : String → Option String} {uri : String} {mode : PageRefreshMode} {preprocessor : Bool}

/-! ## The timer -/

def Idle (o : SaveObserver) : Prop := o.timer = none ∧ o.timers = []

/-- The only live timer is the one of the observer. -/
def Armed (o : SaveObserver) (due : ℚ) : Prop :=
  ∃ id, o.timer = some id ∧ o.timers = [⟨id, due⟩]

/-- There is at most one timer, and it is not overdue. -/
def Timed (o : SaveObserver) : Prop := Idle o ∨ ∃ due, Armed o due ∧ o.clock ≤ due

theorem cancelTimer_eq (h : Timed o) : o.cancelTimer = { o with timers := [] } := by
  unfold cancelTimer
  rcases h with ⟨htimer, htimers⟩ | ⟨due, ⟨id, htimer, htimers⟩, -⟩
  · rw [htimer]
    dsimp only
    rw [← htimers, ← htimer]
  · rw [htimer, htimers]
    simp

theorem schedule_eq (h : Timed o) (delay : ℚ) : o.schedule delay = { o with
    timer := some o.timersCreated
    timers := [⟨o.timersCreated, o.clock + delay⟩]
    timersCreated := o.timersCreated + 1 } := by
  unfold schedule
  rw [cancelTimer_eq h]
  rfl

theorem schedule_armed (h : Timed o) (delay : ℚ) : Armed (o.schedule delay) (o.clock + delay) := by
  rw [schedule_eq h]
  exact ⟨_, rfl, rfl⟩

theorem Armed.ne_nil (h : Armed o due) : o.timers ≠ [] := by
  obtain ⟨id, -, htimers⟩ := h
  rw [htimers]
  exact List.cons_ne_nil _ _

theorem Armed.due_eq (h : Armed o due) {timer : Timer} (hmem : timer ∈ o.timers) :
    timer.due = due := by
  obtain ⟨id, -, htimers⟩ := h
  rw [htimers] at hmem
  rw [List.mem_singleton.1 hmem]

/-! ## A save that counts -/

/-- The deadline of the window after a save. -/
def deadlineAfter (o : SaveObserver) (preprocessor : Bool) : Option ℚ :=
  if preprocessor then some (o.preprocessorDeadline.getD (o.clock + preprocessorMaxMs))
  else o.preprocessorDeadline

/-- How long a burst of styles settles from now on. -/
def settleStyles (o : SaveObserver) (preprocessor : Bool) : ℚ :=
  let settleMs := if preprocessor then preprocessorQuietMs else directSettleMs
  match o.deadlineAfter preprocessor with
  | some deadline => min settleMs (max 0 (deadline - o.clock))
  | none => settleMs

theorem saveClassified_reload (hmode : strongerMode o.pendingMode mode = .reload) :
    o.saveClassified mode preprocessor = schedule { o with
      pendingMode := some .reload
      pendingStylesCause := none
      preprocessorDeadline := o.deadlineAfter preprocessor
      retainPreprocessorWindow := (o.deadlineAfter preprocessor).isSome } directSettleMs := by
  unfold saveClassified deadlineAfter
  rw [hmode]
  cases preprocessor with
  | false =>
    cases o.preprocessorDeadline with
    | none => simp
    | some deadline => simp
  | true => simp

theorem saveClassified_styles (hmode : strongerMode o.pendingMode mode = .styles) :
    o.saveClassified mode preprocessor = schedule { o with
      pendingMode := some .styles
      pendingStylesCause :=
        if preprocessor then some .save else some (o.pendingStylesCause.getD .save)
      preprocessorDeadline := o.deadlineAfter preprocessor } (o.settleStyles preprocessor) := by
  unfold saveClassified settleStyles deadlineAfter
  rw [hmode]
  cases preprocessor with
  | false =>
    cases o.preprocessorDeadline with
    | none => simp
    | some deadline => simp
  | true => simp

/-- The window of a save is still open. -/
theorem le_deadlineAfter (hopen : ∀ deadline, o.preprocessorDeadline = some deadline → o.clock ≤ deadline)
    (hdeadline : o.deadlineAfter preprocessor = some deadline) : o.clock ≤ deadline := by
  unfold deadlineAfter at hdeadline
  cases preprocessor with
  | false => exact hopen deadline hdeadline
  | true =>
    rw [if_pos rfl] at hdeadline
    obtain rfl := Option.some.inj hdeadline
    cases hold : o.preprocessorDeadline with
    | none =>
      show o.clock ≤ o.clock + preprocessorMaxMs
      unfold preprocessorMaxMs
      linarith
    | some old => exact hopen old hold

theorem settleStyles_le (hopen : ∀ deadline, o.preprocessorDeadline = some deadline → o.clock ≤ deadline)
    (hdeadline : o.deadlineAfter preprocessor = some deadline) :
    o.clock + o.settleStyles preprocessor ≤ deadline := by
  have hle := le_deadlineAfter hopen hdeadline
  unfold settleStyles
  rw [hdeadline]
  dsimp only
  rw [max_eq_right (by linarith)]
  have := min_le_right (if preprocessor then preprocessorQuietMs else directSettleMs) (deadline - o.clock)
  linarith

theorem settleStyles_nonneg : 0 ≤ o.settleStyles preprocessor := by
  have hbase : (0 : ℚ) ≤ if preprocessor then preprocessorQuietMs else directSettleMs := by
    unfold preprocessorQuietMs directSettleMs
    split <;> norm_num
  unfold settleStyles
  dsimp only
  split
  · exact le_min hbase (le_max_left _ _)
  · exact hbase

/-! ## The invariant -/

structure Orderly (o : SaveObserver) : Prop where
  timed : Timed o
  awake : o.timers ≠ [] ↔ o.pendingMode.isSome = true ∨ o.retainPreprocessorWindow = true
  window : o.retainPreprocessorWindow = true → o.preprocessorDeadline.isSome = true
  opened : o.preprocessorDeadline.isSome = true → o.timers ≠ []
  deadline : ∀ deadline, o.preprocessorDeadline = some deadline → o.pendingMode ≠ some .reload →
    ∀ timer ∈ o.timers, timer.due ≤ deadline
  disposed : o.disposed = true → o.timers = []

theorem orderly_initial (clock : ℚ) : Orderly (initial clock) where
  timed := .inl ⟨rfl, rfl⟩
  awake := by simp [initial]
  window := by
    intro h
    cases h
  opened := by
    intro h
    cases h
  deadline := by
    intro deadline h
    cases h
  disposed := fun _ => rfl

/-- What is neither the timer nor what it is there for may change. -/
theorem Orderly.congr (h : Orderly o) (htimer : o'.timer = o.timer) (htimers : o'.timers = o.timers)
    (hmode : o'.pendingMode = o.pendingMode) (hdeadline : o'.preprocessorDeadline = o.preprocessorDeadline)
    (hretain : o'.retainPreprocessorWindow = o.retainPreprocessorWindow)
    (hdisposed : o'.disposed = o.disposed)
    (hclock : ∀ timer ∈ o.timers, o'.clock ≤ timer.due) : Orderly o' where
  timed := by
    rcases h.timed with ⟨hnone, hnil⟩ | ⟨due, ⟨id, hsome, hone⟩, hle⟩
    · exact .inl ⟨htimer.trans hnone, htimers.trans hnil⟩
    · refine .inr ⟨due, ⟨id, htimer.trans hsome, htimers.trans hone⟩, ?_⟩
      exact hclock ⟨id, due⟩ (by rw [hone]; exact List.mem_singleton_self _)
  awake := by
    rw [htimers, hmode, hretain]
    exact h.awake
  window := by
    rw [hretain, hdeadline]
    exact h.window
  opened := by
    rw [htimers, hdeadline]
    exact h.opened
  deadline := by
    rw [htimers, hmode, hdeadline]
    exact h.deadline
  disposed := by
    rw [htimers, hdisposed]
    exact h.disposed

/-- Where styles are pending, or only a window is open, it is not over. -/
theorem Orderly.open_deadline (h : Orderly o) (hmode : o.pendingMode ≠ some .reload) :
    ∀ deadline, o.preprocessorDeadline = some deadline → o.clock ≤ deadline := by
  intro deadline hdeadline
  rcases h.timed with ⟨-, hnil⟩ | ⟨due, ⟨id, -, hone⟩, hle⟩
  · exact absurd hnil (h.opened (by rw [hdeadline]; rfl))
  · have hmem : (⟨id, due⟩ : Timer) ∈ o.timers := by
      rw [hone]
      exact List.mem_singleton_self _
    exact le_trans hle (h.deadline deadline hdeadline hmode _ hmem)

/-- What waits for the timer that is set now. -/
theorem Timed.schedule_orderly (h : Timed o) (hdelay : 0 ≤ delay) (hdisposed : o.disposed = false)
    (hawake : o.pendingMode.isSome = true ∨ o.retainPreprocessorWindow = true)
    (hwindow : o.retainPreprocessorWindow = true → o.preprocessorDeadline.isSome = true)
    (hdeadline : ∀ deadline, o.preprocessorDeadline = some deadline → o.pendingMode ≠ some .reload →
      o.clock + delay ≤ deadline) : Orderly (o.schedule delay) := by
  rw [schedule_eq h]
  refine ⟨.inr ⟨o.clock + delay, ⟨_, rfl, rfl⟩, by show o.clock ≤ _; linarith⟩, ?_, hwindow, ?_, ?_, ?_⟩
  · exact ⟨fun _ => hawake, fun _ => List.cons_ne_nil _ _⟩
  · exact fun _ => List.cons_ne_nil _ _
  · intro deadline hsome hmode timer hmem
    rw [List.mem_singleton.1 hmem]
    exact hdeadline deadline hsome hmode
  · intro hd
    rw [show o.disposed = true from hd] at hdisposed
    cases hdisposed

theorem strongerMode_styles {current : Option PageRefreshMode}
    (h : strongerMode current mode = .styles) : current ≠ some .reload ∧ mode = .styles := by
  unfold strongerMode at h
  split at h
  · cases h
  · rename_i hno
    rw [not_or] at hno
    cases mode with
    | styles => exact ⟨hno.1, rfl⟩
    | reload => exact absurd rfl hno.2

theorem saveClassified_orderly (h : Orderly o) (hdisposed : o.disposed = false)
    (mode : PageRefreshMode) (preprocessor : Bool) : Orderly (o.saveClassified mode preprocessor) := by
  cases hmode : strongerMode o.pendingMode mode with
  | reload =>
    rw [saveClassified_reload hmode]
    refine Timed.schedule_orderly h.timed (by unfold directSettleMs; norm_num) hdisposed (.inl rfl)
      (fun hretain => hretain) ?_
    exact fun _ _ hno => absurd rfl hno
  | styles =>
    have hopen := h.open_deadline (strongerMode_styles hmode).1
    rw [saveClassified_styles hmode]
    refine Timed.schedule_orderly h.timed settleStyles_nonneg hdisposed (.inl rfl) ?_ ?_
    · intro hretain
      have hsome := h.window hretain
      show (o.deadlineAfter preprocessor).isSome = true
      unfold deadlineAfter
      cases preprocessor with
      | false => exact hsome
      | true => rfl
    · exact fun deadline hdeadline _ => settleStyles_le hopen hdeadline

theorem save_orderly (h : Orderly o) (uri : String) (mode : Option PageRefreshMode) :
    Orderly (o.onDidSaveTextDocument pathname uri mode) := by
  have hclock : ∀ timer ∈ o.timers, o.clock ≤ timer.due := by
    intro timer hmem
    rcases h.timed with ⟨-, hnil⟩ | ⟨due, harmed, hle⟩
    · rw [hnil] at hmem
      cases hmem
    · rw [harmed.due_eq hmem]
      exact hle
  unfold onDidSaveTextDocument
  split
  · exact h
  · rename_i hdisposed
    split
    · exact h
    · have herased : Orderly { o with dirtyUris := o.dirtyUris.erase uri } :=
        h.congr rfl rfl rfl rfl rfl rfl hclock
      dsimp only
      split
      · exact herased
      · exact saveClassified_orderly herased (by simpa using hdisposed) _ _

theorem Orderly.not_overdue (h : Orderly o) : ∀ timer ∈ o.timers, o.clock ≤ timer.due := by
  intro timer hmem
  rcases h.timed with ⟨-, hnil⟩ | ⟨due, harmed, hle⟩
  · rw [hnil] at hmem
    cases hmem
  · rw [harmed.due_eq hmem]
    exact hle

theorem change_orderly (h : Orderly o) (uri : String) (contentChanges : ℕ) :
    Orderly (o.onDidChangeTextDocument uri contentChanges) := by
  unfold onDidChangeTextDocument
  split
  · exact h
  · split
    · exact h.congr rfl rfl rfl rfl rfl rfl h.not_overdue
    · exact h

theorem close_orderly (h : Orderly o) (uri : String) : Orderly (o.onDidCloseTextDocument uri) := by
  unfold onDidCloseTextDocument
  split
  · exact h
  · exact h.congr rfl rfl rfl rfl rfl rfl h.not_overdue

theorem generated_orderly (h : Orderly o) : Orderly o.onDidGeneratedCssFileEvent := by
  unfold onDidGeneratedCssFileEvent
  split
  · exact h
  · rename_i hdisposed
    split
    · exact h
    · rename_i deadline hdeadline
      split
      · exact h
      · split
        · exact h
        · dsimp only
          split
          · exact h
          · rename_i hpositive
            have hpositive : 0 < deadline - o.clock := not_le.1 hpositive
            have hdirect : (0 : ℚ) ≤ directSettleMs := by
              unfold directSettleMs
              norm_num
            refine Timed.schedule_orderly h.timed (le_min hdirect hpositive.le) (by simpa using hdisposed)
              (.inl rfl) (fun _ => by rw [hdeadline]; rfl) ?_
            intro other hother _
            have hsame : deadline = other := Option.some.inj (hdeadline.symm.trans hother)
            have hle := min_le_right directSettleMs (deadline - o.clock)
            show o.clock + min directSettleMs (deadline - o.clock) ≤ other
            linarith

/-- What is left of a disposed observer. -/
theorem dispose_eq (h : Orderly o) (hdisposed : o.disposed = false) : o.dispose = { o with
    disposed := true
    timer := none
    timers := []
    pendingMode := none
    pendingStylesCause := none
    preprocessorDeadline := none
    retainPreprocessorWindow := false
    dirtyUris := ∅ } := by
  unfold dispose
  rw [hdisposed, if_neg (by simp), cancelTimer_eq h.timed]

theorem dispose_orderly (h : Orderly o) : Orderly o.dispose := by
  cases hdisposed : o.disposed with
  | true =>
    unfold dispose
    rw [if_pos hdisposed]
    exact h
  | false =>
    rw [dispose_eq h hdisposed]
    refine ⟨.inl ⟨rfl, rfl⟩, by simp, nofun, nofun, nofun, fun _ => rfl⟩

/-- The timer that fires is the only one. -/
theorem fired_nil (h : Orderly o) {timer : Timer} (hmem : timer ∈ o.timers) :
    o.timers.filter (fun other => other.id ≠ timer.id) = [] := by
  rcases h.timed with ⟨-, hnil⟩ | ⟨due, ⟨id, -, hone⟩, -⟩
  · rw [hnil] at hmem
    cases hmem
  · rw [hone] at hmem ⊢
    rw [List.mem_singleton.1 hmem]
    simp

theorem staysOpen_iff {deadline : ℚ} : o.staysOpen deadline = true ↔
    o.retainPreprocessorWindow = true ∧ o.clock < deadline ∧ (o.pendingMode = some .reload ∨
      o.pendingMode = some .styles ∧ o.pendingStylesCause = some .save) := by
  simp [staysOpen, and_assoc]

/-- What is published is what was pending. -/
theorem onTimer_published (o : SaveObserver) :
    o.onTimer.published = o.pendingMode.toList ++ o.published := by
  have hcancel : ∀ o : SaveObserver, o.cancelTimer.published = o.published := by
    intro o
    unfold cancelTimer
    split
    · rfl
    · rfl
  unfold onTimer
  dsimp only
  congr 1
  split
  · split
    · exact hcancel _
    · rfl
  · rfl

theorem onTimer_orderly (hnil : o.timers = []) (hdisposed : o.disposed = false) : Orderly o.onTimer := by
  have hclosed : ∀ published, Orderly { o with
      timer := none
      pendingMode := none
      pendingStylesCause := none
      preprocessorDeadline := none
      retainPreprocessorWindow := false
      published := published } := by
    intro published
    refine ⟨.inl ⟨rfl, hnil⟩, ?_, nofun, nofun, nofun, fun _ => hnil⟩
    show o.timers ≠ [] ↔ _
    rw [hnil]
    simp
  unfold onTimer
  dsimp only
  split
  · rename_i deadline hdeadline
    split
    · rename_i hopen
      obtain ⟨hretain, hlt, -⟩ := staysOpen_iff.1 hopen
      have hscheduled : Orderly (schedule { o with
          timer := none
          pendingMode := none
          pendingStylesCause := none } (deadline - o.clock)) := by
        refine Timed.schedule_orderly (.inl ⟨rfl, hnil⟩) (by linarith) hdisposed (.inr hretain)
          (fun _ => by rw [hdeadline]; rfl) ?_
        intro other hother _
        have hsame : deadline = other := Option.some.inj (hdeadline.symm.trans hother)
        show o.clock + (deadline - o.clock) ≤ other
        linarith
      exact hscheduled.congr rfl rfl rfl rfl rfl rfl hscheduled.not_overdue
    · exact hclosed _
  · exact hclosed _

/-- The clock moves on to an event that is not later than the timer. -/
theorem Orderly.moved (h : Orderly o) (hdue : ∀ timer ∈ o.timers, now ≤ timer.due) :
    Orderly { o with clock := now } := h.congr rfl rfl rfl rfl rfl rfl hdue

/-- What a step does, at its own time. -/
theorem step_cases (hs : Step pathname o m o') : o.clock ≤ m.now ∧
    (∀ timer ∈ o.timers, m.now ≤ timer.due) ∧ react pathname { o with clock := m.now } m.event = some o' := by
  unfold Step step at hs
  split at hs
  · rename_i hok
    exact ⟨hok.1, hok.2, hs⟩
  · cases hs

theorem react_orderly {e : Event} (h : Orderly o) (hr : o.react pathname e = some o') : Orderly o' := by
  cases e with
  | change uri contentChanges =>
    cases hr
    exact change_orderly h uri contentChanges
  | save uri mode =>
    cases hr
    exact save_orderly h uri mode
  | close uri =>
    cases hr
    exact close_orderly h uri
  | generatedCss =>
    cases hr
    exact generated_orderly h
  | dispose =>
    cases hr
    exact dispose_orderly h
  | timerFired id =>
    unfold react at hr
    dsimp only at hr
    split at hr
    · rename_i hmem
      cases hr
      refine onTimer_orderly (fired_nil h hmem) ?_
      show o.disposed = false
      by_contra hdisposed
      rw [Bool.not_eq_false] at hdisposed
      rw [h.disposed hdisposed] at hmem
      cases hmem
    · cases hr

theorem run_orderly {clock : ℚ} (hr : Run (Step pathname) (initial clock) h o) : Orderly o := by
  refine hr.invariant (orderly_initial clock) fun o m o' ho hs => ?_
  obtain ⟨-, hdue, hreact⟩ := step_cases hs
  exact react_orderly (ho.moved hdue) hreact

end SaveObserver

end PinOp.Refresh
