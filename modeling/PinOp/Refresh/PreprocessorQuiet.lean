import PinOp.Refresh.SavedChanges

/-!
# The output of a preprocessor is waited for

A save of a preprocessor source is announced when it was quiet for 750 ms, when CSS was generated
since, or at the deadline of its window. One step breaks this: a plain stylesheet that is saved
meanwhile settles in 150 ms, and takes the save of the source along.
-/

namespace PinOp.Refresh

open PinOp.Lib
open PinOp.Protocol (PageRefreshMode)

namespace SaveObserver

variable {o o' : SaveObserver} {now saved deadline : ℚ} {h before : History}
  {t : Transition SaveObserver Moment} {pathname : String → Option String} {uri : String}
  {mode : PageRefreshMode}

/-! ## What the history tells of preprocessors -/

/-- A save of a preprocessor source that counts. -/
def preprocessorSave (pathname : String → Option String) (before : History) : Event → Bool
  | .save uri mode =>
    isPreprocessorUri pathname uri && (classified before (.save uri mode)).isSome
  | _ => false

/-- The times of the preprocessor saves, the newest first. -/
def preprocessorSaves (pathname : String → Option String) : History → List ℚ
  | [] => []
  | t :: before =>
    if preprocessorSave pathname before t.event.event then
      t.event.now :: preprocessorSaves pathname before
    else preprocessorSaves pathname before

/-- Those since the last publish. -/
def waitingSaves (pathname : String → Option String) : History → List ℚ
  | [] => []
  | t :: before =>
    if publishes t then []
    else if preprocessorSave pathname before t.event.event then
      t.event.now :: waitingSaves pathname before
    else waitingSaves pathname before

/-- The latest of them, unless CSS was generated since. -/
def awaited (pathname : String → Option String) : History → Option ℚ
  | [] => none
  | t :: before =>
    if publishes t then none
    else if t.event.event = .generatedCss then none
    else if preprocessorSave pathname before t.event.event then some t.event.now
    else awaited pathname before

/-- A save of a plain stylesheet that counts. -/
def PlainSave (pathname : String → Option String) (before : History) (e : Event) : Prop :=
  ∃ uri, e = .save uri (some .styles) ∧ changedSince uri before = true ∧
    isPreprocessorUri pathname uri = false

/-- A plain stylesheet is saved while a preprocessor is waited for, and settles before both the
quiet period and the window are over. -/
def Hasty (pathname : String → Option String) (before : History)
    (t : Transition SaveObserver Moment) : Prop :=
  PlainSave pathname before t.event.event ∧ t.pre.pendingMode = some .styles ∧
    ∃ saved, awaited pathname before = some saved ∧
      t.event.now + directSettleMs < saved + preprocessorQuietMs ∧
      ∀ deadline, t.pre.preprocessorDeadline = some deadline →
        t.event.now + directSettleMs < deadline

structure Waits (pathname : String → Option String) (h : History) : Prop where
  /-- Styles that cover a preprocessor save are published in time. The deadline is that of the
  first save of the burst; the one of a retained window is that of an earlier one. -/
  publish : ∀ after t before, h = after ++ t :: before →
    t.post.published = .styles :: t.pre.published →
      ∀ saved, awaited pathname before = some saved →
        saved + preprocessorQuietMs ≤ t.event.now ∨
          ∃ opened ∈ preprocessorSaves pathname before,
            t.pre.preprocessorDeadline = some (opened + preprocessorMaxMs) ∧
            opened + preprocessorMaxMs ≤ t.event.now ∧
            (t.pre.retainPreprocessorWindow = false →
              (waitingSaves pathname before).getLast? = some opened)
  /-- A plain stylesheet neither closes the window nor brings a publish forward. -/
  plain : ∀ after t before, h = after ++ t :: before → PlainSave pathname before t.event.event →
    t.pre.pendingMode ≠ some .reload →
      t.post.preprocessorDeadline = t.pre.preprocessorDeadline ∧
      t.post.retainPreprocessorWindow = t.pre.retainPreprocessorWindow ∧
      (t.pre.pendingMode = some .styles →
        ∀ old ∈ t.pre.timers, ∀ new ∈ t.post.timers, old.due ≤ new.due)

/-! ## The window -/

theorem saveClassified_window (o : SaveObserver) (mode : PageRefreshMode) (preprocessor : Bool) :
    (o.saveClassified mode preprocessor).preprocessorDeadline = o.deadlineAfter preprocessor ∧
      (o.saveClassified mode preprocessor).retainPreprocessorWindow =
        match strongerMode o.pendingMode mode with
        | .reload => (o.deadlineAfter preprocessor).isSome
        | .styles => o.retainPreprocessorWindow := by
  cases hmode : strongerMode o.pendingMode mode with
  | reload =>
    rw [saveClassified_reload hmode]
    obtain ⟨timer, timers, created, heq⟩ := schedule_rest { o with
      pendingMode := some .reload
      pendingStylesCause := none
      preprocessorDeadline := o.deadlineAfter preprocessor
      retainPreprocessorWindow := (o.deadlineAfter preprocessor).isSome } directSettleMs
    rw [heq]
    exact ⟨rfl, rfl⟩
  | styles =>
    rw [saveClassified_styles hmode]
    obtain ⟨timer, timers, created, heq⟩ := schedule_rest { o with
      pendingMode := some .styles
      pendingStylesCause :=
        if preprocessor then some .save else some (o.pendingStylesCause.getD .save)
      preprocessorDeadline := o.deadlineAfter preprocessor } (o.settleStyles preprocessor)
    rw [heq]
    exact ⟨rfl, rfl⟩

theorem generated_window (o : SaveObserver) :
    o.onDidGeneratedCssFileEvent.preprocessorDeadline = o.preprocessorDeadline ∧
      o.onDidGeneratedCssFileEvent.retainPreprocessorWindow = o.retainPreprocessorWindow := by
  rcases generated_cases o with heq | ⟨-, -, delay, heq⟩
  · rw [heq]
    exact ⟨rfl, rfl⟩
  · obtain ⟨timer, timers, created, hrest⟩ := schedule_rest { o with
      pendingMode := some .styles, pendingStylesCause := some .generated } delay
    rw [heq, hrest]
    exact ⟨rfl, rfl⟩

/-- The timer leaves the window of a reload open, or closes it. -/
theorem onTimer_window (o : SaveObserver) :
    o.onTimer.preprocessorDeadline = o.preprocessorDeadline ∧
      o.onTimer.retainPreprocessorWindow = true ∨
    o.onTimer.preprocessorDeadline = none ∧ o.onTimer.retainPreprocessorWindow = false := by
  unfold onTimer
  dsimp only
  split
  · rename_i deadline hdeadline
    split
    · rename_i hopen
      obtain ⟨timer, timers, created, hrest⟩ := schedule_rest { o with
        timer := none, pendingMode := none, pendingStylesCause := none } (deadline - o.clock)
      rw [hrest]
      exact .inl ⟨rfl, (staysOpen_iff.1 hopen).1⟩
    · exact .inr ⟨rfl, rfl⟩
  · exact .inr ⟨rfl, rfl⟩

/-! ## What a step does -/

/-- What happened in a step. -/
inductive Happened (pathname : String → Option String) (before : History)
    (t : Transition SaveObserver Moment) : Prop where
  | rested (dirtyUris : Finset String)
      (hpost : t.post = { t.pre with clock := t.event.now, dirtyUris := dirtyUris })
      (hevent : t.event.event ≠ .generatedCss) (hnone : classified before t.event.event = none)
  | saved (uri : String) (mode : PageRefreshMode) (dirtyUris : Finset String)
      (hevent : t.event.event = .save uri (some mode)) (hlive : t.pre.disposed = false)
      (hchanged : changedSince uri before = true)
      (hpost : t.post = saveClassified { t.pre with
        clock := t.event.now, dirtyUris := dirtyUris } mode (isPreprocessorUri pathname uri))
  | generated (hevent : t.event.event = .generatedCss) (hlive : t.pre.disposed = false)
      (hpost : t.post = onDidGeneratedCssFileEvent { t.pre with clock := t.event.now })
  | fired (id : ℕ) (hevent : t.event.event = .timerFired id) (hlive : t.pre.disposed = false)
      (hmem : ⟨id, t.event.now⟩ ∈ t.pre.timers)
      (hpost : t.post = onTimer { t.pre with clock := t.event.now, timers := [] })
  | disposed (hevent : t.event.event = .dispose) (hdisposed : t.post.disposed = true)
      (hmode : t.post.pendingMode = none) (hdeadline : t.post.preprocessorDeadline = none)
      (hpublished : t.post.published = t.pre.published)
  | ignored (hdisposed : t.pre.disposed = true) (hpost : t.post = { t.pre with clock := t.event.now })

theorem Orderly.closed (ho : Orderly o) (hdisposed : o.disposed = true) :
    o.preprocessorDeadline = none := by
  by_contra hsome
  exact ho.opened (Option.isSome_iff_ne_none.2 hsome) (ho.disposed hdisposed)

theorem happened (ho : Orderly t.pre) (hrecorded : Recorded before t.pre)
    (hs : Step pathname t.pre t.event t.post) : Happened pathname before t := by
  obtain ⟨-, hdue, hr⟩ := step_cases hs
  have ho := ho.moved hdue
  cases hlive : t.pre.disposed with
  | true => exact .ignored hlive (react_disposed ho hlive hr)
  | false =>
    cases hevent : t.event.event with
    | change uri contentChanges =>
      rw [hevent] at hr
      have hpost := (Option.some.inj hr).symm
      unfold onDidChangeTextDocument at hpost
      rw [if_neg (by simp [hlive])] at hpost
      have hnone : classified before t.event.event = none := by rw [hevent]; rfl
      split at hpost
      · exact .rested _ hpost (by rw [hevent]; nofun) hnone
      · exact .rested _ hpost (by rw [hevent]; nofun) hnone
    | save uri mode =>
      rw [hevent] at hr
      have hpost := (Option.some.inj hr).symm
      rcases @save_cases pathname { t.pre with clock := t.event.now } uri mode with
        ⟨hdisposed, -⟩ | ⟨-, hclean, heq⟩ | ⟨-, hdirty, found, rfl, heq⟩
      · rw [show t.pre.disposed = true from hdisposed] at hlive
        cases hlive
      · refine .rested _ (hpost.trans heq) (by rw [hevent]; nofun) ?_
        rw [hevent]
        show (if changedSince uri before then mode else none) = none
        split
        · rename_i hchanged
          exact hclean (hrecorded.changed hlive uri hchanged)
        · rfl
      · exact .saved uri found _ hevent hlive (hrecorded.dirty uri hdirty) (hpost.trans heq)
    | close uri =>
      rw [hevent] at hr
      have hpost := (Option.some.inj hr).symm
      unfold onDidCloseTextDocument at hpost
      rw [if_neg (by simp [hlive])] at hpost
      exact .rested _ hpost (by rw [hevent]; nofun) (by rw [hevent]; rfl)
    | generatedCss =>
      rw [hevent] at hr
      exact .generated hevent hlive (Option.some.inj hr).symm
    | dispose =>
      rw [hevent] at hr
      have hpost := (Option.some.inj hr).symm
      rw [dispose_eq ho hlive] at hpost
      refine .disposed hevent ?_ ?_ ?_ ?_
      all_goals rw [hpost]
    | timerFired id =>
      rw [hevent] at hr
      unfold SaveObserver.react at hr
      dsimp only at hr
      split at hr
      · rename_i hmem
        rw [fired_nil ho hmem] at hr
        exact .fired id hevent hlive hmem (Option.some.inj hr).symm
      · cases hr

/-! ## The history after a step -/

theorem publishes_false (hpublished : t.post.published = t.pre.published) : publishes t = false := by
  simp [publishes, hpublished]

theorem preprocessorSave_rested (hnone : classified before t.event.event = none) :
    preprocessorSave pathname before t.event.event = false := by
  cases hevent : t.event.event with
  | save uri mode =>
    rw [hevent] at hnone
    simp [preprocessorSave, hnone]
  | _ => rfl

theorem preprocessorSave_saved (hevent : t.event.event = .save uri (some mode))
    (hchanged : changedSince uri before = true) :
    preprocessorSave pathname before t.event.event = isPreprocessorUri pathname uri := by
  rw [hevent]
  simp [preprocessorSave, classified, hchanged]

/-- A preprocessor save that waits counts among those since the last publish. -/
theorem waitingSaves_nil (hnil : savedSince h = []) :
    waitingSaves pathname h = [] ∧ awaited pathname h = none := by
  induction h with
  | nil => exact ⟨rfl, rfl⟩
  | cons t before ih =>
    unfold savedSince at hnil
    unfold waitingSaves awaited
    split at hnil
    · rename_i hpublishes
      rw [if_pos hpublishes, if_pos hpublishes]
      exact ⟨rfl, rfl⟩
    · rename_i hquiet
      obtain ⟨hnew, hold⟩ := List.append_eq_nil_iff.1 hnil
      have hnone : classified before t.event.event = none := by simpa using hnew
      obtain ⟨hwaiting, hawaited⟩ := ih hold
      rw [if_neg hquiet, if_neg hquiet, preprocessorSave_rested hnone, hwaiting, hawaited]
      simp

theorem Recorded.none_waiting (hrecorded : Recorded h o) (hlive : o.disposed = false)
    (hmode : o.pendingMode = none) : waitingSaves pathname h = [] ∧ awaited pathname h = none := by
  refine waitingSaves_nil (List.eq_nil_iff_forall_not_mem.2 fun saved hmem => ?_)
  obtain ⟨mode, hpending, -⟩ := hrecorded.pending hlive saved hmem
  rw [hmode] at hpending
  cases hpending

/-- The timer fires: nothing waits from then on. -/
theorem fired_waiting {timers : List Timer} (hrecorded : Recorded before t.pre)
    (hlive : t.pre.disposed = false) {id : ℕ} (hevent : t.event.event = .timerFired id)
    (hpost : t.post = onTimer { t.pre with clock := now, timers := timers }) :
    waitingSaves pathname (t :: before) = [] ∧ awaited pathname (t :: before) = none := by
  unfold waitingSaves awaited
  cases hpublishes : publishes t with
  | true => exact ⟨rfl, rfl⟩
  | false =>
    have hmode : t.pre.pendingMode = none := by
      have hsame : t.post.published = t.pre.published := by simpa [publishes] using hpublishes
      rw [hpost, onTimer_published] at hsame
      have hlength := congrArg List.length hsame
      simpa using hlength
    obtain ⟨hwaiting, hawaited⟩ := @Recorded.none_waiting _ _ pathname hrecorded hlive hmode
    rw [hevent, hwaiting, hawaited]
    exact ⟨rfl, rfl⟩

/-! ## The deadline -/

/-- The window of a burst ends two seconds after its first preprocessor save. -/
structure Windowed (pathname : String → Option String) (h : History) (o : SaveObserver) : Prop where
  opened : ∀ deadline, o.preprocessorDeadline = some deadline →
    ∃ opened ∈ preprocessorSaves pathname h, deadline = opened + preprocessorMaxMs
  first : o.disposed = false → o.retainPreprocessorWindow = false → o.preprocessorDeadline =
    (waitingSaves pathname h).getLast?.map (· + preprocessorMaxMs)

theorem mem_preprocessorSaves (hmem : saved ∈ preprocessorSaves pathname before) :
    saved ∈ preprocessorSaves pathname (t :: before) := by
  unfold preprocessorSaves
  split
  · exact List.mem_cons_of_mem _ hmem
  · exact hmem

theorem Windowed.closed (hdisposed : o.disposed = true) (hdeadline : o.preprocessorDeadline = none) :
    Windowed pathname h o where
  opened := by
    intro deadline hsome
    rw [hdeadline] at hsome
    cases hsome
  first := by
    intro hlive
    rw [hdisposed] at hlive
    cases hlive

theorem Windowed.rested (hw : Windowed pathname before t.pre)
    (hdeadline : t.post.preprocessorDeadline = t.pre.preprocessorDeadline)
    (hretain : t.post.retainPreprocessorWindow = t.pre.retainPreprocessorWindow)
    (hdisposed : t.post.disposed = t.pre.disposed)
    (hsame : waitingSaves pathname (t :: before) = waitingSaves pathname before) :
    Windowed pathname (t :: before) t.post where
  opened := by
    intro deadline hsome
    obtain ⟨opened, hmem, heq⟩ := hw.opened deadline (hdeadline.symm.trans hsome)
    exact ⟨opened, mem_preprocessorSaves hmem, heq⟩
  first := by
    rw [hdeadline, hretain, hdisposed, hsame]
    exact hw.first

/-- The part of a plain save: a reload keeps the window of the preprocessor for later. -/
theorem Windowed.plain {current : Option PageRefreshMode} (hw : Windowed pathname before t.pre)
    (ho : Orderly t.pre) (hdisposed : t.post.disposed = t.pre.disposed)
    (hdeadline : t.post.preprocessorDeadline = t.pre.preprocessorDeadline)
    (hretain : t.post.retainPreprocessorWindow =
      match strongerMode current mode with
      | .reload => t.pre.preprocessorDeadline.isSome
      | .styles => t.pre.retainPreprocessorWindow)
    (hsame : waitingSaves pathname (t :: before) = waitingSaves pathname before) :
    Windowed pathname (t :: before) t.post := by
  cases hmode : strongerMode current mode with
  | styles =>
    rw [hmode] at hretain
    exact hw.rested hdeadline hretain hdisposed hsame
  | reload =>
    rw [hmode] at hretain
    refine ⟨fun deadline hsome => ?_, fun hlive hclosed => ?_⟩
    · obtain ⟨opened, hmem, heq⟩ := hw.opened deadline (hdeadline.symm.trans hsome)
      exact ⟨opened, mem_preprocessorSaves hmem, heq⟩
    · rw [hdeadline, hsame]
      refine hw.first (hdisposed.symm.trans hlive) ?_
      have hnone : t.pre.preprocessorDeadline.isSome = false := hretain.symm.trans hclosed
      by_contra hopen
      rw [ho.window (by simpa using hopen)] at hnone
      cases hnone

theorem Windowed.preprocessor {current : Option PageRefreshMode}
    (hw : Windowed pathname before t.pre)
    (hdeadline : t.post.preprocessorDeadline =
      some (t.pre.preprocessorDeadline.getD (t.event.now + preprocessorMaxMs)))
    (hretain : t.post.retainPreprocessorWindow =
      match strongerMode current mode with
      | .reload => true
      | .styles => t.pre.retainPreprocessorWindow)
    (hdisposed : t.post.disposed = t.pre.disposed) (hpublishes : publishes t = false)
    (hsave : preprocessorSave pathname before t.event.event = true) :
    Windowed pathname (t :: before) t.post where
  opened := by
    intro deadline hsome
    rw [hdeadline] at hsome
    cases hold : t.pre.preprocessorDeadline with
    | none =>
      rw [hold] at hsome
      refine ⟨t.event.now, ?_, (Option.some.inj hsome).symm⟩
      rw [preprocessorSaves, if_pos hsave]
      exact List.mem_cons_self
    | some old =>
      rw [hold] at hsome
      obtain ⟨opened, hmem, heq⟩ := hw.opened old hold
      exact ⟨opened, mem_preprocessorSaves hmem, (Option.some.inj hsome).symm.trans heq⟩
  first := by
    intro hlive hclosed
    cases hmode : strongerMode current mode with
    | reload =>
      rw [hmode] at hretain
      rw [hretain] at hclosed
      cases hclosed
    | styles =>
      rw [hmode] at hretain
      have hfirst := hw.first (hdisposed.symm.trans hlive) (hretain.symm.trans hclosed)
      rw [hdeadline, hfirst, waitingSaves, hpublishes, if_neg (by simp), if_pos hsave,
        List.getLast?_cons]
      cases (waitingSaves pathname before).getLast? with
      | none => rfl
      | some first => rfl

theorem Windowed.step (hw : Windowed pathname before t.pre) (ho : Orderly t.pre)
    (hrecorded : Recorded before t.pre) (hs : Happened pathname before t) :
    Windowed pathname (t :: before) t.post := by
  cases hs with
  | rested dirtyUris hpost hevent hnone =>
    have hpublishes : publishes t = false := publishes_false (by rw [hpost])
    refine hw.rested (by rw [hpost]) (by rw [hpost]) (by rw [hpost]) ?_
    rw [waitingSaves, hpublishes, preprocessorSave_rested hnone]
    simp
  | saved uri mode dirtyUris hevent _ hchanged hpost =>
    obtain ⟨-, hpublished, -, hdisposed⟩ := saveClassified_rest { t.pre with
      clock := t.event.now, dirtyUris := dirtyUris } mode (isPreprocessorUri pathname uri)
    have hpublishes : publishes t = false := publishes_false (by rw [hpost]; exact hpublished)
    obtain ⟨hdeadline, hretain⟩ := saveClassified_window { t.pre with
      clock := t.event.now, dirtyUris := dirtyUris } mode (isPreprocessorUri pathname uri)
    rw [← hpost] at hdisposed hdeadline hretain
    have hsave := @preprocessorSave_saved _ _ pathname _ _ hevent hchanged
    cases hkind : isPreprocessorUri pathname uri with
    | false =>
      rw [hkind] at hsave hdeadline hretain
      exact hw.plain ho hdisposed hdeadline hretain (by rw [waitingSaves, hpublishes, hsave]; simp)
    | true =>
      rw [hkind] at hsave hdeadline hretain
      exact hw.preprocessor hdeadline hretain hdisposed hpublishes hsave
  | generated hevent _ hpost =>
    obtain ⟨hpublished, -, hdisposed, -⟩ := generated_rest { t.pre with clock := t.event.now }
    obtain ⟨hdeadline, hretain⟩ := generated_window { t.pre with clock := t.event.now }
    have hpublishes : publishes t = false := publishes_false (by rw [hpost]; exact hpublished)
    refine hw.rested (by rw [hpost, hdeadline]) (by rw [hpost, hretain]) (by rw [hpost, hdisposed]) ?_
    rw [waitingSaves, hpublishes, hevent]
    rfl
  | fired id hevent hlive _ hpost =>
    obtain ⟨hwaiting, -⟩ := @fired_waiting _ _ _ pathname _ hrecorded hlive _ hevent hpost
    rcases onTimer_window { t.pre with clock := t.event.now, timers := [] } with
      ⟨hdeadline, hretain⟩ | ⟨hdeadline, hretain⟩
    · refine ⟨fun deadline hsome => ?_, fun _ hclosed => ?_⟩
      · rw [hpost, hdeadline] at hsome
        obtain ⟨opened, hmem, heq⟩ := hw.opened deadline hsome
        exact ⟨opened, mem_preprocessorSaves hmem, heq⟩
      · rw [hpost, hretain] at hclosed
        cases hclosed
    · refine ⟨fun deadline hsome => ?_, fun _ _ => ?_⟩
      · rw [hpost, hdeadline] at hsome
        cases hsome
      · rw [hwaiting, hpost, hdeadline]
        rfl
  | disposed hevent hdisposed hmode hdeadline hpublished =>
    exact .closed hdisposed hdeadline
  | ignored hdisposed hpost =>
    exact .closed (by rw [hpost]; exact hdisposed) (by rw [hpost]; exact ho.closed hdisposed)

/-! ## How long a burst settles -/

/-- Styles settle for their own time, but not beyond the window. -/
theorem settleStyles_due {preprocessor : Bool}
    (hopen : ∀ deadline, o.preprocessorDeadline = some deadline → o.clock ≤ deadline)
    (hdeadline : o.deadlineAfter preprocessor = some deadline) :
    o.clock + o.settleStyles preprocessor =
      min (o.clock + if preprocessor then preprocessorQuietMs else directSettleMs) deadline := by
  have hle := le_deadlineAfter hopen hdeadline
  unfold settleStyles
  rw [hdeadline]
  dsimp only
  rw [max_eq_right (by linarith), ← min_add_add_left, add_sub_cancel]

theorem settleStyles_le_direct : o.settleStyles false ≤ directSettleMs := by
  unfold settleStyles
  dsimp only
  split
  · exact min_le_left _ _
  · exact le_refl _

/-- What is left of a save that leaves styles pending. -/
theorem saved_styles (ho : Orderly o) (hmode : strongerMode o.pendingMode mode = .styles)
    (preprocessor : Bool) : (o.saveClassified mode preprocessor).clock = o.clock ∧
      (o.saveClassified mode preprocessor).timers ≠ [] ∧
      ∀ timer ∈ (o.saveClassified mode preprocessor).timers,
        timer.due = o.clock + o.settleStyles preprocessor := by
  rw [saveClassified_styles hmode, schedule_eq]
  · refine ⟨rfl, List.cons_ne_nil _ _, fun timer hmem => ?_⟩
    rw [List.mem_singleton.1 hmem]
  · exact ho.timed

/-- CSS that is written settles for at most the direct time, whatever waited before. -/
theorem generated_due (ho : Orderly o) (hlive : o.disposed = false)
    (hmode : o.onDidGeneratedCssFileEvent.pendingMode = some .styles) {timer : Timer}
    (hmem : timer ∈ o.onDidGeneratedCssFileEvent.timers) :
    timer.due ≤ o.clock + directSettleMs ∨
      o.preprocessorDeadline = none ∧ o.pendingMode = some .styles ∧ timer ∈ o.timers := by
  have hdirect : (0 : ℚ) ≤ directSettleMs := by
    unfold directSettleMs
    norm_num
  unfold onDidGeneratedCssFileEvent at hmode hmem
  rw [if_neg (by simp [hlive])] at hmode hmem
  cases hdeadline : o.preprocessorDeadline with
  | none =>
    rw [hdeadline] at hmode hmem
    exact .inr ⟨rfl, hmode, hmem⟩
  | some deadline =>
    rw [hdeadline] at hmode hmem
    dsimp only at hmode hmem
    left
    split at hmem
    · rename_i hreload
      rw [if_pos hreload, hreload] at hmode
      cases hmode
    · rename_i hreload
      rw [if_neg hreload] at hmode
      split at hmem
      · rename_i hnone
        rw [if_pos hnone] at hmode
        rw [hmode] at hnone
        cases hnone
      · split at hmem
        · rename_i hover
          have := ho.deadline deadline hdeadline hreload timer hmem
          linarith
        · rw [schedule_eq] at hmem
          · rw [List.mem_singleton.1 hmem]
            show o.clock + _ ≤ o.clock + _
            have := min_le_left directSettleMs (deadline - o.clock)
            linarith
          · exact ho.timed

/-! ## A burst that waits -/

/-- When the timer is due while styles are pending. -/
structure Settling (pathname : String → Option String) (h : History) (o : SaveObserver) : Prop where
  unheard : awaited pathname h = none → o.pendingMode = some .styles →
    ∀ timer ∈ o.timers, timer.due ≤ o.clock + directSettleMs
  heard : ∀ saved, awaited pathname h = some saved → o.pendingMode = some .styles →
    ∃ deadline, o.preprocessorDeadline = some deadline ∧ ∀ timer ∈ o.timers,
      timer.due ≤ max (o.clock + directSettleMs) (saved + preprocessorQuietMs) ∧
        (saved + preprocessorQuietMs ≤ timer.due ∨ deadline ≤ timer.due)

theorem Settling.of_not_styles (hmode : o.pendingMode ≠ some .styles) : Settling pathname h o where
  unheard := fun _ hstyles => absurd hstyles hmode
  heard := fun _ _ hstyles => absurd hstyles hmode

theorem Settling.rested (hs : Settling pathname before t.pre) (hclock : t.pre.clock ≤ t.post.clock)
    (hmode : t.post.pendingMode = t.pre.pendingMode) (htimers : t.post.timers = t.pre.timers)
    (hdeadline : t.post.preprocessorDeadline = t.pre.preprocessorDeadline)
    (hsame : awaited pathname (t :: before) = awaited pathname before) :
    Settling pathname (t :: before) t.post where
  unheard := by
    rw [hsame, hmode, htimers]
    intro hnone hstyles timer hmem
    have := hs.unheard hnone hstyles timer hmem
    linarith
  heard := by
    rw [hsame, hmode, htimers, hdeadline]
    intro saved hsome hstyles
    obtain ⟨deadline, hopen, hdue⟩ := hs.heard saved hsome hstyles
    refine ⟨deadline, hopen, fun timer hmem => ?_⟩
    obtain ⟨hle, hlate⟩ := hdue timer hmem
    exact ⟨le_trans hle (max_le_max_right _ (by linarith)), hlate⟩

/-- A plain stylesheet that is not hasty leaves the publish where it was, or puts it off. -/
theorem Settling.plain_due (hs : Settling pathname before t.pre) (ho : Orderly t.pre)
    (hclock : t.pre.clock ≤ now)
    (hpatient : ∀ saved, awaited pathname before = some saved →
      now + directSettleMs < saved + preprocessorQuietMs →
        ∃ deadline, t.pre.preprocessorDeadline = some deadline ∧ deadline ≤ now + directSettleMs)
    (hopen : ∀ deadline, t.pre.preprocessorDeadline = some deadline → now ≤ deadline)
    (hstyles : t.pre.pendingMode = some .styles) {old : Timer} (hmem : old ∈ t.pre.timers) :
    old.due ≤ now + settleStyles { t.pre with clock := now } false := by
  have hno : t.pre.pendingMode ≠ some .reload := by
    rw [hstyles]
    nofun
  have hbound : old.due ≤ now + directSettleMs ∨
      ∃ deadline, t.pre.preprocessorDeadline = some deadline ∧ deadline ≤ now + directSettleMs := by
    cases hawaited : awaited pathname before with
    | none =>
      have := hs.unheard hawaited hstyles old hmem
      exact .inl (by linarith)
    | some saved =>
      obtain ⟨deadline, -, hdue⟩ := hs.heard saved hawaited hstyles
      by_cases hquick : now + directSettleMs < saved + preprocessorQuietMs
      · exact .inr (hpatient saved hawaited hquick)
      · have hle := (hdue old hmem).1
        exact .inl (le_trans hle (max_le (by linarith) (not_lt.1 hquick)))
  cases hdeadline : t.pre.preprocessorDeadline with
  | none =>
    have hsettle : settleStyles { t.pre with clock := now } false = directSettleMs := by
      simp [settleStyles, deadlineAfter, hdeadline]
    rw [hsettle]
    rcases hbound with hle | ⟨deadline, hsome, -⟩
    · exact hle
    · rw [hdeadline] at hsome
      cases hsome
  | some deadline =>
    have hsettle := @settleStyles_due { t.pre with clock := now } deadline false hopen hdeadline
    have hwindow := ho.deadline deadline hdeadline hno old hmem
    refine le_of_le_of_eq (le_min ?_ hwindow) hsettle.symm
    rcases hbound with hle | ⟨other, hsome, hle⟩
    · exact hle
    · obtain rfl : deadline = other := Option.some.inj (hdeadline.symm.trans hsome)
      exact le_trans hwindow hle

theorem not_hasty (hpatient : ¬Hasty pathname before t)
    (hplain : PlainSave pathname before t.event.event) (hstyles : t.pre.pendingMode = some .styles)
    (hawaited : awaited pathname before = some saved)
    (hquick : t.event.now + directSettleMs < saved + preprocessorQuietMs) :
    ∃ deadline, t.pre.preprocessorDeadline = some deadline ∧
      deadline ≤ t.event.now + directSettleMs := by
  by_contra hno
  refine hpatient ⟨hplain, hstyles, saved, hawaited, hquick, fun deadline hdeadline => ?_⟩
  exact not_le.1 fun hle => hno ⟨deadline, hdeadline, hle⟩

/-- The part of a save: a preprocessor settles for its quiet period, and a plain stylesheet that
is not hasty not less long than what it joins. -/
theorem Settling.save {dirtyUris : Finset String} (hs : Settling pathname before t.pre)
    (ho : Orderly t.pre) (hrecorded : Recorded before t.pre) (hlive : t.pre.disposed = false)
    (hdue : ∀ timer ∈ t.pre.timers, t.event.now ≤ timer.due)
    (hpatient : ¬Hasty pathname before t) (hevent : t.event.event = .save uri (some mode))
    (hchanged : changedSince uri before = true)
    (hpost : t.post = saveClassified { t.pre with
      clock := t.event.now, dirtyUris := dirtyUris } mode (isPreprocessorUri pathname uri)) :
    Settling pathname (t :: before) t.post := by
  have ho' : Orderly { t.pre with clock := t.event.now, dirtyUris := dirtyUris } :=
    ho.congr rfl rfl rfl rfl rfl rfl hdue
  obtain ⟨hpending, hpublished, -, -⟩ := saveClassified_rest { t.pre with
    clock := t.event.now, dirtyUris := dirtyUris } mode (isPreprocessorUri pathname uri)
  obtain ⟨hdeadline, -⟩ := saveClassified_window { t.pre with
    clock := t.event.now, dirtyUris := dirtyUris } mode (isPreprocessorUri pathname uri)
  rw [← hpost] at hpending hpublished hdeadline
  have hpublishes : publishes t = false := publishes_false hpublished
  have hsave := @preprocessorSave_saved _ _ pathname _ _ hevent hchanged
  cases hmode : strongerMode t.pre.pendingMode mode with
  | reload =>
    refine .of_not_styles ?_
    rw [hpending]
    show some (strongerMode t.pre.pendingMode mode) ≠ _
    rw [hmode]
    nofun
  | styles =>
    obtain ⟨hno, rfl⟩ := strongerMode_styles hmode
    have hopen := ho'.open_deadline hno
    obtain ⟨hnow, -, hsettle⟩ := saved_styles ho' hmode (isPreprocessorUri pathname uri)
    rw [← hpost] at hnow hsettle
    cases hkind : isPreprocessorUri pathname uri with
    | true =>
      rw [hkind] at hsave hsettle hdeadline
      have hawaited : awaited pathname (t :: before) = some t.event.now := by
        rw [awaited, hpublishes, hsave, hevent]
        rfl
      refine ⟨fun hnone => ?_, fun saved hsome _ => ?_⟩
      · rw [hawaited] at hnone
        cases hnone
      · obtain rfl : t.event.now = saved := Option.some.inj (hawaited.symm.trans hsome)
        refine ⟨_, hdeadline, fun timer hmem => ?_⟩
        rw [hsettle timer hmem, settleStyles_due hopen rfl, hnow]
        refine ⟨le_trans (min_le_left _ _) (le_max_right _ _), ?_⟩
        exact (min_choice _ _).imp ge_of_eq ge_of_eq
    | false =>
      rw [hkind] at hsave hsettle hdeadline
      have hawaited : awaited pathname (t :: before) = awaited pathname before := by
        rw [awaited, hpublishes, hsave, hevent]
        rfl
      have hle : ∀ timer ∈ t.post.timers, timer.due ≤ t.post.clock + directSettleMs := by
        intro timer hmem
        rw [hsettle timer hmem, hnow]
        exact add_le_add_right settleStyles_le_direct _
      refine ⟨fun _ _ => hle, fun saved hsome _ => ?_⟩
      rw [hawaited] at hsome
      have hstyles : t.pre.pendingMode = some .styles := by
        cases hold : t.pre.pendingMode with
        | none =>
          have hnone := (@Recorded.none_waiting _ _ pathname hrecorded hlive hold).2
          rw [hsome] at hnone
          cases hnone
        | some old =>
          cases old with
          | styles => rfl
          | reload => exact absurd hold hno
      obtain ⟨deadline, hsomeDeadline, -⟩ := hs.heard saved hsome hstyles
      refine ⟨deadline, hdeadline.trans hsomeDeadline, fun timer hmem => ?_⟩
      refine ⟨le_trans (hle timer hmem) (le_max_left _ _), ?_⟩
      rw [hsettle timer hmem, @settleStyles_due _ deadline false hopen hsomeDeadline]
      by_cases hquick : t.event.now + directSettleMs < saved + preprocessorQuietMs
      · have hplain : PlainSave pathname before t.event.event := ⟨uri, hevent, hchanged, hkind⟩
        obtain ⟨other, hother, hover⟩ := not_hasty hpatient hplain hstyles hsome hquick
        obtain rfl : deadline = other := Option.some.inj (hsomeDeadline.symm.trans hother)
        exact .inr (le_min hover (le_refl _))
      · rcases min_choice (t.event.now + directSettleMs) deadline with heq | heq
        · exact .inl (le_of_le_of_eq (not_lt.1 hquick) heq.symm)
        · exact .inr heq.symm.le

theorem Settling.generated (hs : Settling pathname before t.pre) (ho : Orderly t.pre)
    (hlive : t.pre.disposed = false) (hclock : t.pre.clock ≤ t.event.now)
    (hdue : ∀ timer ∈ t.pre.timers, t.event.now ≤ timer.due) (hevent : t.event.event = .generatedCss)
    (hpost : t.post = onDidGeneratedCssFileEvent { t.pre with clock := t.event.now }) :
    Settling pathname (t :: before) t.post := by
  have hawaited : awaited pathname (t :: before) = none := by
    rw [awaited, hevent]
    simp
  have hnow : t.post.clock = t.event.now := by
    rcases generated_cases { t.pre with clock := t.event.now } with heq | ⟨-, -, delay, heq⟩
    · rw [hpost, heq]
    · obtain ⟨timer, timers, created, hrest⟩ := schedule_rest { t.pre with
        clock := t.event.now, pendingMode := some .styles, pendingStylesCause := some .generated } delay
      rw [hpost, heq, hrest]
  refine ⟨fun _ hstyles timer hmem => ?_, fun saved hsome => ?_⟩
  · rw [hnow]
    rw [hpost] at hstyles hmem
    rcases generated_due (ho.moved hdue) hlive hstyles hmem with hle | ⟨hnone, hold, hmem⟩
    · exact hle
    · cases hawaited : awaited pathname before with
      | none =>
        have := hs.unheard hawaited hold timer hmem
        linarith
      | some saved =>
        obtain ⟨deadline, hsome, -⟩ := hs.heard saved hawaited hold
        rw [show t.pre.preprocessorDeadline = none from hnone] at hsome
        cases hsome
  · rw [hawaited] at hsome
    cases hsome

theorem Settling.step (hs : Settling pathname before t.pre) (ho : Orderly t.pre)
    (hrecorded : Recorded before t.pre) (hstep : Step pathname t.pre t.event t.post)
    (hpatient : ¬Hasty pathname before t) : Settling pathname (t :: before) t.post := by
  obtain ⟨hclock, hdue, -⟩ := step_cases hstep
  cases happened ho hrecorded hstep with
  | rested dirtyUris hpost hevent hnone =>
    have hpublishes : publishes t = false := publishes_false (by rw [hpost])
    have hsame : awaited pathname (t :: before) = awaited pathname before := by
      rw [awaited, hpublishes, preprocessorSave_rested hnone]
      simp [hevent]
    exact hs.rested (by rw [hpost]; exact hclock) (by rw [hpost]) (by rw [hpost]) (by rw [hpost]) hsame
  | saved uri mode dirtyUris hevent hlive hchanged hpost =>
    exact hs.save ho hrecorded hlive hdue hpatient hevent hchanged hpost
  | generated hevent hlive hpost => exact hs.generated ho hlive hclock hdue hevent hpost
  | fired id hevent hlive hmem hpost =>
    refine .of_not_styles ?_
    rw [hpost, (onTimer_rest _).1]
    nofun
  | disposed hevent hdisposed hmode hdeadline hpublished =>
    refine .of_not_styles ?_
    rw [hmode]
    nofun
  | ignored hdisposed hpost =>
    refine .of_not_styles ?_
    rw [hpost]
    show t.pre.pendingMode ≠ _
    rw [(hrecorded.silent hdisposed).1]
    nofun

/-! ## Runs -/

/-- No step of the history is hasty. -/
def Patient (pathname : String → Option String) (h : History) : Prop :=
  ∀ after t before, h = after ++ t :: before → ¬Hasty pathname before t

theorem patient_cons : Patient pathname (t :: before) ↔
    Patient pathname before ∧ ¬Hasty pathname before t := by
  constructor
  · intro h
    exact ⟨fun after u older heq => h (t :: after) u older (by rw [heq]; rfl), h [] t before rfl⟩
  · rintro ⟨hbefore, ht⟩ after u older heq
    rcases List.cons_eq_append_iff.1 heq with ⟨-, hcons⟩ | ⟨rest, -, hrest⟩
    · cases hcons
      exact ht
    · exact hbefore rest u older hrest

theorem Patient.earlier {after : History} (hpatient : Patient pathname h)
    (hsplit : h = after ++ t :: before) : Patient pathname before := by
  intro later u older heq
  exact hpatient (after ++ t :: later) u older (by rw [hsplit, heq]; simp)

theorem run_windowed {clock : ℚ} (hr : Run (Step pathname) (initial clock) h o) :
    Windowed pathname h o := by
  have hstart : Windowed pathname [] (initial clock) :=
    ⟨fun _ hsome => absurd hsome (by simp [initial]), fun _ _ => rfl⟩
  refine hr.invariant_history hstart fun before o m o' hr hw hs => ?_
  exact Windowed.step (t := ⟨o, m, o'⟩) hw (run_orderly hr) (run_recorded hr)
    (happened (run_orderly hr) (run_recorded hr) hs)

theorem run_settling {clock : ℚ} (hr : Run (Step pathname) (initial clock) h o)
    (hpatient : Patient pathname h) : Settling pathname h o := by
  have hstart : Settling pathname [] (initial clock) := .of_not_styles nofun
  refine hr.invariant_history (P := fun h o => Patient pathname h → Settling pathname h o)
    (fun _ => hstart) (fun before o m o' hr ih hs hpatient => ?_) hpatient
  obtain ⟨hbefore, ht⟩ := patient_cons.1 hpatient
  exact Settling.step (t := ⟨o, m, o'⟩) (ih hbefore) (run_orderly hr) (run_recorded hr) hs ht

/-- Styles are published by the timer, which was due. -/
theorem published_styles (ho : Orderly t.pre) (hrecorded : Recorded before t.pre)
    (hs : Step pathname t.pre t.event t.post)
    (hpublished : t.post.published = .styles :: t.pre.published) :
    t.pre.pendingMode = some .styles ∧ ∃ timer ∈ t.pre.timers, timer.due = t.event.now := by
  have hno : ∀ {mode : PageRefreshMode} {list : List PageRefreshMode}, list ≠ mode :: list :=
    fun h => absurd (congrArg List.length h) (by simp)
  cases happened ho hrecorded hs with
  | rested dirtyUris hpost hevent hnone =>
    rw [hpost] at hpublished
    exact absurd hpublished hno
  | saved uri mode dirtyUris hevent hlive hchanged hpost =>
    rw [hpost, (saveClassified_rest _ _ _).2.1] at hpublished
    exact absurd hpublished hno
  | generated hevent hlive hpost =>
    rw [hpost, (generated_rest _).1] at hpublished
    exact absurd hpublished hno
  | fired id hevent hlive hmem hpost =>
    refine ⟨?_, _, hmem, rfl⟩
    rw [hpost, onTimer_published] at hpublished
    cases hmode : t.pre.pendingMode with
    | none =>
      simp [hmode] at hpublished
    | some mode =>
      simp only [hmode, Option.toList_some, List.cons_append, List.nil_append, List.cons.injEq,
        and_true] at hpublished
      rw [hpublished]
  | disposed hevent hdisposed hmode hdeadline hsame =>
    rw [hsame] at hpublished
    exact absurd hpublished hno
  | ignored hdisposed hpost =>
    rw [hpost] at hpublished
    exact absurd hpublished hno

/-- The window that is over is that of the burst. -/
theorem Windowed.covers (hw : Windowed pathname before o) (hlive : o.disposed = false)
    (hdeadline : o.preprocessorDeadline = some deadline) (hover : deadline ≤ now) :
    ∃ opened ∈ preprocessorSaves pathname before,
      o.preprocessorDeadline = some (opened + preprocessorMaxMs) ∧
      opened + preprocessorMaxMs ≤ now ∧
      (o.retainPreprocessorWindow = false →
        (waitingSaves pathname before).getLast? = some opened) := by
  obtain ⟨opened, hmem, rfl⟩ := hw.opened deadline hdeadline
  refine ⟨opened, hmem, hdeadline, hover, fun hclosed => ?_⟩
  have hfirst := (hw.first hlive hclosed).symm.trans hdeadline
  obtain ⟨first, hsome, heq⟩ := Option.map_eq_some_iff.1 hfirst
  rw [hsome, add_right_cancel heq]

/-- A plain stylesheet leaves the window alone, and its own burst settles in 150 ms. -/
theorem plain_saved (ho : Orderly t.pre) (hrecorded : Recorded before t.pre)
    (hs : Step pathname t.pre t.event t.post) (hplain : PlainSave pathname before t.event.event)
    (hmode : t.pre.pendingMode ≠ some .reload) :
    t.post.preprocessorDeadline = t.pre.preprocessorDeadline ∧
      t.post.retainPreprocessorWindow = t.pre.retainPreprocessorWindow ∧
      (t.pre.pendingMode = some .styles → t.post.timers ≠ [] ∧ ∀ new ∈ t.post.timers,
        new.due = t.event.now + settleStyles { t.pre with clock := t.event.now } false) := by
  obtain ⟨-, hdue, -⟩ := step_cases hs
  obtain ⟨uri, hevent, hchanged, hkind⟩ := hplain
  cases happened ho hrecorded hs with
  | rested dirtyUris hpost hother hnone =>
    rw [hevent, classified, if_pos hchanged] at hnone
    cases hnone
  | saved other mode dirtyUris hsave hlive _ hpost =>
    obtain ⟨rfl, rfl⟩ : other = uri ∧ mode = .styles := by
      rw [hevent] at hsave
      cases hsave
      exact ⟨rfl, rfl⟩
    rw [hkind] at hpost
    have ho' : Orderly { t.pre with clock := t.event.now, dirtyUris := dirtyUris } :=
      ho.congr rfl rfl rfl rfl rfl rfl hdue
    have hstyles : strongerMode t.pre.pendingMode .styles = .styles := by
      simp [strongerMode, hmode]
    obtain ⟨hdeadline, hretain⟩ := saveClassified_window { t.pre with
      clock := t.event.now, dirtyUris := dirtyUris } .styles false
    rw [show strongerMode (SaveObserver.pendingMode { t.pre with
      clock := t.event.now, dirtyUris := dirtyUris }) .styles = .styles from hstyles] at hretain
    rw [← hpost] at hdeadline hretain
    refine ⟨hdeadline, hretain, fun _ => ?_⟩
    rw [hpost]
    exact (saved_styles ho' hstyles false).2
  | generated hother => rw [hevent] at hother; cases hother
  | fired id hother => rw [hevent] at hother; cases hother
  | disposed hother => rw [hevent] at hother; cases hother
  | ignored hdisposed hpost =>
    rw [hpost]
    refine ⟨rfl, rfl, fun hstyles => ?_⟩
    rw [(hrecorded.silent hdisposed).1] at hstyles
    cases hstyles

/-- A hasty step brings the publish forward. -/
theorem Settling.not_plain (hsettling : Settling pathname before t.pre) (ho : Orderly t.pre)
    (hrecorded : Recorded before t.pre) (hs : Step pathname t.pre t.event t.post)
    (hhasty : Hasty pathname before t) :
    ∃ old ∈ t.pre.timers, ∃ new ∈ t.post.timers, new.due < old.due := by
  obtain ⟨hplain, hstyles, saved, hawaited, hquick, hearly⟩ := hhasty
  have hno : t.pre.pendingMode ≠ some .reload := by
    rw [hstyles]
    nofun
  obtain ⟨deadline, hdeadline, hdue⟩ := hsettling.heard saved hawaited hstyles
  obtain ⟨-, -, hnew⟩ := plain_saved ho hrecorded hs hplain hno
  obtain ⟨hne, hnew⟩ := hnew hstyles
  obtain ⟨old, hold⟩ := List.exists_mem_of_ne_nil _ (ho.awake.2 (.inl (by rw [hstyles]; rfl)))
  obtain ⟨new, hmem⟩ := List.exists_mem_of_ne_nil _ hne
  refine ⟨old, hold, new, hmem, ?_⟩
  have hsettle := @settleStyles_le_direct { t.pre with clock := t.event.now }
  have hlt := hearly deadline hdeadline
  rw [hnew new hmem]
  rcases (hdue old hold).2 with hlate | hlate
  · linarith
  · linarith

theorem Waits.tail (h : Waits pathname (t :: before)) : Waits pathname before where
  publish := fun after u older heq => h.publish (t :: after) u older (by rw [heq]; rfl)
  plain := fun after u older heq => h.plain (t :: after) u older (by rw [heq]; rfl)

/-- The output of a preprocessor is waited for exactly in the runs without a hasty step. -/
theorem waits_iff_patient {clock : ℚ} (hr : Run (Step pathname) (initial clock) h o) :
    Waits pathname h ↔ Patient pathname h := by
  constructor
  · refine hr.invariant_history (P := fun h _ => Waits pathname h → Patient pathname h)
      (fun _ after t before heq => by simp at heq) fun before o m o' hr ih hs hwaits => ?_
    have hpatient := ih hwaits.tail
    refine patient_cons.2 ⟨hpatient, fun hhasty => ?_⟩
    obtain ⟨old, hold, new, hnew, hlt⟩ :=
      (run_settling hr hpatient).not_plain (t := ⟨o, m, o'⟩) (run_orderly hr) (run_recorded hr) hs hhasty
    obtain ⟨hplain, hstyles, -⟩ := hhasty
    have hno : o.pendingMode ≠ some .reload := by
      rw [show o.pendingMode = _ from hstyles]
      nofun
    have hle := (hwaits.plain [] _ before rfl hplain hno).2.2 hstyles old hold new hnew
    exact absurd hlt (not_lt.2 hle)
  · intro hpatient
    refine ⟨fun after t before hsplit hpublished saved hawaited => ?_,
      fun after t before hsplit hplain hno => ?_⟩
    · have hbefore := hpatient.earlier hsplit
      subst hsplit
      obtain ⟨hr, hs, -⟩ := hr.split
      have ho := run_orderly hr
      obtain ⟨hstyles, timer, hmem, hdue⟩ := published_styles ho (run_recorded hr) hs hpublished
      obtain ⟨deadline, hdeadline, hsettled⟩ :=
        (run_settling hr hbefore).heard saved hawaited hstyles
      have hlive : t.pre.disposed = false := by
        by_contra hdisposed
        rw [ho.disposed (by simpa using hdisposed)] at hmem
        cases hmem
      rw [← hdue]
      rcases (hsettled timer hmem).2 with hquiet | hover
      · exact .inl hquiet
      · exact .inr ((run_windowed hr).covers hlive hdeadline hover)
    · have hbefore := hpatient.earlier hsplit
      have ht := hpatient after t before hsplit
      subst hsplit
      obtain ⟨hr, hs, -⟩ := hr.split
      have ho := run_orderly hr
      obtain ⟨hclock, hdue, -⟩ := step_cases hs
      obtain ⟨hdeadline, hretain, hnew⟩ := plain_saved ho (run_recorded hr) hs hplain hno
      refine ⟨hdeadline, hretain, fun hstyles old hold new hmem => ?_⟩
      rw [(hnew hstyles).2 new hmem]
      refine (run_settling hr hbefore).plain_due ho hclock ?_ ((ho.moved hdue).open_deadline hno) hstyles hold
      exact fun saved hawaited hquick => not_hasty ht hplain hstyles hawaited hquick

/-! ## A hasty run -/

/-- A plain stylesheet is saved 100 ms after a preprocessor source; the CSS comes at 700 ms. -/
def hastyMoments : List Moment :=
  [⟨0, .change "/a.scss" 1⟩, ⟨0, .save "/a.scss" (some .styles)⟩,
    ⟨100, .change "/b.css" 1⟩, ⟨100, .save "/b.css" (some .styles)⟩,
    ⟨250, .timerFired 1⟩, ⟨700, .generatedCss⟩]

/-- Styles are published before the quiet period and the window of a preprocessor are over. -/
def announcedEarly (pathname : String → Option String) : History → Bool
  | [] => false
  | t :: before =>
    t.post.published = .styles :: t.pre.published &&
      (awaited pathname before).any (fun saved => t.event.now < saved + preprocessorQuietMs) &&
      t.pre.preprocessorDeadline.all (fun deadline => t.event.now < deadline) ||
    announcedEarly pathname before

theorem not_waits_of_announcedEarly (hearly : announcedEarly pathname h = true) :
    ¬Waits pathname h := by
  induction h with
  | nil => cases hearly
  | cons t before ih =>
    intro hwaits
    rcases Bool.or_eq_true_iff.1 hearly with hnow | hbefore
    · simp only [Bool.and_eq_true, decide_eq_true_eq, Option.any_eq_true, Option.all_eq_true] at hnow
      obtain ⟨⟨hpublished, saved, hawaited, hquick⟩, hopen⟩ := hnow
      rcases hwaits.publish [] t before rfl hpublished saved hawaited with
        hquiet | ⟨opened, -, hdeadline, hover, -⟩
      · exact absurd hquick (not_lt.2 hquiet)
      · exact absurd (hopen _ hdeadline) (not_lt.2 hover)
    · exact ih hbefore hwaits.tail

/-- Nothing of the run ever waits to reload, and the source is announced at 250 ms. The CSS that is
generated for it finds the window closed. -/
theorem announced_early : ∃ h o, Run (Step some) (initial 0) h o ∧
    (∀ t ∈ h, t.post.pendingMode ≠ some .reload) ∧ o.published = [.styles] ∧ o.timers = [] ∧
    ¬Waits some h := by
  have hrun : ((Run.history (step some) (initial 0) hastyMoments).map fun r =>
      (r.1.all (fun t => t.post.pendingMode ≠ some .reload), r.2.published, r.2.timers,
        announcedEarly some r.1)) = some (true, [.styles], [], true) := by
    decide +kernel
  rw [Option.map_eq_some_iff] at hrun
  obtain ⟨⟨h, o⟩, hr, hend⟩ := hrun
  simp only [Prod.mk.injEq, List.all_eq_true, decide_eq_true_eq] at hend
  obtain ⟨hmodes, hpublished, htimers, hearly⟩ := hend
  exact ⟨h, o, Run.of_history hr, hmodes, hpublished, htimers, not_waits_of_announcedEarly hearly⟩

/-- The same saves, 700 ms apart, and the CSS in between: nothing is hasty. -/
def patientMoments : List Moment :=
  [⟨0, .change "/a.scss" 1⟩, ⟨0, .save "/a.scss" (some .styles)⟩, ⟨600, .generatedCss⟩,
    ⟨700, .change "/b.css" 1⟩, ⟨700, .save "/b.css" (some .styles)⟩, ⟨850, .timerFired 2⟩]

theorem waits_iff_patient_sample : ∃ h o, Run (Step some) (initial 0) h o ∧
    (Waits some h ↔ Patient some h) ∧ o.published = [.styles] := by
  have hrun : ((Run.history (step some) (initial 0) patientMoments).map fun r =>
      r.2.published) = some [.styles] := by
    decide +kernel
  rw [Option.map_eq_some_iff] at hrun
  obtain ⟨⟨h, o⟩, hr, hpublished⟩ := hrun
  have run := Run.of_history hr
  exact ⟨h, o, run, waits_iff_patient run, hpublished⟩

end SaveObserver

end PinOp.Refresh
