import PinOp.Refresh.SaveTimer

/-!
# No saved change is lost

What the history tells of the saves since the last publish is at most as strong as what is pending,
and the marks of the documents are those that the history tells.
-/

namespace PinOp.Refresh

open PinOp.Lib
open PinOp.Protocol (PageRefreshMode)

namespace SaveObserver

variable {o o' : SaveObserver} {now : ℚ} {m : Moment} {h : History}
  {pathname : String → Option String} {uri : String} {mode : PageRefreshMode}

/-! ## What the history tells -/

def publishes (t : Transition SaveObserver Moment) : Bool := t.post.published ≠ t.pre.published

/-- The document was changed since its last save or close. -/
def changedSince (uri : String) : History → Bool
  | [] => false
  | t :: before =>
    match t.event.event with
    | .change other contentChanges =>
      if other = uri ∧ 0 < contentChanges then true else changedSince uri before
    | .save other _ => if other = uri then false else changedSince uri before
    | .close other => if other = uri then false else changedSince uri before
    | _ => changedSince uri before

/-- The classification of a save that counts: one of a document that was changed. -/
def classified (before : History) : Event → Option PageRefreshMode
  | .save uri mode => if changedSince uri before then mode else none
  | _ => none

/-- The saves that count since the last publish. -/
def savedSince : History → List PageRefreshMode
  | [] => []
  | t :: before =>
    if publishes t then [] else (classified before t.event.event).toList ++ savedSince before

/-- Scheduling leaves everything but the timers alone. -/
theorem schedule_rest (o : SaveObserver) (delay : ℚ) : ∃ timer timers created, o.schedule delay =
    { o with timer := timer, timers := timers, timersCreated := created } := by
  unfold schedule cancelTimer
  split
  · exact ⟨_, _, _, rfl⟩
  · exact ⟨_, _, _, rfl⟩

theorem saveClassified_rest (o : SaveObserver) (mode : PageRefreshMode) (preprocessor : Bool) :
    (o.saveClassified mode preprocessor).pendingMode = some (strongerMode o.pendingMode mode) ∧
      (o.saveClassified mode preprocessor).published = o.published ∧
      (o.saveClassified mode preprocessor).dirtyUris = o.dirtyUris ∧
      (o.saveClassified mode preprocessor).disposed = o.disposed := by
  cases hmode : strongerMode o.pendingMode mode with
  | reload =>
    rw [saveClassified_reload hmode]
    obtain ⟨timer, timers, created, heq⟩ := schedule_rest { o with
      pendingMode := some .reload
      pendingStylesCause := none
      preprocessorDeadline := o.deadlineAfter preprocessor
      retainPreprocessorWindow := (o.deadlineAfter preprocessor).isSome } directSettleMs
    rw [heq]
    exact ⟨rfl, rfl, rfl, rfl⟩
  | styles =>
    rw [saveClassified_styles hmode]
    obtain ⟨timer, timers, created, heq⟩ := schedule_rest { o with
      pendingMode := some .styles
      pendingStylesCause :=
        if preprocessor then some .save else some (o.pendingStylesCause.getD .save)
      preprocessorDeadline := o.deadlineAfter preprocessor } (o.settleStyles preprocessor)
    rw [heq]
    exact ⟨rfl, rfl, rfl, rfl⟩

/-- A CSS file that is written does nothing, or it settles styles anew. -/
theorem generated_cases (o : SaveObserver) : o.onDidGeneratedCssFileEvent = o ∨
    o.disposed = false ∧ o.pendingMode ≠ some .reload ∧ ∃ delay, o.onDidGeneratedCssFileEvent =
      schedule { o with pendingMode := some .styles, pendingStylesCause := some .generated } delay := by
  unfold onDidGeneratedCssFileEvent
  split
  · exact .inl rfl
  · rename_i hdisposed
    split
    · exact .inl rfl
    · split
      · exact .inl rfl
      · rename_i hmode
        split
        · exact .inl rfl
        · dsimp only
          split
          · exact .inl rfl
          · exact .inr ⟨by simpa using hdisposed, hmode, _, rfl⟩

theorem generated_rest (o : SaveObserver) :
    o.onDidGeneratedCssFileEvent.published = o.published ∧
      o.onDidGeneratedCssFileEvent.dirtyUris = o.dirtyUris ∧
      o.onDidGeneratedCssFileEvent.disposed = o.disposed ∧
      (o.onDidGeneratedCssFileEvent.pendingMode = o.pendingMode ∨
        o.pendingMode ≠ some .reload ∧ o.onDidGeneratedCssFileEvent.pendingMode = some .styles) := by
  rcases generated_cases o with heq | ⟨-, hmode, delay, heq⟩
  · rw [heq]
    exact ⟨rfl, rfl, rfl, .inl rfl⟩
  · obtain ⟨timer, timers, created, hrest⟩ := schedule_rest { o with
      pendingMode := some .styles, pendingStylesCause := some .generated } delay
    rw [heq, hrest]
    exact ⟨rfl, rfl, rfl, .inr ⟨hmode, rfl⟩⟩

theorem onTimer_rest (o : SaveObserver) : o.onTimer.pendingMode = none ∧
    o.onTimer.dirtyUris = o.dirtyUris ∧ o.onTimer.disposed = o.disposed := by
  unfold onTimer
  dsimp only
  split
  · split
    · obtain ⟨timer, timers, created, hrest⟩ := schedule_rest { o with
        timer := none, pendingMode := none, pendingStylesCause := none } (_ - o.clock)
      rw [hrest]
      exact ⟨rfl, rfl, rfl⟩
    · exact ⟨rfl, rfl, rfl⟩
  · exact ⟨rfl, rfl, rfl⟩

/-- A save counts, or it only takes the mark of the document away. -/
theorem save_cases (o : SaveObserver) (uri : String) (mode : Option PageRefreshMode) :
    (o.disposed = true ∧ o.onDidSaveTextDocument pathname uri mode = o) ∨
    (o.disposed = false ∧ (uri ∈ o.dirtyUris → mode = none) ∧
      o.onDidSaveTextDocument pathname uri mode = { o with dirtyUris := o.dirtyUris.erase uri }) ∨
    (o.disposed = false ∧ uri ∈ o.dirtyUris ∧ ∃ found, mode = some found ∧
      o.onDidSaveTextDocument pathname uri mode =
        saveClassified { o with dirtyUris := o.dirtyUris.erase uri } found
          (isPreprocessorUri pathname uri)) := by
  unfold onDidSaveTextDocument
  split
  · rename_i hdisposed
    exact .inl ⟨hdisposed, rfl⟩
  · rename_i hdisposed
    have hdisposed : o.disposed = false := by simpa using hdisposed
    split
    · rename_i hclean
      refine .inr (.inl ⟨hdisposed, fun hmem => absurd hmem hclean, ?_⟩)
      rw [Finset.erase_eq_of_notMem hclean]
    · rename_i hdirty
      have hdirty : uri ∈ o.dirtyUris := not_not.1 hdirty
      dsimp only
      split
      · exact .inr (.inl ⟨hdisposed, fun _ => rfl, rfl⟩)
      · exact .inr (.inr ⟨hdisposed, hdirty, _, rfl, rfl⟩)

/-! ## The history and the state -/

structure Recorded (h : History) (o : SaveObserver) : Prop where
  dirty : ∀ uri ∈ o.dirtyUris, changedSince uri h = true
  changed : o.disposed = false → ∀ uri, changedSince uri h = true → uri ∈ o.dirtyUris
  pending : o.disposed = false → ∀ saved ∈ savedSince h,
    ∃ mode, o.pendingMode = some mode ∧ strongerMode (some mode) saved = mode
  silent : o.disposed = true → o.pendingMode = none ∧ o.dirtyUris = ∅

theorem recorded_initial (clock : ℚ) : Recorded [] (initial clock) where
  dirty := by
    intro uri hmem
    cases hmem
  changed := by
    intro _ uri hchanged
    cases hchanged
  pending := by
    intro _ saved hmem
    cases hmem
  silent := by
    intro hdisposed
    cases hdisposed

/-- What covers a save still covers it when it gets stronger. -/
theorem strongerMode_covers {current : Option PageRefreshMode} {saved : PageRefreshMode}
    (h : saved = mode ∨ ∃ old, current = some old ∧ strongerMode (some old) saved = old) :
    strongerMode (some (strongerMode current mode)) saved = strongerMode current mode := by
  rcases h with rfl | ⟨old, rfl, hold⟩
  · unfold strongerMode
    cases saved with
    | styles =>
      by_cases hcurrent : current = some .reload
      · simp [hcurrent]
      · simp [hcurrent]
    | reload => simp
  · cases old with
    | reload => simp [strongerMode]
    | styles =>
      cases saved with
      | styles => cases mode <;> rfl
      | reload => cases hold

/-- Nothing moves a disposed observer. -/
theorem react_disposed {e : Event} (h : Orderly o) (hdisposed : o.disposed = true)
    (hr : o.react pathname e = some o') : o' = o := by
  cases e with
  | change uri contentChanges =>
    cases hr
    unfold onDidChangeTextDocument
    rw [if_pos hdisposed]
  | save uri mode =>
    cases hr
    unfold onDidSaveTextDocument
    rw [if_pos hdisposed]
  | close uri =>
    cases hr
    unfold onDidCloseTextDocument
    rw [if_pos hdisposed]
  | generatedCss =>
    cases hr
    unfold onDidGeneratedCssFileEvent
    rw [if_pos hdisposed]
  | dispose =>
    cases hr
    unfold dispose
    rw [if_pos hdisposed]
  | timerFired id =>
    unfold react at hr
    rw [h.disposed hdisposed] at hr
    cases hr

theorem changedSince_change {t : Transition SaveObserver Moment} {contentChanges : ℕ}
    (hevent : t.event.event = .change uri contentChanges) (other : String) (before : History) :
    changedSince other (t :: before) = true ↔
      uri = other ∧ 0 < contentChanges ∨ changedSince other before = true := by
  rw [changedSince, hevent]
  dsimp only
  split
  · rename_i hsame
    simp [hsame]
  · rename_i hno
    simp [hno]

/-- A save or a close takes the mark of its document away. -/
theorem changedSince_taken {t : Transition SaveObserver Moment}
    (hevent : (∃ mode, t.event.event = .save uri mode) ∨ t.event.event = .close uri)
    (other : String) (before : History) :
    changedSince other (t :: before) = true ↔ uri ≠ other ∧ changedSince other before = true := by
  rcases hevent with ⟨mode, hevent⟩ | hevent
  · rw [changedSince, hevent]
    simp
  · rw [changedSince, hevent]
    simp

theorem Recorded.of_live {t : Transition SaveObserver Moment} {before : History}
    (hdisposed : o.disposed = false)
    (hdirty : ∀ uri, uri ∈ o.dirtyUris ↔ changedSince uri (t :: before) = true)
    (hpending : ∀ saved ∈ savedSince (t :: before),
      ∃ mode, o.pendingMode = some mode ∧ strongerMode (some mode) saved = mode) :
    Recorded (t :: before) o where
  dirty := fun uri hmem => (hdirty uri).1 hmem
  changed := fun _ uri hchanged => (hdirty uri).2 hchanged
  pending := fun _ => hpending
  silent := by
    intro hd
    rw [hdisposed] at hd
    cases hd

/-- What was saved since the last publish, one event later. -/
theorem mem_savedSince {t : Transition SaveObserver Moment} {before : History}
    {saved : PageRefreshMode} (hmem : saved ∈ savedSince (t :: before)) :
    t.post.published = t.pre.published ∧
      (classified before t.event.event = some saved ∨ saved ∈ savedSince before) := by
  unfold savedSince at hmem
  split at hmem
  · cases hmem
  · rename_i hquiet
    refine ⟨by simpa [publishes] using hquiet, ?_⟩
    rcases List.mem_append.1 hmem with hnew | hold
    · exact .inl (by simpa using hnew)
    · exact .inr hold

theorem Recorded.mem_dirtyUris {before : History} (h : Recorded before o)
    (hlive : o.disposed = false) (uri : String) :
    uri ∈ o.dirtyUris ↔ changedSince uri before = true := ⟨h.dirty uri, h.changed hlive uri⟩

/-- What is pending covers the saves so far when it did, and it covers the one of this event. -/
theorem Recorded.pending_kept {t : Transition SaveObserver Moment} {before : History}
    (h : Recorded before t.pre) (hlive : t.pre.disposed = false)
    (hnone : classified before t.event.event = none)
    (hmode : t.post.pendingMode = t.pre.pendingMode ∨
      t.pre.pendingMode ≠ some .reload ∧ t.post.pendingMode = some .styles) :
    ∀ saved ∈ savedSince (t :: before),
      ∃ mode, t.post.pendingMode = some mode ∧ strongerMode (some mode) saved = mode := by
  intro saved hmem
  rcases (mem_savedSince hmem).2 with hnew | hold
  · rw [hnone] at hnew
    cases hnew
  · obtain ⟨mode, hpending, hcovers⟩ := h.pending hlive saved hold
    rcases hmode with hsame | ⟨hno, hstyles⟩
    · exact ⟨mode, hsame.trans hpending, hcovers⟩
    · cases mode with
      | reload => exact absurd hpending hno
      | styles => exact ⟨.styles, hstyles, hcovers⟩

theorem Recorded.change {t : Transition SaveObserver Moment} {before : History}
    {contentChanges : ℕ} (h : Recorded before t.pre) (hlive : t.pre.disposed = false)
    (hevent : t.event.event = .change uri contentChanges)
    (hpost : t.post = onDidChangeTextDocument { t.pre with clock := now } uri contentChanges) :
    Recorded (t :: before) t.post := by
  have hnone : classified before t.event.event = none := by rw [hevent]; rfl
  unfold onDidChangeTextDocument at hpost
  rw [if_neg (by simp [hlive])] at hpost
  by_cases hsome : 0 < contentChanges
  · rw [if_pos hsome] at hpost
    refine .of_live (by rw [hpost]; exact hlive) ?_ (h.pending_kept hlive hnone (by rw [hpost]; exact .inl rfl))
    intro other
    rw [changedSince_change hevent, ← h.mem_dirtyUris hlive, hpost]
    show other ∈ insert uri t.pre.dirtyUris ↔ _
    rw [Finset.mem_insert, eq_comm]
    simp [hsome]
  · rw [if_neg hsome] at hpost
    refine .of_live (by rw [hpost]; exact hlive) ?_ (h.pending_kept hlive hnone (by rw [hpost]; exact .inl rfl))
    intro other
    rw [changedSince_change hevent, ← h.mem_dirtyUris hlive, hpost]
    simp [hsome]

theorem Recorded.close {t : Transition SaveObserver Moment} {before : History}
    (h : Recorded before t.pre) (hlive : t.pre.disposed = false) (hevent : t.event.event = .close uri)
    (hpost : t.post = onDidCloseTextDocument { t.pre with clock := now } uri) :
    Recorded (t :: before) t.post := by
  have hnone : classified before t.event.event = none := by rw [hevent]; rfl
  unfold onDidCloseTextDocument at hpost
  rw [if_neg (by simp [hlive])] at hpost
  refine .of_live (by rw [hpost]; exact hlive) ?_ (h.pending_kept hlive hnone (by rw [hpost]; exact .inl rfl))
  intro other
  rw [changedSince_taken (.inr hevent), ← h.mem_dirtyUris hlive, hpost]
  show other ∈ t.pre.dirtyUris.erase uri ↔ _
  rw [Finset.mem_erase, ne_comm]

theorem Recorded.save {t : Transition SaveObserver Moment} {before : History}
    {found : Option PageRefreshMode} (h : Recorded before t.pre) (hlive : t.pre.disposed = false)
    (hevent : t.event.event = .save uri found)
    (hpost : t.post = onDidSaveTextDocument pathname { t.pre with clock := now } uri found) :
    Recorded (t :: before) t.post := by
  have htaken : ∀ other, other ∈ t.pre.dirtyUris.erase uri ↔ changedSince other (t :: before) = true := by
    intro other
    rw [changedSince_taken (.inl ⟨found, hevent⟩), ← h.mem_dirtyUris hlive, Finset.mem_erase, ne_comm]
  rcases @save_cases pathname { t.pre with clock := now } uri found with
    ⟨hdisposed, -⟩ | ⟨-, hclean, heq⟩ | ⟨-, hdirty, mode, rfl, heq⟩
  · rw [show t.pre.disposed = true from hdisposed] at hlive
    cases hlive
  · rw [heq] at hpost
    refine .of_live (by rw [hpost]; exact hlive) (fun other => by rw [hpost]; exact htaken other)
      (h.pending_kept hlive ?_ (by rw [hpost]; exact .inl rfl))
    rw [hevent]
    show (if changedSince uri before then found else none) = none
    split
    · rename_i hchanged
      exact hclean (h.changed hlive uri hchanged)
    · rfl
  · obtain ⟨hmode, -, hdirtyUris, hd⟩ := saveClassified_rest { t.pre with
      clock := now
      dirtyUris := t.pre.dirtyUris.erase uri } mode (isPreprocessorUri pathname uri)
    rw [heq] at hpost
    refine .of_live (by rw [hpost]; exact hd.trans hlive) (fun other => ?_) ?_
    · rw [hpost]
      rw [show (saveClassified _ mode _).dirtyUris = _ from hdirtyUris]
      exact htaken other
    · intro saved hmem
      refine ⟨strongerMode t.pre.pendingMode mode, by rw [hpost]; exact hmode, strongerMode_covers ?_⟩
      rcases (mem_savedSince hmem).2 with hnew | hold
      · rw [hevent, classified, if_pos (h.dirty uri hdirty)] at hnew
        exact .inl (Option.some.inj hnew).symm
      · exact .inr (h.pending hlive saved hold)

theorem Recorded.generated {t : Transition SaveObserver Moment} {before : History}
    (h : Recorded before t.pre) (hlive : t.pre.disposed = false) (hevent : t.event.event = .generatedCss)
    (hpost : t.post = onDidGeneratedCssFileEvent { t.pre with clock := now }) :
    Recorded (t :: before) t.post := by
  obtain ⟨-, hdirty, hd, hmode⟩ := generated_rest { t.pre with clock := now }
  refine .of_live (by rw [hpost]; exact hd.trans hlive) ?_
    (h.pending_kept hlive (by rw [hevent]; rfl) (by rw [hpost]; exact hmode))
  intro other
  rw [changedSince, hevent, ← h.mem_dirtyUris hlive, hpost, hdirty]

theorem Recorded.dispose {t : Transition SaveObserver Moment} {before : History}
    (hd : t.post.disposed = true) (hmode : t.post.pendingMode = none) (hdirty : t.post.dirtyUris = ∅) :
    Recorded (t :: before) t.post where
  dirty := by
    intro uri hmem
    rw [hdirty] at hmem
    cases hmem
  changed := by
    intro hlive
    rw [hd] at hlive
    cases hlive
  pending := by
    intro hlive
    rw [hd] at hlive
    cases hlive
  silent := fun _ => ⟨hmode, hdirty⟩

theorem Recorded.timer {t : Transition SaveObserver Moment} {before : History} {id : ℕ}
    {timers : List Timer} (h : Recorded before t.pre) (hlive : t.pre.disposed = false)
    (hevent : t.event.event = .timerFired id)
    (hpost : t.post = onTimer { t.pre with clock := now, timers := timers }) :
    Recorded (t :: before) t.post := by
  obtain ⟨-, hdirty, hd⟩ := onTimer_rest { t.pre with clock := now, timers := timers }
  refine .of_live (by rw [hpost]; exact hd.trans hlive) ?_ ?_
  · intro other
    rw [changedSince, hevent, ← h.mem_dirtyUris hlive, hpost, hdirty]
  · -- nothing that counts is left: what was pending is published
    intro saved hmem
    obtain ⟨hquiet, hnew | hold⟩ := mem_savedSince hmem
    · rw [hevent] at hnew
      cases hnew
    · obtain ⟨mode, hmode, -⟩ := h.pending hlive saved hold
      rw [hpost, onTimer_published] at hquiet
      have hlength := congrArg List.length hquiet
      rw [show (SaveObserver.pendingMode { t.pre with clock := now, timers := timers }) = some mode
        from hmode] at hlength
      simp at hlength

theorem Recorded.step {t : Transition SaveObserver Moment} {before : History}
    (h : Recorded before t.pre) (ho : Orderly t.pre) (hs : Step pathname t.pre t.event t.post) :
    Recorded (t :: before) t.post := by
  obtain ⟨-, hdue, hr⟩ := step_cases hs
  have ho := ho.moved hdue
  cases hlive : t.pre.disposed with
  | true =>
    have hsame := react_disposed ho hlive hr
    obtain ⟨hmode, hdirty⟩ := h.silent hlive
    refine .dispose ?_ ?_ ?_
    · rw [hsame]
      exact hlive
    · rw [hsame]
      exact hmode
    · rw [hsame]
      exact hdirty
  | false =>
    cases hevent : t.event.event with
    | change uri contentChanges =>
      rw [hevent] at hr
      exact h.change hlive hevent (Option.some.inj hr).symm
    | save uri mode =>
      rw [hevent] at hr
      exact h.save hlive hevent (Option.some.inj hr).symm
    | close uri =>
      rw [hevent] at hr
      exact h.close hlive hevent (Option.some.inj hr).symm
    | generatedCss =>
      rw [hevent] at hr
      exact h.generated hlive hevent (Option.some.inj hr).symm
    | dispose =>
      rw [hevent] at hr
      have hpost := Option.some.inj hr
      rw [dispose_eq ho hlive] at hpost
      exact .dispose (by rw [← hpost]) (by rw [← hpost]) (by rw [← hpost])
    | timerFired id =>
      rw [hevent] at hr
      unfold SaveObserver.react at hr
      dsimp only at hr
      split at hr
      · exact h.timer hlive hevent (Option.some.inj hr).symm
      · cases hr

theorem run_recorded {clock : ℚ} (hr : Run (Step pathname) (initial clock) h o) : Recorded h o := by
  refine hr.invariant_history (recorded_initial clock) fun before o m o' hr hrecorded hs => ?_
  exact Recorded.step (t := ⟨o, m, o'⟩) hrecorded (run_orderly hr) hs

/-! ## Every step of a run -/

/-- A step publishes what was pending, or nothing. -/
theorem step_published {t : Transition SaveObserver Moment} (ho : Orderly t.pre)
    (hs : Step pathname t.pre t.event t.post) : t.post.published = t.pre.published ∨
      ∃ mode, t.pre.disposed = false ∧ t.pre.pendingMode = some mode ∧
        t.post.published = mode :: t.pre.published := by
  obtain ⟨-, hdue, hr⟩ := step_cases hs
  have ho := ho.moved hdue
  cases hlive : t.pre.disposed with
  | true =>
    rw [react_disposed ho hlive hr]
    exact .inl rfl
  | false =>
    cases hevent : t.event.event with
    | change uri contentChanges =>
      rw [hevent] at hr
      rw [← Option.some.inj hr]
      unfold onDidChangeTextDocument
      rw [if_neg (by simp [hlive])]
      split
      · exact .inl rfl
      · exact .inl rfl
    | save uri mode =>
      rw [hevent] at hr
      rw [← Option.some.inj hr]
      rcases @save_cases pathname { t.pre with clock := t.event.now } uri mode with
        ⟨-, heq⟩ | ⟨-, -, heq⟩ | ⟨-, -, found, -, heq⟩
      · rw [heq]
        exact .inl rfl
      · rw [heq]
        exact .inl rfl
      · rw [heq]
        exact .inl (saveClassified_rest _ found _).2.1
    | close uri =>
      rw [hevent] at hr
      rw [← Option.some.inj hr]
      unfold onDidCloseTextDocument
      rw [if_neg (by simp [hlive])]
      exact .inl rfl
    | generatedCss =>
      rw [hevent] at hr
      rw [← Option.some.inj hr]
      exact .inl (generated_rest _).1
    | dispose =>
      rw [hevent] at hr
      rw [← Option.some.inj hr, dispose_eq ho hlive]
      exact .inl rfl
    | timerFired id =>
      rw [hevent] at hr
      unfold SaveObserver.react at hr
      dsimp only at hr
      split at hr
      · rw [← Option.some.inj hr, onTimer_published]
        cases hmode : t.pre.pendingMode with
        | none => exact .inl rfl
        | some mode => exact .inr ⟨mode, rfl, rfl, rfl⟩
      · cases hr

/-- A save of a document that was not changed leaves everything as it is. -/
theorem save_unchanged (hclean : uri ∉ o.dirtyUris) {found : Option PageRefreshMode}
    (hr : o.react pathname (.save uri found) = some o') : o' = o := by
  rw [← Option.some.inj hr]
  rcases @save_cases pathname o uri found with ⟨-, heq⟩ | ⟨-, -, heq⟩ | ⟨-, hdirty, -⟩
  · exact heq
  · rw [heq, Finset.erase_eq_of_notMem hclean]
  · exact absurd hdirty hclean

/-- A disposed observer stays so, and publishes nothing. -/
theorem run_disposed (ho : Orderly o) (hdisposed : o.disposed = true) {after : History}
    (hr : Run (Step pathname) o after o') :
    o'.disposed = true ∧ o'.published = o.published ∧ Orderly o' := by
  refine hr.invariant (P := fun s => s.disposed = true ∧ s.published = o.published ∧ Orderly s)
    ⟨hdisposed, rfl, ho⟩ ?_
  intro s m s' hs hstep
  obtain ⟨hd, hpublished, ho⟩ := hs
  obtain ⟨-, hdue, hr⟩ := step_cases hstep
  have ho := ho.moved hdue
  have hsame := react_disposed ho hd hr
  refine ⟨?_, ?_, react_orderly ho hr⟩
  · rw [hsame]
    exact hd
  · rw [hsame]
    exact hpublished

/-! ## The saves are kept -/

/-- What is said of a run with the history `h` that ends in `o`. -/
structure SavesKept (h : History) (o : SaveObserver) : Prop where
  timer : o.timers.length ≤ 1 ∧
    (o.timers ≠ [] ↔ o.pendingMode.isSome = true ∨ o.retainPreprocessorWindow = true)
  pending : o.disposed = false → ∀ saved ∈ savedSince h,
    ∃ mode, o.pendingMode = some mode ∧ strongerMode (some mode) saved = mode
  published : ∀ after t before, h = after ++ t :: before →
    t.post.published = t.pre.published ∨
      ∃ mode, t.pre.pendingMode = some mode ∧ t.post.published = mode :: t.pre.published ∧
        ∀ saved ∈ savedSince before, strongerMode (some mode) saved = mode
  deadline : o.pendingMode = some .styles → ∀ deadline, o.preprocessorDeadline = some deadline →
    ∀ timer ∈ o.timers, timer.due ≤ deadline
  unchanged : ∀ after t before, h = after ++ t :: before → ∀ uri mode,
    t.event.event = .save uri mode → changedSince uri before = false →
      t.post = { t.pre with clock := t.event.now }
  disposed : ∀ after t before, h = after ++ t :: before → t.event.event = .dispose →
    o.timers = [] ∧ o.published = t.pre.published

/-- No saved change is lost. -/
theorem saves_kept {clock : ℚ} (hr : Run (Step pathname) (initial clock) h o) : SavesKept h o where
  timer := by
    have ho := run_orderly hr
    refine ⟨?_, ho.awake⟩
    rcases ho.timed with ⟨-, hnil⟩ | ⟨due, ⟨id, -, hone⟩, -⟩
    · rw [hnil]
      exact Nat.zero_le 1
    · rw [hone]
      exact le_refl 1
  pending := (run_recorded hr).pending
  published := by
    intro after t before hsplit
    subst hsplit
    obtain ⟨hbefore, hs, -⟩ := hr.split
    rcases step_published (run_orderly hbefore) hs with hsame | ⟨mode, hlive, hmode, hpublished⟩
    · exact .inl hsame
    · refine .inr ⟨mode, hmode, hpublished, fun saved hmem => ?_⟩
      obtain ⟨pending, hpending, hcovers⟩ := (run_recorded hbefore).pending hlive saved hmem
      obtain rfl : mode = pending := Option.some.inj (hmode.symm.trans hpending)
      exact hcovers
  deadline := by
    intro hstyles deadline hdeadline
    exact (run_orderly hr).deadline deadline hdeadline (by rw [hstyles]; simp)
  unchanged := by
    intro after t before hsplit uri mode hevent hunchanged
    subst hsplit
    obtain ⟨hbefore, hs, -⟩ := hr.split
    obtain ⟨-, -, hreact⟩ := step_cases hs
    rw [hevent] at hreact
    refine save_unchanged (fun hmem => ?_) hreact
    rw [(run_recorded hbefore).dirty uri hmem] at hunchanged
    cases hunchanged
  disposed := by
    intro after t before hsplit hevent
    subst hsplit
    obtain ⟨hbefore, hs, hafter⟩ := hr.split
    obtain ⟨-, hdue, hreact⟩ := step_cases hs
    have ho := (run_orderly hbefore).moved hdue
    have hpost : t.post.disposed = true ∧ t.post.published = t.pre.published := by
      cases hlive : t.pre.disposed with
      | true =>
        rw [react_disposed ho hlive hreact]
        exact ⟨hlive, rfl⟩
      | false =>
        rw [hevent] at hreact
        rw [← Option.some.inj hreact, dispose_eq ho hlive]
        exact ⟨rfl, rfl⟩
    obtain ⟨hdisposed, hpublished, hend⟩ := run_disposed (react_orderly ho hreact) hpost.1 hafter
    exact ⟨hend.disposed hdisposed, hpublished.trans hpost.2⟩

/-- The reload of a script comes after a preprocessor source, and before a plain stylesheet. -/
def burstMoments : List Moment :=
  [⟨0, .change "/a.scss" 1⟩, ⟨0, .save "/a.scss" (some .styles)⟩,
    ⟨100, .change "/a.ts" 1⟩, ⟨100, .save "/a.ts" (some .reload)⟩,
    ⟨200, .change "/a.css" 1⟩, ⟨200, .save "/a.css" (some .styles)⟩, ⟨350, .timerFired 2⟩]

theorem saves_kept_sample : ∃ h o, Run (Step some) (initial 0) h o ∧
    o.published = [.reload] ∧ SavesKept h o := by
  have hrun : ((Run.history (step some) (initial 0) burstMoments).map fun r =>
      r.2.published) = some [.reload] := by
    decide +kernel
  rw [Option.map_eq_some_iff] at hrun
  obtain ⟨⟨h, o⟩, hr, hpublished⟩ := hrun
  have run := Run.of_history hr
  exact ⟨h, o, run, hpublished, saves_kept run⟩

end SaveObserver

end PinOp.Refresh
