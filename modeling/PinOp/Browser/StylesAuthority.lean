import PinOp.Browser.MatchedStylesModel
import PinOp.Lib.Runs

/-!
# Published styles never regress

Over any run of `MatchedStylesModel`, the styles it publishes are those of the selection of
that moment, at growing generations, and its revision authority never falls behind one it
took over since it was last cleared.

Most parts of the methods are `Quiet`: they keep the authority and publish no styles. A run
keeps `StylesInvariant` through these at once; the clearing of the authority and the three
places that take one over are proved one by one.
-/

namespace PinOp.Browser

open PinOp.Lib PinOp.Protocol

/-! ## The order of authorities -/

namespace StylesRevisionAuthority

variable {a b c : StylesRevisionAuthority}

/-- No revision is behind, and the pseudo states changed with their revision only. -/
structure AtLeast (current earlier : StylesRevisionAuthority) : Prop where
  stylesRevision : earlier.stylesRevision ≤ current.stylesRevision
  stylesheetRevision : earlier.stylesheetRevision ≤ current.stylesheetRevision
  pseudoStateRevision : earlier.pseudoStateRevision ≤ current.pseudoStateRevision
  pseudoStates : current.pseudoStateRevision = earlier.pseudoStateRevision →
    current.pseudoStates = earlier.pseudoStates

theorem AtLeast.refl (a : StylesRevisionAuthority) : a.AtLeast a :=
  ⟨le_refl _, le_refl _, le_refl _, fun _ => rfl⟩

theorem AtLeast.trans (h₁ : c.AtLeast b) (h₂ : b.AtLeast a) : c.AtLeast a := by
  obtain ⟨hs₁, hh₁, hp₁, hq₁⟩ := h₁
  obtain ⟨hs₂, hh₂, hp₂, hq₂⟩ := h₂
  refine ⟨by omega, by omega, by omega, fun h => ?_⟩
  rw [hq₁ (by omega), hq₂ (by omega)]

/-- It is of a later epoch, or of the same and not behind. -/
def Supersedes (current earlier : StylesRevisionAuthority) : Prop :=
  earlier.documentEpoch < current.documentEpoch ∨
    (current.documentEpoch = earlier.documentEpoch ∧ current.AtLeast earlier)

theorem Supersedes.refl (a : StylesRevisionAuthority) : a.Supersedes a := .inr ⟨rfl, .refl a⟩

theorem Supersedes.trans (h₁ : c.Supersedes b) (h₂ : b.Supersedes a) : c.Supersedes a := by
  rcases h₁ with h₁ | ⟨e₁, h₁⟩ <;> rcases h₂ with h₂ | ⟨e₂, h₂⟩
  · exact .inl (by omega)
  · exact .inl (by omega)
  · exact .inl (by omega)
  · exact .inr ⟨by omega, h₁.trans h₂⟩

theorem atLeast_of_strictlyNewer (h : strictlyNewerRevisionPair a b = true) : a.AtLeast b := by
  simp only [strictlyNewerRevisionPair, Bool.and_eq_true, Bool.or_eq_true,
    decide_eq_true_eq] at h
  obtain ⟨⟨⟨hs, hh⟩, hp⟩, hq⟩ := h
  refine ⟨by omega, hh, hp, fun he => ?_⟩
  rcases hq with hq | hq
  · omega
  · exact hq

theorem atLeast_of_meetsFloor (h : revisionPairMeetsFloor a b = true) : a.AtLeast b := by
  simp only [revisionPairMeetsFloor, Bool.or_eq_true] at h
  rcases h with h | h
  · simp only [Bool.and_eq_true, decide_eq_true_eq] at h
    obtain ⟨⟨⟨hs, hh⟩, hp⟩, hq⟩ := h
    exact ⟨by omega, by omega, by omega, fun _ => hq⟩
  · exact atLeast_of_strictlyNewer h

end StylesRevisionAuthority

/-! ## What is observed -/

/-- It is ready or partial. -/
def MatchedStylesModelSnapshot.hasStyles (snapshot : MatchedStylesModelSnapshot) : Bool :=
  snapshot.state = .ready || snapshot.state = .partly

/-- Its key is of the selection. -/
def MatchedStylesModelSnapshot.Carries (snapshot : MatchedStylesModelSnapshot)
    (selection : Option MatchedStylesModelSelection) : Prop :=
  ∃ current key, selection = some current ∧ snapshot.key = some key ∧
    key.identity = current.identity

/-- The generations of the snapshots with styles, newest first. -/
def styledGenerations : List Observation → List ℕ
  | [] => []
  | .published snapshot _ :: older =>
    if snapshot.hasStyles then snapshot.generation :: styledGenerations older
    else styledGenerations older
  | .accepted _ :: older => styledGenerations older
  | .admitted _ :: older => styledGenerations older
  | .cleared :: older => styledGenerations older

/-- The authorities taken over since one was last cleared. -/
def takenOver : List Observation → List StylesRevisionAuthority
  | [] => []
  | .published _ _ :: older => takenOver older
  | .accepted authority :: older => authority :: takenOver older
  | .admitted authority :: older => authority :: takenOver older
  | .cleared :: _ => []

/-- A snapshot without styles. -/
def Observation.quiet : Observation → Bool
  | .published snapshot _ => !snapshot.hasStyles
  | _ => false

theorem styledGenerations_of_quiet {newer : List Observation}
    (h : ∀ o ∈ newer, o.quiet = true) (older : List Observation) :
    styledGenerations (newer ++ older) = styledGenerations older := by
  induction newer with
  | nil => rfl
  | cons o newer ih =>
    have ho := h o List.mem_cons_self
    have hn := ih fun o ho => h o (List.mem_cons_of_mem _ ho)
    cases o with
    | published snapshot _ =>
      simp only [Observation.quiet, Bool.not_eq_true'] at ho
      simpa [styledGenerations, ho] using hn
    | accepted _ => cases ho
    | admitted _ => cases ho
    | cleared => cases ho

theorem takenOver_of_quiet {newer : List Observation} (h : ∀ o ∈ newer, o.quiet = true)
    (older : List Observation) : takenOver (newer ++ older) = takenOver older := by
  induction newer with
  | nil => rfl
  | cons o newer ih =>
    have ho := h o List.mem_cons_self
    have hn := ih fun o ho => h o (List.mem_cons_of_mem _ ho)
    cases o with
    | published snapshot _ => exact hn
    | accepted _ => cases ho
    | admitted _ => cases ho
    | cleared => cases ho

namespace MatchedStylesModel

variable {m m' m'' : MatchedStylesModel}

/-! ## The quiet parts -/

/-- From `m` to `m'` the authority is kept and no styles are published; a request in flight is
that of a new generation, or there was one before. -/
structure Quiet (m m' : MatchedStylesModel) : Prop where
  authority : m'.revisionAuthority = m.revisionAuthority
  observed : ∃ newer, m'.observed = newer ++ m.observed ∧ ∀ o ∈ newer, o.quiet = true
  generation : m.generation ≤ m'.generation
  controller : m'.controller.isSome = true →
    m.generation < m'.generation ∨ m.controller.isSome = true

namespace Quiet

theorem trans (h₁ : Quiet m m') (h₂ : Quiet m' m'') : Quiet m m'' := by
  obtain ⟨newer₁, e₁, q₁⟩ := h₁.observed
  obtain ⟨newer₂, e₂, q₂⟩ := h₂.observed
  have hg₁ := h₁.generation
  have hg₂ := h₂.generation
  refine ⟨h₂.authority.trans h₁.authority, ⟨newer₂ ++ newer₁, by simp [e₂, e₁], ?_⟩, by omega, ?_⟩
  · intro o ho
    rcases List.mem_append.mp ho with ho | ho
    · exact q₂ o ho
    · exact q₁ o ho
  · intro hc
    rcases h₂.controller hc with hc | hc
    · exact .inl (by omega)
    · rcases h₁.controller hc with hc | hc
      · exact .inl (by omega)
      · exact .inr hc

/-- Nothing of it changes. -/
theorem of_eq (ha : m'.revisionAuthority = m.revisionAuthority) (ho : m'.observed = m.observed)
    (hg : m'.generation = m.generation) (hc : m'.controller = m.controller) : Quiet m m' :=
  ⟨ha, ⟨[], by simp [ho]⟩, by omega, fun h => .inr (hc ▸ h)⟩

theorem refl (m : MatchedStylesModel) : Quiet m m := of_eq rfl rfl rfl rfl

end Quiet

variable {created : CreatedRequestId} {selection : MatchedStylesModelSelection}

/-- A snapshot without styles is published. -/
theorem publish_quiet {snapshot : MatchedStylesModelSnapshot} (h : snapshot.hasStyles = false)
    (hm : Quiet m m') : Quiet m (m'.publish snapshot) := by
  unfold publish
  split
  · exact hm
  · refine hm.trans ⟨rfl, ⟨[_], rfl, ?_⟩, le_refl _, .inr⟩
    simp [Observation.quiet, h]

theorem cancelCurrent_quiet (hm : Quiet m m') : Quiet m m'.cancelCurrent :=
  hm.trans ⟨rfl, ⟨[], rfl, by simp⟩, le_refl _, by simp [cancelCurrent]⟩

theorem createRequestId_quiet (m : MatchedStylesModel) (created : CreatedRequestId) :
    Quiet m (m.createRequestId created).2 := by
  cases created with
  | missing => exact .of_eq rfl rfl rfl rfl
  | given _ => exact .refl m
  | thrown => exact .refl m

theorem notifyStylesheetReset_eq (m : MatchedStylesModel) (authority : StylesRevisionAuthority) :
    ∃ reset, m.notifyStylesheetReset authority = { m with lastStylesheetReset := reset } := by
  simp only [notifyStylesheetReset]
  split
  · split
    · exact ⟨_, rfl⟩
    · exact ⟨_, rfl⟩
  · split
    · exact ⟨_, rfl⟩
    · exact ⟨_, rfl⟩
  · exact ⟨_, rfl⟩

theorem notifyStylesheetReset_quiet (hm : Quiet m m') (authority : StylesRevisionAuthority) :
    Quiet m (m'.notifyStylesheetReset authority) := by
  obtain ⟨reset, hr⟩ := notifyStylesheetReset_eq m' authority
  rw [hr]
  exact hm.trans (.of_eq rfl rfl rfl rfl)

/-- A new generation begins, with a request of its own. -/
theorem begin_quiet (h : m'.generation = m.generation + 1)
    (ha : m'.revisionAuthority = m.revisionAuthority) (ho : m'.observed = m.observed) :
    Quiet m m' :=
  ⟨ha, ⟨[], by simp [ho]⟩, by omega, fun _ => .inl (by omega)⟩

theorem load_quiet (m : MatchedStylesModel) (selection : MatchedStylesModelSelection)
    (manualRefresh : Bool) (awaitedBy : Option PseudoIntent) (created : CreatedRequestId) :
    Quiet m (m.load selection manualRefresh awaitedBy created) := by
  simp only [load]
  generalize hr : (if m.selection = some selection then m else { m with cancelledRetries := 0 }) = r
  have hm : Quiet m r := by
    subst hr
    split
    · exact .refl m
    · exact .of_eq rfl rfl rfl rfl
  generalize hb : publish _ _ = b
  have hb : Quiet r b := by
    subst hb
    exact publish_quiet rfl (begin_quiet rfl rfl rfl)
  have hc := createRequestId_quiet b created
  split
  · rename_i heq
    rw [heq] at hc
    exact (hm.trans hb).trans hc
  · rename_i heq
    rw [heq] at hc
    exact ((hm.trans hb).trans hc).trans (.of_eq rfl rfl rfl rfl)

theorem reloadPendingFloor_quiet (m : MatchedStylesModel) (generation : ℕ)
    (selection : MatchedStylesModelSelection) (created : CreatedRequestId) :
    Quiet m (m.reloadPendingFloor generation selection created).2 := by
  simp only [reloadPendingFloor]
  split
  · exact .refl m
  · rename_i floor _
    have hn : Quiet m ({ m with pendingReloadGeneration := none }.notifyStylesheetReset floor) := by
      apply notifyStylesheetReset_quiet
      exact .of_eq rfl rfl rfl rfl
    split
    · exact .refl m
    · split
      · exact hn.trans (load_quiet _ _ _ _ _)
      · exact hn

theorem retryCancelledLoad_quiet (m : MatchedStylesModel) (generation : ℕ)
    (selection : MatchedStylesModelSelection) (errorCode : StylesErrorCode) :
    Quiet m (m.retryCancelledLoad generation selection errorCode).2 := by
  simp only [retryCancelledLoad]
  split
  · exact .refl m
  · exact .of_eq rfl rfl rfl rfl

theorem publishError_quiet (m : MatchedStylesModel) (generation : ℕ) (key : SnapshotKey)
    (errorCode : StylesErrorCode) : Quiet m (m.publishError generation key errorCode) :=
  publish_quiet rfl (.of_eq rfl rfl rfl rfl)

theorem publishLoadErrorOrReload_quiet (m : MatchedStylesModel) (generation : ℕ)
    (selection : MatchedStylesModelSelection) (errorCode : StylesErrorCode)
    (created : CreatedRequestId) :
    Quiet m (m.publishLoadErrorOrReload generation selection errorCode created) := by
  simp only [publishLoadErrorOrReload]
  have hf := reloadPendingFloor_quiet m generation selection created
  split
  · rename_i heq
    rw [heq] at hf
    exact hf
  · rename_i m₁ heq
    rw [heq] at hf
    have hr := retryCancelledLoad_quiet m₁ generation selection errorCode
    split
    · rename_i heq
      rw [heq] at hr
      exact hf.trans hr
    · rename_i heq
      rw [heq] at hr
      exact (hf.trans hr).trans (publishError_quiet _ _ _ _)

theorem publishPseudoSetErrorOrReload_quiet (m : MatchedStylesModel) (task : PseudoSetTask)
    (errorCode : StylesErrorCode) (created : CreatedRequestId) :
    Quiet m (m.publishPseudoSetErrorOrReload task errorCode created) := by
  simp only [publishPseudoSetErrorOrReload]
  have hf := reloadPendingFloor_quiet m task.generation task.selection created
  split
  · rename_i heq
    rw [heq] at hf
    exact hf
  · rename_i heq
    rw [heq] at hf
    exact hf.trans (publishError_quiet _ _ _ _)

theorem sendPseudoStates_quiet (m : MatchedStylesModel) (intent : PseudoIntent)
    (accepted : MatchedStylesModelKey) (created : CreatedRequestId) :
    Quiet m (m.sendPseudoStates intent accepted created) := by
  simp only [sendPseudoStates]
  generalize hb : publish _ _ = b
  have hb : Quiet m b := by
    subst hb
    exact publish_quiet rfl (begin_quiet rfl rfl rfl)
  have hc := createRequestId_quiet b created
  split
  · rename_i heq
    rw [heq] at hc
    exact hb.trans hc
  · rename_i heq
    rw [heq] at hc
    split
    · exact hb.trans hc
    · exact (hb.trans hc).trans (.of_eq rfl rfl rfl rfl)

theorem setPseudoStatesForIntent_quiet (m : MatchedStylesModel) (intent : PseudoIntent)
    (created : CreatedRequestId) : Quiet m (m.setPseudoStatesForIntent intent created) := by
  simp only [setPseudoStatesForIntent]
  split
  · exact .refl m
  · split
    · exact .refl m
    · split
      · -- the intent gives up: a new generation without a request
        refine publish_quiet rfl ((cancelCurrent_quiet (.refl m)).trans ?_)
        exact ⟨rfl, ⟨[], rfl, by simp⟩, by simp, fun h => .inr h⟩
      · split
        · exact load_quiet _ _ _ _ _
        · split
          · split
            · exact load_quiet _ _ _ _ _
            · exact .refl m
          · exact sendPseudoStates_quiet _ _ _ _

theorem refresh_quiet (m : MatchedStylesModel) (created : CreatedRequestId) :
    Quiet m (m.refresh created) := by
  simp only [refresh]
  split
  · exact .refl m
  · split
    · exact .refl m
    · exact load_quiet _ _ _ _ _

theorem setPseudoStates_quiet (m : MatchedStylesModel) (states : List PseudoState)
    (created : CreatedRequestId) : Quiet m (m.setPseudoStates states created) := by
  simp only [setPseudoStates]
  split
  · exact .refl m
  · split
    · exact .refl m
    · split
      · exact .refl m
      · refine Quiet.trans ?_ (setPseudoStatesForIntent_quiet _ _ _)
        exact cancelCurrent_quiet (.of_eq rfl rfl rfl rfl)

theorem runInvalidation_quiet (m : MatchedStylesModel) (generation : ℕ)
    (created : CreatedRequestId) : Quiet m (m.runInvalidation generation created) := by
  simp only [runInvalidation]
  have hm : Quiet m { m with invalidationQueued := false, pendingInvalidation := none } :=
    .of_eq rfl rfl rfl rfl
  split
  · exact hm
  · split
    · rename_i latest _ _ _
      have hn := notifyStylesheetReset_quiet hm latest
      split
      · exact hm
      · split
        · exact hn
        · exact hn.trans (load_quiet _ _ _ _ _)
    · exact hm

theorem runRetry_quiet (m : MatchedStylesModel) (timer : RetryTimer) (created : CreatedRequestId) :
    Quiet m (m.runRetry timer created) := by
  simp only [runRetry]
  split
  · exact .refl m
  · exact load_quiet _ _ _ _ _

/-! ## The invariant -/

/-- What every run keeps of the model and of what was seen. -/
structure StylesInvariant (m : MatchedStylesModel) : Prop where
  current : ∀ snapshot selection, .published snapshot selection ∈ m.observed →
    snapshot.hasStyles = true → snapshot.Carries selection
  increasing : (styledGenerations m.observed).Pairwise (· > ·)
  bounded : ∀ g ∈ styledGenerations m.observed, g ≤ m.generation
  /-- a request in flight is of a generation without styles so far -/
  pending : m.controller.isSome = true → ∀ g ∈ styledGenerations m.observed, g < m.generation
  authority : ∀ a ∈ takenOver m.observed, ∃ current, m.revisionAuthority = some current ∧
    current.Supersedes a

namespace StylesInvariant

theorem start : StylesInvariant initial := by
  refine ⟨fun _ _ hm => ?_, .nil, fun _ hm => ?_, fun hc => ?_, fun _ hm => ?_⟩
  · cases hm
  · cases hm
  · cases hc
  · cases hm

theorem of_quiet (inv : StylesInvariant m) (h : Quiet m m') : StylesInvariant m' := by
  obtain ⟨newer, ho, hq⟩ := h.observed
  have hs := styledGenerations_of_quiet hq m.observed
  have hg := h.generation
  refine ⟨?_, ?_, ?_, ?_, ?_⟩
  · intro snapshot selection hm hst
    rw [ho] at hm
    rcases List.mem_append.mp hm with hm | hm
    · have := hq _ hm
      simp [Observation.quiet, hst] at this
    · exact inv.current snapshot selection hm hst
  · rw [ho, hs]
    exact inv.increasing
  · intro g hm
    rw [ho, hs] at hm
    have := inv.bounded g hm
    omega
  · intro hc g hm
    rw [ho, hs] at hm
    rcases h.controller hc with hlt | hc
    · have := inv.bounded g hm
      omega
    · have := inv.pending hc g hm
      omega
  · intro a hm
    rw [ho, takenOver_of_quiet hq] at hm
    rw [h.authority]
    exact inv.authority a hm

/-- The part of the model that the invariant speaks about is kept, or is no request any more. -/
theorem of_settled (inv : StylesInvariant m) : StylesInvariant { m with controller := none } :=
  inv.of_quiet ⟨rfl, ⟨[], rfl, by simp⟩, le_refl _, nofun⟩

theorem clearRevisionAuthority (inv : StylesInvariant m) :
    StylesInvariant m.clearRevisionAuthority := by
  refine ⟨?_, inv.increasing, inv.bounded, inv.pending, List.forall_mem_nil _⟩
  intro snapshot selection hm hst
  rcases List.mem_cons.mp hm with hm | hm
  · cases hm
  · exact inv.current snapshot selection hm hst

/-- An authority that supersedes the one before, if there is one, is taken over. -/
theorem takeOver {authority : StylesRevisionAuthority} {o : Observation} (inv : StylesInvariant m)
    (ho : o = .accepted authority ∨ o = .admitted authority)
    (h : ∀ floor, m.revisionAuthority = some floor → authority.Supersedes floor)
    (hg : m'.generation = m.generation) (hc : m'.controller = m.controller)
    (ha : m'.revisionAuthority = some authority) (hob : m'.observed = o :: m.observed) :
    StylesInvariant m' := by
  have hs : styledGenerations m'.observed = styledGenerations m.observed := by
    rw [hob]
    rcases ho with rfl | rfl <;> rfl
  have ht : takenOver m'.observed = authority :: takenOver m.observed := by
    rw [hob]
    rcases ho with rfl | rfl <;> rfl
  refine ⟨?_, ?_, ?_, ?_, ?_⟩
  · intro snapshot selection hm hst
    rw [hob] at hm
    rcases List.mem_cons.mp hm with hm | hm
    · rcases ho with rfl | rfl <;> cases hm
    · exact inv.current snapshot selection hm hst
  · rw [hs]
    exact inv.increasing
  · rw [hs, hg]
    exact inv.bounded
  · rw [hs, hg, hc]
    exact inv.pending
  · intro a hm
    refine ⟨authority, ha, ?_⟩
    rw [ht] at hm
    rcases List.mem_cons.mp hm with rfl | hm
    · exact .refl _
    · obtain ⟨floor, hf, hsup⟩ := inv.authority a hm
      exact (h floor hf).trans hsup

/-- Styles of a generation without styles so far are published, for the current selection. -/
theorem publish {snapshot : MatchedStylesModelSnapshot} (inv : StylesInvariant m)
    (hc : m.controller = none) (hcur : snapshot.Carries m.selection)
    (hg : snapshot.generation = m.generation)
    (hlt : ∀ g ∈ styledGenerations m.observed, g < m.generation) :
    StylesInvariant (m.publish snapshot) := by
  unfold MatchedStylesModel.publish
  split
  · exact inv
  · refine ⟨?_, ?_, ?_, ?_, inv.authority⟩
    · intro snapshot' selection hm hst
      rcases List.mem_cons.mp hm with hm | hm
      · cases hm
        exact hcur
      · exact inv.current snapshot' selection hm hst
    · simp only [styledGenerations]
      split
      · refine List.pairwise_cons.mpr ⟨fun g hm => ?_, inv.increasing⟩
        rw [hg]
        exact hlt g hm
      · exact inv.increasing
    · simp only [styledGenerations]
      split
      · intro g hm
        rcases List.mem_cons.mp hm with rfl | hm
        · exact hg.le
        · exact inv.bounded g hm
      · exact inv.bounded
    · simp [hc]

/-! ## The steps -/

theorem supersedes_of_meetsFloor {authority floor : StylesRevisionAuthority}
    (h : m.meetsFloor authority = true) (hf : m.revisionAuthority = some floor) :
    authority.Supersedes floor := by
  simp only [meetsFloor, hf, Option.all_some, Bool.and_eq_true, decide_eq_true_eq] at h
  exact .inr ⟨h.1.symm, StylesRevisionAuthority.atLeast_of_meetsFloor h.2⟩

theorem accept {authority : StylesRevisionAuthority} (inv : StylesInvariant m)
    (identity : SelectionIdentity) (hf : m.meetsFloor authority = true) :
    StylesInvariant (m.accept identity authority).2 :=
  inv.takeOver (.inl rfl) (fun _ => supersedes_of_meetsFloor hf) rfl rfl rfl rfl

theorem acceptMatched {task : LoadTask} {response : StylesMatchedResponse}
    (inv : StylesInvariant m) (hc : m.controller = none)
    (hlt : ∀ g ∈ styledGenerations m.observed, g < m.generation)
    (hf : m.meetsFloor response.authority = true) :
    StylesInvariant (m.acceptMatched task response) := by
  simp only [MatchedStylesModel.acceptMatched]
  obtain ⟨reset, hr⟩ := notifyStylesheetReset_eq { m with pendingReloadGeneration := none }
    response.authority
  rw [hr]
  split
  · exact inv.of_quiet (.of_eq rfl rfl rfl rfl)
  · rename_i hguard
    simp only [Bool.or_eq_true, decide_eq_true_eq, not_or, not_not] at hguard
    obtain ⟨⟨-, hg⟩, hsel⟩ := hguard
    refine publish ?_ hc ⟨task.selection, _, hsel, rfl, rfl⟩ hg.symm hlt
    exact inv.takeOver (.inl rfl) (fun _ => supersedes_of_meetsFloor hf) rfl rfl rfl rfl

theorem loadSettled {task : LoadTask} {outcome : Option StylesResponse}
    (inv : StylesInvariant m) : StylesInvariant (m.loadSettled task outcome created) := by
  simp only [MatchedStylesModel.loadSettled]
  split
  · exact inv
  · rename_i hcur
    have inv' := inv.of_settled
    have hfail (code) := inv'.of_quiet (publishLoadErrorOrReload_quiet { m with controller := none }
      task.generation task.selection code created)
    split
    · exact hfail _
    · split
      · exact hfail _
      · split
        · exact hfail _
        · exact hfail _
        · split
          · exact hfail _
          · rename_i hfloor
            simp only [isCurrent, Bool.not_eq_true', Bool.not_eq_false, Bool.and_eq_true,
              decide_eq_true_eq] at hcur hfloor
            refine inv'.acceptMatched rfl (inv.pending ?_) hfloor
            simp [hcur.1.2]

theorem pseudoSetSettled {task : PseudoSetTask} {outcome : Option StylesResponse}
    (inv : StylesInvariant m) : StylesInvariant (m.pseudoSetSettled task outcome created) := by
  simp only [MatchedStylesModel.pseudoSetSettled]
  split
  · exact inv
  · have inv' := inv.of_settled
    have hfail (code) := inv'.of_quiet (publishPseudoSetErrorOrReload_quiet
      { m with controller := none } task code created)
    split
    · exact hfail _
    · split
      · exact hfail _
      · split
        · exact hfail _
        · exact hfail _
        · split
          · exact hfail _
          · split
            · exact hfail _
            · rename_i response _ _ hfloor
              simp only [Bool.not_eq_true', Bool.not_eq_false] at hfloor
              have ha := inv'.accept task.selection.identity hfloor
              split
              · exact of_quiet ha (load_quiet _ _ _ _ _)
              · exact ha

theorem invalidate {event : StylesRevisionAuthority} (inv : StylesInvariant m) :
    StylesInvariant (m.invalidate event) := by
  simp only [MatchedStylesModel.invalidate]
  split
  · exact inv
  · rename_i hguard
    have hsup : ∀ floor, m.revisionAuthority = some floor → event.Supersedes floor := by
      intro floor hf
      simp only [refusesInvalidation, hf, Option.any_some, Bool.or_eq_true, Bool.and_eq_true,
        decide_eq_true_eq, not_or, not_and, Bool.not_eq_true', Bool.not_eq_false] at hguard
      obtain ⟨-, -, hle, hnewer⟩ := hguard
      rcases Nat.lt_or_ge floor.documentEpoch event.documentEpoch with hlt | hge
      · exact .inl hlt
      · have he : event.documentEpoch = floor.documentEpoch := by omega
        exact .inr ⟨he, StylesRevisionAuthority.atLeast_of_strictlyNewer (hnewer he)⟩
    have hadmit : StylesInvariant { m with
        revisionAuthority := some event
        cancelledRetries := 0
        observed := .admitted event :: m.observed } :=
      inv.takeOver (.inr rfl) hsup rfl rfl rfl rfl
    split
    · exact hadmit
    · split
      · exact hadmit.of_quiet (.of_eq rfl rfl rfl rfl)
      · split
        · exact hadmit.of_quiet (.of_eq rfl rfl rfl rfl)
        · exact hadmit.of_quiet (.of_eq rfl rfl rfl rfl)

theorem select {identity : SelectionIdentity} (inv : StylesInvariant m) :
    StylesInvariant (m.select identity created) := by
  simp only [MatchedStylesModel.select]
  split
  · exact inv
  · have inv' : StylesInvariant m.newObject.2 := inv.of_quiet (.of_eq rfl rfl rfl rfl)
    split
    · exact inv'
    · refine of_quiet ?_ (load_quiet _ _ _ _ _)
      split
      · exact inv'.clearRevisionAuthority.of_quiet (.of_eq rfl rfl rfl rfl)
      · exact inv'.of_quiet (.of_eq rfl rfl rfl rfl)

/-- The request in flight is aborted, and a generation without one begins. -/
theorem abandon (inv : StylesInvariant m) (h : m'.generation = m.generation + 1)
    (ha : m'.revisionAuthority = m.revisionAuthority) (ho : m'.observed = m.observed) :
    StylesInvariant m'.clearRevisionAuthority :=
  (inv.of_quiet (begin_quiet h ha ho)).clearRevisionAuthority

theorem reset (inv : StylesInvariant m) : StylesInvariant m.reset := by
  simp only [MatchedStylesModel.reset]
  split
  · exact inv
  · refine of_quiet ?_ (publish_quiet rfl (.refl _))
    exact inv.abandon rfl rfl rfl

theorem dispose (inv : StylesInvariant m) : StylesInvariant m.dispose := by
  simp only [MatchedStylesModel.dispose]
  split
  · exact inv
  · refine of_quiet (m := MatchedStylesModel.clearRevisionAuthority _) ?_ (.of_eq rfl rfl rfl rfl)
    exact inv.abandon rfl rfl rfl

/-- The step lemma. -/
theorem apply {action : Action} (inv : StylesInvariant m) (h : m.apply action = some m') :
    StylesInvariant m' := by
  cases action with
  | select identity created => cases h; exact inv.select
  | refresh created => cases h; exact inv.of_quiet (refresh_quiet _ _)
  | setPseudoStates states created => cases h; exact inv.of_quiet (setPseudoStates_quiet _ _ _)
  | invalidate event => cases h; exact inv.invalidate
  | reset => cases h; exact inv.reset
  | dispose => cases h; exact inv.dispose
  | settle index outcome created =>
    have inv' : StylesInvariant { m with tasks := m.tasks.eraseIdx index } :=
      inv.of_quiet (.of_eq rfl rfl rfl rfl)
    simp only [MatchedStylesModel.apply] at h
    split at h
    · cases h
      exact inv'.loadSettled.of_quiet (.of_eq rfl rfl rfl rfl)
    · cases h
      exact inv'.pseudoSetSettled
    · cases h
  | resume index created =>
    simp only [MatchedStylesModel.apply] at h
    split at h
    · cases h
      refine of_quiet ?_ (setPseudoStatesForIntent_quiet _ _ _)
      exact inv.of_quiet (.of_eq rfl rfl rfl rfl)
    · cases h
  | microtask index created =>
    simp only [MatchedStylesModel.apply] at h
    split at h
    · cases h
      refine of_quiet ?_ (runInvalidation_quiet _ _ _)
      exact inv.of_quiet (.of_eq rfl rfl rfl rfl)
    · cases h
  | timer index created =>
    simp only [MatchedStylesModel.apply] at h
    split at h
    · cases h
      refine of_quiet ?_ (runRetry_quiet _ _ _)
      exact inv.of_quiet (.of_eq rfl rfl rfl rfl)
    · cases h

end StylesInvariant

/-! ## Runs -/

def Step (m : MatchedStylesModel) (action : Action) (m' : MatchedStylesModel) : Prop :=
  m.apply action = some m'

abbrev Trace := List (Transition MatchedStylesModel Action)

/-- The run lemma. -/
theorem StylesInvariant.of_run {h : Trace} (run : Run Step initial h m) : StylesInvariant m :=
  run.invariant .start fun _ _ _ inv hs => inv.apply hs

end MatchedStylesModel

end PinOp.Browser
