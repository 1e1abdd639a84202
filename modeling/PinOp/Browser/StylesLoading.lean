import PinOp.Browser.StylesAuthority

/-!
# The styles model is never stuck loading

Whatever aborts the request in flight starts another one in the same turn, or leaves a state
that is not loading. So a model that loads waits for a request that it will take the answer
of, or for the timer of a cancelled load. An invalidation it admits meanwhile is remembered
with the generation it loads, and the end of that load, unless it meets the floor, is the
beginning of another one; only a pseudo-state intent that is out of reconciliations cancels
the load for good, with an error.
-/

namespace PinOp.Browser

open PinOp.Lib PinOp.Protocol

/-- A request id comes of it. -/
def CreatedRequestId.usable : CreatedRequestId → Bool
  | .missing => true
  | .given requestId => 0 < jsLength requestId && jsLength requestId ≤ 128
  | .thrown => false

namespace MatchedStylesModel

/-- Every request id that is asked for in the step is usable. -/
def Action.usable : Action → Bool
  | .select _ created => created.usable
  | .refresh created => created.usable
  | .setPseudoStates _ created => created.usable
  | .invalidate _ => true
  | .reset => true
  | .dispose => true
  | .settle _ _ created => created.usable
  | .resume _ created => created.usable
  | .microtask _ created => created.usable
  | .timer _ created => created.usable

variable {m m' : MatchedStylesModel} {created : CreatedRequestId}
  {selection : MatchedStylesModelSelection}

/-! ## What is waited for -/

/-- A request of the current generation is in flight, and its answer is taken. -/
def Outstanding (m : MatchedStylesModel) : Prop :=
  (∃ task, .load task ∈ m.tasks ∧ m.isCurrent task.generation task.controller = true) ∨
    ∃ task, .pseudoSet task ∈ m.tasks ∧ m.isPseudoSetCurrent task = true

/-- The timer of a cancelled load of the current generation and selection is pending. -/
def RetryPending (m : MatchedStylesModel) : Prop :=
  ∃ timer ∈ m.cancelledRetryTimers,
    timer.generation = m.generation ∧ m.selection = some timer.selection

/-- A model that loads waits for something. -/
def Attended (m : MatchedStylesModel) : Prop :=
  m.disposed = false → m.state.state = .loading → Outstanding m ∨ RetryPending m

theorem Attended.of_not_loading (h : m.state.state ≠ .loading) : Attended m :=
  fun _ hl => absurd hl h

/-- The model loads, and what it waits for is the response to a `styles.getMatched` request. -/
structure Loads (m : MatchedStylesModel) : Prop where
  state : m.state.state = .loading
  request : ∃ task, .load task ∈ m.tasks ∧ m.isCurrent task.generation task.controller = true

theorem Loads.attended (h : Loads m) : Attended m := fun _ _ => .inl (.inl h.request)

/-! ## The invariant -/

/-- What a run keeps of the tasks, the controllers and the accepted key. -/
structure Accounted (m : MatchedStylesModel) : Prop where
  loads : ∀ task, .load task ∈ m.tasks → task.generation ≤ m.generation ∧
    task.request.documentEpoch = task.selection.identity.documentEpoch
  sets : ∀ task, .pseudoSet task ∈ m.tasks →
    task.request.documentEpoch = task.selection.identity.documentEpoch
  aborted : ∀ c ∈ m.aborted, c < m.nextObject
  controller : ∀ c, m.controller = some c → c < m.nextObject
  /-- The accepted key is of the document of the selection, and not ahead of the floor. -/
  accepted : ∀ key, m.lastAcceptedKey = some key → ∃ floor selection,
    m.revisionAuthority = some floor ∧ m.selection = some selection ∧
      floor.documentEpoch = selection.identity.documentEpoch ∧
      key.authority.stylesRevision ≤ floor.stylesRevision

/-- A load of the current generation is one of the current selection, too. -/
structure Consistent (m : MatchedStylesModel) : Prop extends Accounted m where
  current : ∀ task, .load task ∈ m.tasks → task.generation = m.generation →
    m.selection = some task.selection

/-- What a run keeps. -/
structure LoadingInvariant (m : MatchedStylesModel) : Prop where
  consistent : Consistent m
  attended : Attended m

/-! ## Loading -/

theorem createRequestId_usable (m : MatchedStylesModel) (hc : created.usable = true) :
    ∃ requestId sequence, m.createRequestId created =
      (some requestId, { m with nextRequestSequence := sequence }) := by
  cases created with
  | missing => exact ⟨_, _, rfl⟩
  | given requestId =>
    simp only [CreatedRequestId.usable, Bool.and_eq_true, decide_eq_true_eq] at hc
    have hn : ¬(jsLength requestId = 0 ∨ 128 < jsLength requestId) := by omega
    refine ⟨requestId, m.nextRequestSequence, ?_⟩
    simp [createRequestId, hn]
  | thrown => cases hc

/-- What `load` leaves behind. -/
theorem load_eq (hd : m.disposed = false) (hc : created.usable = true) (manualRefresh : Bool)
    (awaitedBy : Option PseudoIntent) :
    ∃ (request : StylesGetMatchedRequest) (retries sequence : ℕ),
      request.documentEpoch = selection.identity.documentEpoch ∧
      m.load selection manualRefresh awaitedBy created = { m with
        state := ⟨.loading, m.generation + 1, some (.selection selection), none, none⟩
        observed := .published
          ⟨.loading, m.generation + 1, some (.selection selection), none, none⟩ m.selection ::
            m.observed
        cancelledRetries := retries
        controller := some m.nextObject
        aborted := m.controller.toList ++ m.aborted
        generation := m.generation + 1
        pendingReloadGeneration := none
        nextObject := m.nextObject + 1
        nextRequestSequence := sequence
        tasks := m.tasks ++
          [.load ⟨m.generation + 1, m.nextObject, selection, request, awaitedBy⟩] } := by
  simp only [load]
  obtain ⟨retries, hr⟩ : ∃ retries, (if m.selection = some selection then m
      else { m with cancelledRetries := 0 }) = { m with cancelledRetries := retries } := by
    split
    · exact ⟨_, rfl⟩
    · exact ⟨_, rfl⟩
  rw [hr]
  simp only [publish, cancelCurrent, newObject, hd, Bool.false_eq_true, if_false]
  generalize hb : MatchedStylesModel.mk _ _ _ _ _ _ _ _ _ _ _ _ _ _ _ _ _ _ _ _ = b
  obtain ⟨requestId, sequence, hq⟩ := createRequestId_usable b hc
  rw [hq]
  subst hb
  exact ⟨_, retries, sequence, rfl, rfl⟩

theorem load_generation (hd : m.disposed = false) (hc : created.usable = true)
    (manualRefresh : Bool) (awaitedBy : Option PseudoIntent) :
    (m.load selection manualRefresh awaitedBy created).generation = m.generation + 1 := by
  obtain ⟨_, _, _, -, he⟩ := load_eq hd hc manualRefresh awaitedBy
  rw [he]

/-- The controller of the next request is a new one. -/
theorem Accounted.not_aborted (inv : Accounted m) :
    m.nextObject ∉ m.controller.toList ++ m.aborted := by
  intro hm
  rcases List.mem_append.mp hm with hm | hm
  · exact absurd (inv.controller m.nextObject (by simpa [eq_comm] using hm)) (Nat.lt_irrefl _)
  · exact absurd (inv.aborted _ hm) (Nat.lt_irrefl _)

/-- A request in flight is aborted when the next one gets its controller. -/
theorem Accounted.aborted_cancelled (inv : Accounted m) :
    ∀ c ∈ m.controller.toList ++ m.aborted, c < m.nextObject + 1 := by
  intro c hm
  rcases List.mem_append.mp hm with hm | hm
  · exact Nat.lt_succ_of_lt (inv.controller c (by simpa [eq_comm] using hm))
  · exact Nat.lt_succ_of_lt (inv.aborted c hm)

theorem load_loads (inv : Accounted m) (hd : m.disposed = false)
    (hc : created.usable = true) (manualRefresh : Bool) (awaitedBy : Option PseudoIntent) :
    Loads (m.load selection manualRefresh awaitedBy created) := by
  obtain ⟨request, retries, sequence, -, he⟩ := load_eq hd hc manualRefresh awaitedBy
  rw [he]
  refine ⟨rfl, _, List.mem_append_right _ List.mem_cons_self, ?_⟩
  have ha := inv.not_aborted
  simp only [List.mem_append, not_or] at ha
  simp [isCurrent, hd, ha]

/-- The load of the current selection begins, whatever the model waited for before. -/
theorem Accounted.load (inv : Accounted m) (hd : m.disposed = false)
    (hs : m.selection = some selection) (hc : created.usable = true) (manualRefresh : Bool)
    (awaitedBy : Option PseudoIntent) :
    LoadingInvariant (m.load selection manualRefresh awaitedBy created) := by
  have hl : Loads (m.load selection manualRefresh awaitedBy created) :=
    load_loads inv hd hc manualRefresh awaitedBy
  obtain ⟨request, retries, sequence, hr, he⟩ := load_eq hd hc manualRefresh awaitedBy
  rw [he] at hl ⊢
  refine ⟨⟨⟨?_, ?_, ?_, ?_, inv.accepted⟩, ?_⟩, hl.attended⟩
  · intro task hm
    rcases List.mem_append.mp hm with hm | hm
    · obtain ⟨hg, he⟩ := inv.loads task hm
      exact ⟨Nat.le_succ_of_le hg, he⟩
    · cases List.mem_singleton.mp hm
      exact ⟨le_refl _, hr⟩
  · intro task hm
    rcases List.mem_append.mp hm with hm | hm
    · exact inv.sets task hm
    · cases List.mem_singleton.mp hm
  · exact inv.aborted_cancelled
  · intro c h
    cases h
    exact Nat.lt_succ_self _
  · intro task hm hg
    rcases List.mem_append.mp hm with hm | hm
    · have := (inv.loads task hm).1
      simp only at hg
      omega
    · cases List.mem_singleton.mp hm
      exact hs

/-! ## Reloading -/

/-- A load of a new generation has begun. -/
structure Reloads (m m' : MatchedStylesModel) : Prop where
  generation : m'.generation = m.generation + 1
  loads : Loads m'

/-- An invalidation was admitted in this generation, for the document of the selection. -/
structure FloorPending (m : MatchedStylesModel) (selection : MatchedStylesModelSelection) :
    Prop where
  pending : m.pendingReloadGeneration = some m.generation
  floor : ∃ floor, m.revisionAuthority = some floor ∧
    floor.documentEpoch = selection.identity.documentEpoch

theorem reload (inv : Accounted m) (hd : m.disposed = false)
    (hs : m.selection = some selection) (hc : created.usable = true) (manualRefresh : Bool)
    (awaitedBy : Option PseudoIntent) :
    LoadingInvariant (m.load selection manualRefresh awaitedBy created) ∧
      Reloads m (m.load selection manualRefresh awaitedBy created) :=
  ⟨inv.load hd hs hc manualRefresh awaitedBy, load_generation hd hc manualRefresh awaitedBy,
    load_loads inv hd hc manualRefresh awaitedBy⟩

theorem notifyStylesheetReset_keeps (m : MatchedStylesModel) (authority : StylesRevisionAuthority) :
    (m.notifyStylesheetReset authority).generation = m.generation ∧
      (m.notifyStylesheetReset authority).selection = m.selection ∧
      (m.notifyStylesheetReset authority).disposed = m.disposed ∧
      (m.notifyStylesheetReset authority).state = m.state := by
  obtain ⟨reset, hr⟩ := notifyStylesheetReset_eq m authority
  rw [hr]
  exact ⟨rfl, rfl, rfl, rfl⟩

theorem Consistent.notifyStylesheetReset (inv : Consistent m)
    (authority : StylesRevisionAuthority) : Consistent (m.notifyStylesheetReset authority) := by
  obtain ⟨reset, hr⟩ := notifyStylesheetReset_eq m authority
  rw [hr]
  exact ⟨⟨inv.loads, inv.sets, inv.aborted, inv.controller, inv.accepted⟩, inv.current⟩

theorem reloadPendingFloor_cases (inv : Consistent m) (hd : m.disposed = false)
    (hs : m.selection = some selection) (hc : created.usable = true) :
    (m.reloadPendingFloor m.generation selection created = (false, m) ∧
        ¬FloorPending m selection) ∨
      ∃ m', m.reloadPendingFloor m.generation selection created = (true, m') ∧
        LoadingInvariant m' ∧ Reloads m m' := by
  simp only [reloadPendingFloor]
  split
  · rename_i hf
    refine .inl ⟨rfl, fun hp => ?_⟩
    obtain ⟨floor, hfl, -⟩ := hp.floor
    rw [hf] at hfl
    cases hfl
  · rename_i floor hf
    have hi : Consistent { m with pendingReloadGeneration := none } :=
      ⟨⟨inv.loads, inv.sets, inv.aborted, inv.controller, inv.accepted⟩, inv.current⟩
    have hn := hi.notifyStylesheetReset floor
    obtain ⟨hg, hsel, hdis, -⟩ :=
      notifyStylesheetReset_keeps { m with pendingReloadGeneration := none } floor
    dsimp only at hg hsel hdis ⊢
    generalize MatchedStylesModel.notifyStylesheetReset _ floor = n at hn hg hsel hdis ⊢
    split
    · rename_i hp
      refine .inl ⟨rfl, fun hq => ?_⟩
      obtain ⟨floor', hfl, he⟩ := hq.floor
      rw [hf] at hfl
      cases hfl
      simp [hq.pending, he] at hp
    · rw [if_pos (by simp [hdis, hd, hg, hsel, hs])]
      obtain ⟨hl, hr⟩ := reload hn.toAccounted (hdis.trans hd) (hsel.trans hs) hc false none
      exact .inr ⟨_, rfl, hl, by rw [hr.generation, hg], hr.loads⟩

/-- A snapshot that is not loading needs nothing to wait for. -/
theorem publish_keeps {snapshot : MatchedStylesModelSnapshot} (inv : Consistent m)
    (hd : m.disposed = false) (hs : snapshot.state ≠ .loading) :
    LoadingInvariant (m.publish snapshot) := by
  simp only [publish, hd, Bool.false_eq_true, if_false]
  exact ⟨⟨⟨inv.loads, inv.sets, inv.aborted, inv.controller, inv.accepted⟩, inv.current⟩,
    .of_not_loading hs⟩

theorem publish_state (hd : m.disposed = false) (snapshot : MatchedStylesModelSnapshot) :
    (m.publish snapshot).state = snapshot := by
  simp [publish, hd]

theorem publishError_keeps (inv : Consistent m) (hd : m.disposed = false) (generation : ℕ)
    (key : SnapshotKey) (errorCode : StylesErrorCode) :
    LoadingInvariant (m.publishError generation key errorCode) :=
  publish_keeps ⟨⟨inv.loads, inv.sets, inv.aborted, inv.controller, inv.accepted⟩, inv.current⟩ hd
    nofun

/-- The model waits for the timer of the load that was cancelled. -/
theorem retryCancelledLoad_keeps (inv : Consistent m) (hs : m.selection = some selection)
    (errorCode : StylesErrorCode) :
    m.retryCancelledLoad m.generation selection errorCode = (false, m) ∨
      ∃ m', m.retryCancelledLoad m.generation selection errorCode = (true, m') ∧
        LoadingInvariant m' := by
  simp only [retryCancelledLoad]
  split
  · exact .inl rfl
  · refine .inr ⟨_, rfl, ?_, fun _ _ => .inr ?_⟩
    · exact ⟨⟨inv.loads, inv.sets, fun c hc => Nat.lt_succ_of_lt (inv.aborted c hc),
        fun c hc => Nat.lt_succ_of_lt (inv.controller c hc), inv.accepted⟩, inv.current⟩
    · exact ⟨_, List.mem_append_right _ List.mem_cons_self, rfl, hs⟩

/-- The end of a load that is no success: it is followed by another one if a floor is pending. -/
theorem publishLoadErrorOrReload_cases (inv : Consistent m) (hd : m.disposed = false)
    (hs : m.selection = some selection) (hc : created.usable = true)
    (errorCode : StylesErrorCode) :
    LoadingInvariant (m.publishLoadErrorOrReload m.generation selection errorCode created) ∧
      (FloorPending m selection →
        Reloads m (m.publishLoadErrorOrReload m.generation selection errorCode created)) := by
  simp only [publishLoadErrorOrReload]
  rcases reloadPendingFloor_cases inv hd hs hc with ⟨hf, hn⟩ | ⟨m', hf, hl, hr⟩
  · rw [hf]
    refine ⟨?_, fun hp => absurd hp hn⟩
    rcases retryCancelledLoad_keeps inv hs errorCode with ht | ⟨m', ht, hl⟩
    · simp only [ht]
      exact publishError_keeps inv hd _ _ _
    · simp only [ht]
      exact hl
  · rw [hf]
    exact ⟨hl, fun _ => hr⟩

theorem publishPseudoSetErrorOrReload_cases {task : PseudoSetTask} (inv : Consistent m)
    (hd : m.disposed = false) (hg : m.generation = task.generation)
    (hs : m.selection = some task.selection) (hc : created.usable = true)
    (errorCode : StylesErrorCode) :
    LoadingInvariant (m.publishPseudoSetErrorOrReload task errorCode created) ∧
      (FloorPending m task.selection →
        Reloads m (m.publishPseudoSetErrorOrReload task errorCode created)) := by
  simp only [publishPseudoSetErrorOrReload, ← hg]
  rcases reloadPendingFloor_cases inv hd hs hc with ⟨hf, hn⟩ | ⟨m', hf, hl, hr⟩
  · rw [hf]
    exact ⟨publishError_keeps inv hd _ _ _, fun hp => absurd hp hn⟩
  · rw [hf]
    exact ⟨hl, fun _ => hr⟩

/-! ## Responses -/

/-- The response is of the document its request asks about. -/
theorem documentEpoch_of_answered {request : StylesGetMatchedRequest}
    {response : StylesMatchedResponse} (h : request.answeredBy (.matched response) = true) :
    response.authority.documentEpoch = request.documentEpoch := by
  simp only [StylesGetMatchedRequest.answeredBy, Bool.and_eq_true, decide_eq_true_eq] at h
  exact h.1.1.1.1.2

theorem documentEpoch_of_set {request : StylesSetPseudoStatesRequest}
    {response : StylesPseudoStatesResponse}
    (h : request.answeredBy (.pseudoStates response) = true) :
    response.authority.documentEpoch = request.documentEpoch := by
  simp only [StylesSetPseudoStatesRequest.answeredBy, Bool.and_eq_true, decide_eq_true_eq] at h
  exact h.1.1.1.2

theorem Consistent.accept (inv : Consistent m) (hs : m.selection = some selection)
    {authority : StylesRevisionAuthority}
    (he : authority.documentEpoch = selection.identity.documentEpoch) :
    Consistent (m.accept selection.identity authority).2 := by
  refine ⟨⟨inv.loads, inv.sets, fun c hc => Nat.lt_succ_of_lt (inv.aborted c hc),
    fun c hc => Nat.lt_succ_of_lt (inv.controller c hc), ?_⟩, inv.current⟩
  intro key hk
  cases hk
  exact ⟨authority, selection, rfl, hs, he, le_refl _⟩

/-- The styles of a response are published, which ends the load. -/
theorem acceptMatched_cases {task : LoadTask} {response : StylesMatchedResponse}
    (inv : Consistent m) (hd : m.disposed = false) (hg : m.generation = task.generation)
    (hs : m.selection = some task.selection)
    (he : response.authority.documentEpoch = task.selection.identity.documentEpoch) :
    LoadingInvariant (m.acceptMatched task response) ∧
      (m.acceptMatched task response).state.hasStyles = true ∧
      (m.acceptMatched task response).revisionAuthority = some response.authority := by
  simp only [acceptMatched]
  have hi : Consistent { m with pendingReloadGeneration := none } :=
    ⟨⟨inv.loads, inv.sets, inv.aborted, inv.controller, inv.accepted⟩, inv.current⟩
  obtain ⟨reset, hr⟩ := notifyStylesheetReset_eq { m with pendingReloadGeneration := none }
    response.authority
  have hn := hi.notifyStylesheetReset response.authority
  rw [hr] at hn ⊢
  rw [if_neg (by simp [hd, hg, hs])]
  have ha := hn.accept hs he
  have hst : (if response.styles.isPartial = true then MatchedStylesModelState.partly
      else .ready) ≠ .loading := by
    split
    · exact fun h => by cases h
    · exact fun h => by cases h
  refine ⟨publish_keeps ⟨⟨ha.loads, ha.sets, ha.aborted, ha.controller, ha.accepted⟩, ha.current⟩
    hd hst, ?_, ?_⟩
  · simp only [publish, accept, newObject, hd, Bool.false_eq_true, if_false,
      MatchedStylesModelSnapshot.hasStyles]
    split
    · rfl
    · rfl
  · simp [publish, accept, newObject, hd]

/-- The styles of a response that meets the floor are published. -/
structure MeetsFloor (m m' : MatchedStylesModel) : Prop where
  styled : m'.state.hasStyles = true
  met : ∃ authority, m.meetsFloor authority = true ∧ m'.revisionAuthority = some authority

/-- What the end of a load or of a pseudo-state request leaves. -/
structure Ends (m m' : MatchedStylesModel) (selection : MatchedStylesModelSelection) : Prop where
  keeps : LoadingInvariant m'
  follows : FloorPending m selection → Reloads m m' ∨ MeetsFloor m m'

theorem loadSettled_cases {task : LoadTask} (inv : Consistent m)
    (hs : task.generation = m.generation → m.selection = some task.selection)
    (he : task.request.documentEpoch = task.selection.identity.documentEpoch)
    (hc : created.usable = true) (outcome : Option StylesResponse) :
    (m.isCurrent task.generation task.controller = false ∧
        m.loadSettled task outcome created = m) ∨
      m.selection = some task.selection ∧
        Ends m (m.loadSettled task outcome created) task.selection := by
  simp only [loadSettled]
  cases hcur : m.isCurrent task.generation task.controller with
  | false => exact .inl ⟨rfl, rfl⟩
  | true =>
    right
    rw [Bool.not_true, if_neg Bool.false_ne_true]
    simp only [isCurrent, Bool.and_eq_true, Bool.not_eq_true', decide_eq_true_eq] at hcur
    obtain ⟨⟨⟨hd, hg⟩, -⟩, -⟩ := hcur
    have hs := hs hg.symm
    refine ⟨hs, ?_⟩
    have hi : Consistent { m with controller := none } :=
      ⟨⟨inv.loads, inv.sets, inv.aborted, (fun _ h => by cases h), inv.accepted⟩, inv.current⟩
    have hfail (code) := publishLoadErrorOrReload_cases hi hd hs hc code
    rw [← hg]
    have hfail (code) : Ends m ({ m with controller := none }.publishLoadErrorOrReload m.generation
        task.selection code created) task.selection :=
      ⟨(hfail code).1, fun hp => .inl ⟨((hfail code).2 ⟨hp.pending, hp.floor⟩).generation,
        ((hfail code).2 ⟨hp.pending, hp.floor⟩).loads⟩⟩
    split
    · exact hfail _
    · split
      · exact hfail _
      · rename_i response hanswered
        split
        · exact hfail _
        · exact hfail _
        · split
          · exact hfail _
          · rename_i response hmeets
            simp only [Bool.not_eq_true', Bool.not_eq_false] at hanswered hmeets
            have hep := (documentEpoch_of_answered hanswered).trans he
            obtain ⟨hl, hst, ha⟩ := acceptMatched_cases hi hd hg hs hep
            exact ⟨hl, fun _ => .inr ⟨hst, _, hmeets, ha⟩⟩

theorem pseudoSetSettled_cases {task : PseudoSetTask} (inv : Consistent m)
    (he : task.request.documentEpoch = task.selection.identity.documentEpoch)
    (hc : created.usable = true) (outcome : Option StylesResponse) :
    (m.isPseudoSetCurrent task = false ∧ m.pseudoSetSettled task outcome created = m) ∨
      m.selection = some task.selection ∧
        Ends m (m.pseudoSetSettled task outcome created) task.selection := by
  simp only [pseudoSetSettled]
  cases hcur : m.isPseudoSetCurrent task with
  | false => exact .inl ⟨rfl, rfl⟩
  | true =>
    right
    rw [Bool.not_true, if_neg Bool.false_ne_true]
    simp only [isPseudoSetCurrent, isCurrent, Bool.and_eq_true, Bool.not_eq_true',
      decide_eq_true_eq] at hcur
    obtain ⟨⟨⟨⟨⟨⟨hd, hg⟩, -⟩, -⟩, -⟩, hs⟩, -⟩ := hcur
    refine ⟨hs, ?_⟩
    have hi : Consistent { m with controller := none } :=
      ⟨⟨inv.loads, inv.sets, inv.aborted, (fun _ h => by cases h), inv.accepted⟩, inv.current⟩
    have hfail (code) := publishPseudoSetErrorOrReload_cases hi hd hg hs hc code
    have hfail (code) : Ends m ({ m with controller := none }.publishPseudoSetErrorOrReload
        task code created) task.selection :=
      ⟨(hfail code).1, fun hp => .inl ⟨((hfail code).2 ⟨hp.pending, hp.floor⟩).generation,
        ((hfail code).2 ⟨hp.pending, hp.floor⟩).loads⟩⟩
    split
    · exact hfail _
    · split
      · exact hfail _
      · rename_i response hanswered
        split
        · exact hfail _
        · exact hfail _
        · split
          · exact hfail _
          · split
            · exact hfail _
            · rename_i response _ _
              simp only [Bool.not_eq_true', Bool.not_eq_false] at hanswered
              have hep := (documentEpoch_of_set hanswered).trans he
              have ha := hi.accept hs hep
              rw [if_pos (by simp [MatchedStylesModel.accept, newObject, hd, hg, hs])]
              obtain ⟨hl, hr⟩ := reload ha.toAccounted hd hs hc false none
              exact ⟨hl, fun _ => .inl ⟨hr.generation, hr.loads⟩⟩

/-! ## Pseudo states -/

theorem acceptedFor_eq_some {accepted : MatchedStylesModelKey}
    (h : m.acceptedFor selection = some accepted) :
    m.lastAcceptedKey = some accepted ∧ accepted.identity = selection.identity := by
  simpa [acceptedFor, Option.filter_eq_some_iff] using h

/-- What `sendPseudoStates` leaves behind. -/
theorem sendPseudoStates_eq {intent : PseudoIntent} {accepted : MatchedStylesModelKey}
    (inv : Consistent m) (hi : m.isPseudoIntentCurrent intent = true)
    (ha : m.lastAcceptedKey = some accepted) (hc : created.usable = true) :
    ∃ (request : StylesSetPseudoStatesRequest) (sequence : ℕ),
      request.documentEpoch = intent.selection.identity.documentEpoch ∧
      m.sendPseudoStates intent accepted created = { m with
        state := ⟨.loading, m.generation + 1, some (.key accepted), none, none⟩
        observed := .published ⟨.loading, m.generation + 1, some (.key accepted), none, none⟩
          m.selection :: m.observed
        controller := some m.nextObject
        aborted := m.controller.toList ++ m.aborted
        generation := m.generation + 1
        pendingReloadGeneration := none
        nextObject := m.nextObject + 1
        nextRequestSequence := sequence
        tasks := m.tasks ++ [.pseudoSet ⟨m.generation + 1, m.nextObject, intent.selection, accepted,
          intent.intentGeneration, request⟩] } := by
  simp only [isPseudoIntentCurrent, Bool.and_eq_true, Bool.not_eq_true', decide_eq_true_eq] at hi
  obtain ⟨⟨hd, hg⟩, hs⟩ := hi
  have hn := inv.not_aborted
  simp only [List.mem_append, not_or] at hn
  simp only [sendPseudoStates, publish, cancelCurrent, newObject, hd, Bool.false_eq_true, if_false]
  generalize hb : MatchedStylesModel.mk _ _ _ _ _ _ _ _ _ _ _ _ _ _ _ _ _ _ _ _ = b
  obtain ⟨requestId, sequence, hq⟩ := createRequestId_usable b hc
  rw [hq]
  subst hb
  refine ⟨_, sequence, ?_, if_neg ?_⟩
  · rfl
  · simp [isPseudoSetCurrent, isCurrent, hg, hs, ha, hn]

/-- A pseudo-state request of a new generation is sent, and its answer will be taken. -/
theorem sendPseudoStates_keeps {intent : PseudoIntent} {accepted : MatchedStylesModelKey}
    (inv : Consistent m) (hi : m.isPseudoIntentCurrent intent = true)
    (ha : m.lastAcceptedKey = some accepted) (hc : created.usable = true) :
    LoadingInvariant (m.sendPseudoStates intent accepted created) := by
  obtain ⟨request, sequence, hr, he⟩ := sendPseudoStates_eq inv hi ha hc
  simp only [isPseudoIntentCurrent, Bool.and_eq_true, Bool.not_eq_true', decide_eq_true_eq] at hi
  obtain ⟨⟨hd, hg⟩, hs⟩ := hi
  have hn := inv.not_aborted
  simp only [List.mem_append, not_or] at hn
  rw [he]
  refine ⟨⟨⟨?_, ?_, ?_, ?_, inv.accepted⟩, ?_⟩, fun _ _ => .inl (.inr ⟨_,
    List.mem_append_right _ List.mem_cons_self, ?_⟩)⟩
  · intro task hm
    rcases List.mem_append.mp hm with hm | hm
    · obtain ⟨hg, he⟩ := inv.loads task hm
      exact ⟨Nat.le_succ_of_le hg, he⟩
    · cases List.mem_singleton.mp hm
  · intro task hm
    rcases List.mem_append.mp hm with hm | hm
    · exact inv.sets task hm
    · cases List.mem_singleton.mp hm
      exact hr
  · exact inv.aborted_cancelled
  · intro c h
    cases h
    exact Nat.lt_succ_self _
  · intro task hm hg
    rcases List.mem_append.mp hm with hm | hm
    · have := (inv.loads task hm).1
      simp only at hg
      omega
    · cases List.mem_singleton.mp hm
  · simp [isPseudoSetCurrent, isCurrent, hd, hg, hs, ha, hn]

theorem Consistent.cancelCurrent (inv : Consistent m) : Consistent m.cancelCurrent := by
  refine ⟨⟨inv.loads, inv.sets, ?_, nofun, inv.accepted⟩, inv.current⟩
  intro c hm
  rcases List.mem_append.mp hm with hm | hm
  · exact inv.controller c (by simpa [eq_comm] using hm)
  · exact inv.aborted c hm

/-- The selection is the one of a new generation, in which nothing is in flight. -/
theorem Consistent.nextGeneration (inv : Consistent m)
    {current : Option MatchedStylesModelSelection}
    (h : current = m.selection ∨ m.lastAcceptedKey = none) :
    Consistent { m with generation := m.generation + 1, selection := current } := by
  refine ⟨⟨?_, inv.sets, inv.aborted, inv.controller, ?_⟩, ?_⟩
  · intro task hm
    obtain ⟨hg, he⟩ := inv.loads task hm
    exact ⟨Nat.le_succ_of_le hg, he⟩
  · intro key hk
    rcases h with h | h
    · subst h
      exact inv.accepted key hk
    · simp only [h] at hk
      cases hk
  · intro task hm hg
    have := (inv.loads task hm).1
    simp only at hg
    omega

/-- The intent is out of reconciliations. -/
structure GivesUp (m m' : MatchedStylesModel) (intent : PseudoIntent) : Prop where
  current : m.isPseudoIntentCurrent intent = true
  exhausted : maxPseudoIntentReconciliations ≤ intent.reconciliationCount
  error : m'.state.state = .error

/-- What an intent does that is the current one: it begins something, or it leaves a model that
does not load as it is. -/
theorem setPseudoStatesForIntent_cases {intent : PseudoIntent} (inv : Consistent m)
    (hi : m.isPseudoIntentCurrent intent = true)
    (ha : (m.acceptedFor intent.selection).isSome = true) (hc : created.usable = true) :
    LoadingInvariant (m.setPseudoStatesForIntent intent created) ∧
      (m.state.state = .loading →
        (∀ accepted, m.acceptedFor intent.selection = some accepted →
          m.acceptedBelowFloor intent.selection accepted = true) →
        Reloads m (m.setPseudoStatesForIntent intent created) ∨
          GivesUp m (m.setPseudoStatesForIntent intent created) intent) := by
  obtain ⟨accepted, ha⟩ := Option.isSome_iff_exists.mp ha
  have hcur := hi
  simp only [isPseudoIntentCurrent, Bool.and_eq_true, Bool.not_eq_true', decide_eq_true_eq] at hcur
  obtain ⟨⟨hd, -⟩, hs⟩ := hcur
  simp only [setPseudoStatesForIntent, hi, ha]
  rw [Bool.not_true, if_neg Bool.false_ne_true]
  split
  · rename_i hmax
    refine ⟨publish_keeps ?_ hd (fun h => by cases h), fun _ _ => .inr ⟨hi, hmax, ?_⟩⟩
    · have hn := inv.cancelCurrent.nextGeneration (.inl rfl)
      exact ⟨⟨hn.loads, hn.sets, hn.aborted, hn.controller, hn.accepted⟩, hn.current⟩
    · simp [publish, cancelCurrent, hd]
  · split
    · obtain ⟨hl, hr⟩ := reload inv.toAccounted hd hs hc false
        (some { intent with reconciliationCount := intent.reconciliationCount + 1 })
      exact ⟨hl, fun _ _ => .inl hr⟩
    · rename_i hbelow
      split
      · split
        · obtain ⟨hl, hr⟩ := reload inv.toAccounted hd hs hc false
            (some { intent with reconciliationCount := intent.reconciliationCount + 1 })
          exact ⟨hl, fun _ _ => .inl hr⟩
        · rename_i hst
          exact ⟨⟨inv, .of_not_loading hst⟩, fun h _ => absurd h hst⟩
      · refine ⟨sendPseudoStates_keeps inv hi (acceptedFor_eq_some ha).1 hc, fun _ hb => ?_⟩
        exact absurd (hb accepted rfl) hbelow

/-! ## An invalidation while loading -/

/-- The model loads, and has admitted an invalidation since this load began. -/
structure Owes (m : MatchedStylesModel) : Prop where
  live : m.disposed = false
  loading : m.state.state = .loading
  pending : m.pendingReloadGeneration = some m.generation
  /-- The floor is of the document of the selection, and ahead of the accepted key. -/
  floor : ∃ floor selection, m.revisionAuthority = some floor ∧ m.selection = some selection ∧
    floor.documentEpoch = selection.identity.documentEpoch ∧
    ∀ key, m.lastAcceptedKey = some key → key.authority.stylesRevision < floor.stylesRevision

theorem Owes.floorPending (h : Owes m) (hs : m.selection = some selection) :
    FloorPending m selection := by
  obtain ⟨floor, selection', hf, hs', he, -⟩ := h.floor
  rw [hs] at hs'
  cases hs'
  exact ⟨h.pending, floor, hf, he⟩

theorem not_meetsFloor_of_lt {a floor : StylesRevisionAuthority}
    (h : a.stylesRevision < floor.stylesRevision) : revisionPairMeetsFloor a floor = false := by
  by_contra hm
  have := (StylesRevisionAuthority.atLeast_of_meetsFloor (Bool.not_eq_false _ ▸ hm)).stylesRevision
  omega

/-- The accepted key does not meet the floor that was admitted. -/
theorem Owes.belowFloor (h : Owes m) (hs : m.selection = some selection)
    {accepted : MatchedStylesModelKey} (ha : m.acceptedFor selection = some accepted) :
    m.acceptedBelowFloor selection accepted = true := by
  obtain ⟨floor, selection', hf, hs', he, hlt⟩ := h.floor
  rw [hs] at hs'
  cases hs'
  have hn := not_meetsFloor_of_lt (hlt accepted (acceptedFor_eq_some ha).1)
  simp [acceptedBelowFloor, hf, he, hn]

/-- What a step makes of the reload the model owes. -/
inductive Followed (m : MatchedStylesModel) (action : Action) (m' : MatchedStylesModel) : Prop where
  /-- The load goes on. -/
  | owes (same : m'.generation = m.generation) (still : Owes m')
  /-- Another load begins. -/
  | reloads (another : Reloads m m')
  /-- The response meets the floor. -/
  | met (response : MeetsFloor m m')
  /-- There is no selection any more. -/
  | idle (state : m'.state.state = .idle)
  /-- An intent that is out of reconciliations cancels the load. -/
  | gaveUp (index : ℕ) (created : CreatedRequestId) (intent : PseudoIntent)
      (resumes : action = .resume index created) (waiting : m.tasks[index]? = some (.resume intent))
      (exhausted : maxPseudoIntentReconciliations ≤ intent.reconciliationCount)
      (error : m'.state.state = .error)

/-- What a step keeps, and what it makes of a reload the model owes. -/
structure StepOutcome (m : MatchedStylesModel) (action : Action) (m' : MatchedStylesModel) :
    Prop where
  keeps : LoadingInvariant m'
  followed : Owes m → Followed m action m'

theorem StepOutcome.unchanged {action : Action} (inv : LoadingInvariant m) :
    StepOutcome m action m :=
  ⟨inv, fun h => .owes rfl h⟩

theorem StepOutcome.of_reload {action : Action} (h : LoadingInvariant m' ∧ Reloads m m') :
    StepOutcome m action m' :=
  ⟨h.1, fun _ => .reloads h.2⟩

theorem refresh_outcome {action : Action} (inv : LoadingInvariant m) (hc : created.usable = true) :
    StepOutcome m action (m.refresh created) := by
  simp only [refresh]
  split
  · exact .unchanged inv
  · rename_i selection hs
    split
    · exact .unchanged inv
    · rename_i hd
      exact .of_reload (reload inv.consistent.toAccounted (Bool.not_eq_true _ ▸ hd) hs hc true none)

theorem runRetry_cases {timer : RetryTimer} (inv : Consistent m)
    (hc : created.usable = true) :
    ((m.disposed = true ∨ ¬(timer.generation = m.generation ∧ m.selection = some timer.selection)) ∧
        m.runRetry timer created = m) ∨
      LoadingInvariant (m.runRetry timer created) ∧ Reloads m (m.runRetry timer created) := by
  simp only [runRetry]
  split
  · rename_i h
    refine .inl ⟨?_, rfl⟩
    simp only [Bool.or_eq_true, decide_eq_true_eq] at h
    rcases h with (h | h) | h
    · exact .inl h
    · exact .inr fun hn => h hn.1.symm
    · exact .inr fun hn => h hn.2
  · rename_i h
    simp only [Bool.or_eq_true, decide_eq_true_eq, not_or, not_not, Bool.not_eq_true] at h
    exact .inr (reload inv.toAccounted h.1.1 h.2 hc false none)

theorem setPseudoStates_outcome {action : Action} {states : List PseudoState}
    (inv : LoadingInvariant m) (hc : created.usable = true) :
    StepOutcome m action (m.setPseudoStates states created) := by
  simp only [setPseudoStates]
  split
  · exact .unchanged inv
  · rename_i hd
    simp only [Bool.or_eq_true, not_or, Bool.not_eq_true] at hd
    split
    · exact .unchanged inv
    · rename_i selection hs
      split
      · exact .unchanged inv
      · rename_i ha
        have hi : Consistent { m with pseudoIntentGeneration := m.pseudoIntentGeneration + 1 } :=
          ⟨⟨inv.consistent.loads, inv.consistent.sets, inv.consistent.aborted,
            inv.consistent.controller, inv.consistent.accepted⟩, inv.consistent.current⟩
        have ha : (m.acceptedFor selection).isSome = true := by
          simpa only [Bool.not_eq_true, Option.isNone_eq_false_iff] using ha
        have hcur : isPseudoIntentCurrent
            { m with pseudoIntentGeneration := m.pseudoIntentGeneration + 1 }.cancelCurrent
            ⟨states, selection, m.pseudoIntentGeneration + 1, 0⟩ = true := by
          simp [isPseudoIntentCurrent, cancelCurrent, hd.1, hs]
        obtain ⟨hl, hr⟩ := setPseudoStatesForIntent_cases hi.cancelCurrent hcur ha hc
        refine ⟨hl, fun ho => ?_⟩
        have hbelow (accepted) (hacc : m.acceptedFor selection = some accepted) :
            m.acceptedBelowFloor selection accepted = true := ho.belowFloor hs hacc
        rcases hr ho.loading hbelow with hr | hr
        · exact .reloads ⟨hr.generation, hr.loads⟩
        · exact absurd hr.exhausted (by simp [maxPseudoIntentReconciliations])

theorem select_outcome {action : Action} {identity : SelectionIdentity} (inv : LoadingInvariant m)
    (hc : created.usable = true) : StepOutcome m action (m.select identity created) := by
  simp only [select]
  split
  · exact .unchanged inv
  · rename_i hd
    simp only [Bool.or_eq_true, not_or, Bool.not_eq_true] at hd
    have ha (c) (h : c ∈ m.aborted) : c < m.nextObject + 1 :=
      Nat.lt_succ_of_lt (inv.consistent.aborted c h)
    have hctl (c) (h : m.controller = some c) : c < m.nextObject + 1 :=
      Nat.lt_succ_of_lt (inv.consistent.controller c h)
    split
    · exact ⟨⟨⟨⟨inv.consistent.loads, inv.consistent.sets, ha, hctl, inv.consistent.accepted⟩,
        inv.consistent.current⟩, inv.attended⟩,
        fun ho => .owes rfl ⟨ho.live, ho.loading, ho.pending, ho.floor⟩⟩
    · -- the accepted key stays only if it is of the document that is selected
      have hd := hd.1
      split
      · have hi : Accounted { m.newObject.2.clearRevisionAuthority with
            selection := some ⟨m.nextObject, identity⟩ } :=
          ⟨inv.consistent.loads, inv.consistent.sets, ha, hctl, (fun _ h => by cases h)⟩
        obtain ⟨hl, hr⟩ := reload hi hd rfl hc false none
        exact .of_reload ⟨hl, hr.generation, hr.loads⟩
      · rename_i hsame
        have hi : Accounted { m.newObject.2 with selection := some ⟨m.nextObject, identity⟩ } := by
          refine ⟨inv.consistent.loads, inv.consistent.sets, ha, hctl, ?_⟩
          intro key hk
          obtain ⟨floor, selection, hf, -, -, hle⟩ := inv.consistent.accepted key hk
          refine ⟨floor, _, hf, rfl, ?_, hle⟩
          simp only [newObject, hf, Option.any_some, Bool.or_eq_true, not_or, decide_eq_true_eq,
            not_not] at hsame
          exact hsame.2
        obtain ⟨hl, hr⟩ := reload hi hd rfl hc false none
        exact .of_reload ⟨hl, hr.generation, hr.loads⟩

/-- An invalidation that is admitted is of the document of the selection, and newer than the floor
of that document. -/
theorem newer_of_admitted {event floor : StylesRevisionAuthority}
    (ha : m.refusesInvalidation event = false) (hf : m.revisionAuthority = some floor)
    (hs : m.selection = some selection)
    (he : floor.documentEpoch = selection.identity.documentEpoch) :
    event.documentEpoch = selection.identity.documentEpoch ∧
      floor.stylesRevision < event.stylesRevision := by
  simp only [refusesInvalidation, hf, hs, Option.any_some, Bool.or_eq_false_iff,
    Bool.and_eq_false_iff, decide_eq_false_iff_not, not_not, Bool.not_eq_false'] at ha
  obtain ⟨hep, -, hstrict⟩ := ha
  rcases hstrict with hne | hstrict
  · exact absurd (hep.trans he.symm) hne
  · simp only [strictlyNewerRevisionPair, Bool.and_eq_true, decide_eq_true_eq] at hstrict
    exact ⟨hep, hstrict.1.1.1⟩

theorem invalidate_outcome {action : Action} {event : StylesRevisionAuthority}
    (inv : LoadingInvariant m) : StepOutcome m action (m.invalidate event) := by
  simp only [invalidate]
  split
  · exact .unchanged inv
  · rename_i hguard
    simp only [Bool.or_eq_true, not_or, Bool.not_eq_true] at hguard
    have hnewer (floor selection) (hf : m.revisionAuthority = some floor)
        (hs : m.selection = some selection)
        (he : floor.documentEpoch = selection.identity.documentEpoch) :=
      newer_of_admitted hguard.2 hf hs he
    have hi : Consistent { m with revisionAuthority := some event } := by
      refine ⟨⟨inv.consistent.loads, inv.consistent.sets, inv.consistent.aborted,
        inv.consistent.controller, ?_⟩, inv.consistent.current⟩
      intro key hk
      obtain ⟨floor, selection, hf, hs, he, hle⟩ := inv.consistent.accepted key hk
      obtain ⟨hep, hlt⟩ := hnewer floor selection hf hs he
      exact ⟨event, selection, rfl, hs, hep, hle.trans hlt.le⟩
    have hi := Consistent.toAccounted hi
    have hcur := inv.consistent.current
    split
    · rename_i hnone
      refine ⟨⟨⟨⟨hi.loads, hi.sets, hi.aborted, hi.controller, hi.accepted⟩, hcur⟩, inv.attended⟩,
        fun ho => ?_⟩
      obtain ⟨_, _, -, hs, -⟩ := ho.floor
      simp [hs] at hnone
    · split
      · refine ⟨⟨⟨⟨hi.loads, hi.sets, hi.aborted, hi.controller, hi.accepted⟩, hcur⟩, inv.attended⟩,
          fun ho => .owes rfl ⟨ho.live, ho.loading, rfl, ?_⟩⟩
        obtain ⟨floor, selection, hf, hs, he, hlt⟩ := ho.floor
        obtain ⟨hep, hnew⟩ := hnewer floor selection hf hs he
        exact ⟨event, selection, rfl, hs, hep, fun key hk => (hlt key hk).trans hnew⟩
      · rename_i hst
        split
        · exact ⟨⟨⟨⟨hi.loads, hi.sets, hi.aborted, hi.controller, hi.accepted⟩, hcur⟩,
            inv.attended⟩, fun ho => absurd ho.loading hst⟩
        · exact ⟨⟨⟨⟨hi.loads, hi.sets, hi.aborted, hi.controller, hi.accepted⟩, hcur⟩,
            inv.attended⟩, fun ho => absurd ho.loading hst⟩

theorem reset_outcome {action : Action} (inv : LoadingInvariant m) :
    StepOutcome m action m.reset := by
  simp only [reset]
  split
  · exact .unchanged inv
  · rename_i hd
    have hd : m.disposed = false := Bool.not_eq_true _ ▸ hd
    have hi := inv.consistent.cancelCurrent
    have hi : Consistent { m.cancelCurrent with
        generation := m.generation + 1, selection := none }.clearRevisionAuthority := by
      refine ⟨⟨fun task hm => ?_, hi.sets, hi.aborted, hi.controller, (fun _ h => by cases h)⟩,
        fun task hm hg => ?_⟩
      · exact ⟨Nat.le_succ_of_le (hi.loads task hm).1, (hi.loads task hm).2⟩
      · have := (hi.loads task hm).1
        simp only [clearRevisionAuthority, MatchedStylesModel.cancelCurrent] at hg this
        omega
    refine ⟨publish_keeps hi hd (fun h => by cases h), fun _ => .idle ?_⟩
    simp [publish, idle, clearRevisionAuthority, cancelCurrent, hd]

theorem dispose_outcome {action : Action} (inv : LoadingInvariant m) :
    StepOutcome m action m.dispose := by
  simp only [dispose]
  split
  · exact .unchanged inv
  · have hi := inv.consistent.cancelCurrent
    refine ⟨⟨⟨⟨fun task hm => ?_, hi.sets, hi.aborted, hi.controller, (fun _ h => by cases h)⟩,
      fun task hm hg => ?_⟩, fun hd => ?_⟩, fun _ => .idle rfl⟩
    · exact ⟨Nat.le_succ_of_le (hi.loads task hm).1, (hi.loads task hm).2⟩
    · have := (hi.loads task hm).1
      simp only [clearRevisionAuthority, MatchedStylesModel.cancelCurrent] at hg this
      omega
    · cases hd

/-! ## What waits -/

theorem mem_eraseIdx_of_ne {α : Type*} {l : List α} {index : ℕ} {a : α} (hm : a ∈ l)
    (hn : l[index]? ≠ some a) : a ∈ l.eraseIdx index := by
  obtain ⟨i, hi⟩ := List.mem_iff_getElem?.mp hm
  refine List.mem_eraseIdx_iff_getElem?.mpr ⟨i, fun h => ?_, hi⟩
  subst h
  exact hn hi

theorem Consistent.erase (inv : Consistent m) (index : ℕ) :
    Consistent { m with tasks := m.tasks.eraseIdx index } :=
  ⟨⟨fun task hm => inv.loads task (List.mem_of_mem_eraseIdx hm),
    fun task hm => inv.sets task (List.mem_of_mem_eraseIdx hm), inv.aborted, inv.controller,
    inv.accepted⟩, fun task hm => inv.current task (List.mem_of_mem_eraseIdx hm)⟩

/-- The answer of the task is taken when it comes. -/
def awaits (m : MatchedStylesModel) : Task → Bool
  | .load task => m.isCurrent task.generation task.controller
  | .pseudoSet task => m.isPseudoSetCurrent task
  | .resume _ => false

theorem outstanding_iff : Outstanding m ↔ ∃ task ∈ m.tasks, m.awaits task = true := by
  constructor
  · rintro (⟨task, hm, hc⟩ | ⟨task, hm, hc⟩)
    · exact ⟨_, hm, hc⟩
    · exact ⟨_, hm, hc⟩
  · rintro ⟨task, hm, hc⟩
    cases task with
    | load task => exact .inl ⟨task, hm, hc⟩
    | pseudoSet task => exact .inr ⟨task, hm, hc⟩
    | resume intent => cases hc

/-- A task whose answer is not taken can go. -/
theorem LoadingInvariant.erase {task : Task} {index : ℕ} (inv : LoadingInvariant m)
    (hw : m.tasks[index]? = some task) (hn : m.awaits task = false) :
    LoadingInvariant { m with tasks := m.tasks.eraseIdx index } := by
  refine ⟨inv.consistent.erase index, fun hd hst => ?_⟩
  rcases inv.attended hd hst with ho | ht
  · obtain ⟨other, hm, hc⟩ := outstanding_iff.mp ho
    refine .inl (outstanding_iff.mpr ⟨other, mem_eraseIdx_of_ne hm fun h => ?_, ?_⟩)
    · rw [hw] at h
      cases h
      rw [hn] at hc
      cases hc
    · cases other with
      | load task => exact hc
      | pseudoSet task => exact hc
      | resume intent => cases hc
  · exact .inr ht

/-- An intent that goes on finds itself replaced, or begins something. -/
theorem resume_outcome {index : ℕ} {intent : PseudoIntent} (inv : LoadingInvariant m)
    (hc : created.usable = true) (hw : m.tasks[index]? = some (.resume intent)) :
    StepOutcome m (.resume index created)
      ({ m with tasks := m.tasks.eraseIdx index }.setPseudoStatesForIntent intent created) := by
  have hr := inv.erase hw rfl
  have hunchanged : StepOutcome m (.resume index created)
      { m with tasks := m.tasks.eraseIdx index } :=
    ⟨hr, fun ho => .owes rfl ⟨ho.live, ho.loading, ho.pending, ho.floor⟩⟩
  by_cases hi : isPseudoIntentCurrent { m with tasks := m.tasks.eraseIdx index } intent = true
  · by_cases ha : (m.acceptedFor intent.selection).isSome = true
    · obtain ⟨hl, hf⟩ := setPseudoStatesForIntent_cases hr.consistent hi ha hc
      refine ⟨hl, fun ho => ?_⟩
      have hs : m.selection = some intent.selection := by
        simp only [isPseudoIntentCurrent, Bool.and_eq_true, decide_eq_true_eq] at hi
        exact hi.2
      rcases hf ho.loading fun accepted hacc => ho.belowFloor hs hacc with hf | hf
      · exact .reloads ⟨hf.generation, hf.loads⟩
      · exact .gaveUp index created intent rfl hw hf.exhausted hf.error
    · have ha : m.acceptedFor intent.selection = none := by
        simpa only [Bool.not_eq_true, Option.isSome_eq_false_iff, Option.isNone_iff_eq_none] using ha
      have ha : acceptedFor { m with tasks := m.tasks.eraseIdx index } intent.selection = none := ha
      simpa only [setPseudoStatesForIntent, hi, ha, Bool.not_true, Bool.false_eq_true, if_false]
        using hunchanged
  · simpa only [setPseudoStatesForIntent, Bool.not_eq_true _ ▸ hi, Bool.not_false, if_true]
      using hunchanged

/-- The intents that awaited the load wait for their turn. -/
theorem LoadingInvariant.resumeLater (inv : LoadingInvariant m)
    (awaitedBy : Option PseudoIntent) : LoadingInvariant (m.resumeLater awaitedBy) := by
  have hload (task) (hm : .load task ∈ m.tasks ++ awaitedBy.toList.map Task.resume) :
      .load task ∈ m.tasks := by
    rcases List.mem_append.mp hm with hm | hm
    · exact hm
    · obtain ⟨_, -, h⟩ := List.mem_map.mp hm
      cases h
  have hset (task) (hm : .pseudoSet task ∈ m.tasks ++ awaitedBy.toList.map Task.resume) :
      .pseudoSet task ∈ m.tasks := by
    rcases List.mem_append.mp hm with hm | hm
    · exact hm
    · obtain ⟨_, -, h⟩ := List.mem_map.mp hm
      cases h
  refine ⟨⟨⟨fun task hm => inv.consistent.loads task (hload task hm),
    fun task hm => inv.consistent.sets task (hset task hm), inv.consistent.aborted,
    inv.consistent.controller, inv.consistent.accepted⟩,
    fun task hm => inv.consistent.current task (hload task hm)⟩, fun hd hst => ?_⟩
  rcases inv.attended hd hst with (⟨task, hm, hc⟩ | ⟨task, hm, hc⟩) | ht
  · exact .inl (.inl ⟨task, List.mem_append_left _ hm, hc⟩)
  · exact .inl (.inr ⟨task, List.mem_append_left _ hm, hc⟩)
  · exact .inr ht

theorem settleLoad_outcome {index : ℕ} {task : LoadTask} {action : Action}
    (inv : LoadingInvariant m) (hc : created.usable = true)
    (hw : m.tasks[index]? = some (.load task)) (outcome : Option StylesResponse) :
    StepOutcome m action (({ m with tasks := m.tasks.eraseIdx index }.loadSettled task outcome
      created).resumeLater task.awaitedBy) := by
  have hm : .load task ∈ m.tasks := List.mem_of_getElem? hw
  have he := inv.consistent.erase index
  rcases loadSettled_cases he (fun hg => inv.consistent.current task hm hg)
    (inv.consistent.loads task hm).2 hc outcome with ⟨hcur, hs⟩ | ⟨hs, hends⟩
  · rw [hs]
    exact ⟨(inv.erase hw hcur).resumeLater _,
      fun ho => .owes rfl ⟨ho.live, ho.loading, ho.pending, ho.floor⟩⟩
  · refine ⟨hends.keeps.resumeLater _, fun ho => ?_⟩
    have hp := ho.floorPending hs
    rcases hends.follows ⟨hp.pending, hp.floor⟩ with ⟨hg, hst, other, hm, hcur⟩ | hmet
    · exact .reloads ⟨hg, hst, other, List.mem_append_left _ hm, hcur⟩
    · exact .met ⟨hmet.styled, hmet.met⟩

theorem settlePseudoSet_outcome {index : ℕ} {task : PseudoSetTask} {action : Action}
    (inv : LoadingInvariant m) (hc : created.usable = true)
    (hw : m.tasks[index]? = some (.pseudoSet task)) (outcome : Option StylesResponse) :
    StepOutcome m action ({ m with tasks := m.tasks.eraseIdx index }.pseudoSetSettled task outcome
      created) := by
  have hm : .pseudoSet task ∈ m.tasks := List.mem_of_getElem? hw
  have he := inv.consistent.erase index
  rcases pseudoSetSettled_cases he (inv.consistent.sets task hm) hc outcome with
    ⟨hcur, hs⟩ | ⟨hs, hends⟩
  · rw [hs]
    exact ⟨inv.erase hw hcur, fun ho => .owes rfl ⟨ho.live, ho.loading, ho.pending, ho.floor⟩⟩
  · refine ⟨hends.keeps, fun ho => ?_⟩
    have hp := ho.floorPending hs
    rcases hends.follows ⟨hp.pending, hp.floor⟩ with hr | hmet
    · exact .reloads ⟨hr.generation, hr.loads⟩
    · exact .met ⟨hmet.styled, hmet.met⟩

/-- The queued callback of an invalidation. -/
theorem microtask_outcome {action : Action} {generation index : ℕ} (inv : LoadingInvariant m)
    (hc : created.usable = true) :
    StepOutcome m action ({ m with microtasks := m.microtasks.eraseIdx index }.runInvalidation
      generation created) := by
  have hi : Consistent { m with
      microtasks := m.microtasks.eraseIdx index
      invalidationQueued := false
      pendingInvalidation := none } :=
    ⟨⟨inv.consistent.loads, inv.consistent.sets, inv.consistent.aborted, inv.consistent.controller,
      inv.consistent.accepted⟩, inv.consistent.current⟩
  have hunchanged : StepOutcome m action { m with
      microtasks := m.microtasks.eraseIdx index
      invalidationQueued := false
      pendingInvalidation := none } :=
    ⟨⟨hi, inv.attended⟩, fun ho => .owes rfl ⟨ho.live, ho.loading, ho.pending, ho.floor⟩⟩
  simp only [runInvalidation]
  split
  · exact hunchanged
  · rename_i hlive
    simp only [Bool.or_eq_true, not_or, Bool.not_eq_true, decide_eq_true_eq] at hlive
    split
    · rename_i latest selection _ hs
      split
      · exact hunchanged
      · have hn := hi.notifyStylesheetReset latest
        obtain ⟨hg, hsel, hdis, -⟩ := notifyStylesheetReset_keeps { m with
          microtasks := m.microtasks.eraseIdx index
          invalidationQueued := false
          pendingInvalidation := none } latest
        generalize MatchedStylesModel.notifyStylesheetReset _ latest = n at hn hg hsel hdis ⊢
        rw [if_neg (by simp [hdis, hlive.1, hg, hsel, hs, hlive.2])]
        obtain ⟨hl, hr⟩ := reload hn.toAccounted (hdis.trans hlive.1) (hsel.trans hs) hc false none
        exact .of_reload ⟨hl, by rw [hr.generation, hg], hr.loads⟩
    · exact hunchanged

theorem timer_outcome {action : Action} {index : ℕ} {timer : RetryTimer}
    (inv : LoadingInvariant m) (hc : created.usable = true)
    (hw : m.cancelledRetryTimers[index]? = some timer) :
    StepOutcome m action ({ m with
      cancelledRetryTimers := m.cancelledRetryTimers.eraseIdx index }.runRetry timer created) := by
  have hi : Consistent { m with
      cancelledRetryTimers := m.cancelledRetryTimers.eraseIdx index } :=
    ⟨⟨inv.consistent.loads, inv.consistent.sets, inv.consistent.aborted, inv.consistent.controller,
      inv.consistent.accepted⟩, inv.consistent.current⟩
  have hcases := @runRetry_cases _ created timer hi hc
  rcases hcases with ⟨hn, he⟩ | ⟨hl, hr⟩
  · rw [he]
    refine ⟨⟨hi, fun hd hst => ?_⟩,
      fun ho => .owes rfl ⟨ho.live, ho.loading, ho.pending, ho.floor⟩⟩
    -- another timer is the one that is waited for
    rcases inv.attended hd hst with ho | ⟨other, hm, hg⟩
    · exact .inl ho
    · refine .inr ⟨other, mem_eraseIdx_of_ne hm fun h => ?_, hg⟩
      rw [hw] at h
      cases h
      rcases hn with hn | hn
      · have hd : m.disposed = false := hd
        have hn : m.disposed = true := hn
        rw [hd] at hn
        cases hn
      · exact hn hg
  · exact ⟨hl, fun _ => .reloads ⟨hr.generation, hr.loads⟩⟩

/-- The step lemma. -/
theorem apply_outcome {action : Action} (inv : LoadingInvariant m) (hu : action.usable = true)
    (h : m.apply action = some m') : StepOutcome m action m' := by
  cases action with
  | select identity created => cases h; exact select_outcome inv hu
  | refresh created => cases h; exact refresh_outcome inv hu
  | setPseudoStates states created => cases h; exact setPseudoStates_outcome inv hu
  | invalidate event => cases h; exact invalidate_outcome inv
  | reset => cases h; exact reset_outcome inv
  | dispose => cases h; exact dispose_outcome inv
  | settle index outcome created =>
    simp only [MatchedStylesModel.apply] at h
    split at h
    · rename_i hw
      cases h
      exact settleLoad_outcome inv hu hw outcome
    · rename_i hw
      cases h
      exact settlePseudoSet_outcome inv hu hw outcome
    · cases h
  | resume index created =>
    simp only [MatchedStylesModel.apply] at h
    split at h
    · rename_i hw
      cases h
      exact resume_outcome inv hu hw
    · cases h
  | microtask index created =>
    simp only [MatchedStylesModel.apply] at h
    split at h
    · cases h
      exact microtask_outcome inv hu
    · cases h
  | timer index created =>
    simp only [MatchedStylesModel.apply] at h
    split at h
    · rename_i hw
      cases h
      exact timer_outcome inv hu hw
    · cases h

/-! ## Runs -/

theorem LoadingInvariant.start : LoadingInvariant initial := by
  refine ⟨⟨⟨?_, ?_, ?_, ?_, ?_⟩, ?_⟩, .of_not_loading (by decide)⟩
  · intro task hm
    cases hm
  · intro task hm
    cases hm
  · intro c hm
    cases hm
  · intro c hc
    cases hc
  · intro key hk
    cases hk
  · intro task hm
    cases hm

/-- Request ids come of every step. -/
def Usable (h : Trace) : Prop := ∀ t ∈ h, t.event.usable = true

/-- The run lemma. -/
theorem LoadingInvariant.of_run {s₀ : MatchedStylesModel} {h : Trace} (inv : LoadingInvariant s₀)
    (run : Run Step s₀ h m) (hu : Usable h) : LoadingInvariant m := by
  induction run with
  | start => exact inv
  | next run hs ih =>
    have hprev := ih fun t ht => hu t (List.mem_cons_of_mem _ ht)
    exact (apply_outcome hprev (hu _ List.mem_cons_self) hs).keeps

/-- The load of `m` goes on in every state of the history. -/
def GoesOn (m : MatchedStylesModel) (h : Trace) : Prop :=
  ∀ t ∈ h, t.post.generation = m.generation ∧ t.post.state.state = .loading

/-- While the load goes on, the reload it owes stays owed. -/
theorem Owes.of_run {s₀ : MatchedStylesModel} {h : Trace} (inv : LoadingInvariant s₀)
    (ho : Owes s₀) (run : Run Step s₀ h m) (hu : Usable h) (hg : GoesOn s₀ h) :
    Owes m ∧ m.generation = s₀.generation := by
  induction run with
  | start => exact ⟨ho, rfl⟩
  | next run hs ih =>
    have hu' : Usable _ := fun t ht => hu t (List.mem_cons_of_mem _ ht)
    obtain ⟨hprev, hsame⟩ := ih hu' fun t ht => hg t (List.mem_cons_of_mem _ ht)
    obtain ⟨hgen, hst⟩ := hg _ List.mem_cons_self
    dsimp only at hgen hst
    have hout := apply_outcome (inv.of_run run hu') (hu _ List.mem_cons_self) hs
    rcases hout.followed hprev with
      ⟨_, hstill⟩ | ⟨hnext, -⟩ | hmet | hidle | ⟨_, _, _, _, _, _, herr⟩
    · exact ⟨hstill, hgen⟩
    · omega
    · have := hmet.styled
      simp [MatchedStylesModelSnapshot.hasStyles, hst] at this
    · rw [hst] at hidle
      cases hidle
    · rw [hst] at herr
      cases herr

/-- A live model that loads has a selection. -/
theorem LoadingInvariant.selected (inv : LoadingInvariant m) (hd : m.disposed = false)
    (hst : m.state.state = .loading) : ∃ selection, m.selection = some selection := by
  rcases inv.attended hd hst with (⟨task, hm, hc⟩ | ⟨task, hm, hc⟩) | ⟨timer, -, -, hs⟩
  · simp only [isCurrent, Bool.and_eq_true, decide_eq_true_eq] at hc
    exact ⟨_, inv.consistent.current task hm hc.1.1.2.symm⟩
  · simp only [isPseudoSetCurrent, Bool.and_eq_true, decide_eq_true_eq] at hc
    exact ⟨_, hc.1.2⟩
  · exact ⟨_, hs⟩

/-- An invalidation that is admitted while loading makes the model owe a reload. -/
theorem invalidate_owes {event : StylesRevisionAuthority} (inv : LoadingInvariant m)
    (hd : m.disposed = false) (hst : m.state.state = .loading)
    (ha : m.refusesInvalidation event = false) :
    Owes (m.invalidate event) ∧ (m.invalidate event).generation = m.generation := by
  obtain ⟨selection, hs⟩ := inv.selected hd hst
  have hep : event.documentEpoch = selection.identity.documentEpoch := by
    simp only [refusesInvalidation, hs, Option.any_some, Bool.or_eq_false_iff,
      decide_eq_false_iff_not, not_not] at ha
    exact ha.1
  simp only [invalidate, hd, ha, hs, hst, Bool.false_or, Bool.false_eq_true, if_false, if_true,
    Option.isNone_some]
  refine ⟨⟨rfl, hst, rfl, event, selection, rfl, rfl, hep, fun key hk => ?_⟩, trivial⟩
  obtain ⟨floor, selection', hf, hs', he, hle⟩ := inv.consistent.accepted key hk
  exact hle.trans_lt (newer_of_admitted ha hf hs' he).2

/-- Whatever ends a load in which an invalidation was admitted: if the response does not meet the
floor, another load begins, unless the model is reset or an intent gives up. -/
def FollowsUp (m : MatchedStylesModel) : Prop :=
  ∀ (event : StylesRevisionAuthority) (m₁ m₂ m₃ : MatchedStylesModel) (h : Trace) (action : Action),
    m.disposed = false → m.state.state = .loading → m.refusesInvalidation event = false →
    Step m (.invalidate event) m₁ → Run Step m₁ h m₂ → Usable h → GoesOn m₁ h →
    Step m₂ action m₃ → action.usable = true → Followed m₂ action m₃

theorem neverStuckLoading {h : Trace} (run : Run Step initial h m) (hu : Usable h) :
    Attended m ∧ FollowsUp m := by
  have inv := LoadingInvariant.of_run .start run hu
  refine ⟨inv.attended, ?_⟩
  intro event m₁ m₂ m₃ h' action hd hst ha hadmit run' hu' hg hs hact
  have hi : LoadingInvariant (m.invalidate event) :=
    (@invalidate_outcome _ (.invalidate event) event inv).keeps
  obtain ⟨ho, -⟩ := invalidate_owes inv hd hst ha
  cases hadmit
  have hlast := (ho.of_run hi run' hu' hg).1
  exact (apply_outcome (hi.of_run run' hu') hact hs).followed hlast

/-- A first load, in which an invalidation is admitted that its response does not meet. -/
def sampleLoading : MatchedStylesModel := initial.select ⟨1, "node", 0⟩ (.given "a")

def sampleEvent : StylesRevisionAuthority := ⟨1, 2, 1, 0, []⟩

def sampleSettle : Action :=
  .settle 0 (some (.matched ⟨"a", "node", 0, ⟨1, 1, 1, 0, []⟩, ⟨false⟩⟩)) .missing

theorem neverStuckLoading_sample :
    ∃ m, (sampleLoading.invalidate sampleEvent).apply sampleSettle = some m ∧ m.generation = 2 ∧
      Attended sampleLoading ∧ Followed (sampleLoading.invalidate sampleEvent) sampleSettle m := by
  have hm : ∃ m, (sampleLoading.invalidate sampleEvent).apply sampleSettle = some m ∧
      m.generation = 2 := by
    refine ⟨((sampleLoading.invalidate sampleEvent).apply sampleSettle).get (by decide +kernel),
      (Option.some_get _).symm, ?_⟩
    decide +kernel
  obtain ⟨m, hm, hg⟩ := hm
  have hselect : Step initial (.select ⟨1, "node", 0⟩ (.given "a")) sampleLoading := rfl
  have hu : Usable [⟨initial, .select ⟨1, "node", 0⟩ (.given "a"), sampleLoading⟩] := by
    intro t ht
    cases List.mem_singleton.mp ht
    decide
  obtain ⟨hattended, hfollows⟩ := neverStuckLoading (Run.start.next hselect) hu
  refine ⟨m, hm, hg, hattended, ?_⟩
  have hd : sampleLoading.disposed = false := by decide +kernel
  have hst : sampleLoading.state.state = .loading := by decide +kernel
  have ha : sampleLoading.refusesInvalidation sampleEvent = false := by decide +kernel
  have hu : sampleSettle.usable = true := by decide
  refine hfollows sampleEvent (sampleLoading.invalidate sampleEvent) _ m [] sampleSettle hd hst ha
    ?_ .start ?_ ?_ hm hu
  · exact Eq.refl _
  · intro t ht
    cases ht
  · intro t ht
    cases ht

/-- Eight loads of an intent fail; during a refresh an invalidation is admitted, and the end of the
eighth load lets the intent go on. -/
def exhaustingActions : List Action :=
  [.select ⟨1, "node", 0⟩ .missing,
    .settle 0 (some (.matched ⟨"styles-model-1", "node", 0, ⟨1, 1, 1, 0, []⟩, ⟨false⟩⟩)) .missing,
    .refresh .missing,
    .invalidate ⟨1, 2, 1, 0, []⟩,
    .setPseudoStates [.hover] .missing] ++
  (List.replicate 7 [Action.settle 1 none .missing, .resume 1 .missing]).flatten ++
  [.refresh .missing, .invalidate ⟨1, 3, 1, 0, []⟩]

/-- The refresh that admitted an invalidation ends with an error, and nothing follows. -/
theorem neverStuckLoading_givesUp :
    ∃ m m', exhaustingActions.foldlM apply initial = some m ∧
      m.state.state = .loading ∧ m.pendingReloadGeneration = some m.generation ∧
      m.revisionAuthority = some ⟨1, 3, 1, 0, []⟩ ∧
      [Action.settle 1 none .missing, .resume 2 .missing].foldlM apply m = some m' ∧
      m'.state.state = .error ∧ m'.revisionAuthority = some ⟨1, 3, 1, 0, []⟩ ∧
      m'.lastAcceptedKey.map (·.authority) = some ⟨1, 1, 1, 0, []⟩ ∧
      (m'.tasks.all fun task => !m'.awaits task) = true ∧ m'.cancelledRetryTimers = [] ∧
      m'.microtasks = [] := by
  refine ⟨(exhaustingActions.foldlM apply initial).get (by decide +kernel),
    ((exhaustingActions ++
      [Action.settle 1 none .missing, .resume 2 .missing]).foldlM apply initial).get
      (by decide +kernel), (Option.some_get _).symm, ?_⟩
  decide +kernel

end MatchedStylesModel

end PinOp.Browser
