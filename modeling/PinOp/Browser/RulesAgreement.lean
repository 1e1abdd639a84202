import PinOp.Bridge.RegistryWrites
import PinOp.Browser.CorrelationAuthority
import PinOp.Browser.RulesSourcesController

/-!
# The bridge, the browser and the panel on rules publications

Three parties accept what an IDE publishes about the rules of an inspect: the bridge by its route,
the browser by its correlation, the panel by what it expects. A message is handed to the bridge,
and on to the other two when the bridge has delivered and committed it. They always agree on what
was published last.
-/

namespace PinOp.Browser

open PinOp.Lib PinOp.Protocol PinOp.Bridge

structure RulesSystem where
  bridge : ReplyRouteRegistry
  store : InspectCorrelationStore
  panel : RulesSourcesController

/-- A message of the IDE, where its rules come from, and whether it can be delivered. -/
structure RulesArrival where
  message : RulesSourcesMessage
  originOf : String → RuleOrigin
  delivered : Bool

namespace RulesSystem

variable (ideConnectionId : String) (peerContext : PeerContext)

def prepare (s : RulesSystem) (a : RulesArrival) : Option RulesSourcesPreparation :=
  s.bridge.prepareRulesSources ⟨a.message.sessionId, a.message.inspectMessageId⟩ ideConnectionId
    a.message.rulesGeneration a.message.sources a.message.unresolvedRuleCount

/-- The bridge prepares the message, sends it, and commits it if that succeeds. -/
def handle (s : RulesSystem) (a : RulesArrival) : RulesSystem :=
  match s.prepare ideConnectionId a with
  | none => s
  | some prepared =>
    if !a.delivered then s
    else
      match s.bridge.commitRulesSources prepared with
      | (false, bridge) => { s with bridge := bridge }
      | (true, bridge) =>
        { bridge := bridge
          store := (s.store.acceptRulesSources a.message peerContext).2
          panel := (s.panel.accept a.message a.originOf).2 }

/-- The bridge delivers and commits the message. -/
def Commits (s : RulesSystem) (a : RulesArrival) : Prop :=
  ∃ prepared, s.prepare ideConnectionId a = some prepared ∧ a.delivered = true ∧
    (s.bridge.commitRulesSources prepared).1 = true

end RulesSystem

/-- A parsed message of the IDE of a context. -/
def RulesArrival.From (peerContext : PeerContext) (a : RulesArrival) : Prop :=
  a.message.valid = true ∧
    payloadMatchesPeer a.message.sessionId a.message.source peerContext = true

/-- What the three parties keep of an inspect. -/
structure RulesViews where
  route : StoredReplyRoute
  correlation : InspectCorrelation
  authority : InspectAuthority

section
variable {ideConnectionId origin channel : String} {peerContext : PeerContext} {key : RouteKey}
  {tabId : ℤ} {refs : Finset String} {s : RulesSystem} {v : RulesViews} {a : RulesArrival}

/-- Nothing was published yet, or the same message was everywhere. -/
inductive SamePublication (ideConnectionId : String) (peerContext : PeerContext)
    (s : RulesSystem) (v : RulesViews) : Prop
  | nothing (hr : v.route.rulesGeneration = none) (hc : v.correlation.rulesGeneration = -1)
    (ha : v.authority.rulesGeneration = 0) (hs : s.panel.state ≠ .ready)
  | last (message : RulesSourcesMessage) (originOf : String → RuleOrigin)
    (hv : message.valid = true) (hpos : 0 < message.rulesGeneration)
    (hr : v.route.rulesGeneration = some (message.rulesGeneration : JsNumber))
    (hrids : v.route.ruleOpenAuthorityIds =
      (message.sources.map RulesSource.openAuthorityId).toFinset)
    (howner : v.route.ideConnectionId = some ideConnectionId)
    (hc : v.correlation.rulesGeneration = message.rulesGeneration)
    (hcids : v.correlation.ruleOpenAuthorityIds =
      (message.sources.map RulesSource.openAuthorityId).toFinset)
    (hcontext : v.correlation.rulesPeerContext = some peerContext)
    (ha : v.authority.rulesGeneration = message.rulesGeneration)
    (horigins : v.authority.origins =
      RulesSourcesController.collectOrigins originOf message.sources)

/-- The parties look at the same inspect with the same rules. -/
structure Aligned (ideConnectionId origin channel : String) (peerContext : PeerContext)
    (key : RouteKey) (tabId : ℤ) (refs : Finset String) (s : RulesSystem) (v : RulesViews) :
    Prop where
  stored : ∀ k, s.bridge.stored k = if k = key then some v.route else none
  correlation : s.store.correlations.get? key.inspectMessageId = some v.correlation
  authority : s.panel.authority = some v.authority
  origin : v.route.originConnectionId = origin
  owner : v.route.ownedByOther ideConnectionId = false
  routeRefs : v.route.expectedRuleRefs = refs
  channel : v.correlation.channel = channel
  tab : v.correlation.tabId = tabId
  window : v.correlation.windowId = peerContext.windowId
  peer : ownedByOtherPeer v.correlation peerContext = false
  correlationRefs : v.correlation.expectedRuleRefs = refs
  inspect : v.authority.inspectMessageId = key.inspectMessageId
  panelRefs : v.authority.expectedRuleRefs = refs
  live : s.panel.disposed = false ∧ s.panel.compatible = true
  same : SamePublication ideConnectionId peerContext s v

/-- The three tests of a generation agree. -/
theorem SamePublication.stale_iff (h : SamePublication ideConnectionId peerContext s v)
    {message : RulesSourcesMessage}
    (hg : ReplyRouteRegistry.rulesGenerationStale v.route.rulesGeneration message.rulesGeneration =
      false) :
    rulesGenerationStale v.correlation message = false ∧
      RulesSourcesController.publicationStale v.authority message = false := by
  cases h with
  | nothing hr hc ha hs =>
    rw [hr] at hg
    have hone : message.rulesGeneration = 1 := by
      simpa [ReplyRouteRegistry.rulesGenerationStale] using hg
    simp [rulesGenerationStale, RulesSourcesController.publicationStale, hc, ha, hone]
  | last m originOf hv hpos hr hrids howner hc hcids hcontext ha horigins =>
    rw [hr] at hg
    have hlt : m.rulesGeneration < message.rulesGeneration := by
      simpa [ReplyRouteRegistry.rulesGenerationStale] using hg
    simp only [rulesGenerationStale, RulesSourcesController.publicationStale, hc, ha]
    rw [if_neg (by omega), if_neg (by omega)]
    simp only [decide_eq_false_iff_not]
    omega

/-- What a party sees of a message that was published. -/
def RulesViews.published (v : RulesViews) (ideConnectionId : String) (peerContext : PeerContext)
    (revision : ℕ) (a : RulesArrival) : RulesViews where
  route := v.route.publish ideConnectionId a.message.rulesGeneration
    (a.message.sources.map RulesSource.openAuthorityId).toFinset
  correlation := InspectCorrelationStore.publishedBy v.correlation a.message peerContext revision
  authority := { v.authority with
    rulesGeneration := a.message.rulesGeneration
    origins := RulesSourcesController.collectOrigins a.originOf a.message.sources }

/-- The message names only expected rules and accounts for all of them. -/
def Covers (message : RulesSourcesMessage) (refs : Finset String) : Prop :=
  message.sources.length + message.unresolvedRuleCount = refs.card ∧
    ∀ source ∈ message.sources, source.ruleRef ∈ refs

/-- What the bridge commits is about its inspect, newer for all, and covers the rules. -/
theorem Aligned.committed
    (h : Aligned ideConnectionId origin channel peerContext key tabId refs s v)
    (hcommits : s.Commits ideConnectionId a) :
    key = ⟨a.message.sessionId, a.message.inspectMessageId⟩ ∧ Covers a.message refs ∧
      rulesGenerationStale v.correlation a.message = false ∧
      RulesSourcesController.publicationStale v.authority a.message = false ∧
      ∃ bridge, s.handle ideConnectionId peerContext a =
          { bridge := bridge
            store := (s.store.acceptRulesSources a.message peerContext).2
            panel := (s.panel.accept a.message a.originOf).2 } ∧
        ∀ k revision, bridge.stored k =
          if k = key then some (v.published ideConnectionId peerContext revision a).route
          else none := by
  obtain ⟨prepared, hprepare, hdelivered, hcommit⟩ := hcommits
  have hprep := hprepare
  unfold RulesSystem.prepare at hprep
  obtain ⟨r, ids, n, hr, hown, hgen, hids, hn, hcount, rfl⟩ :=
    ReplyRouteRegistry.prepareRulesSources_some hprep
  rw [JsNumber.integer?_natCast, Option.some.injEq] at hn
  subst hn
  rw [h.stored] at hr
  split at hr
  · rename_i hkey
    cases hr
    obtain ⟨hrefs, -, hidsEq⟩ := ReplyRouteRegistry.collectSources_some hids
    rw [Finset.empty_union] at hidsEq
    rw [h.routeRefs] at hcount hrefs
    obtain ⟨hstale, hpanel⟩ := h.same.stale_iff hgen
    refine ⟨hkey.symm, ⟨by omega, fun source hm => (hrefs source hm).1⟩, hstale, hpanel, ?_⟩
    unfold RulesSystem.handle
    rw [hprepare]
    dsimp only
    rw [if_neg (by simp [hdelivered])]
    split
    · rename_i bridge heq
      rw [heq] at hcommit
      cases hcommit
    · rename_i bridge heq
      obtain ⟨-, -, r, hr, -, -, rfl⟩ := ReplyRouteRegistry.commitRulesSources_true heq
      rw [h.stored, if_pos hkey] at hr
      cases hr
      refine ⟨_, rfl, fun k _ => ?_⟩
      rw [ReplyRouteRegistry.stored_storeAndTouch, ReplyRouteRegistry.stored_claimIde, h.stored,
        hidsEq, ← hkey]
      split
      · rfl
      · rfl
  · cases hr

/-- The store accepts what is newer, of its peer, and covers the rules. -/
theorem acceptRulesSources_eq {store : InspectCorrelationStore} {c : InspectCorrelation}
    {message : RulesSourcesMessage}
    (hc : store.correlations.get? message.inspectMessageId = some c)
    (hvalid : message.valid = true)
    (hpeer : payloadMatchesPeer message.sessionId message.source peerContext = true)
    (hwindow : c.windowId = peerContext.windowId) (howned : ownedByOtherPeer c peerContext = false)
    (hstale : rulesGenerationStale c message = false) (hcovers : Covers message c.expectedRuleRefs) :
    store.acceptRulesSources message peerContext =
      (some c.channel, store.writeLast message.inspectMessageId
        (InspectCorrelationStore.publishedBy c message peerContext
          (store.authorityRevisionSequence + 1))) := by
  have htrusted : peerContext.trusted = true := by
    simp only [payloadMatchesPeer, decide_eq_true_eq] at hpeer
    exact hpeer.1
  have hcovers : rulesSourcesCoverExpectedRefs message c.expectedRuleRefs = true := by
    simpa [rulesSourcesCoverExpectedRefs, Covers] using hcovers
  simp [InspectCorrelationStore.acceptRulesSources, InspectCorrelationStore.prepareRulesSources,
    InspectCorrelationStore.commitRulesSources, htrusted, hvalid, hc, hwindow, hpeer, howned,
    hstale, hcovers]

/-- The panel accepts what is newer, about its inspect, and covers the rules. -/
theorem accept_eq {panel : RulesSourcesController} {authority : InspectAuthority}
    {message : RulesSourcesMessage} (originOf : String → RuleOrigin)
    (ha : panel.authority = some authority)
    (hlive : panel.disposed = false ∧ panel.compatible = true) (hvalid : message.valid = true)
    (hinspect : message.inspectMessageId = authority.inspectMessageId)
    (hstale : RulesSourcesController.publicationStale authority message = false)
    (hcovers : Covers message authority.expectedRuleRefs) :
    panel.accept message originOf = (.published, { panel with
      authority := some { authority with
        rulesGeneration := message.rulesGeneration
        origins := RulesSourcesController.collectOrigins originOf message.sources }
      state := .ready }) := by
  have hcovers : coversExpectedRules message authority.expectedRuleRefs = true := by
    simpa [coversExpectedRules, Covers] using hcovers
  simp [RulesSourcesController.accept, hlive.1, hlive.2, ha,
    parseRulesSourcesProtocolData_valid hvalid, hinspect, hstale, hcovers]

/-- A message that the bridge commits is published by all three. -/
theorem Aligned.publishes
    (h : Aligned ideConnectionId origin channel peerContext key tabId refs s v)
    (hfrom : a.From peerContext) (hcommits : s.Commits ideConnectionId a) :
    (s.store.acceptRulesSources a.message peerContext).1 = some channel ∧
      (s.panel.accept a.message a.originOf).1 = .published ∧
      Aligned ideConnectionId origin channel peerContext key tabId refs
        (s.handle ideConnectionId peerContext a)
        (v.published ideConnectionId peerContext (s.store.authorityRevisionSequence + 1) a) := by
  obtain ⟨hvalid, hpeer⟩ := hfrom
  obtain ⟨hkey, hcovers, hstale, hpanel, bridge, hhandle, hstored⟩ := h.committed hcommits
  have hinspect : a.message.inspectMessageId = key.inspectMessageId := by rw [hkey]
  have hstore := acceptRulesSources_eq (hinspect ▸ h.correlation) hvalid hpeer h.window h.peer hstale
    (h.correlationRefs ▸ hcovers)
  have haccept := accept_eq a.originOf h.authority h.live hvalid (hinspect.trans h.inspect.symm)
    hpanel (h.panelRefs ▸ hcovers)
  refine ⟨by rw [hstore, h.channel], by rw [haccept], ?_⟩
  rw [hhandle, hstore, haccept]
  refine ⟨fun k => hstored k _, ?_, rfl, h.origin, ?_, h.routeRefs, h.channel, h.tab, h.window, ?_,
    h.correlationRefs, h.inspect, h.panelRefs, h.live, ?_⟩
  · rw [InspectCorrelationStore.get?_writeLast, if_pos hinspect.symm]
    rfl
  · exact StoredReplyRoute.ownedByOther_eq_false.mpr (.inr rfl)
  · simp [RulesViews.published, InspectCorrelationStore.publishedBy, ownedByOtherPeer]
  · exact .last a.message a.originOf hvalid (RulesSourcesController.publicationStale_pos hpanel) rfl
      rfl rfl rfl rfl rfl rfl rfl

/-- What the bridge does not commit changes nothing. -/
theorem handle_of_not_commits (h : ¬s.Commits ideConnectionId a) :
    s.handle ideConnectionId peerContext a = s := by
  unfold RulesSystem.handle
  split
  · rfl
  · rename_i prepared hprepare
    split
    · rfl
    · rename_i hdelivered
      split
      · rename_i bridge heq
        rw [ReplyRouteRegistry.commitRulesSources_false heq]
      · rename_i bridge heq
        exact absurd ⟨prepared, hprepare, by simpa using hdelivered, by rw [heq]⟩ h

theorem Aligned.handle
    (h : Aligned ideConnectionId origin channel peerContext key tabId refs s v)
    (hfrom : a.From peerContext) :
    ∃ v', Aligned ideConnectionId origin channel peerContext key tabId refs
      (s.handle ideConnectionId peerContext a) v' := by
  by_cases hc : s.Commits ideConnectionId a
  · exact ⟨_, (h.publishes hfrom hc).2.2⟩
  · rw [handle_of_not_commits hc]
    exact ⟨v, h⟩

theorem Aligned.handled {arrivals : List RulesArrival}
    (h : Aligned ideConnectionId origin channel peerContext key tabId refs s v)
    (hfrom : ∀ a ∈ arrivals, a.From peerContext) :
    ∃ v', Aligned ideConnectionId origin channel peerContext key tabId refs
      (arrivals.foldl (fun s a => s.handle ideConnectionId peerContext a) s) v' := by
  induction arrivals generalizing s v with
  | nil => exact ⟨v, h⟩
  | cons a arrivals ih =>
    obtain ⟨v', h'⟩ := h.handle (hfrom a List.mem_cons_self)
    exact ih h' fun a' ha' => hfrom a' (List.mem_cons_of_mem _ ha')

/-! ## Opening a rule -/

/-- An origin is that of a source. -/
theorem mem_of_collectOrigins {originOf : String → RuleOrigin} {sources : List RulesSource}
    {ruleRef : String} {origin : StoredOrigin}
    (h : (RulesSourcesController.collectOrigins originOf sources).get? ruleRef = some origin) :
    ∃ source ∈ sources, source.ruleRef = ruleRef ∧
      source.openAuthorityId = origin.openAuthorityId := by
  have hfold (origins : OrderedMap String StoredOrigin) (sources : List RulesSource)
      (h : (sources.foldl (fun origins source => origins.set source.ruleRef
        { originOf source.ruleRef with openAuthorityId := source.openAuthorityId }) origins).get?
          ruleRef = some origin) :
      origins.get? ruleRef = some origin ∨ ∃ source ∈ sources, source.ruleRef = ruleRef ∧
        source.openAuthorityId = origin.openAuthorityId := by
    induction sources generalizing origins with
    | nil => exact .inl h
    | cons source sources ih =>
      rcases ih _ h with h | ⟨other, hm, hother⟩
      · rw [OrderedMap.get?_set] at h
        split at h
        · rename_i heq
          cases h
          exact .inr ⟨source, List.mem_cons_self, heq.symm, rfl⟩
        · exact .inl h
      · exact .inr ⟨other, List.mem_cons_of_mem _ hm, hother⟩
  rcases hfold ∅ sources h with h | h
  · cases h
  · exact h

/-- A rule whose origin is shown can be opened: the browser and the bridge authorise the command. -/
def OpensAuthorized (s : RulesSystem) (origin channel : String) (key : RouteKey)
    (tabId windowId : ℤ) : Prop :=
  ∀ ruleRef declaration, (s.panel.originFor ruleRef).isSome → ∃ command,
    s.panel.openRule ruleRef declaration = some command ∧
      (s.store.authorizeRulesOpen channel tabId windowId command.inspectMessageId
        command.rulesGeneration command.openAuthorityId).isSome ∧
      (s.bridge.authorizeRulesOpen ⟨key.sessionId, command.inspectMessageId⟩ origin
        command.rulesGeneration command.openAuthorityId).1.isSome

theorem Aligned.opensAuthorized {windowId : ℤ}
    (h : Aligned ideConnectionId origin channel peerContext key tabId refs s v)
    (htrusted : peerContext.trusted = true) (hwindow : peerContext.windowId = windowId)
    (hfacts : isValidDevtoolsChannel channel = true ∧ isBrowserId tabId = true ∧
      isBrowserId windowId = true ∧ isOpaqueId key.inspectMessageId = true) :
    OpensAuthorized s origin channel key tabId windowId := by
  intro ruleRef declaration horigin
  obtain ⟨source, hsource⟩ : ∃ source, s.panel.storedOrigin ruleRef = some source := by
    unfold RulesSourcesController.originFor at horigin
    rw [Option.isSome_map] at horigin
    exact Option.isSome_iff_exists.mp horigin
  refine ⟨⟨v.authority.inspectMessageId, v.authority.rulesGeneration, source.openAuthorityId,
    declaration.bind parseRulesOpenDeclaration⟩, ?_, ?_⟩
  · simp only [RulesSourcesController.openRule, h.authority, hsource]
  · unfold RulesSourcesController.storedOrigin at hsource
    split at hsource
    · cases hsource
    · rename_i hready
      simp only [not_or, not_not] at hready
      rw [h.authority, Option.bind_some] at hsource
      cases h.same with
      | nothing _ _ _ hs => exact absurd hready.2 hs
      | last m originOf hv hpos hr hrids howner hc hcids hcontext ha horigins =>
        rw [horigins] at hsource
        obtain ⟨published, hm, -, hid⟩ := mem_of_collectOrigins hsource
        have hmem : source.openAuthorityId ∈
            (m.sources.map RulesSource.openAuthorityId).toFinset := by
          rw [← hid]
          exact List.mem_toFinset.mpr (List.mem_map_of_mem hm)
        simp only [RulesSourcesMessage.valid, decide_eq_true_eq] at hv
        obtain ⟨-, -, -, hbound, -, hsources, -⟩ := hv
        constructor
        · rw [Option.isSome_iff_exists]
          refine ⟨_, InspectCorrelationStore.authorizeRulesOpen_eq_some.mpr ⟨?_, ?_, v.correlation,
            ?_, peerContext, hcontext, htrusted, ?_, hcids ▸ hmem, rfl⟩⟩
          · simp only [Limits.generation] at hbound
            simp only [isResolutionGeneration, isSafeInteger, Limits.generation, decide_eq_true_eq,
              ha]
            omega
          · rw [← hid]
            exact (hsources published hm).2
          · rw [h.inspect]
            exact StoreSession.routed_eq_some.mpr
              ⟨hfacts, h.correlation, h.channel, h.tab, h.window.trans hwindow⟩
          · rw [hc, ha]
        · rw [h.inspect]
          unfold ReplyRouteRegistry.authorizeRulesOpen
          rw [h.stored, if_pos rfl]
          dsimp only
          rw [if_neg]
          · rfl
          · simp only [not_or, not_not]
            refine ⟨h.origin, by rw [howner]; simp, ?_, hrids ▸ hmem⟩
            rw [hr, ha]
            simp

end

/-! ## Every sequence of messages -/

/-- The generation that the three parties have. -/
def SameGeneration (s : RulesSystem) (key : RouteKey) (generation : ℕ) : Prop :=
  (∃ route, s.bridge.stored key = some route ∧
      route.rulesGeneration = some (generation : JsNumber)) ∧
    (∃ correlation, s.store.correlations.get? key.inspectMessageId = some correlation ∧
      correlation.rulesGeneration = generation) ∧
    ∃ authority, s.panel.authority = some authority ∧ authority.rulesGeneration = generation

section
variable {ideConnectionId origin channel : String} {peerContext : PeerContext} {key : RouteKey}
  {tabId windowId : ℤ} {ruleEvidence : InspectRuleEvidenceBatch} {limit : ℕ+}
  {bridge : ReplyRouteRegistry} {store store₀ : InspectCorrelationStore}
  {panel : RulesSourcesController} {arrivals : List RulesArrival}

def evidenceRefs (ruleEvidence : InspectRuleEvidenceBatch) : List String :=
  ruleEvidence.rules.map InspectRuleEvidence.ruleRef

/-- The route of an inspect that was registered in an empty registry. -/
theorem stored_of_registered {refs : List String}
    (h : (ReplyRouteRegistry.empty limit).commitRegistration
      ((ReplyRouteRegistry.empty limit).register key origin refs) = .ok (true, bridge)) (k : RouteKey) :
    bridge.stored k =
      if k = key then some (ReplyRouteRegistry.createdRoute 0 origin refs.toFinset) else none := by
  have hlimit : ¬(limit : ℕ) ≤ 0 := by
    have := limit.pos
    omega
  have hstored : (ReplyRouteRegistry.empty limit).stored key = none := rfl
  have hsize : ((ReplyRouteRegistry.empty limit).routesByClient.inner origin).size = 0 := rfl
  have hregister : (ReplyRouteRegistry.empty limit).register key origin refs =
      (ReplyRouteRegistry.empty limit).createDeferredRegistration .created
        (.create origin key refs.toFinset none) := by
    simp only [ReplyRouteRegistry.register, hstored, hsize]
    rw [show (ReplyRouteRegistry.empty limit).maxRoutesPerClient = limit from rfl, if_neg hlimit]
  rw [hregister] at h
  simp only [ReplyRouteRegistry.commitRegistration, ReplyRouteRegistry.createDeferredRegistration,
    ReplyRouteRegistry.applyRegistration, hstored] at h
  cases h
  rw [ReplyRouteRegistry.stored_create]
  rfl

/-- The three parties start with the same inspect. -/
theorem aligned_start (ideConnectionId : String)
    (hregister : (ReplyRouteRegistry.empty limit).commitRegistration
      ((ReplyRouteRegistry.empty limit).register key origin (evidenceRefs ruleEvidence)) =
        .ok (true, bridge))
    (hrecord : store.record channel key.inspectMessageId tabId windowId ruleEvidence = .ok store₀)
    (hlive : panel.disposed = false ∧ panel.compatible = true)
    (hwindow : peerContext.windowId = windowId) :
    ∃ v, Aligned ideConnectionId origin channel peerContext key tabId
      (evidenceRefs ruleEvidence).toFinset
      ⟨bridge, store₀, panel.beginInspect key.inspectMessageId
        (evidenceRefs ruleEvidence).toFinset⟩ v := by
  obtain ⟨hvalid, -, -, -, hnew, -⟩ := InspectCorrelationStore.record_ok hrecord
  simp only [InspectCorrelationStore.validRecord, decide_eq_true_eq] at hvalid
  have hevidence := hvalid.2.2.2.2
  simp only [InspectRuleEvidenceBatch.valid, decide_eq_true_eq] at hevidence
  have hcopy : copyExpectedRefs (evidenceRefs ruleEvidence).toFinset =
      some (evidenceRefs ruleEvidence).toFinset := by
    refine if_pos ⟨?_, fun ruleRef hm => ?_⟩
    · refine (List.toFinset_card_le _).trans ?_
      rw [evidenceRefs, List.length_map]
      exact hevidence.1
    · obtain ⟨evidence, hmem, rfl⟩ := List.mem_map.mp (List.mem_toFinset.mp hm)
      exact hevidence.2.1 evidence hmem
  have hbegin : panel.beginInspect key.inspectMessageId (evidenceRefs ruleEvidence).toFinset =
      { panel with
        authority := some
          { inspectMessageId := key.inspectMessageId
            expectedRuleRefs := (evidenceRefs ruleEvidence).toFinset
            rulesGeneration := 0
            origins := ∅ }
        state := .pending } := by
    simp [RulesSourcesController.beginInspect, hlive.1, hlive.2, hvalid.2.1, hcopy]
  rw [hbegin]
  exact ⟨⟨_, _, _⟩, stored_of_registered hregister, hnew, rfl, rfl, rfl, rfl, rfl, rfl, hwindow.symm,
    rfl, rfl, rfl, rfl, hlive, .nothing rfl rfl rfl (by simp)⟩

/-- Every message the bridge commits is accepted by the browser and the panel, which then have its
generation; every rule with an origin can be opened; and an invalidated panel stays silent until it
is revived. -/
theorem rulesPublicationsAgree
    (hregister : (ReplyRouteRegistry.empty limit).commitRegistration
      ((ReplyRouteRegistry.empty limit).register key origin (evidenceRefs ruleEvidence)) =
        .ok (true, bridge))
    (hrecord : store.record channel key.inspectMessageId tabId windowId ruleEvidence = .ok store₀)
    (hlive : panel.disposed = false ∧ panel.compatible = true)
    (htrusted : peerContext.trusted = true) (hwindow : peerContext.windowId = windowId)
    (hfrom : ∀ a ∈ arrivals, a.From peerContext) {s : RulesSystem}
    (hs : s = arrivals.foldl (fun s a => s.handle ideConnectionId peerContext a)
      ⟨bridge, store₀, panel.beginInspect key.inspectMessageId
        (evidenceRefs ruleEvidence).toFinset⟩) :
    (∀ a : RulesArrival, a.From peerContext → s.Commits ideConnectionId a →
      (s.store.acceptRulesSources a.message peerContext).1 = some channel ∧
        (s.panel.accept a.message a.originOf).1 = .published ∧
        SameGeneration (s.handle ideConnectionId peerContext a) key a.message.rulesGeneration) ∧
    OpensAuthorized s origin channel key tabId windowId ∧
    ∀ h₁ h₂ h₃ t u c, Run RulesSourcesController.Step RulesSourcesController.new
      (h₃ ++ u :: (h₂ ++ t :: h₁)) c → RulesSourcesController.Invalidates t.pre t.event →
        RulesSourcesController.Dispatches u → RulesSourcesController.Revived h₂ := by
  obtain ⟨v₀, h₀⟩ := aligned_start ideConnectionId hregister hrecord hlive hwindow
  obtain ⟨v, h⟩ := h₀.handled hfrom
  rw [← hs] at h
  have hfacts := (InspectCorrelationStore.record_ok hrecord).1
  simp only [InspectCorrelationStore.validRecord, decide_eq_true_eq] at hfacts
  refine ⟨fun a ha hc => ?_, h.opensAuthorized htrusted hwindow
    ⟨hfacts.1, hfacts.2.2.1, hfacts.2.2.2.1, hfacts.2.1⟩, ?_⟩
  · obtain ⟨hstore, hpanel, h'⟩ := h.publishes ha hc
    refine ⟨hstore, hpanel, ⟨_, (h'.stored key).trans (if_pos rfl), rfl⟩,
      ⟨_, h'.correlation, rfl⟩, ⟨_, h'.authority, rfl⟩⟩
  · intro h₁ h₂ h₃ t u c run ht hu
    exact RulesSourcesController.silent_after run ht hu

end

/-! ## Samples -/

namespace RulesSample

def key : RouteKey := ⟨"s", "m"⟩

def ruleEvidence : InspectRuleEvidenceBatch := ⟨[⟨"r1"⟩, ⟨"r2"⟩]⟩

def bridge : ReplyRouteRegistry :=
  (ReplyRouteRegistry.empty (Nat.succPNat 1)).create "b" key (evidenceRefs ruleEvidence).toFinset

def store : InspectCorrelationStore :=
  ((StoreSession.start 4).apply (.record "c" "m" 5 7 ruleEvidence)).store

def panel : RulesSourcesController :=
  RulesSourcesController.new.beginInspect "m" (evidenceRefs ruleEvidence).toFinset

def originOf (_ruleRef : String) : RuleOrigin := ⟨"a.css", .css, 1, 1, .exact⟩

def arrival : RulesArrival :=
  ⟨⟨"s", ⟨"editor"⟩, "m", 1, [⟨"r1", "a1"⟩], 1⟩, originOf, true⟩

def published : RulesSystem :=
  [arrival].foldl (fun s a => s.handle "i" StoreSession.Sample.editor a) ⟨bridge, store, panel⟩

def command : PanelRulesOpenCommand := ⟨"m", 1, "a1", none⟩

end RulesSample

open RulesSample

theorem rulesPublicationsAgree_sample :
    published.panel.openRule "r1" none = some command ∧
      OpensAuthorized published "b" "c" key 5 7 := by
  have hregister : (ReplyRouteRegistry.empty 2).commitRegistration
      ((ReplyRouteRegistry.empty 2).register key "b" (evidenceRefs ruleEvidence)) =
        .ok (true, bridge) := rfl
  have hrecord : (InspectCorrelationStore.empty 4).record "c" key.inspectMessageId 5 7 ruleEvidence =
      .ok store := rfl
  have hlive : RulesSourcesController.new.disposed = false ∧
      RulesSourcesController.new.compatible = true := ⟨rfl, rfl⟩
  have hfrom : ∀ a ∈ [arrival], a.From StoreSession.Sample.editor := by
    intro a ha
    rw [List.mem_singleton.mp ha]
    exact ⟨by decide +kernel, by decide +kernel⟩
  exact ⟨by decide +kernel,
    (rulesPublicationsAgree hregister hrecord hlive rfl rfl hfrom rfl).2.1⟩

/-- An invalidation that names another publication has no effect: a rule is opened after it. -/
theorem opened_after_invalidation :
    ¬∀ h₁ h₂ h₃ t u c, Run RulesSourcesController.Step RulesSourcesController.new
      (h₃ ++ u :: (h₂ ++ t :: h₁)) c →
        (∃ id generation, t.event = .invalidatePublication id generation) →
          RulesSourcesController.Dispatches u → RulesSourcesController.Revived h₂ := by
  intro hall
  let ready := (panel.accept arrival.message originOf).2
  have hpanel : RulesSourcesController.Step .new
      (.beginInspect "m" (evidenceRefs ruleEvidence).toFinset) panel := rfl
  have haccept : RulesSourcesController.Step panel (.accept arrival.message originOf) ready := rfl
  have hother : RulesSourcesController.Step ready (.invalidatePublication "other" 1) ready := by
    show ready = ready.apply (.invalidatePublication "other" 1)
    decide +kernel
  have hopen : RulesSourcesController.Step ready (.openRule "r1" none) ready := rfl
  have hrevived : RulesSourcesController.Revived [] :=
    hall _ [] [] _ _ _ ((((Run.start.next hpanel).next haccept).next hother).next hopen)
      ⟨"other", 1, rfl⟩ ⟨"r1", none, command, rfl, by decide +kernel⟩
  obtain ⟨h₂, published, h₁, heq, -⟩ := hrevived
  cases h₂ with
  | nil => cases heq
  | cons _ _ => cases heq

end PinOp.Browser
