import PinOp.Bridge.System

/-!
# What a step of the bridge does to one route

`RouteStep key r e r'` lists everything that can happen to the route of one inspect in
one step, with the reply that was delivered in it. Every result about runs of the bridge
is an induction over `RouteStep`; no handler is opened again after `step_route`.
-/

namespace PinOp.Bridge

open PinOp.Lib PinOp.Protocol ReplyRouteRegistry

variable {key k : RouteKey} {registry : ClientRegistry} {reg reg' : ReplyRouteRegistry}
  {sender : RegisteredClient} {outcome : Outcome} {sends log : List Send}

/-! ## The sends of a step -/

section
variable {client : RegisteredClient} {code : ProtocolErrorCode} {text : String}
  {message : PinOpMessage}

@[simp] theorem deliveriesOf_nil : deliveriesOf key [] = [] := rfl

@[simp] theorem forwardsOf_nil : forwardsOf key [] = [] := rfl

theorem sendMessage_nil : sendMessage outcome [] client message =
    (outcome 0, [⟨client.id, message, outcome 0⟩]) := rfl

theorem deliveriesOf_sendMessage :
    deliveriesOf key (sendMessage outcome log client message).2 = deliveriesOf key log ++
      if outcome log.length ∧ message.repliesTo = some key then [⟨client.id, message, true⟩]
      else [] := by
  unfold deliveriesOf sendMessage
  rw [List.filter_append, List.append_cancel_left_eq]
  by_cases h : outcome log.length = true <;> by_cases hm : message.repliesTo = some key <;>
    simp [h, hm]

theorem forwardsOf_sendMessage :
    forwardsOf key (sendMessage outcome log client message).2 = forwardsOf key log ++
      if message.requestsOn = some key then [⟨client.id, message, outcome log.length⟩]
      else [] := by
  unfold forwardsOf sendMessage
  rw [List.filter_append, List.append_cancel_left_eq]
  by_cases hm : message.requestsOn = some key <;> simp [hm]

@[simp] theorem deliveriesOf_sendError :
    deliveriesOf key (sendError outcome log client code text) = deliveriesOf key log := by
  simp [sendError, deliveriesOf_sendMessage, PinOpMessage.repliesTo]

@[simp] theorem forwardsOf_sendError :
    forwardsOf key (sendError outcome log client code text) = forwardsOf key log := by
  simp [sendError, forwardsOf_sendMessage, PinOpMessage.requestsOn]

@[simp] theorem deliveriesOf_sendInvalid :
    deliveriesOf key (sendInvalid outcome log client) = deliveriesOf key log :=
  deliveriesOf_sendError

@[simp] theorem forwardsOf_sendInvalid :
    forwardsOf key (sendInvalid outcome log client) = forwardsOf key log := forwardsOf_sendError

@[simp] theorem deliveriesOf_sendNoBrowser :
    deliveriesOf key (sendNoBrowser outcome log client) = deliveriesOf key log :=
  deliveriesOf_sendError

@[simp] theorem forwardsOf_sendNoBrowser :
    forwardsOf key (sendNoBrowser outcome log client) = forwardsOf key log := forwardsOf_sendError

@[simp] theorem deliveriesOf_sendNoIde :
    deliveriesOf key (sendNoIde outcome log client) = deliveriesOf key log :=
  deliveriesOf_sendError

@[simp] theorem forwardsOf_sendNoIde :
    forwardsOf key (sendNoIde outcome log client) = forwardsOf key log := forwardsOf_sendError

theorem deliveriesOf_sendToClients (hm : message.repliesTo = none) (clients : List RegisteredClient) :
    deliveriesOf key (sendToClients outcome message log clients).2 = deliveriesOf key log := by
  induction clients generalizing log with
  | nil => rfl
  | cons client clients ih =>
    rw [sendToClients, ih]
    simp [deliveriesOf_sendMessage, hm]

theorem forwardsOf_sendToClients (hm : message.requestsOn = none) (clients : List RegisteredClient) :
    forwardsOf key (sendToClients outcome message log clients).2 = forwardsOf key log := by
  induction clients generalizing log with
  | nil => rfl
  | cons client clients ih =>
    rw [sendToClients, ih]
    simp [forwardsOf_sendMessage, hm]

end

/-! ## Recipients -/

theorem id_of_getOriginRecipient {route : ReplyRoute} {recipient : RegisteredClient}
    (h : getOriginRecipient registry route = some recipient) :
    recipient.id = route.originConnectionId := by
  unfold getOriginRecipient at h
  exact ClientRegistry.id_of_get (Option.filter_eq_some_iff.1 h).1

theorem id_of_getIdeRecipient {route : ReplyRoute} {recipient : RegisteredClient}
    (h : getIdeRecipient registry route = some recipient) :
    route.ideConnectionId = some recipient.id := by
  unfold getIdeRecipient at h
  split at h
  · cases h
  · next i hi => rw [hi, ClientRegistry.id_of_get (Option.filter_eq_some_iff.1 h).1]

theorem originSupporting_some {capability : ProtocolCapability} {recipient : RegisteredClient}
    (h : originSupporting registry (reg.get key) capability = some recipient) :
    ∃ r, reg.stored key = some r ∧ recipient.id = r.originConnectionId := by
  unfold originSupporting ReplyRouteRegistry.get at h
  obtain ⟨h, -⟩ := Option.filter_eq_some_iff.1 h
  obtain ⟨route, hroute, hrec⟩ := Option.bind_eq_some_iff.1 h
  obtain ⟨r, hr, rfl⟩ := Option.map_eq_some_iff.1 hroute
  exact ⟨r, hr, id_of_getOriginRecipient hrec⟩

/-! ## The effect on a route -/

/-- One step, seen from the route stored under `key`: the route before, the event, the
route after. -/
inductive RouteStep (key : RouteKey) :
    Option StoredReplyRoute → Event → Option StoredReplyRoute → Prop where
  | untouched {r : Option StoredReplyRoute} {e : Event} (hd : e.deliveries key = []) :
      RouteStep key r e r
  | removed {r : Option StoredReplyRoute} {e : Event} (hd : e.deliveries key = []) :
      RouteStep key r e none
  | created {c : String} {m : InspectMessage} {sends : List Send} {objectId : ℕ}
      (hkey : key = ⟨m.sessionId, m.messageId⟩)
      (hd : (Event.routed c (.inspect m) sends).deliveries key = []) :
      RouteStep key none (.routed c (.inspect m) sends) (some (createdRoute objectId c
        (m.ruleEvidence.rules.map InspectRuleEvidence.ruleRef).toFinset))
  | resolved {r : StoredReplyRoute} {i : String} {m : ResolutionMessage} {sends : List Send}
      (hown : r.ownedByOther i = false)
      (hgen : ∀ g, r.resolutionGeneration = some g →
        JsNumber.lt (m.resolutionGeneration : JsNumber) g = false)
      (hd : (Event.routed i (.resolution m) sends).deliveries key =
        [⟨r.originConnectionId, .resolution m, true⟩]) :
      RouteStep key (some r) (.routed i (.resolution m) sends)
        (some (r.claim i m.resolutionGeneration true))
  | invalidatedUnowned {r : StoredReplyRoute} {i : String} {m : SourceMatchesMessage}
      {sends : List Send} (hnone : r.ideConnectionId = none) (hempty : isEmptyInvalidation m)
      (hd : (Event.routed i (.sourceMatches m) sends).deliveries key =
        [⟨r.originConnectionId, .sourceMatches m, true⟩]) :
      RouteStep key (some r) (.routed i (.sourceMatches m) sends) (some (r.withMatchIds ∅))
  | invalidated {r : StoredReplyRoute} {i : String} {m : SourceMatchesMessage}
      {sends : List Send} (hown : r.ideConnectionId = some i) (hempty : isEmptyInvalidation m)
      (hgen : ∀ g, r.resolutionGeneration = some g →
        JsNumber.lt (m.resolutionGeneration : JsNumber) g = false)
      (hd : (Event.routed i (.sourceMatches m) sends).deliveries key =
        [⟨r.originConnectionId, .sourceMatches m, true⟩]) :
      RouteStep key (some r) (.routed i (.sourceMatches m) sends)
        (some (r.claim i m.resolutionGeneration false))
  | matched {r : StoredReplyRoute} {i : String} {m : SourceMatchesMessage} {sends : List Send}
      (hown : r.ideConnectionId = some i)
      (hgen : r.resolutionGeneration = some (m.resolutionGeneration : JsNumber))
      (hd : (Event.routed i (.sourceMatches m) sends).deliveries key =
        [⟨r.originConnectionId, .sourceMatches m, true⟩]) :
      RouteStep key (some r) (.routed i (.sourceMatches m) sends)
        (some (r.withMatchIds (matchIds m).toFinset))
  | published {r : StoredReplyRoute} {i : String} {m : RulesSourcesMessage} {sends : List Send}
      {ids : Finset String} (hown : r.ownedByOther i = false)
      (hgen : rulesGenerationStale r.rulesGeneration m.rulesGeneration = false)
      (hids : collectSources r.expectedRuleRefs ∅ ∅ m.sources = some ids)
      (hcount : m.sources.length + m.unresolvedRuleCount = r.expectedRuleRefs.card)
      (hd : (Event.routed i (.rulesSources m) sends).deliveries key =
        [⟨r.originConnectionId, .rulesSources m, true⟩]) :
      RouteStep key (some r) (.routed i (.rulesSources m) sends)
        (some (r.publish i m.rulesGeneration ids))
  | navigated {r : StoredReplyRoute} {i : String} {m : SourceNavigationStateMessage}
      {sends : List Send} (hown : r.ownedByOther i = false)
      (hd : (Event.routed i (.sourceNavigationState m) sends).deliveries key =
        [⟨r.originConnectionId, .sourceNavigationState m, true⟩]) :
      RouteStep key (some r) (.routed i (.sourceNavigationState m) sends) (some r)

/-- A step that leaves the stored route as it is or drops it, and delivers nothing on it. -/
theorem RouteStep.quiet {e : Event} (hs : reg'.stored key = reg.stored key ∨ reg'.stored key = none)
    (hd : e.deliveries key = []) : RouteStep key (reg.stored key) e (reg'.stored key) := by
  rcases hs with hs | hs
  · rw [hs]; exact .untouched hd
  · rw [hs]; exact .removed hd

/-! ## Each handler -/

theorem routeInspect_route {message : InspectMessage}
    (h : routeInspect registry reg sender outcome message = .ok (reg', sends)) (key : RouteKey) :
    RouteStep key (reg.stored key) (.routed sender.id (.inspect message) sends)
      (reg'.stored key) := by
  unfold routeInspect at h
  split at h
  · cases h
    exact .quiet (.inl rfl) deliveriesOf_sendInvalid
  simp only at h
  split at h
  · cases h
    exact .quiet (.inl rfl) deliveriesOf_sendInvalid
  split at h
  · cases h
    refine .quiet (.inl rfl) (deliveriesOf_sendNoIde.trans ?_)
    exact deliveriesOf_sendToClients rfl _
  · cases hc : reg.commitRegistration (reg.register ⟨message.sessionId, message.messageId⟩
        sender.id (message.ruleEvidence.rules.map InspectRuleEvidence.ruleRef)) with
    | error e => rw [hc] at h; cases h
    | ok res =>
      obtain ⟨committed, reg₁⟩ := res
      rw [hc] at h
      cases h
      have hd : ∀ log, deliveriesOf key log = [] →
          deliveriesOf key (if committed then log else sendInvalid outcome log sender) = [] := by
        intro log hlog
        split
        · exact hlog
        · rw [deliveriesOf_sendInvalid, hlog]
      have hsent : deliveriesOf key (sendToClients outcome (.inspect message) []
          ((registry.findBySessionAndRole message.sessionId .ide).filter
            fun client => supportsCapability client .resolution)).2 = [] :=
        deliveriesOf_sendToClients rfl _
      have hquiet := hd _ hsent
      rcases commitRegistration_stored hc key with hs | hs | ⟨c, refs, evicted, ha, hn, o, hs⟩
      · exact .quiet (.inl hs) hquiet
      · exact .quiet (.inr hs) hquiet
      · obtain ⟨hkey, rfl, rfl⟩ := register_create ha
        rw [hs, hn]
        exact .created hkey hquiet

/-- A reply reached the client it was sent to, or the route is gone and nothing was delivered. -/
theorem replyOrRemove_cases {recipient : Option RegisteredClient} {message : PinOpMessage}
    (h : replyOrRemove reg sender outcome k recipient message = .ok (reg', sends)) :
    (∃ c, recipient = some c ∧ reg' = reg ∧ sends = [⟨c.id, message, true⟩]) ∨
      ((∀ k', reg'.stored k' = if k' = k then none else reg.stored k') ∧
        ∀ key, deliveriesOf key sends = []) := by
  have hfail : ∀ log, (∀ key, deliveriesOf key log = []) →
      (reg.remove k >>= fun removed =>
        pure (removed.2, sendNoBrowser outcome log sender) : Routed) = .ok (reg', sends) →
      (∀ k', reg'.stored k' = if k' = k then none else reg.stored k') ∧
        ∀ key, deliveriesOf key sends = [] := by
    intro log hlog h
    cases hr : reg.remove k with
    | error e => rw [hr] at h; cases h
    | ok res =>
      obtain ⟨b, reg₁⟩ := res
      rw [hr] at h
      cases h
      exact ⟨remove_stored hr, fun key => deliveriesOf_sendNoBrowser.trans (hlog key)⟩
  unfold replyOrRemove at h
  cases recipient with
  | none => exact .inr (hfail [] (fun _ => rfl) h)
  | some c =>
    dsimp only at h
    split at h
    · next ho =>
      cases h
      have ho : outcome 0 = true := ho
      exact .inl ⟨c, rfl, rfl, by rw [sendMessage_nil, ho]⟩
    · next ho =>
      have ho : outcome 0 = false := Bool.eq_false_of_not_eq_true ho
      exact .inr (hfail _ (fun key => by simp [sendMessage_nil, deliveriesOf, ho]) h)

theorem deliveries_single {i c : String} {message : PinOpMessage}
    (hm : message.repliesTo = some key) :
    (Event.routed i message [⟨c, message, true⟩]).deliveries key = [⟨c, message, true⟩] := by
  simp [Event.deliveries, Event.sends, deliveriesOf, hm]

theorem deliveries_other {i c : String} {message : PinOpMessage}
    (hm : message.repliesTo ≠ some key) :
    (Event.routed i message [⟨c, message, true⟩]).deliveries key = [] := by
  simp [Event.deliveries, Event.sends, deliveriesOf, hm]

/-- A reply sent after a write under its own key: what happens to every other key, and to its
own when the send failed, does not depend on the family. -/
theorem replyOrRemove_route {reg₁ : ReplyRouteRegistry} {recipient : Option RegisteredClient}
    {message : PinOpMessage}
    (h : replyOrRemove reg₁ sender outcome k recipient message = .ok (reg', sends))
    (hk : message.repliesTo = some k) (hother : ∀ k', k' ≠ k → reg₁.stored k' = reg.stored k')
    (hown : ∀ c, recipient = some c → RouteStep k (reg.stored k)
      (.routed sender.id message [⟨c.id, message, true⟩]) (reg₁.stored k)) (key : RouteKey) :
    RouteStep key (reg.stored key) (.routed sender.id message sends) (reg'.stored key) := by
  rcases replyOrRemove_cases h with ⟨c, hc, rfl, rfl⟩ | ⟨hs, hd⟩
  · by_cases e : key = k
    · subst e; exact hown c hc
    · refine .quiet (.inl (hother key e)) (deliveries_other ?_)
      rw [hk]
      exact fun he => e (Option.some.inj he).symm
  · refine .quiet ?_ (hd key)
    rw [hs key]
    split
    · exact .inr rfl
    · next e => exact .inl (hother key e)

theorem stored_write_other {r : StoredReplyRoute} {i : String} {route : StoredReplyRoute}
    (k' : RouteKey) (hk : k' ≠ k) :
    ((reg.claimIde k r i).storeAndTouch k route).stored k' = reg.stored k' := by
  rw [stored_storeAndTouch, if_neg hk, stored_claimIde]

theorem routeResolution_route {message : ResolutionMessage}
    (h : routeResolution registry reg sender outcome message = .ok (reg', sends))
    (key : RouteKey) :
    RouteStep key (reg.stored key) (.routed sender.id (.resolution message) sends)
      (reg'.stored key) := by
  unfold routeResolution at h
  simp only at h
  split at h
  · cases h
    exact .quiet (.inl rfl) deliveriesOf_sendInvalid
  split at h
  · cases h
    exact .quiet (.inl rfl) deliveriesOf_sendNoBrowser
  split at h
  · next hc =>
    cases h
    rw [claimAuthority_none hc]
    exact .quiet (.inl rfl) deliveriesOf_sendNoBrowser
  · next route reg₁ hc =>
    obtain ⟨r, hr, hown, hgen, rfl, rfl⟩ := claimAuthority_some hc
    refine replyOrRemove_route h rfl stored_write_other ?_ key
    intro c hrec
    rw [hr, stored_storeAndTouch, if_pos rfl]
    have hid : c.id = r.originConnectionId := id_of_getOriginRecipient hrec
    exact .resolved hown hgen (by rw [← hid]; exact deliveries_single rfl)

theorem routeRulesSources_route {message : RulesSourcesMessage}
    (h : routeRulesSources registry reg sender outcome message = .ok (reg', sends))
    (key : RouteKey) :
    RouteStep key (reg.stored key) (.routed sender.id (.rulesSources message) sends)
      (reg'.stored key) := by
  unfold routeRulesSources at h
  simp only at h
  split at h
  · cases h
    exact .quiet (.inl rfl) deliveriesOf_sendInvalid
  split at h
  · cases h
    exact .quiet (.inl rfl) deliveriesOf_sendNoBrowser
  next recipient hrec =>
  obtain ⟨r₀, hr₀, hid⟩ := originSupporting_some hrec
  split at h
  · cases h
    exact .quiet (.inl rfl) deliveriesOf_sendNoBrowser
  next prepared hp =>
  have hcommit := commitRulesSources_prepared hp
  obtain ⟨r, ids, n, hr, hown, hgen, hids, hn, hcount, hprep⟩ := prepareRulesSources_some hp
  rw [JsNumber.integer?_natCast, Option.some.injEq] at hn
  obtain rfl : r₀ = r := Option.some.inj (hr₀.symm.trans hr)
  simp only [sendMessage_nil] at h
  split at h
  · next ho =>
    cases h
    refine .quiet (.inl rfl) (deliveriesOf_sendNoBrowser.trans ?_)
    simpa [deliveriesOf] using fun hd => absurd hd ho
  · next ho =>
    rw [Bool.not_eq_true, Bool.not_eq_false] at ho
    rcases hcr : reg.commitRulesSources prepared with ⟨committed, reg₁⟩
    rw [hcr] at hcommit
    simp only at hcommit
    subst hcommit
    simp only [hcr, ho] at h
    cases h
    obtain ⟨-, -, r', hr', -, -, rfl⟩ := commitRulesSources_true hcr
    subst hprep
    simp only at hr' ⊢
    obtain rfl : r₀ = r' := Option.some.inj (hr.symm.trans hr')
    by_cases e : key = ⟨message.sessionId, message.inspectMessageId⟩
    · subst e
      rw [hr, stored_storeAndTouch, if_pos rfl]
      refine .published hown hgen hids ?_ (by rw [← hid]; exact deliveries_single rfl)
      omega
    · refine .quiet (.inl (stored_write_other _ e)) (deliveries_other ?_)
      exact fun he => e (Option.some.inj he).symm

theorem routeSourceMatches_route {message : SourceMatchesMessage}
    (h : routeSourceMatches registry reg sender outcome message = .ok (reg', sends))
    (key : RouteKey) :
    RouteStep key (reg.stored key) (.routed sender.id (.sourceMatches message) sends)
      (reg'.stored key) := by
  unfold routeSourceMatches at h
  simp only at h
  split at h
  · cases h
    exact .quiet (.inl rfl) deliveriesOf_sendInvalid
  split at h
  · cases h
    exact .quiet (.inl rfl) deliveriesOf_sendInvalid
  split at h
  · cases h
    exact .quiet (.inl rfl) deliveriesOf_sendNoBrowser
  next recipient hrec =>
  obtain ⟨r₀, hr₀, hid⟩ := originSupporting_some hrec
  by_cases hempty : isEmptyInvalidation message = true
  · rw [if_pos hempty] at h
    split at h
    · next hc =>
      cases h
      rw [claimSourceInvalidation_none hc]
      exact .quiet (.inl rfl) deliveriesOf_sendNoBrowser
    · next hc =>
      rcases claimSourceInvalidation_some hc with
        ⟨r, hr, hn, rfl, rfl⟩ | ⟨r, hr, hi, hgen, rfl, rfl⟩
      · obtain rfl : r₀ = r := Option.some.inj (hr₀.symm.trans hr)
        refine replyOrRemove_route h rfl (fun k' hk => by simp [hk]) ?_ key
        rintro c ⟨⟩
        rw [hr, stored_storeAndTouch, if_pos rfl]
        exact .invalidatedUnowned hn hempty (by rw [← hid]; exact deliveries_single rfl)
      · obtain rfl : r₀ = r := Option.some.inj (hr₀.symm.trans hr)
        refine replyOrRemove_route h rfl stored_write_other ?_ key
        rintro c ⟨⟩
        rw [hr, stored_storeAndTouch, if_pos rfl]
        exact .invalidated hi hempty hgen (by rw [← hid]; exact deliveries_single rfl)
  · rw [if_neg hempty] at h
    split at h
    · next hc =>
      cases h
      rw [replaceMatchIds_none hc]
      exact .quiet (.inl rfl) deliveriesOf_sendNoBrowser
    · next hc =>
      obtain ⟨r, hr, hi, hgen, -, rfl, rfl⟩ := replaceMatchIds_some hc
      obtain rfl : r₀ = r := Option.some.inj (hr₀.symm.trans hr)
      refine replyOrRemove_route h rfl (fun k' hk => by simp [hk]) ?_ key
      rintro c ⟨⟩
      rw [hr, stored_storeAndTouch, if_pos rfl]
      exact .matched hi hgen (by rw [← hid]; exact deliveries_single rfl)

theorem stored_resolve (reg : ReplyRouteRegistry) (k key : RouteKey) :
    (reg.resolve k).2.stored key = reg.stored key := by
  rcases reg.resolve_eq k with he | ⟨r, -, he⟩
  · rw [he]
  · rw [he]; rfl

theorem routeSourceNavigationState_route {message : SourceNavigationStateMessage}
    (h : routeSourceNavigationState registry reg sender outcome message = .ok (reg', sends))
    (key : RouteKey) :
    RouteStep key (reg.stored key) (.routed sender.id (.sourceNavigationState message) sends)
      (reg'.stored key) := by
  unfold routeSourceNavigationState at h
  simp only at h
  split at h
  · cases h
    exact .quiet (.inl rfl) deliveriesOf_sendInvalid
  split at h
  · cases h
    exact .quiet (.inl rfl) deliveriesOf_sendNoBrowser
  split at h
  · cases h
    exact .quiet (.inl rfl) deliveriesOf_sendNoBrowser
  next stateRoute hget =>
  split at h
  · cases h
    exact .quiet (.inl rfl) deliveriesOf_sendNoBrowser
  next hstate =>
  split at h
  · cases h
    exact .quiet (.inl rfl) deliveriesOf_sendNoBrowser
  next recipient hrec =>
  rw [← hget] at hrec
  obtain ⟨r, hr, hid⟩ := originSupporting_some hrec
  have hsnap : stateRoute = snapshot ⟨message.sessionId, message.inspectMessageId⟩ r := by
    rw [ReplyRouteRegistry.get, hr] at hget
    exact (Option.some.inj hget).symm
  have hown : r.ownedByOther sender.id = false := by
    have hor : r.ideConnectionId = none ∨ r.ideConnectionId = some sender.id := by
      rw [not_and_or, not_not, not_not] at hstate
      simp only [isClearingState, isAuthoritativeState, isOwnedGeneration, hsnap, snapshot,
        decide_eq_true_eq] at hstate
      tauto
    exact StoredReplyRoute.ownedByOther_eq_false.2 hor
  refine replyOrRemove_route h rfl (fun k' _ => stored_resolve reg _ k') ?_ key
  rintro c ⟨⟩
  rw [stored_resolve, hr]
  exact .navigated hown (by rw [← hid]; exact deliveries_single rfl)

/-! ## Requests -/

/-- What a route must hold for a request to be forwarded on it. -/
def Permits (r : StoredReplyRoute) : PinOpMessage → Prop
  | .sourceOpen m => r.resolutionGeneration = some (m.resolutionGeneration : JsNumber) ∧
      m.matchId ∈ r.excerptMatchIds
  | .rulesOpen m => r.rulesGeneration = some (m.rulesGeneration : JsNumber) ∧
      m.openAuthorityId ∈ r.ruleOpenAuthorityIds
  | .sourceNavigate m => r.resolutionGeneration = some (m.resolutionGeneration : JsNumber)
  | _ => True

/-- A request handled on a route: the routes stay as they were, no reply is delivered, and
what is forwarded comes from the origin, goes to the owner and is permitted. -/
structure Request (reg : ReplyRouteRegistry) (sender : String) (message : PinOpMessage)
    (reg' : ReplyRouteRegistry) (sends : List Send) : Prop where
  same : ∀ key, reg'.stored key = reg.stored key
  silent : ∀ key, deliveriesOf key sends = []
  forwarded : ∀ key, ∀ d ∈ forwardsOf key sends, d.message = message ∧ ∃ r,
    reg.stored key = some r ∧ r.originConnectionId = sender ∧
      r.ideConnectionId = some d.recipient ∧ Permits r message

theorem Request.refused {message : PinOpMessage}
    (hs : sends = sendInvalid outcome [] sender ∨ sends = sendNoIde outcome [] sender) :
    Request reg sender.id message reg sends := by
  rcases hs with rfl | rfl
  · exact ⟨fun _ => rfl, fun _ => deliveriesOf_sendInvalid, fun key d hd => by simp at hd⟩
  · exact ⟨fun _ => rfl, fun _ => deliveriesOf_sendNoIde, fun key d hd => by simp at hd⟩

theorem forwardRequest_request {r : StoredReplyRoute} {capability : ProtocolCapability}
    {message : PinOpMessage} {touched reg₀ : ReplyRouteRegistry}
    (h : forwardRequest registry reg sender outcome (snapshot k r) capability message touched =
      .ok (reg', sends))
    (hm : message.repliesTo = none) (hk : message.requestsOn = some k)
    (hreg : ∀ key, reg.stored key = reg₀.stored key)
    (ht : ∀ key, touched.stored key = reg₀.stored key) (hr : reg₀.stored k = some r)
    (ho : r.originConnectionId = sender.id) (hp : Permits r message) :
    Request reg₀ sender.id message reg' sends := by
  unfold forwardRequest at h
  split at h
  · cases h
    exact ⟨hreg, fun _ => deliveriesOf_sendNoIde, fun key d hd => by simp at hd⟩
  · next recipient hrec =>
    have hi : r.ideConnectionId = some recipient.id :=
      id_of_getIdeRecipient (Option.filter_eq_some_iff.1 hrec).1
    cases h
    have hlog : ∀ key, deliveriesOf key (sendMessage outcome [] recipient message).2 = [] :=
      fun key => by simp [deliveriesOf_sendMessage, hm]
    refine ⟨ht, fun key => ?_, fun key d hd => ?_⟩
    · split
      · exact hlog key
      · exact deliveriesOf_sendNoIde.trans (hlog key)
    · have hfwd : d ∈ forwardsOf key (sendMessage outcome [] recipient message).2 := by
        split at hd
        · exact hd
        · rwa [forwardsOf_sendNoIde] at hd
      rw [forwardsOf_sendMessage, hk] at hfwd
      simp only [forwardsOf_nil, Option.some.injEq, List.nil_append] at hfwd
      split at hfwd
      · next e =>
        subst e
        obtain rfl := List.mem_singleton.1 hfwd
        exact ⟨rfl, r, hr, ho, hi, hp⟩
      · cases hfwd

theorem get_some {route : ReplyRoute} (h : reg.get k = some route) :
    ∃ r, reg.stored k = some r ∧ route = snapshot k r := by
  obtain ⟨r, hr, rfl⟩ := Option.map_eq_some_iff.1 h
  exact ⟨r, hr, rfl⟩

theorem routeSourceOpen_request {message : SourceOpenMessage}
    (h : routeSourceOpen registry reg sender outcome message = .ok (reg', sends)) :
    Request reg sender.id (.sourceOpen message) reg' sends := by
  unfold routeSourceOpen at h
  simp only at h
  split at h
  · cases h; exact .refused (.inl rfl)
  split at h
  · cases h; exact .refused (.inl rfl)
  next route hget =>
  obtain ⟨r, hr, rfl⟩ := get_some hget
  split at h
  · cases h; exact .refused (.inl rfl)
  next hg =>
  simp only [ne_eq, not_or, not_not] at hg
  exact forwardRequest_request h rfl rfl (fun _ => rfl) (stored_resolve reg _) hr hg.1 hg.2

theorem routeRulesOpen_request {message : RulesOpenMessage}
    (h : routeRulesOpen registry reg sender outcome message = .ok (reg', sends)) :
    Request reg sender.id (.rulesOpen message) reg' sends := by
  unfold routeRulesOpen at h
  simp only at h
  split at h
  · cases h; exact .refused (.inl rfl)
  split at h
  · next ha =>
    cases h
    rw [authorizeRulesOpen_none ha]
    exact .refused (.inl rfl)
  · next ha =>
    obtain ⟨r, hr, ho, -, hgen, hid, rfl, rfl⟩ := authorizeRulesOpen_some ha
    exact forwardRequest_request h rfl rfl (fun _ => rfl) (fun _ => rfl) hr ho ⟨hgen, hid⟩

theorem routePresentationSettings_request {message : PresentationSettingsMessage}
    (h : routePresentationSettings registry reg sender outcome message = .ok (reg', sends)) :
    Request reg sender.id (.presentationSettings message) reg' sends := by
  unfold routePresentationSettings at h
  simp only at h
  split at h
  · cases h; exact .refused (.inl rfl)
  split at h
  · cases h; exact .refused (.inl rfl)
  next route hget =>
  obtain ⟨r, hr, rfl⟩ := get_some hget
  split at h
  · cases h; exact .refused (.inl rfl)
  next ho =>
  exact forwardRequest_request h rfl rfl (fun _ => rfl) (stored_resolve reg _) hr
    (not_not.1 ho) trivial

theorem routeSourceNavigate_request {message : SourceNavigateMessage}
    (h : routeSourceNavigate registry reg sender outcome message = .ok (reg', sends)) :
    Request reg sender.id (.sourceNavigate message) reg' sends := by
  unfold routeSourceNavigate at h
  simp only at h
  split at h
  · cases h; exact .refused (.inl rfl)
  split at h
  · cases h; exact .refused (.inl rfl)
  next route hget =>
  obtain ⟨r, hr, rfl⟩ := get_some hget
  split at h
  · cases h; exact .refused (.inl rfl)
  next hg =>
  simp only [ne_eq, not_or, not_not] at hg
  exact forwardRequest_request h rfl rfl (fun _ => rfl) (stored_resolve reg _) hr hg.1 hg.2

theorem Request.route {message : PinOpMessage} (h : Request reg sender.id message reg' sends)
    (key : RouteKey) :
    RouteStep key (reg.stored key) (.routed sender.id message sends) (reg'.stored key) :=
  .quiet (.inl (h.same key)) (h.silent key)

/-! ## Nothing else is forwarded -/

/-- The sends of a step are of the routed message, or of errors. -/
def OwnSends (message : PinOpMessage) (sends : List Send) : Prop :=
  ∀ d ∈ sends, d.message = message ∨ ∃ e, d.message = .error e

section
variable {message : PinOpMessage} {client : RegisteredClient} {code : ProtocolErrorCode}
  {text : String}

theorem OwnSends.nil : OwnSends message [] := fun _ h => by cases h

theorem OwnSends.sent (h : OwnSends message log) (client : RegisteredClient) :
    OwnSends message (sendMessage outcome log client message).2 := by
  intro d hd
  rcases List.mem_append.1 hd with hd | hd
  · exact h d hd
  · rw [List.mem_singleton.1 hd]; exact .inl rfl

theorem OwnSends.error (h : OwnSends message log) :
    OwnSends message (sendError outcome log client code text) := by
  intro d hd
  rcases List.mem_append.1 hd with hd | hd
  · exact h d hd
  · rw [List.mem_singleton.1 hd]; exact .inr ⟨_, rfl⟩

theorem OwnSends.clients (h : OwnSends message log) (clients : List RegisteredClient) :
    OwnSends message (sendToClients outcome message log clients).2 := by
  induction clients generalizing log with
  | nil => exact h
  | cons client clients ih => exact ih (h.sent client)

theorem OwnSends.forwards (h : OwnSends message sends) (hm : message.requestsOn = none)
    (key : RouteKey) : forwardsOf key sends = [] := by
  unfold forwardsOf
  rw [List.filter_eq_nil_iff]
  intro d hd
  rcases h d hd with he | ⟨e, he⟩
  · simp [he, hm]
  · simp [he, PinOpMessage.requestsOn]

end

theorem replyOrRemove_own {recipient : Option RegisteredClient} {message : PinOpMessage}
    (h : replyOrRemove reg sender outcome k recipient message = .ok (reg', sends)) :
    OwnSends message sends := by
  have hfail : ∀ log, OwnSends message log →
      (reg.remove k >>= fun removed =>
        pure (removed.2, sendNoBrowser outcome log sender) : Routed) = .ok (reg', sends) →
      OwnSends message sends := by
    intro log hlog h
    cases hr : reg.remove k with
    | error e => rw [hr] at h; cases h
    | ok res => rw [hr] at h; cases h; exact hlog.error
  unfold replyOrRemove at h
  cases recipient with
  | none => exact hfail [] .nil h
  | some c =>
    dsimp only at h
    split at h
    · cases h; exact OwnSends.nil.sent c
    · exact hfail _ (OwnSends.nil.sent c) h

theorem routeInspect_own {message : InspectMessage}
    (h : routeInspect registry reg sender outcome message = .ok (reg', sends)) :
    OwnSends (.inspect message) sends := by
  unfold routeInspect at h
  split at h
  · cases h; exact OwnSends.nil.error
  simp only at h
  split at h
  · cases h; exact OwnSends.nil.error
  have hlog : OwnSends (.inspect message) (sendToClients outcome (.inspect message) []
      ((registry.findBySessionAndRole message.sessionId .ide).filter
        fun client => supportsCapability client .resolution)).2 :=
    OwnSends.nil.clients _
  split at h
  · cases h; exact hlog.error
  · cases hc : reg.commitRegistration (reg.register ⟨message.sessionId, message.messageId⟩
        sender.id (message.ruleEvidence.rules.map InspectRuleEvidence.ruleRef)) with
    | error e => rw [hc] at h; cases h
    | ok res =>
      rw [hc] at h
      cases h
      split
      · exact hlog
      · exact hlog.error

theorem routeResolution_own {message : ResolutionMessage}
    (h : routeResolution registry reg sender outcome message = .ok (reg', sends)) :
    OwnSends (.resolution message) sends := by
  unfold routeResolution at h
  simp only at h
  split at h
  · cases h; exact OwnSends.nil.error
  split at h
  · cases h; exact OwnSends.nil.error
  split at h
  · cases h; exact OwnSends.nil.error
  · exact replyOrRemove_own h

theorem routeRulesSources_own {message : RulesSourcesMessage}
    (h : routeRulesSources registry reg sender outcome message = .ok (reg', sends)) :
    OwnSends (.rulesSources message) sends := by
  unfold routeRulesSources at h
  simp only at h
  split at h
  · cases h; exact OwnSends.nil.error
  split at h
  · cases h; exact OwnSends.nil.error
  next recipient _ =>
  split at h
  · cases h; exact OwnSends.nil.error
  split at h
  · cases h; exact (OwnSends.nil.sent recipient).error
  · cases h
    split
    · exact OwnSends.nil.sent recipient
    · exact (OwnSends.nil.sent recipient).error

theorem routeSourceMatches_own {message : SourceMatchesMessage}
    (h : routeSourceMatches registry reg sender outcome message = .ok (reg', sends)) :
    OwnSends (.sourceMatches message) sends := by
  unfold routeSourceMatches at h
  simp only at h
  split at h
  · cases h; exact OwnSends.nil.error
  split at h
  · cases h; exact OwnSends.nil.error
  split at h
  · cases h; exact OwnSends.nil.error
  split at h
  · cases h; exact OwnSends.nil.error
  · exact replyOrRemove_own h

theorem routeSourceNavigationState_own {message : SourceNavigationStateMessage}
    (h : routeSourceNavigationState registry reg sender outcome message = .ok (reg', sends)) :
    OwnSends (.sourceNavigationState message) sends := by
  unfold routeSourceNavigationState at h
  simp only at h
  split at h
  · cases h; exact OwnSends.nil.error
  split at h
  · cases h; exact OwnSends.nil.error
  split at h
  · cases h; exact OwnSends.nil.error
  split at h
  · cases h; exact OwnSends.nil.error
  split at h
  · cases h; exact OwnSends.nil.error
  · exact replyOrRemove_own h

theorem routePageRefresh_own {message : PageRefreshMessage}
    (h : routePageRefresh registry reg sender outcome message = .ok (reg', sends)) :
    OwnSends (.pageRefresh message) sends ∧ reg' = reg := by
  unfold routePageRefresh at h
  split at h
  · cases h; exact ⟨OwnSends.nil.error, rfl⟩
  · cases h; exact ⟨OwnSends.nil.clients _, rfl⟩

theorem OwnSends.deliveries {message : PinOpMessage} (h : OwnSends message sends)
    (hm : message.repliesTo = none) (key : RouteKey) : deliveriesOf key sends = [] := by
  unfold deliveriesOf
  rw [List.filter_eq_nil_iff]
  intro d hd
  rcases h d hd with he | ⟨e, he⟩
  · simp [he, hm]
  · simp [he, PinOpMessage.repliesTo]

/-! ## A whole step -/

theorem routeMessage_route {message : PinOpMessage}
    (h : routeMessage registry reg sender outcome message = .ok (reg', sends)) (key : RouteKey) :
    RouteStep key (reg.stored key) (.routed sender.id message sends) (reg'.stored key) := by
  cases message with
  | inspect m => exact routeInspect_route h key
  | resolution m => exact routeResolution_route h key
  | rulesSources m => exact routeRulesSources_route h key
  | sourceMatches m => exact routeSourceMatches_route h key
  | sourceOpen m => exact (routeSourceOpen_request h).route key
  | rulesOpen m => exact (routeRulesOpen_request h).route key
  | presentationSettings m => exact (routePresentationSettings_request h).route key
  | sourceNavigate m => exact (routeSourceNavigate_request h).route key
  | sourceNavigationState m => exact routeSourceNavigationState_route h key
  | pageRefresh m =>
    obtain ⟨hown, rfl⟩ := routePageRefresh_own h
    exact .quiet (.inl rfl) (hown.deliveries rfl key)
  | error m =>
    cases h
    exact .quiet (.inl rfl) ((OwnSends.nil.sent sender).deliveries rfl key)
  | other => cases h; exact .quiet (.inl rfl) rfl

theorem routeMessage_forward {message : PinOpMessage}
    (h : routeMessage registry reg sender outcome message = .ok (reg', sends)) {d : Send}
    (hd : d ∈ forwardsOf key sends) :
    d.message = message ∧ ∃ r, reg.stored key = some r ∧ r.originConnectionId = sender.id ∧
      r.ideConnectionId = some d.recipient ∧ Permits r message := by
  have hnone : forwardsOf key sends = [] → False := fun he => by rw [he] at hd; cases hd
  cases message with
  | sourceOpen m => exact (routeSourceOpen_request h).forwarded key d hd
  | rulesOpen m => exact (routeRulesOpen_request h).forwarded key d hd
  | presentationSettings m => exact (routePresentationSettings_request h).forwarded key d hd
  | sourceNavigate m => exact (routeSourceNavigate_request h).forwarded key d hd
  | inspect m => exact (hnone ((routeInspect_own h).forwards rfl key)).elim
  | resolution m => exact (hnone ((routeResolution_own h).forwards rfl key)).elim
  | rulesSources m => exact (hnone ((routeRulesSources_own h).forwards rfl key)).elim
  | sourceMatches m => exact (hnone ((routeSourceMatches_own h).forwards rfl key)).elim
  | sourceNavigationState m => exact (hnone ((routeSourceNavigationState_own h).forwards rfl key)).elim
  | pageRefresh m => exact (hnone ((routePageRefresh_own h).1.forwards rfl key)).elim
  | error m => cases h; exact (hnone ((OwnSends.nil.sent sender).forwards rfl key)).elim
  | other => cases h; exact (hnone rfl).elim

namespace BridgeState

variable {b b' : BridgeState} {e : Event}

theorem step_route (h : Step b e b') (key : RouteKey) :
    RouteStep key (b.route key) e (b'.route key) := by
  cases h with
  | register _ => exact .untouched rfl
  | remove hc => exact .quiet (removeKeys_stored hc key) rfl
  | message outcome _ h => exact routeMessage_route h key

/-- A forwarded request is the routed message; its sender is the origin of the route, its
recipient the owner, and the route permits it. -/
theorem step_forward (h : Step b e b') {d : Send} (hd : d ∈ e.forwards key) :
    ∃ r sends, b.route key = some r ∧ e = .routed r.originConnectionId d.message sends ∧
      r.ideConnectionId = some d.recipient ∧ Permits r d.message := by
  cases h with
  | register _ => cases hd
  | remove _ => cases hd
  | message outcome _ h =>
    obtain ⟨hm, r, hr, ho, hi, hp⟩ := routeMessage_forward h hd
    exact ⟨r, _, hr, by rw [hm, ho], hi, hm ▸ hp⟩

end BridgeState

end PinOp.Bridge
