import PinOp.Bridge.System

/-!
# The bridge never throws

The error of the reply routes is the only one a step can end in, and an indexed registry
does not raise it. The index holds in every state of a run, so whatever a client sends,
and however the sends turn out, there is a next step.
-/

namespace PinOp.Bridge

open PinOp.Lib PinOp.Protocol ReplyRouteRegistry

variable {registry : ClientRegistry} {reg reg' : ReplyRouteRegistry} {sender : RegisteredClient}
  {outcome : Outcome} {key : RouteKey}

/-- Handling succeeds and leaves an indexed registry. -/
def Handled (res : Routed) : Prop := ∃ reg sends, res = .ok (reg, sends) ∧ reg.Indexed

theorem Handled.ok (h : reg.Indexed) (sends : List Send) : Handled (.ok (reg, sends)) :=
  ⟨reg, sends, rfl, h⟩

theorem remove_ok (h : reg.Indexed) (key : RouteKey) :
    ∃ b reg', reg.remove key = .ok (b, reg') ∧ reg'.Indexed := by
  unfold ReplyRouteRegistry.remove
  cases hr : reg.stored key with
  | none => exact ⟨false, reg, rfl, h⟩
  | some r =>
    obtain ⟨reg', hok, hi, -⟩ := h.removeByKey hr
    exact ⟨true, reg', by rw [hok]; rfl, hi⟩

theorem replyOrRemove_handled (h : reg.Indexed) (recipient : Option RegisteredClient)
    (message : PinOpMessage) :
    Handled (replyOrRemove reg sender outcome key recipient message) := by
  obtain ⟨b, reg', hok, hi⟩ := remove_ok h key
  unfold replyOrRemove
  rw [hok]
  cases recipient with
  | none => exact .ok hi _
  | some c =>
    dsimp only
    split
    · exact .ok h _
    · exact .ok hi _

theorem forwardRequest_handled {touched : ReplyRouteRegistry} (h : reg.Indexed)
    (ht : touched.Indexed) (route : ReplyRoute) (capability : ProtocolCapability)
    (message : PinOpMessage) :
    Handled (forwardRequest registry reg sender outcome route capability message touched) := by
  unfold forwardRequest
  split
  · exact .ok h _
  · exact .ok ht _

theorem routeInspect_handled (h : reg.Indexed) (message : InspectMessage) :
    Handled (routeInspect registry reg sender outcome message) := by
  unfold routeInspect
  split
  · exact .ok h _
  simp only
  split
  · exact .ok h _
  split
  · exact .ok h _
  have hc : ∃ res, reg.commitRegistration (reg.register ⟨message.sessionId, message.messageId⟩
      sender.id (message.ruleEvidence.rules.map InspectRuleEvidence.ruleRef)) = .ok res ∧
      res.2.Indexed :=
    h.commitRegistration fun _ _ => ⟨_, _, _, rfl⟩
  obtain ⟨⟨committed, reg'⟩, hok, hi⟩ := hc
  rw [hok]
  exact .ok hi _

theorem routeResolution_handled (h : reg.Indexed) (message : ResolutionMessage) :
    Handled (routeResolution registry reg sender outcome message) := by
  unfold routeResolution
  simp only
  split
  · exact .ok h _
  split
  · exact .ok h _
  have hk := claimAuthority_keeps h ⟨message.sessionId, message.inspectMessageId⟩ sender.id
    message.resolutionGeneration true
  split
  · next hc => rw [claimAuthority_none hc]; exact .ok h _
  · next hc =>
    have hi := hk.1
    rw [show reg.claimAuthority _ _ _ _ = _ from hc] at hi
    exact replyOrRemove_handled hi _ _

theorem routeRulesSources_handled (h : reg.Indexed) (message : RulesSourcesMessage) :
    Handled (routeRulesSources registry reg sender outcome message) := by
  unfold routeRulesSources
  simp only
  split
  · exact .ok h _
  split
  · exact .ok h _
  split
  · exact .ok h _
  next prepared _ =>
  split
  · exact .ok h _
  · exact .ok (commitRulesSources_keeps h prepared).1 _

theorem routeSourceMatches_handled (h : reg.Indexed) (message : SourceMatchesMessage) :
    Handled (routeSourceMatches registry reg sender outcome message) := by
  unfold routeSourceMatches
  simp only
  split
  · exact .ok h _
  split
  · exact .ok h _
  split
  · exact .ok h _
  have hinv := claimSourceInvalidation_keeps h ⟨message.sessionId, message.inspectMessageId⟩
    sender.id message.resolutionGeneration
  have hrep := replaceMatchIds_keeps h ⟨message.sessionId, message.inspectMessageId⟩
    sender.id message.resolutionGeneration (matchIds message)
  split
  · next hc =>
    split at hc
    · rw [claimSourceInvalidation_none hc]; exact .ok h _
    · rw [replaceMatchIds_none hc]; exact .ok h _
  · next hc =>
    split at hc
    · rw [hc] at hinv; exact replyOrRemove_handled hinv.1 _ _
    · rw [hc] at hrep; exact replyOrRemove_handled hrep.1 _ _

theorem routeSourceOpen_handled (h : reg.Indexed) (message : SourceOpenMessage) :
    Handled (routeSourceOpen registry reg sender outcome message) := by
  unfold routeSourceOpen
  simp only
  split
  · exact .ok h _
  split
  · exact .ok h _
  split
  · exact .ok h _
  · exact forwardRequest_handled h (resolve_keeps h _).1 _ _ _

theorem routeRulesOpen_handled (h : reg.Indexed) (message : RulesOpenMessage) :
    Handled (routeRulesOpen registry reg sender outcome message) := by
  unfold routeRulesOpen
  simp only
  split
  · exact .ok h _
  have ha := authorizeRulesOpen_keeps h ⟨message.sessionId, message.inspectMessageId⟩ sender.id
    message.rulesGeneration message.openAuthorityId
  split
  · next hc => rw [hc] at ha; exact .ok ha.1 _
  · next hc => rw [hc] at ha; exact forwardRequest_handled ha.1 ha.1 _ _ _

theorem routePresentationSettings_handled (h : reg.Indexed)
    (message : PresentationSettingsMessage) :
    Handled (routePresentationSettings registry reg sender outcome message) := by
  unfold routePresentationSettings
  simp only
  split
  · exact .ok h _
  split
  · exact .ok h _
  split
  · exact .ok h _
  · exact forwardRequest_handled h (resolve_keeps h _).1 _ _ _

theorem routeSourceNavigate_handled (h : reg.Indexed) (message : SourceNavigateMessage) :
    Handled (routeSourceNavigate registry reg sender outcome message) := by
  unfold routeSourceNavigate
  simp only
  split
  · exact .ok h _
  split
  · exact .ok h _
  split
  · exact .ok h _
  · exact forwardRequest_handled h (resolve_keeps h _).1 _ _ _

theorem routeSourceNavigationState_handled (h : reg.Indexed)
    (message : SourceNavigationStateMessage) :
    Handled (routeSourceNavigationState registry reg sender outcome message) := by
  unfold routeSourceNavigationState
  simp only
  split
  · exact .ok h _
  split
  · exact .ok h _
  split
  · exact .ok h _
  split
  · exact .ok h _
  split
  · exact .ok h _
  · exact replyOrRemove_handled (resolve_keeps h _).1 _ _

/-- Handling any message succeeds on an indexed registry and leaves it indexed. -/
theorem routeMessage_handled (h : reg.Indexed) (message : PinOpMessage) :
    Handled (routeMessage registry reg sender outcome message) := by
  cases message with
  | inspect m => exact routeInspect_handled h m
  | resolution m => exact routeResolution_handled h m
  | rulesSources m => exact routeRulesSources_handled h m
  | sourceMatches m => exact routeSourceMatches_handled h m
  | sourceOpen m => exact routeSourceOpen_handled h m
  | rulesOpen m => exact routeRulesOpen_handled h m
  | presentationSettings m => exact routePresentationSettings_handled h m
  | sourceNavigate m => exact routeSourceNavigate_handled h m
  | sourceNavigationState m => exact routeSourceNavigationState_handled h m
  | pageRefresh m =>
    simp only [routeMessage, routePageRefresh]
    split <;> exact .ok h _
  | error m => exact .ok h _
  | other => exact .ok h _

namespace BridgeState

variable {limit : ℕ+} {h : Trace} {b b' : BridgeState} {e : Event}

theorem step_indexed (hb : b.replyRoutes.Indexed) (hs : Step b e b') : b'.replyRoutes.Indexed := by
  cases hs with
  | register _ => exact hb
  | remove hc =>
    obtain ⟨reg, hok, hi, -⟩ := hb.removeClient _
    rw [hc] at hok
    cases hok
    exact hi
  | message outcome _ hm =>
    obtain ⟨reg, sends, hok, hi⟩ := routeMessage_handled hb _
    rw [hm] at hok
    cases hok
    exact hi

theorem indexed_run (hr : Reaches limit h b) : b.replyRoutes.Indexed :=
  hr.invariant (P := fun b => b.replyRoutes.Indexed) (indexed_empty limit)
    fun _ _ _ hb hs => step_indexed hb hs

/-- In every state of a run a client may leave, and any message of a registered client is
handled, whichever of its sends succeed. -/
theorem reached_progress (hr : Reaches limit h b) :
    (∀ id, ∃ b', Step b (.removed id) b') ∧
      ∀ sender message outcome, b.registry.get sender.id = some sender →
        ∃ replyRoutes sends, routeMessage b.registry b.replyRoutes sender outcome message =
          .ok (replyRoutes, sends) ∧
          Step b (.routed sender.id message sends) { b with replyRoutes } := by
  have hi := indexed_run hr
  constructor
  · intro id
    obtain ⟨reg, hok, -⟩ := hi.removeClient id
    exact ⟨_, .remove hok⟩
  · intro sender message outcome hsender
    obtain ⟨reg, sends, hok, -⟩ := routeMessage_handled hi message
    exact ⟨reg, sends, hok, .message outcome hsender hok⟩

/-- The inspect comes once more, and nothing can be sent. -/
theorem reached_progress_sample : ∃ replyRoutes sends,
    routeMessage Sample.played.2.registry Sample.played.2.replyRoutes Sample.browser
        (fun _ => false) (.inspect Sample.inspect) = .ok (replyRoutes, sends) ∧
      Step Sample.played.2 (.routed "b" (.inspect Sample.inspect) sends)
        { Sample.played.2 with replyRoutes } :=
  (reached_progress Sample.run).2 Sample.browser (.inspect Sample.inspect) (fun _ => false) rfl

end BridgeState

end PinOp.Bridge
