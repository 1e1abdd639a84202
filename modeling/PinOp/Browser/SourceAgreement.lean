import PinOp.Bridge.SourceAuthority
import PinOp.Browser.CorrelationAuthority

/-!
# The bridge and the browser on source authority

The bridge decides which `source.open` it forwards by its route of the inspect, the browser
decides which one it sends by its correlation. Here the replies about the source that a run
of the bridge delivered on a route are handed, in their order, to a store that has just
recorded the inspect. The two keep the same authority after every delivery that `Conforms`;
that is a property of the messages alone.
-/

namespace PinOp.Browser

open PinOp.Lib PinOp.Protocol PinOp.Bridge InspectCorrelationStore

/-- Hand a delivered message to the store. -/
def hand (peerContext : PeerContext) (store : InspectCorrelationStore) :
    PinOpMessage → InspectCorrelationStore
  | .resolution m => (store.accept m peerContext).2
  | .sourceMatches m => (store.acceptSourceMatches m peerContext).2
  | _ => store

/-- The store after a list of messages, the newest first. -/
def handed (peerContext : PeerContext) (store : InspectCorrelationStore) :
    List PinOpMessage → InspectCorrelationStore
  | [] => store
  | m :: log => hand peerContext (handed peerContext store log) m

/-- The first delivered resolution of the largest generation; messages newest first. -/
def currentResolution : List PinOpMessage → Option ResolutionMessage
  | [] => none
  | .resolution m :: log =>
    if ∀ res ∈ currentResolution log, res.resolutionGeneration < m.resolutionGeneration then some m
    else currentResolution log
  | _ :: log => currentResolution log

/-- The newest message is a newer resolution than any before, or matches without repetition
for the current resolution and its document, or takes matches back before any resolution. -/
def Conforms : List PinOpMessage → Prop
  | [] => True
  | .resolution m :: log =>
    ∀ res ∈ currentResolution log, res.resolutionGeneration < m.resolutionGeneration
  | .sourceMatches m :: log =>
    match currentResolution log with
    | none => m.matches = []
    | some res => m.resolutionGeneration = res.resolutionGeneration ∧
        res.document = some m.document ∧ (matchIds m).Nodup
  | _ :: _ => False

/-- A parsed message about the source of one inspect, from the peer of a context. -/
def Proper (peerContext : PeerContext) (id : String) : PinOpMessage → Prop
  | .resolution m => m.valid = true ∧ m.inspectMessageId = id ∧
      payloadMatchesPeer m.sessionId m.source peerContext = true
  | .sourceMatches m => m.valid = true ∧ m.inspectMessageId = id ∧
      payloadMatchesPeer m.sessionId m.source peerContext = true
  | _ => False

/-- The browser may open exactly the matches for which the bridge forwards a `source.open`. -/
def Agree (route : StoredReplyRoute) (store : InspectCorrelationStore) (channel : String)
    (tabId windowId : ℤ) (id : String) : Prop :=
  ∀ (generation : ℤ) (matchId : String),
    (store.authorizeSourceOpen channel tabId windowId id generation matchId).isSome = true ↔
      (∃ g : ℕ, (g : ℤ) = generation ∧ route.resolutionGeneration = some (g : JsNumber)) ∧
        matchId ∈ route.excerptMatchIds

/-! ## The browser's side -/

section Store

variable {store store' : InspectCorrelationStore} {peerContext : PeerContext}
  {c : InspectCorrelation} {log : List PinOpMessage} {id channel : String} {tabId windowId : ℤ}
  {ruleEvidence : InspectRuleEvidenceBatch}

/-- What the correlation remembers of the messages handed to the store. -/
structure Remembers (peerContext : PeerContext) (c : InspectCorrelation)
    (log : List PinOpMessage) : Prop where
  generation : c.resolutionGeneration =
    (currentResolution log).elim (-1 : ℤ) fun res => res.resolutionGeneration
  document : c.document = (currentResolution log).bind ResolutionMessage.document
  context : c.sourcePeerContext = (currentResolution log).map fun _ => peerContext
  session : c.sessionId = (currentResolution log).map fun _ => peerContext.sessionId
  source : c.sourceId = (currentResolution log).map fun _ => peerContext.sourceId
  window : c.windowId = peerContext.windowId

/-- The ids a conforming message leaves. -/
def idsOf : List PinOpMessage → Finset String
  | .sourceMatches m :: _ => (matchIds m).toFinset
  | _ => ∅

theorem collectMatchIds_nodup {ids : Finset String} {excerpts : List SourceExcerpt}
    (hnd : (excerpts.map SourceExcerpt.matchId).Nodup)
    (hnew : ∀ m ∈ excerpts, m.matchId ∉ ids) :
    collectMatchIds ids excerpts =
      some (ids ∪ (excerpts.map SourceExcerpt.matchId).toFinset) := by
  induction excerpts generalizing ids with
  | nil => simp [collectMatchIds]
  | cons m rest ih =>
    rw [List.map_cons, List.nodup_cons] at hnd
    have hm : m.matchId ∉ ids := hnew m List.mem_cons_self
    rw [collectMatchIds, if_neg hm, ih hnd.2, List.map_cons, List.toFinset_cons,
      Finset.insert_union, Finset.union_insert]
    intro m' hm' hmem
    rcases Finset.mem_insert.1 hmem with heq | hmem
    · exact hnd.1 (heq ▸ List.mem_map_of_mem hm')
    · exact hnew m' (List.mem_cons_of_mem _ hm') hmem

/-- What handing a message does to the correlation. -/
structure Handed (peerContext : PeerContext) (c c' : InspectCorrelation)
    (log : List PinOpMessage) : Prop where
  remembers : Remembers peerContext c' log
  channel : c'.channel = c.channel
  tab : c'.tabId = c.tabId
  ids : Conforms log → c'.matchIds = idsOf log

theorem Remembers.not_owned_by_other (h : Remembers peerContext c log) :
    ownedByOtherPeer c peerContext = false := by
  simp only [ownedByOtherPeer, h.source, h.session]
  cases currentResolution log <;> simp

theorem Remembers.newer_iff (h : Remembers peerContext c log) {g : ℕ} :
    c.resolutionGeneration < g ↔
      ∀ res ∈ currentResolution log, res.resolutionGeneration < g := by
  rw [h.generation]
  cases currentResolution log with
  | none => simp; omega
  | some res => simp

/-- A resolution is accepted exactly when it is newer than all before. -/
theorem hand_resolution {m : ResolutionMessage} (htrusted : peerContext.trusted = true)
    (hc : store.correlations.get? id = some c) (hrem : Remembers peerContext c log)
    (hproper : Proper peerContext id (.resolution m)) :
    ∃ c', (hand peerContext store (.resolution m)).correlations.get? id = some c' ∧
      Handed peerContext c c' (.resolution m :: log) := by
  obtain ⟨hvalid, rfl, hpayload⟩ := hproper
  have hnewer := hrem.newer_iff (g := m.resolutionGeneration)
  by_cases hnew : ∀ res ∈ currentResolution log, res.resolutionGeneration < m.resolutionGeneration
  · have hacc : (store.accept m peerContext).2 = store.writeLast m.inspectMessageId
        (resolvedBy c m peerContext (store.authorityRevisionSequence + 1)) := by
      have hlt := hnewer.2 hnew
      unfold accept
      rw [if_neg (by simp [htrusted, hvalid]), hc]
      dsimp only
      rw [if_neg (by simp [hrem.window, hpayload, hrem.not_owned_by_other, hlt])]
    have hcur : currentResolution (.resolution m :: log) = some m := if_pos hnew
    refine ⟨resolvedBy c m peerContext (store.authorityRevisionSequence + 1),
      by rw [hand, hacc, get?_writeLast, if_pos rfl], ⟨?_, rfl, rfl, fun _ => rfl⟩⟩
    exact ⟨by rw [hcur]; rfl, by rw [hcur]; rfl, by rw [hcur]; rfl, by rw [hcur]; rfl,
      by rw [hcur]; rfl, hrem.window⟩
  · have hacc : (store.accept m peerContext).2 = store := by
      have hle := mt hnewer.1 hnew
      unfold accept
      rw [if_neg (by simp [htrusted, hvalid]), hc]
      dsimp only
      rw [if_pos (.inr (.inr (.inl (not_lt.1 hle))))]
    have hcur : currentResolution (.resolution m :: log) = currentResolution log := if_neg hnew
    refine ⟨c, by rw [hand, hacc, hc], ⟨?_, rfl, rfl, fun hconf => absurd hconf hnew⟩⟩
    exact ⟨hcur ▸ hrem.generation, hcur ▸ hrem.document, hcur ▸ hrem.context,
      hcur ▸ hrem.session, hcur ▸ hrem.source, hrem.window⟩

theorem Remembers.of_eq {log' : List PinOpMessage} {c' : InspectCorrelation}
    (h : Remembers peerContext c log) (hlog : currentResolution log' = currentResolution log)
    (hgen : c'.resolutionGeneration = c.resolutionGeneration) (hdoc : c'.document = c.document)
    (hctx : c'.sourcePeerContext = c.sourcePeerContext) (hsession : c'.sessionId = c.sessionId)
    (hsource : c'.sourceId = c.sourceId) (hwindow : c'.windowId = c.windowId) :
    Remembers peerContext c' log' :=
  ⟨hgen.trans (hlog ▸ h.generation), hdoc.trans (hlog ▸ h.document),
    hctx.trans (hlog ▸ h.context), hsession.trans (hlog ▸ h.session),
    hsource.trans (hlog ▸ h.source), hwindow.trans h.window⟩

/-- Matches that conform are accepted; others may be, and change no more than the ids. -/
theorem hand_sourceMatches {m : SourceMatchesMessage} (htrusted : peerContext.trusted = true)
    (hc : store.correlations.get? id = some c) (hrem : Remembers peerContext c log)
    (hproper : Proper peerContext id (.sourceMatches m)) :
    ∃ c', (hand peerContext store (.sourceMatches m)).correlations.get? id = some c' ∧
      Handed peerContext c c' (.sourceMatches m :: log) := by
  obtain ⟨hvalid, rfl, hpayload⟩ := hproper
  have hguard : ¬ (c.windowId ≠ peerContext.windowId ∨
      ¬ payloadMatchesPeer m.sessionId m.source peerContext = true ∨
      (c.sourceId ≠ none ∧ ¬ correlationMatchesPeer c peerContext = true)) := by
    simp only [hrem.window, hpayload, correlationMatchesPeer, hrem.source, hrem.session]
    cases currentResolution log <;> simp
  cases hcur : currentResolution log with
  | none =>
    have hgen : c.resolutionGeneration = -1 := by rw [hrem.generation, hcur]; rfl
    by_cases hempty : m.matches.length = 0
    · have hacc : (store.acceptSourceMatches m peerContext).2 =
          store.writeInPlace m.inspectMessageId
            (clearedBy c (store.authorityRevisionSequence + 1)) := by
        unfold acceptSourceMatches
        rw [if_neg (by simp [htrusted, hvalid]), hc]
        dsimp only
        rw [if_neg hguard, if_pos ⟨hempty, by omega⟩]
      refine ⟨clearedBy c (store.authorityRevisionSequence + 1),
        by rw [hand, hacc, get?_writeInPlace, if_pos rfl],
        ⟨hrem.of_eq rfl rfl rfl rfl rfl rfl rfl, rfl, rfl, ?_⟩⟩
      rintro -
      rw [idsOf, matchIds, List.length_eq_zero_iff.1 hempty]
      rfl
    · have hacc : (store.acceptSourceMatches m peerContext).2 = store := by
        unfold acceptSourceMatches
        rw [if_neg (by simp [htrusted, hvalid]), hc]
        dsimp only
        rw [if_neg hguard, if_neg (fun h => hempty h.1), if_pos]
        simp only [matchesCurrentAuthority, hgen, decide_eq_true_eq]
        omega
      refine ⟨c, by rw [hand, hacc, hc], ⟨hrem.of_eq rfl rfl rfl rfl rfl rfl rfl, rfl, rfl, ?_⟩⟩
      intro hconf
      simp only [Conforms, hcur] at hconf
      rw [hconf] at hempty
      exact absurd rfl hempty
  | some res =>
    have hgen : c.resolutionGeneration = res.resolutionGeneration := by
      rw [hrem.generation, hcur]; rfl
    have hnotempty : ¬ (m.matches.length = 0 ∧ c.resolutionGeneration < 0) := by omega
    by_cases hcurrent : matchesCurrentAuthority m c peerContext = true
    · cases hids : collectMatchIds ∅ m.matches with
      | none =>
        have hacc : (store.acceptSourceMatches m peerContext).2 = store := by
          unfold acceptSourceMatches
          rw [if_neg (by simp [htrusted, hvalid]), hc]
          dsimp only
          rw [if_neg hguard, if_neg hnotempty, if_neg (not_not.2 hcurrent), hids]
        refine ⟨c, by rw [hand, hacc, hc], ⟨hrem.of_eq rfl rfl rfl rfl rfl rfl rfl, rfl, rfl, ?_⟩⟩
        intro hconf
        simp only [Conforms, hcur] at hconf
        rw [collectMatchIds_nodup hconf.2.2 (fun _ _ => Finset.notMem_empty _)] at hids
        cases hids
      | some ids =>
        have hacc : (store.acceptSourceMatches m peerContext).2 =
            store.writeInPlace m.inspectMessageId (matchedBy c m peerContext ids
              (store.authorityRevisionSequence + 1)) := by
          unfold acceptSourceMatches
          rw [if_neg (by simp [htrusted, hvalid]), hc]
          dsimp only
          rw [if_neg hguard, if_neg hnotempty, if_neg (not_not.2 hcurrent), hids]
        refine ⟨matchedBy c m peerContext ids (store.authorityRevisionSequence + 1),
          by rw [hand, hacc, get?_writeInPlace, if_pos rfl],
          ⟨hrem.of_eq rfl rfl rfl ?_ rfl rfl rfl, rfl, rfl, ?_⟩⟩
        · rw [matchedBy, hrem.context, hcur]
          simp
        · rintro -
          rw [matchedBy, collectMatchIds_some hids, Finset.empty_union]
          rfl
    · have hacc : (store.acceptSourceMatches m peerContext).2 = store := by
        unfold acceptSourceMatches
        rw [if_neg (by simp [htrusted, hvalid]), hc]
        dsimp only
        rw [if_neg hguard, if_neg hnotempty, if_pos hcurrent]
      refine ⟨c, by rw [hand, hacc, hc], ⟨hrem.of_eq rfl rfl rfl rfl rfl rfl rfl, rfl, rfl, ?_⟩⟩
      intro hconf
      simp only [Conforms, hcur] at hconf
      refine absurd ?_ hcurrent
      simp [matchesCurrentAuthority, correlationMatchesPeer, hgen, hrem.context, hrem.window,
        hrem.session, hrem.source, hrem.document, hcur, hpayload, hconf.1, hconf.2.1]

/-- The correlation of a recorded inspect after any messages. -/
theorem handed_correlation {store₀ : InspectCorrelationStore}
    (hrecord : store.record channel id tabId windowId ruleEvidence = .ok store₀)
    (htrusted : peerContext.trusted = true) (hwindow : peerContext.windowId = windowId)
    (hproper : ∀ m ∈ log, Proper peerContext id m) :
    ∃ c, (handed peerContext store₀ log).correlations.get? id = some c ∧
      Remembers peerContext c log ∧ c.channel = channel ∧ c.tabId = tabId ∧
      (Conforms log → c.matchIds = idsOf log) := by
  induction log with
  | nil =>
    obtain ⟨-, -, -, -, hnew, -⟩ := record_ok hrecord
    exact ⟨_, hnew, ⟨rfl, rfl, rfl, rfl, rfl, hwindow.symm⟩, rfl, rfl, fun _ => rfl⟩
  | cons m log ih =>
    obtain ⟨c, hc, hrem, hchannel, htab, -⟩ := ih fun m' hm' => hproper m' (.tail _ hm')
    have hm := hproper m (.head _)
    obtain ⟨c', hc', hh⟩ : ∃ c', (handed peerContext store₀ (m :: log)).correlations.get? id =
        some c' ∧ Handed peerContext c c' (m :: log) := by
      cases m with
      | resolution m => exact hand_resolution htrusted hc hrem hm
      | sourceMatches m => exact hand_sourceMatches htrusted hc hrem hm
      | _ => exact hm.elim
    exact ⟨c', hc', hh.remembers, hh.channel.trans hchannel, hh.tab.trans htab, hh.ids⟩

end Store

/-! ## Both sides -/

section Agreement

variable {limit : ℕ+} {h : BridgeState.Trace} {b : BridgeState} {key : RouteKey}
  {r : StoredReplyRoute} {store store₀ : InspectCorrelationStore} {peerContext : PeerContext}
  {channel : String} {tabId windowId : ℤ} {ruleEvidence : InspectRuleEvidenceBatch}

/-- The messages about the source delivered on the present incarnation of a route, the newest
first. -/
def delivered (key : RouteKey) (h : BridgeState.Trace) : List PinOpMessage :=
  (BridgeState.sourceReplies key h).map Send.message

theorem delivered_cons {b b' : BridgeState} {e : Event} (hr : b.route key = some r) :
    delivered key (⟨b, e, b'⟩ :: h) =
      ((e.deliveries key).filter fun d => (sourceGeneration d.message).isSome).map Send.message ++
        delivered key h := by
  rw [delivered, BridgeState.sourceReplies_cons hr, List.map_append]; rfl

/-- A route allows the ids of the last message about the source. -/
theorem excerpts_last (hr : BridgeState.Reaches limit h b) :
    ∀ r, b.route key = some r → r.excerptMatchIds = idsOf (delivered key h) := by
  refine Run.invariant_history (P := fun h (b : BridgeState) => ∀ r, b.route key = some r →
    r.excerptMatchIds = idsOf (delivered key h)) (fun r hr => by cases hr) ?_ hr
  intro h b e b' _ ih hstep r' hr'
  have hroute := BridgeState.step_route hstep key
  rw [hr'] at hroute
  generalize hb : b.route key = o at hroute
  cases hroute with
  | untouched hd => rw [delivered_cons hb, hd]; exact ih _ hb
  | created hkey hd =>
    rw [delivered, BridgeState.sourceReplies, BridgeState.replies_created hb]; rfl
  | resolved hown hgen hd => rw [delivered_cons hb, hd]; rfl
  | @invalidatedUnowned r i m sends hnone hempty hd =>
    rw [delivered_cons hb, hd]
    simp only [isEmptyInvalidation, decide_eq_true_eq] at hempty
    change ∅ = (matchIds m).toFinset
    rw [matchIds, List.length_eq_zero_iff.1 hempty.1]; rfl
  | @invalidated r i m sends hown hempty hgen hd =>
    rw [delivered_cons hb, hd]
    simp only [isEmptyInvalidation, decide_eq_true_eq] at hempty
    change ∅ = (matchIds m).toFinset
    rw [matchIds, List.length_eq_zero_iff.1 hempty.1]; rfl
  | matched hown hgen hd => rw [delivered_cons hb, hd]; rfl
  | published hown hgen hids hcount hd =>
    have hbefore := ih _ hb
    rw [delivered_cons hb, hd]
    exact hbefore
  | navigated hown hd => rw [delivered_cons hb, hd]; exact ih _ hb

/-- A match the route allows was published for the generation of the route, and for the
current resolution if the message conforms. -/
theorem published_for (hr : BridgeState.Reaches limit h b) (hroute : b.route key = some r)
    (hconf : Conforms (delivered key h)) {x : String} (hx : x ∈ r.excerptMatchIds) :
    ∃ m log res, delivered key h = .sourceMatches m :: log ∧ x ∈ matchIds m ∧
      r.resolutionGeneration = some (m.resolutionGeneration : JsNumber) ∧
      currentResolution (delivered key h) = some res ∧
      m.resolutionGeneration = res.resolutionGeneration := by
  obtain ⟨m, hlast, hgen, hmem⟩ := BridgeState.excerpts_delivered hr r hroute x hx
  obtain ⟨log, hlog⟩ : ∃ log, delivered key h = .sourceMatches m :: log := by
    rw [delivered]
    cases hs : BridgeState.sourceReplies key h with
    | nil => rw [hs] at hlast; cases hlast
    | cons d rest =>
      rw [hs, List.head?_cons, Option.some.injEq] at hlast
      exact ⟨_, by rw [hlast]; rfl⟩
  rw [hlog] at hconf
  cases hcur : currentResolution log with
  | none =>
    simp only [Conforms, hcur] at hconf
    rw [matchIds, hconf] at hmem
    cases hmem
  | some res =>
    simp only [Conforms, hcur] at hconf
    exact ⟨m, log, res, hlog, hmem, hgen, by rw [hlog]; exact hcur, hconf.1⟩

/-- After every conforming delivery the bridge and the browser keep the same authority over
the source. -/
theorem sourceAgreement (hr : BridgeState.Reaches limit h b) (hroute : b.route key = some r)
    (hrecord : store.record channel key.inspectMessageId tabId windowId ruleEvidence = .ok store₀)
    (htrusted : peerContext.trusted = true) (hwindow : peerContext.windowId = windowId)
    (hproper : ∀ m ∈ delivered key h, Proper peerContext key.inspectMessageId m)
    (hconf : Conforms (delivered key h)) :
    Agree r (handed peerContext store₀ (delivered key h)) channel tabId windowId
      key.inspectMessageId := by
  obtain ⟨c, hc, hrem, hchannel, htab, hids⟩ :=
    handed_correlation hrecord htrusted hwindow hproper
  have hvalid := (record_ok hrecord).1
  simp only [validRecord, decide_eq_true_eq] at hvalid
  have hsame : c.matchIds = r.excerptMatchIds := (hids hconf).trans (excerpts_last hr r hroute).symm
  intro generation x
  rw [Option.isSome_iff_exists]
  simp only [authorizeSourceOpen_eq_some]
  constructor
  · rintro ⟨-, -, -, c', hc', -, -, -, rfl, hx, -⟩
    obtain ⟨-, hc', -⟩ := StoreSession.routed_eq_some.1 hc'
    rw [hc, Option.some.injEq] at hc'
    subst hc'
    rw [hsame] at hx
    obtain ⟨m, -, res, -, -, hgen, hcur, hres⟩ := published_for hr hroute hconf hx
    refine ⟨⟨m.resolutionGeneration, ?_, hgen⟩, hx⟩
    rw [hrem.generation, hcur, hres]; rfl
  · rintro ⟨⟨g, rfl, hg⟩, hx⟩
    obtain ⟨m, log, res, hlog, hm, hgen, hcur, hres⟩ := published_for hr hroute hconf hx
    obtain ⟨hmvalid, -, -⟩ := hproper (.sourceMatches m) (by rw [hlog]; exact .head _)
    simp only [SourceMatchesMessage.valid, decide_eq_true_eq] at hmvalid
    obtain ⟨-, -, -, hbound, -, -, hopaque, -⟩ := hmvalid
    rw [hg, Option.some.injEq, JsNumber.natCast_inj] at hgen
    refine ⟨_, ?_, ?_, c, ?_, peerContext, ?_, htrusted, ?_, hsame ▸ hx, rfl⟩
    · simp only [Limits.generation] at hbound
      simp only [isResolutionGeneration, isSafeInteger, Limits.generation, decide_eq_true_eq]
      omega
    · obtain ⟨excerpt, hexcerpt, rfl⟩ := List.mem_map.1 hm
      exact hopaque excerpt hexcerpt
    · refine StoreSession.routed_eq_some.2
        ⟨⟨hvalid.1, hvalid.2.2.1, hvalid.2.2.2.1, hvalid.2.1⟩, hc, hchannel, htab, ?_⟩
      rw [hrem.window, hwindow]
    · rw [hrem.context, hcur]; rfl
    · rw [hrem.generation, hcur, hgen, hres]; rfl

end Agreement

/-! ## Deliveries that do not conform -/

namespace Sample

def ruleEvidence : InspectRuleEvidenceBatch := ⟨[⟨"r1"⟩, ⟨"r2"⟩]⟩

def recordedStore : InspectCorrelationStore :=
  ((StoreSession.start (Nat.succPNat 3)).apply (.record "c" "m" 5 7 ruleEvidence)).store

/-- The two clients and the inspect, then messages of the IDE. -/
def deliver (messages : List PinOpMessage) : BridgeState.Trace × BridgeState :=
  ((BridgeState.initial (Nat.succPNat 1)).play (Bridge.Sample.labels.take 3 ++
    messages.map fun m => .message "i" m fun _ => true)).getD ([], .initial (Nat.succPNat 1))

def resolution (document : Option SourceDocument) : PinOpMessage :=
  .resolution ⟨"s", ⟨"editor"⟩, "m", 3, document⟩

def sourceMatches (excerpts : List SourceExcerpt) : PinOpMessage :=
  .sourceMatches ⟨"s", ⟨"editor"⟩, "m", 3, ⟨"a.css", "css"⟩, excerpts, 0⟩

def conforming : List PinOpMessage :=
  [resolution (some ⟨"a.css", "css"⟩), sourceMatches [⟨"x"⟩]]

/-- The resolution comes twice. -/
def repeated : List PinOpMessage := conforming ++ [resolution (some ⟨"a.css", "css"⟩)]

/-- The matches are of another document than the resolution. -/
def otherDocument : List PinOpMessage := [resolution none, sourceMatches [⟨"x"⟩]]

/-- A match id comes twice. -/
def duplicate : List PinOpMessage :=
  [resolution (some ⟨"a.css", "css"⟩), sourceMatches [⟨"x"⟩, ⟨"x"⟩]]

def storeAfter (messages : List PinOpMessage) : InspectCorrelationStore :=
  handed StoreSession.Sample.editor recordedStore (delivered Bridge.Sample.key (deliver messages).1)

theorem deliver_run (messages : List PinOpMessage) :
    BridgeState.Reaches (Nat.succPNat 1) (deliver messages).1 (deliver messages).2 := by
  unfold deliver
  cases hp : (BridgeState.initial (Nat.succPNat 1)).play (Bridge.Sample.labels.take 3 ++
      messages.map fun m => .message "i" m fun _ => true) with
  | none => exact .start
  | some played => exact BridgeState.play_run hp

/-- The route after the messages, computed. -/
def routeAfter (messages : List PinOpMessage) : StoredReplyRoute :=
  ((deliver messages).2.route Bridge.Sample.key).getD (ReplyRouteRegistry.createdRoute 0 "" ∅)

/-- Messages that the bridge delivers, with every part proper, and that leave the two sides with
different authorities. -/
def Disagreed (messages : List PinOpMessage) : Prop :=
  BridgeState.Reaches (Nat.succPNat 1) (deliver messages).1 (deliver messages).2 ∧
  delivered Bridge.Sample.key (deliver messages).1 = messages.reverse ∧
  (∀ m ∈ messages, Proper StoreSession.Sample.editor "m" m) ∧
  (deliver messages).2.route Bridge.Sample.key = some (routeAfter messages) ∧
  ¬ Agree (routeAfter messages) (storeAfter messages) "c" 5 7 "m"

theorem resolution_proper {d : Option SourceDocument} (hd : (d.all SourceDocument.valid) = true) :
    Proper StoreSession.Sample.editor "m" (resolution d) := by
  refine ⟨?_, rfl, rfl⟩
  simp only [ResolutionMessage.valid, hd]
  rfl

end Sample

open Sample

/-- A conforming run gives both sides authority over a match. -/
theorem sourceAgreement_sample :
    ((storeAfter conforming).authorizeSourceOpen "c" 5 7 "m" 3 "x").isSome = true ∧
      Agree (routeAfter conforming) (storeAfter conforming) "c" 5 7 "m" := by
  have hroute : (deliver conforming).2.route Bridge.Sample.key = some (routeAfter conforming) := rfl
  have hrecord : (InspectCorrelationStore.empty 4).record "c" Bridge.Sample.key.inspectMessageId 5 7
      ruleEvidence = .ok recordedStore := rfl
  refine ⟨rfl, sourceAgreement (deliver_run conforming) hroute hrecord rfl rfl ?_ ?_⟩
  · intro m hm
    have hlog : delivered Bridge.Sample.key (deliver conforming).1 = conforming.reverse := rfl
    rw [hlog] at hm
    simp only [conforming, List.reverse_cons, List.reverse_nil, List.nil_append,
      List.cons_append, List.mem_cons, List.not_mem_nil, or_false] at hm
    rcases hm with rfl | rfl
    · exact ⟨rfl, rfl, rfl⟩
    · exact ⟨rfl, rfl, rfl⟩
  · exact ⟨rfl, rfl, by decide⟩

/-- A repeated resolution, matches of another document and a repeated match id are delivered by
the bridge and refused by the browser. -/
theorem disagreement : Disagreed repeated ∧ Disagreed otherDocument ∧ Disagreed duplicate := by
  refine ⟨⟨deliver_run repeated, rfl, ?_, rfl, fun hagree => ?_⟩,
    ⟨deliver_run otherDocument, rfl, ?_, rfl, fun hagree => ?_⟩,
    ⟨deliver_run duplicate, rfl, ?_, rfl, fun hagree => ?_⟩⟩
  · intro m hm
    simp only [repeated, conforming, List.cons_append, List.nil_append, List.mem_cons,
      List.not_mem_nil, or_false] at hm
    rcases hm with rfl | rfl | rfl
    · exact resolution_proper rfl
    · exact ⟨rfl, rfl, rfl⟩
    · exact resolution_proper rfl
  · have hx := ((hagree 3 "x").1 rfl).2
    have hempty : (routeAfter repeated).excerptMatchIds = ∅ := rfl
    rw [hempty] at hx
    cases hx
  · intro m hm
    simp only [otherDocument, List.mem_cons, List.not_mem_nil, or_false] at hm
    rcases hm with rfl | rfl
    · exact resolution_proper rfl
    · exact ⟨rfl, rfl, rfl⟩
  · have hopen := (hagree 3 "x").2 ⟨⟨3, rfl, rfl⟩, by decide⟩
    cases hopen
  · intro m hm
    simp only [duplicate, List.mem_cons, List.not_mem_nil, or_false] at hm
    rcases hm with rfl | rfl
    · exact resolution_proper rfl
    · exact ⟨rfl, rfl, rfl⟩
  · have hopen := (hagree 3 "x").2 ⟨⟨3, rfl, rfl⟩, by decide⟩
    cases hopen

end PinOp.Browser
