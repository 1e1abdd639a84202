import PinOp.Browser.InspectCorrelationStore
import PinOp.Lib.Runs

/-!
# Runs of the correlation store

A session is a store with every prepared publication it has given out; its operations are
the mutating ones of the class, in any order. `CorrelationStep id s op c'` lists what one
operation can do to the correlation of one inspect, with the message it accepted, and the
revision it stamped. Reading operations are functions of the store and need no step.
-/

namespace PinOp.Browser

open PinOp.Lib PinOp.Protocol InspectCorrelationStore

inductive StoreOperation where
  | record (channel inspectMessageId : String) (tabId windowId : ℤ)
      (ruleEvidence : InspectRuleEvidenceBatch)
  | accept (message : ResolutionMessage) (peerContext : PeerContext)
  | acceptSourceMatches (message : SourceMatchesMessage) (peerContext : PeerContext)
  | prepareRulesSources (message : RulesSourcesMessage) (peerContext : PeerContext)
  | commit (handle : ℕ)
  | rollback (handle : ℕ)
  | discardSourcePresentationAuthority (authority : SourceAuthority)
  | discardRulesOpenAuthority (authority : RulesOpenAuthority)
  | discard (inspectMessageId : String)
  | disposeChannel (channel : String)
  | disposeTab (tabId : ℤ)
  | disposeWindow (windowId : ℤ)
  deriving DecidableEq

structure StoreSession where
  store : InspectCorrelationStore
  handles : List PreparedRulesSources
  deriving DecidableEq

/-- A message that an operation accepted. -/
inductive Accepted where
  | resolution (message : ResolutionMessage)
  | sourceMatches (message : SourceMatchesMessage)
  | rulesSources (message : RulesSourcesMessage)
  deriving DecidableEq

namespace Accepted

def inspectMessageId : Accepted → String
  | resolution m => m.inspectMessageId
  | sourceMatches m => m.inspectMessageId
  | rulesSources m => m.inspectMessageId

/-- The session and the IDE the message names as its source. -/
def origin : Accepted → String × String
  | resolution m => (m.sessionId, m.source.id)
  | sourceMatches m => (m.sessionId, m.source.id)
  | rulesSources m => (m.sessionId, m.source.id)

def valid : Accepted → Bool
  | resolution m => m.valid
  | sourceMatches m => m.valid
  | rulesSources m => m.valid

end Accepted

namespace StoreSession

def start (limit : ℕ+) : StoreSession := ⟨.empty limit, []⟩

def correlation (s : StoreSession) (id : String) : Option InspectCorrelation :=
  s.store.correlations.get? id

/-- An operation that throws leaves everything as it was. -/
def apply (s : StoreSession) : StoreOperation → StoreSession
  | .record channel id tabId windowId ruleEvidence =>
    match s.store.record channel id tabId windowId ruleEvidence with
    | .error _ => s
    | .ok store => { s with store }
  | .accept message peerContext => { s with store := (s.store.accept message peerContext).2 }
  | .acceptSourceMatches message peerContext =>
    { s with store := (s.store.acceptSourceMatches message peerContext).2 }
  | .prepareRulesSources message peerContext =>
    match s.store.prepareRulesSources message peerContext with
    | none => s
    | some prepared => { s with handles := s.handles ++ [prepared] }
  | .commit handle =>
    match s.handles[handle]? with
    | none => s
    | some prepared =>
      ⟨(s.store.commitRulesSources prepared).2, s.handles.modify handle PreparedRulesSources.settle⟩
  | .rollback handle =>
    { s with handles := s.handles.modify handle PreparedRulesSources.settle }
  | .discardSourcePresentationAuthority authority =>
    { s with store := (s.store.discardSourcePresentationAuthority authority).2 }
  | .discardRulesOpenAuthority authority =>
    { s with store := (s.store.discardRulesOpenAuthority authority).2 }
  | .discard id => { s with store := s.store.discard id }
  | .disposeChannel channel => { s with store := s.store.disposeChannel channel }
  | .disposeTab tabId => { s with store := s.store.disposeTab tabId }
  | .disposeWindow windowId => { s with store := s.store.disposeWindow windowId }

/-- The message an operation accepts, if it does. -/
def accepts (s : StoreSession) : StoreOperation → Option Accepted
  | .accept message peerContext =>
    if (s.store.accept message peerContext).1.isSome then some (.resolution message) else none
  | .acceptSourceMatches message peerContext =>
    if (s.store.acceptSourceMatches message peerContext).1.isSome then
      some (.sourceMatches message)
    else none
  | .commit handle =>
    (s.handles[handle]?).bind fun prepared =>
      if (s.store.commitRulesSources prepared).1 then some (.rulesSources prepared.parsed)
      else none
  | _ => none

/-- The message about one inspect that an operation accepts. -/
def acceptsFor (id : String) (s : StoreSession) (op : StoreOperation) : Option Accepted :=
  (s.accepts op).filter fun a => a.inspectMessageId = id

/-- The operation records the inspect, anew or again. -/
def records (id : String) : StoreOperation → Bool
  | .record channel id' tabId windowId ruleEvidence =>
    id' = id ∧ validRecord channel id' tabId windowId ruleEvidence
  | _ => false

def Step (s : StoreSession) (op : StoreOperation) (s' : StoreSession) : Prop := s' = s.apply op

abbrev Trace := List (Transition StoreSession StoreOperation)

abbrev Reaches (limit : ℕ+) (h : Trace) (s : StoreSession) : Prop := Run Step (start limit) h s

end StoreSession

/-! ## The eviction loop -/

namespace InspectCorrelationStore

variable {limit : ℕ} {m : OrderedMap String InspectCorrelation} {id : String}
  {c : InspectCorrelation}

/-- The loop keeps the newest `limit` correlations. -/
theorem entries_evictOldest {fuel : ℕ} (hf : m.size ≤ fuel) :
    (evictOldest limit fuel m).entries = m.entries.drop (m.size - limit) := by
  induction fuel generalizing m with
  | zero =>
    have hz : m.size - limit = 0 := by omega
    rw [hz]; rfl
  | succ fuel ih =>
    unfold evictOldest
    split
    · next hlt =>
      obtain ⟨k, hk⟩ := Option.isSome_iff_exists.1 (OrderedMap.firstKey?_isSome (by omega :
        0 < m.size))
      have hmem := OrderedMap.firstKey?_mem hk
      have hsize := OrderedMap.size_delete_of_mem hmem
      simp only [hk]
      rw [ih (by omega), OrderedMap.entries_delete_firstKey hk, List.drop_tail]
      congr 1
      omega
    · next hle =>
      have hz : m.size - limit = 0 := by omega
      rw [hz]; rfl

theorem size_evictOldest : (evictOldest limit m.size m).size ≤ limit := by
  have h : (evictOldest limit m.size m).size = (m.entries.drop (m.size - limit)).length := by
    rw [← entries_evictOldest le_rfl]; rfl
  rw [h, List.length_drop]
  change m.size - (m.size - limit) ≤ limit
  omega

theorem get?_of_evictOldest (h : (evictOldest limit m.size m).get? id = some c) :
    m.get? id = some c := by
  rw [OrderedMap.get?_eq_some, entries_evictOldest le_rfl] at h
  exact OrderedMap.get?_eq_some.2 (List.mem_of_mem_drop h)

/-- The newest correlation survives. -/
theorem get?_evictOldest_last {entries : List (String × InspectCorrelation)} (hpos : 0 < limit)
    (hlast : m.entries = entries ++ [(id, c)]) :
    (evictOldest limit m.size m).get? id = some c := by
  rw [OrderedMap.get?_eq_some, entries_evictOldest le_rfl]
  have hsize : m.size = entries.length + 1 := by
    rw [OrderedMap.size, hlast, List.length_append]; rfl
  rw [hlast, List.drop_append_of_le_length (by omega)]
  simp

/-! ## What an operation did -/

variable {store store' : InspectCorrelationStore} {peerContext : PeerContext} {channel : String}

theorem accept_none {message : ResolutionMessage}
    (h : store.accept message peerContext = (none, store')) : store' = store := by
  unfold accept at h
  split at h
  · cases h; rfl
  split at h
  · cases h; rfl
  split at h
  · cases h; rfl
  · cases h

theorem accept_some {message : ResolutionMessage}
    (h : store.accept message peerContext = (some channel, store')) :
    ∃ c, store.correlations.get? message.inspectMessageId = some c ∧ peerContext.trusted ∧
      message.valid ∧ c.windowId = peerContext.windowId ∧
      payloadMatchesPeer message.sessionId message.source peerContext ∧
      c.resolutionGeneration < message.resolutionGeneration ∧
      ownedByOtherPeer c peerContext = false ∧
      store' = store.writeLast message.inspectMessageId
        (resolvedBy c message peerContext (store.authorityRevisionSequence + 1)) := by
  unfold accept at h
  split at h
  · cases h
  next hin =>
  split at h
  · cases h
  next c hc =>
  split at h
  · cases h
  next hg =>
  cases h
  simp only [ne_eq, not_or, not_not, not_le] at hin hg
  exact ⟨c, hc, hin.1, hin.2, hg.1, hg.2.1, hg.2.2.1, by simpa using hg.2.2.2, rfl⟩

theorem acceptSourceMatches_none {message : SourceMatchesMessage}
    (h : store.acceptSourceMatches message peerContext = (none, store')) : store' = store := by
  unfold acceptSourceMatches at h
  split at h
  · cases h; rfl
  split at h
  · cases h; rfl
  split at h
  · cases h; rfl
  split at h
  · cases h
  split at h
  · cases h; rfl
  split at h
  · cases h; rfl
  · cases h

theorem collectMatchIds_some {ids ids' : Finset String} {excerpts : List SourceExcerpt}
    (h : collectMatchIds ids excerpts = some ids') :
    ids' = ids ∪ (excerpts.map SourceExcerpt.matchId).toFinset := by
  induction excerpts generalizing ids with
  | nil => cases h; simp
  | cons m rest ih =>
    simp only [collectMatchIds] at h
    split at h
    · cases h
    · rw [ih h, List.map_cons, List.toFinset_cons, Finset.insert_union, Finset.union_insert]

/-- Accepted matches either were taken back before any resolution, or belong to the current
one. -/
theorem acceptSourceMatches_some {message : SourceMatchesMessage}
    (h : store.acceptSourceMatches message peerContext = (some channel, store')) :
    ∃ c, store.correlations.get? message.inspectMessageId = some c ∧ message.valid ∧
      payloadMatchesPeer message.sessionId message.source peerContext ∧
      (c.sourceId = none ∨ correlationMatchesPeer c peerContext = true) ∧
      ((message.matches.length = 0 ∧ c.resolutionGeneration < 0 ∧
        store' = store.writeInPlace message.inspectMessageId
          (clearedBy c (store.authorityRevisionSequence + 1))) ∨
      (matchesCurrentAuthority message c peerContext = true ∧
        store' = store.writeInPlace message.inspectMessageId (matchedBy c message peerContext
          (message.matches.map SourceExcerpt.matchId).toFinset
          (store.authorityRevisionSequence + 1)))) := by
  unfold acceptSourceMatches at h
  split at h
  · cases h
  next hin =>
  split at h
  · cases h
  next c hc =>
  split at h
  · cases h
  next hg =>
  simp only [ne_eq, not_or, not_not, not_and] at hin hg
  have howner : c.sourceId = none ∨ correlationMatchesPeer c peerContext = true := by
    by_cases hs : c.sourceId = none
    · exact .inl hs
    · exact .inr (hg.2.2 hs)
  refine ⟨c, hc, hin.2, hg.2.1, howner, ?_⟩
  split at h
  · next hempty => cases h; exact .inl ⟨hempty.1, hempty.2, rfl⟩
  split at h
  · cases h
  next hcur =>
  split at h
  · cases h
  next ids hids =>
  cases h
  obtain rfl : ids = (message.matches.map SourceExcerpt.matchId).toFinset := by
    rw [collectMatchIds_some hids, Finset.empty_union]
  exact .inr ⟨not_not.1 hcur, rfl⟩

theorem commitRulesSources_false {prepared : PreparedRulesSources}
    (h : store.commitRulesSources prepared = (false, store')) : store' = store := by
  unfold commitRulesSources at h
  split at h
  · cases h; rfl
  split at h
  · cases h; rfl
  split at h
  · cases h; rfl
  · cases h

theorem commitRulesSources_true {prepared : PreparedRulesSources}
    (h : store.commitRulesSources prepared = (true, store')) :
    ∃ c, store.correlations.get? prepared.parsed.inspectMessageId = some c ∧
      c.rulesGeneration = prepared.previousRulesGeneration ∧
      c.windowId = prepared.peerContext.windowId ∧
      payloadMatchesPeer prepared.parsed.sessionId prepared.parsed.source prepared.peerContext ∧
      ownedByOtherPeer c prepared.peerContext = false ∧
      store' = store.writeLast prepared.parsed.inspectMessageId (publishedBy c prepared.parsed
        prepared.peerContext (store.authorityRevisionSequence + 1)) := by
  unfold commitRulesSources at h
  split at h
  · cases h
  split at h
  · cases h
  next c hc =>
  split at h
  · cases h
  next hg =>
  cases h
  simp only [ne_eq, not_or, not_not] at hg
  exact ⟨c, hc, hg.2.1, hg.2.2.2.1, hg.2.2.2.2.1, by simpa using hg.2.2.2.2.2, rfl⟩

end InspectCorrelationStore

/-- A prepared publication is of a trusted peer, was parsed, and is newer than the one it was
prepared against. -/
structure PreparedRulesSources.Sound (prepared : PreparedRulesSources) : Prop where
  trusted : prepared.peerContext.trusted
  valid : prepared.parsed.valid
  newer : prepared.previousRulesGeneration < prepared.parsed.rulesGeneration

namespace InspectCorrelationStore

variable {store : InspectCorrelationStore} {peerContext : PeerContext}

theorem prepareRulesSources_sound {message : RulesSourcesMessage}
    {prepared : PreparedRulesSources}
    (h : store.prepareRulesSources message peerContext = some prepared) : prepared.Sound := by
  unfold prepareRulesSources at h
  split at h
  · cases h
  next hin =>
  split at h
  · cases h
  next c hc =>
  split at h
  · cases h
  next hg =>
  cases h
  simp only [ne_eq, not_or, not_not] at hin hg
  refine ⟨hin.1, hin.2, ?_⟩
  have hnewer := hg.2.2.2.1
  simp only [rulesGenerationStale, Bool.not_eq_true] at hnewer
  split at hnewer
  · have : message.rulesGeneration = 1 := by simpa using hnewer
    dsimp only
    omega
  · simpa using hnewer

end InspectCorrelationStore

/-! ## The effect on one correlation -/

/-- One operation seen from the correlation of one inspect: the correlation before, whether
the inspect is recorded, the message accepted for it, the correlation after. The revision
counter goes from `seq` to `seq'`. -/
inductive CorrelationStep (seq seq' : ℕ) :
    Option InspectCorrelation → Bool → Option Accepted → Option InspectCorrelation → Prop where
  | untouched {c : Option InspectCorrelation} (hseq : seq ≤ seq') :
      CorrelationStep seq seq' c false none c
  | removed {c : Option InspectCorrelation} (hseq : seq ≤ seq') :
      CorrelationStep seq seq' c false none none
  | recorded {c : Option InspectCorrelation} {store : InspectCorrelationStore} {channel : String}
      {tabId windowId : ℤ} {refs : Finset String}
      (hstore : store.authorityRevisionSequence = seq) (hseq : seq' = seq + 2)
      (hchannel : isValidDevtoolsChannel channel) (htab : isBrowserId tabId)
      (hwindow : isBrowserId windowId) :
      CorrelationStep seq seq' c true none (some (store.recorded channel tabId windowId refs))
  | resolved {c : InspectCorrelation} {m : ResolutionMessage} {peerContext : PeerContext}
      (hseq : seq' = seq + 1) (htrusted : peerContext.trusted) (hvalid : m.valid)
      (hpayload : payloadMatchesPeer m.sessionId m.source peerContext)
      (hnewer : c.resolutionGeneration < m.resolutionGeneration)
      (hown : ownedByOtherPeer c peerContext = false) :
      CorrelationStep seq seq' (some c) false (some (.resolution m))
        (some (resolvedBy c m peerContext seq'))
  | cleared {c : InspectCorrelation} {m : SourceMatchesMessage} {peerContext : PeerContext}
      (hseq : seq' = seq + 1) (hvalid : m.valid) (hempty : m.matches.length = 0)
      (hnone : c.resolutionGeneration < 0)
      (hpayload : payloadMatchesPeer m.sessionId m.source peerContext)
      (hown : c.sourceId = none ∨ correlationMatchesPeer c peerContext = true) :
      CorrelationStep seq seq' (some c) false (some (.sourceMatches m)) (some (clearedBy c seq'))
  | matched {c : InspectCorrelation} {m : SourceMatchesMessage} {peerContext : PeerContext}
      (hseq : seq' = seq + 1) (hvalid : m.valid)
      (hcurrent : matchesCurrentAuthority m c peerContext) :
      CorrelationStep seq seq' (some c) false (some (.sourceMatches m))
        (some (matchedBy c m peerContext (m.matches.map SourceExcerpt.matchId).toFinset seq'))
  | published {c : InspectCorrelation} {m : RulesSourcesMessage} {peerContext : PeerContext}
      (hseq : seq' = seq + 1) (htrusted : peerContext.trusted) (hvalid : m.valid)
      (hpayload : payloadMatchesPeer m.sessionId m.source peerContext)
      (hnewer : c.rulesGeneration < m.rulesGeneration)
      (hown : ownedByOtherPeer c peerContext = false) :
      CorrelationStep seq seq' (some c) false (some (.rulesSources m))
        (some (publishedBy c m peerContext seq'))

namespace InspectCorrelationStore

variable {store store' : InspectCorrelationStore} {id id' channel : String} {tabId windowId : ℤ}
  {ruleEvidence : InspectRuleEvidenceBatch} {c : InspectCorrelation}

/-- What recording leaves: the new correlation, and others only if they share neither its
channel nor its tab. -/
theorem record_ok (h : store.record channel id tabId windowId ruleEvidence = .ok store') :
    validRecord channel id tabId windowId ruleEvidence ∧
    store'.authorityRevisionSequence = store.authorityRevisionSequence + 2 ∧
    store'.maximumSize = store.maximumSize ∧
    store'.correlations.size ≤ store.maximumSize ∧
    store'.correlations.get? id = some (store.recorded channel tabId windowId
      (ruleEvidence.rules.map InspectRuleEvidence.ruleRef).toFinset) ∧
    ∀ id' c, id' ≠ id → store'.correlations.get? id' = some c →
      store.correlations.get? id' = some c ∧ c.channel ≠ channel ∧ c.tabId ≠ tabId := by
  unfold record at h
  split at h
  · cases h
  next hv =>
  cases h
  refine ⟨not_not.1 hv, rfl, rfl, size_evictOldest, ?_, ?_⟩
  · exact get?_evictOldest_last store.maximumSize.pos (OrderedMap.entries_delete_set _ _ _)
  · intro id' c hne hc
    have hc := get?_of_evictOldest hc
    rw [OrderedMap.get?_set, if_neg hne, OrderedMap.get?_delete, if_neg hne,
      OrderedMap.get?_filter, Option.filter_eq_some_iff] at hc
    refine ⟨hc.1, ?_⟩
    simpa using hc.2

@[simp] theorem get?_writeLast :
    (store.writeLast id c).correlations.get? id' =
      if id' = id then some c else store.correlations.get? id' := by
  unfold writeLast
  rw [OrderedMap.get?_set, OrderedMap.get?_delete]
  split <;> rfl

@[simp] theorem get?_writeInPlace :
    (store.writeInPlace id c).correlations.get? id' =
      if id' = id then some c else store.correlations.get? id' :=
  OrderedMap.get?_set _ _ _ _

end InspectCorrelationStore

namespace StoreSession

variable {s : StoreSession} {id : String}

/-- What is to be shown of an operation, for one inspect. -/
abbrev Effect (id : String) (s : StoreSession) (op : StoreOperation) : Prop :=
  CorrelationStep s.store.authorityRevisionSequence (s.apply op).store.authorityRevisionSequence
    (s.correlation id) (records id op) (s.acceptsFor id op) ((s.apply op).correlation id)

/-- An operation that accepts nothing and at most deletes. -/
theorem effect_deletes {op : StoreOperation} (ha : s.accepts op = none)
    (hr : records id op = false)
    (hseq : s.store.authorityRevisionSequence ≤ (s.apply op).store.authorityRevisionSequence)
    (hc : (s.apply op).correlation id = s.correlation id ∨ (s.apply op).correlation id = none) :
    Effect id s op := by
  have hn : s.acceptsFor id op = none := by rw [acceptsFor, ha]; rfl
  unfold Effect
  rw [hr, hn]
  rcases hc with hc | hc
  · rw [hc]; exact .untouched hseq
  · rw [hc]; exact .removed hseq

/-- An operation that accepts a message writes one correlation. -/
theorem effect_writes {op : StoreOperation} {a : Accepted} {c' : InspectCorrelation}
    (ha : s.accepts op = some a) (hr : records id op = false)
    (hseq : s.store.authorityRevisionSequence ≤ (s.apply op).store.authorityRevisionSequence)
    (hc : ∀ id, (s.apply op).correlation id =
      if id = a.inspectMessageId then some c' else s.correlation id)
    (hstep : CorrelationStep s.store.authorityRevisionSequence
      (s.apply op).store.authorityRevisionSequence (s.correlation a.inspectMessageId) false
      (some a) (some c')) : Effect id s op := by
  unfold Effect
  rw [hr, hc, acceptsFor, ha]
  by_cases e : id = a.inspectMessageId
  · subst e
    rw [if_pos rfl]
    simpa [Option.filter] using hstep
  · rw [if_neg e]
    have hn : Option.filter (fun a => decide (a.inspectMessageId = id)) (some a) = none := by
      simp [Option.filter, Ne.symm e]
    rw [hn]
    exact .untouched hseq

theorem effect_accept (message : ResolutionMessage) (peerContext : PeerContext) :
    Effect id s (.accept message peerContext) := by
  rcases h : s.store.accept message peerContext with ⟨_ | channel, store'⟩
  · obtain rfl := accept_none h
    refine effect_deletes ?_ rfl ?_ (.inl ?_) <;> simp [accepts, apply, correlation, h]
  · obtain ⟨c, hc, htrusted, hvalid, -, hpayload, hnewer, hown, rfl⟩ := accept_some h
    have ha : s.accepts (.accept message peerContext) = some (.resolution message) := by
      simp [accepts, h]
    have hs : (s.apply (.accept message peerContext)).store =
        s.store.writeLast message.inspectMessageId
          (resolvedBy c message peerContext (s.store.authorityRevisionSequence + 1)) := by
      simp [apply, h]
    refine effect_writes ha rfl ?_ (fun id => by rw [correlation, hs]; exact get?_writeLast) ?_
    · rw [hs]; exact Nat.le_succ _
    · rw [hs, correlation, Accepted.inspectMessageId, hc]
      exact .resolved rfl htrusted hvalid hpayload hnewer hown

theorem effect_acceptSourceMatches (message : SourceMatchesMessage) (peerContext : PeerContext) :
    Effect id s (.acceptSourceMatches message peerContext) := by
  rcases h : s.store.acceptSourceMatches message peerContext with ⟨_ | channel, store'⟩
  · obtain rfl := acceptSourceMatches_none h
    refine effect_deletes ?_ rfl ?_ (.inl ?_) <;> simp [accepts, apply, correlation, h]
  · have ha : s.accepts (.acceptSourceMatches message peerContext) =
        some (.sourceMatches message) := by
      simp [accepts, h]
    obtain ⟨c, hc, hvalid, hpayload, hown, ⟨hempty, hnone, rfl⟩ | ⟨hcurrent, rfl⟩⟩ :=
      acceptSourceMatches_some h
    · have hs : (s.apply (.acceptSourceMatches message peerContext)).store =
          s.store.writeInPlace message.inspectMessageId
            (clearedBy c (s.store.authorityRevisionSequence + 1)) := by
        simp [apply, h]
      refine effect_writes ha rfl ?_ (fun id => by
        rw [correlation, hs]; exact get?_writeInPlace) ?_
      · rw [hs]; exact Nat.le_succ _
      · rw [hs, correlation, Accepted.inspectMessageId, hc]
        exact .cleared rfl hvalid hempty hnone hpayload hown
    · have hs : (s.apply (.acceptSourceMatches message peerContext)).store =
          s.store.writeInPlace message.inspectMessageId
            (matchedBy c message peerContext
              (message.matches.map SourceExcerpt.matchId).toFinset
              (s.store.authorityRevisionSequence + 1)) := by
        simp [apply, h]
      refine effect_writes ha rfl ?_ (fun id => by
        rw [correlation, hs]; exact get?_writeInPlace) ?_
      · rw [hs]; exact Nat.le_succ _
      · rw [hs, correlation, Accepted.inspectMessageId, hc]
        exact .matched rfl hvalid hcurrent

theorem effect_commit (hsound : ∀ p ∈ s.handles, p.Sound) (handle : ℕ) :
    Effect id s (.commit handle) := by
  cases hp : s.handles[handle]? with
  | none => refine effect_deletes ?_ rfl ?_ (.inl ?_) <;> simp [accepts, apply, hp]
  | some prepared =>
    rcases h : s.store.commitRulesSources prepared with ⟨_ | _, store'⟩
    · obtain rfl := commitRulesSources_false h
      refine effect_deletes ?_ rfl ?_ (.inl ?_) <;> simp [accepts, apply, correlation, h, hp]
    · obtain ⟨c, hc, hprev, -, hpayload, hown, rfl⟩ := commitRulesSources_true h
      have hgood := hsound prepared (List.mem_of_getElem? hp)
      have ha : s.accepts (.commit handle) = some (.rulesSources prepared.parsed) := by
        simp [accepts, h, hp]
      have hs : (s.apply (.commit handle)).store =
          s.store.writeLast prepared.parsed.inspectMessageId
            (publishedBy c prepared.parsed prepared.peerContext
              (s.store.authorityRevisionSequence + 1)) := by
        simp [apply, h, hp]
      refine effect_writes ha rfl ?_ (fun id => by
        rw [correlation, hs]; exact get?_writeLast) ?_
      · rw [hs]; exact Nat.le_succ _
      · rw [hs, correlation, Accepted.inspectMessageId, hc]
        exact .published rfl hgood.trusted hgood.valid hpayload (hprev ▸ hgood.newer) hown

theorem effect_record (channel inspectMessageId : String) (tabId windowId : ℤ)
    (ruleEvidence : InspectRuleEvidenceBatch) :
    Effect id s (.record channel inspectMessageId tabId windowId ruleEvidence) := by
  cases h : s.store.record channel inspectMessageId tabId windowId ruleEvidence with
  | error e =>
    have hv : validRecord channel inspectMessageId tabId windowId ruleEvidence = false := by
      unfold InspectCorrelationStore.record at h
      split at h
      · next hv => simpa using hv
      · cases h
    refine effect_deletes rfl (by simp [records, hv]) ?_ (.inl ?_) <;> simp [apply, h]
  | ok store' =>
    obtain ⟨hv, hseq, -, -, hnew, hothers⟩ := record_ok h
    have hs : (s.apply (.record channel inspectMessageId tabId windowId ruleEvidence)).store =
        store' := by
      simp [apply, h]
    by_cases e : inspectMessageId = id
    · subst e
      unfold Effect
      have hr : records inspectMessageId
          (.record channel inspectMessageId tabId windowId ruleEvidence) = true := by
        simp [records, hv]
      rw [hr, correlation, correlation, hs, hnew]
      simp only [validRecord, decide_eq_true_eq] at hv
      exact .recorded rfl hseq hv.1 hv.2.2.1 hv.2.2.2.1
    · refine effect_deletes rfl (by simp [records, e]) (by rw [hs]; omega) ?_
      rw [correlation, correlation, hs]
      cases hc : store'.correlations.get? id with
      | none => exact .inr rfl
      | some c => exact .inl (hothers id c (Ne.symm e) hc).1.symm

theorem discardSourcePresentationAuthority_cases (store : InspectCorrelationStore)
    (authority : SourceAuthority) :
    (store.discardSourcePresentationAuthority authority).2 = store ∨
      (store.discardSourcePresentationAuthority authority).2 =
        store.delete authority.inspectMessageId := by
  unfold InspectCorrelationStore.discardSourcePresentationAuthority
  split
  · exact .inl rfl
  · split
    · exact .inl rfl
    · exact .inr rfl

theorem discardRulesOpenAuthority_cases (store : InspectCorrelationStore)
    (authority : RulesOpenAuthority) :
    (store.discardRulesOpenAuthority authority).2 = store ∨
      (store.discardRulesOpenAuthority authority).2 =
        store.delete authority.inspectMessageId := by
  unfold InspectCorrelationStore.discardRulesOpenAuthority
  split
  · exact .inl rfl
  · split
    · exact .inl rfl
    · exact .inr rfl

theorem get?_delete_cases (store : InspectCorrelationStore) (id' : String) :
    (store.delete id').correlations.get? id = store.correlations.get? id ∨
      (store.delete id').correlations.get? id = none := by
  unfold delete
  rw [OrderedMap.get?_delete]
  split
  · exact .inr rfl
  · exact .inl rfl

theorem get?_dispose_cases (store : InspectCorrelationStore) (gone : InspectCorrelation → Bool) :
    (store.dispose gone).correlations.get? id = store.correlations.get? id ∨
      (store.dispose gone).correlations.get? id = none := by
  unfold dispose
  rw [OrderedMap.get?_filter]
  cases store.correlations.get? id with
  | none => exact .inl rfl
  | some c =>
    simp only [Option.filter]
    split
    · exact .inl rfl
    · exact .inr rfl

/-- What any operation does to any correlation. -/
theorem step_correlation (hsound : ∀ p ∈ s.handles, p.Sound) (op : StoreOperation) :
    Effect id s op := by
  cases op with
  | record channel inspectMessageId tabId windowId ruleEvidence => exact effect_record _ _ _ _ _
  | accept message peerContext => exact effect_accept message peerContext
  | acceptSourceMatches message peerContext => exact effect_acceptSourceMatches message peerContext
  | prepareRulesSources message peerContext =>
    refine effect_deletes rfl rfl ?_ (.inl ?_) <;>
      cases h : s.store.prepareRulesSources message peerContext <;> simp [apply, correlation, h]
  | commit handle => exact effect_commit hsound handle
  | rollback handle => exact effect_deletes rfl rfl le_rfl (.inl rfl)
  | discardSourcePresentationAuthority authority =>
    rcases discardSourcePresentationAuthority_cases s.store authority with hd | hd
    · refine effect_deletes rfl rfl ?_ (.inl ?_) <;> simp [apply, correlation, hd]
    · refine effect_deletes rfl rfl ?_ ?_
      · simp [apply, hd, delete]
      · simpa only [apply, correlation, hd] using get?_delete_cases s.store _
  | discardRulesOpenAuthority authority =>
    rcases discardRulesOpenAuthority_cases s.store authority with hd | hd
    · refine effect_deletes rfl rfl ?_ (.inl ?_) <;> simp [apply, correlation, hd]
    · refine effect_deletes rfl rfl ?_ ?_
      · simp [apply, hd, delete]
      · simpa only [apply, correlation, hd] using get?_delete_cases s.store _
  | discard id' => exact effect_deletes rfl rfl le_rfl (get?_delete_cases s.store id')
  | disposeChannel channel => exact effect_deletes rfl rfl le_rfl (get?_dispose_cases s.store _)
  | disposeTab tabId =>
    by_cases hb : isBrowserId tabId = true
    · refine effect_deletes rfl rfl ?_ ?_
      · simp [apply, disposeTab, hb, dispose]
      · simpa [apply, correlation, disposeTab, hb] using get?_dispose_cases s.store _
    · refine effect_deletes rfl rfl ?_ (.inl ?_) <;> simp [apply, correlation, disposeTab, hb]
  | disposeWindow windowId =>
    by_cases hb : isBrowserId windowId = true
    · refine effect_deletes rfl rfl ?_ ?_
      · simp [apply, disposeWindow, hb, dispose]
      · simpa [apply, correlation, disposeWindow, hb] using get?_dispose_cases s.store _
    · refine effect_deletes rfl rfl ?_ (.inl ?_) <;> simp [apply, correlation, disposeWindow, hb]

end StoreSession

end PinOp.Browser
