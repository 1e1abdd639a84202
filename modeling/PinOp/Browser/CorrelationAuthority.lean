import PinOp.Browser.CorrelationSteps

/-!
# What the correlation store authorises

The store keeps the last word only. `acceptedLog` keeps every message a run accepted for
an inspect since it was recorded, and `Faithful` says that the correlation is what the log
makes of it. The two families of authority go through one argument: an authority is stamped
with a revision, and the revision of a correlation moves exactly when a message of the
family is accepted.
-/

namespace PinOp.Browser

open PinOp.Lib PinOp.Protocol InspectCorrelationStore

/-- The two families of authority on one correlation. -/
inductive Family where
  | source
  | rules
  deriving DecidableEq

/-- The messages that renew a family. -/
def Accepted.about : Family → Accepted → Bool
  | .source, .resolution _ | .source, .sourceMatches _ | .rules, .rulesSources _ => true
  | .source, .rulesSources _ | .rules, .resolution _ | .rules, .sourceMatches _ => false

/-- What an authority of one family is compared with. -/
structure AuthorityView where
  channel : String
  tabId : ℤ
  windowId : ℤ
  generation : ℤ
  context : Option PeerContext
  ids : Finset String
  revision : ℕ
  deriving DecidableEq

def InspectCorrelation.view (c : InspectCorrelation) : Family → AuthorityView
  | .source => ⟨c.channel, c.tabId, c.windowId, c.resolutionGeneration, c.sourcePeerContext,
      c.matchIds, c.sourceAuthorityRevision⟩
  | .rules => ⟨c.channel, c.tabId, c.windowId, c.rulesGeneration, c.rulesPeerContext,
      c.ruleOpenAuthorityIds, c.rulesAuthorityRevision⟩

namespace CorrelationStep

variable {seq seq' : ℕ} {o : Option InspectCorrelation} {r : Bool} {a : Option Accepted}
  {c c' : InspectCorrelation}

theorem seq_le {o' : Option InspectCorrelation} (h : CorrelationStep seq seq' o r a o') :
    seq ≤ seq' := by
  cases h <;> omega

/-- Where a correlation belongs never changes. -/
theorem same_route (h : CorrelationStep seq seq' o false a (some c')) :
    ∃ c, o = some c ∧ c'.channel = c.channel ∧ c'.tabId = c.tabId ∧ c'.windowId = c.windowId := by
  cases h <;> exact ⟨_, rfl, rfl, rfl, rfl⟩

/-- A step either renews a family, with a revision of its own, or leaves it alone. -/
theorem view_cases (f : Family) (h : CorrelationStep seq seq' o r a (some c')) :
    ((r = true ∨ ∃ b, a = some b ∧ b.about f = true) ∧
      seq < (c'.view f).revision ∧ (c'.view f).revision ≤ seq') ∨
    (r = false ∧ (∀ b, a = some b → b.about f = false) ∧
      ∃ c, o = some c ∧ c'.view f = c.view f) := by
  cases h with
  | untouched hseq => exact .inr ⟨rfl, nofun, _, rfl, rfl⟩
  | recorded hstore hseq hchannel htab hwindow =>
    subst hstore hseq
    refine .inl ⟨.inl rfl, ?_⟩
    cases f
    · exact ⟨Nat.lt_succ_self _, Nat.le_succ _⟩
    · exact ⟨Nat.lt_add_of_pos_right Nat.two_pos, le_rfl⟩
  | resolved hseq htrusted hvalid hpayload hnewer hown =>
    subst hseq
    cases f
    · exact .inl ⟨.inr ⟨_, rfl, rfl⟩, Nat.lt_succ_self _, le_rfl⟩
    · exact .inr ⟨rfl, fun b hb => by cases hb; rfl, _, rfl, rfl⟩
  | cleared hseq hvalid hempty hnone hpayload hown =>
    subst hseq
    cases f
    · exact .inl ⟨.inr ⟨_, rfl, rfl⟩, Nat.lt_succ_self _, le_rfl⟩
    · exact .inr ⟨rfl, fun b hb => by cases hb; rfl, _, rfl, rfl⟩
  | matched hseq hvalid hcurrent =>
    subst hseq
    cases f
    · exact .inl ⟨.inr ⟨_, rfl, rfl⟩, Nat.lt_succ_self _, le_rfl⟩
    · exact .inr ⟨rfl, fun b hb => by cases hb; rfl, _, rfl, rfl⟩
  | published hseq htrusted hvalid hpayload hnewer hown =>
    subst hseq
    cases f
    · exact .inr ⟨rfl, fun b hb => by cases hb; rfl, _, rfl, rfl⟩
    · exact .inl ⟨.inr ⟨_, rfl, rfl⟩, Nat.lt_succ_self _, le_rfl⟩

end CorrelationStep

/-! ## The log of accepted messages -/

/-- The generation an accepted resolution or rules publication brings in. -/
def Accepted.generation? : Family → Accepted → Option ℕ
  | .source, .resolution m => some m.resolutionGeneration
  | .rules, .rulesSources m => some m.rulesGeneration
  | .source, .sourceMatches _ | .source, .rulesSources _ | .rules, .resolution _
  | .rules, .sourceMatches _ => none

/-- The accepted generations of a family; a log has its newest entry first. -/
def generations (f : Family) (log : List Accepted) : List ℕ :=
  log.filterMap (Accepted.generation? f)

/-- The ids of the last `source.matches` accepted since the last resolution, or those of the
last rules publication. -/
def currentIds : Family → List Accepted → Finset String
  | _, [] => ∅
  | .source, .resolution _ :: _ => ∅
  | .source, .sourceMatches m :: _ => (m.matches.map SourceExcerpt.matchId).toFinset
  | .rules, .rulesSources m :: _ => (m.sources.map RulesSource.openAuthorityId).toFinset
  | .source, .rulesSources _ :: log => currentIds .source log
  | .rules, .resolution _ :: log | .rules, .sourceMatches _ :: log => currentIds .rules log

/-- An empty `source.matches` takes matches back. -/
def Accepted.withdraws : Accepted → Bool
  | .sourceMatches m => m.matches.length = 0
  | .resolution _ | .rulesSources _ => false

/-- From some entry on all of a log is of one source; what came before only took matches
back. -/
def FromOneSource (log : List Accepted) (origin : String × String) : Prop :=
  ∃ newer older, log = newer ++ older ∧ (∀ a ∈ newer, a.origin = origin) ∧
    ∀ a ∈ older, a.withdraws = true

/-- The correlation is what the log makes of it. -/
structure Faithful (c : InspectCorrelation) (log : List Accepted) : Prop where
  valid : ∀ a ∈ log, a.valid = true
  generation : ∀ f, (c.view f).generation = (generations f log).head?.elim (-1 : ℤ) fun g => g
  ids : ∀ f, (c.view f).ids = currentIds f log
  context : ∀ f, (c.view f).generation = -1 ∨
    ∃ p, (c.view f).context = some p ∧ p.trusted = true
  ascending : ∀ f, (generations f log).Pairwise (· > ·)
  unowned : c.sourceId = none → ∀ a ∈ log, a.withdraws = true
  owned : ∀ i, c.sourceId = some i →
    ∃ sessionId, c.sessionId = some sessionId ∧ FromOneSource log (sessionId, i)

/-- The peer may speak for the correlation. -/
def OwnerOk (c : InspectCorrelation) (p : PeerContext) : Prop :=
  c.sourceId = none ∨ c.sourceId = some p.sourceId ∧ c.sessionId = some p.sessionId

theorem OwnerOk.of_not_other {c : InspectCorrelation} {p : PeerContext}
    (h : ownedByOtherPeer c p = false) : OwnerOk c p := by
  simp only [ownedByOtherPeer, decide_eq_false_iff_not, not_and, not_or, not_not] at h
  by_cases hs : c.sourceId = none
  · exact .inl hs
  · exact .inr (h hs)

theorem payloadMatchesPeer_iff {sessionId : String} {source : ResolutionSource} {p : PeerContext} :
    payloadMatchesPeer sessionId source p = true ↔
      p.trusted = true ∧ p.sessionId = sessionId ∧ p.sourceId = source.id := by
  simp [payloadMatchesPeer]

theorem correlationMatchesPeer_iff {c : InspectCorrelation} {p : PeerContext} :
    correlationMatchesPeer c p = true ↔
      c.windowId = p.windowId ∧ c.sessionId = some p.sessionId ∧ c.sourceId = some p.sourceId := by
  simp [correlationMatchesPeer]

/-- What a message does to one family: bring in a newer generation under a trusted context, or
at most renew the context. -/
def Renews (f : Family) (c c' : InspectCorrelation) (a : Accepted) : Prop :=
  match a.generation? f with
  | some g => (c'.view f).generation = g ∧ (c.view f).generation < g ∧
      ∃ p, (c'.view f).context = some p ∧ p.trusted = true
  | none => (c'.view f).generation = (c.view f).generation ∧
      ((c'.view f).context = (c.view f).context ∨
        ∃ p, (c'.view f).context = some p ∧ p.trusted = true)

/-- What a message does to the owner: the peer it came from owns the correlation now, or it
only took matches back. -/
def Owns (c c' : InspectCorrelation) (a : Accepted) : Prop :=
  (∃ p, OwnerOk c p ∧ a.origin = (p.sessionId, p.sourceId) ∧
    c'.sourceId = some p.sourceId ∧ c'.sessionId = some p.sessionId) ∨
  (c.sourceId = none ∧ c'.sourceId = none ∧ a.withdraws = true)

namespace Faithful

variable {c c' : InspectCorrelation} {log : List Accepted} {p : PeerContext} {a : Accepted}

/-- Nothing was accepted yet. -/
theorem fresh {store : InspectCorrelationStore} {channel : String} {tabId windowId : ℤ}
    {refs : Finset String} : Faithful (store.recorded channel tabId windowId refs) [] where
  valid := List.forall_mem_nil _
  generation f := by cases f <;> rfl
  ids f := by cases f <;> rfl
  context f := by cases f <;> exact .inl rfl
  ascending _ := .nil
  unowned _ := List.forall_mem_nil _
  owned := nofun

/-- Every accepted generation is at most the current one. -/
theorem generation_le (h : Faithful c log) {f : Family} {g : ℕ} (hg : g ∈ generations f log) :
    (g : ℤ) ≤ (c.view f).generation := by
  have hgen := h.generation f
  have hasc := h.ascending f
  cases hl : generations f log with
  | nil => rw [hl] at hg; cases hg
  | cons g₀ rest =>
    rw [hl] at hgen hasc hg
    rw [show (c.view f).generation = g₀ from hgen]
    rcases List.mem_cons.1 hg with rfl | hg
    · exact le_rfl
    · have hlt : g < g₀ := (List.pairwise_cons.1 hasc).1 g hg
      omega

/-- A message of the peer that owns the correlation, or that takes an unowned one, keeps the
log of one source. -/
theorem fromOneSource (h : Faithful c log) (hown : OwnerOk c p)
    (ha : a.origin = (p.sessionId, p.sourceId)) :
    FromOneSource (a :: log) (p.sessionId, p.sourceId) := by
  rcases hown with hnone | ⟨hsource, hsession⟩
  · exact ⟨[a], log, rfl, by simpa using ha, h.unowned hnone⟩
  · obtain ⟨sessionId, hsession', newer, older, rfl, hnewer, holder⟩ := h.owned _ hsource
    rw [hsession, Option.some.injEq] at hsession'
    subst hsession'
    refine ⟨a :: newer, older, rfl, ?_, holder⟩
    intro b hb
    rcases List.mem_cons.1 hb with rfl | hb
    · exact ha
    · exact hnewer b hb

/-- Accepting one more message keeps the correlation faithful. -/
theorem push (h : Faithful c log) (hvalid : a.valid = true) (hrenews : ∀ f, Renews f c c' a)
    (hids : ∀ f, (c'.view f).ids = currentIds f (a :: log)) (howns : Owns c c' a) :
    Faithful c' (a :: log) where
  valid b hb := by
    rcases List.mem_cons.1 hb with rfl | hb
    · exact hvalid
    · exact h.valid b hb
  generation f := by
    have hr := hrenews f
    unfold Renews at hr
    cases hg : a.generation? f with
    | none =>
      rw [hg] at hr
      rw [hr.1, h.generation f, generations, generations, List.filterMap_cons_none hg]
    | some g =>
      rw [hg] at hr
      rw [hr.1, generations, List.filterMap_cons_some hg]
      rfl
  ids := hids
  context f := by
    have hr := hrenews f
    unfold Renews at hr
    cases hg : a.generation? f with
    | none =>
      rw [hg] at hr
      obtain ⟨hgen, hctx | hctx⟩ := hr
      · rw [hgen, hctx]; exact h.context f
      · exact .inr hctx
    | some g =>
      rw [hg] at hr
      exact .inr hr.2.2
  ascending f := by
    have hr := hrenews f
    unfold Renews at hr
    cases hg : a.generation? f with
    | none =>
      rw [generations, List.filterMap_cons_none hg]
      exact h.ascending f
    | some g =>
      rw [hg] at hr
      rw [generations, List.filterMap_cons_some hg]
      refine List.pairwise_cons.2 ⟨fun g' hg' => ?_, h.ascending f⟩
      have hle := h.generation_le hg'
      have hlt := hr.2.1
      omega
  unowned hn := by
    rcases howns with ⟨p, -, -, hsource, -⟩ | ⟨hnone, -, hw⟩
    · rw [hsource] at hn; cases hn
    · intro b hb
      rcases List.mem_cons.1 hb with rfl | hb
      · exact hw
      · exact h.unowned hnone b hb
  owned i hi := by
    rcases howns with ⟨p, hok, horigin, hsource, hsession⟩ | ⟨-, hnone, -⟩
    · rw [hsource, Option.some.injEq] at hi
      subst hi
      exact ⟨_, hsession, h.fromOneSource hok horigin⟩
    · rw [hnone] at hi; cases hi

/-- What an operation does to a faithful correlation. -/
theorem step {seq seq' : ℕ} {o : Option Accepted}
    (hstep : CorrelationStep seq seq' (some c) false o (some c')) (h : Faithful c log) :
    Faithful c' (o.toList ++ log) := by
  cases hstep with
  | untouched hseq => exact h
  | @resolved _ m p hseq htrusted hvalid hpayload hnewer hown =>
    obtain ⟨-, hsession, hsource⟩ := payloadMatchesPeer_iff.1 hpayload
    refine h.push hvalid ?_ ?_ ?_
    · rintro (_ | _)
      · exact ⟨rfl, hnewer, p, rfl, htrusted⟩
      · exact ⟨rfl, .inl rfl⟩
    · rintro (_ | _)
      · rfl
      · exact h.ids .rules
    · exact .inl ⟨p, .of_not_other hown, by rw [hsession, hsource]; rfl, rfl, rfl⟩
  | @cleared _ m p hseq hvalid hempty hnone hpayload hown =>
    obtain ⟨-, hsession, hsource⟩ := payloadMatchesPeer_iff.1 hpayload
    refine h.push hvalid ?_ ?_ ?_
    · rintro (_ | _)
      · exact ⟨rfl, .inl rfl⟩
      · exact ⟨rfl, .inl rfl⟩
    · rintro (_ | _)
      · have hm : m.matches = [] := List.length_eq_zero_iff.1 hempty
        change ∅ = (m.matches.map SourceExcerpt.matchId).toFinset
        rw [hm]; rfl
      · exact h.ids .rules
    · by_cases hs : c.sourceId = none
      · exact .inr ⟨hs, hs, by simpa [Accepted.withdraws] using hempty⟩
      · obtain ⟨-, hcsession, hcsource⟩ :=
          correlationMatchesPeer_iff.1 (hown.resolve_left hs)
        exact .inl ⟨p, .inr ⟨hcsource, hcsession⟩, by rw [hsession, hsource]; rfl, hcsource,
          hcsession⟩
  | @matched _ m p hseq hvalid hcurrent =>
    simp only [matchesCurrentAuthority, decide_eq_true_eq] at hcurrent
    obtain ⟨hgen, -, hmatches, hpayload, -⟩ := hcurrent
    obtain ⟨htrusted, hsession, hsource⟩ := payloadMatchesPeer_iff.1 hpayload
    obtain ⟨-, hcsession, hcsource⟩ := correlationMatchesPeer_iff.1 hmatches
    refine h.push hvalid ?_ ?_ ?_
    · rintro (_ | _)
      · refine ⟨rfl, ?_⟩
        by_cases hpos : 0 < m.matches.length
        · exact .inr ⟨p, if_pos hpos, htrusted⟩
        · exact .inl (if_neg hpos)
      · exact ⟨rfl, .inl rfl⟩
    · rintro (_ | _)
      · rfl
      · exact h.ids .rules
    · exact .inl ⟨p, .inr ⟨hcsource, hcsession⟩, by rw [hsession, hsource]; rfl, hcsource,
        hcsession⟩
  | @published _ m p hseq htrusted hvalid hpayload hnewer hown =>
    obtain ⟨-, hsession, hsource⟩ := payloadMatchesPeer_iff.1 hpayload
    refine h.push hvalid ?_ ?_ ?_
    · rintro (_ | _)
      · exact ⟨rfl, .inl rfl⟩
      · exact ⟨rfl, hnewer, p, rfl, htrusted⟩
    · rintro (_ | _)
      · exact h.ids .source
      · rfl
    · exact .inl ⟨p, .of_not_other hown, by rw [hsession, hsource]; rfl, rfl, rfl⟩

end Faithful

namespace StoreSession

variable {limit : ℕ+} {h h₁ h₂ : Trace} {s s' s₁ : StoreSession} {op : StoreOperation}
  {id id' channel matchId openAuthorityId : String} {tabId windowId generation : ℤ}
  {c c' : InspectCorrelation}

/-- The operations since the inspect was last recorded, the newest first. -/
def incarnation (id : String) : Trace → Trace
  | [] => []
  | t :: h => if records id t.event then [] else t :: incarnation id h

/-- The messages accepted for the present correlation of an inspect, the newest first. -/
def acceptedLog (id : String) (h : Trace) : List Accepted :=
  (incarnation id h).filterMap fun t => t.pre.acceptsFor id t.event

theorem acceptedLog_recorded (hr : records id op = true) :
    acceptedLog id (⟨s, op, s'⟩ :: h) = [] := by
  simp [acceptedLog, incarnation, hr]

theorem acceptedLog_cons (hr : records id op = false) :
    acceptedLog id (⟨s, op, s'⟩ :: h) = (s.acceptsFor id op).toList ++ acceptedLog id h := by
  cases ha : s.acceptsFor id op <;> simp [acceptedLog, incarnation, hr, ha]

/-! ## Invariants of a run -/

theorem handles_settle {handles : List PreparedRulesSources} (h : ∀ p ∈ handles, p.Sound)
    (handle : ℕ) : ∀ p ∈ handles.modify handle PreparedRulesSources.settle, p.Sound := by
  intro p hp
  obtain ⟨i, hi⟩ := List.getElem?_of_mem hp
  rw [List.getElem?_modify] at hi
  cases hq : handles[i]? with
  | none => rw [hq] at hi; cases hi
  | some q =>
    have hsound := h q (List.mem_of_getElem? hq)
    rw [hq] at hi
    split at hi
    · cases hi; exact ⟨hsound.trusted, hsound.valid, hsound.newer⟩
    · cases hi; exact hsound

theorem handles_sound (hr : Reaches limit h s) : ∀ p ∈ s.handles, p.Sound := by
  refine Run.invariant (P := fun s : StoreSession => ∀ p ∈ s.handles, p.Sound)
    (fun p hp => by cases hp) ?_ hr
  rintro s op - ih rfl
  cases op with
  | record channel id tabId windowId ruleEvidence =>
    simp only [apply]
    split
    · exact ih
    · exact ih
  | prepareRulesSources message peerContext =>
    simp only [apply]
    split
    · exact ih
    next prepared hprepared =>
    intro p hp
    rcases List.mem_append.1 hp with hp | hp
    · exact ih p hp
    · rw [List.mem_singleton.1 hp]
      exact prepareRulesSources_sound hprepared
  | commit handle =>
    simp only [apply]
    split
    · exact ih
    · exact handles_settle ih handle
  | rollback handle => exact handles_settle ih handle
  | _ => exact ih

/-- What a step of a run does to a correlation. -/
theorem reaches_step (hr : Reaches limit h s) (op : StoreOperation) (id : String) :
    Effect id s op :=
  step_correlation (handles_sound hr) op

/-- A stored correlation has a log it is faithful to, and can be asked for. -/
structure Recorded (id : String) (c : InspectCorrelation) : Prop where
  id : isOpaqueId id = true
  channel : isValidDevtoolsChannel c.channel = true
  tab : isBrowserId c.tabId = true
  window : isBrowserId c.windowId = true

theorem recorded_of_step (hs : Effect id s op) (hc' : (s.apply op).correlation id = some c')
    (ih : ∀ c, s.correlation id = some c → Recorded id c) : Recorded id c' := by
  unfold Effect at hs
  rw [hc'] at hs
  cases hr : records id op with
  | false =>
    rw [hr] at hs
    obtain ⟨c, hc, hchannel, htab, hwindow⟩ := hs.same_route
    have hrec := ih c hc
    exact ⟨hrec.id, hchannel ▸ hrec.channel, htab ▸ hrec.tab, hwindow ▸ hrec.window⟩
  | true =>
    have hid : isOpaqueId id = true := by
      cases op with
      | record channel id' tabId windowId ruleEvidence =>
        simp only [records, validRecord, decide_eq_true_eq] at hr
        exact hr.1 ▸ hr.2.2.1
      | _ => cases hr
    rw [hr] at hs
    generalize ho : s.correlation id = o at hs
    generalize ha : s.acceptsFor id op = a at hs
    cases hs with
    | recorded hstore hseq hchannel htab hwindow => exact ⟨hid, hchannel, htab, hwindow⟩

theorem recorded (hr : Reaches limit h s) : ∀ c, s.correlation id = some c → Recorded id c := by
  refine Run.invariant_history (P := fun _ (s : StoreSession) => ∀ c, s.correlation id = some c →
    Recorded id c) (fun c hc => by cases hc) ?_ hr
  rintro h s op - hr ih rfl c' hc'
  exact recorded_of_step (reaches_step hr op id) hc' ih

/-- Every correlation is what the messages accepted for it make of it. -/
theorem faithful (hr : Reaches limit h s) :
    ∀ c, s.correlation id = some c → Faithful c (acceptedLog id h) := by
  refine Run.invariant_history (P := fun h (s : StoreSession) => ∀ c, s.correlation id = some c →
    Faithful c (acceptedLog id h)) (fun c hc => by cases hc) ?_ hr
  rintro h s op - hr ih rfl c' hc'
  have hs := reaches_step hr op id
  unfold Effect at hs
  rw [hc'] at hs
  cases hrec : records id op with
  | false =>
    rw [acceptedLog_cons hrec]
    rw [hrec] at hs
    obtain ⟨c, hc, -⟩ := hs.same_route
    rw [hc] at hs
    exact (ih c hc).step hs
  | true =>
    rw [acceptedLog_recorded hrec]
    rw [hrec] at hs
    generalize ho : s.correlation id = o at hs
    generalize ha : s.acceptsFor id op = a at hs
    cases hs with
    | recorded => exact .fresh

/-- Revisions are drawn from the counter. -/
theorem revision_le (hr : Reaches limit h s) : ∀ c, s.correlation id = some c →
    ∀ f, (c.view f).revision ≤ s.store.authorityRevisionSequence := by
  refine Run.invariant_history (P := fun _ (s : StoreSession) => ∀ c, s.correlation id = some c →
    ∀ f, (c.view f).revision ≤ s.store.authorityRevisionSequence)
    (fun c hc => by cases hc) ?_ hr
  rintro h s op - hr ih rfl c' hc' f
  have hs := reaches_step hr op id
  unfold Effect at hs
  rw [hc'] at hs
  have hseq := hs.seq_le
  rcases hs.view_cases f with ⟨-, -, hle⟩ | ⟨-, -, c, hc, hview⟩
  · exact hle
  · have hle := ih c hc f
    rw [hview]
    omega

/-! ## Size, channels and tabs -/

/-- The limit stays, and only a recording makes the store larger, up to the limit. -/
def Fits (store store' : InspectCorrelationStore) : Prop :=
  store'.maximumSize = store.maximumSize ∧
    (store'.correlations.size ≤ store.correlations.size ∨
      store'.correlations.size ≤ store.maximumSize)

theorem fits_refl (store : InspectCorrelationStore) : Fits store store := ⟨rfl, .inl le_rfl⟩

theorem fits_delete (store : InspectCorrelationStore) (id : String) :
    Fits store (store.delete id) :=
  ⟨rfl, .inl (OrderedMap.size_delete_le _ _)⟩

theorem fits_dispose (store : InspectCorrelationStore) (gone : InspectCorrelation → Bool) :
    Fits store (store.dispose gone) :=
  ⟨rfl, .inl (OrderedMap.size_filter_le _ _)⟩

theorem fits_writeLast {store : InspectCorrelationStore}
    (hc : store.correlations.get? id = some c) : Fits store (store.writeLast id c') :=
  ⟨rfl, .inl (OrderedMap.size_delete_set _ (OrderedMap.mem_keys.2 ⟨c, hc⟩)).le⟩

theorem fits_writeInPlace {store : InspectCorrelationStore}
    (hc : store.correlations.get? id = some c) : Fits store (store.writeInPlace id c') :=
  ⟨rfl, .inl (OrderedMap.size_set_of_mem _ (OrderedMap.mem_keys.2 ⟨c, hc⟩)).le⟩

theorem fits_apply (s : StoreSession) (op : StoreOperation) :
    Fits s.store (s.apply op).store := by
  cases op with
  | record channel id tabId windowId ruleEvidence =>
    simp only [apply]
    split
    · exact fits_refl _
    next store' hstore' =>
    obtain ⟨-, -, hmax, hsize, -⟩ := record_ok hstore'
    exact ⟨hmax, .inr hsize⟩
  | accept message peerContext =>
    rcases h : s.store.accept message peerContext with ⟨_ | channel, store'⟩
    · simpa only [apply, h, accept_none h] using fits_refl _
    · obtain ⟨c, hc, -, -, -, -, -, -, rfl⟩ := accept_some h
      simpa only [apply, h] using fits_writeLast hc
  | acceptSourceMatches message peerContext =>
    rcases h : s.store.acceptSourceMatches message peerContext with ⟨_ | channel, store'⟩
    · simpa only [apply, h, acceptSourceMatches_none h] using fits_refl _
    · obtain ⟨c, hc, -, -, -, ⟨-, -, rfl⟩ | ⟨-, rfl⟩⟩ := acceptSourceMatches_some h
      · simpa only [apply, h] using fits_writeInPlace hc
      · simpa only [apply, h] using fits_writeInPlace hc
  | prepareRulesSources message peerContext =>
    simp only [apply]
    split
    · exact fits_refl _
    · exact fits_refl _
  | commit handle =>
    simp only [apply]
    split
    · exact fits_refl _
    next prepared hprepared =>
    rcases h : s.store.commitRulesSources prepared with ⟨_ | _, store'⟩
    · simpa only [commitRulesSources_false h] using fits_refl _
    · obtain ⟨c, hc, -, -, -, -, rfl⟩ := commitRulesSources_true h
      exact fits_writeLast hc
  | rollback handle => exact fits_refl _
  | discardSourcePresentationAuthority authority =>
    rcases discardSourcePresentationAuthority_cases s.store authority with hd | hd
    · simpa only [apply, hd] using fits_refl _
    · simpa only [apply, hd] using fits_delete _ _
  | discardRulesOpenAuthority authority =>
    rcases discardRulesOpenAuthority_cases s.store authority with hd | hd
    · simpa only [apply, hd] using fits_refl _
    · simpa only [apply, hd] using fits_delete _ _
  | discard id => exact fits_delete _ _
  | disposeChannel channel => exact fits_dispose _ _
  | disposeTab tabId =>
    simp only [apply, disposeTab]
    split
    · exact fits_refl _
    · exact fits_dispose _ _
  | disposeWindow windowId =>
    simp only [apply, disposeWindow]
    split
    · exact fits_refl _
    · exact fits_dispose _ _

theorem size_le (hr : Reaches limit h s) :
    s.store.maximumSize = limit ∧ s.store.correlations.size ≤ limit := by
  refine Run.invariant (P := fun s : StoreSession => s.store.maximumSize = limit ∧
    s.store.correlations.size ≤ limit) ⟨rfl, Nat.zero_le _⟩ ?_ hr
  rintro s op - ⟨hmax, hsize⟩ rfl
  obtain ⟨hmax', hsize' | hsize'⟩ := fits_apply s op
  · exact ⟨hmax'.trans hmax, hsize'.trans hsize⟩
  · exact ⟨hmax'.trans hmax, hmax ▸ hsize'⟩

/-- Recording an inspect leaves no other correlation on its channel or its tab. -/
theorem record_alone (hr : records id op = true) (hne : id' ≠ id)
    (hc : (s.apply op).correlation id = some c)
    (hc' : (s.apply op).correlation id' = some c') :
    c'.channel ≠ c.channel ∧ c'.tabId ≠ c.tabId := by
  cases op with
  | record channel i tabId windowId ruleEvidence =>
    have hrecords : i = id ∧ validRecord channel i tabId windowId ruleEvidence = true := by
      simpa only [records, decide_eq_true_eq] using hr
    obtain ⟨rfl, hvalid⟩ := hrecords
    cases hstore : s.store.record channel i tabId windowId ruleEvidence with
    | error e =>
      unfold InspectCorrelationStore.record at hstore
      rw [if_neg (not_not.2 hvalid)] at hstore
      cases hstore
    | ok store' =>
      obtain ⟨-, -, -, -, hnew, hothers⟩ := record_ok hstore
      simp only [apply, hstore, correlation] at hc hc'
      rw [hnew, Option.some.injEq] at hc
      subst hc
      exact (hothers id' c' hne hc').2
  | _ => cases hr

/-- Different inspects have different channels and tabs. -/
theorem distinct (hr : Reaches limit h s) : ∀ id id' c c', id' ≠ id →
    s.correlation id = some c → s.correlation id' = some c' →
    c'.channel ≠ c.channel ∧ c'.tabId ≠ c.tabId := by
  refine Run.invariant_history (P := fun _ (s : StoreSession) => ∀ id id' c c', id' ≠ id →
    s.correlation id = some c → s.correlation id' = some c' →
    c'.channel ≠ c.channel ∧ c'.tabId ≠ c.tabId) (fun _ _ _ _ _ hc => by cases hc) ?_ hr
  rintro h s op - hr ih rfl id id' c c' hne hc hc'
  cases hrec : records id op with
  | true => exact record_alone hrec hne hc hc'
  | false =>
    cases hrec' : records id' op with
    | true =>
      obtain ⟨hchannel, htab⟩ := record_alone hrec' hne.symm hc' hc
      exact ⟨hchannel.symm, htab.symm⟩
    | false =>
      have hs := reaches_step hr op id
      have hs' := reaches_step hr op id'
      unfold Effect at hs hs'
      rw [hrec, hc] at hs
      rw [hrec', hc'] at hs'
      obtain ⟨d, hd, hchannel, htab, -⟩ := hs.same_route
      obtain ⟨d', hd', hchannel', htab', -⟩ := hs'.same_route
      rw [hchannel, htab, hchannel', htab']
      exact ih id id' d d' hne hd hd'

/-! ## Opening -/

/-- The correlation of an inspect is live, with these routing facts. -/
def LiveAt (s : StoreSession) (id channel : String) (tabId windowId : ℤ) : Prop :=
  ∃ c, s.correlation id = some c ∧ c.channel = channel ∧ c.tabId = tabId ∧ c.windowId = windowId

/-- The last generation of a family is `generation`, and `x` is among what was last published
in it. -/
def Current (f : Family) (log : List Accepted) (generation : ℤ) (x : String) : Prop :=
  ∃ g : ℕ, (g : ℤ) = generation ∧ (generations f log).head? = some g ∧ x ∈ currentIds f log

theorem isResolutionGeneration_of_accepted {f : Family} {log : List Accepted}
    (hvalid : ∀ a ∈ log, a.valid = true) {g : ℕ} (hg : g ∈ generations f log) :
    isResolutionGeneration g = true := by
  obtain ⟨a, ha, hga⟩ := List.mem_filterMap.1 hg
  have hle : g ≤ Limits.generation := by
    have hv := hvalid a ha
    cases f <;> cases a <;> cases hga <;>
      simp only [Accepted.valid, ResolutionMessage.valid, RulesSourcesMessage.valid,
        decide_eq_true_eq] at hv <;> exact hv.2.2.2.1
  simp only [Limits.generation] at hle
  simp only [isResolutionGeneration, isSafeInteger, Limits.generation, decide_eq_true_eq]
  omega

theorem isOpaqueId_of_current {f : Family} {log : List Accepted}
    (hvalid : ∀ a ∈ log, a.valid = true) {x : String} (hx : x ∈ currentIds f log) :
    isOpaqueId x = true := by
  induction log with
  | nil => cases f <;> cases hx
  | cons a log ih =>
    have hrest := ih fun b hb => hvalid b (List.mem_cons_of_mem _ hb)
    have hv := hvalid a List.mem_cons_self
    cases f <;> cases a <;> simp only [currentIds] at hx
    · cases hx
    · simp only [Accepted.valid, SourceMatchesMessage.valid, decide_eq_true_eq] at hv
      obtain ⟨m, hm, rfl⟩ := List.mem_map.1 (List.mem_toFinset.1 hx)
      exact hv.2.2.2.2.2.2.1 m hm
    · exact hrest hx
    · exact hrest hx
    · exact hrest hx
    · simp only [Accepted.valid, RulesSourcesMessage.valid, decide_eq_true_eq] at hv
      obtain ⟨m, hm, rfl⟩ := List.mem_map.1 (List.mem_toFinset.1 hx)
      exact (hv.2.2.2.2.2.1 m hm).2

theorem routed_eq_some {store : InspectCorrelationStore} :
    store.routed channel tabId windowId id = some c ↔
      (isValidDevtoolsChannel channel = true ∧ isBrowserId tabId = true ∧
        isBrowserId windowId = true ∧ isOpaqueId id = true) ∧
      store.correlations.get? id = some c ∧
        c.channel = channel ∧ c.tabId = tabId ∧ c.windowId = windowId := by
  unfold routed
  split
  · next h =>
    simp only [reduceCtorEq, false_iff]
    tauto
  · next h =>
    simp only [not_or, not_not] at h
    rw [Option.filter_eq_some_iff]
    simp [h]

/-- Both `authorize…Open` look up the same things in their family. -/
theorem open_iff (hr : Reaches limit h s) (f : Family) :
    (isResolutionGeneration generation = true ∧ isOpaqueId matchId = true ∧
      ∃ c, s.store.routed channel tabId windowId id = some c ∧
        ∃ p, (c.view f).context = some p ∧ p.trusted = true ∧
          (c.view f).generation = generation ∧ matchId ∈ (c.view f).ids) ↔
    s.LiveAt id channel tabId windowId ∧ Current f (acceptedLog id h) generation matchId := by
  constructor
  · rintro ⟨hg, hx, c, hc, p, hp, htrusted, rfl, hmem⟩
    obtain ⟨-, hc, hroute⟩ := routed_eq_some.1 hc
    have hfaithful := faithful hr c hc
    refine ⟨⟨c, hc, hroute⟩, ?_⟩
    have hgen := hfaithful.generation f
    rw [hfaithful.ids f] at hmem
    cases hl : (generations f (acceptedLog id h)).head? with
    | none =>
      rw [hl] at hgen
      rw [hgen] at hg
      cases hg
    | some g =>
      rw [hl] at hgen
      exact ⟨g, hgen.symm, hl, hmem⟩
  · rintro ⟨⟨c, hc, rfl, rfl, rfl⟩, g, rfl, hhead, hx⟩
    have hfaithful := faithful hr c hc
    have hrecorded := recorded hr c hc
    have hgen := hfaithful.generation f
    rw [hhead, Option.elim_some] at hgen
    have hmem : g ∈ generations f (acceptedLog id h) := List.mem_of_head? hhead
    refine ⟨isResolutionGeneration_of_accepted hfaithful.valid hmem,
      isOpaqueId_of_current hfaithful.valid hx, c, ?_, ?_⟩
    · exact routed_eq_some.2
        ⟨⟨hrecorded.channel, hrecorded.tab, hrecorded.window, hrecorded.id⟩, hc, rfl, rfl, rfl⟩
    · rcases hfaithful.context f with hnone | ⟨p, hp, htrusted⟩
      · omega
      · exact ⟨p, hp, htrusted, hgen, (hfaithful.ids f).symm ▸ hx⟩

/-! ## Discarding -/

theorem seq_mono (hr₁ : Reaches limit h₁ s₁) (hrun : Run Step s₁ h₂ s) :
    s₁.store.authorityRevisionSequence ≤ s.store.authorityRevisionSequence := by
  induction hrun with
  | start => exact le_rfl
  | @next h s s' op hrun hs ih =>
    cases hs
    have hle := (reaches_step (hr₁.trans hrun) op "").seq_le
    omega

/-- The inspect was recorded, or a message renewing the family was accepted for it. -/
def Renewed (f : Family) (id : String) (h : Trace) : Prop :=
  ∃ t ∈ h, records id t.event = true ∨
    ∃ a, t.pre.acceptsFor id t.event = some a ∧ a.about f = true

/-- Since any point of a run, a family has either been renewed, with a revision newer than
that point, or is as it was. -/
theorem view_since (f : Family) (hr₁ : Reaches limit h₁ s₁) (hrun : Run Step s₁ h₂ s) :
    ∀ c, s.correlation id = some c →
      (Renewed f id h₂ ∧ s₁.store.authorityRevisionSequence < (c.view f).revision) ∨
      (¬ Renewed f id h₂ ∧ ∃ c₁, s₁.correlation id = some c₁ ∧ c.view f = c₁.view f) := by
  induction hrun with
  | start =>
    rintro c hc
    refine .inr ⟨?_, c, hc, rfl⟩
    rintro ⟨t, ht, -⟩
    cases ht
  | @next h s s' op hrun hs ih =>
    cases hs
    intro c' hc'
    have hstep := reaches_step (hr₁.trans hrun) op id
    unfold Effect at hstep
    rw [hc'] at hstep
    have hseq := seq_mono hr₁ hrun
    rcases hstep.view_cases f with ⟨hnew, hlt, -⟩ | ⟨hrec, hnone, c, hc, hview⟩
    · refine .inl ⟨⟨_, List.mem_cons_self, hnew⟩, ?_⟩
      omega
    · rw [hview]
      rcases ih c hc with ⟨⟨t, ht, hrenewed⟩, hlt⟩ | ⟨hnot, hsame⟩
      · exact .inl ⟨⟨t, List.mem_cons_of_mem _ ht, hrenewed⟩, hlt⟩
      · refine .inr ⟨?_, hsame⟩
        rintro ⟨t, ht, hrenewed⟩
        rcases List.mem_cons.1 ht with rfl | ht
        · rcases hrenewed with hrec' | ⟨a, ha, habout⟩
          · rw [hrec] at hrec'; cases hrec'
          · rw [hnone a ha] at habout; cases habout
        · exact hnot ⟨t, ht, hrenewed⟩

/-- An authority taken from a view is still that of the correlation exactly when the family
was not renewed since. -/
theorem view_kept_iff (f : Family) (hr₁ : Reaches limit h₁ s₁) (hrun : Run Step s₁ h₂ s)
    {c₁ : InspectCorrelation} (hc₁ : s₁.correlation id = some c₁) {P : AuthorityView → Prop}
    (hP : P (c₁.view f)) (hrevision : ∀ v, P v → v.revision = (c₁.view f).revision) :
    (∃ c, s.correlation id = some c ∧ P (c.view f)) ↔
      (s.correlation id).isSome = true ∧ ¬ Renewed f id h₂ := by
  constructor
  · rintro ⟨c, hc, hkept⟩
    refine ⟨by rw [hc]; rfl, ?_⟩
    rcases view_since f hr₁ hrun c hc with ⟨-, hlt⟩ | ⟨hnot, -⟩
    · have hle := revision_le hr₁ c₁ hc₁ f
      have heq := hrevision _ hkept
      omega
    · exact hnot
  · rintro ⟨hsome, hnot⟩
    obtain ⟨c, hc⟩ := Option.isSome_iff_exists.1 hsome
    rcases view_since f hr₁ hrun c hc with ⟨hrenewed, -⟩ | ⟨-, c₁', hc₁', hview⟩
    · exact absurd hrenewed hnot
    · rw [hc₁, Option.some.injEq] at hc₁'
      subst hc₁'
      exact ⟨c, hc, hview ▸ hP⟩

end StoreSession

/-- The store gave the authority out. -/
def SourceAuthority.IssuedBy (store : InspectCorrelationStore) : SourceAuthority → Prop
  | .sourceOpen a => ∃ channel tabId windowId id generation matchId,
      store.authorizeSourceOpen channel tabId windowId id generation matchId = some a
  | .presentationSettings a => ∃ channel tabId windowId id,
      store.authorizePresentationSettings channel tabId windowId id = some a

def RulesOpenAuthority.IssuedBy (store : InspectCorrelationStore) (a : RulesOpenAuthority) :
    Prop :=
  ∃ channel tabId windowId id generation openAuthorityId,
    store.authorizeRulesOpen channel tabId windowId id generation openAuthorityId = some a

/-- The view is the one the authority was taken from. -/
def SourceAuthority.HeldBy (a : SourceAuthority) (v : AuthorityView) : Prop :=
  v.channel = a.channel ∧ v.tabId = a.tabId ∧ v.windowId = a.windowId ∧
    v.generation = a.resolutionGeneration ∧ v.context = some a.context ∧ v.revision = a.revision

def RulesOpenAuthority.HeldBy (a : RulesOpenAuthority) (v : AuthorityView) : Prop :=
  v.channel = a.channel ∧ v.tabId = a.tabId ∧ v.windowId = a.windowId ∧
    v.generation = a.rulesGeneration ∧ v.context = some a.context ∧
    a.openAuthorityId ∈ v.ids ∧ v.revision = a.revision

namespace InspectCorrelationStore

variable {store : InspectCorrelationStore} {id channel matchId openAuthorityId : String}
  {tabId windowId generation : ℤ}

theorem authorizeSourceOpen_eq_some {a : SourceOpenAuthority} :
    store.authorizeSourceOpen channel tabId windowId id generation matchId = some a ↔
      isResolutionGeneration generation = true ∧ isOpaqueId matchId = true ∧
      ∃ c, store.routed channel tabId windowId id = some c ∧
        ∃ p, c.sourcePeerContext = some p ∧ p.trusted = true ∧
          c.resolutionGeneration = generation ∧ matchId ∈ c.matchIds ∧
          a = ⟨c.channel, id, c.resolutionGeneration, matchId, c.tabId, c.windowId, p,
            c.sourceAuthorityRevision⟩ := by
  simp only [authorizeSourceOpen, Option.bind_eq_bind, Option.pure_def]
  constructor
  · intro h
    split at h
    · cases h
    next hv =>
    simp only [Option.bind_eq_some_iff] at h
    obtain ⟨c, hc, p, hp, h⟩ := h
    split at h
    · cases h
    next hg =>
    simp only [ne_eq, not_or, not_not] at hv hg
    exact ⟨hv.1, hv.2, c, hc, p, hp, hg.1, hg.2.1, hg.2.2, (Option.some.inj h).symm⟩
  · rintro ⟨hg, hx, c, hc, p, hp, htrusted, hgen, hmem, rfl⟩
    rw [if_neg (by simp [hg, hx]), hc, Option.bind_some, hp, Option.bind_some,
      if_neg (by simp [htrusted, hgen, hmem])]

theorem authorizeRulesOpen_eq_some {a : RulesOpenAuthority} :
    store.authorizeRulesOpen channel tabId windowId id generation openAuthorityId = some a ↔
      isResolutionGeneration generation = true ∧ isOpaqueId openAuthorityId = true ∧
      ∃ c, store.routed channel tabId windowId id = some c ∧
        ∃ p, c.rulesPeerContext = some p ∧ p.trusted = true ∧
          c.rulesGeneration = generation ∧ openAuthorityId ∈ c.ruleOpenAuthorityIds ∧
          a = ⟨c.channel, id, c.rulesGeneration, openAuthorityId, c.tabId, c.windowId, p,
            c.rulesAuthorityRevision⟩ := by
  simp only [authorizeRulesOpen, Option.bind_eq_bind, Option.pure_def]
  constructor
  · intro h
    split at h
    · cases h
    next hv =>
    simp only [Option.bind_eq_some_iff] at h
    obtain ⟨c, hc, p, hp, h⟩ := h
    split at h
    · cases h
    next hg =>
    simp only [ne_eq, not_or, not_not] at hv hg
    exact ⟨hv.1, hv.2, c, hc, p, hp, hg.1, hg.2.1, hg.2.2, (Option.some.inj h).symm⟩
  · rintro ⟨hg, hx, c, hc, p, hp, htrusted, hgen, hmem, rfl⟩
    rw [if_neg (by simp [hg, hx]), hc, Option.bind_some, hp, Option.bind_some,
      if_neg (by simp [htrusted, hgen, hmem])]

theorem authorizePresentationSettings_eq_some {a : PresentationSettingsAuthority}
    (h : store.authorizePresentationSettings channel tabId windowId id = some a) :
    ∃ c, store.routed channel tabId windowId id = some c ∧
      ∃ p, c.sourcePeerContext = some p ∧
        a = ⟨c.channel, id, c.resolutionGeneration, c.tabId, c.windowId, p,
          c.sourceAuthorityRevision⟩ := by
  simp only [authorizePresentationSettings, Option.bind_eq_bind, Option.pure_def,
    Option.bind_eq_some_iff] at h
  obtain ⟨c, hc, p, hp, h⟩ := h
  split at h
  · cases h
  · exact ⟨c, hc, p, hp, (Option.some.inj h).symm⟩

theorem discardSourcePresentationAuthority_fst {a : SourceAuthority} :
    (store.discardSourcePresentationAuthority a).1 = true ↔
      ∃ c, store.correlations.get? a.inspectMessageId = some c ∧ a.HeldBy (c.view .source) := by
  unfold discardSourcePresentationAuthority
  cases hc : store.correlations.get? a.inspectMessageId with
  | none => simp
  | some c =>
    simp only [Option.some.injEq, exists_eq_left']
    split
    · next h =>
      simp only [Bool.false_eq_true, false_iff]
      rintro ⟨hchannel, htab, hwindow, hgen, hctx, hrevision⟩
      simp only [InspectCorrelation.view] at hchannel htab hwindow hgen hctx hrevision
      simp [hchannel, htab, hwindow, hgen, hctx, hrevision] at h
    · next h =>
      simp only [ne_eq, not_or, not_not] at h
      simp only [true_iff]
      exact h

theorem discardRulesOpenAuthority_fst {a : RulesOpenAuthority} :
    (store.discardRulesOpenAuthority a).1 = true ↔
      ∃ c, store.correlations.get? a.inspectMessageId = some c ∧ a.HeldBy (c.view .rules) := by
  unfold discardRulesOpenAuthority
  cases hc : store.correlations.get? a.inspectMessageId with
  | none => simp
  | some c =>
    simp only [Option.some.injEq, exists_eq_left']
    split
    · next h =>
      simp only [Bool.false_eq_true, false_iff]
      rintro ⟨hchannel, htab, hwindow, hgen, hctx, hmem, hrevision⟩
      simp only [InspectCorrelation.view] at hchannel htab hwindow hgen hctx hmem hrevision
      simp [hchannel, htab, hwindow, hgen, hctx, hmem, hrevision] at h
    · next h =>
      simp only [ne_eq, not_or, not_not] at h
      simp only [true_iff]
      exact h

/-- A discard removes the correlation or changes nothing. -/
theorem discardSourcePresentationAuthority_snd {a : SourceAuthority} :
    (store.discardSourcePresentationAuthority a).2 =
      if (store.discardSourcePresentationAuthority a).1 then store.delete a.inspectMessageId
      else store := by
  unfold discardSourcePresentationAuthority
  split
  · rfl
  · split <;> rfl

theorem discardRulesOpenAuthority_snd {a : RulesOpenAuthority} :
    (store.discardRulesOpenAuthority a).2 =
      if (store.discardRulesOpenAuthority a).1 then store.delete a.inspectMessageId
      else store := by
  unfold discardRulesOpenAuthority
  split
  · rfl
  · split <;> rfl

theorem routed_correlation {c : InspectCorrelation}
    (h : store.routed channel tabId windowId id = some c) :
    store.correlations.get? id = some c :=
  (StoreSession.routed_eq_some.1 h).2.1

theorem held_of_sourceIssued {a : SourceAuthority} (h : a.IssuedBy store) :
    ∃ c, store.correlations.get? a.inspectMessageId = some c ∧ a.HeldBy (c.view .source) := by
  cases a with
  | sourceOpen a =>
    obtain ⟨_, _, _, _, _, _, ha⟩ := h
    obtain ⟨-, -, c, hc, p, hp, -, -, -, rfl⟩ := authorizeSourceOpen_eq_some.1 ha
    exact ⟨c, routed_correlation hc, rfl, rfl, rfl, rfl, hp, rfl⟩
  | presentationSettings a =>
    obtain ⟨_, _, _, _, ha⟩ := h
    obtain ⟨c, hc, p, hp, rfl⟩ := authorizePresentationSettings_eq_some ha
    exact ⟨c, routed_correlation hc, rfl, rfl, rfl, rfl, hp, rfl⟩

theorem held_of_rulesIssued {a : RulesOpenAuthority} (h : a.IssuedBy store) :
    ∃ c, store.correlations.get? a.inspectMessageId = some c ∧ a.HeldBy (c.view .rules) := by
  obtain ⟨_, _, _, _, _, _, ha⟩ := h
  obtain ⟨-, -, c, hc, p, hp, -, -, hmem, rfl⟩ := authorizeRulesOpen_eq_some.1 ha
  exact ⟨c, routed_correlation hc, rfl, rfl, rfl, rfl, hp, hmem, rfl⟩

end InspectCorrelationStore

namespace StoreSession

variable {limit : ℕ+} {h : Trace} {s : StoreSession}

/-- What the store authorises after a run, and what takes it back. -/
structure CorrelationAuthority (limit : ℕ+) (h : Trace) (s : StoreSession) : Prop where
  bounded : s.store.correlations.size ≤ limit
  distinct : ∀ id id' c c', id' ≠ id → s.correlation id = some c → s.correlation id' = some c' →
    c'.channel ≠ c.channel ∧ c'.tabId ≠ c.tabId
  sourceOpen : ∀ channel tabId windowId id generation matchId,
    (s.store.authorizeSourceOpen channel tabId windowId id generation matchId).isSome = true ↔
      s.LiveAt id channel tabId windowId ∧
        Current .source (acceptedLog id h) generation matchId
  rulesOpen : ∀ channel tabId windowId id generation openAuthorityId,
    (s.store.authorizeRulesOpen channel tabId windowId id generation openAuthorityId).isSome =
        true ↔
      s.LiveAt id channel tabId windowId ∧
        Current .rules (acceptedLog id h) generation openAuthorityId
  ascending : ∀ id, (s.correlation id).isSome = true →
    ∀ f, (generations f (acceptedLog id h)).Pairwise (· > ·)
  oneSource : ∀ id, (s.correlation id).isSome = true →
    ∃ origin, FromOneSource (acceptedLog id h) origin
  /-- A source authority issued earlier in the run still discards its correlation exactly when
  the correlation is live and neither recorded anew nor renewed by a resolution or a
  `source.matches` since. -/
  discardSource : ∀ h₂ h₁ s₁ a, h = h₂ ++ h₁ → Reaches limit h₁ s₁ → a.IssuedBy s₁.store →
    ((s.store.discardSourcePresentationAuthority a).1 = true ↔
      (s.correlation a.inspectMessageId).isSome = true ∧
        ¬ Renewed .source a.inspectMessageId h₂) ∧
    (s.store.discardSourcePresentationAuthority a).2 =
      if (s.store.discardSourcePresentationAuthority a).1 then s.store.delete a.inspectMessageId
      else s.store
  discardRules : ∀ h₂ h₁ s₁ a, h = h₂ ++ h₁ → Reaches limit h₁ s₁ → a.IssuedBy s₁.store →
    ((s.store.discardRulesOpenAuthority a).1 = true ↔
      (s.correlation a.inspectMessageId).isSome = true ∧
        ¬ Renewed .rules a.inspectMessageId h₂) ∧
    (s.store.discardRulesOpenAuthority a).2 =
      if (s.store.discardRulesOpenAuthority a).1 then s.store.delete a.inspectMessageId
      else s.store

/-- The run that issued an authority goes on to the present one. -/
theorem run_since {h₁ h₂ : Trace} {s₁ : StoreSession} (hr : Reaches limit (h₂ ++ h₁) s)
    (hr₁ : Reaches limit h₁ s₁) : Run Step s₁ h₂ s := by
  obtain ⟨s₁', hr₁', hrun⟩ := hr.of_append
  obtain rfl := hr₁.end_unique hr₁'
  exact hrun

/-- The authority of every run is exact and revocable. -/
theorem correlationAuthority (hr : Reaches limit h s) : CorrelationAuthority limit h s where
  bounded := (size_le hr).2
  distinct := distinct hr
  sourceOpen channel tabId windowId id generation matchId := by
    rw [← open_iff hr .source, Option.isSome_iff_exists]
    simp only [authorizeSourceOpen_eq_some]
    constructor
    · rintro ⟨_, hg, hx, c, hc, p, hp, htrusted, hgen, hmem, -⟩
      exact ⟨hg, hx, c, hc, p, hp, htrusted, hgen, hmem⟩
    · rintro ⟨hg, hx, c, hc, p, hp, htrusted, hgen, hmem⟩
      exact ⟨_, hg, hx, c, hc, p, hp, htrusted, hgen, hmem, rfl⟩
  rulesOpen channel tabId windowId id generation openAuthorityId := by
    rw [← open_iff hr .rules, Option.isSome_iff_exists]
    simp only [authorizeRulesOpen_eq_some]
    constructor
    · rintro ⟨_, hg, hx, c, hc, p, hp, htrusted, hgen, hmem, -⟩
      exact ⟨hg, hx, c, hc, p, hp, htrusted, hgen, hmem⟩
    · rintro ⟨hg, hx, c, hc, p, hp, htrusted, hgen, hmem⟩
      exact ⟨_, hg, hx, c, hc, p, hp, htrusted, hgen, hmem, rfl⟩
  ascending id hlive := by
    obtain ⟨c, hc⟩ := Option.isSome_iff_exists.1 hlive
    exact (faithful hr c hc).ascending
  oneSource id hlive := by
    obtain ⟨c, hc⟩ := Option.isSome_iff_exists.1 hlive
    have hfaithful := faithful hr c hc
    cases hs : c.sourceId with
    | none => exact ⟨("", ""), [], acceptedLog id h, rfl, nofun, hfaithful.unowned hs⟩
    | some i =>
      obtain ⟨sessionId, -, hone⟩ := hfaithful.owned i hs
      exact ⟨_, hone⟩
  discardSource := by
    rintro h₂ h₁ s₁ a rfl hr₁ ha
    obtain ⟨c₁, hc₁, hheld⟩ := held_of_sourceIssued ha
    refine ⟨?_, discardSourcePresentationAuthority_snd⟩
    rw [discardSourcePresentationAuthority_fst]
    refine view_kept_iff (P := a.HeldBy) .source hr₁ (run_since hr hr₁) hc₁ hheld ?_
    rintro v ⟨-, -, -, -, -, hv⟩
    exact hv.trans hheld.2.2.2.2.2.symm
  discardRules := by
    rintro h₂ h₁ s₁ a rfl hr₁ ha
    obtain ⟨c₁, hc₁, hheld⟩ := held_of_rulesIssued ha
    refine ⟨?_, discardRulesOpenAuthority_snd⟩
    rw [discardRulesOpenAuthority_fst]
    refine view_kept_iff (P := a.HeldBy) .rules hr₁ (run_since hr hr₁) hc₁ hheld ?_
    rintro v ⟨-, -, -, -, -, -, hv⟩
    exact hv.trans hheld.2.2.2.2.2.2.symm

/-! ## A sample run -/

/-- The run through a list of operations. -/
def play (limit : ℕ+) (operations : List StoreOperation) : Trace × StoreSession :=
  operations.foldl (fun (h, s) op => (⟨s, op, s.apply op⟩ :: h, s.apply op)) ([], start limit)

theorem play_run (limit : ℕ+) (operations : List StoreOperation) :
    Reaches limit (play limit operations).1 (play limit operations).2 := by
  have hgo : ∀ (operations : List StoreOperation) (p : Trace × StoreSession),
      Reaches limit p.1 p.2 →
      Reaches limit
        (operations.foldl (fun (h, s) op => (⟨s, op, s.apply op⟩ :: h, s.apply op)) p).1
        (operations.foldl (fun (h, s) op => (⟨s, op, s.apply op⟩ :: h, s.apply op)) p).2 := by
    intro operations
    induction operations with
    | nil => exact fun p hp => hp
    | cons op rest ih => exact fun p hp => ih _ (hp.next rfl)
  exact hgo operations _ .start

namespace Sample

def editor : PeerContext := ⟨0, 7, "s", "editor", true⟩

def otherEditor : PeerContext := ⟨1, 7, "s", "other", true⟩

/-- An empty `source.matches` of one editor, then the resolution and matches of another. -/
def operations : List StoreOperation :=
  [.record "c" "m" 5 7 ⟨[⟨"r1"⟩]⟩,
    .acceptSourceMatches ⟨"s", ⟨"other"⟩, "m", 2, ⟨"a.css", "css"⟩, [], 0⟩ otherEditor,
    .accept ⟨"s", ⟨"editor"⟩, "m", 3, some ⟨"a.css", "css"⟩⟩ editor,
    .acceptSourceMatches ⟨"s", ⟨"editor"⟩, "m", 3, ⟨"a.css", "css"⟩, [⟨"x"⟩], 0⟩ editor]

end Sample

/-- The sample run authorises a match, and its authority is exact. -/
theorem correlationAuthority_sample :
    ((play 4 Sample.operations).2.store.authorizeSourceOpen "c" 5 7 "m" 3 "x").isSome = true ∧
      CorrelationAuthority 4 (play 4 Sample.operations).1 (play 4 Sample.operations).2 :=
  ⟨rfl, correlationAuthority (play_run 4 Sample.operations)⟩

/-- Matches may be taken back by an editor that never owns the correlation. -/
theorem accepted_from_two_sources :
    ¬ ∀ limit h s, Reaches limit h s → ∀ id, (s.correlation id).isSome = true →
      ∃ origin, ∀ a ∈ acceptedLog id h, a.origin = origin := by
  intro hall
  obtain ⟨origin, horigin⟩ := hall 4 _ _ (play_run 4 Sample.operations) "m" rfl
  have hlog : (acceptedLog "m" (play 4 Sample.operations).1).map Accepted.origin =
      [("s", "editor"), ("s", "editor"), ("s", "other")] := rfl
  have horigins : ∀ o ∈ (acceptedLog "m" (play 4 Sample.operations).1).map Accepted.origin,
      o = origin := by
    simpa using horigin
  rw [hlog] at horigins
  have h₁ := horigins ("s", "editor") (by simp)
  have h₂ := horigins ("s", "other") (by simp)
  rw [← h₂] at h₁
  simp at h₁

end StoreSession

end PinOp.Browser
