import PinOp.Bridge.SourceAuthority

/-!
# Rules-open authority

A route's rules generation and the authorities it may open are those of the last
`rules.sources` delivered in its present incarnation. `Publications` relates the stored
route to the whole list of these messages, so that one step lemma carries every part.
-/

namespace PinOp.Bridge

open PinOp.Lib PinOp.Protocol ReplyRouteRegistry

def authorityIds (message : RulesSourcesMessage) : Finset String :=
  (message.sources.map RulesSource.openAuthorityId).toFinset

/-- The message names distinct rules among the expected ones and accounts for all others. -/
structure CoversRules (refs : Finset String) (message : RulesSourcesMessage) : Prop where
  distinct : (message.sources.map RulesSource.ruleRef).Nodup
  expected : ∀ s ∈ message.sources, s.ruleRef ∈ refs
  counted : message.sources.length + message.unresolvedRuleCount = refs.card

/-- A rejected or failed `rules.sources` leaves the reply routes as they were. -/
theorem routeRulesSources_unchanged {registry : ClientRegistry} {reg reg' : ReplyRouteRegistry}
    {sender : RegisteredClient} {outcome : Outcome} {message : RulesSourcesMessage}
    {sends : List Send}
    (h : routeRulesSources registry reg sender outcome message = .ok (reg', sends))
    (hd : deliveriesOf ⟨message.sessionId, message.inspectMessageId⟩ sends = []) : reg' = reg := by
  unfold routeRulesSources at h
  simp only at h
  split at h
  · cases h; rfl
  split at h
  · cases h; rfl
  next recipient _ =>
  split at h
  · cases h; rfl
  split at h
  · cases h; rfl
  next ho =>
  have ho : outcome 0 = true := by simpa [sendMessage_nil] using ho
  cases h
  exfalso
  split at hd
  · simp [sendMessage_nil, ho, deliveriesOf, PinOpMessage.repliesTo] at hd
  · rw [deliveriesOf_sendNoBrowser] at hd
    simp [sendMessage_nil, ho, deliveriesOf, PinOpMessage.repliesTo] at hd

namespace BridgeState

/-- The `rules.sources` a step delivered on a route, with its sender. -/
def publication (key : RouteKey) (e : Event) : Option (String × RulesSourcesMessage) :=
  match e with
  | .routed i (.rulesSources m) _ => if e.deliveries key = [] then none else some (i, m)
  | _ => none

/-- Those of the present incarnation, the newest first. -/
def publications (key : RouteKey) (h : Trace) : List (String × RulesSourcesMessage) :=
  (incarnation key h).filterMap fun t => publication key t.event

variable {key : RouteKey} {limit : ℕ+} {h : Trace} {b b' : BridgeState} {e : Event}
  {r r' : StoredReplyRoute} {i : String} {log : List (String × RulesSourcesMessage)}

/-- How a stored route depends on what was published on it. -/
structure Publications (r : StoredReplyRoute) (log : List (String × RulesSourcesMessage)) :
    Prop where
  generation : r.rulesGeneration = log.head?.map fun p => (p.2.rulesGeneration : JsNumber)
  authorities : r.ruleOpenAuthorityIds = (log.head?.map fun p => authorityIds p.2).getD ∅
  owner : ∀ p ∈ log, r.ideConnectionId = some p.1
  ascending : log.Pairwise fun newer older => older.2.rulesGeneration < newer.2.rulesGeneration
  first : ∀ p, log.getLast? = some p → p.2.rulesGeneration = 1
  covering : ∀ p ∈ log, CoversRules r.expectedRuleRefs p.2

theorem publications_cons (hr : b.route key = some r) :
    publications key (⟨b, e, b'⟩ :: h) = (publication key e).toList ++ publications key h := by
  simp only [publications, incarnation, hr, reduceCtorEq, if_false, List.filterMap_cons]
  cases publication key e <;> rfl

theorem publications_created (hn : b.route key = none) :
    publications key (⟨b, e, b'⟩ :: h) = [] := by
  simp [publications, incarnation, hn]

theorem publication_silent (hd : e.deliveries key = []) : publication key e = none := by
  unfold publication
  split
  · rw [if_pos hd]
  · rfl

theorem Publications.of_created {c : String} {refs : Finset String} {objectId : ℕ} :
    Publications (createdRoute objectId c refs) [] where
  generation := rfl
  authorities := rfl
  owner _ hp := by cases hp
  ascending := .nil
  first _ hp := by cases hp
  covering _ hp := by cases hp

/-- A write that keeps the rules of a route and any owner. -/
theorem Publications.keep (h : Publications r log) (hg : r'.rulesGeneration = r.rulesGeneration)
    (ha : r'.ruleOpenAuthorityIds = r.ruleOpenAuthorityIds)
    (he : r'.expectedRuleRefs = r.expectedRuleRefs)
    (hi : ∀ i, r.ideConnectionId = some i → r'.ideConnectionId = some i) :
    Publications r' log where
  generation := hg.trans h.generation
  authorities := ha.trans h.authorities
  owner p hp := hi p.1 (h.owner p hp)
  ascending := h.ascending
  first := h.first
  covering p hp := he ▸ h.covering p hp

/-- A generation that is not stale is 1 at first and above the newest afterwards. -/
theorem Publications.fresh (h : Publications r log) {g : ℕ}
    (hg : rulesGenerationStale r.rulesGeneration g = false) :
    (log = [] → g = 1) ∧ ∀ p ∈ log, p.2.rulesGeneration < g := by
  rw [h.generation] at hg
  cases log with
  | nil => simpa [rulesGenerationStale] using hg
  | cons q log =>
    have hlt : q.2.rulesGeneration < g := by simpa [rulesGenerationStale] using hg
    refine ⟨fun e => (by cases e), fun p hp => ?_⟩
    rcases List.mem_cons.1 hp with rfl | hp
    · exact hlt
    · have := List.rel_of_pairwise_cons h.ascending hp
      omega

theorem Publications.publish (h : Publications r log) {m : RulesSourcesMessage}
    {ids : Finset String} (hown : r.ownedByOther i = false)
    (hgen : rulesGenerationStale r.rulesGeneration m.rulesGeneration = false)
    (hids : collectSources r.expectedRuleRefs ∅ ∅ m.sources = some ids)
    (hcount : m.sources.length + m.unresolvedRuleCount = r.expectedRuleRefs.card) :
    Publications (r.publish i m.rulesGeneration ids) ((i, m) :: log) := by
  obtain ⟨hrefs, hnodup, hids⟩ := collectSources_some hids
  obtain ⟨hone, habove⟩ := h.fresh hgen
  have hcovers : CoversRules r.expectedRuleRefs m := ⟨hnodup, fun s hs => (hrefs s hs).1, hcount⟩
  refine ⟨rfl, ?_, ?_, List.pairwise_cons.2 ⟨habove, h.ascending⟩, ?_, ?_⟩
  · simpa [StoredReplyRoute.publish, authorityIds] using hids
  · intro p hp
    rcases List.mem_cons.1 hp with rfl | hp
    · rfl
    · rw [StoredReplyRoute.owner_eq hown (h.owner p hp)]; rfl
  · intro p hp
    cases log with
    | nil => cases hp; exact hone rfl
    | cons q log => exact h.first p (by rwa [List.getLast?_cons_cons] at hp)
  · intro p hp
    rcases List.mem_cons.1 hp with rfl | hp
    · exact hcovers
    · exact h.covering p hp

/-- The invariant of every run. -/
theorem publications_stored (hr : Reaches limit h b) :
    ∀ r, b.route key = some r → Publications r (publications key h) := by
  refine Run.invariant_history (P := fun h b => ∀ r, b.route key = some r →
    Publications r (publications key h)) ?_ ?_ hr
  · intro r hr
    cases hr
  · intro h b e b' _ ih hstep r' hr'
    have hroute := step_route hstep key
    rw [hr'] at hroute
    generalize hb : b.route key = o at hroute
    cases hroute with
    | untouched hd =>
      rw [publications_cons hb, publication_silent hd]
      exact ih _ hb
    | created hkey hd =>
      rw [publications_created hb]
      exact .of_created
    | resolved hown hgen hd =>
      rw [publications_cons hb]
      exact (ih _ hb).keep rfl rfl rfl fun j hj => by rw [StoredReplyRoute.owner_eq hown hj]; rfl
    | invalidatedUnowned hnone hempty hd =>
      rw [publications_cons hb]
      exact (ih _ hb).keep rfl rfl rfl fun _ hj => hj
    | invalidated hown hempty hgen hd =>
      rw [publications_cons hb]
      exact (ih _ hb).keep rfl rfl rfl fun j hj => by rw [← hj, hown]; rfl
    | matched hown hgen hd =>
      rw [publications_cons hb]
      exact (ih _ hb).keep rfl rfl rfl fun _ hj => hj
    | published hown hgen hids hcount hd =>
      rw [publications_cons hb, publication, if_neg (by rw [hd]; exact List.cons_ne_nil _ _)]
      exact (ih _ hb).publish hown hgen hids hcount
    | navigated hown hd =>
      rw [publications_cons hb]
      exact ih _ hb

/-- What a run has published on its routes, and what it may open. -/
structure ExactRulesAuthority (h : Trace) (b : BridgeState) : Prop where
  /-- The stored pair is that of the last delivered message. -/
  stored : ∀ key r, b.route key = some r →
    r.rulesGeneration =
      (publications key h).head?.map (fun p => (p.2.rulesGeneration : JsNumber)) ∧
    r.ruleOpenAuthorityIds = ((publications key h).head?.map fun p => authorityIds p.2).getD ∅
  /-- The delivered generations start at 1 and increase. -/
  ascending : ∀ key r, b.route key = some r →
    (publications key h).Pairwise (fun newer older =>
      older.2.rulesGeneration < newer.2.rulesGeneration) ∧
    ∀ p, (publications key h).getLast? = some p → p.2.rulesGeneration = 1
  /-- Every delivered message covers the rules the committed inspect registered. -/
  covering : ∀ key r, b.route key = some r → CommittedSince key r h ∧
    ∀ p ∈ publications key h, CoversRules r.expectedRuleRefs p.2
  /-- A `rules.sources` that was not delivered changed nothing. -/
  unchanged : ∀ t ∈ h, ∀ i m sends, t.event = .routed i (.rulesSources m) sends →
    t.event.deliveries ⟨m.sessionId, m.inspectMessageId⟩ = [] →
    t.post.replyRoutes = t.pre.replyRoutes
  /-- A forwarded `rules.open` is in the stored pair, comes from the origin and goes to the
  connection that published it. -/
  opened : ∀ h₂ t h₁, h = h₂ ++ t :: h₁ → ∀ key, ∀ d ∈ t.event.forwards key, ∀ m,
    d.message = .rulesOpen m → ∃ r sends published, t.pre.route key = some r ∧
      t.event = .routed r.originConnectionId d.message sends ∧
      r.rulesGeneration = some (m.rulesGeneration : JsNumber) ∧
      m.openAuthorityId ∈ r.ruleOpenAuthorityIds ∧
      (publications key h₁).head? = some (d.recipient, published) ∧
      published.rulesGeneration = m.rulesGeneration ∧
      m.openAuthorityId ∈ authorityIds published

/-- The rules authority of every run is exact. -/
theorem exactRulesAuthority (hr : Reaches limit h b) : ExactRulesAuthority h b where
  stored key r hroute :=
    ⟨(publications_stored hr r hroute).generation, (publications_stored hr r hroute).authorities⟩
  ascending key r hroute :=
    ⟨(publications_stored hr r hroute).ascending, (publications_stored hr r hroute).first⟩
  covering key r hroute := ⟨committedSince hr r hroute, (publications_stored hr r hroute).covering⟩
  unchanged := by
    intro t ht i m sends he hd
    obtain ⟨h', -, hs⟩ := hr.step_of_mem ht
    rcases t with ⟨b₀, e, b₁⟩
    simp only at he hd hs ⊢
    subst he
    cases hs with
    | message outcome hsender hm => exact routeRulesSources_unchanged hm hd
  opened := by
    rintro h₂ t h₁ rfl key d hd m hm
    obtain ⟨hpre, hs, -⟩ := hr.split
    obtain ⟨r, sends, hroute, he, hi, hpermits⟩ := step_forward hs hd
    rw [hm] at hpermits
    obtain ⟨hgen, hid⟩ := hpermits
    have hp := publications_stored hpre r hroute
    have hstored := hp.generation
    have hids := hp.authorities
    cases hlog : publications key h₁ with
    | nil =>
      rw [hgen, hlog] at hstored
      cases hstored
    | cons q log =>
      rw [hgen, hlog] at hstored
      rw [hlog] at hids
      have hgen' : m.rulesGeneration = q.2.rulesGeneration := by simpa using hstored
      have howner := hp.owner q (by rw [hlog]; exact List.mem_cons_self)
      rw [hi, Option.some.injEq] at howner
      have hmember : m.openAuthorityId ∈ authorityIds q.2 := by
        rw [hids] at hid
        exact hid
      refine ⟨r, sends, q.2, hroute, he, hgen, hid, ?_, hgen'.symm, hmember⟩
      rw [howner]; rfl

/-- The sample run publishes once and forwards a `rules.open`. -/
theorem exactRulesAuthority_sample :
    (publications Sample.key Sample.played.1).length = 1 ∧
      (Sample.played.1.any fun t => t.event.sends.any fun d =>
        d.message = .rulesOpen ⟨"s", "m", 1, "a1"⟩) = true ∧
      ExactRulesAuthority Sample.played.1 Sample.played.2 :=
  ⟨rfl, rfl, exactRulesAuthority Sample.run⟩

end BridgeState

end PinOp.Bridge
