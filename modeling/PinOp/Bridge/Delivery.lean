import PinOp.Bridge.RouteSteps

/-!
# Targeted delivery

A reply reaches the client whose inspect it answers and nobody else; a route once owned
stays with its IDE until it is removed; a request goes from the origin to the owner.
What carries the first part through a run is the provenance of a stored route: some
earlier step committed the inspect of its origin, and it has been stored ever since.
-/

namespace PinOp.Bridge

open PinOp.Lib PinOp.Protocol ReplyRouteRegistry

variable {key : RouteKey} {e : Event} {o o' : Option StoredReplyRoute}
  {r r' : StoredReplyRoute}

/-- A route present after a step is the one before it, with its origin and any owner, or it
was created by the inspect of its origin. -/
theorem RouteStep.kept (h : RouteStep key o e (some r')) :
    (∃ r, o = some r ∧ r'.originConnectionId = r.originConnectionId ∧
      r'.expectedRuleRefs = r.expectedRuleRefs ∧
      ∀ i, r.ideConnectionId = some i → r'.ideConnectionId = some i) ∨
    (o = none ∧ ∃ c m sends objectId, e = .routed c (.inspect m) sends ∧
      key = ⟨m.sessionId, m.messageId⟩ ∧ r' = createdRoute objectId c
        (m.ruleEvidence.rules.map InspectRuleEvidence.ruleRef).toFinset) := by
  cases h with
  | untouched hd => exact .inl ⟨r', rfl, rfl, rfl, fun _ h => h⟩
  | created hkey hd => exact .inr ⟨rfl, _, _, _, _, rfl, hkey, rfl⟩
  | resolved hown hgen hd =>
    exact .inl ⟨_, rfl, rfl, rfl, fun j hj => by rw [StoredReplyRoute.owner_eq hown hj]; rfl⟩
  | invalidatedUnowned hnone hempty hd => exact .inl ⟨_, rfl, rfl, rfl, fun _ h => h⟩
  | invalidated hown hempty hgen hd =>
    exact .inl ⟨_, rfl, rfl, rfl, fun j hj => by rw [← hj, hown]; rfl⟩
  | matched hown hgen hd => exact .inl ⟨_, rfl, rfl, rfl, fun _ h => h⟩
  | published hown hgen hids hcount hd =>
    exact .inl ⟨_, rfl, rfl, rfl, fun j hj => by rw [StoredReplyRoute.owner_eq hown hj]; rfl⟩
  | navigated hown hd => exact .inl ⟨_, rfl, rfl, rfl, fun _ h => h⟩

/-- A step that delivers a reply finds a route, leaves it stored, and makes one delivery: to
the origin, of the message of an IDE that no other IDE owns the route against. -/
theorem RouteStep.delivered (h : RouteStep key o e o') (hd : e.deliveries key ≠ []) :
    ∃ r r' i m sends, o = some r ∧ o' = some r' ∧
      r'.originConnectionId = r.originConnectionId ∧ e = .routed i m sends ∧
      e.deliveries key = [⟨r.originConnectionId, m, true⟩] ∧ r.ownedByOther i = false := by
  cases h with
  | untouched h => exact absurd h hd
  | removed h => exact absurd h hd
  | created _ h => exact absurd h hd
  | resolved hown hgen h => exact ⟨_, _, _, _, _, rfl, rfl, rfl, rfl, h, hown⟩
  | invalidatedUnowned hnone hempty h =>
    exact ⟨_, _, _, _, _, rfl, rfl, rfl, rfl, h, StoredReplyRoute.ownedByOther_eq_false.2 (.inl hnone)⟩
  | invalidated hown hempty hgen h =>
    exact ⟨_, _, _, _, _, rfl, rfl, rfl, rfl, h, StoredReplyRoute.ownedByOther_eq_false.2 (.inr hown)⟩
  | matched hown hgen h =>
    exact ⟨_, _, _, _, _, rfl, rfl, rfl, rfl, h, StoredReplyRoute.ownedByOther_eq_false.2 (.inr hown)⟩
  | published hown hgen hids hcount h => exact ⟨_, _, _, _, _, rfl, rfl, rfl, rfl, h, hown⟩
  | navigated hown h => exact ⟨_, _, _, _, _, rfl, rfl, rfl, rfl, h, hown⟩

namespace BridgeState

variable {limit : ℕ+} {h h₁ h₂ : Trace} {b b' : BridgeState} {t : Transition BridgeState Event}
  {c i : String}

/-- The step commits the inspect of client `c`: nothing was stored under the key, and
afterwards a route to `c` that expects the rules of the inspect is. -/
def Commits (key : RouteKey) (r : StoredReplyRoute) (t : Transition BridgeState Event) : Prop :=
  t.pre.route key = none ∧ ∃ m sends r₀,
    t.event = .routed r.originConnectionId (.inspect m) sends ∧
    key = ⟨m.sessionId, m.messageId⟩ ∧ t.post.route key = some r₀ ∧
    r₀.originConnectionId = r.originConnectionId ∧
    r.expectedRuleRefs = (m.ruleEvidence.rules.map InspectRuleEvidence.ruleRef).toFinset

/-- The inspect behind the route `r` was committed, and a route to its client has been stored
ever since. -/
def CommittedSince (key : RouteKey) (r : StoredReplyRoute) (h : Trace) : Prop :=
  ∃ h₂ t h₁, h = h₂ ++ t :: h₁ ∧ Commits key r t ∧
    ∀ u ∈ h₂, ∃ r', u.post.route key = some r' ∧ r'.originConnectionId = r.originConnectionId

theorem committedSince (hr : Reaches limit h b) :
    ∀ r, b.route key = some r → CommittedSince key r h := by
  refine Run.invariant_history (P := fun h b => ∀ r, b.route key = some r →
    CommittedSince key r h) ?_ ?_ hr
  · intro r hr
    cases hr
  · intro h b e b' _ ih hstep r' hr'
    have hroute := step_route hstep key
    rw [hr'] at hroute
    rcases hroute.kept with ⟨r, hr, ho, he, -⟩ | ⟨hnone, c, m, sends, o, rfl, hkey, rfl⟩
    · obtain ⟨h₂, t, h₁, rfl, ht, hsince⟩ := ih r hr
      refine ⟨⟨b, e, b'⟩ :: h₂, t, h₁, rfl, ?_, ?_⟩
      · simpa only [Commits, ho, he] using ht
      · intro u hu
        rcases List.mem_cons.1 hu with rfl | hu
        · exact ⟨r', hr', rfl⟩
        · rw [ho]; exact hsince u hu
    · refine ⟨[], _, h, rfl, ⟨hnone, m, sends, _, rfl, hkey, hr', rfl, rfl⟩, ?_⟩
      intro u hu
      cases hu

/-- An owner stays while the route does. -/
theorem ide_kept (hr : Run Step b h b') (hb : ∃ r, b.route key = some r ∧
    r.ideConnectionId = some i) (hpresent : ∀ u ∈ h, u.post.route key ≠ none) :
    ∃ r, b'.route key = some r ∧ r.ideConnectionId = some i := by
  induction hr with
  | start => exact hb
  | @next h s s' e hrun hs ih =>
    obtain ⟨r, hr, hi⟩ := ih fun u hu => hpresent u (List.mem_cons_of_mem _ hu)
    obtain ⟨r', hr'⟩ := Option.ne_none_iff_exists'.1 (hpresent _ List.mem_cons_self)
    have hroute := step_route hs key
    rw [hr, hr'] at hroute
    rcases hroute.kept with ⟨r₀, hr₀, -, -, hkeep⟩ | ⟨hnone, -⟩
    · cases hr₀
      exact ⟨r', hr', hkeep i hi⟩
    · cases hnone

/-- Where every reply, owner and request of a run goes. -/
structure TargetedDelivery (h : Trace) : Prop where
  /-- A delivered reply is the only one of its step, and went to the client whose inspect was
  committed and is still stored. -/
  delivered : ∀ h₂ t h₁, h = h₂ ++ t :: h₁ → ∀ key, ∀ d ∈ t.event.deliveries key,
    t.event.deliveries key = [d] ∧ ∃ r r', t.pre.route key = some r ∧
      t.post.route key = some r' ∧ r.originConnectionId = d.recipient ∧
      r'.originConnectionId = d.recipient ∧ CommittedSince key r h₁
  /-- From the step that stored a route owned by `i`, and until the route is removed, the owner
  is `i` and only messages of `i` are delivered. -/
  owned : ∀ h₃ h₂ t h₁, h = h₃ ++ h₂ ++ t :: h₁ → ∀ key r i, t.post.route key = some r →
    r.ideConnectionId = some i → (∀ u ∈ h₂, u.post.route key ≠ none) →
    ∀ u ∈ h₂, (∃ r', u.post.route key = some r' ∧ r'.ideConnectionId = some i) ∧
      ∀ j m sends, u.event = .routed j m sends → u.event.deliveries key ≠ [] → j = i
  /-- A request is forwarded for the origin only, to the owner only. -/
  forwarded : ∀ t ∈ h, ∀ key, ∀ d ∈ t.event.forwards key, ∃ r sends,
    t.pre.route key = some r ∧ t.event = .routed r.originConnectionId d.message sends ∧
      r.ideConnectionId = some d.recipient

/-- Every run of the bridge delivers to its targets. -/
theorem targetedDelivery (hr : Reaches limit h b) : TargetedDelivery h where
  delivered := by
    rintro h₂ t h₁ rfl key d hd
    obtain ⟨hpre, hs, -⟩ := hr.split
    have hroute := step_route hs key
    obtain ⟨r, r', i, m, sends, ho, ho', horigin, -, hdel, -⟩ :=
      hroute.delivered (List.ne_nil_of_mem hd)
    rw [hdel, List.mem_singleton] at hd
    subst hd
    exact ⟨hdel, r, r', ho, ho', rfl, horigin, committedSince hpre r ho⟩
  owned := by
    rintro h₃ h₂ t h₁ rfl key r i hr₀ hi hpresent u hu
    rw [List.append_assoc] at hr
    obtain ⟨s, hrun, -⟩ := hr.of_append
    obtain ⟨g₂, g₁, rfl⟩ := List.append_of_mem hu
    obtain ⟨-, -, hsince⟩ := hrun.split
    obtain ⟨hg, hs, -⟩ := hsince.split
    have hbefore : ∀ v ∈ g₁, v.post.route key ≠ none := fun v hv => hpresent v (by simp [hv])
    have hpre := ide_kept hg ⟨r, hr₀, hi⟩ hbefore
    have hpost : ∃ r', u.post.route key = some r' ∧ r'.ideConnectionId = some i := by
      refine ide_kept (Run.start.next hs) hpre ?_
      intro v hv
      rw [List.mem_singleton.1 hv]
      exact hpresent u hu
    refine ⟨hpost, ?_⟩
    intro j m sends he hd
    obtain ⟨r₁, r₂, j', m', sends', ho, -, -, he', -, hown⟩ := (step_route hs key).delivered hd
    obtain ⟨r₃, hr₃, hi₃⟩ := hpre
    obtain rfl : r₁ = r₃ := Option.some.inj (ho.symm.trans hr₃)
    rw [he] at he'
    cases he'
    exact (StoredReplyRoute.owner_eq hown hi₃).symm
  forwarded := by
    intro t ht key d hd
    obtain ⟨h', -, hs⟩ := hr.step_of_mem ht
    obtain ⟨r, sends, hr', he, hi, -⟩ := step_forward hs hd
    exact ⟨r, sends, hr', he, hi⟩

/-- In the sample run three replies are delivered and two requests are forwarded. -/
theorem targetedDelivery_sample :
    (Sample.played.1.flatMap fun t => t.event.deliveries Sample.key).length = 3 ∧
      (Sample.played.1.flatMap fun t => t.event.forwards Sample.key).length = 2 ∧
      TargetedDelivery Sample.played.1 :=
  ⟨rfl, rfl, targetedDelivery Sample.run⟩

end BridgeState

end PinOp.Bridge
