import PinOp.Bridge.Delivery

/-!
# Source-open authority

The matches a route allows to be opened are those of the last reply about the source that
was delivered in the present incarnation of the route: `excerpts_delivered` is the
invariant, by one case for each thing that can happen to a route. The generations of these
replies never decrease once the route is owned.
-/

namespace PinOp.Bridge

open PinOp.Lib PinOp.Protocol ReplyRouteRegistry

/-- The generation of a message about the source: of a resolution or a `source.matches`. -/
def sourceGeneration : PinOpMessage → Option ℕ
  | .resolution m => some m.resolutionGeneration
  | .sourceMatches m => some m.resolutionGeneration
  | _ => none

namespace BridgeState

/-- The steps taken since the route under `key` was created, the newest first. -/
def incarnation (key : RouteKey) : Trace → Trace
  | [] => []
  | t :: h => if t.pre.route key = none then [] else t :: incarnation key h

/-- The replies delivered on the present incarnation of a route, the newest first. -/
def replies (key : RouteKey) (h : Trace) : List Send :=
  (incarnation key h).flatMap fun t => t.event.deliveries key

/-- Those about the source. -/
def sourceReplies (key : RouteKey) (h : Trace) : List Send :=
  (replies key h).filter fun d => (sourceGeneration d.message).isSome

variable {key : RouteKey} {limit : ℕ+} {h : Trace} {b b' : BridgeState} {e : Event}
  {r r' : StoredReplyRoute} {o : Option StoredReplyRoute} {i : String}

theorem replies_cons (hr : b.route key = some r) :
    replies key (⟨b, e, b'⟩ :: h) = e.deliveries key ++ replies key h := by
  simp [replies, incarnation, hr]

theorem replies_created (hn : b.route key = none) : replies key (⟨b, e, b'⟩ :: h) = [] := by
  simp [replies, incarnation, hn]

theorem sourceReplies_cons (hr : b.route key = some r) :
    sourceReplies key (⟨b, e, b'⟩ :: h) =
      ((e.deliveries key).filter fun d => (sourceGeneration d.message).isSome) ++
        sourceReplies key h := by
  rw [sourceReplies, replies_cons hr, List.filter_append]; rfl

/-- What the newest reply about the source says about a match that may be opened. -/
def Delivered (r : StoredReplyRoute) (x : String) (log : List Send) : Prop :=
  ∃ m, log.head? = some ⟨r.originConnectionId, .sourceMatches m, true⟩ ∧
    r.resolutionGeneration = some (m.resolutionGeneration : JsNumber) ∧ x ∈ matchIds m

/-- Every match a stored route allows was in the last reply about the source. -/
theorem excerpts_delivered (hr : Reaches limit h b) :
    ∀ r, b.route key = some r → ∀ x ∈ r.excerptMatchIds, Delivered r x (sourceReplies key h) := by
  refine Run.invariant_history (P := fun h b => ∀ r, b.route key = some r →
    ∀ x ∈ r.excerptMatchIds, Delivered r x (sourceReplies key h)) ?_ ?_ hr
  · intro r hr
    cases hr
  · intro h b e b' _ ih hstep r' hr' x hx
    have hroute := step_route hstep key
    rw [hr'] at hroute
    generalize hb : b.route key = o at hroute
    cases hroute with
    | untouched hd => rw [sourceReplies_cons hb, hd]; exact ih _ hb x hx
    | created hkey hd => cases hx
    | resolved hown hgen hd => cases hx
    | invalidatedUnowned hnone hempty hd => cases hx
    | invalidated hown hempty hgen hd => cases hx
    | matched hown hgen hd =>
      rw [sourceReplies_cons hb, hd]
      exact ⟨_, rfl, hgen, List.mem_toFinset.1 hx⟩
    | published hown hgen hids hcount hd => rw [sourceReplies_cons hb, hd]; exact ih _ hb x hx
    | navigated hown hd => rw [sourceReplies_cons hb, hd]; exact ih _ hb x hx

/-! ## Generations -/

/-- An owned route has the generation of the reply about the source that a step delivered. -/
theorem generation_delivered (h : RouteStep key o e (some r'))
    (howned : r'.ideConnectionId.isSome) {d : Send} (hd : d ∈ e.deliveries key) {g : ℕ}
    (hg : sourceGeneration d.message = some g) : r'.resolutionGeneration = some (g : JsNumber) := by
  cases h with
  | untouched he => rw [he] at hd; cases hd
  | created hkey he => rw [he] at hd; cases hd
  | resolved hown hgen he =>
    rw [he, List.mem_singleton] at hd
    subst hd
    cases hg
    rfl
  | @invalidatedUnowned r _ _ _ hnone hempty he =>
    have : r.ideConnectionId.isSome := howned
    rw [hnone] at this
    cases this
  | invalidated hown hempty hgen he =>
    rw [he, List.mem_singleton] at hd
    subst hd
    cases hg
    rfl
  | matched hown hgen he =>
    rw [he, List.mem_singleton] at hd
    subst hd
    cases hg
    exact hgen
  | published hown hgen hids hcount he =>
    rw [he, List.mem_singleton] at hd
    subst hd
    cases hg
  | navigated hown he =>
    rw [he, List.mem_singleton] at hd
    subst hd
    cases hg

/-- A step never lowers the generation of a route. -/
theorem generation_mono (h : RouteStep key (some r) e (some r')) {g : ℕ}
    (hg : r.resolutionGeneration = some (g : JsNumber)) :
    ∃ g' : ℕ, r'.resolutionGeneration = some (g' : JsNumber) ∧ g ≤ g' := by
  cases h with
  | untouched he => exact ⟨g, hg, le_rfl⟩
  | resolved hown hgen he => exact ⟨_, rfl, by simpa using hgen _ hg⟩
  | invalidatedUnowned hnone hempty he => exact ⟨g, hg, le_rfl⟩
  | invalidated hown hempty hgen he => exact ⟨_, rfl, by simpa using hgen _ hg⟩
  | matched hown hgen he => exact ⟨g, hg, le_rfl⟩
  | published hown hgen hids hcount he => exact ⟨g, hg, le_rfl⟩
  | navigated hown he => exact ⟨g, hg, le_rfl⟩

/-- Nor does a run, while the route stays. -/
theorem generation_run (hrun : Run Step b h b') (hr : b.route key = some r)
    (howned : r.ideConnectionId = some i) {g : ℕ}
    (hg : r.resolutionGeneration = some (g : JsNumber))
    (hpresent : ∀ u ∈ h, u.post.route key ≠ none) :
    ∃ r', b'.route key = some r' ∧ r'.ideConnectionId = some i ∧
      ∃ g' : ℕ, r'.resolutionGeneration = some (g' : JsNumber) ∧ g ≤ g' := by
  induction hrun with
  | start => exact ⟨r, hr, howned, g, hg, le_rfl⟩
  | @next h s s' e hrun hs ih =>
    have hbefore : ∀ u ∈ h, u.post.route key ≠ none :=
      fun u hu => hpresent u (List.mem_cons_of_mem _ hu)
    obtain ⟨r₁, hr₁, hi₁, g₁, hg₁, hle₁⟩ := ih hbefore
    obtain ⟨r₂, hr₂, hi₂⟩ := ide_kept (hrun.next hs) ⟨r, hr, howned⟩ hpresent
    have hroute := step_route hs key
    rw [hr₁, hr₂] at hroute
    obtain ⟨g₂, hg₂, hle₂⟩ := generation_mono hroute hg₁
    exact ⟨r₂, hr₂, hi₂, g₂, hg₂, by omega⟩

/-- What a run may open at its IDEs, and in which order it hears of generations. -/
structure FreshSourceAuthority (h : Trace) : Prop where
  /-- A forwarded `source.open` names a match of the last reply about the source delivered on
  this incarnation of the route, which is a `source.matches` of the same generation. -/
  openable : ∀ h₂ t h₁, h = h₂ ++ t :: h₁ → ∀ key, ∀ d ∈ t.event.forwards key, ∀ m,
    d.message = .sourceOpen m → ∃ r sm, t.pre.route key = some r ∧
      (sourceReplies key h₁).head? = some ⟨r.originConnectionId, .sourceMatches sm, true⟩ ∧
      sm.resolutionGeneration = m.resolutionGeneration ∧ m.matchId ∈ matchIds sm
  /-- On an owned route, until it is removed, a later reply about the source never has a
  smaller generation. -/
  ordered : ∀ h₃ h₂ t h₁, h = h₃ ++ h₂ ++ t :: h₁ → ∀ key r i, t.post.route key = some r →
    r.ideConnectionId = some i → (∀ u ∈ h₂, u.post.route key ≠ none) →
    ∀ u ∈ h₂, ∀ d ∈ t.event.deliveries key, ∀ d' ∈ u.event.deliveries key, ∀ g g',
      sourceGeneration d.message = some g → sourceGeneration d'.message = some g' → g ≤ g'

/-- The source authority of every run is fresh. -/
theorem freshSourceAuthority (hr : Reaches limit h b) : FreshSourceAuthority h where
  openable := by
    rintro h₂ t h₁ rfl key d hd m hm
    obtain ⟨hpre, hs, -⟩ := hr.split
    obtain ⟨r, sends, hroute, -, -, hpermits⟩ := step_forward hs hd
    rw [hm] at hpermits
    obtain ⟨hgen, hmatch⟩ := hpermits
    obtain ⟨sm, hlast, hgen', hx⟩ := excerpts_delivered hpre r hroute m.matchId hmatch
    rw [hgen, Option.some.injEq, JsNumber.natCast_inj] at hgen'
    exact ⟨r, sm, hroute, hlast, hgen'.symm, hx⟩
  ordered := by
    rintro h₃ h₂ t h₁ rfl key r i hroute hi hpresent u hu d hd d' hd' g g' hg hg'
    rw [List.append_assoc] at hr
    obtain ⟨s, hrun, -⟩ := hr.of_append
    obtain ⟨g₂, g₁, rfl⟩ := List.append_of_mem hu
    obtain ⟨-, hst, hsince⟩ := hrun.split
    obtain ⟨hg₁, hsu, -⟩ := hsince.split
    have hstep := step_route hst key
    rw [hroute] at hstep
    have hgen := generation_delivered hstep (by rw [hi]; rfl) hd hg
    have hpost : ∀ v ∈ (u :: g₁), v.post.route key ≠ none := by
      intro v hv
      exact hpresent v (List.mem_append_right _ hv)
    obtain ⟨r', hr', hi', g'', hgen'', hle⟩ := generation_run (hg₁.next hsu) hroute hi hgen hpost
    have hstep' := step_route hsu key
    rw [hr'] at hstep'
    have hgen' := generation_delivered hstep' (by rw [hi']; rfl) hd' hg'
    rw [hgen'', Option.some.injEq, JsNumber.natCast_inj] at hgen'
    omega

/-- The sample run forwards a `source.open`. -/
theorem freshSourceAuthority_sample :
    (Sample.played.1.any fun t => t.event.sends.any fun d =>
      d.message = .sourceOpen ⟨"s", "m", 3, "x"⟩) = true ∧ FreshSourceAuthority Sample.played.1 :=
  ⟨rfl, freshSourceAuthority Sample.run⟩

end BridgeState

end PinOp.Bridge
