import Mathlib.Data.Finset.Card
import PinOp.Lib.Runs
import PinOp.Lib.OrderedMap
import PinOp.Protocol.Schema

/-!
# The rules sources of a panel

`RulesSourcesController` keeps, for the inspect a panel shows, where each of its rules comes from,
and sends a command to open one. Its listeners are told after every change and are left out. Where
a rule comes from is given beside the message, which has no field for it; a message that is not
valid is one that does not parse.
-/

namespace PinOp.Browser

open PinOp.Lib PinOp.Protocol

inductive RulesOriginState where
  | pending
  | ready
  | stale
  | incompatible
  deriving DecidableEq, Repr

inductive RulesLanguage where
  | css
  | scss
  deriving DecidableEq, Repr

inductive RulesSourceConfidence where
  | exact
  | sourcemap
  deriving DecidableEq, Repr

structure RuleOrigin where
  label : String
  languageId : RulesLanguage
  startLine : ℕ
  startColumn : ℕ
  confidence : RulesSourceConfidence
  deriving DecidableEq, Repr

structure StoredOrigin extends RuleOrigin where
  openAuthorityId : String
  deriving DecidableEq, Repr

structure InspectAuthority where
  inspectMessageId : String
  expectedRuleRefs : Finset String
  rulesGeneration : ℕ
  origins : OrderedMap String StoredOrigin
  deriving DecidableEq

structure RulesOpenDeclaration where
  property : String
  occurrence : ℕ
  deriving DecidableEq, Repr

structure PanelRulesOpenCommand where
  inspectMessageId : String
  rulesGeneration : ℕ
  openAuthorityId : String
  declaration : Option RulesOpenDeclaration
  deriving DecidableEq, Repr

inductive RulesSourcesInvalidationReason where
  | disconnect
  | stylesheetRefresh
  | pageRefresh
  | documentNavigation
  | frameNavigation
  | transportInvalidation
  deriving DecidableEq, Repr

structure RulesSourcesController where
  authority : Option InspectAuthority
  compatible : Bool
  state : RulesOriginState
  disposed : Bool
  deriving DecidableEq

/-! ## Checks -/

def maxPropertyNameLength : ℕ := 256

def maxDeclarationsPerRule : ℕ := 128

def isNameStart (c : Char) : Bool :=
  ('A' ≤ c ∧ c ≤ 'Z') ∨ ('a' ≤ c ∧ c ≤ 'z') ∨ c = '_'

def isNamePart (c : Char) : Bool := isNameStart c || ('0' ≤ c && c ≤ '9') || c = '-'

/-- `/^-{0,2}[A-Za-z_][A-Za-z0-9_-]*$/` -/
def isPropertyName (property : String) : Bool :=
  let rest := property.toList.dropWhile fun c => c = '-'
  property.toList.length ≤ rest.length + 2 &&
    match rest with
    | [] => false
    | c :: cs => isNameStart c && cs.all isNamePart

def parseRulesOpenDeclaration (declaration : RulesOpenDeclaration) :
    Option RulesOpenDeclaration :=
  if boundedText maxPropertyNameLength declaration.property ∧
      isPropertyName declaration.property ∧ declaration.occurrence < maxDeclarationsPerRule then
    some declaration
  else none

def maxSnapshotNodes : ℕ := 520

/-- The objects and arrays of a message: itself, its source, its metadata, the list of sources,
and each of these with its document. -/
def snapshotNodes (message : RulesSourcesMessage) : ℕ := 4 + 2 * message.sources.length

def parseRulesSourcesProtocolData (message : RulesSourcesMessage) : Option RulesSourcesMessage :=
  if snapshotNodes message ≤ maxSnapshotNodes ∧ message.sources.length ≤ Limits.rulesSources ∧
      message.valid then
    some message
  else none

/-- A valid message is never too large to be read. -/
theorem parseRulesSourcesProtocolData_valid {message : RulesSourcesMessage}
    (h : message.valid = true) : parseRulesSourcesProtocolData message = some message := by
  have hlen : message.sources.length ≤ Limits.rulesSources := by
    simp only [RulesSourcesMessage.valid, decide_eq_true_eq] at h
    exact h.2.2.2.2.1
  refine if_pos ⟨?_, hlen, h⟩
  simp only [Limits.rulesSources] at hlen
  simp only [snapshotNodes, maxSnapshotNodes]
  omega

def copyExpectedRefs (expectedRuleRefs : Finset String) : Option (Finset String) :=
  if expectedRuleRefs.card ≤ Limits.rulesSources ∧ ∀ ruleRef ∈ expectedRuleRefs, isOpaqueId ruleRef
  then some expectedRuleRefs
  else none

def coversExpectedRules (message : RulesSourcesMessage) (expectedRuleRefs : Finset String) : Bool :=
  message.sources.length + message.unresolvedRuleCount = expectedRuleRefs.card ∧
    ∀ source ∈ message.sources, source.ruleRef ∈ expectedRuleRefs

namespace RulesSourcesController

/-! ## Operations -/

def new : RulesSourcesController where
  authority := none
  compatible := true
  state := .pending
  disposed := false

variable (c : RulesSourcesController)

def beginInspect (inspectMessageId : String) (expectedRuleRefs : Finset String) :
    RulesSourcesController :=
  if c.disposed ∨ ¬c.compatible ∨ ¬isOpaqueId inspectMessageId then c
  else
    match copyExpectedRefs expectedRuleRefs with
    | none => c
    | some refs =>
      { c with
        authority := some
          { inspectMessageId, expectedRuleRefs := refs, rulesGeneration := 0, origins := ∅ }
        state := .pending }

/-- The first publication has generation 1, each later one a larger one. -/
def publicationStale (authority : InspectAuthority) (message : RulesSourcesMessage) : Bool :=
  if authority.rulesGeneration = 0 then message.rulesGeneration ≠ 1
  else message.rulesGeneration ≤ authority.rulesGeneration

def collectOrigins (originOf : String → RuleOrigin) (sources : List RulesSource) :
    OrderedMap String StoredOrigin :=
  sources.foldl (fun origins source => origins.set source.ruleRef
    { originOf source.ruleRef with openAuthorityId := source.openAuthorityId }) ∅

inductive Acceptance where
  | published
  | ignored
  deriving DecidableEq, Repr

def accept (message : RulesSourcesMessage) (originOf : String → RuleOrigin) :
    Acceptance × RulesSourcesController :=
  if c.disposed ∨ ¬c.compatible then (.ignored, c)
  else
    match c.authority, parseRulesSourcesProtocolData message with
    | some authority, some parsed =>
      if parsed.inspectMessageId ≠ authority.inspectMessageId ∨ publicationStale authority parsed ∨
          ¬coversExpectedRules parsed authority.expectedRuleRefs then
        (.ignored, c)
      else
        (.published, { c with
          authority := some { authority with
            rulesGeneration := parsed.rulesGeneration
            origins := collectOrigins originOf parsed.sources }
          state := .ready })
    | _, _ => (.ignored, c)

/-- `this.authority?.origins.get(ruleRef)` in a panel that is ready -/
def storedOrigin (ruleRef : String) : Option StoredOrigin :=
  if c.disposed ∨ c.state ≠ .ready then none
  else c.authority.bind fun authority => authority.origins.get? ruleRef

def originFor (ruleRef : String) : Option RuleOrigin :=
  (c.storedOrigin ruleRef).map StoredOrigin.toRuleOrigin

/-- The command that is dispatched. -/
def openRule (ruleRef : String) (declaration : Option RulesOpenDeclaration) :
    Option PanelRulesOpenCommand :=
  match c.authority, c.storedOrigin ruleRef with
  | some authority, some source =>
    some
      { inspectMessageId := authority.inspectMessageId
        rulesGeneration := authority.rulesGeneration
        openAuthorityId := source.openAuthorityId
        declaration := declaration.bind parseRulesOpenDeclaration }
  | _, _ => none

def invalidate (_reason : RulesSourcesInvalidationReason) : RulesSourcesController :=
  if c.disposed then c
  else { c with authority := none, state := if c.compatible then .stale else .incompatible }

def invalidatePublication (inspectMessageId : String) (rulesGeneration : ℤ) :
    RulesSourcesController :=
  match c.authority with
  | none => c
  | some authority =>
    if c.disposed ∨ c.state ≠ .ready ∨ ¬isOpaqueId inspectMessageId ∨ rulesGeneration ≤ 0 ∨
        Limits.generation < rulesGeneration ∨ authority.inspectMessageId ≠ inspectMessageId ∨
        (authority.rulesGeneration : ℤ) ≠ rulesGeneration then
      c
    else c.invalidate .transportInvalidation

def setCompatible (compatible : Bool) : RulesSourcesController :=
  if c.disposed ∨ c.compatible = compatible then c
  else { c with
    compatible := compatible
    authority := none
    state := if compatible then .pending else .incompatible }

def dispose : RulesSourcesController :=
  if c.disposed then c else { c with disposed := true, authority := none, state := .stale }

/-! ## Panels in use -/

inductive PanelEvent where
  | beginInspect (inspectMessageId : String) (expectedRuleRefs : Finset String)
  | accept (message : RulesSourcesMessage) (originOf : String → RuleOrigin)
  | openRule (ruleRef : String) (declaration : Option RulesOpenDeclaration)
  | invalidatePublication (inspectMessageId : String) (rulesGeneration : ℤ)
  | invalidate (reason : RulesSourcesInvalidationReason)
  | setCompatible (compatible : Bool)
  | dispose

def apply : PanelEvent → RulesSourcesController
  | .beginInspect inspectMessageId expectedRuleRefs =>
    c.beginInspect inspectMessageId expectedRuleRefs
  | .accept message originOf => (c.accept message originOf).2
  | .openRule _ _ => c
  | .invalidatePublication inspectMessageId rulesGeneration =>
    c.invalidatePublication inspectMessageId rulesGeneration
  | .invalidate reason => c.invalidate reason
  | .setCompatible compatible => c.setCompatible compatible
  | .dispose => c.dispose

def Step (c : RulesSourcesController) (e : PanelEvent) (c' : RulesSourcesController) : Prop :=
  c' = c.apply e

abbrev Trace := List (Transition RulesSourcesController PanelEvent)

variable {c} {c' : RulesSourcesController} {h : Trace}

/-- An authority has been published exactly in the state `ready`. -/
structure PanelInvariant (c : RulesSourcesController) : Prop where
  live : c.authority.isSome → c.disposed = false ∧ c.compatible = true
  ready : c.state = .ready ↔ ∃ authority, c.authority = some authority ∧
    0 < authority.rulesGeneration
  bounded : ∀ authority, c.authority = some authority →
    isOpaqueId authority.inspectMessageId = true ∧ authority.rulesGeneration ≤ Limits.generation

theorem accept_published {message : RulesSourcesMessage} {originOf : String → RuleOrigin}
    (h : c.accept message originOf = (.published, c')) :
    ∃ authority, c.authority = some authority ∧ c.disposed = false ∧ c.compatible = true ∧
      message.valid = true ∧ authority.inspectMessageId = message.inspectMessageId ∧
      publicationStale authority message = false ∧
      c' = { c with
        authority := some { authority with
          rulesGeneration := message.rulesGeneration
          origins := collectOrigins originOf message.sources }
        state := .ready } := by
  unfold accept at h
  split at h
  · cases h
  · rename_i hlive
    split at h
    · rename_i authority parsed ha hp
      split at h
      · cases h
      · rename_i hg
        unfold parseRulesSourcesProtocolData at hp
        split at hp
        · rename_i hv
          cases hp
          cases h
          simp only [ne_eq, not_or, not_not, Bool.not_eq_true] at hg hlive
          exact ⟨authority, ha, hlive.1, by simpa using hlive.2, hv.2.2, hg.1.symm, hg.2.1, rfl⟩
        · cases hp
    · cases h

theorem accept_ignored {message : RulesSourcesMessage} {originOf : String → RuleOrigin}
    (h : c.accept message originOf = (.ignored, c')) : c' = c := by
  unfold accept at h
  split at h
  · cases h
    rfl
  · split at h
    · split at h
      · cases h
        rfl
      · cases h
    · cases h
      rfl

/-- A generation that is not stale is positive. -/
theorem publicationStale_pos {authority : InspectAuthority} {message : RulesSourcesMessage}
    (h : publicationStale authority message = false) : 0 < message.rulesGeneration := by
  unfold publicationStale at h
  split at h
  · simp only [decide_eq_false_iff_not, not_not] at h
    omega
  · simp only [decide_eq_false_iff_not, not_le] at h
    omega

namespace PanelInvariant

theorem new : PanelInvariant new := by
  refine ⟨?_, ⟨?_, ?_⟩, ?_⟩
  · intro h
    cases h
  · intro h
    cases h
  · rintro ⟨authority, h, -⟩
    cases h
  · intro authority h
    cases h

/-- A panel without authority that is not ready. -/
theorem of_none (ha : c.authority = none) (hs : c.state ≠ .ready) : PanelInvariant c := by
  refine ⟨fun h => ?_, ⟨fun h => absurd h hs, ?_⟩, fun authority h => ?_⟩
  · rw [ha] at h
    cases h
  · rintro ⟨authority, h, -⟩
    rw [ha] at h
    cases h
  · rw [ha] at h
    cases h

theorem invalidate (inv : PanelInvariant c) (reason : RulesSourcesInvalidationReason) :
    PanelInvariant (c.invalidate reason) := by
  unfold RulesSourcesController.invalidate
  split
  · exact inv
  · refine of_none rfl ?_
    dsimp only
    split
    · simp
    · simp

theorem apply (inv : PanelInvariant c) (e : PanelEvent) : PanelInvariant (c.apply e) := by
  cases e with
  | beginInspect id refs =>
    simp only [RulesSourcesController.apply, beginInspect]
    split
    · exact inv
    · rename_i hg
      simp only [not_or, Bool.not_eq_true, Bool.not_eq_false] at hg
      split
      · exact inv
      · refine ⟨fun _ => ⟨hg.1, hg.2.1⟩, ⟨?_, ?_⟩, fun authority h => ?_⟩
        · intro h
          cases h
        · rintro ⟨authority, h, hpos⟩
          cases h
          cases hpos
        · cases h
          exact ⟨hg.2.2, Nat.zero_le _⟩
  | accept message originOf =>
    simp only [RulesSourcesController.apply]
    rcases h : c.accept message originOf with ⟨_ | _, c'⟩
    · obtain ⟨authority, ha, hd, hc, hv, -, hs, rfl⟩ := accept_published h
      refine ⟨fun _ => ⟨hd, hc⟩, ⟨fun _ => ⟨_, rfl, publicationStale_pos hs⟩, fun _ => rfl⟩, ?_⟩
      intro authority' h'
      cases h'
      simp only [RulesSourcesMessage.valid, decide_eq_true_eq] at hv
      exact ⟨(inv.bounded authority ha).1, hv.2.2.2.1⟩
    · rw [accept_ignored h]
      exact inv
  | openRule ruleRef declaration => exact inv
  | invalidatePublication id generation =>
    simp only [RulesSourcesController.apply, invalidatePublication]
    split
    · exact inv
    · split
      · exact inv
      · exact inv.invalidate _
  | invalidate reason => exact inv.invalidate reason
  | setCompatible compatible =>
    simp only [RulesSourcesController.apply, setCompatible]
    split
    · exact inv
    · refine of_none rfl ?_
      dsimp only
      split
      · simp
      · simp
  | dispose =>
    simp only [RulesSourcesController.apply, dispose]
    split
    · exact inv
    · exact of_none rfl (by simp)

theorem of_run (run : Run Step RulesSourcesController.new h c) : PanelInvariant c :=
  run.invariant new fun s e s' inv hs => (show s' = s.apply e from hs) ▸ inv.apply e

end PanelInvariant

/-! ## After an invalidation -/

/-- The event takes back what was published; `invalidatePublication` must name it. -/
def Invalidates (c : RulesSourcesController) : PanelEvent → Prop
  | .invalidate _ => True
  | .setCompatible compatible => compatible = false
  | .invalidatePublication inspectMessageId rulesGeneration =>
    ∃ authority, c.authority = some authority ∧ authority.inspectMessageId = inspectMessageId ∧
      (authority.rulesGeneration : ℤ) = rulesGeneration ∧ 0 < rulesGeneration
  | _ => False

def Begins : PanelEvent → Prop
  | .beginInspect _ _ => True
  | _ => False

def Publishes (t : Transition RulesSourcesController PanelEvent) : Prop :=
  ∃ message originOf, t.event = .accept message originOf ∧
    (t.pre.accept message originOf).1 = .published

/-- The transition dispatches a command. -/
def Dispatches (t : Transition RulesSourcesController PanelEvent) : Prop :=
  ∃ ruleRef declaration command, t.event = .openRule ruleRef declaration ∧
    t.pre.openRule ruleRef declaration = some command

/-- An inspect was begun, and rules were published after that. -/
def Revived (h : Trace) : Prop :=
  ∃ h₂ published h₁, h = h₂ ++ published :: h₁ ∧ Publishes published ∧
    ∃ begun ∈ h₁, Begins begun.event

/-- The panel has forgotten what was published. -/
def Silent (c : RulesSourcesController) : Prop := c.authority = none ∧ c.state ≠ .ready

theorem silent_invalidate (inv : PanelInvariant c) (reason : RulesSourcesInvalidationReason) :
    Silent (c.invalidate reason) := by
  unfold RulesSourcesController.invalidate
  split
  · rename_i hd
    have hnone : c.authority = none := by
      by_contra hne
      rw [(inv.live (Option.isSome_iff_ne_none.mpr hne)).1] at hd
      cases hd
    refine ⟨hnone, fun hr => ?_⟩
    obtain ⟨authority, ha, -⟩ := inv.ready.mp hr
    rw [hnone] at ha
    cases ha
  · refine ⟨rfl, ?_⟩
    dsimp only
    split
    · simp
    · simp

theorem silent_of_invalidates (inv : PanelInvariant c) {e : PanelEvent} (h : Invalidates c e) :
    Silent (c.apply e) := by
  cases e with
  | invalidate reason => exact silent_invalidate inv reason
  | setCompatible compatible =>
    have hfalse : compatible = false := h
    simp only [RulesSourcesController.apply, setCompatible, hfalse]
    split
    · rename_i hc
      have hnone : c.authority = none := by
        by_contra hne
        obtain ⟨hd, hcompatible⟩ := inv.live (Option.isSome_iff_ne_none.mpr hne)
        simp [hd, hcompatible] at hc
      refine ⟨hnone, fun hr => ?_⟩
      obtain ⟨authority, ha, -⟩ := inv.ready.mp hr
      rw [hnone] at ha
      cases ha
    · exact ⟨rfl, by simp⟩
  | invalidatePublication id generation =>
    obtain ⟨authority, ha, hid, hgen, hpos⟩ := h
    obtain ⟨hvalidId, hbound⟩ := inv.bounded authority ha
    have hready : c.state = .ready := inv.ready.mpr ⟨authority, ha, by omega⟩
    have hd := (inv.live (by rw [ha]; rfl)).1
    simp only [RulesSourcesController.apply, invalidatePublication, ha]
    rw [if_neg]
    · exact silent_invalidate inv _
    · simp only [hd, hready, ← hid, hvalidId]
      simp
      omega
  | beginInspect => exact h.elim
  | accept => exact h.elim
  | openRule => exact h.elim
  | dispose => exact h.elim

theorem openRule_ready {ruleRef : String} {declaration : Option RulesOpenDeclaration}
    {command : PanelRulesOpenCommand} (h : c.openRule ruleRef declaration = some command) :
    ∃ authority source, c.authority = some authority ∧ c.state = .ready ∧
      authority.origins.get? ruleRef = some source ∧
      command = ⟨authority.inspectMessageId, authority.rulesGeneration, source.openAuthorityId,
        declaration.bind parseRulesOpenDeclaration⟩ := by
  unfold openRule at h
  split at h
  · rename_i authority source ha hs
    cases h
    unfold storedOrigin at hs
    split at hs
    · cases hs
    · rename_i hg
      simp only [not_or, not_not] at hg
      rw [ha, Option.bind_some] at hs
      exact ⟨authority, source, ha, hg.2, hs, rfl⟩
  · cases h

theorem apply_authority {e : PanelEvent} (h : (c.apply e).authority ≠ none) :
    c.authority ≠ none ∨ Begins e := by
  cases e with
  | beginInspect => exact .inr trivial
  | openRule => exact .inl h
  | accept message originOf =>
    simp only [RulesSourcesController.apply] at h
    rcases ha : c.accept message originOf with ⟨_ | _, c'⟩
    · obtain ⟨authority, hauthority, -⟩ := accept_published ha
      exact .inl (by rw [hauthority]; simp)
    · rw [ha, accept_ignored ha] at h
      exact .inl h
  | invalidatePublication id generation =>
    refine .inl fun hnone => h ?_
    simp only [RulesSourcesController.apply, invalidatePublication, hnone]
  | invalidate reason =>
    refine .inl fun hnone => h ?_
    simp only [RulesSourcesController.apply, RulesSourcesController.invalidate]
    split
    · exact hnone
    · rfl
  | setCompatible compatible =>
    refine .inl fun hnone => h ?_
    simp only [RulesSourcesController.apply, setCompatible]
    split
    · exact hnone
    · rfl
  | dispose =>
    refine .inl fun hnone => h ?_
    simp only [RulesSourcesController.apply, dispose]
    split
    · exact hnone
    · rfl

/-- A panel that is ready was so, or rules have been published for its inspect. -/
theorem apply_ready {e : PanelEvent} (h : (c.apply e).state = .ready) :
    c.state = .ready ∨ c.authority ≠ none ∧ Publishes ⟨c, e, c.apply e⟩ := by
  have hinvalidate (reason : RulesSourcesInvalidationReason)
      (h : (c.invalidate reason).state = .ready) : c.state = .ready := by
    unfold RulesSourcesController.invalidate at h
    split at h
    · exact h
    · dsimp only at h
      split at h
      · cases h
      · cases h
  cases e with
  | beginInspect id refs =>
    simp only [RulesSourcesController.apply, beginInspect] at h
    split at h
    · exact .inl h
    · split at h
      · exact .inl h
      · cases h
  | openRule => exact .inl h
  | accept message originOf =>
    simp only [RulesSourcesController.apply] at h
    rcases ha : c.accept message originOf with ⟨_ | _, c'⟩
    · obtain ⟨authority, hauthority, -⟩ := accept_published ha
      exact .inr ⟨by rw [hauthority]; simp, message, originOf, rfl, by rw [ha]⟩
    · rw [ha, accept_ignored ha] at h
      exact .inl h
  | invalidatePublication id generation =>
    simp only [RulesSourcesController.apply, invalidatePublication] at h
    split at h
    · exact .inl h
    · split at h
      · exact .inl h
      · exact .inl (hinvalidate _ h)
  | invalidate reason => exact .inl (hinvalidate reason h)
  | setCompatible compatible =>
    simp only [RulesSourcesController.apply, setCompatible] at h
    split at h
    · exact .inl h
    · dsimp only at h
      split at h
      · cases h
      · cases h
  | dispose =>
    simp only [RulesSourcesController.apply, dispose] at h
    split at h
    · exact .inl h
    · cases h

/-- From a silent panel on, an authority is there only after an inspect was begun, and the panel
is ready only when it has been revived. -/
theorem revived_of_run {c₀ : RulesSourcesController} (hs : Silent c₀) (run : Run Step c₀ h c) :
    (c.authority ≠ none → ∃ begun ∈ h, Begins begun.event) ∧ (c.state = .ready → Revived h) := by
  refine run.invariant_history (P := fun h c =>
    (c.authority ≠ none → ∃ begun ∈ h, Begins begun.event) ∧ (c.state = .ready → Revived h))
    ⟨fun h => absurd hs.1 h, fun h => absurd h hs.2⟩ ?_
  rintro h c e _ run ⟨hbegun, hready⟩ rfl
  constructor
  · intro hne
    rcases apply_authority hne with hne | hb
    · obtain ⟨begun, hm, hb⟩ := hbegun hne
      exact ⟨begun, List.mem_cons_of_mem _ hm, hb⟩
    · exact ⟨_, List.mem_cons_self, hb⟩
  · intro hr
    rcases apply_ready hr with hr | ⟨hne, hp⟩
    · obtain ⟨h₂, published, h₁, rfl, hp, hb⟩ := hready hr
      exact ⟨_ :: h₂, published, h₁, rfl, hp, hb⟩
    · exact ⟨[], _, h, rfl, hp, hbegun hne⟩

/-- After an invalidation the panel dispatches nothing until it has been revived. -/
theorem silent_after {h₁ h₂ h₃ : Trace} {t u : Transition RulesSourcesController PanelEvent}
    (run : Run Step new (h₃ ++ u :: (h₂ ++ t :: h₁)) c) (ht : Invalidates t.pre t.event)
    (hu : Dispatches u) : Revived h₂ := by
  obtain ⟨hrun, -, -⟩ := run.split
  obtain ⟨hpre, hstep, hpost⟩ := hrun.split
  have hsilent : Silent t.post := by
    rw [show t.post = t.pre.apply t.event from hstep]
    exact silent_of_invalidates (.of_run hpre) ht
  obtain ⟨ruleRef, declaration, command, -, hc⟩ := hu
  obtain ⟨-, -, -, hready, -⟩ := openRule_ready hc
  exact (revived_of_run hsilent hpost).2 hready

end RulesSourcesController

end PinOp.Browser
