import PinOp.Inspect.MatchedStylesProjection
import PinOp.Lib.OrderedMap

/-!
# What the panel sends about a selection

`createInspectPayload` collects the selected element and its parent, projects the matched styles in
several passes over one budget, and merges the evidence of all passes. Of the snapshot of an element
only its attributes draw on the budget; the rest of it is left out.
-/

namespace PinOp.Inspect

open PinOp.Lib

/-! ## Snapshots -/

structure InspectableElement where
  /-- names and values -/
  attributes : List (List ℕ × List ℕ)

structure DomAttribute where
  name : List ℕ
  value : List ℕ
  deriving DecidableEq

def DomAttribute.toJson (attr : DomAttribute) : Json :=
  .object [(units "name", .string attr.name), (units "value", .string attr.value),
    (units "metadata", .object [])]

namespace Limits

def subjectAttributes : ℕ := 64
def attributeNameLength : ℕ := 256
def routeLength : ℕ := 8192
def runtimeAttributeScan : ℕ := 4096

end Limits

def isSafeAttribute (host : UrlHost) (name : List ℕ) : Bool :=
  let normalized := host.toLowerCase name
  normalized = units "role" || (units "data-").isPrefixOf normalized ||
    (units "aria-").isPrefixOf normalized

/-- The loop over the attributes; `count` is how many of the author's it has met. -/
def snapshotAttributes (host : UrlHost) (isRuntimeAttributeName : List ℕ → Bool) :
    List (List ℕ × List ℕ) → ℕ → ℕ → List DomAttribute × ℕ
  | [], _, budget => ([], budget)
  | (name, value) :: rest, count, budget =>
    if isRuntimeAttributeName name then
      snapshotAttributes host isRuntimeAttributeName rest count budget
    else if Limits.subjectAttributes < count + 1 then ([], budget)
    else if isSafeAttribute host name then
      let attr : DomAttribute :=
        ⟨(host.toLowerCase name).take Limits.attributeNameLength, value.take Limits.valueLength⟩
      match consumeJsonBudget budget attr.toJson with
      | (false, budget) => ([], budget)
      | (true, budget) =>
        let (attributes, budget) :=
          snapshotAttributes host isRuntimeAttributeName rest (count + 1) budget
        (attr :: attributes, budget)
    else snapshotAttributes host isRuntimeAttributeName rest (count + 1) budget

def createElementSnapshot (host : UrlHost) (isRuntimeAttributeName : List ℕ → Bool)
    (element : InspectableElement) (budget : ℕ) : List DomAttribute × ℕ :=
  snapshotAttributes host isRuntimeAttributeName
    (element.attributes.take (Limits.subjectAttributes + Limits.runtimeAttributeScan)) 0 budget

/-! ## Targets -/

inductive TargetRole where
  | selected
  | parent
  deriving DecidableEq

structure CollectedTarget where
  role : TargetRole
  attributes : List DomAttribute
  facts : List CssRuleFact
  ruleEvidence : InspectRuleEvidenceBatch

structure InspectTarget where
  role : TargetRole
  attributes : List DomAttribute
  facts : List CssRuleFact
  deriving DecidableEq

structure InspectContext where
  url : List ℕ
  route : List ℕ
  inaccessibleStylesheetCount : ℕ
  deriving DecidableEq

structure InspectPayload where
  targets : List InspectTarget
  ruleEvidence : InspectRuleEvidenceBatch
  context : InspectContext
  deriving DecidableEq

structure LocationSource where
  href : List ℕ
  pathname : List ℕ
  search : List ℕ
  hash : List ℕ

structure InspectPayloadOptions where
  isRuntimeAttributeName : List ℕ → Bool
  /-- whether `containsRuntimeMarker` finds a marker in the payload -/
  containsRuntimeMarker : InspectPayload → Bool

def ProjectionState.batch (s : ProjectionState) : InspectRuleEvidenceBatch :=
  ⟨s.evidenceRules, s.omittedRuleCount⟩

/-- `rows` are the options of the projection; there is none when the parent has no place among the
composed ancestors. -/
def collectTarget (host : UrlHost) (matchedStyles : MatchedStyles) (options : InspectPayloadOptions)
    (role : TargetRole) (element : InspectableElement)
    (rows : Option MatchedStylesProjectionOptions) (budget : ℕ) : CollectedTarget × ℕ :=
  let (attributes, budget) :=
    createElementSnapshot host options.isRuntimeAttributeName element budget
  match rows with
  | none => (⟨role, attributes, [], ⟨[], 0⟩⟩, budget)
  | some rows =>
    let collection := projectMatchedStylesToCssFacts host matchedStyles budget rows
    (⟨role, attributes, collection.facts, collection.batch⟩, collection.remainingBytes)

def projectInherited (host : UrlHost) (matchedStyles : MatchedStyles) (pageUrl : List ℕ) :
    List InheritedMatchedRules → ℕ → List InspectRuleEvidenceBatch
  | [], _ => []
  | group :: rest, budget =>
    let projection := projectMatchedStylesToCssFacts host matchedStyles budget
      ⟨some group.ancestorIndex, pageUrl, true⟩
    projection.batch :: projectInherited host matchedStyles pageUrl rest projection.remainingBytes

/-! ## Merging -/

structure MergeState where
  rules : List InspectRuleEvidence
  byRef : OrderedMap (List ℕ) InspectRuleEvidence
  omittedRuleCount : ℕ

def mergeOne (s : MergeState) (evidence : InspectRuleEvidence) : MergeState :=
  match s.byRef.get? evidence.ruleRef with
  | some existing =>
    if existing.toJson.stringify ≠ evidence.toJson.stringify then
      { s with omittedRuleCount := s.omittedRuleCount + 1 }
    else s
  | none =>
    if Limits.rules ≤ s.rules.length then { s with omittedRuleCount := s.omittedRuleCount + 1 }
    else
      { s with
        rules := s.rules ++ [evidence]
        byRef := s.byRef.set evidence.ruleRef evidence }

def mergeRuleEvidence (batches : List InspectRuleEvidenceBatch) : InspectRuleEvidenceBatch :=
  let merged := (batches.flatMap InspectRuleEvidenceBatch.rules).foldl mergeOne
    ⟨[], ∅, (batches.map InspectRuleEvidenceBatch.omittedRuleCount).sum⟩
  ⟨merged.rules, merged.omittedRuleCount⟩

/-- `new Map(…)` -/
def evidenceByRef (rules : List InspectRuleEvidence) : OrderedMap (List ℕ) InspectRuleEvidence :=
  rules.foldl (fun byRef evidence => byRef.set evidence.ruleRef evidence) ∅

def keepsFact (byRef : OrderedMap (List ℕ) InspectRuleEvidence) (fact : CssRuleFact) : Bool :=
  (byRef.get? fact.ruleRef).any fun evidence => evidence.declarations.any (· = fact.declaration)

/-! ## The payload -/

/-- `joinBounded` -/
def joinBounded : List (List ℕ) → ℕ → List ℕ
  | [], _ => []
  | value :: rest, limit => value.take limit ++ joinBounded rest (limit - value.length)

/-- The groups that no target shows. -/
def displayedInherited (matchedStyles : MatchedStyles) (parent : Option InspectableElement) :
    List InheritedMatchedRules :=
  matchedStyles.inherited.filter fun group =>
    parent.isNone || some group.ancestorIndex ≠ matchedStyles.domParentAncestorIndex

/-- What the targets are collected with; the budget is what is left behind them. -/
def collectTargets (host : UrlHost) (matchedStyles : MatchedStyles) (options : InspectPayloadOptions)
    (pageUrl : List ℕ) (element : InspectableElement) (parent : Option InspectableElement)
    (budget : ℕ) : List CollectedTarget × ℕ :=
  let (selected, budget) := collectTarget host matchedStyles options .selected element
    (some ⟨none, pageUrl, false⟩) budget
  match parent with
  | none => ([selected], budget)
  | some parent =>
    let (parent, budget) := collectTarget host matchedStyles options .parent parent
      (matchedStyles.domParentAncestorIndex.map fun index => ⟨some index, pageUrl, false⟩) budget
    ([selected, parent], budget)

/-- The payload that `createInspectPayload` builds with the bytes of its budget. -/
def inspectPayload (host : UrlHost) (matchedStyles : MatchedStyles)
    (options : InspectPayloadOptions) (location : LocationSource) (element : InspectableElement)
    (parent : Option InspectableElement) (budget : ℕ) : InspectPayload :=
  let pageUrl := boundedPageUrl host location.href
  let (collected, budget) :=
    collectTargets host matchedStyles options pageUrl element parent budget
  let ruleEvidence := mergeRuleEvidence (collected.map CollectedTarget.ruleEvidence ++
    projectInherited host matchedStyles pageUrl (displayedInherited matchedStyles parent) budget)
  let byRef := evidenceByRef ruleEvidence.rules
  ⟨collected.map fun target =>
      ⟨target.role, target.attributes, target.facts.filter (keepsFact byRef)⟩,
    ruleEvidence,
    ⟨pageUrl, joinBounded [location.pathname, location.search, location.hash] Limits.routeLength,
      matchedStyles.inaccessibleStylesheetCount⟩⟩

def createInspectPayloadWithin (host : UrlHost) (matchedStyles : MatchedStyles)
    (options : InspectPayloadOptions) (location : LocationSource) (element : InspectableElement)
    (parent : Option InspectableElement) (budget : ℕ) : Except String InspectPayload :=
  let payload := inspectPayload host matchedStyles options location element parent budget
  if options.containsRuntimeMarker payload then .error "Inspect payload contains a runtime marker"
  else .ok payload

/-- `INSPECT_COLLECTION_MAX_BYTES` -/
def inspectCollectionMaxBytes : ℕ := 768 * 1024 - 256 * 1024

def createInspectPayload (host : UrlHost) (matchedStyles : MatchedStyles)
    (options : InspectPayloadOptions) (location : LocationSource) (element : InspectableElement)
    (parent : Option InspectableElement) : Except String InspectPayload :=
  createInspectPayloadWithin host matchedStyles options location element parent
    inspectCollectionMaxBytes

end PinOp.Inspect
