import Mathlib.Data.Finset.Card
import PinOp.Lib.JsNumber
import PinOp.Lib.NestedMap
import PinOp.Protocol.Messages

/-!
# The reply route registry

`ReplyRouteRegistry` remembers, for every inspect a browser published, where its
replies go and which IDE owns it. A stored route is a mutable object that the source
compares by identity, so it carries an `objectId` here; a set of strings is a
`Finset`. The three maps are redundant: `routesByClient` and `routesByIde` index
`routes` by origin and by owning IDE.

The two-phase operations return a handle. Its closure is the data it captures, and
committing it is a function of the registry at that time.
-/

namespace PinOp.Bridge

open PinOp.Lib PinOp.Protocol

structure StoredReplyRoute where
  objectId : ℕ
  originConnectionId : String
  expectedRuleRefs : Finset String
  ideConnectionId : Option String
  resolutionGeneration : Option JsNumber
  resolutionClaimed : Bool
  excerptMatchIds : Finset String
  rulesGeneration : Option JsNumber
  ruleOpenAuthorityIds : Finset String
  deriving DecidableEq

namespace StoredReplyRoute

/-- The route after an IDE claimed it with a generation: its matches are gone. -/
def claim (route : StoredReplyRoute) (ideConnectionId : String) (resolutionGeneration : JsNumber)
    (resolutionClaimed : Bool) : StoredReplyRoute :=
  { route with
    ideConnectionId := some ideConnectionId
    resolutionGeneration := some resolutionGeneration
    excerptMatchIds := ∅
    resolutionClaimed := resolutionClaimed }

def withMatchIds (route : StoredReplyRoute) (matchIds : Finset String) : StoredReplyRoute :=
  { route with excerptMatchIds := matchIds }

/-- The route after an IDE published rule sources. -/
def publish (route : StoredReplyRoute) (ideConnectionId : String) (rulesGeneration : JsNumber)
    (authorityIds : Finset String) : StoredReplyRoute :=
  { route with
    ideConnectionId := some ideConnectionId
    rulesGeneration := some rulesGeneration
    ruleOpenAuthorityIds := authorityIds }

/-- `this.ideConnectionId` is set, and to another connection. -/
def ownedByOther (route : StoredReplyRoute) (ideConnectionId : String) : Bool :=
  route.ideConnectionId.any fun owner => owner ≠ ideConnectionId

theorem ownedByOther_eq_false {route : StoredReplyRoute} {i : String} :
    route.ownedByOther i = false ↔
      route.ideConnectionId = none ∨ route.ideConnectionId = some i := by
  unfold ownedByOther
  cases route.ideConnectionId <;> simp

theorem owner_eq {route : StoredReplyRoute} {i j : String} (hown : route.ownedByOther i = false)
    (hj : route.ideConnectionId = some j) : j = i := by
  rcases ownedByOther_eq_false.1 hown with hn | hi
  · rw [hj] at hn; cases hn
  · rw [hj] at hi; exact Option.some.inj hi

end StoredReplyRoute

/-- What the registry tells its callers about a route. -/
structure ReplyRoute where
  sessionId : String
  inspectMessageId : String
  originConnectionId : String
  expectedRuleRefs : Finset String
  ideConnectionId : Option String
  resolutionGeneration : Option JsNumber
  resolutionClaimed : Bool
  matchIds : Finset String
  rulesGeneration : Option JsNumber
  ruleOpenAuthorityIds : Finset String
  deriving DecidableEq

/-- The limit is the one its constructor checked; `nextObjectId` is the identity the next
stored route gets. -/
structure ReplyRouteRegistry where
  maxRoutesPerClient : ℕ+
  routes : NestedMap String String StoredReplyRoute
  routesByClient : NestedMap String RouteKey Unit
  routesByIde : NestedMap String RouteKey Unit
  revision : ℕ
  nextObjectId : ℕ
  deriving DecidableEq

def ReplyRouteRegistry.empty (maxRoutesPerClient : ℕ+) : ReplyRouteRegistry where
  maxRoutesPerClient := maxRoutesPerClient
  routes := ∅
  routesByClient := ∅
  routesByIde := ∅
  revision := 0
  nextObjectId := 0

/-- The constructor: the limit is 256 unless the options give one. -/
def ReplyRouteRegistry.new (maxRoutesPerClient : Option JsNumber) :
    Except String ReplyRouteRegistry :=
  match (maxRoutesPerClient.getD (256 : ℕ)).positiveInteger? with
  | none => .error "Reply route limit must be a positive integer"
  | some limit => .ok (.empty limit)

inductive ReplyRouteRegistrationStatus where
  | created
  | refreshed
  | collision
  deriving DecidableEq, Repr

/-- What the closure of a registration captured when it was created. -/
inductive RegistrationApply where
  | settled
  | refresh (connectionId : String) (key : RouteKey) (currentRoute : ℕ)
  | create (connectionId : String) (key : RouteKey) (proposedExpectedRuleRefs : Finset String)
      (evictedRouteKey : Option RouteKey)
  deriving DecidableEq

structure ReplyRouteRegistration where
  status : ReplyRouteRegistrationStatus
  expectedRevision : ℕ
  settled : Bool
  apply : RegistrationApply
  deriving DecidableEq

/-- What the closure of a rules publication captured when it was prepared. -/
structure RulesSourcesPreparation where
  key : RouteKey
  ideConnectionId : String
  rulesGeneration : JsNumber
  proposedAuthorityIds : Finset String
  expectedRevision : ℕ
  route : ℕ
  expectedRulesGeneration : Option JsNumber
  settled : Bool
  deriving DecidableEq

def inconsistentIndex : String := "Reply route index is inconsistent"

def setsEqual (left right : Finset String) : Bool :=
  left.card = right.card && decide (∀ value ∈ left, value ∈ right)

theorem setsEqual_iff {left right : Finset String} : setsEqual left right = true ↔ left = right := by
  unfold setsEqual
  simp only [Bool.and_eq_true, decide_eq_true_eq]
  constructor
  · rintro ⟨hc, hs⟩
    exact Finset.eq_of_subset_of_card_le hs (by omega)
  · rintro rfl
    exact ⟨rfl, fun _ h => h⟩

def snapshot (key : RouteKey) (route : StoredReplyRoute) : ReplyRoute where
  sessionId := key.sessionId
  inspectMessageId := key.inspectMessageId
  originConnectionId := route.originConnectionId
  expectedRuleRefs := route.expectedRuleRefs
  ideConnectionId := route.ideConnectionId
  resolutionGeneration := route.resolutionGeneration
  resolutionClaimed := route.resolutionClaimed
  matchIds := route.excerptMatchIds
  rulesGeneration := route.rulesGeneration
  ruleOpenAuthorityIds := route.ruleOpenAuthorityIds

namespace ReplyRouteRegistry

/-- `this.routes.get(sessionId)?.get(inspectMessageId)` -/
def stored (reg : ReplyRouteRegistry) (key : RouteKey) : Option StoredReplyRoute :=
  reg.routes.get2? key.sessionId key.inspectMessageId

/-- Write through the stored object, or insert it. -/
def store (reg : ReplyRouteRegistry) (key : RouteKey) (route : StoredReplyRoute) :
    ReplyRouteRegistry :=
  { reg with routes := reg.routes.set2 key.sessionId key.inspectMessageId route }

def markMutated (reg : ReplyRouteRegistry) : ReplyRouteRegistry :=
  { reg with revision := reg.revision + 1 }

def touchClientRoute (reg : ReplyRouteRegistry) (connectionId : String) (key : RouteKey) :
    ReplyRouteRegistry :=
  markMutated { reg with routesByClient := reg.routesByClient.touch2 connectionId key () }

/-- `this.getIdeRoutes(ideConnectionId).add(key)` -/
def addIdeRoute (reg : ReplyRouteRegistry) (ideConnectionId : String) (key : RouteKey) :
    ReplyRouteRegistry :=
  { reg with routesByIde := reg.routesByIde.set2 ideConnectionId key () }

/-- `this.getClientRoutes(connectionId).set(key, undefined)` -/
def addClientRoute (reg : ReplyRouteRegistry) (connectionId : String) (key : RouteKey) :
    ReplyRouteRegistry :=
  { reg with routesByClient := reg.routesByClient.set2 connectionId key () }

/-- Drop a stored route and its index entries. -/
def unlink (reg : ReplyRouteRegistry) (key : RouteKey) (storedRoute : StoredReplyRoute) :
    ReplyRouteRegistry :=
  { reg with
    routes := reg.routes.delete2 key.sessionId key.inspectMessageId
    routesByClient := reg.routesByClient.delete2 storedRoute.originConnectionId key
    routesByIde := match storedRoute.ideConnectionId with
      | some ideConnectionId => reg.routesByIde.delete2 ideConnectionId key
      | none => reg.routesByIde }

def routeFromKey (reg : ReplyRouteRegistry) (key : RouteKey) : Except String StoredReplyRoute :=
  match reg.stored key with
  | none => .error inconsistentIndex
  | some storedRoute => .ok storedRoute

def removeByKey (reg : ReplyRouteRegistry) (key : RouteKey) :
    Except String ReplyRouteRegistry := do
  let storedRoute ← reg.routeFromKey key
  return (reg.unlink key storedRoute).markMutated

/-! ## Registration -/

def createSettledRegistration (reg : ReplyRouteRegistry) : ReplyRouteRegistration :=
  { status := .collision, expectedRevision := reg.revision, settled := true, apply := .settled }

def createDeferredRegistration (reg : ReplyRouteRegistry) (status : ReplyRouteRegistrationStatus)
    (apply : RegistrationApply) : ReplyRouteRegistration :=
  { status, expectedRevision := reg.revision, settled := false, apply }

def register (reg : ReplyRouteRegistry) (key : RouteKey) (connectionId : String)
    (expectedRuleRefs : List String) : ReplyRouteRegistration :=
  let proposedExpectedRuleRefs := expectedRuleRefs.toFinset
  match reg.stored key with
  | some currentRoute =>
    if currentRoute.originConnectionId ≠ connectionId ∨
        ¬ setsEqual currentRoute.expectedRuleRefs proposedExpectedRuleRefs then
      reg.createSettledRegistration
    else
      reg.createDeferredRegistration .refreshed (.refresh connectionId key currentRoute.objectId)
  | none =>
    let clientRoutes := reg.routesByClient.inner connectionId
    let evictedRouteKey :=
      if reg.maxRoutesPerClient ≤ clientRoutes.size then clientRoutes.firstKey? else none
    reg.createDeferredRegistration .created
      (.create connectionId key proposedExpectedRuleRefs evictedRouteKey)

/-- A fresh route object, as a committed registration stores it. -/
def createdRoute (objectId : ℕ) (connectionId : String)
    (proposedExpectedRuleRefs : Finset String) : StoredReplyRoute where
  objectId := objectId
  originConnectionId := connectionId
  expectedRuleRefs := proposedExpectedRuleRefs
  ideConnectionId := none
  resolutionGeneration := none
  resolutionClaimed := false
  excerptMatchIds := ∅
  rulesGeneration := none
  ruleOpenAuthorityIds := ∅

/-- Store a fresh route and index it by its origin. -/
def create (reg : ReplyRouteRegistry) (connectionId : String) (key : RouteKey)
    (proposedExpectedRuleRefs : Finset String) : ReplyRouteRegistry :=
  let reg := reg.store key (createdRoute reg.nextObjectId connectionId proposedExpectedRuleRefs)
  { (reg.addClientRoute connectionId key).markMutated with nextObjectId := reg.nextObjectId + 1 }

/-- `if (evictedRouteKey !== undefined) this.removeByKey(evictedRouteKey)` -/
def evict (reg : ReplyRouteRegistry) : Option RouteKey → Except String ReplyRouteRegistry
  | none => .ok reg
  | some evictedRouteKey => reg.removeByKey evictedRouteKey

/-- The body of a registration's closure. -/
def applyRegistration (reg : ReplyRouteRegistry) :
    RegistrationApply → Except String (Bool × ReplyRouteRegistry)
  | .settled => .ok (false, reg)
  | .refresh connectionId key currentRoute =>
    if (reg.stored key).map StoredReplyRoute.objectId ≠ some currentRoute then
      .ok (false, reg)
    else
      .ok (true, reg.touchClientRoute connectionId key)
  | .create connectionId key proposedExpectedRuleRefs evictedRouteKey =>
    if (reg.stored key).isSome then
      .ok (false, reg)
    else do
      let reg ← reg.evict evictedRouteKey
      return (true, reg.create connectionId key proposedExpectedRuleRefs)

def commitRegistration (reg : ReplyRouteRegistry) (registration : ReplyRouteRegistration) :
    Except String (Bool × ReplyRouteRegistry) :=
  if registration.settled then .ok (false, reg)
  else if reg.revision ≠ registration.expectedRevision then .ok (false, reg)
  else reg.applyRegistration registration.apply

end ReplyRouteRegistry

/-- The handle after `commit` or `rollback`. -/
def ReplyRouteRegistration.settle (registration : ReplyRouteRegistration) :
    ReplyRouteRegistration :=
  { registration with settled := true }

namespace ReplyRouteRegistry

/-! ## Lookup and ownership -/

def peek (reg : ReplyRouteRegistry) (key : RouteKey) : Option String :=
  (reg.stored key).map StoredReplyRoute.originConnectionId

def get (reg : ReplyRouteRegistry) (key : RouteKey) : Option ReplyRoute :=
  (reg.stored key).map (snapshot key)

def resolve (reg : ReplyRouteRegistry) (key : RouteKey) : Option String × ReplyRouteRegistry :=
  match reg.peek key with
  | none => (none, reg)
  | some connectionId => (some connectionId, reg.touchClientRoute connectionId key)

/-- Write a route back and move it to the end of its origin's routes. -/
def storeAndTouch (reg : ReplyRouteRegistry) (key : RouteKey) (route : StoredReplyRoute) :
    ReplyRouteRegistry :=
  (reg.store key route).touchClientRoute route.originConnectionId key

/-- The index entry an unowned route gets with its owner; an owned one has it. -/
def claimIde (reg : ReplyRouteRegistry) (key : RouteKey) (route : StoredReplyRoute)
    (ideConnectionId : String) : ReplyRouteRegistry :=
  if route.ideConnectionId = none then reg.addIdeRoute ideConnectionId key else reg

def claimAuthority (reg : ReplyRouteRegistry) (key : RouteKey) (ideConnectionId : String)
    (resolutionGeneration : JsNumber) (resolutionClaimed : Bool) :
    Option ReplyRoute × ReplyRouteRegistry :=
  match reg.stored key with
  | none => (none, reg)
  | some route =>
    if route.ownedByOther ideConnectionId then
      (none, reg)
    else if route.resolutionGeneration.any fun g => resolutionGeneration.lt g then
      (none, reg)
    else
      let claimed := route.claim ideConnectionId resolutionGeneration resolutionClaimed
      (some (snapshot key claimed),
        (reg.claimIde key route ideConnectionId).storeAndTouch key claimed)

def claimResolution (reg : ReplyRouteRegistry) (key : RouteKey) (ideConnectionId : String)
    (resolutionGeneration : JsNumber) : Option ReplyRoute × ReplyRouteRegistry :=
  reg.claimAuthority key ideConnectionId resolutionGeneration true

def claimSourceInvalidation (reg : ReplyRouteRegistry) (key : RouteKey)
    (ideConnectionId : String) (resolutionGeneration : JsNumber) :
    Option ReplyRoute × ReplyRouteRegistry :=
  match reg.stored key with
  | none => (none, reg)
  | some route =>
    if route.ideConnectionId = none then
      let cleared := route.withMatchIds ∅
      (some (snapshot key cleared), reg.storeAndTouch key cleared)
    else
      reg.claimAuthority key ideConnectionId resolutionGeneration false

def replaceMatchIds (reg : ReplyRouteRegistry) (key : RouteKey) (ideConnectionId : String)
    (resolutionGeneration : JsNumber) (matchIds : List String) :
    Option ReplyRoute × ReplyRouteRegistry :=
  match reg.stored key with
  | none => (none, reg)
  | some route =>
    if route.ideConnectionId ≠ some ideConnectionId ∨
        ¬ route.resolutionGeneration.any (fun g => g.strictEq resolutionGeneration) ∨
        ¬ route.resolutionClaimed then
      (none, reg)
    else
      let replaced := route.withMatchIds matchIds.toFinset
      (some (snapshot key replaced), reg.storeAndTouch key replaced)

/-! ## Rules publication -/

/-- The loop over the published sources: the authority ids, unless a source names an
unexpected or a repeated rule, or has an empty or a repeated authority id. -/
def collectSources (expectedRuleRefs : Finset String) :
    Finset String → Finset String → List RulesSource → Option (Finset String)
  | _, proposedAuthorityIds, [] => some proposedAuthorityIds
  | publishedRuleRefs, proposedAuthorityIds, source :: sources =>
    if source.ruleRef ∉ expectedRuleRefs ∨ source.ruleRef ∈ publishedRuleRefs ∨
        source.openAuthorityId = "" ∨ source.openAuthorityId ∈ proposedAuthorityIds then
      none
    else
      collectSources expectedRuleRefs (insert source.ruleRef publishedRuleRefs)
        (insert source.openAuthorityId proposedAuthorityIds) sources

/-- The first publication of a route has generation 1, each later one a larger one. -/
def rulesGenerationStale (current : Option JsNumber) (rulesGeneration : JsNumber) : Bool :=
  match current with
  | none => !rulesGeneration.strictEq (1 : ℕ)
  | some g => rulesGeneration.le g

def prepareRulesSources (reg : ReplyRouteRegistry) (key : RouteKey) (ideConnectionId : String)
    (rulesGeneration : JsNumber) (sources : List RulesSource) (unresolvedRuleCount : JsNumber) :
    Option RulesSourcesPreparation :=
  match reg.stored key with
  | none => none
  | some route =>
    match rulesGeneration.integer?, unresolvedRuleCount.integer? with
    | some _, some unresolved =>
      if route.ownedByOther ideConnectionId ∨ unresolved < 0 ∨
          rulesGenerationStale route.rulesGeneration rulesGeneration then
        none
      else
        match collectSources route.expectedRuleRefs ∅ ∅ sources with
        | none => none
        | some proposedAuthorityIds =>
          if sources.length + unresolved ≠ route.expectedRuleRefs.card then
            none
          else
            some
              { key, ideConnectionId, rulesGeneration, proposedAuthorityIds
                expectedRevision := reg.revision
                route := route.objectId
                expectedRulesGeneration := route.rulesGeneration
                settled := false }
    | _, _ => none

def commitRulesSources (reg : ReplyRouteRegistry) (prepared : RulesSourcesPreparation) :
    Bool × ReplyRouteRegistry :=
  if prepared.settled then (false, reg)
  else
    match reg.stored prepared.key with
    | none => (false, reg)
    | some currentRoute =>
      if reg.revision ≠ prepared.expectedRevision ∨ currentRoute.objectId ≠ prepared.route ∨
          currentRoute.rulesGeneration ≠ prepared.expectedRulesGeneration ∨
          currentRoute.ownedByOther prepared.ideConnectionId then
        (false, reg)
      else
        (true, (reg.claimIde prepared.key currentRoute prepared.ideConnectionId).storeAndTouch
          prepared.key (currentRoute.publish prepared.ideConnectionId prepared.rulesGeneration
            prepared.proposedAuthorityIds))

end ReplyRouteRegistry

/-- The handle after `commit` or `rollback`. -/
def RulesSourcesPreparation.settle (prepared : RulesSourcesPreparation) :
    RulesSourcesPreparation :=
  { prepared with settled := true }

namespace ReplyRouteRegistry

def authorizeRulesOpen (reg : ReplyRouteRegistry) (key : RouteKey) (originConnectionId : String)
    (rulesGeneration : JsNumber) (openAuthorityId : String) :
    Option ReplyRoute × ReplyRouteRegistry :=
  match reg.stored key with
  | none => (none, reg)
  | some route =>
    if route.originConnectionId ≠ originConnectionId ∨ route.ideConnectionId = none ∨
        ¬ route.rulesGeneration.any (fun g => g.strictEq rulesGeneration) ∨
        openAuthorityId ∉ route.ruleOpenAuthorityIds then
      (none, reg)
    else
      (some (snapshot key route), reg.touchClientRoute route.originConnectionId key)

/-! ## Removal -/

def remove (reg : ReplyRouteRegistry) (key : RouteKey) :
    Except String (Bool × ReplyRouteRegistry) :=
  if (reg.stored key).isNone then .ok (false, reg)
  else do
    let reg ← reg.removeByKey key
    return (true, reg)

/-- The routes a client is the origin or the IDE of, each once. -/
def keysOfClient (reg : ReplyRouteRegistry) (connectionId : String) : List RouteKey :=
  let byClient := (reg.routesByClient.inner connectionId).keys
  byClient ++ (reg.routesByIde.inner connectionId).keys.filter fun key => key ∉ byClient

def removeClient (reg : ReplyRouteRegistry) (connectionId : String) :
    Except String ReplyRouteRegistry :=
  (reg.keysOfClient connectionId).foldlM removeByKey reg.markMutated

def clear (reg : ReplyRouteRegistry) : ReplyRouteRegistry :=
  markMutated { reg with routes := ∅, routesByClient := ∅, routesByIde := ∅ }

end ReplyRouteRegistry

end PinOp.Bridge
