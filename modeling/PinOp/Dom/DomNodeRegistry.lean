import PinOp.Lib.OrderedMap
import PinOp.Lib.Program
import PinOp.Dom.NodeRefs

/-!
# The registry of DOM nodes

Opaque references stand for nodes in scopes. A node is held weakly: whether the dereferencing
that is made next finds it alive is asked of the world, `alive`, which counts how many were made.
Nothing calls back into the registry, so that the checks for that are left out; an entry object
is told from others by what does not change in it, which is all but its reasons.
-/

namespace PinOp.Dom

open PinOp.Lib

inductive RetentionReason where
  | selected
  | hovered
  | expanded
  deriving DecidableEq, Repr

/-- `node` is what `weakNode` refers to. -/
structure NodeEntry (Node : Type) where
  ref : String
  scope : NodeScope
  node : Node
  sequence : ℕ
  reasons : List RetentionReason
  deriving DecidableEq

/-- It is the same object. -/
def NodeEntry.is {Node : Type} [DecidableEq Node] (entry other : NodeEntry Node) : Bool :=
  entry.ref = other.ref && entry.scope = other.scope && entry.node = other.node &&
    entry.sequence = other.sequence

/-- Its entries hold their nodes. -/
structure DomNodeRegistrySnapshot (Node : Type) where
  registry : ℕ
  documentEpoch : ℕ
  nextRef : ℕ
  nextSequence : ℕ
  structuralRevision : ℕ
  entries : List (NodeEntry Node)
  deriving DecidableEq

/-- What is wrong with what `createWeakRef` gives. -/
inductive WeakRefError where
  | notObject
  | unreadableDeref
  | noDeref
  | derefFailed
  | otherNode
  deriving DecidableEq, Repr

inductive RegistryError where
  | invalidScope
  | changed
  | refsExhausted
  | revisionExhausted
  | fullyRetained
  | weakRef (error : WeakRefError)
  | epochNotGreater
  | invalidEpoch
  deriving DecidableEq, Repr

def RegistryError.message : RegistryError → String
  | .invalidScope => "scope is invalid or belongs to another document epoch"
  | .changed => "DomNodeRegistry changed during weak reference access"
  | .refsExhausted => "DomNodeRegistry reference space exhausted"
  | .revisionExhausted => "DomNodeRegistry authority revision exhausted"
  | .fullyRetained => "DomNodeRegistry capacity is fully retained"
  | .weakRef .notObject => "createWeakRef must return an object"
  | .weakRef .unreadableDeref => "createWeakRef returned an unreadable deref method"
  | .weakRef .noDeref => "createWeakRef must return a deref function"
  | .weakRef .derefFailed => "createWeakRef deref failed during validation"
  | .weakRef .otherNode => "createWeakRef must initially resolve the supplied node"
  | .epochNotGreater => "documentEpoch must be greater than the current epoch"
  | .invalidEpoch => "documentEpoch must be a nonnegative safe integer"

inductive EntryDerefResult (Node : Type) where
  | live (node : Node)
  | dead
  | stale
  deriving DecidableEq

/-- What `makeRoom` removes, and the references it could have removed. -/
structure Eviction where
  ref : String
  candidates : List String
  deriving DecidableEq, Repr

/-- `registry` tells it from other registries, `reads` counts what was dereferenced, and
`evicted` is what was removed to make room, newest first. -/
structure DomNodeRegistry (Node : Type) where
  registry : ℕ
  maxReverseEntries : ℕ+
  forward : OrderedMap Node (OrderedMap String String)
  reverse : OrderedMap String (NodeEntry Node)
  retained : OrderedMap String Node
  documentEpoch : ℕ
  nextRef : ℕ
  nextSequence : ℕ
  structuralRevision : ℕ
  authorityRevision : ℕ
  reads : ℕ
  evicted : List Eviction
  deriving DecidableEq

/-- How `invalidateSubtree` sees the DOM; a property that cannot be read is `invalid`. -/
inductive NodeProperty (Node : Type) where
  | node (value : Node)
  | null
  | invalid

inductive OptionalNodeProperty (Node : Type) where
  | node (value : Node)
  | absent
  | invalid

/-- `contains` is `none` for a root without the method, and gives `none` when it does not answer
with a boolean. -/
structure DomReads (Node : Type) where
  contains : Option (Node → Option Bool)
  parentNode : Node → NodeProperty Node
  host : Node → OptionalNodeProperty Node

namespace DomNodeRegistry

variable {Node : Type} [DecidableEq Node]

def start (registry : ℕ) (maxReverseEntries : ℕ+) (documentEpoch : ℕ) : DomNodeRegistry Node where
  registry := registry
  maxReverseEntries := maxReverseEntries
  forward := ∅
  reverse := ∅
  retained := ∅
  documentEpoch := documentEpoch
  nextRef := 1
  nextSequence := 1
  structuralRevision := 0
  authorityRevision := 0
  reads := 0
  evicted := []

abbrev RegistryProgram (Node : Type) (α : Type) := Program (DomNodeRegistry Node) RegistryError α

/-! ## Indexes -/

/-- The reference of the node in the scope of this key. -/
def lookup (forward : OrderedMap Node (OrderedMap String String)) (node : Node) (key : String) :
    Option String :=
  (forward.get? node).bind fun refs => refs.get? key

def link (forward : OrderedMap Node (OrderedMap String String)) (node : Node) (key ref : String) :
    OrderedMap Node (OrderedMap String String) :=
  forward.set node (((forward.get? node).getD ∅).set key ref)

/-- The reference is forgotten if it is the one that stands there. -/
def unlink (forward : OrderedMap Node (OrderedMap String String)) (node : Node)
    (key ref : String) : OrderedMap Node (OrderedMap String String) :=
  match forward.get? node with
  | none => forward
  | some refs =>
    if refs.get? key = some ref then
      if (refs.delete key).size = 0 then forward.delete node
      else forward.set node (refs.delete key)
    else forward

variable (r : DomNodeRegistry Node)

def isCurrentScope (scope : NodeScope) : Bool :=
  isNodeScope scope && scope.documentEpoch = r.documentEpoch

def isEntryAuthoritative (ref : String) (entry : NodeEntry Node) (scope : NodeScope) : Bool :=
  ((r.reverse.get? ref).any fun current => current.is entry) &&
    sameScope entry.scope scope && r.isCurrentScope entry.scope

/-- The body of `remove`; `none` is a node that is not known. -/
def drop (ref : String) (scope : NodeScope) (node : Option Node) : DomNodeRegistry Node :=
  { r with
    forward :=
      match node with
      | none => r.forward
      | some node => unlink r.forward node (createScopeKey scope) ref
    reverse := r.reverse.delete ref
    retained := r.retained.delete ref }

/-- The body of `touch`. -/
def moveToEnd (ref : String) : DomNodeRegistry Node :=
  match r.reverse.get? ref with
  | none => r
  | some entry => { r with reverse := (r.reverse.delete ref).set ref entry }

/-- A new entry of the node. -/
def insert (node : Node) (scope : NodeScope) : DomNodeRegistry Node :=
  let ref := nodeRef r.nextRef
  let entry : NodeEntry Node :=
    { ref := ref, scope := scope, node := node, sequence := r.nextSequence, reasons := [] }
  { r with
    reverse := r.reverse.set ref entry
    forward := link r.forward node (createScopeKey scope) ref
    nextRef := r.nextRef + 1
    nextSequence := r.nextSequence + 1 }

def hold (ref : String) (entry : NodeEntry Node) (reason : RetentionReason) :
    DomNodeRegistry Node :=
  let reasons := if reason ∈ entry.reasons then entry.reasons else entry.reasons ++ [reason]
  { r with
    reverse := r.reverse.set ref { entry with reasons := reasons }
    retained := r.retained.set ref entry.node }

def letGo (ref : String) (entry : NodeEntry Node) (reason : RetentionReason) :
    DomNodeRegistry Node :=
  let reasons := entry.reasons.filter fun other => other ≠ reason
  { r with
    reverse := r.reverse.set ref { entry with reasons := reasons }
    retained := if reasons = [] then r.retained.delete ref else r.retained }

/-- The references that nothing retains, the one used longest ago first. -/
def unretained : List (String × NodeEntry Node) :=
  r.reverse.entries.filter fun entry => entry.2.reasons = []

/-! ## Revisions and weak references -/

def bumpAuthorityRevision : RegistryProgram Node Unit := do
  let r ← Program.get
  if maxSafeInteger < r.authorityRevision then Program.throw .revisionExhausted
  else Program.modify fun r => { r with authorityRevision := r.authorityRevision + 1 }

def bumpStructuralRevision : RegistryProgram Node Unit := do
  Program.modify fun r => { r with structuralRevision := r.structuralRevision + 1 }
  bumpAuthorityRevision

variable (alive : ℕ → Bool)

def deref (entry : NodeEntry Node) : RegistryProgram Node (Option Node) := do
  let r ← Program.get
  Program.modify fun r => { r with reads := r.reads + 1 }
  return if alive r.reads then some entry.node else none

def dereferenceEntry (ref : String) (entry : NodeEntry Node) (scope : NodeScope) :
    RegistryProgram Node (EntryDerefResult Node) := do
  let r ← Program.get
  if r.isEntryAuthoritative ref entry scope then
    match ← deref alive entry with
    | some node => return .live node
    | none => return .dead
  else return .stale

/-! ## Removing and moving entries -/

def remove (ref : String) (entry : NodeEntry Node) (node : Option Node) :
    RegistryProgram Node Bool := do
  let r ← Program.get
  if r.isEntryAuthoritative ref entry entry.scope then
    bumpStructuralRevision
    Program.modify fun r => r.drop ref entry.scope node
    return true
  else return false

def touch (ref : String) (entry : NodeEntry Node) : RegistryProgram Node Bool := do
  let r ← Program.get
  if r.isEntryAuthoritative ref entry entry.scope then
    bumpStructuralRevision
    Program.modify fun r => r.moveToEnd ref
    return true
  else return false

structure PruneResult where
  removed : ℕ
  interrupted : Bool
  deriving DecidableEq, Repr

def pruneList : List (String × NodeEntry Node) → ℕ → RegistryProgram Node PruneResult
  | [], removed => return ⟨removed, false⟩
  | (ref, entry) :: entries, removed => do
    match ← dereferenceEntry alive ref entry entry.scope with
    | .stale => return ⟨removed, true⟩
    | .dead =>
      if ← remove ref entry none then pruneList entries (removed + 1)
      else pruneList entries removed
    | .live _ => pruneList entries removed

def pruneEntries : RegistryProgram Node PruneResult := do
  let r ← Program.get
  pruneList alive r.reverse.entries 0

def prune : RegistryProgram Node ℕ := do
  let pruned ← pruneEntries alive
  return pruned.removed

/-- The loop of `makeRoom`. It goes round at most once for each entry. -/
def evict : ℕ → RegistryProgram Node Unit
  | 0 => return
  | rounds + 1 => do
    let r ← Program.get
    if r.reverse.size < r.maxReverseEntries then return
    else
      match r.unretained with
      | [] => Program.throw .fullyRetained
      | (ref, entry) :: rest =>
        match ← dereferenceEntry alive ref entry entry.scope with
        | .stale => Program.throw .changed
        | result =>
          let _ ← remove ref entry (match result with | .live node => some node | _ => none)
          Program.modify fun r => { r with evicted := ⟨ref, rest.map (·.1)⟩ :: r.evicted }
          evict rounds

def makeRoom (scope : NodeScope) : RegistryProgram Node Unit := do
  let pruned ← pruneEntries alive
  let r ← Program.get
  if pruned.interrupted || !r.isCurrentScope scope then Program.throw .changed
  else evict alive r.reverse.size

/-! ## References -/

/-- `reference` from `reserveRef` on; `created` is whether a weak reference can be made. -/
def create (node : Node) (scope : NodeScope) (created : Except WeakRefError Unit) :
    RegistryProgram Node String := do
  let r ← Program.get
  if maxSafeInteger < r.nextRef then Program.throw .refsExhausted
  else
    match created with
    | .error error => Program.throw (.weakRef error)
    | .ok () =>
      makeRoom alive scope
      let r ← Program.get
      if !r.isCurrentScope scope then Program.throw .changed
      else
        bumpStructuralRevision
        Program.modify fun r => r.insert node scope
        return nodeRef r.nextRef

def reference (node : Node) (scope : NodeScope) (created : Except WeakRefError Unit) :
    RegistryProgram Node String := do
  let r ← Program.get
  if !r.isCurrentScope scope then Program.throw .invalidScope
  else
    let existingRef := lookup r.forward node (createScopeKey scope)
    match existingRef.bind fun ref => (r.reverse.get? ref).map fun existing => (ref, existing) with
    | none => create alive node scope created
    | some (ref, existing) =>
      if !sameScope existing.scope scope then create alive node scope created
      else
        match ← dereferenceEntry alive ref existing scope with
        | .stale => Program.throw .changed
        | .live found =>
          if found = node then
            if ← touch ref existing then return ref
            else Program.throw .changed
          else create alive node scope created
        | .dead =>
          let _ ← remove ref existing none
          create alive node scope created

def resolve (ref : String) (scope : NodeScope) : RegistryProgram Node (Option Node) := do
  let r ← Program.get
  if !r.isCurrentScope scope || !isNodeRef ref then return none
  else
    match r.reverse.get? ref with
    | none => return none
    | some entry =>
      if !sameScope entry.scope scope then return none
      else
        match ← dereferenceEntry alive ref entry scope with
        | .stale => return none
        | .dead =>
          let _ ← remove ref entry none
          return none
        | .live node =>
          if ← touch ref entry then return some node
          else return none

def retain (ref : String) (reason : RetentionReason) : RegistryProgram Node Bool := do
  let r ← Program.get
  if !isNodeRef ref then return false
  else
    match r.reverse.get? ref with
    | none => return false
    | some entry =>
      match ← dereferenceEntry alive ref entry entry.scope with
      | .stale => return false
      | .dead =>
        let _ ← remove ref entry none
        return false
      | .live _ =>
        bumpStructuralRevision
        Program.modify fun r => r.hold ref entry reason
        touch ref entry

def release (ref : String) (reason : RetentionReason) : RegistryProgram Node Unit := do
  let r ← Program.get
  if !isNodeRef ref then return
  else
    match r.reverse.get? ref with
    | none => return
    | some entry =>
      if !r.isEntryAuthoritative ref entry entry.scope then return
      else if reason ∉ entry.reasons then return
      else
        bumpStructuralRevision
        Program.modify fun r => r.letGo ref entry reason

/-! ## Subtrees -/

def maxShadowAncestryDepth : ℕ := 512

/-- The loop of `isShadowIncludingDescendant`; `none` is `undefined`. -/
def shadowAncestry (dom : DomReads Node) (root : Node) :
    ℕ → Node → Bool → List Node → Option Bool
  | 0, _, _, _ => none
  | depth + 1, current, crossedShadowBoundary, seen =>
    if current = root then if crossedShadowBoundary then some true else none
    else if current ∈ seen then none
    else
      match dom.parentNode current with
      | .invalid => none
      | .node parent => shadowAncestry dom root depth parent crossedShadowBoundary (current :: seen)
      | .null =>
        match dom.host current with
        | .invalid => none
        | .absent => some false
        | .node host => shadowAncestry dom root depth host true (current :: seen)

def isShadowIncludingDescendant (dom : DomReads Node) (root node : Node) : Option Bool :=
  shadowAncestry dom root maxShadowAncestryDepth node false []

/-- Whether a live node belongs to the subtree; `none` ends the operation. -/
def withinSubtree (dom : DomReads Node) (contains : Node → Option Bool) (root node : Node) :
    Option Bool :=
  if node = root then some true
  else
    match contains node with
    | none => none
    | some true => some true
    | some false => isShadowIncludingDescendant dom root node

/-- What the loop over the entries has found. -/
structure Subtree (Node : Type) where
  invalidated : List (NodeEntry Node)
  dead : List (NodeEntry Node)

def classify (dom : DomReads Node) (contains : Node → Option Bool) (root : Node) :
    List (NodeEntry Node) → Subtree Node → RegistryProgram Node (Option (Subtree Node))
  | [], found => return some found
  | entry :: entries, found => do
    match ← dereferenceEntry alive entry.ref entry entry.scope with
    | .stale => return none
    | .dead => classify dom contains root entries { found with dead := found.dead ++ [entry] }
    | .live node =>
      match withinSubtree dom contains root node with
      | none => return none
      | some false => classify dom contains root entries found
      | some true =>
        classify dom contains root entries
          { found with invalidated := found.invalidated ++ [entry] }

/-- Remove the entries that are still there; the nodes of these are known if `known`. -/
def removeAll (known : Bool) : List (NodeEntry Node) → RegistryProgram Node Unit
  | [] => return
  | listed :: entries => do
    let r ← Program.get
    match r.reverse.get? listed.ref with
    | none => removeAll known entries
    | some entry =>
      let _ ← remove listed.ref entry (if known then some listed.node else none)
      removeAll known entries

def invalidateSubtree (root : Node) (dom : DomReads Node) : RegistryProgram Node (List String) := do
  let r ← Program.get
  match dom.contains with
  | none => return []
  | some contains =>
    let entries := (r.reverse.entries.map (·.2)).mergeSort fun left right =>
      left.sequence ≤ right.sequence
    match ← classify alive dom contains root entries ⟨[], []⟩ with
    | none => return []
    | some found =>
      removeAll false found.dead
      removeAll true found.invalidated
      return found.invalidated.map (·.ref)

def resetDocument (documentEpoch : ℕ) : RegistryProgram Node Unit := do
  let r ← Program.get
  if maxSafeInteger < documentEpoch then Program.throw .invalidEpoch
  else if documentEpoch ≤ r.documentEpoch then Program.throw .epochNotGreater
  else
    bumpStructuralRevision
    Program.modify fun r =>
      { r with documentEpoch := documentEpoch, forward := ∅, reverse := ∅, retained := ∅ }

/-! ## Snapshots -/

def snapshotList : List (String × NodeEntry Node) → List (NodeEntry Node) →
    RegistryProgram Node (Option (List (NodeEntry Node)))
  | [], taken => return some taken
  | (ref, entry) :: entries, taken => do
    match ← dereferenceEntry alive ref entry entry.scope with
    | .live node => snapshotList entries (taken ++ [{ entry with ref := ref, node := node }])
    | _ => return none

def snapshot : RegistryProgram Node (Option (DomNodeRegistrySnapshot Node)) := do
  let r ← Program.get
  match ← snapshotList alive r.reverse.entries [] with
  | none => return none
  | some entries =>
    return some
      { registry := r.registry
        documentEpoch := r.documentEpoch
        nextRef := r.nextRef
        nextSequence := r.nextSequence
        structuralRevision := r.structuralRevision
        entries := entries }

/-- The indexes that `restore` builds. -/
structure Indexes (Node : Type) where
  forward : OrderedMap Node (OrderedMap String String)
  reverse : OrderedMap String (NodeEntry Node)
  retained : OrderedMap String Node

def Indexes.add (indexes : Indexes Node) (entry : NodeEntry Node) : Indexes Node where
  forward := link indexes.forward entry.node (createScopeKey entry.scope) entry.ref
  reverse := indexes.reverse.set entry.ref entry
  retained :=
    if entry.reasons = [] then indexes.retained else indexes.retained.set entry.ref entry.node

/-- The checks that `restore` makes of an entry whose node is alive. -/
def restorable (indexes : Indexes Node) (entry : NodeEntry Node) : Bool :=
  isNodeRef entry.ref && r.isCurrentScope entry.scope &&
    (entry.sequence ≤ maxSafeInteger && 1 ≤ entry.sequence) &&
    !indexes.reverse.has entry.ref && entry.reasons.Nodup &&
    (lookup indexes.forward entry.node (createScopeKey entry.scope)).isNone

def restoreList : List (NodeEntry Node) → Indexes Node →
    RegistryProgram Node (Option (Indexes Node))
  | [], indexes => return some indexes
  | entry :: entries, indexes => do
    let node ← deref alive entry
    let r ← Program.get
    if node = some entry.node && r.restorable indexes entry then
      restoreList entries (indexes.add entry)
    else return none

def accepts (snapshot : DomNodeRegistrySnapshot Node) : Bool :=
  snapshot.registry = r.registry && snapshot.documentEpoch = r.documentEpoch &&
    (snapshot.nextRef ≤ maxSafeInteger && 1 ≤ snapshot.nextRef) &&
    (snapshot.nextSequence ≤ maxSafeInteger && 1 ≤ snapshot.nextSequence) &&
    snapshot.structuralRevision ≤ maxSafeInteger &&
    snapshot.entries.length ≤ r.maxReverseEntries

def restoreIndexes (snapshot : DomNodeRegistrySnapshot Node) (indexes : Indexes Node) :
    DomNodeRegistry Node :=
  { r with
    forward := indexes.forward
    reverse := indexes.reverse
    retained := indexes.retained
    nextRef := max r.nextRef snapshot.nextRef
    nextSequence := max r.nextSequence snapshot.nextSequence
    structuralRevision := snapshot.structuralRevision }

/-- An error that is thrown once the rebuilding has begun is caught, and `false` is returned. -/
def restore (snapshot : DomNodeRegistrySnapshot Node) : RegistryProgram Node Bool := do
  let r ← Program.get
  if !r.accepts snapshot then return false
  else
    bumpAuthorityRevision
    match ← restoreList alive snapshot.entries ⟨∅, ∅, ∅⟩ with
    | none => return false
    | some indexes =>
      Program.modify fun r => r.restoreIndexes snapshot indexes
      Program.succeeds bumpAuthorityRevision

end DomNodeRegistry

end PinOp.Dom
