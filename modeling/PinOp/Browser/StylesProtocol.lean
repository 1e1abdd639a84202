import PinOp.Protocol.Schema

/-!
# Messages about matched styles

The requests a matched-styles model sends, and the responses and events it reads. A message
that does not parse is no value here. Of the styles themselves only whether they are partial
is looked at.
-/

namespace PinOp.Browser

open PinOp.Protocol

inductive PseudoState where
  | hover
  | focus
  deriving DecidableEq

inductive StylesErrorCode where
  | invalidRequest
  | staleDocument
  | staleSelection
  | staleStyles
  | stalePseudoState
  | unknownNode
  | nodeUnavailable
  | cancelled
  | internalError
  deriving DecidableEq

structure MatchedStyles where
  isPartial : Bool
  deriving DecidableEq

/-- What the styles of a document depend on. -/
structure StylesRevisionAuthority where
  documentEpoch : ℕ
  stylesRevision : ℕ
  stylesheetRevision : ℕ
  pseudoStateRevision : ℕ
  pseudoStates : List PseudoState
  deriving DecidableEq

structure StylesGetMatchedRequest where
  requestId : String
  documentEpoch : ℕ
  nodeRef : String
  selectionRevision : ℕ
  pseudoStateRevision : ℕ
  pseudoStates : List PseudoState
  manualRefresh : Bool
  deriving DecidableEq

structure StylesSetPseudoStatesRequest where
  requestId : String
  documentEpoch : ℕ
  nodeRef : String
  selectionRevision : ℕ
  expectedStylesRevision : ℕ
  expectedPseudoStateRevision : ℕ
  states : List PseudoState
  deriving DecidableEq

structure StylesMatchedResponse where
  requestId : String
  nodeRef : String
  selectionRevision : ℕ
  authority : StylesRevisionAuthority
  styles : MatchedStyles
  deriving DecidableEq

/-- `authority.pseudoStates` are its `states`. -/
structure StylesPseudoStatesResponse where
  requestId : String
  nodeRef : String
  selectionRevision : ℕ
  authority : StylesRevisionAuthority
  deriving DecidableEq

structure StylesErrorResponse where
  requestId : String
  code : StylesErrorCode
  deriving DecidableEq

inductive StylesResponse where
  | matched (response : StylesMatchedResponse)
  | pseudoStates (response : StylesPseudoStatesResponse)
  | error (response : StylesErrorResponse)
  deriving DecidableEq

/-- `Number.MAX_SAFE_INTEGER` -/
def maxRevision : ℕ := 2 ^ 53 - 1

def validRevision (value : ℕ) : Bool := value ≤ maxRevision

/-- Control characters and those that change the direction of text. -/
def isForbiddenCharacter (c : Char) : Bool :=
  c.toNat ≤ 0x1F || c.toNat = 0x7F || (0x202A ≤ c.toNat && c.toNat ≤ 0x202E) ||
    (0x2066 ≤ c.toNat && c.toNat ≤ 0x2069)

def isIdentifier (value : String) : Bool :=
  0 < jsLength value && jsLength value ≤ 128 && !value.toList.any isForbiddenCharacter

def validPseudoStates (states : List PseudoState) : Bool :=
  states.length ≤ 1 || states = [.hover, .focus]

/-- `parseStylesRequest` takes the request. -/
def StylesGetMatchedRequest.valid (request : StylesGetMatchedRequest) : Bool :=
  isIdentifier request.requestId && validRevision request.documentEpoch &&
    isIdentifier request.nodeRef && validRevision request.selectionRevision &&
    validRevision request.pseudoStateRevision && validPseudoStates request.pseudoStates

def StylesSetPseudoStatesRequest.valid (request : StylesSetPseudoStatesRequest) : Bool :=
  isIdentifier request.requestId && validRevision request.documentEpoch &&
    isIdentifier request.nodeRef && validRevision request.selectionRevision &&
    validRevision request.expectedStylesRevision &&
    validRevision request.expectedPseudoStateRevision && validPseudoStates request.states &&
    request.expectedPseudoStateRevision ≤ request.expectedStylesRevision

/-- `isStylesResponseForRequest` -/
def StylesGetMatchedRequest.answeredBy (request : StylesGetMatchedRequest) :
    StylesResponse → Bool
  | .error response => request.valid && response.requestId = request.requestId
  | .matched response =>
    request.valid && response.requestId = request.requestId &&
      response.authority.documentEpoch = request.documentEpoch &&
      response.nodeRef = request.nodeRef &&
      response.selectionRevision = request.selectionRevision &&
      response.authority.pseudoStateRevision = request.pseudoStateRevision &&
      response.authority.pseudoStates = request.pseudoStates
  | .pseudoStates _ => false

/-- `isStylesResponseForRequest` -/
def StylesSetPseudoStatesRequest.answeredBy (request : StylesSetPseudoStatesRequest) :
    StylesResponse → Bool
  | .error response => request.valid && response.requestId = request.requestId
  | .pseudoStates response =>
    request.valid && response.requestId = request.requestId &&
      response.authority.documentEpoch = request.documentEpoch &&
      response.nodeRef = request.nodeRef &&
      response.selectionRevision = request.selectionRevision &&
      response.authority.pseudoStates = request.states
  | .matched _ => false

def strictlyNewerRevisionPair (candidate floor : StylesRevisionAuthority) : Bool :=
  floor.stylesRevision < candidate.stylesRevision &&
    floor.stylesheetRevision ≤ candidate.stylesheetRevision &&
    floor.pseudoStateRevision ≤ candidate.pseudoStateRevision &&
    (floor.pseudoStateRevision < candidate.pseudoStateRevision ||
      candidate.pseudoStates = floor.pseudoStates)

def revisionPairMeetsFloor (candidate floor : StylesRevisionAuthority) : Bool :=
  (candidate.stylesRevision = floor.stylesRevision &&
      candidate.stylesheetRevision = floor.stylesheetRevision &&
      candidate.pseudoStateRevision = floor.pseudoStateRevision &&
      candidate.pseudoStates = floor.pseudoStates) ||
    strictlyNewerRevisionPair candidate floor

end PinOp.Browser
