import Mathlib.Data.Finset.Basic

/-!
# Protocol messages

The messages that pass between browsers, the bridge and IDEs, with the fields that
routing and correlation read. A message here has been parsed: generations and counts
are natural numbers, the rest of the schema is stated where it is checked.
-/

namespace PinOp.Protocol

inductive ClientRole where
  | browser
  | ide
  | simulator
  deriving DecidableEq, Repr

inductive ProtocolCapability where
  | inspect
  | resolution
  | link
  | sourceNavigation
  | autoRefresh
  | sourcePresentation
  | presentationSettings
  | rulesSources
  deriving DecidableEq, Repr

structure ClientSource where
  role : ClientRole
  id : String
  deriving DecidableEq, Repr

structure SourceDocument where
  label : String
  languageId : String
  deriving DecidableEq, Repr

structure InspectRuleEvidence where
  ruleRef : String
  deriving DecidableEq, Repr

structure InspectRuleEvidenceBatch where
  rules : List InspectRuleEvidence
  deriving DecidableEq, Repr

structure InspectMessage where
  messageId : String
  sessionId : String
  source : ClientSource
  ruleEvidence : InspectRuleEvidenceBatch
  deriving DecidableEq, Repr

/-- The source of an IDE's message: its role is always `ide`. -/
structure ResolutionSource where
  id : String
  deriving DecidableEq, Repr

structure ResolutionMessage where
  sessionId : String
  source : ResolutionSource
  inspectMessageId : String
  resolutionGeneration : ℕ
  document : Option SourceDocument
  deriving DecidableEq, Repr

structure RulesSource where
  ruleRef : String
  openAuthorityId : String
  deriving DecidableEq, Repr

structure RulesSourcesMessage where
  sessionId : String
  source : ResolutionSource
  inspectMessageId : String
  rulesGeneration : ℕ
  sources : List RulesSource
  unresolvedRuleCount : ℕ
  deriving DecidableEq, Repr

structure RulesOpenMessage where
  sessionId : String
  inspectMessageId : String
  rulesGeneration : ℕ
  openAuthorityId : String
  deriving DecidableEq, Repr

inductive PageRefreshMode where
  | styles
  | reload
  deriving DecidableEq, Repr

structure PageRefreshMessage where
  sessionId : String
  source : ResolutionSource
  refreshGeneration : ℕ
  mode : PageRefreshMode
  deriving DecidableEq, Repr

structure SourceExcerpt where
  matchId : String
  deriving DecidableEq, Repr

structure SourceMatchesMessage where
  sessionId : String
  source : ResolutionSource
  inspectMessageId : String
  resolutionGeneration : ℕ
  document : SourceDocument
  «matches» : List SourceExcerpt
  omittedMatchCount : ℕ
  deriving DecidableEq, Repr

structure SourceOpenMessage where
  sessionId : String
  inspectMessageId : String
  resolutionGeneration : ℕ
  matchId : String
  deriving DecidableEq, Repr

structure PresentationSettingsMessage where
  sessionId : String
  inspectMessageId : String
  ideHighlightEnabled : Bool
  deriving DecidableEq, Repr

inductive SourceNavigationDirection where
  | previous
  | next
  deriving DecidableEq, Repr

structure SourceNavigateMessage where
  sessionId : String
  inspectMessageId : String
  resolutionGeneration : ℕ
  direction : SourceNavigationDirection
  deriving DecidableEq, Repr

structure SourceNavigationStateMessage where
  sessionId : String
  inspectMessageId : String
  source : ResolutionSource
  resolutionGeneration : ℕ
  selectedMatchCount : ℕ
  activeMatchIndex : Option ℕ
  activeMatchId : Option String
  deriving DecidableEq, Repr

/-- The error codes the router answers with. -/
inductive ProtocolErrorCode where
  | invalidMessage
  | noIdeClient
  | noBrowserClient
  deriving DecidableEq, Repr

/-- The code as it is written on the wire. -/
def ProtocolErrorCode.wire : ProtocolErrorCode → String
  | .invalidMessage => "protocol.invalidMessage"
  | .noIdeClient => "bridge.noIdeClient"
  | .noBrowserClient => "bridge.noBrowserClient"

structure ErrorMessage where
  code : String
  message : String
  fatal : Bool
  deriving DecidableEq, Repr

/-- `other` is every message type routing does nothing about: the handshake, linking,
peer state and heartbeat messages. -/
inductive PinOpMessage where
  | inspect (message : InspectMessage)
  | resolution (message : ResolutionMessage)
  | rulesSources (message : RulesSourcesMessage)
  | sourceMatches (message : SourceMatchesMessage)
  | sourceOpen (message : SourceOpenMessage)
  | rulesOpen (message : RulesOpenMessage)
  | presentationSettings (message : PresentationSettingsMessage)
  | sourceNavigate (message : SourceNavigateMessage)
  | sourceNavigationState (message : SourceNavigationStateMessage)
  | pageRefresh (message : PageRefreshMessage)
  | error (message : ErrorMessage)
  | other
  deriving DecidableEq, Repr

/-- The pair a reply route is stored under; the source writes it as a JSON string. -/
structure RouteKey where
  sessionId : String
  inspectMessageId : String
  deriving DecidableEq, Repr

namespace PinOpMessage

/-- The inspect a message of an IDE answers, for the four families delivered to the
origin of the inspect. -/
def repliesTo : PinOpMessage → Option RouteKey
  | .resolution m => some ⟨m.sessionId, m.inspectMessageId⟩
  | .rulesSources m => some ⟨m.sessionId, m.inspectMessageId⟩
  | .sourceMatches m => some ⟨m.sessionId, m.inspectMessageId⟩
  | .sourceNavigationState m => some ⟨m.sessionId, m.inspectMessageId⟩
  | _ => none

/-- The inspect a message of a browser acts on, for the four families forwarded to the
IDE that owns the inspect. -/
def requestsOn : PinOpMessage → Option RouteKey
  | .sourceOpen m => some ⟨m.sessionId, m.inspectMessageId⟩
  | .rulesOpen m => some ⟨m.sessionId, m.inspectMessageId⟩
  | .presentationSettings m => some ⟨m.sessionId, m.inspectMessageId⟩
  | .sourceNavigate m => some ⟨m.sessionId, m.inspectMessageId⟩
  | _ => none

end PinOpMessage

end PinOp.Protocol
