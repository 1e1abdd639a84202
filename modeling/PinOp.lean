import PinOp.Lib.OrderedMap
import PinOp.Lib.NestedMap
import PinOp.Lib.JsNumber
import PinOp.Lib.Runs
import PinOp.Lib.Program
import PinOp.Lib.Decimal
import PinOp.Lib.BestList
import PinOp.Lib.Comparator
import PinOp.Lib.Regex
import PinOp.Protocol.Messages
import PinOp.Protocol.Schema
import PinOp.Bridge.ReplyRouteRegistry
import PinOp.Bridge.RegistryWrites
import PinOp.Bridge.RegistryIndex
import PinOp.Bridge.RegistryRuns
import PinOp.Bridge.ClientRegistry
import PinOp.Bridge.PeerStateRegistry
import PinOp.Bridge.Router
import PinOp.Bridge.System
import PinOp.Bridge.Progress
import PinOp.Bridge.RouteSteps
import PinOp.Bridge.Delivery
import PinOp.Bridge.SourceAuthority
import PinOp.Bridge.RulesAuthority
import PinOp.Bridge.LinkAuthenticator
import PinOp.Bridge.LinkAttempts
import PinOp.Bridge.Server
import PinOp.Bridge.ServerSteps
import PinOp.Bridge.PeerAnnouncements
import PinOp.Bridge.PeerStateRuns
import PinOp.Bridge.PeerStateHistory
import PinOp.Browser.InspectCorrelationStore
import PinOp.Browser.CorrelationSteps
import PinOp.Browser.CorrelationAuthority
import PinOp.Browser.SourceAgreement
import PinOp.Browser.RulesSourcesController
import PinOp.Browser.RulesAgreement
import PinOp.Browser.StylesProtocol
import PinOp.Browser.MatchedStylesModel
import PinOp.Browser.StylesAuthority
import PinOp.Rules.RulesStylesheetLocator
import PinOp.Rules.ExhaustiveChoice
import PinOp.Rules.LocateGenerated
import PinOp.Refresh.RefreshState
import PinOp.Refresh.TabRefreshCoordinator
import PinOp.Refresh.CoordinatorSteps
import PinOp.Refresh.Moves
import PinOp.Refresh.Operations
import PinOp.Refresh.RefreshQueue
import PinOp.Refresh.Participation
import PinOp.Refresh.Watermarks
import PinOp.Refresh.Onward
import PinOp.Refresh.RefreshSafety
import PinOp.Css.Grammar
import PinOp.Css.StylesheetAst
import PinOp.Css.RulePathText
import PinOp.Css.IndexFrame
import PinOp.Css.Cssom
import PinOp.Css.IndexSound
import PinOp.Css.CssRuleWalker
import PinOp.Css.WalkPaths
import PinOp.Css.RulePaths
import PinOp.Css.TextDocument
import PinOp.Css.DeclarationFingerprint
import PinOp.Css.IndexedRules
import PinOp.Dom.NodeRefs
import PinOp.Dom.DomNodeRegistry
import PinOp.Dom.RegistryMoves
import PinOp.Dom.RegistryPrograms
import PinOp.Dom.RegistryRestore
import PinOp.Lib.Recency
import PinOp.Dom.RegistrySessions
import PinOp.Dom.NodeReferences
import PinOp.Css.ParsedRules
import PinOp.Rules.GeneratedRule
import PinOp.Rules.GeneratedIdentity
import PinOp.Bridge.PeerStateAnnounced
import PinOp.Rules.RulesOpenAuthorityRegistry
import PinOp.Rules.RulesSourcesPublication
import PinOp.Rules.RegistryTransactions
import PinOp.Rules.RulesSourceController
import PinOp.Rules.ControllerSteps
import PinOp.Rules.OpenAuthorityRuns
import PinOp.Bridge.TwoPhaseHandles
import PinOp.Browser.StylesLoading
import PinOp.Refresh.RemovedTabs
import PinOp.Refresh.RowBounds
import PinOp.Refresh.FailedAdmissions
import PinOp.Css.TopLevel
import PinOp.Css.ValueTokens
import PinOp.Css.ListShorthands
import PinOp.Css.InRuleCascade
import PinOp.Connection.WindowConnection
import PinOp.Presenter.SourceMatch
import PinOp.Presenter.SourceNavigator
import PinOp.Presenter.CyclicWalk
import PinOp.Lib.CodeUnits
import PinOp.Presenter.ExcerptText
import PinOp.Lib.FirstByKey
import PinOp.Presenter.SourceExcerptRegistry
import PinOp.Presenter.ExcerptPublication
import PinOp.Browser.CascadeClassifier
import PinOp.Browser.MatchedRules
import PinOp.Browser.CollectedRules
import PinOp.Browser.CascadeVerdicts
import PinOp.Browser.PresentedVerdicts
import PinOp.Browser.CascadeOfRules
import PinOp.Lib.RegexFirstMatch
import PinOp.Browser.DeclarationList
import PinOp.Browser.AuthoredForm
import PinOp.Css.FallbackIndex
import PinOp.Css.CssSourcePlugin
import PinOp.Css.HeuristicMatches
import PinOp.Rules.LocationMemory
import PinOp.Rules.OpenFence
import PinOp.Rules.OpenRevalidation
import PinOp.Bridge.LinkTokens
import PinOp.Refresh.SaveObserver
import PinOp.Refresh.SavedChanges
import PinOp.Refresh.PreprocessorQuiet
import PinOp.Rules.PublicationPacking
import PinOp.Lib.Async
import PinOp.Refresh.StoredTabStates
import PinOp.Refresh.StoreOperations
import PinOp.Refresh.StoreSerial
import PinOp.Refresh.StoreRuns
import PinOp.Dom.ShadowForest
import PinOp.Dom.SubtreeInvalidation
import PinOp.Css.ScssExpansion
import PinOp.Css.ScssChains
import PinOp.Lib.Scan
import PinOp.Rules.RuleScanners
import PinOp.Css.TextPositions
import PinOp.Css.SourceMapLookup
import PinOp.Css.SourceMapCache
import PinOp.Rules.DirectDeclarations
import PinOp.Rules.ClickedDeclaration
import PinOp.Inspect.MatchedStylesProjection
import PinOp.Inspect.InspectPayload
import PinOp.Inspect.RowUnits
import PinOp.Inspect.MergedEvidence
import PinOp.Inspect.InspectEvidence
import PinOp.Lib.JoinedNames
import PinOp.Lib.PercentText
import PinOp.Workspace.CanonicalUri
import PinOp.Workspace.PathIdentity
import PinOp.Workspace.UriComparison
import PinOp.Viewport.MediaQueryViewport
import PinOp.Viewport.MediaFeature
import PinOp.Viewport.MediaPatterns
import PinOp.Viewport.MediaMatches
import PinOp.Viewport.ViewportBounds
import PinOp.Viewport.FeatureBounds
import PinOp.Viewport.MediaCondition
import PinOp.Php.PhpMarkup
import PinOp.Php.OpaqueBlocks
import PinOp.Php.OpaqueScan
import PinOp.Php.OpaqueMarkup
import PinOp.Php.PrintedMarkup
import PinOp.Php.MarkupParts
import PinOp.Php.MarkupTags
import PinOp.Php.MarkupForest
import PinOp.Php.MarkupRuns
import PinOp.Php.MarkupTree
