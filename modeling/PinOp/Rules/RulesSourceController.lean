import PinOp.Lib.Regex
import PinOp.Lib.Runs
import PinOp.Rules.DeclarationValuePosition
import PinOp.Rules.RulesSourcesPublication

/-!
# The controller of rules sources in the editor

`RulesSourceController` resolves the rules of the current inspect, sends the sources it found, and
opens one of them when asked to. Its code runs from one await to the next: what awaits is a task,
and a task goes on when what it awaits is there. Sending is not an await, but the receiver may call
the controller before it answers.

What the workspace, the documents and the editors say is given for each stretch of code, since they
may change at every await. `log` is not part of the source: it lists the calls and what they did,
the newest first.
-/

namespace PinOp.Rules

open PinOp.Lib PinOp.Protocol PinOp.Css
open PinOp.Browser (RulesLanguage RulesSourceConfidence RulesOpenDeclaration)

inductive RulesSourceFailureCode where
  | rulesSourceResolutionFailed
  | rulesSourcesSendFailed
  | rulesSourceOpenRejected
  | rulesSourceOpenStale
  | rulesSourceOpenFailed
  deriving DecidableEq, Repr

/-! ## What the controller asks for -/

/-- What does not change while the controller runs. -/
structure RulesSourceControllerHost where
  publication : PublicationHost
  canonicalRulesSourceUri : String → Option String
  pathname : String → Option String
  sha256 : String → String

structure RulesSourceSnapshot where
  uri : String
  text : String
  documentVersion : Option ℤ
  deriving DecidableEq, Repr

structure EditorView where
  documentUri : String
  uri : String
  version : ℤ

/-- What is answered at once during one stretch of code; `none` and `true` for `throws` are
exceptions. -/
structure Answers where
  isWorkspaceUri : String → Option Bool
  generationBefore : Option ℤ
  generationAfter : Option ℤ
  openThrows : Bool
  readThrows : String → Bool
  showThrows : Bool
  opened : DocumentView
  editor : EditorView
  setPrimaryCursorThrows : Bool
  revealRangeThrows : Bool

inductive Call where
  | acceptInspect (message : InspectMessage)
  | republish
  | openRule (message : RulesOpenMessage) (declaration : Option RulesOpenDeclaration)
  | dependencyChanged (uri : String)
  | workspaceChanged
  | stylesheetRefresh
  | pageRefresh
  | documentNavigated
  | disconnect
  | clear
  | dispose
  deriving DecidableEq, Repr

/-- How `sendRulesSources` goes: what it calls back, and whether it accepts the payload; `none` is
an exception. -/
structure Sending where
  openAuthorityIds : List String
  calls : List (Call × Answers)
  sent : Option Bool

/-! ## State -/

structure ResolutionTask where
  operation : ℕ
  inspect : InspectMessage
  abort : ℕ
  rulesGeneration : ℕ
  deriving DecidableEq, Repr

inductive RevalidationMoment where
  | beforeShow
  | afterShow
  deriving DecidableEq, Repr

/-- How far a revalidation got; the generation is `none` where it could not be read. -/
structure Revalidation where
  moment : RevalidationMoment
  valid : Bool
  generationBefore : Option ℤ
  deriving DecidableEq, Repr

/-- What an open awaits. -/
inductive OpenStage where
  | opening
  | reading (revalidation : Revalidation) (dependency : RuleSourceDependencySnapshot)
      (rest : List RuleSourceDependencySnapshot)
  | checked (moment : RevalidationMoment) (valid : Bool)
  | showing
  deriving DecidableEq, Repr

structure OpenRequest where
  openOperation : ℕ
  authority : StoredRuleOpenAuthority
  message : RulesOpenMessage
  declaration : Option RulesOpenDeclaration
  deriving DecidableEq

inductive Task where
  | resolution (task : ResolutionTask)
  | openRule (request : OpenRequest) (stage : OpenStage)
  deriving DecidableEq

/-- `ignored` is a change of a dependency that is not relevant; `opened` is an open that asks for
its document. -/
inductive LogEntry where
  | called (call : Call)
  | ignored (uri : String)
  | opened (request : OpenRequest)
  | sending (payload : RulesSourcesPublicationPayload)
  | answered (payload : RulesSourcesPublicationPayload) (accepted : Bool)
  | setPrimaryCursor (position : SourcePosition)
  | revealRange (range : SourceRange)
  | reported (code : RulesSourceFailureCode)
  deriving DecidableEq

/-- Abort controllers are numbered as they are created; `aborted` are those that were aborted. -/
structure RulesSourceController where
  registry : RulesOpenAuthorityRegistry
  currentInspect : Option InspectMessage
  resolutionAbort : Option ℕ
  operation : ℕ
  openOperation : ℕ
  rulesGeneration : ℕ
  locallyAcceptedInspectMessageId : Option String
  retainedDependencyUris : List String
  watchAllRulesCandidates : Bool
  disposed : Bool
  aborts : ℕ
  aborted : List ℕ
  tasks : List Task
  log : List LogEntry
  deriving DecidableEq

namespace RulesSourceController

def initial : RulesSourceController where
  registry := .empty
  currentInspect := none
  resolutionAbort := none
  operation := 0
  openOperation := 0
  rulesGeneration := 0
  locallyAcceptedInspectMessageId := none
  retainedDependencyUris := []
  watchAllRulesCandidates := false
  disposed := false
  aborts := 0
  aborted := []
  tasks := []
  log := []

/-! ## Parts of the operations -/

def maxRetainedDependencies : ℕ := Limits.rulesSources * 3

def report (c : RulesSourceController) (code : RulesSourceFailureCode) : RulesSourceController :=
  { c with log := .reported code :: c.log }

def await (c : RulesSourceController) (task : Task) : RulesSourceController :=
  { c with tasks := c.tasks ++ [task] }

def clearRetainedDependencies (c : RulesSourceController) : RulesSourceController :=
  { c with retainedDependencyUris := [], watchAllRulesCandidates := false }

def abortResolution (c : RulesSourceController) : RulesSourceController :=
  { c with aborted := c.resolutionAbort.toList ++ c.aborted }

def invalidateWithoutPublication (c : RulesSourceController) : RulesSourceController :=
  clearRetainedDependencies { c.abortResolution with
    resolutionAbort := none
    operation := c.operation + 1
    openOperation := c.openOperation + 1
    currentInspect := none
    locallyAcceptedInspectMessageId := none
    registry := c.registry.clear }

def isResolutionCurrent (c : RulesSourceController) (task : ResolutionTask) : Bool :=
  !c.disposed && !c.aborted.contains task.abort && task.operation = c.operation &&
    c.currentInspect.map InspectMessage.messageId = some task.inspect.messageId

def isOpenCurrent (c : RulesSourceController) (openOperation : ℕ) : Bool :=
  !c.disposed && openOperation = c.openOperation

/-- `resolveCurrent` up to where it awaits the resolver, which fails by rejecting. -/
def resolveCurrent (c : RulesSourceController) (clearRegistry : Bool) : RulesSourceController :=
  match c.currentInspect with
  | none => c
  | some inspect =>
    if c.disposed then c
    else if Limits.generation ≤ c.rulesGeneration then
      (c.report .rulesSourceResolutionFailed).invalidateWithoutPublication
    else
      let c := c.abortResolution
      let c := if clearRegistry then { c with registry := c.registry.clear } else c
      let abort := c.aborts
      let operation := c.operation + 1
      let c := { c with aborts := abort + 1, resolutionAbort := some abort, operation := operation }
      c.await (.resolution ⟨operation, inspect, abort, c.rulesGeneration + 1⟩)

def acceptInspect (c : RulesSourceController) (message : InspectMessage) : RulesSourceController :=
  if c.disposed then c
  else
    let c := { c with openOperation := c.openOperation + 1 }
    let c :=
      if c.currentInspect.map InspectMessage.messageId ≠ some message.messageId then
        clearRetainedDependencies
          { c with rulesGeneration := 0, locallyAcceptedInspectMessageId := none }
      else c
    resolveCurrent { c with currentInspect := some message } true

def replaceIfCurrent (c : RulesSourceController) (inspectMessageId : String)
    (failedGeneration : ℕ) : RulesSourceController :=
  if c.disposed ∨ c.currentInspect.map InspectMessage.messageId ≠ some inspectMessageId then c
  else if c.registry.active.any fun active =>
      active.inspectMessageId = inspectMessageId && failedGeneration < active.rulesGeneration then c
  else c.resolveCurrent true

def failOpen (c : RulesSourceController) (authority : StoredRuleOpenAuthority)
    (code : RulesSourceFailureCode) : RulesSourceController :=
  (c.report code).replaceIfCurrent authority.inspectMessageId authority.rulesGeneration

def readWorkspaceGeneration (generation : Option ℤ) : Option ℤ :=
  generation.filter validNonnegativeInteger

section Host

variable (host : RulesSourceControllerHost)

def canonicalUri (uri : String) : String := (host.canonicalRulesSourceUri uri).getD uri

/-- `/\.(?:…)$/i` on the path of a URL; where there is no URL the answer is no. -/
def hasExtension (extensions : List String) (uri : String) : Bool :=
  (host.pathname uri).any fun pathname =>
    extensions.any fun extension => (jsToLowerCase pathname).endsWith ("." ++ extension)

def sourceMapSiblings (uri : String) : List String :=
  if hasExtension host ["css"] uri then [uri ++ ".map"] else []

def isRulesDependencyCandidate (uri : String) : Bool := hasExtension host ["css", "scss", "map"] uri

/-- The inner loop; the walk ends where the first of `uris` finds no room. -/
def retainUris (c : RulesSourceController) : List String → RulesSourceController
  | [] => c
  | watched :: rest =>
    if maxRetainedDependencies ≤ c.retainedDependencyUris.length then
      { c with watchAllRulesCandidates := true }
    else
      let uri := canonicalUri host watched
      retainUris (if c.retainedDependencyUris.contains uri then c
        else { c with retainedDependencyUris := c.retainedDependencyUris ++ [uri] }) rest

def retainCurrentDependencies (c : RulesSourceController) : RulesSourceController :=
  retainUris host c (c.registry.dependencyUris.flatMap fun uri => uri :: sourceMapSiblings host uri)

def isDependencyRelevant (c : RulesSourceController) (uri : String) (answers : Answers) : Bool :=
  let canonical := canonicalUri host uri
  if c.retainedDependencyUris.contains canonical then true
  else if !c.watchAllRulesCandidates && c.resolutionAbort.isNone then false
  else (answers.isWorkspaceUri canonical).any fun known =>
    known && isRulesDependencyCandidate host canonical

/-! ## Opening a rule -/

def sameAuthority (left right : StoredRuleOpenAuthority) : Bool :=
  left.openAuthorityId = right.openAuthorityId && left.inspectMessageId = right.inspectMessageId &&
    left.rulesGeneration = right.rulesGeneration

def sameOpenedDocument (document : DocumentView) (authority : StoredRuleOpenAuthority) : Bool :=
  canonicalUri host document.uri = canonicalUri host authority.documentUri &&
    document.version = authority.documentVersion

def sameEditorDocument (editor : EditorView) (authority : StoredRuleOpenAuthority) : Bool :=
  canonicalUri host editor.documentUri = canonicalUri host authority.documentUri &&
    canonicalUri host editor.uri = canonicalUri host authority.documentUri &&
    editor.version = authority.documentVersion

def validDocumentRange (document : DocumentView) (range : SourceRange) : Bool :=
  match document.offsetAt range.start, document.offsetAt range.stop with
  | some startOffset, some endOffset =>
    startOffset < endOffset && document.positionAt startOffset = some range.start &&
      document.positionAt endOffset = some range.stop
  | _, _ => false

def tupleOf (message : RulesOpenMessage) : RuleOpenAuthorityTuple :=
  ⟨message.inspectMessageId, message.rulesGeneration, message.openAuthorityId⟩

/-- The end of `open`. -/
def placeCursor (c : RulesSourceController) (request : OpenRequest) (answers : Answers) :
    RulesSourceController :=
  let authority := request.authority
  let valuePosition :=
    match request.declaration with
    | none => some none
    | some declaration => answers.opened.declarationValuePosition authority.range declaration
  match valuePosition with
  | none => c
  | some valuePosition =>
    if !c.isOpenCurrent request.openOperation then c
    else
      let c := { c with log := .setPrimaryCursor (valuePosition.getD authority.range.start) :: c.log }
      if answers.setPrimaryCursorThrows then
        if !c.isOpenCurrent request.openOperation then c
        else c.failOpen authority .rulesSourceOpenFailed
      else if !c.isOpenCurrent request.openOperation then c
      else
        let range := (valuePosition.map fun position => ⟨position, position⟩).getD authority.range
        let c := { c with log := .revealRange range :: c.log }
        if answers.revealRangeThrows then
          if !c.isOpenCurrent request.openOperation then c
          else c.failOpen authority .rulesSourceOpenFailed
        else c

def showDocument (c : RulesSourceController) (request : OpenRequest) (answers : Answers) :
    RulesSourceController :=
  if answers.showThrows then
    if !c.isOpenCurrent request.openOperation then c
    else c.failOpen request.authority .rulesSourceOpenFailed
  else c.await (.openRule request .showing)

/-- `open` behind a revalidation that it awaited. -/
def revalidated (c : RulesSourceController) (request : OpenRequest) (answers : Answers)
    (moment : RevalidationMoment) (valid : Bool) : RulesSourceController :=
  if !c.isOpenCurrent request.openOperation then c
  else
    match moment with
    | .beforeShow =>
      if valid then c.showDocument request answers
      else c.failOpen request.authority .rulesSourceOpenStale
    | .afterShow =>
      if !valid || !sameEditorDocument host answers.editor request.authority then
        c.failOpen request.authority .rulesSourceOpenStale
      else c.placeCursor request answers

/-- `revalidate` behind its loop. -/
def finishRevalidation (c : RulesSourceController) (request : OpenRequest) (answers : Answers)
    (revalidation : Revalidation) : RulesSourceController :=
  let authority := request.authority
  let generationAfter := readWorkspaceGeneration answers.generationAfter
  let currentAuthority := c.registry.authorize (tupleOf request.message)
  if !c.isOpenCurrent request.openOperation then c
  else
    c.await (.openRule request (.checked revalidation.moment
      (revalidation.valid && generationAfter.isSome &&
        currentAuthority.any (fun current => sameAuthority current authority) &&
        revalidation.generationBefore = some authority.workspaceGeneration &&
        generationAfter = some authority.workspaceGeneration &&
        sameOpenedDocument host answers.opened authority &&
        validDocumentRange answers.opened authority.range)))

/-- The loop of `revalidate`, up to the next read. -/
def revalidateFrom (c : RulesSourceController) (request : OpenRequest) (answers : Answers)
    (revalidation : Revalidation) : List RuleSourceDependencySnapshot → RulesSourceController
  | [] => c.finishRevalidation host request answers revalidation
  | dependency :: rest =>
    match answers.isWorkspaceUri dependency.uri with
    | none => c
    | some known =>
      let revalidation := { revalidation with valid := revalidation.valid && known }
      if answers.readThrows dependency.uri then
        if !c.isOpenCurrent request.openOperation then c
        else c.revalidateFrom request answers { revalidation with valid := false } rest
      else c.await (.openRule request (.reading revalidation dependency rest))

def revalidate (c : RulesSourceController) (request : OpenRequest) (answers : Answers)
    (moment : RevalidationMoment) : RulesSourceController :=
  if !c.isOpenCurrent request.openOperation then c
  else
    let generationBefore := readWorkspaceGeneration answers.generationBefore
    c.revalidateFrom host request answers ⟨moment, generationBefore.isSome, generationBefore⟩
      request.authority.dependencies

def snapshotAgrees (snapshot : RulesSourceSnapshot) (dependency : RuleSourceDependencySnapshot) : Bool :=
  canonicalUri host snapshot.uri = canonicalUri host dependency.uri &&
    host.sha256 snapshot.text = dependency.contentHash &&
    (dependency.documentVersion.isNone || snapshot.documentVersion = dependency.documentVersion)

/-- What an open awaited; the document and the editor are seen through the answers. -/
inductive OpenOutcome where
  | rejected
  | done
  | snapshot (snapshot : RulesSourceSnapshot)
  deriving DecidableEq, Repr

def continueOpen (c : RulesSourceController) (request : OpenRequest) (answers : Answers) :
    OpenStage → OpenOutcome → RulesSourceController
  | .opening, .rejected | .showing, .rejected =>
    if !c.isOpenCurrent request.openOperation then c
    else c.failOpen request.authority .rulesSourceOpenFailed
  | .opening, _ =>
    if !c.isOpenCurrent request.openOperation then c
    else c.revalidate host request answers .beforeShow
  | .showing, _ =>
    if !c.isOpenCurrent request.openOperation then c
    else c.revalidate host request answers .afterShow
  | .checked moment valid, _ => c.revalidated host request answers moment valid
  | .reading revalidation dependency rest, outcome =>
    if !c.isOpenCurrent request.openOperation then c
    else
      match outcome with
      | .snapshot snapshot =>
        c.revalidateFrom host request answers
          { revalidation with
            valid := revalidation.valid && snapshotAgrees host snapshot dependency } rest
      | _ => c.revalidateFrom host request answers { revalidation with valid := false } rest

def openRule (c : RulesSourceController) (message : RulesOpenMessage)
    (declaration : Option RulesOpenDeclaration) (answers : Answers) : RulesSourceController :=
  if c.disposed then c
  else
    let openOperation := c.openOperation + 1
    let c := { c with openOperation := openOperation }
    if c.currentInspect.map InspectMessage.messageId ≠ some message.inspectMessageId then
      c.invalidateWithoutPublication
    else if !c.registry.active.any fun active =>
        active.inspectMessageId = message.inspectMessageId &&
          active.rulesGeneration = message.rulesGeneration then
      (c.report .rulesSourceOpenRejected).invalidateWithoutPublication
    else
      match c.registry.authorize (tupleOf message) with
      | none =>
        (c.report .rulesSourceOpenRejected).replaceIfCurrent message.inspectMessageId
          message.rulesGeneration
      | some authority =>
        match answers.isWorkspaceUri authority.documentUri with
        | none => c
        | some false => c.failOpen authority .rulesSourceOpenStale
        | some true =>
          let request : OpenRequest := ⟨openOperation, authority, message, declaration⟩
          let c := { c with log := .opened request :: c.log }
          if answers.openThrows then c.continueOpen host request answers .opening .rejected
          else c.await (.openRule request .opening)

/-! ## Calls -/

def resolveAgain (c : RulesSourceController) : RulesSourceController :=
  resolveCurrent { c with openOperation := c.openOperation + 1 } true

def run (c : RulesSourceController) (answers : Answers) : Call → RulesSourceController
  | .acceptInspect message => c.acceptInspect message
  | .republish => c.resolveCurrent false
  | .openRule message declaration => c.openRule host message declaration answers
  | .dependencyChanged uri => if c.isDependencyRelevant host uri answers then c.resolveAgain else c
  | .workspaceChanged | .stylesheetRefresh | .pageRefresh => c.resolveAgain
  | .documentNavigated | .disconnect | .clear => c.invalidateWithoutPublication
  | .dispose =>
    if c.disposed then c else invalidateWithoutPublication { c with disposed := true }

def entryOf (c : RulesSourceController) (answers : Answers) : Call → LogEntry
  | .dependencyChanged uri =>
    if c.isDependencyRelevant host uri answers then .called (.dependencyChanged uri)
    else .ignored uri
  | call => .called call

def perform (c : RulesSourceController) (call : Call × Answers) : RulesSourceController :=
  run host { c with log := c.entryOf host call.2 call.1 :: c.log } call.2 call.1

/-! ## Publishing -/

def unresolvedResolution (message : InspectMessage) : RulesSourceResolutionBatch where
  selectionMessageId := message.messageId
  results := (RulesSourcesPublication.orderedUniqueRuleRefs message.ruleEvidence).map fun ruleRef =>
    .unresolved ruleRef "resolution-failed"

/-- Errors are caught: a newer operation already owns the registry. -/
def settleSupersededPublication (c : RulesSourceController) (prepared : ℕ) (locallyAccepted : Bool)
    (inspectMessageId : String) : RulesSourceController :=
  if locallyAccepted then
    match c.registry.commit prepared with
    | (.error _, registry) => { c with registry := registry }
    | (.ok (), registry) =>
      let c := { c with registry := registry }
      if c.currentInspect.map InspectMessage.messageId = some inspectMessageId then
        retainCurrentDependencies host
          { c with locallyAcceptedInspectMessageId := some inspectMessageId }
      else c
  else { c with registry := (c.registry.rollback prepared).2 }

/-- The `catch` around activating, sending and committing. -/
def publicationFailed (c : RulesSourceController) (task : ResolutionTask) (prepared : ℕ)
    (activated : Bool) : RulesSourceController :=
  if !c.isResolutionCurrent task then
    if activated then c.settleSupersededPublication host prepared false task.inspect.messageId else c
  else
    let registry :=
      if activated then
        match c.registry.rollback prepared with
        | (.ok (), registry) => registry
        | (.error _, registry) => registry.clear
      else c.registry
    let c := report { c with registry := registry } .rulesSourcesSendFailed
    if !c.isResolutionCurrent task then c
    else if c.locallyAcceptedInspectMessageId ≠ some task.inspect.messageId ∧
        c.registry.active.isNone then
      c.invalidateWithoutPublication
    else c

/-- The publication was active while it was sent; `none` for `sent` is an exception. -/
def sentRulesSources (c : RulesSourceController) (task : ResolutionTask) (prepared : ℕ)
    (sent : Option Bool) : RulesSourceController :=
  match sent with
  | none => c.publicationFailed host task prepared true
  | some sent =>
    if !c.isResolutionCurrent task then
      c.settleSupersededPublication host prepared sent task.inspect.messageId
    else if !sent then c.publicationFailed host task prepared true
    else
      match c.registry.commit prepared with
      | (.error _, registry) =>
        publicationFailed host { c with registry := registry } task prepared true
      | (.ok (), registry) =>
        retainCurrentDependencies host { c with
          registry := registry
          locallyAcceptedInspectMessageId := some task.inspect.messageId }

/-- `sendRulesSources` with what it calls back. -/
def sendRulesSources (c : RulesSourceController) (payload : RulesSourcesPublicationPayload)
    (sending : Sending) : RulesSourceController :=
  let c := sending.calls.foldl (perform host) { c with log := .sending payload :: c.log }
  { c with log := .answered payload (sending.sent = some true) :: c.log }

def publish (c : RulesSourceController) (task : ResolutionTask)
    (prepared : RulesSourcesPublication.PreparedRulesSourcesPublication) (sending : Sending) :
    RulesSourceController :=
  match c.registry.activate prepared.preparation with
  | (.error _, registry) =>
    publicationFailed host { c with registry := registry } task prepared.preparation false
  | (.ok (), registry) =>
    let c := sendRulesSources host { c with registry := registry } prepared.payload sending
    c.sentRulesSources host task prepared.preparation sending.sent

def preparePublication (c : RulesSourceController) (task : ResolutionTask)
    (resolution : RulesSourceResolutionBatch) (workspaceGeneration : ℤ) (sending : Sending) :
    RulesSourceController :=
  let c := { c with rulesGeneration := task.rulesGeneration }
  match RulesSourcesPublication.prepare host.publication c.registry {
      inspectMessageId := task.inspect.messageId
      rulesGeneration := task.rulesGeneration
      ruleEvidence := task.inspect.ruleEvidence
      resolution := resolution
      workspaceGeneration := workspaceGeneration
    } sending.openAuthorityIds with
  | .error _ =>
    let c := c.report .rulesSourceResolutionFailed
    if !c.isResolutionCurrent task then c
    else if c.locallyAcceptedInspectMessageId ≠ some task.inspect.messageId then
      c.invalidateWithoutPublication
    else c
  | .ok (prepared, registry) =>
    let c := { c with registry := registry }
    if !c.isResolutionCurrent task then
      { c with registry := (c.registry.rollback prepared.preparation).2 }
    else c.publish host task prepared sending

/-- The `finally` of `resolveCurrent`. -/
def endResolution (c : RulesSourceController) (task : ResolutionTask) : RulesSourceController :=
  if c.resolutionAbort = some task.abort then { c with resolutionAbort := none } else c

def publishResolution (c : RulesSourceController) (task : ResolutionTask)
    (resolution : Option RulesSourceResolutionBatch) (answers : Answers) (sending : Sending) :
    RulesSourceController :=
  if !c.isResolutionCurrent task then c
  else
    let c := if resolution.isNone then c.report .rulesSourceResolutionFailed else c
    let resolution := resolution.getD (unresolvedResolution task.inspect)
    match readWorkspaceGeneration answers.generationBefore with
    | some workspaceGeneration =>
      c.preparePublication host task resolution workspaceGeneration sending
    | none =>
      (c.report .rulesSourceResolutionFailed).preparePublication host task
        (unresolvedResolution task.inspect) 0 sending

/-- `resolveCurrent` behind its await; `none` for the resolution is a rejection. -/
def continueResolution (c : RulesSourceController) (task : ResolutionTask)
    (resolution : Option RulesSourceResolutionBatch) (answers : Answers) (sending : Sending) :
    RulesSourceController :=
  (c.publishResolution host task resolution answers sending).endResolution task

/-! ## Runs -/

inductive Event where
  | call (call : Call) (answers : Answers)
  | resolved (task : ResolutionTask) (resolution : Option RulesSourceResolutionBatch)
      (answers : Answers) (sending : Sending)
  | continued (request : OpenRequest) (stage : OpenStage) (outcome : OpenOutcome)
      (answers : Answers)

def drop (c : RulesSourceController) (task : Task) : RulesSourceController :=
  { c with tasks := c.tasks.erase task }

/-- One stretch of code; only what awaits can go on. -/
def step (c : RulesSourceController) : Event → Option RulesSourceController
  | .call call answers => some (c.perform host (call, answers))
  | .resolved task resolution answers sending =>
    if .resolution task ∈ c.tasks then
      some ((c.drop (.resolution task)).continueResolution host task resolution answers sending)
    else none
  | .continued request stage outcome answers =>
    if .openRule request stage ∈ c.tasks then
      some ((c.drop (.openRule request stage)).continueOpen host request answers stage outcome)
    else none

end Host

def Step (host : RulesSourceControllerHost) (c : RulesSourceController) (e : Event)
    (c' : RulesSourceController) : Prop := c.step host e = some c'

end RulesSourceController

end PinOp.Rules
