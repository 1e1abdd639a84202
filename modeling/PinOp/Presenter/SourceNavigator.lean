import PinOp.Lib.OrderedMap
import PinOp.Lib.Runs
import PinOp.Presenter.SourceMatch

/-!
# Previous and next match

`SourceNavigator` walks through the selected ranges of the document that is shown. Ranges may
share their start, so the range that was gone to last is kept beside the cursor. A state of
`Navigation` is the navigator with its host: the active editor, its primary cursor, the ranges
that were revealed and the states that were sent, each newest last.
-/

namespace PinOp.Presenter

open PinOp.Lib
open PinOp.Css (SourcePosition SourceRange)

inductive NavigationDirection where
  | previous
  | next
  deriving DecidableEq, Repr

structure SourceNavigateMessage where
  inspectMessageId : String
  resolutionGeneration : ℕ
  direction : NavigationDirection
  deriving DecidableEq, Repr

structure SourceNavigationIncludedMatch where
  matchId : String
  targetRole : SourceTargetRole
  range : SourceRange
  deriving DecidableEq

structure SourceNavigationResolution where
  inspectMessageId : String
  resolutionGeneration : ℕ
  documentUri : Option String
  «matches» : List ResolvedSourceMatch
  includedMatches : Option (List SourceNavigationIncludedMatch)
  deriving DecidableEq

structure SourceNavigationInvalidation where
  inspectMessageId : String
  resolutionGeneration : ℕ
  deriving DecidableEq, Repr

structure PreferredNavigationTarget where
  inspectMessageId : String
  resolutionGeneration : ℕ
  documentUri : String
  index : ℕ
  range : SourceRange
  deriving DecidableEq

structure SourceNavigationState where
  inspectMessageId : String
  resolutionGeneration : ℕ
  selectedMatchCount : ℕ
  activeMatchIndex : Option ℕ
  activeMatchId : Option String
  deriving DecidableEq, Repr

structure SourceNavigator where
  inspectMessageId : Option String
  resolutionGeneration : ℕ
  documentUri : Option String
  ranges : List SourceRange
  «matches» : List ResolvedSourceMatch
  includedMatches : List SourceNavigationIncludedMatch
  preferredTarget : Option PreferredNavigationTarget
  disposed : Bool
  deriving DecidableEq

/-! ## Ranges -/

abbrev RangeKey := String × ℤ × ℤ × ℤ × ℤ

def rangeKey (documentUri : String) (range : SourceRange) : RangeKey :=
  (documentUri, range.start.line, range.start.character, range.stop.line, range.stop.character)

def uniqueRanges (documentUri : String) («matches» : List ResolvedSourceMatch) :
    OrderedMap RangeKey SourceRange :=
  «matches».foldl (fun unique «match» =>
    if «match».targetRole ≠ .selected then unique
    else
      let key := rangeKey documentUri «match».range
      if unique.has key then unique else unique.set key «match».range) ∅

def selectedRanges (documentUri : String) («matches» : List ResolvedSourceMatch) :
    List SourceRange :=
  ((uniqueRanges documentUri «matches»).entries.map Prod.snd).mergeSort
    fun left right => compareRanges left right ≤ 0

def contains (range : SourceRange) (cursor : SourcePosition) : Bool :=
  comparePositions range.start cursor ≤ 0 ∧ comparePositions cursor range.stop < 0

def containingRangeIndex (ranges : List SourceRange) (cursor : SourcePosition) : Option ℕ :=
  ranges.findIdx? fun range => contains range cursor

def outsideTargetIndex (ranges : List SourceRange) (cursor : SourcePosition) :
    NavigationDirection → ℕ
  | .next => (ranges.findIdx? fun range => 0 < comparePositions range.start cursor).getD 0
  | .previous =>
    ((List.range ranges.length).reverse.find? fun index =>
      (ranges[index]?).any fun range => comparePositions range.stop cursor ≤ 0).getD
        (ranges.length - 1)

def adjacentIndex (activeIndex rangeCount : ℕ) : NavigationDirection → ℕ
  | .next => (activeIndex + 1) % rangeCount
  | .previous => (activeIndex + rangeCount - 1) % rangeCount

def includedKey (targetRole : SourceTargetRole) (range : SourceRange) :
    SourceTargetRole × RangeKey :=
  (targetRole, rangeKey "" range)

/-- The entries that stand for a match; of those with one id the first. -/
def currentIncludedMatches («matches» : List ResolvedSourceMatch)
    (included : List SourceNavigationIncludedMatch) : List SourceNavigationIncludedMatch :=
  let currentRanges := «matches».map fun «match» => includedKey «match».targetRole «match».range
  (included.foldl (fun (seen : List String × List SourceNavigationIncludedMatch) entry =>
    if seen.1.contains entry.matchId then seen
    else if currentRanges.contains (includedKey entry.targetRole entry.range) then
      (entry.matchId :: seen.1, seen.2 ++ [entry])
    else seen) ([], [])).2

def activeIncludedMatchId («matches» : List SourceNavigationIncludedMatch)
    (selectedRanges : List SourceRange) (activeMatchIndex : Option ℕ) (cursor : SourcePosition) :
    Option String :=
  match activeMatchIndex with
  | some index =>
    match selectedRanges[index]? with
    | none => none
    | some activeRange =>
      («matches».find? fun «match» =>
        «match».targetRole = .selected && sameRange «match».range activeRange).map
          SourceNavigationIncludedMatch.matchId
  | none =>
    («matches».find? fun «match» =>
      «match».targetRole = .parent && contains «match».range cursor).map
        SourceNavigationIncludedMatch.matchId

/-! ## The navigator and its host -/

structure NavigationHost where
  activeEditor : Option String
  primaryCursor : SourcePosition
  revealed : List SourceRange
  sent : List SourceNavigationState
  deriving DecidableEq

structure Navigation where
  navigator : SourceNavigator
  host : NavigationHost
  deriving DecidableEq

/-- What the host makes of a navigation. An editor may tell of its new cursor before
`setPrimaryCursor` returns. -/
inductive HostAnswer where
  | done (notified : Bool)
  | cursorRefused
  | revealRefused (notified : Bool)
  deriving DecidableEq, Repr

namespace SourceNavigator

def empty : SourceNavigator := ⟨none, 0, none, [], [], [], none, false⟩

/-- The remembered target is still the one the cursor stands at. -/
def isPreferred (n : SourceNavigator) (preferred : PreferredNavigationTarget) (editor : String)
    (cursor : SourcePosition) : Bool :=
  some preferred.inspectMessageId = n.inspectMessageId &&
    preferred.resolutionGeneration = n.resolutionGeneration &&
    some preferred.documentUri = n.documentUri && preferred.documentUri = editor &&
    samePosition cursor preferred.range.start &&
    (n.ranges[preferred.index]?).any fun currentRange => sameRange currentRange preferred.range

def activeRangeIndex (n : SourceNavigator) (editor : String) (cursor : SourcePosition) :
    Option ℕ × SourceNavigator :=
  match n.preferredTarget with
  | some preferred =>
    if n.isPreferred preferred editor cursor then (some preferred.index, n)
    else (containingRangeIndex n.ranges cursor, { n with preferredTarget := none })
  | none => (containingRangeIndex n.ranges cursor, n)

end SourceNavigator

namespace Navigation

def publishState (s : Navigation) : Navigation :=
  if s.navigator.disposed then s
  else
    match s.navigator.inspectMessageId with
    | none => s
    | some inspectMessageId =>
      match s.host.activeEditor.filter fun editor => s.navigator.documentUri = some editor with
      | some editor =>
        let (activeMatchIndex, navigator) :=
          s.navigator.activeRangeIndex editor s.host.primaryCursor
        let state : SourceNavigationState := {
          inspectMessageId := inspectMessageId
          resolutionGeneration := navigator.resolutionGeneration
          selectedMatchCount := navigator.ranges.length
          activeMatchIndex := activeMatchIndex
          activeMatchId := activeIncludedMatchId navigator.includedMatches navigator.ranges
            activeMatchIndex s.host.primaryCursor
        }
        { navigator := navigator, host := { s.host with sent := s.host.sent ++ [state] } }
      | none =>
        let state : SourceNavigationState := {
          inspectMessageId := inspectMessageId
          resolutionGeneration := s.navigator.resolutionGeneration
          selectedMatchCount := 0
          activeMatchIndex := none
          activeMatchId := none
        }
        { navigator := { s.navigator with preferredTarget := none }
          host := { s.host with sent := s.host.sent ++ [state] } }

/-- A document URI that is empty counts as none. -/
def update (s : Navigation) (resolution : SourceNavigationResolution) : Navigation :=
  if s.navigator.disposed then s
  else
    let document := resolution.documentUri.filter fun uri => uri ≠ ""
    publishState { s with navigator := {
      inspectMessageId := some resolution.inspectMessageId
      resolutionGeneration := resolution.resolutionGeneration
      documentUri := resolution.documentUri
      «matches» := if document.isSome then resolution.matches else []
      ranges := (document.map fun uri => selectedRanges uri resolution.matches).getD []
      includedMatches := if document.isSome then
          currentIncludedMatches resolution.matches (resolution.includedMatches.getD [])
        else []
      preferredTarget := none
      disposed := s.navigator.disposed } }

def setIncludedMatches (s : Navigation) (includedMatches : List SourceNavigationIncludedMatch)
    (publish : Bool) : Navigation :=
  if s.navigator.disposed then s
  else
    let s := { s with navigator := { s.navigator with
      includedMatches := currentIncludedMatches s.navigator.matches includedMatches } }
    if publish then s.publishState else s

/-- The cursor is set; an editor that tells so at once has the state published. -/
def setPrimaryCursor (s : Navigation) (position : SourcePosition) (notified : Bool) : Navigation :=
  let s := { s with host := { s.host with primaryCursor := position } }
  if notified then s.publishState else s

def revealRange (s : Navigation) (range : SourceRange) : Navigation :=
  { s with host := { s.host with revealed := s.host.revealed ++ [range] } }

/-- The index `navigate` goes to, and the navigator that has looked for it. -/
def target (s : Navigation) (editor : String) (direction : NavigationDirection) :
    ℕ × SourceNavigator :=
  let (activeIndex, navigator) := s.navigator.activeRangeIndex editor s.host.primaryCursor
  match activeIndex with
  | none => (outsideTargetIndex navigator.ranges s.host.primaryCursor direction, navigator)
  | some activeIndex => (adjacentIndex activeIndex navigator.ranges.length direction, navigator)

def navigate (s : Navigation) (message : SourceNavigateMessage) (answer : HostAnswer) :
    Navigation :=
  match s.navigator.documentUri.filter fun uri => uri ≠ "" with
  | none => s
  | some documentUri =>
    if s.navigator.disposed ∨ some message.inspectMessageId ≠ s.navigator.inspectMessageId ∨
        message.resolutionGeneration ≠ s.navigator.resolutionGeneration ∨
        s.navigator.ranges.length = 0 then s
    else
      match s.host.activeEditor.filter fun editor => editor = documentUri with
      | none => { s with navigator := { s.navigator with preferredTarget := none } }
      | some editor =>
        let (targetIndex, navigator) := s.target editor message.direction
        match navigator.ranges[targetIndex]? with
        | none => { s with navigator := navigator }
        | some range =>
          let preferred : PreferredNavigationTarget := {
            inspectMessageId := message.inspectMessageId
            resolutionGeneration := navigator.resolutionGeneration
            documentUri := documentUri
            index := targetIndex
            range := range
          }
          let s := { s with navigator := { navigator with preferredTarget := some preferred } }
          match answer with
          | .cursorRefused => { s with navigator := { s.navigator with preferredTarget := none } }
          | .revealRefused notified => s.setPrimaryCursor range.start notified
          | .done notified =>
            ((s.setPrimaryCursor range.start notified).revealRange range).publishState

def beginInspect (s : Navigation) (inspectMessageId : String) (publish : Bool) : Navigation :=
  if s.navigator.disposed then s
  else
    let s := { s with navigator := { SourceNavigator.empty with
      inspectMessageId := some inspectMessageId } }
    if publish then s.publishState else s

def invalidate (s : Navigation) (invalidation : Option SourceNavigationInvalidation) : Navigation :=
  if s.navigator.disposed then s
  else
    publishState { s with navigator := { SourceNavigator.empty with
      inspectMessageId := match invalidation with
        | some invalidation => some invalidation.inspectMessageId
        | none => s.navigator.inspectMessageId
      resolutionGeneration := match invalidation with
        | some invalidation => invalidation.resolutionGeneration
        | none => s.navigator.resolutionGeneration } }

def dispose (s : Navigation) : Navigation :=
  { s with navigator := { s.navigator with
    disposed := true
    preferredTarget := none
    «matches» := []
    includedMatches := [] } }

/-- A call of the navigator, or a change of what its host shows. -/
inductive Event where
  | update (resolution : SourceNavigationResolution)
  | setIncludedMatches (includedMatches : List SourceNavigationIncludedMatch) (publish : Bool)
  | navigate (message : SourceNavigateMessage) (answer : HostAnswer)
  | beginInspect (inspectMessageId : String) (publish : Bool)
  | invalidate (invalidation : Option SourceNavigationInvalidation)
  | dispose
  | cursorChanged (position : SourcePosition)
  | editorChanged (editor : Option String) (cursor : SourcePosition)
  deriving DecidableEq

def perform (s : Navigation) : Event → Navigation
  | .update resolution => s.update resolution
  | .setIncludedMatches includedMatches publish => s.setIncludedMatches includedMatches publish
  | .navigate message answer => s.navigate message answer
  | .beginInspect inspectMessageId publish => s.beginInspect inspectMessageId publish
  | .invalidate invalidation => s.invalidate invalidation
  | .dispose => s.dispose
  | .cursorChanged position => s.setPrimaryCursor position true
  | .editorChanged editor cursor =>
    let host := { s.host with activeEditor := editor, primaryCursor := cursor }
    invalidate { s with host := host } none

def Step (s : Navigation) (e : Event) (s' : Navigation) : Prop := s' = s.perform e

end Navigation

end PinOp.Presenter
