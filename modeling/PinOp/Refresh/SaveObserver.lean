import Mathlib.Algebra.Order.Ring.Rat
import Mathlib.Data.Finset.Basic
import Mathlib.Tactic.Linarith
import PinOp.Lib.Regex
import PinOp.Lib.Runs
import PinOp.Protocol.Messages

/-!
# The observer of saves

`SaveObserver` collects the saves of documents that were changed, and publishes one refresh for a
burst of them when it has settled. The output of a preprocessor is waited for: a save of its source
opens a window of two seconds, and a CSS file that is written in it settles the burst anew.

Times are in milliseconds. The live timers of the host are part of the state, and so are its clock
and what was published, the newest first.
-/

namespace PinOp.Refresh

open PinOp.Lib
open PinOp.Protocol (PageRefreshMode)

def directSettleMs : ℚ := 150

def preprocessorQuietMs : ℚ := 750

def preprocessorMaxMs : ℚ := 2000

def preprocessorSuffixes : List String := [".scss", ".sass", ".less"]

inductive PendingStylesCause where
  | save
  | generated
  deriving DecidableEq, Repr

/-- A live timer of the host. -/
structure Timer where
  id : ℕ
  due : ℚ
  deriving DecidableEq

structure SaveObserver where
  dirtyUris : Finset String
  timer : Option ℕ
  pendingMode : Option PageRefreshMode
  pendingStylesCause : Option PendingStylesCause
  preprocessorDeadline : Option ℚ
  retainPreprocessorWindow : Bool
  disposed : Bool
  clock : ℚ
  timers : List Timer
  timersCreated : ℕ
  published : List PageRefreshMode
  deriving DecidableEq

def strongerMode (current : Option PageRefreshMode) (candidate : PageRefreshMode) :
    PageRefreshMode :=
  if current = some .reload ∨ candidate = .reload then .reload else .styles

/-- `pathname` is the path of a URL, as the platform parses it; `none` is an exception. -/
def isPreprocessorUri (pathname : String → Option String) (uri : String) : Bool :=
  (pathname uri).any fun pathname =>
    preprocessorSuffixes.any fun suffix => (jsToLowerCase pathname).endsWith suffix

namespace SaveObserver

def initial (clock : ℚ) : SaveObserver where
  dirtyUris := ∅
  timer := none
  pendingMode := none
  pendingStylesCause := none
  preprocessorDeadline := none
  retainPreprocessorWindow := false
  disposed := false
  clock := clock
  timers := []
  timersCreated := 0
  published := []

def cancelTimer (o : SaveObserver) : SaveObserver :=
  match o.timer with
  | none => o
  | some id => { o with timers := o.timers.filter fun timer => timer.id ≠ id }

def schedule (o : SaveObserver) (delay : ℚ) : SaveObserver :=
  let o := o.cancelTimer
  { o with
    timer := some o.timersCreated
    timers := o.timers ++ [⟨o.timersCreated, o.clock + delay⟩]
    timersCreated := o.timersCreated + 1 }

def onDidChangeTextDocument (o : SaveObserver) (uri : String) (contentChanges : ℕ) : SaveObserver :=
  if o.disposed then o
  else if 0 < contentChanges then { o with dirtyUris := insert uri o.dirtyUris }
  else o

/-- The rest of a save that counts. -/
def saveClassified (o : SaveObserver) (mode : PageRefreshMode) (preprocessor : Bool) :
    SaveObserver :=
  let o := { o with pendingMode := some (strongerMode o.pendingMode mode) }
  let now := o.clock
  let o :=
    if preprocessor then
      { o with preprocessorDeadline := some (o.preprocessorDeadline.getD (now + preprocessorMaxMs)) }
    else o
  let (o, settleMs) :=
    if o.pendingMode = some .reload then
      ({ o with
        pendingStylesCause := none
        retainPreprocessorWindow := o.preprocessorDeadline.isSome }, directSettleMs)
    else if preprocessor then ({ o with pendingStylesCause := some .save }, preprocessorQuietMs)
    else ({ o with pendingStylesCause := some (o.pendingStylesCause.getD .save) }, directSettleMs)
  let settleMs :=
    match o.preprocessorDeadline with
    | some deadline =>
      if o.pendingMode = some .styles then min settleMs (max 0 (deadline - now)) else settleMs
    | none => settleMs
  o.schedule settleMs

/-- `mode` is what the classifiers answer for the document. -/
def onDidSaveTextDocument (pathname : String → Option String) (o : SaveObserver) (uri : String)
    (mode : Option PageRefreshMode) : SaveObserver :=
  if o.disposed then o
  else if uri ∉ o.dirtyUris then o
  else
    let o := { o with dirtyUris := o.dirtyUris.erase uri }
    match mode with
    | none => o
    | some mode => o.saveClassified mode (isPreprocessorUri pathname uri)

def onDidCloseTextDocument (o : SaveObserver) (uri : String) : SaveObserver :=
  if o.disposed then o else { o with dirtyUris := o.dirtyUris.erase uri }

def onDidGeneratedCssFileEvent (o : SaveObserver) : SaveObserver :=
  if o.disposed then o
  else
    match o.preprocessorDeadline with
    | none => o
    | some deadline =>
      if o.pendingMode = some .reload then o
      else if o.pendingMode.isNone && !o.retainPreprocessorWindow then o
      else
        let remaining := deadline - o.clock
        if remaining ≤ 0 then o
        else
          schedule { o with
            pendingMode := some .styles
            pendingStylesCause := some .generated } (min directSettleMs remaining)

def dispose (o : SaveObserver) : SaveObserver :=
  if o.disposed then o
  else { o.cancelTimer with
    disposed := true
    timer := none
    pendingMode := none
    pendingStylesCause := none
    preprocessorDeadline := none
    retainPreprocessorWindow := false
    dirtyUris := ∅ }

/-- The window of a preprocessor stays open behind this publish. -/
def staysOpen (o : SaveObserver) (deadline : ℚ) : Bool :=
  o.retainPreprocessorWindow && o.clock < deadline &&
    (o.pendingMode = some .reload ||
      o.pendingMode = some .styles && o.pendingStylesCause = some .save)

/-- The callback of the timer. -/
def onTimer (o : SaveObserver) : SaveObserver :=
  let settled := { o with timer := none, pendingMode := none, pendingStylesCause := none }
  let closed := { settled with preprocessorDeadline := none, retainPreprocessorWindow := false }
  let next :=
    match o.preprocessorDeadline with
    | some deadline => if o.staysOpen deadline then settled.schedule (deadline - o.clock) else closed
    | none => closed
  { next with published := o.pendingMode.toList ++ next.published }

/-! ## Runs -/

inductive Event where
  | change (uri : String) (contentChanges : ℕ)
  | save (uri : String) (mode : Option PageRefreshMode)
  | close (uri : String)
  | generatedCss
  | dispose
  | timerFired (id : ℕ)
  deriving DecidableEq

/-- An event with the reading of the clock. -/
structure Moment where
  now : ℚ
  event : Event
  deriving DecidableEq

/-- The host drops a timer when it fires it, which it does when it is due. -/
def react (pathname : String → Option String) (o : SaveObserver) : Event → Option SaveObserver
  | .change uri contentChanges => some (o.onDidChangeTextDocument uri contentChanges)
  | .save uri mode => some (o.onDidSaveTextDocument pathname uri mode)
  | .close uri => some (o.onDidCloseTextDocument uri)
  | .generatedCss => some o.onDidGeneratedCssFileEvent
  | .dispose => some o.dispose
  | .timerFired id =>
    if ⟨id, o.clock⟩ ∈ o.timers then
      some (onTimer { o with timers := o.timers.filter fun timer => timer.id ≠ id })
    else none

/-- The clock does not go back, and nothing happens later than a timer that is due before. -/
def step (pathname : String → Option String) (o : SaveObserver) (m : Moment) : Option SaveObserver :=
  if o.clock ≤ m.now ∧ ∀ timer ∈ o.timers, m.now ≤ timer.due then
    react pathname { o with clock := m.now } m.event
  else none

def Step (pathname : String → Option String) (o : SaveObserver) (m : Moment) (o' : SaveObserver) :
    Prop := o.step pathname m = some o'

abbrev History := List (Transition SaveObserver Moment)

end SaveObserver

end PinOp.Refresh
