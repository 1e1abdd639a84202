import PinOp.Browser.InspectCorrelationStore

/-!
# Rows and watermarks of tab refreshes

A row is what the store keeps of a tab: its settings, and the last refresh its window
accepted. What a window has accepted is ordered by generation first, then by mode, a reload
above a refresh of styles.
-/

namespace PinOp.Refresh

open PinOp.Browser PinOp.Protocol

abbrev TabId := ℤ

abbrev WindowId := ℤ

/-- Which run of the queue a refresh is accepted in; it stands for the callback of that call. -/
abbrev RefreshId := ℕ

structure TabRefreshSettings where
  autoRefreshEnabled : Bool
  ideHighlightEnabled : Bool
  deriving DecidableEq

/-- A durable row. `participant` and `pending` are never stored. -/
structure TabRefreshState where
  tabId : TabId
  windowId : WindowId
  autoRefreshEnabled : Bool
  ideHighlightEnabled : Bool
  lastAcceptedGeneration : ℕ
  lastAcceptedMode : Option PageRefreshMode
  deriving DecidableEq

/-- The rows that the store gives: one for a tab. -/
structure StoredStates where
  states : List TabRefreshState
  nodup : (states.map TabRefreshState.tabId).Nodup
  deriving DecidableEq

/-- `createDefaultTabRefreshState` throws on other ids. -/
def validIdentity (tabId : TabId) (windowId : WindowId) : Bool :=
  isBrowserId tabId && isBrowserId windowId

def createDefaultTabRefreshState (tabId : TabId) (windowId : WindowId) : TabRefreshState :=
  ⟨tabId, windowId, true, true, 0, none⟩

/-- The part of `PageRefreshMessageSchema` that bounds what is read here. -/
def validRefresh (message : PageRefreshMessage) : Bool :=
  isOpaqueId message.sessionId && isOpaqueId message.source.id &&
    message.refreshGeneration ≤ Limits.generation

structure PendingTabRefresh where
  generation : ℕ
  mode : PageRefreshMode
  deriving DecidableEq

inductive WindowWatermarkMode where
  | known (mode : PageRefreshMode)
  | unknown
  deriving DecidableEq

/-- `incomingOf` is the refresh whose own `incoming` object it is. -/
structure WindowWatermark where
  generation : ℕ
  mode : WindowWatermarkMode
  incomingOf : Option RefreshId
  deriving DecidableEq

def watermarkModePrecedence : WindowWatermarkMode → ℕ
  | .known .styles => 0
  | .known .reload => 1
  | .unknown => 2

def isNewerRefresh (incoming : WindowWatermark) (current : Option WindowWatermark) : Bool :=
  current.all fun current =>
    current.generation < incoming.generation ||
      (incoming.generation = current.generation &&
        watermarkModePrecedence current.mode < watermarkModePrecedence incoming.mode)

def stateWatermark (state : TabRefreshState) : WindowWatermark where
  generation := state.lastAcceptedGeneration
  mode :=
    match state.lastAcceptedMode with
    | some mode => .known mode
    | none => if 0 < state.lastAcceptedGeneration then .unknown else .known .styles
  incomingOf := none

def currentWatermark (remembered : Option WindowWatermark) (states : List TabRefreshState) :
    Option WindowWatermark :=
  states.foldl (fun current state =>
    if isNewerRefresh (stateWatermark state) current then some (stateWatermark state) else current)
    remembered

/-- `lastAcceptedGeneration` and `lastAcceptedMode` of a row to be stored. -/
def durableWatermarkSnapshot (state : Option TabRefreshState)
    (remembered : Option WindowWatermark) : ℕ × Option PageRefreshMode :=
  let ofRemembered :=
    match remembered with
    | none => (0, none)
    | some remembered =>
      (remembered.generation,
        match remembered.mode with
        | .known mode => if 0 < remembered.generation || mode = .reload then some mode else none
        | .unknown => none)
  match state with
  | none => ofRemembered
  | some state =>
    if remembered.all fun remembered => !isNewerRefresh remembered (some (stateWatermark state)) then
      (state.lastAcceptedGeneration, state.lastAcceptedMode)
    else ofRemembered

/-! ## The order of watermarks -/

/-- `a` comes before `b`, generation first. -/
def Before (a b : WindowWatermark) : Prop :=
  a.generation < b.generation ∨ (a.generation = b.generation ∧
    watermarkModePrecedence a.mode < watermarkModePrecedence b.mode)

variable {a b c : WindowWatermark}

theorem Before.trans (h₁ : Before a b) (h₂ : Before b c) : Before a c := by
  unfold Before at *
  omega

theorem Before.trans_not (h₁ : Before a b) (h₂ : ¬Before c b) : Before a c := by
  unfold Before at *
  omega

theorem not_before_trans (h₁ : ¬Before b a) (h₂ : ¬Before c b) : ¬Before c a := by
  unfold Before at *
  omega

theorem not_before_self (a : WindowWatermark) : ¬Before a a := by
  unfold Before
  omega

theorem Before.not_before (h : Before a b) : ¬Before b a := by
  unfold Before at *
  omega

theorem isNewerRefresh_some : isNewerRefresh b (some a) = true ↔ Before a b := by
  simp only [isNewerRefresh, Option.all_some, Bool.or_eq_true, Bool.and_eq_true,
    decide_eq_true_eq, Before]
  omega

/-- What the rows add to a watermark does not fall behind it. -/
theorem currentWatermark_not_before (states : List TabRefreshState) (a : WindowWatermark) :
    ∃ b, currentWatermark (some a) states = some b ∧ ¬Before b a := by
  induction states generalizing a with
  | nil => exact ⟨a, rfl, not_before_self a⟩
  | cons state states ih =>
    simp only [currentWatermark, List.foldl_cons]
    split
    · rename_i hn
      obtain ⟨b, hb, hle⟩ := ih (stateWatermark state)
      exact ⟨b, hb, not_before_trans (isNewerRefresh_some.mp hn).not_before hle⟩
    · exact ih a

end PinOp.Refresh
