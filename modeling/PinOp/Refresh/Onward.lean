import PinOp.Refresh.Watermarks
import PinOp.Refresh.Participation

/-!
# What a step adds to a run

Operations are never forgotten, a refresh that is pending was pending ever since its operation
exists, and what is observed only grows. `Onward P` says so of a step, and that all it adds to
what is observed satisfies `P`: a dispatch and an accepted completion are added by one step each
(`Justified`), by the others none (`Quiet`).
-/

namespace PinOp.Refresh

open PinOp.Lib PinOp.Browser PinOp.Protocol

/-- Neither a dispatch nor an accepted completion. -/
def Observation.Quiet : Observation → Prop
  | .dispatched _ _ _ => False
  | .completed _ completion => completion.accepted = false
  | _ => True

open Observation

namespace TabRefreshCoordinator

variable {c c' c'' : TabRefreshCoordinator} {P Q : Observation → Prop} {strict : Bool}
  {marked : Option WindowId → Prop}

structure Onward (P : Observation → Prop) (c c' : TabRefreshCoordinator) : Prop where
  operation : ∀ i v, c.operation? i = some v → ∃ v', c'.operation? i = some v' ∧
    v'.refresh = v.refresh ∧ v'.tabId = v.tabId ∧ v'.windowId = v.windowId
  pending : ∀ tabId i v, c'.pendingRefreshes.get? tabId = some i → c.operation? i = some v →
    c.pendingRefreshes.get? tabId = some i
  observed : ∃ newer, c'.observed = newer ++ c.observed ∧ ∀ o ∈ newer, P o

namespace Onward

theorem trans (h₁ : Onward P c c') (h₂ : Onward P c' c'') : Onward P c c'' := by
  refine ⟨fun i v hv => ?_, fun tabId i v hp hv => ?_, ?_⟩
  · obtain ⟨v', hv', er, et, ew⟩ := h₁.operation i v hv
    obtain ⟨v'', hv'', er', et', ew'⟩ := h₂.operation i v' hv'
    exact ⟨v'', hv'', er'.trans er, et'.trans et, ew'.trans ew⟩
  · obtain ⟨v', hv', -⟩ := h₁.operation i v hv
    exact h₁.pending tabId i v (h₂.pending tabId i v' hp hv') hv
  · obtain ⟨newer₁, e₁, n₁⟩ := h₁.observed
    obtain ⟨newer₂, e₂, n₂⟩ := h₂.observed
    refine ⟨newer₂ ++ newer₁, by simp [e₂, e₁], fun o ho => ?_⟩
    rcases List.mem_append.mp ho with ho | ho
    · exact n₂ o ho
    · exact n₁ o ho

theorem mono (h : Onward P c c') (hPQ : ∀ o, P o → Q o) : Onward Q c c' := by
  obtain ⟨newer, e, n⟩ := h.observed
  exact ⟨h.operation, h.pending, newer, e, fun o ho => hPQ o (n o ho)⟩

/-- Nothing of the operations changes. -/
theorem same (newer : List Observation) (hop : c'.operations = c.operations)
    (hp : c'.pendingRefreshes = c.pendingRefreshes) (ho : c'.observed = newer ++ c.observed)
    (hn : ∀ o ∈ newer, P o) : Onward P c c' := by
  refine ⟨fun i v hv => ⟨v, ?_, rfl, rfl, rfl⟩, fun tabId i v hi _ => hp ▸ hi, newer, ho, hn⟩
  rw [operation?, hop]
  exact hv

theorem silent (hop : c'.operations = c.operations) (hp : c'.pendingRefreshes = c.pendingRefreshes)
    (ho : c'.observed = c.observed) : Onward P c c' :=
  same [] hop hp (by simp [ho]) (by simp)

theorem refl (c : TabRefreshCoordinator) : Onward P c c := silent rfl rfl rfl

end Onward

theorem OperationsFrame.onward (h : OperationsFrame c c') : Onward Quiet c c' := by
  obtain ⟨newer, ho, hn⟩ := h.observed
  refine .same newer h.operations h.pendingRefreshes ho fun o hm => ?_
  have hq := hn o hm
  cases o <;> first | exact trivial | cases hq

/-! ## Completing -/

theorem completeTabRefresh_onward (c : TabRefreshCoordinator) (tabId : TabId) (i : OperationId)
    (accepted : Bool)
    (h : ∀ v, c.operation? i = some v → ∀ o ∈ completion tabId v accepted, P o) :
    Onward P c (c.completeTabRefresh tabId i accepted) := by
  refine ⟨fun j v hv => ?_, fun tabId' j v hj _ => ?_, ?_⟩
  · rw [operation?_complete, hv]
    exact ⟨_, rfl, rfl, rfl, rfl⟩
  · rcases completeTabRefresh_cases c tabId i accepted with ⟨he, -⟩ | ⟨w, -, -, he⟩
    · rw [he] at hj
      exact hj
    · rw [he] at hj
      simp only at hj
      split at hj
      · rw [OrderedMap.get?_delete] at hj
        split at hj
        · cases hj
        · exact hj
      · exact hj
  · rcases completeTabRefresh_cases c tabId i accepted with ⟨he, -⟩ | ⟨w, hw, -, he⟩
    · exact ⟨[], by rw [he]; rfl, by simp⟩
    · exact ⟨completion tabId w accepted, by rw [he], h w hw⟩

theorem completeTabRefresh_quiet (c : TabRefreshCoordinator) (tabId : TabId) (i : OperationId) :
    Onward Quiet c (c.completeTabRefresh tabId i false) := by
  refine completeTabRefresh_onward c tabId i false fun v _ o ho => ?_
  unfold completion at ho
  split at ho
  · rw [List.mem_singleton] at ho
    rw [ho]
    exact rfl
  · cases ho

theorem cancelTabRefresh_quiet (c : TabRefreshCoordinator) (tabId : TabId) :
    Onward Quiet c (c.cancelTabRefresh tabId) := by
  unfold cancelTabRefresh
  split
  · exact .refl c
  · exact completeTabRefresh_quiet c tabId _

theorem clearRuntimePendingForWindow_quiet (c : TabRefreshCoordinator) (windowId : WindowId) :
    Onward Quiet c (c.clearRuntimePendingForWindow windowId) := by
  unfold clearRuntimePendingForWindow
  generalize c.pendingRefreshes.entries = entries
  induction entries generalizing c with
  | nil => exact .refl c
  | cons entry entries ih =>
    simp only [List.foldl_cons]
    split
    · exact ih c
    · split
      · exact (completeTabRefresh_quiet c entry.1 entry.2).trans (ih _)
      · exact ih c

/-! ## Moves -/

theorem closePanel_quiet (c : TabRefreshCoordinator) (tabId : TabId)
    (expectedWindowId : Option WindowId) : Onward Quiet c (c.closePanel tabId expectedWindowId) :=
  ((clearPanelWindow_operationsFrame c tabId expectedWindowId).onward.trans
    (cancelTabRefresh_quiet _ tabId)).trans
      (revokeIndexedParticipant_operationsFrame _ tabId expectedWindowId).onward

theorem leavePanel_quiet (c : TabRefreshCoordinator) (tabId : TabId) (windowId : WindowId) :
    Onward Quiet c (c.leavePanel tabId windowId) := by
  simp only [leavePanel]
  generalize hd : (if (c.currentPanelWindow tabId).isSome = true then c.cancelTabRefresh tabId
    else c) = d
  have hd : Onward Quiet c d := by
    subst hd
    split
    · exact cancelTabRefresh_quiet c tabId
    · exact .refl c
  split
  · exact (hd.trans (clearPanelWindow_operationsFrame _ _ _).onward).trans
      (revokeIndexedParticipant_operationsFrame _ _ _).onward
  · exact hd

theorem Move.quiet (h : Move strict marked c c') : Onward Quiet c c' := by
  cases h with
  | frame h => exact h.operationsFrame.onward
  | cancel tabId => exact cancelTabRefresh_quiet c tabId
  | clearPending windowId => exact clearRuntimePendingForWindow_quiet c windowId
  | move tabId windowId => exact (leavePanel_quiet c tabId windowId).trans (.silent rfl rfl rfl)
  | close tabId expectedWindowId => exact closePanel_quiet c tabId expectedWindowId
  | terminate tabId =>
    have h : Onward Quiet c ((c.markTerminalTab tabId).advanceLifecycle tabId).2 :=
      .silent rfl rfl rfl
    exact h.trans (closePanel_quiet _ tabId none)
  | grant tabId windowId _ => exact (grantParticipant_operationsFrame c windowId tabId).onward
  | disable tabId windowId =>
    exact (cancelTabRefresh_quiet c tabId).trans
      (revokeIndexedParticipant_operationsFrame _ _ _).onward
  | withdraw tabId windowId _ =>
    exact (revokeIndexedParticipant_operationsFrame c tabId (some windowId)).onward
  | raise loaded => exact .silent rfl rfl rfl
  | forget windowId => exact .same [.windowRemoved windowId] rfl rfl rfl (by simp [Quiet])

theorem Moves.quiet (h : Moves strict marked c c') : Onward Quiet c c' := by
  induction h with
  | refl => exact .refl c
  | tail _ hm ih => exact ih.trans hm.quiet

/-! ## The queue -/

theorem dispatched_quiet (c : TabRefreshCoordinator) (after : Option AcceptedRefresh) :
    Onward P c (c.dispatched after) := by
  cases after with
  | none => exact .silent rfl rfl rfl
  | some r => exact .silent rfl rfl rfl

theorem startDispatching_quiet (c : TabRefreshCoordinator) (i : OperationId) :
    Onward P c (c.startDispatching i) := by
  cases hv : c.operation? i with
  | none =>
    have he : c.startDispatching i = c := by
      unfold startDispatching
      rw [show c.operations[i]? = none from hv]
    rw [he]
    exact .refl c
  | some v =>
    refine ⟨fun j w hw => ?_, fun tabId j w hj _ => ?_, [], by rw [startDispatching_eq hv]; rfl,
      by simp⟩
    · rw [operation?_set (by rw [startDispatching_eq hv]) hv]
      by_cases hj : j = i
      · subst hj
        rw [hv] at hw
        cases hw
        exact ⟨_, if_pos rfl, rfl, rfl, rfl⟩
      · exact ⟨w, by rw [if_neg hj, hw], rfl, rfl, rfl⟩
    · rw [startDispatching_eq hv] at hj
      exact hj

theorem dispatch_quiet (c : TabRefreshCoordinator) (tabId : TabId) (i : OperationId)
    (after : Option AcceptedRefresh) : Onward Quiet c (c.dispatch tabId i after) := by
  unfold dispatch
  split
  · exact (completeTabRefresh_quiet c tabId i).trans (dispatched_quiet _ after)
  · exact (startDispatching_quiet c i).trans (.silent rfl rfl rfl)

theorem begin_quiet (c : TabRefreshCoordinator) (operation : QueuedOperation) :
    Onward Quiet c (c.begin operation) := by
  cases operation with
  | accept windowId incoming onTabCompleted => exact .silent rfl rfl rfl
  | epoch windowId => exact .same [.epochBegun windowId] rfl rfl rfl (by simp [Quiet])
  | activate tabId windowId =>
    simp only [TabRefreshCoordinator.begin]
    split
    · exact cancelTabRefresh_quiet c tabId
    · split
      · exact .refl c
      · split
        · exact .refl c
        · split
          · exact .refl c
          · exact dispatch_quiet _ _ _ _

end TabRefreshCoordinator

end PinOp.Refresh
