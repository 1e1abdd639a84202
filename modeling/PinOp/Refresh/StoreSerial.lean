import PinOp.Refresh.StoreOperations

/-!
# The store serialises its updates

What an operation does alone is said by `Succeeds` and `Fails`; a run of the store is a run of its
operations one after another. Nothing but rows in their order is ever written.
-/

namespace PinOp.Refresh.TabRefreshStateStore

open PinOp.Lib PinOp.Browser PinOp.Protocol

variable {s s' : Bool × Storage} {rows : StoredStates} {op : StoreOperation}

/-! ## What the storage has -/

/-- The rows that are read from what is stored. -/
def readRows (stored : Option StoredData) : StoredStates :=
  match stored.bind parseStoredStates with
  | some parsed => parsed.states
  | none => noStates

/-- What is stored after the rows were written. -/
def written (rows : StoredStates) : Option StoredData :=
  if rows.states = [] then none else some (.array (rows.states.map snapshotState))

/-- What a read may do to what is stored: it removes what is invalid, and rewrites what was not
written by this store. -/
def Repaired (before after : Option StoredData) : Prop :=
  ∃ value, before = some value ∧ (parseStoredStates value = none ∧ after = none ∨
    ∃ parsed, parseStoredStates value = some parsed ∧ parsed.needsRewrite = true ∧
      after = written parsed.states)

def Kept (before after : Option StoredData) : Prop := after = before ∨ Repaired before after

theorem Kept.refl (before : Option StoredData) : Kept before before := .inl rfl

theorem readRows_kept (stored : Option StoredData) : KeptRows (readRows stored) := by
  unfold readRows
  cases hparsed : stored.bind parseStoredStates with
  | none => exact ⟨List.Pairwise.nil, Nat.zero_le _, List.forall_mem_nil _⟩
  | some parsed =>
    obtain ⟨value, -, hvalue⟩ := Option.bind_eq_some_iff.1 hparsed
    exact parseStoredStates_kept hvalue

/-- What is written is what is read next. -/
theorem readRows_written (h : KeptRows rows) : readRows (written rows) = rows := by
  unfold written
  split
  · rename_i hnil
    refine storedStates_ext ?_
    rw [hnil]
    rfl
  · unfold readRows
    rw [Option.bind_some, parseStoredStates_snapshots h]

/-- The row just written is kept. -/
theorem row_of_written {before after : Option StoredData} {durable : TabRefreshState}
    (hdurable : ValidRow durable) (h : after = written ((readRows before).write durable)) :
    (readRows after).row durable.tabId = some durable := by
  rw [h, readRows_written ((readRows_kept before).write hdurable)]
  exact StoredStates.row_write_self _ durable

/-! ## The parts of an operation -/

theorem runs_writeStates {result : Except String Unit}
    (h : (writeStates rows).Runs serve s result s') :
    (result = .ok () ∧ s'.2.states = written rows) ∨ result = .error "rejected" ∧ s' = s := by
  unfold writeStates at h
  unfold written
  split at h
  · rename_i hnil
    rw [if_pos hnil]
    rcases Async.runs_bind.1 h with ⟨e, hawait, rfl⟩ | ⟨_, s₁, hawait, hpure⟩
    · rcases Async.runs_await.1 hawait with ⟨hok, -⟩ | ⟨he, rfl⟩
      · cases hok
      · cases he
        exact .inr ⟨rfl, rfl⟩
    · obtain ⟨rfl, rfl⟩ := Async.runs_pure.1 hpure
      rcases Async.runs_await.1 hawait with ⟨-, rfl⟩ | ⟨he, -⟩
      · exact .inl ⟨rfl, rfl⟩
      · cases he
  · rename_i hsome
    rw [if_neg hsome]
    rcases Async.runs_bind.1 h with ⟨e, hawait, rfl⟩ | ⟨_, s₁, hawait, hpure⟩
    · rcases Async.runs_await.1 hawait with ⟨hok, -⟩ | ⟨he, rfl⟩
      · cases hok
      · cases he
        exact .inr ⟨rfl, rfl⟩
    · obtain ⟨rfl, rfl⟩ := Async.runs_pure.1 hpure
      rcases Async.runs_await.1 hawait with ⟨-, rfl⟩ | ⟨he, -⟩
      · exact .inl ⟨rfl, rfl⟩
      · cases he

/-- The cleanup has nothing to do with the rows. -/
theorem cleanup_calls : cleanupLegacyRecoveryBestEffort.Calls
    fun call => call = .get .recovery ∨ call = .remove .recovery := by
  unfold cleanupLegacyRecoveryBestEffort
  refine Async.calls_memory.bind fun clean => ?_
  split
  · trivial
  · refine Async.Calls.ignoreError ((Async.calls_await (.inl rfl)).bind fun stored => ?_)
    split
    · exact (Async.calls_await (.inr rfl)).bind fun _ => trivial
    · trivial

theorem runs_cleanup {result : Except String Unit}
    (h : cleanupLegacyRecoveryBestEffort.Runs serve s result s') :
    result = .ok () ∧ s'.2.states = s.2.states := by
  constructor
  · unfold cleanupLegacyRecoveryBestEffort at h
    rcases Async.runs_bind.1 h with ⟨e, hmemory, -⟩ | ⟨clean, s₁, -, h⟩
    · cases (Async.runs_memory.1 hmemory).1
    · split at h
      · exact (Async.runs_pure.1 h).1.symm
      · exact (Async.runs_ignoreError.1 h).1
  · refine Async.Calls.frame (g := Storage.states) (cleanup_calls.mono fun call hcall storage => ?_) h
    rcases hcall with rfl | rfl
    · rfl
    · rfl

/-- The cleanup, and then what was read. -/
theorem runs_read {result : Except String StoredStates}
    (h : (do
      cleanupLegacyRecoveryBestEffort
      pure rows : StoreProgram StoredStates).Runs serve s result s') :
    result = .ok rows ∧ s'.2.states = s.2.states := by
  rcases Async.runs_bind.1 h with ⟨e, hcleanup, -⟩ | ⟨_, s₁, hcleanup, h⟩
  · cases (runs_cleanup hcleanup).1
  · obtain ⟨rfl, rfl⟩ := Async.runs_pure.1 h
    exact ⟨rfl, (runs_cleanup hcleanup).2⟩

/-- A removal that may fail. -/
theorem runs_removeStates {result : Except String Unit}
    (h : (Async.ignoreError do
      let _ ← Async.await (.remove .states) : StoreProgram Unit).Runs serve s result s') :
    result = .ok () ∧ (s'.2.states = none ∨ s'.2.states = s.2.states) := by
  obtain ⟨rfl, result', h⟩ := Async.runs_ignoreError.1 h
  refine ⟨rfl, ?_⟩
  rcases Async.runs_bind.1 h with ⟨e, hawait, -⟩ | ⟨_, s₁, hawait, h⟩
  · rcases Async.runs_await.1 hawait with ⟨-, rfl⟩ | ⟨-, rfl⟩
    · exact .inl rfl
    · exact .inr rfl
  · obtain ⟨-, rfl⟩ := Async.runs_pure.1 h
    rcases Async.runs_await.1 hawait with ⟨-, rfl⟩ | ⟨-, rfl⟩
    · exact .inl rfl
    · exact .inr rfl

theorem runs_rewrite {result : Except String Unit}
    (h : (Async.ignoreError (writeStates rows)).Runs serve s result s') :
    result = .ok () ∧ (s'.2.states = written rows ∨ s'.2.states = s.2.states) := by
  obtain ⟨rfl, result', h⟩ := Async.runs_ignoreError.1 h
  refine ⟨rfl, ?_⟩
  rcases runs_writeStates h with ⟨-, hwritten⟩ | ⟨-, rfl⟩
  · exact .inl hwritten
  · exact .inr rfl

theorem runs_loadAll {result : Except String StoredStates}
    (h : loadAllUnlocked.Runs serve s result s') :
    result = .error "rejected" ∧ s' = s ∨
      result = .ok (readRows s.2.states) ∧ Kept s.2.states s'.2.states := by
  unfold loadAllUnlocked at h
  rcases Async.runs_bind.1 h with ⟨e, hget, rfl⟩ | ⟨stored, s₁, hget, h⟩
  · rcases Async.runs_await.1 hget with ⟨hok, -⟩ | ⟨he, rfl⟩
    · cases hok
    · cases he
      exact .inl ⟨rfl, rfl⟩
  · rcases Async.runs_await.1 hget with ⟨hok, rfl⟩ | ⟨he, -⟩
    · have hstored : s.2.states = stored := Except.ok.inj hok
      right
      unfold readRows Kept Repaired
      rw [hstored]
      cases stored with
      | none =>
        obtain ⟨rfl, hsame⟩ := runs_read h
        exact ⟨rfl, .inl (hsame.trans hstored)⟩
      | some value =>
        rw [Option.bind_some]
        dsimp only at h
        cases hparsed : parseStoredStates value with
        | none =>
          rw [hparsed] at h
          rcases Async.runs_bind.1 h with ⟨e, hremove, -⟩ | ⟨_, s₂, hremove, h⟩
          · cases (runs_removeStates hremove).1
          · obtain ⟨rfl, hsame⟩ := runs_read h
            refine ⟨rfl, ?_⟩
            rcases (runs_removeStates hremove).2 with hnone | hkept
            · exact .inr ⟨value, rfl, .inl ⟨hparsed, hsame.trans hnone⟩⟩
            · exact .inl (hsame.trans (hkept.trans hstored))
        | some parsed =>
          rw [hparsed] at h
          dsimp only at h
          split at h
          · rename_i hneeds
            rcases Async.runs_bind.1 h with ⟨e, hrewrite, -⟩ | ⟨_, s₂, hrewrite, h⟩
            · cases (runs_rewrite hrewrite).1
            · obtain ⟨rfl, hsame⟩ := runs_read h
              refine ⟨rfl, ?_⟩
              rcases (runs_rewrite hrewrite).2 with hwritten | hkept
              · exact .inr ⟨value, rfl, .inr ⟨parsed, hparsed, hneeds, hsame.trans hwritten⟩⟩
              · exact .inl (hsame.trans (hkept.trans hstored))
          · obtain ⟨rfl, hsame⟩ := runs_read h
            exact ⟨rfl, .inl (hsame.trans hstored)⟩
    · cases he

/-- What an operation has read, and what it goes on with. -/
theorem runs_loaded {f : StoredStates → StoreProgram StoreResult} {result : Except String StoreResult}
    (h : (loadAllUnlocked >>= f).Runs serve s result s') :
    result = .error "rejected" ∧ s' = s ∨
      ∃ s₁, Kept s.2.states s₁.2.states ∧ (f (readRows s.2.states)).Runs serve s₁ result s' := by
  rcases Async.runs_bind.1 h with ⟨e, hload, rfl⟩ | ⟨states, s₁, hload, h⟩
  · rcases runs_loadAll hload with ⟨he, rfl⟩ | ⟨hok, -⟩
    · cases he
      exact .inl ⟨rfl, rfl⟩
    · cases hok
  · rcases runs_loadAll hload with ⟨he, -⟩ | ⟨hok, hkept⟩
    · cases he
    · obtain rfl := Except.ok.inj hok
      exact .inr ⟨s₁, hkept, h⟩

/-- A write at the end of an operation. -/
theorem runs_write {value : StoreResult} {result : Except String StoreResult}
    (h : (do
      writeStates rows
      pure value : StoreProgram StoreResult).Runs serve s result s') :
    result = .ok value ∧ s'.2.states = written rows ∨ result = .error "rejected" ∧ s' = s := by
  rcases Async.runs_bind.1 h with ⟨e, hwrite, rfl⟩ | ⟨_, s₁, hwrite, h⟩
  · rcases runs_writeStates hwrite with ⟨hok, -⟩ | ⟨he, hsame⟩
    · cases hok
    · cases he
      exact .inr ⟨rfl, hsame⟩
  · obtain ⟨rfl, rfl⟩ := Async.runs_pure.1 h
    rcases runs_writeStates hwrite with ⟨-, hwritten⟩ | ⟨he, -⟩
    · exact .inl ⟨rfl, hwritten⟩
    · cases he

/-- An operation that changes what it has read, and writes it. -/
theorem runs_loaded_write {change : StoredStates → StoredStates} {value : StoreResult}
    {result : Except String StoreResult}
    (h : (do
      let states ← loadAllUnlocked
      writeStates (change states)
      pure value : StoreProgram StoreResult).Runs serve s result s') :
    result = .ok value ∧ s'.2.states = written (change (readRows s.2.states)) ∨
      result = .error "rejected" ∧ Kept s.2.states s'.2.states := by
  rcases runs_loaded h with ⟨he, rfl⟩ | ⟨s₁, hkept, h⟩
  · exact .inr ⟨he, Kept.refl _⟩
  · rcases runs_write h with hok | ⟨he, rfl⟩
    · exact .inl hok
    · exact .inr ⟨he, hkept⟩

/-! ## What an operation does alone -/

/-- What an operation gives and leaves when it succeeds, from what was stored before. -/
def Succeeds (before : Option StoredData) (result : StoreResult) (after : Option StoredData) :
    StoreOperation → Prop
  | .load tabId windowId =>
    validIdentity tabId windowId = true ∧ result = .state (rowOf (readRows before) tabId windowId) ∧
      Kept before after
  | .loadAll => result = .states (readRows before) ∧ Kept before after
  | .save state => ∃ parsed, parseTabRefreshState state = some parsed ∧ result = .void ∧
      after = written ((readRows before).write (durableState parsed)) ∧
      (readRows after).row parsed.tabId = some (durableState parsed)
  | .updateTab tabId update => validIdentity tabId 0 = true ∧
      ∃ candidate, update ((readRows before).row tabId) = .ok candidate ∧
        (candidate.isUndefined = true ∧ result = .updated ((readRows before).row tabId) ∧
          Kept before after ∨
        candidate.isUndefined = false ∧ ∃ parsed, parseTabRefreshState candidate = some parsed ∧
          parsed.tabId = tabId ∧ result = .updated (some (durableState parsed)) ∧
          after = written ((readRows before).write (durableState parsed)) ∧
          (readRows after).row tabId = some (durableState parsed))
  | .removeTab tabId => validIdentity tabId 0 = true ∧ result = .void ∧
      (((readRows before).row tabId).isNone = true ∧ Kept before after ∨
        ((readRows before).row tabId).isNone = false ∧ after = written ((readRows before).remove tabId))
  | .clear => result = .void ∧ after = none

/-- Why an operation throws where no call of the storage was rejected. -/
def Refuses (before : Option StoredData) (e : String) : StoreOperation → Prop
  | .load tabId windowId => validIdentity tabId windowId = false ∧ e = invalidIdentity
  | .save state => parseTabRefreshState state = none ∧ e = "Invalid browser tab refresh state"
  | .updateTab tabId update => validIdentity tabId 0 = false ∧ e = invalidIdentity ∨
      validIdentity tabId 0 = true ∧ (update ((readRows before).row tabId) = .error e ∨
        ∃ candidate, update ((readRows before).row tabId) = .ok candidate ∧
          candidate.isUndefined = false ∧ e = "Invalid browser tab refresh state update" ∧
          ∀ parsed, parseTabRefreshState candidate = some parsed → parsed.tabId ≠ tabId)
  | .removeTab tabId => validIdentity tabId 0 = false ∧ e = invalidIdentity
  | _ => False

/-- What is stored before an operation, its result, and what is stored after it: an operation that
throws writes nothing of its own. -/
def Performs (op : StoreOperation) (before : Option StoredData) (result : Except String StoreResult)
    (after : Option StoredData) : Prop :=
  match result with
  | .ok value => Succeeds before value after op
  | .error e => (e = "rejected" ∨ Refuses before e op) ∧ Kept before after

/-- The program of an operation, which throws where the operation is rejected at once. -/
def StoreOperation.program (op : StoreOperation) : StoreProgram StoreResult :=
  match op.request with
  | .ok program => program
  | .error e => Async.throw e

theorem performs_save {durable : TabRefreshState} {result : Except String StoreResult}
    (h : (saveProgram durable).Runs serve s result s') :
    result = .ok .void ∧ s'.2.states = written ((readRows s.2.states).write durable) ∨
      result = .error "rejected" ∧ Kept s.2.states s'.2.states :=
  @runs_loaded_write s s' (fun states => states.write durable) .void result h

theorem performs_update {tabId : TabId}
    {update : Option TabRefreshState → Except String StoredData} {result : Except String StoreResult}
    (hvalid : validIdentity tabId 0 = true) (h : (updateProgram tabId update).Runs serve s result s') :
    Performs (.updateTab tabId update) s.2.states result s'.2.states := by
  unfold updateProgram at h
  rcases runs_loaded h with ⟨rfl, rfl⟩ | ⟨s₁, hkept, h⟩
  · exact ⟨.inl rfl, Kept.refl _⟩
  · dsimp only at h
    cases hupdate : update ((readRows s.2.states).row tabId) with
    | error e =>
      rw [hupdate] at h
      obtain ⟨rfl, rfl⟩ := Async.runs_throw.1 h
      exact ⟨.inr (.inr ⟨hvalid, .inl hupdate⟩), hkept⟩
    | ok candidate =>
      rw [hupdate] at h
      dsimp only at h
      split at h
      · rename_i hundefined
        obtain ⟨rfl, rfl⟩ := Async.runs_pure.1 h
        exact ⟨hvalid, candidate, hupdate, .inl ⟨hundefined, rfl, hkept⟩⟩
      · rename_i hundefined
        rw [Bool.not_eq_true] at hundefined
        have hrefuses : (∀ parsed, parseTabRefreshState candidate = some parsed →
              parsed.tabId ≠ tabId) →
            Refuses s.2.states "Invalid browser tab refresh state update" (.updateTab tabId update) :=
          fun hnot => .inr ⟨hvalid, .inr ⟨candidate, hupdate, hundefined, rfl, hnot⟩⟩
        cases hparsed : parseTabRefreshState candidate with
        | none =>
          rw [hparsed] at h hrefuses
          obtain ⟨rfl, rfl⟩ := Async.runs_throw.1 h
          exact ⟨.inr (hrefuses nofun), hkept⟩
        | some parsed =>
          rw [hparsed] at h hrefuses
          dsimp only at h
          split at h
          · rename_i htab
            obtain ⟨rfl, rfl⟩ := Async.runs_throw.1 h
            refine ⟨.inr (hrefuses fun other hother => ?_), hkept⟩
            cases hother
            exact htab
          · rename_i htab
            generalize hrows : (readRows s.2.states).write (durableState parsed) = rows at h
            rcases runs_write h with ⟨rfl, hwritten⟩ | ⟨rfl, rfl⟩
            · rw [← hrows] at hwritten
              obtain rfl := not_not.1 htab
              exact ⟨hvalid, candidate, hupdate, .inr ⟨hundefined, parsed, hparsed, rfl, rfl, hwritten,
                row_of_written (parseTabRefreshState_valid hparsed) hwritten⟩⟩
            · exact ⟨.inl rfl, hkept⟩

theorem performs_remove {tabId : TabId} {result : Except String StoreResult}
    (hvalid : validIdentity tabId 0 = true) (h : (removeProgram tabId).Runs serve s result s') :
    Performs (.removeTab tabId) s.2.states result s'.2.states := by
  unfold removeProgram at h
  rcases runs_loaded h with ⟨rfl, rfl⟩ | ⟨s₁, hkept, h⟩
  · exact ⟨.inl rfl, Kept.refl _⟩
  · split at h
    · rename_i hnone
      obtain ⟨rfl, rfl⟩ := Async.runs_pure.1 h
      exact ⟨hvalid, rfl, .inl ⟨hnone, hkept⟩⟩
    · rename_i hsome
      rcases runs_write h with ⟨rfl, hwritten⟩ | ⟨rfl, rfl⟩
      · exact ⟨hvalid, rfl, .inr ⟨Bool.not_eq_true _ ▸ hsome, hwritten⟩⟩
      · exact ⟨.inl rfl, hkept⟩

theorem performs_clear {result : Except String StoreResult} (h : clearProgram.Runs serve s result s') :
    Performs .clear s.2.states result s'.2.states := by
  unfold clearProgram at h
  rcases Async.runs_bind.1 h with ⟨e, hremove, rfl⟩ | ⟨_, s₁, hremove, h⟩
  · rcases Async.runs_await.1 hremove with ⟨hok, -⟩ | ⟨he, rfl⟩
    · cases hok
    · cases he
      exact ⟨.inl rfl, Kept.refl _⟩
  · rcases Async.runs_await.1 hremove with ⟨-, rfl⟩ | ⟨he, -⟩
    · rcases Async.runs_bind.1 h with ⟨e, hrecovery, -⟩ | ⟨_, s₂, hrecovery, h⟩
      · cases (Async.runs_ignoreError.1 hrecovery).1
      · obtain ⟨rfl, rfl⟩ := Async.runs_pure.1 h
        refine ⟨rfl, Async.Calls.frame (g := Storage.states) ?_ hrecovery⟩
        exact Async.Calls.ignoreError ((Async.calls_await fun _ => rfl).bind fun _ => trivial)
    · cases he

/-- An operation that is rejected at once does nothing. -/
theorem performs_refused {e : String} {result : Except String StoreResult}
    (hrequest : op.request = .error e) (hrefuses : Refuses s.2.states e op)
    (h : op.program.Runs serve s result s') : Performs op s.2.states result s'.2.states := by
  unfold StoreOperation.program at h
  rw [hrequest] at h
  obtain ⟨rfl, rfl⟩ := Async.runs_throw.1 h
  exact ⟨.inr hrefuses, Kept.refl _⟩

theorem program_of_request {program : StoreProgram StoreResult} (h : op.request = .ok program) :
    op.program = program := by
  unfold StoreOperation.program
  rw [h]

/-- An operation does what is said of it. -/
theorem performs {result : Except String StoreResult} (h : op.program.Runs serve s result s') :
    Performs op s.2.states result s'.2.states := by
  cases op with
  | load tabId windowId =>
    by_cases hvalid : validIdentity tabId windowId = true
    · have hprogram : (StoreOperation.load tabId windowId).program =
          loadAllUnlocked >>= fun states => pure (.state (rowOf states tabId windowId)) :=
        program_of_request (if_pos hvalid)
      rw [hprogram] at h
      rcases runs_loaded h with ⟨rfl, rfl⟩ | ⟨s₁, hkept, h⟩
      · exact ⟨.inl rfl, Kept.refl _⟩
      · obtain ⟨rfl, rfl⟩ := Async.runs_pure.1 h
        exact ⟨hvalid, rfl, hkept⟩
    · exact performs_refused (if_neg hvalid) ⟨Bool.not_eq_true _ ▸ hvalid, rfl⟩ h
  | loadAll =>
    rw [program_of_request rfl] at h
    rcases runs_loaded h with ⟨rfl, rfl⟩ | ⟨s₁, hkept, h⟩
    · exact ⟨.inl rfl, Kept.refl _⟩
    · obtain ⟨rfl, rfl⟩ := Async.runs_pure.1 h
      exact ⟨rfl, hkept⟩
  | save state =>
    cases hparsed : parseTabRefreshState state with
    | none =>
      have hrequest : (StoreOperation.save state).request =
          .error "Invalid browser tab refresh state" := by
        simp [StoreOperation.request, hparsed]
      exact performs_refused hrequest ⟨hparsed, rfl⟩ h
    | some parsed =>
      have hrequest : (StoreOperation.save state).request = .ok (saveProgram (durableState parsed)) := by
        simp [StoreOperation.request, hparsed]
      rw [program_of_request hrequest] at h
      rcases performs_save h with ⟨rfl, hwritten⟩ | ⟨rfl, hkept⟩
      · exact ⟨parsed, hparsed, rfl, hwritten,
          row_of_written (parseTabRefreshState_valid hparsed) hwritten⟩
      · exact ⟨.inl rfl, hkept⟩
  | updateTab tabId update =>
    by_cases hvalid : validIdentity tabId 0 = true
    · have hprogram : (StoreOperation.updateTab tabId update).program = updateProgram tabId update :=
        program_of_request (if_pos hvalid)
      rw [hprogram] at h
      exact performs_update hvalid h
    · exact performs_refused (if_neg hvalid) (.inl ⟨Bool.not_eq_true _ ▸ hvalid, rfl⟩) h
  | removeTab tabId =>
    by_cases hvalid : validIdentity tabId 0 = true
    · have hprogram : (StoreOperation.removeTab tabId).program = removeProgram tabId :=
        program_of_request (if_pos hvalid)
      rw [hprogram] at h
      exact performs_remove hvalid h
    · exact performs_refused (if_neg hvalid) ⟨Bool.not_eq_true _ ▸ hvalid, rfl⟩ h
  | clear => exact performs_clear h

end PinOp.Refresh.TabRefreshStateStore
