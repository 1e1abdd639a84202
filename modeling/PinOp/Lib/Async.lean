import PinOp.Lib.Runs

/-!
# Asynchronous operations, one after another

An `Async` program awaits the calls it makes to a world, which may reject them, and shares a memory
with others that it reads and writes between them. `Runs` is what it does when nothing interferes.

A `Chain` begins an operation when the one called before it has settled. However calls of operations
and answers of the world come in, what was done is a sequential run: `Serial.of_run`.
-/

namespace PinOp.Lib

/-- `μ` is the memory, `κ` the calls and `ρ` their responses. -/
inductive Async (μ κ ρ α : Type) where
  | settled (result : Except String α)
  | read (k : μ → Async μ κ ρ α)
  | write (memory : μ) (k : Async μ κ ρ α)
  | call (c : κ) (k : Option ρ → Async μ κ ρ α)

namespace Async

variable {μ κ ρ α β σ : Type}

protected def bind : Async μ κ ρ α → (α → Async μ κ ρ β) → Async μ κ ρ β
  | settled (.ok a), f => f a
  | settled (.error e), _ => settled (.error e)
  | read k, f => read fun memory => (k memory).bind f
  | write memory k, f => write memory (k.bind f)
  | call c k, f => call c fun response => (k response).bind f

instance : Monad (Async μ κ ρ) where
  pure a := settled (.ok a)
  bind := Async.bind

def throw (e : String) : Async μ κ ρ α := settled (.error e)

def memory : Async μ κ ρ μ := read fun memory => pure memory

def setMemory (memory : μ) : Async μ κ ρ Unit := write memory (pure ())

/-- A rejected call throws. -/
def await (c : κ) : Async μ κ ρ ρ :=
  call c fun
    | some response => pure response
    | none => throw "rejected"

/-- Run a program that may throw, and go on. -/
def ignoreError : Async μ κ ρ Unit → Async μ κ ρ Unit
  | settled _ => settled (.ok ())
  | read k => read fun memory => (k memory).ignoreError
  | write memory k => write memory k.ignoreError
  | call c k => call c fun response => (k response).ignoreError

/-! ## What a program does -/

section Runs

variable (serve : κ → σ → ρ × σ)

/-- From a memory and a world, the program settles with a result and leaves others. Each call may
be rejected, and then does nothing. -/
def Runs : Async μ κ ρ α → μ × σ → Except String α → μ × σ → Prop
  | settled result, s => fun result' s' => result = result' ∧ s = s'
  | read k, s => (k s.1).Runs s
  | write memory k, s => k.Runs (memory, s.2)
  | call c k, s => fun result' s' =>
    (k (some (serve c s.2).1)).Runs (s.1, (serve c s.2).2) result' s' ∨ (k none).Runs s result' s'

variable {serve} {p : Async μ κ ρ α} {f : α → Async μ κ ρ β} {s s' : μ × σ}

@[simp] theorem runs_settled {result result' : Except String α} :
    (settled result : Async μ κ ρ α).Runs serve s result' s' ↔ result = result' ∧ s = s' := Iff.rfl

@[simp] theorem runs_pure {a : α} {result : Except String α} :
    (pure a : Async μ κ ρ α).Runs serve s result s' ↔ .ok a = result ∧ s = s' := Iff.rfl

@[simp] theorem runs_throw {e : String} {result : Except String α} :
    (throw e : Async μ κ ρ α).Runs serve s result s' ↔ .error e = result ∧ s = s' := Iff.rfl

@[simp] theorem runs_memory {result : Except String μ} :
    (memory : Async μ κ ρ μ).Runs serve s result s' ↔ .ok s.1 = result ∧ s = s' := Iff.rfl

@[simp] theorem runs_setMemory {m : μ} {result : Except String Unit} :
    (setMemory m : Async μ κ ρ Unit).Runs serve s result s' ↔ .ok () = result ∧ (m, s.2) = s' :=
  Iff.rfl

@[simp] theorem runs_await {c : κ} {result : Except String ρ} :
    (await c : Async μ κ ρ ρ).Runs serve s result s' ↔
      .ok (serve c s.2).1 = result ∧ (s.1, (serve c s.2).2) = s' ∨
        .error "rejected" = result ∧ s = s' := Iff.rfl

theorem runs_bind {result : Except String β} : (p >>= f).Runs serve s result s' ↔
    (∃ e, p.Runs serve s (.error e) s' ∧ result = .error e) ∨
      ∃ a s₁, p.Runs serve s (.ok a) s₁ ∧ (f a).Runs serve s₁ result s' := by
  show (p.bind f).Runs serve s result s' ↔ _
  induction p generalizing s with
  | settled result' =>
    cases result' with
    | ok a =>
      constructor
      · exact fun h => .inr ⟨a, s, ⟨rfl, rfl⟩, h⟩
      · rintro (⟨e, ⟨h, -⟩, -⟩ | ⟨a', s₁, ⟨h, rfl⟩, hf⟩)
        · cases h
        · cases h
          exact hf
    | error e =>
      constructor
      · rintro ⟨rfl, rfl⟩
        exact .inl ⟨e, ⟨rfl, rfl⟩, rfl⟩
      · rintro (⟨e', ⟨h, rfl⟩, rfl⟩ | ⟨a, s₁, ⟨h, -⟩, -⟩)
        · cases h
          exact ⟨rfl, rfl⟩
        · cases h
  | read k ih => exact ih s.1
  | write memory k ih => exact ih
  | call c k ih =>
    show (_ ∨ _) ↔ _
    rw [ih, ih]
    constructor
    · rintro ((⟨e, h, rfl⟩ | ⟨a, s₁, h, hf⟩) | ⟨e, h, rfl⟩ | ⟨a, s₁, h, hf⟩)
      · exact .inl ⟨e, .inl h, rfl⟩
      · exact .inr ⟨a, s₁, .inl h, hf⟩
      · exact .inl ⟨e, .inr h, rfl⟩
      · exact .inr ⟨a, s₁, .inr h, hf⟩
    · rintro (⟨e, h | h, rfl⟩ | ⟨a, s₁, h | h, hf⟩)
      · exact .inl (.inl ⟨e, h, rfl⟩)
      · exact .inr (.inl ⟨e, h, rfl⟩)
      · exact .inl (.inr ⟨a, s₁, h, hf⟩)
      · exact .inr (.inr ⟨a, s₁, h, hf⟩)

theorem runs_ignoreError {p : Async μ κ ρ Unit} {result : Except String Unit} :
    p.ignoreError.Runs serve s result s' ↔
      result = .ok () ∧ ∃ result', p.Runs serve s result' s' := by
  induction p generalizing s with
  | settled result' => simp [ignoreError, eq_comm]
  | read k ih => exact ih s.1
  | write memory k ih => exact ih
  | call c k ih =>
    show (_ ∨ _) ↔ _
    rw [ih, ih, ← and_or_left, ← exists_or]
    rfl

end Runs

/-! ## The calls of a program -/

/-- Every call that the program may make satisfies `P`. -/
def Calls (P : κ → Prop) : Async μ κ ρ α → Prop
  | settled _ => True
  | read k => ∀ memory, (k memory).Calls P
  | write _ k => k.Calls P
  | call c k => P c ∧ ∀ response, (k response).Calls P

variable {P : κ → Prop} {p : Async μ κ ρ α} {f : α → Async μ κ ρ β}

@[simp] theorem calls_pure (a : α) : (pure a : Async μ κ ρ α).Calls P := trivial

@[simp] theorem calls_throw (e : String) : (throw e : Async μ κ ρ α).Calls P := trivial

@[simp] theorem calls_memory : (memory : Async μ κ ρ μ).Calls P := fun _ => trivial

@[simp] theorem calls_setMemory (m : μ) : (setMemory m : Async μ κ ρ Unit).Calls P := trivial

theorem calls_await {c : κ} (h : P c) : (await c : Async μ κ ρ ρ).Calls P := by
  refine ⟨h, fun response => ?_⟩
  cases response with
  | none => trivial
  | some response => trivial

theorem Calls.bind (hp : p.Calls P) (hf : ∀ a, (f a).Calls P) : (p >>= f).Calls P := by
  show (p.bind f).Calls P
  induction p with
  | settled result =>
    cases result with
    | ok a => exact hf a
    | error e => trivial
  | read k ih => exact fun memory => ih memory (hp memory)
  | write memory k ih => exact ih hp
  | call c k ih => exact ⟨hp.1, fun response => ih response (hp.2 response)⟩

theorem Calls.ignoreError {p : Async μ κ ρ Unit} (hp : p.Calls P) : p.ignoreError.Calls P := by
  induction p with
  | settled result => trivial
  | read k ih => exact fun memory => ih memory (hp memory)
  | write memory k ih => exact ih hp
  | call c k ih => exact ⟨hp.1, fun response => ih response (hp.2 response)⟩

theorem Calls.mono {P' : κ → Prop} (hp : p.Calls P) (hall : ∀ c, P c → P' c) : p.Calls P' := by
  induction p with
  | settled result => trivial
  | read k ih => exact fun memory => ih memory (hp memory)
  | write memory k ih => exact ih hp
  | call c k ih => exact ⟨hall c hp.1, fun response => ih response (hp.2 response)⟩

/-- Whatever the answers, what the program gives satisfies `Q`. -/
def Gives (Q : α → Prop) : Async μ κ ρ α → Prop
  | settled (.ok a) => Q a
  | settled (.error _) => True
  | read k => ∀ memory, (k memory).Gives Q
  | write _ k => k.Gives Q
  | call _ k => ∀ response, (k response).Gives Q

variable {Q : α → Prop}

@[simp] theorem gives_pure {a : α} : (pure a : Async μ κ ρ α).Gives Q ↔ Q a := Iff.rfl

/-- What is called after a program is called with what it gives. -/
theorem Calls.bind_gives (hp : p.Calls P) (hgives : p.Gives Q) (hf : ∀ a, Q a → (f a).Calls P) :
    (p >>= f).Calls P := by
  show (p.bind f).Calls P
  induction p with
  | settled result =>
    cases result with
    | ok a => exact hf a hgives
    | error e => trivial
  | read k ih => exact fun memory => ih memory (hp memory) (hgives memory)
  | write memory k ih => exact ih hp hgives
  | call c k ih => exact ⟨hp.1, fun response => ih response (hp.2 response) (hgives response)⟩

theorem Gives.bind {Q' : β → Prop} (hf : ∀ a, (f a).Gives Q') : (p >>= f).Gives Q' := by
  show (p.bind f).Gives Q'
  induction p with
  | settled result =>
    cases result with
    | ok a => exact hf a
    | error e => trivial
  | read k ih => exact ih
  | write memory k ih => exact ih
  | call c k ih => exact ih

/-- What none of its calls changes, a program leaves. -/
theorem Calls.frame {γ : Type} {g : σ → γ} {serve : κ → σ → ρ × σ}
    (hp : p.Calls fun c => ∀ w, g (serve c w).2 = g w) {s s' : μ × σ} {result : Except String α}
    (h : p.Runs serve s result s') : g s'.2 = g s.2 := by
  induction p generalizing s with
  | settled result' =>
    obtain ⟨-, rfl⟩ := h
    rfl
  | read k ih => exact ih s.1 (hp s.1) h
  | write memory k ih => exact ih (s := (memory, s.2)) hp h
  | call c k ih =>
    rcases h with h | h
    · exact (ih _ (hp.2 _) h).trans (hp.1 s.2)
    · exact ih _ (hp.2 _) h

/-! ## Up to the next call -/

/-- The part of a program that no call interrupts. -/
def advance : Async μ κ ρ α → μ → Async μ κ ρ α × μ
  | settled result, memory => (settled result, memory)
  | read k, memory => (k memory).advance memory
  | write memory k, _ => k.advance memory
  | call c k, memory => (call c k, memory)

variable {serve : κ → σ → ρ × σ}

theorem runs_advance {memory : μ} {w : σ} {result : Except String α} {s' : μ × σ} :
    (p.advance memory).1.Runs serve ((p.advance memory).2, w) result s' ↔
      p.Runs serve (memory, w) result s' := by
  induction p generalizing memory with
  | settled result' => exact Iff.rfl
  | read k ih => exact ih memory
  | write memory k ih => exact ih
  | call c k ih => exact Iff.rfl

theorem Calls.advance (hp : p.Calls P) (memory : μ) : (p.advance memory).1.Calls P := by
  induction p generalizing memory with
  | settled result => trivial
  | read k ih => exact ih memory (hp memory) memory
  | write written k ih => exact ih hp written
  | call c k ih => exact hp

/-- A program that waits for an answer, or has settled. -/
def Paused : Async μ κ ρ α → Prop
  | settled _ => True
  | call _ _ => True
  | _ => False

theorem paused_advance (p : Async μ κ ρ α) (memory : μ) : (p.advance memory).1.Paused := by
  induction p generalizing memory with
  | settled result => trivial
  | read k ih => exact ih memory memory
  | write written k ih => exact ih written
  | call c k ih => trivial

end Async

/-! ## A chain of operations -/

/-- An operation that was called. `queued` is whether it waits for the tail of the chain and becomes
it; the others are rejected when they are called. -/
structure Task (μ κ ρ α : Type) where
  origin : Async μ κ ρ α
  queued : Bool
  started : Bool
  program : Async μ κ ρ α

structure Chain (μ κ ρ α σ : Type) where
  memory : μ
  world : σ
  /-- In the order of the calls. -/
  tasks : List (Task μ κ ρ α)

inductive ChainEvent (μ κ ρ α : Type) where
  | called (operation : Async μ κ ρ α)
  | rejected (error : String)
  | started (index : ℕ)
  | answered (index : ℕ) (succeeds : Bool)

namespace Task

variable {μ κ ρ α : Type}

/-- The result of a task that has settled. -/
def result? (task : Task μ κ ρ α) : Option (Except String α) :=
  match task.program with
  | .settled result => if task.started then some result else none
  | _ => none

def pending (operation : Async μ κ ρ α) : Task μ κ ρ α := ⟨operation, true, false, operation⟩

def refused (e : String) : Task μ κ ρ α := ⟨.throw e, false, true, .throw e⟩

/-- The task after its program went on. -/
def advanced (task : Task μ κ ρ α) (p : Async μ κ ρ α) (memory : μ) : Task μ κ ρ α :=
  { task with started := true, program := (p.advance memory).1 }

end Task

namespace Chain

variable {μ κ ρ α σ : Type}

def start (memory : μ) (world : σ) : Chain μ κ ρ α σ := ⟨memory, world, []⟩

/-- The tail of the chain when the task was called has settled. -/
def ready (tasks : List (Task μ κ ρ α)) (index : ℕ) : Bool :=
  match ((tasks.take index).filter Task.queued).getLast? with
  | none => true
  | some tail => tail.result?.isSome

def goOn (q : Chain μ κ ρ α σ) (index : ℕ) (task : Task μ κ ρ α) (p : Async μ κ ρ α) (world : σ) :
    Chain μ κ ρ α σ where
  memory := (p.advance q.memory).2
  world := world
  tasks := q.tasks.set index (task.advanced p q.memory)

def step (serve : κ → σ → ρ × σ) (q : Chain μ κ ρ α σ) :
    ChainEvent μ κ ρ α → Option (Chain μ κ ρ α σ)
  | .called operation => some { q with tasks := q.tasks ++ [Task.pending operation] }
  | .rejected e => some { q with tasks := q.tasks ++ [Task.refused e] }
  | .started index =>
    match q.tasks[index]? with
    | some task =>
      if !task.started && ready q.tasks index then some (q.goOn index task task.program q.world) else none
    | none => none
  | .answered index succeeds =>
    match q.tasks[index]? with
    | some task =>
      match task.program with
      | .call c k =>
        if task.started then
          if succeeds then
            some (q.goOn index task (k (some (serve c q.world).1)) (serve c q.world).2)
          else some (q.goOn index task (k none) q.world)
        else none
      | _ => none
    | none => none

def Step (serve : κ → σ → ρ × σ) (q : Chain μ κ ρ α σ) (e : ChainEvent μ κ ρ α)
    (q' : Chain μ κ ρ α σ) : Prop := q.step serve e = some q'

end Chain

/-! ## What was done is a sequential run -/

namespace Task

variable {μ κ ρ α : Type}

/-- Nothing was done for the task yet, or nothing is to be done. -/
def Idle (task : Task μ κ ρ α) : Prop :=
  (∃ operation, task = pending operation) ∨ ∃ e, task = refused e

end Task

section Serial

variable {μ κ ρ α σ : Type} (serve : κ → σ → ρ × σ)

/-- From a memory and a world, the tasks that have settled ran one after another, one may be on its
way, and the rest have not begun. `s'` is where that has led. -/
inductive Serial : μ × σ → List (Task μ κ ρ α) → μ × σ → Prop where
  | nil (s : μ × σ) : Serial s [] s
  | settled {s s₁ s' : μ × σ} {task : Task μ κ ρ α} {rest : List (Task μ κ ρ α)}
      (result : Except String α) (hresult : task.result? = some result)
      (hruns : task.origin.Runs serve s result s₁) (hrest : Serial s₁ rest s') :
      Serial s (task :: rest) s'
  | running {s s' : μ × σ} {task : Task μ κ ρ α} {rest : List (Task μ κ ρ α)} (c : κ)
      (k : Option ρ → Async μ κ ρ α) (hqueued : task.queued = true) (hstarted : task.started = true)
      (hprogram : task.program = .call c k)
      (hruns : ∀ result s₁, task.program.Runs serve s' result s₁ → task.origin.Runs serve s result s₁)
      (hrest : ∀ other ∈ rest, Task.Idle other) : Serial s (task :: rest) s'
  | waiting {s : μ × σ} {rest : List (Task μ κ ρ α)} (operation : Async μ κ ρ α)
      (hrest : ∀ other ∈ rest, Task.Idle other) : Serial s (Task.pending operation :: rest) s

variable {serve}

/-- Where nothing has begun, nothing was done. -/
theorem Serial.of_idle {s : μ × σ} {tasks : List (Task μ κ ρ α)}
    (h : ∀ task ∈ tasks, Task.Idle task) : Serial serve s tasks s := by
  induction tasks with
  | nil => exact .nil s
  | cons task rest ih =>
    have hrest := fun other hmem => h other (List.mem_cons_of_mem _ hmem)
    rcases h task List.mem_cons_self with ⟨operation, rfl⟩ | ⟨e, rfl⟩
    · exact .waiting operation hrest
    · exact .settled (.error e) rfl ⟨rfl, rfl⟩ (ih hrest)

/-- A call of an operation comes last. -/
theorem Serial.append {s s' : μ × σ} {tasks : List (Task μ κ ρ α)} {task : Task μ κ ρ α}
    (h : Serial serve s tasks s') (htask : Task.Idle task) : Serial serve s (tasks ++ [task]) s' := by
  have hall : ∀ {rest : List (Task μ κ ρ α)}, (∀ other ∈ rest, Task.Idle other) →
      ∀ other ∈ rest ++ [task], Task.Idle other := by
    intro rest hrest other hmem
    rcases List.mem_append.1 hmem with hmem | hmem
    · exact hrest other hmem
    · rw [List.mem_singleton.1 hmem]
      exact htask
  induction h with
  | nil s => exact .of_idle (by simpa using htask)
  | settled result hresult hruns _ ih => exact .settled result hresult hruns ih
  | running c k hqueued hstarted hprogram hruns hrest =>
    exact .running c k hqueued hstarted hprogram hruns (hall hrest)
  | waiting operation hrest => exact .waiting operation (hall hrest)

/-- The task that goes on: its program has paused again. -/
theorem Serial.advanced {s : μ × σ} {task : Task μ κ ρ α} {rest : List (Task μ κ ρ α)}
    {p : Async μ κ ρ α} {memory : μ} {world : σ} (hqueued : task.queued = true)
    (hruns : ∀ result s', p.Runs serve (memory, world) result s' → task.origin.Runs serve s result s')
    (hrest : ∀ other ∈ rest, Task.Idle other) :
    Serial serve s (task.advanced p memory :: rest) ((p.advance memory).2, world) := by
  have hpaused := p.paused_advance memory
  cases hprogram : (p.advance memory).1 with
  | settled result =>
    refine .settled result ?_ (hruns result _ ?_) (.of_idle hrest)
    · simp [Task.result?, Task.advanced, hprogram]
    · rw [← Async.runs_advance, hprogram]
      exact ⟨rfl, rfl⟩
  | call c k =>
    refine .running c k hqueued rfl hprogram (fun result s' h => ?_) hrest
    refine hruns result s' ?_
    rw [← Async.runs_advance]
    exact h
  | read k =>
    rw [hprogram] at hpaused
    cases hpaused
  | write m k =>
    rw [hprogram] at hpaused
    cases hpaused

theorem result?_eq_some {task : Task μ κ ρ α} {result : Except String α}
    (h : task.result? = some result) : task.started = true ∧ task.program = .settled result := by
  unfold Task.result? at h
  split at h
  · rename_i found hprogram
    split at h
    · rename_i hstarted
      cases h
      exact ⟨hstarted, hprogram⟩
    · cases h
  · cases h

/-- A task behind the first that has not settled is not ready. -/
theorem not_ready {first : Task μ κ ρ α} {rest : List (Task μ κ ρ α)} (hqueued : first.queued = true)
    (hresult : first.result? = none) (hrest : ∀ other ∈ rest, Task.Idle other) (index : ℕ) :
    Chain.ready (first :: rest) (index + 1) = false := by
  unfold Chain.ready
  rw [List.take_succ_cons, List.filter_cons_of_pos hqueued]
  cases hlast : (first :: (rest.take index).filter Task.queued).getLast? with
  | none => simp at hlast
  | some tail =>
    have hmem := List.mem_of_getLast? hlast
    have hnone : tail.result? = none := by
      rcases List.mem_cons.1 hmem with rfl | hmem
      · exact hresult
      · obtain ⟨hin, htail⟩ := List.mem_filter.1 hmem
        rcases hrest tail (List.mem_of_mem_take hin) with ⟨operation, rfl⟩ | ⟨e, rfl⟩
        · cases operation <;> rfl
        · cases htail
    simp [hnone]

/-- What is ready is so without a task that comes first. -/
theorem ready_tail {first : Task μ κ ρ α} {rest : List (Task μ κ ρ α)} {index : ℕ}
    (h : Chain.ready (first :: rest) (index + 1) = true) : Chain.ready rest index = true := by
  unfold Chain.ready at h ⊢
  cases hlast : ((rest.take index).filter Task.queued).getLast? with
  | none => rfl
  | some tail =>
    rw [List.take_succ_cons] at h
    by_cases hqueued : first.queued = true
    · rw [List.filter_cons_of_pos hqueued, List.getLast?_cons, hlast] at h
      exact h
    · rw [List.filter_cons_of_neg hqueued, hlast] at h
      exact h

/-- A task that begins is the first that has not settled. -/
theorem Serial.begin {s : μ × σ} {memory : μ} {world : σ} {tasks : List (Task μ κ ρ α)}
    (h : Serial serve s tasks (memory, world)) {index : ℕ} {task : Task μ κ ρ α}
    (hget : tasks[index]? = some task) (hnew : task.started = false)
    (hready : Chain.ready tasks index = true) :
    Serial serve s (tasks.set index (task.advanced task.program memory))
      ((task.program.advance memory).2, world) := by
  generalize hs' : (memory, world) = s' at h
  induction h generalizing index with
  | nil s => cases hget
  | @settled s s₁ s' first rest result hresult hruns hrest ih =>
    cases index with
    | zero =>
      cases hget
      rw [(result?_eq_some hresult).1] at hnew
      cases hnew
    | succ index => exact .settled result hresult hruns (ih hget (ready_tail hready) hs')
  | @running s s' first rest c k hqueued hstarted hprogram hruns hrest =>
    cases index with
    | zero =>
      cases hget
      rw [hstarted] at hnew
      cases hnew
    | succ index =>
      rw [not_ready hqueued (by simp [Task.result?, hprogram]) hrest index] at hready
      cases hready
  | @waiting s rest operation hrest =>
    cases index with
    | zero =>
      cases hget
      subst hs'
      exact .advanced rfl (fun _ _ h => h) hrest
    | succ index =>
      have hnone : (Task.pending operation).result? = none := by cases operation <;> rfl
      rw [not_ready rfl hnone hrest index] at hready
      cases hready

/-- An answer comes for the task that is on its way. -/
theorem Serial.answer {s : μ × σ} {memory : μ} {world world' : σ} {tasks : List (Task μ κ ρ α)}
    (h : Serial serve s tasks (memory, world)) {index : ℕ} {task : Task μ κ ρ α}
    (hget : tasks[index]? = some task) (hstarted : task.started = true) {c : κ}
    {k : Option ρ → Async μ κ ρ α} (hprogram : task.program = .call c k) {p : Async μ κ ρ α}
    (hruns : ∀ result s₁, p.Runs serve (memory, world') result s₁ →
      task.program.Runs serve (memory, world) result s₁) :
    Serial serve s (tasks.set index (task.advanced p memory)) ((p.advance memory).2, world') := by
  have hnot : ∀ {other : Task μ κ ρ α}, Task.Idle other → other ≠ task := by
    rintro other (⟨operation, rfl⟩ | ⟨e, rfl⟩) rfl
    · cases hstarted
    · cases hprogram
  generalize hs' : (memory, world) = s' at h
  induction h generalizing index with
  | nil s => cases hget
  | @settled s s₁ s' first rest result hresult hfirst hrest ih =>
    cases index with
    | zero =>
      cases hget
      rw [(result?_eq_some hresult).2] at hprogram
      cases hprogram
    | succ index => exact .settled result hresult hfirst (ih hget hs')
  | @running s s' first rest c' k' hqueued hstarted' hprogram' hfirst hrest =>
    cases index with
    | zero =>
      cases hget
      subst hs'
      exact .advanced hqueued (fun result s₁ h => hfirst result s₁ (hruns result s₁ h)) hrest
    | succ index =>
      exact absurd rfl (hnot (hrest task (List.mem_of_getElem? hget)))
  | @waiting s rest operation hrest =>
    cases index with
    | zero =>
      cases hget
      cases hstarted
    | succ index =>
      exact absurd rfl (hnot (hrest task (List.mem_of_getElem? hget)))

theorem Serial.step {s : μ × σ} {q q' : Chain μ κ ρ α σ} {e : ChainEvent μ κ ρ α}
    (h : Serial serve s q.tasks (q.memory, q.world)) (hs : Chain.Step serve q e q') :
    Serial serve s q'.tasks (q'.memory, q'.world) := by
  unfold Chain.Step Chain.step at hs
  cases e with
  | called operation =>
    cases hs
    exact h.append (.inl ⟨operation, rfl⟩)
  | rejected e =>
    cases hs
    exact h.append (.inr ⟨e, rfl⟩)
  | started index =>
    dsimp only at hs
    split at hs
    · rename_i task hget
      split at hs
      · rename_i hok
        rw [Bool.and_eq_true, Bool.not_eq_true'] at hok
        cases hs
        exact h.begin hget hok.1 hok.2
      · cases hs
    · cases hs
  | answered index succeeds =>
    dsimp only at hs
    split at hs
    · rename_i task hget
      split at hs
      · rename_i c k hprogram
        split at hs
        · rename_i hstarted
          split at hs
          · cases hs
            refine h.answer hget hstarted hprogram fun result s₁ hruns => ?_
            rw [hprogram]
            exact .inl hruns
          · cases hs
            refine h.answer hget hstarted hprogram fun result s₁ hruns => ?_
            rw [hprogram]
            exact .inr hruns
        · cases hs
      · cases hs
    · cases hs

/-- What an event adds to the operations that were called. -/
def ChainEvent.operation : ChainEvent μ κ ρ α → List (Async μ κ ρ α)
  | .called operation => [operation]
  | .rejected e => [.throw e]
  | _ => []

theorem Chain.origins_goOn {q : Chain μ κ ρ α σ} {index : ℕ} {task : Task μ κ ρ α}
    (hget : q.tasks[index]? = some task) (p : Async μ κ ρ α) (world : σ) :
    (q.goOn index task p world).tasks.map Task.origin = q.tasks.map Task.origin := by
  show (q.tasks.set index (task.advanced p q.memory)).map Task.origin = _
  refine List.ext_getElem? fun other => ?_
  rw [List.getElem?_map, List.getElem?_map, List.getElem?_set]
  split
  · rename_i heq
    subst heq
    rw [if_pos (List.getElem?_eq_some_iff.1 hget).1, hget]
    rfl
  · rfl

/-- A task stays the operation it was called as. -/
theorem Chain.Step.origins {q q' : Chain μ κ ρ α σ} {e : ChainEvent μ κ ρ α}
    (hs : Chain.Step serve q e q') :
    q'.tasks.map Task.origin = q.tasks.map Task.origin ++ e.operation := by
  unfold Chain.Step Chain.step at hs
  cases e with
  | called operation =>
    cases hs
    exact List.map_append
  | rejected e =>
    cases hs
    exact List.map_append
  | started index =>
    dsimp only at hs
    split at hs
    · rename_i task hget
      split at hs
      · cases hs
        exact (origins_goOn hget _ _).trans (List.append_nil _).symm
      · cases hs
    · cases hs
  | answered index succeeds =>
    dsimp only at hs
    split at hs
    · rename_i task hget
      split at hs
      · split at hs
        · split at hs
          · cases hs
            exact (origins_goOn hget _ _).trans (List.append_nil _).symm
          · cases hs
            exact (origins_goOn hget _ _).trans (List.append_nil _).symm
        · cases hs
      · cases hs
    · cases hs

/-- No task makes a call that its operation may not make. -/
theorem Chain.Step.calls {P : κ → Prop} {q q' : Chain μ κ ρ α σ} {e : ChainEvent μ κ ρ α}
    (hs : Chain.Step serve q e q') (hall : ∀ task ∈ q.tasks, task.program.Calls P)
    (he : ∀ operation ∈ e.operation, operation.Calls P) :
    ∀ task ∈ q'.tasks, task.program.Calls P := by
  have hgoOn : ∀ {index : ℕ} {task : Task μ κ ρ α} {p : Async μ κ ρ α} {world : σ}, p.Calls P →
      ∀ other ∈ (q.goOn index task p world).tasks, other.program.Calls P := by
    intro index task p world hp other hmem
    rcases List.mem_or_eq_of_mem_set hmem with hmem | rfl
    · exact hall other hmem
    · exact hp.advance q.memory
  have hcalled : ∀ {task : Task μ κ ρ α}, task.program.Calls P →
      ∀ other ∈ q.tasks ++ [task], other.program.Calls P := by
    intro task htask other hmem
    rcases List.mem_append.1 hmem with hmem | hmem
    · exact hall other hmem
    · rw [List.mem_singleton.1 hmem]
      exact htask
  unfold Chain.Step Chain.step at hs
  cases e with
  | called operation =>
    cases hs
    exact hcalled (he operation (List.mem_singleton_self _))
  | rejected e =>
    cases hs
    exact hcalled trivial
  | started index =>
    dsimp only at hs
    split at hs
    · rename_i task hget
      split at hs
      · cases hs
        exact hgoOn (hall task (List.mem_of_getElem? hget))
      · cases hs
    · cases hs
  | answered index succeeds =>
    dsimp only at hs
    split at hs
    · rename_i task hget
      have htask := hall task (List.mem_of_getElem? hget)
      split at hs
      · rename_i c k hprogram
        rw [hprogram] at htask
        split at hs
        · split at hs
          · cases hs
            exact hgoOn (htask.2 _)
          · cases hs
            exact hgoOn (htask.2 _)
        · cases hs
      · cases hs
    · cases hs

/-- The world changes only by a call that a task has made. -/
theorem Chain.Step.world {q q' : Chain μ κ ρ α σ} {e : ChainEvent μ κ ρ α}
    (hs : Chain.Step serve q e q') : q'.world = q.world ∨
      ∃ task ∈ q.tasks, ∃ c k, task.program = .call c k ∧ q'.world = (serve c q.world).2 := by
  unfold Chain.Step Chain.step at hs
  cases e with
  | called operation =>
    cases hs
    exact .inl rfl
  | rejected e =>
    cases hs
    exact .inl rfl
  | started index =>
    dsimp only at hs
    split at hs
    · split at hs
      · cases hs
        exact .inl rfl
      · cases hs
    · cases hs
  | answered index succeeds =>
    dsimp only at hs
    split at hs
    · rename_i task hget
      split at hs
      · rename_i c k hprogram
        split at hs
        · split at hs
          · cases hs
            exact .inr ⟨task, List.mem_of_getElem? hget, c, k, hprogram, rfl⟩
          · cases hs
            exact .inl rfl
        · cases hs
      · cases hs
    · cases hs

/-- A run of operations, one after another, with their results. -/
inductive Sequential (serve : κ → σ → ρ × σ) :
    μ × σ → List (Async μ κ ρ α) → List (Except String α) → μ × σ → Prop where
  | nil (s : μ × σ) : Sequential serve s [] [] s
  | cons {s s₁ s' : μ × σ} {p : Async μ κ ρ α} {result : Except String α} {rest results} :
      p.Runs serve s result s₁ → Sequential serve s₁ rest results s' →
      Sequential serve s (p :: rest) (result :: results) s'

/-- Where all tasks have settled, they were run in the order of the calls. -/
theorem Serial.sequential {s s' : μ × σ} {tasks : List (Task μ κ ρ α)}
    (h : Serial serve s tasks s') {results : List (Except String α)}
    (hresults : tasks.map Task.result? = results.map some) :
    Sequential serve s (tasks.map Task.origin) results s' := by
  induction h generalizing results with
  | nil s =>
    rw [List.map_nil, eq_comm, List.map_eq_nil_iff] at hresults
    rw [hresults]
    exact .nil s
  | @settled s s₁ s' task rest result hresult hruns hrest ih =>
    cases results with
    | nil => cases hresults
    | cons other results =>
      rw [List.map_cons, List.map_cons, List.cons.injEq, hresult] at hresults
      obtain rfl := Option.some.inj hresults.1
      exact .cons hruns (ih hresults.2)
  | @running s s' task rest c k hqueued hstarted hprogram hruns hrest =>
    cases results with
    | nil => cases hresults
    | cons other results =>
      rw [List.map_cons, List.map_cons, List.cons.injEq] at hresults
      simp [Task.result?, hprogram] at hresults
  | @waiting s rest operation hrest =>
    cases results with
    | nil => cases hresults
    | cons other results =>
      rw [List.map_cons, List.map_cons, List.cons.injEq] at hresults
      have hnone : (Task.pending operation).result? = none := by cases operation <;> rfl
      rw [hnone] at hresults
      cases hresults.1

/-- What was done up to the first task that has not settled, and nothing was done behind it. That
task goes on where nothing interferes. -/
theorem Serial.split {s s' : μ × σ} {tasks : List (Task μ κ ρ α)} (h : Serial serve s tasks s') :
    ∃ done rest results s₁, tasks = done ++ rest ∧ done.map Task.result? = results.map some ∧
      Sequential serve s (done.map Task.origin) results s₁ ∧
      (rest = [] ∧ s₁ = s' ∨ ∃ task behind, rest = task :: behind ∧ task.result? = none ∧
        (∀ result s₂, task.program.Runs serve s' result s₂ → task.origin.Runs serve s₁ result s₂) ∧
        (task = Task.pending task.origin ∨ task.started = true ∧ ∃ c k, task.program = .call c k) ∧
        ∀ other ∈ behind, Task.Idle other) := by
  induction h with
  | nil s => exact ⟨[], [], [], s, rfl, rfl, .nil s, .inl ⟨rfl, rfl⟩⟩
  | @settled s s₁ s' task rest result hresult hruns hrest ih =>
    obtain ⟨done, rest', results, s₂, rfl, hresults, hsequential, hbehind⟩ := ih
    refine ⟨task :: done, rest', result :: results, s₂, rfl, ?_, .cons hruns hsequential, hbehind⟩
    rw [List.map_cons, List.map_cons, hresult, hresults]
  | @running s s' task rest c k hqueued hstarted hprogram hruns hrest =>
    refine ⟨[], task :: rest, [], s, rfl, rfl, .nil s, .inr ⟨task, rest, rfl, ?_, hruns, ?_, hrest⟩⟩
    · simp [Task.result?, hprogram]
    · exact .inr ⟨hstarted, c, k, hprogram⟩
  | @waiting s rest operation hrest =>
    refine ⟨[], _, [], s, rfl, rfl, .nil s, .inr ⟨_, rest, rfl, ?_, fun _ _ h => h, .inl rfl, hrest⟩⟩
    cases operation <;> rfl

/-- A task whose predecessors have settled is ready. -/
theorem ready_of_settled {done rest : List (Task μ κ ρ α)} {results : List (Except String α)}
    (h : done.map Task.result? = results.map some) : Chain.ready (done ++ rest) done.length = true := by
  unfold Chain.ready
  rw [List.take_left]
  cases hlast : (done.filter Task.queued).getLast? with
  | none => rfl
  | some tail =>
    have hmem : tail.result? ∈ done.map Task.result? :=
      List.mem_map_of_mem (List.mem_filter.1 (List.mem_of_getLast? hlast)).1
    rw [h] at hmem
    obtain ⟨result, -, hresult⟩ := List.mem_map.1 hmem
    show tail.result?.isSome = true
    rw [← hresult]
    rfl

/-- A chain with a task that has not settled goes on: a task can begin, or an answer is awaited. -/
theorem Serial.progress {s : μ × σ} {q : Chain μ κ ρ α σ}
    (h : Serial serve s q.tasks (q.memory, q.world)) {task : Task μ κ ρ α} (hmem : task ∈ q.tasks)
    (hnone : task.result? = none) :
    ∃ index, (∃ q', Chain.Step serve q (.started index) q') ∨
      ∀ succeeds, ∃ q', Chain.Step serve q (.answered index succeeds) q' := by
  obtain ⟨done, rest, results, s₁, htasks, hresults, -, hrest⟩ := h.split
  have hdone : ∀ other ∈ done, other.result? ≠ none := by
    intro other hin heq
    have hin : other.result? ∈ done.map Task.result? := List.mem_map_of_mem hin
    rw [hresults, heq] at hin
    obtain ⟨result, -, hresult⟩ := List.mem_map.1 hin
    cases hresult
  rcases hrest with ⟨rfl, -⟩ | ⟨first, behind, rfl, -, -, hfirst, -⟩
  · rw [htasks, List.append_nil] at hmem
    exact absurd hnone (hdone task hmem)
  · have hget : q.tasks[done.length]? = some first := by
      rw [htasks, List.getElem?_append_right (Nat.le_refl _), Nat.sub_self, List.getElem?_cons_zero]
    refine ⟨done.length, ?_⟩
    unfold Chain.Step Chain.step
    dsimp only
    rw [hget]
    rcases hfirst with hpending | ⟨hstarted, c, k, hprogram⟩
    · left
      have hready : Chain.ready q.tasks done.length = true := by
        rw [htasks]
        exact ready_of_settled hresults
      have hnew : first.started = false := by
        rw [hpending]
        rfl
      dsimp only
      rw [hnew, hready]
      exact ⟨_, rfl⟩
    · right
      intro succeeds
      dsimp only
      rw [hprogram, hstarted]
      cases succeeds with
      | false => exact ⟨_, rfl⟩
      | true => exact ⟨_, rfl⟩

/-- Whatever the order of the calls and of the answers, the tasks run one after another. -/
theorem Serial.of_run {memory : μ} {world : σ} {h : List (Transition (Chain μ κ ρ α σ) _)}
    {q : Chain μ κ ρ α σ} (run : Run (Chain.Step serve) (Chain.start memory world) h q) :
    Serial serve (memory, world) q.tasks (q.memory, q.world) :=
  run.invariant (P := fun q => Serial serve (memory, world) q.tasks (q.memory, q.world)) (.nil _)
    fun _ _ _ hserial hs => hserial.step hs

end Serial

end PinOp.Lib
