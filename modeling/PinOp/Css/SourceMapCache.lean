import Mathlib
import PinOp.Lib.OrderedMap
import PinOp.Lib.Recency

/-!
# The cache of source maps

Outcomes of loading a source map are kept under a key, the one used longest ago first. What they
weigh is counted beside the entries, in bytes and in mapping records; `evict` drops entries from the
front until their number and both weights are within the limits.
-/

namespace PinOp.Css

open PinOp.Lib

structure WeightedSourceMapOutcomeEntry (ν : Type) where
  outcome : ν
  decodedBytes : ℕ
  mappingRecords : ℕ

structure SourceMapCacheLimits where
  maxEntries : ℕ
  maxDecodedBytes : ℕ
  maxMappingRecords : ℕ

structure WeightedSourceMapOutcomeCache (ν : Type) where
  entries : OrderedMap String (WeightedSourceMapOutcomeEntry ν) := ∅
  decodedBytes : ℤ := 0
  mappingRecords : ℤ := 0

namespace WeightedSourceMapOutcomeCache

variable {ν : Type} (limits : SourceMapCacheLimits)

def isOver (cache : WeightedSourceMapOutcomeCache ν) : Bool :=
  cache.entries.size > limits.maxEntries || cache.decodedBytes > limits.maxDecodedBytes ||
    cache.mappingRecords > limits.maxMappingRecords

/-- The loop of `evict`; every round that goes on deletes an entry. -/
def evictFrom : ℕ → WeightedSourceMapOutcomeCache ν → WeightedSourceMapOutcomeCache ν
  | 0, cache => cache
  | rounds + 1, cache =>
    if cache.isOver limits then
      match cache.entries.entries with
      | [] => cache
      | (key, oldest) :: _ =>
        evictFrom rounds
          { entries := cache.entries.delete key
            decodedBytes := cache.decodedBytes - oldest.decodedBytes
            mappingRecords := cache.mappingRecords - oldest.mappingRecords }
    else cache

def evict (cache : WeightedSourceMapOutcomeCache ν) : WeightedSourceMapOutcomeCache ν :=
  evictFrom limits cache.entries.size cache

def get (cache : WeightedSourceMapOutcomeCache ν) (key : String) :
    Option ν × WeightedSourceMapOutcomeCache ν :=
  match cache.entries.get? key with
  | none => (none, cache)
  | some entry =>
    (some entry.outcome, { cache with entries := (cache.entries.delete key).set key entry })

/-- `set` up to its eviction. -/
def put (cache : WeightedSourceMapOutcomeCache ν) (key : String) (outcome : ν) (decodedBytes : ℕ) :
    WeightedSourceMapOutcomeCache ν :=
  let cache :=
    match cache.entries.get? key with
    | none => cache
    | some previous =>
      { cache with
        decodedBytes := cache.decodedBytes - previous.decodedBytes
        mappingRecords := cache.mappingRecords - previous.mappingRecords }
  { cache with
    entries := (cache.entries.delete key).set key ⟨outcome, decodedBytes, 0⟩
    decodedBytes := cache.decodedBytes + decodedBytes }

def set (cache : WeightedSourceMapOutcomeCache ν) (key : String) (outcome : ν)
    (decodedBytes : ℕ) : WeightedSourceMapOutcomeCache ν :=
  (cache.put key outcome decodedBytes).evict limits

/-- `setMappingRecords` up to its eviction; `none` when the key has no entry. -/
def reweigh (cache : WeightedSourceMapOutcomeCache ν) (key : String) (mappingRecords : ℕ) :
    Option (WeightedSourceMapOutcomeCache ν) :=
  (cache.entries.get? key).map fun current =>
    { cache with
      entries := (cache.entries.delete key).set key { current with mappingRecords }
      mappingRecords := cache.mappingRecords - current.mappingRecords + mappingRecords }

def setMappingRecords (cache : WeightedSourceMapOutcomeCache ν) (key : String)
    (mappingRecords : ℕ) : WeightedSourceMapOutcomeCache ν :=
  match cache.reweigh key mappingRecords with
  | none => cache
  | some next => next.evict limits

/-! ## Calls -/

inductive Call (ν : Type) where
  | get (key : String)
  | set (key : String) (outcome : ν) (decodedBytes : ℕ)
  | setMappingRecords (key : String) (mappingRecords : ℕ)

def Call.key : Call ν → String
  | .get key | .set key _ _ | .setMappingRecords key _ => key

/-- The cache of a call before it evicts. -/
def touch (cache : WeightedSourceMapOutcomeCache ν) : Call ν → WeightedSourceMapOutcomeCache ν
  | .get key => (cache.get key).2
  | .set key outcome decodedBytes => cache.put key outcome decodedBytes
  | .setMappingRecords key mappingRecords => (cache.reweigh key mappingRecords).getD cache

def call (cache : WeightedSourceMapOutcomeCache ν) : Call ν → WeightedSourceMapOutcomeCache ν
  | .get key => (cache.get key).2
  | .set key outcome decodedBytes => cache.set limits key outcome decodedBytes
  | .setMappingRecords key mappingRecords => cache.setMappingRecords limits key mappingRecords

/-- The cache behind a list of calls of a new one. -/
def after (calls : List (Call ν)) : WeightedSourceMapOutcomeCache ν :=
  calls.foldl (call limits) {}

/-- The keys whose entries a call behind these drops. -/
def evictedBy (calls : List (Call ν)) (next : Call ν) : List String :=
  ((after limits calls).touch next).entries.keys.filter fun key =>
    !((after limits calls).call limits next).entries.has key

/-! ## The accounts -/

/-- What the entries weigh in bytes. -/
def bytesOf (entries : List (String × WeightedSourceMapOutcomeEntry ν)) : ℕ :=
  (entries.map fun entry => entry.2.decodedBytes).sum

def recordsOf (entries : List (String × WeightedSourceMapOutcomeEntry ν)) : ℕ :=
  (entries.map fun entry => entry.2.mappingRecords).sum

/-- The counters are what the entries weigh. -/
def Exact (cache : WeightedSourceMapOutcomeCache ν) : Prop :=
  cache.decodedBytes = bytesOf cache.entries.entries ∧
    cache.mappingRecords = recordsOf cache.entries.entries

def Fits (entries : List (String × WeightedSourceMapOutcomeEntry ν)) : Prop :=
  entries.length ≤ limits.maxEntries ∧ bytesOf entries ≤ limits.maxDecodedBytes ∧
    recordsOf entries ≤ limits.maxMappingRecords

/-- The shortest prefix is dropped whose removal restores the limits. -/
def Evicts (entries left : List (String × WeightedSourceMapOutcomeEntry ν)) : Prop :=
  ∃ n, left = entries.drop n ∧ Fits limits left ∧ ∀ m < n, ¬Fits limits (entries.drop m)

variable {limits} {cache : WeightedSourceMapOutcomeCache ν} {key : String}

theorem Exact.isOver_iff (h : cache.Exact) :
    cache.isOver limits = true ↔ ¬Fits limits cache.entries.entries := by
  unfold isOver Fits OrderedMap.size
  rw [h.1, h.2]
  simp only [Bool.or_eq_true, decide_eq_true_eq]
  omega

theorem fits_nil (limits : SourceMapCacheLimits) :
    Fits limits ([] : List (String × WeightedSourceMapOutcomeEntry ν)) :=
  ⟨Nat.zero_le _, Nat.zero_le _, Nat.zero_le _⟩

/-- Deleting the oldest entry takes its weight off both counters. -/
theorem Exact.dropOldest {oldest : WeightedSourceMapOutcomeEntry ν}
    {rest : List (String × WeightedSourceMapOutcomeEntry ν)} (h : cache.Exact)
    (hentries : cache.entries.entries = (key, oldest) :: rest) :
    (cache.entries.delete key).entries = rest ∧
      Exact
        { entries := cache.entries.delete key
          decodedBytes := cache.decodedBytes - oldest.decodedBytes
          mappingRecords := cache.mappingRecords - oldest.mappingRecords } := by
  have hdelete : (cache.entries.delete key).entries = rest := by
    have hfirst : cache.entries.firstKey? = some key := by
      rw [OrderedMap.firstKey?, OrderedMap.keys, hentries]
      rfl
    rw [OrderedMap.entries_delete_firstKey hfirst, hentries]
    rfl
  refine ⟨hdelete, ?_, ?_⟩
  · rw [h.1, hentries, hdelete]
    simp only [bytesOf, List.map_cons, List.sum_cons]
    omega
  · rw [h.2, hentries, hdelete]
    simp only [recordsOf, List.map_cons, List.sum_cons]
    omega

theorem Exact.evictFrom {rounds : ℕ} (h : cache.Exact) (hrounds : cache.entries.size ≤ rounds) :
    (cache.evictFrom limits rounds).Exact ∧
      Evicts limits cache.entries.entries (cache.evictFrom limits rounds).entries.entries := by
  induction rounds generalizing cache with
  | zero =>
    have hnil : cache.entries.entries = [] := List.length_eq_zero_iff.1 (Nat.le_zero.1 hrounds)
    exact ⟨h, 0, rfl, by rw [WeightedSourceMapOutcomeCache.evictFrom, hnil]; exact fits_nil limits,
      fun m hm => absurd hm (Nat.not_lt_zero m)⟩
  | succ rounds ih =>
    unfold WeightedSourceMapOutcomeCache.evictFrom
    by_cases hover : cache.isOver limits = true
    · rw [if_pos hover]
      have hnot := h.isOver_iff.1 hover
      cases hentries : cache.entries.entries with
      | nil => exact absurd (by rw [hentries]; exact fits_nil limits) hnot
      | cons first rest =>
        obtain ⟨key, oldest⟩ := first
        obtain ⟨hdelete, hexact⟩ := h.dropOldest hentries
        have hsize : (cache.entries.delete key).size ≤ rounds := by
          rw [OrderedMap.size, hdelete]
          rw [OrderedMap.size, hentries] at hrounds
          exact Nat.le_of_succ_le_succ hrounds
        obtain ⟨hex, n, hleft, hfits, hmin⟩ := ih hexact hsize
        refine ⟨hex, n + 1, by rw [hleft, hdelete]; rfl, hfits, fun m hm => ?_⟩
        cases m with
        | zero =>
          rw [hentries] at hnot
          exact hnot
        | succ m =>
          have := hmin m (Nat.lt_of_succ_lt_succ hm)
          rw [hdelete] at this
          exact this
    · rw [if_neg hover]
      refine ⟨h, 0, rfl, ?_, fun m hm => absurd hm (Nat.not_lt_zero m)⟩
      by_contra hnot
      exact hover (h.isOver_iff.2 hnot)

theorem Exact.evict (h : cache.Exact) :
    (cache.evict limits).Exact ∧
      Evicts limits cache.entries.entries (cache.evict limits).entries.entries :=
  h.evictFrom (Nat.le_refl _)

/-! ## What a call does before it evicts -/

theorem delete_of_not_mem {m : OrderedMap String (WeightedSourceMapOutcomeEntry ν)}
    (h : m.get? key = none) : (m.delete key).entries = m.entries := by
  refine List.filter_eq_self.2 fun entry hmem => ?_
  have hne : entry.1 ≠ key := by
    rintro rfl
    exact OrderedMap.get?_eq_none.1 h (List.mem_map_of_mem hmem)
  simpa using hne

/-- An entry weighs what deleting it takes away. -/
theorem sum_delete (weight : WeightedSourceMapOutcomeEntry ν → ℕ)
    {m : OrderedMap String (WeightedSourceMapOutcomeEntry ν)}
    {entry : WeightedSourceMapOutcomeEntry ν} (h : m.get? key = some entry) :
    (m.entries.map fun e => weight e.2).sum =
      ((m.delete key).entries.map fun e => weight e.2).sum + weight entry := by
  obtain ⟨front, back, hsplit⟩ := List.append_of_mem (OrderedMap.get?_eq_some.1 h)
  have hnodup := m.nodup
  rw [hsplit, List.map_append, List.map_cons, List.nodup_append, List.nodup_cons] at hnodup
  obtain ⟨-, ⟨hback, -⟩, hfront⟩ := hnodup
  have hdelete : (m.delete key).entries = front ++ back := by
    show m.entries.filter (fun e => decide (e.1 ≠ key)) = _
    rw [hsplit, List.filter_append, List.filter_cons_of_neg (by simp)]
    congr 1
    · refine List.filter_eq_self.2 fun e he => ?_
      have := hfront e.1 (List.mem_map_of_mem he) key List.mem_cons_self
      simpa using this
    · refine List.filter_eq_self.2 fun e he => ?_
      have hmem : e.1 ∈ back.map Prod.fst := List.mem_map_of_mem he
      have : e.1 ≠ key := fun heq => hback (heq ▸ hmem)
      simpa using this
  rw [hdelete, hsplit]
  simp only [List.map_append, List.map_cons, List.sum_append, List.sum_cons]
  omega

theorem sum_delete_set (weight : WeightedSourceMapOutcomeEntry ν → ℕ)
    (m : OrderedMap String (WeightedSourceMapOutcomeEntry ν)) (key : String)
    (entry : WeightedSourceMapOutcomeEntry ν) :
    (((m.delete key).set key entry).entries.map fun e => weight e.2).sum =
      ((m.delete key).entries.map fun e => weight e.2).sum + weight entry := by
  rw [OrderedMap.entries_delete_set, List.map_append, List.sum_append]
  rfl

theorem get_of_some {entry : WeightedSourceMapOutcomeEntry ν}
    (h : cache.entries.get? key = some entry) :
    cache.get key =
      (some entry.outcome, { cache with entries := (cache.entries.delete key).set key entry }) := by
  rw [WeightedSourceMapOutcomeCache.get, h]

theorem get_of_none (h : cache.entries.get? key = none) : cache.get key = (none, cache) := by
  rw [WeightedSourceMapOutcomeCache.get, h]

/-- Using an entry changes neither of the weights. -/
theorem weights_get (cache : WeightedSourceMapOutcomeCache ν) (key : String) :
    bytesOf (cache.get key).2.entries.entries = bytesOf cache.entries.entries ∧
      recordsOf (cache.get key).2.entries.entries = recordsOf cache.entries.entries := by
  cases hget : cache.entries.get? key with
  | none =>
    rw [get_of_none hget]
    exact ⟨rfl, rfl⟩
  | some entry =>
    rw [get_of_some hget]
    exact ⟨(sum_delete_set _ _ _ _).trans (sum_delete _ hget).symm,
      (sum_delete_set _ _ _ _).trans (sum_delete _ hget).symm⟩

theorem Exact.get (h : cache.Exact) (key : String) : (cache.get key).2.Exact := by
  obtain ⟨hbytes, hrecords⟩ := weights_get cache key
  have hcounters : (cache.get key).2.decodedBytes = cache.decodedBytes ∧
      (cache.get key).2.mappingRecords = cache.mappingRecords := by
    unfold WeightedSourceMapOutcomeCache.get
    split <;> exact ⟨rfl, rfl⟩
  refine ⟨?_, ?_⟩
  · rw [hcounters.1, hbytes, h.1]
  · rw [hcounters.2, hrecords, h.2]

theorem Exact.put (h : cache.Exact) (key : String) (outcome : ν) (decodedBytes : ℕ) :
    (cache.put key outcome decodedBytes).Exact := by
  have hbytes' := sum_delete_set (fun entry => entry.decodedBytes) cache.entries key
    ⟨outcome, decodedBytes, 0⟩
  have hrecords' := sum_delete_set (fun entry => entry.mappingRecords) cache.entries key
    ⟨outcome, decodedBytes, 0⟩
  obtain ⟨h1, h2⟩ := h
  unfold bytesOf at h1
  unfold recordsOf at h2
  unfold WeightedSourceMapOutcomeCache.put Exact bytesOf recordsOf
  cases hget : cache.entries.get? key with
  | none =>
    rw [delete_of_not_mem hget] at hbytes' hrecords'
    simp only at hbytes' hrecords' ⊢
    exact ⟨by omega, by omega⟩
  | some previous =>
    have hbytes := sum_delete (fun entry => entry.decodedBytes) hget
    have hrecords := sum_delete (fun entry => entry.mappingRecords) hget
    simp only at hbytes' hrecords' hbytes hrecords ⊢
    exact ⟨by omega, by omega⟩

theorem Exact.reweigh (h : cache.Exact) {mappingRecords : ℕ}
    {next : WeightedSourceMapOutcomeCache ν}
    (hnext : cache.reweigh key mappingRecords = some next) : next.Exact := by
  obtain ⟨current, hget, rfl⟩ := Option.map_eq_some_iff.1 hnext
  have hbytes := sum_delete (fun entry => entry.decodedBytes) hget
  have hbytes' := sum_delete_set (fun entry => entry.decodedBytes) cache.entries key
    { current with mappingRecords }
  have hrecords := sum_delete (fun entry => entry.mappingRecords) hget
  have hrecords' := sum_delete_set (fun entry => entry.mappingRecords) cache.entries key
    { current with mappingRecords }
  obtain ⟨h1, h2⟩ := h
  unfold bytesOf at h1
  unfold recordsOf at h2
  unfold Exact bytesOf recordsOf
  simp only at hbytes' hrecords' ⊢
  exact ⟨by omega, by omega⟩

theorem Exact.touch (h : cache.Exact) (c : Call ν) : (cache.touch c).Exact := by
  cases c with
  | get key => exact h.get key
  | set key outcome decodedBytes => exact h.put key outcome decodedBytes
  | setMappingRecords key mappingRecords =>
    show ((cache.reweigh key mappingRecords).getD cache).Exact
    cases hnext : cache.reweigh key mappingRecords with
    | none => exact h
    | some next => exact h.reweigh hnext

theorem fits_get (h : Fits limits cache.entries.entries) (key : String) :
    Fits limits (cache.get key).2.entries.entries := by
  obtain ⟨hbytes, hrecords⟩ := weights_get cache key
  refine ⟨?_, by rw [hbytes]; exact h.2.1, by rw [hrecords]; exact h.2.2⟩
  cases hget : cache.entries.get? key with
  | none =>
    rw [get_of_none hget]
    exact h.1
  | some entry =>
    rw [get_of_some hget]
    have hsize := OrderedMap.size_delete_set entry (OrderedMap.mem_keys.2 ⟨entry, hget⟩)
    exact Nat.le_trans (Nat.le_of_eq hsize) h.1

/-- A call drops from the front of what it touched the least that restores the limits. -/
theorem call_evicts (h : cache.Exact) (hfits : Fits limits cache.entries.entries) (c : Call ν) :
    (cache.call limits c).Exact ∧
      Evicts limits (cache.touch c).entries.entries (cache.call limits c).entries.entries := by
  have hstay : ∀ stays : WeightedSourceMapOutcomeCache ν, Fits limits stays.entries.entries →
      Evicts limits stays.entries.entries stays.entries.entries :=
    fun stays hs => ⟨0, rfl, hs, fun m hm => absurd hm (Nat.not_lt_zero m)⟩
  cases c with
  | get key => exact ⟨h.get key, hstay _ (fits_get hfits key)⟩
  | set key outcome decodedBytes => exact (h.put key outcome decodedBytes).evict
  | setMappingRecords key mappingRecords =>
    show (cache.setMappingRecords limits key mappingRecords).Exact ∧
      Evicts limits ((cache.reweigh key mappingRecords).getD cache).entries.entries
        (cache.setMappingRecords limits key mappingRecords).entries.entries
    unfold setMappingRecords
    cases hnext : cache.reweigh key mappingRecords with
    | none => exact ⟨h, hstay _ hfits⟩
    | some next => exact (h.reweigh hnext).evict

theorem after_concat (calls : List (Call ν)) (c : Call ν) :
    after limits (calls ++ [c]) = (after limits calls).call limits c := by
  rw [after, List.foldl_append]
  rfl

/-- What holds behind every list of calls. -/
theorem after_exact (limits : SourceMapCacheLimits) (calls : List (Call ν)) :
    (after limits calls).Exact ∧ Fits limits (after limits calls).entries.entries := by
  induction calls using List.reverseRecOn with
  | nil => exact ⟨⟨rfl, rfl⟩, fits_nil limits⟩
  | append_singleton calls c ih =>
    rw [after_concat]
    obtain ⟨hexact, n, _, hfits, -⟩ := call_evicts ih.1 ih.2 c
    exact ⟨hexact, hfits⟩

/-! ## The order of use -/

theorem touch_keys (cache : WeightedSourceMapOutcomeCache ν) (c : Call ν) :
    (cache.touch c).entries.keys = cache.entries.keys ∧ c.key ∉ cache.entries.keys ∨
      (cache.touch c).entries.keys = cache.entries.keys.erase c.key ++ [c.key] := by
  have huse : ∀ (key : String) (entry : WeightedSourceMapOutcomeEntry ν),
      ((cache.entries.delete key).set key entry).keys = cache.entries.keys.erase key ++ [key] := by
    intro key entry
    rw [OrderedMap.keys_set_of_not_mem _ (by simp [OrderedMap.mem_keys_delete]),
      OrderedMap.keys_delete]
  cases c with
  | get key =>
    cases hget : cache.entries.get? key with
    | none =>
      rw [touch, get_of_none hget]
      exact .inl ⟨rfl, OrderedMap.get?_eq_none.1 hget⟩
    | some entry =>
      rw [touch, get_of_some hget]
      exact .inr (huse key entry)
  | set key outcome decodedBytes =>
    refine .inr ?_
    show (cache.put key outcome decodedBytes).entries.keys = _
    unfold WeightedSourceMapOutcomeCache.put
    cases cache.entries.get? key <;> exact huse key _
  | setMappingRecords key mappingRecords =>
    rw [touch, WeightedSourceMapOutcomeCache.reweigh]
    cases hget : cache.entries.get? key with
    | none => exact .inl ⟨rfl, OrderedMap.get?_eq_none.1 hget⟩
    | some entry => exact .inr (huse key _)

/-- The keys that calls used, the last one first. -/
def uses (calls : List (Call ν)) : List String := calls.reverse.map Call.key

theorem touch_byRecency {used : List String} (h : ByRecency used cache.entries.keys) (c : Call ν) :
    ByRecency (c.key :: used) (cache.touch c).entries.keys := by
  rcases touch_keys cache c with ⟨hkeys, hnot⟩ | hkeys
  · rw [hkeys]
    exact h.imp_of_mem fun {a b} ha _ hab => hab.cons fun he => hnot (he ▸ ha)
  · rw [hkeys]
    refine (h.sublist List.erase_sublist).use ?_
    exact fun hmem => (cache.entries.nodup_keys.mem_erase_iff.1 hmem).1 rfl

theorem after_byRecency (calls : List (Call ν)) :
    ByRecency (uses calls) (after limits calls).entries.keys := by
  induction calls using List.reverseRecOn with
  | nil => exact List.Pairwise.nil
  | append_singleton calls c ih =>
    obtain ⟨hexact, hfits⟩ := after_exact limits calls
    obtain ⟨-, n, hleft, -⟩ := call_evicts hexact hfits c
    rw [after_concat, uses, List.reverse_append]
    refine (touch_byRecency ih c).sublist ?_
    rw [OrderedMap.keys, hleft]
    exact (List.drop_sublist n _).map _

/-! ## What a key answers -/

/-- The outcome that a call sets under the key. -/
def Call.sets? (key : String) : Call ν → Option ν
  | .set k outcome _ => if k = key then some outcome else none
  | _ => none

/-- The outcome was set under the key by the last call that set one, and from that call on no call
evicted it. -/
def LastSetStays (limits : SourceMapCacheLimits) (calls : List (Call ν)) (key : String)
    (outcome : ν) : Prop :=
  ∃ i c, calls[i]? = some c ∧ c.sets? key = some outcome ∧
    (∀ j > i, ∀ c, calls[j]? = some c → c.sets? key = none) ∧
    ∀ j ≥ i, ∀ c, calls[j]? = some c → key ∉ evictedBy limits (calls.take j) c

def outcomeOf (cache : WeightedSourceMapOutcomeCache ν) (key : String) : Option ν :=
  (cache.entries.get? key).map fun entry => entry.outcome

theorem get_fst (cache : WeightedSourceMapOutcomeCache ν) (key : String) :
    (cache.get key).1 = cache.outcomeOf key := by
  unfold WeightedSourceMapOutcomeCache.get outcomeOf
  cases cache.entries.get? key <;> rfl

theorem touch_outcome (cache : WeightedSourceMapOutcomeCache ν) (c : Call ν) (key : String) :
    (cache.touch c).outcomeOf key = (c.sets? key).or (cache.outcomeOf key) := by
  have huse : ∀ {k : String} {entry entry' : WeightedSourceMapOutcomeEntry ν},
      cache.entries.get? k = some entry → entry'.outcome = entry.outcome →
      (((cache.entries.delete k).set k entry').get? key).map (fun entry => entry.outcome) =
        cache.outcomeOf key := by
    intro k entry entry' hget heq
    rw [OrderedMap.get?_set, OrderedMap.get?_delete, outcomeOf]
    by_cases hk : key = k
    · subst hk
      rw [if_pos rfl, hget, Option.map_some, Option.map_some, heq]
    · rw [if_neg hk, if_neg hk]
  cases c with
  | get k =>
    show (cache.get k).2.outcomeOf key = _
    cases hget : cache.entries.get? k with
    | none => rw [get_of_none hget]; rfl
    | some entry =>
      rw [get_of_some hget]
      exact huse hget rfl
  | set k outcome decodedBytes =>
    have hentries : (cache.put k outcome decodedBytes).entries =
        (cache.entries.delete k).set k ⟨outcome, decodedBytes, 0⟩ := by
      unfold WeightedSourceMapOutcomeCache.put
      cases cache.entries.get? k <;> rfl
    show (cache.put k outcome decodedBytes).outcomeOf key = _
    rw [outcomeOf, hentries, OrderedMap.get?_set, OrderedMap.get?_delete, Call.sets?, outcomeOf]
    by_cases hk : key = k
    · rw [if_pos hk, if_pos hk.symm]
      rfl
    · rw [if_neg hk, if_neg hk, if_neg (Ne.symm hk)]
      rfl
  | setMappingRecords k mappingRecords =>
    show ((cache.reweigh k mappingRecords).getD cache).outcomeOf key = _
    unfold WeightedSourceMapOutcomeCache.reweigh
    cases hget : cache.entries.get? k with
    | none => rfl
    | some entry => exact huse hget rfl

/-- A call keeps what it touched unless it evicts it. -/
theorem call_outcome (calls : List (Call ν)) (c : Call ν) (key : String) :
    (after limits (calls ++ [c])).outcomeOf key =
      if key ∈ evictedBy limits calls c then none
      else (c.sets? key).or ((after limits calls).outcomeOf key) := by
  obtain ⟨hexact, hfits⟩ := after_exact limits calls
  obtain ⟨-, n, hleft, -⟩ := call_evicts hexact hfits c
  rw [← touch_outcome, after_concat]
  have hmem : key ∈ evictedBy limits calls c ↔
      key ∈ ((after limits calls).touch c).entries.keys ∧
        key ∉ ((after limits calls).call limits c).entries.keys := by
    rw [evictedBy, List.mem_filter, Bool.not_eq_true', ← Bool.not_eq_true, OrderedMap.has_eq_true]
  generalize (after limits calls).touch c = touched at hleft hmem
  generalize (after limits calls).call limits c = called at hleft hmem
  by_cases hev : key ∈ evictedBy limits calls c
  · rw [if_pos hev, outcomeOf, OrderedMap.get?_eq_none.2 (hmem.1 hev).2]
    rfl
  · rw [if_neg hev, outcomeOf, outcomeOf]
    congr 1
    by_cases hin : key ∈ called.entries.keys
    · obtain ⟨entry, hget⟩ := OrderedMap.mem_keys.1 hin
      rw [hget]
      have := OrderedMap.get?_eq_some.1 hget
      rw [hleft] at this
      exact (OrderedMap.get?_eq_some.2 (List.mem_of_mem_drop this)).symm
    · have hout : key ∉ touched.entries.keys := fun h => hev (hmem.2 ⟨h, hin⟩)
      rw [OrderedMap.get?_eq_none.2 hin, OrderedMap.get?_eq_none.2 hout]

theorem lastSetStays_concat (calls : List (Call ν)) (c : Call ν) (key : String) (outcome : ν) :
    LastSetStays limits (calls ++ [c]) key outcome ↔
      key ∉ evictedBy limits calls c ∧ (c.sets? key = some outcome ∨
        c.sets? key = none ∧ LastSetStays limits calls key outcome) := by
  have hold : ∀ {j : ℕ}, j < calls.length → (calls ++ [c])[j]? = calls[j]? :=
    fun hj => List.getElem?_append_left hj
  have hnew : (calls ++ [c])[calls.length]? = some c := List.getElem?_concat_length
  have htake : ∀ {j : ℕ}, j ≤ calls.length → (calls ++ [c]).take j = calls.take j :=
    fun hj => List.take_append_of_le_length hj
  have hlast : (calls ++ [c]).take calls.length = calls := List.take_left
  have hcases : ∀ {j : ℕ} {c' : Call ν}, (calls ++ [c])[j]? = some c' → j ≤ calls.length := by
    intro j c' hj
    obtain ⟨hlt, -⟩ := List.getElem?_eq_some_iff.1 hj
    rw [List.length_append] at hlt
    exact Nat.le_of_lt_succ hlt
  constructor
  · rintro ⟨i, c', hi, hsets, hafter, hstays⟩
    refine ⟨?_, ?_⟩
    · have := hstays calls.length (hcases hi) c hnew
      rwa [hlast] at this
    · rcases Nat.lt_or_eq_of_le (hcases hi) with hlt | rfl
      · refine .inr ⟨hafter _ hlt c hnew, i, c', (hold hlt).symm.trans hi, hsets, ?_, ?_⟩
        · intro j hj c'' hc''
          obtain ⟨hjlt, -⟩ := List.getElem?_eq_some_iff.1 hc''
          exact hafter j hj c'' ((hold hjlt).trans hc'')
        · intro j hj c'' hc''
          obtain ⟨hjlt, -⟩ := List.getElem?_eq_some_iff.1 hc''
          have := hstays j hj c'' ((hold hjlt).trans hc'')
          rwa [htake (Nat.le_of_lt hjlt)] at this
      · rw [hnew] at hi
        cases hi
        exact .inl hsets
  · rintro ⟨hev, hsets | ⟨hnone, i, c', hi, hsets, hafter, hstays⟩⟩
    · refine ⟨calls.length, c, hnew, hsets, fun j hj c' hc' => ?_, fun j hj c' hc' => ?_⟩
      · have := hcases hc'
        omega
      · obtain rfl : j = calls.length := Nat.le_antisymm (hcases hc') hj
        rw [hnew] at hc'
        cases hc'
        rwa [hlast]
    · obtain ⟨hilt, -⟩ := List.getElem?_eq_some_iff.1 hi
      refine ⟨i, c', (hold hilt).trans hi, hsets, fun j hj c'' hc'' => ?_, fun j hj c'' hc'' => ?_⟩
      · rcases Nat.lt_or_eq_of_le (hcases hc'') with hlt | rfl
        · exact hafter j hj c'' ((hold hlt).symm.trans hc'')
        · rw [hnew] at hc''
          cases hc''
          exact hnone
      · rcases Nat.lt_or_eq_of_le (hcases hc'') with hlt | rfl
        · rw [htake (Nat.le_of_lt hlt)]
          exact hstays j hj c'' ((hold hlt).symm.trans hc'')
        · rw [hnew] at hc''
          cases hc''
          rwa [hlast]

/-- A key answers the outcome set last under it exactly as long as that is not evicted. -/
theorem outcomeOf_eq_some (calls : List (Call ν)) (key : String) (outcome : ν) :
    (after limits calls).outcomeOf key = some outcome ↔ LastSetStays limits calls key outcome := by
  induction calls using List.reverseRecOn with
  | nil =>
    refine ⟨fun h => absurd h (by simp [after, outcomeOf]), ?_⟩
    rintro ⟨i, c, hi, -⟩
    cases hi
  | append_singleton calls c ih =>
    rw [lastSetStays_concat, call_outcome, ← ih]
    by_cases hev : key ∈ evictedBy limits calls c
    · rw [if_pos hev]
      exact ⟨fun h => absurd h (by simp), fun h => absurd hev h.1⟩
    · rw [if_neg hev, and_iff_right hev]
      cases hsets : c.sets? key with
      | none => simp
      | some outcome' => simp

/-- Behind every list of calls the counters are the sums over the entries and the limits hold; the
next call drops the shortest front of the recency order that restores them; and a key answers the
outcome set last under it exactly as long as that is not evicted. -/
theorem accounts_exact (limits : SourceMapCacheLimits) (calls : List (Call ν)) :
    (after limits calls).Exact ∧ Fits limits (after limits calls).entries.entries ∧
    (∀ next, ByRecency (uses (calls ++ [next])) ((after limits calls).touch next).entries.keys ∧
      Evicts limits ((after limits calls).touch next).entries.entries
        ((after limits calls).call limits next).entries.entries) ∧
    ∀ key outcome,
      ((after limits calls).get key).1 = some outcome ↔ LastSetStays limits calls key outcome := by
  obtain ⟨hexact, hfits⟩ := after_exact limits calls
  refine ⟨hexact, hfits, fun next => ⟨?_, (call_evicts hexact hfits next).2⟩, fun key outcome => ?_⟩
  · rw [uses, List.reverse_append]
    exact touch_byRecency (after_byRecency calls) next
  · rw [get_fst]
    exact outcomeOf_eq_some calls key outcome

end WeightedSourceMapOutcomeCache

end PinOp.Css
