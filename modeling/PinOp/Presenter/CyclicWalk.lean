import Mathlib.Data.List.Rotate
import PinOp.Presenter.SourceNavigator

/-!
# Navigation is a cyclic walk

While the inspect, its document and its ranges stay, a navigation goes from the active range to
the one beside it, round the end. What identifies the active range is the remembered target, which
publications and notifications about the cursor leave where it is; `activeIndex` is kept by all of
them, and moved by a navigation alone.
-/

namespace PinOp.Presenter

open PinOp.Lib
open PinOp.Css (SourcePosition SourceRange)

/-! ## The selected ranges -/

theorem rangeKey_inj {uri : String} {left right : SourceRange} :
    rangeKey uri left = rangeKey uri right ↔ left = right := by
  rcases left with ⟨⟨a, b⟩, c, d⟩
  rcases right with ⟨⟨a', b'⟩, c', d'⟩
  simp only [rangeKey, Prod.mk.injEq, true_and, SourceRange.mk.injEq, SourcePosition.mk.injEq,
    and_assoc]

/-- Each entry stands under the key of its range, and is the range of a selected match. -/
structure Unique (uri : String) («matches» : List ResolvedSourceMatch)
    (unique : OrderedMap RangeKey SourceRange) : Prop where
  keyed : ∀ e ∈ unique.entries, e.1 = rangeKey uri e.2
  complete : ∀ r, rangeKey uri r ∈ unique.keys ↔
    ∃ m ∈ «matches», m.targetRole = .selected ∧ m.range = r

theorem uniqueRanges_unique (uri : String) («matches» : List ResolvedSourceMatch) :
    Unique uri «matches» (uniqueRanges uri «matches») := by
  have hfold : ∀ (rest before : List ResolvedSourceMatch)
      (unique : OrderedMap RangeKey SourceRange),
      Unique uri before unique → Unique uri (before ++ rest)
        (rest.foldl (fun unique «match» =>
          if «match».targetRole ≠ .selected then unique
          else
            let key := rangeKey uri «match».range
            if unique.has key then unique else unique.set key «match».range) unique) := by
    intro rest
    induction rest with
    | nil =>
      intro before unique hu
      rw [List.append_nil]
      exact hu
    | cons m rest ih =>
      intro before unique hu
      rw [List.foldl_cons, ← List.singleton_append, ← List.append_assoc]
      refine ih (before ++ [m]) _ ?_
      by_cases hm : m.targetRole = .selected
      · have hadd : ∀ r, (∃ m' ∈ before ++ [m], m'.targetRole = .selected ∧ m'.range = r) ↔
            (∃ m' ∈ before, m'.targetRole = .selected ∧ m'.range = r) ∨ m.range = r := by
          intro r
          simp [or_and_right, exists_or, hm]
        simp only [hm, ne_eq, not_true_eq_false, if_false]
        split
        · rename_i hhas
          refine ⟨hu.keyed, fun r => ?_⟩
          rw [hu.complete, hadd]
          refine ⟨.inl, fun hr => hr.elim id fun he => ?_⟩
          exact he ▸ (hu.complete m.range).mp (OrderedMap.has_eq_true.mp hhas)
        · rename_i hhas
          have hnew : rangeKey uri m.range ∉ unique.keys :=
            fun hin => hhas (OrderedMap.has_eq_true.mpr hin)
          refine ⟨fun e he => ?_, fun r => ?_⟩
          · rw [OrderedMap.entries_set_of_not_mem _ hnew] at he
            rcases List.mem_append.mp he with he | he
            · exact hu.keyed e he
            · rw [List.mem_singleton.mp he]
          · rw [OrderedMap.keys_set_of_not_mem _ hnew, List.mem_append, hu.complete, hadd,
              List.mem_singleton, rangeKey_inj, eq_comm]
      · simp only [ne_eq, hm, not_false_eq_true, if_true]
        refine ⟨hu.keyed, fun r => ?_⟩
        rw [hu.complete]
        simp [or_and_right, exists_or, hm]
  exact hfold «matches» [] ∅ ⟨fun e he => absurd he List.not_mem_nil, fun r => by simp⟩

/-- The ranges of the selected matches, each once. -/
theorem selectedRanges_spec (uri : String) («matches» : List ResolvedSourceMatch) :
    (selectedRanges uri «matches»).Nodup ∧ ∀ r, r ∈ selectedRanges uri «matches» ↔
      ∃ m ∈ «matches», m.targetRole = .selected ∧ m.range = r := by
  have hu := uniqueRanges_unique uri «matches»
  have hkeys : (uniqueRanges uri «matches»).keys =
      ((uniqueRanges uri «matches»).entries.map Prod.snd).map (rangeKey uri) := by
    rw [List.map_map]
    exact List.map_congr_left hu.keyed
  have hperm := List.mergeSort_perm ((uniqueRanges uri «matches»).entries.map Prod.snd)
    fun left right => decide (compareRanges left right ≤ 0)
  refine ⟨hperm.nodup_iff.mpr ?_, fun r => ?_⟩
  · have hnodup := (uniqueRanges uri «matches»).nodup_keys
    rw [hkeys] at hnodup
    exact hnodup.of_map _
  · rw [selectedRanges, hperm.mem_iff, ← hu.complete, hkeys]
    refine ⟨List.mem_map_of_mem, fun hr => ?_⟩
    obtain ⟨r', hr', he⟩ := List.mem_map.mp hr
    exact rangeKey_inj.mp he ▸ hr'

namespace Navigation

variable {s s' : Navigation} {i uri : String} {g k : ℕ} {h h₀ : List (Transition Navigation Event)}

/-! ## States in which there is something to walk through -/

/-- The inspect has ranges in the document that is shown. -/
structure Ready (i : String) (g : ℕ) (uri : String) (s : Navigation) : Prop where
  live : s.navigator.disposed = false
  inspect : s.navigator.inspectMessageId = some i
  generation : s.navigator.resolutionGeneration = g
  document : s.navigator.documentUri = some uri
  named : uri ≠ ""
  shown : s.host.activeEditor = some uri
  ranges : 0 < s.navigator.ranges.length

def activeIndex (s : Navigation) (uri : String) : Option ℕ :=
  (s.navigator.activeRangeIndex uri s.host.primaryCursor).1

/-- What stays where the navigator is only asked. -/
structure Keeps (uri : String) (s s' : Navigation) : Prop where
  ranges : s'.navigator.ranges = s.navigator.ranges
  «matches» : s'.navigator.matches = s.navigator.matches
  cursor : s'.host.primaryCursor = s.host.primaryCursor
  revealed : s'.host.revealed = s.host.revealed
  active : s'.activeIndex uri = s.activeIndex uri

theorem Keeps.refl (uri : String) (s : Navigation) : Keeps uri s s := ⟨rfl, rfl, rfl, rfl, rfl⟩

/-- To look for the active range forgets a target that is not at the cursor, and does no more. -/
theorem activeRangeIndex_spec (n : SourceNavigator) (editor : String) (cursor : SourcePosition) :
    ∃ preferred, (n.activeRangeIndex editor cursor).2 = { n with preferredTarget := preferred } ∧
      ({ n with preferredTarget := preferred } : SourceNavigator).activeRangeIndex editor cursor =
        n.activeRangeIndex editor cursor := by
  rcases n with ⟨inspect, generation, uri, ranges, «matches», included, target, disposed⟩
  cases target with
  | none => exact ⟨none, rfl, rfl⟩
  | some target =>
    simp only [SourceNavigator.activeRangeIndex]
    split
    · rename_i hpreferred
      exact ⟨some target, rfl, by simp only [hpreferred, if_true]⟩
    · exact ⟨none, rfl, rfl⟩

theorem activeRangeIndex_fst (n : SourceNavigator) (editor : String) (cursor : SourcePosition) :
    (n.activeRangeIndex editor cursor).1 =
      match n.preferredTarget with
      | some preferred =>
        if n.isPreferred preferred editor cursor then some preferred.index
        else containingRangeIndex n.ranges cursor
      | none => containingRangeIndex n.ranges cursor := by
  unfold SourceNavigator.activeRangeIndex
  cases n.preferredTarget with
  | none => rfl
  | some preferred => exact apply_ite Prod.fst _ _ _

/-- What is published tells the active range, and leaves it. -/
theorem publishState_spec (hs : Ready i g uri s) :
    Ready i g uri s.publishState ∧ Keeps uri s s.publishState ∧
      ∃ id, s.publishState.host.sent.getLast? =
        some ⟨i, g, s.navigator.ranges.length, s.activeIndex uri, id⟩ := by
  obtain ⟨preferred, hn, ha⟩ :=
    activeRangeIndex_spec s.navigator uri s.host.primaryCursor
  have heditor : s.host.activeEditor.filter (fun editor => s.navigator.documentUri = some editor) =
      some uri := by
    rw [hs.shown, hs.document]
    simp
  unfold publishState
  simp only [hs.live, hs.inspect, heditor, Bool.false_eq_true, if_false]
  rw [hn]
  refine ⟨⟨hs.live, hs.inspect, hs.generation, hs.document, hs.named, hs.shown, hs.ranges⟩,
    ⟨rfl, rfl, rfl, rfl, congrArg Prod.fst ha⟩, ?_⟩
  obtain rfl := hs.generation
  exact ⟨_, List.getLast?_concat⟩

/-! ## One navigation -/

def targetIndex (ranges : List SourceRange) (cursor : SourcePosition) (active : Option ℕ)
    (direction : NavigationDirection) : ℕ :=
  match active with
  | none => outsideTargetIndex ranges cursor direction
  | some activeIndex => adjacentIndex activeIndex ranges.length direction

theorem target_spec (s : Navigation) (uri : String) (direction : NavigationDirection) :
    ∃ preferred, s.target uri direction =
      (targetIndex s.navigator.ranges s.host.primaryCursor (s.activeIndex uri) direction,
        { s.navigator with preferredTarget := preferred }) := by
  obtain ⟨preferred, hn, -⟩ := activeRangeIndex_spec s.navigator uri s.host.primaryCursor
  refine ⟨preferred, ?_⟩
  unfold target targetIndex activeIndex
  simp only [hn]
  cases (s.navigator.activeRangeIndex uri s.host.primaryCursor).1 with
  | none => rfl
  | some activeIndex => rfl

theorem targetIndex_lt {ranges : List SourceRange} (hranges : 0 < ranges.length)
    (cursor : SourcePosition) (active : Option ℕ) (direction : NavigationDirection) :
    targetIndex ranges cursor active direction < ranges.length := by
  unfold targetIndex
  cases active with
  | some activeIndex =>
    cases direction with
    | next => exact Nat.mod_lt _ hranges
    | previous => exact Nat.mod_lt _ hranges
  | none =>
    cases direction with
    | next =>
      dsimp only [outsideTargetIndex]
      cases hfind : ranges.findIdx? fun range => 0 < comparePositions range.start cursor with
      | none => exact hranges
      | some index => exact (List.findIdx?_eq_some_iff_getElem.mp hfind).1
    | previous =>
      dsimp only [outsideTargetIndex]
      cases hfind : (List.range ranges.length).reverse.find? fun index =>
          (ranges[index]?).any fun range => comparePositions range.stop cursor ≤ 0 with
      | none =>
        show ranges.length - 1 < ranges.length
        omega
      | some index => simpa using List.mem_of_find?_eq_some hfind

/-- A navigation reveals the range it goes to, puts the cursor at its start and tells its index. -/
structure Visits (i : String) (g : ℕ) (uri : String) (k : ℕ) (s s' : Navigation) : Prop where
  ready : Ready i g uri s'
  ranges : s'.navigator.ranges = s.navigator.ranges
  «matches» : s'.navigator.matches = s.navigator.matches
  active : s'.activeIndex uri = some k
  visited : ∃ range, s.navigator.ranges[k]? = some range ∧
    s'.host.revealed = s.host.revealed ++ [range] ∧ s'.host.primaryCursor = range.start
  sent : ∃ id, s'.host.sent.getLast? = some ⟨i, g, s.navigator.ranges.length, some k, id⟩

theorem navigate_done (hs : Ready i g uri s) (direction : NavigationDirection) (notified : Bool) :
    Visits i g uri
      (targetIndex s.navigator.ranges s.host.primaryCursor (s.activeIndex uri) direction)
      s (s.navigate ⟨i, g, direction⟩ (.done notified)) := by
  obtain ⟨old, htarget⟩ := target_spec s uri direction
  have hlt := targetIndex_lt hs.ranges s.host.primaryCursor (s.activeIndex uri) direction
  generalize targetIndex s.navigator.ranges s.host.primaryCursor (s.activeIndex uri) direction = k
    at htarget hlt ⊢
  obtain ⟨range, hrange⟩ : ∃ range, s.navigator.ranges[k]? = some range :=
    ⟨_, List.getElem?_eq_getElem hlt⟩
  -- the cursor stands at the target, and the target is remembered
  let moved : Navigation := {
    navigator := {
      inspectMessageId := some i
      resolutionGeneration := g
      documentUri := some uri
      ranges := s.navigator.ranges
      «matches» := s.navigator.matches
      includedMatches := s.navigator.includedMatches
      preferredTarget := some ⟨i, g, uri, k, range⟩
      disposed := false
    }
    host := { s.host with primaryCursor := range.start } }
  have hmoved : Ready i g uri moved := ⟨rfl, rfl, rfl, rfl, hs.named, hs.shown, hs.ranges⟩
  have hpreferred : moved.navigator.isPreferred ⟨i, g, uri, k, range⟩ uri range.start = true := by
    simp [moved, SourceNavigator.isPreferred, hrange]
  have hactive : moved.activeIndex uri = some k := by
    unfold activeIndex SourceNavigator.activeRangeIndex
    change (if moved.navigator.isPreferred ⟨i, g, uri, k, range⟩ uri range.start then _ else _ :
      Option ℕ × SourceNavigator).1 = _
    rw [if_pos hpreferred]
  have hnavigate : s.navigate ⟨i, g, direction⟩ (.done notified) =
      ((if notified then moved.publishState else moved).revealRange range).publishState := by
    unfold navigate
    simp only [hs.document, hs.live, hs.inspect, hs.generation, hs.shown, hs.named, htarget, hrange,
      Option.filter_some, ne_eq, not_false_eq_true, decide_true, if_true, Bool.false_eq_true,
      not_true_eq_false, false_or, hs.ranges.ne', if_false]
    cases notified with
    | true => rfl
    | false => rfl
  have hnotified : Ready i g uri (if notified then moved.publishState else moved) ∧
      Keeps uri moved (if notified then moved.publishState else moved) := by
    cases notified with
    | true => exact ⟨(publishState_spec hmoved).1, (publishState_spec hmoved).2.1⟩
    | false => exact ⟨hmoved, Keeps.refl _ _⟩
  obtain ⟨hready, hkeeps⟩ := hnotified
  generalize (if notified then moved.publishState else moved) = told at hnavigate hready hkeeps
  have hrevealed : Ready i g uri (told.revealRange range) :=
    ⟨hready.live, hready.inspect, hready.generation, hready.document, hready.named, hready.shown,
      hready.ranges⟩
  obtain ⟨hready', hkeeps', id, hsent⟩ := publishState_spec hrevealed
  have hindex : (told.revealRange range).activeIndex uri = some k := hkeeps.active.trans hactive
  rw [hnavigate]
  refine ⟨hready', hkeeps'.ranges.trans hkeeps.ranges, hkeeps'.matches.trans hkeeps.matches,
    hkeeps'.active.trans hindex, ⟨range, hrange, ?_, hkeeps'.cursor.trans hkeeps.cursor⟩, id, ?_⟩
  · rw [hkeeps'.revealed]
    show told.host.revealed ++ [range] = _
    rw [hkeeps.revealed]
  · rw [hsent, hindex]
    show some (SourceNavigationState.mk i g told.navigator.ranges.length (some k) id) = _
    rw [hkeeps.ranges]

/-! ## Where navigations lead -/

/-- The indices gone to, one after the other. -/
def visits (ranges : List SourceRange) (cursor : SourcePosition) :
    Option ℕ → List NavigationDirection → List ℕ
  | _, [] => []
  | active, direction :: rest =>
    targetIndex ranges cursor active direction ::
      visits ranges cursor (some (targetIndex ranges cursor active direction)) rest

section Visits

variable {ranges : List SourceRange} {cursor : SourcePosition} {active : Option ℕ}

/-- The active index behind some navigations. -/
def reached (ranges : List SourceRange) (cursor : SourcePosition) (active : Option ℕ)
    (directions : List NavigationDirection) : Option ℕ :=
  (visits ranges cursor active directions).getLast?.or active

theorem visits_concat (direction : NavigationDirection) :
    ∀ {active : Option ℕ} {directions : List NavigationDirection},
      visits ranges cursor active (directions ++ [direction]) =
        visits ranges cursor active directions ++
          [targetIndex ranges cursor (reached ranges cursor active directions) direction]
  | active, [] => rfl
  | active, first :: rest => by
    have ih := @visits_concat direction (some (targetIndex ranges cursor active first)) rest
    have hreached : reached ranges cursor active (first :: rest) =
        reached ranges cursor (some (targetIndex ranges cursor active first)) rest := by
      rw [reached, visits, reached]
      generalize visits ranges cursor (some (targetIndex ranges cursor active first)) rest = ks
      cases ks with
      | nil => rfl
      | cons k ks => simp [List.getLast?_cons]
    rw [List.cons_append, visits, ih, hreached]
    rfl

theorem reached_concat (direction : NavigationDirection) (directions : List NavigationDirection) :
    reached ranges cursor active (directions ++ [direction]) =
      some (targetIndex ranges cursor (reached ranges cursor active directions) direction) := by
  rw [reached, visits_concat, List.getLast?_concat]
  rfl

theorem reached_isSome {directions : List NavigationDirection} (h : directions ≠ []) :
    (reached ranges cursor active directions).isSome := by
  obtain ⟨before, last, rfl⟩ : ∃ before last, directions = before ++ [last] :=
    ⟨_, _, (List.dropLast_concat_getLast h).symm⟩
  rw [reached_concat]
  rfl

/-- From an active index the cursor does not matter. -/
theorem targetIndex_cursor (hactive : active.isSome) (cursor' : SourcePosition)
    (direction : NavigationDirection) :
    targetIndex ranges cursor active direction = targetIndex ranges cursor' active direction := by
  obtain ⟨k, rfl⟩ := Option.isSome_iff_exists.mp hactive
  rfl

theorem visits_next {m : ℕ} : ∀ {k : ℕ},
    visits ranges cursor (some k) (List.replicate m .next) =
      (List.range m).map fun j => (k + 1 + j) % ranges.length := by
  induction m with
  | zero => exact rfl
  | succ m ih =>
    intro k
    rw [List.replicate_succ, visits, ih, List.range_succ_eq_map, List.map_cons, List.map_map]
    refine congrArg₂ _ rfl (List.map_congr_left fun j _ => ?_)
    show ((k + 1) % ranges.length + 1 + j) % ranges.length = (k + 1 + (j + 1)) % ranges.length
    rw [Nat.add_assoc, Nat.mod_add_mod]
    congr 1
    omega

/-- `next` goes on from the first index, round the end. -/
theorem visits_replicate_next (hranges : 0 < ranges.length) (m : ℕ) :
    visits ranges cursor active (List.replicate m .next) =
      (List.range m).map fun j =>
        (targetIndex ranges cursor active .next + j) % ranges.length := by
  have hlt := targetIndex_lt hranges cursor active .next
  cases m with
  | zero => rfl
  | succ m =>
    rw [List.replicate_succ, visits, visits_next, List.range_succ_eq_map, List.map_cons,
      List.map_map]
    refine congrArg₂ _ (Nat.mod_eq_of_lt hlt).symm (List.map_congr_left fun j _ => ?_)
    show (targetIndex ranges cursor active .next + 1 + j) % ranges.length =
      (targetIndex ranges cursor active .next + (j + 1)) % ranges.length
    congr 1
    omega

/-- As many steps as there are ranges go through the ranges, rotated. -/
theorem visited_eq_rotate (ranges : List SourceRange) (first : ℕ) :
    ((List.range ranges.length).map fun j => (first + j) % ranges.length).filterMap
      (fun k => ranges[k]?) = ranges.rotate first := by
  have hmap : ((List.range ranges.length).map fun j => (first + j) % ranges.length).filterMap
      (fun k => ranges[k]?) = (List.range ranges.length).filterMap
        fun j => (ranges.rotate first)[j]? := by
    rw [List.filterMap_map]
    refine List.filterMap_congr fun j hj => ?_
    have hlt := List.mem_range.mp hj
    have hmod := Nat.mod_lt (first + j) (Nat.zero_lt_of_lt hlt)
    rw [Function.comp_apply, List.getElem?_eq_getElem hmod,
      List.getElem?_eq_getElem (by rwa [List.length_rotate]), List.getElem_rotate]
    simp only [Nat.add_comm first j]
  rw [hmap]
  conv_lhs => rw [← List.length_rotate ranges first]
  generalize ranges.rotate first = rotated
  induction rotated using List.reverseRecOn with
  | nil => rfl
  | append_singleton before last ih =>
    rw [List.length_append, List.length_singleton, List.range_succ, List.filterMap_append]
    have hbefore : (List.range before.length).filterMap (fun j => (before ++ [last])[j]?) =
        (List.range before.length).filterMap fun j => before[j]? :=
      List.filterMap_congr fun j hj => List.getElem?_append_left (List.mem_range.mp hj)
    rw [hbefore, ih]
    simp

theorem adjacentIndex_opposite {k n : ℕ} (hk : k < n) :
    adjacentIndex (adjacentIndex k n .next) n .previous = k ∧
      adjacentIndex (adjacentIndex k n .previous) n .next = k := by
  have hn : 0 < n := Nat.zero_lt_of_lt hk
  unfold adjacentIndex
  dsimp only
  constructor
  · rcases Nat.lt_or_ge (k + 1) n with hlt | hge
    · rw [Nat.mod_eq_of_lt hlt, show k + 1 + n - 1 = k + n by omega, Nat.add_mod_right,
        Nat.mod_eq_of_lt hk]
    · have heq : k + 1 = n := by omega
      rw [heq, Nat.mod_self, Nat.zero_add, Nat.mod_eq_of_lt (by omega)]
      omega
  · rcases Nat.eq_zero_or_pos k with rfl | hpos
    · rw [Nat.zero_add, Nat.mod_eq_of_lt (show n - 1 < n by omega), Nat.sub_add_cancel hn,
        Nat.mod_self]
    · rw [show k + n - 1 = k - 1 + n by omega, Nat.add_mod_right,
        Nat.mod_eq_of_lt (show k - 1 < n by omega), Nat.sub_add_cancel hpos, Nat.mod_eq_of_lt hk]

end Visits

/-! ## Runs -/

/-- An intent of the inspect and generation, which the host carries out. -/
def Navigates (i : String) (g : ℕ) (t : Transition Navigation Event) : Prop :=
  ∃ direction notified, t.event = .navigate ⟨i, g, direction⟩ (.done notified)

/-- What happens between navigations: notifications about the cursor where it stands, lists of
included matches, and intents of another inspect or generation. -/
def Quiet (i : String) (g : ℕ) (t : Transition Navigation Event) : Prop :=
  match t.event with
  | .cursorChanged position => position = t.pre.host.primaryCursor
  | .setIncludedMatches _ _ => True
  | .navigate message _ => message.inspectMessageId ≠ i ∨ message.resolutionGeneration ≠ g
  | _ => False

def direction? (i : String) (g : ℕ) : Event → Option NavigationDirection
  | .navigate message _ =>
    if message.inspectMessageId = i ∧ message.resolutionGeneration = g then some message.direction
    else none
  | _ => none

/-- The intents of the inspect and generation, the oldest first. -/
def directions (i : String) (g : ℕ) (h : List (Transition Navigation Event)) :
    List NavigationDirection := h.reverse.filterMap fun t => direction? i g t.event

theorem quiet_keeps {e : Event} (hs : Ready i g uri s) (hstep : Step s e s')
    (hq : Quiet i g ⟨s, e, s'⟩) :
    Ready i g uri s' ∧ Keeps uri s s' ∧ direction? i g e = none := by
  rw [hstep]
  cases e with
  | cursorChanged position =>
    obtain rfl : position = s.host.primaryCursor := hq
    exact ⟨(publishState_spec hs).1, (publishState_spec hs).2.1, rfl⟩
  | setIncludedMatches includedMatches publish =>
    let s₁ : Navigation := { s with navigator := { s.navigator with
      includedMatches := currentIncludedMatches s.navigator.matches includedMatches } }
    have hs₁ : Ready i g uri s₁ :=
      ⟨hs.live, hs.inspect, hs.generation, hs.document, hs.named, hs.shown, hs.ranges⟩
    have hkeeps : Keeps uri s s₁ := by
      refine ⟨rfl, rfl, rfl, rfl, ?_⟩
      rw [activeIndex, activeIndex, activeRangeIndex_fst, activeRangeIndex_fst]
      rfl
    have heq : s.perform (.setIncludedMatches includedMatches publish) =
        if publish then s₁.publishState else s₁ := by
      show s.setIncludedMatches includedMatches publish = _
      unfold setIncludedMatches
      rw [if_neg (by simp [hs.live])]
    rw [heq]
    cases publish with
    | false => exact ⟨hs₁, hkeeps, rfl⟩
    | true =>
      obtain ⟨hready, hk, -⟩ := publishState_spec hs₁
      exact ⟨hready, ⟨hk.ranges.trans hkeeps.ranges, hk.matches.trans hkeeps.matches,
        hk.cursor.trans hkeeps.cursor, hk.revealed.trans hkeeps.revealed,
        hk.active.trans hkeeps.active⟩, rfl⟩
  | navigate message answer =>
    have hother : message.inspectMessageId ≠ i ∨ message.resolutionGeneration ≠ g := hq
    have hsame : s.perform (.navigate message answer) = s := by
      show s.navigate message answer = s
      unfold navigate
      split
      · rfl
      · refine if_pos ?_
        rw [hs.inspect, hs.generation]
        rcases hother with hi | hg
        · exact .inr (.inl fun he => hi (Option.some.inj he))
        · exact .inr (.inr (.inl hg))
    rw [hsame]
    refine ⟨hs, Keeps.refl uri s, if_neg fun hsome => ?_⟩
    exact hother.elim (· hsome.1) (· hsome.2)
  | update resolution => exact hq.elim
  | beginInspect inspectMessageId publish => exact hq.elim
  | invalidate invalidation => exact hq.elim
  | dispose => exact hq.elim
  | editorChanged editor cursor => exact hq.elim

theorem directions_cons (t : Transition Navigation Event) :
    directions i g (t :: h) = directions i g h ++ (direction? i g t.event).toList := by
  unfold directions
  rw [List.reverse_cons, List.filterMap_append]
  cases hd : direction? i g t.event with
  | none => simp [hd]
  | some direction => simp [hd]

/-- What a run of navigations has done. -/
structure Walked (i : String) (g : ℕ) (uri : String) (s : Navigation)
    (ds : List NavigationDirection) (s' : Navigation) : Prop where
  ready : Ready i g uri s'
  ranges : s'.navigator.ranges = s.navigator.ranges
  cursor : ds = [] → s'.host.primaryCursor = s.host.primaryCursor
  active : s'.activeIndex uri =
    reached s.navigator.ranges s.host.primaryCursor (s.activeIndex uri) ds
  stands : ds ≠ [] → ∃ k range, s'.activeIndex uri = some k ∧
    s.navigator.ranges[k]? = some range ∧ s'.host.primaryCursor = range.start
  revealed : s'.host.revealed = s.host.revealed ++
    (visits s.navigator.ranges s.host.primaryCursor (s.activeIndex uri) ds).filterMap
      fun k => s.navigator.ranges[k]?

theorem run_walked (hs : Ready i g uri s) (hr : Run Step s h s')
    (hevents : ∀ t ∈ h, Quiet i g t ∨ Navigates i g t) :
    Walked i g uri s (directions i g h) s' := by
  induction hr with
  | start =>
    exact ⟨hs, rfl, fun _ => rfl, rfl, fun hne => absurd rfl hne, (List.append_nil _).symm⟩
  | @next h s₁ s₂ e hr hstep ih =>
    have hw := ih fun t ht => hevents t (List.mem_cons_of_mem _ ht)
    rw [directions_cons]
    rcases hevents _ List.mem_cons_self with hq | ⟨direction, notified, he⟩
    · obtain ⟨hready, hkeeps, hnone⟩ := quiet_keeps hw.ready hstep hq
      simp only [hnone, Option.toList_none, List.append_nil]
      refine ⟨hready, hkeeps.ranges.trans hw.ranges, fun hd => hkeeps.cursor.trans (hw.cursor hd),
        hkeeps.active.trans hw.active, fun hne => ?_, hkeeps.revealed.trans hw.revealed⟩
      obtain ⟨k, range, hk, hrange, hcursor⟩ := hw.stands hne
      exact ⟨k, range, hkeeps.active.trans hk, hrange, hkeeps.cursor.trans hcursor⟩
    · obtain rfl : e = .navigate ⟨i, g, direction⟩ (.done notified) := he
      have hd : direction? i g (.navigate ⟨i, g, direction⟩ (.done notified)) = some direction :=
        if_pos ⟨rfl, rfl⟩
      have hv := navigate_done hw.ready direction notified
      rw [← show s₂ = s₁.navigate ⟨i, g, direction⟩ (.done notified) from hstep, hw.ranges,
        hw.active] at hv
      have htarget : targetIndex s.navigator.ranges s₁.host.primaryCursor
          (reached s.navigator.ranges s.host.primaryCursor (s.activeIndex uri) (directions i g h))
            direction =
          targetIndex s.navigator.ranges s.host.primaryCursor
            (reached s.navigator.ranges s.host.primaryCursor (s.activeIndex uri)
              (directions i g h)) direction := by
        by_cases hempty : directions i g h = []
        · rw [hw.cursor hempty]
        · exact targetIndex_cursor (reached_isSome hempty) _ _
      rw [htarget] at hv
      obtain ⟨range, hrange, hrevealed, hcursor⟩ := hv.visited
      rw [hw.ranges] at hrange
      simp only [hd, Option.toList_some]
      refine ⟨hv.ready, hv.ranges.trans hw.ranges, fun hne => absurd hne (by simp), ?_,
        fun _ => ⟨_, range, hv.active, hrange, hcursor⟩, ?_⟩
      · rw [reached_concat, hv.active]
      · rw [hrevealed, hw.revealed, visits_concat, List.filterMap_append, List.append_assoc]
        simp [hrange]

theorem activeIndex_lt (h : s.activeIndex uri = some k) : k < s.navigator.ranges.length := by
  rw [activeIndex, activeRangeIndex_fst] at h
  have hcontaining : ∀ {k}, containingRangeIndex s.navigator.ranges s.host.primaryCursor = some k →
      k < s.navigator.ranges.length :=
    fun hk => (List.findIdx?_eq_some_iff_getElem.mp hk).1
  cases hp : s.navigator.preferredTarget with
  | none =>
    rw [hp] at h
    exact hcontaining h
  | some preferred =>
    rw [hp] at h
    dsimp only at h
    split at h
    · rename_i hpreferred
      obtain rfl := Option.some.inj h
      have hany := (Bool.and_eq_true_iff.mp hpreferred).2
      cases hrange : s.navigator.ranges[preferred.index]? with
      | none =>
        rw [hrange] at hany
        cases hany
      | some range => exact (List.getElem?_eq_some_iff.mp hrange).1
    · exact hcontaining h

/-! ## What the navigator keeps of a resolution -/

def start (host : NavigationHost) : Navigation := ⟨.empty, host⟩

/-- The ranges are those of the matches, in the document they belong to. -/
def Selected (s : Navigation) : Prop :=
  s.navigator.disposed = false →
    s.navigator.ranges = [] ∨
      ∃ uri, s.navigator.ranges = selectedRanges uri s.navigator.matches

theorem publishState_navigator (s : Navigation) :
    s.publishState.navigator.ranges = s.navigator.ranges ∧
      s.publishState.navigator.matches = s.navigator.matches ∧
      s.publishState.navigator.disposed = s.navigator.disposed := by
  unfold publishState
  split
  · exact ⟨rfl, rfl, rfl⟩
  · split
    · exact ⟨rfl, rfl, rfl⟩
    · split
      · rename_i editor _
        obtain ⟨preferred, hn, -⟩ :=
          activeRangeIndex_spec s.navigator editor s.host.primaryCursor
        dsimp only
        rw [hn]
        exact ⟨rfl, rfl, rfl⟩
      · exact ⟨rfl, rfl, rfl⟩

theorem Selected.congr (hs : Selected s) (hranges : s'.navigator.ranges = s.navigator.ranges)
    (hmatches : s'.navigator.matches = s.navigator.matches)
    (hdisposed : s'.navigator.disposed = s.navigator.disposed) : Selected s' := by
  unfold Selected
  rw [hranges, hmatches, hdisposed]
  exact hs

theorem Selected.publishState (hs : Selected s) : Selected s.publishState := by
  obtain ⟨hranges, hmatches, hdisposed⟩ := publishState_navigator s
  exact hs.congr hranges hmatches hdisposed

theorem Selected.setPrimaryCursor (hs : Selected s) (position : SourcePosition) (notified : Bool) :
    Selected (s.setPrimaryCursor position notified) := by
  unfold Navigation.setPrimaryCursor
  have hmoved : Selected { s with host := { s.host with primaryCursor := position } } :=
    hs.congr rfl rfl rfl
  cases notified with
  | true => exact hmoved.publishState
  | false => exact hmoved

theorem Selected.navigate (hs : Selected s) (message : SourceNavigateMessage)
    (answer : HostAnswer) : Selected (s.navigate message answer) := by
  unfold Navigation.navigate
  split
  · exact hs
  · split
    · exact hs
    · split
      · exact hs.congr rfl rfl rfl
      · rename_i editor _
        obtain ⟨preferred, htarget⟩ := target_spec s editor message.direction
        rw [htarget]
        dsimp only
        split
        · exact hs.congr rfl rfl rfl
        · rename_i range _
          cases answer with
          | cursorRefused => exact hs.congr rfl rfl rfl
          | revealRefused notified =>
            refine Selected.setPrimaryCursor ?_ _ _
            exact hs.congr rfl rfl rfl
          | done notified =>
            refine Selected.publishState (Selected.congr (Selected.setPrimaryCursor ?_ range.start
              notified) rfl rfl rfl)
            exact hs.congr rfl rfl rfl

theorem Selected.step {e : Event} (hs : Selected s) (hstep : Step s e s') : Selected s' := by
  rw [hstep]
  have hempty : ∀ (navigator : SourceNavigator) (host : NavigationHost), navigator.ranges = [] →
      Selected ⟨navigator, host⟩ := fun _ _ hr _ => .inl hr
  cases e with
  | update resolution =>
    show Selected (s.update resolution)
    unfold update
    split
    · exact hs
    · refine Selected.publishState fun _ => ?_
      dsimp only
      cases hd : resolution.documentUri.filter fun uri => uri ≠ "" with
      | none => exact .inl rfl
      | some uri => exact .inr ⟨uri, rfl⟩
  | setIncludedMatches includedMatches publish =>
    show Selected (s.setIncludedMatches includedMatches publish)
    unfold setIncludedMatches
    split
    · exact hs
    · dsimp only
      split
      · refine Selected.publishState ?_
        exact hs.congr rfl rfl rfl
      · exact hs.congr rfl rfl rfl
  | navigate message answer => exact hs.navigate message answer
  | beginInspect inspectMessageId publish =>
    show Selected (s.beginInspect inspectMessageId publish)
    unfold beginInspect
    split
    · exact hs
    · dsimp only
      split
      · exact (hempty _ _ rfl).publishState
      · exact hempty _ _ rfl
  | invalidate invalidation =>
    show Selected (s.invalidate invalidation)
    unfold Navigation.invalidate
    split
    · exact hs
    · exact (hempty _ _ rfl).publishState
  | dispose => exact fun hd => absurd hd (by simp [perform, dispose])
  | cursorChanged position => exact hs.setPrimaryCursor position true
  | editorChanged editor cursor =>
    show Selected (Navigation.invalidate _ none)
    unfold Navigation.invalidate
    split
    · exact hs.congr rfl rfl rfl
    · exact (hempty _ _ rfl).publishState

theorem selected_of_run {host : NavigationHost} (hr : Run Step (start host) h s) : Selected s :=
  Run.invariant (P := Selected) (fun _ => .inl rfl) (fun _ _ _ hs hstep => hs.step hstep) hr

/-- A resolution with a selected match in the document that is shown can be walked through. -/
theorem update_ready {resolution : SourceNavigationResolution}
    (hlive : s.navigator.disposed = false) (huri : resolution.documentUri = some uri)
    (hnamed : uri ≠ "") (hshown : s.host.activeEditor = some uri)
    (hselected : ∃ m ∈ resolution.matches, m.targetRole = .selected) :
    Ready resolution.inspectMessageId resolution.resolutionGeneration uri (s.update resolution) ∧
      (s.update resolution).navigator.ranges = selectedRanges uri resolution.matches ∧
      (s.update resolution).host.primaryCursor = s.host.primaryCursor := by
  obtain ⟨m, hm, hrole⟩ := hselected
  have hmem := ((selectedRanges_spec uri resolution.matches).2 m.range).mpr ⟨m, hm, hrole, rfl⟩
  let s₁ : Navigation := { s with navigator := {
    inspectMessageId := some resolution.inspectMessageId
    resolutionGeneration := resolution.resolutionGeneration
    documentUri := some uri
    ranges := selectedRanges uri resolution.matches
    «matches» := resolution.matches
    includedMatches := currentIncludedMatches resolution.matches
      (resolution.includedMatches.getD [])
    preferredTarget := none
    disposed := false } }
  have hs₁ : Ready resolution.inspectMessageId resolution.resolutionGeneration uri s₁ :=
    ⟨rfl, rfl, rfl, rfl, hnamed, hshown, List.length_pos_of_mem hmem⟩
  have heq : s.update resolution = s₁.publishState := by
    unfold update
    simp only [hlive, huri, Option.filter_some, hnamed, ne_eq, not_false_eq_true, decide_true,
      if_true, Bool.false_eq_true, if_false, Option.isSome_some, Option.map_some, Option.getD_some]
    rfl
  rw [heq]
  obtain ⟨hready, hkeeps, -⟩ := publishState_spec hs₁
  exact ⟨hready, hkeeps.ranges, hkeeps.cursor⟩

/-! ## The walk -/

/-- While the inspect stays, `next` goes round the selected ranges, `previous` takes it back, and
what is sent after a navigation tells where it went. -/
theorem navigation_is_cyclic {host : NavigationHost} (hr₀ : Run Step (start host) h₀ s)
    (hs : Ready i g uri s) (hr : Run Step s h s')
    (hevents : ∀ t ∈ h, Quiet i g t ∨ Navigates i g t) :
    (s.navigator.ranges.Nodup ∧ ∀ r, r ∈ s.navigator.ranges ↔
      ∃ m ∈ s.navigator.matches, m.targetRole = .selected ∧ m.range = r) ∧
    (directions i g h = List.replicate s.navigator.ranges.length .next →
      ∃ visited, s'.host.revealed = s.host.revealed ++ visited ∧
        visited.Perm s.navigator.ranges) ∧
    (directions i g h = List.replicate (s.navigator.ranges.length + 1) .next →
      ∃ first visited, s'.host.revealed = s.host.revealed ++ (first :: visited) ++ [first] ∧
        (first :: visited).Perm s.navigator.ranges) ∧
    (∀ k, s.activeIndex uri = some k →
      directions i g h = [.next, .previous] ∨ directions i g h = [.previous, .next] →
        s'.activeIndex uri = some k ∧ ∃ range, s.navigator.ranges[k]? = some range ∧
          s'.host.primaryCursor = range.start) ∧
    (∀ t ∈ h, Navigates i g t → ∃ k range id, k < s.navigator.ranges.length ∧
      s.navigator.ranges[k]? = some range ∧
      t.post.host.revealed = t.pre.host.revealed ++ [range] ∧
      t.post.host.primaryCursor = range.start ∧
      t.post.host.sent.getLast? = some ⟨i, g, s.navigator.ranges.length, some k, id⟩) := by
  have hw := run_walked hs hr hevents
  have hvisits := fun m => @visits_replicate_next s.navigator.ranges s.host.primaryCursor
    (s.activeIndex uri) hs.ranges m
  have hfirst := targetIndex_lt hs.ranges s.host.primaryCursor (s.activeIndex uri) .next
  generalize targetIndex s.navigator.ranges s.host.primaryCursor (s.activeIndex uri) .next = first
    at hvisits hfirst
  have hround := visited_eq_rotate s.navigator.ranges first
  refine ⟨?_, fun hd => ?_, fun hd => ?_, fun k hk hd => ?_, fun t ht hnavigates => ?_⟩
  · rcases selected_of_run hr₀ hs.live with hempty | ⟨uri, hranges⟩
    · exact absurd hs.ranges (by simp [hempty])
    · rw [hranges]
      exact selectedRanges_spec uri s.navigator.matches
  · have hrevealed := hw.revealed
    rw [hd, hvisits, hround] at hrevealed
    exact ⟨_, hrevealed, List.rotate_perm _ _⟩
  · have hrevealed := hw.revealed
    rw [hd, hvisits, List.range_succ, List.map_append, List.filterMap_append, hround,
      List.map_singleton, Nat.add_mod_right, Nat.mod_eq_of_lt hfirst] at hrevealed
    have hget : s.navigator.ranges[first]? = some s.navigator.ranges[first] :=
      List.getElem?_eq_getElem hfirst
    have hhead : (s.navigator.ranges.rotate first).head? = some s.navigator.ranges[first] := by
      rw [List.head?_rotate hfirst, hget]
    obtain ⟨rest, hrest⟩ := List.head?_eq_some_iff.mp hhead
    refine ⟨s.navigator.ranges[first], rest, ?_, hrest ▸ List.rotate_perm _ _⟩
    rw [hrevealed, hrest]
    simp [hget]
  · have hlt := activeIndex_lt hk
    have hback : s'.activeIndex uri = some k := by
      rw [hw.active, hk]
      rcases hd with hd | hd
      · rw [hd]
        exact congrArg some (adjacentIndex_opposite hlt).1
      · rw [hd]
        exact congrArg some (adjacentIndex_opposite hlt).2
    obtain ⟨k', range, hk', hrange, hcursor⟩ := hw.stands (by rcases hd with hd | hd <;> simp [hd])
    obtain rfl := Option.some.inj (hk'.symm.trans hback)
    exact ⟨hback, range, hrange, hcursor⟩
  · obtain ⟨h₂, h₁, rfl⟩ := List.append_of_mem ht
    obtain ⟨hrun, hstep, -⟩ := hr.split
    have hbefore := run_walked hs hrun fun t' ht' =>
      hevents t' (List.mem_append_right _ (List.mem_cons_of_mem _ ht'))
    obtain ⟨direction, notified, he⟩ := hnavigates
    rw [he] at hstep
    have hv := navigate_done hbefore.ready direction notified
    rw [← show t.post = t.pre.navigate ⟨i, g, direction⟩ (.done notified) from hstep,
      hbefore.ranges] at hv
    obtain ⟨range, hrange, hrevealed, hcursor⟩ := hv.visited
    obtain ⟨id, hsent⟩ := hv.sent
    rw [hbefore.ranges] at hrange hsent
    exact ⟨_, range, id, (List.getElem?_eq_some_iff.mp hrange).1, hrange, hrevealed, hcursor, hsent⟩

section Examples

def sampleMatch (stop : ℤ) : ResolvedSourceMatch where
  targetRole := .selected
  range := ⟨⟨1, 0⟩, ⟨stop, 0⟩⟩
  label := "rule"
  kind := "style-rule"
  relation := "styles"
  confidence := .exact
  pluginId := "css"
  labelProvenance := none

/-- Two ranges with one start. -/
def sampleResolution : SourceNavigationResolution :=
  ⟨"inspect", 1, some "a.css", [sampleMatch 9, sampleMatch 4], none⟩

def sampleStart : Navigation := start ⟨some "a.css", ⟨2, 0⟩, [], []⟩

def sampleShown : Navigation := sampleStart.update sampleResolution

def sampleIntent : Event := .navigate ⟨"inspect", 1, .next⟩ (.done true)

theorem navigation_is_cyclic_sample :
    ∃ visited, ((sampleShown.perform sampleIntent).perform sampleIntent).host.revealed =
      sampleShown.host.revealed ++ visited ∧
        visited.Perm (selectedRanges "a.css" sampleResolution.matches) := by
  have hrun₀ : Run Step sampleStart [⟨sampleStart, .update sampleResolution, sampleShown⟩]
      sampleShown := .next .start rfl
  obtain ⟨hready, hranges, -⟩ := @update_ready sampleStart "a.css" sampleResolution rfl rfl
    (by decide) rfl ⟨sampleMatch 9, by simp [sampleResolution], rfl⟩
  obtain ⟨s₁, hs₁⟩ : ∃ s₁, s₁ = sampleShown.perform sampleIntent := ⟨_, rfl⟩
  obtain ⟨s₂, hs₂⟩ : ∃ s₂, s₂ = s₁.perform sampleIntent := ⟨_, rfl⟩
  have hrun : Run Step sampleShown
      [⟨s₁, sampleIntent, s₂⟩, ⟨sampleShown, sampleIntent, s₁⟩] s₂ := .next (.next .start hs₁) hs₂
  have hevents : ∀ t ∈ [⟨s₁, sampleIntent, s₂⟩,
      (⟨sampleShown, sampleIntent, s₁⟩ : Transition Navigation Event)],
      Quiet "inspect" 1 t ∨ Navigates "inspect" 1 t := by
    simp only [List.forall_mem_cons]
    exact ⟨.inr ⟨.next, true, rfl⟩, .inr ⟨.next, true, rfl⟩,
      fun _ ht => absurd ht List.not_mem_nil⟩
  have hlength : (selectedRanges "a.css" sampleResolution.matches).length = 2 := by
    rw [selectedRanges, List.length_mergeSort]
    decide
  rw [← hs₁, ← hs₂]
  rw [← hranges] at hlength ⊢
  exact (navigation_is_cyclic hrun₀ hready hrun hevents).2.1
    (by rw [show sampleShown.navigator.ranges.length = 2 from hlength]; rfl)

end Examples

end Navigation

end PinOp.Presenter
