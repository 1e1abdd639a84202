import PinOp.Css.TextDocument
import PinOp.Lib.BinarySearch

/-!
# Looking up mappings of a source map

The mappings of a source map are sorted by the place in the generated text that they map: lines
count from one, columns from zero. `mappingsAt` and `mappingWithinRule` find by binary search what a
walk over the whole list finds.
-/

namespace PinOp.Css

open PinOp.Lib

structure GeneratedMapping where
  generatedLine : ℤ
  generatedColumn : ℤ
  source : String
  line : ℤ
  column : ℤ
  sourceContent : Option String
  deriving DecidableEq

namespace SourceMapLoader

/-- Whether a mapping is in front of a place of the generated text. -/
def isBefore (generatedLine generatedColumn : ℤ) (mapping : GeneratedMapping) : Bool :=
  mapping.generatedLine < generatedLine ||
    (mapping.generatedLine = generatedLine && mapping.generatedColumn < generatedColumn)

def isAt (generatedLine generatedColumn : ℤ) (mapping : GeneratedMapping) : Bool :=
  mapping.generatedLine = generatedLine && mapping.generatedColumn = generatedColumn

/-- The loop of `mappingsAt` over the mappings at the place. -/
def runEnd (mappings : List GeneratedMapping) (generatedLine generatedColumn : ℤ) : ℕ → ℕ → ℕ
  | 0, stop => stop
  | rounds + 1, stop =>
    if mappings[stop]?.any (isAt generatedLine generatedColumn) then
      runEnd mappings generatedLine generatedColumn rounds (stop + 1)
    else stop

/-- Every mapping at exactly one generated position. -/
def mappingsAt (mappings : List GeneratedMapping) (generatedLine generatedColumn : ℤ) :
    List GeneratedMapping :=
  let low := search (fun middle => mappings[middle]?.any (isBefore generatedLine generatedColumn))
    mappings.length 0 mappings.length
  let stop := runEnd mappings generatedLine generatedColumn mappings.length low
  (mappings.take stop).drop low

def generatedMappingIsWithinRule (generatedLine generatedColumn : ℤ) (range : SourceRange) : Bool :=
  let line := generatedLine - 1
  if line < range.start.line || line > range.stop.line then false
  else if line = range.start.line && generatedColumn < range.start.character then false
  else if line = range.stop.line && generatedColumn ≥ range.stop.character then false
  else true

/-- `range` is where the rule stands in the generated text. -/
def mappingWithinRule (mappings : List GeneratedMapping) (range : SourceRange) :
    Option GeneratedMapping :=
  let low := search (fun middle => mappings[middle]?.any fun mapping =>
      mapping.generatedLine - 1 < range.start.line ||
        (mapping.generatedLine - 1 = range.start.line &&
          mapping.generatedColumn < range.start.character))
    mappings.length 0 mappings.length
  mappings[low]?.filter fun candidate =>
    generatedMappingIsWithinRule candidate.generatedLine candidate.generatedColumn range

/-! ## Sorted lists -/

/-- The order of the mappings of a source map. -/
def Sorted (mappings : List GeneratedMapping) : Prop :=
  mappings.Pairwise fun a b => a.generatedLine < b.generatedLine ∨
    a.generatedLine = b.generatedLine ∧ a.generatedColumn ≤ b.generatedColumn

instance (mappings : List GeneratedMapping) : Decidable (Sorted mappings) :=
  inferInstanceAs (Decidable (mappings.Pairwise _))

variable {mappings : List GeneratedMapping} {l c : ℤ}

theorem isBefore_iff {mapping : GeneratedMapping} : isBefore l c mapping = true ↔
    mapping.generatedLine < l ∨ mapping.generatedLine = l ∧ mapping.generatedColumn < c := by
  simp [isBefore]

theorem isAt_iff {mapping : GeneratedMapping} :
    isAt l c mapping = true ↔ mapping.generatedLine = l ∧ mapping.generatedColumn = c := by
  simp [isAt]

theorem Sorted.before_mono (h : Sorted mappings) (l c : ℤ) :
    mappings.Pairwise fun a b => isBefore l c b = true → isBefore l c a = true := by
  refine List.Pairwise.imp (fun {a b} hab hb => ?_) h
  rw [isBefore_iff] at hb ⊢
  omega

theorem isAt_not_before {mapping : GeneratedMapping} (h : isAt l c mapping = true) :
    isBefore l c mapping = false := by
  rw [isAt_iff] at h
  rw [← Bool.not_eq_true, isBefore_iff]
  omega

/-- Behind those in front of the place come first those at the place. -/
theorem Sorted.at_mono (h : Sorted mappings) (l c : ℤ) :
    (mappings.dropWhile (isBefore l c)).Pairwise fun a b =>
      isAt l c b = true → isAt l c a = true := by
  refine ((h.sublist (List.dropWhile_sublist _)).imp_of_mem fun {a b} ha _ hab hb => ?_)
  have hnot := not_of_mem_dropWhile (h.before_mono l c) a ha
  rw [← Bool.not_eq_true, isBefore_iff] at hnot
  rw [isAt_iff] at hb ⊢
  omega

theorem runEnd_eq (mappings : List GeneratedMapping) (l c : ℤ) {rounds low : ℕ}
    (h : mappings.length ≤ low + rounds) :
    runEnd mappings l c rounds low = low + ((mappings.drop low).takeWhile (isAt l c)).length := by
  induction rounds generalizing low with
  | zero =>
    rw [List.drop_eq_nil_of_le (by omega)]
    rfl
  | succ rounds ih =>
    unfold runEnd
    cases hget : mappings[low]? with
    | none =>
      rw [List.drop_eq_nil_of_le (List.getElem?_eq_none_iff.1 hget)]
      rfl
    | some mapping =>
      obtain ⟨hlow, rfl⟩ := List.getElem?_eq_some_iff.1 hget
      rw [List.drop_eq_getElem_cons hlow, Option.any_some]
      cases hat : isAt l c mappings[low] with
      | true =>
        rw [if_pos rfl, ih (by omega), List.takeWhile_cons_of_pos hat, List.length_cons]
        omega
      | false =>
        rw [if_neg (by simp), List.takeWhile_cons_of_neg (by simp [hat])]
        rfl

/-! ## The searches -/

theorem mappingsAt_eq (h : Sorted mappings) (l c : ℤ) :
    mappingsAt mappings l c = mappings.filter (isAt l c) := by
  have hlow := search_list (h.before_mono l c)
  unfold mappingsAt
  simp only [hlow]
  rw [runEnd_eq mappings l c (by omega), drop_length_takeWhile, List.drop_take,
    Nat.add_sub_cancel_left, drop_length_takeWhile]
  have htake : (mappings.dropWhile (isBefore l c)).take
      ((mappings.dropWhile (isBefore l c)).takeWhile (isAt l c)).length =
      (mappings.dropWhile (isBefore l c)).takeWhile (isAt l c) :=
    (List.prefix_iff_eq_take.1 (List.takeWhile_prefix _)).symm
  rw [htake, ← filter_eq_takeWhile (h.at_mono l c)]
  have hfront : (mappings.takeWhile (isBefore l c)).filter (isAt l c) = [] := by
    rw [List.filter_eq_nil_iff]
    intro mapping hmem hat
    have hbefore := List.mem_takeWhile_imp hmem
    rw [isAt_not_before hat] at hbefore
    cases hbefore
  conv_rhs => rw [← List.takeWhile_append_dropWhile (p := isBefore l c) (l := mappings)]
  rw [List.filter_append, hfront, List.nil_append]

/-- The mappings of a rule go from its start to before its end. -/
theorem isWithinRule_iff {mapping : GeneratedMapping} {range : SourceRange} :
    generatedMappingIsWithinRule mapping.generatedLine mapping.generatedColumn range = true ↔
      isBefore (range.start.line + 1) range.start.character mapping = false ∧
      isBefore (range.stop.line + 1) range.stop.character mapping = true := by
  rw [← Bool.not_eq_true, isBefore_iff, isBefore_iff]
  unfold generatedMappingIsWithinRule
  simp only [Bool.or_eq_true, Bool.and_eq_true, decide_eq_true_eq]
  split_ifs <;> simp only [false_iff, true_iff] <;> omega

theorem mappingWithinRule_eq (h : Sorted mappings) (range : SourceRange) :
    mappingWithinRule mappings range = mappings.find? fun mapping =>
      generatedMappingIsWithinRule mapping.generatedLine mapping.generatedColumn range := by
  have hbefore : (fun mapping : GeneratedMapping =>
      (mapping.generatedLine - 1 < range.start.line : Bool) ||
        (mapping.generatedLine - 1 = range.start.line &&
          mapping.generatedColumn < range.start.character)) =
      isBefore (range.start.line + 1) range.start.character := by
    funext mapping
    rw [Bool.eq_iff_iff, isBefore_iff]
    simp only [Bool.or_eq_true, Bool.and_eq_true, decide_eq_true_eq]
    omega
  unfold mappingWithinRule
  rw [hbefore, search_list (h.before_mono _ _)]
  generalize hp : isBefore (range.start.line + 1) range.start.character = p
  have hsorted := h.before_mono (range.start.line + 1) range.start.character
  rw [hp] at hsorted
  have hfront : (mappings.takeWhile p).find? (fun mapping =>
      generatedMappingIsWithinRule mapping.generatedLine mapping.generatedColumn range) = none := by
    rw [List.find?_eq_none]
    intro mapping hmem hwithin
    have := (isWithinRule_iff.1 hwithin).1
    rw [hp, List.mem_takeWhile_imp hmem] at this
    cases this
  conv_rhs => rw [← List.takeWhile_append_dropWhile (p := p) (l := mappings)]
  rw [List.find?_append, hfront, Option.none_or]
  show (mappings[(mappings.takeWhile p).length]?).filter _ = _
  have hdrop : mappings[(mappings.takeWhile p).length]? =
      (mappings.drop (mappings.takeWhile p).length)[0]? := by
    rw [List.getElem?_drop, Nat.add_zero]
  rw [hdrop, drop_length_takeWhile]
  cases hrest : mappings.dropWhile p with
  | nil => rfl
  | cons candidate rest =>
    show Option.filter _ (some candidate) = _
    cases hc : generatedMappingIsWithinRule candidate.generatedLine candidate.generatedColumn
        range with
    | true =>
      rw [Option.filter_some, if_pos hc, List.find?_cons]
      simp only [hc]
    | false =>
      rw [Option.filter_some, if_neg (by simp [hc]), eq_comm, List.find?_eq_none]
      have hcand : candidate ∈ mappings.dropWhile p := by rw [hrest]; exact List.mem_cons_self
      have hstart := not_of_mem_dropWhile hsorted candidate hcand
      have hpair := h.sublist (List.dropWhile_sublist p)
      rw [hrest] at hpair
      -- the first mapping from the start of the rule on is behind its end, and so are the others
      have hend : isBefore (range.stop.line + 1) range.stop.character candidate = false := by
        by_contra hne
        have := isWithinRule_iff.2 ⟨hp ▸ hstart, by simpa using hne⟩
        rw [hc] at this
        cases this
      intro mapping hmem hwithin
      have hm := (isWithinRule_iff.1 hwithin).2
      rcases List.mem_cons.1 hmem with rfl | hmem
      · rw [hend] at hm
        cases hm
      · have hle := (List.pairwise_cons.1 hpair).1 mapping hmem
        rw [isBefore_iff] at hm
        rw [← Bool.not_eq_true, isBefore_iff] at hend
        omega

/-- Both lookups answer what a walk over the whole list answers. -/
theorem lookups_linear (h : Sorted mappings) :
    (∀ generatedLine generatedColumn, mappingsAt mappings generatedLine generatedColumn =
      mappings.filter fun mapping =>
        mapping.generatedLine = generatedLine && mapping.generatedColumn = generatedColumn) ∧
    ∀ range, mappingWithinRule mappings range = mappings.find? fun mapping =>
      generatedMappingIsWithinRule mapping.generatedLine mapping.generatedColumn range :=
  ⟨mappingsAt_eq h, mappingWithinRule_eq h⟩

/-- Two mappings of one place, and one behind it. -/
theorem lookups_linear_sample :
    let mapped : List GeneratedMapping :=
      [⟨1, 4, "a.scss", 1, 2, none⟩, ⟨1, 4, "b.scss", 3, 0, none⟩, ⟨2, 0, "a.scss", 5, 0, none⟩]
    Sorted mapped ∧ mappingsAt mapped 1 4 = mapped.take 2 ∧
      mappingWithinRule mapped ⟨⟨0, 5⟩, ⟨1, 1⟩⟩ = mapped[2]? := by
  intro mapped
  have hsorted : Sorted mapped := by decide
  refine ⟨hsorted, ?_, ?_⟩
  · rw [(lookups_linear hsorted).1]
    decide
  · rw [(lookups_linear hsorted).2]
    decide

end SourceMapLoader

end PinOp.Css
