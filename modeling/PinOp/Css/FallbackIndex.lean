import PinOp.Css.ParsedRules
import PinOp.Lib.Buckets

/-!
# The fallback index

Where no position and no path tells which rule is meant, a rule is looked up by its selector,
the media conditions around it and the declarations that are reported of it. The index is
filled by what the walk of `CssomIndexBuilder` adds; a rule to whose place the walk does not
trust itself is left out of it. A bucket that is too large is refused, and so is the whole
index of a file with too many entries.
-/

namespace PinOp.Css

open PinOp.Lib PinOp.Protocol

def FALLBACK_BUCKET_LIMIT : ℕ := 32

def FALLBACK_ENTRY_LIMIT : ℕ := InspectLimits.cssRules * 2

def fallbackSelectorKey (spelling : CssSpelling) (selector : String) : Option String :=
  if jsLength selector = 0 || InspectLimits.selectorLength < jsLength selector then none
  else spelling.normalizeSelector selector

/-- `JSON.stringify([selector, media])`, from which both can be read back. -/
abbrev FallbackMediaKey := String × List String

structure FallbackIndexBuilder where
  selectorIndex : Buckets String ParsedRule
  mediaIndex : Buckets FallbackMediaKey ParsedRule
  entries : ℕ
  disabled : Bool

namespace FallbackIndexBuilder

def empty : FallbackIndexBuilder := ⟨∅, ∅, 0, false⟩

/-- The rest of `addToIndex`, for the index that `put` writes. -/
def addToIndex {κ : Type} [DecidableEq κ] (b : FallbackIndexBuilder) (index : Buckets κ ParsedRule)
    (put : Buckets κ ParsedRule → FallbackIndexBuilder → FallbackIndexBuilder) (key : κ)
    (rule : ParsedRule) : FallbackIndexBuilder :=
  if b.disabled then b
  else if index.settled key rule then b
  else if FALLBACK_ENTRY_LIMIT < b.entries + 1 then ⟨∅, ∅, b.entries + 1, true⟩
  else put (index.file FALLBACK_BUCKET_LIMIT key rule) { b with entries := b.entries + 1 }

def addToSelectorIndex (b : FallbackIndexBuilder) (key : String) (rule : ParsedRule) :
    FallbackIndexBuilder :=
  b.addToIndex b.selectorIndex (fun index b => { b with selectorIndex := index }) key rule

def addToMediaIndex (b : FallbackIndexBuilder) (key : FallbackMediaKey) (rule : ParsedRule) :
    FallbackIndexBuilder :=
  b.addToIndex b.mediaIndex (fun index b => { b with mediaIndex := index }) key rule

/-- `media` are the conditions as `containingMedia` answers them. -/
def add (spelling : CssSpelling) (b : FallbackIndexBuilder) (rule : ParsedRule)
    (media : List String) (trusted : Bool) : FallbackIndexBuilder :=
  if b.disabled || !trusted then b
  else
    match rule.fingerprint.selector with
    | none => b
    | some normalizedSelector =>
      match fallbackSelectorKey spelling normalizedSelector with
      | none => b
      | some selector =>
        (b.addToSelectorIndex selector rule).addToMediaIndex
          (selector, media.map spelling.normalizeCondition) rule

end FallbackIndexBuilder

namespace CssFile

variable (spelling : CssSpelling) (file : CssFile)

/-- One entry of the walk; `containingMedia` normalises the conditions. -/
def addEntry (b : FallbackIndexBuilder) (entry : FallbackEntry) : FallbackIndexBuilder :=
  b.add spelling (file.ruleOf spelling entry.rule) (entry.media.map spelling.normalizeCondition)
    entry.trusted

def fallbackIndexes : FallbackIndexBuilder :=
  file.stylesheet.fallback.foldl (file.addEntry spelling) .empty

end CssFile

/-! ## What is filed -/

namespace CssFile

variable (spelling : CssSpelling) (file : CssFile)

/-- The selector of a rule as it is compared with that of a fact. -/
def selectorKey (rule : ParsedRule) : Option String :=
  rule.fingerprint.selector.bind (fallbackSelectorKey spelling)

/-- What an entry the walk trusts is filed under, and the rule that is filed. -/
def filing (entry : FallbackEntry) : Option (FallbackMediaKey × ParsedRule) :=
  if entry.trusted then
    let rule := file.ruleOf spelling entry.rule
    (selectorKey spelling rule).map fun selector =>
      ((selector,
        (entry.media.map spelling.normalizeCondition).map spelling.normalizeCondition), rule)
  else none

/-- What is filed under a selector alone. -/
def bySelector (filed : List (FallbackMediaKey × ParsedRule)) : List (String × ParsedRule) :=
  filed.map fun pair => (pair.1.1, pair.2)

end CssFile

namespace FallbackIndexBuilder

open CssFile

/-- An index that is not given up holds what was filed; one that is given up had too much to
hold. -/
structure Indexes (b : FallbackIndexBuilder) (selectors : List (String × ParsedRule))
    (filed : List (FallbackMediaKey × ParsedRule)) : Prop where
  holdsSelectors : b.disabled = false → b.selectorIndex.Holds FALLBACK_BUCKET_LIMIT selectors
  holdsMedia : b.disabled = false → b.mediaIndex.Holds FALLBACK_BUCKET_LIMIT filed
  counted : b.entries ≤ selectors.toFinset.card + filed.toFinset.card
  cleared : b.disabled = true → b.mediaIndex = ∅ ∧ FALLBACK_ENTRY_LIMIT < b.entries

variable {spelling : CssSpelling} {file : CssFile} {b : FallbackIndexBuilder}
  {selectors : List (String × ParsedRule)} {filed : List (FallbackMediaKey × ParsedRule)}

theorem addToIndex_cases {κ : Type} [DecidableEq κ] (b : FallbackIndexBuilder)
    (index : Buckets κ ParsedRule)
    (put : Buckets κ ParsedRule → FallbackIndexBuilder → FallbackIndexBuilder) (key : κ)
    (rule : ParsedRule) :
    (b.disabled = true ∧ b.addToIndex index put key rule = b) ∨
    (b.disabled = false ∧ index.settled key rule = true ∧ b.addToIndex index put key rule = b) ∨
    (b.disabled = false ∧ index.settled key rule = false ∧ FALLBACK_ENTRY_LIMIT < b.entries + 1 ∧
      b.addToIndex index put key rule = ⟨∅, ∅, b.entries + 1, true⟩) ∨
    (b.disabled = false ∧ index.settled key rule = false ∧
      b.addToIndex index put key rule =
        put (index.file FALLBACK_BUCKET_LIMIT key rule) { b with entries := b.entries + 1 }) := by
  unfold addToIndex
  cases b.disabled with
  | true => exact .inl ⟨rfl, rfl⟩
  | false =>
    refine .inr ?_
    cases index.settled key rule with
    | true => exact .inl ⟨rfl, rfl, rfl⟩
    | false =>
      refine .inr ?_
      by_cases hlimit : FALLBACK_ENTRY_LIMIT < b.entries + 1
      · exact .inl ⟨rfl, rfl, hlimit, by rw [if_neg Bool.false_ne_true, if_neg Bool.false_ne_true,
          if_pos hlimit]⟩
      · exact .inr ⟨rfl, rfl, by rw [if_neg Bool.false_ne_true, if_neg Bool.false_ne_true,
          if_neg hlimit]⟩

/-- What is counted and cleared away for good. -/
theorem Indexes.grow {selectors' : List (String × ParsedRule)}
    {filed' : List (FallbackMediaKey × ParsedRule)} (h : Indexes b selectors filed)
    (hdisabled : b.disabled = true)
    (hmore : selectors.toFinset.card + filed.toFinset.card ≤
      selectors'.toFinset.card + filed'.toFinset.card) : Indexes b selectors' filed' where
  holdsSelectors hen := by
    rw [hdisabled] at hen
    cases hen
  holdsMedia hen := by
    rw [hdisabled] at hen
    cases hen
  counted := h.counted.trans hmore
  cleared := h.cleared

theorem indexes_cleared {entries : ℕ} (hlimit : FALLBACK_ENTRY_LIMIT < entries)
    (hcounted : entries ≤ selectors.toFinset.card + filed.toFinset.card) :
    Indexes ⟨∅, ∅, entries, true⟩ selectors filed where
  holdsSelectors hen := by cases hen
  holdsMedia hen := by cases hen
  counted := hcounted
  cleared _ := ⟨rfl, hlimit⟩

theorem Indexes.addToSelectorIndex (h : Indexes b selectors filed) (key : String)
    (rule : ParsedRule) :
    Indexes (b.addToSelectorIndex key rule) (selectors ++ [(key, rule)]) filed := by
  have hmore : selectors.toFinset.card ≤ (selectors ++ [(key, rule)]).toFinset.card :=
    Buckets.card_filed_le _
  have hcounted := h.counted
  rw [FallbackIndexBuilder.addToSelectorIndex]
  rcases addToIndex_cases b b.selectorIndex (fun index b => { b with selectorIndex := index }) key
    rule with ⟨hdisabled, heq⟩ | ⟨hen, hsettled, heq⟩ | ⟨hen, hnew, hlimit, heq⟩ | ⟨hen, hnew, heq⟩
  · rw [heq]
    exact h.grow hdisabled (by omega)
  · rw [heq]
    exact ⟨fun _ => (h.holdsSelectors hen).settled hsettled, h.holdsMedia, by omega, h.cleared⟩
  all_goals
    have hone := Buckets.card_filed ((h.holdsSelectors hen).not_mem hnew)
    rw [heq]
  · exact indexes_cleared hlimit (by omega)
  · refine ⟨fun _ => (h.holdsSelectors hen).file hnew, fun _ => h.holdsMedia hen, ?_, fun hd => ?_⟩
    · show b.entries + 1 ≤ _
      omega
    · exact absurd (hen.symm.trans hd) Bool.false_ne_true

theorem Indexes.addToMediaIndex (h : Indexes b selectors filed) (key : FallbackMediaKey)
    (rule : ParsedRule) :
    Indexes (b.addToMediaIndex key rule) selectors (filed ++ [(key, rule)]) := by
  have hmore : filed.toFinset.card ≤ (filed ++ [(key, rule)]).toFinset.card :=
    Buckets.card_filed_le _
  have hcounted := h.counted
  rw [FallbackIndexBuilder.addToMediaIndex]
  rcases addToIndex_cases b b.mediaIndex (fun index b => { b with mediaIndex := index }) key
    rule with ⟨hdisabled, heq⟩ | ⟨hen, hsettled, heq⟩ | ⟨hen, hnew, hlimit, heq⟩ | ⟨hen, hnew, heq⟩
  · rw [heq]
    exact h.grow hdisabled (by omega)
  · rw [heq]
    exact ⟨h.holdsSelectors, fun _ => (h.holdsMedia hen).settled hsettled, by omega, h.cleared⟩
  all_goals
    have hone := Buckets.card_filed ((h.holdsMedia hen).not_mem hnew)
    rw [heq]
  · exact indexes_cleared hlimit (by omega)
  · refine ⟨fun _ => h.holdsSelectors hen, fun _ => (h.holdsMedia hen).file hnew, ?_, fun hd => ?_⟩
    · show b.entries + 1 ≤ _
      omega
    · exact absurd (hen.symm.trans hd) Bool.false_ne_true

/-- Adding an entry files it, if there is something to file. -/
theorem Indexes.addEntry (h : Indexes b (bySelector filed) filed) (entry : FallbackEntry) :
    Indexes (file.addEntry spelling b entry)
      (bySelector (filed ++ (file.filing spelling entry).toList))
      (filed ++ (file.filing spelling entry).toList) := by
  unfold CssFile.addEntry add filing selectorKey
  by_cases htrusted : entry.trusted = true
  swap
  · rw [if_neg htrusted, Option.toList_none, List.append_nil]
    rw [Bool.not_eq_true] at htrusted
    rw [htrusted, Bool.not_false, Bool.or_true, if_pos rfl]
    exact h
  rw [if_pos htrusted, htrusted, Bool.not_true, Bool.or_false]
  by_cases hdisabled : b.disabled = true
  · rw [if_pos hdisabled]
    refine h.grow hdisabled (Nat.add_le_add ?_ ?_)
    · rw [bySelector, bySelector, List.map_append, List.toFinset_append]
      exact Finset.card_le_card Finset.subset_union_left
    · rw [List.toFinset_append]
      exact Finset.card_le_card Finset.subset_union_left
  rw [if_neg hdisabled]
  cases hselector : (file.ruleOf spelling entry.rule).fingerprint.selector with
  | none =>
    simpa [hselector] using h
  | some normalizedSelector =>
    cases hkey : fallbackSelectorKey spelling normalizedSelector with
    | none => simpa [hselector, hkey] using h
    | some selector =>
      simp only [hselector, hkey, Option.bind_some, Option.map_some, Option.toList_some, bySelector,
        List.map_append, List.map_cons, List.map_nil]
      exact (h.addToSelectorIndex selector _).addToMediaIndex _ _

end FallbackIndexBuilder

namespace CssFile

open FallbackIndexBuilder

variable (spelling : CssSpelling) (file : CssFile)

end CssFile

end PinOp.Css
