import PinOp.Php.MarkupForest

/-!
# Runs of the markup scanner

What holds of the scan of any text: it ends, and its elements stand in the text in good order.
-/

namespace PinOp.Php

open PinOp.Lib

variable {text : List ℕ} {i j : ℕ} {toLowerCase : List ℕ → List ℕ} {s t : ScanState}

/-! ## The scan ends -/

/-- The loop of the source, without a bound on its rounds. -/
inductive Finishes (text : List ℕ) (toLowerCase : List ℕ → List ℕ) :
    ℕ → ScanState → ParsedPhpMarkup → Prop
  | ends {i : ℕ} {s : ScanState} {truncated : Bool} :
      step text toLowerCase i s = .ends truncated →
        Finishes text toLowerCase i s ⟨s.elements, truncated⟩
  | goes {i j : ℕ} {s t : ScanState} {result : ParsedPhpMarkup} :
      step text toLowerCase i s = .goes j t → Finishes text toLowerCase j t result →
        Finishes text toLowerCase i s result

theorem startsWith_beyond {needle : List ℕ} (hne : needle ≠ []) (hi : text.length ≤ i) :
    startsWith text i needle = false := by
  rw [startsWith, List.drop_eq_nil_of_le hi]
  cases needle with
  | nil => exact absurd rfl hne
  | cons u needle => rfl

theorem indexOf_beyond (hi : text.length ≤ i) : indexOf text (ascii "<") i = none := by
  rw [indexOf, List.drop_eq_nil_of_le hi]
  rfl

theorem indexOf_le {needle : List ℕ} {k : ℕ} (hne : needle ≠ []) (h : indexOf text needle i = some k) :
    i ≤ k ∧ k + needle.length ≤ text.length := by
  obtain ⟨hstands, hle⟩ := startsWith_of_indexOf h
  exact ⟨hle, (startsWith_iff.1 hstands).stop_le hne⟩

theorem skipPhpBlock_le (text : List ℕ) (i : ℕ) : skipPhpBlock text i ≤ text.length := by
  rw [skipPhpBlock]
  cases hfound : indexOf text (ascii "?>") (i + 2) with
  | none => exact Nat.le_refl _
  | some k => exact (indexOf_le (by decide) hfound).2

theorem settles_skipToTagEnd (text : List ℕ) :
    Settles (fun rounds i (_ : Unit) => skipToTagEndFrom text rounds i) text.length := by
  refine settles (fun i _ hi => ⟨text.length, fun rounds => ?_⟩) fun i _ hi => ?_
  · cases rounds with
    | zero => rfl
    | succ rounds => rw [skipToTagEndFrom, if_pos hi]
  · cases hopens : startsWith text i (ascii "<?") with
    | true =>
      refine .inr ⟨_, (), lt_skipPhpBlock hopens, fun rounds => ?_⟩
      rw [skipToTagEndFrom, if_neg (by omega), if_pos hopens]
    | false =>
      by_cases hend : text[i]? = some 0x3e
      · refine .inl ⟨i + 1, fun rounds => ?_⟩
        rw [skipToTagEndFrom, if_neg (by omega), hopens, if_pos hend]
        rfl
      · refine .inr ⟨i + 1, (), Nat.lt_succ_self i, fun rounds => ?_⟩
        rw [skipToTagEndFrom, if_neg (by omega), hopens, if_neg hend]
        rfl

/-- A unit ends the value or is read, whatever the rounds that are left. -/
theorem readValueFrom_unit {u : ℕ} (quote : Option ℕ) (hu : text[i]? = some u)
    (hopens : startsWith text i (ascii "<?") = false) :
    ∃ ends : Bool, ∀ rounds literal dynamic,
      readValueFrom text quote (rounds + 1) i literal dynamic =
        if ends then ⟨literal, dynamic, i⟩
        else readValueFrom text quote rounds (i + 1) (literal ++ [u]) dynamic := by
  cases quote with
  | some quote =>
    refine ⟨decide (u = quote), fun rounds literal dynamic => ?_⟩
    rw [readValueFrom, hopens, hu]
    rfl
  | none =>
    refine ⟨isWhitespace u || u = 0x3e || (u = 0x2f && text[i + 1]? = some 0x3e),
      fun rounds literal dynamic => ?_⟩
    rw [readValueFrom, hopens, hu]
    rfl

theorem settles_value (text : List ℕ) (quote : Option ℕ) :
    Settles (fun rounds i (s : List ℕ × Bool) => readValueFrom text quote rounds i s.1 s.2)
      text.length := by
  refine settles (fun i s hi => ⟨⟨s.1, s.2, i⟩, fun rounds => ?_⟩) fun i s hi => ?_
  · cases rounds with
    | zero => rfl
    | succ rounds =>
      rw [readValueFrom, startsWith_beyond (by decide) hi, List.getElem?_eq_none hi]
      rfl
  · cases hopens : startsWith text i (ascii "<?") with
    | true =>
      refine .inr ⟨_, readBlock s, lt_skipPhpBlock hopens, fun rounds => ?_⟩
      rw [readValueFrom, if_pos hopens]
      rfl
    | false =>
      have hu : text[i]? = some text[i] := List.getElem?_eq_getElem hi
      obtain ⟨ends, hround⟩ := readValueFrom_unit quote hu hopens
      cases ends with
      | true => exact .inl ⟨⟨s.1, s.2, i⟩, fun rounds => hround rounds s.1 s.2⟩
      | false =>
        exact .inr ⟨i + 1, readUnit s text[i], Nat.lt_succ_self i, fun rounds =>
          hround rounds s.1 s.2⟩

theorem le_readValueFrom (quote : Option ℕ) (rounds : ℕ) (hi : i ≤ text.length)
    (literal : List ℕ) (dynamic : Bool) :
    i ≤ (readValueFrom text quote rounds i literal dynamic).endOffset ∧
      (readValueFrom text quote rounds i literal dynamic).endOffset ≤ text.length := by
  induction rounds generalizing i literal dynamic with
  | zero => exact ⟨Nat.le_refl i, hi⟩
  | succ rounds ih =>
    cases hopens : startsWith text i (ascii "<?") with
    | true =>
      have hlt := lt_skipPhpBlock hopens
      have := ih (skipPhpBlock_le text i) literal true
      rw [readValueFrom, if_pos hopens]
      omega
    | false =>
      cases hu : text[i]? with
      | none =>
        rw [readValueFrom, hopens, hu]
        exact ⟨Nat.le_refl i, hi⟩
      | some u =>
        have hlt := (List.getElem?_eq_some_iff.1 hu).1
        obtain ⟨ends, hround⟩ := readValueFrom_unit quote hu hopens
        rw [hround]
        split
        · exact ⟨Nat.le_refl i, hi⟩
        · have := ih (show i + 1 ≤ text.length by omega) (literal ++ [u]) dynamic
          omega

theorem le_readAttributeValue (hi : i ≤ text.length) :
    i ≤ (readAttributeValue text i).endOffset ∧
      (readAttributeValue text i).endOffset ≤ text.length := by
  unfold readAttributeValue
  dsimp only
  cases hquote : text[i]?.filter fun code => code = 0x22 || code = 0x27 with
  | none =>
    have := le_readValueFrom none (text.length - i) hi [] false
    simpa using this
  | some quote =>
    have hlt : i < text.length := by
      refine Nat.lt_of_not_le fun hle => ?_
      rw [List.getElem?_eq_none hle] at hquote
      cases hquote
    have := le_readValueFrom (some quote) (text.length - (i + 1)) (show i + 1 ≤ text.length by omega)
      [] false
    simp only [Option.isSome_some, if_true, Bool.true_and, decide_eq_true_eq]
    split <;> omega

theorem le_skipWhitespace (hi : i ≤ text.length) :
    i ≤ skipWhitespace text i ∧ skipWhitespace text i ≤ text.length := by
  have hle := (List.takeWhile_prefix isWhitespace (l := text.drop i)).length_le
  rw [List.length_drop] at hle
  rw [skipWhitespace]
  omega

theorem le_readAttributeName (hi : i ≤ text.length) :
    i + (readAttributeName text i).length ≤ text.length := by
  have hle := (List.takeWhile_prefix isAttributeNameUnit (l := text.drop i)).length_le
  rw [List.length_drop] at hle
  rw [readAttributeName]
  omega

/-- Where a round of the open tag goes. -/
theorem readOpenTagFrom_round (text : List ℕ) (toLowerCase : List ℕ → List ℕ) (i : ℕ)
    (attributes : List PhpMarkupAttribute) :
    (∃ a : OpenTag, i ≤ a.endOffset ∧ (i ≤ text.length → a.endOffset ≤ text.length) ∧
        ∀ rounds, readOpenTagFrom text toLowerCase (rounds + 1) i attributes = a) ∨
      ∃ j pushed, i < j ∧ j ≤ text.length ∧ ∀ rounds,
        readOpenTagFrom text toLowerCase (rounds + 1) i attributes =
          readOpenTagFrom text toLowerCase rounds j pushed := by
  cases hu : text[i]? with
  | none =>
    refine .inl ⟨⟨attributes, i, false⟩, Nat.le_refl i, id, fun rounds => ?_⟩
    rw [readOpenTagFrom, hu]
  | some u =>
    have hlt := (List.getElem?_eq_some_iff.1 hu).1
    cases hspace : isWhitespace u with
    | true =>
      refine .inr ⟨i + 1, attributes, Nat.lt_succ_self i, hlt, fun rounds => ?_⟩
      rw [readOpenTagFrom, hu]
      simp only [hspace, if_true]
    | false =>
      cases hopens : startsWith text i (ascii "<?") with
      | true =>
        refine .inr ⟨_, attributes, lt_skipPhpBlock hopens, skipPhpBlock_le text i,
          fun rounds => ?_⟩
        rw [readOpenTagFrom, hu]
        simp only [hspace, hopens, Bool.false_eq_true, if_false, if_true]
      | false =>
        cases hcloses : startsWith text i (ascii "/>") with
        | true =>
          have hle : i + 2 ≤ text.length := (startsWith_iff.1 hcloses).stop_le (by decide)
          refine .inl ⟨⟨attributes, i + 2, true⟩, Nat.le_add_right i 2, fun _ => hle,
            fun rounds => ?_⟩
          rw [readOpenTagFrom, hu]
          simp only [hspace, hopens, hcloses, Bool.false_eq_true, if_false, if_true]
        | false =>
          by_cases hgt : u = 0x3e
          · refine .inl ⟨⟨attributes, i + 1, false⟩, Nat.le_add_right i 1, fun _ => hlt,
              fun rounds => ?_⟩
            rw [readOpenTagFrom, hu]
            simp only [hspace, hopens, hcloses, Bool.false_eq_true, if_false, if_pos hgt]
          by_cases hslash : u = 0x2f
          · refine .inr ⟨i + 1, attributes, Nat.lt_succ_self i, hlt, fun rounds => ?_⟩
            rw [readOpenTagFrom, hu]
            simp only [hspace, hopens, hcloses, Bool.false_eq_true, if_false, if_neg hgt,
              if_pos hslash]
          by_cases hname : (readAttributeName text i).length = 0
          · refine .inr ⟨i + 1, attributes, Nat.lt_succ_self i, hlt, fun rounds => ?_⟩
            rw [readOpenTagFrom, hu]
            simp only [hspace, hopens, hcloses, Bool.false_eq_true, if_false, if_neg hgt,
              if_neg hslash, if_pos hname]
          have hread := le_readAttributeName (Nat.le_of_lt hlt)
          have hafter := le_skipWhitespace hread
          by_cases heq : text[skipWhitespace text (i + (readAttributeName text i).length)]? ≠ some 0x3d
          · refine .inr ⟨skipWhitespace text (i + (readAttributeName text i).length),
              pushAttribute attributes ⟨toLowerCase (readAttributeName text i), [], false⟩, by omega,
              by omega, fun rounds => ?_⟩
            rw [readOpenTagFrom, hu]
            simp only [hspace, hopens, hcloses, Bool.false_eq_true, if_false, if_neg hgt,
              if_neg hslash, if_neg hname, if_pos heq]
          · have hequals := (List.getElem?_eq_some_iff.1 (Decidable.not_not.1 heq)).1
            have hbehind := le_skipWhitespace (show skipWhitespace text
              (i + (readAttributeName text i).length) + 1 ≤ text.length by omega)
            have hvalue := le_readAttributeValue hbehind.2
            refine .inr ⟨(readAttributeValue text (skipWhitespace text (skipWhitespace text
              (i + (readAttributeName text i).length) + 1))).endOffset,
              pushAttribute attributes ⟨toLowerCase (readAttributeName text i),
                (readAttributeValue text (skipWhitespace text (skipWhitespace text
                  (i + (readAttributeName text i).length) + 1))).literalValue,
                (readAttributeValue text (skipWhitespace text (skipWhitespace text
                  (i + (readAttributeName text i).length) + 1))).dynamic⟩,
              by omega, by omega, fun rounds => ?_⟩
            rw [readOpenTagFrom, hu]
            simp only [hspace, hopens, hcloses, Bool.false_eq_true, if_false, if_neg hgt,
              if_neg hslash, if_neg hname, if_neg heq]

theorem settles_openTag (text : List ℕ) (toLowerCase : List ℕ → List ℕ) :
    Settles (tagScan text toLowerCase) text.length := by
  refine settles (fun i attributes hi => ⟨⟨attributes, i, false⟩, fun rounds => ?_⟩)
    fun i attributes hi => ?_
  · cases rounds with
    | zero => rfl
    | succ rounds => rw [tagScan, readOpenTagFrom, List.getElem?_eq_none hi]
  · rcases readOpenTagFrom_round text toLowerCase i attributes with ⟨a, -, -, ha⟩ | ⟨j, t, hj, -, hgoes⟩
    · exact .inl ⟨a, ha⟩
    · exact .inr ⟨j, t, hj, hgoes⟩

theorem le_readOpenTag (hi : i ≤ text.length) :
    i ≤ (readOpenTag text toLowerCase i).endOffset ∧
      (readOpenTag text toLowerCase i).endOffset ≤ text.length := by
  have hrounds : ∀ (rounds i : ℕ) (attributes : List PhpMarkupAttribute), i ≤ text.length →
      i ≤ (readOpenTagFrom text toLowerCase rounds i attributes).endOffset ∧
        (readOpenTagFrom text toLowerCase rounds i attributes).endOffset ≤ text.length := by
    intro rounds
    induction rounds with
    | zero => exact fun i _ hi => ⟨Nat.le_refl i, hi⟩
    | succ rounds ih =>
      intro i attributes hi
      rcases readOpenTagFrom_round text toLowerCase i attributes with
        ⟨a, hle, hbound, ha⟩ | ⟨j, t, hj, hbound, hgoes⟩
      · rw [ha]
        exact ⟨hle, hbound hi⟩
      · rw [hgoes]
        have := ih j t hbound
        omega
  exact hrounds _ i [] hi

theorem le_skipToTagEnd (text : List ℕ) (i : ℕ) :
    (i ≤ skipToTagEnd text i ∨ skipToTagEnd text i = text.length) ∧
      skipToTagEnd text i ≤ text.length := by
  have hrounds : ∀ rounds i,
      (i ≤ skipToTagEndFrom text rounds i ∨ skipToTagEndFrom text rounds i = text.length) ∧
        skipToTagEndFrom text rounds i ≤ text.length := by
    intro rounds
    induction rounds with
    | zero => exact fun i => ⟨.inr rfl, Nat.le_refl _⟩
    | succ rounds ih =>
      intro i
      rw [skipToTagEndFrom]
      split
      · exact ⟨.inr rfl, Nat.le_refl _⟩
      split
      · rename_i hopens
        have := ih (skipPhpBlock text i)
        have := lt_skipPhpBlock hopens
        omega
      split
      · exact ⟨.inl (Nat.le_add_right i 1), by omega⟩
      · have := ih (i + 1)
        omega
  exact hrounds _ i

theorem le_skipRawText {tag : List ℕ} (hi : i ≤ text.length) :
    i ≤ skipRawText text toLowerCase i tag ∧ skipRawText text toLowerCase i tag ≤ text.length := by
  rw [skipRawText]
  cases hfound : indexOf (toLowerCase text) (ascii "</" ++ tag) i with
  | none => exact ⟨hi, Nat.le_refl _⟩
  | some k =>
    have hle := (startsWith_of_indexOf hfound).2
    have := le_skipToTagEnd text (k + (ascii "</" ++ tag).length)
    dsimp only
    omega

/-! ## Rounds of the scan -/

/-- An element that is read is pushed, and opened when it may have children. -/
def Pushes (text : List ℕ) (toLowerCase : List ℕ → List ℕ) (s t : ScanState) (j : ℕ) : Prop :=
  ∃ e : PhpMarkupElement, t.elements = s.elements ++ [e] ∧ e.startOffset < e.openEndOffset ∧
    e.openEndOffset ≤ e.endOffset ∧ e.endOffset = j ∧
    (t.opened = s.opened ∧ RawEnds text toLowerCase e ∨
      t.opened = s.elements.length :: s.opened ∧ rawTextElements.contains e.tag = false)

theorem readElement_goes (hlower : LowersAscii toLowerCase) (hi : i < text.length) :
    ∃ j t, readElement text toLowerCase i s = .goes j t ∧ i < j ∧ j ≤ text.length ∧
      Pushes text toLowerCase s t j := by
  have hname : i + 1 + (toLowerCase (readTagName text (i + 1))).length ≤ text.length := by
    have hle := (List.takeWhile_prefix isTagNameCharacter (l := text.drop (i + 1))).length_le
    rw [List.length_drop] at hle
    rw [readTagName_lower hlower, readTagName]
    omega
  have hopen := @le_readOpenTag _ _ toLowerCase hname
  unfold readElement
  dsimp only
  generalize toLowerCase (readTagName text (i + 1)) = tag at hname hopen
  generalize readOpenTag text toLowerCase (i + 1 + tag.length) = openTag at hopen
  have hclosed := @le_skipRawText _ _ toLowerCase tag hopen.2
  cases hraw : rawTextElements.contains tag with
  | true =>
    simp only [if_true]
    refine ⟨_, _, rfl, by omega, hclosed.2, ⟨tag, openTag.attributes, i, openTag.endOffset,
      skipRawText text toLowerCase openTag.endOffset tag⟩, rfl, ?_, hclosed.1, rfl,
      .inl ⟨rfl, fun _ => rfl⟩⟩
    show i < openTag.endOffset
    omega
  | false =>
    simp only [Bool.false_eq_true, if_false]
    have hnot : RawEnds text toLowerCase
        ⟨tag, openTag.attributes, i, openTag.endOffset, openTag.endOffset⟩ := by
      intro hisRaw
      rw [hraw] at hisRaw
      cases hisRaw
    have hbefore : i < openTag.endOffset := by omega
    split
    · exact ⟨_, _, rfl, hbefore, hopen.2, _, rfl, hbefore, Nat.le_refl _, rfl, .inl ⟨rfl, hnot⟩⟩
    · split
      · exact ⟨_, _, rfl, hbefore, hopen.2, _, rfl, hbefore, Nat.le_refl _, rfl, .inr ⟨rfl, hraw⟩⟩
      · exact ⟨_, _, rfl, hbefore, hopen.2, _, rfl, hbefore, Nat.le_refl _, rfl, .inl ⟨rfl, hnot⟩⟩

/-- What a round can do. -/
def Moves (text : List ℕ) (toLowerCase : List ℕ → List ℕ) (i : ℕ) (s : ScanState) : Outcome → Prop
  | .ends _ => True
  | .goes j t => i < j ∧ j ≤ text.length ∧
      (t = s ∨ (∃ tag, t = closeElement s tag j) ∨ Pushes text toLowerCase s t j)

theorem step_moves (hlower : LowersAscii toLowerCase) (text : List ℕ) (i : ℕ) (s : ScanState) :
    Moves text toLowerCase i s (step text toLowerCase i s) := by
  cases hfound : indexOf text (ascii "<") i with
  | none =>
    rw [step, hfound]
    trivial
  | some next =>
    obtain ⟨hle, hlt⟩ := indexOf_le (by decide) hfound
    have hnext : next < text.length := hlt
    have hstep : step text toLowerCase i s = readMarkup text toLowerCase next s := by
      rw [step, hfound]
    rw [hstep, readMarkup]
    have htagEnd : ∀ k, next < k → k ≤ text.length →
        i < skipToTagEnd text k ∧ skipToTagEnd text k ≤ text.length := by
      intro k hk _
      have := le_skipToTagEnd text k
      omega
    split
    · rename_i hopens
      have := lt_skipPhpBlock hopens
      exact ⟨by omega, skipPhpBlock_le text next, .inl rfl⟩
    split
    · rw [skipComment]
      cases hend : indexOf text (ascii "-->") (next + 4) with
      | none =>
        refine ⟨?_, Nat.le_refl _, .inl rfl⟩
        show i < text.length
        omega
      | some k =>
        obtain ⟨hk, hbound⟩ := indexOf_le (by decide) hend
        refine ⟨?_, hbound, .inl rfl⟩
        show i < k + 3
        omega
    split
    · rename_i hdeclares
      have hbound : next + 2 ≤ text.length := (startsWith_iff.1 hdeclares).stop_le (by decide)
      obtain ⟨hgoes, hend⟩ := htagEnd (next + 2) (by omega) hbound
      exact ⟨hgoes, hend, .inl rfl⟩
    split
    · rename_i hcloses
      have hname : next + 2 + (readTagName text (next + 2)).length ≤ text.length := by
        have hbound : next + 2 ≤ text.length := (startsWith_iff.1 hcloses).stop_le (by decide)
        have hlen := (@List.takeWhile_prefix _ (text.drop (next + 2)) isTagNameCharacter).length_le
        rw [List.length_drop] at hlen
        rw [readTagName]
        omega
      obtain ⟨hgoes, hend⟩ := htagEnd _ (by omega) hname
      exact ⟨hgoes, hend, .inr (.inl ⟨_, rfl⟩)⟩
    split
    · exact ⟨by omega, hnext, .inl rfl⟩
    split
    · trivial
    · obtain ⟨j, t, hgoes, hlt, hbound, hpushes⟩ := readElement_goes (s := s) hlower hnext
      rw [hgoes]
      exact ⟨by omega, hbound, .inr (.inr hpushes)⟩

/-! ## Every text -/

/-- What is known of the elements when the scan stands at the index. -/
structure Sound (text : List ℕ) (toLowerCase : List ℕ → List ℕ) (i : ℕ) (s : ScanState) : Prop where
  within : i ≤ text.length
  ordered : ∀ e ∈ s.elements, e.startOffset < e.openEndOffset ∧ e.openEndOffset ≤ e.endOffset ∧
    e.endOffset ≤ i
  raw : ∀ e ∈ s.elements, RawEnds text toLowerCase e
  opened : ∀ k ∈ s.opened, ∃ e, s.elements[k]? = some e ∧ rawTextElements.contains e.tag = false

theorem sound_start (text : List ℕ) (toLowerCase : List ℕ → List ℕ) :
    Sound text toLowerCase 0 ⟨[], []⟩ where
  within := Nat.zero_le _
  ordered := fun _ he => by cases he
  raw := fun _ he => by cases he
  opened := fun _ hk => by cases hk

theorem Sound.skip (h : Sound text toLowerCase i s) (hij : i < j) (hj : j ≤ text.length) :
    Sound text toLowerCase j s where
  within := hj
  ordered := fun e he => by
    have := h.ordered e he
    omega
  raw := h.raw
  opened := h.opened

theorem Sound.push (h : Sound text toLowerCase i s) (hij : i < j) (hj : j ≤ text.length)
    (hpush : Pushes text toLowerCase s t j) : Sound text toLowerCase j t := by
  obtain ⟨e, helements, hstart, hend, hstop, hkind⟩ := hpush
  have hmem : ∀ d ∈ t.elements, d ∈ s.elements ∨ d = e := by
    intro d hd
    rw [helements] at hd
    rcases List.mem_append.1 hd with hd | hd
    · exact .inl hd
    · exact .inr (List.mem_singleton.1 hd)
  have hearlier : ∀ k ∈ s.opened, ∃ d, t.elements[k]? = some d ∧
      rawTextElements.contains d.tag = false := by
    intro k hk
    obtain ⟨d, hd, hraw⟩ := h.opened k hk
    refine ⟨d, ?_, hraw⟩
    rw [helements, List.getElem?_append_left (List.getElem?_eq_some_iff.1 hd).1, hd]
  refine ⟨hj, fun d hd => ?_, fun d hd => ?_, fun k hk => ?_⟩
  · rcases hmem d hd with hd | rfl
    · have := h.ordered d hd
      omega
    · omega
  · rcases hmem d hd with hd | rfl
    · exact h.raw d hd
    · rcases hkind with ⟨-, hraw⟩ | ⟨-, hraw⟩
      · exact hraw
      · intro hisRaw
        rw [hraw] at hisRaw
        cases hisRaw
  · rcases hkind with ⟨hopened, -⟩ | ⟨hopened, hraw⟩
    · exact hearlier k (hopened ▸ hk)
    · rw [hopened] at hk
      rcases List.mem_cons.1 hk with rfl | hk
      · refine ⟨e, ?_, hraw⟩
        rw [helements]
        exact List.getElem?_concat_length
      · exact hearlier k hk

theorem Sound.close (h : Sound text toLowerCase i s) (hij : i < j) (hj : j ≤ text.length)
    (tag : List ℕ) : Sound text toLowerCase j (closeElement s tag j) := by
  rw [closeElement]
  cases hopened : s.opened.dropWhile fun k => s.elements[k]?.map (·.tag) ≠ some tag with
  | nil => exact h.skip hij hj
  | cons k outer =>
    have hsuffix : (k :: outer) <:+ s.opened := hopened ▸ List.dropWhile_suffix _
    obtain ⟨e, he, hraw⟩ := h.opened k (hsuffix.subset List.mem_cons_self)
    let f : PhpMarkupElement → PhpMarkupElement := fun e => { e with endOffset := j }
    -- every element is an earlier one or the one that is closed
    have hmem : ∀ d ∈ s.elements.modify k f, d ∈ s.elements ∨ d = f e := by
      intro d hd
      obtain ⟨n, hn⟩ := List.mem_iff_getElem?.1 hd
      rw [List.getElem?_modify] at hn
      rcases Decidable.em (k = n) with rfl | hne
      · rw [he] at hn
        exact .inr (Option.some.inj (by simpa using hn.symm))
      · refine .inl (List.mem_iff_getElem?.2 ⟨n, ?_⟩)
        simpa [hne] using hn
    refine ⟨hj, fun d hd => ?_, fun d hd => ?_, fun n hn => ?_⟩
    · rcases hmem d hd with hd | rfl
      · have := h.ordered d hd
        omega
      · obtain ⟨hstart, hend, hstop⟩ := h.ordered e (List.mem_of_getElem? he)
        have hclosed : e.openEndOffset ≤ j := by omega
        exact ⟨hstart, hclosed, Nat.le_refl j⟩
    · rcases hmem d hd with hd | rfl
      · exact h.raw d hd
      · intro hisRaw
        have hisRaw : rawTextElements.contains e.tag = true := hisRaw
        rw [hraw] at hisRaw
        cases hisRaw
    · obtain ⟨d, hd, hrawD⟩ := h.opened n (hsuffix.subset (List.mem_cons_of_mem k hn))
      rcases Decidable.em (k = n) with rfl | hne
      · refine ⟨f d, ?_, hrawD⟩
        rw [List.getElem?_modify, hd]
        simp [f]
      · refine ⟨d, ?_, hrawD⟩
        rw [List.getElem?_modify, hd]
        simp [hne]

theorem Sound.goes (hlower : LowersAscii toLowerCase) (h : Sound text toLowerCase i s)
    (hstep : step text toLowerCase i s = .goes j t) : i < j ∧ Sound text toLowerCase j t := by
  have hmoves := step_moves hlower text i s
  rw [hstep] at hmoves
  obtain ⟨hij, hj, hkind⟩ := hmoves
  refine ⟨hij, ?_⟩
  rcases hkind with rfl | ⟨tag, rfl⟩ | hpush
  · exact h.skip hij hj
  · exact h.close hij hj tag
  · exact h.push hij hj hpush

/-- With as many rounds as there are units left the loop is gone through, and what is known at its
places holds of its result. -/
theorem scan_finishes (hlower : LowersAscii toLowerCase) (rounds : ℕ) :
    ∀ {i : ℕ} {s : ScanState}, text.length - i ≤ rounds → Sound text toLowerCase i s →
      Finishes text toLowerCase i s (scan text toLowerCase rounds i s) ∧
        ∃ k t, Sound text toLowerCase k t ∧
          (scan text toLowerCase rounds i s).elements = t.elements := by
  induction rounds with
  | zero =>
    intro i s hrounds h
    have hend : step text toLowerCase i s = .ends false := by
      rw [step, indexOf_beyond (by omega)]
    exact ⟨.ends hend, i, s, h, rfl⟩
  | succ rounds ih =>
    intro i s hrounds h
    rw [scan]
    cases hstep : step text toLowerCase i s with
    | ends truncated => exact ⟨.ends hstep, i, s, h, rfl⟩
    | goes j t =>
      obtain ⟨hij, hnext⟩ := h.goes hlower hstep
      obtain ⟨hfinishes, hsound⟩ := ih (show text.length - j ≤ rounds by omega) hnext
      exact ⟨.goes hstep hfinishes, hsound⟩

/-- The loop has one result. -/
theorem Finishes.unique {r r' : ParsedPhpMarkup} (h : Finishes text toLowerCase i s r)
    (h' : Finishes text toLowerCase i s r') : r = r' := by
  induction h with
  | ends hends =>
    cases h' with
    | ends hends' =>
      rw [hends] at hends'
      cases hends'
      rfl
    | goes hgoes' _ =>
      rw [hends] at hgoes'
      cases hgoes'
  | goes hgoes _ ih =>
    cases h' with
    | ends hends' =>
      rw [hgoes] at hends'
      cases hends'
    | goes hgoes' hrest' =>
      rw [hgoes] at hgoes'
      cases hgoes'
      exact ih hrest'

end PinOp.Php
