import Mathlib
import PinOp.Css.TextDocument
import PinOp.Lib.BinarySearch

/-!
# Offsets and positions are inverse

The lines of a text are what line feeds split it into. A position that lies in the text is a line of
it and a place from the start of the line to its end; the two translations are inverse between
these and the offsets of the text.
-/

namespace PinOp.Css

open PinOp.Lib

/-- The lines of a text, without their line feeds. -/
def textLines (text : List ℕ) : List (List ℕ) := text.splitOn '\n'.toNat

def LiesIn (text : List ℕ) (position : SourcePosition) : Prop :=
  0 ≤ position.line ∧ 0 ≤ position.character ∧
    ∃ line, (textLines text)[position.line.toNat]? = some line ∧
      position.character ≤ line.length

/-- The order of positions in a text. -/
def IsBefore (p q : SourcePosition) : Prop :=
  p.line < q.line ∨ p.line = q.line ∧ p.character < q.character

/-! ## Where the lines start -/

/-- Where line `k` starts when the lines stand behind each other. -/
def lineStart (lines : List (List ℕ)) (k : ℕ) : ℕ :=
  ((lines.take k).map fun line => line.length + 1).sum

variable {text : List ℕ} {lines : List (List ℕ)} {line : List ℕ} {k j : ℕ}

@[simp] theorem lineStart_zero (lines : List (List ℕ)) : lineStart lines 0 = 0 := rfl

@[simp] theorem lineStart_cons_succ (line : List ℕ) (lines : List (List ℕ)) (k : ℕ) :
    lineStart (line :: lines) (k + 1) = line.length + 1 + lineStart lines k := rfl

theorem lineStart_succ (h : lines[k]? = some line) :
    lineStart lines (k + 1) = lineStart lines k + line.length + 1 := by
  obtain ⟨hk, rfl⟩ := List.getElem?_eq_some_iff.1 h
  rw [lineStart, List.take_succ_eq_append_getElem hk, List.map_append, List.sum_append]
  rfl

theorem lineStart_lt (h : k < j) (hj : j ≤ lines.length) :
    lineStart lines k < lineStart lines j := by
  induction j with
  | zero => omega
  | succ j ih =>
    have hstep := lineStart_succ (List.getElem?_eq_getElem hj)
    rcases Nat.lt_or_ge k j with hlt | hge
    · have := ih hlt (by omega)
      omega
    · have : k = j := by omega
      subst this
      omega

theorem lineStart_le (h : k ≤ j) (hj : j ≤ lines.length) :
    lineStart lines k ≤ lineStart lines j := by
  rcases Nat.lt_or_eq_of_le h with hlt | rfl
  · exact Nat.le_of_lt (lineStart_lt hlt hj)
  · exact Nat.le_refl _

theorem textLines_cons (u : ℕ) (text : List ℕ) :
    textLines (u :: text) =
      if u = '\n'.toNat then [] :: textLines text else (textLines text).modifyHead (u :: ·) := by
  have h := List.splitOnP_cons_eq_if_modifyHead (p := (· == '\n'.toNat)) u text
  simp only [beq_iff_eq] at h
  exact h

theorem textLines_ne_nil (text : List ℕ) : textLines text ≠ [] := List.splitOnP_ne_nil _ text

theorem lineStart_textLines (text : List ℕ) :
    lineStart (textLines text) (textLines text).length = text.length + 1 := by
  induction text with
  | nil => rfl
  | cons u text ih =>
    rw [textLines_cons]
    split
    · show 0 + 1 + lineStart (textLines text) (textLines text).length = _
      rw [ih]
      simp only [List.length_cons]
      omega
    · obtain ⟨line, lines, h⟩ := List.exists_cons_of_ne_nil (textLines_ne_nil text)
      rw [h] at ih ⊢
      simp only [List.modifyHead_cons, List.length_cons, lineStart_cons_succ] at ih ⊢
      omega

/-- The offsets behind the line feeds are the starts of the lines. -/
theorem lineOffsetsFrom_eq (text : List ℕ) (index : ℕ) :
    index :: lineOffsetsFrom index text =
      (List.range (textLines text).length).map fun k => index + lineStart (textLines text) k := by
  induction text generalizing index with
  | nil => rfl
  | cons u text ih =>
    rw [textLines_cons, lineOffsetsFrom]
    have hrest := ih (index + 1)
    by_cases hu : u = '\n'.toNat
    · rw [if_pos hu, if_pos hu, hrest, List.length_cons, List.range_succ_eq_map]
      simp only [List.map_cons, List.map_map, lineStart_zero, Nat.add_zero, List.cons.injEq,
        true_and]
      refine List.map_congr_left fun k _ => ?_
      simp only [Function.comp_apply, lineStart_cons_succ, List.length_nil]
      omega
    · obtain ⟨line, lines, h⟩ := List.exists_cons_of_ne_nil (textLines_ne_nil text)
      rw [if_neg hu, if_neg hu]
      rw [h] at hrest ⊢
      rw [List.length_cons, List.range_succ_eq_map] at hrest
      simp only [List.map_cons, List.map_map, lineStart_zero, Nat.add_zero, List.cons.injEq,
        true_and] at hrest
      rw [hrest, List.modifyHead_cons, List.length_cons, List.range_succ_eq_map]
      simp only [List.map_cons, List.map_map, lineStart_zero, Nat.add_zero, List.cons.injEq,
        true_and]
      refine List.map_congr_left fun k _ => ?_
      simp only [Function.comp_apply, lineStart_cons_succ, List.length_cons]
      omega

theorem lineOffsets_eq (text : List ℕ) :
    lineOffsets text = (List.range (textLines text).length).map (lineStart (textLines text)) := by
  have h := lineOffsetsFrom_eq text 0
  simp only [Nat.zero_add] at h
  exact h

theorem length_lineOffsets (text : List ℕ) :
    (lineOffsets text).length = (textLines text).length := by
  rw [lineOffsets_eq, List.length_map, List.length_range]

theorem getD_lineOffsets (hk : k < (textLines text).length) (d : ℕ) :
    (lineOffsets text).getD k d = lineStart (textLines text) k := by
  rw [lineOffsets_eq, List.getD_eq_getElem?_getD, List.getElem?_map, List.getElem?_range hk]
  rfl

/-! ## Both ways -/

theorem searchLine_eq (offsets : List ℕ) (clamped : ℤ) (count low high : ℕ) :
    searchLine offsets clamped count low high =
      search (fun k => !decide (clamped < offsets.getD k 0)) count low high := by
  induction count generalizing low high with
  | zero => rfl
  | succ count ih =>
    unfold searchLine search
    by_cases hlt : low < high
    · by_cases hc : clamped < offsets.getD ((low + high) / 2) 0
      · simp only [if_pos hlt, if_pos hc, ih, decide_eq_true hc, Bool.not_true, Bool.false_eq_true,
          if_false]
      · simp only [if_pos hlt, if_neg hc, ih, decide_eq_false hc, Bool.not_false, if_true]
    · rw [if_neg hlt, if_neg hlt]

/-- The position of an offset that falls on a line. -/
theorem positionAt_eq (hline : (textLines text)[k]? = some line) {character : ℕ}
    (hcharacter : character ≤ line.length) :
    positionAt text (lineStart (textLines text) k + character : ℕ) = ⟨k, character⟩ := by
  obtain ⟨hk, -⟩ := List.getElem?_eq_some_iff.1 hline
  have hnext := lineStart_succ hline
  have hend := lineStart_textLines text
  have hle := lineStart_le (k := k + 1) (Nat.succ_le_of_lt hk) (Nat.le_refl _)
  have hclamped : max 0 (min ((lineStart (textLines text) k + character : ℕ) : ℤ) text.length) =
      (lineStart (textLines text) k + character : ℕ) := by omega
  have hsearch : searchLine (lineOffsets text) (lineStart (textLines text) k + character : ℕ)
      (lineOffsets text).length 0 (lineOffsets text).length = k + 1 := by
    rw [searchLine_eq, length_lineOffsets]
    refine search_eq (n := (textLines text).length) (fun i hi => ?_) (Nat.zero_le _) hk
      (Nat.le_refl _) (Nat.le_refl _)
    rw [getD_lineOffsets hi, ← decide_not, decide_eq_decide]
    constructor
    · intro hnot
      by_contra hge
      have := lineStart_le (show k + 1 ≤ i by omega) (Nat.le_of_lt hi)
      omega
    · intro hlt
      have := lineStart_le (show i ≤ k by omega) (Nat.le_of_lt hk)
      omega
  unfold positionAt
  simp only [hclamped, hsearch, Nat.add_sub_cancel, getD_lineOffsets hk]
  congr 1
  omega

/-- What is asked about a position is answered for the nearest place of its line. -/
theorem offsetAt_eq (position : SourcePosition) (hk : (k : ℤ) =
      max 0 (min position.line ((textLines text).length - 1)))
    (hline : (textLines text)[k]? = some line) :
    offsetAt text position =
      lineStart (textLines text) k + max 0 (min position.character line.length) := by
  obtain ⟨hlt, -⟩ := List.getElem?_eq_some_iff.1 hline
  have hnext := lineStart_succ hline
  have hend := lineStart_textLines text
  unfold offsetAt
  simp only [length_lineOffsets, ← hk, Int.toNat_natCast, getD_lineOffsets hlt]
  by_cases hlast : k + 1 < (textLines text).length
  · rw [if_pos hlast, getD_lineOffsets hlast]
    omega
  · have hn : k + 1 = (textLines text).length := by omega
    have hnone : (lineOffsets text)[k + 1]? = none := by
      rw [List.getElem?_eq_none_iff, length_lineOffsets]
      omega
    rw [if_neg hlast, List.getD_eq_getElem?_getD, hnone, Option.getD_none]
    rw [hn] at hnext
    omega

/-- Every offset of the text falls on one of its lines. -/
theorem exists_line {offset : ℕ} (h : offset ≤ text.length) :
    ∃ k line character, (textLines text)[k]? = some line ∧ character ≤ line.length ∧
      offset = lineStart (textLines text) k + character := by
  have hend := lineStart_textLines text
  obtain ⟨k, hk, hle, hlt⟩ : ∃ k < (textLines text).length, lineStart (textLines text) k ≤ offset ∧
      offset < lineStart (textLines text) (k + 1) := by
    have hex : ∃ n, offset < lineStart (textLines text) n := ⟨_, by rw [hend]; omega⟩
    classical
    have hfind := Nat.find_spec hex
    have hmin : Nat.find hex ≤ (textLines text).length := Nat.find_min' hex (by rw [hend]; omega)
    obtain ⟨k, hfk⟩ : ∃ k, Nat.find hex = k + 1 := by
      refine Nat.exists_eq_succ_of_ne_zero fun h0 => ?_
      rw [h0] at hfind
      exact absurd hfind (Nat.not_lt_zero _)
    rw [hfk] at hfind hmin
    exact ⟨k, hmin, Nat.not_lt.1 (Nat.find_min hex (by omega)), hfind⟩
  refine ⟨k, (textLines text)[k], offset - lineStart (textLines text) k,
    List.getElem?_eq_getElem hk, ?_, by omega⟩
  have := lineStart_succ (List.getElem?_eq_getElem hk)
  omega

theorem liesIn_of_line (hline : (textLines text)[k]? = some line) {character : ℕ}
    (hcharacter : character ≤ line.length) : LiesIn text ⟨k, character⟩ :=
  ⟨Int.natCast_nonneg k, Int.natCast_nonneg character, line, hline, Int.ofNat_le.2 hcharacter⟩

theorem LiesIn.exists_line {p : SourcePosition} (h : LiesIn text p) :
    ∃ k line character, p = ⟨(k : ℕ), (character : ℕ)⟩ ∧ (textLines text)[k]? = some line ∧
      character ≤ line.length := by
  obtain ⟨hline, hcharacter, line, hget, hle⟩ := h
  refine ⟨p.line.toNat, line, p.character.toNat, ?_, hget, by omega⟩
  cases p
  simp only at hline hcharacter
  rw [Int.toNat_of_nonneg hline, Int.toNat_of_nonneg hcharacter]

theorem offsetAt_of_line (hline : (textLines text)[k]? = some line) {character : ℕ}
    (hcharacter : character ≤ line.length) :
    offsetAt text ⟨k, character⟩ = (lineStart (textLines text) k + character : ℕ) := by
  obtain ⟨hk, -⟩ := List.getElem?_eq_some_iff.1 hline
  rw [offsetAt_eq ⟨k, character⟩ (k := k) (by simp only; omega) hline]
  simp only
  omega

/-- A place on a line is inside of the text. -/
theorem lineStart_add_le (hline : (textLines text)[k]? = some line) {character : ℕ}
    (hcharacter : character ≤ line.length) :
    lineStart (textLines text) k + character ≤ text.length := by
  obtain ⟨hk, -⟩ := List.getElem?_eq_some_iff.1 hline
  have hnext := lineStart_succ hline
  have hend := lineStart_textLines text
  have hle := lineStart_le (k := k + 1) (Nat.succ_le_of_lt hk) (Nat.le_refl _)
  omega

theorem offsetAt_positionAt {offset : ℤ} (h0 : 0 ≤ offset) (h : offset ≤ text.length) :
    offsetAt text (positionAt text offset) = offset ∧ LiesIn text (positionAt text offset) := by
  obtain ⟨n, rfl⟩ := Int.eq_ofNat_of_zero_le h0
  obtain ⟨k, line, character, hline, hcharacter, rfl⟩ := exists_line (Int.ofNat_le.1 h)
  rw [positionAt_eq hline hcharacter]
  exact ⟨offsetAt_of_line hline hcharacter, liesIn_of_line hline hcharacter⟩

theorem positionAt_offsetAt {p : SourcePosition} (h : LiesIn text p) :
    positionAt text (offsetAt text p) = p := by
  obtain ⟨k, line, character, rfl, hline, hcharacter⟩ := h.exists_line
  rw [offsetAt_of_line hline hcharacter, positionAt_eq hline hcharacter]

theorem positionAt_strictMono {o o' : ℤ} (h0 : 0 ≤ o) (hlt : o < o') (h : o' ≤ text.length) :
    IsBefore (positionAt text o) (positionAt text o') := by
  obtain ⟨n, rfl⟩ := Int.eq_ofNat_of_zero_le h0
  obtain ⟨n', rfl⟩ := Int.eq_ofNat_of_zero_le (show 0 ≤ o' by omega)
  obtain ⟨k, line, character, hline, hcharacter, rfl⟩ := exists_line (show n ≤ text.length by omega)
  obtain ⟨k', line', character', hline', hcharacter', rfl⟩ := exists_line (Int.ofNat_le.1 h)
  rw [positionAt_eq hline hcharacter, positionAt_eq hline' hcharacter']
  obtain ⟨hk, -⟩ := List.getElem?_eq_some_iff.1 hline
  rcases Nat.lt_trichotomy k k' with hkk | rfl | hkk
  · exact .inl (Int.ofNat_lt.2 hkk)
  · exact .inr ⟨rfl, by simp only; omega⟩
  · have hnext := lineStart_succ hline'
    have hle := lineStart_le (show k' + 1 ≤ k from hkk) (Nat.le_of_lt hk)
    omega

/-- The place that a position stands for. -/
theorem offsetAt_nearest (text : List ℕ) (p : SourcePosition) :
    ∃ q, LiesIn text q ∧ q.line = max 0 (min p.line ((textLines text).length - 1)) ∧
      offsetAt text p = offsetAt text q ∧
      ∀ q', LiesIn text q' → q'.line = q.line →
        (p.character - q.character).natAbs ≤ (p.character - q'.character).natAbs := by
  have hpos := List.length_pos_iff.2 (textLines_ne_nil text)
  obtain ⟨k, hk⟩ : ∃ k : ℕ, (k : ℤ) = max 0 (min p.line ((textLines text).length - 1)) :=
    ⟨_, Int.toNat_of_nonneg (Int.le_max_left 0 _)⟩
  have hlt : k < (textLines text).length := by omega
  have hline := List.getElem?_eq_getElem hlt
  obtain ⟨c, hc⟩ : ∃ c : ℕ, (c : ℤ) = max 0 (min p.character (textLines text)[k].length) :=
    ⟨_, Int.toNat_of_nonneg (Int.le_max_left 0 _)⟩
  have hcle : c ≤ (textLines text)[k].length := by omega
  refine ⟨⟨k, c⟩, liesIn_of_line hline hcle, hk, ?_, ?_⟩
  · rw [offsetAt_eq p hk hline, offsetAt_of_line hline hcle, ← hc]
    omega
  · rintro ⟨_, character'⟩ ⟨-, hcharacter', line', hline', hle'⟩ rfl
    simp only [Int.toNat_natCast] at hline' hle' hcharacter' ⊢
    rw [hline] at hline'
    cases hline'
    omega

theorem offsetAt_mem (text : List ℕ) (p : SourcePosition) :
    0 ≤ offsetAt text p ∧ offsetAt text p ≤ text.length := by
  obtain ⟨q, hq, -, e, -⟩ := offsetAt_nearest text p
  obtain ⟨k, line, character, rfl, hline, hcharacter⟩ := hq.exists_line
  have hle := lineStart_add_le hline hcharacter
  rw [e, offsetAt_of_line hline hcharacter]
  omega

/-- Offsets of a text and positions that lie in it answer each other in order, and any other
position stands for the nearest place of the nearest line. -/
theorem positions_inverse (text : List ℕ) :
    (∀ o : ℤ, 0 ≤ o → o ≤ text.length → offsetAt text (positionAt text o) = o) ∧
    (∀ o o' : ℤ, 0 ≤ o → o < o' → o' ≤ text.length →
      IsBefore (positionAt text o) (positionAt text o')) ∧
    (∀ p, LiesIn text p → positionAt text (offsetAt text p) = p) ∧
    (∀ p : SourcePosition, ∃ q, LiesIn text q ∧
      q.line = max 0 (min p.line ((textLines text).length - 1)) ∧ offsetAt text p = offsetAt text q ∧
      ∀ q', LiesIn text q' → q'.line = q.line →
        (p.character - q.character).natAbs ≤ (p.character - q'.character).natAbs) ∧
    ∀ p, 0 ≤ offsetAt text p ∧ offsetAt text p ≤ text.length :=
  ⟨fun _ h0 h => (offsetAt_positionAt h0 h).1, fun _ _ => positionAt_strictMono,
    fun _ => positionAt_offsetAt, offsetAt_nearest text, offsetAt_mem text⟩

/-- `a`, a line feed, `b`, a line feed -/
theorem positions_inverse_sample :
    offsetAt [97, 10, 98, 10] (positionAt [97, 10, 98, 10] 4) = 4 ∧
      IsBefore (positionAt [97, 10, 98, 10] 1) (positionAt [97, 10, 98, 10] 2) ∧
      positionAt [97, 10, 98, 10] (offsetAt [97, 10, 98, 10] ⟨1, 1⟩) = ⟨1, 1⟩ :=
  ⟨(positions_inverse _).1 4 (by decide) (by decide),
    (positions_inverse _).2.1 1 2 (by decide) (by decide) (by decide),
    (positions_inverse _).2.2.1 ⟨1, 1⟩ ⟨by decide, by decide, [98], rfl, by decide⟩⟩

end PinOp.Css
