import Mathlib.Data.List.TakeWhile
import PinOp.Php.OpaqueScan

/-!
# PHP blocks are opaque

Rewriting the PHP blocks of a text changes nothing of what is parsed, as long as no comment and no
raw text of either text ends where its end is not found in regard to the blocks.
-/

namespace PinOp.Php

variable {t t' : List ℕ} {i j : ℕ} {s s' : ScanState} {toLowerCase : List ℕ → List ℕ}

/-- What is known of `toLowerCase`. -/
def LowersAscii (toLowerCase : List ℕ → List ℕ) : Prop :=
  ∀ text : List ℕ, (∀ u ∈ text, u < 128) → toLowerCase text = text.map asciiLower

/-! ## The condition -/

/-- The scan gets to this place with this state. -/
inductive Reached (text : List ℕ) (toLowerCase : List ℕ → List ℕ) : ℕ → ScanState → Prop
  | start : Reached text toLowerCase 0 ⟨[], []⟩
  | goes {i j : ℕ} {s s' : ScanState} : Reached text toLowerCase i s →
      step text toLowerCase i s = .goes j s' → Reached text toLowerCase j s'

/-- A comment or raw text read next ends where it does in regard to the blocks. -/
def EndsOutsideAt (text : List ℕ) (toLowerCase : List ℕ → List ℕ) (index : ℕ) (state : ScanState) :
    Prop :=
  ∀ next, indexOf text (ascii "<") index = some next →
    (startsWith text next (ascii "<!--") = true → skipComment text next = commentEnd text next) ∧
    (state.elements.length < maxElements → ∀ tag, tag = toLowerCase (readTagName text (next + 1)) →
      rawTextElements.contains tag = true →
        skipRawText text toLowerCase
            (readOpenTag text toLowerCase (next + 1 + tag.length)).endOffset tag =
          rawTextEnd text (readOpenTag text toLowerCase (next + 1 + tag.length)).endOffset tag)

/-- Every comment and every raw text of the scan does. -/
def EndsOutside (text : List ℕ) (toLowerCase : List ℕ → List ℕ) : Prop :=
  ∀ index state, Reached text toLowerCase index state →
    EndsOutsideAt text toLowerCase index state

/-! ## One round -/

theorem rawTextElements_units {tag : List ℕ} (h : rawTextElements.contains tag = true) :
    ∀ u ∈ tag, isTagNameCharacter u = true := by
  have hall : ∀ tag ∈ rawTextElements, ∀ u ∈ tag, isTagNameCharacter u = true := by decide
  exact hall tag (List.contains_iff_mem.1 h)

theorem isTagNameCharacter_lt {u : ℕ} (h : isTagNameCharacter u = true) : u < 128 := by
  simp only [isTagNameCharacter, isTagNameStart, Bool.or_eq_true, Bool.and_eq_true,
    decide_eq_true_eq] at h
  omega

theorem readTagName_lower (hlower : LowersAscii toLowerCase) (text : List ℕ) (i : ℕ) :
    (toLowerCase (readTagName text i)).length = (readTagName text i).length := by
  rw [hlower, List.length_map]
  exact fun u hu => isTagNameCharacter_lt (List.mem_takeWhile_imp hu)

/-- The outcomes are the same and go on outside the blocks. -/
def SameOutcome (t t' : List ℕ) (o o' : Outcome) : Prop :=
  o = o' ∧ ∀ j s, o = .goes j s → At t t' j

theorem sameOutcome_goes (h : At t t' j) (s : ScanState) :
    SameOutcome t t' (.goes j s) (.goes j s) := by
  refine ⟨rfl, fun k s' hk => ?_⟩
  cases hk
  exact h

theorem At.readElement_same (hlower : LowersAscii toLowerCase) (hlen : t.length = t'.length)
    (h : At t t' (i + 1))
    (hraw : ∀ text ∈ [t, t'], ∀ tag, tag = toLowerCase (readTagName text (i + 1)) →
      rawTextElements.contains tag = true →
        skipRawText text toLowerCase
            (readOpenTag text toLowerCase (i + 1 + tag.length)).endOffset tag =
          rawTextEnd text (readOpenTag text toLowerCase (i + 1 + tag.length)).endOffset tag) :
    SameOutcome t t' (readElement t toLowerCase i s) (readElement t' toLowerCase i s) := by
  obtain ⟨hname, hbehind⟩ := h.takeWhile_eq (p := isTagNameCharacter) (by decide)
  have hread : readTagName t (i + 1) = readTagName t' (i + 1) := hname
  have hat : At t t' (i + 1 + (toLowerCase (readTagName t (i + 1))).length) := by
    rw [readTagName_lower hlower]
    exact hbehind
  have hrawHere := hraw t (by simp) _ rfl
  have hrawThere := hraw t' (by simp) _ rfl
  unfold readElement
  dsimp only
  rw [← hread] at hrawThere ⊢
  generalize toLowerCase (readTagName t (i + 1)) = tag at hat hrawHere hrawThere
  obtain ⟨hopen, hend⟩ := hat.readOpenTag_eq toLowerCase hlen
  rw [← hopen] at hrawThere ⊢
  cases hisRaw : rawTextElements.contains tag with
  | true =>
    obtain ⟨hsame, hclosed⟩ := hend.rawTextEnd_eq (rawTextElements_units hisRaw) hlen
    rw [hrawHere hisRaw, hrawThere hisRaw, ← hsame]
    exact sameOutcome_goes hclosed _
  | false =>
    simp only [Bool.false_eq_true, if_false]
    split
    · exact sameOutcome_goes hend _
    · split
      · exact sameOutcome_goes hend _
      · exact sameOutcome_goes hend _

theorem At.step_same (hlower : LowersAscii toLowerCase) (hlen : t.length = t'.length)
    (h : At t t' i) (ht : EndsOutsideAt t toLowerCase i s)
    (ht' : EndsOutsideAt t' toLowerCase i s) :
    SameOutcome t t' (step t toLowerCase i s) (step t' toLowerCase i s) := by
  obtain ⟨hindex, hnext⟩ := h.indexOf_eq
  unfold step
  rw [← hindex]
  cases hfound : indexOf t (ascii "<") i with
  | none =>
    refine ⟨rfl, fun j s' hj => ?_⟩
    cases hj
  | some next =>
    obtain ⟨hcomment, hraw⟩ := ht next hfound
    obtain ⟨hcomment', hraw'⟩ := ht' next (hindex ▸ hfound)
    have hat := hnext next hfound
    show SameOutcome t t' (readMarkup t toLowerCase next s) (readMarkup t' toLowerCase next s)
    unfold readMarkup
    have hstartsEq : ∀ needle : List ℕ, 0x3f ∉ needle →
        startsWith t next needle = startsWith t' next needle := fun _ hne => hat.startsWith_eq hne
    rw [← hat.opens_eq, ← hstartsEq (ascii "<!--") (by decide), ← hstartsEq (ascii "<!")
      (by decide),
      ← hstartsEq (ascii "</") (by decide)]
    rw [← hstartsEq (ascii "<!--") (by decide)] at hcomment'
    cases hopens : startsWith t next (ascii "<?") with
    | true =>
      obtain ⟨hskip, hbehind⟩ := hat.block hlen hopens
      simp only [if_true]
      rw [← hskip]
      exact sameOutcome_goes hbehind s
    | false =>
      simp only [Bool.false_eq_true, if_false]
      split
      · rename_i hstarts
        have hbehind : At t t' (next + 4) := hat.behind (by decide) (by decide) hstarts
        obtain ⟨hsame, hend⟩ := hbehind.commentEnd_eq hlen
        rw [hcomment hstarts, hcomment' hstarts, ← hsame]
        exact sameOutcome_goes hend s
      · split
        · rename_i hstarts
          have hbehind : At t t' (next + 2) := hat.behind (by decide) (by decide) hstarts
          obtain ⟨hsame, hend⟩ := hbehind.skipToTagEnd_eq hlen
          rw [← hsame]
          exact sameOutcome_goes hend s
        · split
          · rename_i hstarts
            have hbehind : At t t' (next + 2) := hat.behind (by decide) (by decide) hstarts
            obtain ⟨hname, hbehindName⟩ := hbehind.takeWhile_eq (p := isTagNameCharacter)
              (by decide)
            have hread : readTagName t (next + 2) = readTagName t' (next + 2) := hname
            obtain ⟨hsame, hend⟩ := hbehindName.skipToTagEnd_eq hlen
            rw [← hread]
            have hsame : skipToTagEnd t (next + 2 + (readTagName t (next + 2)).length) =
                skipToTagEnd t' (next + 2 + (readTagName t (next + 2)).length) := hsame
            rw [← hsame]
            exact sameOutcome_goes hend _
          · have hlt : next < t.length :=
              startsWith_lt (by decide) (startsWith_of_indexOf hfound).1
            have hbehind := hat.next hopens hlt
            rw [← hbehind.unit_eq]
            split
            · exact sameOutcome_goes hbehind s
            · split
              · refine ⟨rfl, fun j s' hj => ?_⟩
                cases hj
              · rename_i hlimit
                refine hbehind.readElement_same hlower hlen ?_
                intro text htext
                rcases List.mem_cons.1 htext with rfl | htext
                · exact hraw (by omega)
                · rw [List.mem_singleton.1 htext]
                  exact hraw' (by omega)

/-! ## The run -/

theorem scan_same (hlower : LowersAscii toLowerCase) (hlen : t.length = t'.length)
    (ht : EndsOutside t toLowerCase) (ht' : EndsOutside t' toLowerCase) (rounds : ℕ) :
    ∀ {i : ℕ} {s : ScanState}, At t t' i → Reached t toLowerCase i s → Reached t' toLowerCase i s →
      scan t toLowerCase rounds i s = scan t' toLowerCase rounds i s := by
  induction rounds with
  | zero => exact fun _ _ _ => rfl
  | succ rounds ih =>
    intro i s hat hreached hreached'
    obtain ⟨hstep, hnext⟩ := hat.step_same hlower hlen (ht i s hreached) (ht' i s hreached')
    rw [scan, scan, ← hstep]
    cases hout : step t toLowerCase i s with
    | ends truncated => rfl
    | goes j s' =>
      exact ih (hnext j s' hout) (hreached.goes hout) (hreached'.goes (hstep ▸ hout))

/-- Rewriting the blocks of a text does not change what is parsed, where in both texts every comment
and every raw text ends outside of them. -/
theorem parsePhpMarkup_rewritten (hlower : LowersAscii toLowerCase) (h : Rewritten t t')
    (ht : EndsOutside t toLowerCase) (ht' : EndsOutside t' toLowerCase) :
    parsePhpMarkup t' toLowerCase = parsePhpMarkup t toLowerCase := by
  have hlen := h.length_eq
  have hstart : At t t' 0 := h
  rw [parsePhpMarkup, parsePhpMarkup, ← hlen,
    scan_same hlower hlen ht ht' t.length hstart Reached.start Reached.start]

/-! ## Two texts -/

theorem lowersAscii_map : LowersAscii (List.map asciiLower) := fun _ _ => rfl

/-- A value with a block in it. -/
def valued (u : ℕ) : List ℕ := ascii "<a b='<?" ++ u :: ascii "?>'>"

theorem valued_endsOutside {u : ℕ} (hu : u = 0x78 ∨ u = 0x79) :
    EndsOutside (valued u) (List.map asciiLower) := by
  have hstep : step (valued u) (List.map asciiLower) 0 ⟨[], []⟩ =
      .goes 13 ⟨[⟨ascii "a", [⟨ascii "b", [], true⟩], 0, 13, 13⟩], [0]⟩ := by
    rcases hu with rfl | rfl <;> decide
  have hend : ∀ s, step (valued u) (List.map asciiLower) 13 s = .ends false := by
    intro s
    rcases hu with rfl | rfl <;> rfl
  have hreached : ∀ i s, Reached (valued u) (List.map asciiLower) i s →
      (i = 0 ∧ s = ⟨[], []⟩) ∨ i = 13 := by
    intro i s h
    induction h with
    | start => exact .inl ⟨rfl, rfl⟩
    | goes _ hgoes ih =>
      rcases ih with ⟨rfl, rfl⟩ | rfl
      · rw [hstep] at hgoes
        cases hgoes
        exact .inr rfl
      · rw [hend] at hgoes
        cases hgoes
  intro i s h next hnext
  rcases hreached i s h with ⟨rfl, -⟩ | rfl
  · have hfirst : indexOf (valued u) (ascii "<") 0 = some 0 := by
      rcases hu with rfl | rfl <;> decide
    rw [hfirst] at hnext
    cases hnext
    constructor
    · intro hstarts
      refine absurd hstarts ?_
      rcases hu with rfl | rfl <;> decide
    · rintro - _ rfl hraw
      refine absurd hraw ?_
      rcases hu with rfl | rfl <;> decide
  · have hnone : indexOf (valued u) (ascii "<") 13 = none := by
      rcases hu with rfl | rfl <;> decide
    rw [hnone] at hnext
    cases hnext

theorem parsePhpMarkup_rewritten_sample :
    parsePhpMarkup (valued 0x79) (List.map asciiLower) =
      parsePhpMarkup (valued 0x78) (List.map asciiLower) := by
  refine parsePhpMarkup_rewritten lowersAscii_map ?_ (valued_endsOutside (.inl rfl))
    (valued_endsOutside (.inr rfl))
  refine .unit (by decide) (.unit (by decide) (.unit (by decide) (.unit (by decide)
    (.unit (by decide) (.unit (by decide) ?_)))))
  refine @Rewritten.block [0x78] [0x79] _ _ rfl (by decide) (by decide) ?_
  exact .unit (by decide) (.unit (by decide) .nil)

/-- A comment ends in a block that has the end of one, and what follows in the block is read. -/
theorem comment_ends_inside :
    LowersAscii (List.map asciiLower) ∧
    Rewritten (ascii "<!--<?aaaaaa?>-->") (ascii "<!--<?--><i>?>-->") ∧
    parsePhpMarkup (ascii "<!--<?aaaaaa?>-->") (List.map asciiLower) = some ⟨[], false⟩ ∧
    parsePhpMarkup (ascii "<!--<?--><i>?>-->") (List.map asciiLower) =
      some ⟨[⟨ascii "i", [], 9, 12, 12⟩], false⟩ := by
  refine ⟨lowersAscii_map, ?_, by decide, by decide⟩
  refine .unit (by decide) (.unit (by decide) (.unit (by decide) (.unit (by decide) ?_)))
  refine @Rewritten.block (ascii "aaaaaa") (ascii "--><i>") _ _ rfl (by decide) (by decide) ?_
  exact .unit (by decide) (.unit (by decide) (.unit (by decide) .nil))

end PinOp.Php
