import Mathlib.Data.List.Induction
import PinOp.Php.OpaqueBlocks

/-!
# Scanning rewritten texts

From a place outside the blocks every scanner that goes over the blocks does the same in both texts.
The ends of comments and of raw text are searched without regard to the blocks; where they are the
ends found in regard to them, the whole scan does the same.
-/

namespace PinOp.Php

variable {t t' : List ℕ} {i j rounds : ℕ}

/-! ## Searches -/

theorem startsWith_lt {needle : List ℕ} (hne : needle ≠ []) (h : startsWith t i needle = true) :
    i < t.length := by
  refine Nat.lt_of_not_le fun hi => ?_
  rw [startsWith, List.drop_eq_nil_of_le hi] at h
  cases needle with
  | nil => exact hne rfl
  | cons n needle => cases h

theorem opens_unit (h : startsWith t i (ascii "<?") = true) : t[i]? = some 0x3c := by
  rw [startsWith] at h
  rw [← List.head?_drop]
  cases hdrop : t.drop i with
  | nil =>
    rw [hdrop] at h
    cases h
  | cons u r =>
    rw [hdrop] at h
    have hlt : (0x3c == u && [0x3f].isPrefixOf r) = true := h
    rw [Bool.and_eq_true, beq_iff_eq] at hlt
    rw [← hlt.1]
    rfl

theorem not_opens {u : ℕ} (hu : u ≠ 0x3c) (h : t[i]? = some u) :
    startsWith t i (ascii "<?") = false := by
  cases hopens : startsWith t i (ascii "<?") with
  | false => rfl
  | true =>
    rw [opens_unit hopens] at h
    exact absurd (Option.some.inj h).symm hu

theorem lt_skipPhpBlock (h : startsWith t i (ascii "<?") = true) : i < skipPhpBlock t i := by
  have hi := startsWith_lt (by decide) h
  rw [skipPhpBlock]
  cases hfound : indexOf t (ascii "?>") (i + 2) with
  | none => exact hi
  | some k =>
    obtain ⟨m, -, rfl⟩ := Option.map_eq_some_iff.1 hfound
    show i < i + 2 + m + 2
    omega

theorem startsWith_of_indexOf {needle : List ℕ} {k : ℕ} (h : indexOf t needle i = some k) :
    startsWith t k needle = true ∧ i ≤ k := by
  have hfind : ∀ {b : List ℕ} {k : ℕ}, findIn needle b = some k →
      needle.isPrefixOf (b.drop k) = true := by
    intro b
    induction b with
    | nil =>
      intro k hk
      rw [findIn] at hk
      split at hk
      · rename_i hnil
        rw [hnil]
        rfl
      · cases hk
    | cons u b ih =>
      intro k hk
      rw [findIn] at hk
      split at hk
      · rename_i hhere
        rw [← Option.some.inj hk]
        exact hhere
      · obtain ⟨m, hm, rfl⟩ := Option.map_eq_some_iff.1 hk
        exact ih hm
  obtain ⟨m, hm, rfl⟩ := Option.map_eq_some_iff.1 h
  have := hfind hm
  rw [List.drop_drop] at this
  exact ⟨this, Nat.le_add_right i m⟩

/-- The units of a kind at a place, none of which opens a block. -/
theorem At.takeWhile_eq {p : ℕ → Bool} (hp : p 0x3c = false) (h : At t t' i) :
    (t.drop i).takeWhile p = (t'.drop i).takeWhile p ∧
      At t t' (i + ((t.drop i).takeWhile p).length) := by
  unfold At at h ⊢
  rw [← List.drop_drop, ← List.drop_drop]
  generalize t.drop i = b at h
  generalize t'.drop i = b' at h
  induction h with
  | nil => exact ⟨rfl, .nil⟩
  | @unit u r r' hu hr ih =>
    by_cases hpu : p u = true
    · rw [List.takeWhile_cons_of_pos hpu, List.takeWhile_cons_of_pos hpu, ih.1]
      refine ⟨rfl, ?_⟩
      rw [ih.1] at ih
      exact ih.2
    · rw [List.takeWhile_cons_of_neg hpu, List.takeWhile_cons_of_neg hpu]
      exact ⟨rfl, .unit hu hr⟩
  | block hlen hc hc' hr =>
    have hneg : ¬p 0x3c = true := by simp [hp]
    rw [List.takeWhile_cons_of_neg hneg, List.takeWhile_cons_of_neg hneg]
    exact ⟨rfl, .block hlen hc hc' hr⟩
  | last hlen hc hc' =>
    have hneg : ¬p 0x3c = true := by simp [hp]
    rw [List.takeWhile_cons_of_neg hneg, List.takeWhile_cons_of_neg hneg]
    exact ⟨rfl, .last hlen hc hc'⟩

theorem At.indexOf_eq (h : At t t' i) : indexOf t (ascii "<") i = indexOf t' (ascii "<") i ∧
    ∀ next, indexOf t (ascii "<") i = some next → At t t' next := by
  have hfind : ∀ {b b' : List ℕ}, Rewritten b b' →
      findIn (ascii "<") b = findIn (ascii "<") b' ∧
        ∀ k, findIn (ascii "<") b = some k → Rewritten (b.drop k) (b'.drop k) := by
    intro b b' h
    induction h with
    | nil =>
      refine ⟨rfl, fun k hk => ?_⟩
      cases hk
    | @unit u r r' hu hr ih =>
      have hfirst : ∀ s : List ℕ, findIn (ascii "<") (u :: s) =
          if u = 0x3c then some 0 else (findIn (ascii "<") s).map (· + 1) := by
        intro s
        rw [findIn]
        by_cases hu : u = 0x3c
        · rw [if_pos hu, hu]
          rfl
        · have hnot : (ascii "<").isPrefixOf (u :: s) = false := by
            show (0x3c == u && _) = false
            rw [beq_eq_false_iff_ne.2 (Ne.symm hu)]
            rfl
          rw [if_neg hu, hnot]
          rfl
      rw [hfirst, hfirst]
      by_cases hlt : u = 0x3c
      · rw [if_pos hlt, if_pos hlt]
        refine ⟨rfl, fun k hk => ?_⟩
        rw [← Option.some.inj hk]
        exact .unit hu hr
      · rw [if_neg hlt, if_neg hlt, ih.1]
        refine ⟨rfl, fun k hk => ?_⟩
        obtain ⟨k, hfound, rfl⟩ := Option.map_eq_some_iff.1 hk
        exact ih.2 k (ih.1.trans hfound)
    | block hlen hc hc' hr =>
      refine ⟨rfl, fun k hk => ?_⟩
      have hk : some 0 = some k := hk
      rw [← Option.some.inj hk]
      exact .block hlen hc hc' hr
    | last hlen hc hc' =>
      refine ⟨rfl, fun k hk => ?_⟩
      have hk : some 0 = some k := hk
      rw [← Option.some.inj hk]
      exact .last hlen hc hc'
  obtain ⟨heq, hat⟩ := hfind h
  unfold indexOf
  refine ⟨by rw [heq], fun next hnext => ?_⟩
  obtain ⟨k, hk, rfl⟩ := Option.map_eq_some_iff.1 hnext
  have := hat k hk
  rw [List.drop_drop, List.drop_drop] at this
  exact this

theorem At.skipToTagEndFrom_eq (hlen : t.length = t'.length) (h : At t t' i) :
    skipToTagEndFrom t rounds i = skipToTagEndFrom t' rounds i ∧
      At t t' (skipToTagEndFrom t rounds i) := by
  induction rounds generalizing i with
  | zero => exact ⟨hlen, .end hlen (Nat.le_refl _)⟩
  | succ rounds ih =>
    rw [skipToTagEndFrom, skipToTagEndFrom, ← hlen, ← h.opens_eq, ← h.unit_eq]
    by_cases hi : t.length ≤ i
    · rw [if_pos hi, if_pos hi]
      exact ⟨rfl, .end hlen (Nat.le_refl _)⟩
    · rw [if_neg hi, if_neg hi]
      cases hopens : startsWith t i (ascii "<?") with
      | true =>
        obtain ⟨hskip, hat⟩ := h.block hlen hopens
        rw [← hskip]
        exact ih hat
      | false =>
        have hnext := h.next hopens (by omega)
        simp only [Bool.false_eq_true, if_false]
        by_cases hend : t[i]? = some 0x3e
        · rw [if_pos hend, if_pos hend]
          exact ⟨rfl, hnext⟩
        · rw [if_neg hend, if_neg hend]
          exact ih hnext

theorem At.skipToTagEnd_eq (hlen : t.length = t'.length) (h : At t t' i) :
    skipToTagEnd t i = skipToTagEnd t' i ∧ At t t' (skipToTagEnd t i) := by
  unfold skipToTagEnd
  rw [← hlen]
  exact h.skipToTagEndFrom_eq hlen

/-! ## Attributes -/

/-- The loop of a value ends where no block is opened, unless at the end of the text. -/
theorem At.readValueFrom_eq (hlen : t.length = t'.length) {quote : Option ℕ} {literal : List ℕ}
    {dynamic : Bool} (h : At t t' i) (hrounds : t.length ≤ i + rounds) :
    readValueFrom t quote rounds i literal dynamic =
        readValueFrom t' quote rounds i literal dynamic ∧
      At t t' (readValueFrom t quote rounds i literal dynamic).endOffset ∧
      ((readValueFrom t quote rounds i literal dynamic).endOffset < t.length →
        startsWith t (readValueFrom t quote rounds i literal dynamic).endOffset (ascii "<?") =
          false) := by
  induction rounds generalizing i literal dynamic with
  | zero =>
    refine ⟨rfl, h, fun hi => ?_⟩
    have hi : i < t.length := hi
    omega
  | succ rounds ih =>
    rw [readValueFrom, readValueFrom, ← h.opens_eq, ← h.unit_eq]
    cases hopens : startsWith t i (ascii "<?") with
    | true =>
      obtain ⟨hskip, hat⟩ := h.block hlen hopens
      have hpast := lt_skipPhpBlock hopens
      rw [if_pos rfl, if_pos rfl, ← hskip]
      exact ih hat (by omega)
    | false =>
      simp only [Bool.false_eq_true, if_false]
      cases hunit : t[i]? with
      | none =>
        refine ⟨rfl, h, fun _ => hopens⟩
      | some code =>
        have hi : i < t.length := (List.getElem?_eq_some_iff.1 hunit).1
        have hnext := h.next hopens hi
        simp only
        rw [← hnext.unit_eq]
        split
        · split
          · exact ⟨rfl, h, fun _ => hopens⟩
          · exact ih hnext (by omega)
        · split
          · exact ⟨rfl, h, fun _ => hopens⟩
          · exact ih hnext (by omega)

theorem At.readAttributeValue_eq (hlen : t.length = t'.length) (h : At t t' i) :
    readAttributeValue t i = readAttributeValue t' i ∧
      At t t' (readAttributeValue t i).endOffset := by
  have hquote : ∀ code, (t[i]?.filter fun code => code = 0x22 || code = 0x27) = some code →
      At t t' (i + 1) := by
    intro code hcode
    obtain ⟨hunit, hcode⟩ := Option.filter_eq_some_iff.1 hcode
    refine h.next (not_opens ?_ hunit) (List.getElem?_eq_some_iff.1 hunit).1
    rintro rfl
    cases hcode
  unfold readAttributeValue
  simp only
  rw [← h.unit_eq, ← hlen]
  generalize hcase : (t[i]?.filter fun code => decide (code = 0x22) || decide (code = 0x27)) = quote
    at hquote
  have hstart : At t t' (if quote.isSome then i + 1 else i) := by
    cases quote with
    | none => exact h
    | some code => exact hquote code rfl
  generalize (if quote.isSome then i + 1 else i) = start at hstart
  have hrounds : t.length ≤ start + (t.length - start) := by omega
  obtain ⟨heq, hat, hopens⟩ := @At.readValueFrom_eq _ _ _ _ hlen quote [] false hstart hrounds
  rw [← heq]
  refine ⟨rfl, ?_⟩
  split
  · rename_i hends
    have hlt := of_decide_eq_true (Bool.and_eq_true_iff.1 hends).2
    exact hat.next (hopens hlt) hlt
  · exact hat

theorem At.readOpenTagFrom_eq (toLowerCase : List ℕ → List ℕ) (hlen : t.length = t'.length)
    {attributes : List PhpMarkupAttribute} (h : At t t' i) :
    readOpenTagFrom t toLowerCase rounds i attributes =
        readOpenTagFrom t' toLowerCase rounds i attributes ∧
      At t t' (readOpenTagFrom t toLowerCase rounds i attributes).endOffset := by
  induction rounds generalizing i attributes with
  | zero => exact ⟨rfl, h⟩
  | succ rounds ih =>
    rw [readOpenTagFrom, readOpenTagFrom, ← h.opens_eq, ← h.unit_eq,
      ← @At.startsWith_eq _ _ (ascii "/>") _ (by decide) h]
    cases hunit : t[i]? with
    | none => exact ⟨rfl, h⟩
    | some code =>
      have hi : i < t.length := (List.getElem?_eq_some_iff.1 hunit).1
      simp only
      cases hopens : startsWith t i (ascii "<?") with
      | true =>
        obtain ⟨hskip, hat⟩ := h.block hlen hopens
        have hcode : isWhitespace code = false := by
          rw [opens_unit hopens] at hunit
          rw [← Option.some.inj hunit]
          rfl
        simp only [hcode, Bool.false_eq_true, if_false, if_true]
        rw [← hskip]
        exact ih hat
      | false =>
        have hnext := h.next hopens hi
        simp only [Bool.false_eq_true, if_false]
        split
        · exact ih hnext
        · split
          · rename_i hslash
            exact ⟨rfl, h.behind (by decide) (by decide) hslash⟩
          · split
            · exact ⟨rfl, hnext⟩
            · split
              · exact ih hnext
              · obtain ⟨hname, hbehind⟩ := h.takeWhile_eq (p := isAttributeNameUnit) (by decide)
                have hread : readAttributeName t i = readAttributeName t' i := hname
                have hat : At t t' (i + (readAttributeName t i).length) := hbehind
                rw [← hread]
                split
                · exact ih hnext
                · have hskip : skipWhitespace t (i + (readAttributeName t i).length) =
                      skipWhitespace t' (i + (readAttributeName t i).length) := by
                    rw [skipWhitespace, skipWhitespace, (hat.takeWhile_eq (by decide)).1]
                  have hafter : At t t' (skipWhitespace t (i + (readAttributeName t i).length)) :=
                    (hat.takeWhile_eq (by decide)).2
                  rw [← hskip]
                  generalize skipWhitespace t (i + (readAttributeName t i).length) = after at hafter
                  rw [← hafter.unit_eq]
                  split
                  · exact ih hafter
                  · rename_i hequals
                    have hequals : t[after]? = some 0x3d := Decidable.not_not.1 hequals
                    have hbehindEquals : At t t' (after + 1) :=
                      hafter.next (not_opens (by decide) hequals)
                        (List.getElem?_eq_some_iff.1 hequals).1
                    have hvalue : skipWhitespace t (after + 1) = skipWhitespace t' (after + 1) := by
                      rw [skipWhitespace, skipWhitespace, (hbehindEquals.takeWhile_eq
                        (by decide)).1]
                    have hvalueAt : At t t' (skipWhitespace t (after + 1)) :=
                      (hbehindEquals.takeWhile_eq (by decide)).2
                    obtain ⟨heq, hend⟩ := hvalueAt.readAttributeValue_eq hlen
                    rw [← hvalue, ← heq]
                    exact ih hend

theorem At.readOpenTag_eq (toLowerCase : List ℕ → List ℕ) (hlen : t.length = t'.length)
    (h : At t t' i) : readOpenTag t toLowerCase i = readOpenTag t' toLowerCase i ∧
      At t t' (readOpenTag t toLowerCase i).endOffset := by
  unfold readOpenTag
  rw [← hlen]
  exact h.readOpenTagFrom_eq toLowerCase hlen

/-! ## Searches that go over the blocks -/

/-- The case of the letters of ASCII. -/
def asciiLower (code : ℕ) : ℕ := if 0x41 ≤ code ∧ code ≤ 0x5a then code + 32 else code

/-- The first place outside the blocks where the needle stands, as `f` reads the units. -/
def findOutside (f : ℕ → ℕ) (needle t : List ℕ) : ℕ → ℕ → Option ℕ
  | 0, _ => none
  | rounds + 1, index =>
    if t.length ≤ index then none
    else if startsWith t index (ascii "<?") then findOutside f needle t rounds
      (skipPhpBlock t index)
    else if needle.isPrefixOf ((t.drop index).map f) then some index
    else findOutside f needle t rounds (index + 1)

/-- The end of the comment at the index. -/
def commentEnd (t : List ℕ) (index : ℕ) : ℕ :=
  match findOutside id (ascii "-->") t (t.length - (index + 4)) (index + 4) with
  | none => t.length
  | some offset => offset + 3

/-- The end of the close tag of raw text. -/
def rawTextEnd (t : List ℕ) (startOffset : ℕ) (tag : List ℕ) : ℕ :=
  match findOutside asciiLower (ascii "</" ++ tag) t (t.length - startOffset) startOffset with
  | none => t.length
  | some found => skipToTagEnd t (found + (ascii "</" ++ tag).length)

theorem At.findOutside_eq (f : ℕ → ℕ) {needle : List ℕ} (hneedle : f 0x3f ∉ needle)
    (hlen : t.length = t'.length) (h : At t t' i) :
    findOutside f needle t rounds i = findOutside f needle t' rounds i ∧
      ∀ k, findOutside f needle t rounds i = some k →
        At t t' k ∧ needle.isPrefixOf ((t.drop k).map f) = true := by
  induction rounds generalizing i with
  | zero =>
    refine ⟨rfl, fun k hk => ?_⟩
    cases hk
  | succ rounds ih =>
    have hstands : needle.isPrefixOf ((t.drop i).map f) = needle.isPrefixOf ((t'.drop i).map f) :=
      Rewritten.isPrefixOf_eq f hneedle h
    rw [findOutside, findOutside, ← hlen, ← h.opens_eq, ← hstands]
    by_cases hi : t.length ≤ i
    · rw [if_pos hi, if_pos hi]
      refine ⟨rfl, fun k hk => ?_⟩
      cases hk
    · rw [if_neg hi, if_neg hi]
      cases hopens : startsWith t i (ascii "<?") with
      | true =>
        obtain ⟨hskip, hat⟩ := h.block hlen hopens
        rw [← hskip]
        exact ih hat
      | false =>
        simp only [Bool.false_eq_true, if_false]
        by_cases hhere : needle.isPrefixOf ((t.drop i).map f) = true
        · rw [if_pos hhere, if_pos hhere]
          refine ⟨rfl, fun k hk => ?_⟩
          rw [← Option.some.inj hk]
          exact ⟨h, hhere⟩
        · rw [if_neg hhere, if_neg hhere]
          exact ih (h.next hopens (by omega))

theorem At.commentEnd_eq (hlen : t.length = t'.length) (h : At t t' (i + 4)) :
    commentEnd t i = commentEnd t' i ∧ At t t' (commentEnd t i) := by
  obtain ⟨heq, hfound⟩ := @At.findOutside_eq _ _ _ (t.length - (i + 4)) id (ascii "-->")
    (by decide) hlen h
  unfold commentEnd
  rw [← hlen, ← heq]
  cases hsearch : findOutside id (ascii "-->") t (t.length - (i + 4)) (i + 4) with
  | none => exact ⟨rfl, .end hlen (Nat.le_refl _)⟩
  | some k =>
    obtain ⟨hat, hstands⟩ := hfound k hsearch
    refine ⟨rfl, ?_⟩
    rw [List.map_id] at hstands
    exact hat.behind (by decide) (by decide) hstands

theorem At.rawTextEnd_eq {tag : List ℕ} (htag : ∀ u ∈ tag, isTagNameCharacter u = true)
    (hlen : t.length = t'.length) (h : At t t' i) :
    rawTextEnd t i tag = rawTextEnd t' i tag ∧ At t t' (rawTextEnd t i tag) := by
  have hmark : asciiLower 0x3f ∉ ascii "</" ++ tag := by
    intro hmem
    rcases List.mem_append.1 hmem with hmem | hmem
    · exact absurd hmem (by decide)
    · exact absurd (htag _ hmem) (by decide)
  have hlast : (ascii "</" ++ tag).getLast? ≠ some (asciiLower 0x3c) := by
    intro hlast
    have hmem := List.mem_of_getLast? hlast
    cases tag using List.reverseRecOn with
    | nil => exact absurd hlast (by decide)
    | append_singleton tag u =>
      rw [← List.append_assoc, List.getLast?_concat] at hlast
      have hu := htag u (List.mem_append_right _ List.mem_cons_self)
      rw [Option.some.inj hlast] at hu
      exact absurd hu (by decide)
  obtain ⟨heq, hfound⟩ := @At.findOutside_eq _ _ _ (t.length - i) asciiLower (ascii "</" ++ tag)
    hmark hlen h
  unfold rawTextEnd
  rw [← hlen, ← heq]
  cases hsearch : findOutside asciiLower (ascii "</" ++ tag) t (t.length - i) i with
  | none => exact ⟨rfl, .end hlen (Nat.le_refl _)⟩
  | some k =>
    obtain ⟨hat, hstands⟩ := hfound k hsearch
    have hbehind : At t t' (k + (ascii "</" ++ tag).length) := by
      have := Rewritten.drop_needle asciiLower hmark hlast hat hstands
      rw [List.drop_drop, List.drop_drop] at this
      exact this
    exact hbehind.skipToTagEnd_eq hlen

end PinOp.Php
