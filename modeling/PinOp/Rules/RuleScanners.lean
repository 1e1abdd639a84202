import PinOp.Lib.Scan
import PinOp.Rules.RuleText

/-!
# The scanners on a written rule

The scanners go over a written rule piece by piece: a string or a comment in one round, any other
unit in a round of its own, and over an interpolation or a block at once.
-/

namespace PinOp.Rules

open PinOp.Lib

namespace DeclarationValuePosition

variable {text : List ℕ} {start stop i j d u closing : ℕ} {before : Option ℕ}

theorem isAt_of_some (h : text[i]? = some u) (c : Char) : isAt text i c = decide (u = c.toNat) := by
  simp [isAt, h]

/-! ## Strings and comments -/

theorem indexOf_eq {needle : List ℕ} {start n : ℕ} (hne : needle ≠ [])
    (hn : Stands text (start + n) needle) (hfirst : ∀ m < n, ¬Stands text (start + m) needle) :
    indexOf text needle start = some (start + n) := by
  have hlen := hn.stop_le hne
  have hfind : ((text.drop start).tails.findIdx? fun rest => needle.isPrefixOf rest) = some n := by
    rw [List.findIdx?_eq_some_iff_getElem]
    refine ⟨by rw [List.length_tails, List.length_drop]; omega, ?_, fun m hm => ?_⟩
    · simpa [Stands] using hn
    · simpa [Stands] using hfirst m hm
  rw [indexOf, hfind]
  rfl

theorem skipQuoted_content {quote : ℕ} (hquote : quote ≠ 92) (content : List ℕ) :
    ∀ {cursor rounds : ℕ}, Stands text cursor (content ++ [quote]) →
      isStringContent quote content = true → cursor + content.length < stop →
      stop - cursor ≤ rounds →
      skipQuoted text quote stop rounds cursor = cursor + content.length + 1 := by
  induction content using isStringContent.induct with
  | case1 =>
    intro cursor rounds hst _ hstop hrounds
    obtain ⟨r, rfl⟩ : ∃ r, rounds = r + 1 := ⟨rounds - 1, by simp at hstop; omega⟩
    have hunit : text[cursor]? = some quote := hst.head
    have hlt : cursor < stop := hstop
    simp [skipQuoted, isAt_of_some hunit, hunit, hlt, hquote]
  | case2 v =>
    intro cursor rounds hst hc hstop hrounds
    have hlt : cursor + 1 < stop := hstop
    obtain ⟨r, rfl⟩ : ∃ r, rounds = r + 2 := ⟨rounds - 2, by omega⟩
    have hv : text[cursor]? = some v := hst.head
    have hunit : text[cursor + 1]? = some quote := hst.tail.head
    simp only [isStringContent, Bool.and_eq_true, decide_eq_true_eq, ne_eq] at hc
    have hcursor : cursor < stop := by omega
    simp [skipQuoted, isAt_of_some hv, isAt_of_some hunit, hv, hunit, hlt, hcursor, hquote, hc]
  | case3 w rest ih =>
    intro cursor rounds hst hc hstop hrounds
    simp only [List.length_cons] at hstop
    obtain ⟨r, rfl⟩ : ∃ r, rounds = r + 1 := ⟨rounds - 1, by omega⟩
    have hat : text[cursor]? = some 92 := hst.head
    have hcursor : cursor < stop := by omega
    have hrest := @ih (cursor + 2) r hst.tail.tail
      (by simpa [isStringContent] using hc) (by omega) (by omega)
    simp only [skipQuoted, if_pos hcursor, isAt_of_some hat]
    simp only [Char.reduceToNat, decide_true, if_true, hrest, List.length_cons]
    omega
  | case4 v w rest hv ih =>
    intro cursor rounds hst hc hstop hrounds
    simp only [List.length_cons] at hstop
    obtain ⟨r, rfl⟩ : ∃ r, rounds = r + 1 := ⟨rounds - 1, by omega⟩
    have hat : text[cursor]? = some v := hst.head
    have hcursor : cursor < stop := by omega
    simp only [isStringContent, if_neg hv, Bool.and_eq_true, decide_eq_true_eq, ne_eq] at hc
    have hrest := @ih (cursor + 1) r hst.tail hc.2
      (by simp only [List.length_cons]; omega) (by omega)
    simp only [skipQuoted, if_pos hcursor, isAt_of_some hat, hat, Option.some.injEq]
    simp only [Char.reduceToNat, hv, hc.1.1, hc.1.2, decide_false, Bool.false_eq_true, or_self,
      if_false, hrest, List.length_cons]
    omega

/-- The code takes the place for one where a line comment may start as it should. -/
def Preceded (text : List ℕ) (i : ℕ) (before : Option ℕ) : Prop :=
  isLineCommentStart text i = lineMayStart before

theorem preceded_of_some (h : text[i]? = some u) : Preceded text (i + 1) (some u) := by
  simp [Preceded, isLineCommentStart, lineMayStart, h]

theorem Stands.preceded {us : List ℕ} (h : Stands text i us) (hne : us ≠ []) :
    Preceded text (i + us.length) us.getLast? := by
  have hpos := List.length_pos_iff.2 hne
  have hlast : text[i + (us.length - 1)]? = some (us.getLast hne) := by
    rw [h.get (by omega), ← List.getLast?_eq_getElem?, List.getLast?_eq_getLast_of_ne_nil hne]
  rw [List.getLast?_eq_getLast_of_ne_nil hne]
  have := preceded_of_some hlast
  rwa [show i + (us.length - 1) + 1 = i + us.length by omega] at this

theorem preceded_append (lead rest : List ℕ) :
    Preceded (lead ++ rest) lead.length lead.getLast? := by
  by_cases hne : lead = []
  · subst hne
    rfl
  · have hst : Stands (lead ++ rest) 0 lead := ⟨rest, rfl⟩
    simpa using Stands.preceded hst hne

/-- A unit that does not start a string or a comment. -/
theorem skip_unit (h : text[i]? = some u) (hquote : isQuote u = false)
    (hslash : u = 47 → text[i + 1]? ≠ some 42 ∧
      (text[i + 1]? = some 47 → isLineCommentStart text i = false)) :
    skipQuotedOrComment text i stop = i := by
  simp only [isQuote, Bool.or_eq_false_iff, decide_eq_false_iff_not] at hquote
  have hstar : (isAt text i '/' && isAt text (i + 1) '*') = false := by
    rw [isAt_of_some h, Bool.and_eq_false_iff]
    by_cases hu : u = 47
    · exact .inr (decide_eq_false (hslash hu).1)
    · exact .inl (decide_eq_false hu)
  have hline : (isAt text i '/' && isAt text (i + 1) '/' && isLineCommentStart text i) = false := by
    rw [isAt_of_some h, Bool.and_eq_false_iff, Bool.and_eq_false_iff]
    by_cases hu : u = 47
    · by_cases hnext : text[i + 1]? = some 47
      · exact .inr ((hslash hu).2 hnext)
      · exact .inl (.inr (decide_eq_false hnext))
    · exact .inl (.inl (decide_eq_false hu))
  have hq : (isAt text i '"' || isAt text i '\'') = false := by
    rw [isAt_of_some h, isAt_of_some h, Bool.or_eq_false_iff]
    exact ⟨decide_eq_false hquote.1, decide_eq_false hquote.2⟩
  rw [skipQuotedOrComment, hstar, hline, hq]
  rfl

theorem skip_comment {content : List ℕ} (h : Stands text i (Chunk.comment content).units)
    (hw : (Chunk.comment content).Written)
    (hstop : i + (Chunk.comment content).units.length ≤ stop) :
    skipQuotedOrComment text i stop = i + (Chunk.comment content).units.length := by
  have hlen : (Chunk.comment content).units.length = content.length + 4 := by simp [Chunk.units]
  have hstart : Stands text (i + 2) (content ++ [42, 47]) := h.tail.tail
  have hclose : indexOf text [42, 47] (i + 2) = some (i + 2 + content.length) := by
    refine indexOf_eq (by simp) hstart.right fun m hm hst => hw ?_
    have h0 : (content ++ [42, 47])[m]? = some 42 := by
      rw [← hstart.get (by simp; omega)]
      exact hst.head
    have h1 : (content ++ [42, 47])[m + 1]? = some 47 := by
      rw [← hstart.get (by simp; omega)]
      exact hst.tail.head
    rw [List.getElem?_append_left hm] at h0
    have hm1 : m + 1 < content.length := by
      by_contra hge
      have hlast : m + 1 = content.length := by omega
      rw [hlast, List.getElem?_append_right (Nat.le_refl _), Nat.sub_self] at h1
      cases h1
    rw [List.getElem?_append_left hm1] at h1
    refine ⟨content.take m, content.drop (m + 2), ?_⟩
    obtain ⟨hm0, e0⟩ := List.getElem?_eq_some_iff.1 h0
    obtain ⟨_, e1⟩ := List.getElem?_eq_some_iff.1 h1
    have hdrop : content.drop m = 42 :: 47 :: content.drop (m + 2) := by
      rw [List.drop_eq_getElem_cons hm0, e0, List.drop_eq_getElem_cons hm1, e1]
    have happ := List.take_append_drop m content
    rw [hdrop] at happ
    simpa using happ
  have h0 : text[i]? = some 47 := h.head
  have h1 : text[i + 1]? = some 42 := h.tail.head
  have hnot : ¬stop < i + 2 + content.length + 2 := by omega
  rw [skipQuotedOrComment, isAt_of_some h0, isAt_of_some h1]
  simp only [Char.reduceToNat, decide_true, Bool.and_self, if_true, hclose, if_neg hnot, hlen]
  omega

theorem skip_lineComment {content : List ℕ} (h : Stands text i (Chunk.lineComment content).units)
    (hw : (Chunk.lineComment content).Written)
    (hnext : text[i + (Chunk.lineComment content).units.length]? = some 10)
    (hstart : isLineCommentStart text i = true)
    (hstop : i + (Chunk.lineComment content).units.length ≤ stop) :
    skipQuotedOrComment text i stop = i + (Chunk.lineComment content).units.length := by
  have hlen : (Chunk.lineComment content).units.length = content.length + 2 := rfl
  rw [hlen] at hnext hstop ⊢
  have hcontent : Stands text (i + 2) content := h.tail.tail
  have hclose : indexOf text [10] (i + 2) = some (i + 2 + content.length) := by
    refine indexOf_eq (by simp) ?_ fun m hm hst => hw ?_
    · obtain ⟨hlt, e⟩ := List.getElem?_eq_some_iff.1 hnext
      rw [show i + 2 + content.length = i + (content.length + 2) by omega, Stands,
        List.drop_eq_getElem_cons hlt, e]
      exact ⟨_, rfl⟩
    · have hm10 : text[i + 2 + m]? = some 10 := hst.head
      rw [hcontent.get hm] at hm10
      exact List.mem_of_getElem? hm10
  have h0 : text[i]? = some 47 := h.head
  have h1 : text[i + 1]? = some 47 := h.tail.head
  have hnot : ¬stop < i + 2 + content.length := by omega
  rw [skipQuotedOrComment, isAt_of_some h0, isAt_of_some h1, isAt_of_some h1, hstart]
  simp only [Char.reduceToNat, hclose, if_neg hnot]
  show i + 2 + content.length = _
  omega

theorem skip_string {quote : ℕ} {content : List ℕ}
    (h : Stands text i (Chunk.string quote content).units)
    (hw : (Chunk.string quote content).Written)
    (hstop : i + (Chunk.string quote content).units.length ≤ stop) :
    skipQuotedOrComment text i stop = i + (Chunk.string quote content).units.length := by
  obtain ⟨hquote, hcontent⟩ := hw
  have hlen : (Chunk.string quote content).units.length = content.length + 2 := by
    simp [Chunk.units]
  rw [hlen] at hstop ⊢
  have h0 : text[i]? = some quote := h.head
  have hskip : skipQuoted text quote stop (stop - i) (i + 1) = i + 1 + content.length + 1 :=
    skipQuoted_content (by rintro rfl; exact absurd hquote (by decide)) content h.tail hcontent
      (by omega) (by omega)
  have hslash : isAt text i '/' = false := by
    rw [isAt_of_some h0]
    exact decide_eq_false (by rintro rfl; exact absurd hquote (by decide))
  have hq : (isAt text i '"' || isAt text i '\'') = true := by
    rw [isAt_of_some h0, isAt_of_some h0]
    exact hquote
  rw [skipQuotedOrComment, hslash, hq, List.getD_eq_getElem?_getD, h0]
  show skipQuoted text quote stop (stop - i) (i + 1) = _
  omega

/-- A string or a comment is skipped at once. -/
theorem skip_chunk {c : Chunk} (h : Stands text i c.units) (hw : c.Written)
    (hends : c.Ends text[i + c.units.length]?)
    (hstart : c.isLine = true → lineMayStart before = true)
    (hpre : Preceded text i before) (hstop : i + c.units.length ≤ stop) :
    skipQuotedOrComment text i stop = i + c.units.length := by
  cases c with
  | string quote content => exact skip_string h hw hstop
  | comment content => exact skip_comment h hw hstop
  | lineComment content => exact skip_lineComment h hw hends (hpre.trans (hstart rfl)) hstop

theorem Chunk.units_ne_nil (c : Chunk) : c.units ≠ [] := by
  cases c <;> simp [Chunk.units]

theorem Chunk.length_pos (c : Chunk) : 0 < c.units.length := List.length_pos_iff.2 c.units_ne_nil

/-! ## Scanners that go over pieces -/

/-- What a scanner does from `start` on with each kind of piece; `I d` are its states in `d` parens,
and `nested` says that no unit may be a brace. -/
structure Reader (text : List ℕ) (start stop : ℕ) (nested : Bool) {σ α : Type}
    (scan : ℕ → ℕ → σ → α)
    (I : ℕ → σ → Prop) : Prop where
  chunk : ∀ {i j d}, i < stop → i < j → skipQuotedOrComment text i stop = j →
    Passes scan stop (I d) i (I d) j
  unit : ∀ {i u d}, start ≤ i → i < stop → text[i]? = some u → skipQuotedOrComment text i stop = i →
    (u = 35 → text[i + 1]? ≠ some 123) → u ≠ 40 → u ≠ 41 →
    (d = 0 ∨ nested = true → u ≠ 123 ∧ u ≠ 125) → (d = 0 → u ≠ 59) →
    Passes scan stop (I d) i (I d) (i + 1)
  opens : ∀ {i d}, i < stop → text[i]? = some 40 → skipQuotedOrComment text i stop = i →
    Passes scan stop (I d) i (I (d + 1)) (i + 1)
  closes : ∀ {i d}, i < stop → text[i]? = some 41 → skipQuotedOrComment text i stop = i →
    Passes scan stop (I (d + 1)) i (I d) (i + 1)
  interpolation : ∀ {i n d}, i + n + 3 ≤ stop → text[i]? = some 35 → text[i + 1]? = some 123 →
    text[i + n + 2]? = some 125 →
    (∀ depth : ℤ, 0 < depth →
      Scans (skipBlockFrom text stop) stop (i + 2) depth (i + 2 + n) depth) →
    Passes scan stop (I d) i (I d) (i + n + 3)

/-- A unit that starts neither a string nor a comment nor an interpolation. -/
theorem skip_plain (stop : ℕ) (h : text[i]? = some u) (hquote : isQuote u = false)
    (hslash : u ≠ 47) :
    skipQuotedOrComment text i stop = i :=
  skip_unit h hquote fun hu => absurd hu hslash

section skipBlock

variable {depth base : ℤ}

theorem skipBlock_chunk (depth : ℤ) (hi : i < stop) (hij : i < j)
    (hskip : skipQuotedOrComment text i stop = j) :
    Scans (skipBlockFrom text stop) stop i depth j depth := by
  refine Scans.step hi hij fun rounds => ?_
  have hne : j ≠ i := by omega
  simp [skipBlockFrom, hi, hskip, hne]

theorem skipBlock_unit (depth : ℤ) (hi : i < stop) (h : text[i]? = some u)
    (hskip : skipQuotedOrComment text i stop = i) (hopen : u ≠ 123) (hclose : u ≠ 125) :
    Scans (skipBlockFrom text stop) stop i depth (i + 1) depth := by
  refine Scans.step hi (Nat.lt_succ_self i) fun rounds => ?_
  simp [skipBlockFrom, hi, hskip, isAt_of_some h, hopen, hclose]

theorem skipBlock_open (depth : ℤ) (hi : i < stop) (h : text[i]? = some 123) :
    Scans (skipBlockFrom text stop) stop i depth (i + 1) (depth + 1) := by
  refine Scans.step hi (Nat.lt_succ_self i) fun rounds => ?_
  have hskip := skip_plain stop h (by decide) (by decide)
  simp [skipBlockFrom, hi, hskip, isAt_of_some h]

theorem skipBlock_close (depth : ℤ) (hi : i < stop) (h : text[i]? = some 125) (hdepth : depth ≠ 0) :
    Scans (skipBlockFrom text stop) stop i (depth + 1) (i + 1) depth := by
  refine Scans.step hi (Nat.lt_succ_self i) fun rounds => ?_
  have hskip := skip_plain stop h (by decide) (by decide)
  simp [skipBlockFrom, hi, hskip, isAt_of_some h, hdepth]

theorem skipBlock_end (hi : i < stop) (h : text[i]? = some 125) {rounds : ℕ}
    (hrounds : stop - i ≤ rounds) : skipBlockFrom text stop rounds i 1 = i + 1 := by
  obtain ⟨r, rfl⟩ : ∃ r, rounds = r + 1 := ⟨rounds - 1, by omega⟩
  have hskip := skip_plain stop h (by decide) (by decide)
  simp [skipBlockFrom, hi, hskip, isAt_of_some h]

theorem skipBlockReader (hbase : 0 < base) :
    Reader text 0 stop true (skipBlockFrom text stop) fun _ depth => depth = base where
  chunk hi hij hskip := (skipBlock_chunk base hi hij hskip).passes rfl
  unit _ hi h hskip _ _ _ hbrace _ :=
    (skipBlock_unit base hi h hskip (hbrace (.inr rfl)).1 (hbrace (.inr rfl)).2).passes rfl
  opens hi h hskip := (skipBlock_unit base hi h hskip (by decide) (by decide)).passes rfl
  closes hi h hskip := (skipBlock_unit base hi h hskip (by decide) (by decide)).passes rfl
  interpolation {i n _} hstop hhash hopen hclose hinner := by
    have hskip := skip_plain stop hhash (by decide) (by decide)
    have h1 := skipBlock_unit base (by omega : i < stop) hhash hskip (by decide)
      (by decide)
    have h2 := skipBlock_open base (by omega : i + 1 < stop) hopen
    have h3 := hinner (base + 1) (by omega)
    have hat : i + 2 + n = i + n + 2 := by omega
    rw [hat] at h3
    have h4 := skipBlock_close base (by omega : i + n + 2 < stop) hclose (by omega : base ≠ 0)
    exact (((h1.trans h2).trans h3).trans h4).passes rfl

/-- The end of a block or an interpolation whose brace stands at `i`. -/
theorem skipBlock_eq {n : ℕ} (hstop : i + n + 2 ≤ stop) (hopen : text[i]? = some 123)
    (hclose : text[i + n + 1]? = some 125)
    (hinner : Scans (skipBlockFrom text stop) stop (i + 1) 1 (i + 1 + n) 1) :
    skipBlock text i stop = i + n + 2 := by
  have h1 := skipBlock_open 0 (by omega : i < stop) hopen
  have hat : i + 1 + n = i + n + 1 := by omega
  rw [hat] at hinner
  refine (h1.trans hinner).answer (fun rounds hrounds => ?_) (Nat.le_refl _)
  exact skipBlock_end (by omega) hclose hrounds

end skipBlock

/-! ## Over pieces -/

theorem head_of_next {us : List ℕ} (h : (us ++ [closing]).head? = some u) (hu : u ≠ closing) :
    us.head? = some u := by
  cases us with
  | nil => exact absurd (Option.some.inj h).symm hu
  | cons v us => exact h

theorem Chunk.Ends.of_head {c : Chunk} {us : List ℕ} (h : c.Ends us.head?)
    (hst : Stands text i us) :
    c.Ends text[i]? := by
  cases c with
  | string | comment => trivial
  | lineComment =>
    obtain _ | ⟨v, us⟩ := us
    · cases h
    · exact hst.head.trans h

theorem isPlain_quote {raw : Bool} (h : isPlain raw u = true) : isQuote u = false := by
  simp only [isPlain, Bool.and_eq_true, Bool.not_eq_true'] at h
  exact h.1.1.1

theorem isPlain_parens {raw : Bool} (h : isPlain raw u = true) : u ≠ 40 ∧ u ≠ 41 := by
  simp only [isPlain, Bool.and_eq_true, decide_eq_true_eq, ne_eq] at h
  exact ⟨h.1.1.2, h.1.2⟩

theorem isPlain_ends (h : isPlain false u = true) : u ≠ 59 ∧ u ≠ 123 ∧ u ≠ 125 := by
  simp only [isPlain, Bool.and_eq_true, Bool.false_or, decide_eq_true_eq, ne_eq] at h
  exact ⟨h.2.1.1, h.2.1.2, h.2.2⟩

theorem Reader.pieces (p : Pieces) : ∀ {σ α : Type} {scan : ℕ → ℕ → σ → α} {I : ℕ → σ → Prop}
    {nested raw : Bool} {start closing i d : ℕ} {before : Option ℕ}, Reader text start stop nested
    scan I →
    start ≤ i → (raw = true → 0 < d) → closing ≠ 42 → closing ≠ 47 → Stands text i
    (p.units ++ [closing]) →
    p.Written raw closing → p.Clear nested before → Preceded text i before →
    i + p.units.length < stop → Passes scan stop (I d) i (I d) (i + p.units.length) := by
  induction p with
  | nil => exact fun _ _ _ _ _ _ _ _ _ _ => Passes.refl _ _ _ _
  | unit u rest ih =>
    intro σ α scan I nested raw start closing i d before R hstart hraw hc1 hc2 hst hw hclear hpre
      hstop
    obtain ⟨hplain, hhash, hslash, -, hwrest⟩ := hw
    obtain ⟨hclearSlash, hbrace, hclear⟩ := hclear
    have hunit : text[i]? = some u := hst.head
    have hnext : text[i + 1]? = (rest.units ++ [closing]).head? := hst.tail.head?_eq (by simp)
    have hskip : skipQuotedOrComment text i stop = i := by
      refine skip_unit hunit (isPlain_quote hplain) fun hu => ⟨fun hat => ?_, fun hat => ?_⟩
      · exact (hclearSlash hu).1 (head_of_next (hnext.symm.trans hat) hc1.symm)
      · exact hpre.trans ((hclearSlash hu).2 (head_of_next (hnext.symm.trans hat) hc2.symm))
    have hlen : (Pieces.unit u rest).units.length = rest.units.length + 1 := rfl
    rw [hlen] at hstop ⊢
    have hstep : Passes scan stop (I d) i (I d) (i + 1) := by
      refine R.unit hstart (by omega) hunit hskip (fun hu hat => hhash hu (hnext.symm.trans hat))
        (isPlain_parens hplain).1 (isPlain_parens hplain).2 (fun hor => ?_) fun hd => ?_
      · rcases hor with hd | hnested
        · cases raw with
          | false => exact (isPlain_ends hplain).2
          | true => exact absurd (hraw rfl) (by omega)
        · exact hbrace hnested
      · cases raw with
        | false => exact (isPlain_ends hplain).1
        | true => exact absurd (hraw rfl) (by omega)
    have hpass := ih R (by omega) hraw hc1 hc2 hst.tail hwrest hclear (preceded_of_some hunit)
      (by omega)
    rw [show i + 1 + rest.units.length = i + (rest.units.length + 1) by omega] at hpass
    exact hstep.trans hpass
  | chunk c rest ih =>
    intro σ α scan I nested raw start closing i d before R hstart hraw hc1 hc2 hst hw hclear hpre
      hstop
    obtain ⟨-, hc, hends, hwrest⟩ := hw
    obtain ⟨hline, hclear⟩ := hclear
    have hpos := c.length_pos
    have hlen : (Pieces.chunk c rest).units.length = c.units.length + rest.units.length :=
      List.length_append
    have hst' : Stands text i (c.units ++ (rest.units ++ [closing])) := by
      rwa [← List.append_assoc]
    rw [hlen] at hstop ⊢
    have hskip : skipQuotedOrComment text i stop = i + c.units.length :=
      skip_chunk hst'.left hc (hends.of_head hst'.right.left) hline hpre (by omega)
    have hstep := R.chunk (d := d) (by omega) (by omega) hskip
    have hpass := ih R (by omega) hraw hc1 hc2 hst'.right hwrest hclear
      (Stands.preceded hst'.left c.units_ne_nil) (by omega)
    rw [Nat.add_assoc] at hpass
    exact hstep.trans hpass
  | parens inside inner rest ihInner ihRest =>
    intro σ α scan I nested raw start closing i d before R hstart hraw hc1 hc2 hst hw hclear hpre
      hstop
    obtain ⟨-, hwInner, hwRest⟩ := hw
    obtain ⟨hclearInner, hclearRest⟩ := hclear
    have hlen : (Pieces.parens inside inner rest).units.length =
        inner.units.length + rest.units.length + 2 := by
      simp [Pieces.units]
      omega
    rw [hlen] at hstop ⊢
    have hst0 : Stands text i (40 :: (inner.units ++ 41 :: (rest.units ++ [closing]))) := by
      simpa [Pieces.units] using hst
    have hopen : text[i]? = some 40 := hst0.head
    have hst1 := hst0.tail
    have hclose : text[i + 1 + inner.units.length]? = some 41 := hst1.next
    have hInner := ihInner (d := d + 1) R (by omega) (fun _ => Nat.succ_pos d) (by decide)
      (by decide)
      hst1.upto hwInner hclearInner (preceded_of_some hopen) (by omega)
    have hRest := ihRest R (by omega) hraw hc1 hc2 hst1.right.tail hwRest hclearRest
      (preceded_of_some hclose)
      (by omega)
    rw [show i + 1 + inner.units.length + 1 + rest.units.length =
      i + (inner.units.length + rest.units.length + 2) by omega] at hRest
    have hOpen := R.opens (d := d) (by omega) hopen (skip_plain stop hopen (by decide) (by decide))
    have hClose := R.closes (d := d) (by omega) hclose (skip_plain stop hclose (by decide)
      (by decide))
    exact ((hOpen.trans hInner).trans hClose).trans hRest
  | interpolation inner rest ihInner ihRest =>
    intro σ α scan I nested raw start closing i d before R hstart hraw hc1 hc2 hst hw hclear hpre
      hstop
    obtain ⟨hwInner, hwRest⟩ := hw
    obtain ⟨hclearInner, hclearRest⟩ := hclear
    have hlen : (Pieces.interpolation inner rest).units.length =
        inner.units.length + rest.units.length + 3 := by
      simp [Pieces.units]
      omega
    rw [hlen] at hstop ⊢
    have hst0 : Stands text i (35 :: 123 :: (inner.units ++ 125 :: (rest.units ++ [closing]))) := by
      simpa [Pieces.units] using hst
    have hhash : text[i]? = some 35 := hst0.head
    have hopen : text[i + 1]? = some 123 := hst0.tail.head
    have hst1 : Stands text (i + 2) _ := hst0.tail.tail
    have hclose : text[i + 2 + inner.units.length]? = some 125 := hst1.next
    have hInner : ∀ depth : ℤ, 0 < depth → Scans (skipBlockFrom text stop) stop (i + 2) depth
        (i + 2 + inner.units.length) depth := by
      intro depth hdepth
      have hpass := ihInner (d := 0) (@skipBlockReader text stop depth hdepth)
        (Nat.zero_le _) (fun h => by cases h) (by decide) (by decide) hst1.upto hwInner hclearInner
        (preceded_of_some hopen) (by omega)
      exact hpass.scans
    have hRest := ihRest R (by omega) hraw hc1 hc2 hst1.right.tail hwRest hclearRest
      (preceded_of_some hclose)
      (by omega)
    rw [show i + 2 + inner.units.length + 1 + rest.units.length =
      i + (inner.units.length + rest.units.length + 3) by omega] at hRest
    have hStep := R.interpolation (n := inner.units.length) (d := d) (by omega) hhash hopen
      (by rw [show i + inner.units.length + 2 = i + 2 + inner.units.length by omega]; exact hclose)
      hInner
    rw [show i + inner.units.length + 3 = i + 2 + inner.units.length + 1 by omega] at hStep
    exact hStep.trans hRest

/-! ## Over statements and items -/

/-- A unit that means nothing to any scanner but as a part of a name. -/
def isQuiet (u : ℕ) : Bool := !isQuote u && !([47, 35, 40, 41, 59, 123, 125].contains u)

theorem isQuiet_iff : isQuiet u = true ↔ isQuote u = false ∧ u ≠ 47 ∧ u ≠ 35 ∧ u ≠ 40 ∧ u ≠ 41 ∧
    u ≠ 59 ∧ u ≠ 123 ∧ u ≠ 125 := by
  simp [isQuiet]

theorem isNameUnit_quiet (h : isNameUnit u = true) : isQuiet u = true ∧ u ≠ 58 := by
  simp only [isNameUnit, isNamePart, isNameStart, Bool.or_eq_true, Bool.and_eq_true,
    decide_eq_true_eq] at h
  have hne : ∀ v, v < 128 → v ≠ 45 → v ≠ 95 → ¬(48 ≤ v ∧ v ≤ 57) → ¬(65 ≤ v ∧ v ≤ 90) →
      ¬(97 ≤ v ∧ v ≤ 122) → u ≠ v := by omega
  simp only [isQuiet, isQuote, Bool.and_eq_true, Bool.not_eq_true', Bool.or_eq_false_iff,
    decide_eq_false_iff_not, List.contains_eq_mem, List.mem_cons, List.not_mem_nil, or_false,
    not_or]
  refine ⟨⟨⟨?_, ?_⟩, ?_, ?_, ?_, ?_, ?_, ?_, ?_⟩, ?_⟩ <;> apply hne <;> decide

theorem isSpace_quiet (h : isSpace u = true) : isQuiet u = true ∧ u ≠ 58 := by
  have hne : ∀ v, isSpace v = false → u ≠ v := by
    rintro v hv rfl
    rw [h] at hv
    cases hv
  simp only [isQuiet, isQuote, Bool.and_eq_true, Bool.not_eq_true', Bool.or_eq_false_iff,
    decide_eq_false_iff_not, List.contains_eq_mem, List.mem_cons, List.not_mem_nil, or_false,
    not_or]
  refine ⟨⟨⟨?_, ?_⟩, ?_, ?_, ?_, ?_, ?_, ?_, ?_⟩, ?_⟩ <;> exact hne _ (by decide)

section Reader

variable {σ α : Type} {scan : ℕ → ℕ → σ → α} {I : ℕ → σ → Prop} {nested : Bool}

theorem Reader.quiet (R : Reader text start stop nested scan I) (hstart : start ≤ i) (hi : i < stop)
    (h : text[i]? = some u)
    (hu : isQuiet u = true) : Passes scan stop (I d) i (I d) (i + 1) := by
  obtain ⟨hquote, hslash, hhash, hopen, hclose, hsemi, hbrace⟩ := isQuiet_iff.1 hu
  exact R.unit hstart hi h (skip_plain stop h hquote hslash) (fun e => absurd e hhash) hopen hclose
    (fun _ => hbrace) fun _ => hsemi

theorem Reader.quietUnits (R : Reader text start stop nested scan I) (hstart : start ≤ i)
    {us : List ℕ}
    (hus : ∀ u ∈ us, isQuiet u = true) (h : Stands text i us) (hstop : i + us.length ≤ stop) :
    Passes scan stop (I d) i (I d) (i + us.length) :=
  passes_units (fun _ u hj hi hat hmem => R.quiet (Nat.le_trans hstart hj) hi hat (hus u hmem)) h
    hstop

/-- The units of a declaration up to its value are quiet. -/
theorem declarationHead_quiet {name space gap : List ℕ} (hname : name.all isNameUnit = true)
    (hspace : space.all isSpace = true) (hgap : gap.all isSpace = true) :
    ∀ u ∈ name ++ space ++ 58 :: gap, isQuiet u = true := by
  intro u hu
  simp only [List.mem_append, List.mem_cons] at hu
  rcases hu with (hu | hu) | rfl | hu
  · exact (isNameUnit_quiet (List.all_eq_true.1 hname u hu)).1
  · exact (isSpace_quiet (List.all_eq_true.1 hspace u hu)).1
  · decide
  · exact (isSpace_quiet (List.all_eq_true.1 hgap u hu)).1

theorem Reader.statement (R : Reader text start stop nested scan I) {s : Statement}
    (hstart : start ≤ i) (hc1 : closing ≠ 42) (hc2 : closing ≠ 47)
    (hst : Stands text i (s.units ++ [closing]))
    (hw : s.Written closing) (hclear : s.Clear nested before) (hpre : Preceded text i before)
    (hstop : i + s.units.length < stop) :
    Passes scan stop (I 0) i (I 0) (i + s.units.length) := by
  cases s with
  | declaration name space gap value =>
    obtain ⟨-, hname, hspace, hgap, -, hvalue⟩ := hw
    have hunits : (Statement.declaration name space gap value).units =
        (name ++ space ++ 58 :: gap) ++ value.units := by
      simp [Statement.units]
    rw [hunits] at hst hstop ⊢
    rw [List.length_append] at hstop ⊢
    rw [List.append_assoc] at hst
    have hHead := R.quietUnits hstart (d := 0) (declarationHead_quiet hname hspace hgap) hst.left
      (by omega)
    have hValue := R.pieces value (d := 0) (by omega) (fun h => by cases h) hc1 hc2 hst.right hvalue
      hclear
      (Stands.preceded hst.left (by simp)) (by omega)
    rw [Nat.add_assoc] at hValue
    exact hHead.trans hValue
  | other pieces =>
    exact R.pieces pieces hstart (fun h => by cases h) hc1 hc2 hst hw.2 hclear hpre hstop

end Reader

theorem skipBlock_items (items : Items) : ∀ {i : ℕ} {base : ℤ} {before : Option ℕ}, 0 < base →
    Stands text i (items.units ++ [125]) → items.Written → items.Clear true before →
    Preceded text i before → i + items.units.length < stop →
    Scans (skipBlockFrom text stop) stop i base (i + items.units.length) base := by
  induction items with
  | nil => exact fun _ _ _ _ _ _ => Scans.refl _ _ _ _
  | blank u rest ih =>
    intro i base before hbase hst hw hclear _ hstop
    rw [show (Items.blank u rest).units.length = rest.units.length + 1 from rfl] at hstop ⊢
    have hunit : text[i]? = some u := hst.head
    have hstep := ((skipBlockReader hbase).quiet (d := 0) (Nat.zero_le _) (by omega : i < stop)
      hunit
      (isSpace_quiet hw.1).1).scans
    have hrest := ih hbase hst.tail hw.2 hclear (preceded_of_some hunit) (by omega)
    rw [show i + 1 + rest.units.length = i + (rest.units.length + 1) by omega] at hrest
    exact hstep.trans hrest
  | chunk c rest ih =>
    intro i base before hbase hst hw hclear hpre hstop
    have hpos := c.length_pos
    rw [show (Items.chunk c rest).units = c.units ++ rest.units from rfl] at hst hstop ⊢
    rw [List.length_append] at hstop ⊢
    rw [List.append_assoc] at hst
    have hskip := skip_chunk hst.left hw.1 (hw.2.1.of_head hst.right.left) hclear.1 hpre
      (by omega : _ ≤ stop)
    have hstep := skipBlock_chunk base (by omega) (by omega) hskip
    have hrest := ih hbase hst.right hw.2.2 hclear.2 (Stands.preceded hst.left c.units_ne_nil)
      (by omega)
    rw [Nat.add_assoc] at hrest
    exact hstep.trans hrest
  | statement s rest ih =>
    intro i base before hbase hst hw hclear hpre hstop
    rw [show (Items.statement s rest).units = s.units ++ 59 :: rest.units from rfl] at hst hstop ⊢
    rw [List.length_append, List.length_cons] at hstop ⊢
    rw [List.append_assoc, List.cons_append] at hst
    have hs := ((skipBlockReader hbase).statement (Nat.zero_le _) (by decide) (by decide) hst.upto
      hw.1
      hclear.1 hpre (by omega : _ < stop)).scans
    have hsemi : text[i + s.units.length]? = some 59 := hst.next
    have hstep := skipBlock_unit base (by omega : _ < stop) hsemi
      (skip_plain stop hsemi (by decide) (by decide)) (by decide) (by decide)
    have hrest := ih hbase hst.right.tail hw.2 hclear.2 (preceded_of_some hsemi) (by omega)
    rw [show i + s.units.length + 1 + rest.units.length =
      i + (s.units.length + (rest.units.length + 1)) by omega] at hrest
    exact (hs.trans hstep).trans hrest
  | last s =>
    intro i base before hbase hst hw hclear hpre hstop
    exact ((skipBlockReader hbase).statement (Nat.zero_le _) (by decide) (by decide) hst hw hclear
      hpre hstop).scans
  | block prelude body rest ihBody ihRest =>
    intro i base before hbase hst hw hclear hpre hstop
    obtain ⟨hwPrelude, hwBody, hwRest⟩ := hw
    obtain ⟨hcPrelude, hcBody, hcRest⟩ := hclear
    have hlen : (Items.block prelude body rest).units.length =
        prelude.units.length + body.units.length + rest.units.length + 2 := by
      simp [Items.units]
      omega
    rw [hlen] at hstop ⊢
    have hst0 : Stands text i (prelude.units ++ 123 :: (body.units ++ 125 ::
        (rest.units ++ [125]))) := by
      simpa [Items.units] using hst
    have hst1 := hst0.right.tail
    have hopen : text[i + prelude.units.length]? = some 123 := hst0.next
    have hclose : text[i + prelude.units.length + 1 + body.units.length]? = some 125 := hst1.next
    have h1 := ((skipBlockReader hbase).pieces prelude (d := 0) (Nat.zero_le _)
      (fun h => by cases h) (by decide)
      (by decide) hst0.upto hwPrelude hcPrelude hpre (by omega : _ < stop)).scans
    have h2 := skipBlock_open base (by omega : _ < stop) hopen
    have h3 := ihBody (by omega : 0 < base + 1) hst1.upto hwBody hcBody (preceded_of_some hopen)
      (by omega)
    have h4 := skipBlock_close base (by omega : _ < stop) hclose (by omega)
    have h5 := ihRest hbase hst1.right.tail hwRest hcRest (preceded_of_some hclose) (by omega)
    rw [show i + prelude.units.length + 1 + body.units.length + 1 + rest.units.length =
      i + (prelude.units.length + body.units.length + rest.units.length + 2) by omega] at h5
    exact (((h1.trans h2).trans h3).trans h4).trans h5

/-! ## The brace of the rule -/

theorem blockBodyStartReader :
    Reader text 0 stop false (blockBodyStartFrom text stop) fun d parens => parens = d where
  chunk {i j _} hi hij hskip := by
    refine Scans.passes (Scans.step hi hij fun rounds => ?_) rfl
    have hne : j ≠ i := by omega
    simp [blockBodyStartFrom, hi, hskip, hne]
  unit {i u d} _ hi h hskip hhash hopen hclose hbrace _ := by
    refine Scans.passes (Scans.step hi (Nat.lt_succ_self i) fun rounds => ?_) rfl
    have hinter : ¬(decide (u = 35) && isAt text (i + 1) '{') = true := by
      intro hand
      simp only [Bool.and_eq_true, decide_eq_true_eq] at hand
      exact hhash hand.1 (of_decide_eq_true hand.2)
    have hblock : ¬(decide (u = 123) && decide (d = 0)) = true := by
      intro hand
      simp only [Bool.and_eq_true, decide_eq_true_eq] at hand
      exact (hbrace (.inl hand.2)).1 hand.1
    simp only [blockBodyStartFrom, if_pos hi, hskip, ne_eq, not_true, if_false, isAt_of_some h,
      Char.reduceToNat, hopen, hclose, decide_false, Bool.false_eq_true, if_neg hinter,
      if_neg hblock]
  opens {i d} hi h hskip := by
    refine Scans.passes (Scans.step hi (Nat.lt_succ_self i) fun rounds => ?_) rfl
    simp [blockBodyStartFrom, hi, hskip, isAt_of_some h]
  closes {i d} hi h hskip := by
    refine Scans.passes (Scans.step hi (Nat.lt_succ_self i) fun rounds => ?_) rfl
    simp [blockBodyStartFrom, hi, hskip, isAt_of_some h]
  interpolation {i n d} hstop hhash hopen hclose hinner := by
    refine Scans.passes (Scans.step (by omega) (by omega) fun rounds => ?_) rfl
    have hi : i < stop := by omega
    have hskip := skip_plain stop hhash (by decide) (by decide)
    have hend : skipInterpolation text i stop = i + n + 3 := by
      have := skipBlock_eq (i := i + 1) (n := n) (by omega : _ ≤ stop) hopen
        (by rw [show i + 1 + n + 1 = i + n + 2 by omega]; exact hclose) (hinner 1 (by decide))
      rw [skipInterpolation, this]
      omega
    simp [blockBodyStartFrom, hi, hskip, isAt_of_some hhash, isAt_of_some hopen, hend]

theorem blockBodyStart_items (items : Items) : ∀ {i : ℕ} {before : Option ℕ},
    items.opensNone = true → Stands text i items.units → items.Written → items.Clear false before →
    Preceded text i before → i + items.units.length ≤ stop →
    Scans (blockBodyStartFrom text stop) stop i 0 (i + items.units.length) 0 := by
  induction items with
  | nil => exact fun _ _ _ _ _ _ => Scans.refl _ _ _ _
  | blank u rest ih =>
    intro i before hnone hst hw hclear _ hstop
    rw [show (Items.blank u rest).units.length = rest.units.length + 1 from rfl] at hstop ⊢
    have hunit : text[i]? = some u := hst.head
    have hstep := (blockBodyStartReader.quiet (d := 0) (Nat.zero_le _) (by omega : i < stop) hunit
      (isSpace_quiet hw.1).1).scans
    have hrest := ih hnone hst.tail hw.2 hclear (preceded_of_some hunit) (by omega)
    rw [show i + 1 + rest.units.length = i + (rest.units.length + 1) by omega] at hrest
    exact hstep.trans hrest
  | chunk c rest ih =>
    intro i before hnone hst hw hclear hpre hstop
    have hpos := c.length_pos
    rw [show (Items.chunk c rest).units = c.units ++ rest.units from rfl] at hst hstop ⊢
    rw [List.length_append] at hstop ⊢
    have hskip := skip_chunk hst.left hw.1 (hw.2.1.of_head hst.right) hclear.1 hpre
      (by omega : _ ≤ stop)
    have hstep := (blockBodyStartReader.chunk (d := 0) (by omega) (by omega) hskip).scans
    have hrest := ih hnone hst.right hw.2.2 hclear.2 (Stands.preceded hst.left c.units_ne_nil)
      (by omega)
    rw [Nat.add_assoc] at hrest
    exact hstep.trans hrest
  | statement s rest ih =>
    intro i before hnone hst hw hclear hpre hstop
    rw [show (Items.statement s rest).units = s.units ++ 59 :: rest.units from rfl] at hst hstop ⊢
    rw [List.length_append, List.length_cons] at hstop ⊢
    have hs := (blockBodyStartReader.statement (Nat.zero_le _) (by decide) (by decide) hst.upto hw.1
      hclear.1 hpre
      (by omega : i + s.units.length < stop)).scans
    have hsemi : text[i + s.units.length]? = some 59 := hst.next
    have hstep : Scans (blockBodyStartFrom text stop) stop (i + s.units.length) 0
        (i + s.units.length + 1) 0 := by
      refine Scans.step (by omega) (Nat.lt_succ_self _) fun rounds => ?_
      have hi : i + s.units.length < stop := by omega
      have hskip := skip_plain stop hsemi (by decide) (by decide)
      simp [blockBodyStartFrom, hi, hskip, isAt_of_some hsemi]
    have hrest := ih hnone hst.right.tail hw.2 hclear.2 (preceded_of_some hsemi) (by omega)
    rw [show i + s.units.length + 1 + rest.units.length =
      i + (s.units.length + (rest.units.length + 1)) by omega] at hrest
    exact (hs.trans hstep).trans hrest
  | last s => exact fun hnone => by cases hnone
  | block prelude body rest _ _ => exact fun hnone => by cases hnone

/-- The block is found behind a prelude, and behind items in front of it that open none. -/
theorem blockBodyStart_eq {lead : Items} {prelude : Pieces} {after : List ℕ} {between : Option ℕ}
    (hnone : lead.opensNone = true)
    (hst : Stands text i (lead.units ++ (prelude.units ++ 123 :: after)))
    (hwLead : lead.Written) (hw : prelude.Written false 123) (hclearLead : lead.Clear false before)
    (hclear : prelude.Clear false between) (hpreLead : Preceded text i before)
    (hpre : Preceded text (i + lead.units.length) between)
    (hstop : i + lead.units.length + prelude.units.length < stop) :
    blockBodyStart text i stop = some (i + lead.units.length + prelude.units.length + 1) := by
  have h1 := blockBodyStart_items lead hnone hst.left hwLead hclearLead hpreLead
    (by omega : _ ≤ stop)
  have h2 := (blockBodyStartReader.pieces prelude (d := 0) (Nat.zero_le _) (fun h => by cases h)
    (by decide) (by decide) hst.right.upto hw hclear hpre hstop).scans
  have hopen : text[i + lead.units.length + prelude.units.length]? = some 123 := hst.right.next
  refine (h1.trans h2).answer (fun rounds hrounds => ?_) (Nat.le_refl _)
  obtain ⟨r, rfl⟩ : ∃ r, rounds = r + 1 := ⟨rounds - 1, by omega⟩
  have hskip := skip_plain stop hopen (by decide) (by decide)
  simp [blockBodyStartFrom, hstop, hskip, isAt_of_some hopen]

end DeclarationValuePosition

end PinOp.Rules
