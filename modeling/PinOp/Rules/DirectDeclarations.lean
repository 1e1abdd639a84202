import PinOp.Rules.RuleScanners

/-!
# The direct declarations of a written rule

The scan over a block collects the declarations that the block writes itself, in order, each under
the name and with the offset that `readDeclaration` gives them.
-/

namespace PinOp.Rules

open PinOp.Lib

namespace DeclarationValuePosition

variable {text : List ℕ} {start stop i j d u closing statementStart : ℕ} {before : Option ℕ}

/-- The units that `readDeclaration` skips behind the colon. -/
def isBlank (u : ℕ) : Bool := u = 32 ∨ u = 9

/-! ## Runs of units -/

theorem skipWhile_stay {blank : ℕ → Bool} (rounds : ℕ) (h : text[i]?.any blank = false) :
    skipWhile text blank stop rounds i = i := by
  cases rounds with
  | zero => rfl
  | succ rounds => simp [skipWhile, h]

theorem skipWhile_run {blank : ℕ → Bool} {us : List ℕ} (hus : us.all blank = true)
    (hst : Stands text i us) (hstop : i + us.length ≤ stop)
    (hend : i + us.length < stop → text[i + us.length]?.any blank = false) :
    ∀ {rounds : ℕ}, us.length ≤ rounds →
      skipWhile text blank stop rounds i = i + us.length := by
  induction us generalizing i with
  | nil =>
    intro rounds _
    rcases Nat.lt_or_ge i stop with hi | hi
    · exact skipWhile_stay rounds (hend hi)
    · cases rounds with
      | zero => rfl
      | succ rounds =>
        have hnot : ¬i < stop := by omega
        simp [skipWhile, hnot]
  | cons u us ih =>
    intro rounds hrounds
    simp only [List.all_cons, Bool.and_eq_true, List.length_cons] at hus hstop hend hrounds ⊢
    obtain ⟨r, rfl⟩ : ∃ r, rounds = r + 1 := ⟨rounds - 1, by omega⟩
    have hunit : text[i]? = some u := hst.head
    have hi : i < stop := by omega
    have hrest := ih hus.2 hst.tail (by omega)
      (fun h => by
        have := hend (by omega)
        rwa [show i + (us.length + 1) = i + 1 + us.length by omega] at this)
      (show us.length ≤ r by omega)
    rw [skipWhile, if_pos ⟨hi, by rw [hunit]; exact hus.1⟩, hrest]
    omega

/-! ## What stands before a name -/

/-- The search for the name of a statement gets from `i` to `j` for every colon behind `j`. -/
def Leads (text : List ℕ) (i j : ℕ) : Prop :=
  ∀ colon, j ≤ colon →
    Scans (fun rounds i (_ : Unit) => nameStartFrom text colon rounds i) (colon + 1) i () j ()

theorem Leads.refl (text : List ℕ) (i : ℕ) : Leads text i i := fun _ _ => Scans.refl _ _ _ _

theorem Leads.blank (h : Leads text i j) (hat : text[j]? = some u) (hu : isSpace u = true) :
    Leads text i (j + 1) := by
  intro colon hcolon
  refine (h colon (by omega)).trans fun rounds hrounds => ⟨rounds, by omega, ?_⟩
  obtain ⟨r, rfl⟩ : ∃ r, rounds = r + 1 := ⟨rounds - 1, by omega⟩
  have hskip : skipWhile text isSpace colon (colon - j) j =
      skipWhile text isSpace colon (colon - (j + 1)) (j + 1) := by
    rw [show colon - j = colon - (j + 1) + 1 by omega, skipWhile,
      if_pos ⟨by omega, by rw [hat]; exact hu⟩]
  show nameStartFrom text colon (r + 1) j = nameStartFrom text colon (r + 1) (j + 1)
  unfold nameStartFrom
  rw [hskip]

theorem Leads.chunk (h : Leads text i j) {c : Chunk} (hc : Stands text j c.units) (hw : c.Written)
    (hends : c.Ends text[j + c.units.length]?)
    (hline : c.isLine = true → lineMayStart before = true) (hpre : Preceded text j before) :
    Leads text i (j + c.units.length) := by
  intro colon hcolon
  have hpos := c.length_pos
  refine (h colon (by omega)).trans (Scans.step (by omega) (by omega) fun rounds => ?_)
  have hskip := skip_chunk hc hw hends hline hpre hcolon
  have hstay : skipWhile text isSpace colon (colon - j) j = j := by
    refine skipWhile_stay _ ?_
    obtain ⟨v, us, hunits⟩ := List.exists_cons_of_ne_nil c.units_ne_nil
    rw [hunits] at hc
    rw [hc.head, Option.any_some]
    cases c with
    | string quote content =>
      cases hunits
      have hq := hw.1
      simp only [isQuote, Bool.or_eq_true, decide_eq_true_eq] at hq
      rcases hq with rfl | rfl <;> decide
    | comment content | lineComment content =>
      cases hunits
      decide
  have hne : j + c.units.length ≠ j := by omega
  show nameStartFrom text colon (rounds + 1) j = _
  simp only [nameStartFrom, hstay, hskip, hne, if_false]

/-- The name starts at the first unit that is no white space and starts no comment. -/
theorem nameStart_eq (colon : ℕ) (h : Leads text statementStart i) (hi : i ≤ colon)
    (hat : text[i]? = some u) (hspace : isSpace u = false) (hquote : isQuote u = false)
    (hslash : u ≠ 47) :
    nameStartFrom text colon (colon + 1 - statementStart) statementStart = i := by
  refine (h colon hi).answer (a := i) (fun rounds hrounds => ?_) (Nat.le_refl _)
  obtain ⟨r, rfl⟩ : ∃ r, rounds = r + 1 := ⟨rounds - 1, by omega⟩
  have hstay : skipWhile text isSpace colon (colon - i) i = i :=
    skipWhile_stay _ (by rw [hat]; exact hspace)
  show nameStartFrom text colon (r + 1) i = i
  simp only [nameStartFrom, hstay, skip_plain colon hat hquote hslash, if_true]

/-! ## One declaration -/

/-- How the code reads a declaration; `none` is a name that it does not take for one. -/
def WrittenDeclaration.read (declaration : WrittenDeclaration) : Option DirectDeclaration :=
  if isPropertyName declaration.name then
    some ⟨lowerName declaration.name, declaration.valueStart - declaration.gap.length +
      (declaration.gap.takeWhile isBlank).length⟩
  else none

theorem trimEnd_name {name space : List ℕ} (hname : name.all isNameUnit = true)
    (hspace : space.all isSpace = true) :
    ((name ++ space).reverse.dropWhile isSpace).reverse = name := by
  rw [List.reverse_append, List.dropWhile_append_of_pos fun u hu =>
    List.all_eq_true.1 hspace u (List.mem_reverse.1 hu)]
  have hnot : name.reverse.dropWhile isSpace = name.reverse := by
    cases hrev : name.reverse with
    | nil => rfl
    | cons v vs =>
      refine List.dropWhile_cons_of_neg ?_
      have hv : v ∈ name := List.mem_reverse.1 (hrev ▸ List.mem_cons_self)
      have hunit := List.all_eq_true.1 hname v hv
      intro hs
      simp only [isNameUnit, Bool.or_eq_true, Bool.and_eq_true, hs, Bool.not_true,
        Bool.false_eq_true, and_false, or_false] at hunit
      have hascii : v < 128 := by
        simp only [isNamePart, isNameStart, Bool.or_eq_true, Bool.and_eq_true,
          decide_eq_true_eq] at hunit
        omega
      have hall : ∀ w < 128, isNamePart w = true → isSpace w = false := by decide
      rw [hall v hascii hunit] at hs
      cases hs
  rw [hnot, List.reverse_reverse]

theorem isBlank_space (h : isBlank u = true) : isSpace u = true := by
  simp only [isBlank, decide_eq_true_eq] at h
  rcases h with rfl | rfl <;> decide

/-- What stands behind the blanks of a gap is none. -/
theorem not_blank_behind {gap : List ℕ} {value : Pieces} (hclosing : closing = 59 ∨ closing = 125)
    (hvalue : value.units.head?.all (fun u => !isSpace u) = true)
    (hst : Stands text i (gap ++ (value.units ++ [closing]))) :
    text[i + (gap.takeWhile isBlank).length]?.any isBlank = false := by
  rw [← List.takeWhile_append_dropWhile (p := isBlank) (l := gap), List.append_assoc] at hst
  have hhead := hst.right.head?_eq (by simp)
  rw [hhead]
  cases hdrop : gap.dropWhile isBlank with
  | cons w ws =>
    have hw := List.head?_dropWhile_not isBlank gap
    rw [hdrop] at hw
    simpa using hw
  | nil =>
    cases hunits : value.units with
    | nil => rcases hclosing with rfl | rfl <;> decide
    | cons v vs =>
      rw [hunits] at hvalue
      simp only [List.head?_cons, Option.all_some, Bool.not_eq_true'] at hvalue
      show isBlank v = false
      by_contra hne
      rw [isBlank_space (by simpa using hne)] at hvalue
      cases hvalue

theorem nameUnit_start {name : List ℕ} (hne : name ≠ []) (hname : name.all isNameUnit = true)
    {us : List ℕ} (hst : Stands text i (name ++ us)) :
    ∃ u, text[i]? = some u ∧ isSpace u = false ∧ isQuote u = false ∧ u ≠ 47 := by
  obtain ⟨v, vs, rfl⟩ := List.exists_cons_of_ne_nil hne
  have hunit := List.all_eq_true.1 hname v List.mem_cons_self
  obtain ⟨hquote, hslash, -⟩ := isQuiet_iff.1 (isNameUnit_quiet hunit).1
  refine ⟨v, hst.left.head, ?_, hquote, hslash⟩
  have htrim : (([v] ++ []).reverse.dropWhile isSpace).reverse = [v] :=
    trimEnd_name (by simpa using hunit) rfl
  by_contra hs
  rw [Bool.not_eq_false] at hs
  simp [hs] at htrim

theorem readDeclaration_eq {name space gap : List ℕ} {value : Pieces}
    (hlead : Leads text statementStart i) (hclosing : closing = 59 ∨ closing = 125)
    (hw : (Statement.declaration name space gap value).Written closing)
    (hst : Stands text i ((Statement.declaration name space gap value).units ++ [closing])) :
    readDeclaration text statementStart (i + name.length + space.length) =
      WrittenDeclaration.read
        ⟨name, gap, i + name.length + space.length + 1 + gap.length⟩ := by
  obtain ⟨hne, hname, hspace, -, hvalue, -⟩ := hw
  have hst0 : Stands text i (name ++ (space ++ 58 :: (gap ++ (value.units ++ [closing])))) := by
    simpa [Statement.units] using hst
  obtain ⟨u, hat, hus, hquote, hslash⟩ := nameUnit_start hne hname hst0
  have hstart := nameStart_eq (i + name.length + space.length) hlead (by omega) hat hus hquote
    hslash
  have hslice : (text.take (i + name.length + space.length)).drop i = name ++ space := by
    rw [← List.append_assoc] at hst0
    have := hst0.left.slice
    rwa [List.length_append, ← Nat.add_assoc] at this
  have hgap : Stands text (i + name.length + space.length + 1)
      (gap ++ (value.units ++ [closing])) := hst0.right.right.tail
  have hfits := hgap.stop_le (by simp)
  simp only [List.length_append, List.length_cons, List.length_nil] at hfits
  have hle : (gap.takeWhile isBlank).length ≤ gap.length := (List.takeWhile_sublist _).length_le
  have hblanks : Stands text (i + name.length + space.length + 1) (gap.takeWhile isBlank) := by
    have := hgap.left
    rw [← List.takeWhile_append_dropWhile (p := isBlank) (l := gap)] at this
    exact this.left
  have hrun : skipWhile text isBlank text.length (text.length - (i + name.length + space.length))
      (i + name.length + space.length + 1) = _ :=
    skipWhile_run List.all_takeWhile hblanks (by omega)
      (fun _ => not_blank_behind hclosing hvalue hgap) (by omega)
  unfold readDeclaration WrittenDeclaration.read
  simp only [hstart, hslice, trimEnd_name hname hspace]
  split
  · congr 2
    refine Eq.trans hrun ?_
    omega
  · rfl

/-- A statement that starts so is not read as a declaration. -/
theorem readDeclaration_other {colon : ℕ} (hlead : Leads text statementStart i) (hi : i < colon)
    (hat : text[i]? = some 64 ∨ text[i]? = some 36) :
    readDeclaration text statementStart colon = none := by
  have key : ∀ u, text[i]? = some u → isSpace u = false → isQuote u = false → u ≠ 47 →
      isNameStart u = false → u ≠ 45 → readDeclaration text statementStart colon = none := by
    intro u hu hs hq h47 hns h45
    have hstart := nameStart_eq colon hlead (Nat.le_of_lt hi) hu hs hq h47
    obtain ⟨hlt, hget⟩ := List.getElem?_eq_some_iff.1 hu
    have hslice : (text.take colon).drop i = u :: (text.take colon).drop (i + 1) := by
      have htake : i < (text.take colon).length := by
        rw [List.length_take]
        omega
      rw [List.drop_eq_getElem_cons htake, List.getElem_take, hget]
    unfold readDeclaration
    simp only [hstart, hslice]
    have htrim : ∃ rest, ((u :: (text.take colon).drop (i + 1)).reverse.dropWhile isSpace).reverse =
        u :: rest := by
      rw [List.reverse_cons, List.dropWhile_append]
      split
      · refine ⟨[], ?_⟩
        rw [List.dropWhile_cons_of_neg (by simp [hs])]
        rfl
      · exact ⟨_, by rw [List.reverse_append]; rfl⟩
    obtain ⟨rest, hrest⟩ := htrim
    rw [hrest, if_neg]
    unfold isPropertyName
    split
    · rename_i heq
      cases heq
      exact absurd rfl h45
    · rename_i heq
      cases heq
      exact absurd rfl h45
    · rename_i heq
      cases heq
      simp [hns]
    · rename_i heq
      cases heq
  rcases hat with h | h <;> exact key _ h (by decide) (by decide) (by decide) (by decide)
    (by decide)

/-! ## The scan -/

/-- What the scan over a block carries. -/
structure DirectState where
  statementStart : ℕ
  colon : Option ℕ
  parens : ℕ
  declarations : List DirectDeclaration

def directScan (text : List ℕ) (stop rounds i : ℕ) (s : DirectState) : List DirectDeclaration :=
  directDeclarationsFrom text stop rounds i s.statementStart s.colon s.parens s.declarations

/-- The declarations when the statement has come to its end. -/
def DirectState.finish (text : List ℕ) (s : DirectState) : List DirectDeclaration :=
  s.declarations ++ (s.colon.bind (readDeclaration text s.statementStart)).toList

variable {s : DirectState}

theorem direct_chunk (hi : i < stop) (hij : i < j) (hskip : skipQuotedOrComment text i stop = j) :
    Scans (directScan text stop) stop i s j s := by
  refine Scans.step hi hij fun rounds => ?_
  have hne : j ≠ i := by omega
  simp [directScan, directDeclarationsFrom, hi, hskip, hne]

theorem direct_unit (hi : i < stop) (h : text[i]? = some u)
    (hskip : skipQuotedOrComment text i stop = i) (hhash : u = 35 → text[i + 1]? ≠ some 123)
    (hopen : u ≠ 40) (hclose : u ≠ 41)
    (hdirect : s.parens = 0 → (u = 58 → s.colon ≠ none) ∧ u ≠ 59 ∧ u ≠ 123 ∧ u ≠ 125) :
    Scans (directScan text stop) stop i s (i + 1) s := by
  refine Scans.step hi (Nat.lt_succ_self i) fun rounds => ?_
  have hinter : ¬(decide (u = 35) && isAt text (i + 1) '{') = true := by
    intro hand
    simp only [Bool.and_eq_true, decide_eq_true_eq] at hand
    exact hhash hand.1 (of_decide_eq_true hand.2)
  by_cases hparens : 0 < s.parens
  · simp only [directScan, directDeclarationsFrom, if_pos hi, hskip, ne_eq, not_true, if_false,
      isAt_of_some h, Char.reduceToNat, if_neg hinter, hopen, hclose, decide_false,
      Bool.false_eq_true, if_pos hparens]
  · obtain ⟨hcolon, hsemi, hbrace, hbrace'⟩ := hdirect (by omega)
    have hnone : ¬(decide (u = 58) && s.colon.isNone) = true := by
      intro hand
      simp only [Bool.and_eq_true, decide_eq_true_eq, Option.isNone_iff_eq_none] at hand
      exact hcolon hand.1 hand.2
    simp only [directScan, directDeclarationsFrom, if_pos hi, hskip, ne_eq, not_true, if_false,
      isAt_of_some h, Char.reduceToNat, if_neg hinter, hopen, hclose, decide_false,
      Bool.false_eq_true, if_neg hparens, if_neg hnone, hsemi, hbrace, hbrace', Bool.or_self]

theorem direct_colon (hi : i < stop) (h : text[i]? = some 58) (hparens : s.parens = 0)
    (hcolon : s.colon = none) :
    Scans (directScan text stop) stop i s (i + 1) { s with colon := some i } := by
  refine Scans.step hi (Nat.lt_succ_self i) fun rounds => ?_
  have hskip := skip_plain stop h (by decide) (by decide)
  simp [directScan, directDeclarationsFrom, hi, hskip, isAt_of_some h, hparens, hcolon]

theorem direct_semicolon (hi : i < stop) (h : text[i]? = some 59) (hparens : s.parens = 0) :
    Scans (directScan text stop) stop i s (i + 1) ⟨i + 1, none, 0, s.finish text⟩ := by
  refine Scans.step hi (Nat.lt_succ_self i) fun rounds => ?_
  have hskip := skip_plain stop h (by decide) (by decide)
  simp [directScan, directDeclarationsFrom, hi, hskip, isAt_of_some h, hparens, DirectState.finish]

theorem direct_end (hi : i < stop) (h : text[i]? = some 125) (hparens : s.parens = 0) {rounds : ℕ}
    (hrounds : stop - i ≤ rounds) : directScan text stop rounds i s = s.finish text := by
  obtain ⟨r, rfl⟩ : ∃ r, rounds = r + 1 := ⟨rounds - 1, by omega⟩
  have hskip := skip_plain stop h (by decide) (by decide)
  simp [directScan, directDeclarationsFrom, hi, hskip, isAt_of_some h, hparens, DirectState.finish]

theorem direct_block (hi : i < stop) (hij : i < j) (h : text[i]? = some 123)
    (hparens : s.parens = 0) (hblock : skipBlock text i stop = j) :
    Scans (directScan text stop) stop i s j ⟨j, none, 0, s.declarations⟩ := by
  refine Scans.step hi hij fun rounds => ?_
  have hskip := skip_plain stop h (by decide) (by decide)
  simp [directScan, directDeclarationsFrom, hi, hskip, isAt_of_some h, hparens, hblock]

theorem direct_parens (hi : i < stop) (h : text[i]? = some 40 ∨ text[i]? = some 41) :
    Scans (directScan text stop) stop i s (i + 1)
      { s with parens := if text[i]? = some 40 then s.parens + 1 else s.parens - 1 } := by
  refine Scans.step hi (Nat.lt_succ_self i) fun rounds => ?_
  rcases h with h | h
  · have hskip := skip_plain stop h (by decide) (by decide)
    simp [directScan, directDeclarationsFrom, hi, hskip, isAt_of_some h, h]
  · have hskip := skip_plain stop h (by decide) (by decide)
    simp [directScan, directDeclarationsFrom, hi, hskip, isAt_of_some h, h]

theorem direct_interpolation {n : ℕ} (hstop : i + n + 3 ≤ stop) (hhash : text[i]? = some 35)
    (hopen : text[i + 1]? = some 123) (hclose : text[i + n + 2]? = some 125)
    (hinner : ∀ depth : ℤ, 0 < depth →
      Scans (skipBlockFrom text stop) stop (i + 2) depth (i + 2 + n) depth) :
    Scans (directScan text stop) stop i s (i + n + 3) s := by
  refine Scans.step (by omega) (by omega) fun rounds => ?_
  have hi : i < stop := by omega
  have hskip := skip_plain stop hhash (by decide) (by decide)
  have hend : skipInterpolation text i stop = i + n + 3 := by
    have := skipBlock_eq (i := i + 1) (n := n) (by omega : _ ≤ stop) hopen
      (by rw [show i + 1 + n + 1 = i + n + 2 by omega]; exact hclose) (hinner 1 (by decide))
    rw [skipInterpolation, this]
    omega
  simp [directScan, directDeclarationsFrom, hi, hskip, isAt_of_some hhash, isAt_of_some hopen, hend]

/-- The scan reads pieces of a statement; `C` is what is known of the colon found so far. -/
def IsDirect (statementStart : ℕ) (C : Option ℕ → Prop) (declarations : List DirectDeclaration)
    (d : ℕ) (s : DirectState) : Prop :=
  s.statementStart = statementStart ∧ C s.colon ∧ s.parens = d ∧ s.declarations = declarations

theorem directReader {C : Option ℕ → Prop} (statementStart : ℕ)
    (declarations : List DirectDeclaration)
    (hC : ∀ i, start ≤ i → text[i]? = some 58 → C none → C (some i)) :
    Reader text start stop false (directScan text stop)
      (IsDirect statementStart C declarations) where
  chunk hi hij hskip := fun s hs => ⟨s, hs, direct_chunk hi hij hskip⟩
  unit {i u d} hstart hi h hskip hhash hopen hclose hbrace hsemi := by
    rintro s ⟨h1, h2, h3, h4⟩
    by_cases hcolon : u = 58 ∧ s.colon = none ∧ s.parens = 0
    · obtain ⟨rfl, hnone, hparens⟩ := hcolon
      exact ⟨{ s with colon := some i }, ⟨h1, hC i hstart h (hnone ▸ h2), h3, h4⟩,
        direct_colon hi h hparens hnone⟩
    · refine ⟨s, ⟨h1, h2, h3, h4⟩, direct_unit hi h hskip hhash hopen hclose fun hparens => ?_⟩
      have hd : d = 0 := h3.symm.trans hparens
      exact ⟨fun hu hnone => hcolon ⟨hu, hnone, hparens⟩, hsemi hd, hbrace (.inl hd)⟩
  opens {i d} hi h _ := by
    rintro s ⟨h1, h2, h3, h4⟩
    refine ⟨{ s with parens := if text[i]? = some 40 then s.parens + 1 else s.parens - 1 },
      ⟨h1, h2, ?_, h4⟩, direct_parens hi (.inl h)⟩
    simp only [h, if_true, h3]
  closes {i d} hi h _ := by
    rintro s ⟨h1, h2, h3, h4⟩
    refine ⟨{ s with parens := if text[i]? = some 40 then s.parens + 1 else s.parens - 1 },
      ⟨h1, h2, ?_, h4⟩, direct_parens hi (.inr h)⟩
    have hne : (some 41 : Option ℕ) ≠ some 40 := by decide
    simp only [h, h3, if_neg hne, Nat.add_sub_cancel]
  interpolation hstop hhash hopen hclose hinner := fun s hs =>
    ⟨s, hs, direct_interpolation hstop hhash hopen hclose hinner⟩

/-! ## Over statements -/

/-- A statement comes to its end with the colon by which it is read as it is written. -/
theorem direct_statement {st : Statement} (declarations : List DirectDeclaration)
    (hlead : Leads text statementStart i) (hclosing : closing = 59 ∨ closing = 125)
    (hst : Stands text i (st.units ++ [closing])) (hw : st.Written closing)
    (hclear : st.Clear false before) (hpre : Preceded text i before)
    (hstop : i + st.units.length < stop) :
    ∃ colon, Scans (directScan text stop) stop i ⟨statementStart, none, 0, declarations⟩
        (i + st.units.length) ⟨statementStart, colon, 0, declarations⟩ ∧
      (colon.bind (readDeclaration text statementStart)).toList =
        (st.written i).filterMap WrittenDeclaration.read := by
  have hc : closing ≠ 42 ∧ closing ≠ 47 := by omega
  cases st with
  | declaration name space gap value =>
    have hread := readDeclaration_eq hlead hclosing hw hst
    obtain ⟨-, hname, hspace, hgap, -, hvalue⟩ := hw
    have hst0 : Stands text i ((name ++ space) ++ 58 :: (gap ++ (value.units ++ [closing]))) := by
      simpa [Statement.units] using hst
    have hlen : (Statement.declaration name space gap value).units.length =
        (name ++ space).length + 1 + gap.length + value.units.length := by
      simp [Statement.units]
      omega
    rw [hlen] at hstop ⊢
    have hquiet : ∀ j u, i ≤ j → j < stop → text[j]? = some u → u ∈ name ++ space →
        Passes (directScan text stop) stop (· = ⟨statementStart, none, 0, declarations⟩) j
          (· = ⟨statementStart, none, 0, declarations⟩) (j + 1) := by
      intro j u _ hj hat hmem
      have hu : isQuiet u = true ∧ u ≠ 58 := by
        rcases List.mem_append.1 hmem with hmem | hmem
        · exact isNameUnit_quiet (List.all_eq_true.1 hname u hmem)
        · exact isSpace_quiet (List.all_eq_true.1 hspace u hmem)
      obtain ⟨hquote, hslash, hhash, hopen, hclose, hsemi, hbrace⟩ := isQuiet_iff.1 hu.1
      refine Scans.passes (direct_unit hj hat (skip_plain stop hat hquote hslash)
        (fun h => absurd h hhash) hopen hclose fun _ => ⟨fun h => absurd h hu.2, hsemi, hbrace⟩) rfl
    have h1 := (passes_units hquiet hst0.left (by omega)).scans
    have hcolon : text[i + (name ++ space).length]? = some 58 := hst0.next
    have h2 := direct_colon (s := ⟨statementStart, none, 0, declarations⟩)
      (by omega : _ < stop) hcolon rfl rfl
    -- behind the colon the scan keeps it
    have R : Reader text 0 stop false (directScan text stop)
        (IsDirect statementStart (· = some (i + (name ++ space).length)) declarations) :=
      directReader statementStart declarations fun _ _ _ h => by cases h
    have hgapq : ∀ u ∈ gap, isQuiet u = true := fun u hu =>
      (isSpace_quiet (List.all_eq_true.1 hgap u hu)).1
    have hst1 := hst0.right.tail
    have h3 := R.quietUnits (d := 0) (Nat.zero_le _) hgapq hst1.left (by omega)
    have hpre' : Preceded text (i + (name ++ space).length + 1 + gap.length)
        (name ++ space ++ 58 :: gap).getLast? := by
      have hhead : Stands text i (name ++ space ++ 58 :: gap) := by
        rw [← List.cons_append, ← List.append_assoc] at hst0
        exact hst0.left
      have := Stands.preceded hhead (by simp)
      rwa [List.length_append, List.length_cons, ← Nat.add_assoc, ← Nat.add_assoc,
        Nat.add_right_comm] at this
    have h4 := R.pieces value (d := 0) (Nat.zero_le _) (fun h => by cases h) hc.1 hc.2 hst1.right
      hvalue hclear hpre' (by omega)
    obtain ⟨t, ⟨ht1, ht2, ht3, ht4⟩, h34⟩ := (h3.trans h4)
      ⟨statementStart, some (i + (name ++ space).length), 0, declarations⟩ ⟨rfl, rfl, rfl, rfl⟩
    obtain ⟨t1, t2, t3, t4⟩ := t
    simp only at ht1 ht2 ht3 ht4
    subst ht1 ht2 ht3 ht4
    refine ⟨some (i + (name ++ space).length), ?_, ?_⟩
    · have := (h1.trans h2).trans h34
      rwa [show i + (name ++ space).length + 1 + gap.length + value.units.length =
        i + ((name ++ space).length + 1 + gap.length + value.units.length) by omega] at this
    · rw [List.length_append, ← Nat.add_assoc, Option.bind_some, hread]
      simp only [Statement.written, List.filterMap_cons, List.filterMap_nil]
      split <;> simp_all
  | other pieces =>
    have hat : text[i]? = some 64 ∨ text[i]? = some 36 := by
      have hne : pieces.units ≠ [] := by
        intro hnil
        have := hw.1
        rw [hnil] at this
        rcases this with h | h <;> cases h
      have hpieces : Stands text i pieces.units := hst.left
      rw [hpieces.head?_eq hne]
      exact hw.1
    -- a colon is found behind the first unit only
    have hbehind : ∀ j, i ≤ j → text[j]? = some 58 → i < j := by
      intro j hj hcolon
      rcases Nat.lt_or_eq_of_le hj with hlt | rfl
      · exact hlt
      · rcases hat with h | h <;> (rw [h] at hcolon; cases hcolon)
    have R : Reader text i stop false (directScan text stop)
        (IsDirect statementStart (fun colon => ∀ c, colon = some c → i < c) declarations) :=
      directReader statementStart declarations fun j hj hcolon _ c hc => by
        cases hc
        exact hbehind j hj hcolon
    obtain ⟨t, ⟨ht1, ht2, ht3, ht4⟩, hscan⟩ := R.pieces pieces (Nat.le_refl i) (fun h => by cases h)
      hc.1 hc.2 hst hw.2 hclear hpre hstop ⟨statementStart, none, 0, declarations⟩
      ⟨rfl, fun c hc => absurd hc (by simp), rfl, rfl⟩
    obtain ⟨t1, colon, t3, t4⟩ := t
    simp only at ht1 ht2 ht3 ht4
    subst ht1 ht3 ht4
    refine ⟨colon, hscan, ?_⟩
    cases colon with
    | none => rfl
    | some c =>
      rw [Option.bind_some, readDeclaration_other hlead (ht2 c rfl) hat]
      rfl

/-! ## Over items -/

/-- The scan collects what the items declare themselves, read one by one. -/
theorem direct_items (items : Items) : ∀ {i statementStart : ℕ} {before : Option ℕ}
    (declarations : List DirectDeclaration), Leads text statementStart i →
    Stands text i (items.units ++ [125]) → items.Written → items.Clear false before →
    Preceded text i before → i + items.units.length < stop → ∀ rounds, stop - i ≤ rounds →
    directScan text stop rounds i ⟨statementStart, none, 0, declarations⟩ =
      declarations ++ (items.written i).filterMap WrittenDeclaration.read := by
  induction items with
  | nil =>
    intro i statementStart before declarations _ hst _ _ _ hstop rounds hrounds
    have hi : i < stop := hstop
    have hclose : text[i]? = some 125 := hst.head
    exact direct_end hi hclose rfl hrounds
  | blank u rest ih =>
    intro i statementStart before declarations hlead hst hw hclear _ hstop rounds hrounds
    rw [show (Items.blank u rest).units.length = rest.units.length + 1 from rfl] at hstop
    have hunit : text[i]? = some u := hst.head
    have hi : i < stop := by omega
    obtain ⟨hquiet, hcolon⟩ := isSpace_quiet hw.1
    obtain ⟨hquote, hslash, hhash, hopen, hclose, hsemi, hbrace⟩ := isQuiet_iff.1 hquiet
    have hstep : Scans (directScan text stop) stop i ⟨statementStart, none, 0, declarations⟩ (i + 1)
        ⟨statementStart, none, 0, declarations⟩ :=
      direct_unit hi hunit (skip_plain stop hunit hquote hslash) (fun h => absurd h hhash) hopen
        hclose fun _ => ⟨fun h => absurd h hcolon, hsemi, hbrace⟩
    exact hstep.answer (ih declarations (hlead.blank hunit hw.1) hst.tail hw.2 hclear
      (preceded_of_some hunit)
      (by omega)) hrounds
  | chunk c rest ih =>
    intro i statementStart before declarations hlead hst hw hclear hpre hstop rounds hrounds
    have hpos := c.length_pos
    rw [show (Items.chunk c rest).units = c.units ++ rest.units from rfl] at hst hstop
    rw [List.length_append] at hstop
    rw [List.append_assoc] at hst
    have hends := hw.2.1.of_head hst.right.left
    have hskip := skip_chunk hst.left hw.1 hends hclear.1 hpre (by omega : _ ≤ stop)
    have hstep : Scans (directScan text stop) stop i ⟨statementStart, none, 0, declarations⟩ _
        ⟨statementStart, none, 0, declarations⟩ := direct_chunk (by omega) (by omega) hskip
    exact hstep.answer (ih declarations (hlead.chunk hst.left hw.1 hends hclear.1 hpre) hst.right
      hw.2.2 hclear.2
      (Stands.preceded hst.left c.units_ne_nil) (by omega)) hrounds
  | statement st rest ih =>
    intro i statementStart before declarations hlead hst hw hclear hpre hstop rounds hrounds
    rw [show (Items.statement st rest).units = st.units ++ 59 :: rest.units from rfl] at hst hstop
    rw [List.length_append, List.length_cons] at hstop
    rw [List.append_assoc, List.cons_append] at hst
    obtain ⟨colon, hscan, hread⟩ := direct_statement declarations hlead (.inl rfl)
      hst.upto hw.1 hclear.1 hpre (by omega : _ < stop)
    have hsemi : text[i + st.units.length]? = some 59 := hst.next
    have hstep := direct_semicolon (s := ⟨statementStart, colon, 0, declarations⟩)
      (by omega : _ < stop) hsemi rfl
    refine ((hscan.trans hstep).answer (ih _ (Leads.refl text _) hst.right.tail hw.2 hclear.2
      (preceded_of_some hsemi) (by omega)) hrounds).trans ?_
    rw [DirectState.finish, hread, Items.written, List.filterMap_append, List.append_assoc]
  | last st =>
    intro i statementStart before declarations hlead hst hw hclear hpre hstop rounds hrounds
    obtain ⟨colon, hscan, hread⟩ := direct_statement declarations hlead (.inr rfl)
      hst hw hclear hpre hstop
    refine hscan.answer (fun rounds' hrounds' => ?_) hrounds
    have hlt : i + st.units.length < stop := hstop
    have hclose : text[i + st.units.length]? = some 125 := hst.right.head
    refine (direct_end hlt hclose rfl hrounds').trans ?_
    rw [DirectState.finish, hread]
    rfl
  | block prelude body rest _ ih =>
    intro i statementStart before declarations hlead hst hw hclear hpre hstop rounds hrounds
    obtain ⟨hwPrelude, hwBody, hwRest⟩ := hw
    obtain ⟨hcPrelude, hcBody, hcRest⟩ := hclear
    have hlen : (Items.block prelude body rest).units.length =
        prelude.units.length + body.units.length + rest.units.length + 2 := by
      simp [Items.units]
      omega
    rw [hlen] at hstop
    have hst0 : Stands text i (prelude.units ++ 123 :: (body.units ++ 125 ::
        (rest.units ++ [125]))) := by
      simpa [Items.units] using hst
    have hst1 := hst0.right.tail
    have hopen : text[i + prelude.units.length]? = some 123 := hst0.next
    have hclose : text[i + prelude.units.length + 1 + body.units.length]? = some 125 := hst1.next
    -- whatever colon the prelude has, the block drops it
    have R : Reader text 0 stop false (directScan text stop)
        (IsDirect statementStart (fun _ => True) declarations) :=
      directReader statementStart declarations fun _ _ _ _ => trivial
    obtain ⟨t, ⟨ht1, -, ht3, ht4⟩, hscan⟩ := R.pieces prelude (Nat.zero_le _) (fun h => by cases h)
      (by decide) (by decide) hst0.upto hwPrelude hcPrelude hpre (by omega)
      ⟨statementStart, none, 0, declarations⟩ ⟨rfl, trivial, rfl, rfl⟩
    have hinner := skipBlock_items body (by decide : (0 : ℤ) < 1) hst1.upto hwBody hcBody
      (preceded_of_some hopen) (by omega : _ < stop)
    have hblock := skipBlock_eq (by omega : _ ≤ stop) hopen
      (by rw [Nat.add_right_comm]; exact hclose) hinner
    have hstep := direct_block (s := t) (by omega : _ < stop) (by omega) hopen ht3 hblock
    have hrest := ih t.declarations (Leads.refl text _) hst1.right.tail hwRest hcRest
      (preceded_of_some hclose) (by omega)
    rw [show i + prelude.units.length + 1 + body.units.length + 1 =
      i + prelude.units.length + body.units.length + 2 by omega] at hrest
    refine ((hscan.trans hstep).answer hrest hrounds).trans ?_
    have hwritten : (prelude.units ++ 123 :: body.units ++ [125]).length =
        prelude.units.length + body.units.length + 2 := by
      simp
      omega
    rw [ht4, Items.written, hwritten, ← Nat.add_assoc, ← Nat.add_assoc]

end DeclarationValuePosition

end PinOp.Rules
