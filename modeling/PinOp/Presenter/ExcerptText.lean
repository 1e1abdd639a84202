import PinOp.Lib.CodeUnits

/-!
# The text of an excerpt

An excerpt is cut to a number of logical lines, then to a number of bytes; it is never cut inside
of a scalar or of a line ending. `boundedExcerpt_spec` says what of the text is left.
-/

namespace PinOp.Presenter

open PinOp.Lib

namespace PresentationLimits

def «matches» : ℕ := 32
def textBytes : ℕ := 8 * 1024
def textLines : ℕ := 80
def envelopeMaxBytes : ℕ := 256 * 1024

end PresentationLimits

structure BoundedText where
  text : List ℕ
  truncated : Bool
  deriving DecidableEq

/-- Where `/\r\n|\r|\n/g` matches from `index` on. -/
def endingsFrom : ℕ → List ℕ → List ℕ
  | _, [] => []
  | index, [u] => if u = 13 ∨ u = 10 then [index] else []
  | index, u :: v :: rest =>
    if u = 13 ∧ v = 10 then index :: endingsFrom (index + 2) rest
    else if u = 13 ∨ u = 10 then index :: endingsFrom (index + 1) (v :: rest)
    else endingsFrom (index + 1) (v :: rest)

/-- The loop over the endings. -/
def boundLinesLoop (text : List ℕ) (maximumLines : ℕ) : ℕ → List ℕ → BoundedText
  | _, [] => ⟨text, false⟩
  | lineCount, index :: endings =>
    if maximumLines < lineCount + 1 then ⟨text.take index, true⟩
    else boundLinesLoop text maximumLines (lineCount + 1) endings

def boundLogicalLines (text : List ℕ) (maximumLines : ℕ) : BoundedText :=
  boundLinesLoop text maximumLines 1 (endingsFrom 0 text)

/-- The loop over the scalars of the text; what it has so far stands in front. -/
def boundUtf8Loop (maximumBytes : ℕ) : ℕ → List (List ℕ) → List (List ℕ) → BoundedText
  | _, taken, [] => ⟨taken.flatten, false⟩
  | bytes, taken, scalar :: rest =>
    let scalarLength := scalarBytes (safeScalar scalar)
    if maximumBytes < bytes + scalarLength then ⟨taken.flatten, true⟩
    else boundUtf8Loop maximumBytes (bytes + scalarLength) (taken ++ [safeScalar scalar]) rest

def boundUtf8 (text : List ℕ) (maximumBytes : ℕ) : BoundedText :=
  boundUtf8Loop maximumBytes 0 [] (scalars text)

def boundedExcerpt (text : List ℕ) : BoundedText :=
  let lineBounded := boundLogicalLines text PresentationLimits.textLines
  let byteBounded := boundUtf8 lineBounded.text PresentationLimits.textBytes
  ⟨byteBounded.text, lineBounded.truncated || byteBounded.truncated⟩

/-- The lines of a text, of which an ending ends all but the last. -/
def logicalLines (text : List ℕ) : ℕ := (endingsFrom 0 text).length + 1

/-! ## Line endings -/

/-- A unit that does not start a pair of units stands for itself. -/
theorem endingsFrom_cons {u : ℕ} {rest : List ℕ} (index : ℕ)
    (h : ¬ (u = 13 ∧ rest.head? = some 10)) :
    endingsFrom index (u :: rest) =
      (if u = 13 ∨ u = 10 then [index] else []) ++ endingsFrom (index + 1) rest := by
  cases rest with
  | nil => rw [endingsFrom, endingsFrom, List.append_nil]
  | cons v rest =>
    rw [endingsFrom, if_neg fun hpair => h ⟨hpair.1, congrArg some hpair.2⟩]
    split
    · rfl
    · rfl

/-- What is cut in front of an ending has the endings before it. -/
theorem endingsFrom_take {text before after : List ℕ} {index stop : ℕ}
    (h : endingsFrom index text = before ++ stop :: after) :
    index ≤ stop ∧ stop - index < text.length ∧
      endingsFrom index (text.take (stop - index)) = before := by
  fun_induction endingsFrom index text generalizing before with
  | case1 index => simp at h
  | case2 index u hu =>
    obtain ⟨rfl, hrest⟩ | ⟨before', rfl, hrest⟩ := List.cons_eq_append_iff.mp h
    · obtain rfl := (List.cons.inj hrest).1
      simp [endingsFrom]
    · simp at hrest
  | case3 index u hu => simp at h
  | case4 index u v rest hpair ih =>
    obtain ⟨rfl, hrest⟩ | ⟨before', rfl, hrest⟩ := List.cons_eq_append_iff.mp h
    · obtain rfl := (List.cons.inj hrest).1
      simp [endingsFrom]
    · obtain ⟨hle, hlt, htake⟩ := ih hrest
      have hstop : stop - index = stop - (index + 2) + 2 := by omega
      refine ⟨by omega, by rw [List.length_cons, List.length_cons]; omega, ?_⟩
      rw [hstop, List.take_succ_cons, List.take_succ_cons, endingsFrom, if_pos hpair, htake]
  | case5 index u v rest hpair hu ih =>
    obtain ⟨rfl, hrest⟩ | ⟨before', rfl, hrest⟩ := List.cons_eq_append_iff.mp h
    · obtain rfl := (List.cons.inj hrest).1
      simp [endingsFrom]
    · obtain ⟨hle, hlt, htake⟩ := ih hrest
      have hstop : stop - index = stop - (index + 1) + 1 := by omega
      have hhead : ¬ (u = 13 ∧ ((v :: rest).take (stop - (index + 1))).head? = some 10) := by
        rintro ⟨hu', hv⟩
        exact hpair ⟨hu', by cases hk : stop - (index + 1) <;> simp [hk] at hv; exact hv⟩
      refine ⟨by omega, by rw [List.length_cons]; omega, ?_⟩
      rw [hstop, List.take_succ_cons, endingsFrom_cons index hhead, if_pos hu, htake]
      rfl
  | case6 index u v rest hpair hu ih =>
    obtain ⟨hle, hlt, htake⟩ := ih h
    have hstop : stop - index = stop - (index + 1) + 1 := by omega
    have hhead : ¬ (u = 13 ∧ ((v :: rest).take (stop - (index + 1))).head? = some 10) :=
      fun hu' => hu (.inl hu'.1)
    refine ⟨by omega, by rw [List.length_cons]; omega, ?_⟩
    rw [hstop, List.take_succ_cons, endingsFrom_cons index hhead, if_neg hu, htake]
    rfl

/-- A prefix has no more endings. -/
theorem length_endingsFrom_le (index : ℕ) (text rest : List ℕ) :
    (endingsFrom index text).length ≤ (endingsFrom index (text ++ rest)).length := by
  fun_induction endingsFrom index text with
  | case1 index => exact Nat.zero_le _
  | case2 index u hu =>
    rw [List.singleton_append]
    by_cases hpair : u = 13 ∧ rest.head? = some 10
    · obtain ⟨rest', rfl⟩ := List.head?_eq_some_iff.mp hpair.2
      rw [endingsFrom, if_pos ⟨hpair.1, rfl⟩]
      simp
    · rw [endingsFrom_cons index hpair, if_pos hu]
      simp
  | case3 index u hu => exact Nat.zero_le _
  | case4 index u v rest' hpair ih =>
    rw [List.cons_append, List.cons_append, endingsFrom, if_pos hpair]
    exact Nat.succ_le_succ ih
  | case5 index u v rest' hpair hu ih =>
    rw [List.cons_append, List.cons_append, endingsFrom, if_neg hpair, if_pos hu]
    exact Nat.succ_le_succ ih
  | case6 index u v rest' hpair hu ih =>
    rw [List.cons_append, List.cons_append, endingsFrom, if_neg hpair, if_neg hu]
    exact ih

/-- Only carriage returns and line feeds count. -/
theorem endingsFrom_congr {text text' : List ℕ} (index : ℕ)
    (h : List.Forall₂ (fun u v => (u = 13 ↔ v = 13) ∧ (u = 10 ↔ v = 10)) text text') :
    endingsFrom index text = endingsFrom index text' := by
  fun_induction endingsFrom index text generalizing text' with
  | case1 index =>
    cases h
    rfl
  | case2 index u hu =>
    obtain ⟨w, ws, hw, hws, rfl⟩ := List.forall₂_cons_left_iff.mp h
    cases hws
    rw [endingsFrom, if_pos (by rwa [← hw.1, ← hw.2])]
  | case3 index u hu =>
    obtain ⟨w, ws, hw, hws, rfl⟩ := List.forall₂_cons_left_iff.mp h
    cases hws
    rw [endingsFrom, if_neg (by rwa [← hw.1, ← hw.2])]
  | case4 index u v rest hpair ih =>
    obtain ⟨w, ws, hw, hws, rfl⟩ := List.forall₂_cons_left_iff.mp h
    obtain ⟨x, xs, hx, hxs, rfl⟩ := List.forall₂_cons_left_iff.mp hws
    rw [endingsFrom, if_pos (by rwa [← hw.1, ← hx.2]), ih hxs]
  | case5 index u v rest hpair hu ih =>
    obtain ⟨w, ws, hw, hws, rfl⟩ := List.forall₂_cons_left_iff.mp h
    obtain ⟨x, xs, hx, hxs, rfl⟩ := List.forall₂_cons_left_iff.mp hws
    rw [endingsFrom, if_neg (by rwa [← hw.1, ← hx.2]), if_pos (by rwa [← hw.1, ← hw.2]), ih hws]
  | case6 index u v rest hpair hu ih =>
    obtain ⟨w, ws, hw, hws, rfl⟩ := List.forall₂_cons_left_iff.mp h
    obtain ⟨x, xs, hx, hxs, rfl⟩ := List.forall₂_cons_left_iff.mp hws
    rw [endingsFrom, if_neg (by rwa [← hw.1, ← hx.2]), if_neg (by rwa [← hw.1, ← hw.2]), ih hws]

theorem endingsFrom_toWellFormed (index : ℕ) (text : List ℕ) :
    endingsFrom index (toWellFormed text) = endingsFrom index text := by
  refine (endingsFrom_congr index ?_).symm
  have hall : ∀ ss : List (List ℕ), (∀ s ∈ ss, IsScalar s) →
      List.Forall₂ (fun u v => (u = 13 ↔ v = 13) ∧ (u = 10 ↔ v = 10)) ss.flatten
        (ss.flatMap safeScalar) := by
    intro ss hss
    induction ss with
    | nil => exact .nil
    | cons s ss ih =>
      have hrest := ih fun x hx => hss x (List.mem_cons_of_mem _ hx)
      rw [List.flatten_cons, List.flatMap_cons]
      rcases hss s List.mem_cons_self with ⟨u, rfl⟩ | ⟨u, v, -, -, rfl⟩
      · rw [safeScalar_singleton]
        split
        · rename_i hu
          refine .cons ?_ hrest
          simp only [isSurrogate, decide_eq_true_eq] at hu
          constructor <;> constructor <;> intro <;> omega
        · exact .cons ⟨Iff.rfl, Iff.rfl⟩ hrest
      · exact .cons ⟨Iff.rfl, Iff.rfl⟩ (.cons ⟨Iff.rfl, Iff.rfl⟩ hrest)
  have h := hall (scalars text) fun _ hs => isScalar_of_mem hs
  rwa [flatten_scalars] at h

/-! ## What is left of a text -/

/-- A text cut to its lines. -/
structure LineBounded (text : List ℕ) (maximumLines : ℕ) (bounded : BoundedText) : Prop where
  isPrefix : bounded.text <+: text
  lines : logicalLines bounded.text ≤ maximumLines
  truncated : bounded.truncated = true ↔ maximumLines < logicalLines text
  complete : bounded.truncated = true ↔ bounded.text ≠ text

theorem boundLinesLoop_spec {text : List ℕ} {maximumLines : ℕ} {endings : List ℕ} :
    ∀ {before : List ℕ}, endingsFrom 0 text = before ++ endings →
      before.length + 1 ≤ maximumLines →
        LineBounded text maximumLines
          (boundLinesLoop text maximumLines (before.length + 1) endings) := by
  induction endings with
  | nil =>
    intro before hendings hlines
    have hlogical : logicalLines text ≤ maximumLines := by
      rw [logicalLines, hendings, List.append_nil]
      exact hlines
    exact ⟨List.prefix_refl _, hlogical, by simp [boundLinesLoop]; omega,
      by simp [boundLinesLoop]⟩
  | cons stop endings ih =>
    intro before hendings hlines
    have hlogical : logicalLines text = before.length + endings.length + 2 := by
      rw [logicalLines, hendings, List.length_append, List.length_cons]
      omega
    rw [boundLinesLoop]
    split
    · obtain ⟨-, hlt, htake⟩ := endingsFrom_take hendings
      rw [Nat.sub_zero] at hlt htake
      refine ⟨List.take_prefix _ _, ?_, ?_, ?_⟩
      · rw [logicalLines, htake]
        exact hlines
      · refine ⟨fun _ => by omega, fun _ => rfl⟩
      · refine ⟨fun _ hsame => ?_, fun _ => rfl⟩
        have hlength := congrArg List.length hsame
        rw [List.length_take] at hlength
        omega
    · have hnext := @ih (before ++ [stop]) (by rw [hendings, List.append_assoc]; rfl)
        (by rw [List.length_append, List.length_singleton]; omega)
      rwa [List.length_append, List.length_singleton] at hnext

theorem boundLogicalLines_spec (text : List ℕ) {maximumLines : ℕ} (h : 0 < maximumLines) :
    LineBounded text maximumLines (boundLogicalLines text maximumLines) :=
  @boundLinesLoop_spec text maximumLines (endingsFrom 0 text) [] rfl h

/-- As many scalars are taken as there are bytes for. -/
theorem boundUtf8Loop_spec {maximumBytes : ℕ} {rest : List (List ℕ)} :
    ∀ {bytes : ℕ} {taken : List (List ℕ)}, bytes ≤ maximumBytes →
      ∃ k ≤ rest.length,
        (boundUtf8Loop maximumBytes bytes taken rest).text =
          taken.flatten ++ (rest.take k).flatMap safeScalar ∧
        bytes + ((rest.take k).map fun scalar => scalarBytes (safeScalar scalar)).sum ≤
          maximumBytes ∧
        ((boundUtf8Loop maximumBytes bytes taken rest).truncated = true ↔ k < rest.length) ∧
        ((boundUtf8Loop maximumBytes bytes taken rest).truncated = true ↔
          maximumBytes <
            bytes + (rest.map fun scalar => scalarBytes (safeScalar scalar)).sum) := by
  induction rest with
  | nil =>
    intro bytes taken hbytes
    exact ⟨0, le_rfl, by simp [boundUtf8Loop], hbytes, by simp [boundUtf8Loop],
      by simp [boundUtf8Loop]; omega⟩
  | cons scalar rest ih =>
    intro bytes taken hbytes
    rw [boundUtf8Loop]
    split
    · rename_i hfull
      refine ⟨0, Nat.zero_le _, by simp, by simpa using hbytes, by simp, ?_⟩
      rw [List.map_cons, List.sum_cons]
      exact ⟨fun _ => by omega, fun _ => rfl⟩
    · rename_i hroom
      obtain ⟨k, hk, htext, hsum, hcut, hfull⟩ :=
        @ih (bytes + scalarBytes (safeScalar scalar)) (taken ++ [safeScalar scalar]) (by omega)
      refine ⟨k + 1, Nat.succ_le_succ hk, ?_, ?_, ?_, ?_⟩
      · rw [htext, List.take_succ_cons, List.flatMap_cons, List.flatten_append,
          List.flatten_singleton, List.append_assoc]
      · rw [List.take_succ_cons, List.map_cons, List.sum_cons]
        omega
      · rw [hcut, List.length_cons]
        omega
      · rw [hfull, List.map_cons, List.sum_cons, Nat.add_assoc]

/-- A text cut to its bytes, each lone surrogate replaced. -/
theorem boundUtf8_spec (text : List ℕ) (maximumBytes : ℕ) :
    ∃ cut, cut <+: text ∧ (boundUtf8 text maximumBytes).text = toWellFormed cut ∧
      utf8Length cut ≤ maximumBytes ∧
      ((boundUtf8 text maximumBytes).truncated = true ↔ cut ≠ text) ∧
      ((boundUtf8 text maximumBytes).truncated = true ↔ maximumBytes < utf8Length text) := by
  obtain ⟨k, hk, htext, hsum, hcut, hfull⟩ :=
    @boundUtf8Loop_spec maximumBytes (scalars text) 0 [] (Nat.zero_le _)
  have hpre := flatten_take_isPrefix text k
  refine ⟨((scalars text).take k).flatten, hpre, ?_, ?_, ?_, ?_⟩
  · rw [boundUtf8, htext, toWellFormed, scalars_take]
    rfl
  · rw [utf8Length, scalars_take]
    omega
  · rw [boundUtf8, hcut]
    constructor
    · intro hlt hsame
      have hscalars := scalars_take text k
      rw [hsame] at hscalars
      have hlength := congrArg List.length hscalars
      rw [List.length_take] at hlength
      omega
    · intro hne
      by_contra hge
      refine hne ?_
      rw [List.take_of_length_le (by omega), flatten_scalars]
  · rw [boundUtf8, hfull, Nat.zero_add]
    rfl

/-- An excerpt is a prefix of the text within both bounds, and is marked when it is not all. -/
theorem boundedExcerpt_spec (text : List ℕ) :
    ∃ cut, cut <+: text ∧ (boundedExcerpt text).text = toWellFormed cut ∧
      logicalLines (boundedExcerpt text).text ≤ PresentationLimits.textLines ∧
      utf8Length (boundedExcerpt text).text ≤ PresentationLimits.textBytes ∧
      ((boundedExcerpt text).truncated = true ↔ cut ≠ text) ∧
      ((boundedExcerpt text).truncated = true ↔
        PresentationLimits.textLines < logicalLines text ∨
          PresentationLimits.textBytes < utf8Length text) := by
  have hlines := @boundLogicalLines_spec text PresentationLimits.textLines (by decide)
  unfold boundedExcerpt
  dsimp only
  generalize boundLogicalLines text PresentationLimits.textLines = lineBounded at hlines ⊢
  obtain ⟨cut, hcut, htext, hbytes, hshort, hfull⟩ :=
    boundUtf8_spec lineBounded.text PresentationLimits.textBytes
  refine ⟨cut, hcut.trans hlines.isPrefix, htext, ?_, ?_, ?_, ?_⟩
  · rw [htext, logicalLines, endingsFrom_toWellFormed]
    obtain ⟨rest, hrest⟩ := hcut
    have hle := length_endingsFrom_le 0 cut rest
    have hmax := hlines.lines
    rw [hrest] at hle
    rw [logicalLines] at hmax
    omega
  · rw [htext, utf8Length_toWellFormed]
    exact hbytes
  · rw [Bool.or_eq_true, hshort, hlines.complete]
    constructor
    · rintro (hne | hne) rfl
      · exact hne (hlines.isPrefix.eq_of_length_le hcut.length_le)
      · exact hne (hcut.eq_of_length_le hlines.isPrefix.length_le)
    · intro hne
      by_cases hline : lineBounded.text = text
      · exact .inr (hline ▸ hne)
      · exact .inl hline
  · rw [Bool.or_eq_true, hfull, hlines.truncated]
    by_cases hline : lineBounded.text = text
    · rw [hline]
    · have hmany := hlines.truncated.mp (hlines.complete.mpr hline)
      exact ⟨fun _ => .inl hmany, fun _ => .inl hmany⟩

end PinOp.Presenter
