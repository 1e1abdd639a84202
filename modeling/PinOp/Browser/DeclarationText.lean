import Mathlib.Data.List.DropRight
import PinOp.Browser.AuthoredDeclarations
import PinOp.Lib.RegexFirstMatch

/-!
# The text of one declaration

A declaration is printed as `name: value;` or `name: value !important;`. A text that begins with
the name and a colon is read back with that name, and the whole text is read back with the trimmed
value; only a value that itself ends as the priority does may be taken for an important one.
-/

namespace PinOp.Browser

open PinOp.Lib PinOp.Lib.Regex
open PinOp.Protocol (jsLength)

/-! ## Trimming -/

/-- `trim` on the characters. -/
def trimmed (s : List Char) : List Char := (s.dropWhile isJsSpace).rdropWhile isJsSpace

theorem jsTrim_eq (value : String) : jsTrim value = String.ofList (trimmed value.toList) := rfl

theorem toList_jsTrim (value : String) : (jsTrim value).toList = trimmed value.toList := by
  rw [jsTrim_eq, String.toList_ofList]

section

variable {s t : List Char}

theorem trimmed_append_left (h : ∀ c ∈ s, isJsSpace c = true) : trimmed (s ++ t) = trimmed t := by
  rw [trimmed, List.dropWhile_append, List.dropWhile_eq_nil_iff.mpr h]
  rfl

/-- A text without spaces at its ends stays. -/
theorem trimmed_eq_self (hhead : ∀ c ∈ s.head?, isJsSpace c = false)
    (hlast : ∀ c ∈ s.getLast?, isJsSpace c = false) : trimmed s = s := by
  have hdrop : s.dropWhile isJsSpace = s := by
    cases s with
    | nil => rfl
    | cons c s => rw [List.dropWhile_cons_of_neg (by simpa using hhead c rfl)]
  rw [trimmed, hdrop, List.rdropWhile_eq_self_iff]
  intro hne
  simpa using hlast _ (List.getLast_mem_getLast? hne)

theorem trimmed_head (s : List Char) : ∀ c ∈ (trimmed s).head?, isJsSpace c = false := by
  intro c hc
  obtain ⟨rest, hrest⟩ : trimmed s <+: s.dropWhile isJsSpace := List.rdropWhile_prefix isJsSpace _
  have hnot := List.head?_dropWhile_not isJsSpace s
  rw [← hrest, List.head?_append, Option.mem_def.mp hc] at hnot
  exact hnot

theorem trimmed_last (s : List Char) : ∀ c ∈ (trimmed s).getLast?, isJsSpace c = false := by
  intro c hc
  obtain ⟨hne, he⟩ := List.mem_getLast?_eq_getLast hc
  have hnot := List.rdropWhile_last_not isJsSpace (s.dropWhile isJsSpace) hne
  rw [he]
  exact Bool.eq_false_of_not_eq_true hnot

theorem trimmed_trimmed (s : List Char) : trimmed (trimmed s) = trimmed s :=
  trimmed_eq_self (trimmed_head s) (trimmed_last s)

/-- Only spaces stand around what is left. -/
theorem exists_eq_trimmed (s : List Char) : ∃ a z, s = a ++ trimmed s ++ z ∧
    (∀ c ∈ a, isJsSpace c = true) ∧ ∀ c ∈ z, isJsSpace c = true := by
  refine ⟨s.takeWhile isJsSpace, (s.dropWhile isJsSpace).rtakeWhile isJsSpace, ?_,
    fun c hc => List.mem_takeWhile_imp hc, fun c hc => List.mem_rtakeWhile_imp hc⟩
  rw [trimmed, List.append_assoc, List.rdropWhile_append_rtakeWhile,
    List.takeWhile_append_dropWhile]

end

/-! ## The priority -/

def priority : List Char := ['i', 'm', 'p', 'o', 'r', 't', 'a', 'n', 't']

/-- ` !important` -/
def importantMark : List Char := ' ' :: '!' :: priority

/-- `/^\s*!\s*important\s*$/i` -/
def EndsImportant (t : List Char) : Prop :=
  ∃ a b w z : List Char, t = a ++ '!' :: (b ++ (w ++ z)) ∧ (∀ c ∈ a, isJsSpace c = true) ∧
    (∀ c ∈ b, isJsSpace c = true) ∧ (∀ c ∈ z, isJsSpace c = true) ∧
      w.map Char.toLower = priority

theorem matches_space {s : List Char} :
    (star space).Matches s ↔ ∀ c ∈ s, isJsSpace c = true := matches_star_chars

theorem matches_bang {s : List Char} : (lit "!").Matches s ↔ s = ['!'] := by
  have htext : "!".toList = ['!'] := rfl
  rw [lit, htext, matches_cat_chars]
  constructor
  · intro h
    cases h with
    | cons hx hrest =>
      cases hrest
      rw [of_decide_eq_true hx]
  · rintro rfl
    exact .cons rfl .nil

theorem matches_priority {s : List Char} :
    (litFold "important").Matches s ↔ s.map Char.toLower = priority := by
  have htext : "important".toList.map Char.toLower = priority := by decide
  rw [matches_litFold, ← htext, ← List.forall₂_eq_eq_eq, List.forall₂_map_left_iff,
    List.forall₂_map_right_iff]
  exact ⟨fun h => h.flip, fun h => h.flip⟩

theorem matchesAt_importantSuffix {t : List Char} :
    importantSuffix.matchesAt t = true ↔ EndsImportant t := by
  constructor
  · intro h
    obtain ⟨x, h⟩ := Option.isSome_iff_exists.mp h
    obtain ⟨a, t₁, c₁, rfl, ha, h⟩ := run_sound (star space) _ _ _ x h
    obtain ⟨bang, t₂, c₂, rfl, hbang, h⟩ := run_sound (lit "!") _ _ _ x h
    obtain ⟨b, t₃, c₃, rfl, hb, h⟩ := run_sound (star space) _ _ _ x h
    obtain ⟨w, t₄, c₄, rfl, hw, h⟩ := run_sound (litFold "important") _ _ _ x h
    obtain ⟨z, t₅, c₅, rfl, hz, h⟩ := run_sound (star space) _ _ _ x h
    rw [matches_bang.mp hbang]
    have hend : t₅ = [] := by
      cases t₅ with
      | nil => rfl
      | cons _ _ => cases h
    refine ⟨a, b, w, z, by rw [hend]; simp, matches_space.mp ha, matches_space.mp hb,
      matches_space.mp hz, matches_priority.mp hw⟩
  · rintro ⟨a, b, w, z, rfl, ha, hb, hz, hw⟩
    have hspace : (star space).EosFree := trivial
    have hend (c : Captures) : ((cat [star space, eos]).run c z fun _ _ => some ()).isSome := by
      have h := isSome_run hspace z [] (fun c s => (cat [eos]).run c s fun _ _ => some ())
        (matches_space.mpr hz) (fun _ => rfl) c
      rwa [List.append_nil] at h
    have hword := isSome_run (r := litFold "important") (by simp [litFold, cat, EosFree]) w z
      (fun c s => (cat [star space, eos]).run c s fun _ _ => some ()) (matches_priority.mpr hw) hend
    have hgap := isSome_run hspace b (w ++ z)
      (fun c s => (cat [litFold "important", star space, eos]).run c s fun _ _ => some ())
      (matches_space.mpr hb) hword
    have hbang := isSome_run (r := lit "!") (by simp [lit, cat, EosFree]) ['!'] (b ++ (w ++ z))
      (fun c s => (cat [star space, litFold "important", star space, eos]).run c s
        fun _ _ => some ()) (matches_bang.mpr rfl) hgap
    exact isSome_run hspace a ('!' :: (b ++ (w ++ z)))
      (fun c s => (cat [lit "!", star space, litFold "important", star space, eos]).run c s
        fun _ _ => some ()) (matches_space.mpr ha) hbang []

/-- What stands behind the mark has no further one. -/
theorem EndsImportant.split {t : List Char} (h : EndsImportant t) :
    ∃ a r, t = a ++ '!' :: r ∧ (∀ c ∈ a, isJsSpace c = true) ∧ '!' ∉ r := by
  obtain ⟨a, b, w, z, rfl, ha, hb, hz, hw⟩ := h
  refine ⟨a, _, rfl, ha, fun hin => ?_⟩
  have hspace : isJsSpace '!' = false := by decide
  rcases List.mem_append.mp hin with hin | hin
  · rw [hb _ hin] at hspace
    cases hspace
  rcases List.mem_append.mp hin with hin | hin
  · have hlower := List.mem_map_of_mem (f := Char.toLower) hin
    rw [hw] at hlower
    exact absurd hlower (by decide)
  · rw [hz _ hin] at hspace
    cases hspace

theorem append_cons_left_injective {x x' r r' : List Char} {c : Char} (hr : c ∉ r) (hr' : c ∉ r')
    (h : x ++ c :: r = x' ++ c :: r') : x = x' := by
  induction x generalizing x' with
  | nil =>
    cases x' with
    | nil => rfl
    | cons d x' =>
      rw [List.nil_append, List.cons_append, List.cons.injEq] at h
      exact absurd (h.2 ▸ List.mem_append_right _ List.mem_cons_self) hr
  | cons d x ih =>
    cases x' with
    | nil =>
      rw [List.nil_append, List.cons_append, List.cons.injEq] at h
      exact absurd (h.2 ▸ List.mem_append_right _ List.mem_cons_self) hr'
    | cons d' x' =>
      rw [List.cons_append, List.cons_append, List.cons.injEq] at h
      rw [h.1, ih h.2]

theorem endsImportant_mark {z : List Char} (hz : ∀ c ∈ z, isJsSpace c = true) :
    EndsImportant (z ++ importantMark) := by
  have htext : z ++ importantMark = (z ++ [' ']) ++ '!' :: ([] ++ (priority ++ [])) := by
    rw [importantMark, List.append_nil, List.nil_append, List.append_assoc, List.singleton_append]
  refine ⟨z ++ [' '], [], priority, [], htext, fun c hc => ?_, by simp, by simp, by decide⟩
  rcases List.mem_append.mp hc with hc | hc
  · exact hz c hc
  · rw [List.mem_singleton.mp hc]
    decide

/-- Before the mark behind a trimmed text the priority does not begin. -/
theorem beforeMatch_mark {core z : List Char} (hcore : trimmed core = core)
    (hz : ∀ c ∈ z, isJsSpace c = true) :
    beforeMatch importantSuffix (core ++ (z ++ importantMark)) = some core := by
  refine beforeMatch_of_first (matchesAt_importantSuffix.mpr (endsImportant_mark hz)) ?_
  intro b₁ b₂ he hne
  rw [Bool.eq_false_iff, ne_eq, matchesAt_importantSuffix]
  intro hends
  obtain ⟨a, r, hsplit, ha, hr⟩ := hends.split
  have hleft : b₂ ++ (z ++ importantMark) = (b₂ ++ (z ++ [' '])) ++ '!' :: priority := by
    rw [importantMark, List.append_assoc, List.append_assoc, List.singleton_append]
  rw [hleft] at hsplit
  have hsame := append_cons_left_injective (by decide) hr hsplit
  have hlast : b₂.getLast hne ∈ core.getLast? := by
    rw [he, List.getLast?_append_of_ne_nil _ hne]
    exact List.getLast_mem_getLast? hne
  rw [← hcore] at hlast
  have hspace := ha _ (hsame ▸ List.mem_append_left _ (List.getLast_mem hne))
  rw [trimmed_last core _ hlast] at hspace
  cases hspace

/-- The priority of a printed declaration is found behind its value. -/
theorem beforeMatch_important (value : List Char) :
    beforeMatch importantSuffix (trimmed (' ' :: (value ++ importantMark))) =
      some (trimmed value) := by
  obtain ⟨a, z, he, ha, hz⟩ := exists_eq_trimmed value
  have hspace : isJsSpace ' ' = true := by decide
  have hleft : ∀ c ∈ ' ' :: a, isJsSpace c = true := by
    intro c hc
    rcases List.mem_cons.mp hc with rfl | hc
    · exact hspace
    · exact ha c hc
  have hsplit : ' ' :: (value ++ importantMark) =
      (' ' :: a) ++ (trimmed value ++ (z ++ importantMark)) := by
    rw [he, List.append_assoc, List.append_assoc, List.cons_append, ← he]
  rw [hsplit, trimmed_append_left hleft]
  by_cases hempty : trimmed value = []
  · have hmark : z ++ importantMark = (z ++ [' ']) ++ '!' :: priority := by
      rw [importantMark, List.append_assoc, List.singleton_append]
    have hleft' : ∀ c ∈ z ++ [' '], isJsSpace c = true := by
      intro c hc
      rcases List.mem_append.mp hc with hc | hc
      · exact hz c hc
      · rwa [List.mem_singleton.mp hc]
    have hself : trimmed ('!' :: priority) = '!' :: priority := by decide
    rw [hempty, List.nil_append, hmark, trimmed_append_left hleft', hself]
    refine beforeMatch_of_first (b := []) (matchesAt_importantSuffix.mpr ?_) fun b₁ b₂ hb hne => ?_
    · exact ⟨[], [], priority, [], by simp, by simp, by simp, by simp, by decide⟩
    · exact absurd (List.append_eq_nil_iff.mp hb.symm).2 hne
  · have hself : trimmed (trimmed value ++ (z ++ importantMark)) =
        trimmed value ++ (z ++ importantMark) := by
      refine trimmed_eq_self (fun c hc => ?_) fun c hc => ?_
      · rw [List.head?_append_of_ne_nil _ hempty] at hc
        exact trimmed_head value c hc
      · rw [← List.append_assoc, List.getLast?_append_of_ne_nil _ (by simp [importantMark])] at hc
        rw [← Option.mem_some.mp hc]
        decide
    rw [hself]
    exact beforeMatch_mark (trimmed_trimmed value) hz

/-! ## Names -/

/-- A character that means nothing to the loops over a text. -/
def isInert (c : Char) : Bool :=
  !isQuote c && c ≠ '\\' && c ≠ '(' && c ≠ ')' && c ≠ ':' && c ≠ ';'

/-- A character of the name of a property. -/
def isNameChar (c : Char) : Bool := isInert c && !isJsSpace c

theorem isInert_of_space {c : Char} (h : isJsSpace c = true) : isInert c = true := by
  have hne : ∀ d : Char, isJsSpace d = false → c ≠ d := by
    rintro d hd rfl
    rw [h] at hd
    cases hd
  have hquote : isQuote c = false := by
    have hdouble := hne (Char.ofNat 0x22) (by decide)
    have hsingle := hne (Char.ofNat 0x27) (by decide)
    have htexts : PinOp.Css.doubleQuote.toList = [Char.ofNat 0x22] ∧
        PinOp.Css.singleQuote.toList = [Char.ofNat 0x27] := ⟨rfl, rfl⟩
    simp [isQuote, htexts.1, htexts.2, hdouble, hsingle]
  simp [isInert, hquote, hne '\\' (by decide), hne '(' (by decide), hne ')' (by decide),
    hne ':' (by decide), hne ';' (by decide)]

theorem topLevelColonFrom_inert {rest : List Char} : ∀ {s : List Char} {index : ℕ},
    (∀ c ∈ s, isInert c = true) →
      topLevelColonFrom none false 0 index (s ++ ':' :: rest) = some (index + s.length)
  | [], _, _ => rfl
  | c :: s, index, h => by
    have hc := h c List.mem_cons_self
    simp only [isInert, Bool.and_eq_true, Bool.not_eq_true', decide_eq_true_eq] at hc
    obtain ⟨⟨⟨⟨⟨hquote, hescape⟩, hleft⟩, hright⟩, hcolon⟩, -⟩ := hc
    rw [List.cons_append, topLevelColonFrom]
    simp only [Bool.false_eq_true, if_false, hescape, hquote, hleft, hright, hcolon, false_and]
    rw [topLevelColonFrom_inert fun c hc => h c (List.mem_cons_of_mem _ hc), List.length_cons]
    congr 1
    omega

/-- What is read of a text that begins with a name and a colon. -/
theorem parseDeclaration_name {gap name w : List Char} {entry : ParsedDeclaration}
    (hgap : ∀ c ∈ gap, isJsSpace c = true) (hname : ∀ c ∈ name, isNameChar c = true)
    (h : parseDeclaration (gap ++ (name ++ ':' :: w)) = some entry) :
    entry.property = String.ofList name ∧
      (∀ before, beforeMatch importantSuffix (trimmed w) = some before →
        entry.value = String.ofList (trimmed before) ∧ entry.important = true) ∧
      (beforeMatch importantSuffix (trimmed w) = none →
        entry.value = String.ofList (trimmed w) ∧ entry.important = false) := by
  have hinert : ∀ c ∈ gap ++ name, isInert c = true := by
    intro c hc
    rcases List.mem_append.mp hc with hc | hc
    · exact isInert_of_space (hgap c hc)
    · exact (Bool.and_eq_true_iff.mp (hname c hc)).1
  have hnospace : ∀ c ∈ name, isJsSpace c = false := fun c hc => by
    simpa using (Bool.and_eq_true_iff.mp (hname c hc)).2
  have hcolon : topLevelColon (gap ++ (name ++ ':' :: w)) = some (gap ++ name).length := by
    rw [← List.append_assoc, topLevelColon, topLevelColonFrom_inert hinert, Nat.zero_add]
  have htake : (gap ++ (name ++ ':' :: w)).take (gap ++ name).length = gap ++ name := by
    rw [← List.append_assoc, List.take_left]
  have hdrop : (gap ++ (name ++ ':' :: w)).drop ((gap ++ name).length + 1) = w := by
    rw [← List.append_assoc, ← List.drop_drop, List.drop_left]
    rfl
  have hproperty : trimmed (gap ++ name) = name := by
    rw [trimmed_append_left hgap]
    exact trimmed_eq_self (fun c hc => hnospace c (List.mem_of_mem_head? hc))
      fun c hc => hnospace c (List.mem_of_mem_getLast? hc)
  rw [parseDeclaration, hcolon] at h
  dsimp only at h
  rw [htake, hdrop] at h
  simp only [jsTrim_eq, String.toList_ofList, hproperty] at h
  split at h
  · cases h
  cases hbefore : beforeMatch importantSuffix (trimmed w) with
  | some before =>
    rw [hbefore] at h
    dsimp only at h
    split_ifs at h
    cases h
    exact ⟨rfl, fun _ he => Option.some.inj he ▸ ⟨rfl, rfl⟩, fun he => nomatch he⟩
  | none =>
    rw [hbefore] at h
    dsimp only at h
    split_ifs at h
    cases h
    exact ⟨rfl, (fun _ he => nomatch he), fun _ => ⟨rfl, rfl⟩⟩

end PinOp.Browser
