import PinOp.Css.PositionalShorthands
import PinOp.Lib.Cascade

/-!
# The cascade inside one rule

Of the declarations of a rule that have one name the cascade keeps the last, unless an earlier one
is important. A map keeps the place at which a name was written first, so that what is left stands
in the order of the first declarations: where that is not the order of the declarations that are
left, a longhand written last can lose to a shorthand written before it.
-/

namespace PinOp.Css

open PinOp.Lib

variable (spelling : CssSpelling)

/-- The name by which declarations of a rule supersede one another. -/
def cascadeName (d : CssDeclarationEvidence) : String :=
  let rawProperty := jsTrim d.property
  if rawProperty.startsWith "--" then rawProperty else spelling.toLowerCase rawProperty

/-- The declarations that no other one supersedes, in the order in which they are written. -/
def survivingDeclarations (ds : List CssDeclarationEvidence) : List CssDeclarationEvidence :=
  Cascade.survivors (cascadeName spelling) isImportant ds

/-- Of the longhands of a property the one that counts. -/
def survivingLonghands (entries : List NormalizedDeclaration) : List NormalizedDeclaration :=
  Cascade.survivors NormalizedDeclaration.property NormalizedDeclaration.important entries

/-- The longhand-wise cascade of a rule, in no order. -/
def ruleCascade (ds : List CssDeclarationEvidence) : List NormalizedDeclaration :=
  survivingLonghands ((survivingDeclarations spelling ds).flatMap (normalizeDeclaration spelling))

/-- That reading a rule keeps its cascade. -/
structure KeepsCascade (ds : List CssDeclarationEvidence) : Prop where
  longhands : (declarationFingerprint spelling (declarationsAfterInRuleCascade spelling ds)).Perm
    (ruleCascade spelling ds)
  sorted : (declarationFingerprint spelling (declarationsAfterInRuleCascade spelling ds)).Pairwise
    fun left right => spelling.localeCompare left.property right.property ≤ 0
  written : declarationsAfterInRuleCascade spelling ds = survivingDeclarations spelling ds
  empty : declarationFingerprint spelling (declarationsAfterInRuleCascade spelling ds) = [] →
    ds = [] ∨ ∃ d ∈ survivingDeclarations spelling ds, normalizeDeclaration spelling d = []

/-- The name under which a fingerprint has a declaration once. -/
def declaredName (d : CssDeclarationEvidence) : String := spelling.toLowerCase (jsTrim d.property)

/-- All that survives can be normalised, and has different names whatever their case. -/
def AllRead (ds : List CssDeclarationEvidence) : Prop :=
  (∀ d ∈ survivingDeclarations spelling ds, normalizeDeclaration spelling d ≠ []) ∧
    ((survivingDeclarations spelling ds).map (declaredName spelling)).Nodup

def NoneRead (ds : List CssDeclarationEvidence) : Prop :=
  ∀ d ∈ survivingDeclarations spelling ds, normalizeDeclaration spelling d = []

instance (ds : List CssDeclarationEvidence) : Decidable (AllRead spelling ds) :=
  inferInstanceAs (Decidable (_ ∧ _))

instance (ds : List CssDeclarationEvidence) : Decidable (NoneRead spelling ds) :=
  inferInstanceAs (Decidable (∀ d ∈ _, _))

/-! ## What the loops leave -/

theorem declarationsAfterInRuleCascade_eq (ds : List CssDeclarationEvidence) :
    declarationsAfterInRuleCascade spelling ds =
      Cascade.values (Cascade.winners (cascadeName spelling) isImportant ds) := rfl

theorem settleOverlaps_perm (entries : List NormalizedDeclaration) :
    (settleOverlaps entries).Perm (survivingLonghands entries) :=
  Cascade.values_perm entries

theorem written_iff (ds : List CssDeclarationEvidence) :
    declarationsAfterInRuleCascade spelling ds = survivingDeclarations spelling ds ↔
      Cascade.InOrder (cascadeName spelling) isImportant ds := by
  rw [declarationsAfterInRuleCascade_eq]
  exact Cascade.values_eq_survivors_iff ds

variable {spelling}

/-- The loop goes through where every declaration can be read and none is met again. -/
theorem normalizeEach_eq_some {declared : List String} {ds : List CssDeclarationEvidence}
    (hread : ∀ d ∈ ds, normalizeDeclaration spelling d ≠ [])
    (hnames : (ds.map (declaredName spelling)).Nodup)
    (hnew : ∀ d ∈ ds, declaredName spelling d ∉ declared) :
    normalizeEach spelling declared ds = some (ds.flatMap (normalizeDeclaration spelling)) := by
  induction ds generalizing declared with
  | nil => rfl
  | cons d ds ih =>
    rw [List.map_cons, List.nodup_cons] at hnames
    have hd := hnew d List.mem_cons_self
    rw [normalizeEach]
    split
    · rename_i he
      exact absurd he (hread d List.mem_cons_self)
    · have hcontains : declared.contains (spelling.toLowerCase (jsTrim d.property)) = false := by
        simpa [declaredName] using hd
      simp only [hcontains, Bool.false_eq_true, if_false]
      rw [ih (fun e he => hread e (List.mem_cons_of_mem _ he)) hnames.2, Option.map_some,
        List.flatMap_cons]
      intro e he hm
      rcases List.mem_cons.mp hm with hm | hm
      · exact hnames.1 (List.mem_map.mpr ⟨e, he, hm⟩)
      · exact hnew e (List.mem_cons_of_mem _ he) hm

/-- Where the loop goes through, that is so. -/
theorem of_normalizeEach_isSome {declared : List String} {ds : List CssDeclarationEvidence}
    (h : (normalizeEach spelling declared ds).isSome) :
    (∀ d ∈ ds, normalizeDeclaration spelling d ≠ [] ∧ declaredName spelling d ∉ declared) ∧
      (ds.map (declaredName spelling)).Nodup := by
  induction ds generalizing declared with
  | nil => exact ⟨fun _ hd => absurd hd List.not_mem_nil, List.nodup_nil⟩
  | cons d ds ih =>
    rw [normalizeEach] at h
    split at h
    · cases h
    · rename_i hread
      dsimp only at h
      split at h
      · cases h
      · rename_i hnew
        rw [Option.isSome_map] at h
        obtain ⟨hall, hnames⟩ := ih h
        have hd : declaredName spelling d ∉ declared := by simpa [declaredName] using hnew
        refine ⟨fun e he => ?_, List.nodup_cons.mpr ⟨fun hm => ?_, hnames⟩⟩
        · rcases List.mem_cons.mp he with rfl | he
          · exact ⟨hread, hd⟩
          · exact ⟨(hall e he).1, fun hm => (hall e he).2 (List.mem_cons_of_mem _ hm)⟩
        · obtain ⟨e, he, hen⟩ := List.mem_map.mp hm
          exact (hall e he).2 (hen ▸ List.mem_cons_self)

theorem normalizeEach_isSome_iff (ds : List CssDeclarationEvidence) :
    (normalizeEach spelling [] ds).isSome ↔
      (∀ d ∈ ds, normalizeDeclaration spelling d ≠ []) ∧
        (ds.map (declaredName spelling)).Nodup := by
  constructor
  · intro h
    have hall := of_normalizeEach_isSome h
    exact ⟨fun d hd => (hall.1 d hd).1, hall.2⟩
  · rintro ⟨hread, hnames⟩
    rw [normalizeEach_eq_some hread hnames fun _ _ => List.not_mem_nil]
    rfl

/-- Something survives of what is not empty. -/
theorem survivors_ne_nil {α κ : Type} [DecidableEq κ] {key : α → κ} {important : α → Bool}
    {xs : List α} (h : xs ≠ []) : Cascade.survivors key important xs ≠ [] := by
  intro he
  obtain ⟨x, xs', rfl⟩ := List.exists_cons_of_ne_nil h
  have hk : key x ∈ (Cascade.winners key important (x :: xs')).keys :=
    ((Cascade.agrees (x :: xs')).keys _).mpr List.mem_cons_self
  rw [← Cascade.map_key_values] at hk
  obtain ⟨y, hy, -⟩ := List.mem_map.mp hk
  rw [Cascade.mem_values, he] at hy
  cases hy

theorem ruleCascade_eq_nil {ds : List CssDeclarationEvidence} :
    ruleCascade spelling ds = [] ↔ NoneRead spelling ds := by
  constructor
  · intro h
    have hentries : (survivingDeclarations spelling ds).flatMap (normalizeDeclaration spelling) =
        [] := by
      by_contra hne
      exact survivors_ne_nil hne h
    exact List.flatMap_eq_nil_iff.mp hentries
  · intro h
    rw [ruleCascade, List.flatMap_eq_nil_iff.mpr h]
    rfl

theorem declarationFingerprint_perm {ds : List CssDeclarationEvidence}
    (hread : ∀ d ∈ ds, normalizeDeclaration spelling d ≠ [])
    (hnames : (ds.map (declaredName spelling)).Nodup) :
    (declarationFingerprint spelling ds).Perm
      (survivingLonghands (ds.flatMap (normalizeDeclaration spelling))) := by
  rw [declarationFingerprint, normalizeEach_eq_some hread hnames fun _ _ => List.not_mem_nil]
  exact (List.mergeSort_perm _ _).trans (settleOverlaps_perm _)

theorem declarationFingerprint_unread {ds : List CssDeclarationEvidence}
    (h : ¬ ((∀ d ∈ ds, normalizeDeclaration spelling d ≠ []) ∧
      (ds.map (declaredName spelling)).Nodup)) : declarationFingerprint spelling ds = [] := by
  rw [← normalizeEach_isSome_iff, Option.not_isSome_iff_eq_none] at h
  rw [declarationFingerprint, h]

theorem declarationFingerprint_sorted (hcompare : IsComparator spelling.localeCompare)
    (ds : List CssDeclarationEvidence) :
    (declarationFingerprint spelling ds).Pairwise fun left right =>
      spelling.localeCompare left.property right.property ≤ 0 := by
  rw [declarationFingerprint]
  split
  · exact List.Pairwise.nil
  · have hentries : IsComparator (compareDeclarations spelling) :=
      ((hcompare.comap NormalizedDeclaration.property).orNext
        (hcompare.comap NormalizedDeclaration.value)).orNext
          (IsComparator.ascending fun d : NormalizedDeclaration => if d.important then (1 : ℤ) else 0)
    refine (List.pairwise_mergeSort ?_ ?_ _).imp ?_
    · intro a b c hab hbc
      exact decide_eq_true (hentries.trans a b c (of_decide_eq_true hab) (of_decide_eq_true hbc))
    · intro a b
      simpa using hentries.total a b
    · intro a b hab
      have hab := of_decide_eq_true hab
      by_contra hlt
      have hne : spelling.localeCompare a.property b.property ≠ 0 := by omega
      rw [compareDeclarations, orNext, orNext, if_pos hne, if_pos hne] at hab
      exact hlt hab

/-! ## When the cascade is kept -/

/-- The cascade of a rule is kept just when the names of its declarations come in one order, by
their first declarations and by the ones that survive, and either all that survives can be read,
under names that differ in more than their case, or none of it. -/
theorem keepsCascade_iff (hcompare : IsComparator spelling.localeCompare)
    (ds : List CssDeclarationEvidence) :
    KeepsCascade spelling ds ↔ Cascade.InOrder (cascadeName spelling) isImportant ds ∧
      (AllRead spelling ds ∨ NoneRead spelling ds) := by
  constructor
  · intro h
    refine ⟨(written_iff spelling ds).mp h.written, ?_⟩
    by_cases hall : AllRead spelling ds
    · exact .inl hall
    · have hperm := h.longhands
      rw [h.written, declarationFingerprint_unread hall] at hperm
      exact .inr (ruleCascade_eq_nil.mp hperm.nil_eq.symm)
  · rintro ⟨horder, hread⟩
    have hwritten := (written_iff spelling ds).mpr horder
    have hperm : (declarationFingerprint spelling (survivingDeclarations spelling ds)).Perm
        (ruleCascade spelling ds) := by
      by_cases hall : AllRead spelling ds
      · exact declarationFingerprint_perm hall.1 hall.2
      · rw [declarationFingerprint_unread hall, ruleCascade_eq_nil.mpr (hread.resolve_left hall)]
    refine ⟨hwritten ▸ hperm, declarationFingerprint_sorted hcompare _, hwritten, fun hempty => ?_⟩
    rw [hwritten] at hempty
    rw [hempty] at hperm
    have hnone := ruleCascade_eq_nil.mp hperm.nil_eq.symm
    by_cases hds : ds = []
    · exact .inl hds
    · obtain ⟨d, hd⟩ := List.exists_mem_of_ne_nil _
        (@survivors_ne_nil _ _ _ (cascadeName spelling) isImportant _ hds)
      exact .inr ⟨d, hd, hnone d hd⟩

/-- The box shorthands are read, and nothing else is. -/
def boxSpelling : CssSpelling where
  toLowerCase := jsToLowerCase
  localeCompare := compareText
  normalizeSelector := some
  normalizeCssValue := id
  longhands := positionalLonghands

def declared (property value : String) : CssDeclarationEvidence :=
  ⟨property, value, some false, some true⟩

theorem isImportant_declared (property value : String) :
    isImportant (declared property value) = false := rfl

theorem keepsCascade_iff_sample :
    KeepsCascade boxSpelling [declared "margin" "0", declared "margin-left" "1px",
      declared "Margin-Left" "2px"] := by
  have hmargin : cascadeName boxSpelling (declared "margin" "0") = "margin" := by decide +kernel
  have hleft : cascadeName boxSpelling (declared "margin-left" "1px") = "margin-left" := by
    decide +kernel
  have hupper : cascadeName boxSpelling (declared "Margin-Left" "2px") = "margin-left" := by
    decide +kernel
  have hsurviving : survivingDeclarations boxSpelling [declared "margin" "0",
      declared "margin-left" "1px", declared "Margin-Left" "2px"] =
        [declared "margin" "0", declared "Margin-Left" "2px"] := by
    simp [survivingDeclarations, Cascade.survivors, Cascade.survivorsFrom, Cascade.superseded,
      Cascade.overtakes, Cascade.outlasts, hmargin, hleft, hupper, isImportant_declared]
  refine (@keepsCascade_iff boxSpelling (IsComparator.text id) _).mpr ⟨?_, .inl ⟨?_, ?_⟩⟩
  · rw [Cascade.InOrder, ← survivingDeclarations, hsurviving]
    simp only [List.map_cons, List.map_nil, hmargin, hleft, hupper]
    decide
  · rw [hsurviving]
    intro d hd
    rcases List.mem_pair.mp hd with rfl | rfl
    · decide +kernel
    · decide +kernel
  · rw [hsurviving]
    have hread : declaredName boxSpelling (declared "margin" "0") = "margin" := by
      decide +kernel
    have hread' : declaredName boxSpelling (declared "Margin-Left" "2px") = "margin-left" := by
      decide +kernel
    simp only [List.map_cons, List.map_nil, hread, hread']
    decide

/-- The margin on the left that is written last is lost. -/
theorem keepsCascade_fails :
    ¬ KeepsCascade boxSpelling [declared "margin-left" "1px", declared "margin" "0",
      declared "margin-left" "2px"] ∧
      (declarationFingerprint boxSpelling (declarationsAfterInRuleCascade boxSpelling
        [declared "margin-left" "1px", declared "margin" "0", declared "margin-left" "2px"])).Perm
          [⟨"margin-bottom", "0", false⟩, ⟨"margin-left", "0", false⟩, ⟨"margin-right", "0", false⟩,
            ⟨"margin-top", "0", false⟩] := by
  constructor
  · intro h
    exact absurd h.written (by decide +kernel)
  · exact (declarationFingerprint_perm (by decide +kernel) (by decide +kernel)).trans
      (by decide +kernel)

end PinOp.Css
