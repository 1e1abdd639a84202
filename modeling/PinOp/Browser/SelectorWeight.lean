import PinOp.Browser.MatchedRules

/-!
# The weight of a rule

A rule weighs as much as the heaviest branch of its selector list that matches the element, as
long as all branches that match can be weighed.
-/

namespace PinOp.Browser

open PinOp.Lib

/-- The weight of a branch that matches, where no other one is heavier; none where no branch
matches. -/
def IsHeaviest (host : SelectorHost) (branches : List String) :
    Option SelectorSpecificity → Prop
  | none => ∀ branch ∈ branches, host.matches branch = false
  | some weight =>
    (∃ branch ∈ branches, host.matches branch = true ∧ specificityFor host branch = some weight) ∧
      ∀ branch ∈ branches, host.matches branch = true →
        ∀ other, specificityFor host branch = some other → compareSpecificity other weight ≤ 0

theorem IsHeaviest.eq {host : SelectorHost} {branches branches' : List String}
    (hperm : branches.Perm branches') {left right : Option SelectorSpecificity}
    (hleft : IsHeaviest host branches left) (hright : IsHeaviest host branches' right) :
    left = right := by
  cases left with
  | none =>
    cases right with
    | none => rfl
    | some weight =>
      obtain ⟨⟨branch, hbranch, hmatches, -⟩, -⟩ := hright
      rw [hleft branch (hperm.mem_iff.mpr hbranch)] at hmatches
      cases hmatches
  | some weight =>
    obtain ⟨⟨branch, hbranch, hmatches, hweight⟩, hall⟩ := hleft
    cases right with
    | none =>
      rw [hright branch (hperm.mem_iff.mp hbranch)] at hmatches
      cases hmatches
    | some weight' =>
      obtain ⟨⟨branch', hbranch', hmatches', hweight'⟩, hall'⟩ := hright
      have hle := hall branch' (hperm.mem_iff.mpr hbranch') hmatches' _ hweight'
      have hle' := hall' branch (hperm.mem_iff.mp hbranch) hmatches _ hweight
      have hswap := compareSpecificity_isComparator.swap weight weight'
      rw [@compareSpecificity_eq_zero weight weight' |>.mp (by omega)]

theorem IsHeaviest.skip {host : SelectorHost} {branches : List String} {branch : String}
    {found : Option SelectorSpecificity} (h : IsHeaviest host branches found)
    (hmatches : host.matches branch = false) : IsHeaviest host (branches ++ [branch]) found := by
  cases found with
  | none =>
    intro b hb
    rcases List.mem_append.mp hb with hb | hb
    · exact h b hb
    · rw [List.mem_singleton.mp hb, hmatches]
  | some weight =>
    obtain ⟨⟨b, hb, hmatch, hweight⟩, hall⟩ := h
    refine ⟨⟨b, List.mem_append_left _ hb, hmatch, hweight⟩, fun c hc hc' => ?_⟩
    rcases List.mem_append.mp hc with hc | hc
    · exact hall c hc hc'
    · rw [List.mem_singleton.mp hc, hmatches] at hc'
      cases hc'

theorem IsHeaviest.add {host : SelectorHost} {branches : List String} {branch : String}
    {found : Option SelectorSpecificity} (h : IsHeaviest host branches found)
    (hmatches : host.matches branch = true) {next : SelectorSpecificity}
    (hnext : specificityFor host branch = some next) :
    IsHeaviest host (branches ++ [branch])
      (if found.all fun weight => 0 < compareSpecificity next weight then some next
        else found) := by
  have hcompare := compareSpecificity_isComparator
  have hself : compareSpecificity next next = 0 := compareSpecificity_eq_zero.mpr rfl
  have hlast : branch ∈ branches ++ [branch] := List.mem_append_right _ (List.mem_singleton_self _)
  cases found with
  | none =>
    refine ⟨⟨branch, hlast, hmatches, hnext⟩, fun b hb hb' other hother => ?_⟩
    rcases List.mem_append.mp hb with hb | hb
    · rw [h b hb] at hb'
      cases hb'
    · rw [List.mem_singleton.mp hb, hnext, Option.some.injEq] at hother
      exact hother ▸ hself.le
  | some weight =>
    obtain ⟨⟨b, hb, hmatch, hweight⟩, hall⟩ := h
    have hold : ∀ c ∈ branches ++ [branch], host.matches c = true →
        ∀ other, specificityFor host c = some other →
          compareSpecificity other weight ≤ 0 ∨ other = next := by
      intro c hc hc' other hother
      rcases List.mem_append.mp hc with hc | hc
      · exact .inl (hall c hc hc' other hother)
      · rw [List.mem_singleton.mp hc, hnext, Option.some.injEq] at hother
        exact .inr hother.symm
    rw [Option.all_some]
    by_cases hheavier : 0 < compareSpecificity next weight
    · rw [if_pos (decide_eq_true hheavier)]
      refine ⟨⟨branch, hlast, hmatches, hnext⟩, fun c hc hc' other hother => ?_⟩
      rcases hold c hc hc' other hother with hle | rfl
      · have hswap := hcompare.swap weight next
        exact hcompare.trans _ _ _ hle (by omega)
      · exact hself.le
    · rw [if_neg (by simpa using hheavier)]
      refine ⟨⟨b, List.mem_append_left _ hb, hmatch, hweight⟩, fun c hc hc' other hother => ?_⟩
      rcases hold c hc hc' other hother with hle | rfl
      · exact hle
      · omega

end PinOp.Browser
