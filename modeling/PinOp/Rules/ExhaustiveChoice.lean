import Mathlib.Data.Prod.Lex
import PinOp.Rules.RulesStylesheetLocator

/-!
# The located file is the exhaustive choice

A file stands for a served stylesheet by the reported rules it carries, then by the path it
shares with the URL, then by the rules that stand where the browser said. The locator looks
at few files only: `chooseRanked_spec` shows that none it skipped stands higher than the one
it chose, since a file carries no more rules than it mentions, and `closestFile_spec` that
none stands higher than a closest file that carries everything.
-/

namespace PinOp.Rules

open PinOp.Lib PinOp.Protocol

/-! ## Comparisons -/

theorem isComparator_compareRanked : IsComparator compareRanked :=
  (((IsComparator.descending RankedStylesheetCandidate.selectors).orNext
    (.descending RankedStylesheetCandidate.pathSimilarity)).orNext
    (.descending RankedStylesheetCandidate.declarations)).orNext
    (.text RankedStylesheetCandidate.uri)

theorem isComparator_compareVerified : IsComparator compareVerified :=
  ((IsComparator.descending VerifiedCandidate.verified).orNext
    (.descending VerifiedCandidate.pathSimilarity)).orNext
    (.descending VerifiedCandidate.corroborated)

/-- How a file stands: rules carried, path shared, rules in their place. -/
abbrev Standing := ℕ ×ₗ ℕ ×ₗ ℕ

def standing (verified similarity corroborated : ℕ) : Standing :=
  toLex (verified, toLex (similarity, corroborated))

def VerifiedCandidate.standing (c : VerifiedCandidate) : Standing :=
  PinOp.Rules.standing c.verified c.pathSimilarity c.corroborated

theorem standing_lt {v s c v' s' c' : ℕ} :
    standing v s c < standing v' s' c' ↔ v < v' ∨ v = v' ∧ (s < s' ∨ s = s' ∧ c < c') := by
  rw [standing, standing, Prod.Lex.toLex_lt_toLex, Prod.Lex.toLex_lt_toLex]

theorem compareVerified_le {a b : VerifiedCandidate} :
    compareVerified a b ≤ 0 ↔ b.standing ≤ a.standing := by
  simp only [VerifiedCandidate.standing, standing, Prod.Lex.toLex_le_toLex, compareVerified, orNext]
  split
  · omega
  · split
    · omega
    · omega

theorem compareVerified_eq {a b : VerifiedCandidate} :
    compareVerified a b = 0 ↔ a.standing = b.standing := by
  have hswap := isComparator_compareVerified.swap a b
  have hanti : a.standing = b.standing ↔ compareVerified b a ≤ 0 ∧ compareVerified a b ≤ 0 := by
    rw [compareVerified_le, compareVerified_le, le_antisymm_iff]
  rw [hanti]
  omega

/-- A candidate ranked behind another mentions no more selectors, and shares no more of the path
if it mentions as many. -/
theorem le_of_not_compareRanked {a b : RankedStylesheetCandidate} (h : ¬ compareRanked b a < 0) :
    b.selectors < a.selectors ∨
      b.selectors = a.selectors ∧ b.pathSimilarity ≤ a.pathSimilarity := by
  rw [isComparator_compareRanked.not_lt_iff] at h
  simp only [compareRanked, orNext] at h
  split at h
  · omega
  · split at h
    · omega
    · omega

instance : Std.Total fun left right => ¬ compareRanked right left < 0 where
  total a b := by
    rw [isComparator_compareRanked.not_lt_iff, isComparator_compareRanked.not_lt_iff]
    exact isComparator_compareRanked.total a b

instance : IsTrans RankedStylesheetCandidate fun left right => ¬ compareRanked right left < 0 where
  trans a b c := by
    simp only [isComparator_compareRanked.not_lt_iff]
    exact isComparator_compareRanked.trans a b c

instance : Std.Total fun left right => compareVerified left right ≤ 0 :=
  isComparator_compareVerified.isTotal

instance : IsTrans VerifiedCandidate fun left right => compareVerified left right ≤ 0 :=
  isComparator_compareVerified.isTrans

/-- Behind a best that does not tie with the next, everything stands lower. -/
theorem standing_lt_of_mem {best v : VerifiedCandidate} {others : List VerifiedCandidate}
    (hsorted : (best :: others).Pairwise fun left right => compareVerified left right ≤ 0)
    (hclear : ¬ (others.head?.any fun runnerUp => compareVerified best runnerUp = 0) = true)
    (hv : v ∈ others) : v.standing < best.standing := by
  cases others with
  | nil => cases hv
  | cons runnerUp rest =>
    obtain ⟨hbest, hrest⟩ := List.pairwise_cons.1 hsorted
    have hne : best.standing ≠ runnerUp.standing := by
      rw [ne_eq, ← compareVerified_eq]
      simpa using hclear
    have hlt : runnerUp.standing < best.standing :=
      lt_of_le_of_ne (compareVerified_le.1 (hbest runnerUp (.head _))) hne.symm
    rcases List.mem_cons.1 hv with rfl | hv
    · exact hlt
    · exact (compareVerified_le.1 ((List.pairwise_cons.1 hrest).1 v hv)).trans_lt hlt

/-! ## The closest file -/

section Closest

variable {urlSegments : List String} {files : List WorkspaceStylesheetFile}

/-- What the loop of `closestFile` knows of the files it has passed. -/
structure ClosestFile.Of (urlSegments : List String) (seen : List WorkspaceStylesheetFile)
    (state : ClosestFile) : Prop where
  most : ∀ file ∈ seen,
    (sharedTrailingSegments urlSegments file.segments : ℤ) ≤ state.closestSimilarity
  unique : state.tied = false → ∀ uri, state.closest = some uri →
    ∃ before file after, seen = before ++ file :: after ∧ file.uri = uri ∧
      (sharedTrailingSegments urlSegments file.segments : ℤ) = state.closestSimilarity ∧
      ∀ other ∈ before ++ after,
        (sharedTrailingSegments urlSegments other.segments : ℤ) < state.closestSimilarity

theorem ClosestFile.Of.step {seen : List WorkspaceStylesheetFile} {state : ClosestFile}
    (h : state.Of urlSegments seen) (file : WorkspaceStylesheetFile) :
    (closestFileStep urlSegments state file).Of urlSegments (seen ++ [file]) := by
  unfold closestFileStep
  dsimp only
  split
  · next hlt =>
    refine ⟨?_, ?_⟩
    · intro other hother
      rcases List.mem_append.1 hother with hother | hother
      · exact (h.most other hother).trans hlt.le
      · rw [List.mem_singleton.1 hother]
    · rintro - uri huri
      refine ⟨seen, file, [], rfl, Option.some.inj huri, rfl, ?_⟩
      intro other hother
      rw [List.append_nil] at hother
      exact (h.most other hother).trans_lt hlt
  · next hnot =>
    split
    · next heq =>
      refine ⟨?_, fun htied => by cases htied⟩
      intro other hother
      rcases List.mem_append.1 hother with hother | hother
      · exact h.most other hother
      · rw [List.mem_singleton.1 hother]; exact heq.le
    · next hne =>
      refine ⟨?_, ?_⟩
      · intro other hother
        rcases List.mem_append.1 hother with hother | hother
        · exact h.most other hother
        · rw [List.mem_singleton.1 hother]; exact not_lt.1 hnot
      · intro htied uri huri
        obtain ⟨before, found, after, rfl, hfound, hsim, hless⟩ := h.unique htied uri huri
        refine ⟨before, found, after ++ [file], by simp, hfound, hsim, ?_⟩
        intro other hother
        rw [← List.append_assoc] at hother
        rcases List.mem_append.1 hother with hother | hother
        · exact hless other hother
        · rw [List.mem_singleton.1 hother]; omega

/-- The closest file shares strictly more of the path than any other. -/
theorem closestFile_spec {minimum : ℤ} {uri : String}
    (h : closestFile urlSegments files minimum = some uri) :
    ∃ before file after, files = before ++ file :: after ∧ file.uri = uri ∧
      ∀ other ∈ before ++ after, sharedTrailingSegments urlSegments other.segments <
        sharedTrailingSegments urlSegments file.segments := by
  have hgo : ∀ (files seen : List WorkspaceStylesheetFile) (state : ClosestFile),
      state.Of urlSegments seen →
      (files.foldl (closestFileStep urlSegments) state).Of urlSegments (seen ++ files) := by
    intro files
    induction files with
    | nil => intro seen state h; rwa [List.append_nil]
    | cons file files ih =>
      intro seen state h
      rw [List.foldl_cons, ← List.singleton_append, ← List.append_assoc]
      exact ih _ _ (h.step file)
  have hof := hgo files [] ⟨none, -1, false⟩ ⟨List.forall_mem_nil _, fun _ _ h => by cases h⟩
  simp only [closestFile] at h
  split at h
  · cases h
  next hnot =>
  simp only [not_or, Bool.not_eq_true] at hnot
  obtain ⟨before, file, after, hfiles, huri, hsim, hless⟩ := hof.unique hnot.1 uri h
  refine ⟨before, file, after, hfiles, huri, fun other hother => ?_⟩
  have hlt := hless other hother
  omega

end Closest

/-! ## The choice among the ranked -/

/-- Reported rules a score says the file carries exactly; none if it failed. -/
def StylesheetCandidateScore.verifiedCount : StylesheetCandidateScore → ℕ
  | .verified count _ => count
  | .failed _ => 0

def StylesheetCandidateScore.corroboratedCount : StylesheetCandidateScore → ℕ
  | .verified _ count => count
  | .failed _ => 0

section Choice

variable {files : List WorkspaceStylesheetFile} (similarity : WorkspaceStylesheetFile → ℕ)
  (score : WorkspaceStylesheetFile → StylesheetCandidateScore)

/-- How a file stands for the stylesheet. -/
def standingOf (file : WorkspaceStylesheetFile) : Standing :=
  standing (score file).verifiedCount (similarity file) (score file).corroboratedCount

/-- The file carries a rule and stands strictly higher than every other. -/
def Greatest (files : List WorkspaceStylesheetFile) (file : WorkspaceStylesheetFile) : Prop :=
  file ∈ files ∧ 0 < (score file).verifiedCount ∧
    ∀ other ∈ files, other ≠ file → standingOf similarity score other < standingOf similarity score file

/-- What a run of the locator hands to the choice: the best-ranked of the files that mention a
selector, each with its own score. -/
structure RankedFiles (parsed : ℕ) (candidate : WorkspaceStylesheetFile → RankedStylesheetCandidate)
    (files : List WorkspaceStylesheetFile) (ranked : List RankedStylesheetCandidate) : Prop where
  nodup : (files.map WorkspaceStylesheetFile.uri).Nodup
  uri : ∀ file, (candidate file).uri = file.uri
  similarity : ∀ file, (candidate file).pathSimilarity = similarity file
  score_le : ∀ file ∈ files, (score file).verifiedCount ≤ (candidate file).selectors
  best : BestOf (fun left right => ¬ compareRanked right left < 0) (parsed + 1)
    ((files.map candidate).filter fun c => c.selectors ≠ 0) ranked

variable {similarity score} {parsed : ℕ}
  {candidate : WorkspaceStylesheetFile → RankedStylesheetCandidate}
  {ranked : List RankedStylesheetCandidate} {scored : List ScoredStylesheetCandidate}
  {unreadable : Option UnreadableStylesheetCandidate} {file : WorkspaceStylesheetFile}

/-- The entry of a file in the list of verified candidates. -/
def entryOf (similarity : WorkspaceStylesheetFile → ℕ)
    (score : WorkspaceStylesheetFile → StylesheetCandidateScore) (file : WorkspaceStylesheetFile) :
    VerifiedCandidate :=
  ⟨file.uri, (score file).verifiedCount, similarity file, (score file).corroboratedCount⟩

theorem standing_entryOf : (entryOf similarity score file).standing =
    standingOf similarity score file := rfl

namespace RankedFiles

/-- The parsed candidates with their scores. -/
def Scored (score : WorkspaceStylesheetFile → StylesheetCandidateScore)
    (candidate : WorkspaceStylesheetFile → RankedStylesheetCandidate)
    (files : List WorkspaceStylesheetFile) (parsed : List RankedStylesheetCandidate)
    (scored : List ScoredStylesheetCandidate) : Prop :=
  scored.map ScoredStylesheetCandidate.candidate = parsed ∧
    ∀ s ∈ scored, ∀ file ∈ files, s.candidate = candidate file → s.score = score file

variable (h : RankedFiles similarity score parsed candidate files ranked)
  (hs : Scored score candidate files (ranked.take parsed) scored)

include h in
theorem candidate_inj {other : WorkspaceStylesheetFile} (hfile : file ∈ files)
    (hother : other ∈ files) (he : (candidate file).uri = (candidate other).uri) :
    file = other := by
  rw [h.uri, h.uri] at he
  exact List.inj_on_of_nodup_map h.nodup hfile hother he

include h in
theorem nodup_ranked : (ranked.map RankedStylesheetCandidate.uri).Nodup := by
  obtain ⟨dropped, hperm, -, -⟩ := h.best.rest
  have hall : ((files.map candidate).map RankedStylesheetCandidate.uri).Nodup := by
    have hmap : (files.map candidate).map RankedStylesheetCandidate.uri =
        files.map WorkspaceStylesheetFile.uri := by
      rw [List.map_map]
      exact List.map_congr_left fun file _ => h.uri file
    rw [hmap]
    exact h.nodup
  have hseen := hall.sublist ((List.filter_sublist (p := fun c => c.selectors ≠ 0)).map
    RankedStylesheetCandidate.uri)
  have hmap := (hperm.map RankedStylesheetCandidate.uri).nodup_iff.1 hseen
  rw [List.map_append] at hmap
  exact hmap.of_append_left

include h in
theorem file_of_ranked {c : RankedStylesheetCandidate} (hc : c ∈ ranked) :
    ∃ file ∈ files, candidate file = c := by
  have hseen := h.best.subset hc
  exact List.mem_map.1 (List.mem_filter.1 hseen).1

include h hs in
/-- The verified candidates are the entries of parsed files that carry a rule. -/
theorem mem_verified {v : VerifiedCandidate} :
    v ∈ scored.filterMap verifiedCandidate ↔
      ∃ file ∈ files, candidate file ∈ ranked.take parsed ∧ 0 < (score file).verifiedCount ∧
        v = entryOf similarity score file := by
  rw [List.mem_filterMap]
  constructor
  · rintro ⟨s, hmem, hv⟩
    have hparsed : s.candidate ∈ ranked.take parsed := hs.1 ▸ List.mem_map_of_mem hmem
    obtain ⟨file, hfile, hcand⟩ := h.file_of_ranked (List.mem_of_mem_take hparsed)
    have hscore := hs.2 s hmem file hfile hcand.symm
    refine ⟨file, hfile, hcand ▸ hparsed, ?_⟩
    simp only [verifiedCandidate, hscore] at hv
    split at hv
    · next verified corroborated hk =>
      split at hv
      · next hpos =>
        cases hv
        simp only [entryOf, hk, StylesheetCandidateScore.verifiedCount,
          StylesheetCandidateScore.corroboratedCount]
        exact ⟨hpos, by rw [← hcand, h.uri, h.similarity]⟩
      · cases hv
    · cases hv
  · rintro ⟨file, hfile, hparsed, hpos, rfl⟩
    obtain ⟨s, hmem, hcand⟩ : ∃ s ∈ scored, s.candidate = candidate file := by
      rw [← hs.1] at hparsed
      exact List.mem_map.1 hparsed
    refine ⟨s, hmem, ?_⟩
    have hscore := hs.2 s hmem file hfile hcand
    simp only [verifiedCandidate, hscore, hcand]
    cases hk : score file with
    | failed reason => rw [hk] at hpos; cases hpos
    | verified verified corroborated =>
      rw [hk] at hpos
      have hpos' : 0 < verified := hpos
      simp only [entryOf, hk, h.uri, h.similarity]
      exact if_pos hpos'

include h hs in
theorem nodup_verified : (scored.filterMap verifiedCandidate).Nodup := by
  have huri : ∀ (l : List ScoredStylesheetCandidate),
      ((l.filterMap verifiedCandidate).map VerifiedCandidate.uri).Sublist
        ((l.map ScoredStylesheetCandidate.candidate).map RankedStylesheetCandidate.uri) := by
    intro l
    induction l with
    | nil => exact .slnil
    | cons s l ih =>
      cases hv : verifiedCandidate s with
      | none => rw [List.filterMap_cons_none hv]; exact ih.cons _
      | some v =>
        rw [List.filterMap_cons_some hv]
        have huri : v.uri = s.candidate.uri := by
          simp only [verifiedCandidate] at hv
          split at hv
          · split at hv
            · cases hv; rfl
            · cases hv
          · cases hv
        rw [List.map_cons, List.map_cons, List.map_cons, huri]
        exact ih.cons_cons _
  have hsub := huri scored
  rw [hs.1] at hsub
  have hnd := (h.nodup_ranked.sublist ((List.take_sublist parsed ranked).map _)).sublist hsub
  exact hnd.of_map _

include h hs in
/-- A file that is chosen is the greatest of all. -/
theorem chosen_greatest {uri : String}
    (hc : chooseGeneratedStylesheet scored ranked[parsed]? unreadable = .located uri) :
    ∃ file, file.uri = uri ∧ Greatest similarity score files file := by
  unfold chooseGeneratedStylesheet at hc
  dsimp only at hc
  split at hc
  · cases hc
  next best others hsort =>
  split at hc
  · cases hc
  next hclear =>
  split at hc
  · cases hc
  next hbeat =>
  cases hc
  have hperm := List.perm_insertionSort (fun left right => compareVerified left right ≤ 0)
    (scored.filterMap verifiedCandidate)
  have hsorted := List.pairwise_insertionSort (fun left right => compareVerified left right ≤ 0)
    (scored.filterMap verifiedCandidate)
  rw [hsort] at hperm hsorted
  obtain ⟨file, hfile, hparsed, hpos, rfl⟩ := (h.mem_verified hs).1 (hperm.mem_iff.1 (.head _))
  refine ⟨file, rfl, hfile, hpos, fun other hother hne => ?_⟩
  by_cases hv : 0 < (score other).verifiedCount
  · have hle := h.score_le other hother
    have hseen : candidate other ∈ (files.map candidate).filter fun c => c.selectors ≠ 0 := by
      refine List.mem_filter.2 ⟨List.mem_map_of_mem hother, ?_⟩
      simp only [ne_eq, decide_eq_true_eq]
      omega
    rcases h.best.mem_take_or_le hseen with htake | ⟨u, hu, hrank⟩
    -- parsed too: it is in the sorted list, behind the best
    · have hmem := hperm.mem_iff.2 ((h.mem_verified hs).2 ⟨other, hother, htake, hv, rfl⟩)
      rcases List.mem_cons.1 hmem with heq | hmem
      · have huri : other.uri = file.uri := congrArg VerifiedCandidate.uri heq
        exact absurd (List.inj_on_of_nodup_map h.nodup hother hfile huri) hne
      · exact standing_lt_of_mem hsorted hclear hmem
    -- not parsed: it ranks no higher than the first that was not, and that could not beat it
    · have hrank := le_of_not_compareRanked hrank
      rw [h.similarity] at hrank
      have hnot : ¬ ((score file).verifiedCount < u.selectors ∨
          (u.selectors = (score file).verifiedCount ∧ similarity file ≤ u.pathSimilarity)) := by
        intro hb
        refine hbeat ?_
        rw [hu]
        exact decide_eq_true hb
      refine standing_lt.2 ?_
      omega
  · exact standing_lt.2 (.inl (by omega))

include h hs in
/-- The greatest file is chosen when all that mention a selector are parsed. -/
theorem greatest_chosen (hfew : ((files.map candidate).filter fun c => c.selectors ≠ 0).length ≤ parsed)
    (hg : Greatest similarity score files file) :
    chooseGeneratedStylesheet scored ranked[parsed]? unreadable = .located file.uri := by
  obtain ⟨hfile, hpos, hgreatest⟩ := hg
  obtain ⟨dropped, hseen, hfull, -⟩ := h.best.rest
  have hlen := hseen.length_eq
  rw [List.length_append] at hlen
  obtain rfl : dropped = [] := by
    by_contra hne
    have hbest := hfull hne
    omega
  rw [List.append_nil] at hseen
  have hall : ranked.take parsed = ranked := List.take_of_length_le (by omega)
  have hnone : ranked[parsed]? = none := List.getElem?_eq_none (by omega)
  have hle := h.score_le file hfile
  have hparsed : candidate file ∈ ranked.take parsed := by
    rw [hall, ← hseen.mem_iff]
    refine List.mem_filter.2 ⟨List.mem_map_of_mem hfile, ?_⟩
    simp only [ne_eq, decide_eq_true_eq]
    omega
  have hmem := (h.mem_verified hs).2 ⟨file, hfile, hparsed, hpos, rfl⟩
  have hperm := List.perm_insertionSort (fun left right => compareVerified left right ≤ 0)
    (scored.filterMap verifiedCandidate)
  have hsorted := List.pairwise_insertionSort (fun left right => compareVerified left right ≤ 0)
    (scored.filterMap verifiedCandidate)
  have hnd := hperm.nodup_iff.2 (h.nodup_verified hs)
  unfold chooseGeneratedStylesheet
  dsimp only
  cases hsort : (scored.filterMap verifiedCandidate).insertionSort
      fun left right => compareVerified left right ≤ 0 with
  | nil =>
    rw [hsort] at hperm
    rw [hperm.symm.eq_nil] at hmem
    cases hmem
  | cons best others =>
    rw [hsort] at hperm hsorted hnd
    -- the greatest file is at the head: everything behind the head stands no higher than it
    have hbest : best = entryOf similarity score file := by
      rcases List.mem_cons.1 (hperm.mem_iff.2 hmem) with heq | htail
      · exact heq.symm
      · obtain ⟨first, hfirst, -, -, rfl⟩ := (h.mem_verified hs).1 (hperm.mem_iff.1 (.head _))
        by_cases hsame : first = file
        · rw [hsame]
        · have hlt := hgreatest first hfirst hsame
          have hge := compareVerified_le.1 ((List.pairwise_cons.1 hsorted).1 _ htail)
          rw [standing_entryOf, standing_entryOf] at hge
          exact absurd hlt hge.not_gt
    subst hbest
    have hclear : ¬ (others.head?.any fun runnerUp =>
        compareVerified (entryOf similarity score file) runnerUp = 0) = true := by
      cases others with
      | nil => simp
      | cons runnerUp rest =>
        have hin : runnerUp ∈ entryOf similarity score file :: runnerUp :: rest := .tail _ (.head _)
        obtain ⟨next, hnext, -, -, rfl⟩ := (h.mem_verified hs).1 (hperm.mem_iff.1 hin)
        have hne : next ≠ file := by
          rintro rfl
          exact (List.nodup_cons.1 hnd).1 (.head _)
        have hlt := hgreatest next hnext hne
        rw [← standing_entryOf, ← standing_entryOf] at hlt
        simpa [compareVerified_eq] using hlt.ne'
    dsimp only
    rw [if_neg hclear, hnone]
    rfl

end RankedFiles

end Choice

end PinOp.Rules
