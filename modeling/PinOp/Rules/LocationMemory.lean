import PinOp.Rules.LocateGenerated

/-!
# What remembering a location changes

A located file is remembered by its URL alone and asked again for the rules that are reported
now, together with the files that are closer; that never spoils an answer. A URL for which
no file mentioned the rules that were reported then is remembered too, and is not asked
again: a later selection that reports other rules from it is answered by the old ones.
-/

namespace PinOp.Rules

open PinOp.Lib PinOp.Protocol

section

variable {ρ : Type} {host : RulesStylesheetLocatorHost ρ} {limits : RulesStylesheetLocatorLimits}
  {rules : List (ReportedRule ρ)} {sourceUrl : String} {memory : StylesheetLocationMemory}

/-! ## Selections -/

/-- A selection in which a URL is located. -/
structure LocatedSelection (ρ : Type) where
  rules : List (ReportedRule ρ)
  sourceUrl : String

/-- What a selection is answered with a memory. -/
def answer (host : RulesStylesheetLocatorHost ρ) (limits : RulesStylesheetLocatorLimits)
    (memory : StylesheetLocationMemory) (selection : LocatedSelection ρ) :
    GeneratedStylesheetLocation :=
  (locateGenerated host limits selection.rules memory selection.sourceUrl).1

def remembering (host : RulesStylesheetLocatorHost ρ) (limits : RulesStylesheetLocatorLimits)
    (memory : StylesheetLocationMemory) (selection : LocatedSelection ρ) :
    StylesheetLocationMemory :=
  (locateGenerated host limits selection.rules memory selection.sourceUrl).2

/-- The memory that earlier selections filled, the first of them first. -/
def memoryAfter (host : RulesStylesheetLocatorHost ρ) (limits : RulesStylesheetLocatorLimits)
    (earlier : List (LocatedSelection ρ)) : StylesheetLocationMemory :=
  earlier.foldl (remembering host limits) .empty

/-! ## Standing by rules and path -/

/-- The file carries more of the reported rules, or as many and shares more of the path. -/
def Ahead (host : RulesStylesheetLocatorHost ρ) (rules : List (ReportedRule ρ))
    (sourceUrl : String) (file other : WorkspaceStylesheetFile) : Prop :=
  (scoreFor host rules sourceUrl other).verifiedCount <
    (scoreFor host rules sourceUrl file).verifiedCount ∨
  ((scoreFor host rules sourceUrl other).verifiedCount =
    (scoreFor host rules sourceUrl file).verifiedCount ∧
    similarityTo host sourceUrl other < similarityTo host sourceUrl file)

/-- The file carries every reported rule. -/
def CarriesReported (host : RulesStylesheetLocatorHost ρ) (rules : List (ReportedRule ρ))
    (sourceUrl : String) (file : WorkspaceStylesheetFile) : Prop :=
  (scoreFor host rules sourceUrl file).verifiedCount = (reportedBy rules sourceUrl).length

/-- The file is the only greatest by rules and path. -/
def OnlyGreatest (host : RulesStylesheetLocatorHost ρ) (rules : List (ReportedRule ρ))
    (sourceUrl : String) (file : WorkspaceStylesheetFile) : Prop :=
  file ∈ cssFiles host ∧
    ∀ other ∈ cssFiles host, other ≠ file → Ahead host rules sourceUrl file other

theorem carries_of_carriesAll {file : WorkspaceStylesheetFile}
    (h : carriesAll (reportedStylesheet host sourceUrl (reportedBy rules sourceUrl))
      (host.scoreCandidate file.uri (reportedBy rules sourceUrl)) = true) :
    CarriesReported host rules sourceUrl file := by
  unfold carriesAll at h
  split at h
  · next count corroborated hscore =>
    rw [CarriesReported, scoreFor, hscore]
    exact of_decide_eq_true h
  · cases h

/-- Where something is reported, a file that carries everything is one that verifies. -/
theorem carriesAll_of_carries {file : WorkspaceStylesheetFile}
    (hne : reportedBy rules sourceUrl ≠ []) (h : CarriesReported host rules sourceUrl file) :
    carriesAll (reportedStylesheet host sourceUrl (reportedBy rules sourceUrl))
      (host.scoreCandidate file.uri (reportedBy rules sourceUrl)) = true := by
  rw [CarriesReported, scoreFor] at h
  unfold carriesAll
  split
  · next count corroborated hscore =>
    rw [hscore] at h
    exact decide_eq_true h
  · next reason hscore =>
    rw [hscore] at h
    exact absurd (List.eq_nil_of_length_eq_zero h.symm) hne

/-! ## Recalling -/

/-- An answer that is recalled says that nothing mentions the URL, or is a file that carries
everything when no closer one does. -/
theorem recalled_cases {stylesheet : ReportedStylesheet ρ} {files : List WorkspaceStylesheetFile}
    {location : GeneratedStylesheetLocation}
    (h : recalled host memory sourceUrl stylesheet files = some location) :
    (memory.recallUrl sourceUrl = some none ∧
      location = .unlocated "generated-source-not-found") ∨
    ∃ file ∈ files, location = .located file.uri ∧
      carriesAll stylesheet (host.scoreCandidate file.uri stylesheet.rules) = true ∧
      ∀ other ∈ files, sharedTrailingSegments stylesheet.urlSegments file.segments <
          sharedTrailingSegments stylesheet.urlSegments other.segments →
        carriesAll stylesheet (host.scoreCandidate other.uri stylesheet.rules) = false := by
  unfold recalled at h
  split at h
  · cases h
  · next hrecall => exact .inl ⟨hrecall, (Option.some.inj h).symm⟩
  · split at h
    · cases h
    · next file hfind =>
      simp only at h
      split at h
      · cases h
      · split at h
        · cases h
        · next hstands =>
          rw [not_or, not_not] at hstands
          refine .inr ⟨file, List.mem_of_find?_eq_some hfind, (Option.some.inj h).symm,
            hstands.2, fun other hother hcloser => ?_⟩
          by_contra hcarries
          rw [Bool.not_eq_false] at hcarries
          refine hstands.1 (List.any_eq_true.2 ⟨other, ?_, hcarries⟩)
          exact List.mem_filter.2 ⟨hother, decide_eq_true hcloser⟩

theorem anew_unlocated (hrecall : memory.recallUrl sourceUrl = some none) :
    locateGeneratedAnew host limits rules memory sourceUrl =
      .unlocated "generated-source-not-found" := by
  unfold locateGeneratedAnew recalled
  simp only [hrecall]
  split <;> rfl

/-- With a memory the locator answers that nothing mentions the URL, or what it answers without
one, or a remembered file that still stands. -/
theorem anew_cases (host : RulesStylesheetLocatorHost ρ) (limits : RulesStylesheetLocatorLimits)
    (rules : List (ReportedRule ρ)) (memory : StylesheetLocationMemory) (sourceUrl : String) :
    memory.recallUrl sourceUrl = some none ∨
    locateGeneratedAnew host limits rules memory sourceUrl =
      locateGeneratedAnew host limits rules .empty sourceUrl ∨
    (reportedBy rules sourceUrl ≠ [] ∧ ∃ file ∈ cssFiles host,
      locateGeneratedAnew host limits rules memory sourceUrl = .located file.uri ∧
      CarriesReported host rules sourceUrl file ∧
      ∀ other ∈ cssFiles host,
        similarityTo host sourceUrl file < similarityTo host sourceUrl other →
          ¬ CarriesReported host rules sourceUrl other) := by
  have hfind : (reportedStylesheets host rules).find? (fun s => s.sourceUrl = sourceUrl) = _ :=
    find?_reportedStylesheets
  have hempty : ∀ stylesheet : ReportedStylesheet ρ,
      recalled host .empty sourceUrl stylesheet (workspaceFiles host "**/*.css" ".css") = none :=
    fun _ => rfl
  by_cases hne : reportedBy rules sourceUrl = []
  · rw [if_pos hne] at hfind
    refine .inr (.inl ?_)
    simp only [locateGeneratedAnew, hfind]
  rw [if_neg hne] at hfind
  cases hrecalled : recalled host memory sourceUrl
      (reportedStylesheet host sourceUrl (reportedBy rules sourceUrl))
      (workspaceFiles host "**/*.css" ".css") with
  | none =>
    refine .inr (.inl ?_)
    simp only [locateGeneratedAnew, hfind, hrecalled, hempty]
  | some location =>
    have hanew : locateGeneratedAnew host limits rules memory sourceUrl = location := by
      simp only [locateGeneratedAnew, hfind, hrecalled]
    rcases recalled_cases hrecalled with ⟨hrecall, -⟩ | ⟨file, hfile, rfl, hall, hcloser⟩
    · exact .inl hrecall
    · refine .inr (.inr ⟨hne, file, hfile, hanew, carries_of_carriesAll hall, ?_⟩)
      intro other hother hlt hcarries
      have htrue := carriesAll_of_carries hne hcarries
      exact Bool.noConfusion (htrue.symm.trans (hcloser other hother hlt))

/-! ## What the memory holds -/

namespace StylesheetLocationMemory

theorem dropOldest_get? {ν : Type} {value : ν} (fuel : ℕ) {m : OrderedMap String ν} {key : String}
    (h : (dropOldest fuel m).get? key = some value) : m.get? key = some value := by
  induction fuel generalizing m with
  | zero => exact h
  | succ fuel ih =>
    unfold dropOldest at h
    split at h
    · split at h
      · exact h
      · have hkept := ih h
        rw [OrderedMap.get?_delete] at hkept
        split at hkept
        · cases hkept
        · exact hkept
    · exact h

/-- What is remembered to be mentioned nowhere was answered so, now or before. -/
theorem recallUrl_remember {key : String} {location : GeneratedStylesheetLocation}
    (h : (memory.remember sourceUrl location).unlocated.get? key = some ()) :
    if key = sourceUrl then location = .unlocated "generated-source-not-found"
    else memory.unlocated.get? key = some () := by
  cases location with
  | located uri =>
    have hkept : (memory.unlocated.delete sourceUrl).get? key = some () := dropOldest_get? _ h
    rw [OrderedMap.get?_delete] at hkept
    split at hkept
    · cases hkept
    · next hne =>
      rw [if_neg hne]
      exact hkept
  | unlocated reason =>
    by_cases hreason : reason = "generated-source-not-found"
    · have hkept : ((memory.unlocated.delete sourceUrl).set sourceUrl ()).get? key = some () := by
        simp only [remember, if_pos hreason] at h
        exact dropOldest_get? _ h
      rw [OrderedMap.get?_set] at hkept
      split at hkept
      · next heq => rw [if_pos heq, hreason]
      · next hne =>
        rw [OrderedMap.get?_delete, if_neg hne] at hkept
        rw [if_neg hne]
        exact hkept
    · have hkept : (memory.unlocated.delete sourceUrl).get? key = some () := by
        simp only [remember, if_neg hreason] at h
        exact dropOldest_get? _ h
      rw [OrderedMap.get?_delete] at hkept
      split at hkept
      · cases hkept
      · next hne =>
        rw [if_neg hne]
        exact hkept

end StylesheetLocationMemory

/-- A URL that is remembered to be mentioned nowhere was answered so the last time. -/
theorem unlocated_of_memoryAfter (earlier : List (LocatedSelection ρ))
    (h : (memoryAfter host limits earlier).recallUrl sourceUrl = some none) :
    ∃ before selection after, earlier = before ++ selection :: after ∧
      selection.sourceUrl = sourceUrl ∧
      answer host limits (memoryAfter host limits before) selection =
        .unlocated "generated-source-not-found" ∧
      ∀ later ∈ after, later.sourceUrl ≠ sourceUrl := by
  have hheld : (memoryAfter host limits earlier).unlocated.get? sourceUrl = some () := by
    unfold StylesheetLocationMemory.recallUrl at h
    split at h
    · cases h
    · split at h
      · next hhas =>
        obtain ⟨⟨⟩, hget⟩ := OrderedMap.mem_keys.1 (OrderedMap.has_eq_true.1 hhas)
        exact hget
      · cases h
  clear h
  induction earlier using List.reverseRecOn with
  | nil => cases hheld
  | append_singleton before selection ih =>
    rw [memoryAfter, List.foldl_append, List.foldl_cons, List.foldl_nil] at hheld
    have hlast := StylesheetLocationMemory.recallUrl_remember hheld
    split at hlast
    · next hurl =>
      exact ⟨before, selection, [], rfl, hurl.symm, hlast, fun later hlater => by cases hlater⟩
    · next hurl =>
      obtain ⟨first, asked, rest, rfl, hasked, hanswer, hrest⟩ := ih hlast
      refine ⟨first, asked, rest ++ [selection], ?_, hasked, hanswer, fun later hlater => ?_⟩
      · rw [List.append_assoc]
        rfl
      · rcases List.mem_append.1 hlater with hlater | hlater
        · exact hrest later hlater
        · rw [List.mem_singleton.1 hlater]
          exact Ne.symm hurl

/-! ## What remembering changes -/

section Standing

variable {file other : WorkspaceStylesheetFile}

/-- The greatest file by rules, path and positions has none ahead of it by rules and path. -/
theorem not_ahead_of_greatest (h : GreatestFile host rules sourceUrl file)
    (hother : other ∈ cssFiles host) : ¬ Ahead host rules sourceUrl other file := by
  intro hahead
  by_cases hsame : other = file
  · subst hsame
    rcases hahead with hlt | ⟨-, hlt⟩
    · exact Nat.lt_irrefl _ hlt
    · exact Nat.lt_irrefl _ hlt
  · have hlt := standing_lt.1 (h.2.2 other hother hsame)
    rcases hahead with hahead | ⟨heq, hahead⟩
    · omega
    · omega

variable (hsurvey : Surveyable host limits rules sourceUrl)

include hsurvey in
/-- No file carries more than is reported. -/
theorem verifiedCount_le (hother : other ∈ cssFiles host) :
    (scoreFor host rules sourceUrl other).verifiedCount ≤ (reportedBy rules sourceUrl).length :=
  (hsurvey.score_le other hother).trans (List.length_filter_le _ _)

include hsurvey in
theorem not_ahead_of_carries (hcarries : CarriesReported host rules sourceUrl file)
    (hcloser : ∀ other ∈ cssFiles host,
      similarityTo host sourceUrl file < similarityTo host sourceUrl other →
        ¬ CarriesReported host rules sourceUrl other)
    (hother : other ∈ cssFiles host) : ¬ Ahead host rules sourceUrl other file := by
  have hle := verifiedCount_le hsurvey hother
  have hcloser := hcloser other hother
  unfold CarriesReported at hcarries hcloser
  rintro (hlt | ⟨heq, hlt⟩)
  · omega
  · exact hcloser hlt (by omega)

include hsurvey in
/-- The memory is no obstacle to a file that carries everything and is the only greatest, unless the
URL is remembered to be mentioned nowhere; whatever the memory, a located file carries a rule
and none is ahead of it. -/
theorem locateGenerated_remembering (earlier : List (LocatedSelection ρ)) :
    (∀ file, OnlyGreatest host rules sourceUrl file → CarriesReported host rules sourceUrl file →
      answer host limits .empty ⟨rules, sourceUrl⟩ = .located file.uri →
      (answer host limits (memoryAfter host limits earlier) ⟨rules, sourceUrl⟩ =
          .located file.uri ↔
        (memoryAfter host limits earlier).recallUrl sourceUrl ≠ some none)) ∧
    ∀ memory uri, answer host limits memory ⟨rules, sourceUrl⟩ = .located uri →
      ∃ file ∈ cssFiles host, file.uri = uri ∧
        0 < (scoreFor host rules sourceUrl file).verifiedCount ∧
        ∀ other ∈ cssFiles host, ¬ Ahead host rules sourceUrl other file := by
  constructor
  · intro file honly hcarries hempty
    constructor
    · intro hlocated hrecall
      rw [answer, locateGenerated, anew_unlocated hrecall] at hlocated
      cases hlocated
    · intro hrecall
      rcases anew_cases host limits rules (memoryAfter host limits earlier) sourceUrl with
        hnone | hsame | ⟨-, found, hfound, hanew, hall, hcloser⟩
      · exact absurd hnone hrecall
      · rw [← hempty]
        exact hsame
      · have hfile : found = file := by
          by_contra hne
          have hahead := honly.2 found hfound hne
          unfold Ahead at hahead
          unfold CarriesReported at hcarries hall
          refine hcloser file honly.1 ?_ hcarries
          omega
        rw [← hfile]
        exact hanew
  · intro memory uri hlocated
    rcases anew_cases host limits rules memory sourceUrl with
      hnone | hsame | ⟨hne, file, hfile, hanew, hall, hcloser⟩
    · rw [answer, locateGenerated, anew_unlocated hnone] at hlocated
      cases hlocated
    · have hempty : (locateGenerated host limits rules .empty sourceUrl).1 = .located uri :=
        hsame.symm.trans hlocated
      obtain ⟨file, huri, hgreatest⟩ := (locateGenerated_exhaustive hsurvey).1 uri hempty
      exact ⟨file, hgreatest.1, huri, hgreatest.2.1,
        fun other hother => not_ahead_of_greatest hgreatest hother⟩
    · have huri : file.uri = uri := by
        have heq : GeneratedStylesheetLocation.located file.uri = .located uri :=
          hanew.symm.trans hlocated
        exact GeneratedStylesheetLocation.located.inj heq
      refine ⟨file, hfile, huri, ?_, fun other hother =>
        not_ahead_of_carries hsurvey hall hcloser hother⟩
      rw [show (scoreFor host rules sourceUrl file).verifiedCount = _ from hall]
      exact List.length_pos_of_ne_nil hne

end Standing

end

/-! ## Samples -/

namespace BundleSample

/-- One file, whose path the served URL does not share. -/
def host : RulesStylesheetLocatorHost Unit where
  findFiles _ := some ["/src/app.css"]
  isWorkspaceUri _ := true
  readText _ _ := .ok ⟨".card { color: red }", 20⟩
  scoreCandidate _ rules := .verified (rules.filter fun rule => rule.selector = ".card").length 0
  canonicalRulesSourceUri := some
  pathname := some
  decodeURIComponent := some

def limits : RulesStylesheetLocatorLimits := ⟨2000, 1000, 1000, 8⟩

def url : String := "/assets/bundle.css"

/-- A selection of one rule, which the file has. -/
def card : LocatedSelection Unit := ⟨[⟨".card", [("color", "red")], some url, ()⟩], url⟩

/-- A selection of one rule that a script added. -/
def gone : LocatedSelection Unit := ⟨[⟨".gone", [("color", "red")], some url, ()⟩], url⟩

def file : WorkspaceStylesheetFile := ⟨"/src/app.css", ["src", "app.css"]⟩

theorem cssFiles_host : cssFiles host = [file] := by decide +kernel

theorem surveyable (rules : List (ReportedRule Unit))
    (hscore : (scoreFor host rules url file).verifiedCount ≤
      mentionedRules (fileText host limits file) (reportedBy rules url)) :
    Surveyable host limits rules url where
  readable _ _ := ⟨_, rfl⟩
  budget := by
    have hperm : (scanOrder (reportedStylesheets host rules) (cssFiles host)).Perm [file] := by
      rw [cssFiles_host]
      exact perm_scanOrder _
    rw [List.perm_singleton.1 hperm]
    refine ⟨by decide, fun before other after heq => ?_⟩
    have hlen : 1 = (before ++ other :: after).length := congrArg List.length heq
    rw [List.length_append, List.length_cons] at hlen
    rw [List.eq_nil_of_length_eq_zero (show before.length = 0 by omega)]
    decide
  score_le other hother := by
    rw [cssFiles_host, List.mem_singleton] at hother
    rw [hother]
    exact hscore

theorem surveyable_card : Surveyable host limits card.rules url :=
  surveyable card.rules (by decide +kernel)

theorem carries_card : CarriesReported host card.rules url file := by
  rw [CarriesReported]
  decide +kernel

theorem onlyGreatest_card : OnlyGreatest host card.rules url file := by
  rw [OnlyGreatest, cssFiles_host]
  exact ⟨List.mem_singleton_self _, fun other hother hne =>
    absurd (List.mem_singleton.1 hother) hne⟩

end BundleSample

open BundleSample

/-- A file that was located before is located again. -/
theorem locateGenerated_remembering_sample :
    answer host limits (memoryAfter host limits [card]) card = .located "/src/app.css" :=
  ((locateGenerated_remembering surveyable_card [card]).1 file onlyGreatest_card carries_card
    (by decide +kernel)).2 (by decide +kernel)

/-- An earlier selection of a rule that no file mentions hides the file that carries the rules of the
later one. -/
theorem locateGenerated_forgets :
    Surveyable host limits gone.rules url ∧ Surveyable host limits card.rules url ∧
    OnlyGreatest host card.rules url file ∧ CarriesReported host card.rules url file ∧
    answer host limits .empty card = .located file.uri ∧
    answer host limits (memoryAfter host limits [gone]) card =
      .unlocated "generated-source-not-found" :=
  ⟨surveyable gone.rules (by decide +kernel), surveyable_card, onlyGreatest_card, carries_card,
    by decide +kernel, by decide +kernel⟩

theorem unlocated_of_memoryAfter_sample : ∃ before selection after,
    [gone] = before ++ selection :: after ∧ selection.sourceUrl = url ∧
      answer host limits (memoryAfter host limits before) selection =
        .unlocated "generated-source-not-found" ∧
      ∀ later ∈ after, later.sourceUrl ≠ url :=
  unlocated_of_memoryAfter [gone] (by decide +kernel)

end PinOp.Rules
