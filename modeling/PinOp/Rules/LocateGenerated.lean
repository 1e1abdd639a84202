import PinOp.Rules.ExhaustiveChoice

/-!
# Locating a served stylesheet

The workspace is the answers of the host. When every file can be read within the budget, the
scan ranks every file by the reported selectors its text mentions, so that the choice among
the ranked is the choice among all.
-/

namespace PinOp.Rules

open PinOp.Lib PinOp.Protocol

/-! ## Words -/

theorem mem_collectPresent {words : Finset String} {text : List String} {present : Finset String}
    (hsub : present ⊆ words) {w : String} :
    w ∈ collectPresent words present text ↔ w ∈ present ∨ w ∈ words ∧ w ∈ text := by
  induction text generalizing present with
  | nil => simp [collectPresent]
  | cons word rest ih =>
    unfold collectPresent
    split
    · next hnot =>
      have hne : w ∈ words → w ≠ word := by
        rintro hw rfl
        exact hnot hw
      rw [ih hsub, List.mem_cons]
      have hiff : w ∈ words ∧ (w = word ∨ w ∈ rest) ↔ w ∈ words ∧ w ∈ rest :=
        and_congr_right fun hw => or_iff_right (hne hw)
      rw [hiff]
    · next hword =>
      have hword := not_not.1 hword
      have hsub' : insert word present ⊆ words := Finset.insert_subset hword hsub
      dsimp only
      split
      -- every word was met, so the rest of the text adds none
      · next hcard =>
        have hall : insert word present = words := Finset.eq_of_subset_of_card_le hsub' hcard.ge
        constructor
        · intro hw
          rcases Finset.mem_insert.1 hw with rfl | hw
          · exact .inr ⟨hword, .head _⟩
          · exact .inl hw
        · rintro (hw | ⟨hw, -⟩)
          · exact Finset.mem_insert_of_mem hw
          · exact hall ▸ hw
      · rw [ih hsub', Finset.mem_insert, List.mem_cons]
        constructor
        · rintro ((rfl | hw) | ⟨hw, hrest⟩)
          · exact .inr ⟨hword, .inl rfl⟩
          · exact .inl hw
          · exact .inr ⟨hw, .inr hrest⟩
        · rintro (hw | ⟨hw, rfl | hrest⟩)
          · exact .inl (.inr hw)
          · exact .inl (.inl rfl)
          · exact .inr ⟨hw, hrest⟩

theorem mem_presentWords {words : Finset String} {text w : String} :
    w ∈ presentWords text words ↔ w ∈ words ∧ w ∈ matchWords text := by
  unfold presentWords
  split
  · next hcard =>
    rw [Finset.card_eq_zero.1 hcard]
    simp
  · rw [mem_collectPresent (Finset.empty_subset _)]
    simp

section
variable {ρ : Type} {host : RulesStylesheetLocatorHost ρ} {limits : RulesStylesheetLocatorLimits}
  {rules : List (ReportedRule ρ)} {sourceUrl : String}

/-- Every word of the rule's selector occurs in the text. -/
def mentionsSelector (text : String) (rule : ReportedRule ρ) : Bool :=
  ∀ word ∈ distinctWords rule.selector 1 selectorWordsPerRule, word ∈ matchWords text

/-- How many of the rules a text mentions. -/
def mentionedRules (text : String) (rules : List (ReportedRule ρ)) : ℕ :=
  (rules.filter (mentionsSelector text)).length

theorem mem_stylesheetWords {stylesheets : List (ReportedStylesheet ρ)}
    {stylesheet : ReportedStylesheet ρ} (hs : stylesheet ∈ stylesheets) {words : List String}
    (hwords : words ∈ stylesheet.selectorWords) {word : String} (hword : word ∈ words) :
    word ∈ stylesheetWords stylesheets := by
  rw [stylesheetWords, List.mem_toFinset, List.mem_flatMap]
  exact ⟨stylesheet, hs, List.mem_append_left _ (List.mem_flatten.2 ⟨words, hwords, hword⟩)⟩

/-- A ranked file counts the selectors its text mentions. -/
theorem selectors_rankedCandidate {stylesheets : List (ReportedStylesheet ρ)}
    {entries : List (ReportedRule ρ)} (file : WorkspaceStylesheetFile) (text : String)
    (hs : reportedStylesheet host sourceUrl entries ∈ stylesheets) :
    (rankedCandidate (reportedStylesheet host sourceUrl entries) file
      (presentWords text (stylesheetWords stylesheets))).selectors = mentionedRules text entries := by
  have hsame : ∀ rule ∈ entries,
      decide (∀ word ∈ distinctWords rule.selector 1 selectorWordsPerRule,
        word ∈ presentWords text (stylesheetWords stylesheets)) = mentionsSelector text rule := by
    intro rule hrule
    have hwords : ∀ word ∈ distinctWords rule.selector 1 selectorWordsPerRule,
        word ∈ stylesheetWords stylesheets := fun word hword =>
      mem_stylesheetWords hs (List.mem_map_of_mem hrule) hword
    rw [mentionsSelector, decide_eq_decide]
    refine forall₂_congr fun word hword => ?_
    rw [mem_presentWords]
    exact and_iff_right (hwords word hword)
  rw [mentionedRules, ← List.filter_congr hsame]
  simp only [rankedCandidate, reportedStylesheet, List.filter_map, List.length_map]
  rfl

/-! ## Reported stylesheets -/

/-- The rules reported from one URL. -/
def reportedBy (rules : List (ReportedRule ρ)) (sourceUrl : String) : List (ReportedRule ρ) :=
  rules.filter fun rule => rule.sourceUrl = some sourceUrl

theorem get?_groupRules : (groupRules rules).get? sourceUrl =
    if reportedBy rules sourceUrl = [] then none else some (reportedBy rules sourceUrl) := by
  induction rules using List.reverseRecOn with
  | nil => rfl
  | append_singleton rules rule ih =>
    unfold groupRules at ih ⊢
    rw [List.foldl_append, List.foldl_cons, List.foldl_nil]
    have happend : reportedBy (rules ++ [rule]) sourceUrl =
        reportedBy rules sourceUrl ++ if rule.sourceUrl = some sourceUrl then [rule] else [] := by
      rw [reportedBy, List.filter_append, reportedBy, List.filter_singleton]
      simp
    rw [happend]
    split
    · next hnone => simpa [hnone] using ih
    · next url hurl =>
      rw [OrderedMap.get?_set, hurl]
      by_cases heq : sourceUrl = url
      · subst heq
        rw [if_pos rfl, ih, if_pos rfl]
        by_cases hempty : reportedBy rules sourceUrl = []
        · simp [hempty]
        · simp [hempty]
      · rw [if_neg heq, ih]
        have hne : some url ≠ some sourceUrl := fun h => heq (Option.some.inj h).symm
        rw [if_neg hne, List.append_nil]

theorem find?_reportedStylesheets :
    (reportedStylesheets host rules).find? (fun stylesheet => stylesheet.sourceUrl = sourceUrl) =
      if reportedBy rules sourceUrl = [] then none
      else some (reportedStylesheet host sourceUrl (reportedBy rules sourceUrl)) := by
  have hget : (groupRules rules).get? sourceUrl =
      if reportedBy rules sourceUrl = [] then none else some (reportedBy rules sourceUrl) :=
    get?_groupRules
  have hfind : (reportedStylesheets host rules).find?
      (fun stylesheet => stylesheet.sourceUrl = sourceUrl) =
      ((groupRules rules).entries.find? fun e => e.1 = sourceUrl).map fun e =>
        reportedStylesheet host e.1 e.2 := by
    rw [reportedStylesheets, List.find?_map]
    rfl
  rw [hfind]
  unfold OrderedMap.get? at hget
  cases he : (groupRules rules).entries.find? (fun e => e.1 = sourceUrl) with
  | none =>
    rw [he, Option.map_none] at hget
    split at hget
    · next hempty => rw [if_pos hempty]; rfl
    · cases hget
  | some e =>
    have hurl : e.1 = sourceUrl := by simpa using List.find?_some he
    rw [he, Option.map_some] at hget
    split at hget
    · cases hget
    · next hne =>
      rw [if_neg hne, Option.map_some, hurl, Option.some.inj hget]

/-! ## The workspace -/

def cssFiles (host : RulesStylesheetLocatorHost ρ) : List WorkspaceStylesheetFile :=
  workspaceFiles host "**/*.css" ".css"

theorem nodup_collectFiles (extension : String) (listed seen : List String) :
    ((collectFiles host extension seen listed).map WorkspaceStylesheetFile.uri).Nodup ∧
      ∀ uri ∈ (collectFiles host extension seen listed).map WorkspaceStylesheetFile.uri,
        uri ∉ seen := by
  induction listed generalizing seen with
  | nil => exact ⟨.nil, List.forall_mem_nil _⟩
  | cons entry rest ih =>
    unfold collectFiles
    split
    · exact ih seen
    next uri huri =>
    split
    · exact ih seen
    next hnew =>
    obtain ⟨hnd, hseen⟩ := ih (uri :: seen)
    have hskip : ∀ u ∈ (collectFiles host extension (uri :: seen) rest).map
        WorkspaceStylesheetFile.uri, u ∉ seen :=
      fun u hu hmem => hseen u hu (List.mem_cons_of_mem _ hmem)
    dsimp only
    split
    · rw [List.map_cons]
      refine ⟨List.nodup_cons.2 ⟨fun hmem => hseen uri hmem List.mem_cons_self, hnd⟩, ?_⟩
      intro u hu
      rcases List.mem_cons.1 hu with rfl | hu
      · exact hnew
      · exact hskip u hu
    · exact ⟨hnd, hskip⟩

theorem nodup_cssFiles : ((cssFiles host).map WorkspaceStylesheetFile.uri).Nodup :=
  ((List.perm_insertionSort _ _).map _).nodup_iff.2 (nodup_collectFiles _ _ _).1

/-- The text of a file as the scan reads it. -/
def fileText (host : RulesStylesheetLocatorHost ρ) (limits : RulesStylesheetLocatorLimits)
    (file : WorkspaceStylesheetFile) : String :=
  match host.readText file.uri limits.fileMaxBytes with
  | .ok scanned => scanned.text
  | .error _ => ""

def fileBytes (host : RulesStylesheetLocatorHost ρ) (limits : RulesStylesheetLocatorLimits)
    (file : WorkspaceStylesheetFile) : ℕ :=
  match host.readText file.uri limits.fileMaxBytes with
  | .ok scanned => scanned.bytes
  | .error _ => 0

def Readable (host : RulesStylesheetLocatorHost ρ) (limits : RulesStylesheetLocatorLimits)
    (file : WorkspaceStylesheetFile) : Prop :=
  ∃ scanned, host.readText file.uri limits.fileMaxBytes = .ok scanned

/-- Neither budget is spent before the last of the files, in the order they are scanned. -/
def WithinBudget (host : RulesStylesheetLocatorHost ρ) (limits : RulesStylesheetLocatorLimits)
    (files : List WorkspaceStylesheetFile) : Prop :=
  files.length ≤ limits.scanMaxFiles ∧
    ∀ before file after, files = before ++ file :: after →
      (before.map (fileBytes host limits)).sum < limits.scanMaxBytes

variable {files : List WorkspaceStylesheetFile}

theorem readUntilSpent_eq {readBytes : ℕ} (hread : ∀ file ∈ files, Readable host limits file)
    (hbudget : ∀ before file after, files = before ++ file :: after →
      readBytes + (before.map (fileBytes host limits)).sum < limits.scanMaxBytes) :
    readUntilSpent host limits.scanMaxBytes limits.fileMaxBytes readBytes files =
      files.map fun file => ⟨file, .ok (fileText host limits file)⟩ := by
  induction files generalizing readBytes with
  | nil => rfl
  | cons file rest ih =>
    have hfirst : readBytes < limits.scanMaxBytes := by
      simpa using hbudget [] file rest rfl
    obtain ⟨scanned, hscanned⟩ := hread file (.head _)
    have htext : fileText host limits file = scanned.text := by rw [fileText, hscanned]
    have hbytes : fileBytes host limits file = scanned.bytes := by rw [fileBytes, hscanned]
    rw [readUntilSpent, if_neg (not_le.2 hfirst), hscanned, List.map_cons, htext]
    dsimp only
    rw [ih fun f hf => hread f (.tail _ hf)]
    intro before f after heq
    have hstep := hbudget (file :: before) f after (by rw [heq]; rfl)
    rw [List.map_cons, List.sum_cons, hbytes] at hstep
    omega

/-- Within the budget the scan reaches every file. -/
theorem readEach_eq (hread : ∀ file ∈ files, Readable host limits file)
    (hbudget : WithinBudget host limits files) :
    readEach host limits files limits.fileMaxBytes =
      files.map fun file => ⟨file, .ok (fileText host limits file)⟩ := by
  rw [readEach, List.take_of_length_le hbudget.1]
  refine readUntilSpent_eq hread fun before file after heq => ?_
  rw [Nat.zero_add]
  exact hbudget.2 before file after heq

theorem perm_scanOrder (stylesheets : List (ReportedStylesheet ρ)) :
    (scanOrder stylesheets files).Perm files :=
  List.perm_insertionSort _ _

/-! ## The scan -/

/-- What the scan makes of a file for one stylesheet. -/
def candidateOf (host : RulesStylesheetLocatorHost ρ) (limits : RulesStylesheetLocatorLimits)
    (words : Finset String) (stylesheet : ReportedStylesheet ρ) (file : WorkspaceStylesheetFile) :
    RankedStylesheetCandidate :=
  rankedCandidate stylesheet file (presentWords (fileText host limits file) words)

/-- The files that say anything for a stylesheet, in the order they were read. -/
def mentioning (host : RulesStylesheetLocatorHost ρ) (limits : RulesStylesheetLocatorLimits)
    (words : Finset String) (stylesheet : ReportedStylesheet ρ)
    (files : List WorkspaceStylesheetFile) : List RankedStylesheetCandidate :=
  (files.map (candidateOf host limits words stylesheet)).filter fun c => c.selectors ≠ 0

theorem foldl_visitFile {words : Finset String}
    {rankings : List (ReportedStylesheet ρ × List RankedStylesheetCandidate)}
    {unreadable : List UnreadableStylesheetFile} :
    ((files.map fun file => (⟨file, .ok (fileText host limits file)⟩ : ReadFile)).foldl
      (visitFile limits words) ⟨rankings, unreadable⟩).rankings =
      rankings.map fun ranking => (ranking.1,
        (mentioning host limits words ranking.1 files).foldl
          (keepBestRanked (limits.parsedCandidates + 1)) ranking.2) := by
  induction files generalizing rankings with
  | nil => simp [mentioning]
  | cons file rest ih =>
    rw [List.map_cons, List.foldl_cons, visitFile]
    dsimp only
    rw [ih, List.map_map]
    refine List.map_congr_left fun ranking _ => ?_
    simp only [Function.comp_apply, visitRanking, mentioning, List.map_cons, List.filter_cons]
    by_cases hsel : (candidateOf host limits words ranking.1 file).selectors = 0
    · have hsel' : (rankedCandidate ranking.1 file
          (presentWords (fileText host limits file) words)).selectors = 0 := hsel
      rw [if_pos hsel', if_neg (by simp [hsel])]
    · have hsel' : ¬ (rankedCandidate ranking.1 file
          (presentWords (fileText host limits file) words)).selectors = 0 := hsel
      rw [if_neg hsel', if_pos (by simp [hsel]), List.foldl_cons]
      rfl

/-- The ranking of a stylesheet after a complete scan. -/
theorem ranking_scanGenerated {stylesheets : List (ReportedStylesheet ρ)}
    {stylesheet : ReportedStylesheet ρ}
    (hfind : stylesheets.find? (fun s => s.sourceUrl = sourceUrl) = some stylesheet)
    (hread : ∀ file ∈ files, Readable host limits file)
    (hbudget : WithinBudget host limits (scanOrder stylesheets files)) :
    ((scanGenerated host limits stylesheets files).rankings.find?
      fun r => r.1.sourceUrl = sourceUrl).map Prod.snd =
    some (keepBest (fun left right => ¬ compareRanked right left < 0) (limits.parsedCandidates + 1)
      (mentioning host limits (stylesheetWords stylesheets) stylesheet
        (scanOrder stylesheets files))) := by
  have hread' : ∀ file ∈ scanOrder stylesheets files, Readable host limits file :=
    fun file hfile => hread file ((perm_scanOrder stylesheets).mem_iff.1 hfile)
  rw [scanGenerated, readEach_eq hread' hbudget, foldl_visitFile, List.map_map, List.find?_map]
  change Option.map Prod.snd (Option.map _ (stylesheets.find? fun s => s.sourceUrl = sourceUrl)) = _
  rw [hfind]
  rfl

/-! ## The located file -/

/-- The path a file shares with the served URL. -/
def similarityTo (host : RulesStylesheetLocatorHost ρ) (sourceUrl : String)
    (file : WorkspaceStylesheetFile) : ℕ :=
  sharedTrailingSegments (pathSegments host sourceUrl) file.segments

/-- The score of a file for the rules reported from the URL. -/
def scoreFor (host : RulesStylesheetLocatorHost ρ) (rules : List (ReportedRule ρ))
    (sourceUrl : String) (file : WorkspaceStylesheetFile) : StylesheetCandidateScore :=
  host.scoreCandidate file.uri (reportedBy rules sourceUrl)

/-- What is assumed of the workspace: every file is readable, the scan stays within its budget,
and no file carries more rules than it mentions. -/
structure Surveyable (host : RulesStylesheetLocatorHost ρ) (limits : RulesStylesheetLocatorLimits)
    (rules : List (ReportedRule ρ)) (sourceUrl : String) : Prop where
  readable : ∀ file ∈ cssFiles host, Readable host limits file
  budget : WithinBudget host limits (scanOrder (reportedStylesheets host rules) (cssFiles host))
  score_le : ∀ file ∈ cssFiles host, (scoreFor host rules sourceUrl file).verifiedCount ≤
    mentionedRules (fileText host limits file) (reportedBy rules sourceUrl)

/-- The file that stands highest among all files of the workspace. -/
def GreatestFile (host : RulesStylesheetLocatorHost ρ) (rules : List (ReportedRule ρ))
    (sourceUrl : String) : WorkspaceStylesheetFile → Prop :=
  Greatest (similarityTo host sourceUrl) (scoreFor host rules sourceUrl) (cssFiles host)

/-- How many files mention a selector reported from the URL. -/
def mentioningFiles (host : RulesStylesheetLocatorHost ρ) (limits : RulesStylesheetLocatorLimits)
    (rules : List (ReportedRule ρ)) (sourceUrl : String) : ℕ :=
  ((cssFiles host).filter fun file =>
    0 < mentionedRules (fileText host limits file) (reportedBy rules sourceUrl)).length

variable (hsurvey : Surveyable host limits rules sourceUrl)

include hsurvey in
/-- A closest file that carries every rule stands highest. -/
theorem likeliest_greatest {uri : String} (hne : reportedBy rules sourceUrl ≠ [])
    (hclosest : closestFile (pathSegments host sourceUrl) (cssFiles host) 1 = some uri)
    (hall : carriesAll (reportedStylesheet host sourceUrl (reportedBy rules sourceUrl))
      (host.scoreCandidate uri (reportedBy rules sourceUrl)) = true) :
    ∃ file, file.uri = uri ∧ GreatestFile host rules sourceUrl file := by
  obtain ⟨before, file, after, hfiles, rfl, hcloser⟩ := closestFile_spec hclosest
  have hfile : file ∈ cssFiles host := by rw [hfiles]; simp
  have hcount : (scoreFor host rules sourceUrl file).verifiedCount =
      (reportedBy rules sourceUrl).length := by
    cases hk : host.scoreCandidate file.uri (reportedBy rules sourceUrl) with
    | failed reason => rw [hk] at hall; cases hall
    | verified count corroborated =>
      rw [hk] at hall
      simp only [scoreFor, hk, StylesheetCandidateScore.verifiedCount]
      exact of_decide_eq_true hall
  refine ⟨file, rfl, hfile, ?_, fun other hother hdiff => ?_⟩
  · rw [hcount]
    exact List.length_pos_of_ne_nil hne
  · have hle := hsurvey.score_le other hother
    have hmentioned : mentionedRules (fileText host limits other) (reportedBy rules sourceUrl) ≤
        (reportedBy rules sourceUrl).length := List.length_filter_le _ _
    have hcloser : similarityTo host sourceUrl other < similarityTo host sourceUrl file := by
      refine hcloser other ?_
      rw [hfiles] at hother
      simp only [List.mem_append, List.mem_cons] at hother ⊢
      tauto
    refine standing_lt.2 ?_
    omega

include hsurvey in
/-- The ranking the choice is made from. -/
theorem rankedFiles (hne : reportedBy rules sourceUrl ≠ []) :
    RankedFiles (similarityTo host sourceUrl) (scoreFor host rules sourceUrl)
      limits.parsedCandidates
      (candidateOf host limits (stylesheetWords (reportedStylesheets host rules))
        (reportedStylesheet host sourceUrl (reportedBy rules sourceUrl)))
      (cssFiles host)
      (keepBest (fun left right => ¬ compareRanked right left < 0) (limits.parsedCandidates + 1)
        (mentioning host limits (stylesheetWords (reportedStylesheets host rules))
          (reportedStylesheet host sourceUrl (reportedBy rules sourceUrl))
          (scanOrder (reportedStylesheets host rules) (cssFiles host)))) where
  nodup := nodup_cssFiles
  uri _ := rfl
  similarity _ := rfl
  score_le file hfile := by
    have hmem : reportedStylesheet host sourceUrl (reportedBy rules sourceUrl) ∈
        reportedStylesheets host rules := by
      have hfind : (reportedStylesheets host rules).find? (fun s => s.sourceUrl = sourceUrl) = _ :=
        find?_reportedStylesheets
      rw [if_neg hne] at hfind
      exact List.mem_of_find?_eq_some hfind
    rw [candidateOf, selectors_rankedCandidate file _ hmem]
    exact hsurvey.score_le file hfile
  best := (BestOf.keepBest _ _).perm
    (((perm_scanOrder (reportedStylesheets host rules)).symm.map _).filter _)

/-- The scored candidates are the parsed ones, each with its own score. -/
theorem scored_ranked {ranked : List RankedStylesheetCandidate} {words : Finset String}
    {stylesheet : ReportedStylesheet ρ} (hrules : stylesheet.rules = reportedBy rules sourceUrl) :
    RankedFiles.Scored (scoreFor host rules sourceUrl) (candidateOf host limits words stylesheet)
      files (ranked.take limits.parsedCandidates)
      ((ranked.take limits.parsedCandidates).map fun candidate =>
        ⟨candidate, host.scoreCandidate candidate.uri stylesheet.rules⟩) := by
  refine ⟨?_, ?_⟩
  · rw [List.map_map]
    exact List.map_id _
  · intro s hs file _ hcand
    obtain ⟨candidate, -, rfl⟩ := List.mem_map.1 hs
    have huri : candidate.uri = file.uri := congrArg RankedStylesheetCandidate.uri hcand
    rw [scoreFor, ← huri, hrules]

theorem chooseGeneratedStylesheet_nil {firstUnparsed : Option RankedStylesheetCandidate}
    {unreadable : Option UnreadableStylesheetCandidate} :
    chooseGeneratedStylesheet [] firstUnparsed unreadable =
      .unlocated (unverifiedReason [] unreadable) := rfl

/-- With nothing parsed there is only a reason; otherwise the choice is made. -/
theorem chooseRanked_located {stylesheet : ReportedStylesheet ρ} {scan : StylesheetScan ρ}
    {ranked : List RankedStylesheetCandidate} {uri : String}
    (likeliestScore : Option StylesheetCandidateScore)
    (hranked : (scan.rankings.find? fun r => r.1.sourceUrl = stylesheet.sourceUrl).map Prod.snd =
      some ranked) :
    chooseRanked host limits stylesheet likeliestScore scan = .located uri ↔
      chooseGeneratedStylesheet
        ((ranked.take limits.parsedCandidates).map fun candidate =>
          ⟨candidate, host.scoreCandidate candidate.uri stylesheet.rules⟩)
        ranked[limits.parsedCandidates]?
        (closestUnreadable scan.unreadable stylesheet.urlSegments) = .located uri := by
  unfold chooseRanked
  rw [hranked, Option.getD_some]
  dsimp only
  split
  · next hnil =>
    rw [hnil, chooseGeneratedStylesheet_nil]
    simp
  · next hnil =>
    rw [hnil, chooseGeneratedStylesheet_nil]
    simp
  · exact Iff.rfl

include hsurvey in
/-- After the scan: what is located stands highest, and what stands highest is located if all
files that mention a selector are parsed. -/
theorem chooseRanked_spec (likeliestScore : Option StylesheetCandidateScore)
    (hne : reportedBy rules sourceUrl ≠ []) :
    (∀ uri, chooseRanked host limits
        (reportedStylesheet host sourceUrl (reportedBy rules sourceUrl)) likeliestScore
        (scanGenerated host limits (reportedStylesheets host rules) (cssFiles host)) =
          .located uri →
      ∃ file, file.uri = uri ∧ GreatestFile host rules sourceUrl file) ∧
    (mentioningFiles host limits rules sourceUrl ≤ limits.parsedCandidates →
      ∀ file, GreatestFile host rules sourceUrl file →
        chooseRanked host limits
          (reportedStylesheet host sourceUrl (reportedBy rules sourceUrl)) likeliestScore
          (scanGenerated host limits (reportedStylesheets host rules) (cssFiles host)) =
            .located file.uri) := by
  have hfind : (reportedStylesheets host rules).find? (fun s => s.sourceUrl = sourceUrl) = _ :=
    find?_reportedStylesheets
  rw [if_neg hne] at hfind
  have hranking := ranking_scanGenerated hfind hsurvey.readable hsurvey.budget
  have hfiles := rankedFiles hsurvey hne
  refine ⟨fun uri hchosen => ?_, fun hfew file hgreatest => ?_⟩
  · rw [chooseRanked_located likeliestScore hranking] at hchosen
    exact hfiles.chosen_greatest (scored_ranked rfl) hchosen
  · rw [chooseRanked_located likeliestScore hranking]
    refine hfiles.greatest_chosen (scored_ranked rfl) (le_of_eq_of_le ?_ hfew) hgreatest
    have hmem : reportedStylesheet host sourceUrl (reportedBy rules sourceUrl) ∈
        reportedStylesheets host rules := List.mem_of_find?_eq_some hfind
    rw [mentioningFiles, List.filter_map, List.length_map]
    congr 1
    refine List.filter_congr fun file _ => ?_
    simp only [Function.comp_apply, candidateOf, selectors_rankedCandidate file _ hmem, ne_eq,
      decide_not, Nat.pos_iff_ne_zero]

include hsurvey in
/-- The locator with an empty memory makes the exhaustive choice: what it locates stands highest
among all files of the workspace, and when no more files than it parses mention a selector,
the file that stands highest is located. -/
theorem locateGenerated_exhaustive :
    (∀ uri, (locateGenerated host limits rules .empty sourceUrl).1 = .located uri →
      ∃ file, file.uri = uri ∧ GreatestFile host rules sourceUrl file) ∧
    (mentioningFiles host limits rules sourceUrl ≤ limits.parsedCandidates →
      ∀ file, GreatestFile host rules sourceUrl file →
        (locateGenerated host limits rules .empty sourceUrl).1 = .located file.uri) := by
  have hfind : (reportedStylesheets host rules).find? (fun s => s.sourceUrl = sourceUrl) = _ :=
    find?_reportedStylesheets
  have hrecall : ∀ stylesheet : ReportedStylesheet ρ,
      recalled host .empty sourceUrl stylesheet (workspaceFiles host "**/*.css" ".css") = none :=
    fun _ => rfl
  by_cases hne : reportedBy rules sourceUrl = []
  -- nothing was reported from the URL, so no file carries a rule
  · rw [if_pos hne] at hfind
    have hnone : (locateGenerated host limits rules .empty sourceUrl).1 =
        .unlocated "generated-source-not-found" := by
      simp only [locateGenerated, locateGeneratedAnew, hfind]
    refine ⟨fun uri hloc => ?_, fun _ file hgreatest => ?_⟩
    · rw [hnone] at hloc
      cases hloc
    · have hle := hsurvey.score_le file hgreatest.1
      rw [hne] at hle
      exact absurd (hgreatest.2.1.trans_le hle) (Nat.lt_irrefl 0)
  rw [if_neg hne] at hfind
  simp only [locateGenerated, locateGeneratedAnew, hfind, hrecall]
  cases hclosest : closestFile (reportedStylesheet host sourceUrl
      (reportedBy rules sourceUrl)).urlSegments (workspaceFiles host "**/*.css" ".css") 1 with
  | none => exact chooseRanked_spec hsurvey none hne
  | some likeliest =>
    dsimp only [Option.map_some, Option.any_some]
    split
    -- the closest file carries everything: it is the greatest, and there is only one
    · next hall =>
      obtain ⟨best, hbest, hgreatest⟩ := likeliest_greatest hsurvey hne hclosest hall
      refine ⟨fun uri hloc => ?_, fun _ file hfile => ?_⟩
      · cases hloc
        exact ⟨best, hbest, hgreatest⟩
      · by_cases hsame : file = best
        · rw [hsame, hbest]
        · have hlt := hgreatest.2.2 file hfile.1 hsame
          exact absurd (hfile.2.2 best hgreatest.1 (Ne.symm hsame)) hlt.not_gt
    · exact chooseRanked_spec hsurvey _ hne

end

namespace Sample

/-- Two files of the same text; the one that is served is closer. -/
def host : RulesStylesheetLocatorHost Unit where
  findFiles _ := some ["/src/app.css", "/dist/app.css"]
  isWorkspaceUri _ := true
  readText _ _ := .ok ⟨".card { color: red }", 20⟩
  scoreCandidate uri _ := if uri = "/dist/app.css" then .verified 1 1 else .verified 1 0
  canonicalRulesSourceUri := some
  pathname := some
  decodeURIComponent := some

def limits : RulesStylesheetLocatorLimits := ⟨2000, 1000, 1000, 8⟩

def rules : List (ReportedRule Unit) :=
  [⟨".card", [("color", "red")], some "/site/dist/app.css", ()⟩]

theorem surveyable : Surveyable host limits rules "/site/dist/app.css" where
  readable _ _ := ⟨_, rfl⟩
  budget := by
    refine ⟨by decide, fun before file after heq => ?_⟩
    have hlen : before.length + (after.length + 1) = 2 := by
      have h := congrArg List.length heq
      rw [List.length_append, List.length_cons] at h
      exact h.symm
    have hsum : ∀ l : List WorkspaceStylesheetFile,
        (l.map (fileBytes host limits)).sum = 20 * l.length := by
      intro l
      induction l with
      | nil => rfl
      | cons f l ih =>
        have hf : fileBytes host limits f = 20 := rfl
        rw [List.map_cons, List.sum_cons, ih, hf, List.length_cons]
        omega
    rw [hsum, limits]
    dsimp only
    omega
  score_le file _ := by
    have hmentioned : mentionedRules (fileText host limits file)
        (reportedBy rules "/site/dist/app.css") = 1 := by
      have htext : fileText host limits file = ".card { color: red }" := rfl
      rw [htext]
      decide +kernel
    rw [hmentioned]
    simp only [scoreFor, host]
    split <;> rfl

end Sample

/-- The closer of two files is located, and it is the exhaustive choice. -/
theorem locateGenerated_sample :
    (locateGenerated Sample.host Sample.limits Sample.rules .empty "/site/dist/app.css").1 =
      .located "/dist/app.css" ∧
    ∃ file, file.uri = "/dist/app.css" ∧
      GreatestFile Sample.host Sample.rules "/site/dist/app.css" file :=
  ⟨rfl, (locateGenerated_exhaustive Sample.surveyable).1 _ rfl⟩

end PinOp.Rules
