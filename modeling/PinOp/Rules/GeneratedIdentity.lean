import PinOp.Rules.GeneratedRule

/-!
# A generated rule is identified by what it carries

Both ways to find a rule have one notion of carrying a report. So the rule that is found
carries it, a rule that alone carries it is found wherever the browser says it stands, and a
rule that is found by what it carries alone has no double. Rules in groupings that the match
leaves aside count in neither direction.
-/

namespace PinOp.Rules

open PinOp.Lib PinOp.Css PinOp.Css.CssFile

variable {spelling : CssSpelling} {stylesheet : CssFile} {evidence : InspectRuleEvidence}
  {rule other : ParsedRule}

/-- The conditions that were reported. -/
def InspectRuleEvidence.contexts (evidence : InspectRuleEvidence) : List StylesheetRuleContext :=
  (evidence.generatedSource.map InspectGeneratedSource.contexts).getD []

/-- The rule has the selector and the conditions of the report. -/
def Compatible (spelling : CssSpelling) (evidence : InspectRuleEvidence) (rule : ParsedRule) : Prop :=
  rule.comparedSelector = spelling.normalizeSelector evidence.selector ∧
    rule.contexts = normalizedContexts spelling evidence.contexts

/-- The rule carries the report: its selector, its conditions and its declarations. -/
structure Carries (spelling : CssSpelling) (evidence : InspectRuleEvidence) (rule : ParsedRule) :
    Prop where
  compatible : Compatible spelling evidence rule
  declarations : ∃ reported,
    completeDeclarationFingerprint spelling (declarationEvidence evidence) = some reported ∧
      equalReportedDeclarations reported rule.fingerprint.declarations = true

/-- A rule of the file that stands under nothing but conditions. -/
def Accounted (spelling : CssSpelling) (stylesheet : CssFile) (rule : ParsedRule) : Prop :=
  rule ∈ stylesheet.rules spelling ∧ rule.hasUnsupportedGroupingContext = false

theorem equalContexts_iff {reported actual : List StylesheetRuleContext} :
    equalContexts spelling reported actual = true ↔ actual = normalizedContexts spelling reported := by
  have hmap : equalContexts spelling reported actual =
      equalRuleContexts (normalizedContexts spelling reported) actual := by
    simp only [equalContexts, equalRuleContexts, normalizedContexts, List.length_map,
      List.zip_map_left, List.all_map]
    rfl
  rw [hmap, equalRuleContexts_iff, eq_comm]

/-! ## Both ways ask for the same -/

theorem ruleMatchesEvidence_iff :
    ruleMatchesEvidence spelling rule evidence = true ↔
      rule.hasUnsupportedGroupingContext = false ∧ rule.hasCompleteDeclarationFingerprint = true ∧
        Carries spelling evidence rule := by
  have hcontexts : equalContexts spelling evidence.contexts rule.contexts = true ↔
      rule.contexts = normalizedContexts spelling evidence.contexts := equalContexts_iff
  unfold ruleMatchesEvidence
  split
  next h =>
    refine ⟨nofun, fun ⟨hgroup, hcomplete, _⟩ => ?_⟩
    simp [hgroup, hcomplete] at h
  next h =>
  have hguard : rule.hasUnsupportedGroupingContext = false ∧
      rule.hasCompleteDeclarationFingerprint = true := by
    simpa using h
  split
  next hselector =>
    refine ⟨nofun, fun ⟨_, _, hcarries⟩ => ?_⟩
    exact absurd hcarries.compatible.1.symm hselector
  next hselector =>
  have hsame : rule.comparedSelector = spelling.normalizeSelector evidence.selector :=
    (not_not.1 hselector).symm
  split
  next hnone =>
    refine ⟨nofun, fun ⟨_, _, hcarries⟩ => ?_⟩
    obtain ⟨reported, hreported, -⟩ := hcarries.declarations
    rw [hnone] at hreported
    cases hreported
  next reported hreported =>
  split
  next hequal =>
    refine ⟨fun h => ⟨hguard.1, hguard.2, ⟨hsame, hcontexts.1 h⟩, reported, hreported, hequal⟩, ?_⟩
    exact fun ⟨_, _, hcarries⟩ => hcontexts.2 hcarries.compatible.2
  next hequal =>
    refine ⟨nofun, fun ⟨_, _, hcarries⟩ => ?_⟩
    obtain ⟨reported', hreported', hequal'⟩ := hcarries.declarations
    obtain rfl := Option.some.inj (hreported.symm.trans hreported')
    exact absurd hequal' hequal

/-- A list without doubles is one element when this is the only one that passes. -/
theorem filter_eq_singleton {α : Type} {p : α → Bool} {found : List α} {a : α} (hnodup : found.Nodup) :
    found.filter p = [a] ↔ a ∈ found ∧ p a = true ∧ ∀ b ∈ found, p b = true → b = a := by
  constructor
  · intro h
    have hmem : a ∈ found.filter p := by rw [h]; exact List.mem_singleton_self a
    refine ⟨(List.mem_filter.1 hmem).1, (List.mem_filter.1 hmem).2, fun b hb hp => ?_⟩
    have hbmem : b ∈ found.filter p := List.mem_filter.2 ⟨hb, hp⟩
    rw [h] at hbmem
    exact List.mem_singleton.1 hbmem
  · rintro ⟨ha, hp, honly⟩
    have hsub : found.filter p ⊆ [a] := fun b hb =>
      List.mem_singleton.2 (honly b (List.mem_filter.1 hb).1 (List.mem_filter.1 hb).2)
    have hmem : a ∈ found.filter p := List.mem_filter.2 ⟨ha, hp⟩
    rcases hfilter : found.filter p with - | ⟨b, rest⟩
    · rw [hfilter] at hmem
      cases hmem
    · have hrest : rest = [] := by
        have hnodup' := hnodup.filter p
        rw [hfilter] at hnodup' hsub
        refine List.eq_nil_iff_forall_not_mem.2 fun c hc => ?_
        have hb : b = a := List.mem_singleton.1 (hsub List.mem_cons_self)
        have hca : c = a := List.mem_singleton.1 (hsub (List.mem_cons_of_mem b hc))
        exact (List.nodup_cons.1 hnodup').1 (hb.trans hca.symm ▸ hc)
      rw [hfilter] at hsub
      rw [hrest, List.mem_singleton.1 (hsub List.mem_cons_self)]

theorem nodup_fileRules : (stylesheet.rules spelling).Nodup :=
  List.Nodup.of_map _ (stylesheet.nodup_rules spelling)

/-- The evidence that the search among all rules is given. -/
def fingerprintEvidence (evidence : InspectRuleEvidence) : CompleteRuleFingerprintEvidence :=
  ⟨evidence.selector, declarationEvidence evidence, evidence.contexts⟩

/-- The search among all rules finds the only one that carries the report, where no compatible rule
leaves open what it declares. -/
theorem findUnique_eq_some (hselector : (spelling.normalizeSelector evidence.selector).isSome) :
    stylesheet.findUniqueRuleByCompleteFingerprint spelling (fingerprintEvidence evidence) = some rule ↔
      (∀ other, Accounted spelling stylesheet other → Compatible spelling evidence other →
        other.hasCompleteDeclarationFingerprint = true) ∧
      Accounted spelling stylesheet rule ∧ Carries spelling evidence rule ∧
      ∀ other, Accounted spelling stylesheet other → Carries spelling evidence other → other = rule := by
  obtain ⟨selector, hsome⟩ := Option.isSome_iff_exists.1 hselector
  have hcompatible : ∀ other : ParsedRule,
      (other ∈ (stylesheet.rules spelling).filter fun rule => !rule.hasUnsupportedGroupingContext &&
        rule.comparedSelector = some selector &&
          equalRuleContexts (normalizedContexts spelling evidence.contexts) rule.contexts) ↔
      Accounted spelling stylesheet other ∧ Compatible spelling evidence other := by
    intro other
    rw [List.mem_filter, Accounted, Compatible, hsome]
    simp only [Bool.and_eq_true, Bool.not_eq_true', decide_eq_true_eq, equalRuleContexts_iff,
      eq_comm (a := normalizedContexts spelling evidence.contexts)]
    tauto
  unfold findUniqueRuleByCompleteFingerprint fingerprintEvidence
  simp only [hsome]
  cases hreported : completeDeclarationFingerprint spelling (declarationEvidence evidence) with
  | none =>
    refine ⟨nofun, fun ⟨_, _, hcarries, _⟩ => ?_⟩
    obtain ⟨reported, hreported', -⟩ := hcarries.declarations
    rw [hreported] at hreported'
    cases hreported'
  | some reported =>
    have hcarries : ∀ other : ParsedRule, Carries spelling evidence other ↔
        Compatible spelling evidence other ∧
          equalReportedDeclarations reported other.fingerprint.declarations = true := by
      intro other
      refine ⟨fun h => ⟨h.compatible, ?_⟩, fun h => ⟨h.1, reported, hreported, h.2⟩⟩
      obtain ⟨reported', hreported', hequal⟩ := h.declarations
      obtain rfl := Option.some.inj (hreported.symm.trans hreported')
      exact hequal
    simp only
    split
    next hany =>
      refine ⟨nofun, fun ⟨hcomplete, _⟩ => ?_⟩
      obtain ⟨other, hother, hincomplete⟩ := List.any_eq_true.1 hany
      obtain ⟨haccounted, hcomp⟩ := (hcompatible other).1 hother
      simp [hcomplete other haccounted hcomp] at hincomplete
    next hall =>
      have hcomplete : ∀ other, Accounted spelling stylesheet other →
          Compatible spelling evidence other → other.hasCompleteDeclarationFingerprint = true := by
        intro other haccounted hcomp
        by_contra hincomplete
        refine hall (List.any_eq_true.2 ⟨other, (hcompatible other).2 ⟨haccounted, hcomp⟩, ?_⟩)
        simpa using hincomplete
      rw [onlyMatch_eq_some, filter_eq_singleton (nodup_fileRules.filter _)]
      simp only [hcompatible, hcarries]
      tauto

/-! ## Candidates are rules of the file -/

theorem exactIdentityCandidate_eq_some {generated : InspectGeneratedSource}
    {byPosition byPath : Option ParsedRule}
    (h : exactIdentityCandidate generated byPosition byPath = some rule) :
    byPosition = some rule ∨ byPath = some rule := by
  dsimp only [exactIdentityCandidate] at h
  split at h
  · cases h
  split at h
  · cases h
  have hmem : ∀ candidate, candidate ∈
      (if (generated.startLine.isSome || generated.startColumn.isSome) = true then byPosition.toList
        else []) ++ (if generated.rulePath.isSome = true then byPath.toList else []) →
      byPosition = some candidate ∨ byPath = some candidate := by
    intro candidate hcandidate
    rcases List.mem_append.1 hcandidate with hcandidate | hcandidate
    · split at hcandidate
      · exact .inl (Option.mem_toList.1 hcandidate)
      · cases hcandidate
    · split at hcandidate
      · exact .inr (Option.mem_toList.1 hcandidate)
      · cases hcandidate
  revert h hmem
  generalize (if (generated.startLine.isSome || generated.startColumn.isSome) = true then
    byPosition.toList else []) ++ (if generated.rulePath.isSome = true then byPath.toList else []) =
      candidates
  intro h hmem
  split at h
  · cases h
  next candidate hhead =>
  split at h
  · cases h
  split at h
  · obtain rfl := Option.some.inj h
    exact hmem candidate (List.mem_of_head? hhead)
  · cases h

/-- A match was made where the browser says the rule stands, or by the search among all rules. -/
theorem matchGeneratedRule_cases {found : GeneratedRuleMatch}
    (h : matchGeneratedRule spelling stylesheet evidence = some found) :
    (found.corroborated = true ∧ found.rule ∈ stylesheet.rules spelling ∧
      ruleMatchesEvidence spelling found.rule evidence = true) ∨
    (found.corroborated = false ∧ stylesheet.findUniqueRuleByCompleteFingerprint spelling
      (fingerprintEvidence evidence) = some found.rule) := by
  unfold matchGeneratedRule at h
  split at h
  · cases h
  next generated hgenerated =>
  have hcontexts : generated.contexts = evidence.contexts := by
    rw [InspectRuleEvidence.contexts, hgenerated]
    rfl
  have hrelocated : ∀ {found : GeneratedRuleMatch},
      (stylesheet.findUniqueRuleByCompleteFingerprint spelling
        ⟨evidence.selector, declarationEvidence evidence, generated.contexts⟩).map
          (fun rule => (⟨rule, false⟩ : GeneratedRuleMatch)) = some found →
      found.corroborated = false ∧ stylesheet.findUniqueRuleByCompleteFingerprint spelling
        (fingerprintEvidence evidence) = some found.rule := by
    intro found hfound
    obtain ⟨rule, hrule, rfl⟩ := Option.map_eq_some_iff.1 hfound
    rw [hcontexts] at hrule
    exact ⟨rfl, hrule⟩
  simp only at h
  split at h
  next candidate hcandidate =>
    split at h
    next hmatches =>
      obtain rfl := Option.some.inj h
      refine .inl ⟨rfl, ?_, hmatches⟩
      rcases exactIdentityCandidate_eq_some hcandidate with hposition | hpath
      · split at hposition
        · exact mem_of_position hposition
        · cases hposition
      · split at hpath
        · cases hpath
        · exact mem_of_path hpath
    next => exact .inr (hrelocated h)
  next => exact .inr (hrelocated h)

/-- What the search among all rules finds is found, or else a rule where the browser says it
stands. -/
theorem matchGeneratedRule_isSome (hgenerated : evidence.generatedSource.isSome)
    (h : stylesheet.findUniqueRuleByCompleteFingerprint spelling (fingerprintEvidence evidence) =
      some rule) :
    ∃ found, matchGeneratedRule spelling stylesheet evidence = some found := by
  obtain ⟨generated, hsome⟩ := Option.isSome_iff_exists.1 hgenerated
  have hcontexts : evidence.contexts = generated.contexts := by
    rw [InspectRuleEvidence.contexts, hsome]
    rfl
  unfold matchGeneratedRule
  simp only [hsome]
  rw [fingerprintEvidence, hcontexts] at h
  rw [h]
  split
  · split
    · exact ⟨_, rfl⟩
    · exact ⟨_, rfl⟩
  · exact ⟨_, rfl⟩

/-! ## The match -/

/-- The rule that is found is an accounted rule that carries the report. The only accounted rule that
carries it is found, whatever the report says about where it stands, unless a compatible rule
leaves open what it declares. Where the match is not corroborated no other accounted rule carries
the report. -/
theorem generatedRuleIdentified (spelling : CssSpelling) (stylesheet : CssFile)
    (evidence : InspectRuleEvidence)
    (hselector : (spelling.normalizeSelector evidence.selector).isSome) :
    (∀ found, matchGeneratedRule spelling stylesheet evidence = some found →
      Accounted spelling stylesheet found.rule ∧ Carries spelling evidence found.rule) ∧
    (∀ rule, evidence.generatedSource.isSome →
      Accounted spelling stylesheet rule → Carries spelling evidence rule →
      (∀ other, Accounted spelling stylesheet other → Carries spelling evidence other →
        other = rule) →
      (∀ other, Accounted spelling stylesheet other → Compatible spelling evidence other →
        other.hasCompleteDeclarationFingerprint = true) →
      verifyGeneratedRule spelling stylesheet evidence = some rule) ∧
    (∀ found, matchGeneratedRule spelling stylesheet evidence = some found →
      found.corroborated = false → ∀ other, Accounted spelling stylesheet other →
        Carries spelling evidence other → other = found.rule) := by
  have hsound : ∀ found, matchGeneratedRule spelling stylesheet evidence = some found →
      Accounted spelling stylesheet found.rule ∧ Carries spelling evidence found.rule := by
    intro found h
    rcases matchGeneratedRule_cases h with ⟨-, hmem, hmatches⟩ | ⟨-, hunique⟩
    · obtain ⟨hgroup, -, hcarries⟩ := ruleMatchesEvidence_iff.1 hmatches
      exact ⟨⟨hmem, hgroup⟩, hcarries⟩
    · obtain ⟨-, haccounted, hcarries, -⟩ := (findUnique_eq_some hselector).1 hunique
      exact ⟨haccounted, hcarries⟩
  refine ⟨hsound, ?_, ?_⟩
  · intro rule hgenerated haccounted hcarries honly hcomplete
    have hunique := (findUnique_eq_some hselector).2 ⟨hcomplete, haccounted, hcarries, honly⟩
    obtain ⟨found, hfound⟩ := matchGeneratedRule_isSome hgenerated hunique
    obtain ⟨haccounted', hcarries'⟩ := hsound found hfound
    rw [verifyGeneratedRule, hfound, Option.map_some, honly found.rule haccounted' hcarries']
  · intro found h hrelocated
    rcases matchGeneratedRule_cases h with ⟨hcorroborated, -⟩ | ⟨-, hunique⟩
    · rw [hrelocated] at hcorroborated
      cases hcorroborated
    · exact ((findUnique_eq_some hselector).1 hunique).2.2.2

/-! ## Samples -/

namespace Sample

/-- Everything is its own spelling. -/
def plain : CssSpelling where
  toLowerCase := id
  localeCompare := compareText
  normalizeSelector := some
  normalizeCssValue := id
  longhands := fun property value => [(property, value)]

/-- A file in which every rule turns things red. -/
def redFile (text : String) (tree : SyntaxTree)
    (h : (parseStylesheet Css.Sample.tags .css text tree none).isSome) : CssFile where
  parser := Css.Sample.tags
  text := text
  tree := tree
  directDeclarations := fun _ => [⟨"color", "red", none, none⟩]
  maxRules := none
  stylesheet := (parseStylesheet Css.Sample.tags .css text tree none).get h
  parsed := (Option.some_get h).symm

def sheet : CssFile :=
  redFile "a{color:red}b{color:red}"
    ⟨[.rule ⟨1, "a", some 0, some 12⟩ [.decl], .rule ⟨2, "b", some 12, some 24⟩ [.decl]], by decide⟩
    (by decide +kernel)

/-- The report of a red rule that stands at a place. -/
def reportedAt (line column : ℤ) (path : String) : InspectRuleEvidence :=
  ⟨"a", [⟨"color", "red", false, false⟩],
    some ⟨some line, some column, none, none, some path, []⟩⟩

def ruleA : ParsedRule := sheet.ruleOf plain ⟨1, "a", 0, 12, 1⟩

/-- One rule, in a layer. -/
def layered : CssFile :=
  redFile "@layer x{a{color:red}}"
    ⟨[.atrule ⟨"layer", "x", true⟩ [.rule ⟨1, "a", some 9, some 21⟩ [.decl]]], by decide⟩
    (by decide +kernel)

def layeredRule : ParsedRule := layered.ruleOf plain ⟨1, "a", 9, 21, 10⟩

theorem carries_reported (line column : ℤ) (path : String) {rule : ParsedRule}
    (hselector : rule.comparedSelector = some "a") (hcontexts : rule.contexts = [])
    (hdeclarations : rule.fingerprint.declarations = [⟨"color", "red", false⟩]) :
    Carries plain (reportedAt line column path) rule := by
  have hreported : completeDeclarationFingerprint plain [⟨"color", "red", some false, some true⟩] =
      some [⟨"color", "red", false⟩] := by decide +kernel
  refine ⟨⟨hselector, hcontexts⟩, [⟨"color", "red", false⟩], hreported, ?_⟩
  rw [hdeclarations]
  decide +kernel

end Sample

open Sample

/-- The browser reports the first rule with the place of the second. -/
theorem generatedRuleIdentified_sample :
    verifyGeneratedRule plain sheet (reportedAt 1 13 "0.1") = some ruleA := by
  have hrules : ∀ other ∈ sheet.rules plain, (other.comparedSelector = some "a" → other = ruleA) ∧
      other.hasCompleteDeclarationFingerprint = true := by
    decide +kernel
  refine (generatedRuleIdentified plain sheet (reportedAt 1 13 "0.1") rfl).2.1 ruleA rfl
    ⟨?_, ?_⟩ (carries_reported 1 13 "0.1" ?_ ?_ ?_) ?_ ?_
  · decide +kernel
  · decide +kernel
  · decide +kernel
  · decide +kernel
  · decide +kernel
  · exact fun other haccounted hcarries => (hrules other haccounted.1).1 hcarries.compatible.1
  · exact fun other haccounted _ => (hrules other haccounted.1).2

/-- The only rule of a file carries the report, declares all and stands where the browser says, but it
is not found: a layer is no condition. -/
theorem layered_not_found :
    layered.rules plain = [layeredRule] ∧
      Carries plain (reportedAt 1 10 "0.0.0") layeredRule ∧
      layeredRule.hasCompleteDeclarationFingerprint = true ∧
      verifyGeneratedRule plain layered (reportedAt 1 10 "0.0.0") = none := by
  refine ⟨?_, carries_reported 1 10 "0.0.0" ?_ ?_ ?_, ?_, ?_⟩
  · decide +kernel
  · decide +kernel
  · decide +kernel
  · decide +kernel
  · decide +kernel
  · decide +kernel

end PinOp.Rules
