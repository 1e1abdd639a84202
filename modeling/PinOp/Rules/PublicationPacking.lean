import Mathlib.Data.List.ReduceOption
import PinOp.Bridge.ReplyRouteRegistry
import PinOp.Rules.RulesSourcesPublication

/-!
# A publication of rules is complete

What is published are the resolutions of the rules, in the order of the evidence, up to the first
that does not fit. The rest are counted, and the bridge counts the same.
-/

namespace PinOp.Rules.RulesSourcesPublication

open PinOp.Lib PinOp.Protocol

variable {host : PublicationHost} {request : RulesSourcesPublicationRequest}

/-! ## The rules of the evidence -/

/-- The refs of the evidence, each where it comes first. -/
def evidenceRefs (request : RulesSourcesPublicationRequest) : List String :=
  (request.ruleEvidence.rules.map InspectRuleEvidence.ruleRef).eraseDups

theorem eraseDups_concat (l : List String) (a : String) :
    (l ++ [a]).eraseDups = if l.contains a then l.eraseDups else l.eraseDups ++ [a] := by
  rw [List.eraseDups_append]
  by_cases hmem : a ∈ l
  · simp [List.removeAll, hmem]
  · simp [List.removeAll, hmem, List.eraseDups_cons]

theorem nodup_eraseDups (l : List String) : l.eraseDups.Nodup := by
  induction l using List.reverseRecOn with
  | nil => exact List.nodup_nil
  | append_singleton l a ih =>
    rw [eraseDups_concat]
    split
    · exact ih
    · rename_i hnew
      refine List.Nodup.append ih (List.nodup_singleton a) ?_
      rw [List.disjoint_singleton, List.mem_eraseDups]
      simpa using hnew

theorem orderedUniqueRuleRefs_eq (request : RulesSourcesPublicationRequest) :
    orderedUniqueRuleRefs request.ruleEvidence = evidenceRefs request := by
  unfold orderedUniqueRuleRefs evidenceRefs
  induction request.ruleEvidence.rules using List.reverseRecOn with
  | nil => rfl
  | append_singleton rules rule ih =>
    rw [List.foldl_append, ih, List.map_append, List.map_singleton, eraseDups_concat]
    simp only [List.foldl_cons, List.foldl_nil, List.contains_eq_mem, List.mem_eraseDups]

/-! ## The resolutions -/

/-- The resolution of a rule that has exactly one result. -/
def uniquelyResolved (results : List RuleSourceResolution) (ruleRef : String) :
    Option ResolvedRuleSource :=
  match results.filter fun result => result.ruleRef = ruleRef with
  | [.resolved source] => some source
  | _ => none

/-- Those of the evidence, in its order. -/
def resolvedInOrder (request : RulesSourcesPublicationRequest) : List ResolvedRuleSource :=
  (evidenceRefs request).filterMap (uniquelyResolved request.resolution.results)

/-- What the pass over the results knows of the rules that are expected. -/
structure Collected (expected : List String) (results : List RuleSourceResolution)
    (unique : UniqueResolved) : Prop where
  seen : ∀ ruleRef ∈ expected,
    unique.seen.contains ruleRef = true ↔ ∃ result ∈ results, result.ruleRef = ruleRef
  resolved : ∀ ruleRef ∈ expected,
    unique.resolved.get? ruleRef = uniquelyResolved results ruleRef
  named : ∀ ruleRef source, unique.resolved.get? ruleRef = some source → source.ruleRef = ruleRef

theorem uniquelyResolved_other {results : List RuleSourceResolution} {result : RuleSourceResolution}
    {ruleRef : String} (hother : result.ruleRef ≠ ruleRef) :
    uniquelyResolved (results ++ [result]) ruleRef = uniquelyResolved results ruleRef := by
  unfold uniquelyResolved
  simp [hother]

theorem uniquelyResolved_again {results : List RuleSourceResolution} {result : RuleSourceResolution}
    (hseen : ∃ before ∈ results, before.ruleRef = result.ruleRef) :
    uniquelyResolved (results ++ [result]) result.ruleRef = none := by
  obtain ⟨before, hmem, hsame⟩ := hseen
  have hmem : before ∈ results.filter fun other => other.ruleRef = result.ruleRef := by
    simp [hmem, hsame]
  unfold uniquelyResolved
  simp only [List.filter_append, List.filter_cons, decide_true, if_true, List.filter_nil]
  cases hfilter : results.filter fun other => other.ruleRef = result.ruleRef with
  | nil =>
    rw [hfilter] at hmem
    cases hmem
  | cons first rest =>
    cases rest with
    | nil => cases first <;> rfl
    | cons second rest => cases first <;> rfl

theorem uniquelyResolved_first {results : List RuleSourceResolution} {result : RuleSourceResolution}
    (hnew : ¬∃ before ∈ results, before.ruleRef = result.ruleRef) :
    uniquelyResolved (results ++ [result]) result.ruleRef =
      match result with
      | .resolved source => some source
      | .unresolved _ _ => none := by
  have hnil : results.filter (fun other => other.ruleRef = result.ruleRef) = [] := by
    rw [List.filter_eq_nil_iff]
    intro before hmem hsame
    exact hnew ⟨before, hmem, by simpa using hsame⟩
  unfold uniquelyResolved
  simp only [List.filter_append, hnil, List.filter_cons, decide_true, if_true, List.filter_nil,
    List.nil_append]
  cases result with
  | resolved source => rfl
  | unresolved ruleRef reason => rfl

/-- The pass skips a result of a rule that is not expected. -/
theorem Collected.other {expected : List String} {results : List RuleSourceResolution}
    {unique : UniqueResolved} (h : Collected expected results unique)
    {result : RuleSourceResolution} (hout : result.ruleRef ∉ expected) :
    Collected expected (results ++ [result]) unique := by
  have hne : ∀ ruleRef ∈ expected, result.ruleRef ≠ ruleRef := by
    intro ruleRef hmem heq
    exact hout (heq ▸ hmem)
  refine ⟨fun ruleRef hmem => ?_, fun ruleRef hmem => ?_, h.named⟩
  · rw [h.seen ruleRef hmem]
    simp [hne ruleRef hmem]
  · rw [uniquelyResolved_other (hne ruleRef hmem)]
    exact h.resolved ruleRef hmem

/-- A second result of a rule takes its resolution away. -/
theorem Collected.again {expected : List String} {results : List RuleSourceResolution}
    {unique : UniqueResolved} (h : Collected expected results unique)
    {result : RuleSourceResolution} (hin : result.ruleRef ∈ expected)
    (hseen : unique.seen.contains result.ruleRef = true) :
    Collected expected (results ++ [result])
      { unique with resolved := unique.resolved.delete result.ruleRef } := by
  have hbefore := (h.seen _ hin).1 hseen
  refine ⟨fun ruleRef hmem => ?_, fun ruleRef hmem => ?_, fun ruleRef source hsome => ?_⟩
  · show unique.seen.contains ruleRef = true ↔ _
    rw [h.seen ruleRef hmem]
    constructor
    · rintro ⟨before, hb, heq⟩
      exact ⟨before, List.mem_append_left _ hb, heq⟩
    · rintro ⟨before, hb, heq⟩
      rcases List.mem_append.1 hb with hb | hb
      · exact ⟨before, hb, heq⟩
      · rw [List.mem_singleton.1 hb] at heq
        rw [← heq]
        exact hbefore
  · show (unique.resolved.delete result.ruleRef).get? ruleRef = _
    rw [OrderedMap.get?_delete]
    split
    · rename_i heq
      rw [heq, uniquelyResolved_again hbefore]
    · rename_i hne
      rw [uniquelyResolved_other (Ne.symm hne)]
      exact h.resolved ruleRef hmem
  · have hsome : (unique.resolved.delete result.ruleRef).get? ruleRef = some source := hsome
    rw [OrderedMap.get?_delete] at hsome
    split at hsome
    · cases hsome
    · exact h.named ruleRef source hsome

theorem Collected.seen_first {expected : List String} {results : List RuleSourceResolution}
    {unique : UniqueResolved} (h : Collected expected results unique)
    (result : RuleSourceResolution) {ruleRef : String} (hmem : ruleRef ∈ expected) :
    (result.ruleRef :: unique.seen).contains ruleRef = true ↔
      ∃ other ∈ results ++ [result], other.ruleRef = ruleRef := by
  rw [List.contains_cons, Bool.or_eq_true, h.seen ruleRef hmem, beq_iff_eq]
  simp only [List.mem_append, List.mem_singleton, or_and_right, exists_or, exists_eq_left]
  rw [or_comm, eq_comm]

theorem Collected.not_before {expected : List String} {results : List RuleSourceResolution}
    {unique : UniqueResolved} (h : Collected expected results unique)
    {result : RuleSourceResolution} (hin : result.ruleRef ∈ expected)
    (hnew : ¬unique.seen.contains result.ruleRef = true) :
    ¬∃ before ∈ results, before.ruleRef = result.ruleRef :=
  fun hbefore => hnew ((h.seen _ hin).2 hbefore)

/-- The first result of a rule is its resolution. -/
theorem Collected.resolvedFirst {expected : List String} {results : List RuleSourceResolution}
    {unique : UniqueResolved} (h : Collected expected results unique) {source : ResolvedRuleSource}
    (hin : source.ruleRef ∈ expected) (hnew : ¬unique.seen.contains source.ruleRef = true) :
    Collected expected (results ++ [.resolved source])
      ⟨unique.resolved.set source.ruleRef source, source.ruleRef :: unique.seen⟩ := by
  have hfirst := @Collected.not_before _ _ _ h (.resolved source) hin hnew
  refine ⟨fun _ hmem => h.seen_first (.resolved source) hmem, fun ruleRef hmem => ?_,
    fun ruleRef other hsome => ?_⟩
  · show (unique.resolved.set source.ruleRef source).get? ruleRef = _
    rw [OrderedMap.get?_set]
    split
    · rename_i heq
      rw [heq]
      exact (uniquelyResolved_first hfirst).symm
    · rename_i hne
      rw [uniquelyResolved_other (Ne.symm hne)]
      exact h.resolved ruleRef hmem
  · have hsome : (unique.resolved.set source.ruleRef source).get? ruleRef = some other := hsome
    rw [OrderedMap.get?_set] at hsome
    split at hsome
    · rename_i heq
      rw [← Option.some.inj hsome, heq]
    · exact h.named ruleRef other hsome

/-- Unless it says that there is none. -/
theorem Collected.unresolvedFirst {expected : List String} {results : List RuleSourceResolution}
    {unique : UniqueResolved} (h : Collected expected results unique) {ref reason : String}
    (hin : ref ∈ expected) (hnew : ¬unique.seen.contains ref = true) :
    Collected expected (results ++ [.unresolved ref reason])
      { unique with seen := ref :: unique.seen } := by
  have hfirst := @Collected.not_before _ _ _ h (.unresolved ref reason) hin hnew
  refine ⟨fun _ hmem => h.seen_first (.unresolved ref reason) hmem, fun ruleRef hmem => ?_, h.named⟩
  show unique.resolved.get? ruleRef = _
  rw [h.resolved ruleRef hmem]
  by_cases heq : ref = ruleRef
  · subst heq
    have hnil : results.filter (fun other => other.ruleRef = ref) = [] := by
      rw [List.filter_eq_nil_iff]
      intro before hmem hsame
      exact hfirst ⟨before, hmem, of_decide_eq_true hsame⟩
    refine Eq.trans ?_ (uniquelyResolved_first hfirst).symm
    unfold uniquelyResolved
    rw [hnil]
  · exact (@uniquelyResolved_other results (.unresolved ref reason) ruleRef heq).symm

theorem collected_add {expected : List String} {results : List RuleSourceResolution}
    {unique : UniqueResolved} (h : Collected expected results unique)
    (result : RuleSourceResolution) :
    Collected expected (results ++ [result]) (unique.add expected result) := by
  unfold UniqueResolved.add
  split
  · rename_i hout
    exact h.other (by simpa using hout)
  · rename_i hin
    have hin : result.ruleRef ∈ expected := by simpa using hin
    split
    · rename_i hseen
      exact h.again hin hseen
    · rename_i hnew
      cases result with
      | resolved source => exact h.resolvedFirst hin hnew
      | unresolved ref reason => exact h.unresolvedFirst hin hnew

theorem collected (expected : List String) (results : List RuleSourceResolution) :
    Collected expected results (results.foldl (UniqueResolved.add expected) ⟨∅, []⟩) := by
  induction results using List.reverseRecOn with
  | nil => exact ⟨by simp, fun _ _ => rfl, by intro _ _ hsome; cases hsome⟩
  | append_singleton results result ih =>
    rw [List.foldl_append]
    exact collected_add ih result

/-! ## What fits -/

/-- The payload of a prefix of the resolutions, before its ids are known. -/
def placeholderPayload (host : PublicationHost) (request : RulesSourcesPublicationRequest)
    (resolved : List ResolvedRuleSource) : RulesSourcesPublicationPayload where
  inspectMessageId := request.inspectMessageId
  rulesGeneration := request.rulesGeneration
  sources := resolved.map fun source => withPlaceholder (projectRulesSource host source)
  unresolvedRuleCount := (evidenceRefs request).length - resolved.length

/-- Both the limit of sources and the budget of the envelope are kept. -/
def Fits (host : PublicationHost) (request : RulesSourcesPublicationRequest)
    (resolved : List ResolvedRuleSource) : Prop :=
  resolved.length ≤ Limits.rulesSources ∧
    ∃ bytes, host.measureEnvelopeBytes (placeholderPayload host request resolved) = some bytes ∧
      bytes ≤ host.envelopeMaxBytes

/-- More sources of the same rules never make an envelope shorter. -/
def MonotoneMeasure (host : PublicationHost) : Prop :=
  ∀ smaller larger : RulesSourcesPublicationPayload,
    smaller.inspectMessageId = larger.inspectMessageId →
    smaller.rulesGeneration = larger.rulesGeneration →
    smaller.sources <+: larger.sources →
    smaller.sources.length + smaller.unresolvedRuleCount =
      larger.sources.length + larger.unresolvedRuleCount →
    ∀ bytes bytes', host.measureEnvelopeBytes smaller = some bytes →
      host.measureEnvelopeBytes larger = some bytes' → bytes ≤ bytes'

/-- The first source that does not fit. -/
def Overflows (host : PublicationHost) (request : RulesSourcesPublicationRequest)
    (resolved : List ResolvedRuleSource) : Prop :=
  Limits.rulesSources < resolved.length ∨
    ∃ bytes, host.measureEnvelopeBytes (placeholderPayload host request resolved) = some bytes ∧
      host.envelopeMaxBytes < bytes

/-- Past the first overflow nothing fits. -/
theorem Overflows.not_fits {resolved longer : List ResolvedRuleSource} (hmono : MonotoneMeasure host)
    (h : Overflows host request resolved) (hpre : resolved <+: longer)
    (hcount : longer.length ≤ (evidenceRefs request).length) : ¬Fits host request longer := by
  rintro ⟨hlimit, bytes', hmeasure', hle⟩
  have hlength := hpre.length_le
  rcases h with hlong | ⟨bytes, hmeasure, hlt⟩
  · omega
  · have hsame : (resolved.map fun source => withPlaceholder (projectRulesSource host source)).length +
        ((evidenceRefs request).length - resolved.length) =
        (longer.map fun source => withPlaceholder (projectRulesSource host source)).length +
          ((evidenceRefs request).length - longer.length) := by
      rw [List.length_map, List.length_map]
      omega
    have := hmono (placeholderPayload host request resolved) (placeholderPayload host request longer)
      rfl rfl (hpre.map _) hsame bytes bytes' hmeasure hmeasure'
    omega

/-! ## The loop that packs -/

/-- Where the loop is: it has packed what was resolved so far, or up to the first overflow. -/
structure Packs (host : PublicationHost) (request : RulesSourcesPublicationRequest)
    (found : List ResolvedRuleSource) (packing : Packing) : Prop where
  projected : packing.packed.map PackedSource.source =
    (packing.packed.map PackedSource.resolved).map (projectRulesSource host)
  fits : Fits host request (packing.packed.map PackedSource.resolved)
  all : packing.omittedTail = false → packing.packed.map PackedSource.resolved = found
  tail : packing.omittedTail = true → ∃ next,
    packing.packed.map PackedSource.resolved ++ [next] <+: found ∧
      Overflows host request (packing.packed.map PackedSource.resolved ++ [next])

theorem measure_ok {payload : RulesSourcesPublicationPayload} {bytes : ℤ}
    (h : measure host payload = .ok bytes) : host.measureEnvelopeBytes payload = some bytes := by
  unfold measure at h
  split at h
  · cases h
  · rename_i found hmeasure
    split at h
    · cases h
      exact hmeasure
    · cases h

/-- The candidate of a turn is the payload of the sources packed so far and the next. -/
theorem candidate_eq {packing : Packing} {entry : ResolvedRuleSource}
    (hprojected : packing.packed.map PackedSource.source =
      (packing.packed.map PackedSource.resolved).map (projectRulesSource host)) :
    packing.packed.map (fun entry => withPlaceholder entry.source) ++
        [withPlaceholder (projectRulesSource host entry)] =
      (packing.packed.map PackedSource.resolved ++ [entry]).map fun source =>
        withPlaceholder (projectRulesSource host source) := by
  rw [List.map_append, List.map_singleton]
  congr 1
  have := congrArg (List.map withPlaceholder) hprojected
  simpa only [List.map_map, Function.comp_def] using this

theorem pack_packs {found : List ResolvedRuleSource} {packing packing' : Packing} {ruleRef : String}
    {resolved : OrderedMap String ResolvedRuleSource} (h : Packs host request found packing)
    (hpack : pack host request (evidenceRefs request) resolved packing ruleRef = .ok packing') :
    Packs host request (found ++ (resolved.get? ruleRef).toList) packing' := by
  unfold pack at hpack
  split at hpack
  · rename_i hover
    cases hpack
    obtain ⟨next, hpre, hoverflows⟩ := h.tail hover
    refine ⟨h.projected, h.fits, fun hno => ?_, fun _ => ⟨next, ?_, hoverflows⟩⟩
    · rw [hover] at hno
      cases hno
    · exact hpre.trans (List.prefix_append _ _)
  · rename_i hopen
    have hopen : packing.omittedTail = false := by simpa using hopen
    split at hpack
    · rename_i hnone
      cases hpack
      rw [hnone, Option.toList_none, List.append_nil]
      exact h
    · rename_i entry hentry
      have hfound := h.all hopen
      rw [hentry, Option.toList_some]
      dsimp only at hpack
      rw [candidate_eq h.projected] at hpack
      have hnext : packing.packed.map PackedSource.resolved ++ [entry] <+: found ++ [entry] := by
        rw [hfound]
      split at hpack
      · rename_i hlimit
        cases hpack
        refine ⟨h.projected, h.fits, nofun, fun _ => ⟨entry, hnext, .inl ?_⟩⟩
        simpa using hlimit
      · rename_i hlimit
        obtain ⟨bytes, hbytes, hpack⟩ := bind_eq_ok.1 hpack
        have hmeasure := measure_ok hbytes
        rw [List.length_map] at hmeasure hlimit
        split at hpack
        · rename_i hlt
          cases hpack
          exact ⟨h.projected, h.fits, nofun, fun _ => ⟨entry, hnext, .inr ⟨bytes, hmeasure, hlt⟩⟩⟩
        · rename_i hle
          cases hpack
          refine ⟨?_, ?_, fun _ => ?_, fun hover => ?_⟩
          · simp only [List.map_append, h.projected, List.map_singleton]
          · rw [List.map_append, List.map_singleton]
            exact ⟨not_lt.1 hlimit, bytes, hmeasure, not_lt.1 hle⟩
          · rw [List.map_append, List.map_singleton, hfound]
          · rw [show packing.omittedTail = true from hover] at hopen
            cases hopen

theorem foldlM_pack {refs : List String} {resolved : OrderedMap String ResolvedRuleSource} :
    ∀ {found : List ResolvedRuleSource} {packing packing' : Packing},
      Packs host request found packing →
      refs.foldlM (pack host request (evidenceRefs request) resolved) packing = .ok packing' →
      Packs host request (found ++ refs.filterMap resolved.get?) packing' := by
  induction refs with
  | nil =>
    intro found packing packing' h hfold
    cases hfold
    simpa using h
  | cons ref refs ih =>
    intro found packing packing' h hfold
    rw [List.foldlM_cons] at hfold
    obtain ⟨next, hnext, hfold⟩ := bind_eq_ok.1 hfold
    have hrest := ih (pack_packs h hnext) hfold
    cases hget : resolved.get? ref with
    | none =>
      rw [hget] at hrest
      simpa [List.filterMap_cons, hget] using hrest
    | some source =>
      rw [hget] at hrest
      simpa [List.filterMap_cons, hget] using hrest

/-! ## Sources and authorities -/

/-- A source under its id. -/
def published (host : PublicationHost) (source : ResolvedRuleSource) (openAuthorityId : String) :
    PublishedRulesSource :=
  { projectRulesSource host source with openAuthorityId := openAuthorityId }

theorem authorize_eq {packed : List PackedSource} :
    ∀ {ids : List String} {entries : List (PublishedRulesSource × StoredRuleOpenAuthority)},
      authorize request packed ids = .ok entries →
      packed.length ≤ ids.length ∧
        entries.map Prod.fst = List.zipWith (fun source openAuthorityId =>
          { source with openAuthorityId := openAuthorityId }) (packed.map PackedSource.source) ids ∧
        entries.map Prod.snd = List.zipWith (fun source openAuthorityId =>
          authorityOf request openAuthorityId source) (packed.map PackedSource.resolved) ids ∧
        ∀ entry ∈ entries, isUuid entry.1.openAuthorityId = true := by
  induction packed with
  | nil =>
    intro ids entries h
    cases h
    exact ⟨Nat.zero_le _, rfl, rfl, List.forall_mem_nil _⟩
  | cons entry packed ih =>
    intro ids entries h
    cases ids with
    | nil => cases h
    | cons id ids =>
      unfold authorize at h
      split at h
      · cases h
      · rename_i hid
        split at h
        · cases h
        · rename_i source hparse
          obtain ⟨rest, hrest, h⟩ := bind_eq_ok.1 h
          cases h
          obtain ⟨hlength, hsources, hauthorities, huuids⟩ := ih hrest
          have hsource := parse_eq hparse
          refine ⟨Nat.succ_le_succ hlength, ?_, ?_, ?_⟩
          · rw [List.map_cons, hsources, List.map_cons, List.zipWith_cons_cons, hsource]
          · rw [List.map_cons, hauthorities, List.map_cons, List.zipWith_cons_cons]
          · intro other hmem
            rcases List.mem_cons.1 hmem with rfl | hmem
            · have huuid : isUuid id = true := by
                simp only [not_or, Bool.not_eq_true', Bool.not_eq_false] at hid
                exact hid.2
              rw [hsource]
              exact huuid
            · exact huuids other hmem

theorem entries_foldl_set (authorities : List StoredRuleOpenAuthority) :
    ∀ {m : OrderedMap String StoredRuleOpenAuthority},
      (m.keys ++ authorities.map StoredRuleOpenAuthority.openAuthorityId).Nodup →
      (authorities.foldl (fun m authority => m.set authority.openAuthorityId authority) m).entries =
        m.entries ++ authorities.map fun authority => (authority.openAuthorityId, authority) := by
  induction authorities with
  | nil => simp
  | cons authority rest ih =>
    intro m h
    have hnew : authority.openAuthorityId ∉ m.keys := by
      intro hin
      exact List.disjoint_of_nodup_append h hin (by simp)
    have hkeys := OrderedMap.keys_set_of_not_mem (m := m) authority hnew
    rw [List.foldl_cons, ih (by rw [hkeys]; simpa using h), OrderedMap.entries_set_of_not_mem _ hnew]
    simp

/-- What the registry keeps of a preparation are the authorities it was given. -/
theorem registry_prepare {validUri : String → Bool} {registry registry' : RulesOpenAuthorityRegistry}
    {input : RuleOpenAuthorityGenerationInput} {preparation : ℕ}
    (h : registry.prepare validUri input = .ok (preparation, registry')) :
    (input.authorities.map StoredRuleOpenAuthority.openAuthorityId).Nodup ∧
      ∃ state, registry'.preparations[preparation]? = some state ∧
        state.candidate.authorities.entries =
          input.authorities.map fun authority => (authority.openAuthorityId, authority) := by
  unfold RulesOpenAuthorityRegistry.prepare at h
  dsimp only at h
  obtain ⟨_, hvalid, h⟩ := bind_eq_ok.1 h
  obtain ⟨-, hnodup⟩ := validateGenerationInput_spec hvalid
  obtain ⟨rfl, rfl⟩ := Prod.mk.inj (Except.ok.inj h)
  refine ⟨hnodup, _, List.getElem?_concat_length .., ?_⟩
  exact entries_foldl_set input.authorities (m := ∅) (by simpa using hnodup)

/-! ## The bridge -/

/-- What the bridge reads of a source. -/
def sent (source : PublishedRulesSource) : RulesSource :=
  ⟨source.ruleRef, source.openAuthorityId⟩

theorem collectSources_isSome {refs : Finset String} {sources : List RulesSource} :
    ∀ {publishedRefs proposed : Finset String},
      (∀ source ∈ sources, source.ruleRef ∈ refs ∧ source.ruleRef ∉ publishedRefs ∧
        source.openAuthorityId ≠ "" ∧ source.openAuthorityId ∉ proposed) →
      (sources.map RulesSource.ruleRef).Nodup → (sources.map RulesSource.openAuthorityId).Nodup →
      (Bridge.ReplyRouteRegistry.collectSources refs publishedRefs proposed sources).isSome = true := by
  induction sources with
  | nil => exact fun _ _ _ => rfl
  | cons source sources ih =>
    intro publishedRefs proposed hall hrefs hids
    obtain ⟨hin, hout, hne, hfresh⟩ := hall source List.mem_cons_self
    rw [List.map_cons, List.nodup_cons] at hrefs hids
    unfold Bridge.ReplyRouteRegistry.collectSources
    rw [if_neg (by simp [hin, hout, hne, hfresh])]
    refine ih (fun other hmem => ?_) hrefs.2 hids.2
    obtain ⟨hin', hout', hne', hfresh'⟩ := hall other (List.mem_cons_of_mem _ hmem)
    refine ⟨hin', ?_, hne', ?_⟩
    · rw [Finset.mem_insert, not_or]
      exact ⟨fun heq => hrefs.1 (heq ▸ List.mem_map_of_mem hmem), hout'⟩
    · rw [Finset.mem_insert, not_or]
      exact ⟨fun heq => hids.1 (heq ▸ List.mem_map_of_mem hmem), hfresh'⟩

/-! ## A publication that is prepared -/

/-- The generation of a route is lower; a route without one waits for the first. -/
def LowerGeneration (current : Option JsNumber) (rulesGeneration : ℕ) : Prop :=
  match current with
  | none => rulesGeneration = 1
  | some current => current.lt rulesGeneration = true

theorem LowerGeneration.not_stale {current : Option JsNumber} {rulesGeneration : ℕ}
    (h : LowerGeneration current rulesGeneration) :
    Bridge.ReplyRouteRegistry.rulesGenerationStale current rulesGeneration = false := by
  cases current with
  | none =>
    rw [show rulesGeneration = 1 from h]
    decide
  | some current =>
    have hlt : current.lt (.finite rulesGeneration) = true := h
    show (JsNumber.finite rulesGeneration).le current = false
    cases current with
    | nan => cases hlt
    | negInfinity => rfl
    | infinity => cases hlt
    | finite q =>
      have hlt : q < rulesGeneration := by simpa [JsNumber.lt] using hlt
      simp [JsNumber.le, JsNumber.lt, JsNumber.strictEq, hlt.le, hlt.ne']

/-- What is said of a publication that is prepared with these ids. A prefix fits when its payload
does with placeholders for the ids, which are as long. -/
structure Complete (host : PublicationHost) (request : RulesSourcesPublicationRequest)
    (openAuthorityIds : List String) (prepared : PreparedRulesSourcesPublication)
    (registry : RulesOpenAuthorityRegistry) : Prop where
  counted : prepared.payload.sources.length + prepared.payload.unresolvedRuleCount =
    (request.ruleEvidence.rules.map InspectRuleEvidence.ruleRef).toFinset.card
  longest : ∃ resolved, resolved <+: resolvedInOrder request ∧ Fits host request resolved ∧
    (∀ longer, resolved <+: longer → longer <+: resolvedInOrder request → longer ≠ resolved →
      ¬Fits host request longer) ∧
    resolved.length ≤ openAuthorityIds.length ∧
    prepared.payload.sources = List.zipWith (published host) resolved openAuthorityIds ∧
    ∃ state, registry.preparations[prepared.preparation]? = some state ∧
      state.candidate.authorities.entries =
        (List.zipWith (fun source openAuthorityId => authorityOf request openAuthorityId source)
          resolved openAuthorityIds).map fun authority => (authority.openAuthorityId, authority)
  once : ∀ source ∈ prepared.payload.sources,
    request.resolution.results.countP (fun result => result.ruleRef = source.ruleRef) = 1
  accepted : ∀ (routes : Bridge.ReplyRouteRegistry) key ideConnectionId route,
    routes.stored key = some route → route.ownedByOther ideConnectionId = false →
    route.expectedRuleRefs =
      (request.ruleEvidence.rules.map InspectRuleEvidence.ruleRef).toFinset →
    LowerGeneration route.rulesGeneration prepared.payload.rulesGeneration →
    (routes.prepareRulesSources key ideConnectionId prepared.payload.rulesGeneration
      (prepared.payload.sources.map sent)
      prepared.payload.unresolvedRuleCount).isSome = true

theorem zipWith_refs (resolved : List ResolvedRuleSource) (ids : List String)
    (hlength : resolved.length ≤ ids.length) :
    (List.zipWith (published host) resolved ids).map (fun source => source.ruleRef) =
      resolved.map ResolvedRuleSource.ruleRef := by
  rw [List.map_zipWith]
  show List.zipWith (fun source _ => source.ruleRef) resolved ids = _
  induction resolved generalizing ids with
  | nil => rfl
  | cons source resolved ih =>
    cases ids with
    | nil => simp at hlength
    | cons id ids =>
      rw [List.zipWith_cons_cons, ih ids (by simpa using hlength), List.map_cons]

/-- What is resolved once bears the name it is resolved under. -/
theorem uniquelyResolved_some {results : List RuleSourceResolution} {ruleRef : String}
    {source : ResolvedRuleSource} (h : uniquelyResolved results ruleRef = some source) :
    source.ruleRef = ruleRef ∧
      results.countP (fun result => result.ruleRef = ruleRef) = 1 := by
  unfold uniquelyResolved at h
  split at h
  · rename_i found hfilter
    cases h
    refine ⟨?_, ?_⟩
    · have hmem : RuleSourceResolution.resolved source ∈
          results.filter fun result => result.ruleRef = ruleRef := by
        rw [hfilter]
        exact List.mem_singleton_self _
      exact of_decide_eq_true (List.mem_filter.1 hmem).2
    · rw [List.countP_eq_length_filter, hfilter]
      rfl
  · cases h

theorem resolvedInOrder_refs (request : RulesSourcesPublicationRequest) :
    ((resolvedInOrder request).map ResolvedRuleSource.ruleRef).Sublist (evidenceRefs request) := by
  unfold resolvedInOrder
  induction evidenceRefs request with
  | nil => exact List.Sublist.slnil
  | cons ref refs ih =>
    rw [List.filterMap_cons]
    cases hresolved : uniquelyResolved request.resolution.results ref with
    | none => exact ih.cons _
    | some source =>
      rw [List.map_cons, (uniquelyResolved_some hresolved).1]
      exact ih.cons_cons _

theorem evidenceRefs_card (request : RulesSourcesPublicationRequest) : (evidenceRefs request).length =
    (request.ruleEvidence.rules.map InspectRuleEvidence.ruleRef).toFinset.card := by
  unfold evidenceRefs
  rw [← List.toFinset_card_of_nodup (nodup_eraseDups _)]
  congr 1
  ext ref
  simp

theorem resolved_eq (request : RulesSourcesPublicationRequest) :
    (evidenceRefs request).filterMap
        (uniqueResolvedByRuleRef request.resolution (evidenceRefs request)).get? =
      resolvedInOrder request := by
  refine List.filterMap_congr fun ref hmem => ?_
  exact (collected (evidenceRefs request) request.resolution.results).resolved ref hmem

/-- The longest prefix that fits, from where the loop ended. -/
theorem Packs.maximal {packing : Packing} (hmono : MonotoneMeasure host)
    (h : Packs host request (resolvedInOrder request) packing) :
    packing.packed.map PackedSource.resolved <+: resolvedInOrder request ∧
      ∀ longer, packing.packed.map PackedSource.resolved <+: longer →
        longer <+: resolvedInOrder request →
        longer ≠ packing.packed.map PackedSource.resolved → ¬Fits host request longer := by
  have hcount : ∀ {longer}, longer <+: resolvedInOrder request →
      longer.length ≤ (evidenceRefs request).length := by
    intro longer hpre
    have hrefs := (resolvedInOrder_refs request).length_le
    rw [List.length_map] at hrefs
    exact le_trans hpre.length_le hrefs
  cases hover : packing.omittedTail with
  | false =>
    have hall := h.all hover
    rw [hall]
    refine ⟨List.prefix_rfl, fun longer hbelow habove hne => ?_⟩
    exact absurd (habove.eq_of_length_le hbelow.length_le) hne
  | true =>
    obtain ⟨next, hnext, hoverflows⟩ := h.tail hover
    refine ⟨(List.prefix_append _ _).trans hnext, fun longer hbelow habove hne => ?_⟩
    have hlonger : packing.packed.map PackedSource.resolved ++ [next] <+: longer := by
      rcases List.prefix_or_prefix_of_prefix hnext habove with hle | hle
      · exact hle
      · rcases List.prefix_concat_iff.1 hle with heq | hshort
        · rw [heq]
        · exact absurd (hshort.eq_of_length_le hbelow.length_le) hne
    exact hoverflows.not_fits hmono hlonger (hcount habove)

theorem assertEnvelope_ok {payload : RulesSourcesPublicationPayload}
    (h : assertEnvelope host payload = .ok ()) :
    ∃ bytes, host.measureEnvelopeBytes payload = some bytes ∧ bytes ≤ host.envelopeMaxBytes := by
  unfold assertEnvelope at h
  obtain ⟨bytes, hbytes, h⟩ := bind_eq_ok.1 h
  refine ⟨bytes, measure_ok hbytes, ?_⟩
  split at h
  · cases h
  · rename_i hle
    exact not_lt.1 hle

theorem resolvedInOrder_once {source : ResolvedRuleSource} (hmem : source ∈ resolvedInOrder request) :
    request.resolution.results.countP (fun result => result.ruleRef = source.ruleRef) = 1 := by
  obtain ⟨ref, -, hresolved⟩ := List.mem_filterMap.1 hmem
  obtain ⟨hname, honce⟩ := uniquelyResolved_some hresolved
  rw [hname]
  exact honce

/-- The bridge lets a payload through whose sources stand for rules of the evidence, one each. -/
theorem bridge_accepts {routes : Bridge.ReplyRouteRegistry} {key : RouteKey}
    {ideConnectionId : String} {route : Bridge.StoredReplyRoute}
    {payload : RulesSourcesPublicationPayload} (hstored : routes.stored key = some route)
    (howned : route.ownedByOther ideConnectionId = false)
    (hlower : LowerGeneration route.rulesGeneration payload.rulesGeneration)
    (hrefs : ∀ source ∈ payload.sources, source.ruleRef ∈ route.expectedRuleRefs)
    (hnodup : (payload.sources.map (fun source => source.ruleRef)).Nodup)
    (hids : (payload.sources.map PublishedRulesSource.openAuthorityId).Nodup)
    (huuids : ∀ source ∈ payload.sources, source.openAuthorityId ≠ "")
    (hcount : payload.sources.length + payload.unresolvedRuleCount = route.expectedRuleRefs.card) :
    (routes.prepareRulesSources key ideConnectionId payload.rulesGeneration
      (payload.sources.map sent) payload.unresolvedRuleCount).isSome = true := by
  unfold Bridge.ReplyRouteRegistry.prepareRulesSources
  rw [hstored]
  simp only [JsNumber.integer?_natCast]
  rw [if_neg (by rw [howned, hlower.not_stale]; simp)]
  have hcollected : (Bridge.ReplyRouteRegistry.collectSources route.expectedRuleRefs ∅ ∅
      (payload.sources.map sent)).isSome = true := by
    refine collectSources_isSome (fun message hmessage => ?_) ?_ ?_
    · obtain ⟨source, hmem, rfl⟩ := List.mem_map.1 hmessage
      exact ⟨hrefs source hmem, Finset.notMem_empty _, huuids source hmem, Finset.notMem_empty _⟩
    · rw [List.map_map]
      exact hnodup
    · rw [List.map_map]
      exact hids
  obtain ⟨ids, hids⟩ := Option.isSome_iff_exists.1 hcollected
  rw [hids]
  dsimp only
  rw [if_neg]
  · rfl
  · rw [List.length_map, not_not]
    exact_mod_cast hcount

/-- A publication that is prepared is complete, and has the longest prefix that fits. -/
theorem prepare_complete {registry registry' : RulesOpenAuthorityRegistry}
    {openAuthorityIds : List String} {prepared : PreparedRulesSourcesPublication}
    (hmono : MonotoneMeasure host)
    (h : prepare host registry request openAuthorityIds = .ok (prepared, registry')) :
    Complete host request openAuthorityIds prepared registry' := by
  unfold prepare at h
  obtain ⟨_, -, h⟩ := bind_eq_ok.1 h
  rw [orderedUniqueRuleRefs_eq] at h
  obtain ⟨_, hempty, h⟩ := bind_eq_ok.1 h
  obtain ⟨packing, hpacking, h⟩ := bind_eq_ok.1 h
  obtain ⟨entries, hentries, h⟩ := bind_eq_ok.1 h
  dsimp only at h
  split at h
  · cases h
  · rename_i hcomplete
    obtain ⟨_, -, h⟩ := bind_eq_ok.1 h
    obtain ⟨⟨preparation, _⟩, hprepare, h⟩ := bind_eq_ok.1 h
    obtain ⟨rfl, rfl⟩ := Prod.mk.inj (Except.ok.inj h)
    obtain ⟨hids, state, hstate, hauthorities⟩ := registry_prepare hprepare
    obtain ⟨hlength, hsources, hstored, huuids⟩ := authorize_eq hentries
    have hstart : Packs host request [] ⟨[], false⟩ :=
      ⟨rfl, ⟨Nat.zero_le _, assertEnvelope_ok hempty⟩, fun _ => rfl, nofun⟩
    have hpacks := foldlM_pack hstart hpacking
    rw [List.nil_append, resolved_eq] at hpacks
    obtain ⟨hpre, hmaximal⟩ := hpacks.maximal hmono
    rw [hpacks.projected, List.zipWith_map_left] at hsources
    have hrefs : (entries.map Prod.fst).map (fun source => source.ruleRef) =
        (packing.packed.map PackedSource.resolved).map ResolvedRuleSource.ruleRef := by
      rw [hsources]
      exact zipWith_refs _ _ (by simpa using hlength)
    have hsublist : ((entries.map Prod.fst).map (fun source => source.ruleRef)).Sublist
        (evidenceRefs request) := by
      rw [hrefs]
      exact (hpre.map _).sublist.trans (resolvedInOrder_refs request)
    refine ⟨?_, ⟨_, hpre, hpacks.fits, hmaximal, by simpa using hlength, hsources, state, hstate, ?_⟩,
      ?_, ?_⟩
    · rw [← evidenceRefs_card]
      exact not_not.1 hcomplete
    · rw [hauthorities]
      show (entries.map Prod.snd).map _ = _
      rw [hstored]
    · intro source hmem
      have hin : source.ruleRef ∈ (packing.packed.map PackedSource.resolved).map
          ResolvedRuleSource.ruleRef := by
        rw [← hrefs]
        exact List.mem_map_of_mem hmem
      obtain ⟨found, hfound, hname⟩ := List.mem_map.1 hin
      rw [← hname]
      exact resolvedInOrder_once (hpre.subset hfound)
    · intro routes key ideConnectionId route hroute howned hexpected hlower
      refine bridge_accepts hroute howned hlower (fun source hmem => ?_)
        (hsublist.nodup (nodup_eraseDups _)) ?_ (fun source hmem => ?_) ?_
      · rw [hexpected, List.mem_toFinset]
        exact List.mem_eraseDups.1 (hsublist.subset (List.mem_map_of_mem hmem))
      · rw [← authorize_ids hentries]
        exact hids
      · obtain ⟨entry, hentry, rfl⟩ := List.mem_map.1 hmem
        intro hnil
        have huuid := huuids entry hentry
        rw [hnil] at huuid
        revert huuid
        decide
      · rw [hexpected, ← evidenceRefs_card]
        exact not_not.1 hcomplete

/-! ## A publication that is cut -/

/-- An envelope for one source. -/
def smallHost : PublicationHost where
  sourceDocumentLabel := fun _ => "a.css"
  measureEnvelopeBytes := fun payload => some (100 * payload.sources.length)
  envelopeMaxBytes := 150
  validUri := fun _ => true

theorem smallHost_monotone : MonotoneMeasure smallHost := by
  intro smaller larger _ _ hpre _ bytes bytes' hsmaller hlarger
  have hlength := hpre.length_le
  obtain rfl := Option.some.inj hsmaller
  obtain rfl := Option.some.inj hlarger
  omega

def resolvedRule (ruleRef : String) : ResolvedRuleSource where
  ruleRef := ruleRef
  document := ⟨"file:///a.css", .css, 1⟩
  range := ⟨⟨0, 0⟩, ⟨1, 0⟩⟩
  confidence := .exact
  dependencies := [⟨.generatedCss, "file:///a.css", some 1, String.ofList (List.replicate 64 'a')⟩]

/-- The second rule is resolved twice, and the fourth does not fit any more. -/
def cutRequest : RulesSourcesPublicationRequest where
  inspectMessageId := "inspect"
  rulesGeneration := 1
  ruleEvidence := ⟨[⟨"r1"⟩, ⟨"r2"⟩, ⟨"r3"⟩, ⟨"r4"⟩, ⟨"r1"⟩]⟩
  resolution := ⟨"inspect", [.resolved (resolvedRule "r4"), .resolved (resolvedRule "r2"),
    .unresolved "r2" "missing", .resolved (resolvedRule "r1"), .resolved (resolvedRule "r9")]⟩
  workspaceGeneration := 0

def cutIds : List String := [ruleOpenAuthorityPlaceholder]

theorem prepare_complete_sample : ∃ prepared registry,
    prepare smallHost .empty cutRequest cutIds = .ok (prepared, registry) ∧
      prepared.payload.sources.map (fun source => source.ruleRef) = ["r1"] ∧
      prepared.payload.unresolvedRuleCount = 3 ∧
      Complete smallHost cutRequest cutIds prepared registry := by
  have hrun : (prepare smallHost .empty cutRequest cutIds).toOption.map (fun result =>
      (result.1.payload.sources.map (fun source => source.ruleRef),
        result.1.payload.unresolvedRuleCount)) = some (["r1"], 3) := by
    decide +kernel
  cases hprepare : prepare smallHost .empty cutRequest cutIds with
  | error error =>
    rw [hprepare] at hrun
    cases hrun
  | ok result =>
    rw [hprepare] at hrun
    obtain ⟨hrefs, hcount⟩ := Prod.mk.inj (Option.some.inj hrun)
    exact ⟨result.1, result.2, rfl, hrefs, hcount, prepare_complete smallHost_monotone hprepare⟩

end PinOp.Rules.RulesSourcesPublication
