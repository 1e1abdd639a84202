import Mathlib.Data.Finset.Card
import PinOp.Presenter.SourceExcerptRegistry

/-!
# What a publication holds

Of the valid matches each range is kept once, in the order of roles and ranges; the first of them
become candidates with ids of their own, and candidates are given up from the end. The counts, the
excerpts and the authorities are all read off the candidates that are left.
-/

namespace PinOp.Presenter

open PinOp.Lib PinOp.Protocol
open PinOp.Css (SourcePosition SourceRange)

/-! ## Matches in order -/

section Order

variable {localeCompare : String → String → ℤ}

theorem compareValidMatches_isComparator
    (h : IsComparator fun left right : String => localeCompare left right) :
    IsComparator (compareValidMatches localeCompare) :=
  ((IsComparator.ascending fun entry : ValidMatch => rolePriority entry.match.targetRole)).orNext
    ((compareRanges_isComparator.comap fun entry : ValidMatch => entry.match.range).orNext
      ((IsComparator.ascending fun entry : ValidMatch =>
        confidencePriority entry.match.confidence).orNext
          (h.comap fun entry : ValidMatch => entry.match.pluginId)))

theorem excerptKey_inj {left right : SourceRange} :
    excerptKey left = excerptKey right ↔ left = right := by
  rcases left with ⟨⟨a, b⟩, c, d⟩
  rcases right with ⟨⟨a', b'⟩, c', d'⟩
  simp only [excerptKey, Prod.mk.injEq, SourceRange.mk.injEq, SourcePosition.mk.injEq, and_assoc]

/-- The roles come one after the other, and the ranges of a role in order. -/
def inRoleOrder (left right : ValidMatch) : Prop :=
  orNext (rolePriority left.match.targetRole - rolePriority right.match.targetRole)
    (compareRanges left.match.range right.match.range) ≤ 0

/-- The entry stands before the other: it is the surer one if they differ in nothing else. -/
def Precedes (left right : ValidMatch) : Prop :=
  rolePriority left.match.targetRole ≤ rolePriority right.match.targetRole ∧
    (left.match.targetRole = right.match.targetRole →
      confidencePriority left.match.confidence ≤ confidencePriority right.match.confidence)

theorem rolePriority_inj {left right : SourceTargetRole} :
    rolePriority left = rolePriority right ↔ left = right := by
  cases left <;> cases right <;> decide

theorem inRoleOrder_of_compare {left right : ValidMatch}
    (h : compareValidMatches localeCompare left right ≤ 0) : inRoleOrder left right := by
  unfold compareValidMatches orNext at h
  unfold inRoleOrder orNext
  split at h
  · rename_i hrole
    rwa [if_pos hrole]
  · rename_i hrole
    rw [if_neg hrole]
    split at h
    · exact h
    · omega

theorem precedes_of_compare {left right : ValidMatch}
    (h : compareValidMatches localeCompare left right ≤ 0)
    (hrange : left.match.range = right.match.range) : Precedes left right := by
  have hzero : compareRanges left.match.range right.match.range = 0 :=
    compareRanges_eq_zero.mpr hrange
  unfold compareValidMatches orNext at h
  simp only [hzero, ne_eq, not_true_eq_false, if_false] at h
  split at h
  · rename_i hrole
    refine ⟨by omega, fun hsame => ?_⟩
    have := rolePriority_inj.mpr hsame
    omega
  · refine ⟨by omega, fun _ => ?_⟩
    split at h
    · omega
    · omega

/-- What `deduplicateAndOrder` keeps. -/
structure Deduplicated (valid unique : List ValidMatch) : Prop where
  subset : ∀ entry ∈ unique, entry ∈ valid
  nodup : (unique.map fun entry => entry.match.range).Nodup
  ordered : unique.Pairwise inRoleOrder
  best : ∀ entry ∈ valid, ∃ kept ∈ unique,
    kept.match.range = entry.match.range ∧ Precedes kept entry

theorem deduplicateAndOrder_spec
    (h : IsComparator fun left right : String => localeCompare left right)
    (valid : List ValidMatch) :
    Deduplicated valid (deduplicateAndOrder localeCompare valid) := by
  have hcompare := compareValidMatches_isComparator h
  have hsorted : (valid.mergeSort fun left right =>
      decide (compareValidMatches localeCompare left right ≤ 0)).Pairwise
        fun left right => compareValidMatches localeCompare left right ≤ 0 := by
    have htrans := hcompare.isTrans
    have htotal := hcompare.isTotal
    exact List.pairwise_mergeSort'
      (fun left right => compareValidMatches localeCompare left right ≤ 0) valid
  have hperm := List.mergeSort_perm valid fun left right =>
    decide (compareValidMatches localeCompare left right ≤ 0)
  have hrefl : ∀ entry, compareValidMatches localeCompare entry entry ≤ 0 := by
    intro entry
    have := hcompare.total entry entry
    omega
  have hkept := @firstByKey_kept _ _ (fun entry : ValidMatch => excerptKey entry.match.range) _ _ _
    (fun entry _ => hrefl entry) hsorted
  refine ⟨fun entry he => hperm.mem_iff.mp (hkept.sublist.subset he), ?_, ?_, fun entry he => ?_⟩
  · have hnodup := hkept.nodup
    have hmap : (deduplicateAndOrder localeCompare valid).map
        (fun entry : ValidMatch => excerptKey entry.match.range) =
        ((deduplicateAndOrder localeCompare valid).map fun entry => entry.match.range).map
          excerptKey := by
      rw [List.map_map]
      rfl
    exact (hmap ▸ hnodup : (((deduplicateAndOrder localeCompare valid).map
      fun entry => entry.match.range).map excerptKey).Nodup).of_map _
  · exact (hsorted.sublist hkept.sublist).imp inRoleOrder_of_compare
  · obtain ⟨kept, hk, hkey, hle⟩ := hkept.least entry (hperm.mem_iff.mpr he)
    have hrange := excerptKey_inj.mp hkey
    exact ⟨kept, hk, hrange, precedes_of_compare hle hrange⟩

/-- As many entries are kept as there are ranges. -/
theorem Deduplicated.length {valid unique : List ValidMatch} (h : Deduplicated valid unique) :
    unique.length = (valid.map fun entry => entry.match.range).toFinset.card := by
  have hcard := List.toFinset_card_of_nodup h.nodup
  rw [List.length_map] at hcard
  rw [← hcard]
  refine congrArg Finset.card (Finset.ext fun range => ?_)
  rw [List.mem_toFinset, List.mem_toFinset, List.mem_map, List.mem_map]
  constructor
  · rintro ⟨entry, he, rfl⟩
    exact ⟨entry, h.subset entry he, rfl⟩
  · rintro ⟨entry, he, rfl⟩
    obtain ⟨kept, hk, hrange, -⟩ := h.best entry he
    exact ⟨kept, hk, hrange⟩

end Order

/-! ## Candidates -/

section Candidates

variable {host : ExcerptHost} {input : SourceExcerptPublicationInput} {current : CurrentSourceState}
  {text : List ℕ} {calls calls' : ℕ}

/-- The id comes from one of the calls. -/
def IdFrom (host : ExcerptHost) (calls calls' : ℕ) (id : String) : Prop :=
  ∃ n, calls ≤ n ∧ n < calls' ∧ host.createMatchId n = some id

theorem IdFrom.mono {calls₀ calls₁ : ℕ} {id : String} (h : IdFrom host calls calls' id)
    (h₀ : calls₀ ≤ calls) (h₁ : calls' ≤ calls₁) : IdFrom host calls₀ calls₁ id := by
  obtain ⟨n, hle, hlt, hn⟩ := h
  exact ⟨n, by omega, by omega, hn⟩

theorem allocateMatchId_spec {used : List String} {attempts : ℕ} :
    ∀ {calls calls' : ℕ} {allocated : Option String},
      allocateMatchId host used attempts calls = (allocated, calls') →
        calls ≤ calls' ∧ ∀ id, allocated = some id → id ∉ used ∧ IdFrom host calls calls' id := by
  induction attempts with
  | zero =>
    intro calls calls' allocated h
    obtain ⟨rfl, rfl⟩ := Prod.mk.inj h
    exact ⟨le_rfl, nofun⟩
  | succ attempts ih =>
    intro calls calls' allocated h
    have hagain : allocateMatchId host used attempts (calls + 1) = (allocated, calls') →
        calls ≤ calls' ∧ ∀ id, allocated = some id → id ∉ used ∧ IdFrom host calls calls' id := by
      intro hrest
      obtain ⟨hle, hid⟩ := ih hrest
      exact ⟨by omega, fun id he => ⟨(hid id he).1, (hid id he).2.mono (by omega) le_rfl⟩⟩
    rw [allocateMatchId] at h
    cases hc : host.createMatchId calls with
    | none =>
      rw [hc] at h
      exact hagain h
    | some candidate =>
      rw [hc] at h
      dsimp only at h
      split at h
      · exact hagain h
      · rename_i hnew
        obtain ⟨rfl, rfl⟩ := Prod.mk.inj h
        refine ⟨Nat.le_succ _, fun id he => ?_⟩
        obtain rfl := Option.some.inj he
        refine ⟨fun hin => hnew ?_, calls, le_rfl, Nat.lt_succ_self _, hc⟩
        rw [List.contains_iff_mem.mpr hin, Bool.or_true]

theorem exists_of_forall₂ {α β : Type*} {R : α → β → Prop} {as : List α} {bs : List β} {b : β}
    (h : List.Forall₂ R as bs) (hb : b ∈ bs) : ∃ a ∈ as, R a b := by
  induction h with
  | nil => exact absurd hb List.not_mem_nil
  | cons hab _ ih =>
    rcases List.mem_cons.mp hb with rfl | hb
    · exact ⟨_, List.mem_cons_self, hab⟩
    · obtain ⟨a, ha, hr⟩ := ih hb
      exact ⟨a, List.mem_cons_of_mem _ ha, hr⟩

/-- The excerpt, the authority and the navigation match of an entry. -/
structure Describes (input : SourceExcerptPublicationInput) (text : List ℕ) (entry : ValidMatch)
    (candidate : PublicationCandidate) : Prop where
  targetRole : candidate.excerpt.targetRole = entry.match.targetRole
  confidence : candidate.excerpt.confidence = entry.match.confidence
  startLine : candidate.excerpt.startLine = entry.match.range.start.line + 1
  endLine : candidate.excerpt.endLine = entry.match.range.stop.line + 1
  text : (⟨candidate.excerpt.text, candidate.excerpt.truncated⟩ : BoundedText) =
    boundedExcerpt ((text.take entry.endOffset).drop entry.startOffset)
  authority : candidate.authority = ⟨candidate.excerpt.matchId, input.inspectMessageId,
    input.resolutionGeneration, input.resolution.documentUri, input.resolution.documentVersion,
    entry.match.range⟩
  navigationMatch : candidate.navigationMatch =
    ⟨candidate.excerpt.matchId, entry.match.targetRole, entry.match.range⟩

theorem createCandidate_spec {entry : ValidMatch} {matchId : String}
    {candidate : PublicationCandidate}
    (h : createCandidate host input current entry text matchId = some candidate) :
    Describes input text entry candidate ∧ candidate.excerpt.matchId = matchId := by
  obtain ⟨label, -, rfl⟩ := Option.map_eq_some_iff.mp h
  exact ⟨⟨rfl, rfl, rfl, rfl, rfl, rfl, rfl⟩, rfl⟩

/-- Each entry has a candidate, with an id of its own. -/
structure Candidates (host : ExcerptHost) (input : SourceExcerptPublicationInput) (text : List ℕ)
    (used : List String) (calls calls' : ℕ) (entries : List ValidMatch)
    (candidates : List PublicationCandidate) : Prop where
  describes : List.Forall₂ (Describes input text) entries candidates
  nodup : (candidates.map fun candidate => candidate.excerpt.matchId).Nodup
  unused : ∀ candidate ∈ candidates, candidate.excerpt.matchId ∉ used
  fromCalls : ∀ candidate ∈ candidates, IdFrom host calls calls' candidate.excerpt.matchId

theorem createCandidates_spec {entries : List ValidMatch} :
    ∀ {used : List String} {calls calls' : ℕ} {candidates : Option (List PublicationCandidate)},
      createCandidates host input current text used calls entries = (candidates, calls') →
        calls ≤ calls' ∧ ∀ cs, candidates = some cs →
          Candidates host input text used calls calls' entries cs := by
  induction entries with
  | nil =>
    intro used calls calls' candidates h
    obtain ⟨rfl, rfl⟩ := Prod.mk.inj h
    refine ⟨le_rfl, fun cs hcs => ?_⟩
    obtain rfl := Option.some.inj hcs
    exact ⟨.nil, List.nodup_nil, fun _ hc => absurd hc List.not_mem_nil,
      fun _ hc => absurd hc List.not_mem_nil⟩
  | cons entry rest ih =>
    intro used calls calls' candidates h
    rw [createCandidates] at h
    obtain ⟨allocated, calls₁, hallocated⟩ : ∃ allocated calls₁,
        allocateMatchId host used matchIdGenerationAttempts calls = (allocated, calls₁) :=
      ⟨_, _, rfl⟩
    obtain ⟨hle, hid⟩ := allocateMatchId_spec hallocated
    rw [hallocated] at h
    cases allocated with
    | none =>
      obtain ⟨rfl, rfl⟩ := Prod.mk.inj h
      exact ⟨hle, nofun⟩
    | some matchId =>
      dsimp only at h
      obtain ⟨hunused, hfrom⟩ := hid matchId rfl
      cases hcandidate : createCandidate host input current entry text matchId with
      | none =>
        rw [hcandidate] at h
        obtain ⟨rfl, rfl⟩ := Prod.mk.inj h
        exact ⟨hle, nofun⟩
      | some candidate =>
        rw [hcandidate] at h
        obtain ⟨others, calls₂, hothers⟩ : ∃ others calls₂, createCandidates host input current text
            (matchId :: used) calls₁ rest = (others, calls₂) := ⟨_, _, rfl⟩
        obtain ⟨hle', hrest⟩ := ih hothers
        dsimp only at h
        rw [hothers] at h
        obtain ⟨rfl, rfl⟩ := Prod.mk.inj h
        refine ⟨by omega, fun cs hcs => ?_⟩
        obtain ⟨cs', rfl, rfl⟩ := Option.map_eq_some_iff.mp hcs
        obtain ⟨hdescribes, hmatchId⟩ := createCandidate_spec hcandidate
        have hc := hrest cs' rfl
        refine ⟨.cons hdescribes hc.describes, ?_, fun c hin => ?_, fun c hin => ?_⟩
        · rw [List.map_cons, List.nodup_cons, hmatchId]
          refine ⟨fun hin => ?_, hc.nodup⟩
          obtain ⟨c, hc', he⟩ := List.mem_map.mp hin
          exact hc.unused c hc' (he ▸ List.mem_cons_self)
        · rcases List.mem_cons.mp hin with rfl | hin
          · rwa [hmatchId]
          · exact fun hused => hc.unused c hin (List.mem_cons_of_mem _ hused)
        · rcases List.mem_cons.mp hin with rfl | hin
          · rw [hmatchId]
            exact hfrom.mono le_rfl hle'
          · exact (hc.fromCalls c hin).mono hle le_rfl

/-! ## The envelope -/

theorem shrinkToFit_spec {count : ℕ} :
    ∀ {included : List PublicationCandidate} {omittedMatchCount : ℕ},
      (shrinkToFit host current count included omittedMatchCount).1 <+: included ∧
        (shrinkToFit host current count included omittedMatchCount).1.length +
          (shrinkToFit host current count included omittedMatchCount).2 =
            included.length + omittedMatchCount := by
  induction count with
  | zero => exact ⟨List.prefix_refl _, rfl⟩
  | succ count ih =>
    intro included omittedMatchCount
    rw [shrinkToFit]
    split
    · rename_i hshrinks
      have hlength : 0 < included.length := of_decide_eq_true (Bool.and_eq_true_iff.mp hshrinks).1
      obtain ⟨hpre, hcount⟩ := @ih included.dropLast (omittedMatchCount + 1)
      rw [List.length_dropLast] at hcount
      exact ⟨hpre.trans (List.dropLast_prefix _), by omega⟩
    · exact ⟨List.prefix_refl _, rfl⟩

/-- What is left and what is omitted make up the whole, and the message fits unless it is empty. -/
theorem includeCandidates_spec {total : ℕ} {candidates : List PublicationCandidate}
    (h : candidates.length ≤ total) :
    (includeCandidates host current total candidates).1 <+: candidates ∧
      (includeCandidates host current total candidates).1.length +
        (includeCandidates host current total candidates).2 = total ∧
      ((includeCandidates host current total candidates).1 = [] ∨
        fitsEnvelope host current (includeCandidates host current total candidates).1
          (includeCandidates host current total candidates).2 = true) := by
  obtain ⟨hpre, hcount⟩ := @shrinkToFit_spec host current candidates.length candidates
    (total - candidates.length)
  unfold includeCandidates
  dsimp only
  split
  · rename_i hfits
    exact ⟨hpre, hcount.trans (Nat.add_sub_of_le h), .inr hfits⟩
  · exact ⟨List.nil_prefix, Nat.zero_add _, .inl rfl⟩

end Candidates

/-! ## Publications -/

namespace SourceExcerptRegistry

variable {host : ExcerptHost} {r r' : SourceExcerptRegistry}
  {input : SourceExcerptPublicationInput} {sourceDocument : AdaptedDocument} {text : List ℕ}
  {valid : List ValidMatch}

/-- The matches are of the active document, whose text can be read. -/
structure Readable (input : SourceExcerptPublicationInput) (sourceDocument : AdaptedDocument)
    (text : List ℕ) : Prop where
  identity : matchesActiveDocumentIdentity input = true
  adapted : input.sourceDocument.or (adaptSourceDocument input.activeDocument) = some sourceDocument
  same : matchesSourceDocument input.resolution sourceDocument = true
  reads : (if input.sourceDocument.isSome then input.activeDocument.text
    else sourceDocument.text) = some text

/-- The number of ranges of the valid matches. -/
def distinctRanges (valid : List ValidMatch) : ℕ :=
  (valid.map fun entry => entry.match.range).toFinset.card

/-- The message, the counts and the authorities of a publication belong to the same candidates. -/
structure Published (host : ExcerptHost) (input : SourceExcerptPublicationInput) (text : List ℕ)
    (valid : List ValidMatch) (included : List PublicationCandidate)
    (publication : SourceExcerptPublication) (r' : SourceExcerptRegistry) : Prop where
  excerpts : publication.message.matches = included.map PublicationCandidate.excerpt
  navigationMatches : publication.navigationMatches =
    included.map PublicationCandidate.navigationMatch
  describes : List.Forall₂ (Describes input text)
    ((deduplicateAndOrder host.localeCompare valid).take included.length) included
  bounded : included.length ≤ PresentationLimits.matches
  count : included.length + publication.message.omittedMatchCount = distinctRanges valid
  fits : included = [] ∨ ∃ bytes, host.measureEnvelopeBytes publication.message = some bytes ∧
    bytes ≤ PresentationLimits.envelopeMaxBytes
  authorities : r'.authorities.keys = included.map fun candidate => candidate.excerpt.matchId
  opens : ∀ candidate ∈ included,
    r'.resolveOpen ⟨input.inspectMessageId, input.resolutionGeneration, candidate.excerpt.matchId⟩
      input.activeDocument = some candidate.authority

theorem published_nil {publication : SourceExcerptPublication}
    (hexcerpts : publication.message.matches = [])
    (hnavigation : publication.navigationMatches = [])
    (hcount : publication.message.omittedMatchCount = distinctRanges valid)
    (hauthorities : r'.authorities = ∅) : Published host input text valid [] publication r' :=
  ⟨hexcerpts, hnavigation, .nil, Nat.zero_le _, (Nat.zero_add _).trans hcount, .inl rfl,
    by rw [hauthorities]; rfl, fun _ hc => absurd hc List.not_mem_nil⟩

/-- The registry before the matches are looked at. -/
def cleared (r : SourceExcerptRegistry) (current : CurrentSourceState) : SourceExcerptRegistry :=
  { r with authorities := ∅, current := some current }

theorem publishMatches_spec
    (hlocale : IsComparator fun left right : String => host.localeCompare left right)
    (hidentity : matchesActiveDocumentIdentity input = true) {document : SourceDocument} :
    let current : CurrentSourceState :=
      ⟨input.inspectMessageId, input.resolutionGeneration, document⟩
    ∃ included, Published host input text valid included
      ((r.cleared current).publishMatches host input current text valid).1
      ((r.cleared current).publishMatches host input current text valid).2 := by
  intro current
  have hdedup := deduplicateAndOrder_spec hlocale valid
  have hlength := hdedup.length
  unfold publishMatches
  dsimp only
  obtain ⟨candidates, calls, hcandidates⟩ : ∃ candidates calls,
      createCandidates host input current text [] (r.cleared current).idCalls
        ((deduplicateAndOrder host.localeCompare valid).take PresentationLimits.matches) =
          (candidates, calls) := ⟨_, _, rfl⟩
  rw [hcandidates]
  cases candidates with
  | none => exact ⟨[], published_nil rfl rfl hlength rfl⟩
  | some candidates =>
    have hc := (createCandidates_spec hcandidates).2 candidates rfl
    have htaken : candidates.length =
        min PresentationLimits.matches (deduplicateAndOrder host.localeCompare valid).length := by
      rw [← hc.describes.length_eq, List.length_take]
    obtain ⟨hpre, hcount, hfits⟩ := @includeCandidates_spec host current
      (deduplicateAndOrder host.localeCompare valid).length candidates (by omega)
    dsimp only
    generalize includeCandidates host current
      (deduplicateAndOrder host.localeCompare valid).length candidates = result
      at hpre hcount hfits ⊢
    obtain ⟨included, omittedMatchCount⟩ := result
    dsimp only at hpre hcount hfits ⊢
    have htake : included = candidates.take included.length := List.prefix_iff_eq_take.mp hpre
    have hdescribes : List.Forall₂ (Describes input text)
        ((deduplicateAndOrder host.localeCompare valid).take included.length) included := by
      have h := List.forall₂_take included.length hc.describes
      rw [← htake, List.take_take] at h
      rwa [Nat.min_eq_left (by have := hpre.length_le; omega)] at h
    have hauthority : ∀ candidate ∈ included, ∃ range, candidate.authority =
        ⟨candidate.excerpt.matchId, input.inspectMessageId, input.resolutionGeneration,
          input.resolution.documentUri, input.resolution.documentVersion, range⟩ := by
      intro candidate hin
      obtain ⟨entry, -, hentry⟩ := exists_of_forall₂ hdescribes hin
      exact ⟨_, hentry.authority⟩
    have hids : included.map (fun candidate => candidate.authority.matchId) =
        included.map fun candidate => candidate.excerpt.matchId := by
      refine List.map_congr_left fun candidate hin => ?_
      obtain ⟨range, hrange⟩ := hauthority candidate hin
      rw [hrange]
    have hnodup : (included.map fun candidate => candidate.authority.matchId).Nodup := by
      rw [hids]
      exact hc.nodup.sublist (hpre.sublist.map _)
    refine ⟨included, rfl, rfl, hdescribes, by have := hpre.length_le; omega, ?_, ?_, ?_, ?_⟩
    · exact hcount.trans hlength
    · refine hfits.imp id fun hfit => ?_
      unfold fitsEnvelope at hfit
      obtain ⟨bytes, hbytes, hle⟩ := (Option.any_eq_true _ _).mp hfit
      exact ⟨bytes, hbytes, of_decide_eq_true hle⟩
    · rw [← hids]
      exact OrderedMap.keys_foldl_set (m := ∅) (by simpa using hnodup)
    · intro candidate hin
      obtain ⟨range, hrange⟩ := hauthority candidate hin
      have hget : (included.foldl (fun authorities candidate =>
          authorities.set candidate.authority.matchId candidate.authority)
            (∅ : OrderedMap String SourceAuthority)).get? candidate.excerpt.matchId =
          some candidate.authority :=
        (OrderedMap.get?_foldl_set (m := ∅) (by simpa using hnodup)).mpr
          (.inr ⟨candidate, hin, by rw [hrange], rfl⟩)
      simp only [matchesActiveDocumentIdentity, decide_eq_true_eq] at hidentity
      unfold resolveOpen
      dsimp only [cleared]
      rw [if_neg (by simp [current]), hget]
      dsimp only
      rw [if_neg]
      rw [hrange, hidentity.2.1, hidentity.2.2]
      simp

/-- What a publication whose matches belong to the active document holds. -/
theorem publish_spec
    (hlocale : IsComparator fun left right : String => host.localeCompare left right)
    (h : Readable input sourceDocument text) :
    ∃ included, Published host input text (validMatches input.resolution.matches sourceDocument)
      included (r.publish host input).1 (r.publish host input).2 := by
  obtain ⟨document, hdocument⟩ : ∃ document, sourceStateDocument host input = some document := by
    unfold sourceStateDocument
    cases hs : input.sourceDocument with
    | some sourceDocument => exact ⟨_, rfl⟩
    | none =>
      have hadapted := h.adapted
      rw [hs, Option.none_or, adaptSourceDocument] at hadapted
      simp only [Option.bind_eq_bind, Option.bind_eq_some_iff] at hadapted
      obtain ⟨-, -, uri, huri, languageId, hlanguageId, -⟩ := hadapted
      exact ⟨_, by simp [publicDocument, huri, hlanguageId]; rfl⟩
  unfold publish
  simp only [hdocument, Option.isNone_some, Bool.false_eq_true, if_false, h.identity,
    Bool.not_true, h.adapted, h.same, h.reads, Option.getD_some]
  cases hvalid : validMatches input.resolution.matches sourceDocument with
  | nil => exact ⟨[], published_nil rfl rfl rfl rfl⟩
  | cons first rest => exact publishMatches_spec hlocale h.identity

/-! ## Stale ids -/

/-- A call that replaces what was published. -/
inductive Operation where
  | publish (input : SourceExcerptPublicationInput)
  | invalidate (invalidation : Option SourceExcerptInvalidation)

def perform (host : ExcerptHost) (r : SourceExcerptRegistry) : Operation → SourceExcerptRegistry
  | .publish input => (r.publish host input).2
  | .invalidate invalidation => (r.invalidate host invalidation).2

def Step (host : ExcerptHost) (r : SourceExcerptRegistry) (o : Operation)
    (r' : SourceExcerptRegistry) : Prop := r' = r.perform host o

/-- The ids of the registry were asked for since `calls`. -/
structure IdsSince (host : ExcerptHost) (calls : ℕ) (r : SourceExcerptRegistry) : Prop where
  asked : calls ≤ r.idCalls
  keys : ∀ id ∈ r.authorities.keys, ∃ n, calls ≤ n ∧ host.createMatchId n = some id

theorem idsSince_empty {current : Option CurrentSourceState} {calls₀ calls : ℕ}
    (h : calls₀ ≤ calls) : IdsSince host calls₀ ⟨∅, current, calls⟩ :=
  ⟨h, fun _ hid => absurd hid List.not_mem_nil⟩

theorem mem_keys_foldl_set {included : List PublicationCandidate} {id : String} :
    ∀ {m : OrderedMap String SourceAuthority},
      id ∈ (included.foldl (fun authorities candidate =>
        authorities.set candidate.authority.matchId candidate.authority) m).keys →
      id ∈ m.keys ∨ ∃ candidate ∈ included, candidate.authority.matchId = id := by
  induction included with
  | nil => exact fun hid => .inl hid
  | cons candidate rest ih =>
    intro m hid
    rcases ih hid with hid | ⟨other, hother, he⟩
    · rcases OrderedMap.mem_keys_set.mp hid with rfl | hid
      · exact .inr ⟨candidate, List.mem_cons_self, rfl⟩
      · exact .inl hid
    · exact .inr ⟨other, List.mem_cons_of_mem _ hother, he⟩

theorem publishMatches_idsSince (r : SourceExcerptRegistry) (input : SourceExcerptPublicationInput)
    (current current' : CurrentSourceState) (text : List ℕ) (valid : List ValidMatch) :
    IdsSince host r.idCalls
      ((r.cleared current').publishMatches host input current text valid).2 := by
  unfold publishMatches
  dsimp only [cleared]
  obtain ⟨candidates, calls, hcandidates⟩ : ∃ candidates calls,
      createCandidates host input current text [] r.idCalls
        ((deduplicateAndOrder host.localeCompare valid).take PresentationLimits.matches) =
          (candidates, calls) := ⟨_, _, rfl⟩
  obtain ⟨hle, hcs⟩ := createCandidates_spec hcandidates
  rw [hcandidates]
  cases candidates with
  | none => exact idsSince_empty hle
  | some candidates =>
    have hc := hcs candidates rfl
    obtain ⟨hpre, -, -⟩ := @includeCandidates_spec host current
      (deduplicateAndOrder host.localeCompare valid).length candidates
      (by rw [← hc.describes.length_eq, List.length_take]; omega)
    refine ⟨hle, fun id hid => ?_⟩
    rcases mem_keys_foldl_set hid with hid | ⟨candidate, hin, rfl⟩
    · exact absurd hid List.not_mem_nil
    · have hin' := hpre.subset hin
      obtain ⟨n, hn, -, hcreate⟩ := hc.fromCalls candidate hin'
      obtain ⟨entry, -, hentry⟩ := exists_of_forall₂ hc.describes hin'
      exact ⟨n, hn, by rw [hcreate, hentry.authority]⟩

/-- A publication clears the registry, and may then publish matches. -/
theorem publish_cases (r : SourceExcerptRegistry) (input : SourceExcerptPublicationInput) :
    ∃ current, (r.publish host input).2 = r.cleared current ∨
      ∃ text valid, (r.publish host input).2 =
        ((r.cleared current).publishMatches host input current text valid).2 := by
  refine ⟨⟨input.inspectMessageId, input.resolutionGeneration,
    (sourceStateDocument host input).getD unknownDocument⟩, ?_⟩
  unfold publish
  dsimp only
  split
  · exact .inl rfl
  · split
    · exact .inl rfl
    · split
      · exact .inl rfl
      · split
        · exact .inl rfl
        · split
          · exact .inl rfl
          · split
            · exact .inl rfl
            · exact .inr ⟨_, _, rfl⟩

/-- A call leaves no id but those it asked for. -/
theorem step_idsSince {o : Operation} {calls : ℕ} (hcalls : calls ≤ r.idCalls)
    (h : Step host r o r') : IdsSince host calls r' := by
  rw [h]
  cases o with
  | invalidate invalidation => exact idsSince_empty hcalls
  | publish input =>
    show IdsSince host calls (r.publish host input).2
    obtain ⟨current, he | ⟨text, valid, he⟩⟩ := @publish_cases host r input
    · rw [he]
      exact idsSince_empty hcalls
    · have hsince := @publishMatches_idsSince host r input current current text valid
      rw [he]
      refine ⟨hcalls.trans hsince.asked, fun id hid => ?_⟩
      obtain ⟨n, hn, hcreate⟩ := hsince.keys id hid
      exact ⟨n, hcalls.trans hn, hcreate⟩

theorem resolveOpen_none {message : SourceOpenMessage} (h : message.matchId ∉ r.authorities.keys)
    (activeDocument : TextDocumentLike) : r.resolveOpen message activeDocument = none := by
  have hnone := OrderedMap.get?_eq_none.mpr h
  unfold resolveOpen
  split
  · rfl
  · split
    · rfl
    · rw [hnone]

/-- Behind a later call no id opens anything that is not made anew. -/
theorem stale_id {h : List (Transition SourceExcerptRegistry Operation)} {id : String}
    (hr : Run (Step host) r h r') (hlater : h ≠ [])
    (hfresh : ∀ n, r.idCalls ≤ n → host.createMatchId n ≠ some id) {message : SourceOpenMessage}
    (hid : message.matchId = id) (activeDocument : TextDocumentLike) :
    r'.resolveOpen message activeDocument = none := by
  have hsince : r.idCalls ≤ r'.idCalls ∧ (h ≠ [] → IdsSince host r.idCalls r') := by
    clear hlater
    induction hr with
    | start => exact ⟨le_rfl, fun hne => absurd rfl hne⟩
    | next _ hs ih =>
      have hstep := step_idsSince ih.1 hs
      exact ⟨hstep.asked, fun _ => hstep⟩
  refine resolveOpen_none (fun hin => ?_) activeDocument
  obtain ⟨n, hn, hcreate⟩ := (hsince.2 hlater).keys _ hin
  exact hfresh n hn (hid ▸ hcreate)

/-! ## The whole publication -/

/-- A publication of matches of the active document holds the first of their ranges, each cut from
the document and opened by its id, until something else is published. -/
theorem publication_complete
    (hlocale : IsComparator fun left right : String => host.localeCompare left right)
    (h : Readable input sourceDocument text) (r : SourceExcerptRegistry) :
    let valid := validMatches input.resolution.matches sourceDocument
    let unique := deduplicateAndOrder host.localeCompare valid
    let published := r.publish host input
    Deduplicated valid unique ∧ ∃ included,
      Published host input text valid included published.1 published.2 ∧
      (∀ candidate ∈ included, ∃ entry ∈ unique, candidate.authority.range = entry.match.range ∧
        ∃ cut, cut <+: (text.take entry.endOffset).drop entry.startOffset ∧
          candidate.excerpt.text = toWellFormed cut ∧
          logicalLines candidate.excerpt.text ≤ PresentationLimits.textLines ∧
          utf8Length candidate.excerpt.text ≤ PresentationLimits.textBytes ∧
          (candidate.excerpt.truncated = true ↔
            cut ≠ (text.take entry.endOffset).drop entry.startOffset)) ∧
      (∀ later r', Run (Step host) published.2 later r' → later ≠ [] →
        ∀ candidate ∈ included,
          (∀ n, published.2.idCalls ≤ n →
            host.createMatchId n ≠ some candidate.excerpt.matchId) →
          ∀ message activeDocument, message.matchId = candidate.excerpt.matchId →
            r'.resolveOpen message activeDocument = none) := by
  intro valid unique published
  obtain ⟨included, hpublished⟩ := @publish_spec host r input sourceDocument text hlocale h
  refine ⟨deduplicateAndOrder_spec hlocale valid, included, hpublished, fun candidate hin => ?_,
    fun later r' hr hlater candidate _ hfresh message activeDocument hid =>
      stale_id hr hlater hfresh hid activeDocument⟩
  obtain ⟨entry, hentry, hdescribes⟩ := exists_of_forall₂ hpublished.describes hin
  obtain ⟨cut, hcut, htext, hlines, hbytes, htruncated, -⟩ :=
    boundedExcerpt_spec ((text.take entry.endOffset).drop entry.startOffset)
  rw [← hdescribes.text] at htext hlines hbytes htruncated
  exact ⟨entry, List.mem_of_mem_take hentry, by rw [hdescribes.authority], cut, hcut, htext, hlines,
    hbytes, htruncated⟩

section Examples

def sampleHost : ExcerptHost where
  sourceDocumentLabel := fun _ => "a.css"
  normalizeLanguageId := id
  matchLabel := fun «match» _ _ _ => some «match».label
  localeCompare := compareText
  createMatchId := fun n => if n = 0 then some "m" else none
  measureEnvelopeBytes := fun _ => some 0

def sampleMatch (targetRole : SourceTargetRole) (confidence : SourceConfidence) :
    ResolvedSourceMatch where
  targetRole := targetRole
  range := ⟨⟨0, 0⟩, ⟨0, 4⟩⟩
  label := "rule"
  kind := "style-rule"
  relation := "styles"
  confidence := confidence
  pluginId := "css"
  labelProvenance := none

/-- The text `.a{}`. -/
def sampleText : List ℕ := [46, 97, 123, 125]

/-- A range that is matched for the selected element, and more surely for its parent. -/
def sampleInput : SourceExcerptPublicationInput where
  inspectMessageId := "inspect"
  resolutionGeneration := 1
  activeDocument := ⟨some "a.css", some "css", some 1, some sampleText⟩
  sourceDocument := none
  resolution := ⟨"inspect", "a.css", 1,
    [sampleMatch .selected .heuristic, sampleMatch .parent .exact]⟩

def sampleDocument : AdaptedDocument where
  uri := "a.css"
  languageId := "css"
  version := 1
  text := some sampleText
  positionAt := fun offset => some (TextOffsetIndex.positionAt sampleText offset)
  offsetAt := fun position => some (TextOffsetIndex.offsetAt sampleText position)

theorem sample_readable : Readable sampleInput sampleDocument sampleText :=
  ⟨by decide, rfl, by decide, rfl⟩

theorem publication_complete_sample :
    ((empty.publish sampleHost sampleInput).1.message.matches.length +
      (empty.publish sampleHost sampleInput).1.message.omittedMatchCount = 1) := by
  obtain ⟨-, included, hpublished, -⟩ :=
    @publication_complete sampleHost _ _ _ (IsComparator.text id) sample_readable empty
  have hcount := hpublished.count
  rw [← List.length_map (f := PublicationCandidate.excerpt), ← hpublished.excerpts] at hcount
  rw [hcount]
  decide +kernel

/-- The surer match is the parent's, and the excerpt of the range is that of the other. -/
theorem surer_match_dropped :
    validMatches sampleInput.resolution.matches sampleDocument =
        [⟨sampleMatch .selected .heuristic, 0, 4⟩, ⟨sampleMatch .parent .exact, 0, 4⟩] ∧
      (empty.publish sampleHost sampleInput).1.message.matches.map SourceExcerpt.confidence =
        [.heuristic] := by
  have hvalid : validMatches sampleInput.resolution.matches sampleDocument =
      [⟨sampleMatch .selected .heuristic, 0, 4⟩, ⟨sampleMatch .parent .exact, 0, 4⟩] := by
    decide +kernel
  refine ⟨hvalid, ?_⟩
  have hunique : deduplicateAndOrder compareText
      [⟨sampleMatch .selected .heuristic, 0, 4⟩, ⟨sampleMatch .parent .exact, 0, 4⟩] =
        [⟨sampleMatch .selected .heuristic, 0, 4⟩] := by
    unfold deduplicateAndOrder
    dsimp only
    rw [List.mergeSort_of_pairwise (by decide +kernel)]
    decide +kernel
  have hpublish : empty.publish sampleHost sampleInput =
      (empty.cleared ⟨"inspect", 1, "a.css", "css"⟩).publishMatches sampleHost sampleInput
        ⟨"inspect", 1, "a.css", "css"⟩ sampleText
        [⟨sampleMatch .selected .heuristic, 0, 4⟩, ⟨sampleMatch .parent .exact, 0, 4⟩] := by
    unfold publish
    have hdocument : sourceStateDocument sampleHost sampleInput = some ⟨"a.css", "css"⟩ := rfl
    simp only [hdocument, Option.isNone_some, Bool.false_eq_true, if_false,
      sample_readable.identity, Bool.not_true, sample_readable.adapted, sample_readable.same,
      sample_readable.reads, Option.getD_some, hvalid]
    rfl
  rw [hpublish]
  unfold publishMatches
  rw [show sampleHost.localeCompare = compareText from rfl, hunique]
  decide +kernel

end Examples

end SourceExcerptRegistry

end PinOp.Presenter
