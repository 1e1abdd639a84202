import PinOp.Inspect.MergedEvidence

/-!
# The evidence of a payload is correlated and counted

Every displayed row goes through exactly one pass. Whatever the passes cut off and the merge drops,
what is listed, omitted and repeated adds up to the rows.
-/

namespace PinOp.Inspect

open PinOp.Lib

variable {host : UrlHost} {matchedStyles : MatchedStyles} {options : InspectPayloadOptions}
  {location : LocationSource} {element : InspectableElement} {parent : Option InspectableElement}
  {pageUrl : List ℕ} {budget : ℕ} {payload : InspectPayload}

/-! ## The rows -/

/-- The displayed rows: inline, direct and inherited. -/
def MatchedStyles.rows (matchedStyles : MatchedStyles) : List MatchedRule :=
  matchedStyles.inline.toList ++ matchedStyles.rules ++
    matchedStyles.inherited.flatMap InheritedMatchedRules.rules

/-- The rows of a group, found by its index. -/
def groupRows (groups : List InheritedMatchedRules) (index : ℕ) : List MatchedRule :=
  ((groups.find? fun group => group.ancestorIndex = index).map InheritedMatchedRules.rules).getD []

theorem groupRows_eq_filter {groups : List InheritedMatchedRules}
    (h : (groups.map InheritedMatchedRules.ancestorIndex).Nodup) (index : ℕ) :
    groupRows groups index =
      (groups.filter fun group => group.ancestorIndex = index).flatMap
        InheritedMatchedRules.rules := by
  induction groups with
  | nil => rfl
  | cons g rest ih =>
    rw [List.map_cons, List.nodup_cons] at h
    by_cases hg : g.ancestorIndex = index
    · have hnone : (rest.filter fun group => group.ancestorIndex = index) = [] := by
        rw [List.filter_eq_nil_iff]
        intro k hk heq
        exact h.1 (by rw [hg, ← of_decide_eq_true heq]; exact List.mem_map_of_mem hk)
      rw [groupRows, List.find?_cons_of_pos (by simpa using hg), List.filter_cons_of_pos
        (by simpa using hg), hnone]
      simp
    · rw [groupRows, List.find?_cons_of_neg (by simpa using hg), List.filter_cons_of_neg
        (by simpa using hg)]
      exact ih h.2

theorem groupRows_of_mem {groups : List InheritedMatchedRules} {g : InheritedMatchedRules}
    (h : (groups.map InheritedMatchedRules.ancestorIndex).Nodup) (hg : g ∈ groups) :
    groupRows groups g.ancestorIndex = g.rules := by
  have hfind : (groups.find? fun group => group.ancestorIndex = g.ancestorIndex) = some g := by
    obtain ⟨k, hk⟩ := Option.isSome_iff_exists.1
      (List.find?_isSome.2 ⟨g, hg, by simp⟩ :
        (groups.find? fun group => group.ancestorIndex = g.ancestorIndex).isSome = true)
    have hsame : k.ancestorIndex = g.ancestorIndex := by simpa using List.find?_some hk
    rw [hk, List.inj_on_of_nodup_map h (List.mem_of_find?_eq_some hk) hg hsame]
  rw [groupRows, hfind]
  rfl

theorem selectedRules_group (index : ℕ) (evidenceOnly : Bool) :
    selectedRules matchedStyles ⟨some index, pageUrl, evidenceOnly⟩ =
      groupRows matchedStyles.inherited index := rfl

/-- In the order of the passes. -/
def passRows (matchedStyles : MatchedStyles) (parent : Option InspectableElement) :
    List MatchedRule :=
  (matchedStyles.inline.toList ++ matchedStyles.rules) ++
    ((if parent.isSome then matchedStyles.domParentAncestorIndex else none).map
      (groupRows matchedStyles.inherited)).getD [] ++
    (displayedInherited matchedStyles parent).flatMap InheritedMatchedRules.rules

theorem passRows_perm (h : (matchedStyles.inherited.map InheritedMatchedRules.ancestorIndex).Nodup)
    (parent : Option InspectableElement) :
    (passRows matchedStyles parent).Perm matchedStyles.rows := by
  have hall : (displayedInherited matchedStyles none) = matchedStyles.inherited := by
    simp [displayedInherited]
  unfold passRows MatchedStyles.rows
  rw [List.append_assoc]
  refine List.Perm.append_left _ ?_
  cases parent with
  | none =>
    rw [hall]
    exact List.Perm.refl _
  | some parent =>
    cases hindex : matchedStyles.domParentAncestorIndex with
    | none =>
      have hshown : displayedInherited matchedStyles (some parent) = matchedStyles.inherited := by
        simp [displayedInherited, hindex]
      rw [hshown]
      exact List.Perm.refl _
    | some index =>
      have hshown : displayedInherited matchedStyles (some parent) =
          matchedStyles.inherited.filter fun group => !decide (group.ancestorIndex = index) := by
        simp [displayedInherited, hindex]
      rw [hshown]
      simp only [Option.isSome_some, if_true, Option.map_some, Option.getD_some]
      rw [groupRows_eq_filter h, ← List.flatMap_append]
      exact (List.filter_append_perm _ _).flatMap_right _

/-! ## The units -/

def targetUnits (host : UrlHost) (matchedStyles : MatchedStyles) (options : InspectPayloadOptions)
    (element : InspectableElement) (rows : Option MatchedStylesProjectionOptions) (budget : ℕ) :
    List (Option CorrelatedRuleUnit) :=
  match rows with
  | none => []
  | some rows =>
    projectionUnits host matchedStyles
      (createElementSnapshot host options.isRuntimeAttributeName element budget).2 rows

def inheritedUnits (host : UrlHost) (matchedStyles : MatchedStyles) (pageUrl : List ℕ) :
    List InheritedMatchedRules → ℕ → List (Option CorrelatedRuleUnit)
  | [], _ => []
  | group :: rest, budget =>
    let rows : MatchedStylesProjectionOptions := ⟨some group.ancestorIndex, pageUrl, true⟩
    projectionUnits host matchedStyles budget rows ++
      inheritedUnits host matchedStyles pageUrl rest
        (projectMatchedStylesToCssFacts host matchedStyles budget rows).remainingBytes

/-- The units of all passes of a payload, one entry for each row. -/
def payloadUnits (host : UrlHost) (matchedStyles : MatchedStyles) (options : InspectPayloadOptions)
    (location : LocationSource) (element : InspectableElement) (parent : Option InspectableElement)
    (budget : ℕ) : List (Option CorrelatedRuleUnit) :=
  let pageUrl := boundedPageUrl host location.href
  let own : Option MatchedStylesProjectionOptions := some ⟨none, pageUrl, false⟩
  let behind := (collectTarget host matchedStyles options .selected element own budget).2
  targetUnits host matchedStyles options element own budget ++
    (parent.map fun parent => targetUnits host matchedStyles options parent
      (matchedStyles.domParentAncestorIndex.map fun index => ⟨some index, pageUrl, false⟩)
      behind).getD [] ++
    inheritedUnits host matchedStyles pageUrl (displayedInherited matchedStyles parent)
      (collectTargets host matchedStyles options pageUrl element parent budget).2

def attributeBytes (attributes : List DomAttribute) : ℕ :=
  (attributes.map fun attr => attr.toJson.bytes).sum

theorem snapshotAttributes_fits (isRuntimeAttributeName : List ℕ → Bool)
    (attributes : List (List ℕ × List ℕ)) (count budget : ℕ) :
    attributeBytes (snapshotAttributes host isRuntimeAttributeName attributes count budget).1 +
      (snapshotAttributes host isRuntimeAttributeName attributes count budget).2 ≤ budget := by
  induction attributes generalizing count budget with
  | nil => simp [snapshotAttributes, attributeBytes]
  | cons entry rest ih =>
    obtain ⟨name, value⟩ := entry
    unfold snapshotAttributes
    split
    · exact ih count budget
    · split
      · simp [attributeBytes]
      · split
        · simp only
          cases hconsume : consumeJsonBudget budget (DomAttribute.toJson
              ⟨(host.toLowerCase name).take Limits.attributeNameLength,
                value.take Limits.valueLength⟩) with
          | mk accepted remaining =>
            cases accepted with
            | false =>
              have hzero := consumeJsonBudget_false hconsume
              simp [attributeBytes, hzero]
            | true =>
              have hpaid := consumeJsonBudget_true hconsume
              have hrest := ih (count + 1) remaining
              simp only [attributeBytes, List.map_cons, List.sum_cons] at hrest ⊢
              omega
        · exact ih (count + 1) budget

/-- A target: a pass over its rows behind the snapshot of its element. -/
theorem collectTarget_pass (role : TargetRole) (element : InspectableElement)
    (rows : Option MatchedStylesProjectionOptions) (budget : ℕ) :
    Pass ((rows.map (selectedRules matchedStyles)).getD [])
      (targetUnits host matchedStyles options element rows budget)
      [(collectTarget host matchedStyles options role element rows budget).1.ruleEvidence]
      (attributeBytes (collectTarget host matchedStyles options role element rows budget).1.attributes)
      budget (collectTarget host matchedStyles options role element rows budget).2 := by
  have hfits := @snapshotAttributes_fits host options.isRuntimeAttributeName
    (element.attributes.take (Limits.subjectAttributes + Limits.runtimeAttributeScan)) 0 budget
  cases rows with
  | none => exact ⟨rfl, rfl, hfits, .nil⟩
  | some rows => exact projection_pass host matchedStyles hfits rows

theorem projectInherited_pass
    (h : (matchedStyles.inherited.map InheritedMatchedRules.ancestorIndex).Nodup)
    (groups : List InheritedMatchedRules) (hgroups : ∀ g ∈ groups, g ∈ matchedStyles.inherited)
    (budget : ℕ) :
    ∃ remaining, Pass (groups.flatMap InheritedMatchedRules.rules)
      (inheritedUnits host matchedStyles pageUrl groups budget)
      (projectInherited host matchedStyles pageUrl groups budget) 0 budget remaining := by
  induction groups generalizing budget with
  | nil => exact ⟨budget, rfl, rfl, Nat.le_of_eq (Nat.zero_add _), .nil⟩
  | cons g rest ih =>
    have hfirst := projection_pass host matchedStyles (Nat.le_of_eq (Nat.zero_add budget))
      ⟨some g.ancestorIndex, pageUrl, true⟩
    rw [selectedRules_group, groupRows_of_mem h (hgroups g List.mem_cons_self)] at hfirst
    obtain ⟨remaining, hrest⟩ := ih (fun k hk => hgroups k (List.mem_cons_of_mem g hk))
      (projectMatchedStylesToCssFacts host matchedStyles budget
        ⟨some g.ancestorIndex, pageUrl, true⟩).remainingBytes
    exact ⟨remaining, hfirst.append hrest⟩

theorem collectTargets_pass (element : InspectableElement) (parent : Option InspectableElement)
    (budget : ℕ) :
    Pass ((matchedStyles.inline.toList ++ matchedStyles.rules) ++
        ((if parent.isSome then matchedStyles.domParentAncestorIndex else none).map
          (groupRows matchedStyles.inherited)).getD [])
      (targetUnits host matchedStyles options element (some ⟨none, pageUrl, false⟩) budget ++
        (parent.map fun parent => targetUnits host matchedStyles options parent
          (matchedStyles.domParentAncestorIndex.map fun index => ⟨some index, pageUrl, false⟩)
          (collectTarget host matchedStyles options .selected element
            (some ⟨none, pageUrl, false⟩) budget).2).getD [])
      ((collectTargets host matchedStyles options pageUrl element parent budget).1.map
        CollectedTarget.ruleEvidence)
      (attributeBytes ((collectTargets host matchedStyles options pageUrl element parent budget).1.flatMap
        CollectedTarget.attributes))
      budget (collectTargets host matchedStyles options pageUrl element parent budget).2 := by
  have hown := @collectTarget_pass host matchedStyles options .selected element
    (some ⟨none, pageUrl, false⟩) budget
  cases parent with
  | none =>
    simp only [collectTargets, List.flatMap_cons, List.flatMap_nil, List.append_nil,
      Option.isSome_none, Bool.false_eq_true, if_false, Option.map_none, Option.getD_none]
    exact hown
  | some parent =>
    have hparent := @collectTarget_pass host matchedStyles options .parent parent
      (matchedStyles.domParentAncestorIndex.map fun index => ⟨some index, pageUrl, false⟩)
      (collectTarget host matchedStyles options .selected element
        (some ⟨none, pageUrl, false⟩) budget).2
    have hboth := hown.append hparent
    simp only [collectTargets, List.flatMap_cons, List.flatMap_nil, List.append_nil]
    rw [attributeBytes, List.map_append, List.sum_append]
    cases hindex : matchedStyles.domParentAncestorIndex with
    | none =>
      rw [hindex] at hboth
      exact hboth
    | some index =>
      rw [hindex] at hboth
      exact hboth

/-- All passes of a payload, in one. -/
theorem payload_pass (h : (matchedStyles.inherited.map InheritedMatchedRules.ancestorIndex).Nodup) :
    ∃ remaining, Pass (passRows matchedStyles parent)
      (payloadUnits host matchedStyles options location element parent budget)
      ((collectTargets host matchedStyles options (boundedPageUrl host location.href) element
        parent budget).1.map CollectedTarget.ruleEvidence ++
      projectInherited host matchedStyles (boundedPageUrl host location.href)
        (displayedInherited matchedStyles parent)
        (collectTargets host matchedStyles options (boundedPageUrl host location.href) element
          parent budget).2)
      (attributeBytes ((collectTargets host matchedStyles options
        (boundedPageUrl host location.href) element parent budget).1.flatMap
          CollectedTarget.attributes)) budget remaining := by
  obtain ⟨remaining, hinherited⟩ := @projectInherited_pass host matchedStyles
    (boundedPageUrl host location.href) h (displayedInherited matchedStyles parent)
    (fun g hg => List.mem_of_mem_filter hg)
    (collectTargets host matchedStyles options (boundedPageUrl host location.href) element
      parent budget).2
  exact ⟨remaining, (collectTargets_pass element parent budget).append hinherited⟩

/-! ## The payload -/

/-- What holds of a payload; the units are those of all its passes. -/
structure CorrelatedEvidence (matchedStyles : MatchedStyles) (budget : ℕ)
    (units : List (Option CorrelatedRuleUnit)) (payload : InspectPayload) : Prop where
  refs : (payload.ruleEvidence.rules.map InspectRuleEvidence.ruleRef).Nodup
  bound : payload.ruleEvidence.rules.length ≤ Limits.rules
  facts : ∀ target ∈ payload.targets, ∀ fact ∈ target.facts, ∃ e ∈ payload.ruleEvidence.rules,
    e.ruleRef = fact.ruleRef ∧ fact.declaration ∈ e.declarations
  /-- Every row has its entry, in the order of the passes. -/
  rows : ∃ rows, rows.Perm matchedStyles.rows ∧
    List.Forall₂ (fun row unit => ∀ u ∈ unit, Describes row u) rows units
  count : payload.ruleEvidence.rules.length + payload.ruleEvidence.omittedRuleCount +
    repeats payload.ruleEvidence.rules (evidenceOf units) = matchedStyles.rows.length
  complete : ∀ e ∈ payload.ruleEvidence.rules, ∃ row ∈ matchedStyles.rows,
    e.ruleRef = row.ruleRef ∧ (e.declarationsTruncated = false →
      e.declarations = row.declarations.map MatchedDeclaration.sent)
  fits : attributeBytes (payload.targets.flatMap InspectTarget.attributes) + bytesOf units ≤ budget

/-- A listed evidence is the one of a row. -/
theorem describes_of_mem {rows : List MatchedRule} {units : List (Option CorrelatedRuleUnit)}
    (h : List.Forall₂ (fun row unit => ∀ u ∈ unit, Describes row u) rows units)
    {unit : CorrelatedRuleUnit} (hunit : some unit ∈ units) : ∃ row ∈ rows, Describes row unit := by
  induction h with
  | nil => exact absurd hunit List.not_mem_nil
  | @cons row u rows units hrow _ ih =>
    rcases List.mem_cons.1 hunit with rfl | hunit
    · exact ⟨row, List.mem_cons_self, hrow unit rfl⟩
    · obtain ⟨row', hmem, hd⟩ := ih hunit
      exact ⟨row', List.mem_cons_of_mem row hmem, hd⟩

theorem length_evidenceOf (units : List (Option CorrelatedRuleUnit)) :
    (evidenceOf units).length + missing units = units.length := by
  induction units with
  | nil => rfl
  | cons unit rest ih =>
    cases unit with
    | none =>
      rw [missing, List.countP_cons_of_pos rfl, List.length_cons, ← ih]
      rfl
    | some unit =>
      rw [missing, List.countP_cons_of_neg (by simp), List.length_cons, ← ih, evidenceOf,
        List.reduceOption_cons_of_some, List.map_cons, List.length_cons, Nat.add_right_comm]
      rfl

/-- The evidence of a payload is correlated; listed, omitted and repeated rows are all the rows. -/
theorem payload_evidence_correlated (host : UrlHost) (matchedStyles : MatchedStyles)
    (options : InspectPayloadOptions) (location : LocationSource) (element : InspectableElement)
    (parent : Option InspectableElement) (budget : ℕ) (payload : InspectPayload)
    (hdistinct : (matchedStyles.inherited.map InheritedMatchedRules.ancestorIndex).Nodup)
    (hpayload : createInspectPayloadWithin host matchedStyles options location element parent
      budget = .ok payload) :
    CorrelatedEvidence matchedStyles budget
      (payloadUnits host matchedStyles options location element parent budget) payload := by
  obtain ⟨remaining, hpass⟩ := @payload_pass host matchedStyles options location element parent
    budget hdistinct
  have hperm := passRows_perm hdistinct parent
  obtain ⟨s, hmerge, hmerged⟩ := mergeRuleEvidence_merged
    ((collectTargets host matchedStyles options (boundedPageUrl host location.href) element
        parent budget).1.map CollectedTarget.ruleEvidence ++
      projectInherited host matchedStyles (boundedPageUrl host location.href)
        (displayedInherited matchedStyles parent)
        (collectTargets host matchedStyles options (boundedPageUrl host location.href) element
          parent budget).2)
  rw [hpass.evidence, hpass.omitted] at hmerged
  have hrows : matchedStyles.rows.length =
      (payloadUnits host matchedStyles options location element parent budget).length := by
    rw [← hperm.length_eq, hpass.describes.length_eq]
  unfold createInspectPayloadWithin at hpayload
  simp only at hpayload
  split at hpayload
  · cases hpayload
  · obtain rfl := Except.ok.inj hpayload
    unfold inspectPayload
    simp only [hmerge]
    refine ⟨hmerged.refs, hmerged.bound, ?_, ⟨_, hperm, hpass.describes⟩, ?_, ?_, ?_⟩
    · intro target htarget fact hfact
      obtain ⟨collected, -, rfl⟩ := List.mem_map.1 htarget
      exact keepsFact_evidence (List.mem_filter.1 hfact).2
    · rw [hrows, ← length_evidenceOf]
      exact hmerged.count
    · intro e he
      obtain ⟨unit, hunit, rfl⟩ := List.mem_map.1 (hmerged.listed e he)
      obtain ⟨row, hrow, hdescribes⟩ := describes_of_mem hpass.describes
        (List.reduceOption_mem_iff.1 hunit)
      exact ⟨row, hperm.mem_iff.1 hrow, hdescribes.ruleRef, hdescribes.complete⟩
    · refine Nat.le_trans (Nat.le_add_right _ remaining) (Nat.le_trans (Nat.le_of_eq ?_) hpass.fits)
      simp only [List.flatMap_map]

namespace EvidenceSample

/-- A page that knows no URLs. -/
def page : UrlHost := ⟨fun _ _ => none, some, id⟩

def unmarked : InspectPayloadOptions := ⟨fun _ => false, fun _ => false⟩

def blank : LocationSource := ⟨units "about:blank", [], [], []⟩

def list : InspectableElement := ⟨[(units "role", units "list")]⟩

def color : MatchedDeclaration := ⟨units "color", units "red", false, false⟩

def margin : MatchedDeclaration := ⟨units "margin", units "0", true, false⟩

/-- Rows of the rule `.a`. -/
def row (declarations : List MatchedDeclaration) : MatchedRule :=
  ⟨0, units "r1", units ".a", declarations, false, [], false, false, none⟩

/-- The rule matches the element and two ancestors, which pass on its color only. -/
def styles : MatchedStyles :=
  ⟨none, none, [row [color, margin]], [⟨0, [row [color]]⟩, ⟨1, [row [color]]⟩], 0⟩

end EvidenceSample

open EvidenceSample in
theorem payload_evidence_correlated_sample :
    CorrelatedEvidence styles 2000 (payloadUnits page styles unmarked blank list (some list) 2000)
      (inspectPayload page styles unmarked blank list (some list) 2000) :=
  payload_evidence_correlated page styles unmarked blank list (some list) 2000 _ (by decide) rfl

open EvidenceSample in
/-- A row that repeats evidence which the payload does not list is omitted as that one is. -/
theorem repeat_of_dropped_counts_twice :
    createInspectPayload page styles unmarked blank list none =
      .ok (inspectPayload page styles unmarked blank list none inspectCollectionMaxBytes) ∧
    let payload := inspectPayload page styles unmarked blank list none inspectCollectionMaxBytes
    let evidence :=
      evidenceOf (payloadUnits page styles unmarked blank list none inspectCollectionMaxBytes)
    payload.ruleEvidence.rules.length + payload.ruleEvidence.omittedRuleCount +
      repeats evidence evidence ≠ styles.rows.length :=
  ⟨rfl, by decide +kernel⟩

end PinOp.Inspect
