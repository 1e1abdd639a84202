import PinOp.Inspect.RowUnits

/-!
# Merging the evidence of all passes

The evidence of one rule may come from several passes. The merge keeps the first one of each
reference, passes over its exact repeats, and counts every other as omitted.
-/

namespace PinOp.Inspect

open PinOp.Lib

/-! ## The text tells the evidence -/

theorem members_injective : Function.Injective InspectRuleDeclaration.members := by
  intro d e h
  cases d
  cases e
  simpa [InspectRuleDeclaration.members] using h

theorem context_toJson_injective : Function.Injective InspectRuleContext.toJson := by
  intro c d h
  obtain ⟨kind, text⟩ := c
  obtain ⟨kind', text'⟩ := d
  simp only [InspectRuleContext.toJson, Json.object.injEq, List.cons.injEq, Prod.mk.injEq,
    Json.string.injEq, true_and, and_true] at h
  have hkind : ∀ k k' : InspectContextKind, k.text = k'.text → k = k' := by
    intro k k' hk
    cases k <;> cases k' <;> first | rfl | exact absurd hk (by decide +kernel)
  rw [hkind _ _ h.1, h.2]

/-- Members with one of these keys. -/
def hasKey (keys : List String) (m : List ℕ × Json) : Bool := keys.any fun key => m.1 = units key

theorem pairMembers_keys {line column : String} (pair : Option (ℕ × ℕ)) :
    ∀ m ∈ pairMembers line column pair, hasKey [line, column] m = true := by
  intro m hm
  cases pair with
  | none => cases hm
  | some pair =>
    rcases List.mem_cons.1 hm with rfl | hm
    · simp [hasKey]
    · rw [List.mem_singleton.1 hm]
      simp [hasKey]

theorem pairMembers_injective {line column : String} :
    Function.Injective (pairMembers line column) := by
  intro p q h
  cases p <;> cases q
  · rfl
  · cases h
  · cases h
  · simp only [pairMembers, List.cons.injEq, Prod.mk.injEq, Json.number.injEq, true_and, and_true]
      at h
    rw [Prod.ext h.1 h.2]

/-- The members behind the positions. -/
def InspectGeneratedSource.lastMembers (source : InspectGeneratedSource) : List (List ℕ × Json) :=
  (source.rulePath.map fun path => (units "rulePath", Json.string path)).toList ++
    [(units "contexts", .array (source.contexts.map InspectRuleContext.toJson)),
      (units "contextsTruncated", .bool source.contextsTruncated),
      (units "unsupportedGroupContext", .bool source.unsupportedGroupContext)]

theorem hasKey_false {keys : List String} {m : List ℕ × Json} (h : m.1 ∉ keys.map units) :
    hasKey keys m = false := by
  simp only [hasKey, List.any_eq_false, decide_eq_true_eq]
  exact fun key hkey he => h (he ▸ List.mem_map_of_mem hkey)

theorem lastMembers_head (source : InspectGeneratedSource) {keys : List String}
    (hpath : units "rulePath" ∉ keys.map units) (hcontexts : units "contexts" ∉ keys.map units) :
    ∀ m ∈ source.lastMembers.head?, hasKey keys m = false := by
  intro m hm
  unfold InspectGeneratedSource.lastMembers at hm
  cases hrule : source.rulePath with
  | none =>
    rw [hrule] at hm
    cases hm
    exact hasKey_false hcontexts
  | some path =>
    rw [hrule] at hm
    cases hm
    exact hasKey_false hpath

theorem lastMembers_inj {s t : InspectGeneratedSource} (h : s.lastMembers = t.lastMembers) :
    s.rulePath = t.rulePath ∧ s.contexts = t.contexts ∧
      s.contextsTruncated = t.contextsTruncated ∧
      s.unsupportedGroupContext = t.unsupportedGroupContext := by
  unfold InspectGeneratedSource.lastMembers at h
  have hlen := congrArg List.length h
  cases hp : s.rulePath with
  | none =>
    cases hq : t.rulePath with
    | none =>
      rw [hp, hq] at h
      simpa [(List.map_injective_iff.2 context_toJson_injective).eq_iff] using h
    | some q =>
      simp [hp, hq] at hlen
  | some p =>
    cases hq : t.rulePath with
    | none =>
      simp [hp, hq] at hlen
    | some q =>
      rw [hp, hq] at h
      simpa [(List.map_injective_iff.2 context_toJson_injective).eq_iff] using h

theorem source_toJson_injective : Function.Injective InspectGeneratedSource.toJson := by
  intro s t h
  have hmembers := Json.object.inj h
  simp only [List.cons.injEq, Prod.mk.injEq, Json.string.injEq, true_and, List.append_assoc]
    at hmembers
  obtain ⟨hurl, hmembers⟩ := hmembers
  have hstop : ∀ source : InspectGeneratedSource,
      ∀ m ∈ (pairMembers "endLine" "endColumn" source.stop ++ source.lastMembers).head?,
        hasKey ["startLine", "startColumn"] m = false := by
    intro source m hm
    cases hs : source.stop with
    | none =>
      rw [hs] at hm
      exact lastMembers_head source (by decide +kernel) (by decide +kernel) m hm
    | some stop =>
      simp only [hs, pairMembers, List.cons_append, List.head?_cons, Option.mem_some_iff] at hm
      subst hm
      have hnot : units "endLine" ∉ ["startLine", "startColumn"].map units := by decide +kernel
      exact hasKey_false hnot
  obtain ⟨hstart, hmembers⟩ := span_inj (pairMembers_keys _) (pairMembers_keys _) (hstop s) (hstop t)
    hmembers
  obtain ⟨hstop, hmembers⟩ := span_inj (pairMembers_keys _) (pairMembers_keys _)
    (lastMembers_head s (by decide +kernel) (by decide +kernel))
    (lastMembers_head t (by decide +kernel) (by decide +kernel)) hmembers
  have hstart := pairMembers_injective hstart
  have hstop := pairMembers_injective hstop
  obtain ⟨hrulePath, hcontexts, htruncated, hunsupported⟩ := lastMembers_inj hmembers
  cases s
  cases t
  simp_all

theorem evidence_toJson_injective : Function.Injective InspectRuleEvidence.toJson := by
  intro d e h
  have hmembers := Json.object.inj h
  have hdeclarations : Function.Injective fun d : InspectRuleDeclaration => Json.object d.members :=
    fun _ _ h => members_injective (Json.object.inj h)
  simp only [List.cons_append, List.nil_append, List.cons.injEq, Prod.mk.injEq, Json.string.injEq,
    Json.array.injEq, Json.bool.injEq, true_and,
    (List.map_injective_iff.2 hdeclarations).eq_iff] at hmembers
  obtain ⟨href, hselector, hlist, htruncated, hsource⟩ := hmembers
  have hgenerated : d.generatedSource = e.generatedSource := by
    have hlen := congrArg List.length hsource
    cases hd : d.generatedSource with
    | none =>
      cases he : e.generatedSource with
      | none => rfl
      | some t =>
        simp [hd, he] at hlen
    | some s =>
      cases he : e.generatedSource with
      | none =>
        simp [hd, he] at hlen
      | some t =>
        rw [hd, he] at hsource
        simp only [Option.map_some, Option.toList_some, List.cons.injEq, Prod.mk.injEq, true_and,
          and_true] at hsource
        rw [source_toJson_injective hsource]
  cases d
  cases e
  simp_all

/-- Evidence with one text is one evidence. -/
theorem evidence_text_inj {d e : InspectRuleEvidence}
    (h : d.toJson.stringify = e.toJson.stringify) : d = e :=
  evidence_toJson_injective (Json.stringify_injective h)

/-! ## Repeats -/

/-- How many of the evidence repeat one in front of them that is listed; `seen` is what is in front
of all of them. -/
def repeatsFrom (listed : List InspectRuleEvidence) :
    List InspectRuleEvidence → List InspectRuleEvidence → ℕ
  | _, [] => 0
  | seen, e :: rest =>
    (if e ∈ seen ∧ e ∈ listed then 1 else 0) + repeatsFrom listed (seen ++ [e]) rest

def repeats (listed evidence : List InspectRuleEvidence) : ℕ := repeatsFrom listed [] evidence

variable {listed es : List InspectRuleEvidence} {e : InspectRuleEvidence}

theorem repeatsFrom_concat (seen es : List InspectRuleEvidence) (e : InspectRuleEvidence) :
    repeatsFrom listed seen (es ++ [e]) =
      repeatsFrom listed seen es + if e ∈ seen ++ es ∧ e ∈ listed then 1 else 0 := by
  induction es generalizing seen with
  | nil => simp [repeatsFrom]
  | cons d rest ih =>
    rw [List.cons_append, repeatsFrom, repeatsFrom, ih, List.append_cons seen d rest]
    omega

theorem repeats_concat (es : List InspectRuleEvidence) (e : InspectRuleEvidence) :
    repeats listed (es ++ [e]) = repeats listed es + if e ∈ es ∧ e ∈ listed then 1 else 0 :=
  repeatsFrom_concat [] es e

/-- Evidence that does not occur may be listed or not. -/
theorem repeats_insert (h : e ∉ es) : repeats (listed ++ [e]) es = repeats listed es := by
  have key : ∀ (es seen : List InspectRuleEvidence), e ∉ es →
      repeatsFrom (listed ++ [e]) seen es = repeatsFrom listed seen es := by
    intro es
    induction es with
    | nil => exact fun _ _ => rfl
    | cons d rest ih =>
      intro seen h
      rw [List.mem_cons, not_or] at h
      have hd : d ∈ listed ++ [e] ↔ d ∈ listed := by simp [Ne.symm h.1]
      rw [repeatsFrom, repeatsFrom, ih _ h.2]
      simp only [hd]
  exact key es [] h

/-! ## The merge -/

/-- What the merge has made of `es`, when `omitted` were omitted before. -/
structure Merged (es : List InspectRuleEvidence) (omitted : ℕ) (s : MergeState) : Prop where
  refs : (s.rules.map InspectRuleEvidence.ruleRef).Nodup
  bound : s.rules.length ≤ Limits.rules
  byRef : s.byRef.entries = s.rules.map fun e => (e.ruleRef, e)
  listed : ∀ e ∈ s.rules, e ∈ es
  covered : s.rules.length < Limits.rules → ∀ e ∈ es, e.ruleRef ∈ s.rules.map InspectRuleEvidence.ruleRef
  count : s.rules.length + s.omittedRuleCount + repeats s.rules es = es.length + omitted

theorem merged_nil (omitted : ℕ) : Merged [] omitted ⟨[], ∅, omitted⟩ :=
  ⟨List.nodup_nil, Nat.zero_le _, rfl, fun _ h => h, fun _ _ h => absurd h List.not_mem_nil,
    by simp [repeats, repeatsFrom]⟩

variable {omitted : ℕ} {s : MergeState}

theorem Merged.keys (h : Merged es omitted s) :
    s.byRef.keys = s.rules.map InspectRuleEvidence.ruleRef := by
  rw [OrderedMap.keys, h.byRef, List.map_map]
  rfl

/-- Listed evidence is told by its reference. -/
theorem Merged.unique (h : Merged es omitted s) {d : InspectRuleEvidence} (hd : d ∈ s.rules)
    (he : e ∈ s.rules) (href : d.ruleRef = e.ruleRef) : d = e :=
  List.inj_on_of_nodup_map h.refs hd he href

/-- When the evidence is not taken over, and counts as omitted. -/
theorem Merged.omit (h : Merged es omitted s) (hnot : e ∉ s.rules)
    (hcovered : s.rules.length < Limits.rules → e.ruleRef ∈ s.rules.map InspectRuleEvidence.ruleRef) :
    Merged (es ++ [e]) omitted { s with omittedRuleCount := s.omittedRuleCount + 1 } := by
  refine ⟨h.refs, h.bound, h.byRef, fun d hd => List.mem_append_left _ (h.listed d hd), ?_, ?_⟩
  · intro hlt d hd
    rcases List.mem_append.1 hd with hd | hd
    · exact h.covered hlt d hd
    · rw [List.mem_singleton.1 hd]
      exact hcovered hlt
  · have hcount := h.count
    rw [repeats_concat, if_neg (fun hand => hnot hand.2), List.length_append, List.length_singleton]
    simp only
    omega

theorem merged_step (h : Merged es omitted s) (e : InspectRuleEvidence) :
    Merged (es ++ [e]) omitted (mergeOne s e) := by
  unfold mergeOne
  cases hget : s.byRef.get? e.ruleRef with
  | some existing =>
    have hentry := OrderedMap.get?_eq_some.1 hget
    rw [h.byRef, List.mem_map] at hentry
    obtain ⟨kept, hkept, hpair⟩ := hentry
    rw [Prod.mk.injEq] at hpair
    obtain ⟨href, rfl⟩ := hpair
    simp only
    by_cases htext : kept.toJson.stringify = e.toJson.stringify
    · -- an exact repeat
      obtain rfl := evidence_text_inj htext
      rw [if_neg (not_not_intro htext)]
      refine ⟨h.refs, h.bound, h.byRef, fun d hd => List.mem_append_left _ (h.listed d hd), ?_, ?_⟩
      · intro hlt d hd
        rcases List.mem_append.1 hd with hd | hd
        · exact h.covered hlt d hd
        · rw [List.mem_singleton.1 hd]
          exact List.mem_map_of_mem hkept
      · have hcount := h.count
        rw [repeats_concat, if_pos ⟨h.listed _ hkept, hkept⟩, List.length_append,
          List.length_singleton]
        omega
    · -- a copy that says something else
      rw [if_pos htext]
      refine h.omit (fun hmem => htext ?_) fun _ => href ▸ List.mem_map_of_mem hkept
      rw [h.unique hkept hmem href]
  | none =>
    have hfresh : e.ruleRef ∉ s.rules.map InspectRuleEvidence.ruleRef := by
      rw [← h.keys]
      exact OrderedMap.get?_eq_none.1 hget
    have hnot : e ∉ s.rules := fun hmem => hfresh (List.mem_map_of_mem hmem)
    simp only
    by_cases hfull : Limits.rules ≤ s.rules.length
    · rw [if_pos hfull]
      exact h.omit hnot fun hlt => absurd hfull (Nat.not_le_of_lt hlt)
    · rw [if_neg hfull]
      have hroom : s.rules.length < Limits.rules := Nat.lt_of_not_le hfull
      have hnew : e ∉ es := fun hmem => hfresh (h.covered hroom e hmem)
      refine ⟨?_, ?_, ?_, ?_, ?_, ?_⟩
      · rw [List.map_append, List.nodup_append]
        refine ⟨h.refs, List.nodup_singleton _, fun a ha b hb => ?_⟩
        rw [List.mem_singleton.1 hb]
        exact fun heq => hfresh (heq ▸ ha)
      · rw [List.length_append, List.length_singleton]
        omega
      · rw [OrderedMap.entries_set_of_not_mem e (h.keys ▸ hfresh), h.byRef, List.map_append]
        rfl
      · intro d hd
        rcases List.mem_append.1 hd with hd | hd
        · exact List.mem_append_left _ (h.listed d hd)
        · exact List.mem_append_right _ hd
      · intro _ d hd
        rw [List.map_append, List.mem_append]
        rcases List.mem_append.1 hd with hd | hd
        · exact .inl (h.covered hroom d hd)
        · exact .inr (List.mem_map_of_mem hd)
      · have hcount := h.count
        rw [repeats_concat, repeats_insert hnew, if_neg (fun hand => hnew hand.1),
          List.length_append, List.length_append, List.length_singleton]
        show s.rules.length + 1 + s.omittedRuleCount + _ = _
        omega

theorem merged_run (h : Merged es omitted s) (more : List InspectRuleEvidence) :
    Merged (es ++ more) omitted (more.foldl mergeOne s) := by
  induction more generalizing es s with
  | nil =>
    rw [List.append_nil]
    exact h
  | cons e rest ih =>
    rw [List.append_cons]
    exact ih (merged_step h e)

/-- What a merge of batches says. -/
theorem mergeRuleEvidence_merged (batches : List InspectRuleEvidenceBatch) :
    ∃ s, mergeRuleEvidence batches = ⟨s.rules, s.omittedRuleCount⟩ ∧
      Merged (batches.flatMap InspectRuleEvidenceBatch.rules)
        (batches.map InspectRuleEvidenceBatch.omittedRuleCount).sum s :=
  ⟨_, rfl, merged_run (merged_nil _) _⟩

/-! ## Facts -/

theorem evidenceByRef_mem {rules : List InspectRuleEvidence} {ref : List ℕ}
    (h : (evidenceByRef rules).get? ref = some e) : e ∈ rules ∧ e.ruleRef = ref := by
  have key : ∀ (rules : List InspectRuleEvidence) (m : OrderedMap (List ℕ) InspectRuleEvidence),
      (rules.foldl (fun byRef d => byRef.set d.ruleRef d) m).get? ref = some e →
      (e ∈ rules ∧ e.ruleRef = ref) ∨ m.get? ref = some e := by
    intro rules
    induction rules with
    | nil => exact fun m h => .inr h
    | cons d rest ih =>
      intro m h
      rcases ih (m.set d.ruleRef d) h with h | h
      · exact .inl ⟨List.mem_cons_of_mem _ h.1, h.2⟩
      · rw [OrderedMap.get?_set] at h
        split at h
        · rename_i heq
          cases h
          exact .inl ⟨List.mem_cons_self, heq.symm⟩
        · exact .inr h
  rcases key rules ∅ h with h | h
  · exact h
  · rw [OrderedMap.get?_empty] at h
    cases h

/-- A fact that is kept has its declaration in the evidence of its reference. -/
theorem keepsFact_evidence {rules : List InspectRuleEvidence} {fact : CssRuleFact}
    (h : keepsFact (evidenceByRef rules) fact = true) :
    ∃ e ∈ rules, e.ruleRef = fact.ruleRef ∧ fact.declaration ∈ e.declarations := by
  unfold keepsFact at h
  obtain ⟨e, hget, hany⟩ := (Option.any_eq_true _ _).1 h
  obtain ⟨hmem, href⟩ := evidenceByRef_mem hget
  obtain ⟨d, hd, hsame⟩ := List.any_eq_true.1 hany
  exact ⟨e, hmem, href, of_decide_eq_true hsame ▸ hd⟩

end PinOp.Inspect
