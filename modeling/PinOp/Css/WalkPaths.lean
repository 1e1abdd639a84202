import PinOp.Css.CssRuleWalker
import PinOp.Css.RulePathText

/-!
# The paths a walk reports

Every report of a walk gives the path of its rule in its stylesheet, behind a namespace. The
paths stay short, so that the records carry them whole.
-/

namespace PinOp.Css

open PinOp.Lib PinOp.Protocol

/-- Rules below `path` in these rules. -/
def Below (all : List RuleSource) (path : List ℕ) (rules : List RuleSource) : Prop :=
  ∀ more, more ≠ [] → ruleAt all (path ++ more) = ruleAt rules more

theorem Below.child {all rules : List RuleSource} {path : List ℕ} (h : Below all path rules) {i : ℕ}
    {rule : RuleSource} (hi : rules[i]? = some rule) : Below all (path ++ [i]) rule.cssRules := by
  intro more hne
  rw [List.append_assoc, h ([i] ++ more) (by simp)]
  exact ruleAt_cons hi hne

/-- The report's path is the path of its rule. -/
def Located (host : WalkHost) (report : WalkReport) : Prop :=
  ∃ ns path rules, (host.stylesheet report.stylesheet.nativeStylesheet).cssRules = .ok rules ∧
    ruleAt rules path = some report.nativeRule ∧ report.rulePath = joinPath (ns :: path)

/-- What a part of the walk adds to the reports is located. -/
def Walked (host : WalkHost) (s s' : WalkState) : Prop :=
  ∀ report ∈ s'.reports, report ∈ s.reports ∨ Located host report

variable {host : WalkHost} {s s' s'' : WalkState}

namespace Walked

theorem of_eq (h : s'.reports = s.reports) : Walked host s s' := fun _ hr => .inl (h ▸ hr)

theorem refl (s : WalkState) : Walked host s s := .of_eq rfl

theorem trans (h : Walked host s s') (h' : Walked host s' s'') : Walked host s s'' := by
  intro report hr
  rcases h' report hr with hr | hr
  · exact h report hr
  · exact .inr hr

theorem report {report : WalkReport} (h : Located host report) : Walked host s (s.report report) := by
  intro r hr
  rcases List.mem_append.1 hr with hr | hr
  · exact .inl hr
  · rw [List.mem_singleton] at hr
    exact .inr (hr ▸ h)

end Walked

/-! ## Parts that report nothing -/

namespace WalkState

@[simp] theorem markTruncation_reports (s : WalkState) (reason : TruncationReason) :
    (s.markTruncation reason).reports = s.reports := by
  unfold markTruncation
  split <;> rfl

@[simp] theorem markIf_reports (s : WalkState) (mark : Bool) (reason : TruncationReason) :
    (s.markIf mark reason).reports = s.reports := by
  unfold markIf
  split <;> simp

@[simp] theorem reachedWalkLimit_reports (s : WalkState) :
    s.reachedWalkLimit.2.reports = s.reports := by
  simp [reachedWalkLimit]

theorem markTruncation_nextRootIndex (s : WalkState) (reason : TruncationReason) :
    (s.markTruncation reason).nextRootIndex = s.nextRootIndex := by
  unfold markTruncation
  split <;> rfl

theorem reachedWalkLimit_nextRootIndex (s : WalkState) :
    s.reachedWalkLimit.2.nextRootIndex = s.nextRootIndex := by
  have hmark : ∀ (s : WalkState) mark reason,
      (s.markIf mark reason).nextRootIndex = s.nextRootIndex := by
    intro s mark reason
    unfold markIf
    split
    · exact s.markTruncation_nextRootIndex reason
    · rfl
  simp only [reachedWalkLimit, hmark]

@[simp] theorem stylesheetLimitReached_reports (s : WalkState) :
    s.stylesheetLimitReached.2.reports = s.reports := by
  simp [stylesheetLimitReached]

@[simp] theorem consumeWalkByteCount_reports (s : WalkState) (bytes : ℕ) :
    (s.consumeWalkByteCount bytes).2.reports = s.reports := by
  unfold consumeWalkByteCount
  split <;> simp

@[simp] theorem consumeWalkBytes_reports (s : WalkState) (value : String) :
    (s.consumeWalkBytes value).2.reports = s.reports :=
  s.consumeWalkByteCount_reports _

@[simp] theorem offerWalkBytes_reports (s : WalkState) (value : String) :
    (s.offerWalkBytes value).2.reports = s.reports := by
  unfold offerWalkBytes
  split <;> simp

@[simp] theorem visitRule_reports (s : WalkState) : s.visitRule.reports = s.reports := rfl

@[simp] theorem visitDeclaration_reports (s : WalkState) :
    s.visitDeclaration.reports = s.reports := rfl

@[simp] theorem consumeStylesheetAuthority_reports (s : WalkState) :
    s.consumeStylesheetAuthority.reports = s.reports := rfl

@[simp] theorem reserveStylesheetIdentity_reports (s : WalkState) :
    s.reserveStylesheetIdentity.2.reports = s.reports := rfl

@[simp] theorem reportInaccessible_reports (s : WalkState) (sourceUrl reason : String) :
    (s.reportInaccessible sourceUrl reason).reports = s.reports := by
  unfold reportInaccessible
  split <;> rfl

end WalkState

@[simp] theorem isRuntimeStylesheet_reports (sheet : SheetId) (s : WalkState) :
    (isRuntimeStylesheet host sheet s).2.reports = s.reports := by
  unfold isRuntimeStylesheet
  split
  · rfl
  · split <;> simp

theorem isRuntimeStylesheet_stylesheetsVisited (sheet : SheetId) (s : WalkState) :
    (isRuntimeStylesheet host sheet s).2.stylesheetsVisited = s.stylesheetsVisited := by
  unfold isRuntimeStylesheet
  split
  · rfl
  split
  · rfl
  · unfold WalkState.reportInaccessible WalkState.markTruncation
    split <;> split <;> rfl

theorem stylesheetsVisited_lt {s : WalkState} (h : s.stylesheetLimit = false) :
    s.stylesheetsVisited < InspectLimits.stylesheets := by
  simp only [WalkState.stylesheetLimit, Bool.or_eq_false_iff, decide_eq_false_iff_not] at h
  omega

theorem readDeclarationNames_reports (items names : List String) (s : WalkState) :
    (readDeclarationNames items names s).2.reports = s.reports := by
  induction items generalizing names s with
  | nil => rfl
  | cons property rest ih =>
    simp only [readDeclarationNames]
    split
    · simp
    · rw [ih]
      simp

theorem readLonghands_reports (style : StyleDeclarationSource) (names : List String)
    (longhands : List PresentedDeclaration) (s : WalkState) :
    (readLonghands style names longhands s).2.reports = s.reports := by
  induction names generalizing longhands s with
  | nil => rfl
  | cons property rest ih =>
    simp only [readLonghands]
    split
    · simp
    split
    · rw [ih]
      simp
    split
    · simp
    · rw [ih]
      simp

theorem authoredForm_reports (style : StyleDeclarationSource)
    (longhands : List PresentedDeclaration) (s : WalkState) :
    (authoredForm host style longhands s).2.reports = s.reports := by
  unfold authoredForm
  split
  · rfl
  split
  · rfl
  · simp only
    split <;> simp

/-! ## The length of a path -/

theorem jsLength_le (value : String) : jsLength value ≤ 2 * value.toList.length := by
  rw [jsLength]
  induction value.toList with
  | nil => simp
  | cons c rest ih =>
    rw [List.map_cons, List.sum_cons, List.length_cons]
    split <;> omega

/-- The numbers of a path that fits the records. -/
def Short (path : List ℕ) : Prop := ∀ i ∈ path, i < 10000

theorem length_joinPath_le {path : List ℕ} (h : Short path) :
    (joinPath path).toList.length ≤ 5 * path.length := by
  rw [toList_joinPath]
  induction path with
  | nil => simp
  | cons i path ih =>
    have hi : (i.repr.toList).length ≤ 4 := by
      rw [Nat.toList_repr, Nat.length_toDigits_le_iff (by decide) (by decide)]
      exact h i List.mem_cons_self
    have ih := ih fun j hj => h j (List.mem_cons_of_mem _ hj)
    cases path with
    | nil => simpa using Nat.le_succ_of_le hi
    | cons j path =>
      rw [List.map_cons, List.map_cons, List.intercalate_cons_cons]
      rw [List.map_cons] at ih
      simp only [List.length_append, List.length_cons, List.length_nil] at ih ⊢
      omega

/-- A short path of at most as many numbers as a rule path has is not truncated. -/
theorem truncate_joinPath {path : List ℕ} (h : Short path) (hlength : path.length ≤ 34) :
    truncate (joinPath path) InspectLimits.selectorLength = joinPath path := by
  have hunits := jsLength_le (joinPath path)
  have hchars := length_joinPath_le h
  have hlimit : InspectLimits.selectorLength = 2048 := rfl
  rw [truncate, if_pos (by omega)]

/-! ## Rules -/

/-- The frame stands at `path` of its stylesheet, where these rules are. -/
structure FrameAt (host : WalkHost) (frame : WalkFrame) (levels : ℕ) (rules : List RuleSource) :
    Prop where
  ex : ∃ ns path all, (host.stylesheet frame.stylesheet.nativeStylesheet).cssRules = .ok all ∧
    Below all path rules ∧ frame.parentPath = joinPath (ns :: path) ∧ Short (ns :: path) ∧
    path.length + levels ≤ InspectLimits.cssRuleDepth

/-- A rule at a number below the frame: its path, as the walk writes it, locates it. -/
theorem FrameAt.located {frame : WalkFrame} {levels : ℕ} {rules : List RuleSource}
    (h : FrameAt host frame levels rules) {i : ℕ} {rule : RuleSource} (hi : rules[i]? = some rule)
    (hshort : i < InspectLimits.cssRules) (selector : StyleSelectorContext) (kind : ReportKind) :
    let rulePath := frame.parentPath ++ "." ++ i.repr
    Located host (frame.reportOf rule rulePath selector kind) ∧
      truncate rulePath InspectLimits.selectorLength = rulePath := by
  obtain ⟨ns, path, all, hsheet, hbelow, hparent, hnumbers, hlength⟩ := h.ex
  have hpath : frame.parentPath ++ "." ++ i.repr = joinPath (ns :: (path ++ [i])) := by
    rw [hparent, ← joinPath_concat (by simp)]
    rfl
  have hlimit : InspectLimits.cssRules = 4096 := rfl
  have hdepth : InspectLimits.cssRuleDepth = 32 := rfl
  simp only [hpath]
  refine ⟨⟨ns, path ++ [i], all, hsheet, (hbelow [i] (by simp)).trans hi, rfl⟩, ?_⟩
  refine truncate_joinPath (fun j hj => ?_) ?_
  · rw [← List.cons_append, List.mem_append, List.mem_singleton] at hj
    rcases hj with hj | rfl
    · exact hnumbers j hj
    · omega
  · simp only [List.length_cons, List.length_append, List.length_nil]
    omega

/-- The frame of the rules below a rule. -/
theorem FrameAt.below {frame frame' : WalkFrame} {levels : ℕ} {rules : List RuleSource}
    (h : FrameAt host frame (levels + 1) rules) {i : ℕ} {rule : RuleSource}
    (hi : rules[i]? = some rule) (hshort : i < InspectLimits.cssRules)
    (hsheet : frame'.stylesheet = frame.stylesheet)
    (hparent : frame'.parentPath = frame.parentPath ++ "." ++ i.repr) :
    FrameAt host frame' levels rule.cssRules := by
  obtain ⟨ns, path, all, hall, hbelow, hpath, hnumbers, hlength⟩ := h.ex
  have hlimit : InspectLimits.cssRules = 4096 := rfl
  refine ⟨ns, path ++ [i], all, by rw [hsheet, hall], hbelow.child hi, ?_, fun j hj => ?_, ?_⟩
  · rw [hparent, hpath, ← joinPath_concat (by simp)]
    rfl
  · rw [← List.cons_append, List.mem_append, List.mem_singleton] at hj
    rcases hj with hj | rfl
    · exact hnumbers j hj
    · omega
  · rw [List.length_append, List.length_singleton]
    omega

/-- The frame of a whole stylesheet. -/
theorem FrameAt.sheet {frame : WalkFrame} {levels ns : ℕ} {rules : List RuleSource}
    (hsheet : (host.stylesheet frame.stylesheet.nativeStylesheet).cssRules = .ok rules)
    (hparent : frame.parentPath = ns.repr) (hns : ns < 10000)
    (hlevels : levels ≤ InspectLimits.cssRuleDepth) : FrameAt host frame levels rules := by
  refine ⟨ns, [], rules, hsheet, fun _ _ => rfl, ?_, fun j hj => ?_, by simpa using hlevels⟩
  · rw [hparent, joinPath, List.map_cons, List.map_nil, String.intercalate_singleton]
  · rw [List.mem_singleton] at hj
    omega

theorem walkDeclarations_walked {frame : WalkFrame} {rule : RuleSource}
    {style : StyleDeclarationSource} {selector : StyleSelectorContext} {rulePath : String}
    (hlocated : ∀ kind, Located host (frame.reportOf rule rulePath selector kind))
    (htruncate : truncate rulePath InspectLimits.selectorLength = rulePath) (s : WalkState) :
    Walked host s (walkDeclarations host frame rule style selector rulePath s) := by
  have hrecords : ∀ (records : List PresentedDeclaration) (s : WalkState),
      Walked host s (records.foldl (fun s declaration =>
        s.report (frame.reportOf rule (truncate rulePath InspectLimits.selectorLength) selector
          (.record declaration))) s) := by
    intro records
    induction records with
    | nil => exact fun s => .refl s
    | cons declaration records ih =>
      intro s
      refine Walked.trans (.report ?_) (ih _)
      rw [htruncate]
      exact hlocated _
  unfold walkDeclarations
  simp only
  generalize hmarked : (s.markIf _ .declarationsPerRuleLimit).markIf _ .factsPerTargetLimit = marked
  have hmarked' : marked.reports = s.reports := by
    rw [← hmarked]
    simp
  generalize hnames : readDeclarationNames _ [] marked = read
  have hnames' : read.2.reports = marked.reports := by
    rw [← hnames]
    exact readDeclarationNames_reports _ _ _
  obtain ⟨names, read⟩ := read
  cases names with
  | none => exact .of_eq (hnames'.trans hmarked')
  | some names =>
    simp only
    refine Walked.trans ?_ (hrecords _ _)
    refine Walked.trans (.of_eq ?_) (.report (hlocated _))
    have hlonghands := readLonghands_reports style names [] read
    simp only
    split
    · rw [authoredForm_reports, hlonghands]
      exact hnames'.trans hmarked'
    · rw [hlonghands]
      exact hnames'.trans hmarked'

/-- What `walkOwnDeclarations` and a round of the loop need of a rule's place. -/
structure Placement (host : WalkHost) (frame : WalkFrame) (rule : RuleSource) (rulePath : String) :
    Prop where
  located : ∀ selector kind, Located host (frame.reportOf rule rulePath selector kind)
  whole : truncate rulePath InspectLimits.selectorLength = rulePath

theorem walkStyleRule_walked {frame : WalkFrame} {rule : RuleSource} {rulePath : String}
    (h : Placement host frame rule rulePath) (sourceSelector : String)
    (style : StyleDeclarationSource) (s : WalkState) :
    Walked host s (walkStyleRule host frame rule sourceSelector style rulePath s).2 := by
  unfold walkStyleRule
  have hbytes := s.consumeWalkBytes_reports sourceSelector
  revert hbytes
  generalize s.consumeWalkBytes sourceSelector = consumed
  obtain ⟨fits, s₁⟩ := consumed
  intro hbytes
  cases fits with
  | false => exact .of_eq hbytes
  | true =>
    cases resolveStyleSelector sourceSelector frame.parentSelector with
    | none => exact .of_eq hbytes
    | some selector =>
      have hcandidate : Walked host s
          (s₁.report (frame.reportOf rule rulePath selector .candidate)) :=
        (Walked.of_eq hbytes).trans (.report (h.located selector .candidate))
      simp only [Bool.not_true, Bool.false_eq_true, if_false]
      cases host.matchesSelector selector.resolvedSelector with
      | none => exact hcandidate
      | some matched =>
        have hmatched : Walked host s
            (if matched = true then walkDeclarations host frame rule style selector rulePath
              (s₁.report (frame.reportOf rule rulePath selector .candidate))
            else s₁.report (frame.reportOf rule rulePath selector .candidate)) := by
          split
          · exact hcandidate.trans (walkDeclarations_walked (h.located selector) h.whole _)
          · exact hcandidate
        revert hmatched
        dsimp only
        generalize (if matched = true then _ else _ : WalkState) = s₂
        intro hmatched
        split
        · exact hmatched.trans (.of_eq (WalkState.reachedWalkLimit_reports _))
        · exact hmatched.trans (.of_eq (WalkState.reachedWalkLimit_reports _))

theorem walkOwnDeclarations_walked {frame : WalkFrame} {rule : RuleSource} {rulePath : String}
    (h : Placement host frame rule rulePath) (s : WalkState) :
    Walked host s (walkOwnDeclarations host frame rule rulePath s).2 := by
  unfold walkOwnDeclarations
  split
  · exact walkStyleRule_walked h _ _ s
  · split
    · exact .refl s
    split
    · split
      · exact .refl s
      simp only
      split
      · exact walkDeclarations_walked (h.located _) h.whole s
      · exact .refl s
    · exact .refl s
  · exact .refl s

/-! ## The recursion -/

/-- A walk over the rules below, at most `levels` deep. -/
def WalksBelow (host : WalkHost) (levels : ℕ) (walkBelow : WalkBelow) : Prop :=
  ∀ frame rules s, FrameAt host frame levels rules → Walked host s (walkBelow frame rules s)

theorem walkGroup_walked {levels : ℕ} {below : Option WalkBelow}
    (hbelow : ∀ walkBelow ∈ below, WalksBelow host levels walkBelow) {frame : WalkFrame}
    {rule : RuleSource} {rulePath : String}
    (hframe : below.isSome → ∀ frame' : WalkFrame, frame'.stylesheet = frame.stylesheet →
      frame'.parentPath = rulePath → FrameAt host frame' levels rule.cssRules)
    (childSelector : Option StyleSelectorContext) (nestedStyleRule : Bool) (s : WalkState) :
    Walked host s (walkGroup below frame rule rulePath childSelector nestedStyleRule s).2 := by
  cases below with
  | none => exact .of_eq (by simp [walkGroup])
  | some walkBelow =>
    have hwalk := hbelow walkBelow rfl
    have hframe := hframe rfl
    have hcall : ∀ (frame' : WalkFrame) (s₀ s₁ : WalkState), s₁.reports = s₀.reports →
        frame'.stylesheet = frame.stylesheet → frame'.parentPath = rulePath →
        Walked host s₀ (walkBelow frame' rule.cssRules s₁).reachedWalkLimit.2 := by
      intro frame' s₀ s₁ hs hsheet hpath
      exact ((Walked.of_eq hs).trans (hwalk frame' _ s₁ (hframe frame' hsheet hpath))).trans
        (.of_eq (WalkState.reachedWalkLimit_reports _))
    unfold walkGroup
    cases nestedStyleRule with
    | true =>
      simp only [if_true, Option.isSome_none, Bool.false_eq_true, if_false, Bool.not_true]
      exact hcall _ s _ (by simp) rfl rfl
    | false =>
      simp only [if_false, Option.isSome_some, if_true, Bool.false_eq_true]
      split
      · exact .of_eq (by simp)
      split
      · exact .of_eq (by simp)
      · exact hcall _ s _ (by simp) rfl rfl

theorem walkBoundaryImport_reports (frame : WalkFrame) (candidate : Option SheetId)
    (s : WalkState) : (walkBoundaryImport host frame candidate s).reports = s.reports := by
  unfold walkBoundaryImport
  split
  · simp
  split
  · cases candidate with
    | none => simp
    | some sheet =>
      simp only
      split
      · simp
      · simp
  · simp

theorem walkImportedRules_walked {levels : ℕ} {walkBelow : WalkBelow}
    (hbelow : WalksBelow host levels walkBelow) (hlevels : levels ≤ InspectLimits.cssRuleDepth)
    (frame : WalkFrame) (rule : RuleSource) (sheet : SheetId) {s : WalkState}
    (hvisited : s.stylesheetsVisited < InspectLimits.stylesheets) :
    Walked host s (walkImportedRules host walkBelow frame rule sheet s) := by
  unfold walkImportedRules
  simp only
  have hcall : ∀ (frame' : WalkFrame) (rules : List RuleSource) (s₁ : WalkState),
      s₁.reports = s.reports → frame'.stylesheet.nativeStylesheet = sheet →
      (host.stylesheet sheet).cssRules = .ok rules →
      frame'.parentPath = s.stylesheetsVisited.repr →
      Walked host s (walkBelow frame' rules s₁) := by
    intro frame' rules s₁ hs hnative hrules hpath
    have hlimit : InspectLimits.stylesheets = 256 := rfl
    exact (Walked.of_eq hs).trans
      (hbelow frame' rules s₁ (.sheet (by rw [hnative, hrules]) hpath (by omega) hlevels))
  split
  · exact .of_eq (by simp)
  split
  · exact .of_eq (by simp)
  cases rule.view.readImportMediaContext with
  | none =>
    simp only [Bool.not_true, Bool.false_eq_true, if_false, Option.isSome_none]
    split
    · exact .of_eq (by simp)
    · exact hcall _ _ _ (by simp) rfl ‹_› rfl
  | some context =>
    simp only [Option.isSome_some, if_true]
    split
    · exact .of_eq (by simp)
    split
    · exact .of_eq (by simp)
    split
    · exact .of_eq (by simp)
    · exact hcall _ _ _ (by simp) rfl ‹_› rfl

theorem walkImportedStylesheet_walked {levels : ℕ} {below : Option WalkBelow}
    (hbelow : ∀ walkBelow ∈ below, WalksBelow host levels walkBelow)
    (hlevels : below.isSome → levels ≤ InspectLimits.cssRuleDepth) (frame : WalkFrame)
    (rule : RuleSource) (s : WalkState) :
    Walked host s (walkImportedStylesheet host below frame rule s) := by
  unfold walkImportedStylesheet
  cases below with
  | none => exact .refl s
  | some walkBelow =>
    simp only
    split
    · exact .of_eq (by simp)
    split
    · exact .of_eq (by rw [walkBoundaryImport_reports]; simp)
    next hlimit =>
    split
    · exact .of_eq (by simp)
    next sheet _ =>
    split
    · exact .of_eq (by simp)
    · refine Walked.trans (.of_eq ?_)
        (walkImportedRules_walked (hbelow walkBelow rfl) (hlevels rfl) frame rule sheet ?_)
      · simp
      · rw [isRuntimeStylesheet_stylesheetsVisited]
        exact stylesheetsVisited_lt (Bool.eq_false_iff.2 hlimit)

theorem walkRule_walked {levels : ℕ} {below : Option WalkBelow}
    (hbelow : ∀ walkBelow ∈ below, WalksBelow host levels walkBelow) {frame : WalkFrame}
    {rules : List RuleSource}
    (hframe : FrameAt host frame (if below.isSome then levels + 1 else 0) rules) {i : ℕ}
    {rule : RuleSource} (hi : rules[i]? = some rule) (hshort : i < InspectLimits.cssRules)
    (s : WalkState) : Walked host s (walkRule host below frame i rule s).2 := by
  have hplace : Placement host frame rule (frame.parentPath ++ "." ++ i.repr) :=
    ⟨fun selector kind => (hframe.located hi hshort selector kind).1,
      (hframe.located hi hshort ⟨"", ""⟩ .candidate).2⟩
  unfold walkRule
  dsimp only
  split
  · refine Walked.trans (walkImportedStylesheet_walked hbelow (fun hsome => ?_) frame rule s)
      (.of_eq (WalkState.reachedWalkLimit_reports _))
    obtain ⟨_, _, _, _, _, _, _, hlength⟩ := hframe.ex
    rw [if_pos hsome] at hlength
    omega
  · have hown := walkOwnDeclarations_walked hplace s
    revert hown
    generalize walkOwnDeclarations host frame rule (frame.parentPath ++ "." ++ i.repr) s = walked
    obtain ⟨outcome, s₁⟩ := walked
    intro hown
    cases outcome with
    | stop => exact hown
    | skip => exact hown
    | descend childSelector nestedStyleRule =>
      dsimp only
      split
      · exact hown
      · refine hown.trans (walkGroup_walked hbelow (fun hsome frame' hsheet hpath => ?_) _ _ _)
        rw [if_pos hsome] at hframe
        exact hframe.below hi hshort hsheet hpath

theorem walkEach_walked {levels : ℕ} {below : Option WalkBelow}
    (hbelow : ∀ walkBelow ∈ below, WalksBelow host levels walkBelow) {frame : WalkFrame}
    {all : List RuleSource} (hframe : FrameAt host frame (if below.isSome then levels + 1 else 0) all)
    (before rules : List RuleSource) (hall : before ++ rules <+: all)
    (hshort : before.length + rules.length ≤ InspectLimits.cssRules) (s : WalkState) :
    Walked host s (walkEach host below frame before.length rules s) := by
  induction rules generalizing before s with
  | nil => exact .refl s
  | cons rule rest ih =>
    have hi : all[before.length]? = some rule := by
      obtain ⟨more, rfl⟩ := hall
      simp
    rw [List.length_cons] at hshort
    have hrule := walkRule_walked hbelow hframe hi (by omega) s.reachedWalkLimit.2.visitRule
    have hbefore : Walked host s s.reachedWalkLimit.2.visitRule := .of_eq (by simp)
    unfold walkEach
    dsimp only
    split
    · exact .of_eq (by simp)
    revert hrule
    generalize walkRule host below frame before.length rule s.reachedWalkLimit.2.visitRule = walked
    obtain ⟨goesOn, s₁⟩ := walked
    intro hrule
    cases goesOn with
    | false => exact hbefore.trans hrule
    | true =>
      have hrest := ih (before ++ [rule]) (by simpa using hall)
        (by rw [List.length_append, List.length_singleton]; omega) s₁
      rw [List.length_append, List.length_singleton] at hrest
      exact (hbefore.trans hrule).trans hrest

/-- The rules below, for a walk that has `levels` left. -/
def belowAt (host : WalkHost) : ℕ → Option WalkBelow
  | 0 => none
  | levels + 1 => some (walkRules host levels)

theorem walkRules_eq (levels : ℕ) (frame : WalkFrame) (rules : List RuleSource) (s : WalkState) :
    walkRules host levels frame rules s =
      if s.reachedWalkLimit.1 = true then s.reachedWalkLimit.2
      else
        let s := s.reachedWalkLimit.2
        let remainingRules := min ((InspectLimits.cssRules : ℤ) - s.rulesVisited)
          s.workBudget.remainingRules
        walkEach host (belowAt host levels) frame 0 (rules.take remainingRules.toNat)
          (s.markIf (remainingRules < rules.length) .cssRulesLimit) := by
  cases levels <;> rfl

/-- One level of the recursion. -/
theorem walkRules_step {levels : ℕ}
    (hbelow : ∀ walkBelow ∈ belowAt host levels, WalksBelow host (levels - 1) walkBelow) :
    WalksBelow host levels (walkRules host levels) := by
  intro frame rules s hframe
  rw [walkRules_eq]
  split
  · exact .of_eq (by simp)
  · dsimp only
    have hlevels : (if (belowAt host levels).isSome then levels - 1 + 1 else 0) = levels := by
      cases levels <;> simp [belowAt]
    refine Walked.trans (.of_eq ?_) (walkEach_walked hbelow (hlevels.symm ▸ hframe) [] _
      (by simpa using List.take_prefix _ _) ?_ _)
    · simp
    · rw [List.length_nil, List.length_take]
      omega

theorem walkRules_walked (levels : ℕ) : WalksBelow host levels (walkRules host levels) := by
  induction levels with
  | zero => exact walkRules_step fun walkBelow h => by cases h
  | succ levels ih => exact walkRules_step fun walkBelow h => by cases h; exact ih

/-! ## Stylesheets -/

theorem walkRootStylesheet_walked {rootIndex : ℕ} (hroot : rootIndex < 10000) (sheet : SheetId)
    (s : WalkState) :
    Walked host s (walkRootStylesheet host rootIndex sheet s).2.2 ∧
      (walkRootStylesheet host rootIndex sheet s).2.1 ≤ rootIndex + 1 := by
  unfold walkRootStylesheet
  dsimp only
  split
  · exact ⟨.of_eq (by simp), by simp⟩
  split
  · exact ⟨.of_eq (by simp), by simp⟩
  split
  · exact ⟨.of_eq (by simp), by simp⟩
  split
  · exact ⟨.of_eq (by simp), by simp⟩
  split
  · exact ⟨.of_eq (by simp), by simp⟩
  · refine ⟨Walked.trans (.of_eq ?_) (walkRules_walked _ _ _ _
      (.sheet ‹_› rfl hroot (le_refl _))), by simp⟩
    simp

theorem walkRootStylesheetsFrom_walked (host : WalkHost) (sheets : List SheetId)
    (rawPulls rootIndex bound : ℕ)
    (hbound : rootIndex ≤ bound + rawPulls) (hsmall : bound ≤ rawPullLimit) (s : WalkState) :
    Walked host s (walkRootStylesheetsFrom host rawPulls rootIndex sheets s) ∧
      (walkRootStylesheetsFrom host rawPulls rootIndex sheets s).nextRootIndex ≤
        bound + max rawPulls rawPullLimit := by
  have hmax : rawPullLimit = 512 := rfl
  induction sheets generalizing rawPulls rootIndex s with
  | nil =>
    unfold walkRootStylesheetsFrom
    dsimp only
    generalize hstart : (if host.isRuntimeStylesheet.isNone = true then
      s.reachedWalkLimit.2.stylesheetLimitReached else (false, s.reachedWalkLimit.2)) = start
    have hs₁ : start.2.reports = s.reports := by
      rw [← hstart]
      split <;> simp
    split
    · exact ⟨.of_eq (by simp), by dsimp only; omega⟩
    split
    · exact ⟨.of_eq hs₁, by dsimp only; omega⟩
    · exact ⟨.of_eq hs₁, by dsimp only; omega⟩
  | cons sheet rest ih =>
    unfold walkRootStylesheetsFrom
    dsimp only
    generalize hstart : (if host.isRuntimeStylesheet.isNone = true then
      s.reachedWalkLimit.2.stylesheetLimitReached else (false, s.reachedWalkLimit.2)) = start
    have hs₁ : start.2.reports = s.reports := by
      rw [← hstart]
      split <;> simp
    split
    · exact ⟨.of_eq (by simp), by dsimp only; omega⟩
    next hpulls =>
    have hlimit : rawPulls < rawPullLimit := by
      simp only [Bool.or_eq_true, decide_eq_true_eq, not_or] at hpulls
      omega
    split
    · exact ⟨.of_eq hs₁, by dsimp only; omega⟩
    obtain ⟨hwalked, hindex⟩ := walkRootStylesheet_walked (show rootIndex < 10000 by omega) sheet
      start.2
    revert hwalked hindex
    generalize walkRootStylesheet host rootIndex sheet start.2 = walked
    obtain ⟨goesOn, nextIndex, s₂⟩ := walked
    intro hwalked hindex
    dsimp only at hwalked hindex
    have hboth : Walked host s s₂ := (Walked.of_eq hs₁).trans hwalked
    cases goesOn with
    | false => exact ⟨hboth.trans (.of_eq (by simp)), by dsimp only; omega⟩
    | true =>
      obtain ⟨hrest, hnext⟩ := ih (rawPulls + 1) nextIndex (by omega) s₂
      exact ⟨hboth.trans hrest, by dsimp only; omega⟩

/-- Every report of a walk is located. -/
theorem walkCssRules_located {document : CssDocumentSource} {workBudget : CssRuleWalkBudget}
    {report : WalkReport}
    (h : report ∈ (walkCssRules host document workBudget).reports) : Located host report := by
  have hwalked : Walked host (.start workBudget) (walkCssRules host document workBudget) := by
    unfold walkCssRules walkDocument
    obtain ⟨hregular, hindex⟩ := walkRootStylesheetsFrom_walked host document.styleSheets 0 0 0
      (le_refl _) (Nat.zero_le _) (.start workBudget)
    have hlimit := hregular.trans (.of_eq (WalkState.reachedWalkLimit_reports _))
    dsimp only
    split
    · exact hlimit
    split
    · exact hlimit
    next sheets _ =>
    refine hlimit.trans (walkRootStylesheetsFrom_walked host sheets 0 _ rawPullLimit ?_ (le_refl _) _).1
    rw [WalkState.reachedWalkLimit_nextRootIndex]
    simpa using hindex
  rcases hwalked report h with hold | hlocated
  · cases hold
  · exact hlocated

end PinOp.Css
