import PinOp.Css.TextPositions
import PinOp.Rules.DirectDeclarations

/-!
# A clicked declaration opens at its own value

In a rule that the scanners read as it is written, the position is the start of the value that the
request names, if and only if the name picks the same declaration for the code as for CSS and only
blanks and tabs stand between its colon and its value.
-/

namespace PinOp.Rules

open PinOp.Lib PinOp.Css
open PinOp.Browser (RulesOpenDeclaration)

namespace DeclarationValuePosition

variable {text : List ℕ} {i : ℕ} {d e : WrittenDeclaration} {request : RulesOpenDeclaration}

/-! ## What the code answers -/

/-- How the code compares names: none of them exactly, and only those that it takes for names. -/
def isReadAs (property : String) (written : List ℕ) : Bool :=
  isPropertyName written && nameUnits (jsToLowerCase property) = lowerName written

/-- The declaration that the code takes for the one that a request names. -/
def Rule.found (rule : Rule) (i : ℕ) (request : RulesOpenDeclaration) : Option WrittenDeclaration :=
  fromLast request.occurrence
    ((rule.written i).filter fun declaration => isReadAs request.property declaration.name)

/-- Where the code takes its value to start. -/
def WrittenDeclaration.readOffset (declaration : WrittenDeclaration) : ℕ :=
  declaration.valueStart - declaration.gap.length + (declaration.gap.takeWhile isBlank).length

theorem fromLast_map {α β : Type} (k : ℕ) (f : α → β) (xs : List α) :
    fromLast k (xs.map f) = (fromLast k xs).map f := by
  unfold fromLast
  rw [List.length_map]
  split
  · rw [List.getElem?_map]
  · rw [List.head?_map]

theorem fromLast_mem {α : Type} {k : ℕ} {xs : List α} {x : α} (h : fromLast k xs = some x) :
    x ∈ xs := by
  unfold fromLast at h
  split at h
  · exact List.mem_of_getElem? h
  · exact List.mem_of_head? h

theorem read_filter (property : String) (declarations : List WrittenDeclaration) :
    ((declarations.filterMap WrittenDeclaration.read).filter fun entry =>
      entry.property = nameUnits (jsToLowerCase property)).map DirectDeclaration.valueOffset =
      (declarations.filter fun declaration => isReadAs property declaration.name).map
        WrittenDeclaration.readOffset := by
  induction declarations with
  | nil => rfl
  | cons declaration rest ih =>
    cases hname : isPropertyName declaration.name with
    | false =>
      have hread : declaration.read = none := by simp [WrittenDeclaration.read, hname]
      have hnot : isReadAs property declaration.name = false := by simp [isReadAs, hname]
      rw [List.filterMap_cons_none hread, List.filter_cons_of_neg (by simp [hnot]), ih]
    | true =>
      have hread : declaration.read =
          some ⟨lowerName declaration.name, declaration.readOffset⟩ := by
        simp [WrittenDeclaration.read, hname, WrittenDeclaration.readOffset]
      rw [List.filterMap_cons_some hread]
      by_cases hlower : lowerName declaration.name = nameUnits (jsToLowerCase property)
      · have hyes : isReadAs property declaration.name = true := by simp [isReadAs, hname, hlower]
        rw [List.filter_cons_of_pos (by simpa using hlower), List.filter_cons_of_pos
          (by simpa using hyes),
          List.map_cons, List.map_cons, ih]
      · have hnot : isReadAs property declaration.name = false := by
          simp [isReadAs, hname, Ne.symm hlower]
        rw [List.filter_cons_of_neg (by simpa using hlower), List.filter_cons_of_neg
          (by simp [hnot]),
          ih]

/-! ## Where values start -/

theorem Statement.written_bounds {s : Statement} (h : d ∈ s.written i) :
    i + d.gap.length < d.valueStart ∧ d.valueStart ≤ i + s.units.length := by
  cases s with
  | declaration name space gap value =>
    rw [Statement.written, List.mem_singleton] at h
    subst h
    simp only [Statement.units, List.length_append, List.length_cons]
    omega
  | other pieces => cases h

theorem Items.written_bounds (items : Items) : ∀ {i : ℕ}, d ∈ items.written i →
    i + d.gap.length < d.valueStart ∧ d.valueStart ≤ i + items.units.length := by
  induction items with
  | nil => exact fun h => absurd h List.not_mem_nil
  | blank u rest ih =>
    intro i h
    have := ih h
    simp only [Items.units, List.length_cons]
    omega
  | chunk c rest ih =>
    intro i h
    have := ih h
    simp only [Items.units, List.length_append]
    omega
  | statement s rest ih =>
    intro i h
    simp only [Items.units, List.length_append, List.length_cons]
    rcases List.mem_append.1 h with h | h
    · have := Statement.written_bounds h
      omega
    · have := ih h
      omega
  | last s => exact fun h => Statement.written_bounds h
  | block prelude body rest _ ih =>
    intro i h
    have := ih h
    simp only [Items.units, List.length_append, List.length_cons, List.length_nil] at this ⊢
    omega

/-- Every value starts in front of the colon of the next declaration. -/
theorem Items.written_ordered (items : Items) (i : ℕ) :
    (items.written i).Pairwise fun a b => a.valueStart + b.gap.length < b.valueStart := by
  induction items generalizing i with
  | nil => exact List.Pairwise.nil
  | blank u rest ih => exact ih (i + 1)
  | chunk c rest ih => exact ih _
  | statement s rest ih =>
    refine List.pairwise_append.2 ⟨?_, ih _, fun a ha b hb => ?_⟩
    · cases s with
      | declaration => exact List.pairwise_singleton _ _
      | other => exact List.Pairwise.nil
    · have h1 := Statement.written_bounds ha
      have h2 := Items.written_bounds rest hb
      omega
  | last s =>
    cases s with
    | declaration => exact List.pairwise_singleton _ _
    | other => exact List.Pairwise.nil
  | block prelude body rest _ ih => exact ih _

theorem readOffset_bounds (h : d.gap.length ≤ d.valueStart) :
    d.valueStart - d.gap.length ≤ d.readOffset ∧ d.readOffset ≤ d.valueStart := by
  have hle : (d.gap.takeWhile isBlank).length ≤ d.gap.length := (List.takeWhile_sublist _).length_le
  unfold WrittenDeclaration.readOffset
  omega

theorem readOffset_eq_iff (h : d.gap.length ≤ d.valueStart) :
    d.readOffset = d.valueStart ↔ d.gap.all isBlank = true := by
  have hle : (d.gap.takeWhile isBlank).length ≤ d.gap.length := (List.takeWhile_sublist _).length_le
  rw [show d.readOffset = d.valueStart ↔ (d.gap.takeWhile isBlank).length = d.gap.length by
    unfold WrittenDeclaration.readOffset
    omega]
  constructor
  · intro hlen
    have heq := (List.takeWhile_sublist isBlank).eq_of_length hlen
    rw [← heq]
    exact List.all_takeWhile
  · intro hall
    rw [List.takeWhile_eq_self_iff.2 (List.all_eq_true.1 hall)]

/-- A place that the code reads for one declaration is not the value of another. -/
theorem readOffset_inj {rule : Rule} (hd : d ∈ rule.written i) (he : e ∈ rule.written i)
    (h : d.readOffset = e.valueStart) : d = e := by
  have hbd := Items.written_bounds rule.items hd
  have hr := readOffset_bounds (d := d) (by omega)
  have hpair := List.pairwise_iff_getElem.1
    (Items.written_ordered rule.items (i + rule.prelude.units.length + 1))
  obtain ⟨m, hm, rfl⟩ := List.mem_iff_getElem.1 hd
  obtain ⟨n, hn, rfl⟩ := List.mem_iff_getElem.1 he
  rcases Nat.lt_trichotomy m n with hlt | rfl | hlt
  · have := hpair m n hm hn hlt
    show (rule.items.written _)[m] = (rule.items.written _)[n]
    unfold Rule.written at h hr
    omega
  · rfl
  · have := hpair n m hn hm hlt
    unfold Rule.written at h hr
    omega

/-- A value starts with a unit that is no white space. -/
theorem Items.valueStart_unit (items : Items) : ∀ {i : ℕ}, Stands text i (items.units ++ [125]) →
    items.Written → d ∈ items.written i → ∃ u, text[d.valueStart]? = some u ∧ isSpace u = false :=
    by
  have key : ∀ (s : Statement) (closing : ℕ) {i : ℕ}, closing = 59 ∨ closing = 125 →
      Stands text i (s.units ++ [closing]) → s.Written closing → d ∈ s.written i →
      ∃ u, text[d.valueStart]? = some u ∧ isSpace u = false := by
    intro s closing i hclosing hst hw hd
    cases s with
    | other pieces => cases hd
    | declaration name space gap value =>
      rw [Statement.written, List.mem_singleton] at hd
      subst hd
      have hst0 : Stands text i ((name ++ space ++ 58 :: gap) ++ (value.units ++ [closing])) := by
        simpa [Statement.units] using hst
      have hat := hst0.right.head?_eq (by simp)
      have hlen : (name ++ space ++ 58 :: gap).length =
          name.length + space.length + 1 + gap.length := by
        simp
        omega
      rw [hlen] at hat
      show ∃ u, text[i + name.length + space.length + 1 + gap.length]? = some u ∧ _
      rw [show i + name.length + space.length + 1 + gap.length =
        i + (name.length + space.length + 1 + gap.length) by omega, hat]
      cases hunits : value.units with
      | nil => rcases hclosing with rfl | rfl <;> exact ⟨_, rfl, by decide⟩
      | cons v vs =>
        have hvalue := hw.2.2.2.2.1
        rw [hunits] at hvalue
        exact ⟨v, rfl, by simpa using hvalue⟩
  induction items with
  | nil => exact fun _ _ h => absurd h List.not_mem_nil
  | blank u rest ih => exact fun hst hw hd => ih hst.tail hw.2 hd
  | chunk c rest ih =>
    intro i hst hw hd
    rw [Items.units, List.append_assoc] at hst
    exact ih hst.right hw.2.2 hd
  | statement s rest ih =>
    intro i hst hw hd
    rw [Items.units, List.append_assoc, List.cons_append] at hst
    rcases List.mem_append.1 hd with hd | hd
    · exact key s 59 (.inl rfl) hst.upto hw.1 hd
    · exact ih hst.right.tail hw.2 hd
  | last s => exact fun hst hw hd => key s 125 (.inr rfl) hst hw hd
  | block prelude body rest _ ih =>
    intro i hst hw hd
    have hst0 : Stands text i ((prelude.units ++ 123 :: body.units ++ [125]) ++
        (rest.units ++ [125])) := by
      simpa [Items.units] using hst
    exact ih hst0.right hw.2.2 hd

/-! ## No value starts inside of what is hidden -/

variable {region : ℕ × ℕ}

theorem Pieces.hidden_bounds (p : Pieces) : ∀ {i : ℕ}, region ∈ p.hidden i →
    i ≤ region.1 ∧ region.2 ≤ i + p.units.length := by
  induction p with
  | nil => exact fun h => absurd h List.not_mem_nil
  | unit u rest ih =>
    intro i h
    have := ih h
    simp only [Pieces.units, List.length_cons]
    omega
  | chunk c rest ih =>
    intro i h
    simp only [Pieces.units, List.length_append]
    rcases List.mem_cons.1 h with rfl | h
    · simp only
      omega
    · have := ih h
      omega
  | parens raw inner rest ihInner ih =>
    intro i h
    simp only [Pieces.units, List.length_append, List.length_cons]
    rcases List.mem_append.1 h with h | h
    · have := ihInner h
      omega
    · have := ih h
      omega
  | interpolation inner rest ihInner ih =>
    intro i h
    simp only [Pieces.units, List.length_append, List.length_cons]
    rcases List.mem_cons.1 h with rfl | h
    · simp only
      omega
    · have := ih h
      omega

theorem Statement.hidden_bounds {s : Statement} (h : region ∈ s.hidden i) :
    i ≤ region.1 ∧ region.2 ≤ i + s.units.length := by
  cases s with
  | declaration name space gap value =>
    have := Pieces.hidden_bounds value h
    simp only [Statement.units, List.length_append, List.length_cons]
    omega
  | other pieces => exact Pieces.hidden_bounds pieces h

theorem Items.hidden_bounds (items : Items) : ∀ {i : ℕ}, region ∈ items.hidden i →
    i ≤ region.1 ∧ region.2 ≤ i + items.units.length := by
  induction items with
  | nil => exact fun h => absurd h List.not_mem_nil
  | blank u rest ih =>
    intro i h
    have := ih h
    simp only [Items.units, List.length_cons]
    omega
  | chunk c rest ih =>
    intro i h
    simp only [Items.units, List.length_append]
    rcases List.mem_cons.1 h with rfl | h
    · simp only
      omega
    · have := ih h
      omega
  | statement s rest ih =>
    intro i h
    simp only [Items.units, List.length_append, List.length_cons]
    rcases List.mem_append.1 h with h | h
    · have := Statement.hidden_bounds h
      omega
    · have := ih h
      omega
  | last s => exact fun h => Statement.hidden_bounds h
  | block prelude body rest _ ih =>
    intro i h
    simp only [Items.units, List.length_append, List.length_cons]
    rcases List.mem_append.1 h with h | h
    · have := Pieces.hidden_bounds prelude h
      omega
    · rcases List.mem_cons.1 h with rfl | h
      · simp only
        omega
      · have := ih h
        omega

/-- Inside of one statement only its value hides anything. -/
theorem Statement.valueStart_visible {s : Statement} (hd : d ∈ s.written i)
    (h : region ∈ s.hidden i) : d.valueStart ≤ region.1 := by
  cases s with
  | declaration name space gap value =>
    rw [Statement.written, List.mem_singleton] at hd
    subst hd
    exact (Pieces.hidden_bounds value h).1
  | other pieces => cases hd

theorem Items.valueStart_visible (items : Items) : ∀ {i : ℕ}, d ∈ items.written i →
    region ∈ items.hidden i → d.valueStart ≤ region.1 ∨ region.2 ≤ d.valueStart := by
  induction items with
  | nil => exact fun h => absurd h List.not_mem_nil
  | blank u rest ih => exact fun hd h => ih hd h
  | chunk c rest ih =>
    intro i hd h
    rcases List.mem_cons.1 h with rfl | h
    · have := Items.written_bounds rest hd
      simp only
      omega
    · exact ih hd h
  | statement s rest ih =>
    intro i hd h
    rcases List.mem_append.1 hd with hd | hd
    · rcases List.mem_append.1 h with h | h
      · exact .inl (Statement.valueStart_visible hd h)
      · have h1 := Statement.written_bounds hd
        have h2 := Items.hidden_bounds rest h
        omega
    · rcases List.mem_append.1 h with h | h
      · have h1 := Items.written_bounds rest hd
        have h2 := Statement.hidden_bounds h
        omega
      · exact ih hd h
  | last s => exact fun hd h => .inl (Statement.valueStart_visible hd h)
  | block prelude body rest _ ih =>
    intro i hd h
    have hlen : (prelude.units ++ 123 :: body.units ++ [125]).length =
        prelude.units.length + body.units.length + 2 := by
      simp
      omega
    rw [Items.written, hlen, ← Nat.add_assoc, ← Nat.add_assoc] at hd
    have hbounds := Items.written_bounds rest hd
    rcases List.mem_append.1 h with h | h
    · have := Pieces.hidden_bounds prelude h
      omega
    · rcases List.mem_cons.1 h with rfl | h
      · simp only
        omega
      · exact ih hd h

theorem Rule.valueStart_visible {rule : Rule} (hd : d ∈ rule.written i)
    (h : region ∈ rule.hidden i) : d.valueStart ≤ region.1 ∨ region.2 ≤ d.valueStart := by
  rcases List.mem_append.1 h with h | h
  · have h1 := Items.written_bounds rule.items hd
    have h2 := Pieces.hidden_bounds rule.prelude h
    omega
  · exact Items.valueStart_visible rule.items hd h

/-! ## The offset that the code answers -/

section Offset

variable {start stop : ℕ} {lead : Items} {rule : Rule} {before : Option ℕ}

/-- The scanners read a written rule behind items that open no block, and find the declaration. -/
theorem valueOffset_eq (request : RulesOpenDeclaration) (hnone : lead.opensNone = true)
    (hst : Stands text start (lead.units ++ rule.units)) (hwLead : lead.Written)
    (hw : rule.Written) (hcLead : lead.Clear false before)
    (hcPrelude : rule.prelude.Clear false ((text.take (start + lead.units.length)).getLast?))
    (hcItems : rule.items.Clear false (some 123)) (hpre : Preceded text start before)
    (hstop : start + lead.units.length + rule.units.length ≤ stop) :
    valueOffset text start stop request =
      (rule.found (start + lead.units.length) request).map WrittenDeclaration.readOffset := by
  have hunits : rule.units = rule.prelude.units ++ 123 :: (rule.items.units ++ [125]) := by
    simp [Rule.units]
  have hlen : rule.units.length = rule.prelude.units.length + rule.items.units.length + 2 := by
    rw [hunits]
    simp
    omega
  rw [hunits] at hst
  have hbetween : Preceded text (start + lead.units.length)
      (text.take (start + lead.units.length)).getLast? := by
    have := preceded_append (text.take (start + lead.units.length))
      (text.drop (start + lead.units.length))
    rw [List.take_append_drop, List.length_take] at this
    have hle := hst.stop_le (by simp)
    simp only [List.length_append, List.length_cons] at hle
    rwa [show min (start + lead.units.length) text.length = start + lead.units.length by omega]
      at this
  have hbody := blockBodyStart_eq hnone hst hwLead hw.1 hcLead hcPrelude hpre hbetween
    (by omega : _ < stop)
  have hopen : text[start + lead.units.length + rule.prelude.units.length]? = some 123 :=
    hst.right.next
  have hitems := direct_items rule.items [] (Leads.refl text _) hst.right.right.tail hw.2 hcItems
    (preceded_of_some hopen) (by omega : _ < stop) _ (Nat.le_refl _)
  rw [List.nil_append] at hitems
  have hdirect : directDeclarationValueOffsets text
      (start + lead.units.length + rule.prelude.units.length + 1) stop =
      (rule.written (start + lead.units.length)).filterMap WrittenDeclaration.read := hitems
  unfold valueOffset
  rw [hbody, Option.bind_some, hdirect, Rule.found, ← fromLast_map, ← read_filter]
  rfl

end Offset

end DeclarationValuePosition

/-! ## The position -/

open DeclarationValuePosition

/-- The document knows every place of its text, and tells it apart from every other one unless
both are in a line break. -/
structure DocumentView.TellsApart (document : DocumentView) (text : List ℕ) : Prop where
  known : ∀ offset : ℕ, offset ≤ text.length → document.positionAt offset ≠ none
  apart : ∀ a b : ℕ, a ≤ text.length → b ≤ text.length → text[a]? ≠ some 10 → text[a]? ≠ some 13 →
    document.positionAt a = document.positionAt b → a = b

/-- The answer for a rule that stands at `i` is the start of the value that the request names, and
`undefined` when there is none; no place inside of a block, a comment, a string or an interpolation
has the position answered. -/
def OpensAtOwnValue (document : DocumentView) (text : List ℕ) (range : SourceRange) (i : ℕ)
    (rule : DeclarationValuePosition.Rule) (request : RulesOpenDeclaration) : Prop :=
  (document.declarationValuePosition range request =
    match rule.declared i request with
    | none => some none
    | some declaration => (document.positionAt declaration.valueStart).map some) ∧
  ∀ position, document.declarationValuePosition range request = some (some position) →
    ∀ offset : ℕ, offset ≤ text.length → document.positionAt offset = some position →
      ∀ region ∈ rule.hidden i, ¬(region.1 < offset ∧ offset < region.2)

section

variable {document : DocumentView} {text : List ℕ} {range : SourceRange} {start : ℕ} {stop : ℤ}
  {lead : Items} {rule : DeclarationValuePosition.Rule} {before : Option ℕ}
  {request : RulesOpenDeclaration}

theorem declarationValuePosition_eq (request : RulesOpenDeclaration)
    (htext : document.text = some text)
    (hstart : document.offsetAt range.start = some (start : ℤ))
    (hstop : document.offsetAt range.stop = some stop)
    (hcovers : (start + lead.units.length + rule.units.length : ℤ) ≤ stop)
    (hnone : lead.opensNone = true) (hst : Stands text start (lead.units ++ rule.units))
    (hwLead : lead.Written) (hw : rule.Written) (hcLead : lead.Clear false before)
    (hcPrelude : rule.prelude.Clear false ((text.take (start + lead.units.length)).getLast?))
    (hcItems : rule.items.Clear false (some 123)) (hpre : Preceded text start before) :
    document.declarationValuePosition range request =
      match rule.found (start + lead.units.length) request with
      | none => some none
      | some declaration => (document.positionAt declaration.readOffset).map some := by
  have hne : lead.units ++ rule.units ≠ [] := by simp [Rule.units]
  have hle := hst.stop_le hne
  rw [List.length_append] at hle
  have hpos : 0 < rule.units.length := by
    simp only [Rule.units, List.length_append, List.length_cons]
    omega
  have hcut : (min (text.length : ℤ) stop).toNat = min text.length stop.toNat := by omega
  have hoffset := valueOffset_eq request hnone hst hwLead hw hcLead hcPrelude hcItems
    hpre (by omega : _ ≤ (min (text.length : ℤ) stop).toNat)
  unfold DocumentView.declarationValuePosition
  rw [htext, hstart, hstop]
  simp only
  rw [if_pos (by omega), Int.toNat_natCast, hoffset]
  cases rule.found (start + lead.units.length) request <;> rfl

/-- The code names the declaration that the request names, and takes its value to start there. -/
theorem positions_iff (request : RulesOpenDeclaration) {text : List ℕ}
    (hdoc : document.TellsApart text) {i : ℕ}
    (hst : Stands text i rule.units) (hw : rule.Written) :
    ((match rule.found i request with
      | none => some none
      | some d => (document.positionAt d.readOffset).map some) =
      (match rule.declared i request with
      | none => some none
      | some d => (document.positionAt d.valueStart).map some)) ↔
      rule.found i request = rule.declared i request ∧
      ∀ d ∈ rule.declared i request, d.gap.all isBlank = true := by
  have hunits : rule.units = rule.prelude.units ++ 123 :: (rule.items.units ++ [125]) := by
    simp [Rule.units]
  have hlen := hst.stop_le (by simp [Rule.units])
  rw [hunits] at hst hlen
  simp only [List.length_append, List.length_cons, List.length_nil] at hlen
  have hbounds : ∀ d ∈ rule.written i, d.gap.length ≤ d.valueStart ∧ d.valueStart ≤ text.length :=
    by
    intro d hd
    have := Items.written_bounds rule.items hd
    omega
  have hknown : ∀ offset : ℕ, offset ≤ text.length → ∃ p, document.positionAt offset = some p :=
    fun offset hle => Option.ne_none_iff_exists'.1 (hdoc.known offset hle)
  cases hfound : rule.found i request with
  | none =>
    cases hdeclared : rule.declared i request with
    | none => simp
    | some e =>
      obtain ⟨p, hp⟩ := hknown _ (hbounds e (List.mem_of_mem_filter (fromLast_mem hdeclared))).2
      simp [hp]
  | some d =>
    have hd := List.mem_of_mem_filter (fromLast_mem hfound)
    have hread := readOffset_bounds (hbounds d hd).1
    have hle := (hbounds d hd).2
    obtain ⟨p, hp⟩ := hknown d.readOffset (by omega)
    cases hdeclared : rule.declared i request with
    | none => simp [hp]
    | some e =>
      have he := List.mem_of_mem_filter (fromLast_mem hdeclared)
      obtain ⟨q, hq⟩ := hknown e.valueStart (hbounds e he).2
      obtain ⟨u, hu, hspace⟩ := Items.valueStart_unit rule.items hst.right.tail hw.2 he
      have hbreak : text[e.valueStart]? ≠ some 10 ∧ text[e.valueStart]? ≠ some 13 := by
        rw [hu]
        constructor <;> (rintro ⟨⟩; exact absurd hspace (by decide))
      simp only [Option.mem_some_iff, Option.some.injEq, forall_eq']
      constructor
      · intro h
        have hsame : e.valueStart = d.readOffset :=
          hdoc.apart _ _ (hbounds e he).2 (by omega) hbreak.1 hbreak.2 (by
            rw [hp, hq] at h ⊢
            simpa using h.symm)
        have hde := readOffset_inj hd he hsame.symm
        subst hde
        exact ⟨rfl, (readOffset_eq_iff (hbounds d hd).1).1 hsame.symm⟩
      · rintro ⟨rfl, hgap⟩
        rw [(readOffset_eq_iff (hbounds d hd).1).2 hgap]

/-- No place inside of a hidden region has the position of a value. -/
theorem valueStart_position {text : List ℕ} (hdoc : document.TellsApart text) {i : ℕ}
    (hst : Stands text i rule.units) (hw : rule.Written) {d : WrittenDeclaration}
    (hd : d ∈ rule.written i) {offset : ℕ} (hoffset : offset ≤ text.length)
    (hsame : document.positionAt d.valueStart = document.positionAt offset)
    {region : ℕ × ℕ} (hregion : region ∈ rule.hidden i) :
    ¬(region.1 < offset ∧ offset < region.2) := by
  have hunits : rule.units = rule.prelude.units ++ 123 :: (rule.items.units ++ [125]) := by
    simp [Rule.units]
  rw [hunits] at hst
  have hlen := hst.stop_le (by simp)
  simp only [List.length_append, List.length_cons, List.length_nil] at hlen
  have hbounds := Items.written_bounds rule.items hd
  obtain ⟨u, hu, hspace⟩ := Items.valueStart_unit rule.items hst.right.tail hw.2 hd
  have hbreak : text[d.valueStart]? ≠ some 10 ∧ text[d.valueStart]? ≠ some 13 := by
    rw [hu]
    constructor <;> (rintro ⟨⟩; exact absurd hspace (by decide))
  have heq : d.valueStart = offset :=
    hdoc.apart _ _ (by omega) hoffset hbreak.1 hbreak.2 hsame
  have hvisible := Rule.valueStart_visible hd hregion
  omega

/-- A clicked declaration opens at its own value just when the name picks the same declaration for
the code, and only blanks and tabs stand between its colon and its value. -/
theorem opensAtOwnValue_iff (outer after : List ℕ)
    (htext : document.text = some (outer ++ (lead.units ++ rule.units) ++ after))
    (hdoc : document.TellsApart (outer ++ (lead.units ++ rule.units) ++ after))
    (hstart : document.offsetAt range.start = some (outer.length : ℤ))
    (hstop : document.offsetAt range.stop = some stop)
    (hcovers : (outer.length + lead.units.length + rule.units.length : ℤ) ≤ stop)
    (hnone : lead.opensNone = true) (hwLead : lead.Written) (hw : rule.Written)
    (hcLead : lead.Clear false outer.getLast?)
    (hcPrelude : rule.prelude.Clear false (outer ++ lead.units).getLast?)
    (hcItems : rule.items.Clear false (some 123)) :
    OpensAtOwnValue document (outer ++ (lead.units ++ rule.units) ++ after) range
      (outer.length + lead.units.length) rule request ↔
      rule.found (outer.length + lead.units.length) request =
        rule.declared (outer.length + lead.units.length) request ∧
      ∀ d ∈ rule.declared (outer.length + lead.units.length) request,
        d.gap.all isBlank = true := by
  have hst : Stands (outer ++ (lead.units ++ rule.units) ++ after) outer.length
      (lead.units ++ rule.units) := stands_append outer _ after
  have hpre : Preceded (outer ++ (lead.units ++ rule.units) ++ after) outer.length
      outer.getLast? := by
    rw [List.append_assoc]
    exact preceded_append _ _
  have htake : (outer ++ (lead.units ++ rule.units) ++ after).take
      (outer.length + lead.units.length) = outer ++ lead.units := by
    rw [← List.length_append, ← List.append_assoc outer, List.append_assoc _ rule.units,
      List.take_left]
  have hanswer := declarationValuePosition_eq request htext hstart hstop hcovers hnone
    hst hwLead hw hcLead (by rw [htake]; exact hcPrelude) hcItems hpre
  have hpositions := positions_iff request hdoc hst.right hw
  unfold OpensAtOwnValue
  rw [hanswer, hpositions]
  refine ⟨fun h => h.1, fun h => ⟨h, ?_⟩⟩
  rw [hpositions.2 h]
  intro position hposition offset hoffset hsame region hregion
  cases hdeclared : rule.declared (outer.length + lead.units.length) request with
  | none =>
    rw [hdeclared] at hposition
    cases hposition
  | some d =>
    rw [hdeclared] at hposition
    simp only [Option.map_eq_some_iff, Option.some.injEq] at hposition
    obtain ⟨p, hp, rfl⟩ := hposition
    exact valueStart_position hdoc hst.right hw (List.mem_of_mem_filter (fromLast_mem hdeclared))
      hoffset (hp.trans hsame.symm) hregion

end

/-! ## A document that counts lines itself -/

def DocumentView.ofText (text : List ℕ) : DocumentView :=
  ⟨"file:///a.css", 0, some text, fun position => some (Css.offsetAt text position),
    fun offset => some (Css.positionAt text offset)⟩

theorem DocumentView.ofText_tellsApart (text : List ℕ) :
    (DocumentView.ofText text).TellsApart text where
  known _ _ := Option.some_ne_none _
  apart a b ha hb _ _ h := by
    have hpos : Css.positionAt text a = Css.positionAt text b := Option.some.inj h
    have h1 := (@offsetAt_positionAt text a (by omega) (by omega)).1
    have h2 := (@offsetAt_positionAt text b (by omega) (by omega)).1
    rw [hpos, h2] at h1
    omega

namespace ClickedSample

/-- `a{color: red;/*c*/b{x:1}color:blue}` -/
def rule : DeclarationValuePosition.Rule :=
  ⟨.unit 97 .nil,
    .statement (.declaration (nameUnits "color") [] [32] (.unit 114 (.unit 101 (.unit 100 .nil))))
      (.chunk (.comment [99])
        (.block (.unit 98 .nil) (.last (.declaration [120] [] [] (.unit 49 .nil)))
          (.last (.declaration (nameUnits "color") [] [] (.unit 98 .nil)))))⟩

def text : List ℕ := [32] ++ ((Items.blank 32 .nil).units ++ rule.units) ++ [10]

def range : SourceRange := ⟨⟨0, 1⟩, ⟨0, 60⟩⟩

/-- `a{--Foo:1;--foo:2}` -/
def custom : DeclarationValuePosition.Rule :=
  ⟨.unit 97 .nil,
    .statement (.declaration (nameUnits "--Foo") [] [] (.unit 49 .nil))
      (.last (.declaration (nameUnits "--foo") [] [] (.unit 50 .nil)))⟩

end ClickedSample

open ClickedSample in
theorem opensAtOwnValue_iff_sample :
    OpensAtOwnValue (.ofText text) text range 2 rule ⟨"COLOR", 1⟩ ↔
      rule.found 2 ⟨"COLOR", 1⟩ = rule.declared 2 ⟨"COLOR", 1⟩ ∧
      ∀ d ∈ rule.declared 2 ⟨"COLOR", 1⟩, d.gap.all isBlank = true := by
  have hstop : (DocumentView.ofText text).offsetAt range.stop = some 34 := by decide +kernel
  have hnone : (Items.blank 32 .nil).opensNone = true := rfl
  exact opensAtOwnValue_iff [32] [10] rfl (DocumentView.ofText_tellsApart _) (by decide +kernel)
    hstop (by decide +kernel) hnone (by decide +kernel) (by decide +kernel) (by decide +kernel)
    (by decide +kernel) (by decide +kernel)

open ClickedSample in
/-- The names of custom properties are compared without case. -/
theorem custom_opens_elsewhere :
    ¬OpensAtOwnValue (.ofText custom.units) custom.units ⟨⟨0, 0⟩, ⟨0, 18⟩⟩ 0 custom
      ⟨"--Foo", 0⟩ := by
  intro h
  have hanswer : (DocumentView.ofText custom.units).declarationValuePosition ⟨⟨0, 0⟩, ⟨0, 18⟩⟩
      ⟨"--Foo", 0⟩ = some (some ⟨0, 16⟩) := by decide +kernel
  have hdeclared : (custom.declared 0 ⟨"--Foo", 0⟩).map WrittenDeclaration.valueStart = some 8 := by
    decide +kernel
  obtain ⟨d, hd, hstart⟩ := Option.map_eq_some_iff.1 hdeclared
  have hclaimed := h.1
  rw [hanswer, hd] at hclaimed
  simp only [hstart] at hclaimed
  have hpos : positionAt custom.units 8 = ⟨0, 8⟩ := by decide +kernel
  have hclaimed : some (some ⟨0, 16⟩) = some (some (positionAt custom.units 8)) := hclaimed
  rw [hpos] at hclaimed
  exact absurd hclaimed (by decide)

end PinOp.Rules
