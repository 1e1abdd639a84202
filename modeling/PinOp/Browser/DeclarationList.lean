import PinOp.Browser.DeclarationText

/-!
# The text of a list of declarations

`Scan` follows quotes, escapes and brackets of all three kinds; a value is balanced when it comes
back outside of them and has no `;` there. The code follows quotes, escapes and parentheses only,
so it cuts a value at a `;` between brackets or braces. Every declaration is read as one text that
begins with its name and, where the value is cut, at least one more.
-/

namespace PinOp.Browser

open PinOp.Lib PinOp.Lib.Regex

structure Declaration where
  name : String
  value : String
  important : Bool
  deriving DecidableEq, Repr

/-- `name: value[ !important];` -/
def Declaration.text (d : Declaration) : List Char :=
  d.name.toList ++ ':' :: ' ' ::
    (d.value.toList ++ ((if d.important then importantMark else []) ++ [';']))

/-- The declarations, with a gap between two of them. -/
def printDeclarations (gap : String) (ds : List Declaration) : String :=
  String.ofList (gap.toList.intercalate (ds.map Declaration.text))

/-! ## Balanced values -/

/-- The quote that is open, whether the next character is escaped, and the brackets that are
still to close. -/
structure Scan where
  quote : Option Char
  escaped : Bool
  closers : List Char
  deriving DecidableEq, Repr

def Scan.outside : Scan := ⟨none, false, []⟩

def closerOf (c : Char) : Option Char :=
  if c = '(' then some ')'
  else if c = '[' then some ']'
  else if c = '\x7b' then some '\x7d'
  else none

def isCloser (c : Char) : Bool := c = ')' || c = ']' || c = '\x7d'

def Scan.next (s : Scan) (c : Char) : Option Scan :=
  if s.escaped then some { s with escaped := false }
  else if c = '\\' then some { s with escaped := true }
  else
    match s.quote with
    | some quote => some { s with quote := if c = quote then none else some quote }
    | none =>
      if isQuote c then some { s with quote := some c }
      else
        match closerOf c with
        | some closer => some { s with closers := closer :: s.closers }
        | none =>
          if isCloser c then
            if s.closers.head? = some c then some { s with closers := s.closers.tail } else none
          else if c = ';' ∧ s.closers = [] then none
          else some s

/-- The quotes, escapes and brackets of a value are closed, and no `;` stands outside of them. -/
def isBalanced (value : String) : Bool :=
  value.toList.foldlM Scan.next .outside = some .outside

/-- The code takes this character for the end of a declaration. -/
def Scan.cuts (s : Scan) (c : Char) : Bool :=
  c = ';' && s.quote.isNone && !s.escaped && !s.closers.contains ')'

def wholeFrom : Scan → List Char → Bool
  | _, [] => true
  | s, c :: rest => !s.cuts c && (s.next c).all fun s => wholeFrom s rest

/-- The code does not cut the value. -/
def isWhole (value : String) : Bool := wholeFrom .outside value.toList

/-! ## The loop along a value -/

/-- The loop where the scan stands, with the declarations read and the text since the last. -/
def readingAt (s : Scan) (declarations : List ParsedDeclaration) (chunk : List Char) :
    ListReading where
  declarations := declarations
  chunk := chunk
  quote := s.quote
  escaped := s.escaped
  depth := s.closers.count ')'

def hasText (chunk : List Char) : Prop := ∃ c ∈ chunk, isJsSpace c = false

theorem hasText_append_left {s t : List Char} (h : hasText s) : hasText (s ++ t) := by
  obtain ⟨c, hc, hspace⟩ := h
  exact ⟨c, List.mem_append_left t hc, hspace⟩

theorem jsTrim_ne_empty {chunk : List Char} (h : hasText chunk) :
    jsTrim (String.ofList chunk) ≠ "" := by
  obtain ⟨c, hc, hspace⟩ := h
  obtain ⟨a, z, he, ha, hz⟩ := exists_eq_trimmed chunk
  intro hempty
  rw [jsTrim_eq, String.toList_ofList] at hempty
  have hnil : trimmed chunk = [] := by
    have := congrArg String.toList hempty
    rwa [String.toList_ofList] at this
  rw [he, hnil, List.append_nil] at hc
  rcases List.mem_append.mp hc with hc | hc
  · rw [ha c hc] at hspace
    cases hspace
  · rw [hz c hc] at hspace
    cases hspace

section

variable {s s' : Scan} {declarations : List ParsedDeclaration} {chunk : List Char} {c : Char}
  {reading : ListReading}

theorem finish_of_hasText (htext : hasText chunk)
    (h : (readingAt s declarations chunk).finish = some reading) :
    ∃ entry, parseDeclaration chunk = some entry ∧
      reading = readingAt s (declarations ++ [entry]) [] := by
  unfold ListReading.finish readingAt at h
  dsimp only at h
  rw [if_neg (jsTrim_ne_empty htext)] at h
  cases hparse : parseDeclaration chunk with
  | none =>
    rw [hparse] at h
    cases h
  | some entry =>
    rw [hparse] at h
    dsimp only at h
    split at h
    · cases h
    · cases h
      exact ⟨entry, rfl, rfl⟩

/-- A blank text is passed over. -/
theorem finish_cases (h : (readingAt s declarations chunk).finish = some reading) :
    ∃ entries, reading = readingAt s (declarations ++ entries) [] := by
  unfold ListReading.finish at h
  split at h
  · cases h
    exact ⟨[], by rw [List.append_nil]; rfl⟩
  · split at h
    · cases h
    · split at h
      · cases h
      · cases h
        exact ⟨_, rfl⟩

theorem count_tail_of_head {closers : List Char} (h : closers.head? = some c) :
    closers.count ')' = closers.tail.count ')' + if c = ')' then 1 else 0 := by
  cases closers with
  | nil => cases h
  | cons x rest =>
    cases h
    rw [List.tail_cons, List.count_cons]
    simp

/-- Where the code does not cut, it goes the way of the scan. -/
theorem next_of_not_cuts (hnext : s.next c = some s') (hcuts : s.cuts c = false) :
    (readingAt s declarations chunk).next c =
      some (readingAt s' declarations (chunk ++ [c])) := by
  obtain ⟨quote, escaped, closers⟩ := s
  unfold Scan.next at hnext
  unfold ListReading.next readingAt
  dsimp only at hnext ⊢
  by_cases hesc : escaped = true
  · rw [if_pos hesc] at hnext ⊢
    cases hnext
    rfl
  rw [if_neg hesc] at hnext ⊢
  by_cases hback : c = '\\'
  · rw [if_pos hback] at hnext ⊢
    cases hnext
    rfl
  rw [if_neg hback] at hnext ⊢
  cases quote with
  | some quote =>
    cases hnext
    rfl
  | none =>
    dsimp only at hnext ⊢
    by_cases hisQuote : isQuote c = true
    · rw [if_pos hisQuote] at hnext ⊢
      cases hnext
      rfl
    rw [if_neg hisQuote] at hnext ⊢
    by_cases hparen : c = '('
    · rw [if_pos hparen]
      rw [hparen] at hnext ⊢
      cases hnext
      rw [List.count_cons_self]
      rfl
    rw [if_neg hparen]
    by_cases hclose : c = ')'
    · rw [if_pos hclose]
      rw [hclose] at hnext ⊢
      have hcloser : closerOf ')' = none := by decide
      have hisCloser : isCloser ')' = true := by decide
      rw [hcloser, hisCloser] at hnext
      dsimp only at hnext
      rw [if_pos rfl] at hnext
      split at hnext
      · rename_i hhead
        have hcount := count_tail_of_head hhead
        rw [if_pos rfl] at hcount
        cases hnext
        rw [if_neg (by omega), hcount]
        rfl
      · cases hnext
    rw [if_neg hclose]
    have hplain : (c ≠ ';' || 0 < closers.count ')') = true := by
      by_cases hsemicolon : c = ';'
      · have hin : ')' ∈ closers := by simpa [Scan.cuts, hsemicolon, hesc] using hcuts
        simp [hsemicolon, hin]
      · simpa using .inl hsemicolon
    rw [if_pos hplain]
    cases hcloser : closerOf c with
    | some closer =>
      have hne : closer ≠ ')' := by
        rintro rfl
        unfold closerOf at hcloser
        split_ifs at hcloser <;> cases hcloser
      rw [hcloser] at hnext
      cases hnext
      rw [List.count_cons_of_ne hne]
      rfl
    | none =>
      rw [hcloser] at hnext
      dsimp only at hnext
      split at hnext
      · split at hnext
        · rename_i hhead
          have hcount := count_tail_of_head hhead
          rw [if_neg hclose, Nat.add_zero] at hcount
          cases hnext
          rw [hcount]
          rfl
        · cases hnext
      · split at hnext
        · cases hnext
        · cases hnext
          rfl

/-- Where the code cuts, the scan stays, between brackets. -/
theorem next_of_cuts (hnext : s.next c = some s') (hcuts : s.cuts c = true) :
    s' = s ∧ s.closers ≠ [] ∧
      (readingAt s declarations chunk).next c = (readingAt s declarations chunk).finish := by
  obtain ⟨quote, escaped, closers⟩ := s
  simp only [Scan.cuts, Bool.and_eq_true, decide_eq_true_eq, Bool.not_eq_true',
    Option.isNone_iff_eq_none] at hcuts
  obtain ⟨⟨⟨rfl, rfl⟩, rfl⟩, hcloser⟩ := hcuts
  have hcount : closers.count ')' = 0 := by
    rw [List.count_eq_zero]
    intro hin
    rw [List.contains_iff_mem.mpr hin] at hcloser
    cases hcloser
  have hkinds : isQuote ';' = false ∧ closerOf ';' = none ∧ isCloser ';' = false := by decide
  unfold Scan.next at hnext
  simp only [hkinds, Bool.false_eq_true, if_false] at hnext
  rw [if_neg (by decide)] at hnext
  split at hnext
  · cases hnext
  · rename_i hne
    cases hnext
    refine ⟨rfl, fun he => hne (by simpa using he), ?_⟩
    simp [ListReading.next, readingAt, hkinds, hcount]

/-- A character that closes the last bracket is no space. -/
theorem isJsSpace_of_closes (hnext : s.next c = some s') (hclosers : s.closers ≠ [])
    (hclosers' : s'.closers = []) : isJsSpace c = false := by
  obtain ⟨quote, escaped, closers⟩ := s
  unfold Scan.next at hnext
  dsimp only at hnext hclosers
  have hkinds : isCloser c = true → isJsSpace c = false := by
    intro h
    simp only [isCloser, Bool.or_eq_true, decide_eq_true_eq] at h
    rcases h with (rfl | rfl) | rfl <;> decide
  split at hnext
  · cases hnext
    exact absurd hclosers' hclosers
  split at hnext
  · cases hnext
    exact absurd hclosers' hclosers
  split at hnext
  · cases hnext
    exact absurd hclosers' hclosers
  split at hnext
  · cases hnext
    exact absurd hclosers' hclosers
  split at hnext
  · cases hnext
    cases hclosers'
  split at hnext
  · rename_i hcloser
    exact hkinds hcloser
  split at hnext
  · cases hnext
  · cases hnext
    exact absurd hclosers' hclosers

/-- The loop along a value that is balanced from here on: the declarations it finds, each but the
first of which is a part of the value, and the text it leaves. -/
theorem foldlM_next_value : ∀ {value : List Char} {s : Scan} {declarations chunk}
    {reading : ListReading}, value.foldlM Scan.next s = some .outside →
    value.foldlM ListReading.next (readingAt s declarations chunk) = some reading →
    ∃ entries left, reading = readingAt .outside (declarations ++ entries) left ∧
      (wholeFrom s value = true → entries = [] ∧ left = chunk ++ value) ∧
      (wholeFrom s value = false → hasText chunk → ∃ v entry rest, entries = entry :: rest ∧
        parseDeclaration (chunk ++ v) = some entry) ∧
      (s.closers ≠ [] ∨ wholeFrom s value = false → hasText left) := by
  intro value
  induction value with
  | nil =>
    intro s declarations chunk reading hscan hread
    cases hscan
    cases hread
    refine ⟨[], chunk, by rw [List.append_nil], fun _ => ⟨rfl, (List.append_nil _).symm⟩, ?_, ?_⟩
    · intro hwhole
      cases hwhole
    · rintro (hne | hwhole)
      · exact absurd rfl hne
      · cases hwhole
  | cons c value ih =>
    intro s declarations chunk reading hscan hread
    obtain ⟨s', hnext, hscan'⟩ := Option.bind_eq_some_iff.mp hscan
    obtain ⟨reading', hstep, hread'⟩ := Option.bind_eq_some_iff.mp hread
    have hwholeCons : wholeFrom s (c :: value) = (!s.cuts c && wholeFrom s' value) := by
      rw [wholeFrom, hnext]
      rfl
    rw [hwholeCons]
    by_cases hcuts : s.cuts c = true
    · obtain ⟨rfl, hclosers, he⟩ := next_of_cuts hnext hcuts
      rw [he] at hstep
      rw [hcuts, Bool.not_true, Bool.false_and]
      by_cases htext : hasText chunk
      · obtain ⟨entry, hparse, rfl⟩ := finish_of_hasText htext hstep
        obtain ⟨entries, left, rfl, -, -, hleft⟩ := ih hscan' hread'
        refine ⟨entry :: entries, left, by rw [List.append_assoc]; rfl, Bool.noConfusion,
          fun _ _ => ⟨[], entry, entries, rfl, by rwa [List.append_nil]⟩,
          fun _ => hleft (.inl hclosers)⟩
      · obtain ⟨entries', rfl⟩ := finish_cases hstep
        obtain ⟨entries, left, rfl, -, -, hleft⟩ := ih hscan' hread'
        exact ⟨entries' ++ entries, left, by rw [List.append_assoc], Bool.noConfusion,
          fun _ h => absurd h htext, fun _ => hleft (.inl hclosers)⟩
    · rw [Bool.not_eq_true] at hcuts
      rw [next_of_not_cuts hnext hcuts] at hstep
      cases hstep
      rw [hcuts, Bool.not_false, Bool.true_and]
      obtain ⟨entries, left, rfl, hwhole, hfirst, hleft⟩ := ih hscan' hread'
      refine ⟨entries, left, rfl, fun h => ?_, fun h htext => ?_, fun h => ?_⟩
      · obtain ⟨hentries, he⟩ := hwhole h
        exact ⟨hentries, by rw [he, List.append_assoc, List.singleton_append]⟩
      · obtain ⟨v, entry, rest, hentries, hparse⟩ := hfirst h (hasText_append_left htext)
        exact ⟨c :: v, entry, rest, hentries, by
          rwa [List.append_assoc, List.singleton_append] at hparse⟩
      · rcases h with hclosers | h
        · by_cases hclosers' : s'.closers = []
          -- the last bracket is closed here, by a character that is no space
          · by_cases hw : wholeFrom s' value = true
            · rw [(hwhole hw).2]
              have hin : c ∈ chunk ++ [c] := List.mem_append_right _ (List.mem_singleton_self c)
              refine hasText_append_left ⟨c, hin, ?_⟩
              exact isJsSpace_of_closes hnext hclosers hclosers'
            · exact hleft (.inr (by simpa using hw))
          · exact hleft (.inl hclosers')
        · exact hleft (.inr h)

/-! ## The loop along declarations -/

/-- A character that the loop only takes along. -/
def isPlain (c : Char) : Bool := !isQuote c && c ≠ '\\' && c ≠ '(' && c ≠ ')' && c ≠ ';'

theorem isPlain_of_isInert (h : isInert c = true) : isPlain c = true := by
  simp only [isInert, isPlain, Bool.and_eq_true] at h ⊢
  exact ⟨h.1.1, h.2⟩

theorem foldlM_next_plain : ∀ {text chunk : List Char}, (∀ c ∈ text, isPlain c = true) →
    text.foldlM ListReading.next (readingAt .outside declarations chunk) =
      some (readingAt .outside declarations (chunk ++ text)) := by
  intro text
  induction text with
  | nil => exact fun _ => by rw [List.append_nil]; rfl
  | cons c text ih =>
    intro chunk h
    have hc := h c List.mem_cons_self
    simp only [isPlain, Bool.and_eq_true, Bool.not_eq_true', decide_eq_true_eq] at hc
    obtain ⟨⟨⟨⟨hquote, hescape⟩, hleft⟩, hright⟩, hsemicolon⟩ := hc
    have hnext : (readingAt .outside declarations chunk).next c =
        some (readingAt .outside declarations (chunk ++ [c])) := by
      simp [ListReading.next, readingAt, Scan.outside, hquote, hescape, hleft, hright, hsemicolon,
        ListReading.append]
    rw [List.foldlM_cons, hnext, Option.bind_eq_bind, Option.bind_some,
      ih fun c hc => h c (List.mem_cons_of_mem _ hc), List.append_assoc, List.singleton_append]

theorem next_semicolon : (readingAt .outside declarations chunk).next ';' =
    (readingAt .outside declarations chunk).finish := by
  have hquote : isQuote ';' = false := by decide
  simp [ListReading.next, readingAt, Scan.outside, hquote]

end

structure Declaration.WellFormed (d : Declaration) : Prop where
  name : ∀ c ∈ d.name.toList, isNameChar c = true
  value : isBalanced d.value = true

/-- What is read of a declaration: an entry with its name and, where the value is cut, more. The
whole declaration is read as it is, or for an important one that it is not. -/
structure ReadsAs (d : Declaration) (entry : ParsedDeclaration) (rest : List ParsedDeclaration) :
    Prop where
  property : entry.property = d.name
  whole : isWhole d.value = true → rest = [] ∧
    (entry = ⟨d.name, jsTrim d.value, d.important⟩ ∨
      entry.important = true ∧ d.important = false)
  cut : isWhole d.value = false → rest ≠ []

theorem parseDeclaration_whole {d : Declaration} (hd : d.WellFormed) {gap : List Char}
    (hgap : ∀ c ∈ gap, isJsSpace c = true) {entry : ParsedDeclaration}
    (h : parseDeclaration (gap ++ (d.name.toList ++ ':' :: ' ' ::
      (d.value.toList ++ if d.important then importantMark else []))) = some entry) :
    entry = ⟨d.name, jsTrim d.value, d.important⟩ ∨
      entry.important = true ∧ d.important = false := by
  obtain ⟨hproperty, hsome, hnone⟩ := parseDeclaration_name hgap hd.name h
  rw [String.ofList_toList] at hproperty
  cases himportant : d.important with
  | true =>
    rw [himportant, if_pos rfl] at hsome
    obtain ⟨hvalue, hentry⟩ := hsome _ (beforeMatch_important d.value.toList)
    rw [trimmed_trimmed, ← jsTrim_eq] at hvalue
    left
    cases entry
    simp_all
  | false =>
    rw [himportant] at hsome hnone
    simp only [Bool.false_eq_true, if_false, List.append_nil] at hsome hnone
    have hleft : trimmed (' ' :: d.value.toList) = trimmed d.value.toList :=
      @trimmed_append_left [' '] _ (by simp; decide)
    rw [hleft] at hsome hnone
    cases hbefore : beforeMatch importantSuffix (trimmed d.value.toList) with
    | some before => exact .inr ⟨(hsome before hbefore).2, rfl⟩
    | none =>
      obtain ⟨hvalue, hentry⟩ := hnone hbefore
      rw [← jsTrim_eq] at hvalue
      left
      cases entry
      simp_all

theorem foldlM_next_declaration {d : Declaration} (hd : d.WellFormed) {gap : List Char}
    (hgap : ∀ c ∈ gap, isJsSpace c = true) {declarations : List ParsedDeclaration}
    {reading : ListReading}
    (h : d.text.foldlM ListReading.next (readingAt .outside declarations gap) = some reading) :
    ∃ entry rest, reading = readingAt .outside (declarations ++ entry :: rest) [] ∧
      ReadsAs d entry rest := by
  have hhead : ∀ c ∈ d.name.toList ++ [':', ' '], isPlain c = true := by
    intro c hc
    rcases List.mem_append.mp hc with hc | hc
    · exact isPlain_of_isInert (Bool.and_eq_true_iff.mp (hd.name c hc)).1
    · have hends : ∀ c ∈ [':', ' '], isPlain c = true := List.all_eq_true.1 (by decide)
      exact hends c hc
  have htail : ∀ c ∈ (if d.important then importantMark else []), isPlain c = true := by
    cases d.important <;> exact List.all_eq_true.1 (by decide)
  have htext : d.text = (d.name.toList ++ [':', ' ']) ++ (d.value.toList ++
      ((if d.important then importantMark else []) ++ [';'])) := by
    rw [Declaration.text, List.append_assoc]
    rfl
  have hcolon : hasText (gap ++ (d.name.toList ++ [':', ' '])) :=
    ⟨':', by simp, by decide⟩
  rw [htext, List.foldlM_append, foldlM_next_plain hhead, Option.bind_eq_bind, Option.bind_some,
    List.foldlM_append] at h
  obtain ⟨reading₁, hvalue, h⟩ := Option.bind_eq_some_iff.mp h
  obtain ⟨entries, left, rfl, hwhole, hfirst, hleft⟩ :=
    foldlM_next_value (of_decide_eq_true hd.value) hvalue
  rw [List.foldlM_append, foldlM_next_plain htail, Option.bind_eq_bind, Option.bind_some,
    List.foldlM_cons, next_semicolon] at h
  obtain ⟨reading₂, hfinish, h⟩ := Option.bind_eq_some_iff.mp h
  cases h
  by_cases hw : isWhole d.value = true
  · obtain ⟨rfl, rfl⟩ := hwhole hw
    rw [List.append_nil] at hfinish
    obtain ⟨entry, hparse, rfl⟩ := finish_of_hasText
      (hasText_append_left (hasText_append_left hcolon)) hfinish
    have hchunk : gap ++ (d.name.toList ++ [':', ' ']) ++ d.value.toList ++
        (if d.important then importantMark else []) = gap ++ (d.name.toList ++ ':' :: ' ' ::
          (d.value.toList ++ if d.important then importantMark else [])) := by
      simp only [List.append_assoc, List.cons_append, List.nil_append]
    rw [hchunk] at hparse
    refine ⟨entry, [], rfl, ?_, fun _ => ⟨rfl, parseDeclaration_whole hd hgap hparse⟩, ?_⟩
    · rw [(parseDeclaration_name hgap hd.name hparse).1, String.ofList_toList]
    · intro hcut
      rw [hw] at hcut
      cases hcut
  · rw [Bool.not_eq_true] at hw
    obtain ⟨v, entry, rest, rfl, hparse⟩ := hfirst hw hcolon
    obtain ⟨last, -, rfl⟩ := finish_of_hasText
      (hasText_append_left (hleft (.inr hw))) hfinish
    have hchunk : gap ++ (d.name.toList ++ [':', ' ']) ++ v =
        gap ++ (d.name.toList ++ ':' :: (' ' :: v)) := by
      simp only [List.append_assoc, List.cons_append, List.nil_append]
    rw [hchunk] at hparse
    refine ⟨entry, rest ++ [last], by rw [List.append_assoc]; rfl, ?_, fun hwhole' => ?_, by simp⟩
    · rw [(parseDeclaration_name hgap hd.name hparse).1, String.ofList_toList]
    · rw [hw] at hwhole'
      cases hwhole'

/-- What is read of a list of declarations, declaration by declaration. -/
structure ReadsAll (ds : List Declaration) (entries : List ParsedDeclaration)
    (rows : List (Declaration × ParsedDeclaration × List ParsedDeclaration)) : Prop where
  declarations : rows.map Prod.fst = ds
  entries : entries = rows.flatMap fun row => row.2.1 :: row.2.2
  reads : ∀ row ∈ rows, ReadsAs row.1 row.2.1 row.2.2

theorem foldlM_next_gaps {gap : List Char} (hgap : ∀ c ∈ gap, isJsSpace c = true) :
    ∀ {ds : List Declaration} {declarations : List ParsedDeclaration} {reading : ListReading},
    (∀ d ∈ ds, d.WellFormed) →
    (ds.flatMap fun d => gap ++ d.text).foldlM ListReading.next
      (readingAt .outside declarations []) = some reading →
    ∃ entries rows, reading = readingAt .outside (declarations ++ entries) [] ∧
      ReadsAll ds entries rows := by
  intro ds
  induction ds with
  | nil =>
    intro declarations reading _ h
    cases h
    exact ⟨[], [], by rw [List.append_nil], rfl, rfl, fun _ hm => absurd hm List.not_mem_nil⟩
  | cons d ds ih =>
    intro declarations reading hds h
    have hplain : ∀ c ∈ gap, isPlain c = true := fun c hc =>
      isPlain_of_isInert (isInert_of_space (hgap c hc))
    rw [List.flatMap_cons, List.append_assoc, List.foldlM_append, foldlM_next_plain hplain,
      Option.bind_eq_bind, Option.bind_some, List.nil_append, List.foldlM_append] at h
    obtain ⟨reading', hread, h⟩ := Option.bind_eq_some_iff.mp h
    obtain ⟨entry, rest, rfl, hreads⟩ :=
      foldlM_next_declaration (hds d List.mem_cons_self) hgap hread
    obtain ⟨entries, rows, rfl, hall⟩ := ih (fun d hd => hds d (List.mem_cons_of_mem _ hd)) h
    refine ⟨(entry :: rest) ++ entries, (d, entry, rest) :: rows, by rw [List.append_assoc],
      by rw [List.map_cons, hall.declarations], by rw [List.flatMap_cons, hall.entries], ?_⟩
    intro row hrow
    rcases List.mem_cons.mp hrow with rfl | hrow
    · exact hreads
    · exact hall.reads row hrow

theorem intercalate_cons_flatMap (gap first : List Char) (rest : List (List Char)) :
    gap.intercalate (first :: rest) = first ++ rest.flatMap fun text => gap ++ text := by
  induction rest generalizing first with
  | nil => simp
  | cons text rest ih =>
    rw [List.intercalate_cons_cons, ih text, List.flatMap_cons]
    simp only [List.append_assoc]

/-- A printed list is read declaration by declaration. -/
theorem parseDeclarationList_print {gap : String} (hgap : ∀ c ∈ gap.toList, isJsSpace c = true)
    {ds : List Declaration} (hds : ∀ d ∈ ds, d.WellFormed) {entries : List ParsedDeclaration}
    (h : parseDeclarationList (printDeclarations gap ds) = some entries) :
    ∃ rows, ReadsAll ds entries rows := by
  have hstart : (⟨[], [], none, false, 0⟩ : ListReading) = readingAt .outside [] [] := rfl
  have hend : ∀ declarations : List ParsedDeclaration,
      [';'].foldlM ListReading.next (readingAt .outside declarations []) =
        some (readingAt .outside declarations []) := by
    intro declarations
    rw [List.foldlM_cons, next_semicolon]
    rfl
  unfold parseDeclarationList at h
  rw [printDeclarations, String.toList_ofList, hstart, List.foldlM_append] at h
  cases ds with
  | nil =>
    rw [List.map_nil, List.intercalate_nil, List.foldlM_nil, Option.pure_def, Option.bind_eq_bind,
      Option.bind_some, hend] at h
    cases h
    exact ⟨[], rfl, rfl, fun _ hm => absurd hm List.not_mem_nil⟩
  | cons d ds =>
    rw [List.map_cons, intercalate_cons_flatMap, List.flatMap_map, List.foldlM_append] at h
    cases hfirst : d.text.foldlM ListReading.next (readingAt .outside [] []) with
    | none =>
      rw [hfirst] at h
      cases h
    | some reading =>
      obtain ⟨entry, rest, rfl, hreads⟩ := foldlM_next_declaration (hds d List.mem_cons_self)
        (fun c hc => absurd hc List.not_mem_nil) hfirst
      rw [hfirst, Option.bind_eq_bind, Option.bind_some] at h
      cases hgaps : (ds.flatMap fun d => gap.toList ++ d.text).foldlM ListReading.next
          (readingAt .outside ([] ++ entry :: rest) []) with
      | none =>
        rw [hgaps] at h
        cases h
      | some reading =>
        obtain ⟨entries', rows, rfl, hall⟩ :=
          foldlM_next_gaps hgap (fun d hd => hds d (List.mem_cons_of_mem _ hd)) hgaps
        rw [hgaps, Option.bind_some, hend] at h
        cases h
        refine ⟨(d, entry, rest) :: rows, by rw [List.map_cons, hall.declarations],
          by rw [List.flatMap_cons, ← hall.entries]; rfl, ?_⟩
        intro row hrow
        rcases List.mem_cons.mp hrow with rfl | hrow
        · exact hreads
        · exact hall.reads row hrow

end PinOp.Browser
