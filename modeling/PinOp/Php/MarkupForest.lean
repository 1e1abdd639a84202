import PinOp.Php.MarkupTags

/-!
# Reading a written forest

The scan goes over each leaf and each tag in one round, and over an element with its children back
to the same stack of open elements.
-/

namespace PinOp.Php

open PinOp.Lib

variable {text us vs more needle : List ℕ} {i j x u : ℕ} {toLowerCase : List ℕ → List ℕ}
  {s t : ScanState}

abbrev mainScan (text : List ℕ) (toLowerCase : List ℕ → List ℕ) :
    ℕ → ℕ → ScanState → ParsedPhpMarkup :=
  scan text toLowerCase

/-! ## Getting to the next markup -/

theorem indexOf_here (hne : needle ≠ []) (h : Stands text i needle) :
    indexOf text needle i = some i := by
  rw [indexOf]
  have hstands := List.isPrefixOf_iff_prefix.2 h
  cases hdrop : text.drop i with
  | nil =>
    rw [Stands, hdrop] at h
    exact absurd (List.prefix_nil.1 h) hne
  | cons u rest =>
    rw [hdrop] at hstands
    rw [findIn, if_pos hstands]
    rfl

theorem indexOf_behind (hus : ∀ u ∈ us, u ≠ 0x3c) (h : Stands text i us) :
    indexOf text (ascii "<") i = indexOf text (ascii "<") (i + us.length) := by
  have hfind : ∀ us : List ℕ, (∀ u ∈ us, u ≠ 0x3c) → ∀ rest, findIn (ascii "<") (us ++ rest) =
      (findIn (ascii "<") rest).map (us.length + ·) := by
    intro us hus rest
    induction us with
    | nil => simp
    | cons u us ih =>
      have hu : (ascii "<").isPrefixOf (u :: (us ++ rest)) = false := by
        have := hus u List.mem_cons_self
        simp [ascii, List.isPrefixOf, this.symm]
      rw [List.cons_append, findIn, hu, if_neg (by simp),
        ih (fun v hv => hus v (List.mem_cons_of_mem _ hv)), Option.map_map]
      congr 1
      funext k
      simp only [Function.comp_apply, List.length_cons]
      omega
  obtain ⟨rest, hrest⟩ := h
  rw [indexOf, indexOf, ← List.drop_drop, ← hrest, List.drop_left, hfind us hus, Option.map_map]
  congr 1
  funext k
  simp only [Function.comp_apply]
  omega

/-- Over text the scan goes in no round. -/
theorem scans_text (hus : ∀ u ∈ us, u ≠ 0x3c) (h : Stands text i us) :
    Scans (mainScan text toLowerCase) text.length i s (i + us.length) s := by
  intro rounds hrounds
  refine ⟨rounds, by omega, ?_⟩
  cases rounds with
  | zero => rfl
  | succ rounds =>
    rw [mainScan, scan, scan, step, step, indexOf_behind hus h]

/-- A round at markup. -/
theorem scans_markup (h : Stands text i (0x3c :: us)) (hj : i < j)
    (hgoes : readMarkup text toLowerCase i s = .goes j t) :
    Scans (mainScan text toLowerCase) text.length i s j t := by
  have hlt := (List.getElem?_eq_some_iff.1 h.head).1
  have hhere : indexOf text (ascii "<") i = some i :=
    indexOf_here (by decide) (@Stands.left ℕ text [0x3c] us i h)
  refine Scans.step hlt hj fun rounds => ?_
  rw [mainScan, scan, step, hhere]
  simp only [hgoes]

/-! ## What stands at markup -/

/-- The second unit tells a block, a declaration and a close tag apart. -/
theorem startsWith_second {v : ℕ} (h : Stands text i (0x3c :: u :: us)) (hu : u ≠ v) :
    startsWith text i (0x3c :: v :: needle) = false := by
  cases hstarts : startsWith text i (0x3c :: v :: needle) with
  | false => rfl
  | true =>
    have hv := (startsWith_iff.1 hstarts).tail.head
    exact absurd (Option.some.inj (h.tail.head.symm.trans hv)) hu

theorem readMarkup_php {c : List ℕ} (hc : NoClose c) (h : Stands text i (block c)) :
    readMarkup text toLowerCase i s = .goes (i + (block c).length) s := by
  rw [readMarkup, if_pos (opens_block h), skipPhpBlock_block hc h]

/-- The first end of a comment. -/
theorem findIn_comment {body : List ℕ} (h : ¬ascii "-->" <:+: body) (rest : List ℕ) :
    findIn (ascii "-->") (body ++ (ascii "-->" ++ rest)) = some body.length := by
  refine findIn_append (fun a d hbody hd hstands => ?_) (List.prefix_append _ _)
  obtain ⟨w, d, rfl⟩ := List.exists_cons_of_ne_nil hd
  obtain ⟨r, hr⟩ := hstands
  have hin : ∀ e, d = 0x2d :: 0x3e :: e → w = 0x2d → False := by
    rintro e rfl rfl
    exact h ⟨a, e, by rw [hbody]; simp [ascii]⟩
  cases d with
  | nil => simp [ascii] at hr
  | cons v d =>
    cases d with
    | nil => simp [ascii] at hr
    | cons y d =>
      simp only [ascii, List.cons_append] at hr
      have h₁ := List.cons.inj hr
      have h₂ := List.cons.inj h₁.2
      have h₃ := List.cons.inj h₂.2
      refine hin d ?_ h₁.1.symm
      rw [← h₂.1, ← h₃.1]
      rfl

theorem readMarkup_comment {body : List ℕ} (hbody : ¬ascii "-->" <:+: body)
    (h : Stands text i (Leaf.comment body).units) :
    readMarkup text toLowerCase i s = .goes (i + (Leaf.comment body).units.length) s := by
  have hstarts : startsWith text i (ascii "<!--") = true := startsWith_iff.2 h.left
  have hopens : startsWith text i (ascii "<?") = false :=
    @startsWith_second text _ [] i 0x21 0x3f h (by decide)
  obtain ⟨rest, hrest⟩ := h
  have hdrop : text.drop (i + 4) = body ++ (ascii "-->" ++ rest) := by
    rw [← List.drop_drop, ← hrest]
    simp [Leaf.units, ascii]
  have hlen : (Leaf.comment body).units.length = body.length + 7 := by
    simp only [Leaf.units, List.length_append]
    have : (ascii "<!--").length = 4 ∧ (ascii "-->").length = 3 := by decide
    omega
  have hskip : skipComment text i = i + (Leaf.comment body).units.length := by
    rw [skipComment, indexOf, hdrop, findIn_comment hbody, hlen]
    show i + 4 + body.length + 3 = _
    omega
  rw [readMarkup, hopens, hstarts, hskip]
  rfl

theorem readMarkup_doctype {body : Mixed} (hbody : body.Fits fun u => u ≠ 0x3e)
    (hdashes : ¬ascii "--" <+: body.units) (h : Stands text i (Leaf.doctype body).units) :
    readMarkup text toLowerCase i s = .goes (i + (Leaf.doctype body).units.length) s := by
  have hopens : startsWith text i (ascii "<?") = false :=
    @startsWith_second text _ [] i 0x21 0x3f h (by decide)
  have hdeclares : startsWith text i (ascii "<!") = true := startsWith_iff.2 h.left
  have hbehind : Stands text (i + 2) (body.units ++ [0x3e]) := h.right
  have hcomment : startsWith text i (ascii "<!--") = false := by
    cases hstarts : startsWith text i (ascii "<!--") with
    | false => rfl
    | true =>
      have hdash : Stands text (i + 2) (ascii "--") :=
        @Stands.right ℕ text (ascii "<!") (ascii "--") i (startsWith_iff.1 hstarts)
      obtain ⟨r, hr⟩ := hdash
      obtain ⟨r', hr'⟩ := hbehind
      rw [← hr', List.append_assoc] at hr
      cases hunits : body.units with
      | nil => rw [hunits] at hr; simp [ascii] at hr
      | cons w rest =>
        cases rest with
        | nil => rw [hunits] at hr; simp [ascii] at hr
        | cons w' rest =>
          rw [hunits] at hr hdashes
          simp only [ascii, List.cons_append] at hr
          have h₁ := List.cons.inj hr
          have h₂ := List.cons.inj h₁.2
          refine absurd ⟨rest, ?_⟩ hdashes
          rw [← h₁.1, ← h₂.1]
          rfl
  have hskip := skipToTagEnd_mixed hbody hbehind
  have hlen : i + (Leaf.doctype body).units.length = i + 2 + body.units.length + 1 := by
    simp only [Leaf.units, List.length_append, List.length_singleton]
    have : (ascii "<!").length = 2 := by decide
    omega
  rw [readMarkup, hopens, hcomment, hdeclares, hskip, hlen]
  rfl

theorem readMarkup_close {c : CloseTag} {name : List ℕ} (hc : c.Closes name)
    (h : Stands text i c.units) :
    readMarkup text toLowerCase i s =
      .goes (i + c.units.length) (closeElement s (toLowerCase c.name) (i + c.units.length)) := by
  obtain ⟨⟨hname, -⟩, -, htail, hhead⟩ := hc
  have hopens : startsWith text i (ascii "<?") = false :=
    @startsWith_second text _ [] i 0x2f 0x3f h (by decide)
  have hcomment : startsWith text i (ascii "<!--") = false :=
    @startsWith_second text _ _ i 0x2f 0x21 h (by decide)
  have hdeclares : startsWith text i (ascii "<!") = false :=
    @startsWith_second text _ [] i 0x2f 0x21 h (by decide)
  have hcloses : startsWith text i (ascii "</") = true := startsWith_iff.2 h.left
  have hbehind : Stands text (i + 2) (c.name ++ (c.tail.units ++ [0x3e])) := h.right
  have hread : readTagName text (i + 2) = c.name := by
    cases htailUnits : c.tail.units with
    | nil =>
      rw [htailUnits] at hbehind
      exact takeWhile_stands hbehind hname (by decide)
    | cons w rest =>
      rw [htailUnits] at hbehind hhead
      exact takeWhile_stands hbehind hname (by simpa using hhead)
  have hskip := skipToTagEnd_mixed htail hbehind.right
  have hlen : i + c.units.length = i + 2 + c.name.length + c.tail.units.length + 1 := by
    simp only [CloseTag.units, List.length_append, List.length_singleton]
    have : (ascii "</").length = 2 := by decide
    omega
  rw [readMarkup, hopens, hcomment, hdeclares, hcloses, hread, hlen, ← hskip]
  rfl

/-! ## Open tags -/

theorem isTagNameStart_kinds (h : isTagNameStart u = true) : u ≠ 0x3f ∧ u ≠ 0x21 ∧ u ≠ 0x2f := by
  refine ⟨?_, ?_, ?_⟩ <;> rintro rfl <;> cases h

theorem lower_name (hlower : LowersAscii toLowerCase) {name : List ℕ}
    (hname : ∀ u ∈ name, isTagNameCharacter u = true) :
    toLowerCase name = name.map asciiLower :=
  hlower name fun u hu => isTagNameCharacter_lt (hname u hu)

/-- The tag is read as it is written. -/
theorem readMarkup_tag (hlower : LowersAscii toLowerCase) {tag : WrittenTag}
    (htag : tag.Fits toLowerCase) (hcount : s.elements.length < maxElements)
    (h : Stands text i tag.units) :
    readMarkup text toLowerCase i s = readElement text toLowerCase i s ∧
      readTagName text (i + 1) = tag.name ∧
      readOpenTag text toLowerCase (i + 1 + (toLowerCase tag.name).length) =
        ⟨tag.attributes toLowerCase, i + tag.units.length, tag.selfClosing⟩ := by
  have hfits := htag
  obtain ⟨⟨hname, hstart⟩, hhead, -⟩ := htag
  have hbehind : Stands text (i + 1)
      (tag.name ++ (WrittenTag.itemUnits tag.items ++ tag.ending)) := h.tail
  have hread : readTagName text (i + 1) = tag.name := by
    obtain ⟨x, rest, hx⟩ : ∃ x rest, WrittenTag.itemUnits tag.items ++ tag.ending = x :: rest :=
      List.exists_cons_of_ne_nil (by simp [WrittenTag.ending])
    rw [hx] at hbehind hhead
    exact takeWhile_stands hbehind hname (by simpa using hhead)
  have hopen : readOpenTag text toLowerCase (i + 1 + (toLowerCase tag.name).length) =
      ⟨tag.attributes toLowerCase, i + tag.units.length, tag.selfClosing⟩ := by
    rw [lower_name hlower hname, List.length_map, readOpenTag_tag hfits hbehind.right]
    congr 1
    simp only [WrittenTag.units, List.length_cons, List.length_append]
    omega
  refine ⟨?_, hread, hopen⟩
  obtain ⟨u, name, hunits⟩ : ∃ u name, tag.name = u :: name := by
    refine List.exists_cons_of_ne_nil ?_
    rintro hnil
    rw [hnil] at hstart
    cases hstart
  rw [hunits] at hbehind hstart
  have hu : isTagNameStart u = true := hstart
  obtain ⟨hmark, hbang, hslash⟩ := isTagNameStart_kinds hu
  have hpair : Stands text i (0x3c :: u :: (name ++
      (WrittenTag.itemUnits tag.items ++ tag.ending))) := by
    have : tag.units = 0x3c :: u :: (name ++ (WrittenTag.itemUnits tag.items ++ tag.ending)) := by
      rw [WrittenTag.units, hunits]
      rfl
    rwa [this] at h
  have hopens : startsWith text i (ascii "<?") = false :=
    @startsWith_second text _ [] i u 0x3f hpair hmark
  have hcomment : startsWith text i (ascii "<!--") = false :=
    @startsWith_second text _ _ i u 0x21 hpair hbang
  have hdeclares : startsWith text i (ascii "<!") = false :=
    @startsWith_second text _ [] i u 0x21 hpair hbang
  have hcloses : startsWith text i (ascii "</") = false :=
    @startsWith_second text _ [] i u 0x2f hpair hslash
  rw [readMarkup, hopens, hcomment, hdeclares, hcloses, hpair.tail.head]
  simp [hu, Nat.not_le.2 hcount]

/-- A raw element of the result ends where the search for its close tag does. -/
def RawEnds (text : List ℕ) (toLowerCase : List ℕ → List ℕ) (e : PhpMarkupElement) : Prop :=
  rawTextElements.contains e.tag = true →
    skipRawText text toLowerCase e.openEndOffset e.tag = e.endOffset

theorem contains_lower (hlower : LowersAscii toLowerCase) {name : List ℕ}
    (hname : WrittenTag.IsName name) (table : List (List ℕ)) :
    table.contains (toLowerCase name) = table.contains (name.map asciiLower) := by
  rw [lower_name hlower hname.1]

theorem scans_single (hlower : LowersAscii toLowerCase) {tag : WrittenTag}
    (hl : (Leaf.single tag).Fits toLowerCase) (hcount : s.elements.length < maxElements)
    (h : Stands text i tag.units) :
    Scans (mainScan text toLowerCase) text.length i s (i + tag.units.length)
      { s with elements := s.elements ++ (Leaf.single tag).elements toLowerCase i } := by
  obtain ⟨htag, hraw, hend⟩ := hl
  obtain ⟨hmarkup, hread, hopen⟩ := readMarkup_tag hlower htag hcount h
  refine scans_markup h (by simp [WrittenTag.units]) ?_
  have hisRaw : rawTextElements.contains (toLowerCase tag.name) = false := by
    rw [contains_lower hlower htag.1]
    exact hraw
  have hends : (tag.selfClosing || voidElements.contains (toLowerCase tag.name)) = true := by
    rw [contains_lower hlower htag.1, Bool.or_eq_true]
    exact hend
  rw [hmarkup, readElement, hread]
  simp only [hopen, hisRaw, hends, Bool.false_eq_true, if_false, if_true]
  rfl

theorem scans_raw (hlower : LowersAscii toLowerCase) {tag : WrittenTag} {body : List ℕ}
    {closing : CloseTag} (hl : (Leaf.raw tag body closing).Fits toLowerCase)
    (hends : ∀ e ∈ (Leaf.raw tag body closing).elements toLowerCase i,
      RawEnds text toLowerCase e)
    (hcount : s.elements.length < maxElements)
    (h : Stands text i (Leaf.raw tag body closing).units) :
    Scans (mainScan text toLowerCase) text.length i s
      (i + (Leaf.raw tag body closing).units.length)
      { s with
        elements := s.elements ++ (Leaf.raw tag body closing).elements toLowerCase i } := by
  obtain ⟨htag, hraw, -⟩ := hl
  obtain ⟨hmarkup, hread, hopen⟩ := readMarkup_tag hlower htag hcount h.left
  refine scans_markup h (by simp [Leaf.units, WrittenTag.units]) ?_
  have hisRaw : rawTextElements.contains (toLowerCase tag.name) = true := by
    rw [contains_lower hlower htag.1]
    exact hraw
  have hskip : skipRawText text toLowerCase (i + tag.units.length) (toLowerCase tag.name) =
      i + (Leaf.raw tag body closing).units.length := hends _ List.mem_cons_self hisRaw
  rw [hmarkup, readElement, hread]
  simp only [hopen, hisRaw, if_true, hskip]
  rfl

theorem scans_leaf (hlower : LowersAscii toLowerCase) {l : Leaf} (hl : l.Fits toLowerCase)
    (hends : ∀ e ∈ l.elements toLowerCase i, RawEnds text toLowerCase e)
    (hcount : s.elements.length + (l.elements toLowerCase i).length ≤ maxElements)
    (h : Stands text i l.units) :
    Scans (mainScan text toLowerCase) text.length i s (i + l.units.length)
      { s with elements := s.elements ++ l.elements toLowerCase i } := by
  have hsame : l.elements toLowerCase i = [] →
      ({ s with elements := s.elements ++ l.elements toLowerCase i } : ScanState) = s := by
    intro hnil
    rw [hnil, List.append_nil]
  cases l with
  | text units =>
    rw [hsame rfl]
    exact scans_text hl h
  | comment body =>
    rw [hsame rfl]
    exact scans_markup h (by simp [Leaf.units, ascii]) (readMarkup_comment hl h)
  | doctype body =>
    rw [hsame rfl]
    exact scans_markup h (by simp [Leaf.units, ascii]) (readMarkup_doctype hl.1 hl.2 h)
  | php content =>
    rw [hsame rfl]
    refine scans_markup h ?_ (readMarkup_php hl h)
    simp only [Leaf.units, block_length]
    omega
  | single tag => exact scans_single hlower hl hcount h
  | raw tag body closing => exact scans_raw hlower hl hends hcount h

/-! ## Forests -/

/-- A close tag closes the innermost open element when that has its name. -/
theorem closeElement_own {elements children : List PhpMarkupElement} {opened : List ℕ}
    {e : PhpMarkupElement} {endOffset : ℕ} :
    closeElement ⟨elements ++ e :: children, elements.length :: opened⟩ e.tag endOffset =
      ⟨elements ++ { e with endOffset := endOffset } :: children, opened⟩ := by
  have hmodify : ∀ f : PhpMarkupElement → PhpMarkupElement,
      (elements ++ e :: children).modify elements.length f = elements ++ f e :: children := by
    intro f
    induction elements with
    | nil => rfl
    | cons a elements ih =>
      rw [List.cons_append, List.length_cons, List.modify_succ_cons, ih]
      rfl
  simp [closeElement, hmodify]

theorem scans_forest (hlower : LowersAscii toLowerCase) {f : Forest} (hf : f.Fits toLowerCase)
    (hends : ∀ e ∈ f.elements toLowerCase i, RawEnds text toLowerCase e)
    (hdepth : s.opened.length + f.depth ≤ maxOpenDepth)
    (hcount : s.elements.length + (f.elements toLowerCase i).length ≤ maxElements)
    (h : Stands text i f.units) :
    Scans (mainScan text toLowerCase) text.length i s (i + f.units.length)
      { s with elements := s.elements ++ f.elements toLowerCase i } := by
  induction f generalizing i s with
  | nil =>
    have hsame : ({ s with elements := s.elements ++ [] } : ScanState) = s := by
      rw [List.append_nil]
    show Scans _ _ i s i { s with elements := s.elements ++ [] }
    rw [hsame]
    exact .refl _ _ _ _
  | leaf l rest ih =>
    have helements : (Forest.leaf l rest).elements toLowerCase i =
        l.elements toLowerCase i ++ rest.elements toLowerCase (i + l.units.length) := rfl
    rw [helements, List.length_append] at hcount
    rw [helements] at hends ⊢
    have hfirst := @scans_leaf text i toLowerCase s hlower l hf.1
      (fun e he => hends e (List.mem_append_left _ he)) (by omega) h.left
    have hlater := @ih (i + l.units.length)
      { s with elements := s.elements ++ l.elements toLowerCase i } hf.2
      (fun e he => hends e (List.mem_append_right _ he)) hdepth
      (by rw [List.length_append]; omega) h.right
    rw [List.append_assoc, Nat.add_assoc, ← List.length_append] at hlater
    exact hfirst.trans hlater
  | element tag children closing rest ihChildren ihRest =>
    obtain ⟨⟨htag, hraw, hvoid, hself, hcloses⟩, hchildren, hrest⟩ := hf
    -- the element as it is pushed, and what the whole of it adds
    let openEnd := i + tag.units.length
    let closed := openEnd + children.units.length + closing.units.length
    let e : PhpMarkupElement :=
      ⟨toLowerCase tag.name, tag.attributes toLowerCase, i, openEnd, openEnd⟩
    have helements : (Forest.element tag children closing rest).elements toLowerCase i =
        { e with endOffset := closed } :: (children.elements toLowerCase openEnd ++
          rest.elements toLowerCase closed) := rfl
    rw [helements, List.length_cons, List.length_append] at hcount
    rw [helements] at hends ⊢
    have hdepths : s.opened.length + (children.depth + 1) ≤ maxOpenDepth ∧
        s.opened.length + rest.depth ≤ maxOpenDepth := by
      simp only [Forest.depth] at hdepth
      omega
    obtain ⟨hmarkup, hread, hopen⟩ :=
      readMarkup_tag hlower htag (show s.elements.length < maxElements by omega) h.left
    have hisRaw : rawTextElements.contains (toLowerCase tag.name) = false := by
      rw [contains_lower hlower htag.1]
      exact hraw
    have hisVoid : voidElements.contains (toLowerCase tag.name) = false := by
      rw [contains_lower hlower htag.1]
      exact hvoid
    have hroom : s.opened.length < maxOpenDepth := by omega
    have hopened : Scans (mainScan text toLowerCase) text.length i s openEnd
        ⟨s.elements ++ [e], s.elements.length :: s.opened⟩ := by
      refine scans_markup h.left (by simp [openEnd, WrittenTag.units]) ?_
      rw [hmarkup, readElement, hread]
      simp only [hopen, hisRaw, hisVoid, hself, Bool.false_eq_true, if_false, Bool.or_self, hroom,
        if_true]
      rfl
    have hinner := @ihChildren openEnd ⟨s.elements ++ [e], s.elements.length :: s.opened⟩ hchildren
      (fun e he => hends e (List.mem_cons_of_mem _ (List.mem_append_left _ he)))
      (by rw [List.length_cons]; omega)
      (by rw [List.length_append, List.length_singleton]; omega) h.right.left
    have hclosing : Stands text (openEnd + children.units.length) closing.units :=
      h.right.right.left
    have hname : toLowerCase closing.name = e.tag := by
      show toLowerCase closing.name = toLowerCase tag.name
      rw [lower_name hlower hcloses.1.1, lower_name hlower htag.1.1, hcloses.2.1]
    have hclosed : Scans (mainScan text toLowerCase) text.length (openEnd + children.units.length)
        ⟨s.elements ++ [e] ++ children.elements toLowerCase openEnd,
          s.elements.length :: s.opened⟩ closed
        ⟨s.elements ++ { e with endOffset := closed } :: children.elements toLowerCase openEnd,
          s.opened⟩ := by
      refine scans_markup hclosing ?_ ?_
      · simp [closed, CloseTag.units, ascii]
      · rw [readMarkup_close hcloses hclosing, hname, List.append_assoc, List.singleton_append,
          closeElement_own]
    have hlater := @ihRest closed
      ⟨s.elements ++ { e with endOffset := closed } :: children.elements toLowerCase openEnd,
        s.opened⟩ hrest
      (fun e he => hends e (List.mem_cons_of_mem _ (List.mem_append_right _ he))) hdepths.2
      (by rw [List.length_append, List.length_cons]; omega) h.right.right.right
    have hlen : i + (Forest.element tag children closing rest).units.length =
        closed + rest.units.length := by
      simp only [Forest.units, List.length_append, closed, openEnd]
      omega
    rw [hlen]
    simp only [List.append_assoc, List.cons_append] at hlater
    exact ((hopened.trans hinner).trans hclosed).trans hlater

end PinOp.Php
