import PinOp.Php.MarkupRuns

/-!
# The tree that is written

What is parsed of a written forest is the forest, exactly where the search for the close tag of each
raw element ends behind its own. The search looks in a copy in lower case for the beginning of the
tag: it can be led astray by a character whose lower case is longer, which moves what follows in the
copy, and by raw text with a longer name in it.
-/

namespace PinOp.Php

open PinOp.Lib

variable {text us needle : List ℕ} {i j u : ℕ} {toLowerCase : List ℕ → List ℕ} {s t : ScanState}

/-! ## Documents -/

/-- A forest and, at the end, a block that is not closed. -/
def document (f : Forest) (last : Option (List ℕ)) : List ℕ :=
  f.units ++ last.elim [] fun content => ascii "<?" ++ content

theorem skipPhpBlock_last {c : List ℕ} (hc : NoClose c) (h : text.drop i = ascii "<?" ++ c) :
    skipPhpBlock text i = text.length := by
  have hdrop : text.drop (i + 2) = c := by
    rw [← List.drop_drop, h]
    rfl
  rw [skipPhpBlock, indexOf, hdrop, findIn_none (by decide) hc]
  rfl

/-- The scan of a document whose raw elements end where they should. -/
theorem scan_document (hlower : LowersAscii toLowerCase) {f : Forest} {last : Option (List ℕ)}
    (hf : f.Fits toLowerCase) (hlast : ∀ c ∈ last, NoClose c) (hdepth : f.depth ≤ maxOpenDepth)
    (hcount : (f.elements toLowerCase 0).length ≤ maxElements)
    (hends : ∀ e ∈ f.elements toLowerCase 0, RawEnds (document f last) toLowerCase e) :
    scan (document f last) toLowerCase (document f last).length 0 ⟨[], []⟩ =
      ⟨f.elements toLowerCase 0, false⟩ := by
  have hstands : Stands (document f last) 0 f.units := List.prefix_append _ _
  have hforest := @scans_forest (document f last) 0 toLowerCase ⟨[], []⟩ hlower f hf hends
    (by simpa using hdepth) (by simpa using hcount) hstands
  rw [List.nil_append, Nat.zero_add] at hforest
  have hend : ∀ rounds, scan (document f last) toLowerCase rounds (document f last).length
      ⟨f.elements toLowerCase 0, []⟩ = ⟨f.elements toLowerCase 0, false⟩ := by
    intro rounds
    cases rounds with
    | zero => rfl
    | succ rounds => rw [scan, step, indexOf_beyond (Nat.le_refl _)]
  refine hforest.answer (fun rounds hrounds => ?_)
    (Nat.le_refl _)
  cases last with
  | none =>
    have hlen : (document f none).length = f.units.length := by simp [document]
    rw [← hlen]
    exact hend rounds
  | some c =>
    have hdrop : (document f (some c)).drop f.units.length = ascii "<?" ++ c := by
      rw [document, List.drop_left]
      rfl
    have hblock : Stands (document f (some c)) f.units.length (0x3c :: (0x3f :: c)) := by
      rw [Stands, hdrop]
      exact List.prefix_refl _
    have hopens : startsWith (document f (some c)) f.units.length (ascii "<?") = true := by
      rw [startsWith, hdrop]
      exact List.isPrefixOf_iff_prefix.2 (List.prefix_append _ _)
    have hgoes : readMarkup (document f (some c)) toLowerCase f.units.length
        ⟨f.elements toLowerCase 0, []⟩ =
          .goes (document f (some c)).length ⟨f.elements toLowerCase 0, []⟩ := by
      rw [readMarkup, if_pos hopens, skipPhpBlock_last (hlast c rfl) hdrop]
    have hlt : f.units.length < (document f (some c)).length := startsWith_lt (by decide) hopens
    exact (scans_markup hblock hlt hgoes).answer (fun rounds _ => hend rounds) hrounds

/-! ## Where the search goes right -/

/-- The lower case of the text has its units in their places, and no letter of a raw name comes from
a unit that is not ASCII. -/
def KeepsPlaces (text lowered : List ℕ) : Prop :=
  lowered.length = text.length ∧ ∀ j u v : ℕ, text[j]? = some u → lowered[j]? = some v →
    (u < 128 → v = asciiLower u) ∧ (128 ≤ u → 128 ≤ v ∨ v = 0x6b)

/-- No close tag begins in the raw text, not even one of a longer name. -/
def Leaf.Plain : Leaf → Prop
  | .raw tag body _ => ¬(ascii "</" ++ tag.name.map asciiLower) <:+: body.map asciiLower
  | _ => True

instance : (l : Leaf) → Decidable l.Plain
  | .raw _ _ _ => inferInstanceAs (Decidable (¬_))
  | .text _ => isTrue trivial
  | .comment _ => isTrue trivial
  | .doctype _ => isTrue trivial
  | .php _ => isTrue trivial
  | .single _ => isTrue trivial

def Forest.Plain : Forest → Prop
  | .nil => True
  | .leaf l rest => l.Plain ∧ rest.Plain
  | .element _ children _ rest => children.Plain ∧ rest.Plain

instance Forest.instDecidablePlain : (f : Forest) → Decidable f.Plain
  | .nil => isTrue trivial
  | .leaf _ rest =>
    have := instDecidablePlain rest
    inferInstanceAs (Decidable (_ ∧ _))
  | .element _ children _ rest =>
    have := instDecidablePlain children
    have := instDecidablePlain rest
    inferInstanceAs (Decidable (_ ∧ _))

/-- Units of ASCII stand in the lower case where they stand in the text. -/
theorem KeepsPlaces.stands {lowered : List ℕ} (hkeeps : KeepsPlaces text lowered)
    (hus : ∀ u ∈ us, u < 128) (h : Stands text i us) : Stands lowered i (us.map asciiLower) := by
  rw [Stands, List.prefix_iff_getElem?]
  intro k hk
  rw [List.length_map] at hk
  have hunit : text[i + k]? = some us[k] := by
    rw [h.get hk, List.getElem?_eq_getElem hk]
  have hlt : i + k < lowered.length := hkeeps.1 ▸ (List.getElem?_eq_some_iff.1 hunit).1
  have hlow : lowered[i + k]? = some lowered[i + k] := List.getElem?_eq_getElem hlt
  have hsame := (hkeeps.2 (i + k) us[k] _ hunit hlow).1 (hus _ (List.getElem_mem hk))
  rw [List.getElem?_drop, hlow, hsame, List.getElem_map]

/-- What is searched for: letters of raw names come from ASCII only, and `<` stands in front. -/
theorem raw_needle {name : List ℕ} (h : isRaw name = true) :
    (∀ v ∈ ascii "</" ++ name.map asciiLower, v < 128 ∧ v ≠ 0x6b) ∧
      ∀ v ∈ (ascii "</" ++ name.map asciiLower).tail, v ≠ 0x3c := by
  have hall : ∀ tag ∈ rawTextElements, (∀ v ∈ ascii "</" ++ tag, v < 128 ∧ v ≠ 0x6b) ∧
      ∀ v ∈ (ascii "</" ++ tag).tail, v ≠ 0x3c := by decide
  exact hall _ (List.contains_iff_mem.1 h)

theorem indexOf_close {lowered name body : List ℕ} {closing : CloseTag}
    (hkeeps : KeepsPlaces text lowered) (hraw : isRaw name = true) (hcloses : closing.Closes name)
    (hplain : ¬(ascii "</" ++ name.map asciiLower) <:+: body.map asciiLower)
    (h : Stands text i (body ++ closing.units)) :
    indexOf lowered (ascii "</" ++ name.map asciiLower) i = some (i + body.length) := by
  obtain ⟨hneedle, htail⟩ := raw_needle hraw
  obtain ⟨⟨hname, -⟩, hsame, -⟩ := hcloses
  have hclosing : Stands text (i + body.length) (ascii "</" ++ closing.name) := by
    have : closing.units = (ascii "</" ++ closing.name) ++ (closing.tail.units ++ [0x3e]) := by
      rw [CloseTag.units, List.append_assoc]
    have hright := h.right
    rw [this] at hright
    exact hright.left
  have hlowered : Stands lowered (i + body.length) (ascii "</" ++ name.map asciiLower) := by
    have hascii : ∀ u ∈ ascii "</" ++ closing.name, u < 128 := by
      intro u hu
      rcases List.mem_append.1 hu with hu | hu
      · have : ∀ u ∈ ascii "</", u < 128 := by decide
        exact this u hu
      · exact isTagNameCharacter_lt (hname u hu)
    have hstands := hkeeps.stands hascii hclosing
    rw [List.map_append, hsame] at hstands
    exact hstands
  have hsplit : lowered.drop i =
      (lowered.drop i).take body.length ++ lowered.drop (i + body.length) := by
    rw [← List.drop_drop, List.take_append_drop]
  have hlen : ((lowered.drop i).take body.length).length = body.length := by
    have hle := h.stop_le (by simp [CloseTag.units])
    rw [List.length_append] at hle
    rw [List.length_take, List.length_drop, hkeeps.1]
    omega
  have hfind := @findIn_append (ascii "</" ++ name.map asciiLower)
    ((lowered.drop i).take body.length) (lowered.drop (i + body.length)) ?_ hlowered
  · rw [indexOf, hsplit, hfind, hlen]
    rfl
  intro a d hcd hd hstands
  have hposition : a.length < body.length := by
    rw [← hlen, hcd, List.length_append]
    have := List.length_pos_iff.2 hd
    omega
  have hhere : Stands lowered (i + a.length) (ascii "</" ++ name.map asciiLower) := by
    rw [Stands, ← List.drop_drop, hsplit, hcd, List.append_assoc, List.drop_left]
    exact hstands
  generalize hneedleEq : ascii "</" ++ name.map asciiLower = needle at *
  rcases Nat.lt_or_ge body.length (a.length + needle.length) with hover | hwithin
  · -- the needle would run over the `<` of the close tag
    have hbegin : lowered[i + body.length]? = some 0x3c := by
      rw [← hneedleEq] at hlowered
      exact hlowered.head
    have hget := hhere.get (show body.length - a.length < needle.length by omega)
    rw [show i + a.length + (body.length - a.length) = i + body.length by omega, hbegin] at hget
    refine htail 0x3c ?_ rfl
    refine @List.mem_of_getElem? _ needle.tail (body.length - a.length - 1) 0x3c ?_
    rw [List.getElem?_tail, show body.length - a.length - 1 + 1 = body.length - a.length by omega,
      ← hget]
  · -- the needle would stand in the body
    refine hplain ((List.IsPrefix.isInfix ?_).trans (List.drop_suffix a.length _).isInfix)
    rw [List.prefix_iff_getElem?]
    intro k hk
    have hlow : lowered[i + (a.length + k)]? = some needle[k] := by
      rw [← Nat.add_assoc, hhere.get hk, List.getElem?_eq_getElem hk]
    have hbody : a.length + k < body.length := by omega
    have hunit : text[i + (a.length + k)]? = some body[a.length + k] := by
      rw [h.left.get hbody, List.getElem?_eq_getElem hbody]
    obtain ⟨hbelow, habove⟩ := hkeeps.2 _ _ _ hunit hlow
    obtain ⟨hascii, hk'⟩ := hneedle _ (List.getElem_mem hk)
    have hlt : body[a.length + k] < 128 := by
      refine Nat.lt_of_not_le fun hge => ?_
      rcases habove hge with hge | hge
      · omega
      · exact hk' hge
    rw [List.getElem?_drop, List.getElem?_map, List.getElem?_eq_getElem hbody, hbelow hlt]
    rfl

/-- A raw element of plain text ends where the search does. -/
theorem rawEnds_plain (hlower : LowersAscii toLowerCase)
    (hkeeps : KeepsPlaces text (toLowerCase text)) {l : Leaf} (hl : l.Fits toLowerCase)
    (hplain : l.Plain) (h : Stands text i l.units) :
    ∀ e ∈ l.elements toLowerCase i, RawEnds text toLowerCase e := by
  intro e he
  cases l with
  | single tag =>
    rw [List.mem_singleton.1 he]
    intro hisRaw
    have hisRaw : rawTextElements.contains (toLowerCase tag.name) = true := hisRaw
    rw [contains_lower hlower hl.1.1] at hisRaw
    exact absurd (hl.2.1.symm.trans hisRaw) (by decide)
  | raw tag body closing =>
    obtain ⟨htag, hraw, hcloses, -⟩ := hl
    rw [List.mem_singleton.1 he]
    intro _
    have hbody : Stands text (i + tag.units.length) (body ++ closing.units) := h.right
    have hindex := indexOf_close hkeeps hraw hcloses hplain hbody
    have hname : closing.name.length = tag.name.length := by
      have := congrArg List.length hcloses.2.1
      rwa [List.length_map, List.length_map] at this
    have hclosing : Stands text (i + tag.units.length + body.length)
        ((ascii "</" ++ closing.name) ++ (closing.tail.units ++ [0x3e])) := by
      have := hbody.right
      rwa [CloseTag.units, ← List.append_assoc] at this
    have hend := skipToTagEnd_mixed hcloses.2.2.1 hclosing.right
    show skipRawText text toLowerCase (i + tag.units.length) (toLowerCase tag.name) =
      i + (tag.units ++ (body ++ closing.units)).length
    rw [lower_name hlower htag.1.1, skipRawText, hindex]
    show skipToTagEnd text (i + tag.units.length + body.length +
      (ascii "</" ++ tag.name.map asciiLower).length) = _
    have hneedle : (ascii "</" ++ tag.name.map asciiLower).length =
        (ascii "</" ++ closing.name).length := by
      rw [List.length_append, List.length_append, List.length_map, hname]
    rw [hneedle, hend]
    simp only [CloseTag.units, List.length_append, List.length_singleton]
    omega
  | text units => cases he
  | comment body => cases he
  | doctype body => cases he
  | php content => cases he

theorem Forest.rawEnds (hlower : LowersAscii toLowerCase)
    (hkeeps : KeepsPlaces text (toLowerCase text)) {f : Forest} (hf : f.Fits toLowerCase)
    (hplain : f.Plain) (h : Stands text i f.units) :
    ∀ e ∈ f.elements toLowerCase i, RawEnds text toLowerCase e := by
  induction f generalizing i with
  | nil =>
    intro e he
    cases he
  | leaf l rest ih =>
    intro e he
    rcases List.mem_append.1 he with he | he
    · exact rawEnds_plain hlower hkeeps hf.1 hplain.1 h.left e he
    · exact ih hf.2 hplain.2 h.right e he
  | element tag children closing rest ihChildren ihRest =>
    obtain ⟨⟨htag, hraw, -⟩, hchildren, hrest⟩ := hf
    have hlater : Stands text (i + tag.units.length + children.units.length + closing.units.length)
        rest.units := h.right.right.right
    intro e he
    rcases List.mem_cons.1 he with rfl | he
    · intro hisRaw
      have hisRaw : rawTextElements.contains (toLowerCase tag.name) = true := hisRaw
      rw [contains_lower hlower htag.1] at hisRaw
      exact absurd (hraw.symm.trans hisRaw) (by decide)
    · rcases List.mem_append.1 he with he | he
      · exact ihChildren hchildren hplain.1 h.right.left e he
      · exact ihRest hrest hplain.2 hlater e he

/-! ## The result -/

/-- No loop within a round needs more rounds than there are units left. -/
def InnerLoopsEnd (text : List ℕ) (toLowerCase : List ℕ → List ℕ) : Prop :=
  Settles (fun rounds i (_ : Unit) => skipToTagEndFrom text rounds i) text.length ∧
    (∀ quote, Settles (fun rounds i (s : List ℕ × Bool) => readValueFrom text quote rounds i s.1 s.2)
      text.length) ∧
    Settles (tagScan text toLowerCase) text.length

/-- The scan of a text that is not too long ends with one result, and its elements are in order. -/
theorem parsePhpMarkup_ends (hlower : LowersAscii toLowerCase) (hsize : text.length ≤ maxBytes) :
    ∃ r, parsePhpMarkup text toLowerCase = some r ∧
      (∀ r', Finishes text toLowerCase 0 ⟨[], []⟩ r' ↔ r' = r) ∧
      ∀ e ∈ r.elements, (e.startOffset < e.openEndOffset ∧ e.openEndOffset ≤ e.endOffset ∧
        e.endOffset ≤ text.length) ∧ RawEnds text toLowerCase e := by
  obtain ⟨hfinishes, k, t, hsound, helements⟩ := scan_finishes hlower text.length
    (Nat.sub_le text.length 0) (sound_start text toLowerCase)
  refine ⟨_, if_neg (Nat.not_lt.2 hsize), fun r' => ⟨fun h => h.unique hfinishes, ?_⟩,
    fun e he => ?_⟩
  · rintro rfl
    exact hfinishes
  · rw [helements] at he
    have hordered := hsound.ordered e he
    have hwithin := hsound.within
    exact ⟨⟨hordered.1, hordered.2.1, by omega⟩, hsound.raw e he⟩

/-- A written forest is read as it is written, exactly where the search for the close tag of each of
its raw elements ends where the element does; it does so where the lower case keeps the places and
no raw text has the beginning of its close tag in it. The scan of any text ends, and the places of
its elements are in order. -/
theorem parsePhpMarkup_written (hlower : LowersAscii toLowerCase) :
    (∀ (f : Forest) (last : Option (List ℕ)), f.Fits toLowerCase → (∀ c ∈ last, NoClose c) →
      f.depth ≤ maxOpenDepth → (f.elements toLowerCase 0).length ≤ maxElements →
      (document f last).length ≤ maxBytes →
        (parsePhpMarkup (document f last) toLowerCase = some ⟨f.elements toLowerCase 0, false⟩ ↔
          ∀ e ∈ f.elements toLowerCase 0, RawEnds (document f last) toLowerCase e) ∧
        (KeepsPlaces (document f last) (toLowerCase (document f last)) → f.Plain →
          ∀ e ∈ f.elements toLowerCase 0, RawEnds (document f last) toLowerCase e)) ∧
    ∀ text : List ℕ, InnerLoopsEnd text toLowerCase ∧
      (maxBytes < text.length → parsePhpMarkup text toLowerCase = none) ∧
      (text.length ≤ maxBytes → ∃ r, parsePhpMarkup text toLowerCase = some r ∧
        (∀ r', Finishes text toLowerCase 0 ⟨[], []⟩ r' ↔ r' = r) ∧
        ∀ e ∈ r.elements, e.startOffset < e.openEndOffset ∧ e.openEndOffset ≤ e.endOffset ∧
          e.endOffset ≤ text.length) := by
  refine ⟨fun f last hf hlast hdepth hcount hsize => ⟨⟨fun hparse => ?_, fun hends => ?_⟩,
    fun hkeeps hplain => ?_⟩, fun text => ⟨?_, fun hlong => if_pos hlong, fun hsize => ?_⟩⟩
  · obtain ⟨r, hr, -, hall⟩ := parsePhpMarkup_ends hlower hsize
    rw [hparse] at hr
    obtain rfl := Option.some.inj hr
    exact fun e he => (hall e he).2
  · rw [parsePhpMarkup, if_neg (Nat.not_lt.2 hsize),
      scan_document hlower hf hlast hdepth hcount hends]
  · exact Forest.rawEnds hlower hkeeps hf hplain (List.prefix_append _ _)
  · exact ⟨settles_skipToTagEnd text, settles_value text, settles_openTag text toLowerCase⟩
  · obtain ⟨r, hr, hfinishes, hall⟩ := parsePhpMarkup_ends hlower hsize
    exact ⟨r, hr, hfinishes, fun e he => (hall e he).1⟩

/-! ## Three documents -/

theorem keepsPlaces_map (text : List ℕ) : KeepsPlaces text (text.map asciiLower) := by
  refine ⟨List.length_map _, fun j u v hu hv => ?_⟩
  rw [List.getElem?_map, hu] at hv
  have hv : asciiLower u = v := Option.some.inj hv
  refine ⟨fun _ => hv.symm, fun hlarge => .inl ?_⟩
  rw [← hv, asciiLower, if_neg (by omega)]
  exact hlarge

/-- A bare tag. -/
def plainTag (name : String) : WrittenTag := ⟨ascii name, [], [], false⟩

def plainClose (name : String) : CloseTag := ⟨ascii name, ⟨[], []⟩⟩

/-- `<p id='x<?y?>'><Script>z</script></p>` -/
def sampleForest : Forest :=
  .element
    ⟨ascii "p", [(ascii " ", .named (ascii "id")
      (some ⟨[], [], .quoted 0x27 ⟨ascii "x", [(ascii "y", [])]⟩⟩))], [], false⟩
    (.leaf (.raw (plainTag "Script") (ascii "z") (plainClose "script")) .nil) (plainClose "p") .nil

theorem parsePhpMarkup_written_sample :
    parsePhpMarkup (ascii "<p id='x<?y?>'><Script>z</script></p>") (List.map asciiLower) =
      some ⟨[⟨ascii "p", [⟨ascii "id", ascii "x", true⟩], 0, 15, 37⟩,
        ⟨ascii "script", [], 15, 23, 33⟩], false⟩ := by
  obtain ⟨hiff, hplain⟩ := (parsePhpMarkup_written lowersAscii_map).1 sampleForest none (by decide)
    (fun _ h => by cases h) (by decide) (by decide) (by decide)
  exact hiff.2 (hplain (keepsPlaces_map _) (by decide))

/-- The lower case of a letter with a dot above is two units long. -/
def lowerDotted (text : List ℕ) : List ℕ :=
  text.flatMap fun u => if u = 0x130 then [0x69, 0x307] else [asciiLower u]

theorem lowersAscii_dotted : LowersAscii lowerDotted := by
  intro text htext
  induction text with
  | nil => rfl
  | cons u text ih =>
    have hu : u ≠ 0x130 := by
      have := htext u List.mem_cons_self
      omega
    have hrest := ih fun v hv => htext v (List.mem_cons_of_mem _ hv)
    rw [lowerDotted] at hrest ⊢
    rw [List.flatMap_cons, if_neg hu, hrest]
    rfl

/-- `<script></script><p></p>` behind such a letter -/
def dottedForest : Forest :=
  .leaf (.text [0x130]) (.leaf (.raw (plainTag "script") [] (plainClose "script"))
    (.element (plainTag "p") .nil (plainClose "p") .nil))

/-- `<script></scripts></script>` -/
def longerForest : Forest :=
  .leaf (.raw (plainTag "script") (ascii "</scripts>") (plainClose "script")) .nil

/-- The letter moves what follows in the copy: the end of the script is taken for that of the next
tag, whose element is lost. And a longer name in the raw text is taken for the close tag. -/
theorem close_tag_mistaken :
    (LowersAscii lowerDotted ∧ dottedForest.Fits lowerDotted ∧
      dottedForest.elements lowerDotted 0 =
        [⟨ascii "script", [], 1, 9, 18⟩, ⟨ascii "p", [], 18, 21, 25⟩] ∧
      parsePhpMarkup (document dottedForest none) lowerDotted =
        some ⟨[⟨ascii "script", [], 1, 9, 21⟩], false⟩) ∧
    LowersAscii (List.map asciiLower) ∧ longerForest.Fits (List.map asciiLower) ∧
      longerForest.elements (List.map asciiLower) 0 = [⟨ascii "script", [], 0, 8, 27⟩] ∧
      parsePhpMarkup (document longerForest none) (List.map asciiLower) =
        some ⟨[⟨ascii "script", [], 0, 8, 18⟩], false⟩ :=
  ⟨⟨lowersAscii_dotted, by decide, by decide, by decide⟩, lowersAscii_map, by decide, by decide,
    by decide⟩

end PinOp.Php
