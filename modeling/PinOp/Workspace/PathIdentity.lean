import Mathlib.Data.List.Forall2
import PinOp.Lib.JoinedNames
import PinOp.Workspace.CanonicalUri

/-!
# Which files the workspace takes for one

The URI of a file names the directories of its path, with some characters escaped. Two URIs are
compared by what decoding shows of their names: the escapes of reserved characters stay, and what
looks like one counts as one.
-/

namespace PinOp.Workspace

open PinOp.Lib

/-! ## Printed paths -/

/-- A name of a path as a URI prints it. -/
abbrev PrintedName := List PrintedChar

/-- What the URL parser leaves as it is in a path. -/
def isRawChar (c : Char) : Bool := c.toNat < 128 && !(['%', '/', '\\', '?', '#'].contains c)

/-- Not empty and without slash, and what cannot stand in a path is escaped. -/
def WellPrinted (name : PrintedName) : Prop :=
  name ≠ [] ∧ ∀ t ∈ name, t.char ≠ '/' ∧ (t.escaped = false → isRawChar t.char = true)

instance (name : PrintedName) : Decidable (WellPrinted name) := inferInstanceAs (Decidable (_ ∧ _))

def slash : PrintedChar := ⟨'/', false⟩

/-- The characters of a path. -/
def pathChars (names : List PrintedName) : List PrintedChar :=
  if names = [] then [slash] else joinNames slash names

def pathText (names : List PrintedName) : List Char := (pathChars names).flatMap PrintedChar.text

/-- The URI is one of a file of a POSIX host: its path has these names, printed so. -/
def Denotes (host : UriHost) (uri : List Char) (names : List PrintedName) : Prop :=
  (∃ parsed, host.parse uri = some parsed ∧ parsed.protocol = fileProtocol ∧ parsed.host = [] ∧
    parsed.pathname = pathText names) ∧ ∀ name ∈ names, WellPrinted name

/-- The path itself. -/
def pathOf (names : List PrintedName) : List (List Char) :=
  names.map (List.map PrintedChar.char)

/-! ## How names are read -/

def shownName (name : PrintedName) : List Char := name.flatMap PrintedChar.shown

/-- The first directory is a letter and a colon, and there is more. -/
def isDrive (names : List PrintedName) : Bool :=
  match names.map shownName with
  | [c, ':'] :: _ :: _ => isAsciiLetter c
  | _ => false

def noBackslash (names : List PrintedName) : Bool :=
  names.all fun name => name.all fun t => t.char ≠ '\\'

/-- Names that are compared as equal, in a path with a drive or without one. Below a drive case does
not count; elsewhere the case of what looks like an escape does not. -/
def ReadAlike (lower : List Char → List Char) : Bool → Bool → PrintedName → PrintedName → Prop
  | true, true, n, m => lower (shownName n) = lower (shownName m)
  | false, false, n, m => parseEscapes (shownName n) = parseEscapes (shownName m)
  | true, false, n, m => lower (shownName n) = shownName m
  | false, true, _, _ => False

/-- What lower case leaves alone: digits and signs of ASCII. -/
def isMark (c : Char) : Bool := c.toNat < 128 && !isAsciiLetter c

def marks (text : List Char) : List Char := text.filter isMark

/-- What is known of `toLowerCase`. -/
structure LowerCasing (lower : List Char → List Char) : Prop where
  ascii : ∀ text, (∀ c ∈ text, c.toNat < 128) → lower text = text.map asciiLower
  caseless : ∀ text, lower (text.map asciiLower) = lower text
  /-- No character looks across a slash at its context. -/
  slash : ∀ s t, lower (s ++ '/' :: t) = lower s ++ '/' :: lower t
  marks : ∀ text, marks (lower text) = marks text

variable {host : UriHost} {lower : List Char → List Char} {names a b : List PrintedName}
  {name n m : PrintedName}

/-! ## Encoded separators -/

theorem hasEncoded_escapeByte {x : ℕ} (hx : x < 256) (rest : List Char) :
    hasEncodedPathSeparator (escapeByte x ++ rest) =
      ((x = 0x2f ∨ x = 0x5c) || hasEncodedPathSeparator rest) := by
  have hdigit : ∀ d < 16, upperHex d ≠ '%' := by decide
  have hplain : ∀ (c : Char) (rest : List Char), c ≠ '%' →
      hasEncodedPathSeparator (c :: rest) = hasEncodedPathSeparator rest := by
    intro c rest hc
    rw [hasEncodedPathSeparator]
    have hnot : isEncodedSeparator (c :: rest) = false := by
      unfold isEncodedSeparator
      split
      · rename_i heq
        cases heq
        exact absurd rfl hc
      · rename_i heq
        cases heq
        exact absurd rfl hc
      · rfl
    rw [hnot, Bool.false_or]
  have hstart : isEncodedSeparator (escapeByte x ++ rest) = decide (x = 0x2f ∨ x = 0x5c) := by
    have hread : ∀ c d : Char, isEncodedSeparator ('%' :: c :: d :: rest) =
        ((c = '2' && (d = 'f' || d = 'F')) || (c = '5' && (d = 'c' || d = 'C'))) := by
      intro c d
      unfold isEncodedSeparator
      split <;> simp_all
    have hall : ∀ h < 16, ∀ l < 16,
        ((upperHex h = '2' && (upperHex l = 'f' || upperHex l = 'F')) ||
          (upperHex h = '5' && (upperHex l = 'c' || upperHex l = 'C'))) =
        decide (16 * h + l = 0x2f ∨ 16 * h + l = 0x5c) := by decide
    show isEncodedSeparator ('%' :: upperHex (x / 16) :: upperHex (x % 16) :: rest) = _
    rw [hread, hall _ (by omega) _ (by omega), Nat.div_add_mod]
  show (isEncodedSeparator (escapeByte x ++ rest) ||
    hasEncodedPathSeparator (upperHex (x / 16) :: upperHex (x % 16) :: rest)) = _
  rw [hstart, hplain _ _ (hdigit _ (by omega)), hplain _ _ (hdigit _ (by omega))]

theorem hasEncoded_escapeChar (c : Char) (rest : List Char) :
    hasEncodedPathSeparator (escapeChar c ++ rest) =
      ((c = '/' ∨ c = '\\') || hasEncodedPathSeparator rest) := by
  have hall : ∀ bs : List ℕ, (∀ b ∈ bs, 0x80 ≤ b ∧ b < 256) →
      hasEncodedPathSeparator (bs.flatMap escapeByte ++ rest) = hasEncodedPathSeparator rest := by
    intro bs
    induction bs with
    | nil => exact fun _ => rfl
    | cons b bs ih =>
      intro h
      have hb := h b List.mem_cons_self
      rw [List.flatMap_cons, List.append_assoc, hasEncoded_escapeByte hb.2,
        ih fun b hb => h b (List.mem_cons_of_mem _ hb)]
      have hnot : ¬(b = 0x2f ∨ b = 0x5c) := by omega
      simp [hnot]
  by_cases hascii : c.toNat < 0x80
  · rw [escapeChar_ascii hascii, hasEncoded_escapeByte (by omega)]
    have hslash : c.toNat = 0x2f ↔ c = '/' := ⟨fun h => Char.toNat_inj.1 h, fun h => h ▸ rfl⟩
    have hback : c.toNat = 0x5c ↔ c = '\\' := ⟨fun h => Char.toNat_inj.1 h, fun h => h ▸ rfl⟩
    simp only [hslash, hback]
  · have hrange : c.toNat < 0x110000 := by
      rcases c.valid with h | h
      · exact Nat.lt_trans h (by decide)
      · exact h.2
    have hslash : ¬(c = '/' ∨ c = '\\') := by
      rintro (rfl | rfl)
      · exact hascii (by decide)
      · exact hascii (by decide)
    rw [escapeChar, hall]
    · simp [hslash]
    · intro b hb
      simp only [utf8Bytes, if_neg hascii] at hb
      split_ifs at hb <;> simp only [List.mem_cons, List.not_mem_nil, or_false] at hb <;> omega

theorem hasEncoded_text (t : PrintedChar) (hraw : t.escaped = false → isRawChar t.char = true)
    (rest : List Char) : hasEncodedPathSeparator (t.text ++ rest) =
      ((t.escaped && (t.char = '/' || t.char = '\\')) || hasEncodedPathSeparator rest) := by
  cases hescaped : t.escaped with
  | true =>
    rw [PrintedChar.text_escaped hescaped, hasEncoded_escapeChar]
    simp
  | false =>
    have hc : t.char ≠ '%' := by
      intro h
      have := hraw hescaped
      rw [h] at this
      exact absurd this (by decide)
    rw [PrintedChar.text_raw hescaped, List.singleton_append, hasEncodedPathSeparator]
    have hnot : isEncodedSeparator (t.char :: rest) = false := by
      unfold isEncodedSeparator
      split
      · rename_i heq
        exact absurd (List.cons.inj heq).1 hc
      · rename_i heq
        exact absurd (List.cons.inj heq).1 hc
      · rfl
    rw [hnot]
    rfl

/-! ## The characters of a path -/

theorem isRawChar_ne {c : Char} (h : isRawChar c = true) : c ≠ '%' ∧ c ≠ '\\' := by
  constructor <;> (rintro rfl; exact absurd h (by decide))

theorem mem_joinNames {t : PrintedChar} (h : t ∈ joinNames slash names) :
    t = slash ∨ ∃ name ∈ names, t ∈ name := by
  obtain ⟨name, hname, ht⟩ := List.mem_flatMap.1 h
  rcases List.mem_cons.1 ht with rfl | ht
  · exact .inl rfl
  · exact .inr ⟨name, hname, ht⟩

theorem pathChars_raw (h : ∀ name ∈ names, WellPrinted name) :
    ∀ t ∈ pathChars names, t.escaped = false → t.char ≠ '%' := by
  intro t ht hraw
  have hslash : slash.char ≠ '%' := by decide
  unfold pathChars at ht
  split at ht
  · rw [List.mem_singleton.1 ht]
    exact hslash
  · rcases mem_joinNames ht with rfl | ⟨name, hname, ht⟩
    · exact hslash
    · exact (isRawChar_ne (((h name hname).2 t ht).2 hraw)).1

/-- What is written for every character of joined names is the joined text. -/
theorem joinNames_flatMap (f : PrintedChar → List Char) (hf : f slash = ['/'])
    (names : List PrintedName) :
    (joinNames slash names).flatMap f = joinNames '/' (names.map fun name => name.flatMap f) := by
  induction names with
  | nil => rfl
  | cons name rest ih =>
    rw [joinNames_cons, List.flatMap_cons, List.flatMap_append, ih, hf, List.map_cons,
      joinNames_cons]
    rfl

def shownPath (names : List PrintedName) : List Char := joinNames '/' (names.map shownName)

theorem decode_pathText (h : ∀ name ∈ names, WellPrinted name) :
    decodeURI (pathText names) = some (if names = [] then ['/'] else shownPath names) := by
  rw [pathText, decodeURI_printed _ (pathChars_raw h)]
  unfold pathChars
  split
  · rfl
  · rw [joinNames_flatMap PrintedChar.shown rfl]
    rfl

theorem encoded_pathText (h : ∀ name ∈ names, WellPrinted name) :
    hasEncodedPathSeparator (pathText names) = !noBackslash names := by
  have hflat : ∀ ts : List PrintedChar, (∀ t ∈ ts, t = slash ∨ t.char ≠ '/' ∧
      (t.escaped = false → isRawChar t.char = true)) →
      hasEncodedPathSeparator (ts.flatMap PrintedChar.text) = ts.any fun t => t.char = '\\' := by
    intro ts
    induction ts with
    | nil => exact fun _ => rfl
    | cons t rest ih =>
      intro hts
      have hrest := ih fun t ht => hts t (List.mem_cons_of_mem _ ht)
      rw [List.flatMap_cons, List.any_cons, ← hrest]
      rcases hts t List.mem_cons_self with rfl | ⟨hslash, hraw⟩
      · rfl
      · rw [hasEncoded_text t hraw]
        cases hescaped : t.escaped with
        | true => simp [hslash]
        | false => simp [(isRawChar_ne (hraw hescaped)).2]
  rw [pathText, hflat]
  · unfold pathChars noBackslash
    split
    · rename_i hnil
      subst hnil
      rfl
    · have hjoin : ∀ names : List PrintedName,
          ((joinNames slash names).any fun t => t.char = '\\') =
            names.any fun name => name.any fun t => t.char = '\\' := by
        intro names
        induction names with
        | nil => rfl
        | cons name rest ih =>
          rw [joinNames_cons, List.any_cons, List.any_append, ih, List.any_cons]
          rfl
      rw [hjoin]
      simp [List.all_eq_not_any_not, Bool.not_not]
  · intro t ht
    unfold pathChars at ht
    split at ht
    · exact .inl (List.mem_singleton.1 ht)
    · rcases mem_joinNames ht with rfl | ⟨name, hname, ht⟩
      · exact .inl rfl
      · exact .inr ((h name hname).2 t ht)

/-! ## What is shown of a name -/

theorem shown_ne_nil (t : PrintedChar) : t.shown ≠ [] := by
  unfold PrintedChar.shown
  split
  · exact List.length_pos_iff.1 (escapeChar_length_pos t.char)
  · simp

/-- A kept escape has a percent sign and two digits. -/
theorem shown_kept {t : PrintedChar} (h : t.kept = true) :
    t.char.toNat < 128 ∧ t.shown = escapeByte t.char.toNat := by
  have hreserved : isUriReserved t.char = true := (Bool.and_eq_true_iff.1 h).2
  have hascii := reserved_ascii hreserved
  refine ⟨hascii, ?_⟩
  rw [PrintedChar.shown, if_pos h, escapeChar_ascii hascii]

theorem escapeByte_chars : ∀ x < 128, ∀ c ∈ escapeByte x, c ≠ '/' ∧ c ≠ '\\' := by
  have hall : ∀ x < 128, '/' ∉ escapeByte x ∧ '\\' ∉ escapeByte x := by decide
  intro x hx c hc
  obtain ⟨hslash, hback⟩ := hall x hx
  exact ⟨fun h => hslash (h ▸ hc), fun h => hback (h ▸ hc)⟩

theorem shown_chars {t : PrintedChar} (hslash : t.char ≠ '/') (hback : t.char ≠ '\\') :
    ∀ c ∈ t.shown, c ≠ '/' ∧ c ≠ '\\' := by
  intro c hc
  by_cases hkept : t.kept = true
  · obtain ⟨hascii, hshown⟩ := shown_kept hkept
    rw [hshown] at hc
    exact escapeByte_chars _ hascii c hc
  · rw [PrintedChar.shown, if_neg hkept, List.mem_singleton] at hc
    rw [hc]
    exact ⟨hslash, hback⟩

theorem slash_notMem_shownName (h : WellPrinted name) : '/' ∉ shownName name := by
  intro hmem
  obtain ⟨t, ht, hc⟩ := List.mem_flatMap.1 hmem
  by_cases hkept : t.kept = true
  · obtain ⟨hascii, hshown⟩ := shown_kept hkept
    rw [hshown] at hc
    exact (escapeByte_chars _ hascii _ hc).1 rfl
  · rw [PrintedChar.shown, if_neg hkept, List.mem_singleton] at hc
    exact (h.2 t ht).1 hc.symm

theorem shownName_ne_nil (h : WellPrinted name) : shownName name ≠ [] := by
  obtain ⟨t, rest, rfl⟩ := List.exists_cons_of_ne_nil h.1
  rw [shownName, List.flatMap_cons]
  exact fun hnil => shown_ne_nil t (List.append_eq_nil_iff.1 hnil).1

theorem backslash_notMem_shownPath (hw : ∀ name ∈ names, WellPrinted name)
    (h : noBackslash names = true) : '\\' ∉ shownPath names := by
  intro hmem
  obtain ⟨text, htext, hc⟩ := List.mem_flatMap.1 hmem
  obtain ⟨name, hname, rfl⟩ := List.mem_map.1 htext
  rcases List.mem_cons.1 hc with hc | hc
  · exact absurd hc (by decide)
  · obtain ⟨t, ht, hc⟩ := List.mem_flatMap.1 hc
    have hback : t.char ≠ '\\' := by
      have := List.all_eq_true.1 (List.all_eq_true.1 h name hname) t ht
      simpa using this
    exact (shown_chars ((hw name hname).2 t ht).1 hback _ hc).2 rfl

/-! ## The normal form -/

theorem dropTrailingSlashes_shownPath (hw : ∀ name ∈ names, WellPrinted name) (hne : names ≠ []) :
    dropTrailingSlashes (shownPath names) = shownPath names := by
  obtain ⟨front, name, rfl⟩ : ∃ front name, names = front ++ [name] :=
    ⟨names.dropLast, names.getLast hne, (List.dropLast_concat_getLast hne).symm⟩
  have hname := hw name (List.mem_append_right _ List.mem_cons_self)
  have hend : shownPath (front ++ [name]) = shownPath front ++ '/' :: shownName name := by
    simp [shownPath, joinNames]
  have hshown := shownName_ne_nil hname
  have hlast : (shownName name).getLast hshown ≠ '/' := fun h =>
    slash_notMem_shownName hname (h ▸ List.getLast_mem hshown)
  rw [hend, dropTrailingSlashes, ← List.dropLast_concat_getLast hshown, ← List.cons_append,
    ← List.append_assoc, List.reverse_append, List.reverse_singleton, List.singleton_append,
    List.dropWhile_cons_of_neg (by simpa using hlast), List.reverse_cons, List.reverse_reverse]

theorem startsWithDrive_shownPath (hw : ∀ name ∈ names, WellPrinted name) :
    startsWithDrive (shownPath names) = isDrive names := by
  have hnames : ∀ texts : List (List Char), (∀ text ∈ texts, '/' ∉ text ∧ text ≠ []) →
      startsWithDrive (joinNames '/' texts) =
        match texts with
        | [c, ':'] :: _ :: _ => isAsciiLetter c
        | _ => false := by
    intro texts htexts
    match texts, htexts with
    | [], _ => rfl
    | [] :: _, h => exact absurd rfl (h _ List.mem_cons_self).2
    | [c] :: [], _ => rfl
    | [c] :: second :: rest, _ => rfl
    | [c, d] :: [], _ => simp [joinNames, startsWithDrive]
    | [c, d] :: second :: rest, _ =>
      by_cases hd : d = ':'
      · subst hd
        rfl
      · simp [joinNames, startsWithDrive, hd]
    | (c :: d :: e :: more) :: rest, h =>
      have he : e ≠ '/' := fun he =>
        (h _ List.mem_cons_self).1 (he ▸ by simp)
      have hnot : ∀ l : List Char, startsWithDrive ('/' :: c :: d :: e :: l) = false := by
        intro l
        unfold startsWithDrive
        split
        · rename_i heq
          simp only [List.cons.injEq] at heq
          exact absurd heq.2.2.2.1 he
        · rfl
      rw [joinNames_cons]
      exact (hnot _).trans (by cases rest <;> simp)
  unfold shownPath isDrive
  refine hnames _ fun text htext => ?_
  obtain ⟨name, hname, rfl⟩ := List.mem_map.1 htext
  exact ⟨slash_notMem_shownName (hw name hname), shownName_ne_nil (hw name hname)⟩

/-- How a name's text is compared. -/
def reading (lower : List Char → List Char) (drive : Bool) (text : List Char) : List Char :=
  if drive then lower (upperEscapes text) else upperEscapes text

theorem LowerCasing.nil (h : LowerCasing lower) : lower [] = [] := h.ascii [] (by simp)

theorem upperEscapes_slash (s t : List Char) :
    upperEscapes (s ++ '/' :: t) = upperEscapes s ++ '/' :: upperEscapes t :=
  upperEscapes_append (by decide) (by decide) s t

theorem reading_slash (h : LowerCasing lower) (drive : Bool) (s t : List Char) :
    reading lower drive (s ++ '/' :: t) = reading lower drive s ++ '/' :: reading lower drive t :=
    by
  unfold reading
  rw [upperEscapes_slash]
  split
  · exact h.slash _ _
  · rfl

theorem reading_nil (h : LowerCasing lower) (drive : Bool) : reading lower drive [] = [] := by
  cases drive
  · rfl
  · exact h.nil

/-- The names as they are compared. -/
def readings (lower : List Char → List Char) (names : List PrintedName) : List (List Char) :=
  names.map fun name => reading lower (isDrive names) (shownName name)

theorem normalizedUri_eq (hl : LowerCasing host.toLowerCase) {uri : List Char}
    (h : Denotes host uri names) :
    normalizedUri host uri =
      if noBackslash names then
        some (host.toLowerCase fileProtocol ++ "//".toList ++
          joinNames '/' (readings host.toLowerCase names))
      else none := by
  obtain ⟨⟨parsed, hparse, hprotocol, hhost, hpathname⟩, hw⟩ := h
  unfold normalizedUri
  rw [hparse, Option.bind_some, hpathname, encoded_pathText hw, decode_pathText hw]
  cases hback : noBackslash names with
  | false => rfl
  | true =>
    simp only [Bool.not_true, Bool.false_eq_true, if_false, Option.map_some, if_true, hprotocol,
      hhost, hl.nil, List.append_nil, Option.some.injEq]
    congr 1
    by_cases hne : names = []
    · subst hne
      simp only [if_true]
      have hdrive : isWindowsFileUri parsed (['/'].map fun c => if c = '\\' then '/' else c) =
          false := by
        simp [isWindowsFileUri, hhost, startsWithDrive]
      rw [hdrive]
      rfl
    · rw [if_neg hne]
      have hsame : ((shownPath names).map fun c => if c = '\\' then '/' else c) = shownPath names :=
        by
        conv_rhs => rw [← List.map_id (shownPath names)]
        refine List.map_congr_left fun c hc => ?_
        have hnot : c ≠ '\\' := fun h => backslash_notMem_shownPath hw hback (h ▸ hc)
        exact if_neg hnot
      have hdrive : isWindowsFileUri parsed (shownPath names) = isDrive names := by
        simp [isWindowsFileUri, hprotocol, hhost, startsWithDrive_shownPath hw]
      rw [hsame, hdrive, dropTrailingSlashes_shownPath hw hne]
      have hread : (if isDrive names = true then host.toLowerCase (upperEscapes (shownPath names))
          else upperEscapes (shownPath names)) =
          reading host.toLowerCase (isDrive names) (shownPath names) := rfl
      rw [hread, shownPath, joinNames_map (reading_nil hl _) (reading_slash hl _), List.map_map]
      rfl

/-! ## Marks -/

theorem asciiLower_cases (c : Char) :
    asciiLower c = c ∨ isAsciiLetter c = true ∧ isAsciiLetter (asciiLower c) = true := by
  by_cases hc : c.toNat < 128
  · have hall : ∀ n < 128, asciiLower (Char.ofNat n) = Char.ofNat n ∨
        isAsciiLetter (Char.ofNat n) = true ∧
          isAsciiLetter (asciiLower (Char.ofNat n)) = true := by decide
    have := hall c.toNat hc
    rwa [Char.ofNat_toNat] at this
  · refine .inl (if_neg fun h => hc ?_)
    exact lt_of_le_of_lt (show c.toNat ≤ 90 from Char.le_def.1 h.2) (by decide)

theorem marks_asciiLower (text : List Char) : marks (text.map asciiLower) = marks text := by
  induction text with
  | nil => rfl
  | cons c rest ih =>
    rcases asciiLower_cases c with h | ⟨h, h'⟩
    · rw [List.map_cons, marks, marks, List.filter_cons, List.filter_cons, h]
      unfold marks at ih
      rw [ih]
    · have hnot : isMark c = false := by simp [isMark, h]
      have hnot' : isMark (asciiLower c) = false := by simp [isMark, h']
      rw [List.map_cons, marks, marks, List.filter_cons_of_neg (by simp [hnot']),
        List.filter_cons_of_neg (by simp [hnot])]
      exact ih

theorem marks_reading (hl : LowerCasing lower) (drive : Bool) (text : List Char) :
    marks (reading lower drive text) = marks text := by
  have hupper : marks (upperEscapes text) = marks text := by
    rw [← marks_asciiLower, upperEscapes_caseless, marks_asciiLower]
  unfold reading
  split
  · rw [hl.marks, hupper]
  · exact hupper

theorem slash_notMem_reading (hl : LowerCasing lower) (drive : Bool) (h : WellPrinted name) :
    '/' ∉ reading lower drive (shownName name) := by
  intro hmem
  have hmark : '/' ∈ marks (reading lower drive (shownName name)) :=
    List.mem_filter.2 ⟨hmem, by decide⟩
  rw [marks_reading hl] at hmark
  exact slash_notMem_shownName h (List.mem_filter.1 hmark).1

theorem slash_notMem_readings (hl : LowerCasing lower) (hw : ∀ name ∈ names, WellPrinted name) :
    ∀ text ∈ readings lower names, '/' ∉ text := by
  intro text htext
  obtain ⟨name, hname, rfl⟩ := List.mem_map.1 htext
  exact slash_notMem_reading hl _ (hw name hname)

/-! ## What the comparisons compare -/

theorem sameCanonicalUri_eq (hl : LowerCasing host.toLowerCase) {u v : List Char}
    (hu : Denotes host u a) (hv : Denotes host v b) :
    sameCanonicalUri host u v = true ↔ noBackslash a = true ∧ noBackslash b = true ∧
      readings host.toLowerCase a = readings host.toLowerCase b := by
  unfold sameCanonicalUri
  rw [normalizedUri_eq hl hu, normalizedUri_eq hl hv]
  cases noBackslash a <;> cases noBackslash b <;>
    simp [joinNames_inj (slash_notMem_readings hl hu.2) (slash_notMem_readings hl hv.2)]

theorem uriWithin_eq (hl : LowerCasing host.toLowerCase) {u v : List Char}
    (hu : Denotes host u a) (hv : Denotes host v b) :
    uriWithin host u v = true ↔ noBackslash a = true ∧ noBackslash b = true ∧
      readings host.toLowerCase b <+: readings host.toLowerCase a := by
  have hprefix := joinNames_prefix (slash_notMem_readings hl hu.2) (slash_notMem_readings hl hv.2)
  unfold uriWithin
  rw [normalizedUri_eq hl hu, normalizedUri_eq hl hv]
  cases noBackslash a <;> cases noBackslash b <;> try simp
  rw [← hprefix]

/-! ## One path printed in two ways -/

/-- The marks tell which escapes are kept. -/
theorem kept_of_marks : ∀ {n m : PrintedName}, n.map PrintedChar.char = m.map PrintedChar.char →
    marks (shownName n) = marks (shownName m) → n.map PrintedChar.kept = m.map PrintedChar.kept :=
    by
  intro n
  induction n with
  | nil =>
    intro m hchars _
    cases m with
    | nil => rfl
    | cons t m => cases hchars
  | cons t n ih =>
    intro m hchars hmarks
    cases m with
    | nil => cases hchars
    | cons t' m =>
      rw [List.map_cons, List.map_cons, List.cons.injEq] at hchars
      simp only [shownName, List.flatMap_cons, marks, List.filter_append] at hmarks
      have hhead : ∀ {x y : PrintedChar}, x.char = y.char → x.kept = true → y.kept = false →
          ∀ r r' : List Char, x.shown.filter isMark ++ r ≠ y.shown.filter isMark ++ r' := by
        intro x y hxy hx hy r r' heq
        have hreserved : isUriReserved y.char = true := hxy ▸ (Bool.and_eq_true_iff.1 hx).2
        have hyshown : y.shown = [y.char] := if_neg (by simp [hy])
        rw [(shown_kept hx).2, hyshown] at heq
        simp only [isUriReserved, List.contains_eq_mem, decide_eq_true_eq, List.mem_cons,
          List.not_mem_nil, or_false] at hreserved
        rcases hreserved with h | h | h | h | h | h | h | h | h | h | h <;>
          (rw [h] at heq; exact absurd (List.cons.inj heq).1 (by decide))
      have hkept : t.kept = t'.kept := by
        cases hk : t.kept <;> cases hk' : t'.kept
        · rfl
        · exact absurd hmarks.symm (hhead hchars.1.symm hk' hk _ _)
        · exact absurd hmarks (hhead hchars.1 hk hk' _ _)
        · rfl
      have hshown : t.shown = t'.shown := by
        rw [PrintedChar.shown, PrintedChar.shown, hkept, hchars.1]
      rw [hshown] at hmarks
      rw [List.map_cons, List.map_cons, hkept, ih hchars.2 (List.append_cancel_left hmarks)]

/-- The same characters with the same escapes kept show the same. -/
theorem shownName_congr : ∀ {n m : PrintedName}, n.map PrintedChar.char = m.map PrintedChar.char →
    n.map PrintedChar.kept = m.map PrintedChar.kept → shownName n = shownName m := by
  intro n
  induction n with
  | nil =>
    intro m hchars _
    cases m with
    | nil => rfl
    | cons t m => cases hchars
  | cons t n ih =>
    intro m hchars hkept
    cases m with
    | nil => cases hchars
    | cons t' m =>
      rw [List.map_cons, List.map_cons, List.cons.injEq] at hchars hkept
      have hshown : t.shown = t'.shown := by
        rw [PrintedChar.shown, PrintedChar.shown, hkept.1, hchars.1]
      rw [shownName, shownName, List.flatMap_cons, List.flatMap_cons, hshown]
      exact congrArg _ (ih hchars.2 hkept.2)

/-! ## Paths that are taken for one -/

/-- The names of the second path are read as the first ones of the first path. -/
def Confused (lower : List Char → List Char) (a b : List PrintedName) : Prop :=
  List.Forall₂ (ReadAlike lower (isDrive a) (isDrive b)) (a.take b.length) b

theorem isDrive_iff : isDrive names = true ↔ ∃ n n' more c, names = n :: n' :: more ∧
    shownName n = [c, ':'] ∧ isAsciiLetter c = true := by
  unfold isDrive
  constructor
  · intro h
    split at h
    · rename_i c second rest heq
      match names, heq with
      | n :: n' :: more, heq => exact ⟨n, n', more, c, rfl, (List.cons.inj heq).1, h⟩
      | [n], heq => cases (List.cons.inj heq).2
    · cases h
  · rintro ⟨n, n', more, c, rfl, hshown, h⟩
    rw [List.map_cons, List.map_cons, hshown]
    exact h

theorem upperEscapes_pair (x y : Char) : upperEscapes [x, y] = [x, y] := by
  rw [upperEscapes]
  · rw [upperEscapes]
    · rfl
    · exact fun _ _ _ _ h => by cases h
  · exact fun _ _ _ _ h => by cases h

theorem eq_pair_of_upperEscapes {text : List Char} {x y : Char} (h : upperEscapes text = [x, y]) :
    text = [x, y] := by
  have hlen := congrArg List.length (hexDigits_upperEscapes text)
  rw [h] at hlen
  obtain ⟨s, t, rfl⟩ : ∃ s t, text = [s, t] := List.length_eq_two.1 (by simpa using hlen.symm)
  rw [← h, upperEscapes_pair]

theorem lower_upperEscapes (hl : LowerCasing lower) (text : List Char) :
    lower (upperEscapes text) = lower text := by
  rw [← hl.caseless, upperEscapes_caseless, hl.caseless]

theorem isAsciiLetter_lt {c : Char} (h : isAsciiLetter c = true) : c.toNat < 128 := by
  simp only [isAsciiLetter, Bool.or_eq_true, Bool.and_eq_true, decide_eq_true_eq] at h
  rcases h with h | h
  · exact lt_of_le_of_lt (show c.toNat ≤ 122 from Char.le_def.1 h.2) (by decide)
  · exact lt_of_le_of_lt (show c.toNat ≤ 90 from Char.le_def.1 h.2) (by decide)

/-- A drive in lower case. -/
theorem lower_drive (hl : LowerCasing lower) {c : Char} (h : isAsciiLetter c = true) :
    lower [c, ':'] = [asciiLower c, ':'] ∧ isAsciiLetter (asciiLower c) = true := by
  constructor
  · rw [hl.ascii]
    · rfl
    · intro d hd
      rcases List.mem_cons.1 hd with rfl | hd
      · exact isAsciiLetter_lt h
      · rw [List.mem_singleton.1 hd]
        decide
  · rcases asciiLower_cases c with heq | heq
    · rw [heq]
      exact h
    · exact heq.2

theorem map_eq_map_iff_forall₂ {α β γ : Type} {f : α → γ} {g : β → γ} {xs : List α} {ys : List β} :
    xs.map f = ys.map g ↔ List.Forall₂ (fun x y => f x = g y) xs ys := by
  rw [← List.forall₂_map_right_iff (R := fun x z => f x = z), ← List.forall₂_map_left_iff (R := Eq),
    List.forall₂_eq_eq_eq]

theorem confused_iff (hl : LowerCasing lower) :
    Confused lower a b ↔ (readings lower a).take b.length = readings lower b := by
  unfold Confused readings
  rw [← List.map_take]
  cases hda : isDrive a with
  | false =>
    cases hdb : isDrive b with
    | false =>
      rw [map_eq_map_iff_forall₂]
      exact ⟨List.Forall₂.imp fun _ _ => upperEscapes_inj.2,
        List.Forall₂.imp fun _ _ => upperEscapes_inj.1⟩
    | true =>
      obtain ⟨n, n', more, c, rfl, hn, hc⟩ := isDrive_iff.1 hdb
      obtain ⟨hlower, hletter⟩ := lower_drive hl hc
      constructor
      · intro h
        obtain ⟨_, _, h, -, -⟩ := List.forall₂_cons_right_iff.1 h
        exact h.elim
      · -- the first path would have the drive as well
        intro h
        match a with
        | [] => cases h
        | [m] => cases (List.cons.inj h).2
        | m :: m' :: more' =>
          have hfirst : upperEscapes (shownName m) = lower (upperEscapes (shownName n)) :=
            (List.cons.inj h).1
          rw [hn, upperEscapes_pair, hlower] at hfirst
          have hdrive : isDrive (m :: m' :: more') = true :=
            isDrive_iff.2 ⟨_, _, _, _, rfl, eq_pair_of_upperEscapes hfirst, hletter⟩
          rw [hda] at hdrive
          cases hdrive
  | true =>
    obtain ⟨m, m', more, c, rfl, hm, hc⟩ := isDrive_iff.1 hda
    obtain ⟨hlower, hletter⟩ := lower_drive hl hc
    have hread : reading lower true (shownName m) = [asciiLower c, ':'] := by
      show lower (upperEscapes (shownName m)) = _
      rw [lower_upperEscapes hl, hm, hlower]
    cases hdb : isDrive b with
    | true =>
      rw [map_eq_map_iff_forall₂]
      have hiff : ∀ n k : PrintedName, lower (shownName n) = lower (shownName k) ↔
          reading lower true (shownName n) = reading lower true (shownName k) := by
        intro n k
        show _ ↔ lower (upperEscapes (shownName n)) = lower (upperEscapes (shownName k))
        rw [lower_upperEscapes hl, lower_upperEscapes hl]
      exact ⟨List.Forall₂.imp fun n k => (hiff n k).1, List.Forall₂.imp fun n k => (hiff n k).2⟩
    | false =>
      match b with
      | [] => exact ⟨fun _ => rfl, fun _ => .nil⟩
      | [n] =>
        show List.Forall₂ _ [m] [n] ↔
          [reading lower true (shownName m)] = [upperEscapes (shownName n)]
        rw [List.forall₂_cons, and_iff_left .nil, List.cons.injEq, and_iff_left rfl, hread]
        show lower (shownName m) = shownName n ↔ _
        rw [hm, hlower]
        constructor
        · intro h
          rw [← h, upperEscapes_pair]
        · intro h
          rw [eq_pair_of_upperEscapes h.symm]
      | n :: n' :: more' =>
        have hnot : shownName n ≠ [asciiLower c, ':'] := by
          intro h
          have hdrive : isDrive (n :: n' :: more') = true :=
            isDrive_iff.2 ⟨_, _, _, _, rfl, h, hletter⟩
          rw [hdb] at hdrive
          cases hdrive
        constructor
        · intro h
          obtain ⟨_, _, h, -, heq⟩ := List.forall₂_cons_right_iff.1 h
          rw [← (List.cons.inj heq).1] at h
          have h : lower (shownName m) = shownName n := h
          rw [hm, hlower] at h
          exact absurd h.symm hnot
        · intro h
          have hfirst : reading lower true (shownName m) = upperEscapes (shownName n) :=
            (List.cons.inj h).1
          rw [hread] at hfirst
          exact absurd (eq_pair_of_upperEscapes hfirst.symm) hnot

/-! ## When the comparison is exact -/

/-- Which characters of the names stay escapes. -/
def keptOf (names : List PrintedName) : List (List Bool) := names.map (List.map PrintedChar.kept)

/-- Nothing but a drive with a capital. -/
def isUpperDrive (names : List PrintedName) : Bool :=
  match names.map shownName with
  | [[c, ':']] => 'A' ≤ c && c ≤ 'Z'
  | _ => false

theorem asciiLower_eq_iff (c : Char) : asciiLower c = c ↔ ¬('A' ≤ c ∧ c ≤ 'Z') := by
  by_cases h : 'A' ≤ c ∧ c ≤ 'Z'
  · have hrange : c.toNat < 128 :=
      lt_of_le_of_lt (show c.toNat ≤ 90 from Char.le_def.1 h.2) (by decide)
    have hall : ∀ n < 128, 'A' ≤ Char.ofNat n ∧ Char.ofNat n ≤ 'Z' →
        asciiLower (Char.ofNat n) ≠ Char.ofNat n := by decide
    have hne := hall c.toNat hrange
    rw [Char.ofNat_toNat] at hne
    exact iff_of_false (hne h) (not_not_intro h)
  · exact iff_of_true (if_neg h) h

theorem shown_of_prefix (hpath : (pathOf a).take b.length = pathOf b)
    (hkept : keptOf (a.take b.length) = keptOf b) :
    (a.take b.length).map shownName = b.map shownName := by
  rw [pathOf, ← List.map_take, pathOf, map_eq_map_iff_forall₂] at hpath
  rw [keptOf, keptOf, map_eq_map_iff_forall₂] at hkept
  rw [map_eq_map_iff_forall₂]
  refine List.Forall₂.mp (Q := fun n m => n.map PrintedChar.kept = m.map PrintedChar.kept)
    (fun n m hk hc => shownName_congr hc hk) hkept hpath

/-- Names that are the same and keep the same escapes are read alike, but for a bare drive. -/
theorem confused_of_same_path (hl : LowerCasing lower) (hpath : (pathOf a).take b.length = pathOf b)
    (hkept : keptOf (a.take b.length) = keptOf b) :
    Confused lower a b ↔ ¬(isDrive a = true ∧ isUpperDrive b = true) := by
  have hshown := shown_of_prefix hpath hkept
  have hread : (readings lower a).take b.length =
      b.map fun name => reading lower (isDrive a) (shownName name) := by
    rw [readings, ← List.map_take]
    have hmap : ∀ names : List PrintedName,
        (names.map fun name => reading lower (isDrive a) (shownName name)) =
          (names.map shownName).map (reading lower (isDrive a)) := fun names => by
      rw [List.map_map]
      rfl
    rw [hmap, hmap, hshown]
  rw [confused_iff hl, hread, readings]
  cases hda : isDrive a with
  | false =>
    cases hdb : isDrive b with
    | false => simp
    | true =>
      obtain ⟨n, n', more, c, rfl, hn, hc⟩ := isDrive_iff.1 hdb
      match a with
      | [] => cases hshown
      | [m] => cases (List.cons.inj hshown).2
      | m :: m' :: more' =>
        have hdrive : isDrive (m :: m' :: more') = true :=
          isDrive_iff.2 ⟨_, _, _, c, rfl, (List.cons.inj hshown).1.trans hn, hc⟩
        rw [hda] at hdrive
        cases hdrive
  | true =>
    obtain ⟨m, m', more, c, rfl, hm, hc⟩ := isDrive_iff.1 hda
    obtain ⟨hlower, -⟩ := lower_drive hl hc
    cases hdb : isDrive b with
    | true =>
      obtain ⟨n, n', more', d, rfl, -, -⟩ := isDrive_iff.1 hdb
      simp [isUpperDrive]
    | false =>
      match b with
      | [] => simp [isUpperDrive]
      | [n] =>
        have hn : shownName n = [c, ':'] := (List.cons.inj hshown).1.symm.trans hm
        have hupper : isUpperDrive [n] = true ↔ 'A' ≤ c ∧ c ≤ 'Z' := by
          rw [isUpperDrive, List.map_cons, List.map_nil, hn]
          exact Bool.and_eq_true_iff.trans (and_congr decide_eq_true_iff decide_eq_true_iff)
        simp only [List.map_cons, List.map_nil, List.cons.injEq, and_true, true_and, hn, hupper,
          reading, if_true, Bool.false_eq_true, if_false, upperEscapes_pair, hlower]
        exact asciiLower_eq_iff c
      | n :: n' :: more' =>
        have hdrive : isDrive (n :: n' :: more') = true :=
          isDrive_iff.2 ⟨_, _, _, c, rfl, (List.cons.inj hshown).1.symm.trans hm, hc⟩
        rw [hdb] at hdrive
        cases hdrive

end PinOp.Workspace
