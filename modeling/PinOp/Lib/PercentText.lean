import Mathlib.Data.List.Basic
import Mathlib.Data.List.TakeWhile

/-!
# Percent escapes

`escapeChar` writes a character as the escapes of its UTF-8 bytes; `decodeURI` is the function of
that name, which keeps the escapes of the characters that a URI reserves. `upperEscapes` writes
escapes in upper case; `parseEscapes` reads a text as characters and escapes, and two texts are the
same up to the case of their escapes when they are read the same.
-/

namespace PinOp.Lib

/-! ## Bytes -/

def upperHex (d : ℕ) : Char := Char.ofNat (if d < 10 then 48 + d else 55 + d)

def hexDigitOf (c : Char) : Option ℕ :=
  if '0' ≤ c ∧ c ≤ '9' then some (c.toNat - 48)
  else if 'A' ≤ c ∧ c ≤ 'F' then some (c.toNat - 55)
  else if 'a' ≤ c ∧ c ≤ 'f' then some (c.toNat - 87)
  else none

def byteOf (high low : Char) : Option ℕ :=
  (hexDigitOf high).bind fun h => (hexDigitOf low).map fun l => 16 * h + l

def escapeByte (b : ℕ) : List Char := ['%', upperHex (b / 16), upperHex (b % 16)]

def utf8Bytes (c : Char) : List ℕ :=
  let n := c.toNat
  if n < 0x80 then [n]
  else if n < 0x800 then [0xc0 + n / 64, 0x80 + n % 64]
  else if n < 0x10000 then [0xe0 + n / 4096, 0x80 + n / 64 % 64, 0x80 + n % 64]
  else [0xf0 + n / 262144, 0x80 + n / 4096 % 64, 0x80 + n / 64 % 64, 0x80 + n % 64]

def escapeChar (c : Char) : List Char := (utf8Bytes c).flatMap escapeByte

theorem hexDigitOf_upperHex {d : ℕ} (h : d < 16) : hexDigitOf (upperHex d) = some d := by
  revert d
  decide

theorem byteOf_upperHex {b : ℕ} (h : b < 256) : byteOf (upperHex (b / 16)) (upperHex (b % 16)) =
    some b := by
  rw [byteOf, hexDigitOf_upperHex (by omega), hexDigitOf_upperHex (by omega)]
  simp only [Option.bind_some, Option.map_some]
  congr
  omega

/-! ## `decodeURI` -/

def isUriReserved (c : Char) : Bool :=
  [';', '/', '?', ':', '@', '&', '=', '+', '$', ',', '#'].contains c

/-- `count` bytes that go on with a character, and what is left. -/
def continuation : ℕ → List Char → Option (List ℕ × List Char)
  | 0, text => some ([], text)
  | count + 1, '%' :: high :: low :: rest =>
    (byteOf high low).bind fun b =>
      if 0x80 ≤ b ∧ b < 0xc0 then (continuation count rest).map fun more => (b :: more.1, more.2)
      else none
  | _ + 1, _ => none

/-- How many bytes follow the first. -/
def following (lead : ℕ) : Option ℕ :=
  if lead < 0xc0 then none
  else if lead < 0xe0 then some 1
  else if lead < 0xf0 then some 2
  else if lead < 0xf8 then some 3
  else none

def charOf (lead : ℕ) (bytes : List ℕ) : Option Char :=
  let shape : ℕ × ℕ :=
    match bytes.length with
    | 1 => (0xc0, 0x80)
    | 2 => (0xe0, 0x800)
    | _ => (0xf0, 0x10000)
  let n := bytes.foldl (fun n b => 64 * n + (b - 0x80)) (lead - shape.1)
  if shape.2 ≤ n ∧ n.isValidChar then some (Char.ofNat n) else none

/-- `rounds` is how many characters may still be read; `none` is an exception. -/
def decodeURIFrom : ℕ → List Char → Option (List Char)
  | _, [] => some []
  | 0, _ :: _ => some []
  | rounds + 1, '%' :: high :: low :: rest =>
    (byteOf high low).bind fun lead =>
      if lead < 0x80 then
        (decodeURIFrom rounds rest).map fun text =>
          (if isUriReserved (Char.ofNat lead) then ['%', high, low] else [Char.ofNat lead]) ++ text
      else
        (following lead).bind fun count =>
          (continuation count rest).bind fun more =>
            (charOf lead more.1).bind fun c =>
              (decodeURIFrom rounds more.2).map fun text => c :: text
  | _ + 1, '%' :: _ => none
  | rounds + 1, c :: rest => (decodeURIFrom rounds rest).map fun text => c :: text

def decodeURI (text : List Char) : Option (List Char) := decodeURIFrom text.length text

/-! ## Printed texts -/

/-- A character of a text, as it is or escaped. -/
structure PrintedChar where
  char : Char
  escaped : Bool
  deriving DecidableEq

namespace PrintedChar

def text (t : PrintedChar) : List Char := if t.escaped then escapeChar t.char else [t.char]

/-- Decoding leaves it an escape. -/
def kept (t : PrintedChar) : Bool := t.escaped && isUriReserved t.char

/-- What decoding leaves. -/
def shown (t : PrintedChar) : List Char := if t.kept then escapeChar t.char else [t.char]

theorem text_escaped {t : PrintedChar} (h : t.escaped = true) : t.text = escapeChar t.char :=
  if_pos h

theorem text_raw {t : PrintedChar} (h : t.escaped = false) : t.text = [t.char] := by
  simp [text, h]

theorem shown_escaped {t : PrintedChar} (h : t.escaped = true) :
    t.shown = if isUriReserved t.char then escapeChar t.char else [t.char] := by
  simp [shown, kept, h]

theorem shown_raw {t : PrintedChar} (h : t.escaped = false) : t.shown = [t.char] := by
  simp [shown, kept, h]

end PrintedChar

theorem escapeChar_ascii {c : Char} (h : c.toNat < 0x80) : escapeChar c = escapeByte c.toNat := by
  simp [escapeChar, utf8Bytes, h]

theorem continuation_escape {b : ℕ} (h : 0x80 ≤ b ∧ b < 0xc0) (count : ℕ) (rest : List Char) :
    continuation (count + 1) (escapeByte b ++ rest) =
      (continuation count rest).map fun more => (b :: more.1, more.2) := by
  show (byteOf (upperHex (b / 16)) (upperHex (b % 16))).bind _ = _
  rw [byteOf_upperHex (by omega), Option.bind_some, if_pos h]
  rfl

theorem decode_lead {b : ℕ} (h : 0x80 ≤ b ∧ b < 256) (rounds : ℕ) (rest : List Char) :
    decodeURIFrom (rounds + 1) (escapeByte b ++ rest) =
      (following b).bind fun count =>
        (continuation count rest).bind fun more =>
          (charOf b more.1).bind fun c =>
            (decodeURIFrom rounds more.2).map fun text => c :: text := by
  show (byteOf (upperHex (b / 16)) (upperHex (b % 16))).bind _ = _
  rw [byteOf_upperHex h.2, Option.bind_some, if_neg (by omega)]
  rfl

theorem reserved_ascii {c : Char} (h : isUriReserved c = true) : c.toNat < 0x80 := by
  simp only [isUriReserved, List.contains_eq_mem, decide_eq_true_eq, List.mem_cons,
    List.not_mem_nil, or_false] at h
  rcases h with rfl | rfl | rfl | rfl | rfl | rfl | rfl | rfl | rfl | rfl | rfl <;> decide

/-- An escaped character is decoded in one round. -/
theorem decode_escaped (c : Char) (rounds : ℕ) (rest : List Char) :
    decodeURIFrom (rounds + 1) (escapeChar c ++ rest) =
      (decodeURIFrom rounds rest).map fun text =>
        (if isUriReserved c then escapeChar c else [c]) ++ text := by
  have hvalid : c.toNat.isValidChar := c.valid
  by_cases h1 : c.toNat < 0x80
  · rw [escapeChar_ascii h1]
    show (byteOf (upperHex (c.toNat / 16)) (upperHex (c.toNat % 16))).bind _ = _
    rw [byteOf_upperHex (by omega), Option.bind_some, if_pos h1, Char.ofNat_toNat]
    rfl
  have hfree : isUriReserved c = false := by
    by_contra hne
    exact h1 (reserved_ascii (by simpa using hne))
  have hdecode : ∀ lead bytes, charOf lead bytes = some c → escapeChar c =
      (lead :: bytes).flatMap escapeByte → 0x80 ≤ lead ∧ lead < 256 →
      following lead = some bytes.length → (∀ b ∈ bytes, 0x80 ≤ b ∧ b < 0xc0) →
      decodeURIFrom (rounds + 1) (escapeChar c ++ rest) =
        (decodeURIFrom rounds rest).map fun text =>
          (if isUriReserved c then escapeChar c else [c]) ++ text := by
    intro lead bytes hchar htext hlead hfollow hbytes
    have hcont : ∀ bs : List ℕ, (∀ b ∈ bs, 0x80 ≤ b ∧ b < 0xc0) →
        continuation bs.length (bs.flatMap escapeByte ++ rest) = some (bs, rest) := by
      intro bs
      induction bs with
      | nil => exact fun _ => rfl
      | cons b bs ih =>
        intro h
        rw [List.length_cons, List.flatMap_cons, List.append_assoc,
          continuation_escape (h b List.mem_cons_self),
          ih fun b hb => h b (List.mem_cons_of_mem _ hb)]
        rfl
    rw [htext, List.flatMap_cons, List.append_assoc, decode_lead hlead, hfollow, Option.bind_some,
      hcont bytes hbytes, Option.bind_some, hchar, Option.bind_some, hfree]
    rfl
  have hrange : c.toNat < 0x110000 := by
    rcases hvalid with h | h <;> omega
  by_cases h2 : c.toNat < 0x800
  · refine hdecode (0xc0 + c.toNat / 64) [0x80 + c.toNat % 64] ?_ ?_ (by omega) ?_ ?_
    · have hn : 64 * (0xc0 + c.toNat / 64 - 0xc0) + (0x80 + c.toNat % 64 - 0x80) = c.toNat := by omega
      simp only [charOf, List.length_singleton, List.foldl_cons, List.foldl_nil, hn]
      rw [if_pos ⟨by omega, hvalid⟩, Char.ofNat_toNat]
    · simp [escapeChar, utf8Bytes, h1, h2]
    · simp only [following, List.length_singleton]
      rw [if_neg (by omega), if_pos (by omega)]
    · simp only [List.mem_singleton, forall_eq]
      omega
  by_cases h3 : c.toNat < 0x10000
  · refine hdecode (0xe0 + c.toNat / 4096) [0x80 + c.toNat / 64 % 64, 0x80 + c.toNat % 64] ?_ ?_
      (by omega) ?_ ?_
    · have hn : 64 * (64 * (0xe0 + c.toNat / 4096 - 0xe0) + (0x80 + c.toNat / 64 % 64 - 0x80)) +
          (0x80 + c.toNat % 64 - 0x80) = c.toNat := by omega
      simp only [charOf, List.length_cons, List.length_nil, List.foldl_cons, List.foldl_nil, hn]
      rw [if_pos ⟨by omega, hvalid⟩, Char.ofNat_toNat]
    · simp [escapeChar, utf8Bytes, h1, h2, h3]
    · simp only [following, List.length_cons, List.length_nil]
      rw [if_neg (by omega), if_neg (by omega), if_pos (by omega)]
    · simp only [List.mem_cons, List.not_mem_nil, or_false, forall_eq_or_imp, forall_eq]
      omega
  · refine hdecode (0xf0 + c.toNat / 262144) [0x80 + c.toNat / 4096 % 64,
      0x80 + c.toNat / 64 % 64, 0x80 + c.toNat % 64] ?_ ?_ (by omega) ?_ ?_
    · have hn : 64 * (64 * (64 * (0xf0 + c.toNat / 262144 - 0xf0) +
          (0x80 + c.toNat / 4096 % 64 - 0x80)) + (0x80 + c.toNat / 64 % 64 - 0x80)) +
          (0x80 + c.toNat % 64 - 0x80) = c.toNat := by omega
      simp only [charOf, List.length_cons, List.length_nil, List.foldl_cons, List.foldl_nil, hn]
      rw [if_pos ⟨by omega, hvalid⟩, Char.ofNat_toNat]
    · simp [escapeChar, utf8Bytes, h1, h2, h3]
    · simp only [following, List.length_cons, List.length_nil]
      rw [if_neg (by omega), if_neg (by omega), if_neg (by omega), if_pos (by omega)]
    · simp only [List.mem_cons, List.not_mem_nil, or_false, forall_eq_or_imp, forall_eq]
      omega

theorem decode_plain {c : Char} (h : c ≠ '%') (rounds : ℕ) (rest : List Char) :
    decodeURIFrom (rounds + 1) (c :: rest) =
      (decodeURIFrom rounds rest).map fun text => c :: text := by
  rw [decodeURIFrom]
  · exact fun _ _ _ hc => absurd hc h
  · exact h

theorem escapeChar_length_pos (c : Char) : 0 < (escapeChar c).length := by
  simp only [escapeChar, utf8Bytes, List.length_flatMap]
  split_ifs <;> simp [escapeByte]

/-- A printed text is decoded to what it shows. -/
theorem decodeURI_printed (ts : List PrintedChar)
    (hraw : ∀ t ∈ ts, t.escaped = false → t.char ≠ '%') :
    decodeURI (ts.flatMap PrintedChar.text) = some (ts.flatMap PrintedChar.shown) := by
  have key : ∀ (ts : List PrintedChar), (∀ t ∈ ts, t.escaped = false → t.char ≠ '%') →
      ∀ rounds, (ts.flatMap PrintedChar.text).length ≤ rounds →
      decodeURIFrom rounds (ts.flatMap PrintedChar.text) =
        some (ts.flatMap PrintedChar.shown) := by
    intro ts
    induction ts with
    | nil =>
      intro _ rounds _
      cases rounds <;> rfl
    | cons t rest ih =>
      intro hraw rounds hrounds
      have hrest := fun r hr => ih (fun t h => hraw t (List.mem_cons_of_mem _ h)) r hr
      rw [List.flatMap_cons, List.length_append] at hrounds
      rw [List.flatMap_cons, List.flatMap_cons]
      cases hescaped : t.escaped with
      | true =>
        have hpos := escapeChar_length_pos t.char
        rw [PrintedChar.text_escaped hescaped] at hrounds ⊢
        obtain ⟨r, rfl⟩ : ∃ r, rounds = r + 1 := ⟨rounds - 1, by omega⟩
        rw [decode_escaped, hrest r (by omega), Option.map_some, PrintedChar.shown_escaped hescaped]
      | false =>
        rw [PrintedChar.text_raw hescaped, List.length_singleton] at hrounds
        rw [PrintedChar.text_raw hescaped, PrintedChar.shown_raw hescaped]
        obtain ⟨r, rfl⟩ : ∃ r, rounds = r + 1 := ⟨rounds - 1, by omega⟩
        rw [List.singleton_append, decode_plain (hraw t List.mem_cons_self hescaped),
          hrest r (by omega), Option.map_some]
        rfl
  exact key ts hraw _ (Nat.le_refl _)

/-! ## The case of escapes -/

def asciiUpper (c : Char) : Char := if 'a' ≤ c ∧ c ≤ 'z' then Char.ofNat (c.toNat - 32) else c

def asciiLower (c : Char) : Char := if 'A' ≤ c ∧ c ≤ 'Z' then Char.ofNat (c.toNat + 32) else c

/-- `.replace(/%[0-9a-f]{2}/gi, (escape) => escape.toUpperCase())` -/
def upperEscapes : List Char → List Char
  | '%' :: high :: low :: rest =>
    if (byteOf high low).isSome then '%' :: asciiUpper high :: asciiUpper low :: upperEscapes rest
    else '%' :: upperEscapes (high :: low :: rest)
  | c :: rest => c :: upperEscapes rest
  | [] => []

/-- Characters, and the bytes of what looks like an escape. -/
def parseEscapes : List Char → List (Char ⊕ ℕ)
  | '%' :: high :: low :: rest =>
    match byteOf high low with
    | some b => .inr b :: parseEscapes rest
    | none => .inl '%' :: parseEscapes (high :: low :: rest)
  | c :: rest => .inl c :: parseEscapes rest
  | [] => []

def writeSymbol : Char ⊕ ℕ → List Char
  | .inl c => [c]
  | .inr b => escapeByte b

theorem hexDigitOf_some {c : Char} {d : ℕ} (h : hexDigitOf c = some d) :
    d < 16 ∧ asciiUpper c = upperHex d := by
  have hascii : c.toNat < 128 := by
    unfold hexDigitOf at h
    split_ifs at h with h1 h2 h3
    · have := Char.le_def.1 h1.2
      exact lt_of_le_of_lt (show c.toNat ≤ 57 from this) (by decide)
    · have := Char.le_def.1 h2.2
      exact lt_of_le_of_lt (show c.toNat ≤ 70 from this) (by decide)
    · have := Char.le_def.1 h3.2
      exact lt_of_le_of_lt (show c.toNat ≤ 102 from this) (by decide)
  have hall : ∀ n < 128, (hexDigitOf (Char.ofNat n)).all fun d =>
      d < 16 && asciiUpper (Char.ofNat n) = upperHex d := by decide
  have hc := hall c.toNat hascii
  rw [Char.ofNat_toNat, h] at hc
  simpa using hc

theorem byteOf_some {high low : Char} {b : ℕ} (h : byteOf high low = some b) :
    b < 256 ∧ asciiUpper high = upperHex (b / 16) ∧ asciiUpper low = upperHex (b % 16) := by
  obtain ⟨x, hx, h⟩ := Option.bind_eq_some_iff.1 h
  obtain ⟨y, hy, rfl⟩ := Option.map_eq_some_iff.1 h
  obtain ⟨hx16, hhigh⟩ := hexDigitOf_some hx
  obtain ⟨hy16, hlow⟩ := hexDigitOf_some hy
  refine ⟨by omega, ?_, ?_⟩
  · rw [hhigh]
    congr
    omega
  · rw [hlow]
    congr
    omega

theorem hexDigitOf_asciiUpper {c : Char} (h : (hexDigitOf c).isSome = true) :
    hexDigitOf (asciiUpper c) = hexDigitOf c := by
  obtain ⟨d, hd⟩ := Option.isSome_iff_exists.1 h
  obtain ⟨hlt, hupper⟩ := hexDigitOf_some hd
  rw [hupper, hexDigitOf_upperHex hlt, hd]

theorem byteOf_isSome {high low : Char} : (byteOf high low).isSome = true ↔
    (hexDigitOf high).isSome = true ∧ (hexDigitOf low).isSome = true := by
  unfold byteOf
  cases hexDigitOf high <;> cases hexDigitOf low <;> simp

/-- Upper case of escapes is what the reading writes. -/
theorem upperEscapes_eq (text : List Char) :
    upperEscapes text = (parseEscapes text).flatMap writeSymbol := by
  fun_induction parseEscapes text with
  | case1 high low rest b hb ih =>
    obtain ⟨-, hhigh, hlow⟩ := byteOf_some hb
    rw [upperEscapes, if_pos (by rw [hb]; rfl), ih, hhigh, hlow]
    rfl
  | case2 high low rest hb ih =>
    rw [upperEscapes, if_neg (by rw [hb]; decide), ih]
    rfl
  | case3 c rest hshort ih =>
    rw [upperEscapes, ih]
    · rfl
    · exact hshort
  | case4 => rfl

theorem hexDigits_upperEscapes (text : List Char) :
    (upperEscapes text).map hexDigitOf = text.map hexDigitOf := by
  fun_induction upperEscapes text with
  | case1 high low rest hb ih =>
    obtain ⟨hhigh, hlow⟩ := byteOf_isSome.1 hb
    simp only [List.map_cons, ih, hexDigitOf_asciiUpper hhigh, hexDigitOf_asciiUpper hlow]
  | case2 high low rest hb ih => rw [List.map_cons, List.map_cons, ih]
  | case3 c rest hshort ih => rw [List.map_cons, List.map_cons, ih]
  | case4 => rfl

theorem parseEscapes_upperEscapes (text : List Char) :
    parseEscapes (upperEscapes text) = parseEscapes text := by
  fun_induction parseEscapes text with
  | case1 high low rest b hb ih =>
    obtain ⟨hhigh, hlow⟩ := byteOf_isSome.1 (by rw [hb]; rfl)
    have hupper : byteOf (asciiUpper high) (asciiUpper low) = some b := by
      rw [byteOf, hexDigitOf_asciiUpper hhigh, hexDigitOf_asciiUpper hlow]
      exact hb
    rw [upperEscapes, if_pos (by rw [hb]; rfl), parseEscapes]
    simp only [hupper, ih]
  | case2 high low rest hb ih =>
    rw [upperEscapes, if_neg (by rw [hb]; decide)]
    have hhex := hexDigits_upperEscapes (high :: low :: rest)
    cases hupper : upperEscapes (high :: low :: rest) with
    | nil => simp [hupper] at hhex
    | cons h t =>
      cases t with
      | nil => simp [hupper] at hhex
      | cons l t =>
        rw [hupper] at hhex ih
        simp only [List.map_cons, List.cons.injEq] at hhex
        have hnone : byteOf h l = none := by
          rw [byteOf, hhex.1, hhex.2.1]
          exact hb
        rw [parseEscapes]
        simp only [hnone, ih]
  | case3 c rest hshort ih =>
    have hcons : upperEscapes (c :: rest) = c :: upperEscapes rest := by
      rw [upperEscapes]
      exact hshort
    rw [hcons, parseEscapes, ih]
    intro high low rest' hc hrest
    have hhex := hexDigits_upperEscapes rest
    cases rest with
    | nil => cases hrest
    | cons h t =>
      cases t with
      | nil =>
        have hlen := congrArg List.length hhex
        rw [hrest] at hlen
        simp at hlen
      | cons l t => exact hshort h l t hc rfl
  | case4 => rfl

/-- Texts are the same up to the case of escapes when they are read the same. -/
theorem upperEscapes_inj {s t : List Char} :
    upperEscapes s = upperEscapes t ↔ parseEscapes s = parseEscapes t := by
  constructor
  · intro h
    rw [← parseEscapes_upperEscapes s, h, parseEscapes_upperEscapes]
  · intro h
    rw [upperEscapes_eq, h, upperEscapes_eq]

theorem asciiLower_asciiUpper (c : Char) : asciiLower (asciiUpper c) = asciiLower c := by
  by_cases hc : c.toNat < 128
  · have hall : ∀ n < 128, asciiLower (asciiUpper (Char.ofNat n)) = asciiLower (Char.ofNat n) := by
      decide
    have := hall c.toNat hc
    rwa [Char.ofNat_toNat] at this
  · have hupper : asciiUpper c = c := by
      refine if_neg fun h => hc ?_
      exact lt_of_le_of_lt (show c.toNat ≤ 122 from Char.le_def.1 h.2) (by decide)
    rw [hupper]

theorem upperEscapes_caseless (text : List Char) :
    (upperEscapes text).map asciiLower = text.map asciiLower := by
  fun_induction upperEscapes text with
  | case1 high low rest hb ih => simp only [List.map_cons, ih, asciiLower_asciiUpper]
  | case2 high low rest hb ih => rw [List.map_cons, List.map_cons, ih]
  | case3 c rest hshort ih => rw [List.map_cons, List.map_cons, ih]
  | case4 => rfl

/-- No escape goes over a character that is no digit of one. -/
theorem upperEscapes_append {c : Char} (hc : hexDigitOf c = none) (hpercent : c ≠ '%')
    (s t : List Char) : upperEscapes (s ++ c :: t) = upperEscapes s ++ c :: upperEscapes t := by
  have hcons : ∀ t, upperEscapes (c :: t) = c :: upperEscapes t := by
    intro t
    rw [upperEscapes]
    exact fun _ _ _ h => absurd h hpercent
  fun_induction upperEscapes s with
  | case1 high low rest hb ih =>
    rw [List.cons_append, List.cons_append, List.cons_append, upperEscapes, if_pos hb, ih]
    rfl
  | case2 high low rest hb ih =>
    rw [List.cons_append, List.cons_append, List.cons_append, upperEscapes, if_neg hb]
    rw [List.cons_append, List.cons_append] at ih
    rw [ih]
    rfl
  | case3 d rest hshort ih =>
    rw [List.cons_append, List.cons_append, ← ih]
    cases rest with
    | nil =>
      cases t with
      | nil => rw [List.nil_append, upperEscapes]; simp
      | cons e t =>
        by_cases hd : d = '%'
        · subst hd
          have hnone : ¬(byteOf c e).isSome = true := by simp [byteOf, hc]
          rw [List.nil_append, upperEscapes, if_neg hnone]
        · rw [List.nil_append, upperEscapes]
          exact fun _ _ _ h => absurd h hd
    | cons high rest =>
      cases rest with
      | nil =>
        by_cases hd : d = '%'
        · subst hd
          have hnone : ¬(byteOf high c).isSome = true := by
            simp only [byteOf, hc, Option.map_none, Option.bind_fun_none, Option.isSome_none,
              Bool.false_eq_true, not_false_iff]
          rw [List.cons_append, List.nil_append, upperEscapes, if_neg hnone]
        · rw [List.cons_append, List.nil_append, upperEscapes]
          exact fun _ _ _ h => absurd h hd
      | cons low rest =>
        rw [List.cons_append, List.cons_append, upperEscapes]
        exact fun h l r hd hr => hshort high low rest hd rfl
  | case4 => exact hcons t

end PinOp.Lib
