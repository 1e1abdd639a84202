import PinOp.Css.TopLevel
import PinOp.Lib.RegexLanguage

/-!
# Tokens of shorthands

The patterns that tell what a token of a shorthand may be, and that they tell apart: a number
does not begin like a name, a time does not end like a number, and a timing function begins like
no keyword of another part.
-/

namespace PinOp.Css

open PinOp.Lib PinOp.Lib.Regex

/-! ## Patterns -/

def digit : Regex := chars Char.isDigit

/-- `[+-]?(?:\d+|\d*\.\d+)` -/
def numeral : Regex :=
  .seq (opt (oneOf "+-")) (.alt (plus digit) (cat [.star digit, lit ".", plus digit]))

/-- `^[+-]?(?:\d+|\d*\.\d+)m?s$`, under the flag `i` -/
def timePattern : Regex := cat [numeral, opt (litFold "m"), litFold "s"]

/-- `^[+-]?(?:\d+|\d*\.\d+)(?:e[+-]?\d+)?$`, under the flag `i` -/
def numberPattern : Regex :=
  cat [numeral, opt (cat [litFold "e", opt (oneOf "+-"), plus digit])]

/-- `[A-Za-z_]` -/
def isNameStart (c : Char) : Bool := c.isAlpha || c = '_'

/-- `[\w-]` -/
def isNameCharacter (c : Char) : Bool := c.isAlphanum || c = '_' || c = '-'

/-- `^(?:--|-?[A-Za-z_])[\w-]*$` -/
def identifierPattern : Regex :=
  cat [.alt (lit "--") (cat [opt (lit "-"), chars isNameStart]), .star (chars isNameCharacter)]

/-- `^(?:"[^"]*"|'[^']*')$` -/
def stringPattern : Regex :=
  let quotedBy (quote : String) := cat [lit quote, .star (noneOf quote), lit quote]
  .alt (quotedBy doubleQuote) (quotedBy singleQuote)

def easingKeywords : List String :=
  ["ease", "ease-in", "ease-in-out", "ease-out", "linear", "step-end", "step-start"]

/-- `^(?:cubic-bezier|steps|linear)\(`, under the flag `i` -/
def easingFunction : Regex :=
  cat [.alt (litFold "cubic-bezier") (.alt (litFold "steps") (litFold "linear")), lit "("]

def isEasing (token : String) : Bool :=
  easingKeywords.contains (jsToLowerCase token) || (easingFunction.execPrefix token).isSome

/-- `^steps\((\d+)(?:,(?:jump-)?end)?\)$`, under the flag `i` -/
def stepsPattern : Regex :=
  cat [litFold "steps", lit "(", group 1 (plus digit),
    opt (cat [lit ",", opt (litFold "jump-"), litFold "end"]), lit ")"]

def canonicalEasing (token : String) : String :=
  let lower := jsToLowerCase token
  if lower = "step-end" then "steps(1)"
  else if lower = "step-start" then "steps(1,start)"
  else
    match (stepsPattern.exec token).bind (captured · 1) with
    | some count => "steps(" ++ count ++ ")"
    | none => if easingKeywords.contains lower then lower else token

/-- `Number.parseFloat(token) === 0`, for a token with a number that has no exponent. A number of
at most `2 ^ -1075` is rounded to zero. -/
def parsesToZero (token : String) : Bool :=
  let unsigned := token.toList.dropWhile fun c => c = '+' || c = '-'
  let whole := unsigned.takeWhile Char.isDigit
  let fraction :=
    match unsigned.dropWhile Char.isDigit with
    | '.' :: rest => rest.takeWhile Char.isDigit
    | _ => []
  2 ^ 1075 * Nat.ofDigitChars 10 (whole ++ fraction) 0 ≤ 10 ^ fraction.length

def canonicalTime (token : String) : String := if parsesToZero token then "0s" else token

attribute [irreducible] parsesToZero

theorem canonicalTime_zero : canonicalTime "0s" = "0s" := by
  unfold canonicalTime
  split
  · rfl
  · rfl

theorem canonicalEasing_ease : canonicalEasing "ease" = "ease" := by decide +kernel

example : canonicalEasing "STEPS(4,jump-end)" = "steps(4)" := by decide +kernel

/-! ## How tokens begin -/

/-- A character that a number can begin with. -/
def isNumeric (c : Char) : Bool := c.isDigit || c = '.' || c = '+' || c = '-'

def beginsNumeric (s : List Char) : Bool := s.head?.any isNumeric

/-- Behind its sign the text begins with a digit or a point. -/
def beginsNumeral : List Char → Bool
  | [] => false
  | c :: s =>
    if c = '+' || c = '-' then s.head?.any fun d => d.isDigit || d = '.'
    else c.isDigit || c = '.'

theorem beginsNumeric_of_beginsNumeral {s : List Char} (h : beginsNumeral s = true) :
    beginsNumeric s = true := by
  cases s with
  | nil => cases h
  | cons c s =>
    simp only [beginsNumeral] at h
    split at h
    · rename_i hsign
      simp only [Bool.or_eq_true, decide_eq_true_eq] at hsign
      rcases hsign with rfl | rfl
      · rfl
      · rfl
    · simp only [beginsNumeric, isNumeric, List.head?_cons, Option.any_some, h, Bool.true_or]

/-- What a numeral is without its sign. -/
theorem unsigned_begins {u : List Char}
    (h : (Regex.alt (plus digit) (cat [.star digit, lit ".", plus digit])).Matches u) :
    ∃ d u', u = d :: u' ∧ (d.isDigit = true ∨ d = '.') := by
  rcases h with h | h
  · obtain ⟨hne, hall⟩ := matches_plus_chars.mp h
    obtain ⟨d, u', rfl⟩ := List.exists_cons_of_ne_nil hne
    exact ⟨d, u', rfl, .inl (hall d List.mem_cons_self)⟩
  · simp only [matches_cat_cons] at h
    obtain ⟨ds, _, rfl, hds, _, _, rfl, hpoint, -⟩ := h
    cases ds with
    | nil =>
      rw [matches_lit.mp hpoint]
      exact ⟨'.', _, rfl, .inr rfl⟩
    | cons d ds =>
      exact ⟨d, _, rfl, .inl (matches_star_chars.mp hds d List.mem_cons_self)⟩

theorem numeral_begins {u : List Char} (h : numeral.Matches u) (v : List Char) :
    beginsNumeral (u ++ v) = true := by
  obtain ⟨signs, w, rfl, hsigns, hw⟩ := h
  obtain ⟨d, w', rfl, hd⟩ := unsigned_begins hw
  have hdigit : (d.isDigit || decide (d = '.')) = true := by simpa using hd
  rcases hsigns with ⟨c, hc, rfl⟩ | rfl
  · have hsign : (decide (c = '+') || decide (c = '-')) = true := by simpa using hc
    simp only [List.cons_append, List.nil_append, beginsNumeral, hsign, if_true, List.head?_cons,
      Option.any_some, hdigit]
  · have hsign : (decide (d = '+') || decide (d = '-')) = false := by
      rcases hd with hd | rfl
      · simp only [Bool.or_eq_false_iff, decide_eq_false_iff_not]
        refine ⟨fun he => ?_, fun he => ?_⟩
        · rw [he] at hd
          cases hd
        · rw [he] at hd
          cases hd
      · rfl
    simp only [List.cons_append, List.nil_append, beginsNumeral, hsign, Bool.false_eq_true,
      if_false, hdigit]

theorem time_begins {token : String} (h : timePattern.test token = true) :
    beginsNumeral token.toList = true := by
  obtain ⟨u, v, he, hu, -⟩ := matches_cat_cons.mp (matches_of_test h)
  rw [he]
  exact numeral_begins hu v

theorem number_begins {token : String} (h : numberPattern.test token = true) :
    beginsNumeral token.toList = true := by
  obtain ⟨u, v, he, hu, -⟩ := matches_cat_cons.mp (matches_of_test h)
  rw [he]
  exact numeral_begins hu v

/-- Numbers begin below the letters. -/
theorem isNumeric_of_le {c : Char} (h : 65 ≤ c.toNat) : isNumeric c = false := by
  have hdigit : c.isDigit = false := by
    simp only [Char.isDigit, ge_iff_le, UInt32.le_iff_toNat_le, Bool.and_eq_false_iff,
      decide_eq_false_iff_not]
    exact .inr fun hle => absurd (h.trans hle) (by decide)
  have hne (d : Char) (hd : d.toNat < 65) : c ≠ d := by
    rintro rfl
    omega
  simp [isNumeric, hdigit, hne '.' (by decide), hne '+' (by decide), hne '-' (by decide)]

theorem isNumeric_of_isNameStart {c : Char} (h : isNameStart c = true) : isNumeric c = false := by
  refine isNumeric_of_le ?_
  simp only [isNameStart, Char.isAlpha, Char.isUpper, Char.isLower, Bool.or_eq_true,
    Bool.and_eq_true, decide_eq_true_eq, ge_iff_le, UInt32.le_iff_toNat_le] at h
  rcases h with (h | h) | rfl
  · exact h.1
  · exact Nat.le_trans (by decide) h.1
  · decide

/-- A name does not begin like a number. -/
theorem identifier_begins {token : String} (h : identifierPattern.test token = true) :
    beginsNumeral token.toList = false := by
  obtain ⟨u, v, he, hu, -⟩ := matches_cat_cons.mp (matches_of_test h)
  rw [he]
  rcases hu with hu | hu
  · rw [matches_lit.mp hu]
    rfl
  · simp only [matches_cat_cons, matches_opt, matches_chars, matches_cat_nil] at hu
    obtain ⟨hyphen, _, rfl, hhyphen, _, _, rfl, ⟨c, hc, rfl⟩, rfl⟩ := hu
    have hstart := isNumeric_of_isNameStart hc
    simp only [isNumeric, Bool.or_eq_false_iff, decide_eq_false_iff_not] at hstart
    rcases hhyphen with hhyphen | rfl
    · rw [matches_lit.mp hhyphen]
      show (c.isDigit || decide (c = '.')) = false
      simp [hstart]
    · show (if c = '+' || c = '-' then _ else c.isDigit || decide (c = '.')) = false
      simp [hstart]

theorem string_begins {token : String} (h : stringPattern.test token = true) :
    beginsNumeral token.toList = false := by
  rcases matches_of_test h with h | h
  all_goals
    obtain ⟨u, v, he, hu, -⟩ := matches_cat_cons.mp h
    rw [he, matches_lit.mp hu]
    rfl

/-! ## How tokens end -/

theorem time_ends {token : String} (h : timePattern.test token = true) :
    ∃ c, token.toList.getLast? = some c ∧ c.toLower = 's' := by
  have hm := matches_of_test h
  simp only [timePattern, matches_cat_cons, matches_cat_nil, matches_litFold] at hm
  obtain ⟨u, _, he, -, m, _, rfl, -, _, _, rfl, hs, rfl⟩ := hm
  obtain ⟨x, _, hx, hrest, rfl⟩ := List.forall₂_cons_left_iff.mp hs
  rw [List.forall₂_nil_left_iff.mp hrest] at he
  exact ⟨x, by simp [he], hx⟩

/-- Text that ends with digits ends with a digit. -/
theorem digits_end {u : List Char} (h : (plus digit).Matches u) (s : List Char) :
    ∃ c, (s ++ u).getLast? = some c ∧ c.isDigit = true := by
  obtain ⟨hne, hall⟩ := matches_plus_chars.mp h
  refine ⟨u.getLast hne, ?_, hall _ (List.getLast_mem hne)⟩
  rw [List.getLast?_append_of_ne_nil _ hne, List.getLast?_eq_getLast_of_ne_nil hne]

theorem number_ends {token : String} (h : numberPattern.test token = true) :
    ∃ c, token.toList.getLast? = some c ∧ c.isDigit = true := by
  have hm := matches_of_test h
  simp only [numberPattern, matches_cat_cons, matches_cat_nil, matches_opt] at hm
  obtain ⟨u, _, he, hu, _, _, rfl, hexp, rfl⟩ := hm
  rw [he, List.append_nil]
  rcases hexp with ⟨e, _, rfl, -, sign, _, rfl, -, ds, _, rfl, hds, rfl⟩ | rfl
  · rw [List.append_nil, ← List.append_assoc, ← List.append_assoc]
    exact digits_end hds _
  · rw [List.append_nil]
    obtain ⟨signs, w, rfl, -, hw⟩ := hu
    rcases hw with hw | hw
    · exact digits_end hw signs
    · simp only [matches_cat_cons, matches_cat_nil] at hw
      obtain ⟨ds, _, rfl, -, point, _, rfl, -, ds', _, rfl, hds', rfl⟩ := hw
      rw [List.append_nil, ← List.append_assoc, ← List.append_assoc]
      exact digits_end hds' _

/-! ## Keywords -/

/-- The lower case of a character. -/
def jsLower (c : Char) : Char := if c.toNat = 0x212A then Char.ofNat 0x6B else c.toLower

theorem toList_jsToLowerCase (token : String) :
    (jsToLowerCase token).toList = token.toList.map jsLower := by
  rw [jsToLowerCase, String.toList_map]
  rfl

theorem isNumeric_jsLower (c : Char) : isNumeric (jsLower c) = isNumeric c := by
  unfold jsLower
  split
  · rename_i hk
    have hc : c = Char.ofNat 0x212A := by rw [← hk, Char.ofNat_toNat]
    rw [hc]
    decide
  · rw [Char.toLower]
    split
    · rename_i hupper
      rw [isNumeric_of_le (Nat.le_trans (by decide) hupper.1)]
      refine isNumeric_of_le ?_
      have hlow : 65 ≤ c.val.toNat := hupper.1
      have hhigh : c.val.toNat ≤ 90 := hupper.2
      show 65 ≤ (c.val + ('a'.val - 'A'.val)).toNat
      rw [UInt32.toNat_add, show ('a'.val - 'A'.val).toNat = 32 from rfl]
      omega
    · rfl

theorem jsLower_of_toLower {c l : Char} (h : c.toLower = l) (hl : l ≠ Char.ofNat 0x212A) :
    jsLower c = l := by
  unfold jsLower
  split
  · rename_i hk
    have hc : c = Char.ofNat 0x212A := by rw [← hk, Char.ofNat_toNat]
    rw [hc] at h
    exact absurd h.symm hl
  · exact h

/-- Lower case makes no letter of what a number begins with, nor the other way round. -/
theorem beginsNumeric_lower (token : String) :
    beginsNumeric (jsToLowerCase token).toList = beginsNumeric token.toList := by
  rw [toList_jsToLowerCase]
  cases token.toList with
  | nil => rfl
  | cons c s =>
    exact isNumeric_jsLower c

/-- The first letters of timing functions, in lower case. -/
def beginsEasing (s : List Char) : Bool := s.head?.any fun c => "cesl".toList.contains c

theorem easing_begins {token : String} (h : isEasing token = true) :
    beginsEasing (jsToLowerCase token).toList = true := by
  simp only [isEasing, Bool.or_eq_true] at h
  rcases h with h | h
  · have hall : easingKeywords.all (fun keyword => beginsEasing keyword.toList) = true := by decide
    exact List.all_eq_true.mp hall _ (by simpa using h)
  · obtain ⟨u, v, he, hu⟩ := matches_of_execPrefix h
    simp only [easingFunction, matches_cat_cons, matches_alt, matches_litFold] at hu
    obtain ⟨name, rest, rfl, hname, -⟩ := hu
    have hletter : ∃ c name', name = c :: name' ∧ (c.toLower = 'c' ∨ c.toLower = 's' ∨
        c.toLower = 'l') := by
      rcases hname with hname | hname | hname
      · obtain ⟨c, name', hc, -, rfl⟩ := List.forall₂_cons_left_iff.mp hname
        exact ⟨c, name', rfl, .inl hc⟩
      · obtain ⟨c, name', hc, -, rfl⟩ := List.forall₂_cons_left_iff.mp hname
        exact ⟨c, name', rfl, .inr (.inl hc)⟩
      · obtain ⟨c, name', hc, -, rfl⟩ := List.forall₂_cons_left_iff.mp hname
        exact ⟨c, name', rfl, .inr (.inr hc)⟩
    obtain ⟨c, name', rfl, hc⟩ := hletter
    rw [toList_jsToLowerCase, he]
    show "cesl".toList.contains (jsLower c) = true
    rcases hc with hc | hc | hc
    all_goals
      rw [jsLower_of_toLower hc (by decide)]
      decide

/-! ## What tokens are not -/

/-- Neither a time nor a number. -/
structure NotNumeric (token : String) : Prop where
  time : timePattern.test token = false
  number : numberPattern.test token = false

theorem notNumeric_of_begins {token : String} (h : beginsNumeral token.toList = false) :
    NotNumeric token := by
  constructor
  · by_contra ht
    rw [time_begins (by simpa using ht)] at h
    cases h
  · by_contra hn
    rw [number_begins (by simpa using hn)] at h
    cases h

theorem notNumeric_of_lower {token : String}
    (h : beginsNumeric (jsToLowerCase token).toList = false) : NotNumeric token := by
  refine notNumeric_of_begins ?_
  by_contra hb
  rw [beginsNumeric_lower, beginsNumeric_of_beginsNumeral (by simpa using hb)] at h
  cases h

/-- A keyword of a list is neither. -/
theorem notNumeric_of_keyword {token : String} {keywords : List String}
    (h : keywords.contains (jsToLowerCase token) = true)
    (hk : keywords.all (fun keyword => !beginsNumeric keyword.toList) = true) :
    NotNumeric token := by
  refine notNumeric_of_lower ?_
  simpa using List.all_eq_true.mp hk _ (by simpa using h)

theorem not_easing_of_keyword {token : String} {keywords : List String}
    (h : keywords.contains (jsToLowerCase token) = true)
    (hk : keywords.all (fun keyword => !beginsEasing keyword.toList) = true) :
    isEasing token = false := by
  have hb : beginsEasing (jsToLowerCase token).toList = false := by
    simpa using List.all_eq_true.mp hk _ (by simpa using h)
  by_contra he
  rw [easing_begins (by simpa using he)] at hb
  cases hb

theorem beginsNumeric_of_beginsEasing {s : List Char} (h : beginsEasing s = true) :
    beginsNumeric s = false := by
  cases s with
  | nil => rfl
  | cons c s =>
    have hc : c = 'c' ∨ c = 'e' ∨ c = 's' ∨ c = 'l' := by simpa [beginsEasing] using h
    rcases hc with rfl | rfl | rfl | rfl
    all_goals rfl

theorem notNumeric_of_easing {token : String} (h : isEasing token = true) : NotNumeric token :=
  notNumeric_of_lower (beginsNumeric_of_beginsEasing (easing_begins h))

theorem not_time_of_number {token : String} (h : numberPattern.test token = true) :
    timePattern.test token = false := by
  by_contra ht
  obtain ⟨c, hc, hs⟩ := time_ends (by simpa using ht)
  obtain ⟨d, hd, hdigit⟩ := number_ends h
  rw [hc] at hd
  cases hd
  -- a digit has no lower case
  have hlow : c.toLower = c := by
    rw [Char.toLower, dif_neg]
    rintro ⟨hle, -⟩
    have := isNumeric_of_le (c := c) hle
    simp [isNumeric, hdigit] at this
  rw [hlow] at hs
  rw [hs] at hdigit
  cases hdigit

end PinOp.Css
