import PinOp.Lib.CodeUnits
import PinOp.Lib.Decimal

/-!
# Values written as JSON

`Json.stringify` writes a value as `JSON.stringify` does: no blanks, the keys of an object in their
order, and in a text an escape for quotes, backslashes, controls and lone surrogates. Numbers are
natural. The text tells the value.
-/

namespace PinOp.Lib

/-! ## Texts -/

def hexDigit (d : ℕ) : ℕ := if d < 10 then 48 + d else 87 + d

/-- `\u` and four digits. -/
def unicodeEscape (u : ℕ) : List ℕ :=
  [92, 117, hexDigit (u / 4096), hexDigit (u / 256 % 16), hexDigit (u / 16 % 16), hexDigit (u % 16)]

def escapeUnit (u : ℕ) : List ℕ :=
  if u = 34 ∨ u = 92 then [92, u]
  else if u = 8 then [92, 98]
  else if u = 9 then [92, 116]
  else if u = 10 then [92, 110]
  else if u = 12 then [92, 102]
  else if u = 13 then [92, 114]
  else if u < 32 ∨ isSurrogate u = true then unicodeEscape u
  else [u]

def escapeScalar : List ℕ → List ℕ
  | [u] => escapeUnit u
  | scalar => scalar

def quoted (text : List ℕ) : List ℕ := 34 :: (scalars text).flatMap escapeScalar ++ [34]

/-! ## Values -/

inductive Json where
  | bool (value : Bool)
  | number (value : ℕ)
  | string (text : List ℕ)
  | array (items : List Json)
  | object (members : List (List ℕ × Json))

def numberText (n : ℕ) : List ℕ := n.repr.toList.map Char.toNat

namespace Json

mutual

def stringify : Json → List ℕ
  | bool true => [116, 114, 117, 101]
  | bool false => [102, 97, 108, 115, 101]
  | number n => numberText n
  | string text => quoted text
  | array [] => [91, 93]
  | array (item :: rest) => 91 :: item.stringify ++ stringifyItems rest
  | object [] => [123, 125]
  | object ((key, value) :: rest) =>
    123 :: quoted key ++ 58 :: value.stringify ++ stringifyMembers rest

/-- What follows the first item. -/
def stringifyItems : List Json → List ℕ
  | [] => [93]
  | item :: rest => 44 :: item.stringify ++ stringifyItems rest

/-- What follows the first member. -/
def stringifyMembers : List (List ℕ × Json) → List ℕ
  | [] => [125]
  | (key, value) :: rest =>
    44 :: quoted key ++ 58 :: value.stringify ++ stringifyMembers rest

end

/-- The bytes of the text. -/
def bytes (value : Json) : ℕ := utf8Length value.stringify

end Json

/-! ## A text can be read back -/

def hexValue (c : ℕ) : ℕ := if c < 58 then c - 48 else c - 87

theorem hexValue_hexDigit {d : ℕ} (h : d < 16) : hexValue (hexDigit d) = d := by
  unfold hexValue hexDigit
  split <;> split <;> omega

/-- The scalar that the start of a written text stands for, and what is left. -/
def readScalar : List ℕ → Option (List ℕ × List ℕ)
  | 92 :: 117 :: a :: b :: c :: d :: rest =>
    some ([4096 * hexValue a + 256 * hexValue b + 16 * hexValue c + hexValue d], rest)
  | 92 :: 98 :: rest => some ([8], rest)
  | 92 :: 116 :: rest => some ([9], rest)
  | 92 :: 110 :: rest => some ([10], rest)
  | 92 :: 102 :: rest => some ([12], rest)
  | 92 :: 114 :: rest => some ([13], rest)
  | 92 :: u :: rest => some ([u], rest)
  | u :: v :: rest => if isHighSurrogate u then some ([u, v], rest) else some ([u], v :: rest)
  | [u] => some ([u], [])
  | [] => none

variable {x y a b : List ℕ}

theorem readScalar_unicodeEscape {u : ℕ} (h : u < 65536) (rest : List ℕ) :
    readScalar (unicodeEscape u ++ rest) = some ([u], rest) := by
  have h1 := hexValue_hexDigit (d := u / 4096) (by omega)
  have h2 := hexValue_hexDigit (d := u / 256 % 16) (by omega)
  have h3 := hexValue_hexDigit (d := u / 16 % 16) (by omega)
  have h4 := hexValue_hexDigit (d := u % 16) (by omega)
  show some ([_], rest) = _
  rw [h1, h2, h3, h4]
  congr
  omega

/-- A unit that stands for itself. -/
theorem readScalar_plain {u : ℕ} (hback : u ≠ 92) (hhigh : isHighSurrogate u = false)
    (rest : List ℕ) : readScalar (u :: rest) = some ([u], rest) := by
  cases rest with
  | nil => simp [readScalar]
  | cons v rest => simp [readScalar, hback, hhigh]

theorem readScalar_escape (hx : IsScalar x) (rest : List ℕ) :
    readScalar (escapeScalar x ++ rest) = some (x, rest) := by
  rcases hx with ⟨u, rfl⟩ | ⟨u, v, hu, -, rfl⟩
  · show readScalar (escapeUnit u ++ rest) = _
    unfold escapeUnit
    split_ifs with h1 h2 h3 h4 h5 h6 h7
    · rcases h1 with rfl | rfl <;> rfl
    · subst h2; rfl
    · subst h3; rfl
    · subst h4; rfl
    · subst h5; rfl
    · subst h6; rfl
    · refine readScalar_unicodeEscape ?_ rest
      rcases h7 with h7 | h7
      · omega
      · simp only [isSurrogate, decide_eq_true_eq] at h7
        omega
    · refine readScalar_plain (fun h => h1 (.inr h)) ?_ rest
      simp only [isSurrogate, decide_eq_true_eq, not_or, not_and, not_le] at h7
      simp only [isHighSurrogate, decide_eq_false_iff_not, not_and, not_le]
      omega
  · have hback : u ≠ 92 := by
      simp only [isHighSurrogate, decide_eq_true_eq] at hu
      omega
    show readScalar (u :: v :: rest) = _
    simp [readScalar, hback, hu]

/-- What is written for a scalar does not start with a quote. -/
theorem escapeScalar_head (hx : IsScalar x) : ∃ c cs, escapeScalar x = c :: cs ∧ c ≠ 34 := by
  rcases hx with ⟨u, rfl⟩ | ⟨u, v, hu, -, rfl⟩
  · show ∃ c cs, escapeUnit u = c :: cs ∧ c ≠ 34
    unfold escapeUnit
    split_ifs with h1
    · exact ⟨92, [u], rfl, by decide⟩
    any_goals exact ⟨92, _, rfl, by decide⟩
    exact ⟨u, [], rfl, fun h => h1 (.inl h)⟩
  · refine ⟨u, [v], rfl, ?_⟩
    simp only [isHighSurrogate, decide_eq_true_eq] at hu
    omega

theorem escaped_inj : ∀ {xs ys : List (List ℕ)}, (∀ x ∈ xs, IsScalar x) → (∀ y ∈ ys, IsScalar y) →
    xs.flatMap escapeScalar ++ 34 :: a = ys.flatMap escapeScalar ++ 34 :: b → xs = ys ∧ a = b := by
  intro xs
  induction xs with
  | nil =>
    intro ys _ hys h
    cases ys with
    | nil => exact ⟨rfl, by simpa using h⟩
    | cons y ys =>
      obtain ⟨c, cs, hy, hc⟩ := escapeScalar_head (hys y List.mem_cons_self)
      rw [List.flatMap_cons, hy] at h
      exact absurd (List.cons.inj h).1.symm hc
  | cons x xs ih =>
    intro ys hxs hys h
    have hx := hxs x List.mem_cons_self
    cases ys with
    | nil =>
      obtain ⟨c, cs, hx, hc⟩ := escapeScalar_head hx
      rw [List.flatMap_cons, hx] at h
      exact absurd (List.cons.inj h).1 hc
    | cons y ys =>
      have hy := hys y List.mem_cons_self
      rw [List.flatMap_cons, List.flatMap_cons, List.append_assoc, List.append_assoc] at h
      have hread := congrArg readScalar h
      rw [readScalar_escape hx, readScalar_escape hy, Option.some.injEq, Prod.mk.injEq] at hread
      obtain ⟨hsame, hrest⟩ := hread
      obtain ⟨hxys, hab⟩ := ih (fun x h => hxs x (List.mem_cons_of_mem _ h))
        (fun y h => hys y (List.mem_cons_of_mem _ h)) hrest
      exact ⟨by rw [hsame, hxys], hab⟩

theorem quoted_inj {s t : List ℕ} (h : quoted s ++ a = quoted t ++ b) : s = t ∧ a = b := by
  unfold quoted at h
  rw [List.cons_append, List.cons_append, List.append_assoc, List.append_assoc] at h
  obtain ⟨hst, hab⟩ := escaped_inj (fun _ => isScalar_of_mem) (fun _ => isScalar_of_mem)
    (List.cons.inj h).2
  refine ⟨?_, hab⟩
  rw [← flatten_scalars s, hst, flatten_scalars]

/-! ## So can a number -/

def isDigitUnit (u : ℕ) : Bool := 48 ≤ u ∧ u ≤ 57

theorem numberText_digits {n u : ℕ} (h : u ∈ numberText n) : isDigitUnit u = true := by
  obtain ⟨c, hc, rfl⟩ := List.mem_map.1 h
  rw [Nat.toList_repr] at hc
  have hdigit := Nat.isDigit_of_mem_toDigits (by decide) (by decide) hc
  simp only [Char.isDigit, Bool.and_eq_true, decide_eq_true_eq] at hdigit
  simp only [isDigitUnit, decide_eq_true_eq]
  exact hdigit

theorem numberText_ne_nil (n : ℕ) : numberText n ≠ [] := by
  unfold numberText
  rw [Nat.toList_repr]
  simp

/-- Parts of one kind that end where no such part follows are told from what follows. -/
theorem span_inj {α : Type} {p : α → Bool} {a b : List α} : ∀ {s t : List α},
    (∀ u ∈ s, p u = true) → (∀ u ∈ t, p u = true) → (∀ u ∈ a.head?, p u = false) →
    (∀ u ∈ b.head?, p u = false) → s ++ a = t ++ b → s = t ∧ a = b := by
  intro s
  induction s with
  | nil =>
    intro t _ ht ha _ h
    cases t with
    | nil => exact ⟨rfl, h⟩
    | cons v t =>
      have hv := ht v List.mem_cons_self
      rw [ha v (by rw [show a = v :: (t ++ b) from h]; rfl)] at hv
      cases hv
  | cons u s ih =>
    intro t hs ht ha hb h
    cases t with
    | nil =>
      have hu := hs u List.mem_cons_self
      rw [hb u (by rw [← show u :: (s ++ a) = b from h]; rfl)] at hu
      cases hu
    | cons v t =>
      obtain ⟨rfl, hrest⟩ := List.cons.inj h
      obtain ⟨rfl, hab⟩ := ih (fun u h => hs u (List.mem_cons_of_mem _ h))
        (fun u h => ht u (List.mem_cons_of_mem _ h)) ha hb hrest
      exact ⟨rfl, hab⟩

theorem numberText_inj {m n : ℕ} (ha : ∀ u ∈ a.head?, isDigitUnit u = false)
    (hb : ∀ u ∈ b.head?, isDigitUnit u = false) (h : numberText m ++ a = numberText n ++ b) :
    m = n ∧ a = b := by
  obtain ⟨hmn, hab⟩ := span_inj (fun _ => numberText_digits) (fun _ => numberText_digits) ha hb h
  refine ⟨repr_injective (String.ext_iff.2 ?_), hab⟩
  exact List.map_injective_iff.2 (fun c d hcd => Char.toNat_inj.1 hcd) hmn

/-! ## And a value -/

namespace Json

/-- The constructor of a value. -/
def kind : Json → ℕ
  | bool _ => 0
  | number _ => 1
  | string _ => 2
  | array _ => 3
  | object _ => 4

/-- It can be told from the first unit. -/
def kindOf (u : ℕ) : ℕ :=
  if u = 116 ∨ u = 102 then 0 else if isDigitUnit u then 1 else if u = 34 then 2
  else if u = 91 then 3 else 4

theorem stringify_head (v : Json) : ∃ c cs, v.stringify = c :: cs ∧ kindOf c = v.kind ∧ c ≠ 93 := by
  cases v with
  | bool value => cases value <;> exact ⟨_, _, rfl, rfl, by decide⟩
  | number n =>
    obtain ⟨c, cs, h⟩ := List.exists_cons_of_ne_nil (numberText_ne_nil n)
    have hdigit := numberText_digits (h ▸ List.mem_cons_self : c ∈ numberText n)
    refine ⟨c, cs, h, ?_, ?_⟩
    · have hnot : ¬(c = 116 ∨ c = 102) := by
        simp only [isDigitUnit, decide_eq_true_eq] at hdigit
        omega
      simp [kindOf, kind, hdigit, hnot]
    · simp only [isDigitUnit, decide_eq_true_eq] at hdigit
      omega
  | string text => exact ⟨_, _, rfl, rfl, by decide⟩
  | array items => cases items <;> exact ⟨_, _, rfl, rfl, by decide⟩
  | object members => cases members <;> exact ⟨_, _, rfl, rfl, by decide⟩

theorem kind_eq {v w : Json} (h : v.stringify ++ a = w.stringify ++ b) : v.kind = w.kind := by
  obtain ⟨c, cs, hv, hcv, -⟩ := stringify_head v
  obtain ⟨d, ds, hw, hdw, -⟩ := stringify_head w
  rw [hv, hw] at h
  rw [← hcv, ← hdw, (List.cons.inj h).1]

theorem items_head (items : List Json) (rest : List ℕ) :
    ∀ u ∈ (stringifyItems items ++ rest).head?, isDigitUnit u = false := by
  cases items <;> (intro u hu; cases hu; decide)

theorem members_head (members : List (List ℕ × Json)) (rest : List ℕ) :
    ∀ u ∈ (stringifyMembers members ++ rest).head?, isDigitUnit u = false := by
  cases members <;> (intro u hu; cases hu; decide)

mutual

theorem stringify_append_inj : ∀ (v w : Json) {a b : List ℕ},
    (∀ u ∈ a.head?, isDigitUnit u = false) → (∀ u ∈ b.head?, isDigitUnit u = false) →
    v.stringify ++ a = w.stringify ++ b → v = w ∧ a = b
  | bool v, w, a, b, _, _, h => by
    have hkind := kind_eq h
    cases w with
    | bool w =>
      cases v <;> cases w
      · exact ⟨rfl, List.append_cancel_left h⟩
      · exact absurd (List.cons.inj h).1 (by decide)
      · exact absurd (List.cons.inj h).1 (by decide)
      · exact ⟨rfl, List.append_cancel_left h⟩
    | number | string | array | object => cases hkind
  | number m, w, a, b, ha, hb, h => by
    have hkind := kind_eq h
    cases w with
    | number n =>
      obtain ⟨rfl, hab⟩ := numberText_inj ha hb h
      exact ⟨rfl, hab⟩
    | bool | string | array | object => cases hkind
  | string s, w, a, b, _, _, h => by
    have hkind := kind_eq h
    cases w with
    | string t =>
      obtain ⟨rfl, hab⟩ := quoted_inj h
      exact ⟨rfl, hab⟩
    | bool | number | array | object => cases hkind
  | array [], w, a, b, _, _, h => by
    have hkind := kind_eq h
    cases w with
    | array items =>
      cases items with
      | nil => exact ⟨rfl, List.append_cancel_left h⟩
      | cons y ys =>
        obtain ⟨c, cs, hy, -, hc⟩ := stringify_head y
        rw [stringify, stringify, hy] at h
        exact absurd (List.cons.inj (List.cons.inj h).2).1.symm hc
    | bool | number | string | object => cases hkind
  | array (x :: xs), w, a, b, _, _, h => by
    have hkind := kind_eq h
    cases w with
    | array items =>
      cases items with
      | nil =>
        obtain ⟨c, cs, hx, -, hc⟩ := stringify_head x
        rw [stringify, stringify, hx] at h
        exact absurd (List.cons.inj (List.cons.inj h).2).1 hc
      | cons y ys =>
        rw [stringify, stringify, List.cons_append, List.cons_append, List.cons_append,
          List.cons_append, List.append_assoc, List.append_assoc] at h
        obtain ⟨rfl, hrest⟩ := stringify_append_inj x y (items_head xs a) (items_head ys b)
          (List.cons.inj h).2
        obtain ⟨rfl, hab⟩ := stringifyItems_inj xs ys hrest
        exact ⟨rfl, hab⟩
    | bool | number | string | object => cases hkind
  | object [], w, a, b, _, _, h => by
    have hkind := kind_eq h
    cases w with
    | object members =>
      cases members with
      | nil => exact ⟨rfl, List.append_cancel_left h⟩
      | cons y ys => exact absurd (List.cons.inj (List.cons.inj h).2).1 (by decide)
    | bool | number | string | array => cases hkind
  | object ((key, x) :: xs), w, a, b, _, _, h => by
    have hkind := kind_eq h
    cases w with
    | object members =>
      cases members with
      | nil => exact absurd (List.cons.inj (List.cons.inj h).2).1 (by decide)
      | cons y ys =>
        obtain ⟨key', y⟩ := y
        simp only [stringify, List.cons_append, List.append_assoc, List.cons.injEq, true_and] at h
        obtain ⟨rfl, hvalue⟩ := quoted_inj h
        obtain ⟨rfl, hrest⟩ := stringify_append_inj x y (members_head xs a) (members_head ys b)
          (List.cons.inj hvalue).2
        obtain ⟨rfl, hab⟩ := stringifyMembers_inj xs ys hrest
        exact ⟨rfl, hab⟩
    | bool | number | string | array => cases hkind

theorem stringifyItems_inj : ∀ (xs ys : List Json) {a b : List ℕ},
    stringifyItems xs ++ a = stringifyItems ys ++ b → xs = ys ∧ a = b
  | [], [], a, b, h => ⟨rfl, List.append_cancel_left h⟩
  | [], y :: ys, a, b, h => absurd (List.cons.inj h).1 (by decide)
  | x :: xs, [], a, b, h => absurd (List.cons.inj h).1 (by decide)
  | x :: xs, y :: ys, a, b, h => by
    simp only [stringifyItems, List.cons_append, List.append_assoc, List.cons.injEq, true_and] at h
    obtain ⟨rfl, hrest⟩ := stringify_append_inj x y (items_head xs a) (items_head ys b) h
    obtain ⟨rfl, hab⟩ := stringifyItems_inj xs ys hrest
    exact ⟨rfl, hab⟩

theorem stringifyMembers_inj : ∀ (xs ys : List (List ℕ × Json)) {a b : List ℕ},
    stringifyMembers xs ++ a = stringifyMembers ys ++ b → xs = ys ∧ a = b
  | [], [], a, b, h => ⟨rfl, List.append_cancel_left h⟩
  | [], y :: ys, a, b, h => absurd (List.cons.inj h).1 (by decide)
  | x :: xs, [], a, b, h => absurd (List.cons.inj h).1 (by decide)
  | (key, x) :: xs, (key', y) :: ys, a, b, h => by
    simp only [stringifyMembers, List.cons_append, List.append_assoc, List.cons.injEq,
      true_and] at h
    obtain ⟨rfl, hvalue⟩ := quoted_inj h
    obtain ⟨rfl, hrest⟩ := stringify_append_inj x y (members_head xs a) (members_head ys b)
      (List.cons.inj hvalue).2
    obtain ⟨rfl, hab⟩ := stringifyMembers_inj xs ys hrest
    exact ⟨rfl, hab⟩

end

theorem stringify_injective : Function.Injective stringify := by
  intro v w h
  have := stringify_append_inj v w (a := []) (b := []) (by simp) (by simp) (by rw [h])
  exact this.1

end Json

end PinOp.Lib
