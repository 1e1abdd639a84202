import PinOp.Lib.Decimal

/-!
# Node references and scopes

A node reference is `node-` with a positive number behind it; a scope is a frame of a document,
and is looked up by a text in which colons separate its parts. Both texts can be read back.
-/

namespace PinOp.Dom

open PinOp.Lib

/-- The largest number that `Number.isSafeInteger` accepts. -/
def maxSafeInteger : ℕ := 2 ^ 53 - 1

def maxRefLength : ℕ := 24

/-- `[1-9]\d*` -/
def isNumeral : List Char → Bool
  | [] => false
  | c :: cs => c.isDigit && c ≠ '0' && cs.all Char.isDigit

/-- The text has this prefix and a numeral behind it, and is not too long. -/
def isRefOf (head : List Char) (text : String) : Bool :=
  text.length ≤ maxRefLength && head.isPrefixOf text.toList &&
    isNumeral (text.toList.drop head.length)

def isNodeRef (text : String) : Bool := isRefOf "node-".toList text

def isFrameRef (text : String) : Bool := isRefOf "frame-".toList text

/-- The reference that has this number. -/
def nodeRef (n : ℕ) : String := "node-" ++ n.repr

/-- The numbers of a scope are integers; that they are safe is checked. -/
@[ext]
structure NodeScope where
  documentEpoch : ℕ
  frameRef : String
  frameEpoch : ℕ
  deriving DecidableEq, Repr

def isNodeScope (scope : NodeScope) : Bool :=
  scope.documentEpoch ≤ maxSafeInteger && isFrameRef scope.frameRef &&
    scope.frameEpoch ≤ maxSafeInteger

def sameScope (left right : NodeScope) : Bool :=
  left.documentEpoch = right.documentEpoch && left.frameRef = right.frameRef &&
    left.frameEpoch = right.frameEpoch

def createScopeKey (scope : NodeScope) : String :=
  scope.documentEpoch.repr ++ ":" ++ scope.frameRef ++ ":" ++ scope.frameEpoch.repr

theorem sameScope_iff {left right : NodeScope} : sameScope left right = true ↔ left = right := by
  simp only [sameScope, Bool.and_eq_true, decide_eq_true_eq, NodeScope.ext_iff, and_assoc]

@[simp] theorem sameScope_self (scope : NodeScope) : sameScope scope scope = true :=
  sameScope_iff.mpr rfl

/-! ## References -/

theorem nodeRef_injective : Function.Injective nodeRef := by
  intro m n h
  have htoList := congrArg String.toList h
  simp only [nodeRef, String.toList_append, List.append_cancel_left_eq] at htoList
  exact repr_injective (String.toList_inj.mp htoList)

theorem isNumeral_append {cs ds : List Char} (hcs : isNumeral cs = true)
    (hds : ds.all Char.isDigit = true) : isNumeral (cs ++ ds) = true := by
  cases cs with
  | nil => cases hcs
  | cons c cs =>
    simp only [isNumeral, Bool.and_eq_true] at hcs
    simp only [List.cons_append, isNumeral, List.all_append, Bool.and_eq_true]
    exact ⟨hcs.1, hcs.2, hds⟩

theorem isNumeral_digit : ∀ n < 10, 0 < n → isNumeral [n.digitChar] = true := by
  decide

theorem isDigit_digitChar : ∀ n < 10, n.digitChar.isDigit = true := by
  decide

theorem isNumeral_toDigits (n : ℕ) (h0 : 0 < n) : isNumeral (Nat.toDigits 10 n) = true := by
  induction n using Nat.strongRecOn with
  | ind n ih =>
    by_cases h : n < 10
    · rw [Nat.toDigits_of_lt_base h]
      exact isNumeral_digit n h h0
    · rw [Nat.toDigits_of_base_le (by omega) (by omega)]
      refine isNumeral_append (ih (n / 10) (by omega) (by omega)) ?_
      simp [isDigit_digitChar (n % 10) (Nat.mod_lt n (by omega))]

/-- The references that are given out are ones that are recognised. -/
theorem isNodeRef_nodeRef {n : ℕ} (h0 : 0 < n) (h : n ≤ maxSafeInteger) :
    isNodeRef (nodeRef n) = true := by
  have htoList : (nodeRef n).toList = "node-".toList ++ Nat.toDigits 10 n := by
    rw [nodeRef, String.toList_append, Nat.toList_repr]
  have hlength : n.repr.length ≤ 16 :=
    Nat.repr_length n 16 (by omega) (lt_of_le_of_lt h (by decide))
  simp only [isNodeRef, isRefOf, htoList, Bool.and_eq_true, decide_eq_true_eq]
  refine ⟨⟨?_, by simp⟩, ?_⟩
  · rw [nodeRef, String.length_append]
    show 5 + n.repr.length ≤ 24
    omega
  · rw [List.drop_left]
    exact isNumeral_toDigits n h0

/-! ## Scope keys -/

theorem isDigit_of_isNumeral {cs : List Char} (h : isNumeral cs = true) :
    ∀ c ∈ cs, c.isDigit = true := by
  cases cs with
  | nil => cases h
  | cons c cs =>
    simp only [isNumeral, Bool.and_eq_true, List.all_eq_true] at h
    intro d hd
    rcases List.mem_cons.mp hd with rfl | hd
    · exact h.1.1
    · exact h.2 d hd

theorem colon_notMem_frameRef {text : String} (h : isFrameRef text = true) :
    ':' ∉ text.toList := by
  simp only [isFrameRef, isRefOf, Bool.and_eq_true, List.isPrefixOf_iff_prefix] at h
  obtain ⟨⟨-, rest, hrest⟩, hnum⟩ := h
  rw [← hrest, List.drop_left] at hnum
  rw [← hrest]
  intro hm
  rcases List.mem_append.mp hm with hm | hm
  · revert hm
    decide
  · exact absurd (isDigit_of_isNumeral hnum _ hm) (by decide)

/-- What stands before the first colon, and what behind it, is determined. -/
theorem append_colon_inj {xs xs' ys ys' : List Char} (hx : ':' ∉ xs) (hx' : ':' ∉ xs')
    (h : xs ++ ':' :: ys = xs' ++ ':' :: ys') : xs = xs' ∧ ys = ys' := by
  induction xs generalizing xs' with
  | nil =>
    cases xs' with
    | nil => exact ⟨rfl, (List.cons.inj h).2⟩
    | cons x xs' => exact absurd (List.mem_cons.mpr (.inl (List.cons.inj h).1)) hx'
  | cons x xs ih =>
    cases xs' with
    | nil => exact absurd (List.mem_cons.mpr (.inl (List.cons.inj h).1.symm)) hx
    | cons x' xs' =>
      rw [List.cons_append, List.cons_append, List.cons.injEq] at h
      obtain ⟨rfl, h⟩ := h
      obtain ⟨rfl, hy⟩ := ih (fun hm => hx (List.mem_cons_of_mem _ hm))
        (fun hm => hx' (List.mem_cons_of_mem _ hm)) h
      exact ⟨rfl, hy⟩

/-- Two scopes of frames have the same key only if they are the same. -/
theorem createScopeKey_inj {scope scope' : NodeScope} (hs : isNodeScope scope = true)
    (hs' : isNodeScope scope' = true) (h : createScopeKey scope = createScopeKey scope') :
    scope = scope' := by
  simp only [isNodeScope, Bool.and_eq_true] at hs hs'
  have htoList := congrArg String.toList h
  simp only [createScopeKey, String.toList_append, List.append_assoc] at htoList
  obtain ⟨hdoc, hrest⟩ := append_colon_inj (notMem_repr (by decide) _) (notMem_repr (by decide) _) htoList
  obtain ⟨hframe, hepoch⟩ := append_colon_inj (colon_notMem_frameRef hs.1.2)
    (colon_notMem_frameRef hs'.1.2) hrest
  cases scope
  cases scope'
  simp only [NodeScope.mk.injEq]
  exact ⟨repr_injective (String.toList_inj.mp hdoc), String.toList_inj.mp hframe,
    repr_injective (String.toList_inj.mp hepoch)⟩

end PinOp.Dom
