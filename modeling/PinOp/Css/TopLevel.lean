import Mathlib.Data.List.Basic
import PinOp.Css.Grammar

/-!
# The top level of a value

A value is split at separators that stand outside quotes and parentheses. Tokens that show no
separator there, and leave no quote or parenthesis open, can be put together and are split
apart again.
-/

namespace PinOp.Css

/-- The quote that is open, and how many parentheses are. -/
structure Nesting where
  quote : Option Char
  depth : ℤ
  deriving DecidableEq

namespace Nesting

def top : Nesting := ⟨none, 0⟩

def isQuote (c : Char) : Bool := doubleQuote.toList.contains c || singleQuote.toList.contains c

/-- The nesting behind a character. -/
def next (n : Nesting) (c : Char) : Nesting :=
  match n.quote with
  | some quote => { n with quote := if c = quote then none else some quote }
  | none =>
    if isQuote c then { n with quote := some c }
    else if c = '(' then { n with depth := n.depth + 1 }
    else if c = ')' then { n with depth := n.depth - 1 }
    else n

end Nesting

/-- The parts that are complete, and the characters of the one that is not. -/
structure Splitting where
  parts : List String
  current : List Char
  nesting : Nesting
  deriving DecidableEq

namespace Splitting

def start : Splitting := ⟨[], [], .top⟩

/-- The parts when the one that is read is complete. -/
def flush (s : Splitting) : List String :=
  if s.current = [] then s.parts else s.parts ++ [String.ofList s.current]

def append (s : Splitting) (c : Char) : Splitting :=
  { s with current := s.current ++ [c], nesting := s.nesting.next c }

/-- The loop of `splitTopLevel`. -/
def split (separator : Char) (s : Splitting) (c : Char) : Splitting :=
  if s.nesting.quote.isNone && !Nesting.isQuote c && c = separator && (s.nesting.next c).depth = 0
  then { parts := s.flush, current := [], nesting := s.nesting.next c }
  else s.append c

/-- The loop of `components`. -/
def component (s : Splitting) (c : Char) : Splitting :=
  if s.nesting.quote.isSome || Nesting.isQuote c || c = '(' || c = ')' then s.append c
  else if s.nesting.depth = 0 && (c = ' ' || c = '/') then
    { s with parts := if c = '/' then s.flush ++ ["/"] else s.flush, current := [] }
  else s.append c

end Splitting

/-- Splits on a separator that sits outside quotes and parentheses. -/
def splitTopLevel (value : String) (separator : Char) : List String :=
  (value.toList.foldl (Splitting.split separator) .start).flush

/-- The parts of a value that spaces separate, with a `/` at the top level as its own part. -/
def components (value : String) : List String :=
  (value.toList.foldl Splitting.component .start).flush

/-! ## Tokens -/

/-- From the nesting the text comes back to the top level, and shows no separator there. -/
def closedFrom (separates : Char → Bool) : Nesting → List Char → Bool
  | n, [] => n = .top
  | n, c :: cs => !(n = .top && separates c) && closedFrom separates (n.next c) cs

def separatesTokens (c : Char) : Bool := c = ' ' || c = '/' || c = ','

/-- What can stand between the separators of a value. -/
def isToken (text : String) : Bool := text ≠ "" && closedFrom separatesTokens .top text.toList

section

variable {p q : Char → Bool} {n : Nesting} {s t : List Char}

theorem closedFrom_mono (hpq : ∀ c, q c = true → p c = true) (h : closedFrom p n s = true) :
    closedFrom q n s = true := by
  induction s generalizing n with
  | nil => exact h
  | cons c cs ih =>
    simp only [closedFrom, Bool.and_eq_true, Bool.not_eq_true', Bool.and_eq_false_iff,
      decide_eq_false_iff_not] at h ⊢
    refine ⟨h.1.imp_right fun hp => ?_, ih h.2⟩
    by_contra hq
    rw [hpq c (by simpa using hq)] at hp
    cases hp

theorem closedFrom_append (hs : closedFrom p n s = true) (ht : closedFrom p .top t = true) :
    closedFrom p n (s ++ t) = true := by
  induction s generalizing n with
  | nil =>
    have hn : n = .top := by simpa [closedFrom] using hs
    rw [hn]
    exact ht
  | cons c cs ih =>
    simp only [closedFrom, Bool.and_eq_true] at hs
    simp only [List.cons_append, closedFrom, Bool.and_eq_true]
    exact ⟨hs.1, ih hs.2⟩

/-- A character that opens and closes nothing. -/
def isPlain (c : Char) : Bool := !Nesting.isQuote c && c ≠ '(' && c ≠ ')'

theorem next_of_isPlain {c : Char} (h : isPlain c = true) : Nesting.top.next c = .top := by
  simp only [isPlain, Bool.and_eq_true, Bool.not_eq_true', ne_eq, decide_not,
    decide_eq_false_iff_not] at h
  simp [Nesting.next, Nesting.top, h.1.1, h.1.2, h.2]

theorem closedFrom_intercalate {separator : Char} (hs : p separator = false)
    (hplain : isPlain separator = true) {texts : List (List Char)}
    (h : ∀ text ∈ texts, closedFrom p .top text = true) :
    closedFrom p .top ([separator].intercalate texts) = true := by
  induction texts with
  | nil => rfl
  | cons text texts ih =>
    have ht := h text List.mem_cons_self
    have ih := ih fun text hm => h text (List.mem_cons_of_mem _ hm)
    cases texts with
    | nil => simpa using ht
    | cons text' texts =>
      rw [List.intercalate_cons_cons, List.append_assoc]
      refine closedFrom_append ht (closedFrom_append ?_ ih)
      simp [closedFrom, hs, next_of_isPlain hplain]

/-! ## Splitting what was put together -/

/-- Where a closed text is read as it is, and a separator ends a part, the texts that are joined
by the separator are the parts. -/
theorem foldl_intercalate {step : Splitting → Char → Splitting} {separator : Char}
    {closed : List Char → Prop}
    (htext : ∀ parts current text, closed text →
      text.foldl step ⟨parts, current, .top⟩ = ⟨parts, current ++ text, .top⟩)
    (hseparator : ∀ parts current, step ⟨parts, current, .top⟩ separator =
      ⟨Splitting.flush ⟨parts, current, .top⟩, [], .top⟩)
    (texts : List (List Char)) (h : ∀ text ∈ texts, text ≠ [] ∧ closed text)
    (parts : List String) :
    (([separator].intercalate texts).foldl step ⟨parts, [], .top⟩).flush =
      parts ++ texts.map String.ofList := by
  induction texts generalizing parts with
  | nil => simp [Splitting.flush]
  | cons text texts ih =>
    obtain ⟨hne, hclosed⟩ := h text List.mem_cons_self
    have ih := ih fun text hm => h text (List.mem_cons_of_mem _ hm)
    cases texts with
    | nil => simp [htext _ _ _ hclosed, Splitting.flush, hne]
    | cons text' texts =>
      rw [List.intercalate_cons_cons, List.append_assoc, List.foldl_append,
        htext _ _ _ hclosed, List.foldl_append, List.foldl_cons, List.foldl_nil, hseparator, ih]
      simp [Splitting.flush, hne]

theorem foldl_split {separator : Char} (hplain : isPlain separator = true) (parts : List String)
    (current text : List Char) (n : Nesting) (h : closedFrom (· = separator) n text = true) :
    text.foldl (Splitting.split separator) ⟨parts, current, n⟩ =
      ⟨parts, current ++ text, .top⟩ := by
  induction text generalizing current n with
  | nil =>
    have hn : n = .top := by simpa [closedFrom] using h
    rw [hn, List.append_nil]
    rfl
  | cons c cs ih =>
    simp only [closedFrom, Bool.and_eq_true, Bool.not_eq_true', Bool.and_eq_false_iff,
      decide_eq_false_iff_not] at h
    obtain ⟨htop, hcs⟩ := h
    have hstep : Splitting.split separator ⟨parts, current, n⟩ c =
        ⟨parts, current ++ [c], n.next c⟩ := by
      unfold Splitting.split
      rw [if_neg]
      · rfl
      · -- a separator that ends a part stands at the top level
        intro hsep
        simp only [Bool.and_eq_true, Option.isNone_iff_eq_none, Bool.not_eq_true',
          decide_eq_true_eq] at hsep
        obtain ⟨⟨⟨hquote, -⟩, rfl⟩, hdepth⟩ := hsep
        obtain ⟨quote, depth⟩ := n
        simp only at hquote
        subst hquote
        simp only [isPlain, Bool.and_eq_true, Bool.not_eq_true', ne_eq, decide_not,
          decide_eq_false_iff_not] at hplain
        simp only [Nesting.next, hplain.1.1, hplain.1.2, hplain.2, Bool.false_eq_true,
          if_false] at hdepth
        rcases htop with htop | htop
        · exact htop (by rw [hdepth]; rfl)
        · exact htop rfl
    rw [List.foldl_cons, hstep, ih _ _ hcs, List.append_assoc, List.singleton_append]

theorem foldl_component (parts : List String) (current text : List Char) (n : Nesting)
    (h : closedFrom separatesTokens n text = true) :
    text.foldl Splitting.component ⟨parts, current, n⟩ = ⟨parts, current ++ text, .top⟩ := by
  induction text generalizing current n with
  | nil =>
    have hn : n = .top := by simpa [closedFrom] using h
    rw [hn, List.append_nil]
    rfl
  | cons c cs ih =>
    simp only [closedFrom, Bool.and_eq_true, Bool.not_eq_true', Bool.and_eq_false_iff,
      decide_eq_false_iff_not] at h
    obtain ⟨htop, hcs⟩ := h
    have hstep : Splitting.component ⟨parts, current, n⟩ c =
        ⟨parts, current ++ [c], n.next c⟩ := by
      unfold Splitting.component
      split
      · rfl
      · rename_i hplain
        rw [if_neg]
        · rfl
        · intro hsep
          simp only [Bool.and_eq_true, Bool.or_eq_true, decide_eq_true_eq] at hsep
          simp only [Bool.or_eq_true, not_or] at hplain
          obtain ⟨quote, depth⟩ := n
          obtain ⟨rfl, hc⟩ := hsep
          obtain rfl : quote = none := by simpa using hplain.1.1.1
          rcases htop with htop | htop
          · exact htop rfl
          · simp only [separatesTokens, Bool.or_eq_false_iff, decide_eq_false_iff_not] at htop
            rcases hc with hc | hc
            · exact htop.1.1 hc
            · exact htop.1.2 hc
    rw [List.foldl_cons, hstep, ih _ _ hcs, List.append_assoc, List.singleton_append]

end

/-- Layers that are joined by commas are split into the layers. -/
theorem splitTopLevel_intercalate {texts : List String}
    (h : ∀ text ∈ texts, text ≠ "" ∧ closedFrom (· = ',') .top text.toList = true) :
    splitTopLevel (",".intercalate texts) ',' = texts := by
  unfold splitTopLevel
  rw [String.toList_intercalate]
  refine (@foldl_intercalate _ ',' (fun text => closedFrom (· = ',') .top text = true)
    (fun parts current text ht => foldl_split (by decide) parts current text .top ht)
    (fun parts current => rfl) (texts.map String.toList) ?_ []).trans ?_
  · intro text hm
    obtain ⟨text, ht, rfl⟩ := List.mem_map.mp hm
    exact ⟨by simpa using (h text ht).1, (h text ht).2⟩
  · simp

/-- Tokens that are joined by spaces are its components. -/
theorem components_intercalate {tokens : List String} (h : ∀ token ∈ tokens, isToken token = true) :
    components (" ".intercalate tokens) = tokens := by
  unfold components
  rw [String.toList_intercalate]
  refine (@foldl_intercalate _ ' ' (fun text => closedFrom separatesTokens .top text = true)
    (fun parts current text ht => foldl_component parts current text .top ht)
    (fun parts current => rfl) (tokens.map String.toList) ?_ []).trans ?_
  · intro text hm
    obtain ⟨token, ht, rfl⟩ := List.mem_map.mp hm
    have htoken := h token ht
    simp only [isToken, Bool.and_eq_true, decide_eq_true_eq, ne_eq] at htoken
    exact ⟨by simpa using htoken.1, htoken.2⟩
  · simp

/-- Tokens that are joined by spaces show no comma at the top level. -/
theorem closedFrom_tokens {tokens : List String} (h : ∀ token ∈ tokens, isToken token = true) :
    closedFrom (· = ',') .top (" ".intercalate tokens).toList = true := by
  rw [String.toList_intercalate]
  refine closedFrom_intercalate (by decide) (by decide) fun text hm => ?_
  obtain ⟨token, ht, rfl⟩ := List.mem_map.mp hm
  have htoken := h token ht
  simp only [isToken, Bool.and_eq_true] at htoken
  refine closedFrom_mono (fun c hc => ?_) htoken.2
  simp only [decide_eq_true_eq] at hc
  subst hc
  rfl

end PinOp.Css
