import Mathlib

/-!
# Texts as code units

An ECMAScript string is a list of UTF-16 code units, in which surrogates need not stand in pairs.
Iterating over it yields its scalars: pairs of surrogates, and units of their own. A lone surrogate
is written as the replacement character; `toWellFormed` does so for a whole text, and `utf8Length`
counts the bytes that are then written.
-/

namespace PinOp.Lib

def isHighSurrogate (u : ℕ) : Bool := 0xd800 ≤ u ∧ u ≤ 0xdbff

def isLowSurrogate (u : ℕ) : Bool := 0xdc00 ≤ u ∧ u ≤ 0xdfff

def isSurrogate (u : ℕ) : Bool := 0xd800 ≤ u ∧ u ≤ 0xdfff

/-- What iteration over a string yields. -/
def scalars : List ℕ → List (List ℕ)
  | [] => []
  | [u] => [[u]]
  | u :: v :: rest =>
    if isHighSurrogate u && isLowSurrogate v then [u, v] :: scalars rest
    else [u] :: scalars (v :: rest)

/-- A scalar, or the replacement character for a lone surrogate. -/
def safeScalar : List ℕ → List ℕ
  | [u] => if isSurrogate u then [0xfffd] else [u]
  | scalar => scalar

/-- The bytes of a scalar that is no lone surrogate. -/
def scalarBytes : List ℕ → ℕ
  | [u] => if u < 0x80 then 1 else if u < 0x800 then 2 else 3
  | _ => 4

def toWellFormed (text : List ℕ) : List ℕ := (scalars text).flatMap safeScalar

def utf8Length (text : List ℕ) : ℕ :=
  ((scalars text).map fun scalar => scalarBytes (safeScalar scalar)).sum

/-- A unit, or a pair of surrogates. -/
def IsScalar (scalar : List ℕ) : Prop :=
  (∃ u, scalar = [u]) ∨ ∃ u v, isHighSurrogate u = true ∧ isLowSurrogate v = true ∧ scalar = [u, v]

/-- The two scalars do not run into a pair. -/
def Apart (left right : List ℕ) : Prop :=
  ∀ u, left = [u] → isHighSurrogate u = true → ∀ v ∈ right.head?, isLowSurrogate v = false

theorem flatten_scalars (text : List ℕ) : (scalars text).flatten = text := by
  fun_induction scalars text with
  | case1 => rfl
  | case2 u => rfl
  | case3 u v rest hpair ih => rw [List.flatten_cons, ih]; rfl
  | case4 u v rest hpair ih => rw [List.flatten_cons, ih]; rfl

theorem isScalar_of_mem {text scalar : List ℕ} (h : scalar ∈ scalars text) : IsScalar scalar := by
  fun_induction scalars text with
  | case1 => exact absurd h List.not_mem_nil
  | case2 u => exact .inl ⟨u, List.mem_singleton.mp h⟩
  | case3 u v rest hpair ih =>
    rcases List.mem_cons.mp h with rfl | h
    · obtain ⟨hu, hv⟩ := Bool.and_eq_true_iff.mp hpair
      exact .inr ⟨u, v, hu, hv, rfl⟩
    · exact ih h
  | case4 u v rest hpair ih =>
    rcases List.mem_cons.mp h with rfl | h
    · exact .inl ⟨u, rfl⟩
    · exact ih h

theorem head?_scalars (u : ℕ) (rest : List ℕ) :
    ∃ scalar after, scalars (u :: rest) = scalar :: after ∧ scalar.head? = some u := by
  cases rest with
  | nil => exact ⟨_, _, rfl, rfl⟩
  | cons v rest =>
    rw [scalars]
    split
    · exact ⟨_, _, rfl, rfl⟩
    · exact ⟨_, _, rfl, rfl⟩

theorem isChain_scalars (text : List ℕ) : (scalars text).IsChain Apart := by
  fun_induction scalars text with
  | case1 => exact .nil
  | case2 u => exact .singleton _
  | case3 u v rest hpair ih =>
    refine List.isChain_cons.mpr ⟨fun scalar _ w hw => ?_, ih⟩
    cases hw
  | case4 u v rest hpair ih =>
    refine List.isChain_cons.mpr ⟨fun scalar hscalar w hw hhigh x hx => ?_, ih⟩
    obtain ⟨first, after, hfirst, hhead⟩ := head?_scalars v rest
    rw [hfirst] at hscalar
    obtain rfl := Option.some.inj hscalar
    rw [hhead] at hx
    obtain rfl := Option.some.inj hx
    obtain rfl : u = w := by simpa using hw
    cases hlow : isLowSurrogate v with
    | false => rfl
    | true => exact absurd (Bool.and_eq_true_iff.mpr ⟨hhigh, hlow⟩) hpair

theorem high_ne_low {u : ℕ} (h : isHighSurrogate u = true) : isLowSurrogate u = false := by
  simp only [isHighSurrogate, isLowSurrogate, decide_eq_true_eq, decide_eq_false_iff_not] at *
  omega

/-- Scalars that stay apart are those of the text they make up. -/
theorem scalars_flatten {ss : List (List ℕ)} (hscalar : ∀ s ∈ ss, IsScalar s)
    (hchain : ss.IsChain Apart) : scalars ss.flatten = ss := by
  induction ss with
  | nil => rfl
  | cons s ss ih =>
    obtain ⟨hapart, hrest⟩ := List.isChain_cons.mp hchain
    have ihrest := ih (fun x hx => hscalar x (List.mem_cons_of_mem _ hx)) hrest
    rcases hscalar s List.mem_cons_self with ⟨u, rfl⟩ | ⟨u, v, hu, hv, rfl⟩
    · cases ss with
      | nil => rfl
      | cons next ss =>
        rw [List.flatten_cons, List.singleton_append]
        have hnext := hscalar next (List.mem_cons_of_mem _ List.mem_cons_self)
        obtain ⟨v, after, hflat, hhead⟩ :
            ∃ v after, (next :: ss).flatten = v :: after ∧ next.head? = some v := by
          rcases hnext with ⟨v, rfl⟩ | ⟨v, w, -, -, rfl⟩
          · exact ⟨v, _, rfl, rfl⟩
          · exact ⟨v, _, rfl, rfl⟩
        rw [hflat] at ihrest ⊢
        rw [scalars, if_neg, ihrest]
        intro hpair
        obtain ⟨hu, hv⟩ := Bool.and_eq_true_iff.mp hpair
        rw [hapart next rfl u rfl hu v hhead] at hv
        cases hv
    · show scalars (u :: v :: ss.flatten) = _
      rw [scalars, if_pos (Bool.and_eq_true_iff.mpr ⟨hu, hv⟩), ihrest]

/-- The first scalars of a text are the scalars of a prefix of it. -/
theorem scalars_take (text : List ℕ) (n : ℕ) :
    scalars ((scalars text).take n).flatten = (scalars text).take n :=
  scalars_flatten (fun _ hs => isScalar_of_mem (List.mem_of_mem_take hs))
    ((isChain_scalars text).take n)

theorem flatten_take_isPrefix (text : List ℕ) (n : ℕ) :
    ((scalars text).take n).flatten <+: text := by
  obtain ⟨rest, hrest⟩ := List.take_prefix n (scalars text)
  exact ⟨rest.flatten, by rw [← List.flatten_append, hrest, flatten_scalars]⟩

theorem isSurrogate_iff {u : ℕ} :
    isSurrogate u = true ↔ isHighSurrogate u = true ∨ isLowSurrogate u = true := by
  simp only [isSurrogate, isHighSurrogate, isLowSurrogate, decide_eq_true_eq]
  omega

theorem safeScalar_singleton (u : ℕ) :
    safeScalar [u] = if isSurrogate u then [0xfffd] else [u] := rfl

/-- Written scalars are read back. -/
theorem scalars_flatMap_safeScalar (ss : List (List ℕ)) (hscalar : ∀ s ∈ ss, IsScalar s) :
    scalars (ss.flatMap safeScalar) = ss.map safeScalar := by
  have hsafe : ∀ s ∈ ss, IsScalar (safeScalar s) ∧
      ∀ u, safeScalar s = [u] → isSurrogate u = false := by
    intro s hs
    rcases hscalar s hs with ⟨u, rfl⟩ | ⟨u, v, hu, hv, rfl⟩
    · rw [safeScalar_singleton]
      split
      · refine ⟨.inl ⟨_, rfl⟩, fun w hw => ?_⟩
        obtain rfl : 0xfffd = w := List.singleton_injective hw
        decide
      · rename_i hlone
        refine ⟨.inl ⟨_, rfl⟩, fun w hw => ?_⟩
        obtain rfl : u = w := List.singleton_injective hw
        simpa using hlone
    · exact ⟨.inr ⟨u, v, hu, hv, rfl⟩, fun w hw => absurd hw (by simp [safeScalar])⟩
  rw [List.flatMap_def]
  refine scalars_flatten ?_ ?_
  · intro s hs
    obtain ⟨s', hs', rfl⟩ := List.mem_map.mp hs
    exact (hsafe s' hs').1
  · refine List.Pairwise.isChain ?_
    refine List.pairwise_of_forall_mem_list fun left hleft right _ u hu hhigh => ?_
    obtain ⟨s, hs, rfl⟩ := List.mem_map.mp hleft
    have hno := (hsafe s hs).2 u hu
    rw [isSurrogate_iff.mpr (.inl hhigh)] at hno
    cases hno

theorem safeScalar_safeScalar {s : List ℕ} (hs : IsScalar s) :
    safeScalar (safeScalar s) = safeScalar s := by
  rcases hs with ⟨u, rfl⟩ | ⟨u, v, -, -, rfl⟩
  · rw [safeScalar_singleton]
    cases hu : isSurrogate u with
    | true => rfl
    | false => simp [safeScalar_singleton, hu]
  · rfl

/-- A text keeps its length in bytes when its lone surrogates are replaced. -/
theorem utf8Length_toWellFormed (text : List ℕ) :
    utf8Length (toWellFormed text) = utf8Length text := by
  unfold utf8Length toWellFormed
  rw [scalars_flatMap_safeScalar _ fun _ hs => isScalar_of_mem hs, List.map_map]
  refine congrArg List.sum (List.map_congr_left fun s hs => ?_)
  exact congrArg scalarBytes (safeScalar_safeScalar (isScalar_of_mem hs))

end PinOp.Lib
