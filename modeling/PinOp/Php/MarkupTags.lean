import Mathlib.Data.List.TakeWhile
import PinOp.Php.MarkupParts

/-!
# Reading written tags

The scanner of an open tag goes over the written items one by one, each with the white space behind
it, and answers with their attributes.
-/

namespace PinOp.Php

open PinOp.Lib

variable {text us vs more needle W : List ℕ} {i j x u y : ℕ} {p : ℕ → Bool}
  {toLowerCase : List ℕ → List ℕ} {attributes : List PhpMarkupAttribute}

/-! ## Runs of units -/

/-- A run of units of the kind ends at the first that is not. -/
theorem takeWhile_stands (h : Stands text i (us ++ x :: more)) (hus : ∀ u ∈ us, p u = true)
    (hx : p x = false) : (text.drop i).takeWhile p = us := by
  obtain ⟨rest, hrest⟩ := h
  rw [← hrest, List.append_assoc, List.takeWhile_append_of_pos hus, List.cons_append,
    List.takeWhile_cons_of_neg (by simp [hx]), List.append_nil]

theorem skipWhitespace_blank (hW : isBlank W = true) (hx : isWhitespace x = false)
    (h : Stands text i (W ++ x :: more)) : skipWhitespace text i = i + W.length := by
  rw [skipWhitespace, takeWhile_stands h (List.all_eq_true.1 hW) hx]

theorem not_startsWith {v : ℕ} (h : text[i]? = some u) (hu : u ≠ v) :
    startsWith text i (v :: needle) = false := by
  cases hstarts : startsWith text i (v :: needle) with
  | false => rfl
  | true =>
    have hv := (startsWith_iff.1 hstarts).head
    exact absurd (Option.some.inj (h.symm.trans hv)) hu

/-! ## One item -/

abbrev tagScan (text : List ℕ) (toLowerCase : List ℕ → List ℕ) :
    ℕ → ℕ → List PhpMarkupAttribute → OpenTag :=
  readOpenTagFrom text toLowerCase

theorem scans_blank (hW : isBlank W = true) (h : Stands text i W) :
    Scans (tagScan text toLowerCase) text.length i attributes (i + W.length) attributes := by
  induction W generalizing i with
  | nil => exact .refl _ _ _ _
  | cons u W ih =>
    have hu : text[i]? = some u := h.head
    have hlt := (List.getElem?_eq_some_iff.1 hu).1
    have hall := List.all_eq_true.1 hW
    have hspace := hall u List.mem_cons_self
    have hfirst : Scans (tagScan text toLowerCase) text.length i attributes (i + 1) attributes := by
      refine Scans.step hlt (Nat.lt_succ_self i) fun rounds => ?_
      rw [tagScan, readOpenTagFrom, hu]
      simp [hspace]
    have hrest := ih (List.all_eq_true.2 fun v hv => hall v (List.mem_cons_of_mem _ hv)) h.tail
    rw [show i + 1 + W.length = i + (u :: W).length by
      rw [List.length_cons]
      omega] at hrest
    exact hfirst.trans hrest

/-- A unit of a name begins neither a block nor the end of the tag. -/
theorem isAttributeNameUnit_kinds (h : isAttributeNameUnit u = true) :
    isWhitespace u = false ∧ u ≠ 0x3d ∧ u ≠ 0x3e ∧ u ≠ 0x2f ∧ u ≠ 0x3c := by
  simp only [isAttributeNameUnit, Bool.not_eq_true', Bool.or_eq_false_iff,
    decide_eq_false_iff_not] at h
  exact ⟨h.1.1.1.1, h.1.1.1.2, h.1.1.2, h.1.2, h.2⟩

/-- The round that reads a name. -/
theorem readOpenTagFrom_name (hu : text[i]? = some u) (hname : isAttributeNameUnit u = true)
    (rounds : ℕ) :
    readOpenTagFrom text toLowerCase (rounds + 1) i attributes =
      (let name := readAttributeName text i
       if name.length = 0 then readOpenTagFrom text toLowerCase rounds (i + 1) attributes
       else
         let afterName := skipWhitespace text (i + name.length)
         if text[afterName]? ≠ some 0x3d then
           readOpenTagFrom text toLowerCase rounds afterName (pushAttribute attributes
             ⟨toLowerCase name, [], false⟩)
         else
           let value := readAttributeValue text (skipWhitespace text (afterName + 1))
           readOpenTagFrom text toLowerCase rounds value.endOffset
             (pushAttribute attributes ⟨toLowerCase name, value.literalValue, value.dynamic⟩)) := by
  obtain ⟨hspace, -, hgt, hslash, hlt⟩ := isAttributeNameUnit_kinds hname
  have hopens : startsWith text i (ascii "<?") = false := not_opens hlt hu
  have hcloses : startsWith text i (ascii "/>") = false := not_startsWith hu hslash
  rw [readOpenTagFrom, hu]
  simp only [hspace, hopens, hcloses, Bool.false_eq_true, if_false, if_neg hgt, if_neg hslash]

theorem dropWhile_blank (hW : isBlank W = true) (hy : isWhitespace y = false) :
    (W ++ y :: more).dropWhile isWhitespace = y :: more := by
  rw [List.dropWhile_append_of_pos (List.all_eq_true.1 hW), List.dropWhile_cons_of_neg (by simp [hy])]

theorem scans_valueless {name : List ℕ} (hname : name ≠ [])
    (hunits : ∀ u ∈ name, isAttributeNameUnit u = true) (hW : isBlank W = true)
    (hy : isWhitespace y = false)
    (hends : (Item.named name none).endsBefore (W ++ y :: more) = true)
    (h : Stands text i (name ++ (W ++ y :: more))) :
    Scans (tagScan text toLowerCase) text.length i attributes (i + name.length + W.length)
      (pushAttribute attributes ⟨toLowerCase name, [], false⟩) := by
  obtain ⟨u, name', rfl⟩ := List.exists_cons_of_ne_nil hname
  have hu : text[i]? = some u := h.head
  have hlt := (List.getElem?_eq_some_iff.1 hu).1
  simp only [Item.endsBefore, dropWhile_blank hW hy, Bool.and_eq_true, Bool.not_eq_true',
    decide_eq_true_eq] at hends
  obtain ⟨hstop, heq⟩ := hends
  have hread : readAttributeName text i = u :: name' := by
    cases hbehind : W ++ y :: more with
    | nil => simp at hbehind
    | cons x vs =>
      rw [hbehind] at h hstop
      exact takeWhile_stands h hunits (by simpa using hstop)
  have hafter : skipWhitespace text (i + (u :: name').length) =
      i + (u :: name').length + W.length := skipWhitespace_blank hW hy h.right
  have hnext : text[i + (u :: name').length + W.length]? = some y := h.right.next
  refine Scans.step hlt (by rw [List.length_cons]; omega) fun rounds => ?_
  have hne : y ≠ 0x3d := by simpa using heq
  rw [tagScan, readOpenTagFrom_name hu (hunits u List.mem_cons_self), hread]
  dsimp only
  rw [hafter, hnext]
  simp [hne]

theorem head_not_white {v : Value} (hv : v.Fits) (h : v.units = u :: us) :
    isWhitespace u = false := by
  cases v with
  | quoted quote m =>
    have hu : quote = u := (List.cons.inj h).1
    rcases hv.1 with hquote | hquote <;> rw [← hu, hquote] <;> rfl
  | unquoted m =>
    obtain ⟨first, rest⟩ := m
    have hunits : first ++ rest.flatMap (fun p => block p.1 ++ p.2) = u :: us := h
    cases first with
    | cons w first =>
      have hw := hv.1.1.2 w List.mem_cons_self
      rw [← (List.cons.inj hunits).1]
      simp only [Value.isUnquotedUnit, Bool.and_eq_true, Bool.not_eq_true'] at hw
      exact hw.1.1
    | nil =>
      cases rest with
      | nil => cases hunits
      | cons q rest =>
        have hu : 0x3c = u := (List.cons.inj hunits).1
        rw [← hu]
        rfl

theorem scans_assigned {name : List ℕ} {a : Assigned} (hname : name ≠ [])
    (hunits : ∀ u ∈ name, isAttributeNameUnit u = true) (hbefore : isBlank a.before = true)
    (hafter : isBlank a.after = true) (hvalue : a.value.Fits)
    (hends : a.value.endsBefore (x :: more) = true)
    (h : Stands text i ((Item.named name (some a)).units ++ x :: more)) :
    Scans (tagScan text toLowerCase) text.length i attributes
      (i + (Item.named name (some a)).units.length)
      (pushAttribute attributes
        ⟨toLowerCase name, trim a.value.mixed.literal, a.value.mixed.dynamic⟩) := by
  obtain ⟨u, name', rfl⟩ := List.exists_cons_of_ne_nil hname
  have hshape : (Item.named (u :: name') (some a)).units ++ x :: more =
      (u :: name') ++ (a.before ++ 0x3d :: (a.after ++ (a.value.units ++ x :: more))) := by
    simp [Item.units, List.append_assoc]
  have hlen : (Item.named (u :: name') (some a)).units.length =
      (u :: name').length + a.before.length + 1 + a.after.length + a.value.units.length := by
    simp only [Item.units, Option.elim_some, List.length_append, List.length_cons]
    omega
  rw [hshape] at h
  have hu : text[i]? = some u := h.head
  have hlt := (List.getElem?_eq_some_iff.1 hu).1
  have hread : readAttributeName text i = u :: name' := by
    cases hb : a.before with
    | nil =>
      rw [hb] at h
      exact takeWhile_stands h hunits (by decide)
    | cons w before =>
      rw [hb] at h hbefore
      refine takeWhile_stands h hunits ?_
      have hw : isWhitespace w = true := (List.all_eq_true.1 hbefore) w List.mem_cons_self
      simp [isAttributeNameUnit, hw]
  have hafterName : skipWhitespace text (i + (u :: name').length) =
      i + (u :: name').length + a.before.length :=
    skipWhitespace_blank hbefore (by decide) h.right
  have heq : text[i + (u :: name').length + a.before.length]? = some 0x3d := h.right.next
  have hbehind : Stands text (i + (u :: name').length + a.before.length + 1)
      (a.after ++ (a.value.units ++ x :: more)) := h.right.right.tail
  -- the value begins with a unit that is no white space
  have hskip : skipWhitespace text (i + (u :: name').length + a.before.length + 1) =
      i + (u :: name').length + a.before.length + 1 + a.after.length := by
    cases hv : a.value.units with
    | nil =>
      cases hval : a.value with
      | quoted quote m => rw [hval] at hv; simp [Value.units] at hv
      | unquoted m => rw [hval] at hv hvalue; exact absurd hv hvalue.2.1
    | cons v vs =>
      rw [hv] at hbehind
      refine skipWhitespace_blank hafter ?_ hbehind
      exact head_not_white hvalue hv
  have hval := readAttributeValue_value hvalue hbehind.right hends
  refine Scans.step hlt (by rw [hlen, List.length_cons]; omega) fun rounds => ?_
  rw [tagScan, readOpenTagFrom_name hu (hunits u List.mem_cons_self), hread]
  dsimp only
  rw [hafterName, heq, hskip, hval, hlen]
  simp only [List.length_cons, Nat.succ_ne_zero, if_false, ne_eq, not_true_eq_false]
  congr 1
  omega

/-- An item and the white space behind it. -/
theorem scans_item {item : Item} (hitem : item.Fits) (hW : isBlank W = true)
    (hy : isWhitespace y = false) (hends : item.endsBefore (W ++ y :: more) = true)
    (h : Stands text i (item.units ++ (W ++ y :: more))) :
    Scans (tagScan text toLowerCase) text.length i attributes
      (i + item.units.length + W.length)
      ((item.attributes toLowerCase).foldl pushAttribute attributes) := by
  cases item with
  | php content =>
    have hopens := opens_block h.left
    have hfirst : Scans (tagScan text toLowerCase) text.length i attributes
        (i + (block content).length) attributes := by
      rw [← skipPhpBlock_block hitem h.left]
      refine Scans.step (lt_length_of_opens hopens) (lt_skipPhpBlock hopens) fun rounds => ?_
      rw [tagScan, readOpenTagFrom, opens_unit hopens]
      have hspace : isWhitespace 0x3c = false := by decide
      simp only [hspace, hopens, Bool.false_eq_true, if_false, if_true]
    exact hfirst.trans (scans_blank hW h.right.left)
  | named name assigned =>
    obtain ⟨⟨hname, hunits⟩, hassigned⟩ := hitem
    cases assigned with
    | none =>
      have hlen : (Item.named name none).units.length = name.length := by simp [Item.units]
      have hstands : Stands text i (name ++ (W ++ y :: more)) := by
        simpa [Item.units] using h
      rw [hlen]
      exact scans_valueless hname hunits hW hy hends hstands
    | some a =>
      obtain ⟨hbefore, hafter, hvalue⟩ := hassigned a rfl
      obtain ⟨x, vs, hbehind⟩ : ∃ x vs, W ++ y :: more = x :: vs :=
        List.exists_cons_of_ne_nil (by simp)
      have hblank : Stands text (i + (Item.named name (some a)).units.length) W := h.right.left
      rw [hbehind] at hends h
      have hfirst := @scans_assigned text vs i x toLowerCase attributes name a hname hunits hbefore
        hafter hvalue hends h
      exact hfirst.trans (scans_blank hW hblank)

/-! ## The items of a tag -/

/-- The white space in front of the items, or of the end of the tag. -/
def lead (blank : List ℕ) : List (List ℕ × Item) → List ℕ
  | [] => blank
  | p :: _ => p.1

theorem head_item {item : Item} (h : item.Fits) :
    ∃ v vs, item.units = v :: vs ∧ isWhitespace v = false := by
  cases item with
  | php content => exact ⟨0x3c, _, rfl, rfl⟩
  | named name assigned =>
    obtain ⟨u, name', rfl⟩ := List.exists_cons_of_ne_nil h.1.1
    exact ⟨u, _, rfl, (isAttributeNameUnit_kinds (h.1.2 u List.mem_cons_self)).1⟩

/-- What stands behind an item is white space and a unit that is none. -/
theorem lead_behind {blank ending : List ℕ} {items : List (List ℕ × Item)}
    (hblank : isBlank blank = true) (hy : isWhitespace y = false)
    (hitems : WrittenTag.ItemsFit ending items) :
    isBlank (lead blank items) = true ∧ ∃ v vs, isWhitespace v = false ∧
      WrittenTag.itemUnits items ++ (blank ++ y :: more) = lead blank items ++ v :: vs := by
  cases items with
  | nil => exact ⟨hblank, y, more, hy, rfl⟩
  | cons p rest =>
    obtain ⟨hp, -⟩ := hitems
    obtain ⟨v, vs, hunits, hv⟩ := head_item hp.2.1
    refine ⟨hp.1, v, vs ++ (WrittenTag.itemUnits rest ++ (blank ++ y :: more)), hv, ?_⟩
    simp [WrittenTag.itemUnits, lead, hunits]

theorem scans_items {blank : List ℕ} {items : List (List ℕ × Item)} (hblank : isBlank blank = true)
    (hy : isWhitespace y = false) (hitems : WrittenTag.ItemsFit (blank ++ y :: more) items)
    (h : Stands text i (WrittenTag.itemUnits items ++ (blank ++ y :: more))) :
    Scans (tagScan text toLowerCase) text.length (i + (lead blank items).length) attributes
      (i + (WrittenTag.itemUnits items).length + blank.length)
      ((items.flatMap fun p => p.2.attributes toLowerCase).foldl pushAttribute attributes) := by
  induction items generalizing i attributes with
  | nil => exact .refl _ _ _ _
  | cons p rest ih =>
    obtain ⟨⟨hblankHere, hfits, hends⟩, hrest⟩ := hitems
    have hunits : WrittenTag.itemUnits (p :: rest) ++ (blank ++ y :: more) =
        p.1 ++ (p.2.units ++ (WrittenTag.itemUnits rest ++ (blank ++ y :: more))) := by
      simp [WrittenTag.itemUnits]
    have hlen : (WrittenTag.itemUnits (p :: rest)).length =
        p.1.length + p.2.units.length + (WrittenTag.itemUnits rest).length := by
      rw [WrittenTag.itemUnits, List.flatMap_cons, List.length_append, List.length_append]
      rfl
    rw [hunits] at h
    obtain ⟨hleadBlank, v, vs, hv, hbehind⟩ := @lead_behind more y blank _ rest hblank hy hrest
    have hitem := h.right
    rw [hbehind] at hends hitem
    have hfirst := @scans_item text vs _ _ v toLowerCase attributes p.2 hfits hleadBlank hv hends
      hitem
    have hlater := @ih _ ((p.2.attributes toLowerCase).foldl pushAttribute attributes) hrest
      h.right.right
    rw [hlen, List.flatMap_cons, List.foldl_append,
      show i + (p.1.length + p.2.units.length + (WrittenTag.itemUnits rest).length) + blank.length =
        i + p.1.length + p.2.units.length + (WrittenTag.itemUnits rest).length + blank.length by
          omega]
    exact hfirst.trans hlater

theorem foldl_pushAttribute {pushed : List PhpMarkupAttribute}
    (h : attributes.length + pushed.length ≤ maxAttributesPerElement) :
    pushed.foldl pushAttribute attributes = attributes ++ pushed := by
  induction pushed generalizing attributes with
  | nil => simp
  | cons a pushed ih =>
    rw [List.length_cons] at h
    have hpush : pushAttribute attributes a = attributes ++ [a] := by
      rw [pushAttribute, if_pos (by omega)]
    rw [List.foldl_cons, hpush, ih (by rw [List.length_append, List.length_singleton]; omega)]
    simp

/-- What is read of a written open tag. -/
theorem readOpenTag_tag {t : WrittenTag} (ht : t.Fits toLowerCase)
    (h : Stands text i (WrittenTag.itemUnits t.items ++ t.ending)) :
    readOpenTag text toLowerCase i =
      ⟨t.attributes toLowerCase, i + (WrittenTag.itemUnits t.items ++ t.ending).length,
        t.selfClosing⟩ := by
  obtain ⟨-, -, hitems, hblank, hlimit⟩ := ht
  have hpushed : (t.attributes toLowerCase).foldl pushAttribute [] = t.attributes toLowerCase :=
    foldl_pushAttribute (by simpa using hlimit)
  have hscans : ∀ {y : ℕ} {more : List ℕ}, isWhitespace y = false →
      t.ending = t.blank ++ y :: more →
      Scans (tagScan text toLowerCase) text.length i []
        (i + (WrittenTag.itemUnits t.items).length + t.blank.length)
        (t.attributes toLowerCase) := by
    intro y more hy hending
    rw [hending] at h hitems
    obtain ⟨hleadBlank, v, vs, -, hbehind⟩ := @lead_behind more y t.blank _ t.items hblank hy hitems
    have hfirst : Scans (tagScan text toLowerCase) text.length i ([] : List PhpMarkupAttribute)
        (i + (lead t.blank t.items).length) [] := by
      refine scans_blank hleadBlank ?_
      rw [hbehind] at h
      exact h.left
    have hlater := @scans_items text more i y toLowerCase [] t.blank t.items hblank hy hitems h
    rw [← hpushed]
    exact hfirst.trans hlater
  have hlen : ∀ n, t.ending.length = t.blank.length + n →
      i + (WrittenTag.itemUnits t.items ++ t.ending).length =
        i + (WrittenTag.itemUnits t.items).length + t.blank.length + n := by
    intro n hn
    rw [List.length_append, hn]
    omega
  rw [readOpenTag]
  cases hself : t.selfClosing with
  | true =>
    have hending : t.ending = t.blank ++ 0x2f :: [0x3e] := by simp [WrittenTag.ending, hself]
    rw [hlen 2 (by simp [hending])]
    rw [hending] at h
    have hend := h.right.right
    refine (hscans (by decide) hending).answer (fun rounds hrounds => ?_) (Nat.le_refl _)
    have hslash := hend.head
    have hlt := (List.getElem?_eq_some_iff.1 hslash).1
    obtain ⟨rounds, rfl⟩ : ∃ n, rounds = n + 1 := ⟨rounds - 1, by omega⟩
    have hcloses : startsWith text (i + (WrittenTag.itemUnits t.items).length + t.blank.length)
        (ascii "/>") = true := startsWith_iff.2 hend
    have hopens := not_opens (by decide) hslash
    have hspace : isWhitespace 0x2f = false := by decide
    rw [tagScan, readOpenTagFrom, hslash]
    simp only [hspace, hopens, hcloses, Bool.false_eq_true, if_false, if_true]
  | false =>
    have hending : t.ending = t.blank ++ 0x3e :: [] := by simp [WrittenTag.ending, hself]
    rw [hlen 1 (by simp [hending])]
    rw [hending] at h
    have hend := h.right.right.head
    refine (hscans (by decide) hending).answer (fun rounds hrounds => ?_) (Nat.le_refl _)
    have hlt := (List.getElem?_eq_some_iff.1 hend).1
    obtain ⟨rounds, rfl⟩ : ∃ n, rounds = n + 1 := ⟨rounds - 1, by omega⟩
    have hcloses : startsWith text (i + (WrittenTag.itemUnits t.items).length + t.blank.length)
        (ascii "/>") = false := not_startsWith hend (by decide)
    have hopens := not_opens (by decide) hend
    have hspace : isWhitespace 0x3e = false := by decide
    rw [tagScan, readOpenTagFrom, hend]
    simp only [hspace, hopens, hcloses, Bool.false_eq_true, if_false, if_true]

end PinOp.Php
