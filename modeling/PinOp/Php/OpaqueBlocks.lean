import PinOp.Php.PhpMarkup

/-!
# Rewriting the PHP blocks of a text

Two texts that differ in the contents of their PHP blocks only, and the places of both that lie in
no block. Every scanner that goes over the blocks comes from such a place to the same one in both.
-/

namespace PinOp.Php

/-! ## Rewritten texts -/

/-- The content does not close its block. -/
def NoClose (content : List ℕ) : Prop := ¬ascii "?>" <:+: content

instance (content : List ℕ) : Decidable (NoClose content) := inferInstanceAs (Decidable (¬_))

/-- The texts are the same but for what stands between `<?` and the next `?>`, or the end. -/
inductive Rewritten : List ℕ → List ℕ → Prop
  | nil : Rewritten [] []
  | unit {u : ℕ} {t t' : List ℕ} : (u = 0x3c → t.head? ≠ some 0x3f) → Rewritten t t' →
      Rewritten (u :: t) (u :: t')
  | block {c c' t t' : List ℕ} : c.length = c'.length → NoClose c → NoClose c' → Rewritten t t' →
      Rewritten (0x3c :: 0x3f :: (c ++ 0x3f :: 0x3e :: t))
        (0x3c :: 0x3f :: (c' ++ 0x3f :: 0x3e :: t'))
  | last {c c' : List ℕ} : c.length = c'.length → NoClose c → NoClose c' →
      Rewritten (0x3c :: 0x3f :: c) (0x3c :: 0x3f :: c')

variable {t t' b b' needle : List ℕ} {i : ℕ}

theorem Rewritten.length_eq (h : Rewritten b b') : b.length = b'.length := by
  induction h with
  | nil => rfl
  | unit _ _ ih => rw [List.length_cons, List.length_cons, ih]
  | block hlen _ _ _ ih => simp only [List.length_cons, List.length_append, hlen, ih]
  | last hlen _ _ => rw [List.length_cons, List.length_cons, List.length_cons, List.length_cons,
    hlen]

theorem Rewritten.head?_eq (h : Rewritten b b') : b.head? = b'.head? := by
  cases h <;> rfl

/-- Both texts open a block or neither does. -/
theorem Rewritten.opens_eq (h : Rewritten b b') :
    (ascii "<?").isPrefixOf b = (ascii "<?").isPrefixOf b' := by
  cases h with
  | nil => rfl
  | unit hu ht =>
    have hhead := ht.head?_eq
    rename_i u t t'
    show (0x3c == u && [0x3f].isPrefixOf t) = (0x3c == u && [0x3f].isPrefixOf t')
    have hfirst : ∀ r : List ℕ, [0x3f].isPrefixOf r = decide (r.head? = some 0x3f) := by
      intro r
      cases r with
      | nil => rfl
      | cons v r =>
        rw [List.isPrefixOf_cons_cons, List.isPrefixOf_nil_left, Bool.and_true]
        by_cases hv : v = 0x3f
        · rw [hv]
          rfl
        · rw [beq_eq_false_iff_ne.2 (Ne.symm hv)]
          simp [hv]
    rw [hfirst, hfirst, hhead]
  | block => rfl
  | last => rfl

/-- A text whose letters are read by `f`, and a needle without what a question mark is read as. -/
theorem Rewritten.isPrefixOf_eq (f : ℕ → ℕ) (hneedle : f 0x3f ∉ needle) (h : Rewritten b b') :
    needle.isPrefixOf (b.map f) = needle.isPrefixOf (b'.map f) := by
  induction needle generalizing b b' with
  | nil => rfl
  | cons n needle ih =>
    have hrest : f 0x3f ∉ needle := fun hmem => hneedle (List.mem_cons_of_mem _ hmem)
    have hmark : ∀ {r : List ℕ}, needle.isPrefixOf (f 0x3f :: r) = decide (needle = []) := by
      intro r
      cases needle with
      | nil => rfl
      | cons m needle =>
        have hm : (m == f 0x3f) = false :=
          beq_eq_false_iff_ne.2 fun heq => hrest (heq ▸ List.mem_cons_self)
        show (m == f 0x3f && _) = _
        rw [hm]
        rfl
    cases h with
    | nil => rfl
    | unit hu ht =>
      simp only [List.map_cons, List.isPrefixOf_cons_cons, ih hrest ht]
    | block hlen hc hc' ht => simp only [List.map_cons, List.isPrefixOf_cons_cons, hmark]
    | last hlen hc hc' => simp only [List.map_cons, List.isPrefixOf_cons_cons, hmark]

/-- Behind a needle that does not end with what opens a block. -/
theorem Rewritten.drop_needle (f : ℕ → ℕ) (hneedle : f 0x3f ∉ needle)
    (hlast : needle.getLast? ≠ some (f 0x3c)) (h : Rewritten b b')
    (hstands : needle.isPrefixOf (b.map f) = true) :
    Rewritten (b.drop needle.length) (b'.drop needle.length) := by
  induction needle generalizing b b' with
  | nil => exact h
  | cons n needle ih =>
    have hrest : f 0x3f ∉ needle := fun hmem => hneedle (List.mem_cons_of_mem _ hmem)
    have hblock : ∀ {r : List ℕ}, (n :: needle).isPrefixOf (f 0x3c :: f 0x3f :: r) ≠ true := by
      intro r hr
      simp only [List.isPrefixOf_cons_cons, Bool.and_eq_true, beq_iff_eq] at hr
      cases needle with
      | nil => exact hlast (by rw [hr.1]; rfl)
      | cons m needle =>
        have hm : m = f 0x3f := by
          have := hr.2
          simp only [List.isPrefixOf_cons_cons, Bool.and_eq_true, beq_iff_eq] at this
          exact this.1
        exact hrest (hm ▸ List.mem_cons_self)
    cases h with
    | nil => cases hstands
    | unit hu ht =>
      simp only [List.map_cons, List.isPrefixOf_cons_cons, Bool.and_eq_true] at hstands
      refine ih hrest ?_ ht hstands.2
      cases needle with
      | nil => simp
      | cons m needle => simpa using hlast
    | block hlen hc hc' ht => exact absurd hstands hblock
    | last hlen hc hc' => exact absurd hstands hblock

/-! ## Places -/

/-- The place lies in no block of either text. -/
def At (t t' : List ℕ) (i : ℕ) : Prop := Rewritten (t.drop i) (t'.drop i)

theorem At.length_eq (h : At t t' 0) : t.length = t'.length := Rewritten.length_eq h

theorem At.unit_eq (h : At t t' i) : t[i]? = t'[i]? := by
  rw [← List.head?_drop, ← List.head?_drop]
  exact Rewritten.head?_eq h

theorem At.opens_eq (h : At t t' i) :
    startsWith t i (ascii "<?") = startsWith t' i (ascii "<?") := Rewritten.opens_eq h

theorem At.startsWith_eq (hneedle : 0x3f ∉ needle) (h : At t t' i) :
    startsWith t i needle = startsWith t' i needle := by
  have := Rewritten.isPrefixOf_eq id hneedle h
  rwa [List.map_id, List.map_id] at this

theorem At.behind (hneedle : 0x3f ∉ needle) (hlast : needle.getLast? ≠ some 0x3c) (h : At t t' i)
    (hstarts : startsWith t i needle = true) : At t t' (i + needle.length) := by
  have := Rewritten.drop_needle id hneedle hlast h (by rwa [List.map_id])
  rw [List.drop_drop, List.drop_drop] at this
  exact this

/-- The next place, where no block is opened. -/
theorem At.next (h : At t t' i) (hopens : startsWith t i (ascii "<?") = false)
    (hi : i < t.length) : At t t' (i + 1) := by
  unfold At at h ⊢
  rw [← List.drop_drop, ← List.drop_drop]
  unfold startsWith at hopens
  have hne : t.drop i ≠ [] := by simpa using hi
  generalize t.drop i = b at h hopens hne
  generalize t'.drop i = b' at h
  cases h with
  | nil => exact absurd rfl hne
  | unit hu ht => exact ht
  | block => cases hopens
  | last => cases hopens

theorem At.end (hlen : t.length = t'.length) (hi : t.length ≤ i) : At t t' i := by
  unfold At
  rw [List.drop_eq_nil_of_le hi, List.drop_eq_nil_of_le (hlen ▸ hi)]
  exact .nil

/-! ## Blocks -/

/-- The first place of the needle behind units where it does not stand. -/
theorem findIn_append {c r : List ℕ} (hc : ∀ a d, c = a ++ d → d ≠ [] → ¬needle <+: d ++ r)
    (hr : needle <+: r) : findIn needle (c ++ r) = some c.length := by
  induction c with
  | nil =>
    rw [List.nil_append]
    cases r with
    | nil => rw [findIn, if_pos (List.prefix_nil.1 hr)]; rfl
    | cons u r =>
      rw [findIn, if_pos (List.isPrefixOf_iff_prefix.2 hr)]
      rfl
  | cons u c ih =>
    have hhere : ¬needle <+: u :: (c ++ r) := hc [] (u :: c) rfl (List.cons_ne_nil _ _)
    rw [List.cons_append, findIn, if_neg (mt List.isPrefixOf_iff_prefix.1 hhere),
      ih fun a d hcd hd => hc (u :: a) d (by rw [hcd, List.cons_append]) hd]
    rfl

theorem findIn_none {c : List ℕ} (hne : needle ≠ []) (hc : ¬needle <:+: c) :
    findIn needle c = none := by
  induction c with
  | nil => rw [findIn, if_neg hne]
  | cons u c ih =>
    have hhere : ¬needle <+: u :: c := fun h => hc h.isInfix
    have hrest : ¬needle <:+: c := fun h => hc (h.trans (List.suffix_cons u c).isInfix)
    rw [findIn, if_neg (mt List.isPrefixOf_iff_prefix.1 hhere), ih hrest]
    rfl

theorem findIn_close {c : List ℕ} (hc : NoClose c) (r : List ℕ) :
    findIn (ascii "?>") (c ++ 0x3f :: 0x3e :: r) = some c.length := by
  refine findIn_append (fun a d hcd hd hstands => ?_) ⟨r, rfl⟩
  obtain ⟨x, d, rfl⟩ := List.exists_cons_of_ne_nil hd
  obtain ⟨rest, hrest⟩ := hstands
  cases d with
  | nil =>
    have := (List.cons.inj (List.cons.inj hrest).2).1
    cases this
  | cons y d =>
    have hx : 0x3f = x := (List.cons.inj hrest).1
    have hy : 0x3e = y := (List.cons.inj (List.cons.inj hrest).2).1
    refine hc ⟨a, d, ?_⟩
    rw [hcd, ← hx, ← hy, List.append_assoc]
    rfl

theorem At.block (hlen : t.length = t'.length) (h : At t t' i)
    (hopens : startsWith t i (ascii "<?") = true) :
    skipPhpBlock t i = skipPhpBlock t' i ∧ At t t' (skipPhpBlock t i) := by
  have hfind : ∀ s : List ℕ, skipPhpBlock s i =
      (findIn (ascii "?>") ((s.drop i).drop 2)).elim s.length fun k => i + 2 + k + 2 := by
    intro s
    rw [skipPhpBlock, indexOf, List.drop_drop]
    cases findIn (ascii "?>") (s.drop (i + 2)) <;> rfl
  have hdrop : ∀ (s : List ℕ) (k : ℕ), s.drop (i + 2 + k + 2) = ((s.drop i).drop 2).drop (k + 2) :=
    by
    intro s k
    rw [List.drop_drop, List.drop_drop]
    congr 1
    omega
  unfold startsWith at hopens
  unfold At at h ⊢
  rw [hfind t, hfind t']
  have hd := hdrop t
  have hd' := hdrop t'
  generalize t.drop i = b at h hopens hd
  generalize t'.drop i = b' at h hd'
  cases h with
  | nil => cases hopens
  | unit hu ht =>
    rename_i u t t'
    have hopens : (0x3c == u && [0x3f].isPrefixOf t) = true := hopens
    rw [Bool.and_eq_true, beq_iff_eq] at hopens
    refine absurd ?_ (hu hopens.1.symm)
    cases t with
    | nil => cases hopens.2
    | cons v t =>
      have := hopens.2
      simp only [List.isPrefixOf_cons_cons, Bool.and_eq_true, beq_iff_eq] at this
      rw [← this.1]
      rfl
  | block hcc hc hc' ht =>
    rename_i c c' r r'
    have hfound := findIn_close hc r
    have hfound' := findIn_close hc' r'
    simp only [List.drop_succ_cons, List.drop_zero, hfound, hfound', Option.elim_some] at hd hd' ⊢
    refine ⟨by rw [hcc], ?_⟩
    rw [hd, hcc, hd', ← hcc]
    have hskip : ∀ (c r : List ℕ), (c ++ 0x3f :: 0x3e :: r).drop (c.length + 2) = r := by
      intro c r
      rw [← List.drop_drop, List.drop_left]
      rfl
    rw [hskip, hcc, hskip]
    exact ht
  | last hcc hc hc' =>
    have hne : ascii "?>" ≠ [] := by decide
    simp only [List.drop_succ_cons, List.drop_zero, findIn_none hne hc, findIn_none hne hc',
      Option.elim_none]
    refine ⟨hlen, ?_⟩
    rw [List.drop_length, hlen, List.drop_length]
    exact .nil

end PinOp.Php
