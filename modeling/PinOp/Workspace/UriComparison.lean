import PinOp.Workspace.PathIdentity

/-!
# Where the comparison of file URIs is exact

Two URIs of one path are told to be the same where the same escapes stay, and two paths are told
apart unless their names are read alike.
-/

namespace PinOp.Workspace

open PinOp.Lib

variable {host : UriHost} {lower : List Char → List Char} {a b : List PrintedName}

/-- The condition under which two URIs are the same exactly if their paths are. -/
def ToldSame (lower : List Char → List Char) (a b : List PrintedName) : Prop :=
  (pathOf a = pathOf b → noBackslash a = true ∧ keptOf a = keptOf b) ∧
  (pathOf a ≠ pathOf b → noBackslash a = true → noBackslash b = true →
    ¬(a.length = b.length ∧ Confused lower a b))

/-- The condition under which a URI is within another exactly if its path is. -/
def ToldWithin (lower : List Char → List Char) (a b : List PrintedName) : Prop :=
  (pathOf b <+: pathOf a → noBackslash a = true ∧ keptOf (a.take b.length) = keptOf b ∧
    ¬(isDrive a = true ∧ isUpperDrive b = true)) ∧
  (¬pathOf b <+: pathOf a → noBackslash a = true → noBackslash b = true → ¬Confused lower a b)

/-! ## What the path tells -/

theorem pathOf_length : (pathOf a).length = a.length := List.length_map _

theorem pathOf_prefix_iff : pathOf b <+: pathOf a ↔ (pathOf a).take b.length = pathOf b := by
  rw [List.prefix_iff_eq_take, pathOf_length, eq_comm]

theorem noBackslash_eq (names : List PrintedName) :
    noBackslash names = (pathOf names).all fun name => name.all fun c => c ≠ '\\' := by
  simp [noBackslash, pathOf, List.all_map, Function.comp_def]

theorem noBackslash_of_prefix (hpath : pathOf b <+: pathOf a) (h : noBackslash a = true) :
    noBackslash b = true := by
  rw [noBackslash_eq, List.all_eq_true] at h ⊢
  exact fun name hname => h name (hpath.subset hname)

/-! ## Kept escapes -/

/-- Names read as the same keep the same escapes where their characters are the same. -/
theorem kept_of_readings (hl : LowerCasing lower) (hpath : (pathOf a).take b.length = pathOf b)
    (hread : (readings lower a).take b.length = readings lower b) :
    keptOf (a.take b.length) = keptOf b := by
  rw [pathOf, ← List.map_take, pathOf, map_eq_map_iff_forall₂] at hpath
  rw [readings, ← List.map_take, readings, map_eq_map_iff_forall₂] at hread
  rw [keptOf, keptOf, map_eq_map_iff_forall₂]
  refine List.Forall₂.mp (fun n m hr hc => kept_of_marks hc ?_) hread hpath
  rw [← marks_reading hl (isDrive a), hr, marks_reading hl]

theorem readings_length (lower : List Char → List Char) (names : List PrintedName) :
    (readings lower names).length = names.length := List.length_map _

theorem readings_eq_iff (hl : LowerCasing lower) :
    readings lower a = readings lower b ↔ a.length = b.length ∧ Confused lower a b := by
  rw [confused_iff hl]
  constructor
  · intro h
    have hlen : a.length = b.length := by
      rw [← readings_length lower a, h, readings_length]
    refine ⟨hlen, ?_⟩
    rw [← h, List.take_of_length_le]
    rw [readings_length]
    omega
  · rintro ⟨hlen, h⟩
    rw [← h, List.take_of_length_le]
    rw [readings_length]
    omega

theorem readings_prefix_iff (hl : LowerCasing lower) :
    readings lower b <+: readings lower a ↔ Confused lower a b := by
  rw [confused_iff hl, List.prefix_iff_eq_take, readings_length, eq_comm]

/-- A drive has a further name, a bare drive has not. -/
theorem not_drives_of_length (hlen : a.length = b.length) :
    ¬(isDrive a = true ∧ isUpperDrive b = true) := by
  rintro ⟨ha, hb⟩
  obtain ⟨n, n', more, c, rfl, -, -⟩ := isDrive_iff.1 ha
  match b with
  | [] => cases hb
  | [m] => simp at hlen
  | m :: m' :: more' => simp [isUpperDrive] at hb

/-! ## The two comparisons -/

theorem sameCanonicalUri_exact_iff (hl : LowerCasing host.toLowerCase) {u v : List Char}
    (hu : Denotes host u a) (hv : Denotes host v b) :
    (sameCanonicalUri host u v = true ↔ pathOf a = pathOf b) ↔ ToldSame host.toLowerCase a b := by
  rw [sameCanonicalUri_eq hl hu hv, readings_eq_iff hl]
  by_cases hpath : pathOf a = pathOf b
  · have hlen : a.length = b.length := by
      rw [← pathOf_length (a := a), hpath, pathOf_length]
    have htake : (pathOf a).take b.length = pathOf b := by
      rw [← hpath, List.take_of_length_le]
      rw [pathOf_length]
      omega
    have hwhole : a.take b.length = a := List.take_of_length_le (by omega)
    have hexact : (noBackslash a = true ∧ noBackslash b = true ∧ a.length = b.length ∧
        Confused host.toLowerCase a b) ↔ noBackslash a = true ∧ keptOf a = keptOf b := by
      constructor
      · rintro ⟨ha, -, -, h⟩
        have hkept := kept_of_readings hl htake ((confused_iff hl).1 h)
        rw [hwhole] at hkept
        exact ⟨ha, hkept⟩
      · rintro ⟨ha, hkept⟩
        have hprefix : pathOf b <+: pathOf a := ⟨[], by rw [List.append_nil, hpath]⟩
        have hb := noBackslash_of_prefix hprefix ha
        rw [← hwhole] at hkept
        exact ⟨ha, hb, hlen, (confused_of_same_path hl htake hkept).2 (not_drives_of_length hlen)⟩
    rw [hexact]
    simp [ToldSame, hpath]
  · simp only [hpath, iff_false, ToldSame, false_implies, ne_eq, not_false_eq_true, true_and,
      true_implies]
    tauto

theorem uriWithin_exact_iff (hl : LowerCasing host.toLowerCase) {u v : List Char}
    (hu : Denotes host u a) (hv : Denotes host v b) :
    (uriWithin host u v = true ↔ pathOf b <+: pathOf a) ↔ ToldWithin host.toLowerCase a b := by
  rw [uriWithin_eq hl hu hv, readings_prefix_iff hl]
  by_cases hpath : pathOf b <+: pathOf a
  · have htake := pathOf_prefix_iff.1 hpath
    have hexact : (noBackslash a = true ∧ noBackslash b = true ∧ Confused host.toLowerCase a b) ↔
        noBackslash a = true ∧ keptOf (a.take b.length) = keptOf b ∧
          ¬(isDrive a = true ∧ isUpperDrive b = true) := by
      constructor
      · rintro ⟨ha, -, h⟩
        have hkept := kept_of_readings hl htake ((confused_iff hl).1 h)
        exact ⟨ha, hkept, (confused_of_same_path hl htake hkept).1 h⟩
      · rintro ⟨ha, hkept, hdrive⟩
        exact ⟨ha, noBackslash_of_prefix hpath ha, (confused_of_same_path hl htake hkept).2 hdrive⟩
    rw [hexact]
    simp only [hpath, iff_true, ToldWithin, true_implies, not_true_eq_false, false_implies,
      and_true]
  · simp only [hpath, iff_false, ToldWithin, false_implies, not_false_eq_true, true_and,
      true_implies]
    tauto

theorem isWorkspaceUri_iff {folders : List (List Char)} {u : List Char} :
    isWorkspaceUri host folders u = true ↔ ∃ folder ∈ folders, uriWithin host u folder = true :=
  List.any_eq_true

/-- The comparison of file URIs is exact for just the paths that meet the conditions, and so is the
membership in the workspace for the folders that meet theirs. -/
theorem comparison_exact_iff (hl : LowerCasing host.toLowerCase) {u v : List Char}
    (hu : Denotes host u a) (hv : Denotes host v b) :
    ((sameCanonicalUri host u v = true ↔ pathOf a = pathOf b) ↔ ToldSame host.toLowerCase a b) ∧
    ((uriWithin host u v = true ↔ pathOf b <+: pathOf a) ↔ ToldWithin host.toLowerCase a b) ∧
    ∀ folders : List (List Char × List PrintedName),
      (∀ f ∈ folders, Denotes host f.1 f.2 ∧ ToldWithin host.toLowerCase a f.2) →
      (isWorkspaceUri host (folders.map Prod.fst) u = true ↔
        ∃ f ∈ folders, pathOf f.2 <+: pathOf a) := by
  refine ⟨sameCanonicalUri_exact_iff hl hu hv, uriWithin_exact_iff hl hu hv, ?_⟩
  intro folders hfolders
  rw [isWorkspaceUri_iff]
  constructor
  · rintro ⟨folder, hmem, hwithin⟩
    obtain ⟨f, hf, rfl⟩ := List.mem_map.1 hmem
    obtain ⟨hdenotes, htold⟩ := hfolders f hf
    exact ⟨f, hf, ((uriWithin_exact_iff hl hu hdenotes).2 htold).1 hwithin⟩
  · rintro ⟨f, hf, hpath⟩
    obtain ⟨hdenotes, htold⟩ := hfolders f hf
    exact ⟨f.1, List.mem_map_of_mem hf, ((uriWithin_exact_iff hl hu hdenotes).2 htold).2 hpath⟩

/-! ## A host -/

/-- Reads what stands behind `file://` as the path and lowers the letters of ASCII. -/
def posixHost : UriHost where
  parse uri :=
    if "file://".toList.isPrefixOf uri then some ⟨fileProtocol, [], uri.drop 7, [], []⟩ else none
  toLowerCase := List.map asciiLower

theorem lowerCasing_ascii : LowerCasing (List.map asciiLower) where
  ascii _ _ := rfl
  caseless text := by
    have htwice : ∀ c, asciiLower (asciiLower c) = asciiLower c := by
      intro c
      rcases asciiLower_cases c with h | ⟨-, h⟩
      · rw [h, h]
      · refine (asciiLower_eq_iff _).2 fun hupper => ?_
        revert hupper
        unfold asciiLower
        split
        · rename_i hc
          have hall : ∀ n < 128, 'A' ≤ Char.ofNat n ∧ Char.ofNat n ≤ 'Z' →
              ¬('A' ≤ Char.ofNat ((Char.ofNat n).toNat + 32) ∧
                Char.ofNat ((Char.ofNat n).toNat + 32) ≤ 'Z') := by decide
          have hrange : c.toNat < 128 :=
            lt_of_le_of_lt (show c.toNat ≤ 90 from Char.le_def.1 hc.2) (by decide)
          have := hall c.toNat hrange
          rw [Char.ofNat_toNat] at this
          exact this hc
        · rename_i hc
          exact hc
    rw [List.map_map]
    exact List.map_congr_left fun c _ => htwice c
  slash s t := List.map_append
  marks text := marks_asciiLower text

section

def rawName (text : String) : PrintedName := text.toList.map fun c => ⟨c, false⟩

theorem comparison_exact_iff_sample :
    ((sameCanonicalUri posixHost "file:///a%20b/c".toList "file:///a%20b".toList = true ↔
        pathOf [rawName "a" ++ [⟨' ', true⟩] ++ rawName "b", rawName "c"] =
          pathOf [rawName "a" ++ [⟨' ', true⟩] ++ rawName "b"]) ↔
      ToldSame posixHost.toLowerCase [rawName "a" ++ [⟨' ', true⟩] ++ rawName "b", rawName "c"]
        [rawName "a" ++ [⟨' ', true⟩] ++ rawName "b"]) :=
  (@comparison_exact_iff posixHost [rawName "a" ++ [⟨' ', true⟩] ++ rawName "b", rawName "c"]
    [rawName "a" ++ [⟨' ', true⟩] ++ rawName "b"] lowerCasing_ascii _ _
    ⟨⟨_, rfl, rfl, rfl, by decide⟩, by decide⟩ ⟨⟨_, rfl, rfl, rfl, by decide⟩, by decide⟩).1

/-- The files `a%23` and `a#` have different paths and are taken for one. -/
theorem literal_escape_confused : LowerCasing posixHost.toLowerCase ∧
    Denotes posixHost "file:///a%2523".toList [rawName "a" ++ [⟨'%', true⟩] ++ rawName "23"] ∧
    Denotes posixHost "file:///a%23".toList [rawName "a" ++ [⟨'#', true⟩]] ∧
    sameCanonicalUri posixHost "file:///a%2523".toList "file:///a%23".toList = true ∧
    uriWithin posixHost "file:///a%2523".toList "file:///a%23".toList = true ∧
    ¬pathOf [rawName "a" ++ [⟨'#', true⟩]] <+: pathOf [rawName "a" ++ [⟨'%', true⟩] ++ rawName "23"]
    ∧
    pathOf [rawName "a" ++ [⟨'%', true⟩] ++ rawName "23"] ≠ pathOf [rawName "a" ++ [⟨'#', true⟩]] :=
  ⟨lowerCasing_ascii, ⟨⟨_, rfl, rfl, rfl, by decide⟩, by decide⟩,
    ⟨⟨_, rfl, rfl, rfl, by decide⟩, by decide⟩, by decide, by decide, by decide, by decide⟩

end

end PinOp.Workspace
