import PinOp.Browser.DeclarationList

/-!
# The authored form of a rule

Every longhand the CSSOM holds is set by one declaration of the rule. Where the rule is read at
all, the entries claim every longhand once; the first entry read of each declaration claims what the
declaration sets, so that no longhand is left for any further one, and what is read is the list of
declarations that was printed.
-/

namespace PinOp.Browser

open PinOp.Lib

/-! ## What the entries claim -/

section

variable {byProperty : OrderedMap String LonghandDeclaration} {expand : Option ShorthandExpander}

/-- The longhands an entry claims. -/
def membersOf (byProperty : OrderedMap String LonghandDeclaration)
    (expand : Option ShorthandExpander) (entry : ParsedDeclaration) : List String :=
  (coveredLonghands entry byProperty expand).getD []

/-- The longhands with the values the CSSOM holds. -/
def valuesOf (byProperty : OrderedMap String LonghandDeclaration) (members : List String) :
    List AuthoredLonghand :=
  members.filterMap fun property =>
    (byProperty.get? property).map fun longhand => ⟨property, longhand.value⟩

theorem claimMembers_eq_some {important : Bool} : ∀ {members claimed : List String}
    {covered : List AuthoredLonghand} {claimed' covered'},
    claimMembers byProperty important claimed covered members = some (claimed', covered') →
    claimed' = claimed ++ members ∧ covered' = covered ++ valuesOf byProperty members ∧
      (claimed.Nodup → claimed'.Nodup) ∧
      ∀ property ∈ members, ∃ longhand, byProperty.get? property = some longhand ∧
        longhand.important = important := by
  intro members
  induction members with
  | nil =>
    intro claimed covered claimed' covered' h
    cases h
    exact ⟨(List.append_nil _).symm, (List.append_nil _).symm, id,
      fun _ hm => absurd hm List.not_mem_nil⟩
  | cons property rest ih =>
    intro claimed covered claimed' covered' h
    rw [claimMembers] at h
    cases hget : byProperty.get? property with
    | none =>
      rw [hget] at h
      cases h
    | some longhand =>
      rw [hget] at h
      dsimp only at h
      split at h
      · cases h
      · rename_i hok
        simp only [Bool.or_eq_true, not_or, Bool.not_eq_true, bne_eq_false_iff_eq,
          List.contains_eq_mem, decide_eq_false_iff_not] at hok
        obtain ⟨rfl, rfl, hnodup, hall⟩ := ih h
        refine ⟨by rw [List.append_assoc, List.singleton_append], ?_, fun hn => ?_, ?_⟩
        · rw [List.append_assoc, valuesOf, valuesOf, List.filterMap_cons, hget]
          rfl
        · exact hnodup (List.nodup_append.mpr ⟨hn, List.nodup_singleton _, fun a ha b hb he =>
            hok.1 (List.mem_singleton.mp hb ▸ he ▸ ha)⟩)
        · intro p hp
          rcases List.mem_cons.mp hp with rfl | hp
          · exact ⟨longhand, hget, hok.2⟩
          · exact hall p hp

/-- What one entry is presented as. -/
def presented (byProperty : OrderedMap String LonghandDeclaration)
    (expand : Option ShorthandExpander) (entry : ParsedDeclaration) : AuthoredDeclaration :=
  ⟨entry.property, entry.value, entry.important,
    valuesOf byProperty (membersOf byProperty expand entry)⟩

theorem claimEntries_eq_some : ∀ {entries : List ParsedDeclaration} {claimed : List String}
    {declarations : List AuthoredDeclaration} {claimed' declarations'},
    claimEntries byProperty expand claimed declarations entries = some (claimed', declarations') →
    claimed' = claimed ++ entries.flatMap (membersOf byProperty expand) ∧
      declarations' = declarations ++ entries.map (presented byProperty expand) ∧
      (claimed.Nodup → claimed'.Nodup) ∧
      ∀ entry ∈ entries, coveredLonghands entry byProperty expand =
          some (membersOf byProperty expand entry) ∧
        ∀ property ∈ membersOf byProperty expand entry, ∃ longhand,
          byProperty.get? property = some longhand ∧ longhand.important = entry.important := by
  intro entries
  induction entries with
  | nil =>
    intro claimed declarations claimed' declarations' h
    cases h
    exact ⟨(List.append_nil _).symm, (List.append_nil _).symm, id,
      fun _ hm => absurd hm List.not_mem_nil⟩
  | cons entry rest ih =>
    intro claimed declarations claimed' declarations' h
    rw [claimEntries] at h
    cases hcover : coveredLonghands entry byProperty expand with
    | none =>
      rw [hcover] at h
      cases h
    | some members =>
      have hmembers : membersOf byProperty expand entry = members := by rw [membersOf, hcover]; rfl
      rw [hcover] at h
      dsimp only at h
      cases hclaim : claimMembers byProperty entry.important claimed [] members with
      | none =>
        rw [hclaim] at h
        cases h
      | some result =>
        obtain ⟨claimed₁, covered⟩ := result
        rw [hclaim] at h
        obtain ⟨rfl, rfl, hnodup, hall⟩ := claimMembers_eq_some hclaim
        obtain ⟨rfl, rfl, hnodup', hall'⟩ := ih h
        refine ⟨?_, ?_, fun hn => hnodup' (hnodup hn), ?_⟩
        · rw [List.flatMap_cons, hmembers, List.append_assoc]
        · rw [List.map_cons, List.append_assoc, List.nil_append, presented, hmembers]
          rfl
        · intro e he
          rcases List.mem_cons.mp he with rfl | he
          · rw [hmembers]
            exact ⟨hcover, hall⟩
          · exact hall' e he

/-- An entry that is read claims something. -/
theorem membersOf_ne_nil {entry : ParsedDeclaration}
    (h : coveredLonghands entry byProperty expand = some (membersOf byProperty expand entry)) :
    membersOf byProperty expand entry ≠ [] := by
  intro hnil
  rw [hnil] at h
  unfold coveredLonghands at h
  split at h
  · cases h
  · split at h
    · cases h
    · split at h
      · cases h
      · cases h

end

/-- The longhands by their names. -/
theorem longhandsByProperty_eq_some : ∀ {longhands : List LonghandDeclaration}
    {start byProperty : OrderedMap String LonghandDeclaration},
    longhandsByProperty start longhands = some byProperty →
    byProperty.entries = start.entries ++ longhands.map fun longhand =>
      (longhand.property, longhand) := by
  intro longhands
  induction longhands with
  | nil =>
    intro start byProperty h
    cases h
    exact (List.append_nil _).symm
  | cons longhand rest ih =>
    intro start byProperty h
    rw [longhandsByProperty] at h
    split at h
    · cases h
    · rename_i hhas
      have hnot : longhand.property ∉ start.keys := fun hin =>
        hhas (OrderedMap.has_eq_true.mpr hin)
      rw [ih h, OrderedMap.entries_set_of_not_mem _ hnot, List.append_assoc]
      rfl

/-! ## What the CSSOM holds -/

/-- The CSSOM holds the longhands the declarations set, each of them set by one declaration, with
its importance; a declaration named as a longhand sets that one. -/
structure Holds (ds : List Declaration) (sets : Declaration → List String)
    (longhands : List LonghandDeclaration) : Prop where
  once : (ds.flatMap sets).Perm (longhands.map LonghandDeclaration.property)
  important : ∀ d ∈ ds, ∀ longhand ∈ longhands, longhand.property ∈ sets d →
    longhand.important = d.important
  own : ∀ d ∈ ds, d.name ∈ longhands.map LonghandDeclaration.property → sets d = [d.name]

/-- Asked for a declaration, or with any part of its value where that is cut, the expander answers
the longhands the declaration sets; what it answers otherwise is left open. -/
def Answers (expand : ShorthandExpander) (ds : List Declaration)
    (sets : Declaration → List String) (longhands : List LonghandDeclaration) : Prop :=
  ∀ d ∈ ds, d.name ∉ longhands.map LonghandDeclaration.property →
    ∀ value, value = jsTrim d.value ∨ isWhole d.value = false → expand d.name value = some (sets d)

/-- The declarations in their order, with a partition of the longhands. -/
structure FaithfulForm (ds : List Declaration) (sets : Declaration → List String)
    (longhands : List LonghandDeclaration) (declarations : List AuthoredDeclaration) : Prop where
  inOrder : (declarations.map fun declaration => (declaration.property, declaration.value,
      declaration.important, declaration.longhands.map AuthoredLonghand.property)) =
    ds.map fun d => (d.name, jsTrim d.value, d.important, sets d)
  partition : (declarations.flatMap AuthoredDeclaration.longhands).Perm
    (longhands.map fun longhand => ⟨longhand.property, longhand.value⟩)
  important : ∀ declaration ∈ declarations, ∀ part ∈ declaration.longhands,
    ∃ longhand ∈ longhands, longhand.property = part.property ∧ longhand.value = part.value ∧
      longhand.important = declaration.important

/-- What a reading that succeeds has found. -/
structure Reconciled (longhands : List LonghandDeclaration) (expand : Option ShorthandExpander)
    (byProperty : OrderedMap String LonghandDeclaration) (entries : List ParsedDeclaration) :
    Prop where
  held : byProperty.entries = longhands.map fun longhand => (longhand.property, longhand)
  nodup : (entries.flatMap (membersOf byProperty expand)).Nodup
  complete : (entries.flatMap (membersOf byProperty expand)).length = byProperty.size
  covered : ∀ entry ∈ entries, coveredLonghands entry byProperty expand =
    some (membersOf byProperty expand entry)
  claimed : ∀ entry ∈ entries, ∀ property ∈ membersOf byProperty expand entry,
    ∃ longhand, byProperty.get? property = some longhand ∧ longhand.important = entry.important

theorem readAuthoredDeclarations_eq_some {cssText : String} {longhands : List LonghandDeclaration}
    {expand : Option ShorthandExpander} {declarations : List AuthoredDeclaration}
    (h : readAuthoredDeclarations cssText longhands expand = some declarations) :
    ∃ entries byProperty, parseDeclarationList cssText = some entries ∧
      Reconciled longhands expand byProperty entries ∧
      declarations = entries.map (presented byProperty expand) := by
  unfold readAuthoredDeclarations at h
  split at h
  · cases h
  cases hparse : parseDeclarationList cssText with
  | none =>
    rw [hparse] at h
    cases h
  | some entries =>
    rw [hparse] at h
    dsimp only at h
    split at h
    · cases h
    cases hlonghands : longhandsByProperty .empty longhands with
    | none =>
      rw [hlonghands] at h
      cases h
    | some byProperty =>
      rw [hlonghands] at h
      dsimp only at h
      split at h
      · cases h
      cases hclaim : claimEntries byProperty expand [] [] entries with
      | none =>
        rw [hclaim] at h
        cases h
      | some result =>
        obtain ⟨claimed, declarations'⟩ := result
        rw [hclaim] at h
        dsimp only at h
        split at h
        · rename_i hlength
          cases h
          obtain ⟨rfl, rfl, hnodup, hall⟩ := claimEntries_eq_some hclaim
          exact ⟨entries, byProperty, rfl, ⟨longhandsByProperty_eq_some hlonghands,
            hnodup List.nodup_nil, hlength, fun e he => (hall e he).1,
            fun e he => (hall e he).2⟩, rfl⟩
        · cases h

namespace Reconciled

variable {longhands : List LonghandDeclaration} {expand : Option ShorthandExpander}
  {byProperty : OrderedMap String LonghandDeclaration} {entries : List ParsedDeclaration}

theorem keys_eq (h : Reconciled longhands expand byProperty entries) :
    byProperty.keys = longhands.map LonghandDeclaration.property := by
  rw [OrderedMap.keys, h.held, List.map_map]
  rfl

theorem get?_eq_some (h : Reconciled longhands expand byProperty entries) {property : String}
    {longhand : LonghandDeclaration} (hget : byProperty.get? property = some longhand) :
    longhand ∈ longhands ∧ longhand.property = property := by
  have hin := OrderedMap.get?_eq_some.mp hget
  rw [h.held] at hin
  obtain ⟨l, hl, he⟩ := List.mem_map.mp hin
  cases he
  exact ⟨hl, rfl⟩

/-- No longhand is claimed twice. -/
theorem not_claimed_twice (h : Reconciled longhands expand byProperty entries)
    {before after : List ParsedDeclaration} {entry other : ParsedDeclaration}
    (hentries : entries = before ++ entry :: after) {property : String}
    (hclaims : property ∈ membersOf byProperty expand entry) (hother : other ∈ before ++ after)
    (hclaims' : property ∈ membersOf byProperty expand other) : False := by
  have hnodup := h.nodup
  rw [hentries, List.flatMap_append, List.flatMap_cons, List.nodup_append] at hnodup
  obtain ⟨-, hright, hapart⟩ := hnodup
  rcases List.mem_append.mp hother with hin | hin
  · exact hapart property (List.mem_flatMap.mpr ⟨other, hin, hclaims'⟩) property
      (List.mem_append_left _ hclaims) rfl
  · exact (List.nodup_append.mp hright).2.2 property hclaims property
      (List.mem_flatMap.mpr ⟨other, hin, hclaims'⟩) rfl

theorem map_property_valuesOf (h : Reconciled longhands expand byProperty entries)
    {entry : ParsedDeclaration} (hentry : entry ∈ entries) :
    (valuesOf byProperty (membersOf byProperty expand entry)).map AuthoredLonghand.property =
      membersOf byProperty expand entry := by
  have hall := h.claimed entry hentry
  generalize membersOf byProperty expand entry = members at hall
  induction members with
  | nil => rfl
  | cons property rest ih =>
    obtain ⟨longhand, hget, -⟩ := hall property List.mem_cons_self
    rw [valuesOf, List.filterMap_cons, hget]
    exact congrArg (property :: ·) (ih fun p hp => hall p (List.mem_cons_of_mem _ hp))

theorem partition (h : Reconciled longhands expand byProperty entries) :
    ((entries.map (presented byProperty expand)).flatMap AuthoredDeclaration.longhands).Perm
      (longhands.map fun longhand => ⟨longhand.property, longhand.value⟩) := by
  have hclaimed : (entries.flatMap (membersOf byProperty expand)).Perm byProperty.keys := by
    have hsubset : entries.flatMap (membersOf byProperty expand) ⊆ byProperty.keys := by
      intro property hin
      obtain ⟨entry, hentry, hproperty⟩ := List.mem_flatMap.mp hin
      obtain ⟨longhand, hget, -⟩ := h.claimed entry hentry property hproperty
      exact OrderedMap.mem_keys.mpr ⟨longhand, hget⟩
    refine (List.subperm_of_subset h.nodup hsubset).perm_of_length_le ?_
    rw [OrderedMap.length_keys, h.complete]
  have hvalues : valuesOf byProperty byProperty.keys =
      longhands.map fun longhand => ⟨longhand.property, longhand.value⟩ := by
    rw [valuesOf, OrderedMap.keys, h.held, List.map_map, List.filterMap_map,
      ← List.filterMap_eq_map]
    refine List.filterMap_congr fun longhand hin => ?_
    have hget : byProperty.get? longhand.property = some longhand := by
      refine OrderedMap.get?_eq_some.mpr ?_
      rw [h.held]
      exact List.mem_map.mpr ⟨longhand, hin, rfl⟩
    simp [hget]
  have hflat : (entries.map (presented byProperty expand)).flatMap AuthoredDeclaration.longhands =
      valuesOf byProperty (entries.flatMap (membersOf byProperty expand)) := by
    rw [List.flatMap_map, valuesOf, List.filterMap_flatMap]
    rfl
  rw [hflat, ← hvalues]
  exact hclaimed.filterMap _

end Reconciled

/-! ## FaithfulForm or refused -/

section

variable {ds : List Declaration} {sets : Declaration → List String}
  {longhands : List LonghandDeclaration} {expand : Option ShorthandExpander}
  {byProperty : OrderedMap String LonghandDeclaration} {entries : List ParsedDeclaration}
  {rows : List (Declaration × ParsedDeclaration × List ParsedDeclaration)}

/-- A declaration that is read as it is claims what it sets, and so does one that is cut. -/
theorem membersOf_first (hholds : Holds ds sets longhands)
    (hanswers : ∀ f, expand = some f → Answers f ds sets longhands)
    (h : Reconciled longhands expand byProperty entries) {d : Declaration} (hd : d ∈ ds)
    {entry : ParsedDeclaration} (hentry : entry ∈ entries) (hname : entry.property = d.name)
    (hvalue : entry.value = jsTrim d.value ∨ isWhole d.value = false) :
    membersOf byProperty expand entry = sets d := by
  have hcovered := h.covered entry hentry
  unfold coveredLonghands at hcovered
  split at hcovered
  · rename_i hhas
    have hin := OrderedMap.has_eq_true.mp hhas
    rw [h.keys_eq, hname] at hin
    rw [hholds.own d hd hin, ← hname]
    exact (Option.some.inj hcovered).symm
  · rename_i hhas
    have hnot : d.name ∉ longhands.map LonghandDeclaration.property := by
      intro hin
      rw [← h.keys_eq, ← hname] at hin
      exact hhas (OrderedMap.has_eq_true.mpr hin)
    split at hcovered
    · cases hcovered
    · rename_i f
      have hanswer := hanswers f rfl d hd hnot entry.value hvalue
      rw [← hname] at hanswer
      rw [hanswer] at hcovered
      split at hcovered
      · rename_i he
        rw [← Option.some.inj hcovered, Option.some.inj he]
      · cases hcovered

/-- The declaration that sets a claimed longhand has the importance of the entry that claims it. -/
theorem exists_declaration (hholds : Holds ds sets longhands)
    (h : Reconciled longhands expand byProperty entries) {entry : ParsedDeclaration}
    (hentry : entry ∈ entries) {property : String}
    (hclaims : property ∈ membersOf byProperty expand entry) :
    ∃ d ∈ ds, property ∈ sets d ∧ entry.important = d.important := by
  obtain ⟨longhand, hget, himportant⟩ := h.claimed entry hentry property hclaims
  obtain ⟨hin, rfl⟩ := h.get?_eq_some hget
  have hset := hholds.once.mem_iff.mpr (List.mem_map_of_mem hin)
  obtain ⟨d, hd, hproperty⟩ := List.mem_flatMap.mp hset
  exact ⟨d, hd, hproperty, by rw [← himportant, hholds.important d hd longhand hin hproperty]⟩

theorem first_mem_entries (hreads : ReadsAll ds entries rows)
    {row : Declaration × ParsedDeclaration × List ParsedDeclaration} (hrow : row ∈ rows) :
    row.2.1 ∈ entries := by
  rw [hreads.entries]
  exact List.mem_flatMap.mpr ⟨row, hrow, List.mem_cons_self⟩

/-- What the first entry of a declaration claims, no other entry does. -/
theorem not_claimed_elsewhere (h : Reconciled longhands expand byProperty entries)
    (hreads : ReadsAll ds entries rows)
    {row other : Declaration × ParsedDeclaration × List ParsedDeclaration} (hrow : row ∈ rows)
    (hother : other ∈ rows) {entry : ParsedDeclaration}
    (hentry : (other ≠ row ∧ entry = other.2.1) ∨ entry ∈ other.2.2) {property : String}
    (hclaims : property ∈ membersOf byProperty expand row.2.1) :
    property ∉ membersOf byProperty expand entry := by
  obtain ⟨before, after, hsplit⟩ := List.append_of_mem hrow
  have hentries : entries = (before.flatMap fun row => row.2.1 :: row.2.2) ++
      row.2.1 :: (row.2.2 ++ after.flatMap fun row => row.2.1 :: row.2.2) := by
    rw [hreads.entries, hsplit, List.flatMap_append, List.flatMap_cons]
    rfl
  refine h.not_claimed_twice hentries hclaims ?_
  have hin : entry ∈ other.2.1 :: other.2.2 := by
    rcases hentry with ⟨-, rfl⟩ | hin
    · exact List.mem_cons_self
    · exact List.mem_cons_of_mem _ hin
  rw [hsplit] at hother
  rcases List.mem_append.mp hother with hother | hother
  · exact List.mem_append_left _ (List.mem_flatMap.mpr ⟨other, hother, hin⟩)
  rcases List.mem_cons.mp hother with rfl | hother
  · rcases hentry with ⟨hne, -⟩ | hin
    · exact absurd rfl hne
    · exact List.mem_append_right _ (List.mem_append_left _ hin)
  · exact List.mem_append_right _ (List.mem_append_right _
      (List.mem_flatMap.mpr ⟨other, hother, hin⟩))

/-- The row of the declaration that sets a longhand. -/
theorem exists_row (hreads : ReadsAll ds entries rows) {d : Declaration} (hd : d ∈ ds) :
    ∃ row ∈ rows, row.1 = d := by
  rw [← hreads.declarations] at hd
  exact List.mem_map.mp hd

theorem mem_of_row (hreads : ReadsAll ds entries rows)
    {row : Declaration × ParsedDeclaration × List ParsedDeclaration} (hrow : row ∈ rows) :
    row.1 ∈ ds := hreads.declarations ▸ List.mem_map_of_mem hrow

/-- A declaration that is important, or cut, claims what it sets. -/
theorem membersOf_row (hholds : Holds ds sets longhands)
    (hanswers : ∀ f, expand = some f → Answers f ds sets longhands)
    (h : Reconciled longhands expand byProperty entries) (hreads : ReadsAll ds entries rows)
    {row : Declaration × ParsedDeclaration × List ParsedDeclaration} (hrow : row ∈ rows)
    (hread : ¬ (row.2.1.important = true ∧ row.1.important = false)) :
    membersOf byProperty expand row.2.1 = sets row.1 := by
  have hrowReads := hreads.reads row hrow
  refine membersOf_first hholds hanswers h (mem_of_row hreads hrow) (first_mem_entries hreads hrow)
    hrowReads.property ?_
  cases hwhole : isWhole row.1.value with
  | false => exact .inr rfl
  | true =>
    rcases (hrowReads.whole hwhole).2 with he | hmis
    · left
      rw [he]
    · exact absurd hmis hread

/-- No declaration is taken for an important one. -/
theorem not_misread (hholds : Holds ds sets longhands)
    (hanswers : ∀ f, expand = some f → Answers f ds sets longhands)
    (h : Reconciled longhands expand byProperty entries) (hreads : ReadsAll ds entries rows)
    {row : Declaration × ParsedDeclaration × List ParsedDeclaration} (hrow : row ∈ rows) :
    ¬ (row.2.1.important = true ∧ row.1.important = false) := by
  rintro ⟨himportant, hplain⟩
  have hentry := first_mem_entries hreads hrow
  obtain ⟨property, hclaims⟩ := List.exists_mem_of_ne_nil _ (membersOf_ne_nil (h.covered _ hentry))
  obtain ⟨d, hd, hsets, hsame⟩ := exists_declaration hholds h hentry hclaims
  obtain ⟨other, hother, rfl⟩ := exists_row hreads hd
  have hne : row ≠ other := by
    rintro rfl
    rw [himportant, hplain] at hsame
    cases hsame
  have hclaims' : property ∈ membersOf byProperty expand other.2.1 := by
    rw [membersOf_row hholds hanswers h hreads hother fun hmis => by
      rw [← hsame, himportant] at hmis
      cases hmis.2]
    exact hsets
  exact not_claimed_elsewhere h hreads hother hrow (.inl ⟨hne, rfl⟩) hclaims' hclaims

/-- Nothing but the declarations is read. -/
theorem rest_eq_nil (hholds : Holds ds sets longhands)
    (hanswers : ∀ f, expand = some f → Answers f ds sets longhands)
    (h : Reconciled longhands expand byProperty entries) (hreads : ReadsAll ds entries rows)
    {row : Declaration × ParsedDeclaration × List ParsedDeclaration} (hrow : row ∈ rows) :
    row.2.2 = [] := by
  by_contra hne
  obtain ⟨entry, hin⟩ := List.exists_mem_of_ne_nil _ hne
  have hentry : entry ∈ entries := by
    rw [hreads.entries]
    exact List.mem_flatMap.mpr ⟨row, hrow, List.mem_cons_of_mem _ hin⟩
  obtain ⟨property, hclaims⟩ := List.exists_mem_of_ne_nil _ (membersOf_ne_nil (h.covered _ hentry))
  obtain ⟨d, hd, hsets, -⟩ := exists_declaration hholds h hentry hclaims
  obtain ⟨other, hother, rfl⟩ := exists_row hreads hd
  have hclaims' : property ∈ membersOf byProperty expand other.2.1 := by
    rw [membersOf_row hholds hanswers h hreads hother (not_misread hholds hanswers h hreads hother)]
    exact hsets
  exact not_claimed_elsewhere h hreads hother hrow (.inr hin) hclaims' hclaims

/-- What is read of a declaration is the declaration. -/
theorem entry_eq (hholds : Holds ds sets longhands)
    (hanswers : ∀ f, expand = some f → Answers f ds sets longhands)
    (h : Reconciled longhands expand byProperty entries) (hreads : ReadsAll ds entries rows)
    {row : Declaration × ParsedDeclaration × List ParsedDeclaration} (hrow : row ∈ rows) :
    row.2.1 = ⟨row.1.name, jsTrim row.1.value, row.1.important⟩ := by
  have hrowReads := hreads.reads row hrow
  have hwhole : isWhole row.1.value = true := by
    by_contra hcut
    exact hrowReads.cut (by simpa using hcut) (rest_eq_nil hholds hanswers h hreads hrow)
  exact (hrowReads.whole hwhole).2.resolve_right (not_misread hholds hanswers h hreads hrow)

end

/-- What is read of a rule's text is the list of its declarations with a partition of the longhands,
or nothing is. -/
theorem readAuthoredDeclarations_faithful {gap : String}
    (hgap : ∀ c ∈ gap.toList, isJsSpace c = true) {ds : List Declaration}
    (hds : ∀ d ∈ ds, d.WellFormed) {sets : Declaration → List String}
    {longhands : List LonghandDeclaration} (hholds : Holds ds sets longhands)
    {expand : Option ShorthandExpander}
    (hanswers : ∀ f, expand = some f → Answers f ds sets longhands) :
    readAuthoredDeclarations (printDeclarations gap ds) longhands expand = none ∨
      ∃ declarations,
        readAuthoredDeclarations (printDeclarations gap ds) longhands expand = some declarations ∧
          FaithfulForm ds sets longhands declarations := by
  cases hread : readAuthoredDeclarations (printDeclarations gap ds) longhands expand with
  | none => exact .inl rfl
  | some declarations =>
    refine .inr ⟨declarations, rfl, ?_⟩
    obtain ⟨entries, byProperty, hparse, h, rfl⟩ := readAuthoredDeclarations_eq_some hread
    obtain ⟨rows, hreads⟩ := parseDeclarationList_print hgap hds hparse
    have hentries : entries = rows.map fun row => row.2.1 := by
      rw [hreads.entries, ← List.flatMap_pure_eq_map]
      refine List.flatMap_congr fun row hrow => ?_
      rw [rest_eq_nil hholds hanswers h hreads hrow]
      rfl
    refine ⟨?_, h.partition, ?_⟩
    · rw [hentries, ← hreads.declarations, List.map_map, List.map_map, List.map_map]
      refine List.map_congr_left fun row hrow => ?_
      have hentry := entry_eq hholds hanswers h hreads hrow
      have hmembers := membersOf_row hholds hanswers h hreads hrow
        (not_misread hholds hanswers h hreads hrow)
      have hmap := h.map_property_valuesOf (first_mem_entries hreads hrow)
      rw [hmembers] at hmap
      simp only [Function.comp_apply, presented, hmembers, hmap]
      rw [hentry]
    · intro declaration hdeclaration part hpart
      obtain ⟨entry, hentry, rfl⟩ := List.mem_map.mp hdeclaration
      obtain ⟨property, hproperty, he⟩ := List.mem_filterMap.mp hpart
      obtain ⟨longhand, hget, himportant⟩ := h.claimed entry hentry property hproperty
      rw [hget] at he
      cases he
      obtain ⟨hin, rfl⟩ := h.get?_eq_some hget
      exact ⟨longhand, hin, rfl, rfl, himportant⟩

/-! ### A shorthand and a custom property -/

def marginLonghands : List String := ["margin-top", "margin-bottom"]

def marginExpander : ShorthandExpander := fun property _ =>
  if property = "margin" then some marginLonghands else none

def marginSets (d : Declaration) : List String :=
  if d.name = "margin" then marginLonghands else [d.name]

def marginRule : List Declaration := [⟨"margin", "0px", false⟩, ⟨"--x", "[a;b: c]", true⟩]

def marginHeld : List LonghandDeclaration :=
  [⟨"margin-top", "0px", false⟩, ⟨"margin-bottom", "0px", false⟩, ⟨"--x", "[a;b: c]", true⟩]

/-- The custom property is cut, so that its rule is refused. -/
theorem readAuthoredDeclarations_faithful_sample :
    (∀ c ∈ " ".toList, isJsSpace c = true) ∧
      (readAuthoredDeclarations (printDeclarations " " marginRule) marginHeld
          (some marginExpander) = none ∨
        ∃ declarations, readAuthoredDeclarations (printDeclarations " " marginRule) marginHeld
            (some marginExpander) = some declarations ∧
          FaithfulForm marginRule marginSets marginHeld declarations) := by
  have hgap : ∀ c ∈ " ".toList, isJsSpace c = true := List.all_eq_true.1 (by decide)
  refine ⟨hgap, readAuthoredDeclarations_faithful hgap ?_ ⟨?_, ?_, ?_⟩ ?_⟩
  · intro d hd
    simp only [marginRule, List.mem_cons, List.not_mem_nil, or_false] at hd
    rcases hd with rfl | rfl
    · exact ⟨List.all_eq_true.1 (by decide), by decide⟩
    · exact ⟨List.all_eq_true.1 (by decide), by decide⟩
  · decide
  · decide
  · decide
  · intro f hf
    cases hf
    intro d hd hname value _
    simp only [marginRule, List.mem_cons, List.not_mem_nil, or_false] at hd
    rcases hd with rfl | rfl
    · rfl
    · exact absurd hname (by decide)

example : (readAuthoredDeclarations "margin: 0px; color: red !important;"
    [⟨"margin-top", "0px", false⟩, ⟨"color", "red", true⟩, ⟨"margin-bottom", "0px", false⟩]
    (some marginExpander)).map List.length = some 2 := by decide +kernel

example : readAuthoredDeclarations (printDeclarations " " marginRule) marginHeld
    (some marginExpander) = none := by decide +kernel

end PinOp.Browser
