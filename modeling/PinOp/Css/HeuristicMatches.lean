import PinOp.Css.CssSourcePlugin

/-!
# Heuristic matches

A heuristic match is the only rule, of all those the walk of the stylesheet trusts, that has
the selector and the media conditions of the fact and contains the declarations that are
reported; where there are several, the plugin says so and matches none. What the walk does
not trust is no competitor: a rule behind a construct the walk does not understand may stand
twice in the file and still be matched.
-/

namespace PinOp.Css

open PinOp.Lib PinOp.Protocol
open PinOp.Presenter (SourceTargetRole SourceConfidence)

namespace CssFile

variable (spelling : CssSpelling) (file : CssFile)

variable {spelling file} {fact : CssResolutionFact} {entry : TargetCssFact}
  {rule other : ParsedRule}

end CssFile

/-! ## One fact -/

namespace ActiveDocument

variable {spelling : CssSpelling} {document : ActiveDocument} {s : ResolveState} {asked : Asked}

@[simp] theorem noteStrategy_found (resolution : SourceUriResolution) (s : ResolveState) :
    (document.noteStrategy resolution s).found = s.found := by
  unfold noteStrategy
  simp only
  split <;> rfl

@[simp] theorem noteStrategy_diagnostics (resolution : SourceUriResolution) (s : ResolveState) :
    (document.noteStrategy resolution s).diagnostics = s.diagnostics := by
  unfold noteStrategy
  simp only
  split <;> rfl

@[simp] theorem noteStrategy_ambiguousRules (resolution : SourceUriResolution) (s : ResolveState) :
    (document.noteStrategy resolution s).ambiguousRules = s.ambiguousRules := by
  unfold noteStrategy
  simp only
  split <;> rfl

/-- The confidence a match of the fact has. -/
def confidence (spelling : CssSpelling) (document : ActiveDocument) (asked : Asked) :
    SourceConfidence :=
  if 0 < (document.exactRules spelling asked).length then .exact else .heuristic

theorem mem_addOnce {seen : List String} {key : String} {diagnostics : List PluginDiagnostic}
    {create : String → PluginDiagnostic} {diagnostic : PluginDiagnostic}
    (h : diagnostic ∈ diagnostics) : diagnostic ∈ addOnce seen key diagnostics create := by
  unfold addOnce
  split
  · exact h
  · exact List.mem_append_left _ h

/-- What is noted where the rules of a fact are ambiguous. -/
structure SaysAmbiguous (asked : Asked) (s s' : ResolveState) : Prop where
  found : s'.found = s.found
  ambiguousRules : s'.ambiguousRules = asked.entry.fact.selector :: s.ambiguousRules
  diagnostics : s'.diagnostics =
    addOnce s.ambiguousRules asked.entry.fact.selector s.diagnostics ambiguousRuleDiagnostic

/-- A fact adds the match of the only rule there is for it, or no match. -/
theorem resolveFact_cases (s : ResolveState) (asked : Asked) :
    (∃ rule, document.rulesFor spelling asked = [rule] ∧
      (document.resolveFact spelling s asked).found =
        s.found ++ [sourceMatch asked.entry rule.range (document.confidence spelling asked)] ∧
      (document.resolveFact spelling s asked).ambiguousRules = s.ambiguousRules ∧
      (document.resolveFact spelling s asked).diagnostics = s.diagnostics) ∨
    ((document.resolveFact spelling s asked).found = s.found ∧
      (document.resolveFact spelling s asked).ambiguousRules = s.ambiguousRules ∧
      ∀ d ∈ s.diagnostics, d ∈ (document.resolveFact spelling s asked).diagnostics) ∨
    SaysAmbiguous asked s (document.resolveFact spelling s asked) := by
  have hnoted : ∀ d ∈ s.diagnostics, d ∈ (document.noteStrategy asked.resolution s).diagnostics := by
    intro d hd
    rw [noteStrategy_diagnostics]
    exact hd
  unfold resolveFact
  simp only
  split
  · exact .inr (.inl ⟨noteStrategy_found _ _, noteStrategy_ambiguousRules _ _,
      fun d hd => mem_addOnce (hnoted d hd)⟩)
  · exact .inr (.inl ⟨noteStrategy_found _ _, noteStrategy_ambiguousRules _ _,
      fun d hd => mem_addOnce (hnoted d hd)⟩)
  · split
    · next rule hrule =>
      refine .inl ⟨rule, hrule, ?_, noteStrategy_ambiguousRules _ _, noteStrategy_diagnostics _ _⟩
      simp only [noteStrategy_found]
      rfl
    · split
      · exact .inr (.inl ⟨noteStrategy_found _ _, noteStrategy_ambiguousRules _ _,
          fun d hd => mem_addOnce (hnoted d hd)⟩)
      · exact .inr (.inl ⟨noteStrategy_found _ _, noteStrategy_ambiguousRules _ _, hnoted⟩)
    · refine .inr (.inr ⟨noteStrategy_found _ _, ?_, ?_⟩)
      · simp only [noteStrategy_ambiguousRules]
      · simp only [noteStrategy_ambiguousRules, noteStrategy_diagnostics]

/-- Every selector that was said to be ambiguous stands in a diagnostic. -/
def Said (s : ResolveState) : Prop :=
  ∀ selector ∈ s.ambiguousRules, ambiguousRuleDiagnostic selector ∈ s.diagnostics

theorem SaysAmbiguous.said {s' : ResolveState} (h : SaysAmbiguous asked s s') (hs : Said s) :
    ambiguousRuleDiagnostic asked.entry.fact.selector ∈ s'.diagnostics := by
  rw [h.diagnostics, addOnce]
  split
  · next hseen =>
    rw [List.contains_eq_mem, decide_eq_true_eq] at hseen
    exact hs _ hseen
  · exact List.mem_append_right _ (List.mem_singleton_self _)

theorem Said.resolveFact (h : Said s) : Said (document.resolveFact spelling s asked) := by
  rcases @resolveFact_cases spelling document s asked with
    ⟨-, -, -, hrules, heq⟩ | ⟨-, hrules, hall⟩ | hnoted
  · rw [Said, hrules, heq]
    exact h
  · rw [Said, hrules]
    exact fun selector hmem => hall _ (h selector hmem)
  · rw [Said, hnoted.ambiguousRules]
    intro selector hmem
    rcases List.mem_cons.1 hmem with rfl | hmem
    · exact hnoted.said h
    · rw [hnoted.diagnostics]
      exact mem_addOnce (h selector hmem)

end ActiveDocument

/-! ## Samples -/

namespace FallbackSample

/-- Everything is its own spelling. -/
def ownSpelling : CssSpelling where
  toLowerCase := id
  localeCompare := compareText
  normalizeSelector := some
  normalizeCssValue := id
  longhands := fun property value => [(property, value)]

/-- A selector is one tag. -/
def oneTag : SelectorParser := fun value =>
  some [.mk .selector none none [.mk .tag (some value) none []]]

/-- A file in which every rule turns things red. -/
def redFile (text : String) (tree : SyntaxTree)
    (h : (parseStylesheet oneTag .css text tree none).isSome) : CssFile where
  parser := oneTag
  text := text
  tree := tree
  directDeclarations := fun _ => [⟨"color", "red", none, none⟩]
  maxRules := none
  stylesheet := (parseStylesheet oneTag .css text tree none).get h
  parsed := (Option.some_get h).symm

/-- The browser reports a red rule under a path that no file here has. -/
def asked : Asked where
  entry := ⟨.selected, ⟨"a", none, some "0.7", [], false⟩, "/a.css",
    [⟨"color", "red", some false, some true⟩]⟩
  resolution := ⟨["file:///a.css"], .exact, .automatic, none⟩
  aborted := false

def first (file : CssFile) : ParsedRule := file.ruleOf ownSpelling ⟨1, "a", 0, 12, 1⟩

def second (file : CssFile) (start : ℕ) : ParsedRule :=
  file.ruleOf ownSpelling ⟨2, "a", start, start + 12, start + 1⟩

end FallbackSample

open FallbackSample ActiveDocument

end PinOp.Css
