import PinOp.Css.ValueTokens

/-!
# Lists of transitions and animations

Every token of a layer goes to the first part that takes it and is not set. As a token that one
part takes is taken by no part that is tried before, save that the first time is the duration and
the second the delay, it does not matter in which order the parts of a layer are written, nor
whether the initial ones are.
-/

namespace PinOp.Css

open PinOp.Lib PinOp.Lib.Regex

structure Longhand where
  property : String
  value : String
  deriving DecidableEq

def layersOf (value : String) : Option (List String) :=
  let layers := splitTopLevel value ','
  if 0 < layers.length then some layers else none

/-! ## Transitions -/

/-- What a layer says of its parts so far. -/
structure TransitionRead where
  property : Option String
  duration : Option String
  easing : Option String
  delay : Option String
  behavior : Option String
  deriving DecidableEq

/-- The loop of `readTransition` over the tokens of a layer. -/
def readTransitionToken (r : TransitionRead) (token : String) : Option TransitionRead :=
  let lower := jsToLowerCase token
  if timePattern.test token then
    if r.duration.isNone then some { r with duration := some token }
    else if r.delay.isNone then some { r with delay := some token }
    else none
  else if isEasing token then
    if r.easing.isSome then none else some { r with easing := some token }
  else if lower = "normal" || lower = "allow-discrete" then
    if r.behavior.isSome then none else some { r with behavior := some lower }
  else if identifierPattern.test token && r.property.isNone then
    some { r with property := some (if token.startsWith "--" then token else lower) }
  else none

def readTransition (value : String) : Option (List Longhand) :=
  (layersOf value).bind fun layers =>
    (layers.mapM fun layer =>
      (components layer).foldlM readTransitionToken ⟨none, none, none, none, none⟩).map fun reads =>
      let column (entry : TransitionRead → String) := ",".intercalate (reads.map entry)
      [⟨"transition-property", column fun r => r.property.getD "all"⟩,
        ⟨"transition-duration", column fun r => canonicalTime (r.duration.getD "0s")⟩,
        ⟨"transition-timing-function", column fun r => canonicalEasing (r.easing.getD "ease")⟩,
        ⟨"transition-delay", column fun r => canonicalTime (r.delay.getD "0s")⟩,
        ⟨"transition-behavior", column fun r => r.behavior.getD "normal"⟩]

/-! ## Animations -/

def animationDirections : List String := ["alternate", "alternate-reverse", "normal", "reverse"]

def animationFillModes : List String := ["backwards", "both", "forwards", "none"]

def animationPlayStates : List String := ["paused", "running"]

structure AnimationRead where
  name : Option String
  duration : Option String
  easing : Option String
  delay : Option String
  iterations : Option String
  direction : Option String
  fillMode : Option String
  playState : Option String
  deriving DecidableEq

/-- The loop of `readAnimation` over the tokens of a layer. -/
def readAnimationToken (r : AnimationRead) (token : String) : Option AnimationRead :=
  let lower := jsToLowerCase token
  if timePattern.test token then
    if r.duration.isNone then some { r with duration := some token }
    else if r.delay.isNone then some { r with delay := some token }
    else none
  else if lower = "auto" && r.duration.isNone then some { r with duration := some "0s" }
  else if isEasing token && r.easing.isNone then some { r with easing := some token }
  else if (numberPattern.test token || lower = "infinite") && r.iterations.isNone then
    some { r with iterations := some lower }
  else if animationDirections.contains lower && r.direction.isNone then
    some { r with direction := some lower }
  else if animationFillModes.contains lower && r.fillMode.isNone then
    some { r with fillMode := some lower }
  else if animationPlayStates.contains lower && r.playState.isNone then
    some { r with playState := some lower }
  else if (identifierPattern.test token || stringPattern.test token) && !token.startsWith "--" &&
      !isEasing token && r.name.isNone then
    some { r with name := some (if lower = "none" then lower else token) }
  else none

def readAnimation (value : String) : Option (List Longhand) :=
  (layersOf value).bind fun layers =>
    (layers.mapM fun layer => (components layer).foldlM readAnimationToken
      ⟨none, none, none, none, none, none, none, none⟩).map fun reads =>
      let column (entry : AnimationRead → String) := ",".intercalate (reads.map entry)
      [⟨"animation-name", column fun r => r.name.getD "none"⟩,
        ⟨"animation-duration", column fun r => canonicalTime (r.duration.getD "0s")⟩,
        ⟨"animation-timing-function", column fun r => canonicalEasing (r.easing.getD "ease")⟩,
        ⟨"animation-delay", column fun r => canonicalTime (r.delay.getD "0s")⟩,
        ⟨"animation-iteration-count", column fun r => r.iterations.getD "1"⟩,
        ⟨"animation-direction", column fun r => r.direction.getD "normal"⟩,
        ⟨"animation-fill-mode", column fun r => r.fillMode.getD "none"⟩,
        ⟨"animation-play-state", column fun r => r.playState.getD "running"⟩]

/-! ## Layers and their renderings -/

/-- The parts of a list shorthand: which tokens a part has, what its longhand says of one, and
what it says where the part is left out. -/
structure ListShorthand (Part : Type) where
  accepts : Part → String → Bool
  entry : Part → String → String
  initial : Part → String
  duration : Part
  delay : Part

/-- A token for each part. -/
structure Layer {Part : Type} (S : ListShorthand Part) where
  token : Part → String
  accepts : ∀ p, S.accepts p (token p) = true
  isToken : ∀ p, isToken (token p) = true

namespace Layer

variable {Part : Type} {S : ListShorthand Part}

def entry (l : Layer S) (p : Part) : String := S.entry p (l.token p)

/-- A rendering of a layer has its parts in any order that has the duration before the delay, and
leaves out some that are initial, the duration together with the delay only. -/
structure Renders (l : Layer S) (order : List Part) : Prop where
  nodup : order.Nodup
  omitted : ∀ p ∉ order, l.entry p = S.initial p
  ordered : ∀ before after, order = before ++ S.delay :: after → S.duration ∈ before

def text (l : Layer S) (order : List Part) : String := " ".intercalate (order.map l.token)

/-- The value that the renderings of layers make up. -/
def value (rendered : List (Layer S × List Part)) : String :=
  ",".intercalate (rendered.map fun p => p.1.text p.2)

/-- The longhand of a part: an entry for each layer. -/
def column (layers : List (Layer S)) (p : Part) : String :=
  ",".intercalate (layers.map fun l => l.entry p)

theorem text_ne_empty {l : Layer S} {order : List Part} (h : order ≠ []) : l.text order ≠ "" := by
  obtain ⟨p, order, rfl⟩ := List.exists_cons_of_ne_nil h
  have htoken := l.isToken p
  simp only [PinOp.Css.isToken, Bool.and_eq_true, decide_eq_true_eq, ne_eq] at htoken
  intro he
  have hlist := congrArg String.toList he
  rw [text, String.toList_intercalate, List.map_map, List.map_cons] at hlist
  cases order with
  | nil => exact htoken.1 (by simpa using hlist)
  | cons q order =>
    rw [List.map_cons, List.intercalate_cons_cons] at hlist
    simp at hlist

theorem isToken_of_mem (l : Layer S) (order : List Part) :
    ∀ token ∈ order.map l.token, PinOp.Css.isToken token = true := by
  intro token hm
  obtain ⟨p, -, rfl⟩ := List.mem_map.mp hm
  exact l.isToken p

theorem layersOf_value {rendered : List (Layer S × List Part)} (hne : rendered ≠ [])
    (h : ∀ p ∈ rendered, p.2 ≠ []) :
    layersOf (value rendered) = some (rendered.map fun p => p.1.text p.2) := by
  have hsplit : splitTopLevel (value rendered) ',' = rendered.map fun p => p.1.text p.2 := by
    refine splitTopLevel_intercalate fun text hm => ?_
    obtain ⟨p, hp, rfl⟩ := List.mem_map.mp hm
    exact ⟨text_ne_empty (h p hp), closedFrom_tokens (isToken_of_mem p.1 p.2)⟩
  have hpos : 0 < (rendered.map fun p => p.1.text p.2).length := by
    rw [List.length_map]
    exact List.length_pos_of_ne_nil hne
  simp only [layersOf, hsplit, hpos, if_true]

/-- Where each token sets its part to what the layer says of it, the tokens of a rendering set the
parts that it has. -/
theorem foldlM_text {σ : Type} {step : σ → String → Option σ} {state : List Part → σ} {l : Layer S}
    {order : List Part} (hr : l.Renders order)
    (hstep : ∀ done p, p ∉ done → (p = S.delay → S.duration ∈ done) →
      step (state done) (l.token p) = some (state (done ++ [p]))) :
    (components (l.text order)).foldlM step (state []) = some (state order) := by
  have hgo (done rest : List Part) (ho : order = done ++ rest) :
      (rest.map l.token).foldlM step (state done) = some (state order) := by
    induction rest generalizing done with
    | nil =>
      rw [ho, List.append_nil]
      rfl
    | cons p rest ih =>
      have hp : p ∉ done := by
        have hnd := hr.nodup
        rw [ho] at hnd
        exact fun hm => List.disjoint_of_nodup_append hnd hm List.mem_cons_self
      have hdelay : p = S.delay → S.duration ∈ done := by
        rintro rfl
        exact hr.ordered done rest ho
      rw [List.map_cons, List.foldlM_cons, hstep done p hp hdelay]
      exact ih (done ++ [p]) (by rw [ho, List.append_assoc, List.singleton_append])
  rw [text, components_intercalate (isToken_of_mem l order)]
  exact hgo [] order rfl

theorem mapM_map {α β γ : Type} {f : β → Option γ} {g : α → β} {k : α → γ} {xs : List α}
    (h : ∀ x ∈ xs, f (g x) = some (k x)) : (xs.map g).mapM f = some (xs.map k) := by
  induction xs with
  | nil => rfl
  | cons x xs ih =>
    rw [List.map_cons, List.mapM_cons, h x List.mem_cons_self,
      ih fun x hm => h x (List.mem_cons_of_mem _ hm)]
    rfl

/-- The layers of a value are read one by one. -/
theorem read_value {σ τ : Type} {step : σ → String → Option σ} {state : Layer S → List Part → σ}
    {start : σ} {longhands : List σ → τ} {rendered : List (Layer S × List Part)}
    (hne : rendered ≠ []) (hr : ∀ p ∈ rendered, p.1.Renders p.2 ∧ p.2 ≠ [])
    (hstart : ∀ l, state l [] = start)
    (hstep : ∀ l done p, p ∉ done → (p = S.delay → S.duration ∈ done) →
      step (state l done) (l.token p) = some (state l (done ++ [p]))) :
    ((layersOf (value rendered)).bind fun layers =>
      (layers.mapM fun layer => (components layer).foldlM step start).map longhands) =
      some (longhands (rendered.map fun p => state p.1 p.2)) := by
  rw [layersOf_value hne fun p hp => (hr p hp).2, Option.bind_some, mapM_map, Option.map_some]
  intro p hp
  rw [← hstart p.1]
  exact foldlM_text (hr p hp).1 (hstep p.1)

end Layer

/-! ## Reading transitions -/

inductive TransitionPart where
  | property
  | duration
  | easing
  | delay
  | behavior
  deriving DecidableEq

def transition : ListShorthand TransitionPart where
  accepts
    | .property, token => identifierPattern.test token && !isEasing token &&
        !(["normal", "allow-discrete"].contains (jsToLowerCase token))
    | .duration, token => timePattern.test token
    | .easing, token => isEasing token
    | .delay, token => timePattern.test token
    | .behavior, token => ["normal", "allow-discrete"].contains (jsToLowerCase token)
  entry
    | .property, token => if token.startsWith "--" then token else jsToLowerCase token
    | .duration, token => canonicalTime token
    | .easing, token => canonicalEasing token
    | .delay, token => canonicalTime token
    | .behavior, token => jsToLowerCase token
  initial
    | .property => "all"
    | .duration => "0s"
    | .easing => "ease"
    | .delay => "0s"
    | .behavior => "normal"
  duration := .duration
  delay := .delay

def transitionLonghands (layers : List (Layer transition)) : List Longhand :=
  [⟨"transition-property", Layer.column layers .property⟩,
    ⟨"transition-duration", Layer.column layers .duration⟩,
    ⟨"transition-timing-function", Layer.column layers .easing⟩,
    ⟨"transition-delay", Layer.column layers .delay⟩,
    ⟨"transition-behavior", Layer.column layers .behavior⟩]

/-- What is read of a layer when the parts are. -/
def transitionRead (l : Layer transition) (parts : List TransitionPart) : TransitionRead where
  property := if .property ∈ parts then some (l.entry .property) else none
  duration := if .duration ∈ parts then some (l.token .duration) else none
  easing := if .easing ∈ parts then some (l.token .easing) else none
  delay := if .delay ∈ parts then some (l.token .delay) else none
  behavior := if .behavior ∈ parts then some (l.entry .behavior) else none

theorem readTransitionToken_part (l : Layer transition) (parts : List TransitionPart)
    (p : TransitionPart) (hp : p ∉ parts) (hdelay : p = .delay → .duration ∈ parts) :
    readTransitionToken (transitionRead l parts) (l.token p) =
      some (transitionRead l (parts ++ [p])) := by
  have hacc := l.accepts p
  cases p with
  | property =>
    simp only [transition, Bool.and_eq_true, Bool.not_eq_true'] at hacc
    obtain ⟨⟨hid, heasing⟩, hbehavior⟩ := hacc
    have htime := (notNumeric_of_begins (identifier_begins hid)).time
    simp only [List.contains_cons, List.contains_nil, Bool.or_false, Bool.or_eq_false_iff,
      beq_eq_false_iff_ne, ne_eq] at hbehavior
    simp [readTransitionToken, transitionRead, htime, heasing, hbehavior, hid, hp, Layer.entry,
      transition]
  | duration => simp [readTransitionToken, transitionRead, show timePattern.test _ = true from hacc, hp]
  | easing =>
    have htime := (notNumeric_of_easing hacc).time
    simp [readTransitionToken, transitionRead, htime, show isEasing _ = true from hacc, hp]
  | delay =>
    simp [readTransitionToken, transitionRead, show timePattern.test _ = true from hacc, hp,
      hdelay rfl]
  | behavior =>
    have htime := (notNumeric_of_keyword hacc (by decide)).time
    have heasing := not_easing_of_keyword hacc (by decide)
    have hbehavior : jsToLowerCase (l.token .behavior) = "normal" ∨
        jsToLowerCase (l.token .behavior) = "allow-discrete" := by
      simpa [transition] using hacc
    simp [readTransitionToken, transitionRead, htime, heasing, hbehavior, hp, Layer.entry,
      transition]

/-- A part that is left out has its initial value. -/
theorem Layer.Renders.getD {Part : Type} [DecidableEq Part] {S : ListShorthand Part} {l : Layer S}
    {order : List Part} (hr : l.Renders order) (p : Part) :
    (if p ∈ order then some (l.entry p) else none).getD (S.initial p) = l.entry p := by
  split
  · rfl
  · rename_i hp
    exact (hr.omitted p hp).symm

/-- The same where what is read is still to be brought to one spelling. -/
theorem Layer.Renders.map_getD {Part : Type} [DecidableEq Part] {S : ListShorthand Part}
    {l : Layer S} {order : List Part} (hr : l.Renders order) (p : Part) (f : String → String)
    (read initial : String) (hread : f read = l.entry p) (hinitial : f initial = S.initial p) :
    f ((if p ∈ order then some read else none).getD initial) = l.entry p := by
  split
  · exact hread
  · rename_i hp
    exact hinitial.trans (hr.omitted p hp).symm

theorem readTransition_value {rendered : List (Layer transition × List TransitionPart)}
    (hne : rendered ≠ []) (hr : ∀ p ∈ rendered, p.1.Renders p.2 ∧ p.2 ≠ []) :
    readTransition (Layer.value rendered) = some (transitionLonghands (rendered.map Prod.fst)) := by
  unfold readTransition
  rw [@Layer.read_value _ _ _ _ _ transitionRead _ _ _ hne hr (fun _ => rfl)
    readTransitionToken_part]
  have hcolumn (p : TransitionPart) (entry : TransitionRead → String)
      (h : ∀ q ∈ rendered, entry (transitionRead q.1 q.2) = q.1.entry p) :
      ",".intercalate ((rendered.map fun q => transitionRead q.1 q.2).map entry) =
        Layer.column (rendered.map Prod.fst) p := by
    rw [Layer.column, List.map_map, List.map_map]
    exact congrArg _ (List.map_congr_left h)
  simp only [transitionLonghands]
  rw [hcolumn .property, hcolumn .duration, hcolumn .easing, hcolumn .delay, hcolumn .behavior]
  · exact fun q hq => (hr q hq).1.getD .behavior
  · exact fun q hq => (hr q hq).1.map_getD .delay canonicalTime _ _ rfl canonicalTime_zero
  · exact fun q hq => (hr q hq).1.map_getD .easing canonicalEasing _ _ rfl canonicalEasing_ease
  · exact fun q hq => (hr q hq).1.map_getD .duration canonicalTime _ _ rfl canonicalTime_zero
  · exact fun q hq => (hr q hq).1.getD .property

/-! ## Reading animations -/

inductive AnimationPart where
  | name
  | duration
  | easing
  | delay
  | iterations
  | direction
  | fillMode
  | playState
  deriving DecidableEq

/-- What is a keyword of another part than the name; timing functions are too. -/
def animationKeywords : List String :=
  ["auto", "infinite"] ++ animationDirections ++ animationFillModes ++ animationPlayStates

def animation : ListShorthand AnimationPart where
  accepts
    | .name, token => (identifierPattern.test token || stringPattern.test token) &&
        !token.startsWith "--" && !isEasing token &&
          !animationKeywords.contains (jsToLowerCase token)
    | .duration, token => timePattern.test token || ["auto"].contains (jsToLowerCase token)
    | .easing, token => isEasing token
    | .delay, token => timePattern.test token
    | .iterations, token => numberPattern.test token || ["infinite"].contains (jsToLowerCase token)
    | .direction, token => animationDirections.contains (jsToLowerCase token)
    | .fillMode, token => animationFillModes.contains (jsToLowerCase token)
    | .playState, token => animationPlayStates.contains (jsToLowerCase token)
  entry
    | .name, token => token
    | .duration, token => if jsToLowerCase token = "auto" then "0s" else canonicalTime token
    | .easing, token => canonicalEasing token
    | .delay, token => canonicalTime token
    | .iterations, token => jsToLowerCase token
    | .direction, token => jsToLowerCase token
    | .fillMode, token => jsToLowerCase token
    | .playState, token => jsToLowerCase token
  initial
    | .name => "none"
    | .duration => "0s"
    | .easing => "ease"
    | .delay => "0s"
    | .iterations => "1"
    | .direction => "normal"
    | .fillMode => "none"
    | .playState => "running"
  duration := .duration
  delay := .delay

def animationLonghands (layers : List (Layer animation)) : List Longhand :=
  [⟨"animation-name", Layer.column layers .name⟩,
    ⟨"animation-duration", Layer.column layers .duration⟩,
    ⟨"animation-timing-function", Layer.column layers .easing⟩,
    ⟨"animation-delay", Layer.column layers .delay⟩,
    ⟨"animation-iteration-count", Layer.column layers .iterations⟩,
    ⟨"animation-direction", Layer.column layers .direction⟩,
    ⟨"animation-fill-mode", Layer.column layers .fillMode⟩,
    ⟨"animation-play-state", Layer.column layers .playState⟩]

/-- Keywords of one part are none of another. -/
theorem not_mem_of_keyword {lower : String} {keywords : List String} (other : List String)
    (h : keywords.contains lower = true) (ho : (keywords.all fun k => !other.contains k) = true) :
    lower ∉ other := by
  have hk := List.all_eq_true.mp ho lower (List.contains_iff_mem.mp h)
  simpa using hk

/-- What is read of a layer when the parts are. -/
def animationRead (l : Layer animation) (parts : List AnimationPart) : AnimationRead where
  name := if .name ∈ parts then some (l.token .name) else none
  duration :=
    if .duration ∈ parts then
      some (if jsToLowerCase (l.token .duration) = "auto" then "0s" else l.token .duration)
    else none
  easing := if .easing ∈ parts then some (l.token .easing) else none
  delay := if .delay ∈ parts then some (l.token .delay) else none
  iterations := if .iterations ∈ parts then some (l.entry .iterations) else none
  direction := if .direction ∈ parts then some (l.entry .direction) else none
  fillMode := if .fillMode ∈ parts then some (l.entry .fillMode) else none
  playState := if .playState ∈ parts then some (l.entry .playState) else none

theorem readAnimationToken_part (l : Layer animation) (parts : List AnimationPart)
    (p : AnimationPart) (hp : p ∉ parts) (hdelay : p = .delay → .duration ∈ parts) :
    readAnimationToken (animationRead l parts) (l.token p) =
      some (animationRead l (parts ++ [p])) := by
  have hacc := l.accepts p
  cases p with
  | name =>
    simp only [animation, Bool.and_eq_true, Bool.not_eq_true', Bool.or_eq_true] at hacc
    obtain ⟨⟨⟨htext, hhyphens⟩, heasing⟩, hkeyword⟩ := hacc
    have hnumeric : NotNumeric (l.token .name) := notNumeric_of_begins
      (htext.elim identifier_begins string_begins)
    simp only [animationKeywords, animationDirections, animationFillModes, animationPlayStates,
      List.contains_eq_mem, List.cons_append, List.nil_append, List.mem_cons, List.not_mem_nil,
      or_false, decide_eq_false_iff_not, not_or] at hkeyword
    simp [readAnimationToken, animationRead, hnumeric.time, hnumeric.number, heasing, hkeyword,
      htext, hhyphens, hp, animationDirections, animationFillModes, animationPlayStates]
  | duration =>
    simp only [animation, Bool.or_eq_true] at hacc
    by_cases htime : timePattern.test (l.token .duration) = true
    · have hauto : jsToLowerCase (l.token .duration) ≠ "auto" := by
        intro he
        have hkeyword : ["auto"].contains (jsToLowerCase (l.token .duration)) = true := by simp [he]
        rw [(notNumeric_of_keyword hkeyword (by decide)).time] at htime
        cases htime
      simp [readAnimationToken, animationRead, htime, hauto, hp]
    · have hauto : jsToLowerCase (l.token .duration) = "auto" := by
        simpa [htime] using hacc
      simp [readAnimationToken, animationRead, htime, hauto, hp]
  | easing =>
    have hnumeric := notNumeric_of_easing hacc
    have hauto : jsToLowerCase (l.token .easing) ≠ "auto" := by
      intro he
      have hkeyword : ["auto"].contains (jsToLowerCase (l.token .easing)) = true := by simp [he]
      have hn := not_easing_of_keyword hkeyword (by decide)
      rw [show isEasing (l.token .easing) = true from hacc] at hn
      cases hn
    simp [readAnimationToken, animationRead, hnumeric.time, hauto,
      show isEasing (l.token .easing) = true from hacc, hp]
  | delay =>
    simp [readAnimationToken, animationRead, show timePattern.test _ = true from hacc, hp,
      hdelay rfl]
  | iterations =>
    simp only [animation, Bool.or_eq_true] at hacc
    rcases hacc with hnumber | hkeyword
    · have hauto : jsToLowerCase (l.token .iterations) ≠ "auto" := by
        intro he
        have hkeyword : ["auto"].contains (jsToLowerCase (l.token .iterations)) = true := by
          simp [he]
        rw [(notNumeric_of_keyword hkeyword (by decide)).number] at hnumber
        cases hnumber
      have heasing : isEasing (l.token .iterations) = false := by
        cases he : isEasing (l.token .iterations) with
        | false => rfl
        | true =>
          rw [(notNumeric_of_easing he).number] at hnumber
          cases hnumber
      simp [readAnimationToken, animationRead, not_time_of_number hnumber, hauto, heasing, hnumber,
        hp, Layer.entry, animation]
    · have hnumeric := notNumeric_of_keyword hkeyword (by decide)
      have heasing := not_easing_of_keyword hkeyword (by decide)
      have hlower : jsToLowerCase (l.token .iterations) = "infinite" := by simpa using hkeyword
      simp [readAnimationToken, animationRead, hnumeric.time, hnumeric.number, heasing, hlower, hp,
        Layer.entry, animation]
  | direction =>
    have hkeyword : animationDirections.contains (jsToLowerCase (l.token .direction)) = true := hacc
    have hnumeric := notNumeric_of_keyword hkeyword (by decide)
    have heasing := not_easing_of_keyword hkeyword (by decide)
    have hother := not_mem_of_keyword ["auto", "infinite"] hkeyword (by decide)
    simp only [List.mem_cons, List.not_mem_nil, or_false, not_or] at hother
    simp [readAnimationToken, animationRead, hnumeric.time, hnumeric.number, heasing, hother,
      List.contains_iff_mem.mp hkeyword, hp, Layer.entry, animation]
  | fillMode =>
    have hkeyword : animationFillModes.contains (jsToLowerCase (l.token .fillMode)) = true := hacc
    have hnumeric := notNumeric_of_keyword hkeyword (by decide)
    have heasing := not_easing_of_keyword hkeyword (by decide)
    have hother := not_mem_of_keyword ["auto", "infinite"] hkeyword (by decide)
    simp only [List.mem_cons, List.not_mem_nil, or_false, not_or] at hother
    have hdirection := not_mem_of_keyword animationDirections hkeyword (by decide)
    simp [readAnimationToken, animationRead, hnumeric.time, hnumeric.number, heasing, hother,
      hdirection, List.contains_iff_mem.mp hkeyword, hp, Layer.entry, animation]
  | playState =>
    have hkeyword : animationPlayStates.contains (jsToLowerCase (l.token .playState)) = true := hacc
    have hnumeric := notNumeric_of_keyword hkeyword (by decide)
    have heasing := not_easing_of_keyword hkeyword (by decide)
    have hother := not_mem_of_keyword ["auto", "infinite"] hkeyword (by decide)
    simp only [List.mem_cons, List.not_mem_nil, or_false, not_or] at hother
    have hdirection := not_mem_of_keyword animationDirections hkeyword (by decide)
    have hfill := not_mem_of_keyword animationFillModes hkeyword (by decide)
    simp [readAnimationToken, animationRead, hnumeric.time, hnumeric.number, heasing, hother,
      hdirection, hfill, List.contains_iff_mem.mp hkeyword, hp, Layer.entry, animation]

/-- A name is never left out: what is not written is `none`, which is a fill mode. -/
theorem Layer.Renders.name_mem {l : Layer animation} {order : List AnimationPart}
    (hr : l.Renders order) : .name ∈ order := by
  by_contra hname
  have hnone : l.token .name = "none" := hr.omitted .name hname
  have hacc : animation.accepts .name (l.token .name) = true := l.accepts .name
  rw [hnone] at hacc
  exact absurd hacc (by decide +kernel)

theorem animationRead_duration {l : Layer animation} {order : List AnimationPart}
    (hr : l.Renders order) :
    canonicalTime ((animationRead l order).duration.getD "0s") = l.entry .duration := by
  refine hr.map_getD .duration canonicalTime _ _ ?_ canonicalTime_zero
  show canonicalTime (if _ then _ else _) = if _ then _ else _
  split
  · exact canonicalTime_zero
  · rfl

theorem readAnimation_value {rendered : List (Layer animation × List AnimationPart)}
    (hne : rendered ≠ []) (hr : ∀ p ∈ rendered, p.1.Renders p.2) :
    readAnimation (Layer.value rendered) = some (animationLonghands (rendered.map Prod.fst)) := by
  unfold readAnimation
  rw [@Layer.read_value _ _ _ _ _ animationRead _ _ _ hne
    (fun p hp => ⟨hr p hp, List.ne_nil_of_mem (hr p hp).name_mem⟩) (fun _ => rfl)
    readAnimationToken_part]
  have hcolumn (p : AnimationPart) (entry : AnimationRead → String)
      (h : ∀ q ∈ rendered, entry (animationRead q.1 q.2) = q.1.entry p) :
      ",".intercalate ((rendered.map fun q => animationRead q.1 q.2).map entry) =
        Layer.column (rendered.map Prod.fst) p := by
    rw [Layer.column, List.map_map, List.map_map]
    exact congrArg _ (List.map_congr_left h)
  simp only [animationLonghands]
  rw [hcolumn .name, hcolumn .duration, hcolumn .easing, hcolumn .delay, hcolumn .iterations,
    hcolumn .direction, hcolumn .fillMode, hcolumn .playState]
  · exact fun q hq => (hr q hq).getD .playState
  · exact fun q hq => (hr q hq).getD .fillMode
  · exact fun q hq => (hr q hq).getD .direction
  · exact fun q hq => (hr q hq).getD .iterations
  · exact fun q hq => (hr q hq).map_getD .delay canonicalTime _ _ rfl canonicalTime_zero
  · exact fun q hq => (hr q hq).map_getD .easing canonicalEasing _ _ rfl canonicalEasing_ease
  · exact fun q hq => animationRead_duration (hr q hq)
  · exact fun q hq => (hr q hq).getD .name

/-! ## Every rendering is read alike -/

/-- In whatever order the parts of its layers are written, and whichever initial ones are left out,
a list of transitions or animations is read as what the layers say of each part. -/
theorem listShorthands_read :
    (∀ rendered : List (Layer transition × List TransitionPart), rendered ≠ [] →
      (∀ p ∈ rendered, p.1.Renders p.2 ∧ p.2 ≠ []) →
        readTransition (Layer.value rendered) =
          some (transitionLonghands (rendered.map Prod.fst))) ∧
      (∀ rendered : List (Layer animation × List AnimationPart), rendered ≠ [] →
        (∀ p ∈ rendered, p.1.Renders p.2) →
          readAnimation (Layer.value rendered) =
            some (animationLonghands (rendered.map Prod.fst))) :=
  ⟨fun _ => readTransition_value, fun _ => readAnimation_value⟩

/-- `opacity`, slowly at first. -/
def opacityLayer : Layer transition where
  token
    | .property => "Opacity"
    | .duration => "1.5s"
    | .easing => "cubic-bezier(0.4,0,0.2,1)"
    | .delay => "0ms"
    | .behavior => "normal"
  accepts p := by cases p <;> decide +kernel
  isToken p := by cases p <;> decide +kernel

/-- A layer that says nothing but the initial. -/
def initialLayer : Layer transition where
  token
    | .property => "all"
    | .duration => "0s"
    | .easing => "ease"
    | .delay => "0s"
    | .behavior => "normal"
  accepts p := by cases p <;> decide +kernel
  isToken p := by cases p <;> decide +kernel

/-- An animation that is paused from the start. -/
def slideLayer : Layer animation where
  token
    | .name => "slide-in"
    | .duration => "AUTO"
    | .easing => "Linear"
    | .delay => "0s"
    | .iterations => "infinite"
    | .direction => "normal"
    | .fillMode => "none"
    | .playState => "paused"
  accepts p := by cases p <;> decide +kernel
  isToken p := by cases p <;> decide +kernel

/-- As it is evaluated: what stands before the delay has the duration. -/
theorem Layer.renders_of {Part : Type} [DecidableEq Part] {S : ListShorthand Part} {l : Layer S}
    {order : List Part} (hnodup : order.Nodup) (homitted : ∀ p ∉ order, l.entry p = S.initial p)
    (hordered : S.delay ∈ order → S.duration ∈ order.takeWhile (· ≠ S.delay)) :
    l.Renders order where
  nodup := hnodup
  omitted := homitted
  ordered before after ho := by
    have hbefore : S.delay ∉ before := by
      rw [ho] at hnodup
      exact fun hm => List.disjoint_of_nodup_append hnodup hm List.mem_cons_self
    have htake : order.takeWhile (· ≠ S.delay) = before := by
      rw [ho, List.takeWhile_append_of_pos, List.takeWhile_cons_of_neg (by simp), List.append_nil]
      intro p hp
      exact decide_eq_true fun he => hbefore (he ▸ hp)
    rw [← htake]
    exact hordered (ho ▸ List.mem_append_right _ List.mem_cons_self)

theorem opacityLayer_renders : opacityLayer.Renders [.easing, .duration, .property] := by
  refine Layer.renders_of (by decide) (fun p hp => ?_) (fun h => absurd h (by decide))
  cases p with
  | delay => decide +kernel
  | behavior => decide +kernel
  | _ => exact absurd (by decide) hp

theorem slideLayer_renders :
    slideLayer.Renders [.playState, .duration, .easing, .name, .delay, .iterations] := by
  refine Layer.renders_of (by decide) (fun p hp => ?_) (fun _ => by decide)
  cases p with
  | direction => decide +kernel
  | fillMode => decide +kernel
  | _ => exact absurd (by decide) hp

theorem initialLayer_renders (order : List TransitionPart) (hnodup : order.Nodup)
    (hdelay : .delay ∉ order) : initialLayer.Renders order :=
  Layer.renders_of hnodup (fun p _ => by cases p <;> decide +kernel) fun h => absurd h hdelay

theorem listShorthands_read_sample :
    readTransition "cubic-bezier(0.4,0,0.2,1) 1.5s Opacity,ease" =
        some (transitionLonghands [opacityLayer, initialLayer]) ∧
      readAnimation "paused AUTO Linear slide-in 0s infinite" =
        some (animationLonghands [slideLayer]) := by
  constructor
  · have hread := listShorthands_read.1
      [(opacityLayer, [.easing, .duration, .property]), (initialLayer, [.easing])] (by decide)
      (by
        intro p hp
        rcases List.mem_pair.mp hp with rfl | rfl
        · exact ⟨opacityLayer_renders, by decide⟩
        · exact ⟨initialLayer_renders _ (by decide) (by decide), by decide⟩)
    have hvalue : Layer.value [(opacityLayer, [.easing, .duration, .property]),
        (initialLayer, [.easing])] = "cubic-bezier(0.4,0,0.2,1) 1.5s Opacity,ease" := by
      decide +kernel
    simpa only [hvalue, List.map_cons, List.map_nil] using hread
  · have hread := listShorthands_read.2
      [(slideLayer, [.playState, .duration, .easing, .name, .delay, .iterations])] (by decide)
      (by
        intro p hp
        rw [List.mem_singleton.mp hp]
        exact slideLayer_renders)
    have hvalue : Layer.value
        [(slideLayer, [.playState, .duration, .easing, .name, .delay, .iterations])] =
          "paused AUTO Linear slide-in 0s infinite" := by
      decide +kernel
    simpa only [hvalue, List.map_cons, List.map_nil] using hread

/-- Nothing is read of a layer that leaves out all of its parts, of a property that is the keyword
of another part, and of a name with two hyphens first or with letters beyond ASCII. -/
theorem listShorthands_unread :
    (initialLayer.Renders [] ∧ readTransition (Layer.value [(initialLayer, [])]) = none) ∧
      readTransition "ease 1s linear" = none ∧
      readAnimation "--slide 1s" = none ∧
      readAnimation "größer 1s" = none :=
  ⟨⟨initialLayer_renders [] List.nodup_nil List.not_mem_nil, by decide +kernel⟩,
    by decide +kernel, by decide +kernel, by decide +kernel⟩

end PinOp.Css
