import Mathlib.Data.Finset.Card
import PinOp.Lib.BestList
import PinOp.Lib.Comparator
import PinOp.Lib.OrderedMap
import PinOp.Protocol.Schema

/-!
# The locator of workspace stylesheets

`RulesStylesheetLocator` finds the workspace file behind a stylesheet the browser names by
the URL it was served from. It asks the file whose path is closest first; when that one does
not carry everything it reads every file for words, parses the best few by the selectors
they could hold, and chooses among those. The host of the locator is a structure of
functions: what it answers does not change while one location is made. URLs are parsed by
the platform, which is part of the host here.
-/

namespace PinOp.Rules

open PinOp.Lib PinOp.Protocol

/-- A reported rule; `evidence` is what only the score of a file looks at. -/
structure ReportedRule (ρ : Type) where
  selector : String
  declarations : List (String × String)
  sourceUrl : Option String
  evidence : ρ

structure RulesStylesheetLocatorLimits where
  scanMaxFiles : ℕ
  scanMaxBytes : ℕ
  fileMaxBytes : ℕ
  parsedCandidates : ℕ

structure ScannedStylesheetText where
  text : String
  bytes : ℕ

/-- How reading a file fails: past its limit, or otherwise. -/
inductive ReadError where
  | limit
  | unreadable

inductive StylesheetCandidateScore where
  | verified (verified corroborated : ℕ)
  | failed (reason : String)
  deriving DecidableEq

inductive GeneratedStylesheetLocation where
  | located (uri : String)
  | unlocated (reason : String)
  deriving DecidableEq

structure RulesStylesheetLocatorHost (ρ : Type) where
  findFiles : String → Option (List String)
  isWorkspaceUri : String → Bool
  readText : String → ℕ → Except ReadError ScannedStylesheetText
  scoreCandidate : String → List (ReportedRule ρ) → StylesheetCandidateScore
  /-- `new URL(value)` as `canonicalRulesSourceUri` prints it -/
  canonicalRulesSourceUri : String → Option String
  /-- `new URL(value).pathname` -/
  pathname : String → Option String
  decodeURIComponent : String → Option String

structure RankedStylesheetCandidate where
  uri : String
  selectors : ℕ
  pathSimilarity : ℕ
  declarations : ℕ
  deriving DecidableEq

structure ScoredStylesheetCandidate where
  candidate : RankedStylesheetCandidate
  score : StylesheetCandidateScore

structure UnreadableStylesheetCandidate where
  pathSimilarity : ℕ
  reason : String

structure ReportedStylesheet (ρ : Type) where
  sourceUrl : String
  urlSegments : List String
  rules : List (ReportedRule ρ)
  selectorWords : List (List String)
  declarationWords : List String

structure WorkspaceStylesheetFile where
  uri : String
  segments : List String
  deriving DecidableEq

structure UnreadableStylesheetFile where
  segments : List String
  reason : String

/-! ## Words -/

/-- The characters the class `WORD` leaves out: white space, and all ASCII punctuation but the
hyphen and the underscore. -/
def isWordSeparator (c : Char) : Bool :=
  let n := c.toNat
  n ∈ [0x20, 0xA0, 0x1680, 0x2028, 0x2029, 0x202F, 0x205F, 0x3000, 0xFEFF] ∨
    (0x9 ≤ n ∧ n ≤ 0xD) ∨ (0x2000 ≤ n ∧ n ≤ 0x200A) ∨
    (0x21 ≤ n ∧ n ≤ 0x2C) ∨ (0x2E ≤ n ∧ n ≤ 0x2F) ∨ (0x3A ≤ n ∧ n ≤ 0x40) ∨
    (0x5B ≤ n ∧ n ≤ 0x5E) ∨ n = 0x60 ∨ (0x7B ≤ n ∧ n ≤ 0x7E)

/-- `text.matchAll(WORD)` -/
def matchWords (text : String) : List String :=
  ((text.toList.splitOnP isWordSeparator).filter fun word => word ≠ []).map String.ofList

def selectorWordsPerRule : ℕ := 16
def declarationWordsPerStylesheet : ℕ := 64
def declarationWordMinLength : ℕ := 3

/-- The loop of `distinctWords`: words in the order they are first met. -/
def collectWords (minLength limit : ℕ) : List String → List String → List String
  | words, [] => words
  | words, word :: rest =>
    if jsLength word < minLength then collectWords minLength limit words rest
    else
      let words := if word ∈ words then words else words ++ [word]
      if limit ≤ words.length then words else collectWords minLength limit words rest

def distinctWords (text : String) (minLength limit : ℕ) : List String :=
  if limit < 1 then [] else collectWords minLength limit [] (matchWords text)

/-- The loop of `presentWords`. -/
def collectPresent (words : Finset String) : Finset String → List String → Finset String
  | present, [] => present
  | present, word :: rest =>
    if word ∉ words then collectPresent words present rest
    else
      let present := insert word present
      if present.card = words.card then present else collectPresent words present rest

/-- Which of `words` occur in `text`. -/
def presentWords (text : String) (words : Finset String) : Finset String :=
  if words.card = 0 then ∅ else collectPresent words ∅ (matchWords text)

/-! ## Paths -/

def sharedLeading : List String → List String → ℕ
  | a :: left, b :: right => if a = b then sharedLeading left right + 1 else 0
  | _, _ => 0

/-- The loop counts from the ends of both paths. -/
def sharedTrailingSegments (left right : List String) : ℕ :=
  sharedLeading left.reverse right.reverse

/-- The state of the loop of `closestFile`. -/
structure ClosestFile where
  closest : Option String
  closestSimilarity : ℤ
  tied : Bool

def closestFileStep (urlSegments : List String) (state : ClosestFile)
    (file : WorkspaceStylesheetFile) : ClosestFile :=
  let similarity : ℤ := sharedTrailingSegments urlSegments file.segments
  if state.closestSimilarity < similarity then ⟨some file.uri, similarity, false⟩
  else if similarity = state.closestSimilarity then { state with tied := true }
  else state

def closestFile (urlSegments : List String) (files : List WorkspaceStylesheetFile)
    (minimum : ℤ) : Option String :=
  let state := files.foldl (closestFileStep urlSegments) ⟨none, -1, false⟩
  if state.tied ∨ state.closestSimilarity < minimum then none else state.closest

/-! ## Ranking and choosing -/

def compareRanked (left right : RankedStylesheetCandidate) : ℤ :=
  orNext (orNext (orNext ((right.selectors : ℤ) - left.selectors)
    ((right.pathSimilarity : ℤ) - left.pathSimilarity))
    ((right.declarations : ℤ) - left.declarations))
    (compareText left.uri right.uri)

/-- `keepBest`: the candidate moves up while it compares below its predecessor. -/
def keepBestRanked (limit : ℕ) (ranked : List RankedStylesheetCandidate)
    (candidate : RankedStylesheetCandidate) : List RankedStylesheetCandidate :=
  insertBest (fun left right => ¬ compareRanked right left < 0) limit ranked candidate

/-- What `chooseGeneratedStylesheet` keeps of a scored candidate. -/
structure VerifiedCandidate where
  uri : String
  verified : ℕ
  pathSimilarity : ℕ
  corroborated : ℕ
  deriving DecidableEq

def compareVerified (left right : VerifiedCandidate) : ℤ :=
  orNext (orNext ((right.verified : ℤ) - left.verified)
    ((right.pathSimilarity : ℤ) - left.pathSimilarity))
    ((right.corroborated : ℤ) - left.corroborated)

def verifiedCandidate (scored : ScoredStylesheetCandidate) : Option VerifiedCandidate :=
  match scored.score with
  | .verified verified corroborated =>
    if 0 < verified then
      some ⟨scored.candidate.uri, verified, scored.candidate.pathSimilarity, corroborated⟩
    else none
  | .failed _ => none

def unverifiedReason (scored : List ScoredStylesheetCandidate)
    (unreadable : Option UnreadableStylesheetCandidate) : String :=
  let blamed := unreadable.filter fun u =>
    scored.head?.all fun first => first.candidate.pathSimilarity < u.pathSimilarity
  match blamed, scored.head? with
  | some u, _ => u.reason
  | none, none => "generated-source-not-found"
  | none, some first =>
    match first.score with
    | .failed reason => reason
    | .verified _ _ => "generated-css-not-exact"

/-- The first file that was not parsed could have been chosen instead. -/
def couldBeat (firstUnparsed : RankedStylesheetCandidate) (best : VerifiedCandidate) : Bool :=
  best.verified < firstUnparsed.selectors ∨
    (firstUnparsed.selectors = best.verified ∧
      best.pathSimilarity ≤ firstUnparsed.pathSimilarity)

def chooseGeneratedStylesheet (scored : List ScoredStylesheetCandidate)
    (firstUnparsed : Option RankedStylesheetCandidate)
    (unreadable : Option UnreadableStylesheetCandidate) : GeneratedStylesheetLocation :=
  let verified := (scored.filterMap verifiedCandidate).insertionSort
    fun left right => compareVerified left right ≤ 0
  match verified with
  | [] => .unlocated (unverifiedReason scored unreadable)
  | best :: others =>
    if others.head?.any fun runnerUp => compareVerified best runnerUp = 0 then
      .unlocated "generated-source-ambiguous"
    else if firstUnparsed.any fun candidate => couldBeat candidate best then
      .unlocated "generated-source-ambiguous"
    else
      .located best.uri

def closestUnreadable (unreadable : List UnreadableStylesheetFile) (urlSegments : List String) :
    Option UnreadableStylesheetCandidate :=
  unreadable.foldl (fun closest file =>
    let pathSimilarity := sharedTrailingSegments urlSegments file.segments
    if (closest.elim 0 UnreadableStylesheetCandidate.pathSimilarity) < pathSimilarity then
      some ⟨pathSimilarity, file.reason⟩
    else closest) none

/-! ## The batch -/

section
variable {ρ : Type} (host : RulesStylesheetLocatorHost ρ)

def pathSegments (value : String) : List String :=
  match host.pathname value with
  | none => []
  | some pathname =>
    ((pathname.toList.splitOnP fun c => c.toNat = 0x2F ∨ c.toNat = 0x5C).filter fun s => s ≠ []).map fun s =>
      (host.decodeURIComponent (String.ofList s)).getD (String.ofList s)

/-- `name.toLowerCase().endsWith(extension)` -/
def hasExtension (name extension : String) : Bool :=
  extension.toList.isSuffixOf (name.toList.map Char.toLower)

/-- The loop of `workspaceFiles` over the listed entries, with the URIs seen so far. -/
def collectFiles (extension : String) :
    List String → List String → List WorkspaceStylesheetFile
  | _, [] => []
  | seen, entry :: rest =>
    match host.canonicalRulesSourceUri entry with
    | none => collectFiles extension seen rest
    | some uri =>
      if uri ∈ seen then collectFiles extension seen rest
      else
        let segments := pathSegments host uri
        if segments.getLast?.any (fun name => hasExtension name extension) ∧
            host.isWorkspaceUri uri then
          ⟨uri, segments⟩ :: collectFiles extension (uri :: seen) rest
        else collectFiles extension (uri :: seen) rest

/-- The files of the workspace, each once, by URI; none if they cannot be listed. -/
def workspaceFiles (pattern extension : String) : List WorkspaceStylesheetFile :=
  (collectFiles host extension [] ((host.findFiles pattern).getD [])).insertionSort
    fun left right => compareText left.uri right.uri ≤ 0

/-- Reported rules by the URL their stylesheet was served from. -/
def groupRules (rules : List (ReportedRule ρ)) : OrderedMap String (List (ReportedRule ρ)) :=
  rules.foldl (fun grouped rule =>
    match rule.sourceUrl with
    | none => grouped
    | some sourceUrl => grouped.set sourceUrl ((grouped.get? sourceUrl).getD [] ++ [rule])) ∅

def collectDeclarationWords (rules : List (ReportedRule ρ)) : List String :=
  (rules.flatMap ReportedRule.declarations).foldl (fun words declaration =>
    (distinctWords (declaration.1 ++ " " ++ declaration.2) declarationWordMinLength
      (declarationWordsPerStylesheet - words.length)).foldl
      (fun words word => if word ∈ words then words else words ++ [word]) words) []

def reportedStylesheet (sourceUrl : String) (entries : List (ReportedRule ρ)) :
    ReportedStylesheet ρ where
  sourceUrl := sourceUrl
  urlSegments := pathSegments host sourceUrl
  rules := entries
  selectorWords := entries.map fun rule => distinctWords rule.selector 1 selectorWordsPerRule
  declarationWords := collectDeclarationWords entries

def reportedStylesheets (rules : List (ReportedRule ρ)) : List (ReportedStylesheet ρ) :=
  (groupRules rules).entries.map fun e => reportedStylesheet host e.1 e.2

def stylesheetWords (stylesheets : List (ReportedStylesheet ρ)) : Finset String :=
  (stylesheets.flatMap fun stylesheet =>
    stylesheet.selectorWords.flatten ++ stylesheet.declarationWords).toFinset

def rankedCandidate (stylesheet : ReportedStylesheet ρ) (file : WorkspaceStylesheetFile)
    (present : Finset String) : RankedStylesheetCandidate where
  uri := file.uri
  selectors := (stylesheet.selectorWords.filter fun words => ∀ word ∈ words, word ∈ present).length
  pathSimilarity := sharedTrailingSegments stylesheet.urlSegments file.segments
  declarations := (stylesheet.declarationWords.filter fun word => word ∈ present).length

/-- A file that was reached, with its text or what went wrong. -/
structure ReadFile where
  file : WorkspaceStylesheetFile
  text : Except ReadError String

/-- The loop of `readEach`, with the bytes read so far. -/
def readUntilSpent (scanMaxBytes maxBytes : ℕ) :
    ℕ → List WorkspaceStylesheetFile → List ReadFile
  | _, [] => []
  | readBytes, file :: rest =>
    if scanMaxBytes ≤ readBytes then []
    else
      match host.readText file.uri maxBytes with
      | .error e => ⟨file, .error e⟩ :: readUntilSpent scanMaxBytes maxBytes readBytes rest
      | .ok scanned =>
        ⟨file, .ok scanned.text⟩ ::
          readUntilSpent scanMaxBytes maxBytes (readBytes + scanned.bytes) rest

/-- What `readEach` reaches, in the order given; the visits follow that order. -/
def readEach (limits : RulesStylesheetLocatorLimits) (files : List WorkspaceStylesheetFile)
    (maxBytes : ℕ) : List ReadFile :=
  readUntilSpent host limits.scanMaxBytes maxBytes 0 (files.take limits.scanMaxFiles)

/-- The largest similarity of a file to any of the stylesheets. -/
def bestSimilarity (stylesheets : List (ReportedStylesheet ρ)) (file : WorkspaceStylesheetFile) :
    ℕ :=
  (stylesheets.map fun stylesheet =>
    sharedTrailingSegments stylesheet.urlSegments file.segments).foldr max 0

/-- The order files are scanned in. -/
def scanOrder (stylesheets : List (ReportedStylesheet ρ)) (files : List WorkspaceStylesheetFile) :
    List WorkspaceStylesheetFile :=
  files.insertionSort fun left right =>
    orNext ((bestSimilarity stylesheets right : ℤ) - bestSimilarity stylesheets left)
      (compareText left.uri right.uri) ≤ 0

/-- Per stylesheet its best-ranked files, and the files that could not be read. -/
structure StylesheetScan (ρ : Type) where
  rankings : List (ReportedStylesheet ρ × List RankedStylesheetCandidate)
  unreadable : List UnreadableStylesheetFile

/-- A file that was read enters the rankings it says anything for. -/
def visitRanking (limits : RulesStylesheetLocatorLimits) (words : Finset String)
    (file : WorkspaceStylesheetFile) (text : String)
    (ranking : ReportedStylesheet ρ × List RankedStylesheetCandidate) :
    ReportedStylesheet ρ × List RankedStylesheetCandidate :=
  let candidate := rankedCandidate ranking.1 file (presentWords text words)
  if candidate.selectors = 0 then ranking
  else (ranking.1, keepBestRanked (limits.parsedCandidates + 1) ranking.2 candidate)

def visitFile (limits : RulesStylesheetLocatorLimits) (words : Finset String)
    (scan : StylesheetScan ρ) (read : ReadFile) : StylesheetScan ρ :=
  match read.text with
  | .ok text =>
    { scan with rankings := scan.rankings.map (visitRanking limits words read.file text) }
  | .error .limit =>
    { scan with
      unreadable := scan.unreadable ++ [⟨read.file.segments, "generated-source-too-large"⟩] }
  | .error .unreadable =>
    { scan with
      unreadable := scan.unreadable ++ [⟨read.file.segments, "generated-source-unreadable"⟩] }

def scanGenerated (limits : RulesStylesheetLocatorLimits)
    (stylesheets : List (ReportedStylesheet ρ)) (files : List WorkspaceStylesheetFile) :
    StylesheetScan ρ :=
  (readEach host limits (scanOrder stylesheets files) limits.fileMaxBytes).foldl
    (visitFile limits (stylesheetWords stylesheets)) ⟨stylesheets.map fun s => (s, []), []⟩

/-! ## Memory -/

/-- What earlier selections learned: files by served URL, and URLs nothing carries. -/
structure StylesheetLocationMemory where
  located : OrderedMap String String
  unlocated : OrderedMap String Unit

namespace StylesheetLocationMemory

def empty : StylesheetLocationMemory := ⟨∅, ∅⟩

def limit : ℕ := 256

/-- `recall`: `some none` is an unlocated URL. -/
def recallUrl (memory : StylesheetLocationMemory) (sourceUrl : String) : Option (Option String) :=
  match memory.located.get? sourceUrl with
  | some uri => some (some uri)
  | none => if memory.unlocated.has sourceUrl then some none else none

/-- The loops that drop the oldest entries; `fuel` bounds their rounds by the size. -/
def dropOldest {ν : Type} : ℕ → OrderedMap String ν → OrderedMap String ν
  | 0, m => m
  | fuel + 1, m =>
    if limit < m.size then
      match m.firstKey? with
      | none => m
      | some oldest => dropOldest fuel (m.delete oldest)
    else m

def remember (memory : StylesheetLocationMemory) (sourceUrl : String)
    (location : GeneratedStylesheetLocation) : StylesheetLocationMemory :=
  let located := memory.located.delete sourceUrl
  let unlocated := memory.unlocated.delete sourceUrl
  let located := match location with
    | .located uri => located.set sourceUrl uri
    | .unlocated _ => located
  let unlocated := match location with
    | .located _ => unlocated
    | .unlocated reason =>
      if reason = "generated-source-not-found" then unlocated.set sourceUrl () else unlocated
  ⟨dropOldest located.size located, dropOldest unlocated.size unlocated⟩

end StylesheetLocationMemory

/-! ## Locating -/

def maxCloserFilesAsked : ℕ := 4

def carriesAll (stylesheet : ReportedStylesheet ρ) : StylesheetCandidateScore → Bool
  | .verified verified _ => verified = stylesheet.rules.length
  | .failed _ => false

/-- An earlier answer that still stands. -/
def recalled (memory : StylesheetLocationMemory) (sourceUrl : String)
    (stylesheet : ReportedStylesheet ρ) (files : List WorkspaceStylesheetFile) :
    Option GeneratedStylesheetLocation :=
  match memory.recallUrl sourceUrl with
  | none => none
  | some none => some (.unlocated "generated-source-not-found")
  | some (some uri) =>
    match files.find? fun file => file.uri = uri with
    | none => none
    | some remembered =>
      let similarity := sharedTrailingSegments stylesheet.urlSegments remembered.segments
      let closer := files.filter fun file =>
        similarity < sharedTrailingSegments stylesheet.urlSegments file.segments
      let carries := fun file : WorkspaceStylesheetFile =>
        carriesAll stylesheet (host.scoreCandidate file.uri stylesheet.rules)
      if maxCloserFilesAsked < closer.length then none
      else if closer.any carries ∨ ¬ carries remembered then none
      else some (.located remembered.uri)

/-- The choice among the best-ranked files, after the scan. -/
def chooseRanked (limits : RulesStylesheetLocatorLimits) (stylesheet : ReportedStylesheet ρ)
    (likeliestScore : Option StylesheetCandidateScore) (scan : StylesheetScan ρ) :
    GeneratedStylesheetLocation :=
  let ranked := ((scan.rankings.find? fun r => r.1.sourceUrl = stylesheet.sourceUrl).map
    Prod.snd).getD []
  let scored := (ranked.take limits.parsedCandidates).map fun candidate =>
    (⟨candidate, host.scoreCandidate candidate.uri stylesheet.rules⟩ : ScoredStylesheetCandidate)
  match scored, likeliestScore with
  | [], some (.failed reason) => .unlocated reason
  | [], some (.verified _ _) => .unlocated "generated-css-not-exact"
  | _, _ =>
    chooseGeneratedStylesheet scored ranked[limits.parsedCandidates]?
      (closestUnreadable scan.unreadable stylesheet.urlSegments)

/-- The score of the likeliest file is asked for once in the source; the host's scores do not
change, so asking again gives the same. -/
def locateGeneratedAnew (limits : RulesStylesheetLocatorLimits) (rules : List (ReportedRule ρ))
    (memory : StylesheetLocationMemory) (sourceUrl : String) : GeneratedStylesheetLocation :=
  let stylesheets := reportedStylesheets host rules
  match stylesheets.find? fun stylesheet => stylesheet.sourceUrl = sourceUrl with
  | none => .unlocated "generated-source-not-found"
  | some stylesheet =>
    let files := workspaceFiles host "**/*.css" ".css"
    match recalled host memory sourceUrl stylesheet files with
    | some location => location
    | none =>
      let likeliest := closestFile stylesheet.urlSegments files 1
      let likeliestScore := likeliest.map fun uri => host.scoreCandidate uri stylesheet.rules
      match likeliest with
      | some uri =>
        if likeliestScore.any (carriesAll stylesheet) then .located uri
        else
          chooseRanked host limits stylesheet likeliestScore
            (scanGenerated host limits stylesheets files)
      | none =>
        chooseRanked host limits stylesheet none (scanGenerated host limits stylesheets files)

def locateGenerated (limits : RulesStylesheetLocatorLimits) (rules : List (ReportedRule ρ))
    (memory : StylesheetLocationMemory) (sourceUrl : String) :
    GeneratedStylesheetLocation × StylesheetLocationMemory :=
  let location := locateGeneratedAnew host limits rules memory sourceUrl
  (location, memory.remember sourceUrl location)

end

end PinOp.Rules
