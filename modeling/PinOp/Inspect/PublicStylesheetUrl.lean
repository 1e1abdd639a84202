import PinOp.Lib.CodeUnits
import PinOp.Lib.Regex

/-!
# URLs that may be made public

Texts are code units. `UrlHost` is what the page's engine knows: the URL parser, the decoding of
percent escapes, and the tables of lower case.
-/

namespace PinOp.Inspect

open PinOp.Lib

/-- The units of a text of the source. -/
def units (text : String) : List ℕ := text.toList.map Char.toNat

/-- `new URL(…)` -/
structure ParsedUrl where
  href : List ℕ
  origin : List ℕ
  protocol : List ℕ
  username : List ℕ
  password : List ℕ
  pathname : List ℕ
  search : List ℕ
  hash : List ℕ
  deriving DecidableEq

structure UrlHost where
  /-- `new URL(value, base)`; `none` is an exception -/
  parse : List ℕ → Option (List ℕ) → Option ParsedUrl
  decodeURIComponent : List ℕ → Option (List ℕ)
  toLowerCase : List ℕ → List ℕ

/-! ## Limits -/

def urlLength : ℕ := 8192

def sourceUrlLength : ℕ := 2048

/-! ## `canonicalizePublicStylesheetUrl` -/

/-- `FORBIDDEN_PUBLIC_TEXT` -/
def isForbiddenUnit (u : ℕ) : Bool :=
  u = 0x5c || u ≤ 0x1f || (0x7f ≤ u && u ≤ 0x9f) || [0x61c, 0x200e, 0x200f].contains u ||
    (0x202a ≤ u && u ≤ 0x202e) || (0x2066 ≤ u && u ≤ 0x2069)

/-- How `iu` compares units with letters of ASCII: the long s and the Kelvin sign are letters. -/
def foldUnit (u : ℕ) : ℕ :=
  if 65 ≤ u ∧ u ≤ 90 then u + 32 else if u = 0x17f then 115 else if u = 0x212a then 107 else u

def isLetterUnit (u : ℕ) : Bool := 97 ≤ foldUnit u && foldUnit u ≤ 122

def rawPosixRoots : List String :=
  ["applications", "bin", "boot", "dev", "etc", "home", "lib", "lib64", "media", "mnt", "opt",
    "private", "proc", "root", "run", "sbin", "srv", "sys", "tmp", "user", "users", "usr", "var",
    "workspace"]

/-- `RAW_POSIX_STYLESHEET_PATH` -/
def isRawPosixPath (value : List ℕ) : Bool :=
  rawPosixRoots.any fun root =>
    let opening := 47 :: units root
    opening.isPrefixOf (value.map foldUnit) &&
      (value.drop opening.length).head?.all fun u => u = 47

/-- `/^~(?:[\\/]|$)/u` -/
def isHomePath : List ℕ → Bool
  | 126 :: rest => rest.head?.all fun u => u = 92 || u = 47
  | _ => false

/-- `/^[a-z]:[\\/]/iu` -/
def isDrivePath : List ℕ → Bool
  | letter :: 58 :: slash :: _ => isLetterUnit letter && (slash = 92 || slash = 47)
  | _ => false

/-- `URL_SCHEME_PREFIX` -/
def hasScheme : List ℕ → Bool
  | [] => false
  | letter :: rest =>
    isLetterUnit letter &&
      (rest.dropWhile fun u =>
        isLetterUnit u || (48 ≤ u && u ≤ 57) || [43, 46, 45].contains u).head? = some 58

def isHexUnit (u : ℕ) : Bool :=
  (48 ≤ u && u ≤ 57) || (65 ≤ u && u ≤ 70) || (97 ≤ u && u ≤ 102)

/-- A percent sign that starts no escape is written as one. -/
def escapeLiteralPercents : List ℕ → List ℕ
  | [] => []
  | u :: rest =>
    if u = 37 ∧ (rest.take 2).countP isHexUnit < 2 then units "%25" ++ escapeLiteralPercents rest
    else u :: escapeLiteralPercents rest

def canonicalizePublicStylesheetUrl (host : UrlHost) (value : List ℕ)
    (baseUrl : Option (List ℕ)) : Option (List ℕ) :=
  if value.length < 1 ∨ sourceUrlLength < value.length ∨ value.any isForbiddenUnit ∨ 35 ∈ value ∨
      (units "//").isPrefixOf value ∨ isRawPosixPath value ∨ isHomePath value ∨ isDrivePath value
  then none
  else
    let absoluteInput := hasScheme value
    if !absoluteInput ∧ baseUrl.getD [] = [] then none
    else
      (host.parse value (if absoluteInput then none else baseUrl)).bind fun parsed =>
        if sourceUrlLength < parsed.href.length ∨
            (parsed.protocol ≠ units "http:" ∧ parsed.protocol ≠ units "https:") ∨
            parsed.username ≠ [] ∨ parsed.password ≠ [] ∨ parsed.hash ≠ [] ∨
            (absoluteInput ∧ parsed.href ≠ value)
        then none
        else
          (host.decodeURIComponent parsed.pathname).bind fun path =>
            (host.decodeURIComponent (escapeLiteralPercents parsed.search)).bind fun query =>
              if (path ++ query).any isForbiddenUnit then none else some parsed.href

/-- `PublicStylesheetUrlSchema` -/
def isPublicStylesheetUrl (host : UrlHost) (value : List ℕ) : Bool :=
  1 ≤ value.length ∧ value.length ≤ sourceUrlLength ∧
    canonicalizePublicStylesheetUrl host value none = some value

/-! ## `boundedPageUrl` -/

def exactBoundedUrl (host : UrlHost) (value : List ℕ) : Option (List ℕ) :=
  if urlLength < value.length then none
  else
    (host.parse value (some (units "https://pin-op.invalid/"))).bind fun parsed =>
      (host.decodeURIComponent parsed.pathname).map fun _ => value

def aboutBlank : List ℕ := units "about:blank"

def boundedPageUrl (host : UrlHost) (value : List ℕ) : List ℕ :=
  match (exactBoundedUrl host value).filter fun exact => exact ≠ [] with
  | some exact => exact
  | none =>
    match value.tails.findIdx? fun rest => (units "://").isPrefixOf rest with
    | none | some 0 => aboutBlank
    | some schemeEnd =>
      let authorityStart := schemeEnd + 3
      let authorityEnd := authorityStart +
        (value.drop authorityStart).findIdx fun u => u = 47 || u = 63 || u = 35
      if urlLength < authorityEnd then aboutBlank
      else
        match host.parse (value.take authorityEnd ++ [47]) none with
        | none => aboutBlank
        | some parsed =>
          let root := if parsed.origin = units "null" then aboutBlank else parsed.origin ++ [47]
          (exactBoundedUrl host root).getD aboutBlank

end PinOp.Inspect
