import PinOp.Lib.PercentText

/-!
# How the workspace compares URIs

`normalizedUri` brings a URI to the form in which URIs are compared; `none` is `undefined`. The URL
parser and the tables of lower case belong to the host.
-/

namespace PinOp.Workspace

open PinOp.Lib

/-- `new URL(…)` -/
structure ParsedUri where
  protocol : List Char
  host : List Char
  pathname : List Char
  search : List Char
  hash : List Char
  deriving DecidableEq

structure UriHost where
  /-- `none` is an exception -/
  parse : List Char → Option ParsedUri
  toLowerCase : List Char → List Char

def fileProtocol : List Char := "file:".toList

/-- `%2f` or `%5c` -/
def isEncodedSeparator : List Char → Bool
  | '%' :: '2' :: c :: _ => c = 'f' || c = 'F'
  | '%' :: '5' :: c :: _ => c = 'c' || c = 'C'
  | _ => false

def hasEncodedPathSeparator : List Char → Bool
  | [] => false
  | c :: rest => isEncodedSeparator (c :: rest) || hasEncodedPathSeparator rest

def isAsciiLetter (c : Char) : Bool := ('a' ≤ c && c ≤ 'z') || ('A' ≤ c && c ≤ 'Z')

/-- `/^\/[a-z]:\//i` -/
def startsWithDrive : List Char → Bool
  | '/' :: c :: ':' :: '/' :: _ => isAsciiLetter c
  | _ => false

def isWindowsFileUri (uri : ParsedUri) (pathname : List Char) : Bool :=
  uri.protocol = fileProtocol && (uri.host ≠ [] || startsWithDrive pathname)

/-- `.replace(/\/+$/, "")` -/
def dropTrailingSlashes (text : List Char) : List Char :=
  (text.reverse.dropWhile fun c => c = '/').reverse

def normalizedUri (host : UriHost) (value : List Char) : Option (List Char) :=
  (host.parse value).bind fun uri =>
    if hasEncodedPathSeparator uri.pathname then none
    else
      (decodeURI uri.pathname).map fun decoded =>
        let slashed := decoded.map fun c => if c = '\\' then '/' else c
        let pathname := upperEscapes (dropTrailingSlashes slashed)
        let suffix := if uri.protocol = fileProtocol then [] else uri.search ++ uri.hash
        host.toLowerCase uri.protocol ++ "//".toList ++ host.toLowerCase uri.host ++
          (if isWindowsFileUri uri slashed then host.toLowerCase pathname else pathname) ++ suffix

def sameCanonicalUri (host : UriHost) (left right : List Char) : Bool :=
  let normalizedLeft := normalizedUri host left
  normalizedLeft.isSome && normalizedLeft = normalizedUri host right

def uriWithin (host : UriHost) (candidateUri rootUri : List Char) : Bool :=
  match normalizedUri host candidateUri, normalizedUri host rootUri with
  | some candidate, some root => candidate = root || (root ++ ['/']).isPrefixOf candidate
  | _, _ => false

/-- `isWorkspaceUri`, with the URIs of the workspace's folders. -/
def isWorkspaceUri (host : UriHost) (workspaceFolders : List (List Char)) (uri : List Char) :
    Bool :=
  workspaceFolders.any (uriWithin host uri)

end PinOp.Workspace
