import Nsq.Net.Url.Host
import Nsq.Net.Url.Path

/-!
# Reading URLs

`Url.read` takes a text for a URL as a browser would: blanks and controls around it and line ends
within it are dropped, parts are brought into the form in which they are written, and in the common
schemes a backslash is as good as a slash. The first fault from left to right is told.
-/

namespace Nsq.Url

/-! ### Scheme and slashes -/

/-- The characters of a text that count. -/
def counted (cs : List Char) : List Char :=
  let cs := cs.dropWhile (· ≤ ' ')
  let cs := (cs.reverse.dropWhile (· ≤ ' ')).reverse
  cs.filter fun c => c != '\t' && c != '\n' && c != '\r'

/-- Whether a character may stand in a scheme. -/
def isSchemeChar (c : Char) : Bool := c.isAlphanum || c == '+' || c == '-' || c == '.'

/-- Cuts a text behind its scheme, which is a letter and what may follow one, and a colon. -/
def scheme? (cs : List Char) : Option (String × List Char) :=
  let scheme := cs.takeWhile isSchemeChar
  match cs.dropWhile isSchemeChar with
  | ':' :: rest =>
    if scheme.head?.any Char.isAlpha then some (String.ofList (scheme.map Char.toLower), rest)
    else none
  | _ => none

/-- Whether a character is as good as a slash. -/
def isSlash (common : Bool) (c : Char) : Bool := c == '/' || (common && c == '\\')

/-- Whether a character ends host and port. -/
def isEnd (common : Bool) (c : Char) : Bool := isSlash common c || c == '?' || c == '#'

/-- What stands behind the slashes in front of a host; there are two, but a scheme with a port takes
any number. -/
def behindSlashes (scheme : String) (cs : List Char) : Option (List Char) :=
  if (port? scheme).isSome then some (cs.dropWhile (isSlash true))
  else
    match cs with
    | a :: b :: rest =>
      if isSlash (isCommon scheme) a && isSlash (isCommon scheme) b then some rest else none
    | _ => none

/-! ### User, host and port -/

/-- Whether a character may stand in the name of a user or a password. -/
def isUserChar (c : Char) : Bool :=
  Path.isKept c && !(['/', ':', ';', '=', '@', '[', '\\', ']', '^', '|'].contains c)

/-- A part of a URL with percent signs where a character may not stand. -/
def encoded (kept : Char → Bool) (cs : List Char) : String := String.ofList (Percent.encode kept cs)

/-- Cuts a text behind the last at sign in front of the end of the host; gives user and password,
which a colon parts. -/
def readCredentials (common : Bool) (cs : List Char) : String × String × List Char :=
  let front := cs.takeWhile fun c => !isEnd common c
  if front.contains '@' then
    let host := (front.reverse.takeWhile (· != '@')).reverse
    let login := (front.take (front.length - host.length)).dropLast
    let user := login.takeWhile (· != ':')
    (encoded isUserChar user, encoded isUserChar (login.drop (user.length + 1)),
      host ++ cs.drop front.length)
  else ("", "", cs)

/-- Cuts a text behind the host. A colon ends it, but not between brackets. -/
def cutHost (common inside : Bool) : List Char → List Char × List Char
  | [] => ([], [])
  | c :: cs =>
    if isEnd common c || (c == ':' && !inside) then ([], c :: cs)
    else
      let inside := c == '[' || (inside && c != ']')
      let (host, rest) := cutHost common inside cs
      (c :: host, rest)

/-- Reads a port and what must follow one. The port of the scheme need not be given. -/
def readPort (scheme : String) : List Char → Except UrlFault (Option Nat × List Char)
  | ':' :: cs =>
    let ds := cs.takeWhile isDigit
    let rest := cs.dropWhile isDigit
    if 65535 < ofDigits ds || rest.head?.any (!isEnd true ·) then .error .port
    else if ds.isEmpty || port? scheme = some (ofDigits ds) then .ok (none, rest)
    else .ok (some (ofDigits ds), rest)
  | cs => .ok (none, cs)

/-- Reads user, host and port of a URL, whose other parts are left out. -/
def readAuthority (scheme : String) (cs : List Char) : Except UrlFault (Url × List Char) := do
  let common := isCommon scheme
  let (user, password, cs) := readCredentials common cs
  let (host, cs) := cutHost common false cs
  if host.isEmpty then throw .noHost
  let host ← if common then UrlHost.readCommon host else UrlHost.readOther host
  let (port, rest) ← readPort scheme cs
  pure ({ scheme := scheme, user := user, password := password, host := host, port := port }, rest)

/-- Reads the host of a URL whose scheme knows neither users nor ports. This machine is as good as
none, and so is a drive in the place of a host. -/
def readPlainHost (scheme : String) (cs : List Char) : Except UrlFault (Url × List Char) := do
  let host := cs.takeWhile fun c => !isEnd true c
  if host.isEmpty || Path.isDrive host then throw .noHost
  let host ← UrlHost.readCommon host
  if host = .name "localhost" then throw .noHost
  pure ({ scheme := scheme, host := host }, cs.dropWhile fun c => !isEnd true c)

/-! ### Path, query and fragment -/

/-- Whether a character may stand in a query. -/
def isQueryChar (common : Bool) (c : Char) : Bool :=
  !(['"', '#', '<', '>'].contains c) && !(common && c == '\x27')

/-- Whether a character may stand in a fragment. -/
def isFragmentChar (c : Char) : Bool :=
  !(['"', '<', '>', '\x60'].contains c)

/-- Reads a path; it begins with a slash, but may be empty outside of the common schemes. -/
def readPath (common : Bool) (cs : List Char) : List (List Char) :=
  if cs.isEmpty && !common then []
  else
    let cs := if common then cs.map fun c => if c = '\\' then '/' else c else cs
    Path.read (if cs.head? = some '/' then cs.drop 1 else cs)

/-- Reads what stands behind the host of a URL. -/
def readRest (u : Url) (cs : List Char) : Url × List (List Char) :=
  let common := isCommon u.scheme
  let path := cs.takeWhile fun c => c != '?' && c != '#'
  let cs := cs.drop path.length
  let behind := cs.dropWhile (· != '#')
  let fragment :=
    if behind.isEmpty then none else some (encoded isFragmentChar (behind.drop 1))
  let query := match cs with
    | '?' :: cs => some (encoded (isQueryChar common) (cs.takeWhile (· != '#')))
    | _ => none
  let steps := readPath common path
  ({ u with path := Path.text steps, query := query, fragment := fragment }, steps)

/-- Reads a URL. A file on a drive has no host, and its path does not begin with empty steps. -/
def read (s : String) : Except UrlFault Url :=
  match scheme? (counted s.toList) with
  | none => .error .noScheme
  | some (scheme, cs) =>
    match behindSlashes scheme cs with
    | none => .error .noHost
    | some cs =>
      if scheme = "file" then do
        let (u, cs) ← readPlainHost scheme cs
        let (u, steps) := u.readRest cs
        let steps := steps.dropWhile List.isEmpty
        if steps.head?.any Path.isDrive then throw .noHost
        pure { u with path := Path.text (if steps.isEmpty then [[]] else steps) }
      else do
        let (u, cs) ← readAuthority scheme cs
        pure (u.readRest cs).1

end Nsq.Url
