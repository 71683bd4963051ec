import Nsq.Lookup.Query
import Nsq.Text.Base64
import Nsq.Text.Blank

/-!
# Queries on the wire

A query travels as a request of the hypertext protocol, and the answer comes as a status, headers
and a body, whose end is told by a length, by the lengths of its parts, or by the end of the
connection.
-/

namespace Nsq.Lookup

namespace Request

/-- The header that names user and password, if there are any. -/
def authorization (r : Request) : List String :=
  if r.url.credentials.isEmpty then []
  else
    let login := Octets.ofString (r.url.user ++ ":" ++ r.url.password)
    ["Authorization: Basic " ++ Text.base64 login]

/-- The octets of a request. -/
def octets (r : Request) : Octets :=
  let lines :=
    [r.line, "Host: " ++ r.url.authority] ++ r.authorization ++
      ["Accept: " ++ r.accept, "Connection: close", "", ""]
  Octets.ofString (String.intercalate "\r\n" lines)

end Request

namespace Reply

/-- Cuts octets at the end of the first line, which a carriage return may precede. -/
def line? (b : Octets) : Option (Octets × Octets) :=
  match b.dropWhile (· != 0x0A) with
  | [] => none
  | _ :: rest =>
    let line := b.takeWhile (· != 0x0A)
    some (if line.getLast? = some 0x0D then line.dropLast else line, rest)

/-- The name in lower case and the value of a header. -/
def header (line : Octets) : String × String :=
  let cs := (Octets.lossyText line).toList
  let name := cs.takeWhile (· != ':')
  (String.ofList (name.map Char.toLower),
    String.ofList (Text.trimmed (cs.drop (name.length + 1))))

/-- Reads headers up to an empty line, at most `fuel` of them. -/
def headers : (fuel : Nat) → Octets → Option (List (String × String) × Octets)
  | 0, _ => none
  | fuel + 1, b => do
    let (line, rest) ← line? b
    if line.isEmpty then pure ([], rest)
    else
      let (more, rest) ← headers fuel rest
      pure (header line :: more, rest)

/-- Reads a number in hexadecimal digits, behind which anything may stand. -/
def hexLength (line : Octets) : Option Nat :=
  let digits := (line.map fun o => Char.ofNat o.toNat).takeWhile fun c =>
    (Octets.hexValue c).isSome
  if digits.isEmpty then none
  else digits.foldlM (fun n c => (Octets.hexValue c).map (n * 16 + ·)) 0

/-- Joins the parts of a body, each behind its length, at most `fuel` of them. -/
def parts : (fuel : Nat) → Octets → Option Octets
  | 0, _ => none
  | fuel + 1, b => do
    let (line, rest) ← line? b
    match ← hexLength line with
    | 0 => pure []
    | n =>
      if rest.length < n then none
      else
        let (_, behind) ← line? (rest.drop n)
        let more ← parts fuel behind
        pure (rest.take n ++ more)

/-- The number of a status. -/
def status? (line : Octets) : Option Nat :=
  let digits := ((line.dropWhile (· != 0x20)).drop 1).take 3
  if digits.length = 3 && digits.all (fun o => 0x30 ≤ o && o ≤ 0x39) then
    some (digits.foldl (fun n o => n * 10 + (o.toNat - 0x30)) 0)
  else none

/-- The body, from what stands behind the headers. -/
def body? (hs : List (String × String)) (b : Octets) : Option Octets :=
  match hs.lookup "transfer-encoding", hs.lookup "content-length" with
  | some "chunked", _ => parts (b.length + 1) b
  | _, some length =>
    match readInt 0 (2 ^ 63 - 1) length.toList with
    | .ok n => if b.length < n.toNat then none else some (b.take n.toNat)
    | .error _ => none
  | _, none => some b

/-- Reads all that a service sent until it ended its octets. -/
def ofOctets (b : Octets) : Option Reply := do
  let (line, rest) ← line? b
  let status ← status? line
  let (hs, rest) ← headers (rest.length + 1) rest
  let body ← body? hs rest
  pure { status := status, contentType := hs.lookup "x-nsq-content-type", body := body }

end Reply

end Nsq.Lookup
