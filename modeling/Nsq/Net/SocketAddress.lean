import Nsq.Number.Literal
import Nsq.Octets
import Nsq.Fault
import Nsq.Net.HostPort
import Nsq.Text.Split

/-!
# Socket addresses

An address of a daemon is a number of a host and a port. Hosts are written in four decimal parts or
in eight hexadecimal groups, of which one run of zeros may be left out; the latter stand between
brackets in front of a port. The system also takes groups without brackets, and shorter or older
forms of the four parts. Names of hosts are left to it as well, but it knows none here.
-/

namespace Nsq

/-- The number of a host. -/
inductive Host where
  /-- Four octets. -/
  | v4 (octets : List Nat)
  /-- Eight groups of sixteen bits and perhaps the number of a network interface. -/
  | v6 (groups : List Nat) (scope : Nat)
deriving DecidableEq, Repr

/-- A host and a port. -/
structure SocketAddress where
  /-- The host. -/
  host : Host
  /-- The port. -/
  port : Nat
deriving DecidableEq, Repr

namespace Host

/-! ### Reading -/

/-- Reads one decimal part: at most three digits, no zero in front of others, below 256. -/
def part? (cs : List Char) : Option Nat :=
  if cs.isEmpty || 3 < cs.length || !cs.all isDigit then none
  else if cs.head? = some '0' && 1 < cs.length then none
  else if ofDigits cs < 256 then some (ofDigits cs) else none

/-- Reads four decimal parts. -/
def readV4 (cs : List Char) : Option (List Nat) :=
  let parts := Text.splitAll '.' cs
  if parts.length = 4 then parts.mapM part? else none

/-- Reads one hexadecimal group of at most four digits. -/
def group? (cs : List Char) : Option Nat :=
  if cs.isEmpty || 4 < cs.length then none
  else cs.foldlM (fun n c => (Octets.hexValue c).map (n * 16 + ·)) 0

/-- Reads groups between colons; the last may be four decimal parts, which make two groups. -/
def groups? : List (List Char) → Option (List Nat)
  | [] => some []
  | [last] =>
    match readV4 last with
    | some [a, b, c, d] => some [a * 256 + b, c * 256 + d]
    | _ => (group? last).map fun g => [g]
  | g :: gs => do
    let g ← group? g
    let gs ← groups? gs
    pure (g :: gs)

/-- Cuts a text at the first `::`. -/
def splitRun? : List Char → Option (List Char × List Char)
  | [] => none
  | ':' :: ':' :: rest => some ([], rest)
  | c :: cs => (splitRun? cs).map fun (a, b) => (c :: a, b)

/-- The groups of a text that may be empty. -/
def side? (cs : List Char) : Option (List Nat) :=
  if cs.isEmpty then some [] else groups? (Text.splitAll ':' cs)

/-- Reads eight groups; a double colon stands for one group of zero or more. -/
def readV6 (cs : List Char) : Option (List Nat) :=
  match splitRun? cs with
  | none => do
    let gs ← groups? (Text.splitAll ':' cs)
    if gs.length = 8 then some gs else none
  | some (a, b) => do
    let front ← if a.contains '.' then none else side? a
    let back ← side? b
    if front.length + back.length < 8 then
      some (front ++ List.replicate (8 - front.length - back.length) 0 ++ back)
    else none

/-- Reads groups, perhaps with the number of an interface behind a percent sign. -/
def readScoped (cs : List Char) : Option Host := do
  let groups ← readV6 (cs.takeWhile (· != '%'))
  match cs.dropWhile (· != '%') with
  | [] => pure (.v6 groups 0)
  | _ :: ds =>
    if ds.isEmpty || !ds.all isDigit || 2 ^ 32 ≤ ofDigits ds then none
    else pure (.v6 groups (ofDigits ds))

/-! ### Older forms of four parts -/

/-- Reads digits of a base; there must be one at least. -/
def inBase? (base : Nat) (cs : List Char) : Option Nat :=
  if cs.isEmpty then none
  else
    cs.foldlM
      (fun n c =>
        (Octets.hexValue c).bind fun d => if d < base then some (n * base + d) else none) 0

/-- Reads a number that is octal behind a zero, hexadecimal behind `0x`, and decimal otherwise. -/
def number? : List Char → Option Nat
  | '0' :: 'x' :: cs | '0' :: 'X' :: cs => inBase? 16 cs
  | '0' :: cs => if cs.isEmpty then some 0 else inBase? 8 cs
  | cs => inBase? 10 cs

/-- The four parts that numbers stand for: each is one part, but the last stands for all that are
left. -/
def spread (n : Nat) : List Nat → Option (List Nat)
  | [] => none
  | [last] =>
    if last < 256 ^ n then
      some ((List.range n).map fun k => last / 256 ^ (n - 1 - k) % 256)
    else none
  | part :: parts => if part < 256 && 1 < n then (spread (n - 1) parts).map (part :: ·) else none

/-- Reads one to four numbers. -/
def readOldV4 (cs : List Char) : Option (List Nat) := do
  let numbers ← (Text.splitAll '.' cs).mapM number?
  spread 4 numbers

/-! ### Printing -/

/-- The longest run of zeros: where it begins and how long it is, the first of equal ones. -/
def longestRun (gs : List Nat) : Nat × Nat :=
  (List.range gs.length).foldl
    (fun best i =>
      let n := ((gs.drop i).takeWhile (· = 0)).length
      if best.2 < n then (i, n) else best)
    (0, 0)

/-- Groups between colons. -/
def joined (gs : List Nat) : String :=
  String.intercalate ":" (gs.map fun g => String.ofList (Nat.toDigits 16 g))

/-- Four decimal parts. -/
def dotted (os : List Nat) : String :=
  String.intercalate "." (os.map toString)

/-- Eight groups; a run of two zeros or more is left out. -/
def groupsText (gs : List Nat) : String :=
  let (start, n) := longestRun gs
  if 1 < n then joined (gs.take start) ++ "::" ++ joined (gs.drop (start + n)) else joined gs

/-- Eight groups; a mapped host of four octets is shown as such. -/
def textV6 (gs : List Nat) : String :=
  match gs with
  | [0, 0, 0, 0, 0, 0xFFFF, a, b] =>
    "::ffff:" ++ dotted [a / 256, a % 256, b / 256, b % 256]
  | gs => groupsText gs

end Host

namespace SocketAddress

/-- The text of an address. -/
def text (a : SocketAddress) : String :=
  match a.host with
  | .v4 os => Host.dotted os ++ ":" ++ toString a.port
  | .v6 gs scope =>
    let scope := if scope = 0 then "" else "%" ++ toString scope
    "[" ++ Host.textV6 gs ++ scope ++ "]:" ++ toString a.port

/-- Reads the digits of a port. -/
def port? (cs : List Char) : Option Nat :=
  if cs.isEmpty || !cs.all isDigit || 65535 < ofDigits cs then none else some (ofDigits cs)

/-- Reads a host between brackets. -/
def readBracketed (cs : List Char) : Option Host :=
  match cs with
  | '[' :: rest => if rest.getLast? = some ']' then Host.readScoped rest.dropLast else none
  | _ => none

/-- Reads the number of a host in any form that the system takes. -/
def readHost (cs : List Char) : Option Host :=
  match Host.readOldV4 cs with
  | some os => some (.v4 os)
  | none => Host.readScoped cs

/-- Finds the address of a host and a port. A text without a colon has no port; what stands for the
host must be the number of one. -/
def resolve (addr : String) : Except IoFault SocketAddress :=
  match splitPort? addr.toList with
  | none => .error .addressForm
  | some (host, port) =>
    let exact := do
      let p ← port? port
      match host with
      | '[' :: _ => (readBracketed host).map fun h => (⟨h, p⟩ : SocketAddress)
      | _ => (Host.readV4 host).map fun os => ⟨.v4 os, p⟩
    match exact with
    | some a => .ok a
    | none =>
      match readInt 0 maxPort port with
      | .error _ => .error .addressPort
      | .ok p =>
        match readHost host with
        | some h => .ok ⟨h, p.toNat⟩
        | none => .error .unknownHost

end SocketAddress

end Nsq
