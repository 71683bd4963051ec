import Nsq.Net.DomainName
import Nsq.Net.Url.Basic

/-!
# Hosts of URLs

A host between brackets is a number of eight groups. Any other host of a common scheme is a name,
or, if its last label is a number, one to four numbers that stand for four octets. Other schemes
have names of their own, which are not looked into.
-/

namespace Nsq.UrlHost

/-- Reads a host that a bracket opens. -/
def readBracketed (cs : List Char) : Except UrlFault UrlHost :=
  match if cs.getLast? = some ']' then Host.readV6 cs.dropLast else none with
  | some groups => .ok (.number (.v6 groups 0))
  | none => .error .hostV6

/-- The labels of a name; a stop may stand at the end. -/
def labels (host : List Char) : List (List Char) :=
  let ls := Text.splitAll '.' host
  if ls.getLast? = some [] then ls.dropLast else ls

/-- Reads a label as a number; `0x` alone is zero. -/
def number? (label : List Char) : Option Nat :=
  if label = ['0', 'x'] then some 0 else Host.number? label

/-- Whether the last label of a name is a number, or looks like one. -/
def endsInNumber (host : List Char) : Bool :=
  (labels host).getLast?.any fun l => (!l.isEmpty && l.all isDigit) || (number? l).isSome

/-- Reads one to four numbers. -/
def readV4 (host : List Char) : Option (List Nat) := do
  let numbers ← (labels host).mapM number?
  Host.spread 4 numbers

/-- Reads the host of a common scheme. -/
def readCommon : List Char → Except UrlFault UrlHost
  | '[' :: cs => readBracketed cs
  | cs =>
    match DomainName.toAscii? (Percent.decode cs).lossyText.toList with
    | none => .error .hostName
    | some [] => .error .noHost
    | some ascii =>
      if endsInNumber ascii then
        match readV4 ascii with
        | some os => .ok (.number (.v4 os))
        | none => .error .hostV4
      else .ok (.name (String.ofList ascii))

/-- Whether no host of any scheme has a character. -/
def isForbidden (c : Char) : Bool :=
  ['\x00', '\t', '\n', '\r', ' ', '#', '/', ':', '<', '>', '?', '@', '[', '\\', ']', '^',
    '|'].contains c

/-- Reads the host of another scheme. -/
def readOther : List Char → Except UrlFault UrlHost
  | [] => .error .noHost
  | '[' :: cs => readBracketed cs
  | cs =>
    if cs.any isForbidden then .error .hostCharacter
    else .ok (.name (String.ofList (Percent.encode (fun _ => true) cs)))

end Nsq.UrlHost
