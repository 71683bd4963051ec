import Nsq.Failure

/-!
# Outlines of failures

A program that ends because of a failure shows an outline of it, which names the cause and lists
what the cause carries, with texts in quotes. The wording of a failure is for reading, its outline
for finding out.
-/

namespace Nsq

/-- A name and the one thing that it carries. -/
def Outline.wrap (name part : String) : String := name ++ "(" ++ part ++ ")"

/-- A name and the things that it carries, with names of their own. -/
def Outline.fields (name : String) (parts : List (String × String)) : String :=
  let shown := parts.map fun (k, part) => k ++ ": " ++ part
  name ++ " \x7b " ++ String.intercalate ", " shown ++ " \x7d"

open Outline Text

/-- Whether the wording of a failure is fixed once and for all. -/
def IoFault.isFixed : IoFault → Bool
  | shortRead | fullWriter | addressForm | addressPort | invalidText | timedOut => true
  | _ => false

/-- The outline of a failure of reading or writing. -/
def IoFault.outline (f : IoFault) : String :=
  match f.system? with
  | some (number, words) =>
    fields "Os"
      [("code", toString number), ("kind", f.kind.name), ("message", quoted words)]
  | none =>
    if f.isFixed then fields "Error" [("kind", f.kind.name), ("message", quoted f.message)]
    else fields "Custom" [("kind", f.kind.name), ("error", quoted f.message)]

/-- The outline of a refused configuration. -/
def ConfigFault.outline (f : ConfigFault) : String :=
  match f with
  | .unknownOption n => wrap "UnknownOption" (quoted n)
  | .invalidValue option reason =>
    fields "InvalidValue" [("option", quoted option), ("reason", quoted reason.message)]
  | .outOfRange option value least greatest =>
    fields "OutOfRange"
      [ ("option", quoted option), ("value", quoted value.shown), ("min", quoted least.shown),
        ("max", quoted (boundShown greatest)) ]
  | .slowHeartbeat _ _ | .twoCompressions | .snappyUnsupported | .tlsUnsupported =>
    wrap "Invalid" (quoted f.message)

/-- The outline of a failure. -/
def Failure.outline : Failure → String
  | .notConnected => "NotConnected"
  | .stopped => "Stopped"
  | .closing => "Closing"
  | .overMaxInFlight => "OverMaxInFlight"
  | .alreadyConnected => "AlreadyConnected"
  | .identify cause => wrap "Identify" (quoted cause.message)
  | .auth cause => wrap "Auth" (quoted cause.message)
  | .protocol s => wrap "Protocol" (quoted s)
  | .noHandlers => "NoHandlers"
  | .handlersAfterConnect => "HandlersAfterConnect"
  | .invalidTopic n => wrap "InvalidTopic" (quoted n)
  | .invalidChannel n => wrap "InvalidChannel" (quoted n)
  | .invalidLookupAddress addr reason =>
    fields "InvalidLookupdAddr" [("addr", quoted addr), ("reason", quoted reason.message)]
  | .lastLookup addr => wrap "CannotRemoveLastLookupd" (quoted addr)
  | .lookup fault => wrap "Lookupd" (quoted fault.message)
  | .config fault => wrap "Config" fault.outline
  | .io fault => wrap "Io" fault.outline

end Nsq
