import Nsq.Json.Reader

/-!
# Records in JSON

A record with fields in a fixed order is an object with members of their names, in any order, or an
array of its first fields. Members of other names are passed over, whatever they hold; a field that
is given twice is refused, and a key that cannot be read, too.
-/

namespace Nsq.Json

/-- What a text gives for the fields of a record, none for a field that it leaves out. -/
abbrev Fields := List (Option Json)

/-- The members of an object sorted by the names of fields. -/
def ofMembers (names : List String) (members : List (Option String × Json)) : Option Fields :=
  if members.all fun m => m.1.isSome then
    names.mapM fun name =>
      match members.filter fun m => m.1 == some name with
      | [] => some none
      | [m] => some (some m.2)
      | _ => none
  else none

/-- The items of an array as the first fields of a record. -/
def ofItems (names : List String) (items : List Json) : Option Fields :=
  if items.length ≤ names.length then
    some (items.map some ++ List.replicate (names.length - items.length) none)
  else none

/-- What a value gives for the fields of a record. -/
def fields (names : List String) : Json → Option Fields
  | object members => ofMembers names members
  | array items => ofItems names items
  | _ => none

/-- A field that may be left out. -/
def optional {α : Type} (read : Json → Option α) (otherwise : α) : Option Json → Option α
  | none => some otherwise
  | some j => read j

/-- Reads a whole number between two bounds. -/
def asInt (least greatest : Int) : Json → Option Int
  | int i => if least ≤ i ∧ i ≤ greatest then some i else none
  | _ => none

/-- Reads a signed number of 64 bits. -/
def asInt64 : Json → Option Int := asInt (-2 ^ 63) (2 ^ 63 - 1)

/-- Reads a signed number of 32 bits. -/
def asInt32 : Json → Option Int := asInt (-2 ^ 31) (2 ^ 31 - 1)

/-- Reads an unsigned number of 16 bits. -/
def asUInt16 (j : Json) : Option Nat := (asInt 0 65535 j).map Int.toNat

/-- Reads a truth value. -/
def asBool : Json → Option Bool
  | bool b => some b
  | _ => none

/-- Reads a text. -/
def asText : Json → Option String
  | string s => s
  | _ => none

/-- Reads a list. -/
def asList {α : Type} (read : Json → Option α) : Json → Option (List α)
  | array items => items.mapM read
  | _ => none

/-- Reads what may be null. -/
def asOption {α : Type} (read : Json → Option α) : Json → Option (Option α)
  | null => some none
  | j => (read j).map some

end Nsq.Json
