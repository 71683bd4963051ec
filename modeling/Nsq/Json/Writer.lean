import Nsq.Octets

/-!
# Writing JSON

Objects of plain members, written without white space and in the given order. Of the characters of
a text only quotes, backslashes and controls are escaped, the controls by a letter where they have
one.
-/

namespace Nsq.Json

/-- A plain value. -/
inductive Scalar where
  /-- A text. -/
  | text (s : String)
  /-- A truth value. -/
  | flag (b : Bool)
  /-- A whole number. -/
  | int (i : Int)
deriving DecidableEq, Repr

/-- A character as it stands in a string. -/
def escapedChar (c : Char) : List Char :=
  match c with
  | '"' => ['\\', '"']
  | '\\' => ['\\', '\\']
  | '\x08' => ['\\', 'b']
  | '\t' => ['\\', 't']
  | '\n' => ['\\', 'n']
  | '\x0c' => ['\\', 'f']
  | '\r' => ['\\', 'r']
  | c =>
    if c.toNat < 0x20 then ['\\', 'u', '0', '0'] ++ Octets.hexPair (UInt8.ofNat c.toNat) else [c]

/-- A text between quotes. -/
def quote (s : String) : String :=
  String.ofList ('"' :: (s.toList.flatMap escapedChar ++ ['"']))

/-- Writes a plain value. -/
def Scalar.write : Scalar → String
  | .text s => quote s
  | .flag b => toString b
  | .int i => toString i

/-- Writes an object. -/
def writeObject (members : List (String × Scalar)) : String :=
  "\x7b" ++ String.intercalate "," (members.map fun m => quote m.1 ++ ":" ++ m.2.write) ++ "\x7d"

end Nsq.Json
