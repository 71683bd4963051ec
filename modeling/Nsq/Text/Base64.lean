import Nsq.Octets

/-!
# Base64

Three octets make four digits of six bits each. An incomplete last group is filled up with zero bits
to whole digits, and with padding to four characters.
-/

namespace Nsq.Text

/-- The digits, in the order of their values. -/
def base64Digits : List Char :=
  "ABCDEFGHIJKLMNOPQRSTUVWXYZabcdefghijklmnopqrstuvwxyz0123456789+/".toList

/-- The digit of a value below 64. -/
def base64Digit (n : Nat) : Char := (base64Digits[n]?).getD '='

/-- The first `digits` of the four digits of 24 bits, and padding for the others. -/
def base64Group (digits : Nat) (n : Nat) : List Char :=
  ([n / 64 ^ 3 % 64, n / 64 ^ 2 % 64, n / 64 % 64, n % 64].take digits).map base64Digit ++
    List.replicate (4 - digits) '='

/-- Octets as digits. -/
def base64Chars : Octets → List Char
  | a :: b :: c :: rest => base64Group 4 (Octets.toNat [a, b, c]) ++ base64Chars rest
  | [a, b] => base64Group 3 (Octets.toNat [a, b, 0])
  | [a] => base64Group 2 (Octets.toNat [a, 0, 0])
  | [] => []

/-- Octets as text. -/
def base64 (b : Octets) : String := String.ofList (base64Chars b)

end Nsq.Text
