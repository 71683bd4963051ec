import Nsq.Text.Utf8

/-!
# Percent signs

Octets that may not stand for themselves in a URL are written with a percent sign and two
hexadecimal digits. `Percent.encode` does so for a part of a URL, with a choice of the characters
that are kept, and `Percent.form` for the value of a form; `Percent.decode` reads both kinds of
octets back, and takes a percent sign without two digits for itself.
-/

namespace Nsq.Percent

/-- An octet as a percent sign and two upper-case digits. -/
def octet (o : UInt8) : List Char :=
  '%' :: (Octets.hexPair o).map Char.toUpper

/-- Writes the characters of which `kept` fails with percent signs, and with them all blanks,
controls and characters past ASCII. -/
def encode (kept : Char → Bool) (cs : List Char) : List Char :=
  cs.flatMap fun c =>
    if 0x20 < c.toNat && c.toNat < 0x7F && kept c then [c]
    else (Octets.ofString (String.singleton c)).flatMap octet

/-- Whether an octet stands for itself in a form. -/
def isFormSafe (o : UInt8) : Bool :=
  (0x30 ≤ o && o ≤ 0x39) || (0x41 ≤ o && o ≤ 0x5A) || (0x61 ≤ o && o ≤ 0x7A) ||
    o == 0x2A || o == 0x2D || o == 0x2E || o == 0x5F

/-- A text as the value of a form: blanks become plus signs, other octets that do not stand for
themselves are written with percent signs. -/
def form (s : String) : List Char :=
  (Octets.ofString s).flatMap fun o =>
    if o = 0x20 then ['+'] else if isFormSafe o then [Char.ofNat o.toNat] else octet o

/-- The octets that a part of a URL stands for. -/
def decode : List Char → Octets
  | '%' :: high :: low :: rest =>
    match Octets.hexValue high, Octets.hexValue low with
    | some h, some l => UInt8.ofNat (h * 16 + l) :: decode rest
    | _, _ => 0x25 :: decode (high :: low :: rest)
  | c :: rest => Octets.ofString (String.singleton c) ++ decode rest
  | [] => []

end Nsq.Percent
