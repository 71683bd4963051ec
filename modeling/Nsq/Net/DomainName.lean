import Nsq.Net.Punycode
import Nsq.Text.Shown
import Nsq.Text.Split

/-!
# Names of hosts

A name is a run of labels with stops between them. `DomainName.toAscii?` brings it into the form in
which it is asked for: letters are lower-case, wide forms are plain, and a label with characters
past ASCII is spelled in letters and digits behind `xn--`. Of capital letters past ASCII it knows
those of Latin, Greek and Cyrillic that have their small letter at a fixed distance.
-/

namespace Nsq.DomainName

/-- The small letter of a capital one, any other character as it is. -/
def small (c : Char) : Char :=
  let n := c.toNat
  if (0x41 ≤ n && n ≤ 0x5A) || (0xC0 ≤ n && n ≤ 0xDE && n != 0xD7) || (0x391 ≤ n && n ≤ 0x3A9) ||
      (0x410 ≤ n && n ≤ 0x42F) then
    Char.ofNat (n + 0x20)
  else if 0x400 ≤ n && n ≤ 0x40F then Char.ofNat (n + 0x50)
  else c

/-- What a character of a name counts as: some count as nothing, and some as a stop. -/
def counted (c : Char) : List Char :=
  let n := c.toNat
  if n = 0xAD || n = 0x200B || n = 0x2060 || n = 0xFEFF || (0xFE00 ≤ n && n ≤ 0xFE0F) then []
  else if n = 0x3002 || n = 0xFF61 then ['.']
  else if 0xFF01 ≤ n && n ≤ 0xFF5E then [small (Char.ofNat (n - 0xFEE0))]
  else [small c]

/-- The characters of ASCII that have a meaning of their own in a URL. -/
def reserved : List Char :=
  ['%', '#', '/', ':', '<', '>', '?', '@', '[', '\\', ']', '^', '|']

/-- Whether a character may stand in a name. -/
def isAllowed (c : Char) : Bool :=
  Text.isShown c && c != ' ' && c != '\uFFFD' && !reserved.contains c

/-- What stands in front of a label that is spelled in letters and digits. -/
def mark : List Char := "xn--".toList

/-- Whether letters and digits spell a label that needs it. -/
def isSpelling (cs : List Char) : Bool :=
  match Punycode.decode cs with
  | some label =>
    label.any (!Punycode.isAscii ·) && label.all fun c => isAllowed c && counted c == [c]
  | none => false

/-- The form of a label in which it is asked for. -/
def labelToAscii? (label : List Char) : Option (List Char) :=
  if label.any (!Punycode.isAscii ·) then some (mark ++ Punycode.encode label)
  else if label.take 4 = mark && !isSpelling (label.drop 4) then none
  else some label

/-- The form of a name in which it is asked for, unless a character has no place in a name or a
label is spelled wrongly. -/
def toAscii? (name : List Char) : Option (List Char) := do
  let cs := name.flatMap counted
  if !cs.all isAllowed then none
  else
    let labels ← (Text.splitAll '.' cs).mapM labelToAscii?
    pure (List.intercalate ['.'] labels)

end Nsq.DomainName
