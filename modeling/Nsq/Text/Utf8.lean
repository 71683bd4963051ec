import Nsq.Octets

/-!
# UTF-8

`Utf8.scan` cuts octets into characters and malformed runs. A malformed run is the longest start of
a character that the octets break off (one octet where none starts a character). Two readings are
built on it: `Octets.text?` refuses malformed runs, and `Octets.lossyText` writes U+FFFD for each.
-/

namespace Nsq

namespace Utf8

/-- What a leading octet promises: how many octets follow, the bounds of the first of them, and the
bits that the leading octet contributes. -/
structure Lead where
  /-- The number of octets that follow. -/
  more : Nat
  /-- The least first follower. -/
  low : UInt8
  /-- The greatest first follower. -/
  high : UInt8
  /-- The bits contributed by the leading octet itself. -/
  bits : Nat

/-- The promise of an octet of `0x80` or more; overlong forms, surrogates and values past U+10FFFF
are excluded by the bounds of the first follower. -/
def lead? (o : UInt8) : Option Lead :=
  if 0xC2 ≤ o ∧ o ≤ 0xDF then some ⟨1, 0x80, 0xBF, o.toNat - 0xC0⟩
  else if o = 0xE0 then some ⟨2, 0xA0, 0xBF, 0⟩
  else if o = 0xED then some ⟨2, 0x80, 0x9F, 0xD⟩
  else if 0xE1 ≤ o ∧ o ≤ 0xEF then some ⟨2, 0x80, 0xBF, o.toNat - 0xE0⟩
  else if o = 0xF0 then some ⟨3, 0x90, 0xBF, 0⟩
  else if 0xF1 ≤ o ∧ o ≤ 0xF3 then some ⟨3, 0x80, 0xBF, o.toNat - 0xF0⟩
  else if o = 0xF4 then some ⟨3, 0x80, 0x8F, 4⟩
  else none

/-- The followers at hand, at most `more`: the first between `low` and `high`, the others between
`0x80` and `0xBF`. -/
def followers : (more : Nat) → (low high : UInt8) → Octets → Octets
  | 0, _, _, _ => []
  | _, _, _, [] => []
  | more + 1, low, high, o :: rest =>
    if low ≤ o ∧ o ≤ high then o :: followers more 0x80 0xBF rest else []

/-- The characters of a run of octets, `none` for each malformed run. -/
def scan (b : Octets) : List (Option Char) :=
  match b with
  | [] => []
  | o :: rest =>
    if o < 0x80 then some (Char.ofNat o.toNat) :: scan rest
    else
      match lead? o with
      | none => none :: scan rest
      | some l =>
        let tail := followers l.more l.low l.high rest
        let next := scan (rest.drop tail.length)
        if tail.length = l.more then
          some (Char.ofNat (tail.foldl (fun n t => n * 64 + (t.toNat - 0x80)) l.bits)) :: next
        else none :: next
termination_by b.length
decreasing_by all_goals simp_wf; try omega

end Utf8

namespace Octets

/-- The text that the octets spell, if they are well formed. -/
def text? (b : Octets) : Option String :=
  (Utf8.scan b).mapM id |>.map String.ofList

/-- The text that the octets spell, with U+FFFD in place of each malformed run. -/
def lossyText (b : Octets) : String :=
  String.ofList ((Utf8.scan b).map fun c => c.getD '\uFFFD')

end Octets

end Nsq
