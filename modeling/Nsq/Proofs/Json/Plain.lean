import Nsq.Proofs.Json.Reading
import Nsq.Proofs.Number.Decimal
import Nsq.Proofs.Octets
import Mathlib.Data.List.Basic

/-!
# Plain keys and numbers

A text of printable ASCII characters stands between quotes as it is (`stringText_of_plain`), and a
whole number in decimal is a number of JSON with that value (`written_toString`).
-/

namespace Nsq

/-! ### Texts of ASCII characters -/

namespace Utf8

theorem scan_ofAscii {cs : List Char} (h : ∀ c ∈ cs, c.toNat < 128) :
    scan (Octets.ofAscii cs) = cs.map some := by
  induction cs with
  | nil => exact scan.eq_1
  | cons c cs ih =>
    rw [List.forall_mem_cons] at h
    have hc := Octets.toNat_ofNat_of_ascii h.1
    have hlow : UInt8.ofNat c.toNat < 0x80 := by
      rw [UInt8.lt_iff_toNat_lt, hc]
      exact h.1
    rw [Octets.ofAscii_cons, scan, if_pos hlow, ih h.2, hc, Char.ofNat_toNat, List.map_cons]

end Utf8

theorem Octets.text?_ofString_of_ascii {s : String} (h : ∀ c ∈ s.toList, c.toNat < 128) :
    Octets.text? (Octets.ofString s) = some s := by
  have hmap : ∀ cs : List Char, (cs.map some).mapM id = some cs := by
    intro cs
    induction cs with
    | nil => rfl
    | cons c cs ih =>
      rw [List.map_cons, List.mapM_cons, ih]
      rfl
  rw [Octets.text?, Octets.ofString_of_ascii h, Utf8.scan_ofAscii h, hmap, Option.map_some,
    String.ofList_toList]

namespace Json

/-- Whether a character stands for itself in a string, in one octet. -/
def isPlain (c : Char) : Bool :=
  0x20 ≤ c.toNat && c.toNat < 128 && c.toNat != 0x22 && c.toNat != 0x5C

theorem isPlain_iff {c : Char} : isPlain c = true ↔
    ((0x20 ≤ c.toNat ∧ c.toNat < 128) ∧ c.toNat ≠ 0x22) ∧ c.toNat ≠ 0x5C := by
  simp only [isPlain, Bool.and_eq_true, decide_eq_true_eq, bne_iff_ne]

theorem piecesText_of_plain {b : Octets} (h : ∀ o ∈ b, 0x20 ≤ o ∧ o ≠ 0x22 ∧ o ≠ 0x5C) :
    PiecesText b (b.map .octet) := by
  induction b with
  | nil => exact .nil
  | cons o b ih =>
    rw [List.forall_mem_cons] at h
    exact .cons (.plain h.1.2.1 h.1.2.2 h.1.1) (ih h.2)

theorem spelled_octets (b : Octets) : spelled (b.map .octet) = some b := by
  induction b with
  | nil => rfl
  | cons o b ih => rw [List.map_cons, spelled, ih, Option.map_some]

/-- Plain characters are written as they are. -/
theorem stringText_of_plain {s : String} (h : s.toList.all isPlain = true) :
    StringText (0x22 :: (Octets.ofString s ++ [0x22])) (some s) := by
  have hchars : ∀ c ∈ s.toList, ((0x20 ≤ c.toNat ∧ c.toNat < 128) ∧ c.toNat ≠ 0x22) ∧
      c.toNat ≠ 0x5C := fun c hc => isPlain_iff.mp (List.all_eq_true.mp h c hc)
  have hascii : ∀ c ∈ s.toList, c.toNat < 128 := fun c hc => (hchars c hc).1.1.2
  have hplain : ∀ o ∈ Octets.ofString s, 0x20 ≤ o ∧ o ≠ 0x22 ∧ o ≠ 0x5C := by
    intro o ho
    rw [Octets.ofString_of_ascii hascii] at ho
    obtain ⟨c, hc, rfl⟩ := List.mem_map.mp ho
    obtain ⟨⟨⟨hlow, hhigh⟩, hquote⟩, hescape⟩ := hchars c hc
    rw [ne_eq, ne_eq, ← UInt8.toNat_inj, ← UInt8.toNat_inj, UInt8.le_iff_toNat_le,
      Octets.toNat_ofNat_of_ascii hhigh]
    exact ⟨hlow, hquote, hescape⟩
  have htext := StringText.quoted (piecesText_of_plain hplain)
  rwa [spelled_octets, Option.bind_some, Octets.text?_ofString_of_ascii hascii] at htext

/-- A member without white space, under a plain key. -/
theorem written_member (key : String) {t : Octets} {j : Json} (hkey : key.toList.all isPlain = true)
    (h : Written t (.element j)) :
    Written (0x22 :: (Octets.ofString key ++ 0x22 :: 0x3A :: t)) (.member (some key, j)) := by
  have hmember := Written.member blank_nil (stringText_of_plain hkey) blank_nil h
  simpa only [List.nil_append, List.cons_append, List.append_assoc] using hmember

/-! ### Whole numbers -/

theorem digitsValue_ofAscii {cs : List Char} (h : ∀ c ∈ cs, c.toNat < 128) :
    digitsValue (Octets.ofAscii cs) = Nat.ofDigitChars 10 cs 0 := by
  rw [digitsValue, Octets.ofAscii, List.foldl_map, Nat.ofDigitChars_eq_foldl]
  refine List.foldl_ext _ _ _ fun n c hc => ?_
  rw [Octets.toNat_ofNat_of_ascii (h c hc), Nat.mul_comm]
  rfl

theorem digits_ofAscii {cs : List Char} (hne : cs ≠ []) (h : ∀ c ∈ cs, c.isDigit = true) :
    Digits (Octets.ofAscii cs) := by
  refine ⟨fun hnil => hne (List.map_eq_nil_iff.mp hnil), fun o ho => ?_⟩
  obtain ⟨c, hc, rfl⟩ := List.mem_map.mp ho
  have hrange : 0x30 ≤ c.toNat ∧ c.toNat ≤ 0x39 := toNat_of_isDigit (h c hc)
  have hcode := Octets.toNat_ofNat_of_ascii (c := c) (by omega)
  rw [isDigitOctet, Bool.and_eq_true, decide_eq_true_iff, decide_eq_true_iff,
    UInt8.le_iff_toNat_le, UInt8.le_iff_toNat_le, hcode]
  exact hrange

/-- A number is written without a zero in front, unless it is zero. -/
theorem wholeText_toDigits (n : Nat) : WholeText (Octets.ofAscii (Nat.toDigits 10 n)) := by
  rcases Nat.eq_zero_or_pos n with rfl | hn
  · exact .zero
  · have hdigit : ∀ c ∈ Nat.toDigits 10 n, c.isDigit = true :=
      fun _ => Nat.isDigit_of_mem_toDigits (by decide) (by decide)
    have hdigits := digits_ofAscii Nat.toDigits_ne_nil hdigit
    have hhead := head?_toDigits_ne_zero hn
    obtain ⟨c, cs, hcs⟩ := List.exists_cons_of_ne_nil (Nat.toDigits_ne_nil (b := 10) (n := n))
    rw [hcs] at hdigit hdigits hhead ⊢
    rw [Octets.ofAscii_cons] at hdigits ⊢
    refine .digits hdigits fun hzero => hhead ?_
    have hrange := toNat_of_isDigit (hdigit c List.mem_cons_self)
    have hcode := Octets.toNat_ofNat_of_ascii (c := c) (by omega)
    have hc : c = '0' := Char.toNat_inj.mp (by rw [← hcode, hzero]; rfl)
    rw [List.head?_cons, hc]

theorem digitsValue_toDigits (n : Nat) :
    digitsValue (Octets.ofAscii (Nat.toDigits 10 n)) = n := by
  rw [digitsValue_ofAscii, Nat.ofDigitChars_ten_toDigits]
  intro c hc
  have hrange := toNat_of_isDigit (Nat.isDigit_of_mem_toDigits (by decide) (by decide) hc)
  omega

/-- The digits of a number are that number behind a sign, if it is not the negative zero. -/
theorem unsignedText_toDigits {negative : Bool} {n : Nat} (h : negative = true → n ≠ 0) :
    UnsignedText negative (Octets.ofAscii (Nat.toDigits 10 n)) (int (withSign negative n)) := by
  have hnumber : UnsignedText negative _ _ := .mk (wholeText_toDigits n) .absent .absent
  rw [List.append_nil, List.append_nil, numberValue, digitsValue_toDigits] at hnumber
  cases negative with
  | false => exact hnumber
  | true => simpa [withSign, h rfl] using hnumber

/-- **A whole number in decimal is a number of JSON.** -/
theorem written_toString (i : Int) : Written (Octets.ofString (toString i)) (.value (int i)) := by
  have hascii : ∀ c ∈ (toString i).toList, c.toNat < 128 := by
    intro c hc
    rcases isDigit_or_minus_of_mem hc with hdigit | rfl
    · have hrange := toNat_of_isDigit hdigit
      omega
    · decide
  rw [Octets.ofString_of_ascii hascii]
  rcases Int.lt_or_le i 0 with hi | hi
  · have hsize : withSign true (-i).toNat = i := by
      rw [withSign, if_pos rfl]
      omega
    have hnumber : UnsignedText true _ (int (withSign true (-i).toNat)) :=
      unsignedText_toDigits fun _ => by omega
    rw [hsize] at hnumber
    rw [toList_toString_of_neg hi]
    exact .negative hnumber
  · have hsize : withSign false i.toNat = i := Int.toNat_of_nonneg hi
    have hnumber : UnsignedText false _ (int (withSign false i.toNat)) :=
      unsignedText_toDigits nofun
    rw [hsize] at hnumber
    rw [toList_toString_of_nonneg hi]
    exact .unsigned hnumber

end Json

end Nsq
