import Nsq.Number.Double

/-!
# Numbers in text

`readInt` reads a whole number between two bounds and `readDouble` a double. Both take the whole
text or fail with a cause. A whole number is judged from left to right: the first character that is
no digit, or that carries the value past a bound, decides the cause.
-/

namespace Nsq

/-- Why a text is no whole number of the wanted range. -/
inductive IntFault where
  /-- The text is empty. -/
  | empty
  /-- A character is no digit, or there is none. -/
  | digit
  /-- The number is above the greatest. -/
  | above
  /-- The number is below the least. -/
  | below
deriving DecidableEq, Repr

/-- The wording of a fault. -/
def IntFault.message : IntFault → String
  | .empty => "cannot parse integer from empty string"
  | .digit => "invalid digit found in string"
  | .above => "number too large to fit in target type"
  | .below => "number too small to fit in target type"

/-- The value of a decimal digit. -/
def digit? (c : Char) : Option Nat :=
  if '0' ≤ c ∧ c ≤ '9' then some (c.toNat - '0'.toNat) else none

/-- Whether a character is a decimal digit. -/
def isDigit (c : Char) : Bool :=
  '0' ≤ c && c ≤ '9'

/-- Appends decimal digits to a value, the sign given, within bounds. -/
def readDigits (least greatest : Int) (negative : Bool) : Int → List Char → Except IntFault Int
  | n, [] => .ok n
  | n, c :: cs =>
    match digit? c with
    | none => .error .digit
    | some d =>
      let n := if negative then n * 10 - d else n * 10 + d
      if n < least then .error .below
      else if greatest < n then .error .above
      else readDigits least greatest negative n cs

/-- Reads a whole number between two bounds; a plus sign is allowed, a minus sign only where the
least number is negative. -/
def readInt (least greatest : Int) : List Char → Except IntFault Int
  | [] => .error .empty
  | ['+'] => .error .digit
  | '+' :: cs => readDigits least greatest false 0 cs
  | ['-'] => .error .digit
  | '-' :: cs =>
    if least < 0 then readDigits least greatest true 0 cs else .error .digit
  | cs => readDigits least greatest false 0 cs

/-- The greatest signed word of 64 bits. -/
def maxInt64 : Int := 2 ^ 63 - 1

/-- The least signed word of 64 bits. -/
def minInt64 : Int := -2 ^ 63

/-- Reads a signed number of 64 bits. -/
def readInt64 : List Char → Except IntFault Int :=
  readInt minInt64 maxInt64

/-- The number written by a run of digits. -/
def ofDigits (cs : List Char) : Nat :=
  cs.foldl (fun n c => n * 10 + (digit? c).getD 0) 0

/-- Why a text is no double. -/
inductive DoubleFault where
  /-- The text is empty. -/
  | empty
  /-- The text breaks the grammar. -/
  | form
deriving DecidableEq, Repr

/-- The wording of a fault. -/
def DoubleFault.message : DoubleFault → String
  | .empty => "cannot parse float from empty string"
  | .form => "invalid float literal"

/-- Reads the exponent that may end a literal; nothing may follow. -/
private def readExponent : List Char → Option Int
  | [] => some 0
  | c :: cs =>
    if c = 'e' ∨ c = 'E' then
      let (negative, ds) := match cs with
        | '-' :: ds => (true, ds)
        | '+' :: ds => (false, ds)
        | ds => (false, ds)
      if ds.isEmpty ∨ !ds.all isDigit then none
      else if negative then some (-(ofDigits ds : Int)) else some (ofDigits ds)
    else none

/-- Reads an unsigned literal: digits with at most one point among them and at least one digit,
then perhaps an exponent; or the name of a value that is no number. -/
private def readMagnitude (negative : Bool) (cs : List Char) : Option Double :=
  let name := cs.map Char.toLower
  if name = "nan".toList then some (Double.notANumber negative)
  else if name = "inf".toList ∨ name = "infinity".toList then some (Double.infinity negative)
  else
    let whole := cs.takeWhile isDigit
    let rest := cs.dropWhile isDigit
    let (fraction, rest) := match rest with
      | '.' :: rest => (rest.takeWhile isDigit, rest.dropWhile isDigit)
      | rest => ([], rest)
    if whole.isEmpty ∧ fraction.isEmpty then none
    else
      (readExponent rest).map fun e =>
        Double.ofDecimal negative (ofDigits (whole ++ fraction)) (e - fraction.length)

/-- Reads a double. -/
def readDouble : List Char → Except DoubleFault Double
  | [] => .error .empty
  | cs =>
    let read := match cs with
      | '-' :: cs => readMagnitude true cs
      | '+' :: cs => readMagnitude false cs
      | cs => readMagnitude false cs
    match read with
    | some d => .ok d
    | none => .error .form

/-! ### Digits and points -/

theorem toLower_of_numeral {c : Char} (h : isDigit c = true ∨ c = '.') : c.toLower = c := by
  rcases h with h | rfl
  · simp only [isDigit, Bool.and_eq_true, decide_eq_true_eq] at h
    have hnine : c.val.toNat ≤ 57 := h.2
    unfold Char.toLower
    split
    · rename_i hupper
      have hA : 65 ≤ c.val.toNat := hupper.1
      omega
    · rfl
  · rfl

/-- A literal that begins with a digit or a point has no sign. -/
private theorem readDouble_cons {c : Char} (h : isDigit c = true ∨ c = '.') (cs : List Char) :
    readDouble (c :: cs) =
      match readMagnitude false (c :: cs) with
      | some d => .ok d
      | none => .error .form := by
  have hminus : c ≠ '-' := by
    rintro rfl
    exact absurd h (by decide)
  have hplus : c ≠ '+' := by
    rintro rfl
    exact absurd h (by decide)
  unfold readDouble
  split
  · contradiction
  · split <;> simp_all

/-- Nor is it a name. -/
private theorem readMagnitude_cons {c : Char} (h : isDigit c = true ∨ c = '.') (cs : List Char) :
    readMagnitude false (c :: cs) =
      let whole := (c :: cs).takeWhile isDigit
      let (fraction, rest) := match (c :: cs).dropWhile isDigit with
        | '.' :: rest => (rest.takeWhile isDigit, rest.dropWhile isDigit)
        | rest => ([], rest)
      if whole.isEmpty ∧ fraction.isEmpty then none
      else
        (readExponent rest).map fun e =>
          Double.ofDecimal false (ofDigits (whole ++ fraction)) (e - fraction.length) := by
  have hn : c ≠ 'n' := by
    rintro rfl
    exact absurd h (by decide)
  have hi : c ≠ 'i' := by
    rintro rfl
    exact absurd h (by decide)
  have hnan : "nan".toList = ['n', 'a', 'n'] := rfl
  have hinf : "inf".toList = ['i', 'n', 'f'] := rfl
  have hinfinity : "infinity".toList = ['i', 'n', 'f', 'i', 'n', 'i', 't', 'y'] := rfl
  unfold readMagnitude
  simp only [List.map_cons, toLower_of_numeral h, hnan, hinf, hinfinity, List.cons.injEq, hn, hi,
    false_and, or_self, if_false]

/-- Digits are cut off from what begins with a point, or from nothing. -/
theorem cut_digits {whole rest : List Char} (hw : ∀ c ∈ whole, isDigit c = true)
    (hr : rest = [] ∨ ∃ more, rest = '.' :: more) :
    (whole ++ rest).takeWhile isDigit = whole ∧ (whole ++ rest).dropWhile isDigit = rest := by
  rw [List.takeWhile_append_of_pos hw, List.dropWhile_append_of_pos hw]
  rcases hr with rfl | ⟨more, rfl⟩
  · exact ⟨List.append_nil whole, rfl⟩
  · have hpoint : isDigit '.' = false := rfl
    simp [hpoint]

/-- Digits are read as a whole number. -/
theorem readDouble_digits {whole : List Char} (hw : ∀ c ∈ whole, isDigit c = true)
    (hne : whole ≠ []) :
    readDouble whole = .ok (Double.ofDecimal false (ofDigits whole) 0) := by
  have hcut := cut_digits hw (.inl rfl)
  rw [List.append_nil] at hcut
  obtain ⟨c, cs, rfl⟩ := List.exists_cons_of_ne_nil hne
  have hc : isDigit c = true ∨ c = '.' := .inl (hw c List.mem_cons_self)
  rw [readDouble_cons hc, readMagnitude_cons hc, hcut.1, hcut.2]
  simp [readExponent]

/-- The character in front of a point, or the point. -/
private theorem numeral_head {whole rest : List Char} {c : Char} {cs : List Char}
    (hw : ∀ c ∈ whole, isDigit c = true) (h : whole ++ '.' :: rest = c :: cs) :
    isDigit c = true ∨ c = '.' := by
  cases whole with
  | nil => exact .inr (List.cons.inj h).1.symm
  | cons d ds =>
    obtain rfl := (List.cons.inj h).1
    exact .inl (hw d List.mem_cons_self)

/-- Digits with a point among them are read as a decimal fraction; a point alone is none. -/
theorem readDouble_point {whole fraction : List Char} (hw : ∀ c ∈ whole, isDigit c = true)
    (hf : ∀ c ∈ fraction, isDigit c = true) :
    readDouble (whole ++ '.' :: fraction) =
      if whole = [] ∧ fraction = [] then .error .form
      else .ok (Double.ofDecimal false (ofDigits (whole ++ fraction)) (-fraction.length)) := by
  obtain ⟨c, cs, hcs⟩ := List.exists_cons_of_ne_nil
    (List.append_ne_nil_of_right_ne_nil whole (List.cons_ne_nil '.' fraction))
  have hc := numeral_head hw hcs
  have hcut := cut_digits hw (.inr ⟨fraction, rfl⟩)
  have hcut' := cut_digits hf (.inl rfl)
  rw [List.append_nil] at hcut'
  rw [hcs] at hcut ⊢
  rw [readDouble_cons hc, readMagnitude_cons hc, hcut.1, hcut.2]
  simp only [hcut'.1, hcut'.2, List.isEmpty_iff, readExponent]
  by_cases hempty : whole = [] ∧ fraction = []
  · rw [if_pos hempty, if_pos hempty]
  · rw [if_neg hempty, if_neg hempty, Option.map_some, Int.zero_sub]

/-- Digits with two points are no number. -/
theorem readDouble_points {whole fraction : List Char} (hw : ∀ c ∈ whole, isDigit c = true)
    (hf : ∀ c ∈ fraction, isDigit c = true) (rest : List Char) :
    readDouble (whole ++ '.' :: (fraction ++ '.' :: rest)) = .error .form := by
  obtain ⟨c, cs, hcs⟩ := List.exists_cons_of_ne_nil
    (List.append_ne_nil_of_right_ne_nil whole (List.cons_ne_nil '.' (fraction ++ '.' :: rest)))
  have hc := numeral_head hw hcs
  have hcut := cut_digits hw (.inr ⟨fraction ++ '.' :: rest, rfl⟩)
  have hcut' := cut_digits hf (.inr ⟨rest, rfl⟩)
  have hpower : readExponent ('.' :: rest) = none := by
    unfold readExponent
    exact if_neg (by decide)
  rw [hcs] at hcut ⊢
  rw [readDouble_cons hc, readMagnitude_cons hc, hcut.1, hcut.2]
  simp [hcut'.2, hpower]

end Nsq
