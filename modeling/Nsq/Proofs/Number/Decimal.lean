import Nsq.Number.Literal
import Mathlib.Tactic.Set
import Mathlib.Tactic.SplitIfs

/-!
# Whole numbers in decimal

The text of a whole number is read back as the number, wherever it is within the bounds
(`readInt_toString`). Digits are judged from left to right, and what was read before the end is
never further from zero than the whole, so that no bound is passed early.
-/

namespace Nsq

/-- A number with a sign. -/
def withSign (negative : Bool) (n : Nat) : Int := if negative then -n else n

theorem digit?_of_isDigit {c : Char} (h : c.isDigit = true) :
    digit? c = some (c.toNat - '0'.toNat) := by
  have hrange : '0' ≤ c ∧ c ≤ '9' := by
    simpa [Char.isDigit, Char.le_def] using h
  exact if_pos hrange

theorem toNat_of_isDigit {c : Char} (h : c.isDigit = true) : 0x30 ≤ c.toNat ∧ c.toNat ≤ 0x39 := by
  simpa [Char.isDigit, UInt32.le_iff_toNat_le] using h

theorem le_ofDigitChars (cs : List Char) (n : Nat) : n ≤ Nat.ofDigitChars 10 cs n := by
  rw [Nat.ofDigitChars_eq_ofDigitChars_zero]
  have hpow : 0 < 10 ^ cs.length := Nat.pow_pos (by decide)
  have hmul : n ≤ 10 ^ cs.length * n := Nat.le_mul_of_pos_left n hpow
  omega

/-- Digits behind a number are read if the whole is within the bounds. -/
theorem readDigits_of_isDigit {least greatest : Int} (negative : Bool) {cs : List Char}
    (hcs : ∀ c ∈ cs, c.isDigit = true) (n : Nat) (hl : least ≤ 0) (hg : 0 ≤ greatest)
    (hlow : least ≤ withSign negative (Nat.ofDigitChars 10 cs n))
    (hhigh : withSign negative (Nat.ofDigitChars 10 cs n) ≤ greatest) :
    readDigits least greatest negative (withSign negative n) cs =
      .ok (withSign negative (Nat.ofDigitChars 10 cs n)) := by
  induction cs generalizing n with
  | nil => rfl
  | cons c cs ih =>
    rw [List.forall_mem_cons] at hcs
    rw [Nat.ofDigitChars_cons] at hlow hhigh ⊢
    set m := 10 * n + (c.toNat - '0'.toNat) with hm
    have hle := le_ofDigitChars cs m
    have hnext : (if negative then withSign negative n * 10 - (c.toNat - '0'.toNat : Nat)
        else withSign negative n * 10 + (c.toNat - '0'.toNat : Nat)) = withSign negative m := by
      unfold withSign
      split_ifs <;> omega
    have hfit : least ≤ withSign negative m ∧ withSign negative m ≤ greatest := by
      unfold withSign at hlow hhigh ⊢
      split_ifs at hlow hhigh ⊢ <;> omega
    unfold readDigits
    simp only [digit?_of_isDigit hcs.1]
    rw [hnext, if_neg (by omega), if_neg (by omega)]
    exact ih hcs.2 m hlow hhigh

/-- The text of a number that is not negative is its digits. -/
theorem toList_toString_of_nonneg {n : Int} (h : 0 ≤ n) :
    (toString n).toList = Nat.toDigits 10 n.toNat := by
  rw [Int.toString_eq_repr, Int.repr_eq_if, if_pos h, Nat.repr_eq_ofList_toDigits,
    String.toList_ofList]

/-- The text of a negative number is a minus sign and the digits of its size. -/
theorem toList_toString_of_neg {n : Int} (h : n < 0) :
    (toString n).toList = '-' :: Nat.toDigits 10 (-n).toNat := by
  rw [Int.toString_eq_repr, Int.repr_eq_if, if_neg (by omega), Nat.repr_eq_ofList_toDigits,
    String.toList_append, String.toList_ofList, String.toList_ofList]
  rfl

/-- A number in decimal is written with digits and the minus sign. -/
theorem isDigit_or_minus_of_mem {n : Int} {c : Char} (h : c ∈ (toString n).toList) :
    c.isDigit = true ∨ c = '-' := by
  rcases Int.lt_or_le n 0 with hn | hn
  · rw [toList_toString_of_neg hn] at h
    rcases List.mem_cons.mp h with rfl | h
    · exact .inr rfl
    · exact .inl (Nat.isDigit_of_mem_toDigits (by decide) (by decide) h)
  · rw [toList_toString_of_nonneg hn] at h
    exact .inl (Nat.isDigit_of_mem_toDigits (by decide) (by decide) h)

theorem toList_toString_ne_nil {n : Int} : (toString n).toList ≠ [] := by
  rcases Int.lt_or_le n 0 with hn | hn
  · rw [toList_toString_of_neg hn]
    exact List.cons_ne_nil _ _
  · rw [toList_toString_of_nonneg hn]
    exact Nat.toDigits_ne_nil

/-- The digits of a number other than zero do not begin with one. -/
theorem head?_toDigits_ne_zero {n : Nat} (hn : 0 < n) :
    (Nat.toDigits 10 n).head? ≠ some '0' := by
  induction n using Nat.strongRecOn with
  | ind n ih =>
    rcases Nat.lt_or_ge n 10 with hlt | hge
    · have hdigit : ∀ d < 10, 0 < d → [d.digitChar].head? ≠ some '0' := by decide
      rw [Nat.toDigits_of_lt_base hlt]
      exact hdigit n hlt hn
    · rw [Nat.toDigits_of_base_le (by decide) hge, List.head?_append,
        Option.or_of_isSome (by simp)]
      exact ih (n / 10) (by omega) (by omega)

/-- Digits alone are read as a number without a sign. -/
theorem readInt_of_isDigit {least greatest : Int} {ds : List Char}
    (h : ∀ c ∈ ds, c.isDigit = true) (hne : ds ≠ []) :
    readInt least greatest ds = readDigits least greatest false 0 ds := by
  have hplus : '+' ∉ ds := fun hc => absurd (h '+' hc) (by decide)
  have hminus : '-' ∉ ds := fun hc => absurd (h '-' hc) (by decide)
  unfold readInt
  split <;> simp_all

/-- Digits behind a minus sign are read as a negative number where the least one is negative, and
refused otherwise. -/
theorem readInt_minus {least greatest : Int} {ds : List Char} (hne : ds ≠ []) :
    readInt least greatest ('-' :: ds) =
      if least < 0 then readDigits least greatest true 0 ds else .error .digit := by
  unfold readInt
  split <;> simp_all

/-- **A number in decimal is read back**, wherever it is within the bounds. -/
theorem readInt_toString {least greatest n : Int} (hl : least ≤ 0) (hg : 0 ≤ greatest)
    (hlow : least ≤ n) (hhigh : n ≤ greatest) :
    readInt least greatest (toString n).toList = .ok n := by
  have hdigits : ∀ m : Nat, ∀ c ∈ Nat.toDigits 10 m, c.isDigit = true :=
    fun _ _ hc => Nat.isDigit_of_mem_toDigits (by decide) (by decide) hc
  rcases Int.lt_or_le n 0 with hn | hn
  · have hsign : withSign true (-n).toNat = n := by
      change -((-n).toNat : Int) = n
      omega
    have hread := readDigits_of_isDigit true (hdigits (-n).toNat) 0 hl hg
    rw [Nat.ofDigitChars_ten_toDigits, hsign] at hread
    rw [toList_toString_of_neg hn, readInt_minus Nat.toDigits_ne_nil, if_pos (by omega)]
    exact hread hlow hhigh
  · have hsign : withSign false n.toNat = n := Int.toNat_of_nonneg hn
    have hread := readDigits_of_isDigit false (hdigits n.toNat) 0 hl hg
    rw [Nat.ofDigitChars_ten_toDigits, hsign] at hread
    rw [toList_toString_of_nonneg hn, readInt_of_isDigit (hdigits n.toNat) Nat.toDigits_ne_nil]
    exact hread hlow hhigh

theorem isDigit_of_digit? {c : Char} {d : Nat} (h : digit? c = some d) :
    c.isDigit = true ∧ d = c.toNat - '0'.toNat := by
  unfold digit? at h
  split_ifs at h with hrange
  exact ⟨by simpa [Char.isDigit, Char.le_def] using hrange, (Option.some.inj h).symm⟩

/-- What is read behind a number is digits, and the result is what the whole of them spells. -/
theorem isDigit_of_readDigits {greatest : Int} {cs : List Char} {n : Nat} {k : Int}
    (hn : n ≤ greatest) (h : readDigits 0 greatest false n cs = .ok k) :
    (∀ c ∈ cs, c.isDigit = true) ∧ k = Nat.ofDigitChars 10 cs n ∧ k ≤ greatest := by
  induction cs generalizing n with
  | nil =>
    obtain rfl := Except.ok.inj h
    exact ⟨List.forall_mem_nil _, rfl, hn⟩
  | cons c cs ih =>
    unfold readDigits at h
    split at h
    · cases h
    · rename_i d hd
      obtain ⟨hc, rfl⟩ := isDigit_of_digit? hd
      have hcast : (n : Int) * 10 + ((c.toNat - '0'.toNat : Nat) : Int) =
          ((10 * n + (c.toNat - '0'.toNat) : Nat) : Int) := by omega
      simp only [Bool.false_eq_true, if_false, hcast] at h
      split_ifs at h with _ hhigh
      obtain ⟨hcs, hk, hle⟩ := ih (by omega) h
      exact ⟨List.forall_mem_cons.mpr ⟨hc, hcs⟩, by rw [hk, Nat.ofDigitChars_cons], hle⟩

/-- A number that is not negative is read from digits, perhaps behind a plus sign, and from nothing
else. -/
theorem readInt_zero_eq_ok_iff {greatest k : Int} (hg : 0 ≤ greatest) {s : List Char} :
    readInt 0 greatest s = .ok k ↔
      ∃ ds : List Char, (s = ds ∨ s = '+' :: ds) ∧ ds ≠ [] ∧ (∀ c ∈ ds, c.isDigit = true) ∧
        k = Nat.ofDigitChars 10 ds 0 ∧ k ≤ greatest := by
  constructor
  · intro h
    unfold readInt at h
    split at h
    · cases h
    · cases h
    · rename_i cs hne
      obtain ⟨hcs, hk⟩ := isDigit_of_readDigits (n := 0) hg h
      exact ⟨cs, .inr rfl, fun hnil => hne (by rw [hnil]), hcs, hk⟩
    · cases h
    · split_ifs at h with hlt
      omega
    · rename_i hne _ _ _ _
      obtain ⟨hcs, hk⟩ := isDigit_of_readDigits (n := 0) hg h
      exact ⟨s, .inl rfl, hne, hcs, hk⟩
  · rintro ⟨ds, hs, hne, hds, rfl, hle⟩
    have hread : readDigits 0 greatest false 0 ds = .ok (Nat.ofDigitChars 10 ds 0 : Nat) :=
      readDigits_of_isDigit false hds 0 (Int.le_refl 0) hg (Int.natCast_nonneg _) hle
    rcases hs with rfl | rfl
    · rw [readInt_of_isDigit hds hne, hread]
    · unfold readInt
      split <;> simp_all

/-- Numbers with the same decimal text are the same. -/
theorem toString_int_injective {n m : Int} (h : toString n = toString m) : n = m := by
  have hn : readInt (min 0 (min n m)) (max 0 (max n m)) (toString n).toList = .ok n :=
    readInt_toString (by omega) (by omega) (by omega) (by omega)
  have hm : readInt (min 0 (min n m)) (max 0 (max n m)) (toString m).toList = .ok m :=
    readInt_toString (by omega) (by omega) (by omega) (by omega)
  rw [h, hm] at hn
  exact (Except.ok.inj hn).symm

end Nsq
