/-!
# Signed words

Credit is counted, and times travel, in signed words of 64 bits. `word64` cuts a number down to its
low bits: a number of the range `-2 ^ 63 ≤ n < 2 ^ 63` stays as it is, and a sum may be cut down at
any of its steps.

What becomes of a sum outside of the range depends on how the program was built. One that does not
check its sums goes on with the low bits; one that does ends with an `Overflow`. Shared counters are
cut down in either.
-/

namespace Nsq

-- a power of a number is the power that computes, also where an algebraic one is in scope
attribute [instance (high), default_instance (high + 1)] instPowNat

/-- The signed word of 64 bits with the low bits of a number. -/
def word64 (n : Int) : Int := n.bmod (2 ^ 64)

/-- Whether a number is in the range of a word. -/
def isWord64 (n : Int) : Bool := -2 ^ 63 ≤ n && n < 2 ^ 63

/-- How a program ends that checks its sums: the result of an operation on words is none. -/
inductive Overflow where
  /-- A sum. -/
  | add
  /-- A difference. -/
  | subtract
deriving DecidableEq, Repr

/-- The words with which the program ends. -/
def Overflow.message : Overflow → String
  | add => "attempt to add with overflow"
  | subtract => "attempt to subtract with overflow"

theorem isWord64_iff {n : Int} : isWord64 n = true ↔ -2 ^ 63 ≤ n ∧ n < 2 ^ 63 := by
  simp [isWord64]

/-- A number in the range of a word is kept. -/
theorem word64_eq_self {n : Int} (low : -2 ^ 63 ≤ n) (high : n < 2 ^ 63) : word64 n = n :=
  Int.bmod_eq_of_le (by omega) (by omega)

/-- No word is below the range. -/
theorem neg_pow_le_word64 (n : Int) : -2 ^ 63 ≤ word64 n :=
  Int.le_bmod (by decide)

/-- No word is above the range. -/
theorem word64_lt_pow (n : Int) : word64 n < 2 ^ 63 :=
  Int.bmod_lt (by decide)

/-- A number is the word that it is cut down to exactly if it is in the range of words. -/
theorem word64_eq_self_iff {n : Int} : word64 n = n ↔ -2 ^ 63 ≤ n ∧ n < 2 ^ 63 := by
  constructor
  · intro h
    rw [← h]
    exact ⟨neg_pow_le_word64 n, word64_lt_pow n⟩
  · rintro ⟨hlow, hhigh⟩
    exact word64_eq_self hlow hhigh

/-- A word has the low bits of the number. -/
theorem pow_dvd_sub_word64 (n : Int) : 2 ^ 64 ∣ n - word64 n :=
  Int.dvd_self_sub_bmod

/-- The highest bit of the word is its sign. -/
theorem word64_neg_iff {n : Int} : word64 n < 0 ↔ 2 ^ 63 ≤ n % 2 ^ 64 := by
  have hlow := neg_pow_le_word64 n
  have hhigh := word64_lt_pow n
  obtain ⟨k, hk⟩ := pow_dvd_sub_word64 n
  omega

/-- A summand may be cut down before the sum is. -/
@[simp] theorem word64_add_word64 (m n : Int) : word64 (m + word64 n) = word64 (m + n) :=
  Int.add_bmod_bmod

/-- A subtrahend may be cut down before the difference is. -/
@[simp] theorem word64_sub_word64 (m n : Int) : word64 (m - word64 n) = word64 (m - n) :=
  Int.sub_bmod_bmod

/-- Numbers that differ by the number of words are cut down to the same word. -/
theorem word64_add_pow (n : Int) : word64 (n + 2 ^ 64) = word64 n :=
  Int.add_bmod_right n (2 ^ 64)

end Nsq
