import Nsq.Octets
import Mathlib.Tactic.SplitIfs

/-!
# Words are read back

A word of `width` octets holds a number below `256 ^ width`, so `Octets.word` and `Octets.toNat`
undo each other, and with two's complement so do the signed readings. A text has no octet of an
ASCII character that does not stand in it.
-/

namespace Nsq.Octets

/-! ### Words -/

theorem foldl_eq_add (b : Octets) (n : Nat) :
    b.foldl (fun n o => n * 256 + o.toNat) n = n * 256 ^ b.length + toNat b := by
  induction b generalizing n with
  | nil => simp [toNat]
  | cons o b ih =>
    rw [toNat, List.foldl_cons, List.foldl_cons, ih, ih (0 * 256 + o.toNat), List.length_cons,
      Nat.pow_succ']
    grind

theorem toNat_cons (o : UInt8) (b : Octets) :
    toNat (o :: b) = o.toNat * 256 ^ b.length + toNat b := by
  rw [toNat, List.foldl_cons, foldl_eq_add, Nat.zero_mul, Nat.zero_add]

theorem toNat_lt (b : Octets) : toNat b < 256 ^ b.length := by
  induction b with
  | nil => simp [toNat]
  | cons o b ih =>
    have ho : o.toNat + 1 ≤ 256 := o.toNat_lt
    calc toNat (o :: b) = o.toNat * 256 ^ b.length + toNat b := toNat_cons o b
      _ < (o.toNat + 1) * 256 ^ b.length := by rw [Nat.succ_mul]; omega
      _ ≤ 256 * 256 ^ b.length := Nat.mul_le_mul_right _ ho
      _ = 256 ^ (o :: b).length := by rw [List.length_cons, Nat.pow_succ']

/-- A word holds the low octets of its number. -/
theorem toNat_word (width n : Nat) : toNat (word width n) = n % 256 ^ width := by
  induction width with
  | zero => simp [word, toNat, Nat.mod_one]
  | succ width ih =>
    have hhead : (UInt8.ofNat (n / 256 ^ width)).toNat = n / 256 ^ width % 256 := UInt8.toNat_ofNat'
    rw [word, toNat_cons, ih, length_word, hhead, Nat.pow_succ, Nat.mod_mul, Nat.add_comm,
      Nat.mul_comm]

theorem toNat_word_of_lt {width n : Nat} (h : n < 256 ^ width) : toNat (word width n) = n := by
  rw [toNat_word, Nat.mod_eq_of_lt h]

/-- The octets of a word are read off its low part alone. -/
theorem word_add_mul (width n k : Nat) : word width (k * 256 ^ width + n) = word width n := by
  induction width generalizing k with
  | zero => rfl
  | succ width ih =>
    have hpow : k * 256 ^ (width + 1) = k * 256 * 256 ^ width := by
      rw [Nat.pow_succ', Nat.mul_assoc]
    rw [word, word, hpow, ih]
    congr 1
    rw [Nat.add_comm, Nat.add_mul_div_right _ _ (Nat.pow_pos (by decide)), UInt8.ofNat_add]
    simp [UInt8.ofNat_mul]

theorem word_toNat (b : Octets) : word b.length (toNat b) = b := by
  induction b with
  | nil => rfl
  | cons o b ih =>
    rw [List.length_cons, word, toNat_cons, word_add_mul, ih]
    congr 1
    rw [Nat.add_comm, Nat.add_mul_div_right _ _ (Nat.pow_pos (by decide)),
      Nat.div_eq_of_lt (toNat_lt b), Nat.zero_add, UInt8.ofNat_toNat]

theorem eq_word_of_length {b : Octets} {width : Nat} (h : b.length = width) :
    b = word width (toNat b) := by
  rw [← h, word_toNat]

/-! ### Signed words -/

/-- A run that reads as a number that is not negative is the word of that number. -/
theorem toInt_eq_natCast_iff {b : Octets} {n : Nat} :
    toInt b = n ↔ b = word b.length n ∧ 2 * n < 256 ^ b.length := by
  have hlt := toNat_lt b
  have hcast : ((256 ^ b.length : Nat) : Int) = 256 ^ b.length := Int.natCast_pow 256 b.length
  unfold toInt
  dsimp only
  constructor
  · intro h
    split_ifs at h with hs
    · obtain rfl : toNat b = n := Int.ofNat.inj h
      exact ⟨(word_toNat b).symm, hs⟩
    · omega
  · rintro ⟨hb, hn⟩
    have hb' : toNat b = n := by rw [hb, toNat_word_of_lt (by omega)]
    rw [hb', if_pos hn]

theorem neg_le_toInt (b : Octets) : -256 ^ b.length ≤ 2 * toInt b := by
  have hcast : ((256 ^ b.length : Nat) : Int) = 256 ^ b.length := Int.natCast_pow 256 b.length
  unfold toInt
  dsimp only
  split_ifs <;> omega

theorem toInt_lt (b : Octets) : 2 * toInt b < 256 ^ b.length := by
  have hlt := toNat_lt b
  have hcast : ((256 ^ b.length : Nat) : Int) = 256 ^ b.length := Int.natCast_pow 256 b.length
  unfold toInt
  dsimp only
  split_ifs <;> omega

theorem toInt_word_of_lt {width n : Nat} (h : 2 * n < 256 ^ width) :
    toInt (word width n) = n := by
  rw [toInt_eq_natCast_iff, length_word]
  exact ⟨rfl, h⟩

/-- The signed and the unsigned reading of a run differ by a multiple of its range. -/
theorem toInt_emod (b : Octets) : (toInt b % 256 ^ b.length).toNat = toNat b := by
  have hlt := toNat_lt b
  have hcast : ((256 ^ b.length : Nat) : Int) = 256 ^ b.length := Int.natCast_pow 256 b.length
  unfold toInt
  dsimp only
  split_ifs
  · rw [Int.emod_eq_of_lt (by omega) (by omega), Int.toNat_natCast]
  · rw [Int.sub_emod_right, Int.emod_eq_of_lt (by omega) (by omega), Int.toNat_natCast]

/-- A signed number in the range of a word is read back. -/
theorem toInt_word_emod {width : Nat} {t : Int} (low : -256 ^ width ≤ 2 * t)
    (high : 2 * t < 256 ^ width) : toInt (word width (t % 256 ^ width).toNat) = t := by
  have hcast : ((256 ^ width : Nat) : Int) = 256 ^ width := Int.natCast_pow 256 width
  have hpos : (0 : Int) < 256 ^ width := by omega
  have hlt := Int.emod_lt_of_pos t hpos
  have hnonneg := Int.emod_nonneg t (Int.ne_of_gt hpos)
  unfold toInt
  dsimp only
  rw [toNat_word_of_lt (by omega), length_word]
  rcases Int.lt_or_le t 0 with hneg | hge
  · -- a negative number is moved up by the range, and down again
    have hmod : t % 256 ^ width = t + 256 ^ width := by
      rw [← Int.add_emod_right, Int.emod_eq_of_lt (by omega) (by omega)]
    split_ifs <;> omega
  · have hmod : t % 256 ^ width = t := Int.emod_eq_of_lt hge (by omega)
    split_ifs <;> omega

/-! ### Texts -/

/-- An octet below 128 in the encoding of a character is the character. -/
theorem toNat_of_mem_utf8EncodeChar {c : Char} {o : UInt8} (h : o ∈ String.utf8EncodeChar c)
    (ho : o.toNat < 128) : c.toNat = o.toNat := by
  unfold String.utf8EncodeChar at h
  have hv : c.val.toNat = c.toNat := rfl
  dsimp only at h
  -- an encoding of several octets has the highest bit set in all of them
  split_ifs at h
  all_goals
    simp only [List.mem_cons, List.not_mem_nil, or_false, ← UInt8.toNat_inj,
      UInt8.toNat_ofNat'] at h
    omega

theorem ofString_eq_flatMap (s : String) : ofString s = s.toList.flatMap String.utf8EncodeChar := by
  rw [ofString, ← String.utf8Encode_toList, List.utf8Encode, List.data_toByteArray]

theorem mem_ofString {o : UInt8} {s : String} :
    o ∈ ofString s ↔ ∃ c ∈ s.toList, o ∈ String.utf8EncodeChar c := by
  rw [ofString_eq_flatMap, List.mem_flatMap]

/-- A text has no octet of an ASCII character that does not stand in it. -/
theorem not_mem_ofString {o : UInt8} {s : String} (ho : o.toNat < 128)
    (h : ∀ c ∈ s.toList, c.toNat ≠ o.toNat) : o ∉ ofString s := by
  intro hmem
  obtain ⟨c, hc, hoc⟩ := mem_ofString.mp hmem
  exact h c hc (toNat_of_mem_utf8EncodeChar hoc ho)

/-- ASCII characters, one octet for each. -/
def ofAscii (cs : List Char) : Octets := cs.map fun c => UInt8.ofNat c.toNat

theorem ofAscii_cons (c : Char) (cs : List Char) :
    ofAscii (c :: cs) = UInt8.ofNat c.toNat :: ofAscii cs := rfl

theorem toNat_ofNat_of_ascii {c : Char} (h : c.toNat < 128) :
    (UInt8.ofNat c.toNat).toNat = c.toNat := by
  rw [UInt8.toNat_ofNat', Nat.mod_eq_of_lt (Nat.lt_trans h (by decide))]

theorem ofString_of_ascii {s : String} (h : ∀ c ∈ s.toList, c.toNat < 128) :
    ofString s = ofAscii s.toList := by
  have hone : ∀ c ∈ s.toList, String.utf8EncodeChar c = [UInt8.ofNat c.toNat] := by
    intro c hc
    have hc : c.val.toNat ≤ 127 := Nat.le_of_lt_succ (h c hc)
    unfold String.utf8EncodeChar
    dsimp only
    rw [if_pos hc]
    rfl
  rw [ofString_eq_flatMap, ofAscii, List.map_eq_flatMap, List.flatMap_def, List.flatMap_def,
    List.map_congr_left hone]

end Nsq.Octets
