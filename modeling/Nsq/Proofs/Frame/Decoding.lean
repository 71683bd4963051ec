import Nsq.Proofs.Octets
import Nsq.Frame.Source
import Nsq.Message.Basic

/-!
# Frames are read back

A reader finds octets in pieces and takes what it wants however they are cut (`Source.take_of_le`,
`Source.take_of_lt`), so what it reads hangs on the octets alone. There are three cases
(`Frame.cutShort_or`): the octets end too early, the size in front is not admitted, or the announced
payload is there in full. Only in the last case there may be a frame, and then it is the one that
stands in front (`Frame.Leads`), since a size, a type and data have just one encoding.

`Source.readFrame_exact` says all of this, and that messages are read out of the data of their
frames.
-/

namespace Nsq

/-! ### Octets in pieces -/

namespace Source

/-- Wanted octets that are there are taken from the front, however they are cut. -/
theorem takeFrom_of_le {n : Nat} {ps : List Octets} (h : n ≤ ps.flatten.length) :
    ∃ rest, takeFrom n ps = (some (ps.flatten.take n), rest) ∧
      rest.flatten = ps.flatten.drop n := by
  induction ps generalizing n with
  | nil =>
    obtain rfl : n = 0 := Nat.le_zero.mp h
    exact ⟨[], rfl, rfl⟩
  | cons p ps ih =>
    cases n with
    | zero => exact ⟨p :: ps, rfl, rfl⟩
    | succ n =>
      rw [List.flatten_cons, List.length_append] at h
      rw [takeFrom, List.flatten_cons]
      split_ifs with hp
      · -- the piece holds more than is wanted
        refine ⟨p.drop (n + 1) :: ps, ?_, ?_⟩
        · rw [List.take_append_of_le_length (Nat.le_of_lt hp)]
        · rw [List.flatten_cons, List.drop_append_of_le_length (Nat.le_of_lt hp)]
      · have hp' : p.length ≤ n + 1 := Nat.not_lt.mp hp
        obtain ⟨rest, htake, hrest⟩ := ih (n := n + 1 - p.length) (by omega)
        refine ⟨rest, ?_, ?_⟩
        · rw [htake, List.take_append, List.take_of_length_le hp']
          rfl
        · rw [hrest, List.drop_append, List.drop_of_length_le hp', List.nil_append]

/-- A source with fewer octets than wanted is used up. -/
theorem takeFrom_of_lt {n : Nat} {ps : List Octets} (h : ps.flatten.length < n) :
    takeFrom n ps = (none, []) := by
  induction ps generalizing n with
  | nil =>
    obtain ⟨n, rfl⟩ := Nat.exists_eq_succ_of_ne_zero (Nat.ne_of_gt h)
    rfl
  | cons p ps ih =>
    rw [List.flatten_cons, List.length_append] at h
    obtain ⟨n, rfl⟩ : ∃ k, n = k + 1 := Nat.exists_eq_succ_of_ne_zero (by omega)
    rw [takeFrom, if_neg (by omega), ih (by omega)]
    rfl

theorem take_of_le {n : Nat} {s : Source} (h : n ≤ s.octets.length) :
    ∃ s', s.take n = (.ok (s.octets.take n), s') ∧ s'.octets = s.octets.drop n := by
  obtain ⟨rest, htake, hrest⟩ := takeFrom_of_le h
  refine ⟨⟨rest⟩, ?_, hrest⟩
  rw [take, htake]
  rfl

theorem take_of_lt {n : Nat} {s : Source} (h : s.octets.length < n) :
    s.take n = (.error .shortRead, ⟨[]⟩) := by
  rw [take, takeFrom_of_lt h]

end Source

/-! ### Sizes and types -/

theorem FrameKind.ofCode_eq_ok_iff {i : Int} {k : FrameKind} :
    FrameKind.ofCode i = .ok k ↔ i = k.code := by
  constructor
  · intro h
    unfold ofCode at h
    split_ifs at h with h0 h1 h2 <;> cases h <;> assumption
  · rintro rfl
    cases k <;> rfl

theorem FrameKind.kind_of_ofCode {i : Int} {fault : IoFault} (h : ofCode i = .error fault) :
    fault.kind = .invalidData := by
  unfold ofCode at h
  split_ifs at h
  cases h
  rfl

namespace Frame

/-- A size that is admitted: it is within the limit, and its word reads as no negative number. -/
def Admits (maxSize n : Nat) : Prop := n ≤ limit maxSize ∧ n ≤ 2 ^ 31 - 1

/-- Octets announce a payload of `n` octets, a size that is admitted. -/
def Announces (maxSize : Nat) (b : Octets) (n : Nat) : Prop :=
  Admits maxSize n ∧ Octets.word 4 n <+: b

/-- A frame of an admitted size stands in front of octets. -/
def Leads (maxSize : Nat) (b : Octets) (f : Frame) : Prop :=
  f.encode <+: b ∧ Admits maxSize (f.data.length + 4)

theorem checkSize_eq_ok_iff {maxSize n : Nat} {b : Octets} (hb : b.length = 4) :
    checkSize maxSize (Octets.toInt b) = .ok n ↔ b = Octets.word 4 n ∧ Admits maxSize n := by
  have hint := Octets.toInt_eq_natCast_iff (b := b) (n := n)
  rw [hb] at hint
  unfold checkSize Admits
  constructor
  · intro h
    split_ifs at h with hneg hlimit
    obtain rfl : (Octets.toInt b).toNat = n := by injection h
    obtain ⟨hword, hlt⟩ := hint.mp (Int.toNat_of_nonneg (Int.not_lt.mp hneg)).symm
    exact ⟨hword, Nat.not_lt.mp hlimit, by omega⟩
  · rintro ⟨hword, hlimit, hbound⟩
    rw [hint.mpr ⟨hword, by omega⟩, if_neg (by omega), Int.toNat_natCast, if_neg (by omega)]

theorem kind_of_checkSize {maxSize : Nat} {size : Int} {fault : IoFault}
    (h : checkSize maxSize size = .error fault) : fault.kind = .invalidData := by
  unfold checkSize at h
  split_ifs at h <;> cases h <;> rfl

theorem length_payload (f : Frame) : f.payload.length = f.data.length + 4 := by
  rw [payload, List.length_append, Octets.length_word, Nat.add_comm]

theorem length_encode (f : Frame) : f.encode.length = 8 + f.data.length := by
  rw [encode, List.length_append, Octets.length_word, length_payload]
  omega

/-- The kind of a frame is read off its word. -/
theorem ofCode_word (k : FrameKind) :
    FrameKind.ofCode (Octets.toInt (Octets.word 4 k.code)) = .ok k := by
  have hcode : k.code ≤ 2 := by cases k <;> decide
  rw [FrameKind.ofCode_eq_ok_iff, Octets.toInt_word_of_lt (by omega)]

/-- The octets behind a size are those of one frame, or of none. -/
theorem ofPayload_eq_ok_iff {b : Octets} {f : Frame} : ofPayload b = .ok f ↔ b = f.payload := by
  have hlen := Octets.length_word 4 f.kind.code
  unfold ofPayload payload
  constructor
  · intro h
    split_ifs at h with hb
    split at h
    · cases h
    · rename_i k hk
      cases h
      have hlen' : (b.take 4).length = 4 := by rw [List.length_take]; omega
      have hcode := Octets.toInt_eq_natCast_iff.mp (FrameKind.ofCode_eq_ok_iff.mp hk)
      rw [hlen'] at hcode
      rw [← hcode.1, List.take_append_drop]
  · rintro rfl
    rw [if_neg (by simp), List.take_left' hlen, List.drop_left' hlen, ofCode_word]

theorem kind_of_ofPayload {b : Octets} {fault : IoFault} (h : ofPayload b = .error fault) :
    fault.kind = .invalidData := by
  unfold ofPayload at h
  split_ifs at h
  · cases h
    rfl
  · split at h <;> cases h
    exact FrameKind.kind_of_ofCode ‹_›

theorem Announces.take_eq {maxSize n : Nat} {b : Octets} (h : Announces maxSize b n) :
    b.take 4 = Octets.word 4 n := by
  have htake := List.prefix_iff_eq_take.mp h.2
  rwa [Octets.length_word, eq_comm] at htake

/-- Octets announce at most one size. -/
theorem Announces.unique {maxSize n k : Nat} {b : Octets} (hn : Announces maxSize b n)
    (hk : Announces maxSize b k) : n = k := by
  have hword : Octets.word 4 n = Octets.word 4 k := by rw [← hn.take_eq, hk.take_eq]
  have hn' := hn.1.2
  have hk' := hk.1.2
  rw [← Octets.toNat_word_of_lt (show n < 256 ^ 4 by omega), hword,
    Octets.toNat_word_of_lt (by omega)]

/-- Octets end inside of a size, or inside of the payload that they announce. -/
def CutShort (maxSize : Nat) (b : Octets) : Prop :=
  b.length < 4 ∨ ∃ n, Announces maxSize b n ∧ b.length < 4 + n

/-- Octets are cut short, or their size is not admitted, or the announced payload is there. -/
theorem cutShort_or (maxSize : Nat) (b : Octets) : CutShort maxSize b ∨
    (4 ≤ b.length ∧ ∀ n, ¬ Announces maxSize b n) ∨
      ∃ n, Announces maxSize b n ∧ 4 + n ≤ b.length := by
  by_cases hcut : CutShort maxSize b
  · exact .inl hcut
  rw [CutShort, not_or] at hcut
  by_cases hann : ∃ n, Announces maxSize b n
  · obtain ⟨n, hn⟩ := hann
    exact .inr (.inr ⟨n, hn, Nat.not_lt.mp fun hlt => hcut.2 ⟨n, hn, hlt⟩⟩)
  · exact .inr (.inl ⟨Nat.not_lt.mp hcut.1, not_exists.mp hann⟩)

theorem Announces.not_cutShort {maxSize n : Nat} {b : Octets} (h : Announces maxSize b n)
    (hlen : 4 + n ≤ b.length) : ¬ CutShort maxSize b := by
  rintro (hlt | ⟨k, hk, hlt⟩)
  · omega
  · rw [hk.unique h] at hlt
    omega

/-- A payload that starts with the word of a kind is that of a frame. -/
theorem payload_of_leading_word {b : Octets} {k : FrameKind} (h : Octets.word 4 k.code <+: b) :
    payload ⟨k, b.drop 4⟩ = b := by
  obtain ⟨rest, rfl⟩ := h
  rw [payload, List.drop_left' (Octets.length_word 4 _)]

/-- Octets start with a frame if they start with its size and its payload stands behind. -/
theorem encode_prefix_iff {f : Frame} {b : Octets} : f.encode <+: b ↔
    Octets.word 4 f.payload.length <+: b ∧ (b.drop 4).take f.payload.length = f.payload := by
  have hlen := Octets.length_word 4 f.payload.length
  unfold encode
  constructor
  · rintro ⟨rest, rfl⟩
    rw [List.append_assoc, List.drop_left' hlen, List.take_left]
    exact ⟨List.prefix_append _ _, rfl⟩
  · rintro ⟨⟨rest, rfl⟩, htake⟩
    rw [List.drop_left' hlen] at htake
    exact (List.prefix_append_right_inj _).mpr (htake ▸ List.take_prefix _ _)

section NoFrame

variable {maxSize n : Nat} {b : Octets} (hn : Announces maxSize b n) (hlen : 4 + n ≤ b.length)
  (h : ∀ f : Frame, ¬ f.Leads maxSize b)

include hn hlen h

/-- Where no frame stands in front, the announced payload is that of no frame. -/
theorem Announces.ne_payload (f : Frame) : (b.drop 4).take n ≠ f.payload := by
  intro hf
  have hpayload := f.length_payload
  rw [← hf, List.length_take, List.length_drop, Nat.min_eq_left (by omega)] at hpayload
  refine h f ⟨encode_prefix_iff.mpr ?_, hpayload ▸ hn.1⟩
  rw [f.length_payload, ← hpayload]
  exact ⟨hn.2, hf⟩

/-- Where no frame stands in front, the announced payload is too short for a type, or its type is
none. -/
theorem Announces.lt_or_no_kind :
    n < 4 ∨ ∀ k : FrameKind, ¬ Octets.word 4 k.code <+: b.drop 4 := by
  refine (Nat.lt_or_ge n 4).imp_right fun hge k hk => ?_
  have hword : Octets.word 4 k.code <+: (b.drop 4).take n :=
    List.prefix_take_iff.mpr ⟨hk, by rw [Octets.length_word]; exact hge⟩
  exact hn.ne_payload hlen h _ (payload_of_leading_word hword).symm

end NoFrame

end Frame

namespace Source

variable {maxSize n : Nat} {s : Source}

open Nsq.Frame (Announces)

/-! ### One frame -/

theorem readFrame_of_cutShort (h : Frame.CutShort maxSize s.octets) :
    s.readFrame maxSize = (.error .shortRead, ⟨[]⟩) := by
  unfold readFrame readPayload
  rcases h with h | ⟨n, hn, h⟩
  · rw [take_of_lt h]
  · rcases Nat.lt_or_ge s.octets.length 4 with hlt | hge
    · rw [take_of_lt hlt]
    · obtain ⟨s', htake, hs'⟩ := take_of_le hge
      have hsize : Frame.checkSize maxSize (Octets.toInt (s.octets.take 4)) = .ok n :=
        (Frame.checkSize_eq_ok_iff (by rw [List.length_take]; omega)).mpr ⟨hn.take_eq, hn.1⟩
      have hshort : s'.octets.length < n := by rw [hs', List.length_drop]; omega
      simp only [htake, hsize, take_of_lt hshort]

/-- Of a frame whose size is not admitted, the size is taken. -/
theorem readFrame_of_not_announces (hlen : 4 ≤ s.octets.length)
    (h : ∀ n, ¬ Announces maxSize s.octets n) :
    ∃ fault s', s.readFrame maxSize = (.error fault, s') ∧ fault.kind = .invalidData ∧
      s'.octets = s.octets.drop 4 := by
  obtain ⟨s', htake, hs'⟩ := take_of_le hlen
  have hfour : (s.octets.take 4).length = 4 := by rw [List.length_take]; omega
  cases hsize : Frame.checkSize maxSize (Octets.toInt (s.octets.take 4)) with
  | ok n =>
    obtain ⟨hword, hadmits⟩ := (Frame.checkSize_eq_ok_iff hfour).mp hsize
    exact absurd ⟨hadmits, hword ▸ List.take_prefix 4 _⟩ (h n)
  | error fault =>
    refine ⟨fault, s', ?_, Frame.kind_of_checkSize hsize, hs'⟩
    simp only [readFrame, readPayload, htake, hsize]

/-- A frame that is there in full is taken in full, whatever its payload holds. -/
theorem readFrame_of_announces (h : Announces maxSize s.octets n) (hlen : 4 + n ≤ s.octets.length) :
    ∃ s', s.readFrame maxSize = (Frame.ofPayload ((s.octets.drop 4).take n), s') ∧
      s'.octets = s.octets.drop (4 + n) := by
  obtain ⟨s₁, htake, hs₁⟩ := take_of_le (s := s) (show 4 ≤ s.octets.length by omega)
  have hsize : Frame.checkSize maxSize (Octets.toInt (s.octets.take 4)) = .ok n :=
    (Frame.checkSize_eq_ok_iff (by rw [List.length_take]; omega)).mpr ⟨h.take_eq, h.1⟩
  obtain ⟨s', hrest, hs'⟩ := take_of_le (s := s₁) (n := n) (by rw [hs₁, List.length_drop]; omega)
  refine ⟨s', ?_, ?_⟩
  · simp only [readFrame, readPayload, htake, hsize, hrest, hs₁]
  · rw [hs', hs₁, List.drop_drop]

/-- **A frame is read exactly if octets start with it** and its size is admitted; what follows it
is left. -/
theorem readFrame_eq_ok_iff {f : Frame} :
    (∃ s', s.readFrame maxSize = (.ok f, s') ∧ s'.octets = s.octets.drop (8 + f.data.length)) ↔
      f.Leads maxSize s.octets := by
  have hpayload := f.length_payload
  rw [Frame.Leads, Frame.encode_prefix_iff, hpayload]
  constructor
  · rintro ⟨s', hread, -⟩
    rcases Frame.cutShort_or maxSize s.octets with hcut | ⟨hlen, hnone⟩ | ⟨n, hn, hlen⟩
    · rw [readFrame_of_cutShort hcut] at hread
      cases hread
    · obtain ⟨fault, s₁, hread₁, -⟩ := readFrame_of_not_announces hlen hnone
      rw [hread₁] at hread
      cases hread
    · obtain ⟨s₁, hread₁, -⟩ := readFrame_of_announces hn hlen
      rw [hread₁] at hread
      have hf := Frame.ofPayload_eq_ok_iff.mp (congrArg Prod.fst hread)
      obtain rfl : n = f.data.length + 4 := by
        rw [← hpayload, ← hf, List.length_take, List.length_drop]
        omega
      exact ⟨⟨hn.2, hf⟩, hn.1⟩
  · rintro ⟨⟨hword, htake⟩, hadmits⟩
    have hlen : 4 + (f.data.length + 4) ≤ s.octets.length := by
      have := congrArg List.length htake
      rw [List.length_take, List.length_drop, hpayload] at this
      omega
    obtain ⟨s', hread, hs'⟩ := readFrame_of_announces ⟨hadmits, hword⟩ hlen
    rw [htake, Frame.ofPayload_eq_ok_iff.mpr rfl] at hread
    exact ⟨s', hread, by rw [hs']; congr 1; omega⟩

/-- Octets that do not start with an admitted frame are a failure, which says whether they are cut
short. Otherwise the size is taken where it is not admitted, and the frame where its payload is too
short for a type or has none that is known. -/
theorem readFrame_eq_error
    (h : ∀ f : Frame, ¬ f.Leads maxSize s.octets) :
    ∃ fault s', s.readFrame maxSize = (.error fault, s') ∧
      (fault.kind = .unexpectedEof ↔ Frame.CutShort maxSize s.octets) ∧
      (¬ Frame.CutShort maxSize s.octets → fault.kind = .invalidData ∧
        ((∀ n, ¬ Announces maxSize s.octets n) → s'.octets = s.octets.drop 4) ∧
        ∀ n, Announces maxSize s.octets n → s'.octets = s.octets.drop (4 + n) ∧
          (n < 4 ∨ ∀ k : FrameKind, ¬ Octets.word 4 k.code <+: s.octets.drop 4)) := by
  rcases Frame.cutShort_or maxSize s.octets with hcut | ⟨hlen, hnone⟩ | ⟨n, hn, hlen⟩
  · exact ⟨_, _, readFrame_of_cutShort hcut, iff_of_true rfl hcut, fun hnot => absurd hcut hnot⟩
  · have hnot : ¬ Frame.CutShort maxSize s.octets := by
      rintro (hlt | ⟨n, hn, -⟩)
      · omega
      · exact hnone n hn
    obtain ⟨fault, s', hread, hkind, hs'⟩ := readFrame_of_not_announces hlen hnone
    exact ⟨fault, s', hread, iff_of_false (by rw [hkind]; decide) hnot, fun _ =>
      ⟨hkind, fun _ => hs', fun n hn => absurd hn (hnone n)⟩⟩
  · have hnot := hn.not_cutShort hlen
    obtain ⟨s', hread, hs'⟩ := readFrame_of_announces hn hlen
    cases hp : Frame.ofPayload ((s.octets.drop 4).take n) with
    | ok f => exact absurd (Frame.ofPayload_eq_ok_iff.mp hp) (hn.ne_payload hlen h f)
    | error fault =>
      have hkind := Frame.kind_of_ofPayload hp
      refine ⟨fault, s', hp ▸ hread, iff_of_false (by rw [hkind]; decide) hnot, fun _ =>
        ⟨hkind, fun hall => absurd hn (hall n), fun k hk => ?_⟩⟩
      obtain rfl := hk.unique hn
      exact ⟨hs', hn.lt_or_no_kind hlen h⟩

/-- What has arrived is judged as octets from a source are, however these are cut: what is
incomplete there is cut short here. -/
theorem readFrame_eq_front (maxSize : Nat) (s : Source) : (s.readFrame maxSize).1 =
    match Frame.front maxSize s.octets with
    | .incomplete => .error .shortRead
    | .fault fault => .error fault
    | .frame f _ => .ok f := by
  unfold Frame.front readFrame readPayload
  split_ifs with hlen
  · rw [take_of_lt hlen]
  · obtain ⟨s₁, htake, hs₁⟩ := take_of_le (Nat.not_lt.mp hlen)
    cases hsize : Frame.checkSize maxSize (Octets.toInt (s.octets.take 4)) with
    | error fault => simp only [htake, hsize]
    | ok n =>
      simp only [htake, hsize, ← hs₁]
      split_ifs with hbehind
      · rw [take_of_lt hbehind]
      · obtain ⟨s', hrest, -⟩ := take_of_le (Nat.not_lt.mp hbehind)
        simp only [hrest]
        cases Frame.ofPayload (s₁.octets.take n) <;> rfl

/-! ### Frames one after another -/

/-- Reads that many frames, up to the first failure. -/
def readFrames (maxSize : Nat) : (count : Nat) → Source → Except IoFault (List Frame) × Source
  | 0, s => (.ok [], s)
  | count + 1, s =>
    match s.readFrame maxSize with
    | (.error fault, s) => (.error fault, s)
    | (.ok f, s) =>
      let (fs, s) := readFrames maxSize count s
      (fs.map (f :: ·), s)

/-- Frames that stand one after another are read one after another, and what follows is left. -/
theorem readFrames_flatMap {fs : List Frame} {rest : Octets}
    (h : ∀ f ∈ fs, Frame.Admits maxSize (f.data.length + 4))
    (hs : s.octets = fs.flatMap Frame.encode ++ rest) :
    ∃ s', s.readFrames maxSize fs.length = (.ok fs, s') ∧ s'.octets = rest := by
  induction fs generalizing s with
  | nil => exact ⟨s, rfl, hs⟩
  | cons f fs ih =>
    obtain ⟨hf, hfs⟩ := List.forall_mem_cons.mp h
    rw [List.flatMap_cons, List.append_assoc] at hs
    obtain ⟨s₁, hread, hs₁⟩ := readFrame_eq_ok_iff.mpr ⟨hs ▸ List.prefix_append _ _, hf⟩
    rw [hs, ← f.length_encode, List.drop_left] at hs₁
    obtain ⟨s', hreads, hs'⟩ := ih hfs hs₁
    refine ⟨s', ?_, hs'⟩
    rw [List.length_cons, readFrames, hread]
    simp only [hreads]
    rfl

end Source

/-! ### Messages -/

namespace Message

/-- The numbers of a message fit their words, and its identifier has its length. -/
structure Fits (m : Message) : Prop where
  timestamp : -2 ^ 63 ≤ m.timestamp ∧ m.timestamp < 2 ^ 63
  attempts : m.attempts < 2 ^ 16
  id : m.id.length = messageIdLength

/-- A message that fits is read back, without what its connection adds. -/
theorem decode_encode {m : Message} (h : m.Fits) :
    decode m.encode = .ok { m with maxAttempts := 0, address := "" } := by
  obtain ⟨⟨low, high⟩, hattempts, hid⟩ := h
  have hrange : (2 : Int) ^ 64 = 256 ^ 8 := by decide
  have htime : Octets.toInt (Octets.word 8 (m.timestamp % 256 ^ 8).toNat) = m.timestamp :=
    Octets.toInt_word_emod (by omega) (by omega)
  have hcount : Octets.toNat (Octets.word 2 m.attempts) = m.attempts :=
    Octets.toNat_word_of_lt (by omega)
  have hword8 := Octets.length_word 8 (m.timestamp % 2 ^ 64).toNat
  have hword2 := Octets.length_word 2 m.attempts
  have hencode : m.encode = Octets.word 8 (m.timestamp % 2 ^ 64).toNat ++
      (Octets.word 2 m.attempts ++ (m.id ++ m.body)) := by
    rw [encode, List.append_assoc, List.append_assoc]
  have hdrop8 : m.encode.drop 8 = Octets.word 2 m.attempts ++ (m.id ++ m.body) := by
    rw [hencode, List.drop_left' hword8]
  have hdrop10 : m.encode.drop 10 = m.id ++ m.body := by
    rw [← List.drop_drop (i := 2) (j := 8), hdrop8, List.drop_left' hword2]
  have hdrop26 : m.encode.drop messageHeaderLength = m.body := by
    rw [messageHeaderLength, ← List.drop_drop, hdrop10, List.drop_left' hid]
  have hlen : ¬ m.encode.length < messageHeaderLength := by
    simp only [hencode, List.length_append, hword8, hword2, hid, messageHeaderLength]
    omega
  rw [decode, if_neg hlen, hdrop8, hdrop10, hdrop26, hencode, List.take_left' hword8,
    List.take_left' hword2, List.take_left' hid, hrange, htime, hcount]

/-- Data that are long enough are those of a message that fits. -/
theorem encode_of_decode {b : Octets} (h : messageHeaderLength ≤ b.length) :
    ∃ m : Message, decode b = .ok m ∧ m.Fits ∧ m.encode = b := by
  have hlen : 26 ≤ b.length := h
  have htimeLength : (b.take 8).length = 8 := by rw [List.length_take]; omega
  have hcountLength : ((b.drop 8).take 2).length = 2 := by
    rw [List.length_take, List.length_drop]; omega
  have hidLength : ((b.drop 10).take messageIdLength).length = messageIdLength := by
    rw [List.length_take, List.length_drop, messageIdLength]; omega
  have hlow := Octets.neg_le_toInt (b.take 8)
  have hhigh := Octets.toInt_lt (b.take 8)
  have hcount := Octets.toNat_lt ((b.drop 8).take 2)
  rw [htimeLength] at hlow hhigh
  rw [hcountLength] at hcount
  have htimeRange : -2 ^ 63 ≤ Octets.toInt (b.take 8) ∧ Octets.toInt (b.take 8) < 2 ^ 63 := by omega
  refine ⟨_, if_neg (by omega), ⟨htimeRange, hcount, hidLength⟩, ?_⟩
  have htime : Octets.word 8 (Octets.toInt (b.take 8) % 2 ^ 64).toNat = b.take 8 := by
    have hmod := Octets.toInt_emod (b.take 8)
    rw [htimeLength] at hmod
    have hrange : (2 : Int) ^ 64 = 256 ^ 8 := by decide
    rw [hrange, hmod, ← Octets.eq_word_of_length htimeLength]
  rw [encode, htime, ← Octets.eq_word_of_length hcountLength, ← List.take_add, ← List.take_add,
    messageHeaderLength, List.take_append_drop]

end Message

/-- **Frames are read exactly.** However the octets of a source are cut and whatever its greatest
size is: a frame is read if it stands in front, and then the rest is left; otherwise there is a
failure, which says whether the octets are cut short, and if they are not, takes the size where it
is not admitted and the whole frame where that has no type. So frames that stand one after another
are read one after another. The data of a message frame are taken apart into what they were made of
if they hold a header, and otherwise refused. -/
theorem Source.readFrame_exact (maxSize : Nat) :
    (∀ (s : Source) (f : Frame),
      (∃ s', s.readFrame maxSize = (.ok f, s') ∧ s'.octets = s.octets.drop (8 + f.data.length)) ↔
        f.Leads maxSize s.octets) ∧
    (∀ s : Source, (∀ f : Frame, ¬ f.Leads maxSize s.octets) →
      ∃ fault s', s.readFrame maxSize = (.error fault, s') ∧
        (fault.kind = .unexpectedEof ↔ Frame.CutShort maxSize s.octets) ∧
        (¬ Frame.CutShort maxSize s.octets → fault.kind = .invalidData ∧
          ((∀ n, ¬ Frame.Announces maxSize s.octets n) → s'.octets = s.octets.drop 4) ∧
          ∀ n, Frame.Announces maxSize s.octets n → s'.octets = s.octets.drop (4 + n) ∧
            (n < 4 ∨ ∀ k : FrameKind, ¬ Octets.word 4 k.code <+: s.octets.drop 4))) ∧
    (∀ (s : Source) (fs : List Frame) (rest : Octets),
      (∀ f ∈ fs, Frame.Admits maxSize (f.data.length + 4)) →
      s.octets = fs.flatMap Frame.encode ++ rest →
      ∃ s', s.readFrames maxSize fs.length = (.ok fs, s') ∧ s'.octets = rest) ∧
    (∀ b : Octets, if b.length < messageHeaderLength
      then ∃ fault, Message.decode b = .error fault ∧ fault.kind = .invalidData
      else ∃ m, Message.decode b = .ok m ∧ m.Fits ∧ m.encode = b) ∧
    ∀ m : Message, m.Fits →
      Message.decode m.encode = .ok { m with maxAttempts := 0, address := "" } := by
  refine ⟨fun s f => readFrame_eq_ok_iff, fun s => readFrame_eq_error,
    fun s fs rest => readFrames_flatMap, fun b => ?_, fun m => Message.decode_encode⟩
  split_ifs with hlen
  · exact ⟨.truncatedMessage, if_pos hlen, rfl⟩
  · exact Message.encode_of_decode (Nat.not_lt.mp hlen)

/-- A frame that comes in three pieces, and the octet behind it. -/
example : (Source.mk [[0, 0], [0, 6, 0, 0], [0, 0, 0x4F, 0x4B, 7]]).readFrame 0 =
    (.ok ⟨.response, [0x4F, 0x4B]⟩, ⟨[[7]]⟩) := by
  cbv

end Nsq
