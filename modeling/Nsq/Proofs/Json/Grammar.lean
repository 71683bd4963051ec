import Nsq.Json.Reader
import Mathlib.Data.List.TakeWhile
import Mathlib.Tactic.SplitIfs

/-!
# Strings and numbers of JSON

White space, strings and numbers as the grammar of JSON writes them, and what the reader makes of
them. A string tells by its closing quote where it ends (`readString_eq_some_iff`). A number does
not: it is read whole only where no octet follows that could go on with it (`Stops`), so that its
two directions are two theorems, `readUnsigned_eq_some` and `readUnsigned_append`.
-/

namespace Nsq.Json

/-! ### White space -/

/-- White space between tokens. -/
def Blank (b : Octets) : Prop := ∀ o ∈ b, isSpace o = true

theorem blank_nil : Blank [] := List.forall_mem_nil _

variable {b sp rest : Octets}

theorem skipSpace_append (h : Blank sp) (b : Octets) : skipSpace (sp ++ b) = skipSpace b :=
  List.dropWhile_append_of_pos h

theorem skipSpace_cons {o : UInt8} (h : isSpace o = false) (rest : Octets) :
    skipSpace (o :: rest) = o :: rest :=
  List.dropWhile_cons_of_neg (by rw [h]; exact Bool.false_ne_true)

/-- What is dropped is white space. -/
theorem exists_blank_append_skipSpace (b : Octets) : ∃ sp, Blank sp ∧ b = sp ++ skipSpace b :=
  ⟨b.takeWhile isSpace, fun _ => List.mem_takeWhile_imp, List.takeWhile_append_dropWhile.symm⟩

@[simp] theorem skipSpace_skipSpace (b : Octets) : skipSpace (skipSpace b) = skipSpace b := by
  obtain ⟨sp, hsp, hb⟩ := exists_blank_append_skipSpace b
  have h := skipSpace_append hsp (skipSpace b)
  rw [← hb] at h
  exact h.symm

theorem skipSpace_of_blank (h : Blank b) : skipSpace b = [] :=
  List.dropWhile_eq_nil_iff.mpr h

theorem blank_of_skipSpace (h : skipSpace b = []) : Blank b :=
  List.dropWhile_eq_nil_iff.mp h

/-! ### Strings -/

/-- A part of a string in writing: an octet, a letter behind a backslash, or four digits behind
`\u`. -/
inductive PieceText : Octets → Piece → Prop
  | plain {o : UInt8} (hquote : o ≠ 0x22) (hescape : o ≠ 0x5C) (hcontrol : 0x20 ≤ o) :
    PieceText [o] (.octet o)
  | escaped {e o : UInt8} (h : escaped? e = some o) : PieceText [0x5C, e] (.octet o)
  | unit {a b c d : UInt8} {n : Nat} (h : unit? a b c d = some n) :
    PieceText [0x5C, 0x75, a, b, c, d] (.unit n)

/-- Parts of a string, one behind another. -/
inductive PiecesText : Octets → List Piece → Prop
  | nil : PiecesText [] []
  | cons {t ts : Octets} {p : Piece} {ps : List Piece} (h : PieceText t p)
    (hs : PiecesText ts ps) : PiecesText (t ++ ts) (p :: ps)

/-- A string between its quotes, and the text that it stands for, if there is one. -/
inductive StringText : Octets → Option String → Prop
  | quoted {t : Octets} {ps : List Piece} (h : PiecesText t ps) :
    StringText (0x22 :: (t ++ [0x22])) ((spelled ps).bind Octets.text?)

theorem exists_text_of_pieces {ps : List Piece} (h : pieces b = some (ps, rest)) :
    ∃ t, PiecesText t ps ∧ b = t ++ 0x22 :: rest := by
  fun_induction pieces b generalizing ps rest with
  | case1 => cases h
  | case2 more =>
    cases h
    exact ⟨[], .nil, rfl⟩
  | case3 a b c d more _ ih =>
    obtain ⟨n, hn, h⟩ := Option.bind_eq_some_iff.mp h
    obtain ⟨next, hnext, h⟩ := Option.bind_eq_some_iff.mp h
    cases h
    obtain ⟨t, ht, rfl⟩ := ih hnext
    exact ⟨_, .cons (.unit hn) ht, rfl⟩
  | case4 e more _ _ ih =>
    obtain ⟨o, ho, h⟩ := Option.bind_eq_some_iff.mp h
    obtain ⟨next, hnext, h⟩ := Option.bind_eq_some_iff.mp h
    cases h
    obtain ⟨t, ht, rfl⟩ := ih hnext
    exact ⟨_, .cons (.escaped ho) ht, rfl⟩
  | case5 => cases h
  | case6 => cases h
  | case7 o more hquote hescape hcontrol ih =>
    obtain ⟨next, hnext, h⟩ := Option.bind_eq_some_iff.mp h
    cases h
    obtain ⟨t, ht, rfl⟩ := ih hnext
    exact ⟨_, .cons (.plain hquote hescape (UInt8.not_lt.mp hcontrol)) ht, rfl⟩

/-- No letter of an escape is the one that stands in front of digits. -/
theorem ne_of_escaped? {e o : UInt8} (h : escaped? e = some o) : e ≠ 0x75 := by
  rintro rfl
  have hnone : escaped? 0x75 = none := by decide
  rw [hnone] at h
  cases h

theorem pieces_text {t : Octets} {ps : List Piece} (h : PiecesText t ps) (rest : Octets) :
    pieces (t ++ 0x22 :: rest) = some (ps, rest) := by
  induction h with
  | nil => rw [List.nil_append, pieces.eq_def]; rfl
  | cons h hs ih =>
    cases h with
    | plain hquote hescape hcontrol =>
      rw [List.append_assoc, List.singleton_append, pieces.eq_def]
      dsimp only
      rw [if_neg hquote, if_neg hescape, if_neg (UInt8.not_lt.mpr hcontrol), ih]
      rfl
    | escaped he =>
      rw [List.append_assoc, List.cons_append, List.singleton_append, pieces.eq_def]
      dsimp only
      rw [if_neg (by decide), if_pos rfl]
      split
      · rename_i heq
        exact absurd (List.cons.inj heq).1 (ne_of_escaped? he)
      · rename_i heq
        obtain ⟨rfl, rfl⟩ := List.cons.inj heq
        rw [he, ih]
        rfl
      · rename_i heq
        cases heq
    | unit hn =>
      simp only [List.cons_append, List.nil_append]
      rw [pieces.eq_def]
      dsimp only
      rw [if_neg (by decide), if_pos rfl]
      change (unit? _ _ _ _).bind _ = _
      rw [hn]
      change (pieces _).bind _ = _
      rw [ih]
      rfl

theorem readString_eq_some_iff {s : Option String} :
    readString b = some (s, rest) ↔ ∃ t, StringText (0x22 :: t) s ∧ b = t ++ rest := by
  unfold readString
  constructor
  · intro h
    obtain ⟨⟨ps, rest'⟩, hps, heq⟩ := Option.map_eq_some_iff.mp h
    cases heq
    obtain ⟨t, ht, rfl⟩ := exists_text_of_pieces hps
    exact ⟨t ++ [0x22], .quoted ht, by rw [List.append_assoc, List.singleton_append]⟩
  · rintro ⟨t, ht, rfl⟩
    cases ht with
    | quoted ht =>
      rw [List.append_assoc, List.singleton_append, pieces_text ht]
      rfl

/-! ### Numbers -/

/-- Decimal digits, one or more. -/
def Digits (b : Octets) : Prop := b ≠ [] ∧ ∀ o ∈ b, isDigitOctet o = true

/-- A whole number in writing: a zero alone, or digits that do not begin with one. -/
inductive WholeText : Octets → Prop
  | zero : WholeText [0x30]
  | digits {o : UInt8} {ds : Octets} (h : Digits (o :: ds)) (hne : o ≠ 0x30) : WholeText (o :: ds)

/-- A fraction in writing, or nothing; with it whether there is one. -/
inductive FractionText : Octets → Bool → Prop
  | absent : FractionText [] false
  | present {ds : Octets} (h : Digits ds) : FractionText (0x2E :: ds) true

/-- An exponent in writing, or nothing; with it whether there is one. -/
inductive PowerText : Octets → Bool → Prop
  | absent : PowerText [] false
  | present {e : UInt8} {sign ds : Octets} (he : e = 0x65 ∨ e = 0x45)
    (hsign : sign = [] ∨ sign = [0x2B] ∨ sign = [0x2D]) (h : Digits ds) :
    PowerText (e :: (sign ++ ds)) true

/-- The value of a number with these digits in front of its point. -/
def numberValue (negative : Bool) (ds : Octets) (fraction power : Bool) : Json :=
  if fraction || power || (negative && digitsValue ds == 0) then real
  else if negative then int (-(digitsValue ds : Int))
  else int (digitsValue ds)

/-- A number in writing behind its sign. -/
inductive UnsignedText (negative : Bool) : Octets → Json → Prop
  | mk {ds f p : Octets} {fraction power : Bool} (hw : WholeText ds) (hf : FractionText f fraction)
    (hp : PowerText p power) :
    UnsignedText negative (ds ++ (f ++ p)) (numberValue negative ds fraction power)

/-- A number does not go on with this. -/
def Stops (rest : Octets) : Prop :=
  ∀ o ∈ rest.head?, isDigitOctet o = false ∧ o ≠ 0x2E ∧ o ≠ 0x65 ∧ o ≠ 0x45

theorem stops_nil : Stops [] := fun _ h => nomatch h

theorem stops_cons {o : UInt8} (h : isDigitOctet o = false ∧ o ≠ 0x2E ∧ o ≠ 0x65 ∧ o ≠ 0x45)
    (rest : Octets) : Stops (o :: rest) := by
  rintro _ ⟨⟩
  exact h

theorem exists_digits_of_readDigitRun {ds : Octets} (h : readDigitRun b = some (ds, rest)) :
    Digits ds ∧ b = ds ++ rest := by
  unfold readDigitRun at h
  dsimp only at h
  split_ifs at h with hne
  cases h
  exact ⟨⟨fun h => hne (by rw [h]; rfl), fun _ => List.mem_takeWhile_imp⟩,
    List.takeWhile_append_dropWhile.symm⟩

theorem readDigitRun_append {ds : Octets} (h : Digits ds)
    (hrest : ∀ o ∈ rest.head?, isDigitOctet o = false) :
    readDigitRun (ds ++ rest) = some (ds, rest) := by
  have htake : (ds ++ rest).takeWhile isDigitOctet = ds := by
    rw [List.takeWhile_append_of_pos h.2]
    cases rest with
    | nil => exact List.append_nil ds
    | cons o rest => simp [hrest o rfl]
  have hdrop : (ds ++ rest).dropWhile isDigitOctet = rest := by
    rw [List.dropWhile_append_of_pos h.2]
    cases rest with
    | nil => rfl
    | cons o rest => simp [hrest o rfl]
  unfold readDigitRun
  simp only [htake, hdrop, List.isEmpty_iff, if_neg h.1]

theorem exists_whole_of_readWhole {ds : Octets} (h : readWhole b = some (ds, rest)) :
    WholeText ds ∧ b = ds ++ rest := by
  unfold readWhole at h
  split at h
  · cases h
  · split at h
    · cases h
      exact ⟨.zero, rfl⟩
    · split_ifs at h
      cases h
      exact ⟨.zero, rfl⟩
  · rename_i b hnil hzero
    obtain ⟨hds, rfl⟩ := exists_digits_of_readDigitRun h
    obtain ⟨o, more, rfl⟩ := List.exists_cons_of_ne_nil hds.1
    refine ⟨.digits hds ?_, rfl⟩
    rintro rfl
    exact hzero _ rfl

theorem readWhole_append {ds : Octets} (h : WholeText ds)
    (hrest : ∀ o ∈ rest.head?, isDigitOctet o = false) :
    readWhole (ds ++ rest) = some (ds, rest) := by
  cases h with
  | zero =>
    cases rest with
    | nil => rfl
    | cons o rest =>
      have ho : ¬ isDigitOctet o = true := by
        rw [hrest o rfl]
        exact Bool.false_ne_true
      rw [List.singleton_append, readWhole.eq_def]
      exact if_neg ho
  | @digits o ds hds hne =>
    rw [List.cons_append, readWhole.eq_def]
    split
    · rename_i heq
      cases heq
    · rename_i heq
      exact absurd (List.cons.inj heq).1 hne
    · exact readDigitRun_append hds hrest

theorem exists_fraction_of_readFraction {fraction : Bool}
    (h : readFraction b = some (fraction, rest)) :
    ∃ f, FractionText f fraction ∧ b = f ++ rest := by
  unfold readFraction at h
  split at h
  · obtain ⟨⟨ds, rest'⟩, hds, heq⟩ := Option.map_eq_some_iff.mp h
    cases heq
    obtain ⟨hdigits, rfl⟩ := exists_digits_of_readDigitRun hds
    exact ⟨_, .present hdigits, rfl⟩
  · cases h
    exact ⟨[], .absent, rfl⟩

theorem readFraction_append {f : Octets} {fraction : Bool} (h : FractionText f fraction)
    (hrest : ∀ o ∈ rest.head?, isDigitOctet o = false ∧ o ≠ 0x2E) :
    readFraction (f ++ rest) = some (fraction, rest) := by
  cases h with
  | absent =>
    rw [List.nil_append]
    unfold readFraction
    split
    · exact absurd rfl (hrest _ rfl).2
    · rfl
  | present hds =>
    rw [List.cons_append, readFraction, readDigitRun_append hds fun o ho => (hrest o ho).1]
    rfl

theorem exists_power_of_readPower {power : Bool} (h : readPower b = some (power, rest)) :
    ∃ p, PowerText p power ∧ b = p ++ rest := by
  unfold readPower at h
  split at h
  · cases h
    exact ⟨[], .absent, rfl⟩
  · rename_i e more
    dsimp only at h
    split_ifs at h with he
    · obtain ⟨⟨ds, rest'⟩, hds, heq⟩ := Option.map_eq_some_iff.mp h
      cases heq
      obtain ⟨hdigits, hmore⟩ := exists_digits_of_readDigitRun hds
      split at hmore
      · exact ⟨_, .present he (.inr (.inl rfl)) hdigits, by rw [hmore]; rfl⟩
      · exact ⟨_, .present he (.inr (.inr rfl)) hdigits, by rw [hmore]; rfl⟩
      · exact ⟨_, .present he (.inl rfl) hdigits, by rw [hmore]; rfl⟩
    · cases h
      exact ⟨[], .absent, rfl⟩

theorem readPower_append {p : Octets} {power : Bool} (h : PowerText p power) (hrest : Stops rest) :
    readPower (p ++ rest) = some (power, rest) := by
  have hdigit : ∀ o ∈ rest.head?, isDigitOctet o = false := fun o ho => (hrest o ho).1
  cases h with
  | absent =>
    rw [List.nil_append]
    cases rest with
    | nil => rfl
    | cons o rest =>
      rw [readPower.eq_def]
      exact if_neg (not_or_intro (hrest o rfl).2.2.1 (hrest o rfl).2.2.2)
  | present he hsign hds =>
    rw [List.cons_append, readPower.eq_def]
    dsimp only
    rw [if_pos he, List.append_assoc]
    rcases hsign with rfl | rfl | rfl
    · obtain ⟨d, ds, rfl⟩ := List.exists_cons_of_ne_nil hds.1
      -- A digit is none of the two signs, so that no sign is taken away here.
      have hd : isDigitOctet d = true := hds.2 d List.mem_cons_self
      split
      · rename_i heq
        obtain ⟨rfl, -⟩ := List.cons.inj heq
        exact absurd hd (by decide)
      · rename_i heq
        obtain ⟨rfl, -⟩ := List.cons.inj heq
        exact absurd hd (by decide)
      · rw [List.nil_append, readDigitRun_append hds hdigit]
        rfl
    · exact congrArg (Option.map _) (readDigitRun_append hds hdigit)
    · exact congrArg (Option.map _) (readDigitRun_append hds hdigit)

theorem readUnsigned_eq_some {negative : Bool} {j : Json}
    (h : readUnsigned negative b = some (j, rest)) :
    ∃ t, UnsignedText negative t j ∧ b = t ++ rest := by
  unfold readUnsigned at h
  obtain ⟨⟨ds, b₁⟩, hwhole, h₁⟩ := Option.bind_eq_some_iff.mp h
  obtain ⟨⟨fraction, b₂⟩, hfraction, h₂⟩ := Option.bind_eq_some_iff.mp h₁
  obtain ⟨⟨power, b₃⟩, hpower, h₃⟩ := Option.bind_eq_some_iff.mp h₂
  cases h₃
  obtain ⟨hw, rfl⟩ := exists_whole_of_readWhole hwhole
  obtain ⟨f, hf, rfl⟩ := exists_fraction_of_readFraction hfraction
  obtain ⟨p, hp, rfl⟩ := exists_power_of_readPower hpower
  exact ⟨_, .mk hw hf hp, by simp only [List.append_assoc]⟩

/-- Behind a fraction or an exponent, if there is one, a number goes on no more than it would
without. -/
theorem head?_power {p : Octets} {power : Bool} (h : PowerText p power) (hrest : Stops rest) :
    ∀ o ∈ (p ++ rest).head?, isDigitOctet o = false ∧ o ≠ 0x2E := by
  cases h with
  | absent => exact fun o ho => ⟨(hrest o ho).1, (hrest o ho).2.1⟩
  | present he =>
    intro o ho
    obtain rfl := Option.some.inj ho
    rcases he with rfl | rfl <;> exact ⟨by decide, by decide⟩

theorem head?_fraction {f : Octets} {fraction : Bool} (h : FractionText f fraction)
    (hrest : ∀ o ∈ rest.head?, isDigitOctet o = false) :
    ∀ o ∈ (f ++ rest).head?, isDigitOctet o = false := by
  cases h with
  | absent => exact hrest
  | present =>
    intro o ho
    obtain rfl := Option.some.inj ho
    decide

theorem readUnsigned_append {negative : Bool} {t : Octets} {j : Json}
    (h : UnsignedText negative t j) (hrest : Stops rest) :
    readUnsigned negative (t ++ rest) = some (j, rest) := by
  cases h with
  | mk hw hf hp =>
    have hpower := head?_power hp hrest
    have hfraction := head?_fraction hf fun o ho => (hpower o ho).1
    rw [List.append_assoc, List.append_assoc]
    unfold readUnsigned
    rw [readWhole_append hw hfraction]
    change (readFraction _).bind _ = _
    rw [readFraction_append hf hpower]
    change (readPower _).bind _ = _
    rw [readPower_append hp hrest]
    rfl

end Nsq.Json
