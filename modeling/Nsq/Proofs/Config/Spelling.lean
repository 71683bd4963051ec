import Nsq.Proofs.Config.Assignments
import Nsq.Proofs.Number.Decimal

/-!
# Whole numbers handed over as text

An option that understands whole numbers understands their decimal text, with white space around it
or not, in the same way (`Config.set_text_of_int`). A text is trimmed before it is read, and neither
a digit nor the minus sign is white space; from there each sort of option has its own reader:

* a duration counts milliseconds, and the reader of units refuses what begins with a minus sign;
* a count is read back as it was written;
* of the words for a flag only `0` and `1` are decimal texts.
-/

namespace Nsq

namespace Text

/-- White space is dropped up to the first character that is none. -/
theorem dropWhile_isBlank_append {before core : List Char}
    (hb : ∀ c ∈ before, isBlank c = true) (hc : ∀ c ∈ core, isBlank c = false) (hne : core ≠ [])
    (after : List Char) : (before ++ core ++ after).dropWhile isBlank = core ++ after := by
  obtain ⟨d, ds, rfl⟩ := List.exists_cons_of_ne_nil hne
  have hd : ¬ isBlank d = true := by simp [hc d List.mem_cons_self]
  rw [List.append_assoc, List.dropWhile_append_of_pos hb, List.cons_append,
    List.dropWhile_cons_of_neg hd]

/-- White space is dropped around a text without any. -/
theorem trimmed_append {before core after : List Char} (hb : ∀ c ∈ before, isBlank c = true)
    (hc : ∀ c ∈ core, isBlank c = false) (hne : core ≠ [])
    (ha : ∀ c ∈ after, isBlank c = true) : trimmed (before ++ core ++ after) = core := by
  have hback : (core ++ after).reverse.dropWhile isBlank = core.reverse := by
    have h : (after.reverse ++ core.reverse ++ []).dropWhile isBlank = core.reverse ++ [] :=
      dropWhile_isBlank_append (fun c hmem => ha c (List.mem_reverse.mp hmem))
        (fun c hmem => hc c (List.mem_reverse.mp hmem)) (by simpa using hne) []
    simpa using h
  rw [trimmed, dropWhile_isBlank_append hb hc hne after, hback, List.reverse_reverse]

/-- A decimal text holds no white space. -/
theorem isBlank_of_mem_toString {n : Int} {c : Char} (h : c ∈ (toString n).toList) :
    isBlank c = false := by
  rcases isDigit_or_minus_of_mem h with hdigit | rfl
  · have hrange : 48 ≤ c.toNat ∧ c.toNat ≤ 57 := by
      simpa [Char.isDigit, UInt32.le_iff_toNat_le] using hdigit
    simp only [isBlank, Bool.or_eq_false_iff, Bool.and_eq_false_iff, decide_eq_false_iff_not,
      beq_eq_false_iff_ne]
    omega
  · decide

/-- A decimal text is what is left of it with white space around it. -/
theorem trimmed_around (n : Int) {before after : String}
    (hb : ∀ c ∈ before.toList, isBlank c = true) (ha : ∀ c ∈ after.toList, isBlank c = true) :
    trimmed (before ++ toString n ++ after).toList = (toString n).toList := by
  rw [String.toList_append, String.toList_append]
  exact trimmed_append hb (fun _ => isBlank_of_mem_toString) toList_toString_ne_nil ha

end Text

namespace Duration

/-- A decimal text counts milliseconds. -/
theorem parse_of_nonneg {n : Int} {s : String} (hs : Text.trimmed s.toList = (toString n).toList)
    (hn : 0 ≤ n) (hmax : n ≤ maxWord) : parse s = .ok (ofMillis n.toNat) := by
  have hread := readInt_toString (Int.le_refl 0) (by decide) hn hmax
  have hne : ¬ (toString n).toList.isEmpty = true := by
    simpa only [List.isEmpty_iff] using toList_toString_ne_nil
  unfold parse
  simp only [hs, hread, if_neg hne]

/-- There is no duration of a negative number: the sign is neither that of a word nor the beginning
of a number with a unit. -/
theorem parse_of_neg {n : Int} {s : String} (hs : Text.trimmed s.toList = (toString n).toList)
    (hn : n < 0) : parse s = .error (.malformed s) := by
  rw [toList_toString_of_neg hn] at hs
  have hread : readInt 0 maxWord ('-' :: Nat.toDigits 10 (-n).toNat) = .error .digit := by
    rw [readInt_minus Nat.toDigits_ne_nil]
    rfl
  have hsum : sumUnits s (Double.zero false) ('-' :: Nat.toDigits 10 (-n).toNat) =
      .error (.malformed s) := by
    rw [sumUnits]
    rfl
  simp [parse, hs, hread, hsum]

end Duration

namespace ConfigValue

/-- Whether a word holds a character that no decimal text holds. -/
def hasLetter (word : String) : Bool :=
  word.toList.any fun c => !c.isDigit && c != '-'

theorem hasLetter_toString (n : Int) : hasLetter (toString n) = false := by
  refine List.any_eq_false.mpr fun c hc => ?_
  rcases isDigit_or_minus_of_mem hc with hdigit | rfl
  · simp [hdigit]
  · simp

/-- Of words that begin with a decimal text and have a letter in each of the others, only the first
is a decimal text. -/
theorem toString_mem_cons_iff {n m : Int} {words : List String}
    (hwords : words.all hasLetter = true) : toString n ∈ toString m :: words ↔ n = m := by
  constructor
  · intro h
    rcases List.mem_cons.mp h with hfirst | hword
    · exact toString_int_injective hfirst
    · have hletter := List.all_eq_true.mp hwords _ hword
      rw [hasLetter_toString] at hletter
      exact absurd hletter (by simp)
  · rintro rfl
    exact List.mem_cons_self

theorem toString_mem_onWords_iff {n : Int} : toString n ∈ onWords ↔ n = 1 := by
  have hwords : onWords.tail.all hasLetter = true := by decide
  exact toString_mem_cons_iff (m := 1) hwords

theorem toString_mem_offWords_iff {n : Int} : toString n ∈ offWords ↔ n = 0 := by
  have hwords : offWords.tail.all hasLetter = true := by decide
  exact toString_mem_cons_iff (m := 0) hwords

variable {n : Int} {s : String}

/-- Milliseconds may be handed over as a number or as its text. -/
theorem toOption_toDuration_text (hs : Text.trimmed s.toList = (toString n).toList)
    (hmax : n ≤ maxInt64) : (toDuration (.text s)).toOption = (toDuration (.int n)).toOption := by
  have hword : maxInt64 ≤ Duration.maxWord := by decide
  rcases Int.lt_or_le n 0 with hn | hn
  · have htext : toDuration (.text s) = .error (.duration (.malformed s)) := by
      simp only [toDuration, Duration.parse_of_neg hs hn]
    have hint : toDuration (.int n) = .error .negativeDuration := if_pos hn
    rw [htext, hint]
    rfl
  · have htext : toDuration (.text s) = .ok (.ofMillis n.toNat) := by
      simp only [toDuration, Duration.parse_of_nonneg hs hn (Int.le_trans hmax hword)]
    have hint : toDuration (.int n) = .ok (.ofMillis n.toNat) := if_neg (by omega)
    rw [htext, hint]

/-- So may a whole number. -/
theorem toInt_text (hs : Text.trimmed s.toList = (toString n).toList) (hmin : minInt64 ≤ n)
    (hmax : n ≤ maxInt64) : toInt (.text s) = toInt (.int n) := by
  have hread : readInt64 (toString n).toList = .ok n :=
    readInt_toString (by decide) (by decide) hmin hmax
  simp only [toInt, hs, hread]

/-- So may a flag, as one and zero. -/
theorem toOption_toFlag_text (hs : Text.trimmed s.toList = (toString n).toList) :
    (toFlag (.text s)).toOption = (toFlag (.int n)).toOption := by
  simp only [toFlag, hs, String.ofList_toList, toString_mem_onWords_iff, toString_mem_offWords_iff]
  -- the words that are on are tried first, of the numbers the one that is off
  split_ifs with hon hoff
  · omega
  · rfl
  · rfl
  · rfl

end ConfigValue

namespace ConfigOption

/-- Whether an option understands whole numbers as milliseconds, as a count or as a flag. -/
def takesWhole : ConfigOption → Bool
  | duration _ | count _ | flag _ => true
  | _ => false

/-- Results that agree but for the faults are both faults or the same. -/
theorem ok_or_error_of_toOption_eq {ε ε' α : Type} {r : Except ε α} {r' : Except ε' α}
    (h : r.toOption = r'.toOption) :
    (∃ a, r = .ok a ∧ r' = .ok a) ∨ ∃ e e', r = .error e ∧ r' = .error e' := by
  cases r with
  | ok a =>
    cases r' with
    | ok a' =>
      obtain rfl : a = a' := by simpa [Except.toOption] using h
      exact .inl ⟨a, rfl, rfl⟩
    | error e' => simp [Except.toOption] at h
  | error e =>
    cases r' with
    | ok a' => simp [Except.toOption] at h
    | error e' => exact .inr ⟨e, e', rfl, rfl⟩

/-- What is done with a value that was read does not depend on the reason for refusing another. -/
theorem toOption_reading_bind {α β : Type} {o : ConfigOption} {r r' : Except ValueFault α}
    (h : r.toOption = r'.toOption) (f : α → Except ConfigFault β) :
    (Config.reading o r >>= f).toOption = (Config.reading o r' >>= f).toOption := by
  obtain ⟨a, rfl, rfl⟩ | ⟨e, e', rfl, rfl⟩ := ok_or_error_of_toOption_eq h
  · rfl
  · rfl

/-- A whole number and its decimal text are the same to an option. -/
theorem toOption_conversion_text {o : ConfigOption} (ho : o.takesWhole = true) {n : Int}
    {s : String} (hs : Text.trimmed s.toList = (toString n).toList) (hmin : minInt64 ≤ n)
    (hmax : n ≤ maxInt64) :
    (o.conversion (.text s)).toOption = (o.conversion (.int n)).toOption := by
  cases o with
  | duration k => exact toOption_reading_bind (ConfigValue.toOption_toDuration_text hs hmax) _
  | count k => simp only [conversion, ConfigValue.toInt_text hs hmin hmax]
  | flag k =>
    have h : (Config.reading (flag k) (ConfigValue.text s).toFlag >>= pure).toOption =
        (Config.reading (flag k) (ConfigValue.int n).toFlag >>= pure).toOption :=
      toOption_reading_bind (ConfigValue.toOption_toFlag_text hs) pure
    rwa [bind_pure, bind_pure] at h
  | jitter => simp [takesWhole] at ho
  | strategy => simp [takesWhole] at ho
  | text k => simp [takesWhole] at ho
  | authSecret => simp [takesWhole] at ho

end ConfigOption

namespace Config

/-- **A whole number and its decimal text set options alike.** Under any configuration an option
that understands whole numbers refuses both, or takes both and then holds the same; white space
around the text does not matter. -/
theorem set_text_of_int (c : Config) {o : ConfigOption} (ho : o.takesWhole = true) {n : Int}
    (hmin : minInt64 ≤ n) (hmax : n ≤ maxInt64) {before after : String}
    (hb : ∀ d ∈ before.toList, Text.isBlank d = true)
    (ha : ∀ d ∈ after.toList, Text.isBlank d = true) :
    (∃ c', c.set o.name (.int n) = .ok c' ∧
        c.set o.name (.text (before ++ toString n ++ after)) = .ok c') ∨
      ∃ fault fault', c.set o.name (.int n) = .error fault ∧
        c.set o.name (.text (before ++ toString n ++ after)) = .error fault' := by
  have h := ConfigOption.toOption_conversion_text ho (Text.trimmed_around n hb ha) hmin hmax
  rw [set_name, set_name]
  obtain ⟨x, htext, hint⟩ | ⟨fault', fault, htext, hint⟩ :=
    ConfigOption.ok_or_error_of_toOption_eq h
  · exact .inl ⟨c.put o x, by rw [hint]; rfl, by rw [htext]; rfl⟩
  · exact .inr ⟨fault, fault', by rw [hint]; rfl, by rw [htext]; rfl⟩

/-- One hundred milliseconds, as a number and as a text between blanks. -/
theorem set_text_of_int_dialTimeout :
    let c := initial "host"
    let o := ConfigOption.duration .dialTimeout
    (∃ c', c.set o.name (.int 100) = .ok c' ∧
        c.set o.name (.text (" " ++ toString (100 : Int) ++ "\t")) = .ok c') ∨
      ∃ fault fault', c.set o.name (.int 100) = .error fault ∧
        c.set o.name (.text (" " ++ toString (100 : Int) ++ "\t")) = .error fault' :=
  set_text_of_int (initial "host") (by decide) (by decide) (by decide)
    (List.all_eq_true.mp (by decide)) (List.all_eq_true.mp (by decide))

end Config

end Nsq
