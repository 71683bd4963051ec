import Nsq.Duration.Grammar
import Nsq.Proofs.Number.Decimal
import Mathlib.Data.List.TakeWhile

/-!
# Durations are what the grammar says

A duration is written as a count of milliseconds (`IsMillis`) or as terms one after another
(`IsSum`), each a number and the name of a unit (`Term`). A number holds digits and points only and
the name of a unit none of them, so the places where the reader cuts are the ones between the parts
of terms, and what it accepts is the grammar (`sumUnits_cases`, `parse_accepts_exactly`).

The reader takes one term a round, and each round leaves a shorter text: after as many rounds as
there are characters nothing is left, or there was a fault (`rounds_eq_sumUnits`).
-/

namespace Nsq.Duration

/-! ### The grammar -/

/-- A text counts milliseconds: digits, perhaps behind a plus sign, for a number below `2 ^ 64`. -/
def IsMillis (s : List Char) (n : Nat) : Prop :=
  ∃ ds : List Char, (s = ds ∨ s = '+' :: ds) ∧ ds ≠ [] ∧ (∀ c ∈ ds, c.isDigit = true) ∧
    n = Nat.ofDigitChars 10 ds 0 ∧ n < 2 ^ 64

/-- Digits with at most one point among them, and at least one digit. -/
structure IsNumber (cs : List Char) : Prop where
  numeral : ∀ c ∈ cs, c.isDigit = true ∨ c = '.'
  digit : ∃ c ∈ cs, c.isDigit = true
  point : cs.count '.' ≤ 1

/-- The names of the units. -/
def unitNames : List (List Char) :=
  ["ns", "us", "µs", "ms", "s", "m", "h"].map String.toList

/-- A number and the name of its unit. -/
structure Term where
  /-- The number in writing. -/
  number : List Char
  /-- The name of the unit. -/
  unit : List Char
  isNumber : IsNumber number
  isUnit : unit ∈ unitNames

/-- A term in writing. -/
def Term.text (t : Term) : List Char := t.number ++ t.unit

/-- A text is one term or more. -/
def IsSum (s : List Char) : Prop :=
  ∃ terms : List Term, terms ≠ [] ∧ s = terms.flatMap Term.text

/-! ### Parts of terms -/

theorem isNumeral_iff {c : Char} : isNumeral c = true ↔ c.isDigit = true ∨ c = '.' := by
  rw [isNumeral, Bool.or_eq_true, beq_iff_eq]
  rfl

theorem isSome_ofName?_iff {name : List Char} :
    (Unit.ofName? name).isSome = true ↔ name ∈ unitNames := by
  have hnames : unitNames = [['n', 's'], ['u', 's'], ['µ', 's'], ['m', 's'], ['s'], ['m'], ['h']] :=
    rfl
  unfold Unit.ofName?
  rw [hnames]
  split_ifs with hns hus hms hs hm hh
  · simp [hns]
  · rcases hus with hus | hus <;> simp [hus]
  · simp [hms]
  · simp [hs]
  · simp [hm]
  · simp [hh]
  · simp_all

theorem unit_of_mem {name : List Char} (h : name ∈ unitNames) :
    name ≠ [] ∧ ∀ c ∈ name, isNumeral c = false := by
  have hall : (unitNames.all fun name => !name.isEmpty && name.all (! isNumeral ·)) = true := by
    decide
  simpa using List.all_eq_true.mp hall name h

/-- Digits and points are digits alone, or digits around one point or more. -/
theorem cases_of_numeral {cs : List Char} (hcs : ∀ c ∈ cs, c.isDigit = true ∨ c = '.') :
    (∀ c ∈ cs, c.isDigit = true) ∨
      ∃ whole rest, cs = whole ++ '.' :: rest ∧ ∀ c ∈ whole, c.isDigit = true := by
  induction cs with
  | nil => exact .inl (List.forall_mem_nil _)
  | cons c cs ih =>
    obtain ⟨hc, hcs⟩ := List.forall_mem_cons.mp hcs
    rcases hc with hc | rfl
    · rcases ih hcs with hall | ⟨whole, rest, rfl, hwhole⟩
      · exact .inl (List.forall_mem_cons.mpr ⟨hc, hall⟩)
      · exact .inr ⟨c :: whole, rest, rfl, List.forall_mem_cons.mpr ⟨hc, hwhole⟩⟩
    · exact .inr ⟨[], cs, rfl, List.forall_mem_nil _⟩

theorem count_point {ds : List Char} (hds : ∀ c ∈ ds, c.isDigit = true) : ds.count '.' = 0 :=
  List.count_eq_zero.mpr fun h => absurd (hds '.' h) (by decide)

/-- Of digits and points the ones with a digit and at most one point are read as a number. -/
theorem readDouble_isOk_iff {cs : List Char} (hcs : ∀ c ∈ cs, c.isDigit = true ∨ c = '.') :
    (∃ v, readDouble cs = .ok v) ↔ IsNumber cs := by
  rcases cases_of_numeral hcs with hall | ⟨whole, rest, rfl, hwhole⟩
  · -- no point
    rcases cs with _ | ⟨c, cs⟩
    · exact iff_of_false (fun ⟨v, hv⟩ => nomatch hv) fun h => by simpa using h.digit
    · refine iff_of_true ⟨_, readDouble_digits hall (List.cons_ne_nil c cs)⟩ ⟨hcs, ?_, ?_⟩
      · exact ⟨c, List.mem_cons_self, hall c List.mem_cons_self⟩
      · rw [count_point hall]
        exact Nat.zero_le 1
  · have hrest : ∀ c ∈ rest, c.isDigit = true ∨ c = '.' := fun c hc =>
      hcs c (List.mem_append_right _ (List.mem_cons_of_mem _ hc))
    have hcount : (whole ++ '.' :: rest).count '.' = rest.count '.' + 1 := by
      rw [List.count_append, count_point hwhole, List.count_cons_self, Nat.zero_add]
    rcases cases_of_numeral hrest with hall | ⟨fraction, more, rfl, hfraction⟩
    · -- one point
      have hpoint : (whole ++ '.' :: rest).count '.' ≤ 1 := by
        rw [hcount, count_point hall]
      rw [readDouble_point hwhole hall]
      split_ifs with hempty
      · obtain ⟨rfl, rfl⟩ := hempty
        exact iff_of_false (fun ⟨v, hv⟩ => nomatch hv) fun h => by simpa using h.digit
      · refine iff_of_true ⟨_, rfl⟩ ⟨hcs, ?_, hpoint⟩
        rcases not_and_or.mp hempty with hne | hne
        · obtain ⟨c, hc⟩ := List.exists_mem_of_ne_nil whole hne
          exact ⟨c, List.mem_append_left _ hc, hwhole c hc⟩
        · obtain ⟨c, hc⟩ := List.exists_mem_of_ne_nil rest hne
          exact ⟨c, List.mem_append_right _ (List.mem_cons_of_mem _ hc), hall c hc⟩
    · -- two points or more
      rw [readDouble_points hwhole hfraction]
      refine iff_of_false (fun ⟨v, hv⟩ => nomatch hv) fun h => ?_
      have htwo := h.point
      rw [hcount, List.count_append, List.count_cons_self] at htwo
      omega

/-- A number begins with a digit or a point, and holds nothing else. -/
theorem IsNumber.exists_cons {cs : List Char} (h : IsNumber cs) :
    ∃ d ds, cs = d :: ds ∧ isNumeral d = true ∧ ∀ c ∈ ds, isNumeral c = true := by
  obtain ⟨c, hc, -⟩ := h.digit
  obtain ⟨d, ds, rfl⟩ := List.exists_cons_of_ne_nil (List.ne_nil_of_mem hc)
  obtain ⟨hd, hds⟩ := List.forall_mem_cons.mp h.numeral
  exact ⟨d, ds, rfl, isNumeral_iff.mpr hd, fun c hc => isNumeral_iff.mpr (hds c hc)⟩

/-! ### One round -/

/-- One round of the sum: a number and what stands up to the next one are taken from the front. -/
def round (input : String) (total : Double) (rest : List Char) :
    Except DurationFault (Double × List Char) :=
  let number := rest.takeWhile isNumeral
  let tail := rest.dropWhile isNumeral
  if number.isEmpty then .error (.malformed input)
  else if tail.isEmpty then .error (.missingUnit input)
  else
    match readDouble number with
    | .error _ => .error (.malformed input)
    | .ok value =>
      let unit := tail.takeWhile fun c => !isNumeral c
      match Unit.ofName? unit with
      | none => .error (.unknownUnit (String.ofList unit) input)
      | some u => .ok (total + value * u.scale, tail.dropWhile fun c => !isNumeral c)

/-- What begins with a number ends here, or goes on with another number. -/
def Parted (rest : List Char) : Prop := ∀ c ∈ rest.head?, isNumeral c = true

variable {input : String} {total total' : Double} {s rest : List Char}

/-- The sum is what is left after a round, summed up. -/
theorem sumUnits_of_ne_nil (h : s ≠ []) :
    sumUnits input total s =
      (round input total s).bind fun next => sumUnits input next.1 next.2 := by
  obtain ⟨c, cs, rfl⟩ := List.exists_cons_of_ne_nil h
  rw [sumUnits]
  unfold round
  by_cases hc : isNumeral c = true
  · rw [List.takeWhile_cons_of_pos hc, List.dropWhile_cons_of_pos hc, if_pos hc]
    simp only [List.isEmpty_cons, Bool.false_eq_true, if_false]
    split_ifs
    · rfl
    · cases readDouble (c :: cs.takeWhile isNumeral) with
      | error _ => rfl
      | ok value =>
        cases Unit.ofName? ((cs.dropWhile isNumeral).takeWhile fun c => !isNumeral c) with
        | none => rfl
        | some u => rfl
  · rw [List.takeWhile_cons_of_neg hc, if_neg hc]
    rfl

/-- A round takes a term. -/
theorem exists_term_of_round (h : round input total s = .ok (total', rest)) :
    ∃ t : Term, s = t.text ++ rest := by
  unfold round at h
  dsimp only at h
  split_ifs at h
  split at h
  · cases h
  · rename_i value hvalue
    split at h
    · cases h
    · rename_i u hu
      obtain ⟨-, rfl⟩ := Prod.mk.inj (Except.ok.inj h)
      have hnumeral : ∀ d ∈ s.takeWhile isNumeral, d.isDigit = true ∨ d = '.' :=
        fun d hd => isNumeral_iff.mp (List.mem_takeWhile_imp hd)
      refine ⟨⟨_, _, (readDouble_isOk_iff hnumeral).mp ⟨value, hvalue⟩,
        isSome_ofName?_iff.mp (Option.isSome_of_eq_some hu)⟩, ?_⟩
      rw [Term.text, List.append_assoc, List.takeWhile_append_dropWhile,
        List.takeWhile_append_dropWhile]

/-- A number ends where the name of a unit begins, and the name where the next number begins. -/
theorem cut_term (t : Term) (hrest : Parted rest) :
    (t.text ++ rest).takeWhile isNumeral = t.number ∧
      (t.text ++ rest).dropWhile isNumeral = t.unit ++ rest ∧
      (t.unit ++ rest).takeWhile (fun c => !isNumeral c) = t.unit ∧
      (t.unit ++ rest).dropWhile (fun c => !isNumeral c) = rest := by
  have hnumber : ∀ c ∈ t.number, isNumeral c = true :=
    fun c hc => isNumeral_iff.mpr (t.isNumber.numeral c hc)
  obtain ⟨hne, hall⟩ := unit_of_mem t.isUnit
  have hunit : ∀ c ∈ t.unit, (!isNumeral c) = true := fun c hc => by rw [hall c hc, Bool.not_false]
  obtain ⟨u, us, hu⟩ := List.exists_cons_of_ne_nil hne
  have hhead : ¬ isNumeral u = true := by
    rw [hall u (by rw [hu]; exact List.mem_cons_self)]
    exact Bool.false_ne_true
  rw [Term.text, List.append_assoc, List.takeWhile_append_of_pos hnumber,
    List.dropWhile_append_of_pos hnumber, List.takeWhile_append_of_pos hunit,
    List.dropWhile_append_of_pos hunit, hu, List.cons_append, List.takeWhile_cons_of_neg hhead,
    List.dropWhile_cons_of_neg hhead]
  refine ⟨List.append_nil _, rfl, ?_⟩
  cases rest with
  | nil => exact ⟨List.append_nil _, rfl⟩
  | cons c cs =>
    have hc : isNumeral c = true := hrest c rfl
    simp [hc]

/-- A term is taken in a round. -/
theorem exists_round_of_term (input : String) (t : Term) (hrest : Parted rest) (total : Double) :
    ∃ total', round input total (t.text ++ rest) = .ok (total', rest) := by
  obtain ⟨value, hvalue⟩ := (readDouble_isOk_iff t.isNumber.numeral).mpr t.isNumber
  obtain ⟨u, hu⟩ := Option.isSome_iff_exists.mp (isSome_ofName?_iff.mpr t.isUnit)
  obtain ⟨htake, hdrop, htake', hdrop'⟩ := cut_term t hrest
  have hnumber : ¬ t.number.isEmpty = true := by
    obtain ⟨d, ds, hd, -⟩ := t.isNumber.exists_cons
    simp [hd]
  have htail : ¬ (t.unit ++ rest).isEmpty = true := by
    simp [(unit_of_mem t.isUnit).1]
  refine ⟨total + value * u.scale, ?_⟩
  unfold round
  simp only [htake, hdrop, htake', hdrop', hvalue, hu, if_neg hnumber, if_neg htail]

/-- The faults of a round. -/
inductive RoundFault (input : String) : DurationFault → Prop
  | missingUnit : RoundFault input (.missingUnit input)
  | malformed : RoundFault input (.malformed input)
  | unknownUnit (unit : String) : RoundFault input (.unknownUnit unit input)

theorem roundFault {fault : DurationFault} (h : round input total s = .error fault) :
    RoundFault input fault := by
  unfold round at h
  dsimp only at h
  split_ifs at h
  · cases h
    exact .malformed
  · cases h
    exact .missingUnit
  · split at h
    · cases h
      exact .malformed
    · split at h
      · cases h
        exact .unknownUnit _
      · cases h

theorem length_lt_of_round (h : round input total s = .ok (total', rest)) :
    rest.length < s.length := by
  obtain ⟨t, rfl⟩ := exists_term_of_round h
  obtain ⟨d, ds, hd, -⟩ := t.isNumber.exists_cons
  simp only [Term.text, hd, List.length_append, List.length_cons]
  omega

/-! ### Rounds -/

/-- So many rounds, or as many as it takes until nothing is left or there is a fault. -/
def rounds (input : String) : (n : Nat) → Double → List Char →
    Except DurationFault (Double × List Char)
  | 0, total, rest => .ok (total, rest)
  | n + 1, total, rest =>
    if rest.isEmpty then .ok (total, rest)
    else (round input total rest).bind fun next => rounds input n next.1 next.2

/-- **The sum ends.** After as many rounds as there are characters nothing is left, or there was a
fault. -/
theorem rounds_eq_sumUnits {n : Nat} (h : s.length ≤ n) :
    rounds input n total s = (sumUnits input total s).map fun total => (total, []) := by
  induction n generalizing total s with
  | zero =>
    obtain rfl := List.eq_nil_of_length_eq_zero (Nat.le_zero.mp h)
    rw [rounds, sumUnits]
    rfl
  | succ n ih =>
    rw [rounds]
    split_ifs with hs
    · obtain rfl := List.isEmpty_iff.mp hs
      rw [sumUnits]
      rfl
    · rw [sumUnits_of_ne_nil fun hnil => hs (List.isEmpty_iff.mpr hnil)]
      cases hround : round input total s with
      | error fault => rfl
      | ok next =>
        have hlt := length_lt_of_round hround
        exact ih (by omega)

/-- What is added up is terms, and what is not added up is refused as a round refuses it. -/
theorem sumUnits_cases (input : String) (total : Double) (s : List Char) :
    (∃ t, sumUnits input total s = .ok t) ∧ (∃ terms : List Term, s = terms.flatMap Term.text) ∨
      ∃ fault, sumUnits input total s = .error fault ∧ RoundFault input fault := by
  induction h : s.length using Nat.strong_induction_on generalizing total s with
  | _ n ih =>
    by_cases hs : s = []
    · subst hs
      exact .inl ⟨⟨total, by rw [sumUnits]⟩, [], rfl⟩
    · rw [sumUnits_of_ne_nil hs]
      cases hround : round input total s with
      | error fault => exact .inr ⟨fault, rfl, roundFault hround⟩
      | ok next =>
        have hlt := length_lt_of_round hround
        obtain ⟨t, ht⟩ := exists_term_of_round hround
        rcases ih _ (h ▸ hlt) next.1 next.2 rfl with ⟨hok, terms, hterms⟩ | hfault
        · exact .inl ⟨hok, t :: terms, by rw [List.flatMap_cons, ← hterms, ht]⟩
        · exact .inr hfault

theorem parted_flatMap (terms : List Term) : Parted (terms.flatMap Term.text) := by
  cases terms with
  | nil => exact fun c hc => nomatch hc
  | cons t terms =>
    obtain ⟨d, ds, hnumber, hd, -⟩ := t.isNumber.exists_cons
    intro c hc
    rw [List.flatMap_cons, Term.text, hnumber] at hc
    obtain rfl := Option.some.inj hc
    exact hd

/-- Terms are added up. -/
theorem exists_sumUnits_of_terms (input : String) (terms : List Term) (total : Double) :
    ∃ t, sumUnits input total (terms.flatMap Term.text) = .ok t := by
  induction terms generalizing total with
  | nil => exact ⟨total, by rw [List.flatMap_nil, sumUnits]⟩
  | cons t terms ih =>
    obtain ⟨total', hround⟩ := exists_round_of_term input t (parted_flatMap terms) total
    obtain ⟨d, ds, hnumber, -⟩ := t.isNumber.exists_cons
    have hne : (t :: terms).flatMap Term.text ≠ [] := by
      simp [Term.text, hnumber]
    rw [sumUnits_of_ne_nil hne, List.flatMap_cons, hround]
    exact ih total'

/-! ### Durations -/

theorem readInt_eq_ok_iff {k : Int} :
    readInt 0 maxWord s = .ok k ↔ ∃ n : Nat, IsMillis s n ∧ k = n := by
  have hmax : maxWord = 2 ^ 64 - 1 := rfl
  rw [readInt_zero_eq_ok_iff (by decide)]
  constructor
  · rintro ⟨ds, hs, hne, hds, rfl, hle⟩
    exact ⟨_, ⟨ds, hs, hne, hds, rfl, by omega⟩, rfl⟩
  · rintro ⟨n, ⟨ds, hs, hne, hds, rfl, hlt⟩, rfl⟩
    exact ⟨ds, hs, hne, hds, rfl, by omega⟩

theorem IsMillis.ne_nil {n : Nat} (h : IsMillis s n) : s ≠ [] := by
  obtain ⟨ds, rfl | rfl, hne, -⟩ := h
  · exact hne
  · exact List.cons_ne_nil _ _

theorem IsSum.ne_nil (h : IsSum s) : s ≠ [] := by
  obtain ⟨terms, hne, rfl⟩ := h
  obtain ⟨t, terms, rfl⟩ := List.exists_cons_of_ne_nil hne
  obtain ⟨d, ds, hd, -⟩ := t.isNumber.exists_cons
  simp [Term.text, hd]

/-- A count of milliseconds fits a duration. -/
theorem nanos_ofMillis {n : Nat} (h : n < 2 ^ 64) : (ofMillis n).nanos = n * 10 ^ 6 := by
  simp only [ofMillis, saturating]
  omega

theorem parse_of_isMillis {n : Nat} (h : IsMillis (Text.trimmed input.toList) n) :
    parse input = .ok (ofMillis n) := by
  unfold parse
  simp only [List.isEmpty_iff, if_neg h.ne_nil, readInt_eq_ok_iff.mpr ⟨n, h, rfl⟩,
    Int.toNat_natCast]

/-- What is no count of milliseconds is read as a sum. -/
theorem parse_of_not_isMillis (h : ∀ n, ¬ IsMillis (Text.trimmed input.toList) n)
    (hne : Text.trimmed input.toList ≠ []) :
    parse input =
      match sumUnits input (Double.zero false) (Text.trimmed input.toList) with
      | .error fault => .error fault
      | .ok total => (ofDouble? total).elim (.error (.unrepresentable input)) .ok := by
  unfold parse
  simp only [List.isEmpty_iff, if_neg hne]
  cases hread : readInt 0 maxWord (Text.trimmed input.toList) with
  | ok k =>
    obtain ⟨n, hn, -⟩ := readInt_eq_ok_iff.mp hread
    exact absurd hn (h n)
  | error _ =>
    cases sumUnits input (Double.zero false) (Text.trimmed input.toList) with
    | error fault => rfl
    | ok total =>
      cases hd : ofDouble? total <;> simp [hd]

theorem parse_of_isSum (h : IsSum (Text.trimmed input.toList)) :
    (∃ d, parse input = .ok d) ∨ parse input = .error (.unrepresentable input) := by
  by_cases hm : ∃ n, IsMillis (Text.trimmed input.toList) n
  · obtain ⟨n, hn⟩ := hm
    exact .inl ⟨_, parse_of_isMillis hn⟩
  · obtain ⟨terms, -, hterms⟩ := id h
    obtain ⟨total, htotal⟩ :=
      exists_sumUnits_of_terms input terms (Double.zero false)
    rw [parse_of_not_isMillis (not_exists.mp hm) h.ne_nil, hterms, htotal]
    dsimp only
    cases ofDouble? total with
    | none => exact .inr rfl
    | some d => exact .inl ⟨d, rfl⟩

theorem parse_of_other (h : ¬ ((∃ n, IsMillis (Text.trimmed input.toList) n) ∨
    IsSum (Text.trimmed input.toList))) :
    parse input = .error .empty ∨ ∃ fault, parse input = .error fault ∧ RoundFault input fault := by
  obtain ⟨hm, hs⟩ := not_or.mp h
  by_cases hne : Text.trimmed input.toList = []
  · left
    unfold parse
    simp only [List.isEmpty_iff, if_pos hne]
  · right
    rw [parse_of_not_isMillis (not_exists.mp hm) hne]
    rcases sumUnits_cases input (Double.zero false) (Text.trimmed input.toList) with
      ⟨-, terms, hterms⟩ | ⟨fault, hsum, hfault⟩
    · -- no terms would leave nothing
      refine absurd ⟨terms, ?_, hterms⟩ hs
      rintro rfl
      exact hne hterms
    · rw [hsum]
      exact ⟨fault, rfl, hfault⟩

/-- **Durations are what the grammar says.** The rounds of the reader end. A text is accepted, up to
a sum that is no duration, exactly if it is, without the white space around it, a count of
milliseconds or one term or more; a count of milliseconds is always a duration, of that many
milliseconds. All else is refused as empty, for a missing unit, for an unknown one or as
malformed. -/
theorem parse_accepts_exactly (input : String) :
    (rounds input (Text.trimmed input.toList).length (Double.zero false)
        (Text.trimmed input.toList) =
      (sumUnits input (Double.zero false) (Text.trimmed input.toList)).map fun t => (t, [])) ∧
    ((∃ d, parse input = .ok d) ∨ parse input = .error (.unrepresentable input) ↔
      (∃ n, IsMillis (Text.trimmed input.toList) n) ∨ IsSum (Text.trimmed input.toList)) ∧
    (∀ n, IsMillis (Text.trimmed input.toList) n →
      ∃ d : Duration, parse input = .ok d ∧ d.nanos = n * 10 ^ 6) ∧
    (¬ ((∃ n, IsMillis (Text.trimmed input.toList) n) ∨ IsSum (Text.trimmed input.toList)) →
      parse input = .error .empty ∨ parse input = .error (.missingUnit input) ∨
        (∃ unit, parse input = .error (.unknownUnit unit input)) ∨
        parse input = .error (.malformed input)) := by
  refine ⟨rounds_eq_sumUnits (Nat.le_refl _), ⟨fun hparse => ?_, ?_⟩, fun n hn => ?_, fun h => ?_⟩
  · by_contra h
    rcases parse_of_other h with hempty | ⟨fault, hfault, hround⟩
    · simp [hempty] at hparse
    · rw [hfault] at hparse
      cases hround <;> simp at hparse
  · rintro (⟨n, hn⟩ | hsum)
    · exact .inl ⟨_, parse_of_isMillis hn⟩
    · exact parse_of_isSum hsum
  · obtain ⟨_, _, _, _, _, hlt⟩ := id hn
    exact ⟨_, parse_of_isMillis hn, nanos_ofMillis hlt⟩
  · rcases parse_of_other h with hempty | ⟨fault, hfault, hround⟩
    · exact .inl hempty
    · cases hround with
      | missingUnit => exact .inr (.inl hfault)
      | malformed => exact .inr (.inr (.inr hfault))
      | unknownUnit unit => exact .inr (.inr (.inl ⟨unit, hfault⟩))

end Nsq.Duration
