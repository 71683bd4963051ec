import Nsq.Name
import Mathlib.Data.List.TakeWhile
import Mathlib.Computability.RegularExpressions

/-!
# Names are what the pattern says

A text names a topic or a channel exactly if it has one to sixty-four octets and the whole of it
matches the pattern `[\.a-zA-Z0-9_-]+(#ephemeral)?` (`Name.pattern`), that is, if it is a run of
characters of the alphabet, perhaps with the mark behind it (`mem_pattern_iff`). Where the mark
begins is no question, because its first character is not in the alphabet: the body of a name is the
longest run of characters of the alphabet at its front.

So a name has none of the octets that end a word or a line of a command: no blank, no line feed, not
even at its end, and nothing that is not ASCII.
-/

namespace Nsq.Name

/-- The characters from one to another. -/
def charsFromTo (first last : Char) : List Char :=
  (List.range (last.toNat + 1 - first.toNat)).map fun i => Char.ofNat (first.toNat + i)

/-- The characters of the body of a name. -/
def alphabet : List Char :=
  '.' :: charsFromTo 'a' 'z' ++ charsFromTo 'A' 'Z' ++ charsFromTo '0' '9' ++ ['_', '-']

theorem mem_charsFromTo {first last c : Char} (hfirst : first ≤ c) (hlast : c ≤ last) :
    c ∈ charsFromTo first last := by
  have hf : first.toNat ≤ c.toNat := hfirst
  have hl : c.toNat ≤ last.toNat := hlast
  refine List.mem_map.mpr ⟨c.toNat - first.toNat, List.mem_range.mpr (by omega), ?_⟩
  rw [Nat.add_sub_cancel' hf, Char.ofNat_toNat]

theorem isNameChar_iff {c : Char} : isNameChar c = true ↔ c ∈ alphabet := by
  constructor
  · intro h
    simp only [isNameChar, Bool.or_eq_true, Bool.and_eq_true, beq_iff_eq, decide_eq_true_eq] at h
    simp only [alphabet, List.mem_cons, List.mem_append, List.not_mem_nil, or_false,
      List.cons_append]
    rcases h with ((((h | ⟨hf, hl⟩) | ⟨hf, hl⟩) | ⟨hf, hl⟩) | h) | h
    · exact .inl h
    · exact .inr (.inl (.inl (.inl (mem_charsFromTo hf hl))))
    · exact .inr (.inl (.inl (.inr (mem_charsFromTo hf hl))))
    · exact .inr (.inl (.inr (mem_charsFromTo hf hl)))
    · exact .inr (.inr (.inl h))
    · exact .inr (.inr (.inr h))
  · intro h
    have hall : alphabet.all isNameChar = true := by decide
    exact List.all_eq_true.mp hall c h

/-! ### The pattern -/

/-- One of the given characters. -/
def anyOf (cs : List Char) : RegularExpression Char :=
  cs.foldr (fun c r => .char c + r) 0

/-- The given characters, one after another. -/
def literally (cs : List Char) : RegularExpression Char :=
  cs.foldr (fun c r => .char c * r) 1

/-- The pattern of names: characters of the alphabet, one or more, and perhaps the mark. -/
def pattern : RegularExpression Char :=
  anyOf alphabet * (anyOf alphabet).star * (1 + literally "#ephemeral".toList)

theorem mem_char {c : Char} {w : List Char} :
    w ∈ (RegularExpression.char c).matches' ↔ w = [c] :=
  Iff.rfl

theorem mem_anyOf {cs w : List Char} : w ∈ (anyOf cs).matches' ↔ ∃ c ∈ cs, w = [c] := by
  induction cs with
  | nil => simp [anyOf]
  | cons c cs ih =>
    have hsum : anyOf (c :: cs) = .char c + anyOf cs := rfl
    rw [hsum, RegularExpression.matches'_add, Language.mem_add, mem_char, ih]
    simp

theorem mem_star_anyOf {cs w : List Char} :
    w ∈ ((anyOf cs).star).matches' ↔ ∀ c ∈ w, c ∈ cs := by
  rw [RegularExpression.matches'_star, Language.mem_kstar]
  constructor
  · rintro ⟨ws, rfl, hws⟩ c hc
    obtain ⟨v, hv, hcv⟩ := List.mem_flatten.mp hc
    obtain ⟨d, hd, rfl⟩ := mem_anyOf.mp (hws v hv)
    rwa [List.mem_singleton.mp hcv]
  · intro h
    refine ⟨w.map fun c => [c], by rw [← List.flatMap_def, List.flatMap_singleton'], ?_⟩
    rintro v hv
    obtain ⟨c, hc, rfl⟩ := List.mem_map.mp hv
    exact mem_anyOf.mpr ⟨c, h c hc, rfl⟩

theorem mem_literally {cs w : List Char} : w ∈ (literally cs).matches' ↔ w = cs := by
  induction cs generalizing w with
  | nil => simp [literally]
  | cons c cs ih =>
    have hprod : literally (c :: cs) = .char c * literally cs := rfl
    rw [hprod, RegularExpression.matches'_mul, Language.mem_mul]
    constructor
    · rintro ⟨a, ha, b, hb, rfl⟩
      rw [mem_char.mp ha, ih.mp hb, List.singleton_append]
    · rintro rfl
      exact ⟨[c], mem_char.mpr rfl, cs, ih.mpr rfl, rfl⟩

/-- A text matches the pattern if it is a body of the alphabet with the mark or nothing behind. -/
theorem mem_pattern_iff {w : List Char} :
    w ∈ pattern.matches' ↔ ∃ body mark, w = body ++ mark ∧ body ≠ [] ∧ (∀ c ∈ body, c ∈ alphabet) ∧
      (mark = [] ∨ mark = "#ephemeral".toList) := by
  simp only [pattern, RegularExpression.matches'_mul, RegularExpression.matches'_add,
    RegularExpression.matches'_epsilon, Language.mem_mul, Language.mem_add, Language.mem_one,
    mem_literally]
  constructor
  · rintro ⟨_, ⟨front, hfront, more, hmore, rfl⟩, mark, hmark, rfl⟩
    obtain ⟨c, hc, rfl⟩ := mem_anyOf.mp hfront
    refine ⟨c :: more, mark, rfl, List.cons_ne_nil c more, ?_, hmark⟩
    exact List.forall_mem_cons.mpr ⟨hc, mem_star_anyOf.mp hmore⟩
  · rintro ⟨body, mark, rfl, hne, hbody, hmark⟩
    obtain ⟨c, more, rfl⟩ := List.exists_cons_of_ne_nil hne
    obtain ⟨hc, hmore⟩ := List.forall_mem_cons.mp hbody
    exact ⟨c :: more, ⟨[c], mem_anyOf.mpr ⟨c, hc, rfl⟩, more, mem_star_anyOf.mpr hmore, rfl⟩,
      mark, hmark, rfl⟩

/-! ### Names -/

/-- The body of a text in front of the mark is the longest run of characters of the alphabet. -/
theorem cut_append {body mark : List Char} (hbody : ∀ c ∈ body, c ∈ alphabet)
    (hmark : mark = [] ∨ mark = ephemeralMark) :
    (body ++ mark).takeWhile isNameChar = body ∧ (body ++ mark).dropWhile isNameChar = mark := by
  have hall : ∀ c ∈ body, isNameChar c = true := fun c hc => isNameChar_iff.mpr (hbody c hc)
  rw [List.takeWhile_append_of_pos hall, List.dropWhile_append_of_pos hall]
  rcases hmark with rfl | rfl
  · exact ⟨List.append_nil body, rfl⟩
  · have htake : ephemeralMark.takeWhile isNameChar = [] := by decide
    have hdrop : ephemeralMark.dropWhile isNameChar = ephemeralMark := by decide
    rw [htake, hdrop, List.append_nil]
    exact ⟨rfl, rfl⟩

theorem isValid_iff {name : String} :
    isValid name = true ↔
      (1 ≤ name.utf8ByteSize ∧ name.utf8ByteSize ≤ 64) ∧ name.toList ∈ pattern.matches' := by
  have hcut := List.takeWhile_append_dropWhile (p := isNameChar) (l := name.toList)
  simp only [isValid, Bool.and_eq_true, decide_eq_true_eq, Bool.or_eq_true, Bool.not_eq_true',
    beq_iff_eq, List.isEmpty_iff, and_assoc, mem_pattern_iff]
  refine and_congr_right fun _ => and_congr_right fun _ => ?_
  constructor
  · rintro ⟨hbody, hrest⟩
    refine ⟨_, _, hcut.symm, by simpa using hbody, fun c hc => ?_, hrest⟩
    exact isNameChar_iff.mp (List.mem_takeWhile_imp hc)
  · rintro ⟨body, mark, hname, hne, hbody, hmark⟩
    obtain ⟨htake, hdrop⟩ := cut_append hbody hmark
    rw [hname, htake, hdrop]
    exact ⟨by simpa using hne, hmark⟩

theorem plain_of_isValid {name : String} (h : isValid name = true) :
    ∀ c ∈ name.toList, c ≠ ' ' ∧ c ≠ '\n' ∧ c.toNat < 128 := by
  have hall : ((alphabet ++ "#ephemeral".toList).all fun c =>
      c != ' ' && c != '\n' && c.toNat < 128) = true := by decide
  have hplain : ∀ c ∈ alphabet ++ "#ephemeral".toList, c ≠ ' ' ∧ c ≠ '\n' ∧ c.toNat < 128 := by
    intro c hc
    simpa [and_assoc] using List.all_eq_true.mp hall c hc
  obtain ⟨body, mark, hname, -, hbody, hmark⟩ := mem_pattern_iff.mp (isValid_iff.mp h).2
  intro c hc
  rw [hname] at hc
  rcases List.mem_append.mp hc with hc | hc
  · exact hplain c (List.mem_append_left _ (hbody c hc))
  · rcases hmark with rfl | rfl
    · cases hc
    · exact hplain c (List.mem_append_right _ hc)

/-- **Names are what the pattern says**, of topics as of channels: texts of one to sixty-four octets
that match it, a body of the alphabet with the mark or nothing behind. A name has no blank, no line
feed and no character that is not ASCII, and what ends in a line feed is no name. -/
theorem valid_iff_matches (name : String) :
    (isValidTopic name = true ↔
      (1 ≤ name.utf8ByteSize ∧ name.utf8ByteSize ≤ 64) ∧ name.toList ∈ pattern.matches') ∧
    (isValidChannel name = true ↔
      (1 ≤ name.utf8ByteSize ∧ name.utf8ByteSize ≤ 64) ∧ name.toList ∈ pattern.matches') ∧
    (name.toList ∈ pattern.matches' ↔
      ∃ body mark, name.toList = body ++ mark ∧ body ≠ [] ∧ (∀ c ∈ body, c ∈ alphabet) ∧
        (mark = [] ∨ mark = "#ephemeral".toList)) ∧
    (isValidTopic name = true ∨ isValidChannel name = true →
      ∀ c ∈ name.toList, c ≠ ' ' ∧ c ≠ '\n' ∧ c.toNat < 128) ∧
    isValidTopic (name ++ "\n") = false ∧ isValidChannel (name ++ "\n") = false := by
  have hend : isValid (name ++ "\n") = false := by
    refine Bool.eq_false_iff.mpr fun h => ?_
    exact (plain_of_isValid h '\n' (by simp)).2.1 rfl
  refine ⟨isValid_iff, isValid_iff, mem_pattern_iff, ?_, hend, hend⟩
  rintro (h | h)
  · exact plain_of_isValid h
  · exact plain_of_isValid h

end Nsq.Name
