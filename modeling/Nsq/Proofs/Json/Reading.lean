import Nsq.Proofs.Json.Grammar

/-!
# The reader and the grammar

`Written` is the grammar of values, one rule for each way to write one, and `IsText b j` says that
the octets `b` are a JSON text of the value `j`. The reader accepts these octets and no others:
`parse_eq_some_iff`. One direction is an induction on the fuel, the other on the rules; there each
kind of part has its own account of what the reader makes of it (`Reads`), since a value tells the
reader by itself where it ends and a list needs its closing bracket.
-/

namespace Nsq.Json

/-- What a stretch of octets stands for. -/
inductive Part where
  /-- A value. -/
  | value (j : Json)
  /-- A value among white space. -/
  | element (j : Json)
  /-- The items of an array, one or more. -/
  | items (js : List Json)
  /-- A member of an object. -/
  | member (m : Option String × Json)
  /-- The members of an object, one or more. -/
  | members (ms : List (Option String × Json))

/-- The rules by which parts of a JSON text are written. -/
inductive Written : Octets → Part → Prop
  | null : Written (Octets.ofString "null") (.value null)
  | true : Written (Octets.ofString "true") (.value (bool Bool.true))
  | false : Written (Octets.ofString "false") (.value (bool Bool.false))
  | unsigned {t : Octets} {j : Json} (h : UnsignedText Bool.false t j) : Written t (.value j)
  | negative {t : Octets} {j : Json} (h : UnsignedText Bool.true t j) :
    Written (0x2D :: t) (.value j)
  | string {t : Octets} {s : Option String} (h : StringText t s) : Written t (.value (string s))
  | emptyArray {sp : Octets} (hsp : Blank sp) : Written (0x5B :: (sp ++ [0x5D])) (.value (array []))
  | array {t : Octets} {js : List Json} (h : Written t (.items js)) :
    Written (0x5B :: (t ++ [0x5D])) (.value (array js))
  | emptyObject {sp : Octets} (hsp : Blank sp) :
    Written (0x7B :: (sp ++ [0x7D])) (.value (object []))
  | object {t : Octets} {ms : List (Option String × Json)} (h : Written t (.members ms)) :
    Written (0x7B :: (t ++ [0x7D])) (.value (object ms))
  | element {sp t sp' : Octets} {j : Json} (hsp : Blank sp) (h : Written t (.value j))
    (hsp' : Blank sp') : Written (sp ++ (t ++ sp')) (.element j)
  | lastItem {t : Octets} {j : Json} (h : Written t (.element j)) : Written t (.items [j])
  | items {t ts : Octets} {j : Json} {js : List Json} (h : Written t (.element j))
    (hs : Written ts (.items js)) : Written (t ++ 0x2C :: ts) (.items (j :: js))
  | member {sp k sp' t : Octets} {key : Option String} {j : Json} (hsp : Blank sp)
    (hkey : StringText k key) (hsp' : Blank sp') (h : Written t (.element j)) :
    Written (sp ++ (k ++ (sp' ++ 0x3A :: t))) (.member (key, j))
  | lastMember {t : Octets} {m : Option String × Json} (h : Written t (.member m)) :
    Written t (.members [m])
  | members {t ts : Octets} {m : Option String × Json} {ms : List (Option String × Json)}
    (h : Written t (.member m)) (hs : Written ts (.members ms)) :
    Written (t ++ 0x2C :: ts) (.members (m :: ms))

/-- Octets are a JSON text of a value. -/
def IsText (b : Octets) (j : Json) : Prop := Written b (.element j)

variable {b b' sp t rest : Octets} {j : Json} {js : List Json} {m : Option String × Json}
  {ms : List (Option String × Json)} {fuel : Nat}

/-! ### White space in front -/

theorem Blank.append {sp' : Octets} (h : Blank sp) (h' : Blank sp') : Blank (sp ++ sp') :=
  List.forall_mem_append.mpr ⟨h, h'⟩

theorem Written.blank_element (hsp : Blank sp) (h : Written t (.element j)) :
    Written (sp ++ t) (.element j) := by
  cases h with
  | element hsp' hv hend =>
    rw [← List.append_assoc]
    exact .element (hsp.append hsp') hv hend

theorem Written.isText (h : Written t (.value j)) : IsText t j := by
  have helement := Written.element blank_nil h blank_nil
  rwa [List.nil_append, List.append_nil] at helement

theorem Written.element_blank (h : Written t (.element j)) (hsp : Blank sp) :
    Written (t ++ sp) (.element j) := by
  cases h with
  | element hsp' hv hend =>
    rw [List.append_assoc, List.append_assoc]
    exact .element hsp' hv (hend.append hsp)

theorem Written.blank_items (hsp : Blank sp) (h : Written t (.items js)) :
    Written (sp ++ t) (.items js) := by
  cases h with
  | lastItem h => exact .lastItem (h.blank_element hsp)
  | items h hs =>
    rw [← List.append_assoc]
    exact .items (h.blank_element hsp) hs

theorem Written.blank_member (hsp : Blank sp) (h : Written t (.member m)) :
    Written (sp ++ t) (.member m) := by
  cases h with
  | member hsp' hkey hcolon h =>
    rw [← List.append_assoc]
    exact .member (hsp.append hsp') hkey hcolon h

theorem Written.blank_members (hsp : Blank sp) (h : Written t (.members ms)) :
    Written (sp ++ t) (.members ms) := by
  cases h with
  | lastMember h => exact .lastMember (h.blank_member hsp)
  | members h hs =>
    rw [← List.append_assoc]
    exact .members (h.blank_member hsp) hs

/-! ### What is read is written -/

theorem readWord_eq_some_iff {word : Octets} : readWord word b = some rest ↔ b = word ++ rest := by
  fun_induction readWord word b with
  | case1 => simp
  | case2 => simp
  | case3 => simp [*]
  | case4 w ws o more hne => simp [Ne.symm hne]

theorem readWord_map {word : Octets} {j' : Json}
    (h : (readWord word b).map (fun rest => (j', rest)) = some (j, rest)) :
    j' = j ∧ b = word ++ rest := by
  obtain ⟨rest', hword, heq⟩ := Option.map_eq_some_iff.mp h
  cases heq
  exact ⟨rfl, readWord_eq_some_iff.mp hword⟩

theorem readValue_skipSpace (fuel : Nat) (b : Octets) :
    readValue fuel (skipSpace b) = readValue fuel b := by
  cases fuel with
  | zero => rfl
  | succ fuel => rw [readValue, readValue, skipSpace_skipSpace]

theorem readItems_skipSpace (fuel : Nat) (b : Octets) :
    readItems fuel (skipSpace b) = readItems fuel b := by
  cases fuel with
  | zero => rfl
  | succ fuel => rw [readItems, readItems, readValue_skipSpace]

theorem readMembers_skipSpace (fuel : Nat) (b : Octets) :
    readMembers fuel (skipSpace b) = readMembers fuel b := by
  cases fuel with
  | zero => rfl
  | succ fuel => rw [readMembers, readMembers, skipSpace_skipSpace]

/-- How a list goes on behind its first entry: it is closed, or a comma stands in front of more. -/
def Onward {α : Type} (close : UInt8) (more : Octets → Option (List α × Octets)) (b : Octets)
    (as : List α) (rest : Octets) : Prop :=
  (skipSpace b = close :: rest ∧ as = []) ∨
    ∃ b', skipSpace b = 0x2C :: b' ∧ more b' = some (as, rest)

theorem readItems_succ_eq_some_iff :
    readItems (fuel + 1) b = some (js, rest) ↔
      ∃ j js' b', readValue fuel b = some (j, b') ∧
        Onward 0x5D (readItems fuel) b' js' rest ∧ js = j :: js' := by
  rw [readItems]
  constructor
  · intro h
    obtain ⟨⟨j, b'⟩, hvalue, h⟩ := Option.bind_eq_some_iff.mp h
    refine ⟨j, ?_⟩
    dsimp only at h
    split at h
    · rename_i more hclose
      cases h
      exact ⟨[], b', hvalue, .inl ⟨hclose, rfl⟩, rfl⟩
    · rename_i more hcomma
      obtain ⟨⟨js', rest'⟩, hmore, h⟩ := Option.bind_eq_some_iff.mp h
      cases h
      exact ⟨js', b', hvalue, .inr ⟨more, hcomma, hmore⟩, rfl⟩
    · cases h
  · rintro ⟨j, js', b', hvalue, ⟨hclose, rfl⟩ | ⟨more, hcomma, hmore⟩, rfl⟩
    · simp only [hvalue, hclose, Option.bind_eq_bind, Option.bind_some, Option.pure_def]
    · simp only [hvalue, hcomma, hmore, Option.bind_eq_bind, Option.bind_some, Option.pure_def]

/-- How a member is read: a key, a colon and a value. -/
inductive ReadsMember (fuel : Nat) (b : Octets) : Option String × Json → Octets → Prop
  | mk {b₁ b₂ b₃ rest : Octets} {key : Option String} {j : Json}
    (hquote : skipSpace b = 0x22 :: b₁) (hkey : readString b₁ = some (key, b₂))
    (hcolon : skipSpace b₂ = 0x3A :: b₃) (hvalue : readValue fuel b₃ = some (j, rest)) :
    ReadsMember fuel b (key, j) rest

theorem readMembers_succ_eq_some_iff :
    readMembers (fuel + 1) b = some (ms, rest) ↔
      ∃ m ms' b', ReadsMember fuel b m b' ∧
        Onward 0x7D (readMembers fuel) b' ms' rest ∧ ms = m :: ms' := by
  rw [readMembers]
  constructor
  · intro h
    split at h
    · rename_i b₁ hquote
      obtain ⟨⟨key, b₂⟩, hkey, h⟩ := Option.bind_eq_some_iff.mp h
      dsimp only at h
      split at h
      · rename_i b₃ hcolon
        obtain ⟨⟨j, b'⟩, hvalue, h⟩ := Option.bind_eq_some_iff.mp h
        have hm : ReadsMember fuel b (key, j) b' := .mk hquote hkey hcolon hvalue
        refine ⟨(key, j), ?_⟩
        dsimp only at h
        split at h
        · rename_i more hclose
          cases h
          exact ⟨[], b', hm, .inl ⟨hclose, rfl⟩, rfl⟩
        · rename_i more hcomma
          obtain ⟨⟨ms', rest'⟩, hmore, h⟩ := Option.bind_eq_some_iff.mp h
          cases h
          exact ⟨ms', b', hm, .inr ⟨more, hcomma, hmore⟩, rfl⟩
        · cases h
      · cases h
    · cases h
  · rintro ⟨_, ms', b', ⟨hquote, hkey, hcolon, hvalue⟩, hrest, rfl⟩
    simp only [hquote, hkey, hcolon, hvalue, Option.bind_eq_bind, Option.bind_some]
    rcases hrest with ⟨hclose, rfl⟩ | ⟨more, hcomma, hmore⟩
    · simp only [hclose, Option.pure_def]
    · simp only [hcomma, hmore, Option.bind_some, Option.pure_def]

/-- What is read with this fuel is written by the rules. -/
structure SoundAt (fuel : Nat) : Prop where
  value {b rest : Octets} {j : Json} (h : readValue fuel b = some (j, rest)) :
    ∃ t, Written t (.element j) ∧ b = t ++ rest
  items {b rest : Octets} {js : List Json} (h : readItems fuel b = some (js, rest)) :
    ∃ t, Written t (.items js) ∧ b = t ++ 0x5D :: rest
  members {b rest : Octets} {ms : List (Option String × Json)}
    (h : readMembers fuel b = some (ms, rest)) :
    ∃ t, Written t (.members ms) ∧ b = t ++ 0x7D :: rest

theorem SoundAt.zero : SoundAt 0 where
  value h := nomatch h
  items h := nomatch h
  members h := nomatch h

namespace SoundAt

/-- What is read behind an opening bracket. -/
theorem bracket (hs : SoundAt fuel)
    (h : (match skipSpace b with
      | 0x5D :: rest => some (array [], rest)
      | rest => (readItems fuel rest).map fun (items, rest) => (array items, rest)) =
        some (j, rest)) : ∃ t, Written t (.value j) ∧ 0x5B :: b = t ++ rest := by
  obtain ⟨sp, hsp, hb⟩ := exists_blank_append_skipSpace b
  split at h
  · rename_i rest' hclose
    cases h
    refine ⟨_, .emptyArray hsp, ?_⟩
    rw [hb, hclose]
    simp
  · obtain ⟨⟨js, rest'⟩, hitems, heq⟩ := Option.map_eq_some_iff.mp h
    cases heq
    obtain ⟨t, ht, heq⟩ := hs.items hitems
    refine ⟨_, .array (ht.blank_items hsp), ?_⟩
    rw [hb, heq]
    simp

/-- What is read behind an opening brace. -/
theorem brace (hs : SoundAt fuel)
    (h : (match skipSpace b with
      | 0x7D :: rest => some (object [], rest)
      | rest => (readMembers fuel rest).map fun (members, rest) => (object members, rest)) =
        some (j, rest)) : ∃ t, Written t (.value j) ∧ 0x7B :: b = t ++ rest := by
  obtain ⟨sp, hsp, hb⟩ := exists_blank_append_skipSpace b
  split at h
  · rename_i rest' hclose
    cases h
    refine ⟨_, .emptyObject hsp, ?_⟩
    rw [hb, hclose]
    simp
  · obtain ⟨⟨ms, rest'⟩, hmembers, heq⟩ := Option.map_eq_some_iff.mp h
    cases heq
    obtain ⟨t, ht, heq⟩ := hs.members hmembers
    refine ⟨_, .object (ht.blank_members hsp), ?_⟩
    rw [hb, heq]
    simp

/-- What is read of octets that begin with no white space. -/
theorem start {o : UInt8} (hs : SoundAt fuel) (ho : skipSpace (o :: b) = o :: b)
    (h : readValue (fuel + 1) (o :: b) = some (j, rest)) :
    ∃ t, Written t (.value j) ∧ o :: b = t ++ rest := by
  rw [readValue, ho] at h
  dsimp only at h
  split_ifs at h with hn ht hf hminus hdigit hquote hbracket hbrace
  · obtain ⟨rfl, rfl⟩ := readWord_map h
    exact ⟨_, .null, by rw [hn]; rfl⟩
  · obtain ⟨rfl, rfl⟩ := readWord_map h
    exact ⟨_, .true, by rw [ht]; rfl⟩
  · obtain ⟨rfl, rfl⟩ := readWord_map h
    exact ⟨_, .false, by rw [hf]; rfl⟩
  · obtain ⟨t, ht, rfl⟩ := readUnsigned_eq_some h
    exact ⟨_, .negative ht, by rw [hminus]; rfl⟩
  · obtain ⟨t, ht, heq⟩ := readUnsigned_eq_some h
    exact ⟨_, .unsigned ht, heq⟩
  · obtain ⟨⟨s, rest'⟩, hstring, heq⟩ := Option.map_eq_some_iff.mp h
    cases heq
    obtain ⟨t, ht, rfl⟩ := readString_eq_some_iff.mp hstring
    exact ⟨_, .string ht, by rw [hquote]; rfl⟩
  · rw [hbracket]
    exact hs.bracket h
  · rw [hbrace]
    exact hs.brace h

theorem value_succ (hs : SoundAt fuel) (h : readValue (fuel + 1) b = some (j, rest)) :
    ∃ t, Written t (.element j) ∧ b = t ++ rest := by
  obtain ⟨sp, hsp, hb⟩ := exists_blank_append_skipSpace b
  rw [← readValue_skipSpace] at h
  cases hskip : skipSpace b with
  | nil =>
    rw [hskip] at h
    cases h
  | cons o more =>
    have ho : skipSpace (o :: more) = o :: more := by rw [← hskip, skipSpace_skipSpace]
    rw [hskip] at h
    obtain ⟨t, ht, heq⟩ := hs.start ho h
    rw [hskip, heq, ← List.append_assoc] at hb
    exact ⟨sp ++ t, ht.isText.blank_element hsp, hb⟩

/-- White space behind an element belongs to it. -/
theorem element_skipSpace {c : UInt8} (hs : SoundAt fuel) (h : readValue fuel b = some (j, b'))
    (hc : skipSpace b' = c :: rest) : ∃ t, Written t (.element j) ∧ b = t ++ c :: rest := by
  obtain ⟨t, ht, rfl⟩ := hs.value h
  obtain ⟨sp, hsp, hb⟩ := exists_blank_append_skipSpace b'
  refine ⟨t ++ sp, ht.element_blank hsp, ?_⟩
  rw [hb, hc, List.append_assoc]

theorem items_succ (hs : SoundAt fuel) (h : readItems (fuel + 1) b = some (js, rest)) :
    ∃ t, Written t (.items js) ∧ b = t ++ 0x5D :: rest := by
  obtain ⟨j, js', b', hvalue, hrest, rfl⟩ := readItems_succ_eq_some_iff.mp h
  rcases hrest with ⟨hclose, rfl⟩ | ⟨more, hcomma, hmore⟩
  · obtain ⟨t, ht, rfl⟩ := hs.element_skipSpace hvalue hclose
    exact ⟨t, .lastItem ht, rfl⟩
  · obtain ⟨t, ht, rfl⟩ := hs.element_skipSpace hvalue hcomma
    obtain ⟨ts, hts, rfl⟩ := hs.items hmore
    exact ⟨_, .items ht hts, by simp⟩

/-- A member is a key, a colon and an element, to which the white space behind belongs. -/
theorem member_skipSpace {c : UInt8} (hs : SoundAt fuel) (h : ReadsMember fuel b m b')
    (hc : skipSpace b' = c :: rest) : ∃ t, Written t (.member m) ∧ b = t ++ c :: rest := by
  obtain @⟨_, more, _, _, _, _, hquote, hkey, hcolon, hvalue⟩ := h
  obtain ⟨t, ht, rfl⟩ := hs.element_skipSpace hvalue hc
  obtain ⟨k, hk, rfl⟩ := readString_eq_some_iff.mp hkey
  obtain ⟨sp, hsp, hb⟩ := exists_blank_append_skipSpace b
  obtain ⟨sp', hsp', hb'⟩ := exists_blank_append_skipSpace more
  refine ⟨_, .member hsp hk hsp' ht, ?_⟩
  rw [hb, hquote, hb', hcolon]
  simp

theorem members_succ (hs : SoundAt fuel) (h : readMembers (fuel + 1) b = some (ms, rest)) :
    ∃ t, Written t (.members ms) ∧ b = t ++ 0x7D :: rest := by
  obtain ⟨m, ms', b', hm, hrest, rfl⟩ := readMembers_succ_eq_some_iff.mp h
  rcases hrest with ⟨hclose, rfl⟩ | ⟨more, hcomma, hmore⟩
  · obtain ⟨t, ht, rfl⟩ := hs.member_skipSpace hm hclose
    exact ⟨t, .lastMember ht, rfl⟩
  · obtain ⟨t, ht, rfl⟩ := hs.member_skipSpace hm hcomma
    obtain ⟨ts, hts, rfl⟩ := hs.members hmore
    exact ⟨_, .members ht hts, by simp⟩

end SoundAt

/-- By induction on the fuel. -/
theorem soundAt (fuel : Nat) : SoundAt fuel := by
  induction fuel with
  | zero => exact .zero
  | succ fuel ih => exact ⟨ih.value_succ, ih.items_succ, ih.members_succ⟩

/-! ### What is written is read -/

theorem Stops.blank_append (hsp : Blank sp) (h : Stops rest) : Stops (sp ++ rest) := by
  cases sp with
  | nil => exact h
  | cons o sp =>
    have ho : isSpace o = true := hsp o List.mem_cons_self
    simp only [isSpace, Bool.or_eq_true, beq_iff_eq] at ho
    apply stops_cons
    rcases ho with ((rfl | rfl) | rfl) | rfl <;> decide

/-- What the reader makes of a part of a JSON text, given fuel for its length. White space behind an
element is left over, because the reader of the value has ended before it. -/
def Reads (t : Octets) : Part → Prop
  | .value j => ∀ fuel rest, t.length ≤ fuel → Stops rest → ∀ sp, Blank sp →
      readValue fuel (sp ++ (t ++ rest)) = some (j, rest)
  | .element j => ∀ fuel rest, t.length ≤ fuel → Stops rest →
      ∃ sp, Blank sp ∧ readValue fuel (t ++ rest) = some (j, sp ++ rest)
  | .items js => ∀ fuel rest, t.length < fuel →
      readItems fuel (t ++ 0x5D :: rest) = some (js, rest)
  | .member m => ∀ fuel rest, t.length ≤ fuel → Stops rest →
      ∃ sp, Blank sp ∧ ReadsMember fuel (t ++ rest) m (sp ++ rest)
  | .members ms => ∀ fuel rest, t.length < fuel →
      readMembers fuel (t ++ 0x7D :: rest) = some (ms, rest)

/-- A value is read if the octet that it begins with is not white space and its reader takes it. -/
theorem reads_value {o : UInt8} (ho : isSpace o = false)
    (h : ∀ fuel rest, t.length ≤ fuel → Stops rest →
      readValue (fuel + 1) (o :: (t ++ rest)) = some (j, rest)) : Reads (o :: t) (.value j) := by
  intro fuel rest hfuel hrest sp hsp
  obtain ⟨fuel, rfl⟩ := Nat.exists_eq_add_one_of_ne_zero (Nat.ne_of_gt (Nat.lt_of_lt_of_le
    (Nat.succ_pos _) hfuel))
  rw [← readValue_skipSpace, skipSpace_append hsp, List.cons_append, skipSpace_cons ho]
  exact h fuel rest (Nat.le_of_succ_le_succ hfuel) hrest

theorem reads_null : Reads (Octets.ofString "null") (.value null) :=
  reads_value (o := 0x6E) (t := Octets.ofString "ull") rfl fun fuel rest _ _ => by
    rw [readValue, skipSpace_cons rfl]
    dsimp only
    rw [if_pos rfl, readWord_eq_some_iff.mpr rfl]
    rfl

theorem reads_true : Reads (Octets.ofString "true") (.value (bool true)) :=
  reads_value (o := 0x74) (t := Octets.ofString "rue") rfl fun fuel rest _ _ => by
    rw [readValue, skipSpace_cons rfl]
    dsimp only
    rw [if_neg (by decide), if_pos rfl, readWord_eq_some_iff.mpr rfl]
    rfl

theorem reads_false : Reads (Octets.ofString "false") (.value (bool false)) :=
  reads_value (o := 0x66) (t := Octets.ofString "alse") rfl fun fuel rest _ _ => by
    rw [readValue, skipSpace_cons rfl]
    dsimp only
    rw [if_neg (by decide), if_neg (by decide), if_pos rfl, readWord_eq_some_iff.mpr rfl]
    rfl

theorem exists_digit_of_unsignedText {negative : Bool} (h : UnsignedText negative t j) :
    ∃ d more, t = d :: more ∧ isDigitOctet d = true := by
  obtain ⟨hw, hf, hp⟩ := h
  cases hw with
  | zero => exact ⟨_, _, rfl, rfl⟩
  | digits hds => exact ⟨_, _, rfl, hds.2 _ List.mem_cons_self⟩

theorem reads_unsigned (h : UnsignedText false t j) : Reads t (.value j) := by
  obtain ⟨d, more, rfl, hd⟩ := exists_digit_of_unsignedText h
  have hne : ∀ o, isDigitOctet o = false → d ≠ o := by
    rintro o ho rfl
    exact absurd hd (by rw [ho]; exact Bool.false_ne_true)
  have hspace : isSpace d = false := by
    simp only [isSpace, Bool.or_eq_false_iff, beq_eq_false_iff_ne]
    exact ⟨⟨⟨hne _ rfl, hne _ rfl⟩, hne _ rfl⟩, hne _ rfl⟩
  refine reads_value hspace fun fuel rest _ hrest => ?_
  rw [readValue, skipSpace_cons hspace]
  dsimp only
  rw [if_neg (hne _ rfl), if_neg (hne _ rfl), if_neg (hne _ rfl), if_neg (hne _ rfl), if_pos hd]
  exact readUnsigned_append h hrest

theorem reads_negative (h : UnsignedText true t j) : Reads (0x2D :: t) (.value j) :=
  reads_value rfl fun fuel rest _ hrest => by
    rw [readValue, skipSpace_cons rfl]
    dsimp only
    rw [if_neg (by decide), if_neg (by decide), if_neg (by decide), if_pos rfl]
    exact readUnsigned_append h hrest

theorem reads_string {s : Option String} (h : StringText t s) : Reads t (.value (string s)) := by
  obtain ⟨more, rfl⟩ : ∃ more, t = 0x22 :: more := by
    cases h
    exact ⟨_, rfl⟩
  refine reads_value rfl fun fuel rest _ _ => ?_
  rw [readValue, skipSpace_cons rfl]
  dsimp only
  rw [if_neg (by decide), if_neg (by decide), if_neg (by decide), if_neg (by decide),
    if_neg (by decide), if_pos rfl, readString_eq_some_iff.mpr ⟨more, h, rfl⟩]
  rfl

/-- The reader of an array, behind its bracket. -/
theorem readValue_bracket (fuel : Nat) (b : Octets) :
    readValue (fuel + 1) (0x5B :: b) =
      match skipSpace b with
      | 0x5D :: rest => some (array [], rest)
      | rest => (readItems fuel rest).map fun (items, rest) => (array items, rest) := by
  rw [readValue, skipSpace_cons rfl]
  rfl

theorem reads_emptyArray (hsp : Blank sp) :
    Reads (0x5B :: (sp ++ [0x5D])) (.value (array [])) :=
  reads_value rfl fun fuel rest _ _ => by
    rw [readValue_bracket, List.append_assoc, skipSpace_append hsp]
    rfl

/-- No item begins with the closing bracket. -/
theorem readItems_eq_none (h : skipSpace b = 0x5D :: rest) : readItems fuel b = none := by
  rw [← readItems_skipSpace, h]
  cases fuel with
  | zero => rfl
  | succ fuel => cases fuel <;> rfl

theorem reads_array (h : Reads t (.items js)) :
    Reads (0x5B :: (t ++ [0x5D])) (.value (array js)) :=
  reads_value rfl fun fuel rest hfuel _ => by
    have hitems : readItems fuel (t ++ 0x5D :: rest) = some (js, rest) :=
      h fuel rest (by rwa [List.length_append] at hfuel)
    rw [readValue_bracket, List.append_assoc, List.singleton_append]
    split
    · -- items do not begin with the closing bracket
      rename_i more hclose
      rw [readItems_eq_none hclose] at hitems
      cases hitems
    · rw [readItems_skipSpace, hitems]
      rfl

/-- The reader of an object, behind its brace. -/
theorem readValue_brace (fuel : Nat) (b : Octets) :
    readValue (fuel + 1) (0x7B :: b) =
      match skipSpace b with
      | 0x7D :: rest => some (object [], rest)
      | rest => (readMembers fuel rest).map fun (members, rest) => (object members, rest) := by
  rw [readValue, skipSpace_cons rfl]
  rfl

theorem reads_emptyObject (hsp : Blank sp) :
    Reads (0x7B :: (sp ++ [0x7D])) (.value (object [])) :=
  reads_value rfl fun fuel rest _ _ => by
    rw [readValue_brace, List.append_assoc, skipSpace_append hsp]
    rfl

/-- No member begins with the closing brace. -/
theorem readMembers_eq_none (h : skipSpace b = 0x7D :: rest) : readMembers fuel b = none := by
  rw [← readMembers_skipSpace, h]
  cases fuel <;> rfl

theorem reads_object (h : Reads t (.members ms)) :
    Reads (0x7B :: (t ++ [0x7D])) (.value (object ms)) :=
  reads_value rfl fun fuel rest hfuel _ => by
    have hmembers : readMembers fuel (t ++ 0x7D :: rest) = some (ms, rest) :=
      h fuel rest (by rwa [List.length_append] at hfuel)
    rw [readValue_brace, List.append_assoc, List.singleton_append]
    split
    · -- members do not begin with the closing brace
      rename_i more hclose
      rw [readMembers_eq_none hclose] at hmembers
      cases hmembers
    · rw [readMembers_skipSpace, hmembers]
      rfl

theorem reads_element {sp' : Octets} (hsp : Blank sp) (h : Reads t (.value j)) (hsp' : Blank sp') :
    Reads (sp ++ (t ++ sp')) (.element j) := by
  intro fuel rest hfuel hrest
  rw [List.length_append, List.length_append] at hfuel
  refine ⟨sp', hsp', ?_⟩
  rw [List.append_assoc, List.append_assoc]
  exact h fuel _ (by omega) (hrest.blank_append hsp') sp hsp

section Lists

variable {α : Type} {close : UInt8} {more : Octets → Option (List α × Octets)} {as : List α}

theorem onward_comma (hsp : Blank sp) (h : more b = some (as, rest)) :
    Onward close more (sp ++ 0x2C :: b) as rest :=
  .inr ⟨b, by rw [skipSpace_append hsp, skipSpace_cons rfl], h⟩

theorem onward_close (hsp : Blank sp) (hclose : isSpace close = false) :
    Onward close more (sp ++ close :: rest) [] rest :=
  .inl ⟨by rw [skipSpace_append hsp, skipSpace_cons hclose], rfl⟩

end Lists

theorem reads_lastItem (h : Reads t (.element j)) : Reads t (.items [j]) := by
  intro fuel rest hfuel
  obtain ⟨fuel, rfl⟩ := Nat.exists_eq_add_one_of_ne_zero (Nat.ne_zero_of_lt hfuel)
  have hstops : Stops (0x5D :: rest) := stops_cons (by decide) rest
  obtain ⟨sp, hsp, hread⟩ := h fuel _ (Nat.le_of_lt_succ hfuel) hstops
  exact readItems_succ_eq_some_iff.mpr ⟨j, [], _, hread, onward_close hsp rfl, rfl⟩

theorem reads_items {ts : Octets} (h : Reads t (.element j)) (hs : Reads ts (.items js)) :
    Reads (t ++ 0x2C :: ts) (.items (j :: js)) := by
  intro fuel rest hfuel
  obtain ⟨fuel, rfl⟩ := Nat.exists_eq_add_one_of_ne_zero (Nat.ne_zero_of_lt hfuel)
  rw [List.length_append, List.length_cons] at hfuel
  have hstops : Stops (0x2C :: (ts ++ 0x5D :: rest)) := stops_cons (by decide) _
  obtain ⟨sp, hsp, hread⟩ := h fuel _ (by omega) hstops
  have hmore : readItems fuel (ts ++ 0x5D :: rest) = some (js, rest) := hs fuel rest (by omega)
  rw [List.append_assoc, List.cons_append]
  exact readItems_succ_eq_some_iff.mpr ⟨j, js, _, hread, onward_comma hsp hmore, rfl⟩

theorem reads_member {k sp' : Octets} {key : Option String} (hsp : Blank sp)
    (hkey : StringText k key) (hsp' : Blank sp') (h : Reads t (.element j)) :
    Reads (sp ++ (k ++ (sp' ++ 0x3A :: t))) (.member (key, j)) := by
  obtain ⟨more, rfl⟩ : ∃ more, k = 0x22 :: more := by
    cases hkey
    exact ⟨_, rfl⟩
  intro fuel rest hfuel hrest
  simp only [List.length_append, List.length_cons] at hfuel
  obtain ⟨behind, hbehind, hread⟩ := h fuel rest (by omega) hrest
  have hcolon : skipSpace (sp' ++ 0x3A :: (t ++ rest)) = 0x3A :: (t ++ rest) := by
    rw [skipSpace_append hsp', skipSpace_cons rfl]
  refine ⟨behind, hbehind,
    .mk ?_ (readString_eq_some_iff.mpr ⟨more, hkey, rfl⟩) hcolon hread⟩
  simp only [List.append_assoc, List.cons_append]
  rw [skipSpace_append hsp, skipSpace_cons rfl]

theorem reads_lastMember (h : Reads t (.member m)) : Reads t (.members [m]) := by
  intro fuel rest hfuel
  obtain ⟨fuel, rfl⟩ := Nat.exists_eq_add_one_of_ne_zero (Nat.ne_zero_of_lt hfuel)
  have hstops : Stops (0x7D :: rest) := stops_cons (by decide) rest
  obtain ⟨sp, hsp, hread⟩ := h fuel _ (Nat.le_of_lt_succ hfuel) hstops
  exact readMembers_succ_eq_some_iff.mpr ⟨m, [], _, hread, onward_close hsp rfl, rfl⟩

theorem reads_members {ts : Octets} (h : Reads t (.member m)) (hs : Reads ts (.members ms)) :
    Reads (t ++ 0x2C :: ts) (.members (m :: ms)) := by
  intro fuel rest hfuel
  obtain ⟨fuel, rfl⟩ := Nat.exists_eq_add_one_of_ne_zero (Nat.ne_zero_of_lt hfuel)
  rw [List.length_append, List.length_cons] at hfuel
  have hstops : Stops (0x2C :: (ts ++ 0x7D :: rest)) := stops_cons (by decide) _
  obtain ⟨sp, hsp, hread⟩ := h fuel _ (by omega) hstops
  have hmore : readMembers fuel (ts ++ 0x7D :: rest) = some (ms, rest) := hs fuel rest (by omega)
  rw [List.append_assoc, List.cons_append]
  exact readMembers_succ_eq_some_iff.mpr ⟨m, ms, _, hread, onward_comma hsp hmore, rfl⟩

/-- By induction on the rules. -/
theorem Written.reads {p : Part} (h : Written t p) : Reads t p := by
  induction h with
  | null => exact reads_null
  | true => exact reads_true
  | false => exact reads_false
  | unsigned h => exact reads_unsigned h
  | negative h => exact reads_negative h
  | string h => exact reads_string h
  | emptyArray hsp => exact reads_emptyArray hsp
  | array _ ih => exact reads_array ih
  | emptyObject hsp => exact reads_emptyObject hsp
  | object _ ih => exact reads_object ih
  | element hsp _ hsp' ih => exact reads_element hsp ih hsp'
  | lastItem _ ih => exact reads_lastItem ih
  | items _ _ ih ihs => exact reads_items ih ihs
  | member hsp hkey hsp' _ ih => exact reads_member hsp hkey hsp' ih
  | lastMember _ ih => exact reads_lastMember ih
  | members _ _ ih ihs => exact reads_members ih ihs

/-- **The reader accepts the JSON texts, each with its value, and nothing else.** -/
theorem parse_eq_some_iff : parse b = some j ↔ IsText b j := by
  constructor
  · intro h
    obtain ⟨⟨j', rest⟩, hvalue, h⟩ := Option.bind_eq_some_iff.mp h
    dsimp only at h
    split_ifs at h with hrest
    cases h
    obtain ⟨t, ht, rfl⟩ := (soundAt _).value hvalue
    exact ht.element_blank (blank_of_skipSpace (List.isEmpty_iff.mp hrest))
  · intro h
    obtain ⟨sp, hsp, hread⟩ := h.reads (2 * b.length + 2) [] (by omega) stops_nil
    rw [List.append_nil, List.append_nil] at hread
    unfold parse
    rw [hread]
    change (if (skipSpace sp).isEmpty then some j else none) = some j
    rw [skipSpace_of_blank hsp]
    rfl

/-- A JSON text has one value. -/
theorem IsText.unique {j' : Json} (h : IsText b j) (h' : IsText b j') : j = j' :=
  Option.some.inj ((parse_eq_some_iff.mpr h).symm.trans (parse_eq_some_iff.mpr h'))

end Nsq.Json
