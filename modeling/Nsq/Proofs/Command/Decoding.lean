import Nsq.Proofs.Name
import Nsq.Proofs.Number.Decimal
import Nsq.Proofs.Octets
import Nsq.Command.Reading
import Mathlib.Algebra.BigOperators.Group.List.Basic
import Mathlib.Algebra.Order.Group.Nat
import Mathlib.Algebra.GroupWithZero.Nat
import Mathlib.Algebra.Order.BigOperators.Group.List

/-!
# Commands are read back

What a client writes is one run of octets, without marks between one command and the next. The
daemon finds the commands in it because a line has no line feed but its last octet, the words of a
line have no blank, and whether a body follows hangs on the first word alone; the octets of a body
do not matter, since its length stands in front of it. So a command is found at the front of its
octets whatever follows (`Reading.first_octets`), a run of commands is read back in full, and the
body of a batch is taken apart into its parts (`readings_of_encode`).

A command is `WellFormed` if its topic and channel are names, its message identifier has no blank
and no line feed, and its body fits its length field.
-/

namespace Nsq

/-! ### Words of a line -/

namespace Text

variable {α : Type} [DecidableEq α] {sep : α}

theorem splitAll_of_not_mem {w : List α} (h : sep ∉ w) : splitAll sep w = [w] := by
  induction w with
  | nil => rfl
  | cons a w ih =>
    obtain ⟨ha, hw⟩ := List.ne_and_not_mem_of_not_mem_cons h
    rw [splitAll, if_neg (Ne.symm ha), ih hw]

theorem splitAll_append_cons {w : List α} (h : sep ∉ w) (rest : List α) :
    splitAll sep (w ++ sep :: rest) = w :: splitAll sep rest := by
  induction w with
  | nil => rw [List.nil_append, splitAll, if_pos rfl]
  | cons a w ih =>
    obtain ⟨ha, hw⟩ := List.ne_and_not_mem_of_not_mem_cons h
    rw [List.cons_append, splitAll, if_neg (Ne.symm ha), ih hw]

/-- Words without the separator are the pieces that are found when they stand behind separators. -/
theorem splitAll_flatMap {w : List α} {ws : List (List α)} (h : sep ∉ w)
    (hs : ∀ v ∈ ws, sep ∉ v) : splitAll sep (w ++ ws.flatMap fun v => sep :: v) = w :: ws := by
  induction ws generalizing w with
  | nil => rw [List.flatMap_nil, List.append_nil, splitAll_of_not_mem h]
  | cons v ws ih =>
    obtain ⟨hv, hws⟩ := List.forall_mem_cons.mp hs
    rw [List.flatMap_cons, List.cons_append, splitAll_append_cons h, ih hv hws]

end Text

/-- A word has no blank, which would end it, and no line feed, which would end its line. -/
def Octets.Clear (w : Octets) : Prop := 0x20 ∉ w ∧ 0x0A ∉ w

namespace Octets

instance (w : Octets) : Decidable w.Clear := inferInstanceAs (Decidable (_ ∧ _))

theorem clear_ofString {s : String} (h : ∀ c ∈ s.toList, c ≠ ' ' ∧ c ≠ '\n') :
    Clear (ofString s) := by
  constructor
  · exact not_mem_ofString (by decide) fun c hc e => (h c hc).1 (Char.toNat_inj.mp e)
  · exact not_mem_ofString (by decide) fun c hc e => (h c hc).2 (Char.toNat_inj.mp e)

/-- Characters that are given are looked at one by one. -/
theorem forall_ne_of_all {cs : List Char} (h : (cs.all fun c => c != ' ' && c != '\n') = true) :
    ∀ c ∈ cs, c ≠ ' ' ∧ c ≠ '\n' := by
  simpa using h

end Octets

/-! ### Names and numbers as words -/

/-- A name is a word. -/
theorem Name.clear_of_isValid {s : String} (h : isValid s = true) :
    (Octets.ofString s).Clear := by
  refine Octets.clear_ofString fun c hc => ?_
  obtain ⟨hblank, hfeed, -⟩ := plain_of_isValid h c hc
  exact ⟨hblank, hfeed⟩

namespace Command

/-- A number is a word of digits, perhaps behind a sign. -/
theorem clear_decimal (i : Int) : (decimal i).Clear := by
  refine Octets.clear_ofString fun c hc => ?_
  rcases isDigit_or_minus_of_mem hc with hdigit | rfl
  · constructor <;> rintro rfl <;> exact absurd hdigit (by decide)
  · decide

theorem clear_name (c : Command) : (Octets.ofString c.name).Clear := by
  refine Octets.clear_ofString (Octets.forall_ne_of_all ?_)
  cases c <;> dsimp only [name] <;> decide

/-! ### Commands that can be written -/

/-- The topic that a command names. -/
def topic? : Command → Option String
  | subscribe topic _ | publish topic _ | deferredPublish topic _ _ | multiPublish topic _ =>
    some topic
  | _ => none

/-- The channel that a command names. -/
def channel? : Command → Option String
  | subscribe _ channel => some channel
  | _ => none

/-- The message that a command concerns. -/
def id? : Command → Option Octets
  | finish id | requeue id _ | touch id => some id
  | _ => none

/-- Topic and channel are names, the identifier of a message is a word, and the body fits its
length field. -/
structure WellFormed (c : Command) : Prop where
  topic : ∀ t ∈ c.topic?, Name.isValidTopic t = true
  channel : ∀ t ∈ c.channel?, Name.isValidChannel t = true
  id : ∀ b ∈ c.id?, b.Clear
  fits : c.fits = true

instance (c : Command) : Decidable c.WellFormed :=
  decidable_of_iff
    ((∀ t ∈ c.topic?, Name.isValidTopic t = true) ∧
      (∀ t ∈ c.channel?, Name.isValidChannel t = true) ∧ (∀ b ∈ c.id?, b.Clear) ∧ c.fits = true)
    ⟨fun ⟨ht, hc, hi, hf⟩ => ⟨ht, hc, hi, hf⟩, fun h => ⟨h.topic, h.channel, h.id, h.fits⟩⟩

theorem WellFormed.clear_params {c : Command} (h : c.WellFormed) : ∀ p ∈ c.params, p.Clear := by
  have htopic : ∀ t, c.topic? = some t → (Octets.ofString t).Clear :=
    fun t ht => Name.clear_of_isValid (h.topic t ht)
  have hchannel : ∀ t, c.channel? = some t → (Octets.ofString t).Clear :=
    fun t ht => Name.clear_of_isValid (h.channel t ht)
  cases c with
  | identify | auth | startClose | nop => exact List.forall_mem_nil _
  | subscribe topic channel =>
    exact List.forall_mem_cons.mpr
      ⟨htopic topic rfl, List.forall_mem_singleton.mpr (hchannel channel rfl)⟩
  | publish topic | multiPublish topic => exact List.forall_mem_singleton.mpr (htopic topic rfl)
  | deferredPublish topic delay =>
    exact List.forall_mem_cons.mpr
      ⟨htopic topic rfl, List.forall_mem_singleton.mpr (clear_decimal delay.millis)⟩
  | ready count => exact List.forall_mem_singleton.mpr (clear_decimal count)
  | finish id | touch id => exact List.forall_mem_singleton.mpr (h.id id rfl)
  | requeue id delay =>
    exact List.forall_mem_cons.mpr
      ⟨h.id id rfl, List.forall_mem_singleton.mpr (clear_decimal delay.millis)⟩

/-! ### Lines and counted runs -/

/-- The words of the line of a command, with the blanks between them. -/
def line (c : Command) : Octets :=
  Octets.ofString c.name ++ c.params.flatMap fun p => 0x20 :: p

theorem octets_eq (c : Command) : c.octets = c.line ++ 0x0A :: c.bodyPieces.flatten := by
  have hp : ∀ ps : List Octets,
      (ps.flatMap fun p => [[0x20], p]).flatten = ps.flatMap fun p => 0x20 :: p := by
    intro ps
    induction ps with
    | nil => rfl
    | cons p ps ih => simp [List.flatMap_cons, ih]
  simp [octets, linePieces, line, hp]

theorem octets_ne_nil (c : Command) : c.octets ≠ [] := by
  rw [octets_eq]
  exact List.append_ne_nil_of_right_ne_nil _ (List.cons_ne_nil _ _)

theorem WellFormed.no_feed {c : Command} (h : c.WellFormed) : (0x0A : UInt8) ∉ c.line := by
  rw [line, List.mem_append, List.mem_flatMap, not_or]
  refine ⟨c.clear_name.2, ?_⟩
  rintro ⟨p, hp, hmem⟩
  rcases List.mem_cons.mp hmem with heq | hmem
  · exact absurd heq (by decide)
  · exact (h.clear_params p hp).2 hmem

namespace Reading

theorem line_append {w : Octets} (h : 0x0A ∉ w) (rest : Octets) :
    line (w ++ 0x0A :: rest) = some (w, rest) := by
  have hall : ∀ o ∈ w, (o != 0x0A) = true := by
    intro o ho
    rw [bne_iff_ne]
    exact fun e => h (e ▸ ho)
  unfold line
  rw [List.dropWhile_append_of_pos hall, List.takeWhile_append_of_pos hall,
    List.dropWhile_cons_of_neg (by decide), List.takeWhile_cons_of_neg (by decide),
    List.append_nil]

theorem counted_append {body : Octets} (h : body.length < lengthBound) (rest : Octets) :
    counted (Octets.word 4 body.length ++ (body ++ rest)) = some (body, rest) := by
  have hlen := Octets.length_word 4 body.length
  have hn : Octets.toNat ((Octets.word 4 body.length ++ (body ++ rest)).take 4) = body.length := by
    rw [List.take_left' hlen, Octets.toNat_word_of_lt h]
  unfold counted
  dsimp only
  rw [hn, if_neg (by simp), ← List.drop_drop, List.drop_left' hlen, List.take_left,
    List.drop_left]

theorem bodied_contains (c : Command) :
    bodied.contains (Octets.ofString c.name) = c.body.isSome := by
  cases c <;> rfl

/-! ### Runs of commands -/

/-- A command is found at the front of its octets, whatever follows. -/
theorem first_octets {c : Command} (h : c.WellFormed) (rest : Octets) :
    first (c.octets ++ rest) = some (c.reading, rest) := by
  have hwords : Text.splitAll 0x20 c.line = Octets.ofString c.name :: c.params :=
    Text.splitAll_flatMap c.clear_name.1 fun p hp => (h.clear_params p hp).1
  have hfits := h.fits
  unfold first
  rw [octets_eq, List.append_assoc, List.cons_append, line_append h.no_feed]
  simp only [Option.bind_eq_bind, Option.bind_some, hwords, bodied_contains]
  unfold reading bodyPieces
  unfold fits at hfits
  cases hb : c.body with
  | none => simp
  | some body =>
    rw [hb] at hfits
    simp [counted_append (of_decide_eq_true hfits)]

/-- The octets of commands one after another are read as these commands. -/
theorem all_octets {cs : List Command} (h : ∀ c ∈ cs, c.WellFormed) :
    all (cs.flatMap octets) = some (cs.map reading) := by
  induction cs with
  | nil => rw [all]; rfl
  | cons c cs ih =>
    obtain ⟨hc, hcs⟩ := List.forall_mem_cons.mp h
    have hfirst := first_octets hc (cs.flatMap octets)
    have hne : c.octets ++ cs.flatMap octets ≠ [] :=
      List.append_ne_nil_of_left_ne_nil c.octets_ne_nil _
    rw [List.flatMap_cons, all, if_neg (by simpa using hne)]
    split
    · rename_i hnone
      rw [hfirst] at hnone
      cases hnone
    · rename_i r rest hsome
      rw [hfirst] at hsome
      cases hsome
      rw [ih hcs, Option.map_some, List.map_cons]

/-- The octets of commands tell the commands: only runs of equal readings have equal octets. -/
theorem readings_eq_of_octets_eq {cs ds : List Command} (hcs : ∀ c ∈ cs, c.WellFormed)
    (hds : ∀ d ∈ ds, d.WellFormed) (h : cs.flatMap octets = ds.flatMap octets) :
    cs.map reading = ds.map reading := by
  have hread : some (cs.map reading) = some (ds.map reading) := by
    rw [← all_octets hcs, ← all_octets hds, h]
  exact Option.some.inj hread

/-! ### The parts of a batch -/

/-- Runs behind their lengths are taken one after another. -/
theorem countedAll_flatMap {parts : List Octets} (h : ∀ p ∈ parts, p.length < lengthBound)
    (rest : Octets) :
    countedAll parts.length ((parts.flatMap fun p => Octets.word 4 p.length ++ p) ++ rest) =
      some (parts, rest) := by
  induction parts with
  | nil => rfl
  | cons p parts ih =>
    obtain ⟨hp, hparts⟩ := List.forall_mem_cons.mp h
    rw [List.flatMap_cons, List.append_assoc, List.append_assoc, List.length_cons, countedAll,
      counted_append hp]
    simp [ih hparts]

theorem parts_batch {ps : List Octets} (hcount : ps.length < lengthBound)
    (h : ∀ p ∈ ps, p.length < lengthBound) : parts (batch ps) = some ps := by
  have hlen := Octets.length_word 4 ps.length
  have hall := countedAll_flatMap h []
  rw [List.append_nil] at hall
  unfold parts batch
  rw [if_neg (by simp), List.take_left' hlen, List.drop_left' hlen,
    Octets.toNat_word_of_lt hcount, hall]

end Reading

/-- A batch holds four octets for the number of its parts, and each part behind four. -/
theorem length_batch (ps : List Octets) :
    (batch ps).length = 4 + (ps.map fun p => 4 + p.length).sum := by
  simp [batch, List.length_flatMap]

/-- If a batch fits its length field, so do the number of its parts and their lengths. -/
theorem bounds_of_batch {ps : List Octets} (h : (batch ps).length < lengthBound) :
    ps.length < lengthBound ∧ ∀ p ∈ ps, p.length < lengthBound := by
  have hone : ∀ n ∈ ps.map fun p => 4 + p.length, 1 ≤ n := by
    simp only [List.forall_mem_map]
    omega
  have hcount := List.length_le_sum_of_one_le _ hone
  rw [List.length_map] at hcount
  rw [length_batch] at h
  refine ⟨by omega, fun p hp => ?_⟩
  have hpart := List.le_sum_of_mem (List.mem_map_of_mem (f := fun p => 4 + p.length) hp)
  omega

/-! ### What is written is what is read -/

/-- Commands whose bodies fit are written one after another. -/
theorem mapM_encode {cs : List Command} (h : ∀ c ∈ cs, c.fits = true) :
    cs.mapM encode = .ok (cs.map octets) := by
  induction cs with
  | nil => rfl
  | cons c cs ih =>
    obtain ⟨hc, hcs⟩ := List.forall_mem_cons.mp h
    rw [List.mapM_cons, ih hcs, encode, if_pos hc]
    rfl

/-- **Commands are read back.** Well-formed commands are written one after another, and the octets
are read as the names, the parameters and the bodies of these commands, with nothing left over. A
batch among them is one that can be built, and its body is taken apart into the parts that were
published. -/
theorem readings_of_encode {cs : List Command} (h : ∀ c ∈ cs, c.WellFormed) :
    ∃ runs : List Octets, cs.mapM encode = .ok runs ∧
      Reading.all runs.flatten = some (cs.map reading) ∧
      ∀ topic parts, multiPublish topic parts ∈ cs →
        multiPublish? topic parts = .ok (multiPublish topic parts) ∧
          (multiPublish topic parts).reading.body.bind Reading.parts = some parts := by
  refine ⟨cs.map octets, mapM_encode fun c hc => (h c hc).fits, ?_, ?_⟩
  · rw [← List.flatMap_def]
    exact Reading.all_octets h
  · intro topic parts hmem
    have hfits := (h _ hmem).fits
    obtain ⟨hcount, hparts⟩ := bounds_of_batch (of_decide_eq_true hfits)
    exact ⟨if_pos ⟨hcount, hparts⟩, Reading.parts_batch hcount hparts⟩

/-- Commands whose bodies hold what ends a word or a line. -/
def sample : List Command :=
  [identify (Octets.ofString "{}"), subscribe "events" "archive#ephemeral",
    publish "events" [0x0A, 0x20], multiPublish "events" [[0x0A], [], [0x20]], ready (-1),
    deferredPublish "events" ⟨250000000, by decide⟩ [], finish [0x30], nop]

theorem readings_of_encode_sample :
    ∃ runs : List Octets, sample.mapM encode = .ok runs ∧
      Reading.all runs.flatten = some (sample.map reading) ∧
      ∀ topic parts, multiPublish topic parts ∈ sample →
        multiPublish? topic parts = .ok (multiPublish topic parts) ∧
          (multiPublish topic parts).reading.body.bind Reading.parts = some parts :=
  readings_of_encode (by decide +kernel)

end Command

end Nsq
