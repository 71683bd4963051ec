import Nsq.Proofs.Connection.Stranding

/-!
# Octets in pieces

A daemon sends its octets in pieces, and a connection takes what has arrived before it waits for
more. How the octets are cut does not show: neither in what the owner is told, nor in what is sent
back, nor in where the connection stands (`Run.steps_feed_append`).

Octets that arrive later change nothing about a turn of reading that is possible already
(`read_push`): the frame in front of them stays the same (`Frame.front_append_of_frame`), and what
arrives after the reading has stopped is dropped. So octets may as well arrive when the ones before
them are read (`readFor_push`). Between two pieces a connection settles, which changes nothing as
long as it goes on reading: the end was not due before, and a turn of reading after somebody asked
for it is the last one (`settle_of_reading`).
-/

namespace Nsq

/-! ### Frames in front of more octets -/

namespace Frame

variable {maxSize : Nat} {b : Octets}

/-- Whatever follows a frame, the frame is what stands in front. -/
theorem front_append_of_frame {f : Frame} {rest : Octets} (h : front maxSize b = .frame f rest)
    (more : Octets) : front maxSize (b ++ more) = .frame f (rest ++ more) := by
  unfold front at h ⊢
  split_ifs at h with hb
  have hlen : ¬(b ++ more).length < 4 := by
    rw [List.length_append]
    omega
  rw [if_neg hlen, List.take_append_of_le_length (by omega)]
  split at h
  · cases h
  · rename_i n hn
    have hdrop : (b ++ more).drop 4 = b.drop 4 ++ more :=
      List.drop_append_of_le_length (by omega)
    dsimp only at h ⊢
    split_ifs at h with hshort
    have hlong : ¬(b.drop 4 ++ more).length < n := by
      rw [List.length_append]
      omega
    rw [hdrop, if_neg hlong, List.take_append_of_le_length (by omega),
      List.drop_append_of_le_length (by omega)]
    split at h
    · cases h
    · cases h
      rfl

/-- Octets that begin with no frame do so whatever follows them. -/
theorem front_append_of_fault {fault : IoFault} (h : front maxSize b = .fault fault)
    (more : Octets) : front maxSize (b ++ more) = .fault fault := by
  unfold front at h ⊢
  split_ifs at h with hb
  have hlen : ¬(b ++ more).length < 4 := by
    rw [List.length_append]
    omega
  rw [if_neg hlen, List.take_append_of_le_length (by omega)]
  split at h
  · exact h
  · rename_i n hn
    have hdrop : (b ++ more).drop 4 = b.drop 4 ++ more :=
      List.drop_append_of_le_length (by omega)
    dsimp only at h ⊢
    split_ifs at h with hshort
    have hlong : ¬(b.drop 4 ++ more).length < n := by
      rw [List.length_append]
      omega
    rw [hdrop, if_neg hlong, List.take_append_of_le_length (by omega)]
    split at h
    · exact h
    · cases h

end Frame

namespace Connection

variable {c c' : Connection} {events : List Event}

/-! ### Turns of reading and octets that arrive later -/

theorem push_of_reading (h : c.reading = true) (b : Octets) :
    c.push b = { c with unread := c.unread ++ b } := by
  rw [push, if_pos h]

theorem push_of_not_reading (h : c.reading = false) (b : Octets) : c.push b = c := by
  rw [push, if_neg (by simp [h])]

theorem push_append (b₁ b₂ : Octets) (c : Connection) :
    c.push (b₁ ++ b₂) = (c.push b₁).push b₂ := by
  cases h : c.reading with
  | false => simp only [push_of_not_reading h]
  | true => simp [push, h]

/-- What a connection drops when it stops reading need not arrive at all. -/
theorem push_endReading (b : Octets) (c : Connection) : c.endReading.push b = c.endReading :=
  push_of_not_reading (endReading_reading c) b

theorem endReading_push (b : Octets) (c : Connection) : (c.push b).endReading = c.endReading := by
  rw [endReading_eq, endReading_eq, push]
  split_ifs <;> rfl

theorem report_push (f : IoFault) (b : Octets) (c : Connection) :
    (c.push b).report f = ((c.report f).1, (c.report f).2.push b) := by
  rw [report_eq, report_eq, push, push]
  split_ifs <;> rfl

theorem write_push (cmd : Command) (b : Octets) (c : Connection) :
    (c.push b).write cmd = ((c.write cmd).1, (c.write cmd).2.1, (c.write cmd).2.2.push b) := by
  have hrefusing : (c.push b).refusing = c.refusing := by
    rw [push]
    split_ifs <;> rfl
  unfold write
  simp only [hrefusing, report_push]
  split_ifs
  · rfl
  · rfl
  · rw [push, push]
    split_ifs <;> rfl

/-- Taking a frame does not look at what follows it. -/
theorem receive_push (f : Frame) (b : Octets) (c : Connection) :
    (c.push b).receive f = ((c.receive f).1, (c.receive f).2.push b) := by
  unfold receive
  cases f.kind with
  | error => rfl
  | response =>
    dsimp only
    split_ifs
    · rw [write_push]
      rcases write_cases .nop c with ⟨fault, h⟩ | h <;> rw [h]
      · simp only [endReading_push, push_endReading]
    · rfl
  | message =>
    dsimp only
    cases Message.decode f.data with
    | ok m =>
      dsimp only
      cases h : c.reading with
      | false => rw [push_of_not_reading h, push_of_not_reading (c := c.arrive) h]
      | true =>
        rw [push_of_reading h, push_of_reading (c := c.arrive) h]
        rfl
    | error fault => simp only [report_push, endReading_push, push_endReading]

theorem breakOff_push (fault : IoFault) (b : Octets) (c : Connection) :
    (c.push b).breakOff fault = ((c.breakOff fault).1, (c.breakOff fault).2.push b) := by
  have hclosing : (c.push b).closing = c.closing := by
    rw [push]
    split_ifs <;> rfl
  unfold breakOff
  rw [hclosing, report_push]
  split_ifs <;> simp only [endReading_push, push_endReading]

theorem lookUp_push (b : Octets) (c : Connection) : (c.push b).lookUp = c.lookUp.push b := by
  cases h : c.reading with
  | false => simp [lookUp, push, h]
  | true =>
    unfold lookUp
    rw [push_of_reading h]
    dsimp only
    split_ifs with hend
    · rw [← push_of_reading h, endReading_push, push_endReading]
    · rw [push_of_reading h]

/-- A turn of a connection that reads and waits for nobody. -/
theorem read_eq (hr : c.reading = true) (hs : c.stalled = false) :
    c.read =
      match Frame.front c.policy.maxFrame c.unread with
      | .frame f rest => some ({ c with unread := rest }.receive f)
      | .fault fault => some (c.breakOff fault)
      | .incomplete => if c.ended then some (c.breakOff .shortRead) else none := by
  have hgo : ¬(!c.reading || c.stalled) = true := by simp [hr, hs]
  rw [read]
  exact if_neg hgo

/-- A turn of reading that is possible is the same after more octets have arrived. -/
theorem read_push (h : c.read = some (events, c')) (he : c.ended = false) (b : Octets) :
    (c.push b).read = some (events, c'.push b) := by
  obtain ⟨hr, hs, -⟩ := read_cases h
  rw [read_eq hr hs] at h
  rw [push_of_reading hr, read_eq (c := { c with unread := c.unread ++ b }) hr hs]
  split at h
  · rename_i f rest hfront
    have hrest : ({ c with unread := rest ++ b } : Connection) =
        ({ c with unread := rest } : Connection).push b :=
      (push_of_reading (c := { c with unread := rest }) hr b).symm
    rw [Frame.front_append_of_frame hfront]
    dsimp only
    rw [hrest, receive_push, Option.some.inj h]
  · rename_i fault hfront
    rw [Frame.front_append_of_fault hfront]
    dsimp only
    rw [← push_of_reading hr, breakOff_push, Option.some.inj h]
  · simp [he] at h

/-! ### Reading all that has arrived -/

theorem report_ended (f : IoFault) (c : Connection) : (c.report f).2.ended = c.ended := by
  rw [report_eq]

theorem endReading_ended (c : Connection) : c.endReading.ended = c.ended := by
  rw [endReading_eq]

theorem receive_unread (f : Frame) (c : Connection) :
    (c.receive f).2.ended = c.ended ∧
      ((c.receive f).2.reading = false ∨ (c.receive f).2.unread = c.unread) := by
  unfold receive
  cases f.kind with
  | error => exact ⟨rfl, .inr rfl⟩
  | response =>
    dsimp only
    split_ifs
    · rcases write_cases .nop c with ⟨fault, h⟩ | h <;> rw [h]
      · exact ⟨(endReading_ended _).trans (report_ended fault c), .inl (endReading_reading _)⟩
      · exact ⟨rfl, .inr rfl⟩
    · exact ⟨rfl, .inr rfl⟩
  | message =>
    dsimp only
    cases Message.decode f.data with
    | ok m => exact ⟨rfl, .inr rfl⟩
    | error fault =>
      exact ⟨(endReading_ended _).trans (report_ended fault c), .inl (endReading_reading _)⟩

theorem breakOff_unread (fault : IoFault) (c : Connection) :
    (c.breakOff fault).2.ended = c.ended ∧ (c.breakOff fault).2.reading = false := by
  unfold breakOff
  split_ifs
  · exact ⟨endReading_ended c, endReading_reading c⟩
  · exact ⟨(endReading_ended _).trans (report_ended fault c), endReading_reading _⟩

/-- A turn of reading takes an octet or ends the reading. -/
theorem read_unread (h : c.read = some (events, c')) :
    c'.ended = c.ended ∧ (c'.reading = false ∨ c'.unread.length < c.unread.length) := by
  obtain ⟨hr, hs, -⟩ := read_cases h
  rw [read_eq hr hs] at h
  split at h
  · rename_i f rest hfront
    have hshort := Frame.length_lt_of_front hfront
    have hkeep := receive_unread f { c with unread := rest }
    rw [Option.some.inj h] at hkeep
    exact ⟨hkeep.1, hkeep.2.imp_right fun hrest => by rwa [hrest]⟩
  · rename_i fault hfront
    have hbreak := breakOff_unread fault c
    rw [Option.some.inj h] at hbreak
    exact ⟨hbreak.1, .inl hbreak.2⟩
  · split_ifs at h
    have hbreak := breakOff_unread .shortRead c
    rw [Option.some.inj h] at hbreak
    exact ⟨hbreak.1, .inl hbreak.2⟩

theorem lookUp_unread (c : Connection) :
    c.lookUp.ended = c.ended ∧ (c.lookUp.reading = false ∨ c.lookUp = c) := by
  unfold lookUp
  split_ifs
  · rw [endReading_eq]
    exact ⟨rfl, .inl rfl⟩
  · exact ⟨rfl, .inr rfl⟩

/-- The next turn has less to read, if there is one. -/
theorem read_lookUp_unread (h : c.read = some (events, c')) :
    c'.lookUp.ended = c.ended ∧
      (c'.lookUp.reading = false ∨ c'.lookUp.unread.length < c.unread.length) := by
  obtain ⟨hended, hread⟩ := read_unread h
  obtain ⟨hended', hlook⟩ := lookUp_unread c'
  refine ⟨hended'.trans hended, ?_⟩
  rcases hlook with hlook | hlook
  · exact .inl hlook
  · rwa [hlook]

theorem read_of_not_reading (h : c.reading = false) : c.read = none := by
  simp [read, h]

/-- Turns beyond one for every octet read nothing more. -/
theorem readFor_eq_readFor {n m : Nat} (hn : c.reading = false ∨ c.unread.length < n)
    (hm : c.reading = false ∨ c.unread.length < m) : c.readFor n = c.readFor m := by
  have hstop : ∀ (n : Nat) (c : Connection), c.reading = false → c.readFor n = ([], c) := by
    intro n c hr
    cases n with
    | zero => rfl
    | succ n => rw [readFor, read_of_not_reading hr]
  induction n generalizing c m with
  | zero =>
    have hr := hn.resolve_right (Nat.not_lt_zero _)
    rw [hstop 0 c hr, hstop m c hr]
  | succ n ih =>
    cases m with
    | zero =>
      have hr := hm.resolve_right (Nat.not_lt_zero _)
      rw [hstop _ c hr, hstop 0 c hr]
    | succ m =>
      rw [readFor, readFor]
      cases h : c.read with
      | none => rfl
      | some p =>
        obtain ⟨hr, -, -⟩ := read_cases h
        obtain ⟨-, hless⟩ := read_lookUp_unread h
        have hbound : ∀ {k : Nat}, (c.reading = false ∨ c.unread.length < k + 1) →
            p.2.lookUp.reading = false ∨ p.2.lookUp.unread.length < k := fun hk =>
          hless.imp_right fun hless => by
            have := hk.resolve_left (by simp [hr])
            omega
        dsimp only
        rw [ih (hbound hn) (hbound hm)]

/-- To read all is to take a turn and to read all that is left then. -/
theorem readAll_of_read (h : c.read = some (events, c')) :
    c.readAll = (events ++ c'.lookUp.readAll.1, c'.lookUp.readAll.2) := by
  obtain ⟨-, hless⟩ := read_lookUp_unread h
  have hfor : c'.lookUp.readFor c.unread.length = c'.lookUp.readAll :=
    readFor_eq_readFor hless (.inr (Nat.lt_succ_self _))
  rw [readAll, readFor, h]
  dsimp only
  rw [hfor]

theorem readFor_ended (fuel : Nat) (c : Connection) : (c.readFor fuel).2.ended = c.ended := by
  induction fuel generalizing c with
  | zero => rfl
  | succ fuel ih =>
    rw [readFor]
    cases h : c.read with
    | none => rfl
    | some p => exact (ih p.2.lookUp).trans (read_lookUp_unread h).1

/-- Octets may arrive before the others are read. -/
theorem readFor_push (he : c.ended = false) (fuel : Nat) (b : Octets) :
    (c.push b).readAll =
      ((c.readFor fuel).1 ++ ((c.readFor fuel).2.push b).readAll.1,
        ((c.readFor fuel).2.push b).readAll.2) := by
  induction fuel generalizing c with
  | zero => rfl
  | succ fuel ih =>
    rw [readFor]
    cases h : c.read with
    | none => rfl
    | some p =>
      obtain ⟨hended, -⟩ := read_lookUp_unread h
      dsimp only
      rw [readAll_of_read (read_push h he b), lookUp_push, ih (hended.trans he), List.append_assoc]

/-- A turn of a connection that was asked for its end is the last one. -/
theorem readFor_of_reading (fuel : Nat) (h : (c.readFor fuel).2.reading = true) :
    (c.readFor fuel).2 = c ∨ (c.readFor fuel).2.closing = false := by
  induction fuel generalizing c with
  | zero => exact .inl rfl
  | succ fuel ih =>
    rw [readFor] at h ⊢
    cases hread : c.read with
    | none => exact .inl rfl
    | some p =>
      rw [hread] at h
      dsimp only at h ⊢
      rcases ih h with hsame | hopen
      · right
        rw [hsame] at h ⊢
        unfold lookUp at h ⊢
        split_ifs at h ⊢ with hlook
        · simp at h
        · simpa [h] using hlook
      · exact .inr hopen

/-- Nothing of what has arrived is left to be waited for once the daemon has ended its octets. -/
theorem readFor_of_ended (hs : c.stalled = false) (he : c.ended = true) {fuel : Nat}
    (h : c.reading = false ∨ c.unread.length < fuel) : (c.readFor fuel).2.reading = false := by
  induction fuel generalizing c with
  | zero => exact h.resolve_right (Nat.not_lt_zero _)
  | succ fuel ih =>
    rw [readFor]
    cases hread : c.read with
    | none =>
      dsimp only
      cases hr : c.reading with
      | false => rfl
      | true =>
        rw [read_eq hr hs] at hread
        split at hread <;> simp [he] at hread
    | some p =>
      obtain ⟨hr, -, -⟩ := read_cases hread
      obtain ⟨hended, hless⟩ := read_lookUp_unread hread
      have hcalm : Calm c p.2.lookUp := by simpa [readFor, hread] using calm_readFor 1 c
      refine ih ?_ (hended.trans he) ?_
      · rw [Bool.eq_false_iff]
        intro hst
        exact Bool.false_ne_true (hs.symm.trans (hcalm.stalled hst))
      · refine hless.imp_right fun hless => ?_
        have := h.resolve_left (by simp [hr])
        omega

/-! ### Between two acts -/

/-- A connection reads only as long as it waits for nobody and more octets may come. -/
def Listens (c : Connection) : Prop := c.reading = true → c.stalled = false ∧ c.ended = false

/-- A connection between two acts: it listens, and has drawn its conclusions. -/
structure Poised (c : Connection) : Prop where
  listens : Listens c
  settle : c.settle = ([], c)

theorem settle_eq_self (hread : (c.reading && !c.stalled && c.isDue) = false)
    (hend : (c.isDrained && !c.closed) = false) : c.settle = ([], c) := by
  rw [settle_eq, settled, hread]
  simp [hend]

theorem settle_reading (c : Connection) : c.settle.2.reading = c.settled.reading := by
  rcases settle_cases c with ⟨h, -⟩ | ⟨h, -, -⟩ <;> rw [h]

/-- Reading goes on when a connection settles exactly as long as the end is not due. -/
theorem settle_iff_of_reading (h : c.reading = true) :
    c.settle = ([], c) ↔ (!c.stalled && c.isDue) = false := by
  constructor
  · intro hs
    rw [← Bool.not_eq_true]
    intro hdue
    have hstop : c.settle.2.reading = false := by
      rw [settle_reading, settled, if_pos (by rwa [h, Bool.true_and])]
      exact endReading_reading c
    rw [hs] at hstop
    exact Bool.false_ne_true (hstop.symm.trans h)
  · intro hdue
    refine settle_eq_self (by rw [h, Bool.true_and, hdue]) ?_
    rw [isDrained, h]
    simp

/-- Conclusions once drawn are not drawn again. -/
theorem settle_settle (c : Connection) : c.settle.2.settle = ([], c.settle.2) := by
  have hread : (c.settled.reading && !c.settled.stalled && c.settled.isDue) = false := by
    unfold settled
    split_ifs with h
    · simp
    · rwa [Bool.not_eq_true] at h
  rcases settle_cases c with ⟨heq, hclosed⟩ | ⟨heq, -, -⟩ <;> rw [heq]
  · refine settle_eq_self hread ?_
    have hc : c.settled.closed = c.closed := (steady_settled c).closed
    cases hd : c.settled.isDrained with
    | false => rfl
    | true => rw [hc, hclosed hd]; rfl
  · exact settle_eq_self hread (by simp)

/-- What arrives does not make the end due, and neither does what is read of it as long as reading
goes on. -/
theorem settle_of_reading (hs : c.settle = ([], c)) {b : Octets} {fuel : Nat}
    (h : ((c.push b).readFor fuel).2.reading = true) :
    ((c.push b).readFor fuel).2.settle = ([], ((c.push b).readFor fuel).2) := by
  rw [settle_iff_of_reading h]
  rcases readFor_of_reading fuel h with hsame | hopen
  · rw [hsame] at h ⊢
    have hr : c.reading = true := (steady_push b c).reading h
    rw [settle_iff_of_reading hr] at hs
    rw [push_of_reading hr]
    exact hs
  · rw [isDue, hopen, Bool.false_and, Bool.and_false]

/-! ### One piece or two -/

/-- Some octets arrive, are read as far as they go, and the connection settles. -/
def take (b : Octets) (c : Connection) : List Event × Connection :=
  let (events, c) := (c.push b).readAll
  let (more, c) := c.settle
  (events ++ more, c)

theorem take_eq (b : Octets) (c : Connection) :
    c.take b =
      ((c.push b).readAll.1 ++ (c.push b).readAll.2.settle.1, (c.push b).readAll.2.settle.2) :=
  rfl

/-- A connection that does not read is not concerned with what arrives. -/
theorem take_of_not_reading (h : c.reading = false) (b : Octets) : c.take b = c.settle := by
  rw [take_eq, push_of_not_reading h, readAll_of_not_reading h]
  rfl

/-- **Pieces do not show.** A connection between two acts takes octets in two pieces, cut anywhere,
as it takes them at once. -/
theorem take_append (hc : Poised c) (b₁ b₂ : Octets) :
    c.take (b₁ ++ b₂) =
      ((c.take b₁).1 ++ ((c.take b₁).2.take b₂).1, ((c.take b₁).2.take b₂).2) := by
  cases hr : c.reading with
  | false =>
    rw [take_of_not_reading hr, take_of_not_reading hr, hc.settle]
    dsimp only
    rw [take_of_not_reading hr, hc.settle]
    rfl
  | true =>
    have hended : (c.push b₁).ended = false := by
      rw [push_of_reading hr]
      exact (hc.listens hr).2
    have hall : (c.push (b₁ ++ b₂)).readAll =
        ((c.push b₁).readAll.1 ++ ((c.push b₁).readAll.2.push b₂).readAll.1,
          ((c.push b₁).readAll.2.push b₂).readAll.2) := by
      rw [push_append]
      exact readFor_push hended _ b₂
    cases hgo : (c.push b₁).readAll.2.reading with
    | true =>
      -- the first piece leaves nothing to settle
      have hsettle : (c.push b₁).readAll.2.settle = ([], (c.push b₁).readAll.2) :=
        settle_of_reading hc.settle hgo
      rw [take_eq b₁, hsettle, take_eq, take_eq, hall]
      simp
    | false =>
      -- the second piece is not read
      have hstop : (c.push b₁).readAll.2.settle.2.reading = false := by
        rw [settle_reading, Bool.eq_false_iff]
        intro hread
        exact Bool.false_ne_true (hgo.symm.trans ((steady_settled _).reading hread))
      rw [take_eq b₁]
      dsimp only
      rw [take_of_not_reading hstop, settle_settle, take_eq, hall, push_of_not_reading hgo,
        readAll_of_not_reading hgo]
      simp

/-! ### Acts -/

/-- What decides whether a connection listens. -/
def attention (c : Connection) : Bool × Bool × Bool := (c.reading, c.stalled, c.ended)

theorem Listens.of_attention (h : Listens c) (ha : c'.attention = c.attention) : Listens c' := by
  simp only [attention, Prod.mk.injEq] at ha
  rw [Listens, ha.1, ha.2.1, ha.2.2]
  exact h

theorem listens_of_not_reading (h : c.reading = false) : Listens c :=
  fun hr => absurd (h.symm.trans hr) Bool.false_ne_true

theorem attention_write (cmd : Command) (c : Connection) :
    (c.write cmd).2.2.attention = c.attention := by
  rcases write_cases cmd c with ⟨f, h⟩ | h <;> rw [h]
  · rw [report_eq]
    rfl
  · rfl

theorem Emits.attention {cmd : Command} {p : List Event × Connection} (h : Emits cmd c p) :
    p.2.attention = c.attention := by
  rcases h.conn with heq | heq <;> rw [heq] <;> exact attention_write cmd c

theorem attention_touch (m : Message) (c : Connection) :
    (c.touch m).2.attention = c.attention := by
  rcases touch_cases m c with h | h
  · rw [h]
  · exact h.attention

theorem attention_answer (m : Message) (a : Answer) (c : Connection) :
    (c.answer m a).2.attention = c.attention := by
  cases hd : c.draining with
  | true =>
    rw [answer_of_draining hd]
    rfl
  | false =>
    rw [answer_of_not_draining hd]
    exact (emits_sendAnswer m a c.countAnswer).attention

/-- A connection that listens goes on to do so as long as octets may still come. -/
theorem listens_readAll (h : Listens c) : Listens c.readAll.2 := by
  cases hr : c.reading with
  | false =>
    rw [readAll_of_not_reading hr]
    exact h
  | true =>
    obtain ⟨hstalled, hended⟩ := h hr
    refine fun _ => ⟨?_, (readFor_ended _ c).trans hended⟩
    rw [Bool.eq_false_iff]
    intro hs
    exact Bool.false_ne_true (hstalled.symm.trans ((calm_readFor _ c).stalled hs))

/-- Settling stops the reading or leaves it as it is. -/
theorem listens_settle (h : Listens c) : Listens c.settle.2 := by
  have hsettled : Listens c.settled := by
    unfold settled
    split_ifs
    · exact listens_of_not_reading (endReading_reading c)
    · exact h
  rcases settle_cases c with ⟨heq, -⟩ | ⟨heq, -, -⟩ <;> rw [heq] <;> exact hsettled

namespace Run

theorem listens_act {r : Run} (h : Poised r.conn) (a : Act) : Listens (r.act a).2.2.conn := by
  cases a with
  | setRdy n => exact h.listens
  | feed b =>
    refine listens_readAll ?_
    cases hr : r.conn.reading with
    | false => rw [push_of_not_reading hr]; exact h.listens
    | true => rw [push_of_reading hr]; exact h.listens
  | endOfInput =>
    refine listens_of_not_reading ?_
    cases hr : r.conn.reading with
    | false =>
      have hp : r.conn.pushEnd.reading = false := hr
      simp only [act, readAll_of_not_reading hp]
      exact hp
    | true =>
      exact readFor_of_ended (c := r.conn.pushEnd) (h.listens hr).1 rfl (.inr (Nat.lt_succ_self _))
  | close => exact h.listens
  | refuse on => exact h.listens
  | write cmd => exact h.listens.of_attention (attention_write cmd r.conn)
  | call i k =>
    cases hd : r.delivered[i]? with
    | none =>
      simp only [act, call_of_none hd]
      exact h.listens
    | some d =>
      obtain ⟨s, -, -, heq⟩ | ⟨-, -, heq⟩ | ⟨a, -, -, heq⟩ := call_cases hd k <;>
        simp only [act, heq]
      · exact h.listens
      · exact h.listens.of_attention (attention_touch d.message r.conn)
      · exact h.listens.of_attention (attention_answer d.message a r.conn)

theorem poised_step {r : Run} (h : Poised r.conn) (a : Act) : Poised (r.step a).2.2.conn := by
  rw [step_conn]
  exact ⟨listens_settle (listens_act h a), settle_settle _⟩

theorem poised_steps {r : Run} (h : Poised r.conn) (as : List Act) :
    Poised (r.steps as).2.conn := by
  induction as generalizing r with
  | nil => exact h
  | cons a as ih => exact ih (poised_step h a)

theorem poised_opened (address : String) (policy : Policy) (maxRdy : Int) :
    Poised (opened address policy maxRdy).conn :=
  ⟨fun _ => ⟨rfl, rfl⟩, rfl⟩

theorem advance_advance (r : Run) (p q : List Event × Connection) :
    (r.advance (p.1 ++ q.1, q.2)).2 = ((r.advance p).2.advance q).2 := by
  simp [advance]

theorem step_feed (b : Octets) (r : Run) :
    r.step (.feed b) = (.nothing, r.advance (r.conn.take b)) := by
  rw [step, act]
  simp [take_eq, advance, arrivals_append]

/-- **Pieces do not show.** In every state of a connection past its handshake, whatever its owner
does at a fault and whether or not writes fail: octets that arrive in two pieces, cut anywhere, lead
to the same events, the same commands written, the same messages delivered and the same state as the
same octets at once. -/
theorem steps_feed_append (address : String) (policy : Policy) (maxRdy : Int) (as : List Act)
    (b₁ b₂ : Octets) :
    let r := ((opened address policy maxRdy).steps as).2
    r.steps [.feed b₁, .feed b₂] = r.steps [.feed (b₁ ++ b₂)] := by
  intro r
  have hp : Poised r.conn := poised_steps (poised_opened address policy maxRdy) as
  simp only [steps, step_feed, List.append_nil, advance_events]
  rw [take_append hp, advance_advance]
  rfl

end Run

end Connection

end Nsq
