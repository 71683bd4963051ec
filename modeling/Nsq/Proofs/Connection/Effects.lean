import Nsq.Connection.Run
import Mathlib.Tactic.SplitIfs

/-!
# Effects on a connection

What each operation does to a connection, said once. Most of them are **steady**: they leave the
credit, the number of missing answers and the report of the end alone, and never take back a step
on the way to the end (`Steady`). The exceptions are an arriving message, a booked or counted
answer, a booked credit, and `settle`, which alone reports the end.

`read_cases`, `write_cases` and `settle_cases` are the inversion laws from which the theory of
runs is derived: one turn of reading either takes in a single message or is steady and tells only
*notices*, events that concern no message and no end.
-/

namespace Nsq.Connection

/-! ### Kinds of events -/

/-- An event that concerns neither a message nor the end. -/
def Event.isNotice : Event → Bool
  | .message _ _ _ | .finished _ _ | .requeued _ _ | .closed _ => false
  | _ => true

/-- A list of notices brings no message. -/
theorem arrivals_eq_nil {events : List Event} (h : ∀ e ∈ events, e.isNotice) :
    arrivals events = [] := by
  rw [arrivals, List.filterMap_eq_nil_iff]
  intro e he
  have hn := h e he
  cases e <;> simp_all [Event.isNotice]

@[simp] theorem arrivals_append (e₁ e₂ : List Event) :
    arrivals (e₁ ++ e₂) = arrivals e₁ ++ arrivals e₂ :=
  List.filterMap_append

/-! ### Steady changes -/

/-- A change that leaves the credit, the number of missing answers and the report of the end
alone, and never goes back on the way to the end. -/
structure Steady (c c' : Connection) : Prop where
  address : c'.address = c.address
  policy : c'.policy = c.policy
  maxRdy : c'.maxRdy = c.maxRdy
  rdy : c'.rdy = c.rdy
  lastRdy : c'.lastRdy = c.lastRdy
  inFlight : c'.inFlight = c.inFlight
  closed : c'.closed = c.closed
  closing : c.closing = true → c'.closing = true
  draining : c.draining = true → c'.draining = true
  reading : c'.reading = true → c.reading = true

namespace Steady

theorem refl (c : Connection) : Steady c c :=
  ⟨rfl, rfl, rfl, rfl, rfl, rfl, rfl, id, id, id⟩

theorem trans {c₁ c₂ c₃ : Connection} (h : Steady c₁ c₂) (h' : Steady c₂ c₃) : Steady c₁ c₃ where
  address := h'.address.trans h.address
  policy := h'.policy.trans h.policy
  maxRdy := h'.maxRdy.trans h.maxRdy
  rdy := h'.rdy.trans h.rdy
  lastRdy := h'.lastRdy.trans h.lastRdy
  inFlight := h'.inFlight.trans h.inFlight
  closed := h'.closed.trans h.closed
  closing := h'.closing ∘ h.closing
  draining := h'.draining ∘ h.draining
  reading := h.reading ∘ h'.reading

end Steady

/-! ### Connections that end in order -/

/-- What holds along the way to the end: only a connection that shall end stops reading or drains,
and one whose end was reported does neither read nor take credit any more. The owner asks for the
end at the first fault. -/
structure Tidy (c : Connection) : Prop where
  closesOnFault : c.policy.closesOnFault = true
  closing_of_not_reading : c.reading = false → c.closing = true
  closing_of_draining : c.draining = true → c.closing = true
  closing_of_closed : c.closed = true → c.closing = true
  not_reading_of_closed : c.closed = true → c.reading = false

/-- A connection whose end nobody asked for has not reported it. -/
theorem Tidy.closed_of_open {c : Connection} (t : Tidy c) (h : c.closing = false) :
    c.closed = false := by
  rw [Bool.eq_false_iff]
  intro hc
  simp [t.closing_of_closed hc] at h

/-- A connection that reads has not reported its end. -/
theorem Tidy.closed_of_reading {c : Connection} (t : Tidy c) (h : c.reading = true) :
    c.closed = false := by
  rw [Bool.eq_false_iff]
  intro hc
  simp [t.not_reading_of_closed hc] at h

/-- The end begins as soon as nothing is read any more and no answer is missing. -/
def Ending (c : Connection) : Prop := c.reading = false → c.inFlight = 0 → c.draining = true

/-- A change that keeps a connection in order and makes it wait for nobody. -/
structure Calm (c c' : Connection) : Prop where
  tidy : Tidy c → Tidy c'
  ending : Ending c → Ending c'
  stalled : c'.stalled = true → c.stalled = true

namespace Calm

theorem refl (c : Connection) : Calm c c := ⟨id, id, id⟩

theorem trans {c₁ c₂ c₃ : Connection} (h : Calm c₁ c₂) (h' : Calm c₂ c₃) : Calm c₁ c₃ :=
  ⟨h'.tidy ∘ h.tidy, h'.ending ∘ h.ending, h.stalled ∘ h'.stalled⟩

instance : Trans Calm Calm Calm := ⟨trans⟩

/-- A steady change that goes on reading keeps a connection in order, if it drains only what shall
end. -/
theorem of_steady {c c' : Connection} (h : Steady c c') (hr : c'.reading = c.reading)
    (hd : c'.draining = true → c.draining = true ∨ c'.closing = true)
    (hs : c'.stalled = c.stalled) : Calm c c' where
  tidy t :=
    { closesOnFault := h.policy ▸ t.closesOnFault
      closing_of_not_reading := fun e => h.closing (t.closing_of_not_reading (hr ▸ e))
      closing_of_draining := fun e =>
        (hd e).elim (fun e => h.closing (t.closing_of_draining e)) id
      closing_of_closed := fun e => h.closing (t.closing_of_closed (h.closed ▸ e))
      not_reading_of_closed := fun e => hr ▸ t.not_reading_of_closed (h.closed ▸ e) }
  ending e hr' hi := h.draining (e (hr ▸ hr') (h.inFlight ▸ hi))
  stalled e := hs ▸ e

end Calm

/-! ### The way to the end -/

theorem report_eq (f : IoFault) (c : Connection) :
    c.report f = ([.fault f], { c with closing := c.closing || c.policy.closesOnFault }) := by
  unfold report close
  cases c.policy.closesOnFault <;> simp

theorem endReading_eq (c : Connection) :
    c.endReading =
      { c with
        reading := false
        stalled := false
        unread := []
        closing := c.closing || c.inFlight == 0
        draining := c.draining || c.inFlight == 0 } := by
  unfold endReading beginClose
  by_cases h : c.inFlight = 0 <;> simp [h]

theorem steady_close (c : Connection) : Steady c c.close :=
  ⟨rfl, rfl, rfl, rfl, rfl, rfl, rfl, fun _ => rfl, id, id⟩

theorem steady_beginClose (c : Connection) : Steady c c.beginClose :=
  ⟨rfl, rfl, rfl, rfl, rfl, rfl, rfl, fun _ => rfl, fun _ => rfl, id⟩

theorem steady_endReading (c : Connection) : Steady c c.endReading := by
  rw [endReading_eq]
  exact ⟨rfl, rfl, rfl, rfl, rfl, rfl, rfl, fun h => by simp [h], fun h => by simp [h],
    fun h => absurd h Bool.false_ne_true⟩

theorem steady_report (f : IoFault) (c : Connection) : Steady c (c.report f).2 := by
  rw [report_eq]
  exact ⟨rfl, rfl, rfl, rfl, rfl, rfl, rfl, fun h => by simp [h], id, id⟩

@[simp] theorem endReading_reading (c : Connection) : c.endReading.reading = false := by
  rw [endReading_eq]

@[simp] theorem endReading_sent (c : Connection) : c.endReading.sent = c.sent := by
  rw [endReading_eq]

@[simp] theorem report_sent (f : IoFault) (c : Connection) : (c.report f).2.sent = c.sent := by
  rw [report_eq]

theorem calm_close (c : Connection) : Calm c c.close :=
  .of_steady (steady_close c) rfl .inl rfl

theorem calm_beginClose (c : Connection) : Calm c c.beginClose :=
  .of_steady (steady_beginClose c) rfl (fun _ => .inr rfl) rfl

theorem calm_report (f : IoFault) (c : Connection) : Calm c (c.report f).2 := by
  refine .of_steady (steady_report f c) ?_ ?_ ?_ <;> rw [report_eq]
  exact .inl

/-- A connection that shall end may stop reading. -/
theorem calm_endReading {c : Connection} (h : Tidy c → c.closing = true) : Calm c c.endReading := by
  refine ⟨fun t => ?_, fun _ _ hi => ?_, fun e => ?_⟩
  · have hc := (steady_endReading c).closing (h t)
    exact ⟨(steady_endReading c).policy ▸ t.closesOnFault, fun _ => hc, fun _ => hc, fun _ => hc,
      fun _ => endReading_reading c⟩
  · rw [endReading_eq] at hi ⊢
    simp only at hi
    simp [hi]
  · rw [endReading_eq] at e
    exact absurd e (by simp)

/-- After a fault, which makes the owner ask for the end, reading may stop. -/
theorem calm_report_endReading (f : IoFault) (c : Connection) :
    Calm c (c.report f).2.endReading := by
  refine (calm_report f c).trans (calm_endReading fun t => ?_)
  have hp : c.policy.closesOnFault = true := by simpa [report_eq] using t.closesOnFault
  simp [report_eq, hp]

/-! ### Writing -/

/-- A write fails with a fault that is reported, or adds its command to what was sent. -/
theorem write_cases (cmd : Command) (c : Connection) :
    (∃ f, c.write cmd = (.error f, c.report f)) ∨
      c.write cmd = (.ok (), [], { c with sent := c.sent ++ [cmd] }) := by
  simp only [write]
  split_ifs <;> simp

theorem steady_write (cmd : Command) (c : Connection) : Steady c (c.write cmd).2.2 := by
  rcases write_cases cmd c with ⟨f, h⟩ | h <;> rw [h]
  · exact steady_report f c
  · exact ⟨rfl, rfl, rfl, rfl, rfl, rfl, rfl, id, id, id⟩

theorem calm_write (cmd : Command) (c : Connection) : Calm c (c.write cmd).2.2 := by
  rcases write_cases cmd c with ⟨f, h⟩ | h
  · rw [h]
    exact calm_report f c
  · refine .of_steady (steady_write cmd c) ?_ ?_ ?_ <;> rw [h]
    exact .inl

theorem isNotice_of_mem_write {cmd : Command} {c : Connection} {e : Event}
    (he : e ∈ (c.write cmd).2.1) : e.isNotice = true := by
  rcases write_cases cmd c with ⟨f, h⟩ | h <;> rw [h] at he
  · rw [report_eq, List.mem_singleton] at he
    rw [he]
    rfl
  · exact absurd he List.not_mem_nil

/-- A write sends its command or nothing. -/
theorem write_sent (cmd : Command) (c : Connection) :
    (c.write cmd).2.2.sent = c.sent ∨ (c.write cmd).2.2.sent = c.sent ++ [cmd] := by
  rcases write_cases cmd c with ⟨f, h⟩ | h <;> rw [h]
  · exact .inl (report_sent f c)
  · exact .inr rfl

/-! ### Reading -/

/-- What a turn of reading does that takes in no message: it is steady, tells notices only, and
sends nothing but answers to heartbeats. -/
structure Uneventful (c : Connection) (p : List Event × Connection) : Prop where
  steady : Steady c p.2
  calm : Calm c p.2
  notices : ∀ e ∈ p.1, e.isNotice
  sent : p.2.sent = c.sent ∨ p.2.sent = c.sent ++ [.nop]

theorem uneventful_breakOff (fault : IoFault) (c : Connection) :
    Uneventful c (c.breakOff fault) := by
  unfold breakOff
  by_cases h : c.closing
  · simp only [h, if_true]
    exact ⟨steady_endReading c, calm_endReading fun _ => h, List.forall_mem_nil _,
      .inl (endReading_sent c)⟩
  · simp only [h, Bool.false_eq_true, if_false]
    refine ⟨(steady_report fault c).trans (steady_endReading _), calm_report_endReading fault c, ?_,
      .inl (by simp)⟩
    intro e he
    rw [report_eq, List.mem_singleton] at he
    rw [he]
    rfl

/-- Taking a frame is uneventful unless the frame holds a message. -/
theorem receive_cases (f : Frame) (c : Connection) :
    Uneventful c (c.receive f) ∨
      ∃ m, c.receive f = ([.message m c.arrive.rdy c.arrive.inFlight], c.arrive) := by
  unfold receive
  cases f.kind with
  | error => exact .inl ⟨Steady.refl c, Calm.refl c, by simp [Event.isNotice], .inl rfl⟩
  | response =>
    dsimp only
    split_ifs with h
    · -- a heartbeat, whose answer may fail to be written
      left
      have hs := steady_write .nop c
      have hc := calm_write .nop c
      have hn := @isNotice_of_mem_write .nop c
      have hw := write_sent .nop c
      split
      · rename_i events c' heq
        rw [heq] at hs hc hn hw
        refine ⟨hs, hc, ?_, hw⟩
        simpa [Event.isNotice] using fun e => hn
      · rename_i fault events c' heq
        rw [heq] at hs hn hw
        refine ⟨hs.trans (steady_endReading _), ?_, ?_, by simpa using hw⟩
        · rcases write_cases .nop c with ⟨f, h'⟩ | h' <;> rw [heq, Prod.mk.injEq] at h'
          · obtain rfl : c' = (c.report f).2 := congrArg Prod.snd h'.2
            exact calm_report_endReading f c
          · simp at h'
        · simpa [Event.isNotice] using fun e => hn
    · exact .inl ⟨Steady.refl c, Calm.refl c, by simp [Event.isNotice], .inl rfl⟩
  | message =>
    dsimp only
    cases Message.decode f.data with
    | ok m => exact .inr ⟨c.arrive.stamp m, rfl⟩
    | error fault =>
      -- a message that cannot be read ends the reading, and nothing is taken in
      refine .inl ⟨(steady_report fault c).trans (steady_endReading _),
        calm_report_endReading fault c, ?_, .inl (by simp)⟩
      simp [report_eq, Event.isNotice]

theorem steady_unread (rest : Octets) (c : Connection) : Steady c { c with unread := rest } :=
  ⟨rfl, rfl, rfl, rfl, rfl, rfl, rfl, id, id, id⟩

/-- One turn of reading is uneventful, or takes a message in. It needs a connection that reads and
waits for nobody. -/
theorem read_cases {c c' : Connection} {events : List Event} (h : c.read = some (events, c')) :
    c.reading = true ∧ c.stalled = false ∧
      (Uneventful c (events, c') ∨
        ∃ m rest, c' = ({ c with unread := rest } : Connection).arrive ∧
          events = [.message m c'.rdy c'.inFlight]) := by
  unfold read at h
  by_cases hr : !c.reading || c.stalled
  · simp only [hr, if_true, reduceCtorEq] at h
  rw [if_neg hr] at h
  rw [Bool.or_eq_true, not_or, Bool.not_eq_true', Bool.not_eq_false, Bool.not_eq_true] at hr
  refine ⟨hr.1, hr.2, ?_⟩
  split at h
  · rename_i f rest _
    have h : ({ c with unread := rest } : Connection).receive f = (events, c') := by simpa using h
    rcases receive_cases f { c with unread := rest } with hu | ⟨m, hm⟩
    · rw [h] at hu
      refine .inl ⟨(steady_unread rest c).trans hu.steady, ?_, hu.notices, hu.sent⟩
      exact (Calm.of_steady (steady_unread rest c) rfl .inl rfl).trans hu.calm
    · rw [h, Prod.mk.injEq] at hm
      obtain ⟨rfl, rfl⟩ := hm
      exact .inr ⟨m, rest, rfl, rfl⟩
  · -- no frame can begin with these octets
    rename_i fault _
    have hb : c.breakOff fault = (events, c') := by simpa using h
    exact .inl (hb ▸ uneventful_breakOff fault c)
  · -- part of a frame: there is nothing to do unless no more octets come
    by_cases he : c.ended
    · have hb : c.breakOff .shortRead = (events, c') := by simpa [he] using h
      exact .inl (hb ▸ uneventful_breakOff .shortRead c)
    · simp [he] at h

theorem steady_lookUp (c : Connection) : Steady c c.lookUp := by
  unfold lookUp
  split_ifs
  · exact steady_endReading c
  · exact Steady.refl c

theorem calm_lookUp (c : Connection) : Calm c c.lookUp := by
  unfold lookUp
  split_ifs with h
  · rw [Bool.and_eq_true] at h
    exact calm_endReading fun _ => h.2
  · exact Calm.refl c

@[simp] theorem lookUp_sent (c : Connection) : c.lookUp.sent = c.sent := by
  unfold lookUp
  split_ifs <;> simp

theorem steady_push (b : Octets) (c : Connection) : Steady c (c.push b) := by
  unfold push
  split_ifs
  · exact ⟨rfl, rfl, rfl, rfl, rfl, rfl, rfl, id, id, id⟩
  · exact Steady.refl c

theorem steady_pushEnd (c : Connection) : Steady c c.pushEnd :=
  ⟨rfl, rfl, rfl, rfl, rfl, rfl, rfl, id, id, id⟩

theorem calm_push (b : Octets) (c : Connection) : Calm c (c.push b) := by
  refine .of_steady (steady_push b c) ?_ ?_ ?_ <;> unfold push <;> split_ifs
  all_goals first | rfl | exact .inl

theorem calm_pushEnd (c : Connection) : Calm c c.pushEnd :=
  .of_steady (steady_pushEnd c) rfl .inl rfl

theorem steady_refusing (on : Bool) (c : Connection) : Steady c { c with refusing := on } :=
  ⟨rfl, rfl, rfl, rfl, rfl, rfl, rfl, id, id, id⟩

theorem calm_refusing (on : Bool) (c : Connection) : Calm c { c with refusing := on } :=
  .of_steady (steady_refusing on c) rfl .inl rfl

@[simp] theorem push_sent (b : Octets) (c : Connection) : (c.push b).sent = c.sent := by
  unfold push
  split_ifs <;> rfl

/-! ### Answers -/

/-- An operation emits a command: it writes it, tells what that tells, and may begin the end right
behind it. -/
structure Emits (cmd : Command) (c : Connection) (p : List Event × Connection) : Prop where
  events : p.1 = (c.write cmd).2.1
  conn : p.2 = (c.write cmd).2.2 ∨ p.2 = (c.write cmd).2.2.beginClose

namespace Emits

variable {cmd : Command} {c : Connection} {p : List Event × Connection}

theorem steady (h : Emits cmd c p) : Steady c p.2 := by
  have hs := steady_write cmd c
  rcases h.conn with heq | heq <;> rw [heq]
  · exact hs
  · exact hs.trans (steady_beginClose _)

theorem calm (h : Emits cmd c p) : Calm c p.2 := by
  have hc := calm_write cmd c
  rcases h.conn with heq | heq <;> rw [heq]
  · exact hc
  · exact hc.trans (calm_beginClose _)

theorem isNotice (h : Emits cmd c p) {e : Event} (he : e ∈ p.1) : e.isNotice = true := by
  rw [h.events] at he
  exact isNotice_of_mem_write he

theorem sent (h : Emits cmd c p) : p.2.sent = c.sent ∨ p.2.sent = c.sent ++ [cmd] := by
  have hw := write_sent cmd c
  rcases h.conn with heq | heq <;> rw [heq] <;> exact hw

end Emits

/-- A request for time is emitted unless the connection is at its end. -/
theorem touch_cases (m : Message) (c : Connection) :
    c.touch m = ([], c) ∨ Emits (.touch m.id) c (c.touch m) := by
  unfold touch
  split_ifs
  · exact .inl rfl
  · right
    split <;> rename_i heq
    · exact ⟨by rw [heq], .inr (by rw [heq])⟩
    · exact ⟨by rw [heq], .inl (by rw [heq])⟩

/-- The command of an answer is emitted; the answer was booked before. -/
theorem emits_sendAnswer (m : Message) (a : Answer) (c : Connection) :
    Emits (c.answerCommand m a) c (c.sendAnswer m a) := by
  unfold sendAnswer
  split <;> rename_i heq
  · exact ⟨by rw [heq], .inr (by rw [heq])⟩
  · refine ⟨by rw [heq], ?_⟩
    rw [heq]
    dsimp only
    split_ifs
    · exact .inr rfl
    · exact .inl rfl

theorem steady_touch (m : Message) (c : Connection) : Steady c (c.touch m).2 := by
  rcases touch_cases m c with h | h
  · rw [h]
    exact Steady.refl c
  · exact h.steady

theorem calm_touch (m : Message) (c : Connection) : Calm c (c.touch m).2 := by
  rcases touch_cases m c with h | h
  · rw [h]
    exact Calm.refl c
  · exact h.calm

theorem steady_sendAnswer (m : Message) (a : Answer) (c : Connection) :
    Steady c (c.sendAnswer m a).2 := (emits_sendAnswer m a c).steady

theorem calm_sendAnswer (m : Message) (a : Answer) (c : Connection) :
    Calm c (c.sendAnswer m a).2 := (emits_sendAnswer m a c).calm

/-- An answer is written unless all writes fail: the command of an answer has no body that might
not fit. A failed write begins the end, and so does the last answer where the end was asked for. -/
theorem sendAnswer_eq (m : Message) (a : Answer) (c : Connection) :
    (c.sendAnswer m a).2 =
      if c.refusing then (c.report .refusedWrite).2.beginClose
      else if c.inFlight = 0 ∧ c.closing = true then
        ({ c with sent := c.sent ++ [c.answerCommand m a] } : Connection).beginClose
      else { c with sent := c.sent ++ [c.answerCommand m a] } := by
  have hf : (c.answerCommand m a).fits = true := by cases a <;> rfl
  rw [sendAnswer, write, hf]
  cases c.refusing <;> rfl

/-- Once an answer is sent the end begins where it is due. If the answer was the last one missing
after the reading had ended, then the end must have been asked for, or the write must fail. -/
theorem ending_sendAnswer (m : Message) (a : Answer) {c : Connection}
    (h : c.reading = false → c.inFlight = 0 → c.closing = true ∨ c.refusing = true) :
    Ending (c.sendAnswer m a).2 := by
  rw [sendAnswer_eq]
  split_ifs with hf hd
  · exact fun _ _ => rfl
  · exact fun _ _ => rfl
  · intro hr hi
    exact absurd ⟨hi, (h hr hi).resolve_right hf⟩ hd

/-! ### The end -/

/-- Where a connection stands after it looked whether reading must stop. -/
def settled (c : Connection) : Connection :=
  if c.reading && !c.stalled && c.isDue then c.endReading else c

theorem steady_settled (c : Connection) : Steady c c.settled := by
  unfold settled
  split_ifs
  · exact steady_endReading c
  · exact Steady.refl c

theorem calm_settled (c : Connection) : Calm c c.settled := by
  unfold settled
  split_ifs with h
  · refine calm_endReading fun _ => ?_
    simp only [isDue, Bool.and_eq_true] at h
    exact h.2.1
  · exact Calm.refl c

@[simp] theorem settled_sent (c : Connection) : c.settled.sent = c.sent := by
  unfold settled
  split_ifs <;> simp

theorem settle_eq (c : Connection) :
    c.settle =
      if c.settled.isDrained && !c.settled.closed then
        ([.closed c.settled.inFlight], { c.settled with closed := true })
      else ([], c.settled) :=
  rfl

/-- Settling reports the end exactly of a connection that is drained and was not reported, and is
steady otherwise. -/
theorem settle_cases (c : Connection) :
    (c.settle = ([], c.settled) ∧ (c.settled.isDrained = true → c.closed = true)) ∨
      (c.settle = ([.closed c.inFlight], { c.settled with closed := true }) ∧ c.closed = false ∧
        c.settled.isDrained = true) := by
  have hc : c.settled.closed = c.closed := (steady_settled c).closed
  have hi : c.settled.inFlight = c.inFlight := (steady_settled c).inFlight
  rw [settle_eq, hc, hi]
  by_cases hd : c.settled.isDrained = true <;> by_cases hr : c.closed = true <;> simp [hd, hr]

theorem Tidy.countAnswer {c : Connection} (t : Tidy c) : Tidy c.countAnswer :=
  ⟨t.1, t.2, t.3, t.4, t.5⟩

/-- A connection that settles and reports its end is in order. -/
theorem Tidy.reported {c : Connection} (t : Tidy c) (hd : c.settled.isDrained = true) :
    Tidy { c.settled with closed := true } := by
  have ht := (calm_settled c).tidy t
  simp only [isDrained, Bool.and_eq_true, Bool.not_eq_true'] at hd
  have hc : c.settled.closing = true := ht.closing_of_draining hd.1.1
  exact ⟨ht.closesOnFault, fun _ => hc, fun _ => hc, fun _ => hc, fun _ => hd.2⟩

theorem calm_settle (c : Connection) : Calm c c.settle.2 := by
  have hc := calm_settled c
  rcases settle_cases c with ⟨h, -⟩ | ⟨h, -, hd⟩ <;> rw [h]
  · exact hc
  · exact ⟨fun t => t.reported hd, hc.ending, hc.stalled⟩

/-- A connection that settles without anything in flight, and without a message to be handed over,
has reported its end if that was asked for or if nothing is read any more. -/
theorem closed_settle {c : Connection} (he : Ending c)
    (hc : c.settle.2.closing = true ∨ c.settle.2.reading = false)
    (hi : c.settle.2.inFlight = 0) (hs : c.settle.2.stalled = false) :
    c.settle.2.closed = true := by
  rcases c.settle_cases with ⟨heq, hd⟩ | ⟨heq, -, -⟩ <;> rw [heq] at hc hi hs ⊢
  · rw [(steady_settled c).closed]
    refine hd ?_
    dsimp only at hc hi hs
    rw [(steady_settled c).inFlight] at hi
    unfold settled at hc hs ⊢
    split_ifs at hc hs ⊢ with hread
    · -- reading has just stopped, and nothing was in flight
      simp [isDrained, endReading_eq, hi]
    · -- reading had stopped before, and the end began then
      have hr : c.reading = false := by
        rcases hc with hc | hr
        · simpa [isDue, hs, hc, hi] using hread
        · exact hr
      simp [isDrained, he hr hi, hi, hr]

/-! ### What the daemon is told of its credit -/

/-- The counts of the grants that were written to the daemon, in order. -/
def told (c : Connection) : List Int :=
  c.sent.filterMap fun
    | .ready count => some count
    | _ => none

/-- Commands that are no grants tell nothing of the credit. -/
theorem told_of_sent {c c' : Connection} {cmd : Command} (h : ∀ n, cmd ≠ .ready n)
    (hs : c'.sent = c.sent ∨ c'.sent = c.sent ++ [cmd]) : c'.told = c.told := by
  rcases hs with hs | hs
  · rw [told, hs, told]
  · have hcmd : [cmd].filterMap (fun
        | .ready count => some count
        | _ => none) = ([] : List Int) := by
      cases cmd with
      | ready n => exact absurd rfl (h n)
      | _ => rfl
    rw [told, hs, List.filterMap_append, hcmd, List.append_nil, told]

theorem Uneventful.told {c : Connection} {p : List Event × Connection} (h : Uneventful c p) :
    p.2.told = c.told :=
  told_of_sent (fun n => by simp) h.sent

theorem told_lookUp (c : Connection) : c.lookUp.told = c.told := by
  rw [told, lookUp_sent, told]

theorem told_push (b : Octets) (c : Connection) : (c.push b).told = c.told := by
  rw [told, push_sent, told]

theorem told_settled (c : Connection) : c.settled.told = c.told := by
  rw [told, settled_sent, told]

theorem told_touch (m : Message) (c : Connection) : (c.touch m).2.told = c.told := by
  rcases touch_cases m c with h | h
  · rw [h]
  · exact told_of_sent (fun n => by simp) h.sent

theorem told_sendAnswer (m : Message) (a : Answer) (c : Connection) :
    (c.sendAnswer m a).2.told = c.told :=
  told_of_sent (fun n => by cases a <;> simp [answerCommand]) (emits_sendAnswer m a c).sent

end Nsq.Connection
