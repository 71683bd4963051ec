import Nsq.Proofs.Connection.Effects

/-!
# Messages in flight

The account of a connection's messages along a run. Every message that arrives is counted in, and
counted out again by exactly one of three things: the event that it was finished, the event that it
was requeued, or, once the end has begun, an answer that is only counted (`Run.drained`). What is
left is the number of messages in flight (`Run.Accounts`).

That number is never negative because it counts something: in every state of a run it is the number
of delivered messages whose holders have not answered (`Run.unanswered`). The two statements are
independent. The first one compares a state with the events that led to it, the second one with the
answers that the holders gave.
-/

namespace Nsq.Connection

/-! ### Counting events -/

/-- Tells that a message was finished. -/
def Event.isFinished : Event → Bool
  | .finished _ _ => true
  | _ => false

/-- Tells that a message was requeued. -/
def Event.isRequeued : Event → Bool
  | .requeued _ _ => true
  | _ => false

/-- What events add to the number of messages in flight. -/
def tally (events : List Event) : Int :=
  (arrivals events).length - events.countP Event.isFinished - events.countP Event.isRequeued

@[simp] theorem tally_nil : tally [] = 0 := rfl

theorem tally_append (e₁ e₂ : List Event) : tally (e₁ ++ e₂) = tally e₁ + tally e₂ := by
  simp only [tally, arrivals_append, List.length_append, List.countP_append]
  omega

theorem tally_message (m : Message) (rdy inFlight : Int) :
    tally [.message m rdy inFlight] = 1 := rfl

theorem tally_eq_zero {events : List Event} (h : ∀ e ∈ events, e.isNotice) : tally events = 0 := by
  have hf : events.countP Event.isFinished = 0 := by
    rw [List.countP_eq_zero]
    intro e he
    have hn := h e he
    cases e <;> simp_all [Event.isNotice, Event.isFinished]
  have hr : events.countP Event.isRequeued = 0 := by
    rw [List.countP_eq_zero]
    intro e he
    have hn := h e he
    cases e <;> simp_all [Event.isNotice, Event.isRequeued]
  rw [tally, arrivals_eq_nil h, hf, hr]
  rfl

/-! ### Operations -/

theorem Uneventful.inFlight {c : Connection} {p : List Event × Connection} (h : Uneventful c p) :
    p.2.inFlight = c.inFlight + tally p.1 := by
  rw [tally_eq_zero h.notices, h.steady.inFlight, Int.add_zero]

theorem read_inFlight {c c' : Connection} {events : List Event}
    (h : c.read = some (events, c')) : c'.inFlight = c.inFlight + tally events := by
  obtain ⟨-, -, hu | ⟨m, rest, rfl, rfl⟩⟩ := read_cases h
  · exact hu.inFlight
  · rw [tally_message]
    rfl

theorem readFor_inFlight (fuel : Nat) (c : Connection) :
    (c.readFor fuel).2.inFlight = c.inFlight + tally (c.readFor fuel).1 := by
  induction fuel generalizing c with
  | zero => simp [readFor]
  | succ fuel ih =>
    rw [readFor]
    split
    · simp
    · rename_i events c' h
      have hl : c'.lookUp.inFlight = c'.inFlight := (steady_lookUp c').inFlight
      simp only [ih, hl, read_inFlight h, tally_append]
      omega

/-- An answer on a connection whose end has begun is only counted. -/
theorem answer_of_draining {c : Connection} (h : c.draining = true) (m : Message) (a : Answer) :
    c.answer m a = ([], c.countAnswer) := by
  simp [answer, h]

theorem answer_of_not_draining {c : Connection} (h : c.draining = false) (m : Message)
    (a : Answer) :
    c.answer m a = ((c.bookAnswer m a).1 ++ (c.countAnswer.sendAnswer m a).1,
      (c.countAnswer.sendAnswer m a).2) := by
  simp [answer, h, bookAnswer]

theorem isNotice_of_mem_touch {m : Message} {c : Connection} {e : Event}
    (he : e ∈ (c.touch m).1) : e.isNotice = true := by
  rcases touch_cases m c with h | h
  · rw [h] at he
    exact absurd he List.not_mem_nil
  · exact h.isNotice he

theorem tally_bookAnswer (m : Message) (a : Answer) (c : Connection) :
    tally (c.bookAnswer m a).1 = -1 := by
  cases a <;> rfl

/-- An answer takes one off the number of messages in flight, with or without an event. -/
theorem answer_inFlight (m : Message) (a : Answer) (c : Connection) :
    (c.answer m a).2.inFlight = c.inFlight - 1 ∧
      tally (c.answer m a).1 = if c.draining then 0 else -1 := by
  cases h : c.draining with
  | true => rw [answer_of_draining h]; exact ⟨rfl, rfl⟩
  | false =>
    rw [answer_of_not_draining h]
    refine ⟨(steady_sendAnswer m a c.countAnswer).inFlight, ?_⟩
    have hs : tally (c.countAnswer.sendAnswer m a).1 = 0 :=
      tally_eq_zero fun e he => (emits_sendAnswer m a _).isNotice he
    rw [tally_append, tally_bookAnswer, hs]
    rfl

theorem touch_inFlight (m : Message) (c : Connection) :
    (c.touch m).2.inFlight = c.inFlight ∧ tally (c.touch m).1 = 0 :=
  ⟨(steady_touch m c).inFlight, tally_eq_zero fun _ he => isNotice_of_mem_touch he⟩

theorem settle_inFlight (c : Connection) :
    c.settle.2.inFlight = c.inFlight ∧ tally c.settle.1 = 0 := by
  have hs : c.settled.inFlight = c.inFlight := (steady_settled c).inFlight
  rcases settle_cases c with ⟨h, -⟩ | ⟨h, -⟩ <;> rw [h]
  · exact ⟨hs, rfl⟩
  · exact ⟨hs, rfl⟩

/-- Reading tells of messages, and of none that were finished or requeued. -/
theorem tally_readFor (fuel : Nat) (c : Connection) :
    tally (c.readFor fuel).1 = (arrivals (c.readFor fuel).1).length := by
  induction fuel generalizing c with
  | zero => rfl
  | succ fuel ih =>
    rw [readFor]
    split
    · rfl
    · rename_i events c' h
      have he : tally events = (arrivals events).length := by
        obtain ⟨-, -, hu | ⟨m, rest, -, rfl⟩⟩ := read_cases h
        · rw [tally_eq_zero hu.notices, arrivals_eq_nil hu.notices]
          rfl
        · rfl
      simp only [tally_append, ih, he, arrivals_append, List.length_append]
      push_cast
      rfl

/-- An answer brings no message. -/
theorem arrivals_answer (m : Message) (a : Answer) (c : Connection) :
    arrivals (c.answer m a).1 = [] := by
  cases h : c.draining with
  | true => rw [answer_of_draining h]; rfl
  | false =>
    have hb : arrivals (c.bookAnswer m a).1 = [] := by cases a <;> rfl
    rw [answer_of_not_draining h, arrivals_append, hb,
      arrivals_eq_nil fun e he => (emits_sendAnswer m a _).isNotice he]
    rfl

/-! ### Runs -/

namespace Run

/-- Whether an act is the final answer to a message on a connection whose end has begun: it is
counted, and that is all. -/
def drains (a : Act) (r : Run) : Bool :=
  match a with
  | .call i (.answer _) => r.conn.draining && r.delivered[i]?.any fun d => !d.state.responded
  | _ => false

/-- How many final answers are only counted while acts are performed one after another. -/
def drained (r : Run) : List Act → Nat
  | [] => 0
  | a :: as => (if r.drains a then 1 else 0) + (r.step a).2.2.drained as

/-- The delivered messages that nobody has answered. -/
def unanswered (r : Run) : Nat := r.delivered.countP fun d => !d.state.responded

theorem unanswered_advance (r : Run) (p : List Event × Connection) :
    (r.advance p).2.unanswered = r.unanswered + (arrivals p.1).length := by
  simp only [unanswered, advance, List.countP_append, List.countP_map]
  congr 1
  exact List.countP_eq_length.mpr fun _ _ => rfl

/-- A run with another state of the answers to message `i`. -/
def putState (i : Nat) (d : Delivery) (s : Answered) (r : Run) : Run :=
  { r with delivered := r.delivered.set i { d with state := s } }

/-- The three outcomes of a call on a delivered message: nothing passes and the final answer is
given or missing as before, a request for time passes, or the first final answer does. -/
theorem call_cases {i : Nat} {d : Delivery} {r : Run} (hd : r.delivered[i]? = some d) (k : Call) :
    (∃ s : Answered, s.responded = d.state.responded ∧
        (d.state.responded = true ∨ ∀ a, k ≠ .answer a) ∧
        (r.call i k).2 = ([], r.putState i d s)) ∨
      (k = .touch ∧ d.state.responded = false ∧
        (r.call i k).2 =
          (r.putState i d d.state).advance (r.conn.touch d.message)) ∨
      ∃ a, k = .answer a ∧ d.state.responded = false ∧
        (r.call i k).2 =
          (r.putState i d { d.state with responded := true }).advance
            (r.conn.answer d.message a) := by
  unfold call
  simp only [hd]
  cases k with
  | answer a =>
    cases h : d.state.responded with
    | true => exact .inl ⟨d.state, h, .inl rfl, by simp [Answered.call, h, putState]⟩
    | false =>
      exact .inr (.inr ⟨a, rfl, rfl, by simp [Answered.call, h, putState, Connection.request]⟩)
  | touch =>
    cases h : d.state.responded with
    | true => exact .inl ⟨d.state, h, .inl rfl, by simp [Answered.call, h, putState]⟩
    | false =>
      exact .inr (.inl ⟨rfl, rfl, by simp [Answered.call, h, putState, Connection.request]⟩)
  | disableAuto =>
    exact .inl ⟨{ d.state with manual := true }, rfl, .inr (by simp),
      by simp [Answered.call, putState]⟩

/-- A call on a message that was not delivered does nothing. -/
theorem call_of_none {i : Nat} {r : Run} (hd : r.delivered[i]? = none) (k : Call) :
    (r.call i k).2 = ([], r) := by
  simp [call, hd]

theorem unanswered_putState {i : Nat} {d : Delivery} {r : Run} (hd : r.delivered[i]? = some d)
    (s : Answered) :
    (r.putState i d s).unanswered + (if d.state.responded then 0 else 1) =
      r.unanswered + (if s.responded then 0 else 1) := by
  obtain ⟨hi, rfl⟩ := List.getElem?_eq_some_iff.mp hd
  have hp : r.delivered[i].state.responded = false → 0 < r.unanswered := fun h =>
    List.countP_pos_iff.mpr ⟨_, List.getElem_mem hi, by simp [h]⟩
  simp only [unanswered, putState, List.countP_set hi] at hp ⊢
  generalize r.delivered.countP _ = n at hp ⊢
  -- the message leaves the count and comes back to it, by the states before and after
  cases h : r.delivered[i].state.responded <;> cases s.responded <;> simp [h] at hp ⊢ <;> omega

/-! ### What a step does to the account -/

@[simp] theorem advance_conn (r : Run) (p : List Event × Connection) :
    (r.advance p).2.conn = p.2 := rfl

@[simp] theorem advance_events (r : Run) (p : List Event × Connection) :
    (r.advance p).1 = p.1 := rfl

@[simp] theorem length_advance (r : Run) (p : List Event × Connection) :
    (r.advance p).2.delivered.length = r.delivered.length + (arrivals p.1).length := by
  simp [advance]

/-- What is left of a run's account when every message that arrived is counted in: the number of
messages in flight. -/
structure Accounts (drained : Nat) (events : List Event) (r r' : Run) : Prop where
  inFlight : r'.conn.inFlight + drained = r.conn.inFlight + tally events
  delivered : r'.delivered.length = r.delivered.length + (arrivals events).length
  unanswered : r'.conn.inFlight - r'.unanswered = r.conn.inFlight - r.unanswered

theorem Accounts.trans {n₁ n₂ : Nat} {e₁ e₂ : List Event} {r₁ r₂ r₃ : Run}
    (h : Accounts n₁ e₁ r₁ r₂) (h' : Accounts n₂ e₂ r₂ r₃) :
    Accounts (n₁ + n₂) (e₁ ++ e₂) r₁ r₃ where
  inFlight := by
    have := h.inFlight
    have := h'.inFlight
    rw [tally_append]
    push_cast
    omega
  delivered := by
    rw [h'.delivered, h.delivered, arrivals_append, List.length_append, Nat.add_assoc]
  unanswered := h'.unanswered.trans h.unanswered

/-- An operation that tells only messages and notices accounts for itself. -/
theorem accounts_advance {r : Run} {p : List Event × Connection}
    (h : p.2.inFlight = r.conn.inFlight + tally p.1)
    (ht : tally p.1 = (arrivals p.1).length) : Accounts 0 p.1 r (r.advance p).2 where
  inFlight := by simpa using h
  delivered := length_advance r p
  unanswered := by
    rw [unanswered_advance, advance_conn, h, ht]
    push_cast
    omega

/-- Reading accounts for itself. -/
theorem accounts_readAll {c : Connection} {r : Run} (h : c.inFlight = r.conn.inFlight) :
    Accounts 0 (r.advance c.readAll).1 r (r.advance c.readAll).2 :=
  accounts_advance (by rw [← h]; exact readFor_inFlight _ c) (tally_readFor _ c)

theorem accounts_settle (r : Run) :
    Accounts 0 (r.advance r.conn.settle).1 r (r.advance r.conn.settle).2 := by
  refine accounts_advance ?_ ?_
  · rw [(settle_inFlight r.conn).1, (settle_inFlight r.conn).2, Int.add_zero]
  · rcases settle_cases r.conn with ⟨h, -⟩ | ⟨h, -⟩ <;> rw [h] <;> rfl

/-- A call accounts for itself: only an answer that is drained goes without an event. -/
theorem accounts_call (i : Nat) (k : Call) (r : Run) :
    Accounts (if r.drains (.call i k) then 1 else 0) (r.call i k).2.1 r (r.call i k).2.2 := by
  cases hd : r.delivered[i]? with
  | none =>
    have hn : r.drains (.call i k) = false := by cases k <;> simp [drains, hd]
    rw [call_of_none hd, hn]
    exact ⟨by simp, by simp [arrivals], rfl⟩
  | some d =>
    have hu := unanswered_putState hd
    obtain ⟨s, hs, hk, heq⟩ | ⟨rfl, hr, heq⟩ | ⟨a, rfl, hr, heq⟩ := call_cases hd k <;> rw [heq]
    · -- nothing passes
      have hn : r.drains (.call i k) = false := by
        cases k <;> simp_all [drains]
      have hu := hu s
      rw [hs, Nat.add_right_cancel_iff] at hu
      rw [hn]
      exact ⟨by simp [putState], by simp [putState, arrivals], by rw [hu]; rfl⟩
    · -- a request for time tells notices only
      have ht := touch_inFlight d.message r.conn
      have hn := arrivals_eq_nil fun e he => isNotice_of_mem_touch (m := d.message) (c := r.conn) he
      have hu := hu d.state
      rw [Nat.add_right_cancel_iff] at hu
      refine ⟨by simp [ht, drains], ?_, ?_⟩
      · simp [hn, putState]
      · rw [unanswered_advance, hn, hu, advance_conn, ht.1]
        rfl
    · -- an answer is told, or it is drained
      have ha := answer_inFlight d.message a r.conn
      have hn : arrivals (r.conn.answer d.message a).1 = [] := arrivals_answer d.message a r.conn
      have hu := hu { d.state with responded := true }
      have hdr : r.drains (.call i (.answer a)) = r.conn.draining := by simp [drains, hd, hr]
      rw [hdr]
      refine ⟨?_, ?_, ?_⟩
      · rw [advance_conn, advance_events, ha.1, ha.2]
        cases r.conn.draining with
        | true => simp
        | false => simp [Int.sub_eq_add_neg]
      · simp [hn, putState]
      · simp only [hr, Bool.false_eq_true, if_false, if_true] at hu
        rw [unanswered_advance, hn, advance_conn, ha.1]
        simp only [List.length_nil]
        omega

theorem accounts_of_conn {r : Run} {c : Connection} {events : List Event}
    (h : Steady r.conn c) (hn : ∀ e ∈ events, e.isNotice) :
    Accounts 0 events r { r with conn := c } where
  inFlight := by simp [h.inFlight, tally_eq_zero hn]
  delivered := by simp [arrivals_eq_nil hn]
  unanswered := by rw [h.inFlight]; rfl

/-- Every act accounts for itself. -/
theorem accounts_act (a : Act) (r : Run) :
    Accounts (if r.drains a then 1 else 0) (r.act a).2.1 r (r.act a).2.2 := by
  cases a with
  | setRdy n => exact ⟨by simp [act, drains, setRdy], rfl, rfl⟩
  | feed b => exact accounts_readAll (steady_push b r.conn).inFlight
  | endOfInput => exact accounts_readAll rfl
  | close => exact accounts_of_conn (steady_close r.conn) (List.forall_mem_nil _)
  | refuse on => exact ⟨by simp [act, drains], rfl, rfl⟩
  | write cmd =>
    exact accounts_of_conn (steady_write cmd r.conn) fun _ he => isNotice_of_mem_write he
  | call i k => exact accounts_call i k r

/-- **A step accounts for itself.** -/
theorem accounts_step (a : Act) (r : Run) :
    Accounts (if r.drains a then 1 else 0) (r.step a).2.1 r (r.step a).2.2 :=
  (accounts_act a r).trans (accounts_settle _)

/-- **Runs account for themselves.** -/
theorem accounts_steps (r : Run) (as : List Act) :
    Accounts (r.drained as) (r.steps as).1 r (r.steps as).2 := by
  induction as generalizing r with
  | nil => exact ⟨by simp [steps, drained], rfl, rfl⟩
  | cons a as ih => exact (accounts_step a r).trans (ih _)

end Run

end Nsq.Connection
