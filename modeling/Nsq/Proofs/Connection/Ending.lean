import Nsq.Proofs.Connection.InFlight

/-!
# The end of a connection

Along a run the end is reported once at the most, with no message in flight and nothing being read
or written any more, and after the report only notices are told: no message, no answer, no second
report (`Run.Sound.ends_steps`).

The argument is an invariant, `Run.Sound`: the number of messages in flight is the number of
delivered messages without an answer, and a connection whose end was reported is drained for good.
It is the first half that makes the second one hold: a closed connection has no message left to be
answered, so nothing can move its counters any more.
-/

namespace Nsq.Connection

/-- Reports the end. -/
def Event.isClosed : Event → Bool
  | .closed _ => true
  | _ => false

theorem Event.isClosed_eq_false {e : Event} (h : e.isNotice = true) : e.isClosed = false := by
  cases e <;> simp_all [Event.isNotice, Event.isClosed]

/-- The writing has ended and the reading has ended. -/
structure Over (c : Connection) : Prop where
  draining : c.draining = true
  reading : c.reading = false

theorem Over.of_steady {c c' : Connection} (h : Over c) (hs : Steady c c') : Over c' where
  draining := hs.draining h.draining
  reading := by
    cases hr : c'.reading with
    | false => rfl
    | true => rw [h.reading.symm.trans (hs.reading hr)]

theorem read_of_over {c : Connection} (h : Over c) : c.read = none := by
  simp [read, h.reading]

theorem readAll_of_over {c : Connection} (h : Over c) : c.readAll = ([], c) := by
  rw [readAll, readFor, read_of_over h]

theorem settled_of_over {c : Connection} (h : Over c) : c.settled = c := by
  simp [settled, h.reading]

/-! ### Acts before the end is reported -/

/-- Reading leaves the report of the end alone. -/
theorem readFor_closed (fuel : Nat) (c : Connection) :
    (c.readFor fuel).2.closed = c.closed ∧
      ∀ e ∈ (c.readFor fuel).1, e.isClosed = false := by
  induction fuel generalizing c with
  | zero => exact ⟨rfl, List.forall_mem_nil _⟩
  | succ fuel ih =>
    rw [readFor]
    split
    · exact ⟨rfl, List.forall_mem_nil _⟩
    · rename_i events c' h
      have hr : c'.closed = c.closed ∧ ∀ e ∈ events, e.isClosed = false := by
        obtain ⟨-, -, hu | ⟨m, rest, rfl, rfl⟩⟩ := read_cases h
        · exact ⟨hu.steady.closed, fun e he => Event.isClosed_eq_false (hu.notices e he)⟩
        · exact ⟨rfl, by simp [Event.isClosed]⟩
      obtain ⟨hc, he⟩ := ih c'.lookUp
      constructor
      · calc
          (c'.lookUp.readFor fuel).2.closed = c'.lookUp.closed := hc
          _ = c'.closed := (steady_lookUp c').closed
          _ = c.closed := hr.1
      · intro e hm
        rcases List.mem_append.mp hm with hm | hm
        · exact hr.2 e hm
        · exact he e hm

theorem answer_closed (m : Message) (a : Answer) (c : Connection) :
    (c.answer m a).2.closed = c.closed ∧ ∀ e ∈ (c.answer m a).1, e.isClosed = false := by
  cases h : c.draining with
  | true => rw [answer_of_draining h]; exact ⟨rfl, List.forall_mem_nil _⟩
  | false =>
    rw [answer_of_not_draining h]
    refine ⟨(steady_sendAnswer m a c.countAnswer).closed, fun e he => ?_⟩
    rcases List.mem_append.mp he with he | he
    · cases a <;> simp [bookAnswer] at he <;> rcases he with rfl | rfl <;> rfl
    · exact Event.isClosed_eq_false ((emits_sendAnswer m a _).isNotice he)

namespace Run

theorem call_closed (i : Nat) (k : Call) (r : Run) :
    (r.call i k).2.2.conn.closed = r.conn.closed ∧
      ∀ e ∈ (r.call i k).2.1, e.isClosed = false := by
  cases hd : r.delivered[i]? with
  | none => rw [call_of_none hd]; exact ⟨rfl, List.forall_mem_nil _⟩
  | some d =>
    obtain ⟨s, -, -, heq⟩ | ⟨rfl, -, heq⟩ | ⟨a, rfl, -, heq⟩ := call_cases hd k <;> rw [heq]
    · exact ⟨rfl, List.forall_mem_nil _⟩
    · exact ⟨(steady_touch d.message r.conn).closed,
        fun e he => Event.isClosed_eq_false (isNotice_of_mem_touch he)⟩
    · exact answer_closed d.message a r.conn

/-- No act reports the end by itself. -/
theorem act_closed (a : Act) (r : Run) :
    (r.act a).2.2.conn.closed = r.conn.closed ∧ ∀ e ∈ (r.act a).2.1, e.isClosed = false := by
  cases a with
  | setRdy n => exact ⟨rfl, List.forall_mem_nil _⟩
  | feed b =>
    obtain ⟨hc, he⟩ := readFor_closed ((r.conn.push b).unread.length + 1) (r.conn.push b)
    exact ⟨hc.trans (steady_push b r.conn).closed, he⟩
  | endOfInput => exact readFor_closed (r.conn.pushEnd.unread.length + 1) r.conn.pushEnd
  | close => exact ⟨rfl, List.forall_mem_nil _⟩
  | refuse on => exact ⟨rfl, List.forall_mem_nil _⟩
  | write cmd =>
    exact ⟨(steady_write cmd r.conn).closed,
      fun e he => Event.isClosed_eq_false (isNotice_of_mem_write he)⟩
  | call i k => exact call_closed i k r

/-! ### Acts after the end was reported -/

theorem call_of_over {r : Run} (h : Over r.conn) (i : Nat) (k : Call) :
    Over (r.call i k).2.2.conn ∧ (r.call i k).2.1 = [] := by
  cases hd : r.delivered[i]? with
  | none => rw [call_of_none hd]; exact ⟨h, rfl⟩
  | some d =>
    obtain ⟨s, -, -, heq⟩ | ⟨rfl, -, heq⟩ | ⟨a, rfl, -, heq⟩ := call_cases hd k <;> rw [heq]
    · exact ⟨h, rfl⟩
    · simp only [touch, h.draining, if_true, advance_conn, advance_events]
      exact ⟨h, trivial⟩
    · simp only [answer_of_draining h.draining, advance_conn, advance_events]
      exact ⟨⟨h.draining, h.reading⟩, trivial⟩

/-- Once reading and writing have ended, acts tell notices only, and neither comes back. -/
theorem act_of_over {r : Run} (h : Over r.conn) (a : Act) :
    Over (r.act a).2.2.conn ∧ ∀ e ∈ (r.act a).2.1, e.isNotice = true := by
  cases a with
  | setRdy n => exact ⟨⟨h.draining, h.reading⟩, List.forall_mem_nil _⟩
  | feed b =>
    have ho := h.of_steady (steady_push b r.conn)
    simp only [act, readAll_of_over ho, advance_conn, advance_events]
    exact ⟨ho, List.forall_mem_nil _⟩
  | endOfInput =>
    have ho := h.of_steady (steady_pushEnd r.conn)
    simp only [act, readAll_of_over ho, advance_conn, advance_events]
    exact ⟨ho, List.forall_mem_nil _⟩
  | close => exact ⟨⟨h.draining, h.reading⟩, List.forall_mem_nil _⟩
  | refuse on => exact ⟨⟨h.draining, h.reading⟩, List.forall_mem_nil _⟩
  | write cmd =>
    exact ⟨h.of_steady (steady_write cmd r.conn), fun _ he => isNotice_of_mem_write he⟩
  | call i k =>
    obtain ⟨ho, he⟩ := call_of_over h i k
    refine ⟨ho, ?_⟩
    simp only [act, he]
    exact List.forall_mem_nil _

/-! ### The invariant -/

/-- What holds of every state of a run. -/
structure Sound (r : Run) : Prop where
  /-- The messages in flight are the ones without an answer. -/
  booked : r.conn.inFlight = r.unanswered
  /-- A reported end is one: nothing is in flight, read or written any more. -/
  ended : r.conn.closed = true → Over r.conn ∧ r.conn.inFlight = 0

/-- The three ways in which a step may end. -/
theorem step_cases (a : Act) (r : Run) :
    ((r.step a).2.1 = (r.act a).2.1 ∧ (r.step a).2.2.conn = (r.act a).2.2.conn.settled) ∨
      ((r.step a).2.1 = (r.act a).2.1 ++ [.closed (r.act a).2.2.conn.inFlight] ∧
        (r.step a).2.2.conn = { (r.act a).2.2.conn.settled with closed := true } ∧
        r.conn.closed = false ∧ (r.act a).2.2.conn.settled.isDrained = true) := by
  have hc := (act_closed a r).1
  simp only [step]
  rcases settle_cases (r.act a).2.2.conn with ⟨h, -⟩ | ⟨h, hf, hd⟩ <;> rw [h]
  · exact .inl ⟨List.append_nil _, rfl⟩
  · exact .inr ⟨rfl, rfl, hc.symm.trans hf, hd⟩

/-- A step from a reported end tells notices only. -/
theorem step_of_closed {r : Run} (h : r.Sound) (hc : r.conn.closed = true) (a : Act) :
    (r.step a).2.2.conn.closed = true ∧ Over (r.step a).2.2.conn ∧
      ∀ e ∈ (r.step a).2.1, e.isNotice = true := by
  obtain ⟨ho, hn⟩ := act_of_over (h.ended hc).1 a
  have hac : (r.act a).2.2.conn.closed = true := (act_closed a r).1.trans hc
  obtain ⟨he, hs⟩ | ⟨-, -, hf, -⟩ := step_cases a r
  · rw [he, hs, settled_of_over ho]
    exact ⟨hac, ho, hn⟩
  · rw [hc] at hf
    exact absurd hf Bool.noConfusion

theorem Sound.step {r : Run} (h : r.Sound) (a : Act) : (r.step a).2.2.Sound := by
  have hacc := accounts_step a r
  have hb : (r.step a).2.2.conn.inFlight = (r.step a).2.2.unanswered := by
    have := hacc.unanswered
    have := h.booked
    omega
  refine ⟨hb, fun hc => ?_⟩
  cases hr : r.conn.closed with
  | true =>
    -- notices move no counter
    obtain ⟨-, ho, hn⟩ := step_of_closed h hr a
    have := hacc.inFlight
    rw [tally_eq_zero hn, (h.ended hr).2] at this
    exact ⟨ho, by omega⟩
  | false =>
    obtain ⟨-, hs⟩ | ⟨-, hs, -, hd⟩ := step_cases a r
    · rw [hs, (steady_settled _).closed, (act_closed a r).1, hr] at hc
      exact absurd hc Bool.noConfusion
    · have hd : ((r.act a).2.2.conn.settled.draining = true ∧
          (r.act a).2.2.conn.settled.inFlight ≤ 0) ∧
            (r.act a).2.2.conn.settled.reading = false := by
        simpa [isDrained] using hd
      rw [hs] at hb ⊢
      refine ⟨⟨hd.1.1, hd.2⟩, ?_⟩
      -- a drained connection counts none or less in flight, and the count is one of messages
      have := hd.1.2
      dsimp only at hb ⊢
      omega

/-- What the events between two states of a run tell about the end: it was reported exactly if
the connection says so, and with nothing in flight; and what is told after the report are notices,
so that the report comes once at the most and no message and no answer follows it. -/
structure Ends (events : List Event) (r r' : Run) : Prop where
  closed : r'.conn.closed = true ↔ r.conn.closed = true ∨ ∃ e ∈ events, e.isClosed = true
  zero : ∀ n, .closed n ∈ events → n = 0
  order : events.Pairwise fun e e' => e.isClosed = true → e'.isNotice = true
  quiet : r.conn.closed = true → ∀ e ∈ events, e.isNotice = true

theorem Ends.trans {e₁ e₂ : List Event} {r₁ r₂ r₃ : Run} (h : Ends e₁ r₁ r₂)
    (h' : Ends e₂ r₂ r₃) : Ends (e₁ ++ e₂) r₁ r₃ where
  closed := by
    simp only [h'.closed, h.closed, List.mem_append, or_and_right, exists_or, or_assoc]
  zero n hn := by
    rcases List.mem_append.mp hn with hn | hn
    · exact h.zero n hn
    · exact h'.zero n hn
  order := by
    refine List.pairwise_append.mpr ⟨h.order, h'.order, fun e he e' he' hc => ?_⟩
    exact h'.quiet (h.closed.mpr (.inr ⟨e, he, hc⟩)) e' he'
  quiet hc e he := by
    rcases List.mem_append.mp he with he | he
    · exact h.quiet hc e he
    · exact h'.quiet (h.closed.mpr (.inl hc)) e he

/-- A list without a report ends nothing. -/
theorem pairwise_of_not_closed {events : List Event} (h : ∀ e ∈ events, e.isClosed = false) :
    events.Pairwise fun e e' => e.isClosed = true → e'.isNotice = true :=
  List.pairwise_of_forall_mem_list fun e he _ _ hc => by simp [h e he] at hc

theorem Sound.ends_step {r : Run} (h : r.Sound) (a : Act) :
    Ends (r.step a).2.1 r (r.step a).2.2 := by
  obtain ⟨hac, hae⟩ := act_closed a r
  have hsound := h.step a
  have hquiet := step_of_closed h (a := a)
  obtain ⟨he, hs⟩ | ⟨he, hs, hf, -⟩ := step_cases a r
  -- the act itself tells of no end, so an end is told by the step exactly in the second case
  · have hcl : (r.step a).2.2.conn.closed = r.conn.closed := by
      rw [hs, (steady_settled _).closed, hac]
    rw [he] at hquiet ⊢
    refine ⟨?_, fun n hn => ?_, pairwise_of_not_closed hae, fun hc => (hquiet hc).2.2⟩
    · rw [hcl, or_iff_left]
      rintro ⟨e, hm, hc⟩
      rw [hae e hm] at hc
      exact Bool.noConfusion hc
    · exact absurd (hae _ hn) Bool.noConfusion
  · have hcl : (r.step a).2.2.conn.closed = true := by rw [hs]
    have hz : (r.act a).2.2.conn.inFlight = 0 := by
      have := (hsound.ended hcl).2
      rw [hs] at this
      exact (steady_settled _).inFlight.symm.trans this
    rw [he, hz]
    refine ⟨?_, fun n hn => ?_, ?_, fun hc => ?_⟩
    · exact iff_of_true hcl (.inr ⟨.closed 0, by simp, rfl⟩)
    · rcases List.mem_append.mp hn with hn | hn
      · exact absurd (hae _ hn) Bool.noConfusion
      · simpa using hn
    · refine List.pairwise_append.mpr ⟨pairwise_of_not_closed hae, by simp, fun e hm e' _ hc => ?_⟩
      rw [hae e hm] at hc
      exact Bool.noConfusion hc
    · rw [hf] at hc
      exact Bool.noConfusion hc

/-- **The end along a run**, from any state that a run may be in. -/
theorem Sound.ends_steps {r : Run} (h : r.Sound) (as : List Act) :
    (r.steps as).2.Sound ∧ Ends (r.steps as).1 r (r.steps as).2 := by
  induction as generalizing r with
  | nil =>
    exact ⟨h, by simp [steps], fun _ he => absurd he List.not_mem_nil, .nil,
      fun _ => List.forall_mem_nil _⟩
  | cons a as ih =>
    obtain ⟨hs, he⟩ := ih (h.step a)
    exact ⟨hs, (h.ends_step a).trans he⟩

end Run

end Nsq.Connection
