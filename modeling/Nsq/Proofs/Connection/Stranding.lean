import Nsq.Proofs.Connection.Drain
import Mathlib.Tactic.ByContra

/-!
# Connections whose end is never reported

A connection on which nothing is in flight should have reported its end once that was asked for or
its octets are over. When the reading stops with messages outstanding, it is the last answer that
has to begin the end; but it does so only where somebody asked for the end. An owner that does not
do so at a fault leaves a connection behind that is **stranded**: the last answer is written,
nothing is read any more, and nobody will ever begin the end.

`Run.strands` is the one kind of act that does it. Along runs without such an act the end is
reported when it should be, after such an act it never is, and an owner that asks for the end at the
first fault never gets there (`Run.closed_or_stranded`).

That the end will begin is `Ending`, which every other act keeps (`Run.calm_act`). A connection that
has lost it has no message left whose answer could bring it back (`Run.not_ending_act`).
-/

namespace Nsq.Connection

theorem not_ending_iff {c : Connection} :
    ¬Ending c ↔ c.reading = false ∧ c.inFlight = 0 ∧ c.draining = false := by
  simp only [Ending, Classical.not_imp, Bool.not_eq_true]

/-! ### Reading -/

/-- Taking in a message keeps a connection in order. -/
theorem calm_arrive {c : Connection} (h : c.reading = true) (rest : Octets) :
    Calm c ({ c with unread := rest } : Connection).arrive where
  tidy t := ⟨t.1, t.2, t.3, t.4, t.5⟩
  ending _ hr := absurd (h.symm.trans hr) Bool.noConfusion
  stalled := id

theorem calm_readFor (fuel : Nat) (c : Connection) : Calm c (c.readFor fuel).2 := by
  induction fuel generalizing c with
  | zero => exact Calm.refl c
  | succ fuel ih =>
    rw [readFor]
    split
    · exact Calm.refl c
    · rename_i events c' h
      have hc : Calm c c' := by
        obtain ⟨hr, -, hu | ⟨m, rest, rfl, -⟩⟩ := read_cases h
        · exact hu.calm
        · exact calm_arrive hr rest
      calc
        Calm c c' := hc
        Calm _ _ := calm_lookUp c'
        Calm _ _ := ih c'.lookUp

/-- A connection that does not read any more reads nothing. -/
theorem readAll_of_not_reading {c : Connection} (h : c.reading = false) : c.readAll = ([], c) := by
  have hn : c.read = none := by simp [read, h]
  rw [readAll, readFor, hn]

/-! ### The last answer -/

/-- One answer is missing, nothing is read any more, and nobody has asked for the end or begun it:
an answer that can be written now leaves the end to nobody. -/
def isForlorn (c : Connection) : Bool :=
  !c.reading && !c.closing && !c.draining && c.inFlight == 1 && !c.refusing

theorem isForlorn_iff {c : Connection} :
    c.isForlorn = true ↔ c.reading = false ∧ c.closing = false ∧ c.draining = false ∧
      c.inFlight = 1 ∧ c.refusing = false := by
  simp [isForlorn, and_assoc]

theorem calm_answer (m : Message) (a : Answer) {c : Connection} (h : c.isForlorn = false) :
    Calm c (c.answer m a).2 := by
  cases hd : c.draining with
  | true =>
    rw [answer_of_draining hd]
    exact ⟨Tidy.countAnswer, fun _ _ _ => hd, id⟩
  | false =>
    rw [answer_of_not_draining hd]
    have hs := calm_sendAnswer m a c.countAnswer
    refine ⟨hs.tidy ∘ Tidy.countAnswer, fun _ => ending_sendAnswer m a fun hr hi => ?_, hs.stalled⟩
    -- otherwise this was the last answer of a forlorn connection
    by_contra hn
    rw [not_or, Bool.not_eq_true, Bool.not_eq_true] at hn
    have hone : c.inFlight = 1 := by
      simp only [countAnswer] at hi
      omega
    have hf : c.isForlorn = true := isForlorn_iff.mpr ⟨hr, hn.1, hd, hone, hn.2⟩
    exact Bool.false_ne_true (h.symm.trans hf)

theorem not_ending_answer (m : Message) (a : Answer) {c : Connection} (h : c.isForlorn = true) :
    ¬Ending (c.answer m a).2 := by
  obtain ⟨hr, hc, hd, hi, hf⟩ := isForlorn_iff.mp h
  rw [answer_of_not_draining hd, sendAnswer_eq, not_ending_iff]
  simp [countAnswer, hr, hc, hd, hi, hf]

/-! ### At rest -/

/-- What holds between the steps of a run on which no connection is stranded. -/
structure AtRest (c : Connection) : Prop where
  ending : Ending c
  stalled : c.stalled = false
  closed : c.inFlight = 0 → c.closing = true ∨ c.reading = false → c.closed = true

theorem atRest_settle {c : Connection} (he : Ending c) (hs : c.stalled = false) :
    AtRest c.settle.2 := by
  have hc := calm_settle c
  have hs' : c.settle.2.stalled = false := by
    rw [Bool.eq_false_iff]
    intro h
    exact Bool.false_ne_true (hs.symm.trans (hc.stalled h))
  exact ⟨hc.ending he, hs', fun hi hr => closed_settle he hr hi hs'⟩

/-- A connection that is not on its way to the end does not settle. -/
theorem settle_of_not_ending {c : Connection} (h : ¬Ending c) : c.settle = ([], c) := by
  obtain ⟨hr, -, hd⟩ := not_ending_iff.mp h
  simp [settle, isDrained, hr, hd]

namespace Run

/-- Whether an act strands the connection: it is the last answer of a connection that is forlorn. -/
def strands (a : Act) (r : Run) : Bool :=
  match a with
  | .call i (.answer _) => r.conn.isForlorn && r.delivered[i]?.any fun d => !d.state.responded
  | _ => false

/-- Whether one of several acts, performed one after another, strands the connection. -/
def stranded (r : Run) : List Act → Bool
  | [] => false
  | a :: as => r.strands a || (r.step a).2.2.stranded as

theorem step_conn (a : Act) (r : Run) : (r.step a).2.2.conn = (r.act a).2.2.conn.settle.2 := rfl

/-! ### Acts that strand nothing -/

theorem calm_call {i : Nat} {k : Call} {r : Run} (h : r.strands (.call i k) = false) :
    Calm r.conn (r.call i k).2.2.conn := by
  cases hd : r.delivered[i]? with
  | none =>
    rw [call_of_none hd]
    exact Calm.refl r.conn
  | some d =>
    obtain ⟨s, -, -, heq⟩ | ⟨rfl, -, heq⟩ | ⟨a, rfl, hr, heq⟩ := call_cases hd k <;> rw [heq]
    · exact Calm.refl r.conn
    · exact calm_touch d.message r.conn
    · exact calm_answer d.message a (by simpa [strands, hd, hr] using h)

/-- Every act that does not strand the connection keeps it in order. -/
theorem calm_act {a : Act} {r : Run} (h : r.strands a = false) :
    Calm r.conn (r.act a).2.2.conn := by
  cases a with
  | setRdy n => exact ⟨fun t => ⟨t.1, t.2, t.3, t.4, t.5⟩, id, id⟩
  | feed b => exact (calm_push b r.conn).trans (calm_readFor _ _)
  | endOfInput => exact (calm_pushEnd r.conn).trans (calm_readFor _ _)
  | close => exact calm_close r.conn
  | refuse on => exact calm_refusing on r.conn
  | write cmd => exact calm_write cmd r.conn
  | call i k => exact calm_call h

theorem calm_step {a : Act} {r : Run} (h : r.strands a = false) :
    Calm r.conn (r.step a).2.2.conn :=
  (calm_act h).trans (calm_settle _)

theorem atRest_step {a : Act} {r : Run} (h : r.strands a = false) (hr : AtRest r.conn) :
    AtRest (r.step a).2.2.conn := by
  have hc := calm_act h
  refine atRest_settle (hc.ending hr.ending) ?_
  rw [Bool.eq_false_iff]
  intro hs
  exact Bool.false_ne_true (hr.stalled.symm.trans (hc.stalled hs))

theorem atRest_steps {r : Run} (hr : AtRest r.conn) {as : List Act} (h : r.stranded as = false) :
    AtRest (r.steps as).2.conn := by
  induction as generalizing r with
  | nil => exact hr
  | cons a as ih =>
    rw [stranded, Bool.or_eq_false_iff] at h
    exact ih (atRest_step h.1 hr) h.2

/-- Where the end is asked for at the first fault, nothing is stranded. -/
theorem stranded_of_tidy {r : Run} (t : Tidy r.conn) (as : List Act) :
    r.stranded as = false := by
  induction as generalizing r with
  | nil => rfl
  | cons a as ih =>
    have hf : r.conn.isForlorn = false := by
      rw [Bool.eq_false_iff, Ne, isForlorn_iff]
      rintro ⟨hr, hc, -⟩
      exact Bool.false_ne_true (hc.symm.trans (t.closing_of_not_reading hr))
    have hs : r.strands a = false := by
      unfold strands
      split
      · rw [hf, Bool.false_and]
      · rfl
    rw [stranded, hs, Bool.false_or]
    exact ih ((calm_step hs).tidy t)

/-! ### Stranded connections -/

/-- With nothing in flight every delivered message has its answer. -/
theorem Sound.responded {r : Run} (h : r.Sound) (hi : r.conn.inFlight = 0) {i : Nat} {d : Delivery}
    (hd : r.delivered[i]? = some d) : d.state.responded = true := by
  have hz : r.unanswered = 0 := by
    have := h.booked
    omega
  have hn := List.countP_eq_zero.mp hz d (List.mem_of_getElem? hd)
  simpa using hn

/-- Nothing brings a stranded connection back. -/
theorem not_ending_act {r : Run} (hs : r.Sound) (h : ¬Ending r.conn) (a : Act) :
    ¬Ending (r.act a).2.2.conn := by
  obtain ⟨hr, hi, hd⟩ := not_ending_iff.mp h
  cases a with
  | setRdy n => exact not_ending_iff.mpr ⟨hr, hi, hd⟩
  | feed b =>
    have hp : r.conn.push b = r.conn := by simp [push, hr]
    simpa [act, hp, readAll_of_not_reading hr] using h
  | endOfInput =>
    have hp : r.conn.pushEnd.reading = false := hr
    simp only [act, readAll_of_not_reading hp]
    exact not_ending_iff.mpr ⟨hr, hi, hd⟩
  | close => exact not_ending_iff.mpr ⟨hr, hi, hd⟩
  | refuse on => exact not_ending_iff.mpr ⟨hr, hi, hd⟩
  | write cmd =>
    rw [not_ending_iff]
    rcases write_cases cmd r.conn with ⟨f, heq⟩ | heq <;> simp only [act, heq]
    · rw [report_eq]
      exact ⟨hr, hi, hd⟩
    · exact ⟨hr, hi, hd⟩
  | call i k =>
    cases hi' : r.delivered[i]? with
    | none =>
      simp only [act, call_of_none hi']
      exact h
    | some d =>
      have hres := hs.responded hi hi'
      obtain ⟨s, -, -, heq⟩ | ⟨-, hno, -⟩ | ⟨a, -, hno, -⟩ := call_cases hi' k
      · simp only [act, heq]
        exact h
      · exact absurd (hres.symm.trans hno) Bool.noConfusion
      · exact absurd (hres.symm.trans hno) Bool.noConfusion

theorem not_ending_step {r : Run} (hs : r.Sound) (h : ¬Ending r.conn) (a : Act) :
    ¬Ending (r.step a).2.2.conn := by
  have ha := not_ending_act hs h a
  rw [step_conn, settle_of_not_ending ha]
  exact ha

theorem not_ending_of_strands {a : Act} {r : Run} (h : r.strands a = true) :
    ¬Ending (r.step a).2.2.conn := by
  unfold strands at h
  split at h
  · rename_i i x
    rw [Bool.and_eq_true, Option.any_eq_true] at h
    obtain ⟨hf, d, hd, hr⟩ := h
    have ha : ¬Ending (r.act (.call i (.answer x))).2.2.conn := by
      obtain ⟨s, -, hno, -⟩ | ⟨hk, -⟩ | ⟨y, -, -, heq⟩ := call_cases hd (.answer x)
      · -- the message has no answer yet, so the call is not ignored
        rcases hno with hyes | hnone
        · simp [hyes] at hr
        · exact absurd rfl (hnone x)
      · exact absurd hk (by simp)
      · simp only [act, heq]
        exact not_ending_answer d.message y hf
    rw [step_conn, settle_of_not_ending ha]
    exact ha
  · simp at h

theorem not_ending_steps {r : Run} (hs : r.Sound) {as : List Act}
    (h : ¬Ending r.conn ∨ r.stranded as = true) : ¬Ending (r.steps as).2.conn := by
  induction as generalizing r with
  | nil => simpa [stranded, steps] using h
  | cons a as ih =>
    refine ih (hs.step a) ?_
    rcases h with h | h
    · exact .inl (not_ending_step hs h a)
    · rw [stranded, Bool.or_eq_true] at h
      exact h.imp not_ending_of_strands id

/-- **Closed or stranded.** For every run of a connection from its handshake on, whether or not its
owner asks for the end at a fault:

* unless an act of the run strands the connection, the end has been reported as soon as nothing is
  in flight and either the end was asked for or nothing is read any more;
* if an act strands it, then nothing is in flight, nothing is read any more, and the end has not
  been reported;
* if the owner asks for the end at a fault, then no act strands it. -/
theorem closed_or_stranded (address : String) (policy : Policy) (maxRdy : Int) (as : List Act) :
    let start := opened address policy maxRdy
    let c := (start.steps as).2.conn
    (start.stranded as = false →
      c.inFlight = 0 → c.closing = true ∨ c.reading = false → c.closed = true) ∧
    (start.stranded as = true → c.inFlight = 0 ∧ c.reading = false ∧ c.closed = false) ∧
    (policy.closesOnFault = true → start.stranded as = false) := by
  intro start c
  have hsound := sound_opened address policy maxRdy
  refine ⟨fun h => ?_, fun h => ?_, fun hp => ?_⟩
  · have hrest : AtRest start.conn :=
      ⟨fun hr => absurd hr Bool.noConfusion, rfl,
        fun _ hr => absurd hr (by simp [start, opened])⟩
    exact (atRest_steps hrest h).closed
  · obtain ⟨hr, hi, hd⟩ := not_ending_iff.mp (not_ending_steps hsound (.inr h))
    refine ⟨hi, hr, ?_⟩
    rw [Bool.eq_false_iff]
    intro hc
    have ho := ((hsound.ends_steps as).1.ended hc).1.draining
    exact Bool.false_ne_true (hd.symm.trans ho)
  · exact stranded_of_tidy ⟨hp, by simp [start, opened], by simp [start, opened],
      by simp [start, opened], by simp [start, opened]⟩ as

/-- A connection whose owner lets faults pass. -/
def lenient : Run :=
  opened "localhost:4150" ⟨0, 5, .ofSeconds 90, .ofSeconds 900, false⟩ 2500

/-- A message comes, the daemon ends its octets, the message is finished, and only then does the
owner ask for the end. -/
def farewell : List Act :=
  [.feed (Frame.encode ⟨.message, Message.encode { id := Octets.word 16 1, body := [] }⟩),
    .endOfInput, .call 0 (.answer .finish), .close]

/-- The shortest way to strand a connection. Asking for the end afterwards does not help. -/
theorem stranded_farewell :
    let c := (lenient.steps farewell).2.conn
    c.inFlight = 0 ∧ c.reading = false ∧ c.closed = false :=
  (closed_or_stranded _ _ _ farewell).2.1 (by decide +kernel)

end Run

end Nsq.Connection
