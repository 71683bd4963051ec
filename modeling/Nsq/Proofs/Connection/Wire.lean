import Nsq.Proofs.Connection.Ending

/-!
# Commands on a connection

Who put which command on a connection. `Run.log` lists the commands written along a run, each with
the act during which it was written, and `Run.sentFor` the ones that calls on one delivered message
put there. Identifiers would not do: a daemon may deliver two messages under one identifier.

Calls on a message put requests for time on the connection, then at most one final answer, which is
the first one that was given, and nothing after it (`Run.sentFor_inOrder`). Acts that are no calls
write answers to heartbeats, or what the owner writes (`Run.mem_log`).
-/

namespace Nsq.Connection

/-! ### What operations write -/

theorem readFor_sent (fuel : Nat) (c : Connection) :
    ∃ n, (c.readFor fuel).2.sent = c.sent ++ List.replicate n .nop := by
  induction fuel generalizing c with
  | zero => exact ⟨0, by simp [readFor]⟩
  | succ fuel ih =>
    rw [readFor]
    split
    · exact ⟨0, by simp⟩
    · rename_i events c' h
      obtain ⟨n, hn⟩ := ih c'.lookUp
      have hs : c'.sent = c.sent ∨ c'.sent = c.sent ++ [.nop] := by
        obtain ⟨-, -, hu | ⟨m, rest, rfl, -⟩⟩ := read_cases h
        · exact hu.sent
        · exact .inl rfl
      rw [lookUp_sent] at hn
      rcases hs with hs | hs
      · exact ⟨n, by rw [hn, hs]⟩
      · exact ⟨n + 1, by rw [hn, hs, List.append_assoc, List.replicate_succ]; rfl⟩

theorem touch_sent (m : Message) (c : Connection) :
    (c.touch m).2.sent = c.sent ∨ (c.touch m).2.sent = c.sent ++ [.touch m.id] := by
  rcases touch_cases m c with h | h
  · exact .inl (by rw [h])
  · exact h.sent

/-- The command of an answer depends on the policy of the connection alone. -/
theorem answerCommand_congr {c c' : Connection} (h : c'.policy = c.policy) (m : Message)
    (a : Answer) : c'.answerCommand m a = c.answerCommand m a := by
  cases a <;> simp [answerCommand, requeueDelay, h]

theorem answer_sent (m : Message) (a : Answer) (c : Connection) :
    (c.answer m a).2.sent = c.sent ∨
      (c.answer m a).2.sent = c.sent ++ [c.answerCommand m a] := by
  cases h : c.draining with
  | true => rw [answer_of_draining h]; exact .inl rfl
  | false =>
    rw [answer_of_not_draining h]
    exact (emits_sendAnswer m a c.countAnswer).sent

theorem settle_sent (c : Connection) : c.settle.2.sent = c.sent := by
  rcases settle_cases c with ⟨h, -⟩ | ⟨h, -⟩ <;> rw [h] <;> exact settled_sent c

theorem answer_policy (m : Message) (a : Answer) (c : Connection) :
    (c.answer m a).2.policy = c.policy := by
  cases h : c.draining with
  | true => rw [answer_of_draining h]; rfl
  | false => rw [answer_of_not_draining h]; exact (steady_sendAnswer m a c.countAnswer).policy

theorem readFor_policy (fuel : Nat) (c : Connection) : (c.readFor fuel).2.policy = c.policy := by
  induction fuel generalizing c with
  | zero => rfl
  | succ fuel ih =>
    rw [readFor]
    split
    · rfl
    · rename_i events c' h
      have hp : c'.policy = c.policy := by
        obtain ⟨-, -, hu | ⟨m, rest, rfl, -⟩⟩ := read_cases h
        · exact hu.steady.policy
        · rfl
      calc
        (c'.lookUp.readFor fuel).2.policy = c'.lookUp.policy := ih c'.lookUp
        _ = c'.policy := (steady_lookUp c').policy
        _ = c.policy := hp

namespace Run

/-! ### The log -/

/-- The commands that a step puts on the connection. -/
def written (a : Act) (r : Run) : List Command :=
  (r.step a).2.2.conn.sent.drop r.conn.sent.length

/-- The commands written along a run, each with the act during which it was written. -/
def log (r : Run) : List Act → List (Act × Command)
  | [] => []
  | a :: as => (r.written a).map (fun cmd => (a, cmd)) ++ (r.step a).2.2.log as

/-- The commands that calls on the message delivered as number `i` put on the connection. -/
def sentFor (i : Nat) (r : Run) (as : List Act) : List Command :=
  (r.log as).filterMap fun e =>
    match e.1 with
    | .call j _ => if j = i then some e.2 else none
    | _ => none

/-- The final answer that an act gives to the message delivered as number `i`. -/
def givenFor (i : Nat) (r : Run) : Act → Option Answer
  | .call j (.answer a) => if j = i ∧ i < r.delivered.length then some a else none
  | _ => none

/-- The first final answer that is given to the message delivered as number `i`. -/
def firstAnswer (i : Nat) (r : Run) : List Act → Option Answer
  | [] => none
  | a :: as => (r.givenFor i a).or ((r.step a).2.2.firstAnswer i as)

theorem step_sent (a : Act) (r : Run) :
    (r.step a).2.2.conn.sent = (r.act a).2.2.conn.sent := by
  simp only [step, advance_conn, settle_sent]

/-- A step only adds to what was sent: answers to heartbeats, what the owner writes, or what a call
passes on. -/
theorem sent_step (a : Act) (r : Run) :
    (r.step a).2.2.conn.sent = r.conn.sent ++ r.written a ∧
      ((∃ i k, a = .call i k) ∨ ∀ cmd ∈ r.written a, cmd = .nop ∨ a = .write cmd) := by
  have key : ∃ new, (r.act a).2.2.conn.sent = r.conn.sent ++ new ∧
      ((∃ i k, a = .call i k) ∨ ∀ cmd ∈ new, cmd = .nop ∨ a = .write cmd) := by
    cases a with
    | setRdy n => exact ⟨[], by simp [act, setRdy], .inr (List.forall_mem_nil _)⟩
    | feed b =>
      obtain ⟨n, hn⟩ := readFor_sent ((r.conn.push b).unread.length + 1) (r.conn.push b)
      rw [push_sent] at hn
      exact ⟨_, hn, .inr fun cmd h => .inl (List.eq_of_mem_replicate h)⟩
    | endOfInput =>
      obtain ⟨n, hn⟩ := readFor_sent (r.conn.pushEnd.unread.length + 1) r.conn.pushEnd
      exact ⟨_, hn, .inr fun cmd h => .inl (List.eq_of_mem_replicate h)⟩
    | close => exact ⟨[], by simp [act, close], .inr (List.forall_mem_nil _)⟩
    | refuse on => exact ⟨[], by simp [act], .inr (List.forall_mem_nil _)⟩
    | write cmd =>
      rcases write_sent cmd r.conn with h | h
      · exact ⟨[], by simpa [act] using h, .inr (List.forall_mem_nil _)⟩
      · exact ⟨[cmd], h, .inr fun _ hm => .inr (by rw [List.mem_singleton.mp hm])⟩
    | call i k =>
      refine ⟨(r.call i k).2.2.conn.sent.drop r.conn.sent.length, ?_, .inl ⟨i, k, rfl⟩⟩
      suffices r.conn.sent <+: (r.call i k).2.2.conn.sent by
        obtain ⟨new, hnew⟩ := this
        rw [← hnew, List.drop_left]
        exact hnew.symm
      cases hd : r.delivered[i]? with
      | none => exact (call_of_none hd k).symm ▸ List.prefix_rfl
      | some d =>
        obtain ⟨s, -, -, heq⟩ | ⟨rfl, -, heq⟩ | ⟨a, rfl, -, heq⟩ := call_cases hd k <;> rw [heq]
        · exact List.prefix_rfl
        · rcases touch_sent d.message r.conn with h | h
          · exact ⟨[], by rw [advance_conn, h, List.append_nil]⟩
          · exact ⟨_, by rw [advance_conn, h]⟩
        · rcases answer_sent d.message a r.conn with h | h
          · exact ⟨[], by rw [advance_conn, h, List.append_nil]⟩
          · exact ⟨_, by rw [advance_conn, h]⟩
  obtain ⟨new, hnew, hkind⟩ := key
  have hw : r.written a = new := by rw [written, step_sent, hnew, List.drop_left]
  rw [hw, step_sent]
  exact ⟨hnew, hkind⟩

/-- The log holds everything that was sent, in order. -/
theorem sent_steps (r : Run) (as : List Act) :
    (r.steps as).2.conn.sent = r.conn.sent ++ (r.log as).map Prod.snd := by
  induction as generalizing r with
  | nil => simp [steps, log]
  | cons a as ih =>
    have h : (r.steps (a :: as)).2 = ((r.step a).2.2.steps as).2 := rfl
    rw [h, ih, (sent_step a r).1, log, List.map_append, List.map_map, List.append_assoc]
    simp [Function.comp_def]

/-- What was not written by a call is the answer to a heartbeat or was written by the owner. -/
theorem mem_log {r : Run} {as : List Act} {e : Act × Command} (h : e ∈ r.log as) :
    (∃ i k, e.1 = .call i k) ∨ e.2 = .nop ∨ e.1 = .write e.2 := by
  induction as generalizing r with
  | nil => exact absurd h List.not_mem_nil
  | cons a as ih =>
    rcases List.mem_append.mp h with h | h
    · obtain ⟨cmd, hcmd, rfl⟩ := List.mem_map.mp h
      rcases (sent_step a r).2 with hc | hc
      · exact .inl hc
      · exact .inr (hc cmd hcmd)
    · exact ih h

/-! ### One message -/

theorem sentFor_call (i : Nat) (k : Call) (r : Run) (as : List Act) :
    r.sentFor i (.call i k :: as) =
      r.written (.call i k) ++ (r.step (.call i k)).2.2.sentFor i as := by
  rw [sentFor, log, List.filterMap_append, List.filterMap_map]
  refine congrArg (· ++ _) ?_
  -- each command that the call wrote is one for the message
  exact (congrArg (List.filterMap · _) (funext fun _ => if_pos rfl)).trans List.filterMap_some

theorem sentFor_cons_of_ne {i : Nat} {a : Act} (r : Run) (h : ∀ k, a ≠ .call i k)
    (as : List Act) : r.sentFor i (a :: as) = (r.step a).2.2.sentFor i as := by
  rw [sentFor, log, List.filterMap_append, List.filterMap_map]
  refine (congrArg (· ++ _) (List.filterMap_eq_nil_iff.mpr ?_)).trans (List.nil_append _)
  intro cmd _
  cases a with
  | call j k => exact if_neg fun hj => h k (by rw [hj])
  | _ => rfl

theorem firstAnswer_cons_of_none {i : Nat} {a : Act} {r : Run} (h : r.givenFor i a = none)
    (as : List Act) : r.firstAnswer i (a :: as) = (r.step a).2.2.firstAnswer i as := by
  rw [firstAnswer, h, Option.none_or]

theorem firstAnswer_cons_of_ne {i : Nat} {a : Act} (r : Run) (h : ∀ k, a ≠ .call i k)
    (as : List Act) : r.firstAnswer i (a :: as) = (r.step a).2.2.firstAnswer i as := by
  refine firstAnswer_cons_of_none ?_ as
  unfold givenFor
  split
  · rename_i j x
    exact if_neg fun hj => h (.answer x) (by rw [hj.1])
  · rfl

theorem steps_cons (r : Run) (a : Act) (as : List Act) :
    (r.steps (a :: as)).2 = ((r.step a).2.2.steps as).2 := rfl

theorem step_policy (a : Act) (r : Run) : (r.step a).2.2.conn.policy = r.conn.policy := by
  have hs : (r.step a).2.2.conn.policy = (r.act a).2.2.conn.policy := by
    simp only [step, advance_conn]
    rcases settle_cases (r.act a).2.2.conn with ⟨h, -⟩ | ⟨h, -⟩ <;> rw [h] <;>
      exact (steady_settled _).policy
  rw [hs]
  cases a with
  | setRdy n => rfl
  | feed b => exact (readFor_policy _ _).trans (steady_push b r.conn).policy
  | endOfInput => exact readFor_policy _ _
  | close => rfl
  | refuse on => rfl
  | write cmd => exact (steady_write cmd r.conn).policy
  | call i k =>
    cases hd : r.delivered[i]? with
    | none => simp only [act, call_of_none hd]
    | some d =>
      simp only [act]
      obtain ⟨s, -, -, heq⟩ | ⟨rfl, -, heq⟩ | ⟨a, rfl, -, heq⟩ := call_cases hd k <;> rw [heq]
      · rfl
      · exact (steady_touch d.message r.conn).policy
      · exact answer_policy d.message a r.conn

/-- The messages delivered stay delivered, and new ones have no answer yet. -/
theorem getElem?_advance (i : Nat) (r : Run) (p : List Event × Connection) :
    (r.advance p).2.delivered[i]? = r.delivered[i]? ∨
      (r.delivered[i]? = none ∧ ∃ m, (r.advance p).2.delivered[i]? = some ⟨m, {}⟩) := by
  simp only [advance]
  rcases Nat.lt_or_ge i r.delivered.length with h | h
  · exact .inl (List.getElem?_append_left h)
  · have hn : r.delivered[i]? = none := List.getElem?_eq_none h
    rw [List.getElem?_append_right h, List.getElem?_map, hn]
    cases (arrivals p.1)[i - r.delivered.length]? with
    | none => exact .inl rfl
    | some m => exact .inr ⟨rfl, m, rfl⟩

theorem getElem?_putState (i j : Nat) (d : Delivery) (s : Answered) (r : Run) (h : j ≠ i) :
    (r.putState j d s).delivered[i]? = r.delivered[i]? := by
  simp [putState, h]

theorem step_delivered (a : Act) (r : Run) :
    (r.step a).2.2.delivered = (r.act a).2.2.delivered := by
  simp only [step, advance]
  rcases settle_cases (r.act a).2.2.conn with ⟨h, -⟩ | ⟨h, -⟩ <;> rw [h] <;>
    exact List.append_nil _

/-- An act that is no call on a message leaves it and its state alone; it may deliver it. -/
theorem getElem?_step_of_ne {i : Nat} {a : Act} (r : Run) (h : ∀ k, a ≠ .call i k) :
    (r.step a).2.2.delivered[i]? = r.delivered[i]? ∨
      (r.delivered[i]? = none ∧ ∃ m, (r.step a).2.2.delivered[i]? = some ⟨m, {}⟩) := by
  rw [step_delivered]
  cases a with
  | setRdy n => exact .inl rfl
  | feed b => exact getElem?_advance i r _
  | endOfInput => exact getElem?_advance i r _
  | close => exact .inl rfl
  | refuse on => exact .inl rfl
  | write cmd => exact .inl rfl
  | call j k =>
    have hj : j ≠ i := fun hj => h k (by rw [hj])
    cases hd : r.delivered[j]? with
    | none => simp only [act, call_of_none hd]; exact .inl trivial
    | some d =>
      simp only [act]
      obtain ⟨s, -, -, heq⟩ | ⟨rfl, -, heq⟩ | ⟨a, rfl, -, heq⟩ := call_cases hd k <;> rw [heq]
      · exact .inl (getElem?_putState i j d s r hj)
      · rw [← getElem?_putState i j d d.state r hj]
        exact getElem?_advance i _ _
      · rw [← getElem?_putState i j d { d.state with responded := true } r hj]
        exact getElem?_advance i _ _

theorem getElem?_putState_self {i : Nat} {d : Delivery} {r : Run} (hd : r.delivered[i]? = some d)
    (s : Answered) : (r.putState i d s).delivered[i]? = some { d with state := s } := by
  obtain ⟨hi, -⟩ := List.getElem?_eq_some_iff.mp hd
  simp [putState, hi]

theorem getElem?_advance_self {i : Nat} {d : Delivery} {r : Run} (hd : r.delivered[i]? = some d)
    (p : List Event × Connection) : (r.advance p).2.delivered[i]? = some d := by
  obtain h | ⟨h, -⟩ := getElem?_advance i r p
  · rw [h, hd]
  · rw [hd] at h
    exact absurd h (Option.some_ne_none d)

theorem written_eq_of_sent {r : Run} {a : Act} {new : List Command}
    (h : (r.act a).2.2.conn.sent = r.conn.sent ++ new) : r.written a = new := by
  rw [written, step_sent, h, List.drop_left]

/-- What a call on a delivered message does to it, and what it puts on the connection: nothing; a
request for time, while it has no answer; or its final answer, which it had not. -/
theorem step_call_cases {i : Nat} {d : Delivery} {r : Run} (hd : r.delivered[i]? = some d)
    (k : Call) :
    ∃ s, (r.step (.call i k)).2.2.delivered[i]? = some { d with state := s } ∧
      ((s.responded = d.state.responded ∧ (d.state.responded = true ∨ ∀ a, k ≠ .answer a) ∧
          r.written (.call i k) = []) ∨
        (k = .touch ∧ d.state.responded = false ∧ s.responded = false ∧
          (r.written (.call i k) = [] ∨ r.written (.call i k) = [.touch d.message.id])) ∨
        ∃ a, k = .answer a ∧ d.state.responded = false ∧ s.responded = true ∧
          (r.written (.call i k) = [] ∨
            r.written (.call i k) = [r.conn.answerCommand d.message a])) := by
  rw [step_delivered]
  simp only [act]
  obtain ⟨s, hs, hk, heq⟩ | ⟨rfl, hr, heq⟩ | ⟨a, rfl, hr, heq⟩ := call_cases hd k
  · rw [heq]
    refine ⟨s, getElem?_putState_self hd s, .inl ⟨hs, hk, written_eq_of_sent ?_⟩⟩
    simp only [act, heq]
    exact (List.append_nil _).symm
  · rw [heq]
    refine ⟨d.state, getElem?_advance_self (getElem?_putState_self hd d.state) _,
      .inr (.inl ⟨rfl, hr, hr, ?_⟩)⟩
    rcases touch_sent d.message r.conn with h | h
    · exact .inl (written_eq_of_sent (by simp only [act, heq, advance_conn, h, List.append_nil]))
    · exact .inr (written_eq_of_sent (by simp only [act, heq, advance_conn, h]))
  · rw [heq]
    refine ⟨_, getElem?_advance_self (getElem?_putState_self hd _) _,
      .inr (.inr ⟨a, rfl, hr, rfl, ?_⟩)⟩
    rcases answer_sent d.message a r.conn with h | h
    · exact .inl (written_eq_of_sent (by simp only [act, heq, advance_conn, h, List.append_nil]))
    · exact .inr (written_eq_of_sent (by simp only [act, heq, advance_conn, h]))

/-- A call on a message that was not delivered writes nothing. -/
theorem written_call_of_none {i : Nat} {r : Run} (hd : r.delivered[i]? = none) (k : Call) :
    r.written (.call i k) = [] :=
  written_eq_of_sent (by simp only [act, call_of_none hd, List.append_nil])

/-- A delivered message stays delivered. -/
theorem delivered_steps {i : Nat} {d : Delivery} {r : Run} (hd : r.delivered[i]? = some d)
    (as : List Act) :
    ∃ d', (r.steps as).2.delivered[i]? = some d' ∧ d'.message = d.message := by
  induction as generalizing r d with
  | nil => exact ⟨d, hd, rfl⟩
  | cons a as ih =>
    rw [steps_cons]
    by_cases h : ∃ k, a = .call i k
    · obtain ⟨k, rfl⟩ := h
      obtain ⟨s, hs, -⟩ := step_call_cases hd k
      obtain ⟨d', hd', hm⟩ := ih hs
      exact ⟨d', hd', hm⟩
    · obtain hg | ⟨hg, -⟩ := getElem?_step_of_ne r fun k hk => h ⟨k, hk⟩
      · exact ih (hg.trans hd)
      · rw [hd] at hg
        exact absurd hg (Option.some_ne_none d)

/-- Nothing more is sent for a message that has its final answer. -/
theorem sentFor_of_responded {i : Nat} {d : Delivery} {r : Run} (hd : r.delivered[i]? = some d)
    (hr : d.state.responded = true) (as : List Act) : r.sentFor i as = [] := by
  induction as generalizing r d with
  | nil => rfl
  | cons a as ih =>
    by_cases h : ∃ k, a = .call i k
    · obtain ⟨k, rfl⟩ := h
      obtain ⟨s, hs, ⟨hsr, -, hw⟩ | ⟨-, hf, -⟩ | ⟨a, -, hf, -⟩⟩ := step_call_cases hd k
      · rw [sentFor_call, hw, ih hs (hsr.trans hr), List.append_nil]
      · rw [hr] at hf
        exact absurd hf Bool.noConfusion
      · rw [hr] at hf
        exact absurd hf Bool.noConfusion
    · have hne : ∀ k, a ≠ .call i k := fun k hk => h ⟨k, hk⟩
      obtain hg | ⟨hg, -⟩ := getElem?_step_of_ne r hne
      · rw [sentFor_cons_of_ne r hne, ih (hg.trans hd) hr]
      · rw [hd] at hg
        exact absurd hg (Option.some_ne_none d)

/-- What may be sent for a message: requests for time, and then at most some given commands. -/
def InOrder (m : Message) (sent last : List Command) : Prop :=
  ∃ n tail, sent = List.replicate n (.touch m.id) ++ tail ∧ tail.Sublist last

theorem InOrder.of_sublist {m : Message} {sent last : List Command} (h : sent.Sublist last) :
    InOrder m sent last := ⟨0, sent, rfl, h⟩

theorem InOrder.touch {m : Message} {sent last : List Command} (h : InOrder m sent last) :
    InOrder m (.touch m.id :: sent) last := by
  obtain ⟨n, tail, rfl, ht⟩ := h
  exact ⟨n + 1, tail, rfl, ht⟩

/-- **What is sent for a message** along a run in which it has no answer at first: requests for
time, and then at most the command of the first final answer given to it. -/
theorem sentFor_inOrder {i : Nat} {r : Run}
    (hp : ∀ d, r.delivered[i]? = some d → d.state.responded = false) (as : List Act)
    {d' : Delivery} (hd' : (r.steps as).2.delivered[i]? = some d') :
    InOrder d'.message (r.sentFor i as)
      ((r.firstAnswer i as).toList.map (r.conn.answerCommand d'.message)) := by
  -- the act in front is a call on the message or not, and such a call has the outcomes of
  -- `step_call_cases`; the rest of the run goes on from a message without an answer, but for the
  -- outcome that gives the answer
  induction as generalizing r with
  | nil => exact .of_sublist (List.nil_sublist _)
  | cons a as ih =>
    rw [steps_cons] at hd'
    have hcmd : r.conn.answerCommand d'.message =
        (r.step a).2.2.conn.answerCommand d'.message :=
      funext fun x => (answerCommand_congr (step_policy a r) d'.message x).symm
    by_cases h : ∃ k, a = .call i k
    · obtain ⟨k, rfl⟩ := h
      rw [sentFor_call]
      cases hd : r.delivered[i]? with
      | none =>
        have hn : (r.step (.call i k)).2.2.delivered[i]? = none := by
          rw [step_delivered]
          simp only [act, call_of_none hd, hd]
        have hg : r.givenFor i (.call i k) = none := by
          cases k <;> simp [givenFor, List.getElem?_eq_none_iff.mp hd]
        rw [written_call_of_none hd, List.nil_append, firstAnswer_cons_of_none hg, hcmd]
        exact ih (fun d h => by rw [hn] at h; cases h) hd'
      | some d =>
        have hi : i < r.delivered.length := (List.getElem?_eq_some_iff.mp hd).1
        have hf := hp d hd
        obtain ⟨s, hs, ⟨hsr, hk, hw⟩ | ⟨rfl, -, hsr, hw⟩ | ⟨x, rfl, -, hsr, hw⟩⟩ :=
          step_call_cases hd k
        · have hg : r.givenFor i (.call i k) = none := by
            cases k with
            | answer x => rcases hk with hk | hk <;> simp_all
            | _ => rfl
          rw [hw, List.nil_append, firstAnswer_cons_of_none hg, hcmd]
          refine ih (fun e he => ?_) hd'
          rw [hs, Option.some_inj] at he
          rw [← he]
          exact hsr.trans hf
        · have ht := ih (fun e he => by rw [hs, Option.some_inj] at he; rw [← he]; exact hsr) hd'
          obtain ⟨e, he, hm⟩ := delivered_steps hs as
          obtain rfl : d' = e := by rw [he, Option.some_inj] at hd'; exact hd'.symm
          have hg : r.givenFor i (.call i .touch) = none := rfl
          rw [firstAnswer_cons_of_none hg, hcmd]
          rcases hw with hw | hw <;> rw [hw]
          · exact ht
          · rw [← (show d'.message = d.message from hm)]
            exact ht.touch
        · obtain ⟨e, he, hm⟩ := delivered_steps hs as
          obtain rfl : d' = e := by rw [he, Option.some_inj] at hd'; exact hd'.symm
          have hg : r.firstAnswer i (.call i (.answer x) :: as) = some x := by
            simp [firstAnswer, givenFor, hi]
          -- nothing is sent for a message behind its answer
          rw [sentFor_of_responded hs hsr, List.append_nil, hg, hm]
          rcases hw with hw | hw <;> rw [hw]
          · exact .of_sublist (List.nil_sublist _)
          · exact .of_sublist (List.Sublist.refl _)
    · have hne : ∀ k, a ≠ .call i k := fun k hk => h ⟨k, hk⟩
      have hp' : ∀ d, (r.step a).2.2.delivered[i]? = some d → d.state.responded = false := by
        intro d hd
        obtain hg | ⟨-, m, hm⟩ := getElem?_step_of_ne r hne
        · exact hp d (hg.symm.trans hd)
        · -- the act delivers the message
          rw [hm, Option.some_inj] at hd
          rw [← hd]
      rw [sentFor_cons_of_ne r hne, firstAnswer_cons_of_ne r hne, hcmd]
      exact ih hp' hd'

end Run

end Nsq.Connection
