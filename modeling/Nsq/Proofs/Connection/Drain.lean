import Nsq.Proofs.Connection.Wire

/-!
# Drain and close

The whole life of a connection, from its handshake on, whatever the daemon sends in whatever pieces,
whenever it ends its octets, whenever the end is asked for, whenever writes fail and recover, and
whatever the holders of its messages call in whatever order: the account of its messages, the report
of its end, and the commands that it carries for each message.
-/

namespace Nsq.Connection

namespace Run

/-- A connection right behind its handshake. -/
def opened (address : String) (policy : Policy) (maxRdy : Int) : Run where
  conn := { address := address, policy := policy, maxRdy := maxRdy }

theorem sound_opened (address : String) (policy : Policy) (maxRdy : Int) :
    (opened address policy maxRdy).Sound :=
  ⟨rfl, fun h => absurd h Bool.false_ne_true⟩

/-- Reports of which nothing but notices follows are one at the most. -/
theorem countP_isClosed_le_one {events : List Event}
    (h : events.Pairwise fun e e' => e.isClosed = true → e'.isNotice = true) :
    events.countP Event.isClosed ≤ 1 := by
  induction h with
  | nil => exact Nat.zero_le 1
  | @cons e events he _ ih =>
    cases hc : e.isClosed with
    | false => rwa [List.countP_cons_of_neg (by simp [hc])]
    | true =>
      have h0 : events.countP Event.isClosed = 0 :=
        List.countP_eq_zero.mpr fun e' he' => by
          simp [Event.isClosed_eq_false (he e' he' hc)]
      have hcons := List.countP_cons_of_pos (l := events) hc
      omega

/-- **Drain and close.** For every run of a connection from its handshake on:

* the number of messages in flight is not negative, and the messages delivered are the ones told
  as finished, the ones told as requeued, the ones whose answers were only counted because the end
  had begun, and the ones in flight;
* the end is reported at most once, exactly when the connection is closed, which it is only with
  nothing in flight and reading and writing both over, and after the report no message, no finished
  and no requeued event is told;
* what the connection carries was put there by calls on messages, by the owner or in answer to
  heartbeats; and calls on one message put requests for time on it and then at most one final
  answer, which is the first that was given, with nothing behind it. -/
theorem drain_and_close (address : String) (policy : Policy) (maxRdy : Int) (as : List Act) :
    let start := opened address policy maxRdy
    let events := (start.steps as).1
    let r := (start.steps as).2
    (0 ≤ r.conn.inFlight ∧ r.delivered.length = (arrivals events).length ∧
      (r.delivered.length : Int) = events.countP Event.isFinished +
        events.countP Event.isRequeued + start.drained as + r.conn.inFlight) ∧
      (events.countP Event.isClosed ≤ 1 ∧
        (r.conn.closed = true ↔ ∃ e ∈ events, e.isClosed = true) ∧
        (r.conn.closed = true → Over r.conn ∧ r.conn.inFlight = 0) ∧
        (∀ n, .closed n ∈ events → n = 0) ∧
        events.Pairwise fun e e' => e.isClosed = true → e'.isNotice = true) ∧
      (r.conn.sent = (start.log as).map Prod.snd ∧
        (∀ e ∈ start.log as, (∃ i k, e.1 = .call i k) ∨ e.2 = .nop ∨ e.1 = .write e.2) ∧
        ∀ i d, r.delivered[i]? = some d →
          ∃ n tail, start.sentFor i as = List.replicate n (.touch d.message.id) ++ tail ∧
            tail.Sublist ((start.firstAnswer i as).toList.map
              (start.conn.answerCommand d.message))) := by
  intro start events r
  have hacc : Accounts (start.drained as) events start r := accounts_steps start as
  obtain ⟨hsound, hends⟩ := (sound_opened address policy maxRdy).ends_steps as
  have hlen : r.delivered.length = (arrivals events).length := by
    rw [hacc.delivered]
    exact Nat.zero_add _
  refine ⟨⟨?_, hlen, ?_⟩, ⟨countP_isClosed_le_one hends.order, ?_, hsound.ended, hends.zero,
    hends.order⟩, sent_steps start as, fun e he => mem_log he, fun i d hd => ?_⟩
  · have hb : r.conn.inFlight = r.unanswered := hsound.booked
    omega
  · have := hacc.inFlight
    have h0 : start.conn.inFlight = 0 := rfl
    rw [tally] at this
    omega
  · rw [hends.closed]
    exact or_iff_right Bool.false_ne_true
  · exact sentFor_inOrder (fun e he => by simp [start, opened] at he) as hd

end Run

end Nsq.Connection
