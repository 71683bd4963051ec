import Nsq.Proofs.Connection.Effects
import Nsq.Proofs.Publisher.Outcomes
import Nsq.Publisher.Run

/-!
# What a router writes after a fault

A command whose write fails may have reached the daemon in part, so that whatever follows it on the
same connection would be read as the rest of it. A router whose write fails asks for the connection
to be closed, but works on until it learns that this has happened, and until then it hands over
what comes in like before. So a run is silent after a fault only if no transaction comes in between
the fault and the leaving of the router (`Router.handed_after_fault`). The connection does not hold
such a command back either (`Run.sent_after_fault`).

What a run hands over is said without the router: `handedOver` lists the commands that come in
before it leaves.
-/

namespace Nsq.Publisher

variable {Tag : Type}

/-- The commands that come in before the router leaves, in order, and whether each was written. -/
def handedOver : List (RouterEvent Tag) → List (Command × Bool)
  | [] => []
  | .accepted t written :: es => (t.command, written.isOk) :: handedOver es
  | .frame _ _ :: es => handedOver es
  | .left :: _ => []

theorem handedOver_append {front : List (RouterEvent Tag)} (h : leaves front = false)
    (back : List (RouterEvent Tag)) :
    handedOver (front ++ back) = handedOver front ++ handedOver back := by
  induction front with
  | nil => rfl
  | cons e es ih =>
    cases e with
    | accepted t written => exact congrArg (List.cons _) (ih h)
    | frame kind data => exact ih h
    | left => exact absurd h.symm Bool.false_ne_true

/-- Nothing is handed over if each transaction comes in after the router has left. -/
theorem handedOver_eq_nil_iff {es : List (RouterEvent Tag)} :
    handedOver es = [] ↔
      ∀ mid t written rest, es = mid ++ .accepted t written :: rest → leaves mid = true := by
  constructor
  · rintro h mid t written rest rfl
    refine Bool.of_not_eq_false fun hl => ?_
    rw [handedOver_append hl] at h
    exact List.cons_ne_nil _ _ (List.append_eq_nil_iff.mp h).2
  · induction es with
    | nil => exact fun _ => rfl
    | cons e es ih =>
      intro h
      cases e with
      | accepted t written => exact absurd (h [] t written es rfl) Bool.false_ne_true
      | frame kind data =>
        exact ih fun mid t written rest he => h (.frame kind data :: mid) t written rest (he ▸ rfl)
      | left => rfl

namespace Router

variable {r : Router Tag}

/-- A frame concerns neither what was handed over nor whether the connection shall be closed. -/
theorem step_frame_handed (r : Router Tag) (kind : FrameKind) (data : Octets) :
    (r.step (.frame kind data)).2.handed = r.handed ∧
      (r.step (.frame kind data)).2.closing = r.closing ∧
      (r.step (.frame kind data)).2.running = r.running := by
  cases hr : r.running with
  | false => simp [step, hr]
  | true => cases hq : r.pending <;> simp [step, hr, hq, Queue.settle]

/-- What a router at work hands over, and when it asks for the end of the connection: no fault makes
it stop. -/
theorem handed_of_running (h : r.running = true) (es : List (RouterEvent Tag)) :
    (r.run es).2.handed = r.handed ++ handedOver es ∧
      (r.run es).2.closing = (r.closing || (handedOver es).any fun e => !e.2) := by
  induction es generalizing r with
  | nil => simp [run, handedOver]
  | cons e es ih =>
    rw [run_cons]
    cases e with
    | accepted t written =>
      rw [step_accepted h]
      obtain ⟨hh, hc⟩ := ih (r := { r with
        pending := r.pending ++ [t]
        closing := r.closing || !written.isOk
        handed := r.handed ++ [(t.command, written.isOk)] }) h
      refine ⟨hh.trans ?_, hc.trans ?_⟩
      · simp [handedOver]
      · simp [handedOver, Bool.or_assoc]
    | frame kind data =>
      obtain ⟨hh, hc, hr⟩ := step_frame_handed r kind data
      obtain ⟨hh', hc'⟩ := ih (hr.trans h)
      exact ⟨hh'.trans (congrArg (· ++ _) hh), hc'.trans (congrArg (· || _) hc)⟩
    | left =>
      rw [step_left h, run_of_left (r := { r with pending := [], running := false }) rfl es]
      simp [handedOver]

/-- A router that left before refuses what comes in, with the outcome that there is no connection,
and stays as it is. -/
theorem run_accepted_of_left {front : List (RouterEvent Tag)} (hr : r.running = true)
    (h : leaves front = true) (t : Transaction Tag) (written : Except IoFault Unit) :
    r.run (front ++ [.accepted t written]) =
      ((r.run front).1 ++ [⟨some .notConnected, t.tag⟩], (r.run front).2) := by
  have hgone : (r.run front).2.running = false := by
    rw [(run_of_running hr front).running, h]
    rfl
  rw [run_append, run_of_left hgone]
  rfl

end Router

namespace Run

variable {r : Run Tag} {conn : Connection} {t : Transaction Tag}

/-- A router at work has a command written that can be written, however the connection stands. -/
theorem accept_of_written (hr : r.router.running = true) (hc : r.conn = some conn)
    (hw : conn.write t.command = (.ok (), [], { conn with sent := conn.sent ++ [t.command] })) :
    r.accept t = ([], { r with
      conn := some { conn with sent := conn.sent ++ [t.command] }
      router := (r.router.step (.accepted t (.ok ()))).2 }) := by
  unfold accept
  rw [if_pos hr, hc]
  dsimp only
  rw [hw]
  dsimp only [hearAll, route]
  rw [Router.step_accepted hr]
  rfl

/-- A transaction whose command cannot be written waits like the others. The end of the connection
is asked for, and the router works on. -/
theorem accept_of_fault {f : IoFault} (hr : r.router.running = true) (hc : r.conn = some conn)
    (hw : conn.write t.command = (.error f, conn.report f)) :
    ∃ closing, (r.accept t).2.conn = some { conn with closing := closing } ∧
      (r.accept t).2.router = (r.router.step (.accepted t (.error f))).2 := by
  unfold accept
  rw [if_pos hr, hc]
  dsimp only
  rw [hw, Connection.report_eq]
  dsimp only [hearAll, hear, route, giveUp]
  split_ifs
  · exact ⟨true, rfl, rfl⟩
  · exact ⟨_, rfl, rfl⟩

/-- The connection takes a command right after one that could not be written. -/
theorem sent_after_fault {t' : Transaction Tag} (hr : r.router.running = true)
    (hc : r.conn = some conn) (hn : conn.refusing = false) (ht : t.command.fits = false)
    (ht' : t'.command.fits = true) :
    ∃ conn', ((r.accept t).2.accept t').2.conn = some conn' ∧
      conn'.sent = conn.sent ++ [t'.command] := by
  have hw : conn.write t.command = (.error .oversizeBody, conn.report .oversizeBody) := by
    simp [Connection.write, ht]
  obtain ⟨closing, hconn, hrouter⟩ := accept_of_fault hr hc hw
  have hr' : (r.accept t).2.router.running = true := by
    rw [hrouter, Router.step_accepted hr]
    exact hr
  have hw' : ({ conn with closing := closing } : Connection).write t'.command =
      (.ok (), [], { conn with closing := closing, sent := conn.sent ++ [t'.command] }) := by
    simp [Connection.write, ht', hn]
  rw [accept_of_written hr' hconn hw']
  exact ⟨_, rfl, rfl⟩

end Run

namespace Router

/-- **A fault does not silence a router.** For all events that a new router meets, in whatever
order:

* it hands over the commands that come in before it leaves, whatever could not be written before,
  and it asks for the connection to be closed if a write failed;
* nothing is handed over after a command whose write failed if and only if every later transaction
  comes in after the router has left;
* a transaction that comes in after the router has left is not handed over, and ends at once because
  there is no connection.

A connection whose daemon listens takes the next command of a router at work, also right after one
that could not be written. -/
theorem handed_after_fault (es : List (RouterEvent Tag)) :
    let start : Router Tag := {}
    ((start.run es).2.handed = handedOver es ∧
      (start.run es).2.closing = (handedOver es).any fun e => !e.2) ∧
    (∀ front t f back, es = front ++ .accepted t (.error f) :: back → leaves front = false →
      ((start.run es).2.handed = handedOver front ++ [(t.command, false)] ↔
        ∀ mid t' written rest, back = mid ++ .accepted t' written :: rest → leaves mid = true)) ∧
    (∀ front t written, leaves front = true →
      start.run (front ++ [.accepted t written]) =
        ((start.run front).1 ++ [⟨some .notConnected, t.tag⟩], (start.run front).2)) ∧
    ∀ (r : Run Tag) (conn : Connection) (t t' : Transaction Tag), r.router.running = true →
      r.conn = some conn → conn.refusing = false → t.command.fits = false →
      t'.command.fits = true →
        ∃ conn', ((r.accept t).2.accept t').2.conn = some conn' ∧
          conn'.sent = conn.sent ++ [t'.command] := by
  intro start
  have hall : (start.run es).2.handed = handedOver es ∧
      (start.run es).2.closing = (handedOver es).any fun e => !e.2 := handed_of_running rfl es
  refine ⟨hall, fun front t f back he hfront => ?_,
    fun front t written hfront => run_accepted_of_left rfl hfront t written,
    fun r conn t t' => Run.sent_after_fault⟩
  have hsplit : (start.run es).2.handed =
      (handedOver front ++ [(t.command, false)]) ++ handedOver back := by
    rw [hall.1, he, handedOver_append hfront, List.append_assoc]
    rfl
  rw [hsplit, List.append_right_eq_self, handedOver_eq_nil_iff]

/-- Of two publications that pass while there is a connection the first cannot be written, and the
second is written on the same connection. A third one comes in too late. -/
theorem handed_of_raced_publication :
    let publication (body : Octets) : Transaction Nat := ⟨.publish "events" body, some body.length⟩
    let front : List (RouterEvent Nat) :=
      [.accepted (publication [1]) (.error .refusedWrite), .accepted (publication [1, 2]) (.ok ()),
        .left]
    let start : Router Nat := {}
    let late := start.run (front ++ [.accepted (publication [1, 2, 3]) (.ok ())])
    late.2.handed = [((publication [1]).command, false), ((publication [1, 2]).command, true)] ∧
      late.1 = [⟨some .notConnected, some 1⟩, ⟨some .notConnected, some 2⟩,
        ⟨some .notConnected, some 3⟩] := by
  intro publication front start late
  obtain ⟨⟨hhanded, -⟩, -, hlate, -⟩ := handed_after_fault front
  have hrun : late = ((start.run front).1 ++ [⟨some .notConnected, some 3⟩], (start.run front).2) :=
    hlate front (publication [1, 2, 3]) (.ok ()) rfl
  rw [hrun]
  exact ⟨hhanded, rfl⟩

end Router

end Nsq.Publisher
