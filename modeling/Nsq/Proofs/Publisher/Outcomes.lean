import Nsq.Publisher.Router

/-!
# The outcomes of a router

A router learns of the answers of the daemon without a word about the transactions they belong to,
so all it can do is to keep count. This file says that the count never slips: whatever the order in
which transactions are handed over, frames come in and the router leaves, every transaction ends
once at the most, the transactions end in the order in which they were handed over, and the frame
that ends the one at place `i` is the one at place `i` among the frames that found a transaction
waiting (`Router.outcomes_in_order`).

What a run owes is said without the router: `accepted` lists the transactions, `answers` the frames
that find one waiting, by a count of its own, and `leaves` says whether the router leaves. The
argument is one induction on the events, from any router at work with any transactions waiting
(`run_of_running`); a router that has left refuses what still comes in (`run_of_left`).
-/

namespace Nsq.Publisher

variable {Tag : Type}

/-! ### What a run is about -/

/-- The transactions that are handed over, in order. -/
def accepted : List (RouterEvent Tag) → List (Transaction Tag)
  | [] => []
  | .accepted t _ :: es => t :: accepted es
  | .frame _ _ :: es => accepted es
  | .left :: es => accepted es

/-- The frames that find a transaction waiting, in order, when some are waiting already. Nothing
waits once the router has left. -/
def answers (waiting : Nat) : List (RouterEvent Tag) → List (FrameKind × Octets)
  | [] => []
  | .accepted _ _ :: es => answers (waiting + 1) es
  | .frame kind data :: es =>
    if waiting = 0 then answers 0 es else (kind, data) :: answers (waiting - 1) es
  | .left :: _ => []

/-- Whether the router leaves. -/
def leaves : List (RouterEvent Tag) → Bool
  | [] => false
  | .left :: _ => true
  | .accepted _ _ :: es => leaves es
  | .frame _ _ :: es => leaves es

/-- There are no more answers than transactions to answer. -/
theorem length_answers_le (waiting : Nat) (es : List (RouterEvent Tag)) :
    (answers waiting es).length ≤ waiting + (accepted es).length := by
  induction es generalizing waiting with
  | nil => exact Nat.zero_le _
  | cons e es ih =>
    cases e with
    | accepted t written =>
      have := ih (waiting + 1)
      simp only [answers, accepted, List.length_cons]
      omega
    | frame kind data =>
      simp only [answers, accepted]
      split
      · have := ih 0
        omega
      · have := ih (waiting - 1)
        rw [List.length_cons]
        omega
    | left => exact Nat.zero_le _

/-- How a frame ends a transaction. -/
def Transaction.answer (frame : FrameKind × Octets) (t : Transaction Tag) : Outcome Tag :=
  t.finish (verdict frame.1 frame.2)

/-- The outcomes that frames bring about, each of them for the next transaction. -/
def settled (frames : List (FrameKind × Octets)) (ts : List (Transaction Tag)) :
    List (Outcome Tag) :=
  List.zipWith Transaction.answer frames ts

namespace Router

variable {r : Router Tag}

/-! ### Steps of a router -/

theorem step_accepted (h : r.running = true) (t : Transaction Tag)
    (written : Except IoFault Unit) :
    r.step (.accepted t written) = ([], { r with
      pending := r.pending ++ [t]
      closing := r.closing || !written.isOk
      handed := r.handed ++ [(t.command, written.isOk)] }) := by
  simp [step, h, Queue.push]

/-- A frame that finds nothing waiting, or no router at work, changes nothing. -/
theorem step_frame_of_idle (h : r.running = true → r.pending = []) (kind : FrameKind)
    (data : Octets) : r.step (.frame kind data) = ([], r) := by
  cases hr : r.running with
  | false => simp [step, hr]
  | true =>
    obtain ⟨pending, running, closing, handed⟩ := r
    obtain rfl : pending = [] := h hr
    obtain rfl : running = true := hr
    rfl

/-- The oldest transaction owns a frame. -/
theorem step_frame {t : Transaction Tag} {q : Queue Tag} (h : r.running = true)
    (hq : r.pending = t :: q) (kind : FrameKind) (data : Octets) :
    r.step (.frame kind data) = ([t.answer (kind, data)], { r with pending := q }) := by
  simp [step, h, hq, Queue.settle, Transaction.answer]

theorem step_left (h : r.running = true) :
    r.step .left = (r.pending.abandon, { r with pending := [], running := false }) := by
  simp [step, h]

/-- A router that has left refuses what is handed over, and stays as it is. -/
theorem step_of_left (h : r.running = false) (e : RouterEvent Tag) :
    r.step e = (Queue.abandon (accepted [e]), r) := by
  cases e <;> simp [step, h, accepted, Queue.abandon]

/-! ### Runs of a router -/

theorem run_cons (r : Router Tag) (e : RouterEvent Tag) (es : List (RouterEvent Tag)) :
    r.run (e :: es) = ((r.step e).1 ++ ((r.step e).2.run es).1, ((r.step e).2.run es).2) := rfl

theorem run_append (r : Router Tag) (es es' : List (RouterEvent Tag)) :
    r.run (es ++ es') = ((r.run es).1 ++ ((r.run es).2.run es').1, ((r.run es).2.run es').2) := by
  induction es generalizing r with
  | nil => rfl
  | cons e es ih => rw [List.cons_append, run_cons, ih, run_cons, List.append_assoc]

theorem run_of_left (h : r.running = false) (es : List (RouterEvent Tag)) :
    r.run es = (Queue.abandon (accepted es), r) := by
  induction es with
  | nil => rfl
  | cons e es ih =>
    rw [run_cons, step_of_left h, ih]
    cases e <;> rfl

/-- What a router at work owes at the end of some events: the frames that find a transaction waiting
end the oldest ones, and the rest is given up if the router leaves and waits on if not. -/
structure Owed (q : Queue Tag) (es : List (RouterEvent Tag))
    (result : List (Outcome Tag) × Router Tag) : Prop where
  outcomes : result.1 = settled (answers q.length es) (q ++ accepted es) ++
    if leaves es then
      Queue.abandon ((q ++ accepted es).drop (answers q.length es).length) else []
  pending : result.2.pending =
    if leaves es then [] else (q ++ accepted es).drop (answers q.length es).length
  running : result.2.running = !leaves es

/-- **The count never slips**: from any router at work, with any transactions waiting. -/
theorem run_of_running (h : r.running = true) (es : List (RouterEvent Tag)) :
    Owed r.pending es (r.run es) := by
  induction es generalizing r with
  | nil =>
    refine ⟨?_, ?_, h⟩
    · simp [run, settled, answers, leaves]
    · simp [run, leaves, answers, accepted]
  | cons e es ih =>
    rw [run_cons]
    cases e with
    | accepted t written =>
      rw [step_accepted h]
      have hrest := ih (r := { r with
        pending := r.pending ++ [t]
        closing := r.closing || !written.isOk
        handed := r.handed ++ [(t.command, written.isOk)] }) h
      obtain ⟨ho, hp, hr⟩ := hrest
      simp only [List.length_append, List.length_singleton, List.append_assoc,
        List.singleton_append] at ho hp
      exact ⟨ho, hp, hr⟩
    | frame kind data =>
      cases hq : r.pending with
      | nil =>
        have hrest := ih h
        rw [hq] at hrest
        rw [step_frame_of_idle fun _ => hq]
        exact ⟨hrest.outcomes, hrest.pending, hrest.running⟩
      | cons t q =>
        rw [step_frame h hq]
        obtain ⟨ho, hp, hr⟩ := ih (r := { r with pending := q }) h
        refine ⟨?_, hp, hr⟩
        rw [ho]
        rfl
    | left =>
      have hgone := run_of_left (r := { r with pending := [], running := false }) rfl es
      rw [step_left h, hgone]
      refine ⟨?_, rfl, rfl⟩
      simp [answers, accepted, leaves, settled, Queue.abandon]

/-- **Each transaction ends once, in order, with its own answer.** For all events that a new router
meets, in whatever order:

* the transaction at place `i` has the outcome at place `i`, and its owner gets back what it gave:
  it failed with the text of the frame, or did not fail, as the frame at place `i` among those that
  found a transaction waiting is an error or not; without such a frame it failed because the router
  left, or it still waits;
* there is no other outcome, and the transactions that wait are those without one;
* a frame that finds nothing waiting, because each transaction before it has its frame or because
  the router has left, changes neither the outcomes nor the router. -/
theorem outcomes_in_order (es : List (RouterEvent Tag)) :
    let start : Router Tag := {}
    let done := (start.run es).1
    let ts := accepted es
    let frames := answers 0 es
    (∀ (i : Nat) (t : Transaction Tag), ts[i]? = some t → done[i]? =
      match frames[i]? with
      | some (kind, data) =>
        some ⟨if kind = .error then some (.protocol data.lossyText) else none, t.tag⟩
      | none => if leaves es then some ⟨some .notConnected, t.tag⟩ else none) ∧
    (frames.length ≤ ts.length ∧
      done.length = (if leaves es then ts.length else frames.length) ∧
      (start.run es).2.pending = if leaves es then [] else ts.drop frames.length) ∧
    ∀ front kind data back, es = front ++ .frame kind data :: back →
      leaves front = true ∨ (answers 0 front).length = (accepted front).length →
        start.run es = start.run (front ++ back) := by
  intro start done ts frames
  have howed (es : List (RouterEvent Tag)) : Owed [] es (start.run es) :=
    run_of_running (r := start) rfl es
  have hlen : frames.length ≤ ts.length := by
    rw [← Nat.zero_add ts.length]
    exact length_answers_le 0 es
  have hdone : done = settled frames ts ++
      if leaves es then Queue.abandon (ts.drop frames.length) else [] := (howed es).outcomes
  have hsettled : (settled frames ts).length = frames.length := by
    rw [settled, List.length_zipWith]
    omega
  refine ⟨fun i t ht => ?_, ⟨hlen, ?_, (howed es).pending⟩,
    fun front kind data back he hidle => ?_⟩
  · cases hf : frames[i]? with
    | some frame =>
      have hi : i < frames.length := (List.getElem?_eq_some_iff.mp hf).1
      rw [hdone, List.getElem?_append_left (by omega), settled, List.getElem?_zipWith, hf, ht]
      rfl
    | none =>
      have hi : frames.length ≤ i := List.getElem?_eq_none_iff.mp hf
      rw [hdone, List.getElem?_append_right (by omega), hsettled]
      split
      · rw [Queue.abandon, List.getElem?_map, List.getElem?_drop, Nat.add_sub_cancel' hi, ht]
        rfl
      · rfl
  · rw [hdone, List.length_append, hsettled]
    split
    · rw [Queue.abandon, List.length_map, List.length_drop]
      omega
    · rfl
  · have hfront := howed front
    have hnone : (start.run front).2.running = true → (start.run front).2.pending = [] := by
      intro hr
      rw [hfront.running, Bool.not_eq_true'] at hr
      have hall := hidle.resolve_left (by simp [hr])
      rw [hfront.pending, hr]
      exact List.drop_eq_nil_of_le (Nat.le_of_eq hall.symm)
    rw [he, run_append, run_append, run, step_frame_of_idle hnone]
    rfl

end Router

end Nsq.Publisher
