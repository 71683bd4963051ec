import Nsq.Proofs.Consumer.Steps

/-!
# What becomes of a message that is handled

A handler may call for whatever it likes on the message that it gets and on copies of it, and
returns, fails or panics in the end. The connection is told at most one final answer then: the first
that the handler gave, or else, unless the handler asked for none, the one that its end stands for
(`Handling.response`). A message that was attempted too often is given up: the handler does not see
it, and the message is finished unless the handler answers it when it is told
(`Handling.resignation`).

What passes of calls made one after another is compared with these two, which do not look at the
state of the answers at all. `Consumer.one_response` then says what a consumer does with an offer:
it keeps its books and passes just these requests to the connection.
-/

namespace Nsq

/-! ### Final answers among calls and requests -/

/-- The final answer that a call gives. -/
def Call.answer? : Call → Option Answer
  | .answer a => some a
  | _ => none

/-- The final answer that a request makes. -/
def Request.answer? : Request → Option Answer
  | .answer a => some a
  | .touch => none

/-- The first final answer among calls. -/
def firstAnswer (ks : List Call) : Option Answer := ks.findSome? Call.answer?

/-- The final answers among requests. -/
def finalAnswers (rs : List Request) : List Answer := rs.filterMap Request.answer?

theorem firstAnswer_append (ks ks' : List Call) :
    firstAnswer (ks ++ ks') = (firstAnswer ks).or (firstAnswer ks') :=
  List.findSome?_append

theorem firstAnswer_cons (k : Call) (ks : List Call) :
    firstAnswer (k :: ks) = k.answer?.or (firstAnswer ks) := by
  rw [firstAnswer, List.findSome?_cons]
  cases k.answer? <;> rfl

@[simp] theorem finalAnswers_append (rs rs' : List Request) :
    finalAnswers (rs ++ rs') = finalAnswers rs ++ finalAnswers rs' :=
  List.filterMap_append

/-- The final answer to a message that a handler gets: the first that the handler gives, or else the
one that its end stands for, unless it asked for none. -/
def Handling.response (h : Handling) : Option Answer :=
  (firstAnswer h.calls).or
    (if .disableAuto ∈ h.calls then none else some h.verdict.answer)

/-- Whether a handler panics. -/
def Verdict.isPanic : Verdict → Bool
  | .panicked _ => true
  | _ => false

/-- The calls on a message that is given up: those of the handler that is told, and one to finish it
unless the handler has panicked. -/
def Handling.parting (h : Handling) : List Call :=
  h.calls ++ if h.verdict.isPanic then [] else [.answer .finish]

/-- The final answer to a message that is given up: the first that the handler gives when it is
told, or else that the message is finished. A handler that panics leaves it at what it has said. -/
def Handling.resignation (h : Handling) : Option Answer :=
  (firstAnswer h.calls).or (if h.verdict.isPanic then none else some .finish)

namespace Answered

/-- Of calls made one after another the first final answer passes, if there was none before, and
the state says what was called for. -/
theorem calls_eq (s : Answered) (ks : List Call) :
    finalAnswers (s.calls ks).1 = (if s.responded then none else firstAnswer ks).toList ∧
      (s.calls ks).2 =
        { responded := s.responded || (firstAnswer ks).isSome
          manual := s.manual || decide (.disableAuto ∈ ks) } := by
  induction ks generalizing s with
  | nil => simp [calls, finalAnswers, firstAnswer]
  | cons k ks ih =>
    obtain ⟨hpassed, hstate⟩ := ih (s.call k).2
    simp only [calls, finalAnswers_append, hpassed, hstate, firstAnswer_cons]
    cases k <;> cases hr : s.responded <;>
      simp [call, hr, finalAnswers, Request.answer?, Call.answer?]

/-- Calls that were made before the handler ends may as well be the handler's. -/
theorem handle_append (s : Answered) (ks : List Call) (h : Handling) :
    s.handle ⟨ks ++ h.calls, h.verdict⟩ =
      ((s.calls ks).1 ++ ((s.calls ks).2.handle h).1, ((s.calls ks).2.handle h).2) := by
  simp only [handle, calls_append, List.append_assoc]

/-- Of all that happens while a handler has a message, one final answer passes at the most, and it
is the right one. -/
theorem finalAnswers_handle (h : Handling) :
    finalAnswers (({} : Answered).handle h).1 = h.response.toList := by
  obtain ⟨hpassed, hstate⟩ := calls_eq {} h.calls
  simp only [handle, finalAnswers_append, hpassed, supply, hstate, Handling.response]
  cases firstAnswer h.calls with
  | some a => by_cases hm : .disableAuto ∈ h.calls <;> simp [call, hm, finalAnswers]
  | none =>
    by_cases hm : .disableAuto ∈ h.calls <;> simp [call, hm, finalAnswers, Request.answer?]

/-- A message that is given up is finished unless it was answered before. -/
theorem finalAnswers_resign (h : Handling) :
    finalAnswers (({} : Answered).calls h.parting).1 = h.resignation.toList := by
  rw [(calls_eq _ _).1, Handling.resignation, Handling.parting, firstAnswer_append]
  cases h.verdict.isPanic <;> simp [firstAnswer, Call.answer?]

end Answered

theorem Message.isExhausted_iff (m : Message) :
    m.isExhausted = true ↔ 0 < m.maxAttempts ∧ m.maxAttempts < m.attempts := by
  simp [isExhausted]

/-- A message as a handler gets it. -/
def Offer.handed (o : Offer) : Handed := { message := o.message, link := o.link }

namespace Consumer

variable {c : Consumer} {n : Nat} {d : Handed}

/-! ### Messages that are given up -/

/-- The consumer after some calls on message `n` alone: it keeps the state that they leave, and what
passes of them goes to the connection. -/
def afterCalls (chance : Nat → Nat) (n : Nat) (d : Handed) (ks : List Call) (c : Consumer) :
    Consumer :=
  (c.putState n (d.state.calls ks).2).passAll chance d.link d.message (d.state.calls ks).1

/-- One call more. -/
theorem call_afterCalls (chance : Nat → Nat) (hn : c.handed[n]? = some d) (ks : List Call)
    (k : Call) :
    ((c.afterCalls chance n d ks).call chance n k).2 = c.afterCalls chance n d (ks ++ [k]) := by
  have hn' : (c.afterCalls chance n d ks).handed[n]? =
      some { d with state := (d.state.calls ks).2 } := by
    rw [afterCalls, passAll_handed]
    simp [putState, hn]
  simp only [call, hn']
  rw [afterCalls, ← passAll_putState, putState_putState, ← passAll_append, afterCalls,
    Answered.calls_append]
  simp [Answered.calls]

theorem staff_afterCalls (chance : Nat → Nat) (n : Nat) (d : Handed) (ks : List Call)
    (c : Consumer) : (c.afterCalls chance n d ks).staff = c.staff :=
  (passed_passAll chance d.link d.message (d.state.calls ks).1 _).staff

/-- A handler is lost if it has panicked. -/
def lose (panic : Bool) (c : Consumer) : Consumer :=
  if panic then { c with lost := c.lost + 1 } else c

/-- A message that is given up is counted, and called for once more. Only a handler that panics when
it is told is lost. -/
theorem giveUp_eq (chance : Nat → Nat) (hn : c.handed[n]? = some d) :
    c.giveUp chance n =
      (({ c with failed := c.failed + 1 } : Consumer).afterCalls chance n d
        c.givingUp.parting).lose c.givingUp.verdict.isPanic := by
  obtain ⟨c₀, hc₀⟩ : ∃ c₀ : Consumer, c₀ = { c with failed := c.failed + 1 } := ⟨_, rfl⟩
  have hn₀ : c₀.handed[n]? = some d := by rw [hc₀]; exact hn
  have htold : (c₀.afterCalls chance n d c.givingUp.calls).givingUp = c.givingUp := by
    have hstaff := staff_afterCalls chance n d c.givingUp.calls c₀
    simp only [staff, Prod.mk.injEq] at hstaff
    rw [hstaff.2.2.2.2, hc₀]
  -- the end of the handler decides whether the message is finished on its behalf
  have hend : ∀ x : Consumer,
      (match x.givingUp.verdict with
        | .panicked _ => { x with lost := x.lost + 1 }
        | _ => (x.call chance n (.answer .finish)).2) =
      if x.givingUp.verdict.isPanic then x.lose true
      else (x.call chance n (.answer .finish)).2 := by
    intro x
    cases x.givingUp.verdict <;> rfl
  unfold giveUp
  rw [hn]
  dsimp only
  rw [← hc₀]
  refine (hend (c₀.afterCalls chance n d c.givingUp.calls)).trans ?_
  rw [htold, Handling.parting]
  cases c.givingUp.verdict.isPanic with
  | true => rw [if_pos rfl, if_pos rfl, List.append_nil]
  | false => exact call_afterCalls chance hn₀ c.givingUp.calls (.answer .finish)

/-! ### Messages that are handled -/

theorem take_of_exhausted (chance : Nat → Nat) {o : Offer} (h : o.message.isExhausted = true) :
    c.take chance o =
      (({ c with handed := c.handed ++ [o.handed], failed := c.failed + 1 } : Consumer).afterCalls
        chance c.handed.length o.handed c.givingUp.parting).lose c.givingUp.verdict.isPanic := by
  have hn : ({ c with handed := c.handed ++ [o.handed] } : Consumer).handed[c.handed.length]? =
      some o.handed := List.getElem?_concat_length
  unfold take
  rw [if_pos h]
  exact giveUp_eq chance hn

theorem take_of_not_exhausted (chance : Nat → Nat) {o : Offer}
    (h : o.message.isExhausted = false) :
    c.take chance o =
      { c with
        handed := c.handed ++ [o.handed]
        busy := c.busy ++ [c.handed.length]
        handled := c.handled + 1 } := by
  unfold take
  rw [if_neg (by simp [h])]
  rfl

theorem finishHandling_eq (chance : Nat → Nat) (hn : c.handed[n]? = some d) (h : Handling) :
    c.finishHandling chance n h =
      (({ c with busy := c.busy.filter (· != n) } : Consumer).putState n
        (d.state.handle h).2).passAll chance d.link d.message (d.state.handle h).1 := by
  unfold finishHandling
  rw [hn]

/-- **One response.** What a consumer does with a message `o.message` that is offered to a handler:

* a message that was attempted too often does not reach the handler, which is told once that the
  message is given up. What the connection is then told of the message is one final answer at the
  most: the first that the handler gives, or else, unless the handler panics when it is told, that
  the message is finished.
* Any other message goes to the handler, which is busy with it. Whenever it ends, the calls `ks` and
  `h.calls` having been made on the message and its copies until then, the connection has been told
  one final answer at the most: the first that was given by these calls, or else the one that the
  end of the handler stands for, or else, if that was not wanted, none.

Nothing else happens but what the consumer notes about its handlers, and what follows from telling
the connection. -/
theorem one_response (chance : Nat → Nat) (o : Offer) (c : Consumer) :
    let n := c.handed.length
    let taken := c.take chance o
    (0 < o.message.maxAttempts ∧ o.message.maxAttempts < o.message.attempts →
      taken.handled = c.handled ∧ taken.busy = c.busy ∧ taken.failed = c.failed + 1 ∧
      ∃ s rs, taken =
          ((({ c with handed := c.handed ++ [o.handed], failed := c.failed + 1 } :
            Consumer).putState n s).passAll chance o.link o.message rs).lose
              c.givingUp.verdict.isPanic ∧
        finalAnswers rs = c.givingUp.resignation.toList) ∧
    (¬(0 < o.message.maxAttempts ∧ o.message.maxAttempts < o.message.attempts) →
      taken = { c with
        handed := c.handed ++ [o.handed]
        busy := c.busy ++ [n]
        handled := c.handled + 1 } ∧
      ∀ (c' : Consumer) (ks : List Call) (h : Handling),
        c'.handed[n]? = some { o.handed with state := (({} : Answered).calls ks).2 } →
        ∃ s rs, c'.finishHandling chance n h =
            (({ c' with busy := c'.busy.filter (· != n) } : Consumer).putState n s).passAll chance
              o.link o.message rs ∧
          finalAnswers ((({} : Answered).calls ks).1 ++ rs) =
            (Handling.response ⟨ks ++ h.calls, h.verdict⟩).toList) := by
  intro n taken
  rw [← Message.isExhausted_iff]
  refine ⟨fun h => ?_, fun h => ?_⟩
  · have heq : taken = _ := take_of_exhausted chance h
    have hstaff := staff_afterCalls chance n o.handed c.givingUp.parting
      { c with handed := c.handed ++ [o.handed], failed := c.failed + 1 }
    have hlose : ∀ (b : Bool) (x : Consumer), (x.lose b).handled = x.handled ∧
        (x.lose b).busy = x.busy ∧ (x.lose b).failed = x.failed := by
      intro b x
      cases b <;> exact ⟨rfl, rfl, rfl⟩
    simp only [staff, Prod.mk.injEq] at hstaff
    obtain ⟨hbusy, hhandled, hfailed, -, -⟩ := hstaff
    obtain ⟨hhandled', hbusy', hfailed'⟩ := hlose c.givingUp.verdict.isPanic _
    rw [heq]
    exact ⟨hhandled'.trans hhandled, hbusy'.trans hbusy, hfailed'.trans hfailed, _, _, rfl,
      Answered.finalAnswers_resign c.givingUp⟩
  · rw [Bool.not_eq_true] at h
    refine ⟨take_of_not_exhausted chance h, fun c' ks h hn => ?_⟩
    refine ⟨_, _, finishHandling_eq chance hn h, ?_⟩
    rw [← Answered.finalAnswers_handle, Answered.handle_append]

end Consumer

end Nsq
