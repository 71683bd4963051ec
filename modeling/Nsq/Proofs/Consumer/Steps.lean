import Nsq.Proofs.Consumer.Moves
import Mathlib.Tactic.Set
import Mathlib.Tactic.Convert

/-!
# Steps are moves

`step_moves`: an admitted act and everything that follows from it is a sequence of moves. The proof
follows the way a step is made: what handlers call for, what links bring, what is concluded from
where links and handlers stand, and how daemons are found and left.
-/

namespace Nsq

theorem Answered.calls_append (s : Answered) (ks ks' : List Call) :
    s.calls (ks ++ ks') =
      ((s.calls ks).1 ++ ((s.calls ks).2.calls ks').1, ((s.calls ks).2.calls ks').2) := by
  induction ks generalizing s with
  | nil => rfl
  | cons k ks ih => simp [calls, ih]

namespace Consumer

variable {ok : Surroundings → Act → Consumer → Prop}

theorem Noted.refl (c : Consumer) : Noted c c :=
  ⟨rfl, rfl, rfl, rfl, rfl, rfl, .inl rfl, rfl, rfl, rfl, rfl, rfl, rfl, rfl, rfl, rfl, rfl,
    .inl rfl⟩

theorem moves_of_noted {c c' : Consumer} (h : Noted c c') : Moves ok c c' := .single (.note h)

theorem moves_adjust {i : Nat} {f : Link → Link} {c : Consumer}
    (h : ∀ l, c.links[i]? = some l → l.Quiet (f l)) : Moves ok c (c.modifyLink i f) :=
  .single (.adjust h)

/-- A walk is a sequence of moves if every turn of it is one. -/
theorem moves_foldl {α : Type} {f : Consumer → α → Consumer} (hf : ∀ c a, Moves ok c (f c a))
    (as : List α) (c : Consumer) : Moves ok c (as.foldl f c) :=
  List.foldlRecOn as f .refl fun c' h a _ => h.trans (hf c' a)

/-! ### What handlers call for -/

/-- The state of a message may change without a move as long as its final answer stays. -/
theorem noted_putState {n : Nat} {h : Handed} {s : Answered} {c : Consumer}
    (hn : c.handed[n]? = some h) (hs : s.responded = h.state.responded) :
    Noted c (c.putState n s) := by
  refine { Noted.refl c with standings := ?_ }
  refine List.ext_getElem? fun j => ?_
  simp only [putState, List.getElem?_map, List.getElem?_modify]
  split_ifs with hj
  · rw [← hj, hn]
    simp [Handed.standing, hs]
  · simp

theorem moves_touch (chance : Nat → Nat) (i : Nat) (m : Message) (c : Consumer) :
    Moves ok c (c.pass chance i m .touch) := by
  have h : c.pass chance i m .touch = c.modifyConn i fun conn => (conn.touch m).2 :=
    modifyConn_eq i _ c
  rw [h]
  exact moves_adjust fun l _ =>
    ⟨Connection.steady_touch m l.conn, Connection.calm_touch m l.conn, rfl,
      Connection.told_touch m l.conn⟩

/-- What passes of a call on a message, after the state of the message was replaced. -/
theorem moves_call {chance : Nat → Nat} {n : Nat} {h : Handed} {c : Consumer}
    (hn : c.handed[n]? = some h) (k : Call) :
    Moves ok c ((c.putState n (h.state.call k).2).passAll chance h.link h.message
      (h.state.call k).1.toList) := by
  cases k with
  | answer a =>
    cases hr : h.state.responded with
    | true =>
      simp only [Answered.call, hr, if_true]
      exact moves_of_noted (noted_putState hn rfl)
    | false =>
      simp only [Answered.call, hr, Bool.false_eq_true, if_false]
      exact .single (.answer a hn hr)
  | touch =>
    have hp : Moves ok c (c.putState n h.state) := moves_of_noted (noted_putState hn rfl)
    cases hr : h.state.responded with
    | true =>
      simp only [Answered.call, hr, if_true]
      exact hp
    | false =>
      simp only [Answered.call, hr, Bool.false_eq_true, if_false]
      exact hp.trans (moves_touch chance h.link h.message _)
  | disableAuto => exact moves_of_noted (noted_putState hn rfl)

/-- Answers leave the messages with those who have them. -/
theorem passAll_eq_restock (chance : Nat → Nat) (i : Nat) (m : Message) (rs : List Request)
    (c : Consumer) :
    c.passAll chance i m rs = (c.passAll chance i m rs).restock c.offers c.handed :=
  passAll_restock c.offers c.handed chance i m rs c

theorem passAll_handed (chance : Nat → Nat) (i : Nat) (m : Message) (rs : List Request)
    (c : Consumer) : (c.passAll chance i m rs).handed = c.handed := by
  rw [passAll_eq_restock]
  rfl

theorem passAll_offers (chance : Nat → Nat) (i : Nat) (m : Message) (rs : List Request)
    (c : Consumer) : (c.passAll chance i m rs).offers = c.offers := by
  rw [passAll_eq_restock]
  rfl

/-- Answers pass whatever state is kept of the messages. -/
theorem passAll_putState (chance : Nat → Nat) (i : Nat) (m : Message) (rs : List Request) (n : Nat)
    (s : Answered) (c : Consumer) :
    (c.putState n s).passAll chance i m rs = (c.passAll chance i m rs).putState n s := by
  have h := passAll_restock c.offers (c.handed.modify n fun h => { h with state := s }) chance i m
    rs c
  refine h.trans ?_
  simp only [putState, passAll_handed]
  simp only [restock, ← passAll_offers chance i m rs c]

theorem passAll_append (chance : Nat → Nat) (i : Nat) (m : Message) (rs rs' : List Request)
    (c : Consumer) :
    c.passAll chance i m (rs ++ rs') = (c.passAll chance i m rs).passAll chance i m rs' :=
  List.foldl_append

theorem putState_putState (n : Nat) (s s' : Answered) (c : Consumer) :
    (c.putState n s).putState n s' = c.putState n s' := by
  simp only [putState, List.modify_modify_eq]
  rfl

/-- What passes of several calls on a message, after the state of the message was replaced. -/
theorem moves_calls {chance : Nat → Nat} {n : Nat} (ks : List Call) {h : Handed} {c : Consumer}
    (hn : c.handed[n]? = some h) :
    Moves ok c ((c.putState n (h.state.calls ks).2).passAll chance h.link h.message
      (h.state.calls ks).1) := by
  induction ks generalizing h c with
  | nil => exact moves_of_noted (noted_putState hn rfl)
  | cons k ks ih =>
    -- the first call is made, and the others find the message in the state that it left
    set c' := (c.putState n (h.state.call k).2).passAll chance h.link h.message
      (h.state.call k).1.toList with hc'
    have hk : Moves ok c c' := moves_call hn k
    have hn' : c'.handed[n]? = some { h with state := (h.state.call k).2 } := by
      rw [hc', passAll_handed]
      simp [putState, hn]
    refine hk.trans ?_
    convert ih hn' using 1
    simp only [Answered.calls]
    rw [passAll_append, hc', ← passAll_putState, putState_putState]

theorem moves_callOn (chance : Nat → Nat) (n : Nat) (k : Call) (c : Consumer) :
    Moves ok c (c.call chance n k).2 := by
  unfold call
  cases hn : c.handed[n]? with
  | none => exact .refl
  | some h => exact moves_call hn k

/-- A handler that ends makes its calls, and perhaps one more is made for it. -/
theorem handle_eq_calls (s : Answered) (h : Handling) : ∃ ks, s.handle h = s.calls ks := by
  by_cases hm : (s.calls h.calls).2.manual
  · exact ⟨h.calls, by simp [Answered.handle, Answered.supply, hm]⟩
  · refine ⟨h.calls ++ [.answer h.verdict.answer], ?_⟩
    rw [Answered.calls_append]
    simp [Answered.handle, Answered.supply, Answered.calls, hm]

theorem moves_finishHandling (chance : Nat → Nat) (n : Nat) (h : Handling) (c : Consumer) :
    Moves ok c (c.finishHandling chance n h) := by
  unfold finishHandling
  cases hn : c.handed[n]? with
  | none => exact .refl
  | some d =>
    obtain ⟨ks, hks⟩ := handle_eq_calls d.state h
    simp only [hks]
    have hb : Noted c { c with busy := c.busy.filter (· != n) } := { Noted.refl c with }
    have hn' : ({ c with busy := c.busy.filter (· != n) } : Consumer).handed[n]? = some d := hn
    exact (moves_of_noted hb).trans (moves_calls ks hn')

theorem moves_giveUp (chance : Nat → Nat) (n : Nat) (c : Consumer) :
    Moves ok c (c.giveUp chance n) := by
  unfold giveUp
  cases hn : c.handed[n]? with
  | none => exact .refl
  | some h =>
    have hf : Noted c { c with failed := c.failed + 1 } := { Noted.refl c with }
    have hn' : ({ c with failed := c.failed + 1 } : Consumer).handed[n]? = some h := hn
    have hm : Moves ok c ((({ c with failed := c.failed + 1 } : Consumer).putState n
        (h.state.calls c.givingUp.calls).2).passAll chance h.link h.message
        (h.state.calls c.givingUp.calls).1) :=
      (moves_of_noted hf).trans (moves_calls c.givingUp.calls hn')
    dsimp only
    split
    · exact hm.trans (moves_of_noted { Noted.refl _ with })
    · exact hm.trans (moves_callOn chance n (.answer .finish) _)

/-! ### What links bring -/

theorem moves_take {chance : Nat → Nat} {o : Offer} {rest : List Offer} {c : Consumer}
    (h : c.offers = o :: rest) :
    Moves ok c (({ c with offers := rest } : Consumer).handOver chance o) := by
  -- the offer is assigned first: neither the grant nor the link looks at the messages
  set d := ({ c with offers := rest } : Consumer).modifyLink o.link Link.unstall with hd
  set e := (c.assign o rest).refill o.link with he
  have hl := (dealing_refill o.link d).lending
  have hde : e = { d.refill o.link with
      handed := (d.refill o.link).handed ++ [{ message := o.message, link := o.link }] } := by
    have hr := refill_restock rest (c.handed ++ [{ message := o.message, link := o.link }]) o.link d
    have hs : c.assign o rest =
        d.restock rest (c.handed ++ [{ message := o.message, link := o.link }]) := rfl
    have hh : (d.refill o.link).handed = c.handed := hl.handed
    have ho : (d.refill o.link).offers = rest := hl.offers
    rw [he, hs, hr, hh]
    simp only [restock, ← ho]
  have hm : Moves ok c e := (Relation.ReflTransGen.single (.take h)).tail (.refill o.link)
  rw [hde] at hm
  have ht : Moves ok c ((d.refill o.link).take chance o) := by
    unfold take
    dsimp only
    split_ifs
    · exact hm.trans (moves_giveUp chance _ _)
    · exact hm.trans (moves_of_noted { Noted.refl _ with })
  refine ht.trans ?_
  exact moves_adjust fun l _ =>
    ⟨Connection.steady_lookUp l.conn, Connection.calm_lookUp l.conn, rfl,
      Connection.told_lookUp l.conn⟩

/-- A notice makes the owner ask for the end of the link, or does nothing. -/
theorem moves_note {chance : Nat → Nat} {e : Connection.Event} (he : e.isNotice = true) (i : Nat)
    (c : Consumer) : Moves ok c (c.note chance i e) := by
  cases e with
  | response data =>
    unfold note
    dsimp only
    split_ifs
    · exact moves_adjust fun l _ =>
        ⟨Connection.steady_close l.conn, Connection.calm_close l.conn, rfl, rfl⟩
    · exact .refl
  | message m rdy inFlight => simp [Connection.Event.isNotice] at he
  | _ => exact .refl

theorem moves_lookUpUnlessStalled (i : Nat) (c : Consumer) :
    Moves ok c (c.modifyLink i fun l =>
      if l.conn.stalled then l else { l with conn := l.conn.lookUp }) := by
  refine moves_adjust fun l _ => ?_
  split_ifs
  · exact .refl l
  · exact ⟨Connection.steady_lookUp l.conn, Connection.calm_lookUp l.conn, rfl,
      Connection.told_lookUp l.conn⟩

theorem moves_offer {chance : Nat → Nat} {i : Nat} {conn : Connection} {m : Message}
    {rest : Octets} {c : Consumer} (hi : c.conn? i = some conn) (hr : conn.reading = true)
    (hs : conn.stalled = false) :
    Moves ok c ((c.putConn i ({ conn with unread := rest } : Connection).arrive).offer chance i
      m) := by
  have ha : Moves ok c (c.takeIn i m ({ conn with unread := rest } : Connection).arrive) :=
    .single (.arrive m rest hi hr hs)
  set conn' := ({ conn with unread := rest } : Connection).arrive with hconn
  have hs' : ({ conn' with stalled := false } : Connection) = conn' := by
    rw [← hs, hconn]
    rfl
  unfold offer
  dsimp only
  cases hv : c.serving with
  | true =>
    have hv' : (c.putConn i conn').serving = true := hv
    convert ha using 1
    simp only [modifyLink, putConn, hv, if_true, takeIn, List.modify_modify_eq]
    rfl
  | false =>
    have hv' : (c.putConn i conn').serving = false := hv
    -- nobody takes the offer: the link is refilled and the message sent back
    have hb : (((c.takeIn i m conn').refill i)).serving = false :=
      (dealing_refill i _).lending.serving.trans hv
    have hm : Moves ok c
        (((c.takeIn i m conn').refill i).passAnswer chance i m (.requeue none false)) :=
      (ha.tail (.refill i)).tail (.bounce i m (.requeue none false) hb)
    convert hm using 1
    simp only [modifyLink, putConn, hv, Bool.false_eq_true, if_false, takeIn, List.modify_modify_eq]
    unfold Link.hearing
    rw [hs']
    rfl

theorem moves_readLink {chance : Nat → Nat} {i : Nat} {c c' : Consumer}
    (h : c.readLink chance i = some c') : Moves ok c c' := by
  unfold readLink at h
  cases hi : c.conn? i with
  | none => simp [hi] at h
  | some conn =>
    rw [hi] at h
    obtain ⟨⟨events, conn'⟩, hread, rfl⟩ := Option.map_eq_some_iff.mp h
    dsimp only
    obtain ⟨hr, hs, hu | ⟨m, rest, rfl, rfl⟩⟩ := Connection.read_cases hread
    · -- without a message the link changes quietly, and notices follow
      have hp : Moves ok c (c.putConn i conn') := by
        refine moves_adjust fun l hl => ?_
        obtain rfl : l.conn = conn := conn_eq_of_links hl hi
        exact ⟨hu.steady, hu.calm, rfl, hu.told⟩
      have hn : Moves ok (c.putConn i conn')
          (events.foldl (fun c e => c.note chance i e) (c.putConn i conn')) :=
        List.foldlRecOn events _ .refl fun c₁ h₁ e he =>
          h₁.trans (moves_note (hu.notices e he) i c₁)
      calc
        Moves ok c (c.putConn i conn') := hp
        Moves ok _ _ := hn
        Moves ok _ _ := moves_lookUpUnlessStalled i _
    · exact (moves_offer hi hr hs).trans (moves_lookUpUnlessStalled i _)

theorem moves_work? {chance : Nat → Nat} {c c' : Consumer} (h : c.work? chance = some c') :
    Moves ok c c' := by
  have hread : ∀ is : List Nat, (is.findSome? fun i => c.readLink chance i) = some c' →
      Moves ok c c' := by
    intro is his
    obtain ⟨i, -, hi⟩ := List.exists_of_findSome?_eq_some his
    exact moves_readLink hi
  unfold work? at h
  split at h
  · rename_i o rest ho
    split_ifs at h
    · obtain rfl := Option.some.inj h
      exact moves_take ho
    · exact hread _ h
  · exact hread _ h

theorem moves_work (chance : Nat → Nat) (c : Consumer) : Moves ok c (c.work chance) := by
  unfold work
  generalize c.load = fuel
  induction fuel generalizing c with
  | zero => exact .refl
  | succ fuel ih =>
    unfold workFor
    split
    · exact .refl
    · rename_i c' h
      exact (moves_work? h).trans (ih c')

/-! ### What is concluded -/

theorem moves_dismiss (c : Consumer) : Moves ok c c.dismiss := by
  refine moves_of_noted ?_
  unfold dismiss
  dsimp only
  split_ifs
  · exact .refl c
  · exact { Noted.refl c with }
  · exact { Noted.refl c with }

theorem moves_settle (c : Consumer) : Moves ok c c.settle :=
  (moves_foldl (fun _ i => .single (.settle i)) _ c).trans (moves_dismiss _)

/-- No handler is served any more once a stop was asked for. -/
theorem moves_stopServing {c : Consumer} (h : c.stopping = true) : Moves ok c c.stopServing := by
  refine moves_of_noted ?_
  unfold stopServing
  dsimp only
  split_ifs
  · exact { Noted.refl c with serving := .inr ⟨rfl, h⟩ }
  · exact { Noted.refl c with serving := .inr ⟨rfl, h⟩ }
  · exact .refl c

theorem moves_stop (c : Consumer) : Moves ok c c.stop := by
  have hs : Moves ok c { c with stopping := true } := .single .stop
  unfold stop
  split_ifs
  · exact .refl
  · dsimp only
    split_ifs
    · exact hs.trans (moves_stopServing rfl)
    · refine hs.trans (moves_foldl (fun c i => ?_) _ _)
      have ht : c.tell .startClose i = c.modifyConn i fun conn => (conn.write .startClose).2.2 :=
        modifyConn_eq i _ c
      rw [ht]
      exact moves_adjust fun l _ =>
        ⟨Connection.steady_write _ l.conn, Connection.calm_write _ l.conn, rfl,
          Connection.told_of_sent (fun n => by simp) (Connection.write_sent _ l.conn)⟩

/-! ### Finding and leaving daemons -/

/-- Nothing stands in the way of dialing an address. -/
structure Dials (addr : String) (c : Consumer) : Prop where
  stopping : c.stopping = false
  handlers : c.handlers ≠ 0
  pending : addr ∉ c.pending
  serving : c.serving? addr = none

/-- The consumer with an address taken down as one to come back to. -/
def seeking (addr : String) (c : Consumer) : Consumer :=
  { c with
    connected := true
    daemons := if c.daemons.contains addr then c.daemons else c.daemons ++ [addr] }

/-- An address is taken down unless something stands in the way of dialing it. -/
theorem takeDown_cases (addr : String) (c : Consumer) :
    (¬c.Dials addr ∧ ∃ failure b, c.takeDown addr = (.error failure, { c with connected := b })) ∨
      (c.Dials addr ∧
        c.takeDown addr = (.ok (), { c.seeking addr with pending := c.pending ++ [addr] })) := by
  by_cases hs : c.stopping = true
  · exact .inl ⟨fun h => by simp [h.stopping] at hs, .stopped, c.connected, if_pos hs⟩
  by_cases hh : c.handlers = 0
  · exact .inl ⟨fun h => h.handlers hh, .noHandlers, c.connected,
      (if_neg hs).trans (if_pos hh)⟩
  have hserv : ({ c with connected := true } : Consumer).serving? addr = c.serving? addr := rfl
  cases hp : c.pending.contains addr || (c.serving? addr).isSome with
  | true =>
    refine .inl ⟨fun h => ?_, .alreadyConnected, true, ?_⟩
    · rw [h.serving, Option.isSome_none, Bool.or_false, List.contains_iff_mem] at hp
      exact h.pending hp
    · unfold takeDown
      dsimp only
      rw [if_neg hs, if_neg hh, hserv, if_pos hp]
  | false =>
    refine .inr ⟨?_, ?_⟩
    · rw [Bool.or_eq_false_iff, Option.isSome_eq_false_iff, Option.isNone_iff_eq_none] at hp
      exact ⟨by simpa using hs, hh, by simpa using hp.1, hp.2⟩
    · unfold takeDown
      dsimp only
      rw [if_neg hs, if_neg hh, hserv, if_neg (ne_true_of_eq_false hp)]
      rfl

/-- An address that was only taken down is not being connected to any more. -/
theorem unpend_append {addr : String} {c : Consumer} (h : addr ∉ c.pending) :
    ({ c with pending := c.pending ++ [addr] } : Consumer).unpend addr = c := by
  have hkeep : c.pending.filter (· != addr) = c.pending := by
    refine List.filter_eq_self.mpr fun a ha => ?_
    rw [bne_iff_ne]
    rintro rfl
    exact h ha
  simp [unpend, List.filter_append, hkeep]

theorem fresh_linkTo (addr : String) (d : Dialed) (c : Consumer) :
    (c.linkTo addr d).Fresh c.policy :=
  ⟨⟨rfl, rfl, rfl, rfl, rfl, rfl, rfl, rfl, rfl⟩, rfl⟩

theorem conn?_openLink (l : Link) (c : Consumer) :
    (c.openLink l).2.conn? c.links.length = some l.conn := by
  simp [openLink, conn?]

/-- Replacing the connection of a link that was just opened is opening another one. -/
theorem putConn_openLink (l : Link) (conn : Connection) (c : Consumer) :
    (c.openLink l).2.putConn c.links.length conn = (c.openLink { l with conn := conn }).2 := by
  simp only [putConn, modifyLink, openLink]
  congr 1
  rw [List.modify_eq_take_drop]
  simp

/-- Subscribing writes on the link, and asks for its end if that fails. -/
theorem subscribe_cases {i : Nat} {conn : Connection} {c : Consumer} (h : c.conn? i = some conn) :
    (∃ f, c.subscribe i = (.error (.io f), c.putConn i conn.close)) ∨
      ∃ sent, c.subscribe i = (.ok (), c.putConn i { conn with sent := sent }) ∧
        ({ conn with sent := sent } : Connection).told = conn.told := by
  unfold subscribe
  rw [h]
  set cmd : Command := .subscribe c.subscription.topic c.subscription.channel with hcmd
  rcases Connection.write_cases cmd conn with ⟨f, hw⟩ | hw
  · refine .inl ⟨f, ?_⟩
    simp only [hw, Connection.report_eq]
    rfl
  · refine .inr ⟨conn.sent ++ [cmd], ?_, ?_⟩
    · simp only [hw]
    · exact Connection.told_of_sent (fun n => by simp [hcmd]) (.inr rfl)

/-- The links after a new one was opened are the old ones and the new one. -/
theorem conn?_of_openLink {l : Link} {c : Consumer} {i : Nat} {conn : Connection}
    (h : (c.openLink l).2.conn? i = some conn) : c.conn? i = some conn ∨ conn = l.conn := by
  obtain ⟨l', hl, rfl⟩ := conn?_eq_some_iff.mp h
  obtain hl | ⟨-, rfl⟩ := getElem?_openLink_cases hl
  · exact .inl (conn?_of_links hl)
  · exact .inr rfl

/-- The consumer when a subscribed link enters the table: the others are asked for a part of what
they have. -/
def joined (l : Link) (c : Consumer) : Consumer :=
  let c := { c.welcome l with share := 0 }
  c.refillAll c.walk

/-- What may become of connecting: the address is not dialed, no session is opened, the channel
cannot be subscribed, or the link enters the table. Before that nothing happens but that the address
is taken down, and that the end of a link without subscription is asked for. -/
theorem connect_cases (env : Surroundings) (addr : String) (c : Consumer) :
    (¬c.Dials addr ∧
        ∃ failure b, c.connect env addr = (.error failure, { c with connected := b })) ∨
      (c.Dials addr ∧
        ((∃ failure, c.connect env addr = (.error failure, c.seeking addr)) ∨
          (∃ (l : Link) (failure : Failure), l.Fresh c.policy ∧ l.conn.address = addr ∧
            l.conn.told = [] ∧ c.connect env addr =
              (.error failure, ((c.seeking addr).openLink { l with conn := l.conn.close }).2)) ∨
          ∃ l : Link, l.Fresh c.policy ∧ l.conn.address = addr ∧ l.conn.told = [] ∧
            c.connect env addr = (.ok (), (c.seeking addr).joined l))) := by
  unfold connect
  rcases takeDown_cases addr c with ⟨hd, failure, b, h⟩ | ⟨hd, h⟩ <;> rw [h]
  · exact .inl ⟨hd, failure, b, rfl⟩
  refine .inr ⟨hd, ?_⟩
  -- what happens while the address is pending does not depend on that
  have hunpend : ∀ l : Link,
      (Consumer.openLink l { c.seeking addr with pending := c.pending ++ [addr] }).2.unpend addr =
        ((c.seeking addr).openLink l).2 := by
    intro l
    exact unpend_append (c := ((c.seeking addr).openLink l).2) hd.pending
  dsimp only
  cases env.dial addr with
  | error failure =>
    exact .inl ⟨failure, congrArg _ (unpend_append (c := c.seeking addr) hd.pending)⟩
  | ok dialed =>
    set c₁ : Consumer := { c.seeking addr with pending := c.pending ++ [addr] } with hc₁
    set l := c₁.linkTo addr dialed with hl
    have hf : l.Fresh c.policy := fresh_linkTo addr dialed c₁
    have hn : (c₁.openLink l).1 = c₁.links.length := rfl
    dsimp only
    rw [hn]
    rcases subscribe_cases (conn?_openLink l c₁) with ⟨f, hsub⟩ | ⟨sent, hsub, htold⟩ <;>
      rw [hsub, putConn_openLink] <;> dsimp only
    · exact .inr (.inl ⟨l, .io f, hf, rfl, rfl, congrArg _ (hunpend _)⟩)
    · have hf' : Link.Fresh c.policy { l with conn := { l.conn with sent := sent } } :=
        ⟨{ hf.toOpened with }, hf.closing⟩
      refine .inr (.inr ⟨_, hf', rfl, htold, congrArg _ ?_⟩)
      unfold goLive joined
      rw [hunpend]
      rfl

theorem noted_seeking (addr : String) (c : Consumer) : Noted c (c.seeking addr) :=
  { Noted.refl c with }

/-- A subscribed link enters the table. -/
theorem moves_joined {l : Link} {c : Consumer} (hf : l.Fresh c.policy)
    (hs : c.serving? l.conn.address = none) (ht : l.conn.told = []) :
    Moves ok c (c.joined l) := by
  have hj : Moves ok c (c.welcome l) := .single (.join hf hs ht)
  have hn : Moves ok c { c.welcome l with share := 0 } :=
    hj.trans (moves_of_noted { Noted.refl _ with share := .inr rfl })
  exact hn.trans (moves_foldl (fun _ i => .single (.refill i)) _ _)

theorem moves_connect (env : Surroundings) (addr : String) (c : Consumer) :
    Moves ok c (c.connect env addr).2 := by
  have ht : Moves ok c (c.seeking addr) := moves_of_noted (noted_seeking addr c)
  rcases connect_cases env addr c with ⟨-, failure, b, h⟩ | ⟨hd, ⟨failure, h⟩ |
    ⟨l, failure, hf, -, htold, h⟩ | ⟨l, hf, rfl, htold, h⟩⟩ <;> rw [h]
  · exact moves_of_noted { Noted.refl c with }
  · exact ht
  · -- the link that could not be subscribed is there, but not in the table
    exact ht.tail (.reject { hf.toOpened with } rfl htold)
  · exact ht.trans (moves_joined hf hd.serving htold)

theorem moves_connectAll (env : Surroundings) (addrs : List String) (c : Consumer) :
    Moves ok c (c.connectAll env addrs).2 := by
  induction addrs generalizing c with
  | nil => exact .refl
  | cons addr addrs ih =>
    have hc : Moves ok c (c.connect env addr).2 := moves_connect env addr c
    unfold connectAll
    split <;> rename_i heq <;> rw [heq] at hc
    · exact hc.trans (ih _)
    · exact hc

theorem moves_disconnect (addr : String) (c : Consumer) : Moves ok c (c.disconnect addr).2 := by
  have hn : Moves ok c { c with daemons := c.daemons.erase addr } :=
    moves_of_noted { Noted.refl c with }
  unfold disconnect
  split_ifs
  · dsimp only
    split
    · exact hn.trans (moves_adjust fun l _ =>
        ⟨Connection.steady_close l.conn, Connection.calm_close l.conn, rfl, rfl⟩)
    · exact hn
  · exact .refl

theorem moves_reconnect (env : Surroundings) (addr : String) (c : Consumer) :
    Moves ok c (c.reconnect env addr) := by
  have hn : Moves ok c { c with reconnects := c.reconnects.erase addr } :=
    moves_of_noted { Noted.refl c with }
  have hc : Moves ok _ (Consumer.connect env addr
      { c with reconnects := c.reconnects.erase addr }).2 := moves_connect env addr _
  unfold reconnect
  split_ifs
  · exact hn
  · dsimp only
    split <;> rename_i heq <;> rw [heq] at hc
    · exact hn.trans hc
    · exact hn.trans hc
    · rename_i d _
      calc
        Moves ok c { c with reconnects := c.reconnects.erase addr } := hn
        Moves ok _ d := hc
        Moves ok d { d with reconnects := d.reconnects ++ [addr] } :=
          moves_of_noted { Noted.refl d with }
  · exact .refl

theorem moves_connectFound (env : Surroundings) (a : Lookup.Answer) (c : Consumer) :
    Moves ok c (c.connectFound env a) :=
  moves_foldl (fun c addr => moves_connect env addr c) _ c

theorem noted_nextLookup (c : Consumer) : Noted c c.nextLookup.2 := by
  unfold nextLookup
  split
  · exact .refl c
  · exact { Noted.refl c with }

theorem moves_askLookups (env : Surroundings) (n : Nat) (c : Consumer) :
    Moves ok c (c.askLookups env n) := by
  induction n generalizing c with
  | zero => exact .refl
  | succ n ih =>
    have hn : Moves ok c c.nextLookup.2 := moves_of_noted (noted_nextLookup c)
    unfold askLookups
    split <;> rename_i heq <;> rw [heq] at hn
    · exact hn
    · split
      · exact hn.trans (moves_connectFound env _ _)
      · exact hn.trans (ih _)

theorem moves_addLookup (env : Surroundings) (addr : String) (c : Consumer) :
    Moves ok c (c.addLookup env addr).2 := by
  have hn : ∀ ls : List String, Moves ok c { c with connected := true, lookups := ls } :=
    fun ls => moves_of_noted { Noted.refl c with }
  unfold addLookup
  split_ifs
  · exact .refl
  · exact .refl
  · split
    · exact .refl
    · dsimp only
      split_ifs
      · exact hn c.lookups
      · exact (hn (c.lookups ++ [addr])).trans (moves_askLookups env lookupAttempts _)
      · exact hn (c.lookups ++ [addr])

theorem moves_addLookups (env : Surroundings) (addrs : List String) (c : Consumer) :
    Moves ok c (c.addLookups env addrs).2 := by
  induction addrs generalizing c with
  | nil => exact .refl
  | cons addr addrs ih =>
    have hc : Moves ok c (c.addLookup env addr).2 := moves_addLookup env addr c
    unfold addLookups
    split <;> rename_i heq <;> rw [heq] at hc
    · exact hc.trans (ih _)
    · exact hc

theorem noted_dropLookup (addr : String) (c : Consumer) : Noted c (c.dropLookup addr).2 := by
  unfold dropLookup
  split_ifs
  · exact .refl c
  · exact { Noted.refl c with }
  · exact .refl c

/-! ### Acts and steps -/

/-- An admitted act is a sequence of moves. -/
theorem moves_act {env : Surroundings} {a : Act} {c : Consumer} (h : ok env a c) :
    Moves ok c (c.act env a).2 := by
  have hdirect : a.isDirect = true → Moves ok c (c.act env a).2 := fun ha => .single (.direct h ha)
  cases a with
  | refuse i on =>
    exact moves_adjust fun l _ => ⟨Connection.steady_refusing on l.conn,
      Connection.calm_refusing on l.conn, rfl, rfl⟩
  | feed i b =>
    exact moves_adjust fun l _ =>
      ⟨Connection.steady_push b l.conn, Connection.calm_push b l.conn, rfl,
        Connection.told_push b l.conn⟩
  | endOfInput i =>
    exact moves_adjust fun l _ =>
      ⟨Connection.steady_pushEnd l.conn, Connection.calm_pushEnd l.conn, rfl, rfl⟩
  | idle i => exact moves_adjust fun l _ => ⟨.refl l.conn, .refl l.conn, rfl, rfl⟩
  | closeLink i =>
    exact moves_adjust fun l _ =>
      ⟨Connection.steady_close l.conn, Connection.calm_close l.conn, rfl, rfl⟩
  | refill i => exact .single (.refill i)
  | signal s => exact .single (.signal env.chance s)
  | respread => exact .single .respread
  | handle n hd => exact moves_finishHandling env.chance n hd c
  | call n k => exact moves_callOn env.chance n k c
  | addHandlers n =>
    refine moves_of_noted ?_
    simp only [act, replying, addHandlers]
    split_ifs
    · exact .refl c
    · exact { Noted.refl c with }
  | connect addrs => exact moves_connectAll env addrs c
  | disconnect addr => exact moves_disconnect addr c
  | reconnect addr => exact moves_reconnect env addr c
  | addLookups addrs => exact moves_addLookups env addrs c
  | dropLookup addr => exact moves_of_noted (noted_dropLookup addr c)
  | lookUp => exact moves_askLookups env lookupAttempts c
  | found a => exact moves_connectFound env a c
  | stop => exact moves_stop c
  | _ => exact hdirect rfl

/-- **A step is a sequence of moves.** -/
theorem step_moves {env : Surroundings} {a : Act} {c : Consumer} (h : ok env a c) :
    Moves ok c (c.step env a).2 :=
  calc
    Moves ok c (c.act env a).2 := moves_act h
    Moves ok _ _ := moves_work env.chance _
    Moves ok _ _ := moves_settle _

/-- What every move keeps is kept by a sequence of moves. -/
theorem moves_invariant {I : Consumer → Prop} {c c' : Consumer} (h : Moves ok c c')
    (move : ∀ c₁ c₂, I c₁ → Move ok c₁ c₂ → I c₂) (init : I c) : I c' := by
  induction h with
  | refl => exact init
  | tail _ hm ih => exact move _ _ ih hm

/-- What holds at the start and is kept by every move holds along a run. -/
theorem Reaches.invariant {I : Consumer → Prop} {c c' : Consumer} (h : Reaches ok c c')
    (move : ∀ c₁ c₂, I c₁ → Move ok c₁ c₂ → I c₂) (init : I c) : I c' := by
  induction h with
  | refl => exact init
  | step h ha ih => exact moves_invariant (step_moves ha) move ih

end Consumer

end Nsq
