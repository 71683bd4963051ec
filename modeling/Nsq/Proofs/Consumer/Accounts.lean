import Nsq.Proofs.Consumer.Meter

/-!
# Who has the messages

A message that has come over a link waits for a handler, or a handler has it, until it gets its
final answer. While nobody has asked for a stop, a link has as many messages in flight as wait and
are held without an answer, and it stops reading only for a message that waits (`Accounted`).

An answer over a connection whose end has begun is counted by nobody but the connection: the
consumer does not hear of it, and it says nothing about the pace. `Consumer.drained` is the number
of those answers.
-/

namespace Nsq

/-- A link after so many answers to its messages. -/
structure Link.Lighter (n : Int) (l l' : Link) : Prop where
  address : l'.conn.address = l.conn.address
  inFlight : l'.conn.inFlight = l.conn.inFlight - n
  closing : l.conn.closing = true → l'.conn.closing = true
  stalled : l'.conn.stalled = true → l.conn.stalled = true
  ending : l.conn.Tidy → l.conn.Ending → l'.conn.Ending

theorem Link.Lighter.refl (l : Link) : l.Lighter 0 l := ⟨rfl, by simp, id, id, fun _ => id⟩

theorem Link.Lent.lighter {l l' : Link} (h : l.Lent l') : l.Lighter 0 l' where
  address := h.address
  inFlight := by rw [h.inFlight, Int.sub_zero]
  closing := h.closing
  stalled := h.calm.stalled
  ending _ := h.calm.ending

theorem Link.Quiet.lighter {l l' : Link} (h : l.Quiet l') : l.Lighter 0 l' where
  address := h.steady.address
  inFlight := by rw [h.steady.inFlight, Int.sub_zero]
  closing := h.steady.closing
  stalled := h.calm.stalled
  ending _ := h.calm.ending

namespace Consumer

variable {ok : Surroundings → Act → Consumer → Prop} {c c' : Consumer}

/-! ### Answers -/

theorem rel_lighter_zero {ol ol' : Option Link} (h : Option.Rel Link.Lent ol ol') :
    Option.Rel (Link.Lighter 0) ol ol' := by
  cases h with
  | none => exact .none
  | some r => exact .some r.lighter

/-- An answer on a link takes one message off it and leaves the other links as they are, but for
their credit. -/
theorem lighter_passAnswer (chance : Nat → Nat) (i : Nat) (m : Message) (a : Answer) (c : Consumer)
    (j : Nat) :
    Option.Rel (Link.Lighter (if j = i then 1 else 0)) c.links[j]?
      (c.passAnswer chance i m a).links[j]? := by
  cases hi : c.conn? i with
  | none =>
    rw [passAnswer_of_none hi]
    split_ifs with hji
    · have hl : c.links[i]? = none := by simpa [conn?] using hi
      rw [hji, hl]
      exact .none
    · exact rel_lighter_zero (Linkwise.refl Link.Lent.refl c j)
  | some conn =>
    obtain ⟨l, hl, rfl⟩ := conn?_eq_some_iff.mp hi
    set l₁ : Link := { l with conn := l.conn.countAnswer } with hl₁
    have hput : ∀ j, j ≠ i → (c.putConn i l.conn.countAnswer).links[j]? = c.links[j]? :=
      fun j hji => by simp [putConn, modifyLink, Ne.symm hji]
    have hput' : (c.putConn i l.conn.countAnswer).links[i]? = some l₁ := by
      simp [putConn, modifyLink, hl, hl₁]
    cases hd : l.conn.draining with
    | true =>
      -- the answer is counted, and the end has begun already
      rw [passAnswer_of_draining hi hd]
      split_ifs with hji
      · rw [hji, hput', hl]
        exact .some ⟨rfl, rfl, id, id, fun _ _ _ _ => hd⟩
      · rw [hput j hji]
        exact rel_lighter_zero (Linkwise.refl Link.Lent.refl c j)
    | false =>
      rw [passAnswer_of_not_draining hi hd]
      set d := (c.putConn i l.conn.countAnswer).countAnswer a with hd'
      have hlinks : d.links = (c.putConn i l.conn.countAnswer).links := by
        rw [hd']
        cases a <;> rfl
      have hs := (dealing_signal chance a.signal d).lending.links
      split_ifs with hji
      · -- the answer is booked first, and the end begins when it is sent
        subst hji
        obtain ⟨l₂, hl₂, r⟩ := hs.get (hlinks ▸ hput')
        have hsend := Connection.steady_sendAnswer m a l₂.conn
        simp only [modifyConn, modifyLink, List.getElem?_modify, if_true, hl₂, hl]
        exact .some
          { address := hsend.address.trans r.address
            inFlight := hsend.inFlight.trans r.inFlight
            closing := fun h => hsend.closing (r.closing h)
            stalled := fun h =>
              r.calm.stalled ((Connection.calm_sendAnswer m a l₂.conn).stalled h)
            ending := fun t _ =>
              Connection.ending_sendAnswer m a fun hr _ =>
                .inl ((r.calm.tidy t.countAnswer).closing_of_not_reading hr) }
      · have hj := hs j
        rw [hlinks, hput j hji] at hj
        simp only [modifyConn, modifyLink, List.getElem?_modify_ne _ _ (Ne.symm hji)]
        exact rel_lighter_zero hj

/-! ### Answers that nobody hears of -/

/-- The messages in flight over all links. -/
def inFlight (c : Consumer) : Int := (c.links.map fun l => l.conn.inFlight).sum

/-- The answers over connections whose end had begun: messages received that are neither finished
nor requeued nor in flight. -/
def drained (c : Consumer) : Int := c.received - c.finished - c.requeued - c.inFlight

theorem inFlight_modifyLink {i : Nat} {l : Link} (h : c.links[i]? = some l) (f : Link → Link) :
    (c.modifyLink i f).inFlight = c.inFlight + ((f l).conn.inFlight - l.conn.inFlight) :=
  sum_map_modify (fun l => l.conn.inFlight) h f

theorem inFlight_modifyLink_of_eq {i : Nat} {f : Link → Link}
    (h : ∀ l, c.links[i]? = some l → (f l).conn.inFlight = l.conn.inFlight) :
    (c.modifyLink i f).inFlight = c.inFlight := by
  cases hl : c.links[i]? with
  | none => simp only [inFlight, modifyLink, modify_of_getElem?_eq_none hl]
  | some l => rw [inFlight_modifyLink hl, h l hl, Int.sub_self, Int.add_zero]

theorem drained_eq_of_lending (h : Lending c c') : c'.drained = c.drained := by
  have hi : c'.inFlight = c.inFlight :=
    congrArg List.sum (h.links.map_eq fun _ _ r => r.inFlight)
  rw [drained, hi, h.received, h.finished, h.requeued, drained]

theorem drained_modifyLink {i : Nat} {f : Link → Link}
    (h : ∀ l, c.links[i]? = some l → (f l).conn.inFlight = l.conn.inFlight) :
    (c.modifyLink i f).drained = c.drained := by
  rw [drained, inFlight_modifyLink_of_eq h]
  rfl

theorem drained_putConn {i : Nat} {conn conn' : Connection} (hi : c.conn? i = some conn)
    (h : conn'.inFlight = conn.inFlight) : (c.putConn i conn').drained = c.drained := by
  refine drained_modifyLink fun l hl => ?_
  obtain rfl : l.conn = conn := conn_eq_of_links hl hi
  exact h

theorem drained_countAnswer {i : Nat} {conn : Connection} (hi : c.conn? i = some conn) :
    (c.putConn i conn.countAnswer).drained = c.drained + 1 := by
  obtain ⟨l, hl, rfl⟩ := conn?_eq_some_iff.mp hi
  have hs := inFlight_modifyLink hl fun l' => { l' with conn := l.conn.countAnswer }
  have hc : l.conn.countAnswer.inFlight = l.conn.inFlight - 1 := rfl
  rw [drained, putConn, hs, drained]
  show (c.received - c.finished - c.requeued - _ : Int) = _
  rw [hc]
  omega

/-- An answer over a connection whose end has begun is drained; any other is not. -/
theorem drained_passAnswer {i : Nat} {conn : Connection} (hi : c.conn? i = some conn)
    (chance : Nat → Nat) (m : Message) (a : Answer) :
    (c.passAnswer chance i m a).drained = c.drained + if conn.draining then 1 else 0 := by
  cases hd : conn.draining with
  | true =>
    rw [passAnswer_of_draining hi hd, drained_countAnswer hi]
    rfl
  | false =>
    have hb : ((c.putConn i conn.countAnswer).countAnswer a).drained = c.drained := by
      have hp := drained_countAnswer hi
      cases a <;> simp only [drained, countAnswer, inFlight] at hp ⊢ <;> omega
    have hs := drained_eq_of_lending (dealing_signal chance a.signal
      ((c.putConn i conn.countAnswer).countAnswer a)).lending
    rw [passAnswer_of_not_draining hi hd]
    calc
      _ = drained _ := drained_modifyLink fun l _ =>
        (Connection.steady_sendAnswer m a l.conn).inFlight
      _ = drained _ := hs
      _ = c.drained := hb
      _ = _ := by simp

theorem drained_passAnswer_le (chance : Nat → Nat) (i : Nat) (m : Message) (a : Answer) :
    c.drained ≤ (c.passAnswer chance i m a).drained := by
  cases hi : c.conn? i with
  | none => rw [passAnswer_of_none hi]
  | some conn =>
    rw [drained_passAnswer hi]
    split_ifs <;> omega

/-- **No move takes a drained answer back.** -/
theorem drained_le_of_move (hm : Move ok c c')
    (hattach : ∀ env c link, ok env (.attach link) c → link.Fresh c.policy) :
    c.drained ≤ c'.drained := by
  have hlend : Lending c c' → c.drained ≤ c'.drained := fun h => (drained_eq_of_lending h).ge
  have hopen : ∀ {l : Link}, l.Opened c.policy → c.drained ≤ (c.openLink l).2.drained := by
    intro l hl
    have hi : (c.openLink l).2.inFlight = c.inFlight := by
      simp [inFlight, openLink, hl.inFlight]
    rw [drained, drained, hi]
    exact Int.le_refl _
  cases hm with
  | note hn =>
    simp only [drained, inFlight, hn.received, hn.finished, hn.requeued, hn.links]
    exact Int.le_refl _
  | adjust hq => exact (drained_modifyLink fun l hl => (hq l hl).steady.inFlight).ge
  | refill i => exact hlend (dealing_refill i c).lending
  | signal chance s => exact hlend (dealing_signal chance s c).lending
  | respread => exact Int.le_refl _
  | stop => exact Int.le_refl _
  | reject hl => exact hopen hl
  | join hl => exact hopen hl.toOpened
  | @arrive i conn m rest hi =>
    obtain ⟨l, hl, rfl⟩ := conn?_eq_some_iff.mp hi
    set conn' := ({ l.conn with unread := rest } : Connection).arrive
    have hs : (c.takeIn i m conn').inFlight = c.inFlight + (conn'.inFlight - l.conn.inFlight) :=
      sum_map_modify (fun l => l.conn.inFlight) hl (Link.hearing conn' c.serving)
    have hc : conn'.inFlight = l.conn.inFlight + 1 := rfl
    have hr : (c.takeIn i m conn').received = c.received + 1 := rfl
    rw [drained, drained, hs, hc, hr]
    show _ ≤ ((c.received + 1 : Nat) - c.finished - c.requeued - _ : Int)
    omega
  | bounce i m a => exact drained_passAnswer_le _ i m a
  | @take o rest =>
    have ht : ({ c with offers := rest, handed := c.handed ++ [⟨⟨o.message, {}⟩, o.link⟩] } :
      Consumer).drained = c.drained := rfl
    exact ((drained_modifyLink (f := Link.unstall) fun _ _ => rfl).trans ht).ge
  | answer a => exact drained_passAnswer_le (c := c.putState _ _) _ _ _ a
  | settle i =>
    cases hi : c.conn? i with
    | none => rw [settleLink_of_none hi]
    | some conn =>
      have hs := Connection.steady_settled conn
      rcases settleLink_cases hi with ⟨heq, -⟩ | ⟨-, -, hr⟩
      · rw [heq]
        exact (drained_putConn hi hs.inFlight).ge
      · have hp : (c.putConn i { conn.settled with closed := true }).drained = c.drained :=
          drained_putConn hi hs.inFlight
        rw [← hp]
        simp only [drained, inFlight, hr.received, hr.finished, hr.requeued, hr.links]
        exact Int.le_refl _
  | @direct env a hok ha =>
    obtain ⟨link, rfl⟩ | ⟨i, rfl⟩ | hl := direct_lending_cases ha c
    · exact hopen (hattach env c link hok).toOpened
    · show c.drained ≤ (c.retire i).drained
      cases hi : c.conn? i with
      | none => simp [retire, hi]
      | some conn =>
        have hr := retire_of_conn hi
        simp only [drained, inFlight, hr.received, hr.finished, hr.requeued, hr.links]
        exact Int.le_refl _
    · exact hlend hl

/-! ### Messages without an answer -/

/-- The messages of a link without an answer: those that wait, and those that handlers have. -/
def waiting (i : Nat) (c : Consumer) : Nat :=
  (c.offers.map Offer.link).count i + (c.handed.map Handed.standing).count (i, false)

/-- Whether some message has no answer. -/
def Pending (c : Consumer) : Prop := c.offers ≠ [] ∨ ∃ h ∈ c.handed, h.state.responded = false

theorem waiting_of_not_pending (h : ¬Pending c) (i : Nat) : c.waiting i = 0 := by
  rw [Pending, not_or, not_not] at h
  obtain ⟨ho, hh⟩ := h
  rw [waiting, ho, List.map_nil, List.count_nil, Nat.zero_add, List.count_eq_zero]
  rintro he
  obtain ⟨d, hd, hs⟩ := List.mem_map.mp he
  exact hh ⟨d, hd, congrArg Prod.snd hs⟩

theorem waiting_of_eq (ho : c'.offers = c.offers)
    (hs : c'.handed.map Handed.standing = c.handed.map Handed.standing) (i : Nat) :
    c'.waiting i = c.waiting i := by
  rw [waiting, ho, hs, waiting]

theorem pending_of_eq (ho : c'.offers = c.offers)
    (hs : c'.handed.map Handed.standing = c.handed.map Handed.standing) :
    Pending c' ↔ Pending c := by
  have hmem : ∀ c : Consumer, (∃ h ∈ c.handed, h.state.responded = false) ↔
      ∃ e ∈ c.handed.map Handed.standing, e.2 = false := by
    intro c
    simp [Handed.standing]
  rw [Pending, Pending, ho, hmem, hmem, hs]

theorem waiting_takeIn (i : Nat) (m : Message) (conn : Connection) (c : Consumer) (j : Nat) :
    (c.takeIn i m conn).waiting j =
      c.waiting j + if c.serving = true ∧ j = i then 1 else 0 := by
  have ho : (c.takeIn i m conn).offers = if c.serving then c.offers ++ [⟨i, m⟩] else c.offers := rfl
  have hh : (c.takeIn i m conn).handed = c.handed := rfl
  rw [waiting, ho, hh, waiting]
  cases c.serving with
  | false => simp
  | true =>
    simp only [if_true, List.map_append, List.count_append, List.map_cons, List.map_nil, true_and,
      List.count_singleton, beq_iff_eq, eq_comm (a := i)]
    omega

/-- A message that is handed over has no answer before and none after. -/
theorem waiting_assign {o : Offer} {rest : List Offer} (h : c.offers = o :: rest) (j : Nat) :
    (c.assign o rest).waiting j = c.waiting j := by
  have ho : (c.assign o rest).offers = rest := rfl
  have hh : (c.assign o rest).handed.map Handed.standing =
      c.handed.map Handed.standing ++ [(o.link, false)] := by
    simp [assign, modifyLink, Handed.standing]
  rw [waiting, ho, hh, waiting, h]
  simp only [List.count_append, List.map_cons, List.count_cons, List.count_nil, beq_iff_eq,
    Prod.mk.injEq, and_true]
  omega

/-- A message that gets its answer was one without. -/
theorem waiting_putState {n : Nat} {h : Handed} (hn : c.handed[n]? = some h)
    (hr : h.state.responded = false) (j : Nat) :
    (c.putState n { h.state with responded := true }).waiting j + (if j = h.link then 1 else 0) =
      c.waiting j := by
  obtain ⟨ss, hss⟩ : ∃ ss, ss = c.handed.map Handed.standing := ⟨_, rfl⟩
  have hget : ss[n]? = some (h.link, false) := by simp [hss, hn, Handed.standing, hr]
  obtain ⟨hlt, hat⟩ := List.getElem?_eq_some_iff.mp hget
  -- in the list of who has which message one entry changes from unanswered to answered
  have hset : (c.putState n { h.state with responded := true }).handed.map Handed.standing =
      ss.set n (h.link, true) := by
    refine List.ext_getElem? fun k => ?_
    simp only [putState, List.getElem?_map, List.getElem?_modify, List.getElem?_set, hlt, if_true]
    split_ifs with hk
    · rw [← hk, hn]
      rfl
    · simp [hss]
  have ho : (c.putState n { h.state with responded := true }).offers = c.offers := rfl
  rw [waiting, ho, hset, List.count_set hlt, hat, waiting, ← hss]
  have hne : ((h.link, true) == (j, false)) = false := by simp
  rw [hne]
  by_cases hj : j = h.link
  · have hpos : 0 < ss.count (j, false) :=
      List.count_pos_iff.mpr (hj ▸ List.mem_of_getElem? hget)
    simp only [hj, BEq.rfl, if_true, Bool.false_eq_true, if_false] at hpos ⊢
    omega
  · have hne' : ((h.link, false) == (j, false)) = false := by simp [Ne.symm hj]
    simp [hj, hne']

/-! ### Accounts -/

/-- Every message without an answer came over a link. While nobody has asked for a stop, handlers
are served, links have as many messages in flight as lack an answer, and a link that waits before it
reads on waits for one of its messages to be handed over. -/
structure Accounted (c : Consumer) : Prop where
  served : c.serving = true ∨ c.stopping = true
  sourced : ∀ i, 0 < c.waiting i → ∃ l, c.links[i]? = some l
  counted : c.stopping = false → ∀ (i : Nat) (l : Link), c.links[i]? = some l →
    l.conn.inFlight = c.waiting i ∧ (l.conn.stalled = true → i ∈ c.offers.map Offer.link)

namespace Accounted

/-- Accounts stay right when links are rid of as many messages as got answers. -/
theorem lighter (h : Accounted c) {n : Nat → Int} (hv : c'.serving = true ∨ c'.stopping = true)
    (hs : c.stopping = true → c'.stopping = true) (ho : c'.offers = c.offers)
    (hle : ∀ j, c'.waiting j ≤ c.waiting j)
    (hw : c'.stopping = false → ∀ j, (c'.waiting j : Int) = c.waiting j - n j)
    (hl : ∀ j : Nat, Option.Rel (Link.Lighter (n j)) c.links[j]? c'.links[j]?) : Accounted c' where
  served := hv
  sourced i hi := by
    obtain ⟨l, hl'⟩ := h.sourced i (Nat.lt_of_lt_of_le hi (hle i))
    obtain ⟨l'', hl'', -⟩ := exists_of_some_rel (hl' ▸ hl i)
    exact ⟨l'', hl''⟩
  counted hstop i l' hl' := by
    obtain ⟨l, hc, r⟩ := exists_of_rel_some (hl' ▸ hl i)
    have hstop' : c.stopping = false := by
      rw [Bool.eq_false_iff]
      exact fun e => by simp [hs e] at hstop
    obtain ⟨hin, hst⟩ := h.counted hstop' i l hc
    rw [ho, r.inFlight, hin, hw hstop i]
    exact ⟨rfl, fun e => hst (r.stalled e)⟩

/-- Accounts do not look at credit. -/
theorem lending (h : Accounted c) (hl : Lending c c') : Accounted c' := by
  have hw : ∀ j, c'.waiting j = c.waiting j := waiting_of_eq hl.offers (by rw [hl.handed])
  refine h.lighter (n := fun _ => 0) ?_ ?_ hl.offers (fun j => (hw j).le) (fun _ j => ?_)
    fun j => rel_lighter_zero (hl.links j)
  · rw [hl.serving, hl.stopping]
    exact h.served
  · rw [hl.stopping]
    exact id
  · rw [hw j, Int.sub_zero]

/-- A link may change as long as its messages stay. -/
theorem modifyLink (h : Accounted c) {i : Nat} {f : Link → Link}
    (hf : ∀ l, c.links[i]? = some l → l.Lighter 0 (f l)) : Accounted (c.modifyLink i f) := by
  refine h.lighter (n := fun _ => 0) h.served id rfl (fun _ => Nat.le_refl _) (fun _ _ => ?_)
    (linkwise_modifyLink Link.Lighter.refl hf)
  exact (Int.sub_zero _).symm

/-- What is neither messages nor links does not matter, but whether handlers are served. -/
theorem of_eq (h : Accounted c) (hv : c'.serving = c.serving ∨ c'.stopping = true)
    (hs : c.stopping = true → c'.stopping = true) (ho : c'.offers = c.offers)
    (hst : c'.handed.map Handed.standing = c.handed.map Handed.standing)
    (hl : c'.links = c.links) : Accounted c' := by
  have hw := waiting_of_eq ho hst
  refine h.lighter (n := fun _ => 0) ?_ hs ho (fun j => (hw j).le) (fun _ j => ?_) fun j => ?_
  · rcases hv with hv | hv
    · rw [hv]
      exact h.served.imp id hs
    · exact .inr hv
  · rw [hw j, Int.sub_zero]
  · rw [hl]
    exact rel_lighter_zero (Linkwise.refl Link.Lent.refl c j)

/-- A new link has no messages yet. -/
theorem openLink (h : Accounted c) {l : Link} (hl : l.Opened c.policy) :
    Accounted (c.openLink l).2 where
  served := h.served
  sourced i hi := by
    obtain ⟨l', hl'⟩ := h.sourced i hi
    exact ⟨l', getElem?_openLink hl' l⟩
  counted hs i l' hl' := by
    obtain hl' | ⟨rfl, rfl⟩ := getElem?_openLink_cases hl'
    · exact h.counted hs i l' hl'
    · have hzero : c.waiting c.links.length = 0 := by
        rw [← Nat.le_zero, ← Nat.not_lt]
        intro hpos
        obtain ⟨l'', hl''⟩ := h.sourced _ hpos
        exact absurd (List.getElem?_eq_some_iff.mp hl'').1 (Nat.lt_irrefl _)
      show l'.conn.inFlight = (c.waiting c.links.length : Int) ∧ _
      rw [hl.inFlight, hzero, hl.stalled]
      exact ⟨rfl, by simp⟩

/-- A message that comes over a link waits for a handler. -/
theorem takeIn (h : Accounted c) {i : Nat} {conn : Connection} (hi : c.conn? i = some conn)
    (m : Message) (rest : Octets) :
    Accounted (c.takeIn i m ({ conn with unread := rest } : Connection).arrive) := by
  obtain ⟨l, hl, rfl⟩ := conn?_eq_some_iff.mp hi
  set conn' := ({ l.conn with unread := rest } : Connection).arrive with hconn
  have hw := waiting_takeIn i m conn' c
  have hself : (c.takeIn i m conn').links[i]? = some (Link.hearing conn' c.serving l) := by
    simp [Consumer.takeIn, Consumer.modifyLink, hl]
  have hother : ∀ j, j ≠ i → (c.takeIn i m conn').links[j]? = c.links[j]? :=
    fun j hj => by simp [Consumer.takeIn, Consumer.modifyLink, Ne.symm hj]
  refine ⟨h.served, fun j hj => ?_, fun hs j l' hl' => ?_⟩
  · by_cases hji : j = i
    · rw [hji]
      exact ⟨_, hself⟩
    · rw [hother j hji]
      rw [hw j, if_neg fun e => hji e.2] at hj
      exact h.sourced j hj
  · -- nobody has asked for a stop, so the message is offered
    have hv : c.serving = true := h.served.resolve_right (by
      rw [Bool.not_eq_true]
      exact hs)
    have ho : (c.takeIn i m conn').offers = c.offers ++ [⟨i, m⟩] := by simp [Consumer.takeIn,
      Consumer.modifyLink, hv]
    rw [hw j, ho, List.map_append, List.mem_append]
    by_cases hji : j = i
    · subst hji
      obtain rfl := Option.some.inj (hself.symm.trans hl')
      have hin : (Link.hearing conn' c.serving l).conn.inFlight = l.conn.inFlight + 1 := rfl
      rw [hin, (h.counted hs j l hl).1, if_pos ⟨hv, rfl⟩]
      exact ⟨rfl, fun _ => .inr (by simp)⟩
    · rw [hother j hji] at hl'
      rw [if_neg fun e => hji e.2]
      obtain ⟨hin, hst⟩ := h.counted hs j l' hl'
      exact ⟨hin, fun e => .inl (hst e)⟩

/-- A message that is handed over lets its link read on. -/
theorem assign (h : Accounted c) {o : Offer} {rest : List Offer} (ho : c.offers = o :: rest) :
    Accounted (c.assign o rest) := by
  have hw := waiting_assign ho
  have ho' : (c.assign o rest).offers = rest := rfl
  refine ⟨h.served, fun j hj => ?_, fun hs j l' hl' => ?_⟩
  · rw [hw j] at hj
    obtain ⟨l, hl⟩ := h.sourced j hj
    by_cases hjo : o.link = j
    · exact ⟨l.unstall, by simp [Consumer.assign, Consumer.modifyLink, hjo, hl]⟩
    · exact ⟨l, by simp [Consumer.assign, Consumer.modifyLink, hjo, hl]⟩
  · rw [hw j, ho']
    by_cases hjo : o.link = j
    · simp only [Consumer.assign, Consumer.modifyLink, List.getElem?_modify, hjo, if_true] at hl'
      obtain ⟨l, hl, rfl⟩ := Option.map_eq_some_iff.mp hl'
      exact ⟨(h.counted hs j l hl).1, fun e => absurd e (by simp [Link.unstall])⟩
    · simp only [Consumer.assign, Consumer.modifyLink, List.getElem?_modify_ne _ _ hjo] at hl'
      obtain ⟨hin, hst⟩ := h.counted hs j l' hl'
      refine ⟨hin, fun e => ?_⟩
      have hmem := hst e
      rw [ho, List.map_cons, List.mem_cons] at hmem
      exact hmem.resolve_left (Ne.symm hjo)

/-- An answer over a link is booked on the link; while handlers are not served any more nothing is
said of the accounts. -/
theorem answer (h : Accounted c) {chance : Nat → Nat} {n : Nat} {d : Handed} (a : Answer)
    (hn : c.handed[n]? = some d) (hr : d.state.responded = false) :
    Accounted ((c.putState n { d.state with responded := true }).passAnswer chance d.link d.message
      a) := by
  set e := c.putState n { d.state with responded := true }
  have hp := passed_passAnswer chance d.link d.message a e
  have hw : ∀ j, e.waiting j + (if j = d.link then 1 else 0) = c.waiting j :=
    waiting_putState hn hr
  have hpw := waiting_of_eq hp.offers (by rw [hp.handed])
  refine h.lighter (n := fun j => if j = d.link then 1 else 0) ?_ ?_ hp.offers (fun j => ?_)
    (fun _ j => ?_) (lighter_passAnswer chance d.link d.message a e)
  · rw [hp.serving, hp.stopping]
    exact h.served
  · rw [hp.stopping]
    exact id
  · rw [hpw j, ← hw j]
    exact Nat.le_add_right _ _
  · rw [hpw j, ← hw j]
    split_ifs <;> push_cast <;> omega

/-- A message that is sent back because no handlers are served is in nobody's accounts. -/
theorem bounce (h : Accounted c) (chance : Nat → Nat) (i : Nat) (m : Message) (a : Answer)
    (hv : c.serving = false) : Accounted (c.passAnswer chance i m a) := by
  have hp := passed_passAnswer chance i m a c
  have hpw := waiting_of_eq hp.offers (by rw [hp.handed])
  have hstop : c.stopping = true := h.served.resolve_left (by simp [hv])
  refine h.lighter (.inr (hp.stopping.trans hstop)) ?_ hp.offers (fun j => (hpw j).le) ?_
    (lighter_passAnswer chance i m a c)
  · rw [hp.stopping]
    exact id
  · intro hs
    rw [hp.stopping, hstop] at hs
    exact absurd hs (by simp)

theorem settleLink (h : Accounted c) (i : Nat) : Accounted (c.settleLink i) := by
  cases hi : c.conn? i with
  | none => rwa [settleLink_of_none hi]
  | some conn =>
    have hs := Connection.steady_settled conn
    have hc := Connection.calm_settled conn
    have hput : ∀ closed, Accounted (c.putConn i { conn.settled with closed := closed }) := by
      refine fun closed => h.modifyLink fun l hl => ?_
      obtain rfl : l.conn = conn := conn_eq_of_links hl hi
      exact ⟨hs.address, by rw [Int.sub_zero]; exact hs.inFlight, hs.closing, hc.stalled,
        fun _ => hc.ending⟩
    rcases settleLink_cases hi with ⟨heq, -⟩ | ⟨-, -, hr⟩
    · rw [heq]
      exact hput conn.settled.closed
    · refine (hput true).of_eq ?_ ?_ hr.offers (by rw [hr.handed]) hr.links
      · refine hr.serving.imp id fun e => ?_
        rw [hr.stopping]
        exact e.2
      · rw [hr.stopping]
        exact id

/-- **Moves keep the accounts**, if links are new when they are attached and report their ends
themselves. -/
theorem move (h : Accounted c) (hm : Move ok c c')
    (hattach : ∀ env c link, ok env (.attach link) c → link.Fresh c.policy)
    (hretire : ∀ env c i, ¬ok env (.retire i) c) : Accounted c' := by
  cases hm with
  | note hn =>
    refine h.of_eq (hn.serving.imp id fun e => ?_) ?_ hn.offers hn.standings hn.links
    · rw [hn.stopping]
      exact e.2
    · rw [hn.stopping]
      exact id
  | adjust hq => exact h.modifyLink fun l hl => (hq l hl).lighter
  | refill i => exact h.lending (dealing_refill i c).lending
  | signal chance s => exact h.lending (dealing_signal chance s c).lending
  | respread => exact h.of_eq (.inl rfl) id rfl rfl rfl
  | stop => exact h.of_eq (.inl rfl) (fun _ => rfl) rfl rfl rfl
  | reject hl => exact h.openLink hl
  | join hl => exact (h.openLink hl.toOpened).of_eq (.inl rfl) id rfl rfl rfl
  | arrive m rest hi => exact h.takeIn hi m rest
  | bounce i m a hv => exact h.bounce _ i m a hv
  | take ho => exact h.assign ho
  | answer a hn hr => exact h.answer a hn hr
  | settle i => exact h.settleLink i
  | @direct env a hok ha =>
    obtain ⟨link, rfl⟩ | ⟨i, rfl⟩ | hl := direct_lending_cases ha c
    · exact (h.openLink (hattach env c link hok).toOpened).of_eq (.inl rfl) id rfl rfl rfl
    · exact absurd hok (hretire env c i)
    · exact h.lending hl

end Accounted

theorem accounted_ofSubscription (s : Subscription) : Accounted (ofSubscription s) where
  served := .inl rfl
  sourced i hi := by simp [waiting, ofSubscription] at hi
  counted := by simp [ofSubscription]

end Consumer

end Nsq
