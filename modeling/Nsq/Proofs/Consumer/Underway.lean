import Nsq.Consumer.Underway
import Nsq.Proofs.Consumer.Handled
import Nsq.Proofs.Consumer.Ledger
import Nsq.Proofs.History

/-!
# Turns of a consumer

What a turn does to a consumer with operations under way, case by case (`Underway.Turned`), so that
what every turn keeps is shown for the cases and not for the functions.

Most turns leave the table of links and the attempts to connect alone (`Consumer.Apart`), many of
them the stop (`Consumer.Beside`) and the handlers, too (`Consumer.Manned`); a handler that takes a
message may be lost (`Consumer.Taken`). The operations below them are taken as they are, with what
`Lending` and `Passed` say of granting credit and of answering.
-/

namespace Nsq

theorem Link.Later.of_steady {l : Link} {conn : Connection} (h : Connection.Steady l.conn conn) :
    l.Later { l with conn := conn } :=
  ⟨h.address, h.maxRdy, fun hc => h.closed ▸ hc⟩

namespace Consumer

variable {c c' c'' : Consumer} {chance : Nat → Nat} {i : Nat}

/-! ### What most turns leave alone -/

/-- A change apart from the table of links and the attempts to connect; links stay, and so do the
reports of their ends. -/
structure Apart (c c' : Consumer) : Prop where
  live : c'.live = c.live
  pending : c'.pending = c.pending
  links : Linkwise Link.Later c c'

/-- A change that is beside the stop, too. -/
structure Beside (c c' : Consumer) : Prop extends Apart c c' where
  serving : c'.serving = c.serving
  stopping : c'.stopping = c.stopping
  exited : c'.exited = c.exited

/-- A change that is beside the handlers, too: none is lost, gets busy or leaves. Something is
offered to them only while they are served, and only by a link. -/
structure Manned (c c' : Consumer) : Prop extends Beside c c' where
  lost : c'.lost = c.lost
  busy : c'.busy.length ≤ c.busy.length
  givingUp : c'.givingUp = c.givingUp
  handlers : c.handlers ≤ c'.handlers
  offers : c'.offers = c.offers ∨ c.links ≠ [] ∧ c.serving = true

theorem linkwise_of_eq (h : c'.links = c.links) : Linkwise Link.Later c c' := fun i => by
  rw [h]
  exact Linkwise.refl Link.Later.refl c i

theorem Linkwise.trans_later (h : Linkwise Link.Later c c') (h' : Linkwise Link.Later c' c'') :
    Linkwise Link.Later c c'' :=
  h.trans (fun _ _ _ r r' => r.trans r') h'

/-- No link is opened, and none is lost. -/
theorem Linkwise.length_eq {R : Link → Link → Prop} (h : Linkwise R c c') :
    c'.links.length = c.links.length := by
  have hmap := congrArg List.length (h.map_eq (g := fun _ => ()) fun _ _ _ => rfl)
  rwa [List.length_map, List.length_map] at hmap

theorem Linkwise.nil_iff {R : Link → Link → Prop} (h : Linkwise R c c') :
    c'.links = [] ↔ c.links = [] := by
  rw [← List.length_eq_zero_iff, ← List.length_eq_zero_iff, h.length_eq]

namespace Apart

theorem refl (c : Consumer) : Apart c c := ⟨rfl, rfl, linkwise_of_eq rfl⟩

theorem trans (h : Apart c c') (h' : Apart c' c'') : Apart c c'' where
  live := h'.live.trans h.live
  pending := h'.pending.trans h.pending
  links := h.links.trans_later h'.links

end Apart

/-- To serve no more changes whether handlers are served, and may end all. -/
theorem stopServing_eq (c : Consumer) :
    c.stopServing =
      { c with
        serving := false
        exited := c.stopServing.exited
        reconnects := c.stopServing.reconnects } := by
  unfold stopServing
  dsimp only
  split_ifs with hs
  · rfl
  · rfl
  · cases c
    simp_all

/-- To leave changes how many handlers there are, and may end all. -/
theorem leave_eq (c : Consumer) :
    c.leave =
      { c with
        handlers := c.leave.handlers
        exited := c.leave.exited
        reconnects := c.leave.reconnects } := by
  unfold leave
  dsimp only
  split_ifs <;> rfl

theorem apart_stopServing (c : Consumer) : Apart c c.stopServing := by
  rw [stopServing_eq]
  exact { Apart.refl c with }

theorem apart_leave (c : Consumer) : Apart c c.leave := by
  rw [leave_eq]
  exact { Apart.refl c with }

namespace Beside

theorem refl (c : Consumer) : Beside c c := ⟨.refl c, rfl, rfl, rfl⟩

theorem trans (h : Beside c c') (h' : Beside c' c'') : Beside c c'' where
  toApart := h.toApart.trans h'.toApart
  serving := h'.serving.trans h.serving
  stopping := h'.stopping.trans h.stopping
  exited := h'.exited.trans h.exited

end Beside

namespace Manned

theorem refl (c : Consumer) : Manned c c :=
  { Beside.refl c with
    lost := rfl
    busy := Nat.le_refl _
    givingUp := rfl
    handlers := Nat.le_refl _
    offers := .inl rfl }

theorem trans (h : Manned c c') (h' : Manned c' c'') : Manned c c'' where
  toBeside := h.toBeside.trans h'.toBeside
  lost := h'.lost.trans h.lost
  busy := Nat.le_trans h'.busy h.busy
  givingUp := h'.givingUp.trans h.givingUp
  handlers := Nat.le_trans h.handlers h'.handlers
  offers := by
    rcases h'.offers with ho' | ⟨hl, hs⟩
    · exact h.offers.imp_left ho'.trans
    · exact .inr ⟨mt h.links.nil_iff.mpr hl, h.serving ▸ hs⟩

instance : Trans Manned Manned Manned := ⟨trans⟩

end Manned

theorem Passed.manned (h : Passed c c') (hl : Linkwise Link.Later c c') : Manned c c' := by
  have hs := h.staff
  simp only [Consumer.staff, Prod.mk.injEq] at hs
  obtain ⟨hbusy, -, -, hlost, hgive⟩ := hs
  exact ⟨⟨⟨h.live, h.pending, hl⟩, h.serving, h.stopping, h.exited⟩, hlost,
    Nat.le_of_eq (congrArg _ hbusy), hgive, Nat.le_of_eq h.handlers.symm, .inl h.offers⟩

theorem Lending.manned (h : Lending c c') : Manned c c' :=
  h.passed.manned (h.links.mono fun _ _ r => ⟨r.address, r.maxRdy, fun hc => r.closed ▸ hc⟩)

theorem manned_modifyLink {f : Link → Link} (hf : ∀ l : Link, l.Later (f l)) (i : Nat)
    (c : Consumer) : Manned c (c.modifyLink i f) :=
  { Manned.refl c with links := linkwise_modifyLink Link.Later.refl fun l _ => hf l }

theorem manned_modifyConn {f : Connection → Connection}
    (hf : ∀ conn, Connection.Steady conn (f conn)) (i : Nat) (c : Consumer) :
    Manned c (c.modifyConn i f) :=
  manned_modifyLink (fun l => .of_steady (hf l.conn)) i c

theorem manned_putConn {conn conn' : Connection} (h : c.conn? i = some conn)
    (ha : conn'.address = conn.address) (hm : conn'.maxRdy = conn.maxRdy)
    (hc : conn.closed = true → conn'.closed = true) : Manned c (c.putConn i conn') := by
  refine { Manned.refl c with links := linkwise_modifyLink Link.Later.refl fun l hl => ?_ }
  obtain rfl := conn_eq_of_links hl h
  exact ⟨ha, hm, hc⟩

/-! ### What handlers call for -/

theorem manned_passAll (chance : Nat → Nat) (i : Nat) (m : Message) (rs : List Request)
    (c : Consumer) : Manned c (c.passAll chance i m rs) := by
  refine (passed_passAll chance i m rs c).manned ?_
  refine List.foldlRecOn (motive := Linkwise Link.Later c) rs _ (linkwise_of_eq rfl)
    fun d hd r _ => hd.trans_later ?_
  cases r with
  | touch =>
    have ht : d.pass chance i m .touch = d.modifyConn i fun conn => (conn.touch m).2 :=
      modifyConn_eq i _ d
    rw [ht]
    exact (manned_modifyConn (Connection.steady_touch m) i d).links
  | answer a =>
    refine (passAnswer_invariant (I := Linkwise Link.Later d) (linkwise_of_eq rfl) ?_ ?_ ?_ ?_)
    · exact fun conn hi =>
        (manned_putConn hi (show conn.countAnswer.address = conn.address from rfl) rfl id).links
    · intro e he
      cases a <;> exact he
    · exact fun e he => he.trans_later (dealing_signal chance a.signal e).lending.manned.links
    · exact fun e he =>
        he.trans_later (manned_modifyConn (Connection.steady_sendAnswer m a) i e).links

theorem manned_putState (n : Nat) (s : Answered) (c : Consumer) : Manned c (c.putState n s) :=
  { Manned.refl c with }

theorem manned_call (chance : Nat → Nat) (n : Nat) (k : Call) (c : Consumer) :
    Manned c (c.call chance n k).2 := by
  unfold call
  cases c.handed[n]? with
  | none => exact .refl c
  | some h => exact (manned_putState n _ c).trans (manned_passAll chance h.link h.message _ _)

theorem manned_finishHandling (chance : Nat → Nat) (n : Nat) (h : Handling) (c : Consumer) :
    Manned c (c.finishHandling chance n h) := by
  unfold finishHandling
  cases c.handed[n]? with
  | none => exact .refl c
  | some d =>
    have hb : Manned c { c with busy := c.busy.filter (· != n) } :=
      { Manned.refl c with busy := List.length_filter_le _ _ }
    calc
      Manned c { c with busy := c.busy.filter (· != n) } := hb
      Manned _ _ := manned_putState n _ _
      Manned _ _ := manned_passAll chance d.link d.message _ _

/-! ### Acts that are done at once -/

theorem manned_act {a : Act} (ha : a.isBrief = true) (env : Surroundings) (c : Consumer) :
    Manned c (c.act env a).2 := by
  cases a with
  | refuse i on => exact manned_modifyConn (Connection.steady_refusing on) i c
  | feed i b => exact manned_modifyConn (Connection.steady_push b) i c
  | endOfInput i => exact manned_modifyConn Connection.steady_pushEnd i c
  | idle i =>
    have hf : ∀ l : Link, l.Later { l with idle := true } := fun _ => ⟨rfl, rfl, id⟩
    exact manned_modifyLink hf i c
  | closeLink i => exact manned_modifyConn Connection.steady_close i c
  | updateRdy i count => exact (dealing_updateRdy i count c).lending.manned
  | sendRdy i count => exact (lending_sendRdy i count c).manned
  | refill i => exact (dealing_refill i c).lending.manned
  | retry addr count => exact (dealing_retry addr count c).lending.manned
  | signal s => exact (dealing_signal env.chance s c).lending.manned
  | resume => exact (dealing_resume env.chance c).lending.manned
  | redistribute => exact (dealing_redistribute env.chance c).lending.manned
  | respread => exact { Manned.refl c with }
  | changeMaxInFlight n => exact (dealing_changeMaxInFlight n c).lending.manned
  | handle n h => exact manned_finishHandling env.chance n h c
  | call n k => exact manned_call env.chance n k c
  | addHandlers n =>
    simp only [act, replying, addHandlers]
    split_ifs
    · exact .refl c
    · exact { Manned.refl c with handlers := Nat.le_add_right _ _ }
  | dropLookup addr =>
    simp only [act, replying, dropLookup]
    split_ifs <;> exact { Manned.refl c with }
  | _ => simp [Act.isBrief] at ha

theorem manned_disconnect (addr : String) (c : Consumer) : Manned c (c.disconnect addr).2 := by
  have hd : Manned c { c with daemons := c.daemons.erase addr } := { Manned.refl c with }
  unfold disconnect
  split_ifs
  · dsimp only
    split
    · exact hd.trans (manned_modifyConn Connection.steady_close _ _)
    · exact hd
  · exact .refl c

/-! ### Reading -/

theorem manned_refill (i : Nat) (c : Consumer) : Manned c (c.refill i) :=
  (dealing_refill i c).lending.manned

theorem links_ne_nil {conn : Connection} (hi : c.conn? i = some conn) : c.links ≠ [] := by
  intro hnil
  simp [conn?, hnil] at hi

/-- While handlers are served, a link may offer them something. -/
theorem Manned.offering (h : Manned c c') (hl : c.links ≠ []) (hs : c.serving = true)
    (os : List Offer) : Manned c { c' with offers := os } :=
  { h with offers := .inr ⟨hl, hs⟩ }

theorem manned_offer (chance : Nat → Nat) (m : Message) (h : c.links ≠ []) (i : Nat) :
    Manned c (c.offer chance i m) := by
  have hheard : ∀ l : Link, l.Later { l with idle := false, heard := l.heard + 1 } :=
    fun _ => ⟨rfl, rfl, id⟩
  have hstall : ∀ l : Link, l.Later { l with conn := { l.conn with stalled := true } } :=
    fun _ => ⟨rfl, rfl, id⟩
  have hm : Manned c ({ c with
      totalRdy := word64 (c.totalRdy - 1), received := c.received + 1 } : Consumer) :=
    { Manned.refl c with }
  have hl := hm.trans (manned_modifyLink hheard i _)
  unfold offer
  dsimp only
  split_ifs with hs
  · exact (hl.offering h hs _).trans (manned_modifyLink hstall i _)
  · calc
      Manned c _ := hl
      Manned _ _ := manned_refill i _
      Manned _ _ := manned_passAll chance i m _ _

theorem manned_note (chance : Nat → Nat) (e : Connection.Event) (h : c.links ≠ []) (i : Nat) :
    Manned c (c.note chance i e) := by
  cases e with
  | response data =>
    unfold note
    dsimp only
    split_ifs
    · exact manned_modifyConn Connection.steady_close i c
    · exact .refl c
  | message m rdy inFlight => exact manned_offer chance m h i
  | _ => exact .refl c

theorem later_lookUpUnlessStalled (l : Link) :
    l.Later (if l.conn.stalled then l else { l with conn := l.conn.lookUp }) := by
  split_ifs
  · exact .refl l
  · exact .of_steady (Connection.steady_lookUp l.conn)

theorem manned_readLink (h : c.readLink chance i = some c') : Manned c c' := by
  unfold readLink at h
  cases hi : c.conn? i with
  | none => simp [hi] at h
  | some conn =>
    rw [hi] at h
    obtain ⟨⟨events, conn'⟩, hread, rfl⟩ := Option.map_eq_some_iff.mp h
    have hp : Manned c (c.putConn i conn') := by
      obtain ⟨-, -, hu | ⟨m, rest, rfl, -⟩⟩ := Connection.read_cases hread
      · exact manned_putConn hi hu.steady.address hu.steady.maxRdy fun e => hu.steady.closed ▸ e
      · exact manned_putConn hi rfl rfl id
    -- a link that reads is there, and stays there whatever it brings
    have hn : Manned c (events.foldl (fun c e => c.note chance i e) (c.putConn i conn')) :=
      List.foldlRecOn (motive := Manned c) events _ hp fun d hd e _ =>
        hd.trans (manned_note chance e (mt hd.links.nil_iff.mp (links_ne_nil hi)) i)
    exact hn.trans (manned_modifyLink later_lookUpUnlessStalled i _)

/-! ### Taking messages -/

/-- The handlers that cannot take a message. -/
def engaged (c : Consumer) : Nat := c.lost + c.busy.length

/-- A handler takes a message: afterwards it is busy, lost, or free again, and it is lost only if it
panics when it is told that the message is given up. -/
structure Taken (c c' : Consumer) : Prop extends Beside c c' where
  givingUp : c'.givingUp = c.givingUp
  handlers : c'.handlers = c.handlers
  offers : c'.offers = c.offers
  engaged : c'.engaged ≤ c.engaged + 1
  lost : c'.lost = c.lost ∨ c'.lost = c.lost + 1 ∧ c.givingUp.verdict.isPanic = true

theorem Manned.taken (h : Manned c c') (ho : c'.offers = c.offers)
    (hh : c'.handlers = c.handlers) : Taken c c' where
  toBeside := h.toBeside
  givingUp := h.givingUp
  handlers := hh
  offers := ho
  engaged := by
    have hb := h.busy
    rw [Consumer.engaged, Consumer.engaged, h.lost]
    omega
  lost := .inl h.lost

/-- A handler that panics is lost. -/
theorem Manned.taken_lose (h : Manned c c') (ho : c'.offers = c.offers)
    (hh : c'.handlers = c.handlers) :
    Taken c (c'.lose c.givingUp.verdict.isPanic) := by
  cases hp : c.givingUp.verdict.isPanic with
  | false => exact h.taken ho hh
  | true =>
    exact { h.taken ho hh with
      engaged := by
        have hb := h.busy
        have hl := h.lost
        simp only [Consumer.engaged, lose, if_true]
        omega
      lost := .inr ⟨congrArg (· + 1) h.lost, hp⟩ }

theorem taken_take (chance : Nat → Nat) (o : Offer) (c : Consumer) : Taken c (c.take chance o) := by
  cases hx : o.message.isExhausted with
  | false =>
    rw [take_of_not_exhausted chance hx]
    exact { Beside.refl c with
      givingUp := rfl
      handlers := rfl
      offers := rfl
      engaged := by simp only [engaged, List.length_append, List.length_singleton]; omega
      lost := .inl rfl }
  | true =>
    rw [take_of_exhausted chance hx]
    set d : Consumer := { c with handed := c.handed ++ [o.handed], failed := c.failed + 1 } with hd
    have hm : Manned c d := { Manned.refl c with }
    have hp := passed_passAll chance o.handed.link o.handed.message
      (o.handed.state.calls c.givingUp.parting).1
      (d.putState c.handed.length (o.handed.state.calls c.givingUp.parting).2)
    have ha : Manned c (d.afterCalls chance c.handed.length o.handed c.givingUp.parting) :=
      calc
        Manned c d := hm
        Manned _ _ := manned_putState _ _ d
        Manned _ _ := manned_passAll _ _ _ _ _
    exact ha.taken_lose hp.offers hp.handlers

theorem Taken.after (ht : Taken c' c'') (h : Manned c c') (ho : c'.offers = c.offers)
    (hh : c'.handlers = c.handlers) : Taken c c'' where
  toBeside := h.toBeside.trans ht.toBeside
  givingUp := ht.givingUp.trans h.givingUp
  handlers := ht.handlers.trans hh
  offers := ht.offers.trans ho
  engaged := by
    have hb := h.busy
    have he := ht.engaged
    simp only [Consumer.engaged, h.lost] at he ⊢
    omega
  lost := by
    rw [← h.lost, ← h.givingUp]
    exact ht.lost

theorem Taken.modifyLink (h : Taken c c') {f : Link → Link} (hf : ∀ l : Link, l.Later (f l))
    (i : Nat) : Taken c (c'.modifyLink i f) :=
  { h with links := h.links.trans_later (manned_modifyLink hf i c').links }

/-- A free handler takes an offer. -/
theorem taken_handOver (chance : Nat → Nat) (o : Offer) (c : Consumer) :
    Taken c (c.handOver chance o) := by
  have hu : ∀ l : Link, l.Later l.unstall := fun _ => ⟨rfl, rfl, id⟩
  have hl := (dealing_refill o.link (c.modifyLink o.link Link.unstall)).lending
  have hr : Manned c ((c.modifyLink o.link Link.unstall).refill o.link) :=
    (manned_modifyLink hu o.link c).trans hl.manned
  exact ((taken_take chance o _).after hr hl.offers hl.handlers).modifyLink
    (fun l => .of_steady (Connection.steady_lookUp l.conn)) o.link

/-! ### Attempts, and links that leave the table and enter it -/

/-- The consumer with an address taken down as one to connect to. -/
def takenDown (addr : String) (c : Consumer) : Consumer :=
  { c.seeking addr with pending := c.pending ++ [addr] }

/-- But for its entry, the end of a link is booked beside everything. -/
theorem manned_unlink (i : Nat) (conn : Connection) (c : Consumer) :
    Manned (c.remove conn.address i) (c.unlink i conn) := by
  unfold unlink
  dsimp only
  split_ifs <;> exact { Manned.refl _ with }

/-- But for its entry, and that its address is pending no more, a link enters the table beside
everything. -/
theorem manned_goLive (addr : String) (i : Nat) (c : Consumer) :
    Manned ((c.unpend addr).enter addr i) (c.goLive addr i) := by
  have hs : Manned ((c.unpend addr).enter addr i)
      { (c.unpend addr).enter addr i with share := 0 } := { Manned.refl _ with }
  exact hs.trans (sharing_refillAll _ _).dealing.lending.manned

theorem manned_tellAll (cmd : Command) (is : List Nat) (c : Consumer) :
    Manned c (is.foldl (tell cmd) c) :=
  List.foldlRecOn (motive := Manned c) is _ (.refl c) fun d hd i _ => by
    have ht : d.tell cmd i = d.modifyConn i fun conn => (conn.write cmd).2.2 := modifyConn_eq i _ d
    rw [ht]
    exact hd.trans (manned_modifyConn (Connection.steady_write cmd) i d)

theorem manned_subscribe (i : Nat) (c : Consumer) : Manned c (c.subscribe i).2 := by
  cases hi : c.conn? i with
  | none => simpa [subscribe, hi] using .refl c
  | some conn =>
    rcases subscribe_cases hi with ⟨f, h⟩ | ⟨sent, h, -⟩ <;> rw [h]
    · exact manned_putConn hi (show conn.close.address = _ from rfl) rfl id
    · exact manned_putConn hi rfl rfl id

theorem manned_seekAgain (addr : String) (c : Consumer) : Manned c (c.seekAgain addr) := by
  unfold seekAgain
  split_ifs <;> exact { Manned.refl c with }

end Consumer

namespace Underway

variable {s : Underway} {t : Turn}

/-! ### What a turn does -/

/-- What may become of a consumer in a turn. Whatever is done with an attempt, it is there when the
turn is taken. -/
inductive Turned (t : Turn) (s : Underway) : Underway → Prop
  | manned {c : Consumer} (h : s.consumer.Manned c) : Turned t s (s.put c)
  | instruct {h : Handling} (ht : t = .instruct h) :
      Turned t s (s.put { s.consumer with givingUp := h })
  | take {c : Consumer} {o : Offer} {rest : List Offer} (ho : s.consumer.offers = o :: rest)
      (hf : 0 < s.consumer.freeHandlers)
      (h : Consumer.Taken { s.consumer with offers := rest } c) : Turned t s (s.put c)
  | leave : Turned t s (s.put s.consumer.leave)
  | takeDown {addr : String} (h : s.consumer.Dials addr) :
      Turned t s
        { s.put (s.consumer.takenDown addr) with attempts := s.attempts ++ [{ addr }] }
  | fail {k : Nat} {a : Attempt} {c : Consumer} (hk : s.attempts[k]? = some a)
      (h : s.consumer.Manned c) : Turned t s (s.giveUp k a.addr c)
  | dial {k : Nat} {addr : String} {closing : Bool} {l : Link} {c : Consumer}
      (hk : s.attempts[k]? = some ⟨addr, .takenDown closing⟩) (ha : l.conn.address = addr)
      (h : (s.consumer.openLink l).2.Manned c) :
      Turned t s
        { s.put c with attempts := s.attempts.set k ⟨addr, .opened s.consumer.links.length⟩ }
  | goOn {k : Nat} {a b : Attempt} {c : Consumer} (hk : s.attempts[k]? = some a)
      (ha : b.addr = a.addr) (hl : b.link? = a.link?) (h : s.consumer.Manned c) :
      Turned t s { s.put c with attempts := s.attempts.set k b }
  | enter {k i : Nat} {addr : String} {c : Consumer}
      (hk : s.attempts[k]? = some ⟨addr, .subscribed i⟩)
      (h : ((s.consumer.unpend addr).enter addr i).Manned c) :
      Turned t s
        { s.put c with
          attempts := s.attempts.eraseIdx k
          history := s.history ++ [.entered i] }
  | finish {i : Nat} {conn conn' : Connection} {c c' : Consumer}
      (hi : s.consumer.conn? i = some conn) (ho : conn.closed = false) (h : s.consumer.Manned c)
      (hc : c.conn? i = some conn') (hc' : conn'.closed = true)
      (h' : (c.remove conn.address i).Manned c') :
      Turned t s
        { s.put c' with
          reports := s.reports ++ [⟨conn.address, c'.live.length⟩]
          history := s.history ++ [.ended i] }
  | conclude {k : Nat} {r : Report} {c : Consumer} (hk : s.reports[k]? = some r)
      (hr : s.consumer.stopping = true → r.left ≠ 0) (h : s.consumer.Manned c) :
      Turned t s { s.put c with reports := s.reports.eraseIdx k }
  | shut {k : Nat} {r : Report} (hk : s.reports[k]? = some r) (hs : s.consumer.stopping = true)
      (hr : r.left = 0) :
      Turned t s ({ s with reports := s.reports.eraseIdx k } : Underway).stopServing
  | stop (hs : s.consumer.stopping = false) :
      Turned t s { s.put { s.consumer with stopping := true } with looking := true }
  | look {c : Consumer} (hl : s.looking = true) (hlive : s.consumer.live ≠ [])
      (h : s.consumer.Manned c) :
      Turned t s
        { s.put c with
          looking := false
          history := s.history ++ [.looked s.consumer.live.length] }
  | lookInVain (hl : s.looking = true) (hlive : s.consumer.live = []) :
      Turned t s
        ({ s with looking := false, history := s.history ++ [.looked 0] } : Underway).stopServing

theorem Turned.refl (t : Turn) (s : Underway) : Turned t s s := .manned (.refl s.consumer)

theorem turned_take (chance : Nat → Nat) (s : Underway) : Turned t s (s.take chance) := by
  unfold take
  split
  · exact .refl t s
  · rename_i o rest ho
    split_ifs with hf
    · exact .take ho hf (Consumer.taken_handOver chance o _)
    · exact .refl t s

theorem turned_takeDown (addr : String) (s : Underway) : Turned t s (s.takeDown addr) := by
  unfold takeDown
  rcases Consumer.takeDown_cases addr s.consumer with ⟨-, f, b, h⟩ | ⟨hd, h⟩ <;> rw [h]
  · exact .manned { Consumer.Manned.refl s.consumer with }
  · exact .takeDown hd

theorem turned_dial (k : Nat) (outcome : Except Failure Dialed) (s : Underway) :
    Turned t s (s.dial k outcome) := by
  unfold dial
  split
  · rename_i addr closing hk
    cases outcome with
    | error f => exact .fail hk (.refl s.consumer)
    | ok d =>
      refine .dial (l := s.consumer.linkTo addr d) hk rfl ?_
      split_ifs
      · exact Consumer.manned_modifyConn Connection.steady_close _ _
      · exact .refl _
  · exact .refl t s

theorem turned_subscribe (k : Nat) (s : Underway) : Turned t s (s.subscribe k) := by
  unfold subscribe
  split
  · rename_i addr i hk
    have hm := Consumer.manned_subscribe i s.consumer
    split <;> rename_i heq <;> rw [heq] at hm
    · exact .fail hk hm
    · exact .goOn hk rfl rfl hm
  · exact .refl t s

theorem turned_enter (k : Nat) (s : Underway) : Turned t s (s.enter k) := by
  unfold enter
  split
  · rename_i addr i hk
    exact .enter hk (Consumer.manned_goLive addr i s.consumer)
  · exact .refl t s

theorem turned_disconnect (addr : String) (s : Underway) : Turned t s (s.disconnect addr) := by
  have hd := Consumer.manned_disconnect addr s.consumer
  unfold disconnect
  dsimp only
  split_ifs
  · split
    · rename_i a k hfind
      have hk := List.mem_zipIdx_iff_getElem?.mp (List.mem_of_find?_eq_some hfind)
      unfold callOff
      split
      · rename_i hl
        exact .goOn hk rfl hl.symm hd
      · exact .manned (hd.trans (Consumer.manned_modifyConn Connection.steady_close _ _))
    · exact .manned hd
  · exact .manned hd

theorem turned_settle (i : Nat) (s : Underway) : Turned t s (s.settle i) := by
  unfold settle
  cases hi : s.consumer.conn? i with
  | none => exact .refl t s
  | some conn =>
    have hs := Connection.steady_settled conn
    rcases conn.settle_cases with ⟨hset, -⟩ | ⟨hset, ho, -⟩
    · simp only [hset]
      exact .manned (Consumer.manned_putConn hi hs.address hs.maxRdy fun e => hs.closed ▸ e)
    · obtain ⟨conn', hconn⟩ : ∃ conn' : Connection, conn' = { conn.settled with closed := true } :=
        ⟨_, rfl⟩
      rw [← hconn] at hset
      have ha : conn'.address = conn.address := hconn ▸ hs.address
      have hm : conn'.maxRdy = conn.maxRdy := hconn ▸ hs.maxRdy
      have hc : conn'.closed = true := by rw [hconn]
      have hu := Consumer.manned_unlink i conn' (s.consumer.putConn i conn')
      simp only [hset, List.isEmpty_cons, Bool.false_eq_true, if_false]
      rw [ha] at hu ⊢
      exact .finish hi ho (Consumer.manned_putConn hi ha hm fun _ => hc)
        (Consumer.conn?_putConn_self hi conn') hc hu

theorem turned_conclude (k : Nat) (s : Underway) : Turned t s (s.conclude k) := by
  unfold conclude
  split
  · exact .refl t s
  · rename_i r hk
    dsimp only
    split_ifs with hs hr
    · exact .shut hk hs hr
    · exact .conclude hk (fun _ => hr) (.refl s.consumer)
    · exact .conclude hk (fun h => absurd h hs) (Consumer.manned_seekAgain r.addr s.consumer)

theorem turned_look (s : Underway) : Turned t s s.look := by
  unfold look
  dsimp only
  split_ifs with hl hlive
  · rw [List.isEmpty_iff] at hlive
    rw [hlive]
    exact .lookInVain hl hlive
  · rw [List.isEmpty_iff] at hlive
    exact .look hl hlive (Consumer.manned_tellAll .startClose s.consumer.walk s.consumer)
  · exact .refl t s

/-- **A turn does one of these things.** -/
theorem turned (t : Turn) (s : Underway) : Turned t s (s.turn t) := by
  cases t with
  | act env a =>
    unfold turn
    dsimp only
    split_ifs with ha
    · exact .manned (Consumer.manned_act ha env s.consumer)
    · exact .refl _ s
  | instruct h => exact .instruct rfl
  | take chance => exact turned_take chance s
  | read chance i =>
    unfold turn
    dsimp only
    cases hr : s.consumer.readLink chance i with
    | none => exact .refl _ s
    | some c => exact .manned (Consumer.manned_readLink hr)
  | leave => exact .leave
  | locate w => exact .manned { Consumer.Manned.refl s.consumer with }
  | takeDown addr => exact turned_takeDown addr s
  | dial k outcome => exact turned_dial k outcome s
  | subscribe k => exact turned_subscribe k s
  | enter k => exact turned_enter k s
  | disconnect addr => exact turned_disconnect addr s
  | settle i => exact turned_settle i s
  | conclude k => exact turned_conclude k s
  | stop =>
    unfold turn stop
    dsimp only
    split_ifs with hs
    · exact .refl _ s
    · exact .stop (by simpa using hs)
  | look => exact turned_look s

/-! ### Runs -/

theorem run_cons (t : Turn) (ts : List Turn) (s : Underway) : s.run (t :: ts) = (s.turn t).run ts :=
  rfl

/-- What holds at the start and is kept by every turn holds whatever turns are taken. -/
theorem run_invariant {I : Underway → Prop} (ts : List Turn)
    (turn : ∀ s t s', I s → Turned t s s' → I s') (init : I s) : I (s.run ts) :=
  List.foldlRecOn (motive := I) ts _ init fun s hs t _ => turn s t _ hs (turned t s)

/-- A stop is asked for and looks at the table before the only link enters it. -/
def overtaken : List Turn :=
  [.act Consumer.silence (.addHandlers 1), .takeDown "h:1", .dial 0 (.ok { terms := none }),
    .subscribe 0, .stop, .look, .enter 0, .leave]

end Underway

end Nsq
