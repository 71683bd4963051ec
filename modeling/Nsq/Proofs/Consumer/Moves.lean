import Nsq.Proofs.Consumer.Grants
import Mathlib.Logic.Relation
import Mathlib.Tactic.Set

/-!
# Moves of a consumer

A step of a consumer performs an act and everything that follows from it. Here a step is taken apart
into **moves** (`Move`), each of which concerns one link or one message, or asks one of the
operations that deal credit out. `step_moves` says that every step is a sequence of moves, so that
an invariant of runs needs one case per kind of move.

Which acts a run may contain is a parameter: `Reaches ok c c'` says that a run leads from `c` to
`c'` all of whose acts were admitted by `ok` where they happened. Acts that deal credit out, or
concern the table of links, are moves of their own and keep what `ok` says about them.
-/

namespace Nsq

/-- A link as it is when it was just opened. -/
structure Link.Opened (policy : Connection.Policy) (l : Link) : Prop where
  policy : l.conn.policy = policy
  rdy : l.conn.rdy = 0
  lastRdy : l.conn.lastRdy = 0
  inFlight : l.conn.inFlight = 0
  reading : l.conn.reading = true
  draining : l.conn.draining = false
  closed : l.conn.closed = false
  stalled : l.conn.stalled = false
  heard : l.heard = 0

/-- A link that was just opened and may be used. -/
structure Link.Fresh (policy : Connection.Policy) (l : Link) : Prop extends l.Opened policy where
  closing : l.conn.closing = false

/-- What becomes of a link in the long run: it goes to the same daemon, and its end stays
reported. -/
structure Link.Later (l l' : Link) : Prop where
  address : l'.conn.address = l.conn.address
  maxRdy : l'.conn.maxRdy = l.conn.maxRdy
  closed : l.conn.closed = true → l'.conn.closed = true

theorem Link.Later.refl (l : Link) : l.Later l := ⟨rfl, rfl, id⟩

theorem Link.Later.trans {l₁ l₂ l₃ : Link} (h : l₁.Later l₂) (h' : l₂.Later l₃) : l₁.Later l₃ :=
  ⟨h'.address.trans h.address, h'.maxRdy.trans h.maxRdy, h'.closed ∘ h.closed⟩

/-- A link after a message has come over it; `stall` says whether reading waits for a handler. -/
def Link.hearing (conn : Connection) (stall : Bool) (l : Link) : Link where
  conn := { conn with stalled := stall }
  idle := false
  heard := l.heard + 1

/-- A link that reads on once a handler has taken its message. -/
def Link.unstall (l : Link) : Link := { l with conn := { l.conn with stalled := false } }

/-- The link of a message that a handler got, and whether it has its final answer. -/
def Handed.standing (h : Handed) : Nat × Bool := (h.link, h.state.responded)

namespace Consumer

/-! ### Moves -/

/-- An act that deals credit out, or concerns the table of links. -/
def Act.isDirect : Act → Bool
  | .attach _ | .retire _ | .updateRdy _ _ | .sendRdy _ _ | .retry _ _ | .resume | .redistribute
  | .changeMaxInFlight _ => true
  | _ => false

/-- A change of what neither credit nor messages depend on, but that the share of the idle policy
may be forgotten. Handlers stop being served only when a stop was asked for. -/
structure Noted (c c' : Consumer) : Prop where
  subscription : c'.subscription = c.subscription
  received : c'.received = c.received
  finished : c'.finished = c.finished
  requeued : c'.requeued = c.requeued
  totalRdy : c'.totalRdy = c.totalRdy
  maxInFlight : c'.maxInFlight = c.maxInFlight
  share : c'.share = c.share ∨ c'.share = 0
  respread : c'.respread = c.respread
  retries : c'.retries = c.retries
  level : c'.level = c.level
  pause : c'.pause = c.pause
  armed : c'.armed = c.armed
  links : c'.links = c.links
  live : c'.live = c.live
  offers : c'.offers = c.offers
  standings : c'.handed.map Handed.standing = c.handed.map Handed.standing
  stopping : c'.stopping = c.stopping
  serving : c'.serving = c.serving ∨ c'.serving = false ∧ c.stopping = true

/-- The consumer when a message comes over a link; it is offered while handlers are served. -/
def takeIn (i : Nat) (m : Message) (conn : Connection) (c : Consumer) : Consumer :=
  let c' : Consumer :=
    { c with
      totalRdy := word64 (c.totalRdy - 1)
      received := c.received + 1
      offers := if c.serving then c.offers ++ [⟨i, m⟩] else c.offers }
  c'.modifyLink i (Link.hearing conn c.serving)

/-- The consumer when a handler takes the oldest offer. -/
def assign (o : Offer) (rest : List Offer) (c : Consumer) : Consumer :=
  let h : Handed := { message := o.message, link := o.link }
  let c' : Consumer := { c with offers := rest, handed := c.handed ++ [h] }
  c'.modifyLink o.link Link.unstall

/-- The consumer when a new link enters the table. -/
def welcome (l : Link) (c : Consumer) : Consumer :=
  (c.openLink l).2.enter l.conn.address c.links.length

/-- Something that happens to one link or one message, or one operation that deals credit out. -/
inductive Move (ok : Surroundings → Act → Consumer → Prop) (c : Consumer) : Consumer → Prop
  | note {c' : Consumer} (h : Noted c c') : Move ok c c'
  | adjust {i : Nat} {f : Link → Link} (h : ∀ l, c.links[i]? = some l → l.Quiet (f l)) :
      Move ok c (c.modifyLink i f)
  | refill (i : Nat) : Move ok c (c.refill i)
  | signal (chance : Nat → Nat) (s : Signal) : Move ok c (c.signal chance s)
  | respread : Move ok c { c with respread := true }
  | stop : Move ok c { c with stopping := true }
  | reject {l : Link} (h : l.Opened c.policy) (hc : l.conn.closing = true)
      (ht : l.conn.told = []) : Move ok c (c.openLink l).2
  | join {l : Link} (h : l.Fresh c.policy) (hs : c.serving? l.conn.address = none)
      (ht : l.conn.told = []) : Move ok c (c.welcome l)
  | arrive {i : Nat} {conn : Connection} (m : Message) (rest : Octets)
      (hi : c.conn? i = some conn) (hr : conn.reading = true) (hs : conn.stalled = false) :
      Move ok c (c.takeIn i m ({ conn with unread := rest } : Connection).arrive)
  | bounce {chance : Nat → Nat} (i : Nat) (m : Message) (a : Answer) (h : c.serving = false) :
      Move ok c (c.passAnswer chance i m a)
  | take {o : Offer} {rest : List Offer} (h : c.offers = o :: rest) : Move ok c (c.assign o rest)
  | answer {chance : Nat → Nat} {n : Nat} {h : Handed} (a : Answer) (hn : c.handed[n]? = some h)
      (hr : h.state.responded = false) :
      Move ok c ((c.putState n { h.state with responded := true }).passAnswer chance h.link
        h.message a)
  | settle (i : Nat) : Move ok c (c.settleLink i)
  | direct {env : Surroundings} {a : Act} (h : ok env a c) (ha : a.isDirect = true) :
      Move ok c (c.act env a).2

/-- A sequence of moves. -/
abbrev Moves (ok : Surroundings → Act → Consumer → Prop) : Consumer → Consumer → Prop :=
  Relation.ReflTransGen (Move ok)

/-- A run leads from one consumer to another, with acts that were admitted. -/
inductive Reaches (ok : Surroundings → Act → Consumer → Prop) (c : Consumer) : Consumer → Prop
  | refl : Reaches ok c c
  | step {c' : Consumer} {env : Surroundings} {a : Act} (h : Reaches ok c c') (ha : ok env a c') :
      Reaches ok c (c'.step env a).2

/-- The consumer after acts one after another. -/
def stepAll (env : Surroundings) (acts : List Act) (c : Consumer) : Consumer :=
  acts.foldl (fun c a => (c.step env a).2) c

/-- All of some acts are admitted, each where it happens. -/
def Admits (ok : Surroundings → Act → Consumer → Prop) (env : Surroundings) :
    List Act → Consumer → Prop
  | [], _ => True
  | a :: acts, c => ok env a c ∧ Admits ok env acts (c.step env a).2

section

variable {ok : Surroundings → Act → Consumer → Prop}

theorem Reaches.trans {c c' c'' : Consumer} (h : Reaches ok c c') (h' : Reaches ok c' c'') :
    Reaches ok c c'' := by
  induction h' with
  | refl => exact h
  | step _ ha ih => exact ih.step ha

theorem Reaches.mono {ok' : Surroundings → Act → Consumer → Prop}
    (hok : ∀ env a c, ok env a c → ok' env a c) {c c' : Consumer} (h : Reaches ok c c') :
    Reaches ok' c c' := by
  induction h with
  | refl => exact .refl
  | step _ ha ih => exact ih.step (hok _ _ _ ha)

/-- Acts that are admitted make a run. -/
theorem reaches_stepAll {env : Surroundings} {acts : List Act} {c : Consumer}
    (h : Admits ok env acts c) : Reaches ok c (c.stepAll env acts) := by
  induction acts generalizing c with
  | nil => exact .refl
  | cons a acts ih => exact (Reaches.refl.step h.1).trans (ih h.2)

/-- What a program performs is a run: the end of a pause of no length, and the act. -/
theorem reaches_perform {checks : Bool} {env : Surroundings} {a : Act} {c : Consumer}
    {done : Reply × Consumer} (hd : c.perform checks env a = .ok done)
    (hr : c.armed = true → ok env .resume c) (ha : ok env a (c.elapse env)) :
    Reaches ok c done.2 := by
  have helapse : Reaches ok c (c.elapse env) := by
    unfold elapse
    split_ifs with hz
    · rw [Bool.and_eq_true] at hz
      exact Reaches.refl.step (hr hz.1)
    · exact .refl
  rw [← step_eq_of_perform hd]
  exact helapse.step ha

theorem Move.mono {ok' : Surroundings → Act → Consumer → Prop}
    (hok : ∀ env a c, ok env a c → ok' env a c) {c c' : Consumer} (h : Move ok c c') :
    Move ok' c c' := by
  cases h with
  | note h => exact .note h
  | adjust h => exact .adjust h
  | refill i => exact .refill i
  | signal chance s => exact .signal chance s
  | respread => exact .respread
  | stop => exact .stop
  | reject h hc ht => exact .reject h hc ht
  | join h hs ht => exact .join h hs ht
  | arrive m rest hi hr hs => exact .arrive m rest hi hr hs
  | bounce i m a h => exact .bounce i m a h
  | take h => exact .take h
  | answer a hn hr => exact .answer a hn hr
  | settle i => exact .settle i
  | direct h ha => exact .direct (hok _ _ _ h) ha

/-! ### Direct acts -/

/-- A direct act attaches a link, reports an end, books a grant as it is, or deals credit out. -/
theorem direct_cases {env : Surroundings} {a : Act} (ha : a.isDirect = true) (c : Consumer) :
    (∃ link, a = .attach link) ∨ (∃ i, a = .retire i) ∨ (∃ i count, a = .sendRdy i count) ∨
      Dealing c (c.act env a).2 := by
  cases a with
  | attach link => exact .inl ⟨link, rfl⟩
  | retire i => exact .inr (.inl ⟨i, rfl⟩)
  | sendRdy i count => exact .inr (.inr (.inl ⟨i, count, rfl⟩))
  | updateRdy i count => exact .inr (.inr (.inr (dealing_updateRdy i count c)))
  | retry addr count => exact .inr (.inr (.inr (dealing_retry addr count c)))
  | resume => exact .inr (.inr (.inr (dealing_resume env.chance c)))
  | redistribute => exact .inr (.inr (.inr (dealing_redistribute env.chance c)))
  | changeMaxInFlight n => exact .inr (.inr (.inr (dealing_changeMaxInFlight n c)))
  | _ => simp [Act.isDirect] at ha

/-- A direct act attaches a link, reports an end, or changes links by grants alone. -/
theorem direct_lending_cases {env : Surroundings} {a : Act} (ha : a.isDirect = true)
    (c : Consumer) :
    (∃ link, a = .attach link) ∨ (∃ i, a = .retire i) ∨ Lending c (c.act env a).2 := by
  obtain h | h | ⟨i, count, rfl⟩ | h := direct_cases ha c
  · exact .inl h
  · exact .inr (.inl h)
  · exact .inr (.inr (lending_sendRdy i count c))
  · exact .inr (.inr h.lending)

/-! ### Messages and credit do not depend on each other

Whatever is done about credit is done without looking at the messages that handlers have or wait
for, and answers go to links without looking at them either. -/

/-- The consumer with other messages for its handlers. -/
def restock (offers : List Offer) (handed : List Handed) (c : Consumer) : Consumer :=
  { c with offers := offers, handed := handed }

variable (os : List Offer) (hs : List Handed)

theorem sendRdy_restock (i : Nat) (n : Int) (c : Consumer) :
    (c.restock os hs).sendRdy i n = ((c.sendRdy i n).1, (c.sendRdy i n).2.restock os hs) := by
  have hc : (c.restock os hs).conn? i = c.conn? i := rfl
  unfold sendRdy
  rw [hc]
  cases c.conn? i with
  | none => rfl
  | some conn =>
    dsimp only
    split_ifs
    · rfl
    · rcases Connection.write_cases (.ready n) (conn.setRdy n).2 with ⟨f, h⟩ | h <;>
        simp only [h] <;> rfl

theorem updateRdy_restock (i : Nat) (count : Int) (c : Consumer) :
    (c.restock os hs).updateRdy i count =
      ((c.updateRdy i count).1, (c.updateRdy i count).2.restock os hs) := by
  have hc : (c.restock os hs).conn? i = c.conn? i := rfl
  unfold updateRdy
  rw [hc]
  cases hi : c.conn? i with
  | none => rfl
  | some conn =>
    have hd : (c.restock os hs).measure conn = (c.measure conn).restock os hs := rfl
    have hr : ((c.measure conn).restock os hs).roomFor conn.rdy =
        (c.measure conn).roomFor conn.rdy := rfl
    dsimp only
    rw [hd, hr]
    split_ifs
    · rfl
    · rfl
    · rfl
    all_goals exact sendRdy_restock os hs i _ _

theorem grant_restock (i : Nat) (count : Int) (c : Consumer) :
    (c.restock os hs).grant i count = (c.grant i count).restock os hs := by
  rw [grant, updateRdy_restock, grant]

theorem grantAll_restock (is : List Nat) (count : Int) (c : Consumer) :
    (c.restock os hs).grantAll is count = (c.grantAll is count).restock os hs := by
  induction is generalizing c with
  | nil => rfl
  | cons i is ih =>
    have h : ∀ c : Consumer, c.grantAll (i :: is) count = (c.grant i count).grantAll is count :=
      fun _ => rfl
    rw [h, grant_restock, ih, h]

theorem refill_restock (i : Nat) (c : Consumer) :
    (c.restock os hs).refill i = (c.refill i).restock os hs := by
  have hb : (c.restock os hs).inBackoff = c.inBackoff := rfl
  have hp : (c.restock os hs).inPause = c.inPause := rfl
  have hc : (c.restock os hs).conn? i = c.conn? i := rfl
  have hl : (c.restock os hs).perLink = c.perLink := rfl
  unfold refill
  rw [hb, hp, hc, hl]
  split_ifs
  · rfl
  · cases c.conn? i with
    | none => rfl
    | some conn =>
      dsimp only
      split_ifs
      · exact grant_restock os hs i _ c
      · rfl

theorem signal_restock (chance : Nat → Nat) (s : Signal) (c : Consumer) :
    (c.restock os hs).signal chance s = (c.signal chance s).restock os hs := by
  have hp : (c.restock os hs).inPause = c.inPause := rfl
  have hl : (c.restock os hs).levelAfter s (chance 0) = c.levelAfter s (chance 0) := rfl
  unfold signal
  rw [hp, hl]
  have hg := fun count => grantAll_restock os hs c.walk count
    { c with level := (c.levelAfter s (chance 0)).1 }
  split_ifs
  · rfl
  · dsimp only
    split_ifs
    · exact hg c.perLink
    · rfl
    · exact congrArg (fun d : Consumer => d.rest _) (hg 0)

/-- What is done to the connection of a link if there is one is a change of the link. -/
theorem modifyConn_eq (i : Nat) (f : Connection → Connection) (c : Consumer) :
    (match c.conn? i with
      | none => c
      | some conn => c.putConn i (f conn)) = c.modifyConn i f := by
  cases h : c.links[i]? with
  | none =>
    have hc : c.conn? i = none := by simp [conn?, h]
    rw [hc, modifyConn, modifyLink, modify_of_getElem?_eq_none h]
  | some l =>
    rw [conn?_of_links h]
    simp only [putConn, modifyConn, modifyLink]
    congr 1
    refine List.ext_getElem? fun j => ?_
    rw [List.getElem?_modify, List.getElem?_modify]
    split_ifs with hij
    · rw [← hij, h]
      rfl
    · rfl

/-- The consumer after an answer was booked on a connection. -/
def countAnswer (a : Answer) (c : Consumer) : Consumer :=
  match a with
  | .finish => { c with finished := c.finished + 1 }
  | .requeue _ _ => { c with requeued := c.requeued + 1 }

/-- An answer on a connection whose end has begun is only counted by the connection. -/
theorem passAnswer_of_draining {chance : Nat → Nat} {i : Nat} {conn : Connection} {c : Consumer}
    (h : c.conn? i = some conn) (hd : conn.draining = true) (m : Message) (a : Answer) :
    c.passAnswer chance i m a = c.putConn i conn.countAnswer := by
  simp [passAnswer, h, hd]

/-- An answer is booked, heard as a signal, and then sent. -/
theorem passAnswer_of_not_draining {chance : Nat → Nat} {i : Nat} {conn : Connection} {c : Consumer}
    (h : c.conn? i = some conn) (hd : conn.draining = false) (m : Message) (a : Answer) :
    c.passAnswer chance i m a =
      (((c.putConn i conn.countAnswer).countAnswer a).signal chance a.signal).modifyConn i
        fun conn => (conn.sendAnswer m a).2 := by
  unfold passAnswer
  rw [h]
  simp only [hd, Bool.false_eq_true, if_false]
  refine (modifyConn_eq i (fun conn => (conn.sendAnswer m a).2) _).trans ?_
  cases a <;> rfl

theorem passAnswer_of_none {chance : Nat → Nat} {i : Nat} {c : Consumer} (h : c.conn? i = none)
    (m : Message) (a : Answer) : c.passAnswer chance i m a = c := by
  simp [passAnswer, h]

/-- What is kept when an answer is counted by its connection, booked, heard as a signal and sent is
kept when it passes. -/
theorem passAnswer_invariant {I : Consumer → Prop} {chance : Nat → Nat} {i : Nat} {m : Message}
    {a : Answer} {c : Consumer} (init : I c)
    (count : ∀ conn, c.conn? i = some conn → I (c.putConn i conn.countAnswer))
    (book : ∀ c, I c → I (c.countAnswer a)) (signal : ∀ c, I c → I (c.signal chance a.signal))
    (send : ∀ c, I c → I (c.modifyConn i fun conn => (conn.sendAnswer m a).2)) :
    I (c.passAnswer chance i m a) := by
  cases hi : c.conn? i with
  | none => rwa [passAnswer_of_none hi]
  | some conn =>
    have hc := count conn hi
    cases hd : conn.draining with
    | true => rwa [passAnswer_of_draining hi hd]
    | false =>
      rw [passAnswer_of_not_draining hi hd]
      exact send _ (signal _ (book _ hc))

/-- What answers on their way leave alone. -/
structure Passed (c c' : Consumer) : Prop where
  received : c'.received = c.received
  live : c'.live = c.live
  handed : c'.handed = c.handed
  offers : c'.offers = c.offers
  serving : c'.serving = c.serving
  stopping : c'.stopping = c.stopping
  daemons : c'.daemons = c.daemons
  reconnects : c'.reconnects = c.reconnects
  staff : c'.staff = c.staff
  handlers : c'.handlers = c.handlers
  pending : c'.pending = c.pending
  connected : c'.connected = c.connected
  exited : c'.exited = c.exited

theorem Passed.refl (c : Consumer) : Passed c c :=
  ⟨rfl, rfl, rfl, rfl, rfl, rfl, rfl, rfl, rfl, rfl, rfl, rfl, rfl⟩

theorem Passed.trans {c c' c'' : Consumer} (h : Passed c c') (h' : Passed c' c'') :
    Passed c c'' where
  received := h'.received.trans h.received
  live := h'.live.trans h.live
  handed := h'.handed.trans h.handed
  offers := h'.offers.trans h.offers
  serving := h'.serving.trans h.serving
  stopping := h'.stopping.trans h.stopping
  daemons := h'.daemons.trans h.daemons
  reconnects := h'.reconnects.trans h.reconnects
  staff := h'.staff.trans h.staff
  handlers := h'.handlers.trans h.handlers
  pending := h'.pending.trans h.pending
  connected := h'.connected.trans h.connected
  exited := h'.exited.trans h.exited

theorem Lending.passed {c c' : Consumer} (h : Lending c c') : Passed c c' :=
  ⟨h.received, h.live, h.handed, h.offers, h.serving, h.stopping, h.daemons, h.reconnects, h.staff,
    h.handlers, h.pending, h.connected, h.exited⟩

theorem passed_passAnswer (chance : Nat → Nat) (i : Nat) (m : Message) (a : Answer)
    (c : Consumer) : Passed c (c.passAnswer chance i m a) := by
  refine passAnswer_invariant (.refl c) ?_ ?_ ?_ ?_
  · exact fun _ _ => { Passed.refl c with }
  · intro d hd
    cases a <;> exact { hd with }
  · exact fun d hd => hd.trans (dealing_signal chance a.signal d).lending.passed
  · exact fun d hd => { hd with }

theorem passed_passAll (chance : Nat → Nat) (i : Nat) (m : Message) (rs : List Request)
    (c : Consumer) : Passed c (c.passAll chance i m rs) := by
  refine List.foldlRecOn (motive := Passed c) rs _ (.refl c) fun d hd r _ => hd.trans ?_
  cases r with
  | answer a => exact passed_passAnswer chance i m a d
  | touch =>
    have ht : d.pass chance i m .touch = d.modifyConn i fun conn => (conn.touch m).2 :=
      modifyConn_eq i _ d
    rw [ht]
    exact { Passed.refl d with }

theorem passAnswer_restock (chance : Nat → Nat) (i : Nat) (m : Message) (a : Answer)
    (c : Consumer) :
    (c.restock os hs).passAnswer chance i m a = (c.passAnswer chance i m a).restock os hs := by
  have hc : (c.restock os hs).conn? i = c.conn? i := rfl
  cases h : c.conn? i with
  | none => rw [passAnswer_of_none h, passAnswer_of_none (hc.trans h)]
  | some conn =>
    cases hd : conn.draining with
    | true => rw [passAnswer_of_draining h hd, passAnswer_of_draining (hc.trans h) hd]; rfl
    | false =>
      rw [passAnswer_of_not_draining h hd, passAnswer_of_not_draining (hc.trans h) hd]
      have hb : ((c.restock os hs).putConn i conn.countAnswer).countAnswer a =
          ((c.putConn i conn.countAnswer).countAnswer a).restock os hs := by
        cases a <;> rfl
      rw [hb, signal_restock]
      rfl

theorem passAll_restock (chance : Nat → Nat) (i : Nat) (m : Message) (rs : List Request)
    (c : Consumer) :
    (c.restock os hs).passAll chance i m rs = (c.passAll chance i m rs).restock os hs := by
  induction rs generalizing c with
  | nil => rfl
  | cons r rs ih =>
    have h : ∀ c : Consumer,
        c.passAll chance i m (r :: rs) = (c.pass chance i m r).passAll chance i m rs := fun _ => rfl
    have hp : (c.restock os hs).pass chance i m r = (c.pass chance i m r).restock os hs := by
      cases r with
      | answer a => exact passAnswer_restock os hs chance i m a c
      | touch =>
        have ht : ∀ c : Consumer, c.pass chance i m .touch =
            c.modifyConn i fun conn => (conn.touch m).2 := fun c => modifyConn_eq i _ c
        rw [ht, ht]
        rfl
    rw [h, hp, ih, h]

/-! ### The report of the end -/

/-- What the report of the end of a link does: its credit returns, its entry leaves the table, and
in a backoff the credit shall be spread anew if there was some to return. -/
structure Retired (i : Nat) (conn : Connection) (c c' : Consumer) : Prop where
  subscription : c'.subscription = c.subscription
  received : c'.received = c.received
  finished : c'.finished = c.finished
  requeued : c'.requeued = c.requeued
  maxInFlight : c'.maxInFlight = c.maxInFlight
  share : c'.share = 0
  level : c'.level = c.level
  pause : c'.pause = c.pause
  armed : c'.armed = c.armed
  links : c'.links = c.links
  offers : c'.offers = c.offers
  handed : c'.handed = c.handed
  stopping : c'.stopping = c.stopping
  pending : c'.pending = c.pending
  daemons : c'.daemons = c.daemons
  totalRdy : c'.totalRdy = word64 (c.totalRdy - conn.rdy)
  live : c'.live = c.live.filter fun e => e != (conn.address, i)
  retries : ∀ e ∈ c'.retries, e.1 ≠ conn.address ∧ e ∈ c.retries
  respread : c.respread = true ∨ 0 < conn.rdy ∧ 0 < c.level → c'.respread = true
  serving : c'.serving = c.serving ∨ c'.serving = false ∧ c.stopping = true

theorem retire_of_conn {i : Nat} {conn : Connection} {c : Consumer} (h : c.conn? i = some conn) :
    Retired i conn c (c.retire i) := by
  -- whether the consumer stops or seeks the daemon again is decided last and changes little
  have hlast : ∀ d, Retired i conn c d → Retired i conn c
      (if d.stopping then if d.live.isEmpty then d.stopServing else d
        else d.seekAgain conn.address) := by
    intro d hd
    have hs : d.stopping = c.stopping := hd.stopping
    unfold stopServing exit seekAgain
    dsimp only
    split_ifs with hstop
    · exact { hd with serving := .inr ⟨rfl, hs ▸ hstop⟩ }
    · exact { hd with serving := .inr ⟨rfl, hs ▸ hstop⟩ }
    all_goals exact { hd with }
  unfold retire
  rw [h]
  refine hlast _ ?_
  split_ifs with hf
  · exact ⟨rfl, rfl, rfl, rfl, rfl, rfl, rfl, rfl, rfl, rfl, rfl, rfl, rfl, rfl, rfl, rfl, rfl,
      fun _ => mem_dropRetry.mp, fun _ => rfl, .inl rfl⟩
  · refine ⟨rfl, rfl, rfl, rfl, rfl, rfl, rfl, rfl, rfl, rfl, rfl, rfl, rfl, rfl, rfl, rfl, rfl,
      fun _ => mem_dropRetry.mp, ?_, .inl rfl⟩
    rintro (hr | ⟨hr, hl⟩)
    · exact hr
    · have hb : c.inBackoff = true := by simpa [inBackoff] using hl
      have hfree : c.freesCredit conn = true := by simp [freesCredit, hr]
      -- credit that is freed in a backoff sets the flag
      refine absurd ?_ hf
      rw [hfree, Bool.true_and, Bool.or_eq_true]
      exact .inr hb

/-- Settling a link leaves it as it settles, and reports its end where that is due. -/
theorem settleLink_cases {i : Nat} {conn : Connection} {c : Consumer} (h : c.conn? i = some conn) :
    (c.settleLink i = c.putConn i conn.settled ∧
        (conn.settled.isDrained = true → conn.closed = true)) ∨
      (conn.closed = false ∧ conn.settled.isDrained = true ∧
        Retired i { conn.settled with closed := true }
          (c.putConn i { conn.settled with closed := true }) (c.settleLink i)) := by
  unfold settleLink
  rw [h]
  rcases conn.settle_cases with ⟨hs, hd⟩ | ⟨hs, hc, hd⟩
  · refine .inl ⟨?_, hd⟩
    simp [hs]
  · refine .inr ⟨hc, hd, ?_⟩
    simp only [hs, List.isEmpty_cons, Bool.false_eq_true, if_false]
    exact retire_of_conn (conn?_putConn_self h _)

/-- Of the links, settling one concerns no other. -/
theorem links_settleLink {i : Nat} {conn : Connection} {c : Consumer} (hi : c.conn? i = some conn) :
    (c.settleLink i).links = (c.putConn i conn.settle.2).links := by
  have hr := (retire_of_conn (conn?_putConn_self hi conn.settle.2)).links
  unfold settleLink
  rw [hi]
  dsimp only
  split_ifs
  · rfl
  · exact hr

theorem settleLink_of_none {i : Nat} {c : Consumer} (h : c.conn? i = none) :
    c.settleLink i = c := by
  simp [settleLink, h]

/-! ### What moves never take back -/

/-- Links stay, and what was received was received. -/
structure Grown (c c' : Consumer) : Prop where
  links : ∀ (i : Nat) (l : Link), c.links[i]? = some l → ∃ l', c'.links[i]? = some l' ∧ l.Later l'
  received : c.received ≤ c'.received

namespace Grown

variable {c c' c'' : Consumer}

theorem refl (c : Consumer) : Grown c c :=
  ⟨fun _ l h => ⟨l, h, .refl l⟩, Nat.le_refl _⟩

theorem trans (h : Grown c c') (h' : Grown c' c'') : Grown c c'' := by
  refine ⟨fun i l hl => ?_, Nat.le_trans h.received h'.received⟩
  obtain ⟨l', hl', r⟩ := h.links i l hl
  obtain ⟨l'', hl'', r'⟩ := h'.links i l' hl'
  exact ⟨l'', hl'', r.trans r'⟩

theorem of_eq (hl : c'.links = c.links) (hr : c.received ≤ c'.received) : Grown c c' :=
  ⟨fun _ l h => ⟨l, hl ▸ h, .refl l⟩, hr⟩

theorem lending (h : Lending c c') : Grown c c' := by
  refine ⟨fun i l hl => ?_, Nat.le_of_eq h.received.symm⟩
  obtain ⟨l', hl', r⟩ := h.links.get hl
  exact ⟨l', hl', r.address, r.maxRdy, fun e => r.closed ▸ e⟩

theorem modifyLink {i : Nat} {f : Link → Link}
    (hf : ∀ l, c.links[i]? = some l → l.Later (f l)) : Grown c (c.modifyLink i f) := by
  refine ⟨fun j l hl => ?_, Nat.le_refl _⟩
  exact (linkwise_modifyLink (R := Link.Later) Link.Later.refl hf).get hl

theorem putConn {i : Nat} {conn conn' : Connection} (hi : c.conn? i = some conn)
    (ha : conn'.address = conn.address) (hm : conn'.maxRdy = conn.maxRdy)
    (hc : conn.closed = true → conn'.closed = true) : Grown c (c.putConn i conn') := by
  refine modifyLink fun l hl => ?_
  obtain rfl : l.conn = conn := conn_eq_of_links hl hi
  exact ⟨ha, hm, hc⟩

theorem passAnswer (chance : Nat → Nat) (i : Nat) (m : Message) (a : Answer) (c : Consumer) :
    Grown c (c.passAnswer chance i m a) := by
  refine passAnswer_invariant (.refl c) ?_ ?_ ?_ ?_
  · exact fun conn hi => putConn hi rfl rfl id
  · intro d hd
    cases a <;> exact hd.trans (.of_eq rfl (Nat.le_refl _))
  · exact fun d hd => hd.trans (lending (dealing_signal chance a.signal d).lending)
  · refine fun d hd => hd.trans (modifyLink fun l _ => ?_)
    have hs := Connection.steady_sendAnswer m a l.conn
    exact ⟨hs.address, hs.maxRdy, fun e => hs.closed ▸ e⟩

theorem openLink (l : Link) (c : Consumer) : Grown c (c.openLink l).2 := by
  exact ⟨fun i l' hl' => ⟨l', getElem?_openLink hl' l, .refl l'⟩, Nat.le_refl _⟩

theorem welcome (l : Link) (c : Consumer) : Grown c (c.welcome l) :=
  (openLink l c).trans (.of_eq rfl (Nat.le_refl _))

theorem settleLink (i : Nat) (c : Consumer) : Grown c (c.settleLink i) := by
  cases hi : c.conn? i with
  | none => rw [settleLink_of_none hi]; exact .refl c
  | some conn =>
    have hs := Connection.steady_settled conn
    rcases settleLink_cases hi with ⟨heq, -⟩ | ⟨-, -, hr⟩
    · rw [heq]
      exact putConn hi hs.address hs.maxRdy fun e => hs.closed ▸ e
    · have hp : Grown c (c.putConn i { conn.settled with closed := true }) :=
        putConn hi hs.address hs.maxRdy fun _ => rfl
      exact hp.trans (.of_eq hr.links (Nat.le_of_eq hr.received.symm))

/-- **Moves only add**: to the links, to what is known of each, and to the messages received. -/
theorem move (h : Move ok c c') : Grown c c' := by
  cases h with
  | note hn => exact .of_eq hn.links (Nat.le_of_eq hn.received.symm)
  | adjust hq =>
    exact modifyLink fun l hl =>
      ⟨(hq l hl).steady.address, (hq l hl).steady.maxRdy, fun e => (hq l hl).steady.closed ▸ e⟩
  | refill i => exact lending (dealing_refill i c).lending
  | signal chance s => exact lending (dealing_signal chance s c).lending
  | respread => exact .of_eq rfl (Nat.le_refl _)
  | stop => exact .of_eq rfl (Nat.le_refl _)
  | reject => exact openLink _ c
  | join => exact welcome _ c
  | arrive m rest hi =>
    have hc : ∀ offers total, Grown c
        { c with offers := offers, received := c.received + 1, totalRdy := total } :=
      fun _ _ => .of_eq rfl (Nat.le_succ _)
    refine (hc _ _).trans (modifyLink fun l hl => ?_)
    obtain rfl := conn_eq_of_links hl hi
    exact ⟨rfl, rfl, id⟩
  | bounce i m a => exact passAnswer _ i m a c
  | take =>
    have hc : ∀ offers handed, Grown c { c with offers := offers, handed := handed } :=
      fun _ _ => .of_eq rfl (Nat.le_refl _)
    exact (hc _ _).trans (modifyLink fun l _ => ⟨rfl, rfl, id⟩)
  | answer a =>
    have hc : ∀ n s, Grown c (c.putState n s) := fun _ _ => .of_eq rfl (Nat.le_refl _)
    exact (hc _ _).trans (passAnswer _ _ _ a _)
  | settle i => exact settleLink i c
  | @direct env a _ ha =>
    obtain ⟨link, rfl⟩ | ⟨i, rfl⟩ | hl := direct_lending_cases ha c
    · exact welcome link c
    · show Grown c (c.retire i)
      cases hi : c.conn? i with
      | none => simpa [retire, hi] using .refl c
      | some conn =>
        have hr := retire_of_conn hi
        exact .of_eq hr.links (Nat.le_of_eq hr.received.symm)
    · exact lending hl

end Grown

end

end Consumer

end Nsq
