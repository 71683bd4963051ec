import Nsq.Proofs.Consumer.Retries

/-!
# Thrift at a reduced pace

While the pace is reduced, every link that is still of use was last granted one message or none: the
signal that reduced the pace took all credit back, nothing but probes and what is spread anew is
granted since, and that is one message at a time. What was put off before then waits for links that
are closing, which take no grant. So no link has credit for more than one message, however many
messages came over it beyond its credit (`Thrifty`).

That a link has at most the credit of its last grant needs numbers in the range of words: the
messages received must be counted in one. Nothing is assumed here about what daemons take; a daemon
that takes less than no message is told so, and its link is never of use.
-/

namespace Nsq

/-- The last grant of a link is a word. If it is no negative number, the link has at most that
credit, and owes at most the messages that have come over it. -/
structure Link.Bounded (l : Link) : Prop where
  lastRdy_lt : l.conn.lastRdy < 2 ^ 63
  rdy : 0 ≤ l.conn.lastRdy → -(l.heard : Int) ≤ l.conn.rdy ∧ l.conn.rdy ≤ l.conn.lastRdy

/-- The link is closing, its daemon takes less than no message, or it was last granted one message
or none. -/
def Link.Frugal (l : Link) : Prop :=
  l.conn.closing = true ∨ l.conn.maxRdy < 0 ∨ 0 ≤ l.conn.lastRdy ∧ l.conn.lastRdy ≤ 1

/-- The credit of a link stays as it is. -/
structure Link.Alike (l l' : Link) : Prop where
  address : l'.conn.address = l.conn.address
  maxRdy : l'.conn.maxRdy = l.conn.maxRdy
  rdy : l'.conn.rdy = l.conn.rdy
  lastRdy : l'.conn.lastRdy = l.conn.lastRdy
  closing : l.conn.closing = true → l'.conn.closing = true
  heard : l'.heard = l.heard

theorem Link.Alike.refl (l : Link) : l.Alike l := ⟨rfl, rfl, rfl, rfl, id, rfl⟩

theorem Link.Alike.of_steady {l l' : Link} (h : Connection.Steady l.conn l'.conn)
    (hh : l'.heard = l.heard) : l.Alike l' :=
  ⟨h.address, h.maxRdy, h.rdy, h.lastRdy, h.closing, hh⟩

theorem Link.Alike.bounded {l l' : Link} (h : l.Alike l') (hb : l.Bounded) : l'.Bounded := by
  refine ⟨h.lastRdy ▸ hb.lastRdy_lt, fun hl => ?_⟩
  rw [h.rdy, h.lastRdy, h.heard]
  exact hb.rdy (h.lastRdy ▸ hl)

theorem Link.Alike.frugal {l l' : Link} (h : l.Alike l') (hf : l.Frugal) : l'.Frugal := by
  unfold Link.Frugal at hf ⊢
  rw [h.maxRdy, h.lastRdy]
  exact hf.imp_left h.closing

theorem Link.Opened.bounded {l : Link} {policy : Connection.Policy} (h : l.Opened policy) :
    l.Bounded := by
  refine ⟨by rw [h.lastRdy]; decide, fun _ => ?_⟩
  rw [h.rdy, h.lastRdy, h.heard]
  decide

theorem Link.Opened.frugal {l : Link} {policy : Connection.Policy} (h : l.Opened policy) :
    l.Frugal := .inr (.inr (by rw [h.lastRdy]; decide))

/-- A link that was just granted a credit has it. -/
theorem Link.bounded_granted {n : Int} (l : Link) (hn : n < 2 ^ 63) :
    Link.Bounded { l with conn := l.conn.granted n } := by
  refine ⟨by rwa [Connection.granted_lastRdy], fun h => ?_⟩
  simp only [Connection.granted_lastRdy, Connection.granted_rdy] at h ⊢
  omega

/-- With a message more that came over it, a link has one credit less: it is in the range of a word
if the messages are. -/
theorem Link.Bounded.hearing {l : Link} (h : l.Bounded) (rest : Octets) (serving : Bool)
    (hheard : l.heard + 1 < 2 ^ 63) :
    (l.hearing ({ l.conn with unread := rest } : Connection).arrive serving).Bounded := by
  refine ⟨h.lastRdy_lt, fun hlast => ?_⟩
  obtain ⟨hlow, hhigh⟩ := h.rdy hlast
  have hlt := h.lastRdy_lt
  have hword : word64 (l.conn.rdy - 1) = l.conn.rdy - 1 := word64_eq_self (by omega) (by omega)
  show -((l.heard + 1 : Nat) : Int) ≤ word64 (l.conn.rdy - 1) ∧
    word64 (l.conn.rdy - 1) ≤ l.conn.lastRdy
  omega

namespace Consumer

variable {c c' : Consumer}

/-- Whoever serves the address is closing. -/
def Lapsed (addr : String) (c : Consumer) : Prop :=
  ∀ i conn, (addr, i) ∈ c.live → c.conn? i = some conn → conn.closing = true

/-- What is known of the credit of links in any case, and while the pace is reduced: links were
last granted one message or none, and so will be those that wait for a grant. -/
structure Thrifty (c : Consumer) : Prop where
  heard : (c.links.map fun l => (l.heard : Int)).sum = c.received
  bounded : c.received < 2 ^ 63 → ∀ l ∈ c.links, l.Bounded
  positive : ∀ e ∈ c.retries, 0 < e.2
  frugal : 0 < c.level → ∀ l ∈ c.links, l.Frugal
  modest : 0 < c.level → ∀ e ∈ c.retries, e.2 ≤ 1 ∨ c.Lapsed e.1

theorem thrifty_ofSubscription (s : Subscription) : Thrifty (ofSubscription s) where
  heard := rfl
  bounded _ _ hl := absurd hl List.not_mem_nil
  positive _ he := absurd he List.not_mem_nil
  frugal _ _ hl := absurd hl List.not_mem_nil
  modest _ _ he := absurd he List.not_mem_nil

/-! ### What does not concern credit -/

/-- Neither the pace nor the credit of any link changes; entries may leave the table, and grants
that were put off may be forgotten. -/
structure Plain (c c' : Consumer) : Prop where
  received : c'.received = c.received
  level : c'.level = c.level
  live : ∀ e ∈ c'.live, e ∈ c.live
  retries : ∀ e ∈ c'.retries, e ∈ c.retries
  links : Linkwise Link.Alike c c'

theorem Plain.of_links (hr : c'.received = c.received) (hlev : c'.level = c.level)
    (hlive : ∀ e ∈ c'.live, e ∈ c.live) (hret : ∀ e ∈ c'.retries, e ∈ c.retries)
    (hl : c'.links = c.links) : Plain c c' := by
  refine ⟨hr, hlev, hlive, hret, fun i => ?_⟩
  rw [hl]
  exact Linkwise.refl Link.Alike.refl c i

theorem Plain.modifyLink {i : Nat} {f : Link → Link}
    (h : ∀ l, c.links[i]? = some l → l.Alike (f l)) : Plain c (c.modifyLink i f) :=
  ⟨rfl, rfl, fun _ => id, fun _ => id, linkwise_modifyLink Link.Alike.refl h⟩

theorem Plain.putConn {i : Nat} {conn conn' : Connection} (hi : c.conn? i = some conn)
    (h : ∀ l : Link, l.conn = conn → l.Alike { l with conn := conn' }) :
    Plain c (c.putConn i conn') :=
  .modifyLink fun l hl => h l (conn_eq_of_links hl hi)

/-- Where links stay at their addresses and go on closing, an address stays lapsed. -/
theorem Lapsed.linkwise {addr : String} {R : Link → Link → Prop} (h : c.Lapsed addr)
    (hlive : ∀ e ∈ c'.live, e ∈ c.live) (hl : Linkwise R c c')
    (hR : ∀ l l', R l l' → l.conn.closing = true → l'.conn.closing = true) : c'.Lapsed addr := by
  intro i conn' hmem hi
  obtain ⟨l', hl', rfl⟩ := conn?_eq_some_iff.mp hi
  obtain ⟨l, hl₀, r⟩ := hl.of_get hl'
  exact hR l l' r (h i l.conn (hlive _ hmem) (conn?_of_links hl₀))

theorem Lapsed.lending {addr : String} (h : c.Lapsed addr) (hl : Lending c c') :
    c'.Lapsed addr :=
  h.linkwise (fun _ he => hl.live ▸ he) hl.links fun _ _ r => r.closing

/-! ### Dealing credit out -/

/-- What is booked of a grant is a word: the room is one, and what asks for no credit is none. -/
theorem allotment_lt {conn : Connection} {count : Int} (h : ¬c.Refuses conn count) :
    c.allotment conn count < 2 ^ 63 := by
  by_cases hroom : 0 < c.roomFor conn.rdy
  · exact Int.lt_of_le_of_lt (allotment_le_roomFor hroom count) (word64_lt_pow _)
  · rw [allotment, if_neg hroom]
    have hno : ¬0 < min count conn.maxRdy := fun hsome => h ⟨by omega, hsome⟩
    omega

theorem Dealing.bounded (h : Dealing c c') (hb : ∀ l ∈ c.links, l.Bounded) :
    ∀ l ∈ c'.links, l.Bounded := by
  have hset : ∀ d d' : Consumer, (∀ l ∈ d.links, l.Bounded) → Tuned d d' →
      ∀ l ∈ d'.links, l.Bounded := fun d d' hd ht => by rwa [ht.links]
  induction h with
  | refl => exact hb
  | ask i count _ ih =>
    refine updateRdy_invariant (I := fun d => ∀ l ∈ d.links, l.Bounded) ih (hset _)
      fun d conn hd hi _ hr => ?_
    refine forall_mem_modify hd fun l hl => ?_
    obtain rfl := conn_eq_of_links hl hi
    exact l.bounded_granted (allotment_lt hr)
  | tune _ ht ih => exact hset _ _ ih ht

theorem dealing_grantAll_zero (c : Consumer) : Dealing c (c.grantAll c.walk 0) :=
  (sharing_grantAll c.walk (.inl (Int.le_refl 0))).dealing

namespace Thrifty

theorem plain (h : Thrifty c) (hp : Plain c c') : Thrifty c' where
  heard := by
    rw [hp.links.map_eq fun _ _ r => congrArg Nat.cast r.heard, hp.received]
    exact h.heard
  bounded hr := hp.links.forall_mem (fun _ _ r => r.bounded) (h.bounded (hp.received ▸ hr))
  positive e he := h.positive e (hp.retries e he)
  frugal hlev := hp.links.forall_mem (fun _ _ r => r.frugal) (h.frugal (hp.level ▸ hlev))
  modest hlev e he := (h.modest (hp.level ▸ hlev) e (hp.retries e he)).imp_right fun hlapsed =>
    hlapsed.linkwise hp.live hp.links fun _ _ r => r.closing

theorem of_eq (h : Thrifty c) (hr : c'.received = c.received) (hlev : c'.level = c.level)
    (hlive : c'.live = c.live) (hret : c'.retries = c.retries) (hl : c'.links = c.links) :
    Thrifty c' :=
  h.plain (.of_links hr hlev (fun _ he => hlive ▸ he) (fun _ he => hret ▸ he) hl)

/-- Credit is shared out, if thrift is seen to where the pace is reduced afterwards. -/
theorem sharing (h : Thrifty c) (hs : Sharing c c')
    (hfrugal : 0 < c'.level → ∀ l ∈ c'.links, l.Frugal)
    (hmodest : 0 < c'.level → ∀ e ∈ c'.retries, e.2 ≤ 1 ∨ c'.Lapsed e.1) : Thrifty c' where
  heard := by
    have hl := hs.dealing.lending
    rw [hl.links.map_eq fun _ _ r => congrArg Nat.cast r.heard, hl.received]
    exact h.heard
  bounded hr := hs.dealing.bounded (h.bounded (hs.dealing.lending.received ▸ hr))
  positive e he := (hs.retries e he).elim (h.positive e) id
  frugal := hfrugal
  modest := hmodest

theorem sharing_of_level (h : Thrifty c) (hs : Sharing c c') (hlev : c'.level = 0) : Thrifty c' :=
  h.sharing hs (fun hpos => absurd hpos (by omega)) fun hpos => absurd hpos (by omega)

/-- A grant of one message or none, which it has to be while the pace is reduced. -/
theorem grant (h : Thrifty c) (i : Nat) {n : Int} (hn : 0 ≤ n) (hone : 0 < c.level → n ≤ 1) :
    Thrifty (c.grant i n) := by
  have hs := sharing_grant (c := c) i (.inl hn)
  have hlev := (samePace_grant i n c).level
  refine h.sharing hs (fun hpos l' hl' => ?_) fun hpos e he => ?_
  · obtain ⟨j, hj⟩ := List.mem_iff_getElem?.mp hl'
    rcases link_of_grant hj with hl | ⟨-, l, hl, -, -, rfl⟩
    · exact h.frugal (hlev ▸ hpos) l' (List.mem_of_getElem? hl)
    · have hle := allotment_le_count l.conn n c
      have hle' := hone (hlev ▸ hpos)
      have hm : (l.conn.granted (c.allotment l.conn n)).maxRdy = l.conn.maxRdy :=
        (Link.lent_granted _ l).maxRdy
      unfold Link.Frugal
      rw [Connection.granted_lastRdy, hm]
      by_cases hneg : l.conn.maxRdy < 0
      · exact .inr (.inl hneg)
      · have hpos' : 0 ≤ c.allotment l.conn n := allotment_nonneg c hn (by omega)
        exact .inr (.inr ⟨hpos', by omega⟩)
  · rcases mem_retries_grant he with hold | ⟨-, hnew⟩
    · exact (h.modest (hlev ▸ hpos) e hold).imp_right fun hl => hl.lending hs.dealing.lending
    · exact .inl (Int.le_trans hnew (hone (hlev ▸ hpos)))

theorem reclaim (h : Thrifty c) (is : List Nat) : Thrifty (c.reclaim is) := by
  refine List.foldlRecOn is _ h fun d hd i _ => ?_
  split_ifs
  · exact hd.grant i (Int.le_refl 0) fun _ => by decide
  · exact hd

theorem scatter (h : Thrifty c) (chance : Nat → Nat) (n : Nat) (is : List Nat) :
    Thrifty (scatter chance n is c) := by
  induction n generalizing is c with
  | zero => exact h
  | succ n ih =>
    unfold Consumer.scatter
    dsimp only
    split
    · exact h
    · exact ih (h.grant _ (by decide) fun _ => by decide) _

theorem scatterUpTo (h : Thrifty c) (chance : Nat → Nat) (budget : Int) (is : List Nat) :
    Thrifty (scatterUpTo chance budget is c) :=
  scatter (c := c.check .subtract (c.spare budget)) (h.of_eq rfl rfl rfl rfl rfl) chance _ is

theorem refill (h : Thrifty c) (i : Nat) : Thrifty (c.refill i) := by
  by_cases hlev : 0 < c.level
  · rwa [refill_of_level hlev]
  · have hsame := (samePace_refill i c).level
    exact h.sharing_of_level (sharing_refill i c) (by omega)

theorem changeMaxInFlight (h : Thrifty c) (n : Int) : Thrifty (c.changeMaxInFlight n) := by
  have hset : Thrifty { c with maxInFlight := n } := h.of_eq rfl rfl rfl rfl rfl
  by_cases hlev : 0 < c.level
  · rwa [changeMaxInFlight_of_level hlev]
  · have hsame := (sameBeat_changeMaxInFlight n c).level
    exact hset.sharing_of_level (sharing_changeMaxInFlight n c) (by omega)

theorem redistribute (h : Thrifty c) (chance : Nat → Nat) : Thrifty (c.redistribute chance) := by
  by_cases hlev : 0 < c.level
  · by_cases hgo : (c.inPause || c.live.isEmpty) = false ∧ (c.respread || c.wantsRespread) = true
    · rw [redistribute_of_level hlev hgo.1 hgo.2]
      have hset : Thrifty { c with respread := false, share := 0 } := h.of_eq rfl rfl rfl rfl rfl
      exact (hset.reclaim _).scatterUpTo chance _ _
    · rwa [redistribute_eq_self hgo]
  · have hsame := (sameBeat_redistribute chance c).level
    exact h.sharing_of_level (sharing_redistribute chance c) (by omega)

theorem resume (h : Thrifty c) (chance : Nat → Nat) : Thrifty (c.resume chance) := by
  -- when the consumer is woken, and how long it pauses, does not matter here
  have hbeat : ∀ {d : Consumer} (pause : Nat) (armed : Bool), Thrifty d →
      Thrifty { d with pause := pause, armed := armed } := fun _ _ hd =>
    hd.of_eq rfl rfl rfl rfl rfl
  have hset : Thrifty { c with armed := false } := hbeat c.pause false h
  unfold Consumer.resume
  dsimp only
  split_ifs
  · exact hbeat 0 false h
  · split
    · exact hbeat _ true hset
    · rename_i i _
      have hg : Thrifty (Consumer.grant i 1 { c with armed := false }) :=
        hset.grant i (by decide) fun _ => Int.le_refl 1
      rw [Consumer.grant] at hg
      split <;> rename_i heq <;> rw [heq] at hg
      · exact hbeat 0 _ hg
      · exact hbeat _ true hg

/-- What was put off asks for one message, or for a link that takes no grant. -/
theorem retry (h : Thrifty c) (ht : Tabled c) {addr : String} {count : Int}
    (he : (addr, count) ∈ c.retries) : Thrifty (c.retry addr count) := by
  unfold Consumer.retry
  split
  · rename_i i hi
    have hmem := mem_live_of_serving? hi
    obtain ⟨conn, hconn, -⟩ := ht.entries _ hmem
    cases hcl : conn.closing with
    | true =>
      have hsame : c.grant i count = c := by simp [Consumer.grant, updateRdy, hconn, hcl]
      rwa [hsame]
    | false =>
      refine h.grant i (Int.le_of_lt (h.positive _ he)) fun hlev => ?_
      refine (h.modest hlev _ he).resolve_right fun hlapsed => ?_
      exact absurd (hlapsed i conn hmem hconn) (by simp [hcl])
  · exact h.plain (.of_links rfl rfl (fun _ => id) (fun _ he => (mem_dropRetry.mp he).2) rfl)

/-- The signal that reduces the pace, or keeps it reduced, takes all credit back. -/
theorem signal (h : Thrifty c) (ht : Tabled c) (chance : Nat → Nat) (s : Signal) :
    Thrifty (c.signal chance s) := by
  have hs := sharing_signal chance s c
  have htabled := ht.lending hs.dealing.lending
  unfold Consumer.signal at hs htabled ⊢
  split_ifs at hs htabled ⊢ with hp
  · exact h
  · dsimp only at hs htabled ⊢
    split_ifs at hs htabled ⊢ with hlev
    · exact h.sharing_of_level hs ((samePace_grantAll _ _ _).level.trans hlev)
    · exact h.sharing_of_level hs hlev
    · set d : Consumer := { c with level := (c.levelAfter s (chance 0)).1 } with hd
      refine h.sharing hs (fun _ l hl => ?_) fun _ e he => .inr ?_
      · obtain ⟨i, hi⟩ := List.mem_iff_getElem?.mp hl
        cases hcl : l.conn.closing with
        | true => exact .inl hcl
        | false =>
          -- an open link is in the table, so that it was told that it has no credit
          have hlive : (l.conn.address, i) ∈ d.live := by
            have hmem := (htabled.listed i l.conn (conn?_of_links hi)).resolve_left (by simp [hcl])
            exact (dealing_grantAll_zero d).lending.live ▸ hmem
          by_cases hneg : l.conn.maxRdy < 0
          · exact .inr (.inl hneg)
          · have hhush : Hushed (d.grantAll d.walk 0) i := by
              refine hushed_grantAll (fun conn hconn => ?_) (.inl (List.mem_map_of_mem hlive))
              obtain ⟨l₀, hl₀, rfl⟩ := conn?_eq_some_iff.mp hconn
              obtain ⟨l', hl', r⟩ := (dealing_grantAll_zero d).lending.links.get hl₀
              obtain rfl := Option.some.inj (hi.symm.trans hl')
              have := r.maxRdy
              omega
            have hlast : l.conn.lastRdy = 0 := hhush l.conn (conn?_of_links hi) hcl
            exact .inr (.inr (by omega))
      · have htd : Tabled d := ht.linkwise rfl (Linkwise.refl Link.Stays.refl c)
        exact spent_grantAll_zero htd e he

/-! ### Messages and answers -/

/-- No link has heard more messages than were received. -/
theorem heard_le (h : Thrifty c) {l : Link} (hl : l ∈ c.links) : l.heard ≤ c.received :=
  Int.ofNat_le.mp (h.heard ▸ heard_le_sum hl)

/-- A message takes one off the credit of its link, which stays in the range of a word. -/
theorem takeIn (h : Thrifty c) {i : Nat} {conn : Connection} (hi : c.conn? i = some conn)
    (m : Message) (rest : Octets) :
    Thrifty (c.takeIn i m ({ conn with unread := rest } : Connection).arrive) := by
  obtain ⟨l, hl, rfl⟩ := conn?_eq_some_iff.mp hi
  have hat : ∀ l', c.links[i]? = some l' → l' = l := fun l' hl' =>
    Option.some.inj (hl'.symm.trans hl)
  have hmem := List.mem_of_getElem? hl
  refine ⟨?_, fun hr => ?_, h.positive, fun hlev => ?_, fun hlev e he => ?_⟩
  · rw [sum_heard_takeIn hl, h.heard]
    rfl
  · have hr' : c.received + 1 < 2 ^ 63 := hr
    have hbefore := h.bounded (by omega)
    refine forall_mem_modify hbefore fun l' hl' => ?_
    obtain rfl := hat l' hl'
    have hheard := h.heard_le hmem
    exact (hbefore l' hmem).hearing rest c.serving (by omega)
  · refine forall_mem_modify (h.frugal hlev) fun l' hl' => ?_
    obtain rfl := hat l' hl'
    exact h.frugal hlev l' hmem
  · refine (h.modest hlev e he).imp_right fun hlapsed => ?_
    refine hlapsed.linkwise (R := Link.Stays) (fun _ => id)
      (linkwise_modifyLink Link.Stays.refl fun l' hl' => ?_) fun _ _ r => r.closing
    obtain rfl := hat l' hl'
    exact ⟨rfl, id⟩

theorem passAnswer (h : Thrifty c) (ht : Tabled c) (chance : Nat → Nat) (i : Nat) (m : Message)
    (a : Answer) : Thrifty (c.passAnswer chance i m a) := by
  -- the signal in the middle needs the table
  suffices hboth : Tabled (c.passAnswer chance i m a) ∧ Thrifty (c.passAnswer chance i m a) from
    hboth.2
  have hkeep {d d' : Consumer} (hd : Tabled d ∧ Thrifty d) (ha : Abides d d') (hp : Plain d d') :
      Tabled d' ∧ Thrifty d' := ⟨ha.tabled hd.1, hd.2.plain hp⟩
  refine passAnswer_invariant (I := fun d => Tabled d ∧ Thrifty d) ⟨ht, h⟩ ?_ ?_ ?_ ?_
  · exact fun conn hi => hkeep ⟨ht, h⟩ (.putConn hi rfl id)
      (.putConn hi fun l hl => hl ▸ ⟨rfl, rfl, rfl, rfl, id, rfl⟩)
  · intro d hd
    cases a <;> exact hkeep hd (.of_links rfl rfl (fun _ => id) rfl)
      (.of_links rfl rfl (fun _ => id) (fun _ => id) rfl)
  · intro d hd
    have hl := (dealing_signal chance a.signal d).lending
    exact ⟨hd.1.lending hl, hd.2.signal hd.1 chance a.signal⟩
  · intro d hd
    have hs := fun l : Link => Connection.steady_sendAnswer m a l.conn
    exact hkeep hd (.modifyLink fun l _ => ⟨(hs l).address, (hs l).closing⟩)
      (.modifyLink fun l _ => .of_steady (hs l) rfl)

/-! ### The table -/

/-- A link that is opened without entering the table. -/
theorem openLink (h : Thrifty c) (ht : Tabled c) {l : Link} (hl : l.Opened c.policy) :
    Thrifty (c.openLink l).2 where
  heard := by
    show ((c.links ++ [l]).map fun l => (l.heard : Int)).sum = c.received
    rw [List.map_append, List.sum_append, h.heard]
    simp [hl.heard]
  bounded hr l' hl' := by
    rcases List.mem_append.mp hl' with hl' | hl'
    · exact h.bounded hr l' hl'
    · obtain rfl := List.mem_singleton.mp hl'
      exact hl.bounded
  positive := h.positive
  frugal hlev l' hl' := by
    rcases List.mem_append.mp hl' with hl' | hl'
    · exact h.frugal hlev l' hl'
    · obtain rfl := List.mem_singleton.mp hl'
      exact hl.frugal
  modest hlev e he := by
    refine (h.modest hlev e he).imp_right fun hlapsed i conn hmem hi => ?_
    obtain ⟨conn', hi', -⟩ := ht.entries _ hmem
    obtain ⟨l', hl', rfl⟩ := conn?_eq_some_iff.mp hi'
    obtain rfl := conn_eq_of_links (getElem?_openLink hl' l) hi
    exact hlapsed i l'.conn hmem hi'

/-- A new link takes nobody's place, so that nothing was put off for it. -/
theorem welcome (h : Thrifty c) (ht : Tabled c) (hserved : Served c) {l : Link}
    (hl : l.Fresh c.policy) (hs : c.serving? l.conn.address = none) : Thrifty (c.welcome l) := by
  have ho := h.openLink ht hl.toOpened
  refine ⟨ho.heard, ho.bounded, ho.positive, ho.frugal, fun hlev e he => ?_⟩
  refine (ho.modest hlev e he).imp_right fun hlapsed i conn hmem hi => ?_
  rcases List.mem_append.mp hmem with hmem | hmem
  · exact hlapsed i conn (List.mem_filter.mp hmem).1 hi
  · obtain ⟨j, hj⟩ := hserved e he
    have hne : e.1 ≠ l.conn.address := address_ne_of_serving?_eq_none hs hj
    exact absurd (congrArg Prod.fst (List.mem_singleton.mp hmem)) hne

theorem settleLink (h : Thrifty c) (i : Nat) : Thrifty (c.settleLink i) := by
  cases hi : c.conn? i with
  | none => rwa [settleLink_of_none hi]
  | some conn =>
    have hs := Connection.steady_settled conn
    have hput (closed : Bool) : Thrifty (c.putConn i { conn.settled with closed := closed }) :=
      h.plain (.putConn hi fun l hl => by
        subst hl
        exact ⟨hs.address, hs.maxRdy, hs.rdy, hs.lastRdy, hs.closing, rfl⟩)
    rcases settleLink_cases hi with ⟨heq, -⟩ | ⟨-, -, hr⟩
    · rw [heq]
      exact hput conn.settled.closed
    · refine (hput true).plain (.of_links hr.received hr.level (fun e he => ?_)
        (fun e he => (hr.retries e he).2) hr.links)
      rw [hr.live] at he
      exact (List.mem_filter.mp he).1

/-! ### Moves -/

theorem direct {env : Surroundings} {a : Act} (h : Thrifty c) (ht : Tabled c) (hserved : Served c)
    (ha : Sole env a c) (hd : a.isDirect = true) : Thrifty (c.act env a).2 := by
  cases a with
  | attach link => exact h.welcome ht hserved ha.1 (ha.2 link rfl)
  | retry addr count => exact h.retry ht ha.1
  | resume => exact h.resume env.chance
  | redistribute => exact h.redistribute env.chance
  | changeMaxInFlight n => exact h.changeMaxInFlight n
  | retire i => exact absurd ha.1 id
  | updateRdy i count => exact absurd ha.1 id
  | sendRdy i count => exact absurd ha.1 id
  | _ => simp [Act.isDirect] at hd

/-- **The consumer's own moves keep to thrift.** -/
theorem move (h : Thrifty c) (ht : Tabled c) (hserved : Served c) (hm : Move Sole c c') :
    Thrifty c' := by
  cases hm with
  | note hn => exact h.of_eq hn.received hn.level hn.live hn.retries hn.links
  | adjust hq => exact h.plain (.modifyLink fun l hl => .of_steady (hq l hl).steady (hq l hl).heard)
  | refill i => exact h.refill i
  | signal chance s => exact h.signal ht chance s
  | respread => exact h.of_eq rfl rfl rfl rfl rfl
  | stop => exact h.of_eq rfl rfl rfl rfl rfl
  | reject hl => exact h.openLink ht hl
  | join hl hs => exact h.welcome ht hserved hl hs
  | arrive m rest hi => exact h.takeIn hi m rest
  | bounce i m a => exact h.passAnswer ht _ i m a
  | take =>
    have htake : ∀ offers handed, Thrifty { c with offers := offers, handed := handed } :=
      fun _ _ => h.of_eq rfl rfl rfl rfl rfl
    exact (htake _ _).plain (.modifyLink fun l _ => ⟨rfl, rfl, rfl, rfl, id, rfl⟩)
  | @answer chance n d a =>
    have hput : ∀ s, Thrifty (c.putState n s) := fun _ => h.of_eq rfl rfl rfl rfl rfl
    have htput : ∀ s, Tabled (c.putState n s) := fun _ =>
      ht.linkwise rfl (Linkwise.refl Link.Stays.refl c)
    exact (hput _).passAnswer (htput _) chance d.link d.message a
  | settle i => exact h.settleLink i
  | direct hok hd => exact h.direct ht hserved hok hd

end Thrifty

end Consumer

end Nsq
