import Nsq.Proofs.Consumer.Ledger

/-!
# What daemons are told

A grant reaches a daemon as an RDY line. The lines written over a link are `Consumer.told`, and this
file compares them with what the consumer believes: every line keeps within what the daemon takes
and goes to a link whose end nobody asked for, a line that grants something leaves the total within
the budget, and the last line over an open link is the grant that the link remembers
(`told_within_limits`).

The second limit is a matter of the moment right behind the line, which lies inside of a step. So
steps are taken apart once more, into **turns** (`Turn`): a turn asks for a grant, or it is one of
the few other things that concern credit, or the credit is not concerned at all. Only turns of the
first kind write lines (`Turn.told_cases`), and what they write is looked at in `told_updateRdy`.
The budget is set in a turn of its own, which only the owner's act has among its turns (`Act.Sets`).

Credit is counted in signed words, and a negative budget may lie so close to the least of them that
the total passes the end of the range; the total is then far above the budget although the grant is
within the room that was left (`total_le_iff`). A budget that is not negative is always kept.
-/

namespace Nsq

/-! ### Links whose daemons are told nothing -/

/-- The daemon of a link is told nothing of its credit. -/
structure Link.Untold (l l' : Link) : Prop where
  told : l'.conn.told = l.conn.told
  lastRdy : l'.conn.lastRdy = l.conn.lastRdy
  maxRdy : l'.conn.maxRdy = l.conn.maxRdy
  policy : l'.conn.policy = l.conn.policy
  closing : l.conn.closing = true → l'.conn.closing = true

/-- Nor does its credit change. -/
structure Link.Unlent (l l' : Link) : Prop extends l.Untold l' where
  rdy : l'.conn.rdy = l.conn.rdy

/-- The daemon of a link was never told of any credit, and a fault would make the owner ask for the
end of the link. -/
structure Link.Silent (l : Link) : Prop where
  told : l.conn.told = []
  lastRdy : l.conn.lastRdy = 0
  closesOnFault : l.conn.policy.closesOnFault = true

theorem Link.Unlent.refl (l : Link) : l.Unlent l := ⟨⟨rfl, rfl, rfl, rfl, id⟩, rfl⟩

theorem Link.Untold.refl (l : Link) : l.Untold l := (Unlent.refl l).toUntold

theorem Link.Unlent.of_steady {l l' : Link} (h : Connection.Steady l.conn l'.conn)
    (ht : l'.conn.told = l.conn.told) : l.Unlent l' :=
  ⟨⟨ht, h.lastRdy, h.maxRdy, h.policy, h.closing⟩, h.rdy⟩

theorem Link.Opened.silent {l : Link} {policy : Connection.Policy} (h : l.Opened policy)
    (hp : policy.closesOnFault = true) (ht : l.conn.told = []) : l.Silent :=
  ⟨ht, h.lastRdy, h.policy ▸ hp⟩

theorem Connection.told_granted (n : Int) (conn : Connection) :
    (conn.granted n).told = if conn.refusing then conn.told else conn.told ++ [n] := by
  rw [granted_eq, told]
  cases conn.refusing with
  | true => rfl
  | false =>
    rw [if_neg Bool.false_ne_true, if_neg Bool.false_ne_true, List.filterMap_append, told]
    rfl

/-- The owner of a connection would ask for its end at a fault, and until the end is asked for, the
last grant is the last line that the daemon was told. -/
structure Connection.Agreed (conn : Connection) : Prop where
  closesOnFault : conn.policy.closesOnFault = true
  last : conn.closing = false → conn.lastRdy = conn.told.getLast?.getD 0

theorem Link.Silent.agreed {l : Link} (h : l.Silent) : l.conn.Agreed where
  closesOnFault := h.closesOnFault
  last _ := by rw [h.lastRdy, h.told]; rfl

theorem Link.Untold.agreed {l l' : Link} (h : l.Untold l') (ha : l.conn.Agreed) :
    l'.conn.Agreed where
  closesOnFault := h.policy ▸ ha.closesOnFault
  last hc := by
    have hopen : l.conn.closing = false := by
      by_contra hclosing
      rw [h.closing (by simpa using hclosing)] at hc
      exact absurd hc (by decide)
    rw [h.lastRdy, h.told]
    exact ha.last hopen

/-- A line that cannot be written makes the owner ask for the end, so that the link may remember a
grant of which the daemon does not know. -/
theorem Connection.Agreed.granted {conn : Connection} (h : conn.Agreed) (n : Int) :
    (conn.granted n).Agreed where
  closesOnFault := by rw [granted_eq]; exact h.closesOnFault
  last hc := by
    rw [granted_eq] at hc
    rw [granted_lastRdy, told_granted]
    cases href : conn.refusing with
    | true => simp [href, h.closesOnFault] at hc
    | false => simp

namespace Consumer

variable {c c' : Consumer} {i : Nat} {budgets : Int → Prop} {a : Act}

/-- The counts of the RDY lines that were written over a link, in order. -/
def told (i : Nat) (c : Consumer) : List Int := ((c.conn? i).map Connection.told).getD []

theorem told_of_conn {conn : Connection} (h : c.conn? i = some conn) : c.told i = conn.told := by
  simp [told, h]

/-! ### Turns -/

/-- Links change one by one, and the daemons of new ones were told nothing. -/
structure Continues (R : Link → Link → Prop) (c c' : Consumer) : Prop where
  old : ∀ (i : Nat) (l : Link), c.links[i]? = some l → ∃ l', c'.links[i]? = some l' ∧ R l l'
  new : ∀ (i : Nat) (l' : Link), c.links[i]? = none → c'.links[i]? = some l' → l'.Silent

namespace Continues

variable {R : Link → Link → Prop}

theorem of_linkwise (h : Linkwise R c c') : Continues R c c' where
  old _ _ hl := h.get hl
  new i l' hn hl' := by
    obtain ⟨l, hl, -⟩ := h.of_get hl'
    rw [hn] at hl
    exact absurd hl (by simp)

theorem of_links (hR : ∀ l, R l l) (h : c'.links = c.links) : Continues R c c' := by
  refine of_linkwise fun i => ?_
  rw [h]
  exact Linkwise.refl hR c i

/-- Only the links matter. -/
theorem congr {d d' : Consumer} (h : Continues R c c') (hl : d.links = c.links)
    (hl' : d'.links = c'.links) : Continues R d d' where
  old := hl ▸ hl' ▸ h.old
  new := hl ▸ hl' ▸ h.new

theorem modifyLink (hR : ∀ l, R l l) {f : Link → Link}
    (h : ∀ l, c.links[i]? = some l → R l (f l)) : Continues R c (c.modifyLink i f) :=
  of_linkwise (linkwise_modifyLink hR h)

theorem openLink (hR : ∀ l, R l l) {l : Link} (h : l.Silent) : Continues R c (c.openLink l).2 where
  old _ l' hl' := ⟨l', getElem?_openLink hl' l, hR l'⟩
  new i l' hn hl' := by
    rcases getElem?_openLink_cases hl' with hl | ⟨-, rfl⟩
    · rw [hn] at hl
      exact absurd hl (by simp)
    · exact h

theorem mono {R' : Link → Link → Prop} (h : Continues R c c') (hR : ∀ l l', R l l' → R' l l') :
    Continues R' c c' where
  old i l hl := by
    obtain ⟨l', hl', r⟩ := h.old i l hl
    exact ⟨l', hl', hR l l' r⟩
  new := h.new

/-- What holds of links whose daemons were told nothing, and is kept by links that change, holds of
all links afterwards. -/
theorem forall_mem {P : Link → Prop} (h : Continues R c c') (hR : ∀ l l', R l l' → P l → P l')
    (hnew : ∀ l : Link, l.Silent → P l) (hc : ∀ l ∈ c.links, P l) : ∀ l ∈ c'.links, P l := by
  intro l' hl'
  obtain ⟨i, hi⟩ := List.mem_iff_getElem?.mp hl'
  cases hl : c.links[i]? with
  | none => exact hnew l' (h.new i l' hl hi)
  | some l =>
    obtain ⟨l'', hi'', r⟩ := h.old i l hl
    obtain rfl := Option.some.inj (hi''.symm.trans hi)
    exact hR l l'' r (hc l (List.mem_of_getElem? hl))

end Continues

/-- Credit is not concerned. -/
structure Aside (c c' : Consumer) : Prop where
  totalRdy : c'.totalRdy = c.totalRdy
  maxInFlight : c'.maxInFlight = c.maxInFlight
  links : Continues Link.Unlent c c'

theorem Aside.of_links (ht : c'.totalRdy = c.totalRdy) (hm : c'.maxInFlight = c.maxInFlight)
    (hl : c'.links = c.links) : Aside c c' :=
  ⟨ht, hm, .of_links Link.Unlent.refl hl⟩

theorem Aside.modifyLink {f : Link → Link} (h : ∀ l, c.links[i]? = some l → l.Unlent (f l)) :
    Aside c (c.modifyLink i f) :=
  ⟨rfl, rfl, .modifyLink Link.Unlent.refl h⟩

/-- What may happen to credit at once: a grant is asked for, a message comes over a link, a link
settles and perhaps reports its end, an end is reported again, the budget is set to one of those
that may be, or credit is not concerned. -/
inductive Turn (budgets : Int → Prop) (c : Consumer) : Consumer → Prop
  | ask (i : Nat) (count : Int) : Turn budgets c (c.updateRdy i count).2
  | arrive {i : Nat} {conn : Connection} (m : Message) (rest : Octets)
      (hi : c.conn? i = some conn) :
      Turn budgets c (c.takeIn i m ({ conn with unread := rest } : Connection).arrive)
  | settle (i : Nat) : Turn budgets c (c.settleLink i)
  | retire (i : Nat) : Turn budgets c (c.retire i)
  | budget {n : Int} (h : budgets n) : Turn budgets c { c with maxInFlight := n }
  | aside {c' : Consumer} (h : Aside c c') : Turn budgets c c'

/-- A sequence of turns. -/
abbrev Turns (budgets : Int → Prop) : Consumer → Consumer → Prop :=
  Relation.ReflTransGen (Turn budgets)

/-- The budget that an act sets. -/
def Act.Sets (a : Act) (n : Int) : Prop := a = .changeMaxInFlight n

theorem links_retire (i : Nat) (c : Consumer) : (c.retire i).links = c.links := by
  cases hi : c.conn? i with
  | none => simp [retire, hi]
  | some conn => exact (retire_of_conn hi).links

/-- A link that settles tells its daemon nothing. -/
theorem continues_settleLink (i : Nat) (c : Consumer) :
    Continues Link.Untold c (c.settleLink i) := by
  cases hi : c.conn? i with
  | none =>
    rw [settleLink_of_none hi]
    exact .of_links Link.Untold.refl rfl
  | some conn =>
    have hs := Connection.steady_settled conn
    -- whether the end is reported does not matter to the daemon
    have hput (closed : Bool) :
        Continues Link.Untold c (c.putConn i { conn.settled with closed := closed }) := by
      refine .modifyLink Link.Untold.refl fun l hl => ?_
      obtain rfl := conn_eq_of_links hl hi
      exact ⟨Connection.told_settled _, hs.lastRdy, hs.maxRdy, hs.policy, hs.closing⟩
    rcases settleLink_cases hi with ⟨heq, -⟩ | ⟨-, -, hr⟩
    · rw [heq]
      exact hput conn.settled.closed
    · exact (hput true).congr rfl hr.links

/-- A message that comes over a link tells the daemon nothing. -/
theorem continues_takeIn {conn : Connection} (hi : c.conn? i = some conn) (m : Message)
    (rest : Octets) :
    Continues Link.Untold c (c.takeIn i m ({ conn with unread := rest } : Connection).arrive) := by
  -- neither the totals nor the offers concern the links
  refine (Continues.modifyLink (c := { c with offers := _, received := _, totalRdy := _ })
    Link.Untold.refl fun l hl => ?_).congr rfl rfl
  obtain rfl := conn_eq_of_links (c := c) hl hi
  exact ⟨rfl, rfl, rfl, rfl, id⟩

/-- A turn that asks for no grant tells daemons nothing. -/
theorem Turn.continues_or_asks (h : Turn budgets c c') :
    Continues Link.Untold c c' ∨ ∃ i count, c' = (c.updateRdy i count).2 := by
  cases h with
  | ask i count => exact .inr ⟨i, count, rfl⟩
  | arrive m rest hi => exact .inl (continues_takeIn hi m rest)
  | settle i => exact .inl (continues_settleLink i c)
  | retire i => exact .inl (.of_links Link.Untold.refl (links_retire i c))
  | budget _ => exact .inl (.of_links Link.Untold.refl rfl)
  | aside h => exact .inl (h.links.mono fun _ _ r => r.toUntold)

/-! ### Steps are turns -/

/-- Which acts a run may contain: links are new when they are attached, and nobody books a grant
past the limits. -/
def Proper (_ : Surroundings) (a : Act) (c : Consumer) : Prop :=
  match a with
  | .attach link => link.Fresh c.policy ∧ link.conn.told = []
  | .sendRdy _ _ => False
  | _ => True

/-- Sharing the budget out keeps it. -/
theorem Sharing.turns (h : Sharing c c') : Turns budgets c c' := by
  induction h with
  | refl => exact .refl
  | ask i _ _ ih => exact ih.tail (.ask i _)
  | tune _ ht ih => exact ih.tail (.aside (.of_links ht.totalRdy ht.maxInFlight ht.links))

theorem turns_retry (addr : String) (count : Int) (c : Consumer) :
    Turns budgets c (c.retry addr count) := by
  unfold retry
  split
  · exact .single (.ask _ count)
  · exact .single (.aside (.of_links rfl rfl rfl))

theorem turns_passAnswer (chance : Nat → Nat) (i : Nat) (m : Message) (a : Answer) (c : Consumer) :
    Turns budgets c (c.passAnswer chance i m a) := by
  refine passAnswer_invariant .refl ?_ ?_ ?_ ?_
  · intro conn hi
    refine .single (.aside (.modifyLink fun l hl => ?_))
    obtain rfl := conn_eq_of_links hl hi
    exact ⟨⟨rfl, rfl, rfl, rfl, id⟩, rfl⟩
  · intro d hd
    cases a <;> exact hd.tail (.aside (.of_links rfl rfl rfl))
  · exact fun d hd => hd.trans (sharing_signal chance a.signal d).turns
  · exact fun d hd => hd.tail (.aside (.modifyLink fun l _ =>
      .of_steady (Connection.steady_sendAnswer m a l.conn) (Connection.told_sendAnswer m a l.conn)))

/-- A direct act is turns: it enters a link, reports an end, asks for a grant, shares the budget
out, or sets it first. -/
theorem turns_direct {env : Surroundings} (h : Proper env a c) (ha : a.isDirect = true) :
    Turns a.Sets c (c.act env a).2 := by
  cases a with
  | attach link =>
    have ho := Continues.openLink (c := c) Link.Unlent.refl (h.1.toOpened.silent rfl h.2)
    exact .single (.aside ⟨rfl, rfl, ho.congr rfl rfl⟩)
  | retire i => exact .single (.retire i)
  | updateRdy i count => exact .single (.ask i count)
  | sendRdy i count => exact absurd h id
  | retry addr count => exact turns_retry addr count c
  | resume => exact (sharing_resume env.chance c).turns
  | redistribute => exact (sharing_redistribute env.chance c).turns
  | changeMaxInFlight n =>
    have hset : Turns (Act.changeMaxInFlight n).Sets c { c with maxInFlight := n } :=
      .single (.budget rfl)
    exact hset.trans (sharing_changeMaxInFlight n c).turns
  | _ => simp [Act.isDirect] at ha

/-- The moves of an act are turns, and no budget is set but that of the act. -/
theorem Move.turns (h : Move (fun env a' c => Proper env a' c ∧ a' = a) c c') :
    Turns a.Sets c c' := by
  cases h with
  | note hn => exact .single (.aside (.of_links hn.totalRdy hn.maxInFlight hn.links))
  | adjust hq =>
    exact .single (.aside (.modifyLink fun l hl => .of_steady (hq l hl).steady (hq l hl).told))
  | refill i => exact (sharing_refill i c).turns
  | signal chance s => exact (sharing_signal chance s c).turns
  | respread => exact .single (.aside (.of_links rfl rfl rfl))
  | stop => exact .single (.aside (.of_links rfl rfl rfl))
  | reject hl _ ht =>
    exact .single (.aside ⟨rfl, rfl, .openLink Link.Unlent.refl (hl.silent rfl ht)⟩)
  | join hl _ ht =>
    have ho := Continues.openLink (c := c) Link.Unlent.refl (hl.toOpened.silent rfl ht)
    exact .single (.aside ⟨rfl, rfl, ho.congr rfl rfl⟩)
  | arrive m rest hi => exact .single (.arrive m rest hi)
  | bounce i m r => exact turns_passAnswer _ i m r c
  | @take o rest =>
    have ho : Turn a.Sets c { c with
        offers := rest
        handed := c.handed ++ [{ message := o.message, link := o.link }] } :=
      .aside (.of_links rfl rfl rfl)
    exact (Relation.ReflTransGen.single ho).tail
      (.aside (.modifyLink fun l _ => ⟨⟨rfl, rfl, rfl, rfl, id⟩, rfl⟩))
  | @answer _ n d r =>
    have hp : Turn a.Sets c (c.putState n { d.state with responded := true }) :=
      .aside (.of_links rfl rfl rfl)
    exact (Relation.ReflTransGen.single hp).trans (turns_passAnswer _ _ _ r _)
  | settle i => exact .single (.settle i)
  | direct hok ha =>
    obtain ⟨hproper, rfl⟩ := hok
    exact turns_direct hproper ha

theorem step_turns {env : Surroundings} (h : Proper env a c) : Turns a.Sets c (c.step env a).2 :=
  moves_invariant (step_moves ⟨h, rfl⟩) (fun _ _ ht hm => ht.trans (Move.turns hm)) .refl

/-! ### The lines of a turn -/

/-- A grant within the room that a budget leaves meets the budget, unless what is left of a negative
budget lies below the least word. -/
theorem total_le_iff {total rdy n max : Int} (hmax : -2 ^ 63 ≤ max) (hn : 0 < n)
    (hroom : n ≤ word64 (max - total + rdy)) :
    word64 (total + (n - rdy)) ≤ max ↔ -2 ^ 63 ≤ max - (word64 (max - total + rdy) - n) := by
  have hwrap : word64 (total + (n - rdy)) = word64 (max - (word64 (max - total + rdy) - n)) := by
    rw [show max - (word64 (max - total + rdy) - n) = max + n - word64 (max - total + rdy) by omega,
      word64_sub_word64]
    congr 1
    omega
  have hhigh := word64_lt_pow (max - total + rdy)
  rw [hwrap]
  generalize word64 (max - total + rdy) = room at hroom hhigh
  constructor
  · intro hle
    by_contra hlow
    -- the total passes the least word and comes out above every negative budget
    have hover : word64 (max - (room - n)) = max - (room - n) + 2 ^ 64 := by
      rw [← word64_add_pow]
      exact word64_eq_self (by omega) (by omega)
    omega
  · intro hlow
    by_cases hfit : max - (room - n) < 2 ^ 63
    · rw [word64_eq_self hlow hfit]
      omega
    · have := word64_lt_pow (max - (room - n))
      omega

/-- A grant of `n` on a link to which the budget left `room` keeps within all limits; `c` is the
consumer right after it. -/
structure WithinLimits (conn : Connection) (n room : Int) (c : Consumer) : Prop where
  closing : conn.closing = false
  le_maxRdy : n ≤ conn.maxRdy
  le_maxInFlight : 0 < n → 0 ≤ c.maxInFlight → c.totalRdy ≤ c.maxInFlight
  le_maxInFlight_iff : 0 < n → -2 ^ 63 ≤ c.maxInFlight →
    (c.totalRdy ≤ c.maxInFlight ↔ -2 ^ 63 ≤ c.maxInFlight - (room - n))

/-- Asking for a grant of `count` on a link tells its daemon `n`, within all limits. -/
structure Tells (i : Nat) (count n : Int) (c : Consumer) : Prop where
  told : (c.updateRdy i count).2.told i = c.told i ++ [n]
  within : ∃ conn, c.conn? i = some conn ∧
    WithinLimits conn n (c.roomFor conn.rdy) (c.updateRdy i count).2

theorem withinLimits_booked {conn : Connection} {count : Int} (i : Nat)
    (hc : conn.closing = false) (hr : ¬c.Refuses conn count) :
    WithinLimits conn (c.allotment conn count) (c.roomFor conn.rdy)
      (c.booked i conn (c.allotment conn count)) := by
  have hroom : 0 < c.allotment conn count → c.allotment conn count ≤ c.roomFor conn.rdy := by
    intro hn
    by_cases hpos : 0 < c.roomFor conn.rdy
    · exact allotment_le_roomFor hpos count
    · -- without room a grant that asks for some credit is refused
      rw [allotment, if_neg hpos] at hn
      exact absurd ⟨Int.not_lt.mp hpos, hn⟩ hr
  have hiff : 0 < c.allotment conn count → -2 ^ 63 ≤ c.maxInFlight →
      (word64 (c.totalRdy + (c.allotment conn count - conn.rdy)) ≤ c.maxInFlight ↔
        -2 ^ 63 ≤ c.maxInFlight - (c.roomFor conn.rdy - c.allotment conn count)) :=
    fun hn hmax => total_le_iff hmax hn (hroom hn)
  refine ⟨hc, allotment_le_maxRdy conn count c, fun hn hmax => ?_, hiff⟩
  have hhigh : c.roomFor conn.rdy < 2 ^ 63 := word64_lt_pow _
  have hmax' : 0 ≤ c.maxInFlight := hmax
  exact (hiff hn (by omega)).mpr (by omega)

/-- The daemon of a link hears of a grant: the link is open, the line can be written and says
anything new, and the budget refuses nothing. -/
structure Hears (conn : Connection) (count : Int) (c : Consumer) : Prop where
  closing : conn.closing = false
  refusing : conn.refusing = false
  notRefuses : ¬c.Refuses conn count
  new : c.allotment conn count = 0 → conn.lastRdy ≠ 0

/-- A grant that the daemon hears of is booked. -/
theorem updateRdy_of_hears {conn : Connection} {count : Int} (hi : c.conn? i = some conn)
    (hh : c.Hears conn count) :
    (c.updateRdy i count).2 = (c.measure conn).booked i conn (c.allotment conn count) := by
  rcases updateRdy_cases i count c with ⟨-, -, hc⟩ | ⟨conn', hi', -, ⟨hr, -⟩ | ⟨-, h⟩⟩
  · exact absurd (hh.closing.symm.trans (hc conn hi)) (by decide)
  all_goals obtain rfl := Option.some.inj (hi.symm.trans hi')
  · exact absurd hr hh.notRefuses
  · have hi' : (c.measure conn).conn? i = some conn := hi
    rcases sendRdy_cases hi' (c.allotment conn count) with ⟨h0, hl, -⟩ | ⟨r, h', -⟩
    · exact absurd hl (hh.new h0)
    · rw [h, h']

theorem told_updateRdy_of_hears {conn : Connection} {count : Int} (hi : c.conn? i = some conn)
    (hh : c.Hears conn count) :
    (c.updateRdy i count).2.told i = c.told i ++ [c.allotment conn count] := by
  have hi' : (c.measure conn).conn? i = some conn := hi
  rw [updateRdy_of_hears hi hh, told_of_conn (conn?_booked_self hi' _), told_of_conn hi,
    Connection.told_granted, if_neg (by simp [hh.refusing])]

/-- What the daemon does not hear of is not written. -/
theorem told_updateRdy_of_not_hears {conn : Connection} {count : Int} (hi : c.conn? i = some conn)
    (hh : ¬c.Hears conn count) : (c.updateRdy i count).2.told i = c.told i := by
  rcases updateRdy_cases i count c with ⟨e, h, -⟩ | ⟨conn', hi', hc, ⟨-, rs, h, -⟩ | ⟨hr, h⟩⟩
  · rw [h]
  · rw [h]
    rfl
  · obtain rfl := Option.some.inj (hi.symm.trans hi')
    have hi' : (c.measure conn).conn? i = some conn := hi
    rcases sendRdy_cases hi' (c.allotment conn count) with ⟨-, -, h'⟩ | ⟨r, h', -, hne⟩
    · rw [h, h']
      rfl
    · -- the grant is booked, so what is missing is that the line can be written
      have href : conn.refusing = true := by
        by_contra href
        exact hh ⟨hc, by simpa using href, hr, hne⟩
      rw [h, h', told_of_conn (conn?_booked_self hi' _), told_of_conn hi, Connection.told_granted,
        if_pos href]

/-- Only the link that it is for hears of a grant. -/
theorem told_updateRdy_of_ne {i j : Nat} (hji : j ≠ i) (count : Int) (c : Consumer) :
    (c.updateRdy i count).2.told j = c.told j := by
  have hconn : (c.updateRdy i count).2.conn? j = c.conn? j :=
    conn?_grant_of_ne (Ne.symm hji) count c
  rw [told, hconn, ← told]

/-- Asking for a grant tells at most one daemon of it, and that within all limits. -/
theorem told_updateRdy (i j : Nat) (count : Int) (c : Consumer) :
    (c.updateRdy i count).2.told j = c.told j ∨ j = i ∧ ∃ n, Tells i count n c := by
  by_cases hji : j = i
  · subst hji
    cases hi : c.conn? j with
    | none => exact .inl (by rw [updateRdy, hi])
    | some conn =>
      by_cases hh : c.Hears conn count
      · refine .inr ⟨rfl, _, told_updateRdy_of_hears hi hh, conn, hi, ?_⟩
        rw [updateRdy_of_hears hi hh]
        exact withinLimits_booked (c := c.measure conn) j hh.closing hh.notRefuses
      · exact .inl (told_updateRdy_of_not_hears hi hh)
  · exact .inl (told_updateRdy_of_ne hji count c)

theorem Continues.told (h : Continues Link.Untold c c') (i : Nat) : c'.told i = c.told i := by
  cases hl : c.links[i]? with
  | some l =>
    obtain ⟨l', hl', r⟩ := h.old i l hl
    rw [told_of_conn (conn?_of_links hl'), told_of_conn (conn?_of_links hl), r.told]
  | none =>
    cases hl' : c'.links[i]? with
    | some l' =>
      rw [told_of_conn (conn?_of_links hl'), (h.new i l' hl hl').told]
      simp [Consumer.told, conn?, hl]
    | none => simp [Consumer.told, conn?, hl, hl']

/-- A turn tells a daemon nothing, or it asks for a grant and tells it one line. -/
theorem Turn.told_cases (h : Turn budgets c c') (i : Nat) :
    c'.told i = c.told i ∨
      ∃ count n, c' = (c.updateRdy i count).2 ∧ Tells i count n c := by
  rcases h.continues_or_asks with hc | ⟨j, count, rfl⟩
  · exact .inl (hc.told i)
  · rcases told_updateRdy j i count c with hs | ⟨rfl, n, ht⟩
    · exact .inl hs
    · exact .inr ⟨count, n, rfl, ht⟩

/-- In some turns that lead from `c` to `c'`, a grant tells the daemon of a link `n`, after it was
told the counts `before`. -/
def Writes (budgets : Int → Prop) (i : Nat) (before : List Int) (n : Int) (c c' : Consumer) :
    Prop :=
  ∃ d count, Turns budgets c d ∧ Turns budgets (d.updateRdy i count).2 c' ∧ d.told i = before ∧
    Tells i count n d

theorem Writes.tail {before : List Int} {n : Int} {c'' : Consumer}
    (h : Writes budgets i before n c c') (ht : Turn budgets c' c'') :
    Writes budgets i before n c c'' := by
  obtain ⟨d, count, hd, hd', hb, htell⟩ := h
  exact ⟨d, count, hd, hd'.tail ht, hb, htell⟩

/-- Every line that is new after some turns is written by one of them. -/
theorem Turns.told_cases (h : Turns budgets c c') {before after : List Int} {n : Int}
    (ht : c'.told i = before ++ n :: after) :
    (∃ after', c.told i = before ++ n :: after') ∨ Writes budgets i before n c c' := by
  induction h generalizing after with
  | refl => exact .inl ⟨after, ht⟩
  | @tail d d' hd hturn ih =>
    rcases hturn.told_cases i with hs | ⟨count, m, rfl, htell⟩
    · exact (ih (hs ▸ ht)).imp_right fun hw => hw.tail hturn
    · rw [htell.told] at ht
      rcases append_singleton_eq_append_cons ht with ⟨rfl, rfl⟩ | ⟨after', ht'⟩
      · exact .inr ⟨d, count, hd, .refl, rfl, htell⟩
      · exact (ih ht').imp_right fun hw => hw.tail hturn

/-! ### Both sides agree -/

theorem Turn.agreed (h : Turn budgets c c') (ha : ∀ l ∈ c.links, l.conn.Agreed) :
    ∀ l ∈ c'.links, l.conn.Agreed := by
  rcases h.continues_or_asks with hc | ⟨i, count, rfl⟩
  · exact hc.forall_mem (fun _ _ r => r.agreed) (fun _ hs => hs.agreed) ha
  · refine updateRdy_invariant (I := fun d => ∀ l ∈ d.links, l.conn.Agreed) ha ?_ ?_
    · intro d hd ht
      rwa [ht.links]
    · intro d conn hd hi _ _
      refine forall_mem_modify hd fun l hl => ?_
      obtain rfl := conn_eq_of_links hl hi
      exact (hd l (List.mem_of_getElem? hl)).granted _

theorem agreed_of_reaches {s : Subscription} (h : Reaches Proper (ofSubscription s) c) :
    ∀ l ∈ c.links, l.conn.Agreed := by
  have hturns {d d' : Consumer} {a : Act} (ht : Turns a.Sets d d')
      (hd : ∀ l ∈ d.links, l.conn.Agreed) : ∀ l ∈ d'.links, l.conn.Agreed := by
    induction ht with
    | refl => exact hd
    | tail _ hturn ih => exact hturn.agreed ih
  induction h with
  | refl => simp [ofSubscription]
  | step _ ha ih => exact hturns (step_turns ha) ih

/-! ### Runs -/

/-- **What daemons are told.**

* Whatever the state of the consumer, asking for a grant writes at most one line, to the link that
  it is asked for. The link is open, its daemon takes as much, and if the line grants something, the
  total is within the budget right behind it. Only a negative budget may be missed, and exactly if
  what the line leaves of the room takes it below the least word.
* Every line over a link is written in this way in one of the turns of a step of the run, where the
  budget is that of the step, or the one that the act of the step sets.
* The last line over an open link is the grant that the link remembers, and there is no line while
  it remembers none. -/
theorem told_within_limits {s : Subscription} (h : Reaches Proper (ofSubscription s) c) :
    (∀ (d : Consumer) i j count,
      (d.updateRdy i count).2.told j = d.told j ∨ j = i ∧ ∃ n, Tells i count n d) ∧
    (∀ i before n after, c.told i = before ++ n :: after →
      ∃ c₀ env a, Reaches Proper (ofSubscription s) c₀ ∧ Proper env a c₀ ∧
        Writes a.Sets i before n c₀ (c₀.step env a).2 ∧ Reaches Proper (c₀.step env a).2 c) ∧
    ∀ i conn, c.conn? i = some conn → conn.closing = false →
      conn.lastRdy = (c.told i).getLast?.getD 0 := by
  refine ⟨fun d i j count => told_updateRdy i j count d, ?_, fun i conn hi hc => ?_⟩
  · induction h with
    | refl => simp [told, conn?, ofSubscription]
    | @step c' env a hrun ha ih =>
      intro i before n after ht
      rcases Turns.told_cases (step_turns ha) ht with ⟨after', ht'⟩ | hw
      · obtain ⟨c₀, env', a', hc₀, ha', hw, hc'⟩ := ih i before n after' ht'
        exact ⟨c₀, env', a', hc₀, ha', hw, hc'.step ha⟩
      · exact ⟨c', env, a, hrun, ha, hw, .refl⟩
  · obtain ⟨l, hl, rfl⟩ := conn?_eq_some_iff.mp hi
    rw [told_of_conn hi]
    exact (agreed_of_reaches h l (List.mem_of_getElem? hl)).last hc

/-- A link of the sample is new. -/
theorem fresh_sampleLink (addr : String) (maxRdy : Int) :
    (sampleLink addr maxRdy).Fresh sample.policy :=
  ⟨⟨rfl, rfl, rfl, rfl, rfl, rfl, rfl, rfl, rfl⟩, rfl⟩

/-- Two links share a budget of ten messages. The second asks for eight like the first, and its
daemon is told of the two that are left. -/
theorem told_of_short_budget :
    let c := sample.stepAll silence
      [.attach (sampleLink "h:1" 2500), .attach (sampleLink "h:2" 2500), .updateRdy 0 8,
        .updateRdy 1 8]
    c.told 1 = [2] ∧ (∃ d count, d.told 1 = [] ∧ Tells 1 count 2 d) ∧
      ∀ conn, c.conn? 1 = some conn → conn.lastRdy = 2 := by
  intro c
  have hr : Reaches Proper sample c := by
    refine reaches_stepAll ⟨⟨?_, rfl⟩, ⟨?_, rfl⟩, trivial, trivial, trivial⟩
    · exact fresh_sampleLink "h:1" 2500
    · exact fresh_sampleLink "h:2" 2500
  obtain ⟨-, hlines, hlast⟩ := told_within_limits hr
  have ht : c.told 1 = [2] := by decide +kernel
  refine ⟨ht, ?_, fun conn hi => ?_⟩
  · obtain ⟨-, -, -, -, -, ⟨d, count, -, -, hb, htell⟩, -⟩ := hlines 1 [] 2 [] ht
    exact ⟨d, count, hb, htell⟩
  · have hopen : (c.conn? 1).map Connection.closing = some false := by decide +kernel
    rw [hi] at hopen
    rw [hlast 1 conn hi (Option.some.inj hopen), ht]
    rfl

/-- Near the least word a negative budget is missed: two daemons that take less than no credit leave
a room of which a grant of one message uses little, and the total passes the end of the range. -/
theorem total_of_wrapped_grant :
    let c := sample.stepAll silence
      [.attach (sampleLink "h:1" 2500), .updateRdy 0 10, .changeMaxInFlight (-20),
        .attach (sampleLink "h:2" (-2 ^ 63)), .attach (sampleLink "h:3" (-5)), .updateRdy 2 0,
        .updateRdy 1 0]
    let c' := (c.updateRdy 0 1).2
    Reaches Proper sample c ∧ c'.told 0 = c.told 0 ++ [1] ∧ c'.maxInFlight = -20 ∧
      ¬c'.totalRdy ≤ c'.maxInFlight := by
  refine ⟨reaches_stepAll ⟨⟨?_, rfl⟩, trivial, trivial, ⟨?_, rfl⟩, ⟨?_, rfl⟩, trivial, trivial,
    trivial⟩, by decide +kernel, by decide +kernel, by decide +kernel⟩
  · exact fresh_sampleLink "h:1" 2500
  · exact fresh_sampleLink "h:2" (-2 ^ 63)
  · exact fresh_sampleLink "h:3" (-5)

end Consumer

end Nsq
