import Nsq.Proofs.Consumer.Steps

/-!
# The ledger of credit

`Consumer.totalRdy` is meant to be the credit granted over all links whose end was not reported,
`Consumer.credit`. Every operation that touches the credit of a link adjusts the total as well, some
of them deep inside others: a grant whose write fails ends its link, and the link returns its credit
when its end is reported later.

`Lawful` says which acts a run may contain: the end of a link is reported by the link itself and not
from outside, and no grant is booked on a link after its end. Along such runs the total is the
credit as a signed word of 64 bits (`balanced_of_reaches`), so it is the credit itself whenever that
is in the range of a word. The range is a real limit: daemons that ask for grants at the end of it
push the sum out of it. The same invariant says that the table of links never loses an entry to the
end of another link.
-/

namespace Nsq

/-- The credit of a link that has still to return it. -/
def Link.owed (l : Link) : Int := if l.conn.closed then 0 else l.conn.rdy

theorem Link.owed_of_closed_eq_false {l : Link} (h : l.conn.closed = false) :
    l.owed = l.conn.rdy := by
  simp [owed, h]

theorem Link.Quiet.owed {l l' : Link} (h : l.Quiet l') : l'.owed = l.owed := by
  simp [Link.owed, h.steady.closed, h.steady.rdy]

theorem Link.Opened.owed {l : Link} {policy : Connection.Policy} (h : l.Opened policy) :
    l.owed = 0 := by
  simp [Link.owed, h.rdy]

theorem Link.Opened.tidy {l : Link} {policy : Connection.Policy} (h : l.Opened policy)
    (hp : policy.closesOnFault = true) : l.conn.Tidy where
  closesOnFault := h.policy ▸ hp
  closing_of_not_reading e := by simp [h.reading] at e
  closing_of_draining e := by simp [h.draining] at e
  closing_of_closed e := by simp [h.closed] at e
  not_reading_of_closed e := by simp [h.closed] at e

namespace Consumer

/-- The credit granted over all links whose end was not reported. -/
def credit (c : Consumer) : Int := (c.links.map Link.owed).sum

/-! ### Samples -/

/-- An outside in which nobody answers and every draw is zero. -/
def silence : Surroundings where
  dial _ := .error .notConnected
  ask _ := .error .unreachable
  chance _ := 0

/-- A consumer with a budget of ten messages, without handlers and connections. -/
def sample : Consumer :=
  ofSubscription ⟨"events", "archive", (Config.initial "localhost").putCount .maxInFlight 10⟩

/-- A new link of it. -/
def sampleLink (addr : String) (maxRdy : Int) : Link where
  conn := { address := addr, policy := sample.policy, maxRdy := maxRdy }

/-- The octets of a message. -/
def sampleMessage (id : Nat) : Octets :=
  Frame.encode ⟨.message, Message.encode { id := Octets.word 16 id, body := [], attempts := 1 }⟩

/-! ### Order -/

/-- Links end in order, and the table lists links whose end was not reported under their own
addresses. -/
structure Orderly (c : Consumer) : Prop where
  tidy : ∀ l ∈ c.links, l.conn.Tidy
  listed : ∀ e ∈ c.live, ∃ conn, c.conn? e.2 = some conn ∧ conn.address = e.1 ∧ conn.closed = false

namespace Orderly

variable {c c' : Consumer}

theorem tidy_conn (h : Orderly c) {i : Nat} {conn : Connection} (hi : c.conn? i = some conn) :
    conn.Tidy := by
  obtain ⟨l, hl, rfl⟩ := conn?_eq_some_iff.mp hi
  exact h.tidy l (List.mem_of_getElem? hl)

/-- Changes of links that keep them in order, and neither move nor end them, keep order. -/
theorem linkwise (h : Orderly c) (hl : c'.live = c.live)
    (hw : Linkwise (fun l l' => Connection.Calm l.conn l'.conn ∧
      l'.conn.address = l.conn.address ∧ l'.conn.closed = l.conn.closed) c c') : Orderly c' where
  tidy := hw.forall_mem (fun _ _ r t => r.1.tidy t) h.tidy
  listed e he := by
    obtain ⟨conn, hi, ha, hc⟩ := h.listed e (hl ▸ he)
    obtain ⟨l, hl', rfl⟩ := conn?_eq_some_iff.mp hi
    obtain ⟨l', hi', r⟩ := hw.get hl'
    exact ⟨l'.conn, conn?_of_links hi', r.2.1.trans ha, r.2.2.trans hc⟩

theorem lending (h : Orderly c) (hl : Lending c c') : Orderly c' := by
  refine h.linkwise hl.live fun i => ?_
  have hi := hl.links i
  revert hi
  cases c.links[i]? <;> cases c'.links[i]? <;> rintro (r | _)
  · exact .none
  · exact .some ⟨r.calm, r.address, r.closed⟩

/-- A link may change as long as it stays in order and is neither moved nor ended. -/
theorem modifyLink (h : Orderly c) {i : Nat} {f : Link → Link}
    (hf : ∀ l, c.links[i]? = some l → l.conn.Tidy → (f l).conn.Tidy ∧
      (f l).conn.address = l.conn.address ∧ (f l).conn.closed = l.conn.closed) :
    Orderly (c.modifyLink i f) where
  tidy := forall_mem_modify h.tidy fun l hl => (hf l hl (h.tidy l (List.mem_of_getElem? hl))).1
  listed e he := by
    obtain ⟨conn, hi, ha, hc⟩ := h.listed e he
    obtain ⟨l, hl, rfl⟩ := conn?_eq_some_iff.mp hi
    by_cases hie : i = e.2
    · subst hie
      obtain ⟨-, ha', hc'⟩ := hf l hl (h.tidy l (List.mem_of_getElem? hl))
      exact ⟨_, conn?_modifyLink_self hl f, ha'.trans ha, hc'.trans hc⟩
    · exact ⟨l.conn, (conn?_modifyLink_of_ne hie f c).trans hi, ha, hc⟩

theorem putConn (h : Orderly c) {i : Nat} {conn conn' : Connection} (hi : c.conn? i = some conn)
    (ht : conn.Tidy → conn'.Tidy) (ha : conn'.address = conn.address)
    (hc : conn'.closed = conn.closed) : Orderly (c.putConn i conn') := by
  refine h.modifyLink fun l hl t => ?_
  obtain rfl : l.conn = conn := conn_eq_of_links hl hi
  exact ⟨ht t, ha, hc⟩

/-- New entries of the table keep order if they are right. -/
theorem enter (h : Orderly c) {i : Nat} {conn : Connection} (hi : c.conn? i = some conn)
    (hc : conn.closed = false) : Orderly (c.enter conn.address i) where
  tidy := h.tidy
  listed e he := by
    rcases List.mem_append.mp he with he | he
    · exact h.listed e (List.mem_filter.mp he).1
    · obtain rfl := List.mem_singleton.mp he
      exact ⟨conn, hi, rfl, hc⟩

theorem openLink (h : Orderly c) {l : Link} (hl : l.Opened c.policy) :
    Orderly (c.openLink l).2 where
  tidy l' hl' := by
    rcases List.mem_append.mp hl' with hl' | hl'
    · exact h.tidy l' hl'
    · obtain rfl := List.mem_singleton.mp hl'
      exact hl.tidy rfl
  listed e he := by
    obtain ⟨conn, hi, ha, hc⟩ := h.listed e he
    refine ⟨conn, ?_, ha, hc⟩
    obtain ⟨l', hl', rfl⟩ := conn?_eq_some_iff.mp hi
    exact conn?_of_links (getElem?_openLink hl' l)

theorem welcome (h : Orderly c) {l : Link} (hl : l.Fresh c.policy) : Orderly (c.welcome l) :=
  (h.openLink hl.toOpened).enter (conn?_openLink l c) hl.closed

end Orderly

theorem Orderly.sendAnswer {c : Consumer} (h : Orderly c) (i : Nat) (m : Message) (a : Answer) :
    Orderly (c.modifyConn i fun conn => (conn.sendAnswer m a).2) := by
  refine h.modifyLink fun l _ t => ?_
  have hs := Connection.steady_sendAnswer m a l.conn
  exact ⟨(Connection.calm_sendAnswer m a l.conn).tidy t, hs.address, hs.closed⟩

theorem Orderly.passAnswer {c : Consumer} (h : Orderly c) (chance : Nat → Nat) (i : Nat)
    (m : Message) (a : Answer) : Orderly (c.passAnswer chance i m a) := by
  refine passAnswer_invariant h ?_ ?_ ?_ ?_
  · exact fun conn hi => h.putConn hi Connection.Tidy.countAnswer rfl rfl
  · intro d hd
    cases a <;> exact ⟨hd.tidy, hd.listed⟩
  · exact fun d hd => hd.lending (dealing_signal chance a.signal d).lending
  · exact fun d hd => hd.sendAnswer i m a

theorem Orderly.settleLink {c : Consumer} (h : Orderly c) (i : Nat) : Orderly (c.settleLink i) := by
  cases hi : c.conn? i with
  | none => rwa [settleLink_of_none hi]
  | some conn =>
    have hs := Connection.steady_settled conn
    rcases settleLink_cases hi with ⟨heq, -⟩ | ⟨-, hd, hr⟩
    · rw [heq]
      exact h.putConn hi (Connection.calm_settled conn).tidy hs.address hs.closed
    · refine ⟨?_, fun e he => ?_⟩
      · rw [hr.links]
        refine forall_mem_modify h.tidy fun l hl => ?_
        exact (h.tidy_conn hi).reported hd
      · -- the entry of this link has left the table, the others name other links
        rw [hr.live, List.mem_filter, bne_iff_ne] at he
        obtain ⟨conn', hi', ha, hc⟩ := h.listed e he.1
        refine ⟨conn', ?_, ha, hc⟩
        rw [conn?, hr.links, ← conn?, ← hi']
        refine conn?_modifyLink_of_ne (fun hie => he.2 ?_) _ c
        subst hie
        obtain rfl : conn' = conn := Option.some.inj (hi'.symm.trans hi)
        exact Prod.ext (ha.symm.trans hs.address.symm) rfl

/-- **Moves keep order**, if the links that are attached are new and no end is reported from
outside. -/
theorem Orderly.move {ok : Surroundings → Act → Consumer → Prop} {c c' : Consumer} (h : Orderly c)
    (hm : Move ok c c') (hattach : ∀ env c link, ok env (.attach link) c → link.Fresh c.policy)
    (hretire : ∀ env c i, ¬ok env (.retire i) c) : Orderly c' := by
  cases hm with
  | note hn =>
    exact ⟨hn.links ▸ h.tidy, fun e he => by
      simpa only [conn?, hn.links] using h.listed e (hn.live ▸ he)⟩
  | adjust hq =>
    exact h.modifyLink fun l hl t =>
      ⟨(hq l hl).calm.tidy t, (hq l hl).steady.address, (hq l hl).steady.closed⟩
  | refill i => exact h.lending (dealing_refill i c).lending
  | signal chance s => exact h.lending (dealing_signal chance s c).lending
  | respread => exact ⟨h.tidy, h.listed⟩
  | stop => exact ⟨h.tidy, h.listed⟩
  | reject hl => exact h.openLink hl
  | join hl => exact h.welcome hl
  | arrive m rest hi hr hs =>
    -- neither the totals nor the offers concern order
    have hc : ∀ offers received total, Orderly
        { c with offers := offers, received := received, totalRdy := total } :=
      fun _ _ _ => ⟨h.tidy, h.listed⟩
    refine (hc _ _ _).modifyLink fun l hl t => ?_
    obtain rfl := conn_eq_of_links hl hi
    exact ⟨⟨t.1, t.2, t.3, t.4, t.5⟩, rfl, rfl⟩
  | bounce i m a => exact h.passAnswer _ i m a
  | take ho =>
    have hc : ∀ offers handed, Orderly { c with offers := offers, handed := handed } :=
      fun _ _ => ⟨h.tidy, h.listed⟩
    exact (hc _ _).modifyLink fun l _ t => ⟨⟨t.1, t.2, t.3, t.4, t.5⟩, rfl, rfl⟩
  | answer a hn hr =>
    have hc : ∀ n s, Orderly (c.putState n s) := fun _ _ => ⟨h.tidy, h.listed⟩
    exact (hc _ _).passAnswer _ _ _ a
  | settle i => exact h.settleLink i
  | @direct env a hok ha =>
    obtain ⟨link, rfl⟩ | ⟨i, rfl⟩ | hl := direct_lending_cases ha c
    · exact h.welcome (hattach env c link hok)
    · exact absurd hok (hretire env c i)
    · exact h.lending hl

/-! ### The balance -/

/-- Which acts a run may contain: links are new when they are attached, their ends are reported by
themselves, and a grant is booked as it is only on a link whose end was not reported. -/
def Lawful (_ : Surroundings) (a : Act) (c : Consumer) : Prop :=
  match a with
  | .attach link => link.Fresh c.policy
  | .retire _ => False
  | .sendRdy i _ => ∀ conn, c.conn? i = some conn → conn.closed = false
  | _ => True

/-- The total of the credit is right, as a word of 64 bits. -/
def Balanced (c : Consumer) : Prop := c.totalRdy = word64 c.credit

/-- The room of a link is what the budget leaves beside the credit of all others, as a word. -/
theorem roomFor_of_totalRdy {n : Int} {c : Consumer} (h : c.totalRdy = word64 n) (rdy : Int) :
    c.roomFor rdy = word64 (c.maxInFlight - (n - rdy)) := by
  rw [roomFor, spare, h, Int.add_comm, ← Int.add_sub_assoc, word64_sub_word64]
  congr 1
  omega

/-- A link that changes its credit changes the sum by as much. -/
theorem credit_modifyLink {i : Nat} {l : Link} {c : Consumer} (h : c.links[i]? = some l)
    (f : Link → Link) : (c.modifyLink i f).credit = c.credit + ((f l).owed - l.owed) :=
  sum_map_modify Link.owed h f

theorem credit_modifyLink_of_owed {i : Nat} {f : Link → Link} {c : Consumer}
    (h : ∀ l, c.links[i]? = some l → (f l).owed = l.owed) :
    (c.modifyLink i f).credit = c.credit := by
  cases hl : c.links[i]? with
  | none => simp only [credit, modifyLink, modify_of_getElem?_eq_none hl]
  | some l => rw [credit_modifyLink hl, h l hl, Int.sub_self, Int.add_zero]

/-- A total may be cut down to a word before something is added to it. -/
theorem word64_word64_add (m n : Int) : word64 (word64 m + n) = word64 (m + n) := by
  rw [Int.add_comm, word64_add_word64, Int.add_comm]

namespace Balanced

variable {c c' : Consumer}

theorem of_eq (h : Balanced c) (ht : c'.totalRdy = c.totalRdy) (hl : c'.links = c.links) :
    Balanced c' := by
  rw [Balanced, ht, credit, hl]
  exact h

/-- A change of a link that leaves its credit alone keeps the balance. -/
theorem modifyLink (h : Balanced c) {i : Nat} {f : Link → Link}
    (hf : ∀ l, c.links[i]? = some l → (f l).owed = l.owed) : Balanced (c.modifyLink i f) := by
  rw [Balanced, credit_modifyLink_of_owed hf]
  exact h

theorem putConn (h : Balanced c) {i : Nat} {conn conn' : Connection} (hi : c.conn? i = some conn)
    (hc : conn'.closed = conn.closed) (hr : conn'.rdy = conn.rdy) :
    Balanced (c.putConn i conn') := by
  refine h.modifyLink fun l hl => ?_
  obtain rfl : l.conn = conn := conn_eq_of_links hl hi
  simp [Link.owed, hc, hr]

/-- A grant that is booked before the end of a link was reported keeps the balance. -/
theorem booked (h : Balanced c) {i : Nat} {conn : Connection} (hi : c.conn? i = some conn)
    (hc : conn.closed = false) (n : Int) : Balanced (c.booked i conn n) := by
  obtain ⟨l, hl, rfl⟩ := conn?_eq_some_iff.mp hi
  have hg : (l.conn.granted n).closed = false := ((Link.lent_granted n l).closed).trans hc
  have hcredit : (c.booked i l.conn n).credit = c.credit + (n - l.conn.rdy) := by
    have hm := credit_modifyLink
      (c := { c with totalRdy := word64 (c.totalRdy + (n - l.conn.rdy)) }) hl
      fun l' => { l' with conn := l.conn.granted n }
    rw [Link.owed_of_closed_eq_false hc, Link.owed_of_closed_eq_false hg,
      Connection.granted_rdy] at hm
    exact hm
  rw [Balanced, hcredit]
  show word64 (c.totalRdy + (n - l.conn.rdy)) = _
  rw [h, word64_word64_add]

theorem sendRdy (h : Balanced c) {i : Nat}
    (hc : ∀ conn, c.conn? i = some conn → conn.closed = false) (n : Int) :
    Balanced (c.sendRdy i n).2 := by
  cases hi : c.conn? i with
  | none => simpa [Consumer.sendRdy, hi] using h
  | some conn =>
    rcases sendRdy_cases hi n with ⟨-, -, hs⟩ | ⟨r, hs, -⟩ <;> rw [hs]
    · exact h
    · exact h.booked hi (hc conn hi) n

theorem openLink (h : Balanced c) {l : Link} (hl : l.Opened c.policy) :
    Balanced (c.openLink l).2 := by
  have hcredit : (c.openLink l).2.credit = c.credit := by
    simp [credit, Consumer.openLink, hl.owed]
  rw [Balanced, hcredit]
  exact h

theorem welcome (h : Balanced c) {l : Link} (hl : l.Fresh c.policy) : Balanced (c.welcome l) :=
  (h.openLink hl.toOpened).of_eq rfl rfl

/-- Credit is only dealt out to links that are open, so their ends were not reported. -/
theorem dealing (h : Balanced c) (ho : Orderly c) (hd : Dealing c c') : Balanced c' := by
  have hboth : Orderly c' ∧ Balanced c' := by
    refine hd.invariant (I := fun d => Orderly d ∧ Balanced d) ⟨ho, h⟩ ?_ ?_
    · rintro d d' ⟨hod, hbd⟩ ht
      exact ⟨hod.lending (Dealing.of_tuned ht).lending, hbd.of_eq ht.totalRdy ht.links⟩
    · rintro d i conn n ⟨hod, hbd⟩ hi hc -
      have hcl := (hod.tidy_conn hi).closed_of_open hc
      exact ⟨hod.lending (lending_booked hi n), hbd.booked hi hcl n⟩
  exact hboth.2

/-- A message takes one off the credit of its link, and off the total. -/
theorem takeIn (h : Balanced c) (ho : Orderly c) {i : Nat} {conn : Connection}
    (hi : c.conn? i = some conn) (hr : conn.reading = true) (m : Message) (rest : Octets) :
    Balanced (c.takeIn i m ({ conn with unread := rest } : Connection).arrive) := by
  obtain ⟨l, hl, rfl⟩ := conn?_eq_some_iff.mp hi
  have hc : l.conn.closed = false := (ho.tidy_conn hi).closed_of_reading hr
  set conn' := ({ l.conn with unread := rest } : Connection).arrive with hconn
  have hm : (c.takeIn i m conn').credit = c.credit + (word64 (l.conn.rdy - 1) - l.conn.rdy) := by
    have ho' : (Link.hearing conn' c.serving l).owed = word64 (l.conn.rdy - 1) :=
      Link.owed_of_closed_eq_false hc
    have hm := credit_modifyLink (i := i) (l := l)
      (c := { c with totalRdy := word64 (c.totalRdy - 1), received := c.received + 1 }) hl
      (Link.hearing conn' c.serving)
    rw [ho', Link.owed_of_closed_eq_false hc] at hm
    exact hm
  rw [Balanced, hm]
  -- the credit of the link is cut down to a word as the total is
  show word64 (c.totalRdy - 1) = _
  rw [h, show c.credit + (word64 (l.conn.rdy - 1) - l.conn.rdy) =
    c.credit - l.conn.rdy + word64 (l.conn.rdy - 1) by omega, word64_add_word64,
    Int.sub_eq_add_neg, word64_word64_add]
  congr 1
  omega

theorem passAnswer (h : Balanced c) (ho : Orderly c) (chance : Nat → Nat) (i : Nat) (m : Message)
    (a : Answer) : Balanced (c.passAnswer chance i m a) := by
  -- that credit is dealt out by the signal needs order, which is carried along
  suffices hboth : Orderly (c.passAnswer chance i m a) ∧ Balanced (c.passAnswer chance i m a) from
    hboth.2
  refine passAnswer_invariant (I := fun c => Orderly c ∧ Balanced c) ⟨ho, h⟩ ?_ ?_ ?_ ?_
  · exact fun conn hi =>
      ⟨ho.putConn hi Connection.Tidy.countAnswer rfl rfl, h.putConn hi rfl rfl⟩
  · rintro d ⟨hod, hbd⟩
    cases a <;> exact ⟨⟨hod.tidy, hod.listed⟩, hbd.of_eq rfl rfl⟩
  · rintro d ⟨hod, hbd⟩
    have hs := dealing_signal chance a.signal d
    exact ⟨hod.lending hs.lending, hbd.dealing hod hs⟩
  · rintro d ⟨hod, hbd⟩
    refine ⟨hod.sendAnswer i m a, hbd.modifyLink fun l _ => ?_⟩
    have hs := Connection.steady_sendAnswer m a l.conn
    simp [Link.owed, hs.closed, hs.rdy]

/-- A link returns its credit when its end is reported. -/
theorem settleLink (h : Balanced c) (i : Nat) : Balanced (c.settleLink i) := by
  cases hi : c.conn? i with
  | none => rwa [settleLink_of_none hi]
  | some conn =>
    have hs := Connection.steady_settled conn
    rcases settleLink_cases hi with ⟨heq, -⟩ | ⟨hc, hd, hr⟩
    · rw [heq]
      exact h.putConn hi hs.closed hs.rdy
    · -- a link whose end is reported owes nothing any more
      obtain ⟨l, hl, rfl⟩ := conn?_eq_some_iff.mp hi
      have hm : (c.settleLink i).credit = c.credit + (0 - l.conn.rdy) := by
        have hm := credit_modifyLink hl fun l' =>
          { l' with conn := { l.conn.settled with closed := true } }
        rw [Link.owed_of_closed_eq_false hc] at hm
        rw [credit, hr.links]
        exact hm
      rw [Balanced, hm, hr.totalRdy]
      show word64 (c.totalRdy - l.conn.settled.rdy) = _
      rw [hs.rdy, h, Int.sub_eq_add_neg, word64_word64_add, Int.zero_sub]

end Balanced

/-- **Lawful moves keep the balance.** -/
theorem Balanced.move {c c' : Consumer} (h : Balanced c) (ho : Orderly c)
    (hm : Move Lawful c c') : Balanced c' := by
  cases hm with
  | note hn => exact h.of_eq hn.totalRdy hn.links
  | adjust hq => exact h.modifyLink fun l hl => (hq l hl).owed
  | refill i => exact h.dealing ho (dealing_refill i c)
  | signal chance s => exact h.dealing ho (dealing_signal chance s c)
  | respread => exact h.of_eq rfl rfl
  | stop => exact h.of_eq rfl rfl
  | reject hl => exact h.openLink hl
  | join hl => exact h.welcome hl
  | arrive m rest hi hr => exact h.takeIn ho hi hr m rest
  | bounce i m a => exact h.passAnswer ho _ i m a
  | take ho =>
    have hc : ∀ offers handed, Balanced { c with offers := offers, handed := handed } :=
      fun _ _ => h.of_eq rfl rfl
    exact (hc _ _).modifyLink fun l _ => rfl
  | answer a hn hr =>
    have hc : ∀ n s, Balanced (c.putState n s) := fun _ _ => h.of_eq rfl rfl
    have hoc : ∀ n s, Orderly (c.putState n s) := fun _ _ => ⟨ho.tidy, ho.listed⟩
    exact (hc _ _).passAnswer (hoc _ _) _ _ _ a
  | settle i => exact h.settleLink i
  | @direct env a hok ha =>
    obtain ⟨link, rfl⟩ | ⟨i, rfl⟩ | ⟨i, count, rfl⟩ | hd := direct_cases ha c
    · exact h.welcome hok
    · exact absurd hok id
    · exact h.sendRdy hok count
    · exact h.dealing ho hd

/-! ### The table -/

/-- An address that no link serves is not in the table. -/
theorem address_ne_of_serving?_eq_none {addr : String} {c : Consumer}
    (h : c.serving? addr = none) {e : String × Nat} (he : e ∈ c.live) : e.1 ≠ addr := by
  rw [serving?, Option.map_eq_none_iff, List.find?_eq_none] at h
  simpa using h e he

theorem mem_live_of_serving? {addr : String} {i : Nat} {c : Consumer}
    (h : c.serving? addr = some i) : (addr, i) ∈ c.live := by
  obtain ⟨e, he, rfl⟩ := Option.map_eq_some_iff.mp h
  have haddr : e.1 = addr := by simpa using List.find?_some he
  exact haddr ▸ List.mem_of_find?_eq_some he

/-- An entry stays in the table until the end of its own link was reported. -/
def Kept (e : String × Nat) (c : Consumer) : Prop :=
  e ∈ c.live ∨ ∃ conn, c.conn? e.2 = some conn ∧ conn.closed = true

theorem Kept.of_grown {e : String × Nat} {c c' : Consumer} (h : Kept e c) (hg : Grown c c')
    (hl : e ∈ c.live → e ∈ c'.live) : Kept e c' := by
  rcases h with h | ⟨conn, hi, hc⟩
  · exact .inl (hl h)
  · obtain ⟨l, hl', rfl⟩ := conn?_eq_some_iff.mp hi
    obtain ⟨l', hi', r⟩ := hg.links e.2 l hl'
    exact .inr ⟨l'.conn, conn?_of_links hi', r.closed hc⟩

/-- No move takes an entry out of the table whose link has not ended, unless another link is
attached in its place. -/
theorem Kept.move {ok : Surroundings → Act → Consumer → Prop} {e : String × Nat} {c c' : Consumer}
    (h : Kept e c) (hm : Move ok c c')
    (hattach : ∀ env c link, ok env (.attach link) c → link.conn.address ≠ e.1)
    (hretire : ∀ env c i, ¬ok env (.retire i) c) : Kept e c' := by
  have hg := Grown.move hm
  have hlend : Lending c c' → Kept e c' := fun hl => h.of_grown hg fun he => hl.live ▸ he
  cases hm with
  | note hn => exact h.of_grown hg fun he => hn.live ▸ he
  | adjust => exact h.of_grown hg id
  | refill i => exact hlend (dealing_refill i c).lending
  | signal chance s => exact hlend (dealing_signal chance s c).lending
  | respread => exact h.of_grown hg id
  | stop => exact h.of_grown hg id
  | reject => exact h.of_grown hg id
  | join hl hs =>
    refine h.of_grown hg fun he => List.mem_append_left _ (List.mem_filter.mpr ⟨he, ?_⟩)
    rw [bne_iff_ne]
    exact address_ne_of_serving?_eq_none hs he
  | arrive => exact h.of_grown hg id
  | bounce i m a => exact h.of_grown hg fun he => (passed_passAnswer _ i m a c).live ▸ he
  | take => exact h.of_grown hg id
  | @answer chance n d a =>
    have hl := (passed_passAnswer chance d.link d.message a
      (c.putState n { d.state with responded := true })).live
    exact h.of_grown hg fun he => by rwa [hl]
  | settle i =>
    cases hi : c.conn? i with
    | none => rwa [settleLink_of_none hi]
    | some conn =>
      rcases settleLink_cases hi with ⟨heq, -⟩ | ⟨-, -, hr⟩
      · exact h.of_grown hg fun he => by rwa [heq]
      · -- the entry that leaves names the link as well as its address
        by_cases hei : e.2 = i
        · refine .inr ⟨{ conn.settled with closed := true }, ?_, rfl⟩
          rw [hei, conn?, hr.links, ← conn?, conn?_putConn_self hi]
        · refine h.of_grown hg fun he => ?_
          rw [hr.live, List.mem_filter, bne_iff_ne]
          exact ⟨he, fun h' => hei (congrArg Prod.snd h')⟩
  | @direct env a hok ha =>
    obtain ⟨link, rfl⟩ | ⟨i, rfl⟩ | hl := direct_lending_cases ha c
    · refine h.of_grown hg fun he => List.mem_append_left _ (List.mem_filter.mpr ⟨he, ?_⟩)
      rw [bne_iff_ne]
      exact (hattach env c link hok).symm
    · exact absurd hok (hretire env c i)
    · exact hlend hl

/-! ### Runs -/

theorem orderly_ofSubscription (s : Subscription) : Orderly (ofSubscription s) :=
  ⟨by simp [ofSubscription], by simp [ofSubscription]⟩

theorem balanced_of_reaches {s : Subscription} {c : Consumer}
    (h : Reaches Lawful (ofSubscription s) c) : Orderly c ∧ Balanced c := by
  refine h.invariant (I := fun c => Orderly c ∧ Balanced c) ?_ ⟨orderly_ofSubscription s, rfl⟩
  intro c₁ c₂ ⟨ho, hb⟩ hm
  exact ⟨ho.move hm (fun _ _ _ hok => hok) fun _ _ _ hok => hok, hb.move ho hm⟩

/-- **The ledger of credit.** Along every run the total is the credit over all links whose end was
not reported, as a signed word of 64 bits, and so the credit itself where that fits. Every entry of
the table is of such a link, and a step takes an entry out of the table only when the end of its own
link is reported, or another link is attached at its address. -/
theorem totalRdy_eq_credit {s : Subscription} {c : Consumer}
    (h : Reaches Lawful (ofSubscription s) c) :
    c.totalRdy = word64 c.credit ∧
      (-2 ^ 63 ≤ c.credit → c.credit < 2 ^ 63 → c.totalRdy = c.credit) ∧
      (∀ e ∈ c.live,
        ∃ conn, c.conn? e.2 = some conn ∧ conn.address = e.1 ∧ conn.closed = false) ∧
      ∀ env a, Lawful env a c → ∀ e ∈ c.live,
        (∀ link, a = .attach link → link.conn.address ≠ e.1) →
          e ∈ (c.step env a).2.live ∨
            ∃ conn, (c.step env a).2.conn? e.2 = some conn ∧ conn.closed = true := by
  obtain ⟨ho, hb⟩ := balanced_of_reaches h
  refine ⟨hb, fun low high => hb.trans (word64_eq_self low high), ho.listed, ?_⟩
  intro env a hok e he ha
  have hm : Moves (fun _ a' _ => a' = a) c (c.step env a).2 := step_moves rfl
  refine moves_invariant hm (I := Kept e) (fun c₁ c₂ h hm => h.move hm ?_ ?_) (.inl he)
  · exact fun _ _ link hlink => ha link hlink.symm
  · rintro _ _ i rfl
    exact hok

/-- A probe that is answered by two messages: the link and the total are overdrawn alike. -/
theorem totalRdy_of_overdrawn_probe :
    let c := sample.stepAll silence
      [.addHandlers 2, .attach (sampleLink "h:1" 2500), .signal .backoff, .resume,
        .feed 0 (sampleMessage 1), .feed 0 (sampleMessage 2)]
    c.received = 2 ∧ c.credit = -1 ∧ c.totalRdy = c.credit := by
  intro c
  have hr : Reaches Lawful sample c := by
    refine reaches_stepAll ⟨trivial, ?_, trivial, trivial, trivial, trivial, trivial⟩
    exact ⟨⟨by decide +kernel, rfl, rfl, rfl, rfl, rfl, rfl, rfl, rfl⟩, rfl⟩
  have hc : c.credit = -1 := by decide +kernel
  refine ⟨by decide +kernel, hc, (totalRdy_eq_credit hr).2.1 ?_ ?_⟩ <;> rw [hc] <;> decide

/-- The range of a word is a limit: two links that were granted its least value together hold a
credit that the total cannot show. -/
theorem totalRdy_ne_credit :
    let c := sample.stepAll silence
      [.changeMaxInFlight (-1), .attach (sampleLink "h:1" (-2 ^ 63)), .updateRdy 0 0,
        .attach (sampleLink "h:2" (-2 ^ 63)), .updateRdy 1 0]
    Reaches Lawful sample c ∧ c.credit = -2 ^ 64 ∧ c.totalRdy = 0 := by
  refine ⟨reaches_stepAll ⟨trivial, ?_, trivial, ?_, trivial, trivial⟩, by decide +kernel,
    by decide +kernel⟩
  · exact ⟨⟨by decide +kernel, rfl, rfl, rfl, rfl, rfl, rfl, rfl, rfl⟩, rfl⟩
  · exact ⟨⟨by decide +kernel, rfl, rfl, rfl, rfl, rfl, rfl, rfl, rfl⟩, rfl⟩

end Consumer

end Nsq
