import Nsq.Proofs.Consumer.Ledger
import Nsq.Proofs.Consumer.Seeking

/-!
# Connections that do not come about

Connecting to a daemon may fail at many stages: before anything is dialed, while the session is
opened, or when the channel cannot be subscribed, which leaves a link behind whose end is asked for.
Whichever it is, the books of the consumer are as they were (`Undone`), also after that link has
ended: it was never in the table, and it holds no credit. What stays is the address, which is taken
down as soon as nothing stands in the way of dialing it.

A daemon that was left is not tried again: `connect_undone_and_disconnect_final`.
-/

namespace Nsq.Consumer

/-- The books of a consumer are as they were: which links serve which addresses, which addresses are
being connected to, the credit of every link and over all of them, and the level of the backoff. -/
structure SameBooks (c c' : Consumer) : Prop where
  live : c'.live = c.live
  pending : c'.pending = c.pending
  totalRdy : c'.totalRdy = c.totalRdy
  level : c'.level = c.level
  links : ∀ (i : Nat) (l : Link), c.links[i]? = some l → c'.links[i]? = some l
  credit : ∀ i, c'.rdyOf i = c.rdyOf i

/-- An attempt to connect to an address has left no trace in the books. The address is one to come
back to if it was so before, or if nothing stood in the way of dialing it. -/
structure Undone (addr : String) (c c' : Consumer) : Prop extends SameBooks c c' where
  daemons : ∀ a, a ∈ c'.daemons ↔ a ∈ c.daemons ∨ a = addr ∧ c.Dials addr

/-- The links are the same but for those that were opened since, which hold no credit. -/
theorem rdyOf_eq_of_links {c c' : Consumer}
    (hold : ∀ (i : Nat) (l : Link), c.links[i]? = some l → c'.links[i]? = some l)
    (hnew : ∀ (i : Nat) (conn : Connection), c.links[i]? = none → c'.conn? i = some conn →
      conn.rdy = 0) (i : Nat) : c'.rdyOf i = c.rdyOf i := by
  cases hl : c.links[i]? with
  | some l => rw [rdyOf_of_conn (conn?_of_links hl), rdyOf_of_conn (conn?_of_links (hold i l hl))]
  | none =>
    have hnone : c.rdyOf i = 0 := by simp [rdyOf, conn?, hl]
    cases hc : c'.conn? i with
    | none => rw [hnone, rdyOf, hc]; rfl
    | some conn => rw [hnone, rdyOf_of_conn hc, hnew i conn hl hc]

theorem mem_daemons_seeking {a addr : String} {c : Consumer} :
    a ∈ (c.seeking addr).daemons ↔ a ∈ c.daemons ∨ a = addr := by
  simp only [seeking]
  split_ifs with h
  · refine ⟨.inl, ?_⟩
    rintro (ha | rfl)
    · exact ha
    · exact List.contains_iff_mem.mp h
  · simp

/-- What a failed attempt to connect leaves: it was refused, or it has taken the address down, and
then perhaps a link behind whose end is asked for. -/
theorem failed_connect_cases {env : Surroundings} {addr : String} {c : Consumer}
    {failure : Failure} (h : (c.connect env addr).1 = .error failure) :
    (¬c.Dials addr ∧ ∃ b, (c.connect env addr).2 = { c with connected := b }) ∨
      (c.Dials addr ∧ (c.connect env addr).2 = c.seeking addr) ∨
      (c.Dials addr ∧ ∃ l : Link, l.Fresh c.policy ∧ l.conn.address = addr ∧
        (c.connect env addr).2 =
          ((c.seeking addr).openLink { l with conn := l.conn.close }).2) := by
  rcases connect_cases env addr c with ⟨hd, _, b, hc⟩ | ⟨hd, ⟨_, hc⟩ |
    ⟨l, _, hf, ha, -, hc⟩ | ⟨l, -, -, -, hc⟩⟩ <;> rw [hc] at h ⊢
  · exact .inl ⟨hd, b, rfl⟩
  · exact .inr (.inl ⟨hd, rfl⟩)
  · exact .inr (.inr ⟨hd, l, hf, ha, rfl⟩)
  · exact absurd h (by simp)

/-- **A connection that does not come about leaves no trace in the books.** -/
theorem undone_of_connect {env : Surroundings} {addr : String} {c : Consumer} {failure : Failure}
    (h : (c.connect env addr).1 = .error failure) : Undone addr c (c.connect env addr).2 := by
  have hsought : c.Dials addr → ∀ a, a ∈ (c.seeking addr).daemons ↔
      a ∈ c.daemons ∨ a = addr ∧ c.Dials addr := by
    intro hd a
    rw [mem_daemons_seeking]
    simp [hd]
  rcases failed_connect_cases h with ⟨hd, b, hc⟩ | ⟨hd, hc⟩ | ⟨hd, l, hf, -, hc⟩ <;> rw [hc]
  · exact { live := rfl, pending := rfl, totalRdy := rfl, level := rfl, links := fun _ _ => id,
            credit := fun _ => rfl, daemons := fun a => by simp [hd] }
  · exact { live := rfl, pending := rfl, totalRdy := rfl, level := rfl, links := fun _ _ => id,
            credit := fun _ => rfl, daemons := hsought hd }
  · set l' : Link := { l with conn := l.conn.close } with hl'
    have hlinks : ∀ (i : Nat) (k : Link), c.links[i]? = some k →
        ((c.seeking addr).openLink l').2.links[i]? = some k :=
      fun i k hk => getElem?_openLink (c := c.seeking addr) hk l'
    refine ⟨⟨rfl, rfl, rfl, rfl, hlinks, rdyOf_eq_of_links hlinks ?_⟩, hsought hd⟩
    intro i conn hnone hconn
    rcases conn?_of_openLink hconn with hold | rfl
    · obtain ⟨k, hk, -⟩ := conn?_eq_some_iff.mp hold
      have hsame : (c.seeking addr).links[i]? = none := hnone
      rw [hsame] at hk
      exact absurd hk (by simp)
    · exact hf.rdy

/-! ### The end of a link without subscription -/

theorem conn?_settleLink {i : Nat} {conn : Connection} {c : Consumer} (hi : c.conn? i = some conn) :
    (c.settleLink i).conn? i = some conn.settle.2 := by
  rw [conn?, links_settleLink hi, ← conn?]
  exact conn?_putConn_self hi conn.settle.2

/-- A link keeps its credit when it is settled. -/
theorem rdyOf_settleLink (i j : Nat) (c : Consumer) : (c.settleLink i).rdyOf j = c.rdyOf j := by
  cases hi : c.conn? i with
  | none => rw [settleLink_of_none hi]
  | some conn =>
    by_cases hij : i = j
    · subst hij
      have hs : conn.settle.2.rdy = conn.rdy := by
        rcases conn.settle_cases with ⟨h, -⟩ | ⟨h, -⟩ <;> rw [h]
        · exact (Connection.steady_settled conn).rdy
        · exact (Connection.steady_settled conn).rdy
      rw [rdyOf_of_conn (conn?_settleLink hi), rdyOf_of_conn hi, hs]
    · rw [rdyOf_of_links (links_settleLink hi) j, rdyOf, putConn, conn?_modifyLink_of_ne hij,
        ← rdyOf]

/-- A connection that was just opened ends as soon as somebody asks for it. -/
theorem closed_settle_close {policy : Connection.Policy} {l : Link} (h : l.Fresh policy) :
    l.conn.close.settle.2.closed = true := by
  simp [Connection.settle, Connection.close, Connection.isDue, Connection.endReading,
    Connection.beginClose, Connection.isDrained, h.reading, h.stalled, h.inFlight, h.closed]

/-- What settling a link does to the books: where its end is reported, its entry leaves the table,
and its credit the total. -/
theorem books_settleLink {i : Nat} {conn : Connection} {c : Consumer} (hi : c.conn? i = some conn) :
    (c.settleLink i).pending = c.pending ∧ (c.settleLink i).level = c.level ∧
      (c.settleLink i).daemons = c.daemons ∧
      (((c.settleLink i).live = c.live ∧ (c.settleLink i).totalRdy = c.totalRdy) ∨
        ((c.settleLink i).live = c.live.filter (fun e => e != (conn.address, i)) ∧
          (c.settleLink i).totalRdy = word64 (c.totalRdy - conn.rdy))) := by
  rcases settleLink_cases hi with ⟨h, -⟩ | ⟨-, -, hr⟩
  · rw [h]
    exact ⟨rfl, rfl, rfl, .inl ⟨rfl, rfl⟩⟩
  · have hs := Connection.steady_settled conn
    have haddr : ({ conn.settled with closed := true } : Connection).address = conn.address :=
      hs.address
    have hrdy : ({ conn.settled with closed := true } : Connection).rdy = conn.rdy := hs.rdy
    have hlive := hr.live
    have htotal := hr.totalRdy
    rw [haddr] at hlive
    rw [hrdy] at htotal
    exact ⟨hr.pending, hr.level, hr.daemons, .inr ⟨hlive, htotal⟩⟩

/-- The end of a link that was opened in vain leaves no trace in the books either: it is not in the
table and holds no credit. -/
theorem Undone.settleLink {addr : String} {i : Nat} {conn : Connection} {c d : Consumer}
    (h : Undone addr c d) (hnew : c.links[i]? = none) (hi : d.conn? i = some conn)
    (hrdy : conn.rdy = 0) (hout : (conn.address, i) ∉ c.live)
    (hword : word64 c.totalRdy = c.totalRdy) : Undone addr c (d.settleLink i) := by
  obtain ⟨hpending, hlevel, hdaemons, hends⟩ := books_settleLink hi
  have hlinks : ∀ (j : Nat) (l : Link), c.links[j]? = some l →
      (d.settleLink i).links[j]? = some l := by
    intro j l hl
    have hij : i ≠ j := by
      rintro rfl
      simp [hnew] at hl
    rw [links_settleLink hi, putConn, modifyLink, List.getElem?_modify_ne _ _ hij]
    exact h.links j l hl
  have hbooks : (d.settleLink i).live = c.live ∧ (d.settleLink i).totalRdy = c.totalRdy := by
    rcases hends with ⟨hlive, htotal⟩ | ⟨hlive, htotal⟩ <;> rw [hlive, htotal, h.live, h.totalRdy]
    · exact ⟨rfl, rfl⟩
    · refine ⟨List.filter_eq_self.mpr fun e he => ?_, by rw [hrdy, Int.sub_zero, hword]⟩
      rw [bne_iff_ne]
      rintro rfl
      exact hout he
  exact
    { live := hbooks.1
      pending := hpending.trans h.pending
      totalRdy := hbooks.2
      level := hlevel.trans h.level
      links := hlinks
      credit := fun j => (rdyOf_settleLink i j d).trans (h.credit j)
      daemons := fun a => by rw [hdaemons]; exact h.daemons a }

/-- A link that a failed attempt leaves behind was opened to the address, and its end is asked
for. -/
theorem link_of_failed_connect {env : Surroundings} {addr : String} {c : Consumer}
    {failure : Failure} {conn : Connection} (h : (c.connect env addr).1 = .error failure)
    (hi : (c.connect env addr).2.conn? c.links.length = some conn) :
    c.Dials addr ∧ ∃ l : Link, l.Fresh c.policy ∧ l.conn.address = addr ∧ conn = l.conn.close := by
  have hend : c.conn? c.links.length = none := by simp [conn?]
  rcases failed_connect_cases h with ⟨-, b, hc⟩ | ⟨-, hc⟩ | ⟨hd, l, hf, ha, hc⟩ <;> rw [hc] at hi
  · exact absurd (hend.symm.trans hi) (by simp)
  · exact absurd (hend.symm.trans hi) (by simp)
  · have hnew := conn?_openLink { l with conn := l.conn.close } (c.seeking addr)
    exact ⟨hd, l, hf, ha, Option.some.inj (hi.symm.trans hnew)⟩

/-- **A failed attempt to connect is undone**, also once the link that it may have left behind has
ended, which it does as soon as it is looked at. -/
theorem undone_after_end {env : Surroundings} {addr : String} {c : Consumer} {failure : Failure}
    (hword : word64 c.totalRdy = c.totalRdy) (h : (c.connect env addr).1 = .error failure) :
    Undone addr c ((c.connect env addr).2.settleLink c.links.length) ∧
      ∀ conn, ((c.connect env addr).2.settleLink c.links.length).conn? c.links.length = some conn →
        conn.closed = true := by
  have hu := undone_of_connect h
  cases hi : (c.connect env addr).2.conn? c.links.length with
  | none =>
    rw [settleLink_of_none hi]
    exact ⟨hu, fun conn hconn => absurd (hi.symm.trans hconn) (by simp)⟩
  | some conn =>
    obtain ⟨hd, l, hf, ha, rfl⟩ := link_of_failed_connect h hi
    have hout : (addr, c.links.length) ∉ c.live := by
      intro hmem
      have hserv := hd.serving
      rw [serving?, Option.map_eq_none_iff, List.find?_eq_none] at hserv
      exact hserv _ hmem (by simp)
    refine ⟨hu.settleLink (by simp) hi hf.rdy ?_ hword, fun conn' hconn => ?_⟩
    · exact ha ▸ hout
    · rw [conn?_settleLink hi] at hconn
      exact Option.some.inj hconn ▸ closed_settle_close hf

/-! ### Leaving a daemon -/

/-- A daemon that was left is no longer sought, and no end of a link has its address tried again. -/
theorem shuns_of_disconnect {env : Surroundings} {addr : String} {c c' : Consumer}
    (hn : c.daemons.Nodup) (h : (c.disconnect addr).1 = .ok ())
    (hr : Reaches (Shuns addr) (c.step env (.disconnect addr)).2 c') :
    addr ∉ c'.daemons ∧ c'.reconnects.count addr ≤ c.reconnects.count addr ∧
      ∀ i, (c'.retire i).reconnects.count addr ≤ c'.reconnects.count addr := by
  have hact : addr ∉ (c.disconnect addr).2.daemons ∧
      (c.disconnect addr).2.reconnects = c.reconnects := by
    have hgone : addr ∉ c.daemons.erase addr := hn.not_mem_erase
    unfold disconnect at h ⊢
    split_ifs at h ⊢
    · dsimp only
      split
      · exact ⟨hgone, rfl⟩
      · exact ⟨hgone, rfl⟩
  -- what follows from the act connects to nothing
  have hrest : Seeks (fun _ => False) (c.disconnect addr).2 (c.step env (.disconnect addr)).2 :=
    (seeks_work env.chance _).trans (seeks_settle _)
  obtain ⟨hout, hle⟩ := hrest.shuns id hact.1
  obtain ⟨hout', hle'⟩ := hr.shuns hout
  have hretire : ∀ i, Seeks (fun _ => False) c' (c'.retire i) := fun i => seeks_retire i c'
  exact ⟨hout', Nat.le_trans hle' (hact.2 ▸ hle), fun i => ((hretire i).shuns id hout').2⟩

/-- **Failed attempts are undone, and daemons that were left are left alone.** Whatever the state
and whatever fails, an attempt to connect leaves the books as they were, before and after the end of
the link that it may have left behind, and the address is taken down exactly if nothing stood in the
way of dialing it. Along every run no address is taken down twice. Once a daemon was left, its
address is not taken down until an act connects to it, and until then no end of a link has it tried
again. -/
theorem connect_undone_and_disconnect_final (s : Subscription)
    (ok : Surroundings → Act → Consumer → Prop) :
    (∀ (c : Consumer) (env : Surroundings) (addr : String) (failure : Failure),
      word64 c.totalRdy = c.totalRdy → (c.connect env addr).1 = .error failure →
        let d := (c.connect env addr).2
        let n := c.links.length
        Undone addr c d ∧ Undone addr c (d.settleLink n) ∧
          ∀ conn, (d.settleLink n).conn? n = some conn → conn.closed = true) ∧
    ∀ c : Consumer, Reaches ok (ofSubscription s) c →
      c.daemons.Nodup ∧
        ∀ (env : Surroundings) (addr : String), (c.disconnect addr).1 = .ok () →
          ∀ c', Reaches (Shuns addr) (c.step env (.disconnect addr)).2 c' →
            addr ∉ c'.daemons ∧ c'.reconnects.count addr ≤ c.reconnects.count addr ∧
              ∀ i, (c'.retire i).reconnects.count addr ≤ c'.reconnects.count addr := by
  refine ⟨fun c env addr failure hword h => ?_, fun c hc => ?_⟩
  · exact ⟨undone_of_connect h, undone_after_end hword h⟩
  · have hn : c.daemons.Nodup := hc.nodup_daemons List.nodup_nil
    exact ⟨hn, fun env addr h c' hr => shuns_of_disconnect hn h hr⟩

/-- The last of the stages is that the daemon is there, and the subscription cannot be written. And
a daemon is left while a handler has a message of it: when that is answered the link ends, and is
not tried again. -/
theorem refused_subscription_and_left_daemon :
    let env (refusing : Bool) : Surroundings :=
      { silence with dial := fun _ => .ok { terms := none, refusing := refusing } }
    let c := sample.stepAll silence [.addHandlers 1]
    let d := (c.connect (env true) "h:1").2
    let e := c.stepAll (env false) [.connect ["h:1"], .feed 0 (sampleMessage 1)]
    let left := (e.step silence (.disconnect "h:1")).2
    let ended := left.stepAll silence [.handle 0 {}]
    ((c.connect (env true) "h:1").1 = .error (.io .refusedWrite) ∧ d.daemons = ["h:1"] ∧
      Undone "h:1" c d ∧ Undone "h:1" c (d.settleLink 0)) ∧
    e.live = [("h:1", 0)] ∧ left.live = e.live ∧ ended.live = [] ∧
      (ended.conn? 0).map Connection.closed = some true ∧ "h:1" ∉ ended.daemons ∧
      ended.reconnects.count "h:1" = 0 := by
  intro env c d e left ended
  obtain ⟨hundone, hleft⟩ :=
    connect_undone_and_disconnect_final sample.subscription fun _ _ _ => True
  have hfail : (c.connect (env true) "h:1").1 = .error (.io .refusedWrite) := rfl
  obtain ⟨hu, hu', -⟩ := hundone c (env true) "h:1" _ rfl hfail
  have hc : Reaches (fun _ _ _ => True) sample c := reaches_stepAll ⟨trivial, trivial⟩
  have he : Reaches (fun _ _ _ => True) sample e :=
    hc.trans (reaches_stepAll ⟨trivial, trivial, trivial⟩)
  have hended : Reaches (Shuns "h:1") left ended :=
    reaches_stepAll ⟨by simp [Shuns, connectsTo], trivial⟩
  obtain ⟨hout, hnever, -⟩ := (hleft e he).2 silence "h:1" (by decide +kernel) ended hended
  have hnone : e.reconnects.count "h:1" = 0 := by decide +kernel
  exact ⟨⟨hfail, rfl, hu, hu'⟩, by decide +kernel, by decide +kernel, by decide +kernel,
    by decide +kernel, hout, Nat.le_zero.mp (hnone ▸ hnever)⟩

end Nsq.Consumer
