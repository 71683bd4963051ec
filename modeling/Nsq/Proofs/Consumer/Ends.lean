import Nsq.Proofs.Consumer.Accounts

/-!
# Links on their way to the end

A link is in the table, or somebody has asked for its end; and its end begins as soon as nothing is
read any more and no answer is missing (`Tended`). Between steps a link whose end was asked for and
that owes no answer has reported its end (`Rested`).

So while nobody has asked for a stop, and no message is without an answer between two steps, every
link has reported its end or is open and in the table (`Watched.in_use`).
-/

namespace Nsq

namespace Consumer

/-- The consumer's own acts, where no link is attached at an address that another link serves. -/
def Sole (env : Surroundings) (a : Act) (c : Consumer) : Prop :=
  Own env a c ∧ ∀ link, a = .attach link → c.serving? link.conn.address = none

theorem sole_of_own {env : Surroundings} {a : Act} {c : Consumer} (h : Own env a c)
    (ha : ∀ link, a ≠ .attach link) : Sole env a c :=
  ⟨h, fun link e => absurd e (ha link)⟩

/-- Every link is in the table or shall end, and its end begins when it is due. -/
structure Tended (c : Consumer) : Prop where
  ending : ∀ l ∈ c.links, l.conn.Ending
  listed : ∀ i conn, c.conn? i = some conn → conn.closing = true ∨ (conn.address, i) ∈ c.live

namespace Tended

variable {c c' : Consumer}

/-- What is neither links nor table does not matter. -/
theorem of_eq (h : Tended c) (hl : c'.links = c.links) (hlive : c'.live = c.live) : Tended c' where
  ending := hl ▸ h.ending
  listed i conn hi := by
    rw [conn?, hl, ← conn?] at hi
    rw [hlive]
    exact h.listed i conn hi

/-- Answers leave links tended. -/
theorem lighter (h : Tended c) (ho : Orderly c) {n : Nat → Int} (hlive : c'.live = c.live)
    (hl : ∀ j : Nat, Option.Rel (Link.Lighter (n j)) c.links[j]? c'.links[j]?) : Tended c' := by
  have hget : ∀ (j : Nat) (l' : Link), c'.links[j]? = some l' →
      ∃ l, c.links[j]? = some l ∧ l.Lighter (n j) l' :=
    fun j _ hl' => exists_of_rel_some (hl' ▸ hl j)
  refine ⟨fun l' hl' => ?_, fun j conn' hj => ?_⟩
  · obtain ⟨j, hj⟩ := List.mem_iff_getElem?.mp hl'
    obtain ⟨l, hl, r⟩ := hget j l' hj
    have hmem := List.mem_of_getElem? hl
    exact r.ending (ho.tidy l hmem) (h.ending l hmem)
  · obtain ⟨l', hl', rfl⟩ := conn?_eq_some_iff.mp hj
    obtain ⟨l, hl, r⟩ := hget j l' hl'
    rw [hlive, r.address]
    exact (h.listed j l.conn (conn?_of_links hl)).imp r.closing id

theorem lending (h : Tended c) (ho : Orderly c) (hl : Lending c c') : Tended c' :=
  h.lighter ho (n := fun _ => 0) hl.live fun j => rel_lighter_zero (hl.links j)

/-- A link may change as long as it stays where it is and its end begins when it is due. -/
theorem modifyLink (h : Tended c) {i : Nat} {f : Link → Link}
    (hf : ∀ l, c.links[i]? = some l → (l.conn.Ending → (f l).conn.Ending) ∧
      (f l).conn.address = l.conn.address ∧
      (l.conn.closing = true → (f l).conn.closing = true)) : Tended (c.modifyLink i f) where
  ending := forall_mem_modify h.ending fun l hl =>
    (hf l hl).1 (h.ending l (List.mem_of_getElem? hl))
  listed j conn hj := by
    rcases conn?_modifyLink_cases hj with hj | ⟨rfl, l, hl, rfl⟩
    · exact h.listed j conn hj
    · obtain ⟨-, ha, hc⟩ := hf l hl
      rw [ha]
      exact (h.listed i l.conn (conn?_of_links hl)).imp hc id

theorem putConn (h : Tended c) {i : Nat} {conn conn' : Connection} (hi : c.conn? i = some conn)
    (he : conn.Ending → conn'.Ending) (ha : conn'.address = conn.address)
    (hc : conn.closing = true → conn'.closing = true) : Tended (c.putConn i conn') := by
  refine h.modifyLink fun l hl => ?_
  obtain rfl : l.conn = conn := conn_eq_of_links hl hi
  exact ⟨he, ha, hc⟩

/-- A link that could not be subscribed shall end. -/
theorem openLink (h : Tended c) {l : Link} (hl : l.Opened c.policy) (hc : l.conn.closing = true) :
    Tended (c.openLink l).2 where
  ending l' hl' := by
    rcases List.mem_append.mp hl' with hl' | hl'
    · exact h.ending l' hl'
    · obtain rfl := List.mem_singleton.mp hl'
      intro hr
      simp [hl.reading] at hr
  listed i conn hi := by
    rcases conn?_of_openLink hi with hi | rfl
    · exact h.listed i conn hi
    · exact .inl hc

/-- A link that enters the table takes nobody's place. -/
theorem welcome (h : Tended c) {l : Link} (hl : l.Fresh c.policy)
    (hs : c.serving? l.conn.address = none) : Tended (c.welcome l) where
  ending l' hl' := by
    rcases List.mem_append.mp hl' with hl' | hl'
    · exact h.ending l' hl'
    · obtain rfl := List.mem_singleton.mp hl'
      intro hr
      simp [hl.reading] at hr
  listed i conn hi := by
    obtain ⟨l', hl', rfl⟩ := conn?_eq_some_iff.mp hi
    -- the old links keep their entries, and the new one gets its own
    obtain hl' | ⟨rfl, rfl⟩ := getElem?_openLink_cases hl'
    · refine (h.listed i l'.conn (conn?_of_links hl')).imp id fun he => ?_
      refine List.mem_append_left _ (List.mem_filter.mpr ⟨he, ?_⟩)
      rw [bne_iff_ne]
      exact address_ne_of_serving?_eq_none hs he
    · exact .inr (List.mem_append_right _ (List.mem_singleton.mpr rfl))

theorem settleLink (h : Tended c) (ho : Orderly c) (i : Nat) : Tended (c.settleLink i) := by
  cases hi : c.conn? i with
  | none => rwa [settleLink_of_none hi]
  | some conn =>
    have hs := Connection.steady_settled conn
    have hput : ∀ closed, Tended (c.putConn i { conn.settled with closed := closed }) := fun _ =>
      h.putConn hi (Connection.calm_settled conn).ending hs.address hs.closing
    rcases settleLink_cases hi with ⟨heq, -⟩ | ⟨-, hd, hr⟩
    · rw [heq]
      exact hput conn.settled.closed
    · -- the entry that leaves the table is that of a link which shall end
      have hcl := ((ho.tidy_conn hi).reported hd).closing_of_closed rfl
      refine ⟨hr.links ▸ (hput true).ending, fun j conn' hj => ?_⟩
      rw [conn?, hr.links, ← conn?] at hj
      by_cases hji : j = i
      · subst hji
        obtain rfl := Option.some.inj ((conn?_putConn_self hi _).symm.trans hj)
        exact .inl hcl
      · refine ((hput true).listed j conn' hj).imp id fun he => ?_
        rw [hr.live, List.mem_filter, bne_iff_ne]
        exact ⟨he, fun e => hji (congrArg Prod.snd e)⟩

/-- **Moves leave links tended**, if links are attached where they take nobody's place and report
their ends themselves. -/
theorem move {ok : Surroundings → Act → Consumer → Prop} (h : Tended c) (ho : Orderly c)
    (hm : Move ok c c')
    (hattach : ∀ env c link, ok env (.attach link) c →
      link.Fresh c.policy ∧ c.serving? link.conn.address = none)
    (hretire : ∀ env c i, ¬ok env (.retire i) c) : Tended c' := by
  cases hm with
  | note hn => exact h.of_eq hn.links hn.live
  | adjust hq =>
    exact h.modifyLink fun l hl =>
      ⟨(hq l hl).calm.ending, (hq l hl).steady.address, (hq l hl).steady.closing⟩
  | refill i => exact h.lending ho (dealing_refill i c).lending
  | signal chance s => exact h.lending ho (dealing_signal chance s c).lending
  | respread => exact h.of_eq rfl rfl
  | stop => exact h.of_eq rfl rfl
  | reject hl hc => exact h.openLink hl hc
  | join hl hs => exact h.welcome hl hs
  | arrive m rest hi hr =>
    have ht : ∀ offers received total, Tended
        { c with offers := offers, received := received, totalRdy := total } :=
      fun _ _ _ => h.of_eq rfl rfl
    refine (ht _ _ _).modifyLink fun l hl => ?_
    obtain rfl := conn_eq_of_links hl hi
    exact ⟨fun _ hr' => absurd (hr.symm.trans hr') (by simp), rfl, id⟩
  | bounce i m a =>
    exact h.lighter ho (passed_passAnswer _ i m a c).live (lighter_passAnswer _ i m a c)
  | take =>
    have ht : ∀ offers handed, Tended { c with offers := offers, handed := handed } :=
      fun _ _ => h.of_eq rfl rfl
    exact (ht _ _).modifyLink fun l _ => ⟨id, rfl, id⟩
  | @answer chance n d a =>
    have ht : ∀ s, Tended (c.putState n s) := fun _ => h.of_eq rfl rfl
    have hoc : ∀ s, Orderly (c.putState n s) := fun _ => ⟨ho.tidy, ho.listed⟩
    exact (ht _).lighter (hoc _) (passed_passAnswer chance d.link d.message a _).live
      (lighter_passAnswer chance d.link d.message a _)
  | settle i => exact h.settleLink ho i
  | @direct env a hok ha =>
    obtain ⟨link, rfl⟩ | ⟨i, rfl⟩ | hl := direct_lending_cases ha c
    · exact h.welcome (hattach env c link hok).1 (hattach env c link hok).2
    · exact absurd hok (hretire env c i)
    · exact h.lending ho hl

end Tended

theorem tended_ofSubscription (s : Subscription) : Tended (ofSubscription s) :=
  ⟨by simp [ofSubscription], by simp [ofSubscription, conn?]⟩

/-! ### Pauses -/

/-- The end of a pause is awaited as long as there is a pause. -/
def Paused (c : Consumer) : Prop := 0 < c.pause → c.armed = true

theorem SameBeat.paused {c c' : Consumer} (h : SameBeat c c') (hp : Paused c) : Paused c' := by
  rw [Paused, h.pause, h.armed]
  exact hp

theorem paused_signal {c : Consumer} (hp : Paused c) (chance : Nat → Nat) (s : Signal) :
    Paused (c.signal chance s) := by
  unfold signal
  split_ifs
  · exact hp
  · have ht : ∀ n, Paused { c with level := n } := fun _ => hp
    dsimp only
    split_ifs
    · exact (samePace_grantAll _ _ _).toSameBeat.paused (ht _)
    · exact ht _
    · exact fun _ => rfl

theorem paused_resume (chance : Nat → Nat) (c : Consumer) : Paused (c.resume chance) := by
  unfold resume
  dsimp only
  split_ifs
  · exact fun h => absurd h (by simp)
  · split
    · exact fun _ => rfl
    · split
      · exact fun h => absurd h (by simp)
      · exact fun _ => rfl

theorem paused_passAnswer {c : Consumer} (hp : Paused c) (chance : Nat → Nat) (i : Nat)
    (m : Message) (a : Answer) : Paused (c.passAnswer chance i m a) := by
  refine passAnswer_invariant hp ?_ ?_ ?_ ?_
  · exact fun _ _ => hp
  · intro d hd
    cases a <;> exact hd
  · exact fun d hd => paused_signal hd chance a.signal
  · exact fun d hd => hd

theorem Paused.move {ok : Surroundings → Act → Consumer → Prop} {c c' : Consumer} (hp : Paused c)
    (hm : Move ok c c') : Paused c' := by
  cases hm with
  | note hn => exact (SameBeat.mk hn.level hn.pause hn.armed).paused hp
  | adjust => exact hp
  | refill i => exact (samePace_refill i c).toSameBeat.paused hp
  | signal chance s => exact paused_signal hp chance s
  | respread => exact hp
  | stop => exact hp
  | reject => exact hp
  | join => exact hp
  | arrive => exact hp
  | bounce i m a => exact paused_passAnswer hp _ i m a
  | take => exact hp
  | @answer chance n d a =>
    exact paused_passAnswer (c := c.putState n _) hp chance d.link d.message a
  | settle i =>
    cases hi : c.conn? i with
    | none => rwa [settleLink_of_none hi]
    | some conn =>
      rcases settleLink_cases hi with ⟨heq, -⟩ | ⟨-, -, hr⟩
      · rwa [heq]
      · exact (SameBeat.mk hr.level hr.pause hr.armed).paused hp
  | @direct env a _ ha =>
    cases a with
    | attach link => exact hp
    | retire i =>
      show Paused (c.retire i)
      cases hi : c.conn? i with
      | none => simpa [retire, hi] using hp
      | some conn =>
        have hr := retire_of_conn hi
        exact (SameBeat.mk hr.level hr.pause hr.armed).paused hp
    | updateRdy i count => exact (samePace_updateRdy i count c).toSameBeat.paused hp
    | sendRdy i count => exact (samePace_sendRdy i count c).toSameBeat.paused hp
    | retry addr count => exact (sameBeat_retry addr count c).paused hp
    | resume => exact paused_resume env.chance c
    | redistribute => exact (sameBeat_redistribute env.chance c).paused hp
    | changeMaxInFlight n => exact (sameBeat_changeMaxInFlight n c).paused hp
    | _ => simp [Act.isDirect] at ha

/-! ### Between steps -/

/-- A link whose end was asked for, and that has nothing in flight and no message to be handed over,
has reported its end. -/
def Rested (i : Nat) (c : Consumer) : Prop :=
  ∀ conn, c.conn? i = some conn → conn.closing = true → conn.inFlight = 0 → conn.stalled = false →
    conn.closed = true

theorem rested_of_links {c c' : Consumer} (hl : c'.links = c.links) {i : Nat} (h : Rested i c) :
    Rested i c' := by
  intro conn hi
  rw [conn?, hl, ← conn?] at hi
  exact h conn hi

theorem rested_settleLink {i j : Nat} {c : Consumer} (ht : Tended c) (h : j = i ∨ Rested j c) :
    Rested j (c.settleLink i) := by
  cases hi : c.conn? i with
  | none =>
    rw [settleLink_of_none hi]
    rcases h with rfl | h
    · intro conn hconn
      rw [hi] at hconn
      exact absurd hconn (by simp)
    · exact h
  | some conn =>
    refine rested_of_links (links_settleLink hi) ?_
    by_cases hij : i = j
    · subst hij
      intro conn' hconn hc hin hst
      obtain rfl := Option.some.inj ((conn?_putConn_self hi _).symm.trans hconn)
      obtain ⟨l, hl, rfl⟩ := conn?_eq_some_iff.mp hi
      exact Connection.closed_settle (ht.ending l (List.mem_of_getElem? hl)) (.inl hc) hin hst
    · intro conn' hconn
      rw [putConn, conn?_modifyLink_of_ne hij] at hconn
      exact h.resolve_left (Ne.symm hij) conn' hconn

theorem rested_settle {c : Consumer} (ht : Tended c) (ho : Orderly c) (i : Nat) :
    Rested i c.settle := by
  -- along the walk the links are tended, and those that were passed rest
  have hwalk : ∀ (is : List Nat) (c : Consumer), Tended c → Orderly c → i ∈ is ∨ Rested i c →
      Rested i (is.foldl settleLink c) := by
    intro is
    induction is with
    | nil => exact fun c _ _ h => h.resolve_left List.not_mem_nil
    | cons j is ih =>
      intro c ht ho h
      refine ih _ (ht.settleLink ho j) (ho.settleLink j) ?_
      rcases h with h | h
      · rcases List.mem_cons.mp h with rfl | h
        · exact .inr (rested_settleLink ht (.inl rfl))
        · exact .inl h
      · exact .inr (rested_settleLink ht (.inr h))
  have hlinks : c.settle.links = ((List.range c.links.length).foldl settleLink c).links := by
    unfold settle dismiss
    dsimp only
    split_ifs <;> rfl
  -- the walk passes every link there is
  refine rested_of_links hlinks (hwalk _ c ht ho ?_)
  by_cases hlt : i < c.links.length
  · exact .inl (List.mem_range.mpr hlt)
  · refine .inr fun conn hi => ?_
    obtain ⟨l, hl, -⟩ := conn?_eq_some_iff.mp hi
    exact absurd (List.getElem?_eq_some_iff.mp hl).1 hlt

/-! ### Runs -/

/-- All that is known of a consumer that acts on its own. -/
structure Watched (c : Consumer) : Prop extends Known c where
  accounted : Accounted c
  tended : Tended c
  paused : Paused c

theorem Watched.move {ok : Surroundings → Act → Consumer → Prop}
    (hok : ∀ env a c, ok env a c → Sole env a c) {c c' : Consumer} (h : Watched c)
    (hm : Move ok c c') : Watched c' where
  toKnown := h.toKnown.move (hm.mono fun env a c h => (hok env a c h).1)
  accounted := h.accounted.move hm (fun env c _ h => (hok env _ c h).1) fun env c _ h =>
    (hok env _ c h).1
  tended := h.tended.move h.orderly hm
    (fun env c link h => ⟨(hok env _ c h).1, (hok env _ c h).2 link rfl⟩)
    fun env c _ h => (hok env _ c h).1
  paused := h.paused.move hm

theorem watched_of_reaches {s : Subscription} {c : Consumer}
    (h : Reaches Sole (ofSubscription s) c) : Watched c := by
  refine h.invariant (fun c₁ c₂ hw hm => hw.move (fun _ _ _ => id) hm) ?_
  exact ⟨known_of_reaches .refl, accounted_ofSubscription s, tended_ofSubscription s,
    fun h => absurd h (by simp [ofSubscription])⟩

/-- Between steps every link rests. -/
theorem rested_of_reaches {s : Subscription} {c : Consumer}
    (h : Reaches Sole (ofSubscription s) c) (i : Nat) : Rested i c := by
  cases h with
  | refl => exact fun conn hi => absurd hi (by simp [ofSubscription, conn?])
  | @step c' env a h ha =>
    have hm : Moves Sole c' ((c'.act env a).2.work env.chance) :=
      (moves_act ha).trans (moves_work env.chance _)
    have hw : Watched ((c'.act env a).2.work env.chance) :=
      moves_invariant hm (fun c₁ c₂ hw hm => hw.move (fun _ _ _ => id) hm) (watched_of_reaches h)
    exact rested_settle hw.tended hw.orderly i

/-- While no message is without an answer, every link has reported its end or is open and in the
table. -/
theorem Watched.in_use {c : Consumer} (h : Watched c) (hrest : ∀ i, Rested i c)
    (hs : c.stopping = false) (hp : ¬Pending c) {i : Nat} {conn : Connection}
    (hi : c.conn? i = some conn) :
    conn.closed = true ∨ conn.closing = false ∧ (conn.address, i) ∈ c.live := by
  obtain ⟨l, hl, rfl⟩ := conn?_eq_some_iff.mp hi
  obtain ⟨hin, hst⟩ := h.accounted.counted hs i l hl
  cases hc : l.conn.closing with
  | false => exact .inr ⟨rfl, (h.tended.listed i l.conn hi).resolve_left (by simp [hc])⟩
  | true =>
    -- with nothing in flight and no message waiting, a link that shall end has ended
    refine .inl (hrest i l.conn hi hc ?_ ?_)
    · rw [hin, waiting_of_not_pending hp]
      rfl
    · rw [Bool.eq_false_iff]
      intro e
      have hmem := hst e
      rw [Pending, not_or, not_not] at hp
      rw [hp.1] at hmem
      exact absurd hmem List.not_mem_nil

end Consumer

end Nsq
