import Nsq.Proofs.Consumer.Ends

/-!
# Grants that are put off

A grant that the budget refuses is put off, to be tried again at the address of its link. Links take
nobody's place in the table, and the end of a link forgets what was put off at its address, so every
such address is served (`Served`).

A signal that begins a pause takes the credit of every link in the table back, and with that forgets
what was put off there. Only links that are closing are passed over, and these take no grant anyway.
So until that pause ends, nothing is left to be tried again but for links that are closing
(`spent_of_reaches`). This is not so of a pause that follows on another one, since the probe between
them may have been put off.
-/

namespace Nsq

/-- A link stays at its address, and goes on closing. -/
structure Link.Stays (l l' : Link) : Prop where
  address : l'.conn.address = l.conn.address
  closing : l.conn.closing = true → l'.conn.closing = true

theorem Link.Stays.refl (l : Link) : l.Stays l := ⟨rfl, id⟩

namespace Consumer

variable {c c' : Consumer} {quiet : Prop}

/-! ### What a pause holds back -/

section Held

variable (h : 0 < c.pause)

include h

theorem refill_of_pause (i : Nat) : c.refill i = c := by
  simp [refill, inPause, h]

theorem refillAll_of_pause (is : List Nat) : c.refillAll is = c :=
  List.foldlRecOn is _ (motive := fun d => d = c) rfl fun _ hd i _ => hd ▸ refill_of_pause h i

theorem signal_of_pause (chance : Nat → Nat) (s : Signal) : c.signal chance s = c := by
  simp [signal, inPause, h]

theorem redistribute_of_pause (chance : Nat → Nat) : c.redistribute chance = c := by
  simp [redistribute, inPause, h]

/-- In a pause a change of the budget deals no credit out. -/
theorem changeMaxInFlight_of_pause (n : Int) :
    c.changeMaxInFlight n = { c with maxInFlight := n } := by
  have hp : 0 < ({ c with maxInFlight := n } : Consumer).pause := h
  unfold changeMaxInFlight
  split_ifs with hn
  · rw [← hn]
  · dsimp only
    rw [refillAll_of_pause hp, ite_self]

end Held

/-! ### The table -/

/-- Open links are in the table, and the table lists links under their own addresses. -/
structure Tabled (c : Consumer) : Prop where
  listed : ∀ i conn, c.conn? i = some conn → conn.closing = true ∨ (conn.address, i) ∈ c.live
  entries : ∀ e ∈ c.live, ∃ conn, c.conn? e.2 = some conn ∧ conn.address = e.1

theorem Tended.tabled (h : Tended c) (ho : Orderly c) : Tabled c where
  listed := h.listed
  entries e he := by
    obtain ⟨conn, hi, ha, -⟩ := ho.listed e he
    exact ⟨conn, hi, ha⟩

theorem Watched.tabled (h : Watched c) : Tabled c := h.tended.tabled h.orderly

theorem Tabled.linkwise (h : Tabled c) (hlive : c'.live = c.live)
    (hl : Linkwise Link.Stays c c') : Tabled c' where
  listed i conn' hi := by
    obtain ⟨l', hl', rfl⟩ := conn?_eq_some_iff.mp hi
    obtain ⟨l, hl, r⟩ := hl.of_get hl'
    rw [r.address, hlive]
    exact (h.listed i l.conn (conn?_of_links hl)).imp_left r.closing
  entries e he := by
    obtain ⟨conn, hi, ha⟩ := h.entries e (hlive ▸ he)
    obtain ⟨l, hl', rfl⟩ := conn?_eq_some_iff.mp hi
    obtain ⟨l', hl'', r⟩ := hl.get hl'
    exact ⟨l'.conn, conn?_of_links hl'', r.address.trans ha⟩

theorem Tabled.lending (h : Tabled c) (hl : Lending c c') : Tabled c' :=
  h.linkwise hl.live (hl.links.mono fun _ _ r => ⟨r.address, r.closing⟩)

/-! ### Where grants are put off -/

/-- Grants are put off at addresses that are served. -/
def Served (c : Consumer) : Prop := ∀ e ∈ c.retries, ∃ i, (e.1, i) ∈ c.live

/-- Grants are put off for links alone that are closing. -/
def Spent (c : Consumer) : Prop :=
  ∀ e ∈ c.retries, ∀ i conn, (e.1, i) ∈ c.live → c.conn? i = some conn → conn.closing = true

/-- A grant is put off for an open link. -/
theorem Served.grant (h : Served c) (ht : Tabled c) (i : Nat) (count : Int) :
    Served (c.grant i count) := by
  intro e he
  rw [(dealing_grant i count c).lending.live]
  rcases retries_grant_cases he with ⟨hold, -⟩ | ⟨conn, hi, hcl, -, ha, -⟩
  · exact h e hold
  · exact ⟨i, ha ▸ (ht.listed i conn hi).resolve_left (by simp [hcl])⟩

theorem Served.sharing (h : Served c) (ht : Tabled c) (hs : Sharing c c') : Served c' := by
  induction hs with
  | refl => exact h
  | ask i hs _ ih => exact ih.grant (ht.lending hs.dealing.lending) i _
  | tune _ htune ih => exact fun e he => htune.live ▸ ih e (htune.retries e he)

/-- A link whose credit is taken back waits for no grant any more. -/
theorem retries_grantAll_zero {is : List Nat} {e : String × Int}
    (he : e ∈ (c.grantAll is 0).retries) : ∀ i ∈ is, ∀ conn,
      c.conn? i = some conn → conn.closing = false → e.1 ≠ conn.address := by
  suffices h : e ∈ c.retries ∧ ∀ i ∈ is, ∀ conn,
      c.conn? i = some conn → conn.closing = false → e.1 ≠ conn.address from h.2
  induction is generalizing c with
  | nil => exact ⟨he, List.forall_mem_nil _⟩
  | cons j is ih =>
    obtain ⟨hgrant, hwalk⟩ := ih he
    -- to take credit back is never refused
    obtain ⟨hold, hne⟩ := (retries_grant_cases hgrant).resolve_right
      fun ⟨_, _, _, hr, _⟩ => absurd hr.2 (by omega)
    refine ⟨hold, fun i hi conn hconn hcl => ?_⟩
    by_cases hij : i = j
    · subst hij
      exact hne conn hconn hcl
    · have hkeep := (conn?_grant_of_ne (Ne.symm hij) 0 c).trans hconn
      exact hwalk i ((List.mem_cons.mp hi).resolve_left hij) conn hkeep hcl

theorem spent_grantAll_zero (ht : Tabled c) : Spent (c.grantAll c.walk 0) := by
  intro e he i conn' hmem hi'
  have hl := (sharing_grantAll (c := c) c.walk (.inl (Int.le_refl 0))).dealing.lending
  rw [hl.live] at hmem
  obtain ⟨conn, hi, ha⟩ := ht.entries _ hmem
  obtain ⟨l, hl', rfl⟩ := conn?_eq_some_iff.mp hi
  obtain ⟨l', hl'', r⟩ := hl.links.get hl'
  obtain rfl := conn_eq_of_links hl'' hi'
  refine r.closing ?_
  by_contra hopen
  have hne := retries_grantAll_zero he i (List.mem_map_of_mem hmem) l.conn hi
  exact hne (Bool.not_eq_true _ ▸ hopen) ha.symm

/-! ### Until a pause ends -/

/-- Grants are put off at addresses that are served, and in a pause for closing links alone if that
is asked for. -/
structure Deferred (quiet : Prop) (c : Consumer) : Prop where
  served : Served c
  spent : quiet → 0 < c.pause → Spent c

/-- The table and the pause stay as they are, and nothing is put off. -/
structure Abides (c c' : Consumer) : Prop where
  live : c'.live = c.live
  pause : c'.pause = c.pause
  retries : ∀ e ∈ c'.retries, e ∈ c.retries
  links : Linkwise Link.Stays c c'

namespace Abides

theorem of_links (hlive : c'.live = c.live) (hp : c'.pause = c.pause)
    (hr : ∀ e ∈ c'.retries, e ∈ c.retries) (hl : c'.links = c.links) : Abides c c' := by
  refine ⟨hlive, hp, hr, fun i => ?_⟩
  rw [hl]
  exact Linkwise.refl Link.Stays.refl c i

theorem modifyLink {i : Nat} {f : Link → Link}
    (h : ∀ l, c.links[i]? = some l → l.Stays (f l)) : Abides c (c.modifyLink i f) :=
  ⟨rfl, rfl, fun _ => id, linkwise_modifyLink Link.Stays.refl h⟩

theorem putConn {i : Nat} {conn conn' : Connection} (hi : c.conn? i = some conn)
    (ha : conn'.address = conn.address) (hc : conn.closing = true → conn'.closing = true) :
    Abides c (c.putConn i conn') := by
  refine .modifyLink fun l hl => ?_
  obtain rfl := conn_eq_of_links hl hi
  exact ⟨ha, hc⟩

theorem tabled (ha : Abides c c') (h : Tabled c) : Tabled c' := h.linkwise ha.live ha.links

end Abides

namespace Deferred

theorem abides (h : Deferred quiet c) (ha : Abides c c') : Deferred quiet c' where
  served e he := ha.live ▸ h.served e (ha.retries e he)
  spent hq hp e he i conn' hmem hi := by
    obtain ⟨l', hl', rfl⟩ := conn?_eq_some_iff.mp hi
    obtain ⟨l, hl, r⟩ := ha.links.of_get hl'
    have hspent := h.spent hq (ha.pause ▸ hp) e (ha.retries e he)
    exact r.closing (hspent i l.conn (ha.live ▸ hmem) (conn?_of_links hl))

/-- Credit is shared out where no pause holds it back. -/
theorem sharing (h : Deferred quiet c) (ht : Tabled c) (hs : Sharing c c')
    (hbeat : SameBeat c c') (hp : 0 < c.pause → c' = c) : Deferred quiet c' := by
  refine ⟨h.served.sharing ht hs, fun hq hpos => ?_⟩
  have hpos' : 0 < c.pause := hbeat.pause ▸ hpos
  rw [hp hpos']
  exact h.spent hq hpos'

theorem signal (h : Deferred quiet c) (ht : Tabled c) (chance : Nat → Nat) (s : Signal) :
    Deferred quiet (c.signal chance s) := by
  refine ⟨h.served.sharing ht (sharing_signal chance s c), fun hq => ?_⟩
  by_cases hp : 0 < c.pause
  · rw [signal_of_pause hp]
    exact h.spent hq
  · have hset : Abides c { c with level := (c.levelAfter s (chance 0)).1 } :=
      .of_links rfl rfl (fun _ => id) rfl
    unfold Consumer.signal
    rw [if_neg (by simpa [inPause] using hp)]
    dsimp only
    split_ifs
    · rw [(samePace_grantAll _ _ _).pause]
      exact fun hpos => absurd hpos hp
    · exact fun hpos => absurd hpos hp
    · exact fun _ => spent_grantAll_zero (hset.tabled ht)

theorem passAnswer (h : Deferred quiet c) (ht : Tabled c) (chance : Nat → Nat) (i : Nat)
    (m : Message) (a : Answer) : Deferred quiet (c.passAnswer chance i m a) := by
  -- the signal in the middle needs the table
  suffices hboth : Tabled (c.passAnswer chance i m a) ∧ Deferred quiet (c.passAnswer chance i m a)
    from hboth.2
  have hkeep {d d' : Consumer} (hd : Tabled d ∧ Deferred quiet d) (ha : Abides d d') :
      Tabled d' ∧ Deferred quiet d' := ⟨ha.tabled hd.1, hd.2.abides ha⟩
  refine passAnswer_invariant (I := fun d => Tabled d ∧ Deferred quiet d) ⟨ht, h⟩ ?_ ?_ ?_ ?_
  · exact fun conn hi => hkeep ⟨ht, h⟩ (.putConn hi rfl id)
  · intro d hd
    cases a <;> exact hkeep hd (.of_links rfl rfl (fun _ => id) rfl)
  · intro d hd
    have hl := (dealing_signal chance a.signal d).lending
    exact ⟨hd.1.lending hl, hd.2.signal hd.1 chance a.signal⟩
  · intro d hd
    refine hkeep hd (.modifyLink fun l _ => ?_)
    have hs := Connection.steady_sendAnswer m a l.conn
    exact ⟨hs.address, hs.closing⟩

/-- A link that is opened in vain is closing. -/
theorem openLink (h : Deferred quiet c) {l : Link} (hc : l.conn.closing = true) :
    Deferred quiet (c.openLink l).2 where
  served := h.served
  spent hq hp e he i conn hmem hi := by
    rcases conn?_of_openLink hi with hi | rfl
    · exact h.spent hq hp e he i conn hmem hi
    · exact hc

/-- A new link takes nobody's place, so that nothing was put off for it. -/
theorem welcome (h : Deferred quiet c) (ht : Tabled c) {l : Link}
    (hs : c.serving? l.conn.address = none) : Deferred quiet (c.welcome l) := by
  have hother : ∀ e ∈ c.retries, e.1 ≠ l.conn.address := fun e he => by
    obtain ⟨j, hj⟩ := h.served e he
    exact address_ne_of_serving?_eq_none hs hj
  refine ⟨fun e he => ?_, fun hq hp e he i conn hmem hi => ?_⟩
  · obtain ⟨j, hj⟩ := h.served e he
    refine ⟨j, List.mem_append_left _ (List.mem_filter.mpr ⟨hj, ?_⟩)⟩
    rw [bne_iff_ne]
    exact hother e he
  · rcases List.mem_append.mp hmem with hmem | hmem
    · have hold := (List.mem_filter.mp hmem).1
      obtain ⟨conn', hi', -⟩ := ht.entries _ hold
      obtain ⟨l', hl', rfl⟩ := conn?_eq_some_iff.mp hi'
      obtain rfl := conn_eq_of_links (getElem?_openLink hl' l) hi
      exact h.spent hq hp e he i l'.conn hold hi'
    · exact absurd (congrArg Prod.fst (List.mem_singleton.mp hmem)) (hother e he)

theorem retired (h : Deferred quiet c) {i : Nat} {conn : Connection} (hr : Retired i conn c c') :
    Deferred quiet c' := by
  refine ⟨fun e he => ?_, fun hq hp e he j conn' hmem hj => ?_⟩
  · obtain ⟨hne, hold⟩ := hr.retries e he
    obtain ⟨j, hj⟩ := h.served e hold
    refine ⟨j, ?_⟩
    rw [hr.live, List.mem_filter, bne_iff_ne]
    exact ⟨hj, fun heq => hne (congrArg Prod.fst heq)⟩
  · rw [hr.live] at hmem
    rw [conn?, hr.links, ← conn?] at hj
    exact h.spent hq (hr.pause ▸ hp) e (hr.retries e he).2 j conn' (List.mem_filter.mp hmem).1 hj

theorem settleLink (h : Deferred quiet c) (i : Nat) : Deferred quiet (c.settleLink i) := by
  cases hi : c.conn? i with
  | none => rwa [settleLink_of_none hi]
  | some conn =>
    have hs := Connection.steady_settled conn
    rcases settleLink_cases hi with ⟨heq, -⟩ | ⟨-, -, hr⟩
    · rw [heq]
      exact h.abides (.putConn hi hs.address hs.closing)
    · have hput : Abides c (c.putConn i { conn.settled with closed := true }) :=
        .putConn hi hs.address hs.closing
      exact (h.abides hput).retired hr

/-- A link that is closing takes no grant, and waits on. -/
theorem retry (h : Deferred quiet c) (ht : Tabled c) {addr : String} {count : Int}
    (he : (addr, count) ∈ c.retries) : Deferred quiet (c.retry addr count) := by
  unfold Consumer.retry
  split
  · rename_i i hi
    have hmem := mem_live_of_serving? hi
    refine ⟨h.served.grant ht i count, fun hq hpos => ?_⟩
    have hp : 0 < c.pause := (samePace_grant i count c).pause ▸ hpos
    obtain ⟨conn, hconn, -⟩ := ht.entries _ hmem
    have hcl := h.spent hq hp _ he i conn hmem hconn
    have hsame : c.grant i count = c := by simp [grant, updateRdy, hconn, hcl]
    rw [hsame]
    exact h.spent hq hp
  · exact h.abides (.of_links rfl rfl (fun _ he => (mem_dropRetry.mp he).2) rfl)

/-- What is put off stays where it belongs, as long as no pause ends. -/
theorem direct {env : Surroundings} {a : Act} (h : Deferred quiet c) (ht : Tabled c)
    (ha : Sole env a c) (hq : quiet → a ≠ .resume) (hd : a.isDirect = true) :
    Deferred quiet (c.act env a).2 := by
  cases a with
  | attach link => exact h.welcome ht (ha.2 link rfl)
  | retry addr count => exact h.retry ht ha.1
  | resume =>
    exact ⟨h.served.sharing ht (sharing_resume env.chance c), fun hquiet => absurd rfl (hq hquiet)⟩
  | redistribute =>
    exact h.sharing ht (sharing_redistribute env.chance c) (sameBeat_redistribute env.chance c)
      fun hp => redistribute_of_pause hp env.chance
  | changeMaxInFlight n =>
    have hset : Abides c { c with maxInFlight := n } := .of_links rfl rfl (fun _ => id) rfl
    have hbeat := sameBeat_changeMaxInFlight n c
    exact (h.abides hset).sharing (hset.tabled ht) (sharing_changeMaxInFlight n c)
      ⟨hbeat.level, hbeat.pause, hbeat.armed⟩ fun hp => changeMaxInFlight_of_pause (c := c) hp n
  | retire i => exact absurd ha.1 id
  | updateRdy i count => exact absurd ha.1 id
  | sendRdy i count => exact absurd ha.1 id
  | _ => simp [Act.isDirect] at hd

theorem move {ok : Surroundings → Act → Consumer → Prop} (h : Deferred quiet c) (ht : Tabled c)
    (hok : ∀ env a c, ok env a c → Sole env a c ∧ (quiet → a ≠ .resume)) (hm : Move ok c c') :
    Deferred quiet c' := by
  cases hm with
  | note hn => exact h.abides (.of_links hn.live hn.pause (fun _ he => hn.retries ▸ he) hn.links)
  | adjust hq =>
    exact h.abides (.modifyLink fun l hl => ⟨(hq l hl).steady.address, (hq l hl).steady.closing⟩)
  | refill i =>
    exact h.sharing ht (sharing_refill i c) (samePace_refill i c).toSameBeat
      fun hp => refill_of_pause hp i
  | signal chance s => exact h.signal ht chance s
  | respread => exact h.abides (.of_links rfl rfl (fun _ => id) rfl)
  | stop => exact h.abides (.of_links rfl rfl (fun _ => id) rfl)
  | reject hl hc => exact h.openLink hc
  | join hl hs => exact h.welcome ht hs
  | arrive m rest hi =>
    have hset : ∀ offers received total, Abides c
        { c with offers := offers, received := received, totalRdy := total } :=
      fun _ _ _ => .of_links rfl rfl (fun _ => id) rfl
    refine (h.abides (hset _ _ _)).abides (.modifyLink fun l hl => ?_)
    obtain rfl := conn_eq_of_links hl hi
    exact ⟨rfl, id⟩
  | bounce i m a => exact h.passAnswer ht _ i m a
  | take =>
    have hset : ∀ offers handed, Abides c { c with offers := offers, handed := handed } :=
      fun _ _ => .of_links rfl rfl (fun _ => id) rfl
    exact (h.abides (hset _ _)).abides (.modifyLink fun l _ => ⟨rfl, id⟩)
  | @answer chance n d a =>
    have hset : ∀ s, Abides c (c.putState n s) := fun _ => .of_links rfl rfl (fun _ => id) rfl
    exact (h.abides (hset _)).passAnswer ((hset _).tabled ht) chance d.link d.message a
  | settle i => exact h.settleLink i
  | direct hok' hd => exact h.direct ht (hok _ _ _ hok').1 (hok _ _ _ hok').2 hd

end Deferred

/-! ### Runs -/

/-- Acts of a consumer on its own that end no pause. -/
def Lingers (env : Surroundings) (a : Act) (c : Consumer) : Prop := Sole env a c ∧ a ≠ .resume

theorem served_of_reaches {s : Subscription} (h : Reaches Sole (ofSubscription s) c) :
    Served c := by
  have hinv : Watched c ∧ Deferred False c := by
    refine h.invariant (I := fun d => Watched d ∧ Deferred False d) (fun c₁ c₂ hc hm => ?_) ?_
    · exact ⟨hc.1.move (fun _ _ _ => id) hm,
        hc.2.move hc.1.tabled (fun _ _ _ ha => ⟨ha, False.elim⟩) hm⟩
    · exact ⟨watched_of_reaches .refl, fun e he => absurd he List.not_mem_nil, False.elim⟩
  exact hinv.2.served

/-- **In a pause that a signal has begun, grants are put off for closing links alone**: once there
was no pause, the next one is such, until some pause ends. -/
theorem spent_of_reaches {s : Subscription} (h : Reaches Sole (ofSubscription s) c)
    (hp : c.pause = 0) (h' : Reaches Lingers c c') (hp' : 0 < c'.pause) : Spent c' := by
  have hinv : Watched c' ∧ Deferred True c' := by
    refine h'.invariant (I := fun d => Watched d ∧ Deferred True d) (fun c₁ c₂ hc hm => ?_) ?_
    · exact ⟨hc.1.move (fun _ _ _ => And.left) hm,
        hc.2.move hc.1.tabled (fun _ _ _ ha => ⟨ha.1, fun _ => ha.2⟩) hm⟩
    · exact ⟨watched_of_reaches h, served_of_reaches h, fun _ hpos => absurd hpos (by omega)⟩
  exact hinv.2.spent trivial hp'

end Consumer

end Nsq
