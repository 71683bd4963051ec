import Nsq.Proofs.Consumer.Portions
import Nsq.Proofs.Consumer.Thrift
import Nsq.Proofs.Consumer.Told
import Mathlib.Data.List.Nodup

/-!
# Back to full pace

The signal that brings the pace back to full grants every link in use an even part of the budget.
Whatever the links had before, and in whatever order they are walked, each of them has its part
afterwards, or what its daemon takes, and was told so once (`even_split_of_signal`): at a reduced
pace no link has credit for more than one message, so that the others always leave it its part.

A signal is heard in the middle of a step, after the answer was booked from which it comes, so the
theorem is about the states in which a signal may be heard (`Listens`, `Roams`). Their table may be
walked in another order each time.

The range of a word is a limit. A budget close to it, together with links that are overdrawn, leaves
more room than a word holds: the room comes out negative, and the grants are refused
(`overdrawn_after_signal`).
-/

namespace Nsq.Consumer

variable {c c' d : Consumer} {s : Subscription}

/-! ### The table and the share -/

/-- The table lists an address once, and without the idle policy no share is set. -/
structure Uniform (c : Consumer) : Prop where
  addresses : (c.live.map Prod.fst).Nodup
  share : c.config.flags .rdyRedistributeOnIdle = false → c.share = 0

namespace Uniform

theorem of_sublist (h : Uniform c) (hs : c'.subscription = c.subscription)
    (hlive : c'.live.Sublist c.live) (hshare : c'.share = c.share ∨ c'.share = 0) : Uniform c' where
  addresses := (hlive.map Prod.fst).nodup h.addresses
  share hf := by
    rw [config, hs] at hf
    exact hshare.elim (fun he => he.trans (h.share hf)) id

theorem of_eq (h : Uniform c) (hs : c'.subscription = c.subscription) (hlive : c'.live = c.live)
    (hshare : c'.share = c.share) : Uniform c' :=
  h.of_sublist hs (hlive ▸ List.Sublist.refl _) (.inl hshare)

theorem lending (h : Uniform c) (hl : Lending c c') (hshare : c'.share = c.share) : Uniform c' :=
  h.of_eq hl.subscription hl.live hshare

end Uniform

theorem share_signal (chance : Nat → Nat) (sig : Signal) (c : Consumer) :
    (c.signal chance sig).share = c.share := by
  unfold signal
  split_ifs
  · rfl
  · dsimp only
    split_ifs
    · exact (samePace_grantAll _ _ _).share
    · rfl
    · exact (samePace_grantAll _ _ { c with level := _ }).share

theorem share_resume (chance : Nat → Nat) (c : Consumer) :
    (c.resume chance).share = c.share := by
  unfold resume
  dsimp only
  split_ifs
  · rfl
  · split
    · rfl
    · rename_i i _
      have hp := (samePace_updateRdy i 1 { c with armed := false }).share
      split <;> rename_i heq <;> rw [heq] at hp <;> exact hp

theorem share_changeMaxInFlight (n : Int) (c : Consumer) :
    (c.changeMaxInFlight n).share = c.share := by
  unfold changeMaxInFlight
  split_ifs
  · rfl
  · dsimp only
    split_ifs
    · rfl
    · exact (SamePace.foldl (fun c i => samePace_refill i c) _ { c with maxInFlight := n }).share

/-- What becomes of the share when credit is spread: it is kept, given up, or under the idle policy
set to an even part of the budget for the active links. -/
theorem share_redistribute_cases (chance : Nat → Nat) (c : Consumer) :
    (c.redistribute chance).share = c.share ∨ (c.redistribute chance).share = 0 ∨
      c.config.flags .rdyRedistributeOnIdle = true ∧ ∃ k, 0 < k ∧ k ≤ c.live.length ∧
        (c.redistribute chance).share = evenShare c.maxInFlight k := by
  unfold redistribute
  split_ifs
  · exact .inl rfl
  · right
    dsimp only
    split_ifs with hpolicy
    · right
      set active := c.walk.filter fun i => !c.isIdle i with hactive
      obtain ⟨hspreads, hsome⟩ : c.spreadsOnIdle = true ∧ (!active.isEmpty) = true :=
        Bool.and_eq_true _ _ ▸ hpolicy
      refine ⟨(Bool.and_eq_true _ _ ▸ hspreads).1, active.length, ?_, ?_, ?_⟩
      · refine List.length_pos_iff.mpr fun hnil => ?_
        rw [hnil] at hsome
        exact absurd hsome (by decide)
      · exact (List.length_filter_le _ _).trans (by rw [walk, List.length_map])
      · exact (samePace_spreadToActive chance _ _ { c with respread := false }).share
    · exact .inl (samePace_spreadToAny chance _ _ { c with respread := false }).share
  · exact .inl rfl

/-- Without the idle policy the share is kept or given up. -/
theorem share_redistribute (hf : c.config.flags .rdyRedistributeOnIdle = false)
    (chance : Nat → Nat) :
    (c.redistribute chance).share = c.share ∨ (c.redistribute chance).share = 0 := by
  rcases share_redistribute_cases chance c with hsame | hzero | ⟨hpolicy, -⟩
  · exact .inl hsame
  · exact .inr hzero
  · rw [hf] at hpolicy
    exact absurd hpolicy Bool.false_ne_true

/-- Where a link enters the table, its address is listed once. -/
theorem addresses_enter (h : (c.live.map Prod.fst).Nodup) (addr : String) (i : Nat) :
    ((c.enter addr i).live.map Prod.fst).Nodup := by
  show ((c.live.filter (fun e => e.1 != addr) ++ [(addr, i)]).map Prod.fst).Nodup
  rw [List.map_append, List.nodup_append]
  refine ⟨(List.filter_sublist.map Prod.fst).nodup h, by simp, ?_⟩
  intro a ha b hb
  obtain ⟨e, he, rfl⟩ := List.mem_map.mp ha
  obtain rfl := List.mem_singleton.mp hb
  simpa using (List.mem_filter.mp he).2

namespace Uniform

theorem enter (h : Uniform c) (addr : String) (i : Nat) : Uniform (c.enter addr i) :=
  ⟨addresses_enter h.addresses addr i, h.share⟩

theorem welcome (h : Uniform c) (l : Link) : Uniform (c.welcome l) := by
  have ho : Uniform (c.openLink l).2 := h.of_eq rfl rfl rfl
  exact ho.enter _ _

theorem passAnswer (h : Uniform c) (chance : Nat → Nat) (i : Nat) (m : Message) (a : Answer) :
    Uniform (c.passAnswer chance i m a) := by
  refine passAnswer_invariant h (fun _ _ => h.of_eq rfl rfl rfl) (fun d hd => ?_)
    (fun d hd => hd.lending (dealing_signal chance _ d).lending (share_signal chance _ d))
    fun d hd => hd.of_eq rfl rfl rfl
  cases a <;> exact hd.of_eq rfl rfl rfl

theorem settleLink (h : Uniform c) (i : Nat) : Uniform (c.settleLink i) := by
  cases hi : c.conn? i with
  | none => rwa [settleLink_of_none hi]
  | some conn =>
    rcases settleLink_cases hi with ⟨heq, -⟩ | ⟨-, -, hr⟩
    · rw [heq]
      exact h.of_eq rfl rfl rfl
    · have hp : Uniform (c.putConn i { conn.settled with closed := true }) := h.of_eq rfl rfl rfl
      exact hp.of_sublist hr.subscription (hr.live ▸ List.filter_sublist) (.inr hr.share)

theorem direct {env : Surroundings} {a : Act} (h : Uniform c) (ha : Own env a c)
    (hd : a.isDirect = true) : Uniform (c.act env a).2 := by
  cases a with
  | attach link => exact h.welcome link
  | retry addr count =>
    exact h.lending (dealing_retry addr count c).lending (samePace_retry addr count c).share
  | resume => exact h.lending (dealing_resume env.chance c).lending (share_resume env.chance c)
  | redistribute =>
    have hl := (dealing_redistribute env.chance c).lending
    refine ⟨?_, fun hf => ?_⟩
    · exact hl.live ▸ h.addresses
    · have hf' : c.config.flags .rdyRedistributeOnIdle = false := by
        rw [config, ← hl.subscription]
        exact hf
      exact (share_redistribute hf' env.chance).elim (fun he => he.trans (h.share hf')) id
  | changeMaxInFlight n =>
    exact h.lending (dealing_changeMaxInFlight n c).lending (share_changeMaxInFlight n c)
  | retire i => exact absurd ha id
  | updateRdy i count => exact absurd ha id
  | sendRdy i count => exact absurd ha id
  | _ => simp [Act.isDirect] at hd

theorem move (h : Uniform c) (hm : Move Sole c c') : Uniform c' := by
  cases hm with
  | note hn => exact h.of_sublist hn.subscription (hn.live ▸ List.Sublist.refl _) hn.share
  | refill i => exact h.lending (dealing_refill i c).lending (samePace_refill i c).share
  | signal chance sig =>
    exact h.lending (dealing_signal chance sig c).lending (share_signal chance sig c)
  | join => exact h.welcome _
  | bounce i m a => exact h.passAnswer _ i m a
  | answer a =>
    have hput : ∀ n st, Uniform (c.putState n st) := fun _ _ => h.of_eq rfl rfl rfl
    exact (hput _ _).passAnswer _ _ _ a
  | settle i => exact h.settleLink i
  | direct hok hd => exact h.direct hok.1 hd
  | _ => exact h.of_eq rfl rfl rfl

end Uniform

/-! ### The states in which a signal is heard -/

/-- The states of a run of the consumer's own acts, between the moves of which it is made, where the
table may change its order at any time. -/
inductive Roams (s : Subscription) : Consumer → Prop
  | start : Roams s (ofSubscription s)
  | move {c c' : Consumer} (h : Roams s c) (hm : Move Sole c c') : Roams s c'
  | reorder {c : Consumer} {live : List (String × Nat)} (h : Roams s c) (hp : live.Perm c.live) :
      Roams s { c with live := live }

theorem Reaches.roams (h : Reaches Sole (ofSubscription s) c) : Roams s c :=
  h.invariant (fun _ _ => Roams.move) .start

/-- The states in which a signal may be heard: between two moves, or when an answer of a handler has
just been booked from which the signal comes. -/
inductive Listens (s : Subscription) : Consumer → Prop
  | between {c : Consumer} (h : Roams s c) : Listens s c
  | answered {c : Consumer} {i : Nat} {conn : Connection} (h : Roams s c) (n : Nat)
      (st : Answered) (hi : c.conn? i = some conn) (a : Answer) :
      Listens s (((c.putState n st).putConn i conn.countAnswer).countAnswer a)

/-- What is known of a consumer that hears a signal. -/
structure Poised (c : Consumer) : Prop where
  orderly : Orderly c
  balanced : Balanced c
  uniform : Uniform c
  thrifty : Thrifty c

/-- What is known of it between moves. -/
structure Provident (c : Consumer) : Prop extends Poised c where
  tended : Tended c
  deferred : Deferred False c

namespace Provident

theorem tabled (h : Provident c) : Tabled c := h.tended.tabled h.orderly

theorem move (h : Provident c) (hm : Move Sole c c') : Provident c' where
  orderly := h.orderly.move hm (fun _ _ _ hok => hok.1) fun _ _ _ hok => hok.1
  balanced := h.balanced.move h.orderly (hm.mono fun _ _ _ hok => lawful_of_own hok.1)
  uniform := h.uniform.move hm
  thrifty := h.thrifty.move h.tabled h.deferred.served hm
  tended := h.tended.move h.orderly hm (fun _ _ _ hok => ⟨hok.1, hok.2 _ rfl⟩)
    fun _ _ _ hok => hok.1
  deferred := h.deferred.move h.tabled (fun _ _ _ hok => ⟨hok, False.elim⟩) hm

/-- The order of the table does not matter. -/
theorem reorder (h : Provident c) {live : List (String × Nat)} (hp : live.Perm c.live) :
    Provident { c with live := live } where
  orderly := ⟨h.orderly.tidy, fun e he => h.orderly.listed e (hp.mem_iff.mp he)⟩
  balanced := h.balanced.of_eq rfl rfl
  uniform := ⟨(hp.map Prod.fst).nodup_iff.mpr h.uniform.addresses, h.uniform.share⟩
  thrifty := h.thrifty.plain (.of_links rfl rfl (fun _ => hp.mem_iff.mp) (fun _ => id) rfl)
  tended := ⟨h.tended.ending, fun i conn hi =>
    (h.tended.listed i conn hi).imp_right hp.mem_iff.mpr⟩
  deferred := ⟨fun e he => (h.deferred.served e he).imp fun _ => hp.mem_iff.mpr, False.elim⟩

end Provident

theorem Roams.provident (h : Roams s c) : Provident c := by
  induction h with
  | start =>
    have hw : Watched (ofSubscription s) := watched_of_reaches .refl
    exact ⟨⟨hw.orderly, hw.balanced, ⟨List.nodup_nil, fun _ => rfl⟩, thrifty_ofSubscription s⟩,
      hw.tended, ⟨fun _ he => absurd he List.not_mem_nil, False.elim⟩⟩
  | move _ hm ih => exact ih.move hm
  | reorder _ hp ih => exact ih.reorder hp

theorem Listens.poised (h : Listens s c) : Poised c := by
  cases h with
  | between h => exact h.provident.toPoised
  | @answered d i conn h n st hi a =>
    have hd := h.provident
    -- neither the state of a message nor the count of its answer concerns credit
    have hput : Poised ((d.putState n st).putConn i conn.countAnswer) := by
      have hi' : (d.putState n st).conn? i = some conn := hi
      have ho : Orderly (d.putState n st) := ⟨hd.orderly.tidy, hd.orderly.listed⟩
      have hb : Balanced (d.putState n st) := hd.balanced.of_eq rfl rfl
      have ht : Thrifty (d.putState n st) := hd.thrifty.of_eq rfl rfl rfl rfl rfl
      exact ⟨ho.putConn hi' Connection.Tidy.countAnswer rfl rfl, hb.putConn hi' rfl rfl,
        hd.uniform.of_eq rfl rfl rfl,
        ht.plain (.putConn hi' fun l hl => hl ▸ ⟨rfl, rfl, rfl, rfl, id, rfl⟩)⟩
    cases a <;> exact ⟨⟨hput.orderly.tidy, hput.orderly.listed⟩, hput.balanced.of_eq rfl rfl,
      hput.uniform.of_eq rfl rfl rfl, hput.thrifty.of_eq rfl rfl rfl rfl rfl⟩

/-! ### The links in use -/

/-- No link is walked twice: it would have to be listed under two addresses. -/
theorem Poised.walk_nodup (h : Poised c) : c.walk.Nodup := by
  have hlive : c.live.Nodup := List.Nodup.of_map Prod.fst h.uniform.addresses
  refine List.Nodup.map_on (fun e he e' he' heq => ?_) hlive
  obtain ⟨conn, hi, ha, -⟩ := h.orderly.listed e he
  obtain ⟨conn', hi', ha', -⟩ := h.orderly.listed e' he'
  rw [heq] at hi
  obtain rfl := Option.some.inj (hi.symm.trans hi')
  exact Prod.ext (ha.symm.trans ha') heq

/-- A sum over all links is one over some of them if the others add nothing. -/
theorem sum_map_eq_sum_indices {ls : List Link} {g : Link → Int} {f : Nat → Int} {is : List Nat}
    (hnd : is.Nodup) (hf : ∀ i ∈ is, ∃ l, ls[i]? = some l ∧ f i = g l)
    (hzero : ∀ i l, ls[i]? = some l → i ∉ is → g l = 0) : (ls.map g).sum = (is.map f).sum := by
  have hrange : ls.map g = (List.range ls.length).map fun i => (ls[i]?.map g).getD 0 := by
    refine List.ext_getElem (by simp) fun i hi _ => ?_
    have hi' : i < ls.length := by simpa using hi
    simp [hi']
  have hin : is.Perm ((List.range ls.length).filter fun i => is.contains i) := by
    refine perm_filter_contains List.nodup_range hnd fun i hi => List.mem_range.mpr ?_
    obtain ⟨l, hl, -⟩ := hf i hi
    exact (List.getElem?_eq_some_iff.mp hl).1
  have hpicked : is.map f = is.map fun i => (ls[i]?.map g).getD 0 := by
    refine List.map_congr_left fun i hi => ?_
    obtain ⟨l, hl, he⟩ := hf i hi
    simp [hl, he]
  have hout : (((List.range ls.length).filter fun i => !is.contains i).map
      fun i => (ls[i]?.map g).getD 0).sum = 0 := by
    refine List.sum_eq_zero (List.forall_mem_map.mpr fun i hi => ?_)
    rw [List.mem_filter, List.mem_range] at hi
    have hl := List.getElem?_eq_getElem hi.1
    rw [hl]
    exact hzero i ls[i] hl (by simpa using hi.2)
  rw [hrange, ← sum_map_filter_add _ (fun i => is.contains i), hout, Int.add_zero, hpicked,
    (hin.map _).sum_eq]

/-- If all other links have ended, the credit of the links in use is all there is. -/
theorem Poised.credit_eq (h : Poised c)
    (hclosed : ∀ i conn, c.conn? i = some conn → i ∉ c.walk → conn.closed = true) :
    c.credit = (c.walk.map c.rdyOf).sum := by
  have hopen : ∀ i ∈ c.walk, ∃ conn, c.conn? i = some conn ∧ conn.closed = false := by
    intro i hi
    obtain ⟨e, he, rfl⟩ := List.mem_map.mp hi
    obtain ⟨conn, hconn, -, hc⟩ := h.orderly.listed e he
    exact ⟨conn, hconn, hc⟩
  refine sum_map_eq_sum_indices h.walk_nodup (fun i hi => ?_) fun i l hl hi => ?_
  · obtain ⟨conn, hconn, hc⟩ := hopen i hi
    obtain ⟨l, hl, rfl⟩ := conn?_eq_some_iff.mp hconn
    exact ⟨l, hl, (rdyOf_of_conn hconn).trans (Link.owed_of_closed_eq_false hc).symm⟩
  · have hc := hclosed i l.conn (conn?_of_links hl) hi
    simp [Link.owed, hc]

/-! ### The signal -/

/-- A signal that takes the level to zero grants every link in use its part. -/
theorem signal_of_last_level {sig : Signal} (hpause : c.pause = 0) (hlevel : c.level = 1)
    (hsig : sig ≠ .backoff) (chance : Nat → Nat) :
    c.signal chance sig =
      ({ c with level := 0 } : Consumer).grantAll c.walk c.perLink := by
  have hnext : c.levelAfter sig (chance 0) = (0, true) := by
    cases sig with
    | backoff => exact absurd rfl hsig
    | steady => simp [levelAfter, hlevel]
    | resume => simp [levelAfter, hlevel]
  unfold signal
  rw [if_neg (by simp [inPause, hpause]), hnext]
  rfl

/-- A budget with a message for every link in use is split evenly, unless the idle policy has set a
share. -/
theorem perLink_of_even (hshare : c.share = 0) (hlive : c.live ≠ [])
    (hfew : c.live.length ≤ c.maxInFlight) : c.perLink = c.maxInFlight.tdiv c.live.length := by
  have hk : 0 < c.live.length := List.length_pos_iff.mpr hlive
  obtain ⟨hone, hsum⟩ := even_part hk hfew
  have hle : c.maxInFlight.tdiv c.live.length ≤ c.maxInFlight := by
    rw [Int.tdiv_eq_ediv_of_nonneg (by omega)]
    exact Int.ediv_le_self _ (by omega)
  have hempty : c.live.isEmpty = false := by simpa using hlive
  rw [perLink, if_neg (by omega), hempty, if_neg Bool.false_ne_true]
  omega

/-- At a reduced pace an open link has credit for one message at most. -/
theorem Poised.rdy_le_one (h : Poised c) (hlevel : 0 < c.level) (hreceived : c.received < 2 ^ 63)
    {i : Nat} {conn : Connection} (hi : c.conn? i = some conn) (ha : Able conn) : conn.rdy ≤ 1 := by
  obtain ⟨l, hl, rfl⟩ := conn?_eq_some_iff.mp hi
  have hmem := List.mem_of_getElem? hl
  have hb := h.thrifty.bounded hreceived l hmem
  rcases h.thrifty.frugal hlevel l hmem with hc | hm | ⟨hlow, hhigh⟩
  · exact absurd hc (by simp [ha.closing])
  · exact absurd ha.maxRdy (by omega)
  · have := (hb.rdy hlow).2
    omega

/-- **Leaving a backoff restores the even split.** Let the idle policy be off, and let a signal
other than a failure be heard at level one outside of a pause, with `k` links in use, which are
open, whose daemons take some credit and can be told, while all other links have ended, and a budget
with a message for each of them. Then the level is zero afterwards, and every link in use has been
told once, of the even part of the budget or what its daemon takes, has that credit, and waits for
no grant any more. What the links had before does not matter, nor does the order of the table, as
long as a word counts the messages received, and holds the budget together with what all links but
one have overdrawn. -/
theorem even_split_of_signal (h : Listens s c) (chance : Nat → Nat) (sig : Signal)
    (hidle : c.config.flags .rdyRedistributeOnIdle = false) (hlevel : c.level = 1)
    (hpause : c.pause = 0) (hsig : sig ≠ .backoff) (hlive : c.live ≠ [])
    (hfew : c.live.length ≤ c.maxInFlight)
    (hable : ∀ i ∈ c.walk, ∀ conn, c.conn? i = some conn → Able conn)
    (hclosed : ∀ i conn, c.conn? i = some conn → i ∉ c.walk → conn.closed = true)
    (hreceived : c.received < 2 ^ 63)
    (hrange : ∀ i ∈ c.walk, c.maxInFlight + c.overdraft i < 2 ^ 63) :
    (c.signal chance sig).level = 0 ∧
      ∀ i ∈ c.walk, ∃ conn conn', c.conn? i = some conn ∧
        (c.signal chance sig).conn? i = some conn' ∧
        conn'.rdy = min (c.maxInFlight.tdiv c.live.length) conn.maxRdy ∧
        conn'.lastRdy = min (c.maxInFlight.tdiv c.live.length) conn.maxRdy ∧
        conn'.told = conn.told ++ [min (c.maxInFlight.tdiv c.live.length) conn.maxRdy] ∧
        ∀ e ∈ (c.signal chance sig).retries, e.1 ≠ conn.address := by
  have hp := h.poised
  obtain ⟨hone, hsum⟩ := even_part (List.length_pos_iff.mpr hlive) hfew
  rw [signal_of_last_level hpause hlevel hsig,
    perLink_of_even (hp.uniform.share hidle) hlive hfew]
  set part := c.maxInFlight.tdiv c.live.length with hpart
  have hopen : ∀ i ∈ c.walk, ∃ conn, c.conn? i = some conn ∧ Able conn := by
    intro i hi
    obtain ⟨e, he, rfl⟩ := List.mem_map.mp hi
    obtain ⟨conn, hconn, -⟩ := hp.orderly.listed e he
    exact ⟨conn, hconn, hable e.2 hi conn hconn⟩
  have hsolvent : Solvent { c with level := 0 } :=
    ⟨hp.walk_nodup, hopen, hp.balanced.trans (congrArg word64 (hp.credit_eq hclosed)),
      show 0 ≤ c.maxInFlight by omega, hrange⟩
  -- no link has more than one message before, or more than its part after its turn
  have hwalk : Portioned part c.walk { c with level := 0 }
      (({ c with level := 0 } : Consumer).grantAll c.walk part) := by
    refine (portioned_grantAll hsolvent (by omega) hp.walk_nodup (fun _ hi => hi)
      (fun i => min part (c.maxRdyOf i)) ?_ ?_ ?_ (fun h0 => by omega)).2
    · have hparts := sum_map_le_length_mul c.walk fun i _ =>
        Int.min_le_left part (c.maxRdyOf i)
      rw [walk, List.length_map] at hparts
      exact Int.le_trans hparts hsum
    · intro j hj
      obtain ⟨conn, hconn, ha⟩ := hopen j hj
      have hle := hp.rdy_le_one (by omega) hreceived hconn ha
      have hm := ha.maxRdy
      rw [maxRdyOf_of_conn hconn]
      rw [rdyOf_of_conn (show ({ c with level := 0 } : Consumer).conn? j = some conn from hconn)]
      omega
    · exact fun i _ => Int.le_refl _
  refine ⟨hwalk.pace.level, fun i hi => ?_⟩
  obtain ⟨conn, hconn, ha⟩ := hopen i hi
  refine ⟨conn, _, hconn, hwalk.given i hi conn hconn, Connection.granted_rdy _ _,
    Connection.granted_lastRdy _ _, ?_, fun e he => (hwalk.retries e he).2 i hi conn hconn⟩
  rw [Connection.told_granted, if_neg (by simp [ha.refusing])]

/-- The probe is answered by two messages, so that its link is overdrawn when a second one has come
whose daemon takes three messages at most. The first one gets half of the budget of ten, the other
one what its daemon takes. -/
theorem even_split_of_overdrawn_probe :
    let c := sample.stepAll silence
      [.addHandlers 2, .attach (sampleLink "h:1" 2500), .signal .backoff, .resume,
        .feed 0 (sampleMessage 1), .feed 0 (sampleMessage 2), .attach (sampleLink "h:2" 3)]
    let c' := c.signal silence.chance .steady
    c.rdyOf 0 = -1 ∧ c'.level = 0 ∧ c'.rdyOf 0 = 5 ∧ c'.told 0 = c.told 0 ++ [5] ∧
      c'.rdyOf 1 = 3 ∧ c'.told 1 = [3] := by
  intro c c'
  have hw : c.walk = [0, 1] := by decide +kernel
  have hlinks : c.links.length = 2 := by decide +kernel
  have hreach : Reaches Sole sample c := by
    refine reaches_stepAll ⟨sole_of_own trivial (by simp), ⟨fresh_sampleLink "h:1" 2500, ?_⟩,
      sole_of_own trivial (by simp), sole_of_own ?_ (by simp), sole_of_own trivial (by simp),
      sole_of_own trivial (by simp), ⟨fresh_sampleLink "h:2" 3, ?_⟩, trivial⟩
    · rintro _ ⟨⟩
      decide +kernel
    · show Consumer.armed _ = true
      decide +kernel
    · rintro _ ⟨⟩
      decide +kernel
  have h0 : (c.conn? 0).map (fun conn => (conn.closing, conn.refusing, conn.maxRdy)) =
      some (false, false, 2500) := by decide +kernel
  have h1 : (c.conn? 1).map (fun conn => (conn.closing, conn.refusing, conn.maxRdy)) =
      some (false, false, 3) := by decide +kernel
  have hsplit := even_split_of_signal (.between hreach.roams) silence.chance .steady
    (by decide +kernel) (by decide +kernel) (by decide +kernel) (by decide) (by decide +kernel)
    (by decide +kernel) ?_ ?_ (by decide +kernel) (by decide +kernel)
  · have hpart : c.maxInFlight.tdiv c.live.length = 5 := by decide +kernel
    obtain ⟨hlevel, hparts⟩ := hsplit
    rw [hpart] at hparts
    obtain ⟨conn, conn', hc, hc', hrdy, -, htold, -⟩ := hparts 0 (by rw [hw]; decide)
    obtain ⟨conn₁, conn₁', hc₁, hc₁', hrdy₁, -, htold₁, -⟩ := hparts 1 (by rw [hw]; decide)
    simp only [hc, hc₁, Option.map_some, Option.some.injEq, Prod.mk.injEq] at h0 h1
    have hfirst : conn₁.told = [] := by
      rw [← told_of_conn hc₁]
      decide +kernel
    rw [h0.2.2] at hrdy htold
    rw [h1.2.2] at hrdy₁ htold₁
    refine ⟨by decide +kernel, hlevel, ?_, ?_, ?_, ?_⟩
    · rw [rdyOf_of_conn hc', hrdy]
      rfl
    · rw [told_of_conn hc', told_of_conn hc, htold]
      rfl
    · rw [rdyOf_of_conn hc₁', hrdy₁]
      rfl
    · rw [told_of_conn hc₁', htold₁, hfirst]
      rfl
  · intro i hi conn hconn
    rw [hw, List.mem_cons, List.mem_singleton] at hi
    rcases hi with rfl | rfl
    · simp only [hconn, Option.map_some, Option.some.injEq, Prod.mk.injEq] at h0
      exact ⟨h0.1, h0.2.1, by omega⟩
    · simp only [hconn, Option.map_some, Option.some.injEq, Prod.mk.injEq] at h1
      exact ⟨h1.1, h1.2.1, by omega⟩
  · intro i conn hconn hout
    obtain ⟨l, hl, -⟩ := conn?_eq_some_iff.mp hconn
    have hlt := (List.getElem?_eq_some_iff.mp hl).1
    rw [hw, List.mem_cons, List.mem_singleton] at hout
    omega

/-- The range of a word is a limit. Of the greatest budget there is, two links that are overdrawn by
a message each leave more to each other than a word holds. Where sums are checked that is the end;
elsewhere both grants are refused. -/
theorem overdrawn_after_signal :
    let c := sample.stepAll silence
      [.changeMaxInFlight (2 ^ 63 - 1), .addHandlers 3, .attach (sampleLink "h:1" 2500),
        .signal .backoff, .resume, .attach (sampleLink "h:2" 2500), .feed 0 (sampleMessage 1),
        .feed 0 (sampleMessage 2), .feed 1 (sampleMessage 3)]
    let c' := c.signal silence.chance .steady
    Listens sample.subscription c ∧ c.level = 1 ∧ c.pause = 0 ∧ c.live.length ≤ c.maxInFlight ∧
      c.perform true silence (.signal .steady) = .error .subtract ∧ c'.level = 0 ∧
      c'.rdyOf 0 = -1 ∧ c'.told 0 = c.told 0 ∧ c'.rdyOf 1 = -1 ∧ c'.told 1 = [] := by
  intro c c'
  have hreach : Reaches Sole sample c := by
    refine reaches_stepAll ⟨sole_of_own trivial (by simp), sole_of_own trivial (by simp),
      ⟨fresh_sampleLink "h:1" 2500, ?_⟩, sole_of_own trivial (by simp), sole_of_own ?_ (by simp),
      ⟨fresh_sampleLink "h:2" 2500, ?_⟩, sole_of_own trivial (by simp),
      sole_of_own trivial (by simp), sole_of_own trivial (by simp), trivial⟩
    · rintro _ ⟨⟩
      decide +kernel
    · show Consumer.armed _ = true
      decide +kernel
    · rintro _ ⟨⟩
      decide +kernel
  exact ⟨.between hreach.roams, by decide +kernel, by decide +kernel, by decide +kernel,
    perform_eq_error_iff.mpr (by decide +kernel), by decide +kernel, by decide +kernel,
    by decide +kernel, by decide +kernel, by decide +kernel⟩

end Nsq.Consumer
