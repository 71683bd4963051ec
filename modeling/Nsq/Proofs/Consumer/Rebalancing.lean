import Nsq.Proofs.Consumer.Scattering

/-!
# Refills and the order of the table

A link that enters the table lowers the part of all others, so that every link in use is refilled,
in the order of the table. A refill leaves a link what it is to have (`aim`), but no more than what
the other links leave of the budget at its turn. Links whose turn comes later still have what they
had before: where a link comes down to its part after others have come up to theirs, those found
nothing left, and nobody comes back to them but by a retry, if they have no credit at all.

`refillAll_perm_iff` says exactly when the order of the table does not show: the budget has to
cover, for every link in use, the greater of what it has and what it is to have. It does so if no
link has more than its part, and it does not where one link has all of the budget when a second one
enters the table. An order under which every link has what it is to have is there in any case: links
that come down go before those that come up.
-/

namespace Nsq.Consumer

variable {c c' c'' : Consumer} {i j : Nat} {conn : Connection} {is js : List Nat}

/-! ### Sums -/

/-- What a link may owe after a refill: what it has overdrawn, or was given by a daemon that takes
less than no credit. -/
def debt (i : Nat) (c : Consumer) : Int := max 0 (-min (c.rdyOf i) (c.maxRdyOf i))

theorem neg_others_le_debt (hi : i ∈ c.walk) :
    -c.others i ≤ (c.walk.map fun j => c.debt j).sum - c.debt i :=
  neg_others_le_sum hi fun j => by
    unfold debt
    omega

/-! ### One refill -/

/-- The credit that a refill is to leave a link: its part or what its daemon takes of that, where a
refill is due, and what it has otherwise. -/
def aim (i : Nat) (c : Consumer) : Int :=
  match c.conn? i with
  | none => 0
  | some conn => if wantsRefill c.perLink conn then min c.perLink conn.maxRdy else conn.rdy

theorem aim_of_conn (h : c.conn? i = some conn) :
    c.aim i = if wantsRefill c.perLink conn then min c.perLink conn.maxRdy else conn.rdy := by
  simp only [aim, h]

theorem aim_congr (hp : c'.perLink = c.perLink) (hc : c'.conn? i = c.conn? i) :
    c'.aim i = c.aim i := by
  rw [aim, aim, hp, hc]

/-- The link is open and not overdrawn, its daemon can be told, and it has no credit but what it was
granted. -/
structure Refillable (conn : Connection) : Prop where
  closing : conn.closing = false
  refusing : conn.refusing = false
  rdy : 0 ≤ conn.rdy
  granted : 0 < conn.rdy → conn.lastRdy ≠ 0

/-- Some links in use are still to be refilled: the pace is full, the total is the credit of the
links in use and within the budget, and a word holds the budget together with what they may owe. -/
structure Awaiting (is : List Nat) (c : Consumer) : Prop where
  level : c.level = 0
  pause : c.pause = 0
  once : c.walk.Nodup
  refillable : ∀ i ∈ is, i ∈ c.walk ∧ ∃ conn, c.conn? i = some conn ∧ Refillable conn
  total : c.totalRdy = (c.walk.map c.rdyOf).sum
  met : c.totalRdy ≤ c.maxInFlight
  budget : 0 ≤ c.maxInFlight
  range : c.maxInFlight + (c.walk.map fun j => c.debt j).sum < 2 ^ 63

namespace Awaiting

theorem of_subset (h : Awaiting is c) (hs : ∀ j ∈ js, j ∈ is) : Awaiting js c :=
  { h with refillable := fun j hj => h.refillable j (hs j hj) }

/-- The budget leaves a link what the other links do not have, and at least what it has. -/
theorem roomFor_eq (h : Awaiting is c) (hi : i ∈ c.walk) (hc : c.conn? i = some conn)
    (hr : 0 ≤ conn.rdy) :
    c.roomFor conn.rdy = c.maxInFlight - c.others i ∧ conn.rdy ≤ c.maxInFlight - c.others i := by
  have hdebt := neg_others_le_debt hi
  have hown : 0 ≤ c.debt i := Int.le_max_left _ _
  have hrange := h.range
  have hmet := h.met
  have htotal := h.total
  have hrdy := rdyOf_of_conn hc
  unfold others at hdebt ⊢
  refine ⟨?_, by omega⟩
  rw [roomFor, spare, word64_eq_self] <;> omega

/-- No refill leaves a link less than nothing, unless its daemon takes less. -/
theorem min_le_left_by (h : Awaiting is c) (hi : i ∈ is) :
    min 0 (c.maxRdyOf i) ≤ min (c.aim i) (c.maxInFlight - c.others i) := by
  obtain ⟨hwalk, conn, hc, hr⟩ := h.refillable i hi
  have hleft := (h.roomFor_eq hwalk hc hr.rdy).2
  have hpart := perLink_nonneg h.budget
  have hlow := hr.rdy
  rw [aim_of_conn hc, maxRdyOf_of_conn hc]
  split_ifs <;> omega

/-- A word holds the total with what a refill may leave its link. -/
theorem word64_total (h : Awaiting is c) (hi : i ∈ is) {n : Int}
    (hlow : min 0 (c.maxRdyOf i) ≤ n) (hhigh : n ≤ c.maxInFlight - c.others i) :
    word64 (c.totalRdy + (n - c.rdyOf i)) = c.totalRdy + (n - c.rdyOf i) := by
  have hdebt := neg_others_le_debt (h.refillable i hi).1
  have hown : -c.debt i ≤ min 0 (c.maxRdyOf i) := by
    unfold debt
    omega
  have hnonneg : 0 ≤ (c.walk.map fun j => c.debt j).sum :=
    List.sum_nonneg (List.forall_mem_map.mpr fun j _ => Int.le_max_left _ _)
  have htotal : c.others i = c.totalRdy - c.rdyOf i := by rw [h.total, others]
  have hrange := h.range
  have hbudget := h.budget
  exact word64_eq_self (by omega) (by omega)

/-- At full pace a refill that is due grants a link its part. -/
theorem refill_eq (h : Awaiting is c) (hc : c.conn? i = some conn) :
    c.refill i = if wantsRefill c.perLink conn then c.grant i c.perLink else c := by
  have hfull : (c.inBackoff || c.inPause) = false := by simp [inBackoff, inPause, h.level, h.pause]
  simp only [refill, hfull, hc, Bool.false_eq_true, if_false]

/-- What a refill makes of its link. -/
theorem conn?_refill (h : Awaiting is c) (hi : i ∈ is) :
    ∃ conn', (c.refill i).conn? i = some conn' ∧ conn'.maxRdy = c.maxRdyOf i ∧
      conn'.rdy = min (c.aim i) (c.maxInFlight - c.others i) ∧
      (c.refill i).totalRdy = c.totalRdy + (conn'.rdy - c.rdyOf i) := by
  have hleast := h.min_le_left_by hi
  obtain ⟨hwalk, conn, hc, hr⟩ := h.refillable i hi
  obtain ⟨hroom, hleft⟩ := h.roomFor_eq hwalk hc hr.rdy
  have hlow := hr.rdy
  have hkept (hrdy : conn.rdy = min (c.aim i) (c.maxInFlight - c.others i)) {d : Consumer}
      (hl : d.links = c.links) (ht : d.totalRdy = c.totalRdy) :
      ∃ conn', d.conn? i = some conn' ∧ conn'.maxRdy = c.maxRdyOf i ∧
        conn'.rdy = min (c.aim i) (c.maxInFlight - c.others i) ∧
        d.totalRdy = c.totalRdy + (conn'.rdy - c.rdyOf i) := by
    refine ⟨conn, by rw [conn?, hl, ← conn?, hc], (maxRdyOf_of_conn hc).symm, hrdy, ?_⟩
    rw [ht, rdyOf_of_conn hc]
    omega
  rw [h.refill_eq hc]
  by_cases hw : wantsRefill c.perLink conn = true
  · have haim : c.aim i = min c.perLink conn.maxRdy := by rw [aim_of_conn hc, if_pos hw]
    have hallot : ¬c.Refuses conn c.perLink →
        c.allotment conn c.perLink = min (c.aim i) (c.maxInFlight - c.others i) := by
      intro hyes
      have hyes' : ¬(c.roomFor conn.rdy ≤ 0 ∧ 0 < min c.perLink conn.maxRdy) := hyes
      unfold allotment
      split_ifs <;> omega
    rw [if_pos hw]
    rcases grant_cases i c.perLink c with ⟨hl, ht, hno⟩ | ⟨conn', hc', -, hyes, hl, ht, -⟩
    · -- the budget refused the grant, or there was no need for it
      refine hkept ?_ hl ht
      by_cases hyes : c.Refuses conn c.perLink
      · obtain ⟨hfew, hsome⟩ := hyes
        omega
      · obtain ⟨hzero, hlast⟩ := (hno conn hc hr.closing).resolve_left hyes
        have hnone : ¬0 < conn.rdy := fun hpos => hr.granted hpos hlast
        rw [← hallot hyes]
        omega
    · obtain rfl := Option.some.inj (hc.symm.trans hc')
      refine ⟨conn.granted (c.allotment conn c.perLink), ?_, ?_, ?_, ?_⟩
      · rw [conn?, hl, ← conn?, conn?_booked_self hc]
      · rw [Connection.granted_eq, maxRdyOf_of_conn hc]
      · rw [Connection.granted_rdy, hallot hyes]
      · rw [ht, Connection.granted_rdy, hallot hyes,
          ← h.word64_total hi hleast (Int.min_le_right _ _), rdyOf_of_conn hc]
        rfl
  · have haim : c.aim i = conn.rdy := by rw [aim_of_conn hc, if_neg hw]
    rw [if_neg hw]
    exact hkept (by omega) rfl rfl

theorem rdyOf_refill (h : Awaiting is c) (hi : i ∈ is) :
    (c.refill i).rdyOf i = min (c.aim i) (c.maxInFlight - c.others i) := by
  obtain ⟨conn', hc', -, hrdy, -⟩ := h.conn?_refill hi
  rw [rdyOf_of_conn hc', hrdy]

end Awaiting

theorem walk_refill (i : Nat) (c : Consumer) : (c.refill i).walk = c.walk :=
  congrArg (List.map Prod.snd) (live_refill i c)

/-- After a refill the rest of the walk is still to be refilled. -/
theorem Awaiting.refill (h : Awaiting (i :: is) c) (hi : i ∉ is) : Awaiting is (c.refill i) := by
  have hmem : i ∈ i :: is := List.mem_cons_self
  have hp := samePace_refill i c
  have hw := walk_refill i c
  have hwalk := (h.refillable i hmem).1
  have hleast := h.min_le_left_by hmem
  obtain ⟨conn', hc', hmax, hnew, ht⟩ := h.conn?_refill hmem
  have hsum := sum_map_of_ne h.once hwalk fun j hj => rdyOf_refill_of_ne hj c
  rw [rdyOf_of_conn hc'] at hsum
  refine ⟨hp.level.trans h.level, hp.pause.trans h.pause, hw ▸ h.once, fun j hj => ?_, ?_, ?_, ?_,
    ?_⟩
  · have hji : j ≠ i := fun e => hi (e ▸ hj)
    rw [hw, conn?_refill_of_ne hji]
    exact h.refillable j (List.mem_cons_of_mem i hj)
  · rw [hw, hsum, ht, h.total]
  · have htotal : c.others i = c.totalRdy - c.rdyOf i := by rw [h.total, others]
    rw [hp.maxInFlight, ht]
    omega
  · rw [hp.maxInFlight]
    exact h.budget
  · -- the link owes no more than it might have before
    have hdebt : ∀ j ∈ c.walk, (c.refill i).debt j ≤ c.debt j := by
      intro j _
      by_cases hji : j = i
      · subst hji
        rw [debt, debt, rdyOf_of_conn hc', maxRdyOf_of_conn hc', hmax]
        omega
      · rw [debt, debt, rdyOf_refill_of_ne hji, maxRdyOf, conn?_refill_of_ne hji, ← maxRdyOf]
    have hle := List.sum_le_sum hdebt
    have hrange := h.range
    rw [hp.maxInFlight, hw]
    omega

/-! ### A walk of refills -/

/-- A refill is due on a link of an address. -/
def Due (addr : String) (i : Nat) (c : Consumer) : Prop :=
  ∃ conn, c.conn? i = some conn ∧ conn.address = addr ∧ wantsRefill c.perLink conn = true

theorem due_congr {addr : String} (hp : c'.perLink = c.perLink) (hc : c'.conn? i = c.conn? i) :
    c'.Due addr i ↔ c.Due addr i := by
  rw [Due, Due, hp, hc]

/-- What a walk of refills leaves alone. -/
structure Refilled (is : List Nat) (c c' : Consumer) : Prop where
  pace : SamePace c c'
  live : c'.live = c.live
  kept : ∀ j, j ∉ is → c'.conn? j = c.conn? j

namespace Refilled

theorem walk (h : Refilled is c c') : c'.walk = c.walk := congrArg (List.map Prod.snd) h.live

theorem perLink (h : Refilled is c c') : c'.perLink = c.perLink := perLink_congr h.pace h.live

theorem rdyOf (h : Refilled is c c') (hj : j ∉ is) : c'.rdyOf j = c.rdyOf j := by
  rw [Consumer.rdyOf, h.kept j hj, ← Consumer.rdyOf]

theorem aim (h : Refilled is c c') (hj : j ∉ is) : c'.aim j = c.aim j :=
  aim_congr h.perLink (h.kept j hj)

end Refilled

theorem refilled_refillAll (is : List Nat) (c : Consumer) : Refilled is c (c.refillAll is) := by
  refine ⟨.foldl (fun c i => samePace_refill i c) is c, ?_, fun j hj => ?_⟩
  · exact List.foldlRecOn (motive := fun d : Consumer => d.live = c.live) is _ rfl
      fun d hd i _ => (live_refill i d).trans hd
  · exact List.foldlRecOn (motive := fun d : Consumer => d.conn? j = c.conn? j) is _ rfl
      fun d hd i hi => (conn?_refill_of_ne (fun e : j = i => hj (e ▸ hi)) d).trans hd

/-- A walk leaves the rest of the table to be refilled, and keeps within the budget. -/
theorem Awaiting.refillAll (h : Awaiting (is ++ js) c) (hnd : (is ++ js).Nodup) :
    Awaiting js (c.refillAll is) := by
  induction is generalizing c with
  | nil => exact h
  | cons i is ih =>
    obtain ⟨hi, hnd⟩ := List.nodup_cons.mp hnd
    exact ih (h.refill hi) hnd

/-- Refills that leave every link what they are to leave it: nobody is refused, and a link that was
refilled waits for no grant any more. -/
structure Aimed (is : List Nat) (c c' : Consumer) : Prop extends Refilled is c c' where
  given : ∀ i ∈ is, c'.rdyOf i = c.aim i
  retries : ∀ e, e ∈ c'.retries ↔ e ∈ c.retries ∧ ∀ i ∈ is, ¬c.Due e.1 i

namespace Aimed

theorem append (h : Aimed is c c') (h' : Aimed js c' c'') (hd : ∀ j ∈ js, j ∉ is) :
    Aimed (is ++ js) c c'' := by
  refine ⟨⟨h.pace.trans h'.pace, h'.live.trans h.live, fun j hj => ?_⟩, fun i hi => ?_, fun e => ?_⟩
  · rw [List.mem_append, not_or] at hj
    exact (h'.kept j hj.2).trans (h.kept j hj.1)
  · rcases List.mem_append.mp hi with hi | hi
    · rw [h'.rdyOf fun hj => hd i hj hi, h.given i hi]
    · rw [h'.given i hi, h.aim (hd i hi)]
  · have hlate : (∀ j ∈ js, ¬c'.Due e.1 j) ↔ ∀ j ∈ js, ¬c.Due e.1 j :=
      forall₂_congr fun j hj => not_congr (due_congr h.perLink (h.kept j (hd j hj)))
    rw [h'.retries, h.retries, hlate, List.forall_mem_append, and_assoc]

end Aimed

/-- A refill that the budget covers. -/
theorem Awaiting.aimed (h : Awaiting is c) (hi : i ∈ is)
    (hfit : c.aim i ≤ c.maxInFlight - c.others i) : Aimed [i] c (c.refill i) := by
  refine ⟨refilled_refillAll [i] c, fun j hj => ?_, fun e => ?_⟩
  · obtain rfl := List.mem_singleton.mp hj
    rw [h.rdyOf_refill hi]
    exact Int.min_eq_left hfit
  · obtain ⟨hwalk, conn, hc, hr⟩ := h.refillable i hi
    have hroom := (h.roomFor_eq hwalk hc hr.rdy).1
    have hdue : c.Due e.1 i ↔ conn.address = e.1 ∧ wantsRefill c.perLink conn = true := by
      simp only [Due, hc, Option.some.injEq, exists_eq_left']
    rw [h.refill_eq hc]
    simp only [List.mem_singleton, forall_eq, hdue]
    by_cases hw : wantsRefill c.perLink conn = true
    · rw [aim_of_conn hc, if_pos hw] at hfit
      have hyes : ¬c.Refuses conn c.perLink := by
        rintro ⟨hfew, hsome⟩
        omega
      rw [if_pos hw, retries_grant hc hr.closing hyes, mem_dropRetry]
      simp [hw, and_comm, eq_comm]
    · rw [if_neg hw]
      simp [hw]

/-- **Refills leave every link what they are to leave it** if there are bounds for all links in use,
within the budget, below which each of them is before and after. -/
theorem aimed_refillAll (h : Awaiting is c) (hnd : is.Nodup) (bound : Nat → Int)
    (hsum : (c.walk.map bound).sum ≤ c.maxInFlight) (hbefore : ∀ j ∈ c.walk, c.rdyOf j ≤ bound j)
    (hafter : ∀ i ∈ is, c.aim i ≤ bound i) : Aimed is c (c.refillAll is) := by
  induction is generalizing c with
  | nil => exact ⟨⟨.refl c, rfl, fun _ _ => rfl⟩, by simp, by simp [Consumer.refillAll]⟩
  | cons i is ih =>
    obtain ⟨hi, hnd⟩ := List.nodup_cons.mp hnd
    have hwalk := (h.refillable i List.mem_cons_self).1
    have haim := hafter i List.mem_cons_self
    have hfit : c.aim i ≤ c.maxInFlight - c.others i := by
      have hle := sum_map_sub_le hwalk hbefore
      unfold others
      omega
    have hone := h.aimed List.mem_cons_self hfit
    have hnot : ∀ j ∈ is, j ∉ [i] := fun j hj hji => hi (List.mem_singleton.mp hji ▸ hj)
    refine hone.append (ih (h.refill hi) hnd ?_ (fun j hj => ?_) fun j hj => ?_) hnot
    · rw [hone.walk, hone.pace.maxInFlight]
      exact hsum
    · rw [hone.walk] at hj
      by_cases hji : j = i
      · subst hji
        rw [hone.given j (List.mem_singleton_self j)]
        exact haim
      · rw [hone.rdyOf (by simpa using hji)]
        exact hbefore j hj
    · rw [hone.aim (hnot j hj)]
      exact hafter j (List.mem_cons_of_mem i hj)

/-! ### The order of the table -/

/-- The budget covers, for every link in use, the greater of what it has and what it is to have. -/
def Roomy (c : Consumer) : Prop :=
  (c.walk.map fun i => max (c.rdyOf i) (c.aim i)).sum ≤ c.maxInFlight

instance : Decidable c.Roomy := inferInstanceAs (Decidable (_ ≤ _))

/-- Without a share of the idle policy, and with a message for every link in use, no link is to have
more than its part, and all parts together are within the budget. -/
theorem Awaiting.aim_le (h : Awaiting c.walk c) (hshare : c.share = 0)
    (hfew : c.live.length ≤ c.maxInFlight) :
    (∀ i ∈ c.walk, c.aim i ≤ c.perLink) ∧ c.walk.length * c.perLink ≤ c.maxInFlight := by
  by_cases hlive : c.live = []
  · have hwalk : c.walk = [] := by rw [walk, hlive, List.map_nil]
    rw [hwalk]
    simpa using h.budget
  · obtain ⟨hone, hparts⟩ := even_part (List.length_pos_iff.mpr hlive) hfew
    rw [walk, List.length_map, perLink_of_even hshare hlive hfew]
    refine ⟨fun i hi => ?_, hparts⟩
    obtain ⟨-, conn, hc, -⟩ := h.refillable i hi
    rw [aim_of_conn hc, perLink_of_even hshare hlive hfew]
    split_ifs with hw
    · exact Int.min_le_left _ _
    · -- more than its part is reason enough for a refill
      by_contra hmore
      refine hw ?_
      have hover : 0 < c.maxInFlight.tdiv c.live.length ∧
          c.maxInFlight.tdiv c.live.length < conn.rdy := ⟨by omega, by omega⟩
      simp [wantsRefill, hover]

/-- If the budget has room, every order leaves every link what it is to have. -/
theorem Roomy.aimed (h : Roomy c) (ha : Awaiting c.walk c) (hp : is.Perm c.walk) :
    Aimed is c (c.refillAll is) :=
  aimed_refillAll (ha.of_subset fun _ => hp.mem_iff.mp) (hp.nodup_iff.mpr ha.once) _ h
    (fun _ _ => Int.le_max_left _ _) fun _ _ => Int.le_max_right _ _

/-- Links that come down before the others come up leave these what they are to have. -/
theorem Awaiting.aimed_down_first (h : Awaiting c.walk c)
    (hsum : (c.walk.map c.aim).sum ≤ c.maxInFlight) :
    ∃ is, is.Perm c.walk ∧ Aimed is c (c.refillAll is) := by
  set down := c.walk.filter fun i => c.aim i ≤ c.rdyOf i with hdown
  set up := c.walk.filter fun i => !decide (c.aim i ≤ c.rdyOf i) with hup
  have hperm : (down ++ up).Perm c.walk := List.filter_append_perm _ _
  have hnd : (down ++ up).Nodup := hperm.nodup_iff.mpr h.once
  have hawaiting : Awaiting (down ++ up) c := h.of_subset fun _ => hperm.mem_iff.mp
  have hlow : ∀ i ∈ down, c.aim i ≤ c.rdyOf i := fun i hi => by
    simpa using (List.mem_filter.mp hi).2
  have hhigh : ∀ i ∈ up, c.rdyOf i < c.aim i := fun i hi => by
    simpa using (List.mem_filter.mp hi).2
  have hdisj : ∀ i ∈ up, i ∉ down := fun i hi hi' => by
    have := hlow i hi'
    have := hhigh i hi
    omega
  -- those that come down have their bounds in what they have, the others in what they are to have
  have hfirst : Aimed down c (c.refillAll down) := by
    refine aimed_refillAll (hawaiting.of_subset fun i => List.mem_append_left up)
      (h.once.filter _) c.rdyOf ?_ (fun _ _ => Int.le_refl _) hlow
    rw [← h.total]
    exact h.met
  have hsecond : Aimed up (c.refillAll down) ((c.refillAll down).refillAll up) := by
    refine aimed_refillAll (hawaiting.refillAll hnd) (h.once.filter _) c.aim ?_ (fun j hj => ?_)
      fun i hi => (hfirst.aim (hdisj i hi)).le
    · rw [hfirst.walk, hfirst.pace.maxInFlight]
      exact hsum
    · rw [hfirst.walk] at hj
      by_cases hmem : j ∈ down
      · exact (hfirst.given j hmem).le
      · have hj' := (List.mem_append.mp (hperm.mem_iff.mpr hj)).resolve_left hmem
        rw [hfirst.rdyOf hmem]
        exact (hhigh j hj').le
  have hall : c.refillAll (down ++ up) = (c.refillAll down).refillAll up := List.foldl_append
  exact ⟨down ++ up, hperm, hall ▸ hfirst.append hsecond hdisj⟩

/-- Links that come up before the others come down may find too little left. -/
theorem Awaiting.short_up_first (h : Awaiting c.walk c) (hroom : ¬c.Roomy) :
    ∃ is, is.Perm c.walk ∧ ∃ i ∈ c.walk, (c.refillAll is).rdyOf i < c.aim i := by
  set up := c.walk.filter fun i => c.rdyOf i < c.aim i with hup
  set down := c.walk.filter fun i => !decide (c.rdyOf i < c.aim i) with hdown
  have hperm : (up ++ down).Perm c.walk := List.filter_append_perm _ _
  have hnd : (up ++ down).Nodup := hperm.nodup_iff.mpr h.once
  have hawaiting : Awaiting (up ++ down) c := h.of_subset fun _ => hperm.mem_iff.mp
  have hall : c.refillAll (up ++ down) = (c.refillAll up).refillAll down := List.foldl_append
  have hmid := hawaiting.refillAll hnd
  have hfirst := refilled_refillAll up c
  have hlast := refilled_refillAll down (c.refillAll up)
  -- if all of them came up, the budget would be exceeded
  obtain ⟨i, hi, hshort⟩ : ∃ i ∈ up, (c.refillAll up).rdyOf i < c.aim i := by
    by_contra hno
    push Not at hno
    have hle : ∀ i ∈ c.walk, max (c.rdyOf i) (c.aim i) ≤ (c.refillAll up).rdyOf i := by
      intro i hi
      by_cases hmem : i ∈ up
      · have hrise : c.rdyOf i < c.aim i := by simpa using (List.mem_filter.mp hmem).2
        have := hno i hmem
        omega
      · have hstay : c.aim i ≤ c.rdyOf i := by simpa [hup, hi] using hmem
        rw [hfirst.rdyOf hmem]
        omega
    have hsum := List.sum_le_sum hle
    have htotal := hmid.total
    have hmet := hmid.met
    rw [hfirst.walk] at htotal
    rw [hfirst.pace.maxInFlight] at hmet
    exact hroom (by unfold Roomy; omega)
  refine ⟨up ++ down, hperm, i, (List.mem_filter.mp hi).1, ?_⟩
  have hnot : i ∉ down := fun hi' => (List.nodup_append.mp hnd).2.2 i hi i hi' rfl
  rw [hall, hlast.rdyOf hnot]
  exact hshort

/-- Two orders in which the budget covers all refills have the same outcome. -/
theorem Aimed.agree (h : Aimed is c c') (h' : Aimed js c c'') (hp : is.Perm js) :
    (∀ i, c'.rdyOf i = c''.rdyOf i) ∧ ∀ e, e ∈ c'.retries ↔ e ∈ c''.retries := by
  refine ⟨fun i => ?_, fun e => ?_⟩
  · by_cases hi : i ∈ is
    · rw [h.given i hi, h'.given i (hp.mem_iff.mp hi)]
    · rw [h.rdyOf hi, h'.rdyOf fun hj => hi (hp.mem_iff.mpr hj)]
  · simp only [h.retries, h'.retries, hp.mem_iff]

/-- **When the order of the table does not show.** At full pace and outside of a pause, without a
share of the idle policy, let the links in use be open and not overdrawn, their daemons be tellable
and at most as many as the budget has messages; let them have no credit but what they were granted
(`Lives.earned`), and the total be their credit and within the budget, which a word holds together
with what the links may owe. Then

* all orders in which the links are refilled end with the same credit on every link and the same
  grants to be tried again, exactly if the budget covers, for every link, the greater of what it has
  and what it is to have;
* under some order every link has what it is to have;
* the budget covers that much if no link has more than its part. -/
theorem refillAll_perm_iff (h : Awaiting c.walk c) (hshare : c.share = 0)
    (hfew : c.live.length ≤ c.maxInFlight) :
    ((∀ is js : List Nat, is.Perm c.walk → js.Perm c.walk →
        (∀ i, (c.refillAll is).rdyOf i = (c.refillAll js).rdyOf i) ∧
          ∀ e, e ∈ (c.refillAll is).retries ↔ e ∈ (c.refillAll js).retries) ↔ c.Roomy) ∧
      (∃ is : List Nat, is.Perm c.walk ∧ ∀ i ∈ c.walk, (c.refillAll is).rdyOf i = c.aim i) ∧
      ((∀ i ∈ c.walk, c.rdyOf i ≤ c.perLink) → c.Roomy) := by
  obtain ⟨haim, hparts⟩ := h.aim_le hshare hfew
  have hsum : (c.walk.map c.aim).sum ≤ c.maxInFlight :=
    Int.le_trans (sum_map_le_length_mul _ haim) hparts
  obtain ⟨is, hp, hdown⟩ := h.aimed_down_first hsum
  refine ⟨⟨fun hagree => ?_, fun hroom js ks hj hk => ?_⟩,
    ⟨is, hp, fun i hi => hdown.given i (hp.mem_iff.mpr hi)⟩, fun hfew => ?_⟩
  · by_contra hroom
    obtain ⟨js, hj, i, hi, hshort⟩ := h.short_up_first hroom
    have hsame := (hagree is js hp hj).1 i
    rw [hdown.given i (hp.mem_iff.mpr hi)] at hsame
    omega
  · exact (hroom.aimed h hj).agree (hroom.aimed h hk) (hj.trans hk.symm)
  · refine Int.le_trans (sum_map_le_length_mul _ fun i hi => ?_) hparts
    have := haim i hi
    have := hfew i hi
    omega

/-- The first of two links has all of a budget of ten messages when the second one enters the table.
If it is refilled first both have half of it in the end, and if the second one is, that is left
without credit and has to try again. -/
theorem order_shows_of_late_link :
    let c := sample.stepAll silence
      [.attach (sampleLink "h:1" 2500), .updateRdy 0 10, .attach (sampleLink "h:2" 2500)]
    c.walk = [0, 1] ∧ ¬c.Roomy ∧
      ¬(∀ is js : List Nat, is.Perm c.walk → js.Perm c.walk →
        (∀ i, (c.refillAll is).rdyOf i = (c.refillAll js).rdyOf i) ∧
          ∀ e, e ∈ (c.refillAll is).retries ↔ e ∈ (c.refillAll js).retries) ∧
      c.walk.map (c.refillAll [0, 1]).rdyOf = [5, 5] ∧ (c.refillAll [0, 1]).retries = [] ∧
      c.walk.map (c.refillAll [1, 0]).rdyOf = [5, 0] ∧
      (c.refillAll [1, 0]).retries = [("h:2", 5)] := by
  intro c
  have hw : c.walk = [0, 1] := by decide +kernel
  have h0 : c.conn? 0 = some ((sampleLink "h:1" 2500).conn.granted 10) := by decide +kernel
  have h1 : c.conn? 1 = some (sampleLink "h:2" 2500).conn := by decide +kernel
  have hroom : ¬c.Roomy := by decide +kernel
  have h : Awaiting c.walk c := by
    refine ⟨by decide +kernel, by decide +kernel, by decide +kernel, fun i hi => ⟨hi, ?_⟩,
      by decide +kernel, by decide +kernel, by decide +kernel, by decide +kernel⟩
    rw [hw, List.mem_cons, List.mem_singleton] at hi
    rcases hi with rfl | rfl
    · exact ⟨_, h0, by decide +kernel, by decide +kernel, by decide +kernel, by decide +kernel⟩
    · exact ⟨_, h1, by decide +kernel, by decide +kernel, by decide +kernel, by decide +kernel⟩
  obtain ⟨hiff, -⟩ := refillAll_perm_iff h (by decide +kernel) (by decide +kernel)
  exact ⟨hw, hroom, fun hagree => hroom (hiff.mp hagree), by decide +kernel, by decide +kernel,
    by decide +kernel, by decide +kernel⟩

end Nsq.Consumer
