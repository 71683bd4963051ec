import Nsq.Proofs.Consumer.Spreading

/-!
# Single messages for links drawn at random

Where the idle policy is not followed, idle links give their credit up, and what is left of the
budget goes in single messages to links drawn from all that are in use. The consumer counts one
message for each link that it draws. What a draw changes is something else: a link that has credit
already is cut down to a message, so that its draw frees credit instead of using it up.

This errs on the safe side (`redistribute_scatters`): the budget has a message for each draw, so
that no draw is refused, and what is freed on the way is not spread again. Active links may hold
more than the budget, which is one message at a reduced pace; then nothing is drawn, and the total
is theirs. Either way some link has credit in the end.

The states are those of runs (`Lives`). There no link has credit but what it was granted, so that
idle links give all of it up (`Earned`).
-/

namespace Nsq.Consumer

variable {c : Consumer} {i : Nat} {s : Subscription}

/-! ### Links that credit can be taken from -/

/-- The states that a consumer passes through in a run, which may have its table in another order
each time, as long as a word counts the messages received. -/
structure Lives (s : Subscription) (c : Consumer) : Prop where
  roams : Roams s c
  received : c.received < 2 ^ 63

/-- No link has credit but one that was granted some. -/
def Earned (c : Consumer) : Prop :=
  ∀ i conn, c.conn? i = some conn → 0 < conn.rdy → conn.lastRdy ≠ 0

theorem Lives.earned (h : Lives s c) : Earned c :=
  fun _ _ hi hpos => h.roams.provident.toPoised.lastRdy_ne_zero h.received hi hpos

/-- The links in use are listed once, they are open, not overdrawn, and their daemons can be told
and take some credit, and the total is their credit. -/
structure Tellable (c : Consumer) : Prop where
  once : c.walk.Nodup
  receptive : ∀ i ∈ c.walk, ∃ conn, c.conn? i = some conn ∧ Receptive conn
  total : c.totalRdy = (c.walk.map c.rdyOf).sum
  range : c.totalRdy < 2 ^ 63

namespace Tellable

theorem rdyOf_nonneg (h : Tellable c) (hi : i ∈ c.walk) : 0 ≤ c.rdyOf i :=
  rdyOf_of_receptive (h.receptive i hi)

theorem solvent (h : Tellable c) (hbudget : 0 ≤ c.maxInFlight) (hword : c.maxInFlight < 2 ^ 63) :
    Solvent c :=
  solvent_of_receptive h.once h.receptive h.total h.range hbudget hword

end Tellable

/-! ### The walks of a spread -/

/-- The budget of a spread: at a reduced pace it is one message. -/
def limit (c : Consumer) : Int := if 0 < c.level then 1 else c.maxInFlight

theorem limit_bounds (h : 1 ≤ c.maxInFlight) : 1 ≤ c.limit ∧ c.limit ≤ c.maxInFlight := by
  unfold limit
  split_ifs <;> omega

/-- Outside of a pause credit is spread to any links if that is asked for, and the idle policy is
not followed or finds no active link. -/
theorem redistribute_eq_spreadToAny (hpause : c.pause = 0) (hflag : c.respread = true)
    (hlive : c.live ≠ []) (hpolicy : c.spreadsOnIdle = false ∨ c.activeLinks = [])
    (chance : Nat → Nat) :
    c.redistribute chance =
      ({ c with respread := false } : Consumer).spreadToAny chance c.activeLinks c.idleLinks := by
  have hempty : c.live.isEmpty = false := by simpa using hlive
  unfold redistribute
  rw [if_neg (by simp [inPause, hpause, hempty]), if_pos (by simp [hflag])]
  refine if_neg ?_
  rcases hpolicy with hno | hnone
  · have hno' : ({ c with respread := false } : Consumer).spreadsOnIdle = false := hno
    simp [hno']
  · have hnone' : (({ c with respread := false } : Consumer).walk.filter fun i =>
        !({ c with respread := false } : Consumer).isIdle i) = [] := hnone
    simp [hnone']

/-- What a spread leaves: the links that a test picks keep their credit, and some of all links have
a message, as many as the budget has messages beside that credit. -/
theorem leaves_spreadToAny (h : Solvent c) (p : Nat → Bool) (hsome : 1 ≤ c.maxInFlight)
    (hword : c.maxInFlight < 2 ^ 63) (hrdy : ∀ i ∈ c.walk, 0 ≤ c.rdyOf i)
    (hrange : ((c.walk.filter p).map c.rdyOf).sum < 2 ^ 63)
    (hlast : ∀ i ∈ c.walk, ∀ conn, c.conn? i = some conn → 0 < conn.rdy → conn.lastRdy ≠ 0)
    (chance : Nat → Nat) :
    ∃ js : List Nat, js.Nodup ∧ (∀ j ∈ js, j ∈ c.walk) ∧
      js.length =
        min (c.limit - ((c.walk.filter p).map c.rdyOf).sum).toNat c.walk.length ∧
      Leaves (fun i => if i ∈ js then 1 else if p i then c.rdyOf i else 0) { c with share := 0 }
        (c.spreadToAny chance (c.walk.filter p) (c.walk.filter fun i => !p i)) := by
  set kept := ((c.walk.filter p).map c.rdyOf).sum with hkept
  set d : Consumer := { c with share := 0 } with hd
  set e := d.reclaim (c.walk.filter fun i => !p i) with he
  have hsolvent : Solvent d := { h with }
  have hdown : Leaves (fun i => if !p i then 0 else c.rdyOf i) d e :=
    leaves_reclaim hsolvent (fun i => !p i) hrdy hlast
  have hwalk : e.walk = c.walk := hdown.walk
  have hbudget : e.maxInFlight = c.maxInFlight := hdown.pace.maxInFlight
  have hvalue : ∀ i ∈ c.walk, e.rdyOf i = if p i then c.rdyOf i else 0 := fun i hi => by
    rw [hdown.rdy i hi]
    cases p i <;> rfl
  have hsum : (e.walk.map e.rdyOf).sum = kept := by
    rw [hwalk, List.map_congr_left hvalue, sum_map_ite]
    simp [hkept]
  have hnonneg : 0 ≤ kept := List.sum_nonneg (List.forall_mem_map.mpr fun i hi =>
    hrdy i (List.mem_filter.mp hi).1)
  have hlimit : (if e.inBackoff then 1 else e.maxInFlight) = c.limit := by
    have hlevel : e.level = c.level := hdown.pace.level
    rw [limit, hbudget, inBackoff, hlevel]
    simp only [decide_eq_true_eq]
  have hlow := limit_bounds hsome
  have hleft : word64 (e.spare c.limit) = c.limit - kept := by
    rw [spare, hdown.solvent.totalRdy_eq hsum hnonneg hrange]
    exact word64_eq_self (by omega) (by omega)
  have heq : c.spreadToAny chance (c.walk.filter p) (c.walk.filter fun i => !p i) =
      scatterUpTo chance c.limit (c.walk.filter p ++ c.walk.filter fun i => !p i) e := by
    unfold spreadToAny
    dsimp only
    rw [hlimit]
  have hperm := List.filter_append_perm p c.walk
  have hfinal : ∀ js : List Nat, ∀ i ∈ c.walk, (if i ∈ js then 1 else e.rdyOf i) =
      if i ∈ js then 1 else if p i then c.rdyOf i else 0 := fun js i hi => by
    rw [hvalue i hi]
  rw [heq]
  obtain ⟨js, hjs, hsub, hlen, hscatter⟩ := leaves_scatterUpTo hdown.solvent chance
    (c.walk.filter p ++ c.walk.filter fun i => !p i) hleft (hperm.nodup_iff.mpr h.once)
    (fun i hi => hwalk ▸ hperm.mem_iff.mp hi)
    (fun i hi => by
      have hi := hperm.mem_iff.mp hi
      have := hrdy i hi
      rw [hvalue i hi]
      split_ifs <;> omega)
    (by rw [hsum, hbudget]; omega)
  exact ⟨js, hjs, fun j hj => hperm.mem_iff.mp (hsub j hj), hperm.length_eq ▸ hlen,
    hdown.trans (hscatter.congr fun i hi => hfinal js i (hwalk ▸ hi))⟩

/-! ### The whole spread -/

namespace Tellable

/-- The active links have no more than the total, which a word holds. -/
theorem sum_activeLinks (h : Tellable c) :
    0 ≤ (c.activeLinks.map c.rdyOf).sum ∧ (c.activeLinks.map c.rdyOf).sum < 2 ^ 63 := by
  have hpart : ∀ p : Nat → Bool, 0 ≤ ((c.walk.filter p).map c.rdyOf).sum := fun p =>
    List.sum_nonneg (List.forall_mem_map.mpr fun i hi => h.rdyOf_nonneg (List.mem_filter.mp hi).1)
  have hsplit := sum_map_filter_add c.walk (fun i => !c.isIdle i) c.rdyOf
  have hidle := hpart fun i => !!c.isIdle i
  rw [← h.total] at hsplit
  have := h.range
  refine ⟨hpart _, ?_⟩
  rw [activeLinks]
  omega

/-- What a spread leaves outside of a pause. -/
theorem redistribute (h : Tellable c) (hearned : Earned c) (hpause : c.pause = 0)
    (hflag : c.respread = true) (hlive : c.live ≠ [])
    (hpolicy : c.spreadsOnIdle = false ∨ c.activeLinks = []) (hsome : 1 ≤ c.maxInFlight)
    (hword : c.maxInFlight < 2 ^ 63) (chance : Nat → Nat) :
    ∃ js : List Nat, js.Nodup ∧ (∀ j ∈ js, j ∈ c.walk) ∧
      js.length = min (c.limit - (c.activeLinks.map c.rdyOf).sum).toNat c.walk.length ∧
      Leaves (fun i => if i ∈ js then 1 else if !c.isIdle i then c.rdyOf i else 0)
        { c with respread := false, share := 0 } (c.redistribute chance) := by
  set d : Consumer := { c with respread := false } with hd
  have hsolvent : Solvent d := { h.solvent (by omega) hword with }
  have hidle : c.idleLinks = c.walk.filter fun i => !!c.isIdle i := by
    simp only [idleLinks, Bool.not_not]
  rw [redistribute_eq_spreadToAny hpause hflag hlive hpolicy chance, hidle]
  exact leaves_spreadToAny hsolvent (fun i => !c.isIdle i) hsome hword
    (fun i hi => h.rdyOf_nonneg hi) h.sum_activeLinks.2 (fun i _ conn => hearned i conn) chance

end Tellable

/-- **Spreading credit is safe and gets on, whatever is drawn.** Let credit be to be spread anew
outside of a pause, in any state of a run and at any pace, where the idle policy is not followed or
finds no active link; let some link be in use, all links in use be open and not overdrawn, their
daemons take some credit and be tellable, the total be their credit, and the budget have one message
at least. Then, whatever order the table has and whichever links are drawn,

* nothing is to be spread any more, and no share is remembered,
* every link that was idle has one message or none,
* the total is within the budget, or what the active links had before, whichever is more,
* some link has credit. -/
theorem redistribute_scatters (hlives : Lives s c) (h : Tellable c) (hpause : c.pause = 0)
    (hflag : c.respread = true) (hlive : c.live ≠ [])
    (hpolicy : c.spreadsOnIdle = false ∨ c.activeLinks = []) (hsome : 1 ≤ c.maxInFlight)
    (hword : c.maxInFlight < 2 ^ 63) (chance : Nat → Nat) :
    let c' := c.redistribute chance
    c'.respread = false ∧ c'.share = 0 ∧ (∀ i ∈ c.idleLinks, 0 ≤ c'.rdyOf i ∧ c'.rdyOf i ≤ 1) ∧
      c'.totalRdy ≤ max c.limit (c.activeLinks.map c.rdyOf).sum ∧ ∃ i ∈ c.walk, 0 < c'.rdyOf i := by
  intro c'
  obtain ⟨js, hjs, hsub, hlen, hleaves⟩ :=
    h.redistribute hlives.earned hpause hflag hlive hpolicy hsome hword chance
  obtain ⟨hnonneg, hrange⟩ := h.sum_activeLinks
  obtain ⟨hone, hlimit⟩ := limit_bounds hsome
  set kept := (c.activeLinks.map c.rdyOf).sum with hkept
  set before := fun i => if !c.isIdle i then c.rdyOf i else 0 with hbefore
  replace hleaves : Leaves (fun i => if i ∈ js then 1 else before i)
      { c with respread := false, share := 0 } c' := hleaves
  have hlow : ∀ i ∈ c.walk, 0 ≤ before i := fun i hi => by
    have := h.rdyOf_nonneg hi
    simp only [hbefore]
    split_ifs <;> omega
  have hsum : (c.walk.map before).sum = kept := by
    rw [hbefore, sum_map_ite]
    simp [hkept, activeLinks]
  refine ⟨hleaves.pace.respread, hleaves.pace.share, fun i hi => ?_, ?_, ?_⟩
  · obtain ⟨hi, hasleep⟩ := List.mem_filter.mp hi
    have hnone : before i = 0 := if_neg (by simpa using hasleep)
    rw [hleaves.rdy i hi, hnone]
    split_ifs <;> omega
  · -- each draw adds one message at most to what the active links have
    have hreplace := sum_map_replace h.once hjs hsub before fun _ => 1
    have hdraws : (js.map fun _ => (1 : Int)).sum = js.length := by simp
    have hdrawn : 0 ≤ (js.map before).sum :=
      List.sum_nonneg (List.forall_mem_map.mpr fun j hj => hlow j (hsub j hj))
    have hnew : 0 ≤ (c.walk.map fun i => if i ∈ js then 1 else before i).sum :=
      List.sum_nonneg (List.forall_mem_map.mpr fun i hi => by
        have := hlow i hi
        split_ifs <;> omega)
    have htotal : c'.totalRdy =
        (c.walk.map fun i => if i ∈ js then 1 else before i).sum :=
      hleaves.solvent.totalRdy_eq hleaves.sum hnew (by omega)
    omega
  · by_cases hnil : js = []
    · -- nothing was drawn, so that the active links have all of the budget
      have hwalk : 0 < c.walk.length := by
        rw [walk, List.length_map]
        exact List.length_pos_iff.mpr hlive
      rw [hnil, List.length_nil] at hlen
      have hpos : (c.walk.map fun _ => (0 : Int)).sum < (c.walk.map before).sum := by
        rw [hsum, List.map_const', List.sum_replicate, nsmul_zero]
        omega
      obtain ⟨i, hi, hpos⟩ := List.exists_lt_of_sum_lt _ _ hpos
      refine ⟨i, hi, ?_⟩
      rw [hleaves.rdy i hi, hnil, if_neg List.not_mem_nil]
      exact hpos
    · obtain ⟨j, hj⟩ := List.exists_mem_of_ne_nil js hnil
      refine ⟨j, hsub j hj, ?_⟩
      rw [hleaves.rdy j (hsub j hj), if_pos hj]
      decide

/-- Two links have half of a budget of ten messages each when the second one falls idle. It gives
its half up, and both are drawn, so that the first one is left with a message of its half. -/
theorem redistribute_scatters_of_two :
    let c := sample.stepAll silence
      [.attach (sampleLink "h:1" 2500), .attach (sampleLink "h:2" 2500), .signal .backoff, .resume,
        .signal .steady, .idle 1, .respread]
    let c' := c.redistribute silence.chance
    c.walk.map c.rdyOf = [5, 5] ∧ c'.walk.map c'.rdyOf = [1, 1] ∧ c'.respread = false ∧
      c'.rdyOf 1 ≤ 1 ∧ c'.totalRdy ≤ 10 ∧ ∃ i ∈ c.walk, 0 < c'.rdyOf i := by
  intro c c'
  have hreach : Reaches Sole sample c := by
    refine reaches_stepAll ⟨⟨fresh_sampleLink "h:1" 2500, ?_⟩, ⟨fresh_sampleLink "h:2" 2500, ?_⟩,
      sole_of_own trivial (by simp), sole_of_own ?_ (by simp), sole_of_own trivial (by simp),
      sole_of_own trivial (by simp), sole_of_own trivial (by simp), trivial⟩
    · rintro _ ⟨⟩
      decide +kernel
    · rintro _ ⟨⟩
      decide +kernel
    · show Consumer.armed _ = true
      decide +kernel
  have hreceptive : ∀ i ∈ c.walk, ∃ conn, c.conn? i = some conn ∧ Receptive conn := by
    have hall : (c.walk.all fun i => (c.conn? i).any fun conn => !conn.closing && !conn.refusing &&
        0 ≤ conn.rdy && 1 ≤ conn.maxRdy) = true := by decide +kernel
    intro i hi
    obtain ⟨conn, hc, hyes⟩ : ∃ conn, c.conn? i = some conn ∧ _ :=
      (Option.any_eq_true _ _).mp (List.all_eq_true.mp hall i hi)
    simp only [Bool.and_eq_true, Bool.not_eq_true', decide_eq_true_eq, and_assoc] at hyes
    obtain ⟨hopen, htold, hlow, htakes⟩ := hyes
    exact ⟨conn, hc, hopen, htold, hlow, htakes⟩
  have htellable : Tellable c :=
    ⟨by decide +kernel, hreceptive, by decide +kernel, by decide +kernel⟩
  have hlives : Lives sample.subscription c := ⟨hreach.roams, by decide +kernel⟩
  obtain ⟨hflag, -, hidle, htotal, hsome⟩ := redistribute_scatters hlives htellable
    (by decide +kernel) (by decide +kernel) (by decide +kernel) (.inl (by decide +kernel))
    (by decide +kernel) (by decide +kernel) silence.chance
  have hlimit : max c.limit (c.activeLinks.map c.rdyOf).sum = 10 := by decide +kernel
  exact ⟨by decide +kernel, by decide +kernel, hflag, (hidle 1 (by decide +kernel)).2,
    hlimit ▸ htotal, hsome⟩

end Nsq.Consumer
