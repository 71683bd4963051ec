import Nsq.Proofs.Consumer.Spreading

/-!
# Shares that are out of date

A spread to the active links of the idle policy installs a share: an even part of the budget for
each of them, which is what every link is to have from then on. The share is worked out from the
budget and the number of active links, and both may change. Where a link comes or goes, or credit is
spread to any links, the share is given up; where the budget changes it is kept.

So the credit meant for a link falls below an even part of the budget in one way only
(`perLink_below_even`): the owner raises the budget while a share is set, by so much that the share
is less than an even part for all links in use. Then the consumer is `Throttled`, and stays so until
the share is given up or another one installed.
-/

namespace Nsq.Consumer

variable {c c' c'' : Consumer}

/-! ### Even parts -/

theorem evenShare_of_nonneg {budget : Int} (h : 0 ≤ budget) (k : Nat) :
    evenShare budget k = max (budget / k) 1 := by
  rw [evenShare, Int.tdiv_eq_ediv_of_nonneg h]

/-- A part is one message at least. -/
theorem evenShare_of_nonpos {budget : Int} (h : budget ≤ 0) (k : Nat) : evenShare budget k = 1 := by
  have hnonneg : 0 ≤ (-budget).tdiv k := Int.tdiv_nonneg (by omega) (Int.natCast_nonneg k)
  rw [Int.neg_tdiv] at hnonneg
  rw [evenShare]
  omega

/-- Fewer links have greater parts. -/
theorem evenShare_anti {budget : Int} {k k' : Nat} (hk : 0 < k) (h : k ≤ k') :
    evenShare budget k' ≤ evenShare budget k := by
  rcases Int.le_total 0 budget with hpos | hneg
  · rw [evenShare_of_nonneg hpos, evenShare_of_nonneg hpos]
    have hle : budget / k' ≤ budget / k := by
      refine (Int.le_ediv_iff_mul_le (by omega)).mpr ?_
      have hnonneg : 0 ≤ budget / k' := Int.ediv_nonneg hpos (by omega)
      have hall : budget / k' * k' ≤ budget := Int.ediv_mul_le _ (by omega)
      have hmul : budget / k' * k ≤ budget / k' * k' := by gcongr
      omega
    omega
  · rw [evenShare_of_nonpos hneg, evenShare_of_nonpos hneg]

/-- A smaller budget has smaller parts. -/
theorem evenShare_mono {budget budget' : Int} (h : budget ≤ budget') (k : Nat) :
    evenShare budget k ≤ evenShare budget' k := by
  rcases Int.le_total 0 budget with hpos | hneg
  · rw [evenShare_of_nonneg hpos, evenShare_of_nonneg (by omega)]
    have hle : budget / k ≤ budget' / k := by
      rcases Nat.eq_zero_or_pos k with rfl | hk
      · simp
      · exact Int.ediv_le_ediv (by omega) h
    omega
  · rw [evenShare_of_nonpos hneg]
    exact Int.le_max_right _ _

theorem evenShare_le {budget : Int} {k : Nat} (hbudget : 1 ≤ budget) (hk : 0 < k) :
    evenShare budget k ≤ budget := by
  have hle : evenShare budget k ≤ evenShare budget 1 := evenShare_anti (by decide) hk
  simp only [evenShare, Nat.cast_one, Int.tdiv_one] at hle ⊢
  omega

/-- A share is set, and it is less than an even part of the budget for each link in use. -/
def Throttled (c : Consumer) : Prop :=
  0 < c.share ∧ c.share < evenShare c.maxInFlight c.live.length

instance : Decidable c.Throttled := inferInstanceAs (Decidable (_ ∧ _))

/-- The credit meant for a link is within the budget, and it is an even part of that at least unless
the consumer is throttled. -/
theorem perLink_bounds (hbudget : 1 ≤ c.maxInFlight) (hlive : c.live ≠ []) :
    c.perLink ≤ c.maxInFlight ∧
      (min (evenShare c.maxInFlight c.live.length) c.maxInFlight ≤ c.perLink ↔ ¬c.Throttled) := by
  refine ⟨perLink_le c, ?_⟩
  have hle := evenShare_le hbudget (List.length_pos_iff.mpr hlive)
  have hempty : c.live.isEmpty = false := by simpa using hlive
  have heven : perLink c = if 0 < c.share then min c.share c.maxInFlight
      else min (evenShare c.maxInFlight c.live.length) c.maxInFlight := by
    simp only [perLink, hempty, evenShare, Bool.false_eq_true, if_false]
  rw [heven, Throttled]
  split_ifs <;> omega

/-! ### What becomes of a share -/

/-- The table lists an address once, and there is no share without links in use. -/
structure Shares (c : Consumer) : Prop where
  addresses : (c.live.map Prod.fst).Nodup
  unused : c.live = [] → c.share = 0

/-- No share is out of date that was not so before. -/
def Upholds (c c' : Consumer) : Prop :=
  Shares c → Shares c' ∧ (c'.Throttled → c.Throttled ∧ c'.share = c.share)

namespace Upholds

theorem trans (h : Upholds c c') (h' : Upholds c' c'') : Upholds c c'' := by
  intro hc
  obtain ⟨hc', hback⟩ := h hc
  obtain ⟨hc'', hback'⟩ := h' hc'
  refine ⟨hc'', fun ht => ?_⟩
  obtain ⟨ht', hsame'⟩ := hback' ht
  obtain ⟨ht, hsame⟩ := hback ht'
  exact ⟨ht, hsame'.trans hsame⟩

/-- The share is given up, and no address is listed anew. -/
theorem of_zero (hlive : c'.live.Sublist c.live) (hshare : c'.share = 0) : Upholds c c' := by
  refine fun h => ⟨⟨(hlive.map Prod.fst).nodup h.addresses, fun _ => hshare⟩, fun ht => ?_⟩
  exact absurd ht.1 (by omega)

theorem of_eq (hlive : c'.live = c.live) (hbudget : c'.maxInFlight = c.maxInFlight)
    (hshare : c'.share = c.share) : Upholds c c' := by
  intro h
  rw [Throttled, hlive, hbudget, hshare]
  exact ⟨⟨hlive ▸ h.addresses, fun hnil => hshare.trans (h.unused (hlive ▸ hnil))⟩,
    fun ht => ⟨ht, rfl⟩⟩

theorem refl (c : Consumer) : Upholds c c := of_eq rfl rfl rfl

/-- Grants concern no share. -/
theorem of_pace (hp : SamePace c c') (hl : Lending c c') : Upholds c c' :=
  of_eq hl.live hp.maxInFlight hp.share

/-- A new share is an even part for no more links than are in use. -/
theorem of_even {k : Nat} (hlive : c'.live = c.live) (hbudget : c'.maxInFlight = c.maxInFlight)
    (hk : 0 < k) (hle : k ≤ c.live.length) (hshare : c'.share = evenShare c.maxInFlight k) :
    Upholds c c' := by
  intro h
  refine ⟨⟨hlive ▸ h.addresses, fun hnil => ?_⟩, fun ht => ?_⟩
  · rw [hlive] at hnil
    rw [hnil, List.length_nil] at hle
    omega
  · obtain ⟨-, hless⟩ := ht
    have hanti : evenShare c.maxInFlight c.live.length ≤ evenShare c.maxInFlight k :=
      evenShare_anti hk hle
    rw [hlive, hbudget, hshare] at hless
    omega

end Upholds

/-- An entry that takes the place of another one leaves as many, and a new one adds itself. -/
theorem length_enter (h : (c.live.map Prod.fst).Nodup) (addr : String) (i : Nat) :
    c.live.length ≤ (c.enter addr i).live.length := by
  have honce : c.live.countP (fun e => e.1 == addr) ≤ 1 := by
    have hcount := List.nodup_iff_count_le_one.mp h addr
    rwa [List.count, List.countP_map] at hcount
  have hsplit := List.length_eq_countP_add_countP (fun e : String × Nat => e.1 == addr)
    (l := c.live)
  have hlen : (c.enter addr i).live.length =
      (c.live.countP fun e => decide ¬(e.1 == addr) = true) + 1 := by
    simp only [enter, List.length_append, List.length_singleton, List.countP_eq_length_filter]
    congr 2
    exact List.filter_congr fun e _ => by cases he : e.1 == addr <;> simp [bne, he]
  omega

/-- A link that enters the table leaves less to the others. -/
theorem upholds_welcome (l : Link) (c : Consumer) : Upholds c (c.welcome l) := by
  intro h
  have hlen : c.live.length ≤ (c.welcome l).live.length :=
    length_enter (c := (c.openLink l).2) h.addresses _ _
  refine ⟨⟨addresses_enter (c := (c.openLink l).2) h.addresses _ _, fun hnil => ?_⟩, fun ht => ?_⟩
  · rw [hnil, List.length_nil] at hlen
    exact h.unused (List.length_eq_zero_iff.mp (by omega))
  · have hset : 0 < c.share := ht.1
    have hless : c.share < evenShare c.maxInFlight (c.welcome l).live.length := ht.2
    have hpos : 0 < c.live.length := by
      refine List.length_pos_iff.mpr fun hnil => ?_
      have := h.unused hnil
      omega
    exact ⟨⟨hset, Int.lt_of_lt_of_le hless (evenShare_anti hpos hlen)⟩, rfl⟩

theorem upholds_redistribute (chance : Nat → Nat) (c : Consumer) :
    Upholds c (c.redistribute chance) := by
  have hs := sharing_redistribute chance c
  have hlive := hs.dealing.lending.live
  rcases share_redistribute_cases chance c with hsame | hzero | ⟨-, k, hk, hle, hshare⟩
  · exact .of_eq hlive hs.maxInFlight hsame
  · exact .of_zero (hlive ▸ List.Sublist.refl _) hzero
  · exact .of_even hlive hs.maxInFlight hk hle hshare

theorem upholds_retire (i : Nat) (c : Consumer) : Upholds c (c.retire i) := by
  cases hi : c.conn? i with
  | none => simpa [retire, hi] using Upholds.refl c
  | some conn =>
    have hr := retire_of_conn hi
    exact .of_zero (hr.live ▸ List.filter_sublist) hr.share

theorem upholds_signal (chance : Nat → Nat) (sig : Signal) (c : Consumer) :
    Upholds c (c.signal chance sig) :=
  .of_eq (dealing_signal chance sig c).lending.live (sharing_signal chance sig c).maxInFlight
    (share_signal chance sig c)

theorem upholds_passAnswer (chance : Nat → Nat) (i : Nat) (m : Message) (a : Answer)
    (c : Consumer) : Upholds c (c.passAnswer chance i m a) := by
  refine passAnswer_invariant (.refl c) (fun _ _ => .of_eq rfl rfl rfl) (fun d hd => ?_)
    (fun d hd => hd.trans (upholds_signal chance _ d)) fun d hd => hd.trans (.of_eq rfl rfl rfl)
  cases a <;> exact hd.trans (.of_eq rfl rfl rfl)

theorem upholds_settleLink (i : Nat) (c : Consumer) : Upholds c (c.settleLink i) := by
  cases hi : c.conn? i with
  | none => rw [settleLink_of_none hi]; exact .refl c
  | some conn =>
    rcases settleLink_cases hi with ⟨heq, -⟩ | ⟨-, -, hr⟩
    · rw [heq]
      exact .of_eq rfl rfl rfl
    · have hput : Upholds c (c.putConn i { conn.settled with closed := true }) := .of_eq rfl rfl rfl
      exact hput.trans (.of_zero (hr.live ▸ List.filter_sublist) hr.share)

/-! ### Runs -/

/-- An act that leaves the budget as it is. -/
def Act.KeepsBudget (a : Act) : Prop := ∀ n, a ≠ .changeMaxInFlight n

theorem upholds_direct {env : Surroundings} {a : Act} (ha : a.isDirect = true)
    (hkeeps : a.KeepsBudget) (c : Consumer) : Upholds c (c.act env a).2 := by
  cases a with
  | attach link => exact upholds_welcome link c
  | retire i => exact upholds_retire i c
  | updateRdy i count =>
    exact .of_pace (samePace_updateRdy i count c) (dealing_updateRdy i count c).lending
  | sendRdy i count => exact .of_pace (samePace_sendRdy i count c) (lending_sendRdy i count c)
  | retry addr count =>
    exact .of_pace (samePace_retry addr count c) (dealing_retry addr count c).lending
  | resume =>
    exact .of_eq (dealing_resume env.chance c).lending.live
      (sharing_resume env.chance c).maxInFlight (share_resume env.chance c)
  | redistribute => exact upholds_redistribute env.chance c
  | changeMaxInFlight n => exact absurd rfl (hkeeps n)
  | _ => simp [Act.isDirect] at ha

/-- No move makes a share out of date but a change of the budget. -/
theorem Move.upholds (h : Move (fun _ a _ => a.KeepsBudget) c c') : Upholds c c' := by
  cases h with
  | note hn =>
    rcases hn.share with hsame | hzero
    · exact .of_eq hn.live hn.maxInFlight hsame
    · exact .of_zero (hn.live ▸ List.Sublist.refl _) hzero
  | refill i => exact .of_pace (samePace_refill i c) (dealing_refill i c).lending
  | signal chance sig => exact upholds_signal chance sig c
  | join => exact upholds_welcome _ c
  | bounce i m a => exact upholds_passAnswer _ i m a c
  | answer a =>
    have hput : ∀ n st, Upholds c (c.putState n st) := fun _ _ => .of_eq rfl rfl rfl
    exact (hput _ _).trans (upholds_passAnswer _ _ _ a _)
  | settle i => exact upholds_settleLink i c
  | direct hok hd => exact upholds_direct hd hok c
  | _ => exact .of_eq rfl rfl rfl

theorem upholds_of_moves (h : Moves (fun _ a _ => a.KeepsBudget) c c') : Upholds c c' :=
  moves_invariant h (fun _ _ hu hm => hu.trans hm.upholds) (.refl c)

/-- The owner raises the budget so far that the share, which was enough before, is less than an even
part of the new one. -/
def Outdates (n : Int) (c : Consumer) : Prop :=
  ¬c.Throttled ∧ 0 < c.share ∧ c.share < evenShare n c.live.length

theorem Outdates.lt {n : Int} (h : c.Outdates n) : c.maxInFlight < n := by
  obtain ⟨henough, hset, hless⟩ := h
  by_contra hle
  have hmono := evenShare_mono (Int.not_lt.mp hle) c.live.length
  exact henough ⟨hset, by omega⟩

/-- A change of the budget keeps the share. -/
theorem throttled_changeMaxInFlight (n : Int) (c : Consumer) :
    (c.changeMaxInFlight n).Throttled ↔ 0 < c.share ∧ c.share < evenShare n c.live.length := by
  rw [Throttled, share_changeMaxInFlight, (sharing_changeMaxInFlight n c).maxInFlight,
    (dealing_changeMaxInFlight n c).lending.live]

/-- What a step does to the share: a share that is too small after it was so before, or the step has
outdated it. -/
theorem shares_step (h : Shares c) (env : Surroundings) (a : Act) :
    Shares (c.step env a).2 ∧ ((c.step env a).2.Throttled → (c.step env a).2.share = c.share ∧
      (c.Throttled ∨ ∃ n, a = .changeMaxInFlight n ∧ c.Outdates n)) := by
  by_cases hkeeps : a.KeepsBudget
  · have hmoves : Moves (fun _ a _ => a.KeepsBudget) c (c.step env a).2 := step_moves hkeeps
    obtain ⟨hshares, hback⟩ := upholds_of_moves hmoves h
    exact ⟨hshares, fun ht => ⟨(hback ht).2, .inl (hback ht).1⟩⟩
  · obtain ⟨n, rfl⟩ : ∃ n, a = .changeMaxInFlight n := by
      simpa only [Act.KeepsBudget, not_forall, ne_eq, not_not] using hkeeps
    set d := c.changeMaxInFlight n with hd
    have hd' : Shares d := by
      have hlive : d.live = c.live := (dealing_changeMaxInFlight n c).lending.live
      have hshare : d.share = c.share := share_changeMaxInFlight n c
      exact ⟨hlive ▸ h.addresses, fun hnil => hshare.trans (h.unused (hlive ▸ hnil))⟩
    -- what follows from the change changes no budget
    obtain ⟨hshares, hback⟩ := upholds_of_moves ((moves_work env.chance d).trans
      (moves_settle (d.work env.chance))) hd'
    refine ⟨hshares, fun ht => ?_⟩
    obtain ⟨hmid, hsame⟩ := hback ht
    refine ⟨hsame.trans (share_changeMaxInFlight n c), ?_⟩
    by_cases hc : c.Throttled
    · exact .inl hc
    · exact .inr ⟨n, rfl, hc, (throttled_changeMaxInFlight n c).mp hmid⟩

/-- A run of any acts. -/
abbrev Runs : Consumer → Consumer → Prop := Reaches fun _ _ _ => True

theorem shares_of_runs {s : Subscription} (h : Runs (ofSubscription s) c) :
    Shares c ∧ (c.Throttled → ∃ d env n, Runs (ofSubscription s) d ∧ d.Outdates n ∧
      Runs (d.step env (.changeMaxInFlight n)).2 c ∧ c.share = d.share) := by
  induction h with
  | refl => exact ⟨⟨List.nodup_nil, fun _ => rfl⟩, fun ht => absurd ht.1 (Int.lt_irrefl 0)⟩
  | @step c env a h _ ih =>
    obtain ⟨hshares, hmoment⟩ := ih
    obtain ⟨hshares', hback⟩ := shares_step hshares env a
    refine ⟨hshares', fun ht => ?_⟩
    obtain ⟨hsame, hc | ⟨n, rfl, hout⟩⟩ := hback ht
    · obtain ⟨d, env', n, hd, hout, hrest, hshare⟩ := hmoment hc
      exact ⟨d, env', n, hd, hout, hrest.step trivial, hsame.trans hshare⟩
    · exact ⟨c, env, n, h, hout, .refl, hsame⟩

/-- **The credit meant for a link falls below an even part of the budget in one way only.** Along
every run, whatever acts it is made of, with a link in use and a budget of some messages,

* that credit is within the budget, and it is an even part of it at least unless a share is set that
  is less;
* a share that is less was outdated by a raise of the budget, and was neither given up nor replaced
  since;
* every change of the budget that outdates the share throttles the consumer. -/
theorem perLink_below_even {s : Subscription} (h : Runs (ofSubscription s) c)
    (hbudget : 1 ≤ c.maxInFlight) (hlive : c.live ≠ []) :
    c.perLink ≤ c.maxInFlight ∧
      (min (evenShare c.maxInFlight c.live.length) c.maxInFlight ≤ c.perLink ↔ ¬c.Throttled) ∧
      (c.Throttled → ∃ d env n, Runs (ofSubscription s) d ∧ d.maxInFlight < n ∧ d.Outdates n ∧
        Runs (d.step env (.changeMaxInFlight n)).2 c ∧ c.share = d.share) ∧
      ∀ env n, c.Outdates n → (c.act env (.changeMaxInFlight n)).2.Throttled := by
  obtain ⟨hle, hiff⟩ := perLink_bounds hbudget hlive
  refine ⟨hle, hiff, fun ht => ?_, fun _ n hout => (throttled_changeMaxInFlight n c).mpr hout.2⟩
  obtain ⟨d, env, n, hd, hout, hrest, hshare⟩ := (shares_of_runs h).2 ht
  exact ⟨d, env, n, hd, hout.lt, hout, hrest, hshare⟩

/-- Two links share a budget of ten messages by the idle policy. A budget of a hundred has fifty for
each of them, and the credit meant for a link stays at five. -/
theorem perLink_below_even_of_raise :
    let d := (ofSubscription idleSample).stepAll silence
      [.attach (sampleLink "h:1" 2500), .attach (sampleLink "h:2" 2500), .respread, .redistribute]
    let c := (d.step silence (.changeMaxInFlight 100)).2
    d.share = 5 ∧ evenShare d.maxInFlight d.live.length = 5 ∧
      (d.act silence (.changeMaxInFlight 100)).2.Throttled ∧
      evenShare c.maxInFlight c.live.length = 50 ∧ c.perLink = 5 ∧
      ¬min (evenShare c.maxInFlight c.live.length) c.maxInFlight ≤ c.perLink ∧
      ∃ e env n, Runs (ofSubscription idleSample) e ∧ e.Outdates n ∧
        Runs (e.step env (.changeMaxInFlight n)).2 c := by
  intro d c
  have hd : Runs (ofSubscription idleSample) d :=
    reaches_stepAll ⟨trivial, trivial, trivial, trivial, trivial⟩
  have hc : Runs (ofSubscription idleSample) c := hd.step trivial
  have ht : c.Throttled := by decide +kernel
  have hout : d.Outdates 100 := by
    unfold Outdates
    decide +kernel
  obtain ⟨-, -, -, hthrottles⟩ := perLink_below_even hd (by decide +kernel) (by decide +kernel)
  obtain ⟨-, hiff, hmoment, -⟩ := perLink_below_even hc (by decide +kernel) (by decide +kernel)
  obtain ⟨e, env, n, he, -, hout', hrest, -⟩ := hmoment ht
  exact ⟨by decide +kernel, by decide +kernel, hthrottles silence 100 hout, by decide +kernel,
    by decide +kernel, fun hle => hiff.mp hle ht, e, env, n, he, hout', hrest⟩

end Nsq.Consumer
