import Nsq.Proofs.Consumer.EvenSplit

/-!
# Even parts for active links

Under the idle policy credit is spread in four walks: idle links give their credit up, active ones
with more than an even part of the budget come down to it, those with less come up to it, and what
is left of the budget goes in single messages to idle links drawn at random. Each walk looks at what
the walk before has left, and each of its grants is cut down to what the others leave.

Nothing of this shows in the end (`redistribute_even`). There are bounds within the budget for every
walk, so that each is met in full: what the links have already, for those that only take credit
back, and what they shall have for the others. The order in which the walks sort their links, and
the order in which links are drawn, decide on nothing but which idle links get a message.

The policy rests while a pause is under way, even at full pace, and a link gives up no credit but
what it was granted, which is all that links have along a run (`uneven_after_redistribute`,
`Poised.lastRdy_ne_zero`).
-/

namespace Nsq.Consumer

variable {c c' : Consumer} {i j : Nat}

/-! ### The walks of a spread -/

theorem rdyOf_grant_of_ne (h : i ≠ j) (n : Int) (c : Consumer) :
    (c.grant i n).rdyOf j = c.rdyOf j := by
  rw [rdyOf, conn?_grant_of_ne h, ← rdyOf]

/-- Distinct links do not change each other's credit, so that it is known in advance which of them
have some to give up. -/
theorem reclaim_eq_grantAll {is : List Nat} (hnd : is.Nodup) (c : Consumer) :
    c.reclaim is = c.grantAll (is.filter fun i => 0 < c.rdyOf i) 0 := by
  induction is generalizing c with
  | nil => rfl
  | cons i is ih =>
    obtain ⟨hi, hnd⟩ := List.nodup_cons.mp hnd
    show (if 0 < c.rdyOf i then c.grant i 0 else c).reclaim is = _
    rw [List.filter_cons]
    by_cases hpos : 0 < c.rdyOf i
    · have hsame : (is.filter fun j => 0 < (c.grant i 0).rdyOf j) =
          is.filter fun j => 0 < c.rdyOf j := by
        refine List.filter_congr fun j hj => ?_
        have hij : i ≠ j := fun e => hi (e ▸ hj)
        rw [rdyOf_grant_of_ne hij]
      rw [if_pos hpos, ih hnd, hsame, if_pos (by simpa using hpos)]
      rfl
    · rw [if_neg hpos, ih hnd, if_neg (by simpa using hpos)]

theorem insertByRdy_perm (c : Consumer) (i : Nat) (js : List Nat) :
    (c.insertByRdy i js).Perm (i :: js) := by
  induction js with
  | nil => exact .refl _
  | cons j js ih =>
    unfold insertByRdy
    split_ifs
    · exact .refl _
    · exact (ih.cons j).trans (.swap i j js)

/-- Sorting loses no link. -/
theorem sortByRdy_perm (c : Consumer) (is : List Nat) : (c.sortByRdy is).Perm is := by
  induction is with
  | nil => exact .refl _
  | cons i is ih => exact (insertByRdy_perm c i _).trans (ih.cons i)

/-- However links are drawn, some of them are granted a message each, as many as are asked for or
as there are. -/
theorem scatter_eq_grantAll (chance : Nat → Nat) (n : Nat) {is : List Nat} (hnd : is.Nodup)
    (c : Consumer) : ∃ js : List Nat, js.Nodup ∧ (∀ j ∈ js, j ∈ is) ∧
      js.length = min n is.length ∧ scatter chance n is c = c.grantAll js 1 := by
  induction n generalizing is c with
  | zero => exact ⟨[], List.nodup_nil, by simp, by simp, rfl⟩
  | succ n ih =>
    unfold scatter
    dsimp only
    cases hk : is[chance n % is.length]? with
    | none =>
      have hnil : is = [] := by
        by_contra hne
        have hlt := Nat.mod_lt (chance n) (List.length_pos_iff.mpr hne)
        rw [List.getElem?_eq_getElem hlt] at hk
        exact absurd hk (by simp)
      exact ⟨[], List.nodup_nil, by simp, by simp [hnil], rfl⟩
    | some i =>
      obtain ⟨hlt, hi⟩ := List.getElem?_eq_some_iff.mp hk
      -- the link that was drawn, and those among which the others are drawn
      have hperm := hi ▸ List.getElem_cons_eraseIdx_perm hlt
      obtain ⟨hnew, hrest⟩ := List.nodup_cons.mp (hperm.nodup_iff.mpr hnd)
      obtain ⟨js, hjs, hsub, hlen, heq⟩ := ih hrest (c.grant i 1)
      refine ⟨i :: js, List.nodup_cons.mpr ⟨fun hmem => hnew (hsub i hmem), hjs⟩, ?_, ?_, ?_⟩
      · exact fun j hj => hperm.mem_iff.mp (List.mem_cons.mpr ((List.mem_cons.mp hj).imp_right
          (hsub j)))
      · have hlength := hperm.length_eq
        rw [List.length_cons] at hlength
        rw [List.length_cons, hlen]
        omega
      · exact heq

/-! ### What the walks leave -/

theorem Solvent.maxRdyOf_pos (h : Solvent c) (hi : i ∈ c.walk) : 1 ≤ c.maxRdyOf i := by
  obtain ⟨conn, hc, ha⟩ := h.able i hi
  rw [maxRdyOf_of_conn hc]
  exact ha.maxRdy

/-- The parts of the links that a test picks are within the budget if so many shares are. -/
theorem Solvent.sum_parts (h : Solvent c) (p : Nat → Bool) {share : Int} (hshare : 1 ≤ share)
    (hfit : (c.walk.filter p).length * share ≤ c.maxInFlight) :
    0 ≤ ((c.walk.filter p).map fun i => min share (c.maxRdyOf i)).sum ∧
      ((c.walk.filter p).map fun i => min share (c.maxRdyOf i)).sum ≤ c.maxInFlight := by
  constructor
  · refine List.sum_nonneg (List.forall_mem_map.mpr fun i hi => ?_)
    have := h.maxRdyOf_pos (List.mem_filter.mp hi).1
    omega
  · exact Int.le_trans (sum_map_le_length_mul _ fun i _ => Int.min_le_left _ _) hfit

/-- The total is the credit of the links in use if a word holds that. -/
theorem Solvent.totalRdy_eq (h : Solvent c) {n : Int} (hn : (c.walk.map c.rdyOf).sum = n)
    (hlow : 0 ≤ n) (hhigh : n < 2 ^ 63) : c.totalRdy = n := by
  rw [h.total, hn]
  exact word64_eq_self (by omega) (by omega)

/-- Some links give all their credit up, whatever the budget is. -/
theorem leaves_reclaim (h : Solvent c) (p : Nat → Bool) (hrdy : ∀ i ∈ c.walk, 0 ≤ c.rdyOf i)
    (hlast : ∀ i ∈ c.walk, ∀ conn, c.conn? i = some conn → 0 < conn.rdy → conn.lastRdy ≠ 0) :
    Leaves (fun i => if p i then 0 else c.rdyOf i) c (c.reclaim (c.walk.filter p)) := by
  rw [reclaim_eq_grantAll (h.once.filter p)]
  have hmem : ∀ i, i ∈ ((c.walk.filter p).filter fun i => 0 < c.rdyOf i) ↔
      (i ∈ c.walk ∧ p i = true) ∧ 0 < c.rdyOf i := fun i => by
    rw [List.mem_filter, List.mem_filter, decide_eq_true_eq]
  have hmet := portioned_of_covered (n := 0) h (Int.le_refl 0)
    ((h.once.filter p).filter fun i => 0 < c.rdyOf i) (fun i hi => ((hmem i).mp hi).1.1) c.rdyOf
    (fun hpos => absurd hpos (Int.lt_irrefl 0)) fun _ i hi conn hc => by
      obtain ⟨hwalk, hpos⟩ := (hmem i).mp hi
      rw [rdyOf_of_conn hc] at hpos
      exact hlast i hwalk.1 conn hc hpos
  refine (h.leaves hmet).congr fun i hi => ?_
  have hm := h.maxRdyOf_pos hi
  have hlow := hrdy i hi
  simp only [hmem, hi, true_and]
  cases p i with
  | false => simp
  | true =>
    simp only [true_and, if_true]
    split_ifs <;> omega

/-- Some links come down and then up to the same share. -/
theorem leaves_evenOut (h : Solvent c) (p : Nat → Bool) {share : Int} (hshare : 1 ≤ share)
    (hfit : (c.walk.filter p).length * share ≤ c.maxInFlight)
    (hmax : ∀ i ∈ c.walk, c.rdyOf i ≤ c.maxRdyOf i)
    (hothers : ∀ i ∈ c.walk, p i = false → c.rdyOf i = 0)
    (hsum : (c.walk.map c.rdyOf).sum ≤ c.maxInFlight) :
    Leaves (fun i => if p i then min share (c.maxRdyOf i) else 0) c
      (c.evenOut (c.walk.filter p) share) := by
  set sorted := c.sortByRdy (c.walk.filter p) with hsorted
  have hperm := sortByRdy_perm c (c.walk.filter p)
  have hnd : sorted.Nodup := hperm.nodup_iff.mpr (h.once.filter p)
  have hmem : ∀ i, i ∈ sorted ↔ i ∈ c.walk ∧ p i = true := fun i => by
    rw [hsorted, hperm.mem_iff, List.mem_filter]
  -- those with more make room
  have hdown : Leaves (fun i => if p i then min share (c.rdyOf i) else 0) c
      (c.grantAll (sorted.filter fun i => share < c.rdyOf i) share) := by
    have his : ∀ i, i ∈ (sorted.filter fun i => share < c.rdyOf i) ↔
        (i ∈ c.walk ∧ p i = true) ∧ share < c.rdyOf i := fun i => by
      rw [List.mem_filter, hmem, decide_eq_true_eq]
    refine (leaves_grantAll h (by omega) (hnd.filter _) (fun i hi => ((his i).mp hi).1.1) c.rdyOf
      hsum (fun _ _ => Int.le_refl _) (fun i hi => ?_) (fun h0 => by omega)).congr fun i hi => ?_
    · have := ((his i).mp hi).2
      omega
    · have hm := hmax i hi
      simp only [his, hi, true_and]
      cases hp : p i with
      | false => simpa using hothers i hi hp
      | true => simp only [true_and, if_true]; split_ifs <;> omega
  set d := c.grantAll (sorted.filter fun i => share < c.rdyOf i) share with hd
  -- those with less come up to their parts, and nobody has more than that
  have hup : Leaves (fun i => if p i then min share (c.maxRdyOf i) else 0) d
      (d.grantAll (sorted.filter fun i => d.rdyOf i < share) share) := by
    have his : ∀ i, i ∈ (sorted.filter fun i => d.rdyOf i < share) ↔
        (i ∈ d.walk ∧ p i = true) ∧ d.rdyOf i < share := fun i => by
      rw [List.mem_filter, hmem, decide_eq_true_eq, hdown.walk]
    have hbelow : ∀ i ∈ d.walk, d.rdyOf i ≤ if p i then min share (c.maxRdyOf i) else 0 := by
      intro i hi
      rw [hdown.walk] at hi
      have hm := hmax i hi
      rw [hdown.rdy i hi]
      split_ifs <;> omega
    have hbound : (d.walk.map fun i => if p i then min share (c.maxRdyOf i) else 0).sum ≤
        d.maxInFlight := by
      rw [hdown.walk, hdown.pace.maxInFlight, sum_map_ite]
      simpa using (h.sum_parts p hshare hfit).2
    refine (leaves_grantAll hdown.solvent (by omega) (hnd.filter _)
      (fun i hi => ((his i).mp hi).1.1) (fun i => if p i then min share (c.maxRdyOf i) else 0)
      hbound hbelow (fun i hi => ?_) (fun h0 => by omega)).congr fun i hi => ?_
    · rw [hdown.maxRdyOf, if_pos ((his i).mp hi).1.2]
    · have hle := hbelow i hi
      have hval := hdown.rdy i (hdown.walk ▸ hi)
      simp only [his, hi, true_and, hdown.maxRdyOf]
      cases hp : p i with
      | false => simpa [hp] using hval
      | true =>
        simp only [hp, if_true] at hle
        simp only [true_and, if_true]
        split_ifs <;> omega
  exact hdown.trans hup

/-- Some links give all their credit up, and the others come to the same share. -/
theorem leaves_reclaim_evenOut (h : Solvent c) (p : Nat → Bool) {share : Int} (hshare : 1 ≤ share)
    (hfit : (c.walk.filter p).length * share ≤ c.maxInFlight)
    (hrdy : ∀ i ∈ c.walk, 0 ≤ c.rdyOf i ∧ c.rdyOf i ≤ c.maxRdyOf i)
    (hsum : (c.walk.map c.rdyOf).sum ≤ c.maxInFlight)
    (hlast : ∀ i ∈ c.walk, ∀ conn, c.conn? i = some conn → 0 < conn.rdy → conn.lastRdy ≠ 0) :
    Leaves (fun i => if p i then min share (c.maxRdyOf i) else 0) c
      ((c.reclaim (c.walk.filter fun i => !p i)).evenOut (c.walk.filter p) share) := by
  have hdown := leaves_reclaim h (fun i => !p i) (fun i hi => (hrdy i hi).1) hlast
  set d := c.reclaim (c.walk.filter fun i => !p i) with hd
  have hwalk : d.walk = c.walk := hdown.walk
  have hmax : ∀ i, d.maxRdyOf i = c.maxRdyOf i := hdown.maxRdyOf
  rw [← hwalk]
  refine hdown.trans ((leaves_evenOut hdown.solvent p hshare ?_ (fun i hi => ?_)
    (fun i hi hno => ?_) ?_).congr fun i _ => by rw [hmax])
  · rw [hwalk, hdown.pace.maxInFlight]
    exact hfit
  · rw [hwalk] at hi
    have := hrdy i hi
    have := h.maxRdyOf_pos hi
    rw [hdown.rdy i hi, hmax]
    split_ifs <;> omega
  · rw [hdown.rdy i (hwalk ▸ hi), hno]
    rfl
  · rw [hdown.sum, hdown.pace.maxInFlight]
    refine Int.le_trans (List.sum_le_sum fun i hi => ?_) hsum
    have := hrdy i hi
    split_ifs <;> omega

/-- Some links have a message each in the end, whichever are drawn, if the budget has one for each
draw. -/
theorem leaves_scatter (h : Solvent c) (chance : Nat → Nat) (is : List Nat) {n : Nat}
    (hnd : is.Nodup) (his : ∀ i ∈ is, i ∈ c.walk) (hrdy : ∀ i ∈ is, 0 ≤ c.rdyOf i)
    (hfit : (c.walk.map c.rdyOf).sum + n ≤ c.maxInFlight) :
    ∃ js : List Nat, js.Nodup ∧ (∀ j ∈ js, j ∈ is) ∧ js.length = min n is.length ∧
      Leaves (fun i => if i ∈ js then 1 else c.rdyOf i) c (scatter chance n is c) := by
  obtain ⟨js, hjs, hsub, hlen, heq⟩ := scatter_eq_grantAll chance n hnd c
  have hwalk : ∀ j ∈ js, j ∈ c.walk := fun j hj => his j (hsub j hj)
  refine ⟨js, hjs, hsub, hlen, ?_⟩
  rw [heq]
  -- a link that is drawn with some credit gives all of it up but one message
  refine (leaves_grantAll h (by decide) hjs hwalk
    (fun i => if i ∈ js then max 1 (c.rdyOf i) else c.rdyOf i) ?_ (fun j hj => ?_) (fun i hi => ?_)
    (fun h0 => by omega)).congr fun i hi => ?_
  · have hreplace := sum_map_replace h.once hjs hwalk c.rdyOf fun i => max 1 (c.rdyOf i)
    have hone : (js.map fun i => max 1 (c.rdyOf i)).sum ≤ (js.map fun i => c.rdyOf i + 1).sum :=
      List.sum_le_sum fun i hi => by
        have := hrdy i (hsub i hi)
        omega
    have hadd : (js.map fun i => c.rdyOf i + 1).sum = (js.map c.rdyOf).sum + js.length := by
      simp [List.sum_map_add]
    omega
  · split_ifs <;> omega
  · rw [if_pos hi]
    omega
  · have hm := h.maxRdyOf_pos hi
    split_ifs <;> omega

/-- Evaluating a sum leaves everything as it is. -/
theorem leaves_check (h : Solvent c) (op : Overflow) (n : Int) :
    Leaves c.rdyOf c (c.check op n) :=
  ⟨{ h with }, ⟨⟨rfl, rfl, rfl⟩, rfl, rfl, rfl⟩, (sharing_check op n c).dealing.lending,
    fun _ _ => rfl⟩

/-- What a budget leaves is dealt out in single messages, as far as there are links. -/
theorem leaves_scatterUpTo (h : Solvent c) (chance : Nat → Nat) (is : List Nat) {budget left : Int}
    (hleft : word64 (c.spare budget) = left) (hnd : is.Nodup) (his : ∀ i ∈ is, i ∈ c.walk)
    (hrdy : ∀ i ∈ is, 0 ≤ c.rdyOf i)
    (hfit : left ≤ 0 ∨ (c.walk.map c.rdyOf).sum + left ≤ c.maxInFlight) :
    ∃ js : List Nat, js.Nodup ∧ (∀ j ∈ js, j ∈ is) ∧ js.length = min left.toNat is.length ∧
      Leaves (fun i => if i ∈ js then 1 else c.rdyOf i) c (scatterUpTo chance budget is c) := by
  have hcheck := leaves_check h .subtract (c.spare budget)
  rw [scatterUpTo, hleft]
  by_cases hpos : 0 < left
  · obtain ⟨js, hjs, hsub, hlen, hscatter⟩ := leaves_scatter hcheck.solvent chance is
      (n := left.toNat) hnd his hrdy
      (show (c.walk.map c.rdyOf).sum + (left.toNat : Int) ≤ c.maxInFlight by omega)
    exact ⟨js, hjs, hsub, hlen, hcheck.trans hscatter⟩
  · -- nothing is left of the budget
    have hzero : left.toNat = 0 := by omega
    rw [hzero]
    exact ⟨[], List.nodup_nil, by simp, by simp, hcheck.congr fun i _ => by simp⟩

/-- A message each for some entries without credit. -/
theorem sum_map_one {is js : List Nat} {f : Nat → Int} (his : is.Nodup) (hjs : js.Nodup)
    (hsub : ∀ j ∈ js, j ∈ is) (hnone : ∀ j ∈ js, f j = 0) :
    (is.map fun i => if i ∈ js then 1 else f i).sum = (is.map f).sum + js.length := by
  have hreplace := sum_map_replace his hjs hsub f fun _ => 1
  rw [List.sum_eq_zero (List.forall_mem_map.mpr hnone)] at hreplace
  simpa using hreplace

/-- What a spread leaves to the links that a test picks, and to the others: those have an even part
of the budget, or what their daemons take, and some of these have a message each, as many as the
budget allows. -/
theorem leaves_spreadToActive (h : Solvent c) (p : Nat → Bool) (hsome : c.walk.filter p ≠ [])
    (hfew : (c.walk.filter p).length ≤ c.maxInFlight) (hword : c.maxInFlight < 2 ^ 63)
    (hrdy : ∀ i ∈ c.walk, 0 ≤ c.rdyOf i ∧ c.rdyOf i ≤ c.maxRdyOf i)
    (hsum : (c.walk.map c.rdyOf).sum ≤ c.maxInFlight)
    (hlast : ∀ i ∈ c.walk, ∀ conn, c.conn? i = some conn → 0 < conn.rdy → conn.lastRdy ≠ 0)
    (chance : Nat → Nat) :
    let share := c.maxInFlight.tdiv (c.walk.filter p).length
    let part := fun i => min share (c.maxRdyOf i)
    let idle := c.walk.filter fun i => !p i
    ∃ js : List Nat, (∀ j ∈ js, j ∈ idle) ∧
      Leaves (fun i => if p i then part i else if i ∈ js then 1 else 0) { c with share := share }
        (c.spreadToActive chance (c.walk.filter p) idle) ∧
      (c.spreadToActive chance (c.walk.filter p) idle).totalRdy =
        min c.maxInFlight (((c.walk.filter p).map part).sum + idle.length) := by
  intro share part idle
  obtain ⟨hone, hparts⟩ := even_part (List.length_pos_iff.mpr hsome) hfew
  have hshare : evenShare c.maxInFlight (c.walk.filter p).length = share := by
    unfold evenShare
    omega
  set d : Consumer := { c with share := share } with hd
  have hd' : Solvent d := { h with }
  set e := (d.reclaim idle).evenOut (c.walk.filter p) share with he
  -- the others give their credit up, and those that are picked come to their parts
  have heven : Leaves (fun i => if p i then part i else 0) d e :=
    leaves_reclaim_evenOut hd' p hone hparts hrdy hsum hlast
  have hwalk : e.walk = c.walk := heven.walk
  have hbudget : e.maxInFlight = c.maxInFlight := heven.pace.maxInFlight
  set sum := ((c.walk.filter p).map part).sum with hsumdef
  have hall : (e.walk.map e.rdyOf).sum = sum := by
    have hall : (e.walk.map e.rdyOf).sum =
        (c.walk.map fun i => if p i then part i else 0).sum := heven.sum
    rw [hall, sum_map_ite]
    simp [hsumdef]
  obtain ⟨hlow, hhigh⟩ : 0 ≤ sum ∧ sum ≤ c.maxInFlight := h.sum_parts p hone hparts
  have hleft : word64 (e.spare e.maxInFlight) = c.maxInFlight - sum := by
    rw [spare, heven.solvent.totalRdy_eq hall hlow (by omega), hbudget]
    exact word64_eq_self (by omega) (by omega)
  -- what is left goes to the others
  have hout : ∀ i ∈ idle, i ∈ c.walk ∧ p i = false := fun i hi => by
    simpa using List.mem_filter.mp hi
  have hnone : ∀ i ∈ idle, e.rdyOf i = 0 := fun i hi => by
    obtain ⟨hi, hno⟩ := hout i hi
    rw [heven.rdy i hi, hno]
    rfl
  obtain ⟨js, hjsnd, hjs, hlen, hscatter⟩ := leaves_scatterUpTo heven.solvent chance idle hleft
    (h.once.filter _) (fun i hi => hwalk ▸ (hout i hi).1) (fun i hi => (hnone i hi).ge)
    (by rw [hall, hbudget]; omega)
  have hcount := sum_map_one heven.solvent.once hjsnd (fun j hj => hwalk ▸ (hout j (hjs j hj)).1)
    fun j hj => hnone j (hjs j hj)
  rw [hlen] at hcount
  have heq : c.spreadToActive chance (c.walk.filter p) idle =
      scatterUpTo chance e.maxInFlight idle e := by
    unfold spreadToActive
    rw [hshare]
  have hfinal : ∀ i ∈ c.walk, (if i ∈ js then 1 else e.rdyOf i) =
      if p i then part i else if i ∈ js then 1 else 0 := by
    intro i hi
    rw [heven.rdy i hi]
    cases hp : p i with
    | false => rfl
    | true =>
      have hnot : i ∉ js := fun hmem => by simp [(hout i (hjs i hmem)).2] at hp
      simp [hnot]
  rw [heq]
  refine ⟨js, hjs, heven.trans (hscatter.congr fun i hi => hfinal i (hwalk ▸ hi)), ?_⟩
  rw [hscatter.solvent.totalRdy_eq (hscatter.sum.trans hcount) (by omega) (by omega), hall]
  omega

/-! ### The whole spread -/

/-- The links in use that are not idle. -/
def activeLinks (c : Consumer) : List Nat := c.walk.filter fun i => !c.isIdle i

/-- The links in use that are idle. -/
def idleLinks (c : Consumer) : List Nat := c.walk.filter fun i => c.isIdle i

/-- At full pace, and outside of a pause, the idle policy spreads credit to the active links if it
is asked to and there are some. -/
theorem redistribute_eq_spreadToActive (hlevel : c.level = 0) (hpause : c.pause = 0)
    (hpolicy : c.config.flags .rdyRedistributeOnIdle = true) (hflag : c.respread = true)
    (hactive : c.activeLinks ≠ []) (chance : Nat → Nat) :
    c.redistribute chance = ({ c with respread := false } : Consumer).spreadToActive chance
      c.activeLinks c.idleLinks := by
  have hwalk : c.walk ≠ [] := fun h => hactive (by rw [activeLinks, h]; rfl)
  have hlive : c.live.isEmpty = false := by
    rw [List.isEmpty_eq_false_iff]
    exact fun h => hwalk (by rw [walk, h]; rfl)
  have hspreads : ({ c with respread := false } : Consumer).spreadsOnIdle = true := by
    have hpolicy' : ({ c with respread := false } : Consumer).config.flags
        .rdyRedistributeOnIdle = true := hpolicy
    rw [spreadsOnIdle, hpolicy', inBackoff]
    simp [hlevel]
  have hsome : c.activeLinks.isEmpty = false := by simpa using hactive
  unfold redistribute
  rw [if_neg (by simp [inPause, hpause, hlive]), if_pos (by simp [hflag])]
  dsimp only
  rw [hspreads]
  exact if_pos (by rw [Bool.true_and]; exact congrArg (!·) hsome)

/-- A consumer is solvent whose total is the credit of the links in use, if none is overdrawn. -/
theorem solvent_of_receptive (honce : c.walk.Nodup)
    (hreceptive : ∀ i ∈ c.walk, ∃ conn, c.conn? i = some conn ∧ Receptive conn)
    (htotal : c.totalRdy = (c.walk.map c.rdyOf).sum) (hrange : c.totalRdy < 2 ^ 63)
    (hbudget : 0 ≤ c.maxInFlight) (hword : c.maxInFlight < 2 ^ 63) : Solvent c := by
  have hrdy : ∀ i ∈ c.walk, 0 ≤ c.rdyOf i := fun i hi => rdyOf_of_receptive (hreceptive i hi)
  have hnone : ∀ i ∈ c.walk, c.owes i = 0 := fun i hi => by
    have := hrdy i hi
    unfold owes
    omega
  have hsum : (c.walk.map fun i => c.owes i).sum = 0 :=
    List.sum_eq_zero (List.forall_mem_map.mpr hnone)
  have hlow : 0 ≤ c.totalRdy := by
    rw [htotal]
    exact List.sum_nonneg (List.forall_mem_map.mpr hrdy)
  refine ⟨honce, fun i hi => ?_, ?_, hbudget, fun i hi => ?_⟩
  · obtain ⟨conn, hc, hr⟩ := hreceptive i hi
    exact ⟨conn, hc, hr.closing, hr.refusing, hr.maxRdy⟩
  · rw [← htotal]
    exact (word64_eq_self (by omega) hrange).symm
  · rw [overdraft, hsum, hnone i hi]
    omega

/-- A consumer at ease whose budget is met is solvent. -/
theorem AtEase.solvent (h : AtEase c) (hbudget : c.totalRdy ≤ c.maxInFlight)
    (hword : c.maxInFlight < 2 ^ 63) : Solvent c := by
  have htotal : 0 ≤ c.totalRdy := by
    rw [h.total]
    exact List.sum_nonneg (List.forall_mem_map.mpr fun i hi => h.rdyOf_nonneg hi)
  exact solvent_of_receptive h.once h.receptive h.total h.range (by omega) hword

/-- **The idle policy reaches its even split from anywhere.** Let the policy be on and the credit be
to be spread anew, at full pace and outside of a pause, with a budget that a word holds and that
has a message for each active link, of which there is one at least; let all links in use be open,
their daemons take some credit and be tellable, and let no link have more credit than its daemon
takes, or any that it was not granted, and all of them together no more than the budget. Then,
whatever order the table has and whichever links are drawn,

* every active link has the even part of the budget, or what its daemon takes,
* every idle link has one message or none,
* the total is that of the active links and one for each idle one, as far as the budget allows,
* the even part is the share that is remembered, and nothing is to be spread any more. -/
theorem redistribute_even (h : AtEase c)
    (hpolicy : c.config.flags .rdyRedistributeOnIdle = true) (hflag : c.respread = true)
    (hactive : c.activeLinks ≠ []) (hfew : c.activeLinks.length ≤ c.maxInFlight)
    (hbudget : c.totalRdy ≤ c.maxInFlight) (hword : c.maxInFlight < 2 ^ 63)
    (hmax : ∀ i ∈ c.walk, c.rdyOf i ≤ c.maxRdyOf i)
    (hgranted : ∀ i ∈ c.walk, ∀ conn, c.conn? i = some conn → 0 < conn.rdy → conn.lastRdy ≠ 0)
    (chance : Nat → Nat) :
    let share := c.maxInFlight.tdiv c.activeLinks.length
    let c' := c.redistribute chance
    (∀ i ∈ c.activeLinks, c'.rdyOf i = min share (c.maxRdyOf i)) ∧
      (∀ i ∈ c.idleLinks, c'.rdyOf i = 0 ∨ c'.rdyOf i = 1) ∧
      c'.totalRdy = min c.maxInFlight
        ((c.activeLinks.map fun i => min share (c.maxRdyOf i)).sum + c.idleLinks.length) ∧
      c'.share = share ∧ c'.respread = false := by
  intro share c'
  set d : Consumer := { c with respread := false } with hd
  have hsolvent : Solvent d := { h.solvent hbudget hword with }
  obtain ⟨js, hjs, hleaves, htotal⟩ := leaves_spreadToActive hsolvent (fun i => !c.isIdle i) hactive
    hfew hword (fun i hi => ⟨h.rdyOf_nonneg hi, hmax i hi⟩) (h.total ▸ hbudget) hgranted chance
  have hidle : (c.walk.filter fun i => !!c.isIdle i) = c.idleLinks := by
    simp only [idleLinks, Bool.not_not]
  have heq : c' = d.spreadToActive chance c.activeLinks c.idleLinks :=
    redistribute_eq_spreadToActive h.level h.pause hpolicy hflag hactive chance
  have hwalk : d.walk = c.walk := rfl
  rw [hwalk, hidle, ← activeLinks, ← heq] at hleaves htotal
  refine ⟨fun i hi => ?_, fun i hi => ?_, htotal, hleaves.pace.share, hleaves.pace.respread⟩
  · obtain ⟨hi, hawake⟩ := List.mem_filter.mp hi
    exact (hleaves.rdy i hi).trans (if_pos hawake)
  · obtain ⟨hi, hasleep⟩ := List.mem_filter.mp hi
    rw [hleaves.rdy i hi, if_neg (by simp [hasleep])]
    split_ifs
    · exact .inr rfl
    · exact .inl rfl

/-- A subscription with a budget of ten messages under the idle policy. -/
def idleSample : Subscription where
  topic := "events"
  channel := "archive"
  config := ((Config.initial "localhost").putCount .maxInFlight 10).putFlag .rdyRedistributeOnIdle
    true

/-- The same, where no pause has a length but the one after a probe that could not be made. -/
def restlessSample : Subscription :=
  { idleSample with config := idleSample.config.putDuration .backoffMultiplier (.ofSeconds 0) }

/-- Three links have three messages each when the last one falls idle. Half of the budget goes to
the first one, the daemon of the second takes three messages at most, and of what is left one
message goes to the idle one. -/
theorem redistribute_even_of_three :
    let c := (ofSubscription idleSample).stepAll silence
      [.attach (sampleLink "h:1" 2500), .attach (sampleLink "h:2" 3),
        .attach (sampleLink "h:3" 2500), .refill 0, .refill 1, .refill 2, .idle 2, .respread]
    let c' := c.redistribute silence.chance
    c.walk.map c.rdyOf = [3, 3, 3] ∧ c'.rdyOf 0 = 5 ∧ c'.rdyOf 1 = 3 ∧ c'.totalRdy = 9 ∧
      c'.share = 5 := by
  intro c c'
  have hrdy : c.walk.map c.rdyOf = [3, 3, 3] := by decide +kernel
  have hactive : c.activeLinks = [0, 1] := by decide +kernel
  have hmax : c.maxRdyOf 0 = 2500 ∧ c.maxRdyOf 1 = 3 := by decide +kernel
  have hlinks : ∀ i ∈ c.walk, ∃ conn, c.conn? i = some conn ∧ conn.closing = false ∧
      conn.refusing = false ∧ conn.rdy = 3 ∧ conn.lastRdy = 3 ∧ 3 ≤ conn.maxRdy := by
    have hall : (c.walk.all fun i => (c.conn? i).any fun conn => !conn.closing && !conn.refusing &&
        conn.rdy == 3 && conn.lastRdy == 3 && 3 ≤ conn.maxRdy) = true := by decide +kernel
    simpa [List.all_eq_true, Option.any_eq_true, and_assoc] using hall
  have hease : AtEase c := by
    refine ⟨by decide +kernel, by decide +kernel, by decide +kernel, fun i hi => ?_,
      by decide +kernel, by decide +kernel⟩
    obtain ⟨conn, hc, hopen, htold, hcredit, -, htakes⟩ := hlinks i hi
    exact ⟨conn, hc, hopen, htold, by omega, by omega⟩
  have hcovered : ∀ i ∈ c.walk, c.rdyOf i ≤ c.maxRdyOf i := by
    intro i hi
    obtain ⟨conn, hc, -, -, hcredit, -, htakes⟩ := hlinks i hi
    rw [rdyOf_of_conn hc, maxRdyOf_of_conn hc, hcredit]
    exact htakes
  have hgranted : ∀ i ∈ c.walk, ∀ conn, c.conn? i = some conn → 0 < conn.rdy →
      conn.lastRdy ≠ 0 := by
    intro i hi conn hc _
    obtain ⟨conn', hc', -, -, -, hlast, -⟩ := hlinks i hi
    obtain rfl := Option.some.inj (hc.symm.trans hc')
    omega
  obtain ⟨hparts, -, htotal, hshare, -⟩ := redistribute_even hease (by decide +kernel)
    (by decide +kernel) (by decide +kernel) (by decide +kernel) (by decide +kernel)
    (by decide +kernel) hcovered hgranted silence.chance
  have hfive : c.maxInFlight.tdiv c.activeLinks.length = 5 := by decide +kernel
  rw [hactive] at hparts
  refine ⟨hrdy, ?_, ?_, htotal.trans (by decide +kernel), hshare.trans hfive⟩
  · rw [hparts 0 (by decide), ← hactive, hfive, hmax.1]
    rfl
  · rw [hparts 1 (by decide), ← hactive, hfive, hmax.2]
    rfl

/-- Along a run, credit is had by links alone that were granted some. -/
theorem Poised.lastRdy_ne_zero (h : Poised c) (hreceived : c.received < 2 ^ 63)
    {conn : Connection} (hi : c.conn? i = some conn) (hpos : 0 < conn.rdy) : conn.lastRdy ≠ 0 := by
  obtain ⟨l, hl, rfl⟩ := conn?_eq_some_iff.mp hi
  have hb := (h.thrifty.bounded hreceived l (List.mem_of_getElem? hl)).rdy
  omega

/-- Where the even split is missed. In a pause no credit is spread, and there may be a pause at full
pace too: a consumer that finds no link to probe pauses for a second, whatever its level is. A run
leads there where pauses have no length and what ends one is late, so that a signal takes the level
to zero before. And an idle link with credit that it was never granted, which no run leads to, keeps
it, since its daemon needs no word of having none. -/
theorem uneven_after_redistribute :
    (let c := (ofSubscription idleSample).stepAll silence
        [.resume, .attach (sampleLink "h:1" 2500), .respread]
      let c' := c.redistribute silence.chance
      idleSample.config.validate = .ok () ∧ c.level = 0 ∧ c.pause = 1000000000 ∧
        c.respread = true ∧ c.activeLinks = [0] ∧ c.maxRdyOf 0 = 2500 ∧ c.rdyOf 0 = 0 ∧
        c.totalRdy = 0 ∧ c'.rdyOf 0 ≠ min (c.maxInFlight.tdiv 1) (c.maxRdyOf 0) ∧
        c'.share = 0 ∧ c'.respread = true) ∧
      (let c := (ofSubscription restlessSample).stepAll silence
        [.signal .backoff, .signal .steady, .resume]
      restlessSample.config.validate = .ok () ∧ Reaches Sole (ofSubscription restlessSample) c ∧
        c.level = 0 ∧ c.pause = 1000000000) ∧
      (let d : Consumer :=
        { ofSubscription idleSample with
          respread := true
          totalRdy := 5
          links := [{ conn := { (sampleLink "h:1" 2500).conn with rdy := 5 }, idle := true },
            sampleLink "h:2" 2500]
          live := [("h:1", 0), ("h:2", 1)] }
      let d' := d.redistribute silence.chance
      d.level = 0 ∧ d.pause = 0 ∧ d.activeLinks = [1] ∧ d.walk.map d.rdyOf = [5, 0] ∧
        d.walk.map d.maxRdyOf = [2500, 2500] ∧ d'.rdyOf 0 = 5 ∧
        d'.rdyOf 1 ≠ min (d.maxInFlight.tdiv 1) (d.maxRdyOf 1)) := by
  refine ⟨⟨rfl, by decide +kernel⟩, ⟨rfl, ?_, by decide +kernel⟩, by decide +kernel⟩
  refine reaches_stepAll ⟨sole_of_own trivial (by simp), sole_of_own trivial (by simp),
    sole_of_own ?_ (by simp), trivial⟩
  show Consumer.armed _ = true
  decide +kernel

end Nsq.Consumer
