import Nsq.Proofs.Consumer.Ledger
import Mathlib.Algebra.Order.BigOperators.Group.List
import Mathlib.Algebra.Order.Ring.Int
import Mathlib.Data.List.Induction

/-!
# Changes of the budget

A change of the budget refills the links in use one after another, each with its part of the new
budget. A refill that lowers the credit of a link is refused like one that raises it: what decides
is whether the other links together hold less than the new budget (`Adjusts`). So a budget may be
lowered without effect, because every link waits for the others to give some credit back, or with
effect on some links only, because those that come early in the table are refused before a later one
makes room.

`changeMaxInFlight_iff` says exactly when the total and each link come down to the new budget. The
first link that takes its part brings the total down, and every link behind it follows. A budget of
zero is another matter: nothing is refused then, but a link is refilled only where little is left of
its credit, and the others keep theirs.
-/

namespace Nsq.Consumer

variable {c c' : Consumer} {i : Nat} {conn : Connection}

/-! ### The part of a link -/

theorem perLink_le (c : Consumer) : c.perLink ≤ c.maxInFlight := by
  unfold perLink
  split_ifs <;> omega

theorem perLink_pos (h : 0 < c.maxInFlight) : 0 < c.perLink := by
  unfold perLink
  split_ifs <;> omega

theorem perLink_nonneg (h : 0 ≤ c.maxInFlight) : 0 ≤ c.perLink := by
  unfold perLink
  split_ifs <;> omega

/-! ### Links that can be refilled -/

/-- The link is open, its daemon can be told and takes some credit, and it is not overdrawn. -/
structure Receptive (conn : Connection) : Prop where
  closing : conn.closing = false
  refusing : conn.refusing = false
  rdy : 0 ≤ conn.rdy
  maxRdy : 1 ≤ conn.maxRdy

theorem rdyOf_of_receptive (h : ∃ conn, c.conn? i = some conn ∧ Receptive conn) :
    0 ≤ c.rdyOf i := by
  obtain ⟨conn, hc, hr⟩ := h
  rw [rdyOf_of_conn hc]
  exact hr.rdy

/-- The pace is full, and the total is the credit of the links in use, which can all be refilled. -/
structure AtEase (c : Consumer) : Prop where
  level : c.level = 0
  pause : c.pause = 0
  once : c.walk.Nodup
  receptive : ∀ i ∈ c.walk, ∃ conn, c.conn? i = some conn ∧ Receptive conn
  total : c.totalRdy = (c.walk.map c.rdyOf).sum
  range : c.totalRdy < 2 ^ 63

theorem AtEase.rdyOf_nonneg (h : AtEase c) (hi : i ∈ c.walk) : 0 ≤ c.rdyOf i :=
  rdyOf_of_receptive (h.receptive i hi)

/-- No link holds more than all together. -/
theorem AtEase.rdyOf_le (h : AtEase c) (hi : i ∈ c.walk) : c.rdyOf i ≤ c.totalRdy := by
  rw [h.total]
  refine List.single_le_sum (fun r hr => ?_) _ (List.mem_map_of_mem hi)
  obtain ⟨j, hj, rfl⟩ := List.mem_map.mp hr
  exact h.rdyOf_nonneg hj

/-- A budget that a word holds leaves a link what the other links do not have. -/
theorem AtEase.roomFor_eq (h : AtEase c) (hn : 0 ≤ c.maxInFlight) (hn' : c.maxInFlight < 2 ^ 63)
    (hi : i ∈ c.walk) (hc : c.conn? i = some conn) :
    c.roomFor conn.rdy = c.maxInFlight - c.totalRdy + conn.rdy := by
  have hlow := h.rdyOf_nonneg hi
  have hhigh := h.rdyOf_le hi
  have hrange := h.range
  rw [rdyOf_of_conn hc] at hlow hhigh
  rw [roomFor, spare]
  exact word64_eq_self (by omega) (by omega)

/-- A refill changes the credit of the link: it is due, and the other links hold less than the
budget. Where the budget is zero nothing has to be left of it, but a daemon that was told that it
has no credit is not told again. -/
def Adjusts (c : Consumer) (i : Nat) : Prop :=
  ∃ conn, c.conn? i = some conn ∧ wantsRefill c.perLink conn = true ∧
    if c.maxInFlight = 0 then conn.lastRdy ≠ 0 else c.totalRdy - conn.rdy < c.maxInFlight

theorem adjusts_iff (hc : c.conn? i = some conn) :
    c.Adjusts i ↔ wantsRefill c.perLink conn = true ∧
      if c.maxInFlight = 0 then conn.lastRdy ≠ 0 else c.totalRdy - conn.rdy < c.maxInFlight := by
  simp only [Adjusts, hc, Option.some.injEq, exists_eq_left']

instance : Decidable (c.Adjusts i) :=
  match hc : c.conn? i with
  | none => isFalse (by simp [Adjusts, hc])
  | some _ => decidable_of_iff _ (adjusts_iff hc).symm

theorem adjusts_congr (hm : c'.maxInFlight = c.maxInFlight) (hp : c'.perLink = c.perLink)
    (ht : c'.totalRdy = c.totalRdy) (hc : c'.conn? i = c.conn? i) : c'.Adjusts i ↔ c.Adjusts i := by
  simp only [Adjusts, hm, hp, ht, hc]

/-! ### One refill -/

/-- A refill books a part of the budget on a link that it adjusts, and leaves any other link
alone. -/
theorem refill_cases (h : AtEase c) (hn : 0 ≤ c.maxInFlight) (hn' : c.maxInFlight < 2 ^ 63)
    (hi : i ∈ c.walk) (hc : c.conn? i = some conn) :
    (¬c.Adjusts i ∧ (c.refill i).links = c.links ∧ (c.refill i).totalRdy = c.totalRdy) ∨
      (c.Adjusts i ∧ ∃ m, 0 ≤ m ∧ m ≤ c.perLink ∧
        (0 < c.maxInFlight → c.totalRdy + (m - conn.rdy) ≤ c.maxInFlight) ∧
        (c.refill i).links = (c.putConn i (conn.granted m)).links ∧
        (c.refill i).totalRdy = c.totalRdy + (m - conn.rdy)) := by
  have hroom := h.roomFor_eq hn hn' hi hc
  have hpart := perLink_nonneg hn
  have hle := perLink_le c
  have hlow := h.rdyOf_nonneg hi
  have hhigh := h.rdyOf_le hi
  have hrange := h.range
  rw [rdyOf_of_conn hc] at hlow hhigh
  obtain ⟨conn', hc', hr⟩ := h.receptive i hi
  obtain rfl := Option.some.inj (hc.symm.trans hc')
  have hm := hr.maxRdy
  have hfull : (c.inBackoff || c.inPause) = false := by simp [inBackoff, inPause, h.level, h.pause]
  have hrefill : c.refill i = if wantsRefill c.perLink conn then c.grant i c.perLink else c := by
    simp only [refill, hfull, hc, Bool.false_eq_true, if_false]
  rw [adjusts_iff hc]
  by_cases hw : wantsRefill c.perLink conn = true
  · rw [hrefill, if_pos hw]
    rcases grant_cases i c.perLink c with ⟨hl, ht, hno⟩ | ⟨conn', hc', -, hyes, hl, ht, hne⟩
    · refine .inl ⟨?_, hl, ht⟩
      rintro ⟨-, hadj⟩
      -- the budget refused the grant, or there was no need for it
      rcases hno conn hc hr.closing with ⟨hfew, hsome⟩ | ⟨hzero, hlast⟩
      · rw [hroom] at hfew
        rw [if_neg (by omega)] at hadj
        omega
      · by_cases h0 : c.maxInFlight = 0
        · rw [if_pos h0] at hadj
          exact hadj hlast
        · have := allotment_pos c (perLink_pos (c := c) (by omega)) hm
          omega
    · obtain rfl := Option.some.inj (hc.symm.trans hc')
      have hcount := allotment_le_count conn c.perLink c
      have hpos : 0 ≤ c.allotment conn c.perLink := allotment_nonneg c hpart (by omega)
      -- a budget of some messages leaves room for the grant, or it would have been refused
      have hspare : 0 < c.maxInFlight → 0 < c.roomFor conn.rdy := by
        intro hsome
        have hp := perLink_pos hsome
        by_contra hfew
        exact hyes ⟨by omega, by omega⟩
      have hfits : 0 < c.maxInFlight →
          c.totalRdy + (c.allotment conn c.perLink - conn.rdy) ≤ c.maxInFlight := by
        intro hsome
        have := allotment_le_roomFor (hspare hsome) c.perLink
        omega
      refine .inr ⟨⟨hw, ?_⟩, _, hpos, hcount, hfits, hl, ?_⟩
      · by_cases h0 : c.maxInFlight = 0
        · rw [if_pos h0]
          exact hne (by omega)
        · rw [if_neg h0]
          have := hspare (by omega)
          omega
      · rw [ht]
        exact word64_eq_self (by omega) (by omega)
  · rw [hrefill, if_neg hw]
    exact .inl ⟨fun ht => hw ht.1, rfl, rfl⟩

/-- A sum over distinct entries changes by what one of them adds. -/
theorem sum_map_of_ne {is : List Nat} {f g : Nat → Int} (hn : is.Nodup) (hi : i ∈ is)
    (h : ∀ j, j ≠ i → g j = f j) : (is.map g).sum = (is.map f).sum + (g i - f i) := by
  induction is with
  | nil => exact absurd hi List.not_mem_nil
  | cons a is ih =>
    obtain ⟨ha, hn⟩ := List.nodup_cons.mp hn
    rw [List.map_cons, List.map_cons, List.sum_cons, List.sum_cons]
    by_cases hai : a = i
    · subst hai
      have hrest : is.map g = is.map f :=
        List.map_congr_left fun j hj => h j fun hja => ha (hja ▸ hj)
      rw [hrest]
      omega
    · have hrest := ih hn ((List.mem_cons.mp hi).resolve_left (Ne.symm hai))
      rw [hrest, h a hai]
      omega

theorem perLink_congr (hp : SamePace c c') (hl : c'.live = c.live) : c'.perLink = c.perLink := by
  rw [perLink, perLink, hp.share, hp.maxInFlight, hl]

theorem live_refill (i : Nat) (c : Consumer) : (c.refill i).live = c.live :=
  (dealing_refill i c).lending.live

theorem conn?_refill_of_ne {j : Nat} (hj : j ≠ i) (c : Consumer) :
    (c.refill i).conn? j = c.conn? j := by
  unfold refill
  split_ifs
  · rfl
  · split
    · rfl
    · split_ifs
      · exact conn?_grant_of_ne hj.symm _ c
      · rfl

theorem rdyOf_refill_of_ne {j : Nat} (hj : j ≠ i) (c : Consumer) :
    (c.refill i).rdyOf j = c.rdyOf j := by
  rw [rdyOf, conn?_refill_of_ne hj, ← rdyOf]

theorem AtEase.refill (h : AtEase c) (hn : 0 ≤ c.maxInFlight) (hn' : c.maxInFlight < 2 ^ 63)
    (hi : i ∈ c.walk) : AtEase (c.refill i) := by
  have hp := samePace_refill i c
  have hw : (c.refill i).walk = c.walk := congrArg (List.map Prod.snd) (live_refill i c)
  have hother := fun j (hj : j ≠ i) => conn?_refill_of_ne hj c
  have hsum := sum_map_of_ne h.once hi fun j hj => rdyOf_refill_of_ne hj c
  obtain ⟨conn, hc, hr⟩ := h.receptive i hi
  have hhigh := h.rdyOf_le hi
  have hrange := h.range
  rw [rdyOf_of_conn hc] at hsum hhigh
  -- it remains to look at the link itself
  suffices hself : ∃ conn', (c.refill i).conn? i = some conn' ∧ Receptive conn' ∧
      (c.refill i).totalRdy = c.totalRdy + (conn'.rdy - conn.rdy) ∧
      (c.refill i).totalRdy < 2 ^ 63 by
    obtain ⟨conn', hc', hr', ht, hlt⟩ := hself
    refine ⟨hp.level.trans h.level, hp.pause.trans h.pause, hw ▸ h.once, fun j hj => ?_, ?_, hlt⟩
    · by_cases hji : j = i
      · rw [hji]
        exact ⟨conn', hc', hr'⟩
      · rw [hother j hji]
        exact h.receptive j (hw ▸ hj)
    · rw [hw, hsum, ht, h.total, rdyOf_of_conn hc']
  rcases refill_cases h hn hn' hi hc with ⟨-, hl, ht⟩ | ⟨-, m, hm, hpart, hfit, hl, ht⟩
  · refine ⟨conn, ?_, hr, by omega, by omega⟩
    rw [conn?, hl, ← conn?, hc]
  · refine ⟨conn.granted m, ?_, ?_, ?_, ?_⟩
    · rw [conn?, hl, ← conn?]
      exact conn?_putConn_self hc _
    · rw [Connection.granted_eq]
      exact ⟨by simp [hr.closing, hr.refusing], hr.refusing, hm, hr.maxRdy⟩
    · rw [ht, Connection.granted_rdy]
    · have := perLink_le c
      have := hr.rdy
      by_cases h0 : 0 < c.maxInFlight
      · have := hfit h0
        omega
      · omega

/-- A refill from a budget of some messages brings the link and the total down, or does nothing. -/
theorem refill_lowers (h : AtEase c) (hn : 0 < c.maxInFlight) (hn' : c.maxInFlight < 2 ^ 63)
    (hi : i ∈ c.walk) :
    (¬c.Adjusts i ∧ (c.refill i).rdyOf i = c.rdyOf i ∧ (c.refill i).totalRdy = c.totalRdy) ∨
      (c.Adjusts i ∧ (c.refill i).rdyOf i ≤ c.perLink ∧
        (c.refill i).totalRdy ≤ c.maxInFlight) := by
  obtain ⟨conn, hc, -⟩ := h.receptive i hi
  rcases refill_cases h hn.le hn' hi hc with ⟨ha, hl, ht⟩ | ⟨ha, m, -, hm, hfit, hl, ht⟩
  · exact .inl ⟨ha, rdyOf_of_links hl i, ht⟩
  · refine .inr ⟨ha, ?_, ?_⟩
    · rw [rdyOf_of_links hl, rdyOf_of_conn (conn?_putConn_self hc _), Connection.granted_rdy]
      exact hm
    · rw [ht]
      exact hfit hn

/-- A refill from a budget of zero takes all credit of the link, or does nothing. -/
theorem refill_empties (h : AtEase c) (hn : c.maxInFlight = 0) (hi : i ∈ c.walk) :
    (¬c.Adjusts i ∧ (c.refill i).rdyOf i = c.rdyOf i) ∨
      (c.Adjusts i ∧ (c.refill i).rdyOf i = 0) := by
  obtain ⟨conn, hc, -⟩ := h.receptive i hi
  rcases refill_cases h hn.ge (by omega) hi hc with ⟨ha, hl, -⟩ | ⟨ha, m, hm, hle, -, hl, -⟩
  · exact .inl ⟨ha, rdyOf_of_links hl i⟩
  · have := perLink_le c
    refine .inr ⟨ha, ?_⟩
    rw [rdyOf_of_links hl, rdyOf_of_conn (conn?_putConn_self hc _), Connection.granted_rdy]
    omega

/-- While the budget is met, no link is refused that holds more than its part. -/
theorem rdyOf_le_of_not_adjusts (h : AtEase c) (hn : 0 < c.maxInFlight) (hi : i ∈ c.walk)
    (ht : c.totalRdy ≤ c.maxInFlight) (ha : ¬c.Adjusts i) : c.rdyOf i ≤ c.perLink := by
  obtain ⟨conn, hc, -⟩ := h.receptive i hi
  have hpos := perLink_pos hn
  rw [rdyOf_of_conn hc]
  by_contra hgt
  have hover : 0 < c.perLink ∧ c.perLink < conn.rdy := ⟨hpos, by omega⟩
  refine ha ((adjusts_iff hc).mpr ⟨by simp [wantsRefill, hover], ?_⟩)
  rw [if_neg (by omega)]
  omega

/-! ### The refills of a walk -/

theorem refillAll_concat (is : List Nat) (i : Nat) (c : Consumer) :
    c.refillAll (is ++ [i]) = (c.refillAll is).refill i := by
  simp only [refillAll, List.foldl_append, List.foldl_cons, List.foldl_nil]

/-- What holds after the first links of the walk were refilled: the others are as they were. -/
structure Walked (front : List Nat) (c c' : Consumer) : Prop where
  ease : AtEase c'
  pace : SamePace c c'
  live : c'.live = c.live
  rest : ∀ j, j ∉ front → c'.conn? j = c.conn? j

theorem Walked.walk {front : List Nat} (h : Walked front c c') : c'.walk = c.walk :=
  congrArg (List.map Prod.snd) h.live

theorem walked_refillAll (h : AtEase c) (hn : 0 ≤ c.maxInFlight) (hn' : c.maxInFlight < 2 ^ 63)
    {front : List Nat} (hf : ∀ i ∈ front, i ∈ c.walk) : Walked front c (c.refillAll front) := by
  induction front using List.reverseRecOn with
  | nil => exact ⟨h, .refl c, rfl, fun _ _ => rfl⟩
  | append_singleton front i ih =>
    have hw := ih fun j hj => hf j (List.mem_append_left _ hj)
    have hi : i ∈ (c.refillAll front).walk := by
      rw [hw.walk]
      exact hf i (List.mem_append_right _ (List.mem_singleton_self i))
    have hmax := hw.pace.maxInFlight
    have hlow : 0 ≤ (c.refillAll front).maxInFlight := hmax ▸ hn
    have hhigh : (c.refillAll front).maxInFlight < 2 ^ 63 := hmax ▸ hn'
    rw [refillAll_concat]
    refine ⟨hw.ease.refill hlow hhigh hi, hw.pace.trans (samePace_refill i _),
      (live_refill i _).trans hw.live, fun j hj => ?_⟩
    rw [List.mem_append, not_or, List.mem_singleton] at hj
    exact (conn?_refill_of_ne hj.2 _).trans (hw.rest j hj.1)

/-- A budget of some messages along a walk: before the first link that takes its part nothing
changes, and from there on all links come down to theirs, and the total to the budget. -/
structure Lowered (front : List Nat) (c c' : Consumer) : Prop where
  lowered : (∃ j ∈ front, c.Adjusts j) → c'.totalRdy ≤ c.maxInFlight
  kept : (∀ j ∈ front, ¬c.Adjusts j) → c'.totalRdy = c.totalRdy
  parts : ∀ before i after, front = before ++ i :: after →
    (c'.rdyOf i ≤ c.perLink ↔ c.rdyOf i ≤ c.perLink ∨ ∃ j ∈ before ++ [i], c.Adjusts j)

theorem lowered_refillAll (h : AtEase c) (hn : 0 < c.maxInFlight) (hn' : c.maxInFlight < 2 ^ 63)
    {front : List Nat} (hf : ∀ i ∈ front, i ∈ c.walk) (hnd : front.Nodup) :
    Lowered front c (c.refillAll front) := by
  induction front using List.reverseRecOn with
  | nil => exact ⟨by simp, fun _ => rfl, by simp⟩
  | append_singleton front i ih =>
    have hmem : ∀ j ∈ front, j ∈ c.walk := fun j hj => hf j (List.mem_append_left _ hj)
    have hlast : i ∈ front ++ [i] := List.mem_append_right _ (List.mem_singleton_self i)
    obtain ⟨hndf, -, hdisj⟩ := List.nodup_append.mp hnd
    have hnew : ∀ j ∈ front, j ≠ i := fun j hj => hdisj j hj i (List.mem_singleton_self i)
    have hih := ih hmem hndf
    have hw := walked_refillAll h hn.le hn' hmem
    have hmax := hw.pace.maxInFlight
    have hpart := perLink_congr hw.pace hw.live
    rw [refillAll_concat]
    generalize c.refillAll front = d at hih hw hmax hpart
    have hdn : 0 < d.maxInFlight := hmax ▸ hn
    have hdn' : d.maxInFlight < 2 ^ 63 := hmax ▸ hn'
    have hdi : i ∈ d.walk := hw.walk ▸ hf i hlast
    have hconn : d.conn? i = c.conn? i := hw.rest i fun hin => hnew i hin rfl
    have hrdy : d.rdyOf i = c.rdyOf i := by rw [rdyOf, hconn, ← rdyOf]
    have hstep := refill_lowers hw.ease hdn hdn' hdi
    rw [hpart, hmax, hrdy] at hstep
    -- the links before are as they were, so only the last one is left to be looked at
    have hparts (hself : (d.refill i).rdyOf i ≤ c.perLink ↔
          c.rdyOf i ≤ c.perLink ∨ ∃ j ∈ front ++ [i], c.Adjusts j) :
        ∀ before k after, front ++ [i] = before ++ k :: after →
          ((d.refill i).rdyOf k ≤ c.perLink ↔
            c.rdyOf k ≤ c.perLink ∨ ∃ j ∈ before ++ [k], c.Adjusts j) := by
      intro before k after heq
      rcases append_singleton_eq_append_cons heq with ⟨rfl, rfl⟩ | ⟨after', rfl⟩
      · exact hself
      · rw [rdyOf_refill_of_ne (hnew k (by simp))]
        exact hih.parts before k after' rfl
    by_cases hsome : ∃ j ∈ front, c.Adjusts j
    · -- an earlier link has made room, so that nobody is refused what he holds
      obtain ⟨j, hj, ha⟩ := hsome
      have hlow := hih.lowered ⟨j, hj, ha⟩
      have hin : j ∈ front ++ [i] := List.mem_append_left _ hj
      have hle := rdyOf_le_of_not_adjusts hw.ease hdn hdi (hmax ▸ hlow)
      rw [hpart, hrdy] at hle
      refine ⟨fun _ => ?_, fun hno => absurd ha (hno j hin),
        hparts (iff_of_true ?_ (.inr ⟨j, hin, ha⟩))⟩
      · rcases hstep with ⟨-, -, ht⟩ | ⟨-, -, ht⟩ <;> omega
      · rcases hstep with ⟨hna, hk, -⟩ | ⟨-, hk, -⟩
        · rw [hk]
          exact hle hna
        · exact hk
    · -- nothing has changed so far
      have hsame := hih.kept fun j hj ha => hsome ⟨j, hj, ha⟩
      have hiff : d.Adjusts i ↔ c.Adjusts i := adjusts_congr hmax hpart hsame hconn
      have honly : (∃ j ∈ front ++ [i], c.Adjusts j) ↔ c.Adjusts i := by
        simp only [List.mem_append, List.mem_singleton, or_and_right, exists_or, exists_eq_left]
        exact or_iff_right hsome
      rw [hiff] at hstep
      refine ⟨fun ha => ?_, fun hno => ?_, hparts ?_⟩
      · rcases hstep with ⟨hna, -, -⟩ | ⟨-, -, ht⟩
        · exact absurd (honly.mp ha) hna
        · exact ht
      · rcases hstep with ⟨-, -, ht⟩ | ⟨ha, -, -⟩
        · exact ht.trans hsame
        · exact absurd ha (hno i hlast)
      · rw [honly]
        rcases hstep with ⟨hna, hk, -⟩ | ⟨ha, hk, -⟩
        · rw [hk, or_iff_left hna]
        · exact iff_of_true hk (.inr ha)

/-- A budget of zero along a walk: the links that are refilled give all their credit up, and the
others none. -/
theorem rdyOf_refillAll_of_zero (h : AtEase c) (hn : c.maxInFlight = 0) {front : List Nat}
    (hf : ∀ i ∈ front, i ∈ c.walk) (hnd : front.Nodup) (hi : i ∈ front) :
    (c.Adjusts i → (c.refillAll front).rdyOf i = 0) ∧
      (¬c.Adjusts i → (c.refillAll front).rdyOf i = c.rdyOf i) := by
  induction front using List.reverseRecOn with
  | nil => exact absurd hi List.not_mem_nil
  | append_singleton front k ih =>
    have hmem : ∀ j ∈ front, j ∈ c.walk := fun j hj => hf j (List.mem_append_left _ hj)
    obtain ⟨hndf, -, hdisj⟩ := List.nodup_append.mp hnd
    have hnew : ∀ j ∈ front, j ≠ k := fun j hj => hdisj j hj k (List.mem_singleton_self k)
    have hw := walked_refillAll h hn.ge (by omega) hmem
    have hih := ih hmem hndf
    rw [refillAll_concat]
    generalize c.refillAll front = d at hih hw
    have hdn : d.maxInFlight = 0 := hw.pace.maxInFlight.trans hn
    have hdk : k ∈ d.walk :=
      hw.walk ▸ hf k (List.mem_append_right _ (List.mem_singleton_self k))
    by_cases hik : i = k
    · subst hik
      have hconn : d.conn? i = c.conn? i := hw.rest i fun hin => hnew i hin rfl
      have hrdy : d.rdyOf i = c.rdyOf i := by rw [rdyOf, hconn, ← rdyOf]
      have hiff : d.Adjusts i ↔ c.Adjusts i := by
        simp only [Adjusts, hconn, perLink_congr hw.pace hw.live, if_pos hdn, if_pos hn]
      have hstep := refill_empties hw.ease hdn hdk
      rw [hiff, hrdy] at hstep
      rcases hstep with ⟨hna, hk⟩ | ⟨ha, hk⟩
      · exact ⟨fun ha => absurd ha hna, fun _ => hk⟩
      · exact ⟨fun _ => hk, fun hna => absurd ha hna⟩
    · have hin : i ∈ front := (List.mem_append.mp hi).resolve_right fun hs =>
        hik (List.mem_singleton.mp hs)
      rw [rdyOf_refill_of_ne hik]
      exact hih hin

/-! ### A change of the budget -/

theorem AtEase.total_le_zero_iff (h : AtEase c) : c.totalRdy ≤ 0 ↔ ∀ i ∈ c.walk, c.rdyOf i = 0 := by
  constructor
  · intro ht i hi
    have := h.rdyOf_nonneg hi
    have := h.rdyOf_le hi
    omega
  · intro hz
    rw [h.total, List.sum_eq_zero]
    intro r hr
    obtain ⟨i, hi, rfl⟩ := List.mem_map.mp hr
    exact hz i hi

/-- **When a change of the budget takes effect.** From every state at full pace, with all links in
use open and the total their credit, whatever their order in the table:

* a new budget of some messages is met by the total exactly if it was met before or a refill of some
  link adjusts its credit, and by a link exactly if it held no more than its part of the new budget
  before, or a refill of it or of a link before it in the table adjusts the credit there;
* a new budget of zero is met by the total exactly if a refill of every link with credit adjusts
  that, and by a link exactly if it had none or its refill adjusts it. -/
theorem changeMaxInFlight_iff {n : Int} (h : AtEase c) (hn : 0 ≤ n) (hn' : n < 2 ^ 63) :
    let c₀ : Consumer := { c with maxInFlight := n }
    let c' := c.changeMaxInFlight n
    (n = c.maxInFlight → c' = c) ∧
    (n ≠ c.maxInFlight → 0 < n →
      (c'.totalRdy ≤ n ↔ c.totalRdy ≤ n ∨ ∃ i ∈ c.walk, c₀.Adjusts i) ∧
      ∀ front i back, c.walk = front ++ i :: back →
        (c'.rdyOf i ≤ c'.perLink ↔
          c.rdyOf i ≤ c'.perLink ∨ ∃ j ∈ front ++ [i], c₀.Adjusts j)) ∧
    (n ≠ c.maxInFlight → n = 0 →
      (c'.totalRdy ≤ n ↔ ∀ i ∈ c.walk, c.rdyOf i = 0 ∨ c₀.Adjusts i) ∧
      ∀ i ∈ c.walk, (c'.rdyOf i ≤ c'.perLink ↔ c.rdyOf i = 0 ∨ c₀.Adjusts i)) := by
  intro c₀ c'
  have h₀ : AtEase c₀ := ⟨h.level, h.pause, h.once, h.receptive, h.total, h.range⟩
  have hall : ∀ i ∈ c₀.walk, i ∈ c₀.walk := fun _ hi => hi
  have hw := walked_refillAll h₀ hn hn' hall
  have hchange : n ≠ c.maxInFlight → c' = c₀.refillAll c₀.walk := by
    intro hne
    have hfull : c₀.inBackoff = false := by simp [inBackoff, h₀.level]
    simp only [c', changeMaxInFlight, if_neg hne.symm]
    exact if_neg (by rw [Bool.not_eq_true]; exact hfull)
  refine ⟨fun heq => ?_, fun hne hpos => ?_, fun hne hz => ?_⟩
  · simp only [c', changeMaxInFlight, heq, if_true]
  · rw [hchange hne, perLink_congr hw.pace hw.live]
    have hl := lowered_refillAll h₀ hpos hn' hall h₀.once
    refine ⟨⟨fun ht => ?_, fun ht => ?_⟩, hl.parts⟩
    · by_cases hsome : ∃ i ∈ c.walk, c₀.Adjusts i
      · exact .inr hsome
      · have hkept := hl.kept fun i hi ha => hsome ⟨i, hi, ha⟩
        exact .inl (hkept ▸ ht)
    · by_cases hsome : ∃ i ∈ c.walk, c₀.Adjusts i
      · exact hl.lowered hsome
      · have hkept := hl.kept fun i hi ha => hsome ⟨i, hi, ha⟩
        rw [hkept]
        exact ht.resolve_right hsome
  · have hpart : c'.perLink = 0 := by
      rw [hchange hne, perLink_congr hw.pace hw.live]
      have hle : c₀.perLink ≤ n := perLink_le c₀
      have hge : 0 ≤ c₀.perLink := perLink_nonneg (c := c₀) hn
      omega
    have hiff : ∀ i ∈ c.walk, (c'.rdyOf i = 0 ↔ c.rdyOf i = 0 ∨ c₀.Adjusts i) := by
      intro i hi
      obtain ⟨hyes, hno⟩ := rdyOf_refillAll_of_zero h₀ hz hall h₀.once hi
      rw [hchange hne]
      by_cases ha : c₀.Adjusts i
      · exact iff_of_true (hyes ha) (.inr ha)
      · rw [hno ha, or_iff_left ha]
        rfl
    have hease : AtEase c' := hchange hne ▸ hw.ease
    have hwalk : c'.walk = c.walk := by
      rw [hchange hne]
      exact hw.walk
    refine ⟨?_, fun i hi => ?_⟩
    · rw [hz, hease.total_le_zero_iff, hwalk]
      exact forall₂_congr hiff
    · have hlow := hease.rdyOf_nonneg (hwalk ▸ hi)
      rw [hpart, ← hiff i hi]
      omega

/-- Two links that share a budget of ten messages evenly: four messages less than either of them
needs the other to make room first, and so the budget is exceeded for good. -/
theorem changeMaxInFlight_of_even_split :
    let c := sample.stepAll silence
      [.attach (sampleLink "h:1" 2500), .attach (sampleLink "h:2" 2500), .updateRdy 0 5,
        .updateRdy 1 5]
    let c' := c.changeMaxInFlight 4
    AtEase c ∧ c.totalRdy = c.maxInFlight ∧ ¬c'.totalRdy ≤ 4 ∧ ¬c'.rdyOf 0 ≤ c'.perLink := by
  intro c c'
  have hw : c.walk = [0, 1] := by decide +kernel
  have h0 : c.conn? 0 = some ((sampleLink "h:1" 2500).conn.granted 5) := by decide +kernel
  have h1 : c.conn? 1 = some ((sampleLink "h:2" 2500).conn.granted 5) := by decide +kernel
  have h : AtEase c := by
    refine ⟨by decide +kernel, by decide +kernel, by decide +kernel, fun i hi => ?_,
      by decide +kernel, by decide +kernel⟩
    rw [hw, List.mem_cons, List.mem_singleton] at hi
    rcases hi with rfl | rfl
    · exact ⟨_, h0, by decide +kernel, by decide +kernel, by decide +kernel, by decide +kernel⟩
    · exact ⟨_, h1, by decide +kernel, by decide +kernel, by decide +kernel, by decide +kernel⟩
  obtain ⟨-, hpos, -⟩ := changeMaxInFlight_iff (n := 4) h (by decide) (by decide)
  obtain ⟨htotal, hparts⟩ := hpos (by decide +kernel) (by decide)
  refine ⟨h, by decide +kernel, ?_, ?_⟩
  · rw [htotal]
    decide +kernel
  · rw [hparts [] 0 [1] hw]
    decide +kernel

end Nsq.Consumer
