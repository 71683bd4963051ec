import Nsq.Proofs.Consumer.Lines

/-!
# Negative grants

A grant takes credit away from a daemon that holds some, but less than no credit has no meaning for
it. Nothing keeps such a grant back: a count is cut down to what the daemon takes, and it is not
looked at again before it is written. So a daemon hears of a negative grant exactly if its link is
open, the line can be written, and what is asked for or what it takes is negative
(`hears_negative_iff`).

What the consumer asks for by itself is negative only if its budget is, and the budget is whatever
the owner sets. So no negative line is written without a negative budget, or a daemon that takes
less than no credit (`told_negative`).
-/

namespace Nsq.Consumer

variable {c c' c'' : Consumer}

/-- A negative grant is heard of exactly if it is asked for, or the daemon takes no other. It is
never cut down further, nor refused. -/
theorem hears_negative_iff (conn : Connection) (count : Int) (c : Consumer) :
    (c.Hears conn count ∧ c.allotment conn count < 0 ↔
      conn.closing = false ∧ conn.refusing = false ∧ (count < 0 ∨ conn.maxRdy < 0)) ∧
    (c.allotment conn count < 0 → c.allotment conn count = min count conn.maxRdy) := by
  have hneg : c.allotment conn count < 0 ↔ count < 0 ∨ conn.maxRdy < 0 := by
    unfold allotment
    split_ifs <;> omega
  refine ⟨⟨fun ⟨hh, hn⟩ => ⟨hh.closing, hh.refusing, hneg.mp hn⟩, ?_⟩, fun hn => ?_⟩
  · rintro ⟨hcl, hrf, hmin⟩
    have hn := hneg.mpr hmin
    exact ⟨⟨hcl, hrf, fun hr => absurd hr.2 (by omega), fun h0 => absurd h0 (by omega)⟩, hn⟩
  · unfold allotment at hn ⊢
    split_ifs at hn ⊢
    · omega
    · rfl

/-! ### Lines under one budget -/

/-- A line of `n` over a link takes no credit away that is not there, unless the budget is negative
or the daemon takes less than no credit. -/
def Justified (c : Consumer) (i : Nat) (n : Int) : Prop :=
  0 ≤ n ∨ c.maxInFlight < 0 ∨ ∃ conn, c.conn? i = some conn ∧ conn.maxRdy < 0

/-- The budget and what daemons take stay as they are, and the lines that are new are justified by
them. -/
structure Keeps (c c' : Consumer) : Prop where
  maxInFlight : c'.maxInFlight = c.maxInFlight
  maxRdy : ∀ i conn, c.conn? i = some conn →
    ∃ conn', c'.conn? i = some conn' ∧ conn'.maxRdy = conn.maxRdy
  lines : Adds c'.Justified c c'

theorem Justified.keeps {i : Nat} {n : Int} (h : c.Justified i n) (hk : Keeps c c') :
    c'.Justified i n := by
  refine h.imp_right (Or.imp (fun hm => hk.maxInFlight ▸ hm) ?_)
  rintro ⟨conn, hi, hm⟩
  obtain ⟨conn', hi', hmax⟩ := hk.maxRdy i conn hi
  exact ⟨conn', hi', hmax ▸ hm⟩

namespace Keeps

theorem refl (c : Consumer) : Keeps c c := ⟨rfl, fun _ conn hi => ⟨conn, hi, rfl⟩, .refl c⟩

theorem trans (h : Keeps c c') (h' : Keeps c' c'') : Keeps c c'' where
  maxInFlight := h'.maxInFlight.trans h.maxInFlight
  maxRdy i conn hi := by
    obtain ⟨conn', hi', hm⟩ := h.maxRdy i conn hi
    obtain ⟨conn'', hi'', hm'⟩ := h'.maxRdy i conn' hi'
    exact ⟨conn'', hi'', hm'.trans hm⟩
  lines := (h.lines.mono fun _ _ hj => hj.keeps h').trans h'.lines

end Keeps

theorem maxRdy_of_lending (h : Lending c c') (i : Nat) (conn : Connection)
    (hi : c.conn? i = some conn) :
    ∃ conn', c'.conn? i = some conn' ∧ conn'.maxRdy = conn.maxRdy := by
  obtain ⟨l, hl, rfl⟩ := conn?_eq_some_iff.mp hi
  obtain ⟨l', hl', r⟩ := h.links.get hl
  exact ⟨l'.conn, conn?_of_links hl', r.maxRdy⟩

/-- Grants that the consumer asks for by itself are justified. -/
theorem Sharing.keeps (h : Sharing c c') : Keeps c c' := by
  induction h with
  | refl => exact .refl c
  | @ask d i count hs hn ih =>
    have hd := (dealing_updateRdy i count d).lending
    have hm := (samePace_updateRdy i count d).maxInFlight
    refine ih.trans ⟨hm, maxRdy_of_lending hd, .updateRdy fun conn hi hh => ?_⟩
    rcases Int.lt_or_le (d.allotment conn count) 0 with hlt | hge
    · obtain ⟨-, -, hcount | hmax⟩ := (hears_negative_iff conn count d).1.mp ⟨hh, hlt⟩
      · exact .inr (.inl (by rw [hm, ih.maxInFlight]; omega))
      · obtain ⟨conn', hi', hmax'⟩ := maxRdy_of_lending hd i conn hi
        exact .inr (.inr ⟨conn', hi', hmax' ▸ hmax⟩)
    · exact .inl hge
  | @tune d d' _ ht ih =>
    have hconn : ∀ i, d'.conn? i = d.conn? i := fun i => by rw [conn?, ht.links, conn?]
    refine ih.trans ⟨ht.maxInFlight, fun i conn hi => ⟨conn, (hconn i).trans hi, rfl⟩, ?_⟩
    exact .of_told fun i => by rw [told, hconn, told]

theorem Still.keeps (h : Still c c') : Keeps c c' where
  maxInFlight := h.maxInFlight
  maxRdy i conn hi := by
    obtain ⟨l, hl, rfl⟩ := conn?_eq_some_iff.mp hi
    obtain ⟨l', hl', r⟩ := h.links.old i l hl
    exact ⟨l'.conn, conn?_of_links hl', r.maxRdy⟩
  lines := h.adds

/-- The grants to be tried again ask for some credit. -/
def Hopes (c : Consumer) : Prop := ∀ e ∈ c.retries, 0 < e.2

theorem Sharing.hopes (h : Sharing c c') (hc : Hopes c) : Hopes c' := fun e he =>
  (h.retries e he).elim (hc e) id

theorem Stir.keeps (h : Stir c c') : Keeps c c' ∧ (Hopes c → Hopes c') := by
  cases h with
  | refill i => exact ⟨(sharing_refill i c).keeps, (sharing_refill i c).hopes⟩
  | signal chance s => exact ⟨(sharing_signal chance s c).keeps, (sharing_signal chance s c).hopes⟩
  | still h => exact ⟨h.keeps, fun hc e he => hc e (h.retries e he)⟩

theorem keeps_stirs (h : Stirs c c') : Keeps c c' ∧ (Hopes c → Hopes c') := by
  induction h with
  | refl => exact ⟨.refl c, id⟩
  | tail _ hs ih => exact ⟨ih.1.trans hs.keeps.1, hs.keeps.2 ∘ ih.2⟩

/-! ### Steps and runs -/

/-- A direct act keeps the budget, or sets it first of all. -/
theorem keeps_direct {env : Surroundings} {a : Act} (hc : Hopes c) (ha : Ordinary env a c)
    (hd : a.isDirect = true) :
    Hopes (c.act env a).2 ∧ ∃ n, Keeps { c with maxInFlight := n } (c.act env a).2 := by
  have hshare {d : Consumer} (hs : Sharing c d) :
      Hopes d ∧ ∃ n, Keeps { c with maxInFlight := n } d :=
    ⟨hs.hopes hc, c.maxInFlight, hs.keeps⟩
  cases a with
  | attach link =>
    have hs := still_attach ha
    exact ⟨fun e he => hc e (hs.retries e he), c.maxInFlight, hs.keeps⟩
  | retry addr count => exact hshare (sharing_retry (Int.le_of_lt (hc _ ha.1)))
  | resume => exact hshare (sharing_resume env.chance c)
  | redistribute => exact hshare (sharing_redistribute env.chance c)
  | changeMaxInFlight n =>
    have hs := sharing_changeMaxInFlight n c
    exact ⟨hs.hopes hc, n, hs.keeps⟩
  | retire i => exact absurd ha.1 id
  | updateRdy i count => exact absurd ha.1 id
  | sendRdy i count => exact absurd ha.1 id
  | _ => simp [Act.isDirect] at hd

/-- The lines of a step are justified by the budget that it leaves. -/
theorem justified_step {env : Surroundings} {a : Act} (hc : Hopes c) (ha : Ordinary env a c) :
    Hopes (c.step env a).2 ∧ Adds (c.step env a).2.Justified c (c.step env a).2 := by
  rcases step_stirs env a c with hs | ⟨hd, hs⟩
  · obtain ⟨hk, hh⟩ := keeps_stirs hs
    exact ⟨hh hc, hk.lines⟩
  · obtain ⟨hk, hh⟩ := keeps_stirs hs
    obtain ⟨hact, n, hn⟩ := keeps_direct hc ha hd
    -- the budget may be set, which tells nobody anything
    have hset : Adds (c.step env a).2.Justified c { c with maxInFlight := n } :=
      .of_told fun _ => rfl
    exact ⟨hh hact, hset.trans (hn.trans hk).lines⟩

theorem hopes_of_reaches {s : Subscription} (h : Reaches Ordinary (ofSubscription s) c) :
    Hopes c := by
  induction h with
  | refl => exact fun e he => absurd he List.not_mem_nil
  | step _ ha ih => exact (justified_step ih ha).1

/-! ### Negative budgets -/

/-- A negative budget is shared as it is. -/
theorem perLink_of_negative (h : c.maxInFlight < 0) : c.perLink = c.maxInFlight := by
  unfold perLink
  split_ifs <;> omega

/-- At full pace a link that is due for a refill hears of a negative budget. -/
theorem told_refill_of_negative {i : Nat} {conn : Connection} (hb : c.maxInFlight < 0)
    (hl : c.level = 0) (hp : c.pause = 0) (hi : c.conn? i = some conn)
    (hc : conn.closing = false) (hr : conn.refusing = false)
    (hw : wantsRefill c.maxInFlight conn = true) :
    (c.refill i).told i = c.told i ++ [min c.maxInFlight conn.maxRdy] := by
  obtain ⟨hiff, hmin⟩ := hears_negative_iff conn c.maxInFlight c
  obtain ⟨hh, hn⟩ := hiff.mpr ⟨hc, hr, .inl hb⟩
  unfold refill
  rw [if_neg (by simp [inBackoff, inPause, hl, hp]), hi]
  dsimp only
  rw [perLink_of_negative hb, if_pos hw, ← hmin hn]
  exact told_updateRdy_of_hears hi hh

/-- **Negative lines come from negative budgets and limits.**

* Whatever the state of the consumer, asking for a grant on a link writes a negative line exactly if
  the link is open, the line can be written, and what is asked for or what the daemon takes is
  negative.
* Every negative line of a run of ordinary acts was written in a step that left a negative budget,
  or over a link whose daemon takes less than no credit.
* A negative budget is written, at full pace, to every open link that is due for a refill. -/
theorem told_negative {s : Subscription} (h : Reaches Ordinary (ofSubscription s) c) :
    (∀ (d : Consumer) i count conn, d.conn? i = some conn →
      ((∃ n < 0, (d.updateRdy i count).2.told i = d.told i ++ [n]) ↔
        conn.closing = false ∧ conn.refusing = false ∧ (count < 0 ∨ conn.maxRdy < 0))) ∧
    (∀ i before n after, c.told i = before ++ n :: after → n < 0 →
      ∃ c₀ env a, Reaches Ordinary (ofSubscription s) c₀ ∧ Ordinary env a c₀ ∧
        c₀.told i <+: before ∧ before ++ [n] <+: (c₀.step env a).2.told i ∧
        ((c₀.step env a).2.maxInFlight < 0 ∨
          ∃ conn, (c₀.step env a).2.conn? i = some conn ∧ conn.maxRdy < 0) ∧
        Reaches Ordinary (c₀.step env a).2 c) ∧
    ∀ (d : Consumer) i conn, d.maxInFlight < 0 → d.level = 0 → d.pause = 0 →
      d.conn? i = some conn → conn.closing = false → conn.refusing = false →
      wantsRefill d.maxInFlight conn = true →
      (d.refill i).told i = d.told i ++ [min d.maxInFlight conn.maxRdy] := by
  refine ⟨fun d i count conn hi => ?_, ?_, fun d i conn => told_refill_of_negative⟩
  · rw [← (hears_negative_iff conn count d).1]
    constructor
    · rintro ⟨n, hn, ht⟩
      by_cases hh : d.Hears conn count
      · rw [told_updateRdy_of_hears hi hh] at ht
        obtain ⟨rfl⟩ := List.append_cancel_left ht
        exact ⟨hh, hn⟩
      · rw [told_updateRdy_of_not_hears hi hh] at ht
        exact absurd (congrArg List.length ht) (by simp)
    · exact fun ⟨hh, hn⟩ => ⟨_, hn, told_updateRdy_of_hears hi hh⟩
  · induction h with
    | refl => simp [told, conn?, ofSubscription]
    | @step c' env a hrun ha ih =>
      intro i before n after ht hn
      rcases (justified_step (hopes_of_reaches hrun) ha).2.line_cases ht with
        ⟨after', ht'⟩ | ⟨hold, hj⟩
      · obtain ⟨c₀, env', a', hc₀, ha', hold, hline, hcause, hc'⟩ := ih i before n after' ht' hn
        exact ⟨c₀, env', a', hc₀, ha', hold, hline, hcause, hc'.step ha⟩
      · refine ⟨c', env, a, hrun, ha, hold, ⟨after, by rw [ht]; simp⟩, ?_, .refl⟩
        exact hj.resolve_left (Int.not_le.mpr hn)

/-- The owner sets a budget below zero, and the daemon is told of it as it is. -/
theorem told_of_negative_budget :
    let c := sample.stepAll silence [.attach (sampleLink "h:1" 2500), .changeMaxInFlight (-5)]
    c.told 0 = [-5] ∧ ∃ c₀ env a, Reaches Ordinary sample c₀ ∧ Ordinary env a c₀ ∧
      c₀.told 0 = [] ∧ ((c₀.step env a).2.maxInFlight < 0 ∨
        ∃ conn, (c₀.step env a).2.conn? 0 = some conn ∧ conn.maxRdy < 0) := by
  intro c
  have ht : c.told 0 = [-5] := by decide +kernel
  have hreach : Reaches Ordinary sample c := by
    refine reaches_stepAll ⟨⟨?_, ?_, rfl⟩, ⟨trivial, trivial⟩, trivial⟩
    · exact fresh_sampleLink "h:1" 2500
    · exact fresh_sampleLink "h:1" 2500
  obtain ⟨-, hlines, -⟩ := told_negative hreach
  obtain ⟨c₀, env, a, hc₀, ha, hold, -, hcause, -⟩ := hlines 0 [] (-5) [] ht (by decide)
  exact ⟨ht, c₀, env, a, hc₀, ha, List.prefix_nil.mp hold, hcause⟩

end Nsq.Consumer
