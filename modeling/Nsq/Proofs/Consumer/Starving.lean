import Nsq.Proofs.Consumer.Ledger

/-!
# Links without credit that nobody comes back to

A grant forgets the retry that its link waits for, and where the budget refuses it, it is put off
anew if the link has no credit. Having none is taken to the letter. Messages may come over a link
beyond its credit, so that it is overdrawn, and a link that is overdrawn is neither granted anything
by a budget that the others have, nor tried again: it is left with less than nothing, and without
the retry that it may have waited for (`credit_or_retry_iff`).
-/

namespace Nsq.Consumer

variable {c : Consumer} {i : Nat} {conn : Connection} {count : Int} {s : Subscription}

/-- What becomes of a grant that the budget refuses: it is put off for a link without credit. -/
theorem updateRdy_of_refuses (hi : c.conn? i = some conn) (hc : conn.closing = false)
    (hr : c.Refuses conn count) :
    c.updateRdy i count = (.error .overMaxInFlight,
      if conn.rdy = 0 then (c.measure conn).addRetry conn.address (min count conn.maxRdy)
      else c.measure conn) := by
  have hr' : (c.measure conn).roomFor conn.rdy ≤ 0 ∧ 0 < min count conn.maxRdy := hr
  simp only [updateRdy, hi, hc, Bool.false_eq_true, if_false, if_pos hr']

/-- No retry is left for an address that was forgotten, but the one that is added. -/
theorem mem_retries_addRetry {addr : String} {n : Int} {e : String × Int} :
    e ∈ (c.addRetry addr n).retries ↔ e ∈ (c.dropRetry addr).retries ∨ e = (addr, n) := by
  rw [addRetry, List.mem_append, List.mem_singleton]

/-- **When a link without credit is looked after.** Along every run, let some credit be asked for on
an open link that has none left and whose daemon takes some. Whatever becomes of writing it, the
link has credit then or waits for a retry exactly if it is not overdrawn, or the credit of all other
links leaves something of the budget:

* if there is something left, the link has that, as far as it was asked for and its daemon takes it,
  and waits for no retry;
* if there is nothing left, the grant is refused and no link changes, and the link waits for a retry
  if it has no credit, but not if it is overdrawn. -/
theorem credit_or_retry_iff (h : Reaches Lawful (ofSubscription s) c) (hi : c.conn? i = some conn)
    (hopen : conn.closing = false) (hmax : 1 ≤ conn.maxRdy) (hnone : conn.rdy ≤ 0)
    (hcount : 1 ≤ count) :
    let left := word64 (c.maxInFlight - (c.credit - conn.rdy))
    let c' := (c.updateRdy i count).2
    ((1 ≤ c'.rdyOf i ∨ ∃ e ∈ c'.retries, e.1 = conn.address) ↔ conn.rdy = 0 ∨ 0 < left) ∧
      (0 < left → c'.rdyOf i = min left (min count conn.maxRdy) ∧
        ∀ e ∈ c'.retries, e.1 ≠ conn.address) ∧
      (left ≤ 0 → (c.updateRdy i count).1 = .error .overMaxInFlight ∧ c'.links = c.links ∧
        ∀ n, (conn.address, n) ∈ c'.retries ↔ conn.rdy = 0 ∧ n = min count conn.maxRdy) := by
  intro left c'
  have hbalanced : Balanced c := (balanced_of_reaches h).2
  have hroom : c.roomFor conn.rdy = left := roomFor_of_totalRdy hbalanced conn.rdy
  have hgranted (hleft : 0 < left) : c'.rdyOf i = min left (min count conn.maxRdy) ∧
      ∀ e ∈ c'.retries, e.1 ≠ conn.address := by
    have hyes : ¬c.Refuses conn count := by
      rintro ⟨hfew, -⟩
      omega
    have hc' : c'.conn? i = some (conn.granted (c.allotment conn count)) :=
      conn?_grant hi hopen hyes (by omega) (by omega)
    have hretries : c'.retries = (c.dropRetry conn.address).retries :=
      retries_grant hi hopen hyes
    refine ⟨?_, fun e he => ?_⟩
    · rw [rdyOf_of_conn hc', Connection.granted_rdy, allotment, hroom, if_pos hleft]
    · rw [hretries] at he
      exact (mem_dropRetry.mp he).1
  have hrefused (hleft : left ≤ 0) : (c.updateRdy i count).1 = .error .overMaxInFlight ∧
      c'.links = c.links ∧
      ∀ n, (conn.address, n) ∈ c'.retries ↔ conn.rdy = 0 ∧ n = min count conn.maxRdy := by
    have hr : c.Refuses conn count := ⟨by omega, by omega⟩
    have hforgot : ∀ n, (conn.address, n) ∉ (c.measure conn).retries := fun n hn =>
      (mem_dropRetry.mp hn).1 rfl
    simp only [c', updateRdy_of_refuses hi hopen hr]
    by_cases hzero : conn.rdy = 0
    · rw [if_pos hzero]
      refine ⟨trivial, rfl, fun n => ?_⟩
      have hagain :
          (conn.address, n) ∉ ((c.measure conn).dropRetry conn.address).retries :=
        fun hn => (mem_dropRetry.mp hn).1 rfl
      rw [mem_retries_addRetry]
      simp [hagain, hzero]
    · rw [if_neg hzero]
      exact ⟨trivial, rfl, fun n => iff_of_false (hforgot n) fun hn => hzero hn.1⟩
  refine ⟨?_, hgranted, hrefused⟩
  by_cases hleft : 0 < left
  · have hcredit := (hgranted hleft).1
    exact iff_of_true (.inl (by omega)) (.inr hleft)
  · obtain ⟨-, hlinks, hretry⟩ := hrefused (by omega)
    have hsame : c'.rdyOf i = conn.rdy := by rw [rdyOf_of_links hlinks, rdyOf_of_conn hi]
    constructor
    · rintro (hcredit | ⟨⟨addr, n⟩, he, rfl⟩)
      · omega
      · exact .inl ((hretry n).mp he).1
    · rintro (hzero | hpos)
      · exact .inr ⟨_, (hretry _).mpr ⟨hzero, rfl⟩, rfl⟩
      · omega

/-- One of two links has all of a budget of ten messages, and the other one waits to be tried again
when a message comes over it all the same. Its refill is refused then, and it waits for nothing any
more; nor does it after another grant. -/
theorem overdrawn_without_retry :
    let d := sample.stepAll silence
      [.addHandlers 1, .attach (sampleLink "h:1" 2500), .attach (sampleLink "h:2" 2500),
        .updateRdy 1 10, .refill 0]
    let c := (d.step silence (.feed 0 (sampleMessage 1))).2
    let c' := (c.updateRdy 0 5).2
    d.retries = [("h:1", 5)] ∧ c.retries = [] ∧ c.rdyOf 0 = -1 ∧ c.rdyOf 1 = 10 ∧
      ¬(1 ≤ c'.rdyOf 0 ∨ ∃ e ∈ c'.retries, e.1 = "h:1") := by
  intro d c c'
  have hreach : Reaches Lawful sample d :=
    reaches_stepAll ⟨trivial, ⟨⟨by decide +kernel, rfl, rfl, rfl, rfl, rfl, rfl, rfl, rfl⟩, rfl⟩,
      ⟨⟨by decide +kernel, rfl, rfl, rfl, rfl, rfl, rfl, rfl, rfl⟩, rfl⟩, trivial, trivial, trivial⟩
  have hlawful : Lawful silence (.feed 0 (sampleMessage 1)) d := trivial
  have hlink : (c.conn? 0).map (fun conn => (conn.address, conn.closing, conn.maxRdy, conn.rdy)) =
      some ("h:1", false, 2500, -1) := by decide +kernel
  obtain ⟨conn, hi, heq⟩ := Option.map_eq_some_iff.mp hlink
  simp only [Prod.mk.injEq] at heq
  obtain ⟨haddr, hopen, hmax, hrdy⟩ := heq
  have hasked : (1 : Int) ≤ 5 := by decide
  have hiff := (credit_or_retry_iff (hreach.step hlawful) hi hopen (by omega) (by omega) hasked).1
  have hcredit : c.credit = 9 := by decide +kernel
  have hbudget : c.maxInFlight = 10 := by decide +kernel
  rw [haddr, hrdy, hcredit, hbudget] at hiff
  exact ⟨by decide +kernel, by decide +kernel, by decide +kernel, by decide +kernel,
    fun hlooked => absurd (hiff.mp hlooked) (by decide)⟩

end Nsq.Consumer
