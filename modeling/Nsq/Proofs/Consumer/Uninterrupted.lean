import Nsq.Consumer.Underway
import Nsq.Proofs.Consumer.Links
import Mathlib.Tactic.SplitIfs

/-!
# Steps are turns

Operations that are not interrupted are what a consumer does in one step: `leads_step` takes a step
apart into turns, each phase of a connection, an end or a stop right behind the one before it.
-/

namespace Nsq.Consumer

open Underway

variable {c c' c'' : Consumer}

/-- Turns lead from one consumer to another, and nothing is under way before and behind them. -/
def Leads (c c' : Consumer) : Prop :=
  ∀ history, ∃ ts history',
    run ts { consumer := c, history } = { consumer := c', history := history' }

namespace Leads

theorem refl (c : Consumer) : Leads c c := fun history => ⟨[], history, rfl⟩

theorem trans (h : Leads c c') (h' : Leads c' c'') : Leads c c'' := by
  intro history
  obtain ⟨ts, history', hts⟩ := h history
  obtain ⟨ts', history'', hts'⟩ := h' history'
  refine ⟨ts ++ ts', history'', ?_⟩
  rw [← hts', ← hts]
  exact List.foldl_append

instance : Trans Leads Leads Leads := ⟨trans⟩

theorem single (t : Underway.Turn) (h : ∀ history, (Underway.turn t { consumer := c, history }) =
    { consumer := c', history }) : Leads c c' :=
  fun history => ⟨[t], history, h history⟩

theorem of_run (ts : List Underway.Turn)
    (h : ∀ history, let s := run ts { consumer := c, history }
      s.consumer = c' ∧ s.attempts = [] ∧ s.reports = [] ∧ s.looking = false) : Leads c c' := by
  intro history
  obtain ⟨hc, ha, hr, hl⟩ := h history
  refine ⟨ts, (run ts { consumer := c, history }).history, ?_⟩
  rw [← hc]
  generalize run ts { consumer := c, history } = s at ha hr hl
  cases s
  simp_all

theorem foldl {α : Type} {f : Consumer → α → Consumer} (hf : ∀ c a, Leads c (f c a)) (as : List α)
    (c : Consumer) : Leads c (as.foldl f c) :=
  List.foldlRecOn (motive := Leads c) as _ (.refl c) fun d hd a _ => hd.trans (hf d a)

end Leads

/-! ### Connecting -/

theorem leads_connect (env : Surroundings) (addr : String) (c : Consumer) :
    Leads c (c.connect env addr).2 := by
  unfold connect
  rcases hdown : c.takeDown addr with ⟨_ | _, d⟩ <;> dsimp only
  · exact .single (.takeDown addr) fun history => by
      simp [Underway.turn, Underway.takeDown, hdown, put]
  rcases hdial : env.dial addr with f | dialed <;> dsimp only
  · intro history
    refine ⟨[.takeDown addr, .dial 0 (.error f)], history, ?_⟩
    simp [run, Underway.turn, Underway.takeDown, dial, Underway.giveUp, hdown, put]
  rcases hopen : d.openLink (d.linkTo addr dialed) with ⟨i, e⟩
  dsimp only
  rcases hsub : e.subscribe i with ⟨_ | _, e'⟩ <;> dsimp only
  · intro history
    refine ⟨[.takeDown addr, .dial 0 (.ok dialed), .subscribe 0], history, ?_⟩
    simp [run, Underway.turn, Underway.takeDown, dial, Underway.subscribe, Underway.giveUp, hdown,
      hopen, hsub, put]
  · intro history
    refine ⟨[.takeDown addr, .dial 0 (.ok dialed), .subscribe 0, .enter 0],
      history ++ [.entered i], ?_⟩
    simp [run, Underway.turn, Underway.takeDown, dial, Underway.subscribe, Underway.enter, hdown,
      hopen, hsub, put]

theorem leads_connectAll (env : Surroundings) (addrs : List String) (c : Consumer) :
    Leads c (c.connectAll env addrs).2 := by
  induction addrs generalizing c with
  | nil => exact .refl c
  | cons addr addrs ih =>
    have hc := leads_connect env addr c
    unfold connectAll
    split <;> rename_i heq <;> rw [heq] at hc
    · exact hc.trans (ih _)
    · exact hc

theorem leads_locate (w : Whereabouts) (c : Consumer) : Leads c (c.locate w) :=
  .single (.locate w) fun _ => rfl

/-- What a consumer knows of where its daemons are. -/
def whereabouts (c : Consumer) : Whereabouts :=
  ⟨c.daemons, c.lookups, c.turn, c.recheck, c.reconnects, false⟩

theorem leads_reconnects (addrs : List String) (c : Consumer) :
    Leads c { c with reconnects := addrs } := by
  have h := leads_locate { c.whereabouts with reconnects := addrs } c
  simpa [locate, whereabouts] using h

theorem leads_reconnect (env : Surroundings) (addr : String) (c : Consumer) :
    Leads c (c.reconnect env addr) := by
  have hgone := leads_reconnects (c.reconnects.erase addr) c
  have hc := hgone.trans (leads_connect env addr _)
  unfold reconnect
  split_ifs
  · exact hgone
  · dsimp only
    split <;> rename_i heq <;> rw [heq] at hc
    · exact hc
    · exact hc
    · exact hc.trans (leads_reconnects _ _)
  · exact .refl c

theorem leads_connectFound (env : Surroundings) (a : Lookup.Answer) (c : Consumer) :
    Leads c (c.connectFound env a) :=
  .foldl (fun c addr => leads_connect env addr c) _ c

/-- Where nothing is under way, there is nothing to be called off. -/
theorem leads_disconnect (addr : String) (c : Consumer) : Leads c (c.disconnect addr).2 :=
  .single (.disconnect addr) fun history => by
    simp [Underway.turn, Underway.disconnect, put]

/-! ### Lookup services -/

theorem leads_nextLookup (c : Consumer) : Leads c c.nextLookup.2 := by
  unfold nextLookup
  split
  · exact .refl c
  · have h := leads_locate { c.whereabouts with turn := c.turn + 1 } c
    simpa [locate, whereabouts] using h

theorem leads_askLookups (env : Surroundings) (n : Nat) (c : Consumer) :
    Leads c (c.askLookups env n) := by
  induction n generalizing c with
  | zero => exact .refl c
  | succ n ih =>
    have hn := leads_nextLookup c
    unfold askLookups
    split <;> rename_i heq <;> rw [heq] at hn
    · exact hn
    · split
      · exact hn.trans (leads_connectFound env _ _)
      · exact hn.trans (ih _)

theorem leads_addLookup (env : Surroundings) (addr : String) (c : Consumer) :
    Leads c (c.addLookup env addr).2 := by
  have hn : ∀ ls : List String, Leads c { c with connected := true, lookups := ls } := fun ls => by
    have h := leads_locate { c.whereabouts with lookups := ls, connected := true } c
    simpa [locate, whereabouts] using h
  unfold addLookup
  split_ifs
  · exact .refl c
  · exact .refl c
  · split
    · exact .refl c
    · dsimp only
      split_ifs
      · exact hn c.lookups
      · exact (hn (c.lookups ++ [addr])).trans (leads_askLookups env lookupAttempts _)
      · exact hn (c.lookups ++ [addr])

theorem leads_addLookups (env : Surroundings) (addrs : List String) (c : Consumer) :
    Leads c (c.addLookups env addrs).2 := by
  induction addrs generalizing c with
  | nil => exact .refl c
  | cons addr addrs ih =>
    have hc := leads_addLookup env addr c
    unfold addLookups
    split <;> rename_i heq <;> rw [heq] at hc
    · exact hc.trans (ih _)
    · exact hc

/-! ### Messages -/

theorem leads_readLink {chance : Nat → Nat} {i : Nat} (h : c.readLink chance i = some c') :
    Leads c c' :=
  .single (.read chance i) fun history => by simp [Underway.turn, put, h]

theorem leads_work? {chance : Nat → Nat} (h : c.work? chance = some c') : Leads c c' := by
  have hread : ∀ is : List Nat, (is.findSome? fun i => c.readLink chance i) = some c' →
      Leads c c' := by
    intro is his
    obtain ⟨i, -, hi⟩ := List.exists_of_findSome?_eq_some his
    exact leads_readLink hi
  unfold work? at h
  split at h
  · rename_i o rest ho
    split_ifs at h with hf
    · exact .single (.take chance) fun history => by
        simp [Underway.turn, Underway.take, ho, hf, put, Option.some.inj h]
    · exact hread _ h
  · exact hread _ h

theorem leads_work (chance : Nat → Nat) (c : Consumer) : Leads c (c.work chance) := by
  unfold work
  generalize c.load = fuel
  induction fuel generalizing c with
  | zero => exact .refl c
  | succ fuel ih =>
    unfold workFor
    split
    · exact .refl c
    · rename_i c' h
      exact (leads_work? h).trans (ih c')

/-! ### Ends -/

/-- The report of an end takes the link out of the table first, and then looks whether a stop was
asked for. -/
theorem retire_eq {i : Nat} {conn : Connection} (h : c.conn? i = some conn) :
    c.retire i =
      let d := c.unlink i conn
      if d.stopping then if d.live.isEmpty then d.stopServing else d
      else d.seekAgain conn.address := by
  unfold retire
  rw [h]
  rfl

theorem leads_settleLink (i : Nat) (c : Consumer) : Leads c (c.settleLink i) := by
  unfold settleLink
  cases hi : c.conn? i with
  | none => exact .refl c
  | some conn =>
    dsimp only
    split_ifs with he
    · exact .single (.settle i) fun history => by simp [Underway.turn, Underway.settle, hi, he, put]
    · rw [retire_eq (conn?_putConn_self hi conn.settle.2)]
      refine .of_run [.settle i, .conclude 0] fun history => ?_
      simp only [run, List.foldl_cons, List.foldl_nil, Underway.turn, Underway.settle, hi, he,
        Bool.false_eq_true, if_false, conclude, put]
      generalize (c.putConn i conn.settle.2).unlink i conn.settle.2 = d
      cases d.stopping <;> cases hl : d.live <;> simp [hl, Underway.stopServing]

/-- The consumer when so many handlers are left. -/
def remaining (n : Nat) (c : Consumer) : Consumer :=
  if n = 0 then { c with handlers := 0 }.exit else { c with handlers := n }

theorem leaves_iff : c.leaves = true ↔ c.serving = false ∧ c.offers = [] ∧ 0 < c.freeHandlers := by
  simp [leaves, and_assoc]

theorem dismiss_of_not_leaves (h : c.leaves = false) : c.dismiss = c := by
  unfold dismiss
  split_ifs with hw
  · rfl
  · have hfree : c.freeHandlers = 0 := by
      simp only [Bool.or_eq_true, Bool.not_eq_true', not_or, Bool.not_eq_true, Bool.not_eq_false,
        List.isEmpty_iff] at hw
      simpa [leaves, hw.1, hw.2] using h
    simp [hfree]

theorem dismiss_of_leaves (h : c.leaves = true) :
    c.dismiss = c.remaining (c.handlers - c.freeHandlers) := by
  obtain ⟨hs, ho, hfree⟩ := leaves_iff.mp h
  unfold dismiss remaining
  simp [hs, ho, hfree]

theorem leave_of_leaves (h : c.leaves = true) : c.leave = c.remaining (c.handlers - 1) := by
  unfold leave remaining
  rw [if_pos h]
  dsimp only
  split_ifs with hz
  · rw [hz]
  · rfl

theorem freeHandlers_remaining (n : Nat) (c : Consumer) :
    (c.remaining n).freeHandlers = n - c.lost - c.busy.length := by
  unfold remaining
  split_ifs with hz
  · rw [hz]
    rfl
  · rfl

/-- Handlers may as well leave one by one. -/
theorem dismiss_leave (h : c.leaves = true) : c.leave.dismiss = c.dismiss := by
  obtain ⟨hs, ho, hfree⟩ := leaves_iff.mp h
  have hfewer : (c.remaining (c.handlers - 1)).freeHandlers = c.freeHandlers - 1 := by
    rw [freeHandlers_remaining, freeHandlers]
    omega
  rw [leave_of_leaves h, dismiss_of_leaves h]
  by_cases hlast : c.freeHandlers = 1
  · have hno : (c.remaining (c.handlers - 1)).leaves = false := by
      rw [Bool.eq_false_iff, Ne, leaves_iff, hfewer, hlast]
      exact fun hl => absurd hl.2.2 (Nat.lt_irrefl 0)
    rw [dismiss_of_not_leaves hno, hlast]
  · have hmany : c.handlers - 1 ≠ 0 := by
      simp only [freeHandlers] at hfree hlast
      omega
    have heq : c.remaining (c.handlers - 1) = { c with handlers := c.handlers - 1 } := if_neg hmany
    have hl : (c.remaining (c.handlers - 1)).leaves = true := by
      rw [leaves_iff, hfewer, heq]
      exact ⟨hs, ho, by omega⟩
    have hrest : c.handlers - 1 - (c.freeHandlers - 1) = c.handlers - c.freeHandlers := by omega
    rw [dismiss_of_leaves hl, hfewer, heq]
    show ({ c with handlers := c.handlers - 1 } : Consumer).remaining
      (c.handlers - 1 - (c.freeHandlers - 1)) = _
    rw [hrest]
    rfl

theorem leads_dismiss (c : Consumer) : Leads c c.dismiss := by
  induction hn : c.freeHandlers generalizing c with
  | zero =>
    rw [dismiss_of_not_leaves (by simp [leaves, hn])]
    exact .refl c
  | succ n ih =>
    cases hl : c.leaves with
    | false =>
      rw [dismiss_of_not_leaves hl]
      exact .refl c
    | true =>
      rw [← dismiss_leave hl]
      have hleave : Leads c c.leave := .single .leave fun _ => rfl
      refine hleave.trans (ih _ ?_)
      rw [leave_of_leaves hl, freeHandlers_remaining]
      simp only [freeHandlers] at hn
      omega

theorem leads_stop (c : Consumer) : Leads c c.stop := by
  unfold stop
  split_ifs with hs
  · exact .refl c
  · refine .of_run [.stop, .look] fun history => ?_
    cases hl : c.live <;>
      simp [run, Underway.turn, Underway.stop, look, hs, hl, put, Underway.stopServing]

/-- **A step is a run of turns**, unless a link is attached or reported by hand. -/
theorem leads_step (env : Surroundings) {a : Act} (ha : ∀ l, a ≠ .attach l)
    (ha' : ∀ i, a ≠ .retire i) (c : Consumer) : Leads c (c.step env a).2 := by
  have hact : Leads c (c.act env a).2 := by
    have hbrief : a.isBrief = true → Leads c (c.act env a).2 := fun hb =>
      .single (.act env a) fun history => by simp [Underway.turn, hb, put]
    cases a with
    | attach l => exact absurd rfl (ha l)
    | retire i => exact absurd rfl (ha' i)
    | connect addrs => exact leads_connectAll env addrs c
    | disconnect addr => exact leads_disconnect addr c
    | reconnect addr => exact leads_reconnect env addr c
    | addLookups addrs => exact leads_addLookups env addrs c
    | lookUp => exact leads_askLookups env lookupAttempts c
    | found answer => exact leads_connectFound env answer c
    | stop => exact leads_stop c
    | _ => exact hbrief rfl
  calc
    Leads c (c.act env a).2 := hact
    Leads _ _ := leads_work env.chance _
    Leads _ _ := .foldl (fun d i => leads_settleLink i d) _ _
    Leads _ (c.step env a).2 := leads_dismiss _

end Nsq.Consumer
