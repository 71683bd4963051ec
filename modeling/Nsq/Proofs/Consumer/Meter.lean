import Nsq.Proofs.Consumer.Ledger
import Mathlib.Algebra.Order.BigOperators.Group.List
import Mathlib.Algebra.Order.Group.Int

/-!
# How much credit a link can have

A message takes one off the credit of its link, and nothing else does but a new grant. So a link
never has more credit than it was granted last, and owes no more than the messages that have come
over it (`Link.Fair`). This holds of a link whose last grant was no negative number, which is so for
every link in use while the pace is reduced: on the way there all links in use are told that they
have no credit.

The numbers of the program are signed words of 64 bits. `InRange` says of a consumer that the
messages received can be counted in one and that its daemons take credits in that range; it holds
of every consumer that led to one of which it holds.
-/

namespace Nsq

/-- A link has at most the credit that it was granted last, and owes at most the messages that have
come over it. -/
def Link.Fair (l : Link) : Prop :=
  0 ≤ l.conn.lastRdy →
    -(l.heard : Int) ≤ l.conn.rdy ∧ l.conn.rdy ≤ l.conn.lastRdy ∧ l.conn.lastRdy ≤ l.conn.maxRdy

theorem Link.Opened.fair {l : Link} {policy : Connection.Policy} (h : l.Opened policy)
    (hm : 0 ≤ l.conn.maxRdy) : l.Fair := by
  intro _
  rw [h.rdy, h.lastRdy, h.heard]
  exact ⟨by simp, by simp, hm⟩

/-- A link that was just granted a credit has it. -/
theorem Link.fair_granted {l : Link} {n : Int} (hn : n ≤ l.conn.maxRdy) :
    Link.Fair { l with conn := l.conn.granted n } := by
  intro h
  have hm : (l.conn.granted n).maxRdy = l.conn.maxRdy := (Link.lent_granted n l).maxRdy
  simp only [Connection.granted_lastRdy, Connection.granted_rdy, hm] at h ⊢
  omega

namespace Consumer

/-- The consumer's own acts: links are attached when they are new, ends are reported by links
themselves, credit is granted by the consumer alone, and what it has scheduled happens when it was
scheduled. -/
def Own (_ : Surroundings) (a : Act) (c : Consumer) : Prop :=
  match a with
  | .attach link => link.Fresh c.policy
  | .retire _ | .updateRdy _ _ | .sendRdy _ _ => False
  | .retry addr count => (addr, count) ∈ c.retries
  | .resume => c.armed = true
  | _ => True

/-- The numbers of a consumer are in the range of words. -/
structure InRange (c : Consumer) : Prop where
  maxRdy : ∀ l ∈ c.links, 0 ≤ l.conn.maxRdy ∧ l.conn.maxRdy < 2 ^ 63
  received : c.received < 2 ^ 63

theorem InRange.of_grown {c c' : Consumer} (h : InRange c') (hg : Grown c c') : InRange c := by
  refine ⟨fun l hl => ?_, Nat.lt_of_le_of_lt hg.received h.received⟩
  obtain ⟨i, hi⟩ := List.mem_iff_getElem?.mp hl
  obtain ⟨l', hi', r⟩ := hg.links i l hi
  exact r.maxRdy ▸ h.maxRdy l' (List.mem_of_getElem? hi')

/-- What is known of the credit of links and of the grants to be tried again. -/
structure Metered (c : Consumer) : Prop where
  maxRdy : ∀ l ∈ c.links, 0 ≤ l.conn.maxRdy
  fair : ∀ l ∈ c.links, l.Fair
  heard : (c.links.map fun l => (l.heard : Int)).sum = c.received
  retries : ∀ e ∈ c.retries, 0 < e.2

/-- While the pace is reduced no link in use was last granted a negative credit. -/
structure Paced (c : Consumer) : Prop extends Metered c where
  granted : 0 < c.level → ∀ i ∈ c.walk, ∀ conn, c.conn? i = some conn → conn.closing = false →
    0 ≤ conn.lastRdy

/-- No link has heard more messages than all of them. -/
theorem heard_le_sum {ls : List Link} {l : Link} (hl : l ∈ ls) :
    (l.heard : Int) ≤ (ls.map fun l => (l.heard : Int)).sum := by
  have hnonneg : ∀ l' ∈ ls, (0 : Int) ≤ l'.heard := fun l' _ => Int.natCast_nonneg _
  exact List.single_le_sum (List.forall_mem_map.mpr hnonneg) _ (List.mem_map_of_mem hl)

/-- A message that comes in is heard by one link. -/
theorem sum_heard_takeIn {c : Consumer} {i : Nat} {l : Link} (hl : c.links[i]? = some l)
    (m : Message) (conn : Connection) :
    ((c.takeIn i m conn).links.map fun l => (l.heard : Int)).sum =
      (c.links.map fun l => (l.heard : Int)).sum + 1 := by
  refine (sum_map_modify (fun l => (l.heard : Int)) hl (Link.hearing conn c.serving)).trans ?_
  simp only [Link.hearing]
  omega

/-- Credit is dealt out fairly. -/
theorem Dealing.fair {c c' : Consumer} (h : Dealing c c') (hf : ∀ l ∈ c.links, l.Fair) :
    ∀ l ∈ c'.links, l.Fair := by
  refine h.invariant (I := fun d => ∀ l ∈ d.links, l.Fair) hf (fun d d' hd ht => ?_)
    fun d i conn n hd hi _ hn => ?_
  · rwa [ht.links]
  · refine forall_mem_modify hd fun l hl => ?_
    obtain rfl := conn_eq_of_links hl hi
    exact Link.fair_granted hn

namespace Metered

variable {c c' : Consumer}

theorem maxRdy_conn (h : Metered c) {i : Nat} {conn : Connection} (hi : c.conn? i = some conn) :
    0 ≤ conn.maxRdy := by
  obtain ⟨l, hl, rfl⟩ := conn?_eq_some_iff.mp hi
  exact h.maxRdy l (List.mem_of_getElem? hl)

/-- No link has heard more messages than were received. -/
theorem heard_le (h : Metered c) {l : Link} (hl : l ∈ c.links) : l.heard ≤ c.received :=
  Int.ofNat_le.mp (h.heard ▸ heard_le_sum hl)

theorem dealing (h : Metered c) (hd : Dealing c c') (hr : ∀ e ∈ c'.retries, 0 < e.2) :
    Metered c' where
  maxRdy := hd.lending.links.forall_mem (fun _ _ r hm => r.maxRdy ▸ hm) h.maxRdy
  fair := hd.fair h.fair
  heard := by
    rw [hd.lending.links.map_eq fun _ _ r => congrArg Nat.cast r.heard, hd.lending.received]
    exact h.heard
  retries := hr

theorem grant (h : Metered c) (i : Nat) (count : Int) : Metered (c.grant i count) :=
  h.dealing (dealing_grant i count c) fun e he =>
    (mem_retries_grant he).elim (h.retries e) And.left

theorem grantAll (h : Metered c) (is : List Nat) (count : Int) : Metered (c.grantAll is count) :=
  List.foldlRecOn is _ h fun _ h i _ => h.grant i count

end Metered

/-! ### While the pace is reduced -/

namespace Paced

variable {c c' : Consumer}

/-- A grant that asks for no negative credit while the pace is reduced. -/
theorem grant (h : Paced c) (i : Nat) {count : Int} (hc : 0 < c.level → 0 ≤ count) :
    Paced (c.grant i count) := by
  refine ⟨h.toMetered.grant i count, ?_⟩
  rw [(samePace_grant i count c).level, walk, (dealing_grant i count c).lending.live]
  intro hlev j hj conn' hi' hcl
  rcases conn?_of_grant hi' with hi' | ⟨rfl, conn, hi, -, -, rfl⟩
  · exact h.granted hlev j hj conn' hi' hcl
  · rw [Connection.granted_lastRdy]
    exact allotment_nonneg c (hc hlev) (h.maxRdy_conn hi)

theorem foldl {f : Consumer → Nat → Consumer} (hf : ∀ c i, Paced c → Paced (f c i)) (h : Paced c)
    (is : List Nat) : Paced (is.foldl f c) :=
  List.foldlRecOn is f h fun c h i _ => hf c i h

theorem refill (h : Paced c) (i : Nat) : Paced (c.refill i) := by
  unfold Consumer.refill
  split_ifs with hb
  · exact h
  · split
    · exact h
    · split_ifs
      · -- only at full pace are links refilled, perhaps to a negative credit
        refine h.grant i fun hlev => ?_
        simp [inBackoff, hlev] at hb
      · exact h

theorem changeMaxInFlight (h : Paced c) (n : Int) : Paced (c.changeMaxInFlight n) := by
  have ht : Paced { c with maxInFlight := n } := { h with }
  unfold Consumer.changeMaxInFlight
  split_ifs
  · exact h
  · dsimp only
    split_ifs
    · exact ht
    · exact ht.foldl (fun c i h => h.refill i) _

theorem dropRetry (h : Paced c) (addr : String) : Paced (c.dropRetry addr) :=
  { h with retries := fun e he => h.retries e (mem_dropRetry.mp he).2 }

theorem retry (h : Paced c) {addr : String} {count : Int} (he : (addr, count) ∈ c.retries) :
    Paced (c.retry addr count) := by
  unfold Consumer.retry
  split
  · exact h.grant _ fun _ => Int.le_of_lt (h.retries _ he)
  · exact h.dropRetry addr

theorem resume (h : Paced c) (chance : Nat → Nat) : Paced (c.resume chance) := by
  have ht : Paced { c with armed := false } := { h with }
  unfold Consumer.resume
  dsimp only
  split_ifs
  · exact { ht with }
  · split
    · exact { ht with }
    · rename_i i _
      have hg : Paced (Consumer.grant i 1 { c with armed := false }) :=
        ht.grant i fun _ => by decide
      rw [Consumer.grant] at hg
      split <;> rename_i heq <;> rw [heq] at hg <;> exact { hg with }

theorem reclaim (h : Paced c) (is : List Nat) : Paced (c.reclaim is) := by
  refine h.foldl (fun c i h => ?_) is
  split_ifs
  · exact h.grant i fun _ => Int.le_refl 0
  · exact h

theorem scatter (h : Paced c) (chance : Nat → Nat) (n : Nat) (is : List Nat) :
    Paced (scatter chance n is c) := by
  induction n generalizing is c with
  | zero => exact h
  | succ n ih =>
    unfold Consumer.scatter
    dsimp only
    split
    · exact h
    · exact ih (h.grant _ fun _ => by decide) _

theorem scatterUpTo (h : Paced c) (chance : Nat → Nat) (budget : Int) (is : List Nat) :
    Paced (scatterUpTo chance budget is c) :=
  scatter (c := c.check .subtract (c.spare budget)) { h with } chance _ is

theorem evenOut (h : Paced c) (is : List Nat) {share : Int} (hs : 0 ≤ share) :
    Paced (c.evenOut is share) := by
  unfold Consumer.evenOut
  have hg : ∀ c i, Paced c → Paced (c.grant i share) := fun c i h => h.grant i fun _ => hs
  exact (h.foldl hg _).foldl hg _

theorem redistribute (h : Paced c) (chance : Nat → Nat) : Paced (c.redistribute chance) := by
  have hr : Paced { c with respread := false } := { h with }
  unfold Consumer.redistribute
  split_ifs
  · exact h
  · dsimp only
    split_ifs
    · have ht : ∀ share, Paced { c with respread := false, share := share } := fun _ => { hr with }
      refine (((ht _).reclaim _).evenOut _ ?_).scatterUpTo chance _ _
      unfold evenShare
      omega
    · have ht : Paced { c with respread := false, share := 0 } := { hr with }
      exact (ht.reclaim _).scatterUpTo chance _ _
  · exact h

end Paced

/-- A link that was told that it has no credit, or shall end. -/
def Hushed (c : Consumer) (i : Nat) : Prop :=
  ∀ conn, c.conn? i = some conn → conn.closing = false → conn.lastRdy = 0

theorem hushed_grant {i j : Nat} {c : Consumer}
    (hm : ∀ conn, c.conn? j = some conn → 0 ≤ conn.maxRdy) (hj : j = i ∨ Hushed c j) :
    Hushed (c.grant i 0) j := by
  intro conn' hi' hcl
  rcases conn?_of_grant hi' with hi | ⟨rfl, conn, hi, -, -, rfl⟩
  · -- the link is as it was: another one was granted credit, or this one had none before
    rcases hj with rfl | hj
    · rcases grant_cases j 0 c with ⟨-, -, hc⟩ | ⟨conn, hi'', -, -, hl, -⟩
      · rcases hc conn' hi hcl with hr | ⟨-, hl⟩
        · exact absurd hr.2 (by omega)
        · exact hl
      · -- what was booked is what the link has now
        rw [conn?, hl, ← conn?] at hi'
        obtain rfl := Option.some.inj ((conn?_booked_self hi'' _).symm.trans hi')
        rw [Connection.granted_lastRdy, allotment_zero c (hm conn hi'')]
    · exact hj conn' hi hcl
  · rw [Connection.granted_lastRdy, allotment_zero c (hm conn hi)]

/-- All links that are walked along are told so. -/
theorem hushed_grantAll {is : List Nat} {j : Nat} {c : Consumer}
    (hm : ∀ conn, c.conn? j = some conn → 0 ≤ conn.maxRdy) (hj : j ∈ is ∨ Hushed c j) :
    Hushed (c.grantAll is 0) j := by
  induction is generalizing c with
  | nil => exact hj.elim (fun hj => absurd hj List.not_mem_nil) id
  | cons i is ih =>
    refine ih (fun conn' hconn' => ?_) ?_
    · obtain ⟨l', hl', rfl⟩ := conn?_eq_some_iff.mp hconn'
      obtain ⟨l, hl, r⟩ := (dealing_grant i 0 c).lending.links.of_get hl'
      exact r.maxRdy ▸ hm l.conn (conn?_of_links hl)
    rcases hj with hj | hj
    · rcases List.mem_cons.mp hj with rfl | hj
      · exact .inr (hushed_grant hm (.inl rfl))
      · exact .inl hj
    · exact .inr (hushed_grant hm (.inr hj))

/-- What a signal does: nothing while a pause is under way; otherwise the pace is full afterwards,
or all links in use are hushed and a pause begins. -/
theorem signal_cases {c : Consumer} (h : Metered c) (chance : Nat → Nat) (s : Signal) :
    c.inPause = true ∧ c.signal chance s = c ∨
      Metered (c.signal chance s) ∧ ((c.signal chance s).level = 0 ∨
        (c.signal chance s).armed = true ∧ ∀ i ∈ c.walk, Hushed (c.signal chance s) i) := by
  unfold signal
  split_ifs with hp
  · exact .inl ⟨hp, rfl⟩
  · right
    have ht : ∀ n, Metered { c with level := n } := fun _ => { h with }
    dsimp only
    split_ifs with hl
    · exact ⟨(ht _).grantAll _ _, .inl ((samePace_grantAll _ _ _).level.trans hl)⟩
    · exact ⟨ht _, .inl hl⟩
    · refine ⟨{ (ht _).grantAll _ _ with }, .inr ⟨rfl, fun i hi => ?_⟩⟩
      exact hushed_grantAll (fun _ hconn => (ht _).maxRdy_conn hconn) (.inl hi)

namespace Paced

variable {c c' : Consumer}

theorem signal (h : Paced c) (chance : Nat → Nat) (s : Signal) : Paced (c.signal chance s) := by
  rcases signal_cases h.toMetered chance s with ⟨-, heq⟩ | ⟨hm, hs⟩
  · rwa [heq]
  · refine ⟨hm, fun hlev i hi conn hconn hcl => ?_⟩
    rw [walk, (dealing_signal chance s c).lending.live] at hi
    rcases hs with hl | ⟨-, hs⟩
    · omega
    · rw [hs i hi conn hconn hcl]

/-- Nothing changes for the worse where links stay and the table loses entries at most. -/
theorem of_eq (h : Paced c) (hl : c'.links = c.links) (hlive : ∀ e ∈ c'.live, e ∈ c.live)
    (hr : c'.received = c.received) (hret : ∀ e ∈ c'.retries, e ∈ c.retries)
    (hlev : c'.level = c.level) : Paced c' where
  maxRdy := hl ▸ h.maxRdy
  fair := hl ▸ h.fair
  heard := by rw [hl, hr]; exact h.heard
  retries e he := h.retries e (hret e he)
  granted := by
    intro hlev' i hi conn hconn
    rw [conn?, hl, ← conn?] at hconn
    obtain ⟨e, he, rfl⟩ := List.mem_map.mp hi
    exact h.granted (hlev ▸ hlev') e.2 (List.mem_map_of_mem (hlive e he)) conn hconn

/-- A link may change as long as its credit stays. -/
theorem modifyLink (h : Paced c) {i : Nat} {f : Link → Link}
    (hf : ∀ l, c.links[i]? = some l → (f l).conn.maxRdy = l.conn.maxRdy ∧
      (f l).conn.rdy = l.conn.rdy ∧ (f l).conn.lastRdy = l.conn.lastRdy ∧ (f l).heard = l.heard ∧
      (l.conn.closing = true → (f l).conn.closing = true)) : Paced (c.modifyLink i f) where
  maxRdy := forall_mem_modify h.maxRdy fun l hl => by
    rw [(hf l hl).1]
    exact h.maxRdy l (List.mem_of_getElem? hl)
  fair := forall_mem_modify h.fair fun l hl => by
    obtain ⟨hm, hr, hlr, hh, -⟩ := hf l hl
    have hfair := h.fair l (List.mem_of_getElem? hl)
    unfold Link.Fair at hfair ⊢
    rwa [hm, hr, hlr, hh]
  heard := by
    refine Eq.trans ?_ h.heard
    cases hl : c.links[i]? with
    | none => simp only [Consumer.modifyLink, modify_of_getElem?_eq_none hl]
    | some l =>
      have hs := sum_map_modify (fun l => (l.heard : Int)) hl f
      simp only [(hf l hl).2.2.2.1, Int.sub_self, Int.add_zero] at hs
      exact hs
  retries := h.retries
  granted := by
    intro hlev j hj conn hconn hcl
    rcases conn?_modifyLink_cases hconn with hconn | ⟨rfl, l, hl, rfl⟩
    · exact h.granted hlev j hj conn hconn hcl
    · obtain ⟨-, -, hlr, -, hclo⟩ := hf l hl
      rw [hlr]
      refine h.granted hlev i hj l.conn (conn?_of_links hl) ?_
      rw [Bool.eq_false_iff]
      intro hcl'
      rw [hclo hcl'] at hcl
      exact absurd hcl (by simp)

theorem putConn (h : Paced c) {i : Nat} {conn conn' : Connection} (hi : c.conn? i = some conn)
    (hm : conn'.maxRdy = conn.maxRdy) (hr : conn'.rdy = conn.rdy)
    (hl : conn'.lastRdy = conn.lastRdy) (hc : conn.closing = true → conn'.closing = true) :
    Paced (c.putConn i conn') := by
  refine h.modifyLink fun l hl' => ?_
  obtain rfl : l.conn = conn := conn_eq_of_links hl' hi
  exact ⟨hm, hr, hl, rfl, hc⟩

/-- Booking an answer leaves credit alone. -/
theorem countAnswer (h : Paced c) (a : Answer) : Paced (c.countAnswer a) := by
  cases a <;> exact h.of_eq rfl (fun _ h => h) rfl (fun _ h => h) rfl

theorem sendAnswer (h : Paced c) (i : Nat) (m : Message) (a : Answer) :
    Paced (c.modifyConn i fun conn => (conn.sendAnswer m a).2) := by
  refine h.modifyLink fun l _ => ?_
  have hs := Connection.steady_sendAnswer m a l.conn
  exact ⟨hs.maxRdy, hs.rdy, hs.lastRdy, rfl, hs.closing⟩

theorem passAnswer (h : Paced c) (chance : Nat → Nat) (i : Nat) (m : Message) (a : Answer) :
    Paced (c.passAnswer chance i m a) := by
  refine passAnswer_invariant h ?_ ?_ ?_ ?_
  · exact fun conn hi => h.putConn hi rfl rfl rfl id
  · exact fun d hd => hd.countAnswer a
  · exact fun d hd => hd.signal chance a.signal
  · exact fun d hd => hd.sendAnswer i m a

theorem settleLink (h : Paced c) (i : Nat) : Paced (c.settleLink i) := by
  cases hi : c.conn? i with
  | none => rwa [settleLink_of_none hi]
  | some conn =>
    have hs := Connection.steady_settled conn
    rcases settleLink_cases hi with ⟨heq, -⟩ | ⟨-, -, hr⟩
    · rw [heq]
      exact h.putConn hi hs.maxRdy hs.rdy hs.lastRdy hs.closing
    · have hp : Paced (c.putConn i { conn.settled with closed := true }) :=
        h.putConn hi hs.maxRdy hs.rdy hs.lastRdy hs.closing
      have hret : ∀ e ∈ (c.settleLink i).retries, e ∈ c.retries := fun e he => (hr.retries e he).2
      refine hp.of_eq hr.links (fun e he => ?_) hr.received hret hr.level
      rw [hr.live] at he
      exact (List.mem_filter.mp he).1

theorem openLink (h : Paced c) {l : Link} (hl : l.Opened c.policy)
    (hm : InRange (c.openLink l).2) : Paced (c.openLink l).2 where
  maxRdy l' hl' := (hm.maxRdy l' hl').1
  fair l' hl' := by
    rcases List.mem_append.mp hl' with hl'' | hl''
    · exact h.fair l' hl''
    · obtain rfl := List.mem_singleton.mp hl''
      exact hl.fair (hm.maxRdy l' hl').1
  heard := by
    show ((c.links ++ [l]).map fun l => (l.heard : Int)).sum = c.received
    rw [List.map_append, List.sum_append, h.heard]
    simp [hl.heard]
  retries := h.retries
  granted := by
    intro hlev i hi conn hconn hcl
    rcases conn?_of_openLink hconn with hconn | rfl
    · exact h.granted hlev i hi conn hconn hcl
    · exact Int.le_of_eq hl.lastRdy.symm

theorem enter (h : Paced c) {i : Nat} {conn : Connection} (hi : c.conn? i = some conn)
    (hl : conn.lastRdy = 0) : Paced (c.enter conn.address i) := by
  refine { h with granted := fun hlev j hj conn' hconn hcl => ?_ }
  obtain ⟨e, he, rfl⟩ := List.mem_map.mp hj
  rcases List.mem_append.mp he with he | he
  · exact h.granted hlev e.2 (List.mem_map_of_mem (List.mem_filter.mp he).1) conn' hconn hcl
  · obtain rfl := List.mem_singleton.mp he
    obtain rfl := Option.some.inj (hi.symm.trans hconn)
    exact Int.le_of_eq hl.symm

theorem welcome (h : Paced c) {l : Link} (hl : l.Fresh c.policy) (hm : InRange (c.welcome l)) :
    Paced (c.welcome l) :=
  (h.openLink hl.toOpened ⟨hm.maxRdy, hm.received⟩).enter (conn?_openLink l c) hl.lastRdy

/-- A message takes one off the credit of its link, which stays in the range of a word. -/
theorem arrive_rdy (h : Paced c) (hr : c.received + 1 < 2 ^ 63) {i : Nat} {l : Link}
    (hl : c.links[i]? = some l) (hm : l.conn.maxRdy < 2 ^ 63) (hlr : 0 ≤ l.conn.lastRdy) :
    word64 (l.conn.rdy - 1) = l.conn.rdy - 1 := by
  have hmem := List.mem_of_getElem? hl
  have hheard := h.heard_le hmem
  obtain ⟨hlow, hhigh, hmax⟩ := h.fair l hmem hlr
  exact word64_eq_self (by omega) (by omega)

theorem takeIn (h : Paced c) {i : Nat} {conn : Connection} (hi : c.conn? i = some conn)
    (m : Message) (rest : Octets) (hr : c.received + 1 < 2 ^ 63) (hmax : conn.maxRdy < 2 ^ 63) :
    Paced (c.takeIn i m ({ conn with unread := rest } : Connection).arrive) := by
  obtain ⟨l, hl, rfl⟩ := conn?_eq_some_iff.mp hi
  have hat : ∀ l', c.links[i]? = some l' → l' = l :=
    fun l' hl' => Option.some.inj (hl'.symm.trans hl)
  refine ⟨⟨?_, ?_, ?_, h.retries⟩, ?_⟩
  · refine forall_mem_modify h.maxRdy fun l' hl' => ?_
    exact hat l' hl' ▸ h.maxRdy l' (List.mem_of_getElem? hl')
  · refine forall_mem_modify h.fair fun l' hl' => ?_
    obtain rfl := hat l' hl'
    intro hlr
    have hw := h.arrive_rdy hr hl hmax hlr
    -- one message more came over the link, and it has one credit less
    obtain ⟨hlow, hhigh, hm⟩ := h.fair l' (List.mem_of_getElem? hl) hlr
    show -((l'.heard + 1 : Nat) : Int) ≤ word64 (l'.conn.rdy - 1) ∧
      word64 (l'.conn.rdy - 1) ≤ l'.conn.lastRdy ∧ l'.conn.lastRdy ≤ l'.conn.maxRdy
    omega
  · rw [sum_heard_takeIn hl, h.heard]
    rfl
  · intro hlev j hj conn' hconn hcl
    by_cases hij : i = j
    · subst hij
      have hself := conn?_modifyLink_self hl
        (Link.hearing ({ l.conn with unread := rest } : Connection).arrive c.serving)
      obtain rfl := Option.some.inj (hself.symm.trans hconn)
      exact h.granted hlev i hj l.conn hi hcl
    · have hne := conn?_modifyLink_of_ne hij
        (Link.hearing ({ l.conn with unread := rest } : Connection).arrive c.serving) c
      exact h.granted hlev j hj conn' (hne.symm.trans hconn) hcl

end Paced

theorem paced_ofSubscription (s : Subscription) : Paced (ofSubscription s) where
  maxRdy := by simp [ofSubscription]
  fair := by simp [ofSubscription]
  heard := rfl
  retries := by simp [ofSubscription]
  granted := by simp [ofSubscription]

/-- **The consumer's own moves keep credit metered**, as long as the numbers are in range. -/
theorem Paced.move {c c' : Consumer} (h : Paced c) (hm : Move Own c c') (hr : InRange c') :
    Paced c' := by
  have hr₀ : InRange c := hr.of_grown (.move hm)
  cases hm with
  | note hn =>
    exact h.of_eq hn.links (fun _ he => hn.live ▸ he) hn.received (fun _ he => hn.retries ▸ he)
      hn.level
  | adjust hq =>
    refine h.modifyLink fun l hl => ?_
    have hs := (hq l hl).steady
    exact ⟨hs.maxRdy, hs.rdy, hs.lastRdy, (hq l hl).heard, hs.closing⟩
  | refill i => exact h.refill i
  | signal chance s => exact h.signal chance s
  | respread => exact { h with }
  | stop => exact { h with }
  | reject hl => exact h.openLink hl hr
  | join hl => exact h.welcome hl hr
  | arrive m rest hi =>
    refine h.takeIn hi m rest hr.received ?_
    obtain ⟨l, hl, rfl⟩ := conn?_eq_some_iff.mp hi
    exact (hr₀.maxRdy l (List.mem_of_getElem? hl)).2
  | bounce i m a => exact h.passAnswer _ i m a
  | take =>
    have ht : ∀ offers handed, Paced { c with offers := offers, handed := handed } :=
      fun _ _ => { h with }
    exact (ht _ _).modifyLink fun l _ => ⟨rfl, rfl, rfl, rfl, id⟩
  | answer a =>
    have ht : ∀ n s, Paced (c.putState n s) := fun _ _ => { h with }
    exact (ht _ _).passAnswer _ _ _ a
  | settle i => exact h.settleLink i
  | @direct env a hok ha =>
    cases a with
    | attach link => exact h.welcome hok hr
    | retry addr count => exact h.retry hok
    | resume => exact h.resume env.chance
    | redistribute => exact h.redistribute env.chance
    | changeMaxInFlight n => exact h.changeMaxInFlight n
    | retire i => exact absurd hok id
    | updateRdy i count => exact absurd hok id
    | sendRdy i count => exact absurd hok id
    | _ => simp [Act.isDirect] at ha

/-! ### Runs -/

theorem lawful_of_own {env : Surroundings} {a : Act} {c : Consumer} (h : Own env a c) :
    Lawful env a c := by
  cases a with
  | sendRdy i count => exact absurd h id
  | attach link => exact h
  | retire i => exact h
  | _ => trivial

/-- What is known of a consumer that acts on its own: order, a balanced ledger, and metered credit
as long as the numbers are in range. -/
structure Known (c : Consumer) : Prop where
  orderly : Orderly c
  balanced : Balanced c
  paced : InRange c → Paced c

theorem Known.move {c c' : Consumer} (h : Known c) (hm : Move Own c c') : Known c' where
  orderly := h.orderly.move hm (fun _ _ _ hok => hok) fun _ _ _ hok => hok
  balanced := h.balanced.move h.orderly (hm.mono fun _ _ _ => lawful_of_own)
  paced hr := (h.paced (hr.of_grown (.move hm))).move hm hr

theorem known_of_reaches {s : Subscription} {c : Consumer} (h : Reaches Own (ofSubscription s) c) :
    Known c :=
  h.invariant (fun _ _ => Known.move)
    ⟨orderly_ofSubscription s, rfl, fun _ => paced_ofSubscription s⟩

theorem grown_step {env : Surroundings} {a : Act} (c : Consumer) : Grown c (c.step env a).2 := by
  have hm : Moves (fun _ _ _ => True) c (c.step env a).2 := step_moves trivial
  exact moves_invariant hm (fun _ _ h hm => h.trans (.move hm)) (.refl c)

end Consumer

end Nsq
