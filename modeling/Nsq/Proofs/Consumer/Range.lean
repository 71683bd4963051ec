import Nsq.Proofs.Consumer.Level
import Nsq.Proofs.Consumer.Portions
import Nsq.Proofs.Consumer.Signs
import Nsq.Proofs.Consumer.Sums

/-!
# The range of words

The sums by which credit is counted are not checked. This file says which of them stay in the range
of a signed word of 64 bits, for budgets that a configuration may have and daemons that take less
than `2 ^ 32` messages, in every state that is reached early enough (`Counts`, `Early`).

All links together never hold as much credit as a word can show, and owe no more than the messages
that have come. So there is one way out of the range (`evaluated_fits`): the budget is close to the
greatest word, and links that are overdrawn make what it leaves to the others greater still. It
comes out negative then, and a grant is refused for which there was all the room
(`refused_of_overdrawn`).
-/

namespace Nsq

/-! ### Links -/

/-- A daemon that takes no negative credit was granted none last. -/
def Link.Sober (l : Link) : Prop := 0 ≤ l.conn.maxRdy → 0 ≤ l.conn.lastRdy

theorem Link.sober_granted {l : Link} {n : Int} (hn : 0 ≤ l.conn.maxRdy → 0 ≤ n) :
    Link.Sober { l with conn := l.conn.granted n } := by
  intro hm
  rw [(Link.lent_granted n l).maxRdy] at hm
  simpa using hn hm

theorem Link.Untold.sober {l l' : Link} (h : l.Untold l') (hl : l.Sober) : l'.Sober := by
  intro hm
  rw [h.lastRdy]
  exact hl (h.maxRdy ▸ hm)

/-- The greatest credit of a link that holds a grant, for daemons that take less than `2 ^ 32`
messages. -/
def Link.cap (l : Link) : Int := if l.conn.lastRdy = 0 then 0 else 2 ^ 32 - 1

/-- A link whose end was not reported holds no more than it was granted last, and owes no more than
the messages that have come over it. -/
theorem Link.Fair.owed {l : Link} (h : l.Fair) (hs : l.Sober) (hm : 0 ≤ l.conn.maxRdy)
    (hm' : l.conn.maxRdy < 2 ^ 32) : -(l.heard : Int) ≤ l.owed ∧ l.owed ≤ l.cap := by
  have hlast := hs hm
  have hfair := h hlast
  unfold Link.owed Link.cap
  split_ifs <;> omega

namespace Consumer

variable {c c' : Consumer} {s : Subscription} {t : Figure} {x : Int}

/-! ### Budgets that a configuration may have -/

/-- Acts of the consumer's own, by which the budget stays one that a configuration may have. -/
def Moderate (env : Surroundings) (a : Act) (c : Consumer) : Prop :=
  Own env a c ∧ ∀ n, a = .changeMaxInFlight n → 0 ≤ n ∧ n < 2 ^ 63

/-- A configuration may have the budget, and nothing is granted, or put off, that is negative. -/
structure Modest (c : Consumer) : Prop where
  budget : 0 ≤ c.maxInFlight
  budget_lt : c.maxInFlight < 2 ^ 63
  hopes : Hopes c
  sober : ∀ l ∈ c.links, l.Sober

namespace Modest

theorem of_links (h : Modest c) (hm : c'.maxInFlight = c.maxInFlight)
    (hr : c'.retries = c.retries) (hl : c'.links = c.links) : Modest c' :=
  ⟨hm ▸ h.budget, hm ▸ h.budget_lt, fun e he => h.hopes e (hr ▸ he), hl ▸ h.sober⟩

theorem setBudget (h : Modest c) {n : Int} (h0 : 0 ≤ n) (hn : n < 2 ^ 63) :
    Modest { c with maxInFlight := n } :=
  ⟨h0, hn, h.hopes, h.sober⟩

/-- A budget that is no negative number is shared out in parts that are none either. -/
theorem sharing (h : Modest c) (hs : Sharing c c') : Modest c' := by
  refine ⟨hs.maxInFlight ▸ h.budget, hs.maxInFlight ▸ h.budget_lt, hs.hopes h.hopes, ?_⟩
  induction hs with
  | refl => exact h.sober
  | @ask d i count _ hn ih =>
    have hcount : 0 ≤ count := hn.resolve_right (Int.not_lt.mpr h.budget)
    refine updateRdy_invariant (I := fun d => ∀ l ∈ d.links, l.Sober) ih ?_ ?_
    · intro d' hd ht
      rwa [ht.links]
    · intro d' conn hd hi _ _
      refine forall_mem_modify hd fun l hl => ?_
      obtain rfl := conn_eq_of_links hl hi
      exact Link.sober_granted (allotment_nonneg d' hcount)
  | tune _ ht ih => rwa [ht.links]

theorem still (h : Modest c) (hs : Still c c') : Modest c' where
  budget := hs.maxInFlight ▸ h.budget
  budget_lt := hs.maxInFlight ▸ h.budget_lt
  hopes e he := h.hopes e (hs.retries e he)
  sober := hs.links.forall_mem (fun _ _ r => r.sober) (fun _ hs _ => hs.lastRdy.ge) h.sober

theorem stirs (h : Modest c) (hs : Stirs c c') : Modest c' := by
  induction hs with
  | refl => exact h
  | tail _ hs ih =>
    cases hs with
    | refill i => exact ih.sharing (sharing_refill i _)
    | signal chance sig => exact ih.sharing (sharing_signal chance sig _)
    | still hs => exact ih.still hs

/-- A link that enters the table was granted nothing yet. -/
theorem welcome (h : Modest c) {l : Link} (hl : l.Fresh c.policy) : Modest (c.welcome l) := by
  refine ⟨h.budget, h.budget_lt, h.hopes, fun l' hl' => ?_⟩
  rcases List.mem_append.mp hl' with hl' | hl'
  · exact h.sober l' hl'
  · obtain rfl := List.mem_singleton.mp hl'
    exact fun _ => hl.lastRdy.ge

theorem move (h : Modest c) (hm : Move Moderate c c') : Modest c' := by
  rcases hm.stirs_or_direct with hs | ⟨env, a, ⟨hown, hbudget⟩, ha, rfl⟩
  · exact h.stirs hs
  cases a with
  | attach link => exact h.welcome hown
  | retry addr count => exact h.sharing (sharing_retry (Int.le_of_lt (h.hopes _ hown)))
  | resume => exact h.sharing (sharing_resume env.chance c)
  | redistribute => exact h.sharing (sharing_redistribute env.chance c)
  | changeMaxInFlight n =>
    obtain ⟨h0, hn⟩ := hbudget n rfl
    exact (h.setBudget h0 hn).sharing (sharing_changeMaxInFlight n c)
  | retire i => exact absurd hown id
  | updateRdy i count => exact absurd hown id
  | sendRdy i count => exact absurd hown id
  | _ => simp [Act.isDirect] at ha

end Modest

/-! ### States in which credit is counted -/

/-- The states in which sums may be evaluated: between two moves of a run, in the middle of sharing
the budget out, when the budget has just been set, or when an answer of a handler has just been
booked from which a signal comes. The table may be walked in another order each time. -/
inductive Counts (s : Subscription) : Consumer → Prop
  | start (hv : s.config.validate = .ok ()) : Counts s (ofSubscription s)
  | move {c c' : Consumer} (h : Counts s c) (hm : Move Moderate c c') : Counts s c'
  | share {c c' : Consumer} (h : Counts s c) (hs : Sharing c c') : Counts s c'
  | budget {c : Consumer} (h : Counts s c) {n : Int} (h0 : 0 ≤ n) (hn : n < 2 ^ 63) :
      Counts s { c with maxInFlight := n }
  | answered {c : Consumer} {i : Nat} {conn : Connection} (h : Counts s c) (n : Nat)
      (st : Answered) (hi : c.conn? i = some conn) (a : Answer) :
      Counts s (((c.putState n st).putConn i conn.countAnswer).countAnswer a)
  | reorder {c : Consumer} {live : List (String × Nat)} (h : Counts s c)
      (hp : live.Perm c.live) : Counts s { c with live := live }

theorem Reaches.counts (hv : s.config.validate = .ok ())
    (h : Reaches Moderate (ofSubscription s) c) : Counts s c :=
  h.invariant (fun _ _ => Counts.move) (.start hv)

/-- What is known of a consumer in such a state. -/
structure Sound (c : Consumer) : Prop where
  orderly : Orderly c
  balanced : Balanced c
  modest : Modest c
  metered : InRange c → Metered c

namespace Sound

/-- Nothing negative was granted at any pace. -/
theorem paced (h : Sound c) (hr : InRange c) : Paced c := by
  refine ⟨h.metered hr, fun _ i _ conn hi _ => ?_⟩
  obtain ⟨l, hl, rfl⟩ := conn?_eq_some_iff.mp hi
  have hmem := List.mem_of_getElem? hl
  exact h.modest.sober l hmem (hr.maxRdy l hmem).1

theorem move (h : Sound c) (hm : Move Moderate c c') : Sound c' := by
  have hown : Move Own c c' := hm.mono fun _ _ _ => And.left
  exact {
    orderly := h.orderly.move hown (fun _ _ _ => id) fun _ _ _ => id
    balanced := h.balanced.move h.orderly (hown.mono fun _ _ _ => lawful_of_own)
    modest := h.modest.move hm
    metered := fun hr => ((h.paced (hr.of_grown (.move hm))).move hown hr).toMetered }

theorem share (h : Sound c) (hs : Sharing c c') : Sound c' where
  orderly := h.orderly.lending hs.dealing.lending
  balanced := h.balanced.dealing h.orderly hs.dealing
  modest := h.modest.sharing hs
  metered hr := (h.metered (hr.of_grown (.lending hs.dealing.lending))).dealing hs.dealing
    (h.modest.sharing hs).hopes

theorem budget (h : Sound c) {n : Int} (h0 : 0 ≤ n) (hn : n < 2 ^ 63) :
    Sound { c with maxInFlight := n } where
  orderly := ⟨h.orderly.tidy, h.orderly.listed⟩
  balanced := h.balanced.of_eq rfl rfl
  modest := h.modest.setBudget h0 hn
  metered hr := { h.metered ⟨hr.maxRdy, hr.received⟩ with }

/-- What concerns neither credit nor budget does not matter, nor does the order of the table. -/
theorem of_links (h : Sound c) (hl : c'.links = c.links) (hlive : ∀ e ∈ c'.live, e ∈ c.live)
    (ht : c'.totalRdy = c.totalRdy) (hm : c'.maxInFlight = c.maxInFlight)
    (hrec : c'.received = c.received) (hret : c'.retries = c.retries) : Sound c' where
  orderly := by
    refine ⟨hl ▸ h.orderly.tidy, fun e he => ?_⟩
    rw [conn?, hl]
    exact h.orderly.listed e (hlive e he)
  balanced := h.balanced.of_eq ht hl
  modest := h.modest.of_links hm hret hl
  metered hr := by
    have hmet := h.metered ⟨hl ▸ hr.maxRdy, hrec ▸ hr.received⟩
    refine ⟨hl ▸ hmet.maxRdy, hl ▸ hmet.fair, ?_, fun e he => hmet.retries e (hret ▸ he)⟩
    rw [hl, hrec]
    exact hmet.heard

/-- Neither the state of a message nor the count of its answer concerns credit. -/
theorem answered (h : Sound c) {i : Nat} {conn : Connection} (n : Nat) (st : Answered)
    (hi : c.conn? i = some conn) (a : Answer) :
    Sound (((c.putState n st).putConn i conn.countAnswer).countAnswer a) := by
  have hstate : Sound (c.putState n st) := h.of_links rfl (fun _ => id) rfl rfl rfl rfl
  have hi' : (c.putState n st).conn? i = some conn := hi
  have hput : Sound ((c.putState n st).putConn i conn.countAnswer) := by
    refine ⟨hstate.orderly.putConn hi' Connection.Tidy.countAnswer rfl rfl,
      hstate.balanced.putConn hi' rfl rfl, hstate.modest.still (.modifyLink fun l hl => ?_),
      fun hr => ?_⟩
    · obtain rfl := conn_eq_of_links hl hi'
      exact ⟨rfl, rfl, rfl, rfl, id⟩
    · have hr' : InRange (c.putState n st) := hr.of_grown (.putConn hi' rfl rfl id)
      have hp : Paced ((c.putState n st).putConn i conn.countAnswer) :=
        (hstate.paced hr').putConn hi' rfl rfl rfl id
      exact hp.toMetered
  cases a <;> exact hput.of_links rfl (fun _ => id) rfl rfl rfl rfl

end Sound

theorem Counts.sound (h : Counts s c) : Sound c := by
  induction h with
  | start hv =>
    obtain ⟨h0, hlt⟩ := Config.maxInFlight_of_validate hv
    exact ⟨orderly_ofSubscription s, rfl, ⟨h0, hlt, by simp [Hopes, ofSubscription],
      by simp [ofSubscription]⟩, fun _ => (paced_ofSubscription s).toMetered⟩
  | move _ hm ih => exact ih.move hm
  | share _ hs ih => exact ih.share hs
  | budget _ h0 hn ih => exact ih.budget h0 hn
  | answered _ n st hi a ih => exact ih.answered n st hi a
  | reorder _ hp ih => exact ih.of_links rfl (fun _ => hp.mem_iff.mp) rfl rfl rfl rfl

/-! ### Bounds on the credit -/

/-- The links that hold a grant. -/
def grants (c : Consumer) : Nat := c.links.countP fun l => l.conn.lastRdy != 0

/-- Daemons take less than `2 ^ 32` messages, and less than `2 ^ 32` steps led here: each message
that has come took one, each link that was opened, and each grant that a link holds. -/
structure Early (c : Consumer) : Prop where
  maxRdy : ∀ l ∈ c.links, 0 ≤ l.conn.maxRdy ∧ l.conn.maxRdy < 2 ^ 32
  steps : c.received + c.links.length + c.grants < 2 ^ 32

/-- What all links have overdrawn: the messages that came beyond their credit. -/
def arrears (c : Consumer) : Int := (c.links.map fun l => max 0 (-l.owed)).sum

theorem Early.inRange (h : Early c) : InRange c := by
  have hsteps := h.steps
  refine ⟨fun l hl => ?_, by omega⟩
  have hm := h.maxRdy l hl
  omega

theorem grants_le (c : Consumer) : c.grants ≤ c.links.length := List.countP_le_length

theorem sum_map_cap (ls : List Link) :
    (ls.map Link.cap).sum = (ls.countP fun l => l.conn.lastRdy != 0) * (2 ^ 32 - 1) := by
  induction ls with
  | nil => rfl
  | cons l ls ih =>
    rw [List.map_cons, List.sum_cons, ih, List.countP_cons, Link.cap]
    split_ifs with h <;> simp_all
    omega

namespace Sound

theorem owed (h : Sound c) (he : Early c) {l : Link} (hl : l ∈ c.links) :
    -(l.heard : Int) ≤ l.owed ∧ l.owed ≤ l.cap :=
  ((h.metered he.inRange).fair l hl).owed (h.modest.sober l hl) (he.maxRdy l hl).1
    (he.maxRdy l hl).2

/-- All links together owe no more than the messages that have come, and hold no more than as many
grants as there are. -/
theorem credit_bounds (h : Sound c) (he : Early c) :
    -(c.received : Int) ≤ c.credit ∧ c.credit ≤ c.grants * (2 ^ 32 - 1) := by
  have hlow : (c.links.map fun l => -(l.heard : Int)).sum ≤ c.credit :=
    List.sum_le_sum fun l hl => (h.owed he hl).1
  have hhigh : c.credit ≤ (c.links.map Link.cap).sum :=
    List.sum_le_sum fun l hl => (h.owed he hl).2
  have hneg := List.sum_neg (c.links.map fun l => (l.heard : Int))
  rw [List.map_map, (h.metered he.inRange).heard] at hneg
  rw [sum_map_cap] at hhigh
  exact ⟨by rw [hneg]; exact hlow, hhigh⟩

theorem totalRdy_eq (h : Sound c) (he : Early c) : c.totalRdy = c.credit := by
  have hbounds := h.credit_bounds he
  have hsteps := he.steps
  have hle := c.grants_le
  exact h.balanced.trans (word64_eq_self (by omega) (by omega))

theorem arrears_le (h : Sound c) (he : Early c) : c.arrears ≤ c.received := by
  rw [← (h.metered he.inRange).heard]
  refine List.sum_le_sum fun l hl => ?_
  have howed := h.owed he hl
  omega

end Sound

theorem neg_credit_eq (c : Consumer) : -c.credit = (c.links.map fun l => -l.owed).sum := by
  rw [credit, List.sum_neg, List.map_map]
  rfl

theorem neg_credit_le_arrears (c : Consumer) : -c.credit ≤ c.arrears := by
  rw [neg_credit_eq]
  exact List.sum_le_sum fun l _ => Int.le_max_right 0 (-l.owed)

/-- The links other than one have overdrawn no more than all of them. -/
theorem neg_others_le_arrears {l : Link} (hl : l ∈ c.links) : l.owed - c.credit ≤ c.arrears := by
  have hle := sum_map_sub_le (f := fun l => -l.owed) (g := fun l => max 0 (-l.owed)) hl
    fun l _ => Int.le_max_right 0 (-l.owed)
  rw [← neg_credit_eq] at hle
  unfold arrears
  omega

/-! ### Sums in range -/

/-- What the budget leaves beside all links, or to one that is open. -/
inductive Room (c : Consumer) : Int → Prop
  | spare : Room c (c.spare c.maxInFlight)
  | link {i : Nat} {conn : Connection} (hi : c.conn? i = some conn) (hc : conn.closing = false) :
      Room c (c.spare c.maxInFlight + conn.rdy)

/-- A sum is in the range of a word, or it is some room and above the range, which takes links that
are overdrawn beyond what the range leaves behind the budget. -/
structure Fits (c : Consumer) (x : Int) : Prop where
  low : -2 ^ 63 ≤ x
  high : x < 2 ^ 63 ∨ c.Room x
  high_of_arrears : c.maxInFlight + c.arrears < 2 ^ 63 → x < 2 ^ 63

theorem Fits.of_lt (low : -2 ^ 63 ≤ x) (high : x < 2 ^ 63) : c.Fits x :=
  ⟨low, .inl high, fun _ => high⟩

/-- The credit of a link and what it was granted last, in a state that is reached early. -/
theorem Sound.rdy_bounds (h : Sound c) (he : Early c) {i : Nat} {conn : Connection}
    (hi : c.conn? i = some conn) :
    0 ≤ conn.maxRdy ∧ conn.maxRdy < 2 ^ 32 ∧ -(c.received : Int) ≤ conn.rdy ∧
      conn.rdy ≤ conn.maxRdy := by
  obtain ⟨l, hl, rfl⟩ := conn?_eq_some_iff.mp hi
  have hmem := List.mem_of_getElem? hl
  have hmet := h.metered he.inRange
  obtain ⟨hm, hm'⟩ := he.maxRdy l hmem
  have hheard := hmet.heard_le hmem
  obtain ⟨hlow, hhigh, hmax⟩ := hmet.fair l hmem (h.modest.sober l hmem hm)
  omega

/-- A link that is open has still to return its credit. -/
theorem Sound.rdy_sub_credit_le (h : Sound c) {i : Nat} {conn : Connection}
    (hi : c.conn? i = some conn) (hc : conn.closing = false) :
    conn.rdy - c.credit ≤ c.arrears := by
  have hclosed := (h.orderly.tidy_conn hi).closed_of_open hc
  obtain ⟨l, hl, rfl⟩ := conn?_eq_some_iff.mp hi
  rw [← Link.owed_of_closed_eq_false hclosed]
  exact neg_others_le_arrears (List.mem_of_getElem? hl)

theorem Term.fits (ht : c.Term x) (h : Sound c) (he : Early c) : c.Fits x := by
  obtain ⟨hlow, hhigh⟩ := h.credit_bounds he
  have htotal := h.totalRdy_eq he
  have hbudget := h.modest.budget
  have hbudget' := h.modest.budget_lt
  have hsteps := he.steps
  have hgrants := c.grants_le
  cases ht with
  | spare =>
    have harrears := neg_credit_le_arrears c
    refine ⟨?_, .inr .spare, fun hfit => ?_⟩ <;> rw [Consumer.spare, htotal] <;> omega
  | room hi hc =>
    have harrears := h.rdy_sub_credit_le hi hc
    have hrdy := h.rdy_bounds he hi
    refine ⟨?_, .inr (.link hi hc), fun hfit => ?_⟩ <;> rw [Consumer.spare, htotal] <;> omega
  | change hi hn hm =>
    have hrdy := h.rdy_bounds he hi
    have hn := hn hrdy.1
    exact .of_lt (by omega) (by omega)
  | total hi hn hm =>
    have hrdy := h.rdy_bounds he hi
    have hn := hn hrdy.1
    rw [htotal]
    exact .of_lt (by omega) (by omega)
  | probe =>
    rw [Consumer.spare, htotal]
    exact .of_lt (by omega) (by omega)
  | draws hn => exact .of_lt (by omega) (by omega)

/-- A sum that one of the operations evaluates: of a grant that is booked as it is, of one that is
asked for, or of spreading credit anew. -/
inductive Evaluates (c : Consumer) (t : Figure) : Prop
  | sendRdy {i : Nat} {n : Int} (h0 : 0 ≤ n) (hm : n ≤ c.maxRdyOf i) (ht : t ∈ c.sendSums i n)
  | updateRdy {i : Nat} {count : Int} (h0 : 0 ≤ count) (ht : t ∈ c.updateSums i count)
  | redistribute {chance : Nat → Nat} (ht : t ∈ c.redistributeSums chance)

theorem Evaluates.summed (h : c.Evaluates t) : Summed c t := by
  cases h with
  | sendRdy h0 hm ht =>
    refine mem_sendSums ht fun conn hi => ⟨fun _ => h0, ?_⟩
    rwa [maxRdyOf_of_conn hi] at hm
  | updateRdy h0 ht => exact mem_updateSums h0 ht
  | redistribute ht => exact mem_redistributeSums ht

theorem Evaluates.fits (ht : c.Evaluates t) (h : Counts s c) (he : Early t.state) :
    t.state.Fits t.value :=
  ht.summed.term.fits (h.sound.share ht.summed.sharing) he

/-- Links overdraw no more than the messages received. -/
theorem Evaluates.high_of_received (ht : c.Evaluates t) (h : Counts s c) (he : Early t.state)
    (hfit : c.maxInFlight + c.received < 2 ^ 63) : t.value < 2 ^ 63 := by
  have hs := ht.summed.sharing
  have harrears := (h.sound.share hs).arrears_le he
  rw [hs.dealing.lending.received] at harrears
  refine (ht.fits h he).high_of_arrears ?_
  rw [hs.maxInFlight]
  omega

/-- A program that checks its sums is not ended by an operation if the budget leaves the range to
all messages received. -/
theorem Reckons.overflow_eq_of_received {sums : List Figure} (hr : Reckons sums c c')
    (hsums : ∀ t ∈ sums, c.Evaluates t ∧ Early t.state) (h : Counts s c)
    (hfit : c.maxInFlight + c.received < 2 ^ 63) : c'.overflow = c.overflow :=
  hr.overflow_eq fun t ht => by
    obtain ⟨hevaluates, he⟩ := hsums t ht
    exact isWord64_iff.mpr ⟨(hevaluates.fits h he).low, hevaluates.high_of_received h he hfit⟩

/-- **The sums of credit are words, but for the room of an overdrawn budget.** Let a sum be
evaluated from a state in which credit is counted, in a state that is reached early enough.

* It is never below the range of a word.
* It is above only if it is what the budget leaves beside all links, or to one of them.
* It is not above while the budget is within the range together with what links have overdrawn; a
  budget that leaves the range to all messages received is small enough. -/
theorem evaluated_fits (h : Counts s c) (ht : c.Evaluates t) (he : Early t.state) :
    -2 ^ 63 ≤ t.value ∧ (t.value < 2 ^ 63 ∨ t.state.Room t.value) ∧
      (t.state.maxInFlight + t.state.arrears < 2 ^ 63 → t.value < 2 ^ 63) ∧
      (c.maxInFlight + c.received < 2 ^ 63 → t.value < 2 ^ 63) := by
  have hfits := ht.fits h he
  exact ⟨hfits.low, hfits.high, hfits.high_of_arrears, ht.high_of_received h he⟩

/-- A probe is answered by two messages, and another link asks for a share. Of a budget of ten the
probe leaves eleven, and all sums are words. -/
theorem evaluated_fits_of_overdrawn_probe :
    let c := sample.stepAll silence
      [.addHandlers 2, .attach (sampleLink "h:1" 2500), .signal .backoff, .resume,
        .feed 0 (sampleMessage 1), .feed 0 (sampleMessage 2), .attach (sampleLink "h:2" 2500)]
    (c.updateSums 1 5).map Figure.value = [11, 11, 5, 4] ∧
      ∀ t ∈ c.updateSums 1 5, -2 ^ 63 ≤ t.value ∧ t.value < 2 ^ 63 := by
  intro c
  have hreach : Reaches Moderate sample c := by
    refine reaches_stepAll ⟨⟨trivial, by simp⟩, ⟨fresh_sampleLink "h:1" 2500, by simp⟩,
      ⟨trivial, by simp⟩, ⟨?_, by simp⟩, ⟨trivial, by simp⟩, ⟨trivial, by simp⟩,
      ⟨fresh_sampleLink "h:2" 2500, by simp⟩, trivial⟩
    show Consumer.armed _ = true
    decide +kernel
  have hearly : ∀ t ∈ c.updateSums 1 5,
      (∀ l ∈ t.state.links, 0 ≤ l.conn.maxRdy ∧ l.conn.maxRdy < 2 ^ 32) ∧
        t.state.received + t.state.links.length + t.state.grants < 2 ^ 32 := by
    decide +kernel
  refine ⟨by decide +kernel, fun t ht => ?_⟩
  have hvalid : sample.subscription.config.validate = .ok () := by rfl
  obtain ⟨hmax, hsteps⟩ := hearly t ht
  obtain ⟨hlow, -, -, hhigh⟩ :=
    evaluated_fits (hreach.counts hvalid) (.updateRdy (by decide) ht) ⟨hmax, hsteps⟩
  exact ⟨hlow, hhigh (by decide +kernel)⟩

/-- A subscription with the greatest budget that a configuration may have. -/
def greatestBudget : Subscription :=
  ⟨"events", "archive", (Config.initial "localhost").putCount .maxInFlight (2 ^ 63 - 1)⟩

/-- The range of a word is a limit. The greatest budget and a link that is overdrawn by one message
leave one more than the greatest word. Where sums are checked that is the end; elsewhere it is taken
for less than nothing, and a grant of five messages is refused. -/
theorem refused_of_overdrawn :
    let c := (ofSubscription greatestBudget).stepAll silence
      [.addHandlers 2, .attach (sampleLink "h:1" 2500), .signal .backoff, .resume,
        .feed 0 (sampleMessage 1), .feed 0 (sampleMessage 2), .attach (sampleLink "h:2" 2500)]
    Counts greatestBudget c ∧ (c.updateSums 1 5).map Figure.value = [2 ^ 63, 2 ^ 63] ∧
      (∀ t ∈ c.updateSums 1 5,
        t.state.received = 2 ∧ t.state.links.length = 2 ∧ t.state.arrears = 1) ∧
      c.perform true silence (.updateRdy 1 5) = .error .subtract ∧
      (c.updateRdy 1 5).1 = .error .overMaxInFlight ∧ (c.updateRdy 1 5).2.told 1 = [] := by
  intro c
  have hreach : Reaches Moderate (ofSubscription greatestBudget) c := by
    refine reaches_stepAll ⟨⟨trivial, by simp⟩, ⟨fresh_sampleLink "h:1" 2500, by simp⟩,
      ⟨trivial, by simp⟩, ⟨?_, by simp⟩, ⟨trivial, by simp⟩, ⟨trivial, by simp⟩,
      ⟨fresh_sampleLink "h:2" 2500, by simp⟩, trivial⟩
    show Consumer.armed _ = true
    decide +kernel
  exact ⟨hreach.counts (by rfl), by decide +kernel, by decide +kernel,
    perform_eq_error_iff.mpr (by decide +kernel), by decide +kernel, by decide +kernel⟩

end Consumer

end Nsq
