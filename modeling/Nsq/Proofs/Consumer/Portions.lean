import Nsq.Proofs.Consumer.Budget

/-!
# Grants that are met in full

What a link is granted is cut down to what the other links leave of the budget at that moment. A
walk that grants the same count to several links is therefore met in full if the budget covers, for
every link in use, the greater of what it has before and after the walk: then the order of the walk
does not matter, and every link on it has the count or what its daemon takes (`Portioned`,
`portioned_of_covered`).

Links that are overdrawn leave more than the budget to the others. The numbers are signed words, so
that this is right only as long as a word holds it (`Solvent`).
-/

namespace Nsq.Consumer

variable {c c' c'' : Consumer} {i : Nat} {conn : Connection} {n : Int}

/-! ### Sums over the links in use -/

/-- All but one of the entries sum up to no more than their bounds. -/
theorem sum_map_sub_le {α : Type} {is : List α} {i : α} {f g : α → Int} (hi : i ∈ is)
    (h : ∀ j ∈ is, f j ≤ g j) : (is.map f).sum - f i ≤ (is.map g).sum - g i := by
  induction is with
  | nil => exact absurd hi List.not_mem_nil
  | cons a is ih =>
    rw [List.map_cons, List.map_cons, List.sum_cons, List.sum_cons]
    have ha := h a List.mem_cons_self
    have htail : ∀ j ∈ is, f j ≤ g j := fun j hj => h j (List.mem_cons_of_mem a hj)
    by_cases hai : a = i
    · have hle := List.sum_le_sum htail
      rw [hai]
      omega
    · have hle := ih ((List.mem_cons.mp hi).resolve_left (Ne.symm hai)) htail
      omega

/-- What a link has overdrawn: the messages that came over it beyond its credit. -/
def owes (i : Nat) (c : Consumer) : Int := max 0 (-c.rdyOf i)

/-- What the links in use other than one have overdrawn. -/
def overdraft (i : Nat) (c : Consumer) : Int := (c.walk.map fun j => c.owes j).sum - c.owes i

/-- The credit of the links in use other than one. -/
def others (i : Nat) (c : Consumer) : Int := (c.walk.map c.rdyOf).sum - c.rdyOf i

/-- The links other than one lack no more than bounds on what each of them lacks. -/
theorem neg_others_le_sum {g : Nat → Int} (hi : i ∈ c.walk) (hg : ∀ j, -c.rdyOf j ≤ g j) :
    -c.others i ≤ (c.walk.map g).sum - g i := by
  have hle := sum_map_sub_le hi fun j _ => hg j
  have hneg : (c.walk.map fun j => -c.rdyOf j).sum = -(c.walk.map c.rdyOf).sum := by
    rw [List.sum_neg, List.map_map]
    rfl
  unfold others
  omega

theorem neg_others_le (hi : i ∈ c.walk) : -c.others i ≤ c.overdraft i :=
  neg_others_le_sum hi fun _ => Int.le_max_right _ _

/-- The sum over the entries that a test picks, and over the others. -/
theorem sum_map_filter_add (is : List Nat) (p : Nat → Bool) (f : Nat → Int) :
    ((is.filter p).map f).sum + ((is.filter fun i => !p i).map f).sum = (is.map f).sum := by
  have hperm := (List.filter_append_perm p is).map f
  rw [List.map_append] at hperm
  rw [← List.sum_append, hperm.sum_eq]

/-- Parts that are no greater than a share sum up to no more than so many shares. -/
theorem sum_map_le_length_mul (is : List Nat) {f : Nat → Int} {share : Int}
    (h : ∀ i ∈ is, f i ≤ share) : (is.map f).sum ≤ is.length * share := by
  have hsum := List.sum_le_card_nsmul _ _ (List.forall_mem_map.mpr h)
  rwa [List.length_map, nsmul_eq_mul] at hsum

/-- A sum of which a test picks the entries. -/
theorem sum_map_ite (is : List Nat) (p : Nat → Bool) (f g : Nat → Int) :
    (is.map fun i => if p i then f i else g i).sum =
      ((is.filter p).map f).sum + ((is.filter fun i => !p i).map g).sum := by
  rw [← sum_map_filter_add is p]
  congr 2
  · refine List.map_congr_left fun i hi => ?_
    rw [if_pos (List.mem_filter.mp hi).2]
  · refine List.map_congr_left fun i hi => ?_
    have hno := (List.mem_filter.mp hi).2
    rw [if_neg (by simpa using hno)]

/-- Some of distinct entries are those that a test for them picks. -/
theorem perm_filter_contains {is js : List Nat} (his : is.Nodup) (hjs : js.Nodup)
    (h : ∀ j ∈ js, j ∈ is) : js.Perm (is.filter fun i => js.contains i) := by
  rw [List.perm_ext_iff_of_nodup hjs (his.filter _)]
  intro i
  rw [List.mem_filter, List.contains_iff_mem]
  exact ⟨fun hi => ⟨h i hi, hi⟩, And.right⟩

/-- A sum of which some entries are replaced. -/
theorem sum_map_replace {is js : List Nat} (his : is.Nodup) (hjs : js.Nodup)
    (h : ∀ j ∈ js, j ∈ is) (f g : Nat → Int) :
    (is.map fun i => if i ∈ js then g i else f i).sum + (js.map f).sum =
      (is.map f).sum + (js.map g).sum := by
  have hperm := perm_filter_contains his hjs h
  have hsplit := sum_map_ite is (fun i => js.contains i) g f
  have hall := sum_map_filter_add is (fun i => js.contains i) f
  rw [← (hperm.map _).sum_eq] at hsplit hall
  simp only [List.contains_iff_mem] at hsplit
  omega

/-- An even part of a budget is at least one message if there are enough of them, and all parts
together are within the budget. -/
theorem even_part {budget : Int} {k : Nat} (hk : 0 < k) (hfew : k ≤ budget) :
    1 ≤ budget.tdiv k ∧ k * budget.tdiv k ≤ budget := by
  rw [Int.tdiv_eq_ediv_of_nonneg (by omega)]
  exact ⟨(Int.le_ediv_iff_mul_le (by omega)).mpr (by omega), Int.mul_ediv_self_le (by omega)⟩

/-- The greatest credit that the daemon of a link takes. -/
def maxRdyOf (i : Nat) (c : Consumer) : Int := ((c.conn? i).map Connection.maxRdy).getD 0

theorem maxRdyOf_of_conn (h : c.conn? i = some conn) : c.maxRdyOf i = conn.maxRdy := by
  simp [maxRdyOf, h]

/-! ### Links and budgets that a grant can rely on -/

/-- The link is open, and its daemon can be told and takes some credit. -/
structure Able (conn : Connection) : Prop where
  closing : conn.closing = false
  refusing : conn.refusing = false
  maxRdy : 1 ≤ conn.maxRdy

theorem Able.granted (h : Able conn) (n : Int) : Able (conn.granted n) := by
  rw [Connection.granted_eq]
  exact ⟨by simp [h.closing, h.refusing], h.refusing, h.maxRdy⟩

/-- The total is the credit of the links in use, which can all be granted some, and a word holds the
budget together with what all of them but one have overdrawn. -/
structure Solvent (c : Consumer) : Prop where
  once : c.walk.Nodup
  able : ∀ i ∈ c.walk, ∃ conn, c.conn? i = some conn ∧ Able conn
  total : c.totalRdy = word64 (c.walk.map c.rdyOf).sum
  budget : 0 ≤ c.maxInFlight
  range : ∀ i ∈ c.walk, c.maxInFlight + c.overdraft i < 2 ^ 63

/-- The budget leaves a link what the other links do not have. -/
theorem Solvent.roomFor_eq (h : Solvent c) (hi : i ∈ c.walk) (hc : c.conn? i = some conn)
    (hfit : c.others i ≤ c.maxInFlight) : c.roomFor conn.rdy = c.maxInFlight - c.others i := by
  have hrange := h.range i hi
  have hdebt := neg_others_le hi
  rw [roomFor_of_totalRdy h.total, ← rdyOf_of_conn hc, ← others]
  exact word64_eq_self (by omega) (by omega)

/-- A grant is met in full if the other links leave that much of the budget; one that takes all
credit back needs no budget. Only a daemon that would be told again that it has no credit is not
told. -/
theorem Solvent.grant_eq_booked (h : Solvent c) (hi : i ∈ c.walk) (hc : c.conn? i = some conn)
    (hn : 0 ≤ n) (hlast : n = 0 → conn.lastRdy ≠ 0)
    (hfit : 0 < n → c.others i + min n conn.maxRdy ≤ c.maxInFlight) :
    c.grant i n = (c.measure conn).booked i conn (min n conn.maxRdy) := by
  obtain ⟨conn', hc', hable⟩ := h.able i hi
  obtain rfl := Option.some.inj (hc.symm.trans hc')
  have hm := hable.maxRdy
  have hroom (hpos : 0 < n) : min n conn.maxRdy ≤ c.roomFor conn.rdy := by
    have hfit := hfit hpos
    have heq := h.roomFor_eq hi hc (by omega)
    omega
  have hallot : c.allotment conn n = min n conn.maxRdy := by
    rcases hn.eq_or_lt with rfl | hpos
    · rw [allotment_zero c (by omega)]
      omega
    · have hroom := hroom hpos
      unfold allotment
      split_ifs <;> omega
  have hyes : ¬c.Refuses conn n := by
    rintro ⟨hfew, hsome⟩
    have hroom := hroom (by omega)
    omega
  unfold grant
  rcases updateRdy_cases i n c with ⟨-, -, hno⟩ | ⟨conn', hc', -, ⟨hr, -⟩ | ⟨-, heq⟩⟩
  · exact absurd (hno conn hc) (by simp [hable.closing])
  · obtain rfl := Option.some.inj (hc.symm.trans hc')
    exact absurd hr hyes
  · obtain rfl := Option.some.inj (hc.symm.trans hc')
    have hi' : (c.measure conn).conn? i = some conn := hc
    rw [heq, hallot]
    rcases sendRdy_cases hi' (min n conn.maxRdy) with ⟨h0, hl, -⟩ | ⟨r, hs, -⟩
    · exact absurd hl (hlast (by omega))
    · rw [hs]

/-! ### One grant -/

/-- What a grant that is met in full does: its links have the count, or what their daemons take, and
wait for no grant any more, and everything else stays. -/
structure Portioned (n : Int) (links : List Nat) (c c' : Consumer) : Prop where
  given : ∀ i ∈ links, ∀ conn, c.conn? i = some conn →
    c'.conn? i = some (conn.granted (min n conn.maxRdy))
  kept : ∀ j, j ∉ links → c'.conn? j = c.conn? j
  retries : ∀ e ∈ c'.retries, e ∈ c.retries ∧
    ∀ i ∈ links, ∀ conn, c.conn? i = some conn → e.1 ≠ conn.address
  pace : SamePace c c'
  lending : Lending c c'

namespace Portioned

theorem refl (n : Int) (c : Consumer) : Portioned n [] c c :=
  ⟨by simp, fun _ _ => rfl, fun _ he => ⟨he, by simp⟩, .refl c, .refl c⟩

/-- A link that was granted the count, and the rest of the walk. -/
theorem cons {is : List Nat} (h : Portioned n [i] c c') (h' : Portioned n is c' c'') (hi : i ∉ is) :
    Portioned n (i :: is) c c'' := by
  have hsame : ∀ j ∈ is, c'.conn? j = c.conn? j := fun j hj =>
    h.kept j fun hji => hi (List.mem_singleton.mp hji ▸ hj)
  refine ⟨fun j hj conn hconn => ?_, fun j hj => ?_, fun e he => ?_, h.pace.trans h'.pace,
    h.lending.trans h'.lending⟩
  · rcases List.mem_cons.mp hj with rfl | hj
    · rw [h'.kept j hi]
      exact h.given j (List.mem_singleton_self j) conn hconn
    · exact h'.given j hj conn ((hsame j hj).trans hconn)
  · rw [List.mem_cons, not_or] at hj
    exact (h'.kept j hj.2).trans (h.kept j fun hji => hj.1 (List.mem_singleton.mp hji))
  · obtain ⟨hmid, hlate⟩ := h'.retries e he
    obtain ⟨hold, hearly⟩ := h.retries e hmid
    refine ⟨hold, fun j hj conn hconn => ?_⟩
    rcases List.mem_cons.mp hj with rfl | hj
    · exact hearly j (List.mem_singleton_self j) conn hconn
    · exact hlate j hj conn ((hsame j hj).trans hconn)

theorem walk {is : List Nat} (h : Portioned n is c c') : c'.walk = c.walk :=
  congrArg (List.map Prod.snd) h.lending.live

theorem rdyOf_given {is : List Nat} (h : Portioned n is c c') (hi : i ∈ is)
    (hc : c.conn? i = some conn) : c'.rdyOf i = min n conn.maxRdy := by
  rw [rdyOf_of_conn (h.given i hi conn hc), Connection.granted_rdy]

theorem rdyOf_kept {is : List Nat} (h : Portioned n is c c') (hi : i ∉ is) :
    c'.rdyOf i = c.rdyOf i := by
  rw [rdyOf, h.kept i hi, ← rdyOf]

end Portioned

/-- A grant that is met in full leaves the consumer solvent. -/
theorem Solvent.grant (h : Solvent c) (hi : i ∈ c.walk) (hc : c.conn? i = some conn) (hn : 0 ≤ n)
    (hlast : n = 0 → conn.lastRdy ≠ 0)
    (hfit : 0 < n → c.others i + min n conn.maxRdy ≤ c.maxInFlight) :
    Solvent (c.grant i n) ∧ Portioned n [i] c (c.grant i n) := by
  have heq := h.grant_eq_booked hi hc hn hlast hfit
  obtain ⟨conn', hc', hable⟩ := h.able i hi
  obtain rfl := Option.some.inj (hc.symm.trans hc')
  have hm := hable.maxRdy
  have hself : (c.grant i n).conn? i = some (conn.granted (min n conn.maxRdy)) := by
    rw [heq]
    exact conn?_booked_self (c := c.measure conn) hc _
  have hother := fun j (hj : j ≠ i) => conn?_grant_of_ne hj.symm n c
  have hpart : Portioned n [i] c (c.grant i n) := by
    refine ⟨fun j hj conn' hconn => ?_, fun j hj => hother j (by simpa using hj), fun e he => ?_,
      samePace_grant i n c, (dealing_grant i n c).lending⟩
    · obtain rfl := List.mem_singleton.mp hj
      obtain rfl := Option.some.inj (hc.symm.trans hconn)
      exact hself
    · rw [heq] at he
      obtain ⟨hne, hold⟩ := mem_dropRetry.mp he
      refine ⟨hold, fun j hj conn' hconn => ?_⟩
      obtain rfl := List.mem_singleton.mp hj
      obtain rfl := Option.some.inj (hc.symm.trans hconn)
      exact hne
  have hrdy : ∀ j, j ≠ i → (c.grant i n).rdyOf j = c.rdyOf j := fun j hj =>
    hpart.rdyOf_kept (by simpa using hj)
  have hrdyi : (c.grant i n).rdyOf i = min n conn.maxRdy :=
    hpart.rdyOf_given (List.mem_singleton_self i) hc
  refine ⟨⟨?_, fun j hj => ?_, ?_, ?_, fun j hj => ?_⟩, hpart⟩
  · rw [hpart.walk]
    exact h.once
  · rw [hpart.walk] at hj
    by_cases hji : j = i
    · rw [hji]
      exact ⟨_, hself, hable.granted _⟩
    · rw [hother j hji]
      exact h.able j hj
  · -- the total follows the sum, both as words
    have htotal :
        (c.grant i n).totalRdy = word64 (c.totalRdy + (min n conn.maxRdy - conn.rdy)) := by
      rw [heq]
      rfl
    rw [hpart.walk, sum_map_of_ne h.once hi hrdy, hrdyi, htotal, h.total, rdyOf_of_conn hc,
      word64_word64_add]
  · rw [hpart.pace.maxInFlight]
    exact h.budget
  · -- what is granted is not overdrawn
    rw [hpart.walk] at hj
    have hrange := h.range j hj
    have howes : ∀ k ∈ c.walk, (c.grant i n).owes k ≤ c.owes k := by
      intro k _
      by_cases hki : k = i
      · rw [owes, hki, hrdyi, owes]
        omega
      · rw [owes, hrdy k hki, owes]
    have hle := sum_map_sub_le hj howes
    unfold overdraft at hrange ⊢
    rw [hpart.walk, hpart.pace.maxInFlight]
    omega

/-! ### A walk -/

/-- The budget covers a walk that grants a count to some links: there are bounds for all links in
use, within the budget, below which each of them is before and after. -/
structure Covered (bound : Nat → Int) (n : Int) (is : List Nat) (c : Consumer) : Prop where
  sum : (c.walk.map bound).sum ≤ c.maxInFlight
  before : ∀ j ∈ c.walk, c.rdyOf j ≤ bound j
  after : ∀ i ∈ is, min n (c.maxRdyOf i) ≤ bound i

namespace Covered

variable {bound : Nat → Int} {is : List Nat}

/-- What is left of the budget to the first link of the walk. -/
theorem fits (h : Covered bound n (i :: is) c) (hi : i ∈ c.walk) (hc : c.conn? i = some conn) :
    c.others i + min n conn.maxRdy ≤ c.maxInFlight := by
  have hportion := h.after i List.mem_cons_self
  rw [maxRdyOf_of_conn hc] at hportion
  have hle := sum_map_sub_le hi h.before
  have hsum := h.sum
  unfold others
  omega

/-- The rest of the walk is covered once the first link was granted the count. -/
theorem tail (h : Covered bound n (i :: is) c) (hp : Portioned n [i] c c')
    (hc : c.conn? i = some conn) (hi : i ∉ is) : Covered bound n is c' := by
  refine ⟨?_, fun j hj => ?_, fun j hj => ?_⟩
  · rw [hp.walk, hp.pace.maxInFlight]
    exact h.sum
  · rw [hp.walk] at hj
    by_cases hji : j = i
    · subst hji
      rw [hp.rdyOf_given (List.mem_singleton_self j) hc, ← maxRdyOf_of_conn hc]
      exact h.after j List.mem_cons_self
    · rw [hp.rdyOf_kept (by simpa using hji)]
      exact h.before j hj
  · have hji : j ∉ [i] := fun hji => hi (List.mem_singleton.mp hji ▸ hj)
    rw [maxRdyOf, hp.kept j hji, ← maxRdyOf]
    exact h.after j (List.mem_cons_of_mem i hj)

end Covered

/-- A walk is met in full that grants a count to distinct links in use, if the budget covers it. One
that takes all credit back is met whatever the budget is. -/
theorem portioned_of_covered {is : List Nat} (h : Solvent c) (hn : 0 ≤ n) (hnd : is.Nodup)
    (his : ∀ i ∈ is, i ∈ c.walk) (bound : Nat → Int) (hcovered : 0 < n → Covered bound n is c)
    (hlast : n = 0 → ∀ i ∈ is, ∀ conn, c.conn? i = some conn → conn.lastRdy ≠ 0) :
    Solvent (c.grantAll is n) ∧ Portioned n is c (c.grantAll is n) := by
  induction is generalizing c with
  | nil => exact ⟨h, .refl n c⟩
  | cons i is ih =>
    obtain ⟨hi, hnd⟩ := List.nodup_cons.mp hnd
    have hwalk := his i List.mem_cons_self
    obtain ⟨conn, hc, -⟩ := h.able i hwalk
    obtain ⟨hsolvent, hone⟩ := h.grant hwalk hc hn
      (fun h0 => hlast h0 i List.mem_cons_self conn hc) fun hpos => (hcovered hpos).fits hwalk hc
    have hsame : ∀ j ∈ is, (c.grant i n).conn? j = c.conn? j := fun j hj =>
      hone.kept j fun hji => hi (List.mem_singleton.mp hji ▸ hj)
    have hrest : Solvent ((c.grant i n).grantAll is n) ∧
        Portioned n is (c.grant i n) ((c.grant i n).grantAll is n) := by
      refine ih hsolvent hnd ?_ (fun hpos => (hcovered hpos).tail hone hc hi) ?_
      · exact fun j hj => hone.walk ▸ his j (List.mem_cons_of_mem i hj)
      · exact fun h0 j hj conn' hconn =>
          hlast h0 j (List.mem_cons_of_mem i hj) conn' ((hsame j hj).symm.trans hconn)
    exact ⟨hrest.1, hone.cons hrest.2 hi⟩

/-- **A walk is met in full** that grants a count to distinct links in use, if there are bounds for
all links in use, within the budget, below which each of them is before and after. -/
theorem portioned_grantAll {is : List Nat} (h : Solvent c) (hn : 0 ≤ n) (hnd : is.Nodup)
    (his : ∀ i ∈ is, i ∈ c.walk) (bound : Nat → Int)
    (hsum : (c.walk.map bound).sum ≤ c.maxInFlight) (hbefore : ∀ j ∈ c.walk, c.rdyOf j ≤ bound j)
    (hafter : ∀ i ∈ is, min n (c.maxRdyOf i) ≤ bound i)
    (hlast : n = 0 → ∀ i ∈ is, ∀ conn, c.conn? i = some conn → conn.lastRdy ≠ 0) :
    Solvent (c.grantAll is n) ∧ Portioned n is c (c.grantAll is n) :=
  portioned_of_covered h hn hnd his bound (fun _ => ⟨hsum, hbefore, hafter⟩) hlast

/-- The links in use have the credits given by a function, and what does not concern credit is as it
was. -/
structure Leaves (f : Nat → Int) (c c' : Consumer) : Prop where
  solvent : Solvent c'
  pace : SamePace c c'
  lending : Lending c c'
  rdy : ∀ i ∈ c.walk, c'.rdyOf i = f i

namespace Leaves

variable {f g : Nat → Int}

theorem walk (h : Leaves f c c') : c'.walk = c.walk := congrArg (List.map Prod.snd) h.lending.live

/-- What follows on a change is described from before it. -/
theorem trans (h : Leaves f c c') (h' : Leaves g c' c'') : Leaves g c c'' :=
  ⟨h'.solvent, h.pace.trans h'.pace, h.lending.trans h'.lending, fun i hi =>
    h'.rdy i (h.walk ▸ hi)⟩

theorem congr (h : Leaves f c c') (hfg : ∀ i ∈ c.walk, f i = g i) : Leaves g c c' :=
  { h with rdy := fun i hi => (h.rdy i hi).trans (hfg i hi) }

theorem maxRdyOf (h : Leaves f c c') (i : Nat) : c'.maxRdyOf i = c.maxRdyOf i := by
  have hi := h.lending.links i
  unfold Consumer.maxRdyOf conn?
  revert hi
  cases c.links[i]? <;> cases c'.links[i]? <;> rintro (r | _)
  · rfl
  · exact r.maxRdy

theorem sum (h : Leaves f c c') : (c'.walk.map c'.rdyOf).sum = (c.walk.map f).sum := by
  rw [h.walk, List.map_congr_left h.rdy]

end Leaves

/-- What a walk leaves that is met in full. -/
theorem Solvent.leaves {is : List Nat} (h : Solvent c)
    (hmet : Solvent c' ∧ Portioned n is c c') :
    Leaves (fun i => if i ∈ is then min n (c.maxRdyOf i) else c.rdyOf i) c c' := by
  obtain ⟨hsolvent, hp⟩ := hmet
  refine ⟨hsolvent, hp.pace, hp.lending, fun i hi => ?_⟩
  split_ifs with hmem
  · obtain ⟨conn, hc, -⟩ := h.able i hi
    rw [hp.rdyOf_given hmem hc, maxRdyOf_of_conn hc]
  · exact hp.rdyOf_kept hmem

/-- What a walk leaves that the budget covers. -/
theorem leaves_grantAll {is : List Nat} (h : Solvent c) (hn : 0 ≤ n) (hnd : is.Nodup)
    (his : ∀ i ∈ is, i ∈ c.walk) (bound : Nat → Int)
    (hsum : (c.walk.map bound).sum ≤ c.maxInFlight) (hbefore : ∀ j ∈ c.walk, c.rdyOf j ≤ bound j)
    (hafter : ∀ i ∈ is, min n (c.maxRdyOf i) ≤ bound i)
    (hlast : n = 0 → ∀ i ∈ is, ∀ conn, c.conn? i = some conn → conn.lastRdy ≠ 0) :
    Leaves (fun i => if i ∈ is then min n (c.maxRdyOf i) else c.rdyOf i) c (c.grantAll is n) :=
  h.leaves (portioned_grantAll h hn hnd his bound hsum hbefore hafter hlast)

end Nsq.Consumer
