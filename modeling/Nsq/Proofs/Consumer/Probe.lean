import Nsq.Proofs.Consumer.Meter

/-!
# Probing with one link

While the pace is reduced the consumer means to have credit on one link at most, the one by which it
probes whether its handlers keep up (`OneProbe`). Most of what it does cannot give credit to a
second link. Three acts can (`Crowds`):

* a grant that was refused and put off is tried again while another link has the probe by then;
* the pause ends while some link has credit, and the probe goes to another;
* credit is spread anew while the total of credit is lower than the number of probes out, because
  some link is overdrawn: more messages came over it than its credit allowed.

Nothing else breaks the rule: if two links have credit while the pace is reduced, the run contains
an act of these kinds that led from one probe to two. Conversely acts of these kinds give credit to
a second link (`not_oneProbe_of_crowds`).
-/

namespace Nsq.Consumer

/-- Whether a link is in use, and has credit that nobody has asked it to give up. -/
def holds (i : Nat) (c : Consumer) : Bool :=
  c.walk.contains i && (c.conn? i).any fun conn => !conn.closing && 0 < conn.rdy

theorem holds_iff {i : Nat} {c : Consumer} :
    c.holds i = true ↔
      i ∈ c.walk ∧ ∃ conn, c.conn? i = some conn ∧ conn.closing = false ∧ 0 < conn.rdy := by
  simp [holds, Option.any_eq_true]

/-- At most one link in use has credit while the pace is reduced. -/
def OneProbe (c : Consumer) : Prop :=
  0 < c.level → ∀ i j, c.holds i = true → c.holds j = true → i = j

/-- Whether a grant to a link gives it credit: it is open, its daemon takes some and hears of it,
and the budget leaves some. -/
def Takes (i : Nat) (count : Int) (c : Consumer) : Prop :=
  ∃ conn, c.conn? i = some conn ∧ conn.closing = false ∧ conn.refusing = false ∧
    0 < conn.maxRdy ∧ 0 < count ∧ ¬c.Refuses conn count

/-- A grant that gives credit to a link while another link has some. -/
def Doubles (i : Nat) (count : Int) (c : Consumer) : Prop :=
  c.Takes i count ∧ ∃ j, c.holds j = true ∧ j ≠ i

/-- An act that gives credit to a second link while the pace is reduced. -/
def Crowds (env : Surroundings) (a : Act) (c : Consumer) : Prop :=
  0 < c.level ∧
    match a with
    | .retry addr count => ∃ i, c.serving? addr = some i ∧ c.Doubles i count
    | .resume =>
      c.stopping = false ∧ ∃ i, c.walk[env.chance 0 % c.live.length]? = some i ∧ c.Doubles i 1
    | .redistribute =>
      c.inPause = false ∧ 1 < c.live.length ∧
        (c.reclaimed.totalRdy < 0 ∨
          c.reclaimed.totalRdy = 0 ∧
            ∃ i, c.spreadOrder[env.chance 0 % c.spreadOrder.length]? = some i ∧
              c.reclaimed.Doubles i 1)
    | _ => False

/-! ### Links that lose credit -/

/-- No link has credit that had none, and the pace is not newly reduced. -/
structure Fewer (c c' : Consumer) : Prop where
  level : 0 < c'.level → 0 < c.level
  holds : ∀ i, c'.holds i = true → c.holds i = true

namespace Fewer

variable {c c' c'' : Consumer}

theorem refl (c : Consumer) : Fewer c c := ⟨id, fun _ => id⟩

theorem trans (h : Fewer c c') (h' : Fewer c' c'') : Fewer c c'' :=
  ⟨h.level ∘ h'.level, fun i hi => h.holds i (h'.holds i hi)⟩

theorem oneProbe (h : Fewer c c') (ho : OneProbe c) : OneProbe c' := fun hl i j hi hj =>
  ho (h.level hl) i j (h.holds i hi) (h.holds j hj)

/-- Fewer links have credit where links stay and the table loses entries at most. -/
theorem of_eq (hl : c'.links = c.links) (hlive : ∀ e ∈ c'.live, e ∈ c.live)
    (hlev : c'.level = c.level) : Fewer c c' := by
  refine ⟨fun h => hlev ▸ h, fun i hi => ?_⟩
  rw [holds_iff] at hi ⊢
  obtain ⟨hw, conn, hconn, hc⟩ := hi
  obtain ⟨e, he, rfl⟩ := List.mem_map.mp hw
  rw [conn?, hl, ← conn?] at hconn
  exact ⟨List.mem_map_of_mem (hlive e he), conn, hconn, hc⟩

/-- A walk along links leaves fewer with credit if every turn of it does. -/
theorem foldl {f : Consumer → Nat → Consumer} (hf : ∀ c i, Fewer c (f c i)) (is : List Nat)
    (c : Consumer) : Fewer c (is.foldl f c) :=
  List.foldlRecOn is f (refl c) fun c' h i _ => h.trans (hf c' i)

end Fewer

namespace OneProbe

variable {c c' : Consumer}

/-- A link may change as long as it gains no credit while it is in use. -/
theorem modifyLink (ho : OneProbe c) {i : Nat} {f : Link → Link}
    (hf : ∀ l, c.links[i]? = some l → (l.conn.closing = true → (f l).conn.closing = true) ∧
      (0 < c.level → i ∈ c.walk → l.conn.closing = false → 0 < (f l).conn.rdy → 0 < l.conn.rdy)) :
    OneProbe (c.modifyLink i f) := by
  intro hlev
  suffices hfew : Fewer c (c.modifyLink i f) from hfew.oneProbe ho hlev
  refine ⟨id, fun j hj => ?_⟩
  rw [holds_iff] at hj ⊢
  obtain ⟨hw, conn, hconn, hcl, hr⟩ := hj
  refine ⟨hw, ?_⟩
  -- only the changed link could have gained credit
  rcases conn?_modifyLink_cases hconn with hconn | ⟨rfl, l, hl, rfl⟩
  · exact ⟨conn, hconn, hcl, hr⟩
  · obtain ⟨hclosing, hrdy⟩ := hf l hl
    have hopen : l.conn.closing = false := by
      rw [Bool.eq_false_iff]
      exact fun h => absurd hcl (by simp [hclosing h])
    exact ⟨l.conn, conn?_of_links hl, hopen, hrdy hlev hw hopen hr⟩

theorem putConn (ho : OneProbe c) {i : Nat} {conn conn' : Connection} (hi : c.conn? i = some conn)
    (hr : conn'.rdy = conn.rdy) (hc : conn.closing = true → conn'.closing = true) :
    OneProbe (c.putConn i conn') := by
  refine ho.modifyLink fun l hl => ?_
  obtain rfl : l.conn = conn := conn_eq_of_links hl hi
  exact ⟨hc, fun _ _ _ => hr ▸ id⟩

end OneProbe

/-- Full pace allows any number of links to have credit. -/
theorem oneProbe_of_level {c : Consumer} (h : c.level = 0) : OneProbe c := fun hl =>
  absurd hl (by omega)

/-- A grant gives credit to its own link at most, and only if the link takes it. -/
theorem holds_of_grant {i j : Nat} {n : Int} {c : Consumer} (h : (c.grant i n).holds j = true) :
    c.holds j = true ∨ j = i ∧ 0 < n ∧ (Orderly c → c.Takes i n) := by
  rw [holds_iff, walk, (dealing_grant i n c).lending.live, ← walk] at h
  obtain ⟨hw, conn', hi', hcl', hr⟩ := h
  rcases conn?_of_grant hi' with hi | ⟨rfl, conn, hi, hcl, hroom, rfl⟩
  · exact .inl (holds_iff.mpr ⟨hw, conn', hi, hcl', hr⟩)
  · rw [Connection.granted_rdy] at hr
    have hmax := allotment_le_maxRdy conn n c
    have hn : 0 < n := by
      unfold allotment at hr
      split_ifs at hr <;> omega
    refine .inr ⟨rfl, hn, fun hord => ⟨conn, hi, hcl, ?_, by omega, hn, hroom⟩⟩
    -- a daemon that cannot be told costs the link
    simp only [Connection.granted_eq, hcl, (hord.tidy_conn hi).closesOnFault, Bool.and_true,
      Bool.false_or] at hcl'
    exact hcl'

/-- A link that takes a grant has credit. -/
theorem holds_grant {i : Nat} {n : Int} {c : Consumer} (hw : i ∈ c.walk) (h : c.Takes i n) :
    (c.grant i n).holds i = true := by
  obtain ⟨conn, hi, hcl, hrf, hmax, hn, hroom⟩ := h
  rw [holds_iff, walk, (dealing_grant i n c).lending.live, ← walk]
  refine ⟨hw, _, conn?_grant hi hcl hroom hn hmax, by simp [Connection.granted_eq, hcl, hrf], ?_⟩
  rw [Connection.granted_rdy]
  exact allotment_pos c hn hmax

/-- Other links keep their credit. -/
theorem holds_grant_of_ne {i j : Nat} {c : Consumer} (hj : c.holds j = true) (hne : j ≠ i)
    (n : Int) : (c.grant i n).holds j = true := by
  obtain ⟨hw, conn, hconn, hcl, hr⟩ := holds_iff.mp hj
  rw [holds_iff, walk, (dealing_grant i n c).lending.live, ← walk]
  exact ⟨hw, conn, (conn?_grant_of_ne hne.symm n c).trans hconn, hcl, hr⟩

theorem fewer_grant (i : Nat) {n : Int} (hn : n ≤ 0) (c : Consumer) : Fewer c (c.grant i n) := by
  refine ⟨fun h => (samePace_grant i n c).level ▸ h, fun j hj => ?_⟩
  exact (holds_of_grant hj).elim id fun h => absurd h.2.1 (by omega)

theorem fewer_reclaim (is : List Nat) (c : Consumer) : Fewer c (c.reclaim is) := by
  refine .foldl (fun c i => ?_) is c
  split_ifs
  · exact fewer_grant i (Int.le_refl 0) c
  · exact .refl c

/-- A grant leaves one probe unless it doubles it. -/
theorem oneProbe_grant {i : Nat} {n : Int} {c : Consumer} (ho : OneProbe c) (hord : Orderly c)
    (h : 0 < c.level → ¬c.Doubles i n) : OneProbe (c.grant i n) := by
  intro hlev j k hj hk
  rw [(samePace_grant i n c).level] at hlev
  have hnew : c.Takes i n → ∀ j, c.holds j = true → j = i := by
    intro ht j hj
    by_contra hne
    exact h hlev ⟨ht, j, hj, hne⟩
  -- either link had credit before, or it is the one that takes the grant
  rcases holds_of_grant hj with hj' | ⟨rfl, -, htj⟩ <;>
    rcases holds_of_grant hk with hk' | ⟨rfl, -, htk⟩
  · exact ho hlev j k hj' hk'
  · exact hnew (htk hord) j hj'
  · exact (hnew (htj hord) k hk').symm
  · rfl

theorem not_oneProbe_grant {i : Nat} {n : Int} {c : Consumer} (hlev : 0 < c.level)
    (hw : i ∈ c.walk) (h : c.Doubles i n) : ¬OneProbe (c.grant i n) := by
  obtain ⟨ht, j, hj, hne⟩ := h
  intro ho
  rw [← (samePace_grant i n c).level] at hlev
  exact hne (ho hlev j i (holds_grant_of_ne hj hne n) (holds_grant hw ht))

theorem oneProbe_refill {c : Consumer} (ho : OneProbe c) (i : Nat) : OneProbe (c.refill i) := by
  rcases Nat.eq_zero_or_pos c.level with hlev | hlev
  · exact oneProbe_of_level ((samePace_refill i c).level.trans hlev)
  · rwa [refill_of_level hlev]

theorem oneProbe_changeMaxInFlight {c : Consumer} (ho : OneProbe c) (n : Int) :
    OneProbe (c.changeMaxInFlight n) := by
  rcases Nat.eq_zero_or_pos c.level with hlev | hlev
  · exact oneProbe_of_level ((sameBeat_changeMaxInFlight n c).level.trans hlev)
  · rw [changeMaxInFlight_of_level hlev]
    exact ho

/-- Hushed links have no credit. -/
theorem not_holds_of_hushed {c : Consumer} (h : Metered c) {i : Nat} (hi : Hushed c i) :
    c.holds i = false := by
  rw [Bool.eq_false_iff]
  intro hh
  obtain ⟨-, conn, hconn, hcl, hr⟩ := holds_iff.mp hh
  obtain ⟨l, hl, rfl⟩ := conn?_eq_some_iff.mp hconn
  have hlr : l.conn.lastRdy = 0 := hi l.conn hconn hcl
  have hf := (h.fair l (List.mem_of_getElem? hl) (by omega)).2.1
  omega

/-- After a signal that counted no link has credit while the pace is reduced. -/
theorem oneProbe_signal {c : Consumer} (h : Metered c) (ho : OneProbe c) (chance : Nat → Nat)
    (s : Signal) : OneProbe (c.signal chance s) := by
  rcases signal_cases h chance s with ⟨-, heq⟩ | ⟨hm, hl | ⟨-, hs⟩⟩
  · rwa [heq]
  · exact oneProbe_of_level hl
  · intro _ i j hi _
    have hw := (holds_iff.mp hi).1
    rw [walk, (dealing_signal chance s c).lending.live] at hw
    rw [not_holds_of_hushed hm (hs i hw)] at hi
    exact absurd hi (by simp)

/-! ### Acts that deal credit out -/

theorem oneProbe_retry {env : Surroundings} {addr : String} {count : Int} {c : Consumer}
    (ho : OneProbe c) (hord : Orderly c) (hc : ¬Crowds env (.retry addr count) c) :
    OneProbe (c.retry addr count) := by
  unfold retry
  split
  · rename_i i hi
    exact oneProbe_grant ho hord fun hlev hd => hc ⟨hlev, i, hi, hd⟩
  · exact ho

/-- A probe is one grant, whatever becomes of the pause. -/
theorem oneProbe_resume_iff {chance : Nat → Nat} {i : Nat} {c : Consumer}
    (hs : c.stopping = false) (hi : c.walk[chance 0 % c.live.length]? = some i) :
    OneProbe (c.resume chance) ↔ OneProbe (Consumer.grant i 1 { c with armed := false }) := by
  have hi' : ({ c with armed := false } : Consumer).walk[chance 0 %
      ({ c with armed := false } : Consumer).live.length]? = some i := hi
  unfold resume grant
  dsimp only
  rw [if_neg (by simp [hs]), hi']
  dsimp only
  rcases hu : Consumer.updateRdy i 1 { c with armed := false } with ⟨_ | _, c'⟩ <;> exact Iff.rfl

theorem oneProbe_resume {env : Surroundings} {c : Consumer} (ho : OneProbe c) (hord : Orderly c)
    (hc : ¬Crowds env .resume c) : OneProbe (c.resume env.chance) := by
  cases hs : c.stopping with
  | true =>
    unfold resume
    dsimp only
    rwa [if_pos hs]
  | false =>
    cases hi : c.walk[env.chance 0 % c.live.length]? with
    | none =>
      have hi' : ({ c with armed := false } : Consumer).walk[env.chance 0 %
          ({ c with armed := false } : Consumer).live.length]? = none := hi
      unfold resume
      dsimp only
      rw [if_neg (by simp [hs]), hi']
      exact ho
    | some i =>
      have ho' : OneProbe { c with armed := false } := ho
      have hord' : Orderly { c with armed := false } := ⟨hord.tidy, hord.listed⟩
      rw [oneProbe_resume_iff hs hi]
      exact oneProbe_grant ho' hord' fun hlev hd => hc ⟨hlev, hs, i, hi, hd⟩

/-- With one link in use there is one probe at most. -/
theorem oneProbe_of_length {c : Consumer} (h : c.live.length ≤ 1) : OneProbe c := by
  intro _ i j hi hj
  have hi := (holds_iff.mp hi).1
  have hj := (holds_iff.mp hj).1
  unfold walk at hi hj
  match hl : c.live with
  | [] => simp [hl] at hi
  | [e] =>
    simp only [hl, List.map_cons, List.map_nil, List.mem_singleton] at hi hj
    rw [hi, hj]
  | e :: e' :: es => simp [hl] at h

theorem fewer_reclaimed (c : Consumer) : Fewer c c.reclaimed := by
  have ht : Fewer c { c with respread := false, share := 0 } := .of_eq rfl (fun _ => id) rfl
  exact ht.trans (fewer_reclaim _ _)

/-- One grant at most leaves one probe unless it doubles it. -/
theorem oneProbe_scatter {chance : Nat → Nat} {n : Nat} {is : List Nat} {c : Consumer}
    (ho : OneProbe c) (hord : Orderly c)
    (hn : n = 0 ∨ n = 1 ∧ ∀ i, is[chance 0 % is.length]? = some i → 0 < c.level → ¬c.Doubles i 1) :
    OneProbe (scatter chance n is c) := by
  rcases hn with rfl | ⟨rfl, hone⟩
  · exact ho
  · unfold scatter
    dsimp only
    split
    · exact ho
    · rename_i i hi
      exact oneProbe_grant ho hord (hone i hi)

/-- A budget of one message is one grant at most where no credit is owed. -/
theorem oneProbe_scatterUpTo {chance : Nat → Nat} {is : List Nat} {c : Consumer} (ho : OneProbe c)
    (hord : Orderly c) (hlow : 0 ≤ c.totalRdy) (hhigh : c.totalRdy < 2 ^ 63)
    (hzero : c.totalRdy = 0 →
      ∀ i, is[chance 0 % is.length]? = some i → 0 < c.level → ¬c.Doubles i 1) :
    OneProbe (scatterUpTo chance 1 is c) := by
  have hspare : c.spare 1 = 1 - c.totalRdy := rfl
  rw [scatterUpTo, check_of_isWord64 (isWord64_iff.mpr (by omega)),
    word64_eq_self (by omega) (by omega)]
  refine oneProbe_scatter ho hord ?_
  rcases Int.le_iff_lt_or_eq.mp hlow with hpos | heq
  · exact .inl (by omega)
  · exact .inr ⟨by omega, hzero heq.symm⟩

/-- Credit is spread to one link at most if no link is overdrawn. -/
theorem oneProbe_redistribute {env : Surroundings} {c : Consumer} (ho : OneProbe c)
    (hord : Orderly c) (hb : Balanced c) (hc : ¬Crowds env .redistribute c) :
    OneProbe (c.redistribute env.chance) := by
  rcases Nat.eq_zero_or_pos c.level with hlev | hlev
  · exact oneProbe_of_level ((sameBeat_redistribute env.chance c).level.trans hlev)
  by_cases hone : c.live.length ≤ 1
  · refine oneProbe_of_length ?_
    rwa [(dealing_redistribute env.chance c).lending.live]
  by_cases hdue : (c.inPause || c.live.isEmpty) = false ∧ (c.respread || c.wantsRespread) = true
  · obtain ⟨hp, hw⟩ := hdue
    rw [redistribute_of_level hlev hp hw]
    have hd := dealing_reclaimed c
    have hbal : Balanced c.reclaimed := hb.dealing hord hd
    have hlt : c.reclaimed.totalRdy < 2 ^ 63 := hbal ▸ word64_lt_pow _
    -- the total is not negative, so one grant at most is left, and it doubles no probe
    rw [Bool.or_eq_false_iff] at hp
    have hn := fun h => hc ⟨hlev, hp.1, Nat.lt_of_not_le hone, h⟩
    rw [imp_false, not_or, not_and, Int.not_lt] at hn
    obtain ⟨hnonneg, hzero⟩ := hn
    exact oneProbe_scatterUpTo ((fewer_reclaimed c).oneProbe ho) (hord.lending hd.lending) hnonneg
      hlt fun heq i hi _ hdouble => hzero heq ⟨i, hi, hdouble⟩
  · rwa [redistribute_eq_self hdue]

theorem mem_walk_of_serving? {addr : String} {i : Nat} {c : Consumer}
    (h : c.serving? addr = some i) : i ∈ c.walk :=
  List.mem_map_of_mem (mem_live_of_serving? h)

/-- What is said to crowd a probe does so. Only where credit is spread anew while the total is
negative, it is left to chance which links are drawn and whether they take their grants. -/
theorem not_oneProbe_of_crowds {env : Surroundings} {a : Act} {c : Consumer} (h : Crowds env a c)
    (ht : a = .redistribute → c.reclaimed.totalRdy = 0) : ¬OneProbe (c.act env a).2 := by
  obtain ⟨hlev, h⟩ := h
  cases a with
  | retry addr count =>
    obtain ⟨i, hi, hd⟩ := h
    have heq : c.retry addr count = c.grant i count := by simp [retry, hi]
    show ¬OneProbe (c.retry addr count)
    rw [heq]
    exact not_oneProbe_grant hlev (mem_walk_of_serving? hi) hd
  | resume =>
    obtain ⟨hs, i, hi, hd⟩ := h
    show ¬OneProbe (c.resume env.chance)
    rw [oneProbe_resume_iff hs hi]
    have hlev' : 0 < ({ c with armed := false } : Consumer).level := hlev
    exact not_oneProbe_grant hlev' (List.mem_of_getElem? hi) hd
  | redistribute =>
    obtain ⟨hp, hlen, h⟩ := h
    have hzero := ht rfl
    obtain ⟨-, i, hi, hd⟩ := h.resolve_left (by omega)
    have hempty : c.live.isEmpty = false := by
      cases hl : c.live with
      | nil => simp [hl] at hlen
      | cons e es => rfl
    have hw : c.wantsRespread = true := by simp [wantsRespread, inBackoff, hlev, hlen]
    -- a total of zero leaves one grant
    have hscatter : c.redistribute env.chance = c.reclaimed.grant i 1 := by
      have hone : c.reclaimed.spare 1 = 1 := by rw [spare, hzero, Int.sub_zero]
      have hword : (word64 1).toNat = 1 := by decide
      rw [redistribute_of_level hlev (by simp [hp, hempty]) (by simp [hw]), scatterUpTo, hone,
        hword, check_of_isWord64 (by decide)]
      unfold scatter
      simp only [hi]
      rfl
    have hwalk : i ∈ c.reclaimed.walk := by
      rw [walk, (dealing_reclaimed c).lending.live]
      exact mem_spreadOrder.mp (List.mem_of_getElem? hi)
    show ¬OneProbe (c.redistribute env.chance)
    rw [hscatter]
    exact not_oneProbe_grant ((sameBeat_reclaimed c).level ▸ hlev) hwalk hd
  | _ => exact absurd h id

/-! ### Moves -/

theorem OneProbe.passAnswer {c : Consumer} (ho : OneProbe c) (h : Paced c) (chance : Nat → Nat)
    (i : Nat) (m : Message) (a : Answer) : OneProbe (c.passAnswer chance i m a) := by
  suffices hboth : Paced (c.passAnswer chance i m a) ∧ OneProbe (c.passAnswer chance i m a) from
    hboth.2
  refine passAnswer_invariant (I := fun c => Paced c ∧ OneProbe c) ⟨h, ho⟩ ?_ ?_ ?_ ?_
  · exact fun conn hi => ⟨h.putConn hi rfl rfl rfl id, ho.putConn hi rfl id⟩
  · rintro d ⟨hpd, hod⟩
    refine ⟨hpd.countAnswer a, ?_⟩
    cases a <;> exact hod
  · rintro d ⟨hpd, hod⟩
    exact ⟨hpd.signal chance a.signal, oneProbe_signal hpd.toMetered hod chance a.signal⟩
  · rintro d ⟨hpd, hod⟩
    refine ⟨hpd.sendAnswer i m a, hod.modifyLink fun l _ => ?_⟩
    have hs := Connection.steady_sendAnswer m a l.conn
    exact ⟨hs.closing, fun _ _ _ => hs.rdy ▸ id⟩

theorem OneProbe.settleLink {c : Consumer} (ho : OneProbe c) (i : Nat) :
    OneProbe (c.settleLink i) := by
  cases hi : c.conn? i with
  | none => rwa [settleLink_of_none hi]
  | some conn =>
    have hs := Connection.steady_settled conn
    rcases settleLink_cases hi with ⟨heq, -⟩ | ⟨-, -, hr⟩
    · rw [heq]
      exact ho.putConn hi hs.rdy hs.closing
    · have hp : OneProbe (c.putConn i { conn.settled with closed := true }) :=
        ho.putConn hi hs.rdy hs.closing
      refine Fewer.oneProbe (.of_eq hr.links (fun e he => ?_) hr.level) hp
      rw [hr.live] at he
      exact (List.mem_filter.mp he).1

theorem OneProbe.openLink {c : Consumer} (ho : OneProbe c) {l : Link} (hl : l.conn.rdy = 0) :
    OneProbe (c.openLink l).2 := by
  suffices hfew : Fewer c (c.openLink l).2 from hfew.oneProbe ho
  refine ⟨id, fun j hj => ?_⟩
  rw [holds_iff] at hj ⊢
  obtain ⟨hw, conn, hconn, hcl, hr⟩ := hj
  rcases conn?_of_openLink hconn with hconn | rfl
  · exact ⟨hw, conn, hconn, hcl, hr⟩
  · omega

theorem OneProbe.enter {c : Consumer} (ho : OneProbe c) {i : Nat} {conn : Connection}
    (hi : c.conn? i = some conn) (hr : conn.rdy = 0) : OneProbe (c.enter conn.address i) := by
  suffices hfew : Fewer c (c.enter conn.address i) from hfew.oneProbe ho
  refine ⟨id, fun j hj => ?_⟩
  rw [holds_iff] at hj ⊢
  obtain ⟨hw, conn', hconn, hcl, hpos⟩ := hj
  obtain ⟨e, he, rfl⟩ := List.mem_map.mp hw
  rcases List.mem_append.mp he with he | he
  · exact ⟨List.mem_map_of_mem (List.mem_filter.mp he).1, conn', hconn, hcl, hpos⟩
  · obtain rfl := List.mem_singleton.mp he
    obtain rfl := Option.some.inj (hi.symm.trans hconn)
    omega

theorem OneProbe.welcome {c : Consumer} (ho : OneProbe c) {l : Link} (hl : l.conn.rdy = 0) :
    OneProbe (c.welcome l) :=
  (ho.openLink hl).enter (conn?_openLink l c) hl

/-- Acts of the consumer's own that cannot give credit to a second link. -/
def Uncrowded (env : Surroundings) (a : Act) (c : Consumer) : Prop :=
  Own env a c ∧ ¬Crowds env a c

/-- **Moves that crowd nobody leave one probe at most.** -/
theorem OneProbe.move {c c' : Consumer} (ho : OneProbe c) (h : Paced c) (hord : Orderly c)
    (hb : Balanced c) (hm : Move Uncrowded c c') (hr : InRange c') : OneProbe c' := by
  have hr₀ : InRange c := hr.of_grown (.move hm)
  cases hm with
  | note hn => exact (Fewer.of_eq hn.links (fun _ he => hn.live ▸ he) hn.level).oneProbe ho
  | adjust hq =>
    refine ho.modifyLink fun l hl => ?_
    have hs := (hq l hl).steady
    exact ⟨hs.closing, fun _ _ _ => hs.rdy ▸ id⟩
  | refill i => exact oneProbe_refill ho i
  | signal chance s => exact oneProbe_signal h.toMetered ho chance s
  | respread => exact ho
  | stop => exact ho
  | reject hl => exact ho.openLink hl.rdy
  | join hl => exact ho.welcome hl.rdy
  | arrive m rest hi =>
    have ht : ∀ total received offers, OneProbe
        { c with totalRdy := total, received := received, offers := offers } := fun _ _ _ => ho
    refine (ht _ _ _).modifyLink fun l hl => ?_
    obtain rfl := conn_eq_of_links hl hi
    -- a message takes credit off its link, and does not wrap it around
    refine ⟨id, fun hlev hw hcl hpos => ?_⟩
    have hlr := h.granted hlev _ hw l.conn hi hcl
    have hmax := (hr₀.maxRdy l (List.mem_of_getElem? hl)).2
    replace hpos : 0 < word64 (l.conn.rdy - 1) := hpos
    rw [h.arrive_rdy hr.received hl hmax hlr] at hpos
    omega
  | bounce i m a => exact ho.passAnswer h _ i m a
  | take =>
    have ht : ∀ offers handed, OneProbe { c with offers := offers, handed := handed } :=
      fun _ _ => ho
    exact (ht _ _).modifyLink fun l _ => ⟨id, fun _ _ _ => id⟩
  | answer a =>
    have ht : ∀ n s, OneProbe (c.putState n s) := fun _ _ => ho
    have hp : ∀ n s, Paced (c.putState n s) := fun _ _ => { h with }
    exact (ht _ _).passAnswer (hp _ _) _ _ _ a
  | settle i => exact ho.settleLink i
  | @direct env a hok ha =>
    obtain ⟨hok, hc⟩ := hok
    cases a with
    | attach link =>
      have hl : link.Fresh c.policy := hok
      exact ho.welcome hl.rdy
    | retry addr count => exact oneProbe_retry ho hord hc
    | resume => exact oneProbe_resume ho hord hc
    | redistribute => exact oneProbe_redistribute ho hord hb hc
    | changeMaxInFlight n => exact oneProbe_changeMaxInFlight ho n
    | retire i => exact absurd hok id
    | updateRdy i count => exact absurd hok id
    | sendRdy i count => exact absurd hok id
    | _ => simp [Act.isDirect] at ha

/-! ### Runs -/

/-- An act that crowds nobody, and everything that follows from it, leaves one probe at most. -/
theorem oneProbe_step {env : Surroundings} {a : Act} {c : Consumer} (h : Known c) (ho : OneProbe c)
    (hok : Uncrowded env a c) (hr : InRange (c.step env a).2) : OneProbe (c.step env a).2 := by
  let I (c : Consumer) := Known c ∧ (InRange c → OneProbe c)
  have hstep : I (c.step env a).2 := by
    refine moves_invariant (step_moves hok) (I := I) (fun c₁ c₂ ⟨hk, hone⟩ hm => ?_)
      ⟨h, fun _ => ho⟩
    refine ⟨hk.move (hm.mono fun _ _ _ => And.left), fun hr => ?_⟩
    have hr₁ : InRange c₁ := hr.of_grown (.move hm)
    exact (hone hr₁).move (hk.paced hr₁) hk.orderly hk.balanced hm hr
  exact hstep.2 hr

/-- **One probe at a time, unless it gets crowded.** Along every run of the consumer's own acts
whose numbers are in range, at most one link in use has credit while the pace is reduced; or the run
contains an act that found one probe and led to two, and that act retried a grant, ended a pause or
spread the credit anew while another link had credit or some link was overdrawn. Wherever such an
act happens there are two probes after it. -/
theorem oneProbe_or_crowded {s : Subscription} {c : Consumer}
    (h : Reaches Own (ofSubscription s) c) (hr : InRange c) :
    (OneProbe c ∨
      ∃ c₁ env a, Reaches Own (ofSubscription s) c₁ ∧ Own env a c₁ ∧ OneProbe c₁ ∧
        Crowds env a c₁ ∧ ¬OneProbe (c₁.step env a).2 ∧ Reaches Own (c₁.step env a).2 c) ∧
      ∀ env a, Crowds env a c → (a = .redistribute → c.reclaimed.totalRdy = 0) →
        ¬OneProbe (c.act env a).2 := by
  refine ⟨?_, fun env a => not_oneProbe_of_crowds⟩
  -- the first act that leads from one probe to two
  induction h with
  | refl => exact .inl (oneProbe_of_level rfl)
  | @step c' env a h ha ih =>
    rcases ih (hr.of_grown (grown_step c')) with ho | ⟨c₁, env₁, a₁, h₁, ha₁, ho₁, hc₁, hn₁, hlast⟩
    · by_cases ho' : OneProbe (c'.step env a).2
      · exact .inl ho'
      · refine .inr ⟨c', env, a, h, ha, ho, ?_, ho', .refl⟩
        -- an act that crowds nobody would have left one probe
        by_contra hc
        exact ho' (oneProbe_step (known_of_reaches h) ho ⟨ha, hc⟩ hr)
    · exact .inr ⟨c₁, env₁, a₁, h₁, ha₁, ho₁, hc₁, hn₁, hlast.step ha⟩

/-- A probe that is answered by two messages leaves its link overdrawn, and the credit that is
spread next makes up for it: both links get some. -/
theorem two_probes_of_overdrawn :
    let c := sample.stepAll silence
      [.addHandlers 4, .attach (sampleLink "h:1" 2500), .signal .backoff, .resume,
        .feed 0 (sampleMessage 1), .feed 0 (sampleMessage 2), .attach (sampleLink "h:2" 2500),
        .redistribute]
    0 < c.level ∧ c.holds 0 = true ∧ c.holds 1 = true ∧
      ∃ c₁ env a, Reaches Own sample c₁ ∧ Own env a c₁ ∧ OneProbe c₁ ∧ Crowds env a c₁ ∧
        ¬OneProbe (c₁.step env a).2 ∧ Reaches Own (c₁.step env a).2 c := by
  intro c
  have hlev : 0 < c.level := by decide +kernel
  have h0 : c.holds 0 = true := by decide +kernel
  have h1 : c.holds 1 = true := by decide +kernel
  refine ⟨hlev, h0, h1, ?_⟩
  have hreach : Reaches Own sample c := by
    refine reaches_stepAll ⟨trivial, ?_, trivial, ?_, trivial, trivial, ?_, trivial, trivial⟩
    · exact ⟨⟨by decide +kernel, rfl, rfl, rfl, rfl, rfl, rfl, rfl, rfl⟩, rfl⟩
    · show Consumer.armed _ = true
      decide +kernel
    · exact ⟨⟨by decide +kernel, rfl, rfl, rfl, rfl, rfl, rfl, rfl, rfl⟩, rfl⟩
  have hrange : InRange c := ⟨by decide +kernel, by decide +kernel⟩
  refine (oneProbe_or_crowded hreach hrange).1.resolve_left fun ho => ?_
  exact absurd (ho hlev 0 1 h0 h1) (by decide)

end Nsq.Consumer
