import Nsq.Proofs.Consumer.Links

/-!
# What grants do

Every operation on the pace and on the spread of credit deals credit out: it books grants on links
that may still take one, and sets the numbers by which the consumer decides (`Dealing`). What such a
**dealing** leaves alone is said once for all of them (`Lending`): the messages and who holds them,
the table of links, and of every link all but its credit.

`updateRdy_cases` tells apart what may become of asking for a grant: nobody is there to take it, the
budget refuses it, there is no need for it, or its `allotment` is booked.
-/

namespace Nsq

/-! ### A granted credit -/

/-- A connection on which a credit was booked, and the daemon told. -/
def Connection.granted (n : Int) (c : Connection) : Connection :=
  ((c.setRdy n).2.write (.ready n)).2.2

namespace Connection

theorem granted_eq (n : Int) (c : Connection) :
    c.granted n = { c with
      rdy := n
      lastRdy := n
      closing := c.closing || c.refusing && c.policy.closesOnFault
      sent := if c.refusing then c.sent else c.sent ++ [.ready n] } := by
  unfold granted write setRdy
  have hf : (Command.ready n).fits = true := rfl
  cases hr : c.refusing <;> simp [hf, report_eq]

@[simp] theorem granted_rdy (n : Int) (c : Connection) : (c.granted n).rdy = n := by
  rw [granted_eq]

@[simp] theorem granted_lastRdy (n : Int) (c : Connection) : (c.granted n).lastRdy = n := by
  rw [granted_eq]

end Connection

theorem Link.lent_granted (n : Int) (l : Link) : l.Lent { l with conn := l.conn.granted n } := by
  rw [Connection.granted_eq]
  exact ⟨rfl, rfl, rfl, rfl, rfl, rfl, rfl, rfl, fun h => by simp [h], rfl, rfl⟩

namespace Consumer

/-! ### Evaluating a sum -/

/-- A sum that is a word leaves nothing to note. -/
theorem check_of_isWord64 {n : Int} (h : isWord64 n = true) (op : Overflow) (c : Consumer) :
    c.check op n = c := by
  simp [check, h]

/-! ### Asking for a grant -/

/-- The consumer after a credit was booked on a link. -/
def booked (i : Nat) (conn : Connection) (n : Int) (c : Consumer) : Consumer :=
  { c with
    totalRdy := word64 (c.totalRdy + (n - conn.rdy))
    overflow := (c.check .subtract (n - conn.rdy)).overflow }.putConn i (conn.granted n)

theorem conn?_booked_self {i : Nat} {conn : Connection} {c : Consumer} (h : c.conn? i = some conn)
    (n : Int) : (c.booked i conn n).conn? i = some (conn.granted n) :=
  conn?_putConn_self (c := { c with totalRdy := _, overflow := _ }) h _

theorem conn?_booked_of_ne {i j : Nat} (hij : i ≠ j) (conn : Connection) (n : Int) (c : Consumer) :
    (c.booked i conn n).conn? j = c.conn? j :=
  conn?_modifyLink_of_ne hij _ _

/-- What of a grant is left to a link by the daemon and the budget. -/
def allotment (conn : Connection) (count : Int) (c : Consumer) : Int :=
  if 0 < c.roomFor conn.rdy then min (c.roomFor conn.rdy) (min count conn.maxRdy)
  else min count conn.maxRdy

/-- The budget leaves nothing of a grant. -/
def Refuses (conn : Connection) (count : Int) (c : Consumer) : Prop :=
  c.roomFor conn.rdy ≤ 0 ∧ 0 < min count conn.maxRdy

theorem allotment_le_maxRdy (conn : Connection) (count : Int) (c : Consumer) :
    c.allotment conn count ≤ conn.maxRdy := by
  unfold allotment
  split_ifs <;> omega

theorem allotment_le_count (conn : Connection) (count : Int) (c : Consumer) :
    c.allotment conn count ≤ count := by
  unfold allotment
  split_ifs <;> omega

theorem allotment_le_roomFor {conn : Connection} {c : Consumer} (h : 0 < c.roomFor conn.rdy)
    (count : Int) : c.allotment conn count ≤ c.roomFor conn.rdy := by
  rw [allotment, if_pos h]
  exact Int.min_le_left _ _

theorem allotment_nonneg {conn : Connection} {count : Int} (c : Consumer) (hc : 0 ≤ count)
    (hm : 0 ≤ conn.maxRdy) : 0 ≤ c.allotment conn count := by
  unfold allotment
  split_ifs <;> omega

theorem allotment_zero {conn : Connection} (c : Consumer) (hm : 0 ≤ conn.maxRdy) :
    c.allotment conn 0 = 0 := by
  unfold allotment
  split_ifs <;> omega

theorem allotment_pos {conn : Connection} {count : Int} (c : Consumer) (hc : 0 < count)
    (hm : 0 < conn.maxRdy) : 0 < c.allotment conn count := by
  unfold allotment
  split_ifs <;> omega

/-- A grant is booked unless it says again that there is no credit. -/
theorem sendRdy_cases {i : Nat} {conn : Connection} {c : Consumer} (h : c.conn? i = some conn)
    (n : Int) :
    (n = 0 ∧ conn.lastRdy = 0 ∧ c.sendRdy i n = (.ok (), c)) ∨
      ∃ r, c.sendRdy i n = (r, c.booked i conn n) ∧ (conn.refusing = false → r = .ok ()) ∧
        (n = 0 → conn.lastRdy ≠ 0) := by
  unfold sendRdy booked Connection.granted
  rw [h]
  by_cases h0 : n = 0 ∧ conn.lastRdy = 0
  · exact .inl ⟨h0.1, h0.2, by simp [h0]⟩
  · right
    have hne : n = 0 → conn.lastRdy ≠ 0 := not_and.mp h0
    simp only [h0, if_false]
    have hf : (Command.ready n).fits = true := rfl
    cases hr : conn.refusing <;>
      simpa [Connection.write, Connection.setRdy, check, hf, hr] using hne

theorem mem_dropRetry {addr : String} {c : Consumer} {e : String × Int} :
    e ∈ (c.dropRetry addr).retries ↔ e.1 ≠ addr ∧ e ∈ c.retries := by
  simp [dropRetry, and_comm]

/-- What may become of asking for a grant. -/
theorem updateRdy_cases (i : Nat) (count : Int) (c : Consumer) :
    (∃ e, c.updateRdy i count = (.error e, c) ∧
        ∀ conn, c.conn? i = some conn → conn.closing = true) ∨
      ∃ conn, c.conn? i = some conn ∧ conn.closing = false ∧
        ((c.Refuses conn count ∧
            ∃ rs, c.updateRdy i count = (.error .overMaxInFlight,
                { c with retries := rs, overflow := (c.measure conn).overflow }) ∧
              ∀ e ∈ rs, e.1 = conn.address ∧ 0 < e.2 ∧ e.2 ≤ count ∨
                e.1 ≠ conn.address ∧ e ∈ c.retries) ∨
          (¬c.Refuses conn count ∧
            c.updateRdy i count = (c.measure conn).sendRdy i (c.allotment conn count))) := by
  unfold updateRdy
  cases hc : c.conn? i with
  | none => exact .inl ⟨_, rfl, by simp⟩
  | some conn =>
    dsimp only
    cases hcl : conn.closing with
    | true => exact .inl ⟨_, rfl, by simpa using hcl⟩
    | false =>
      refine .inr ⟨conn, rfl, hcl, ?_⟩
      have hroom : (c.measure conn).roomFor conn.rdy = c.roomFor conn.rdy := rfl
      simp only [hroom, Bool.false_eq_true, if_false]
      by_cases hr : c.Refuses conn count
      · -- a link without credit is tried again, which is the only retry that is added
        refine .inl ⟨hr, ?_⟩
        have hr' : c.roomFor conn.rdy ≤ 0 ∧ 0 < min count conn.maxRdy := hr
        rw [if_pos hr']
        split_ifs
        · refine ⟨((c.measure conn).addRetry conn.address (min count conn.maxRdy)).retries, rfl,
            fun e he => ?_⟩
          rcases List.mem_append.mp he with he | he
          · exact .inr (mem_dropRetry.mp (List.mem_filter.mp he).1)
          · obtain rfl := List.mem_singleton.mp he
            exact .inl ⟨rfl, hr.2, Int.min_le_left _ _⟩
        · exact ⟨(c.measure conn).retries, rfl, fun e he => .inr (mem_dropRetry.mp he)⟩
      · exact .inr ⟨hr, if_neg hr⟩

/-- What a grant does to the links and to the total: nothing, because nobody may take it or there is
no need, or it books the allotment. -/
theorem grant_cases (i : Nat) (count : Int) (c : Consumer) :
    ((c.grant i count).links = c.links ∧ (c.grant i count).totalRdy = c.totalRdy ∧
        ∀ conn, c.conn? i = some conn → conn.closing = false →
          c.Refuses conn count ∨ c.allotment conn count = 0 ∧ conn.lastRdy = 0) ∨
      ∃ conn, c.conn? i = some conn ∧ conn.closing = false ∧ ¬c.Refuses conn count ∧
        (c.grant i count).links = (c.booked i conn (c.allotment conn count)).links ∧
        (c.grant i count).totalRdy = (c.booked i conn (c.allotment conn count)).totalRdy ∧
        (c.allotment conn count = 0 → conn.lastRdy ≠ 0) := by
  unfold grant
  rcases updateRdy_cases i count c with ⟨e, h, hc⟩ | ⟨conn, hi, hc, ⟨hr, rs, h, -⟩ | ⟨hr, h⟩⟩
  · refine .inl ⟨by rw [h], by rw [h], fun conn hi hcl => ?_⟩
    simp [hc conn hi] at hcl
  · refine .inl ⟨by rw [h], by rw [h], fun conn' hi' _ => .inl ?_⟩
    obtain rfl := Option.some.inj (hi.symm.trans hi')
    exact hr
  · have hi' : (c.measure conn).conn? i = some conn := hi
    rw [h]
    rcases sendRdy_cases hi' (c.allotment conn count) with ⟨h0, hl, h'⟩ | ⟨r, h', -, hne⟩ <;>
      rw [h']
    · refine .inl ⟨rfl, rfl, fun conn' hi'' _ => .inr ?_⟩
      obtain rfl := Option.some.inj (hi.symm.trans hi'')
      exact ⟨h0, hl⟩
    · exact .inr ⟨conn, hi, hc, hr, rfl, rfl, hne⟩

/-- What a link was before a grant: the same, or it was given the allotment. -/
theorem link_of_grant {i j : Nat} {count : Int} {c : Consumer} {l' : Link}
    (h : (c.grant i count).links[j]? = some l') :
    c.links[j]? = some l' ∨ j = i ∧ ∃ l, c.links[i]? = some l ∧ l.conn.closing = false ∧
      ¬c.Refuses l.conn count ∧
        l' = { l with conn := l.conn.granted (c.allotment l.conn count) } := by
  rcases grant_cases i count c with ⟨hl, -, -⟩ | ⟨conn, hi, hc, hr, hl, -⟩
  · exact .inl (hl ▸ h)
  · obtain ⟨l, hl', rfl⟩ := conn?_eq_some_iff.mp hi
    rw [hl] at h
    simp only [booked, putConn, modifyLink] at h
    by_cases hij : i = j
    · subst hij
      rw [List.getElem?_modify_eq, hl'] at h
      exact .inr ⟨rfl, l, hl', hc, hr, (Option.some.inj h).symm⟩
    · rw [List.getElem?_modify_ne _ _ hij] at h
      exact .inl h

/-- A grant concerns no other link. -/
theorem conn?_grant_of_ne {i j : Nat} (hij : i ≠ j) (count : Int) (c : Consumer) :
    (c.grant i count).conn? j = c.conn? j := by
  rcases grant_cases i count c with ⟨hl, -, -⟩ | ⟨conn, -, -, -, hl, -⟩
  · rw [conn?, hl, ← conn?]
  · rw [conn?, hl, ← conn?, conn?_booked_of_ne hij]

theorem conn?_of_grant {i j : Nat} {count : Int} {c : Consumer} {conn' : Connection}
    (h : (c.grant i count).conn? j = some conn') :
    c.conn? j = some conn' ∨ j = i ∧ ∃ conn, c.conn? i = some conn ∧ conn.closing = false ∧
      ¬c.Refuses conn count ∧ conn' = conn.granted (c.allotment conn count) := by
  obtain ⟨l', hl', rfl⟩ := conn?_eq_some_iff.mp h
  rcases link_of_grant hl' with hl | ⟨hji, l, hl, hc, hr, rfl⟩
  · exact .inl (conn?_of_links hl)
  · exact .inr ⟨hji, l.conn, conn?_of_links hl, hc, hr, rfl⟩

/-- A link that is open gets its allotment, if it asks for some credit and neither the budget nor
the daemon refuses it. -/
theorem conn?_grant {i : Nat} {conn : Connection} {n : Int} {c : Consumer}
    (hi : c.conn? i = some conn) (hc : conn.closing = false) (hr : ¬c.Refuses conn n) (hn : 0 < n)
    (hm : 0 < conn.maxRdy) :
    (c.grant i n).conn? i = some (conn.granted (c.allotment conn n)) := by
  have hpos := allotment_pos c hn hm
  rcases grant_cases i n c with ⟨-, -, hno⟩ | ⟨conn', hi', -, -, hl, -⟩
  · rcases hno conn hi hc with hr' | ⟨hzero, -⟩
    · exact absurd hr' hr
    · omega
  · obtain rfl := Option.some.inj (hi.symm.trans hi')
    rw [conn?, hl, ← conn?, conn?_booked_self hi]

/-- A link that is not refused a grant waits for none any more, and the others do as before. -/
theorem retries_grant {i : Nat} {conn : Connection} {n : Int} {c : Consumer}
    (hi : c.conn? i = some conn) (hc : conn.closing = false) (hr : ¬c.Refuses conn n) :
    (c.grant i n).retries = (c.dropRetry conn.address).retries := by
  unfold grant
  rcases updateRdy_cases i n c with ⟨e, -, hno⟩ | ⟨conn', hi', -, ⟨hyes, -⟩ | ⟨-, h⟩⟩
  · exact absurd (hno conn hi) (by simp [hc])
  · obtain rfl := Option.some.inj (hi.symm.trans hi')
    exact absurd hyes hr
  · obtain rfl := Option.some.inj (hi.symm.trans hi')
    have hd : (c.measure conn).conn? i = some conn := hi
    rw [h]
    rcases sendRdy_cases hd (c.allotment conn n) with ⟨-, -, h'⟩ | ⟨r, h', -⟩ <;> rw [h'] <;> rfl

/-- The grants to be tried again after a grant are old ones, but none that its link waited for, or
the grant itself was refused. -/
theorem retries_grant_cases {i : Nat} {count : Int} {c : Consumer} {e : String × Int}
    (he : e ∈ (c.grant i count).retries) :
    (e ∈ c.retries ∧
        ∀ conn, c.conn? i = some conn → conn.closing = false → e.1 ≠ conn.address) ∨
      ∃ conn, c.conn? i = some conn ∧ conn.closing = false ∧ c.Refuses conn count ∧
        e.1 = conn.address ∧ 0 < e.2 ∧ e.2 ≤ count := by
  rcases updateRdy_cases i count c with ⟨e', h, hc⟩ | ⟨conn, hi, hcl, ⟨hr, rs, h, hrs⟩ | ⟨hr, -⟩⟩
  · rw [grant, h] at he
    exact .inl ⟨he, fun conn hi hcl => by simp [hc conn hi] at hcl⟩
  · rw [grant, h] at he
    rcases hrs e he with ⟨ha, hpos⟩ | ⟨hne, hold⟩
    · exact .inr ⟨conn, hi, hcl, hr, ha, hpos⟩
    · refine .inl ⟨hold, fun conn' hi' _ => ?_⟩
      obtain rfl := Option.some.inj (hi.symm.trans hi')
      exact hne
  · rw [retries_grant hi hcl hr] at he
    refine .inl ⟨(mem_dropRetry.mp he).2, fun conn' hi' _ => ?_⟩
    obtain rfl := Option.some.inj (hi.symm.trans hi')
    exact (mem_dropRetry.mp he).1

theorem mem_retries_grant {i : Nat} {count : Int} {c : Consumer} {e : String × Int}
    (he : e ∈ (c.grant i count).retries) : e ∈ c.retries ∨ 0 < e.2 ∧ e.2 ≤ count :=
  (retries_grant_cases he).imp And.left fun ⟨_, _, _, _, _, hnew⟩ => hnew

/-- The level and the pause stay as they are. -/
structure SameBeat (c c' : Consumer) : Prop where
  level : c'.level = c.level
  pause : c'.pause = c.pause
  armed : c'.armed = c.armed

theorem SameBeat.refl (c : Consumer) : SameBeat c c := ⟨rfl, rfl, rfl⟩

theorem SameBeat.trans {c c' c'' : Consumer} (h : SameBeat c c') (h' : SameBeat c' c'') :
    SameBeat c c'' :=
  ⟨h'.1.trans h.1, h'.2.trans h.2, h'.3.trans h.3⟩

instance : Trans SameBeat SameBeat SameBeat := ⟨SameBeat.trans⟩

/-- The numbers that a grant leaves alone: the consumer decides by them whether to grant at all. -/
structure SamePace (c c' : Consumer) : Prop extends SameBeat c c' where
  respread : c'.respread = c.respread
  maxInFlight : c'.maxInFlight = c.maxInFlight
  share : c'.share = c.share

theorem SamePace.refl (c : Consumer) : SamePace c c := ⟨.refl c, rfl, rfl, rfl⟩

theorem SamePace.trans {c c' c'' : Consumer} (h : SamePace c c') (h' : SamePace c' c'') :
    SamePace c c'' :=
  ⟨h.toSameBeat.trans h'.toSameBeat, h'.2.trans h.2, h'.3.trans h.3, h'.4.trans h.4⟩

instance : Trans SamePace SamePace SamePace := ⟨SamePace.trans⟩

theorem SamePace.foldl {f : Consumer → Nat → Consumer} (hf : ∀ c i, SamePace c (f c i))
    (is : List Nat) (c : Consumer) : SamePace c (is.foldl f c) :=
  List.foldlRecOn is f (.refl c) fun c' h i _ => h.trans (hf c' i)

theorem samePace_sendRdy (i : Nat) (n : Int) (c : Consumer) : SamePace c (c.sendRdy i n).2 := by
  cases hi : c.conn? i with
  | none => simpa [sendRdy, hi] using .refl c
  | some conn =>
    rcases sendRdy_cases hi n with ⟨-, -, h⟩ | ⟨r, h, -⟩ <;> rw [h]
    · exact .refl c
    · exact ⟨⟨rfl, rfl, rfl⟩, rfl, rfl, rfl⟩

theorem samePace_updateRdy (i : Nat) (count : Int) (c : Consumer) :
    SamePace c (c.updateRdy i count).2 := by
  rcases updateRdy_cases i count c with ⟨e, h, -⟩ | ⟨conn, hi, -, ⟨-, rs, h, -⟩ | ⟨-, h⟩⟩ <;> rw [h]
  · exact .refl c
  · exact ⟨⟨rfl, rfl, rfl⟩, rfl, rfl, rfl⟩
  · calc
      SamePace c (c.measure conn) := ⟨⟨rfl, rfl, rfl⟩, rfl, rfl, rfl⟩
      SamePace _ _ := samePace_sendRdy i _ _

theorem samePace_grant (i : Nat) (count : Int) (c : Consumer) : SamePace c (c.grant i count) :=
  samePace_updateRdy i count c

theorem samePace_retry (addr : String) (count : Int) (c : Consumer) :
    SamePace c (c.retry addr count) := by
  unfold retry
  split
  · exact samePace_grant _ count c
  · exact ⟨⟨rfl, rfl, rfl⟩, rfl, rfl, rfl⟩

theorem samePace_grantAll (is : List Nat) (count : Int) (c : Consumer) :
    SamePace c (c.grantAll is count) :=
  .foldl (fun c i => samePace_grant i count c) is c

theorem samePace_reclaim (is : List Nat) (c : Consumer) : SamePace c (c.reclaim is) := by
  refine .foldl (fun c i => ?_) is c
  split_ifs
  · exact samePace_grant i 0 c
  · exact .refl c

theorem samePace_scatter (chance : Nat → Nat) (n : Nat) (is : List Nat) (c : Consumer) :
    SamePace c (scatter chance n is c) := by
  induction n generalizing is c with
  | zero => exact .refl c
  | succ n ih =>
    unfold scatter
    dsimp only
    split
    · exact .refl c
    · exact (samePace_grant _ 1 c).trans (ih _ _)

theorem samePace_scatterUpTo (chance : Nat → Nat) (budget : Int) (is : List Nat) (c : Consumer) :
    SamePace c (scatterUpTo chance budget is c) :=
  calc
    SamePace c (c.check .subtract (c.spare budget)) := ⟨⟨rfl, rfl, rfl⟩, rfl, rfl, rfl⟩
    SamePace _ _ := samePace_scatter chance _ is _

theorem samePace_evenOut (is : List Nat) (share : Int) (c : Consumer) :
    SamePace c (c.evenOut is share) :=
  calc
    SamePace c _ := .foldl (fun c i => samePace_grant i share c) _ c
    SamePace _ _ := .foldl (fun c i => samePace_grant i share c) _ _

/-- Apart from the share that is set first, spreading credit under the idle policy is granting. -/
theorem samePace_spreadToActive (chance : Nat → Nat) (active idle : List Nat) (c : Consumer) :
    SamePace { c with share := evenShare c.maxInFlight active.length }
      (c.spreadToActive chance active idle) :=
  calc
    SamePace _ _ := samePace_reclaim idle _
    SamePace _ _ := samePace_evenOut active _ _
    SamePace _ _ := samePace_scatterUpTo chance _ idle _

theorem samePace_spreadToAny (chance : Nat → Nat) (active idle : List Nat) (c : Consumer) :
    SamePace { c with share := 0 } (c.spreadToAny chance active idle) :=
  calc
    SamePace _ _ := samePace_reclaim idle _
    SamePace _ _ := samePace_scatterUpTo chance _ _ _

theorem samePace_refill (i : Nat) (c : Consumer) : SamePace c (c.refill i) := by
  unfold refill
  split_ifs
  · exact .refl c
  · split
    · exact .refl c
    · split_ifs
      · exact samePace_grant i c.perLink c
      · exact .refl c

theorem sameBeat_retry (addr : String) (count : Int) (c : Consumer) :
    SameBeat c (c.retry addr count) := by
  unfold retry
  split
  · exact (samePace_grant _ count c).toSameBeat
  · exact ⟨rfl, rfl, rfl⟩

theorem sameBeat_changeMaxInFlight (n : Int) (c : Consumer) :
    SameBeat c (c.changeMaxInFlight n) := by
  have ht : SameBeat c { c with maxInFlight := n } := ⟨rfl, rfl, rfl⟩
  unfold changeMaxInFlight
  split_ifs
  · exact .refl c
  · dsimp only
    split_ifs
    · exact ht
    · exact List.foldlRecOn _ _ ht fun c' h i _ => h.trans (samePace_refill i c').toSameBeat

theorem sameBeat_redistribute (chance : Nat → Nat) (c : Consumer) :
    SameBeat c (c.redistribute chance) := by
  have ht : SameBeat c { c with respread := false } := ⟨rfl, rfl, rfl⟩
  unfold redistribute
  split_ifs
  · exact .refl c
  · dsimp only
    split_ifs
    · calc
        SameBeat c { c with respread := false } := ht
        SameBeat _ { c with respread := false, share := evenShare _ _ } := ⟨rfl, rfl, rfl⟩
        SameBeat _ _ := (samePace_spreadToActive chance _ _ { c with respread := false }).toSameBeat
    · calc
        SameBeat c { c with respread := false } := ht
        SameBeat _ { c with respread := false, share := 0 } := ⟨rfl, rfl, rfl⟩
        SameBeat _ _ := (samePace_spreadToAny chance _ _ { c with respread := false }).toSameBeat
  · exact .refl c

/-- At a reduced pace no link is refilled. -/
theorem refill_of_level {c : Consumer} (h : 0 < c.level) (i : Nat) : c.refill i = c := by
  simp [refill, inBackoff, h]

/-- At a reduced pace a change of the budget deals no credit out. -/
theorem changeMaxInFlight_of_level {c : Consumer} (h : 0 < c.level) (n : Int) :
    c.changeMaxInFlight n = { c with maxInFlight := n } := by
  unfold changeMaxInFlight
  split_ifs with hn
  · rw [← hn]
  · have hb : ({ c with maxInFlight := n } : Consumer).inBackoff = true := by
      simpa [inBackoff] using h
    dsimp only
    rw [if_pos hb]

/-! ### Dealing credit out -/

/-- What a consumer knows of its handlers: the messages that they are busy with, how often they were
called, how often they gave a message up and how they do it, and how many of them were lost. -/
def staff (c : Consumer) : List Nat × Nat × Nat × Nat × Handling :=
  (c.busy, c.handled, c.failed, c.lost, c.givingUp)

/-- A change of the numbers by which the consumer decides: its level and pause, its budget and the
shares, the grants to be tried again. -/
structure Tuned (c c' : Consumer) : Prop where
  subscription : c'.subscription = c.subscription
  received : c'.received = c.received
  finished : c'.finished = c.finished
  requeued : c'.requeued = c.requeued
  totalRdy : c'.totalRdy = c.totalRdy
  links : c'.links = c.links
  live : c'.live = c.live
  handed : c'.handed = c.handed
  offers : c'.offers = c.offers
  serving : c'.serving = c.serving
  stopping : c'.stopping = c.stopping
  daemons : c'.daemons = c.daemons
  reconnects : c'.reconnects = c.reconnects
  staff : c'.staff = c.staff
  handlers : c'.handlers = c.handlers
  pending : c'.pending = c.pending
  connected : c'.connected = c.connected
  exited : c'.exited = c.exited

/-- Credit is dealt out: grants are asked for, and the numbers by which the consumer decides are
set. -/
inductive Dealing (c : Consumer) : Consumer → Prop
  | refl : Dealing c c
  | ask {c' : Consumer} (i : Nat) (count : Int) (h : Dealing c c') :
      Dealing c (c'.updateRdy i count).2
  | tune {c' c'' : Consumer} (h : Dealing c c') (ht : Tuned c' c'') : Dealing c c''

namespace Dealing

theorem trans {c c' c'' : Consumer} (h : Dealing c c') (h' : Dealing c' c'') : Dealing c c'' := by
  induction h' with
  | refl => exact h
  | ask i count _ ih => exact ih.ask i count
  | tune _ ht ih => exact ih.tune ht

theorem of_tuned {c c' : Consumer} (h : Tuned c c') : Dealing c c' := refl.tune h

end Dealing

theorem tuned_dropRetry (addr : String) (c : Consumer) : Tuned c (c.dropRetry addr) := by
  constructor <;> rfl

theorem tuned_measure (conn : Connection) (c : Consumer) : Tuned c (c.measure conn) := by
  constructor <;> rfl

/-- Asking for a grant changes what is to be tried again, and books the grant if that is taken. -/
theorem updateRdy_invariant {I : Consumer → Prop} {i : Nat} {count : Int} {c : Consumer}
    (init : I c) (tune : ∀ d, I c → Tuned c d → I d)
    (book : ∀ d conn, I d → d.conn? i = some conn → conn.closing = false →
      ¬d.Refuses conn count → I (d.booked i conn (d.allotment conn count))) :
    I (c.updateRdy i count).2 := by
  rcases updateRdy_cases i count c with ⟨e, h, -⟩ | ⟨conn, hi, hc, ⟨-, rs, h, -⟩ | ⟨hr, h⟩⟩
  · rw [h]
    exact init
  · rw [h]
    exact tune _ init (by constructor <;> rfl)
  · have hd : I (c.measure conn) := tune _ init (tuned_measure conn c)
    have hi' : (c.measure conn).conn? i = some conn := hi
    rcases sendRdy_cases hi' (c.allotment conn count) with ⟨-, -, h'⟩ | ⟨r, h', -⟩ <;> rw [h, h']
    · exact hd
    · exact book _ conn hd hi' hc hr

/-- What is kept when a grant that the daemon takes is booked on an open link, and when the numbers
are set by which the consumer decides, is kept by a dealing. -/
theorem Dealing.invariant {I : Consumer → Prop} {c c' : Consumer} (h : Dealing c c') (init : I c)
    (tune : ∀ d d', I d → Tuned d d' → I d')
    (book : ∀ d i conn n, I d → d.conn? i = some conn → conn.closing = false → n ≤ conn.maxRdy →
      I (d.booked i conn n)) : I c' := by
  induction h with
  | refl => exact init
  | ask i count _ ih =>
    exact updateRdy_invariant ih (fun d => tune _ d) fun d conn hd hi hc _ =>
      book d i conn _ hd hi hc (allotment_le_maxRdy conn count d)
  | tune _ ht ih => exact tune _ _ ih ht

theorem dealing_updateRdy (i : Nat) (count : Int) (c : Consumer) :
    Dealing c (c.updateRdy i count).2 := .ask i count .refl

theorem dealing_grant (i : Nat) (count : Int) (c : Consumer) : Dealing c (c.grant i count) :=
  dealing_updateRdy i count c

theorem dealing_retry (addr : String) (count : Int) (c : Consumer) :
    Dealing c (c.retry addr count) := by
  unfold retry
  split
  · exact dealing_grant _ count c
  · exact .of_tuned (by constructor <;> rfl)

/-! ### Sharing the budget out -/

/-- A change of the numbers by which the consumer decides that leaves the budget, and adds nothing
to be tried again. -/
structure Retuned (c c' : Consumer) : Prop extends Tuned c c' where
  maxInFlight : c'.maxInFlight = c.maxInFlight
  retries : ∀ e ∈ c'.retries, e ∈ c.retries

/-- The consumer shares its budget out: it asks for grants with counts that are negative only if the
budget is. This is the way in which it deals credit out by itself. -/
inductive Sharing (c : Consumer) : Consumer → Prop
  | refl : Sharing c c
  | ask {c' : Consumer} (i : Nat) {count : Int} (h : Sharing c c')
      (hn : 0 ≤ count ∨ c.maxInFlight < 0) : Sharing c (c'.updateRdy i count).2
  | tune {c' c'' : Consumer} (h : Sharing c c') (ht : Retuned c' c'') : Sharing c c''

namespace Sharing

variable {c c' c'' : Consumer}

theorem dealing (h : Sharing c c') : Dealing c c' := by
  induction h with
  | refl => exact .refl
  | ask i _ _ ih => exact ih.ask i _
  | tune _ ht ih => exact ih.tune ht.toTuned

theorem maxInFlight (h : Sharing c c') : c'.maxInFlight = c.maxInFlight := by
  induction h with
  | refl => rfl
  | @ask d i count _ _ ih => exact (samePace_updateRdy i count d).maxInFlight.trans ih
  | tune _ ht ih => exact ht.maxInFlight.trans ih

/-- What is to be tried again was so before, or asks for some credit. -/
theorem retries (h : Sharing c c') : ∀ e ∈ c'.retries, e ∈ c.retries ∨ 0 < e.2 := by
  induction h with
  | refl => exact fun e he => .inl he
  | ask i _ _ ih => exact fun e he => (mem_retries_grant he).elim (ih e) fun hnew => .inr hnew.1
  | tune _ ht ih => exact fun e he => ih e (ht.retries e he)

theorem trans (h : Sharing c c') (h' : Sharing c' c'') : Sharing c c'' := by
  induction h' with
  | refl => exact h
  | ask i _ hn ih => exact ih.ask i (h.maxInFlight ▸ hn)
  | tune _ ht ih => exact ih.tune ht

instance : Trans (Sharing : Consumer → Consumer → Prop) Sharing Sharing := ⟨trans⟩

theorem of_retuned (h : Retuned c c') : Sharing c c' := refl.tune h

/-- A walk along links shares the budget out if every turn of it does. -/
theorem foldl {f : Consumer → Nat → Consumer} (hf : ∀ c i, Sharing c (f c i)) (is : List Nat)
    (c : Consumer) : Sharing c (is.foldl f c) :=
  List.foldlRecOn is f refl fun c' h i _ => h.trans (hf c' i)

end Sharing

/-- Evaluating a sum concerns nothing by which the consumer decides. -/
theorem sharing_check (op : Overflow) (n : Int) (c : Consumer) : Sharing c (c.check op n) :=
  .of_retuned ⟨by constructor <;> rfl, rfl, fun _ => id⟩

/-- The share of a link is negative only if the budget is. -/
theorem perLink_nonneg_or (c : Consumer) : 0 ≤ c.perLink ∨ c.maxInFlight < 0 := by
  unfold perLink
  split_ifs <;> omega

theorem sharing_grant {count : Int} {c : Consumer} (i : Nat)
    (h : 0 ≤ count ∨ c.maxInFlight < 0) : Sharing c (c.grant i count) := .ask i .refl h

theorem sharing_grantAll {count : Int} {c : Consumer} (is : List Nat)
    (h : 0 ≤ count ∨ c.maxInFlight < 0) : Sharing c (c.grantAll is count) :=
  List.foldlRecOn is _ .refl fun _ hs i _ => hs.ask i h

theorem sharing_refill (i : Nat) (c : Consumer) : Sharing c (c.refill i) := by
  unfold refill
  split_ifs
  · exact .refl
  · split
    · exact .refl
    · split_ifs
      · exact sharing_grant i c.perLink_nonneg_or
      · exact .refl

theorem sharing_refillAll (is : List Nat) (c : Consumer) : Sharing c (c.refillAll is) :=
  .foldl (fun c i => sharing_refill i c) is c

theorem sharing_retry {addr : String} {count : Int} {c : Consumer} (h : 0 ≤ count) :
    Sharing c (c.retry addr count) := by
  unfold retry
  split
  · exact sharing_grant _ (.inl h)
  · exact .of_retuned ⟨tuned_dropRetry addr c, rfl, fun e he => (mem_dropRetry.mp he).2⟩

/-- The budget that is shared out is the new one. -/
theorem sharing_changeMaxInFlight (n : Int) (c : Consumer) :
    Sharing { c with maxInFlight := n } (c.changeMaxInFlight n) := by
  unfold changeMaxInFlight
  split_ifs with hn
  · rw [← hn]
    exact .refl
  · dsimp only
    split_ifs
    · exact .refl
    · exact sharing_refillAll _ _

theorem sharing_signal (chance : Nat → Nat) (s : Signal) (c : Consumer) :
    Sharing c (c.signal chance s) := by
  unfold signal
  split_ifs
  · exact .refl
  · have ht : Sharing c { c with level := (c.levelAfter s (chance 0)).1 } :=
      .of_retuned ⟨by constructor <;> rfl, rfl, fun _ => id⟩
    dsimp only
    split_ifs
    · exact ht.trans (sharing_grantAll _ (perLink_nonneg_or _))
    · exact ht
    · exact (ht.trans (sharing_grantAll _ (.inl (Int.le_refl 0)))).tune
        ⟨by constructor <;> rfl, rfl, fun _ => id⟩

theorem sharing_resume (chance : Nat → Nat) (c : Consumer) : Sharing c (c.resume chance) := by
  unfold resume
  have ht : Sharing c { c with armed := false } :=
    .of_retuned ⟨by constructor <;> rfl, rfl, fun _ => id⟩
  dsimp only
  split_ifs
  · exact ht.tune ⟨by constructor <;> rfl, rfl, fun _ => id⟩
  · split
    · exact ht.tune ⟨by constructor <;> rfl, rfl, fun _ => id⟩
    · rename_i i _
      have hu : Sharing _ (Consumer.updateRdy i 1 { c with armed := false }).2 :=
        sharing_grant i (.inl Int.one_nonneg)
      split <;> rename_i heq <;> rw [heq] at hu
      all_goals exact (ht.trans hu).tune ⟨by constructor <;> rfl, rfl, fun _ => id⟩

theorem sharing_reclaim (is : List Nat) (c : Consumer) : Sharing c (c.reclaim is) := by
  refine .foldl (fun c i => ?_) is c
  split_ifs
  · exact sharing_grant i (.inl (Int.le_refl 0))
  · exact .refl

theorem sharing_scatter (chance : Nat → Nat) (n : Nat) (is : List Nat) (c : Consumer) :
    Sharing c (scatter chance n is c) := by
  induction n generalizing is c with
  | zero => exact .refl
  | succ n ih =>
    unfold scatter
    dsimp only
    split
    · exact .refl
    · exact (sharing_grant _ (.inl Int.one_nonneg)).trans (ih _ _)

theorem sharing_scatterUpTo (chance : Nat → Nat) (budget : Int) (is : List Nat) (c : Consumer) :
    Sharing c (scatterUpTo chance budget is c) :=
  calc
    Sharing c (c.check .subtract (c.spare budget)) := sharing_check _ _ c
    Sharing _ _ := sharing_scatter chance _ is _

theorem sharing_evenOut {share : Int} {c : Consumer} (is : List Nat) (h : 0 ≤ share) :
    Sharing c (c.evenOut is share) :=
  calc
    Sharing c _ := .foldl (fun _ i => sharing_grant i (.inl h)) _ c
    Sharing _ _ := .foldl (fun _ i => sharing_grant i (.inl h)) _ _

theorem sharing_spreadToActive (chance : Nat → Nat) (active idle : List Nat) (c : Consumer) :
    Sharing c (c.spreadToActive chance active idle) := by
  have hshare : 0 ≤ evenShare c.maxInFlight active.length := by unfold evenShare; omega
  calc
    Sharing c { c with share := evenShare c.maxInFlight active.length } :=
      .of_retuned ⟨by constructor <;> rfl, rfl, fun _ => id⟩
    Sharing _ _ := sharing_reclaim idle _
    Sharing _ _ := sharing_evenOut active hshare
    Sharing _ _ := sharing_scatterUpTo chance _ idle _

theorem sharing_spreadToAny (chance : Nat → Nat) (active idle : List Nat) (c : Consumer) :
    Sharing c (c.spreadToAny chance active idle) :=
  calc
    Sharing c { c with share := 0 } := .of_retuned ⟨by constructor <;> rfl, rfl, fun _ => id⟩
    Sharing _ _ := sharing_reclaim idle _
    Sharing _ _ := sharing_scatterUpTo chance _ _ _

theorem sharing_redistribute (chance : Nat → Nat) (c : Consumer) :
    Sharing c (c.redistribute chance) := by
  unfold redistribute
  have ht : Sharing c { c with respread := false } :=
    .of_retuned ⟨by constructor <;> rfl, rfl, fun _ => id⟩
  split_ifs
  · exact .refl
  · dsimp only
    split_ifs
    · exact ht.trans (sharing_spreadToActive chance _ _ _)
    · exact ht.trans (sharing_spreadToAny chance _ _ _)
  · exact .refl

theorem dealing_refill (i : Nat) (c : Consumer) : Dealing c (c.refill i) :=
  (sharing_refill i c).dealing

theorem dealing_changeMaxInFlight (n : Int) (c : Consumer) : Dealing c (c.changeMaxInFlight n) := by
  have ht : Dealing c { c with maxInFlight := n } := .of_tuned (by constructor <;> rfl)
  exact ht.trans (sharing_changeMaxInFlight n c).dealing

theorem dealing_signal (chance : Nat → Nat) (s : Signal) (c : Consumer) :
    Dealing c (c.signal chance s) :=
  (sharing_signal chance s c).dealing

theorem dealing_resume (chance : Nat → Nat) (c : Consumer) : Dealing c (c.resume chance) :=
  (sharing_resume chance c).dealing

theorem dealing_redistribute (chance : Nat → Nat) (c : Consumer) :
    Dealing c (c.redistribute chance) :=
  (sharing_redistribute chance c).dealing

/-! ### What a dealing leaves alone -/

/-- All that a dealing leaves alone: the messages and who holds them, the handlers, the table of
links, the daemons that are sought, and of every link all but its credit. -/
structure Lending (c c' : Consumer) : Prop where
  subscription : c'.subscription = c.subscription
  received : c'.received = c.received
  finished : c'.finished = c.finished
  requeued : c'.requeued = c.requeued
  live : c'.live = c.live
  handed : c'.handed = c.handed
  offers : c'.offers = c.offers
  serving : c'.serving = c.serving
  stopping : c'.stopping = c.stopping
  daemons : c'.daemons = c.daemons
  reconnects : c'.reconnects = c.reconnects
  staff : c'.staff = c.staff
  handlers : c'.handlers = c.handlers
  pending : c'.pending = c.pending
  connected : c'.connected = c.connected
  exited : c'.exited = c.exited
  links : Linkwise Link.Lent c c'

namespace Lending

theorem refl (c : Consumer) : Lending c c :=
  ⟨rfl, rfl, rfl, rfl, rfl, rfl, rfl, rfl, rfl, rfl, rfl, rfl, rfl, rfl, rfl, rfl,
    .refl Link.Lent.refl c⟩

theorem trans {c c' c'' : Consumer} (h : Lending c c') (h' : Lending c' c'') : Lending c c'' where
  subscription := h'.subscription.trans h.subscription
  received := h'.received.trans h.received
  finished := h'.finished.trans h.finished
  requeued := h'.requeued.trans h.requeued
  live := h'.live.trans h.live
  handed := h'.handed.trans h.handed
  offers := h'.offers.trans h.offers
  serving := h'.serving.trans h.serving
  stopping := h'.stopping.trans h.stopping
  daemons := h'.daemons.trans h.daemons
  reconnects := h'.reconnects.trans h.reconnects
  staff := h'.staff.trans h.staff
  handlers := h'.handlers.trans h.handlers
  pending := h'.pending.trans h.pending
  connected := h'.connected.trans h.connected
  exited := h'.exited.trans h.exited
  links := h.links.trans (fun _ _ _ r r' => r.trans r') h'.links

end Lending

theorem lending_booked {i : Nat} {conn : Connection} {c : Consumer} (h : c.conn? i = some conn)
    (n : Int) : Lending c (c.booked i conn n) := by
  refine ⟨rfl, rfl, rfl, rfl, rfl, rfl, rfl, rfl, rfl, rfl, rfl, rfl, rfl, rfl, rfl, rfl, ?_⟩
  refine linkwise_modifyLink Link.Lent.refl fun l hl => ?_
  obtain rfl : l.conn = conn := conn_eq_of_links hl h
  exact Link.lent_granted n l

theorem lending_sendRdy (i : Nat) (n : Int) (c : Consumer) : Lending c (c.sendRdy i n).2 := by
  cases h : c.conn? i with
  | none => simpa [sendRdy, h] using .refl c
  | some conn =>
    rcases sendRdy_cases h n with ⟨-, -, hs⟩ | ⟨r, hs, -⟩ <;> rw [hs]
    · exact .refl c
    · exact lending_booked h n

/-- A dealing leaves all of this alone. -/
theorem Dealing.lending {c c' : Consumer} (h : Dealing c c') : Lending c c' := by
  refine h.invariant (.refl c) (fun d d' hd ht => ?_) fun d i conn n hd hi _ _ =>
    hd.trans (lending_booked hi n)
  refine hd.trans ⟨ht.subscription, ht.received, ht.finished, ht.requeued, ht.live, ht.handed,
    ht.offers, ht.serving, ht.stopping, ht.daemons, ht.reconnects, ht.staff, ht.handlers,
    ht.pending, ht.connected, ht.exited, fun i => ?_⟩
  rw [ht.links]
  exact Linkwise.refl Link.Lent.refl _ i

/-! ### Spreading credit at a reduced pace -/

/-- The consumer that is about to spread its credit anew: idle links have given theirs up. -/
def reclaimed (c : Consumer) : Consumer :=
  ({ c with respread := false, share := 0 } : Consumer).reclaim (c.walk.filter fun i => c.isIdle i)

/-- The links among which it is spread then, those that are not idle first. -/
def spreadOrder (c : Consumer) : List Nat :=
  (c.walk.filter fun i => !c.isIdle i) ++ c.walk.filter fun i => c.isIdle i

theorem spreadToAny_of_level {chance : Nat → Nat} {active idle : List Nat} {c : Consumer}
    (hlev : 0 < c.level) :
    c.spreadToAny chance active idle =
      scatterUpTo chance 1 (active ++ idle) (reclaim idle { c with share := 0 }) := by
  have hb : (reclaim idle { c with share := 0 }).inBackoff = true := by
    rw [inBackoff, (samePace_reclaim idle _).level]
    simpa using hlev
  unfold spreadToAny
  dsimp only
  rw [if_pos hb]

/-- At a reduced pace the idle policy is not followed, and the budget is one message. -/
theorem redistribute_of_level {chance : Nat → Nat} {c : Consumer} (hlev : 0 < c.level)
    (hp : (c.inPause || c.live.isEmpty) = false) (hw : (c.respread || c.wantsRespread) = true) :
    c.redistribute chance = scatterUpTo chance 1 c.spreadOrder c.reclaimed := by
  have hs : ({ c with respread := false } : Consumer).spreadsOnIdle = false := by
    simp [spreadsOnIdle, inBackoff, hlev]
  have hlev' : 0 < ({ c with respread := false } : Consumer).level := hlev
  unfold redistribute
  simp only [hp, hw, hs, Bool.false_eq_true, if_false, if_true, Bool.false_and,
    spreadToAny_of_level hlev']
  rfl

/-- Credit stays where it is while there is no reason or no way to spread it. -/
theorem redistribute_eq_self {chance : Nat → Nat} {c : Consumer}
    (h : ¬((c.inPause || c.live.isEmpty) = false ∧ (c.respread || c.wantsRespread) = true)) :
    c.redistribute chance = c := by
  unfold redistribute
  split_ifs with hp hw
  · rfl
  · exact absurd ⟨Bool.not_eq_true _ ▸ hp, hw⟩ h
  · rfl

theorem dealing_reclaimed (c : Consumer) : Dealing c c.reclaimed := by
  have ht : Dealing c { c with respread := false, share := 0 } := .of_tuned (by constructor <;> rfl)
  exact ht.trans (sharing_reclaim _ _).dealing

theorem sameBeat_reclaimed (c : Consumer) : SameBeat c c.reclaimed :=
  calc
    SameBeat c { c with respread := false, share := 0 } := ⟨rfl, rfl, rfl⟩
    SameBeat _ _ := (samePace_reclaim _ _).toSameBeat

theorem maxInFlight_reclaimed (c : Consumer) : c.reclaimed.maxInFlight = c.maxInFlight :=
  (samePace_reclaim _ _).maxInFlight

/-- Credit is spread among the links in use. -/
theorem mem_spreadOrder {i : Nat} {c : Consumer} : i ∈ c.spreadOrder ↔ i ∈ c.walk := by
  rw [spreadOrder, List.mem_append, List.mem_filter, List.mem_filter]
  cases c.isIdle i <;> simp

end Consumer

end Nsq
