import Nsq.Proofs.Consumer.Ends

/-!
# Getting back to full pace

A consumer at a reduced pace gets on by signals, and those come with answers. So it needs a message
without an answer, credit by which one may come, a pause that will end, or the wish to spread its
credit anew; without any of them it is stuck (`Stuck`).

Two things leave it stuck:

* the last answers go over a connection whose end has begun, where they are drained without a
  signal, and the credit of the connection was used up, so its report asks for nothing;
* credit is spread anew while that cannot be done (`Spreadable`): the budget is empty, or the credit
  of an idle link is taken back over a connection that fails, which may be drawn again.

Nothing else does (`stuck_of_step`).
-/

namespace Nsq.Consumer

/-- Nothing is left that could raise the credit of a link again, but for other links. -/
structure Stuck (c : Consumer) : Prop where
  level : 0 < c.level
  running : c.stopping = false
  unarmed : c.armed = false
  unflagged : c.respread = false
  dry : ∀ i ∈ c.walk, c.rdyOf i ≤ 0
  answered : ¬Pending c

/-- Credit can be spread anew: the budget leaves some, and the daemons of idle links can be told
that theirs is taken back. -/
structure Spreadable (c : Consumer) : Prop where
  budget : 1 ≤ c.maxInFlight
  range : c.maxInFlight + c.received < 2 ^ 63
  told : ∀ i ∈ c.walk, ∀ l, c.links[i]? = some l → l.idle = true → 0 < l.conn.rdy →
    l.conn.refusing = false

/-- All daemons take some credit. -/
def Generous (c : Consumer) : Prop := ∀ l ∈ c.links, 1 ≤ l.conn.maxRdy

theorem Generous.of_grown {c c' : Consumer} (h : Generous c') (hg : Grown c c') : Generous c := by
  intro l hl
  obtain ⟨i, hi⟩ := List.mem_iff_getElem?.mp hl
  obtain ⟨l', hi', r⟩ := hg.links i l hi
  exact r.maxRdy ▸ h l' (List.mem_of_getElem? hi')

theorem Generous.conn {c : Consumer} (h : Generous c) {i : Nat} {conn : Connection}
    (hi : c.conn? i = some conn) : 0 < conn.maxRdy := by
  obtain ⟨l, hl, rfl⟩ := conn?_eq_some_iff.mp hi
  exact h l (List.mem_of_getElem? hl)

/-! ### Credit of a link -/

/-- Only a link that is there has credit. -/
theorem conn_of_rdyOf_pos {i : Nat} {c : Consumer} (h : 0 < c.rdyOf i) :
    ∃ conn, c.conn? i = some conn ∧ 0 < conn.rdy := by
  cases hi : c.conn? i with
  | none => simp [rdyOf, hi] at h
  | some conn => exact ⟨conn, rfl, rdyOf_of_conn hi ▸ h⟩

theorem rdyOf_modifyLink {i : Nat} {f : Link → Link} {c : Consumer}
    (hf : ∀ l, c.links[i]? = some l → (f l).conn.rdy = l.conn.rdy) (j : Nat) :
    (c.modifyLink i f).rdyOf j = c.rdyOf j := by
  by_cases hij : i = j
  · subst hij
    cases hl : c.links[i]? with
    | none => rw [modifyLink, modify_of_getElem?_eq_none hl]
    | some l =>
      rw [rdyOf_of_conn (conn?_modifyLink_self hl f), rdyOf_of_conn (conn?_of_links hl), hf l hl]
  · rw [rdyOf, conn?_modifyLink_of_ne hij, ← rdyOf]

/-- A grant of some credit leaves no link without that had some. -/
theorem rdyOf_grant_pos {i j : Nat} {n : Int} {c : Consumer} (hg : Generous c) (hn : 0 < n)
    (h : 0 < c.rdyOf j) : 0 < (c.grant i n).rdyOf j := by
  obtain ⟨conn, hj, hpos⟩ := conn_of_rdyOf_pos h
  obtain ⟨l, hl, rfl⟩ := conn?_eq_some_iff.mp hj
  obtain ⟨l', hl', -⟩ := (dealing_grant i n c).lending.links.get hl
  rw [rdyOf_of_conn (conn?_of_links hl')]
  rcases link_of_grant hl' with hl'' | ⟨rfl, l₀, hl₀, -, -, rfl⟩
  · obtain rfl := Option.some.inj (hl.symm.trans hl'')
    exact hpos
  · rw [Connection.granted_rdy]
    exact allotment_pos c hn (hg l₀ (List.mem_of_getElem? hl₀))

theorem Generous.lending {c c' : Consumer} (h : Generous c) (hl : Lending c c') : Generous c' :=
  hl.links.forall_mem (fun _ _ r hm => r.maxRdy ▸ hm) h

theorem rdyOf_scatter_pos {chance : Nat → Nat} {n : Nat} {is : List Nat} {c : Consumer}
    (hg : Generous c) {j : Nat} (h : 0 < c.rdyOf j) : 0 < (scatter chance n is c).rdyOf j := by
  induction n generalizing is c with
  | zero => exact h
  | succ n ih =>
    unfold scatter
    dsimp only
    split
    · exact h
    · exact ih (hg.lending (dealing_grant _ 1 c).lending) (rdyOf_grant_pos hg (by decide) h)

theorem rdyOf_scatterUpTo_pos {chance : Nat → Nat} {budget : Int} {is : List Nat} {c : Consumer}
    (hg : Generous c) {j : Nat} (h : 0 < c.rdyOf j) :
    0 < (scatterUpTo chance budget is c).rdyOf j :=
  rdyOf_scatter_pos (c := c.check .subtract (c.spare budget)) hg h

/-- A probe that could be made gives its link credit. -/
theorem rdyOf_updateRdy_pos {i : Nat} {c c' : Consumer} (hg : Generous c)
    (h : c.updateRdy i 1 = (.ok (), c')) : 0 < c'.rdyOf i := by
  rcases updateRdy_cases i 1 c with ⟨e, h', -⟩ | ⟨conn, hi, hcl, ⟨-, rs, h', -⟩ | ⟨hr, -⟩⟩
  · rw [h'] at h
    simp at h
  · rw [h'] at h
    simp at h
  · have hc : c' = c.grant i 1 := by rw [grant, h]
    rw [hc, rdyOf_of_conn (conn?_grant hi hcl hr (by decide) (hg.conn hi)), Connection.granted_rdy]
    exact allotment_pos c (by decide) (hg.conn hi)

/-! ### Looking back -/

namespace Stuck

variable {c c' : Consumer}

/-- A consumer was stuck before if nothing has happened since that could have helped it. -/
theorem back (h : Stuck c') (hb : SameBeat c c') (hs : c.stopping = true → c'.stopping = true)
    (hre : c.respread = true → c'.respread = true)
    (hdry : ∀ i ∈ c.walk, 0 < c.rdyOf i → i ∈ c'.walk ∧ 0 < c'.rdyOf i)
    (hp : Pending c → Pending c') : Stuck c where
  level := hb.level ▸ h.level
  running := by
    rw [Bool.eq_false_iff]
    intro e
    simpa [h.running] using hs e
  unarmed := hb.armed ▸ h.unarmed
  unflagged := by
    rw [Bool.eq_false_iff]
    intro e
    simpa [h.unflagged] using hre e
  dry i hi := by
    rw [← Int.not_lt]
    intro hpos
    obtain ⟨hi', hpos'⟩ := hdry i hi hpos
    exact absurd (h.dry i hi') (Int.not_le.mpr hpos')
  answered e := h.answered (hp e)

/-- A change of a link that leaves its credit alone does not help. -/
theorem back_modifyLink {i : Nat} {f : Link → Link} (h : Stuck (c.modifyLink i f))
    (hf : ∀ l, c.links[i]? = some l → (f l).conn.rdy = l.conn.rdy) : Stuck c :=
  h.back ⟨rfl, rfl, rfl⟩ id id (fun j hj hpos => ⟨hj, (rdyOf_modifyLink hf j).symm ▸ hpos⟩) id

/-- No signal leaves a consumer stuck: either the pace is full then, or a pause is under way. -/
theorem not_signal (hm : Metered c) (hp : Paused c) (chance : Nat → Nat) (s : Signal) :
    ¬Stuck (c.signal chance s) := by
  intro h
  rcases signal_cases hm chance s with ⟨hpause, heq⟩ | ⟨-, hl | ⟨ha, -⟩⟩
  · rw [heq] at h
    have ha := hp (by simpa [inPause] using hpause)
    simp [h.unarmed] at ha
  · have := h.level
    omega
  · simp [h.unarmed] at ha

/-- An answer that the consumer hears of leaves it not stuck. -/
theorem not_passAnswer {i : Nat} {conn : Connection} (h : Paced c) (hp : Paused c)
    (hi : c.conn? i = some conn) (hd : conn.draining = false) (chance : Nat → Nat) (m : Message)
    (a : Answer) : ¬Stuck (c.passAnswer chance i m a) := by
  rw [passAnswer_of_not_draining hi hd]
  intro hs
  have hb : Paced (c.putConn i conn.countAnswer) := h.putConn hi rfl rfl rfl id
  have hp' : Paused ((c.putConn i conn.countAnswer).countAnswer a) := by
    cases a <;> exact hp
  refine not_signal (hb.countAnswer a).toMetered hp' chance a.signal (hs.back_modifyLink ?_)
  exact fun l _ => (Connection.steady_sendAnswer m a l.conn).rdy

/-- A grant of some credit does not make a consumer stuck. -/
theorem back_grant {i : Nat} {n : Int} (hg : Generous c) (hn : 0 < n) (h : Stuck (c.grant i n)) :
    Stuck c := by
  have hs := samePace_grant i n c
  have hl := (dealing_grant i n c).lending
  refine h.back hs.toSameBeat (fun e => hl.stopping.trans e) (fun e => hs.respread.trans e)
    (fun j hj hpos => ⟨?_, rdyOf_grant_pos hg hn hpos⟩) fun hp => ?_
  · rw [walk, hl.live]
    exact hj
  · exact (pending_of_eq hl.offers (by rw [hl.handed])).mpr hp

theorem back_retry {addr : String} {n : Int} (hg : Generous c) (hn : 0 < n)
    (h : Stuck (c.retry addr n)) : Stuck c := by
  unfold retry at h
  split at h
  · exact h.back_grant hg hn
  · exact h.back ⟨rfl, rfl, rfl⟩ id id (fun j hj hpos => ⟨hj, hpos⟩) id

/-- The end of a pause makes a probe, or begins another pause. -/
theorem not_resume (hg : Generous c) (chance : Nat → Nat) : ¬Stuck (c.resume chance) := by
  intro h
  unfold resume at h
  dsimp only at h
  split_ifs at h with hs
  · have hr := h.running
    simp [hs] at hr
  · split at h
    · exact absurd h.unarmed (by simp [rest])
    · -- a probe that is refused begins another pause
      rename_i i hi
      split at h
      · rename_i c' heq
        have hpos := rdyOf_updateRdy_pos (c := { c with armed := false }) hg heq
        have hlive : c'.live = c.live := by
          have hl := (dealing_updateRdy i 1 { c with armed := false }).lending.live
          rwa [heq] at hl
        have hw : i ∈ c'.walk := by
          rw [walk, hlive]
          exact List.mem_of_getElem? hi
        exact absurd (h.dry i hw) (Int.not_le.mpr hpos)
      · exact absurd h.unarmed (by simp [rest])

end Stuck

/-! ### Spreading credit anew -/

/-- Every link has reported its end, or is open and in the table. -/
def InUse (c : Consumer) : Prop :=
  ∀ i conn, c.conn? i = some conn → conn.closed = true ∨ conn.closing = false ∧ i ∈ c.walk

/-- All links in the table are open, and the daemons of idle ones can be told that their credit is
taken back. -/
def Giving (c : Consumer) : Prop :=
  ∀ i ∈ c.walk, ∀ l, c.links[i]? = some l →
    l.conn.closing = false ∧ (l.idle = true → 0 < l.conn.rdy → l.conn.refusing = false)

theorem giving_of_inUse {c : Consumer} (ho : Orderly c) (hu : InUse c) (hs : Spreadable c) :
    Giving c := by
  intro i hi l hl
  refine ⟨?_, hs.told i hi l hl⟩
  obtain ⟨e, he, rfl⟩ := List.mem_map.mp hi
  obtain ⟨conn, hconn, -, hclosed⟩ := ho.listed e he
  obtain rfl := conn_eq_of_links hl hconn
  exact ((hu e.2 l.conn hconn).resolve_left (by simp [hclosed])).1

theorem isIdle_of_lending {c c' : Consumer} (h : Lending c c') (i : Nat) :
    c'.isIdle i = c.isIdle i := by
  have hr := h.links i
  unfold isIdle
  revert hr
  cases c.links[i]? <;> cases c'.links[i]? <;> rintro (r | _)
  · rfl
  · simp [r.idle]

/-- Taking the credit of an idle link back leaves the links open. -/
theorem Giving.grant {c : Consumer} (h : Giving c) {i : Nat} (hidle : c.isIdle i = true)
    (hpos : 0 < c.rdyOf i) : Giving (c.grant i 0) := by
  intro j hj l' hl'
  rw [walk, (dealing_grant i 0 c).lending.live, ← walk] at hj
  rcases link_of_grant hl' with hl | ⟨rfl, l, hl, -, -, rfl⟩
  · exact h j hj l' hl
  · obtain ⟨hcl, htold⟩ := h j hj l hl
    have hid : l.idle = true := by simpa [isIdle, hl] using hidle
    rw [rdyOf_of_conn (conn?_of_links hl)] at hpos
    have hrf := htold hid hpos
    rw [Connection.granted_eq]
    exact ⟨by simp [hcl, hrf], fun _ _ => hrf⟩

theorem giving_reclaim {is : List Nat} {c : Consumer} (h : Giving c)
    (hidle : ∀ i ∈ is, c.isIdle i = true) : Giving (c.reclaim is) := by
  induction is generalizing c with
  | nil => exact h
  | cons i is ih =>
    have hi := hidle i List.mem_cons_self
    have hrest : ∀ j ∈ is, c.isIdle j = true := fun j hj => hidle j (List.mem_cons_of_mem i hj)
    show Giving ((if 0 < c.rdyOf i then c.grant i 0 else c).reclaim is)
    split_ifs with hpos
    · refine ih (h.grant hi hpos) fun j hj => ?_
      rw [isIdle_of_lending (dealing_grant i 0 c).lending]
      exact hrest j hj
    · exact ih h hrest

theorem giving_reclaimed {c : Consumer} (h : Giving c) : Giving c.reclaimed :=
  giving_reclaim (c := { c with respread := false, share := 0 }) h
    fun _ hi => (List.mem_filter.mp hi).2

/-- What is owed at most and at least, where no link in the table has credit: no message more than
came over the links. -/
theorem credit_of_dry {c : Consumer} (h : Paced c) (hlev : 0 < c.level) (hg : Giving c)
    (hlist : ∀ i conn, c.conn? i = some conn → conn.closed = true ∨ i ∈ c.walk)
    (hdry : ∀ i ∈ c.walk, c.rdyOf i ≤ 0) :
    -(c.received : Int) ≤ c.credit ∧ ∀ l ∈ c.links, c.credit ≤ l.owed := by
  -- each link owes no more than what came over it, and nobody owes it anything
  have hlink : ∀ l ∈ c.links, -(l.heard : Int) ≤ l.owed ∧ l.owed ≤ 0 := by
    intro l hl
    obtain ⟨i, hi⟩ := List.mem_iff_getElem?.mp hl
    unfold Link.owed
    split_ifs with hclosed
    · exact ⟨by omega, Int.le_refl 0⟩
    · have hw := (hlist i l.conn (conn?_of_links hi)).resolve_left hclosed
      have hle := hdry i hw
      rw [rdyOf_of_conn (conn?_of_links hi)] at hle
      have hlast := h.granted hlev i hw l.conn (conn?_of_links hi) (hg i hw l hi).1
      exact ⟨(h.fair l hl hlast).1, hle⟩
  refine ⟨?_, fun l hl => ?_⟩
  · -- summed over the links, what came over them is what was received
    have hsum : 0 ≤ (c.links.map fun l => l.owed + (l.heard : Int)).sum := by
      refine List.sum_nonneg fun n hn => ?_
      obtain ⟨l, hl, rfl⟩ := List.mem_map.mp hn
      have := (hlink l hl).1
      omega
    rw [List.sum_map_add, h.heard] at hsum
    rw [credit]
    omega
  · have hsum : -l.owed ≤ ((c.links.map Link.owed).map fun n => -n).sum := by
      refine List.single_le_sum (fun n hn => ?_) _ (List.mem_map_of_mem (List.mem_map_of_mem hl))
      rw [List.map_map] at hn
      obtain ⟨l', hl', rfl⟩ := List.mem_map.mp hn
      have := (hlink l' hl').2
      show 0 ≤ -l'.owed
      omega
    rw [← List.sum_neg] at hsum
    rw [credit]
    omega

/-- Where no link in use has credit, the first one that is drawn gets some. -/
theorem exists_rdyOf_scatter_pos {c : Consumer} {chance : Nat → Nat} {is : List Nat}
    (hb : Balanced c) (hg : Generous c) (hlow : -(c.received : Int) ≤ c.credit)
    (hhigh : ∀ l ∈ c.links, c.credit ≤ l.owed) (hbudget : 1 ≤ c.maxInFlight)
    (hrange : c.maxInFlight + c.received < 2 ^ 63) (hne : is ≠ [])
    (hopen : ∀ i ∈ is, ∃ l, c.links[i]? = some l ∧ l.conn.closing = false ∧
      l.owed = l.conn.rdy ∧ l.conn.rdy ≤ 0) :
    ∃ i ∈ is, 0 < (scatterUpTo chance 1 is c).rdyOf i := by
  have hle : c.credit ≤ 0 := by
    obtain ⟨i, hi⟩ := List.exists_mem_of_ne_nil is hne
    obtain ⟨l, hl, -, howed, hrdy⟩ := hopen i hi
    have := hhigh l (List.mem_of_getElem? hl)
    omega
  have htotal : c.totalRdy = c.credit := hb.trans (word64_eq_self (by omega) (by omega))
  -- so something is left of the budget of one message
  have hspare : c.spare 1 = 1 - c.credit := by rw [spare, htotal]
  obtain ⟨n, hn⟩ : ∃ n, (word64 (c.spare 1)).toNat = n + 1 := by
    rw [hspare, word64_eq_self (by omega) (by omega)]
    exact ⟨(-c.credit).toNat, by omega⟩
  have hlt : chance n % is.length < is.length := Nat.mod_lt _ (List.length_pos_iff.mpr hne)
  rw [scatterUpTo, hn, check_of_isWord64 (isWord64_iff.mpr (by omega))]
  unfold scatter
  dsimp only
  rw [List.getElem?_eq_getElem hlt]
  dsimp only
  have hmem : is[chance n % is.length] ∈ is := List.getElem_mem hlt
  obtain ⟨l, hl, hcl, howed, hrdy⟩ := hopen _ hmem
  refine ⟨_, hmem, rdyOf_scatter_pos (hg.lending (dealing_grant _ 1 c).lending) ?_⟩
  -- the room of the link is what the credit of the others leaves, which is the budget at least
  have hroom : ¬c.Refuses l.conn 1 := by
    have hcredit := hhigh l (List.mem_of_getElem? hl)
    rintro ⟨hroom, -⟩
    rw [roomFor, spare, htotal, word64_eq_self (by omega) (by omega)] at hroom
    omega
  have hmax := hg l (List.mem_of_getElem? hl)
  rw [rdyOf_of_conn (conn?_grant (conn?_of_links hl) hcl hroom (by decide) hmax),
    Connection.granted_rdy]
  exact allotment_pos c (by decide) hmax

/-- Where credit can be spread, a link gets some unless one has some. -/
theorem exists_rdyOf_redistribute_pos {c : Consumer} {chance : Nat → Nat} (hk : Known c)
    (hr : InRange c) (hg : Generous c) (hs : Spreadable c) (hu : InUse c) (hlev : 0 < c.level)
    (hp : (c.inPause || c.live.isEmpty) = false) (hw : (c.respread || c.wantsRespread) = true) :
    ∃ i ∈ c.walk, 0 < (c.redistribute chance).rdyOf i := by
  have hd := (dealing_reclaimed c).lending
  have hgd : Generous c.reclaimed := hg.lending hd
  have hwalk : c.reclaimed.walk = c.walk := by rw [walk, hd.live, walk]
  rw [redistribute_of_level hlev hp hw]
  -- a link that keeps its credit keeps it, and otherwise the first one that is drawn gets some
  by_cases hsome : ∃ i ∈ c.walk, 0 < c.reclaimed.rdyOf i
  · obtain ⟨i, hi, hpos⟩ := hsome
    exact ⟨i, hi, rdyOf_scatterUpTo_pos hgd hpos⟩
  have hdry : ∀ i ∈ c.reclaimed.walk, c.reclaimed.rdyOf i ≤ 0 := by
    intro i hi
    rw [← Int.not_lt]
    exact fun hpos => hsome ⟨i, hwalk ▸ hi, hpos⟩
  -- the credit of idle links was taken back without losing a link
  have hgiving : Giving c.reclaimed := giving_reclaimed (giving_of_inUse hk.orderly hu hs)
  have hpaced : Paced c.reclaimed := by
    have ht : Paced { c with respread := false, share := 0 } := { hk.paced hr with }
    exact ht.reclaim _
  have hlist : ∀ i conn, c.reclaimed.conn? i = some conn →
      conn.closed = true ∨ i ∈ c.reclaimed.walk := by
    intro i conn hi
    obtain ⟨l', hl', rfl⟩ := conn?_eq_some_iff.mp hi
    obtain ⟨l, hl, r⟩ := hd.links.of_get hl'
    rw [r.closed, hwalk]
    exact (hu i l.conn (conn?_of_links hl)).imp id And.right
  obtain ⟨hlow, hhigh⟩ := credit_of_dry hpaced ((sameBeat_reclaimed c).level ▸ hlev) hgiving
    hlist hdry
  have hord : Orderly c.reclaimed := hk.orderly.lending hd
  -- whichever link is drawn is open, and owes what its credit says
  have hopen : ∀ i ∈ c.spreadOrder, ∃ l, c.reclaimed.links[i]? = some l ∧
      l.conn.closing = false ∧ l.owed = l.conn.rdy ∧ l.conn.rdy ≤ 0 := by
    intro i hi
    have hi' : i ∈ c.reclaimed.walk := hwalk ▸ mem_spreadOrder.mp hi
    obtain ⟨e, he, rfl⟩ := List.mem_map.mp hi'
    obtain ⟨conn, hconn, -, hclosed⟩ := hord.listed e he
    obtain ⟨l, hl, rfl⟩ := conn?_eq_some_iff.mp hconn
    refine ⟨l, hl, (hgiving e.2 hi' l hl).1, Link.owed_of_closed_eq_false hclosed, ?_⟩
    exact rdyOf_of_conn hconn ▸ hdry e.2 hi'
  have hne : c.spreadOrder ≠ [] := by
    rw [Bool.or_eq_false_iff] at hp
    obtain ⟨e, he⟩ := List.exists_mem_of_ne_nil c.live fun h => by simp [h] at hp
    exact List.ne_nil_of_mem (mem_spreadOrder.mpr (List.mem_map_of_mem he))
  obtain ⟨i, hi, hpos⟩ := @exists_rdyOf_scatter_pos _ chance _
    (hk.balanced.dealing hk.orderly (dealing_reclaimed c)) hgd hlow hhigh
    (maxInFlight_reclaimed c ▸ hs.budget)
    (by rw [maxInFlight_reclaimed, hd.received]; exact hs.range) hne hopen
  exact ⟨i, mem_spreadOrder.mp hi, hpos⟩

theorem Stuck.back_redistribute {c : Consumer} {chance : Nat → Nat}
    (h : Stuck (c.redistribute chance)) (hk : Known c) (hr : InRange c) (hg : Generous c)
    (hs : Spreadable c) (hu : c.stopping = false → ¬Pending c → InUse c) : Stuck c := by
  have hl := (dealing_redistribute chance c).lending
  by_cases hdue : (c.inPause || c.live.isEmpty) = false ∧ (c.respread || c.wantsRespread) = true
  · -- a link in use has credit afterwards
    have hlev : 0 < c.level := (sameBeat_redistribute chance c).level ▸ h.level
    have hstop : c.stopping = false := hl.stopping ▸ h.running
    have hpend : ¬Pending c := fun hp =>
      h.answered ((pending_of_eq hl.offers (by rw [hl.handed])).mpr hp)
    obtain ⟨i, hi, hpos⟩ : ∃ i ∈ c.walk, 0 < (c.redistribute chance).rdyOf i :=
      exists_rdyOf_redistribute_pos hk hr hg hs (hu hstop hpend) hlev hdue.1 hdue.2
    have hi' : i ∈ (c.redistribute chance).walk := by
      rw [walk, hl.live]
      exact hi
    exact absurd (h.dry i hi') (Int.not_le.mpr hpos)
  · rwa [redistribute_eq_self hdue] at h

/-! ### Moves -/

/-- Acts of the consumer's own where credit is spread anew only if it can be, and while every link
is in use unless some message is without an answer. -/
def Hopeful (env : Surroundings) (a : Act) (c : Consumer) : Prop :=
  Sole env a c ∧
    (a = .redistribute → Spreadable c ∧ (c.stopping = false → ¬Pending c → InUse c))

theorem Stuck.back_openLink {c : Consumer} {l : Link} (h : Stuck (c.openLink l).2) : Stuck c := by
  refine h.back ⟨rfl, rfl, rfl⟩ id id (fun i hi hpos => ⟨hi, ?_⟩) id
  obtain ⟨conn, hconn, hrdy⟩ := conn_of_rdyOf_pos hpos
  obtain ⟨l', hl', rfl⟩ := conn?_eq_some_iff.mp hconn
  rwa [rdyOf_of_conn (conn?_of_links (getElem?_openLink hl' l))]

/-- A link that takes nobody's place does not make a consumer stuck. -/
theorem Stuck.back_welcome {c : Consumer} {l : Link} (h : Stuck (c.welcome l))
    (hs : c.serving? l.conn.address = none) : Stuck c := by
  refine back_openLink (l := l) (h.back ⟨rfl, rfl, rfl⟩ id id (fun i hi hpos => ⟨?_, hpos⟩) id)
  obtain ⟨e, he, rfl⟩ := List.mem_map.mp hi
  refine List.mem_map_of_mem (List.mem_append_left _ (List.mem_filter.mpr ⟨he, ?_⟩))
  rw [bne_iff_ne]
  exact address_ne_of_serving?_eq_none hs he

/-- A link that reports its end while it has credit asks for the credit to be spread anew. -/
theorem Stuck.back_settleLink {c : Consumer} {i : Nat} (h : Stuck (c.settleLink i)) : Stuck c := by
  cases hi : c.conn? i with
  | none => rwa [settleLink_of_none hi] at h
  | some conn =>
    have hs := Connection.steady_settled conn
    have hput : ∀ conn' : Connection, conn'.rdy = conn.rdy → Stuck (c.putConn i conn') →
        Stuck c := by
      intro conn' hr h
      refine h.back_modifyLink fun l hl => ?_
      obtain rfl : l.conn = conn := conn_eq_of_links hl hi
      exact hr
    rcases settleLink_cases hi with ⟨heq, -⟩ | ⟨-, -, hr⟩
    · rw [heq] at h
      exact hput _ hs.rdy h
    · refine hput { conn.settled with closed := true } hs.rdy ?_
      have hlev : 0 < (c.putConn i { conn.settled with closed := true }).level :=
        hr.level ▸ h.level
      have hflag := h.unflagged
      refine h.back ⟨hr.level, hr.pause, hr.armed⟩ (fun e => hr.stopping.trans e)
        (fun e => hr.respread (.inl e)) (fun j hj hpos => ?_)
        (pending_of_eq hr.offers (by rw [hr.handed])).mpr
      rw [rdyOf_of_links hr.links]
      refine ⟨?_, hpos⟩
      obtain ⟨e, he, rfl⟩ := List.mem_map.mp hj
      rw [walk, hr.live]
      refine List.mem_map_of_mem (List.mem_filter.mpr ⟨he, ?_⟩)
      rw [bne_iff_ne]
      rintro rfl
      -- the entry that leaves the table is that of a link without credit
      rw [rdyOf_of_conn (conn?_putConn_self hi _)] at hpos
      rw [hr.respread (.inr ⟨hpos, hlev⟩)] at hflag
      exact absurd hflag (by simp)

/-- **A hopeful move leaves nobody stuck**, unless it drains an answer. -/
theorem Stuck.move_back {c c' : Consumer} (h : Stuck c') (hm : Move Hopeful c c') (hw : Watched c)
    (hr : InRange c') (hg : Generous c') : Stuck c ∨ c.drained < c'.drained := by
  have hgrown := Grown.move hm
  have hr₀ : InRange c := hr.of_grown hgrown
  have hg₀ : Generous c := hg.of_grown hgrown
  have hp₀ : Paced c := hw.paced hr₀
  cases hm with
  | note hn =>
    refine .inl (h.back ⟨hn.level, hn.pause, hn.armed⟩ (fun e => hn.stopping.trans e)
      (fun e => hn.respread.trans e) (fun i hi hpos => ⟨?_, ?_⟩)
      (pending_of_eq hn.offers hn.standings).mpr)
    · rw [walk, hn.live]
      exact hi
    · rwa [rdyOf_of_links hn.links]
  | adjust hq => exact .inl (h.back_modifyLink fun l hl => (hq l hl).steady.rdy)
  | refill i =>
    rw [refill_of_level ((samePace_refill i c).level ▸ h.level)] at h
    exact .inl h
  | signal chance s => exact absurd h (Stuck.not_signal hp₀.toMetered hw.paused chance s)
  | respread => exact absurd h.unflagged (by simp)
  | stop => exact absurd h.running (by simp)
  | reject => exact .inl h.back_openLink
  | join _ hs => exact .inl (h.back_welcome hs)
  | arrive m rest hi =>
    -- handlers are served, so the message is offered
    have hrun : c.stopping = false := h.running
    have hv : c.serving = true := hw.accounted.served.resolve_right (by simp [hrun])
    refine absurd (Or.inl ?_) h.answered
    simp [takeIn, modifyLink, hv]
  | bounce i m a hv =>
    -- handlers are served until a stop is asked for
    have hstop := hw.accounted.served.resolve_left (by simp [hv])
    have hrun := h.running
    rw [(passed_passAnswer _ i m a c).stopping, hstop] at hrun
    exact absurd hrun (by simp)
  | @take o rest =>
    -- a handler has the message
    refine absurd (Or.inr ?_) h.answered
    exact ⟨⟨⟨o.message, {}⟩, o.link⟩, List.mem_append_right _ (List.mem_singleton.mpr rfl), rfl⟩
  | @answer chance n d a hn hans =>
    have hwait : 0 < c.waiting d.link := by
      rw [← waiting_putState hn hans d.link, if_pos rfl]
      exact Nat.succ_pos _
    obtain ⟨l, hl⟩ := hw.accounted.sourced d.link hwait
    have hi : (c.putState n { d.state with responded := true }).conn? d.link = some l.conn :=
      conn?_of_links hl
    cases hd : l.conn.draining with
    | true =>
      -- the one way in which a message gets its answer without a signal
      right
      rw [drained_passAnswer hi, hd, if_pos rfl]
      exact Int.lt_succ _
    | false =>
      have hp : ∀ s, Paced (c.putState n s) := fun _ => { hp₀ with }
      exact absurd h (Stuck.not_passAnswer (hp _) hw.paused hi hd chance d.message a)
  | settle i => exact .inl h.back_settleLink
  | @direct env a hok ha =>
    obtain ⟨⟨hown, hattach⟩, hspread⟩ := hok
    cases a with
    | attach link => exact .inl (Stuck.back_welcome h (hattach link rfl))
    | retry addr count => exact .inl (h.back_retry hg₀ (hp₀.retries _ hown))
    | resume => exact absurd h (Stuck.not_resume hg₀ env.chance)
    | redistribute =>
      obtain ⟨hs, hu⟩ := hspread rfl
      exact .inl (h.back_redistribute hw.toKnown hr₀ hg₀ hs hu)
    | changeMaxInFlight n =>
      replace h : Stuck (c.changeMaxInFlight n) := h
      rw [changeMaxInFlight_of_level ((sameBeat_changeMaxInFlight n c).level ▸ h.level)] at h
      exact .inl (h.back ⟨rfl, rfl, rfl⟩ id id (fun i hi hpos => ⟨hi, hpos⟩) id)
    | retire i => exact absurd hown id
    | updateRdy i count => exact absurd hown id
    | sendRdy i count => exact absurd hown id
    | _ => simp [Act.isDirect] at ha

/-! ### Runs -/

/-- A step leaves nobody stuck unless it drains an answer, or spreads credit where that cannot be
done. -/
theorem stuck_of_step {s : Subscription} {env : Surroundings} {a : Act} {c : Consumer}
    (h : Reaches Sole (ofSubscription s) c) (ha : Sole env a c) (hr : InRange (c.step env a).2)
    (hg : Generous (c.step env a).2) (hst : Stuck (c.step env a).2) :
    Stuck c ∨ c.drained < (c.step env a).2.drained ∨ a = .redistribute ∧ ¬Spreadable c := by
  by_cases hspread : a = .redistribute ∧ ¬Spreadable c
  · exact .inr (.inr hspread)
  have hw := watched_of_reaches h
  have hok : Hopeful env a c := by
    refine ⟨ha, fun e => ⟨not_not.mp fun hs => hspread ⟨e, hs⟩, fun hs hp i conn hi => ?_⟩⟩
    exact (hw.in_use (rested_of_reaches h) hs hp hi).imp id
      fun hu => ⟨hu.1, List.mem_map_of_mem hu.2⟩
  -- along the moves of the step drained answers add up
  let I (c' : Consumer) := Watched c' ∧ c.drained ≤ c'.drained ∧
    (InRange c' → Generous c' → Stuck c' → Stuck c ∨ c.drained < c'.drained)
  have hstep : I (c.step env a).2 := by
    refine moves_invariant (step_moves hok) (I := I) (fun c₁ c₂ ⟨hw₁, hle, hback⟩ hm => ?_)
      ⟨hw, Int.le_refl _, fun _ _ h => .inl h⟩
    have hle' := drained_le_of_move hm fun _ _ _ hok => hok.1.1
    refine ⟨hw₁.move (fun _ _ _ hok => hok.1) hm, Int.le_trans hle hle', fun hr hg hst => ?_⟩
    rcases hst.move_back hm hw₁ hr hg with hst | hlt
    · exact (hback (hr.of_grown (.move hm)) (hg.of_grown (.move hm)) hst).imp id
        fun hlt => Int.lt_of_lt_of_le hlt hle'
    · exact .inr (Int.lt_of_le_of_lt hle hlt)
  exact (hstep.2.2 hr hg hst).imp id .inl

/-- A stuck consumer was left so by a step that drained an answer, or spread credit where that could
not be done. -/
theorem exists_step_of_stuck {s : Subscription} {c : Consumer}
    (h : Reaches Sole (ofSubscription s) c) (hr : InRange c) (hg : Generous c) (hst : Stuck c) :
    ∃ c₁ env a, Reaches Sole (ofSubscription s) c₁ ∧ Sole env a c₁ ∧ ¬Stuck c₁ ∧
      Stuck (c₁.step env a).2 ∧ Reaches Sole (c₁.step env a).2 c ∧
      (c₁.drained < (c₁.step env a).2.drained ∨ a = .redistribute ∧ ¬Spreadable c₁) := by
  -- the first step after which the consumer is stuck
  induction h with
  | refl => exact absurd hst.level (by simp [ofSubscription])
  | @step c' env a h ha ih =>
    by_cases hst' : Stuck c'
    · have hgrown : Grown c' (c'.step env a).2 := grown_step c'
      obtain ⟨c₁, env₁, a₁, h₁, ha₁, hn₁, hs₁, hlast, hcause⟩ :=
        ih (hr.of_grown hgrown) (hg.of_grown hgrown) hst'
      exact ⟨c₁, env₁, a₁, h₁, ha₁, hn₁, hs₁, hlast.step ha, hcause⟩
    · exact ⟨c', env, a, h, ha, hst', hst, .refl,
        (stuck_of_step h ha hr hg hst).resolve_left hst'⟩

/-- **Reduced pace ends, unless answers are drained.** Between the steps of every run of the
consumer's own acts, with daemons that take some credit and numbers in range: while the pace is
reduced and nobody has asked for a stop, a pause is under way, some link in use has credit, some
message is without an answer, credit shall be spread anew, or there is more than one link to spread
it to; or the run contains a step that left the consumer stuck, which drained an answer over a
connection whose end had begun, or spread credit where that could not be done. -/
theorem recovers_or_drained {s : Subscription} {c : Consumer}
    (h : Reaches Sole (ofSubscription s) c) (hr : InRange c) (hg : Generous c) (hlev : 0 < c.level)
    (hs : c.stopping = false) :
    (c.armed = true ∨ (∃ i ∈ c.walk, 0 < c.rdyOf i) ∨ Pending c ∨ c.respread = true ∨
        1 < c.live.length) ∨
      ∃ c₁ env a, Reaches Sole (ofSubscription s) c₁ ∧ Sole env a c₁ ∧ ¬Stuck c₁ ∧
        Stuck (c₁.step env a).2 ∧ Reaches Sole (c₁.step env a).2 c ∧
        (c₁.drained < (c₁.step env a).2.drained ∨ a = .redistribute ∧ ¬Spreadable c₁) := by
  by_cases hst : Stuck c
  · exact .inr (exists_step_of_stuck h hr hg hst)
  · refine .inl ?_
    by_contra hno
    simp only [not_or, not_exists, not_and, Int.not_lt, Bool.not_eq_true] at hno
    obtain ⟨harmed, hdry, hpend, hflag, -⟩ := hno
    exact hst ⟨hlev, hs, harmed, hflag, hdry, hpend⟩

/-- The answer to a probe is drained, because a request for more time could not be written before:
the consumer keeps its reduced pace, and a new link gets no credit. -/
theorem stuck_of_drained_probe :
    let c := sample.stepAll silence
      [.addHandlers 4, .attach (sampleLink "h:1" 2500), .feed 0 (sampleMessage 1),
        .handle 0 { verdict := .failed "busy" }, .resume, .feed 0 (sampleMessage 2),
        .refuse 0 true, .call 1 .touch, .handle 1 {}, .attach (sampleLink "h:2" 2500)]
    0 < c.level ∧ c.armed = false ∧ c.respread = false ∧ c.live.length = 1 ∧
      (c.conn? 1).map (fun conn => (conn.closing, conn.rdy)) = some (false, 0) ∧
      ∃ c₁ env a, Reaches Sole sample c₁ ∧ Sole env a c₁ ∧ ¬Stuck c₁ ∧
        Stuck (c₁.step env a).2 ∧ Reaches Sole (c₁.step env a).2 c ∧
        (c₁.drained < (c₁.step env a).2.drained ∨ a = .redistribute ∧ ¬Spreadable c₁) := by
  intro c
  have hlev : 0 < c.level := by decide +kernel
  have harmed : c.armed = false := by decide +kernel
  have hflag : c.respread = false := by decide +kernel
  have hlive : c.live.length = 1 := by decide +kernel
  have hdry : ∀ i ∈ c.walk, c.rdyOf i ≤ 0 := by decide +kernel
  have hoffers : c.offers = [] := by decide +kernel
  have hhanded : ∀ h ∈ c.handed, h.state.responded = true := by decide +kernel
  refine ⟨hlev, harmed, hflag, hlive, by decide +kernel, ?_⟩
  have hreach : Reaches Sole sample c := by
    refine reaches_stepAll ⟨sole_of_own trivial (by simp), ⟨?_, ?_⟩, sole_of_own trivial (by simp),
      sole_of_own trivial (by simp), sole_of_own ?_ (by simp), sole_of_own trivial (by simp),
      sole_of_own trivial (by simp), sole_of_own trivial (by simp), sole_of_own trivial (by simp),
      ⟨?_, ?_⟩, trivial⟩
    · exact ⟨⟨by decide +kernel, rfl, rfl, rfl, rfl, rfl, rfl, rfl, rfl⟩, rfl⟩
    · rintro _ ⟨⟩
      decide +kernel
    · show Consumer.armed _ = true
      decide +kernel
    · exact ⟨⟨by decide +kernel, rfl, rfl, rfl, rfl, rfl, rfl, rfl, rfl⟩, rfl⟩
    · rintro _ ⟨⟩
      decide +kernel
  have hrange : InRange c := ⟨by decide +kernel, by decide +kernel⟩
  have hgenerous : Generous c := by unfold Generous; decide +kernel
  -- none of the ways out is open
  refine (recovers_or_drained hreach hrange hgenerous hlev (by decide +kernel)).resolve_left ?_
  rintro (h | ⟨i, hi, hpos⟩ | (h | ⟨d, hd, h⟩) | h | h)
  · simp [harmed] at h
  · exact absurd (hdry i hi) (Int.not_le.mpr hpos)
  · exact h hoffers
  · simp [hhanded d hd] at h
  · simp [hflag] at h
  · simp [hlive] at h

end Nsq.Consumer
