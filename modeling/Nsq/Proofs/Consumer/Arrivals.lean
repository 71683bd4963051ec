import Nsq.Proofs.Consumer.Underway

/-!
# Which links are in the table

A link enters the table when its channel was subscribed, and leaves it when its end is reported. But
a link reads from when its session was opened, and may end before it enters; and a stop may look at
the table while the link of an attempt to connect is about to enter it. What is in the table then
depends on what came first, and the history says so (`Logged`).

`Underway.live_links` reads the table off the history. In particular a link whose end was reported
before it entered stays in the table for good, and its address is not connected to any more.
-/

namespace Nsq

namespace Consumer

variable {c c' : Consumer} {i : Nat}

/-- The address that a link was opened to. -/
def addressOf (i : Nat) (c : Consumer) : Option String := (c.conn? i).map Connection.address

theorem addressOf_of_conn? {conn : Connection} (h : c.conn? i = some conn) :
    c.addressOf i = some conn.address :=
  congrArg (Option.map Connection.address) h

theorem Linkwise.conn? (h : Linkwise Link.Later c c') {conn : Connection}
    (hi : c.conn? i = some conn) :
    ∃ conn', c'.conn? i = some conn' ∧ conn'.address = conn.address ∧
      (conn.closed = true → conn'.closed = true) := by
  obtain ⟨l, hl, rfl⟩ := conn?_eq_some_iff.mp hi
  obtain ⟨l', hl', hr⟩ := h.get hl
  exact ⟨l'.conn, conn?_of_links hl', hr.address, hr.closed⟩

theorem Linkwise.addressOf_eq (h : Linkwise Link.Later c c') (i : Nat) :
    c'.addressOf i = c.addressOf i := by
  have hmap := h.map_eq (g := fun l => l.conn.address) fun _ _ r => r.address
  have hi := congrArg (·[i]?) hmap
  simpa [addressOf, Consumer.conn?, Function.comp_def] using hi

/-- The link that is opened stands behind all others. -/
theorem conn?_openLink_of_some {conn : Connection} (h : c.conn? i = some conn) (l : Link) :
    (c.openLink l).2.conn? i = some conn := by
  obtain ⟨l', hl', rfl⟩ := conn?_eq_some_iff.mp h
  exact conn?_of_links (getElem?_openLink hl' l)

theorem addressOf_openLink (h : c.addressOf i ≠ none) (l : Link) :
    (c.openLink l).2.addressOf i = c.addressOf i := by
  cases hi : c.conn? i with
  | none => exact absurd (by simp [addressOf, hi]) h
  | some conn =>
    rw [addressOf_of_conn? hi, addressOf_of_conn? (conn?_openLink_of_some hi l)]

theorem addressOf_openLink_self (l : Link) (c : Consumer) :
    (c.openLink l).2.addressOf c.links.length = some l.conn.address := by
  simp [addressOf, Consumer.conn?, openLink]

theorem addressOf_length (c : Consumer) : c.addressOf c.links.length = none := by
  simp [addressOf, Consumer.conn?]

end Consumer

namespace Underway

open Consumer

variable {s s' : Underway} {t : Turn} {h : List Milestone} {c c' : Consumer} {addr : String}
  {i : Nat}

/-! ### What a history says of links -/

/-- What a history says of the links of a consumer. -/
structure Logged (h : List Milestone) (c : Consumer) : Prop where
  /-- In the table are the links that entered it and whose end was not reported since. -/
  live : ∀ addr i, (addr, i) ∈ c.live ↔
    c.addressOf i = some addr ∧ .entered i ∈ h ∧ ¬Before (.entered i) (.ended i) h
  /-- Only what is there enters the table. -/
  entered : ∀ i, .entered i ∈ h → c.addressOf i ≠ none
  /-- When an end was reported, the link remembers it. -/
  ended : ∀ i, .ended i ∈ h → ∃ conn, c.conn? i = some conn ∧ conn.closed = true
  /-- A link enters the table once, and its end is reported once. -/
  once : ∀ i, Before (.ended i) (.entered i) h → ¬Before (.entered i) (.ended i) h
  /-- What is in the table entered it later than the table was found empty. -/
  looked : .looked 0 ∈ h → ∀ e ∈ c.live, Before (.looked 0) (.entered e.2) h

namespace Logged

theorem start (sub : Subscription) : Logged [] (ofSubscription sub) where
  live _ _ := ⟨fun he => absurd he List.not_mem_nil, fun he => absurd he.2.1 List.not_mem_nil⟩
  entered _ he := absurd he List.not_mem_nil
  ended _ he := absurd he List.not_mem_nil
  once _ hb := absurd hb.left List.not_mem_nil
  looked hl := absurd hl List.not_mem_nil

theorem apart (hl : Logged h c) (hc : Apart c c') : Logged h c' where
  live addr i := by
    rw [hc.live, hc.links.addressOf_eq]
    exact hl.live addr i
  entered i he := by
    rw [hc.links.addressOf_eq]
    exact hl.entered i he
  ended i he := by
    obtain ⟨conn, hi, hclosed⟩ := hl.ended i he
    obtain ⟨conn', hi', -, hclosed'⟩ := hc.links.conn? hi
    exact ⟨conn', hi', hclosed' hclosed⟩
  once := hl.once
  looked := hc.live ▸ hl.looked

theorem openLink (hl : Logged h c) (l : Link) : Logged h (c.openLink l).2 where
  live addr i := by
    constructor
    · intro he
      obtain ⟨ha, hin, hb⟩ := (hl.live addr i).mp he
      rw [addressOf_openLink (by simp [ha])]
      exact ⟨ha, hin, hb⟩
    · rintro ⟨ha, hin, hb⟩
      rw [addressOf_openLink (hl.entered i hin)] at ha
      exact (hl.live addr i).mpr ⟨ha, hin, hb⟩
  entered i he := by
    rw [addressOf_openLink (hl.entered i he)]
    exact hl.entered i he
  ended i he := by
    obtain ⟨conn, hi, hclosed⟩ := hl.ended i he
    exact ⟨conn, conn?_openLink_of_some hi l, hclosed⟩
  once := hl.once
  looked := hl.looked

/-- Links have nothing to do with what else happens, unless the table is found empty. -/
theorem quiet (hl : Logged h c) {m : Milestone} (hin : ∀ i, m ≠ .entered i)
    (hout : ∀ i, m ≠ .ended i) (hz : m = .looked 0 → c.live = []) : Logged (h ++ [m]) c := by
  have hentered : ∀ i, .entered i ∈ h ++ [m] ↔ .entered i ∈ h := fun i => by
    simp [(hin i).symm]
  have hended : ∀ i, .ended i ∈ h ++ [m] ↔ .ended i ∈ h := fun i => by
    simp [(hout i).symm]
  have hinout : ∀ i, Before (.entered i) (.ended i) (h ++ [m]) ↔ Before (.entered i) (.ended i) h :=
    fun i => before_concat.trans (or_iff_left fun hm => hout i hm.1.symm)
  have houtin : ∀ i, Before (.ended i) (.entered i) (h ++ [m]) ↔ Before (.ended i) (.entered i) h :=
    fun i => before_concat.trans (or_iff_left fun hm => hin i hm.1.symm)
  constructor
  · intro addr i
    rw [hentered, hinout]
    exact hl.live addr i
  · exact fun i he => hl.entered i ((hentered i).mp he)
  · exact fun i he => hl.ended i ((hended i).mp he)
  · intro i
    rw [houtin, hinout]
    exact hl.once i
  · intro hlook e he
    rcases List.mem_append.mp hlook with hlook | hlook
    · exact (hl.looked hlook e he).append _
    · exact absurd (hz (List.mem_singleton.mp hlook).symm ▸ he) List.not_mem_nil

/-- A link enters the table, in which its address has no entry. -/
theorem enter (hl : Logged h c) (ha : c.addressOf i = some addr) (hv : ∀ j, (addr, j) ∉ c.live)
    (hi : .entered i ∉ h) : Logged (h ++ [.entered i]) (c.enter addr i) := by
  have hlive : (c.enter addr i).live = c.live ++ [(addr, i)] := by
    have hf : (c.live.filter fun e => e.1 != addr) = c.live :=
      List.filter_eq_self.mpr fun e he => bne_iff_ne.mpr fun heq => hv e.2 (heq ▸ he)
    exact congrArg (· ++ [(addr, i)]) hf
  have hinout : ∀ j, Before (.entered j) (.ended j) (h ++ [.entered i]) ↔
      Before (.entered j) (.ended j) h :=
    fun j => before_concat.trans (or_iff_left fun hm => by simp at hm)
  constructor
  · intro a j
    rw [hlive, List.mem_append, hl.live a j, hinout]
    simp only [List.mem_singleton, Prod.mk.injEq, List.mem_append, Milestone.entered.injEq]
    constructor
    · rintro (⟨haj, hin, hb⟩ | ⟨rfl, rfl⟩)
      · exact ⟨haj, .inl hin, hb⟩
      · exact ⟨ha, .inr rfl, fun hb => hi hb.left⟩
    · rintro ⟨haj, hin | rfl, hb⟩
      · exact .inl ⟨haj, hin, hb⟩
      · exact .inr ⟨Option.some.inj (haj.symm.trans ha), rfl⟩
  · intro j he
    rcases List.mem_append.mp he with he | he
    · exact hl.entered j he
    · obtain rfl : j = i := by simpa using he
      exact fun hnone => by simp [show c.addressOf j = none from hnone] at ha
  · intro j he
    exact hl.ended j (by simpa using he)
  · intro j hb
    rw [hinout]
    rcases before_concat.mp hb with hb | ⟨heq, -⟩
    · exact hl.once j hb
    · obtain rfl : j = i := by simpa using heq
      exact fun hb' => hi hb'.left
  · intro hlook e he
    replace hlook : .looked 0 ∈ h := by simpa using hlook
    rw [hlive] at he
    rcases List.mem_append.mp he with he | he
    · exact (hl.looked hlook e he).append _
    · obtain rfl := List.mem_singleton.mp he
      exact before_concat.mpr (.inr ⟨rfl, hlook⟩)

/-- The end of a link is reported, and the link leaves the table. -/
theorem finish (hl : Logged h c) {conn : Connection} (hi : c.conn? i = some conn)
    (hc : conn.closed = true) (ho : .ended i ∉ h) :
    Logged (h ++ [.ended i]) (c.remove conn.address i) := by
  have hentered : ∀ j, .entered j ∈ h ++ [.ended i] ↔ .entered j ∈ h := fun j => by simp
  have houtin : ∀ j, Before (.ended j) (.entered j) (h ++ [.ended i]) ↔
      Before (.ended j) (.entered j) h :=
    fun j => before_concat.trans (or_iff_left fun hm => by simp at hm)
  constructor
  · intro a j
    have hmem : (a, j) ∈ (c.remove conn.address i).live ↔
        (a, j) ∈ c.live ∧ (a, j) ≠ (conn.address, i) := by
      simp [remove]
    rw [hmem, hl.live a j, hentered, before_concat]
    show _ ↔ c.addressOf j = some a ∧ _
    constructor
    · rintro ⟨⟨ha, hin, hb⟩, hne⟩
      refine ⟨ha, hin, fun hb' => hb'.elim hb fun hlast => hne ?_⟩
      obtain rfl : j = i := by simpa using hlast.1
      rw [Option.some.inj (ha.symm.trans (addressOf_of_conn? hi))]
    · rintro ⟨ha, hin, hb⟩
      refine ⟨⟨ha, hin, fun hb' => hb (.inl hb')⟩, fun heq => hb (.inr ⟨?_, hin⟩)⟩
      rw [(Prod.mk.inj heq).2]
  · exact fun j he => hl.entered j ((hentered j).mp he)
  · intro j he
    rcases List.mem_append.mp he with he | he
    · exact hl.ended j he
    · obtain rfl : j = i := by simpa using he
      exact ⟨conn, hi, hc⟩
  · intro j hb
    have hb' := (houtin j).mp hb
    intro hno
    rcases before_concat.mp hno with hno | ⟨heq, -⟩
    · exact hl.once j hb' hno
    · obtain rfl : j = i := by simpa using heq
      exact ho hb'.left
  · intro hlook e he
    exact (hl.looked (by simpa using hlook) e (List.mem_filter.mp he).1).append _

/-- A link in the table is dead when its end was reported before it entered. -/
theorem dead_iff (hl : Logged h c) :
    (∃ e ∈ c.live, .ended e.2 ∈ h) ↔ ∃ i, Before (.ended i) (.entered i) h := by
  constructor
  · rintro ⟨⟨addr, i⟩, he, hend⟩
    obtain ⟨-, hin, hb⟩ := (hl.live addr i).mp he
    exact ⟨i, (before_or_before hin hend Milestone.noConfusion).resolve_left hb⟩
  · rintro ⟨i, hb⟩
    obtain ⟨addr, ha⟩ := Option.ne_none_iff_exists'.mp (hl.entered i hb.right)
    exact ⟨(addr, i), (hl.live addr i).mpr ⟨ha, hb.right, hl.once i hb⟩, hb.left⟩

end Logged

/-! ### What attempts have to themselves -/

/-- What an attempt has to itself: its address is pending and has no entry in the table, and its
link has never been there. -/
structure Attempt.Alone (h : List Milestone) (c : Consumer) (a : Attempt) : Prop where
  pending : a.addr ∈ c.pending
  vacant : ∀ i, (a.addr, i) ∉ c.live
  link : ∀ i, a.link? = some i → c.addressOf i = some a.addr ∧ .entered i ∉ h

namespace Attempt.Alone

variable {a : Attempt}

theorem apart (ha : a.Alone h c) (hc : Apart c c') : a.Alone h c' where
  pending := hc.pending ▸ ha.pending
  vacant := hc.live ▸ ha.vacant
  link i hi := by
    rw [hc.links.addressOf_eq]
    exact ha.link i hi

theorem openLink (ha : a.Alone h c) (l : Link) : a.Alone h (c.openLink l).2 where
  pending := ha.pending
  vacant := ha.vacant
  link i hi := by
    obtain ⟨hai, hin⟩ := ha.link i hi
    exact ⟨(addressOf_openLink (by simp [hai]) l).trans hai, hin⟩

theorem quiet (ha : a.Alone h c) {m : Milestone} (hm : ∀ i, m ≠ .entered i) :
    a.Alone (h ++ [m]) c where
  pending := ha.pending
  vacant := ha.vacant
  link i hi := ⟨(ha.link i hi).1, by simpa [(hm i).symm] using (ha.link i hi).2⟩

theorem unpend (ha : a.Alone h c) (hne : a.addr ≠ addr) : a.Alone h (c.unpend addr) where
  pending := List.mem_filter.mpr ⟨ha.pending, bne_iff_ne.mpr hne⟩
  vacant := ha.vacant
  link := ha.link

/-- The link of another attempt enters the table. -/
theorem enter (ha : a.Alone h c) (hne : a.addr ≠ addr) (hi : c.addressOf i = some addr) :
    a.Alone (h ++ [.entered i]) (c.enter addr i) where
  pending := ha.pending
  vacant j hj := by
    rcases List.mem_append.mp hj with hj | hj
    · exact ha.vacant j (List.mem_filter.mp hj).1
    · exact hne (Prod.mk.inj (List.mem_singleton.mp hj)).1
  link j hj := by
    obtain ⟨haj, hin⟩ := ha.link j hj
    refine ⟨haj, fun hmem => ?_⟩
    rcases List.mem_append.mp hmem with hmem | hmem
    · exact hin hmem
    · obtain rfl : j = i := by simpa using hmem
      exact hne (Option.some.inj (haj.symm.trans hi))

theorem remove (ha : a.Alone h c) (addr : String) (i : Nat) : a.Alone h (c.remove addr i) where
  pending := ha.pending
  vacant j hj := ha.vacant j (List.mem_filter.mp hj).1
  link := ha.link

end Attempt.Alone

/-! ### Turns -/

/-- The history is right about links, and every attempt has an address and a link to itself. -/
structure Tracked (s : Underway) : Prop where
  logged : Logged s.history s.consumer
  distinct : (s.attempts.map Attempt.addr).Nodup
  alone : ∀ a ∈ s.attempts, a.Alone s.history s.consumer

theorem addr_ne_of_mem_eraseIdx {as : List Attempt} {k : Nat} {a b : Attempt}
    (hd : (as.map Attempt.addr).Nodup) (hk : as[k]? = some a) (hb : b ∈ as.eraseIdx k) :
    b.addr ≠ a.addr := by
  obtain ⟨j, hne, hj⟩ := List.mem_eraseIdx_iff_getElem?.mp hb
  have hlt : j < (as.map Attempt.addr).length := by
    rw [List.length_map]
    exact (List.getElem?_eq_some_iff.mp hj).1
  intro heq
  refine hne ((List.getElem?_inj hlt hd).mp ?_)
  rw [List.getElem?_map, List.getElem?_map, hj, hk, Option.map_some, Option.map_some, heq]

theorem map_addr_set {as : List Attempt} {k : Nat} {a b : Attempt} (hk : as[k]? = some a)
    (hb : b.addr = a.addr) : (as.set k b).map Attempt.addr = as.map Attempt.addr := by
  obtain ⟨hlt, rfl⟩ := List.getElem?_eq_some_iff.mp hk
  have hlt' : k < (as.map Attempt.addr).length := by rwa [List.length_map]
  rw [List.map_set, hb, ← List.getElem_map Attempt.addr (h := hlt'), List.set_getElem_self]

namespace Tracked

theorem start (sub : Subscription) : Tracked (Underway.start sub) where
  logged := .start sub
  distinct := List.nodup_nil
  alone _ ha := absurd ha List.not_mem_nil

theorem apart (ht : Tracked s) (hc : Apart s.consumer c) : Tracked (s.put c) where
  logged := ht.logged.apart hc
  distinct := ht.distinct
  alone a ha := (ht.alone a ha).apart hc

/-- An attempt goes on. -/
theorem set (ht : Tracked s) {k : Nat} {a b : Attempt} (hk : s.attempts[k]? = some a)
    (ha : b.addr = a.addr) (hb : b.Alone s.history s.consumer) :
    Tracked { s with attempts := s.attempts.set k b } where
  logged := ht.logged
  distinct := by
    rw [map_addr_set hk ha]
    exact ht.distinct
  alone a' ha' := by
    rcases List.mem_or_eq_of_mem_set ha' with hmem | rfl
    · exact ht.alone a' hmem
    · exact hb

/-- Something happens that has nothing to do with links. -/
theorem quiet (ht : Tracked s) {m : Milestone} (hin : ∀ i, m ≠ .entered i)
    (hout : ∀ i, m ≠ .ended i) (hz : m = .looked 0 → s.consumer.live = []) :
    Tracked { s with history := s.history ++ [m] } where
  logged := ht.logged.quiet hin hout hz
  distinct := ht.distinct
  alone a ha := (ht.alone a ha).quiet hin

theorem stopServing (ht : Tracked s) : Tracked s.stopServing := by
  have hp : Tracked (s.put s.consumer.stopServing) := ht.apart (apart_stopServing s.consumer)
  unfold Underway.stopServing
  split_ifs
  · have hz : Milestone.shut s.consumer.live.length = .looked 0 →
        (s.put s.consumer.stopServing).consumer.live = [] := fun h => Milestone.noConfusion h
    exact hp.quiet (fun _ => Milestone.noConfusion) (fun _ => Milestone.noConfusion) hz
  · exact hp

/-- An attempt begins. Its address is another one than those of all others. -/
theorem takeDown (ht : Tracked s) (hd : s.consumer.Dials addr) :
    Tracked
      { s.put (s.consumer.takenDown addr) with attempts := s.attempts ++ [{ addr }] } := by
  have hnew : ∀ a ∈ s.attempts, a.addr ≠ addr := fun a ha heq =>
    hd.pending (heq ▸ (ht.alone a ha).pending)
  exact
    { logged := { ht.logged with }
      distinct := by
        rw [List.map_append, List.nodup_append]
        refine ⟨ht.distinct, List.pairwise_singleton _ _, fun b hb b' hb' => ?_⟩
        obtain ⟨a, ha, rfl⟩ := List.mem_map.mp hb
        rw [List.mem_singleton.mp hb']
        exact hnew a ha
      alone := fun a ha => by
        rcases List.mem_append.mp ha with ha | ha
        · exact { ht.alone a ha with
            pending := List.mem_append_left _ (ht.alone a ha).pending }
        · obtain rfl := List.mem_singleton.mp ha
          exact
            { pending := List.mem_append_right _ (List.mem_singleton_self addr)
              vacant := fun i hi => address_ne_of_serving?_eq_none hd.serving hi rfl
              link := fun i hi => absurd hi (Option.some_ne_none i).symm } }

/-- The link of an attempt enters the table, and the attempt is over. -/
theorem enter (ht : Tracked s) {k : Nat} (hk : s.attempts[k]? = some ⟨addr, .subscribed i⟩)
    (hm : ((s.consumer.unpend addr).enter addr i).Manned c) :
    Tracked
      { s.put c with
        attempts := s.attempts.eraseIdx k
        history := s.history ++ [.entered i] } := by
  have hmem := ht.alone _ (List.mem_of_getElem? hk)
  obtain ⟨hi, hin⟩ := hmem.link i rfl
  have hlogged : Logged s.history (s.consumer.unpend addr) := { ht.logged with }
  exact
    { logged := (hlogged.enter hi hmem.vacant hin).apart hm.toApart
      distinct := ht.distinct.sublist ((List.eraseIdx_sublist _ k).map _)
      alone := fun b hb => by
        have hne := addr_ne_of_mem_eraseIdx ht.distinct hk hb
        have hb' := ht.alone b (List.mem_of_mem_eraseIdx hb)
        exact ((hb'.unpend hne).enter hne hi).apart hm.toApart }

/-- The end of a link is reported. It was not reported before, as the link was open. -/
theorem finish (ht : Tracked s) {conn conn' : Connection} (hi : s.consumer.conn? i = some conn)
    (ho : conn.closed = false) (hm : s.consumer.Manned c) (hc : c.conn? i = some conn')
    (hc' : conn'.closed = true) (hr : (c.remove conn.address i).Manned c') :
    Tracked
      { s.put c' with
        reports := s.reports ++ [⟨conn.address, c'.live.length⟩]
        history := s.history ++ [.ended i] } := by
  have hp := ht.apart hm.toApart
  have haddr : conn'.address = conn.address := by
    obtain ⟨conn'', hi'', haddr, -⟩ := hm.links.conn? hi
    rw [← haddr, Option.some.inj (hc.symm.trans hi'')]
  have hnew : .ended i ∉ s.history := fun hend => by
    obtain ⟨conn'', hi'', hclosed⟩ := ht.logged.ended i hend
    obtain rfl := Option.some.inj (hi.symm.trans hi'')
    exact absurd (ho.symm.trans hclosed) Bool.false_ne_true
  have hlogged := hp.logged.finish hc hc' hnew
  rw [haddr] at hlogged
  exact
    { logged := hlogged.apart hr.toApart
      distinct := ht.distinct
      alone := fun a ha => (((hp.alone a ha).remove conn.address i).apart hr.toApart).quiet
        fun _ => Milestone.noConfusion }

theorem turned (ht : Tracked s) (h : Turned t s s') : Tracked s' := by
  cases h with
  | manned hm => exact ht.apart hm.toApart
  | instruct _ => exact ht.apart { Apart.refl s.consumer with }
  | take ho hf htake => exact ht.apart { htake.toApart with }
  | leave => exact ht.apart (apart_leave s.consumer)
  | takeDown hd => exact ht.takeDown hd
  | @fail k a c hk hm =>
    exact
      { logged := { ht.logged.apart hm.toApart with }
        distinct := ht.distinct.sublist ((List.eraseIdx_sublist _ k).map _)
        alone := fun b hb =>
          ((ht.alone b (List.mem_of_mem_eraseIdx hb)).apart hm.toApart).unpend
            (addr_ne_of_mem_eraseIdx ht.distinct hk hb) }
  | @dial k addr closing l c hk ha hm =>
    have hopen : Tracked (s.put (s.consumer.openLink l).2) :=
      ⟨ht.logged.openLink l, ht.distinct, fun a ha => (ht.alone a ha).openLink l⟩
    have hp := hopen.apart hm.toApart
    have hmem := hp.alone _ (List.mem_of_getElem? hk)
    refine hp.set hk rfl { hmem with link := fun i hi => ?_ }
    obtain rfl : s.consumer.links.length = i := Option.some.inj hi
    refine ⟨?_, fun hin => ht.logged.entered _ hin (addressOf_length s.consumer)⟩
    exact (hm.links.addressOf_eq _).trans (ha ▸ addressOf_openLink_self l s.consumer)
  | @goOn k a b c hk ha hl hm =>
    have hp := ht.apart hm.toApart
    have hmem := hp.alone a (List.mem_of_getElem? hk)
    exact hp.set hk ha ⟨ha ▸ hmem.pending, ha ▸ hmem.vacant, by rw [hl, ha]; exact hmem.link⟩
  | enter hk hm => exact ht.enter hk hm
  | finish hi ho hm hc hc' hr => exact ht.finish hi ho hm hc hc' hr
  | conclude hk hr hm => exact { ht.apart hm.toApart with }
  | @shut k r hk hs hr =>
    have hp : Tracked { s with reports := s.reports.eraseIdx k } := { ht with }
    exact hp.stopServing
  | stop hs =>
    have hc : Apart s.consumer { s.consumer with stopping := true } :=
      { Apart.refl s.consumer with }
    exact { ht.apart hc with }
  | @look c hl hlive hm =>
    have hz : Milestone.looked s.consumer.live.length = .looked 0 → (s.put c).consumer.live = [] :=
      fun h => absurd (List.length_eq_zero_iff.mp (Milestone.looked.inj h)) hlive
    have hp := (ht.apart hm.toApart).quiet (fun _ => Milestone.noConfusion)
      (fun _ => Milestone.noConfusion) hz
    exact { hp with }
  | lookInVain hl hlive =>
    have hp := ht.quiet (m := .looked 0) (fun _ => Milestone.noConfusion)
      (fun _ => Milestone.noConfusion) fun _ => hlive
    have hp' : Tracked { s with looking := false, history := s.history ++ [.looked 0] } :=
      { hp with }
    exact hp'.stopServing

end Tracked

/-! ### Runs -/

theorem tracked_run (sub : Subscription) (ts : List Turn) : Tracked ((start sub).run ts) :=
  run_invariant ts (fun _ _ _ h ht => h.turned ht) (.start sub)

/-- Links keep their addresses, and what has happened has happened. -/
structure Grown (s s' : Underway) : Prop where
  history : s.history <+: s'.history
  addressOf : ∀ addr i, s.consumer.addressOf i = some addr → s'.consumer.addressOf i = some addr

namespace Grown

theorem refl (s : Underway) : Grown s s := ⟨List.prefix_rfl, fun _ _ => id⟩

theorem trans {s'' : Underway} (hg : Grown s s') (hg' : Grown s' s'') : Grown s s'' :=
  ⟨hg.history.trans hg'.history, fun addr i => hg'.addressOf addr i ∘ hg.addressOf addr i⟩

theorem of_later (hh : s.history <+: s'.history)
    (hc : Linkwise Link.Later s.consumer s'.consumer) : Grown s s' :=
  ⟨hh, fun _ i => (hc.addressOf_eq i).trans⟩

theorem stopServing (s : Underway) : Grown s s.stopServing := by
  refine .of_later ?_ (apart_stopServing s.consumer).links
  unfold Underway.stopServing
  dsimp only
  split_ifs
  · exact List.prefix_append _ _
  · exact List.prefix_rfl

theorem turned (h : Turned t s s') : Grown s s' := by
  cases h with
  | manned hm => exact .of_later List.prefix_rfl hm.links
  | instruct _ => exact .of_later List.prefix_rfl (linkwise_of_eq rfl)
  | take ho hf htake => exact .of_later List.prefix_rfl htake.links
  | leave => exact .of_later List.prefix_rfl (apart_leave s.consumer).links
  | takeDown hd => exact .of_later List.prefix_rfl (linkwise_of_eq rfl)
  | fail hk hm => exact .of_later List.prefix_rfl hm.links
  | @dial k addr closing l c hk ha hm =>
    refine ⟨List.prefix_rfl, fun a i hi => (hm.links.addressOf_eq i).trans ?_⟩
    exact (addressOf_openLink (by simp [hi]) l).trans hi
  | goOn hk ha hl hm => exact .of_later List.prefix_rfl hm.links
  | enter hk hm => exact .of_later (List.prefix_append _ _) hm.links
  | finish hi ho hm hc hc' hr =>
    exact .of_later (List.prefix_append _ _) (hm.links.trans_later hr.links)
  | conclude hk hr hm => exact .of_later List.prefix_rfl hm.links
  | @shut k r hk hs hr =>
    have hdone : Grown s { s with reports := s.reports.eraseIdx k } :=
      .of_later List.prefix_rfl (linkwise_of_eq rfl)
    exact hdone.trans (stopServing _)
  | stop hs => exact .of_later List.prefix_rfl (linkwise_of_eq rfl)
  | look hl hlive hm => exact .of_later (List.prefix_append _ _) hm.links
  | lookInVain hl hlive =>
    have hlook : Grown s { s with looking := false, history := s.history ++ [.looked 0] } :=
      .of_later (List.prefix_append _ _) (linkwise_of_eq rfl)
    exact hlook.trans (stopServing _)

end Grown

theorem grown_run (ts : List Turn) (s : Underway) : Grown s (s.run ts) :=
  run_invariant ts (fun _ _ _ h ht => h.trans (.turned ht)) (.refl s)

/-- A link whose end was reported before it entered the table stays there. -/
theorem Logged.dead_mem {h' : List Milestone} (hl : Logged h' c) (hh : h <+: h')
    (ha : c.addressOf i = some addr) (hb : Before (.ended i) (.entered i) h) :
    (addr, i) ∈ c.live :=
  (hl.live addr i).mpr
    ⟨ha, hh.subset hb.right, hl.once i (List.Sublist.trans hb hh.sublist)⟩

/-- **Which links are in the table.** Let turns be taken in any order. Then

* in the table are the links that entered it and whose end was not reported since, each at its own
  address;
* so there is one whose end was reported exactly if some end was reported before its link entered
  the table;
* if a stop found the table empty, whatever is there entered it afterwards;
* a link whose end was reported, if it is in the table, stays there whatever turns follow, and its
  address is not connected to any more. -/
theorem live_links (sub : Subscription) (ts : List Turn) :
    let s := (start sub).run ts
    let h := s.history
    (∀ addr i, (addr, i) ∈ s.consumer.live ↔
      s.consumer.addressOf i = some addr ∧ .entered i ∈ h ∧ ¬Before (.entered i) (.ended i) h) ∧
    ((∃ e ∈ s.consumer.live, .ended e.2 ∈ h) ↔ ∃ i, Before (.ended i) (.entered i) h) ∧
    (.looked 0 ∈ h → ∀ e ∈ s.consumer.live, Before (.looked 0) (.entered e.2) h) ∧
    ∀ e ∈ s.consumer.live, .ended e.2 ∈ h → ∀ ts', let s' := s.run ts'
      e ∈ s'.consumer.live ∧ ∀ a ∈ s'.attempts, a.addr ≠ e.1 := by
  intro s h
  have hs : Tracked s := tracked_run sub ts
  refine ⟨hs.logged.live, hs.logged.dead_iff, hs.logged.looked, ?_⟩
  rintro ⟨addr, i⟩ he hend ts' s'
  have hs' : Tracked s' := run_invariant ts' (fun _ _ _ h ht => h.turned ht) hs
  have hg : Grown s s' := grown_run ts' s
  obtain ⟨ha, hin, hb⟩ := (hs.logged.live addr i).mp he
  have hdead : Before (.ended i) (.entered i) h :=
    (before_or_before hin hend Milestone.noConfusion).resolve_left hb
  have hmem := hs'.logged.dead_mem hg.history (hg.addressOf addr i ha) hdead
  refine ⟨hmem, fun a hattempt heq => ?_⟩
  exact (hs'.alone a hattempt).vacant i (heq ▸ hmem)

/-- The only link comes to its end, and reports that, before it enters the table. -/
def deserted : List Turn :=
  [.act silence (.addHandlers 1), .takeDown "h:1", .dial 0 (.ok { terms := none }), .subscribe 0,
    .act silence (.endOfInput 0), .read silence.chance 0, .settle 0, .conclude 0, .enter 0]

/-- When all has come to rest, the table may hold a link whose end was reported, for good; and it
may hold one though a stop found it empty. -/
theorem live_of_ended_and_of_unseen :
    let s := (start sample.subscription).run deserted
    let s' := (start sample.subscription).run overtaken
    (s.AtRest ∧ (∃ e ∈ s.consumer.live, .ended e.2 ∈ s.history) ∧
      ∀ ts', ("h:1", 0) ∈ (s.run ts').consumer.live) ∧
    s'.AtRest ∧ .looked 0 ∈ s'.history ∧ s'.consumer.live = [("h:1", 0)] ∧
      Before (.looked 0) (.entered 0) s'.history := by
  intro s s'
  have hrest : s.AtRest :=
    ⟨by decide +kernel, by decide +kernel, by decide +kernel, by decide +kernel⟩
  have hrest' : s'.AtRest :=
    ⟨by decide +kernel, by decide +kernel, by decide +kernel, by decide +kernel⟩
  have hlive : s.consumer.live = [("h:1", 0)] := by decide +kernel
  have hlive' : s'.consumer.live = [("h:1", 0)] := by decide +kernel
  have hlooked : .looked 0 ∈ s'.history := by decide +kernel
  obtain ⟨-, hdead, -, hstays⟩ := live_links sample.subscription deserted
  obtain ⟨-, -, hlater, -⟩ := live_links sample.subscription overtaken
  have hmem : ("h:1", 0) ∈ s.consumer.live := hlive ▸ List.mem_singleton_self _
  refine ⟨⟨hrest, hdead.mpr ⟨0, by decide +kernel⟩, fun ts' => ?_⟩, hrest', hlooked, hlive', ?_⟩
  · exact (hstays _ hmem (by decide +kernel) ts').1
  · exact hlater hlooked _ (hlive' ▸ List.mem_singleton_self _)

end Underway

end Nsq
