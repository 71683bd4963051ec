import Nsq.Proofs.Publisher.Bond

/-!
# Connections, routers and the guard

A publisher that counts as connected has the connection of its latest dial, and what routers are
told concerns the latest router only. `Sound` has what every turn keeps of that, whatever ends,
faults and stops come between the phases of a dial.
-/

namespace Nsq.Publisher

/-- A reader that has begun and whose end is not reported. -/
def Reader.isActive : Reader → Bool
  | .reading | .reporting | .ended => true
  | _ => false

namespace Bond

variable {s s' : Bond} {k n : Nat} {d : Dial} {phase : Phase}

theorem link_lose (hl : s.link = .connected) (caller : Caller) : (s.lose caller).link = .lost := by
  have hp : s.publisher.link = .connected := hl
  simp [link, lose, Publisher.close, hp]

/-! ### Connections, routers and the guard -/

/-- Phases in which the publisher does not count as connected yet. -/
def Phase.isEarly : Phase → Bool
  | .opening | .opened | .stored => true
  | _ => false

/-- What holds while a dial has the guard. -/
structure Dialed (n : Nat) (phase : Phase) (s : Bond) : Prop where
  latest : n + 1 = s.dials.length
  signal : s.signal = some n
  stopped : s.publisher.stopped = false
  absent : ∀ d, s.Dials n d → d.router = .absent
  early : phase.isEarly = true → s.link = .idle ∧ ∀ d, s.Dials n d → d.closing = false
  conn : phase ≠ .opening → phase ≠ .opened → s.conn = some n

/-- What always holds of connections, routers and the guard. -/
structure Sound (s : Bond) : Prop where
  signal : ∀ n, s.signal = some n → n + 1 = s.dials.length
  conn : s.link ≠ .idle → ∃ n, s.conn = some n ∧ n + 1 = s.dials.length
  watched : s.link ≠ .idle →
    s.watched = s.conn ∨ ∃ n publishes, s.guard = some (.dialing n .announced publishes)
  dialing : ∀ n phase publishes, s.guard = some (.dialing n phase publishes) → Dialed n phase s
  lost : s.closings.length + s.waits.length = if s.link = .lost then 1 else 0
  unasked : s.link = .connected → ∀ n d, n + 1 = s.dials.length → s.Dials n d → d.closing = false
  left : ∀ k d, s.Dials k d → d.router = .clearing ∨ d.router = .gone →
    s.signal ≠ some k ∨ s.exiting = true
  routed : s.link = .connected → ∀ n d, n + 1 = s.dials.length → s.Dials n d →
    d.router = .absent → ∃ phase publishes, s.guard = some (.dialing n phase publishes)
  stopping : s.exiting = true ∨ s.guard = some .stopping ∨ s.guard = some .exiting →
    s.publisher.stopped = true

namespace Sound

theorem start (address : String) (config : Config) : Sound (start address config) where
  signal _ h := absurd h (Option.some_ne_none _).symm
  conn h := absurd rfl h
  watched h := absurd rfl h
  dialing _ _ _ h := absurd h (Option.some_ne_none _).symm
  lost := rfl
  unasked h := absurd h LinkState.noConfusion
  left k d h := absurd h.lt (Nat.not_lt_zero k)
  routed h := absurd h LinkState.noConfusion
  stopping h := by simp [Bond.start] at h

/-- A dial may change: its router may leave if it was told to, and its connection may be asked to
close if it is being given up. -/
theorem modify (h : Sound s) {f : Dial → Dial}
    (ha : ∀ d, s.Dials k d → ((f d).router = .absent ↔ d.router = .absent))
    (hr : ∀ d, s.Dials k d → (f d).router = .clearing ∨ (f d).router = .gone →
      s.signal ≠ some k ∨ s.exiting = true)
    (hc : s.link = .lost ∨ ∀ d, (f d).closing = d.closing) : Sound (s.modify k f) := by
  have hlen := length_modify k f s
  have habsent : ∀ {j d'}, (s.modify k f).Dials j d' →
      ∃ d, s.Dials j d ∧ (d'.router = .absent ↔ d.router = .absent) := by
    intro j d' hd'
    obtain ⟨d, hd, ⟨rfl, rfl⟩ | ⟨-, rfl⟩⟩ := dials_modify_cases hd'
    · exact ⟨d, hd, ha d hd⟩
    · exact ⟨d', hd, .rfl⟩
  have hclosing : ∀ {j d'}, s.link ≠ .lost → (s.modify k f).Dials j d' →
      ∃ d, s.Dials j d ∧ d'.closing = d.closing := by
    intro j d' hl hd'
    obtain ⟨d, hd, ⟨-, rfl⟩ | ⟨-, rfl⟩⟩ := dials_modify_cases hd'
    · exact ⟨d, hd, hc.resolve_left hl d⟩
    · exact ⟨d', hd, rfl⟩
  exact
    { h with
      signal := fun n hn => hlen ▸ h.signal n hn
      conn := fun hl => hlen ▸ h.conn hl
      dialing := fun n ph p hg =>
        { h.dialing n ph p hg with
          latest := hlen ▸ (h.dialing n ph p hg).latest
          absent := fun d' hd' => by
            obtain ⟨d, hd, hiff⟩ := habsent hd'
            exact hiff.mpr ((h.dialing n ph p hg).absent d hd)
          early := fun he => by
            obtain ⟨hl, hopen⟩ := (h.dialing n ph p hg).early he
            refine ⟨hl, fun d' hd' => ?_⟩
            obtain ⟨d, hd, hsame⟩ := hclosing (by simp [hl]) hd'
            exact hsame.trans (hopen d hd) }
      unasked := fun hl n d' hn hd' => by
        obtain ⟨d, hd, hsame⟩ := hclosing (by simp [show s.link = _ from hl]) hd'
        exact hsame.trans (h.unasked hl n d (hlen ▸ hn) hd)
      left := fun j d' hd' hleft => by
        obtain ⟨d, hd, ⟨rfl, rfl⟩ | ⟨-, rfl⟩⟩ := dials_modify_cases hd'
        · exact hr d hd hleft
        · exact h.left j d' hd hleft
      routed := fun hl n d' hn hd' hno => by
        obtain ⟨d, hd, hiff⟩ := habsent hd'
        exact h.routed hl n d (hlen ▸ hn) hd (hiff.mp hno) }

/-- What readers do does not matter. -/
theorem modifyReader (h : Sound s) (f : Reader → Reader) (k : Nat) :
    Sound (s.modify k fun d => { d with reader := f d.reader }) :=
  h.modify (fun _ _ => .rfl) (fun d hd => h.left k d hd) (.inr fun _ => rfl)

theorem setReader (h : Sound s) (k : Nat) (r : Reader) : Sound (s.setReader k r) :=
  h.modifyReader (fun _ => r) k

theorem note (h : Sound s) (m : Milestone) : Sound (s.note m) :=
  { h with dialing := fun n ph p hg => { h.dialing n ph p hg with } }

theorem setClosings (h : Sound s) {cs : List Closing} (hcs : cs.length = s.closings.length) :
    Sound { s with closings := cs } :=
  { h with
    dialing := fun n ph p hg => { h.dialing n ph p hg with }
    lost := (congrArg (· + s.waits.length) hcs).trans h.lost }

/-- The connection is given up. -/
theorem lose (h : Sound s) (hl : s.link = .connected) (caller : Caller) :
    Sound (s.lose caller) := by
  have hlost := link_lose hl caller
  have hne : s.link ≠ .idle := by simp [hl]
  have hstopped : (s.lose caller).publisher.stopped = s.publisher.stopped := by
    simp only [Bond.lose, Publisher.close]
    split_ifs <;> rfl
  exact
    { signal := h.signal
      conn := fun _ => h.conn hne
      watched := fun _ => h.watched hne
      dialing := fun n ph p hg =>
        { h.dialing n ph p hg with
          stopped := hstopped.trans (h.dialing n ph p hg).stopped
          early := fun he => absurd ((h.dialing n ph p hg).early he).1 hne }
      lost := by
        have hsum := h.lost
        simp only [hl, if_neg (show LinkState.connected ≠ .lost by decide)] at hsum
        simp only [hlost, if_true]
        simp only [Bond.lose, List.length_append, List.length_singleton]
        omega
      unasked := fun hc => by simp [hlost] at hc
      left := h.left
      routed := fun hc => by simp [hlost] at hc
      stopping := fun hs => hstopped.trans (h.stopping hs) }

/-- Who gives the connection up looks up the router to wait for. -/
theorem seek (h : Sound s) {j : Nat} {c : Closing} (hj : s.closings[j]? = some c) :
    Sound
      { s.note .sought with
        closings := s.closings.eraseIdx j
        waits := s.waits ++ [s.watched] } :=
  { h with
    dialing := fun n ph p hg => { h.dialing n ph p hg with }
    lost := by
      have hlt : j < s.closings.length := (List.getElem?_eq_some_iff.mp hj).1
      have hsum := h.lost
      simp only [List.length_eraseIdx_of_lt hlt, List.length_append, List.length_singleton]
      show _ = if s.link = .lost then 1 else 0
      omega }

/-- While a connection is being given up, the publisher counts as neither connected nor idle. -/
theorem link_eq_lost (h : Sound s) (hc : s.closings ≠ [] ∨ s.waits ≠ []) : s.link = .lost := by
  by_contra hl
  have hsum := h.lost
  rw [if_neg hl] at hsum
  rcases hc with hc | hc
  · exact hc (List.length_eq_zero_iff.mp (by omega))
  · exact hc (List.length_eq_zero_iff.mp (by omega))

/-- A dial has the guard. -/
theorem hold (h : Sound s) {phase : Phase} {publishes : Bool} (hd : Dialed n phase s)
    (hw : s.link ≠ .idle → s.watched = s.conn ∨ phase = .announced) :
    Sound { s with guard := some (.dialing n phase publishes) } :=
  { h with
    watched := fun hne => (hw hne).imp_right fun hp => ⟨n, publishes, by rw [hp]⟩
    dialing := fun m ph p hm => by
      obtain ⟨rfl, rfl, rfl⟩ := dialing_inj hm
      exact { hd with }
    routed := fun _ m d hm _ _ => by
      obtain rfl : m = n := Nat.succ.inj (hm.trans hd.latest.symm)
      exact ⟨_, _, rfl⟩
    stopping := fun hs => h.stopping (.inl (hs.resolve_right (by simp))) }

/-- No dial has the guard. -/
theorem free (h : Sound s) {g : Option Holder} (hg : ∀ n phase p, g ≠ some (.dialing n phase p))
    (hw : s.link ≠ .idle → s.watched = s.conn)
    (hr : s.link = .connected → ∀ n d, n + 1 = s.dials.length → s.Dials n d → d.router ≠ .absent)
    (hs : g = some .stopping ∨ g = some .exiting → s.publisher.stopped = true) :
    Sound { s with guard := g } :=
  { h with
    watched := fun hne => .inl (hw hne)
    dialing := fun n ph p hm => absurd hm (hg n ph p)
    routed := fun hl n d hn hd ha => absurd ha (hr hl n d hn hd)
    stopping := fun hst => hst.elim (fun he => h.stopping (.inl he)) hs }

/-- The guard goes from one to another, neither of them a dial. -/
theorem pass (h : Sound s) {g : Option Holder} (hg : ∀ n phase p, g ≠ some (.dialing n phase p))
    (hg' : ∀ n phase p, s.guard ≠ some (.dialing n phase p))
    (hs : g = some .stopping ∨ g = some .exiting → s.publisher.stopped = true) :
    Sound { s with guard := g } :=
  h.free hg (fun hne => (h.watched hne).resolve_right fun ⟨n, p, hd⟩ => hg' n _ p hd)
    (fun hl n d hn hd ha => by
      obtain ⟨ph, p, hdial⟩ := h.routed hl n d hn hd ha
      exact hg' n ph p hdial)
    hs

end Sound

theorem ne_nil_of_getElem? {α : Type} {l : List α} {j : Nat} {a : α} (h : l[j]? = some a) :
    l ≠ [] := by
  rintro rfl
  simp at h

theorem Dialed.next (hd : Dialed n phase s) {phase' : Phase} (he : phase'.isEarly = phase.isEarly)
    (hc : phase' ≠ .opening → phase' ≠ .opened → s.conn = some n) : Dialed n phase' s :=
  { hd with early := fun h => hd.early (he.symm.trans h), conn := hc }

/-- A dial begins. -/
theorem Sound.begin (h : Sound s) (hs : s.publisher.stopped = false) (hl : s.link = .idle)
    (arriving : Nat) (publishes : Bool) :
    Sound
      { s with
        dials := s.dials ++ [{}]
        signal := some s.dials.length
        guard := some (.dialing s.dials.length .opening publishes)
        arriving } := by
  have hlen : s.dials.length + 1 = (s.dials ++ [({} : Dial)]).length := by simp
  have hnew : ∀ d, (s.dials ++ [({} : Dial)])[s.dials.length]? = some d → d = {} := by
    intro d hd
    rw [List.getElem?_concat_length] at hd
    exact (Option.some.inj hd).symm
  exact
    { signal := fun n hn => Option.some.inj hn ▸ hlen
      conn := fun hne => absurd hl hne
      watched := fun hne => absurd hl hne
      dialing := fun n ph p hg => by
        obtain ⟨rfl, rfl, rfl⟩ := dialing_inj hg
        exact
          { latest := hlen
            signal := rfl
            stopped := hs
            absent := fun d hd => by rw [hnew d hd]
            early := fun _ => ⟨hl, fun d hd => by rw [hnew d hd]⟩
            conn := fun hno => absurd rfl hno }
      lost := h.lost
      unasked := fun hc => by simp [show s.link = .connected from hc] at hl
      left := fun k d hd hleft => by
        rcases dials_concat_cases hd with hd | ⟨-, rfl⟩
        · exact .inl fun hk => Nat.lt_irrefl _ (Option.some.inj hk ▸ Dials.lt hd)
        · simp at hleft
      routed := fun hc => by simp [show s.link = .connected from hc] at hl
      stopping := fun hst => h.stopping (.inl (hst.resolve_right (by simp))) }

/-- The connection of a dial is announced. -/
theorem Sound.announce (h : Sound s) {p : Bool}
    (hg : s.guard = some (.dialing n .stored p)) :
    Sound
      { s.note (.announced n) with
        publisher := { s.publisher with link := .connected }
        guard := some (.dialing n .announced p) } := by
  have hd := h.dialing n _ p hg
  obtain ⟨hl, hopen⟩ := hd.early rfl
  have hconn := hd.conn (by decide) (by decide)
  exact
    { signal := h.signal
      conn := fun _ => ⟨n, hconn, hd.latest⟩
      watched := fun _ => .inr ⟨n, p, rfl⟩
      dialing := fun m ph q hm => by
        obtain ⟨rfl, rfl, rfl⟩ := dialing_inj hm
        exact { hd with early := fun he => absurd he Bool.false_ne_true, conn := fun _ _ => hconn }
      lost := by
        have hsum := h.lost
        rw [hl] at hsum
        exact hsum
      unasked := fun _ m d hm hdial => by
        obtain rfl : m = n := Nat.succ.inj (hm.trans hd.latest.symm)
        exact hopen d hdial
      left := h.left
      routed := fun _ m d hm _ _ => by
        obtain rfl : m = n := Nat.succ.inj (hm.trans hd.latest.symm)
        exact ⟨_, _, rfl⟩
      stopping := fun hst => h.stopping (.inl (hst.resolve_right (by simp))) }

/-- The router of a dial starts, and the guard is free. -/
theorem Sound.launch (h : Sound s) {p : Bool}
    (hg : s.guard = some (.dialing n .watched p)) (waiting : Nat) :
    Sound { s.setRouter n .running with guard := none, waiting } := by
  have hd := h.dialing n _ p hg
  have hback : ∀ {j d'}, (s.setRouter n .running).Dials j d' →
      ∃ d, s.Dials j d ∧ d'.closing = d.closing ∧
        (n = j ∧ d'.router = .running ∨ n ≠ j ∧ d' = d) := by
    intro j d' hd'
    obtain ⟨d, hdial, ⟨rfl, rfl⟩ | ⟨hne, rfl⟩⟩ := dials_modify_cases hd'
    · exact ⟨d, hdial, rfl, .inl ⟨rfl, rfl⟩⟩
    · exact ⟨d', hdial, rfl, .inr ⟨hne, rfl⟩⟩
  have hlen : (s.setRouter n .running).dials.length = s.dials.length := length_modify ..
  exact
    { signal := fun m hm => hlen ▸ h.signal m hm
      conn := fun hl => hlen ▸ h.conn hl
      watched := fun hl => (h.watched hl).imp_right fun ⟨m, q, hm⟩ => by simp [hg] at hm
      dialing := fun m ph q hm => absurd hm (Option.some_ne_none _).symm
      lost := h.lost
      unasked := fun hl m d' hm hd' => by
        obtain ⟨d, hdial, hsame, -⟩ := hback hd'
        exact hsame.trans (h.unasked hl m d (hlen ▸ hm) hdial)
      left := fun j d' hd' hleft => by
        obtain ⟨d, hdial, -, ⟨-, hrun⟩ | ⟨-, rfl⟩⟩ := hback hd'
        · simp [hrun] at hleft
        · exact h.left j _ hdial hleft
      routed := fun _ m d' hm hd' hno => by
        obtain rfl : m = n := Nat.succ.inj ((hlen ▸ hm).trans hd.latest.symm)
        obtain ⟨d, -, -, ⟨-, hrun⟩ | ⟨hne, -⟩⟩ := hback hd'
        · simp [hrun] at hno
        · exact absurd rfl hne
      stopping := fun hst => h.stopping (.inl (hst.resolve_right (by simp))) }

/-- The publisher may dial again. -/
theorem Sound.release (h : Sound s) {j : Nat} {r : Option Nat} (hj : s.waits[j]? = some r) :
    Sound
      { s with publisher := { s.publisher with link := .idle }, waits := s.waits.eraseIdx j } := by
  have hl := h.link_eq_lost (.inr (ne_nil_of_getElem? hj))
  exact
    { signal := h.signal
      conn := fun hne => absurd rfl hne
      watched := fun hne => absurd rfl hne
      dialing := fun m ph q hm =>
        { h.dialing m ph q hm with
          early := fun he => ⟨rfl, ((h.dialing m ph q hm).early he).2⟩ }
      lost := by
        have hsum := h.lost
        have hlt : j < s.waits.length := (List.getElem?_eq_some_iff.mp hj).1
        rw [hl] at hsum
        simp only [List.length_eraseIdx_of_lt hlt]
        simp only [if_true] at hsum
        show _ = 0
        omega
      unasked := fun hc => absurd hc LinkState.noConfusion
      left := h.left
      routed := fun hc => absurd hc LinkState.noConfusion
      stopping := h.stopping }

theorem Sound.moved (h : Sound s) (hm : Moved s s') : Sound s' := by
  cases hm with
  | crowd hw => exact { h with dialing := fun n ph p hg => { h.dialing n ph p hg with } }
  | begin hg hs hl => exact h.begin hs hl _ _
  | @fail n p hg =>
    have hl := ((h.dialing n _ p hg).early rfl).1
    exact h.free (by simp) (absurd hl) (fun hc => by simp [hl] at hc) (by simp)
  | @opened n p hg =>
    have hs := h.setReader n .reading
    have hd := hs.dialing n _ p hg
    exact hs.hold (hd.next rfl fun _ hno => absurd rfl hno) (absurd (hd.early rfl).1)
  | @stored n p hg =>
    have hd := h.dialing n _ p hg
    have hl := (hd.early rfl).1
    have hs : Sound { s with conn := some n } :=
      { h with
        conn := absurd hl
        watched := absurd hl
        dialing := fun m ph q hm => by
          rw [hg] at hm
          obtain ⟨rfl, rfl, rfl⟩ := dialing_inj hm
          exact { hd with conn := fun _ hno => absurd rfl hno } }
    exact hs.hold (Dialed.next (hs.dialing n _ p hg) rfl fun _ _ => rfl) (absurd hl)
  | announced hg => exact h.announce hg
  | @watched n p hg =>
    have hd := h.dialing n _ p hg
    have hconn := hd.conn (by decide) (by decide)
    have hs : Sound { s.note (.watched n) with watched := some n } :=
      { h.note (.watched n) with
        watched := fun _ => .inl hconn.symm
        dialing := fun m ph q hm => { h.dialing m ph q hm with } }
    exact hs.hold (Dialed.next (hs.dialing n _ p hg) rfl fun _ _ => hconn) fun _ => .inl hconn.symm
  | launched hg => exact h.launch hg _
  | stop hg =>
    have hs : Sound { s with publisher := { s.publisher with stopped := true } } :=
      { h with
        dialing := fun m ph q hm => by simp [show s.guard = _ from hm] at hg
        stopping := fun _ => rfl }
    exact hs.pass (by simp) (fun n ph p hm => by simp [show s.guard = _ from hm] at hg) fun _ => rfl
  | exiting hg =>
    have hstop := h.stopping (.inr (.inl hg))
    have hs : Sound { s with exiting := true } :=
      { h with
        dialing := fun m ph q hm => by simp [show s.guard = _ from hm] at hg
        left := fun _ _ _ _ => .inr rfl
        stopping := fun _ => hstop }
    exact hs.pass (by simp) (fun n ph p hm => by simp [show s.guard = _ from hm] at hg)
      fun _ => hstop
  | exited hg =>
    exact h.pass (by simp) (fun n ph p hm => by simp [hm] at hg) (by simp)
  | lose hl => exact h.lose hl _
  | loseStopping hl hg =>
    exact (h.lose hl .stop).pass (by simp)
      (fun n ph p hm => by simp [show s.guard = _ from hm] at hg) (by simp)
  | reporting hk hr hl => exact (h.setReader _ .reporting).lose hl _
  | ended hk hr hc => exact h.setReader _ .ended
  | ignored hk hr hl => exact (h.setReader _ .ended).note _
  | @ask j n c c' hj hn =>
    have hl := h.link_eq_lost (.inl (ne_nil_of_getElem? hj))
    have hs : Sound (s.modify n fun d => { d with closing := true }) :=
      h.modify (fun _ _ => .rfl) (fun d hd => h.left n d hd) (.inl hl)
    exact hs.setClosings List.length_set
  | askNobody hj => exact h.setClosings List.length_set
  | seek hj => exact h.seek hj
  | seekReporting hj => exact (h.seek hj).modifyReader Reader.afterReport _
  | seekStopping hj hg =>
    exact (h.seek hj).pass (by simp) (fun n ph p hm => by simp [show s.guard = _ from hm] at hg)
      (by simp)
  | release hj hr => exact h.release hj
  | @severed k n d hg hk hr hl hn =>
    have hs := (h.setReader k .over).note (.severed k n)
    exact { hs with
      signal := fun n hn => by simp at hn
      dialing := fun m ph q hm => by simp [show s.guard = _ from hm] at hg
      left := fun _ _ _ _ => .inl (by simp) }
  | @report k d hg hk hr hn =>
    have hs := h.setReader k .over
    exact { hs with
      signal := fun n hn => by simp at hn
      dialing := fun m ph q hm => by simp [show s.guard = _ from hm] at hg
      left := fun _ _ _ _ => .inl (by simp) }
  | @leave k d hk hr hs =>
    refine h.modify (fun d' hd' => ?_) (fun _ _ _ => hs) (.inr fun _ => rfl)
    obtain rfl := Option.some.inj (hk.symm.trans hd')
    simp [hr]
  | @finish k d hk hr hw =>
    refine h.modify (fun d' hd' => ?_) (fun _ _ _ => h.left k d hk (.inl hr)) (.inr fun _ => rfl)
    obtain rfl := Option.some.inj (hk.symm.trans hd')
    simp [hr]

end Bond

end Nsq.Publisher
