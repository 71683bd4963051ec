import Nsq.Proofs.Publisher.Routing

/-!
# Connections that are severed from their routers

A publisher that counts as connected takes publications, which wait for a router. When the end of a
connection is reported, the router that is told to leave is the latest one, whichever connection has
ended. This is as it should be while ends come in time, before the next dial and after the
connection was given up (`Prompt`). They do not always: a fault is ignored while the connection is
not announced, and whoever gives a connection up before its router can be found does not wait for
the router.

`Bond.router_of_connected` says that these two are the only ways to a connected publisher without a
router.
-/

namespace Nsq.Publisher.Bond

variable {s s' : Bond} {k n : Nat} {d : Dial} {phase : Phase}

/-! ### What the history says -/

/-- What the history says of dials, readers and routers. -/
structure Noted (s : Bond) : Prop where
  watched : ∀ n, .watched n ∈ s.history →
    n < s.dials.length ∧ ∀ phase p, s.guard = some (.dialing n phase p) → phase = .watched
  announced : ∀ n p, s.guard = some (.dialing n .announced p) → .announced n ∈ s.history
  ignored : ∀ n phase p d, s.guard = some (.dialing n phase p) → phase.isEarly = true →
    s.Dials n d → d.reader = .ended → .ignored n ∈ s.history
  overlooked : s.link = .connected → ∀ n d, n + 1 = s.dials.length → s.Dials n d →
    d.reader = .ended → Before (.ignored n) (.announced n) s.history
  severed : ∀ k n, .severed k n ∈ s.history → n < s.dials.length ∧ s.signal ≠ some n
  kept : s.link = .connected → ∀ n, n + 1 = s.dials.length →
    s.signal = some n ∨ ∃ k, .severed k n ∈ s.history

namespace Noted

theorem start (address : String) (config : Config) : Noted (start address config) where
  watched _ h := absurd h List.not_mem_nil
  announced _ _ h := absurd h (Option.some_ne_none _).symm
  ignored _ _ _ _ h := absurd h (Option.some_ne_none _).symm
  overlooked h := absurd h LinkState.noConfusion
  severed _ _ h := absurd h List.not_mem_nil
  kept h := absurd h LinkState.noConfusion

/-- A reader may end if that was ignored, or if its connection is not in use. -/
theorem modify (h : Noted s) {f : Dial → Dial}
    (hf : ∀ d, s.Dials k d → (f d).reader = .ended → d.reader = .ended ∨
      (∀ phase p, s.guard = some (.dialing k phase p) → phase.isEarly = true →
        .ignored k ∈ s.history) ∧ (s.link = .connected → k + 1 ≠ s.dials.length)) :
    Noted (s.modify k f) := by
  have hlen := length_modify k f s
  exact
    { h with
      watched := fun n hn => hlen ▸ h.watched n hn
      ignored := fun n ph p d' hg he hd' hr => by
        obtain ⟨d, hd, ⟨rfl, rfl⟩ | ⟨-, rfl⟩⟩ := dials_modify_cases hd'
        · rcases hf d hd hr with hr | ⟨hi, -⟩
          · exact h.ignored k ph p d hg he hd hr
          · exact hi ph p hg he
        · exact h.ignored n ph p d' hg he hd hr
      overlooked := fun hl n d' hn hd' hr => by
        obtain ⟨d, hd, ⟨rfl, rfl⟩ | ⟨-, rfl⟩⟩ := dials_modify_cases hd'
        · rcases hf d hd hr with hr | ⟨-, hno⟩
          · exact h.overlooked hl k d (hlen ▸ hn) hd hr
          · exact absurd (hlen ▸ hn) (hno hl)
        · exact h.overlooked hl n d' (hlen ▸ hn) hd hr
      severed := fun j n hn => hlen ▸ h.severed j n hn
      kept := fun hl n hn => h.kept hl n (hlen ▸ hn) }

theorem note (h : Noted s) {m : Milestone} (hw : ∀ n, m ≠ .watched n)
    (hs : ∀ k n, m ≠ .severed k n) : Noted (s.note m) where
  watched n hn := h.watched n (by simpa [Bond.note, (hw n).symm] using hn)
  announced n p hg := List.mem_append_left _ (h.announced n p hg)
  ignored n ph p d hg he hd hr := List.mem_append_left _ (h.ignored n ph p d hg he hd hr)
  overlooked hl n d hn hd hr := (h.overlooked hl n d hn hd hr).append _
  severed k n hn := h.severed k n (by simpa [Bond.note, (hs k n).symm] using hn)
  kept hl n hn := (h.kept hl n hn).imp_right (.imp fun _ => List.mem_append_left _)

/-- No dial has the guard. -/
theorem free (h : Noted s) {g : Option Holder} (hg : ∀ n phase p, g ≠ some (.dialing n phase p)) :
    Noted { s with guard := g } :=
  { h with
    watched := fun n hn => ⟨(h.watched n hn).1, fun ph p hd => absurd hd (hg n ph p)⟩
    announced := fun n p hd => absurd hd (hg n _ p)
    ignored := fun n ph p _ hd => absurd hd (hg n ph p) }

/-- A dial goes on before its connection is announced. -/
theorem goOn (h : Noted s) {phase' : Phase} {p : Bool}
    (hg : s.guard = some (.dialing n phase p)) (he : phase.isEarly = true)
    (he' : phase'.isEarly = true) : Noted { s with guard := some (.dialing n phase' p) } :=
  { h with
    watched := fun m hm => by
      refine ⟨(h.watched m hm).1, fun ph q hd => ?_⟩
      obtain ⟨rfl, rfl, rfl⟩ := dialing_inj hd
      have hw := (h.watched n hm).2 phase p hg
      simp [hw, Phase.isEarly] at he
    announced := fun m q hd => by
      obtain ⟨-, rfl, -⟩ := dialing_inj hd
      exact absurd he' Bool.false_ne_true
    ignored := fun m ph q d hd _ hdial hr => by
      obtain ⟨rfl, rfl, rfl⟩ := dialing_inj hd
      exact h.ignored n phase p d hg he hdial hr }

/-- The publisher does not count as connected. -/
theorem unlink (h : Noted s) {publisher : Publisher} (hl : publisher.link ≠ .connected) :
    Noted { s with publisher } :=
  { h with
    overlooked := fun hc => absurd hc hl
    kept := fun hc => absurd hc hl }

theorem lose (h : Noted s) (hl : s.link = .connected) (caller : Caller) :
    Noted (s.lose caller) := by
  have hne : (s.lose caller).publisher.link ≠ .connected := by
    simp [show (s.lose caller).publisher.link = _ from link_lose hl caller]
  exact { h.unlink hne with }

theorem seek (h : Noted s) (j : Nat) :
    Noted
      { s.note .sought with
        closings := s.closings.eraseIdx j
        waits := s.waits ++ [s.watched] } :=
  { h.note (m := .sought) (fun _ => Milestone.noConfusion) fun _ _ => Milestone.noConfusion with }

/-- A dial begins. -/
theorem begin (h : Noted s) (hl : s.link = .idle) (arriving : Nat) (publishes : Bool) :
    Noted
      { s with
        dials := s.dials ++ [{}]
        signal := some s.dials.length
        guard := some (.dialing s.dials.length .opening publishes)
        arriving } := by
  have hlen : s.dials.length + 1 = (s.dials ++ [({} : Dial)]).length := by simp
  exact
    { watched := fun n hn => by
        obtain ⟨hlt, -⟩ := h.watched n hn
        refine ⟨hlen ▸ Nat.lt_succ_of_lt hlt, fun ph p hd => ?_⟩
        exact absurd (dialing_inj hd).1.symm (Nat.ne_of_lt hlt)
      announced := fun n p hd => by simp at hd
      ignored := fun n ph p d hd _ hdial hr => by
        obtain ⟨rfl, -, -⟩ := dialing_inj hd
        rcases dials_concat_cases hdial with hold | ⟨-, rfl⟩
        · exact absurd (Dials.lt hold) (Nat.lt_irrefl _)
        · exact absurd hr Reader.noConfusion
      overlooked := fun hc => by simp [show s.link = .connected from hc] at hl
      severed := fun k n hn => by
        obtain ⟨hlt, -⟩ := h.severed k n hn
        refine ⟨hlen ▸ Nat.lt_succ_of_lt hlt, fun heq => ?_⟩
        exact absurd (Option.some.inj heq).symm (Nat.ne_of_lt hlt)
      kept := fun hc => by simp [show s.link = .connected from hc] at hl }

/-- The connection of a dial is announced. A fault that was ignored was ignored before that. -/
theorem announce (hs : Sound s) (h : Noted s) {p : Bool}
    (hg : s.guard = some (.dialing n .stored p)) :
    Noted
      { s.note (.announced n) with
        publisher := { s.publisher with link := .connected }
        guard := some (.dialing n .announced p) } := by
  have hd := hs.dialing n _ p hg
  have hwatched : .watched n ∉ s.history := fun hw =>
    absurd ((h.watched n hw).2 _ p hg) Phase.noConfusion
  have hn := h.note (m := .announced n) (fun _ => Milestone.noConfusion)
    fun _ _ => Milestone.noConfusion
  exact
    { watched := fun m hm => by
        refine ⟨(hn.watched m hm).1, fun ph q hd => ?_⟩
        obtain ⟨rfl, -, -⟩ := dialing_inj hd
        exact absurd (by simpa [Bond.note] using hm) hwatched
      announced := fun m q hd => by
        obtain ⟨rfl, -, -⟩ := dialing_inj hd
        exact List.mem_append_right _ (List.mem_singleton_self _)
      ignored := fun m ph q d hd he => by
        obtain ⟨-, rfl, -⟩ := dialing_inj hd
        exact absurd he Bool.false_ne_true
      overlooked := fun _ m d hm hdial hr => by
        obtain rfl : m = n := Nat.succ.inj (hm.trans hd.latest.symm)
        exact before_concat.mpr (.inr ⟨rfl, h.ignored m _ p d hg rfl hdial hr⟩)
      severed := hn.severed
      kept := fun _ m hm => by
        obtain rfl : m = n := Nat.succ.inj (hm.trans hd.latest.symm)
        exact .inl hd.signal }

/-- Who gives the connection up waits for its router from now on. -/
theorem watch (hs : Sound s) (h : Noted s) {p : Bool}
    (hg : s.guard = some (.dialing n .announced p)) :
    Noted
      { s.note (.watched n) with
        watched := some n
        guard := some (.dialing n .watched p) } := by
  have hd := hs.dialing n _ p hg
  exact
    { watched := fun m hm => by
        refine ⟨?_, fun ph q hd => ?_⟩
        · rcases List.mem_append.mp hm with hm | hm
          · exact (h.watched m hm).1
          · obtain rfl : m = n := by simpa using hm
            exact hd.latest ▸ Nat.lt_succ_self m
        · exact (dialing_inj hd).2.1.symm
      announced := fun m q hd => by simp at hd
      ignored := fun m ph q d hd he => by
        obtain ⟨-, rfl, -⟩ := dialing_inj hd
        exact absurd he Bool.false_ne_true
      overlooked := fun hl m d hm hdial hr => (h.overlooked hl m d hm hdial hr).append _
      severed := fun k m hm => h.severed k m (by simpa [Bond.note] using hm)
      kept := fun hl m hm => (h.kept hl m hm).imp_right (.imp fun _ => List.mem_append_left _) }

/-- The end of a connection is reported while the publisher counts as connected. -/
theorem sever (hs : Sound s) (h : Noted s) (hg : s.guard = none) (hn : s.signal = some n) :
    Noted { (s.setReader k .over).note (.severed k n) with signal := none } := by
  have hover : Noted (s.setReader k .over) := h.modify fun _ _ hr => absurd hr Reader.noConfusion
  have hlen : (s.setReader k .over).dials.length = s.dials.length := length_modify ..
  have hlat := hs.signal n hn
  exact
    { watched := fun m hm => hover.watched m (by simpa [Bond.note] using hm)
      announced := fun m p hd => by simp [show s.guard = _ from hd] at hg
      ignored := fun m ph p d hd => by simp [show s.guard = _ from hd] at hg
      overlooked := fun hl m d hm hdial hr => (hover.overlooked hl m d hm hdial hr).append _
      severed := fun j m hm => by
        refine ⟨?_, (Option.some_ne_none _).symm⟩
        rcases List.mem_append.mp hm with hm | hm
        · exact (hover.severed j m hm).1
        · obtain ⟨-, rfl⟩ : j = k ∧ m = n := by simpa using hm
          exact hlen ▸ hlat ▸ Nat.lt_succ_self m
      kept := fun _ m hm => by
        obtain rfl : m = n := Nat.succ.inj ((hlen ▸ hm).trans hlat.symm)
        exact .inr ⟨k, List.mem_append_right _ (List.mem_singleton_self _)⟩ }

end Noted

theorem Noted.moved (hs : Sound s) (h : Noted s) (hm : Moved s s') : Noted s' := by
  cases hm with
  | crowd hw => exact { h with }
  | begin hg hst hl => exact h.begin hl _ _
  | fail hg => exact h.free (by simp)
  | @opened n p hg =>
    have hr : Noted (s.setReader n .reading) := h.modify fun _ _ hr => absurd hr Reader.noConfusion
    exact hr.goOn hg rfl rfl
  | @stored n p hg =>
    have hc : Noted { s with conn := some n } := { h with }
    exact hc.goOn hg rfl rfl
  | announced hg => exact h.announce hs hg
  | watched hg => exact h.watch hs hg
  | @launched n w p hg =>
    have hr : Noted (s.setRouter n .running) := h.modify fun _ _ hr => .inl hr
    exact { hr.free (g := none) (by simp) with }
  | stop hg =>
    have hst : Noted { s with publisher := { s.publisher with stopped := true } } := { h with }
    exact hst.free (by simp)
  | exiting hg =>
    have hex : Noted { s with exiting := true } := { h with }
    exact hex.free (by simp)
  | exited hg => exact h.free (by simp)
  | lose hl => exact h.lose hl _
  | loseStopping hl hg => exact (h.lose hl .stop).free (by simp)
  | @reporting k d hk hr hl =>
    have hrep : Noted (s.setReader k .reporting) :=
      h.modify fun _ _ hr => absurd hr Reader.noConfusion
    exact hrep.lose hl _
  | @ended k d hk hr hc =>
    refine h.modify fun d' hd' _ => .inr ⟨fun ph p hg he => ?_, fun hl hn => ?_⟩
    · have hopen := ((hs.dialing k ph p hg).early he).2 d hk
      exact absurd (hopen.symm.trans hc) Bool.false_ne_true
    · exact absurd ((hs.unasked hl k d hn hk).symm.trans hc) Bool.false_ne_true
  | @ignored k d hk hr hl =>
    have hn := h.note (m := .ignored k) (fun _ => Milestone.noConfusion)
      fun _ _ => Milestone.noConfusion
    have hlast : .ignored k ∈ (s.note (.ignored k)).history :=
      List.mem_append_right _ (List.mem_singleton_self _)
    exact hn.modify (f := fun d => { d with reader := .ended }) fun d _ _ =>
      .inr ⟨fun _ _ _ _ => hlast, fun hc => absurd hc hl⟩
  | @ask j n c c' hj hn =>
    have hask : Noted (s.modify n fun d => { d with closing := true }) :=
      h.modify fun _ _ hr => .inl hr
    exact { hask with }
  | askNobody hj => exact { h with }
  | seek hj => exact h.seek _
  | @seekReporting j k c hj =>
    have hl := hs.link_eq_lost (.inl (ne_nil_of_getElem? hj))
    refine (h.seek j).modify fun d hd hr => .inr ⟨fun ph p hg he => ?_, fun hc => ?_⟩
    · have hidle := ((hs.dialing k ph p hg).early he).1
      exact absurd (hl.symm.trans hidle) LinkState.noConfusion
    · exact absurd (hl.symm.trans hc) LinkState.noConfusion
  | seekStopping hj hg => exact (h.seek _).free (by simp)
  | release hj hr =>
    have hidle : Noted { s with publisher := { s.publisher with link := .idle } } :=
      h.unlink LinkState.noConfusion
    exact { hidle with }
  | severed hg hk hr hl hn => exact h.sever hs hg hn
  | @report k d hg hk hr hn =>
    have hover : Noted (s.setReader k .over) := h.modify fun _ _ hr => absurd hr Reader.noConfusion
    exact
      { hover with
        severed := fun j n hj => ⟨(hover.severed j n hj).1, (Option.some_ne_none _).symm⟩
        kept := fun hl n hlat => (hover.kept hl n hlat).imp_left fun hsig => by
          exact absurd ((hn hl).symm.trans hsig) (Option.some_ne_none _).symm }
  | leave hk hr hst => exact h.modify fun _ _ hr => .inl hr
  | finish hk hr hw => exact h.modify fun _ _ hr => .inl hr

/-! ### Ends that come in time -/

/-- Who gave a connection up has looked up the router to wait for after the connection was announced
and before its router could be found. -/
def Missed (h : List Milestone) : Prop :=
  ∃ n h', h' ++ [.sought] <+: h ∧ .announced n ∈ h' ∧ .watched n ∉ h'

theorem Missed.mono {h h' : List Milestone} (hm : Missed h) (hh : h <+: h') : Missed h' := by
  obtain ⟨n, front, hf, hin, hout⟩ := hm
  exact ⟨n, front, hf.trans hh, hin, hout⟩

/-- Ends are reported before another connection is dialed: only the latest connection has one
left. -/
structure Prompt (s : Bond) : Prop where
  signal : ∀ k d, s.Dials k d → d.reader.isActive = true → s.signal = some k
  idle : s.link = .idle → s.publisher.stopped = false →
    (∀ n phase p, s.guard = some (.dialing n phase p) → phase = .opening) →
    ∀ k d, s.Dials k d → d.reader.isActive = false
  waits : ∀ r ∈ s.waits, ∃ n, r = some n ∧ n + 1 = s.dials.length
  linked : ∀ n phase p, s.guard = some (.dialing n phase p) → phase.isEarly = false → s.link ≠ .idle

namespace Prompt

theorem start (address : String) (config : Config) : Prompt (start address config) where
  signal k _ h := absurd h.lt (Nat.not_lt_zero k)
  idle _ _ _ k _ h := absurd h.lt (Nat.not_lt_zero k)
  waits _ h := absurd h List.not_mem_nil
  linked _ _ _ h := absurd h (Option.some_ne_none _).symm

/-- No reader begins. -/
theorem modify (h : Prompt s) {f : Dial → Dial}
    (hf : ∀ d, s.Dials k d → (f d).reader.isActive = true → d.reader.isActive = true) :
    Prompt (s.modify k f) := by
  have hlen := length_modify k f s
  have hback : ∀ {j d'}, (s.modify k f).Dials j d' → d'.reader.isActive = true →
      ∃ d, s.Dials j d ∧ d.reader.isActive = true := by
    intro j d' hd' hact
    obtain ⟨d, hd, ⟨rfl, rfl⟩ | ⟨-, rfl⟩⟩ := dials_modify_cases hd'
    · exact ⟨d, hd, hf d hd hact⟩
    · exact ⟨d', hd, hact⟩
  exact
    { h with
      signal := fun j d' hd' hact => by
        obtain ⟨d, hd, hact'⟩ := hback hd' hact
        exact h.signal j d hd hact'
      idle := fun hl hst hg j d' hd' => by
        by_contra hact
        obtain ⟨d, hd, hact'⟩ := hback hd' (by simpa using hact)
        exact absurd ((h.idle hl hst hg j d hd).symm.trans hact') Bool.false_ne_true
      waits := fun r hr => hlen ▸ h.waits r hr }

/-- A reader that reads gets somewhere. -/
theorem setReader (h : Prompt s) (hk : s.Dials k d) (hr : d.reader = .reading) (r : Reader) :
    Prompt (s.setReader k r) :=
  h.modify fun d' hd' _ => by
    obtain rfl := Option.some.inj (hk.symm.trans hd')
    rw [hr]
    rfl

/-- Nobody dials. -/
theorem free (h : Prompt s) {g : Option Holder} (hg : ∀ n phase p, g ≠ some (.dialing n phase p))
    (hi : s.link = .idle → s.publisher.stopped = false →
      ∀ n phase p, s.guard = some (.dialing n phase p) → phase = .opening) :
    Prompt { s with guard := g } :=
  { h with
    idle := fun hl hst _ => h.idle hl hst (hi hl hst)
    linked := fun n ph p hd => absurd hd (hg n ph p) }

/-- A dial goes on. -/
theorem hold (h : Prompt s) {p : Bool} (hp : phase ≠ .opening)
    (hl : phase.isEarly = false → s.link ≠ .idle) :
    Prompt { s with guard := some (.dialing n phase p) } :=
  { h with
    idle := fun _ _ hg => absurd (hg n phase p rfl) hp
    linked := fun m ph q hd he => by
      obtain ⟨-, rfl, -⟩ := dialing_inj hd
      exact hl he }

/-- The publisher does not count as idle. -/
theorem link (h : Prompt s) {publisher : Publisher} (hl : publisher.link ≠ .idle) :
    Prompt { s with publisher } :=
  { h with
    idle := fun hc => absurd hc hl
    linked := fun _ _ _ _ _ => hl }

/-- Who gave the connection up looks up the router to wait for. -/
theorem seek (hs : Sound s) (hn : Noted s) (h : Prompt s) {j : Nat} {c : Closing}
    (hj : s.closings[j]? = some c) :
    Missed (s.history ++ [.sought]) ∨
      Prompt
        { s.note .sought with
          closings := s.closings.eraseIdx j
          waits := s.waits ++ [s.watched] } := by
  have hl : s.link ≠ .idle := by simp [hs.link_eq_lost (.inl (ne_nil_of_getElem? hj))]
  rcases hs.watched hl with hw | ⟨n, p, hg⟩
  · obtain ⟨n, hconn, hlat⟩ := hs.conn hl
    refine .inr { h with waits := fun r hr => ?_ }
    rcases List.mem_append.mp hr with hr | hr
    · exact h.waits r hr
    · exact ⟨n, (List.mem_singleton.mp hr).trans (hw.trans hconn), hlat⟩
  · exact .inl ⟨n, s.history, List.prefix_rfl, hn.announced n p hg, fun hmem =>
      absurd ((hn.watched n hmem).2 _ p hg) Phase.noConfusion⟩

/-- The connection is given up. -/
theorem lose (h : Prompt s) (hl : s.link = .connected) (caller : Caller) :
    Prompt (s.lose caller) := by
  have hne : (s.lose caller).publisher.link ≠ .idle := by
    simp [show (s.lose caller).publisher.link = _ from link_lose hl caller]
  exact { h.link hne with }

/-- A router that was waited for is gone. It was the latest one, so no end is left to be
reported. -/
theorem release (hs : Sound s) (h : Prompt s) {j : Nat} {r : Option Nat} (hj : s.waits[j]? = some r)
    (hr : s.isGone r = true) :
    Prompt { s with
      publisher := { s.publisher with link := .idle }
      waits := s.waits.eraseIdx j } := by
  obtain ⟨n, rfl, hlat⟩ := h.waits r (List.mem_of_getElem? hj)
  obtain ⟨d, hd, hgone⟩ : ∃ d, s.Dials n d ∧ d.router = .gone := by
    simpa [isGone, Option.any_eq_true, Dials] using hr
  have hfree : ∀ m ph p, s.guard ≠ some (.dialing m ph p) := fun m ph p hg => by
    obtain rfl : m = n := Nat.succ.inj ((hs.dialing m ph p hg).latest.trans hlat.symm)
    exact absurd (hgone.symm.trans ((hs.dialing m ph p hg).absent d hd)) Routing.noConfusion
  exact
    { h with
      idle := fun _ hst _ k d' hd' => by
        by_contra hact
        have hsignal := h.signal k d' hd' (by simpa using hact)
        obtain rfl : k = n := Nat.succ.inj ((hs.signal k hsignal).trans hlat.symm)
        rcases hs.left k d hd (.inr hgone) with hno | hexit
        · exact hno hsignal
        · exact absurd ((show s.publisher.stopped = false from hst).symm.trans
            (hs.stopping (.inl hexit))) Bool.false_ne_true
      waits := fun r hr => h.waits r (List.mem_of_mem_eraseIdx hr)
      linked := fun m ph p hg => absurd hg (hfree m ph p) }

/-- The end of a connection is reported. It was the only one that could be reported. -/
theorem report (h : Prompt s) (hk : s.Dials k d) (hr : d.reader = .ended) :
    Prompt { s.setReader k .over with signal := none } := by
  have hsignal := h.signal k d hk (by rw [hr]; rfl)
  have hover : Prompt (s.setReader k .over) :=
    h.modify fun _ _ hact => absurd hact Bool.false_ne_true
  have hnone : ∀ j d', (s.setReader k .over).Dials j d' → d'.reader.isActive = false := by
    intro j d' hd'
    by_contra hact
    obtain rfl : k = j :=
      Option.some.inj (hsignal.symm.trans (hover.signal j d' hd' (by simpa using hact)))
    obtain ⟨e, -, ⟨-, rfl⟩ | ⟨hne, -⟩⟩ := dials_modify_cases hd'
    · exact hact rfl
    · exact hne rfl
  exact
    { hover with
      signal := fun j d' hd' hact => absurd ((hnone j d' hd').symm.trans hact) Bool.false_ne_true
      idle := fun _ _ _ => hnone }

end Prompt

theorem Prompt.moved (hs : Sound s) (hn : Noted s) (h : Prompt s) (hm : Moved s s') :
    Missed s'.history ∨ Prompt s' := by
  cases hm with
  | crowd hw => exact .inr { h with }
  | begin hg hst hl =>
    have hnone := h.idle hl hst fun n ph p hd => by simp [hd] at hg
    have hnew : ∀ (k : Nat) (d : Dial), (s.dials ++ [({} : Dial)])[k]? = some d →
        d.reader.isActive = false := by
      intro k d hd
      rcases dials_concat_cases hd with hd | ⟨-, rfl⟩
      · exact hnone k d hd
      · rfl
    have hwaits : s.waits = [] := by
      by_contra hw
      simp [hs.link_eq_lost (.inr hw)] at hl
    exact .inr
      { signal := fun k d hd hact => absurd ((hnew k d hd).symm.trans hact) Bool.false_ne_true
        idle := fun _ _ _ => hnew
        waits := fun r hr => by simp [hwaits] at hr
        linked := fun n ph p hd he => by
          obtain ⟨-, rfl, -⟩ := dialing_inj hd
          exact absurd he (by decide) }
  | @fail n p hg =>
    exact .inr (h.free (by simp) fun _ _ m ph q hd => (dialing_inj (hg.symm.trans hd)).2.1.symm)
  | @opened n p hg =>
    have hd := hs.dialing n _ p hg
    have hlen : (s.setReader n .reading).dials.length = s.dials.length := length_modify ..
    exact .inr
      { signal := fun j d' hd' hact => by
          obtain ⟨e, he, ⟨rfl, -⟩ | ⟨-, rfl⟩⟩ := dials_modify_cases hd'
          · exact hd.signal
          · exact h.signal j _ he hact
        idle := fun _ _ hno => absurd (hno n _ p rfl) (by decide)
        waits := fun r hr => hlen ▸ h.waits r hr
        linked := fun m ph q hm he => by
          obtain ⟨-, rfl, -⟩ := dialing_inj hm
          exact absurd he (by decide) }
  | @stored n p hg =>
    have hc : Prompt { s with conn := some n } := { h with }
    exact .inr (hc.hold (by decide) fun he => absurd he (by decide))
  | @announced n p hg =>
    have hc : Prompt { s with publisher := { s.publisher with link := .connected } } :=
      h.link LinkState.noConfusion
    have ho : Prompt { s with
        publisher := { s.publisher with link := .connected }
        guard := some (.dialing n .announced p) } :=
      hc.hold (by decide) fun _ => LinkState.noConfusion
    exact .inr { ho with }
  | @watched n p hg =>
    have hl := h.linked n _ p hg rfl
    have ho : Prompt { s with guard := some (.dialing n .watched p) } :=
      h.hold (by decide) fun _ => hl
    exact .inr { ho with }
  | @launched n w p hg =>
    have hr : Prompt (s.setRouter n .running) := h.modify fun _ _ hr => hr
    exact .inr { hr.free (g := none) (by simp) fun hl => absurd hl (h.linked n _ p hg rfl) with }
  | stop hg =>
    have hst : Prompt { s with publisher := { s.publisher with stopped := true } } :=
      { h with idle := fun _ hst => absurd hst.symm Bool.false_ne_true }
    exact .inr (hst.free (by simp) fun _ _ m ph q hd => by simp [show s.guard = _ from hd] at hg)
  | exiting hg =>
    have hex : Prompt { s with exiting := true } := { h with }
    exact .inr (hex.free (by simp) fun _ _ m ph q hd => by simp [show s.guard = _ from hd] at hg)
  | exited hg =>
    exact .inr (h.free (by simp) fun _ _ m ph q hd => by simp [hd] at hg)
  | lose hl => exact .inr (h.lose hl _)
  | loseStopping hl hg =>
    exact .inr ((h.lose hl .stop).free (by simp) fun _ _ m ph q hd => by
      simp [show s.guard = _ from hd] at hg)
  | @reporting k d hk hr hl =>
    exact .inr ((h.setReader hk hr .reporting).lose hl _)
  | @ended k d hk hr hc =>
    exact .inr (h.setReader hk hr .ended)
  | @ignored k d hk hr hl =>
    exact .inr { h.setReader hk hr .ended with }
  | @ask j n c c' hj hn =>
    have hask : Prompt (s.modify n fun d => { d with closing := true }) :=
      h.modify fun _ _ hr => hr
    exact .inr { hask with }
  | askNobody hj => exact .inr { h with }
  | seek hj => exact h.seek hs hn hj
  | @seekReporting j k c hj =>
    refine (h.seek hs hn hj).imp_right fun hseek => ?_
    refine hseek.modify (f := fun d : Dial => { d with reader := d.reader.afterReport })
      fun d _ hact => ?_
    cases hr : d.reader <;> simp_all [Reader.afterReport, Reader.isActive]
  | seekStopping hj hg =>
    refine (h.seek hs hn hj).imp_right fun hseek => hseek.free (by simp) fun _ _ m ph q hd => ?_
    simp [show s.guard = _ from hd] at hg
  | release hj hr => exact .inr (h.release hs hj hr)
  | severed hg hk hr hl hn => exact .inr { h.report hk hr with }
  | report hg hk hr hn => exact .inr (h.report hk hr)
  | leave hk hr hst => exact .inr (h.modify fun _ _ hr => hr)
  | finish hk hr hw => exact .inr (h.modify fun _ _ hr => hr)

/-! ### Ends that sever a connection from its router -/

/-- What a turn adds to the history: a connection is severed only from its router by an end that is
reported while the publisher counts as connected. -/
theorem history_moved (hm : Moved s s') : ∃ ms, s'.history = s.history ++ ms ∧
    ∀ k n, .severed k n ∈ ms →
      s.link = .connected ∧ s.signal = some n ∧ ∃ d, s.Dials k d ∧ d.reader = .ended := by
  have hnone : ∃ ms, s.history = s.history ++ ms ∧ ∀ k n, .severed k n ∈ ms →
      s.link = .connected ∧ s.signal = some n ∧ ∃ d, s.Dials k d ∧ d.reader = .ended :=
    ⟨[], (List.append_nil _).symm, fun k n hm => absurd hm List.not_mem_nil⟩
  cases hm with
  | announced hg => exact ⟨_, rfl, by simp⟩
  | watched hg => exact ⟨_, rfl, by simp⟩
  | ignored hk hr hl => exact ⟨_, rfl, by simp⟩
  | seek hj => exact ⟨_, rfl, by simp⟩
  | seekReporting hj => exact ⟨_, rfl, by simp⟩
  | seekStopping hj hg => exact ⟨_, rfl, by simp⟩
  | severed hg hk hr hl hn =>
    refine ⟨_, rfl, fun k n hm => ?_⟩
    obtain ⟨rfl, rfl⟩ : k = _ ∧ n = _ := by simpa using hm
    exact ⟨hl, hn, _, hk, hr⟩
  | _ => exact hnone

theorem prefix_moved (hm : Moved s s') : s.history <+: s'.history := by
  obtain ⟨ms, heq, -⟩ := history_moved hm
  exact heq ▸ List.prefix_append _ _

/-- Why connections were severed from their routers: a fault was ignored before the connection was
announced, or somebody who gave a connection up missed its router. -/
def Explained (h : List Milestone) : Prop :=
  ∀ k n, .severed k n ∈ h →
    k = n ∧ Before (.ignored n) (.announced n) h ∨ k < n ∧ Missed h

theorem Explained.moved (hs : Sound s) (hn : Noted s) (hp : Missed s.history ∨ Prompt s)
    (h : Explained s.history) (hm : Moved s s') : Explained s'.history := by
  obtain ⟨ms, heq, hnew⟩ := history_moved hm
  have hpre : s.history <+: s'.history := prefix_moved hm
  intro k n hmem
  rw [heq] at hmem
  rcases List.mem_append.mp hmem with hmem | hmem
  · exact (h k n hmem).imp (fun ⟨hk, hb⟩ => ⟨hk, List.Sublist.trans hb hpre.sublist⟩)
      fun ⟨hk, hmiss⟩ => ⟨hk, hmiss.mono hpre⟩
  obtain ⟨hl, hsig, d, hd, hr⟩ := hnew k n hmem
  have hlat := hs.signal n hsig
  by_cases hkn : k = n
  · -- the connection in use has ended, and nobody has given it up
    subst hkn
    exact .inl ⟨rfl, List.Sublist.trans (hn.overlooked hl k d hlat hd hr) hpre.sublist⟩
  · -- the end of an earlier connection has come too late
    have hlt := hd.lt
    refine .inr ⟨by omega, (hp.resolve_right fun hp => hkn ?_).mono hpre⟩
    exact Option.some.inj ((hp.signal k d hd (by rw [hr]; rfl)).symm.trans hsig)

/-! ### Publications that wait for a router -/

/-- A router takes publications. -/
def Receives (s : Bond) : Prop :=
  ∃ k d, s.Dials k d ∧ (d.router = .running ∨ d.router = .clearing)

theorem receives_iff : s.receives = true ↔ Receives s := by
  simp only [receives, List.any_eq_true, Bool.or_eq_true, decide_eq_true_eq, Receives, Dials]
  constructor
  · rintro ⟨d, hd, hr⟩
    obtain ⟨k, hk⟩ := List.mem_iff_getElem?.mp hd
    exact ⟨k, d, hk, hr⟩
  · rintro ⟨k, d, hk, hr⟩
    exact ⟨d, List.mem_of_getElem? hk, hr⟩

/-- A publication that waits is taken care of: a router takes it or will be there, or it sees that
the publisher stops, unless a connection was severed from its router. -/
def Served (s : Bond) : Prop :=
  s.waiting = 0 ∨ s.exiting = true ∨ Receives s ∨
    (∃ n phase p, s.guard = some (.dialing n phase p) ∧ phase.isEarly = false) ∨
    ∃ k n, .severed k n ∈ s.history

theorem Receives.modify (h : Receives s) {f : Dial → Dial}
    (hf : ∀ d, s.Dials k d → d.router = .running ∨ d.router = .clearing →
      (f d).router = .running ∨ (f d).router = .clearing) : Receives (s.modify k f) := by
  obtain ⟨j, d, hd, hr⟩ := h
  by_cases hkj : k = j
  · subst hkj
    exact ⟨k, f d, dials_modify_self hd f, hf d hd hr⟩
  · exact ⟨j, d, (dials_modify_of_ne hkj f s).mpr hd, hr⟩

theorem Receives.setReader (h : Receives s) (k : Nat) (r : Reader) : Receives (s.setReader k r) :=
  h.modify (f := fun d => { d with reader := r }) fun _ _ => id

namespace Served

theorem mono (h : Served s) (hw : s.waiting = 0 → s'.waiting = 0)
    (he : s.exiting = true → s'.exiting = true) (hr : Receives s → Receives s')
    (hg : ∀ n phase p, s.guard = some (.dialing n phase p) → phase.isEarly = false →
      s'.guard = s.guard) (hh : s.history <+: s'.history) : Served s' := by
  rcases h with h | h | h | ⟨n, ph, p, hd, hl⟩ | ⟨k, n, hk⟩
  · exact .inl (hw h)
  · exact .inr (.inl (he h))
  · exact .inr (.inr (.inl (hr h)))
  · exact .inr (.inr (.inr (.inl ⟨n, ph, p, (hg n ph p hd hl).trans hd, hl⟩)))
  · exact .inr (.inr (.inr (.inr ⟨k, n, hh.subset hk⟩)))

/-- While the publisher counts as connected, any publication is taken care of. -/
theorem of_connected (hs : Sound s) (hn : Noted s) (hl : s.link = .connected) {w : Nat} :
    Served { s with waiting := w } := by
  have hne : s.link ≠ .idle := by simp [hl]
  obtain ⟨n, -, hlat⟩ := hs.conn hne
  obtain ⟨d, hd⟩ : ∃ d, s.Dials n d := ⟨s.dials[n], List.getElem?_eq_getElem _⟩
  have hlate : ∀ m ph p, s.guard = some (.dialing m ph p) → ph.isEarly = false := by
    intro m ph p hg
    by_contra he
    exact hne ((hs.dialing m ph p hg).early (by simpa using he)).1
  right
  cases hr : d.router with
  | absent =>
    obtain ⟨ph, p, hg⟩ := hs.routed hl n d hlat hd hr
    exact .inr (.inr (.inl ⟨n, ph, p, hg, hlate n ph p hg⟩))
  | running => exact .inr (.inl ⟨n, d, hd, .inl hr⟩)
  | clearing => exact .inr (.inl ⟨n, d, hd, .inr hr⟩)
  | gone =>
    rcases hs.left n d hd (.inr hr) with hno | hexit
    · obtain ⟨k, hk⟩ := (hn.kept hl n hlat).resolve_left hno
      exact .inr (.inr (.inr ⟨k, n, hk⟩))
    · exact .inl hexit

end Served

theorem Served.moved (hs : Sound s) (hn : Noted s) (h : Served s) (hm : Moved s s') :
    Served s' := by
  have hh := prefix_moved hm
  -- who holds the guard for a dial that is announced goes on with it
  have early : ∀ {m ph p}, s.guard = some (.dialing m ph p) → ph.isEarly = true →
      ∀ n phase q, s.guard = some (.dialing n phase q) → phase.isEarly = false →
        s'.guard = s.guard := by
    intro m ph p hg he n phase q hg' hl
    obtain ⟨-, rfl, -⟩ := dialing_inj (hg.symm.trans hg')
    exact absurd (hl.symm.trans he) Bool.false_ne_true
  have idle : (∀ m ph p, s.guard ≠ some (.dialing m ph p)) →
      ∀ n phase q, s.guard = some (.dialing n phase q) → phase.isEarly = false →
        s'.guard = s.guard := fun hno n ph q hg => absurd hg (hno n ph q)
  cases hm with
  | crowd hw =>
    rcases hw with hw | hl
    · exact h.mono (fun hz => Nat.le_zero.mp (hz ▸ hw)) id id (fun _ _ _ _ _ => rfl) hh
    · exact of_connected hs hn hl
  | begin hg hst hl =>
    refine h.mono id id (fun ⟨k, d, hd, hr⟩ => ⟨k, d, ?_, hr⟩) (idle (by simp [hg])) hh
    exact (List.getElem?_append_left (Dials.lt hd)).trans hd
  | fail hg => exact h.mono id id id (early hg rfl) hh
  | @opened n p hg => exact h.mono id id (·.setReader n .reading) (early hg rfl) hh
  | stored hg => exact h.mono id id id (early hg rfl) hh
  | @announced n p hg => exact .inr (.inr (.inr (.inl ⟨n, _, p, rfl, rfl⟩)))
  | @watched n p hg => exact .inr (.inr (.inr (.inl ⟨n, _, p, rfl, rfl⟩)))
  | @launched n w p hg =>
    have hlat := (hs.dialing n _ p hg).latest
    have hd : s.Dials n s.dials[n] := List.getElem?_eq_getElem _
    exact .inr (.inr (.inl ⟨n, _, dials_modify_self hd _, .inl rfl⟩))
  | stop hg => exact h.mono id id id (idle (by simp [hg])) hh
  | exiting hg => exact .inr (.inl rfl)
  | exited hg => exact h.mono id id id (idle (by simp [hg])) hh
  | lose hl => exact h.mono id id id (fun _ _ _ _ _ => rfl) hh
  | loseStopping hl hg => exact h.mono id id id (idle (by simp [hg])) hh
  | @reporting k d hk hr hl =>
    exact h.mono id id (·.setReader k .reporting) (fun _ _ _ _ _ => rfl) hh
  | @ended k d hk hr hc => exact h.mono id id (·.setReader k .ended) (fun _ _ _ _ _ => rfl) hh
  | @ignored k d hk hr hl => exact h.mono id id (·.setReader k .ended) (fun _ _ _ _ _ => rfl) hh
  | @ask j n c c' hj hn =>
    have hask : Receives s → Receives (s.modify n fun d => { d with closing := true }) :=
      fun hr => hr.modify fun _ _ => id
    exact h.mono id id hask (fun _ _ _ _ _ => rfl) hh
  | askNobody hj => exact h.mono id id id (fun _ _ _ _ _ => rfl) hh
  | seek hj => exact h.mono id id id (fun _ _ _ _ _ => rfl) hh
  | @seekReporting j k c hj =>
    have hback : Receives s →
        Receives (s.modify k fun d => { d with reader := d.reader.afterReport }) :=
      fun hr => hr.modify fun _ _ => id
    exact h.mono id id hback (fun _ _ _ _ _ => rfl) hh
  | seekStopping hj hg => exact h.mono id id id (idle (by simp [hg])) hh
  | release hj hr => exact h.mono id id id (fun _ _ _ _ _ => rfl) hh
  | @severed k n d hg hk hr hl hn =>
    exact h.mono id id (·.setReader k .over) (fun _ _ _ _ _ => rfl) hh
  | @report k d hg hk hr hn =>
    exact h.mono id id (·.setReader k .over) (fun _ _ _ _ _ => rfl) hh
  | @leave k d hk hr hst =>
    have hclear : Receives s → Receives (s.setRouter k .clearing) :=
      fun hr => hr.modify (f := fun d => { d with router := .clearing }) fun _ _ _ => .inr rfl
    exact h.mono id id hclear (fun _ _ _ _ _ => rfl) hh
  | finish hk hr hw => exact .inl hw

/-! ### Runs -/

/-- What every turn keeps. -/
structure Bonded (s : Bond) : Prop where
  sound : Sound s
  noted : Noted s
  prompt : Missed s.history ∨ Prompt s
  explained : Explained s.history
  served : Served s

theorem bonded_run (address : String) (config : Config) (ts : List Turn) :
    Bonded ((start address config).run ts) := by
  refine run_invariant ts (fun s s' h hm => ?_)
    { sound := .start address config
      noted := .start address config
      prompt := .inr (.start address config)
      explained := fun _ _ hm => absurd hm List.not_mem_nil
      served := .inl rfl }
  exact
    { sound := h.sound.moved hm
      noted := .moved h.sound h.noted hm
      prompt := by
        rcases h.prompt with hmiss | hp
        · exact .inl (hmiss.mono (prefix_moved hm))
        · exact hp.moved h.sound h.noted hm
      explained := .moved h.sound h.noted h.prompt h.explained hm
      served := .moved h.sound h.noted h.served hm }

/-- Nobody dials, and no router that hands commands over has still to hear that it shall leave. -/
structure Calm (s : Bond) : Prop where
  dialing : ∀ n phase p, s.guard ≠ some (.dialing n phase p)
  told : ∀ k d, s.Dials k d → d.router = .running → s.signal = some k ∧ s.exiting = false

/-- When all is calm, a connected publisher has a router unless it stops or was severed from it. -/
theorem Bonded.routed_iff (h : Bonded s) (hc : Calm s) (hl : s.link = .connected) :
    ∃ n, s.conn = some n ∧ ((∃ k d, s.Dials k d ∧ d.router = .running) ↔
      s.exiting = false ∧ ∀ k, .severed k n ∉ s.history) := by
  obtain ⟨n, hconn, hlat⟩ := h.sound.conn (by simp [hl])
  refine ⟨n, hconn, ?_, ?_⟩
  · rintro ⟨k, d, hd, hr⟩
    obtain ⟨hsignal, hexit⟩ := hc.told k d hd hr
    obtain rfl : k = n := Nat.succ.inj ((h.sound.signal k hsignal).trans hlat.symm)
    exact ⟨hexit, fun j hj => (h.noted.severed j k hj).2 hsignal⟩
  · rintro ⟨hexit, hkept⟩
    have hsignal : s.signal = some n :=
      (h.noted.kept hl n hlat).resolve_right fun ⟨k, hk⟩ => hkept k hk
    have hd : s.Dials n s.dials[n] := List.getElem?_eq_getElem _
    refine ⟨n, _, hd, ?_⟩
    have hleft : ¬(s.dials[n].router = .clearing ∨ s.dials[n].router = .gone) := fun hleft => by
      rcases h.sound.left n _ hd hleft with hno | hno
      · exact hno hsignal
      · exact absurd (hexit.symm.trans hno) Bool.false_ne_true
    cases hr : s.dials[n].router with
    | absent =>
      obtain ⟨ph, p, hg⟩ := h.sound.routed hl n _ hlat hd hr
      exact absurd hg (hc.dialing n ph p)
    | running => rfl
    | clearing => exact absurd (.inl hr) hleft
    | gone => exact absurd (.inr hr) hleft

/-- **A connected publisher and its router.** Let turns be taken in any order. Then

* when nobody dials and no router has still to hear that it shall leave, a publisher that counts as
  connected has a router, unless it stops or its connection was severed from the router: the end of
  some connection was reported while the publisher counted as connected;
* there are two ways to that. The connection itself met a fault before it was announced, which was
  ignored; or the end was that of an earlier connection, and somebody who gave a connection up
  looked for its router before the router could be found;
* a publication that waits for a router has one, will have one or sees that the publisher stops,
  unless some connection was severed from its router. -/
theorem router_of_connected (address : String) (config : Config) (ts : List Turn) :
    let s := (start address config).run ts
    (Calm s → s.link = .connected → ∃ n, s.conn = some n ∧
      ((∃ k d, s.Dials k d ∧ d.router = .running) ↔
        s.exiting = false ∧ ∀ k, .severed k n ∉ s.history)) ∧
    (∀ k n, .severed k n ∈ s.history →
      k = n ∧ Before (.ignored n) (.announced n) s.history ∨ k < n ∧ Missed s.history) ∧
    (0 < s.waiting → s.receives = true ∨ s.exiting = true ∨
      (∃ n phase p, s.guard = some (.dialing n phase p) ∧ phase.isEarly = false) ∨
      ∃ k n, .severed k n ∈ s.history) := by
  intro s
  have h : Bonded s := bonded_run address config ts
  refine ⟨h.routed_iff, h.explained, fun hw => ?_⟩
  rcases h.served with hz | hexit | hr | hd | hsev
  · exact absurd hz (Nat.ne_of_gt hw)
  · exact .inr (.inl hexit)
  · exact .inl (receives_iff.mpr hr)
  · exact .inr (.inr (.inl hd))
  · exact .inr (.inr (.inr hsev))

/-- The connection meets a fault before it is announced. Its router leaves, and another publication
comes. -/
def faulty : List Turn :=
  [.arrive, .dial true, .proceed true, .fault 0, .proceed true, .proceed true, .proceed true,
    .proceed true, .report 0, .leave 0, .take, .finish 0, .arrive, .pass]

/-- The connection is given up between its announcement and the start of its router, and another one
is dialed before its end is reported. -/
def hasty : List Turn :=
  [.dial false, .proceed true, .proceed true, .proceed true, .close, .ask 0, .seek 0, .release 0,
    .proceed true, .proceed true, .fault 0, .dial false, .proceed true, .proceed true,
    .proceed true, .proceed true, .proceed true, .report 0, .leave 0, .leave 1, .finish 0,
    .finish 1, .arrive, .pass]

/-- Both leave a publisher that counts as connected without a router, and a publication that waits
for one. -/
theorem stranded_of_ignored_fault_and_missed_router :
    let s := (start "h:1" (.initial "host")).run faulty
    let s' := (start "h:1" (.initial "host")).run hasty
    (Calm s ∧ s.link = .connected ∧ s.exiting = false ∧ s.receives = false ∧ s.waiting = 1 ∧
      Before (.ignored 0) (.announced 0) s.history) ∧
    Calm s' ∧ s'.link = .connected ∧ s'.exiting = false ∧ s'.receives = false ∧ s'.waiting = 1 ∧
      Missed s'.history := by
  intro s s'
  have calm : ∀ {s : Bond}, s.guard = none → s.receives = false → Calm s := fun hg hr =>
    { dialing := fun n ph p hd => by simp [hd] at hg
      told := fun k d hd hrun => by
        simp [receives_iff.mpr ⟨k, d, hd, .inl hrun⟩] at hr }
  have hr : s.receives = false := by decide +kernel
  have hr' : s'.receives = false := by decide +kernel
  obtain ⟨-, hwhy, -⟩ := router_of_connected "h:1" (.initial "host") faulty
  obtain ⟨-, hwhy', -⟩ := router_of_connected "h:1" (.initial "host") hasty
  refine ⟨⟨calm (by decide +kernel) hr, by decide +kernel, by decide +kernel, hr, by decide +kernel,
    ?_⟩, calm (by decide +kernel) hr', by decide +kernel, by decide +kernel, hr',
    by decide +kernel, ?_⟩
  · exact ((hwhy 0 0 (by decide +kernel)).resolve_right fun h => absurd h.1 (Nat.lt_irrefl 0)).2
  · exact ((hwhy' 0 1 (by decide +kernel)).resolve_left fun h => absurd h.1 Nat.zero_ne_one).2

end Nsq.Publisher.Bond
