import Nsq.Proofs.Consumer.Underway

/-!
# When a consumer has stopped

A consumer that was asked to stop has stopped when no link is left and every handler has left. Who
ends it is open: the stop itself, the last link or the last handler, whichever comes last. What they
leave to each other is kept by every turn (`Staffed`, `Attended`, `Noticed`), whatever operations
are under way.

Two things are in the way of the simple rule. A handler that panics when it is told that a message
is given up is lost: nobody counts it out, and the consumer never stops (`Consumer.lost`). And a
link may be late (`Underway.Late`): somebody has found the table without links and has handlers
served no more, while the link of an attempt to connect enters the table, which ends all but the
link. `Underway.stop_completes` says when a consumer has stopped, and that otherwise the rule is
right.
-/

namespace Nsq

namespace Consumer

variable {c c' : Consumer}

/-- The handlers that are at work or wait for it. -/
def alive (c : Consumer) : Nat := c.freeHandlers + c.busy.length

/-- What always holds of handlers and the stop. Nothing is offered without links, there are handlers
as long as a link brings messages, and a consumer has stopped when its handlers have left and not
before. -/
structure Staffed (c : Consumer) : Prop where
  fits : c.engaged ≤ c.handlers
  bare : c.links = [] → c.offers = []
  tended : c.links ≠ [] → c.serving = true → 0 < c.handlers
  asked : c.serving = false → c.stopping = true
  gone : c.serving = false → c.handlers = 0 → c.exited = true
  left : c.exited = true → c.serving = false ∧ c.engaged = 0 ∧ c.offers = []

theorem staffed_ofSubscription (s : Subscription) : Staffed (ofSubscription s) where
  fits := Nat.le_refl _
  bare _ := rfl
  tended h := absurd rfl h
  asked h := absurd h (by simp [ofSubscription])
  gone h := absurd h (by simp [ofSubscription])
  left h := absurd h (by simp [ofSubscription])

namespace Staffed

theorem handlers_eq (h : Staffed c) : c.handlers = c.alive + c.lost := by
  have hf := h.fits
  simp only [engaged, alive, freeHandlers] at hf ⊢
  omega

theorem manned (h : Staffed c) (hm : Manned c c') : Staffed c' := by
  have heng : c'.engaged ≤ c.engaged := by
    have hb := hm.busy
    simp only [engaged, hm.lost]
    omega
  exact
    { fits := Nat.le_trans heng (Nat.le_trans h.fits hm.handlers)
      bare := fun hnil => by
        have hl := hm.links.nil_iff.mp hnil
        exact (hm.offers.resolve_right fun ho => ho.1 hl).trans (h.bare hl)
      tended := fun hl hs =>
        Nat.lt_of_lt_of_le (h.tended (mt hm.links.nil_iff.mpr hl) (hm.serving ▸ hs)) hm.handlers
      asked := fun hs => hm.stopping ▸ h.asked (hm.serving ▸ hs)
      gone := fun hs hz =>
        hm.exited ▸ h.gone (hm.serving ▸ hs) (Nat.le_zero.mp (hz ▸ hm.handlers))
      left := fun he => by
        obtain ⟨hs, hz, ho⟩ := h.left (hm.exited ▸ he)
        refine ⟨hm.serving.trans hs, Nat.le_zero.mp (hz ▸ heng), ?_⟩
        exact (hm.offers.resolve_right fun hoff => by simp [hs] at hoff).trans ho }

/-- A free handler may take an offer. -/
theorem taken {o : Offer} {rest : List Offer} (h : Staffed c) (ho : c.offers = o :: rest)
    (hfree : 0 < c.freeHandlers) (ht : Taken { c with offers := rest } c') : Staffed c' := by
  have hsome : c.offers ≠ [] := by simp [ho]
  have hh : c'.handlers = c.handlers := ht.handlers
  have hpos : 0 < c.handlers := by
    simp only [freeHandlers] at hfree
    omega
  exact
    { fits := by
        have he : c'.engaged ≤ c.engaged + 1 := ht.engaged
        rw [hh]
        simp only [engaged, freeHandlers] at he hfree ⊢
        omega
      bare := fun hnil => absurd (h.bare (ht.links.nil_iff.mp hnil)) hsome
      tended := fun _ _ => hh ▸ hpos
      asked := fun hs => ht.stopping ▸ h.asked (ht.serving ▸ hs)
      gone := fun _ hz => absurd (hh ▸ hz) (Nat.ne_of_gt hpos)
      left := fun he => absurd (h.left (ht.exited ▸ he)).2.2 hsome }

theorem stopServing (h : Staffed c) (hs : c.stopping = true) : Staffed c.stopServing := by
  unfold Consumer.stopServing
  dsimp only
  split_ifs with hserve hz
  · -- without handlers there are no links either, and nothing is offered
    have heng : c.engaged = 0 := Nat.le_zero.mp (hz ▸ h.fits)
    have hoffers : c.offers = [] := by
      by_contra hsome
      exact absurd (h.tended (mt h.bare hsome) hserve) (by simp [hz])
    exact { h with
      tended := fun _ hv => absurd hv Bool.false_ne_true
      asked := fun _ => hs
      gone := fun _ _ => rfl
      left := fun _ => ⟨rfl, heng, hoffers⟩ }
  · exact { h with
      tended := fun _ hv => absurd hv Bool.false_ne_true
      asked := fun _ => hs
      gone := fun _ hz' => absurd hz' hz
      left := fun he => absurd (h.left he).1 (by simp [hserve]) }
  · exact h

theorem leave (h : Staffed c) : Staffed c.leave := by
  unfold Consumer.leave
  dsimp only
  by_cases hl : c.leaves = true
  · rw [if_pos hl]
    simp only [leaves, Bool.and_eq_true, Bool.not_eq_true', List.isEmpty_iff, decide_eq_true_eq]
      at hl
    obtain ⟨⟨hs, ho⟩, hfree⟩ := hl
    have hfits : c.engaged ≤ c.handlers - 1 := by
      simp only [freeHandlers, engaged] at hfree ⊢
      omega
    split_ifs with hz
    · exact { h with
        fits := hfits
        tended := fun _ hv => absurd (hs.symm.trans hv) Bool.false_ne_true
        gone := fun _ _ => rfl
        left := fun _ => ⟨hs, Nat.le_zero.mp (hz ▸ hfits), ho⟩ }
    · exact { h with
        fits := hfits
        tended := fun _ hv => absurd (hs.symm.trans hv) Bool.false_ne_true
        gone := fun _ hz' => absurd hz' hz }
  · rwa [if_neg hl]

/-- A new link is handled by the handlers that are there. -/
theorem openLink (h : Staffed c) (hh : c.serving = true → 0 < c.handlers) (l : Link) :
    Staffed (c.openLink l).2 :=
  { h with
    bare := fun hnil => absurd hnil (by simp [Consumer.openLink])
    tended := fun _ => hh }

end Staffed

/-! ### What turns cannot undo -/

/-- What becomes of handlers that are lost and of the stop. -/
structure Onward (c c' : Consumer) : Prop where
  lost : c.lost ≤ c'.lost
  panicked : c'.lost = c.lost ∨ c.givingUp.verdict.isPanic = true
  exited : c.exited = true → c'.exited = true

theorem Onward.of_eq (hl : c'.lost = c.lost) (he : c.exited = true → c'.exited = true) :
    Onward c c' :=
  ⟨Nat.le_of_eq hl.symm, .inl hl, he⟩

theorem Manned.onward (h : Manned c c') : Onward c c' := .of_eq h.lost fun he => h.exited.trans he

theorem Taken.onward (h : Taken c c') : Onward c c' := by
  refine ⟨?_, h.lost.imp_right And.right, fun he => h.exited.trans he⟩
  rcases h.lost with hl | ⟨hl, -⟩ <;> omega

theorem onward_stopServing (c : Consumer) : Onward c c.stopServing := by
  unfold stopServing
  dsimp only
  split_ifs
  · exact .of_eq rfl fun _ => rfl
  · exact .of_eq rfl id
  · exact .of_eq rfl id

theorem onward_leave (c : Consumer) : Onward c c.leave := by
  unfold leave
  dsimp only
  split_ifs
  · exact .of_eq rfl fun _ => rfl
  · exact .of_eq rfl id
  · exact .of_eq rfl id

theorem serving_stopServing (c : Consumer) : c.stopServing.serving = false :=
  congrArg serving (stopServing_eq c)

theorem stopping_stopServing (c : Consumer) : c.stopServing.stopping = c.stopping := by
  rw [stopServing_eq]

theorem givingUp_stopServing (c : Consumer) : c.stopServing.givingUp = c.givingUp := by
  rw [stopServing_eq]

theorem serving_leave (c : Consumer) : c.leave.serving = c.serving := by rw [leave_eq]

theorem stopping_leave (c : Consumer) : c.leave.stopping = c.stopping := by rw [leave_eq]

theorem givingUp_leave (c : Consumer) : c.leave.givingUp = c.givingUp := by rw [leave_eq]

theorem leave_of_serving (h : c.serving = true) : c.leave = c := by
  unfold leave leaves
  simp [h]

end Consumer

namespace Underway

open Consumer

variable {s : Underway} {t : Turn}

/-- A link was in the table when handlers stopped being served, or has entered it since. -/
def Late (history : List Milestone) : Prop :=
  (∃ n, 0 < n ∧ .shut n ∈ history) ∨ ∃ i, Before (.shut 0) (.entered i) history

theorem Late.append {h : List Milestone} (hl : Late h) (ms : List Milestone) : Late (h ++ ms) := by
  obtain ⟨n, hn, hmem⟩ | ⟨i, hi⟩ := hl
  · exact .inl ⟨n, hn, List.mem_append_left _ hmem⟩
  · exact .inr ⟨i, hi.append ms⟩

/-- A link that enters the table when handlers are not served any more is late. -/
theorem Late.of_entered {h : List Milestone} {n : Nat} (hn : .shut n ∈ h) (i : Nat) :
    Late (h ++ [.entered i]) := by
  cases n with
  | zero => exact .inr ⟨i, before_concat.mpr (.inr ⟨rfl, hn⟩)⟩
  | succ n => exact .inl ⟨n + 1, n.succ_pos, List.mem_append_left _ hn⟩

/-- What holds whatever is under way. -/
structure Attended (s : Underway) : Prop where
  staffed : s.consumer.Staffed
  attempted : s.attempts ≠ [] → s.consumer.serving = true → 0 < s.consumer.handlers
  shut : s.consumer.serving = false → ∃ n, .shut n ∈ s.history
  late : s.consumer.serving = false → s.consumer.live = [] ∨ Late s.history
  looking : s.looking = true → s.consumer.stopping = true

/-- Once a stop was asked for and no link is there, handlers are not served any more, unless the
stop is yet to look, or a link that was the last one to leave is yet to conclude its report. -/
def Noticed (s : Underway) : Prop :=
  s.consumer.stopping = true → s.consumer.live = [] →
    s.consumer.serving = false ∨ s.looking = true ∨ ∃ r ∈ s.reports, r.left = 0

theorem attended_start (sub : Subscription) : Attended (start sub) where
  staffed := staffed_ofSubscription sub
  attempted h := absurd rfl h
  shut h := absurd h (by simp [start, ofSubscription])
  late h := absurd h (by simp [start, ofSubscription])
  looking h := absurd h Bool.false_ne_true

theorem noticed_start (sub : Subscription) : Noticed (start sub) :=
  fun h => absurd h (by simp [start, ofSubscription])

theorem Attended.stopServing (h : Attended s) (hs : s.consumer.stopping = true) :
    Attended s.stopServing where
  staffed := h.staffed.stopServing hs
  attempted _ hv :=
    absurd ((serving_stopServing s.consumer).symm.trans hv) Bool.false_ne_true
  shut _ := by
    unfold Underway.stopServing
    dsimp only
    split_ifs with hserve
    · exact ⟨_, List.mem_append_right _ (List.mem_singleton_self _)⟩
    · exact h.shut (by simpa using hserve)
  late _ := by
    unfold Underway.stopServing
    dsimp only
    rw [(apart_stopServing s.consumer).live]
    split_ifs with hserve
    · by_cases hnil : s.consumer.live = []
      · exact .inl hnil
      · right
        left
        exact ⟨_, List.length_pos_iff.mpr hnil,
          List.mem_append_right _ (List.mem_singleton_self _)⟩
    · exact h.late (by simpa using hserve)
  looking hl := (stopping_stopServing s.consumer).trans (h.looking hl)

/-- Handlers and the table may change as long as nothing is shut. -/
theorem Attended.put (h : Attended s) {c : Consumer} (hc : c.Staffed)
    (hs : c.serving = s.consumer.serving) (hst : s.consumer.stopping = true → c.stopping = true)
    (hl : c.live = s.consumer.live) (hh : c.serving = true → s.consumer.handlers ≤ c.handlers) :
    Attended (s.put c) where
  staffed := hc
  attempted ha hv := Nat.lt_of_lt_of_le (h.attempted ha (hs ▸ hv)) (hh hv)
  shut hv := h.shut (hs ▸ hv)
  late hv := hl ▸ h.late (hs ▸ hv)
  looking hk := hst (h.looking hk)

theorem Attended.manned (h : Attended s) {c : Consumer} (hm : s.consumer.Manned c) :
    Attended (s.put c) :=
  h.put (h.staffed.manned hm) hm.serving hm.stopping.trans hm.live fun _ => hm.handlers

/-- Attempts may come to an end, and others take their place. -/
theorem Attended.attempts (h : Attended s) (ha : s.attempts ≠ []) (as : List Attempt) :
    Attended { s with attempts := as } :=
  { h with attempted := fun _ => h.attempted ha }

theorem attempts_ne_nil {k : Nat} {a : Attempt} (hk : s.attempts[k]? = some a) :
    s.attempts ≠ [] := by
  intro hnil
  simp [hnil] at hk

/-- The link of an attempt enters the table; it is late if handlers are not served any more. -/
theorem Attended.enter (h : Attended s) {k i : Nat} {addr : String} {c : Consumer}
    (hk : s.attempts[k]? = some ⟨addr, .subscribed i⟩)
    (hm : ((s.consumer.unpend addr).enter addr i).Manned c) :
    Attended
      { s.put c with
        attempts := s.attempts.eraseIdx k
        history := s.history ++ [.entered i] } := by
  have hstaff : ((s.consumer.unpend addr).enter addr i).Staffed := { h.staffed with }
  exact
    { staffed := hstaff.manned hm
      attempted := fun _ hv =>
        Nat.lt_of_lt_of_le (h.attempted (attempts_ne_nil hk) (hm.serving ▸ hv)) hm.handlers
      shut := fun hv => (h.shut (hm.serving ▸ hv)).imp fun n => List.mem_append_left _
      late := fun hv => by
        obtain ⟨n, hn⟩ := h.shut (hm.serving ▸ hv)
        exact .inr (.of_entered hn i)
      looking := fun hl => hm.stopping.trans (h.looking hl) }

/-- The end of a link is reported. -/
theorem Attended.finish (h : Attended s) {i : Nat} {addr : String} {c c' : Consumer}
    (hm : s.consumer.Manned c) (hr : (c.remove addr i).Manned c') :
    Attended
      { s.put c' with
        reports := s.reports ++ [⟨addr, c'.live.length⟩]
        history := s.history ++ [.ended i] } := by
  have hstaff : (c.remove addr i).Staffed := { h.staffed.manned hm with }
  have hserving : c'.serving = s.consumer.serving := hr.serving.trans hm.serving
  exact
    { staffed := hstaff.manned hr
      attempted := fun ha hv =>
        Nat.lt_of_lt_of_le (h.attempted ha (hserving ▸ hv)) (Nat.le_trans hm.handlers hr.handlers)
      shut := fun hv => (h.shut (hserving ▸ hv)).imp fun n => List.mem_append_left _
      late := fun hv => by
        refine (h.late (hserving ▸ hv)).imp (fun hnil => ?_) (·.append _)
        show c'.live = []
        rw [hr.live, remove, hm.live, hnil]
        rfl
      looking := fun hl => (hr.stopping.trans hm.stopping).trans (h.looking hl) }

theorem Attended.turned {s' : Underway} (h : Attended s) (ht : Turned t s s') : Attended s' := by
  cases ht with
  | manned hm => exact h.manned hm
  | instruct _ => exact h.put { h.staffed with } rfl id rfl fun _ => Nat.le_refl _
  | take ho hf htake =>
    exact h.put (h.staffed.taken ho hf htake) htake.serving htake.stopping.trans htake.live fun _ =>
      Nat.le_of_eq htake.handlers.symm
  | leave =>
    refine h.put h.staffed.leave (serving_leave _) (stopping_leave _).trans (apart_leave _).live
      fun hv => ?_
    rw [leave_of_serving ((serving_leave _).symm.trans hv)]
  | @takeDown addr hd =>
    have hp : Attended (s.put (s.consumer.takenDown addr)) :=
      h.put { h.staffed with } rfl id rfl fun _ => Nat.le_refl _
    exact { hp with attempted := fun _ _ => Nat.pos_of_ne_zero hd.handlers }
  | @fail k a c hk hm =>
    have hp : Attended (s.put (c.unpend a.addr)) :=
      h.put { h.staffed.manned hm with } hm.serving hm.stopping.trans hm.live fun _ => hm.handlers
    exact hp.attempts (attempts_ne_nil hk) _
  | @dial k addr closing l c hk ha hm =>
    have hp : Attended (s.put (s.consumer.openLink l).2) :=
      h.put (h.staffed.openLink (h.attempted (attempts_ne_nil hk)) l) rfl id rfl fun _ =>
        Nat.le_refl _
    exact (hp.manned hm).attempts (attempts_ne_nil hk) _
  | goOn hk _ _ hm => exact (h.manned hm).attempts (attempts_ne_nil hk) _
  | enter hk hm => exact h.enter hk hm
  | finish hi ho hm hc hc' hr => exact h.finish hm hr
  | conclude hk hr hm => exact { h.manned hm with }
  | @shut k r hk hs hr =>
    have hp : Attended { s with reports := s.reports.eraseIdx k } := { h with }
    exact hp.stopServing hs
  | stop hs =>
    have hstaff : Staffed { s.consumer with stopping := true } :=
      { h.staffed with asked := fun _ => rfl }
    exact { h.put hstaff rfl (fun _ => rfl) rfl fun _ => Nat.le_refl _ with
      looking := fun _ => rfl }
  | look hl hlive hm =>
    have hp := h.manned hm
    exact { hp with
      shut := fun hv => (hp.shut hv).imp fun n => List.mem_append_left _
      late := fun hv => (hp.late hv).imp_right (·.append _)
      looking := fun hno => absurd hno Bool.false_ne_true }
  | lookInVain hl hlive =>
    have hp : Attended { s with looking := false, history := s.history ++ [.looked 0] } :=
      { h with
        shut := fun hv => (h.shut hv).imp fun n => List.mem_append_left _
        late := fun hv => (h.late hv).imp_right (·.append _)
        looking := fun hno => absurd hno Bool.false_ne_true }
    exact hp.stopServing (h.looking hl)

theorem Noticed.of_eq {s' : Underway} (h : Noticed s)
    (hs : s'.consumer.serving = s.consumer.serving)
    (hst : s'.consumer.stopping = s.consumer.stopping) (hl : s'.consumer.live = s.consumer.live)
    (hk : s'.looking = s.looking) (hr : s'.reports = s.reports) : Noticed s' := by
  unfold Noticed
  rw [hs, hst, hl, hk, hr]
  exact h

theorem Noticed.turned {s' : Underway} (h : Noticed s) (ht : Turned t s s') : Noticed s' := by
  cases ht with
  | manned hm => exact h.of_eq hm.serving hm.stopping hm.live rfl rfl
  | instruct _ => exact h.of_eq rfl rfl rfl rfl rfl
  | take ho hf htake => exact h.of_eq htake.serving htake.stopping htake.live rfl rfl
  | leave => exact h.of_eq (serving_leave _) (stopping_leave _) (apart_leave _).live rfl rfl
  | takeDown hd => exact h.of_eq rfl rfl rfl rfl rfl
  | fail hk hm => exact h.of_eq hm.serving hm.stopping hm.live rfl rfl
  | dial hk ha hm => exact h.of_eq hm.serving hm.stopping hm.live rfl rfl
  | goOn hk ha hl hm => exact h.of_eq hm.serving hm.stopping hm.live rfl rfl
  | enter hk hm =>
    intro _ hnil
    exact absurd (hm.live.symm.trans hnil) (by simp [Consumer.enter])
  | finish hi ho hm hc hc' hr =>
    intro _ hnil
    exact .inr (.inr ⟨_, List.mem_append_right _ (List.mem_singleton_self _),
      List.length_eq_zero_iff.mpr hnil⟩)
  | @conclude k r c hk hr hm =>
    intro hs hnil
    have hstop : s.consumer.stopping = true := hm.stopping.symm.trans hs
    rcases h hstop (hm.live.symm.trans hnil) with hv | hl | ⟨r', hmem, hz⟩
    · exact .inl (hm.serving.trans hv)
    · exact .inr (.inl hl)
    · -- the report of the last link is another one, and is still to be concluded
      obtain ⟨j, hj⟩ := List.mem_iff_getElem?.mp hmem
      have hne : j ≠ k := by
        rintro rfl
        obtain rfl := Option.some.inj (hk.symm.trans hj)
        exact hr hstop hz
      exact .inr (.inr ⟨r', List.mem_eraseIdx_iff_getElem?.mpr ⟨j, hne, hj⟩, hz⟩)
  | shut hk hs hr => exact fun _ _ => .inl (serving_stopServing _)
  | stop hs => exact fun _ _ => .inr (.inl rfl)
  | look hl hlive hm => exact fun _ hnil => absurd (hm.live.symm.trans hnil) hlive
  | lookInVain hl hlive => exact fun _ _ => .inl (serving_stopServing _)

/-! ### Runs -/

theorem onward_turned {s' : Underway} (ht : Turned t s s') : Onward s.consumer s'.consumer := by
  cases ht with
  | manned hm => exact hm.onward
  | instruct _ => exact .of_eq rfl id
  | take ho hf htake => exact { htake.onward with }
  | leave => exact onward_leave _
  | takeDown hd => exact .of_eq rfl id
  | fail hk hm => exact { hm.onward with }
  | dial hk ha hm => exact { hm.onward with }
  | goOn hk ha hl hm => exact hm.onward
  | enter hk hm => exact { hm.onward with }
  | finish hi ho hm hc hc' hr =>
    exact .of_eq (hr.lost.trans hm.lost) fun he => hr.exited.trans (hm.exited.trans he)
  | conclude hk hr hm => exact hm.onward
  | shut hk hs hr => exact onward_stopServing _
  | stop hs => exact .of_eq rfl id
  | look hl hlive hm => exact hm.onward
  | lookInVain hl hlive => exact onward_stopServing _

theorem givingUp_turned {s' : Underway} (ht : Turned t s s') :
    s'.consumer.givingUp = s.consumer.givingUp ∨ t = .instruct s'.consumer.givingUp := by
  cases ht with
  | manned hm => exact .inl hm.givingUp
  | instruct h => exact .inr h
  | take ho hf htake => exact .inl htake.givingUp
  | leave => exact .inl (givingUp_leave _)
  | takeDown hd => exact .inl rfl
  | fail hk hm => exact .inl hm.givingUp
  | dial hk ha hm => exact .inl hm.givingUp
  | goOn hk ha hl hm => exact .inl hm.givingUp
  | enter hk hm => exact .inl hm.givingUp
  | finish hi ho hm hc hc' hr => exact .inl (hr.givingUp.trans hm.givingUp)
  | conclude hk hr hm => exact .inl hm.givingUp
  | shut hk hs hr => exact .inl (givingUp_stopServing _)
  | stop hs => exact .inl rfl
  | look hl hlive hm => exact .inl hm.givingUp
  | lookInVain hl hlive => exact .inl (givingUp_stopServing _)

/-- No handler is lost that does not panic when it gives a message up. -/
theorem lost_run {ts : List Turn} {s : Underway}
    (h : ∀ hd, .instruct hd ∈ ts → hd.verdict.isPanic = false)
    (hs : s.consumer.givingUp.verdict.isPanic = false) :
    (s.run ts).consumer.lost = s.consumer.lost := by
  induction ts generalizing s with
  | nil => rfl
  | cons t ts ih =>
    have ht := turned t s
    rw [run_cons, ih (fun hd hmem => h hd (List.mem_cons_of_mem t hmem))]
    · exact (onward_turned ht).panicked.resolve_right (by simp [hs])
    · rcases givingUp_turned ht with hg | hg
      · rw [hg, hs]
      · exact h _ (hg ▸ List.mem_cons_self)

theorem onward_run (ts : List Turn) (s : Underway) :
    s.consumer.lost ≤ (s.run ts).consumer.lost ∧
      (s.consumer.exited = true → (s.run ts).consumer.exited = true) :=
  run_invariant (I := fun d => s.consumer.lost ≤ d.consumer.lost ∧
      (s.consumer.exited = true → d.consumer.exited = true)) ts
    (fun _ _ _ h ht => ⟨Nat.le_trans h.1 (onward_turned ht).lost, (onward_turned ht).exited ∘ h.2⟩)
    ⟨Nat.le_refl _, id⟩

theorem attended_run (sub : Subscription) (ts : List Turn) : Attended ((start sub).run ts) :=
  run_invariant ts (fun _ _ _ h ht => h.turned ht) (attended_start sub)

theorem noticed_run (sub : Subscription) (ts : List Turn) : Noticed ((start sub).run ts) :=
  run_invariant ts (fun _ _ _ h ht => h.turned ht) (noticed_start sub)

/-- At rest, a consumer has stopped when handlers are served no more and all of them have left. -/
theorem Attended.exited_iff (h : Attended s) (hr : s.AtRest) :
    s.consumer.exited = true ↔
      s.consumer.serving = false ∧ s.consumer.alive = 0 ∧ s.consumer.lost = 0 := by
  have hh := h.staffed.handlers_eq
  constructor
  · intro he
    obtain ⟨hs, hz, ho⟩ := h.staffed.left he
    have hleaves := hr.leaves
    simp only [leaves, hs, ho, Bool.not_false, Bool.true_and, List.isEmpty_nil,
      decide_eq_false_iff_not] at hleaves
    simp only [engaged, alive] at hz ⊢
    exact ⟨hs, by omega, by omega⟩
  · rintro ⟨hs, ha, hl⟩
    exact h.staffed.gone hs (by omega)

/-- **When a stop completes.** Let turns be taken in any order, and let nothing be under way after
them. Then

* the handlers counted are those that are alive and those that are lost, and none is lost unless one
  panics when it is told that a message is given up;
* the consumer has stopped exactly when handlers are served no more and none is alive or lost; this
  happens once, and never after a handler was lost;
* handlers are served no more if a stop was asked for and no link is left, and only then, but for
  links that were late.

So if no handler is lost and no link was late, all handlers counted are alive, and the consumer has
stopped exactly when a stop was asked for, no link is left and no handler is alive. -/
theorem stop_completes (sub : Subscription) (ts : List Turn)
    (h : ((start sub).run ts).AtRest) :
    let s := (start sub).run ts
    let c := s.consumer
    (c.handlers = c.alive + c.lost ∧
      ((∀ hd, .instruct hd ∈ ts → hd.verdict.isPanic = false) → c.lost = 0)) ∧
    ((c.exited = true ↔ c.serving = false ∧ c.alive = 0 ∧ c.lost = 0) ∧
      ∀ ts', let c' := (s.run ts').consumer
        (c.exited = true → c'.exited = true) ∧ (0 < c.lost → c'.exited = false)) ∧
    ((c.stopping = true ∧ c.live = [] → c.serving = false) ∧
      (c.serving = false → c.stopping = true ∧ (c.live = [] ∨ Late s.history))) ∧
    (c.lost = 0 → ¬Late s.history → c.handlers = c.alive ∧
      (c.exited = true ↔ c.stopping = true ∧ c.live = [] ∧ c.alive = 0)) := by
  intro s c
  have ha : Attended s := attended_run sub ts
  have hcount : c.handlers = c.alive + c.lost := ha.staffed.handlers_eq
  have hexit : c.exited = true ↔ c.serving = false ∧ c.alive = 0 ∧ c.lost = 0 := ha.exited_iff h
  have hshut : c.stopping = true ∧ c.live = [] → c.serving = false := by
    rintro ⟨hs, hnil⟩
    rcases noticed_run sub ts hs hnil with hv | hk | ⟨r, hmem, -⟩
    · exact hv
    · exact absurd (h.looking.symm.trans hk) Bool.false_ne_true
    · exact absurd (h.reports ▸ hmem) List.not_mem_nil
  have hasked : c.serving = false → c.stopping = true ∧ (c.live = [] ∨ Late s.history) :=
    fun hs => ⟨ha.staffed.asked hs, ha.late hs⟩
  refine ⟨⟨hcount, fun hp => lost_run hp rfl⟩, ⟨hexit, fun ts' => ?_⟩, ⟨hshut, hasked⟩, ?_⟩
  · have ho := onward_run ts' s
    refine ⟨ho.2, fun hl => ?_⟩
    by_contra he
    have hstaff : (s.run ts').consumer.Staffed :=
      (run_invariant ts' (fun _ _ _ h ht => h.turned ht) ha).staffed
    have hz := (hstaff.left (by simpa using he)).2.1
    have hle : c.lost ≤ (s.run ts').consumer.lost := ho.1
    simp only [engaged] at hz
    omega
  · intro hl hlate
    refine ⟨by omega, hexit.trans ⟨?_, ?_⟩⟩
    · rintro ⟨hs, hz, -⟩
      exact ⟨(hasked hs).1, (hasked hs).2.resolve_right hlate, hz⟩
    · rintro ⟨hs, hnil, hz⟩
      exact ⟨hshut ⟨hs, hnil⟩, hz, hl⟩

/-- The only handler panics when it is told that a message is given up, though it has answered it.
The stop is asked for, and the only link ends. -/
def panicking : List Turn :=
  [.act silence (.addHandlers 1),
    .instruct { calls := [.answer .finish], verdict := .panicked none },
    .takeDown "h:1", .dial 0 (.ok { terms := none }), .subscribe 0, .enter 0,
    .act silence (.feed 0 (Frame.encode
      ⟨.message, Message.encode { id := Octets.word 16 1, body := [], attempts := 6 }⟩)),
    .read silence.chance 0, .take silence.chance, .stop, .look, .act silence (.endOfInput 0),
    .read silence.chance 0, .settle 0, .conclude 0]

/-- Where a handler was lost the consumer never stops, though nothing is left to wait for. Where a
link was late it has stopped, though the link is there. -/
theorem stop_of_lost_handler_and_late_link :
    let s := (start sample.subscription).run panicking
    let s' := (start sample.subscription).run overtaken
    (s.AtRest ∧ s.consumer.stopping = true ∧ s.consumer.live = [] ∧ s.consumer.alive = 0 ∧
      s.consumer.handlers = 1 ∧ ∀ ts', (s.run ts').consumer.exited = false) ∧
    s'.AtRest ∧ s'.consumer.exited = true ∧ s'.consumer.live = [("h:1", 0)] ∧ Late s'.history := by
  intro s s'
  have hrest : s.AtRest :=
    ⟨by decide +kernel, by decide +kernel, by decide +kernel, by decide +kernel⟩
  have hrest' : s'.AtRest :=
    ⟨by decide +kernel, by decide +kernel, by decide +kernel, by decide +kernel⟩
  have hlive : s'.consumer.live = [("h:1", 0)] := by decide +kernel
  have hserving : s'.consumer.serving = false := by decide +kernel
  obtain ⟨-, ⟨-, hnever⟩, -, -⟩ := stop_completes sample.subscription panicking hrest
  obtain ⟨-, ⟨hexit, -⟩, ⟨-, hshut⟩, -⟩ := stop_completes sample.subscription overtaken hrest'
  refine ⟨⟨hrest, by decide +kernel, by decide +kernel, by decide +kernel, by decide +kernel,
    fun ts' => (hnever ts').2 (by decide +kernel)⟩, hrest', ?_, hlive, ?_⟩
  · exact hexit.mpr ⟨hserving, by decide +kernel, by decide +kernel⟩
  · exact (hshut hserving).2.resolve_left fun hnil =>
      absurd (hlive.symm.trans hnil) (List.cons_ne_nil _ _)

end Underway

end Nsq
