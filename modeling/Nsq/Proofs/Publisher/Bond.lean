import Nsq.Publisher.Bond
import Nsq.Proofs.History
import Mathlib.Tactic.SplitIfs

/-!
# Turns of a publisher

What a turn does to a publisher and its dials, case by case (`Moved`), so that what every turn keeps
is shown for the cases and not for the functions; and that turns which are not interrupted do what
`Publisher.connect`, `close`, `routerGone` and `stop` do.
-/

namespace Nsq.Publisher

namespace Bond

variable {s s' : Bond} {t : Turn} {k n : Nat} {d : Dial}

/-! ### Dials -/

/-- A dial is found. -/
def Dials (s : Bond) (k : Nat) (d : Dial) : Prop := s.dials[k]? = some d

/-- The dials after one was changed are the changed one and the others. -/
theorem dials_modify_cases {f : Dial → Dial} {j : Nat} {d' : Dial}
    (h : (s.modify k f).Dials j d') :
    ∃ d, s.Dials j d ∧ (k = j ∧ d' = f d ∨ k ≠ j ∧ d' = d) := by
  unfold Dials modify at h
  rw [List.getElem?_modify] at h
  obtain ⟨d, hd, rfl⟩ := Option.map_eq_some_iff.mp h
  refine ⟨d, hd, ?_⟩
  split_ifs with hkj
  · exact .inl ⟨hkj, rfl⟩
  · exact .inr ⟨hkj, rfl⟩

theorem dials_modify_self (h : s.Dials k d) (f : Dial → Dial) : (s.modify k f).Dials k (f d) := by
  simp [Dials, modify, show s.dials[k]? = some d from h]

theorem dials_modify_of_ne {j : Nat} (h : k ≠ j) (f : Dial → Dial) (s : Bond) :
    (s.modify k f).Dials j d ↔ s.Dials j d := by
  simp [Dials, modify, h]

theorem length_modify (k : Nat) (f : Dial → Dial) (s : Bond) :
    (s.modify k f).dials.length = s.dials.length :=
  List.length_modify ..

theorem Dials.lt (h : s.Dials k d) : k < s.dials.length := (List.getElem?_eq_some_iff.mp h).1

/-- The dials after one began are the old ones and the new one behind them. -/
theorem dials_concat_cases {ds : List Dial} {d' : Dial} (h : (ds ++ [d'])[k]? = some d) :
    ds[k]? = some d ∨ k = ds.length ∧ d = d' := by
  rcases Nat.lt_trichotomy k ds.length with hlt | rfl | hgt
  · rw [List.getElem?_append_left hlt] at h
    exact .inl h
  · rw [List.getElem?_concat_length] at h
    exact .inr ⟨rfl, (Option.some.inj h).symm⟩
  · have hlen : k < (ds ++ [d']).length := (List.getElem?_eq_some_iff.mp h).1
    rw [List.length_append, List.length_singleton] at hlen
    omega

theorem dialing_inj {n n' : Nat} {phase phase' : Phase} {p p' : Bool}
    (h : some (Holder.dialing n phase p) = some (.dialing n' phase' p')) :
    n = n' ∧ phase = phase' ∧ p = p' := by
  simpa using h

/-! ### What a turn does -/

/-- What may become of a publisher in a turn. -/
inductive Moved (s : Bond) : Bond → Prop
  | crowd {arriving waiting : Nat} (h : waiting ≤ s.waiting ∨ s.link = .connected) :
      Moved s { s with arriving, waiting }
  | begin {arriving : Nat} {publishes : Bool} (hg : s.guard = none)
      (hs : s.publisher.stopped = false) (hl : s.link = .idle) :
      Moved s
        { s with
          dials := s.dials ++ [{}]
          signal := some s.dials.length
          guard := some (.dialing s.dials.length .opening publishes)
          arriving }
  | fail {n : Nat} {publishes : Bool} (hg : s.guard = some (.dialing n .opening publishes)) :
      Moved s { s with guard := none }
  | opened {n : Nat} {publishes : Bool} (hg : s.guard = some (.dialing n .opening publishes)) :
      Moved s
        { s.setReader n .reading with guard := some (.dialing n .opened publishes) }
  | stored {n : Nat} {publishes : Bool} (hg : s.guard = some (.dialing n .opened publishes)) :
      Moved s { s with conn := some n, guard := some (.dialing n .stored publishes) }
  | announced {n : Nat} {publishes : Bool} (hg : s.guard = some (.dialing n .stored publishes)) :
      Moved s
        { s.note (.announced n) with
          publisher := { s.publisher with link := .connected }
          guard := some (.dialing n .announced publishes) }
  | watched {n : Nat} {publishes : Bool} (hg : s.guard = some (.dialing n .announced publishes)) :
      Moved s
        { s.note (.watched n) with
          watched := some n
          guard := some (.dialing n .watched publishes) }
  | launched {n waiting : Nat} {publishes : Bool}
      (hg : s.guard = some (.dialing n .watched publishes)) :
      Moved s
        { s.setRouter n .running with guard := none, waiting }
  | stop (hg : s.guard = none) :
      Moved s { s with publisher := { s.publisher with stopped := true }, guard := some .stopping }
  | exiting (hg : s.guard = some .stopping) :
      Moved s { s with exiting := true, guard := some .exiting }
  | exited (hg : s.guard = some .exiting) : Moved s { s with guard := none }
  | lose {caller : Caller} (hl : s.link = .connected) : Moved s (s.lose caller)
  | loseStopping (hl : s.link = .connected) (hg : s.guard = some .exiting) :
      Moved s { s.lose .stop with guard := some .closing }
  | reporting {k : Nat} {d : Dial} (hk : s.Dials k d) (hr : d.reader = .reading)
      (hl : s.link = .connected) :
      Moved s ((s.setReader k .reporting).lose (.reader k))
  | ended {k : Nat} {d : Dial} (hk : s.Dials k d) (hr : d.reader = .reading)
      (hc : d.closing = true) : Moved s (s.setReader k .ended)
  | ignored {k : Nat} {d : Dial} (hk : s.Dials k d) (hr : d.reader = .reading)
      (hl : s.link ≠ .connected) :
      Moved s ((s.setReader k .ended).note (.ignored k))
  | ask {j n : Nat} {c c' : Closing} (hj : s.closings[j]? = some c) (hn : s.conn = some n) :
      Moved s
        { s.modify n fun d => { d with closing := true } with closings := s.closings.set j c' }
  | askNobody {j : Nat} {c c' : Closing} (hj : s.closings[j]? = some c) :
      Moved s { s with closings := s.closings.set j c' }
  | seek {j : Nat} {c : Closing} (hj : s.closings[j]? = some c) :
      Moved s
        { s.note .sought with
          closings := s.closings.eraseIdx j
          waits := s.waits ++ [s.watched] }
  | seekReporting {j k : Nat} {c : Closing} (hj : s.closings[j]? = some c) :
      Moved s
        { (s.note .sought).modify k fun d => { d with reader := d.reader.afterReport } with
          closings := s.closings.eraseIdx j
          waits := s.waits ++ [s.watched] }
  | seekStopping {j : Nat} {c : Closing} (hj : s.closings[j]? = some c)
      (hg : s.guard = some .closing) :
      Moved s
        { s.note .sought with
          closings := s.closings.eraseIdx j
          waits := s.waits ++ [s.watched]
          guard := none }
  | release {j : Nat} {r : Option Nat} (hj : s.waits[j]? = some r) (hr : s.isGone r = true) :
      Moved s
        { s with publisher := { s.publisher with link := .idle }, waits := s.waits.eraseIdx j }
  | severed {k n : Nat} {d : Dial} (hg : s.guard = none) (hk : s.Dials k d)
      (hr : d.reader = .ended) (hl : s.link = .connected) (hn : s.signal = some n) :
      Moved s
        { (s.setReader k .over).note (.severed k n) with signal := none }
  | report {k : Nat} {d : Dial} (hg : s.guard = none) (hk : s.Dials k d)
      (hr : d.reader = .ended) (hn : s.link = .connected → s.signal = none) :
      Moved s { s.setReader k .over with signal := none }
  | leave {k : Nat} {d : Dial} (hk : s.Dials k d) (hr : d.router = .running)
      (hs : s.signal ≠ some k ∨ s.exiting = true) :
      Moved s (s.setRouter k .clearing)
  | finish {k : Nat} {d : Dial} (hk : s.Dials k d) (hr : d.router = .clearing)
      (hw : s.waiting = 0) : Moved s (s.setRouter k .gone)

theorem Moved.refl (s : Bond) : Moved s s := .crowd (.inl (Nat.le_refl _))

theorem moved_dial (publishes : Bool) (s : Bond) : Moved s (s.dial publishes) := by
  unfold dial
  dsimp only
  split
  · exact .refl s
  rename_i hg
  split
  · exact .crowd (.inl (Nat.le_refl _))
  rename_i hs
  split
  · rename_i hl
    split_ifs
    · exact .crowd (.inr hl)
    · exact .refl s
  · exact .crowd (.inl (Nat.le_refl _))
  · rename_i hl
    simp only [Bool.or_eq_true, not_or] at hg
    exact .begin (by simpa using hg.1) (by simpa using hs) hl

theorem moved_proceed (succeeds : Bool) (s : Bond) : Moved s (s.proceed succeeds) := by
  unfold proceed
  split
  · exact .refl s
  · rename_i n phase publishes hg
    cases phase with
    | opening =>
      unfold goOn
      dsimp only
      split_ifs
      · exact .opened hg
      · exact .fail hg
    | opened => exact .stored hg
    | stored => exact .announced hg
    | announced => exact .watched hg
    | watched => exact .launched hg
  · rename_i hg
    exact .exiting hg
  · rename_i hg
    split_ifs with hl
    · exact .loseStopping hl hg
    · exact .exited hg
  · exact .refl s

theorem moved_stop (s : Bond) : Moved s s.stop := by
  unfold stop
  split_ifs with h
  · exact .refl s
  · simp only [Bool.or_eq_true, not_or] at h
    exact .stop (by simpa using h.1)

theorem moved_fault (k : Nat) (s : Bond) : Moved s (s.fault k) := by
  unfold fault
  split
  · rename_i closing router hk
    dsimp only
    split_ifs with hc hl
    · exact .ended hk rfl hc
    · exact .reporting hk rfl hl
    · exact .ignored hk rfl hl
  · exact .refl s

theorem moved_ask (j : Nat) (s : Bond) : Moved s (s.ask j) := by
  unfold ask
  split
  · rename_i caller hj
    cases hn : s.conn with
    | some n => exact .ask hj hn
    | none => exact .askNobody hj
  · exact .refl s

theorem moved_seek (j : Nat) (s : Bond) : Moved s (s.seek j) := by
  unfold seek
  split
  · rename_i caller hj
    cases caller with
    | reader k => exact .seekReporting hj
    | stop =>
      unfold goBack
      dsimp only
      split_ifs with hg
      · exact .seekStopping hj hg
      · exact .seek hj
    | other => exact .seek hj
  · exact .refl s

theorem moved_release (j : Nat) (s : Bond) : Moved s (s.release j) := by
  unfold release
  split
  · rename_i r hj
    split_ifs with hr
    · exact .release hj hr
    · exact .refl s
  · exact .refl s

theorem moved_report (k : Nat) (s : Bond) : Moved s (s.report k) := by
  unfold report
  split
  · rename_i closing router hg hk
    dsimp only
    split
    · rename_i n hl hn
      exact .severed hg hk rfl hl hn
    · rename_i hno
      refine .report hg hk rfl fun hl => ?_
      cases hn : s.signal with
      | none => rfl
      | some n => exact absurd hn (hno n hl)
  · exact .refl s

theorem moved_leave (k : Nat) (s : Bond) : Moved s (s.leave k) := by
  unfold leave
  split
  · rename_i reader closing hk
    split_ifs with hs
    · exact .leave hk rfl hs
    · exact .refl s
  · exact .refl s

theorem moved_finish (k : Nat) (s : Bond) : Moved s (s.finish k) := by
  unfold finish
  split
  · rename_i reader closing hk
    split_ifs with hw
    · exact .finish hk rfl hw.2.1
    · exact .refl s
  · exact .refl s

/-- **A turn does one of these things.** -/
theorem moved (t : Turn) (s : Bond) : Moved s (s.turn t) := by
  cases t with
  | arrive => exact .crowd (.inl (Nat.le_refl _))
  | pass =>
    unfold turn
    dsimp only
    split_ifs with h
    · exact .crowd (.inr h.2)
    · exact .refl s
  | take =>
    unfold turn
    dsimp only
    split_ifs
    · exact .crowd (.inl (Nat.sub_le _ _))
    · exact .refl s
  | refuse =>
    unfold turn
    dsimp only
    split_ifs
    · exact .crowd (.inl (Nat.sub_le _ _))
    · exact .refl s
  | dial publishes => exact moved_dial publishes s
  | proceed succeeds => exact moved_proceed succeeds s
  | stop => exact moved_stop s
  | close =>
    unfold turn
    dsimp only
    split_ifs with hl
    · exact .lose hl
    · exact .refl s
  | fault k => exact moved_fault k s
  | ask j => exact moved_ask j s
  | seek j => exact moved_seek j s
  | release j => exact moved_release j s
  | report k => exact moved_report k s
  | leave k => exact moved_leave k s
  | finish k => exact moved_finish k s

/-! ### Turns that are not interrupted -/

/-- A dial is `Publisher.connect`. -/
theorem publisher_dial (dial : String → Except Failure Unit) (hg : s.guard = none) :
    (s.run (.dial false :: .replicate 5 (.proceed (dial s.publisher.address).isOk))).publisher =
      (s.publisher.connect dial).2 := by
  simp only [run, List.foldl_cons, List.replicate, List.foldl_nil, turn]
  cases hst : s.publisher.stopped with
  | true =>
    have hd : s.dial false = s := by
      cases s
      simp_all [Bond.dial]
    rw [hd]
    by_cases hl : s.publisher.link = .connected <;>
      simp [proceed, hg, Publisher.connect, hst, hl]
  | false =>
    cases hl : s.publisher.link with
    | connected => simp [Bond.dial, link, proceed, hg, hst, hl, Publisher.connect]
    | lost => simp [Bond.dial, link, proceed, hg, hst, hl, Publisher.connect]
    | idle =>
      cases hd : dial s.publisher.address <;>
        simp [Bond.dial, link, begin, proceed, goOn, setReader, setRouter, modify, note, hg, hst,
          hl, hd, Publisher.connect, Except.isOk, Except.toBool]

/-- To give the connection up is `Publisher.close`. -/
theorem publisher_close (s : Bond) : (s.turn .close).publisher = s.publisher.close := by
  unfold turn link Publisher.close
  dsimp only
  split_ifs with hl
  · simp [lose, Publisher.close, hl]
  · rfl

/-- That a router is gone is `Publisher.routerGone`. -/
theorem publisher_release {j : Nat} {r : Option Nat} (hl : s.link = .lost)
    (hj : s.waits[j]? = some r) (hr : s.isGone r = true) :
    (s.turn (.release j)).publisher = s.publisher.routerGone := by
  have hp : s.publisher.link = .lost := hl
  simp [turn, release, hj, hr, Publisher.routerGone, hp]

/-- A stop is `Publisher.stop`. -/
theorem publisher_stop (hg : s.guard = none) :
    (s.run [.stop, .proceed true, .proceed true]).publisher = s.publisher.stop := by
  cases hst : s.publisher.stopped with
  | true => simp [run, turn, stop, proceed, Publisher.stop, hg, hst]
  | false =>
    by_cases hl : s.publisher.link = .connected <;>
      simp [run, turn, stop, proceed, lose, link, Publisher.stop, Publisher.close, hg, hst, hl]

/-- What holds at the start and is kept by every turn holds whatever turns are taken. -/
theorem run_invariant {I : Bond → Prop} (ts : List Turn)
    (turn : ∀ s s', I s → Moved s s' → I s') (init : I s) : I (s.run ts) :=
  List.foldlRecOn (motive := I) ts _ init fun s hs t _ => turn s _ hs (moved t s)

end Bond

end Nsq.Publisher
