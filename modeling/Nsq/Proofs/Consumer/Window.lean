import Nsq.Proofs.Consumer.Lines
import Nsq.Proofs.Consumer.Probe
import Nsq.Proofs.Consumer.Retries

/-!
# Pauses

A pause is meant to be quiet: until its end the level stays as it is, and no daemon is told of any
credit. The consumer remembers a pause by its nanoseconds, and every way to deal credit out looks
at them first, but for one: a grant that is tried again is not held back. So a pause is `Quiet`, or
a grant that was put off is tried again and its link takes it (`quiet_or_retried`). This happens
only where one pause follows on another, since the probe between them may be put off. A pause that
a signal has begun is quiet without exception.

A pause of no length is none, since zero nanoseconds stand for no pause: although something will
wake the consumer at its end, signals count all the while.
-/

namespace Nsq.Consumer

variable {c c' c'' : Consumer}

/-- The pace stays as it is, and no daemon is told of any credit. -/
structure Quiet (c c' : Consumer) : Prop extends SameBeat c c' where
  told : Adds (fun _ n => n ≤ 0) c c'

theorem Quiet.refl (c : Consumer) : Quiet c c := ⟨.refl c, .refl c⟩

theorem Quiet.trans (h : Quiet c c') (h' : Quiet c' c'') : Quiet c c'' :=
  ⟨h.toSameBeat.trans h'.toSameBeat, h.told.trans h'.told⟩

theorem Still.quiet (h : Still c c') : Quiet c c' := ⟨h.toSameBeat, h.adds⟩

/-! ### What a pause holds back -/

theorem quiet_stir (h : 0 < c.pause) (hs : Stir c c') : Quiet c c' := by
  cases hs with
  | refill i =>
    rw [refill_of_pause h]
    exact .refl c
  | signal chance s =>
    rw [signal_of_pause h]
    exact .refl c
  | still hs => exact hs.quiet

theorem quiet_stirs (h : 0 < c.pause) (hs : Stirs c c') : Quiet c c' := by
  induction hs with
  | refl => exact .refl c
  | tail _ hs ih => exact ih.trans (quiet_stir (ih.pause ▸ h) hs)

/-! ### Grants that are tried again -/

/-- A link takes a grant if its daemon hears of some credit. -/
theorem takes_iff {i : Nat} {count : Int} : c.Takes i count ↔
    ∃ conn, c.conn? i = some conn ∧ c.Hears conn count ∧ 0 < c.allotment conn count := by
  constructor
  · rintro ⟨conn, hi, hcl, hrf, hm, hn, hr⟩
    have hpos := allotment_pos c hn hm
    exact ⟨conn, hi, ⟨hcl, hrf, hr, fun h0 => absurd h0 (by omega)⟩, hpos⟩
  · rintro ⟨conn, hi, hh, hpos⟩
    have hmax := allotment_le_maxRdy conn count c
    have hcount := allotment_le_count conn count c
    exact ⟨conn, hi, hh.closing, hh.refusing, by omega, by omega, hh.notRefuses⟩

/-- The link that serves an address takes a grant that is tried again there. -/
def Wakes (addr : String) (count : Int) (c : Consumer) : Prop :=
  ∃ i, c.serving? addr = some i ∧ c.Takes i count

/-- A grant that is tried again tells a daemon of some credit if its link takes it. -/
theorem told_retry_of_wakes {addr : String} {count : Int} (h : c.Wakes addr count) :
    ∃ i n, 0 < n ∧ (c.retry addr count).told i = c.told i ++ [n] := by
  obtain ⟨i, hi, ht⟩ := h
  obtain ⟨conn, hconn, hh, hpos⟩ := takes_iff.mp ht
  refine ⟨i, _, hpos, ?_⟩
  unfold retry
  rw [hi]
  exact told_updateRdy_of_hears hconn hh

/-- No daemon is told of any credit if the link does not take it. -/
theorem quiet_retry {addr : String} {count : Int} (h : ¬c.Wakes addr count) :
    Quiet c (c.retry addr count) := by
  refine ⟨sameBeat_retry addr count c, ?_⟩
  unfold retry
  split
  · rename_i i hi
    refine .updateRdy fun conn hconn hh => Int.not_lt.mp fun hpos => ?_
    exact h ⟨i, hi, takes_iff.mpr ⟨conn, hconn, hh, hpos⟩⟩
  · exact .of_told fun _ => rfl

/-- A link that is closing takes nothing. -/
theorem not_wakes_of_spent {addr : String} {count : Int} (h : Spent c)
    (he : (addr, count) ∈ c.retries) : ¬c.Wakes addr count := by
  rintro ⟨i, hi, conn, hconn, hcl, -⟩
  exact absurd (hcl.symm.trans (h _ he i conn (mem_live_of_serving? hi) hconn)) (by decide)

/-! ### Acts in a pause -/

/-- Ordinary acts but for the one that ends a pause. -/
def Waiting (env : Surroundings) (a : Act) (c : Consumer) : Prop :=
  Ordinary env a c ∧ a ≠ .resume

/-- A direct act in a pause is quiet, or a grant is tried again and its link takes it. -/
theorem quiet_direct {env : Surroundings} {a : Act} (h : 0 < c.pause) (ha : Waiting env a c)
    (hd : a.isDirect = true) :
    Quiet c (c.act env a).2 ∨ ∃ addr count, a = .retry addr count ∧ c.Wakes addr count := by
  obtain ⟨ho, hr⟩ := ha
  cases a with
  | attach link => exact .inl (still_attach ho).quiet
  | retry addr count =>
    by_cases hw : c.Wakes addr count
    · exact .inr ⟨addr, count, rfl, hw⟩
    · exact .inl (quiet_retry hw)
  | resume => exact absurd rfl hr
  | redistribute =>
    refine .inl ?_
    show Quiet c (c.redistribute env.chance)
    rw [redistribute_of_pause h]
    exact .refl c
  | changeMaxInFlight n =>
    refine .inl ?_
    show Quiet c (c.changeMaxInFlight n)
    rw [changeMaxInFlight_of_pause h]
    exact ⟨⟨rfl, rfl, rfl⟩, .of_told fun _ => rfl⟩
  | retire i => exact absurd ho.1 id
  | updateRdy i count => exact absurd ho.1 id
  | sendRdy i count => exact absurd ho.1 id
  | _ => simp [Act.isDirect] at hd

/-- The pace stays as it is in a pause, whatever is tried again. -/
theorem sameBeat_step {env : Surroundings} {a : Act} (h : 0 < c.pause) (ha : Waiting env a c) :
    SameBeat c (c.step env a).2 := by
  rcases step_stirs env a c with hs | ⟨hd, hs⟩
  · exact (quiet_stirs h hs).toSameBeat
  · have hact : SameBeat c (c.act env a).2 := by
      rcases quiet_direct h ha hd with hq | ⟨addr, count, rfl, -⟩
      · exact hq.toSameBeat
      · exact sameBeat_retry addr count c
    exact hact.trans (quiet_stirs (hact.pause ▸ h) hs).toSameBeat

theorem quiet_step {env : Surroundings} {a : Act} (h : 0 < c.pause) (ha : Waiting env a c) :
    Quiet c (c.step env a).2 ∨ ∃ addr count, a = .retry addr count ∧ c.Wakes addr count := by
  rcases step_stirs env a c with hs | ⟨hd, hs⟩
  · exact .inl (quiet_stirs h hs)
  · exact (quiet_direct h ha hd).imp_left fun hq => hq.trans (quiet_stirs (hq.pause ▸ h) hs)

/-! ### Runs in a pause -/

theorem sameBeat_reaches (h : 0 < c.pause) (hr : Reaches Waiting c c') : SameBeat c c' := by
  induction hr with
  | refl => exact .refl c
  | step _ ha ih => exact ih.trans (sameBeat_step (ih.pause ▸ h) ha)

/-- A run in a pause is quiet, or some act in it tries a grant again that its link takes. -/
theorem quiet_reaches (h : 0 < c.pause) (hr : Reaches Waiting c c') :
    Quiet c c' ∨ ∃ d env addr count, Reaches Waiting c d ∧ Waiting env (.retry addr count) d ∧
      d.Wakes addr count ∧ Reaches Waiting (d.step env (.retry addr count)).2 c' := by
  induction hr with
  | refl => exact .inl (.refl c)
  | @step d env a hr ha ih =>
    rcases ih with hq | ⟨d₁, env₁, addr, count, h₁, ha₁, hw, hlast⟩
    · rcases quiet_step ((sameBeat_reaches h hr).pause ▸ h) ha with hq' | ⟨addr, count, rfl, hw⟩
      · exact .inl (hq.trans hq')
      · exact .inr ⟨d, env, addr, count, hr, ha, hw, .refl⟩
    · exact .inr ⟨d₁, env₁, addr, count, h₁, ha₁, hw, hlast.step ha⟩

/-- Acts that end no pause, and by which no link takes another one's place. -/
def Patient (env : Surroundings) (a : Act) (c : Consumer) : Prop :=
  Waiting env a c ∧ Sole env a c

/-- A pause that a signal has begun is quiet. -/
theorem quiet_reaches_of_signal {s : Subscription} {c₀ : Consumer}
    (h₀ : Reaches Sole (ofSubscription s) c₀) (hp₀ : c₀.pause = 0) (h : Reaches Patient c₀ c)
    (hp : 0 < c.pause) (hr : Reaches Patient c c') : Quiet c c' := by
  induction hr with
  | refl => exact .refl c
  | @step d env a hr ha ih =>
    have hd : 0 < d.pause := ih.pause ▸ hp
    have hlingers : Reaches Lingers c₀ d := (h.trans hr).mono fun _ _ _ ha => ⟨ha.2, ha.1.2⟩
    refine ih.trans ((quiet_step hd ha.1).resolve_right ?_)
    rintro ⟨addr, count, rfl, hw⟩
    exact not_wakes_of_spent (spent_of_reaches h₀ hp₀ hlingers hd) ha.2.1 hw

/-! ### Pauses of no length -/

/-- Without a pause signals count. -/
theorem level_signal (hp : c.pause = 0) (chance : Nat → Nat) (s : Signal) :
    (c.signal chance s).level = (c.levelAfter s (chance 0)).1 := by
  unfold signal
  rw [if_neg (by simp [inPause, hp])]
  dsimp only
  split_ifs with h0
  · exact (samePace_grantAll _ _ _).level
  · rfl
  · exact (samePace_grantAll _ _ _).level

theorem pause_rest_eq_zero_iff {d : Duration} : (c.rest d).pause = 0 ↔ d.nanos = 0 := by
  have hpause : (c.rest d).pause = min d.nanos (2 ^ 64 - 1) := rfl
  omega

/-- **A pause is quiet, unless a grant is tried again.** Let `c` be a consumer that rests.

* If the pause has any length, the rest of the step in which it was begun is quiet. In a run that
  does not end it the pace stays as it is, and no daemon is told of any credit, or some act tried a
  grant again that was put off before, and its link took it.
* There is no such act if a signal has begun the pause: the consumer was without one at some time,
  and no pause has ended since.
* Wherever a link takes such a grant, its daemon is told of some credit.
* If the pause has no length, the next signal counts.
* A pause has no length if it lasts no time. -/
theorem quiet_or_retried (c : Consumer) :
    (0 < c.pause → (∀ c', Stirs c c' → Quiet c c') ∧
      ∀ c', Reaches Waiting c c' → SameBeat c c' ∧
        (Adds (fun _ n => n ≤ 0) c c' ∨
          ∃ d env addr count, Reaches Waiting c d ∧ Waiting env (.retry addr count) d ∧
            d.Wakes addr count ∧ Reaches Waiting (d.step env (.retry addr count)).2 c')) ∧
    (∀ s c₀ c', Reaches Sole (ofSubscription s) c₀ → c₀.pause = 0 → Reaches Patient c₀ c →
      0 < c.pause → Reaches Patient c c' → Quiet c c') ∧
    (∀ env addr count, c.Wakes addr count →
      ∃ i n, 0 < n ∧ (c.act env (.retry addr count)).2.told i = c.told i ++ [n]) ∧
    (c.pause = 0 → 0 < c.level → ∀ env, (c.act env (.signal .resume)).2.level + 1 = c.level) ∧
    ∀ d : Duration, (c.rest d).pause = 0 ↔ d.nanos = 0 := by
  refine ⟨fun h => ⟨fun c' => quiet_stirs h, fun c' hr => ⟨sameBeat_reaches h hr, ?_⟩⟩,
    fun s c₀ c' => quiet_reaches_of_signal, fun env addr count => told_retry_of_wakes,
    fun hp hl env => ?_, fun d => pause_rest_eq_zero_iff⟩
  · exact (quiet_reaches h hr).imp_left Quiet.told
  · have hlevel : (c.signal env.chance .resume).level = c.level - 1 := by
      rw [level_signal hp, levelAfter, if_pos hl]
    show (c.signal env.chance .resume).level + 1 = c.level
    omega

/-- The pause that a signal begins is quiet, whatever becomes of the budget. The probe after it is
refused and put off, and in the pause that follows the budget comes back. So the grant that is tried
again ends the silence before that pause ends. -/
theorem retried_of_refused_probe :
    let c₀ := sample.stepAll silence [.attach (sampleLink "h:1" 2500)]
    let c₁ := c₀.stepAll silence [.signal .backoff]
    let c₂ := c₁.stepAll silence [.changeMaxInFlight 0]
    let c := c₂.stepAll silence [.resume]
    let c' := c.stepAll silence [.changeMaxInFlight 10, .retry "h:1" 1]
    Reaches Sole sample c₀ ∧ 0 < c₁.pause ∧ Quiet c₁ c₂ ∧
      0 < c.pause ∧ c'.told 0 = c.told 0 ++ [1] ∧ SameBeat c c' ∧
      ∃ d env addr count, Reaches Waiting c d ∧ Waiting env (.retry addr count) d ∧
        d.Wakes addr count := by
  intro c₀ c₁ c₂ c c'
  have hp₁ : 0 < c₁.pause := by decide +kernel
  have hp : 0 < c.pause := by decide +kernel
  have htold : c'.told 0 = c.told 0 ++ [1] := by decide +kernel
  have hreach : Reaches Sole sample c₀ := by
    refine reaches_stepAll ⟨⟨fresh_sampleLink "h:1" 2500, ?_⟩, trivial⟩
    rintro link ⟨⟩
    rfl
  have hfirst : Quiet c₁ c₂ := by
    refine (quiet_or_retried c₁).2.1 _ c₀ c₂ hreach (by decide +kernel) ?_ hp₁ ?_
    all_goals refine reaches_stepAll ⟨⟨⟨⟨trivial, trivial⟩, by simp⟩, trivial, ?_⟩, trivial⟩
    all_goals simp
  have hwait : Reaches Waiting c c' := by
    refine reaches_stepAll ⟨⟨⟨trivial, trivial⟩, by simp⟩, ⟨⟨?_, trivial⟩, by simp⟩, trivial⟩
    show ("h:1", 1) ∈ Consumer.retries _
    decide +kernel
  obtain ⟨hbeat, hquiet⟩ := ((quiet_or_retried c).1 hp).2 c' hwait
  refine ⟨hreach, hp₁, hfirst, hp, htold, hbeat, ?_⟩
  rcases hquiet with hadds | ⟨d, env, addr, count, hd, ha, hw, -⟩
  · obtain ⟨ns, hns, hle⟩ := hadds 0
    obtain rfl := List.append_cancel_left (htold.symm.trans hns)
    exact absurd (hle 1 List.mem_cons_self) (by decide)
  · exact ⟨d, env, addr, count, hd, ha, hw⟩

end Nsq.Consumer
