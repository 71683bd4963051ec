import Nsq.Proofs.Config.Bounds
import Nsq.Proofs.Consumer.Ledger

/-!
# How slow a consumer gets

Each level doubles the pause of the one below, and a consumer does not go up to a level whose pause
is longer than the longest that its configuration allows. Only the way up is guarded. On the way
down the bound holds since pauses grow with the level (`BackoffStrategy.ceiling_mono`).

A pause that lasts any time belongs to a level above zero: it ends with the wake-up that was set
when it began, and the level stays until then (`Braked`). This needs a base that is not zero. The
pauses of an empty base are none, so that signals can bring the consumer back to level zero with a
wake-up still to come.
-/

namespace Nsq

namespace BackoffStrategy

theorem factor_pos (level : Nat) : 0 < factor level := by
  unfold factor
  split_ifs
  · exact Nat.two_pow_pos level
  · decide

theorem factor_mono {m n : Nat} (h : m ≤ n) : factor m ≤ factor n := by
  unfold factor
  split_ifs with hm hn
  · exact Nat.pow_le_pow_right Nat.two_pos h
  · exact Nat.le_sub_one_of_lt (Nat.pow_lt_pow_right Nat.one_lt_two hm)
  · omega
  · exact Nat.le_refl _

theorem nanos_ceiling (base : Duration) (level : Nat) :
    (ceiling base level).nanos = min (base.nanos * factor level) (2 ^ 64 * 10 ^ 9 - 1) := rfl

/-- **Pauses grow with the level.** -/
theorem ceiling_mono (base : Duration) {m n : Nat} (h : m ≤ n) :
    ceiling base m ≤ ceiling base n := by
  have hmul : base.nanos * factor m ≤ base.nanos * factor n :=
    Nat.mul_le_mul_left base.nanos (factor_mono h)
  show (ceiling base m).nanos ≤ (ceiling base n).nanos
  rw [nanos_ceiling, nanos_ceiling]
  omega

theorem ceiling_pos {base : Duration} (h : 0 < base.nanos) (level : Nat) :
    0 < (ceiling base level).nanos := by
  have hmul : 0 < base.nanos * factor level := Nat.mul_pos h (factor_pos level)
  rw [nanos_ceiling]
  omega

end BackoffStrategy

namespace Config

/-- Pauses double from a base that is not zero, and the longest one can be counted in a word. -/
structure Doubles (g : Config) : Prop where
  strategy : g.strategy = .exponential
  base : 0 < (g.durations .backoffMultiplier).nanos
  longest : (g.durations .maxBackoffDuration).nanos < 2 ^ 64

theorem doubles_of_validate {g : Config} (h : g.validate = .ok ())
    (hs : g.strategy = .exponential) (hb : 0 < (g.durations .backoffMultiplier).nanos) :
    g.Doubles := by
  refine ⟨hs, hb, ?_⟩
  have hadmits := (inBounds_of_validate h).durations .maxBackoffDuration
  simp only [DurationOption.admits, DurationOption.bounds, Option.all_some, Bool.and_eq_true,
    decide_eq_true_eq] at hadmits
  exact Nat.lt_of_le_of_lt hadmits.2 (by decide)

theorem Doubles.backoffPause {g : Config} (h : g.Doubles) (level draw : Nat) :
    g.backoffPause level draw =
      BackoffStrategy.ceiling (g.durations .backoffMultiplier) level := by
  rw [Config.backoffPause, h.strategy, BackoffStrategy.pause]

end Config

namespace Consumer

variable {s : Subscription} {c c' : Consumer}

/-- Where level and pause of a consumer of `s` stand: the level within the bound, and a pause that
is the one of the level, or the one after a probe that could not be made, and only above level zero.
Something will wake the consumer only while it pauses. -/
structure Braked (s : Subscription) (c : Consumer) : Prop where
  subscription : c.subscription = s
  doubles : s.config.Doubles
  bounded : c.level = 0 ∨
    ∀ draw, s.config.backoffPause c.level draw ≤ s.config.durations .maxBackoffDuration
  length : c.pause = 0 ∨ (∀ draw, c.pause = (s.config.backoffPause c.level draw).nanos) ∨
    c.pause = probePause.nanos
  level_pos : 0 < c.pause → 0 < c.level
  pause_pos : c.armed = true → 0 < c.pause

namespace Braked

theorem config (h : Braked s c) : c.config = s.config := congrArg Subscription.config h.subscription

theorem of_sameBeat (h : Braked s c) (hs : c'.subscription = c.subscription) (hb : SameBeat c c') :
    Braked s c' where
  subscription := hs.trans h.subscription
  doubles := h.doubles
  bounded := hb.level ▸ h.bounded
  length := by
    rw [hb.level, hb.pause]
    exact h.length
  level_pos := by
    rw [hb.level, hb.pause]
    exact h.level_pos
  pause_pos := by
    rw [hb.armed, hb.pause]
    exact h.pause_pos

theorem lending (h : Braked s c) (hl : Lending c c') (hb : SameBeat c c') : Braked s c' :=
  h.of_sameBeat hl.subscription hb

/-- No way to a new level leads past the longest pause. -/
theorem bounded_levelAfter (h : Braked s c) (sig : Signal) (draw : Nat) :
    (c.levelAfter sig draw).1 = 0 ∨ ∀ d,
      s.config.backoffPause (c.levelAfter sig draw).1 d ≤
        s.config.durations .maxBackoffDuration := by
  have hdown : c.level - 1 = 0 ∨
      ∀ d, s.config.backoffPause (c.level - 1) d ≤ s.config.durations .maxBackoffDuration := by
    refine h.bounded.imp (fun h0 => by omega) fun hle d => ?_
    refine Nat.le_trans (m := (s.config.backoffPause c.level d).nanos) ?_ (hle d)
    rw [h.doubles.backoffPause, h.doubles.backoffPause]
    exact BackoffStrategy.ceiling_mono _ (Nat.sub_le _ _)
  cases sig with
  | backoff =>
    simp only [levelAfter, h.config]
    split_ifs with hup
    · refine .inr fun d => ?_
      rw [h.doubles.backoffPause] at hup ⊢
      exact hup
    · exact h.bounded
  | _ =>
    simp only [levelAfter]
    split_ifs
    · exact hdown
    · exact .inl rfl

/-- A pause at a level above zero that is within the bound is the one of the level: neither the
longest pause nor the word in which nanoseconds are counted cuts it. -/
theorem rest (h : Braked s c) (hpos : 0 < c.level) {d : Duration} (draw : Nat)
    (hd : d = min (s.config.backoffPause c.level draw)
      (s.config.durations .maxBackoffDuration)) : Braked s (c.rest d) := by
  have hle := h.bounded.resolve_left (Nat.ne_of_gt hpos)
  have hlength : d = s.config.backoffPause c.level draw := hd.trans (if_pos (hle draw))
  have hword : (s.config.backoffPause c.level draw).nanos < 2 ^ 64 :=
    Nat.lt_of_le_of_lt (hle draw) h.doubles.longest
  have hpause : (c.rest d).pause = (s.config.backoffPause c.level draw).nanos := by
    rw [hlength]
    exact Nat.min_eq_left (Nat.le_sub_one_of_lt hword)
  rw [h.doubles.backoffPause] at hpause
  refine ⟨h.subscription, h.doubles, .inr hle, .inr (.inl fun d => ?_), fun _ => hpos, fun _ => ?_⟩
  · exact hpause.trans (congrArg Duration.nanos (h.doubles.backoffPause c.level d).symm)
  · rw [hpause]
    exact BackoffStrategy.ceiling_pos h.doubles.base c.level

theorem signal (h : Braked s c) (chance : Nat → Nat) (sig : Signal) :
    Braked s (c.signal chance sig) := by
  unfold Consumer.signal
  split_ifs with hp
  · exact h
  · have hp0 : c.pause = 0 := by simpa [inPause] using hp
    -- without a pause nothing will wake the consumer, whatever its level becomes
    have hmid : Braked s { c with level := (c.levelAfter sig (chance 0)).1 } :=
      ⟨h.subscription, h.doubles, h.bounded_levelAfter sig (chance 0), .inl hp0,
        fun hpos => absurd hp0 (Nat.ne_of_gt hpos), h.pause_pos⟩
    dsimp only
    split_ifs with h0
    · exact hmid.lending (sharing_grantAll _ (perLink_nonneg_or _)).dealing.lending
        (samePace_grantAll _ _ _).toSameBeat
    · exact hmid
    · set d : Consumer := { c with level := (c.levelAfter sig (chance 0)).1 } with hd
      have hbeat : SameBeat d (d.grantAll d.walk 0) := (samePace_grantAll _ _ _).toSameBeat
      have hgranted : Braked s (d.grantAll d.walk 0) :=
        hmid.lending (sharing_grantAll d.walk (.inl (Int.le_refl 0))).dealing.lending hbeat
      refine hgranted.rest ?_ (chance 1) ?_
      · rw [hbeat.level]
        exact Nat.pos_of_ne_zero h0
      · rw [hbeat.level, pauseLength, hmid.config]

/-- A wake-up that was set ends the pause, or begins the one after a probe that could not be
made. -/
theorem resume (h : Braked s c) (ha : c.armed = true) (chance : Nat → Nat) :
    Braked s (c.resume chance) := by
  have hlevel : 0 < c.level := h.level_pos (h.pause_pos ha)
  have hend : ∀ d : Consumer, d.subscription = c.subscription → d.level = c.level →
      d.armed = false → Braked s { d with pause := 0 } ∧ Braked s (d.rest probePause) := by
    intro d hs hl harmed
    have hsub : d.subscription = s := hs.trans h.subscription
    have hbounded : d.level = 0 ∨
        ∀ draw, s.config.backoffPause d.level draw ≤ s.config.durations .maxBackoffDuration := by
      rw [hl]
      exact h.bounded
    refine ⟨⟨hsub, h.doubles, hbounded, .inl rfl, fun h0 => absurd h0 (Nat.lt_irrefl 0),
      fun ht => absurd (harmed.symm.trans ht) Bool.false_ne_true⟩, hsub, h.doubles, hbounded,
      .inr (.inr rfl), fun _ => hl ▸ hlevel, fun _ => ?_⟩
    show 0 < min probePause.nanos (2 ^ 64 - 1)
    decide
  unfold Consumer.resume
  dsimp only
  split_ifs
  · exact (hend { c with armed := false } rfl rfl rfl).1
  · split
    · exact (hend { c with armed := false } rfl rfl rfl).2
    · rename_i i _
      have hpace := samePace_updateRdy i 1 { c with armed := false }
      have hsub := (dealing_updateRdy i 1 { c with armed := false }).lending.subscription
      split <;> rename_i heq <;> rw [heq] at hpace hsub
      · exact (hend _ hsub hpace.level hpace.armed).1
      · exact (hend _ hsub hpace.level hpace.armed).2

theorem passAnswer (h : Braked s c) (chance : Nat → Nat) (i : Nat) (m : Message) (a : Answer) :
    Braked s (c.passAnswer chance i m a) := by
  refine passAnswer_invariant h (fun conn _ => h.of_sameBeat rfl ⟨rfl, rfl, rfl⟩) (fun d hd => ?_)
    (fun d hd => hd.signal chance _) fun d hd => hd.of_sameBeat rfl ⟨rfl, rfl, rfl⟩
  cases a <;> exact hd.of_sameBeat rfl ⟨rfl, rfl, rfl⟩

theorem retired {i : Nat} {conn : Connection} (h : Braked s c) (hr : Retired i conn c c') :
    Braked s c' :=
  h.of_sameBeat hr.subscription ⟨hr.level, hr.pause, hr.armed⟩

theorem retire (h : Braked s c) (i : Nat) : Braked s (c.retire i) := by
  cases hi : c.conn? i with
  | none => simpa [Consumer.retire, hi] using h
  | some conn => exact h.retired (retire_of_conn hi)

theorem settleLink (h : Braked s c) (i : Nat) : Braked s (c.settleLink i) := by
  cases hi : c.conn? i with
  | none => rwa [settleLink_of_none hi]
  | some conn =>
    have hp : ∀ conn', Braked s (c.putConn i conn') :=
      fun _ => h.of_sameBeat rfl ⟨rfl, rfl, rfl⟩
    rcases settleLink_cases hi with ⟨heq, -⟩ | ⟨-, -, hr⟩
    · exact heq ▸ hp _
    · exact (hp _).retired hr

end Braked

/-- Acts of any kind, but nothing wakes the consumer other than the wake-up that was set. -/
def Timely (_ : Surroundings) (a : Act) (c : Consumer) : Prop := a = .resume → c.armed = true

theorem Braked.direct {env : Surroundings} {a : Act} (h : Braked s c) (ha : Timely env a c)
    (hd : a.isDirect = true) : Braked s (c.act env a).2 := by
  cases a with
  | attach link => exact h.of_sameBeat rfl ⟨rfl, rfl, rfl⟩
  | retire i => exact h.retire i
  | updateRdy i count =>
    exact h.lending (dealing_updateRdy i count c).lending (samePace_updateRdy i count c).toSameBeat
  | sendRdy i count =>
    exact h.lending (lending_sendRdy i count c) (samePace_sendRdy i count c).toSameBeat
  | retry addr count =>
    exact h.lending (dealing_retry addr count c).lending (sameBeat_retry addr count c)
  | resume => exact h.resume (ha rfl) env.chance
  | redistribute =>
    exact h.lending (dealing_redistribute env.chance c).lending (sameBeat_redistribute env.chance c)
  | changeMaxInFlight n =>
    exact h.lending (dealing_changeMaxInFlight n c).lending (sameBeat_changeMaxInFlight n c)
  | _ => simp [Act.isDirect] at hd

/-- Every move leaves level and pause where they may stand. -/
theorem Braked.move (h : Braked s c) (hm : Move Timely c c') : Braked s c' := by
  cases hm with
  | note hn => exact h.of_sameBeat hn.subscription ⟨hn.level, hn.pause, hn.armed⟩
  | refill i => exact h.lending (dealing_refill i c).lending (samePace_refill i c).toSameBeat
  | signal chance sig => exact h.signal chance sig
  | bounce i m a => exact h.passAnswer _ i m a
  | answer a =>
    have hput : ∀ n st, Braked s (c.putState n st) := fun _ _ => h.of_sameBeat rfl ⟨rfl, rfl, rfl⟩
    exact (hput _ _).passAnswer _ _ _ a
  | settle i => exact h.settleLink i
  | direct ha hd => exact h.direct ha hd
  | _ => exact h.of_sameBeat rfl ⟨rfl, rfl, rfl⟩

/-- **Level and pause stay bounded.** Let a consumer of a checked configuration double its pauses
from a base that is not zero, and let nothing wake it but the wake-up that was set, whatever else
happens to it. At all times

* its level is zero, or the pause of the level is at most the longest pause,
* it does not pause, or its pause is exactly the one of the level, or the one after a probe that
  could not be made,
* it pauses only above level zero. -/
theorem level_and_pause_bounded (hvalid : s.config.validate = .ok ())
    (hstrategy : s.config.strategy = .exponential)
    (hbase : 0 < (s.config.durations .backoffMultiplier).nanos)
    (h : Reaches Timely (ofSubscription s) c) :
    (c.level = 0 ∨
        ∀ draw, s.config.backoffPause c.level draw ≤ s.config.durations .maxBackoffDuration) ∧
      (c.pause = 0 ∨ (∀ draw, c.pause = (s.config.backoffPause c.level draw).nanos) ∨
        c.pause = probePause.nanos) ∧
      (0 < c.pause → 0 < c.level) := by
  have hstart : Braked s (ofSubscription s) :=
    ⟨rfl, Config.doubles_of_validate hvalid hstrategy hbase, .inl rfl, .inl rfl,
      fun h0 => absurd h0 (Nat.lt_irrefl 0), fun ht => absurd ht Bool.false_ne_true⟩
  have hb : Braked s c := h.invariant (fun _ _ hb hm => hb.move hm) hstart
  exact ⟨hb.bounded, hb.length, hb.level_pos⟩

/-- The second failure in a row comes when the first pause is over, and doubles it. -/
theorem pause_of_second_level :
    let c := sample.stepAll silence
      [.attach (sampleLink "h:1" 2500), .signal .backoff, .resume, .signal .backoff]
    c.level = 2 ∧ c.pause = (sample.config.backoffPause 2 0).nanos ∧ c.pause = 4 * 10 ^ 9 ∧
      sample.config.backoffPause 2 0 ≤ sample.config.durations .maxBackoffDuration := by
  intro c
  have hl : c.level = 2 := by decide +kernel
  have hp : c.pause = 4 * 10 ^ 9 := by decide +kernel
  have hvalid : sample.config.validate = .ok () := by rfl
  have hr : Reaches Timely sample c :=
    reaches_stepAll ⟨fun h => by simp at h, fun h => by simp at h, fun _ => by decide +kernel,
      fun h => by simp at h, trivial⟩
  obtain ⟨hlevel, hpause, -⟩ :=
    level_and_pause_bounded (s := sample.subscription) hvalid rfl (by decide) hr
  rw [hl] at hlevel hpause
  refine ⟨hl, ?_, hp, hlevel.resolve_left (by decide) 0⟩
  rcases hpause with h0 | hpause | h1
  · omega
  · exact hpause 0
  · exact absurd (hp.symm.trans h1) (by decide)

end Consumer

end Nsq
