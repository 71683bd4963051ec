import Nsq.Session.Settings
import Nsq.Proofs.Config.Bounds

/-!
# Times in the settings

The settings name three times in whole milliseconds, in signed words of 64 bits, and a duration may
be longer than any word. The heartbeat interval of a checked configuration is below the read
timeout, which is bounded, so it always fits. The other two have no upper bound: each is advertised
as it is exactly if it is below `2 ^ 63` milliseconds, and as another number, perhaps a negative
one, otherwise (`Settings.advertised_times`).
-/

namespace Nsq

namespace Settings

/-- The number that the settings of a configuration hold under a name. -/
def advertised (c : Config) (name : String) : Option Int :=
  match (ofConfig c).members.lookup name with
  | some (.int i) => some i
  | _ => none

/-- The heartbeat interval of a checked configuration is below the greatest read timeout. -/
theorem heartbeatInterval_lt_of_validate {c : Config} (h : c.validate = .ok ()) :
    (c.durations .heartbeatInterval).nanos < 300 * 10 ^ 9 := by
  obtain ⟨hbounds, htogether⟩ := Config.validate_eq_ok_iff.mp h
  have hread : (c.durations .readTimeout).nanos ≤ 300 * 10 ^ 9 := by
    have hadmits := hbounds.durations .readTimeout
    simp only [DurationOption.admits, DurationOption.bounds, Bool.and_eq_true, Option.all_some,
      decide_eq_true_eq] at hadmits
    exact hadmits.2
  have hslow : ¬ c.durations .readTimeout ≤ c.durations .heartbeatInterval := by
    intro hle
    unfold Config.checkTogether at htogether
    simp [hle] at htogether
  have hlt : (c.durations .heartbeatInterval).nanos < (c.durations .readTimeout).nanos :=
    Nat.lt_of_not_le hslow
  omega

/-- The heartbeat interval of a checked configuration is advertised as it is. -/
theorem advertised_heartbeatInterval {c : Config} (h : c.validate = .ok ()) :
    advertised c "heartbeat_interval" =
      some (if c.durations .heartbeatInterval = .zero then -1
        else ((c.durations .heartbeatInterval).millis : Int)) := by
  have hlt := heartbeatInterval_lt_of_validate h
  have hmillis : (c.durations .heartbeatInterval).millis < 2 ^ 63 := by
    unfold Duration.millis
    omega
  have hfits : millisWord (c.durations .heartbeatInterval) =
      (c.durations .heartbeatInterval).millis :=
    word64_eq_self (by omega) (by omega)
  rw [← hfits]
  simp [advertised, members, ofConfig, List.lookup_cons]

/-- Of the times with no upper bound a word is advertised. -/
theorem advertised_of_unbounded (c : Config) {o : DurationOption}
    (ho : o = .outputBufferTimeout ∨ o = .msgTimeout) :
    advertised c o.name = some (millisWord (c.durations o)) := by
  rcases ho with rfl | rfl
  · simp [advertised, members, ofConfig, List.lookup_cons, DurationOption.name]
  · simp [advertised, members, ofConfig, List.lookup_cons, DurationOption.name]

/-- **Times are advertised exactly as long as they fit.** Under a checked configuration the
heartbeat interval is advertised in whole milliseconds, or as minus one if there is none. How long
the daemon may hold back what it sends, and how long it waits for the answer to a message, are
advertised as words: each is exact if and only if it is below `2 ^ 63` milliseconds, and the highest
of its low 64 bits makes it negative. -/
theorem advertised_times {c : Config} (h : c.validate = .ok ()) :
    advertised c "heartbeat_interval" =
        some (if c.durations .heartbeatInterval = .zero then -1
          else ((c.durations .heartbeatInterval).millis : Int)) ∧
      ∀ o : DurationOption, o = .outputBufferTimeout ∨ o = .msgTimeout →
        ∃ t : Int, advertised c o.name = some t ∧
          -2 ^ 63 ≤ t ∧ t < 2 ^ 63 ∧ 2 ^ 64 ∣ (c.durations o).millis - t ∧
          (t = (c.durations o).millis ↔ (c.durations o).millis < 2 ^ 63) ∧
          (t < 0 ↔ 2 ^ 63 ≤ (c.durations o).millis % 2 ^ 64) := by
  refine ⟨advertised_heartbeatInterval h, fun o ho => ⟨_, advertised_of_unbounded c ho,
    neg_pow_le_word64 _, word64_lt_pow _, pow_dvd_sub_word64 _, ?_, ?_⟩⟩
  · unfold millisWord
    rw [word64_eq_self_iff]
    omega
  · unfold millisWord
    rw [word64_neg_iff]
    omega

/-- A message timeout of `2 ^ 63` milliseconds passes the checks, and is advertised as a negative
number. -/
theorem advertised_of_long_timeout :
    let c := (Config.initial "host").putDuration .msgTimeout (.ofMillis (2 ^ 63))
    c.validate = .ok () ∧ (c.durations .msgTimeout).millis = 2 ^ 63 ∧
      advertised c "msg_timeout" = some (-2 ^ 63) := by
  intro c
  have hvalid : c.validate = .ok () := by
    cases hv : c.validate with
    | ok u => rfl
    | error fault =>
      have hok : c.validate.toBool = true := by decide +kernel
      simp [hv, Except.toBool] at hok
  have hmillis : (c.durations .msgTimeout).millis = 2 ^ 63 := by
    decide +kernel
  obtain ⟨t, ht, hlow, hhigh, hdvd, -, -⟩ := (advertised_times hvalid).2 .msgTimeout (.inr rfl)
  have hword : t = -2 ^ 63 := by
    rw [hmillis] at hdvd
    omega
  rw [hword] at ht
  exact ⟨hvalid, hmillis, ht⟩

end Settings

end Nsq
