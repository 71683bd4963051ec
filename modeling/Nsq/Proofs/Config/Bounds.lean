import Nsq.Config.Basic
import Mathlib.Tactic.SplitIfs

/-!
# Configurations within bounds

A configuration passes `Config.checkBounds` exactly if every option is within its bounds
(`checkBounds_eq_ok_iff`). So what `Config.validate` says of a configuration within bounds is
decided by the options that must fit together (`validate_of_inBounds`), and a configuration that it
passes can be relied on option by option.
-/

namespace Nsq.Config

/-- Every option is within its bounds. -/
structure InBounds (c : Config) : Prop where
  durations : ∀ o : DurationOption, o.admits (c.durations o) = true
  counts : ∀ o : CountOption, o.admits (c.counts o) = true
  jitter : c.jitter.inUnitInterval = true

/-- A walk of checks succeeds exactly if every one of them does. -/
theorem forM_eq_ok_iff {ε α : Type} {f : α → Except ε Unit} {as : List α} :
    as.forM f = .ok () ↔ ∀ a ∈ as, f a = .ok () := by
  induction as with
  | nil => exact ⟨fun _ a ha => absurd ha List.not_mem_nil, fun _ => rfl⟩
  | cons b bs ih =>
    rw [List.forM_eq_forM, List.forM_cons, List.forall_mem_cons, ← ih, List.forM_eq_forM]
    cases hb : f b with
    | error e => simp [bind, Except.bind]
    | ok u => simp [bind, Except.bind]

theorem checkDuration_eq_ok_iff {o : DurationOption} {d : Duration} :
    checkDuration o d = .ok () ↔ o.admits d = true := by
  unfold checkDuration
  split_ifs with h <;> simp [h]

theorem checkCount_eq_ok_iff {o : CountOption} {i : Int} :
    checkCount o i = .ok () ↔ o.admits i = true := by
  unfold checkCount
  split_ifs with h <;> simp [h]

theorem checkJitter_eq_ok_iff {d : Double} {shown : ConfigValue} :
    checkJitter d shown = .ok () ↔ d.inUnitInterval = true := by
  unfold checkJitter
  split_ifs with h <;> simp [h]

/-- Checks that are made one after another pass exactly if all of them do. -/
theorem then_eq_ok_iff {ε : Type} {a b : Except ε Unit} :
    (do a; b) = .ok () ↔ a = .ok () ∧ b = .ok () := by
  cases a with
  | error e => simp [bind, Except.bind]
  | ok u => simp [bind, Except.bind]

/-- **The bounds of a configuration are checked option by option**, and no option is left out. -/
theorem checkBounds_eq_ok_iff {c : Config} : c.checkBounds = .ok () ↔ c.InBounds := by
  have hd : ∀ o : DurationOption, o ∈ DurationOption.all := by
    intro o
    cases o <;> decide
  have hc : ∀ o : CountOption, o ∈ CountOption.all := by
    intro o
    cases o <;> decide
  unfold checkBounds
  rw [then_eq_ok_iff, then_eq_ok_iff, forM_eq_ok_iff, forM_eq_ok_iff, checkJitter_eq_ok_iff]
  constructor
  · rintro ⟨hds, hcs, hj⟩
    exact ⟨fun o => checkDuration_eq_ok_iff.mp (hds o (hd o)),
      fun o => checkCount_eq_ok_iff.mp (hcs o (hc o)), hj⟩
  · intro h
    exact ⟨fun o _ => checkDuration_eq_ok_iff.mpr (h.durations o),
      fun o _ => checkCount_eq_ok_iff.mpr (h.counts o), h.jitter⟩

/-- Within bounds only what options must obey together is left to be said. -/
theorem validate_of_inBounds {c : Config} (h : c.InBounds) : c.validate = c.checkTogether := by
  unfold validate
  rw [checkBounds_eq_ok_iff.mpr h]
  rfl

/-- A checked configuration is within bounds, and its options obey what they must together. -/
theorem validate_eq_ok_iff {c : Config} :
    c.validate = .ok () ↔ c.InBounds ∧ c.checkTogether = .ok () := by
  unfold validate
  rw [then_eq_ok_iff, checkBounds_eq_ok_iff]

theorem inBounds_of_validate {c : Config} (h : c.validate = .ok ()) : c.InBounds :=
  (validate_eq_ok_iff.mp h).1

/-- A checked budget is a word that is not negative. -/
theorem maxInFlight_of_validate {c : Config} (h : c.validate = .ok ()) :
    0 ≤ c.counts .maxInFlight ∧ c.counts .maxInFlight < 2 ^ 63 := by
  have hadmits := (inBounds_of_validate h).counts .maxInFlight
  simp only [CountOption.admits, Bool.and_eq_true, decide_eq_true_eq] at hadmits
  simp only [CountOption.bounds, maxInt64] at hadmits
  omega

end Nsq.Config
