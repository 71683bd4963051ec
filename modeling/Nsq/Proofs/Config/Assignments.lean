import Nsq.Proofs.Config.Bounds

/-!
# Assignments in a row

A configuration is filled by one assignment after another, each of which names an option and hands
a value over; one that is refused changes nothing (`Config.setAll`). What becomes of an option is
told here without looking at the others. `ConfigOption.conversion` says what a value is to an
option, or why it is refused, and `Config.setting` what an option holds:

* whether an assignment is refused, and why, depends on the name and the value alone
  (`Config.verdict`);
* an option holds the conversion of the last value that it accepted (`setting_setAll`), so
  assignments to different options may change places;
* the values that hold at the start are within bounds, and no assignment leads out of them. What is
  left to `Config.validate` are options that do not fit together, or that are not supported.
-/

namespace Nsq

/-- Whether a refusal is about several options together, or about something not supported. -/
def ConfigFault.isJoint : ConfigFault → Bool
  | slowHeartbeat _ _ | twoCompressions | snappyUnsupported | tlsUnsupported => true
  | _ => false

namespace ConfigOption

/-- The values that an option may hold. -/
abbrev Value : ConfigOption → Type
  | duration _ => Duration
  | count _ => Int
  | jitter => Double
  | strategy => BackoffStrategy
  | flag _ => Bool
  | text _ => String
  | authSecret => Option String

/-- The values of an option that are within its bounds. -/
def Admits : (o : ConfigOption) → o.Value → Prop
  | duration k, d => k.admits d = true
  | count k, i => k.admits i = true
  | jitter, d => d.inUnitInterval = true
  | _, _ => True

/-- What a value is to an option, or why the option refuses it. -/
def conversion : (o : ConfigOption) → ConfigValue → Except ConfigFault o.Value
  | duration k, v => do
    let d ← Config.reading (duration k) v.toDuration
    Config.checkDuration k d
    pure d
  | count k, v => do
    let i ← Config.reading (count k) v.toInt
    Config.checkCount k i
    pure i
  | jitter, v => do
    let d ← Config.reading jitter v.toDouble
    Config.checkJitter d v
    pure d
  | strategy, v => Config.reading strategy v.toStrategy
  | flag k, v => Config.reading (flag k) v.toFlag
  | text k, v => Config.reading (text k) v.toText
  | authSecret, v => (Config.reading authSecret v.toText).map some

/-- What an option takes from an assignment: nothing if another one is named, or the value is
refused. -/
def accepted (o : ConfigOption) (call : String × ConfigValue) : Option o.Value :=
  if call.1 = o.name then (o.conversion call.2).toOption else none

/-- Every option is found by its name. -/
theorem ofName?_name (o : ConfigOption) : ofName? o.name = some o := by
  cases o with
  | duration k => cases k <;> decide
  | count k => cases k <;> decide
  | flag k => cases k <;> decide
  | text k => cases k <;> decide
  | jitter => decide
  | strategy => decide
  | authSecret => decide

theorem ofName?_eq_some_iff {name : String} {o : ConfigOption} :
    ofName? name = some o ↔ name = o.name := by
  constructor
  · intro h
    unfold ofName? at h
    have hname := List.find?_some h
    exact (beq_iff_eq.mp hname).symm
  · rintro rfl
    exact ofName?_name o

/-- Names tell options apart. -/
theorem name_injective {o o' : ConfigOption} (h : o.name = o'.name) : o = o' := by
  have hfound := ofName?_name o
  rw [h, ofName?_name] at hfound
  exact (Option.some.inj hfound).symm

/-- What is read and then checked has passed the check. -/
theorem checked_of_bind {ε α : Type} {read : Except ε α} (check : α → Except ε Unit) {x : α}
    (h : (do let a ← read; check a; pure a) = .ok x) : check x = .ok () := by
  cases hr : read with
  | error e => simp [hr, bind, Except.bind] at h
  | ok a =>
    cases hc : check a with
    | error e => simp [hr, hc, bind, Except.bind] at h
    | ok u =>
      obtain rfl : a = x := by simpa [hr, hc, bind, Except.bind, pure, Except.pure] using h
      exact hc

/-- An option accepts no value out of its bounds. -/
theorem admits_of_conversion {o : ConfigOption} {v : ConfigValue} {x : o.Value}
    (h : o.conversion v = .ok x) : o.Admits x := by
  cases o with
  | duration k => exact Config.checkDuration_eq_ok_iff.mp (checked_of_bind _ h)
  | count k => exact Config.checkCount_eq_ok_iff.mp (checked_of_bind _ h)
  | jitter =>
    have hcheck := checked_of_bind (fun d => Config.checkJitter d v) h
    exact Config.checkJitter_eq_ok_iff.mp hcheck
  | strategy => trivial
  | flag k => trivial
  | text k => trivial
  | authSecret => trivial

end ConfigOption

namespace Config

/-! ### What options hold -/

/-- What an option holds under a configuration. -/
def setting (c : Config) : (o : ConfigOption) → o.Value
  | .duration k => c.durations k
  | .count k => c.counts k
  | .jitter => c.jitter
  | .strategy => c.strategy
  | .flag k => c.flags k
  | .text k => c.texts k
  | .authSecret => c.authSecret

/-- Gives an option another value. -/
def put (c : Config) : (o : ConfigOption) → o.Value → Config
  | .duration k, d => c.putDuration k d
  | .count k, i => c.putCount k i
  | .jitter, d => { c with jitter := d }
  | .strategy, s => { c with strategy := s }
  | .flag k, b => c.putFlag k b
  | .text k, s => c.putText k s
  | .authSecret, s => { c with authSecret := s }

@[simp] theorem setting_put_self (c : Config) (o : ConfigOption) (x : o.Value) :
    (c.put o x).setting o = x := by
  cases o <;> simp [put, setting, putDuration, putCount, putFlag, putText]

/-- The other options stay as they are. -/
theorem setting_put_of_ne (c : Config) {o o' : ConfigOption} (h : o' ≠ o) (x : o.Value) :
    (c.put o x).setting o' = c.setting o' := by
  cases o <;> cases o' <;> simp_all [put, setting, putDuration, putCount, putFlag, putText]

/-- A configuration is what its options hold. -/
theorem ext_setting {c c' : Config} (h : ∀ o, c.setting o = c'.setting o) : c = c' := by
  have hd : c.durations = c'.durations := funext fun k => h (.duration k)
  have hc : c.counts = c'.counts := funext fun k => h (.count k)
  have hf : c.flags = c'.flags := funext fun k => h (.flag k)
  have ht : c.texts = c'.texts := funext fun k => h (.text k)
  have hj : c.jitter = c'.jitter := h .jitter
  have hs : c.strategy = c'.strategy := h .strategy
  have ha : c.authSecret = c'.authSecret := h .authSecret
  cases c
  cases c'
  simp_all

theorem inBounds_iff {c : Config} : c.InBounds ↔ ∀ o : ConfigOption, o.Admits (c.setting o) := by
  constructor
  · intro h o
    cases o with
    | duration k => exact h.durations k
    | count k => exact h.counts k
    | jitter => exact h.jitter
    | strategy => trivial
    | flag k => trivial
    | text k => trivial
    | authSecret => trivial
  · intro h
    exact ⟨fun k => h (.duration k), fun k => h (.count k), h .jitter⟩

/-! ### One assignment -/

/-- What is read and checked may be used after that. -/
theorem bind_check_eq_map {ε α β : Type} {read : Except ε α} {check : α → Except ε Unit}
    (f : α → β) :
    (do let a ← read; check a; pure (f a)) = (do let a ← read; check a; pure a).map f := by
  cases read with
  | error e => rfl
  | ok a => cases hc : check a <;> simp [hc, bind, Except.bind, pure, Except.pure, Except.map]

/-- An assignment puts the conversion of its value, if there is one. -/
theorem assignment_eq (o : ConfigOption) (v : ConfigValue) :
    assignment o v = (o.conversion v).map fun x c => c.put o x := by
  cases o with
  | duration k => exact bind_check_eq_map _
  | count k => exact bind_check_eq_map _
  | jitter => exact bind_check_eq_map _
  | strategy => exact bind_pure_comp _ _
  | flag k => exact bind_pure_comp _ _
  | text k => exact bind_pure_comp _ _
  | authSecret =>
    have h : ∀ read : Except ConfigFault String,
        (do let s ← read; pure fun c : Config => { c with authSecret := some s }) =
          (read.map some).map fun x c => c.put .authSecret x := by
      intro read
      cases read <;> rfl
    exact h _

/-- Setting an option by its name puts the conversion of the value. -/
theorem set_name (c : Config) (o : ConfigOption) (v : ConfigValue) :
    c.set o.name v = (o.conversion v).map fun x => c.put o x := by
  simp only [set, ConfigOption.ofName?_name, assignment_eq]
  cases o.conversion v <;> rfl

/-- Why an assignment is refused, or that it is not: this depends on the name and the value. -/
def verdict (call : String × ConfigValue) : Except ConfigFault Unit :=
  match ConfigOption.ofName? call.1 with
  | none => .error (.unknownOption call.1)
  | some o => (o.conversion call.2).map fun _ => ()

/-- Makes an assignment; a refused one changes nothing. -/
def attempt (c : Config) (call : String × ConfigValue) : Except ConfigFault Unit × Config :=
  match c.set call.1 call.2 with
  | .ok c' => (.ok (), c')
  | .error fault => (.error fault, c)

/-- What an assignment does to a configuration. -/
theorem attempt_cases (c : Config) (call : String × ConfigValue) :
    (∃ fault, verdict call = .error fault ∧ c.attempt call = (.error fault, c) ∧
        ∀ o : ConfigOption, o.accepted call = none) ∨
      ∃ (o : ConfigOption) (x : o.Value), call.1 = o.name ∧ o.conversion call.2 = .ok x ∧
        verdict call = .ok () ∧ c.attempt call = (.ok (), c.put o x) := by
  cases hname : ConfigOption.ofName? call.1 with
  | none =>
    refine .inl ⟨.unknownOption call.1, by simp [verdict, hname], by simp [attempt, set, hname], ?_⟩
    intro o
    have hne : call.1 ≠ o.name := by
      intro h
      rw [ConfigOption.ofName?_eq_some_iff.mpr h] at hname
      exact absurd hname (by simp)
    exact if_neg hne
  | some o =>
    have ho := ConfigOption.ofName?_eq_some_iff.mp hname
    have hset : c.set call.1 call.2 = (o.conversion call.2).map fun x => c.put o x := by
      rw [ho, set_name]
    cases hx : o.conversion call.2 with
    | error fault =>
      refine .inl ⟨fault, by simp [verdict, hname, hx, Except.map],
        by simp [attempt, hset, hx, Except.map], fun o' => ?_⟩
      by_cases h' : call.1 = o'.name
      · obtain rfl := ConfigOption.name_injective (ho.symm.trans h')
        rw [ConfigOption.accepted, if_pos h', hx]
        rfl
      · exact if_neg h'
    | ok x =>
      exact .inr ⟨o, x, ho, hx, by simp [verdict, hname, hx, Except.map],
        by simp [attempt, hset, hx, Except.map]⟩

/-- Whether an assignment is refused, and why, depends on the name and the value alone. -/
theorem attempt_verdict (c : Config) (call : String × ConfigValue) :
    (c.attempt call).1 = verdict call := by
  obtain ⟨fault, hv, ha, -⟩ | ⟨o, x, -, -, hv, ha⟩ := attempt_cases c call
  · rw [ha, hv]
  · rw [ha, hv]

/-- An option gets what it accepts, and stays as it is otherwise. -/
theorem setting_attempt (c : Config) (call : String × ConfigValue) (o : ConfigOption) :
    (c.attempt call).2.setting o = (o.accepted call).getD (c.setting o) := by
  obtain ⟨fault, -, ha, hnone⟩ | ⟨o', x, hname, hx, -, ha⟩ := attempt_cases c call
  · rw [ha, hnone o]
    rfl
  · rw [ha]
    by_cases ho : o = o'
    · subst ho
      rw [ConfigOption.accepted, if_pos hname, hx]
      exact setting_put_self c o x
    · have hne : call.1 ≠ o.name := fun h => ho (ConfigOption.name_injective (h.symm.trans hname))
      rw [ConfigOption.accepted, if_neg hne]
      exact setting_put_of_ne c ho x

/-! ### Many assignments -/

/-- Makes assignments one after another, and tells what became of each. -/
def setAll (c : Config) :
    List (String × ConfigValue) → List (Except ConfigFault Unit) × Config
  | [] => ([], c)
  | call :: calls =>
    let (result, c) := c.attempt call
    let (results, c) := c.setAll calls
    (result :: results, c)

theorem setAll_verdicts (c : Config) (calls : List (String × ConfigValue)) :
    (c.setAll calls).1 = calls.map verdict := by
  induction calls generalizing c with
  | nil => rfl
  | cons call calls ih =>
    have hrest := ih (c.attempt call).2
    simp only [setAll, List.map_cons, attempt_verdict, hrest]

/-- **An option holds what it accepted last**, and what it held before if it accepted nothing. -/
theorem setting_setAll (c : Config) (calls : List (String × ConfigValue)) (o : ConfigOption) :
    (c.setAll calls).2.setting o = (calls.filterMap o.accepted).getLast?.getD (c.setting o) := by
  induction calls generalizing c with
  | nil => rfl
  | cons call calls ih =>
    have hrest := ih (c.attempt call).2
    rw [setting_attempt] at hrest
    simp only [setAll, hrest, List.filterMap_cons]
    cases o.accepted call with
    | none => rfl
    | some x => rw [List.getLast?_cons]; cases (calls.filterMap o.accepted).getLast? <;> rfl

/-- Assignments of which every option accepts the same come to the same. -/
theorem setAll_congr {calls calls' : List (String × ConfigValue)}
    (h : ∀ o : ConfigOption, calls.filterMap o.accepted = calls'.filterMap o.accepted)
    (c : Config) : (c.setAll calls).2 = (c.setAll calls').2 := by
  refine ext_setting fun o => ?_
  rw [setting_setAll, setting_setAll, h o]

/-- Assignments to different options may change places. -/
theorem setAll_swap {a b : String × ConfigValue} (h : a.1 ≠ b.1)
    (front back : List (String × ConfigValue)) (c : Config) :
    (c.setAll (front ++ a :: b :: back)).2 = (c.setAll (front ++ b :: a :: back)).2 := by
  refine setAll_congr (fun o => ?_) c
  rw [List.filterMap_append, List.filterMap_append]
  congr 1
  -- an option is named by at most one of the two
  by_cases ha : a.1 = o.name
  · have hb : o.accepted b = none := if_neg fun hb => h (ha.trans hb.symm)
    simp only [List.filterMap_cons, hb]
  · have ha : o.accepted a = none := if_neg ha
    simp only [List.filterMap_cons, ha]

/-! ### Checks after assignments -/

/-- Assignments do not lead out of the bounds. -/
theorem inBounds_setAll {c : Config} (h : c.InBounds) (calls : List (String × ConfigValue)) :
    (c.setAll calls).2.InBounds := by
  rw [inBounds_iff] at h ⊢
  intro o
  rw [setting_setAll]
  cases hlast : (calls.filterMap o.accepted).getLast? with
  | none => exact h o
  | some x =>
    obtain ⟨call, -, hx⟩ := List.mem_filterMap.mp (List.mem_of_getLast? hlast)
    unfold ConfigOption.accepted at hx
    split_ifs at hx
    cases hv : o.conversion call.2 with
    | error fault => simp [hv, Except.toOption] at hx
    | ok y =>
      obtain rfl : y = x := by simpa [hv, Except.toOption] using hx
      exact ConfigOption.admits_of_conversion hv

/-- The values that hold at the start are within bounds. -/
theorem inBounds_initial (hostname : String) : (initial hostname).InBounds where
  durations o := by
    show o.admits o.initial = true
    cases o <;> decide
  counts o := by
    show o.admits o.initial = true
    cases o <;> decide
  jitter := by
    show (Double.ofRatio false 3 10).inUnitInterval = true
    decide +kernel

/-- The heartbeat is too slow for the read timeout, or something is wanted that is not supported. -/
def Conflicted (c : Config) : Prop :=
  c.durations .readTimeout ≤ c.durations .heartbeatInterval ∨ c.flags .snappy = true ∨
    c.flags .tls = true

theorem checkTogether_cases (c : Config) :
    (¬ c.Conflicted ∧ c.checkTogether = .ok ()) ∨
      (c.Conflicted ∧ ∃ fault : ConfigFault, fault.isJoint = true ∧
        c.checkTogether = .error fault) := by
  unfold checkTogether Conflicted
  dsimp only
  split_ifs with hslow htwo hsnappy htls
  · exact .inr ⟨.inl hslow, _, rfl, rfl⟩
  · exact .inr ⟨.inr (.inl htwo.2), _, rfl, rfl⟩
  · exact .inr ⟨.inr (.inl hsnappy), _, rfl, rfl⟩
  · exact .inr ⟨.inr (.inr htls), _, rfl, rfl⟩
  · refine .inl ⟨?_, rfl⟩
    rintro (h | h | h)
    · exact hslow h
    · exact hsnappy h
    · exact htls h

/-- **Options are set one by one, and checked alike.** What becomes of each assignment depends on
its name and its value alone; an option holds in the end what it accepted last, or what it held at
the start; and assignments to different options may change places. After any assignments to the
values that hold at the start no option is out of bounds: the configuration is refused exactly if
the heartbeat is too slow for the read timeout, or snappy or encryption is wanted, and always for
one of these reasons. -/
theorem setAll_option_by_option (calls : List (String × ConfigValue)) :
    (∀ c : Config, (c.setAll calls).1 = calls.map verdict) ∧
    (∀ (c : Config) (o : ConfigOption),
      (c.setAll calls).2.setting o = (calls.filterMap o.accepted).getLast?.getD (c.setting o)) ∧
    (∀ (c : Config) (a b : String × ConfigValue) (back : List (String × ConfigValue)),
      a.1 ≠ b.1 →
        (c.setAll (calls ++ a :: b :: back)).2 = (c.setAll (calls ++ b :: a :: back)).2) ∧
    ∀ hostname : String,
      let g := ((initial hostname).setAll calls).2
      (¬ g.Conflicted ∧ g.validate = .ok ()) ∨
        (g.Conflicted ∧ ∃ fault : ConfigFault, fault.isJoint = true ∧
          g.validate = .error fault) := by
  refine ⟨fun c => setAll_verdicts c calls, fun c => setting_setAll c calls,
    fun c a b back h => setAll_swap h calls back c, fun hostname => ?_⟩
  have hbounds := inBounds_setAll (inBounds_initial hostname) calls
  dsimp only
  rw [validate_of_inBounds hbounds]
  exact checkTogether_cases _

end Config

end Nsq
