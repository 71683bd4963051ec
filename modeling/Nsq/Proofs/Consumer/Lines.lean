import Nsq.Proofs.Consumer.Meter
import Nsq.Proofs.Consumer.Told

/-!
# What follows from an act

An act on a consumer may deal credit out or concern the table of links; whatever else happens in a
step does so only by the way, in links that are refilled and signals about the pace that are heard.
This file takes a step apart accordingly: the act comes first if it is a direct one, and the rest is
made of **stirs** (`step_stirs`). A stir refills a link, hears a signal, or is `Still`, so that
neither pace nor budget is concerned and no daemon is told anything.

The lines that daemons are told are then looked at stir by stir: `Adds P c c'` says that all lines
which are new in `c'` are as `P` says.
-/

namespace Nsq.Consumer

variable {c c' c'' : Consumer} {P : Nat → Int → Prop}

/-! ### Lines that are new -/

/-- Every line over a link that `c'` has and `c` has not is as `P` says. -/
def Adds (P : Nat → Int → Prop) (c c' : Consumer) : Prop :=
  ∀ i, ∃ ns, c'.told i = c.told i ++ ns ∧ ∀ n ∈ ns, P i n

namespace Adds

theorem of_told (h : ∀ i, c'.told i = c.told i) : Adds P c c' := fun i =>
  ⟨[], by rw [h, List.append_nil], List.forall_mem_nil _⟩

theorem refl (c : Consumer) : Adds P c c := of_told fun _ => rfl

theorem trans (h : Adds P c c') (h' : Adds P c' c'') : Adds P c c'' := by
  intro i
  obtain ⟨ns, ht, hns⟩ := h i
  obtain ⟨ns', ht', hns'⟩ := h' i
  refine ⟨ns ++ ns', by rw [ht', ht, List.append_assoc], fun n hn => ?_⟩
  exact (List.mem_append.mp hn).elim (hns n) (hns' n)

theorem mono {Q : Nat → Int → Prop} (h : Adds P c c') (hPQ : ∀ i n, P i n → Q i n) :
    Adds Q c c' := by
  intro i
  obtain ⟨ns, ht, hns⟩ := h i
  exact ⟨ns, ht, fun n hn => hPQ i n (hns n hn)⟩

/-- A grant adds what its daemon hears of it. -/
theorem updateRdy {i : Nat} {count : Int}
    (h : ∀ conn, c.conn? i = some conn → c.Hears conn count → P i (c.allotment conn count)) :
    Adds P c (c.updateRdy i count).2 := by
  intro j
  by_cases hji : j = i
  · subst hji
    cases hi : c.conn? j with
    | none => exact ⟨[], by rw [Consumer.updateRdy, hi, List.append_nil], List.forall_mem_nil _⟩
    | some conn =>
      by_cases hh : c.Hears conn count
      · exact ⟨_, told_updateRdy_of_hears hi hh, List.forall_mem_singleton.mpr (h conn hi hh)⟩
      · exact ⟨[], by rw [told_updateRdy_of_not_hears hi hh, List.append_nil],
          List.forall_mem_nil _⟩
  · exact ⟨[], by rw [told_updateRdy_of_ne hji, List.append_nil], List.forall_mem_nil _⟩

/-- A line of a run is an old one, or it is one of those that are added. -/
theorem line_cases {P : Nat → Int → Prop} (h : Adds P c c') {i : Nat} {before after : List Int}
    {n : Int} (ht : c'.told i = before ++ n :: after) :
    (∃ after', c.told i = before ++ n :: after') ∨ c.told i <+: before ∧ P i n := by
  obtain ⟨ns, hns, hP⟩ := h i
  rw [hns] at ht
  rcases List.append_eq_append_iff.mp ht with ⟨as, rfl, rfl⟩ | ⟨bs, hl, hbs⟩
  · exact .inr ⟨List.prefix_append _ _, hP n (by simp)⟩
  · cases bs with
    | nil =>
      rw [List.append_nil] at hl
      rw [List.nil_append] at hbs
      exact .inr ⟨hl ▸ List.prefix_rfl, hP n (hbs ▸ List.mem_cons_self)⟩
    | cons b bs =>
      obtain ⟨rfl, -⟩ := List.cons.inj hbs
      exact .inl ⟨bs, hl⟩

end Adds

/-! ### Stirs -/

/-- Neither pace nor budget is concerned, nothing is added to be tried again, and daemons are told
nothing. -/
structure Still (c c' : Consumer) : Prop extends SameBeat c c' where
  maxInFlight : c'.maxInFlight = c.maxInFlight
  retries : ∀ e ∈ c'.retries, e ∈ c.retries
  links : Continues Link.Untold c c'

theorem Still.of_links (hb : SameBeat c c') (hm : c'.maxInFlight = c.maxInFlight)
    (hr : c'.retries = c.retries) (hl : c'.links = c.links) : Still c c' :=
  ⟨hb, hm, fun _ he => hr ▸ he, .of_links Link.Untold.refl hl⟩

theorem Still.modifyLink {i : Nat} {f : Link → Link}
    (h : ∀ l, c.links[i]? = some l → l.Untold (f l)) : Still c (c.modifyLink i f) :=
  ⟨⟨rfl, rfl, rfl⟩, rfl, fun _ => id, .modifyLink Link.Untold.refl h⟩

theorem Still.adds (h : Still c c') : Adds P c c' := .of_told h.links.told

/-- What an act leads to: a link is refilled, a signal is heard, or nothing of the kind. -/
inductive Stir (c : Consumer) : Consumer → Prop
  | refill (i : Nat) : Stir c (c.refill i)
  | signal (chance : Nat → Nat) (s : Signal) : Stir c (c.signal chance s)
  | still {c' : Consumer} (h : Still c c') : Stir c c'

/-- A sequence of stirs. -/
abbrev Stirs : Consumer → Consumer → Prop := Relation.ReflTransGen Stir

/-- An act that neither deals credit out nor concerns the table of links. -/
def Indirect (_ : Surroundings) (a : Act) (_ : Consumer) : Prop := a.isDirect = false

theorem stirs_passAnswer (chance : Nat → Nat) (i : Nat) (m : Message) (a : Answer) (c : Consumer) :
    Stirs c (c.passAnswer chance i m a) := by
  refine passAnswer_invariant .refl ?_ ?_ ?_ ?_
  · intro conn hi
    refine .single (.still (.modifyLink fun l hl => ?_))
    obtain rfl := conn_eq_of_links hl hi
    exact ⟨rfl, rfl, rfl, rfl, id⟩
  · intro d hd
    cases a <;> exact hd.tail (.still (.of_links ⟨rfl, rfl, rfl⟩ rfl rfl rfl))
  · exact fun d hd => hd.tail (.signal chance a.signal)
  · refine fun d hd => hd.tail (.still (.modifyLink fun l _ => ?_))
    have hs := Connection.steady_sendAnswer m a l.conn
    exact ⟨Connection.told_sendAnswer m a l.conn, hs.lastRdy, hs.maxRdy, hs.policy, hs.closing⟩

theorem still_settleLink (i : Nat) (c : Consumer) : Still c (c.settleLink i) := by
  suffices h : SameBeat c (c.settleLink i) ∧ (c.settleLink i).maxInFlight = c.maxInFlight ∧
      ∀ e ∈ (c.settleLink i).retries, e ∈ c.retries from
    ⟨h.1, h.2.1, h.2.2, continues_settleLink i c⟩
  cases hi : c.conn? i with
  | none =>
    rw [settleLink_of_none hi]
    exact ⟨.refl c, rfl, fun _ => id⟩
  | some conn =>
    rcases settleLink_cases hi with ⟨heq, -⟩ | ⟨-, -, hr⟩
    · rw [heq]
      exact ⟨⟨rfl, rfl, rfl⟩, rfl, fun _ => id⟩
    · exact ⟨⟨hr.level, hr.pause, hr.armed⟩, hr.maxInFlight, fun e he => (hr.retries e he).2⟩

/-- A new link enters the table. -/
theorem still_welcome {l : Link} (h : l.Silent) : Still c (c.welcome l) :=
  ⟨⟨rfl, rfl, rfl⟩, rfl, fun _ => id,
    (Continues.openLink (c := c) Link.Untold.refl h).congr rfl rfl⟩

/-- A move is made of stirs, or it is an act that deals credit out or concerns the table of
links. -/
theorem Move.stirs_or_direct {ok : Surroundings → Act → Consumer → Prop} (h : Move ok c c') :
    Stirs c c' ∨ ∃ env a, ok env a c ∧ a.isDirect = true ∧ c' = (c.act env a).2 := by
  cases h with
  | @direct env a h ha => exact .inr ⟨env, a, h, ha, rfl⟩
  | note hn =>
    exact .inl (.single (.still (.of_links ⟨hn.level, hn.pause, hn.armed⟩ hn.maxInFlight hn.retries
      hn.links)))
  | adjust hq =>
    refine .inl (.single (.still (.modifyLink fun l hl => ?_)))
    have hs := (hq l hl).steady
    exact ⟨(hq l hl).told, hs.lastRdy, hs.maxRdy, hs.policy, hs.closing⟩
  | refill i => exact .inl (.single (.refill i))
  | signal chance s => exact .inl (.single (.signal chance s))
  | respread => exact .inl (.single (.still (.of_links ⟨rfl, rfl, rfl⟩ rfl rfl rfl)))
  | stop => exact .inl (.single (.still (.of_links ⟨rfl, rfl, rfl⟩ rfl rfl rfl)))
  | reject hl _ ht =>
    exact .inl (.single (.still ⟨⟨rfl, rfl, rfl⟩, rfl, fun _ => id,
      .openLink Link.Untold.refl (hl.silent rfl ht)⟩))
  | join hl _ ht =>
    exact .inl (.single (.still (still_welcome (hl.silent rfl ht))))
  | arrive m rest hi =>
    exact .inl (.single (.still ⟨⟨rfl, rfl, rfl⟩, rfl, fun _ => id, continues_takeIn hi m rest⟩))
  | bounce i m a => exact .inl (stirs_passAnswer _ i m a c)
  | @take o rest =>
    have ho : Stir c { c with
        offers := rest
        handed := c.handed ++ [{ message := o.message, link := o.link }] } :=
      .still (.of_links ⟨rfl, rfl, rfl⟩ rfl rfl rfl)
    exact .inl ((Relation.ReflTransGen.single ho).tail
      (.still (.modifyLink fun l _ => ⟨rfl, rfl, rfl, rfl, id⟩)))
  | @answer _ n d a =>
    have hp : Stir c (c.putState n { d.state with responded := true }) :=
      .still (.of_links ⟨rfl, rfl, rfl⟩ rfl rfl rfl)
    exact .inl ((Relation.ReflTransGen.single hp).trans (stirs_passAnswer _ _ _ a _))
  | settle i => exact .inl (.single (.still (still_settleLink i c)))

theorem Move.stirs (h : Move Indirect c c') : Stirs c c' := by
  refine h.stirs_or_direct.resolve_right ?_
  rintro ⟨env, a, hindirect, ha, -⟩
  exact absurd (hindirect.symm.trans ha) (by decide)

theorem stirs_of_moves (h : Moves Indirect c c') : Stirs c c' :=
  moves_invariant h (fun _ _ hs hm => Relation.ReflTransGen.trans hs (Move.stirs hm)) .refl

/-- **A step is made of stirs**, but for an act that deals credit out or concerns the table of
links. -/
theorem step_stirs (env : Surroundings) (a : Act) (c : Consumer) :
    Stirs c (c.step env a).2 ∨ a.isDirect = true ∧ Stirs (c.act env a).2 (c.step env a).2 := by
  cases ha : a.isDirect with
  | true => exact .inr ⟨rfl, stirs_of_moves ((moves_work env.chance _).trans (moves_settle _))⟩
  | false =>
    have hmoves : Moves Indirect c (c.step env a).2 := step_moves ha
    exact .inl (stirs_of_moves hmoves)

/-- Acts of the consumer's own, in which links are new when they are attached. -/
def Ordinary (env : Surroundings) (a : Act) (c : Consumer) : Prop := Own env a c ∧ Proper env a c

theorem still_attach {env : Surroundings} {link : Link} (h : Ordinary env (.attach link) c) :
    Still c (c.act env (.attach link)).2 :=
  still_welcome (h.2.1.silent rfl h.2.2)

end Nsq.Consumer
