import Nsq.Message.Holders
import Mathlib.Tactic.ByContra
import Mathlib.Tactic.SplitIfs

/-!
# Holders that race for the answer

However many holders make calls on copies of one message, and whatever the order in which they take
their turns, the connection is told at most one final answer: the one of the holder that was the
first to look at the state of the answers (`Holders.one_answer`).

A final answer looks at the state and takes it in a single action, so the first look decides
(`Decided`): as long as nobody has looked nothing was answered; from then on the answer of the first
is on its way or has arrived, and there is no other. A call that is begun once the state is taken
finds it taken, for it never becomes free again, and nothing of it arrives (`Late`).
-/

namespace Nsq

/-! ### Final answers -/

/-- Whether a request is a final answer. -/
def Request.isFinal : Request → Bool
  | .answer _ => true
  | .touch => false

/-- The call of which a request is what passes. -/
def Request.call : Request → Call
  | .answer a => .answer a
  | .touch => .touch

/-- Whether a call gives a final answer. -/
def Call.isFinal : Call → Bool
  | .answer _ => true
  | _ => false

@[simp] theorem Request.isFinal_call (r : Request) : r.call.isFinal = r.isFinal := by
  cases r <;> rfl

/-- A call is ignored, which it is unless no final answer was given before, or it passes. -/
theorem Answered.call_cases (s : Answered) (k : Call) :
    (∃ s', s.call k = (none, s') ∧ s'.responded = s.responded ∧
        (k.isFinal = true → s.responded = true)) ∨
      ∃ r s', k = r.call ∧ s.responded = false ∧ s.call k = (some r, s') ∧
        s'.responded = r.isFinal := by
  cases k with
  | answer a =>
    cases h : s.responded with
    | true => exact .inl ⟨s, by simp [call, h], h, fun _ => rfl⟩
    | false =>
      exact .inr ⟨.answer a, { s with responded := true }, rfl, rfl, by simp [call, h], rfl⟩
  | touch =>
    cases h : s.responded with
    | true => exact .inl ⟨s, by simp [call, h], h, fun _ => rfl⟩
    | false => exact .inr ⟨.touch, s, rfl, rfl, by simp [call, h], h⟩
  | disableAuto => exact .inl ⟨{ s with manual := true }, rfl, rfl, nofun⟩

/-- The look of a final answer at the state, whether or not it is the first; `i` and `n` are the
places of the holder and of the call. -/
def CopyCall.look (i n : Nat) (c : CopyCall) : Option Receipt :=
  match c.call with
  | .answer a => some ⟨i, n, .answer a⟩
  | _ => none

theorem CopyCall.look_of_not_final {i n : Nat} {c : CopyCall} (h : c.call.isFinal = false) :
    c.look i n = none := by
  unfold look
  cases hc : c.call <;> simp_all [Call.isFinal]

theorem CopyCall.look_of_final {i n : Nat} {c : CopyCall} {r : Request} (hc : c.call = r.call)
    (hr : r.isFinal = true) : c.look i n = some ⟨i, n, r⟩ := by
  cases r with
  | answer a => simp [look, hc, Request.call]
  | touch => exact absurd hr Bool.false_ne_true

namespace Holder

/-- All calls of a holder, in order. -/
def calls (h : Holder) : List CopyCall := h.done ++ h.stage.current.toList ++ h.left

/-- How many calls a holder has begun. -/
def begun (h : Holder) : Nat := h.done.length + h.stage.current.toList.length

/-- Whether a final answer of the holder is under way. -/
def isAnswering (h : Holder) : Bool := h.stage.current.any fun c => c.call.isFinal

/-- Whether the connection is being told a final answer of the holder. -/
def isTelling (h : Holder) : Bool :=
  match h.stage with
  | .passing _ r => r.isFinal
  | _ => false

end Holder

namespace Holders

variable {g g' : Holders} {h h' : Holder} {i : Nat} {is : List Nat} {xs : List Receipt}

/-- The final answers that the connection was told. -/
def answers (g : Holders) : List Receipt := g.received.filter fun e => e.request.isFinal

/-- The look of a final answer in the next turn of the holder at `i`. -/
def look (i : Nat) (g : Holders) : Option Receipt :=
  match g.each[i]? with
  | some ⟨done, .entered c, _⟩ => c.look i done.length
  | _ => none

/-- The looks of final answers while holders take turns, in order. -/
def looks (g : Holders) : List Nat → List Receipt
  | [] => []
  | i :: is => (g.look i).toList ++ (g.turn i).looks is

/-- Every call is made on a copy whose calls go to the connection, and what is on its way is what
passed of the call. -/
structure Proper (g : Holders) : Prop where
  attached : ∀ h ∈ g.each, ∀ c ∈ h.calls, g.copies.items[c.copy]?.any fun x => x.attached
  passing : ∀ h ∈ g.each, ∀ {c r}, h.stage = .passing c r → c.call = r.call

/-! ### Turns -/

theorem each_put (hi : g.each[i]? = some h) (x : Holder) (j : Nat) :
    (g.put i x).each[j]? = if j = i then some x else g.each[j]? := by
  obtain ⟨hlt, -⟩ := List.getElem?_eq_some_iff.mp hi
  rw [put, List.getElem?_set, if_pos hlt]
  simp only [eq_comm]

theorem forall_put {P : Holder → Prop} (hi : g.each[i]? = some h) :
    (∀ x ∈ (g.put i h').each, P x) ↔
      P h' ∧ ∀ {j x}, j ≠ i → g.each[j]? = some x → P x := by
  have hput := each_put hi h'
  constructor
  · refine fun hall => ⟨hall h' ?_, fun {j x} hj hx => hall x ?_⟩
    · exact List.mem_of_getElem? ((hput i).trans (if_pos rfl))
    · refine List.mem_of_getElem? (i := j) ?_
      rw [hput, if_neg hj, hx]
  · rintro ⟨hh, hrest⟩ x hx
    obtain ⟨j, hj⟩ := List.getElem?_of_mem hx
    rw [hput] at hj
    split_ifs at hj with heq
    · exact Option.some.inj hj ▸ hh
    · exact hrest heq hj

/-- What the turn of a holder can do. -/
inductive Turn (i : Nat) (g : Holders) : Option Receipt → Holders → Prop
  /-- There is nothing to do. -/
  | rest : Turn i g none g
  /-- A call begins. -/
  | enter {h : Holder} {c : CopyCall} {left : List CopyCall} (hi : g.each[i]? = some h)
      (hs : h.stage = .idle) (hl : h.left = c :: left) :
      Turn i g none (g.put i { h with stage := .entered c, left := left })
  /-- A call is ignored and returns. -/
  | ignored {h : Holder} {c : CopyCall} {s : Answered} (hi : g.each[i]? = some h)
      (hs : h.stage = .entered c) (hr : s.responded = g.copies.state.responded)
      (hf : c.call.isFinal = true → g.copies.state.responded = true) :
      Turn i g (c.look i h.done.length)
        { g.put i { h with done := h.done ++ [c], stage := .idle } with
          copies := { g.copies with state := s } }
  /-- A call passes. -/
  | passed {h : Holder} {c : CopyCall} {r : Request} {s : Answered} (hi : g.each[i]? = some h)
      (hs : h.stage = .entered c) (hc : c.call = r.call) (hn : g.copies.state.responded = false)
      (hr : s.responded = r.isFinal) :
      Turn i g (c.look i h.done.length)
        { g.put i { h with stage := .passing c r } with
          copies := { g.copies with state := s } }
  /-- The connection is told what passed, and the call returns. -/
  | told {h : Holder} {c : CopyCall} {r : Request} (hi : g.each[i]? = some h)
      (hs : h.stage = .passing c r) (hc : c.call = r.call) :
      Turn i g none
        { g.put i { h with done := h.done ++ [c], stage := .idle } with
          received := g.received ++ [⟨i, h.done.length, r⟩] }

section Turns

variable {done left : List CopyCall} {c : CopyCall} {r : Request} {s : Answered}

theorem turn_of_idle (hi : g.each[i]? = some ⟨done, .idle, c :: left⟩) :
    g.turn i = g.put i ⟨done, .entered c, left⟩ := by
  simp [turn, hi]

theorem turn_of_ignored (hi : g.each[i]? = some ⟨done, .entered c, left⟩)
    (hk : g.copies.state.call c.call = (none, s)) :
    g.turn i =
      { g.put i ⟨done ++ [c], .idle, left⟩ with copies := { g.copies with state := s } } := by
  simp [turn, hi, Copies.call, hk]

theorem turn_of_passed (hg : g.Proper) (hi : g.each[i]? = some ⟨done, .entered c, left⟩)
    (hk : g.copies.state.call c.call = (some r, s)) :
    g.turn i =
      { g.put i ⟨done, .passing c r, left⟩ with copies := { g.copies with state := s } } := by
  have hat := hg.attached _ (List.mem_of_getElem? hi) c (by simp [Holder.calls, Stage.current])
  simp [turn, hi, Copies.call, hk, hat]

theorem turn_of_passing (hi : g.each[i]? = some ⟨done, .passing c r, left⟩) :
    g.turn i =
      { g.put i ⟨done ++ [c], .idle, left⟩ with
        received := g.received ++ [⟨i, done.length, r⟩] } := by
  simp [turn, hi]

end Turns

/-- Every turn is one of these. -/
theorem turn_cases (hg : g.Proper) (i : Nat) : Turn i g (g.look i) (g.turn i) := by
  unfold look
  cases hi : g.each[i]? with
  | none =>
    rw [turn, hi]
    exact .rest
  | some h =>
    obtain ⟨done, stage, left⟩ := h
    cases stage with
    | idle =>
      cases left with
      | nil =>
        rw [turn, hi]
        exact .rest
      | cons c left =>
        rw [turn_of_idle hi]
        exact .enter hi rfl rfl
    | entered c =>
      rcases g.copies.state.call_cases c.call with ⟨s, hk, hr, hf⟩ | ⟨r, s, hc, hn, hk, hr⟩
      · rw [turn_of_ignored hi hk]
        exact .ignored hi rfl hr hf
      · rw [turn_of_passed hg hi hk]
        exact .passed hi rfl hc hn hr
    | passing c r =>
      rw [turn_of_passing hi]
      exact .told hi rfl (hg.passing _ (List.mem_of_getElem? hi) rfl)

theorem calls_put (hi : g.each[i]? = some h) (hcalls : h'.calls = h.calls) (j : Nat) :
    (g.put i h').each[j]?.map Holder.calls = g.each[j]?.map Holder.calls := by
  rw [each_put hi]
  split_ifs with hj
  · rw [hj, hi, Option.map_some, Option.map_some, hcalls]
  · rfl

/-- No turn changes what a holder has done, does and will do, all taken together. -/
theorem Turn.calls {e : Option Receipt} (t : Turn i g e g') (j : Nat) :
    g'.each[j]?.map Holder.calls = g.each[j]?.map Holder.calls := by
  cases t with
  | rest => rfl
  | enter hi hs hl => exact calls_put hi (by simp [Holder.calls, hs, hl, Stage.current]) j
  | ignored hi hs _ _ => exact calls_put hi (by simp [Holder.calls, hs, Stage.current]) j
  | passed hi hs _ _ _ => exact calls_put hi (by simp [Holder.calls, hs, Stage.current]) j
  | told hi hs _ => exact calls_put hi (by simp [Holder.calls, hs, Stage.current]) j

theorem Turn.items {e : Option Receipt} (t : Turn i g e g') :
    g'.copies.items = g.copies.items := by
  cases t <;> rfl

theorem Turn.proper {e : Option Receipt} (t : Turn i g e g') (hg : g.Proper) : g'.Proper := by
  constructor
  · intro h hh c hc
    obtain ⟨j, hj⟩ := List.getElem?_of_mem hh
    have hcalls := t.calls j
    rw [hj, Option.map_some, eq_comm, Option.map_eq_some_iff] at hcalls
    obtain ⟨h₀, hj₀, heq⟩ := hcalls
    rw [t.items]
    exact hg.attached h₀ (List.mem_of_getElem? hj₀) c (heq ▸ hc)
  · have hrest : ∀ {j x}, j ≠ i → g.each[j]? = some x → ∀ {c r}, x.stage = .passing c r →
        c.call = r.call := fun _ hx => hg.passing _ (List.mem_of_getElem? hx)
    cases t with
    | rest => exact hg.passing
    | enter hi hs hl => exact (forall_put hi).mpr ⟨nofun, hrest⟩
    | ignored hi hs _ _ => exact (forall_put hi).mpr ⟨nofun, hrest⟩
    | passed hi hs hc _ _ =>
      refine (forall_put hi).mpr ⟨fun {c r} heq => ?_, hrest⟩
      obtain ⟨rfl, rfl⟩ := Stage.passing.inj heq
      exact hc
    | told hi hs _ => exact (forall_put hi).mpr ⟨nofun, hrest⟩

/-- What every turn keeps holds all along, the looks of final answers being added as they happen. -/
theorem run_invariant {P : List Receipt → Holders → Prop}
    (hstep : ∀ {xs g i e g'}, P xs g → Turn i g e g' → P (xs ++ e.toList) g')
    (hg : g.Proper) (xs : List Receipt) (h : P xs g) (is : List Nat) :
    (g.run is).Proper ∧ P (xs ++ g.looks is) (g.run is) := by
  induction is generalizing g xs with
  | nil => exact ⟨hg, by rwa [looks, List.append_nil]⟩
  | cons i is ih =>
    have t := turn_cases hg i
    rw [run, looks, ← List.append_assoc]
    exact ih (t.proper hg) _ (hstep h t)

/-! ### The first look decides -/

/-- What the looks of final answers so far have decided. -/
structure Decided (xs : List Receipt) (g : Holders) : Prop where
  taken : g.copies.state.responded = true ↔ xs ≠ []
  done : ∀ h ∈ g.each, ∀ c ∈ h.done, c.call.isFinal = true → xs ≠ []
  telling : ∀ {i h c r}, g.each[i]? = some h → h.stage = .passing c r → r.isFinal = true →
    xs.head? = some ⟨i, h.done.length, r⟩ ∧ g.answers = []
  told : (∀ h ∈ g.each, h.isTelling = false) → g.answers = xs.head?.toList

/-- As long as nobody has looked, no final answer is on its way and none has arrived. -/
theorem Decided.of_untaken (hd : Decided [] g) :
    (∀ h ∈ g.each, h.isTelling = false) ∧ g.answers = [] := by
  have hquiet : ∀ h ∈ g.each, h.isTelling = false := by
    intro h hh
    obtain ⟨j, hj⟩ := List.getElem?_of_mem hh
    rw [Bool.eq_false_iff]
    intro ht
    unfold Holder.isTelling at ht
    split at ht
    · rename_i c r hs
      exact absurd (hd.telling hj hs ht).1 nofun
    · exact Bool.false_ne_true ht
  exact ⟨hquiet, hd.told hquiet⟩

/-- A turn decides nothing if no final answer is on its way from the holder, before or after, and if
a final answer that looks or returns in it is not the first one to look. -/
theorem Decided.put_of_quiet {e : Option Receipt} (hd : Decided xs g) (hi : g.each[i]? = some h)
    (hq : h.isTelling = false) (hq' : h'.isTelling = false) (heach : g'.each = (g.put i h').each)
    (hanswers : g'.answers = g.answers)
    (hstate : g'.copies.state.responded = g.copies.state.responded) (he : e = none ∨ xs ≠ [])
    (hdone : ∀ c ∈ h'.done, c.call.isFinal = true → xs ≠ [] ∨ c ∈ h.done) :
    Decided (xs ++ e.toList) g' := by
  have hhead : (xs ++ e.toList).head? = xs.head? := by
    rcases he with rfl | hne
    · rw [Option.toList_none, List.append_nil]
    · obtain ⟨x, xs, rfl⟩ := List.exists_cons_of_ne_nil hne
      rfl
  have hnil : xs ++ e.toList ≠ [] ↔ xs ≠ [] := by
    rw [Ne, ← List.head?_eq_none_iff, hhead, List.head?_eq_none_iff]
  refine ⟨?_, ?_, ?_, ?_⟩
  · rw [hstate, hnil]
    exact hd.taken
  · rw [heach, hnil, forall_put hi]
    refine ⟨fun c hc hf => (hdone c hc hf).elim id fun hc => ?_, fun _ hx c hc hf => ?_⟩
    · exact hd.done h (List.mem_of_getElem? hi) c hc hf
    · exact hd.done _ (List.mem_of_getElem? hx) c hc hf
  · intro j x c r hx hs hr
    rw [heach, each_put hi] at hx
    rw [hhead, hanswers]
    split_ifs at hx
    · obtain rfl := Option.some.inj hx
      simp [Holder.isTelling, hs, hr] at hq'
    · exact hd.telling hx hs hr
  · rw [heach, forall_put hi, hhead, hanswers]
    rintro ⟨-, hrest⟩
    refine hd.told fun x hx => ?_
    obtain ⟨j, hj⟩ := List.getElem?_of_mem hx
    by_cases heq : j = i
    · obtain rfl := Option.some.inj (hi.symm.trans (heq ▸ hj))
      exact hq
    · exact hrest heq hj

theorem Decided.turn {e : Option Receipt} (hd : Decided xs g) (t : Turn i g e g') :
    Decided (xs ++ e.toList) g' := by
  cases t with
  | rest => simpa using hd
  | enter hi hs hl =>
    refine hd.put_of_quiet hi ?_ rfl rfl rfl rfl (.inl rfl) fun c hc _ => .inr hc
    simp [Holder.isTelling, hs]
  | @ignored h c s hi hs hr hf =>
    have hfinal : c.call.isFinal = true → xs ≠ [] := fun hfin => hd.taken.mp (hf hfin)
    refine hd.put_of_quiet hi ?_ rfl rfl rfl hr ?_ fun c' hc' hfin => ?_
    · simp [Holder.isTelling, hs]
    · cases hfin : c.call.isFinal with
      | true => exact .inr (hfinal hfin)
      | false => exact .inl (CopyCall.look_of_not_final hfin)
    · rw [List.mem_append, List.mem_singleton] at hc'
      exact hc'.elim .inr fun heq => .inl (hfinal (heq ▸ hfin))
  | @passed h c r s hi hs hc hn hr =>
    have hquiet : h.isTelling = false := by simp [Holder.isTelling, hs]
    cases hfin : r.isFinal with
    | false =>
      -- a request for time takes nothing
      have hquiet' : Holder.isTelling { h with stage := .passing c r } = false := hfin
      refine hd.put_of_quiet hi hquiet hquiet' rfl rfl (by rw [hr, hfin, hn]) (.inl ?_)
        fun c hc _ => .inr hc
      exact CopyCall.look_of_not_final (by rw [hc, Request.isFinal_call, hfin])
    | true =>
      -- the first look of a final answer
      obtain rfl : xs = [] := by
        by_contra hne
        exact Bool.false_ne_true (hn.symm.trans (hd.taken.mpr hne))
      obtain ⟨hall, hnone⟩ := hd.of_untaken
      rw [CopyCall.look_of_final hc hfin]
      refine ⟨by simp [hr, hfin], fun _ _ _ _ _ => by simp, ?_, ?_⟩
      · intro j x c' r' hx hs' hr'
        rw [each_put hi] at hx
        split_ifs at hx with hj
        · obtain rfl := Option.some.inj hx
          obtain ⟨rfl, rfl⟩ : c = c' ∧ r = r' := by simpa using hs'
          exact ⟨by rw [hj]; rfl, hnone⟩
        · have hother := hall x (List.mem_of_getElem? hx)
          simp [Holder.isTelling, hs', hr'] at hother
      · intro htold
        have htelling := ((forall_put hi).mp htold).1
        simp [Holder.isTelling, hfin] at htelling
  | @told h c r hi hs hc =>
    cases hfin : r.isFinal with
    | false =>
      -- a request for time is no answer
      have hquiet' : Holder.isTelling { h with done := h.done ++ [c], stage := .idle } = false :=
        rfl
      refine hd.put_of_quiet hi ?_ hquiet' rfl ?_ rfl (.inl rfl) fun c' hc' hf => ?_
      · simp [Holder.isTelling, hs, hfin]
      · simp [answers, hfin]
      · rw [List.mem_append, List.mem_singleton] at hc'
        refine .inr (hc'.resolve_right fun heq => ?_)
        rw [heq, hc, Request.isFinal_call, hfin] at hf
        exact Bool.false_ne_true hf
    | true =>
      obtain ⟨hhead, hnone⟩ := hd.telling hi hs hfin
      have hne : xs ≠ [] := fun hnil => by simp [hnil] at hhead
      rw [Option.toList_none, List.append_nil]
      refine ⟨hd.taken, fun _ _ _ _ _ => hne, ?_, fun _ => ?_⟩
      · -- another answer on its way would have been the first to look as well
        intro j x c' r' hx hs' hr'
        rw [each_put hi] at hx
        split_ifs at hx with hj
        · obtain rfl := Option.some.inj hx
          simp at hs'
        · have hsame := hhead.symm.trans (hd.telling hx hs' hr').1
          simp only [Option.some.injEq, Receipt.mk.injEq] at hsame
          exact absurd hsame.1.symm hj
      · rw [hhead, answers, List.filter_append]
        rw [answers] at hnone
        simp [hnone, hfin]

/-- However many final answers are on their way, one at the most arrives. -/
theorem Decided.length_answers_le (hd : Decided xs g) : g.answers.length ≤ 1 := by
  by_cases hall : ∀ h ∈ g.each, h.isTelling = false
  · rw [hd.told hall]
    cases xs.head? <;> simp
  · simp only [not_forall, Bool.not_eq_false] at hall
    obtain ⟨h, hh, ht⟩ := hall
    obtain ⟨j, hj⟩ := List.getElem?_of_mem hh
    unfold Holder.isTelling at ht
    split at ht
    · rename_i c r hs
      rw [(hd.telling hj hs ht).2]
      exact Nat.zero_le 1
    · exact absurd ht Bool.false_ne_true

/-! ### What arrives was called for -/

/-- What the connection was told passed of calls that have returned. -/
def Genuine (g : Holders) : Prop :=
  ∀ e ∈ g.received, ∃ h c, g.each[e.holder]? = some h ∧ h.done[e.number]? = some c ∧
    c.call = e.request.call

theorem Genuine.put (hg : g.Genuine) (hi : g.each[i]? = some h)
    (heach : g'.each = (g.put i h').each) (hreceived : g'.received = g.received)
    (hdone : h.done <+: h'.done) : g'.Genuine := by
  intro e he
  rw [hreceived] at he
  obtain ⟨x, c, hx, hc, heq⟩ := hg e he
  rw [heach, each_put hi]
  split_ifs with hj
  · obtain rfl := Option.some.inj (hi.symm.trans (hj ▸ hx))
    obtain ⟨more, hmore⟩ := hdone
    obtain ⟨hlt, -⟩ := List.getElem?_eq_some_iff.mp hc
    refine ⟨h', c, rfl, ?_, heq⟩
    rwa [← hmore, List.getElem?_append_left hlt]
  · exact ⟨x, c, hx, hc, heq⟩

theorem Genuine.turn {e : Option Receipt} (hg : g.Genuine) (t : Turn i g e g') : g'.Genuine := by
  cases t with
  | rest => exact hg
  | enter hi _ _ => exact hg.put hi rfl rfl List.prefix_rfl
  | ignored hi _ _ _ => exact hg.put hi rfl rfl (List.prefix_append _ _)
  | passed hi _ _ _ _ => exact hg.put hi rfl rfl List.prefix_rfl
  | @told h c r hi hs hc =>
    have hold : Genuine (g.put i { h with done := h.done ++ [c], stage := .idle }) :=
      hg.put hi rfl rfl (List.prefix_append _ _)
    intro e he
    rcases List.mem_append.mp he with he | he
    · exact hold e he
    · obtain rfl := List.mem_singleton.mp he
      exact ⟨_, c, (each_put hi _ i).trans (if_pos rfl), List.getElem?_concat_length .., hc⟩

/-! ### Too late -/

/-- What has become of holders since the state of the answers was taken: whatever arrives, or is on
its way, was begun before. -/
structure Late (g₀ g : Holders) : Prop where
  taken : g.copies.state.responded = true
  passing : ∀ {j : Nat} {h₀ h : Holder} {c r}, g₀.each[j]? = some h₀ → g.each[j]? = some h →
    h.stage = .passing c r → h.done.length < h₀.begun
  received : ∀ e ∈ g.received, ∀ h₀, g₀.each[e.holder]? = some h₀ → e.number < h₀.begun

theorem Genuine.late (hg : g.Genuine) (ht : g.copies.state.responded = true) : Late g g where
  taken := ht
  passing h₀ h hs := by
    obtain rfl := Option.some.inj (h₀.symm.trans h)
    simp [Holder.begun, hs, Stage.current]
  received e he h₀ hi := by
    obtain ⟨h, c, hh, hc, -⟩ := hg e he
    obtain rfl := Option.some.inj (hi.symm.trans hh)
    obtain ⟨hlt, -⟩ := List.getElem?_eq_some_iff.mp hc
    exact Nat.lt_add_right _ hlt

theorem Late.put {g₀ : Holders} (hl : Late g₀ g) (hi : g.each[i]? = some h)
    (heach : g'.each = (g.put i h').each) (hreceived : g'.received = g.received)
    (hstate : g'.copies.state.responded = g.copies.state.responded)
    (hs : ∀ c r, h'.stage ≠ .passing c r) : Late g₀ g' where
  taken := hstate.trans hl.taken
  passing h₀ hx hp := by
    rw [heach, each_put hi] at hx
    split_ifs at hx
    · exact absurd (Option.some.inj hx ▸ hp) (hs _ _)
    · exact hl.passing h₀ hx hp
  received := hreceived ▸ hl.received

theorem Late.turn {g₀ : Holders} {e : Option Receipt} (hl : Late g₀ g) (t : Turn i g e g') :
    Late g₀ g' := by
  cases t with
  | rest => exact hl
  | enter hi _ _ => exact hl.put hi rfl rfl rfl nofun
  | ignored hi _ hr _ => exact hl.put hi rfl rfl hr nofun
  | passed _ _ _ hn _ => exact absurd (hn.symm.trans hl.taken) Bool.false_ne_true
  | @told h c r hi hs _ =>
    have hold : Late g₀ (g.put i { h with done := h.done ++ [c], stage := .idle }) :=
      hl.put hi rfl rfl rfl nofun
    refine ⟨hold.taken, hold.passing, fun e he h₀ hx => ?_⟩
    rcases List.mem_append.mp he with he | he
    · exact hold.received e he h₀ hx
    · obtain rfl := List.mem_singleton.mp he
      exact hl.passing hx hi hs

/-! ### Every order of turns -/

theorem start_each (copies : Copies) (programs : List (List CopyCall)) {h : Holder}
    (hh : h ∈ (start copies programs).each) : ∃ p ∈ programs, h = { left := p } := by
  simpa [start, eq_comm] using hh

theorem proper_start {copies : Copies} {programs : List (List CopyCall)}
    (ha : ∀ p ∈ programs, ∀ c ∈ p, copies.items[c.copy]?.any fun x => x.attached) :
    (start copies programs).Proper := by
  constructor
  · intro h hh c hc
    obtain ⟨p, hp, rfl⟩ := start_each copies programs hh
    exact ha p hp c (by simpa [Holder.calls, Stage.current] using hc)
  · intro h hh c r hs
    obtain ⟨p, -, rfl⟩ := start_each copies programs hh
    cases hs

theorem decided_start {copies : Copies} (hf : copies.state.responded = false)
    (programs : List (List CopyCall)) : Decided [] (start copies programs) := by
  have hidle : ∀ h ∈ (start copies programs).each, h.stage = .idle ∧ h.done = [] := by
    intro h hh
    obtain ⟨p, -, rfl⟩ := start_each copies programs hh
    exact ⟨rfl, rfl⟩
  refine ⟨by simp [start, hf], fun h hh c hc => ?_, fun hi hs => ?_, fun _ => rfl⟩
  · rw [(hidle h hh).2] at hc
    exact absurd hc List.not_mem_nil
  · rw [(hidle _ (List.mem_of_getElem? hi)).1] at hs
    cases hs

theorem calls_run (hg : g.Proper) (is : List Nat) (j : Nat) :
    (g.run is).each[j]?.map Holder.calls = g.each[j]?.map Holder.calls :=
  (run_invariant (P := fun _ g' => g'.each[j]?.map Holder.calls = g.each[j]?.map Holder.calls)
    (fun h t => (t.calls j).trans h) hg [] rfl is).2

/-- A call that has returned is the one of its place in what its holder set out with. -/
theorem program_of_done {copies : Copies} {programs : List (List CopyCall)}
    (hs : (start copies programs).Proper) {n : Nat} {c : CopyCall}
    (hi : ((start copies programs).run is).each[i]? = some h) (hc : h.done[n]? = some c) :
    ∃ p, programs[i]? = some p ∧ p[n]? = some c := by
  have hcalls := calls_run hs is i
  rw [hi, start, List.getElem?_map, Option.map_some, eq_comm, Option.map_map,
    Option.map_eq_some_iff] at hcalls
  obtain ⟨p, hp, heq⟩ := hcalls
  obtain ⟨hlt, -⟩ := List.getElem?_eq_some_iff.mp hc
  refine ⟨p, hp, ?_⟩
  have hpcalls : p = h.calls := by simpa [Holder.calls, Stage.current] using heq
  rwa [hpcalls, Holder.calls, List.append_assoc, List.getElem?_append_left hlt]

/-- **One answer.** Any number of holders make any calls on copies of one message whose calls all go
to the connection, nobody having answered it before. Whatever the order of their turns:

* the connection is told one final answer at the most;
* once no final answer is under way, if one was given the connection was told exactly one: that of
  the first look, which is what the call in question asks for;
* once the state is taken it remains so, and whatever the connection is told afterwards, a request
  for time included, was begun before. -/
theorem one_answer (copies : Copies) (programs : List (List CopyCall))
    (hfree : copies.state.responded = false)
    (hattached : ∀ p ∈ programs, ∀ c ∈ p, copies.items[c.copy]?.any fun x => x.attached)
    (is js : List Nat) :
    let before := start copies programs
    let g := before.run is
    g.answers.length ≤ 1 ∧
    ((∀ h ∈ g.each, h.isAnswering = false) →
      (∃ h ∈ g.each, ∃ c ∈ h.done, c.call.isFinal = true) →
      ∃ e p c, (before.looks is).head? = some e ∧ g.answers = [e] ∧
        programs[e.holder]? = some p ∧ p[e.number]? = some c ∧ c.call = e.request.call) ∧
    (g.copies.state.responded = true →
      (g.run js).copies.state.responded = true ∧
      ∀ e ∈ (g.run js).received, ∀ h, g.each[e.holder]? = some h → e.number < h.begun) := by
  intro before g
  have hstart : before.Proper := proper_start hattached
  obtain ⟨hproper, hdecided⟩ :=
    run_invariant Decided.turn hstart [] (decided_start hfree programs) is
  have hgenuine : g.Genuine :=
    (run_invariant (P := fun _ => Genuine) Genuine.turn hstart []
      (fun _ he => absurd he List.not_mem_nil) is).2
  rw [List.nil_append] at hdecided
  refine ⟨hdecided.length_answers_le, fun hdone ⟨h, hh, c, hc, hfin⟩ => ?_, fun htaken => ?_⟩
  · have hquiet : ∀ h ∈ g.each, h.isTelling = false := by
      intro h hh
      rw [Bool.eq_false_iff]
      intro ht
      unfold Holder.isTelling at ht
      split at ht
      · rename_i c r hs
        have hcall : c.call.isFinal = true := by rw [hproper.passing h hh hs, r.isFinal_call, ht]
        have hnot := hdone h hh
        simp [Holder.isAnswering, hs, Stage.current, hcall] at hnot
      · exact Bool.false_ne_true ht
    obtain ⟨e, xs, hlooks⟩ := List.exists_cons_of_ne_nil (hdecided.done h hh c hc hfin)
    have hanswers : g.answers = [e] := by rw [hdecided.told hquiet, hlooks]; rfl
    have he : e ∈ g.received := (List.mem_filter.mp (hanswers ▸ List.mem_singleton_self e)).1
    obtain ⟨x, c', hx, hc', heq⟩ := hgenuine e he
    obtain ⟨p, hp, hpc⟩ := program_of_done hstart hx hc'
    exact ⟨e, p, c', by rw [hlooks]; rfl, hanswers, hp, hpc, heq⟩
  · have hlate : Late g (g.run js) :=
      (run_invariant (P := fun _ => Late g) Late.turn hproper []
        (hgenuine.late htaken) js).2
    exact ⟨hlate.taken, hlate.received⟩

/-- A message and a copy of it. -/
def twoCopies : Copies := { items := List.replicate 2 ⟨{ id := [], body := [] }, true⟩ }

/-- The calls of two holders that both answer the message. -/
def rivals : List (List CopyCall) :=
  [[⟨0, .answer .finish⟩, ⟨0, .touch⟩], [⟨1, .answer (.requeue none true)⟩]]

/-- The first holder begins before the second, which is the first to look. -/
theorem answers_rivals :
    ((start twoCopies rivals).run [0, 1, 1, 0, 1]).answers =
      [⟨1, 0, .answer (.requeue none true)⟩] := by
  obtain ⟨-, hfirst, -⟩ := one_answer twoCopies rivals rfl (by decide) [0, 1, 1, 0, 1] []
  obtain ⟨e, p, c, hlook, hanswers, -⟩ := hfirst (by decide) (by decide)
  obtain rfl : ⟨1, 0, .answer (.requeue none true)⟩ = e := Option.some.inj hlook
  exact hanswers

/-! ### A holder that is left alone -/

theorem run_append (g : Holders) (is js : List Nat) : g.run (is ++ js) = (g.run is).run js := by
  induction is generalizing g with
  | nil => rfl
  | cons i is ih => exact ih (g.turn i)

/-- An uninterrupted call takes two turns if it is ignored, and three if it passes. -/
theorem call_alone (hg : g.Proper) {c : CopyCall} {done left : List CopyCall}
    (hi : g.each[i]? = some ⟨done, .idle, c :: left⟩) :
    ∃ n g', g.run (List.replicate n i) = g' ∧ g'.each[i]? = some ⟨done ++ [c], .idle, left⟩ ∧
      g'.copies.state = (g.copies.state.call c.call).2 ∧
      g'.received.map Receipt.request =
        g.received.map Receipt.request ++ (g.copies.state.call c.call).1.toList := by
  have hput : ∀ {g : Holders} {h : Holder} (x : Holder), g.each[i]? = some h →
      (g.put i x).each[i]? = some x := fun x hi => (each_put hi x i).trans (if_pos rfl)
  have henter := turn_of_idle hi
  have hproper := (turn_cases hg i).proper hg
  rw [henter] at hproper
  have hi₁ := hput ⟨done, .entered c, left⟩ hi
  cases hk : g.copies.state.call c.call with
  | mk passed s =>
    cases passed with
    | none =>
      have htwo := (congrArg (turn i) henter).trans (turn_of_ignored hi₁ hk)
      exact ⟨2, _, htwo, hput _ hi₁, rfl, (List.append_nil _).symm⟩
    | some r =>
      have hpass := (congrArg (turn i) henter).trans (turn_of_passed hproper hi₁ hk)
      have hi₂ := hput ⟨done, .passing c r, left⟩ hi₁
      have hthree := (congrArg (turn i) hpass).trans (turn_of_passing hi₂)
      exact ⟨3, _, hthree, hput _ hi₂, rfl, List.map_append⟩

/-- A holder whose turns are not interrupted makes its calls one after another: what arrives, and
what becomes of the state, is what `Answered.calls` says. -/
theorem calls_alone (hg : g.Proper) {done left : List CopyCall}
    (hi : g.each[i]? = some ⟨done, .idle, left⟩) :
    ∃ n, let g' := g.run (List.replicate n i)
      g'.copies.state = (g.copies.state.calls (left.map CopyCall.call)).2 ∧
        g'.received.map Receipt.request =
          g.received.map Receipt.request ++
            (g.copies.state.calls (left.map CopyCall.call)).1 := by
  induction left generalizing g done with
  | nil => exact ⟨0, rfl, (List.append_nil _).symm⟩
  | cons c left ih =>
    obtain ⟨n, g', hrun, hnext, hstate, hreceived⟩ := call_alone hg hi
    have hproper : (g.run (List.replicate n i)).Proper :=
      (run_invariant (P := fun _ _ => True) (fun _ _ => trivial) hg [] trivial _).1
    obtain ⟨m, hstate', hreceived'⟩ := ih (hrun ▸ hproper) hnext
    refine ⟨n + m, ?_⟩
    rw [← List.replicate_append_replicate, run_append, hrun]
    refine ⟨by rw [hstate', hstate]; rfl, ?_⟩
    rw [hreceived', hreceived, hstate, List.append_assoc]
    rfl

end Holders

end Nsq
