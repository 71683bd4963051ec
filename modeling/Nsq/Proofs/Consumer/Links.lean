import Nsq.Consumer.Run
import Nsq.Proofs.Connection.Effects
import Mathlib.Algebra.Ring.Int.Defs
import Mathlib.Algebra.Ring.Nat

/-!
# Links of a consumer

The list of links only grows, and every operation changes links one by one. `Linkwise R` says that a
change leaves the list as long as it is and relates every link to what becomes of it; what is summed
over links, or holds of all of them, is followed through such changes here.

Two relations between a link and what becomes of it matter most. A change is **quiet** if it leaves
credit, missing answers and the report of the end alone (`Link.Quiet`). It is a change of **credit**
if it touches nothing else but what was sent, and may make the owner ask for the end (`Link.Lent`).
-/

namespace Nsq

/-! ### Lists with one changed entry, and lists with one more -/

/-- A sum changes by what the changed entry adds. -/
theorem sum_map_modify (g : Link → Int) {ls : List Link} {i : Nat} {l : Link} (h : ls[i]? = some l)
    (f : Link → Link) : ((ls.modify i f).map g).sum = (ls.map g).sum + (g (f l) - g l) := by
  induction ls generalizing i with
  | nil => simp at h
  | cons a ls ih =>
    cases i with
    | zero =>
      obtain rfl : a = l := by simpa using h
      simp only [List.modify_zero_cons, List.map_cons, List.sum_cons]
      omega
    | succ i =>
      simp only [List.modify_succ_cons, List.map_cons, List.sum_cons]
      rw [ih (by simpa using h)]
      omega

/-- There is nothing to change behind the end. -/
theorem modify_of_getElem?_eq_none {ls : List Link} {i : Nat} (h : ls[i]? = none)
    (f : Link → Link) : ls.modify i f = ls :=
  List.modify_eq_self (by simpa using h)

theorem forall_mem_modify {P : Link → Prop} {ls : List Link} {i : Nat} {f : Link → Link}
    (h : ∀ l ∈ ls, P l) (hf : ∀ l, ls[i]? = some l → P (f l)) : ∀ l ∈ ls.modify i f, P l := by
  intro l hl
  obtain ⟨j, hj⟩ := List.mem_iff_getElem?.mp hl
  rw [List.getElem?_modify] at hj
  split at hj
  · rename_i hij
    subst hij
    obtain ⟨l', hl', rfl⟩ := Option.map_eq_some_iff.mp hj
    exact hf l' hl'
  · exact h l (List.mem_of_getElem? (by simpa using hj))

/-- An entry of a list that was continued by one is the new one, or was there before. -/
theorem append_singleton_eq_append_cons {α : Type} {front before after : List α} {a b : α}
    (h : front ++ [a] = before ++ b :: after) :
    (b = a ∧ before = front) ∨ ∃ after', front = before ++ b :: after' := by
  rcases List.eq_nil_or_concat after with rfl | ⟨after', a', rfl⟩
  · obtain ⟨hb, hj⟩ := List.append_inj' h rfl
    exact .inl ⟨(List.head_eq_of_cons_eq hj).symm, hb.symm⟩
  · rw [List.concat_eq_append, ← List.cons_append, ← List.append_assoc] at h
    exact .inr ⟨after', (List.append_inj' h rfl).1⟩

/-! ### Changes link by link -/

/-- A change that is quiet about credit: only heartbeats, requests for time and the way to the end
are concerned. -/
structure Link.Quiet (l l' : Link) : Prop where
  steady : Connection.Steady l.conn l'.conn
  calm : Connection.Calm l.conn l'.conn
  heard : l'.heard = l.heard
  told : l'.conn.told = l.conn.told

/-- A change of credit. The daemon is told, and where that fails the owner asks for the end. -/
structure Link.Lent (l l' : Link) : Prop where
  address : l'.conn.address = l.conn.address
  policy : l'.conn.policy = l.conn.policy
  maxRdy : l'.conn.maxRdy = l.conn.maxRdy
  inFlight : l'.conn.inFlight = l.conn.inFlight
  reading : l'.conn.reading = l.conn.reading
  draining : l'.conn.draining = l.conn.draining
  closed : l'.conn.closed = l.conn.closed
  stalled : l'.conn.stalled = l.conn.stalled
  closing : l.conn.closing = true → l'.conn.closing = true
  idle : l'.idle = l.idle
  heard : l'.heard = l.heard

theorem Link.Quiet.refl (l : Link) : l.Quiet l :=
  ⟨.refl l.conn, .refl l.conn, rfl, rfl⟩

theorem Link.Lent.refl (l : Link) : l.Lent l :=
  ⟨rfl, rfl, rfl, rfl, rfl, rfl, rfl, rfl, id, rfl, rfl⟩

theorem Link.Lent.trans {l₁ l₂ l₃ : Link} (h : l₁.Lent l₂) (h' : l₂.Lent l₃) : l₁.Lent l₃ where
  address := h'.address.trans h.address
  policy := h'.policy.trans h.policy
  maxRdy := h'.maxRdy.trans h.maxRdy
  inFlight := h'.inFlight.trans h.inFlight
  reading := h'.reading.trans h.reading
  draining := h'.draining.trans h.draining
  closed := h'.closed.trans h.closed
  stalled := h'.stalled.trans h.stalled
  closing := h'.closing ∘ h.closing
  idle := h'.idle.trans h.idle
  heard := h'.heard.trans h.heard

/-- A change of credit keeps a connection in order. -/
theorem Link.Lent.calm {l l' : Link} (h : l.Lent l') : Connection.Calm l.conn l'.conn where
  tidy t :=
    { closesOnFault := h.policy ▸ t.closesOnFault
      closing_of_not_reading := fun e => h.closing (t.closing_of_not_reading (h.reading ▸ e))
      closing_of_draining := fun e => h.closing (t.closing_of_draining (h.draining ▸ e))
      closing_of_closed := fun e => h.closing (t.closing_of_closed (h.closed ▸ e))
      not_reading_of_closed := fun e => h.reading ▸ t.not_reading_of_closed (h.closed ▸ e) }
  ending e hr hi := h.draining ▸ e (h.reading ▸ hr) (h.inFlight ▸ hi)
  stalled e := h.stalled ▸ e

namespace Consumer

theorem exists_of_rel_some {R : Link → Link → Prop} {ol : Option Link} {l' : Link}
    (h : Option.Rel R ol (some l')) : ∃ l, ol = some l ∧ R l l' := by
  obtain ⟨r⟩ := h
  exact ⟨_, rfl, r⟩

theorem exists_of_some_rel {R : Link → Link → Prop} {l : Link} {ol' : Option Link}
    (h : Option.Rel R (some l) ol') : ∃ l', ol' = some l' ∧ R l l' := by
  obtain ⟨r⟩ := h
  exact ⟨_, rfl, r⟩

/-- A change that relates every link to what becomes of it, and opens none. -/
def Linkwise (R : Link → Link → Prop) (c c' : Consumer) : Prop :=
  ∀ i : Nat, Option.Rel R c.links[i]? c'.links[i]?

namespace Linkwise

variable {R : Link → Link → Prop} {c c' c'' : Consumer}

theorem refl (hR : ∀ l, R l l) (c : Consumer) : Linkwise R c c := by
  intro i
  cases c.links[i]? with
  | none => exact .none
  | some l => exact .some (hR l)

theorem trans (hR : ∀ l₁ l₂ l₃, R l₁ l₂ → R l₂ l₃ → R l₁ l₃) (h : Linkwise R c c')
    (h' : Linkwise R c' c'') : Linkwise R c c'' := by
  intro i
  have hi := h i
  have hi' := h' i
  revert hi hi'
  cases c.links[i]? <;> cases c'.links[i]? <;> cases c''.links[i]? <;> rintro (r | _) (r' | _)
  · exact .none
  · exact .some (hR _ _ _ r r')

theorem mono {R' : Link → Link → Prop} (h : Linkwise R c c') (hR : ∀ l l', R l l' → R' l l') :
    Linkwise R' c c' := by
  intro i
  have hi := h i
  revert hi
  cases c.links[i]? <;> cases c'.links[i]? <;> rintro (r | _)
  · exact .none
  · exact .some (hR _ _ r)

/-- What a link was before the change. -/
theorem of_get (h : Linkwise R c c') {i : Nat} {l' : Link} (hl : c'.links[i]? = some l') :
    ∃ l, c.links[i]? = some l ∧ R l l' :=
  exists_of_rel_some (hl ▸ h i)

/-- What becomes of a link. -/
theorem get (h : Linkwise R c c') {i : Nat} {l : Link} (hl : c.links[i]? = some l) :
    ∃ l', c'.links[i]? = some l' ∧ R l l' :=
  exists_of_some_rel (hl ▸ h i)

/-- What a change leaves alone at every link is the same list after it. -/
theorem map_eq {α : Type} {g : Link → α} (h : Linkwise R c c') (hg : ∀ l l', R l l' → g l' = g l) :
    c'.links.map g = c.links.map g := by
  refine List.ext_getElem? fun i => ?_
  have hi := h i
  rw [List.getElem?_map, List.getElem?_map]
  revert hi
  cases c.links[i]? <;> cases c'.links[i]? <;> rintro (r | _)
  · rfl
  · exact congrArg some (hg _ _ r)

theorem forall_mem {P : Link → Prop} (h : Linkwise R c c') (hP : ∀ l l', R l l' → P l → P l')
    (hc : ∀ l ∈ c.links, P l) : ∀ l ∈ c'.links, P l := by
  intro l' hl'
  obtain ⟨i, hi⟩ := List.mem_iff_getElem?.mp hl'
  obtain ⟨l, hl, r⟩ := h.of_get hi
  exact hP l l' r (hc l (List.mem_of_getElem? hl))

end Linkwise

/-- A changed link changes the list link by link. -/
theorem linkwise_modifyLink {R : Link → Link → Prop} (hR : ∀ l, R l l) {i : Nat} {f : Link → Link}
    {c : Consumer} (h : ∀ l, c.links[i]? = some l → R l (f l)) :
    Linkwise R c (c.modifyLink i f) := by
  intro j
  simp only [modifyLink, List.getElem?_modify]
  cases e : c.links[j]? with
  | none => exact .none
  | some l =>
    by_cases hij : i = j
    · subst hij
      simpa using h l e
    · simpa [hij] using hR l

/-! ### A new link -/

/-- The links stay where they are when one is opened. -/
theorem getElem?_openLink {i : Nat} {l' : Link} {c : Consumer} (h : c.links[i]? = some l')
    (l : Link) : (c.openLink l).2.links[i]? = some l' := by
  have hlt : i < c.links.length := (List.getElem?_eq_some_iff.mp h).1
  show (c.links ++ [l])[i]? = some l'
  rw [List.getElem?_append_left hlt, h]

/-- The links after one was opened are the old ones and the new one behind them. -/
theorem getElem?_openLink_cases {i : Nat} {l l' : Link} {c : Consumer}
    (h : (c.openLink l).2.links[i]? = some l') :
    c.links[i]? = some l' ∨ i = c.links.length ∧ l' = l := by
  replace h : (c.links ++ [l])[i]? = some l' := h
  rcases Nat.lt_trichotomy i c.links.length with hlt | rfl | hgt
  · rw [List.getElem?_append_left hlt] at h
    exact .inl h
  · rw [List.getElem?_concat_length] at h
    exact .inr ⟨rfl, (Option.some.inj h).symm⟩
  · have hlen : i < (c.links ++ [l]).length := (List.getElem?_eq_some_iff.mp h).1
    rw [List.length_append, List.length_singleton] at hlen
    omega

/-! ### The connection of a link -/

theorem conn?_eq_some_iff {i : Nat} {conn : Connection} {c : Consumer} :
    c.conn? i = some conn ↔ ∃ l, c.links[i]? = some l ∧ l.conn = conn := by
  simp [conn?]

theorem conn?_of_links {i : Nat} {l : Link} {c : Consumer} (h : c.links[i]? = some l) :
    c.conn? i = some l.conn :=
  conn?_eq_some_iff.mpr ⟨l, h, rfl⟩

theorem conn_eq_of_links {i : Nat} {l : Link} {conn : Connection} {c : Consumer}
    (hl : c.links[i]? = some l) (hi : c.conn? i = some conn) : l.conn = conn :=
  Option.some.inj ((conn?_of_links hl).symm.trans hi)

theorem conn?_modifyLink_self {i : Nat} {l : Link} {c : Consumer} (h : c.links[i]? = some l)
    (f : Link → Link) : (c.modifyLink i f).conn? i = some (f l).conn := by
  simp [conn?, modifyLink, h]

theorem conn?_modifyLink_of_ne {i j : Nat} (h : i ≠ j) (f : Link → Link) (c : Consumer) :
    (c.modifyLink i f).conn? j = c.conn? j := by
  simp [conn?, modifyLink, h]

/-- The connections after a link was changed are the changed one and the others. -/
theorem conn?_modifyLink_cases {i j : Nat} {f : Link → Link} {conn : Connection} {c : Consumer}
    (h : (c.modifyLink i f).conn? j = some conn) :
    c.conn? j = some conn ∨ i = j ∧ ∃ l, c.links[i]? = some l ∧ conn = (f l).conn := by
  by_cases hij : i = j
  · subst hij
    obtain ⟨l', hl', rfl⟩ := conn?_eq_some_iff.mp h
    simp only [modifyLink, List.getElem?_modify, if_true] at hl'
    obtain ⟨l, hl, rfl⟩ := Option.map_eq_some_iff.mp hl'
    exact .inr ⟨rfl, l, hl, rfl⟩
  · rw [conn?_modifyLink_of_ne hij] at h
    exact .inl h

theorem conn?_putConn_self {i : Nat} {conn : Connection} {c : Consumer}
    (h : c.conn? i = some conn) (conn' : Connection) :
    (c.putConn i conn').conn? i = some conn' := by
  obtain ⟨l, hl, -⟩ := conn?_eq_some_iff.mp h
  exact conn?_modifyLink_self hl _

/-! ### The credit of a link -/

theorem rdyOf_of_conn {i : Nat} {conn : Connection} {c : Consumer} (h : c.conn? i = some conn) :
    c.rdyOf i = conn.rdy := by
  simp [rdyOf, h]

theorem rdyOf_of_links {c c' : Consumer} (h : c'.links = c.links) (i : Nat) :
    c'.rdyOf i = c.rdyOf i := by
  rw [rdyOf, conn?, h, ← conn?, ← rdyOf]

end Consumer

end Nsq
