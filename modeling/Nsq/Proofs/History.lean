import Mathlib.Data.List.Basic

/-!
# Histories

What happens to something whose parts take turns is noted in a list, the latest last. `Before` says
in which order two things in it happened.
-/

namespace Nsq

/-- Something comes before something else in a history. -/
def Before {α : Type} (m m' : α) (h : List α) : Prop := [m, m'].Sublist h

instance {α : Type} [DecidableEq α] (m m' : α) (h : List α) : Decidable (Before m m' h) :=
  inferInstanceAs (Decidable ([m, m'].Sublist h))

variable {α : Type} {m m' : α} {h : List α}

theorem Before.append (hb : Before m m' h) (h' : List α) : Before m m' (h ++ h') :=
  hb.trans (List.sublist_append_left h h')

theorem Before.left (hb : Before m m' h) : m ∈ h := hb.subset List.mem_cons_self

theorem Before.right (hb : Before m m' h) : m' ∈ h :=
  hb.subset (List.mem_cons_of_mem m (List.mem_singleton_self m'))

/-- What comes last has everything else before it. -/
theorem before_concat {last : α} :
    Before m m' (h ++ [last]) ↔ Before m m' h ∨ m' = last ∧ m ∈ h := by
  constructor
  · intro hb
    obtain ⟨l₁, l₂, heq, h₁, h₂⟩ := List.sublist_append_iff.mp hb
    cases h₂ with
    | cons _ hnil =>
      obtain rfl := List.sublist_nil.mp hnil
      rw [List.append_nil] at heq
      subst heq
      exact .inl h₁
    | cons_cons _ hnil =>
      obtain rfl := List.sublist_nil.mp hnil
      obtain ⟨rfl, hlast⟩ := List.append_inj' (show [m] ++ [m'] = l₁ ++ [last] from heq) rfl
      exact .inr ⟨List.cons.inj hlast |>.1, List.singleton_sublist.mp h₁⟩
  · rintro (hb | ⟨rfl, hm⟩)
    · exact hb.append _
    · exact (List.singleton_sublist.mpr hm).append (.refl [m'])

/-- Of two things in a history one comes before the other. -/
theorem before_or_before (hm : m ∈ h) (hm' : m' ∈ h) (hne : m ≠ m') :
    Before m m' h ∨ Before m' m h := by
  induction h with
  | nil => exact absurd hm List.not_mem_nil
  | cons a h ih =>
    rcases List.mem_cons.mp hm with rfl | hin <;> rcases List.mem_cons.mp hm' with rfl | hin'
    · exact absurd rfl hne
    · exact .inl ((List.singleton_sublist.mpr hin').cons_cons m)
    · exact .inr ((List.singleton_sublist.mpr hin).cons_cons m')
    · exact (ih hin hin').imp (·.cons a) (·.cons a)

end Nsq
