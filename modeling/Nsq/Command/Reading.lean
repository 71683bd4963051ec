import Nsq.Command.Basic
import Nsq.Text.Split

/-!
# Commands as the daemon reads them

The daemon takes what stands before a line feed and cuts it at single blanks into a name and
parameters; for some names it takes a length of four octets and as many octets more.
`Reading.first` reads a command off the front of octets, `Reading.all` reads commands until nothing
is left, and `Reading.parts` takes the body of a batch apart.
-/

namespace Nsq.Command

/-- A command as the daemon finds it. -/
structure Reading where
  /-- The first word of the line. -/
  name : Octets
  /-- The other words. -/
  params : List Octets
  /-- The body, where the name asks for one. -/
  body : Option Octets
deriving DecidableEq, Repr

/-- What the daemon is to find of a command. -/
def reading (c : Command) : Reading := ⟨Octets.ofString c.name, c.params, c.body⟩

namespace Reading

/-- The names that ask for a body. -/
def bodied : List Octets :=
  ["IDENTIFY", "AUTH", "PUB", "DPUB", "MPUB"].map Octets.ofString

/-- Takes what stands before a line feed, and the line feed. -/
def line (b : Octets) : Option (Octets × Octets) :=
  match b.dropWhile (· != 0x0A) with
  | [] => none
  | _ :: rest => some (b.takeWhile (· != 0x0A), rest)

/-- Takes a length of four octets and as many octets. -/
def counted (b : Octets) : Option (Octets × Octets) :=
  let n := Octets.toNat (b.take 4)
  if b.length < 4 + n then none else some ((b.drop 4).take n, b.drop (4 + n))

/-- Reads a command off the front of octets. -/
def first (b : Octets) : Option (Reading × Octets) := do
  let (words, rest) ← line b
  match Text.splitAll 0x20 words with
  | [] => none
  | name :: params =>
    if bodied.contains name then
      let (body, rest) ← counted rest
      pure (⟨name, params, some body⟩, rest)
    else pure (⟨name, params, none⟩, rest)

/-- A line takes at least its line feed. -/
theorem length_lt_of_line {b words rest : Octets} (h : line b = some (words, rest)) :
    rest.length < b.length := by
  unfold line at h
  split at h
  · simp at h
  · rename_i o more hd
    simp only [Option.some.injEq, Prod.mk.injEq] at h
    obtain ⟨_, rfl⟩ := h
    have hb : b.takeWhile (· != 0x0A) ++ o :: more = b := hd ▸ List.takeWhile_append_dropWhile
    have := congrArg List.length hb
    simp only [List.length_append, List.length_cons] at this
    omega

/-- A counted run takes nothing back. -/
theorem length_le_of_counted {b taken rest : Octets} (h : counted b = some (taken, rest)) :
    rest.length ≤ b.length := by
  unfold counted at h
  dsimp only at h
  split at h
  · simp at h
  · simp only [Option.some.injEq, Prod.mk.injEq] at h
    obtain ⟨_, rfl⟩ := h
    simp

/-- A command at the front takes at least its line feed. -/
theorem length_lt_of_first {b rest : Octets} {r : Reading} (h : first b = some (r, rest)) :
    rest.length < b.length := by
  unfold first at h
  simp only [Option.bind_eq_bind, Option.bind_eq_some_iff] at h
  obtain ⟨⟨words, behind⟩, hl, h⟩ := h
  have hlt := length_lt_of_line hl
  dsimp only at h
  split at h
  · simp at h
  · split at h
    · simp only [Option.bind_eq_some_iff] at h
      obtain ⟨⟨body, more⟩, hc, h⟩ := h
      have hle := length_le_of_counted hc
      simp only [Option.pure_def, Option.some.injEq, Prod.mk.injEq] at h
      obtain ⟨_, rfl⟩ := h
      omega
    · simp only [Option.pure_def, Option.some.injEq, Prod.mk.injEq] at h
      obtain ⟨_, rfl⟩ := h
      exact hlt

/-- Reads commands until nothing is left. -/
def all (b : Octets) : Option (List Reading) :=
  if b.isEmpty then some []
  else
    match _h : first b with
    | none => none
    | some (r, rest) => (all rest).map (r :: ·)
termination_by b.length
decreasing_by exact length_lt_of_first _h

/-- Takes `n` counted runs off the front of octets. -/
def countedAll : (n : Nat) → Octets → Option (List Octets × Octets)
  | 0, b => some ([], b)
  | n + 1, b => do
    let (part, b) ← counted b
    let (parts, b) ← countedAll n b
    pure (part :: parts, b)

/-- Takes the body of a batch apart: the number of parts, the parts, and nothing behind them. -/
def parts (body : Octets) : Option (List Octets) :=
  if body.length < 4 then none
  else
    match countedAll (Octets.toNat (body.take 4)) (body.drop 4) with
    | some (ps, []) => some ps
    | _ => none

end Reading

end Nsq.Command
