import Nsq.Deflate.Bits

/-!
# Codes

A code gives each symbol a path of bits, none of which begins another one, so that a binary tree
holds it. A code is described by the lengths of the paths alone: of two symbols the one with the
shorter path comes first, and of two with paths of one length the lesser one. `Code.ofLengths`
grows the tree from its deepest level to its root.
-/

namespace Nsq.Deflate

/-- A code as a tree; a path takes the left branch at a bit that is not set. -/
inductive Code where
  /-- No symbol lies here. -/
  | hole
  /-- The path to a symbol ends. -/
  | leaf (symbol : Nat)
  /-- Paths part. -/
  | fork (left right : Code)
deriving Repr

namespace Code

/-- The longest path there is. -/
def maxLength : Nat := 15

/-- The level above a level: neighbours become the branches of one fork. -/
def pairUp : List Code → List Code
  | l :: r :: more => .fork l r :: pairUp more
  | [l] => [.fork l .hole]
  | [] => []

/-- The symbols with paths of length `n`. -/
def leaves (lengths : List Nat) (n : Nat) : List Code :=
  lengths.zipIdx.filterMap fun (length, symbol) => if length = n then some (.leaf symbol) else none

/-- The `n`-th level of the tree, the root being level zero. -/
def level (lengths : List Nat) : (below n : Nat) → List Code
  | 0, n => leaves lengths n
  | below + 1, n => (if n = 0 then [] else leaves lengths n) ++ pairUp (level lengths below (n + 1))

/-- Whether a path ends nowhere. -/
def hasHole : Code → Bool
  | hole => true
  | leaf _ => false
  | fork left right => left.hasHole || right.hasHole

/-- The code with paths of the given lengths, a zero standing for a symbol that does not occur. The
paths must not be too many, and not too few either, unless there is one symbol at most. -/
def ofLengths (lengths : List Nat) : Option Code :=
  match level lengths maxLength 0 with
  | [] => some .hole
  | [root] =>
    if root.hasHole && 1 < (lengths.filter (· != 0)).length then none else some root
  | _ => none

/-- Follows bits down the tree to a symbol. -/
def read : Code → BitReader Nat
  | hole, _ => .error .corrupt
  | leaf s, bits => .ok (s, bits)
  | fork _ _, [] => .error .unfinished
  | fork left _, false :: bits => left.read bits
  | fork _ right, true :: bits => right.read bits

end Code

end Nsq.Deflate
