import CrochetShorthand.Pattern
import CrochetShorthand.Stitch

/-!
# Commands

A command is what one piece of a line says: a stitch, a pattern, or a bracketed list of
commands worked a number of times.  Commands render back to notation; groups nest.
-/

namespace CrochetShorthand

/-- What one piece of a line says. -/
inductive Command
  | stitch (stitch : Stitch)
  | pattern (pattern : Pattern)
  /-- The commands in order, worked `times` times over. -/
  | group (commands : List Command) (times : UInt32)
deriving Repr

namespace Command

mutual

/-- Equality of commands is decided along the tree. -/
def decEq : (a b : Command) → Decidable (a = b)
  | .stitch s, .stitch t => decidable_of_iff (s = t) (by simp)
  | .pattern p, .pattern q => decidable_of_iff (p = q) (by simp)
  | .group cs m, .group ds n =>
      match decEqList cs ds with
      | isTrue hcs => decidable_of_iff (m = n) (by simp [hcs])
      | isFalse hcs => isFalse (by simp [hcs])
  | .stitch _, .pattern _ => isFalse (by simp)
  | .stitch _, .group _ _ => isFalse (by simp)
  | .pattern _, .stitch _ => isFalse (by simp)
  | .pattern _, .group _ _ => isFalse (by simp)
  | .group _ _, .stitch _ => isFalse (by simp)
  | .group _ _, .pattern _ => isFalse (by simp)

/-- Equality of lists of commands is decided member by member. -/
def decEqList : (as bs : List Command) → Decidable (as = bs)
  | [], [] => isTrue rfl
  | [], _ :: _ => isFalse (by simp)
  | _ :: _, [] => isFalse (by simp)
  | a :: as, b :: bs =>
      match decEq a b with
      | isFalse hab => isFalse (by simp [hab])
      | isTrue hab =>
          match decEqList as bs with
          | isTrue h => isTrue (by simp [hab, h])
          | isFalse h => isFalse (by simp [h])

end

instance : DecidableEq Command := decEq

mutual

/-- The notation of a command. -/
def render : Command → Text
  | .stitch s => s.keyword
  | .pattern p => p.render
  | .group commands times => '[' :: renderAll commands ++ ']' :: Decimal.ofNat times.toNat

/-- The notations of the commands, joined by one space. -/
def renderAll : List Command → Text
  | [] => []
  | [command] => command.render
  | command :: next :: rest => command.render ++ ' ' :: renderAll (next :: rest)

end

mutual

/-- How many groups are nested inside each other at most. -/
def depth : Command → Nat
  | .stitch _ => 0
  | .pattern _ => 0
  | .group commands _ => 1 + depthAll commands

/-- The greatest depth among the commands, `0` when there are none. -/
def depthAll : List Command → Nat
  | [] => 0
  | command :: rest => max command.depth (depthAll rest)

end

end Command

end CrochetShorthand
