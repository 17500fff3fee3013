import CrochetShorthand.Command
import CrochetShorthand.Pattern.Layout

/-!
# What commands mean

The meaning of commands is the stitches they come to, and the fault that ends them if there is
one.  It is given by recursion on the command, with no machine: a stitch means itself, a pattern its
motifs written out, a group its commands in order, as many times as it says.

Meanings are put one after the other by `andThen`, which is associative and has `nothing` as
its unit on both sides.  Nothing comes after a fault.
-/

namespace CrochetShorthand

/-- The stitches that commands come to, and the fault after them. -/
structure Meaning where
  stitches : List Stitch
  fault : Option Fault
deriving DecidableEq, Repr

namespace Meaning

/-- No stitch and no fault. -/
def nothing : Meaning :=
  ⟨[], none⟩

/-- One meaning after another; a fault in the first leaves the second out. -/
def andThen (first second : Meaning) : Meaning :=
  match first.fault with
  | some _ => first
  | none => ⟨first.stitches ++ second.stitches, second.fault⟩

/-- A meaning several times over. -/
def times : Nat → Meaning → Meaning
  | 0, _ => nothing
  | count + 1, meaning => meaning.andThen (times count meaning)

/-- The meaning of a pattern: its motifs written out. -/
def ofPattern (pattern : Pattern) : Meaning :=
  match pattern.layout with
  | .error fault => ⟨[], some fault⟩
  | .ok motifs => ⟨motifs.flatMap Motif.unfold, none⟩

mutual

/-- The meaning of a command. -/
def ofCommand : Command → Meaning
  | .stitch s => ⟨[s], none⟩
  | .pattern p => ofPattern p
  | .group commands count => times count.toNat (ofCommands commands)

/-- The meaning of commands in order. -/
def ofCommands : List Command → Meaning
  | [] => nothing
  | command :: rest => (ofCommand command).andThen (ofCommands rest)

end

theorem nothing_andThen (meaning : Meaning) : nothing.andThen meaning = meaning := rfl

theorem andThen_nothing (meaning : Meaning) : meaning.andThen nothing = meaning := by
  obtain ⟨stitches, fault⟩ := meaning
  cases fault with
  | none => simp [andThen, nothing]
  | some fault => rfl

theorem andThen_assoc (first second third : Meaning) :
    (first.andThen second).andThen third = first.andThen (second.andThen third) := by
  obtain ⟨stitches, fault⟩ := first
  cases fault with
  | some fault => rfl
  | none =>
      obtain ⟨stitches', fault'⟩ := second
      cases fault' with
      | some fault' => rfl
      | none => simp [andThen]

end Meaning

end CrochetShorthand
