import CrochetShorthand.Command
import CrochetShorthand.Step

/-!
# Trees to dump

What is dumped is first made a tree: lists, records with their fields in order, and values
under a tag.  The JSON and YAML writers are functions of the tree.

The words of a tree are made of letters, digits, `_`, `-` and parentheses only, so neither
format has to quote or escape a character of them.
-/

namespace CrochetShorthand

/-- What is dumped. -/
inductive Dump
  | word (characters : Text)
  | number (value : Int)
  | list (items : List Dump)
  /-- Named fields, in the order in which they are written. -/
  | record (fields : List (Text × Dump))
  /-- A value that says which of several kinds it is. -/
  | tagged (tag : Text) (payload : Dump)
deriving Repr

namespace Dump

/-- A number that is a word of the machine. -/
def count (n : UInt32) : Dump :=
  .number n.toNat

def ofStitch (stitch : Stitch) : Dump :=
  .word stitch.name

def ofPattern : Pattern → Dump
  | .magicCircle n =>
      .tagged "magic_circle".toList (.record [("initial_stitch_count".toList, count n)])
  | .magicEllipse n =>
      .tagged "magic_ellipse".toList (.record [("extended_stitch_count".toList, count n)])
  | .bend round depth =>
      .tagged "bend".toList
        (.record [("round_stitch_count".toList, count round), ("depth".toList, count depth)])

mutual

/-- A command under the tag of its kind. -/
def ofCommand : Command → Dump
  | .stitch s => .tagged "stitch".toList (ofStitch s)
  | .pattern p => .tagged "pattern".toList (ofPattern p)
  | .group commands times =>
      .tagged "group".toList
        (.record [("commands".toList, .list (ofCommands commands)), ("repeat".toList, count times)])

def ofCommands : List Command → List Dump
  | [] => []
  | command :: rest => ofCommand command :: ofCommands rest

end

def ofStep : Step → Dump
  | .chain => .word "chain".toList
  | .sc ago => .tagged "sc_n".toList (.record [("stitch_ago".toList, .number ago)])
  | .scTwo first second =>
      .tagged "sc_m_n".toList
        (.record [("stitch_ago_1".toList, .number first), ("stitch_ago_2".toList, .number second)])

end Dump

end CrochetShorthand
