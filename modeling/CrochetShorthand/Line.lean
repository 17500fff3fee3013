import CrochetShorthand.Text.Blank

/-!
# The pieces of a line

A line splits at blanks, except inside brackets: a bracketed group is one piece, blanks and
all.  The bracket depth runs through the whole line.  A stray closing bracket makes it
negative, and the brackets after it then no longer protect what they hold.  Unbalanced
brackets are no fault here; reading the pieces finds them.  The depth is an integer of any
size; `WordScan` splits with a word of 32 bits, which is the same for fewer than 2147483648
brackets.

Splitting is lazy: `LineScan.next?` gives one piece and the state after it.  `piecesOf`
collects all of them.  A piece and what is left after it are no longer than what was left
before (`scan_length`), which is why the collection ends.
-/

namespace CrochetShorthand

/-- What is left of a line, and the bracket depth there. -/
structure LineScan where
  rest : Text
  depth : Int
deriving DecidableEq, Repr

namespace LineScan

/-- The whole line is left, outside any bracket. -/
def ofLine (line : Text) : LineScan :=
  ⟨line, 0⟩

/-- The change of bracket depth that a character makes. -/
def depthChange (c : Char) : Int :=
  if c = '[' then 1 else if c = ']' then -1 else 0

/-- The characters up to the first blank outside brackets, and the state there. -/
def scan (depth : Int) : Text → Text × LineScan
  | [] => ([], ⟨[], depth⟩)
  | c :: rest =>
      if Text.isBlank c && depth ≤ 0 then ([], ⟨c :: rest, depth⟩)
      else
        let scanned := scan (depth + depthChange c) rest
        (c :: scanned.1, scanned.2)

/-- The next piece and the state after it: blanks in front of the piece are skipped, whatever
the depth.  There is none when only blanks are left. -/
def next? (left : LineScan) : Option (Text × LineScan) :=
  match Text.trimStart left.rest with
  | [] => none
  | c :: rest => some (scan left.depth (c :: rest))

theorem scan_length (depth : Int) (t : Text) :
    (scan depth t).1.length + (scan depth t).2.rest.length = t.length := by
  induction t generalizing depth with
  | nil => rfl
  | cons c rest ih =>
      unfold scan
      split
      · simp
      · have h := ih (depth + depthChange c)
        simp only [List.length_cons]
        omega

theorem isBlank_of_trimStart_eq_cons {t : Text} {c : Char} {rest : Text}
    (h : Text.trimStart t = c :: rest) : Text.isBlank c = false := by
  have hhead := List.head?_dropWhile_not Text.isBlank t
  rw [Text.trimStart] at h
  simpa [h] using hhead

theorem trimStart_length_le (t : Text) : (Text.trimStart t).length ≤ t.length :=
  (List.dropWhile_sublist Text.isBlank).length_le

/-- Every piece takes at least one character from the line. -/
theorem next?_rest_length {left after : LineScan} {piece : Text}
    (h : left.next? = some (piece, after)) : after.rest.length < left.rest.length := by
  unfold next? at h
  split at h
  · contradiction
  · rename_i c rest htrim
    have hblank := isBlank_of_trimStart_eq_cons htrim
    have hle := trimStart_length_le left.rest
    have hscan := scan_length left.depth (c :: rest)
    have hpiece : 0 < (scan left.depth (c :: rest)).1.length := by
      simp [scan, hblank]
    rw [htrim] at hle
    rw [Option.some.inj h] at hscan hpiece
    dsimp only at hscan hpiece
    omega

/-- All pieces that are left, in order. -/
def toList (left : LineScan) : List Text :=
  match h : left.next? with
  | none => []
  | some (piece, after) =>
      have := next?_rest_length h
      piece :: toList after
termination_by left.rest.length

end LineScan

/-- The pieces of a line, in order. -/
def piecesOf (line : Text) : List Text :=
  (LineScan.ofLine line).toList

end CrochetShorthand
