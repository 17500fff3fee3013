import CrochetShorthand.Proofs.Offsets
import CrochetShorthand.Proofs.Staging
import CrochetShorthand.Proofs.WordSize

/-!
# The steps of patterns

Each pattern is written out as a list of stitches, and worked at any offset.  The ring of a magic
circle and the sides of a magic ellipse are runs that drift, so their steps go further and further
back.  A bend goes back by a whole round in the middle of its second row, skips as far forward, and
leaves the offset where it was.

The measures of a pattern are 32-bit words.  The lists of stitches are written with the numbers that
the measures stand for; that these are the same is where the arithmetic of the layout comes in.
-/

namespace CrochetShorthand

open Stitch (back chain singleCrochet skip)

/-- A pattern that has a layout unfolds to its motifs written out. -/
theorem unfoldAll_pattern {pattern : Pattern} {motifs : List Motif}
    (h : pattern.layout = .ok motifs) :
    unfoldAll [.pattern pattern] = .ok (motifs.flatMap Motif.unfold) := by
  rw [unfoldAll_eq_ok_iff, Meaning.ofCommands_singleton, Meaning.ofCommand, Meaning.ofPattern, h]

theorem unfoldAll_pattern_error {pattern : Pattern} {fault : Fault}
    (h : pattern.layout = .error fault) : unfoldAll [.pattern pattern] = .error fault := by
  rw [unfoldAll_eq_error_iff, Meaning.ofCommands_singleton, Meaning.ofCommand, Meaning.ofPattern, h]

/-! ## Circles and ellipses -/

/-- The stitches of a magic circle: two chains, and the rest of the ring. -/
def circleStitches (count : Nat) : List Stitch :=
  [chain, chain] ++ (List.replicate (count - 1) [back, singleCrochet]).flatten

/-- The stitches of a magic ellipse: the foundation, the first side, the turn, the second side and
the close. -/
def ellipseStitches (extension : Nat) : List Stitch :=
  [chain] ++ List.replicate extension chain ++ [chain, chain] ++
  [back, singleCrochet, back] ++
  (List.replicate extension [back, singleCrochet, back]).flatten ++
  [back, singleCrochet, back, singleCrochet, back, singleCrochet] ++
  List.replicate extension singleCrochet ++
  [singleCrochet, back, singleCrochet, skip]

theorem unfoldAll_magicCircle {count : UInt32} (h : 1 ≤ count) :
    unfoldAll [.pattern (.magicCircle count)] = .ok (circleStitches count.toNat) := by
  have hring : (count - 1).toNat = count.toNat - 1 := UInt32.toNat_sub_of_le _ _ h
  rw [unfoldAll_pattern (Pattern.layout_magicCircle h)]
  simp [circleStitches, Motif.unfold, hring]

theorem unfoldAll_magicEllipse (extension : UInt32) :
    unfoldAll [.pattern (.magicEllipse extension)] = .ok (ellipseStitches extension.toNat) := by
  have hlayout : (Pattern.magicEllipse extension).layout =
      .ok (Pattern.ellipseMotifs extension) := rfl
  rw [unfoldAll_pattern hlayout]
  simp [Pattern.ellipseMotifs, ellipseStitches, Motif.unfold]

theorem length_circleStitches {count : Nat} (h : 1 ≤ count) :
    (circleStitches count).length = 2 * count := by
  simp [circleStitches]
  omega

theorem length_ellipseStitches (extension : Nat) :
    (ellipseStitches extension).length = 16 + 5 * extension := by
  simp [ellipseStitches]
  omega

/-- Each pass of the ring goes back by one stitch and works into it. -/
theorem works_ring (offset : Int) (count : Nat) :
    Works offset (List.replicate count [.back, .singleCrochet]).flatten
      ((List.range count).map fun (pass : Nat) => .sc (offset + 1 + pass)) (offset + count) := by
  have hpass : Works offset [.back, .singleCrochet] [.sc (offset + 1)] (offset + 1) := by
    constructor
    · rfl
    · show offset + 1 + 0 = offset + 1
      omega
  simpa [passSteps_sc] using hpass.copies count

theorem works_foundation (offset : Int) (extension : Nat) :
    Works offset ([chain] ++ List.replicate extension chain ++ [chain, chain])
      (List.replicate (extension + 3) .chain) offset := by
  have hchains : [chain] ++ List.replicate extension chain ++ [chain, chain] =
      List.replicate (extension + 3) chain := by
    show List.replicate 1 chain ++ List.replicate extension chain ++ List.replicate 2 chain = _
    rw [List.replicate_append_replicate, List.replicate_append_replicate]
    congr 1
    omega
  rw [hchains]
  exact works_chains offset (extension + 3)

/-- The motif of the first side works into every other stitch. -/
theorem works_side (offset : Int) :
    Works offset [.back, .singleCrochet, .back] [.sc (offset + 1)] (offset + 2) := by
  constructor
  · rfl
  · show offset + 1 + 0 + 1 = offset + 2
    omega

theorem works_sides (offset : Int) (count : Nat) :
    Works offset (List.replicate count [.back, .singleCrochet, .back]).flatten
      ((List.range count).map fun (pass : Nat) => .sc (offset + 1 + pass * 2))
      (offset + count * 2) := by
  simpa [passSteps_sc] using (works_side offset).copies count

theorem works_turn (offset : Int) :
    Works offset [.back, .singleCrochet, .back, .singleCrochet, .back, .singleCrochet]
      [.sc (offset + 1), .sc (offset + 2), .sc (offset + 3)] (offset + 3) := by
  constructor
  · simp [workFrom, Working.work, Working.steps, Stitch.steps, Stitch.drift]
    omega
  · show offset + 1 + 0 + 1 + 0 + 1 + 0 = offset + 3
    omega

theorem works_close (offset : Int) :
    Works offset [.singleCrochet, .back, .singleCrochet, .skip]
      [.sc offset, .sc (offset + 1)] offset := by
  constructor
  · simp [workFrom, Working.work, Working.steps, Stitch.steps, Stitch.drift]
  · show offset + 0 + 1 + 0 + -1 = offset
    omega

theorem works_circleStitches (offset : Int) {count : Nat} (h : 1 ≤ count) :
    Works offset (circleStitches count)
      ([.chain, .chain] ++ (List.range (count - 1)).map fun (pass : Nat) => .sc (offset + 1 + pass))
      (offset + count - 1) := by
  have hall := (works_chains offset 2).append (works_ring offset (count - 1))
  have hreached : offset + (count - 1 : Nat) = offset + count - 1 := by
    omega
  rwa [hreached] at hall

/-- The steps of a magic ellipse that is worked at an offset. -/
def ellipseSteps (offset : Int) (extension : Nat) : List Step :=
  List.replicate (extension + 3) Step.chain ++
  [Step.sc (offset + 1)] ++
  (List.range extension).map (fun (pass : Nat) => Step.sc (offset + 3 + pass * 2)) ++
  [Step.sc (offset + 2 * extension + 3), .sc (offset + 2 * extension + 4)] ++
  List.replicate (extension + 2) (Step.sc (offset + 2 * extension + 5)) ++
  [Step.sc (offset + 2 * extension + 6)]

theorem works_ellipseStitches (offset : Int) (extension : Nat) :
    Works offset (ellipseStitches extension) (ellipseSteps offset extension)
      (offset + 2 * extension + 5) := by
  have hside := (works_side offset).append (works_sides (offset + 2) extension)
  have hmiddle : offset + 2 + extension * 2 = offset + 2 * extension + 2 := by
    omega
  rw [hmiddle] at hside
  have hturn := (works_turn (offset + 2 * extension + 2)).append (works_singleCrochets _ extension)
  have hall := (((works_foundation offset extension).append hside).append hturn).append
    (works_close _)
  -- The last step of the turn and the first of the close are one run with those between them.
  have hrun : ∀ step : Step, List.replicate (extension + 2) step =
      step :: (List.replicate extension step ++ [step]) := by
    intro step
    rw [List.replicate_succ, List.replicate_succ']
  convert hall using 1
  · simp [ellipseStitches]
  · simp [ellipseSteps, hrun, Int.add_assoc]
  · omega

/-- A magic circle of a count from one on has two stitches for each that it counts, and works its
ring stitch by stitch.  A magic ellipse has the stitches of its template.  This is so at every
offset. -/
theorem Pattern.works_circle_and_ellipse {count : UInt32} (h : 1 ≤ count) (offset : Int) :
    (unfoldAll [.pattern (.magicCircle count)] = .ok (circleStitches count.toNat) ∧
      (circleStitches count.toNat).length = 2 * count.toNat ∧
      Works offset (circleStitches count.toNat)
        ([.chain, .chain] ++
          (List.range (count.toNat - 1)).map fun (pass : Nat) => .sc (offset + 1 + pass))
        (offset + count.toNat - 1)) ∧
    unfoldAll [.pattern (.magicEllipse count)] = .ok (ellipseStitches count.toNat) ∧
      (ellipseStitches count.toNat).length = 16 + 5 * count.toNat ∧
      Works offset (ellipseStitches count.toNat) (ellipseSteps offset count.toNat)
        (offset + 2 * count.toNat + 5) := by
  have hpositive : 1 ≤ count.toNat := UInt32.le_iff_toNat_le.1 h
  refine ⟨⟨unfoldAll_magicCircle h, length_circleStitches hpositive, ?_⟩,
    unfoldAll_magicEllipse count, length_ellipseStitches count.toNat, ?_⟩
  · exact works_circleStitches offset hpositive
  · exact works_ellipseStitches offset count.toNat

theorem Pattern.works_circle_and_ellipse_of_two :
    (1 : UInt32) ≤ 2 ∧
    unfoldAll [.pattern (.magicCircle 2)] = .ok [chain, chain, back, singleCrochet] ∧
    Works (-1) [chain, chain, back, singleCrochet] [.chain, .chain, .sc 0] 0 ∧
    unfoldAll [.pattern (.magicEllipse 2)] = .ok (ellipseStitches 2) ∧
    Works (-1) (ellipseStitches 2)
      [.chain, .chain, .chain, .chain, .chain, .sc 0, .sc 2, .sc 4, .sc 6, .sc 7,
        .sc 8, .sc 8, .sc 8, .sc 8, .sc 9] 8 := by
  have hle : (1 : UInt32) ≤ 2 := by decide
  obtain ⟨⟨hcircle, -, hring⟩, hellipse, -, hsides⟩ := works_circle_and_ellipse hle (-1)
  exact ⟨hle, hcircle, hring, hellipse, hsides⟩

/-! ## Bends -/

namespace BendRows

/-- The first row of a bend. -/
def firstRow (rows : BendRows) : List Stitch :=
  List.replicate rows.segment.toNat singleCrochet ++
  List.replicate (2 * rows.segment.toNat) chain ++
  List.replicate rows.segment.toNat singleCrochet ++
  List.replicate rows.padding.toNat singleCrochet

/-- The second row of a bend, with the way to the start of the first row and back. -/
def secondRow (rows : BendRows) : List Stitch :=
  List.replicate rows.segment.toNat singleCrochet ++
  List.replicate rows.round.toNat back ++
  List.replicate (2 * rows.segment.toNat) singleCrochet ++
  List.replicate rows.round.toNat skip ++
  List.replicate rows.segment.toNat singleCrochet ++
  List.replicate rows.padding.toNat singleCrochet

/-- The steps of a bend that is worked at an offset. -/
def steps (rows : BendRows) (offset : Int) : List Step :=
  List.replicate rows.segment.toNat (.sc offset) ++
  List.replicate (2 * rows.segment.toNat) .chain ++
  List.replicate (2 * rows.segment.toNat + rows.padding.toNat) (.sc offset) ++
  List.replicate (2 * rows.segment.toNat) (.sc (offset + rows.round.toNat)) ++
  List.replicate (rows.segment.toNat + rows.padding.toNat) (.sc offset)

theorem unfold_motifs {rows : BendRows} {depth : UInt32} (h : rows.IsExact depth) :
    rows.motifs.flatMap Motif.unfold = rows.firstRow ++ rows.secondRow := by
  simp only [motifs, List.flatMap_cons, List.flatMap_nil, Motif.unfold,
    List.flatten_replicate_singleton, h.double, firstRow, secondRow, List.append_assoc,
    List.append_nil]

/-- The single crochets at the end of the first row and at the start of the second are one run. -/
theorem rows_eq_runs (rows : BendRows) :
    rows.firstRow ++ rows.secondRow =
      List.replicate rows.segment.toNat singleCrochet ++
      List.replicate (2 * rows.segment.toNat) chain ++
      List.replicate (2 * rows.segment.toNat + rows.padding.toNat) singleCrochet ++
      List.replicate rows.round.toNat back ++
      List.replicate (2 * rows.segment.toNat) singleCrochet ++
      List.replicate rows.round.toNat skip ++
      List.replicate (rows.segment.toNat + rows.padding.toNat) singleCrochet := by
  have hmiddle : List.replicate (2 * rows.segment.toNat + rows.padding.toNat) singleCrochet =
      List.replicate rows.segment.toNat singleCrochet ++
        List.replicate rows.padding.toNat singleCrochet ++
          List.replicate rows.segment.toNat singleCrochet := by
    rw [List.replicate_append_replicate, List.replicate_append_replicate]
    congr 1
    omega
  rw [hmiddle, ← List.replicate_append_replicate]
  simp only [firstRow, secondRow, List.append_assoc]

/-- A bend comes back to the offset at which it starts. -/
theorem works_rows (rows : BendRows) (offset : Int) :
    Works offset (rows.firstRow ++ rows.secondRow) (rows.steps offset) offset := by
  have hfirst := ((works_singleCrochets offset rows.segment.toNat).append
    (works_chains offset (2 * rows.segment.toNat))).append
      (works_singleCrochets offset (2 * rows.segment.toNat + rows.padding.toNat))
  have haround := ((works_backs offset rows.round.toNat).append
    (works_singleCrochets _ (2 * rows.segment.toNat))).append (works_skips _ rows.round.toNat)
  rw [Int.add_sub_cancel] at haround
  have hall := (hfirst.append haround).append
    (works_singleCrochets offset (rows.segment.toNat + rows.padding.toNat))
  rw [rows_eq_runs, steps]
  simpa only [List.append_assoc, List.nil_append] using hall

/-- The two rows of a round are four times as long, since the second goes there and back. -/
theorem length_rows {rows : BendRows} {depth : UInt32} (h : rows.IsExact depth) :
    rows.firstRow.length = rows.round.toNat ∧
      (rows.firstRow ++ rows.secondRow).length = 4 * rows.round.toNat := by
  have hpadding := h.padding
  constructor
  · simp [firstRow]
    omega
  · simp [firstRow, secondRow]
    omega

theorem countP_secondRow {rows : BendRows} {depth : UInt32} (h : rows.IsExact depth) :
    rows.secondRow.countP (fun stitch => stitch ≠ back ∧ stitch ≠ skip) = rows.round.toNat := by
  have hpadding := h.padding
  simp [secondRow, List.countP_append, List.countP_replicate]
  omega

end BendRows

/-- A walk stays below the greatest word, however many stitches it takes. -/
theorem Walk.pass_lt_of_take {walk : Walk} (h : walk.pass < UInt32.size) (count : Nat) :
    (Walk.take count walk).2.pass < UInt32.size := by
  induction count generalizing walk with
  | zero => exact h
  | succ count ih =>
      rw [Walk.take]
      split
      · exact h
      · rename_i stitch after hnext
        exact ih (Walk.pass_lt_of_next? hnext)

theorem Pattern.layout_bend_eq_error_iff (round depth : UInt32) (fault : Fault) :
    (Pattern.bend round depth).layout = .error fault ↔
      depth ≠ 2 ∧ fault = .bendDepth round depth := by
  constructor
  · intro h
    rcases layout_eq_error h with hcircle | ⟨round', depth', hbend, hdepth, hfault⟩
    · contradiction
    · obtain ⟨rfl, rfl⟩ := Pattern.bend.inj hbend
      exact ⟨hdepth, hfault⟩
  · intro h
    obtain ⟨hdepth, rfl⟩ := h
    have huncovered : depth ≠ BendRows.coveredDepth := hdepth
    rw [layout, BendRows.of, if_pos huncovered]

theorem Pattern.layout_bend {round depth : UInt32} {rows : BendRows}
    (h : BendRows.of round depth = .ok rows) :
    (Pattern.bend round depth).layout = .ok rows.motifs := by
  rw [layout, h]

/-- A bend of two rows unfolds to them, and their measures are exact. -/
theorem exists_unfoldAll_bend (round : UInt32) :
    ∃ rows, BendRows.of round 2 = .ok rows ∧ rows.round = round ∧ rows.IsExact 2 ∧
      unfoldAll [.pattern (.bend round 2)] = .ok (rows.firstRow ++ rows.secondRow) := by
  obtain ⟨rows, hrows, hround, hexact⟩ := BendRows.exists_exact round
  refine ⟨rows, hrows, hround, hexact, ?_⟩
  rw [← BendRows.unfold_motifs hexact]
  exact unfoldAll_pattern (Pattern.layout_bend hrows)

/-- A bend has a layout exactly when it is two rows deep.  Then its two rows work the round once
each, and the bend leaves every offset as it was.  No measure of the layout wraps around, and no
walk through it counts its passes beyond a word. -/
theorem Pattern.works_bend :
    (∀ round depth fault, (Pattern.bend round depth).layout = .error fault ↔
      depth ≠ 2 ∧ fault = .bendDepth round depth) ∧
    ∀ round, ∃ rows, BendRows.of round 2 = .ok rows ∧ rows.round = round ∧ rows.IsExact 2 ∧
      rows.segment.toNat = round.toNat / 4 ∧
      rows.padding.toNat = round.toNat - 4 * rows.segment.toNat ∧ rows.padding.toNat < 4 ∧
      (∀ count, (Walk.take count (Walk.start rows.motifs)).2.pass < UInt32.size) ∧
      unfoldAll [.pattern (.bend round 2)] = .ok (rows.firstRow ++ rows.secondRow) ∧
      (rows.firstRow ++ rows.secondRow).length = 4 * round.toNat ∧
      rows.firstRow.length = round.toNat ∧
      rows.secondRow.countP (fun stitch => stitch ≠ .back ∧ stitch ≠ .skip) = round.toNat ∧
      ∀ offset, Works offset (rows.firstRow ++ rows.secondRow) (rows.steps offset) offset := by
  refine ⟨layout_bend_eq_error_iff, ?_⟩
  intro round
  obtain ⟨rows, hrows, rfl, hexact, hunfold⟩ := exists_unfoldAll_bend round
  have hsegment : rows.segment.toNat = rows.round.toNat / 4 := hexact.segment
  have hpadding := hexact.padding
  have hstart : (Walk.start rows.motifs).pass < UInt32.size := Nat.two_pow_pos 32
  obtain ⟨hfirst, hboth⟩ := BendRows.length_rows hexact
  refine ⟨rows, hrows, rfl, hexact, hsegment, ?_, ?_, Walk.pass_lt_of_take hstart, hunfold, hboth,
    hfirst, BendRows.countP_secondRow hexact, rows.works_rows⟩
  · omega
  · omega

end CrochetShorthand
