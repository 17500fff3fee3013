import CrochetShorthand.Proofs.Notation
import CrochetShorthand.Proofs.Staging
import CrochetShorthand.Session

/-!
# A line written out in stitches

Groups and patterns only save writing.  The stitches that a line unfolds into can be written as a
line themselves, their keywords with one space between neighbours (`Stage.flatLine`), and this
line has the same report as the first.  It needs no brackets, so that it is read under any limit
on nested groups.

The first line gives its stitches piece by piece, from whatever depth of nesting, and the second
gives one stitch a piece.  Both come to the same meaning, and the report depends on nothing else.
-/

namespace CrochetShorthand

open Command (readLine spokenPieces)

namespace Meaning

/-- Commands that are single stitches mean these stitches. -/
theorem ofCommands_map_stitch (stitches : List Stitch) :
    ofCommands (stitches.map Command.stitch) = ⟨stitches, none⟩ := by
  induction stitches with
  | nil => rfl
  | cons stitch rest ih =>
      rw [List.map_cons, ofCommands, ih, ofCommand, andThen, List.singleton_append]

end Meaning

namespace Stage

/-- The keywords of stitches as one line. -/
def flatLine (stitches : List Stitch) : Text :=
  Text.joinWith [' '] (stitches.map Stitch.keyword)

theorem flatLine_eq_joinWith_render (stitches : List Stitch) :
    flatLine stitches = Text.joinWith [' '] ((stitches.map Command.stitch).map Command.render) := by
  rw [flatLine, List.map_map]
  rfl

/-- Every keyword is read as its stitch, and no level of nesting is needed for it. -/
theorem readLine_flatLine (limit : Nat) (stitches : List Stitch) :
    readLine limit (flatLine stitches) = .ok (stitches.map Command.stitch) := by
  rw [flatLine_eq_joinWith_render, readLine, Command.spokenPieces_joinWith_render,
    Command.mapM_render_eq_ok_iff, List.forall_mem_map]
  intro stitch _
  exact Command.readPieceAt_of_wordDenotes limit limit (.stitch stitch)

theorem ofPieces_flatLine (limit : Nat) (stitches : List Stitch) :
    Meaning.ofPieces limit (spokenPieces (flatLine stitches)) = ⟨stitches, none⟩ := by
  rw [Meaning.ofPieces_eq_ofCommands (readLine_flatLine limit stitches),
    Meaning.ofCommands_map_stitch]

/-- The stitches of a line written out as a line have the report of the line, under whatever limit
they are read, and give the same stitches again.  They are what the line is written as at the
stage of the stitches, when neighbours are separated by a space. -/
theorem ofLine_flatLine_of_stitchesOf {limit : Nat} {line : Text} {stitches : List Stitch}
    (h : stitchesOf limit line = .ok stitches) (other : Nat) :
    (Report.ofLine other (flatLine stitches)).fault = none ∧
      Report.ofLine other (flatLine stitches) = Report.ofLine limit line ∧
      stitchesOf other (flatLine stitches) = .ok stitches ∧
      ∀ leading, (Session.items .stitches limit line).map (Session.dump .text ⟨leading, [' ']⟩) =
        .ok (.done (leading ++ flatLine stitches ++ ['\n'])) := by
  have hline := (stitchesOf_eq_ok_iff limit line stitches).1 h
  have hflat := ofPieces_flatLine other stitches
  have hlineFault : (Meaning.ofPieces limit (spokenPieces line)).fault = none := by rw [hline]
  have hflatFault : (Meaning.ofPieces other (spokenPieces (flatLine stitches))).fault = none := by
    rw [hflat]
  refine ⟨?_, ?_, (stitchesOf_eq_ok_iff other _ stitches).2 hflat, ?_⟩
  · rw [Report.fault_ofLine, hflat]
  · rw [Report.ofLine_of_fault_eq_none hflatFault, Report.ofLine_of_fault_eq_none hlineFault, hflat,
      hline]
  · intro leading
    have hkeywords : (stitches.map fun s => (s.keyword, Dump.ofStitch s)).map Prod.fst =
        stitches.map Stitch.keyword := by
      rw [List.map_map]
      rfl
    rw [Session.items, h]
    show Except.ok (Session.dump .text _ _) = _
    rw [Session.dump, hkeywords]
    rfl

/-- The nested groups and the circle are gone, so that not even one level of groups is needed. -/
theorem ofLine_flatLine_of_nested :
    stitchesOf 2 "[sc [inc]2]2 mc(2)".toList =
        .ok [.singleCrochet, .increase, .increase, .singleCrochet, .increase, .increase, .chain,
          .chain, .back, .singleCrochet] ∧
      Report.ofLine 0 "sc inc inc sc inc inc c c bk sc".toList =
        Report.ofLine 2 "[sc [inc]2]2 mc(2)".toList := by
  have hstitches : stitchesOf 2 "[sc [inc]2]2 mc(2)".toList =
      .ok [.singleCrochet, .increase, .increase, .singleCrochet, .increase, .increase, .chain,
        .chain, .back, .singleCrochet] := by
    decide +kernel
  obtain ⟨-, hreport, -⟩ := ofLine_flatLine_of_stitchesOf hstitches 0
  exact ⟨hstitches, hreport⟩

end Stage

end CrochetShorthand
