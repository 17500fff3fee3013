import CrochetShorthand.Proofs.Staging

/-!
# What an interrupted line shows

A line stops at the first piece that fails.  Its stitches up to there are those of the pieces in
front of it, and the stitches that the piece itself gives before its fault.

The display of these stitches, taken alone, would end with the run that is still held back when
the fault comes.  The report shows everything in front of that run, and nothing else.
-/

namespace CrochetShorthand

open Command (readPiece readLine spokenPieces)

/-! ## The run held back -/

/-- After a step there is a run held back. -/
theorem Run.exists_held_feedOnto (state : List Text × Option Run) (step : Step) :
    ∃ run, (feedOnto state step).2 = some run := by
  obtain ⟨latest, held⟩ := state
  cases held with
  | none => exact ⟨_, rfl⟩
  | some run =>
      by_cases htext : run.text = step.render
      · exact ⟨⟨run.text, run.count + 1⟩, by simp [feedOnto, feed, htext]⟩
      · exact ⟨⟨step.render, 1⟩, by simp [feedOnto, feed, htext]⟩

/-- The tokens that steps complete are all that they show except the last. -/
theorem latest_reverse_eq_dropLast (steps : List Step) :
    (steps.foldl Run.feedOnto ([], none)).1.reverse = (displayAll steps).dropLast := by
  rcases List.eq_nil_or_concat steps with rfl | ⟨before, last, rfl⟩
  · rfl
  · rw [displayAll, List.concat_eq_append, List.foldl_append]
    obtain ⟨run, hrun⟩ := Run.exists_held_feedOnto (before.foldl Run.feedOnto ([], none)) last
    simp [hrun, Run.flush]

/-! ## The piece that fails -/

namespace Meaning

/-- Pieces with a fault come to the stitches of the pieces in front of the one that fails, and to
what that piece gives before its fault. -/
theorem exists_failing_of_ofPieces {limit : Nat} {pieces : List Text} {fault : Fault}
    (h : (ofPieces limit pieces).fault = some fault) :
    ∃ before failing after stitches, pieces = before ++ failing :: after ∧
      ofPieces limit before = ⟨stitches, none⟩ ∧ (ofPiece limit failing).fault = some fault ∧
      (ofPieces limit pieces).stitches = stitches ++ (ofPiece limit failing).stitches := by
  induction pieces with
  | nil => contradiction
  | cons piece rest ih =>
      rw [ofPieces, andThen] at h ⊢
      cases hfault : (ofPiece limit piece).fault with
      | some found =>
          simp only [hfault] at h ⊢
          refine ⟨[], piece, rest, [], rfl, rfl, ?_, rfl⟩
          rw [hfault]
          exact h
      | none =>
          simp only [hfault] at h ⊢
          obtain ⟨before, failing, after, stitches, rfl, hbefore, hfailing, hstitches⟩ := ih h
          refine ⟨piece :: before, failing, after, (ofPiece limit piece).stitches ++ stitches, rfl,
            ?_, hfailing, ?_⟩
          · rw [ofPieces, hbefore, andThen, hfault]
          · rw [hstitches, List.append_assoc]

/-- A piece with a fault cannot be read and gives no stitch, or it is read and its command stops
to unfold. -/
theorem exists_of_fault_ofPiece {limit : Nat} {piece : Text} {fault : Fault}
    (h : (ofPiece limit piece).fault = some fault) :
    (readPiece limit piece = .error fault ∧ (ofPiece limit piece).stitches = []) ∨
      ∃ command, readPiece limit piece = .ok command ∧
        ofCommand command = ⟨(ofPiece limit piece).stitches, some fault⟩ := by
  rw [ofPiece] at h ⊢
  cases hread : readPiece limit piece with
  | error found =>
      rw [hread] at h
      obtain rfl := Option.some.inj h
      exact .inl ⟨rfl, rfl⟩
  | ok command =>
      rw [hread] at h
      refine .inr ⟨command, rfl, ?_⟩
      rw [← h]

end Meaning

/-! ## The report -/

namespace Report

/-- A line with a fault shows what its stitches up to the fault would show, without the last
token. -/
theorem displays_ofLine_of_fault {limit : Nat} {line : Text} {fault : Fault}
    (h : (Meaning.ofPieces limit (spokenPieces line)).fault = some fault) :
    (ofLine limit line).displays =
      (displayAll
        (workAll (Meaning.ofPieces limit (spokenPieces line)).stitches)).dropLast := by
  rw [ofLine, Progress.workLine, Progress.workPieces_eq, h, ofProgress, Progress.displays]
  have hshows := Progress.shows_workFrom (Meaning.ofPieces limit (spokenPieces line)).stitches
  obtain ⟨hlatest, -⟩ := Prod.mk.inj hshows.tokens
  rw [hlatest, latest_reverse_eq_dropLast]
  rfl

/-- A line that fails shows the stitches of the pieces in front of the failing one and those
that the failing piece gives before its fault, without the token that is held back: the failing
piece cannot be read, and gives none, or its command stops to unfold.  A line that does not
fail shows all its stitches. -/
theorem displays_ofLine_exact (limit : Nat) (line : Text) :
    (∀ fault, (ofLine limit line).fault = some fault →
      ∃ before failing after commands stitches given,
        spokenPieces line = before ++ failing :: after ∧
          before.mapM (readPiece limit) = .ok commands ∧
          Meaning.ofCommands commands = ⟨stitches, none⟩ ∧
          ((readPiece limit failing = .error fault ∧ given = []) ∨
            ∃ command, readPiece limit failing = .ok command ∧
              Meaning.ofCommand command = ⟨given, some fault⟩) ∧
          (ofLine limit line).displays =
            (displayAll (workAll (stitches ++ given))).dropLast) ∧
    ((ofLine limit line).fault = none →
      ∃ commands stitches, readLine limit line = .ok commands ∧
        Meaning.ofCommands commands = ⟨stitches, none⟩ ∧
        (ofLine limit line).displays = displayAll (workAll stitches)) := by
  rw [fault_ofLine]
  constructor
  · intro fault hfault
    obtain ⟨before, failing, after, stitches, hpieces, hbefore, hfailing, hstitches⟩ :=
      Meaning.exists_failing_of_ofPieces hfault
    obtain ⟨commands, hread, hmeaning⟩ :=
      (Meaning.ofPieces_eq_unfaulted_iff limit before stitches).1 hbefore
    refine ⟨before, failing, after, commands, stitches, _, hpieces, hread, hmeaning,
      Meaning.exists_of_fault_ofPiece hfailing, ?_⟩
    rw [displays_ofLine_of_fault hfault, hstitches]
  · intro hfault
    have hmeaning : Meaning.ofPieces limit (spokenPieces line) =
        ⟨(Meaning.ofPieces limit (spokenPieces line)).stitches, none⟩ := by
      rw [← hfault]
    obtain ⟨commands, hread, hcommands⟩ :=
      (Meaning.ofPieces_eq_unfaulted_iff limit (spokenPieces line) _).1 hmeaning
    refine ⟨commands, _, hread, hcommands, ?_⟩
    rw [ofLine_of_fault_eq_none hfault]

/-- A bend stops a group in its first pass, behind two of its stitches. -/
theorem displays_ofLine_bent_group :
    (ofLine 32 "sc c [sc inc bend(4,3)]2 sc".toList).fault = some (.bendDepth 4 3) ∧
      (ofLine 32 "sc c sc".toList).fault = none ∧
      (∃ before failing after commands stitches given,
        spokenPieces "sc c [sc inc bend(4,3)]2 sc".toList = before ++ failing :: after ∧
          before.mapM (readPiece 32) = .ok commands ∧
          Meaning.ofCommands commands = ⟨stitches, none⟩ ∧
          ((readPiece 32 failing = .error (.bendDepth 4 3) ∧ given = []) ∨
            ∃ command, readPiece 32 failing = .ok command ∧
              Meaning.ofCommand command = ⟨given, some (.bendDepth 4 3)⟩) ∧
          (ofLine 32 "sc c [sc inc bend(4,3)]2 sc".toList).displays =
            (displayAll (workAll (stitches ++ given))).dropLast) ∧
      ∃ commands stitches, readLine 32 "sc c sc".toList = .ok commands ∧
        Meaning.ofCommands commands = ⟨stitches, none⟩ ∧
        (ofLine 32 "sc c sc".toList).displays = displayAll (workAll stitches) := by
  have hbent : (ofLine 32 "sc c [sc inc bend(4,3)]2 sc".toList).fault = some (.bendDepth 4 3) := by
    decide +kernel
  have hwhole : (ofLine 32 "sc c sc".toList).fault = none := by
    decide +kernel
  exact ⟨hbent, hwhole, (displays_ofLine_exact 32 _).1 _ hbent,
    (displays_ofLine_exact 32 _).2 hwhole⟩

-- The second step of the increase is held back when the bend comes, and is lost.
example :
    (ofLine 32 "sc c [sc inc bend(4,3)]2 sc".toList).displays =
      ["sc-0".toList, "c".toList, "(sc-0)2".toList] := by
  decide +kernel

end Report

end CrochetShorthand
