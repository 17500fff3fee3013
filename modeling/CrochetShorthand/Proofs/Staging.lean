import CrochetShorthand.Proofs.Faults
import CrochetShorthand.Report
import CrochetShorthand.Stage

/-!
# A line piece by piece, and stage by stage

A report works a line piece by piece, and each stitch of a piece goes through all stages
before the next one.  A stage of a whole line works all pieces before the next stage starts.
Both come to the meaning of the pieces (`Meaning.ofPieces`): the report folds its stitches
into the progress, which shows what the batch would show (`Progress.Shows`), and the stages
take its stitches as a list.

So both show the same tokens when nothing fails, and both fail on the same lines.  They may
fail differently: the report stops at the first piece that cannot be read or unfolded, while the
stages read every piece before they unfold one.
-/

namespace CrochetShorthand

/-! ## The meaning of pieces -/

namespace Command

/-- The fault with which a piece cannot be read. -/
def readFault? (limit : Nat) (piece : Text) : Option Fault :=
  failure? (readPiece limit piece)

/-- The fault with which the command of a piece stops to unfold, when the piece is read. -/
def unfoldFault? (limit : Nat) (piece : Text) : Option Fault :=
  match readPiece limit piece with
  | .error _ => none
  | .ok command => (Unfolding.ofCommand command).toList.2

end Command

/-- Where the first search finds nothing, searching for either finds what the second does. -/
theorem findSome?_or_of_eq_none {α β : Type} {f g : α → Option β} {xs : List α}
    (h : xs.findSome? f = none) :
    (xs.findSome? fun x => (f x).or (g x)) = xs.findSome? g := by
  induction xs with
  | nil => rfl
  | cons x xs ih =>
      obtain ⟨hx, hxs⟩ := List.forall_mem_cons.1 (List.findSome?_eq_none_iff.1 h)
      rw [List.findSome?_cons, List.findSome?_cons, hx, Option.none_or,
        ih (List.findSome?_eq_none_iff.2 hxs)]

namespace Command

/-- The fault of the first piece that cannot be read or whose command stops to unfold. -/
def pieceFault? (limit : Nat) (pieces : List Text) : Option Fault :=
  pieces.findSome? fun piece => (readFault? limit piece).or (unfoldFault? limit piece)

/-- The fault of the first piece that cannot be read; when all are read, the fault of the first
piece whose command stops to unfold. -/
def stageFault? (limit : Nat) (pieces : List Text) : Option Fault :=
  (pieces.findSome? (readFault? limit)).or (pieces.findSome? (unfoldFault? limit))

theorem exists_of_pieceFault? {limit : Nat} {pieces : List Text} {fault : Fault}
    (h : pieceFault? limit pieces = some fault) :
    ∃ piece ∈ pieces,
      readFault? limit piece = some fault ∨ unfoldFault? limit piece = some fault := by
  obtain ⟨piece, hmem, hpiece⟩ := List.exists_of_findSome?_eq_some h
  rcases Option.or_eq_some_iff.1 hpiece with hread | ⟨-, hunfold⟩
  · exact ⟨piece, hmem, .inl hread⟩
  · exact ⟨piece, hmem, .inr hunfold⟩

theorem exists_of_stageFault? {limit : Nat} {pieces : List Text} {fault : Fault}
    (h : stageFault? limit pieces = some fault) :
    ∃ piece ∈ pieces,
      readFault? limit piece = some fault ∨ unfoldFault? limit piece = some fault := by
  rcases Option.or_eq_some_iff.1 h with hread | ⟨-, hunfold⟩
  · obtain ⟨piece, hmem, hpiece⟩ := List.exists_of_findSome?_eq_some hread
    exact ⟨piece, hmem, .inl hpiece⟩
  · obtain ⟨piece, hmem, hpiece⟩ := List.exists_of_findSome?_eq_some hunfold
    exact ⟨piece, hmem, .inr hpiece⟩

theorem readPiece_of_readFault? {limit : Nat} {piece : Text} {fault : Fault}
    (h : readFault? limit piece = some fault) : readPiece limit piece = .error fault :=
  (failure?_eq_some_iff _ _).1 h

/-- A piece whose command stops to unfold is read as one. -/
theorem readPiece_of_unfoldFault? {limit : Nat} {piece : Text} {fault : Fault}
    (h : unfoldFault? limit piece = some fault) :
    ∃ command, readPiece limit piece = .ok command ∧
      (Meaning.ofCommand command).fault = some fault := by
  unfold unfoldFault? at h
  split at h
  · contradiction
  · rename_i command hread
    rw [Unfolding.ofCommand, Unfolding.toList_ofCommands, Meaning.ofCommands_singleton] at h
    exact ⟨command, hread, h⟩

end Command

open Command (readFault? unfoldFault? pieceFault? stageFault? readPiece spokenPieces
  readPiece_of_readFault? readPiece_of_unfoldFault?)

namespace Meaning

/-- The meaning of a piece: the fault with which it cannot be read, or what its command means. -/
def ofPiece (limit : Nat) (piece : Text) : Meaning :=
  match readPiece limit piece with
  | .error fault => ⟨[], some fault⟩
  | .ok command => ofCommand command

/-- The meaning of pieces in order. -/
def ofPieces (limit : Nat) : List Text → Meaning
  | [] => nothing
  | piece :: rest => (ofPiece limit piece).andThen (ofPieces limit rest)

theorem ofPieces_append (limit : Nat) (first second : List Text) :
    ofPieces limit (first ++ second) = (ofPieces limit first).andThen (ofPieces limit second) := by
  induction first with
  | nil => rfl
  | cons piece first ih => rw [List.cons_append, ofPieces, ofPieces, ih, andThen_assoc]

theorem fault_ofPiece (limit : Nat) (piece : Text) :
    (ofPiece limit piece).fault = (readFault? limit piece).or (unfoldFault? limit piece) := by
  unfold ofPiece readFault? unfoldFault?
  cases readPiece limit piece with
  | error fault => rfl
  | ok command =>
      dsimp only
      rw [Unfolding.ofCommand, Unfolding.toList_ofCommands, ofCommands_singleton]
      rfl

/-- The fault of pieces is that of the first piece that has one. -/
theorem fault_ofPieces (limit : Nat) (pieces : List Text) :
    (ofPieces limit pieces).fault = pieceFault? limit pieces := by
  induction pieces with
  | nil => rfl
  | cons piece rest ih =>
      rw [ofPieces, pieceFault?, List.findSome?_cons, ← fault_ofPiece, andThen]
      cases hfault : (ofPiece limit piece).fault with
      | none => exact ih
      | some fault => exact hfault

theorem ofPieces_eq_ofCommands {limit : Nat} {pieces : List Text} {commands : List Command}
    (h : pieces.mapM (readPiece limit) = .ok commands) :
    ofPieces limit pieces = ofCommands commands := by
  have hread := (mapM_eq_ok_iff_forall₂ _ _ _).1 h
  clear h
  induction hread with
  | nil => rfl
  | cons hpiece _ ih => rw [ofPieces, ofCommands, ih, ofPiece, hpiece]

/-- Pieces mean stitches without a fault exactly when all of them are read, and their commands
mean these stitches without a fault. -/
theorem ofPieces_eq_unfaulted_iff (limit : Nat) (pieces : List Text) (stitches : List Stitch) :
    ofPieces limit pieces = ⟨stitches, none⟩ ↔
      ∃ commands, pieces.mapM (readPiece limit) = .ok commands ∧
        ofCommands commands = ⟨stitches, none⟩ := by
  constructor
  · intro h
    have hfault := fault_ofPieces limit pieces
    rw [h, eq_comm, pieceFault?, List.findSome?_eq_none_iff] at hfault
    cases hread : pieces.mapM (readPiece limit) with
    | ok commands =>
        rw [ofPieces_eq_ofCommands hread] at h
        exact ⟨commands, rfl, h⟩
    | error first =>
        -- The piece that cannot be read would be a fault of the pieces.
        obtain ⟨piece, hmem, hpiece⟩ := exists_of_mapM_eq_error _ hread
        have hnone := hfault piece hmem
        rw [readFault?, hpiece] at hnone
        contradiction
  · intro h
    obtain ⟨commands, hread, hmeaning⟩ := h
    rw [ofPieces_eq_ofCommands hread, hmeaning]

end Meaning

/-! ## Piece by piece -/

namespace Progress

/-- The progress holds and has completed what the steps of a working show, and has reached its
offset. -/
structure Shows (progress : Progress) (working : Working) : Prop where
  offset : progress.offset = working.offset
  tokens : (progress.latest, progress.held) = working.steps.foldl Run.feedOnto ([], none)

theorem foldl_feed (steps : List Step) (progress : Progress) :
    (steps.foldl feed progress).offset = progress.offset ∧
      ((steps.foldl feed progress).latest, (steps.foldl feed progress).held) =
        steps.foldl Run.feedOnto (progress.latest, progress.held) := by
  induction steps generalizing progress with
  | nil => exact ⟨rfl, rfl⟩
  | cons step steps ih =>
      obtain ⟨hoffset, htokens⟩ := ih (progress.feed step)
      exact ⟨hoffset, htokens⟩

theorem Shows.work {progress : Progress} {working : Working} (h : Shows progress working)
    (stitch : Stitch) : Shows (progress.work stitch) (working.work stitch) := by
  obtain ⟨hoffset, htokens⟩ := foldl_feed (stitch.steps progress.offset) progress
  constructor
  · show (((stitch.steps progress.offset).foldl feed progress).offset + stitch.drift) = _
    rw [hoffset, h.offset]
    rfl
  · rw [Working.steps_work, List.foldl_append, ← h.tokens, ← h.offset]
    exact htokens

theorem Shows.foldl_work {progress : Progress} {working : Working} (h : Shows progress working)
    (stitches : List Stitch) :
    Shows (stitches.foldl Progress.work progress) (stitches.foldl Working.work working) := by
  induction stitches generalizing progress working with
  | nil => exact h
  | cons stitch stitches ih => exact ih (h.work stitch)

/-- Working the stitches of a line from its start shows what the batch shows. -/
theorem shows_workFrom (stitches : List Stitch) :
    Shows (stitches.foldl Progress.work start) (workFrom 0 stitches) := by
  have hstart : Shows start ⟨0, []⟩ := ⟨rfl, rfl⟩
  exact hstart.foldl_work stitches

theorem workPieces_eq (limit : Nat) (pieces : List Text) (progress : Progress) :
    workPieces limit pieces progress =
      ((Meaning.ofPieces limit pieces).stitches.foldl work progress,
        (Meaning.ofPieces limit pieces).fault) := by
  induction pieces generalizing progress with
  | nil => rfl
  | cons piece rest ih =>
      rw [workPieces, Meaning.ofPieces, Meaning.ofPiece]
      cases readPiece limit piece with
      | error fault => rfl
      | ok command =>
          dsimp only
          rw [Unfolding.ofCommand, Unfolding.foldl_ofCommands, Meaning.ofCommands_singleton,
            Meaning.andThen]
          cases hfault : (Meaning.ofCommand command).fault with
          | some fault => simp [hfault]
          | none => simp [ih, List.foldl_append]

end Progress

namespace Report

theorem fault_ofLine (limit : Nat) (line : Text) :
    (ofLine limit line).fault = (Meaning.ofPieces limit (spokenPieces line)).fault := by
  rw [ofLine, Progress.workLine, Progress.workPieces_eq]
  cases (Meaning.ofPieces limit (spokenPieces line)).fault <;> rfl

/-- The report of a line depends only on what its pieces mean. -/
theorem ofLine_eq_of_ofPieces_eq {limit : Nat} {line other : Text}
    (h : Meaning.ofPieces limit (spokenPieces line) =
      Meaning.ofPieces limit (spokenPieces other)) : ofLine limit line = ofLine limit other := by
  simp only [ofLine, Progress.workLine, Progress.workPieces_eq, h]

/-- A line without a fault shows the tokens of all its stitches. -/
theorem ofLine_of_fault_eq_none {limit : Nat} {line : Text}
    (h : (Meaning.ofPieces limit (spokenPieces line)).fault = none) :
    ofLine limit line =
      ⟨displayAll (workAll (Meaning.ofPieces limit (spokenPieces line)).stitches), none⟩ := by
  rw [ofLine, Progress.workLine, Progress.workPieces_eq, h, ofProgress]
  have hshows := Progress.shows_workFrom (Meaning.ofPieces limit (spokenPieces line)).stitches
  obtain ⟨hlatest, hheld⟩ := Prod.mk.inj hshows.tokens
  simp only [Progress.flush, Progress.displays, hlatest, hheld, displayAll, workAll]

end Report

/-! ## Stage by stage -/

theorem unfoldAll_eq_ok_iff (commands : List Command) (stitches : List Stitch) :
    unfoldAll commands = .ok stitches ↔ Meaning.ofCommands commands = ⟨stitches, none⟩ := by
  rw [unfoldAll, Unfolding.toList_ofCommands]
  obtain ⟨found, fault⟩ := Meaning.ofCommands commands
  cases fault <;> simp

theorem unfoldAll_eq_error_iff (commands : List Command) (fault : Fault) :
    unfoldAll commands = .error fault ↔ (Meaning.ofCommands commands).fault = some fault := by
  rw [unfoldAll, Unfolding.toList_ofCommands]
  obtain ⟨found, fault⟩ := Meaning.ofCommands commands
  cases fault <;> simp

namespace Stage

/-- The stages before the steps fail with the first fault of reading, and without one with the
first fault of unfolding. -/
theorem stitchesOf_eq_error_iff (limit : Nat) (line : Text) (fault : Fault) :
    stitchesOf limit line = .error fault ↔ stageFault? limit (spokenPieces line) = some fault := by
  have hreadFault := fun e => mapM_eq_error_iff (readPiece limit) (spokenPieces line) e
  rw [stitchesOf, tokensOf, Command.readLine]
  cases hread : (spokenPieces line).mapM (readPiece limit) with
  | error first =>
      have hfirst : (spokenPieces line).findSome? (readFault? limit) = some first :=
        (hreadFault first).1 hread
      simp [stageFault?, hfirst]
  | ok commands =>
      -- All pieces are read, so that the first fault of a piece is one of unfolding.
      have hnone : (spokenPieces line).findSome? (readFault? limit) = none := by
        apply Option.eq_none_iff_forall_ne_some.2
        intro e he
        rw [(hreadFault e).2 he] at hread
        contradiction
      have hunfold : (spokenPieces line).findSome? (unfoldFault? limit) =
          (Meaning.ofPieces limit (spokenPieces line)).fault := by
        rw [Meaning.fault_ofPieces, pieceFault?, findSome?_or_of_eq_none hnone]
      rw [stageFault?, hnone, hunfold, Option.none_or, Meaning.ofPieces_eq_ofCommands hread]
      exact unfoldAll_eq_error_iff commands fault

/-- The stages give the stitches of a line exactly when its pieces mean these without a fault. -/
theorem stitchesOf_eq_ok_iff (limit : Nat) (line : Text) (stitches : List Stitch) :
    stitchesOf limit line = .ok stitches ↔
      Meaning.ofPieces limit (spokenPieces line) = ⟨stitches, none⟩ := by
  rw [Meaning.ofPieces_eq_unfaulted_iff, stitchesOf, tokensOf, Command.readLine]
  cases (spokenPieces line).mapM (readPiece limit) with
  | error first => simp
  | ok commands => simp [unfoldAll_eq_ok_iff]

theorem displaysOf_eq_ok_iff (limit : Nat) (line : Text) (displays : List Text) :
    displaysOf limit line = .ok displays ↔ Report.ofLine limit line = ⟨displays, none⟩ := by
  have hstages : displaysOf limit line = .ok displays ↔
      ∃ stitches, stitchesOf limit line = .ok stitches ∧
        displayAll (workAll stitches) = displays := by
    rw [displaysOf, stepsOf]
    cases stitchesOf limit line <;> simp [Except.map]
  rw [hstages]
  constructor
  · intro h
    obtain ⟨stitches, hstitches, rfl⟩ := h
    have hmeaning := (stitchesOf_eq_ok_iff limit line stitches).1 hstitches
    have hfault : (Meaning.ofPieces limit (spokenPieces line)).fault = none := by rw [hmeaning]
    rw [Report.ofLine_of_fault_eq_none hfault, hmeaning]
  · intro hreport
    have hfault : (Meaning.ofPieces limit (spokenPieces line)).fault = none := by
      rw [← Report.fault_ofLine, hreport]
    rw [Report.ofLine_of_fault_eq_none hfault] at hreport
    refine ⟨_, (stitchesOf_eq_ok_iff limit line _).2 ?_, congrArg Report.displays hreport⟩
    rw [← hfault]

theorem stepsOf_eq_error_iff (limit : Nat) (line : Text) (fault : Fault) :
    stepsOf limit line = .error fault ↔ stitchesOf limit line = .error fault := by
  rw [stepsOf]
  cases stitchesOf limit line <;> simp [Except.map]

theorem displaysOf_eq_error_iff (limit : Nat) (line : Text) (fault : Fault) :
    displaysOf limit line = .error fault ↔ stitchesOf limit line = .error fault := by
  rw [displaysOf, ← stepsOf_eq_error_iff]
  cases stepsOf limit line <;> simp [Except.map]

/-- When the stages fail, so does the report. -/
theorem exists_fault_of_displaysOf_error {limit : Nat} {line : Text} {fault : Fault}
    (h : displaysOf limit line = .error fault) :
    ∃ found, (Report.ofLine limit line).fault = some found := by
  cases hreport : (Report.ofLine limit line).fault with
  | some found => exact ⟨found, rfl⟩
  | none =>
      have hok := (displaysOf_eq_ok_iff limit line (Report.ofLine limit line).displays).2
        (by rw [← hreport])
      rw [hok] at h
      contradiction

/-- Where the faults differ, the first piece that does not unfold stands before the first piece
that cannot be read. -/
theorem unfolds_before_read {limit : Nat} {pieces : List Text} {early late : Fault}
    (hearly : pieceFault? limit pieces = some early)
    (hlate : stageFault? limit pieces = some late) (hne : early ≠ late) :
    ∃ before bent between unread after, pieces = before ++ bent :: between ++ unread :: after ∧
      unfoldFault? limit bent = some early ∧ readFault? limit unread = some late := by
  unfold pieceFault? at hearly
  unfold stageFault? at hlate
  cases hread : pieces.findSome? (readFault? limit) with
  | none =>
      rw [findSome?_or_of_eq_none hread] at hearly
      rw [hread, hearly] at hlate
      exact absurd (Option.some.inj hlate) hne
  | some first =>
      rw [hread] at hlate
      obtain rfl := Option.some.inj hlate
      -- The pieces in front of the first fault can all be read, so the fault of reading comes
      -- from that piece, and then both faults are the same, or from a piece behind it.
      obtain ⟨before, bent, rest, rfl, hbent, hbefore⟩ := List.findSome?_eq_some_iff.1 hearly
      have hskip : before.findSome? (readFault? limit) = none := by
        rw [List.findSome?_eq_none_iff]
        intro piece hmem
        exact (Option.or_eq_none_iff.1 (hbefore piece hmem)).1
      rw [List.findSome?_append, hskip, Option.none_or, List.findSome?_cons] at hread
      cases hbentRead : readFault? limit bent with
      | some found =>
          rw [hbentRead] at hread hbent
          exact absurd (Option.some.inj (hbent.symm.trans hread)) hne
      | none =>
          rw [hbentRead] at hread hbent
          obtain ⟨between, unread, after, rfl, hunread, -⟩ := List.findSome?_eq_some_iff.1 hread
          exact ⟨before, bent, between, unread, after, by simp, hbent, hunread⟩

/-- The report and the stages of a line show the same tokens, and both fail when one does.  The
report fails with the first fault of a piece, whether the piece cannot be read or its command
stops to unfold.  The stages fail with the first fault of reading, and only without one
with the first fault of unfolding.  The faults differ only when a piece with a bend that
is not two rows deep stands before a piece that cannot be read. -/
theorem report_and_stages_agree (limit : Nat) (line : Text) :
    (∀ displays,
      displaysOf limit line = .ok displays ↔ Report.ofLine limit line = ⟨displays, none⟩) ∧
    ((∃ fault, displaysOf limit line = .error fault) ↔
      ∃ fault, (Report.ofLine limit line).fault = some fault) ∧
    (Report.ofLine limit line).fault = pieceFault? limit (spokenPieces line) ∧
    (∀ fault,
      (stitchesOf limit line = .error fault ↔
        stageFault? limit (spokenPieces line) = some fault) ∧
      (stepsOf limit line = .error fault ↔
        stageFault? limit (spokenPieces line) = some fault) ∧
      (displaysOf limit line = .error fault ↔
        stageFault? limit (spokenPieces line) = some fault)) ∧
    ∀ early late, (Report.ofLine limit line).fault = some early →
      displaysOf limit line = .error late → early ≠ late →
        ∃ before bent between unread after command round depth,
          spokenPieces line = before ++ bent :: between ++ unread :: after ∧
            readPiece limit bent = .ok command ∧
            .pattern (.bend round depth) ∈ command.within ∧ depth ≠ BendRows.coveredDepth ∧
            early = .bendDepth round depth ∧ readPiece limit unread = .error late := by
  refine ⟨displaysOf_eq_ok_iff limit line, ?_, ?_, ?_, ?_⟩
  · constructor
    · intro h
      obtain ⟨fault, hfault⟩ := h
      exact exists_fault_of_displaysOf_error hfault
    · intro h
      obtain ⟨fault, hfault⟩ := h
      cases hdisplays : displaysOf limit line with
      | error found => exact ⟨found, rfl⟩
      | ok displays =>
          rw [(displaysOf_eq_ok_iff limit line displays).1 hdisplays] at hfault
          contradiction
  · rw [Report.fault_ofLine, Meaning.fault_ofPieces]
  · intro fault
    rw [displaysOf_eq_error_iff, stepsOf_eq_error_iff, stitchesOf_eq_error_iff]
    exact ⟨Iff.rfl, Iff.rfl, Iff.rfl⟩
  · intro early late hearly hlate hne
    rw [Report.fault_ofLine, Meaning.fault_ofPieces] at hearly
    rw [displaysOf_eq_error_iff, stitchesOf_eq_error_iff] at hlate
    obtain ⟨before, bent, between, unread, after, hpieces, hbent, hunread⟩ :=
      unfolds_before_read hearly hlate hne
    obtain ⟨command, hread, hfault⟩ := readPiece_of_unfoldFault? hbent
    obtain ⟨round, depth, hinside, hdepth, rfl⟩ := Command.fault_of_readPiece hread hfault
    exact ⟨before, bent, between, unread, after, command, round, depth, hpieces, hread, hinside,
      hdepth, rfl, readPiece_of_readFault? hunread⟩

-- A bend of three rows stands before a piece that is no word.
example :
    (Report.ofLine 64 "bend(1,3) x".toList).fault = some (.bendDepth 1 3) ∧
      displaysOf 64 "bend(1,3) x".toList = .error (.unknownPiece "x".toList) := by
  decide +kernel

end Stage

end CrochetShorthand
