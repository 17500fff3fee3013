import CrochetShorthand.Proofs.Splitting
import CrochetShorthand.Proofs.Staging

/-!
# What messages quote

The message of a fault quotes between single quotes what is at fault.  A piece that cannot be
read is quoted as it stands in the line, also when it stands inside groups: the body of a group
is a part of its piece, and the pieces of a body are parts of the body.

A bend of a depth that is not covered is quoted in its notation.  Where it stands in the
line its numerals may have leading zeros, which the notation does not have, so that its quote
need not be a part of the line.
-/

namespace CrochetShorthand

open Command (GroupPiece WordDenotes readPieceAt readFault? unfoldFault? spokenPieces)
open Decimal (Numeral)

/-! ## The quote of a message -/

namespace Text

/-- The text between the first and the last `mark`; `none` when there are not two. -/
def between? (mark : Char) (t : Text) : Option Text :=
  match t.dropWhile (· != mark) with
  | [] => none
  | _ :: rest => (splitLast mark rest).map Prod.fst

theorem between?_eq_some {mark : Char} {front back : Text} (hfront : mark ∉ front)
    (hback : mark ∉ back) (quote : Text) :
    between? mark ((front ++ [mark]) ++ quote ++ mark :: back) = some quote := by
  have hskip : ∀ c ∈ front, (c != mark) = true := by
    intro c hc
    rw [bne_iff_ne]
    rintro rfl
    exact hfront hc
  have hstop : ∀ c ∈ (mark :: (quote ++ mark :: back)).head?, (c != mark) = false :=
    stops_cons (by simp) _
  have hsplit := (splitLast_eq_some_iff mark (quote ++ mark :: back) quote back).2 ⟨rfl, hback⟩
  rw [between?, List.append_assoc, List.append_assoc, List.singleton_append,
    (takeWhile_append_of_stop hskip hstop).2]
  dsimp only
  rw [hsplit]
  rfl

end Text

namespace Fault

/-- What the message of a fault has between its first and its last single quote. -/
def quoted? (fault : Fault) : Option Text :=
  Text.between? '\'' fault.message

theorem quoted?_unknownPiece (piece : Text) : (unknownPiece piece).quoted? = some piece := by
  have hopening : "Unknown input '".toList = "Unknown input ".toList ++ ['\''] := by decide
  have hclosing : "'.".toList = '\'' :: ".".toList := by decide
  show Text.between? '\'' ("Unknown input '".toList ++ piece ++ "'.".toList) = some piece
  rw [hopening, hclosing, Text.between?_eq_some (by decide) (by decide)]

theorem quoted?_bendDepth (round depth : UInt32) :
    (bendDepth round depth).quoted? = some (Pattern.bend round depth).render := by
  have hopening : "Only a bend depth of 2 is supported, found '".toList =
      "Only a bend depth of 2 is supported, found ".toList ++ ['\''] := by decide
  have hclosing : "'.".toList = '\'' :: ".".toList := by decide
  show Text.between? '\'' ("Only a bend depth of 2 is supported, found '".toList ++
    (Pattern.bend round depth).render ++ "'.".toList) = some (Pattern.bend round depth).render
  rw [hopening, hclosing, Text.between?_eq_some (by decide) (by decide)]

theorem quoted?_tooDeep (piece : Text) (limit : Nat) :
    (tooDeep piece limit).quoted? = some piece := by
  have hopening : "Group '".toList = "Group ".toList ++ ['\''] := by decide
  have hclosing : "' is nested more than ".toList = '\'' :: " is nested more than ".toList := by
    decide
  have hlimit : '\'' ∉ Decimal.ofNat limit := (Decimal.isRun_ofNat limit).not_mem (by decide)
  have hback : '\'' ∉ " is nested more than ".toList ++ Decimal.ofNat limit ++
      " levels deep.".toList := by simp [hlimit]
  show Text.between? '\'' ("Group '".toList ++ piece ++ "' is nested more than ".toList ++
    Decimal.ofNat limit ++ " levels deep.".toList) = some piece
  have hfront : '\'' ∉ "Group ".toList := by decide
  rw [hopening, hclosing, ← Text.between?_eq_some hfront hback piece]
  simp only [List.append_assoc, List.cons_append]

end Fault

/-! ## Parts of a line -/

/-- A piece that a line says is a part of the line. -/
theorem infix_of_mem_spokenPieces {line piece : Text} (h : piece ∈ spokenPieces line) :
    piece ≠ [] ∧ piece <:+: line := by
  rw [spokenPieces] at h
  split at h
  · contradiction
  · obtain ⟨before, blanks, after, hpulls, hsuffix⟩ := LineScan.exists_pulls_of_mem h
    constructor
    · obtain ⟨c, rest, rfl, -⟩ := hpulls.head
      exact List.cons_ne_nil c rest
    · have hpart : piece <:+: before.rest := ⟨blanks, after.rest, hpulls.split.symm⟩
      exact hpart.trans hsuffix.isInfix

namespace Command

theorem GroupPiece.body_infix {piece body : Text} {times : UInt32}
    (h : GroupPiece piece body times) : body <:+: piece := by
  obtain ⟨digits, -, rfl⟩ := h.numeral
  exact ⟨['['], ']' :: digits, by simp⟩

/-- A piece in the body of a group is a part of the group. -/
theorem GroupPiece.infix_of_mem {piece body inner : Text} {times : UInt32}
    (h : GroupPiece piece body times) (hinner : inner ∈ spokenPieces body) :
    inner ≠ [] ∧ inner <:+: piece := by
  obtain ⟨hnonempty, hpart⟩ := infix_of_mem_spokenPieces hinner
  exact ⟨hnonempty, hpart.trans h.body_infix⟩

/-- A piece that cannot be read has a part that is unknown or a group too many. -/
theorem exists_part_of_readPieceAt_error {limit levels : Nat} {piece : Text} {fault : Fault}
    (hnonempty : piece ≠ []) (h : readPieceAt limit levels piece = .error fault) :
    ∃ part, part ≠ [] ∧ part <:+: piece ∧
      (fault = .unknownPiece part ∨ fault = .tooDeep part limit) := by
  -- The body of a group is read at fewer levels, and a part of the body is a part of the piece.
  induction levels using Nat.strongRecOn generalizing piece with
  | ind levels ih =>
      rcases (readPieceAt_eq_error_iff _ _ _ _).1 h with
        ⟨-, hunknown⟩ | ⟨-, -, hdeep⟩ | ⟨body, times, below, hgroup, hlevels, hbody⟩
      · exact ⟨piece, hnonempty, List.infix_rfl, .inl hunknown⟩
      · exact ⟨piece, hnonempty, List.infix_rfl, .inr hdeep⟩
      · obtain ⟨inner, hmem, hinner⟩ := exists_of_mapM_eq_error _ hbody
        obtain ⟨hinnerNonempty, hinnerPart⟩ := hgroup.infix_of_mem hmem
        obtain ⟨part, hpartNonempty, hpart, hfault⟩ := ih below (by omega) hinnerNonempty hinner
        exact ⟨part, hpartNonempty, hpart.trans hinnerPart, hfault⟩

/-- A piece that cannot be read has a part that its fault quotes. -/
theorem quoted?_of_readPieceAt_error {limit levels : Nat} {piece : Text} {fault : Fault}
    (hnonempty : piece ≠ []) (h : readPieceAt limit levels piece = .error fault) :
    ∃ inner, inner ≠ [] ∧ inner <:+: piece ∧ fault.quoted? = some inner := by
  obtain ⟨part, hpartNonempty, hpart, rfl | rfl⟩ := exists_part_of_readPieceAt_error hnonempty h
  · exact ⟨part, hpartNonempty, hpart, Fault.quoted?_unknownPiece part⟩
  · exact ⟨part, hpartNonempty, hpart, Fault.quoted?_tooDeep part limit⟩

theorem within_of_wordDenotes {piece : Text} {command : Command} (h : WordDenotes piece command) :
    command.within = [command] := by
  cases h <;> rfl

/-- A command inside a command that was read is read from a part of the piece. -/
theorem exists_readPieceAt_of_mem_within {limit levels : Nat} {piece : Text}
    {command inner : Command} (h : readPieceAt limit levels piece = .ok command)
    (hinside : inner ∈ command.within) :
    ∃ part below, part <:+: piece ∧ readPieceAt limit below part = .ok inner := by
  revert hinside
  refine readPieceAt_induction (motive := fun _ piece command =>
    inner ∈ command.within →
      ∃ part below, part <:+: piece ∧ readPieceAt limit below part = .ok inner) ?_ ?_ h
  · intro levels piece _ hword hinside
    rw [within_of_wordDenotes hword] at hinside
    obtain rfl := List.mem_singleton.1 hinside
    exact ⟨piece, levels, List.infix_rfl, readPieceAt_of_wordDenotes limit levels hword⟩
  · intro below piece _ _ _ hgroup hread hbody hinside
    rw [within, List.mem_cons, mem_withinAll] at hinside
    rcases hinside with rfl | ⟨member, hmember, hdeeper⟩
    · exact ⟨piece, below + 1, List.infix_rfl, hread⟩
    · obtain ⟨outer, hmem, houter⟩ := exists_of_forall₂_of_mem hbody hmember
      obtain ⟨part, levels, hpart, hfound⟩ := houter hdeeper
      exact ⟨part, levels, hpart.trans (hgroup.infix_of_mem hmem).2, hfound⟩

/-- A pattern inside a command that was read is denoted by a part of the piece. -/
theorem exists_wordDenotes_of_pattern_mem {limit levels : Nat} {piece : Text} {command : Command}
    {pattern : Pattern} (h : readPieceAt limit levels piece = .ok command)
    (hinside : .pattern pattern ∈ command.within) :
    ∃ word, word <:+: piece ∧ WordDenotes word (.pattern pattern) := by
  obtain ⟨part, below, hpart, hread⟩ := exists_readPieceAt_of_mem_within h hinside
  rcases (readPieceAt_eq_ok_iff _ _ _ _).1 hread with hword | ⟨_, _, _, _, _, _, _, heq⟩
  · exact ⟨part, hpart, hword⟩
  · contradiction

end Command

/-! ## Faults of a line -/

/-- The report of a line, or a stage of it, fails with a fault. -/
def FailsWith (limit : Nat) (line : Text) (fault : Fault) : Prop :=
  (Report.ofLine limit line).fault = some fault ∨ Stage.tokensOf limit line = .error fault ∨
    Stage.stitchesOf limit line = .error fault ∨ Stage.stepsOf limit line = .error fault ∨
      Stage.displaysOf limit line = .error fault

/-- A line fails with the fault of one of its pieces. -/
theorem FailsWith.exists_piece {limit : Nat} {line : Text} {fault : Fault}
    (h : FailsWith limit line fault) :
    ∃ piece ∈ spokenPieces line,
      readFault? limit piece = some fault ∨ unfoldFault? limit piece = some fault := by
  rcases h with hreport | htokens | hstitches | hsteps | hdisplays
  · rw [Report.fault_ofLine, Meaning.fault_ofPieces] at hreport
    exact Command.exists_of_pieceFault? hreport
  · obtain ⟨piece, hmem, hpiece⟩ := exists_of_mapM_eq_error _ htokens
    refine ⟨piece, hmem, .inl ?_⟩
    rw [readFault?, hpiece]
    rfl
  · rw [Stage.stitchesOf_eq_error_iff] at hstitches
    exact Command.exists_of_stageFault? hstitches
  · rw [Stage.stepsOf_eq_error_iff, Stage.stitchesOf_eq_error_iff] at hsteps
    exact Command.exists_of_stageFault? hsteps
  · rw [Stage.displaysOf_eq_error_iff, Stage.stitchesOf_eq_error_iff] at hdisplays
    exact Command.exists_of_stageFault? hdisplays

/-- A bend that is quoted otherwise than it stands in the line has a leading zero there. -/
theorem render_bend_eq_or {first second : Text} {round depth : UInt32}
    (hfirst : Numeral first round) (hsecond : Numeral second depth) :
    (Pattern.bend round depth).render =
        ['b', 'e', 'n', 'd', '('] ++ first ++ [','] ++ second ++ [')'] ∨
      first.head? = some '0' ∨ second.head? = some '0' := by
  by_cases hzero : first.head? = some '0'
  · exact .inr (.inl hzero)
  · by_cases hzero' : second.head? = some '0'
    · exact .inr (.inr hzero')
    · left
      rw [Pattern.render, ← hfirst.eq_ofNat hzero, ← hsecond.eq_ofNat hzero']

/-- A message quotes a part of the line as it stands there, except for a bend whose numerals
have leading zeros: that one is quoted without them. -/
theorem FailsWith.quotes_part {limit : Nat} {line : Text} {fault : Fault}
    (h : FailsWith limit line fault) :
    ∃ piece, piece ≠ [] ∧ piece <:+: line ∧
      (fault.quoted? = some piece ∨
        ∃ first second round depth, Numeral first round ∧ Numeral second depth ∧
          piece = ['b', 'e', 'n', 'd', '('] ++ first ++ [','] ++ second ++ [')'] ∧
          fault = .bendDepth round depth ∧
          fault.quoted? = some (Pattern.bend round depth).render ∧
          (first.head? = some '0' ∨ second.head? = some '0')) := by
  obtain ⟨piece, hmem, hfault⟩ := h.exists_piece
  obtain ⟨hnonempty, hpart⟩ := infix_of_mem_spokenPieces hmem
  rcases hfault with hread | hunfold
  · obtain ⟨inner, hinner, hinnerPart, hquoted⟩ :=
      Command.quoted?_of_readPieceAt_error hnonempty (Command.readPiece_of_readFault? hread)
    exact ⟨inner, hinner, hinnerPart.trans hpart, .inl hquoted⟩
  · obtain ⟨command, hcommand, hmeaning⟩ := Command.readPiece_of_unfoldFault? hunfold
    obtain ⟨round, depth, hinside, -, rfl⟩ := Command.fault_of_readPiece hcommand hmeaning
    obtain ⟨word, hwordPart, hword⟩ := Command.exists_wordDenotes_of_pattern_mem hcommand hinside
    cases hword with
    | @bend first second _ _ hfirst hsecond =>
        refine ⟨_, List.cons_ne_nil _ _, hwordPart.trans hpart, ?_⟩
        have hquoted := Fault.quoted?_bendDepth round depth
        rcases render_bend_eq_or hfirst hsecond with hrender | hzero
        · rw [hrender] at hquoted
          exact .inl hquoted
        · exact .inr ⟨first, second, round, depth, hfirst, hsecond, rfl, rfl, hquoted, hzero⟩

/-- The word is quoted as it stands, from inside a group. -/
theorem quotes_part_in_group :
    FailsWith 32 "sc [c mc(x)]2".toList (.unknownPiece "mc(x)".toList) ∧
      ∃ piece, piece ≠ [] ∧ piece <:+: "sc [c mc(x)]2".toList ∧
        ((Fault.unknownPiece "mc(x)".toList).quoted? = some piece ∨
          ∃ first second round depth, Numeral first round ∧ Numeral second depth ∧
            piece = ['b', 'e', 'n', 'd', '('] ++ first ++ [','] ++ second ++ [')'] ∧
            Fault.unknownPiece "mc(x)".toList = .bendDepth round depth ∧
            (Fault.unknownPiece "mc(x)".toList).quoted? =
              some (Pattern.bend round depth).render ∧
            (first.head? = some '0' ∨ second.head? = some '0')) := by
  have hfails : FailsWith 32 "sc [c mc(x)]2".toList (.unknownPiece "mc(x)".toList) := by
    left
    decide +kernel
  exact ⟨hfails, hfails.quotes_part⟩

/-- The bend stands in the line as `bend(012,3)` and is quoted as `bend(12,3)`. -/
theorem bend_quoted_without_zero :
    FailsWith 32 "bend(012,3)".toList (.bendDepth 12 3) ∧
      (Fault.bendDepth 12 3).quoted? = some "bend(12,3)".toList ∧
      ¬ "bend(12,3)".toList <:+: "bend(012,3)".toList := by
  refine ⟨.inl ?_, ?_, ?_⟩ <;> decide +kernel

end CrochetShorthand
