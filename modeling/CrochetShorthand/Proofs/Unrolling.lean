import CrochetShorthand.Proofs.Brackets
import CrochetShorthand.Proofs.Notation

/-!
# A group written out

A group stands for its body, worked a number of times.  So a line that is one group has the same
report as the line that holds copies of the body, with one space between neighbours.  The report is
the same also when a bend in the body cannot be laid out, and the work stops in the first copy.

The body of a group that is read has balanced brackets, unless a comment hides some.  So the group
is one piece of its line, and each copy of the body splits as it does inside the brackets.  Outside
of the group one more level is left for what is read.
-/

namespace CrochetShorthand

open Command (commentMark readPiece readPieceAt spokenPieces)
open Decimal (Numeral)
open LineScan (Unbroken balance)
open Text (isBlank)

/-! ## Balanced texts in a line -/

/-- A text in which the depth stays positive is unbroken. -/
theorem LineScan.unbroken_of_pos {depth : Int} {t : Text}
    (h : ∀ front, front <+: t → 0 < depth + balance front) : Unbroken depth t := by
  induction t generalizing depth with
  | nil => trivial
  | cons c t ih =>
      constructor
      · intro _
        simpa [balance] using h [] List.nil_prefix
      · apply ih
        intro front hfront
        have hpos := h (c :: front) ((List.prefix_cons_inj c).2 hfront)
        rw [balance] at hpos
        omega

theorem Balanced.balance_eq_zero {t : Text} (h : Balanced t) : balance t = 0 := by
  have hcount := h.count_eq
  rw [LineScan.balance_eq_count]
  omega

/-- In brackets a balanced text does not come out of them. -/
theorem Balanced.unbroken {t : Text} (h : Balanced t) : Unbroken 1 t := by
  apply LineScan.unbroken_of_pos
  intro front hfront
  have hle := h.closed_le front hfront
  rw [LineScan.balance_eq_count]
  omega

/-- Lines whose brackets balance split each by itself. -/
theorem piecesOf_joinWith_of_balanced {c : Char} (hc : isBlank c = true) {lines : List Text}
    (h : ∀ line ∈ lines, Balanced line) :
    piecesOf (Text.joinWith [c] lines) = lines.flatMap piecesOf := by
  induction lines with
  | nil => exact LineScan.toList_of_none rfl
  | cons line lines ih =>
      obtain ⟨hline, hlines⟩ := List.forall_mem_cons.1 h
      cases lines with
      | nil => simp [Text.joinWith]
      | cons next lines =>
          have hzero : (LineScan.ofLine line).depth + balance (LineScan.ofLine line).rest = 0 := by
            show 0 + balance line = 0
            rw [hline.balance_eq_zero]
            rfl
          have happend := LineScan.toList_append_of_balance hc
            (Text.joinWith [c] (next :: lines)) (Int.le_refl 0) hzero
          rw [Text.joinWith, List.append_assoc, List.flatMap_cons, ← ih hlines]
          exact happend

/-- A joined line starts with a comment mark only when its first part does. -/
theorem not_comment_joinWith {lines : List Text} (h : ∀ line ∈ lines, ¬ commentMark <+: line) :
    ¬ commentMark <+: Text.joinWith [' '] lines := by
  cases lines with
  | nil => simp [Text.joinWith, commentMark]
  | cons line lines =>
      have hline := h line (List.mem_cons_self ..)
      cases lines with
      | nil => exact hline
      | cons next lines =>
          rw [Text.joinWith, List.append_assoc]
          exact fun hmark => hline ((Command.comment_append_iff (by decide) _ _).1 hmark)

theorem spokenPieces_joinWith_of_balanced {lines : List Text}
    (hcomment : ∀ line ∈ lines, ¬ commentMark <+: line) (h : ∀ line ∈ lines, Balanced line) :
    spokenPieces (Text.joinWith [' '] lines) = lines.flatMap spokenPieces := by
  rw [Command.spokenPieces_of_not_comment (not_comment_joinWith hcomment),
    piecesOf_joinWith_of_balanced (by decide) h]
  refine List.flatMap_congr ?_
  intro line hline
  rw [Command.spokenPieces_of_not_comment (hcomment line hline)]

/-! ## The body of a group -/

/-- A group whose body has balanced brackets is one piece. -/
theorem spokenPieces_brackets {body digits : Text} (hbody : Balanced body)
    (hdigits : Decimal.IsRun digits) :
    spokenPieces ('[' :: body ++ ']' :: digits) = ['[' :: body ++ ']' :: digits] := by
  have hwhole := Command.whole_brackets hbody.unbroken hbody.balance_eq_zero hdigits.allDigits
  rw [Command.spokenPieces_of_not_comment (by simp [commentMark])]
  exact LineScan.toList_of_unbroken (Int.le_refl 0) hwhole.nonempty hwhole.unbroken

namespace Command

/-- A group is read from the pieces of its body, with one level less. -/
theorem exists_of_readPiece_brackets {limit : Nat} {body digits : Text} {times : UInt32}
    {command : Command} (hnumeral : Numeral digits times)
    (h : readPiece limit ('[' :: body ++ ']' :: digits) = .ok command) :
    ∃ below commands, limit = below + 1 ∧
      (spokenPieces body).mapM (readPieceAt limit below) = .ok commands ∧
        command = .group commands times := by
  rcases (readPieceAt_eq_ok_iff _ _ _ _).1 h with
    hword | ⟨inside, count, below, commands, hgroup, hlimit, hbody, rfl⟩
  · have hopens := opensGroup_of_wordDenotes hword
    contradiction
  · obtain ⟨digits', hnumeral', heq⟩ := hgroup.numeral
    obtain ⟨rfl, rfl⟩ := brackets_inj hnumeral.run hnumeral'.run heq
    have hgroup' : GroupPiece ('[' :: body ++ ']' :: digits) body times :=
      ⟨hgroup.nonempty, digits, hnumeral, rfl⟩
    obtain ⟨-, rfl⟩ := hgroup.unique hgroup'
    exact ⟨below, commands, hlimit, hbody, rfl⟩

/-- Pieces without comments are read only when their brackets balance. -/
theorem balanced_of_readPieces_of_not_comment {limit levels : Nat} {line : Text}
    {commands : List Command} (hcomment : ¬ commentMark <:+: line)
    (h : (spokenPieces line).mapM (readPieceAt limit levels) = .ok commands) : Balanced line := by
  have hspoken := balanced_of_readPieces h
  have hline : ¬ commentMark <+: line := fun hmark => hcomment hmark.isInfix
  rwa [spokenBrackets_eq_filter hline (not_bracket_mark hcomment), balanced_filter_iff] at hspoken

end Command

/-! ## Copies -/

namespace Meaning

/-- Copies of a line mean the line as often as there are copies. -/
theorem ofPieces_copies (limit count : Nat) (line : Text) :
    ofPieces limit ((List.replicate count line).flatMap spokenPieces) =
      times count (ofPieces limit (spokenPieces line)) := by
  induction count with
  | zero => rfl
  | succ count ih =>
      rw [List.replicate_succ, List.flatMap_cons, ofPieces_append, ih, times]

end Meaning

namespace Report

/-- A group has the same report as the copies of its body, as many as its count says, with one
space between neighbours.  This holds for a body in which no comment can stand. -/
theorem ofLine_group_eq_ofLine_copies {limit : Nat} {body digits : Text} {times : UInt32}
    {command : Command} (hcomment : ¬ commentMark <:+: body) (hnumeral : Numeral digits times)
    (hread : readPiece limit ('[' :: body ++ ']' :: digits) = .ok command) :
    ofLine limit ('[' :: body ++ ']' :: digits) =
      ofLine limit (Text.joinWith [' '] (List.replicate times.toNat body)) := by
  obtain ⟨below, commands, hlimit, hbody, rfl⟩ :=
    Command.exists_of_readPiece_brackets hnumeral hread
  have hbalanced : Balanced body := Command.balanced_of_readPieces_of_not_comment hcomment hbody
  have hmark : ¬ commentMark <+: body := fun hprefix => hcomment hprefix.isInfix
  have hcopyPieces : spokenPieces (Text.joinWith [' '] (List.replicate times.toNat body)) =
      (List.replicate times.toNat body).flatMap spokenPieces :=
    spokenPieces_joinWith_of_balanced (fun _ hcopy => List.eq_of_mem_replicate hcopy ▸ hmark)
      (fun _ hcopy => List.eq_of_mem_replicate hcopy ▸ hbalanced)
  -- Outside of the group the pieces of the body are read with one more level.
  have hmeaning : Meaning.ofPieces limit (spokenPieces body) = Meaning.ofCommands commands := by
    apply Meaning.ofPieces_eq_ofCommands
    rw [mapM_eq_ok_iff_forall₂] at hbody ⊢
    exact hbody.imp fun _ _ hpiece => Command.readPieceAt_mono hpiece (by omega)
  have hgroupMeaning : Meaning.ofPieces limit ['[' :: body ++ ']' :: digits] =
      Meaning.times times.toNat (Meaning.ofCommands commands) := by
    rw [Meaning.ofPieces, Meaning.ofPieces, Meaning.andThen_nothing, Meaning.ofPiece, hread]
    dsimp only
    rw [Meaning.ofCommand]
  apply ofLine_eq_of_ofPieces_eq
  rw [spokenPieces_brackets hbalanced hnumeral.run, hcopyPieces, Meaning.ofPieces_copies, hmeaning,
    hgroupMeaning]

/-- The bend stops the work in the first copy, behind the single crochet. -/
theorem ofLine_bent_group_eq_copies :
    ¬ commentMark <:+: "sc bend(4,3)".toList ∧ Numeral "03".toList 3 ∧
      readPiece 1 "[sc bend(4,3)]03".toList =
        .ok (.group [.stitch .singleCrochet, .pattern (.bend 4 3)] 3) ∧
      ofLine 1 "[sc bend(4,3)]03".toList =
        ofLine 1 "sc bend(4,3) sc bend(4,3) sc bend(4,3)".toList := by
  have hcomment : ¬ commentMark <:+: "sc bend(4,3)".toList := by
    decide
  have hnumeral : Numeral "03".toList 3 := by
    rw [← Decimal.count?_eq_some_iff]
    decide
  have hread : readPiece 1 "[sc bend(4,3)]03".toList =
      .ok (.group [.stitch .singleCrochet, .pattern (.bend 4 3)] 3) := by
    decide +kernel
  exact ⟨hcomment, hnumeral, hread, ofLine_group_eq_ofLine_copies hcomment hnumeral hread⟩

end Report

end CrochetShorthand
