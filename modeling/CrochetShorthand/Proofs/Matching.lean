import CrochetShorthand.Proofs.NestingLimit
import CrochetShorthand.Proofs.Unrolling

/-!
# Brackets and groups

The reader splits a group at the last closing bracket of its piece, without looking for the one
that closes the first bracket.  Reading the body makes up for it.  In `[sc]2[inc]3` the last bracket
closes the second group, but the body `sc]2[inc` has no piece that can be read.

A text outlines groups when its brackets balance, reach a depth and open a number of groups.  The
brackets that a piece says outline the command that is read from it (`outlines_of_readPieceAt`), by
induction over what is read.  When no comment can stand in the piece, these are all of its brackets.
So the depth and the number of groups of a command can be read off the brackets of its piece, and
the bracket at which the reader splits is the one that closes the group.
-/

namespace CrochetShorthand

open Command (commentMark groupParts? isGroup readEach readPiece readPieceAt spokenPieces)
open LineScan (balance)

/-! ## Texts that outline groups -/

/-- The brackets of a text balance, stand at most `depth` deep, somewhere as deep, and open
`groups` groups. -/
structure Outlines (t : Text) (depth groups : Nat) : Prop extends Balanced t where
  balance_le : ∀ front, front <+: t → balance front ≤ depth
  reached : ∃ front, front <+: t ∧ balance front = depth
  opened : t.count '[' = groups

theorem outlines_nil : Outlines [] 0 0 where
  toBalanced := balanced_nil
  balance_le := by
    intro front hfront
    rw [List.prefix_nil.1 hfront]
    exact Int.le_refl 0
  reached := ⟨[], List.prefix_rfl, rfl⟩
  opened := rfl

/-- The first text comes back to depth zero, so the second starts there. -/
theorem Outlines.append {t u : Text} {depth groups depth' groups' : Nat}
    (ht : Outlines t depth groups) (hu : Outlines u depth' groups') :
    Outlines (t ++ u) (max depth depth') (groups + groups') where
  toBalanced := ht.toBalanced.append hu.toBalanced
  balance_le := by
    intro front hfront
    rcases List.prefix_or_prefix_of_prefix hfront (List.prefix_append t u) with hinside | hbeyond
    · have hle := ht.balance_le front hinside
      omega
    · obtain ⟨back, rfl⟩ := hbeyond
      have hle := hu.balance_le back ((List.prefix_append_right_inj t).1 hfront)
      rw [LineScan.balance_append, ht.toBalanced.balance_eq_zero]
      omega
  reached := by
    by_cases hdeeper : depth' ≤ depth
    · obtain ⟨front, hfront, hreached⟩ := ht.reached
      refine ⟨front, hfront.trans (List.prefix_append t u), ?_⟩
      omega
    · obtain ⟨back, hback, hreached⟩ := hu.reached
      refine ⟨t ++ back, (List.prefix_append_right_inj t).2 hback, ?_⟩
      rw [LineScan.balance_append, ht.toBalanced.balance_eq_zero]
      omega
  opened := by
    rw [List.count_append, ht.opened, hu.opened]

theorem balance_open (t : Text) : balance ('[' :: t) = 1 + balance t := rfl

theorem balance_close : balance [']'] = -1 := rfl

/-- A pair of brackets opens one more group around all others. -/
theorem Outlines.brackets {t : Text} {depth groups : Nat} (h : Outlines t depth groups) :
    Outlines ('[' :: t ++ [']']) (1 + depth) (groups + 1) where
  toBalanced := h.toBalanced.brackets
  balance_le := by
    intro front hfront
    rw [List.cons_append, List.prefix_cons_iff] at hfront
    rcases hfront with rfl | ⟨inside, rfl, hinside⟩
    · show (0 : Int) ≤ _
      omega
    · rw [balance_open]
      rcases List.prefix_concat_iff.1 hinside with rfl | hpart
      · rw [LineScan.balance_append, h.toBalanced.balance_eq_zero, balance_close]
        omega
      · have hle := h.balance_le inside hpart
        omega
  reached := by
    obtain ⟨front, hfront, hreached⟩ := h.reached
    refine ⟨'[' :: front, ?_, ?_⟩
    · rw [List.cons_append, List.prefix_cons_inj]
      exact hfront.trans (List.prefix_append t _)
    · rw [balance_open, hreached]
      omega
  opened := by
    simp [h.opened]

theorem balance_filter (t : Text) : balance (t.filter isBracket) = balance t := by
  rw [LineScan.balance_eq_count, LineScan.balance_eq_count, List.count_filter rfl,
    List.count_filter rfl]

/-- What stands between the brackets does not count. -/
theorem Outlines.of_filter {t : Text} {depth groups : Nat}
    (h : Outlines (t.filter isBracket) depth groups) : Outlines t depth groups where
  toBalanced := (balanced_filter_iff t).1 h.toBalanced
  balance_le := by
    intro front hfront
    rw [← balance_filter]
    exact h.balance_le _ (hfront.filter isBracket)
  reached := by
    obtain ⟨front, hfront, hreached⟩ := h.reached
    obtain ⟨part, hpart, rfl⟩ := List.prefix_filter_iff.1 hfront
    exact ⟨part, hpart, (balance_filter part).symm.trans hreached⟩
  opened := by
    rw [← h.opened, List.count_filter rfl]

/-! ## What is read -/

namespace Command

theorem outlines_flatMap {pieces : List Text} {commands : List Command}
    (h : List.Forall₂ (fun piece (command : Command) =>
      Outlines (pieceBrackets piece) command.depth (command.within.countP isGroup))
        pieces commands) :
    Outlines (pieces.flatMap pieceBrackets) (depthAll commands)
      ((withinAll commands).countP isGroup) := by
  induction h with
  | nil => exact outlines_nil
  | cons hfirst _ ih =>
      rw [List.flatMap_cons, depthAll, withinAll, List.countP_append]
      exact hfirst.append ih

/-- The brackets that a piece says are as deep as the command is nested, and open its groups. -/
theorem outlines_of_readPieceAt {limit levels : Nat} {piece : Text} {command : Command}
    (h : readPieceAt limit levels piece = .ok command) :
    Outlines (pieceBrackets piece) command.depth (command.within.countP isGroup) := by
  refine readPieceAt_induction (motive := fun _ piece command =>
    Outlines (pieceBrackets piece) command.depth (command.within.countP isGroup)) ?_ ?_ h
  · intro _ _ command hword
    have hnone : command.within.countP isGroup = 0 := by
      simp [within_of_wordDenotes hword, isGroup_of_wordDenotes hword]
    rw [pieceBrackets_of_wordDenotes hword, depth_of_wordDenotes hword, hnone]
    exact outlines_nil
  · intro _ _ _ times commands hgroup _ hbody
    have hgroups : (group commands times).within.countP isGroup =
        (withinAll commands).countP isGroup + 1 := by
      rw [within, List.countP_cons_of_pos rfl]
    rw [pieceBrackets_of_groupPiece hgroup, spokenBrackets_eq, depth, hgroups]
    exact (outlines_flatMap hbody).brackets

theorem outlines_of_readPiece {limit : Nat} {piece : Text} {command : Command}
    (hcomment : ¬ commentMark <:+: piece) (h : readPiece limit piece = .ok command) :
    Outlines piece command.depth (command.within.countP isGroup) := by
  have hbrackets := outlines_of_readPieceAt h
  rw [pieceBrackets_eq_filter (not_bracket_mark hcomment)] at hbrackets
  exact hbrackets.of_filter

/-- What is read is a word, or a group whose body balances. -/
theorem balanced_body_of_readPiece {limit : Nat} {piece : Text} {command : Command}
    (hcomment : ¬ commentMark <:+: piece) (h : readPiece limit piece = .ok command) :
    WordDenotes piece command ∨
      ∃ body times, GroupPiece piece body times ∧ Balanced body := by
  rcases (readPieceAt_eq_ok_iff _ _ _ _).1 h with
    hword | ⟨body, times, _, _, hgroup, _, hbody, _⟩
  · exact .inl hword
  · right
    refine ⟨body, times, hgroup, ?_⟩
    apply balanced_of_readPieces_of_not_comment _ hbody
    exact fun hmark => hcomment (hmark.trans hgroup.body_infix)

/-- What is read is one piece of a line that holds nothing else. -/
theorem spokenPieces_of_readPiece {limit : Nat} {piece : Text} {command : Command}
    (hcomment : ¬ commentMark <:+: piece) (h : readPiece limit piece = .ok command) :
    spokenPieces piece = [piece] := by
  rcases balanced_body_of_readPiece hcomment h with hword | ⟨body, times, hgroup, hbody⟩
  · obtain ⟨word, hspells⟩ := exists_spells_of_wordDenotes hword
    have hwhole := Word.whole_of_spells hspells
    rw [spokenPieces_of_not_comment fun hmark => hcomment hmark.isInfix]
    exact LineScan.toList_of_unbroken (Int.le_refl 0) hwhole.nonempty hwhole.unbroken
  · obtain ⟨digits, hnumeral, rfl⟩ := hgroup.numeral
    exact spokenPieces_brackets hbody hnumeral.run

/-- A closing bracket behind the text closes the bracket in front of it, and none inside does. -/
structure Enclosed (t : Text) : Prop where
  balance_pos : ∀ front, front <+: t → 0 < balance ('[' :: front)
  closed : balance ('[' :: t ++ [']']) = 0

theorem enclosed_of_balanced {t : Text} (h : Balanced t) : Enclosed t := by
  constructor
  · intro front hfront
    have hle := h.closed_le front hfront
    rw [balance_open, LineScan.balance_eq_count]
    omega
  · exact h.brackets.balance_eq_zero

/-- The body that the reader takes reaches up to the bracket that closes the group. -/
theorem exists_enclosed_of_readPiece {limit : Nat} {rest : Text} {command : Command}
    (hcomment : ¬ commentMark <:+: '[' :: rest) (h : readPiece limit ('[' :: rest) = .ok command) :
    ∃ body digits times, Text.splitLast ']' rest = some (body, digits) ∧
      groupParts? ('[' :: rest) = some (body, times) ∧ Enclosed body := by
  rcases balanced_body_of_readPiece hcomment h with hword | ⟨body, times, hgroup, hbody⟩
  · have hopens := opensGroup_of_wordDenotes hword
    contradiction
  · obtain ⟨digits, hnumeral, heq⟩ := hgroup.numeral
    obtain rfl := (List.cons.inj heq).2
    exact ⟨body, digits, times, splitLast_brackets body hnumeral.run,
      (groupParts?_eq_some_iff _ _ _).2 hgroup, enclosed_of_balanced hbody⟩

/-- The brackets of a piece that is read match.  None closes before it opens, they are as deep as
the command is nested, and as many open as there are groups in the command.  The last closing
bracket of a group, at which the reader splits, is the one that closes the first bracket.  As a line
the piece is one piece, and the line reads as the command.  All of this is for pieces in which no
comment can stand. -/
theorem readPiece_matches_brackets {limit : Nat} {piece : Text} {command : Command}
    (hcomment : ¬ commentMark <:+: piece) (h : readPiece limit piece = .ok command) :
    (∀ front, front <+: piece → 0 ≤ balance front ∧ balance front ≤ command.depth) ∧
    (∃ front, front <+: piece ∧ balance front = command.depth) ∧
    command.depth ≤ limit ∧
    balance piece = 0 ∧
    piece.count '[' = command.within.countP isGroup ∧
    (∀ rest, piece = '[' :: rest →
      ∃ body digits times, Text.splitLast ']' rest = some (body, digits) ∧
        groupParts? piece = some (body, times) ∧ Enclosed body) ∧
    piecesOf piece = [piece] ∧
    readEach limit piece = [.ok command] := by
  have houtlines := outlines_of_readPiece hcomment h
  have hpieces := spokenPieces_of_readPiece hcomment h
  refine ⟨?_, houtlines.reached, depth_le_of_readPieceAt h, houtlines.toBalanced.balance_eq_zero,
    houtlines.opened, ?_, ?_, ?_⟩
  · intro front hfront
    have hclosed := houtlines.closed_le front hfront
    refine ⟨?_, houtlines.balance_le front hfront⟩
    rw [LineScan.balance_eq_count]
    omega
  · rintro rest rfl
    exact exists_enclosed_of_readPiece hcomment h
  · rwa [spokenPieces_of_not_comment fun hmark => hcomment hmark.isInfix] at hpieces
  · rw [readEach, hpieces, List.map_singleton, h]

/-- The body of the outer group ends at the second closing bracket, not at the first. -/
theorem readPiece_matches_brackets_of_nested :
    ¬ commentMark <:+: "[sc [inc]2]3".toList ∧
      readPiece 2 "[sc [inc]2]3".toList =
        .ok (.group [.stitch .singleCrochet, .group [.stitch .increase] 2] 3) ∧
      "[sc [inc]2]3".toList.count '[' = 2 ∧
      (∃ body digits times,
        Text.splitLast ']' "sc [inc]2]3".toList = some (body, digits) ∧
          groupParts? "[sc [inc]2]3".toList = some (body, times) ∧ Enclosed body) ∧
      readEach 2 "[sc [inc]2]3".toList =
        [.ok (.group [.stitch .singleCrochet, .group [.stitch .increase] 2] 3)] := by
  have hcomment : ¬ commentMark <:+: "[sc [inc]2]3".toList := by
    decide
  have hread : readPiece 2 "[sc [inc]2]3".toList =
      .ok (.group [.stitch .singleCrochet, .group [.stitch .increase] 2] 3) := by
    decide +kernel
  obtain ⟨-, -, -, -, hcount, hsplit, -, heach⟩ := readPiece_matches_brackets hcomment hread
  exact ⟨hcomment, hread, hcount, hsplit _ rfl, heach⟩

-- The last bracket of two groups does not close the first one, and they are not read as one.
example :
    readPiece 2 "[sc]2[inc]3".toList = .error (.unknownPiece "sc]2[inc".toList) := by
  decide +kernel

end Command

end CrochetShorthand
