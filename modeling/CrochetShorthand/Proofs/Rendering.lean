import CrochetShorthand.Proofs.Grammar
import CrochetShorthand.Proofs.Notation
import CrochetShorthand.Proofs.Quoting

/-!
# A line written out again

A line that was read can be written out in the notation of its commands, with one space between
neighbours.  Leading zeros, odd blanks and comments are gone then, and what is left says the same.

A group is the exception.  Its body may be blank or a comment, and then it has no commands.  Its
notation has nothing between the brackets, and the reader takes no group with an empty body.  So a
line is read again from its notation exactly when none of its groups is empty; otherwise reading
the notation fails at the empty group that opens first.
-/

namespace CrochetShorthand

namespace Command

/-! ## Empty groups -/

/-- The count of a group without commands. -/
def emptyTimes? : Command → Option UInt32
  | .group [] times => some times
  | _ => none

/-- The count of the first group without commands, among the commands and inside them. -/
def firstEmptyTimes? (commands : List Command) : Option UInt32 :=
  (withinAll commands).findSome? emptyTimes?

theorem emptyTimes?_eq_some_iff (command : Command) (times : UInt32) :
    command.emptyTimes? = some times ↔ command = .group [] times := by
  unfold emptyTimes?
  split
  · simp
  · rename_i hother
    constructor
    · intro h
      contradiction
    · intro h
      exact absurd h (hother times)

theorem hasFilledGroups_iff (command : Command) :
    command.HasFilledGroups ↔ command.within.findSome? emptyTimes? = none := by
  rw [List.findSome?_eq_none_iff, HasFilledGroups]
  constructor
  · intro h inner hinner
    rw [Option.eq_none_iff_forall_ne_some]
    intro times htimes
    rw [emptyTimes?_eq_some_iff] at htimes
    exact h times (htimes ▸ hinner)
  · intro h times hmem
    have hnone := h _ hmem
    contradiction

theorem findSome?_withinAll (commands : List Command) :
    (withinAll commands).findSome? emptyTimes? =
      commands.findSome? fun c => c.within.findSome? emptyTimes? := by
  induction commands with
  | nil => rfl
  | cons first rest ih =>
      rw [withinAll, List.findSome?_append, ih, List.findSome?_cons]
      cases first.within.findSome? emptyTimes? <;> rfl

theorem firstEmptyTimes?_eq_none_iff (commands : List Command) :
    firstEmptyTimes? commands = none ↔ ∀ command ∈ commands, command.HasFilledGroups := by
  simp only [firstEmptyTimes?, findSome?_withinAll, List.findSome?_eq_none_iff,
    hasFilledGroups_iff]

/-- The first empty group of a group with commands is one inside it. -/
theorem findSome?_within_group {commands : List Command} (hnonempty : commands ≠ [])
    (times : UInt32) :
    (group commands times).within.findSome? emptyTimes? =
      commands.findSome? fun c => c.within.findSome? emptyTimes? := by
  have hself : (group commands times).emptyTimes? = none := by
    rw [Option.eq_none_iff_forall_ne_some]
    intro found hfound
    rw [emptyTimes?_eq_some_iff] at hfound
    exact hnonempty (Command.group.inj hfound).1
  rw [within, List.findSome?_cons, hself, findSome?_withinAll]

/-! ## Reading the notation -/

theorem readPieceAt_render_empty (limit levels : Nat) (times : UInt32) :
    readPieceAt limit levels (group [] times).render =
      .error (.unknownPiece (group [] times).render) := by
  apply readPieceAt_of_shapeless
  constructor
  · intro command hword
    have hopens := opensGroup_of_wordDenotes hword
    contradiction
  · intro body times hgroup
    obtain ⟨hbody, hnonempty, -⟩ := (groupPiece_render_iff _ _ _ _).1 hgroup
    exact absurd hbody hnonempty

/-- A command whose counts are positive and that is nested deep enough for its levels fails to be
read from its notation only at its first empty group. -/
theorem failure?_readPieceAt_render {limit levels : Nat} {command : Command}
    (hcounts : command.HasPositiveCounts) (hdepth : command.depth ≤ levels) :
    failure? (readPieceAt limit levels command.render) =
      (command.within.findSome? emptyTimes?).map fun times =>
        .unknownPiece (group [] times).render := by
  induction command generalizing levels with
  | stitch s =>
      have hfilled : (stitch s).HasFilledGroups := by simp [HasFilledGroups, within]
      rw [(readPieceAt_render_eq_ok_iff _ _ _).2 ⟨hcounts, hfilled, hdepth⟩]
      rfl
  | pattern p =>
      have hfilled : (pattern p).HasFilledGroups := by simp [HasFilledGroups, within]
      rw [(readPieceAt_render_eq_ok_iff _ _ _).2 ⟨hcounts, hfilled, hdepth⟩]
      rfl
  | group commands times ih =>
      by_cases hempty : commands = []
      · subst hempty
        rw [readPieceAt_render_empty]
        rfl
      · obtain ⟨hle, hinside⟩ := (hasPositiveCounts_group _ _).1 hcounts
        rw [depth] at hdepth
        obtain ⟨below, rfl⟩ : ∃ below, levels = below + 1 := ⟨levels - 1, by omega⟩
        have hbelow : ∀ c ∈ commands, c.depth ≤ below := depthAll_le_iff.1 (by omega)
        have hbody : renderAll commands ≠ [] := fun h => hempty ((renderAll_eq_nil_iff _).1 h)
        have hgroup : GroupPiece (group commands times).render (renderAll commands) times :=
          (groupPiece_render_iff _ _ _ _).2 ⟨rfl, hbody, rfl, hle⟩
        -- The group fails where the first of its commands fails.
        rw [readPieceAt_succ_of_groupPiece limit below hgroup, failure?_map, failure?_mapM,
          renderAll_eq_joinWith, spokenPieces_joinWith_render, List.findSome?_map,
          findSome?_within_group hempty, List.map_findSome?]
        exact findSome?_congr fun c hc => ih c hc (hinside c hc) (hbelow c hc)

/-- The notations of such commands fail to be read only at the first empty group. -/
theorem failure?_readLine_render {limit : Nat} {commands : List Command}
    (h : ∀ c ∈ commands, c.HasPositiveCounts ∧ c.depth ≤ limit) :
    failure? (readLine limit (Text.joinWith [' '] (commands.map render))) =
      (firstEmptyTimes? commands).map fun times => .unknownPiece (group [] times).render := by
  rw [readLine, spokenPieces_joinWith_render, failure?_mapM, List.findSome?_map, firstEmptyTimes?,
    findSome?_withinAll, List.map_findSome?]
  exact findSome?_congr fun c hc => failure?_readPieceAt_render (h c hc).1 (h c hc).2

/-! ## Where empty groups come from -/

theorem blank_of_piecesOf_eq_nil {t : Text} (h : piecesOf t = []) :
    ∀ c ∈ t, Text.isBlank c = true := by
  cases hnext : (LineScan.ofLine t).next? with
  | none => exact LineScan.blank_of_next?_none hnext
  | some found =>
      rw [piecesOf, LineScan.toList_of_some hnext] at h
      contradiction

/-- A body says nothing only when it is a comment or blank. -/
theorem comment_or_blank_of_spokenPieces_eq_nil {body : Text} (h : spokenPieces body = []) :
    commentMark <+: body ∨ ∀ c ∈ body, Text.isBlank c = true := by
  by_cases hcomment : commentMark <+: body
  · exact .inl hcomment
  · rw [spokenPieces_of_not_comment hcomment] at h
    exact .inr (blank_of_piecesOf_eq_nil h)

/-- An empty group in a command that was read stands in the piece with a comment or blanks for its
body. -/
theorem exists_groupPiece_of_empty_mem {limit levels : Nat} {piece : Text} {command : Command}
    {times : UInt32} (h : readPieceAt limit levels piece = .ok command)
    (hinside : .group [] times ∈ command.within) :
    ∃ part body, part <:+: piece ∧ GroupPiece part body times ∧
      (commentMark <+: body ∨ ∀ c ∈ body, Text.isBlank c = true) := by
  obtain ⟨part, below, hpart, hread⟩ := exists_readPieceAt_of_mem_within h hinside
  rcases (readPieceAt_eq_ok_iff _ _ _ _).1 hread with
    hword | ⟨body, _, _, _, hgroup, -, hbody, heq⟩
  · cases hword
  · obtain ⟨rfl, rfl⟩ := Command.group.inj heq
    have hnothing := List.forall₂_nil_right_iff.1 ((mapM_eq_ok_iff_forall₂ _ _ _).1 hbody)
    exact ⟨part, body, hpart, hgroup, comment_or_blank_of_spokenPieces_eq_nil hnothing⟩

/-- The commands of a line read again from their notation, and the report is then that of the
line, exactly when no group among them is empty.  Otherwise the first empty group is no piece of
the notation.  In the line an empty group has a comment or blanks for its body. -/
theorem readLine_render_of_readLine {limit : Nat} {line : Text} {commands : List Command}
    (h : readLine limit line = .ok commands) :
    (readLine limit (Text.joinWith [' '] (commands.map render)) = .ok commands ↔
      ∀ command ∈ commands, command.HasFilledGroups) ∧
    ((∀ command ∈ commands, command.HasFilledGroups) →
      Report.ofLine limit (Text.joinWith [' '] (commands.map render)) =
        Report.ofLine limit line) ∧
    ((¬ ∀ command ∈ commands, command.HasFilledGroups) →
      ∃ times, firstEmptyTimes? commands = some times ∧
        readLine limit (Text.joinWith [' '] (commands.map render)) =
          .error (.unknownPiece ('[' :: ']' :: Decimal.ofNat times.toNat))) ∧
    ∀ times, .group [] times ∈ withinAll commands →
      ∃ part body, part <:+: line ∧ GroupPiece part body times ∧
        (commentMark <+: body ∨ ∀ c ∈ body, Text.isBlank c = true) := by
  have hread : ∀ command ∈ commands, ∃ piece ∈ spokenPieces line,
      readPiece limit piece = .ok command :=
    fun command hmem => exists_of_forall₂_of_mem ((mapM_eq_ok_iff_forall₂ _ _ _).1 h) hmem
  have hrange : ∀ command ∈ commands, command.HasPositiveCounts ∧ command.depth ≤ limit := by
    intro command hmem
    obtain ⟨piece, -, hpiece⟩ := hread command hmem
    exact ⟨hasPositiveCounts_of_readPieceAt hpiece, depth_le_of_readPieceAt hpiece⟩
  have hagain : readLine limit (Text.joinWith [' '] (commands.map render)) = .ok commands ↔
      ∀ command ∈ commands, command.HasFilledGroups := by
    rw [readLine, spokenPieces_joinWith_render, mapM_render_eq_ok_iff]
    constructor
    · intro hback command hmem
      exact ((readPieceAt_render_eq_ok_iff limit limit command).1 (hback command hmem)).2.1
    · intro hfilled command hmem
      obtain ⟨hcounts, hdepth⟩ := hrange command hmem
      exact (readPieceAt_render_eq_ok_iff limit limit command).2
        ⟨hcounts, hfilled command hmem, hdepth⟩
  refine ⟨hagain, ?_, ?_, ?_⟩
  · intro hfilled
    apply Report.ofLine_eq_of_ofPieces_eq
    rw [Meaning.ofPieces_eq_ofCommands h, Meaning.ofPieces_eq_ofCommands (hagain.2 hfilled)]
  · intro hempty
    rw [← firstEmptyTimes?_eq_none_iff] at hempty
    obtain ⟨times, htimes⟩ := Option.ne_none_iff_exists'.1 hempty
    have hfailure := failure?_readLine_render hrange
    rw [htimes] at hfailure
    exact ⟨times, htimes, (failure?_eq_some_iff _ _).1 hfailure⟩
  · intro times hempty
    obtain ⟨command, hmem, hinside⟩ := mem_withinAll.1 hempty
    obtain ⟨piece, hpiece, hcommand⟩ := hread command hmem
    obtain ⟨part, body, hpart, hfound⟩ := exists_groupPiece_of_empty_mem hcommand hinside
    exact ⟨part, body, hpart.trans (infix_of_mem_spokenPieces hpiece).2, hfound⟩

/-- The inner group is empty, so the notation `sc [inc []3]2` fails there. -/
theorem readLine_render_of_inner_comment :
    readLine 32 "sc [inc [// a]03]2".toList =
        .ok [.stitch .singleCrochet, .group [.stitch .increase, .group [] 3] 2] ∧
      (¬ ∀ command ∈ [.stitch .singleCrochet, .group [.stitch .increase, .group [] 3] 2],
        Command.HasFilledGroups command) ∧
      readLine 32 (Text.joinWith [' ']
        ([.stitch .singleCrochet, .group [.stitch .increase, .group [] 3] 2].map render)) =
          .error (.unknownPiece ('[' :: ']' :: Decimal.ofNat 3)) := by
  have hread : readLine 32 "sc [inc [// a]03]2".toList =
      .ok [.stitch .singleCrochet, .group [.stitch .increase, .group [] 3] 2] := by
    decide +kernel
  have hfirst : firstEmptyTimes?
      [.stitch .singleCrochet, .group [.stitch .increase, .group [] 3] 2] = some 3 := by
    decide
  have hempty : ¬ ∀ command ∈ [.stitch .singleCrochet, .group [.stitch .increase, .group [] 3] 2],
      Command.HasFilledGroups command := by
    rw [← firstEmptyTimes?_eq_none_iff, hfirst]
    exact Option.some_ne_none 3
  obtain ⟨-, -, hagain, -⟩ := readLine_render_of_readLine hread
  obtain ⟨times, htimes, herror⟩ := hagain hempty
  obtain rfl := Option.some.inj (hfirst.symm.trans htimes)
  exact ⟨hread, hempty, herror⟩

/-- The group `[// note]2` is read, and written out as `[]2`, which is not. -/
theorem comment_group_not_read_again :
    readLine 32 "[// note]2".toList = .ok [.group [] 2] ∧
      readLine 32 (Text.joinWith [' '] ([group [] 2].map render)) ≠ .ok [.group [] 2] := by
  decide +kernel

end Command

end CrochetShorthand
