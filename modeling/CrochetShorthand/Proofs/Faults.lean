import CrochetShorthand.Proofs.Frames
import CrochetShorthand.Proofs.Nesting
import CrochetShorthand.Proofs.Reading

/-!
# The faults of commands

Only a pattern can make a command fail, and a command that was read has positive counts.  So
the only layouts that are left to fail are those of bends that are not two rows deep
(`fault_of_readPiece`): neither the layout of a magic circle without stitches nor the
overflow of a bend's segments can be reached from a text.
-/

namespace CrochetShorthand

/-! ## Layouts -/

/-- Four segments fit into the round, whatever the round is. -/
theorem BendRows.of_covered (round : UInt32) :
    BendRows.of round coveredDepth =
      .ok ⟨round, round / 4, UInt32.ofNat (round.toNat - (round / 4).toNat * 4)⟩ := by
  have hquarter : coveredDepth * 2 = 4 := by decide
  have hfour : (4 : UInt32).toNat = 4 := by decide
  have hle : (round / 4).toNat * 4 ≤ round.toNat := by
    rw [UInt32.toNat_div, hfour]
    exact Nat.div_mul_le_self round.toNat 4
  rw [BendRows.of, if_neg (not_not_intro rfl), hquarter]
  dsimp only
  rw [if_pos hle]

theorem Pattern.layout_magicCircle {stitches : UInt32} (h : 1 ≤ stitches) :
    (Pattern.magicCircle stitches).layout =
      .ok [⟨[.chain], 2⟩, ⟨[.back, .singleCrochet], stitches - 1⟩] := by
  have hne : stitches ≠ 0 := by
    rintro rfl
    exact absurd h (by decide)
  rw [layout, circleMotifs, if_neg hne]

/-- A layout fails for a circle without stitches, and for a bend of a depth that is not
covered. -/
theorem Pattern.layout_eq_error {pattern : Pattern} {fault : Fault}
    (h : pattern.layout = .error fault) :
    pattern = .magicCircle 0 ∨
      ∃ round depth, pattern = .bend round depth ∧ depth ≠ BendRows.coveredDepth ∧
        fault = .bendDepth round depth := by
  cases pattern with
  | magicCircle stitches =>
      left
      by_cases hzero : stitches = 0
      · rw [hzero]
      · simp [layout, circleMotifs, hzero] at h
  | magicEllipse extension => contradiction
  | bend round depth =>
      right
      by_cases hdepth : depth = BendRows.coveredDepth
      · subst hdepth
        simp [layout, BendRows.of_covered] at h
      · refine ⟨round, depth, rfl, hdepth, ?_⟩
        simpa [layout, BendRows.of, hdepth, eq_comm] using h

/-! ## Meanings -/

namespace Meaning

theorem fault_of_andThen {first second : Meaning} {fault : Fault}
    (h : (first.andThen second).fault = some fault) :
    first.fault = some fault ∨ second.fault = some fault := by
  unfold andThen at h
  split at h
  · exact .inl h
  · exact .inr h

theorem fault_of_times {count : Nat} {meaning : Meaning} {fault : Fault}
    (h : (times count meaning).fault = some fault) : meaning.fault = some fault := by
  induction count with
  | zero => contradiction
  | succ count ih =>
      rcases fault_of_andThen h with hfirst | hrest
      · exact hfirst
      · exact ih hrest

theorem fault_of_ofCommands {commands : List Command} {fault : Fault}
    (h : (ofCommands commands).fault = some fault) :
    ∃ command ∈ commands, (ofCommand command).fault = some fault := by
  induction commands with
  | nil => contradiction
  | cons first rest ih =>
      rcases fault_of_andThen h with hfirst | hrest
      · exact ⟨first, List.mem_cons_self .., hfirst⟩
      · obtain ⟨command, hmem, hcommand⟩ := ih hrest
        exact ⟨command, List.mem_cons_of_mem first hmem, hcommand⟩

/-- The fault of a command is the fault of the layout of a pattern inside it. -/
theorem fault_of_ofCommand {command : Command} {fault : Fault}
    (h : (ofCommand command).fault = some fault) :
    ∃ pattern : Pattern, .pattern pattern ∈ command.within ∧ pattern.layout = .error fault := by
  induction command with
  | stitch s => contradiction
  | pattern p =>
      refine ⟨p, List.mem_singleton_self _, ?_⟩
      rw [ofCommand, ofPattern] at h
      split at h
      · rename_i found hlayout
        rw [hlayout, ← Option.some.inj h]
      · contradiction
  | group commands count ih =>
      obtain ⟨command, hmem, hcommand⟩ := fault_of_ofCommands (fault_of_times h)
      obtain ⟨pattern, hinside, hlayout⟩ := ih command hmem hcommand
      refine ⟨pattern, ?_, hlayout⟩
      rw [Command.within, List.mem_cons, Command.mem_withinAll]
      exact .inr ⟨command, hmem, hinside⟩

end Meaning

/-! ## Commands that were read -/

namespace Command

/-- What a word denotes has positive counts. -/
theorem hasPositiveCounts_of_wordDenotes {piece : Text} {command : Command}
    (h : WordDenotes piece command) : command.HasPositiveCounts := by
  cases h with
  | stitch s => simp [HasPositiveCounts, within, counts]
  | magicCircle h => simpa [HasPositiveCounts, within, counts, Pattern.arguments] using h.one_le
  | magicEllipse h => simpa [HasPositiveCounts, within, counts, Pattern.arguments] using h.one_le
  | bend hround hdepth =>
      simpa [HasPositiveCounts, within, counts, Pattern.arguments] using
        ⟨hround.one_le, hdepth.one_le⟩

/-- What is read has positive counts. -/
theorem hasPositiveCounts_of_readPieceAt {limit levels : Nat} {piece : Text} {command : Command}
    (h : readPieceAt limit levels piece = .ok command) : command.HasPositiveCounts := by
  refine readPieceAt_induction (motive := fun _ _ command => command.HasPositiveCounts) ?_ ?_ h
  · intro _ _ _ hword
    exact hasPositiveCounts_of_wordDenotes hword
  · intro _ _ _ times commands hgroup _ hbody
    obtain ⟨digits, hnumeral, -⟩ := hgroup.numeral
    refine (hasPositiveCounts_group commands times).2 ⟨hnumeral.one_le, ?_⟩
    intro c hc
    obtain ⟨_, -, hcounts⟩ := exists_of_forall₂_of_mem hbody hc
    exact hcounts

theorem depth_of_wordDenotes {piece : Text} {command : Command} (h : WordDenotes piece command) :
    command.depth = 0 := by
  cases h <;> rfl

/-- What is read is nested no deeper than the levels that it was read with. -/
theorem depth_le_of_readPieceAt {limit levels : Nat} {piece : Text} {command : Command}
    (h : readPieceAt limit levels piece = .ok command) : command.depth ≤ levels := by
  refine readPieceAt_induction (motive := fun levels _ command => command.depth ≤ levels) ?_ ?_ h
  · intro _ _ _ hword
    rw [depth_of_wordDenotes hword]
    exact Nat.zero_le _
  · intro below _ _ times commands _ _ hbody
    have hinside : depthAll commands ≤ below := by
      rw [depthAll_le_iff]
      intro c hc
      obtain ⟨_, -, hdepth⟩ := exists_of_forall₂_of_mem hbody hc
      exact hdepth
    rw [depth]
    omega

/-- What is read is read in the same way, whatever the limit is, when as many levels are left as it
is nested deep. -/
theorem readPieceAt_of_depth_le {wide deep : Nat} {piece : Text} {command : Command}
    (h : readPieceAt wide deep piece = .ok command) {levels : Nat} (hdepth : command.depth ≤ levels)
    (limit : Nat) : readPieceAt limit levels piece = .ok command := by
  revert levels
  refine readPieceAt_induction (motive := fun _ piece command =>
    ∀ {levels}, command.depth ≤ levels → readPieceAt limit levels piece = .ok command) ?_ ?_ h
  · intro _ _ _ hword levels _
    exact readPieceAt_of_wordDenotes limit levels hword
  · intro _ _ body times commands hgroup _ hbody levels hdepth
    rw [depth] at hdepth
    obtain ⟨inside, rfl⟩ : ∃ inside, levels = inside + 1 := ⟨levels - 1, by omega⟩
    have hinside : ∀ c ∈ commands, c.depth ≤ inside := depthAll_le_iff.1 (by omega)
    have hmembers : (spokenPieces body).mapM (readPieceAt limit inside) = .ok commands := by
      have hboth := (List.forall₂_and_left _ _).2 ⟨hinside, hbody.flip⟩
      exact (mapM_eq_ok_iff_forall₂ _ _ _).2 (hboth.flip.imp fun _ _ h => h.2 h.1)
    rw [readPieceAt_succ_of_groupPiece limit inside hgroup, hmembers]
    rfl

/-- What is read is also read when more levels are left. -/
theorem readPieceAt_mono {limit below levels : Nat} {piece : Text} {command : Command}
    (h : readPieceAt limit below piece = .ok command) (hle : below ≤ levels) :
    readPieceAt limit levels piece = .ok command :=
  readPieceAt_of_depth_le h (Nat.le_trans (depth_le_of_readPieceAt h) hle) limit

/-- A command that was read fails only at a bend inside it that is not two rows deep. -/
theorem fault_of_readPiece {limit : Nat} {piece : Text} {command : Command} {fault : Fault}
    (hread : readPiece limit piece = .ok command)
    (hfault : (Meaning.ofCommand command).fault = some fault) :
    ∃ round depth, .pattern (.bend round depth) ∈ command.within ∧
      depth ≠ BendRows.coveredDepth ∧ fault = .bendDepth round depth := by
  obtain ⟨pattern, hinside, hlayout⟩ := Meaning.fault_of_ofCommand hfault
  rcases Pattern.layout_eq_error hlayout with rfl | ⟨round, depth, rfl, hdepth, rfl⟩
  · -- A circle without stitches is never read.
    have hcounts := hasPositiveCounts_of_readPieceAt hread
    have hzero : (1 : UInt32) ≤ 0 := hcounts _ hinside 0 (List.mem_singleton_self 0)
    exact absurd hzero (by decide)
  · exact ⟨round, depth, hinside, hdepth, rfl⟩

end Command

end CrochetShorthand
