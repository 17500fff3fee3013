import CrochetShorthand.Proofs.Frames
import CrochetShorthand.Proofs.Quoting
import Mathlib.Logic.Relation

/-!
# Counts that fit into words

The counts of a line are 32-bit words, and so are the numbers that are computed from them: the
measures of a pattern, the passes that a group has left and the pass in which a motif is worked.
None of this arithmetic leaves the words.

Zero is no count, so the ring of a magic circle can be one stitch shorter than its count.  A bend
that has a layout is two rows deep, and four quarters of a round fit into it.  The machine keeps a
group frame only while a pass is left, and adds to the pass of a walk only below the count of its
motif.

A line therefore fails only with what its text is to blame for: a piece that has no shape of the
notation, a group too many, or a bend that is not two rows deep.
-/

namespace CrochetShorthand

open Command (readEach)

/-! ## Measures of patterns -/

/-- The measures of a bend are the numbers that their formulas stand for, without a wrap around. -/
structure BendRows.IsExact (rows : BendRows) (depth : UInt32) : Prop where
  divisor : (depth * 2).toNat = depth.toNat * 2
  segment : rows.segment.toNat = rows.round.toNat / (depth.toNat * 2)
  padding : rows.segment.toNat * 4 + rows.padding.toNat = rows.round.toNat
  double : (2 * rows.segment).toNat = 2 * rows.segment.toNat

/-- The rows of a bend of the covered depth are exact, whatever the round is. -/
theorem BendRows.exists_exact (round : UInt32) :
    ∃ rows, BendRows.of round coveredDepth = .ok rows ∧ rows.round = round ∧
      rows.IsExact coveredDepth := by
  have hround : round.toNat < 2 ^ 32 := round.toNat_lt
  have hquarter : (round / 4).toNat = round.toNat / 4 := UInt32.toNat_div round 4
  have hpadding : (UInt32.ofNat (round.toNat - (round / 4).toNat * 4)).toNat =
      round.toNat - (round / 4).toNat * 4 :=
    UInt32.toNat_ofNat_of_lt' (Nat.lt_of_le_of_lt (Nat.sub_le ..) round.toNat_lt_size)
  have hdouble : 2 * (round / 4).toNat < 2 ^ 32 := by omega
  refine ⟨_, BendRows.of_covered round, rfl, rfl, hquarter, ?_, ?_⟩
  · show (round / 4).toNat * 4 + (UInt32.ofNat (round.toNat - (round / 4).toNat * 4)).toNat =
      round.toNat
    rw [hpadding]
    omega
  · show (2 * (round / 4)).toNat = 2 * (round / 4).toNat
    rw [UInt32.toNat_mul]
    exact Nat.mod_eq_of_lt hdouble

/-- The pattern has a layout, unless it is a bend of a depth that is not covered, and no measure
of the layout wraps around. -/
def Pattern.FitsWords : Pattern → Prop
  | .magicCircle stitches =>
      (stitches - 1).toNat + 1 = stitches.toNat ∧
        ∃ motifs, (Pattern.magicCircle stitches).layout = .ok motifs
  | .magicEllipse _ => True
  | .bend round depth =>
      depth = BendRows.coveredDepth →
        ∃ rows, BendRows.of round depth = .ok rows ∧ rows.round = round ∧ rows.IsExact depth

theorem Pattern.fitsWords_of_arguments {pattern : Pattern} (h : ∀ n ∈ pattern.arguments, 1 ≤ n) :
    pattern.FitsWords := by
  cases pattern with
  | magicCircle stitches =>
      have hle : 1 ≤ stitches := h stitches (List.mem_singleton_self stitches)
      have hsub : (stitches - 1).toNat = stitches.toNat - 1 := UInt32.toNat_sub_of_le _ _ hle
      have hpositive : 1 ≤ stitches.toNat := UInt32.le_iff_toNat_le.1 hle
      constructor
      · omega
      · exact ⟨_, layout_magicCircle hle⟩
  | magicEllipse extension => trivial
  | bend round depth =>
      intro hdepth
      rw [hdepth]
      exact BendRows.exists_exact round

/-! ## Counters of frames -/

namespace Frame

/-- The counter of a frame is a word. -/
def FitsWords : Frame → Prop
  | .single _ => True
  | .pattern walk => walk.pass < UInt32.size
  | .group _ _ remaining => remaining < UInt32.size

end Frame

/-- A walk that gives a stitch has not come further than its motif goes. -/
theorem Walk.pass_lt_of_next? {walk after : Walk} {stitch : Stitch}
    (h : walk.next? = some (stitch, after)) : after.pass < UInt32.size := by
  fun_induction next? walk with
  | case1 => contradiction
  | case2 walk motif hmotif found hstitch =>
      obtain ⟨rfl, rfl⟩ := Prod.mk.inj (Option.some.inj h)
      obtain ⟨hpass, -⟩ := (stitchAt?_eq_some_iff _ _ _ _).1 hstitch
      have htimes := motif.times.toNat_lt_size
      unfold afterStitch
      split <;> (dsimp only; omega)
  | case3 _ _ _ _ _ ih => exact ih h

namespace Unfolding

/-- The counters of all frames are words. -/
def FitsWords (frames : Unfolding) : Prop :=
  ∀ frame ∈ frames, frame.FitsWords

theorem fitsWords_cons (frame : Frame) (below : Unfolding) :
    FitsWords (frame :: below) ↔ frame.FitsWords ∧ FitsWords below :=
  List.forall_mem_cons

theorem fitsWords_of_push_ok {command : Command} {frames pushed : Unfolding}
    (hframes : FitsWords frames) (h : push command frames = .ok pushed) : FitsWords pushed := by
  unfold push at h
  split at h
  · obtain rfl := Except.ok.inj h
    exact (fitsWords_cons _ _).2 ⟨trivial, hframes⟩
  · split at h
    · contradiction
    · rename_i motifs _
      obtain rfl := Except.ok.inj h
      have hstart : (Frame.pattern (Walk.start motifs)).FitsWords := Nat.two_pow_pos 32
      exact (fitsWords_cons _ _).2 ⟨hstart, hframes⟩
  · rename_i commands times
    split at h
    · obtain rfl := Except.ok.inj h
      exact hframes
    · obtain rfl := Except.ok.inj h
      exact (fitsWords_cons _ _).2 ⟨times.toNat_lt_size, hframes⟩

/-- One turn of the machine leads from one stack of frames to the next, with a stitch or without
one. -/
inductive TurnsTo : Unfolding → Unfolding → Prop
  | running {frames after : Unfolding} (h : turn frames = .running after) : TurnsTo frames after
  | yielded {frames after : Unfolding} {stitch : Stitch} (h : turn frames = .yielded stitch after) :
      TurnsTo frames after

theorem fitsWords_of_turnCommand {commands : List Command} {next remaining : Nat}
    {below after : Unfolding} (hremaining : remaining < UInt32.size) (hbelow : FitsWords below)
    (h : turnCommand commands next remaining below = .running after) : FitsWords after := by
  unfold turnCommand at h
  split at h
  · obtain rfl := Turn.running.inj h
    exact hbelow
  · split at h
    · obtain rfl := Turn.running.inj h
      exact hbelow
    · split at h
      · contradiction
      · rename_i hpush
        obtain rfl := Turn.running.inj h
        have hgroup : (Frame.group commands (next + 1) remaining).FitsWords := hremaining
        exact fitsWords_of_push_ok ((fitsWords_cons _ _).2 ⟨hgroup, hbelow⟩) hpush

/-- What a turn does depends on the innermost frame: a stitch is given, the walk of a pattern ends
or gives a stitch, or a group frame is turned. -/
theorem TurnsTo.cases {frames after : Unfolding} (h : TurnsTo frames after) :
    (∃ stitch, frames = .single stitch :: after) ∨
    (∃ walk, walk.next? = none ∧ frames = .pattern walk :: after) ∨
    (∃ walk stitch walk' below, walk.next? = some (stitch, walk') ∧
      frames = .pattern walk :: below ∧ after = .pattern walk' :: below) ∨
    ∃ commands next remaining below, turnGroup commands next remaining below = .running after ∧
      frames = .group commands next remaining :: below := by
  cases frames with
  | nil => rcases h with h | h <;> contradiction
  | cons frame below =>
      cases frame with
      | single stitch =>
          rcases h with h | h
          · contradiction
          · obtain ⟨-, rfl⟩ := Turn.yielded.inj h
            exact .inl ⟨stitch, rfl⟩
      | pattern walk =>
          cases hnext : walk.next? with
          | none =>
              rcases h with h | h
              · simp only [turn, hnext] at h
                obtain rfl := Turn.running.inj h
                exact .inr (.inl ⟨walk, hnext, rfl⟩)
              · simp [turn, hnext] at h
          | some pulled =>
              obtain ⟨stitch, walk'⟩ := pulled
              rcases h with h | h
              · simp [turn, hnext] at h
              · simp only [turn, hnext] at h
                obtain ⟨-, rfl⟩ := Turn.yielded.inj h
                exact .inr (.inr (.inl ⟨walk, stitch, walk', below, hnext, rfl, rfl⟩))
      | group commands next remaining =>
          rcases h with h | h
          · exact .inr (.inr (.inr ⟨commands, next, remaining, below, h, rfl⟩))
          · exact absurd h (turnGroup_ne_yielded _ _ _ _ _ _)

/-- One turn keeps the counters within words. -/
theorem TurnsTo.fitsWords {frames after : Unfolding} (h : TurnsTo frames after)
    (hframes : FitsWords frames) : FitsWords after := by
  rcases h.cases with ⟨stitch, rfl⟩ | ⟨walk, -, rfl⟩ |
    ⟨walk, stitch, walk', below, hnext, rfl, rfl⟩ | ⟨commands, next, remaining, below, hturn, rfl⟩
  · exact ((fitsWords_cons _ _).1 hframes).2
  · exact ((fitsWords_cons _ _).1 hframes).2
  · have hbelow := ((fitsWords_cons _ _).1 hframes).2
    exact (fitsWords_cons _ _).2 ⟨Walk.pass_lt_of_next? hnext, hbelow⟩
  · obtain ⟨hremaining, hbelow⟩ := (fitsWords_cons _ _).1 hframes
    have hless : remaining - 1 < UInt32.size := Nat.lt_of_le_of_lt (Nat.sub_le ..) hremaining
    rw [turnGroup] at hturn
    split at hturn
    · exact fitsWords_of_turnCommand hless hbelow hturn
    · exact fitsWords_of_turnCommand hremaining hbelow hturn

theorem TurnsTo.inRange {frames after : Unfolding} (h : TurnsTo frames after)
    (hframes : InRange frames) : InRange after := by
  rcases h with h | h
  · exact (accounts_of_turn_eq hframes h).2
  · exact (accounts_of_turn_eq hframes h).2

theorem fitsWords_ofCommands (commands : List Command) : FitsWords (ofCommands commands) := by
  unfold ofCommands
  split
  · intro frame hmem
    contradiction
  · intro frame hmem
    obtain rfl := List.mem_singleton.1 hmem
    show 1 < UInt32.size
    decide

/-- Whatever the commands are, all stacks of their unfolding are in range and have words for
counters. -/
theorem inRange_fitsWords_of_turns {commands : List Command} {frames : Unfolding}
    (h : Relation.ReflTransGen TurnsTo (ofCommands commands) frames) :
    InRange frames ∧ FitsWords frames := by
  induction h with
  | refl => exact ⟨inRange_ofCommands commands, fitsWords_ofCommands commands⟩
  | tail _ hturn ih => exact ⟨hturn.inRange ih.1, hturn.fitsWords ih.2⟩

end Unfolding

/-! ## Lines -/

/-- A line fails at a piece without a shape of the notation, at a group too many, or at a bend that
is not two rows deep. -/
theorem FailsWith.cases {limit : Nat} {line : Text} {fault : Fault}
    (h : FailsWith limit line fault) :
    (∃ piece, fault = .unknownPiece piece) ∨ (∃ piece, fault = .tooDeep piece limit) ∨
      ∃ round depth, depth ≠ BendRows.coveredDepth ∧ fault = .bendDepth round depth := by
  obtain ⟨piece, hmem, hfault⟩ := h.exists_piece
  obtain ⟨hnonempty, -⟩ := infix_of_mem_spokenPieces hmem
  rcases hfault with hread | hunfold
  · obtain ⟨part, -, -, hpart⟩ := Command.exists_part_of_readPieceAt_error hnonempty
      (Command.readPiece_of_readFault? hread)
    rcases hpart with hunknown | hdeep
    · exact .inl ⟨part, hunknown⟩
    · exact .inr (.inl ⟨part, hdeep⟩)
  · obtain ⟨command, hcommand, hmeaning⟩ := Command.readPiece_of_unfoldFault? hunfold
    obtain ⟨round, depth, -, hdepth, hbend⟩ := Command.fault_of_readPiece hcommand hmeaning
    exact .inr (.inr ⟨round, depth, hdepth, hbend⟩)

/-- What is read from a line has counts from one on and is nested no deeper than the limit, and the
measures of its patterns do not wrap around.  The report and all stages fail only for what stands in
the line, never for a promise of the library.  While commands unfold, every group frame has
a pass left, every walk stands at a pass and a stitch of its motif, and all counters are words. -/
theorem readEach_fits_words (limit : Nat) (line : Text) :
    (∀ command, .ok command ∈ readEach limit line →
      command.HasPositiveCounts ∧ command.depth ≤ limit ∧
        ∀ pattern, .pattern pattern ∈ command.within → pattern.FitsWords) ∧
    (∀ fault, FailsWith limit line fault →
      (∃ piece, fault = .unknownPiece piece) ∨ (∃ piece, fault = .tooDeep piece limit) ∨
        ∃ round depth, depth ≠ BendRows.coveredDepth ∧ fault = .bendDepth round depth) ∧
    ∀ commands frames,
      Relation.ReflTransGen Unfolding.TurnsTo (Unfolding.ofCommands commands) frames →
        Unfolding.InRange frames ∧ Unfolding.FitsWords frames := by
  refine ⟨?_, fun _ => FailsWith.cases, fun _ _ => Unfolding.inRange_fitsWords_of_turns⟩
  intro command hmem
  obtain ⟨piece, -, hread⟩ := List.mem_map.1 hmem
  have hcounts := Command.hasPositiveCounts_of_readPieceAt hread
  refine ⟨hcounts, Command.depth_le_of_readPieceAt hread, ?_⟩
  intro pattern hinside
  exact Pattern.fitsWords_of_arguments (hcounts _ hinside)

/-- The greatest count repeats a circle of the greatest count, behind a bend of three rows. -/
theorem readEach_fits_words_of_greatest_count :
    (.ok (.group [.pattern (.bend 7 3), .pattern (.magicCircle 4294967295)] 4294967295) ∈
        readEach 1 "[bend(7,3) mc(4294967295)]4294967295".toList ∧
      (Pattern.magicCircle 4294967295).FitsWords) ∧
    (FailsWith 1 "[bend(7,3) mc(4294967295)]4294967295".toList (.bendDepth 7 3) ∧
      (3 : UInt32) ≠ BendRows.coveredDepth) ∧
    Relation.ReflTransGen Unfolding.TurnsTo
        (Unfolding.ofCommands [.group [.stitch .chain] 4294967295])
        [.group [.stitch .chain] 0 4294967295,
          .group [.group [.stitch .chain] 4294967295] 1 1] ∧
      Unfolding.FitsWords
        [.group [.stitch .chain] 0 4294967295,
          .group [.group [.stitch .chain] 4294967295] 1 1] := by
  obtain ⟨hcommands, hfaults, hframes⟩ :=
    readEach_fits_words 1 "[bend(7,3) mc(4294967295)]4294967295".toList
  have hread : .ok (.group [.pattern (.bend 7 3), .pattern (.magicCircle 4294967295)] 4294967295) ∈
      readEach 1 "[bend(7,3) mc(4294967295)]4294967295".toList := by
    decide +kernel
  have hinside : .pattern (.magicCircle 4294967295) ∈
      (Command.group [.pattern (.bend 7 3), .pattern (.magicCircle 4294967295)]
        4294967295).within := by
    decide
  have hfails : FailsWith 1 "[bend(7,3) mc(4294967295)]4294967295".toList (.bendDepth 7 3) := by
    left
    decide +kernel
  have hdepth : (3 : UInt32) ≠ BendRows.coveredDepth := by
    rcases hfaults _ hfails with ⟨_, heq⟩ | ⟨_, heq⟩ | ⟨_, _, hne, heq⟩
    · contradiction
    · contradiction
    · obtain ⟨-, rfl⟩ := Fault.bendDepth.inj heq
      exact hne
  have hturns : Relation.ReflTransGen Unfolding.TurnsTo
      (Unfolding.ofCommands [.group [.stitch .chain] 4294967295])
      [.group [.stitch .chain] 0 4294967295,
        .group [.group [.stitch .chain] 4294967295] 1 1] := .single (.running rfl)
  exact ⟨⟨hread, (hcommands _ hread).2.2 _ hinside⟩, ⟨hfails, hdepth⟩, hturns,
    (hframes _ _ hturns).2⟩

end CrochetShorthand
