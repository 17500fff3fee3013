import CrochetShorthand.Proofs.Nesting
import CrochetShorthand.Proofs.Turns
import CrochetShorthand.Proofs.WordSize

/-!
# The stack leads into the commands

The frames of an unfolding are a way from the whole list of commands inwards: the outermost frame
goes through the list, and every other frame unfolds the command that the frame below it has just
come past (`Descends`).  So the stack is never higher than the groups are nested, with one frame
for the list and one for a stitch or a pattern; how often a group is worked makes no difference.

Each frame is in a state that fits its command.  A group frame has commands, a pass left, and no
more passes than its group says.  So a turn never takes a pass from a frame that has none, and
never looks for a command or a stitch where there is none (`TurnsSafely`).
-/

namespace CrochetShorthand

/-! ## Places of a walk -/

/-- The walk goes through the motifs of the pattern it started with. -/
theorem Walk.motifs_of_next? {walk after : Walk} {stitch : Stitch}
    (h : walk.next? = some (stitch, after)) : after.motifs = walk.motifs := by
  fun_induction next? walk with
  | case1 => contradiction
  | case2 walk motif hmotif found hstitch =>
      obtain ⟨rfl, rfl⟩ := Prod.mk.inj (Option.some.inj h)
      exact motifs_afterStitch _ _
  | case3 _ _ _ _ _ ih => exact ih h

/-- Where the motif has a pass left and stitches at all, the walk stands at one of them. -/
def Walk.FindsStitch (walk : Walk) : Prop :=
  ∀ motif, walk.motifs[walk.index]? = some motif → walk.pass < motif.times.toNat →
    motif.stitches ≠ [] → walk.position < motif.stitches.length

theorem Walk.InRange.findsStitch {walk : Walk} (h : walk.InRange) : walk.FindsStitch := by
  intro motif hmotif _ hstitches
  rcases Nat.eq_zero_or_pos walk.position with hzero | hpos
  · rw [hzero]
    exact List.length_pos_iff.2 hstitches
  · exact h.position_lt motif hmotif hpos

theorem Walk.InRange.rounds {count : Nat} {walk place : Walk} (h : walk.InRange)
    (hrounds : Rounds StepsOver count walk place) : place.InRange := by
  induction hrounds with
  | none => exact h
  | round hover _ ih =>
      obtain ⟨-, -⟩ := hover
      exact ih (inRange_at_motif _ _)

/-! ## Counts left out -/

/-- The pattern without its counts. -/
def Pattern.uncounted : Pattern → Pattern
  | .magicCircle _ => .magicCircle 0
  | .magicEllipse _ => .magicEllipse 0
  | .bend _ _ => .bend 0 0

namespace Command

mutual

/-- The command without its counts: what stands where, however often it is worked. -/
def uncounted : Command → Command
  | .stitch s => .stitch s
  | .pattern p => .pattern p.uncounted
  | .group commands _ => .group (uncountedAll commands) 0

/-- The commands without their counts. -/
def uncountedAll : List Command → List Command
  | [] => []
  | command :: rest => command.uncounted :: uncountedAll rest

end

theorem depthAll_uncountedAll {commands : List Command}
    (h : ∀ command ∈ commands, command.uncounted.depth = command.depth) :
    depthAll (uncountedAll commands) = depthAll commands := by
  induction commands with
  | nil => rfl
  | cons command rest ih =>
      obtain ⟨hcommand, hrest⟩ := List.forall_mem_cons.1 h
      rw [uncountedAll, depthAll, depthAll, hcommand, ih hrest]

/-- The counts make no difference to the nesting. -/
theorem depth_uncounted (command : Command) : command.uncounted.depth = command.depth := by
  induction command with
  | stitch s => rfl
  | pattern p => rfl
  | group commands times ih => rw [uncounted, depth, depth, depthAll_uncountedAll ih]

end Command

/-! ## Frames and commands -/

/-- The frame unfolds the command.  The frame of a group stands at one of its commands or behind the
last, in one of the passes that the group says. -/
inductive Frame.Unfolds : Command → Frame → Prop
  | stitch (stitch : Stitch) : Unfolds (.stitch stitch) (.single stitch)
  | pattern {pattern : Pattern} {walk : Walk} (hlayout : pattern.layout = .ok walk.motifs)
      (hwalk : walk.InRange) : Unfolds (.pattern pattern) (.pattern walk)
  | group {commands : List Command} {times : UInt32} {next remaining : Nat}
      (hcommands : commands ≠ []) (hnext : next ≤ commands.length) (hpass : 1 ≤ remaining)
      (htimes : remaining ≤ times.toNat) :
      Unfolds (.group commands times) (.group commands next remaining)

namespace Unfolding

/-- The frames lead from the whole to a command inside it, the innermost frame first.  Each frame
unfolds the command that the group frame below it has just come past. -/
inductive Descends (whole : Command) : Command → Unfolding → Prop
  | outermost {frame : Frame} (h : frame.Unfolds whole) : Descends whole whole [frame]
  | inside {commands : List Command} {times : UInt32} {next remaining : Nat} {below : Unfolding}
      {command : Command} {frame : Frame}
      (hbelow : Descends whole (.group commands times)
        (.group commands (next + 1) remaining :: below))
      (hcommand : commands[next]? = some command) (h : frame.Unfolds command) :
      Descends whole command (frame :: .group commands (next + 1) remaining :: below)

variable {whole command : Command} {frame : Frame} {below : Unfolding}

/-- The innermost frame unfolds the command. -/
theorem Descends.unfolds (h : Descends whole command (frame :: below)) : frame.Unfolds command := by
  cases h with
  | outermost h => exact h
  | inside _ _ h => exact h

/-- The innermost frame may go on in its command. -/
theorem Descends.replace (h : Descends whole command (frame :: below)) {after : Frame}
    (hafter : after.Unfolds command) : Descends whole command (after :: below) := by
  cases h with
  | outermost _ => exact .outermost hafter
  | inside hbelow hcommand _ => exact .inside hbelow hcommand hafter

/-- The frames are none, or they lead from the whole to some command. -/
def Leads (whole : Command) (frames : Unfolding) : Prop :=
  frames = [] ∨ ∃ command, Descends whole command frames

/-- When the innermost frame is done, the frames below it are left. -/
theorem Descends.leads_below (h : Descends whole command (frame :: below)) : Leads whole below := by
  cases h with
  | outermost _ => exact .inl rfl
  | inside hbelow _ _ => exact .inr ⟨_, hbelow⟩

/-- Every frame takes a level of nesting. -/
theorem Descends.length_le {frames : Unfolding} (h : Descends whole command frames) :
    frames.length + command.depth ≤ whole.depth + 1 := by
  induction h with
  | outermost _ => simp; omega
  | @inside commands times next remaining below command frame _ hcommand _ ih =>
      have hdepth := Command.depthAll_le_iff.1 (Nat.le_refl (Command.depthAll commands)) command
        (List.mem_of_getElem? hcommand)
      rw [Command.depth] at ih
      rw [List.length_cons]
      omega

/-! ## One turn -/

/-- The frame of a command leads further, from the group frame that has just come past it. -/
theorem leads_of_push_ok {commands : List Command} {times : UInt32} {next remaining : Nat}
    {pushed : Unfolding}
    (hgroup : Descends whole (.group commands times)
      (.group commands (next + 1) remaining :: below))
    (hcommand : commands[next]? = some command)
    (hpush : push command (.group commands (next + 1) remaining :: below) = .ok pushed) :
    Leads whole pushed := by
  cases command with
  | stitch stitch =>
      obtain rfl := Except.ok.inj hpush
      exact .inr ⟨_, .inside hgroup hcommand (.stitch stitch)⟩
  | pattern pattern =>
      cases hlayout : pattern.layout with
      | error fault => simp [push, hlayout] at hpush
      | ok motifs =>
          simp only [push, hlayout] at hpush
          obtain rfl := Except.ok.inj hpush
          have hstart : (Frame.pattern (Walk.start motifs)).Unfolds (.pattern pattern) :=
            .pattern hlayout (Walk.inRange_at_motif motifs 0)
          exact .inr ⟨_, .inside hgroup hcommand hstart⟩
  | group inner count =>
      rw [push] at hpush
      split at hpush
      · obtain rfl := Except.ok.inj hpush
        exact .inr ⟨_, hgroup⟩
      · rename_i hframe
        obtain rfl := Except.ok.inj hpush
        simp only [Bool.or_eq_true, List.isEmpty_iff, beq_iff_eq, not_or] at hframe
        have hcount : 1 ≤ count.toNat :=
          Nat.one_le_iff_ne_zero.2 fun hzero => hframe.2 (UInt32.toNat_inj.1 hzero)
        have hfirst : (Frame.group inner 0 count.toNat).Unfolds (.group inner count) :=
          .group hframe.1 (Nat.zero_le _) hcount (Nat.le_refl _)
        exact .inr ⟨_, .inside hgroup hcommand hfirst⟩

theorem leads_of_turnCommand {commands : List Command} {times : UInt32} {next remaining : Nat}
    {after : Unfolding}
    (hgroup : Descends whole (.group commands times) (.group commands next remaining :: below))
    (h : turnCommand commands next remaining below = .running after) : Leads whole after := by
  rw [turnCommand] at h
  split at h
  · obtain rfl := Turn.running.inj h
    exact hgroup.leads_below
  · split at h
    · obtain rfl := Turn.running.inj h
      exact hgroup.leads_below
    · rename_i command hcommand
      have hlt := (List.getElem?_eq_some_iff.1 hcommand).1
      cases hgroup.unfolds with
      | group hcommands _ hpass htimes =>
          have hpast := hgroup.replace (.group hcommands hlt hpass htimes)
          split at h
          · contradiction
          · rename_i hpush
            obtain rfl := Turn.running.inj h
            exact leads_of_push_ok hpast hcommand hpush

theorem leads_of_turnGroup {commands : List Command} {times : UInt32} {next remaining : Nat}
    {after : Unfolding}
    (hgroup : Descends whole (.group commands times) (.group commands next remaining :: below))
    (h : turnGroup commands next remaining below = .running after) : Leads whole after := by
  cases hgroup.unfolds with
  | group hcommands hnext hpass htimes =>
      rw [turnGroup] at h
      split at h
      · by_cases hlast : remaining - 1 = 0
        · rw [turnCommand, if_pos hlast] at h
          obtain rfl := Turn.running.inj h
          exact hgroup.leads_below
        · -- The next pass begins, with one pass less to come.
          have hagain := hgroup.replace
            (.group hcommands (Nat.zero_le _) (Nat.one_le_iff_ne_zero.2 hlast)
              ((Nat.sub_le remaining 1).trans htimes))
          exact leads_of_turnCommand hagain h
      · exact leads_of_turnCommand hgroup h

/-- A turn leads further into the commands, or out of them again. -/
theorem TurnsTo.leads {frames after : Unfolding} (h : TurnsTo frames after)
    (hframes : Leads whole frames) : Leads whole after := by
  rcases hframes with rfl | ⟨command, hdescends⟩
  · rcases h with h | h <;> contradiction
  · rcases h.cases with ⟨stitch, rfl⟩ | ⟨walk, -, rfl⟩ |
      ⟨walk, stitch, walk', below, hnext, rfl, rfl⟩ |
      ⟨commands, next, remaining, below, hturn, rfl⟩
    · exact hdescends.leads_below
    · exact hdescends.leads_below
    · cases hdescends.unfolds with
      | pattern hlayout hwalk =>
          have hmotifs := Walk.motifs_of_next? hnext
          have hafter := (Walk.ahead_of_next?_some hwalk hnext).2
          exact .inr ⟨_, hdescends.replace (.pattern (hmotifs ▸ hlayout) hafter)⟩
    · cases hdescends.unfolds with
      | group _ _ _ _ => exact leads_of_turnGroup hdescends hturn

/-! ## Pulls -/

theorem Leads.rounds {count : Nat} {frames after : Unfolding} (hframes : Leads whole frames)
    (h : Rounds GoesOn count frames after) : Leads whole after := by
  induction h with
  | none => exact hframes
  | round hgoes _ ih => exact ih ((TurnsTo.running hgoes).leads hframes)

theorem Leads.afterPull {frames : Unfolding} (h : Leads whole frames) :
    Leads whole (next? frames).2 := by
  obtain ⟨count, last, hrounds, hgives, -⟩ := next?_ends frames
  have hlast := h.rounds hrounds
  generalize next? frames = given at hgives ⊢
  cases hgives with
  | ended _ => exact .inl rfl
  | stitch hturn => exact (TurnsTo.yielded hturn).leads hlast
  | fault _ => exact .inl rfl

theorem Leads.afterPulls {frames : Unfolding} (h : Leads whole frames) (count : Nat) :
    Leads whole (afterPulls count frames) := by
  induction count generalizing frames with
  | zero => exact h
  | succ count ih => exact ih h.afterPull

theorem leads_ofCommands (commands : List Command) :
    Leads (.group commands 1) (ofCommands commands) := by
  rw [ofCommands]
  split
  · exact .inl rfl
  · rename_i hcommands
    have hnonempty : commands ≠ [] := by simpa using hcommands
    exact .inr ⟨_, .outermost (.group hnonempty (Nat.zero_le _) (Nat.le_refl 1) (by decide))⟩

/-- A pull that gives no stitch leaves no frame. -/
theorem next?_empties {frames : Unfolding} (h : ∀ stitch, (next? frames).1 ≠ some (.ok stitch)) :
    (next? frames).2 = [] := by
  obtain ⟨_, _, -, hgives, -⟩ := next?_ends frames
  generalize next? frames = given at hgives h ⊢
  cases hgives with
  | ended _ => rfl
  | stitch _ => exact absurd rfl (h _)
  | fault _ => rfl

theorem afterPulls_add (first second : Nat) (frames : Unfolding) :
    afterPulls (first + second) frames = afterPulls second (afterPulls first frames) := by
  induction first generalizing frames with
  | zero => rw [Nat.zero_add, afterPulls]
  | succ first ih => rw [Nat.succ_add, afterPulls, ih, afterPulls]

theorem afterPulls_nil (count : Nat) : afterPulls count [] = [] := by
  induction count with
  | zero => rfl
  | succ count ih => rw [afterPulls, next?_of_finished rfl, ih]

/-! ## Bounds -/

/-- What a turn takes away or looks up at the innermost frame is there.  A group frame has a pass
that can be taken off, and a command where the turn goes to.  Wherever the walk of a pattern comes
to, it finds the stitch that it looks for. -/
def TurnsSafely : Unfolding → Prop
  | [] => True
  | .single _ :: _ => True
  | .pattern walk :: _ =>
      ∀ count place, Rounds Walk.StepsOver count walk place → place.FindsStitch
  | .group commands next remaining :: _ =>
      1 ≤ remaining ∧ (if next = commands.length then 0 else next) < commands.length

theorem Leads.turnsSafely {whole : Command} {frames : Unfolding} (h : Leads whole frames) :
    TurnsSafely frames := by
  rcases h with rfl | ⟨command, hdescends⟩
  · trivial
  · cases frames with
    | nil => trivial
    | cons frame below =>
        cases hdescends.unfolds with
        | stitch _ => trivial
        | pattern _ hwalk =>
            intro count place hrounds
            exact (hwalk.rounds hrounds).findsStitch
        | group hcommands hnext hpass _ =>
            refine ⟨hpass, ?_⟩
            split
            · exact List.length_pos_iff.2 hcommands
            · omega

theorem Leads.length_le {commands : List Command} {frames : Unfolding}
    (h : Leads (.group commands 1) frames) : frames.length ≤ Command.depthAll commands + 2 := by
  rcases h with rfl | ⟨command, hdescends⟩
  · exact Nat.zero_le _
  · have hle := hdescends.length_le
    rw [Command.depth] at hle
    omega

/-- After any number of pulls, and any number of turns of the next one, the stack is no higher
than the groups are nested, with one frame for the list of commands and one for a stitch or a
pattern.  Its frames lead from the list into the commands, each in a state that fits its command,
and the next turn finds all that it looks for.  After a pull that gave a fault or the end, there
are no frames any more.  The bound is the same for commands that differ in their counts only. -/
theorem stack_within_nesting (commands : List Command) :
    (∀ count turns frames, Rounds GoesOn turns (afterPulls count (ofCommands commands)) frames →
      frames.length ≤ Command.depthAll commands + 2 ∧ Leads (.group commands 1) frames ∧
        TurnsSafely frames) ∧
    (∀ count, (∀ stitch, (next? (afterPulls count (ofCommands commands))).1 ≠ some (.ok stitch)) →
      ∀ more, afterPulls (count + 1 + more) (ofCommands commands) = []) ∧
    ∀ others, Command.uncountedAll others = Command.uncountedAll commands →
      ∀ count turns frames, Rounds GoesOn turns (afterPulls count (ofCommands others)) frames →
        frames.length ≤ Command.depthAll commands + 2 := by
  have hleads : ∀ commands count turns frames,
      Rounds GoesOn turns (afterPulls count (ofCommands commands)) frames →
        Leads (.group commands 1) frames :=
    fun commands count _ _ h => ((leads_ofCommands commands).afterPulls count).rounds h
  refine ⟨?_, ?_, ?_⟩
  · intro count turns frames h
    have hframes := hleads commands count turns frames h
    exact ⟨hframes.length_le, hframes, hframes.turnsSafely⟩
  · intro count h more
    rw [afterPulls_add, afterPulls_add, afterPulls, next?_empties h, afterPulls, afterPulls_nil]
  · intro others hothers count turns frames h
    have hdepth : ∀ commands,
        Command.depthAll (Command.uncountedAll commands) = Command.depthAll commands :=
      fun _ => Command.depthAll_uncountedAll fun command _ => command.depth_uncounted
    rw [← hdepth commands, ← hothers, hdepth others]
    exact (hleads others count turns frames h).length_le

/-- Two turns put the frames of a group and of its stitch above the frame of the list.  The bound of
three frames is reached, and it holds as well when the group is worked twice.  A bend of three rows
leaves no frame. -/
theorem stack_within_nesting_of_group :
    (Rounds GoesOn 2
        (afterPulls 0 (ofCommands [.group [.stitch .singleCrochet] 4294967295]))
        [.single .singleCrochet, .group [.stitch .singleCrochet] 1 4294967295,
          .group [.group [.stitch .singleCrochet] 4294967295] 1 1] ∧
      3 ≤ Command.depthAll [.group [.stitch .singleCrochet] 4294967295] + 2) ∧
    ((∀ stitch, (next? (afterPulls 0 (ofCommands [.pattern (.bend 7 3)]))).1 ≠
        some (.ok stitch)) ∧
      afterPulls (0 + 1 + 5) (ofCommands [.pattern (.bend 7 3)]) = []) ∧
    (Command.uncountedAll [.group [.stitch .singleCrochet] 4294967295] =
        Command.uncountedAll [.group [.stitch .singleCrochet] 2] ∧
      3 ≤ Command.depthAll [.group [.stitch .singleCrochet] 2] + 2) := by
  have hturns : Rounds GoesOn 2
      (afterPulls 0 (ofCommands [.group [.stitch .singleCrochet] 4294967295]))
      [.single .singleCrochet, .group [.stitch .singleCrochet] 1 4294967295,
        .group [.group [.stitch .singleCrochet] 4294967295] 1 1] :=
    .round rfl (.round rfl (.none _))
  have hfault : (next? (afterPulls 0 (ofCommands [.pattern (.bend 7 3)]))).1 =
      some (.error (.bendDepth 7 3)) := by
    decide +kernel
  have hbent : ∀ stitch, (next? (afterPulls 0 (ofCommands [.pattern (.bend 7 3)]))).1 ≠
      some (.ok stitch) := by
    intro stitch
    rw [hfault]
    simp
  have hcounts : Command.uncountedAll [.group [.stitch .singleCrochet] 4294967295] =
      Command.uncountedAll [.group [.stitch .singleCrochet] 2] := rfl
  obtain ⟨hheight, -, -⟩ := stack_within_nesting [.group [.stitch .singleCrochet] 4294967295]
  obtain ⟨-, -, hothers⟩ := stack_within_nesting [.group [.stitch .singleCrochet] 2]
  obtain ⟨-, hempty, -⟩ := stack_within_nesting [.pattern (.bend 7 3)]
  exact ⟨⟨hturns, (hheight 0 2 _ hturns).1⟩, ⟨hbent, hempty 0 hbent 5⟩, hcounts,
    hothers _ hcounts 0 2 _ hturns⟩

end Unfolding

end CrochetShorthand
