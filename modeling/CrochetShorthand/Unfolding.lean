import CrochetShorthand.Command
import CrochetShorthand.Pattern.Layout

/-!
# Unfolding commands

Commands unfold into stitches one at a time, with a stack of frames in place of recursion:

* a `single` frame gives its stitch once;
* a `pattern` frame walks the motifs of the pattern;
* a `group` frame goes through its commands, as many passes as remain, and puts a frame on the
  stack for each command in turn.

Groups without commands, and groups worked no time, put no frame on the stack.  A fault
empties the stack, so nothing comes after it.

`turn` is one turn of the machine.  `frameWork` bounds the turns that a frame still takes, and
every turn that goes on leaves less work (`turn_yielded_work`, `turn_running_work`): so each
pull ends, and so does the whole unfolding.
-/

namespace CrochetShorthand

/-- What is being unfolded at one level of nesting. -/
inductive Frame
  | single (stitch : Stitch)
  /-- The command number `next` is to come in the current pass, one of `remaining`. -/
  | group (commands : List Command) (next : Nat) (remaining : Nat)
  | pattern (walk : Walk)
deriving Repr

/-- The frames of an unfolding under way, the innermost first. -/
abbrev Unfolding := List Frame

namespace Unfolding

/-- The unfolding of a list of commands, before the first stitch. -/
def ofCommands (commands : List Command) : Unfolding :=
  if commands.isEmpty then [] else [.group commands 0 1]

/-- The unfolding of one command. -/
def ofCommand (command : Command) : Unfolding :=
  ofCommands [command]

/-- Put the frame of a command on the stack, if it has one. -/
def push (command : Command) (frames : Unfolding) : Except Fault Unfolding :=
  match command with
  | .stitch stitch => .ok (.single stitch :: frames)
  | .pattern pattern =>
      match pattern.layout with
      | .error fault => .error fault
      | .ok motifs => .ok (.pattern (Walk.start motifs) :: frames)
  | .group commands times =>
      if commands.isEmpty || times == 0 then .ok frames
      else .ok (.group commands 0 times.toNat :: frames)

/-- What one turn of the machine comes to. -/
inductive Turn
  /-- No frame is left. -/
  | finished
  | yielded (stitch : Stitch) (frames : Unfolding)
  | failed (fault : Fault)
  /-- Neither a stitch nor a fault yet. -/
  | running (frames : Unfolding)
deriving Repr

/-- Put the frame of command number `next` above the group frame, or drop the group frame when
no pass remains. -/
def turnCommand (commands : List Command) (next remaining : Nat) (below : Unfolding) : Turn :=
  if remaining = 0 then .running below
  else
    match commands[next]? with
    | none => .running below
    | some command =>
        match push command (.group commands (next + 1) remaining :: below) with
        | .error fault => .failed fault
        | .ok frames => .running frames

/-- One turn of a group frame above `below`.  At the end of a pass the next one starts. -/
def turnGroup (commands : List Command) (next remaining : Nat) (below : Unfolding) : Turn :=
  if next = commands.length then turnCommand commands 0 (remaining - 1) below
  else turnCommand commands next remaining below

/-- One turn of the machine, at the innermost frame. -/
def turn : Unfolding → Turn
  | [] => .finished
  | .single stitch :: below => .yielded stitch below
  | .pattern walk :: below =>
      match walk.next? with
      | none => .running below
      | some (stitch, after) => .yielded stitch (.pattern after :: below)
  | .group commands next remaining :: below => turnGroup commands next remaining below

mutual

/-- A bound on the turns that the frame of a command takes. -/
def commandWork : Command → Nat
  | .stitch _ => 1
  | .pattern p =>
      match p.layout with
      | .error _ => 0
      | .ok motifs => 1 + Motif.countAll motifs
  | .group commands times => 1 + times.toNat * commandsWork commands

/-- A bound on the turns of one pass through the commands. -/
def commandsWork : List Command → Nat
  | [] => 0
  | command :: rest => 1 + commandWork command + commandsWork rest

end

/-- A bound on the turns that a frame still takes: the rest of its current pass, and the
passes after it. -/
def frameWork : Frame → Nat
  | .single _ => 1
  | .group commands next remaining =>
      1 + commandsWork (commands.drop next) + (remaining - 1) * commandsWork commands
  | .pattern walk => 1 + walk.left

/-- A bound on the turns that an unfolding still takes. -/
def work : Unfolding → Nat
  | [] => 0
  | frame :: below => frameWork frame + work below

theorem work_cons (frame : Frame) (below : Unfolding) :
    work (frame :: below) = frameWork frame + work below := rfl

theorem commandsWork_drop {commands : List Command} {next : Nat} {command : Command}
    (h : commands[next]? = some command) :
    commandsWork (commands.drop next) =
      1 + commandWork command + commandsWork (commands.drop (next + 1)) := by
  obtain ⟨hlt, rfl⟩ := List.getElem?_eq_some_iff.1 h
  rw [List.drop_eq_getElem_cons hlt, commandsWork]

/-- The frame of a command brings no more work than the bound for the command. -/
theorem push_work {command : Command} {frames pushed : Unfolding}
    (h : push command frames = .ok pushed) : work pushed ≤ commandWork command + work frames := by
  unfold push at h
  split at h
  · cases h
    simp [work_cons, frameWork, commandWork]
  · split at h
    · contradiction
    · rename_i motifs hlayout
      cases h
      simp [work_cons, frameWork, commandWork, hlayout, Walk.left_start]
  · split at h
    · cases h
      omega
    · rename_i commands times hpushed
      cases h
      have htimes : times ≠ 0 := by
        intro hzero
        simp [hzero] at hpushed
      have hpos : 0 < times.toNat := by
        rcases Nat.eq_zero_or_pos times.toNat with hzero | hpos
        · exact absurd (UInt32.toNat_inj.1 hzero) htimes
        · exact hpos
      have hpasses : times.toNat * commandsWork commands =
          commandsWork commands + (times.toNat - 1) * commandsWork commands := by
        conv => lhs; rw [show times.toNat = 1 + (times.toNat - 1) by omega]
        rw [Nat.add_mul, Nat.one_mul]
      simp only [work_cons, frameWork, commandWork, List.drop_zero]
      omega

/-- The turn of a group frame at one of its commands leaves less work than the rest of the
pass and the passes after it. -/
theorem turnCommand_work {commands : List Command} {next remaining : Nat}
    {below frames : Unfolding}
    (h : turnCommand commands next remaining below = .running frames) :
    work frames < frameWork (.group commands next remaining) + work below := by
  unfold turnCommand at h
  split at h
  · cases h
    simp only [frameWork]
    omega
  · split at h
    · cases h
      simp only [frameWork]
      omega
    · rename_i command hcommand
      split at h
      · contradiction
      · rename_i pushed hpush
        cases h
        have hpushed := push_work hpush
        have hdrop := commandsWork_drop hcommand
        rw [work_cons] at hpushed
        simp only [frameWork] at hpushed ⊢
        omega

/-- A turn of a group frame that goes on leaves less work. -/
theorem turnGroup_work {commands : List Command} {next remaining : Nat}
    {below frames : Unfolding} (h : turnGroup commands next remaining below = .running frames) :
    work frames < frameWork (.group commands next remaining) + work below := by
  unfold turnGroup at h
  split at h
  · rename_i hend
    by_cases hlast : remaining - 1 = 0
    · simp only [turnCommand, hlast, if_pos] at h
      cases h
      simp only [frameWork]
      omega
    · have hpasses : (remaining - 1) * commandsWork commands =
          commandsWork commands + (remaining - 1 - 1) * commandsWork commands := by
        conv => lhs; rw [show remaining - 1 = 1 + (remaining - 1 - 1) by omega]
        rw [Nat.add_mul, Nat.one_mul]
      have hwork := turnCommand_work h
      simp only [frameWork, List.drop_zero] at hwork ⊢
      omega
  · exact turnCommand_work h

/-- A turn that goes on without a stitch leaves less work. -/
theorem turn_running_work {frames after : Unfolding} (h : turn frames = .running after) :
    work after < work frames := by
  unfold turn at h
  split at h
  · contradiction
  · contradiction
  · split at h
    · cases h
      simp only [work_cons, frameWork]
      omega
    · contradiction
  · rw [work_cons]
    exact turnGroup_work h

theorem turnCommand_ne_yielded (commands : List Command) (next remaining : Nat)
    (below : Unfolding) (stitch : Stitch) (frames : Unfolding) :
    turnCommand commands next remaining below ≠ .yielded stitch frames := by
  intro h
  unfold turnCommand at h
  split at h
  · contradiction
  · split at h
    · contradiction
    · split at h <;> contradiction

/-- A turn of a group frame gives no stitch. -/
theorem turnGroup_ne_yielded (commands : List Command) (next remaining : Nat)
    (below : Unfolding) (stitch : Stitch) (frames : Unfolding) :
    turnGroup commands next remaining below ≠ .yielded stitch frames := by
  unfold turnGroup
  split
  · exact turnCommand_ne_yielded _ _ _ _ _ _
  · exact turnCommand_ne_yielded _ _ _ _ _ _

/-- A turn that gives a stitch leaves less work. -/
theorem turn_yielded_work {frames after : Unfolding} {stitch : Stitch}
    (h : turn frames = .yielded stitch after) : work after < work frames := by
  unfold turn at h
  split at h
  · contradiction
  · cases h
    simp [work_cons, frameWork]
  · split at h
    · contradiction
    · rename_i hnext
      cases h
      have hleft := Walk.next?_left hnext
      simp only [work_cons, frameWork]
      omega
  · exact absurd h (turnGroup_ne_yielded _ _ _ _ _ _)

/-- Pull once: the next stitch or the fault, and the unfolding after it. -/
def next? (frames : Unfolding) : Option (Except Fault Stitch) × Unfolding :=
  match hturn : turn frames with
  | .finished => (none, [])
  | .yielded stitch after => (some (.ok stitch), after)
  | .failed fault => (some (.error fault), [])
  | .running after =>
      have := turn_running_work hturn
      next? after
termination_by work frames

theorem next?_of_finished {frames : Unfolding} (h : turn frames = .finished) :
    next? frames = (none, []) := by
  rw [next?]
  split <;> simp_all

theorem next?_of_yielded {frames after : Unfolding} {stitch : Stitch}
    (h : turn frames = .yielded stitch after) : next? frames = (some (.ok stitch), after) := by
  rw [next?]
  split <;> simp_all

theorem next?_of_failed {frames : Unfolding} {fault : Fault} (h : turn frames = .failed fault) :
    next? frames = (some (.error fault), []) := by
  rw [next?]
  split <;> simp_all

/-- A turn that gives nothing yet does not show. -/
theorem next?_of_running {frames after : Unfolding} (h : turn frames = .running after) :
    next? frames = next? after := by
  rw [next?]
  split <;> simp_all

/-- Work all stitches in order into `init`, up to the end or the first fault. -/
def foldl {α : Type} (f : α → Stitch → α) (init : α) (frames : Unfolding) :
    α × Option Fault :=
  match hturn : turn frames with
  | .finished => (init, none)
  | .yielded stitch after =>
      have := turn_yielded_work hturn
      foldl f (f init stitch) after
  | .failed fault => (init, some fault)
  | .running after =>
      have := turn_running_work hturn
      foldl f init after
termination_by work frames

/-- All stitches up to the end or the first fault. -/
def toList (frames : Unfolding) : List Stitch × Option Fault :=
  let gathered := foldl (fun stitches stitch => stitch :: stitches) [] frames
  (gathered.1.reverse, gathered.2)

/-- What a number of pulls comes to. -/
structure Pulled where
  stitches : List Stitch
  fault : Option Fault
  /-- Whether a pull found the end. -/
  ended : Bool
  rest : Unfolding
deriving Repr

/-- Pull up to `count` stitches, the latest first in `taken`.  A fault or the end stops the
pulling. -/
def takeOnto (taken : List Stitch) : Nat → Unfolding → Pulled
  | 0, frames => ⟨taken.reverse, none, false, frames⟩
  | count + 1, frames =>
      match next? frames with
      | (none, after) => ⟨taken.reverse, none, true, after⟩
      | (some (.error fault), after) => ⟨taken.reverse, some fault, false, after⟩
      | (some (.ok stitch), after) => takeOnto (stitch :: taken) count after

/-- Pull up to `count` stitches. -/
def take (count : Nat) (frames : Unfolding) : Pulled :=
  takeOnto [] count frames

end Unfolding

/-- The stitches of the commands in order, or the first fault. -/
def unfoldAll (commands : List Command) : Except Fault (List Stitch) :=
  match (Unfolding.ofCommands commands).toList with
  | (_, some fault) => .error fault
  | (stitches, none) => .ok stitches

end CrochetShorthand
