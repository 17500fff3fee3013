import CrochetShorthand.Proofs.Walk
import CrochetShorthand.Unfolding
import CrochetShorthand.Unfolding.Meaning

/-!
# What a stack of frames comes to

The machine of `Unfolding` keeps a stack of frames; `Meaning` is a recursion over commands.
`Unfolding.meaning` reads a stack back as a meaning: each frame means what is left of it, and
the frames below come after it.

On frames in range one turn of the machine keeps the meaning, up to the stitch that it gives
(`turn_accounts`).  So each pull takes the first item of the meaning (`next?_items`), and any
number of pulls gives the meaning item by item: the stitches in order, then the fault if there
is one, then nothing any more.
-/

namespace CrochetShorthand

namespace Meaning

/-- A stitch before the others. -/
def cons (stitch : Stitch) (meaning : Meaning) : Meaning :=
  ⟨stitch :: meaning.stitches, meaning.fault⟩

/-- What is given for a meaning, one item after another: every stitch, and then the fault. -/
def items (meaning : Meaning) : List (Except Fault Stitch) :=
  meaning.stitches.map .ok ++ (meaning.fault.map .error).toList

theorem fault_andThen (fault : Fault) (second : Meaning) :
    (Meaning.mk [] (some fault)).andThen second = ⟨[], some fault⟩ := rfl

theorem times_nothing (count : Nat) : times count nothing = nothing := by
  induction count with
  | zero => rfl
  | succ count ih => rw [times, ih, nothing_andThen]

theorem ofCommands_singleton (command : Command) : ofCommands [command] = ofCommand command := by
  rw [ofCommands, ofCommands, andThen_nothing]

end Meaning

namespace Frame

/-- The meaning of what is left of a frame. -/
def meaning : Frame → Meaning
  | .single stitch => ⟨[stitch], none⟩
  | .pattern walk => ⟨walk.ahead, none⟩
  | .group commands next remaining =>
      (Meaning.ofCommands (commands.drop next)).andThen
        (Meaning.times (remaining - 1) (Meaning.ofCommands commands))

/-- A group frame has commands, stands at one of them or at the end of a pass, and has a pass
left; the walk of a pattern frame is in range. -/
def InRange : Frame → Prop
  | .single _ => True
  | .pattern walk => walk.InRange
  | .group commands next remaining => commands ≠ [] ∧ next ≤ commands.length ∧ 1 ≤ remaining

end Frame

namespace Unfolding

open Meaning (nothing)

/-- The meaning of what is left of an unfolding: of each frame, the innermost first. -/
def meaning : Unfolding → Meaning
  | [] => nothing
  | frame :: below => frame.meaning.andThen (meaning below)

/-- All frames are in range. -/
def InRange (frames : Unfolding) : Prop :=
  ∀ frame ∈ frames, frame.InRange

theorem inRange_cons (frame : Frame) (below : Unfolding) :
    InRange (frame :: below) ↔ frame.InRange ∧ InRange below :=
  List.forall_mem_cons

/-! ## One turn -/

/-- What a turn must come to when the frames before it have the given meaning. -/
def Turn.Accounts (before : Meaning) : Turn → Prop
  | .finished => before = nothing
  | .yielded stitch frames => before = (meaning frames).cons stitch ∧ InRange frames
  | .failed fault => before = ⟨[], some fault⟩
  | .running frames => before = meaning frames ∧ InRange frames

/-- The frame of a command stands for the command. -/
theorem meaning_of_push_ok {command : Command} {frames pushed : Unfolding}
    (hframes : InRange frames) (h : push command frames = .ok pushed) :
    meaning pushed = (Meaning.ofCommand command).andThen (meaning frames) ∧ InRange pushed := by
  unfold push at h
  split at h
  · rename_i stitch
    obtain rfl := Except.ok.inj h
    exact ⟨rfl, (inRange_cons _ _).2 ⟨trivial, hframes⟩⟩
  · rename_i pattern
    split at h
    · contradiction
    · rename_i motifs hlayout
      obtain rfl := Except.ok.inj h
      refine ⟨?_, (inRange_cons _ _).2 ⟨Walk.inRange_at_motif motifs 0, hframes⟩⟩
      rw [Meaning.ofCommand, Meaning.ofPattern, hlayout, meaning, Frame.meaning,
        Walk.ahead_start]
  · rename_i commands times
    split at h
    · -- No frame: the group has no commands or no pass.
      rename_i hnone
      obtain rfl := Except.ok.inj h
      refine ⟨?_, hframes⟩
      have hnothing : Meaning.ofCommand (.group commands times) = nothing := by
        simp only [Bool.or_eq_true, List.isEmpty_iff, beq_iff_eq] at hnone
        rw [Meaning.ofCommand]
        rcases hnone with rfl | rfl
        · exact Meaning.times_nothing _
        · rfl
      rw [hnothing, Meaning.nothing_andThen]
    · rename_i hsome
      obtain rfl := Except.ok.inj h
      simp only [Bool.or_eq_true, List.isEmpty_iff, beq_iff_eq, not_or] at hsome
      have hpos : 1 ≤ times.toNat := by
        have hne : times.toNat ≠ 0 := fun hzero => hsome.2 (UInt32.toNat_inj.1 hzero)
        omega
      refine ⟨?_, (inRange_cons _ _).2 ⟨⟨hsome.1, Nat.zero_le _, hpos⟩, hframes⟩⟩
      rw [meaning, Frame.meaning, Meaning.ofCommand, List.drop_zero]
      rw [← Nat.sub_add_cancel hpos, Meaning.times, Nat.add_sub_cancel]

theorem ofCommand_of_push_error {command : Command} {frames : Unfolding} {fault : Fault}
    (h : push command frames = .error fault) :
    Meaning.ofCommand command = ⟨[], some fault⟩ := by
  unfold push at h
  split at h
  · contradiction
  · split at h
    · rename_i hlayout
      obtain rfl := Except.error.inj h
      rw [Meaning.ofCommand, Meaning.ofPattern, hlayout]
    · contradiction
  · split at h <;> contradiction

/-- A group frame that stands at one of its commands accounts for its meaning. -/
theorem turnCommand_accounts {commands : List Command} {next remaining : Nat}
    {below : Unfolding} (hlt : next < commands.length) (hremaining : 1 ≤ remaining)
    (hbelow : InRange below) :
    (turnCommand commands next remaining below).Accounts
      ((Frame.group commands next remaining).meaning.andThen (meaning below)) := by
  have hget : commands[next]? = some commands[next] := List.getElem?_eq_getElem hlt
  have hnonempty : commands ≠ [] := List.ne_nil_of_length_pos (by omega)
  have hrest : InRange (.group commands (next + 1) remaining :: below) :=
    (inRange_cons _ _).2 ⟨⟨hnonempty, hlt, hremaining⟩, hbelow⟩
  have hmeaning : (Frame.group commands next remaining).meaning.andThen (meaning below) =
      (Meaning.ofCommand commands[next]).andThen
        (meaning (.group commands (next + 1) remaining :: below)) := by
    rw [meaning, Frame.meaning, Frame.meaning, List.drop_eq_getElem_cons hlt,
      Meaning.ofCommands, Meaning.andThen_assoc, Meaning.andThen_assoc, Meaning.andThen_assoc]
  rw [turnCommand, if_neg (by omega), hget, hmeaning]
  dsimp only
  -- The frame of the command comes on top of the group, which has gone on to its next command.
  cases hpush : push commands[next] (.group commands (next + 1) remaining :: below) with
  | error fault =>
      show (Meaning.ofCommand commands[next]).andThen _ = _
      rw [ofCommand_of_push_error hpush, Meaning.fault_andThen]
  | ok pushed =>
      obtain ⟨heq, hpushed⟩ := meaning_of_push_ok hrest hpush
      exact ⟨heq.symm, hpushed⟩

theorem turnGroup_accounts {commands : List Command} {next remaining : Nat} {below : Unfolding}
    (hframe : (Frame.group commands next remaining).InRange) (hbelow : InRange below) :
    (turnGroup commands next remaining below).Accounts
      ((Frame.group commands next remaining).meaning.andThen (meaning below)) := by
  obtain ⟨hnonempty, hle, hremaining⟩ := hframe
  unfold turnGroup
  split
  · rename_i hend
    -- The pass is over: what is left of the frame are the passes after it.
    have hpassed : (Frame.group commands next remaining).meaning =
        Meaning.times (remaining - 1) (Meaning.ofCommands commands) := by
      rw [Frame.meaning, hend, List.drop_length, Meaning.ofCommands, Meaning.nothing_andThen]
    by_cases hlast : remaining - 1 = 0
    · rw [turnCommand, if_pos hlast, hpassed, hlast, Meaning.times, Meaning.nothing_andThen]
      exact ⟨rfl, hbelow⟩
    · have hnext : (Frame.group commands 0 (remaining - 1)).meaning =
          Meaning.times (remaining - 1) (Meaning.ofCommands commands) := by
        obtain ⟨passes, hpasses⟩ : ∃ passes, remaining - 1 = passes + 1 :=
          ⟨remaining - 2, by omega⟩
        rw [Frame.meaning, List.drop_zero, hpasses, Meaning.times, Nat.add_sub_cancel]
      rw [hpassed, ← hnext]
      exact turnCommand_accounts (List.length_pos_iff.2 hnonempty) (by omega) hbelow
  · rename_i hmiddle
    exact turnCommand_accounts (by omega) hremaining hbelow

/-- One turn keeps the meaning of the frames, up to the stitch that it gives. -/
theorem turn_accounts {frames : Unfolding} (h : InRange frames) :
    (turn frames).Accounts (meaning frames) := by
  cases frames with
  | nil => rfl
  | cons frame below =>
      obtain ⟨hframe, hbelow⟩ := (inRange_cons _ _).1 h
      cases frame with
      | single stitch => exact ⟨rfl, hbelow⟩
      | pattern walk =>
          rw [turn, meaning, Frame.meaning]
          cases hnext : walk.next? with
          | none =>
              rw [Walk.ahead_of_next?_none hframe hnext]
              exact ⟨rfl, hbelow⟩
          | some pulled =>
              obtain ⟨stitch, after⟩ := pulled
              obtain ⟨hahead, hafter⟩ := Walk.ahead_of_next?_some hframe hnext
              rw [hahead]
              exact ⟨rfl, (inRange_cons _ _).2 ⟨hafter, hbelow⟩⟩
      | group commands next remaining => exact turnGroup_accounts hframe hbelow

theorem accounts_of_turn_eq {frames : Unfolding} {outcome : Turn} (h : InRange frames)
    (hturn : turn frames = outcome) : outcome.Accounts (meaning frames) := by
  rw [← hturn]
  exact turn_accounts h

/-! ## One pull -/

/-- A pull gives what stands first in the meaning, and leaves the rest of it. -/
theorem next?_accounts {frames : Unfolding} (h : InRange frames) :
    match next? frames with
    | (none, after) => meaning frames = nothing ∧ after = []
    | (some (.ok stitch), after) =>
        meaning frames = (meaning after).cons stitch ∧ InRange after
    | (some (.error fault), after) => meaning frames = ⟨[], some fault⟩ ∧ after = [] := by
  fun_induction next? frames with
  | case1 frames hturn => exact ⟨accounts_of_turn_eq h hturn, rfl⟩
  | case2 frames stitch after hturn => exact accounts_of_turn_eq h hturn
  | case3 frames fault hturn => exact ⟨accounts_of_turn_eq h hturn, rfl⟩
  | case4 frames after hturn _ ih =>
      obtain ⟨hmeaning, hafter⟩ := accounts_of_turn_eq h hturn
      rw [hmeaning]
      exact ih hafter

/-- A pull takes the first item of the meaning. -/
theorem next?_items {frames : Unfolding} (h : InRange frames) :
    (next? frames).1 = (meaning frames).items.head? ∧
      (meaning (next? frames).2).items = (meaning frames).items.tail ∧
      InRange (next? frames).2 := by
  have haccounts := next?_accounts h
  -- Behind the last stitch, and behind a fault, no frames are left, and these have no items.
  have hnone : InRange [] := fun _ hmem => absurd hmem List.not_mem_nil
  split at haccounts
  · rename_i after hnext
    obtain ⟨hmeaning, rfl⟩ := haccounts
    rw [hnext, hmeaning]
    exact ⟨rfl, rfl, hnone⟩
  · rename_i stitch after hnext
    obtain ⟨hmeaning, hafter⟩ := haccounts
    rw [hnext, hmeaning]
    exact ⟨rfl, rfl, hafter⟩
  · rename_i fault after hnext
    obtain ⟨hmeaning, rfl⟩ := haccounts
    rw [hnext, hmeaning]
    exact ⟨rfl, rfl, hnone⟩

/-- The unfolding after a number of pulls. -/
def afterPulls : Nat → Unfolding → Unfolding
  | 0, frames => frames
  | count + 1, frames => afterPulls count (next? frames).2

/-- Pulls give the meaning of the frames item by item, and nothing after the last. -/
theorem next?_afterPulls {frames : Unfolding} (h : InRange frames) (count : Nat) :
    (next? (afterPulls count frames)).1 = (meaning frames).items[count]? := by
  induction count generalizing frames with
  | zero => rw [afterPulls, (next?_items h).1, List.head?_eq_getElem?]
  | succ count ih =>
      obtain ⟨-, hitems, hafter⟩ := next?_items h
      rw [afterPulls, ih hafter, hitems, List.getElem?_tail]

/-! ## From the first pull on -/

theorem inRange_ofCommands (commands : List Command) : InRange (ofCommands commands) := by
  unfold ofCommands
  split
  · intro frame hmem
    contradiction
  · rename_i hnonempty
    intro frame hmem
    obtain rfl := List.mem_singleton.1 hmem
    exact ⟨by simpa using hnonempty, Nat.zero_le _, Nat.le_refl 1⟩

theorem meaning_ofCommands (commands : List Command) :
    meaning (ofCommands commands) = Meaning.ofCommands commands := by
  unfold ofCommands
  split
  · rename_i hempty
    obtain rfl := List.isEmpty_iff.1 hempty
    rfl
  · rw [meaning, meaning, Frame.meaning, List.drop_zero, Meaning.andThen_nothing]
    exact Meaning.andThen_nothing _

/-- A fold over an unfolding takes the stitches of its meaning in order, and ends with the fault
of its meaning. -/
theorem foldl_eq_meaning {α : Type} (f : α → Stitch → α) (init : α) {frames : Unfolding}
    (h : InRange frames) :
    foldl f init frames = ((meaning frames).stitches.foldl f init, (meaning frames).fault) := by
  fun_induction foldl f init frames with
  | case1 init frames hturn =>
      rw [show meaning frames = nothing from accounts_of_turn_eq h hturn]
      rfl
  | case2 init frames stitch after hturn _ ih =>
      obtain ⟨hmeaning, hafter⟩ := accounts_of_turn_eq h hturn
      rw [hmeaning, ih hafter]
      rfl
  | case3 init frames fault hturn =>
      rw [show meaning frames = ⟨[], some fault⟩ from accounts_of_turn_eq h hturn]
      rfl
  | case4 init frames after hturn _ ih =>
      obtain ⟨hmeaning, hafter⟩ := accounts_of_turn_eq h hturn
      rw [hmeaning, ih hafter]

theorem foldl_ofCommands {α : Type} (f : α → Stitch → α) (init : α) (commands : List Command) :
    foldl f init (ofCommands commands) =
      ((Meaning.ofCommands commands).stitches.foldl f init,
        (Meaning.ofCommands commands).fault) := by
  rw [foldl_eq_meaning f init (inRange_ofCommands commands), meaning_ofCommands]

theorem toList_ofCommands (commands : List Command) :
    (ofCommands commands).toList =
      ((Meaning.ofCommands commands).stitches, (Meaning.ofCommands commands).fault) := by
  rw [toList, foldl_ofCommands]
  simp

/-- Pulling from the unfolding of commands gives the stitches that the commands mean, one a
pull, then their fault once if there is one, and then nothing on every further pull.  One
command unfolds as the list that holds it alone. -/
theorem next?_afterPulls_ofCommands :
    (∀ (commands : List Command) (count : Nat),
      (next? (afterPulls count (ofCommands commands))).1 =
        (Meaning.ofCommands commands).items[count]?) ∧
    ∀ (command : Command) (count : Nat),
      (next? (afterPulls count (ofCommand command))).1 =
          (Meaning.ofCommand command).items[count]? ∧
        (next? (afterPulls count (ofCommand command))).1 =
          (next? (afterPulls count (ofCommands [command]))).1 := by
  constructor
  · intro commands count
    rw [next?_afterPulls (inRange_ofCommands commands), meaning_ofCommands]
  · intro command count
    refine ⟨?_, rfl⟩
    rw [ofCommand, next?_afterPulls (inRange_ofCommands [command]), meaning_ofCommands,
      Meaning.ofCommands_singleton]

end Unfolding

end CrochetShorthand
