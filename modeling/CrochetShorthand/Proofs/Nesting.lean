import CrochetShorthand.Command

/-!
# What is inside a command

`Command.within` lists a command and all commands inside it, at every level.  Properties of
all counts, of all groups or of all patterns in a command are stated over this list.

`Command.induction` is the induction that fits: a property of a group follows from the
property of each of its commands.
-/

namespace CrochetShorthand

/-- The arguments of a pattern, in order. -/
def Pattern.arguments : Pattern → List UInt32
  | .magicCircle stitches => [stitches]
  | .magicEllipse extension => [extension]
  | .bend round depth => [round, depth]

namespace Command

/-- Induction over a command and the commands inside it. -/
@[elab_as_elim, induction_eliminator]
theorem induction {motive : Command → Prop} (stitch : ∀ s, motive (.stitch s))
    (pattern : ∀ p, motive (.pattern p))
    (group : ∀ commands times, (∀ c ∈ commands, motive c) → motive (.group commands times)) :
    ∀ command, motive command
  | .stitch s => stitch s
  | .pattern p => pattern p
  | .group commands times =>
      group commands times fun c _ => induction stitch pattern group c

mutual

/-- The command itself, and every command inside it. -/
def within : Command → List Command
  | .stitch s => [.stitch s]
  | .pattern p => [.pattern p]
  | .group commands times => .group commands times :: withinAll commands

/-- The commands, and every command inside one of them. -/
def withinAll : List Command → List Command
  | [] => []
  | command :: rest => command.within ++ withinAll rest

end

theorem mem_withinAll {command : Command} {commands : List Command} :
    command ∈ withinAll commands ↔ ∃ c ∈ commands, command ∈ c.within := by
  induction commands with
  | nil => simp [withinAll]
  | cons first rest ih => simp [withinAll, ih]

/-- The counts that stand in a command outside the commands inside it. -/
def counts : Command → List UInt32
  | .stitch _ => []
  | .pattern p => p.arguments
  | .group _ times => [times]

/-- Every argument of a pattern and every count of a group is at least one. -/
def HasPositiveCounts (command : Command) : Prop :=
  ∀ c ∈ command.within, ∀ n ∈ c.counts, 1 ≤ n

/-- No group is without commands. -/
def HasFilledGroups (command : Command) : Prop :=
  ∀ times, group [] times ∉ command.within

theorem hasPositiveCounts_group (commands : List Command) (times : UInt32) :
    (group commands times).HasPositiveCounts ↔
      1 ≤ times ∧ ∀ c ∈ commands, c.HasPositiveCounts := by
  simp only [HasPositiveCounts, within, List.forall_mem_cons, counts, List.not_mem_nil,
    false_imp_iff, implies_true, and_true, mem_withinAll]
  constructor
  · intro h
    obtain ⟨htimes, hall⟩ := h
    exact ⟨htimes, fun c hc d hd => hall d ⟨c, hc, hd⟩⟩
  · intro h
    obtain ⟨htimes, hall⟩ := h
    refine ⟨htimes, ?_⟩
    rintro d ⟨c, hc, hd⟩
    exact hall c hc d hd

theorem hasFilledGroups_group (commands : List Command) (times : UInt32) :
    (group commands times).HasFilledGroups ↔
      commands ≠ [] ∧ ∀ c ∈ commands, c.HasFilledGroups := by
  simp only [HasFilledGroups, within, List.mem_cons, not_or, mem_withinAll]
  constructor
  · intro h
    refine ⟨?_, fun c hc n hn => (h n).2 ⟨c, hc, hn⟩⟩
    rintro rfl
    exact (h times).1 rfl
  · rintro ⟨hnonempty, hall⟩ n
    refine ⟨?_, ?_⟩
    · intro heq
      exact hnonempty (Command.group.inj heq).1.symm
    · intro h
      obtain ⟨c, hc, hn⟩ := h
      exact hall c hc n hn

theorem depthAll_le_iff {commands : List Command} {limit : Nat} :
    depthAll commands ≤ limit ↔ ∀ c ∈ commands, c.depth ≤ limit := by
  induction commands with
  | nil => simp [depthAll]
  | cons first rest ih => rw [depthAll, Nat.max_le, ih, List.forall_mem_cons]

end Command

end CrochetShorthand
