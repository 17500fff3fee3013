import CrochetShorthand.Proofs.Frames
import Mathlib.Order.WellFounded

/-!
# How long a pull takes

A pull turns the machine until a turn gives a stitch, a fault or the end.  Nothing in the number of
frames says that this happens: a turn may put a frame on the stack, and groups around a blank body
take many turns without a stitch.

What becomes less in every turn is the work (`Unfolding.work`): the rest of the current pass of
each frame, with the work below every command in it, and the passes after it.  So a pull goes
round no more often than the work that it takes away, and all pulls together no more often than
the work of the commands.  In the same way the walk inside a pattern steps over no more motifs
than lie ahead of it.
-/

namespace CrochetShorthand

/-! ## Loops -/

/-- A loop goes round a number of times, from one state to another. -/
inductive Rounds {σ : Type} (goesOn : σ → σ → Prop) : Nat → σ → σ → Prop
  | none (state : σ) : Rounds goesOn 0 state state
  | round {count : Nat} {state next last : σ} (h : goesOn state next)
      (hlater : Rounds goesOn count next last) : Rounds goesOn (count + 1) state last

/-- A loop ends when every round leaves less to do. -/
theorem exists_last_round {σ : Type} {goesOn : σ → σ → Prop} (left : σ → Nat)
    (hless : ∀ state next, goesOn state next → left next < left state) (state : σ) :
    ∃ count last, Rounds goesOn count state last ∧ count + left last ≤ left state ∧
      ∀ next, ¬ goesOn last next := by
  induction hleft : left state using Nat.strong_induction_on generalizing state with
  | _ todo ih =>
      subst hleft
      by_cases hnext : ∃ next, goesOn state next
      · obtain ⟨next, hgoes⟩ := hnext
        have hlt := hless state next hgoes
        obtain ⟨count, last, hrounds, hcount, hlast⟩ := ih (left next) hlt next rfl
        exact ⟨count + 1, last, .round hgoes hrounds, by omega, hlast⟩
      · exact ⟨0, state, .none state, by omega, fun next hgoes => hnext ⟨next, hgoes⟩⟩

/-- What every round keeps is the same at the end. -/
theorem Rounds.keeps {σ β : Type} {goesOn : σ → σ → Prop} (value : σ → β)
    (hkeeps : ∀ state next, goesOn state next → value state = value next) {count : Nat}
    {state last : σ} (h : Rounds goesOn count state last) : value state = value last := by
  induction h with
  | none => rfl
  | round hgoes _ ih => exact (hkeeps _ _ hgoes).trans ih

/-! ## The loop of a walk -/

namespace Walk

/-- The walk steps over the motif that it stands at, which has no stitch for it. -/
inductive StepsOver : Walk → Walk → Prop
  | motif {walk : Walk} {motif : Motif} (hmotif : walk.motifs[walk.index]? = some motif)
      (hnone : stitchAt? motif walk.pass walk.position = none) :
      StepsOver walk ⟨walk.motifs, walk.index + 1, 0, 0⟩

theorem StepsOver.ahead_lt {walk after : Walk} (h : StepsOver walk after) :
    after.motifs.length - after.index < walk.motifs.length - walk.index := by
  obtain ⟨hmotif, -⟩ := h
  have hindex := (List.getElem?_eq_some_iff.1 hmotif).1
  dsimp only
  omega

theorem StepsOver.next?_eq {walk after : Walk} (h : StepsOver walk after) :
    walk.next? = after.next? := by
  obtain ⟨hmotif, hnone⟩ := h
  rw [next?]
  split
  · simp_all
  · rename_i motif hfound
    obtain rfl := Option.some.inj (hfound.symm.trans hmotif)
    rw [hnone]

/-- What a walk gives at the place where it steps over nothing more. -/
inductive Gives (walk : Walk) : Option (Stitch × Walk) → Prop
  | ended (hend : walk.motifs[walk.index]? = none) : Gives walk none
  | stitch {motif : Motif} {stitch : Stitch} (hmotif : walk.motifs[walk.index]? = some motif)
      (hstitch : stitchAt? motif walk.pass walk.position = some stitch) :
      Gives walk (some (stitch, walk.afterStitch motif))

theorem gives_next? {walk : Walk} (h : ∀ after, ¬ StepsOver walk after) :
    walk.Gives walk.next? := by
  rw [next?]
  split
  · rename_i hend
    exact .ended hend
  · rename_i motif hmotif
    split
    · rename_i stitch hstitch
      exact .stitch hmotif hstitch
    · rename_i hnone
      exact absurd (.motif hmotif hnone) (h _)

/-- A pull of a walk steps over as many motifs as lie ahead at most, and gives what stands behind
them. -/
theorem next?_ends (walk : Walk) :
    ∃ count last, Rounds StepsOver count walk last ∧ count ≤ walk.motifs.length - walk.index ∧
      last.Gives walk.next? := by
  obtain ⟨count, last, hrounds, hcount, hlast⟩ :=
    exists_last_round (fun walk : Walk => walk.motifs.length - walk.index)
      (fun _ _ => StepsOver.ahead_lt) walk
  refine ⟨count, last, hrounds, by omega, ?_⟩
  rw [hrounds.keeps next? fun _ _ => StepsOver.next?_eq]
  exact gives_next? hlast

end Walk

/-! ## The loop of a pull -/

namespace Unfolding

/-- The machine turns once more, because the turn gives neither a stitch nor a fault nor the end. -/
def GoesOn (frames after : Unfolding) : Prop :=
  turn frames = .running after

/-- What a pull gives at the turn that ends it, and the frames after it. -/
inductive Gives (frames : Unfolding) : Option (Except Fault Stitch) × Unfolding → Prop
  | ended (hturn : turn frames = .finished) : Gives frames (none, [])
  | stitch {stitch : Stitch} {after : Unfolding} (hturn : turn frames = .yielded stitch after) :
      Gives frames (some (.ok stitch), after)
  | fault {fault : Fault} (hturn : turn frames = .failed fault) :
      Gives frames (some (.error fault), [])

theorem gives_next? {frames : Unfolding} (h : ∀ after, ¬ GoesOn frames after) :
    Gives frames (next? frames) := by
  cases hturn : turn frames with
  | finished =>
      rw [next?_of_finished hturn]
      exact .ended hturn
  | yielded stitch after =>
      rw [next?_of_yielded hturn]
      exact .stitch hturn
  | failed fault =>
      rw [next?_of_failed hturn]
      exact .fault hturn
  | running after => exact absurd hturn (h after)

/-- The turn that ends a pull leaves no more work. -/
theorem Gives.work_le {frames : Unfolding} {given : Option (Except Fault Stitch) × Unfolding}
    (h : Gives frames given) : work given.2 ≤ work frames := by
  cases h with
  | ended => exact Nat.zero_le _
  | stitch hturn => exact Nat.le_of_lt (turn_yielded_work hturn)
  | fault => exact Nat.zero_le _

/-- A pull goes round no more often than the work that it takes away. -/
theorem next?_ends (frames : Unfolding) :
    ∃ count last, Rounds GoesOn count frames last ∧ last.Gives (next? frames) ∧
      count + work (next? frames).2 ≤ work frames := by
  obtain ⟨count, last, hrounds, hcount, hlast⟩ :=
    exists_last_round work (fun _ _ => turn_running_work) frames
  have hgives := gives_next? hlast
  rw [← hrounds.keeps next? fun _ _ => next?_of_running] at hgives
  have hle := hgives.work_le
  exact ⟨count, last, hrounds, hgives, by omega⟩

theorem work_afterPulls (count : Nat) (frames : Unfolding) :
    work (afterPulls count frames) ≤ work frames := by
  induction count generalizing frames with
  | zero => exact Nat.le_refl _
  | succ count ih =>
      obtain ⟨_, _, -, -, hwork⟩ := next?_ends frames
      have hlater := ih (next? frames).2
      rw [afterPulls]
      omega

theorem work_ofCommands (commands : List Command) :
    work (ofCommands commands) ≤ 1 + commandsWork commands := by
  unfold ofCommands
  split
  · exact Nat.zero_le _
  · simp [frameWork, work]

/-- A turn after which the machine goes on leaves less work: fewer passes of the frames, or less
of what their commands still bring.  So the machine cannot go on for ever.  Between any two pulls,
and whatever the commands and their counts are, the next pull ends, with a stitch, a fault or the
end; it goes round no more often than the work that it takes away, and the work at the beginning
is that of the commands.  Nor does the walk of a pattern step over motifs for ever. -/
theorem pulls_end :
    (∀ frames after, turn frames = .running after → work after < work frames) ∧
    (WellFounded fun after frames : Unfolding => turn frames = .running after) ∧
    (∀ commands count, ∃ turns last,
      Rounds GoesOn turns (afterPulls count (ofCommands commands)) last ∧
        last.Gives (next? (afterPulls count (ofCommands commands))) ∧
        turns + work (next? (afterPulls count (ofCommands commands))).2 ≤
          work (afterPulls count (ofCommands commands)) ∧
        work (afterPulls count (ofCommands commands)) ≤ 1 + commandsWork commands) ∧
    ∀ walk : Walk, ∃ count last,
      Rounds Walk.StepsOver count walk last ∧ count ≤ walk.motifs.length - walk.index ∧
        last.Gives walk.next? := by
  have hless : ∀ frames after, turn frames = .running after → work after < work frames :=
    fun _ _ => turn_running_work
  refine ⟨hless, ?_, ?_, Walk.next?_ends⟩
  · exact Subrelation.wf (hless _ _) (measure work).wf
  · intro commands count
    obtain ⟨turns, last, hrounds, hgives, hwork⟩ :=
      next?_ends (afterPulls count (ofCommands commands))
    exact ⟨turns, last, hrounds, hgives, hwork,
      (work_afterPulls count _).trans (work_ofCommands commands)⟩

/-- A group around a blank group goes through its passes one after the other. -/
theorem pulls_end_of_blank_group :
    turn [.group [.group [] 2] 1 4294967295] = .running [.group [.group [] 2] 1 4294967294] ∧
      work [.group [.group [] 2] 1 4294967294] < work [.group [.group [] 2] 1 4294967295] := by
  have hturn : turn [.group [.group [] 2] 1 4294967295] =
      .running [.group [.group [] 2] 1 4294967294] := rfl
  exact ⟨hturn, pulls_end.1 _ _ hturn⟩

end Unfolding

end CrochetShorthand
