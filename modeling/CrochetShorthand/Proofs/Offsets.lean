import CrochetShorthand.Working

/-!
# Working at an offset

Stitches that are worked at an offset give their steps and leave an offset.  `Works` says both, and
two runs of stitches follow each other when the second starts at the offset that the first one
leaves (`Works.append`).

Only the addresses of the steps depend on the offset.  Where the stitches are worked further back,
each address is further back by as much (`Works.shift`).  So stitches that are worked several times
give the same steps in every pass, with the addresses moved on by the drift of a pass
(`Works.copies`).  The drift of stitches is the number of those that move the offset back, less the
number of those that move it forward.
-/

namespace CrochetShorthand

/-! ## Shifted steps -/

/-- The step into the stitches that were made `distance` earlier. -/
def Step.shift (distance : Int) : Step → Step
  | .chain => .chain
  | .sc ago => .sc (ago + distance)
  | .scTwo first second => .scTwo (first + distance) (second + distance)

/-- The steps of a number of passes, each worked `drift` further back than the one before. -/
def passSteps (count : Nat) (drift : Int) (steps : List Step) : List Step :=
  (List.range count).flatMap fun (pass : Nat) => steps.map (Step.shift (pass * drift))

theorem passSteps_succ (count : Nat) (drift : Int) (steps : List Step) :
    passSteps (count + 1) drift steps =
      passSteps count drift steps ++ steps.map (Step.shift (count * drift)) := by
  simp [passSteps, List.range_succ]

@[simp]
theorem passSteps_silent (count : Nat) (drift : Int) : passSteps count drift [] = [] := by
  simp [passSteps]

theorem passSteps_sc (count : Nat) (drift ago : Int) :
    passSteps count drift [.sc ago] =
      (List.range count).map fun (pass : Nat) => .sc (ago + pass * drift) := by
  simp [passSteps, Step.shift, List.map_eq_flatMap]

/-- Passes without a drift repeat the step. -/
@[simp]
theorem passSteps_still (count : Nat) (step : Step) :
    passSteps count 0 [step] = List.replicate count step := by
  induction count with
  | zero => rfl
  | succ count ih =>
      rw [passSteps_succ, ih, List.replicate_succ']
      cases step <;> simp [Step.shift]

/-! ## The drift of stitches -/

/-- How far stitches move the offset together. -/
def totalDrift (stitches : List Stitch) : Int :=
  (stitches.count .back + stitches.count .increase + stitches.count .increaseDecrease : Nat) -
    (stitches.count .skip + stitches.count .decrease : Nat)

theorem totalDrift_cons (stitch : Stitch) (stitches : List Stitch) :
    totalDrift (stitch :: stitches) = stitch.drift + totalDrift stitches := by
  cases stitch <;> simp [totalDrift, Stitch.drift] <;> omega

theorem totalDrift_append (first second : List Stitch) :
    totalDrift (first ++ second) = totalDrift first + totalDrift second := by
  simp [totalDrift, List.count_append]
  omega

/-! ## Runs of stitches -/

/-- The stitches, worked at an offset, give the steps and reach an offset. -/
structure Works (offset : Int) (stitches : List Stitch) (steps : List Step) (reached : Int) :
    Prop where
  steps_eq : (workFrom offset stitches).steps = steps
  offset_eq : (workFrom offset stitches).offset = reached

/-- What was worked before changes nothing but the offset at which the stitches start. -/
theorem foldl_work (working : Working) (stitches : List Stitch) :
    (stitches.foldl Working.work working).offset = (workFrom working.offset stitches).offset ∧
      (stitches.foldl Working.work working).steps =
        working.steps ++ (workFrom working.offset stitches).steps := by
  induction stitches generalizing working with
  | nil => simp [workFrom, Working.steps]
  | cons stitch stitches ih =>
      obtain ⟨hoffset, hsteps⟩ := ih (working.work stitch)
      obtain ⟨hoffset', hsteps'⟩ := ih (Working.work ⟨working.offset, []⟩ stitch)
      have hfirst : (Working.work ⟨working.offset, []⟩ stitch).steps =
          stitch.steps working.offset := Working.steps_work _ _
      rw [workFrom, List.foldl_cons, List.foldl_cons]
      constructor
      · exact hoffset.trans hoffset'.symm
      · rw [hsteps, hsteps', hfirst, Working.steps_work, List.append_assoc]
        rfl

variable {offset between reached distance : Int} {stitches first second : List Stitch}
  {steps early late : List Step}

theorem works_nil (offset : Int) : Works offset [] [] offset :=
  ⟨rfl, rfl⟩

theorem works_stitch (offset : Int) (stitch : Stitch) :
    Works offset [stitch] (stitch.steps offset) (offset + stitch.drift) :=
  ⟨Working.steps_work ⟨offset, []⟩ stitch, rfl⟩

theorem Works.append (hfirst : Works offset first early between)
    (hsecond : Works between second late reached) :
    Works offset (first ++ second) (early ++ late) reached := by
  obtain ⟨rfl, rfl⟩ := hfirst
  obtain ⟨rfl, rfl⟩ := hsecond
  obtain ⟨hoffset, hsteps⟩ := foldl_work (workFrom offset first) second
  constructor
  · rw [workFrom, List.foldl_append]
    exact hsteps
  · rw [workFrom, List.foldl_append]
    exact hoffset

theorem Works.cons {stitch : Stitch} (h : Works (offset + stitch.drift) stitches steps reached) :
    Works offset (stitch :: stitches) (stitch.steps offset ++ steps) reached :=
  (works_stitch offset stitch).append h

/-- All stitches can be worked at all offsets, and the offset moves by their drift. -/
theorem works_workFrom (offset : Int) (stitches : List Stitch) :
    Works offset stitches (workFrom offset stitches).steps (offset + totalDrift stitches) := by
  refine ⟨rfl, ?_⟩
  induction stitches generalizing offset with
  | nil => simp [workFrom, totalDrift]
  | cons stitch stitches ih =>
      have hrest : Works (offset + stitch.drift) stitches _ _ := ⟨rfl, ih (offset + stitch.drift)⟩
      rw [hrest.cons.offset_eq, totalDrift_cons]
      omega

theorem Works.reached_eq (h : Works offset stitches steps reached) :
    reached = offset + totalDrift stitches :=
  h.offset_eq.symm.trans (works_workFrom offset stitches).offset_eq

theorem Stitch.steps_shift (stitch : Stitch) (offset distance : Int) :
    stitch.steps (offset + distance) = (stitch.steps offset).map (Step.shift distance) := by
  cases stitch <;> simp [Stitch.steps, Step.shift] <;> omega

/-- Further back the same stitches give the same steps, with all addresses further back. -/
theorem Works.shift (h : Works offset stitches steps reached) (distance : Int) :
    Works (offset + distance) stitches (steps.map (Step.shift distance)) (reached + distance) := by
  obtain ⟨rfl, rfl⟩ := h
  induction stitches generalizing offset with
  | nil => exact works_nil (offset + distance)
  | cons stitch stitches ih =>
      have hrest : Works (offset + stitch.drift) stitches _ _ := ⟨rfl, rfl⟩
      have hshifted := @ih (offset + stitch.drift)
      rw [hrest.cons.steps_eq, hrest.cons.offset_eq, List.map_append, ← Stitch.steps_shift]
      apply Works.cons
      rwa [Int.add_right_comm] at hshifted

/-- Stitches that are worked several times: each pass starts where the one before has come to. -/
theorem Works.copies {drift : Int} (h : Works offset stitches steps (offset + drift))
    (count : Nat) :
    Works offset (List.replicate count stitches).flatten (passSteps count drift steps)
      (offset + count * drift) := by
  induction count with
  | zero => simpa [passSteps] using works_nil offset
  | succ count ih =>
      have hlast := h.shift (count * drift)
      have hreached : offset + drift + count * drift = offset + (count + 1 : Nat) * drift := by
        rw [Int.natCast_add, Int.add_mul]
        omega
      rw [List.replicate_succ', List.flatten_concat, passSteps_succ]
      rw [hreached] at hlast
      exact ih.append hlast

/-! ## Runs of one stitch -/

/-- A stitch several times. -/
theorem works_replicate (offset : Int) (stitch : Stitch) (count : Nat) :
    Works offset (List.replicate count stitch)
      (passSteps count stitch.drift (stitch.steps offset)) (offset + count * stitch.drift) := by
  have hcopies := (works_stitch offset stitch).copies count
  rwa [List.flatten_replicate_singleton] at hcopies

theorem works_chains (offset : Int) (count : Nat) :
    Works offset (List.replicate count .chain) (List.replicate count .chain) offset := by
  have hrun := works_replicate offset .chain count
  simpa [Stitch.drift, Stitch.steps] using hrun

theorem works_singleCrochets (offset : Int) (count : Nat) :
    Works offset (List.replicate count .singleCrochet) (List.replicate count (.sc offset))
      offset := by
  have hrun := works_replicate offset .singleCrochet count
  simpa [Stitch.drift, Stitch.steps] using hrun

theorem works_backs (offset : Int) (count : Nat) :
    Works offset (List.replicate count .back) [] (offset + count) := by
  have hrun := works_replicate offset .back count
  simpa [Stitch.drift, Stitch.steps] using hrun

theorem works_skips (offset : Int) (count : Nat) :
    Works offset (List.replicate count .skip) [] (offset - count) := by
  have hrun := works_replicate offset .skip count
  simpa [Stitch.drift, Stitch.steps, Int.sub_eq_add_neg] using hrun

end CrochetShorthand
