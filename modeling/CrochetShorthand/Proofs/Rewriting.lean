import CrochetShorthand.Proofs.Offsets
import CrochetShorthand.RunLength
import Mathlib.Logic.Relation

/-!
# Stitches that are worked alike

Different sequences of stitches can come to the same work.  Going back and skipping only add up, an
increase is two single crochets with a move back between them, and a chain is worked wherever the
place of work is.  `Exchange` lists these three laws, and `Rewrites` applies one of them anywhere in
a sequence.

An exchange changes neither the steps nor the offset that is reached, whatever stands around it.
There are no other laws: `unwork` reads stitches back from the steps alone, and every sequence can
be rewritten into the stitches that are read back from its own steps (`rewritten_unwork`).  So
sequences with the same steps and the same drift are rewritten into each other, and whether they are
can be decided by working them.
-/

namespace CrochetShorthand

open Stitch (back chain increase singleCrochet skip)

/-! ## Moves -/

/-- Stitches that move the place of work and do nothing else. -/
def IsMoves (stitches : List Stitch) : Prop :=
  ∀ stitch ∈ stitches, stitch = .back ∨ stitch = .skip

instance (stitches : List Stitch) : Decidable (IsMoves stitches) :=
  inferInstanceAs (Decidable (∀ stitch ∈ stitches, stitch = .back ∨ stitch = .skip))

/-- How often stitches go back, less how often they skip. -/
def netBack (stitches : List Stitch) : Int :=
  (stitches.count .back : Nat) - (stitches.count .skip : Nat)

theorem isMoves_append {first second : List Stitch} (hfirst : IsMoves first)
    (hsecond : IsMoves second) : IsMoves (first ++ second) :=
  List.forall_mem_append.2 ⟨hfirst, hsecond⟩

theorem netBack_append (first second : List Stitch) :
    netBack (first ++ second) = netBack first + netBack second := by
  simp only [netBack, List.count_append]
  omega

theorem works_moves {moves : List Stitch} (h : IsMoves moves) (offset : Int) :
    Works offset moves [] (offset + netBack moves) := by
  induction moves generalizing offset with
  | nil => simpa [netBack] using works_nil offset
  | cons move moves ih =>
      obtain ⟨hmove, hmoves⟩ := List.forall_mem_cons.1 h
      have hsilent : move.steps offset = [] := by
        rcases hmove with rfl | rfl <;> rfl
      have hnet : netBack (move :: moves) = move.drift + netBack moves := by
        rcases hmove with rfl | rfl <;> simp [netBack, Stitch.drift] <;> omega
      have hwhole := (ih hmoves (offset + move.drift)).cons
      rwa [hsilent, List.append_nil, Int.add_assoc, ← hnet] at hwhole

/-- The moves that go back by a distance, or skip when it is negative. -/
def movesBy (distance : Int) : List Stitch :=
  if 0 ≤ distance then List.replicate distance.toNat .back
  else List.replicate (-distance).toNat .skip

theorem isMoves_movesBy (distance : Int) : IsMoves (movesBy distance) := by
  intro stitch hmem
  unfold movesBy at hmem
  split at hmem
  · exact .inl (List.eq_of_mem_replicate hmem)
  · exact .inr (List.eq_of_mem_replicate hmem)

theorem netBack_movesBy (distance : Int) : netBack (movesBy distance) = distance := by
  unfold movesBy netBack
  split <;> simp [List.count_replicate] <;> omega

/-! ## Rewriting -/

/-- One run of stitches can stand in the place of the other. -/
inductive Exchange : List Stitch → List Stitch → Prop
  /-- Moves only add up. -/
  | moves {first second : List Stitch} (hfirst : IsMoves first) (hsecond : IsMoves second)
      (hnet : netBack first = netBack second) : Exchange first second
  /-- An increase goes back between its two single crochets. -/
  | increase : Exchange [.increase] [.singleCrochet, .back, .singleCrochet]
  /-- A chain does not depend on the place of work. -/
  | chain {moves : List Stitch} (hmoves : IsMoves moves) :
      Exchange (moves ++ [.chain]) (.chain :: moves)

/-- One run within a sequence of stitches is exchanged. -/
inductive Rewrites : List Stitch → List Stitch → Prop
  | exchange (before after : List Stitch) {first second : List Stitch}
      (h : Exchange first second) :
      Rewrites (before ++ first ++ after) (before ++ second ++ after)

/-- Any number of exchanges, in both directions, lead from one sequence to the other. -/
def Rewritten : List Stitch → List Stitch → Prop :=
  Relation.EqvGen Rewrites

/-- The two runs of an exchange give the same steps and reach the same offset. -/
theorem Exchange.works {first second : List Stitch} (h : Exchange first second) (offset : Int) :
    ∃ steps reached, Works offset first steps reached ∧ Works offset second steps reached := by
  cases h with
  | moves hfirst hsecond hnet =>
      refine ⟨_, _, works_moves hfirst offset, ?_⟩
      rw [hnet]
      exact works_moves hsecond offset
  | increase =>
      have hparts : Works offset [.singleCrochet, .back, .singleCrochet]
          [.sc offset, .sc (offset + 1)] (offset + 1) := by
        constructor <;> simp [workFrom, Working.work, Working.steps, Stitch.drift, Stitch.steps]
      exact ⟨_, _, ⟨rfl, rfl⟩, hparts⟩
  | @chain moves hmoves =>
      have hmoved := works_moves hmoves offset
      have hbehind := works_chains (offset + netBack moves) 1
      have hfront := works_chains offset 1
      exact ⟨_, _, hmoved.append hbehind, hfront.append hmoved⟩

theorem Working.eq_of_steps_eq {first second : Working} (hoffset : first.offset = second.offset)
    (hsteps : first.steps = second.steps) : first = second := by
  obtain ⟨offset, latest⟩ := first
  obtain ⟨offset', latest'⟩ := second
  obtain rfl : latest = latest' := List.reverse_inj.1 hsteps
  rw [Working.mk.injEq]
  exact ⟨hoffset, rfl⟩

/-- An exchange changes nothing in the work, whatever was worked before. -/
theorem Exchange.foldl_work_eq {first second : List Stitch} (h : Exchange first second)
    (working : Working) :
    first.foldl Working.work working = second.foldl Working.work working := by
  obtain ⟨steps, reached, hfirst, hsecond⟩ := h.works working.offset
  obtain ⟨hoffset, hsteps⟩ := foldl_work working first
  obtain ⟨hoffset', hsteps'⟩ := foldl_work working second
  apply Working.eq_of_steps_eq
  · rw [hoffset, hoffset', hfirst.offset_eq, hsecond.offset_eq]
  · rw [hsteps, hsteps', hfirst.steps_eq, hsecond.steps_eq]

theorem Rewrites.workFrom_eq {given rewritten : List Stitch} (h : Rewrites given rewritten)
    (offset : Int) : workFrom offset given = workFrom offset rewritten := by
  obtain ⟨before, after, hexchange⟩ := h
  simp only [workFrom, List.foldl_append, hexchange.foldl_work_eq]

/-- Rewriting keeps the steps and the offset, from wherever the stitches are worked. -/
theorem Rewritten.workFrom_eq {given rewritten : List Stitch} (h : Rewritten given rewritten)
    (offset : Int) : workFrom offset given = workFrom offset rewritten := by
  induction h with
  | rel _ _ hrewrites => exact hrewrites.workFrom_eq offset
  | refl _ => rfl
  | symm _ _ _ ih => exact ih.symm
  | trans _ _ _ _ _ ihfirst ihsecond => exact ihfirst.trans ihsecond

namespace Rewritten

variable {first second third : List Stitch}

theorem refl (stitches : List Stitch) : Rewritten stitches stitches :=
  Relation.EqvGen.refl stitches

theorem symm (h : Rewritten first second) : Rewritten second first :=
  Relation.EqvGen.symm _ _ h

theorem trans (hfirst : Rewritten first second) (hsecond : Rewritten second third) :
    Rewritten first third :=
  Relation.EqvGen.trans _ _ _ hfirst hsecond

/-- An exchange at the front. -/
theorem ofExchange (h : Exchange first second) (after : List Stitch) :
    Rewritten (first ++ after) (second ++ after) :=
  Relation.EqvGen.rel _ _ (.exchange [] after h)

/-- What is rewritten can stand behind other stitches. -/
theorem append_left (before : List Stitch) (h : Rewritten first second) :
    Rewritten (before ++ first) (before ++ second) := by
  induction h with
  | rel _ _ hrewrites =>
      obtain ⟨front, after, hexchange⟩ := hrewrites
      have hrel := Rewrites.exchange (before ++ front) after hexchange
      simp only [List.append_assoc] at hrel ⊢
      exact Relation.EqvGen.rel _ _ hrel
  | refl _ => exact refl _
  | symm _ _ _ ih => exact ih.symm
  | trans _ _ _ _ _ ihfirst ihsecond => exact ihfirst.trans ihsecond

theorem cons (stitch : Stitch) (h : Rewritten first second) :
    Rewritten (stitch :: first) (stitch :: second) :=
  h.append_left [stitch]

end Rewritten

/-! ## Stitches read back from steps -/

/-- Stitches that give the steps between two offsets.  A single crochet into two stitches at
once stands alone as a decrease, and behind a single crochet it may be the middle of an
increase-decrease: then its second stitch is the further one. -/
def unwork (offset reached : Int) : List Step → List Stitch
  | [] => movesBy (reached - offset)
  | .chain :: rest => .chain :: unwork offset reached rest
  | .scTwo ago _ :: rest => movesBy (ago - offset) ++ .decrease :: unwork (ago - 1) reached rest
  | .sc ago :: rest =>
      if rest.head? = some (.scTwo ago (ago + 1)) then
        movesBy (ago - offset) ++
          .increaseDecrease :: unwork (ago + 1) reached (rest.drop 2)
      else movesBy (ago - offset) ++ .singleCrochet :: unwork ago reached rest
termination_by steps => steps.length

/-- Moves in front of what is read back only change the offset at which it starts. -/
theorem rewritten_moves_unwork {moves : List Stitch} (hmoves : IsMoves moves)
    (offset reached : Int) (steps : List Step) :
    Rewritten (moves ++ unwork (offset + netBack moves) reached steps)
      (unwork offset reached steps) := by
  have hjoined : ∀ (target : Int) (after : List Stitch),
      Rewritten (moves ++ (movesBy (target - (offset + netBack moves)) ++ after))
        (movesBy (target - offset) ++ after) := by
    intro target after
    rw [← List.append_assoc]
    refine Rewritten.ofExchange (.moves (isMoves_append hmoves (isMoves_movesBy _))
      (isMoves_movesBy _) ?_) after
    rw [netBack_append, netBack_movesBy, netBack_movesBy]
    omega
  induction steps with
  | nil => simpa [unwork] using hjoined reached []
  | cons step rest ih =>
      cases step with
      | chain =>
          -- The moves pass behind the chain.
          have hpass := Rewritten.ofExchange (.chain hmoves)
            (unwork (offset + netBack moves) reached rest)
          rw [List.append_assoc] at hpass
          rw [unwork, unwork]
          exact hpass.trans (ih.cons chain)
      | sc ago =>
          rw [unwork, unwork]
          split
          · exact hjoined ago _
          · exact hjoined ago _
      | scTwo ago further =>
          rw [unwork, unwork]
          exact hjoined ago _

theorem steps_cons (offset : Int) (stitch : Stitch) (stitches : List Stitch) :
    (workFrom offset (stitch :: stitches)).steps =
      stitch.steps offset ++ (workFrom (offset + stitch.drift) stitches).steps :=
  (works_workFrom (offset + stitch.drift) stitches).cons.steps_eq

/-- No stitches start with a single crochet into two stitches of which the second is further. -/
theorem head?_steps_ne (offset ago : Int) (stitches : List Stitch) :
    (workFrom offset stitches).steps.head? ≠ some (.scTwo ago (ago + 1)) := by
  induction stitches generalizing offset with
  | nil => simp [workFrom, Working.steps]
  | cons stitch stitches ih =>
      rw [steps_cons]
      cases stitch with
      | skip => exact ih (offset + skip.drift)
      | back => exact ih (offset + back.drift)
      | decrease =>
          intro h
          obtain ⟨hago, hsecond⟩ := Step.scTwo.inj (Option.some.inj h)
          omega
      | _ => simp [Stitch.steps]

/-- Every sequence of stitches can be rewritten into those that are read back from its steps. -/
theorem rewritten_unwork (offset : Int) (stitches : List Stitch) :
    Rewritten stitches
      (unwork offset (offset + totalDrift stitches) (workFrom offset stitches).steps) := by
  induction stitches generalizing offset with
  | nil =>
      have hnothing : unwork offset (offset + totalDrift []) (workFrom offset []).steps = [] := by
        simp [workFrom, Working.steps, unwork, totalDrift, movesBy]
      rw [hnothing]
      exact Rewritten.refl []
  | cons stitch stitches ih =>
      have hstay : movesBy (offset - offset) = [] := by
        simp [movesBy]
      have hrest := (ih (offset + stitch.drift)).cons stitch
      rw [Int.add_assoc, ← totalDrift_cons] at hrest
      rw [steps_cons]
      generalize offset + totalDrift (stitch :: stitches) = reached at hrest ⊢
      have hnone := fun ago => head?_steps_ne (offset + stitch.drift) ago stitches
      generalize (workFrom (offset + stitch.drift) stitches).steps = steps at hrest hnone ⊢
      cases stitch with
      | chain =>
          rw [Stitch.drift, Int.add_zero] at hrest
          rw [Stitch.steps, List.singleton_append, unwork]
          exact hrest
      | singleCrochet =>
          rw [Stitch.drift, Int.add_zero] at hrest
          rw [Stitch.steps, List.singleton_append, unwork, if_neg (hnone offset), hstay]
          exact hrest
      | increase =>
          have hback : movesBy (offset + 1 - offset) = [back] := by
            rw [Int.add_comm, Int.add_sub_cancel]
            rfl
          have hbefore : (Step.sc (offset + 1) :: steps).head? ≠
              some (.scTwo offset (offset + 1)) := by simp
          rw [Stitch.steps, List.cons_append, List.singleton_append, unwork, if_neg hbefore, hstay,
            unwork, if_neg (hnone (offset + 1)), hback]
          exact hrest.trans (Rewritten.ofExchange .increase _)
      | increaseDecrease =>
          rw [Stitch.steps, List.cons_append, unwork, List.cons_append, List.head?_cons, if_pos rfl,
            hstay]
          exact hrest
      | decrease =>
          rw [Stitch.steps, List.singleton_append, unwork, hstay]
          exact hrest
      | skip =>
          have hmoves : IsMoves [skip] := by decide
          exact hrest.trans (rewritten_moves_unwork hmoves offset reached steps)
      | back =>
          have hmoves : IsMoves [back] := by decide
          exact hrest.trans (rewritten_moves_unwork hmoves offset reached steps)

/-! ## What rewriting comes to -/

/-- Stitches can be rewritten into others exactly when both are worked alike from one offset. -/
theorem rewritten_iff (offset : Int) (given rewritten : List Stitch) :
    Rewritten given rewritten ↔ workFrom offset given = workFrom offset rewritten := by
  constructor
  · intro h
    exact h.workFrom_eq offset
  · intro h
    have hreached := (works_workFrom offset given).offset_eq
    rw [h, (works_workFrom offset rewritten).offset_eq] at hreached
    have hgiven := rewritten_unwork offset given
    rw [h, ← hreached] at hgiven
    exact hgiven.trans (rewritten_unwork offset rewritten).symm

instance (given rewritten : List Stitch) : Decidable (Rewritten given rewritten) :=
  decidable_of_iff (workFrom 0 given = workFrom 0 rewritten) (rewritten_iff 0 given rewritten).symm

/-- An exchange of a run of stitches changes neither the steps nor the offset that is reached,
whatever stands before and after the run and wherever the work starts; moves that cancel out can
be put in and left out.  So sequences that are rewritten into each other have the same steps and the
same display tokens.  These are all laws: sequences that are worked alike from any one offset are
rewritten into each other. -/
theorem rewritten_worked_alike :
    (∀ (offset : Int) (before after : List Stitch) {first second : List Stitch},
      Exchange first second →
        workFrom offset (before ++ first ++ after) = workFrom offset (before ++ second ++ after)) ∧
    (∀ (offset : Int) (before after : List Stitch) {moves : List Stitch},
      IsMoves moves → netBack moves = 0 →
        workFrom offset (before ++ moves ++ after) = workFrom offset (before ++ after)) ∧
    (∀ {given rewritten : List Stitch}, Rewritten given rewritten →
      workAll given = workAll rewritten ∧
        displayAll (workAll given) = displayAll (workAll rewritten)) ∧
    ∀ (offset : Int) (given rewritten : List Stitch),
      Rewritten given rewritten ↔ workFrom offset given = workFrom offset rewritten := by
  have hexchange : ∀ (offset : Int) (before after : List Stitch) {first second : List Stitch},
      Exchange first second →
        workFrom offset (before ++ first ++ after) =
          workFrom offset (before ++ second ++ after) :=
    fun offset before after _ _ h => (Rewrites.exchange before after h).workFrom_eq offset
  refine ⟨hexchange, ?_, ?_, rewritten_iff⟩
  · intro offset before after moves hmoves hnet
    have hnone : IsMoves [] := by decide
    have hcancel := hexchange offset before after (.moves hmoves hnone hnet)
    rwa [List.append_nil] at hcancel
  · intro given rewritten h
    have hworked : workAll given = workAll rewritten := by
      rw [workAll, workAll, h.workFrom_eq 0]
    exact ⟨hworked, congrArg displayAll hworked⟩

/-- An increase is taken apart, and the move behind it passes behind the chain. -/
theorem rewritten_worked_alike_of_increase :
    (Exchange [back, skip, skip] [skip] ∧
      workFrom (-2) ([increase] ++ [back, skip, skip] ++ [.decrease]) =
        workFrom (-2) ([increase] ++ [skip] ++ [.decrease])) ∧
    (IsMoves [skip, back] ∧ netBack [skip, back] = 0 ∧
      workFrom 7 ([increase] ++ [skip, back] ++ [.increaseDecrease]) =
        workFrom 7 ([increase] ++ [.increaseDecrease])) ∧
    Rewritten [increase, back, chain, increase]
        [singleCrochet, back, singleCrochet, chain, back, increase] ∧
      displayAll (workAll [increase, back, chain, increase]) =
        displayAll (workAll [singleCrochet, back, singleCrochet, chain, back, increase]) := by
  obtain ⟨hexchange, hcancel, hshown, -⟩ := rewritten_worked_alike
  have hmoves : Exchange [back, skip, skip] [skip] :=
    .moves (by decide) (by decide) (by decide)
  have hcancels : IsMoves [skip, back] := by decide
  have hapart : Rewritten [increase, back, chain, increase]
      [singleCrochet, back, singleCrochet, back, chain, increase] :=
    .ofExchange .increase [back, chain, increase]
  have hback : IsMoves [back] := by decide
  have hpasses : Rewritten [singleCrochet, back, singleCrochet, back, chain, increase]
      [singleCrochet, back, singleCrochet, chain, back, increase] :=
    .append_left [singleCrochet, back, singleCrochet] (.ofExchange (.chain hback) [increase])
  have hrewritten := hapart.trans hpasses
  exact ⟨⟨hmoves, hexchange (-2) _ _ hmoves⟩, ⟨hcancels, rfl, hcancel 7 _ _ hcancels rfl⟩,
    hrewritten, (hshown hrewritten).2⟩

-- An increase-decrease is no increase and a decrease, although it drifts as an increase does.
example : ¬ Rewritten [.increaseDecrease] [.increase] ∧
    ¬ Rewritten [.increaseDecrease] [.increase, .decrease] := by
  decide

end CrochetShorthand
