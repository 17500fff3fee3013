import CrochetShorthand.Proofs.Display
import CrochetShorthand.Proofs.Interruption
import Mathlib.Data.List.Induction

/-!
# Displays that are flushed now and then

Whoever shows steps may flush the run held back at any time, and go on with further steps.  The
flushes cut the steps into segments.  Each segment that was flushed shows what its steps show by
themselves, and the segment under way shows all of that but its last token, which belongs to the run
held back (`ofSegments_ofCalls`).

So every step is in one token or in the run held back.  Inside a segment neighbouring tokens show
different steps, and tokens of different segments have a flush between them
(`flatten_neighbours`, `exists_flush_of_flushed`).
-/

namespace CrochetShorthand

/-- A display under way: the tokens given so far, in order, and the run held back. -/
structure Showing where
  tokens : List Text
  held : Option Run
deriving DecidableEq, Repr

namespace Showing

/-- What can be asked of a display under way. -/
inductive Call
  | feed (step : Step)
  | flush
deriving DecidableEq, Repr

/-- Nothing is shown yet. -/
def start : Showing :=
  ⟨[], none⟩

/-- Answer a call: the token that it completes, if any, comes behind the others. -/
def answer (showing : Showing) : Call → Showing
  | .feed step =>
      let fed := Run.feed showing.held step
      ⟨showing.tokens ++ fed.1.toList, fed.2⟩
  | .flush => ⟨showing.tokens ++ (Run.flush showing.held).toList, none⟩

/-- The display after calls in order. -/
def ofCalls (calls : List Call) : Showing :=
  calls.foldl answer start

theorem ofCalls_append (calls : List Call) (call : Call) :
    ofCalls (calls ++ [call]) = (ofCalls calls).answer call := by
  rw [ofCalls, List.foldl_append]
  rfl

/-- The step that a call feeds. -/
def Call.step? : Call → Option Step
  | .feed step => some step
  | .flush => none

/-! ## Segments -/

/-- The steps between flushes: the segments that were flushed, and the one under way. -/
structure Segments where
  flushed : List (List Step)
  current : List Step
deriving DecidableEq, Repr

namespace Segments

/-- A step goes to the segment under way, and a flush ends it. -/
def add (segments : Segments) : Call → Segments
  | .feed step => ⟨segments.flushed, segments.current ++ [step]⟩
  | .flush => ⟨segments.flushed ++ [segments.current], []⟩

/-- The segments of calls in order. -/
def ofCalls (calls : List Call) : Segments :=
  calls.foldl add ⟨[], []⟩

theorem ofCalls_append (calls : List Call) (call : Call) :
    ofCalls (calls ++ [call]) = (ofCalls calls).add call := by
  rw [ofCalls, List.foldl_append]
  rfl

/-- Behind each segment that was flushed there is the flush that ended it. -/
theorem exists_flush_of_flushed {calls : List Call} {done later : List (List Step)}
    (h : (ofCalls calls).flushed = done ++ later) (hdone : done ≠ []) :
    ∃ before after, calls = before ++ .flush :: after ∧
      ofCalls (before ++ [.flush]) = ⟨done, []⟩ := by
  induction calls using List.reverseRecOn generalizing later with
  | nil =>
      obtain ⟨hnil, -⟩ := List.append_eq_nil_iff.1 h.symm
      exact absurd hnil hdone
  | append_singleton calls call ih =>
      rw [ofCalls_append] at h
      cases call with
      | feed step =>
          obtain ⟨before, after, rfl, hbefore⟩ := ih h
          exact ⟨before, after ++ [.feed step], by simp, hbefore⟩
      | flush =>
          rcases List.eq_nil_or_concat later with rfl | ⟨front, last, rfl⟩
          · refine ⟨calls, [], rfl, ?_⟩
            rw [List.append_nil] at h
            rw [ofCalls_append, add, ← h]
            rfl
          · rw [List.concat_eq_append, ← List.append_assoc] at h
            obtain ⟨hflushed, -⟩ := List.append_inj' h rfl
            obtain ⟨before, after, rfl, hbefore⟩ := ih hflushed
            exact ⟨before, after ++ [.flush], by simp, hbefore⟩

end Segments

/-! ## The run held back -/

/-- The run held back is the last run of the steps, in full. -/
inductive Holds : List Step → Option Run → Prop
  | nothing : Holds [] none
  | run {front : List Step} {step : Step} {count : Nat} (hcount : 1 ≤ count)
      (hfront : front.getLast? ≠ some step) :
      Holds (front ++ List.replicate count step) (some ⟨step.render, count⟩)

/-- One more step makes the last run longer or begins a new one. -/
theorem Holds.feed {steps : List Step} {held : Option Run} (h : Holds steps held) (step : Step) :
    Holds (steps ++ [step]) (Run.feed held step).2 := by
  cases h with
  | nothing =>
      have hfront : ([] : List Step).getLast? ≠ some step := by simp
      exact .run (Nat.le_refl 1) hfront
  | @run front last count hcount hfront =>
      by_cases hsame : last = step
      · subst hsame
        have hfed : (Run.feed (some ⟨last.render, count⟩) last).2 =
            some ⟨last.render, count + 1⟩ := by
          simp [Run.feed]
        rw [hfed, List.append_assoc, ← List.replicate_succ']
        exact .run (by omega) hfront
      · have hne : last.render ≠ step.render := fun h => hsame (Step.render_injective h)
        have hfed : (Run.feed (some ⟨last.render, count⟩) step).2 = some ⟨step.render, 1⟩ := by
          simp [Run.feed, hne]
        have hlast : (front ++ List.replicate count last).getLast? = some last := by
          rw [List.getLast?_append, List.getLast?_replicate, if_neg (by omega)]
          rfl
        rw [hfed]
        exact .run (Nat.le_refl 1) (by simpa [hlast] using hsame)

/-- What a display has shown of the steps so far, where the flushes cut them into segments. -/
structure OfSegments (showing : Showing) (segments : Segments) : Prop where
  tokens : showing.tokens =
    segments.flushed.flatMap displayAll ++ (displayAll segments.current).dropLast
  held : showing.held = (segments.current.foldl Run.feedOnto ([], none)).2
  holds : Holds segments.current showing.held

theorem ofSegments_start : OfSegments start ⟨[], []⟩ :=
  ⟨rfl, rfl, .nothing⟩

theorem OfSegments.answer {showing : Showing} {segments : Segments}
    (h : OfSegments showing segments) (call : Call) :
    OfSegments (showing.answer call) (segments.add call) := by
  obtain ⟨htokens, hheld, hholds⟩ := h
  cases call with
  | feed step =>
      have hfed : (segments.current ++ [step]).foldl Run.feedOnto ([], none) =
          Run.feedOnto (segments.current.foldl Run.feedOnto ([], none)) step :=
        List.foldl_append
      refine ⟨?_, ?_, hholds.feed step⟩
      · show showing.tokens ++ (Run.feed showing.held step).1.toList = _
        rw [Segments.add, ← latest_reverse_eq_dropLast, hfed, Run.feedOnto, ← hheld, htokens,
          ← latest_reverse_eq_dropLast, List.append_assoc, List.reverse_append]
        cases (Run.feed showing.held step).1 <;> rfl
      · show (Run.feed showing.held step).2 = _
        rw [Segments.add, hfed, hheld, Run.feedOnto]
  | flush =>
      refine ⟨?_, rfl, .nothing⟩
      show showing.tokens ++ (Run.flush showing.held).toList = _
      have hwhole : displayAll segments.current =
          (displayAll segments.current).dropLast ++ (Run.flush showing.held).toList := by
        rw [← latest_reverse_eq_dropLast, hheld, displayAll, List.reverse_append]
        cases Run.flush (segments.current.foldl Run.feedOnto ([], none)).2 <;> rfl
      rw [htokens, List.append_assoc, ← hwhole]
      simp [Segments.add, displayAll, Run.flush]

theorem ofSegments_ofCalls (calls : List Call) :
    OfSegments (ofCalls calls) (Segments.ofCalls calls) := by
  induction calls using List.reverseRecOn with
  | nil => exact ofSegments_start
  | append_singleton calls call ih =>
      rw [ofCalls_append, Segments.ofCalls_append]
      exact ih.answer call

/-! ## Nothing is lost -/

/-- The tokens given and the run held back make up the steps, and no run is without a step. -/
def Accounts (showing : Showing) (steps : List Step) : Prop :=
  ∃ (runs : List StepRun) (last : Option StepRun),
    showing.tokens = runs.map StepRun.render ∧
      showing.held = last.map (fun run => ⟨run.step.render, run.count⟩) ∧
      (∀ run ∈ runs ++ last.toList, 1 ≤ run.count) ∧
      (runs ++ last.toList).flatMap StepRun.steps = steps

theorem Accounts.answer {showing : Showing} {steps : List Step} (h : Accounts showing steps)
    (call : Call) : Accounts (showing.answer call) (steps ++ call.step?.toList) := by
  obtain ⟨runs, last, htokens, hheld, hcounts, rfl⟩ := h
  obtain ⟨hruns, -⟩ := List.forall_mem_append.1 hcounts
  cases call with
  | flush =>
      refine ⟨runs ++ last.toList, none, ?_, rfl, by simpa using hcounts, by simp [Call.step?]⟩
      show showing.tokens ++ (Run.flush showing.held).toList = _
      rw [htokens, hheld]
      cases last <;> simp [Run.flush, StepRun.render]
  | feed step =>
      cases last with
      | none =>
          refine ⟨runs, some ⟨step, 1⟩, ?_, ?_, List.forall_mem_append.2 ⟨hruns, by simp⟩, ?_⟩
          · simp [Showing.answer, hheld, htokens, Run.feed]
          · simp [Showing.answer, hheld, Run.feed]
          · simp [StepRun.steps, Call.step?]
      | some run =>
          by_cases hsame : run.step = step
          · subst hsame
            refine ⟨runs, some ⟨run.step, run.count + 1⟩, ?_, ?_,
              List.forall_mem_append.2 ⟨hruns, by simp⟩, ?_⟩
            · simp [Showing.answer, hheld, htokens, Run.feed]
            · simp [Showing.answer, hheld, Run.feed]
            · simp [StepRun.steps, Call.step?, List.replicate_succ']
          · have hne : run.step.render ≠ step.render := fun h => hsame (Step.render_injective h)
            refine ⟨runs ++ [run], some ⟨step, 1⟩, ?_, ?_,
              List.forall_mem_append.2 ⟨hcounts, by simp⟩, ?_⟩
            · simp [Showing.answer, hheld, htokens, Run.feed, hne, StepRun.render]
            · simp [Showing.answer, hheld, Run.feed, hne]
            · simp [StepRun.steps, Call.step?]

theorem accounts_ofCalls (calls : List Call) :
    Accounts (ofCalls calls) (calls.filterMap Call.step?) := by
  induction calls using List.reverseRecOn with
  | nil => exact ⟨[], none, rfl, rfl, by simp, rfl⟩
  | append_singleton calls call ih =>
      have hfed : (calls ++ [call]).filterMap Call.step? =
          calls.filterMap Call.step? ++ call.step?.toList := by
        cases call <;> simp [Call.step?]
      rw [ofCalls_append, hfed]
      exact ih.answer call

/-! ## Neighbouring tokens -/

/-- Neighbours in blocks that are put together are neighbours in one block, or one block ends
between them. -/
theorem flatten_neighbours {α : Type} {related : α → α → Prop} {blocks : List (List α)}
    (h : ∀ block ∈ blocks, block.IsChain related) {front back : List α} {first second : α}
    (heq : blocks.flatten = front ++ first :: second :: back) :
    related first second ∨
      ∃ done later, blocks = done ++ later ∧ later ≠ [] ∧ done.flatten = front ++ [first] := by
  induction blocks generalizing front with
  | nil => simp at heq
  | cons block blocks ih =>
      obtain ⟨hblock, hblocks⟩ := List.forall_mem_cons.1 h
      rw [List.flatten_cons, List.append_eq_append_iff] at heq
      rcases heq with ⟨rest, rfl, hrest⟩ | ⟨rest, rfl, hrest⟩
      · -- Both stand in the blocks behind the first one.
        rcases ih hblocks hrest with hrelated | ⟨done, later, rfl, hlater, hdone⟩
        · exact .inl hrelated
        · exact .inr ⟨block :: done, later, rfl, hlater, by simp [hdone]⟩
      · match rest, hrest with
        | [], hrest =>
            have hbehind : blocks.flatten = [] ++ first :: second :: back := hrest.symm
            rcases ih hblocks hbehind with hrelated | ⟨done, later, rfl, hlater, hdone⟩
            · exact .inl hrelated
            · exact .inr ⟨(front ++ []) :: done, later, rfl, hlater, by simp [hdone]⟩
        | [c], hrest =>
            obtain ⟨rfl, hlater⟩ := List.cons.inj hrest
            refine .inr ⟨[front ++ [first]], blocks, rfl, ?_, by simp⟩
            rintro rfl
            contradiction
        | c :: d :: inside, hrest =>
            obtain ⟨rfl, htail⟩ := List.cons.inj hrest
            obtain ⟨rfl, -⟩ := List.cons.inj htail
            exact .inl (List.isChain_append_cons_cons.1 hblock).2.1

/-- The two tokens show different steps. -/
def ShowDifferent (first second : Text) : Prop :=
  ∃ a b, StepRun.read? first = some a ∧ StepRun.read? second = some b ∧ a.step ≠ b.step

/-- Neighbouring tokens show different steps, or there was a flush right between them. -/
theorem neighbours_ofCalls {calls : List Call} {front back : List Text} {first second : Text}
    (h : (ofCalls calls).tokens = front ++ first :: second :: back) :
    ShowDifferent first second ∨
      ∃ before after, calls = before ++ .flush :: after ∧
        (ofCalls (before ++ [.flush])).tokens = front ++ [first] := by
  have hblocks : ∀ block ∈ (Segments.ofCalls calls).flushed.map displayAll ++
      [(displayAll (Segments.ofCalls calls).current).dropLast],
      block.IsChain ShowDifferent := by
    have hwhole : ∀ steps, (displayAll steps).IsChain ShowDifferent := StepRun.isChain_displayAll
    refine List.forall_mem_append.2 ⟨List.forall_mem_map.2 fun steps _ => hwhole steps, ?_⟩
    intro block hmem
    obtain rfl := List.mem_singleton.1 hmem
    exact (hwhole _).dropLast
  rw [(ofSegments_ofCalls calls).tokens, List.flatMap_def, ← List.flatten_concat] at h
  rcases flatten_neighbours hblocks h with hdifferent | ⟨done, later, hsplit, hlater, hdone⟩
  · exact .inl hdifferent
  · right
    -- The blocks that end between the tokens are those of segments that were flushed.
    obtain ⟨last, rest, rfl⟩ : ∃ last rest, later = rest ++ [last] := by
      rcases List.eq_nil_or_concat later with rfl | ⟨rest, last, rfl⟩
      · exact absurd rfl hlater
      · exact ⟨last, rest, List.concat_eq_append⟩
    rw [← List.append_assoc] at hsplit
    obtain ⟨hflushed, -⟩ := List.append_inj' hsplit rfl
    obtain ⟨segments, others, hsegments, rfl, -⟩ := List.map_eq_append_iff.1 hflushed
    have hsome : segments ≠ [] := by
      rintro rfl
      simp at hdone
    obtain ⟨before, after, hcalls, hbefore⟩ := Segments.exists_flush_of_flushed hsegments hsome
    refine ⟨before, after, hcalls, ?_⟩
    rw [(ofSegments_ofCalls (before ++ [Call.flush])).tokens, hbefore, ← hdone, List.flatMap_def]
    simp [displayAll, Run.flush]

end Showing

end CrochetShorthand
