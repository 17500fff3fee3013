import CrochetShorthand.Proofs.Balance
import Mathlib.Data.List.TakeWhile

/-!
# The pieces of a line by position

A position of a line is a separator when it holds a blank and the line has no more opening
than closing brackets in front of it.  A run is a stretch of the line without separators that
can be made longer at neither end.  The pieces of a line are its runs, in order.

The splitter never looks at positions.  It skips blanks at any depth, and it keeps one
depth across all pulls.  What a pull does is said once, in `Pulls`: blanks, then an unbroken
piece, then a break.  A depth behind a break is never positive, so the blanks that a pull skips
are all separators, and the piece is a run.
-/

namespace CrochetShorthand

namespace LineScan

open Text (isBlank)

/-! ## What a pull takes -/

theorem depthChange_of_isBlank {c : Char} (h : isBlank c = true) : depthChange c = 0 := by
  have hopen : c ≠ '[' := by
    rintro rfl
    exact absurd h (by decide)
  have hclose : c ≠ ']' := by
    rintro rfl
    exact absurd h (by decide)
  simp [depthChange, hopen, hclose]

theorem balance_of_blanks {t : Text} (h : ∀ c ∈ t, isBlank c = true) : balance t = 0 := by
  induction t with
  | nil => rfl
  | cons c t ih =>
      obtain ⟨hc, ht⟩ := List.forall_mem_cons.1 h
      rw [balance, depthChange_of_isBlank hc, ih ht]
      rfl

/-- The balance counts brackets, and no others but the two. -/
theorem balance_eq_count (t : Text) : balance t = (t.count '[' : Int) - t.count ']' := by
  induction t with
  | nil => rfl
  | cons c t ih =>
      rw [balance, ih, depthChange, List.count_cons, List.count_cons]
      by_cases hopen : c = '['
      · subst hopen
        simp
        omega
      · by_cases hclose : c = ']'
        · subst hclose
          simp
          omega
        · simp [hopen, hclose]

/-- Nothing is left, or what is left starts with a blank outside brackets. -/
def AtBreak (left : LineScan) : Prop :=
  ∀ c rest, left.rest = c :: rest → isBlank c = true ∧ left.depth ≤ 0

theorem scan_split (depth : Int) (t : Text) :
    t = (scan depth t).1 ++ (scan depth t).2.rest ∧ Unbroken depth (scan depth t).1 ∧
      (scan depth t).2.depth = depth + balance (scan depth t).1 ∧ (scan depth t).2.AtBreak := by
  induction t generalizing depth with
  | nil =>
      refine ⟨rfl, trivial, by simp [scan, balance], ?_⟩
      intro c rest h
      contradiction
  | cons c t ih =>
      unfold scan
      split
      · rename_i hstop
        simp only [Bool.and_eq_true, decide_eq_true_eq] at hstop
        refine ⟨rfl, trivial, by simp [balance], ?_⟩
        intro d rest h
        obtain ⟨rfl, -⟩ := List.cons.inj h
        exact hstop
      · rename_i hgo
        obtain ⟨hsplit, hunbroken, hdepth, hbreak⟩ := ih (depth + depthChange c)
        refine ⟨?_, ⟨?_, hunbroken⟩, ?_, hbreak⟩
        · rw [List.cons_append, ← hsplit]
        · intro hc
          simp only [hc, Bool.true_and, decide_eq_true_eq] at hgo
          omega
        · dsimp only
          rw [hdepth, balance]
          omega

/-- A pull takes blanks and then a piece: an unbroken text that starts with no blank and ends at a
break. -/
structure Pulls (left : LineScan) (blanks piece : Text) (after : LineScan) : Prop where
  split : left.rest = blanks ++ piece ++ after.rest
  blank : ∀ c ∈ blanks, isBlank c = true
  head : ∃ c rest, piece = c :: rest ∧ isBlank c = false
  unbroken : Unbroken left.depth piece
  depth : after.depth = left.depth + balance piece
  atBreak : after.AtBreak

theorem pulls_of_next? {left after : LineScan} {piece : Text}
    (h : left.next? = some (piece, after)) : ∃ blanks, Pulls left blanks piece after := by
  unfold next? at h
  split at h
  · contradiction
  · rename_i c rest htrim
    have hc := isBlank_of_trimStart_eq_cons htrim
    obtain ⟨hsplit, hunbroken, hdepth, hbreak⟩ := scan_split left.depth (c :: rest)
    rw [Option.some.inj h] at hsplit hunbroken hdepth hbreak
    refine ⟨left.rest.takeWhile isBlank, ?_, ?_, ?_, hunbroken, hdepth, hbreak⟩
    · rw [List.append_assoc, ← hsplit, ← htrim, Text.trimStart, List.takeWhile_append_dropWhile]
    · exact List.all_eq_true.1 List.all_takeWhile
    · -- The scan goes over the first character, because it is no blank.
      have hscan : (scan left.depth (c :: rest)).1 = piece := by rw [Option.some.inj h]
      rw [scan, hc] at hscan
      exact ⟨c, _, hscan.symm, hc⟩

theorem blank_of_next?_none {left : LineScan} (h : left.next? = none) :
    ∀ c ∈ left.rest, isBlank c = true := by
  unfold next? at h
  split at h
  · rename_i htrim
    exact List.dropWhile_eq_nil_iff.1 htrim
  · contradiction

/-- Behind a break the depth is not positive, unless nothing is left. -/
theorem AtBreak.depth_le {left : LineScan} (h : left.AtBreak) (hrest : left.rest ≠ []) :
    left.depth ≤ 0 := by
  obtain ⟨c, rest, hcons⟩ := List.exists_cons_of_ne_nil hrest
  exact (h c rest hcons).2

theorem Unbroken.getElem? {depth : Int} {t : Text} (h : Unbroken depth t) {i : Nat} {c : Char}
    (hc : t[i]? = some c) (hblank : isBlank c = true) : 0 < depth + balance (t.take i) := by
  induction t generalizing depth i with
  | nil => contradiction
  | cons d t ih =>
      cases i with
      | zero =>
          obtain rfl := Option.some.inj hc
          simpa [balance] using h.1 hblank
      | succ i =>
          have hpos := ih h.2 (i := i) (by simpa using hc)
          rw [List.take_succ_cons, balance]
          omega

end LineScan

/-! ## Separators and runs -/

open LineScan (balance Unbroken AtBreak Pulls)
open Text (isBlank)

/-- A position of a text that holds a blank, with no more opening than closing brackets in front
of it. -/
def IsSeparatorAt (t : Text) (i : Nat) : Prop :=
  ∃ c, t[i]? = some c ∧ isBlank c = true ∧ (t.take i).count '[' ≤ (t.take i).count ']'

/-- A stretch of a line, from `start` up to but not including `stop`. -/
structure Span where
  start : Nat
  stop : Nat
deriving DecidableEq, Repr

namespace Span

/-- The characters of a line in a stretch of it. -/
def text (line : Text) (span : Span) : Text :=
  (line.drop span.start).take (span.stop - span.start)

theorem text_between (front inside rest : Text) :
    text (front ++ inside ++ rest) ⟨front.length, (front ++ inside).length⟩ = inside := by
  rw [text, List.append_assoc, List.drop_left]
  simp

/-- A position lies in a stretch. -/
def Holds (span : Span) (i : Nat) : Prop :=
  span.start ≤ i ∧ i < span.stop

/-- A stretch that is not empty, holds no separator, and can be made longer at neither end. -/
structure IsRun (line : Text) (span : Span) : Prop where
  start_lt : span.start < span.stop
  stop_le : span.stop ≤ line.length
  unseparated : ∀ i, span.Holds i → ¬ IsSeparatorAt line i
  left_maximal : span.start = 0 ∨ IsSeparatorAt line (span.start - 1)
  right_maximal : span.stop = line.length ∨ IsSeparatorAt line span.stop

/-- A run that holds a position of another run starts no later than that run. -/
theorem IsRun.start_le {line : Text} {first second : Span} (hfirst : first.IsRun line)
    (hsecond : second.IsRun line) {i : Nat} (hi : first.Holds i) (hi' : second.Holds i) :
    first.start ≤ second.start := by
  obtain ⟨_, hstop⟩ := hi
  obtain ⟨hstart, _⟩ := hi'
  apply Nat.le_of_not_lt
  intro hlt
  rcases hfirst.left_maximal with hzero | hseparator
  · omega
  · exact hsecond.unseparated (first.start - 1) ⟨by omega, by omega⟩ hseparator

theorem IsRun.stop_le_stop {line : Text} {first second : Span} (hfirst : first.IsRun line)
    (hsecond : second.IsRun line) {i : Nat} (hi : first.Holds i) (hi' : second.Holds i) :
    second.stop ≤ first.stop := by
  obtain ⟨_, hstop⟩ := hi
  obtain ⟨hstart, _⟩ := hi'
  apply Nat.le_of_not_lt
  intro hlt
  rcases hfirst.right_maximal with hend | hseparator
  · have hle := hsecond.stop_le
    omega
  · exact hsecond.unseparated first.stop ⟨by omega, by omega⟩ hseparator

/-- No position lies in two runs. -/
theorem IsRun.eq_of_holds {line : Text} {first second : Span} (hfirst : first.IsRun line)
    (hsecond : second.IsRun line) {i : Nat} (hi : first.Holds i) (hi' : second.Holds i) :
    first = second := by
  have hstart := hfirst.start_le hsecond hi hi'
  have hstart' := hsecond.start_le hfirst hi' hi
  have hstop := hfirst.stop_le_stop hsecond hi hi'
  have hstop' := hsecond.stop_le_stop hfirst hi' hi
  obtain ⟨a, b⟩ := first
  obtain ⟨c, d⟩ := second
  simp only [Span.mk.injEq]
  exact ⟨Nat.le_antisymm hstart hstart', Nat.le_antisymm hstop' hstop⟩

/-- The runs of a line from a position on, in order: every position that is no separator lies in
one of them. -/
structure Cover (line : Text) (start : Nat) (spans : List Span) : Prop where
  runs : ∀ span ∈ spans, span.IsRun line
  start_le : ∀ span ∈ spans, start ≤ span.start
  ordered : spans.Pairwise fun first second => first.stop < second.start
  covers : ∀ i, start ≤ i → i < line.length → ¬ IsSeparatorAt line i → ∃ span ∈ spans, span.Holds i

/-- A run in front of a cover, with separators in front of the run. -/
theorem Cover.cons {line : Text} {start : Nat} {span : Span} {spans : List Span}
    (hspan : span.IsRun line) (hle : start ≤ span.start)
    (hseparators : ∀ i, start ≤ i → i < span.start → IsSeparatorAt line i)
    (h : Cover line span.stop spans) : Cover line start (span :: spans) := by
  have hlt := hspan.start_lt
  constructor
  · exact List.forall_mem_cons.2 ⟨hspan, h.runs⟩
  · refine List.forall_mem_cons.2 ⟨hle, ?_⟩
    intro later hlater
    have hstop := h.start_le later hlater
    omega
  · refine List.pairwise_cons.2 ⟨?_, h.ordered⟩
    intro later hlater
    -- The run ends at a separator, and no run starts with one.
    have hrun := h.runs later hlater
    have hfirst := hrun.start_lt
    have hlast := hrun.stop_le
    have hstop := h.start_le later hlater
    rcases hspan.right_maximal with hend | hseparator
    · omega
    · rcases Nat.lt_or_eq_of_le hstop with hlt | heq
      · exact hlt
      · rw [heq] at hseparator
        exact absurd hseparator (hrun.unseparated later.start ⟨Nat.le_refl _, hfirst⟩)
  · intro i hstart hi hspoken
    by_cases hbefore : i < span.start
    · exact absurd (hseparators i hstart hbefore) hspoken
    · by_cases hinside : i < span.stop
      · exact ⟨span, List.mem_cons_self .., by omega, hinside⟩
      · obtain ⟨later, hlater, hholds⟩ := h.covers i (by omega) hi hspoken
        exact ⟨later, List.mem_cons_of_mem span hlater, hholds⟩

/-- The runs of a cover from the start on are all runs of the line. -/
theorem Cover.mem_iff {line : Text} {spans : List Span} (h : Cover line 0 spans) (span : Span) :
    span ∈ spans ↔ span.IsRun line := by
  constructor
  · exact h.runs span
  · intro hspan
    have hlt := hspan.start_lt
    have hle := hspan.stop_le
    have hfirst : span.Holds span.start := ⟨Nat.le_refl _, hlt⟩
    obtain ⟨found, hfound, hholds⟩ :=
      h.covers span.start (Nat.zero_le _) (by omega) (hspan.unseparated _ hfirst)
    rw [hspan.eq_of_holds (h.runs found hfound) hfirst hholds]
    exact hfound

end Span

/-! ## Positions behind a front -/

theorem isSeparatorAt_append_iff (front t : Text) (i : Nat) :
    IsSeparatorAt (front ++ t) (front.length + i) ↔
      ∃ c, t[i]? = some c ∧ isBlank c = true ∧ balance front + balance (t.take i) ≤ 0 := by
  have hget : (front ++ t)[front.length + i]? = t[i]? := by
    rw [List.getElem?_append_right (Nat.le_add_right ..), Nat.add_sub_cancel_left]
  have htake : (front ++ t).take (front.length + i) = front ++ t.take i :=
    List.take_length_add_append i
  have hcount : (front ++ t.take i).count '[' ≤ (front ++ t.take i).count ']' ↔
      balance front + balance (t.take i) ≤ 0 := by
    rw [← LineScan.balance_append, LineScan.balance_eq_count]
    omega
  simp only [IsSeparatorAt, hget, htake, hcount]

/-- Blanks outside brackets are separators. -/
theorem isSeparatorAt_of_blanks {front blanks : Text} (hdepth : balance front ≤ 0)
    (hblanks : ∀ c ∈ blanks, isBlank c = true) (rest : Text) {i : Nat} (hstart : front.length ≤ i)
    (hi : i < (front ++ blanks).length) : IsSeparatorAt (front ++ (blanks ++ rest)) i := by
  obtain ⟨j, rfl⟩ := Nat.exists_eq_add_of_le hstart
  rw [List.length_append] at hi
  have hj : j < blanks.length := by omega
  have htake : balance (blanks.take j) = 0 :=
    LineScan.balance_of_blanks fun c hc => hblanks c (List.mem_of_mem_take hc)
  rw [isSeparatorAt_append_iff, List.getElem?_append_left hj,
    List.take_append_of_le_length (Nat.le_of_lt hj), htake]
  exact ⟨blanks[j], List.getElem?_eq_getElem hj, hblanks _ (List.getElem_mem hj), by omega⟩

namespace LineScan

/-- What is left of a line behind `front`: a pull may start at the start of the line, or at a
break. -/
structure Behind (front : Text) (left : LineScan) : Prop where
  depth : left.depth = balance front
  start : front = [] ∨ left.AtBreak

theorem Behind.balance_le {front : Text} {left : LineScan} (h : Behind front left)
    (hrest : left.rest ≠ []) : balance front ≤ 0 := by
  rcases h.start with rfl | hbreak
  · exact Int.le_refl 0
  · rw [← h.depth]
    exact hbreak.depth_le hrest

/-- The piece of a pull is a run of the line. -/
theorem Pulls.isRun {front blanks piece : Text} {left after : LineScan}
    (h : Pulls left blanks piece after) (hfront : Behind front left) :
    Span.IsRun (front ++ left.rest)
      ⟨(front ++ blanks).length, (front ++ blanks ++ piece).length⟩ := by
  obtain ⟨c, inner, hpiece, hc⟩ := h.head
  have hrest : left.rest ≠ [] := by simp [h.split, hpiece]
  have hfirst : 0 < piece.length := by simp [hpiece]
  have hlead : balance (front ++ blanks) = left.depth := by
    rw [balance_append, balance_of_blanks h.blank, hfront.depth, Int.add_zero]
  have hline : front ++ left.rest = front ++ blanks ++ (piece ++ after.rest) := by
    simp [h.split]
  constructor
  · simp only [List.length_append]
    omega
  · simp only [hline, List.length_append]
    omega
  · intro i hi hseparator
    obtain ⟨hstart, hstop⟩ := hi
    obtain ⟨j, rfl⟩ := Nat.exists_eq_add_of_le hstart
    have hj : j < piece.length := by
      simp only [List.length_append] at hstop
      omega
    rw [hline, isSeparatorAt_append_iff, List.getElem?_append_left hj,
      List.take_append_of_le_length (Nat.le_of_lt hj), hlead] at hseparator
    obtain ⟨d, hd, hblank, hle⟩ := hseparator
    have hpos := h.unbroken.getElem? hd hblank
    omega
  · cases hblanks : blanks with
    | nil =>
        -- No blank was skipped, so the pull started at the start of the line.
        left
        rcases hfront.start with rfl | hbreak
        · rfl
        · have hhead := hbreak c (inner ++ after.rest) (by simp [h.split, hblanks, hpiece])
          rw [hhead.1] at hc
          contradiction
    | cons d blanks' =>
        right
        rw [← hblanks, h.split, List.append_assoc]
        have hlength : 0 < blanks.length := by simp [hblanks]
        apply isSeparatorAt_of_blanks (hfront.balance_le hrest) h.blank
        · simp only [List.length_append]
          omega
        · simp only [List.length_append]
          omega
  · cases hafter : after.rest with
    | nil =>
        left
        rw [hline, hafter, List.append_nil]
    | cons d rest =>
        right
        obtain ⟨hd, hdepth⟩ := h.atBreak d rest hafter
        rw [hline, ← List.append_assoc, hafter]
        have hseparator := isSeparatorAt_append_iff (front ++ blanks ++ piece) (d :: rest) 0
        rw [Nat.add_zero] at hseparator
        refine hseparator.2 ⟨d, rfl, hd, ?_⟩
        rw [List.take_zero, balance, balance_append, hlead, ← h.depth]
        omega

theorem Pulls.behind {front blanks piece : Text} {left after : LineScan}
    (h : Pulls left blanks piece after) (hfront : Behind front left) :
    Behind (front ++ blanks ++ piece) after := by
  constructor
  · rw [h.depth, balance_append, balance_append, balance_of_blanks h.blank, hfront.depth,
      Int.add_zero]
  · exact .inr h.atBreak

/-- The pieces that are left are the texts of the runs that are left. -/
theorem exists_cover {front : Text} {left : LineScan} (hfront : Behind front left) :
    ∃ spans, left.toList = spans.map (Span.text (front ++ left.rest)) ∧
      Span.Cover (front ++ left.rest) front.length spans := by
  fun_induction toList left generalizing front with
  | case1 left hnext =>
      refine ⟨[], rfl, by simp, by simp, .nil, ?_⟩
      intro i hstart hi hspoken
      -- Only blanks are left, so there is no other position.
      have hblanks := blank_of_next?_none hnext
      have hrest : left.rest ≠ [] := by
        intro hnil
        rw [hnil, List.append_nil] at hi
        omega
      have hseparator := isSeparatorAt_of_blanks (hfront.balance_le hrest) hblanks [] hstart hi
      rw [List.append_nil] at hseparator
      exact absurd hseparator hspoken
  | case2 left piece after hnext _ ih =>
      obtain ⟨blanks, hpulls⟩ := pulls_of_next? hnext
      have hline : front ++ left.rest = front ++ blanks ++ piece ++ after.rest := by
        simp [hpulls.split]
      obtain ⟨spans, htexts, hcover⟩ := ih (hpulls.behind hfront)
      rw [← hline] at htexts hcover
      refine ⟨⟨(front ++ blanks).length, (front ++ blanks ++ piece).length⟩ :: spans, ?_, ?_⟩
      · rw [List.map_cons, ← htexts, hline, Span.text_between]
      · apply hcover.cons (hpulls.isRun hfront)
        · simp
        · intro i hstart hi
          obtain ⟨c, inner, hpiece, -⟩ := hpulls.head
          have hrest : left.rest ≠ [] := by simp [hpulls.split, hpiece]
          rw [hpulls.split, List.append_assoc]
          exact isSeparatorAt_of_blanks (hfront.balance_le hrest) hpulls.blank _ hstart hi

/-- Every piece is taken by a pull from an end of the line. -/
theorem exists_pulls_of_mem {left : LineScan} {piece : Text} (h : piece ∈ left.toList) :
    ∃ before blanks after, Pulls before blanks piece after ∧ before.rest <:+ left.rest := by
  fun_induction toList left with
  | case1 left hnext => contradiction
  | case2 left first after hnext _ ih =>
      obtain ⟨blanks, hpulls⟩ := pulls_of_next? hnext
      rcases List.mem_cons.1 h with rfl | hlater
      · exact ⟨left, blanks, after, hpulls, List.suffix_rfl⟩
      · obtain ⟨before, blanks', after', hpulls', hsuffix⟩ := ih hlater
        refine ⟨before, blanks', after', hpulls', hsuffix.trans ?_⟩
        rw [hpulls.split]
        exact List.suffix_append _ _

/-! ## Pull after pull -/

/-- Pull once: the next piece if there is one, and the state after it.  A pull that finds no piece
leaves the state as it is. -/
def pull (left : LineScan) : Option Text × LineScan :=
  match left.next? with
  | none => (none, left)
  | some (piece, after) => (some piece, after)

/-- The state after a number of pulls. -/
def afterPulls : Nat → LineScan → LineScan
  | 0, left => left
  | count + 1, left => afterPulls count left.pull.2

/-- Pulls give the pieces in order, and nothing after the last. -/
theorem pull_afterPulls (count : Nat) (left : LineScan) :
    (afterPulls count left).pull.1 = left.toList[count]? := by
  induction count generalizing left with
  | zero =>
      rw [afterPulls, pull]
      cases hnext : left.next? with
      | none => rw [toList_of_none hnext]; rfl
      | some found => rw [toList_of_some hnext]; rfl
  | succ count ih =>
      rw [afterPulls, ih, pull]
      cases hnext : left.next? with
      | none =>
          dsimp only
          rw [toList_of_none hnext]
          rfl
      | some found =>
          rw [toList_of_some hnext]
          rfl

/-! ## Lines put together -/

/-- The pieces with one blank between neighbours split into the pieces again. -/
theorem toList_joinWith {c : Char} (hc : isBlank c = true) {left : LineScan}
    (hdepth : left.depth ≤ 0) :
    toList ⟨Text.joinWith [c] left.toList, left.depth⟩ = left.toList := by
  fun_induction toList left with
  | case1 left hnext => exact toList_of_none rfl
  | case2 left piece after hnext _ ih =>
      obtain ⟨blanks, hpulls⟩ := pulls_of_next? hnext
      obtain ⟨d, inner, hpiece, -⟩ := hpulls.head
      have hnonempty : piece ≠ [] := by simp [hpiece]
      cases hlater : after.toList with
      | nil => exact toList_of_unbroken hdepth hnonempty hpulls.unbroken
      | cons next later =>
          -- Another piece follows, so this one ended at a blank outside brackets.
          have hrest : after.rest ≠ [] := by
            intro hnil
            have hnone : after.next? = none := by simp [next?, hnil, Text.trimStart]
            rw [toList_of_none hnone] at hlater
            contradiction
          have hend := hpulls.atBreak.depth_le hrest
          have hrejoined := ih hend
          rw [hlater] at hrejoined
          rw [hpulls.depth] at hend hrejoined
          rw [Text.joinWith, List.append_assoc, List.cons_append, List.nil_append,
            toList_append_blank hdepth hnonempty hpulls.unbroken hend hc, hrejoined]

theorem toList_append_blanks {blanks : Text} (h : ∀ c ∈ blanks, isBlank c = true) (rest : Text)
    (depth : Int) : toList ⟨blanks ++ rest, depth⟩ = toList ⟨rest, depth⟩ := by
  induction blanks with
  | nil => rfl
  | cons c blanks ih =>
      obtain ⟨hc, hblanks⟩ := List.forall_mem_cons.1 h
      rw [List.cons_append, toList_cons_blank hc, ih hblanks]

/-- A text without brackets left open splits by itself when a blank follows; the depth that it ends
with is carried on. -/
theorem toList_append_of_balance_le {c : Char} (hc : isBlank c = true) (rest : Text)
    {left : LineScan} (hdepth : left.depth ≤ 0) (hbalance : left.depth + balance left.rest ≤ 0) :
    toList ⟨left.rest ++ c :: rest, left.depth⟩ =
      left.toList ++ toList ⟨rest, left.depth + balance left.rest⟩ := by
  fun_induction toList left with
  | case1 left hnext =>
      have hblanks := blank_of_next?_none hnext
      rw [toList_append_blanks hblanks, toList_cons_blank hc, balance_of_blanks hblanks,
        Int.add_zero, List.nil_append]
  | case2 left piece after hnext _ ih =>
      obtain ⟨blanks, hpulls⟩ := pulls_of_next? hnext
      obtain ⟨d, inner, hpiece, -⟩ := hpulls.head
      have hnonempty : piece ≠ [] := by simp [hpiece]
      have hlater : after.depth + balance after.rest = left.depth + balance left.rest := by
        rw [hpulls.split, balance_append, balance_append, balance_of_blanks hpulls.blank,
          hpulls.depth]
        omega
      rw [← hlater] at hbalance ⊢
      -- Whether the piece ended at a blank or at the end of the text, a blank follows it now.
      obtain ⟨e, tail, htail, he, hend⟩ : ∃ e tail, after.rest ++ c :: rest = e :: tail ∧
          isBlank e = true ∧ after.depth ≤ 0 := by
        cases hafter : after.rest with
        | nil =>
            rw [hafter, balance] at hbalance
            exact ⟨c, rest, rfl, hc, by omega⟩
        | cons e tail =>
            obtain ⟨he, hle⟩ := hpulls.atBreak e tail hafter
            exact ⟨e, tail ++ c :: rest, rfl, he, hle⟩
      have hrest := ih hend hbalance
      rw [htail, toList_cons_blank he, hpulls.depth] at hrest
      rw [hpulls.depth] at hend ⊢
      rw [hpulls.split, List.append_assoc, List.append_assoc, htail,
        toList_append_blanks hpulls.blank,
        toList_append_blank hdepth hnonempty hpulls.unbroken hend he, hrest, List.cons_append]

/-- A text whose brackets balance splits by itself when a blank follows. -/
theorem toList_append_of_balance {c : Char} (hc : isBlank c = true) (rest : Text)
    {left : LineScan} (hdepth : left.depth ≤ 0) (hbalance : left.depth + balance left.rest = 0) :
    toList ⟨left.rest ++ c :: rest, left.depth⟩ = left.toList ++ toList ⟨rest, 0⟩ := by
  rw [toList_append_of_balance_le hc rest hdepth (Int.le_of_eq hbalance), hbalance]

end LineScan

/-- The pieces of a line are its runs in order: every position that is no separator lies in exactly
one of them, and no separator lies in any.  Every piece starts with no blank, and pulls give
the pieces one by one and then nothing any more.  The pieces joined by one space split into
the same pieces, and behind a line whose brackets balance, blanks start a line of its own. -/
theorem piecesOf_eq_runs (line : Text) :
    (∃ spans : List Span,
      (∀ span, span ∈ spans ↔ span.IsRun line) ∧
      spans.Pairwise (fun first second => first.stop < second.start) ∧
      (∀ i, i < line.length → ¬ IsSeparatorAt line i → ∃! span, span ∈ spans ∧ span.Holds i) ∧
      (∀ i, IsSeparatorAt line i → ∀ span ∈ spans, ¬ span.Holds i) ∧
      piecesOf line = spans.map (Span.text line)) ∧
    (∀ piece ∈ piecesOf line, ∃ c rest, piece = c :: rest ∧ isBlank c = false) ∧
    (∀ count, (LineScan.afterPulls count (.ofLine line)).pull.1 = (piecesOf line)[count]?) ∧
    piecesOf (Text.joinWith [' '] (piecesOf line)) = piecesOf line ∧
    ∀ blanks second, line.count '[' = line.count ']' → blanks ≠ [] →
      (∀ c ∈ blanks, isBlank c = true) →
      piecesOf (line ++ blanks ++ second) = piecesOf line ++ piecesOf second := by
  have hzero : (LineScan.ofLine line).depth ≤ 0 := Int.le_refl 0
  refine ⟨?_, ?_, ?_, ?_, ?_⟩
  · have hstart : LineScan.Behind [] (.ofLine line) := ⟨rfl, .inl rfl⟩
    obtain ⟨spans, htexts, hcover⟩ := LineScan.exists_cover hstart
    refine ⟨spans, hcover.mem_iff, hcover.ordered, ?_, ?_, htexts⟩
    · intro i hi hspoken
      obtain ⟨span, hmem, hholds⟩ := hcover.covers i (Nat.zero_le i) hi hspoken
      refine ⟨span, ⟨hmem, hholds⟩, ?_⟩
      intro other hother
      obtain ⟨hmem', hholds'⟩ := hother
      exact (hcover.runs other hmem').eq_of_holds (hcover.runs span hmem) hholds' hholds
    · intro i hseparator span hmem hholds
      exact (hcover.runs span hmem).unseparated i hholds hseparator
  · intro piece hmem
    obtain ⟨_, _, _, hpulls, -⟩ := LineScan.exists_pulls_of_mem hmem
    exact hpulls.head
  · intro count
    exact LineScan.pull_afterPulls count (.ofLine line)
  · have hspace : isBlank ' ' = true := by decide
    exact LineScan.toList_joinWith hspace hzero
  · intro blanks second hcount hnonempty hblanks
    cases blanks with
    | nil => contradiction
    | cons c blanks =>
        obtain ⟨hc, hrest⟩ := List.forall_mem_cons.1 hblanks
        have hline : (LineScan.ofLine line).depth + balance (LineScan.ofLine line).rest = 0 := by
          show 0 + balance line = 0
          rw [LineScan.balance_eq_count]
          omega
        have happend := LineScan.toList_append_of_balance hc (blanks ++ second) hzero hline
        rw [LineScan.toList_append_blanks hrest] at happend
        rw [List.append_assoc]
        exact happend

/-- The line `] [a` has as many opening as closing brackets, though neither closes the other. -/
theorem piecesOf_stray_brackets :
    "] [a".toList.count '[' = "] [a".toList.count ']' ∧
      piecesOf ("] [a".toList ++ [' '] ++ "b c".toList) =
        piecesOf "] [a".toList ++ piecesOf "b c".toList := by
  have hcount : "] [a".toList.count '[' = "] [a".toList.count ']' := by decide
  have hblanks : ∀ c ∈ [' '], Text.isBlank c = true := List.forall_mem_singleton.2 (by decide)
  obtain ⟨_, _, _, _, happend⟩ := piecesOf_eq_runs "] [a".toList
  exact ⟨hcount, happend [' '] "b c".toList hcount (List.cons_ne_nil _ _) hblanks⟩

end CrochetShorthand
