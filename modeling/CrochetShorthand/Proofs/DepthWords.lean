import CrochetShorthand.Proofs.Overflow
import CrochetShorthand.Proofs.Quoting
import CrochetShorthand.Report

/-!
# Depths in words of 32 bits

`LineScan` holds the bracket depth of a line as an integer.  The word for it has 32 bits and a sign,
and 2147483648 brackets in one direction are too many for it.  Here a line is split with that word,
and its pieces are read, unfolded, worked and shown as in a report.

A build that checks its arithmetic stops where the word is too small, and what was shown by then
stands.  Any other build goes on with the lowest 32 bits, and may then take a blank inside brackets
for one outside them, or the other way round.  As long as a line has few brackets, both do what
its report says (`Emission.ofLine_eq_ofReport`).
-/

namespace CrochetShorthand

open Command (isComment groupParts?)
open LineScan (balance)
open Text (isBlank)

/-- Why the work on a line ends early. -/
inductive Interrupt
  | fault (fault : Fault)
  /-- The build stops. -/
  | stop
deriving DecidableEq, Repr

/-! ## Splitting -/

theorem Text.trimStart_append {t : Text} {c : Char} {rest : Text}
    (h : Text.trimStart t = c :: rest) (more : Text) :
    Text.trimStart (t ++ more) = c :: rest ++ more := by
  rw [Text.trimStart] at h ⊢
  rw [List.dropWhile_append, h]
  rfl

theorem LineScan.balance_trimStart (t : Text) : balance (Text.trimStart t) = balance t := by
  have hblank : ∀ c ∈ t.takeWhile isBlank, isBlank c = true :=
    List.all_eq_true.1 List.all_takeWhile
  have hsplit : t = t.takeWhile isBlank ++ Text.trimStart t :=
    List.takeWhile_append_dropWhile.symm
  conv => rhs; rw [hsplit]
  rw [balance_append, balance_of_blanks hblank, Int.zero_add]

/-- What is left of a line, and the word with the bracket depth there. -/
structure WordScan where
  rest : Text
  depth : Int32
deriving DecidableEq, Repr

namespace WordScan

/-- The whole line is left, outside any bracket. -/
def ofLine (line : Text) : WordScan :=
  ⟨line, 0⟩

/-- The characters up to the first blank outside brackets, and the state there; `none` when the
build stops. -/
def scan? (overflow : Overflow) (depth : Int32) : Text → Option (Text × WordScan)
  | [] => some ([], ⟨[], depth⟩)
  | c :: rest =>
      if isBlank c && depth ≤ 0 then some ([], ⟨c :: rest, depth⟩)
      else
        match overflow.signed32? (depth.toInt + LineScan.depthChange c) with
        | none => none
        | some next =>
            (scan? overflow next rest).map fun scanned => (c :: scanned.1, scanned.2)

/-- A scan ends at the first character, or goes over it. -/
theorem scan?_cons_eq_some {overflow : Overflow} {depth : Int32} {c : Char} {t piece : Text}
    {after : WordScan} (h : scan? overflow depth (c :: t) = some (piece, after)) :
    ((isBlank c && decide (depth ≤ 0)) = true ∧ piece = [] ∧ after = ⟨c :: t, depth⟩) ∨
      ((isBlank c && decide (depth ≤ 0)) = false ∧
        ∃ next inner, overflow.signed32? (depth.toInt + LineScan.depthChange c) = some next ∧
          scan? overflow next t = some (inner, after) ∧ piece = c :: inner) := by
  rw [scan?] at h
  split at h
  · rename_i hstop
    obtain ⟨rfl, rfl⟩ := Prod.mk.inj (Option.some.inj h)
    exact .inl ⟨hstop, rfl, rfl⟩
  · rename_i hgo
    split at h
    · contradiction
    · rename_i next hnext
      obtain ⟨⟨inner, reached⟩, hscan, heq⟩ := Option.map_eq_some_iff.1 h
      obtain ⟨rfl, rfl⟩ := Prod.mk.inj heq
      exact .inr ⟨Bool.eq_false_iff.2 hgo, next, inner, hnext, hscan, rfl⟩

/-- A scan that goes over its first character stops there, or goes on with the next depth. -/
theorem scan?_cons_of_go {depth : Int32} {c : Char}
    (hgo : (isBlank c && decide (depth ≤ 0)) = false) (overflow : Overflow) (t : Text) :
    scan? overflow depth (c :: t) =
      (overflow.signed32? (depth.toInt + LineScan.depthChange c)).bind fun next =>
        (scan? overflow next t).map fun scanned => (c :: scanned.1, scanned.2) := by
  rw [scan?, hgo, if_neg Bool.false_ne_true]
  cases overflow.signed32? (depth.toInt + LineScan.depthChange c) <;> rfl

theorem scan?_length {overflow : Overflow} {depth : Int32} {t piece : Text} {after : WordScan}
    (h : scan? overflow depth t = some (piece, after)) :
    piece.length + after.rest.length = t.length := by
  induction t generalizing depth piece with
  | nil =>
      obtain ⟨rfl, rfl⟩ := Prod.mk.inj (Option.some.inj h)
      rfl
  | cons c t ih =>
      rcases scan?_cons_eq_some h with ⟨-, rfl, rfl⟩ | ⟨-, next, inner, -, hscan, rfl⟩
      · simp
      · rw [List.length_cons, List.length_cons, ← ih hscan]
        omega

/-- A piece that starts with no blank takes at least one character. -/
theorem scan?_rest_length {overflow : Overflow} {depth : Int32} {c : Char} {t piece : Text}
    {after : WordScan} (hc : isBlank c = false)
    (h : scan? overflow depth (c :: t) = some (piece, after)) :
    after.rest.length < (c :: t).length := by
  have hlength := scan?_length h
  rcases scan?_cons_eq_some h with ⟨hstop, -, -⟩ | ⟨-, next, inner, -, -, rfl⟩
  · rw [hc] at hstop
    contradiction
  · rw [List.length_cons] at hlength
    omega

/-- What pulls give, in order: the pieces that are left, up to the one at which the build stops. -/
def toList (overflow : Overflow) (left : WordScan) : List (Except Interrupt Text) :=
  match htrim : Text.trimStart left.rest with
  | [] => []
  | c :: rest =>
      match hscan : scan? overflow left.depth (c :: rest) with
      | none => [.error .stop]
      | some (piece, after) =>
          have : after.rest.length < left.rest.length :=
            Nat.lt_of_lt_of_le
              (scan?_rest_length (LineScan.isBlank_of_trimStart_eq_cons htrim) hscan)
              (htrim ▸ LineScan.trimStart_length_le left.rest)
          .ok piece :: toList overflow after
termination_by left.rest.length

theorem toList_of_blank {overflow : Overflow} {left : WordScan}
    (htrim : Text.trimStart left.rest = []) : toList overflow left = [] := by
  rw [toList]
  split <;> simp_all

theorem toList_of_none {overflow : Overflow} {left : WordScan} {c : Char} {rest : Text}
    (htrim : Text.trimStart left.rest = c :: rest)
    (hscan : scan? overflow left.depth (c :: rest) = none) :
    toList overflow left = [.error .stop] := by
  rw [toList]
  split
  · simp_all
  · rename_i hcons
    obtain ⟨rfl, rfl⟩ := List.cons.inj (hcons.symm.trans htrim)
    split <;> simp_all

theorem toList_of_some {overflow : Overflow} {left after : WordScan} {c : Char}
    {rest piece : Text} (htrim : Text.trimStart left.rest = c :: rest)
    (hscan : scan? overflow left.depth (c :: rest) = some (piece, after)) :
    toList overflow left = .ok piece :: toList overflow after := by
  rw [toList]
  split
  · simp_all
  · rename_i hcons
    obtain ⟨rfl, rfl⟩ := List.cons.inj (hcons.symm.trans htrim)
    split <;> simp_all

/-! ### A line that goes on -/

/-- Where the build stops, it stops whatever follows. -/
theorem scan?_append_of_none {overflow : Overflow} {depth : Int32} {t : Text}
    (h : scan? overflow depth t = none) (rest : Text) : scan? overflow depth (t ++ rest) = none := by
  induction t generalizing depth with
  | nil => contradiction
  | cons c t ih =>
      by_cases hstop : (isBlank c && decide (depth ≤ 0)) = true
      · rw [scan?, if_pos hstop] at h
        contradiction
      · have hgo := Bool.eq_false_iff.2 hstop
        rw [scan?_cons_of_go hgo, Option.bind_eq_none_iff] at h
        rw [List.cons_append, scan?_cons_of_go hgo, Option.bind_eq_none_iff]
        intro next hnext
        rw [ih (Option.map_eq_none_iff.1 (h next hnext)), Option.map_none]

/-- A piece stays as it is when a blank follows what is left, unless it ends inside brackets. -/
theorem scan?_append_of_some {overflow : Overflow} {depth : Int32} {t piece : Text}
    {after : WordScan} (h : scan? overflow depth t = some (piece, after)) {c : Char}
    (hc : isBlank c = true) (hend : after.rest = [] → after.depth ≤ 0) (rest : Text) :
    scan? overflow depth (t ++ c :: rest) =
      some (piece, ⟨after.rest ++ c :: rest, after.depth⟩) := by
  induction t generalizing depth piece with
  | nil =>
      obtain ⟨rfl, rfl⟩ := Prod.mk.inj (Option.some.inj h)
      have hstop : (isBlank c && decide (depth ≤ 0)) = true := by simp [hc, hend rfl]
      rw [List.nil_append, scan?, if_pos hstop]
  | cons d t ih =>
      rcases scan?_cons_eq_some h with ⟨hstop, rfl, rfl⟩ | ⟨hgo, next, inner, hnext, hscan, rfl⟩
      · rw [List.cons_append, scan?, if_pos hstop]
      · rw [List.cons_append, scan?_cons_of_go hgo, hnext, Option.bind_some, ih hscan,
          Option.map_some]

/-- The depth with which the line ends stays the same from pull to pull. -/
theorem held32_of_scan? {overflow : Overflow} {depth : Int32} {t piece : Text} {after : WordScan}
    (h : scan? overflow depth t = some (piece, after)) :
    overflow.held32 (after.depth.toInt + balance after.rest) =
      overflow.held32 (depth.toInt + balance t) := by
  induction t generalizing depth piece with
  | nil =>
      obtain ⟨rfl, rfl⟩ := Prod.mk.inj (Option.some.inj h)
      rfl
  | cons c t ih =>
      rcases scan?_cons_eq_some h with ⟨-, rfl, rfl⟩ | ⟨-, next, inner, hnext, hscan, rfl⟩
      · rfl
      · rw [ih hscan, Overflow.toInt_of_signed32? hnext, Overflow.held32_held32_add, balance,
          Int.add_assoc]

/-- When a line that ends outside brackets goes on behind a blank, pulls give what they gave before,
and then what is left. -/
theorem exists_toList_append {overflow : Overflow} {c : Char} (hc : isBlank c = true) (rest : Text)
    {left : WordScan}
    (hbalance : overflow.held32 (left.depth.toInt + balance left.rest) ≤ 0) :
    ∃ later, toList overflow ⟨left.rest ++ c :: rest, left.depth⟩ =
      toList overflow left ++ later := by
  fun_induction toList overflow left with
  | case1 left htrim => exact ⟨_, rfl⟩
  | case2 left d tail htrim hscan =>
      -- The build stops before it comes to what follows.
      have htrim' := Text.trimStart_append htrim (c :: rest)
      exact ⟨[], toList_of_none htrim' (scan?_append_of_none hscan _)⟩
  | case3 left d tail htrim piece after hscan _ ih =>
      have htrim' := Text.trimStart_append htrim (c :: rest)
      have hafter : overflow.held32 (after.depth.toInt + balance after.rest) ≤ 0 := by
        rw [held32_of_scan? hscan, ← htrim, LineScan.balance_trimStart]
        exact hbalance
      -- Only the last piece could go on into what follows, and it ends where the line does.
      have hend : after.rest = [] → after.depth ≤ 0 := by
        intro hnil
        rw [hnil, balance, Int.add_zero, Overflow.held32_toInt] at hafter
        exact Int32.le_iff_toInt_le.2 hafter
      obtain ⟨later, hlater⟩ := ih hafter
      refine ⟨later, ?_⟩
      have hscan' := scan?_append_of_some hscan hc hend rest
      have hlist := @toList_of_some _ ⟨left.rest ++ c :: rest, _⟩ _ _ _ _ htrim' hscan'
      rw [hlist, hlater, List.cons_append]

end WordScan

/-! ## Reading, working and showing -/

namespace Overflow

open Command (readPieceAt)

/-- What pulls give of the pieces that a line has to say. -/
def spokenPieces (overflow : Overflow) (line : Text) : List (Except Interrupt Text) :=
  if isComment line then [] else (WordScan.ofLine line).toList overflow

/-- Read one piece while `levels` more groups may be nested, out of `limit`.  Only the body of a
group has to be split. -/
def readPieceWithin (overflow : Overflow) (limit : Nat) : Nat → Text → Except Interrupt Command
  | 0, piece => (readPieceAt limit 0 piece).mapError .fault
  | levels + 1, piece =>
      match groupParts? piece with
      | none => (readPieceAt limit (levels + 1) piece).mapError .fault
      | some (body, times) =>
          let commands := (overflow.spokenPieces body).mapM fun pull =>
            pull.bind (overflow.readPieceWithin limit levels)
          commands.map fun commands => .group commands times

/-- Work what pulls give, up to the first interrupt. -/
def workPulls (overflow : Overflow) (limit : Nat) :
    List (Except Interrupt Text) → Progress → Progress × Option Interrupt
  | [], progress => (progress, none)
  | pull :: rest, progress =>
      match pull.bind (overflow.readPieceWithin limit limit) with
      | .error interrupt => (progress, some interrupt)
      | .ok command =>
          match (Unfolding.ofCommand command).foldl Progress.work progress with
          | (reached, some fault) => (reached, some (.fault fault))
          | (reached, none) => overflow.workPulls limit rest reached

end Overflow

/-- What came of a line: the display tokens up to the first interrupt, and the interrupt. -/
structure Emission where
  displays : List Text
  interrupt : Option Interrupt
deriving DecidableEq, Repr

namespace Emission

/-- The last run is flushed when nothing interrupted the work. -/
def ofProgress : Progress × Option Interrupt → Emission
  | (progress, some interrupt) => ⟨progress.displays, some interrupt⟩
  | (progress, none) => ⟨progress.flush.displays, none⟩

/-- What comes of one line, worked from the start. -/
def ofLine (overflow : Overflow) (limit : Nat) (line : Text) : Emission :=
  ofProgress (overflow.workPulls limit (overflow.spokenPieces line) Progress.start)

/-- What a report says, the build not having stopped. -/
def ofReport (report : Report) : Emission :=
  ⟨report.displays, report.fault.map .fault⟩

end Emission

/-! ## Few brackets -/

/-- A text with no more brackets than a word of 32 bits can count. -/
def Text.FewBrackets (t : Text) : Prop :=
  (t.count '[' + t.count ']' : Int) ≤ Int32.maxValue.toInt

theorem Text.FewBrackets.of_infix {t part : Text} (h : FewBrackets t) (hpart : part <:+: t) :
    FewBrackets part := by
  have hopen := hpart.sublist.count_le '['
  have hclose := hpart.sublist.count_le ']'
  unfold FewBrackets at h ⊢
  omega

/-- With few brackets the word holds the balance itself. -/
theorem Text.FewBrackets.held32_balance {t : Text} (h : FewBrackets t) (overflow : Overflow) :
    overflow.held32 ((t.count '[' : Int) - t.count ']') = (t.count '[' : Int) - t.count ']' := by
  unfold FewBrackets at h
  rw [Int32.toInt_maxValue] at h
  refine overflow.held32_of_range ?_ ?_
  · rw [Int32.toInt_minValue]
    omega
  · rw [Int32.toInt_maxValue]
    omega

namespace LineScan

/-- No bracket that is left takes the depth out of a word of 32 bits. -/
structure Fits (left : LineScan) : Prop where
  least : Int32.minValue.toInt ≤ left.depth - left.rest.count ']'
  greatest : left.depth + left.rest.count '[' ≤ Int32.maxValue.toInt

/-- The same with the depth in a word. -/
def inWord (left : LineScan) : WordScan :=
  ⟨left.rest, Int32.ofInt left.depth⟩

theorem Fits.toInt_ofInt {left : LineScan} (h : Fits left) :
    (Int32.ofInt left.depth).toInt = left.depth := by
  obtain ⟨hleast, hgreatest⟩ := h
  exact Overflow.toInt_ofInt_of_range (by omega) (by omega)

theorem Fits.signed32? {left : LineScan} (h : Fits left) (overflow : Overflow) :
    overflow.signed32? left.depth = some (Int32.ofInt left.depth) := by
  rw [← Overflow.signed32?_toInt overflow (Int32.ofInt left.depth), h.toInt_ofInt]

theorem Fits.trimStart {left : LineScan} (h : Fits left) :
    Fits ⟨Text.trimStart left.rest, left.depth⟩ := by
  obtain ⟨hleast, hgreatest⟩ := h
  have hsublist : (Text.trimStart left.rest).Sublist left.rest := List.dropWhile_sublist isBlank
  have hopen := hsublist.count_le '['
  have hclose := hsublist.count_le ']'
  constructor
  · dsimp only
    omega
  · dsimp only
    omega

theorem Fits.cons {depth : Int} {c : Char} {t : Text} (h : Fits ⟨c :: t, depth⟩) :
    Fits ⟨t, depth + depthChange c⟩ := by
  obtain ⟨hleast, hgreatest⟩ := h
  rw [List.count_cons] at hleast hgreatest
  rw [depthChange]
  by_cases hopen : c = '['
  · subst hopen
    constructor <;> simp_all <;> omega
  · by_cases hclose : c = ']'
    · subst hclose
      constructor <;> simp_all <;> omega
    · constructor <;> simp_all

theorem Fits.scan {depth : Int} {t : Text} (h : Fits ⟨t, depth⟩) : Fits (scan depth t).2 := by
  induction t generalizing depth with
  | nil => exact h
  | cons c t ih =>
      rw [LineScan.scan]
      split
      · exact h
      · exact ih h.cons

/-- Where the depths fit, both kinds of builds scan as with integers. -/
theorem Fits.scan? {depth : Int} {t : Text} (h : Fits ⟨t, depth⟩) (overflow : Overflow) :
    WordScan.scan? overflow (Int32.ofInt depth) t =
      some ((LineScan.scan depth t).1, (LineScan.scan depth t).2.inWord) := by
  induction t generalizing depth with
  | nil => rfl
  | cons c t ih =>
      have hdepth : (Int32.ofInt depth).toInt = depth := h.toInt_ofInt
      have hnext := h.cons.signed32? overflow
      have hle : Int32.ofInt depth ≤ 0 ↔ depth ≤ 0 := by
        rw [Int32.le_iff_toInt_le, hdepth]
        rfl
      rw [WordScan.scan?, LineScan.scan, hdepth]
      simp only [hle]
      split
      · rfl
      · dsimp only at hnext
        rw [hnext]
        dsimp only
        rw [ih h.cons, Option.map_some]

/-- Where the depths fit, pulls give the pieces and no build stops. -/
theorem Fits.toList {left : LineScan} (h : Fits left) (overflow : Overflow) :
    left.inWord.toList overflow = left.toList.map .ok := by
  fun_induction LineScan.toList left with
  | case1 left hnext =>
      rw [next?] at hnext
      split at hnext
      · rename_i htrim
        rw [WordScan.toList_of_blank htrim, List.map_nil]
      · contradiction
  | case2 left piece after hnext _ ih =>
      rw [next?] at hnext
      split at hnext
      · contradiction
      · rename_i c rest htrim
        have hfits : Fits ⟨c :: rest, left.depth⟩ := htrim ▸ h.trimStart
        have hscan := hfits.scan? overflow
        have hafter := hfits.scan
        rw [Option.some.inj hnext] at hscan hafter
        have hlist := @WordScan.toList_of_some overflow left.inWord _ c rest piece htrim hscan
        rw [hlist, ih hafter, List.map_cons]

end LineScan

namespace Overflow

open Command (readPieceAt)

theorem spokenPieces_of_few {line : Text} (h : line.FewBrackets) (overflow : Overflow) :
    overflow.spokenPieces line = (Command.spokenPieces line).map .ok := by
  have hstart : (LineScan.ofLine line).Fits := by
    unfold Text.FewBrackets at h
    rw [Int32.toInt_maxValue] at h
    constructor
    · show Int32.minValue.toInt ≤ 0 - (line.count ']' : Int)
      rw [Int32.toInt_minValue]
      omega
    · show 0 + (line.count '[' : Int) ≤ Int32.maxValue.toInt
      rw [Int32.toInt_maxValue]
      omega
  rw [spokenPieces, Command.spokenPieces]
  split
  · rfl
  · exact hstart.toList overflow

/-- Pulls that all give a piece are read like the pieces, when each of the pieces is. -/
theorem mapM_pulls {read : Text → Except Fault Command} {within : Text → Except Interrupt Command}
    {pieces : List Text} (h : ∀ piece ∈ pieces, within piece = (read piece).mapError .fault) :
    ((pieces.map .ok).mapM fun pull : Except Interrupt Text => pull.bind within) =
      (pieces.mapM read).mapError .fault := by
  induction pieces with
  | nil => rfl
  | cons piece pieces ih =>
      obtain ⟨hpiece, hpieces⟩ := List.forall_mem_cons.1 h
      rw [List.map_cons, List.mapM_cons, List.mapM_cons, Except.bind, hpiece, ih hpieces]
      cases read piece with
      | error fault => rfl
      | ok command => cases pieces.mapM read <;> rfl

/-- A piece with few brackets is read as with integers: so are the bodies of its groups, which
have no more of them. -/
theorem readPieceWithin_of_few (overflow : Overflow) (limit levels : Nat) {piece : Text}
    (h : piece.FewBrackets) :
    overflow.readPieceWithin limit levels piece =
      (readPieceAt limit levels piece).mapError .fault := by
  induction levels generalizing piece with
  | zero => rfl
  | succ levels ih =>
      rw [readPieceWithin]
      split
      · rfl
      · rename_i body times hparts
        have hgroup := (Command.groupParts?_eq_some_iff piece body times).1 hparts
        have hbody := h.of_infix hgroup.body_infix
        have hinner : ∀ inner ∈ Command.spokenPieces body,
            overflow.readPieceWithin limit levels inner =
              (readPieceAt limit levels inner).mapError .fault := by
          intro inner hmem
          exact ih (hbody.of_infix (infix_of_mem_spokenPieces hmem).2)
        rw [Command.readPieceAt_succ_of_groupPiece limit levels hgroup,
          spokenPieces_of_few hbody, mapM_pulls hinner]
        cases (Command.spokenPieces body).mapM (readPieceAt limit levels) <;> rfl

theorem workPulls_of_few (overflow : Overflow) (limit : Nat) {pieces : List Text}
    (h : ∀ piece ∈ pieces, piece.FewBrackets) (progress : Progress) :
    overflow.workPulls limit (pieces.map .ok) progress =
      ((progress.workPieces limit pieces).1,
        (progress.workPieces limit pieces).2.map .fault) := by
  induction pieces generalizing progress with
  | nil => rfl
  | cons piece pieces ih =>
      obtain ⟨hpiece, hpieces⟩ := List.forall_mem_cons.1 h
      rw [List.map_cons, workPulls, Except.bind, readPieceWithin_of_few overflow limit limit hpiece,
        Progress.workPieces, Command.readPiece]
      cases readPieceAt limit limit piece with
      | error fault => rfl
      | ok command =>
          dsimp only [Except.mapError]
          obtain ⟨reached, fault⟩ := (Unfolding.ofCommand command).foldl Progress.work progress
          cases fault with
          | some fault => rfl
          | none => exact ih hpieces reached

end Overflow

/-- A line with few brackets is worked as its report says, in builds of both kinds. -/
theorem Emission.ofLine_eq_ofReport {line : Text} (h : line.FewBrackets) (overflow : Overflow)
    (limit : Nat) : ofLine overflow limit line = ofReport (Report.ofLine limit line) := by
  have hpieces : ∀ piece ∈ Command.spokenPieces line, piece.FewBrackets := by
    intro piece hmem
    exact h.of_infix (infix_of_mem_spokenPieces hmem).2
  rw [ofLine, Overflow.spokenPieces_of_few h, Overflow.workPulls_of_few overflow limit hpieces,
    Report.ofLine, Progress.workLine]
  obtain ⟨reached, fault⟩ := Progress.start.workPieces limit (Command.spokenPieces line)
  cases fault <;> rfl

end CrochetShorthand
