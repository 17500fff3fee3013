import CrochetShorthand.Line

/-!
# Brackets and pieces

The balance of a text is what it adds to the bracket depth.  A text is unbroken at a depth
when none of its blanks ends a piece there, and it is whole when it is unbroken outside
brackets, not empty, and brings the depth back to zero.

Splitting takes an unbroken text in one go (`scan_append`).  Whole texts that stand between
blanks are therefore just the pieces of their line (`piecesOf_joinWith`).
-/

namespace CrochetShorthand

namespace LineScan

open Text (isBlank)

/-- Opening brackets less closing brackets. -/
def balance : Text → Int
  | [] => 0
  | c :: rest => depthChange c + balance rest

/-- No blank of the text stands outside brackets, when the text starts at the given depth. -/
def Unbroken (depth : Int) : Text → Prop
  | [] => True
  | c :: rest => (isBlank c = true → 0 < depth) ∧ Unbroken (depth + depthChange c) rest

/-- A text that is one piece wherever it stands between blanks outside brackets. -/
structure Whole (t : Text) : Prop where
  nonempty : t ≠ []
  unbroken : Unbroken 0 t
  balanced : balance t = 0

theorem balance_append (t u : Text) : balance (t ++ u) = balance t + balance u := by
  induction t with
  | nil => simp [balance]
  | cons c t ih =>
      rw [List.cons_append, balance, balance, ih]
      omega

theorem unbroken_append (depth : Int) (t u : Text) :
    Unbroken depth (t ++ u) ↔ Unbroken depth t ∧ Unbroken (depth + balance t) u := by
  induction t generalizing depth with
  | nil => simp [Unbroken, balance]
  | cons c t ih =>
      rw [List.cons_append, Unbroken, Unbroken, ih, balance, and_assoc]
      rw [show depth + depthChange c + balance t = depth + (depthChange c + balance t) by omega]

/-- Deeper inside brackets even fewer blanks end a piece. -/
theorem Unbroken.mono {depth deeper : Int} (hle : depth ≤ deeper) {t : Text}
    (h : Unbroken depth t) : Unbroken deeper t := by
  induction t generalizing depth deeper with
  | nil => trivial
  | cons c t ih =>
      obtain ⟨hblank, hrest⟩ := h
      refine ⟨fun hc => ?_, ih (by omega) hrest⟩
      have hpos := hblank hc
      omega

/-- Outside brackets an unbroken text starts with no blank. -/
theorem Unbroken.head {depth : Int} (hdepth : depth ≤ 0) {c : Char} {rest : Text}
    (h : Unbroken depth (c :: rest)) : isBlank c = false := by
  apply Bool.eq_false_iff.2
  intro hc
  have hpos := h.1 hc
  omega

/-! ## Splitting -/

/-- An unbroken text is taken as it is, and the scan goes on behind it. -/
theorem scan_append {depth : Int} {t : Text} (h : Unbroken depth t) (rest : Text) :
    scan depth (t ++ rest) =
      (t ++ (scan (depth + balance t) rest).1, (scan (depth + balance t) rest).2) := by
  induction t generalizing depth with
  | nil => simp [balance]
  | cons c t ih =>
      obtain ⟨hblank, hrest⟩ := h
      -- A blank in an unbroken text stands inside brackets, where the scan does not stop.
      have hgo : ¬ (isBlank c && decide (depth ≤ 0)) = true := by
        intro hstop
        simp only [Bool.and_eq_true, decide_eq_true_eq] at hstop
        have hpos := hblank hstop.1
        omega
      rw [List.cons_append, scan, if_neg hgo, ih hrest, balance]
      rw [show depth + depthChange c + balance t = depth + (depthChange c + balance t) by omega]
      rfl

theorem toList_of_none {left : LineScan} (h : left.next? = none) : left.toList = [] := by
  rw [toList]
  split <;> simp_all

theorem toList_of_some {left after : LineScan} {piece : Text}
    (h : left.next? = some (piece, after)) : left.toList = piece :: after.toList := by
  rw [toList]
  split <;> simp_all

/-- A blank in front of what is left does not count. -/
theorem toList_cons_blank {c : Char} (hc : isBlank c = true) (rest : Text) (depth : Int) :
    toList ⟨c :: rest, depth⟩ = toList ⟨rest, depth⟩ := by
  have hnext : next? ⟨c :: rest, depth⟩ = next? ⟨rest, depth⟩ := by
    have htrim : Text.trimStart (c :: rest) = Text.trimStart rest := by
      simp [Text.trimStart, hc]
    simp only [next?, htrim]
  cases hrest : next? ⟨rest, depth⟩ with
  | none => rw [toList_of_none hrest, toList_of_none (hnext.trans hrest)]
  | some found => rw [toList_of_some hrest, toList_of_some (hnext.trans hrest)]

theorem next?_of_unbroken {depth : Int} (hdepth : depth ≤ 0) {t : Text} (hnonempty : t ≠ [])
    (h : Unbroken depth t) (rest : Text) :
    next? ⟨t ++ rest, depth⟩ =
      some (t ++ (scan (depth + balance t) rest).1, (scan (depth + balance t) rest).2) := by
  cases t with
  | nil => contradiction
  | cons c t =>
      have hc := h.head hdepth
      rw [← scan_append h rest, next?]
      simp [Text.trimStart, hc]

/-- An unbroken text that ends outside brackets is a piece when a blank follows. -/
theorem toList_append_blank {depth : Int} (hdepth : depth ≤ 0) {t : Text} (hnonempty : t ≠ [])
    (h : Unbroken depth t) (hend : depth + balance t ≤ 0) {c : Char} (hc : isBlank c = true)
    (rest : Text) :
    toList ⟨t ++ c :: rest, depth⟩ = t :: toList ⟨rest, depth + balance t⟩ := by
  have hnext := next?_of_unbroken hdepth hnonempty h (c :: rest)
  -- Behind the text the depth is back outside brackets, so the blank there ends the piece.
  have hstop : (isBlank c && decide (depth + balance t ≤ 0)) = true := by simp [hc, hend]
  rw [scan, if_pos hstop, List.append_nil] at hnext
  rw [toList_of_some hnext, toList_cons_blank hc]

/-- An unbroken text is the last piece when nothing follows. -/
theorem toList_of_unbroken {depth : Int} (hdepth : depth ≤ 0) {t : Text} (hnonempty : t ≠ [])
    (h : Unbroken depth t) : toList ⟨t, depth⟩ = [t] := by
  have hnext := next?_of_unbroken hdepth hnonempty h []
  rw [scan, List.append_nil] at hnext
  rw [toList_of_some hnext, toList_of_none]
  rfl

end LineScan

open LineScan (Whole)

/-- Whole texts with a blank between neighbours are the pieces of their line. -/
theorem piecesOf_joinWith {c : Char} (hc : Text.isBlank c = true) {texts : List Text}
    (h : ∀ t ∈ texts, Whole t) : piecesOf (Text.joinWith [c] texts) = texts := by
  have hzero : (0 : Int) ≤ 0 := Int.le_refl 0
  rw [piecesOf, LineScan.ofLine]
  induction texts with
  | nil => exact LineScan.toList_of_none rfl
  | cons t texts ih =>
      have ht := h t (List.mem_cons_self ..)
      cases texts with
      | nil => exact LineScan.toList_of_unbroken hzero ht.nonempty ht.unbroken
      | cons u texts =>
          have hend : 0 + LineScan.balance t ≤ 0 := by
            rw [ht.balanced]
            exact hzero
          rw [Text.joinWith, List.append_assoc, List.cons_append, List.nil_append,
            LineScan.toList_append_blank hzero ht.nonempty ht.unbroken hend hc, ht.balanced]
          rw [Int.zero_add, ih fun v hv => h v (List.mem_cons_of_mem t hv)]

end CrochetShorthand
