import CrochetShorthand.Proofs.Grammar
import CrochetShorthand.Proofs.Quoting
import Mathlib.Data.List.Infix

/-!
# Lines with unbalanced brackets

The splitter takes any brackets.  What keeps unbalanced ones out is reading: a word holds no
bracket, and a group is one pair of brackets around pieces that are read in turn.  So the brackets
of everything that is read balance.

Comments are left out of the count.  The body of a group that starts with the comment mark may hold
any brackets, since the reader never looks at them.  `Command.spokenBrackets` are the brackets of a
line without those in comments.  A line that cannot hold a comment says all of its brackets.
-/

namespace CrochetShorthand

open Command (GroupPiece commentMark readEach readLine)

/-! ## Balanced texts -/

/-- A bracket of either kind. -/
def isBracket (c : Char) : Bool :=
  c == '[' || c == ']'

/-- Characters of a kind that takes no bracket are none. -/
theorem filter_isBracket_eq_nil {p : Char → Bool} (hp : p '[' = false ∧ p ']' = false) {t : Text}
    (h : ∀ c ∈ t, p c = true) : t.filter isBracket = [] := by
  rw [List.filter_eq_nil_iff]
  intro c hc hbracket
  have hkind := h c hc
  simp only [isBracket, Bool.or_eq_true, beq_iff_eq] at hbracket
  rcases hbracket with rfl | rfl
  · rw [hp.1] at hkind
    contradiction
  · rw [hp.2] at hkind
    contradiction

/-- No closing bracket comes before the bracket that it closes, and every bracket is closed. -/
structure Balanced (t : Text) : Prop where
  closed_le : ∀ front, front <+: t → front.count ']' ≤ front.count '['
  count_eq : t.count '[' = t.count ']'

theorem balanced_iff_inits (t : Text) :
    Balanced t ↔ (∀ front ∈ t.inits, front.count ']' ≤ front.count '[') ∧
      t.count '[' = t.count ']' := by
  simp only [List.mem_inits]
  constructor
  · intro h
    exact ⟨h.closed_le, h.count_eq⟩
  · intro h
    exact ⟨h.1, h.2⟩

instance (t : Text) : Decidable (Balanced t) :=
  decidable_of_iff _ (balanced_iff_inits t).symm

theorem balanced_nil : Balanced [] := by
  decide

theorem Balanced.append {t u : Text} (ht : Balanced t) (hu : Balanced u) : Balanced (t ++ u) := by
  constructor
  · intro front hfront
    rcases List.prefix_or_prefix_of_prefix hfront (List.prefix_append t u) with hinside | hbeyond
    · exact ht.closed_le front hinside
    · obtain ⟨back, rfl⟩ := hbeyond
      have hback := hu.closed_le back ((List.prefix_append_right_inj t).1 hfront)
      have hcount := ht.count_eq
      simp only [List.count_append]
      omega
  · simp only [List.count_append, ht.count_eq, hu.count_eq]

theorem Balanced.flatMap {α : Type} {f : α → Text} {xs : List α} (h : ∀ x ∈ xs, Balanced (f x)) :
    Balanced (xs.flatMap f) := by
  induction xs with
  | nil => exact balanced_nil
  | cons x xs ih =>
      obtain ⟨hx, hxs⟩ := List.forall_mem_cons.1 h
      exact hx.append (ih hxs)

/-- A pair of brackets around a balanced text. -/
theorem Balanced.brackets {t : Text} (h : Balanced t) : Balanced ('[' :: t ++ [']']) := by
  have hcount := h.count_eq
  constructor
  · intro front hfront
    rw [List.cons_append, List.prefix_cons_iff] at hfront
    rcases hfront with rfl | ⟨inside, rfl, hinside⟩
    · exact Nat.le_refl _
    · rcases List.prefix_concat_iff.1 hinside with rfl | hpart
      · simp [hcount]
      · have hle := h.closed_le inside hpart
        rw [List.count_cons_of_ne (by decide), List.count_cons_self]
        omega
  · simp [hcount]

/-- Only the brackets count. -/
theorem balanced_filter_iff (t : Text) : Balanced (t.filter isBracket) ↔ Balanced t := by
  have hopen : ∀ u : Text, (u.filter isBracket).count '[' = u.count '[' :=
    fun _ => List.count_filter rfl
  have hclose : ∀ u : Text, (u.filter isBracket).count ']' = u.count ']' :=
    fun _ => List.count_filter rfl
  constructor
  · intro h
    constructor
    · intro front hfront
      have hle := h.closed_le _ (hfront.filter isBracket)
      rwa [hopen, hclose] at hle
    · rw [← hopen, ← hclose, h.count_eq]
  · intro h
    constructor
    · intro front hfront
      obtain ⟨part, hpart, rfl⟩ := List.prefix_filter_iff.1 hfront
      rw [hopen, hclose]
      exact h.closed_le part hpart
    · rw [hopen, hclose, h.count_eq]

/-! ## The brackets that a line says -/

namespace Command

/-- The brackets of a line in order, without those in comments: neither a line that is a comment
nor a group body that is one says any. -/
def spokenBrackets (line : Text) : Text :=
  (spokenPieces line).attach.flatMap fun ⟨piece, hmem⟩ =>
    match hparts : groupParts? piece with
    | none => piece.filter isBracket
    | some (body, _) =>
        have := ((groupParts?_eq_some_iff _ _ _).1 hparts).length_lt
        have := (infix_of_mem_spokenPieces hmem).2.length_le
        '[' :: spokenBrackets body ++ [']']
termination_by line.length

/-- The brackets of one piece, without those in comments. -/
def pieceBrackets (piece : Text) : Text :=
  match groupParts? piece with
  | none => piece.filter isBracket
  | some (body, _) => '[' :: spokenBrackets body ++ [']']

theorem spokenBrackets_eq (line : Text) :
    spokenBrackets line = (spokenPieces line).flatMap pieceBrackets := by
  rw [spokenBrackets, List.flatMap_subtype (g := pieceBrackets), List.unattach_attach]
  intro piece hmem
  dsimp only [pieceBrackets]
  split
  · rename_i hparts
    rw [hparts]
  · rename_i hparts
    rw [hparts]

theorem pieceBrackets_of_groupPiece {piece body : Text} {times : UInt32}
    (h : GroupPiece piece body times) :
    pieceBrackets piece = '[' :: spokenBrackets body ++ [']'] := by
  rw [pieceBrackets, (groupParts?_eq_some_iff _ _ _).2 h]

theorem filter_isBracket_of_wordDenotes {piece : Text} {command : Command}
    (h : WordDenotes piece command) : piece.filter isBracket = [] := by
  obtain ⟨word, hspells⟩ := exists_spells_of_wordDenotes h
  exact filter_isBracket_eq_nil (by decide) (Word.isWordChar_of_spells hspells)

theorem pieceBrackets_of_wordDenotes {piece : Text} {command : Command}
    (h : WordDenotes piece command) : pieceBrackets piece = [] := by
  unfold pieceBrackets
  split
  · exact filter_isBracket_of_wordDenotes h
  · rename_i hparts
    exact absurd h (not_wordDenotes_of_groupPiece ((groupParts?_eq_some_iff _ _ _).1 hparts))

theorem balanced_spokenBrackets {line : Text}
    (h : ∀ piece ∈ spokenPieces line, Balanced (pieceBrackets piece)) :
    Balanced (spokenBrackets line) := by
  rw [spokenBrackets_eq]
  exact Balanced.flatMap h

/-- The brackets that a piece says balance when it is read. -/
theorem balanced_of_readPieceAt {limit levels : Nat} {piece : Text} {command : Command}
    (h : readPieceAt limit levels piece = .ok command) : Balanced (pieceBrackets piece) := by
  refine readPieceAt_induction (motive := fun _ piece _ => Balanced (pieceBrackets piece)) ?_ ?_ h
  · intro _ _ _ hword
    rw [pieceBrackets_of_wordDenotes hword]
    exact balanced_nil
  · intro _ _ _ _ _ hgroup _ hbody
    rw [pieceBrackets_of_groupPiece hgroup]
    apply Balanced.brackets
    apply balanced_spokenBrackets
    intro inner hinner
    obtain ⟨_, -, hbalanced⟩ := exists_of_forall₂_of_mem hbody.flip hinner
    exact hbalanced

/-- The brackets that a line says balance when all of its pieces are read. -/
theorem balanced_of_readPieces {limit levels : Nat} {line : Text} {commands : List Command}
    (h : (spokenPieces line).mapM (readPieceAt limit levels) = .ok commands) :
    Balanced (spokenBrackets line) := by
  apply balanced_spokenBrackets
  intro piece hmem
  obtain ⟨_, -, hread⟩ := exists_of_forall₂_of_mem ((mapM_eq_ok_iff_forall₂ _ _ _).1 h).flip hmem
  exact balanced_of_readPieceAt hread

/-! ## Lines without comments -/

/-- What is left out between the pieces are blanks, so the pieces have all brackets. -/
theorem flatMap_filter_isBracket_toList (left : LineScan) :
    left.toList.flatMap (List.filter isBracket) = left.rest.filter isBracket := by
  have hblank : Text.isBlank '[' = false ∧ Text.isBlank ']' = false := by decide
  fun_induction LineScan.toList left with
  | case1 left hnext =>
      rw [filter_isBracket_eq_nil hblank (LineScan.blank_of_next?_none hnext)]
      rfl
  | case2 left piece after hnext _ ih =>
      obtain ⟨blanks, hpulls⟩ := LineScan.pulls_of_next? hnext
      rw [List.flatMap_cons, ih, hpulls.split, List.filter_append, List.filter_append,
        filter_isBracket_eq_nil hblank hpulls.blank, List.nil_append]

/-- The mark of a comment body stands behind the opening bracket. -/
theorem GroupPiece.bracket_infix {piece body mark : Text} {times : UInt32}
    (h : GroupPiece piece body times) (hmark : mark <+: body) : '[' :: mark <:+: piece := by
  obtain ⟨rest, rfl⟩ := hmark
  obtain ⟨digits, -, rfl⟩ := h.numeral
  exact ⟨[], rest ++ ']' :: digits, by simp⟩

/-- The count of a group holds no bracket. -/
theorem GroupPiece.filter_isBracket {piece body : Text} {times : UInt32}
    (h : GroupPiece piece body times) :
    piece.filter isBracket = '[' :: body.filter isBracket ++ [']'] := by
  obtain ⟨digits, hnumeral, rfl⟩ := h.numeral
  have hdigits : digits.filter isBracket = [] :=
    filter_isBracket_eq_nil (by decide) hnumeral.run.allDigits
  simp [hdigits, isBracket]

/-- A line says all of its brackets when it is no comment and its pieces do. -/
theorem spokenBrackets_eq_filter_of_pieces {line : Text} (hline : ¬ commentMark <+: line)
    (h : ∀ piece ∈ spokenPieces line, pieceBrackets piece = piece.filter isBracket) :
    spokenBrackets line = line.filter isBracket := by
  rw [spokenBrackets_eq, List.flatMap_congr h, spokenPieces_of_not_comment hline]
  exact flatMap_filter_isBracket_toList (.ofLine line)

/-- A piece without an opening bracket in front of a comment mark says all of its brackets. -/
theorem pieceBrackets_eq_filter {piece : Text} (h : ¬ '[' :: commentMark <:+: piece) :
    pieceBrackets piece = piece.filter isBracket := by
  induction hlength : piece.length using Nat.strongRecOn generalizing piece with
  | ind length ih =>
      unfold pieceBrackets
      split
      · rfl
      · rename_i body times hparts
        have hgroup := (groupParts?_eq_some_iff _ _ _).1 hparts
        have hshorter := hgroup.length_lt
        have hbody : ¬ commentMark <+: body := fun hmark => h (hgroup.bracket_infix hmark)
        rw [hgroup.filter_isBracket, spokenBrackets_eq_filter_of_pieces hbody]
        intro inner hmem
        have hpart := (infix_of_mem_spokenPieces hmem).2
        have hle := hpart.length_le
        exact ih inner.length (by omega)
          (fun hmark => h ((hmark.trans hpart).trans hgroup.body_infix)) rfl

/-- A line that is no comment and has no opening bracket in front of a comment mark says all of its
brackets. -/
theorem spokenBrackets_eq_filter {line : Text} (hline : ¬ commentMark <+: line)
    (hbodies : ¬ '[' :: commentMark <:+: line) : spokenBrackets line = line.filter isBracket := by
  apply spokenBrackets_eq_filter_of_pieces hline
  intro piece hmem
  apply pieceBrackets_eq_filter
  exact fun hmark => hbodies (hmark.trans (infix_of_mem_spokenPieces hmem).2)

/-- Where no comment mark is, no group body starts with one. -/
theorem not_bracket_mark {t : Text} (h : ¬ commentMark <:+: t) : ¬ '[' :: commentMark <:+: t :=
  fun hmark => h ((List.suffix_cons '[' commentMark).isInfix.trans hmark)

end Command

/-! ## Lines that fail -/

/-- A piece of the line is an error, and so the report and all stages of the line fail. -/
structure FailsThroughout (limit : Nat) (line : Text) : Prop where
  each : ∃ fault, .error fault ∈ readEach limit line
  report : ∃ fault, (Report.ofLine limit line).fault = some fault
  tokens : ∃ fault, Stage.tokensOf limit line = .error fault
  stitches : ∃ fault, Stage.stitchesOf limit line = .error fault
  steps : ∃ fault, Stage.stepsOf limit line = .error fault
  displays : ∃ fault, Stage.displaysOf limit line = .error fault

theorem failsThroughout_of_readLine_error {limit : Nat} {line : Text} {fault : Fault}
    (h : readLine limit line = .error fault) : FailsThroughout limit line := by
  obtain ⟨piece, hmem, hpiece⟩ := exists_of_mapM_eq_error _ h
  have hstitches : Stage.stitchesOf limit line = .error fault := by
    rw [Stage.stitchesOf, Stage.tokensOf, h]
  have hdisplays := (Stage.displaysOf_eq_error_iff limit line fault).2 hstitches
  exact {
    each := ⟨fault, List.mem_map.2 ⟨piece, hmem, hpiece⟩⟩
    report := Stage.exists_fault_of_displaysOf_error hdisplays
    tokens := ⟨fault, h⟩
    stitches := ⟨fault, hstitches⟩
    steps := ⟨fault, (Stage.stepsOf_eq_error_iff limit line fault).2 hstitches⟩
    displays := ⟨fault, hdisplays⟩ }

/-- A line whose brackets do not balance, those in comments left out, cannot be read, and the
report and all stages of it fail.  When no comment can stand in the line, these are all of its
brackets. -/
theorem failsThroughout_of_not_balanced (limit : Nat) (line : Text) :
    (¬ Balanced (Command.spokenBrackets line) → FailsThroughout limit line) ∧
    (¬ commentMark <+: line → ¬ '[' :: commentMark <:+: line → ¬ Balanced line →
      FailsThroughout limit line) := by
  have hspoken : ¬ Balanced (Command.spokenBrackets line) → FailsThroughout limit line := by
    intro hbalance
    cases hread : readLine limit line with
    | ok commands => exact absurd (Command.balanced_of_readPieces hread) hbalance
    | error fault => exact failsThroughout_of_readLine_error hread
  refine ⟨hspoken, ?_⟩
  intro hline hbodies hbalance
  apply hspoken
  rwa [Command.spokenBrackets_eq_filter hline hbodies, balanced_filter_iff]

/-- In the first line the comment takes one of the two stray brackets; in the second a bracket stays
open. -/
theorem failsThroughout_of_stray_brackets :
    (¬ Balanced (Command.spokenBrackets "[// ]]2 ]".toList) ∧
      FailsThroughout 32 "[// ]]2 ]".toList) ∧
    ¬ commentMark <+: "sc [inc".toList ∧ ¬ '[' :: commentMark <:+: "sc [inc".toList ∧
      ¬ Balanced "sc [inc".toList ∧ FailsThroughout 32 "sc [inc".toList := by
  have hspoken : ¬ Balanced (Command.spokenBrackets "[// ]]2 ]".toList) := by
    decide +kernel
  have hline : ¬ commentMark <+: "sc [inc".toList := by
    decide
  have hbodies : ¬ '[' :: commentMark <:+: "sc [inc".toList := by
    decide
  have hopen : ¬ Balanced "sc [inc".toList := by
    decide
  exact ⟨⟨hspoken, (failsThroughout_of_not_balanced 32 _).1 hspoken⟩, hline, hbodies, hopen,
    (failsThroughout_of_not_balanced 32 _).2 hline hbodies hopen⟩

/-- The brackets of the line do not balance, but the comment takes the one that is too many. -/
theorem unbalanced_comment_is_read :
    ¬ commentMark <+: "[//]]2".toList ∧ ¬ Balanced "[//]]2".toList ∧
      readEach 32 "[//]]2".toList = [.ok (.group [] 2)] ∧
      Report.ofLine 32 "[//]]2".toList = ⟨[], none⟩ := by
  decide +kernel

end CrochetShorthand
