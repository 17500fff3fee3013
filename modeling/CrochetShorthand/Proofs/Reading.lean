import CrochetShorthand.Command.Reading
import CrochetShorthand.Proofs.Spelling
import Mathlib.Data.List.Forall2

/-!
# What reading a piece comes to

The reader looks at the first character of a piece.  A piece that does not start with an
opening bracket is a word.  A group piece is an opening bracket, a body that is not empty, a
closing bracket and a numeral (`Command.GroupPiece`); the closing bracket is the last one,
because a numeral holds none (`groupParts?_eq_some_iff`).

`readPieceAt_eq_ok_iff` says once when reading a piece at a number of levels gives a command, and
`readPieceAt_eq_error_iff` when it gives a fault; later modules use them instead of the definition.
-/

namespace CrochetShorthand

/-! ## Reading one after another -/

section FirstFault

variable {α β ε : Type} (f : α → Except ε β)

theorem mapM_cons_eq_ok_iff (x : α) (xs : List α) (zs : List β) :
    (x :: xs).mapM f = .ok zs ↔ ∃ y ys, f x = .ok y ∧ xs.mapM f = .ok ys ∧ zs = y :: ys := by
  rw [List.mapM_cons]
  cases hx : f x with
  | error fault => simp [bind, Except.bind]
  | ok y =>
      cases hxs : xs.mapM f with
      | error fault => simp [bind, Except.bind]
      | ok ys => simp [bind, Except.bind, pure, Except.pure, eq_comm]

/-- All succeed exactly when each does, and the results stand in the same order. -/
theorem mapM_eq_ok_iff_forall₂ (xs : List α) (ys : List β) :
    xs.mapM f = .ok ys ↔ List.Forall₂ (fun x y => f x = .ok y) xs ys := by
  induction xs generalizing ys with
  | nil => simp [pure, Except.pure, eq_comm]
  | cons x xs ih =>
      rw [mapM_cons_eq_ok_iff]
      constructor
      · intro h
        obtain ⟨y, ys, hx, hxs, rfl⟩ := h
        exact .cons hx ((ih ys).1 hxs)
      · intro h
        rcases h with _ | ⟨hx, hxs⟩
        exact ⟨_, _, hx, (ih _).2 hxs, rfl⟩

/-- Each member on the right is related to one on the left. -/
theorem exists_of_forall₂_of_mem {R : α → β → Prop} {xs : List α} {ys : List β}
    (h : List.Forall₂ R xs ys) {y : β} (hy : y ∈ ys) : ∃ x ∈ xs, R x y := by
  induction h with
  | nil => contradiction
  | @cons x first xs ys hfirst _ ih =>
      rcases List.mem_cons.1 hy with rfl | hlater
      · exact ⟨x, List.mem_cons_self .., hfirst⟩
      · obtain ⟨x', hmem, hx'⟩ := ih hlater
        exact ⟨x', List.mem_cons_of_mem x hmem, hx'⟩

/-- The error of a result, if it is one. -/
def failure? : Except ε β → Option ε
  | .error fault => some fault
  | .ok _ => none

theorem failure?_eq_some_iff (result : Except ε β) (fault : ε) :
    failure? result = some fault ↔ result = .error fault := by
  cases result <;> simp [failure?]

theorem failure?_map {γ : Type} (g : β → γ) (result : Except ε β) :
    failure? (result.map g) = failure? result := by
  cases result <;> rfl

theorem failure?_eq_none_iff (result : Except ε β) :
    failure? result = none ↔ ∃ y, result = .ok y := by
  cases result <;> simp [failure?]

/-- Otherwise the first failure is the failure of all. -/
theorem mapM_eq_error_iff (xs : List α) (fault : ε) :
    xs.mapM f = .error fault ↔ xs.findSome? (fun x => failure? (f x)) = some fault := by
  induction xs with
  | nil => simp [pure, Except.pure]
  | cons x xs ih =>
      rw [List.mapM_cons, List.findSome?_cons]
      cases hx : f x with
      | error first => simp [bind, Except.bind, failure?]
      | ok y =>
          rw [failure?, ← ih]
          cases hxs : xs.mapM f with
          | error later => simp [bind, Except.bind]
          | ok ys => simp [bind, Except.bind, pure, Except.pure]

/-- Functions that agree on all members find the same. -/
theorem findSome?_congr {f g : α → Option β} {xs : List α} (h : ∀ x ∈ xs, f x = g x) :
    xs.findSome? f = xs.findSome? g := by
  induction xs with
  | nil => rfl
  | cons x xs ih =>
      obtain ⟨hx, hxs⟩ := List.forall_mem_cons.1 h
      rw [List.findSome?_cons, List.findSome?_cons, hx, ih hxs]

theorem failure?_mapM (xs : List α) :
    failure? (xs.mapM f) = xs.findSome? fun x => failure? (f x) := by
  ext fault
  rw [failure?_eq_some_iff, mapM_eq_error_iff]

/-- The first failure stays the first when nothing that succeeds fails instead. -/
theorem mapM_eq_error_of_agree {f g : α → Except ε β} {xs : List α} {fault : ε}
    (hok : ∀ x ∈ xs, ∀ y, f x = .ok y → g x = .ok y)
    (herror : ∀ x ∈ xs, f x = .error fault → g x = .error fault)
    (h : xs.mapM f = .error fault) : xs.mapM g = .error fault := by
  rw [mapM_eq_error_iff] at h ⊢
  obtain ⟨before, x, after, rfl, hx, hbefore⟩ := List.findSome?_eq_some_iff.1 h
  refine List.findSome?_eq_some_iff.2 ⟨before, x, after, rfl, ?_, ?_⟩
  · rw [failure?_eq_some_iff] at hx ⊢
    exact herror x (by simp) hx
  · intro earlier hmem
    cases hearlier : f earlier with
    | error found =>
        have hnone := hbefore earlier hmem
        rw [hearlier] at hnone
        contradiction
    | ok y =>
        rw [hok earlier (by simp [hmem]) y hearlier]
        rfl

/-- A failure of all is that of a member. -/
theorem exists_of_mapM_eq_error {xs : List α} {fault : ε} (h : xs.mapM f = .error fault) :
    ∃ x ∈ xs, f x = .error fault := by
  obtain ⟨x, hmem, hx⟩ := List.exists_of_findSome?_eq_some ((mapM_eq_error_iff f xs fault).1 h)
  refine ⟨x, hmem, ?_⟩
  cases hresult : f x with
  | ok y =>
      rw [hresult] at hx
      contradiction
  | error found =>
      rw [hresult] at hx
      rw [Option.some.inj hx]

end FirstFault

/-! ## Groups -/

namespace Text

theorem splitLast_eq_none_iff (mark : Char) (t : Text) :
    splitLast mark t = none ↔ mark ∉ t := by
  induction t with
  | nil => simp [splitLast]
  | cons c t ih =>
      rw [splitLast, List.mem_cons, not_or, ← ih]
      cases splitLast mark t with
      | none => simp [eq_comm]
      | some parts => simp

/-- The text is split at the mark after which no other comes. -/
theorem splitLast_eq_some_iff (mark : Char) (t before after : Text) :
    splitLast mark t = some (before, after) ↔ t = before ++ mark :: after ∧ mark ∉ after := by
  induction t generalizing before with
  | nil => simp [splitLast]
  | cons c t ih =>
      rw [splitLast]
      cases hsplit : splitLast mark t with
      | none =>
          -- No mark comes later, so this character is the last mark or there is none.
          have hmark := (splitLast_eq_none_iff mark t).1 hsplit
          constructor
          · intro h
            dsimp only at h
            split at h
            · rename_i hc
              obtain ⟨rfl, rfl⟩ := Prod.mk.inj (Option.some.inj h)
              exact ⟨by rw [hc, List.nil_append], hmark⟩
            · contradiction
          · intro h
            obtain ⟨heq, -⟩ := h
            cases before with
            | nil =>
                obtain ⟨rfl, rfl⟩ := List.cons.inj heq
                simp
            | cons d before =>
                obtain ⟨-, rfl⟩ := List.cons.inj heq
                exact absurd (List.mem_append_right before (List.mem_cons_self ..)) hmark
      | some parts =>
          obtain ⟨left, right⟩ := parts
          constructor
          · intro h
            obtain ⟨rfl, rfl⟩ := Prod.mk.inj (Option.some.inj h)
            obtain ⟨rfl, hright⟩ := (ih left).1 hsplit
            exact ⟨rfl, hright⟩
          · intro h
            obtain ⟨heq, hafter⟩ := h
            cases before with
            | nil =>
                obtain ⟨rfl, rfl⟩ := List.cons.inj heq
                rw [(splitLast_eq_none_iff _ _).2 hafter] at hsplit
                contradiction
            | cons d before =>
                obtain ⟨rfl, rfl⟩ := List.cons.inj heq
                rw [(ih before).2 ⟨rfl, hafter⟩] at hsplit
                obtain ⟨rfl, rfl⟩ := Prod.mk.inj (Option.some.inj hsplit)
                rfl

end Text

namespace Command

open Decimal (Numeral)

/-- A group piece: a body in brackets, and the numeral of its count. -/
structure GroupPiece (piece body : Text) (times : UInt32) : Prop where
  nonempty : body ≠ []
  numeral : ∃ digits, Numeral digits times ∧ piece = '[' :: body ++ ']' :: digits

/-- A numeral holds no bracket, so the bracket in front of it is the last one. -/
theorem splitLast_brackets (body : Text) {digits : Text} (h : Decimal.IsRun digits) :
    Text.splitLast ']' (body ++ ']' :: digits) = some (body, digits) :=
  (Text.splitLast_eq_some_iff ']' _ body digits).2 ⟨rfl, h.not_mem (by decide)⟩

/-- Brackets and a numeral behind them leave no choice of the body. -/
theorem brackets_inj {body digits body' digits' : Text} (h : Decimal.IsRun digits)
    (h' : Decimal.IsRun digits')
    (heq : '[' :: body ++ ']' :: digits = '[' :: body' ++ ']' :: digits') :
    body = body' ∧ digits = digits' := by
  have hrest : body ++ ']' :: digits = body' ++ ']' :: digits' := (List.cons.inj heq).2
  have hsplit := splitLast_brackets body h
  rw [hrest, splitLast_brackets body' h'] at hsplit
  obtain ⟨rfl, rfl⟩ := Prod.mk.inj (Option.some.inj hsplit)
  exact ⟨rfl, rfl⟩

theorem groupParts?_eq_some_iff (piece body : Text) (times : UInt32) :
    groupParts? piece = some (body, times) ↔ GroupPiece piece body times := by
  constructor
  · intro h
    unfold groupParts? at h
    split at h
    · rename_i rest
      split at h
      · contradiction
      · rename_i left digits hsplit
        split at h
        · contradiction
        · rename_i hempty
          obtain ⟨n, hcount, heq⟩ := Option.map_eq_some_iff.1 h
          obtain ⟨rfl, rfl⟩ := Prod.mk.inj heq
          obtain ⟨rfl, -⟩ := (Text.splitLast_eq_some_iff ']' rest left digits).1 hsplit
          refine ⟨by simpa using hempty, digits, ?_, rfl⟩
          exact (Decimal.count?_eq_some_iff digits n).1 hcount
    · contradiction
  · intro h
    obtain ⟨hnonempty, digits, hnumeral, rfl⟩ := h
    simp only [List.cons_append, groupParts?, splitLast_brackets body hnumeral.run]
    rw [(Decimal.count?_eq_some_iff digits times).2 hnumeral]
    simp [hnonempty]

theorem opensGroup_of_groupPiece {piece body : Text} {times : UInt32}
    (h : GroupPiece piece body times) : opensGroup piece = true := by
  obtain ⟨digits, -, rfl⟩ := h.numeral
  rfl

/-- The body of a group is shorter than the group. -/
theorem GroupPiece.length_lt {piece body : Text} {times : UInt32}
    (h : GroupPiece piece body times) : body.length < piece.length := by
  obtain ⟨digits, -, rfl⟩ := h.numeral
  simp only [List.length_append, List.length_cons]
  omega

theorem opensGroup_of_spells {word : Word} {piece : Text} (h : Word.Spells word piece) :
    opensGroup piece = false := by
  cases word with
  | keyword stitch =>
      obtain rfl : piece = stitch.keyword := h
      cases stitch <;> rfl
  | magicCircle | magicEllipse =>
      obtain ⟨digits, -, rfl⟩ := h
      rfl
  | bend =>
      obtain ⟨first, second, -, -, rfl⟩ := h
      rfl

theorem opensGroup_of_wordDenotes {piece : Text} {command : Command}
    (h : WordDenotes piece command) : opensGroup piece = false := by
  obtain ⟨word, hword⟩ := exists_spells_of_wordDenotes h
  exact opensGroup_of_spells hword

/-! ## One piece -/

theorem readPieceAt_of_wordDenotes (limit levels : Nat) {piece : Text} {command : Command}
    (h : WordDenotes piece command) : readPieceAt limit levels piece = .ok command := by
  have hword := (ofWord?_eq_some_iff piece command).2 h
  cases levels <;> simp [readPieceAt, opensGroup_of_wordDenotes h, hword]

/-- A group below the last level is one too many. -/
theorem readPieceAt_zero_of_groupPiece (limit : Nat) {piece body : Text} {times : UInt32}
    (h : GroupPiece piece body times) :
    readPieceAt limit 0 piece = .error (.tooDeep piece limit) := by
  rw [readPieceAt, opensGroup_of_groupPiece h, (groupParts?_eq_some_iff _ _ _).2 h]
  rfl

/-- The body of a group is read as a line, one level deeper. -/
theorem readPieceAt_succ_of_groupPiece (limit levels : Nat) {piece body : Text}
    {times : UInt32} (h : GroupPiece piece body times) :
    readPieceAt limit (levels + 1) piece =
      ((spokenPieces body).mapM (readPieceAt limit levels)).map fun commands =>
        .group commands times := by
  rw [readPieceAt, opensGroup_of_groupPiece h, (groupParts?_eq_some_iff _ _ _).2 h]
  dsimp only
  cases (spokenPieces body).mapM (readPieceAt limit levels) <;> rfl

theorem readPieceAt_eq_ok_iff (limit levels : Nat) (piece : Text) (command : Command) :
    readPieceAt limit levels piece = .ok command ↔
      WordDenotes piece command ∨
        ∃ body times below commands, GroupPiece piece body times ∧ levels = below + 1 ∧
          (spokenPieces body).mapM (readPieceAt limit below) = .ok commands ∧
            command = .group commands times := by
  constructor
  · intro h
    cases hopens : opensGroup piece with
    | false =>
        left
        cases hword : ofWord? piece with
        | none => cases levels <;> simp [readPieceAt, hopens, hword] at h
        | some found =>
            have hfound : found = command := by
              cases levels <;> simpa [readPieceAt, hopens, hword] using h
            rw [← hfound]
            exact (ofWord?_eq_some_iff piece found).1 hword
    | true =>
        -- What opens with a bracket is a group piece, or nothing that can be read.
        right
        cases hparts : groupParts? piece with
        | none => cases levels <;> simp [readPieceAt, hopens, hparts] at h
        | some parts =>
            obtain ⟨body, times⟩ := parts
            have hgroup := (groupParts?_eq_some_iff piece body times).1 hparts
            cases levels with
            | zero =>
                rw [readPieceAt_zero_of_groupPiece limit hgroup] at h
                contradiction
            | succ below =>
                rw [readPieceAt_succ_of_groupPiece limit below hgroup] at h
                cases hbody : (spokenPieces body).mapM (readPieceAt limit below) with
                | error fault =>
                    rw [hbody] at h
                    contradiction
                | ok commands =>
                    rw [hbody] at h
                    obtain rfl := Except.ok.inj h
                    exact ⟨body, times, below, commands, hgroup, rfl, hbody, rfl⟩
  · intro h
    rcases h with hword | ⟨body, times, below, commands, hgroup, rfl, hbody, rfl⟩
    · exact readPieceAt_of_wordDenotes limit levels hword
    · rw [readPieceAt_succ_of_groupPiece limit below hgroup, hbody]
      rfl

/-- Induction over what is read.  A property of pieces and their commands holds when it holds of
the words, and of a group when it holds of the pieces of its body, one level deeper. -/
@[elab_as_elim]
theorem readPieceAt_induction {limit : Nat} {motive : Nat → Text → Command → Prop}
    (word : ∀ levels piece command, WordDenotes piece command → motive levels piece command)
    (group : ∀ below piece body times commands, GroupPiece piece body times →
      readPieceAt limit (below + 1) piece = .ok (.group commands times) →
      List.Forall₂ (motive below) (spokenPieces body) commands →
      motive (below + 1) piece (.group commands times))
    {levels : Nat} {piece : Text} {command : Command}
    (h : readPieceAt limit levels piece = .ok command) : motive levels piece command := by
  induction levels generalizing piece command with
  | zero =>
      rcases (readPieceAt_eq_ok_iff _ _ _ _).1 h with hword | ⟨_, _, _, _, _, hlevels, _⟩
      · exact word _ _ _ hword
      · contradiction
  | succ levels ih =>
      rcases (readPieceAt_eq_ok_iff _ _ _ _).1 h with
        hword | ⟨body, times, below, commands, hgroup, hlevels, hbody, rfl⟩
      · exact word _ _ _ hword
      · obtain rfl := Nat.succ.inj hlevels
        have hmembers := (mapM_eq_ok_iff_forall₂ _ _ _).1 hbody
        exact group _ _ _ _ _ hgroup h (hmembers.imp fun _ _ hmember => ih hmember)

/-! ## Pieces that are not read -/

/-- A piece is neither a word nor a group. -/
structure Shapeless (piece : Text) : Prop where
  not_word : ∀ command, ¬ WordDenotes piece command
  not_group : ∀ body times, ¬ GroupPiece piece body times

theorem shape_cases (piece : Text) :
    (∃ command, WordDenotes piece command) ∨ (∃ body times, GroupPiece piece body times) ∨
      Shapeless piece := by
  by_cases hword : ∃ command, WordDenotes piece command
  · exact .inl hword
  · by_cases hgroup : ∃ body times, GroupPiece piece body times
    · exact .inr (.inl hgroup)
    · exact .inr (.inr ⟨fun command h => hword ⟨command, h⟩, fun body times h =>
        hgroup ⟨body, times, h⟩⟩)

/-- A piece without a shape is unknown, whatever the limit is. -/
theorem readPieceAt_of_shapeless (limit levels : Nat) {piece : Text} (h : Shapeless piece) :
    readPieceAt limit levels piece = .error (.unknownPiece piece) := by
  cases hopens : opensGroup piece with
  | false =>
      have hword : ofWord? piece = none := by
        rw [Option.eq_none_iff_forall_ne_some]
        intro command hcommand
        exact h.not_word command ((ofWord?_eq_some_iff piece command).1 hcommand)
      cases levels <;> simp [readPieceAt, hopens, hword]
  | true =>
      have hparts : groupParts? piece = none := by
        rw [Option.eq_none_iff_forall_ne_some]
        intro parts hparts
        exact h.not_group parts.1 parts.2 ((groupParts?_eq_some_iff piece parts.1 parts.2).1 hparts)
      cases levels <;> simp [readPieceAt, hopens, hparts]

/-- A piece is not read because it has no shape of the notation, because it is a group too many,
or because a piece of its body is not read. -/
theorem readPieceAt_eq_error_iff (limit levels : Nat) (piece : Text) (fault : Fault) :
    readPieceAt limit levels piece = .error fault ↔
      (Shapeless piece ∧ fault = .unknownPiece piece) ∨
        (levels = 0 ∧ (∃ body times, GroupPiece piece body times) ∧
          fault = .tooDeep piece limit) ∨
        ∃ body times below, GroupPiece piece body times ∧ levels = below + 1 ∧
          (spokenPieces body).mapM (readPieceAt limit below) = .error fault := by
  constructor
  · intro h
    rcases shape_cases piece with ⟨command, hword⟩ | ⟨body, times, hgroup⟩ | hshapeless
    · rw [readPieceAt_of_wordDenotes limit levels hword] at h
      contradiction
    · right
      cases levels with
      | zero =>
          rw [readPieceAt_zero_of_groupPiece limit hgroup] at h
          exact .inl ⟨rfl, ⟨body, times, hgroup⟩, (Except.error.inj h).symm⟩
      | succ below =>
          rw [readPieceAt_succ_of_groupPiece limit below hgroup] at h
          cases hbody : (spokenPieces body).mapM (readPieceAt limit below) with
          | ok commands =>
              rw [hbody] at h
              contradiction
          | error found =>
              rw [hbody] at h
              obtain rfl := Except.error.inj h
              exact .inr ⟨body, times, below, hgroup, rfl, hbody⟩
    · rw [readPieceAt_of_shapeless limit levels hshapeless] at h
      exact .inl ⟨hshapeless, (Except.error.inj h).symm⟩
  · intro h
    rcases h with ⟨hshapeless, rfl⟩ | ⟨rfl, ⟨body, times, hgroup⟩, rfl⟩ |
      ⟨body, times, below, hgroup, rfl, hbody⟩
    · exact readPieceAt_of_shapeless limit levels hshapeless
    · exact readPieceAt_zero_of_groupPiece limit hgroup
    · rw [readPieceAt_succ_of_groupPiece limit below hgroup, hbody]
      rfl

end Command

end CrochetShorthand
