import CrochetShorthand.Proofs.Reading

/-!
# The grammar of the notation

`Command.Denotes levels piece command` says that a piece denotes a command while `levels` more
groups may be nested.  It is a relation of its own and uses no reader: a word denotes what
its keyword or its numerals spell, and a group denotes what the pieces of its body denote,
one level deeper.  A body that starts with the comment mark says nothing, and the group then
has no commands.

The reader accepts exactly what the grammar derives.  The relation allows any split of a
group piece into a body and a numeral; that the reader splits at the last closing bracket
loses nothing, because only there a numeral can follow.
-/

namespace CrochetShorthand

namespace Command

open Decimal (Numeral)

/-- The mark with which a comment starts. -/
def commentMark : Text := ['/', '/']

mutual

/-- The command that a piece denotes while `levels` more groups may be nested. -/
inductive Denotes : Nat → Text → Command → Prop
  | word {levels : Nat} {piece : Text} {command : Command} (h : WordDenotes piece command) :
      Denotes levels piece command
  /-- A group whose body is a comment. -/
  | comment {levels : Nat} {body digits : Text} {times : UInt32}
      (hcomment : commentMark <+: body) (hnumeral : Numeral digits times) :
      Denotes (levels + 1) ('[' :: body ++ ']' :: digits) (.group [] times)
  | group {levels : Nat} {body digits : Text} {times : UInt32} {commands : List Command}
      (hnonempty : body ≠ []) (hcomment : ¬ commentMark <+: body)
      (hnumeral : Numeral digits times) (hbody : DenoteEach levels (piecesOf body) commands) :
      Denotes (levels + 1) ('[' :: body ++ ']' :: digits) (.group commands times)

/-- The commands that pieces denote, one by one. -/
inductive DenoteEach : Nat → List Text → List Command → Prop
  | nil {levels : Nat} : DenoteEach levels [] []
  | cons {levels : Nat} {piece : Text} {command : Command} {pieces : List Text}
      {commands : List Command} (hpiece : Denotes levels piece command)
      (hpieces : DenoteEach levels pieces commands) :
      DenoteEach levels (piece :: pieces) (command :: commands)

end

theorem denoteEach_iff_forall₂ (levels : Nat) (pieces : List Text) (commands : List Command) :
    DenoteEach levels pieces commands ↔ List.Forall₂ (Denotes levels) pieces commands := by
  induction pieces generalizing commands with
  | nil =>
      constructor
      · rintro ⟨⟩
        exact .nil
      · rintro ⟨⟩
        exact .nil
  | cons piece pieces ih =>
      constructor
      · intro h
        rcases h with _ | ⟨hpiece, hpieces⟩
        exact .cons hpiece ((ih _).1 hpieces)
      · intro h
        rcases h with _ | ⟨hpiece, hpieces⟩
        exact .cons hpiece ((ih _).2 hpieces)

theorem isComment_iff (t : Text) : isComment t = true ↔ commentMark <+: t := by
  unfold isComment
  split
  · simp [commentMark]
  · rename_i hno
    constructor
    · intro h
      contradiction
    · intro h
      obtain ⟨rest, rfl⟩ := h
      exact absurd rfl (hno rest)

/-- What stands behind a character that is not in the mark does not make a comment. -/
theorem comment_append_iff {c : Char} (hc : c ≠ '/') (line rest : Text) :
    commentMark <+: line ++ c :: rest ↔ commentMark <+: line := by
  match line with
  | [] => simp [commentMark, hc.symm]
  | [d] => simp [commentMark, hc.symm]
  | d :: e :: line => simp [commentMark]

/-- A body says something: the pieces of a comment are none. -/
theorem spokenPieces_of_comment {body : Text} (h : commentMark <+: body) :
    spokenPieces body = [] := by
  rw [spokenPieces, (isComment_iff body).2 h, if_pos rfl]

theorem spokenPieces_of_not_comment {body : Text} (h : ¬ commentMark <+: body) :
    spokenPieces body = piecesOf body := by
  rw [spokenPieces, if_neg fun hcomment => h ((isComment_iff body).1 hcomment)]

/-- A piece denotes a command as a word, or as a group over the pieces that its body says. -/
theorem denotes_iff (levels : Nat) (piece : Text) (command : Command) :
    Denotes levels piece command ↔
      WordDenotes piece command ∨
        ∃ body times below commands, GroupPiece piece body times ∧ levels = below + 1 ∧
          List.Forall₂ (Denotes below) (spokenPieces body) commands ∧
            command = .group commands times := by
  constructor
  · intro h
    cases h with
    | word h => exact .inl h
    | @comment below body digits times hcomment hnumeral =>
        right
        have hnonempty : body ≠ [] := by
          rintro rfl
          simp [commentMark] at hcomment
        refine ⟨body, times, below, [], ⟨hnonempty, digits, hnumeral, rfl⟩, rfl, ?_, rfl⟩
        rw [spokenPieces_of_comment hcomment]
        exact .nil
    | @group below body digits times commands hnonempty hcomment hnumeral hbody =>
        right
        refine ⟨body, times, below, commands, ⟨hnonempty, digits, hnumeral, rfl⟩, rfl, ?_, rfl⟩
        rw [spokenPieces_of_not_comment hcomment]
        exact (denoteEach_iff_forall₂ _ _ _).1 hbody
  · intro h
    rcases h with hword | ⟨body, times, below, commands, hgroup, rfl, hbody, rfl⟩
    · exact .word hword
    · obtain ⟨digits, hnumeral, rfl⟩ := hgroup.numeral
      by_cases hcomment : commentMark <+: body
      · rw [spokenPieces_of_comment hcomment] at hbody
        cases hbody
        exact .comment hcomment hnumeral
      · rw [spokenPieces_of_not_comment hcomment] at hbody
        exact .group hgroup.nonempty hcomment hnumeral ((denoteEach_iff_forall₂ _ _ _).2 hbody)

/-- The reader and the grammar take a piece apart in the same way, level by level. -/
theorem readPieceAt_eq_ok_iff_denotes (limit levels : Nat) (piece : Text) (command : Command) :
    readPieceAt limit levels piece = .ok command ↔ Denotes levels piece command := by
  induction levels generalizing piece command with
  | zero =>
      -- Without a level left there are only words on both sides.
      rw [readPieceAt_eq_ok_iff, denotes_iff]
      simp
  | succ levels ih =>
      have hbodies : ∀ pieces commands,
          pieces.mapM (readPieceAt limit levels) = .ok commands ↔
            List.Forall₂ (Denotes levels) pieces commands := by
        intro pieces commands
        rw [mapM_eq_ok_iff_forall₂]
        constructor
        · exact fun h => h.imp fun piece command => (ih piece command).1
        · exact fun h => h.imp fun piece command => (ih piece command).2
      rw [readPieceAt_eq_ok_iff, denotes_iff]
      constructor
      · intro h
        rcases h with hword | ⟨body, times, below, commands, hgroup, hlevels, hbody, rfl⟩
        · exact .inl hword
        · obtain rfl := Nat.succ.inj hlevels
          exact .inr ⟨body, times, _, commands, hgroup, rfl, (hbodies _ _).1 hbody, rfl⟩
      · intro h
        rcases h with hword | ⟨body, times, below, commands, hgroup, hlevels, hbody, rfl⟩
        · exact .inl hword
        · obtain rfl := Nat.succ.inj hlevels
          exact .inr ⟨body, times, _, commands, hgroup, rfl, (hbodies _ _).2 hbody, rfl⟩

/-! ## One meaning at most -/

theorem WordDenotes.unique {piece : Text} {c d : Command} (hc : WordDenotes piece c)
    (hd : WordDenotes piece d) : c = d := by
  have hread := (ofWord?_eq_some_iff piece c).2 hc
  rw [(ofWord?_eq_some_iff piece d).2 hd] at hread
  exact (Option.some.inj hread).symm

theorem GroupPiece.unique {piece body body' : Text} {times times' : UInt32}
    (h : GroupPiece piece body times) (h' : GroupPiece piece body' times') :
    body = body' ∧ times = times' := by
  have hparts := (groupParts?_eq_some_iff piece body times).2 h
  rw [(groupParts?_eq_some_iff piece body' times').2 h'] at hparts
  exact Prod.mk.inj (Option.some.inj hparts.symm)

theorem not_wordDenotes_of_groupPiece {piece body : Text} {times : UInt32} {command : Command}
    (hgroup : GroupPiece piece body times) : ¬ WordDenotes piece command := by
  intro hword
  have hopens := opensGroup_of_groupPiece hgroup
  rw [opensGroup_of_wordDenotes hword] at hopens
  contradiction

/-- Two relations that agree where both hold relate a list to one list only. -/
theorem forall₂_eq_of_agree {α β : Type} {R S : α → β → Prop}
    (hagree : ∀ x y z, R x y → S x z → y = z) {xs : List α} {ys zs : List β}
    (hR : List.Forall₂ R xs ys) (hS : List.Forall₂ S xs zs) : ys = zs := by
  induction hR generalizing zs with
  | nil =>
      cases hS
      rfl
  | cons hfirst _ ih =>
      cases hS with
      | cons hfirst' hrest' => rw [hagree _ _ _ hfirst hfirst', ih hrest']

/-- Also with different numbers of levels a piece denotes one command at most. -/
theorem Denotes.unique {m n : Nat} {piece : Text} {c d : Command} (hc : Denotes m piece c)
    (hd : Denotes n piece d) : c = d := by
  -- On the levels of one derivation; those of the other are given up with each group.
  induction m generalizing n piece c d with
  | zero =>
      rcases (denotes_iff _ _ _).1 hc with hc | ⟨_, _, _, _, _, hlevels, _⟩
      · rcases (denotes_iff _ _ _).1 hd with hd | ⟨_, _, _, _, hgroup, _⟩
        · exact hc.unique hd
        · exact absurd hc (not_wordDenotes_of_groupPiece hgroup)
      · contradiction
  | succ m ih =>
      rcases (denotes_iff _ _ _).1 hc with hc | ⟨body, times, below, cs, hgroup, hm, hcs, rfl⟩
      · rcases (denotes_iff _ _ _).1 hd with hd | ⟨_, _, _, _, hgroup, _⟩
        · exact hc.unique hd
        · exact absurd hc (not_wordDenotes_of_groupPiece hgroup)
      · obtain rfl := Nat.succ.inj hm
        rcases (denotes_iff _ _ _).1 hd with hd | ⟨_, _, _, ds, hgroup', _, hds, rfl⟩
        · exact absurd hd (not_wordDenotes_of_groupPiece hgroup)
        · obtain ⟨rfl, rfl⟩ := hgroup.unique hgroup'
          have hsame : cs = ds := by
            refine forall₂_eq_of_agree ?_ hcs hds
            intro _ _ _ hfirst hfirst'
            exact ih hfirst hfirst'
          rw [hsame]

/-- A piece is read as a command exactly when it denotes it within the limit, and it denotes
one command at most. -/
theorem readPiece_eq_ok_iff_denotes_unique (piece : Text) :
    (∀ limit command, readPiece limit piece = .ok command ↔ Denotes limit piece command) ∧
      ∀ m n c d, Denotes m piece c → Denotes n piece d → c = d := by
  constructor
  · intro limit command
    exact readPieceAt_eq_ok_iff_denotes limit limit piece command
  · intro m n c d hc hd
    exact hc.unique hd

-- The last bracket closes the group, and a comment takes the one before it.
example : readPiece 1 "[//]]2".toList = .ok (.group [] 2) := by
  decide +kernel

end Command

end CrochetShorthand
