import CrochetShorthand.Proofs.Quoting

/-!
# The piece that stops the reading

A line is read from left to right, and the body of a group is read where the group stands.  So a
line that fails has a piece, perhaps inside groups, that reading comes to and that cannot be read:
whatever stands to the left of it, on each level of nesting, is read (`Command.Reaches`).  The
fault names this piece, and no group around it.

Two things can be wrong with the piece.  It has no shape of the notation, or a count in it is out
of range; then it is unknown wherever it stands.  Or it is a group, as groups are written, but
stands inside as many groups as the limit allows.
-/

namespace CrochetShorthand

namespace Command

/-! ## From left to right -/

/-- A piece of a line in front of which all pieces are read, while `levels` more groups may be
nested. -/
def ReadUpTo (limit levels : Nat) (line piece : Text) : Prop :=
  ∃ before after, spokenPieces line = before ++ piece :: after ∧
    ∀ earlier ∈ before, ∃ command, readPieceAt limit levels earlier = .ok command

/-- Reading the pieces of a line fails at the first piece that is not read. -/
theorem readPieces_eq_error_iff (limit levels : Nat) (line : Text) (fault : Fault) :
    (spokenPieces line).mapM (readPieceAt limit levels) = .error fault ↔
      ∃ piece, ReadUpTo limit levels line piece ∧
        readPieceAt limit levels piece = .error fault := by
  rw [mapM_eq_error_iff, List.findSome?_eq_some_iff]
  constructor
  · intro h
    obtain ⟨before, piece, after, hpieces, hpiece, hbefore⟩ := h
    refine ⟨piece, ⟨before, after, hpieces, ?_⟩, (failure?_eq_some_iff _ _).1 hpiece⟩
    intro earlier hmem
    exact (failure?_eq_none_iff _).1 (hbefore earlier hmem)
  · intro h
    obtain ⟨piece, ⟨before, after, hpieces, hbefore⟩, hpiece⟩ := h
    refine ⟨before, piece, after, hpieces, (failure?_eq_some_iff _ _).2 hpiece, ?_⟩
    intro earlier hmem
    exact (failure?_eq_none_iff _).2 (hbefore earlier hmem)

theorem ReadUpTo.isInfix {limit levels : Nat} {line piece : Text}
    (h : ReadUpTo limit levels line piece) : piece <:+: line := by
  obtain ⟨before, after, hpieces, -⟩ := h
  have hmem : piece ∈ spokenPieces line := by simp [hpieces]
  exact (infix_of_mem_spokenPieces hmem).2

/-! ## From outside to inside -/

/-- `Reaches limit levels line depth part` says that reading a line, while `levels` more groups may
be nested, comes to a part of it that is a piece inside `depth` groups.  The line is split into
pieces, and so is the body of each of these groups; all pieces to the left of the part, and of the
groups that it stands in, are read at the levels that are left for them. -/
inductive Reaches (limit : Nat) : Nat → Text → Nat → Text → Prop
  | here {levels : Nat} {line piece : Text} (h : ReadUpTo limit levels line piece) :
      Reaches limit levels line 0 piece
  | inside {levels depth : Nat} {line group body part : Text} {times : UInt32}
      (h : ReadUpTo limit (levels + 1) line group) (hgroup : GroupPiece group body times)
      (hpart : Reaches limit levels body depth part) :
      Reaches limit (levels + 1) line (depth + 1) part

/-- What is reached is a part of the line. -/
theorem Reaches.isInfix {limit levels depth : Nat} {line part : Text}
    (h : Reaches limit levels line depth part) : part <:+: line := by
  induction h with
  | here h => exact h.isInfix
  | inside h hgroup _ ih => exact (ih.trans hgroup.body_infix).trans h.isInfix

/-- What stops the reading of a part that is reached at a depth, when `levels` more groups may be
nested in the line: it has no shape, or it is a group and all levels are used up. -/
inductive Stops (limit levels depth : Nat) (part : Text) : Fault → Prop
  | shapeless (h : Shapeless part) : Stops limit levels depth part (.unknownPiece part)
  | tooDeep {body : Text} {times : UInt32} (hdepth : depth = levels)
      (hgroup : GroupPiece part body times) : Stops limit levels depth part (.tooDeep part limit)

/-- Around the line of a group body there is one more level. -/
theorem stops_succ_iff (limit levels depth : Nat) (part : Text) (fault : Fault) :
    Stops limit (levels + 1) (depth + 1) part fault ↔ Stops limit levels depth part fault := by
  constructor
  · intro h
    cases h with
    | shapeless h => exact .shapeless h
    | tooDeep hdepth hgroup => exact .tooDeep (Nat.succ.inj hdepth) hgroup
  · intro h
    cases h with
    | shapeless h => exact .shapeless h
    | tooDeep hdepth hgroup => exact .tooDeep (congrArg Nat.succ hdepth) hgroup

/-- A line fails with a fault exactly when reading comes to a part that stops it with this fault. -/
theorem readPieces_eq_error_iff_reaches (limit levels : Nat) (line : Text) (fault : Fault) :
    (spokenPieces line).mapM (readPieceAt limit levels) = .error fault ↔
      ∃ depth part, Reaches limit levels line depth part ∧
        Stops limit levels depth part fault := by
  constructor
  · intro h
    -- The body of a group has a level less, and its fault is that of the group.
    induction levels using Nat.strongRecOn generalizing line with
    | ind levels ih =>
        obtain ⟨piece, hreached, hpiece⟩ := (readPieces_eq_error_iff _ _ _ _).1 h
        rcases (readPieceAt_eq_error_iff _ _ _ _).1 hpiece with
          ⟨hshapeless, rfl⟩ | ⟨rfl, ⟨body, times, hgroup⟩, rfl⟩ |
            ⟨body, times, below, hgroup, rfl, hbody⟩
        · exact ⟨0, piece, .here hreached, .shapeless hshapeless⟩
        · exact ⟨0, piece, .here hreached, .tooDeep rfl hgroup⟩
        · obtain ⟨depth, part, hpart, hstops⟩ := ih below (by omega) body hbody
          exact ⟨depth + 1, part, .inside hreached hgroup hpart, (stops_succ_iff ..).2 hstops⟩
  · intro h
    obtain ⟨depth, part, hreaches, hstops⟩ := h
    induction hreaches with
    | here hreached =>
        refine (readPieces_eq_error_iff _ _ _ _).2 ⟨_, hreached, ?_⟩
        cases hstops with
        | shapeless hshapeless => exact readPieceAt_of_shapeless limit _ hshapeless
        | tooDeep hdepth hgroup =>
            rw [← hdepth]
            exact readPieceAt_zero_of_groupPiece limit hgroup
    | inside hreached hgroup _ ih =>
        refine (readPieces_eq_error_iff _ _ _ _).2 ⟨_, hreached, ?_⟩
        refine (readPieceAt_eq_error_iff _ _ _ _).2 (.inr (.inr ⟨_, _, _, hgroup, rfl, ?_⟩))
        exact ih ((stops_succ_iff ..).1 hstops)

/-- A line cannot be read exactly when reading comes to a part of it that is named by the fault.
Either the part is unknown, and it is unknown as a piece by itself under any limit; or it is a
group that stands inside as many groups as the limit allows, and as a piece by itself it is a group
too many when no groups are allowed. -/
theorem readLine_eq_error_iff_reaches (limit : Nat) (line : Text) (fault : Fault) :
    readLine limit line = .error fault ↔
      ∃ depth part, Reaches limit limit line depth part ∧ part <:+: line ∧
        ((fault = .unknownPiece part ∧ Shapeless part ∧
            ∀ other, readPiece other part = .error (.unknownPiece part)) ∨
          (fault = .tooDeep part limit ∧ depth = limit ∧
            (∃ body times, GroupPiece part body times) ∧
              readPiece 0 part = .error (.tooDeep part 0))) := by
  rw [readLine, show readPiece limit = readPieceAt limit limit from rfl,
    readPieces_eq_error_iff_reaches]
  constructor
  · intro h
    obtain ⟨depth, part, hreaches, hstops⟩ := h
    refine ⟨depth, part, hreaches, hreaches.isInfix, ?_⟩
    cases hstops with
    | shapeless hshapeless =>
        exact .inl ⟨rfl, hshapeless, fun other => readPieceAt_of_shapeless other other hshapeless⟩
    | tooDeep hdepth hgroup =>
        exact .inr ⟨rfl, hdepth, ⟨_, _, hgroup⟩, readPieceAt_zero_of_groupPiece 0 hgroup⟩
  · intro h
    obtain ⟨depth, part, hreaches, -, hpart⟩ := h
    refine ⟨depth, part, hreaches, ?_⟩
    rcases hpart with ⟨rfl, hshapeless, -⟩ | ⟨rfl, hdepth, ⟨body, times, hgroup⟩, -⟩
    · exact .shapeless hshapeless
    · exact .tooDeep hdepth hgroup

-- The count of the inner group is out of range, and the word behind it is not looked at.
example :
    readLine 2 "sc [c [inc]0 x]2 [[[sk]2]2]2".toList = .error (.unknownPiece "[inc]0".toList) := by
  decide +kernel

end Command

end CrochetShorthand
