import CrochetShorthand.Proofs.Quoting

/-!
# What the nesting limit changes

The limit on nested groups is looked at after the shape and the count of a group, and before its
body.  A greater limit therefore changes nothing on a line that is read, nor on a line that fails
because a piece has no shape of the notation.

A line that is read with a greater limit is cut by a smaller one at a single place.  The groups of a
line are listed in the order in which they open (`Command.groupsOf`), each with the number of
groups that it sits inside.  Reading stops at the first group of the list that sits inside as many
groups as the smaller limit allows, and there is such a group exactly when the commands are nested
deeper.
-/

namespace CrochetShorthand

/-- A group as it stands in a line, and how many groups of the line it sits inside. -/
structure PlacedGroup where
  text : Text
  enclosing : Nat
deriving DecidableEq, Repr

/-- The group with one more group around it. -/
def PlacedGroup.deeper (group : PlacedGroup) : PlacedGroup :=
  ⟨group.text, group.enclosing + 1⟩

namespace Command

/-! ## The groups of a line -/

/-- The groups of a line, left to right and each in front of the groups of its body. -/
def groupsOf (line : Text) : List PlacedGroup :=
  (spokenPieces line).attach.flatMap fun ⟨piece, hmem⟩ =>
    match hparts : groupParts? piece with
    | none => []
    | some (body, _) =>
        have := ((groupParts?_eq_some_iff _ _ _).1 hparts).length_lt
        have := (infix_of_mem_spokenPieces hmem).2.length_le
        ⟨piece, 0⟩ :: (groupsOf body).map PlacedGroup.deeper
termination_by line.length

/-- The groups of one piece: the piece itself if it is one, and the groups of its body. -/
def pieceGroups (piece : Text) : List PlacedGroup :=
  match groupParts? piece with
  | none => []
  | some (body, _) => ⟨piece, 0⟩ :: (groupsOf body).map PlacedGroup.deeper

theorem groupsOf_eq (line : Text) : groupsOf line = (spokenPieces line).flatMap pieceGroups := by
  rw [groupsOf, List.flatMap_subtype (g := pieceGroups), List.unattach_attach]
  intro piece hmem
  dsimp only [pieceGroups]
  split
  · rename_i hparts
    rw [hparts]
  · rename_i hparts
    rw [hparts]

theorem pieceGroups_of_groupPiece {piece body : Text} {times : UInt32}
    (h : GroupPiece piece body times) :
    pieceGroups piece = ⟨piece, 0⟩ :: (groupsOf body).map PlacedGroup.deeper := by
  rw [pieceGroups, (groupParts?_eq_some_iff _ _ _).2 h]

theorem pieceGroups_of_wordDenotes {piece : Text} {command : Command}
    (h : WordDenotes piece command) : pieceGroups piece = [] := by
  unfold pieceGroups
  split
  · rfl
  · rename_i hparts
    have hopens := opensGroup_of_groupPiece ((groupParts?_eq_some_iff _ _ _).1 hparts)
    rw [opensGroup_of_wordDenotes h] at hopens
    contradiction

/-- Whether a command is a group. -/
def isGroup : Command → Bool
  | .group _ _ => true
  | _ => false

theorem isGroup_of_wordDenotes {piece : Text} {command : Command} (h : WordDenotes piece command) :
    command.isGroup = false := by
  cases h <;> rfl

/-- A group of a line is the source of a command. -/
def SourceOf (group : PlacedGroup) (command : Command) : Prop :=
  ∃ limit levels, readPieceAt limit levels group.text = .ok command

/-- The groups of pieces are the sources of the groups among their commands, in the same order. -/
theorem forall₂_sourceOf_flatMap {pieces : List Text} {commands : List Command}
    (h : List.Forall₂ (fun piece (command : Command) =>
      List.Forall₂ SourceOf (pieceGroups piece) (command.within.filter isGroup)) pieces commands) :
    List.Forall₂ SourceOf (pieces.flatMap pieceGroups) ((withinAll commands).filter isGroup) := by
  induction h with
  | nil => exact .nil
  | cons hfirst _ ih =>
      rw [List.flatMap_cons, withinAll, List.filter_append]
      exact List.rel_append hfirst ih

theorem forall₂_sourceOf_pieceGroups {limit levels : Nat} {piece : Text} {command : Command}
    (h : readPieceAt limit levels piece = .ok command) :
    List.Forall₂ SourceOf (pieceGroups piece) (command.within.filter isGroup) := by
  refine readPieceAt_induction (motive := fun _ piece command =>
    List.Forall₂ SourceOf (pieceGroups piece) (command.within.filter isGroup)) ?_ ?_ h
  · intro _ _ command hword
    have hnone : command.within.filter isGroup = [] := by
      simp [within_of_wordDenotes hword, isGroup_of_wordDenotes hword]
    rw [pieceGroups_of_wordDenotes hword, hnone]
    exact .nil
  · intro below piece body times commands hgroup hread hbody
    have hfilter : (group commands times).within.filter isGroup =
        group commands times :: (withinAll commands).filter isGroup := by
      rw [within, List.filter_cons_of_pos rfl]
    rw [pieceGroups_of_groupPiece hgroup, hfilter, groupsOf_eq]
    refine .cons ⟨limit, below + 1, hread⟩ ?_
    -- The number of groups around a group does not change what it is the source of.
    exact List.forall₂_map_left_iff.2 (forall₂_sourceOf_flatMap hbody)

/-- The groups of a line that is read are the sources of the groups among its commands, in the
same order. -/
theorem forall₂_sourceOf_groupsOf {limit : Nat} {line : Text} {commands : List Command}
    (h : readLine limit line = .ok commands) :
    List.Forall₂ SourceOf (groupsOf line) ((withinAll commands).filter isGroup) := by
  rw [groupsOf_eq]
  exact forall₂_sourceOf_flatMap (((mapM_eq_ok_iff_forall₂ _ _ _).1 h).imp
    fun _ _ hread => forall₂_sourceOf_pieceGroups hread)

/-! ## Reading with another limit -/

/-- A piece that fails at a part without a shape fails there also when more levels are left. -/
theorem readPieceAt_unknown_mono {limit greater levels more : Nat} {piece part : Text}
    (hle : levels ≤ more) (h : readPieceAt limit levels piece = .error (.unknownPiece part)) :
    readPieceAt greater more piece = .error (.unknownPiece part) := by
  induction levels using Nat.strongRecOn generalizing more piece with
  | ind levels ih =>
      rw [readPieceAt_eq_error_iff] at h ⊢
      rcases h with hshapeless | ⟨-, -, hdeep⟩ | ⟨body, times, below, hgroup, rfl, hbody⟩
      · exact .inl hshapeless
      · contradiction
      · obtain ⟨inside, rfl⟩ : ∃ inside, more = inside + 1 := ⟨more - 1, by omega⟩
        refine .inr (.inr ⟨body, times, inside, hgroup, rfl, ?_⟩)
        -- In front of the failing piece all is read, and is read in the same way now.
        refine mapM_eq_error_of_agree ?_ ?_ hbody
        · intro inner _ command hinner
          have hdepth := depth_le_of_readPieceAt hinner
          exact readPieceAt_of_depth_le hinner (by omega) greater
        · intro inner _ hinner
          exact ih below (by omega) (by omega) hinner

/-- The first of some groups that sits inside as many groups as there are levels. -/
def firstBeyond? (levels : Nat) (groups : List PlacedGroup) : Option PlacedGroup :=
  groups.find? fun group => group.enclosing == levels

theorem firstBeyond?_flatMap (levels : Nat) (pieces : List Text) :
    firstBeyond? levels (pieces.flatMap pieceGroups) =
      pieces.findSome? fun piece => firstBeyond? levels (pieceGroups piece) :=
  List.find?_flatMap

theorem firstBeyond?_deeper (levels : Nat) (groups : List PlacedGroup) :
    firstBeyond? (levels + 1) (groups.map PlacedGroup.deeper) =
      (firstBeyond? levels groups).map PlacedGroup.deeper := by
  have hcount : ((fun group : PlacedGroup => group.enclosing == levels + 1) ∘ PlacedGroup.deeper) =
      fun group => group.enclosing == levels := by
    funext group
    simp [PlacedGroup.deeper]
  rw [firstBeyond?, List.find?_map, hcount, firstBeyond?]

/-- A piece that can be read at all fails only at the first of its groups that is one too many. -/
theorem failure?_readPieceAt {wide deep : Nat} {piece : Text} {command : Command}
    (h : readPieceAt wide deep piece = .ok command) (limit levels : Nat) :
    failure? (readPieceAt limit levels piece) =
      (firstBeyond? levels (pieceGroups piece)).map fun group => .tooDeep group.text limit := by
  revert levels
  refine readPieceAt_induction (motive := fun _ piece _ => ∀ levels,
    failure? (readPieceAt limit levels piece) =
      (firstBeyond? levels (pieceGroups piece)).map fun group => .tooDeep group.text limit) ?_ ?_ h
  · intro _ _ _ hword levels
    rw [readPieceAt_of_wordDenotes limit levels hword, pieceGroups_of_wordDenotes hword]
    rfl
  · intro _ piece body times commands hgroup _ hbody levels
    rw [pieceGroups_of_groupPiece hgroup]
    cases levels with
    | zero =>
        rw [readPieceAt_zero_of_groupPiece limit hgroup]
        rfl
    | succ levels =>
        have hskip : firstBeyond? (levels + 1)
            (⟨piece, 0⟩ :: (groupsOf body).map PlacedGroup.deeper) =
              firstBeyond? (levels + 1) ((groupsOf body).map PlacedGroup.deeper) := rfl
        have hmembers : ∀ inner ∈ spokenPieces body,
            failure? (readPieceAt limit levels inner) =
              (firstBeyond? levels (pieceGroups inner)).map fun group =>
                .tooDeep group.text limit := by
          intro inner hinner
          obtain ⟨_, -, hfailure⟩ := exists_of_forall₂_of_mem hbody.flip hinner
          exact hfailure levels
        rw [readPieceAt_succ_of_groupPiece limit levels hgroup, failure?_map, failure?_mapM,
          findSome?_congr hmembers, hskip, firstBeyond?_deeper, groupsOf_eq, firstBeyond?_flatMap,
          Option.map_map, List.map_findSome?]
        rfl

/-- A line that can be read at all fails only at the first of its groups that is one too many. -/
theorem failure?_readLine {wide : Nat} {line : Text} {commands : List Command}
    (h : readLine wide line = .ok commands) (limit : Nat) :
    failure? (readLine limit line) =
      (firstBeyond? limit (groupsOf line)).map fun group => .tooDeep group.text limit := by
  have hread := (mapM_eq_ok_iff_forall₂ _ _ _).1 h
  have hpieces : ∀ piece ∈ spokenPieces line,
      failure? (readPiece limit piece) =
        (firstBeyond? limit (pieceGroups piece)).map fun group => .tooDeep group.text limit := by
    intro piece hpiece
    obtain ⟨_, -, hcommand⟩ := exists_of_forall₂_of_mem hread.flip hpiece
    exact failure?_readPieceAt hcommand limit limit
  rw [readLine, failure?_mapM, findSome?_congr hpieces, groupsOf_eq, firstBeyond?_flatMap,
    List.map_findSome?]
  rfl

theorem readLine_mono {limit greater : Nat} (hle : limit ≤ greater) {line : Text}
    {commands : List Command} (h : readLine limit line = .ok commands) :
    readLine greater line = .ok commands := by
  rw [readLine, mapM_eq_ok_iff_forall₂] at h ⊢
  refine h.imp ?_
  intro piece command hread
  exact readPieceAt_of_depth_le hread (Nat.le_trans (depth_le_of_readPieceAt hread) hle) greater

theorem depthAll_le_of_readLine {limit : Nat} {line : Text} {commands : List Command}
    (h : readLine limit line = .ok commands) : depthAll commands ≤ limit := by
  rw [depthAll_le_iff]
  intro command hmem
  obtain ⟨_, -, hread⟩ := exists_of_forall₂_of_mem ((mapM_eq_ok_iff_forall₂ _ _ _).1 h) hmem
  exact depth_le_of_readPieceAt hread

/-- What a smaller limit reads, a greater one reads in the same way, and a piece without a shape
stays the fault of a line.  A line that the greater limit reads is read in the same way by the
smaller one when its commands are not nested deeper.  Otherwise it fails at the first of its groups
that sits inside as many groups as the smaller limit allows, where the groups of the line are
listed as those of its commands are: left to right, and each in front of those inside it. -/
theorem readLine_cut_by_limit {limit greater : Nat} (hle : limit ≤ greater) (line : Text) :
    (∀ commands, readLine limit line = .ok commands → readLine greater line = .ok commands) ∧
    (∀ part, readLine limit line = .error (.unknownPiece part) →
      readLine greater line = .error (.unknownPiece part)) ∧
    ∀ commands, readLine greater line = .ok commands →
      (depthAll commands ≤ limit → readLine limit line = .ok commands) ∧
      (limit < depthAll commands →
        List.Forall₂ SourceOf (groupsOf line) ((withinAll commands).filter isGroup) ∧
        ∃ before group after, groupsOf line = before ++ group :: after ∧
          (∀ earlier ∈ before, earlier.enclosing ≠ limit) ∧ group.enclosing = limit ∧
            readLine limit line = .error (.tooDeep group.text limit)) := by
  refine ⟨fun _ => readLine_mono hle, ?_, ?_⟩
  · intro part h
    refine mapM_eq_error_of_agree ?_ ?_ h
    · intro piece _ command hread
      have hdepth := depth_le_of_readPieceAt hread
      exact readPieceAt_of_depth_le hread (Nat.le_trans hdepth hle) greater
    · intro piece _ hread
      exact readPieceAt_unknown_mono hle hread
  · intro commands h
    constructor
    · intro hdepth
      rw [depthAll_le_iff] at hdepth
      have hboth := (List.forall₂_and_left _ _).2
        ⟨hdepth, ((mapM_eq_ok_iff_forall₂ _ _ _).1 h).flip⟩
      exact (mapM_eq_ok_iff_forall₂ _ _ _).2
        (hboth.flip.imp fun _ _ hread => readPieceAt_of_depth_le hread.2 hread.1 limit)
    · intro hdepth
      refine ⟨forall₂_sourceOf_groupsOf h, ?_⟩
      have hfailure := failure?_readLine h limit
      cases hfirst : firstBeyond? limit (groupsOf line) with
      | none =>
          -- Nothing would stop the reading, and the commands would fit into the limit.
          rw [hfirst] at hfailure
          cases hread : readLine limit line with
          | error fault =>
              rw [hread] at hfailure
              contradiction
          | ok found =>
              have hsame := readLine_mono hle hread
              rw [h] at hsame
              obtain rfl := Except.ok.inj hsame
              have hfits := depthAll_le_of_readLine hread
              omega
      | some group =>
          rw [hfirst] at hfailure
          obtain ⟨hlevel, before, after, hgroups, hbefore⟩ := List.find?_eq_some_iff_append.1 hfirst
          refine ⟨before, group, after, hgroups, ?_, by simpa using hlevel,
            (failure?_eq_some_iff _ _).1 hfailure⟩
          intro earlier hmem
          simpa using hbefore earlier hmem

/-- Groups three deep under limits of one and three, and a word without a shape in front of a group
that is too deep. -/
theorem readLine_cut_by_limit_of_one :
    1 ≤ 3 ∧
    (readLine 1 "[c]2".toList = .ok [.group [.stitch .chain] 2] ∧
      readLine 3 "[c]2".toList = .ok [.group [.stitch .chain] 2]) ∧
    (readLine 1 "[c x]2 [[sc]2]2".toList = .error (.unknownPiece ['x']) ∧
      readLine 3 "[c x]2 [[sc]2]2".toList = .error (.unknownPiece ['x'])) ∧
    readLine 3 "[c]4 [[inc [sk]3]2 [c]5]2".toList =
        .ok [.group [.stitch .chain] 4,
          .group [.group [.stitch .increase, .group [.stitch .skip] 3] 2,
            .group [.stitch .chain] 5] 2] ∧
      1 < depthAll [.group [.stitch .chain] 4,
        .group [.group [.stitch .increase, .group [.stitch .skip] 3] 2,
          .group [.stitch .chain] 5] 2] ∧
      ∃ before group after,
        groupsOf "[c]4 [[inc [sk]3]2 [c]5]2".toList = before ++ group :: after ∧
          (∀ earlier ∈ before, earlier.enclosing ≠ 1) ∧ group.enclosing = 1 ∧
            readLine 1 "[c]4 [[inc [sk]3]2 [c]5]2".toList = .error (.tooDeep group.text 1) := by
  have hle : 1 ≤ 3 := by decide
  have hsmall : readLine 1 "[c]2".toList = .ok [.group [.stitch .chain] 2] := by
    decide +kernel
  have hunknown : readLine 1 "[c x]2 [[sc]2]2".toList = .error (.unknownPiece ['x']) := by
    decide +kernel
  have hwide : readLine 3 "[c]4 [[inc [sk]3]2 [c]5]2".toList =
      .ok [.group [.stitch .chain] 4,
        .group [.group [.stitch .increase, .group [.stitch .skip] 3] 2,
          .group [.stitch .chain] 5] 2] := by
    decide +kernel
  have hdepth : 1 < depthAll [.group [.stitch .chain] 4,
      .group [.group [.stitch .increase, .group [.stitch .skip] 3] 2,
        .group [.stitch .chain] 5] 2] := by
    decide
  obtain ⟨hmono, -, -⟩ := readLine_cut_by_limit hle "[c]2".toList
  obtain ⟨-, hkeeps, -⟩ := readLine_cut_by_limit hle "[c x]2 [[sc]2]2".toList
  obtain ⟨-, -, hcut⟩ := readLine_cut_by_limit hle "[c]4 [[inc [sk]3]2 [c]5]2".toList
  obtain ⟨-, hfirst⟩ := (hcut _ hwide).2 hdepth
  exact ⟨hle, ⟨hsmall, hmono _ hsmall⟩, ⟨hunknown, hkeeps _ hunknown⟩, hwide, hdepth, hfirst⟩

-- The group inside the cut one sits deeper still, and the one behind it comes later.
example :
    readLine 1 "[c]4 [[inc [sk]3]2 [c]5]2".toList =
      .error (.tooDeep "[inc [sk]3]2".toList 1) := by
  decide +kernel

end Command

end CrochetShorthand
