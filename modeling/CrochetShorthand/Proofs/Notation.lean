import CrochetShorthand.Proofs.Faults

/-!
# Commands read back from their notation

The notation of a command is one piece, however deep its groups are nested: inside its
brackets every blank is protected, and its brackets balance (`whole_render`).  It holds no
slash, so that no body of a group is taken for a comment.  A line of notations therefore
splits into just these notations, and so does the body of a group.

A command reads back from its notation exactly when its counts are positive, its groups
have commands, and it is nested no deeper than the limit allows.
-/

namespace CrochetShorthand

open Decimal (Numeral)
open LineScan (Whole Unbroken balance)

/-! ## The notation of a pattern -/

namespace Pattern

/-- The shape of the notation of a pattern. -/
theorem exists_spells_render (pattern : Pattern) : ∃ word, Word.Spells word pattern.render := by
  cases pattern with
  | magicCircle n => exact ⟨.magicCircle, _, Decimal.isRun_ofNat _, rfl⟩
  | magicEllipse n => exact ⟨.magicEllipse, _, Decimal.isRun_ofNat _, rfl⟩
  | bend round depth =>
      exact ⟨.bend, _, _, Decimal.isRun_ofNat _, Decimal.isRun_ofNat _, rfl⟩

end Pattern

namespace Command

theorem wordDenotes_render_of_arguments (pattern : Pattern) (h : ∀ n ∈ pattern.arguments, 1 ≤ n) :
    WordDenotes pattern.render (.pattern pattern) := by
  cases pattern with
  | magicCircle n =>
      exact .magicCircle ((Decimal.numeral_ofNat_iff n).2 (h n (List.mem_singleton_self n)))
  | magicEllipse n =>
      exact .magicEllipse ((Decimal.numeral_ofNat_iff n).2 (h n (List.mem_singleton_self n)))
  | bend round depth =>
      exact .bend ((Decimal.numeral_ofNat_iff round).2 (h round (by simp [Pattern.arguments])))
        ((Decimal.numeral_ofNat_iff depth).2 (h depth (by simp [Pattern.arguments])))

/-! ## Notations are whole -/

theorem renderAll_eq_joinWith (commands : List Command) :
    renderAll commands = Text.joinWith [' '] (commands.map render) := by
  induction commands with
  | nil => rfl
  | cons first rest ih =>
      cases rest with
      | nil => rfl
      | cons second rest =>
          rw [renderAll, ih]
          simp [Text.joinWith]

theorem whole_joinWith_inside {texts : List Text} (h : ∀ t ∈ texts, Whole t) :
    Unbroken 1 (Text.joinWith [' '] texts) ∧ balance (Text.joinWith [' '] texts) = 0 := by
  induction texts with
  | nil => exact ⟨trivial, rfl⟩
  | cons t texts ih =>
      have ht := h t (List.mem_cons_self ..)
      have hinside : Unbroken 1 t := ht.unbroken.mono (by omega)
      cases texts with
      | nil => exact ⟨hinside, ht.balanced⟩
      | cons u texts =>
          obtain ⟨hrest, hbalance⟩ := ih fun v hv => h v (List.mem_cons_of_mem t hv)
          have hspace : Unbroken 1 [' '] ∧ balance [' '] = 0 :=
            ⟨⟨fun _ => by omega, trivial⟩, rfl⟩
          simp only [Text.joinWith, LineScan.unbroken_append, LineScan.balance_append,
            ht.balanced, hspace.2, hbalance]
          exact ⟨⟨⟨hinside, hspace.1⟩, hrest⟩, rfl⟩

/-- Brackets around an unbroken inside and digits behind them make a whole text. -/
theorem whole_brackets {inside digits : Text} (hinside : Unbroken 1 inside)
    (hbalance : balance inside = 0) (hdigits : ∀ c ∈ digits, c.isDigit = true) :
    Whole ('[' :: inside ++ ']' :: digits) := by
  obtain ⟨hunbroken, hzero⟩ :=
    Word.unbroken_of_isWordChar (fun c hc => Word.isWordChar_of_isDigit (hdigits c hc)) 0
  have hopen : LineScan.depthChange '[' = 1 := rfl
  have hclose : LineScan.depthChange ']' = -1 := rfl
  have hnoblank : Text.isBlank '[' = false ∧ Text.isBlank ']' = false := by decide
  constructor
  · simp
  · rw [List.cons_append, Unbroken, LineScan.unbroken_append, hopen, Unbroken, hclose, hbalance]
    refine ⟨?_, hinside, ?_, hunbroken⟩
    · simp [hnoblank.1]
    · simp [hnoblank.2]
  · rw [List.cons_append, balance, LineScan.balance_append, balance, hopen, hclose, hbalance,
      hzero]
    rfl

/-- The notation of a command is one piece. -/
theorem whole_render (command : Command) : Whole command.render := by
  -- A word holds no blank at all; a group protects the blanks that it puts between commands.
  induction command with
  | stitch s =>
      have hspells : Word.Spells (.keyword s) s.keyword := rfl
      exact Word.whole_of_spells hspells
  | pattern p =>
      obtain ⟨word, hspells⟩ := p.exists_spells_render
      exact Word.whole_of_spells hspells
  | group commands times ih =>
      have hnotations : ∀ t ∈ commands.map render, Whole t := List.forall_mem_map.2 ih
      obtain ⟨hinside, hbalance⟩ := whole_joinWith_inside hnotations
      rw [render, renderAll_eq_joinWith]
      exact whole_brackets hinside hbalance fun _ hc => Decimal.isDigit_of_mem_ofNat hc

/-! ## Lines of notations -/

theorem isComment_eq_false {t : Text} (h : '/' ∉ t) : isComment t = false := by
  unfold isComment
  split
  · exact absurd (List.mem_cons_self ..) h
  · rfl

theorem slash_not_mem_joinWith {texts : List Text} (h : ∀ t ∈ texts, '/' ∉ t) :
    '/' ∉ Text.joinWith [' '] texts := by
  induction texts with
  | nil => simp [Text.joinWith]
  | cons t texts ih =>
      have ht := h t (List.mem_cons_self ..)
      cases texts with
      | nil => exact ht
      | cons u texts =>
          have hrest := ih fun v hv => h v (List.mem_cons_of_mem t hv)
          simp [Text.joinWith, ht, hrest]

theorem slash_not_mem_render (command : Command) : '/' ∉ command.render := by
  have hword : ∀ {word t}, Word.Spells word t → '/' ∉ t := by
    intro word t hspells hmem
    exact absurd (Word.isWordChar_of_spells hspells '/' hmem) (by decide)
  induction command with
  | stitch s =>
      have hspells : Word.Spells (.keyword s) s.keyword := rfl
      exact hword hspells
  | pattern p =>
      obtain ⟨word, hspells⟩ := p.exists_spells_render
      exact hword hspells
  | group commands times ih =>
      have hinside : '/' ∉ renderAll commands := by
        rw [renderAll_eq_joinWith]
        exact slash_not_mem_joinWith (List.forall_mem_map.2 ih)
      have hdigits : '/' ∉ Decimal.ofNat times.toNat :=
        (Decimal.isRun_ofNat _).not_mem (by decide)
      simp [render, hinside, hdigits]

/-- A line of notations splits into them. -/
theorem spokenPieces_joinWith_render (commands : List Command) :
    spokenPieces (Text.joinWith [' '] (commands.map render)) = commands.map render := by
  have hslash : '/' ∉ Text.joinWith [' '] (commands.map render) :=
    slash_not_mem_joinWith (List.forall_mem_map.2 fun c _ => slash_not_mem_render c)
  rw [spokenPieces, isComment_eq_false hslash]
  exact piecesOf_joinWith (by decide) (List.forall_mem_map.2 fun c _ => whole_render c)

/-- A line of notations reads back exactly when each notation does. -/
theorem mapM_render_eq_ok_iff (read : Text → Except Fault Command) (commands : List Command) :
    (commands.map render).mapM read = .ok commands ↔
      ∀ c ∈ commands, read c.render = .ok c := by
  rw [mapM_eq_ok_iff_forall₂, List.forall₂_map_left_iff, List.forall₂_same]

/-! ## Reading back -/

theorem groupPiece_render_iff (commands : List Command) (times n : UInt32) (body : Text) :
    GroupPiece (group commands times).render body n ↔
      body = renderAll commands ∧ body ≠ [] ∧ n = times ∧ 1 ≤ n := by
  constructor
  · intro h
    obtain ⟨hnonempty, digits, hnumeral, heq⟩ := h
    obtain ⟨rfl, rfl⟩ := brackets_inj (Decimal.isRun_ofNat times.toNat) hnumeral.run heq
    have hn : n = times := by
      apply UInt32.toNat_inj.1
      rw [← hnumeral.value]
      exact Nat.ofDigitChars_toDigits (by decide) (by decide)
    exact ⟨rfl, hnonempty, hn, hnumeral.one_le⟩
  · intro h
    obtain ⟨rfl, hnonempty, rfl, hle⟩ := h
    exact ⟨hnonempty, _, (Decimal.numeral_ofNat_iff n).2 hle, rfl⟩

theorem renderAll_eq_nil_iff (commands : List Command) :
    renderAll commands = [] ↔ commands = [] := by
  cases commands with
  | nil => simp [renderAll]
  | cons first rest =>
      have hfirst := (whole_render first).nonempty
      cases rest <;> simp [renderAll, hfirst]

/-- A group reads back exactly when it has commands and a positive count, one more level is
left for it, and its commands read back below that level. -/
theorem readPieceAt_render_group_iff (limit levels : Nat) (commands : List Command)
    (times : UInt32) :
    readPieceAt limit levels (group commands times).render = .ok (group commands times) ↔
      commands ≠ [] ∧ 1 ≤ times ∧ ∃ below, levels = below + 1 ∧
        ∀ c ∈ commands, readPieceAt limit below c.render = .ok c := by
  rw [readPieceAt_eq_ok_iff]
  constructor
  · intro h
    rcases h with hword | ⟨body, n, below, found, hgroup, rfl, hbody, heq⟩
    · exact absurd (opensGroup_of_wordDenotes hword) (by simp [render, opensGroup])
    · obtain ⟨rfl, rfl⟩ := Command.group.inj heq
      obtain ⟨rfl, hnonempty, -, hle⟩ := (groupPiece_render_iff _ _ _ _).1 hgroup
      rw [renderAll_eq_joinWith, spokenPieces_joinWith_render, mapM_render_eq_ok_iff] at hbody
      exact ⟨fun h => hnonempty ((renderAll_eq_nil_iff commands).2 h), hle, below, rfl, hbody⟩
  · intro h
    obtain ⟨hnonempty, hle, below, rfl, hbody⟩ := h
    right
    refine ⟨renderAll commands, times, below, commands, ?_, rfl, ?_, rfl⟩
    · rw [groupPiece_render_iff]
      exact ⟨rfl, fun h => hnonempty ((renderAll_eq_nil_iff commands).1 h), rfl, hle⟩
    · rw [renderAll_eq_joinWith, spokenPieces_joinWith_render, mapM_render_eq_ok_iff]
      exact hbody

theorem readPieceAt_render_eq_ok_iff (limit levels : Nat) (command : Command) :
    readPieceAt limit levels command.render = .ok command ↔
      command.HasPositiveCounts ∧ command.HasFilledGroups ∧ command.depth ≤ levels := by
  induction command generalizing levels with
  | stitch s =>
      have hread := readPieceAt_of_wordDenotes limit levels (.stitch s)
      simpa [HasPositiveCounts, HasFilledGroups, within, counts, depth, render] using hread
  | pattern p =>
      constructor
      · -- A pattern comes back only as a word, so its arguments were numerals.
        intro hread
        rcases (readPieceAt_eq_ok_iff _ _ _ _).1 hread with hword | ⟨_, _, _, _, _, _, _, heq⟩
        · refine ⟨hasPositiveCounts_of_wordDenotes hword, ?_, Nat.zero_le _⟩
          simp [HasFilledGroups, within]
        · cases heq
      · intro h
        obtain ⟨hcounts, -, -⟩ := h
        apply readPieceAt_of_wordDenotes
        exact wordDenotes_render_of_arguments p (hcounts _ (List.mem_singleton_self _))
  | group commands times ih =>
      rw [readPieceAt_render_group_iff, hasPositiveCounts_group, hasFilledGroups_group]
      constructor
      · -- Every condition on the group is one on its count, its list, or each of its commands.
        intro h
        obtain ⟨hnonempty, hle, below, rfl, hbody⟩ := h
        have hinside := fun c hc => (ih c hc below).1 (hbody c hc)
        refine ⟨⟨hle, fun c hc => (hinside c hc).1⟩,
          ⟨hnonempty, fun c hc => (hinside c hc).2.1⟩, ?_⟩
        have hdepth := depthAll_le_iff.2 fun c hc => (hinside c hc).2.2
        rw [depth]
        omega
      · intro h
        obtain ⟨⟨hle, hcounts⟩, ⟨hnonempty, hfilled⟩, hdepth⟩ := h
        rw [depth] at hdepth
        refine ⟨hnonempty, hle, levels - 1, by omega, fun c hc => (ih c hc _).2 ?_⟩
        have hbelow : depthAll commands ≤ levels - 1 := by omega
        exact ⟨hcounts c hc, hfilled c hc, depthAll_le_iff.1 hbelow c hc⟩

/-- Commands read back from their notation exactly when all their counts are positive, none
of their groups is empty and none is nested deeper than the limit; a line of notations reads
back exactly when each of its commands does. -/
theorem read_render_eq_ok_iff (limit : Nat) :
    (∀ command : Command, readPiece limit command.render = .ok command ↔
      command.HasPositiveCounts ∧ command.HasFilledGroups ∧ command.depth ≤ limit) ∧
    ∀ commands : List Command,
      readLine limit (Text.joinWith [' '] (commands.map render)) = .ok commands ↔
        ∀ command ∈ commands,
          command.HasPositiveCounts ∧ command.HasFilledGroups ∧ command.depth ≤ limit := by
  constructor
  · intro command
    exact readPieceAt_render_eq_ok_iff limit limit command
  · intro commands
    rw [readLine, spokenPieces_joinWith_render, mapM_render_eq_ok_iff]
    constructor
    · intro h command hmem
      exact (readPieceAt_render_eq_ok_iff limit limit command).1 (h command hmem)
    · intro h command hmem
      exact (readPieceAt_render_eq_ok_iff limit limit command).2 (h command hmem)

end Command

end CrochetShorthand
