import CrochetShorthand.Proofs.Faults
import CrochetShorthand.Proofs.Grammar
import CrochetShorthand.Proofs.Interruption
import CrochetShorthand.Proofs.Splitting

/-!
# Lines that differ in their blanks

A line may have other blanks where it has blanks: a tab for a space, or more of them
(`Text.Respaced`).  What it says is not changed by that, on no level of nesting.  Two lines that
differ in their blanks only are read piece by piece in lockstep.  Their pieces stand at the same
places (`Text.SamePlace`), give the same commands, and fail with the same kind of fault, where the
faults quote parts that stand at the same place of the two lines.

The splitter looks only at whether a character is a blank, and a gap ends a piece as a whole or not
at all.  Words hold no blanks, and neither do the brackets and the numeral of a group or the mark
of a comment; so the shape of a piece is the same whatever its blanks are.
-/

namespace CrochetShorthand

/-! ## Other blanks -/

namespace Text

/-- One blank or more, and nothing else. -/
structure IsGap (t : Text) : Prop where
  nonempty : t ≠ []
  blank : ∀ c ∈ t, isBlank c = true

/-- A text that does not start with a blank. -/
def StartsTight (t : Text) : Prop :=
  ∀ c ∈ t.head?, isBlank c = false

/-- The second text is the first with a gap in the place of every gap, and is the same otherwise.
The gaps are taken whole: no blank comes behind one. -/
inductive Respaced : Text → Text → Prop
  | nil : Respaced [] []
  | char {c : Char} {t u : Text} (hc : isBlank c = false) (h : Respaced t u) :
      Respaced (c :: t) (c :: u)
  | gap {gap gap' t u : Text} (hgap : IsGap gap) (hgap' : IsGap gap') (htight : StartsTight t)
      (h : Respaced t u) : Respaced (gap ++ t) (gap' ++ u)

theorem IsGap.append {s t : Text} (hs : IsGap s) (ht : IsGap t) : IsGap (s ++ t) := by
  constructor
  · exact List.append_ne_nil_of_left_ne_nil hs.nonempty t
  · intro c hc
    rcases List.mem_append.1 hc with h | h
    · exact hs.blank c h
    · exact ht.blank c h

/-- A gap starts with a blank. -/
theorem IsGap.exists_cons {gap : Text} (h : IsGap gap) :
    ∃ c rest, gap = c :: rest ∧ isBlank c = true := by
  obtain ⟨c, rest, rfl⟩ := List.exists_cons_of_ne_nil h.nonempty
  exact ⟨c, rest, rfl, h.blank c (List.mem_cons_self ..)⟩

theorem IsGap.not_startsTight {gap : Text} (h : IsGap gap) (t : Text) :
    ¬ StartsTight (gap ++ t) := by
  obtain ⟨c, rest, rfl, hc⟩ := h.exists_cons
  intro htight
  rw [htight c rfl] at hc
  contradiction

theorem startsTight_nil : StartsTight [] := by
  intro c hc
  contradiction

namespace Respaced

theorem startsTight {t u : Text} (h : Respaced t u) (ht : StartsTight t) : StartsTight u := by
  cases h with
  | nil => exact ht
  | char hc _ => exact stops_cons hc _
  | gap hgap _ _ _ => exact absurd ht (hgap.not_startsTight _)

theorem symm {t u : Text} (h : Respaced t u) : Respaced u t := by
  induction h with
  | nil => exact .nil
  | char hc _ ih => exact .char hc ih
  | gap hgap hgap' htight h ih => exact .gap hgap' hgap (h.startsTight htight) ih

/-- Gaps in front of texts that may start with gaps themselves. -/
theorem gap_append {gap gap' t u : Text} (hgap : IsGap gap) (hgap' : IsGap gap')
    (h : Respaced t u) : Respaced (gap ++ t) (gap' ++ u) := by
  cases h with
  | nil => exact .gap hgap hgap' startsTight_nil .nil
  | char hc h => exact .gap hgap hgap' (stops_cons hc _) (.char hc h)
  | gap hfirst hfirst' htight h =>
      rw [← List.append_assoc, ← List.append_assoc]
      exact .gap (hgap.append hfirst) (hgap'.append hfirst') htight h

theorem append {s t u v : Text} (hfront : Respaced s t) (hback : Respaced u v) :
    Respaced (s ++ u) (t ++ v) := by
  induction hfront with
  | nil => exact hback
  | char hc _ ih => exact .char hc ih
  | gap hgap hgap' _ _ ih =>
      rw [List.append_assoc, List.append_assoc]
      exact gap_append hgap hgap' ih

theorem eq_nil {t : Text} (h : Respaced [] t) : t = [] := by
  generalize hs : ([] : Text) = s at h
  cases h with
  | nil => rfl
  | char _ _ => contradiction
  | gap hgap _ _ _ => exact absurd (List.append_eq_nil_iff.1 hs.symm).1 hgap.nonempty

/-- A text without blanks has no other spacing. -/
theorem eq_of_no_blank {t u : Text} (h : Respaced t u) (ht : ∀ c ∈ t, isBlank c = false) :
    u = t := by
  induction h with
  | nil => rfl
  | char _ _ ih => rw [ih fun d hd => ht d (List.mem_cons_of_mem _ hd)]
  | gap hgap _ _ _ _ =>
      obtain ⟨c, rest, rfl, hc⟩ := hgap.exists_cons
      rw [ht c (by simp)] at hc
      contradiction

/-- A character that is no blank stays at its place. -/
theorem exists_of_append_cons {c : Char} (hc : isBlank c = false) {front back u : Text}
    (h : Respaced (front ++ c :: back) u) :
    ∃ front' back', u = front' ++ c :: back' ∧ Respaced front front' ∧ Respaced back back' := by
  generalize ht : front ++ c :: back = t at h
  induction h generalizing front with
  | nil => exact absurd ht (by simp)
  | @char d t u hd h ih =>
      cases front with
      | nil =>
          obtain ⟨rfl, rfl⟩ := List.cons.inj ht
          exact ⟨[], u, rfl, .nil, h⟩
      | cons e front =>
          obtain ⟨rfl, htail⟩ := List.cons.inj ht
          obtain ⟨front', back', rfl, hfront, hback⟩ := ih htail
          exact ⟨e :: front', back', rfl, .char hd hfront, hback⟩
  | @gap gap gap' t u hgap hgap' htight _ ih =>
      -- The character is no blank, so that it stands behind the whole gap.
      obtain ⟨front₂, rfl, htail⟩ : ∃ front₂, front = gap ++ front₂ ∧ front₂ ++ c :: back = t := by
        rcases List.append_eq_append_iff.1 ht with ⟨inside, rfl, hinside⟩ | ⟨front₂, rfl, htail⟩
        · cases inside with
          | nil => exact ⟨[], by simp, hinside⟩
          | cons d inside =>
              obtain ⟨rfl, -⟩ := List.cons.inj hinside
              rw [hgap.blank c (by simp)] at hc
              contradiction
        · exact ⟨front₂, rfl, htail.symm⟩
      obtain ⟨front', back', rfl, hfront, hback⟩ := ih htail
      exact ⟨gap' ++ front', back', by simp, gap_append hgap hgap' hfront, hback⟩

theorem exists_of_cons {c : Char} (hc : isBlank c = false) {t u : Text}
    (h : Respaced (c :: t) u) : ∃ rest, u = c :: rest ∧ Respaced t rest := by
  have hsplit : Respaced ([] ++ c :: t) u := h
  obtain ⟨front, rest, rfl, hfront, hrest⟩ := hsplit.exists_of_append_cons hc
  rw [hfront.eq_nil]
  exact ⟨rest, rfl, hrest⟩

/-- What stands in front of the first character that is no blank corresponds, and so does the
rest. -/
theorem leading {t u : Text} (h : Respaced t u) :
    Respaced (t.takeWhile isBlank) (u.takeWhile isBlank) ∧
      Respaced (trimStart t) (trimStart u) := by
  unfold trimStart
  cases h with
  | nil => exact ⟨.nil, .nil⟩
  | char hc h =>
      simp only [List.takeWhile_cons, List.dropWhile_cons, hc, Bool.false_eq_true, if_false]
      exact ⟨.nil, .char hc h⟩
  | gap hgap hgap' htight h =>
      obtain ⟨htake, hdrop⟩ := takeWhile_append_of_stop hgap.blank htight
      obtain ⟨htake', hdrop'⟩ := takeWhile_append_of_stop hgap'.blank (h.startsTight htight)
      rw [htake, hdrop, htake', hdrop']
      refine ⟨?_, h⟩
      simpa using gap_append hgap hgap' .nil

end Respaced

/-! ## One space for every gap -/

/-- A text with one space in the place of every gap: of the blanks of a gap only the last one
counts. -/
def spaced : Text → Text
  | [] => []
  | c :: t =>
    if isBlank c then
      if t.head?.any isBlank then spaced t else ' ' :: spaced t
    else
      c :: spaced t

theorem spaced_cons {c : Char} (hc : isBlank c = false) (t : Text) :
    spaced (c :: t) = c :: spaced t := by
  simp [spaced, hc]

theorem spaced_gap_append {gap t : Text} (hgap : IsGap gap) (ht : StartsTight t) :
    spaced (gap ++ t) = ' ' :: spaced t := by
  obtain ⟨hnonempty, hblank⟩ := hgap
  induction gap with
  | nil => contradiction
  | cons c gap ih =>
      obtain ⟨hc, hrest⟩ := List.forall_mem_cons.1 hblank
      cases gap with
      | nil =>
          have hlast : t.head?.any isBlank = false := by
            cases t with
            | nil => rfl
            | cons d t => exact ht d rfl
          simp [spaced, hc, hlast]
      | cons d gap =>
          have hmore : ((d :: gap) ++ t).head?.any isBlank = true := hrest d (List.mem_cons_self ..)
          rw [List.cons_append, spaced, if_pos hc, if_pos hmore]
          exact ih (List.cons_ne_nil d gap) hrest

/-- A text is empty, or starts with a character that is no blank, or starts with a whole gap. -/
theorem gap_cases (t : Text) :
    t = [] ∨ (∃ c rest, t = c :: rest ∧ isBlank c = false) ∨
      ∃ gap rest, t = gap ++ rest ∧ IsGap gap ∧ StartsTight rest := by
  cases t with
  | nil => exact .inl rfl
  | cons c t =>
      right
      cases hc : isBlank c with
      | false => exact .inl ⟨c, t, rfl, hc⟩
      | true =>
          right
          refine ⟨c :: t.takeWhile isBlank, t.dropWhile isBlank, ?_, ⟨List.cons_ne_nil _ _, ?_⟩, ?_⟩
          · rw [List.cons_append, List.takeWhile_append_dropWhile]
          · exact List.forall_mem_cons.2 ⟨hc, fun d hd => List.mem_takeWhile_imp hd⟩
          · intro d hd
            obtain ⟨rest, hrest⟩ := List.head?_eq_some_iff.1 hd
            exact LineScan.isBlank_of_trimStart_eq_cons hrest

/-- Two texts differ in their blanks only, when they are the same with one space for every gap. -/
theorem respaced_iff_spaced_eq (t u : Text) : Respaced t u ↔ spaced t = spaced u := by
  constructor
  · intro h
    induction h with
    | nil => rfl
    | char hc _ ih => rw [spaced_cons hc, spaced_cons hc, ih]
    | gap hgap hgap' htight h ih =>
        rw [spaced_gap_append hgap htight, spaced_gap_append hgap' (h.startsTight htight), ih]
  · intro h
    have hspace : isBlank ' ' = true := by decide
    -- A step takes one character or one gap from the front of both texts.
    induction hlength : t.length using Nat.strongRecOn generalizing t u with
    | ind length ih =>
        rcases gap_cases t with rfl | ⟨c, t, rfl, hc⟩ | ⟨gap, t, rfl, hgap, ht⟩
        · rcases gap_cases u with rfl | ⟨d, u, rfl, hd⟩ | ⟨gap', u, rfl, hgap', hu⟩
          · exact .nil
          · rw [spaced_cons hd] at h
            contradiction
          · rw [spaced_gap_append hgap' hu] at h
            contradiction
        · rw [spaced_cons hc] at h
          rcases gap_cases u with rfl | ⟨d, u, rfl, hd⟩ | ⟨gap', u, rfl, hgap', hu⟩
          · contradiction
          · rw [spaced_cons hd] at h
            obtain ⟨rfl, hrest⟩ := List.cons.inj h
            exact .char hc (ih t.length (by simp [← hlength]) t u hrest rfl)
          · rw [spaced_gap_append hgap' hu] at h
            rw [(List.cons.inj h).1, hspace] at hc
            contradiction
        · rw [spaced_gap_append hgap ht] at h
          rcases gap_cases u with rfl | ⟨d, u, rfl, hd⟩ | ⟨gap', u, rfl, hgap', hu⟩
          · contradiction
          · rw [spaced_cons hd] at h
            rw [← (List.cons.inj h).1, hspace] at hd
            contradiction
          · rw [spaced_gap_append hgap' hu] at h
            have hshorter : t.length < length := by
              have := List.length_pos_of_ne_nil hgap.nonempty
              rw [List.length_append] at hlength
              omega
            exact .gap hgap hgap' ht (ih t.length hshorter t u (List.cons.inj h).2 rfl)

instance (t u : Text) : Decidable (Respaced t u) :=
  decidable_of_iff _ (respaced_iff_spaced_eq t u).symm

/-! ## Places -/

/-- A part of the first text and a part of the second that stand at the same place: the parts, what
is in front of them and what is behind them differ in blanks only. -/
def SamePlace (t u part part' : Text) : Prop :=
  ∃ front back front' back', t = front ++ part ++ back ∧ u = front' ++ part' ++ back' ∧
    Respaced front front' ∧ Respaced part part' ∧ Respaced back back'

namespace SamePlace

theorem respaced {t u part part' : Text} (h : SamePlace t u part part') : Respaced part part' := by
  obtain ⟨_, _, _, _, _, _, _, hpart, _⟩ := h
  exact hpart

theorem self {t u : Text} (h : Respaced t u) : SamePlace t u t u :=
  ⟨[], [], [], [], by simp, by simp, .nil, h, .nil⟩

theorem trans {t u part part' inner inner' : Text} (h : SamePlace t u part part')
    (hinner : SamePlace part part' inner inner') : SamePlace t u inner inner' := by
  obtain ⟨front, back, front', back', rfl, rfl, hfront, -, hback⟩ := h
  obtain ⟨front₂, back₂, front₂', back₂', rfl, rfl, hfront₂, hmiddle, hback₂⟩ := hinner
  exact ⟨front ++ front₂, back₂ ++ back, front' ++ front₂', back₂' ++ back', by simp, by simp,
    hfront.append hfront₂, hmiddle, hback₂.append hback⟩

end SamePlace

end Text

open Text (Respaced SamePlace isBlank)

/-! ## Pieces -/

namespace LineScan

/-- Two states of the splitter that differ in blanks only. -/
structure Alike (left other : LineScan) : Prop where
  rest : Respaced left.rest other.rest
  depth : left.depth = other.depth

theorem unbroken_of_blanks {depth : Int} (hdepth : 0 < depth) {t : Text}
    (h : ∀ c ∈ t, isBlank c = true) : Unbroken depth t := by
  induction t with
  | nil => trivial
  | cons c t ih =>
      obtain ⟨hc, ht⟩ := List.forall_mem_cons.1 h
      rw [Unbroken, depthChange_of_isBlank hc, Int.add_zero]
      exact ⟨fun _ => hdepth, ih ht⟩

/-- The scan goes as far in the one text as in the other. -/
theorem scan_alike {t u : Text} (h : Respaced t u) (depth : Int) :
    Respaced (scan depth t).1 (scan depth u).1 ∧ Alike (scan depth t).2 (scan depth u).2 := by
  induction h generalizing depth with
  | nil => exact ⟨.nil, .nil, rfl⟩
  | char hc _ ih =>
      obtain ⟨hpiece, hafter⟩ := ih (depth + depthChange _)
      simp only [scan, hc, Bool.false_and, Bool.false_eq_true, if_false]
      exact ⟨.char hc hpiece, hafter⟩
  | @gap gap gap' t u hgap hgap' htight h ih =>
      by_cases hdepth : depth ≤ 0
      · -- Outside brackets both scans stop in front of the gap.
        have hstops : ∀ {gap : Text}, Text.IsGap gap → ∀ t,
            scan depth (gap ++ t) = ([], ⟨gap ++ t, depth⟩) := by
          intro gap hgap t
          obtain ⟨c, rest, rfl, hc⟩ := hgap.exists_cons
          simp [scan, hc, hdepth]
        rw [hstops hgap, hstops hgap']
        exact ⟨.nil, .gap hgap hgap' htight h, rfl⟩
      · have hinside : 0 < depth := by omega
        obtain ⟨hpiece, hafter⟩ := ih depth
        rw [scan_append (unbroken_of_blanks hinside hgap.blank),
          scan_append (unbroken_of_blanks hinside hgap'.blank), balance_of_blanks hgap.blank,
          balance_of_blanks hgap'.blank, Int.add_zero]
        exact ⟨.gap_append hgap hgap' hpiece, hafter⟩

/-- Both states have a next piece or none has, and the pieces correspond. -/
theorem next?_alike {left other : LineScan} (h : Alike left other) :
    (left.next? = none ∧ other.next? = none) ∨
      ∃ blanks piece after blanks' piece' after',
        left.next? = some (piece, after) ∧ other.next? = some (piece', after') ∧
        left.rest = blanks ++ piece ++ after.rest ∧ other.rest = blanks' ++ piece' ++ after'.rest ∧
        Respaced blanks blanks' ∧ Respaced piece piece' ∧ Alike after after' := by
  obtain ⟨hblanks, hrest⟩ := h.rest.leading
  have hsplit : ∀ {left : LineScan} {t : Text}, Text.trimStart left.rest = t →
      left.rest = left.rest.takeWhile isBlank ++ (scan left.depth t).1 ++
        (scan left.depth t).2.rest := by
    intro left t ht
    rw [List.append_assoc, ← (scan_split left.depth t).1, ← ht, Text.trimStart,
      List.takeWhile_append_dropWhile]
  cases htrim : Text.trimStart left.rest with
  | nil =>
      rw [htrim] at hrest
      left
      simp [next?, htrim, hrest.eq_nil]
  | cons c t =>
      cases htrim' : Text.trimStart other.rest with
      | nil =>
          rw [htrim, htrim'] at hrest
          exact absurd hrest.symm.eq_nil (List.cons_ne_nil c t)
      | cons c' t' =>
          rw [htrim, htrim'] at hrest
          obtain ⟨hpiece, hafter⟩ := scan_alike hrest left.depth
          right
          refine ⟨_, _, _, _, _, _, ?_, ?_, hsplit htrim, hsplit htrim', hblanks, ?_, ?_⟩
          · simp [next?, htrim]
          · simp [next?, htrim']
          · rw [← h.depth]
            exact hpiece
          · rw [← h.depth]
            exact hafter

/-- The pieces that are left stand at the same places of the two lines. -/
theorem toList_alike {left other : LineScan} (h : Alike left other) {front front' : Text}
    (hfront : Respaced front front') :
    List.Forall₂ (SamePlace (front ++ left.rest) (front' ++ other.rest)) left.toList
      other.toList := by
  fun_induction toList left generalizing front front' other with
  | case1 left hnext =>
      rcases next?_alike h with ⟨-, hnone⟩ | ⟨_, _, _, _, _, _, hsome, _⟩
      · rw [toList_of_none hnone]
        exact .nil
      · rw [hnext] at hsome
        contradiction
  | case2 left piece after hnext _ ih =>
      rcases next?_alike h with ⟨hnone, -⟩ |
        ⟨blanks, found, rest, blanks', piece', after', hsome, hnext', hsplit, hsplit', hblanks,
          hpiece, hafter⟩
      · rw [hnext] at hnone
        contradiction
      · obtain ⟨rfl, rfl⟩ := Prod.mk.inj (Option.some.inj (hnext.symm.trans hsome))
        have hlater := ih hafter ((hfront.append hblanks).append hpiece)
        rw [toList_of_some hnext', hsplit, hsplit']
        refine .cons ?_ ?_
        · exact ⟨front ++ blanks, after.rest, front' ++ blanks', after'.rest, by simp, by simp,
            hfront.append hblanks, hpiece, hafter.rest⟩
        · simpa only [List.append_assoc] using hlater

end LineScan

namespace Command

/-- The mark of a comment holds no blank. -/
theorem comment_of_respaced {t u : Text} (h : Respaced t u) (ht : commentMark <+: t) :
    commentMark <+: u := by
  have hslash : isBlank '/' = false := by decide
  obtain ⟨rest, rfl⟩ := ht
  have hmark : Respaced ('/' :: '/' :: rest) u := h
  obtain ⟨tail, rfl, htail⟩ := hmark.exists_of_cons hslash
  obtain ⟨tail', rfl, -⟩ := htail.exists_of_cons hslash
  exact ⟨tail', rfl⟩

/-- The pieces that a line says stand at the same places of the two lines. -/
theorem spokenPieces_alike {line other : Text} (h : Respaced line other) :
    List.Forall₂ (SamePlace line other) (spokenPieces line) (spokenPieces other) := by
  by_cases hcomment : commentMark <+: line
  · rw [spokenPieces_of_comment hcomment, spokenPieces_of_comment (comment_of_respaced h hcomment)]
    exact .nil
  · have hother : ¬ commentMark <+: other := by
      intro hmark
      exact hcomment (comment_of_respaced h.symm hmark)
    rw [spokenPieces_of_not_comment hcomment, spokenPieces_of_not_comment hother]
    have halike : LineScan.Alike (.ofLine line) (.ofLine other) := ⟨h, rfl⟩
    exact LineScan.toList_alike halike .nil

end Command

/-! ## Faults -/

/-- Faults of two lines that differ in their blanks: of one kind, with the same numbers, and what
they quote of the lines stands at the same place. -/
inductive Fault.SameAt (t u : Text) : Fault → Fault → Prop
  | unknownPiece {part part' : Text} (h : SamePlace t u part part') :
      SameAt t u (.unknownPiece part) (.unknownPiece part')
  | tooDeep {part part' : Text} {limit : Nat} (h : SamePlace t u part part') :
      SameAt t u (.tooDeep part limit) (.tooDeep part' limit)
  | bendDepth {round depth : UInt32} : SameAt t u (.bendDepth round depth) (.bendDepth round depth)

/-- What stands at the same place of parts stands at the same place of the texts around them. -/
theorem Fault.SameAt.within {t u part part' : Text} (hplace : SamePlace t u part part')
    {fault fault' : Fault} (h : SameAt part part' fault fault') : SameAt t u fault fault' := by
  cases h with
  | unknownPiece h => exact .unknownPiece (hplace.trans h)
  | tooDeep h => exact .tooDeep (hplace.trans h)
  | bendDepth => exact .bendDepth

/-- Results of reading two lines that differ in their blanks: the same value, or faults at the same
place. -/
inductive ReadAlike {α : Type} (t u : Text) : Except Fault α → Except Fault α → Prop
  | ok (value : α) : ReadAlike t u (.ok value) (.ok value)
  | error {fault fault' : Fault} (h : Fault.SameAt t u fault fault') :
      ReadAlike t u (.error fault) (.error fault')

namespace ReadAlike

variable {α β : Type} {t u : Text}

theorem within {part part' : Text} (hplace : SamePlace t u part part')
    {result result' : Except Fault α} (h : ReadAlike part part' result result') :
    ReadAlike t u result result' := by
  cases h with
  | ok value => exact .ok value
  | error h => exact .error (h.within hplace)

theorem map (g : α → β) {result result' : Except Fault α} (h : ReadAlike t u result result') :
    ReadAlike t u (result.map g) (result'.map g) := by
  cases h with
  | ok value => exact .ok (g value)
  | error h => exact .error h

/-- The first fault of the one list comes where the first of the other comes. -/
theorem mapM {read : Text → Except Fault α} {pieces pieces' : List Text}
    (h : List.Forall₂ (fun piece piece' => ReadAlike t u (read piece) (read piece')) pieces
      pieces') : ReadAlike t u (pieces.mapM read) (pieces'.mapM read) := by
  induction h with
  | nil => exact .ok []
  | @cons piece piece' pieces pieces' hpiece _ ih =>
      rw [List.mapM_cons, List.mapM_cons]
      generalize read piece = first at hpiece
      generalize read piece' = first' at hpiece
      cases hpiece with
      | error hfault => exact .error hfault
      | ok command =>
          generalize pieces.mapM read = rest at ih
          generalize pieces'.mapM read = rest' at ih
          cases ih with
          | error hfault => exact .error hfault
          | ok commands => exact .ok (command :: commands)

end ReadAlike

/-! ## Reading -/

namespace Command

/-- Words hold no blanks. -/
theorem WordDenotes.eq_of_respaced {piece other : Text} {command : Command}
    (hword : WordDenotes piece command) (h : Respaced piece other) : other = piece := by
  obtain ⟨word, hspells⟩ := exists_spells_of_wordDenotes hword
  apply h.eq_of_no_blank
  intro c hc
  exact Word.isBlank_of_isWordChar (Word.isWordChar_of_spells hspells c hc)

/-- A group stays a group, and its body stands at the same place. -/
theorem GroupPiece.exists_of_respaced {piece other body : Text} {times : UInt32}
    (hgroup : GroupPiece piece body times) (h : Respaced piece other) :
    ∃ body', GroupPiece other body' times ∧ SamePlace piece other body body' := by
  obtain ⟨digits, hnumeral, rfl⟩ := hgroup.numeral
  obtain ⟨rest, rfl, hrest⟩ := h.exists_of_cons (by decide)
  obtain ⟨body', digits', rfl, hbody, hdigits⟩ := hrest.exists_of_append_cons (by decide)
  have hsame : digits' = digits := by
    apply hdigits.eq_of_no_blank
    intro c hc
    exact Word.isBlank_of_isWordChar (Word.isWordChar_of_isDigit (hnumeral.run.allDigits c hc))
  rw [hsame] at hdigits ⊢
  have hnonempty : body' ≠ [] := by
    rintro rfl
    exact hgroup.nonempty hbody.symm.eq_nil
  refine ⟨body', ⟨hnonempty, digits, hnumeral, rfl⟩, ?_⟩
  have hopen : Respaced ['['] ['['] := .char (by decide) .nil
  have hclose : Respaced (']' :: digits) (']' :: digits) := .char (by decide) hdigits
  exact ⟨['['], ']' :: digits, ['['], ']' :: digits, rfl, rfl, hopen, hbody, hclose⟩

theorem Shapeless.of_respaced {piece other : Text} (hshapeless : Shapeless piece)
    (h : Respaced piece other) : Shapeless other := by
  constructor
  · intro command hword
    rw [hword.eq_of_respaced h.symm] at hshapeless
    exact hshapeless.not_word command hword
  · intro body times hgroup
    obtain ⟨body', hgroup', -⟩ := hgroup.exists_of_respaced h.symm
    exact hshapeless.not_group body' times hgroup'

/-- Two pieces that differ in their blanks are read alike, with all the groups in them. -/
theorem readPieceAt_alike (limit levels : Nat) {piece other : Text} (h : Respaced piece other) :
    ReadAlike piece other (readPieceAt limit levels piece) (readPieceAt limit levels other) := by
  induction levels using Nat.strongRecOn generalizing piece other with
  | ind levels ih =>
      rcases shape_cases piece with ⟨command, hword⟩ | ⟨body, times, hgroup⟩ | hshapeless
      · rw [hword.eq_of_respaced h, readPieceAt_of_wordDenotes limit levels hword]
        exact .ok command
      · obtain ⟨body', hgroup', hplace⟩ := hgroup.exists_of_respaced h
        cases levels with
        | zero =>
            rw [readPieceAt_zero_of_groupPiece limit hgroup,
              readPieceAt_zero_of_groupPiece limit hgroup']
            exact .error (.tooDeep (.self h))
        | succ below =>
            rw [readPieceAt_succ_of_groupPiece limit below hgroup,
              readPieceAt_succ_of_groupPiece limit below hgroup']
            -- The pieces of the bodies correspond, and each is read one level deeper.
            refine .map _ (.mapM ?_)
            refine (spokenPieces_alike hplace.respaced).imp ?_
            intro inner inner' hinner
            exact (ih below (by omega) hinner.respaced).within (hplace.trans hinner)
      · rw [readPieceAt_of_shapeless limit levels hshapeless,
          readPieceAt_of_shapeless limit levels (hshapeless.of_respaced h)]
        exact .error (.unknownPiece (.self h))

/-- The pieces of two lines that differ in their blanks are read alike, one by one. -/
theorem readEach_alike (limit : Nat) {line other : Text} (h : Respaced line other) :
    List.Forall₂ (ReadAlike line other) (readEach limit line) (readEach limit other) := by
  rw [readEach, readEach, List.forall₂_map_left_iff, List.forall₂_map_right_iff]
  exact (spokenPieces_alike h).imp fun piece piece' hplace =>
    (readPieceAt_alike limit limit hplace.respaced).within hplace

end Command

/-! ## The report -/

open Command (readPiece readEach spokenPieces)

/-- Meanings of two lines that differ in their blanks: the same stitches, and faults at the same
place. -/
structure Meaning.Alike (t u : Text) (meaning other : Meaning) : Prop where
  stitches : meaning.stitches = other.stitches
  fault : Option.Rel (Fault.SameAt t u) meaning.fault other.fault

namespace Meaning.Alike

variable {t u : Text}

theorem andThen {first first' second second' : Meaning} (hfirst : Alike t u first first')
    (hsecond : Alike t u second second') :
    Alike t u (first.andThen second) (first'.andThen second') := by
  obtain ⟨stitches, fault⟩ := first
  obtain ⟨stitches', fault'⟩ := first'
  obtain ⟨hstitches, hfault⟩ := hfirst
  obtain rfl : stitches = stitches' := hstitches
  cases hfault with
  | some hfault => exact ⟨rfl, .some hfault⟩
  | none => exact ⟨congrArg (stitches ++ ·) hsecond.stitches, hsecond.fault⟩

/-- A piece that is read stops at a bend, if at all, and a bend is not quoted from the line. -/
theorem ofPiece (limit : Nat) {piece piece' : Text} (hplace : SamePlace t u piece piece') :
    Alike t u (Meaning.ofPiece limit piece) (Meaning.ofPiece limit piece') := by
  have halike : ReadAlike t u (readPiece limit piece) (readPiece limit piece') :=
    (Command.readPieceAt_alike limit limit hplace.respaced).within hplace
  rw [Meaning.ofPiece, Meaning.ofPiece]
  generalize hread : readPiece limit piece = result at halike
  generalize readPiece limit piece' = result' at halike
  cases halike with
  | error hfault => exact ⟨rfl, .some hfault⟩
  | ok command =>
      refine ⟨rfl, ?_⟩
      show Option.Rel (Fault.SameAt t u) (ofCommand command).fault (ofCommand command).fault
      cases hfault : (ofCommand command).fault with
      | none => exact .none
      | some fault =>
          obtain ⟨round, depth, -, -, rfl⟩ := Command.fault_of_readPiece hread hfault
          exact .some .bendDepth

theorem ofPieces (limit : Nat) {pieces pieces' : List Text}
    (h : List.Forall₂ (SamePlace t u) pieces pieces') :
    Alike t u (Meaning.ofPieces limit pieces) (Meaning.ofPieces limit pieces') := by
  induction h with
  | nil => exact ⟨rfl, .none⟩
  | cons hpiece _ ih => exact (ofPiece limit hpiece).andThen ih

end Meaning.Alike

/-- Two lines of which the one is the other with a gap for every gap are read alike: piece by piece
they give the same commands, or faults of one kind that quote parts at the same place, inside the
same groups.  They have the same displays, and where the one has a fault the other has one.

This holds of comments too, since the mark of a comment holds no blank. -/
theorem alike_of_respaced (limit : Nat) {line other : Text} (h : Respaced line other) :
    List.Forall₂ (ReadAlike line other) (readEach limit line) (readEach limit other) ∧
      (Report.ofLine limit line).displays = (Report.ofLine limit other).displays ∧
      Option.Rel (Fault.SameAt line other) (Report.ofLine limit line).fault
        (Report.ofLine limit other).fault := by
  obtain ⟨hstitches, hfault⟩ := Meaning.Alike.ofPieces limit (Command.spokenPieces_alike h)
  refine ⟨Command.readEach_alike limit h, ?_, ?_⟩
  · generalize hline : (Meaning.ofPieces limit (spokenPieces line)).fault = fault at hfault
    generalize hother : (Meaning.ofPieces limit (spokenPieces other)).fault = fault' at hfault
    cases hfault with
    | none =>
        rw [Report.ofLine_of_fault_eq_none hline, Report.ofLine_of_fault_eq_none hother, hstitches]
    | some _ =>
        rw [Report.displays_ofLine_of_fault hline, Report.displays_ofLine_of_fault hother,
          hstitches]
  · rw [Report.fault_ofLine, Report.fault_ofLine]
    exact hfault

/-- Groups inside groups, a group of blanks, a bracket that closes nothing, and one that is never
closed. -/
theorem alike_of_respaced_of_brackets :
    Respaced "sc  [ [c]2\tsk ]3 [ ]2 x] [y  z".toList
        "sc\t[  [c]2 sk\n]3 [\u3000\t]2  x] [y\u00a0z".toList ∧
      (Report.ofLine 2 "sc  [ [c]2\tsk ]3 [ ]2 x] [y  z".toList).displays =
        (Report.ofLine 2 "sc\t[  [c]2 sk\n]3 [\u3000\t]2  x] [y\u00a0z".toList).displays := by
  have hrespaced : Respaced "sc  [ [c]2\tsk ]3 [ ]2 x] [y  z".toList
      "sc\t[  [c]2 sk\n]3 [\u3000\t]2  x] [y\u00a0z".toList := by
    decide +kernel
  obtain ⟨-, hdisplays, -⟩ := alike_of_respaced 2 hrespaced
  exact ⟨hrespaced, hdisplays⟩

end CrochetShorthand
