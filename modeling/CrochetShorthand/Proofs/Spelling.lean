import CrochetShorthand.Command.Reading
import CrochetShorthand.Proofs.Balance
import CrochetShorthand.Proofs.Numeral
import Mathlib.Data.List.Forall2

/-!
# How words are spelled

`Word.Spells` says which texts have the shape of a word, without a scanner.  The scanner
finds exactly these (`ofPiece?_eq_some_iff`): the longest candidate leaves nothing of a text
that has the shape of a word, and no text has the shape of two words, since the text up to
the first parenthesis tells them apart.

`Command.WordDenotes` adds the counts.  The second scan, over the runs of digits in the
piece, finds the digits between the parentheses and nothing else, so a piece outside
brackets reads as a command exactly when it denotes it (`ofWord?_eq_some_iff`).
-/

namespace CrochetShorthand

namespace Word

open Decimal (IsRun Numeral)

/-- The texts that have the shape of a word. -/
def Spells : Word → Text → Prop
  | keyword stitch, t => t = stitch.keyword
  | magicCircle, t => ∃ digits, IsRun digits ∧ t = ['m', 'c', '('] ++ digits ++ [')']
  | magicEllipse, t => ∃ digits, IsRun digits ∧ t = ['m', 'e', '('] ++ digits ++ [')']
  | bend, t => ∃ first second, IsRun first ∧ IsRun second ∧
      t = ['b', 'e', 'n', 'd', '('] ++ first ++ [','] ++ second ++ [')']

/-- The text has the shape of the word with these runs of digits between the parentheses. -/
inductive SpellsWith : Word → List Text → Text → Prop
  | keyword (stitch : Stitch) : SpellsWith (.keyword stitch) [] stitch.keyword
  | magicCircle {digits : Text} (h : IsRun digits) :
      SpellsWith .magicCircle [digits] (['m', 'c', '('] ++ digits ++ [')'])
  | magicEllipse {digits : Text} (h : IsRun digits) :
      SpellsWith .magicEllipse [digits] (['m', 'e', '('] ++ digits ++ [')'])
  | bend {first second : Text} (hfirst : IsRun first) (hsecond : IsRun second) :
      SpellsWith .bend [first, second]
        (['b', 'e', 'n', 'd', '('] ++ first ++ [','] ++ second ++ [')'])

/-- How many arguments a word has. -/
def arity : Word → Nat
  | keyword _ => 0
  | magicCircle => 1
  | magicEllipse => 1
  | bend => 2

/-- What a word has in front of its first parenthesis. -/
def stem : Word → Text
  | keyword stitch => stitch.keyword
  | magicCircle => ['m', 'c']
  | magicEllipse => ['m', 'e']
  | bend => ['b', 'e', 'n', 'd']

/-! ## Arguments in a text -/

section Arguments

variable {word : Word} {runs : List Text} {piece : Text}

theorem spells_iff_exists_runs (word : Word) (t : Text) :
    Spells word t ↔ ∃ runs, SpellsWith word runs t := by
  constructor
  · intro h
    cases word with
    | keyword stitch =>
        obtain rfl : t = stitch.keyword := h
        exact ⟨[], .keyword stitch⟩
    | magicCircle =>
        obtain ⟨digits, hrun, rfl⟩ := h
        exact ⟨[digits], .magicCircle hrun⟩
    | magicEllipse =>
        obtain ⟨digits, hrun, rfl⟩ := h
        exact ⟨[digits], .magicEllipse hrun⟩
    | bend =>
        obtain ⟨first, second, hfirst, hsecond, rfl⟩ := h
        exact ⟨[first, second], .bend hfirst hsecond⟩
  · rintro ⟨runs, h⟩
    cases h with
    | keyword stitch => rfl
    | magicCircle h | magicEllipse h => exact ⟨_, h, rfl⟩
    | bend hfirst hsecond => exact ⟨_, _, hfirst, hsecond, rfl⟩

theorem SpellsWith.length_eq (h : SpellsWith word runs piece) : runs.length = word.arity := by
  cases h <;> rfl

theorem SpellsWith.isRun (h : SpellsWith word runs piece) : ∀ run ∈ runs, IsRun run := by
  cases h with
  | keyword stitch => exact List.forall_mem_nil _
  | magicCircle h | magicEllipse h => exact List.forall_mem_singleton.2 h
  | bend hfirst hsecond =>
      exact List.forall_mem_cons.2 ⟨hfirst, List.forall_mem_singleton.2 hsecond⟩

/-- A word with arguments is its stem and, in parentheses, its runs of digits with a comma between
neighbours. -/
theorem spellsWith_iff_of_arity {more : Nat} (harity : word.arity = more + 1) :
    SpellsWith word runs piece ↔
      runs.length = more + 1 ∧ (∀ run ∈ runs, IsRun run) ∧
        piece = word.stem ++ ['('] ++ (Text.joinWith [','] runs ++ [')']) := by
  constructor
  · intro h
    refine ⟨h.length_eq.trans harity, h.isRun, ?_⟩
    cases h with
    | keyword stitch => contradiction
    | magicCircle _ | magicEllipse _ | bend _ _ => simp [stem, Text.joinWith]
  · rintro ⟨hlength, hruns, rfl⟩
    rw [← harity] at hlength
    cases word with
    | keyword stitch => contradiction
    | magicCircle =>
        obtain ⟨digits, rfl⟩ := List.length_eq_one_iff.1 hlength
        have hword := SpellsWith.magicCircle (List.forall_mem_singleton.1 hruns)
        simpa [stem, Text.joinWith] using hword
    | magicEllipse =>
        obtain ⟨digits, rfl⟩ := List.length_eq_one_iff.1 hlength
        have hword := SpellsWith.magicEllipse (List.forall_mem_singleton.1 hruns)
        simpa [stem, Text.joinWith] using hword
    | bend =>
        obtain ⟨first, second, rfl⟩ := List.length_eq_two.1 hlength
        obtain ⟨hfirst, hrest⟩ := List.forall_mem_cons.1 hruns
        have hword := SpellsWith.bend hfirst (List.forall_mem_singleton.1 hrest)
        simpa [stem, Text.joinWith] using hword

/-- The runs of digits in arguments are the arguments. -/
theorem runs_arguments {front : Text} (hfront : front.any Char.isDigit = false)
    (hruns : ∀ run ∈ runs, IsRun run) :
    Decimal.runs (front ++ (Text.joinWith [','] runs ++ [')'])) = runs := by
  rw [Decimal.runs, Decimal.runsAfter_nil_append hfront]
  clear hfront
  induction runs with
  | nil => rfl
  | cons run later ih =>
      obtain ⟨hrun, hlater⟩ := List.forall_mem_cons.1 hruns
      cases later with
      | nil => exact @Decimal.runsAfter_between [] run ')' rfl hrun (by decide) []
      | cons next later =>
          have hsplit : Text.joinWith [','] (run :: next :: later) ++ [')'] =
              [] ++ run ++ ',' :: (Text.joinWith [','] (next :: later) ++ [')']) := by
            simp [Text.joinWith]
          rw [hsplit, Decimal.runsAfter_between rfl hrun (by decide), ih hlater]

/-- The runs of digits in a word are those between its parentheses. -/
theorem SpellsWith.runs_eq (h : SpellsWith word runs piece) : Decimal.runs piece = runs := by
  cases harity : word.arity with
  | zero =>
      cases h with
      | keyword stitch => cases stitch <;> decide
      | magicCircle _ | magicEllipse _ | bend _ _ => contradiction
  | succ more =>
      obtain ⟨-, hruns, rfl⟩ := (spellsWith_iff_of_arity harity).1 h
      refine runs_arguments ?_ hruns
      cases word with
      | keyword stitch => contradiction
      | magicCircle | magicEllipse | bend => decide

theorem mapM_count?_eq_some_iff (runs : List Text) (numbers : List UInt32) :
    runs.mapM Decimal.count? = some numbers ↔ List.Forall₂ Numeral runs numbers := by
  induction runs generalizing numbers with
  | nil => simp [eq_comm]
  | cons run runs ih =>
      simp only [List.mapM_cons, Option.bind_eq_bind, Option.pure_def, Option.bind_eq_some_iff,
        Option.some.injEq, Decimal.count?_eq_some_iff, ih, List.forall₂_cons_left_iff]
      constructor
      · rintro ⟨first, hfirst, others, hothers, rfl⟩
        exact ⟨first, others, hfirst, hothers, rfl⟩
      · rintro ⟨first, others, hfirst, hothers, rfl⟩
        exact ⟨first, hfirst, others, hothers, rfl⟩

/-- The arguments of a piece are read when there are as many runs of digits, all of them
numerals. -/
theorem counts?_eq_some_iff (arity : Nat) (piece : Text) (numbers : List UInt32) :
    counts? arity piece = some numbers ↔
      (Decimal.runs piece).length = arity ∧ List.Forall₂ Numeral (Decimal.runs piece) numbers := by
  simp [counts?, mapM_count?_eq_some_iff]

theorem SpellsWith.counts?_eq_some_iff (h : SpellsWith word runs piece) (numbers : List UInt32) :
    counts? word.arity piece = some numbers ↔ List.Forall₂ Numeral runs numbers := by
  rw [Word.counts?_eq_some_iff, h.runs_eq]
  simp [h.length_eq]

end Arguments

/-! ## Shapes -/

theorem dropText?_eq_some_iff (characters t rest : Text) :
    dropText? characters t = some rest ↔ t = characters ++ rest := by
  induction characters generalizing t with
  | nil => simp [dropText?]
  | cons c characters ih =>
      cases t with
      | nil => simp [dropText?]
      | cons d t =>
          by_cases hcd : c = d
          · subst hcd
            simp [dropText?, ih]
          · simp [dropText?, hcd, Ne.symm hcd]

theorem shapeRest?_nil_eq_some_iff (t rest : Text) : shapeRest? [] t = some rest ↔ t = rest := by
  simp [shapeRest?]

theorem shapeRest?_cons_eq_some_iff (part : Part) (parts : List Part) (t rest : Text) :
    shapeRest? (part :: parts) t = some rest ↔
      ∃ middle, part.rest? t = some middle ∧ shapeRest? parts middle = some rest := by
  rw [shapeRest?]
  cases part.rest? t <;> simp

/-- The characters of a text part stand in front of what is left. -/
theorem shapeRest?_text_eq_some_iff (characters : Text) (parts : List Part) (t rest : Text) :
    shapeRest? (.text characters :: parts) t = some rest ↔
      ∃ middle, t = characters ++ middle ∧ shapeRest? parts middle = some rest := by
  rw [shapeRest?_cons_eq_some_iff]
  simp only [Part.rest?, dropText?_eq_some_iff]

/-- In front of a text part that starts with no digit, a digits part is a run of digits. -/
theorem shapeRest?_digits_eq_some_iff {c : Char} (hc : c.isDigit = false) (characters : Text)
    (parts : List Part) (t rest : Text) :
    shapeRest? (.digits :: .text (c :: characters) :: parts) t = some rest ↔
      ∃ digits middle, IsRun digits ∧ t = digits ++ c :: characters ++ middle ∧
        shapeRest? parts middle = some rest := by
  rw [shapeRest?_cons_eq_some_iff]
  simp only [Part.rest?, shapeRest?_text_eq_some_iff]
  constructor
  · intro h
    obtain ⟨after, hdigits, middle, rfl, hrest⟩ := h
    split at hdigits
    · contradiction
    · rename_i hnonempty
      refine ⟨t.takeWhile Char.isDigit, middle, ⟨?_, ?_⟩, ?_, hrest⟩
      · simpa using hnonempty
      · intro d hd
        exact List.all_eq_true.1 (List.all_takeWhile ..) d hd
      · rw [List.append_assoc, ← Option.some.inj hdigits, List.takeWhile_append_dropWhile]
  · -- The character behind the run stops the greedy scan just where the run ends.
    intro h
    obtain ⟨digits, middle, hrun, rfl, hrest⟩ := h
    have hstop : ∀ d ∈ (c :: characters ++ middle).head?, d.isDigit = false :=
      Text.stops_cons hc _
    obtain ⟨htake, hdrop⟩ := Text.takeWhile_append_of_stop hrun.allDigits hstop
    refine ⟨c :: characters ++ middle, ?_, middle, rfl, hrest⟩
    rw [List.append_assoc, htake, hdrop]
    simp [hrun.nonempty]

/-- The parts of the arguments behind the opening parenthesis, one and some more. -/
def argumentParts : Nat → List Part
  | 0 => [.digits, .text [')']]
  | more + 1 => .digits :: .text [','] :: argumentParts more

theorem shape_of_arity {word : Word} {more : Nat} (harity : word.arity = more + 1) :
    word.shape = .text (word.stem ++ ['(']) :: argumentParts more := by
  cases word with
  | keyword stitch => contradiction
  | magicCircle | magicEllipse | bend =>
      cases harity
      rfl

/-- The parts of arguments take runs of digits off the text, with a comma between neighbours. -/
theorem shapeRest?_argumentParts (more : Nat) (t rest : Text) :
    shapeRest? (argumentParts more) t = some rest ↔
      ∃ runs : List Text, runs.length = more + 1 ∧ (∀ run ∈ runs, IsRun run) ∧
        t = Text.joinWith [','] runs ++ [')'] ++ rest := by
  induction more generalizing t with
  | zero =>
      have hclose : (')' : Char).isDigit = false := by decide
      simp only [argumentParts, shapeRest?_digits_eq_some_iff hclose, shapeRest?_nil_eq_some_iff]
      constructor
      · rintro ⟨digits, _, hrun, rfl, rfl⟩
        exact ⟨[digits], rfl, List.forall_mem_singleton.2 hrun, rfl⟩
      · rintro ⟨runs, hlength, hruns, rfl⟩
        obtain ⟨digits, rfl⟩ := List.length_eq_one_iff.1 hlength
        exact ⟨digits, rest, List.forall_mem_singleton.1 hruns, rfl, rfl⟩
  | succ more ih =>
      have hcomma : (',' : Char).isDigit = false := by decide
      simp only [argumentParts, shapeRest?_digits_eq_some_iff hcomma, ih]
      constructor
      · rintro ⟨digits, _, hrun, rfl, runs, hlength, hruns, rfl⟩
        obtain ⟨next, later, rfl⟩ := List.exists_cons_of_length_eq_add_one hlength
        exact ⟨digits :: next :: later, by simpa using hlength,
          List.forall_mem_cons.2 ⟨hrun, hruns⟩, by simp [Text.joinWith]⟩
      · rintro ⟨runs, hlength, hruns, rfl⟩
        obtain ⟨digits, others, rfl⟩ := List.exists_cons_of_length_eq_add_one hlength
        rw [List.length_cons, Nat.succ.injEq] at hlength
        obtain ⟨next, later, rfl⟩ := List.exists_cons_of_length_eq_add_one hlength
        obtain ⟨hrun, hothers⟩ := List.forall_mem_cons.1 hruns
        exact ⟨digits, _, hrun, by simp [Text.joinWith], next :: later, hlength, hothers, rfl⟩

/-- A shape takes a spelling of its word off the text. -/
theorem shapeRest?_eq_some_iff (word : Word) (t rest : Text) :
    shapeRest? word.shape t = some rest ↔
      ∃ spelled, Spells word spelled ∧ t = spelled ++ rest := by
  cases harity : word.arity with
  | zero =>
      cases word with
      | keyword stitch =>
          rw [shape, shapeRest?_text_eq_some_iff]
          simp [shapeRest?_nil_eq_some_iff, Spells]
      | magicCircle | magicEllipse | bend => contradiction
  | succ more =>
      simp only [shape_of_arity harity, shapeRest?_text_eq_some_iff, shapeRest?_argumentParts,
        spells_iff_exists_runs, spellsWith_iff_of_arity harity]
      constructor
      · rintro ⟨_, rfl, runs, hlength, hruns, rfl⟩
        exact ⟨_, ⟨runs, hlength, hruns, rfl⟩, by simp⟩
      · rintro ⟨_, ⟨runs, hlength, hruns, rfl⟩, rfl⟩
        exact ⟨_, List.append_assoc .., runs, hlength, hruns, rfl⟩

/-- A shape leaves nothing of a text exactly when the text has the shape. -/
theorem shapeRest?_eq_some_nil_iff (word : Word) (t : Text) :
    shapeRest? word.shape t = some [] ↔ Spells word t := by
  rw [shapeRest?_eq_some_iff]
  simp

/-! ## One word at most -/

theorem stem_injective {v w : Word} (h : v.stem = w.stem) : v = w := by
  -- No keyword is the stem of a pattern, so only words of one kind can have the same stem.
  cases v with
  | keyword s =>
      cases w with
      | keyword t => rw [Stitch.keyword_injective h]
      | _ => cases s <;> simp [stem, Stitch.keyword] at h
  | _ =>
      cases w with
      | keyword t => cases t <;> simp [stem, Stitch.keyword] at h
      | _ => first | rfl | simp [stem] at h

theorem takeWhile_of_spells {word : Word} {t : Text} (h : Spells word t) :
    t.takeWhile (· != '(') = word.stem := by
  cases word with
  | keyword stitch =>
      obtain rfl : t = stitch.keyword := h
      cases stitch <;> rfl
  | magicCircle =>
      obtain ⟨digits, -, rfl⟩ := h
      rfl
  | magicEllipse =>
      obtain ⟨digits, -, rfl⟩ := h
      rfl
  | bend =>
      obtain ⟨first, second, -, -, rfl⟩ := h
      rfl

/-- No text has the shape of two words. -/
theorem spells_unique {v w : Word} {t : Text} (hv : Spells v t) (hw : Spells w t) : v = w := by
  apply stem_injective
  rw [← takeWhile_of_spells hv, takeWhile_of_spells hw]

/-! ## The longest candidate -/

/-- The longest of the words that a text starts with, among the given ones. -/
def scanAmong (t : Text) (words : List Word) : Option (Word × Text) :=
  words.foldr
    (fun word best => longer ((shapeRest? word.shape t).map fun rest => (word, rest)) best) none

theorem scan?_eq_scanAmong (t : Text) : scan? t = scanAmong t all := rfl

theorem mem_all (word : Word) : word ∈ all := by
  cases word with
  | keyword stitch => cases stitch <;> simp [all, Stitch.all]
  | _ => simp [all]

theorem scanAmong_sound {t rest : Text} {words : List Word} {word : Word}
    (h : scanAmong t words = some (word, rest)) : shapeRest? word.shape t = some rest := by
  induction words with
  | nil => contradiction
  | cons first others ih =>
      change longer _ (scanAmong t others) = some (word, rest) at h
      cases hfirst : shapeRest? first.shape t with
      | none =>
          rw [hfirst] at h
          exact ih h
      | some left =>
          rw [hfirst] at h
          cases hothers : scanAmong t others with
          | none =>
              rw [hothers] at h
              obtain ⟨rfl, rfl⟩ := Prod.mk.inj (Option.some.inj h)
              exact hfirst
          | some other =>
              rw [hothers] at h
              simp only [longer, Option.map_some] at h
              split at h
              · exact ih (hothers.trans h)
              · obtain ⟨rfl, rfl⟩ := Prod.mk.inj (Option.some.inj h)
                exact hfirst

/-- The candidate that is found leaves no more of the text than any other. -/
theorem scanAmong_longest {t rest : Text} {words : List Word} {word : Word} (hmem : word ∈ words)
    (h : shapeRest? word.shape t = some rest) :
    ∃ found left, scanAmong t words = some (found, left) ∧ left.length ≤ rest.length := by
  induction words with
  | nil => contradiction
  | cons first others ih =>
      change ∃ found left, longer _ (scanAmong t others) = some (found, left) ∧ _
      rcases List.mem_cons.1 hmem with rfl | hothers
      · rw [h]
        cases hscan : scanAmong t others with
        | none => exact ⟨word, rest, rfl, Nat.le_refl _⟩
        | some other =>
            simp only [longer, Option.map_some]
            split
            · rename_i hlt
              exact ⟨other.1, other.2, rfl, Nat.le_of_lt hlt⟩
            · exact ⟨word, rest, rfl, Nat.le_refl _⟩
      · obtain ⟨found, left, hscan, hle⟩ := ih hothers
        rw [hscan]
        cases shapeRest? first.shape t with
        | none => exact ⟨found, left, rfl, hle⟩
        | some firstLeft =>
            simp only [longer, Option.map_some]
            split
            · exact ⟨found, left, rfl, hle⟩
            · rename_i hlt
              exact ⟨first, firstLeft, rfl, by omega⟩

/-- The scanner gives the word whose shape the whole piece has. -/
theorem ofPiece?_eq_some_iff (piece : Text) (word : Word) :
    ofPiece? piece = some word ↔ Spells word piece := by
  rw [ofPiece?, scan?_eq_scanAmong]
  constructor
  · intro h
    split at h
    · rename_i found hscan
      obtain rfl := Option.some.inj h
      exact (shapeRest?_eq_some_nil_iff found piece).1 (scanAmong_sound hscan)
    · contradiction
  · intro h
    -- The word leaves nothing of the piece, so the longest candidate leaves nothing either, and
    -- then the piece has the shape of both.
    obtain ⟨found, left, hscan, hle⟩ :=
      scanAmong_longest (mem_all word) ((shapeRest?_eq_some_nil_iff word piece).2 h)
    obtain rfl : left = [] := by simpa using hle
    have hfound := (shapeRest?_eq_some_nil_iff found piece).1 (scanAmong_sound hscan)
    rw [hscan, spells_unique hfound h]

/-! ## Characters of words -/

/-- A character that is no blank, no bracket and no slash. -/
def isWordChar (c : Char) : Bool :=
  !Text.isBlank c && c != '[' && c != ']' && c != '/'

theorem isBlank_of_isWordChar {c : Char} (h : isWordChar c = true) : Text.isBlank c = false := by
  simp only [isWordChar, Bool.and_eq_true, Bool.not_eq_true'] at h
  exact h.1.1.1

theorem isWordChar_of_isDigit {c : Char} (h : c.isDigit = true) : isWordChar c = true := by
  have hrange := Char.isDigit_iff_toNat.1 h
  have hlow : 48 ≤ c.toNat := hrange.1
  have hhigh : c.toNat ≤ 57 := hrange.2
  have hblank : Text.isBlank c = false := by
    simp only [Text.isBlank, Text.blankRanges, List.any_eq_false, Bool.and_eq_true,
      decide_eq_true_eq, List.forall_mem_cons]
    refine ⟨?_, ?_, ?_, ?_, ?_, ?_, ?_, ?_, ?_, ?_, by simp⟩ <;> omega
  have hne : ∀ d : Char, ¬ (48 ≤ d.toNat ∧ d.toNat ≤ 57) → (c != d) = true := by
    intro d hd
    rw [bne_iff_ne]
    rintro rfl
    exact hd ⟨hlow, hhigh⟩
  rw [isWordChar, hblank, hne '[' (by decide), hne ']' (by decide), hne '/' (by decide)]
  rfl

theorem isWordChar_of_spells {word : Word} {t : Text} (h : Spells word t) :
    ∀ c ∈ t, isWordChar c = true := by
  have hdigits : ∀ {digits : Text}, IsRun digits → digits.all isWordChar = true :=
    fun hrun => List.all_eq_true.2 fun c hc => isWordChar_of_isDigit (hrun.allDigits c hc)
  -- The letters and signs are closed terms, so what is left are the digits between them.
  apply List.all_eq_true.1
  cases word with
  | keyword stitch =>
      obtain rfl : t = stitch.keyword := h
      cases stitch <;> decide
  | magicCircle =>
      obtain ⟨digits, hrun, rfl⟩ := h
      simp only [List.all_append, hdigits hrun]
      decide
  | magicEllipse =>
      obtain ⟨digits, hrun, rfl⟩ := h
      simp only [List.all_append, hdigits hrun]
      decide
  | bend =>
      obtain ⟨first, second, hfirst, hsecond, rfl⟩ := h
      simp only [List.all_append, hdigits hfirst, hdigits hsecond]
      decide

/-- Characters of words neither end a piece nor change the bracket depth. -/
theorem unbroken_of_isWordChar {t : Text} (h : ∀ c ∈ t, isWordChar c = true) (depth : Int) :
    LineScan.Unbroken depth t ∧ LineScan.balance t = 0 := by
  induction t with
  | nil => exact ⟨trivial, rfl⟩
  | cons c t ih =>
      obtain ⟨hrest, hbalance⟩ := ih fun d hd => h d (List.mem_cons_of_mem c hd)
      have hc := h c (List.mem_cons_self ..)
      simp only [isWordChar, Bool.and_eq_true, Bool.not_eq_true', bne_iff_ne] at hc
      have hchange : LineScan.depthChange c = 0 := by simp [LineScan.depthChange, hc]
      rw [LineScan.Unbroken, LineScan.balance, hchange, hbalance, Int.add_zero]
      exact ⟨⟨fun hblank => by simp [hblank] at hc, hrest⟩, rfl⟩

theorem ne_nil_of_spells {word : Word} {t : Text} (h : Spells word t) : t ≠ [] := by
  rintro rfl
  have hstem := takeWhile_of_spells h
  cases word with
  | keyword stitch => cases stitch <;> contradiction
  | _ => contradiction

/-- A word is one piece. -/
theorem whole_of_spells {word : Word} {t : Text} (h : Spells word t) : LineScan.Whole t := by
  obtain ⟨hunbroken, hbalance⟩ := unbroken_of_isWordChar (isWordChar_of_spells h) 0
  exact ⟨ne_nil_of_spells h, hunbroken, hbalance⟩

end Word

namespace Command

open Decimal (IsRun Numeral)
open Word (Spells SpellsWith ofPiece?_eq_some_iff)

/-- What a piece outside brackets denotes: a keyword its stitch, and the shape of a pattern the
pattern whose arguments its numerals spell. -/
inductive WordDenotes : Text → Command → Prop
  | stitch (s : Stitch) : WordDenotes s.keyword (.stitch s)
  | magicCircle {digits : Text} {n : UInt32} (h : Numeral digits n) :
      WordDenotes (['m', 'c', '('] ++ digits ++ [')']) (.pattern (.magicCircle n))
  | magicEllipse {digits : Text} {n : UInt32} (h : Numeral digits n) :
      WordDenotes (['m', 'e', '('] ++ digits ++ [')']) (.pattern (.magicEllipse n))
  | bend {first second : Text} {round depth : UInt32} (hround : Numeral first round)
      (hdepth : Numeral second depth) :
      WordDenotes (['b', 'e', 'n', 'd', '('] ++ first ++ [','] ++ second ++ [')'])
        (.pattern (.bend round depth))

theorem exists_spells_of_wordDenotes {piece : Text} {command : Command}
    (h : WordDenotes piece command) : ∃ word, Spells word piece := by
  cases h with
  | stitch s => exact ⟨.keyword s, rfl⟩
  | magicCircle h => exact ⟨.magicCircle, _, h.run, rfl⟩
  | magicEllipse h => exact ⟨.magicEllipse, _, h.run, rfl⟩
  | bend hround hdepth => exact ⟨.bend, _, _, hround.run, hdepth.run, rfl⟩

theorem wordDenotes_of_ofWord? {piece : Text} {command : Command}
    (h : ofWord? piece = some command) : WordDenotes piece command := by
  unfold ofWord? at h
  split at h
  · contradiction
  · rename_i s hword
    obtain rfl : piece = s.keyword := (ofPiece?_eq_some_iff piece _).1 hword
    obtain rfl := Option.some.inj h
    exact .stitch s
  · rename_i hword
    obtain ⟨digits, hrun, rfl⟩ := (ofPiece?_eq_some_iff piece _).1 hword
    split at h
    · rename_i n hcounts
      have hnumerals := ((SpellsWith.magicCircle hrun).counts?_eq_some_iff _).1 hcounts
      obtain rfl := Option.some.inj h
      exact .magicCircle (List.forall₂_cons.1 hnumerals).1
    · contradiction
  · rename_i hword
    obtain ⟨digits, hrun, rfl⟩ := (ofPiece?_eq_some_iff piece _).1 hword
    split at h
    · rename_i n hcounts
      have hnumerals := ((SpellsWith.magicEllipse hrun).counts?_eq_some_iff _).1 hcounts
      obtain rfl := Option.some.inj h
      exact .magicEllipse (List.forall₂_cons.1 hnumerals).1
    · contradiction
  · rename_i hword
    obtain ⟨first, second, hfirst, hsecond, rfl⟩ := (ofPiece?_eq_some_iff piece _).1 hword
    split at h
    · rename_i round depth hcounts
      have hnumerals := ((SpellsWith.bend hfirst hsecond).counts?_eq_some_iff _).1 hcounts
      obtain ⟨hround, hrest⟩ := List.forall₂_cons.1 hnumerals
      obtain rfl := Option.some.inj h
      exact .bend hround (List.forall₂_cons.1 hrest).1
    · contradiction

theorem ofWord?_of_wordDenotes {piece : Text} {command : Command}
    (h : WordDenotes piece command) : ofWord? piece = some command := by
  cases h with
  | stitch s => rw [ofWord?, (ofPiece?_eq_some_iff _ (.keyword s)).2 rfl]
  | @magicCircle digits n h =>
      have hcounts : Word.counts? 1 _ = some [n] :=
        ((SpellsWith.magicCircle h.run).counts?_eq_some_iff [n]).2 (.cons h .nil)
      rw [ofWord?, (ofPiece?_eq_some_iff _ .magicCircle).2 ⟨digits, h.run, rfl⟩, hcounts]
  | @magicEllipse digits n h =>
      have hcounts : Word.counts? 1 _ = some [n] :=
        ((SpellsWith.magicEllipse h.run).counts?_eq_some_iff [n]).2 (.cons h .nil)
      rw [ofWord?, (ofPiece?_eq_some_iff _ .magicEllipse).2 ⟨digits, h.run, rfl⟩, hcounts]
  | @bend first second round depth hround hdepth =>
      have hcounts : Word.counts? 2 _ = some [round, depth] :=
        ((SpellsWith.bend hround.run hdepth.run).counts?_eq_some_iff _).2
          (.cons hround (.cons hdepth .nil))
      rw [ofWord?,
        (ofPiece?_eq_some_iff _ .bend).2 ⟨first, second, hround.run, hdepth.run, rfl⟩, hcounts]

/-- A piece outside brackets is read as the command that it denotes. -/
theorem ofWord?_eq_some_iff (piece : Text) (command : Command) :
    ofWord? piece = some command ↔ WordDenotes piece command :=
  ⟨wordDenotes_of_ofWord?, ofWord?_of_wordDenotes⟩

end Command

end CrochetShorthand
