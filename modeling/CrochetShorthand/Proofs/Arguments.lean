import CrochetShorthand.Proofs.Reading

/-!
# Words and their arguments

A piece outside brackets is scanned twice.  The first scan finds the longest word that the piece
starts with, and the piece is that word when nothing is left (`scan?_eq_some_iff_longest`).  The
second one looks only for runs of digits.

The two agree: in a piece that is a word, the second scan finds the digits between the parentheses,
as many runs as the word has arguments and in their order (`SpellsWith.runs_eq`).  So it never
misses an argument and never finds one too many.  What can still be wrong is a number: a run of
digits for zero, or for more than a word of 32 bits holds.
-/

namespace CrochetShorthand

namespace Word

open Decimal (IsRun Numeral)

/-! ## The longest word -/

/-- The text starts with a spelling of the word, up to the rest, and with no longer spelling of any
word. -/
structure LongestIn (t rest : Text) (word : Word) : Prop where
  starts : ∃ spelled, Spells word spelled ∧ t = spelled ++ rest
  longest : ∀ other spelled left, Spells other spelled → t = spelled ++ left →
    rest.length ≤ left.length

/-- The first scan finds the longest word. -/
theorem scan?_eq_some_iff_longest (t rest : Text) (word : Word) :
    scan? t = some (word, rest) ↔ LongestIn t rest word := by
  rw [scan?_eq_scanAmong]
  constructor
  · intro h
    refine ⟨(shapeRest?_eq_some_iff _ _ _).1 (scanAmong_sound h), ?_⟩
    intro other spelled left hspells ht
    have hother := (shapeRest?_eq_some_iff other t left).2 ⟨spelled, hspells, ht⟩
    obtain ⟨found, foundLeft, hscan, hle⟩ := scanAmong_longest (mem_all other) hother
    rw [h] at hscan
    obtain ⟨-, rfl⟩ := Prod.mk.inj (Option.some.inj hscan)
    exact hle
  · rintro ⟨⟨spelled, hspells, rfl⟩, hlongest⟩
    have hword := (shapeRest?_eq_some_iff word _ rest).2 ⟨spelled, hspells, rfl⟩
    obtain ⟨found, left, hscan, hle⟩ := scanAmong_longest (mem_all word) hword
    obtain ⟨other, hother, heq⟩ := (shapeRest?_eq_some_iff _ _ _).1 (scanAmong_sound hscan)
    -- Both leave as much, so both are spelled by the same text.
    have hlength : rest.length = left.length :=
      Nat.le_antisymm (hlongest found other left hother heq) hle
    obtain ⟨rfl, rfl⟩ := List.append_inj' heq hlength
    rw [hscan, spells_unique hother hspells]

/-! ## The scan for arguments -/

/-- How the scan for the arguments of a word ends. -/
inductive ArgumentScan
  /-- Every argument has its count, and no run is left. -/
  | counts (numbers : List UInt32)
  /-- An argument finds no run. -/
  | missing
  /-- The run for an argument is no count. -/
  | unfit (run : Text)
  /-- A run is left behind the last argument. -/
  | extra (run : Text)
deriving DecidableEq, Repr

/-- The scan with a count found in front. -/
def ArgumentScan.behind (first : UInt32) : ArgumentScan → ArgumentScan
  | .counts numbers => .counts (first :: numbers)
  | stopped => stopped

/-- Take the arguments from the runs, one after another, and look for a run behind them. -/
def scanArguments : Nat → List Text → ArgumentScan
  | 0, [] => .counts []
  | 0, run :: _ => .extra run
  | _ + 1, [] => .missing
  | arity + 1, run :: runs =>
      match Decimal.count? run with
      | none => .unfit run
      | some first => (scanArguments arity runs).behind first

theorem behind_eq_counts_iff (first : UInt32) (scan : ArgumentScan) (numbers : List UInt32) :
    scan.behind first = .counts numbers ↔
      ∃ others, scan = .counts others ∧ numbers = first :: others := by
  cases scan <;> simp [ArgumentScan.behind, eq_comm]

theorem scanArguments_eq_counts_iff (arity : Nat) (runs : List Text) (numbers : List UInt32) :
    scanArguments arity runs = .counts numbers ↔
      runs.length = arity ∧ List.Forall₂ Numeral runs numbers := by
  induction arity generalizing runs numbers with
  | zero => cases runs <;> simp [scanArguments, eq_comm]
  | succ arity ih =>
      cases runs with
      | nil => simp [scanArguments]
      | cons run runs =>
          rw [scanArguments, List.length_cons, Nat.succ.injEq, List.forall₂_cons_left_iff]
          simp only [← Decimal.count?_eq_some_iff run]
          cases Decimal.count? run with
          | none => simp
          | some first =>
              simp only [behind_eq_counts_iff, ih, Option.some.injEq]
              constructor
              · rintro ⟨others, ⟨hlength, hothers⟩, rfl⟩
                exact ⟨hlength, first, others, rfl, hothers, rfl⟩
              · rintro ⟨hlength, _, others, rfl, hothers, rfl⟩
                exact ⟨others, ⟨hlength, hothers⟩, rfl⟩

/-- The arguments are read when the scan ends with a count for each. -/
theorem counts?_eq_some_iff_scanArguments (arity : Nat) (piece : Text) (numbers : List UInt32) :
    counts? arity piece = some numbers ↔
      scanArguments arity (Decimal.runs piece) = .counts numbers := by
  rw [counts?_eq_some_iff, scanArguments_eq_counts_iff]

/-- With as many runs as arguments, the scan ends with a count for each run, or at the first run
that is no count. -/
theorem scanArguments_cases (runs : List Text) :
    (∃ numbers, List.Forall₂ Numeral runs numbers ∧
      scanArguments runs.length runs = .counts numbers) ∨
    ∃ before run later, runs = before ++ run :: later ∧
      (∀ earlier ∈ before, ∃ n, Numeral earlier n) ∧ (∀ n, ¬ Numeral run n) ∧
        scanArguments runs.length runs = .unfit run := by
  induction runs with
  | nil => exact .inl ⟨[], .nil, rfl⟩
  | cons run runs ih =>
      rw [List.length_cons, scanArguments]
      cases hcount : Decimal.count? run with
      | none =>
          refine .inr ⟨[], run, runs, rfl, List.forall_mem_nil _, ?_, rfl⟩
          intro n hn
          rw [(Decimal.count?_eq_some_iff run n).2 hn] at hcount
          contradiction
      | some first =>
          have hfirst := (Decimal.count?_eq_some_iff run first).1 hcount
          dsimp only
          rcases ih with ⟨numbers, hnumbers, hscan⟩ |
            ⟨before, stop, later, rfl, hbefore, hstop, hscan⟩
          · rw [hscan]
            exact .inl ⟨first :: numbers, .cons hfirst hnumbers, rfl⟩
          · rw [hscan]
            exact .inr ⟨run :: before, stop, later, rfl,
              List.forall_mem_cons.2 ⟨⟨first, hfirst⟩, hbefore⟩, hstop, rfl⟩

/-! ## What is wrong with a number -/

/-- A run of digits is a count unless its value is zero or more than a word holds. -/
theorem exists_numeral_iff {run : Text} (h : IsRun run) :
    (∃ n, Numeral run n) ↔
      ¬ (Nat.ofDigitChars 10 run 0 = 0 ∨ UInt32.size ≤ Nat.ofDigitChars 10 run 0) := by
  constructor
  · rintro ⟨n, hn⟩
    have hpositive := hn.positive
    have hlt := n.toNat_lt_size
    rw [hn.value]
    omega
  · intro hrange
    have hvalue : (UInt32.ofNat (Nat.ofDigitChars 10 run 0)).toNat = Nat.ofDigitChars 10 run 0 :=
      UInt32.toNat_ofNat_of_lt' (by omega)
    exact ⟨_, h, hvalue.symm, by omega⟩

end Word

namespace Command

open Decimal (Numeral)
open Word (Spells SpellsWith)

variable {word : Word} {runs : List Text} {piece : Text}

/-- The runs of digits in a piece that denotes a command are numerals. -/
theorem WordDenotes.exists_numeral {command : Command} (h : WordDenotes piece command) :
    ∀ run ∈ Decimal.runs piece, ∃ n, Numeral run n := by
  cases h with
  | stitch s =>
      rw [(SpellsWith.keyword s).runs_eq]
      exact List.forall_mem_nil _
  | magicCircle h =>
      rw [(SpellsWith.magicCircle h.run).runs_eq]
      exact List.forall_mem_singleton.2 ⟨_, h⟩
  | magicEllipse h =>
      rw [(SpellsWith.magicEllipse h.run).runs_eq]
      exact List.forall_mem_singleton.2 ⟨_, h⟩
  | bend hround hdepth =>
      rw [(SpellsWith.bend hround.run hdepth.run).runs_eq]
      exact List.forall_mem_cons.2 ⟨⟨_, hround⟩, List.forall_mem_singleton.2 ⟨_, hdepth⟩⟩

/-- A word with numerals for its arguments denotes a command. -/
theorem exists_wordDenotes_of_numerals (h : SpellsWith word runs piece)
    (hnumerals : ∀ run ∈ runs, ∃ n, Numeral run n) : ∃ command, WordDenotes piece command := by
  cases h with
  | keyword stitch => exact ⟨_, .stitch stitch⟩
  | magicCircle _ =>
      obtain ⟨n, hn⟩ := List.forall_mem_singleton.1 hnumerals
      exact ⟨_, .magicCircle hn⟩
  | magicEllipse _ =>
      obtain ⟨n, hn⟩ := List.forall_mem_singleton.1 hnumerals
      exact ⟨_, .magicEllipse hn⟩
  | bend _ _ =>
      obtain ⟨⟨round, hround⟩, hsecond⟩ := List.forall_mem_cons.1 hnumerals
      obtain ⟨depth, hdepth⟩ := List.forall_mem_singleton.1 hsecond
      exact ⟨_, .bend hround hdepth⟩

/-- A word is no command exactly when one of its arguments is zero or more than a word holds. -/
theorem ofWord?_eq_none_iff (h : SpellsWith word runs piece) :
    ofWord? piece = none ↔
      ∃ run ∈ runs, Nat.ofDigitChars 10 run 0 = 0 ∨ UInt32.size ≤ Nat.ofDigitChars 10 run 0 := by
  have hcommand : (∃ command, WordDenotes piece command) ↔ ∀ run ∈ runs, ∃ n, Numeral run n := by
    constructor
    · rintro ⟨command, hcommand⟩
      rw [← h.runs_eq]
      exact hcommand.exists_numeral
    · exact exists_wordDenotes_of_numerals h
  have hnumeral : ∀ run ∈ runs, (¬ ∃ n, Numeral run n) ↔
      (Nat.ofDigitChars 10 run 0 = 0 ∨ UInt32.size ≤ Nat.ofDigitChars 10 run 0) := by
    intro run hrun
    rw [Word.exists_numeral_iff (h.isRun run hrun), not_not]
  calc
    ofWord? piece = none ↔ ¬ ∃ command, WordDenotes piece command := by
      simp only [← ofWord?_eq_some_iff, Option.eq_none_iff_forall_ne_some, not_exists, ne_eq]
    _ ↔ ∃ run ∈ runs, ¬ ∃ n, Numeral run n := by
      rw [hcommand]
      simp only [not_forall, exists_prop]
    _ ↔ _ := exists_congr fun run => and_congr_right (hnumeral run)

/-- The command of a word is its reading, and a word that is no command is not read. -/
theorem readPiece_eq_error_iff_of_spells (limit : Nat) (h : Spells word piece) :
    readPiece limit piece = .error (.unknownPiece piece) ↔ ofWord? piece = none := by
  have hopens := opensGroup_of_spells h
  cases hword : ofWord? piece <;> cases limit <;> simp [readPiece, readPieceAt, hopens, hword]

end Command

namespace Word

open Command (ofWord? readPiece)
open Decimal (Numeral)

/-- The first scan finds the longest word that a piece starts with.  So a piece is a word exactly
when the whole of it is spelled as one, which is no more than one word.  In a piece that is a word,
the second scan finds just the runs of digits between the parentheses, one for each argument.  It
ends with the counts that these are numerals of, or at the first that is none, and never with an
argument missing or a run too many.  Such a piece is no command, and is not read, exactly when one
of the runs has the value zero or a value beyond a word of 32 bits. -/
theorem words_and_arguments_agree (piece : Text) :
    (∀ word rest, scan? piece = some (word, rest) ↔ LongestIn piece rest word) ∧
    (∀ word, ofPiece? piece = some word ↔ Spells word piece) ∧
    (∀ v w, Spells v piece → Spells w piece → v = w) ∧
    ∀ word, ofPiece? piece = some word →
      ∃ runs, SpellsWith word runs piece ∧ Decimal.runs piece = runs ∧ runs.length = word.arity ∧
        ((∃ numbers, List.Forall₂ Numeral runs numbers ∧
            scanArguments word.arity runs = .counts numbers) ∨
          ∃ before run later, runs = before ++ run :: later ∧
            (∀ earlier ∈ before, ∃ n, Numeral earlier n) ∧ (∀ n, ¬ Numeral run n) ∧
              scanArguments word.arity runs = .unfit run) ∧
        (∀ numbers, counts? word.arity piece = some numbers ↔
          scanArguments word.arity runs = .counts numbers) ∧
        (ofWord? piece = none ↔ ∃ run ∈ runs,
          Nat.ofDigitChars 10 run 0 = 0 ∨ UInt32.size ≤ Nat.ofDigitChars 10 run 0) ∧
        ∀ limit, readPiece limit piece = .error (.unknownPiece piece) ↔ ofWord? piece = none := by
  refine ⟨fun word rest => scan?_eq_some_iff_longest piece rest word, ofPiece?_eq_some_iff piece,
    fun v w => spells_unique, ?_⟩
  intro word hword
  have hspells := (ofPiece?_eq_some_iff piece word).1 hword
  obtain ⟨runs, hruns⟩ := (spells_iff_exists_runs word piece).1 hspells
  refine ⟨runs, hruns, hruns.runs_eq, hruns.length_eq, ?_, ?_, Command.ofWord?_eq_none_iff hruns,
    fun limit => Command.readPiece_eq_error_iff_of_spells limit hspells⟩
  · rw [← hruns.length_eq]
    exact scanArguments_cases runs
  · intro numbers
    rw [counts?_eq_some_iff_scanArguments, hruns.runs_eq]

/-- A bend whose first numeral has leading zeros and whose second is too great by one. -/
theorem words_and_arguments_agree_of_bend :
    ofPiece? "bend(007,4294967296)".toList = some .bend ∧
      Spells .bend "bend(007,4294967296)".toList ∧
      ∃ runs, SpellsWith .bend runs "bend(007,4294967296)".toList ∧
        Decimal.runs "bend(007,4294967296)".toList = runs ∧ runs.length = 2 ∧
        (ofWord? "bend(007,4294967296)".toList = none ↔ ∃ run ∈ runs,
          Nat.ofDigitChars 10 run 0 = 0 ∨ UInt32.size ≤ Nat.ofDigitChars 10 run 0) := by
  have hword : ofPiece? "bend(007,4294967296)".toList = some .bend := by
    decide +kernel
  obtain ⟨-, hspells, -, harguments⟩ :=
    words_and_arguments_agree "bend(007,4294967296)".toList
  obtain ⟨runs, hruns, hscan, hlength, -, -, hnone, -⟩ := harguments .bend hword
  exact ⟨hword, (hspells .bend).1 hword, runs, hruns, hscan, hlength, hnone⟩

end Word

end CrochetShorthand
