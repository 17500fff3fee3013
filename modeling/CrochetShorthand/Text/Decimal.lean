import CrochetShorthand.Text.Blank

/-!
# Decimal numbers

Natural numbers and integers are written in base ten without leading zeros.  Reading is
wider than writing: a count may carry any number of leading zeros.
-/

namespace CrochetShorthand.Decimal

/-- The digits of a natural number, the most significant first. -/
def ofNat (n : Nat) : Text :=
  Nat.toDigits 10 n

/-- The digits of an integer, after a hyphen when it is negative. -/
def ofInt : Int → Text
  | .ofNat n => ofNat n
  | .negSucc n => '-' :: ofNat (n + 1)

/-- The value of a text that holds at least one digit and nothing else. -/
def value? (t : Text) : Option Nat :=
  if t.isEmpty || !t.all Char.isDigit then none else some (Nat.ofDigitChars 10 t 0)

/-- A count is a number from `1` to `2 ^ 32 - 1`. -/
def count? (t : Text) : Option UInt32 :=
  match value? t with
  | none => none
  | some n => if 0 < n ∧ n < UInt32.size then some (UInt32.ofNat n) else none

/-- The maximal runs of digits in a text, where `run` holds the digits read since the last
character that is not one. -/
def runsAfter (run : Text) : Text → List Text
  | [] => if run.isEmpty then [] else [run]
  | c :: rest =>
      if c.isDigit then runsAfter (run ++ [c]) rest
      else if run.isEmpty then runsAfter [] rest
      else run :: runsAfter [] rest

/-- The maximal runs of digits in a text, in order. -/
def runs (t : Text) : List Text :=
  runsAfter [] t

theorem value?_ofNat (n : Nat) : value? (ofNat n) = some n := by
  have hdigits : ∀ c ∈ Nat.toDigits 10 n, c.isDigit = true :=
    fun _ h => Nat.isDigit_of_mem_toDigits (by decide) (by decide) h
  simpa [value?, ofNat, Nat.ofDigitChars_toDigits] using hdigits

end CrochetShorthand.Decimal
