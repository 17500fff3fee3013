import CrochetShorthand.Text.Decimal

/-!
# Decimal numbers in scientific form

Digits with a power of ten beside them.  Two forms can stand for one number: `10 * 10 ^ 2` is
`1 * 10 ^ 3`.  The reduced form has no zeros at the end of its digits.
-/

namespace CrochetShorthand

/-- The number `digits * 10 ^ exponent`. -/
structure Scientific where
  digits : Nat
  exponent : Int
deriving DecidableEq, Repr

namespace Scientific

/-- How many digits are written for `digits`. -/
def length (x : Scientific) : Nat :=
  (Decimal.ofNat x.digits).length

/-- The place of the point, counted from the first digit: the number is less than
`10 ^ place`. -/
def place (x : Scientific) : Int :=
  x.length + x.exponent

/-- The number of zeros at the end of a positive number, at most `bound` of them. -/
def trailingZeros : Nat → Nat → Nat
  | 0, _ => 0
  | bound + 1, n => if n % 10 = 0 then 1 + trailingZeros bound (n / 10) else 0

/-- The same number without zeros at the end of its digits; zero has the exponent zero. -/
def reduced (x : Scientific) : Scientific :=
  if x.digits = 0 then ⟨0, 0⟩
  else
    let zeros := trailingZeros x.length x.digits
    ⟨x.digits / Nat.pow 10 zeros, x.exponent + zeros⟩

/-- All digits of the number and no exponent, with a point when there is a fraction. -/
def positional (x : Scientific) : Text :=
  let digits := Decimal.ofNat x.digits
  match x.exponent with
  | .ofNat zeros => digits ++ List.replicate zeros '0'
  | .negSucc n =>
      let places := n + 1
      let padded := List.replicate (places + 1 - digits.length) '0' ++ digits
      padded.take (padded.length - places) ++ '.' :: padded.drop (padded.length - places)

/-- The number cut after its first digits, with `dropped` digits left out. -/
def below (x : Scientific) (dropped : Nat) : Scientific :=
  ⟨x.digits / Nat.pow 10 dropped, x.exponent + dropped⟩

/-- The next number on the grid of the numbers that end where `x.below dropped` ends. -/
def above (x : Scientific) (dropped : Nat) : Scientific :=
  ⟨x.digits / Nat.pow 10 dropped + 1, x.exponent + dropped⟩

/-- Whether `above` is as near as `below`, or nearer. -/
def isNearAbove (x : Scientific) (dropped : Nat) : Bool :=
  Nat.pow 10 dropped ≤ 2 * (x.digits % Nat.pow 10 dropped)

end Scientific

end CrochetShorthand
