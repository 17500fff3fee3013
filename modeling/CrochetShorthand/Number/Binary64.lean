import CrochetShorthand.Number.Scientific

/-!
# Floating point numbers of 64 bits

A finite number is a sign and a magnitude `significand * 2 ^ exponent`, where the significand
has at most 53 bits.  A decimal number is read as the nearest of them; of two that are equally
near it is the one whose significand is even.  What is too large for a finite number is
infinite, and what is too small is zero.
-/

namespace CrochetShorthand

/-- A quotient as the nearest natural number, a half as the even one. -/
def roundHalfEven (numerator denominator : Nat) : Nat :=
  let quotient := numerator / denominator
  let twice := 2 * (numerator % denominator)
  if twice < denominator ∨ (twice = denominator ∧ quotient % 2 = 0) then quotient
  else quotient + 1

/-- The number `significand * 2 ^ exponent`, with at most 53 bits. -/
structure Magnitude where
  significand : Nat
  exponent : Int
  significand_lt : significand < 9007199254740992
  le_exponent : -1074 ≤ exponent
  exponent_le : exponent ≤ 971
deriving DecidableEq, Repr

namespace Magnitude

def zero : Magnitude :=
  ⟨0, -1074, by decide, by decide, by decide⟩

/-- A significand of up to 53 bits, or the next one, with its exponent; `none` when the number
is too large. -/
def ofParts? (significand : Nat) (exponent : Int) : Option Magnitude :=
  if significand = 9007199254740992 then
    if h : -1074 ≤ exponent + 1 ∧ exponent + 1 ≤ 971 then
      some ⟨4503599627370496, exponent + 1, by decide, h.1, h.2⟩
    else none
  else
    if h : significand < 9007199254740992 ∧ -1074 ≤ exponent ∧ exponent ≤ 971 then
      some ⟨significand, exponent, h.1, h.2.1, h.2.2⟩
    else none

/-- A quotient in units of `2 ^ exponent`, rounded. -/
def unitsOf (numerator denominator : Nat) : Int → Nat
  | .ofNat n => roundHalfEven numerator (denominator * Nat.pow 2 n)
  | .negSucc n => roundHalfEven (numerator * Nat.pow 2 (n + 1)) denominator

/-- The magnitude nearest to a positive quotient.  The quotient has 53 or 54 bits before the
point in units of `2 ^ finest`, unless it is too small for that many. -/
def ofQuotient? (numerator denominator : Nat) : Option Magnitude :=
  let estimate : Int := (Nat.log2 numerator : Int) - Nat.log2 denominator - 53
  let finest : Int := if estimate < -1074 then -1074 else estimate
  let units := unitsOf numerator denominator finest
  if units ≤ 9007199254740992 then ofParts? units finest
  else ofParts? (unitsOf numerator denominator (finest + 1)) (finest + 1)

/-- The magnitude nearest to a decimal number; `none` when the number is too large for a
finite one.  A number of `10 ^ 309` or more is, and a number below `10 ^ -324` is nearer to
zero than to any other. -/
def nearest? (x : Scientific) : Option Magnitude :=
  if x.digits = 0 ∨ x.place < -323 then some zero
  else if 309 < x.place then none
  else
    match x.exponent with
    | .ofNat n => ofQuotient? (x.digits * Nat.pow 10 n) 1
    | .negSucc n => ofQuotient? x.digits (Nat.pow 10 (n + 1))

/-- The nearest natural number, a half as the greater one. -/
def toNat (size : Magnitude) : Nat :=
  match size.exponent with
  | .ofNat n => size.significand * Nat.pow 2 n
  | .negSucc n => (2 * size.significand + Nat.pow 2 (n + 1)) / (2 * Nat.pow 2 (n + 1))

/-- The magnitude as a decimal number, which is exact: a half is five tenths. -/
def exact (size : Magnitude) : Scientific :=
  match size.exponent with
  | .ofNat n => ⟨size.significand * Nat.pow 2 n, 0⟩
  | .negSucc n => ⟨size.significand * Nat.pow 5 (n + 1), .negSucc n⟩

/-- Whether a decimal number is read as the magnitude. -/
def isReadFrom (size : Magnitude) (x : Scientific) : Bool :=
  nearest? x = some size

/-- The nearest decimal number that is read as the magnitude and ends `dropped` digits before
the exact one does; of two equally near, the greater one. -/
def cut? (size : Magnitude) (dropped : Nat) : Option Scientific :=
  let below := size.exact.below dropped
  let above := size.exact.above dropped
  if size.isReadFrom below then
    if size.isReadFrom above && size.exact.isNearAbove dropped then some above else some below
  else if size.isReadFrom above then some above
  else none

/-- The shortest decimal number that is read as the magnitude.  Seventeen digits are enough; the
exact number would stand in if they were not. -/
def shortest (size : Magnitude) : Scientific :=
  let length := size.exact.length
  (((List.range 17).findSome? fun n => size.cut? (length - (n + 1))).getD size.exact).reduced

end Magnitude

/-- A number of 64 bits. -/
inductive Binary64
  | finite (negative : Bool) (size : Magnitude)
  | infinite (negative : Bool)
  /-- The result of an operation without one. -/
  | undefined
deriving DecidableEq, Repr

namespace Binary64

/-- The number nearest to a decimal number with a sign. -/
def nearest (negative : Bool) (x : Scientific) : Binary64 :=
  match Magnitude.nearest? x with
  | some size => .finite negative size
  | none => .infinite negative

/-- The nearest natural number up to a greatest one; a negative number counts as zero, and so
does no number. -/
def toNat (greatest : Nat) : Binary64 → Nat
  | .finite false size => min size.toNat greatest
  | .infinite false => greatest
  | _ => 0

/-- The text of a magnitude or of infinity, after a hyphen when it is negative. -/
def signed (negative : Bool) (t : Text) : Text :=
  if negative then '-' :: t else t

/-- The text of a number: the fewest digits that are read as it, and no exponent. -/
def text : Binary64 → Text
  | .finite negative size => signed negative size.shortest.positional
  | .infinite negative => signed negative "inf".toList
  | .undefined => "NaN".toList

end Binary64

end CrochetShorthand
