import CrochetShorthand.Settings.Value

/-!
# Bare values of a TOML document

A value without quotes or brackets is a truth value, an integer or a float.  Integers are
decimal with a sign, or hexadecimal, octal or binary without one, and fit in 64 bits.
Underscores may stand between two digits.
-/

namespace CrochetShorthand.Settings.Toml

/-- The digits of a text in which an underscore may stand between two of them. -/
def joinedDigits? (isDigit : Char → Bool) (t : Text) : Option Text :=
  let groups := Text.splitAt '_' t
  if groups.all fun group => !group.isEmpty && group.all isDigit then some groups.flatten
  else none

/-- The value of a digit in a base up to sixteen; an unused letter has no meaning. -/
def digitValue (c : Char) : Nat :=
  if c.isDigit then c.toNat - '0'.toNat
  else if 'a' ≤ c ∧ c ≤ 'f' then c.toNat - 'a'.toNat + 10
  else c.toNat - 'A'.toNat + 10

/-- The value of digits in a base. -/
def ofDigits (base : Nat) (digits : Text) : Nat :=
  digits.foldl (fun value digit => base * value + digitValue digit) 0

def isHexDigit (c : Char) : Bool :=
  c.isDigit || ('a' ≤ c && c ≤ 'f') || ('A' ≤ c && c ≤ 'F')

def isOctalDigit (c : Char) : Bool :=
  '0' ≤ c && c ≤ '7'

def isBinaryDigit (c : Char) : Bool :=
  c == '0' || c == '1'

/-- Whether an integer fits in 64 bits with a sign. -/
def fits (value : Int) : Bool :=
  -9223372036854775808 ≤ value && value ≤ 9223372036854775807

/-- An integer as a value, when it fits. -/
def number? (value : Int) : Option Value :=
  if fits value then some (.number value) else none

/-- The digits of a decimal integer without its sign: a zero in front stands alone. -/
def decimalDigits? (t : Text) : Option Text :=
  match joinedDigits? Char.isDigit t with
  | some ('0' :: _ :: _) => none
  | digits => digits

/-- The sign of a number, and the number after it. -/
def sign : Text → Bool × Text
  | '-' :: rest => (true, rest)
  | '+' :: rest => (false, rest)
  | t => (false, t)

/-- A decimal integer with or without a sign. -/
def decimal? (t : Text) : Option Value :=
  let signed := sign t
  match decimalDigits? signed.2 with
  | none => none
  | some digits =>
      let value : Int := ofDigits 10 digits
      number? (if signed.1 then -value else value)

/-- An integer in the base that its first two characters name. -/
def based? : Text → Option Value
  | '0' :: 'x' :: digits =>
      (joinedDigits? isHexDigit digits).bind fun ds => number? (ofDigits 16 ds)
  | '0' :: 'o' :: digits =>
      (joinedDigits? isOctalDigit digits).bind fun ds => number? (ofDigits 8 ds)
  | '0' :: 'b' :: digits =>
      (joinedDigits? isBinaryDigit digits).bind fun ds => number? (ofDigits 2 ds)
  | _ => none

/-- The text before and after the first character of a class. -/
def cutAt (isMark : Char → Bool) (t : Text) : Text × Option Text :=
  match t.dropWhile fun c => !isMark c with
  | [] => (t, none)
  | _ :: rest => (t.takeWhile fun c => !isMark c, some rest)

/-- The value of the digits of an exponent.  Once it has reached `65536` further digits do not
count: few numbers are long enough for it to matter. -/
def exponentSize (digits : Text) : Nat :=
  digits.foldl (fun value digit => if value < 65536 then 10 * value + digitValue digit else value) 0

/-- The value of the exponent of a float, zero when it has none. -/
def exponent? : Option Text → Option Int
  | none => some 0
  | some t =>
      let signed := sign t
      (joinedDigits? Char.isDigit signed.2).map fun digits =>
        let value : Int := exponentSize digits
        if signed.1 then -value else value

/-- A float with a sign.  A positive one that is too large for a finite number is refused; a
negative one is infinite. -/
def float? (negative : Bool) (digits : Text) (exponent : Int) : Option Value :=
  match Binary64.nearest negative ⟨ofDigits 10 digits, exponent⟩ with
  | .infinite false => none
  | value => some (.float value)

/-- A float: an integer part, and a fractional part, an exponent, or both. -/
def decimalFloat? (t : Text) : Option Value :=
  let signed := sign t
  let (mantissa, power) := cutAt (fun c => c == 'e' || c == 'E') signed.2
  let (whole, places) := cutAt (· == '.') mantissa
  if power.isNone && places.isNone then none
  else
    match decimalDigits? whole, exponent? power with
    | some wholeDigits, some exponent =>
        match places with
        | none => float? signed.1 wholeDigits exponent
        | some places =>
            match joinedDigits? Char.isDigit places with
            | none => none
            | some placeDigits =>
                float? signed.1 (wholeDigits ++ placeDigits) (exponent - placeDigits.length)
    | _, _ => none

/-- The floats that are no number, or no finite one. -/
def special? (t : Text) : Option Value :=
  let signed := sign t
  if signed.2 = ['i', 'n', 'f'] then some (.float (.infinite signed.1))
  else if signed.2 = ['n', 'a', 'n'] then some (.float .undefined)
  else none

/-- The value of a word that stands without quotes. -/
def bare? (t : Text) : Option Value :=
  if t = "true".toList then some (.truth true)
  else if t = "false".toList then some (.truth false)
  else (decimal? t).or ((based? t).or ((decimalFloat? t).or (special? t)))

end CrochetShorthand.Settings.Toml
