/-!
# Words that are too small

A number may be more than its word holds.  A build that checks its arithmetic stops there, and any
other goes on with the lowest bits of the number.  As long as the number fits, both hold the number
itself.
-/

namespace CrochetShorthand

/-- What a build does with a number that its word does not hold. -/
inductive Overflow
  /-- It stops. -/
  | stops
  /-- It keeps the lowest bits. -/
  | wraps
deriving DecidableEq, Repr

namespace Overflow

/-- A number in a signed word of 32 bits; `none` when the build stops. -/
def signed32? : Overflow → Int → Option Int32
  | .stops, value =>
      if Int32.minValue.toInt ≤ value ∧ value ≤ Int32.maxValue.toInt then some (Int32.ofInt value)
      else none
  | .wraps, value => some (Int32.ofInt value)

/-- The number that a signed word of 32 bits holds in place of a number, in a build that has not
stopped. -/
def held32 : Overflow → Int → Int
  | .stops, value => value
  | .wraps, value => (Int32.ofInt value).toInt

/-- A number in a word of 64 bits without a sign; `none` when the build stops. -/
def unsigned64? : Overflow → Nat → Option UInt64
  | .stops, value => if value < UInt64.size then some (UInt64.ofNat value) else none
  | .wraps, value => some (UInt64.ofNat value)

theorem toInt_ofInt_of_range {value : Int} (hleast : Int32.minValue.toInt ≤ value)
    (hgreatest : value ≤ Int32.maxValue.toInt) : (Int32.ofInt value).toInt = value := by
  rw [Int32.toInt_minValue] at hleast
  rw [Int32.toInt_maxValue] at hgreatest
  exact Int32.toInt_ofInt_of_le hleast (by omega)

/-- A number that fits is held. -/
theorem signed32?_of_range (overflow : Overflow) {value : Int}
    (hleast : Int32.minValue.toInt ≤ value) (hgreatest : value ≤ Int32.maxValue.toInt) :
    overflow.signed32? value = some (Int32.ofInt value) := by
  cases overflow with
  | stops => exact if_pos ⟨hleast, hgreatest⟩
  | wraps => rfl

/-- A word is held as it is. -/
theorem signed32?_toInt (overflow : Overflow) (word : Int32) :
    overflow.signed32? word.toInt = some word := by
  rw [signed32?_of_range overflow word.minValue_le_toInt word.toInt_le, Int32.ofInt_toInt]

theorem toInt_of_signed32? {overflow : Overflow} {value : Int} {word : Int32}
    (h : overflow.signed32? value = some word) : word.toInt = overflow.held32 value := by
  cases overflow with
  | stops =>
      rw [signed32?] at h
      split at h
      · rename_i hrange
        obtain rfl := Option.some.inj h
        exact toInt_ofInt_of_range hrange.1 hrange.2
      · contradiction
  | wraps =>
      obtain rfl := Option.some.inj h
      rfl

theorem held32_toInt (overflow : Overflow) (word : Int32) :
    overflow.held32 word.toInt = word.toInt :=
  (toInt_of_signed32? (signed32?_toInt overflow word)).symm

theorem held32_of_range (overflow : Overflow) {value : Int} (hleast : Int32.minValue.toInt ≤ value)
    (hgreatest : value ≤ Int32.maxValue.toInt) : overflow.held32 value = value := by
  rw [← toInt_ofInt_of_range hleast hgreatest, held32_toInt]

/-- What is added to a number may be added to the word that holds it. -/
theorem held32_held32_add (overflow : Overflow) (value more : Int) :
    overflow.held32 (overflow.held32 value + more) = overflow.held32 (value + more) := by
  cases overflow with
  | stops => rfl
  | wraps => rw [held32, held32, held32, Int32.ofInt_add, Int32.ofInt_toInt, ← Int32.ofInt_add]

theorem unsigned64?_of_lt (overflow : Overflow) {value : Nat} (h : value < UInt64.size) :
    overflow.unsigned64? value = some (UInt64.ofNat value) := by
  cases overflow with
  | stops => exact if_pos h
  | wraps => rfl

theorem toNat_of_stops {value : Nat} {word : UInt64} (h : stops.unsigned64? value = some word) :
    word.toNat = value := by
  rw [unsigned64?] at h
  split at h
  · rename_i hlt
    obtain rfl := Option.some.inj h
    exact UInt64.toNat_ofNat_of_lt' hlt
  · contradiction

end Overflow

end CrochetShorthand
