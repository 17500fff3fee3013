import CrochetShorthand.Text.Decimal

/-!
# Numerals

A numeral is the way in which a count stands in a line: digits and nothing else, with any
number of leading zeros, for a number from `1` to `2 ^ 32 - 1`.  `Decimal.count?` reads
exactly the numerals (`count?_eq_some_iff`), and `Decimal.ofNat` writes one for every count
except zero (`numeral_ofNat_iff`), the only one without a leading zero (`Numeral.eq_ofNat`).

The second half is about `Decimal.runs`, which finds the arguments of a pattern again after
its shape has been recognized: digits between characters that are no digits are one run.
-/

namespace CrochetShorthand

/-- Characters of a kind that no other of the kind follows are taken as far as they go, and no
further. -/
theorem Text.takeWhile_append_of_stop {p : Char → Bool} {front rest : Text}
    (hfront : ∀ c ∈ front, p c = true) (hrest : ∀ c ∈ rest.head?, p c = false) :
    (front ++ rest).takeWhile p = front ∧ (front ++ rest).dropWhile p = rest := by
  rw [List.takeWhile_append_of_pos hfront, List.dropWhile_append_of_pos hfront]
  cases rest with
  | nil => simp
  | cons c rest => simp [hrest c rfl]

/-- A text that starts with a character of another kind stops the characters of the kind. -/
theorem Text.stops_cons {p : Char → Bool} {c : Char} (hc : p c = false) (rest : Text) :
    ∀ d ∈ (c :: rest).head?, p d = false := by
  intro d hd
  obtain rfl := Option.some.inj hd
  exact hc

namespace Decimal

/-- One digit or more, and nothing else. -/
structure IsRun (digits : Text) : Prop where
  nonempty : digits ≠ []
  allDigits : ∀ c ∈ digits, c.isDigit = true

/-- A character that is no digit is not in a run. -/
theorem IsRun.not_mem {digits : Text} (h : IsRun digits) {c : Char} (hc : c.isDigit = false) :
    c ∉ digits := by
  intro hmem
  rw [h.allDigits c hmem] at hc
  contradiction

/-- The digits spell the count, and the count is not zero. -/
structure Numeral (digits : Text) (n : UInt32) : Prop where
  run : IsRun digits
  value : Nat.ofDigitChars 10 digits 0 = n.toNat
  positive : 0 < n.toNat

/-- Zero has no numeral. -/
theorem Numeral.one_le {digits : Text} {n : UInt32} (h : Numeral digits n) : 1 ≤ n := by
  rw [UInt32.le_iff_toNat_le]
  exact h.positive

theorem value?_eq_some_iff (t : Text) (n : Nat) :
    value? t = some n ↔ IsRun t ∧ Nat.ofDigitChars 10 t 0 = n := by
  unfold value?
  cases t with
  | nil =>
      constructor
      · intro h
        contradiction
      · intro h
        exact absurd rfl h.1.nonempty
  | cons c rest =>
      by_cases hall : (c :: rest).all Char.isDigit = true
      · simp only [hall, List.isEmpty_cons, Bool.not_true, Bool.or_self, Bool.false_eq_true,
          if_false, Option.some.injEq]
        constructor
        · intro hvalue
          exact ⟨⟨List.cons_ne_nil _ _, List.all_eq_true.1 hall⟩, hvalue⟩
        · intro h
          exact h.2
      · have hnone : (c :: rest).all Char.isDigit = false := Bool.eq_false_iff.2 hall
        simp only [hnone, List.isEmpty_cons, Bool.not_false, Bool.or_true, if_true]
        constructor
        · intro h
          contradiction
        · intro h
          exact absurd (List.all_eq_true.2 h.1.allDigits) hall

/-- Exactly the numerals are read as counts. -/
theorem count?_eq_some_iff (t : Text) (n : UInt32) : count? t = some n ↔ Numeral t n := by
  unfold count?
  constructor
  · intro h
    split at h
    · contradiction
    · rename_i value hvalue
      obtain ⟨hrun, hdigits⟩ := (value?_eq_some_iff t value).1 hvalue
      split at h
      · rename_i hrange
        obtain rfl := Option.some.inj h
        have hvalue : (UInt32.ofNat value).toNat = value :=
          UInt32.toNat_ofNat_of_lt' hrange.2
        exact ⟨hrun, hdigits.trans hvalue.symm, hvalue.symm ▸ hrange.1⟩
      · contradiction
  · intro h
    rw [(value?_eq_some_iff t n.toNat).2 ⟨h.run, h.value⟩]
    simp [h.positive, n.toNat_lt_size]

theorem ofNat_ne_nil (n : Nat) : ofNat n ≠ [] :=
  Nat.toDigits_ne_nil

theorem isDigit_of_mem_ofNat {n : Nat} {c : Char} (h : c ∈ ofNat n) : c.isDigit = true :=
  Nat.isDigit_of_mem_toDigits (by decide) (by decide) h

theorem isRun_ofNat (n : Nat) : IsRun (ofNat n) :=
  ⟨ofNat_ne_nil n, fun _ h => isDigit_of_mem_ofNat h⟩

/-- What is written for a count is a numeral of it, unless the count is zero. -/
theorem numeral_ofNat_iff (n : UInt32) : Numeral (ofNat n.toNat) n ↔ 1 ≤ n := by
  constructor
  · exact Numeral.one_le
  · intro h
    rw [UInt32.le_iff_toNat_le] at h
    exact ⟨isRun_ofNat _, Nat.ofDigitChars_toDigits (by decide) (by decide), h⟩

/-- The ten digits stand one after another. -/
theorem range_of_isDigit {c : Char} (h : c.isDigit = true) :
    '0'.toNat ≤ c.toNat ∧ c.toNat < '0'.toNat + 10 := by
  obtain ⟨hlow, hhigh⟩ := Char.isDigit_iff_toNat.1 h
  exact ⟨hlow, Nat.lt_succ_of_le hhigh⟩

/-- A digit is written for its value. -/
theorem ofNat_of_isDigit {c : Char} (h : c.isDigit = true) :
    ofNat (c.toNat - '0'.toNat) = [c] := by
  have hrange := range_of_isDigit h
  have hvalue : c.toNat - '0'.toNat < 10 := by omega
  rw [ofNat, Nat.toDigits_of_lt_base hvalue, List.singleton_inj, ← Char.toNat_inj,
    Nat.toNat_digitChar_of_lt_ten hvalue]
  show '0'.toNat + (c.toNat - '0'.toNat) = c.toNat
  omega

/-- Digits behind a number that is not zero are written behind it. -/
theorem ofNat_ofDigitChars {digits : Text} (h : ∀ c ∈ digits, c.isDigit = true) {n : Nat}
    (hn : 0 < n) : ofNat (Nat.ofDigitChars 10 digits n) = ofNat n ++ digits := by
  induction digits generalizing n with
  | nil => rw [Nat.ofDigitChars_nil, List.append_nil]
  | cons c digits ih =>
      obtain ⟨hc, hdigits⟩ := List.forall_mem_cons.1 h
      have hrange := range_of_isDigit hc
      have hvalue : c.toNat - '0'.toNat < 10 := by omega
      have hstep : ofNat (10 * n + (c.toNat - '0'.toNat)) = ofNat n ++ [c] := by
        rw [← ofNat_of_isDigit hc]
        exact (Nat.toDigits_append_toDigits (by decide) hn hvalue).symm
      rw [Nat.ofDigitChars_cons, ih hdigits (by omega), hstep, List.append_assoc]
      rfl

/-- A numeral without a leading zero is the one that is written for its count. -/
theorem Numeral.eq_ofNat {digits : Text} {n : UInt32} (h : Numeral digits n)
    (hhead : digits.head? ≠ some '0') : digits = ofNat n.toNat := by
  cases digits with
  | nil => exact absurd rfl h.run.nonempty
  | cons c digits =>
      obtain ⟨hc, hdigits⟩ := List.forall_mem_cons.1 h.run.allDigits
      have hrange := range_of_isDigit hc
      have hne : c.toNat ≠ '0'.toNat := by
        intro heq
        exact hhead (congrArg some (Char.toNat_inj.1 heq))
      have hpositive : 0 < c.toNat - '0'.toNat := by omega
      rw [← h.value, Nat.ofDigitChars_cons, Nat.mul_zero, Nat.zero_add,
        ofNat_ofDigitChars hdigits hpositive, ofNat_of_isDigit hc]
      rfl

/-! ## Runs of digits -/

theorem runsAfter_nil_append {front : Text} (h : front.any Char.isDigit = false)
    (rest : Text) : runsAfter [] (front ++ rest) = runsAfter [] rest := by
  induction front with
  | nil => rfl
  | cons c front ih =>
      obtain ⟨hc, hfront⟩ : c.isDigit = false ∧ front.any Char.isDigit = false := by
        simpa only [List.any_cons, Bool.or_eq_false_iff] using h
      rw [List.cons_append, runsAfter]
      simp [hc, ih hfront]

theorem runsAfter_digits_append {digits : Text} (h : ∀ c ∈ digits, c.isDigit = true)
    (run rest : Text) : runsAfter run (digits ++ rest) = runsAfter (run ++ digits) rest := by
  induction digits generalizing run with
  | nil => simp
  | cons c digits ih =>
      have hc : c.isDigit = true := h c (List.mem_cons_self ..)
      have hdigits : ∀ d ∈ digits, d.isDigit = true :=
        fun d hd => h d (List.mem_cons_of_mem c hd)
      rw [List.cons_append, runsAfter, if_pos hc, ih hdigits]
      simp

/-- Digits that stand between characters that are none are one run. -/
theorem runsAfter_between {front digits : Text} {c : Char}
    (hfront : front.any Char.isDigit = false) (hdigits : IsRun digits)
    (hc : c.isDigit = false) (rest : Text) :
    runsAfter [] (front ++ digits ++ c :: rest) = digits :: runsAfter [] rest := by
  rw [List.append_assoc, runsAfter_nil_append hfront,
    runsAfter_digits_append hdigits.allDigits, List.nil_append, runsAfter]
  simp [hc, hdigits.nonempty]

end Decimal

end CrochetShorthand
