import CrochetShorthand.Text.Blank

/-!
# Plain text

Text can hold what only a terminal understands: control characters, and sequences that start
with the escape character.  Plain text is what is left without them.  Tab, line feed, form feed
and carriage return stay.

A sequence goes on as its first character after the escape character says:

* `[` starts a control sequence, which ends with the first character from `@` to `~`;
* `]` starts a command, which ends with the bell;
* `P` starts a device string, with parameters in front of its body;
* `X`, `^` and `_` start a string that is nothing but a body;
* a character from blank to `/` waits for one from `0` to `~`, and any other ends the sequence.

A body ends with the string terminator, which is the byte `0x9C`.  Cancel, substitute and another
escape character end a sequence of any kind.

In a sequence other than a string a line break or a tab is shown.  What follows it is shown as
well, up to a character that plain text does not hold; there the sequence is taken up again.
-/

namespace CrochetShorthand.Text

/-- Where in a text the next character stands. -/
inductive Place
  | outside
  /-- After the escape character. -/
  | escaped
  /-- After the escape character and a character that waits for another. -/
  | waiting
  | controlSequence
  | command
  /-- At the start of a device string. -/
  | device
  | deviceParameters
  /-- After the parameters of a device string. -/
  | deviceWaiting
  | body
deriving DecidableEq, Repr

/-- A control character that plain text holds. -/
def isLayout (c : Char) : Bool :=
  c == '\t' || c == '\n' || c == '\x0c' || c == '\r'

/-- A character that plain text holds. -/
def isPlain (c : Char) : Bool :=
  isLayout c || (0x20 ≤ c.toNat && c.toNat != 0x7F)

/-- Whether a byte of the character in UTF-8 is the string terminator.  Only a byte after the
first can be, and each of those holds six bits. -/
def holdsTerminator (c : Char) : Bool :=
  (List.range (c.utf8Size - 1)).any fun place => c.toNat / Nat.pow 64 place % 64 = 28

namespace Place

/-- Whether a character is shown, without regard to what was shown before it. -/
def shows : Place → Char → Bool
  | .outside, c => isPlain c
  | .escaped, c | .waiting, c | .controlSequence, c => isLayout c
  | _, _ => false

/-- The place after a character that follows the escape character. -/
def afterEscape (c : Char) : Place :=
  if c.toNat < 0x20 ∨ 0x7F ≤ c.toNat then .escaped
  else if c.toNat < 0x30 then .waiting
  else if c = '[' then .controlSequence
  else if c = ']' then .command
  else if c = 'P' then .device
  else if c = 'X' ∨ c = '^' ∨ c = '_' then .body
  else .outside

/-- The place after a character in front of the body of a device string. -/
def afterDevice (place : Place) (c : Char) : Place :=
  if c.toNat < 0x20 ∨ 0x7F ≤ c.toNat then place
  else if c.toNat < 0x30 then .deviceWaiting
  else if c.toNat < 0x3C ∧ place ≠ .deviceWaiting then .deviceParameters
  else if c.toNat < 0x40 ∧ place = .device then .deviceParameters
  else .body

/-- The place after a character. -/
def next (place : Place) (c : Char) : Place :=
  if c = '\x1b' then .escaped
  else if c = '\x18' ∨ c = '\x1a' then .outside
  else
    match place with
    | .outside => .outside
    | .escaped => afterEscape c
    | .waiting => if 0x30 ≤ c.toNat ∧ c.toNat < 0x7F then .outside else .waiting
    | .controlSequence =>
        if 0x40 ≤ c.toNat ∧ c.toNat < 0x7F then .outside else .controlSequence
    | .command => if c = '\x07' then .outside else .command
    | .device | .deviceParameters | .deviceWaiting => afterDevice place c
    | .body => if holdsTerminator c then .outside else .body

end Place

/-- The plain part of a text that starts at a place; `shown` says whether the character before
it is shown.  A character beyond ASCII that is shown leaves the sequence for good. -/
def plainFrom (place : Place) (shown : Bool) : Text → Text
  | [] => []
  | c :: rest =>
      if shown && isPlain c then
        c :: plainFrom (if c.toNat < 0x80 then place else .outside) true rest
      else if !shown && place.shows c then c :: plainFrom (place.next c) true rest
      else plainFrom (place.next c) false rest

/-- The text without control characters and sequences. -/
def plain (t : Text) : Text :=
  plainFrom .outside false t

theorem plainFrom_outside_of_isPlain {t : Text} (h : ∀ c ∈ t, isPlain c = true) (shown : Bool) :
    plainFrom .outside shown t = t := by
  induction t generalizing shown with
  | nil => rfl
  | cons c rest ih =>
      have hc : isPlain c = true := h c (List.mem_cons_self ..)
      have hrest : ∀ d ∈ rest, isPlain d = true := fun d hd => h d (List.mem_cons_of_mem c hd)
      have hnext : Place.next .outside c = .outside := by
        have hescape : c ≠ '\x1b' := by
          rintro rfl
          exact absurd hc (by decide)
        simp [Place.next, hescape]
      cases shown <;> simp [plainFrom, Place.shows, hc, hnext, ih hrest]

/-- Plain text is kept as it is. -/
theorem plain_of_isPlain {t : Text} (h : ∀ c ∈ t, isPlain c = true) : plain t = t :=
  plainFrom_outside_of_isPlain h false

theorem isPlain_of_mem_plainFrom {place : Place} {shown : Bool} {t : Text} {c : Char}
    (h : c ∈ plainFrom place shown t) : isPlain c = true := by
  induction t generalizing place shown with
  | nil => cases h
  | cons d rest ih =>
      simp only [plainFrom] at h
      split at h
      · rename_i hd
        rcases List.mem_cons.mp h with rfl | hrest
        · simp only [Bool.and_eq_true] at hd
          exact hd.2
        · exact ih hrest
      · split at h
        · rename_i hd
          rcases List.mem_cons.mp h with rfl | hrest
          · simp only [Bool.and_eq_true] at hd
            have hshows := hd.2
            cases place <;> simp_all [Place.shows, isPlain]
          · exact ih hrest
        · exact ih h

/-- Plain text holds nothing else. -/
theorem isPlain_of_mem_plain {t : Text} {c : Char} (h : c ∈ plain t) : isPlain c = true :=
  isPlain_of_mem_plainFrom h

end CrochetShorthand.Text
