import CrochetShorthand.Proofs.Reading
import CrochetShorthand.RunLength.Reading
import Mathlib.Data.List.Chain

/-!
# Display lines lose nothing

A step is read back from its text, whatever the signs of its addresses: an address takes one
hyphen at most, so a further hyphen stands between two addresses.  A display token is read back
as a step and a count, and a display line as its tokens, because the separator starts with a
character that no token has.

The display compares texts, and the texts of two steps are the same only when the steps are.
So its tokens are those of the runs of equal steps (`StepRun.ofSteps`), where neighbouring runs have
different steps.
-/

namespace CrochetShorthand

/-! ## Numbers -/

namespace Decimal

theorem leadingNat?_append (n : Nat) {rest : Text} (hrest : ∀ c ∈ rest.head?, c.isDigit = false) :
    leadingNat? (ofNat n ++ rest) = some (n, rest) := by
  obtain ⟨htake, hdrop⟩ := Text.takeWhile_append_of_stop (isRun_ofNat n).allDigits hrest
  rw [leadingNat?, htake, hdrop, value?_ofNat]
  rfl

/-- An integer is read back from the start of a text when no digit follows it. -/
theorem leadingInt?_append (n : Int) {rest : Text} (hrest : ∀ c ∈ rest.head?, c.isDigit = false) :
    leadingInt? (ofInt n ++ rest) = some (n, rest) := by
  cases n with
  | ofNat n =>
      have hread := leadingNat?_append n hrest
      rw [ofInt]
      obtain ⟨c, digits, hdigits⟩ := List.exists_cons_of_ne_nil (ofNat_ne_nil n)
      have hc : c.isDigit = true := isDigit_of_mem_ofNat (hdigits ▸ List.mem_cons_self ..)
      rw [hdigits, List.cons_append] at hread ⊢
      -- The first character is a digit and therefore no hyphen.
      unfold leadingInt?
      split
      · rename_i heq
        obtain ⟨rfl, -⟩ := List.cons.inj heq
        contradiction
      · rw [hread]
        rfl
  | negSucc n =>
      rw [ofInt, List.cons_append, leadingInt?, leadingNat?_append (n + 1) hrest]
      rfl

theorem leadingInt?_ofInt (n : Int) : leadingInt? (ofInt n) = some (n, []) := by
  have hnone : ∀ c ∈ ([] : Text).head?, c.isDigit = false := by simp
  simpa using leadingInt?_append n hnone

end Decimal

/-! ## Steps -/

namespace Step

/-- A step is read back from its text. -/
theorem read?_render (step : Step) : read? step.render = some step := by
  cases step with
  | chain => rfl
  | sc ago =>
      simp [render, read?, Decimal.leadingInt?_ofInt]
  | scTwo first second =>
      have hhyphen : ∀ c ∈ ('-' :: Decimal.ofInt second).head?, c.isDigit = false :=
        Text.stops_cons (by decide) _
      have hfirst := Decimal.leadingInt?_append first hhyphen
      simp [render, read?, hfirst, Decimal.leadingInt?_ofInt]

theorem render_injective : Function.Injective render := by
  intro first second h
  have hread := congrArg read? h
  rw [read?_render, read?_render] at hread
  exact Option.some.inj hread

theorem render_ne_nil (step : Step) : step.render ≠ [] := by
  cases step <;> simp [render]

end Step

namespace Run

theorem isTokenChar_of_isDigit {c : Char} (h : c.isDigit = true) : isTokenChar c = true := by
  simp [isTokenChar, h]

theorem isTokenChar_of_mem_ofInt {n : Int} {c : Char} (h : c ∈ Decimal.ofInt n) :
    isTokenChar c = true := by
  cases n with
  | ofNat n => exact isTokenChar_of_isDigit (Decimal.isDigit_of_mem_ofNat h)
  | negSucc n =>
      rcases List.mem_cons.1 h with rfl | hdigit
      · decide
      · exact isTokenChar_of_isDigit (Decimal.isDigit_of_mem_ofNat hdigit)

theorem isTokenChar_of_mem_step {step : Step} {c : Char} (h : c ∈ step.render) :
    isTokenChar c = true := by
  have hfront : ∀ d ∈ ['s', 'c', '-'], isTokenChar d = true := List.all_eq_true.1 (by decide)
  cases step with
  | chain =>
      obtain rfl := List.mem_singleton.1 h
      decide
  | sc ago =>
      rcases List.mem_append.1 h with h | h
      · exact hfront c h
      · exact isTokenChar_of_mem_ofInt h
  | scTwo first second =>
      rw [Step.render, List.mem_append, List.mem_append, List.mem_append] at h
      rcases h with ((h | h) | h) | h
      · exact hfront c h
      · exact isTokenChar_of_mem_ofInt h
      · exact hfront c (by simp_all)
      · exact isTokenChar_of_mem_ofInt h

end Run

/-! ## Tokens -/

namespace StepRun

open Run (isTokenChar)

theorem read?_step (step : Step) : read? step.render = some ⟨step, 1⟩ := by
  have hread := Step.read?_render step
  cases step <;> simp [Step.render, read?] at hread ⊢ <;> exact hread

/-- A run is read back from its display token. -/
theorem read?_render (run : StepRun) : read? run.render = some run := by
  obtain ⟨step, count⟩ := run
  unfold render Run.render
  dsimp only
  split
  · rename_i hone
    rw [hone]
    exact read?_step step
  · have hmark : ')' ∉ Decimal.ofNat count := (Decimal.isRun_ofNat count).not_mem (by decide)
    have hsplit := (Text.splitLast_eq_some_iff ')' _ step.render _).2 ⟨rfl, hmark⟩
    rw [List.cons_append, read?, hsplit]
    dsimp only
    rw [Step.read?_render, Decimal.value?_ofNat]

/-- Runs are read back from their display tokens, one by one. -/
theorem mapM_read?_render (runs : List StepRun) : (runs.map render).mapM read? = some runs := by
  induction runs with
  | nil => rfl
  | cons run runs ih =>
      rw [List.map_cons, List.mapM_cons, read?_render, ih]
      rfl

theorem isTokenChar_of_mem_render {run : StepRun} {c : Char} (h : c ∈ run.render) :
    isTokenChar c = true := by
  unfold render Run.render at h
  dsimp only at h
  split at h
  · exact Run.isTokenChar_of_mem_step h
  · simp only [List.cons_append, List.mem_cons, List.mem_append] at h
    rcases h with rfl | h | rfl | h
    · decide
    · exact Run.isTokenChar_of_mem_step h
    · decide
    · exact Run.isTokenChar_of_isDigit (Decimal.isDigit_of_mem_ofNat h)

theorem render_ne_nil (run : StepRun) : run.render ≠ [] := by
  unfold render Run.render
  split
  · exact run.step.render_ne_nil
  · simp

/-! ## Runs of equal steps -/

/-- The runs of the steps behind a run under way, that run included. -/
def ofStepsAfter (step : Step) (count : Nat) : List Step → List StepRun
  | [] => [⟨step, count⟩]
  | next :: rest =>
      if step = next then ofStepsAfter step (count + 1) rest
      else ⟨step, count⟩ :: ofStepsAfter next 1 rest

/-- The runs of a sequence of steps.  A run goes on as long as the same step comes. -/
def ofSteps : List Step → List StepRun
  | [] => []
  | step :: rest => ofStepsAfter step 1 rest

theorem flatMap_ofStepsAfter (rest : List Step) (step : Step) (count : Nat) :
    (ofStepsAfter step count rest).flatMap steps = List.replicate count step ++ rest := by
  induction rest generalizing step count with
  | nil => simp [ofStepsAfter, steps]
  | cons next rest ih =>
      rw [ofStepsAfter]
      split
      · rename_i heq
        rw [ih, List.replicate_succ', heq, List.append_assoc]
        rfl
      · rw [List.flatMap_cons, ih]
        rfl

/-- Written out, the runs are the steps. -/
theorem flatMap_ofSteps (given : List Step) : (ofSteps given).flatMap steps = given := by
  cases given with
  | nil => rfl
  | cons step rest => exact flatMap_ofStepsAfter rest step 1

theorem head?_ofStepsAfter (rest : List Step) (step : Step) (count : Nat) :
    (ofStepsAfter step count rest).head?.map StepRun.step = some step := by
  induction rest generalizing count with
  | nil => rfl
  | cons next rest ih =>
      rw [ofStepsAfter]
      split
      · exact ih (count + 1)
      · rfl

theorem isChain_ofStepsAfter (rest : List Step) (step : Step) (count : Nat) :
    (ofStepsAfter step count rest).IsChain fun first second => first.step ≠ second.step := by
  induction rest generalizing step count with
  | nil => exact .singleton _
  | cons next rest ih =>
      rw [ofStepsAfter]
      split
      · exact ih step (count + 1)
      · rename_i hne
        have hhead := head?_ofStepsAfter rest next 1
        have hlater := ih next 1
        cases hruns : ofStepsAfter next 1 rest with
        | nil => exact .singleton _
        | cons run runs =>
            rw [hruns] at hhead hlater
            have hrun : run.step = next := Option.some.inj hhead
            exact .cons_cons (by rw [hrun]; exact hne) hlater

/-- Neighbouring runs have different steps. -/
theorem isChain_ofSteps (given : List Step) :
    (ofSteps given).IsChain fun first second => first.step ≠ second.step := by
  cases given with
  | nil => exact .nil
  | cons step rest => exact isChain_ofStepsAfter rest step 1

/-- Merging by text, from a run under way on, completes the tokens of the runs of equal steps. -/
theorem foldl_feedOnto (rest : List Step) (step : Step) (count : Nat) (latest : List Text) :
    ((Run.flush (rest.foldl Run.feedOnto (latest, some ⟨step.render, count⟩)).2).toList ++
        (rest.foldl Run.feedOnto (latest, some ⟨step.render, count⟩)).1).reverse =
      latest.reverse ++ (ofStepsAfter step count rest).map render := by
  induction rest generalizing step count latest with
  | nil => simp [Run.flush, ofStepsAfter, render]
  | cons next rest ih =>
      by_cases heq : step = next
      · have hfed : Run.feedOnto (latest, some ⟨step.render, count⟩) next =
            (latest, some ⟨step.render, count + 1⟩) := by
          simp [Run.feedOnto, Run.feed, heq]
        rw [List.foldl_cons, hfed, ih, ofStepsAfter, if_pos heq]
      · have hne : step.render ≠ next.render := fun h => heq (Step.render_injective h)
        have hfed : Run.feedOnto (latest, some ⟨step.render, count⟩) next =
            (render ⟨step, count⟩ :: latest, some ⟨next.render, 1⟩) := by
          simp [Run.feedOnto, Run.feed, hne, render]
        rw [List.foldl_cons, hfed, ih, ofStepsAfter, if_neg heq]
        simp

/-- The display tokens of steps are the tokens of their runs. -/
theorem displayAll_eq_map_render (given : List Step) :
    displayAll given = (ofSteps given).map render := by
  cases given with
  | nil => rfl
  | cons step rest => exact foldl_feedOnto rest step 1 []

/-- Neighbouring tokens show different steps. -/
theorem isChain_displayAll (given : List Step) :
    (displayAll given).IsChain fun first second =>
      ∃ a b, read? first = some a ∧ read? second = some b ∧ a.step ≠ b.step := by
  rw [displayAll_eq_map_render]
  refine List.isChain_map_of_isChain render ?_ (isChain_ofSteps given)
  intro first second hne
  exact ⟨first, second, first.read?_render, second.read?_render, hne⟩

end StepRun

/-! ## Lines -/

namespace Spacing

open Run (isTokenChar)

/-- A token is cut off in front of a text that starts with no character of a token. -/
theorem tokensOf_append {token : Text} (hnonempty : token ≠ [])
    (htoken : ∀ c ∈ token, isTokenChar c = true) (width : Nat) {rest : Text}
    (hrest : ∀ c ∈ rest.head?, isTokenChar c = false) :
    tokensOf width (token ++ rest) = token :: tokensOf width (rest.drop width) := by
  obtain ⟨c, token, rfl⟩ := List.exists_cons_of_ne_nil hnonempty
  have hlater : ∀ d ∈ token, isTokenChar d = true :=
    fun d hd => htoken d (List.mem_cons_of_mem c hd)
  obtain ⟨htake, hdrop⟩ := Text.takeWhile_append_of_stop hlater hrest
  rw [List.cons_append, tokensOf, htake, hdrop]

theorem tokensOf_nil (width : Nat) : tokensOf width [] = [] := by
  rw [tokensOf]

/-- The tokens of a joined line are the tokens that were joined. -/
theorem tokensOf_joinWith {mark : Char} (hmark : isTokenChar mark = false) (tail : Text)
    {tokens : List Text} (hnonempty : ∀ token ∈ tokens, token ≠ [])
    (htokens : ∀ token ∈ tokens, ∀ c ∈ token, isTokenChar c = true) :
    tokensOf (mark :: tail).length (Text.joinWith (mark :: tail) tokens) = tokens := by
  induction tokens with
  | nil => exact tokensOf_nil _
  | cons token tokens ih =>
      obtain ⟨htoken, hlater⟩ := List.forall_mem_cons.1 htokens
      obtain ⟨hfirst, hothers⟩ := List.forall_mem_cons.1 hnonempty
      cases tokens with
      | nil =>
          have hnone : ∀ c ∈ ([] : Text).head?, isTokenChar c = false := by simp
          have hcut := tokensOf_append hfirst htoken (mark :: tail).length hnone
          rw [List.append_nil, List.drop_nil, tokensOf_nil] at hcut
          exact hcut
      | cons next tokens =>
          have hstop : ∀ c ∈ (mark :: tail ++
              Text.joinWith (mark :: tail) (next :: tokens)).head?, isTokenChar c = false :=
            Text.stops_cons hmark _
          rw [Text.joinWith, List.append_assoc, tokensOf_append hfirst htoken _ hstop,
            List.drop_left, ih hothers hlater]

/-- The display line of steps is read back as the steps. -/
theorem read?_join_displayAll (leading : Text) {mark : Char} (hmark : isTokenChar mark = false)
    (tail : Text) (given : List Step) :
    read? ⟨leading, mark :: tail⟩ (join ⟨leading, mark :: tail⟩ (displayAll given)) =
      some given := by
  rw [read?, join, List.drop_left, StepRun.displayAll_eq_map_render]
  have hnonempty : ∀ token ∈ (StepRun.ofSteps given).map StepRun.render, token ≠ [] :=
    List.forall_mem_map.2 fun run _ => StepRun.render_ne_nil run
  have hchars : ∀ token ∈ (StepRun.ofSteps given).map StepRun.render,
      ∀ c ∈ token, isTokenChar c = true :=
    List.forall_mem_map.2 fun _ _ _ hc => StepRun.isTokenChar_of_mem_render hc
  rw [tokensOf_joinWith hmark tail hnonempty hchars, StepRun.mapM_read?_render, Option.map_some,
    StepRun.flatMap_ofSteps]

/-- A display line can be read back as the steps that it shows, whatever the leading text, when the
separator starts with a character that is no letter `c` or `s`, no parenthesis, no hyphen and
no digit.  So steps with the same text are the same, merging runs by text merges runs of
equal steps, neighbouring tokens show different steps, and sequences of steps that are shown
the same, as tokens or as a line, are the same. -/
theorem display_lines_lose_nothing :
    (∀ (leading : Text) (mark : Char) (tail : Text) (given : List Step),
      mark ∉ ['c', 's', '(', ')', '-'] → mark.isDigit = false →
        read? ⟨leading, mark :: tail⟩ (join ⟨leading, mark :: tail⟩ (displayAll given)) =
          some given) ∧
    Function.Injective Step.render ∧
    (∀ given, displayAll given = (StepRun.ofSteps given).map StepRun.render) ∧
    (∀ given, (displayAll given).IsChain fun first second =>
      ∃ a b, StepRun.read? first = some a ∧ StepRun.read? second = some b ∧ a.step ≠ b.step) ∧
    Function.Injective displayAll ∧
    ∀ (leading : Text) (mark : Char) (tail : Text) (first second : List Step),
      mark ∉ ['c', 's', '(', ')', '-'] → mark.isDigit = false →
        join ⟨leading, mark :: tail⟩ (displayAll first) =
          join ⟨leading, mark :: tail⟩ (displayAll second) → first = second := by
  have hread : ∀ (leading : Text) (mark : Char) (tail : Text) (given : List Step),
      mark ∉ ['c', 's', '(', ')', '-'] → mark.isDigit = false →
        read? ⟨leading, mark :: tail⟩ (join ⟨leading, mark :: tail⟩ (displayAll given)) =
          some given := by
    intro leading mark tail given hmark hdigit
    have hnone : isTokenChar mark = false := by
      simp only [List.mem_cons, List.not_mem_nil, or_false, not_or] at hmark
      simp [isTokenChar, hmark, hdigit]
    exact read?_join_displayAll leading hnone tail given
  have hjoined : ∀ (leading : Text) (mark : Char) (tail : Text) (first second : List Step),
      mark ∉ ['c', 's', '(', ')', '-'] → mark.isDigit = false →
        join ⟨leading, mark :: tail⟩ (displayAll first) =
          join ⟨leading, mark :: tail⟩ (displayAll second) → first = second := by
    intro leading mark tail first second hmark hdigit hline
    have hfirst := hread leading mark tail first hmark hdigit
    rw [hline, hread leading mark tail second hmark hdigit] at hfirst
    exact (Option.some.inj hfirst).symm
  refine ⟨hread, Step.render_injective, StepRun.displayAll_eq_map_render,
    StepRun.isChain_displayAll, ?_, hjoined⟩
  intro first second hdisplays
  apply hjoined [] ',' [] first second (by decide) (by decide)
  rw [hdisplays]

/-- A display line with negative addresses, between commas. -/
theorem display_lines_lose_nothing_negative :
    ',' ∉ ['c', 's', '(', ')', '-'] ∧ ','.isDigit = false ∧
      read? ⟨[' '], [',']⟩
          (join ⟨[' '], [',']⟩ (displayAll [.sc (-1), .sc (-1), .scTwo (-1) (-2), .chain])) =
        some [.sc (-1), .sc (-1), .scTwo (-1) (-2), .chain] := by
  have hmark : ',' ∉ ['c', 's', '(', ')', '-'] := by decide
  have hdigit : ','.isDigit = false := by decide
  obtain ⟨hread, _⟩ := display_lines_lose_nothing
  exact ⟨hmark, hdigit, hread [' '] ',' [] _ hmark hdigit⟩

end Spacing

end CrochetShorthand
