import CrochetShorthand.CommandLine
import CrochetShorthand.Proofs.Dumping
import CrochetShorthand.Proofs.Staging

/-!
# What a session comes to

A session works its lines one after another, and what it writes is what the lines write, one behind
the other.  Where it ends is decided line by line: behind a line that the format refuses, and,
unless it is told to keep going, behind a line that fails.

`runFrom_tells` says this once for every session.  What one line writes is said beside it without
the machine: display tokens as text are those of the report, up to a fault, and everything else
is the dump of the stage, or nothing when the stage fails.  Text and JSON refuse no line.  YAML
refuses the tokens of a line exactly when there is a pattern in them.
-/

namespace CrochetShorthand

open Command (readLine withinAll)

/-! ## Up to a line -/

/-- The members up to and with the first that has a property; all of them when none has it. -/
def upToFirst {α : Type} (p : α → Bool) : List α → List α
  | [] => []
  | x :: xs => if p x then [x] else x :: upToFirst p xs

theorem upToFirst_append_rest {α : Type} (p : α → Bool) (xs : List α) :
    ∃ rest, upToFirst p xs ++ rest = xs := by
  induction xs with
  | nil => exact ⟨[], rfl⟩
  | cons x xs ih =>
      rw [upToFirst]
      split
      · exact ⟨xs, rfl⟩
      · obtain ⟨rest, hrest⟩ := ih
        exact ⟨rest, by rw [List.cons_append, hrest]⟩

theorem upToFirst_eq_self {α : Type} {p : α → Bool} {xs : List α} (h : ∀ x ∈ xs, p x = false) :
    upToFirst p xs = xs := by
  induction xs with
  | nil => rfl
  | cons x xs ih =>
      obtain ⟨hx, hxs⟩ := List.forall_mem_cons.1 h
      rw [upToFirst, hx, if_neg Bool.false_ne_true, ih hxs]

/-! ## One line after another -/

/-- Whether a notice is an error, and not a journal entry. -/
def Notice.isError : Notice → Bool
  | .error _ => true
  | .entry _ => false

namespace LineOutcome

/-- What a line adds to the output. -/
def output : LineOutcome → Text
  | .done output => output
  | .failed output _ => output
  | .stuck _ => []

/-- The message of the error that a line ends with. -/
def message? : LineOutcome → Option Text
  | .done _ => none
  | .failed _ fault => some fault.message
  | .stuck message => some message

end LineOutcome

/-- A transcript holds what these outcomes write and report, in order, and nothing else. -/
structure Transcript.Tells (transcript : Transcript) (outcomes : List LineOutcome) : Prop where
  output : transcript.output = outcomes.flatMap LineOutcome.output
  errors : transcript.notices.filter Notice.isError =
    (outcomes.filterMap LineOutcome.message?).map .error
  ok : transcript.ok = true ↔ ∀ outcome ∈ outcomes, outcome.message? = none

namespace Transcript.Tells

variable {notices : List Notice}

/-- One more outcome in front. -/
theorem cons {later : Transcript} {outcomes : List LineOutcome} (h : later.Tells outcomes)
    (outcome : LineOutcome)
    (hnotices : notices.filter Notice.isError = outcome.message?.toList.map .error) :
    Tells ⟨outcome.output ++ later.output, notices ++ later.notices,
      outcome.message?.isNone && later.ok⟩ (outcome :: outcomes) := by
  constructor
  · rw [List.flatMap_cons, ← h.output]
  · rw [List.filter_append, hnotices, h.errors, List.filterMap_cons]
    cases outcome.message? <;> rfl
  · simp [h.ok]

/-- An outcome with which the transcript ends. -/
theorem singleton (outcome : LineOutcome)
    (hnotices : notices.filter Notice.isError = outcome.message?.toList.map .error) :
    Tells ⟨outcome.output, notices, outcome.message?.isNone⟩ [outcome] := by
  have hnothing : Tells ⟨[], [], true⟩ [] := ⟨rfl, rfl, by simp⟩
  simpa using hnothing.cons outcome hnotices

end Transcript.Tells

namespace Session

theorem filter_isError_entries (entries : List Entry) :
    (entries.map Notice.entry).filter Notice.isError = [] := by
  rw [List.filter_eq_nil_iff]
  intro notice hmem
  obtain ⟨entry, -, rfl⟩ := List.mem_map.1 hmem
  exact Bool.false_ne_true

/-- Around the error of a line there are only journal entries. -/
theorem filter_isError_around (front back : List Entry) (message : Text) :
    (front.map Notice.entry ++ .error message :: back.map Notice.entry).filter Notice.isError =
      [.error message] := by
  rw [List.filter_append, filter_isError_entries, List.nil_append, List.filter_cons_of_pos rfl,
    filter_isError_entries]

/-- Whether the session ends behind a line. -/
def stopsAfter (session : Session) (line : Text) : Bool :=
  match session.work line with
  | .done _ => false
  | .failed _ _ => !session.keepGoing
  | .stuck _ => true

/-- From any line number on, a session tells the outcomes of its lines up to the one behind which it
ends. -/
theorem runFrom_tells (session : Session) (number : Nat) (lines : List Text) :
    (session.runFrom number (lines.map some)).Tells
      ((upToFirst session.stopsAfter lines).map session.work) := by
  induction lines generalizing number with
  | nil => exact ⟨rfl, filter_isError_entries _, by simp [runFrom, upToFirst]⟩
  | cons line lines ih =>
      have hlater := ih (number + 1)
      rw [List.map_cons, runFrom, upToFirst, stopsAfter]
      cases hwork : session.work line with
      | stuck message =>
          rw [if_pos rfl, List.map_singleton, hwork]
          exact .singleton (.stuck message) (filter_isError_around _ [] message)
      | done output =>
          rw [if_neg Bool.false_ne_true, List.map_cons, hwork]
          exact hlater.cons (.done output) (filter_isError_entries _)
      | failed output fault =>
          cases hkeep : session.keepGoing with
          | true =>
              dsimp only
              rw [if_pos rfl, Bool.not_true, if_neg Bool.false_ne_true, List.map_cons, hwork]
              exact hlater.cons (.failed output fault) (filter_isError_around _ _ fault.message)
          | false =>
              dsimp only
              rw [if_neg Bool.false_ne_true, Bool.not_false, if_pos rfl, List.map_singleton, hwork]
              exact .singleton (.failed output fault) (filter_isError_around _ _ fault.message)

theorem run_tells (session : Session) (lines : List Text) :
    (session.run (lines.map some)).Tells
      ((upToFirst session.stopsAfter lines).map session.work) := by
  obtain ⟨houtput, herrors, hok⟩ := session.runFrom_tells 1 lines
  constructor
  · exact houtput
  · rw [run, before, note, List.filter_append, filter_isError_entries, herrors, List.nil_append]
  · exact hok

/-! ## What a line writes -/

/-- The fault of a line: that of its report when display tokens are written one by one, and
otherwise that of its stage. -/
def lineFault? (session : Session) (line : Text) : Option Fault :=
  let limit := session.settings.maxGroupDepth
  match session.stage, session.format with
  | .display, .text => (Report.ofLine limit line).fault
  | .display, _ => failure? (Stage.displaysOf limit line)
  | .tokens, _ => failure? (Stage.tokensOf limit line)
  | .stitches, _ => failure? (Stage.stitchesOf limit line)
  | .steps, _ => failure? (Stage.stepsOf limit line)

/-- Display tokens as text: one line of them, which is empty without tokens. -/
def tokenText (spacing : Spacing) (displays : List Text) : Text :=
  (if displays = [] then [] else spacing.join displays) ++ ['\n']

/-- The members of a list in the format of the session, as text or as dumps; `none` when the format
cannot hold them. -/
def written? {α : Type} (session : Session) (text : α → Text) (dump : α → Dump)
    (found : List α) : Option Text :=
  match session.format with
  | .text => some (session.settings.spacing.join (found.map text) ++ ['\n'])
  | .json => some (Dump.json (.list (found.map dump)) ++ ['\n'])
  | .yaml => Dump.yamlDocument? (.list (found.map dump))

/-- What a line is dumped as.  Display tokens as text are those of the report, also of a line that
fails.  Otherwise it is the result of the stage, and there is no dump when the stage fails or the
format cannot hold its result. -/
def dumped? (session : Session) (line : Text) : Option Text :=
  let limit := session.settings.maxGroupDepth
  match session.stage, session.format with
  | .display, .text =>
      some (tokenText session.settings.spacing (Report.ofLine limit line).displays)
  | .display, _ => (Stage.displaysOf limit line).toOption.bind (session.written? id .word)
  | .tokens, _ =>
      (Stage.tokensOf limit line).toOption.bind (session.written? Command.render Dump.ofCommand)
  | .stitches, _ =>
      (Stage.stitchesOf limit line).toOption.bind (session.written? Stitch.keyword Dump.ofStitch)
  | .steps, _ =>
      (Stage.stepsOf limit line).toOption.bind (session.written? Step.render Dump.ofStep)

/-- What a line writes: its dump, and nothing without one. -/
def addition (session : Session) (line : Text) : Text :=
  (session.dumped? line).getD []

/-- Whether the format cannot hold the dump of a line: the tokens of a line with a pattern in
them, as YAML. -/
def refuses (session : Session) (line : Text) : Bool :=
  session.stage = .tokens && session.format = .yaml &&
    match readLine session.settings.maxGroupDepth line with
    | .error _ => false
    | .ok commands => (withinAll commands).any Command.isPattern

theorem refuses_eq_false {session : Session} (h : session.format ≠ .yaml) (line : Text) :
    session.refuses line = false := by
  simp [refuses, h]

/-- Tokens written one by one are the tokens joined. -/
theorem streamed_eq (spacing : Spacing) (displays : List Text) :
    streamed spacing displays = if displays = [] then [] else spacing.join displays := by
  cases displays with
  | nil => rfl
  | cons first rest =>
      have hjoin : ∀ token : Text, Text.joinWith spacing.separator (token :: rest) =
          token ++ rest.flatMap (spacing.separator ++ ·) := by
        induction rest with
        | nil => simp [Text.joinWith]
        | cons next rest ih => simp [Text.joinWith, ih]
      simp [streamed, Spacing.join, hjoin]

/-- Only YAML can be unable to hold a list, and it is when a tag stands directly under a tag. -/
theorem written?_eq_none_iff {α : Type} (session : Session) (text : α → Text) (dump : α → Dump)
    (found : List α) : session.written? text dump found = none ↔
      session.format = .yaml ∧ Dump.NestsTags (.list (found.map dump)) := by
  rw [written?]
  cases session.format <;> simp [Dump.yamlDocument?_eq_none_iff]

/-- The machine dumps the pairs of text and dump that stand for the members of a list. -/
theorem dump_eq {α : Type} (session : Session) (text : α → Text) (dump : α → Dump)
    (found : List α) :
    Session.dump session.format session.settings.spacing
        (found.map fun x => (text x, dump x)) =
      match session.written? text dump found with
      | some written => .done written
      | none => .stuck nestedTagMessage := by
  have htexts : (found.map fun x => (text x, dump x)).map Prod.fst = found.map text :=
    List.map_map
  have hdumps : (found.map fun x => (text x, dump x)).map Prod.snd = found.map dump :=
    List.map_map
  simp only [Session.dump, written?, htexts, hdumps]
  cases session.format with
  | text | json => rfl
  | yaml =>
      dsimp only
      cases Dump.yamlDocument? (.list (found.map dump)) <;> rfl

/-- What came of a line.  It fails with its fault, or the format refuses it and the session is stuck,
or it is dumped. -/
inductive LineCase (session : Session) (line : Text) : Prop
  | fails (fault : Fault) (hfault : session.lineFault? line = some fault)
      (hrefuses : session.refuses line = false)
      (hwork : session.work line = .failed (session.addition line) fault)
  | refused (hfault : session.lineFault? line = none) (hrefuses : session.refuses line = true)
      (hdump : session.dumped? line = none) (hwork : session.work line = .stuck nestedTagMessage)
  | dumped (written : Text) (hfault : session.lineFault? line = none)
      (hrefuses : session.refuses line = false) (hdump : session.dumped? line = some written)
      (hwork : session.work line = .done written)

/-- The case of a line whose stage is worked as a whole. -/
theorem lineCase_of_stage {α : Type} {session : Session} {line : Text}
    {result : Except Fault (List α)} {text : α → Text} {dump : α → Dump}
    (hfault : session.lineFault? line = failure? result)
    (hdump : session.dumped? line = result.toOption.bind (session.written? text dump))
    (hwork : session.work line =
      match result.map fun found => found.map fun x => (text x, dump x) with
      | .error fault => .failed [] fault
      | .ok items => Session.dump session.format session.settings.spacing items)
    (hrefuses : session.refuses line = true ↔
      ∃ found, result = .ok found ∧ session.written? text dump found = none) :
    LineCase session line := by
  cases result with
  | error fault =>
      have hholds : session.refuses line = false := by
        rw [Bool.eq_false_iff, Ne, hrefuses]
        rintro ⟨_, h, -⟩
        contradiction
      refine .fails fault hfault hholds ?_
      rw [hwork, addition, hdump]
      rfl
  | ok found =>
      have hmade : session.work line =
          match session.written? text dump found with
          | some written => .done written
          | none => .stuck nestedTagMessage :=
        hwork.trans (dump_eq session text dump found)
      cases hwritten : session.written? text dump found with
      | none =>
          rw [hwritten] at hmade
          exact .refused hfault (hrefuses.2 ⟨found, rfl, hwritten⟩) (hdump.trans hwritten) hmade
      | some written =>
          have hholds : session.refuses line = false := by
            rw [Bool.eq_false_iff, Ne, hrefuses]
            rintro ⟨other, hother, hnone⟩
            obtain rfl := Except.ok.inj hother
            rw [hwritten] at hnone
            contradiction
          rw [hwritten] at hmade
          exact .dumped written hfault hholds (hdump.trans hwritten) hmade

/-- Display tokens that are written one by one are those of the report. -/
theorem lineCase_of_streams {session : Session} (hstage : session.stage = .display)
    (hformat : session.format = .text) (line : Text) : LineCase session line := by
  have hfault : session.lineFault? line =
      (Report.ofLine session.settings.maxGroupDepth line).fault := by
    simp [lineFault?, hstage, hformat]
  have hdump : session.dumped? line = some (tokenText session.settings.spacing
      (Report.ofLine session.settings.maxGroupDepth line).displays) := by
    simp [dumped?, hstage, hformat]
  have hholds : session.refuses line = false := refuses_eq_false (by simp [hformat]) line
  have hstreams : session.streams = true := by simp [streams, hstage, hformat]
  cases hreport : (Report.ofLine session.settings.maxGroupDepth line).fault with
  | none =>
      refine .dumped _ (hfault.trans hreport) hholds hdump ?_
      simp [work, hstreams, hreport, streamed_eq, tokenText]
  | some fault =>
      refine .fails fault (hfault.trans hreport) hholds ?_
      simp [work, hstreams, hreport, streamed_eq, tokenText, addition, hdump]

theorem lineCase (session : Session) (line : Text) : LineCase session line := by
  obtain ⟨stage, format, keepGoing, settings, level⟩ := session
  cases stage with
  | display =>
      cases format with
      | text => exact lineCase_of_streams rfl rfl line
      | json | yaml =>
          refine lineCase_of_stage rfl rfl rfl ?_
          simp [refuses, written?_eq_none_iff]
  | tokens =>
      refine @lineCase_of_stage _ _ _ _ Command.render Dump.ofCommand rfl rfl ?_ ?_
      · cases format <;> rfl
      · cases hread : readLine settings.maxGroupDepth line <;>
          simp [refuses, written?_eq_none_iff, Stage.tokensOf, hread,
            Dump.nestsTags_commands_iff, -Dump.nestsTags_list_iff]
  | stitches =>
      refine @lineCase_of_stage _ _ _ _ Stitch.keyword Dump.ofStitch rfl rfl ?_ ?_
      · cases format <;> rfl
      · simp [refuses, written?_eq_none_iff, Dump.not_nestsTags_ofStitch]
  | steps =>
      refine @lineCase_of_stage _ _ _ _ Step.render Dump.ofStep rfl rfl ?_ ?_
      · cases format <;> rfl
      · simp [refuses, written?_eq_none_iff, Dump.not_nestsTags_ofStep]

theorem work_of_refuses {session : Session} {line : Text} (h : session.refuses line = true) :
    session.work line = .stuck nestedTagMessage := by
  cases session.lineCase line with
  | refused _ _ _ hwork => exact hwork
  | fails _ _ hrefuses _ | dumped _ _ hrefuses _ _ =>
      rw [hrefuses] at h
      contradiction

theorem output_work (session : Session) (line : Text) :
    (session.work line).output = session.addition line := by
  cases session.lineCase line with
  | fails fault _ _ hwork => rw [hwork, LineOutcome.output]
  | refused _ _ hdump hwork => rw [hwork, LineOutcome.output, addition, hdump, Option.getD_none]
  | dumped written _ _ hdump hwork =>
      rw [hwork, LineOutcome.output, addition, hdump, Option.getD_some]

theorem message?_work {session : Session} {line : Text} (h : session.refuses line = false) :
    (session.work line).message? = (session.lineFault? line).map Fault.message := by
  cases session.lineCase line with
  | fails fault hfault _ hwork => rw [hwork, hfault, LineOutcome.message?, Option.map_some]
  | refused _ hrefuses _ _ =>
      rw [hrefuses] at h
      contradiction
  | dumped written hfault _ _ hwork => rw [hwork, hfault, LineOutcome.message?, Option.map_none]

theorem stopsAfter_eq (session : Session) (line : Text) :
    session.stopsAfter line =
      (session.refuses line || !session.keepGoing && (session.lineFault? line).isSome) := by
  rw [stopsAfter]
  cases session.lineCase line with
  | fails fault hfault hrefuses hwork => simp [hwork, hfault, hrefuses]
  | refused _ hrefuses _ hwork => simp [hwork, hrefuses]
  | dumped written hfault hrefuses _ hwork => simp [hwork, hfault, hrefuses]

/-! ## Sessions -/

/-- The lines that a session works when the format refuses none of them: all of them when it keeps
going, and otherwise those up to and with the first that fails. -/
def worked (session : Session) (lines : List Text) : List Text :=
  if session.keepGoing then lines
  else upToFirst (fun line => (session.lineFault? line).isSome) lines

/-- In text and in JSON the session ends only behind a line that fails. -/
theorem upToFirst_stopsAfter (session : Session) (hformat : session.format ≠ .yaml)
    (lines : List Text) : upToFirst session.stopsAfter lines = session.worked lines := by
  have hstops : session.stopsAfter = fun line =>
      !session.keepGoing && (session.lineFault? line).isSome := by
    funext line
    rw [stopsAfter_eq, refuses_eq_false hformat, Bool.false_or]
  rw [hstops, worked]
  cases session.keepGoing with
  | true => exact upToFirst_eq_self fun _ _ => rfl
  | false => rfl

/-- A session that keeps going ends only behind a line that is refused. -/
theorem upToFirst_stopsAfter_of_keepGoing {session : Session} (hkeep : session.keepGoing = true)
    (lines : List Text) : upToFirst session.stopsAfter lines = upToFirst session.refuses lines := by
  have hstops : session.stopsAfter = session.refuses := by
    funext line
    rw [stopsAfter_eq, hkeep, Bool.not_true, Bool.false_and, Bool.or_false]
  rw [hstops]

/-- A session writes what its lines write, up to the one behind which it ends. -/
theorem output_run (session : Session) (lines : List Text) :
    (session.run (lines.map some)).output =
      (upToFirst session.stopsAfter lines).flatMap session.addition := by
  rw [(session.run_tells lines).output, List.flatMap_map]
  exact List.flatMap_congr fun line _ => output_work session line

/-- A session reports the faults of its lines, when none of those that it works is refused. -/
theorem errors_run {session : Session} {lines : List Text}
    (h : ∀ line ∈ upToFirst session.stopsAfter lines, session.refuses line = false) :
    (session.run (lines.map some)).notices.filter Notice.isError =
      ((upToFirst session.stopsAfter lines).filterMap session.lineFault?).map
        (fun fault => Notice.error fault.message) := by
  have hmessages : (upToFirst session.stopsAfter lines).filterMap
      (LineOutcome.message? ∘ session.work) =
        (upToFirst session.stopsAfter lines).filterMap fun line =>
          (session.lineFault? line).map Fault.message :=
    List.filterMap_congr fun line hmem => message?_work (h line hmem)
  rw [(session.run_tells lines).errors, List.filterMap_map, hmessages, ← List.map_filterMap,
    List.map_map]
  rfl

/-- In text and in JSON a session works all of its lines when it keeps going, and otherwise those up
to and with the first that fails.  It writes what these lines write, reports one error for each
of them that fails, in order, and exits with zero exactly when none fails.  What it writes without
keeping going comes first in what it writes when it keeps going. -/
theorem run_follows_lines (session : Session) (hformat : session.format ≠ .yaml)
    (lines : List Text) :
    (session.run (lines.map some)).output = (session.worked lines).flatMap session.addition ∧
    (session.run (lines.map some)).notices.filter Notice.isError =
      ((session.worked lines).filterMap session.lineFault?).map
        (fun fault => Notice.error fault.message) ∧
    (Outcome.worked (session.run (lines.map some))).exitCode =
      (if ∀ line ∈ session.worked lines, session.lineFault? line = none then 0 else 1) ∧
    ({ session with keepGoing := false }.run (lines.map some)).output <+:
      ({ session with keepGoing := true }.run (lines.map some)).output := by
  have hworked := upToFirst_stopsAfter session hformat lines
  have hholds : ∀ line ∈ upToFirst session.stopsAfter lines, session.refuses line = false :=
    fun line _ => refuses_eq_false hformat line
  refine ⟨?_, ?_, ?_, ?_⟩
  · rw [output_run, hworked]
  · rw [errors_run hholds, hworked]
  · have hok : (session.run (lines.map some)).ok = true ↔
        ∀ line ∈ session.worked lines, session.lineFault? line = none := by
      rw [(session.run_tells lines).ok, hworked, List.forall_mem_map]
      simp only [message?_work (refuses_eq_false hformat _), Option.map_eq_none_iff]
    rw [Outcome.exitCode]
    exact if_congr hok rfl rfl
  · obtain ⟨rest, hrest⟩ :=
      upToFirst_append_rest (fun line => (session.lineFault? line).isSome) lines
    have hstopping := upToFirst_stopsAfter { session with keepGoing := false } hformat lines
    have hgoing := upToFirst_stopsAfter { session with keepGoing := true } hformat lines
    refine ⟨rest.flatMap session.addition, ?_⟩
    rw [output_run, output_run, hstopping, hgoing]
    show (upToFirst (fun line => (session.lineFault? line).isSome) lines).flatMap
        session.addition ++ rest.flatMap session.addition = lines.flatMap session.addition
    rw [← List.flatMap_append, hrest]

/-- A session with the settings that hold when no layer says otherwise. -/
def standard (stage : Stage) (format : Format) (keepGoing : Bool) : Session :=
  ⟨stage, format, keepGoing,
    ⟨Command.standardLimit, ⟨[' '], [',']⟩, "Stitches: ".toList, "error".toList⟩, .error⟩

/-- The second line fails behind a run that is complete, and the third is not worked.  As JSON the
steps of the line that fails are not dumped, and the session that keeps going dumps those of the
line behind it. -/
theorem run_follows_lines_up_to_failing :
    ((standard .display .text false).format ≠ .yaml ∧
      (standard .display .text false).worked
          ["// a".toList, "c c sc foo".toList, "sc".toList] = ["// a".toList, "c c sc foo".toList] ∧
      ((standard .display .text false).run
          (["// a".toList, "c c sc foo".toList, "sc".toList].map some)).output =
        ["// a".toList, "c c sc foo".toList].flatMap (standard .display .text false).addition ∧
      (Outcome.worked ((standard .display .text false).run
        (["// a".toList, "c c sc foo".toList, "sc".toList].map some))).exitCode = 1) ∧
    ((standard .steps .json true).format ≠ .yaml ∧
      ((standard .steps .json true).run
          (["// a".toList, "c c sc foo".toList, "c sc".toList].map some)).output =
        "[]\n[\"chain\",\x7b\"sc_n\":\x7b\"stitch_ago\":0\x7d\x7d]\n".toList ∧
      ((standard .steps .json true).run
          (["// a".toList, "c c sc foo".toList, "c sc".toList].map some)).notices.filter
            Notice.isError =
        [.error "Unknown input 'foo'.".toList]) := by
  have htext : (standard .display .text false).format ≠ .yaml := by decide
  have hworked : (standard .display .text false).worked
      ["// a".toList, "c c sc foo".toList, "sc".toList] =
        ["// a".toList, "c c sc foo".toList] := by
    decide +kernel
  have hfails : ¬ ∀ line ∈ ["// a".toList, "c c sc foo".toList],
      (standard .display .text false).lineFault? line = none := by
    decide +kernel
  obtain ⟨houtput, -, hexit, -⟩ := run_follows_lines _ htext
    ["// a".toList, "c c sc foo".toList, "sc".toList]
  rw [hworked] at houtput hexit
  rw [if_neg hfails] at hexit
  have hjson : (standard .steps .json true).format ≠ .yaml := by decide
  obtain ⟨hdumps, hnotices, -, -⟩ := run_follows_lines _ hjson
    ["// a".toList, "c c sc foo".toList, "c sc".toList]
  refine ⟨⟨htext, hworked, houtput, hexit⟩, hjson, hdumps.trans ?_, hnotices.trans ?_⟩ <;>
    decide +kernel

-- Without tokens a line is empty, and the run held back at the fault is not written.
example :
    (standard .display .text false).run
        (["// a".toList, "c c sc foo".toList, "sc".toList].map some) =
      ⟨"\n (c)2\n".toList, [.error "Unknown input 'foo'.".toList], false⟩ := by
  decide +kernel

/-- A line without a fault is dumped, and the session goes on behind it, unless the line is refused;
then nothing is written for it and the session ends there.  The only lines that are refused are those
with a pattern among their tokens, and only when the tokens are dumped as YAML.  A session that keeps
going therefore works its lines up to and with the first that is refused, and all of them when none
is. -/
theorem runFrom_dumped_or_refused (session : Session) :
    (∀ line, session.lineFault? line = none → session.refuses line = false →
      ∃ written, session.dumped? line = some written ∧ ∀ number rest,
        session.runFrom number (some line :: rest) =
          before written (session.lineEntries line) (session.runFrom (number + 1) rest)) ∧
    (∀ line, session.refuses line = true → ∀ number rest,
      session.runFrom number (some line :: rest) =
        ⟨[], session.lineEntries line ++ [.error nestedTagMessage], false⟩) ∧
    (session.keepGoing = true → ∀ lines,
      (session.run (lines.map some)).output =
        (upToFirst session.refuses lines).flatMap session.addition ∧
      ((∀ line ∈ lines, session.refuses line = false) →
        (session.run (lines.map some)).output = lines.flatMap session.addition ∧
        (session.run (lines.map some)).notices.filter Notice.isError =
          (lines.filterMap session.lineFault?).map (fun fault => Notice.error fault.message))) := by
  refine ⟨?_, ?_, ?_⟩
  · intro line hfault hholds
    cases session.lineCase line with
    | fails fault hfails _ _ =>
        rw [hfails] at hfault
        contradiction
    | refused _ hrefuses _ _ =>
        rw [hrefuses] at hholds
        contradiction
    | dumped written _ _ hdump hwork =>
        refine ⟨written, hdump, ?_⟩
        intro number rest
        rw [runFrom, hwork]
  · intro line hrefuses number rest
    rw [runFrom, work_of_refuses hrefuses]
  · intro hkeep lines
    have hworked := upToFirst_stopsAfter_of_keepGoing hkeep lines
    refine ⟨by rw [output_run, hworked], ?_⟩
    intro hholds
    have hall : upToFirst session.stopsAfter lines = lines :=
      hworked.trans (upToFirst_eq_self hholds)
    constructor
    · rw [output_run, hall]
    · rw [errors_run (hall.symm ▸ hholds), hall]

/-- The pattern inside the group ends the session, and the line behind it is not worked.  The stitch
and the group in front of it are dumped. -/
theorem runFrom_refused_at_inner_pattern :
    ((standard .tokens .yaml true).lineFault? "sc [c]2".toList = none ∧
      (standard .tokens .yaml true).refuses "sc [c]2".toList = false ∧
      ∃ written, (standard .tokens .yaml true).dumped? "sc [c]2".toList = some written ∧
        ∀ number rest,
          (standard .tokens .yaml true).runFrom number (some "sc [c]2".toList :: rest) =
            before written ((standard .tokens .yaml true).lineEntries "sc [c]2".toList)
              ((standard .tokens .yaml true).runFrom (number + 1) rest)) ∧
    (standard .tokens .yaml true).refuses "sc [c mc(2)]2".toList = true ∧
    (standard .tokens .yaml true).runFrom 2 [some "sc [c mc(2)]2".toList, some "c".toList] =
        ⟨[], (standard .tokens .yaml true).lineEntries "sc [c mc(2)]2".toList ++
          [.error nestedTagMessage], false⟩ ∧
    (standard .tokens .yaml true).keepGoing = true ∧
    ((standard .tokens .yaml true).run
        (["sc [c]2".toList, "sc [c mc(2)]2".toList, "c".toList].map some)).output =
      ["sc [c]2".toList, "sc [c mc(2)]2".toList].flatMap
        (standard .tokens .yaml true).addition := by
  have hfault : (standard .tokens .yaml true).lineFault? "sc [c]2".toList = none := by
    decide +kernel
  have hholds : (standard .tokens .yaml true).refuses "sc [c]2".toList = false := by
    decide +kernel
  have hrefuses : (standard .tokens .yaml true).refuses "sc [c mc(2)]2".toList = true := by
    decide +kernel
  obtain ⟨hdumps, hstops, houtput⟩ := runFrom_dumped_or_refused (standard .tokens .yaml true)
  have hwritten := (houtput rfl ["sc [c]2".toList, "sc [c mc(2)]2".toList, "c".toList]).1
  rw [upToFirst, hholds, if_neg Bool.false_ne_true, upToFirst, hrefuses, if_pos rfl] at hwritten
  exact ⟨⟨hfault, hholds, hdumps _ hfault hholds⟩, hrefuses, hstops _ hrefuses 2 _, rfl, hwritten⟩

/-- The tokens of the line `mc(3)` cannot be dumped as YAML, though they can be read, and a session
that is told to keep going does not come to the line behind it. -/
theorem pattern_stops_yaml_tokens :
    Stage.tokensOf Command.standardLimit "mc(3)".toList = .ok [.pattern (.magicCircle 3)] ∧
      (standard .tokens .yaml true).run [some "mc(3)".toList, some "sc".toList] =
        ⟨[], [.error nestedTagMessage], false⟩ ∧
      (standard .tokens .yaml true).run [some "sc".toList] =
        ⟨"---\n- !stitch single_crochet\n".toList, [], true⟩ := by
  decide +kernel

end Session

end CrochetShorthand
