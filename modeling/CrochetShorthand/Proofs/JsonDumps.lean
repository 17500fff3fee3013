import CrochetShorthand.Dump.Reading
import CrochetShorthand.Proofs.Display
import CrochetShorthand.Proofs.Dumping
import CrochetShorthand.Session
import Mathlib.Data.Set.Function

/-!
# JSON dumps lose nothing

The JSON reader undoes the JSON writer.  In front of the text of a dump it expects a value, and
behind that text it has the value of the dump, inside the same open containers
(`Json.Reader.Reads`).  This holds of every dump whose words need no escapes, and the words of what
is dumped are such words.

A command, a stitch, a step and a display token can be taken from their values.  So a line that was
dumped is read back as the list that it was made from, and different lists have different lines.
-/

namespace CrochetShorthand

namespace Dump

/-! ## Words without escapes -/

/-- A character that neither JSON nor YAML has to escape. -/
def isPlainChar (c : Char) : Bool :=
  c.isAlphanum || c == '_' || c == '-' || c == '(' || c == ')'

/-- A word of which no format has to quote or escape a character. -/
def IsPlain (characters : Text) : Prop :=
  characters.all isPlainChar = true

instance (characters : Text) : Decidable (IsPlain characters) :=
  inferInstanceAs (Decidable (characters.all isPlainChar = true))

/-- All words, names and tags of a dump are plain. -/
inductive Plain : Dump → Prop
  | word {characters : Text} (h : IsPlain characters) : Plain (.word characters)
  | number (value : Int) : Plain (.number value)
  | list {items : List Dump} (hitems : ∀ item ∈ items, Plain item) : Plain (.list items)
  | record {fields : List (Text × Dump)} (hnames : ∀ field ∈ fields, IsPlain field.1)
      (hvalues : ∀ field ∈ fields, Plain field.2) : Plain (.record fields)
  | tagged {tag : Text} {payload : Dump} (htag : IsPlain tag) (hpayload : Plain payload) :
      Plain (.tagged tag payload)

theorem plain_record_nil : Plain (.record []) := by
  constructor
  · simp
  · simp

theorem Plain.field {name : Text} {value : Dump} {fields : List (Text × Dump)}
    (hname : IsPlain name) (hvalue : Plain value) (hfields : Plain (.record fields)) :
    Plain (.record ((name, value) :: fields)) := by
  cases hfields with
  | record hnames hvalues =>
      constructor
      · exact List.forall_mem_cons.2 ⟨hname, hnames⟩
      · exact List.forall_mem_cons.2 ⟨hvalue, hvalues⟩

theorem plain_ofStitch (stitch : Stitch) : Plain (ofStitch stitch) := by
  cases stitch <;> exact .word (by decide)

theorem plain_ofPattern (pattern : Pattern) : Plain (ofPattern pattern) := by
  cases pattern with
  | magicCircle n =>
      exact .tagged (by decide) (.field (by decide) (.number _) plain_record_nil)
  | magicEllipse n =>
      exact .tagged (by decide) (.field (by decide) (.number _) plain_record_nil)
  | bend round depth =>
      refine .tagged (by decide) (.field (by decide) (.number _) ?_)
      exact .field (by decide) (.number _) plain_record_nil

theorem plain_ofCommand (command : Command) : Plain (ofCommand command) := by
  induction command with
  | stitch s => exact .tagged (by decide) (plain_ofStitch s)
  | pattern p => exact .tagged (by decide) (plain_ofPattern p)
  | group commands times ih =>
      have hcommands : Plain (.list (ofCommands commands)) := by
        rw [ofCommands_eq_map]
        exact .list (List.forall_mem_map.2 ih)
      refine .tagged (by decide) (.field (by decide) hcommands ?_)
      exact .field (by decide) (.number _) plain_record_nil

theorem plain_ofStep (step : Step) : Plain (ofStep step) := by
  cases step with
  | chain => exact .word (by decide)
  | sc ago => exact .tagged (by decide) (.field (by decide) (.number _) plain_record_nil)
  | scTwo first second =>
      refine .tagged (by decide) (.field (by decide) (.number _) ?_)
      exact .field (by decide) (.number _) plain_record_nil

/-- The display tokens of steps are plain words. -/
theorem isPlain_of_mem_displayAll {steps : List Step} {token : Text}
    (h : token ∈ displayAll steps) : IsPlain token := by
  rw [StepRun.displayAll_eq_map_render] at h
  obtain ⟨run, -, rfl⟩ := List.mem_map.1 h
  apply List.all_eq_true.2
  intro c hc
  have htoken := StepRun.isTokenChar_of_mem_render hc
  simp only [Run.isTokenChar, Bool.or_eq_true, beq_iff_eq] at htoken
  rcases htoken with ((((rfl | rfl) | rfl) | rfl) | rfl) | hdigit
  · decide
  · decide
  · decide
  · decide
  · decide
  · simp [isPlainChar, Char.isAlphanum, hdigit]

/-! ## The value of a dump -/

mutual

/-- The JSON value of a dump.  A tag is the name of the only member of an object. -/
def toJson : Dump → Json
  | .word characters => .string characters
  | .number value => .number value
  | .list items => .array (itemsToJson items)
  | .record fields => .object (fieldsToJson fields)
  | .tagged tag payload => .object [(tag, toJson payload)]

def itemsToJson : List Dump → List Json
  | [] => []
  | item :: rest => toJson item :: itemsToJson rest

def fieldsToJson : List (Text × Dump) → List (Text × Json)
  | [] => []
  | (name, value) :: rest => (name, toJson value) :: fieldsToJson rest

end

theorem itemsToJson_eq_map (items : List Dump) : itemsToJson items = items.map toJson := by
  induction items with
  | nil => rfl
  | cons item rest ih => rw [itemsToJson, ih, List.map_cons]

end Dump

/-! ## Lexemes -/

namespace Json

open Dump (IsPlain Plain)

theorem lexeme?_quoted {characters : Text} (h : IsPlain characters) (rest : Text) :
    lexeme? (Dump.quoted characters ++ rest) = some (.string characters, rest) := by
  have hinside : ∀ c ∈ characters, (c != '"') = true := by
    intro c hc
    rw [bne_iff_ne]
    rintro rfl
    exact absurd (List.all_eq_true.1 h _ hc) (by decide)
  have hstop : ∀ c ∈ ('"' :: rest).head?, (c != '"') = false := Text.stops_cons (by decide) _
  obtain ⟨htake, hdrop⟩ := Text.takeWhile_append_of_stop hinside hstop
  rw [Dump.quoted, List.append_assoc, List.cons_append, List.singleton_append, lexeme?, hdrop]
  dsimp only
  rw [htake]

/-- Behind a number no digit comes, or it would belong to the number. -/
theorem lexeme?_ofInt (n : Int) {rest : Text} (hrest : ∀ c ∈ rest.head?, c.isDigit = false) :
    lexeme? (Decimal.ofInt n ++ rest) = some (.number n, rest) := by
  have hread := Decimal.leadingInt?_append n hrest
  unfold lexeme?
  split
  case h_8 =>
    rw [hread]
    rfl
  all_goals
    -- A text that starts with a mark starts with no number.
    rename_i hmark
    rw [hmark] at hread
    contradiction

namespace Reader

/-- One step of the reader. -/
theorem run_of_next? {reader next : Reader} {t rest : Text} {lexeme : Lexeme}
    (hresult : reader.result? = none) (hlexeme : lexeme? t = some (lexeme, rest))
    (hnext : reader.next? lexeme = some next) : reader.run t = next.run rest := by
  rw [run, hresult]
  dsimp only
  split
  · rename_i hnone
    rw [hlexeme] at hnone
    contradiction
  · rename_i hsome
    obtain ⟨rfl, rfl⟩ := Prod.mk.inj (Option.some.inj (hlexeme.symm.trans hsome))
    rw [hnext]

/-- The reader undoes the writer on a dump: in front of the text it expects a value, and behind the
text it has the value of the dump. -/
def Reads (dump : Dump) : Prop :=
  ∀ (opened : List Opened) (rest : Text), (∀ c ∈ rest.head?, c.isDigit = false) →
    run (.value opened) (dump.json ++ rest) = run (.behind dump.toJson opened) rest

/-- The items of an array come behind those that are read already. -/
theorem run_jsonItems {items : List Dump} (hnonempty : items ≠ [])
    (hitems : ∀ item ∈ items, Reads item) (latest : List Json) (opened : List Opened)
    (rest : Text) :
    run (.value (.array latest :: opened)) (Dump.jsonItems items ++ ']' :: rest) =
      run (.behind (.array (latest.reverse ++ Dump.itemsToJson items)) opened) rest := by
  induction items generalizing latest with
  | nil => contradiction
  | cons item items ih =>
      obtain ⟨hitem, hlater⟩ := List.forall_mem_cons.1 hitems
      cases items with
      | nil =>
          rw [Dump.jsonItems, hitem _ _ (Text.stops_cons (by decide) _),
            run_of_next? rfl rfl rfl]
          simp [Dump.itemsToJson]
      | cons next items =>
          rw [Dump.jsonItems, List.append_assoc, List.cons_append,
            hitem _ _ (Text.stops_cons (by decide) _), run_of_next? rfl rfl rfl,
            ih (List.cons_ne_nil next items) hlater]
          simp [Dump.itemsToJson]

/-- The members of an object come behind those that are read already. -/
theorem run_jsonFields {fields : List (Text × Dump)} (hnonempty : fields ≠ [])
    (hnames : ∀ field ∈ fields, IsPlain field.1) (hvalues : ∀ field ∈ fields, Reads field.2)
    (latest : List (Text × Json)) (opened : List Opened) (rest : Text) :
    run (.name latest opened) (Dump.jsonFields fields ++ '\x7d' :: rest) =
      run (.behind (.object (latest.reverse ++ Dump.fieldsToJson fields)) opened) rest := by
  induction fields generalizing latest with
  | nil => contradiction
  | cons field fields ih =>
      obtain ⟨name, value⟩ := field
      obtain ⟨hname, hlaterNames⟩ := List.forall_mem_cons.1 hnames
      obtain ⟨hvalue, hlaterValues⟩ := List.forall_mem_cons.1 hvalues
      have hmember : ∀ {rest : Text}, (∀ c ∈ rest.head?, c.isDigit = false) →
          run (.name latest opened) (Dump.quoted name ++ ':' :: (value.json ++ rest)) =
            run (.behind value.toJson (.object latest name :: opened)) rest := by
        intro rest hrest
        have hopen : (Reader.name latest opened).next? (.string name) =
            some (.colon latest name opened) := by
          cases latest <;> rfl
        rw [run_of_next? rfl (lexeme?_quoted hname _) hopen, run_of_next? rfl rfl rfl,
          hvalue _ _ hrest]
      cases fields with
      | nil =>
          rw [Dump.jsonFields, List.append_assoc, List.cons_append,
            hmember (Text.stops_cons (by decide) _), run_of_next? rfl rfl rfl]
          simp [Dump.fieldsToJson]
      | cons next fields =>
          rw [Dump.jsonFields, List.append_assoc, List.append_assoc, List.cons_append,
            List.cons_append, hmember (Text.stops_cons (by decide) _),
            run_of_next? rfl rfl rfl,
            ih (List.cons_ne_nil next fields) hlaterNames hlaterValues]
          simp [Dump.fieldsToJson]

theorem reads_list {items : List Dump} (hitems : ∀ item ∈ items, Reads item) :
    Reads (.list items) := by
  intro opened rest _
  have htext : (Dump.list items).json ++ rest = '[' :: (Dump.jsonItems items ++ ']' :: rest) := by
    simp [Dump.json]
  rw [htext, run_of_next? rfl rfl rfl]
  cases items with
  | nil => exact run_of_next? rfl rfl rfl
  | cons item items => exact run_jsonItems (List.cons_ne_nil item items) hitems [] opened rest

theorem reads_record {fields : List (Text × Dump)} (hnames : ∀ field ∈ fields, IsPlain field.1)
    (hvalues : ∀ field ∈ fields, Reads field.2) : Reads (.record fields) := by
  intro opened rest _
  have htext : (Dump.record fields).json ++ rest =
      '\x7b' :: (Dump.jsonFields fields ++ '\x7d' :: rest) := by
    simp [Dump.json]
  rw [htext, run_of_next? rfl rfl rfl]
  cases fields with
  | nil => exact run_of_next? rfl rfl rfl
  | cons field fields =>
      exact run_jsonFields (List.cons_ne_nil field fields) hnames hvalues [] opened rest

theorem reads_of_plain {dump : Dump} (h : Plain dump) : Reads dump := by
  induction h with
  | word h =>
      intro opened rest _
      exact run_of_next? rfl (lexeme?_quoted h rest) rfl
  | number value =>
      intro opened rest hrest
      exact run_of_next? rfl (lexeme?_ofInt value hrest) rfl
  | list _ ih => exact reads_list ih
  | record hnames _ ih => exact reads_record hnames ih
  | @tagged tag payload htag _ ih =>
      -- A tag is written as the only member of an object, and is read as one.
      have hmember : Reads (.record [(tag, payload)]) :=
        reads_record (List.forall_mem_singleton.2 htag) (List.forall_mem_singleton.2 ih)
      exact hmember

end Reader

/-- The value of a dump is read from its line. -/
theorem ofLine?_json {dump : Dump} (h : Plain dump) :
    ofLine? (dump.json ++ ['\n']) = some dump.toJson := by
  have hrun := Reader.reads_of_plain h [] ['\n'] (Text.stops_cons (by decide) _)
  have hdone : Reader.run (.behind dump.toJson []) ['\n'] = some (dump.toJson, ['\n']) := by
    rw [Reader.run, Reader.result?]
  rw [ofLine?, hrun, hdone]
  rfl

/-! ## What was dumped -/

theorem count?_count (n : UInt32) : count? (Dump.count n).toJson = some n := by
  have hlt : n.toNat < UInt32.size := n.toNat_lt
  have hrange : 0 ≤ (n.toNat : Int) ∧ (n.toNat : Int) < UInt32.size := by omega
  rw [Dump.count, Dump.toJson, count?, if_pos hrange, Int.toNat_natCast, UInt32.ofNat_toNat]

end Json

theorem Stitch.ofJson?_ofStitch (stitch : Stitch) :
    Stitch.ofJson? (Dump.ofStitch stitch).toJson = some stitch := by
  cases stitch <;> decide

theorem Pattern.ofJson?_ofPattern (pattern : Pattern) :
    Pattern.ofJson? (Dump.ofPattern pattern).toJson = some pattern := by
  cases pattern with
  | magicCircle n =>
      rw [Dump.ofPattern, Dump.toJson, Dump.toJson, Dump.fieldsToJson, Dump.fieldsToJson, ofJson?,
        if_pos ⟨rfl, rfl⟩, Json.count?_count]
      rfl
  | magicEllipse n =>
      have hother : ¬ ("magic_ellipse".toList = "magic_circle".toList ∧
          "extended_stitch_count".toList = "initial_stitch_count".toList) := by decide
      rw [Dump.ofPattern, Dump.toJson, Dump.toJson, Dump.fieldsToJson, Dump.fieldsToJson, ofJson?,
        if_neg hother, if_pos ⟨rfl, rfl⟩, Json.count?_count]
      rfl
  | bend round depth =>
      rw [Dump.ofPattern, Dump.toJson, Dump.toJson, Dump.fieldsToJson, Dump.fieldsToJson,
        Dump.fieldsToJson, ofJson?, if_pos ⟨rfl, rfl, rfl⟩, Json.count?_count, Json.count?_count]

namespace Command

theorem ofJsons?_ofCommands {commands : List Command}
    (h : ∀ command ∈ commands, ofJson? (Dump.ofCommand command).toJson = some command) :
    ofJsons? (Dump.itemsToJson (Dump.ofCommands commands)) = some commands := by
  induction commands with
  | nil => rfl
  | cons command rest ih =>
      obtain ⟨hcommand, hrest⟩ := List.forall_mem_cons.1 h
      rw [Dump.ofCommands, Dump.itemsToJson, ofJsons?, hcommand, ih hrest]

theorem ofJson?_ofCommand (command : Command) :
    ofJson? (Dump.ofCommand command).toJson = some command := by
  induction command with
  | stitch s =>
      rw [Dump.ofCommand, Dump.toJson, ofJson?, if_pos rfl, Stitch.ofJson?_ofStitch]
      rfl
  | pattern p =>
      rw [Dump.ofCommand, Dump.toJson, ofJson?, if_neg (by decide), if_pos rfl,
        Pattern.ofJson?_ofPattern]
      rfl
  | group commands times ih =>
      rw [Dump.ofCommand, Dump.toJson, ofJson?, if_neg (by decide), if_neg (by decide), if_pos rfl,
        Dump.toJson, Dump.fieldsToJson, Dump.fieldsToJson, Dump.fieldsToJson, Dump.toJson,
        ofGroupJson?, if_pos ⟨rfl, rfl⟩, ofJsons?_ofCommands ih, Json.count?_count]

end Command

theorem Step.ofJson?_ofStep (step : Step) : Step.ofJson? (Dump.ofStep step).toJson = some step := by
  cases step with
  | chain => rfl
  | sc ago => rfl
  | scTwo first second => rfl

/-! ## Lines -/

theorem Json.mapM_toJson {α : Type} {read? : Json → Option α} {toDump : α → Dump} {items : List α}
    (hread : ∀ item ∈ items, read? (toDump item).toJson = some item) :
    ((items.map toDump).map Dump.toJson).mapM read? = some items := by
  induction items with
  | nil => rfl
  | cons item rest ih =>
      obtain ⟨hitem, hrest⟩ := List.forall_mem_cons.1 hread
      rw [List.map_cons, List.map_cons, List.mapM_cons, hitem, ih hrest]
      rfl

/-- A list of items is read from its line, when each item can be taken from its value. -/
theorem Json.itemsOfLine?_json {α : Type} {read? : Json → Option α} {toDump : α → Dump}
    {items : List α} (hplain : ∀ item ∈ items, (toDump item).Plain)
    (hread : ∀ item ∈ items, read? (toDump item).toJson = some item) :
    itemsOfLine? read? ((Dump.list (items.map toDump)).json ++ ['\n']) = some items := by
  have hdumps : (Dump.list (items.map toDump)).Plain := .list (List.forall_mem_map.2 hplain)
  rw [itemsOfLine?, ofLine?_json hdumps, Dump.toJson, Dump.itemsToJson_eq_map, Option.bind_some,
    items?, mapM_toJson hread]

namespace Session

/-- Items dumped as JSON, each with its text and its dump. -/
def jsonDump {α : Type} (toText : α → Text) (toDump : α → Dump) (spacing : Spacing)
    (items : List α) : LineOutcome :=
  dump .json spacing (items.map fun item => (toText item, toDump item))

/-- JSON dumps keep all that is in the lists of a kind: a line is written for such a list, the list
is read back from the line, and different lists have different lines. -/
structure LosesNothing {α : Type} (toText : α → Text) (toDump : α → Dump)
    (read? : Json → Option α) (lists : Set (List α)) : Prop where
  read_back : ∀ spacing, ∀ items ∈ lists, ∃ line,
    jsonDump toText toDump spacing items = .done line ∧
      Json.itemsOfLine? read? line = some items
  injOn : ∀ spacing, Set.InjOn (jsonDump toText toDump spacing) lists

theorem losesNothing_of_read {α : Type} (toText : α → Text) {toDump : α → Dump}
    {read? : Json → Option α} {lists : Set (List α)}
    (hplain : ∀ items ∈ lists, ∀ item ∈ items, (toDump item).Plain)
    (hread : ∀ item, read? (toDump item).toJson = some item) :
    LosesNothing toText toDump read? lists := by
  have hback : ∀ spacing, ∀ items ∈ lists, ∃ line,
      jsonDump toText toDump spacing items = .done line ∧
        Json.itemsOfLine? read? line = some items := by
    intro spacing items hitems
    have hdumps : (items.map fun item => (toText item, toDump item)).map Prod.snd =
        items.map toDump := by
      rw [List.map_map]
      rfl
    refine ⟨(Dump.list (items.map toDump)).json ++ ['\n'], ?_, ?_⟩
    · rw [jsonDump, dump, hdumps]
    · exact Json.itemsOfLine?_json (hplain items hitems) fun item _ => hread item
  refine ⟨hback, ?_⟩
  intro spacing first hfirst second hsecond heq
  obtain ⟨line, hline, hitems⟩ := hback spacing first hfirst
  obtain ⟨line', hline', hitems'⟩ := hback spacing second hsecond
  obtain rfl : line = line' := LineOutcome.done.inj (by rw [← hline, heq, hline'])
  exact Option.some.inj (hitems.symm.trans hitems')

/-- No stage loses anything when it is dumped as JSON: commands with all their groups, stitches, and
steps with any addresses are read back, and so are the display tokens of whatever steps.  The texts
and dumps are those of the items of a line. -/
theorem jsonDump_losesNothing :
    LosesNothing Command.render Dump.ofCommand Command.ofJson? Set.univ ∧
      LosesNothing Stitch.keyword Dump.ofStitch Stitch.ofJson? Set.univ ∧
      LosesNothing Step.render Dump.ofStep Step.ofJson? Set.univ ∧
      LosesNothing id Dump.word Json.text? (Set.range displayAll) := by
  refine ⟨losesNothing_of_read _ ?_ Command.ofJson?_ofCommand,
    losesNothing_of_read _ ?_ Stitch.ofJson?_ofStitch,
    losesNothing_of_read _ ?_ Step.ofJson?_ofStep, losesNothing_of_read _ ?_ ?_⟩
  · intro _ _ command _
    exact Dump.plain_ofCommand command
  · intro _ _ stitch _
    exact Dump.plain_ofStitch stitch
  · intro _ _ step _
    exact Dump.plain_ofStep step
  · intro tokens htokens token hmem
    obtain ⟨steps, rfl⟩ := htokens
    exact .word (Dump.isPlain_of_mem_displayAll hmem)
  · intro token
    rfl

end Session

end CrochetShorthand
