import CrochetShorthand.Dump.Yaml
import CrochetShorthand.Proofs.Nesting
import Mathlib.Logic.Basic

/-!
# What YAML cannot hold

The YAML writer refuses a dump exactly when a tag stands directly under a tag somewhere in it
(`Dump.NestsTags`).  A stitch under its tag is a word, a step is a word or a record under one tag,
and a group is a record under one tag.  Only a pattern is a tagged value under the tag of its kind,
so the commands that are refused are those with a pattern, at whatever depth.
-/

namespace CrochetShorthand

namespace Dump

/-- Induction over a dump and the dumps inside it. -/
@[elab_as_elim, induction_eliminator]
theorem induction {motive : Dump → Prop} (word : ∀ characters, motive (.word characters))
    (number : ∀ value, motive (.number value))
    (list : ∀ items, (∀ item ∈ items, motive item) → motive (.list items))
    (record : ∀ fields, (∀ field ∈ fields, motive field.2) → motive (.record fields))
    (tagged : ∀ tag payload, motive payload → motive (.tagged tag payload)) :
    ∀ dump, motive dump
  | .word characters => word characters
  | .number value => number value
  | .list items => list items fun item _ => induction word number list record tagged item
  | .record fields =>
      record fields fun field hmem =>
        have : sizeOf field.2 < sizeOf field := by
          obtain ⟨name, value⟩ := field
          show sizeOf value < sizeOf (name, value)
          rw [Prod.mk.sizeOf_spec]
          omega
        have := List.sizeOf_lt_of_mem hmem
        induction word number list record tagged field.2
  | .tagged tag payload =>
      tagged tag payload (induction word number list record tagged payload)

/-- Somewhere in a dump a tag stands directly under a tag. -/
inductive NestsTags : Dump → Prop
  | direct {tag : Text} {payload : Dump} (h : payload.isTagged = true) :
      NestsTags (.tagged tag payload)
  | payload {tag : Text} {payload : Dump} (h : NestsTags payload) : NestsTags (.tagged tag payload)
  | item {items : List Dump} {item : Dump} (hmem : item ∈ items) (h : NestsTags item) :
      NestsTags (.list items)
  | field {fields : List (Text × Dump)} {field : Text × Dump} (hmem : field ∈ fields)
      (h : NestsTags field.2) : NestsTags (.record fields)

@[simp]
theorem not_nestsTags_word (characters : Text) : ¬ NestsTags (.word characters) := by
  intro h
  cases h

@[simp]
theorem not_nestsTags_number (value : Int) : ¬ NestsTags (.number value) := by
  intro h
  cases h

@[simp]
theorem nestsTags_list_iff (items : List Dump) :
    NestsTags (.list items) ↔ ∃ item ∈ items, NestsTags item := by
  constructor
  · intro h
    cases h with
    | item hmem h => exact ⟨_, hmem, h⟩
  · intro h
    obtain ⟨item, hmem, h⟩ := h
    exact .item hmem h

@[simp]
theorem nestsTags_record_iff (fields : List (Text × Dump)) :
    NestsTags (.record fields) ↔ ∃ field ∈ fields, NestsTags field.2 := by
  constructor
  · intro h
    cases h with
    | field hmem h => exact ⟨_, hmem, h⟩
  · intro h
    obtain ⟨field, hmem, h⟩ := h
    exact .field hmem h

@[simp]
theorem nestsTags_tagged_iff (tag : Text) (payload : Dump) :
    NestsTags (.tagged tag payload) ↔ payload.isTagged = true ∨ NestsTags payload := by
  constructor
  · intro h
    cases h with
    | direct h => exact .inl h
    | payload h => exact .inr h
  · intro h
    rcases h with h | h
    · exact .direct h
    · exact .payload h

/-! ## The writer -/

theorem itemLines?_eq_none_iff (items : List Dump) :
    itemLines? items = none ↔ ∃ item ∈ items, block? item = none := by
  induction items with
  | nil => simp [itemLines?]
  | cons item rest ih =>
      simp only [itemLines?, List.mem_cons, exists_eq_or_imp, ← ih]
      cases block? item <;> cases itemLines? rest <;> simp

theorem fieldLines?_eq_none_iff (fields : List (Text × Dump)) :
    fieldLines? fields = none ↔ ∃ field ∈ fields, block? field.2 = none := by
  induction fields with
  | nil => simp [fieldLines?]
  | cons field rest ih =>
      simp only [fieldLines?, List.mem_cons, exists_eq_or_imp, ← ih]
      cases block? field.2 <;> cases fieldLines? rest <;> simp

/-- The writer refuses exactly the dumps with a tag directly under a tag. -/
theorem block?_eq_none_iff (dump : Dump) : block? dump = none ↔ NestsTags dump := by
  induction dump with
  | word characters => simp [block?]
  | number value => simp [block?]
  | list items ih =>
      have hlines : block? (.list items) = none ↔ itemLines? items = none := by
        cases items <;> simp [block?, itemLines?]
      rw [hlines, itemLines?_eq_none_iff, nestsTags_list_iff]
      exact exists_congr fun item => and_congr_right fun hmem => ih item hmem
  | record fields ih =>
      rw [block?, Option.map_eq_none_iff, fieldLines?_eq_none_iff, nestsTags_record_iff]
      exact exists_congr fun field => and_congr_right fun hmem => ih field hmem
  | tagged tag payload ih =>
      rw [block?, nestsTags_tagged_iff]
      split
      · rename_i htagged
        simp [htagged]
      · rename_i hplain
        simp [hplain, ih]

theorem yamlDocument?_eq_none_iff (dump : Dump) :
    yamlDocument? dump = none ↔ NestsTags dump := by
  rw [yamlDocument?, Option.map_eq_none_iff, block?_eq_none_iff]

/-! ## What is dumped -/

theorem not_nestsTags_ofStitch (stitch : Stitch) : ¬ NestsTags (ofStitch stitch) := by
  simp [ofStitch]

theorem not_nestsTags_ofStep (step : Step) : ¬ NestsTags (ofStep step) := by
  cases step <;> simp [ofStep, isTagged]

theorem ofCommands_eq_map (commands : List Command) :
    ofCommands commands = commands.map ofCommand := by
  induction commands with
  | nil => rfl
  | cons command rest ih => rw [ofCommands, ih, List.map_cons]

/-- A command is refused exactly when there is a pattern in it. -/
theorem nestsTags_ofCommand_iff (command : Command) :
    NestsTags (ofCommand command) ↔ ∃ pattern : Pattern, .pattern pattern ∈ command.within := by
  induction command with
  | stitch s => simp [ofCommand, ofStitch, isTagged, Command.within]
  | pattern p =>
      have htagged : (ofPattern p).isTagged = true := by cases p <;> rfl
      simp [ofCommand, htagged, Command.within]
  | group commands times ih =>
      have hinside : NestsTags (ofCommand (.group commands times)) ↔
          ∃ command ∈ commands, NestsTags (ofCommand command) := by
        simp [ofCommand, isTagged, count, ofCommands_eq_map]
      rw [hinside]
      simp only [Command.within, List.mem_cons, reduceCtorEq, false_or, Command.mem_withinAll]
      constructor
      · intro h
        obtain ⟨command, hmem, hcommand⟩ := h
        obtain ⟨pattern, hpattern⟩ := (ih command hmem).1 hcommand
        exact ⟨pattern, command, hmem, hpattern⟩
      · intro h
        obtain ⟨pattern, command, hmem, hpattern⟩ := h
        exact ⟨command, hmem, (ih command hmem).2 ⟨pattern, hpattern⟩⟩

end Dump

/-- Whether a command is a pattern. -/
def Command.isPattern : Command → Bool
  | .pattern _ => true
  | _ => false

/-- Commands are refused exactly when there is a pattern among them or inside them. -/
theorem Dump.nestsTags_commands_iff (commands : List Command) :
    NestsTags (.list (commands.map ofCommand)) ↔
      (Command.withinAll commands).any Command.isPattern = true := by
  have hpattern : ∀ command : Command, command.isPattern = true ↔
      ∃ pattern, command = .pattern pattern := by
    intro command
    cases command <;> simp [Command.isPattern]
  simp only [nestsTags_list_iff, List.mem_map, exists_exists_and_eq_and, nestsTags_ofCommand_iff,
    List.any_eq_true, hpattern, Command.mem_withinAll]
  constructor
  · intro h
    obtain ⟨command, hmem, pattern, hinside⟩ := h
    exact ⟨.pattern pattern, ⟨command, hmem, hinside⟩, pattern, rfl⟩
  · intro h
    obtain ⟨_, ⟨command, hmem, hinside⟩, pattern, rfl⟩ := h
    exact ⟨command, hmem, pattern, hinside⟩

end CrochetShorthand
