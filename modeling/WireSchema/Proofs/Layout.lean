import WireSchema.Proofs.Relocation
import WireSchema.Proofs.Section

/-
  White space between the lexemes of a schema.

  A schema is read as the lexemes of its text.  More white space
  may stand between any two of them, before the first and behind
  the last: the records that are read, their inferred tags with
  them, stay what they are, and only their places move.

  Main declarations:
    * `Schema.lexemes`
    * `Record.unplaced`
    * `Schema.parse_insert_spacing`
-/

namespace WireSchema

------------------------------------------------------------
-- What Does Not Depend on Places
------------------------------------------------------------

/- The one place that all are moved to where places do not
   matter. -/
def Position.forget
    (_ : Position) :
    Position :=
  Position.start

/- A record without its place. -/
def Record.unplaced
    (record : Record) :
    Record :=
  record.relocate Position.forget

theorem moveAlike_forget :
    MoveAlike Position.forget Position.forget := by
  intro position other c hPlace
  rfl

/- Runs from one reader end alike, wherever they start. -/
theorem Item.run_forget
    (reader : Reader)
    (last finish position place : Position)
    (text : List Char) :
    EndAlike Position.forget Position.forget []
      (automaton.run reader last position text)
      (automaton.run reader finish place text) := by
  apply run_endAlike moveAlike_forget
  · rfl
  · exact .inr rfl
  · rfl

namespace Schema

/- The lexemes of a schema's text, as far as it can be read. -/
def lexemes
    (text : String) :
    List Lexeme :=
  Item.automaton.lexemes Reader.start Position.start
    text.toList

/- A schema that can be read is made up of its lexemes. -/
theorem reads_lexemes
    {text : String}
    {source : Option String}
    {schema : Schema}
    (hParse : parse text source = .ok schema) :
    Lexeme.spell (lexemes text) = text.toList ∧
      ∃ final finish,
        Item.automaton.Reads [] Reader.start Position.start
          Position.start (lexemes text) final finish := by
  rcases parse_eq_ok_iff.mp hParse with ⟨items, hItems, -, -⟩
  rcases Item.run_of_parse hItems with ⟨finish, hRun⟩
  have hReads := Automaton.reads_of_run hRun
  exact ⟨hReads.1, _, finish, hReads.2⟩

/- A text whose items are given ones up to places has their
   records up to places. -/
theorem parse_of_items
    {text : String}
    {items others : List Item}
    {records : List Record}
    (hText : Item.parse text = .ok others)
    (hSame : others.map (Item.relocate Position.forget) =
      items.map (Item.relocate Position.forget))
    (hRecords : Record.ofItems items = .ok records)
    (source : Option String) :
    ∃ schema, parse text source = .ok schema ∧
      schema.records.map Record.unplaced =
        records.map Record.unplaced := by
  have hMoved := Record.ofItemsFrom_relocate Position.forget
    .constructor [] others
  rw [hSame, Record.ofItemsFrom_relocate] at hMoved
  change Outcome.bimap _ _ (Record.ofItems items) =
    Outcome.bimap _ _ (Record.ofItems others) at hMoved
  rw [hRecords, eq_comm, Outcome.bimap,
    Outcome.bimap_eq_ok_iff] at hMoved
  rcases hMoved with ⟨again, hAgain, hUnplaced⟩
  exact ⟨⟨again, source⟩,
    parse_eq_ok_iff.mpr ⟨others, hText, hAgain, rfl⟩,
    hUnplaced⟩

/- Texts whose runs end alike are read to the same records up
   to places. -/
theorem parse_of_endAlike
    {text other : String}
    {source : Option String}
    {schema : Schema}
    (hEnd : Item.EndAlike Position.forget Position.forget []
      (Item.automaton.run Reader.start Position.start
        Position.start text.toList)
      (Item.automaton.run Reader.start Position.start
        Position.start other.toList))
    (hParse : parse text source = .ok schema) :
    ∃ again, parse other source = .ok again ∧
      again.records.map Record.unplaced =
        schema.records.map Record.unplaced := by
  rcases parse_eq_ok_iff.mp hParse with
    ⟨items, hText, hRecords, -⟩
  have hItems := hEnd.ofRun
  rw [← Item.parse_eq_ofRun, ← Item.parse_eq_ofRun, hText,
    eq_comm, Outcome.bimap, Outcome.bimap_eq_ok_iff] at hItems
  rcases hItems with ⟨others, hOther, hSame⟩
  exact parse_of_items hOther hSame hRecords source

------------------------------------------------------------
-- More White Space
------------------------------------------------------------

/- White space between two lexemes of a schema changes nothing
   but places. -/
theorem parse_insert_spacing
    {text : String}
    {source : Option String}
    {schema : Schema}
    (hParse : parse text source = .ok schema)
    {before after : List Lexeme}
    (hLexemes : lexemes text = before ++ after)
    {gap : List Char}
    (hGap : ∀ c ∈ gap, Terminal.isSpacing c = true) :
    text = String.ofList
        (Lexeme.spell before ++ Lexeme.spell after) ∧
      ∃ again,
        parse (String.ofList (Lexeme.spell before ++ gap ++
            Lexeme.spell after)) source = .ok again ∧
          again.records.map Record.unplaced =
            schema.records.map Record.unplaced := by
  rcases reads_lexemes hParse with
    ⟨hSpell, final, finish, hReads⟩
  rw [hLexemes] at hSpell hReads
  rw [Lexeme.spell_append] at hSpell
  rcases hReads.split with ⟨middle, place, hBefore, -⟩
  rw [List.append_nil] at hBefore
  refine ⟨?_, parse_of_endAlike ?_ hParse⟩
  · rw [hSpell, String.ofList_toList]
  · rw [String.toList_ofList, ← hSpell, hBefore.run_append,
      List.append_assoc, hBefore.run_spacing hGap]
    exact Item.run_forget middle place place _ _ _

/- A form feed and a line feed behind a line comment. -/
theorem parse_insert_spacing_comment :
    ∃ schema again,
      parse "f#1 x:int // c\n = Vector<!T>;" none =
        .ok schema ∧
      parse "f#1 x:int // c\x0c\n\n = Vector<!T>;" none =
        .ok again ∧
      again.records.map Record.unplaced =
        schema.records.map Record.unplaced := by
  have hPasses : Outcome.passes (fun _ => true)
      (parse "f#1 x:int // c\n = Vector<!T>;" none) = true := by
    decide +kernel
  rcases Outcome.exists_of_passes hPasses with
    ⟨schema, hParse, -⟩
  have hLexemes :
      lexemes "f#1 x:int // c\n = Vector<!T>;" =
        [⟨.name, "f"⟩, ⟨.tag, "#1"⟩, ⟨.blank, " "⟩,
          ⟨.name, "x"⟩, ⟨.colon, ":"⟩, ⟨.wireType, "int"⟩,
          ⟨.blank, " "⟩, ⟨.lineComment, "// c"⟩] ++
        [⟨.blank, "\n "⟩, ⟨.equal, "="⟩, ⟨.blank, " "⟩,
          ⟨.name, "Vector"⟩, ⟨.less, "<"⟩, ⟨.bang, "!"⟩,
          ⟨.name, "T"⟩, ⟨.greater, ">"⟩,
          ⟨.semicolon, ";"⟩] := by
    decide +kernel
  have hGap : ∀ c ∈ ['\x0c', '\n'],
      Terminal.isSpacing c = true :=
    List.all_eq_true.mp rfl
  rcases (parse_insert_spacing hParse hLexemes hGap).2 with
    ⟨again, hAgain, hSame⟩
  exact ⟨schema, again, hParse, hAgain, hSame⟩

end Schema

end WireSchema
