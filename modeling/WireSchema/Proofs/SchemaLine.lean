import WireSchema.Proofs.Compiled
import WireSchema.Proofs.Restated

/-
  The schema lines of classes.

  A class shows the declaration it was compiled from as one line
  of a schema.  A param that has been compiled has a name, so
  the line spells the lexemes of a combinator: the one of the
  class with its tag written out and without type variables.
  Each wire type is followed by a space, so nothing in it can
  join what comes next.

  Main declarations:
    * `ParamItem.isNamed_of_isOf`
    * `Combinator.written_line`
    * `ClassDecl.exists_combinator`
    * `parse_schemaLine_of_compile`
-/

namespace WireSchema

------------------------------------------------------------
-- Params with Names
------------------------------------------------------------

namespace ParamItem

/- A param that is declared with a name. -/
def IsNamed :
    ParamItem → Prop
  | .bitmask _ => True
  | .typed _ _ => True
  | .number => False
  | .repeated _ => False

/- A param with an entry has a name: the spelling of any other
   is no wire type. -/
theorem isNamed_of_isOf
    {param : ParamItem}
    {field : Field}
    (hField : Field.IsOf ⟨param.name, param.wireType⟩ field) :
    param.IsNamed := by
  cases param with
  | bitmask name => trivial
  | typed name wireType => trivial
  | number =>
      rcases Ty.ofToken_eq_ok_iff.mp (hField.value rfl) with
        ⟨wireType, hParse, -⟩
      exact WireType.parse_sign rfl (.inr rfl) wireType hParse
  | repeated names =>
      rcases Ty.ofToken_eq_ok_iff.mp (hField.value rfl) with
        ⟨other, hParse, -⟩
      have hText : (wireType (.repeated names)).toList =
          '[' :: ' ' :: ((" ".intercalate names).toList ++
            [' ', ']']) := by
        simp [wireType]
      exact WireType.parse_sign hText (.inl rfl) other hParse

/- A param with a name in text. -/
theorem text_of_isNamed
    {param : ParamItem}
    (hNamed : param.IsNamed) :
    param.text = param.name ++ ":" ++ param.wireType := by
  cases param with
  | bitmask name => rfl
  | typed name wireType => rfl
  | number => exact hNamed.elim
  | repeated names => exact hNamed.elim

end ParamItem

------------------------------------------------------------
-- Lexemes before a Space
------------------------------------------------------------

namespace Lexeme

variable {lexemes : List Lexeme}
variable {text : List Char}

/- A token may stand before a space, or at the end. -/
theorem IsToken.written
    {lexeme : Lexeme}
    (hToken : lexeme.IsToken)
    (hText : Written lexemes text)
    (hSpace : Terminal.Heads (· = ' ') text) :
    Written (lexeme :: lexemes) (lexeme.chars ++ text) := by
  apply hText.abut
  intro c hHead
  rw [hSpace c hHead]
  exact hToken.goesOn_space

/- A param with a name, before a space. -/
theorem Written.param
    {param : ParamItem}
    (hText : Written lexemes text)
    (hSpelled : param.IsSpelled)
    (hNamed : param.IsNamed)
    (hSpace : Terminal.Heads (· = ' ') text) :
    Written (param.lexemes ++ lexemes)
      (param.text.toList ++ text) := by
  have hTokens := ParamItem.isToken_lexemes hSpelled
  -- both forms are a name, a colon and one more token
  have hAll : ∀ last : Lexeme,
      param.lexemes =
        [.name param.name, .sign .colon, last] →
      last.text = param.wireType →
      Written (param.lexemes ++ lexemes)
        (param.text.toList ++ text) := by
    intro last hLexemes hLast
    have hToken : last.IsToken := by
      apply hTokens
      simp [hLexemes]
    have hType := hToken.written hText hSpace
    have hColon : Written
        (.sign .colon :: last :: lexemes)
        (':' :: (last.chars ++ text)) :=
      hType.sign rfl fun _ => rfl
    have hName := hColon.name param.name (endsName_cons rfl)
    rw [hLexemes, ParamItem.text_of_isNamed hNamed]
    simpa [chars, hLast] using hName
  cases param with
  | bitmask name => exact hAll (.sign .hash) rfl rfl
  | typed name wireType =>
      exact hAll ⟨.wireType, wireType⟩ rfl rfl
  | number => exact hNamed.elim
  | repeated names => exact hNamed.elim

theorem heads_spaced_append
    (texts : List String)
    (hSpace : Terminal.Heads (· = ' ') text) :
    Terminal.Heads (· = ' ') (Text.spaced texts ++ text) := by
  cases texts with
  | nil => exact hSpace
  | cons first texts =>
      intro c hHead
      exact (Option.some.inj hHead).symm

/- Params with names and a space before each. -/
theorem Written.params
    {params : List ParamItem}
    (hText : Written lexemes text)
    (hSpelled : ∀ param ∈ params, param.IsSpelled)
    (hNamed : ∀ param ∈ params, param.IsNamed)
    (hSpace : Terminal.Heads (· = ' ') text) :
    Written (params.flatMap ParamItem.lexemes ++ lexemes)
      (Text.spaced (params.map ParamItem.text) ++ text) := by
  induction params with
  | nil => exact hText
  | cons param params ih =>
      have hRest := ih
        (List.forall_mem_of_forall_mem_cons hSpelled)
        (List.forall_mem_of_forall_mem_cons hNamed)
      have hFirst := hRest.param
        (hSpelled param List.mem_cons_self)
        (hNamed param List.mem_cons_self)
        (heads_spaced_append _ hSpace)
      rw [← List.append_assoc, ← List.append_assoc] at hFirst
      exact hFirst.spacing rfl

end Lexeme

------------------------------------------------------------
-- Lines of Combinators
------------------------------------------------------------

namespace Combinator

/- A combinator that declares a tag and no type variables. -/
def lined
    (tag : Int)
    (combinator : Combinator) :
    Combinator :=
  { combinator with
    tag := some (Tag.written tag)
    typeParams := [] }

/- The parts of a combinator in one line. -/
def line
    (tag : Int)
    (combinator : Combinator) :
    String :=
  " ".intercalate
    ((combinator.name.text ++ "#" ++ Tag.lowerHex tag) ::
      combinator.params.map ParamItem.text ++
      ["= " ++ combinator.result.text ++ ";"])

variable {tag : Int} {combinator : Combinator}

theorem isSpelled_lined
    (hTag : Tag.InRange tag)
    (hSpelled : combinator.IsSpelled) :
    (combinator.lined tag).IsSpelled := by
  refine ⟨⟨hSpelled.opening.name, ?_, ?_,
    hSpelled.opening.params⟩, hSpelled.result⟩
  · intro text hText
    cases hText
    exact (Tag.isLexeme_written hTag).1
  · intro param hMem
    cases hMem

/- The line of a combinator spells its lexemes. -/
theorem written_line
    (hTag : Tag.InRange tag)
    (hSpelled : combinator.IsSpelled)
    (hNamed : ∀ param ∈ combinator.params, param.IsNamed) :
    Lexeme.Written
      (Item.lexemes (.combinator (combinator.lined tag)))
      (combinator.line tag).toList := by
  have hEnd : Lexeme.Written [.sign .semicolon] [';'] :=
    Lexeme.written_nil.sign rfl fun _ => rfl
  have hResult := hEnd.result combinator.result
    (Lexeme.endsName_cons rfl)
  have hEqual : Lexeme.Written
      (.sign .equal :: (combinator.result.lexemes ++
        [.sign .semicolon]))
      ('=' :: ' ' :: (combinator.result.text.toList ++
        [';'])) :=
    (hResult.spacing rfl).sign rfl fun _ => rfl
  have hSpace : Terminal.Heads (· = ' ')
      (' ' :: '=' :: ' ' :: (combinator.result.text.toList ++
        [';'])) := by
    intro c hHead
    exact (Option.some.inj hHead).symm
  have hParams := (hEqual.spacing rfl).params
    hSpelled.opening.params hNamed hSpace
  have hToken : Lexeme.IsToken ⟨.tag, Tag.written tag⟩ :=
    ⟨rfl, (Tag.isLexeme_written hTag).1⟩
  have hTagged := hToken.written hParams
    (Lexeme.heads_spaced_append _ hSpace)
  rcases Tag.toList_written hTag with ⟨digits, hDigits, -⟩
  have hEnds : Lexeme.EndsName
      (Lexeme.chars ⟨.tag, Tag.written tag⟩ ++
        (Text.spaced (combinator.params.map ParamItem.text) ++
          ' ' :: '=' :: ' ' ::
            (combinator.result.text.toList ++ [';']))) := by
    rw [Lexeme.chars, hDigits]
    exact Lexeme.endsName_cons rfl
  have hLine := hTagged.fullName combinator.name hEnds
  rw [line, List.cons_append, Text.toList_intercalate_cons]
  simpa [lined, Item.lexemes, Opening.lexemes, Text.spaced,
    Tag.written, Lexeme.chars] using hLine

/- The record of a combinator in one line. -/
theorem unplaced_lined
    (hTag : Tag.InRange tag)
    (kind : RecordKind)
    (combinator : Combinator) :
    (Record.declared kind (combinator.lined tag).tagNumber
        (combinator.lined tag)).unplaced =
      { (Record.declared kind tag combinator).explicit with
        typeParams := [] } := by
  have hNumber : ((combinator.lined tag).tagNumber : Int) =
      tag :=
    (Tag.isLexeme_written hTag).2
  rw [hNumber]
  simp [Record.declared, lined, Record.explicit,
    Record.unplaced, Record.relocate]

end Combinator

------------------------------------------------------------
-- Lines of Classes
------------------------------------------------------------

/- A combinator that a class has been compiled from. -/
structure Combinator.Declares
    (item : ClassDecl)
    (combinator : Combinator) :
    Prop where
  tag : Tag.InRange item.tag
  spelled : combinator.IsSpelled
  apart : combinator.NamesApart
  named : ∀ param ∈ combinator.params, param.IsNamed
  name : item.schemaName = combinator.name.text
  result : item.resultType = combinator.result.text
  fields : (item.fields.map fun field =>
      Param.mk field.name field.rawType) =
    combinator.params.map fun param =>
      Param.mk param.name param.wireType

namespace ClassDecl

/- Every class comes from a combinator of the text. -/
theorem exists_combinator
    {text : String}
    {options : CompileOptions}
    {compiled : Compiled}
    {item : ClassDecl}
    (hChecked : compiled.IsChecked text options)
    (hItem : item ∈ compiled.decl.classes) :
    ∃ combinator : Combinator, combinator.Declares item := by
  rw [hChecked.decl] at hItem
  rcases List.mem_map.mp hItem with ⟨shape, hShape, rfl⟩
  rcases Paired.exists_left hChecked.isFrom hShape with
    ⟨record, hRecord, hFrom⟩
  rcases Record.exists_combinator hChecked.parse record
      (List.mem_filter.mp hRecord).1 with
    ⟨kind, combinator, hSpelled, hDeclared⟩
  rcases (Combinator.ofCombinator_eq_ok_iff hSpelled).mp
    hDeclared with ⟨hApart, rfl⟩
  have hOf := hFrom.isOf
  have hEntries : List.Forall₂
      (fun param field => Field.IsOf
        ⟨ParamItem.name param, param.wireType⟩ field)
      combinator.params shape.entries :=
    List.forall₂_map_left_iff.mp hOf.entries
  refine ⟨combinator, hFrom.tag_inRange, hSpelled, hApart,
    ?_, hOf.name, hOf.resultType, ?_⟩
  · intro param hMem
    rcases Paired.exists_right hEntries hMem with
      ⟨field, -, hField⟩
    exact ParamItem.isNamed_of_isOf hField
  · rw [ofShape, List.map_map]
    refine (Paired.map_eq_map hEntries ?_).symm
    intro param field hField
    exact Param.mk.injEq .. ▸
      ⟨hField.name.symm, hField.rawType.symm⟩

end ClassDecl

namespace Combinator

variable {item : ClassDecl} {combinator : Combinator}

theorem Declares.schemaLine_eq
    (hDeclares : combinator.Declares item) :
    item.schemaLine = combinator.line item.tag := by
  have hFields : (item.fields.map fun field =>
      field.name ++ ":" ++ field.rawType) =
      combinator.params.map ParamItem.text := by
    have hTexts := congrArg
      (List.map fun param =>
        param.name ++ ":" ++ Param.wireType param)
      hDeclares.fields
    rw [List.map_map, List.map_map] at hTexts
    refine hTexts.trans (List.map_congr_left ?_)
    intro param hMem
    exact (ParamItem.text_of_isNamed
      (hDeclares.named param hMem)).symm
  rw [ClassDecl.schemaLine, line, hFields, hDeclares.name,
    hDeclares.result]

/- The items of a line under the marker of its section, if it
   needs one. -/
def lineItems
    (item : ClassDecl)
    (combinator : Combinator) :
    List Item :=
  (if item.isFunction then
    [.marker "---functions---" Position.start]
  else
    []) ++ [.combinator (combinator.lined item.tag)]

theorem Declares.written_lineItems
    (hDeclares : combinator.Declares item) :
    Lexeme.Written
      ((combinator.lineItems item).flatMap Item.lexemes)
      ((if item.isFunction then "---functions---\n" else "") ++
        item.schemaLine).toList := by
  have hLine := written_line hDeclares.tag hDeclares.spelled
    hDeclares.named
  rw [hDeclares.schemaLine_eq, lineItems]
  cases item.isFunction with
  | false => simpa using hLine
  | true =>
      have hBelow : Lexeme.Written
          (Item.lexemes
            (.combinator (combinator.lined item.tag)))
          ('\n' :: (combinator.line item.tag).toList) :=
        hLine.spacing rfl
      have hMarker : Lexeme.Written
          (⟨.marker, "---functions---"⟩ :: Item.lexemes
            (.combinator (combinator.lined item.tag)))
          (Lexeme.chars ⟨.marker, "---functions---"⟩ ++
            '\n' :: (combinator.line item.tag).toList) := by
        apply hBelow.abut
        intro c hHead
        rfl
      simpa [Item.lexemes, Lexeme.chars] using hMarker

theorem Declares.isDeclarable_lineItems
    (hDeclares : combinator.Declares item) :
    ∀ entry ∈ combinator.lineItems item,
      entry.IsDeclarable := by
  have hLined : Item.IsDeclarable
      (.combinator (combinator.lined item.tag)) :=
    ⟨isSpelled_lined hDeclares.tag hDeclares.spelled,
      hDeclares.apart⟩
  rw [lineItems]
  cases item.isFunction with
  | false => simpa using hLined
  | true =>
      have hMarker : Item.IsDeclarable
          (.marker "---functions---" Position.start) :=
        .inr rfl
      simpa using ⟨hMarker, hLined⟩

theorem declaredRecords_lineItems
    (item : ClassDecl)
    (combinator : Combinator) :
    Item.declaredRecords .constructor
        (combinator.lineItems item) =
      [.declared item.kind
        (combinator.lined item.tag).tagNumber
        (combinator.lined item.tag)] := by
  rw [lineItems, ClassDecl.isFunction]
  cases item.kind with
  | constructor => rfl
  | function => rfl

end Combinator

/- The schema line of a class, under the marker of functions if
   it is one, is read to one record: the one of the class. -/
theorem parse_schemaLine_of_compile
    {text : String}
    {options : CompileOptions}
    {compiled : Compiled}
    (hCompile : compile text options = .ok compiled)
    {item : ClassDecl}
    (hItem : item ∈ compiled.decl.classes)
    (source : Option String) :
    ∃ schema record,
      Schema.parse
          ((if item.isFunction then "---functions---\n"
            else "") ++ item.schemaLine) source =
        .ok schema ∧
      schema.records = [record] ∧
      record.tag = item.tag ∧
      record.tagInferred = false ∧
      record.name = item.schemaName ∧
      record.kind = item.kind ∧
      record.resultType = item.resultType ∧
      record.params = item.fields.map fun field =>
        Param.mk field.name field.rawType := by
  rcases ClassDecl.exists_combinator
      (isChecked_of_compile hCompile) hItem with
    ⟨combinator, hDeclares⟩
  rcases Schema.parse_of_written
      hDeclares.isDeclarable_lineItems
      hDeclares.written_lineItems source with
    ⟨schema, hParse, hRecords⟩
  rw [Combinator.declaredRecords_lineItems, List.map_singleton,
    Combinator.unplaced_lined hDeclares.tag] at hRecords
  rcases List.map_eq_singleton_iff.mp hRecords with
    ⟨record, hRecord, hSame⟩
  have hSaid : ∀ {α : Type} (part : Record → α),
      part record.unplaced =
        part { (Record.declared item.kind item.tag
          combinator).explicit with typeParams := [] } := by
    intro α part
    exact congrArg part hSame
  refine ⟨schema, record, hParse, hRecord,
    hSaid Record.tag, hSaid Record.tagInferred,
    (hSaid Record.name).trans hDeclares.name.symm,
    hSaid Record.kind,
    (hSaid Record.resultType).trans hDeclares.result.symm,
    (hSaid Record.params).trans hDeclares.fields.symm⟩

/- A generic function, with a gate and with a wire type that
   ends like a comment. -/
theorem parse_schemaLine_function :
    ∃ compiled item schema record,
      compile ("a.b#2 = a.T; ---functions--- a.f#1 " ++
          "\x7bX:Type\x7d flags:# q:flags.3?int/*c*/ y:!X = " ++
          "Vector < a.T >;") (Sample.skipping []) =
        .ok compiled ∧
      item ∈ compiled.decl.classes ∧
      item.schemaLine =
        "a.f#00000001 flags:# q:flags.3?int/*c*/ y:!X = " ++
          "Vector<a.T>;" ∧
      Schema.parse ("---functions---\n" ++ item.schemaLine)
        none = .ok schema ∧
      schema.records = [record] ∧
      record.kind = .function ∧
      record.params =
        [⟨"flags", "#"⟩, ⟨"q", "flags.3?int/*c*/"⟩,
          ⟨"y", "!X"⟩] := by
  have hPasses : Outcome.passes
      (fun compiled => compiled.decl.classes.any fun item =>
        decide (item.kind = .function ∧
          item.schemaLine =
            "a.f#00000001 flags:# q:flags.3?int/*c*/ y:!X = " ++
              "Vector<a.T>;" ∧
          (item.fields.map fun field =>
            Param.mk field.name field.rawType) =
            [⟨"flags", "#"⟩, ⟨"q", "flags.3?int/*c*/"⟩,
              ⟨"y", "!X"⟩]))
      (compile ("a.b#2 = a.T; ---functions--- a.f#1 " ++
          "\x7bX:Type\x7d flags:# q:flags.3?int/*c*/ y:!X = " ++
          "Vector < a.T >;") (Sample.skipping [])) = true := by
    decide +kernel
  rcases Outcome.exists_of_passes hPasses with
    ⟨compiled, hCompile, hAny⟩
  rcases List.any_eq_true.mp hAny with ⟨item, hItem, hParts⟩
  rcases of_decide_eq_true hParts with
    ⟨hKind, hLine, hFields⟩
  rcases parse_schemaLine_of_compile hCompile hItem none with
    ⟨schema, record, hParse, hRecord, -, -, -, hSame, -,
      hParams⟩
  rw [ClassDecl.isFunction, hKind] at hParse
  exact ⟨compiled, item, schema, record, hCompile, hItem,
    hLine, hParse, hRecord, hSame.trans hKind,
    hParams.trans hFields⟩

end WireSchema
