import WireSchema.Proofs.Bitmask
import WireSchema.Proofs.Canonical
import WireSchema.Proofs.Closure
import WireSchema.Proofs.Course
import WireSchema.Proofs.Line

/-
  What the text of a module tells of its schema.

  The text is read from its start.  The header is known but for
  the constants, which are lines that are not empty before two
  that are.  Then each class starts with a line that tells its
  kind and one that shows its declaration.  A declaration tells
  all of its fields, so what else the text says of a class
  follows from it.  The classes end at the first line without a
  parenthesis in the place where a class has one.

  Main declarations:
    * `Printer.layer_of_headerLines`
    * `ClassDecl.matches_of_schemaLine`
    * `Printer.matches_of_concat`
    * `Printer.matches_of_render`
    * `toJson_of_module_eq`
-/

namespace WireSchema

------------------------------------------------------------
-- Ends of Modules
------------------------------------------------------------

namespace Printer

/- Only the end is trimmed. -/
theorem trimEnd_append
    {lines others : List String}
    (hSome : ∃ line ∈ others, line ≠ "") :
    trimEnd (lines ++ others) = lines ++ trimEnd others := by
  have hKept : (others.reverse.dropWhile
      String.isEmpty).isEmpty ≠ true := by
    rcases hSome with ⟨line, hLine, hText⟩
    have hMem := mem_trimEnd hLine hText
    rw [trimEnd, List.mem_reverse] at hMem
    intro hNone
    rw [List.isEmpty_iff.mp hNone] at hMem
    cases hMem
  rw [trimEnd, List.reverse_append, List.dropWhile_append,
    if_neg hKept, List.reverse_append, List.reverse_reverse,
    trimEnd]

/- A first line that is not empty stays. -/
theorem exists_trimEnd_cons
    {line : String}
    (hLine : line ≠ "")
    (lines : List String) :
    ∃ rest, trimEnd (line :: lines) = line :: rest := by
  have hMem := mem_trimEnd
    (List.mem_cons_self (a := line) (l := lines)) hLine
  have hSplit := List.takeWhile_append_dropWhile
    (p := String.isEmpty) (l := (line :: lines).reverse)
  have hReverse := congrArg List.reverse hSplit
  rw [List.reverse_append, List.reverse_reverse] at hReverse
  rw [trimEnd] at hMem ⊢
  cases hKept : (((line :: lines).reverse.dropWhile
      String.isEmpty).reverse) with
  | nil =>
      rw [hKept] at hMem
      cases hMem
  | cons first rest =>
      rw [hKept, List.cons_append, List.cons.injEq] at hReverse
      rw [hReverse.1]
      exact ⟨rest, rfl⟩

------------------------------------------------------------
-- Constants
------------------------------------------------------------

/- Lines that are not empty are told by two empty ones behind
   them. -/
theorem eq_of_blanks
    {lines others : List String}
    {rest last : List Char}
    (hLines : ∀ line ∈ lines, line ≠ "" ∧ Text.IsInline line)
    (hOthers : ∀ line ∈ others,
      line ≠ "" ∧ Text.IsInline line)
    (hSame : ended (lines ++ ["", ""]) ++ rest =
      ended (others ++ ["", ""]) ++ last) :
    lines = others ∧ rest = last := by
  have hBlank : Text.IsInline "" := by
    decide
  induction lines generalizing others with
  | nil =>
      cases others with
      | nil =>
          rw [List.append_cancel_left_eq] at hSame
          exact ⟨rfl, hSame⟩
      | cons other others =>
          rw [List.forall_mem_cons] at hOthers
          have hFirst := ended_cons_inj hBlank hOthers.1.2 hSame
          exact absurd hFirst.1.symm hOthers.1.1
  | cons line lines ih =>
      rw [List.forall_mem_cons] at hLines
      cases others with
      | nil =>
          have hFirst := ended_cons_inj hLines.1.2 hBlank hSame
          exact absurd hFirst.1 hLines.1.1
      | cons other others =>
          rw [List.forall_mem_cons] at hOthers
          rcases ended_cons_inj hLines.1.2 hOthers.1.2 hSame with
            ⟨hFirst, hRest⟩
          rcases ih hLines.2 hOthers.2 hRest with
            ⟨hLater, hEnd⟩
          rw [hFirst, hLater]
          exact ⟨rfl, hEnd⟩

theorem of_mem_constantLines
    {decl : ModuleDecl} :
    ∀ line ∈ constantLines decl,
      line ≠ "" ∧ Text.IsInline line := by
  intro line hLine
  unfold constantLines at hLine
  rcases List.mem_append.mp hLine with hLayer | hType
  · split at hLayer
    · rw [List.mem_singleton.mp hLayer,
        Text.isInline_append_iff]
      exact ⟨by simp, by decide, Text.isInline_intText _⟩
    · cases hLayer
  · split at hType
    · rw [List.mem_singleton.mp hType]
      decide
    · cases hType

/- The layer is the one of its constant. -/
theorem layer_eq_some_iff
    {decl : ModuleDecl}
    {layer : Int} :
    decl.layer = some layer ↔
      "LAYER = " ++ Text.intText layer ∈
        constantLines decl := by
  have hType : "LAYER = " ++ Text.intText layer ≠
      typeVariable ++ " = typing.TypeVar(\"" ++ typeVariable ++
        "\")" := by
    intro hSame
    have hHead := congrArg (List.head? ∘ String.toList) hSame
    simp [typeVariable] at hHead
  constructor
  · intro hLayer
    rw [constantLines, hLayer]
    exact List.mem_cons_self
  · intro hLine
    unfold constantLines at hLine
    rcases List.mem_append.mp hLine with hOwn | hOther
    · split at hOwn
      · rename_i own hLayer
        have hSame := congrArg String.toList
          (List.mem_singleton.mp hOwn)
        rw [String.toList_append, String.toList_append,
          List.append_cancel_left_eq] at hSame
        rw [hLayer,
          Text.intText_inj (String.toList_injective hSame)]
      · cases hOwn
    · split at hOther
      · exact absurd (List.mem_singleton.mp hOther) hType
      · cases hOther

/- The lines of a header before its constants. -/
def preamble
    (source : Option String)
    (basesModule : String) :
    List String :=
  [titleLine source, "",
    "from __future__ import annotations", "",
    "import typing", "",
    "from " ++ basesModule ++ " import TLObject, TLRequest"]

/- The constants of a header with the lines around them. -/
def spacedConstants
    (constants : List String) :
    List String :=
  (if constants.isEmpty then [] else "" :: constants) ++
    ["", ""]

theorem headerLines_eq
    (decl : ModuleDecl)
    (basesModule : String) :
    headerLines decl basesModule =
      preamble decl.source basesModule ++
        spacedConstants (constantLines decl) := by
  rw [headerLines, preamble, spacedConstants,
    List.append_assoc]

/- Constants are told by the lines around them: without any,
   there are just the two empty lines. -/
theorem eq_of_spacedConstants
    {constants others : List String}
    {rest last : List Char}
    (hConstants : ∀ line ∈ constants,
      line ≠ "" ∧ Text.IsInline line)
    (hOthers : ∀ line ∈ others,
      line ≠ "" ∧ Text.IsInline line)
    (hSame : ended (spacedConstants constants) ++ rest =
      ended (spacedConstants others) ++ last) :
    constants = others ∧ rest = last := by
  have hBlank : Text.IsInline "" := by
    decide
  unfold spacedConstants at hSame
  cases constants with
  | nil =>
      cases others with
      | nil =>
          rw [List.append_cancel_left_eq] at hSame
          exact ⟨rfl, hSame⟩
      | cons other others =>
          rw [List.forall_mem_cons] at hOthers
          have hFirst := ended_cons_inj hBlank hBlank hSame
          have hSecond := ended_cons_inj hBlank hOthers.1.2
            hFirst.2
          exact absurd hSecond.1.symm hOthers.1.1
  | cons constant constants =>
      cases others with
      | nil =>
          rw [List.forall_mem_cons] at hConstants
          have hFirst := ended_cons_inj hBlank hBlank hSame
          have hSecond := ended_cons_inj hConstants.1.2 hBlank
            hFirst.2
          exact absurd hSecond.1 hConstants.1.1
      | cons other others =>
          have hFirst := ended_cons_inj hBlank hBlank hSame
          exact eq_of_blanks hConstants hOthers hFirst.2

/- A header tells its layer. -/
theorem layer_of_headerLines
    {decl other : ModuleDecl}
    {basesModule : String}
    {rest last : List Char}
    (hSource : decl.source = other.source)
    (hSame : ended (headerLines decl basesModule) ++ rest =
      ended (headerLines other basesModule) ++ last) :
    decl.layer = other.layer ∧ rest = last := by
  rw [headerLines_eq, headerLines_eq, hSource, ended_append,
    ended_append, List.append_assoc, List.append_assoc,
    List.append_cancel_left_eq] at hSame
  rcases eq_of_spacedConstants of_mem_constantLines
    of_mem_constantLines hSame with ⟨hConstants, hRest⟩
  refine ⟨Option.ext fun layer => ?_, hRest⟩
  rw [layer_eq_some_iff, layer_eq_some_iff, hConstants]

end Printer

------------------------------------------------------------
-- Declarations
------------------------------------------------------------

/- An entry is told by its name and type. -/
theorem Field.eq_of_isOf
    {param : Param}
    {field other : Field}
    (hField : IsOf param field)
    (hOther : IsOf param other)
    (hGate : field.HasGate)
    (hOtherGate : other.HasGate) :
    field = other := by
  have hRaw : field.rawType = other.rawType :=
    hField.rawType.trans hOther.rawType.symm
  have hType : field.type = other.type := by
    cases hMask : param.isBitmask with
    | true => rw [hField.mask hMask, hOther.mask hMask]
    | false =>
        have hSame := (hField.value hMask).symm.trans
          (hOther.value hMask)
        injection hSame
  have hGates : field.gate = other.gate := by
    refine Option.ext fun gate => ?_
    rw [hGate.spelled, hOtherGate.spelled, hRaw]
  cases field
  cases other
  simp only [mk.injEq]
  exact ⟨hField.name.trans hOther.name.symm, hType, hRaw,
    hGates, hField.isBitmask.trans hOther.isBitmask.symm⟩

/- A field that comes from an entry of a param. -/
def FieldDecl.IsTold
    (field : FieldDecl) :
    Prop :=
  ∃ entry : Field, field = ofField entry ∧
    Field.IsOf ⟨field.name, field.rawType⟩ entry ∧
    entry.HasGate

theorem FieldDecl.eq_of_isTold
    {field other : FieldDecl}
    (hField : field.IsTold)
    (hOther : other.IsTold)
    (hParam : Param.mk field.name field.rawType =
      Param.mk other.name other.rawType) :
    field = other := by
  rcases hField with ⟨entry, hEntry, hOf, hGate⟩
  rcases hOther with ⟨last, hLast, hLastOf, hLastGate⟩
  rw [← hParam] at hLastOf
  rw [hEntry, hLast,
    Field.eq_of_isOf hOf hLastOf hGate hLastGate]

theorem FieldDecl.eq_of_params
    {fields others : List FieldDecl}
    (hFields : ∀ field ∈ fields, field.IsTold)
    (hOthers : ∀ field ∈ others, field.IsTold)
    (hParams : (fields.map fun field =>
        Param.mk field.name field.rawType) =
      others.map fun field =>
        Param.mk field.name field.rawType) :
    fields = others := by
  induction fields generalizing others with
  | nil => exact (List.map_eq_nil_iff.mp hParams.symm).symm
  | cons field fields ih =>
      rcases List.map_eq_cons_iff.mp hParams.symm with
        ⟨other, later, hCons, hParam, hLater⟩
      rw [hCons] at hOthers ⊢
      rw [List.forall_mem_cons] at hFields hOthers
      rw [eq_of_isTold hFields.1 hOthers.1 hParam.symm,
        ih hFields.2 hOthers.2 hLater.symm]

/- A class that comes from a declaration. -/
structure ClassDecl.IsTold
    (item : ClassDecl) :
    Prop where
  declared : ∃ combinator : Combinator,
    combinator.Declares item
  fields : ∀ field ∈ item.fields, field.IsTold

theorem Compiled.IsChecked.isTold
    {text : String}
    {options : CompileOptions}
    {compiled : Compiled}
    (hChecked : compiled.IsChecked text options)
    {item : ClassDecl}
    (hItem : item ∈ compiled.decl.classes) :
    item.IsTold := by
  refine ⟨ClassDecl.exists_combinator hChecked hItem, ?_⟩
  rw [hChecked.decl] at hItem
  rcases List.mem_map.mp hItem with ⟨shape, hShape, rfl⟩
  rcases Paired.exists_left
      (Outcome.mapM_eq_ok_iff.mp hChecked.shapes) hShape with
    ⟨record, -, hRecord⟩
  intro field hField
  rcases List.mem_map.mp hField with ⟨entry, hEntry, hSame⟩
  rcases Paired.exists_left
      (Shape.isOf_of_ofRecord hRecord).entries hEntry with
    ⟨param, -, hOf⟩
  rcases Shape.ofRecord_eq_ok_iff.mp hRecord with
    ⟨entries, returns, hEntries, -, rfl⟩
  refine ⟨entry, hSame.symm, ?_,
    Record.hasGate_of_entriesFrom hEntries entry hEntry⟩
  rw [← hSame]
  have hParam : Param.mk entry.name entry.rawType = param := by
    rw [hOf.name, hOf.rawType]
  exact hParam ▸ hOf

/- What the schema line of a class is read to. -/
theorem Combinator.Declares.parse_schemaLine
    {item : ClassDecl}
    {combinator : Combinator}
    (hDeclares : combinator.Declares item) :
    ∃ schema, Schema.parse item.schemaLine none =
        .ok schema ∧
      schema.records.map Record.unplaced =
        [{ (Record.declared .constructor item.tag
            combinator).explicit with typeParams := [] }] := by
  have hItems : ∀ entry ∈
      [Item.combinator (combinator.lined item.tag)],
      entry.IsDeclarable := by
    rw [List.forall_mem_singleton]
    exact ⟨isSpelled_lined hDeclares.tag hDeclares.spelled,
      hDeclares.apart⟩
  have hWritten := written_line hDeclares.tag hDeclares.spelled
    hDeclares.named
  rw [← hDeclares.schemaLine_eq, ← List.append_nil
    (Item.lexemes _)] at hWritten
  rcases Schema.parse_of_written hItems hWritten none with
    ⟨schema, hParse, hRecords⟩
  refine ⟨schema, hParse, hRecords.trans ?_⟩
  rw [← unplaced_lined hDeclares.tag]
  rfl

namespace ClassDecl

/- Classes with the same name, tag, result and fields. -/
structure Matches
    (item other : ClassDecl) :
    Prop where
  name : item.schemaName = other.schemaName
  tag : item.tag = other.tag
  result : item.resultType = other.resultType
  fields : item.fields = other.fields

/- A schema line tells all of these. -/
theorem matches_of_schemaLine
    {item other : ClassDecl}
    (hItem : item.IsTold)
    (hOther : other.IsTold)
    (hLine : item.schemaLine = other.schemaLine) :
    item.Matches other := by
  rcases hItem.declared with ⟨combinator, hDeclares⟩
  rcases hOther.declared with ⟨last, hLast⟩
  rcases hDeclares.parse_schemaLine with
    ⟨schema, hParse, hRecords⟩
  rcases hLast.parse_schemaLine with
    ⟨again, hAgain, hAgainRecords⟩
  rw [← hLine, hParse] at hAgain
  injection hAgain with hSchema
  rw [← hSchema, hRecords] at hAgainRecords
  have hSame := (List.cons.inj hAgainRecords).1
  have hParams : (item.fields.map fun field =>
      Param.mk field.name field.rawType) =
      other.fields.map fun field =>
        Param.mk field.name field.rawType := by
    rw [hDeclares.fields, hLast.fields]
    exact congrArg Record.params hSame
  refine ⟨?_, congrArg Record.tag hSame, ?_, ?_⟩
  · rw [hDeclares.name, hLast.name]
    exact congrArg Record.name hSame
  · rw [hDeclares.result, hLast.result]
    exact congrArg Record.resultType hSame
  · exact FieldDecl.eq_of_params hItem.fields hOther.fields
      hParams

end ClassDecl

------------------------------------------------------------
-- Classes
------------------------------------------------------------

namespace Printer

/- The first line of a class. -/
def headLine
    (item : ClassDecl)
    (base : String) :
    String :=
  "class " ++ Naming.className item.schemaName ++ "(" ++
    base ++ "):"

/- The lines of a class below its schema line. -/
def bodyLines
    (item : ClassDecl) :
    Lines := do
  let tag ← tagText item.tag
  let params ← item.fields.mapM paramEntry
  let constructor ← constructorLines item.params
  return ["",
      line 1 ("_name_ = " ++ literal item.schemaName),
      line 1 ("_tag_ = " ++ tag),
      line 1 ("_result_ = " ++ literal item.resultType)] ++
    tupleLines "_params_" params ++
    tupleLines "_conditions_"
      (item.conditions.map conditionEntry) ++
    constructor ++ valuesLines item.fields ++ ["", ""]

theorem exists_of_classLines
    {item : ClassDecl}
    {lines : List String}
    (hLines : classLines item = .ok lines) :
    ∃ base body,
      baseText item = .ok base ∧
      bodyLines item = .ok body ∧
      lines = headLine item base ::
        line 1 (docstring item.schemaLine) :: body := by
  unfold classLines at hLines
  rcases Outcome.bind_eq_ok_iff.mp hLines with
    ⟨base, hBase, hLines⟩
  rcases Outcome.bind_eq_ok_iff.mp hLines with
    ⟨tag, hTag, hLines⟩
  rcases Outcome.bind_eq_ok_iff.mp hLines with
    ⟨params, hParams, hLines⟩
  rcases Outcome.bind_eq_ok_iff.mp hLines with
    ⟨constructor, hConstructor, hEq⟩
  cases hEq
  refine ⟨base, _, hBase, ?_, rfl⟩
  unfold bodyLines
  rw [hTag, hParams, hConstructor]
  rfl

/- The lines below the schema line follow from it. -/
theorem bodyLines_congr
    {item other : ClassDecl}
    (hMatches : item.Matches other) :
    bodyLines item = bodyLines other := by
  rw [bodyLines, bodyLines, ClassDecl.params, ClassDecl.params,
    ClassDecl.conditions, ClassDecl.conditions, hMatches.name,
    hMatches.tag, hMatches.result, hMatches.fields]

theorem baseText_cases
    {item : ClassDecl}
    {base : String}
    (hBase : baseText item = .ok base) :
    (item.kind = .constructor ∧ base = "TLObject") ∨
      (item.kind = .function ∧ ∃ argument,
        Text.IsInline argument ∧
        base = "TLRequest[" ++ argument) := by
  unfold baseText ClassDecl.isFunction at hBase
  cases hKind : item.kind with
  | constructor =>
      rw [hKind] at hBase
      cases hBase
      exact .inl ⟨rfl, rfl⟩
  | function =>
      rw [hKind] at hBase
      refine .inr ⟨rfl, ?_⟩
      rw [if_neg (by decide)] at hBase
      split at hBase
      · cases hBase
        exact ⟨typeVariable ++ "]", by decide, by decide⟩
      · split at hBase
        · cases hBase
          exact ⟨"typing.Any]", by decide, by decide⟩
        · rcases Outcome.map_eq_ok_iff.mp hBase with
            ⟨text, -, hSame⟩
          refine ⟨literal text ++ "]", ?_, ?_⟩
          · rw [Text.isInline_append_iff]
            exact ⟨isInline_literal text, by decide⟩
          · rw [← hSame, String.append_assoc]

theorem isInline_baseText
    {item : ClassDecl}
    {base : String}
    (hBase : baseText item = .ok base) :
    Text.IsInline base := by
  rcases baseText_cases hBase with
    ⟨-, hObject⟩ | ⟨-, argument, hArgument, hRequest⟩
  · rw [hObject]
    decide
  · rw [hRequest, Text.isInline_append_iff]
    exact ⟨by decide, hArgument⟩

/- The base of a class tells its kind. -/
theorem kind_of_baseText
    {item other : ClassDecl}
    {base : String}
    (hItem : baseText item = .ok base)
    (hOther : baseText other = .ok base) :
    item.kind = other.kind := by
  have hApart : ∀ argument : String,
      "TLObject" ≠ "TLRequest[" ++ argument := by
    intro argument hSame
    have hChars := congrArg String.toList hSame
    simp at hChars
  rcases baseText_cases hItem with
    ⟨hKind, hBase⟩ | ⟨hKind, argument, -, hBase⟩
  · rcases baseText_cases hOther with
      ⟨hLast, -⟩ | ⟨-, last, -, hLast⟩
    · rw [hKind, hLast]
    · rw [hBase] at hLast
      exact absurd hLast (hApart last)
  · rcases baseText_cases hOther with
      ⟨-, hLast⟩ | ⟨hLast, -⟩
    · rw [hLast] at hBase
      exact absurd hBase (hApart argument)
    · rw [hKind, hLast]

/- The line with the documentation of a class. -/
theorem toList_docLine
    (text : String) :
    (line 1 (docstring text)).toList =
      List.replicate 4 ' ' ++ (docstring text).toList := by
  have hSome : (docstring text).isEmpty ≠ true := by
    intro hEmpty
    have hChars := congrArg String.toList
      (String.isEmpty_iff.mp hEmpty)
    rw [toList_docstring] at hChars
    cases hChars
  rw [line, if_neg hSome, String.toList_append,
    String.toList_ofList]

theorem isPlain_className
    {item : ClassDecl}
    (hItem : item.IsTold) :
    Text.IsPlain
      ("class " ++ Naming.className item.schemaName) := by
  rcases hItem.declared with ⟨combinator, hDeclares⟩
  rw [Text.isPlain_append_iff, hDeclares.name]
  exact ⟨List.all_eq_true.mp rfl, Naming.isPlain_className
    (FullName.isPlain_text hDeclares.spelled.opening.name)⟩

/- The first line of a class is no plain line: it has a
   parenthesis before it ends. -/
theorem ended_headLine_ne
    {item : ClassDecl}
    {base opening : String}
    {lines : List String}
    {rest last : List Char}
    (hItem : item.IsTold)
    (hOpening : Text.IsPlain opening) :
    ended (headLine item base :: lines) ++ rest ≠
      opening.toList ++ '\n' :: last := by
  have hFree : ∀ text : String, Text.IsPlain text →
      ∀ c ∈ text.toList, ¬ (c = '\n' ∨ c = '(') := by
    intro text hText c hC hStop
    have hPlain := hText c hC
    rcases hStop with hStop | hStop
    · rw [hStop] at hPlain
      cases hPlain
    · rw [hStop] at hPlain
      cases hPlain
  intro hSame
  have hHead : (headLine item base).toList =
      ("class " ++ Naming.className item.schemaName).toList ++
        '(' :: (base ++ "):").toList := by
    simp [headLine]
  rw [ended_cons, hHead, List.append_assoc, List.append_assoc,
    List.cons_append] at hSame
  rcases Text.append_cons_inj (hFree _ (isPlain_className hItem))
    (hFree _ hOpening) (.inr rfl) (.inl rfl) hSame with
    ⟨-, hChar, -⟩
  cases hChar

theorem isInline_headLine
    {item : ClassDecl}
    {base : String}
    (hItem : item.IsTold)
    (hBase : baseText item = .ok base) :
    Text.IsInline (headLine item base) := by
  simp only [headLine, Text.isInline_append_iff]
  rw [← Text.isInline_append_iff]
  exact ⟨⟨⟨(isPlain_className hItem).isInline, by decide⟩,
    isInline_baseText hBase⟩, by decide⟩

theorem isInline_docLine
    {item : ClassDecl}
    (hItem : item.IsTold) :
    Text.IsInline (line 1 (docstring item.schemaLine)) := by
  rcases hItem.declared with ⟨combinator, hDeclares⟩
  rw [Text.IsInline, toList_docLine, List.mem_append, not_or]
  exact ⟨by decide,
    isInline_docstring hDeclares.isInline_schemaLine⟩

/- Two classes that start at the same place of a text. -/
theorem matches_of_classLines
    {item other : ClassDecl}
    {lines others : List String}
    {rest last : List Char}
    (hItem : item.IsTold)
    (hOther : other.IsTold)
    (hLines : classLines item = .ok lines)
    (hOthers : classLines other = .ok others)
    (hSame : ended lines ++ rest = ended others ++ last) :
    (item.Matches other ∧ item.kind = other.kind) ∧
      rest = last := by
  rcases exists_of_classLines hLines with
    ⟨base, body, hBase, hBody, rfl⟩
  rcases exists_of_classLines hOthers with
    ⟨otherBase, otherBody, hOtherBase, hOtherBody, rfl⟩
  rcases ended_cons_inj (isInline_headLine hItem hBase)
    (isInline_headLine hOther hOtherBase) hSame with
    ⟨hHead, hSame⟩
  rcases ended_cons_inj (isInline_docLine hItem)
    (isInline_docLine hOther) hSame with ⟨hDoc, hSame⟩
  have hLine : item.schemaLine = other.schemaLine := by
    have hChars := congrArg String.toList hDoc
    rw [toList_docLine, toList_docLine,
      List.append_cancel_left_eq] at hChars
    exact docstring_inj (String.toList_injective hChars)
  have hMatches :=
    ClassDecl.matches_of_schemaLine hItem hOther hLine
  have hSameBase : base = otherBase := by
    have hChars := congrArg String.toList hHead
    simp only [headLine, hMatches.name, String.toList_append,
      List.append_cancel_left_eq, List.append_cancel_right_eq]
      at hChars
    exact String.toList_injective hChars
  rw [bodyLines_congr hMatches, hOtherBody] at hBody
  injection hBody with hSameBody
  rw [hSameBody, List.append_cancel_left_eq] at hSame
  rw [← hSameBase] at hOtherBase
  exact ⟨⟨hMatches, kind_of_baseText hBase hOtherBase⟩, hSame⟩

/- Classes are told by their text, as long as it goes on with a
   plain line. -/
theorem matches_of_concat
    {items others : List ClassDecl}
    {lines last : List String}
    {opening ending : String}
    {rest behind : List Char}
    (hItems : ∀ item ∈ items, item.IsTold)
    (hOthers : ∀ item ∈ others, item.IsTold)
    (hLines : concat classLines items = .ok lines)
    (hLast : concat classLines others = .ok last)
    (hOpening : Text.IsPlain opening)
    (hEnding : Text.IsPlain ending)
    (hSame : ended lines ++ (opening.toList ++ '\n' :: rest) =
      ended last ++ (ending.toList ++ '\n' :: behind)) :
    List.Forall₂ (fun item other => ClassDecl.Matches item other ∧
      item.kind = other.kind) items others := by
  induction items generalizing others lines last with
  | nil =>
      cases hLines
      cases others with
      | nil => exact .nil
      | cons other others =>
          rw [List.forall_mem_cons] at hOthers
          rcases exists_of_concat_cons hLast with
            ⟨own, later, hOwn, -, rfl⟩
          rcases exists_of_classLines hOwn with
            ⟨base, body, -, -, rfl⟩
          exact absurd hSame.symm
            (ended_headLine_ne hOthers.1 hOpening)
  | cons item items ih =>
      rw [List.forall_mem_cons] at hItems
      rcases exists_of_concat_cons hLines with
        ⟨own, later, hOwn, hLater, rfl⟩
      cases others with
      | nil =>
          cases hLast
          rcases exists_of_classLines hOwn with
            ⟨base, body, -, -, rfl⟩
          exact absurd hSame
            (ended_headLine_ne hItems.1 hEnding)
      | cons other others =>
          rw [List.forall_mem_cons] at hOthers
          rcases exists_of_concat_cons hLast with
            ⟨first, next, hFirst, hNext, rfl⟩
          rw [ended_append, ended_append, List.append_assoc,
            List.append_assoc] at hSame
          rcases matches_of_classLines hItems.1 hOthers.1 hOwn
            hFirst hSame with ⟨hMatches, hSame⟩
          exact .cons hMatches
            (ih hItems.2 hOthers.2 hLater hNext hSame)

------------------------------------------------------------
-- After the Classes
------------------------------------------------------------

/- Lines that start with a plain line that is not empty. -/
def Opens
    (lines : List String) :
    Prop :=
  ∃ opening rest, lines = opening :: rest ∧ opening ≠ "" ∧
    Text.IsPlain opening

theorem Opens.append
    {lines : List String}
    (hLines : Opens lines)
    (others : List String) :
    Opens (lines ++ others) := by
  rcases hLines with ⟨opening, rest, rfl, hOpening⟩
  exact ⟨opening, rest ++ others, rfl, hOpening⟩

theorem opens_aliasLines
    {name : String}
    {members : List String}
    (hName : Text.IsPlain name)
    (hSome : members ≠ [])
    (hMembers : ∀ member ∈ members, Text.IsPlain member) :
    Opens (aliasLines name members) := by
  cases members with
  | nil => exact absurd rfl hSome
  | cons member members =>
      cases members with
      | nil =>
          refine ⟨_, [], rfl, by simp, ?_⟩
          rw [Text.isPlain_append_iff, Text.isPlain_append_iff]
          exact ⟨⟨hName, List.all_eq_true.mp rfl⟩,
            hMembers member List.mem_cons_self⟩
      | cons other members =>
          refine ⟨_, _, rfl, by simp, ?_⟩
          rw [Text.isPlain_append_iff]
          exact ⟨hName, List.all_eq_true.mp rfl⟩

/- A module whose unions have members, with plain names
   throughout. -/
structure HasPlainNames
    (decl : ModuleDecl) :
    Prop where
  unions : ∀ item ∈ decl.unions,
    Text.IsPlain item.schemaName
  some : ∀ item ∈ decl.unions, item.members ≠ []
  members : ∀ item ∈ decl.unions, ∀ name ∈ item.members,
    Text.IsPlain name
  namespaces : ∀ item ∈ decl.namespaces,
    Text.IsPlain item.name

theorem opens_unionLines
    {decl : ModuleDecl}
    (hPlain : HasPlainNames decl)
    (hSome : decl.unions ≠ []) :
    Opens (unionLines decl.unions) := by
  rcases List.exists_cons_of_ne_nil hSome with
    ⟨item, items, hUnions⟩
  have hItem : item ∈ decl.unions := by
    rw [hUnions]
    exact List.mem_cons_self
  rw [hUnions, unionLines, List.flatMap_cons]
  refine ((opens_aliasLines ?_ ?_ ?_).append _).append _
  · exact Naming.isPlain_unionName (hPlain.unions item hItem)
  · intro hNone
    exact hPlain.some item hItem (List.map_eq_nil_iff.mp hNone)
  · rw [List.forall_mem_map]
    intro name hName
    exact Naming.isPlain_className
      (hPlain.members item hItem name hName)

theorem opens_namespaces
    {decl : ModuleDecl}
    {lines : List String}
    (hPlain : HasPlainNames decl)
    (hSome : decl.namespaces ≠ [])
    (hLines : concat namespaceLines decl.namespaces =
      .ok lines) :
    Opens lines := by
  rcases List.exists_cons_of_ne_nil hSome with
    ⟨item, items, hSpaces⟩
  have hName := hPlain.namespaces
  rw [hSpaces] at hLines hName
  rcases exists_of_concat_cons hLines with
    ⟨first, rest, hFirst, -, rfl⟩
  rcases Outcome.bind_eq_ok_iff.mp hFirst with
    ⟨members, -, hEq⟩
  cases hEq
  refine ⟨_, _, rfl, by simp, ?_⟩
  rw [Text.isPlain_append_iff, Text.isPlain_append_iff]
  exact ⟨⟨List.all_eq_true.mp rfl, Naming.isPlain_escape
    (hName item List.mem_cons_self)⟩, List.all_eq_true.mp rfl⟩

theorem opens_registryLines
    {registry : RegistryDecl}
    {lines : List String}
    (hLines : registryLines registry = .ok lines) :
    Opens lines := by
  rcases Outcome.bind_eq_ok_iff.mp hLines with
    ⟨tags, -, hEq⟩
  cases hEq
  simp only [List.append_assoc]
  apply Opens.append
  unfold mappingLines
  split
  · exact ⟨_, _, rfl, by simp, List.all_eq_true.mp rfl⟩
  · exact ⟨_, _, rfl, by simp, List.all_eq_true.mp rfl⟩

/- The text of a module in three parts. -/
theorem toList_of_render
    {decl : ModuleDecl}
    {basesModule module : String}
    (hPlain : HasPlainNames decl)
    (hModule : decl.render basesModule = .ok module) :
    ∃ classes opening rest,
      concat classLines decl.classes = .ok classes ∧
      Text.IsPlain opening ∧
      module.toList = ended (headerLines decl basesModule) ++
        (ended classes ++ (opening.toList ++ '\n' :: rest)) := by
  rcases Outcome.map_eq_ok_iff.mp hModule with
    ⟨lines, hLines, hText⟩
  rcases ModuleDecl.exists_of_lines hLines with
    ⟨classes, namespaces, tables, -, hClasses, hNamespaces,
      hTables, hParts⟩
  have hTail : Opens (unionLines decl.unions ++ (namespaces ++
      (tables ++ everythingLines decl.registry))) := by
    by_cases hUnions : decl.unions = []
    · rw [hUnions]
      by_cases hSpaces : decl.namespaces = []
      · rw [hSpaces] at hNamespaces
        cases hNamespaces
        exact (opens_registryLines hTables).append _
      · exact (opens_namespaces hPlain hSpaces
          hNamespaces).append _
    · exact (opens_unionLines hPlain hUnions).append _
  rcases hTail with ⟨opening, tail, hTail, hSome, hOpening⟩
  rcases exists_trimEnd_cons hSome tail with ⟨rest, hRest⟩
  have hTrim : lines = headerLines decl basesModule ++
      (classes ++ opening :: rest) := by
    rw [hParts, ← hRest]
    simp only [List.append_assoc, hTail]
    rw [trimEnd_append, trimEnd_append]
    · exact ⟨opening, List.mem_cons_self, hSome⟩
    · exact ⟨opening, List.mem_append_right _
        List.mem_cons_self, hSome⟩
  refine ⟨classes, opening, ended rest, hClasses, hOpening, ?_⟩
  rw [← hText, hTrim, toList_joined (by simp), ended_append,
    ended_append, ended_cons]

/- The text of a module tells its layer and its classes. -/
theorem matches_of_render
    {decl other : ModuleDecl}
    {basesModule module : String}
    (hPlain : HasPlainNames decl)
    (hOther : HasPlainNames other)
    (hClasses : ∀ item ∈ decl.classes, item.IsTold)
    (hOthers : ∀ item ∈ other.classes, item.IsTold)
    (hSource : decl.source = other.source)
    (hModule : decl.render basesModule = .ok module)
    (hSame : other.render basesModule = .ok module) :
    decl.layer = other.layer ∧
      List.Forall₂ (fun item last =>
        ClassDecl.Matches item last ∧ item.kind = last.kind)
        decl.classes other.classes := by
  rcases toList_of_render hPlain hModule with
    ⟨lines, opening, rest, hLines, hOpening, hText⟩
  rcases toList_of_render hOther hSame with
    ⟨last, ending, behind, hLast, hEnding, hLastText⟩
  rcases layer_of_headerLines hSource
    (hText.symm.trans hLastText) with ⟨hLayer, hRest⟩
  exact ⟨hLayer, matches_of_concat hClasses hOthers hLines
    hLast hOpening hEnding hRest⟩

end Printer

namespace Compiled.IsChecked

variable {text : String} {options : CompileOptions}
variable {compiled : Compiled}

theorem isPlain_class
    (hChecked : compiled.IsChecked text options)
    {item : ClassDecl}
    (hItem : item ∈ compiled.decl.classes) :
    Text.IsPlain item.schemaName := by
  rcases hChecked.exists_fullName hItem with
    ⟨name, hName, hSame⟩
  rw [hSame]
  exact FullName.isPlain_text hName

theorem isPlain_union
    (hChecked : compiled.IsChecked text options)
    {item : UnionDecl}
    (hItem : item ∈ compiled.decl.unions) :
    Text.IsPlain item.schemaName := by
  rcases hChecked.exists_result hItem with
    ⟨result, hResult, hSame⟩
  rw [hSame]
  exact ResultItem.isPlain_text hResult

theorem isPlain_namespace
    (hChecked : compiled.IsChecked text options)
    {item : NamespaceDecl}
    (hItem : item ∈ compiled.decl.namespaces) :
    Text.IsPlain item.name := by
  have hNames : compiled.decl.namespaces.map
      NamespaceDecl.name =
      ((compiled.decl.classes.map ClassDecl.schemaName ++
        compiled.decl.unions.map
          UnionDecl.schemaName).filterMap
            Qualified.space?).eraseDups := by
    rw [hChecked.decl]
    exact NamespaceDecl.names_ofMembers _ _
  have hName := List.mem_map_of_mem
    (f := NamespaceDecl.name) hItem
  rw [hNames, List.mem_eraseDups, List.mem_filterMap] at hName
  rcases hName with ⟨name, hName, hSpace⟩
  refine Naming.isPlain_space ?_ hSpace
  rcases List.mem_append.mp hName with hIn | hIn
  · rcases List.mem_map.mp hIn with ⟨member, hMember, hSame⟩
    rw [← hSame]
    exact hChecked.isPlain_class hMember
  · rcases List.mem_map.mp hIn with ⟨member, hMember, hSame⟩
    rw [← hSame]
    exact hChecked.isPlain_union hMember

theorem hasPlainNames
    (hChecked : compiled.IsChecked text options) :
    Printer.HasPlainNames compiled.decl where
  unions := fun _ => hChecked.isPlain_union
  some := fun _ => hChecked.members_ne_nil
  members := by
    intro item hItem name hName
    have hClosed : compiled.decl.IsClosed := by
      rw [hChecked.decl]
      exact ModuleDecl.isClosed_ofChecked hChecked.isFrom
        hChecked.closed
    rcases hClosed.unions item hItem name hName with
      ⟨member, hMember, hSame, -⟩
    rw [← hSame]
    exact hChecked.isPlain_class hMember
  namespaces := fun _ => hChecked.isPlain_namespace

end Compiled.IsChecked

------------------------------------------------------------
-- Definitions as Data
------------------------------------------------------------

/- Shapes whose classes agree have the same definition. -/
theorem Shape.description_congr
    {groups others : GroupTable}
    {shape other : Shape}
    (hMatches : (ClassDecl.ofShape groups shape).Matches
      (ClassDecl.ofShape others other)) :
    shape.description = other.description := by
  have hTag : shape.tag = other.tag := hMatches.tag
  have hResult : shape.resultType = other.resultType :=
    hMatches.result
  have hFields := congrArg
    (List.map fun field : FieldDecl =>
      Json.array [.string field.name, .string field.rawType])
    hMatches.fields
  simp only [ClassDecl.ofShape, List.map_map] at hFields
  rw [description, description, hTag, hResult]
  exact congrArg
    (fun params => Json.array [_, .array params, _]) hFields

theorem Registry.data_congr
    {groups others : GroupTable}
    {shapes last : List Shape}
    (hShapes : List.Forall₂
      (fun shape other =>
        (ClassDecl.ofShape groups shape).Matches
            (ClassDecl.ofShape others other) ∧
          Shape.kind shape = Shape.kind other)
      shapes last)
    (layer : Option Int) :
    Registry.data shapes layer =
      Registry.data last layer := by
  have hDefinitions : definitionMembers shapes =
      definitionMembers last := by
    refine Paired.map_eq_map hShapes ?_
    intro shape other hPair
    rw [Shape.description_congr hPair.1]
    exact congrArg (·, _) hPair.1.name
  have hKinds := Paired.filter
    (p := fun shape => !shape.isFunction)
    (q := fun shape => !shape.isFunction) hShapes (by
      intro shape other hPair
      rw [Shape.isFunction, Shape.isFunction, hPair.2])
  have hIdentifiers : identifierMembers shapes =
      identifierMembers last := by
    refine Paired.map_eq_map hKinds ?_
    intro shape other hPair
    have hTag : shape.tag = other.tag := hPair.1.tag
    have hName : shape.name = other.name := hPair.1.name
    rw [hTag, hName]
  rw [data, data, hDefinitions, hIdentifiers]

/- Modules with the same text come from the same definitions:
   whatever else the schemas hold or skip, they have the same
   layer and the same data. -/
theorem toJson_of_module_eq
    {text other : String}
    {options others : CompileOptions}
    {first second : Compiled}
    (hFirst : compile text options = .ok first)
    (hSecond : compile other others = .ok second)
    (hSource : options.source = others.source)
    (hBases : options.basesModule = others.basesModule)
    (hModule : first.module = second.module) :
    first.layer = second.layer ∧
      ∃ json, first.toJson = .ok json ∧
        second.toJson = .ok json := by
  have hChecked := isChecked_of_compile hFirst
  have hOther := isChecked_of_compile hSecond
  have hCarries := Compiled.carries_of_compile hFirst
  have hLast := Compiled.carries_of_compile hSecond
  have hSources : first.decl.source = second.decl.source := by
    rw [hChecked.decl, hOther.decl]
    exact hSource
  have hRender := hCarries.module
  rw [hBases, hModule] at hRender
  rcases Printer.matches_of_render hChecked.hasPlainNames
      hOther.hasPlainNames (fun item => hChecked.isTold)
      (fun item => hOther.isTold) hSources hRender
      hLast.module with ⟨hLayers, hClasses⟩
  have hLayer : first.layer = second.layer := by
    rw [hCarries.layer, hLast.layer, ← hCarries.decl,
      ← hLast.decl, hLayers]
  rw [hChecked.decl, hOther.decl] at hClasses
  have hShapes := List.forall₂_map_left_iff.mp
    (List.forall₂_map_right_iff.mp hClasses)
  refine ⟨hLayer, _, Compiled.toJson_of_compile hFirst, ?_⟩
  rw [Compiled.toJson_of_compile hSecond, ← hLayer,
    Registry.data_congr hShapes]

/- A schema with one more record, which is skipped, and with its
   comment in another place. -/
theorem toJson_skipped :
    ∃ first second json,
      compile "// LAYER 7\na#1 x:int = A;"
        (Sample.skipping []) = .ok first ∧
      compile "b#2 = B; a#1\nx:int = A; // LAYER 7"
        (Sample.skipping [2]) = .ok second ∧
      first.schema.records.length = 1 ∧
      second.schema.records.length = 2 ∧
      first.module = second.module ∧
      first.layer = some 7 ∧
      second.layer = some 7 ∧
      first.toJson = .ok json ∧
      second.toJson = .ok json := by
  have hPasses : Outcome.passes
      (fun first => Outcome.passes
        (fun second => decide
          (first.schema.records.length = 1 ∧
            second.schema.records.length = 2 ∧
            first.decl = second.decl ∧
            first.layer = some 7))
        (compile "b#2 = B; a#1\nx:int = A; // LAYER 7"
          (Sample.skipping [2])))
      (compile "// LAYER 7\na#1 x:int = A;"
        (Sample.skipping [])) = true := by
    decide +kernel
  rcases Outcome.exists_of_passes hPasses with
    ⟨first, hFirst, hRest⟩
  rcases Outcome.exists_of_passes hRest with
    ⟨second, hSecond, hParts⟩
  rcases of_decide_eq_true hParts with
    ⟨hOne, hTwo, hDecl, hLayer⟩
  -- the texts are too long to compare
  have hModule : first.module = second.module := by
    have hText := (Compiled.carries_of_compile hFirst).module
    rw [hDecl] at hText
    exact Except.ok.inj (hText.symm.trans
      (Compiled.carries_of_compile hSecond).module)
  rcases toJson_of_module_eq hFirst hSecond rfl rfl hModule with
    ⟨hSame, json, hJson, hLast⟩
  exact ⟨first, second, json, hFirst, hSecond, hOne, hTwo,
    hModule, hLayer, hSame.symm.trans hLayer, hJson, hLast⟩

end WireSchema
