import WireSchema.Proofs.Pieces
import WireSchema.Proofs.Record

/-
  Schemas written back.

  Items that are made of lexemes can be written with one space
  between any two of these.  The text is read to the records
  that the items declare.  Records that have been read can be
  written so too, each with its section and its tag, and are
  then read again.

  Main declarations:
    * `Item.IsDeclarable`
    * `Item.declaredRecords`
    * `Record.tokens`
    * `Schema.parse_restated`
-/

namespace WireSchema

------------------------------------------------------------
-- Declared Records
------------------------------------------------------------

theorem firstRepeated_eq_none_iff
    {seen names : List String} :
    firstRepeated seen names = none ↔
      (names.filter (· ≠ "")).Nodup ∧
        ∀ name ∈ names, name ≠ "" → name ∉ seen := by
  induction names generalizing seen with
  | nil => simp [firstRepeated]
  | cons name names ih =>
      rw [firstRepeated]
      by_cases hEmpty : name = ""
      · simp [hEmpty, ih]
      · by_cases hSeen : name ∈ seen
        · simp [hEmpty, hSeen]
        · simp only [String.isEmpty_iff, hEmpty, if_false,
            List.contains_iff_mem, hSeen, ih]
          rw [List.filter_cons_of_pos (by simpa using hEmpty),
            List.nodup_cons]
          grind

namespace Combinator

/- No two params have the same name, unless they have none. -/
def NamesApart
    (combinator : Combinator) :
    Prop :=
  ((combinator.params.map ParamItem.name).filter
    (· ≠ "")).Nodup

/- The tag that a combinator spells, or else the one that is
   inferred. -/
def tagNumber
    (combinator : Combinator) :
    Nat :=
  match combinator.tag with
  | some text => Tag.value text
  | none => Tag.infer combinator.canonical

theorem tagOf_eq_tagNumber
    {combinator : Combinator}
    (hSpelled : combinator.IsSpelled) :
    Record.tagOf combinator =
      .ok (combinator.tagNumber : Int) := by
  unfold Record.tagOf tagNumber
  cases hTag : combinator.tag with
  | none => rfl
  | some text =>
      have hText := hSpelled.opening.tag text hTag
      simp only [(Tag.parse_eq_value hText).1]

/- A combinator of lexemes has a record if no name repeats. -/
theorem ofCombinator_eq_ok_iff
    {combinator : Combinator}
    (hSpelled : combinator.IsSpelled)
    {kind : RecordKind}
    {record : Record} :
    Record.ofCombinator kind combinator = .ok record ↔
      combinator.NamesApart ∧
        record = .declared kind combinator.tagNumber
          combinator := by
  rw [Record.ofCombinator_eq_ok_iff, firstRepeated_eq_none_iff,
    tagOf_eq_tagNumber hSpelled, NamesApart]
  simp

end Combinator

namespace Item

/- An item that a schema may hold: a marker of a section, or a
   declaration made of lexemes in which no param's name
   repeats. -/
def IsDeclarable :
    Item → Prop
  | .marker text _ =>
      text = "---types---" ∨ text = "---functions---"
  | .builtin name result =>
      name.IsSpelled ∧ result.IsSpelled
  | .combinator declared =>
      declared.IsSpelled ∧ declared.NamesApart

theorem IsDeclarable.isSpelled
    {item : Item}
    (hItem : item.IsDeclarable) :
    item.IsSpelled := by
  cases item with
  | marker text position =>
      rcases hItem with rfl | rfl
      · change Terminal.marker.IsLexeme "---types---"
        decide
      · change Terminal.marker.IsLexeme "---functions---"
        decide
  | builtin name result => exact hItem
  | combinator declared => exact hItem.1

theorem IsDeclarable.isKnown
    {item : Item}
    (hItem : item.IsDeclarable) :
    item.IsKnown := by
  cases item with
  | marker text position =>
      rw [isKnown_marker]
      rcases hItem with rfl | rfl
      · exact ⟨.constructor, by decide⟩
      · exact ⟨.function, by decide⟩
  | builtin name result => rintro ⟨⟩
  | combinator declared => rintro ⟨⟩

/- The records that items declare, one for each combinator. -/
def declaredRecords
    (kind : RecordKind)
    (items : List Item) :
    List Record :=
  (declarations kind items).map fun (kind, declared) =>
    .declared kind declared.tagNumber declared

theorem declaredRecords_marker
    {kind next : RecordKind}
    {text : String}
    {position : Position}
    {items : List Item}
    (hNext : Record.sectionOf text = some next) :
    declaredRecords kind (.marker text position :: items) =
      declaredRecords next items := by
  rw [declaredRecords, declarations_cons, section?, hNext]
  rfl

theorem declaredRecords_combinator
    {kind : RecordKind}
    {declared : Combinator}
    {items : List Item} :
    declaredRecords kind (.combinator declared :: items) =
      .declared kind declared.tagNumber declared ::
        declaredRecords kind items := by
  rw [declaredRecords, declarations_cons]
  rfl

theorem isToken_flatMap
    {items : List Item}
    (hItems : ∀ item ∈ items, item.IsDeclarable) :
    ∀ lexeme ∈ items.flatMap lexemes, lexeme.IsToken := by
  intro lexeme hMem
  rcases List.mem_flatMap.mp hMem with
    ⟨item, hItem, hLexeme⟩
  exact isToken_lexemes (hItems item hItem).isSpelled
    lexeme hLexeme

/- Items as a text of lexemes one space apart. -/
def written
    (items : List Item) :
    String :=
  " ".intercalate ((items.flatMap lexemes).map Lexeme.text)

end Item

theorem Record.ofItemsFrom_of_isDeclarable
    {items : List Item}
    (hItems : ∀ item ∈ items, item.IsDeclarable)
    (kind : RecordKind) :
    ofItemsFrom kind [] items =
      .ok (Item.declaredRecords kind items) := by
  rw [ofItemsFrom_eq_ok_iff, Item.declaredRecords,
    List.forall₂_map_right_iff, List.forall₂_same]
  refine ⟨fun item hMem => (hItems item hMem).isKnown, ?_⟩
  intro declaration hMem
  have hDeclared := hItems _ (Item.mem_of_mem_declarations hMem)
  rw [Combinator.ofCombinator_eq_ok_iff hDeclared.1]
  exact ⟨hDeclared.2, rfl⟩

namespace Schema

/- Items that a schema may hold are read again from every text
   that is written with their lexemes. -/
theorem parse_of_written
    {items : List Item}
    {text : String}
    (hItems : ∀ item ∈ items, item.IsDeclarable)
    (hWritten : Lexeme.Written (items.flatMap Item.lexemes)
      text.toList)
    (source : Option String) :
    ∃ schema, parse text source = .ok schema ∧
      schema.records.map Record.unplaced =
        (Item.declaredRecords .constructor items).map
          Record.unplaced := by
  rcases Item.parse_of_written hWritten
    (Item.isToken_flatMap hItems)
    (Item.feed_flatMap [] items) with ⟨read, hRead, hSame⟩
  exact parse_of_items hRead hSame
    (Record.ofItemsFrom_of_isDeclarable hItems .constructor)
    source

theorem parse_written
    {items : List Item}
    (hItems : ∀ item ∈ items, item.IsDeclarable)
    (source : Option String) :
    ∃ schema, parse (Item.written items) source = .ok schema ∧
      schema.records.map Record.unplaced =
        (Item.declaredRecords .constructor items).map
          Record.unplaced :=
  parse_of_written hItems
    (Lexeme.written_intercalate
      (Item.isToken_flatMap hItems))
    source

end Schema

------------------------------------------------------------
-- Records as Tokens
------------------------------------------------------------

/- The marker of a section. -/
def RecordKind.marker :
    RecordKind → String
  | .constructor => "---types---"
  | .function => "---functions---"

theorem RecordKind.sectionOf_marker
    (kind : RecordKind) :
    Record.sectionOf kind.marker = some kind := by
  cases kind <;> decide

theorem RecordKind.isDeclarable_marker
    (kind : RecordKind)
    {position : Position} :
    Item.IsDeclarable (.marker kind.marker position) := by
  cases kind with
  | constructor => exact .inl rfl
  | function => exact .inr rfl

/- The tokens of a param.  The type of one without a name is
   made of names and signs, and any other is one lexeme. -/
def Param.tokens
    (param : Param) :
    List String :=
  if param.name = "" then
    Text.pieces param.wireType
  else
    [param.name, ":", param.wireType]

namespace Record

/- The tokens of a record: its section, and its combinator with
   a declared tag.  What its type variables range over is not
   kept in a record. -/
def tokens
    (record : Record) :
    List String :=
  record.kind.marker :: Text.pieces record.name ++
    [Tag.written record.tag] ++
    (record.typeParams.flatMap fun name =>
      ["\x7b", name, ":", "Type", "\x7d"]) ++
    record.params.flatMap Param.tokens ++
    "=" :: Text.pieces record.resultType ++ [";"]

/- Records as a text of tokens one space apart. -/
def written
    (records : List Record) :
    String :=
  " ".intercalate (records.flatMap tokens)

/- A record without its place and as if its tag had been
   declared. -/
def explicit
    (record : Record) :
    Record :=
  { record.unplaced with tagInferred := false }

end Record

theorem IsName.ne_empty
    {name : String}
    (hName : IsName name) :
    name ≠ "" := by
  rintro rfl
  exact hName.toList_ne_nil rfl

/- The tokens of a param are its lexemes. -/
theorem ParamItem.tokens_eq
    {param : ParamItem}
    (hParam : param.IsSpelled) :
    Param.tokens ⟨param.name, param.wireType⟩ =
      param.lexemes.map Lexeme.text := by
  cases param with
  | bitmask name => exact if_neg (IsName.ne_empty hParam)
  | typed name wireType =>
      exact if_neg (IsName.ne_empty hParam.1)
  | number => rfl
  | repeated names => exact pieces_repeated hParam

namespace Combinator

/- A combinator that declares a tag, and whose type variables
   range over types. -/
def restated
    (tag : Int)
    (combinator : Combinator) :
    Combinator :=
  { combinator with
    tag := some (Tag.written tag)
    typeParams := combinator.typeParams.map fun param =>
      ⟨param.name, "Type"⟩ }

theorem isSpelled_restated
    {tag : Int}
    {combinator : Combinator}
    (hTag : Tag.InRange tag)
    (hSpelled : combinator.IsSpelled) :
    (combinator.restated tag).IsSpelled := by
  refine ⟨⟨hSpelled.opening.name, ?_, ?_,
    hSpelled.opening.params⟩, hSpelled.result⟩
  · rintro text ⟨⟩
    exact (Tag.isLexeme_written hTag).1
  · have hType : IsName "Type" := by decide
    intro param hMem
    rcases List.mem_map.mp hMem with ⟨other, hOther, rfl⟩
    exact ⟨(hSpelled.opening.typeParams other hOther).1,
      hType⟩

/- The record of a combinator that declares a tag. -/
theorem unplaced_restated
    {tag : Int}
    (hTag : Tag.InRange tag)
    (kind : RecordKind)
    (combinator : Combinator) :
    (Record.declared kind (combinator.restated tag).tagNumber
        (combinator.restated tag)).unplaced =
      (Record.declared kind tag combinator).explicit := by
  have hNumber : ((combinator.restated tag).tagNumber : Int) =
      tag :=
    (Tag.isLexeme_written hTag).2
  rw [hNumber]
  simp [Record.declared, restated, Record.explicit,
    Record.unplaced, Record.relocate]

theorem tokens_declared
    {combinator : Combinator}
    (hSpelled : combinator.IsSpelled)
    (kind : RecordKind)
    (tag : Int) :
    (Record.declared kind tag combinator).tokens =
      kind.marker :: (Item.lexemes
        (.combinator (combinator.restated tag))).map
          Lexeme.text := by
  have hParams :
      (combinator.params.flatMap fun param =>
          Param.tokens ⟨param.name, param.wireType⟩) =
        combinator.params.flatMap fun param =>
          param.lexemes.map Lexeme.text := by
    apply List.flatMap_congr
    intro param hMem
    exact ParamItem.tokens_eq
      (hSpelled.opening.params param hMem)
  simp only [Record.tokens, Record.declared, Item.lexemes,
    Opening.lexemes, restated, List.map_append, List.map_cons,
    List.flatMap_map, List.map_flatMap, hParams,
    FullName.pieces_text hSpelled.opening.name,
    ResultItem.pieces_text hSpelled.result]
  simp [TypeParam.lexemes, Lexeme.name, Lexeme.sign,
    Terminal.spelling]

end Combinator

/- Records of combinators are made of the lexemes of items that
   declare them: of each its section, and its combinator with
   the tag. -/
theorem Record.exists_items
    {records : List Record}
    (hRecords : ∀ record ∈ records, ∃ kind combinator,
      combinator.IsSpelled ∧
        ofCombinator kind combinator = .ok record)
    (before : RecordKind) :
    ∃ items : List Item,
      (∀ item ∈ items, item.IsDeclarable) ∧
      records.flatMap tokens =
        (items.flatMap Item.lexemes).map Lexeme.text ∧
      (Item.declaredRecords before items).map unplaced =
        records.map explicit := by
  induction records generalizing before with
  | nil => exact ⟨[], by simp, rfl, rfl⟩
  | cons record records ih =>
      rcases List.forall_mem_cons.mp hRecords with
        ⟨⟨kind, combinator, hSpelled, hRecord⟩, hRest⟩
      -- the marker of this record is in force for the others
      rcases ih hRest kind with
        ⟨items, hItems, hTokens, hDeclared⟩
      have hRange :=
        (isRead_of_ofCombinator hSpelled hRecord).tag
      rcases (Combinator.ofCombinator_eq_ok_iff hSpelled).mp
        hRecord with ⟨hApart, rfl⟩
      refine ⟨.marker kind.marker Position.start ::
        .combinator (combinator.restated
          combinator.tagNumber) :: items, ?_, ?_, ?_⟩
      · rw [List.forall_mem_cons, List.forall_mem_cons]
        exact ⟨kind.isDeclarable_marker,
          ⟨Combinator.isSpelled_restated hRange hSpelled,
            hApart⟩, hItems⟩
      · rw [List.flatMap_cons, hTokens,
          Combinator.tokens_declared hSpelled]
        simp [Item.lexemes]
      · rw [Item.declaredRecords_marker kind.sectionOf_marker,
          Item.declaredRecords_combinator, List.map_cons,
          List.map_cons, hDeclared]
        exact congrArg (· :: _) (Combinator.unplaced_restated
          hRange kind combinator)

------------------------------------------------------------
-- Schemas Written and Read
------------------------------------------------------------

/- Every record that is read is that of a combinator of
   lexemes. -/
theorem Record.exists_combinator
    {text : String}
    {source : Option String}
    {schema : Schema}
    (hParse : Schema.parse text source = .ok schema) :
    ∀ record ∈ schema.records, ∃ kind combinator,
      combinator.IsSpelled ∧
        ofCombinator kind combinator = .ok record := by
  rcases Schema.parse_eq_ok_iff.mp hParse with
    ⟨items, hItems, hRecords, -⟩
  have hSpelled := Item.isSpelled_of_parse hItems
  have hAll := (ofItemsFrom_eq_ok_iff.mp hRecords).2
  intro record hMem
  rcases Paired.exists_left hAll hMem with
    ⟨declaration, hDeclaration, hRecord⟩
  exact ⟨declaration.1, declaration.2,
    hSpelled _ (Item.mem_of_mem_declarations hDeclaration),
    hRecord⟩

/- A schema may be written as its tokens one space apart.  What
   may be declared is read to the records that are declared, in
   their order, and what has been read is read again, up to
   places and to where tags come from. -/
theorem Schema.parse_restated
    (source : Option String) :
    (∀ items : List Item,
      (∀ item ∈ items, item.IsDeclarable) →
        ∃ schema,
          parse (Item.written items) source = .ok schema ∧
          schema.records.map Record.unplaced =
            (Item.declaredRecords .constructor items).map
              Record.unplaced) ∧
      ∀ text schema, parse text source = .ok schema →
        ∃ again,
          parse (Record.written schema.records) source =
            .ok again ∧
          again.records.map Record.unplaced =
            schema.records.map Record.explicit := by
  constructor
  · intro items hItems
    exact parse_written hItems source
  · intro text schema hParse
    rcases Record.exists_items
      (Record.exists_combinator hParse) .constructor with
      ⟨items, hItems, hTokens, hDeclared⟩
    rcases parse_written hItems source with
      ⟨again, hAgain, hRecords⟩
    rw [Item.written, ← hTokens] at hAgain
    exact ⟨again, hAgain, hRecords.trans hDeclared⟩

/- Declarations with params of all forms and a bare result, and
   a schema with comments, a wire type that looks like one, and
   an inferred tag. -/
theorem Schema.parse_restated_forms :
    (∃ items : List Item,
      (∀ item ∈ items, item.IsDeclarable) ∧
      Item.written items =
        "int ? = Int ; ---functions--- a . f \x7b X : Type " ++
          "\x7d flags : # q : flags.0?//x # [ x y ] = " ++
          "Vector < % a . t > ;" ∧
      ∃ schema,
        parse (Item.written items) none = .ok schema ∧
        schema.records.map Record.unplaced =
          (Item.declaredRecords .constructor items).map
            Record.unplaced) ∧
      ∃ schema again,
        parse ("---functions--- a.g y:/*c*/ = Vector<!X>;" ++
          " // c\n---types--- h#1f [ ] = H a;") none =
            .ok schema ∧
        parse (Record.written schema.records) none =
          .ok again ∧
        again.records.map Record.unplaced =
          schema.records.map Record.explicit := by
  constructor
  · have hItems : ∀ item ∈
        [Item.builtin ⟨none, "int"⟩ (.plain ⟨none, "Int"⟩ []),
          .marker "---functions---" Position.start,
          .combinator ⟨⟨Position.start, ⟨some "a", "f"⟩, none,
            [⟨"X", "Type"⟩],
            [.bitmask "flags", .typed "q" "flags.0?//x",
              .number, .repeated ["x", "y"]]⟩,
            .applied ⟨none, "Vector"⟩
              (.named ⟨some "a", "t"⟩ true)⟩],
        item.IsDeclarable := by
      simp only [List.forall_mem_cons, List.not_mem_nil,
        false_imp_iff, implies_true, and_true]
      refine ⟨⟨FullName.isSpelled_simple (by decide),
          FullName.isSpelled_simple (by decide), by simp⟩,
        .inr rfl,
        ⟨⟨FullName.isSpelled_qualified (by decide) (by decide),
            by simp, ?_, ?_⟩,
          FullName.isSpelled_simple (by decide),
          FullName.isSpelled_qualified (by decide)
            (by decide)⟩, ?_⟩
      · rintro param (_ | ⟨_, ⟨⟩⟩)
        exact ⟨by decide, by decide⟩
      · simp only [List.forall_mem_cons, List.not_mem_nil,
          false_imp_iff, implies_true, and_true,
          ParamItem.IsSpelled]
        decide
      · rw [Combinator.NamesApart]
        decide
    exact ⟨_, hItems, by decide +kernel,
      (parse_restated none).1 _ hItems⟩
  · have hPasses : Outcome.passes (fun _ => true)
        (parse ("---functions--- a.g y:/*c*/ = Vector<!X>;" ++
          " // c\n---types--- h#1f [ ] = H a;") none) =
            true := by
      decide +kernel
    rcases Outcome.exists_of_passes hPasses with
      ⟨schema, hParse, -⟩
    rcases (parse_restated none).2 _ schema hParse with
      ⟨again, hAgain, hSame⟩
    exact ⟨schema, again, hParse, hAgain, hSame⟩

end WireSchema
