import WireSchema.Proofs.Outcome
import WireSchema.Proofs.Reading
import WireSchema.Schema.Record

/-
  Reading a text from another place.

  The places of tokens are carried along and decide nothing.
  Moving all of them moves the places in what is read, and
  changes neither what is read nor whether it can be.

  Main declarations:
    * `Reader.relocate`
    * `Reader.step_relocate`
    * `Item.run_endAlike`
    * `Record.ofItemsFrom_relocate`
-/

namespace WireSchema

------------------------------------------------------------
-- Moving Places
------------------------------------------------------------

variable (move : Position → Position)

def Token.relocate
    (token : Token) :
    Token :=
  { token with position := move token.position }

def Unexpected.relocate :
    Unexpected → Unexpected
  | .token text position => .token text (move position)
  | .character c position => .character c (move position)

def Opening.relocate
    (opening : Opening) :
    Opening :=
  { opening with position := move opening.position }

def Combinator.relocate
    (combinator : Combinator) :
    Combinator :=
  { combinator with position := move combinator.position }

def Item.relocate :
    Item → Item
  | .marker text position => .marker text (move position)
  | .builtin name result => .builtin name result
  | .combinator declared =>
      .combinator (declared.relocate move)

def Target.relocate :
    Target → Target
  | .builtin name => .builtin name
  | .combinator opening => .combinator (opening.relocate move)

def Place.relocate :
    Place → Place
  | .item => .item
  | .head position name => .head (move position) name
  | .headDot position name => .headDot (move position) name
  | .headFull position name => .headFull (move position) name
  | .opened opening => .opened (opening.relocate move)
  | .listed opening => .listed (opening.relocate move)
  | .typeParamOpen opening =>
      .typeParamOpen (opening.relocate move)
  | .typeParamName opening name =>
      .typeParamName (opening.relocate move) name
  | .typeParamColon opening name =>
      .typeParamColon (opening.relocate move) name
  | .typeParamKind opening param =>
      .typeParamKind (opening.relocate move) param
  | .repeatOpen opening => .repeatOpen (opening.relocate move)
  | .repeatNames opening names =>
      .repeatNames (opening.relocate move) names
  | .paramName opening name =>
      .paramName (opening.relocate move) name
  | .paramColon opening name =>
      .paramColon (opening.relocate move) name
  | .builtinMark name => .builtinMark name
  | .resultStart target => .resultStart (target.relocate move)
  | .resultName target name =>
      .resultName (target.relocate move) name
  | .resultDot target name =>
      .resultDot (target.relocate move) name
  | .resultFull target name =>
      .resultFull (target.relocate move) name
  | .resultArguments target name arguments =>
      .resultArguments (target.relocate move) name arguments
  | .resultTerm target name state =>
      .resultTerm (target.relocate move) name state
  | .resultClosed target name argument =>
      .resultClosed (target.relocate move) name argument

/- A reader with its places moved, and with items read before
   its own. -/
def Reader.relocate
    (before : List Item)
    (reader : Reader) :
    Reader :=
  ⟨before ++ reader.items.map (Item.relocate move),
    reader.place.relocate move⟩

------------------------------------------------------------
-- Steps
------------------------------------------------------------

theorem Place.expects_relocate
    (place : Place) :
    (place.relocate move).expects = place.expects := by
  cases place <;> rfl

namespace Reader

variable (before : List Item)

theorem relocate_emit
    (reader : Reader)
    (item : Item) :
    (reader.emit item).relocate move before =
      (reader.relocate move before).emit
        (item.relocate move) := by
  simp [relocate, emit, Place.relocate]

theorem emit_complete_relocate
    (reader : Reader)
    (target : Target)
    (result : ResultItem) :
    (reader.relocate move before).emit
        ((target.relocate move).complete result) =
      (reader.emit (target.complete result)).relocate move
        before := by
  rw [relocate_emit]
  cases target <;> rfl

theorem afterHead_relocate
    (reader : Reader)
    (target : Target)
    (name : FullName)
    (token : Token) :
    (reader.relocate move before).afterHead
        (target.relocate move) name (token.relocate move) =
      (reader.afterHead target name token).map
        (relocate move before) := by
  rcases token with ⟨terminal, text, position⟩
  cases terminal with
  | semicolon =>
      exact congrArg some
        (emit_complete_relocate move before reader target _)
  | _ => rfl

theorem afterTerm_relocate
    (reader : Reader)
    (target : Target)
    (head : FullName)
    (state : TermState)
    (token : Token) :
    (reader.relocate move before).afterTerm
        (target.relocate move) head state
        (token.relocate move) =
      (reader.afterTerm target head state token).map
        (relocate move before) := by
  have hState : state.step (token.relocate move) =
      state.step token :=
    rfl
  unfold afterTerm
  rw [hState]
  cases state.step token with
  | some next => rfl
  | none =>
      rcases token with ⟨terminal, text, position⟩
      cases terminal with
      | greater => cases state.term? <;> rfl
      | _ => rfl

/- A step does the same at another place. -/
theorem step_relocate
    (reader : Reader)
    (token : Token) :
    (reader.relocate move before).step (token.relocate move) =
      (reader.step token).map (relocate move before) := by
  rcases reader with ⟨items, place⟩
  cases place with
  | item =>
      rcases token with ⟨terminal, text, position⟩
      cases terminal with
      | marker =>
          exact congrArg some
            (relocate_emit move before ⟨items, .item⟩
              (.marker text position)).symm
      | _ => rfl
  | resultName target name =>
      rcases token with ⟨terminal, text, position⟩
      cases terminal with
      | semicolon =>
          exact congrArg some
            (emit_complete_relocate move before
              ⟨items, .resultName target name⟩ target _)
      | _ => rfl
  | resultFull target name =>
      exact afterHead_relocate move before
        ⟨items, .resultFull target name⟩ target name token
  | resultArguments target name arguments =>
      rcases token with ⟨terminal, text, position⟩
      cases terminal with
      | semicolon =>
          exact congrArg some
            (emit_complete_relocate move before
              ⟨items, .resultArguments target name arguments⟩
              target _)
      | _ => rfl
  | resultTerm target name state =>
      exact afterTerm_relocate move before
        ⟨items, .resultTerm target name state⟩ target name
        state token
  | resultClosed target name argument =>
      rcases token with ⟨terminal, text, position⟩
      cases terminal with
      | semicolon =>
          exact congrArg some
            (emit_complete_relocate move before
              ⟨items, .resultClosed target name argument⟩
              target _)
      | _ => rfl
  | _ =>
      rcases token with ⟨terminal, text, position⟩
      cases terminal <;> rfl

end Reader

------------------------------------------------------------
-- Runs
------------------------------------------------------------

theorem Unexpected.relocate_ofText
    (c : Char)
    (rest : List Char)
    (position : Position) :
    (ofText c rest position).relocate move =
      ofText c rest (move position) := by
  unfold ofText
  split <;> rfl

/- Two ways of moving places under which places that meet go on
   together. -/
def MoveAlike
    (left right : Position → Position) :
    Prop :=
  ∀ position other c, left position = right other →
    left (position.next c) = right (other.next c)

theorem MoveAlike.advance
    {left right : Position → Position}
    (hMove : MoveAlike left right)
    {position other : Position}
    (hPlace : left position = right other)
    (cs : List Char) :
    left (position.advance cs) = right (other.advance cs) := by
  induction cs generalizing position other with
  | nil => exact hPlace
  | cons c cs ih => exact ih (hMove position other c hPlace)

namespace Item

/- Two ends of runs that are one if places are moved.  Between
   items nothing depends on the last token. -/
def EndAlike
    (left right : Position → Position)
    (before : List Item) :
    Except Unexpected (Reader × Position) →
      Except Unexpected (Reader × Position) → Prop
  | .error fault, .error other =>
      fault.relocate left = other.relocate right
  | .ok (reader, last), .ok (other, finish) =>
      reader.relocate left before =
          other.relocate right [] ∧
        (reader.place = .item ∨ left last = right finish)
  | _, _ => False

variable {left right : Position → Position}
variable {before : List Item}

theorem expects_alike
    {reader other : Reader}
    (hReader : reader.relocate left before =
      other.relocate right []) :
    automaton.expects other = automaton.expects reader := by
  have hAt := congrArg Reader.place hReader
  change other.place.expects = reader.place.expects
  rw [← Place.expects_relocate right other.place,
    ← Place.expects_relocate left reader.place]
  exact congrArg Place.expects hAt.symm

theorem step_alike
    {reader other : Reader}
    {position place : Position}
    (hReader : reader.relocate left before =
      other.relocate right [])
    (hPlace : left position = right place)
    (lexeme : Lexeme) :
    (reader.step (lexeme.token position)).map
        (Reader.relocate left before) =
      (other.step (lexeme.token place)).map
        (Reader.relocate right []) := by
  rw [← Reader.step_relocate, ← Reader.step_relocate, hReader]
  simp only [Token.relocate, Lexeme.token, hPlace]

/- Runs over one text from readers that are one if places are
   moved end alike. -/
theorem run_endAlike
    (hMove : MoveAlike left right)
    {reader other : Reader}
    {last position finish place : Position}
    (hReader : reader.relocate left before =
      other.relocate right [])
    (hLast : reader.place = .item ∨
      left last = right finish)
    (hPlace : left position = right place)
    (text : List Char) :
    EndAlike left right before
      (automaton.run reader last position text)
      (automaton.run other finish place text) := by
  induction hSize : text.length using Nat.strong_induction_on
    generalizing reader other last position finish place
      text with
  | _ size ih =>
      have hExpects := expects_alike hReader
      rcases automaton.takes_cases reader text with
        rfl | ⟨c, rest, rfl, hSelect⟩ |
          ⟨lexeme, rest, rfl, hTakes⟩
      · rw [Automaton.run, Automaton.run]
        exact ⟨hReader, hLast⟩
      · rw [Automaton.run, Automaton.run, hExpects, hSelect]
        change Unexpected.relocate left _ =
          Unexpected.relocate right _
        rw [Unexpected.relocate_ofText,
          Unexpected.relocate_ofText, hPlace]
      · have hOther : automaton.Takes other lexeme rest := by
          rw [Automaton.Takes, hExpects]
          exact hTakes
        have hLess := hSize ▸ hTakes.length_lt
        have hSteps := step_alike hReader hPlace lexeme
        rw [hTakes.run_append, hOther.run_append]
        simp only [Automaton.pass]
        by_cases hLayout : lexeme.terminal.isLayout = true
        · simp only [if_pos hLayout]
          exact ih _ hLess hReader hLast
            (hMove.advance hPlace _) rest rfl
        · simp only [if_neg hLayout]
          change Option.map _ (automaton.step reader _) =
            Option.map _ (automaton.step other _) at hSteps
          cases hNext : automaton.step reader
              (lexeme.token position) with
          | none =>
              rw [hNext, Option.map_none, eq_comm,
                Option.map_eq_none_iff] at hSteps
              rw [hSteps]
              exact congrArg (Unexpected.token _) hPlace
          | some next =>
              rw [hNext, Option.map_some, eq_comm,
                Option.map_eq_some_iff] at hSteps
              rcases hSteps with ⟨after, hAfter, hSame⟩
              rw [hAfter]
              exact ih _ hLess hSame.symm (.inr hPlace)
                (hMove.advance hPlace _) rest rfl

/- The items that a run ends with, or its fault. -/
def ofRun
    (outcome : Except Unexpected (Reader × Position)) :
    Except Unexpected (List Item) :=
  match outcome with
  | .error fault => .error fault
  | .ok (reader, last) =>
      match reader.finish with
      | some items => .ok items
      | none => .error (.token "" last)

theorem parse_eq_ofRun
    (text : String) :
    parse text =
      ofRun (automaton.run Reader.start Position.start
        Position.start text.toList) := by
  unfold parse Automaton.read
  cases automaton.run Reader.start Position.start
      Position.start text.toList with
  | error fault => rfl
  | ok final =>
      rcases final with ⟨reader, last⟩
      simp only [ofRun, automaton]
      cases reader.finish <;> rfl

/- A text that is read ends between items. -/
theorem run_of_parse
    {text : String}
    {items : List Item}
    (hParse : parse text = .ok items) :
    ∃ finish,
      automaton.run Reader.start Position.start Position.start
          text.toList =
        .ok (⟨items, .item⟩, finish) := by
  rw [parse_eq_ofRun] at hParse
  cases hRun : automaton.run Reader.start Position.start
      Position.start text.toList with
  | error fault =>
      rw [hRun] at hParse
      cases hParse
  | ok final =>
      rcases final with ⟨⟨read, place⟩, finish⟩
      rw [hRun] at hParse
      cases place <;> cases hParse
      exact ⟨finish, rfl⟩

theorem finish_relocate
    (before : List Item)
    (reader : Reader) :
    (reader.relocate move before).finish =
      reader.finish.map fun items =>
        before ++ items.map (relocate move) := by
  rcases reader with ⟨items, place⟩
  cases place <;> rfl

/- Runs that end alike give the same items, or the same fault,
   if places are moved. -/
theorem EndAlike.ofRun
    {outcome other : Except Unexpected (Reader × Position)}
    (hEnd : EndAlike left right before outcome other) :
    Outcome.bimap
        (fun items => before ++ items.map (relocate left))
        (Unexpected.relocate left) (ofRun outcome) =
      Outcome.bimap (List.map (relocate right))
        (Unexpected.relocate right) (ofRun other) := by
  match outcome, other, hEnd with
  | .error fault, .error second, hFault =>
      exact congrArg Except.error hFault
  | .ok (reader, last), .ok (second, finish), ⟨hReader, hLast⟩ =>
      have hFinish := congrArg Reader.finish hReader
      rw [finish_relocate, finish_relocate] at hFinish
      simp only [Item.ofRun]
      cases hItems : reader.finish with
      | some items =>
          rw [hItems, Option.map_some, eq_comm,
            Option.map_eq_some_iff] at hFinish
          rcases hFinish with ⟨others, hOthers, hSame⟩
          rw [hOthers]
          exact congrArg Except.ok hSame.symm
      | none =>
          rw [hItems, Option.map_none, eq_comm,
            Option.map_eq_none_iff] at hFinish
          rw [hFinish]
          rcases hLast with hItem | hLast
          · rw [Reader.finish, hItem] at hItems
            cases hItems
          · exact congrArg (fun place =>
              Except.error (Unexpected.token "" place)) hLast

end Item

------------------------------------------------------------
-- Records
------------------------------------------------------------

def Record.relocate
    (record : Record) :
    Record :=
  { record with position := move record.position }

def SchemaFault.relocate :
    SchemaFault → SchemaFault
  | .malformed fault => .malformed (fault.relocate move)
  | .unknownMarker marker position =>
      .unknownMarker marker (move position)
  | .duplicateParam param combinator position =>
      .duplicateParam param combinator (move position)
  | .badTag fault => .badTag fault

namespace Record

theorem exists_of_tagOf_error
    {combinator : Combinator}
    {fault : SchemaFault}
    (hTag : tagOf combinator = .error fault) :
    ∃ bad, fault = .badTag bad := by
  unfold tagOf at hTag
  split at hTag
  · split at hTag
    · cases hTag
    · cases hTag
      exact ⟨_, rfl⟩
  · cases hTag

/- The record of a combinator at another place. -/
theorem ofCombinator_relocate
    (kind : RecordKind)
    (combinator : Combinator) :
    ofCombinator kind (combinator.relocate move) =
      Outcome.bimap (relocate move) (SchemaFault.relocate move)
        (ofCombinator kind combinator) := by
  have hTag : tagOf (combinator.relocate move) =
      tagOf combinator :=
    rfl
  unfold ofCombinator
  rw [hTag]
  cases hOf : tagOf combinator with
  | error fault =>
      rcases exists_of_tagOf_error hOf with ⟨bad, rfl⟩
      rfl
  | ok tag =>
      simp only [Combinator.relocate]
      cases firstRepeated []
          (combinator.params.map ParamItem.name) with
      | some param => rfl
      | none => rfl

/- The records of items at other places. -/
theorem ofItemsFrom_relocate
    (kind : RecordKind)
    (read : List Record)
    (items : List Item) :
    ofItemsFrom kind (read.map (relocate move))
        (items.map (Item.relocate move)) =
      Outcome.bimap (List.map (relocate move))
        (SchemaFault.relocate move)
        (ofItemsFrom kind read items) := by
  induction items generalizing kind read with
  | nil =>
      simp only [List.map_nil, ofItemsFrom, List.map_reverse,
        Outcome.bimap]
  | cons item items ih =>
      cases item with
      | marker text position =>
          simp only [List.map_cons, Item.relocate, ofItemsFrom]
          split
          · exact ih _ read
          · rfl
      | builtin name result => exact ih kind read
      | combinator declared =>
          simp only [List.map_cons, Item.relocate, ofItemsFrom,
            ofCombinator_relocate]
          cases ofCombinator kind declared with
          | error fault => rfl
          | ok record => exact ih kind (record :: read)

end Record

end WireSchema
