import WireSchema.Grammar.Schema
import WireSchema.Grammar.WireType
import WireSchema.Proofs.Lexeme

/-
  What is read from a text is spelled by lexemes.

  Every name, tag and wire type inside the items of a schema,
  and every name inside a wire type, is a lexeme of the
  terminal it was read as.  The property is stated for whole
  states of the readers, so that each step can be seen to keep
  it.

  Main declarations:
    * `Term.IsSpelled`
    * `Item.IsSpelled`
    * `Reader.isSpelled_step`
    * `Item.isSpelled_of_parse`
    * `WireType.isSpelled_of_parse`
-/

namespace WireSchema

------------------------------------------------------------
-- Names and Terms
------------------------------------------------------------

/- A text that is read as one name. -/
def IsName
    (text : String) :
    Prop :=
  Terminal.name.IsLexeme text

theorem Token.IsLexeme.isName
    {token : Token}
    (hToken : token.IsLexeme)
    (hTerminal : token.terminal = .name) :
    IsName token.text := by
  rw [Token.IsLexeme, hTerminal] at hToken
  exact hToken

theorem isName_append
    {names : List String}
    {name : String}
    (hNames : ∀ other ∈ names, IsName other)
    (hName : IsName name) :
    ∀ other ∈ names ++ [name], IsName other := by
  intro other hMem
  rcases List.mem_append.mp hMem with hOld | hNew
  · exact hNames other hOld
  · rw [List.mem_singleton.mp hNew]
    exact hName

/- A name made of lexemes. -/
structure FullName.IsSpelled
    (name : FullName) :
    Prop where
  space : ∀ space, name.space = some space → IsName space
  member : IsName name.member

/- A term made of lexemes. -/
def Term.IsSpelled :
    Term → Prop
  | .named name _ => name.IsSpelled
  | .generic name => IsName name
  | .vector keyword element =>
      IsName keyword ∧ element.IsSpelled

theorem FullName.isSpelled_simple
    {name : String}
    (hName : IsName name) :
    FullName.IsSpelled ⟨none, name⟩ := by
  refine ⟨?_, hName⟩
  intro space hSpace
  cases hSpace

theorem FullName.isSpelled_qualified
    {space name : String}
    (hSpace : IsName space)
    (hName : IsName name) :
    FullName.IsSpelled ⟨some space, name⟩ := by
  refine ⟨?_, hName⟩
  intro other hOther
  cases hOther
  exact hSpace

/- A place in a term up to which all is made of lexemes. -/
def TermPlace.IsSpelled :
    TermPlace → Prop
  | .start => True
  | .bang => True
  | .percent => True
  | .named name => IsName name
  | .dotted name => IsName name
  | .bareNamed name => IsName name
  | .bareDotted name => IsName name
  | .qualified name _ => name.IsSpelled
  | .closed term => term.IsSpelled

/- A state of the reader of terms that holds only lexemes. -/
structure TermState.IsSpelled
    (state : TermState) :
    Prop where
  keywords : ∀ keyword ∈ state.keywords, IsName keyword
  place : state.place.IsSpelled

theorem TermPlace.isSpelled_term
    {place : TermPlace}
    {term : Term}
    (hPlace : place.IsSpelled)
    (hTerm : place.term? = some term) :
    term.IsSpelled := by
  cases place with
  | named name =>
      cases hTerm
      exact FullName.isSpelled_simple hPlace
  | bareNamed name =>
      cases hTerm
      exact FullName.isSpelled_simple hPlace
  | qualified name bare =>
      cases hTerm
      exact hPlace
  | closed inner =>
      cases hTerm
      exact hPlace
  | _ => cases hTerm

namespace TermState

theorem isSpelled_start :
    start.IsSpelled := by
  refine ⟨?_, trivial⟩
  intro keyword hMem
  cases hMem

theorem isSpelled_term
    {state : TermState}
    {term : Term}
    (hState : state.IsSpelled)
    (hTerm : state.term? = some term) :
    term.IsSpelled := by
  unfold term? at hTerm
  split at hTerm
  · exact TermPlace.isSpelled_term hState.place hTerm
  · cases hTerm

theorem isSpelled_close
    {state next : TermState}
    (hState : state.IsSpelled)
    (hClose : state.close = some next) :
    next.IsSpelled := by
  unfold close at hClose
  split at hClose
  · cases hClose
  · rename_i keyword keywords hKeywords
    rcases Option.map_eq_some_iff.mp hClose with
      ⟨term, hTerm, rfl⟩
    have hNames := hState.keywords
    rw [hKeywords] at hNames
    refine ⟨?_, ?_⟩
    · intro other hMem
      exact hNames other (List.mem_cons_of_mem _ hMem)
    · exact ⟨hNames keyword List.mem_cons_self,
        TermPlace.isSpelled_term hState.place hTerm⟩

/- A step on a lexeme adds nothing but lexemes. -/
theorem isSpelled_step
    {state next : TermState}
    {token : Token}
    (hToken : token.IsLexeme)
    (hState : state.IsSpelled)
    (hStep : state.step token = some next) :
    next.IsSpelled := by
  rcases hState with ⟨hKeywords, hPlace⟩
  have hName := hToken.isName
  unfold step at hStep
  split at hStep <;> rename_i hAt hTerminal
  case h_11 =>
      exact isSpelled_close ⟨hKeywords, hPlace⟩ hStep
  case h_12 => cases hStep
  all_goals
    rw [hAt] at hPlace
    cases hStep
  case h_7 name =>
      refine ⟨?_, trivial⟩
      intro keyword hMem
      rcases List.mem_cons.mp hMem with hHead | hTail
      · rw [hHead]
        exact hPlace
      · exact hKeywords keyword hTail
  all_goals refine ⟨hKeywords, ?_⟩
  case h_1 => trivial
  case h_2 => trivial
  case h_3 => exact hName hTerminal
  case h_4 => exact hName hTerminal
  case h_5 => exact hName hTerminal
  case h_6 name => exact hPlace
  case h_8 name =>
      exact FullName.isSpelled_qualified hPlace
        (hName hTerminal)
  case h_9 name => exact hPlace
  case h_10 name =>
      exact FullName.isSpelled_qualified hPlace
        (hName hTerminal)

end TermState

------------------------------------------------------------
-- Items
------------------------------------------------------------

/- A declared type variable made of lexemes. -/
def TypeParam.IsSpelled
    (param : TypeParam) :
    Prop :=
  IsName param.name ∧ IsName param.kind

/- A declared param made of lexemes. -/
def ParamItem.IsSpelled :
    ParamItem → Prop
  | .bitmask name => IsName name
  | .typed name wireType =>
      IsName name ∧ Terminal.wireType.IsLexeme wireType
  | .number => True
  | .repeated names => ∀ name ∈ names, IsName name

/- A result made of lexemes. -/
def ResultItem.IsSpelled :
    ResultItem → Prop
  | .plain head arguments =>
      head.IsSpelled ∧ ∀ name ∈ arguments, IsName name
  | .applied head argument =>
      head.IsSpelled ∧ argument.IsSpelled

/- An opening made of lexemes. -/
structure Opening.IsSpelled
    (opening : Opening) :
    Prop where
  name : opening.name.IsSpelled
  tag : ∀ text, opening.tag = some text →
    Terminal.tag.IsLexeme text
  typeParams : ∀ param ∈ opening.typeParams, param.IsSpelled
  params : ∀ param ∈ opening.params, param.IsSpelled

/- A combinator made of lexemes. -/
structure Combinator.IsSpelled
    (combinator : Combinator) :
    Prop where
  opening : combinator.toOpening.IsSpelled
  result : combinator.result.IsSpelled

/- An item made of lexemes. -/
def Item.IsSpelled :
    Item → Prop
  | .marker text _ => Terminal.marker.IsLexeme text
  | .builtin name result =>
      name.IsSpelled ∧ result.IsSpelled
  | .combinator declared => declared.IsSpelled

/- A declaration of lexemes whose result is being read. -/
def Target.IsSpelled :
    Target → Prop
  | .builtin name => name.IsSpelled
  | .combinator opening => opening.IsSpelled

/- A place in a schema up to which the current item is made of
   lexemes. -/
def Place.IsSpelled :
    Place → Prop
  | .item => True
  | .head _ name => IsName name
  | .headDot _ name => IsName name
  | .headFull _ name => name.IsSpelled
  | .opened opening => opening.IsSpelled
  | .listed opening => opening.IsSpelled
  | .typeParamOpen opening => opening.IsSpelled
  | .typeParamName opening name =>
      opening.IsSpelled ∧ IsName name
  | .typeParamColon opening name =>
      opening.IsSpelled ∧ IsName name
  | .typeParamKind opening param =>
      opening.IsSpelled ∧ param.IsSpelled
  | .repeatOpen opening => opening.IsSpelled
  | .repeatNames opening names =>
      opening.IsSpelled ∧ ∀ name ∈ names, IsName name
  | .paramName opening name =>
      opening.IsSpelled ∧ IsName name
  | .paramColon opening name =>
      opening.IsSpelled ∧ IsName name
  | .builtinMark name => name.IsSpelled
  | .resultStart target => target.IsSpelled
  | .resultName target name =>
      target.IsSpelled ∧ IsName name
  | .resultDot target name =>
      target.IsSpelled ∧ IsName name
  | .resultFull target name =>
      target.IsSpelled ∧ name.IsSpelled
  | .resultArguments target name arguments =>
      target.IsSpelled ∧ name.IsSpelled ∧
        ∀ argument ∈ arguments, IsName argument
  | .resultTerm target name state =>
      target.IsSpelled ∧ name.IsSpelled ∧ state.IsSpelled
  | .resultClosed target name argument =>
      target.IsSpelled ∧ name.IsSpelled ∧
        argument.IsSpelled

/- A reader that holds only lexemes. -/
structure Reader.IsSpelled
    (reader : Reader) :
    Prop where
  items : ∀ item ∈ reader.items, item.IsSpelled
  place : reader.place.IsSpelled

theorem Target.isSpelled_complete
    {target : Target}
    {result : ResultItem}
    (hTarget : target.IsSpelled)
    (hResult : result.IsSpelled) :
    (target.complete result).IsSpelled := by
  cases target with
  | builtin name => exact ⟨hTarget, hResult⟩
  | combinator opening => exact ⟨hTarget, hResult⟩

namespace Opening

theorem isSpelled_ofName
    {name : FullName}
    (position : Position)
    (hName : name.IsSpelled) :
    (ofName position name).IsSpelled := by
  refine ⟨hName, ?_, ?_, ?_⟩
  · intro text hText
    cases hText
  · intro param hMem
    cases hMem
  · intro param hMem
    cases hMem

theorem isSpelled_addParam
    {opening : Opening}
    {param : ParamItem}
    (hOpening : opening.IsSpelled)
    (hParam : param.IsSpelled) :
    (opening.addParam param).IsSpelled := by
  refine { hOpening with params := ?_ }
  intro other hMem
  rcases List.mem_append.mp hMem with hOld | hNew
  · exact hOpening.params other hOld
  · rw [List.mem_singleton.mp hNew]
    exact hParam

theorem isSpelled_addTypeParam
    {opening : Opening}
    {param : TypeParam}
    (hOpening : opening.IsSpelled)
    (hParam : param.IsSpelled) :
    Opening.IsSpelled { opening with
      typeParams := opening.typeParams ++ [param] } := by
  refine { hOpening with typeParams := ?_ }
  intro other hMem
  rcases List.mem_append.mp hMem with hOld | hNew
  · exact hOpening.typeParams other hOld
  · rw [List.mem_singleton.mp hNew]
    exact hParam

theorem isSpelled_setTag
    {opening : Opening}
    {text : String}
    (hOpening : opening.IsSpelled)
    (hText : Terminal.tag.IsLexeme text) :
    Opening.IsSpelled { opening with tag := some text } := by
  refine { hOpening with tag := ?_ }
  intro other hOther
  cases hOther
  exact hText

theorem isSpelled_afterParams
    {opening : Opening}
    {token : Token}
    {place : Place}
    (hToken : token.IsLexeme)
    (hOpening : opening.IsSpelled)
    (hPlace : opening.afterParams token = some place) :
    place.IsSpelled := by
  unfold afterParams at hPlace
  split at hPlace <;> cases hPlace
  · exact hOpening
  · exact isSpelled_addParam hOpening trivial
  · exact hOpening
  · rename_i hTerminal
    exact ⟨hOpening, hToken.isName hTerminal⟩

theorem isSpelled_afterTypeParams
    {opening : Opening}
    {token : Token}
    {place : Place}
    (hToken : token.IsLexeme)
    (hOpening : opening.IsSpelled)
    (hPlace : opening.afterTypeParams token = some place) :
    place.IsSpelled := by
  unfold afterTypeParams at hPlace
  split at hPlace
  · cases hPlace
    exact hOpening
  · exact isSpelled_afterParams hToken hOpening hPlace

theorem isSpelled_afterName
    {opening : Opening}
    {token : Token}
    {place : Place}
    (hToken : token.IsLexeme)
    (hOpening : opening.IsSpelled)
    (hPlace : opening.afterName token = some place) :
    place.IsSpelled := by
  unfold afterName at hPlace
  split at hPlace
  · cases hPlace
    exact hOpening.name
  · rename_i hTerminal
    cases hPlace
    rw [Token.IsLexeme, hTerminal] at hToken
    exact isSpelled_setTag hOpening hToken
  · exact isSpelled_afterTypeParams hToken hOpening hPlace

end Opening

namespace Reader

theorem isSpelled_start :
    start.IsSpelled := by
  refine ⟨?_, trivial⟩
  intro item hMem
  cases hMem

theorem isSpelled_goto
    {reader : Reader}
    {place : Place}
    (hReader : reader.IsSpelled)
    (hPlace : place.IsSpelled) :
    (reader.goto place).IsSpelled :=
  ⟨hReader.items, hPlace⟩

theorem isSpelled_emit
    {reader : Reader}
    {item : Item}
    (hReader : reader.IsSpelled)
    (hItem : item.IsSpelled) :
    (reader.emit item).IsSpelled := by
  refine ⟨?_, trivial⟩
  intro other hMem
  rcases List.mem_append.mp hMem with hOld | hNew
  · exact hReader.items other hOld
  · rw [List.mem_singleton.mp hNew]
    exact hItem

theorem isSpelled_afterHead
    {reader next : Reader}
    {target : Target}
    {head : FullName}
    {token : Token}
    (hToken : token.IsLexeme)
    (hReader : reader.IsSpelled)
    (hTarget : target.IsSpelled)
    (hHead : head.IsSpelled)
    (hNext :
      reader.afterHead target head token = some next) :
    next.IsSpelled := by
  unfold afterHead at hNext
  split at hNext <;> cases hNext
  · exact isSpelled_goto hReader
      ⟨hTarget, hHead, TermState.isSpelled_start⟩
  · rename_i hTerminal
    refine isSpelled_goto hReader ⟨hTarget, hHead, ?_⟩
    intro name hMem
    rw [List.mem_singleton.mp hMem]
    exact hToken.isName hTerminal
  · apply isSpelled_emit hReader
    apply Target.isSpelled_complete hTarget
    refine ⟨hHead, ?_⟩
    intro name hMem
    cases hMem

theorem isSpelled_afterTerm
    {reader next : Reader}
    {target : Target}
    {head : FullName}
    {state : TermState}
    {token : Token}
    (hToken : token.IsLexeme)
    (hReader : reader.IsSpelled)
    (hTarget : target.IsSpelled)
    (hHead : head.IsSpelled)
    (hState : state.IsSpelled)
    (hNext :
      reader.afterTerm target head state token =
        some next) :
    next.IsSpelled := by
  unfold afterTerm at hNext
  split at hNext
  · rename_i after hAfter
    cases hNext
    exact isSpelled_goto hReader
      ⟨hTarget, hHead,
        TermState.isSpelled_step hToken hState hAfter⟩
  · split at hNext
    · rename_i term hTerminal hTerm
      cases hNext
      exact isSpelled_goto hReader
        ⟨hTarget, hHead,
          TermState.isSpelled_term hState hTerm⟩
    · cases hNext

/- A step on a lexeme adds nothing but lexemes. -/
theorem isSpelled_step
    {reader next : Reader}
    {token : Token}
    (hToken : token.IsLexeme)
    (hReader : reader.IsSpelled)
    (hStep : reader.step token = some next) :
    next.IsSpelled := by
  have hPlace := hReader.place
  have hName := hToken.isName
  unfold step at hStep
  split at hStep
  case h_30 => cases hStep
  all_goals
    rename reader.place = _ => hAt
    rw [hAt] at hPlace
  case h_1 hTerminal =>
      cases hStep
      rw [Token.IsLexeme, hTerminal] at hToken
      exact isSpelled_emit hReader hToken
  case h_2 hTerminal =>
      cases hStep
      exact isSpelled_goto hReader (hName hTerminal)
  case h_3 position name hTerminal =>
      cases hStep
      exact isSpelled_goto hReader hPlace
  case h_4 position name _ =>
      rcases Option.map_eq_some_iff.mp hStep with
        ⟨place, hAfter, rfl⟩
      exact isSpelled_goto hReader
        (Opening.isSpelled_afterName hToken
          (Opening.isSpelled_ofName position
            (FullName.isSpelled_simple hPlace)) hAfter)
  case h_5 position name hTerminal =>
      cases hStep
      exact isSpelled_goto hReader
        (FullName.isSpelled_qualified hPlace
          (hName hTerminal))
  case h_6 position name =>
      rcases Option.map_eq_some_iff.mp hStep with
        ⟨place, hAfter, rfl⟩
      exact isSpelled_goto hReader
        (Opening.isSpelled_afterName hToken
          (Opening.isSpelled_ofName position hPlace) hAfter)
  case h_7 opening =>
      rcases Option.map_eq_some_iff.mp hStep with
        ⟨place, hAfter, rfl⟩
      exact isSpelled_goto hReader
        (Opening.isSpelled_afterTypeParams hToken hPlace
          hAfter)
  case h_8 opening =>
      rcases Option.map_eq_some_iff.mp hStep with
        ⟨place, hAfter, rfl⟩
      exact isSpelled_goto hReader
        (Opening.isSpelled_afterParams hToken hPlace hAfter)
  case h_9 opening hTerminal =>
      cases hStep
      exact isSpelled_goto hReader
        ⟨hPlace, hName hTerminal⟩
  case h_10 opening name hTerminal =>
      cases hStep
      exact isSpelled_goto hReader hPlace
  case h_11 opening name hTerminal =>
      cases hStep
      exact isSpelled_goto hReader
        ⟨hPlace.1, hPlace.2, hName hTerminal⟩
  case h_12 opening param hTerminal =>
      cases hStep
      exact isSpelled_goto hReader
        (Opening.isSpelled_addTypeParam hPlace.1 hPlace.2)
  case h_13 opening hTerminal =>
      cases hStep
      refine isSpelled_goto hReader ⟨hPlace, ?_⟩
      intro name hMem
      rw [List.mem_singleton.mp hMem]
      exact hName hTerminal
  case h_14 opening hTerminal =>
      cases hStep
      apply isSpelled_goto hReader
      apply Opening.isSpelled_addParam hPlace
      intro name hMem
      cases hMem
  case h_15 opening names hTerminal =>
      cases hStep
      exact isSpelled_goto hReader
        ⟨hPlace.1, isName_append hPlace.2 (hName hTerminal)⟩
  case h_16 opening names hTerminal =>
      cases hStep
      exact isSpelled_goto hReader
        (Opening.isSpelled_addParam hPlace.1 hPlace.2)
  case h_17 opening name hTerminal =>
      cases hStep
      exact isSpelled_goto hReader hPlace
  case h_18 opening name hTerminal =>
      cases hStep
      exact isSpelled_goto hReader
        (Opening.isSpelled_addParam hPlace.1 hPlace.2)
  case h_19 opening name hTerminal =>
      cases hStep
      rw [Token.IsLexeme, hTerminal] at hToken
      exact isSpelled_goto hReader
        (Opening.isSpelled_addParam hPlace.1
          ⟨hPlace.2, hToken⟩)
  case h_20 name hTerminal =>
      cases hStep
      exact isSpelled_goto hReader hPlace
  case h_21 target hTerminal =>
      cases hStep
      exact isSpelled_goto hReader
        ⟨hPlace, hName hTerminal⟩
  case h_22 target name hTerminal =>
      cases hStep
      exact isSpelled_goto hReader hPlace
  case h_23 target name _ =>
      exact isSpelled_afterHead hToken hReader hPlace.1
        (FullName.isSpelled_simple hPlace.2) hStep
  case h_24 target name hTerminal =>
      cases hStep
      exact isSpelled_goto hReader
        ⟨hPlace.1, FullName.isSpelled_qualified hPlace.2
          (hName hTerminal)⟩
  case h_25 target head =>
      exact isSpelled_afterHead hToken hReader hPlace.1
        hPlace.2 hStep
  case h_26 target head arguments hTerminal =>
      cases hStep
      exact isSpelled_goto hReader
        ⟨hPlace.1, hPlace.2.1,
          isName_append hPlace.2.2 (hName hTerminal)⟩
  case h_27 target head arguments hTerminal =>
      cases hStep
      exact isSpelled_emit hReader
        (Target.isSpelled_complete hPlace.1 hPlace.2)
  case h_28 target head state =>
      exact isSpelled_afterTerm hToken hReader hPlace.1
        hPlace.2.1 hPlace.2.2 hStep
  case h_29 target head argument hTerminal =>
      cases hStep
      exact isSpelled_emit hReader
        (Target.isSpelled_complete hPlace.1 hPlace.2)

end Reader

/- The items of a schema are made of lexemes. -/
theorem Item.isSpelled_of_parse
    {text : String}
    {items : List Item}
    (hParse : Item.parse text = .ok items) :
    ∀ item ∈ items, item.IsSpelled := by
  rcases Automaton.read_invariant
      (fun _ _ _ => Reader.isSpelled_step)
      Reader.isSpelled_start hParse with
    ⟨reader, hReader, hFinish⟩
  change reader.finish = some items at hFinish
  unfold Reader.finish at hFinish
  split at hFinish
  · cases hFinish
    exact hReader.items
  · cases hFinish

------------------------------------------------------------
-- Wire Types
------------------------------------------------------------

/- A wire type made of lexemes. -/
structure WireType.IsSpelled
    (wireType : WireType) :
    Prop where
  gate : ∀ gate, wireType.gate = some gate →
    IsName gate.field
  term : wireType.term.IsSpelled

/- A place in a wire type up to which all is made of
   lexemes. -/
def WirePlace.IsSpelled :
    WirePlace → Prop
  | .start => True
  | .first name => IsName name
  | .firstDot name => IsName name
  | .gateBit gate => IsName gate.field
  | .term gate state =>
      (∀ found, gate = some found → IsName found.field) ∧
        state.IsSpelled

namespace WirePlace

theorem isSpelled_ungated
    {state : TermState}
    (hState : state.IsSpelled) :
    (WirePlace.term none state).IsSpelled := by
  refine ⟨?_, hState⟩
  intro gate hGate
  cases hGate

theorem isSpelled_step
    {place next : WirePlace}
    {token : Token}
    (hToken : token.IsLexeme)
    (hPlace : place.IsSpelled)
    (hStep : place.step token = some next) :
    next.IsSpelled := by
  have hName := hToken.isName
  have hEmpty : ∀ keyword ∈ ([] : List String),
      IsName keyword := by
    intro keyword hMem
    cases hMem
  unfold step at hStep
  split at hStep
  case h_10 => cases hStep
  case h_9 gate state =>
      rcases Option.map_eq_some_iff.mp hStep with
        ⟨after, hAfter, rfl⟩
      exact ⟨hPlace.1,
        TermState.isSpelled_step hToken hPlace.2 hAfter⟩
  all_goals cases hStep
  case h_1 hTerminal =>
      exact isSpelled_ungated ⟨hEmpty, trivial⟩
  case h_2 hTerminal =>
      exact isSpelled_ungated ⟨hEmpty, trivial⟩
  case h_3 hTerminal => exact hName hTerminal
  case h_4 name hTerminal => exact hPlace
  case h_5 name hTerminal =>
      refine isSpelled_ungated ⟨?_, trivial⟩
      intro keyword hMem
      rw [List.mem_singleton.mp hMem]
      exact hPlace
  case h_6 name hTerminal => exact hPlace
  case h_7 name hTerminal =>
      exact isSpelled_ungated
        ⟨hEmpty, FullName.isSpelled_qualified hPlace
          (hName hTerminal)⟩
  case h_8 gate hTerminal =>
      refine ⟨?_, TermState.isSpelled_start⟩
      intro found hFound
      cases hFound
      exact hPlace

theorem isSpelled_finish
    {place : WirePlace}
    {wireType : WireType}
    (hPlace : place.IsSpelled)
    (hFinish : place.finish = some wireType) :
    wireType.IsSpelled := by
  unfold finish at hFinish
  split at hFinish
  · cases hFinish
    refine ⟨?_, FullName.isSpelled_simple hPlace⟩
    intro gate hGate
    cases hGate
  · rcases Option.map_eq_some_iff.mp hFinish with
      ⟨term, hTerm, rfl⟩
    exact ⟨hPlace.1,
      TermState.isSpelled_term hPlace.2 hTerm⟩
  · cases hFinish

end WirePlace

/- A wire type that is read is made of lexemes. -/
theorem WireType.isSpelled_of_parse
    {text : String}
    {wireType : WireType}
    (hParse : WireType.parse text = .ok wireType) :
    wireType.IsSpelled := by
  have hStart : WirePlace.start.IsSpelled := trivial
  rcases Automaton.read_invariant
      (fun _ _ _ => WirePlace.isSpelled_step)
      hStart hParse with
    ⟨place, hPlace, hFinish⟩
  exact WirePlace.isSpelled_finish hPlace hFinish

end WireSchema
