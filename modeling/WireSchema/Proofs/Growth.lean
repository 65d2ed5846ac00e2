import WireSchema.Proofs.Relocation
import WireSchema.Proofs.Section

/-
  What has been read stays read.

  A reader only adds to the items before its place, and to the
  params of the combinator that it is in.  So a param that has
  been read is found in the record of its combinator, at its
  own index, whatever follows.

  Main declarations:
    * `Reader.Keeps`
    * `Reader.keeps_step`
    * `Item.exists_of_run_listed`
    * `Record.exists_of_run_typed`
-/

namespace WireSchema

------------------------------------------------------------
-- Openings
------------------------------------------------------------

/- The combinator whose result is being read. -/
def Target.opening? :
    Target → Option Opening
  | .builtin _ => none
  | .combinator opening => some opening

/- The combinator that a place lies in, once it is known to be
   one. -/
def Place.opening? :
    Place → Option Opening
  | .opened opening => some opening
  | .listed opening => some opening
  | .typeParamOpen opening => some opening
  | .typeParamName opening _ => some opening
  | .typeParamColon opening _ => some opening
  | .typeParamKind opening _ => some opening
  | .repeatOpen opening => some opening
  | .repeatNames opening _ => some opening
  | .paramName opening _ => some opening
  | .paramColon opening _ => some opening
  | .resultStart target => target.opening?
  | .resultName target _ => target.opening?
  | .resultDot target _ => target.opening?
  | .resultFull target _ => target.opening?
  | .resultArguments target _ _ => target.opening?
  | .resultTerm target _ _ => target.opening?
  | .resultClosed target _ _ => target.opening?
  | _ => none

/- Wire types are looked for in one kind of place only. -/
theorem Place.exists_paramColon_of_wireType
    {place : Place}
    (hWire : .wireType ∈ place.expects) :
    ∃ opening name, place = .paramColon opening name := by
  cases place with
  | paramColon opening name => exact ⟨opening, name, rfl⟩
  | resultTerm target head state =>
      rcases state with ⟨keywords, inner⟩
      cases inner <;>
        simp [Place.expects, TermPlace.expects, afterNamePart,
          afterFullName] at hWire
  | _ =>
      simp [Place.expects, afterNamePart, afterFullName]
        at hWire

/- A token is taken where it is looked for. -/
theorem Item.takes_of_mem
    {reader : Reader}
    {lexeme : Lexeme}
    {rest : List Char}
    (hMem : lexeme.terminal ∈ reader.place.expects)
    (hText : lexeme.terminal.IsLexeme lexeme.text)
    (hRest : Terminal.Heads
      (fun c => lexeme.terminal.goesOn c = false) rest) :
    automaton.Takes reader lexeme rest := by
  apply Terminal.select_of_isLexeme hMem _ hText hRest
  intro hWire
  rcases Place.exists_paramColon_of_wireType hWire with
    ⟨opening, name, hPlace⟩
  rw [hPlace] at hMem
  change lexeme.terminal ∈ [Terminal.hash, .wireType] at hMem
  simp only [List.mem_cons, List.not_mem_nil, or_false]
    at hMem
  exact hMem.symm

/- A place in a combinator whose params start with those of an
   opening. -/
def Place.Extends
    (opening : Opening)
    (place : Place) :
    Prop :=
  ∃ other, place.opening? = some other ∧
    opening.params <+: other.params

namespace Opening

theorem extends_afterParams
    {opening : Opening}
    {token : Token}
    {place : Place}
    (hPlace : opening.afterParams token = some place) :
    place.Extends opening := by
  unfold afterParams at hPlace
  split at hPlace <;> cases hPlace
  · exact ⟨opening, rfl, List.prefix_rfl⟩
  · exact ⟨_, rfl, List.prefix_append _ _⟩
  · exact ⟨opening, rfl, List.prefix_rfl⟩
  · exact ⟨opening, rfl, List.prefix_rfl⟩

theorem extends_afterTypeParams
    {opening : Opening}
    {token : Token}
    {place : Place}
    (hPlace : opening.afterTypeParams token = some place) :
    place.Extends opening := by
  unfold afterTypeParams at hPlace
  split at hPlace
  · cases hPlace
    exact ⟨opening, rfl, List.prefix_rfl⟩
  · exact extends_afterParams hPlace

end Opening

------------------------------------------------------------
-- Steps
------------------------------------------------------------

namespace Reader

/- All that a step can do: it goes on in the current item, or
   ends it.  If that is a combinator, its params are kept. -/
inductive Grows
    (reader : Reader) :
    Reader → Prop where
  | goto
      {place : Place}
      (hPlace : ∀ opening,
        reader.place.opening? = some opening →
          place.Extends opening) :
      Grows reader (reader.goto place)
  | emit
      {item : Item}
      (hItem : ∀ opening,
        reader.place.opening? = some opening →
          ∃ result, item = .combinator ⟨opening, result⟩) :
      Grows reader (reader.emit item)

theorem grows_complete
    {reader : Reader}
    {target : Target}
    (hTarget : reader.place.opening? = target.opening?)
    (result : ResultItem) :
    reader.Grows (reader.emit (target.complete result)) := by
  refine .emit ?_
  rw [hTarget]
  intro opening hOpening
  cases target with
  | builtin name => cases hOpening
  | combinator other =>
      cases hOpening
      exact ⟨result, rfl⟩

theorem grows_goto
    {reader : Reader}
    {place : Place}
    (hSame : place.opening? = reader.place.opening?) :
    reader.Grows (reader.goto place) := by
  refine .goto ?_
  intro opening hOpening
  exact ⟨opening, hSame.trans hOpening, List.prefix_rfl⟩

theorem grows_afterHead
    {reader next : Reader}
    {target : Target}
    {head : FullName}
    {token : Token}
    (hTarget : reader.place.opening? = target.opening?)
    (hStep : reader.afterHead target head token = some next) :
    reader.Grows next := by
  unfold afterHead at hStep
  split at hStep <;> cases hStep
  · exact grows_goto hTarget.symm
  · exact grows_goto hTarget.symm
  · exact grows_complete hTarget _

theorem grows_afterTerm
    {reader next : Reader}
    {target : Target}
    {head : FullName}
    {state : TermState}
    {token : Token}
    (hTarget : reader.place.opening? = target.opening?)
    (hStep :
      reader.afterTerm target head state token = some next) :
    reader.Grows next := by
  unfold afterTerm at hStep
  split at hStep
  · cases hStep
    exact grows_goto hTarget.symm
  · split at hStep <;> cases hStep
    exact grows_goto hTarget.symm

theorem grows_outside
    {reader : Reader}
    (hOutside : reader.place.opening? = none)
    (place : Place) :
    reader.Grows (reader.goto place) := by
  refine .goto ?_
  rw [hOutside]
  intro opening hOpening
  cases hOpening

theorem grows_of_extends
    {reader : Reader}
    {opening : Opening}
    {place : Place}
    (hOpening : reader.place.opening? = some opening)
    (hPlace : place.Extends opening) :
    reader.Grows (reader.goto place) := by
  refine .goto ?_
  rw [hOpening]
  intro other hOther
  cases hOther
  exact hPlace

theorem grows_addParam
    {reader : Reader}
    {opening : Opening}
    (hOpening : reader.place.opening? = some opening)
    (param : ParamItem) :
    reader.Grows
      (reader.goto (.listed (opening.addParam param))) :=
  grows_of_extends hOpening
    ⟨_, rfl, List.prefix_append _ _⟩

/- Every step grows the reader. -/
theorem grows_step
    {reader next : Reader}
    {token : Token}
    (hStep : reader.step token = some next) :
    reader.Grows next := by
  rcases reader with ⟨items, place⟩
  rcases token with ⟨terminal, text, position⟩
  unfold step at hStep
  dsimp only at hStep
  split at hStep
  -- behind the head and in the argument of a result
  case h_23 => exact grows_afterHead rfl hStep
  case h_25 => exact grows_afterHead rfl hStep
  case h_28 => exact grows_afterTerm rfl hStep
  -- among the params
  case h_7 opening =>
      rcases Option.map_eq_some_iff.mp hStep with
        ⟨place, hPlace, rfl⟩
      exact grows_of_extends rfl
        (Opening.extends_afterTypeParams hPlace)
  case h_8 opening =>
      rcases Option.map_eq_some_iff.mp hStep with
        ⟨place, hPlace, rfl⟩
      exact grows_of_extends rfl
        (Opening.extends_afterParams hPlace)
  -- behind the name
  case h_4 =>
      rcases Option.map_eq_some_iff.mp hStep with
        ⟨place, -, rfl⟩
      exact grows_outside rfl place
  case h_6 =>
      rcases Option.map_eq_some_iff.mp hStep with
        ⟨place, -, rfl⟩
      exact grows_outside rfl place
  all_goals cases hStep
  case h_1 =>
      refine .emit ?_
      intro opening hOpening
      cases hOpening
  case h_27 => exact grows_complete rfl _
  case h_29 => exact grows_complete rfl _
  case h_12 =>
      exact grows_of_extends rfl ⟨_, rfl, List.prefix_rfl⟩
  case h_14 => exact grows_addParam rfl _
  case h_16 => exact grows_addParam rfl _
  case h_18 => exact grows_addParam rfl _
  case h_19 => exact grows_addParam rfl _
  all_goals exact grows_goto rfl

------------------------------------------------------------
-- Runs
------------------------------------------------------------

/- A reader behind some items that is in a combinator with some
   first params, or behind one. -/
def Keeps
    (items : List Item)
    (params : List ParamItem)
    (reader : Reader) :
    Prop :=
  (reader.items = items ∧
    ∃ opening, reader.place.opening? = some opening ∧
      params <+: opening.params) ∨
    ∃ declared later,
      reader.items = items ++ .combinator declared :: later ∧
        params <+: declared.params

theorem keeps_step
    {items : List Item}
    {params : List ParamItem}
    {reader next : Reader}
    {token : Token}
    (hKeeps : reader.Keeps items params)
    (hStep : reader.step token = some next) :
    next.Keeps items params := by
  rcases hKeeps with ⟨hItems, opening, hOpening, hParams⟩ |
    ⟨declared, later, hItems, hParams⟩
  · cases grows_step hStep with
    | goto hPlace =>
        rcases hPlace opening hOpening with
          ⟨other, hOther, hMore⟩
        exact .inl ⟨hItems, other, hOther, hParams.trans hMore⟩
    | emit hItem =>
        rcases hItem opening hOpening with ⟨result, rfl⟩
        refine .inr ⟨⟨opening, result⟩, [], ?_, hParams⟩
        rw [emit, hItems]
  · cases grows_step hStep with
    | goto hPlace =>
        exact .inr ⟨declared, later, hItems, hParams⟩
    | @emit item hItem =>
        refine .inr ⟨declared, later ++ [item], ?_, hParams⟩
        rw [emit, hItems, List.append_assoc, List.cons_append]

end Reader

/- The combinator that a run starts in is found among its
   items. -/
theorem Item.exists_of_run_listed
    {items read : List Item}
    {opening : Opening}
    {last position finish : Position}
    {text : List Char}
    (hRun : automaton.run ⟨items, .listed opening⟩ last
      position text = .ok (⟨read, .item⟩, finish)) :
    ∃ declared later,
      read = items ++ .combinator declared :: later ∧
        opening.params <+: declared.params := by
  have hStart : Reader.Keeps items opening.params
      ⟨items, .listed opening⟩ :=
    .inl ⟨rfl, opening, rfl, List.prefix_rfl⟩
  have hEnd := Automaton.run_invariant
    (fun _ _ _ _ => Reader.keeps_step) hStart hRun
  rcases hEnd with ⟨-, other, hOther, -⟩ | hFound
  · cases hOther
  · exact hFound

namespace Record

/- The record of a combinator among items stands behind the
   records of the items before it. -/
theorem exists_of_ofItems
    {items later : List Item}
    {combinator : Combinator}
    {records : List Record}
    (hRecords : ofItems (items ++ .combinator combinator ::
      later) = .ok records) :
    ∃ front record back, ofItems items = .ok front ∧
      records = front ++ record :: back ∧
      record.params = combinator.params.map fun param =>
        ⟨param.name, param.wireType⟩ := by
  unfold ofItems at hRecords
  rw [ofItemsFrom_append] at hRecords
  rcases Outcome.bind_eq_ok_iff.mp hRecords with
    ⟨front, hFront, hMap⟩
  rcases Outcome.map_eq_ok_iff.mp hMap with
    ⟨others, hOthers, rfl⟩
  rw [ofItemsFrom_combinator] at hOthers
  rcases Outcome.bind_eq_ok_iff.mp hOthers with
    ⟨record, hRecord, hBack⟩
  rcases Outcome.map_eq_ok_iff.mp hBack with ⟨back, -, rfl⟩
  rcases ofCombinator_eq_ok_iff.mp hRecord with
    ⟨-, tag, -, rfl⟩
  exact ⟨front, _, back, hFront, rfl, rfl⟩

/- A typed param that has been read is a param of the record
   that comes next. -/
theorem exists_of_run_typed
    {items read : List Item}
    {records : List Record}
    {opening : Opening}
    {name wireType : String}
    {last position finish : Position}
    {text : List Char}
    (hRun : Item.automaton.run
      ⟨items, .listed
        (opening.addParam (.typed name wireType))⟩
      last position text = .ok (⟨read, .item⟩, finish))
    (hRecords : ofItems read = .ok records) :
    ∃ front record back, ofItems items = .ok front ∧
      records = front ++ record :: back ∧
      record.params[opening.params.length]? =
        some ⟨name, wireType⟩ := by
  rcases Item.exists_of_run_listed hRun with
    ⟨combinator, later, rfl, more, hMore⟩
  rcases exists_of_ofItems hRecords with
    ⟨front, record, back, hFront, hAll, hParams⟩
  refine ⟨front, record, back, hFront, hAll, ?_⟩
  rw [hParams, ← hMore]
  simp [Opening.addParam, ParamItem.name, ParamItem.wireType]

end Record

end WireSchema
