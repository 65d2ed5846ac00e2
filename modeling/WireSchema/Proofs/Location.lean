import WireSchema.Proofs.Comment
import WireSchema.Proofs.Record

/-
  Where the records of a schema stand in its text.

  A reader notes the place of a name wherever an item starts,
  and carries it along to the end of the item.  So the places
  of records are those of names among the lexemes of the text,
  in the order of the text, and none lies in a comment.  The
  line and the column of a place are told by the line feeds
  before it, whatever they stand in.

  Main declarations:
    * `Position.behind`
    * `Position.Precedes`
    * `Lexeme.names`
    * `Reader.starts_step`
    * `Item.starts_of_reads`
    * `Record.StandsAt`
    * `Schema.standsAt_of_parse`
-/

namespace WireSchema

------------------------------------------------------------
-- Lines and Columns
------------------------------------------------------------

namespace Position

/- The place behind a text: one line for each line feed in it,
   and one column for each character behind the last. -/
def behind
    (before : List Char) :
    Position :=
  ⟨1 + before.count '\n',
    1 + (before.reverse.takeWhile (· != '\n')).length⟩

/- One place stands before another in a text. -/
def Precedes
    (first second : Position) :
    Prop :=
  first.line < second.line ∨
    (first.line = second.line ∧ first.column < second.column)

instance
    (first second : Position) :
    Decidable (first.Precedes second) := by
  unfold Precedes
  infer_instance

theorem Precedes.trans
    {first second third : Position}
    (hFirst : first.Precedes second)
    (hSecond : second.Precedes third) :
    first.Precedes third := by
  unfold Precedes at hFirst hSecond ⊢
  omega

theorem precedes_next
    (position : Position)
    (c : Char) :
    position.Precedes (position.next c) := by
  unfold Precedes next
  split
  · exact .inl (Nat.lt_succ_self _)
  · exact .inr ⟨rfl, Nat.lt_succ_self _⟩

theorem precedes_advance
    (position : Position)
    {cs : List Char}
    (hSome : cs ≠ []) :
    position.Precedes (position.advance cs) := by
  induction cs generalizing position with
  | nil => exact absurd rfl hSome
  | cons c cs ih =>
      have hNext := precedes_next position c
      by_cases hRest : cs = []
      · rw [hRest]
        exact hNext
      · exact hNext.trans (ih (position.next c) hRest)

end Position

------------------------------------------------------------
-- Names Where They Stand
------------------------------------------------------------

namespace Lexeme

/- A name with its place; nothing for other lexemes. -/
def nameAt
    (position : Position)
    (lexeme : Lexeme) :
    List (Position × String) :=
  if lexeme.terminal = .name then [(position, lexeme.text)]
  else []

/- The names among lexemes, each with its place. -/
def names :
    Position → List Lexeme → List (Position × String)
  | _, [] => []
  | position, lexeme :: lexemes =>
      nameAt position lexeme ++
        names (position.advance lexeme.chars) lexemes

theorem exists_of_mem_names
    {position place : Position}
    {name : String}
    {lexemes : List Lexeme}
    (hMem : (place, name) ∈ names position lexemes) :
    ∃ earlier later,
      lexemes = earlier ++ ⟨.name, name⟩ :: later ∧
        place = position.advance (spell earlier) := by
  induction lexemes generalizing position with
  | nil => cases hMem
  | cons lexeme lexemes ih =>
      rcases List.mem_append.mp hMem with hHere | hLater
      · rcases lexeme with ⟨terminal, text⟩
        unfold nameAt at hHere
        split at hHere
        · rename_i hName
          cases hName
          cases List.mem_singleton.mp hHere
          exact ⟨[], lexemes, rfl, rfl⟩
        · cases hHere
      · rcases ih hLater with ⟨earlier, later, rfl, rfl⟩
        refine ⟨lexeme :: earlier, later, rfl, ?_⟩
        rw [spell_cons, Position.advance_append]

/- The places of names come in the order of the text. -/
theorem pairwise_names
    (position : Position)
    {lexemes : List Lexeme}
    (hSome : ∀ lexeme ∈ lexemes, lexeme.chars ≠ []) :
    (names position lexemes).Pairwise fun first second =>
      first.1.Precedes second.1 := by
  induction lexemes generalizing position with
  | nil => exact List.Pairwise.nil
  | cons lexeme lexemes ih =>
      rcases List.forall_mem_cons.mp hSome with ⟨hFirst, hRest⟩
      refine List.pairwise_append.mpr ⟨?_, ih _ hRest, ?_⟩
      · unfold nameAt
        split
        · exact List.pairwise_singleton _ _
        · exact List.Pairwise.nil
      · intro here hHere there hThere
        have hPlace : here.1 = position := by
          unfold nameAt at hHere
          split at hHere
          · rw [List.mem_singleton.mp hHere]
          · cases hHere
        rcases exists_of_mem_names hThere with
          ⟨earlier, later, -, hLater⟩
        rw [hPlace, hLater, ← Position.advance_append]
        exact position.precedes_advance
          (List.append_ne_nil_of_left_ne_nil hFirst _)

end Lexeme

------------------------------------------------------------
-- Starts of Items
------------------------------------------------------------

/- The first part of a name. -/
def FullName.first
    (name : FullName) :
    String :=
  name.space.getD name.member

/- The place of a combinator and the name that stands there. -/
def Opening.start
    (opening : Opening) :
    Position × String :=
  (opening.position, opening.name.first)

/- The start of the item that a place lies in, unless the item
   has been seen to declare a builtin type. -/
def Place.start? :
    Place → Option (Position × String)
  | .head position name => some (position, name)
  | .headDot position name => some (position, name)
  | .headFull position name => some (position, name.first)
  | place => place.opening?.map Opening.start

/- The start of a combinator. -/
def Item.start? :
    Item → Option (Position × String)
  | .combinator declared => some declared.start
  | _ => none

namespace Opening

theorem start?_afterParams
    {opening : Opening}
    {token : Token}
    {place : Place}
    (hPlace : opening.afterParams token = some place) :
    place.start? = some opening.start := by
  unfold afterParams at hPlace
  split at hPlace <;> cases hPlace <;> rfl

theorem start?_afterTypeParams
    {opening : Opening}
    {token : Token}
    {place : Place}
    (hPlace : opening.afterTypeParams token = some place) :
    place.start? = some opening.start := by
  unfold afterTypeParams at hPlace
  split at hPlace
  · cases hPlace
    rfl
  · exact start?_afterParams hPlace

/- Behind its name an item goes on from its start, or turns out
   to declare a builtin type. -/
theorem start?_afterName
    {opening : Opening}
    {token : Token}
    {place : Place}
    (hPlace : opening.afterName token = some place) :
    place.start? = some opening.start ∨
      place.start? = none := by
  unfold afterName at hPlace
  split at hPlace
  · cases hPlace
    exact .inr rfl
  · cases hPlace
    exact .inl rfl
  · exact .inl (start?_afterTypeParams hPlace)

end Opening

theorem Target.start?_complete
    (target : Target)
    (result : ResultItem) :
    (target.complete result).start? =
      target.opening?.map Opening.start := by
  cases target <;> rfl

namespace Reader

/- The starts of the combinators that have been read, and of
   the item being read. -/
def starts
    (reader : Reader) :
    List (Position × String) :=
  reader.items.filterMap Item.start? ++
    reader.place.start?.toList

theorem starts_item
    (items : List Item) :
    starts ⟨items, .item⟩ = items.filterMap Item.start? :=
  List.append_nil _

variable {reader next : Reader}
variable {names : List (Position × String)}

theorem starts_goto
    {place : Place}
    (hPlace : place.start?.toList.Sublist
      (reader.place.start?.toList ++ names)) :
    (reader.goto place).starts.Sublist
      (reader.starts ++ names) := by
  unfold starts
  rw [List.append_assoc]
  exact (List.Sublist.refl _).append hPlace

theorem starts_goto_same
    {place : Place}
    (hSame : place.start? = reader.place.start?) :
    (reader.goto place).starts.Sublist
      (reader.starts ++ names) := by
  apply starts_goto
  rw [hSame]
  exact List.sublist_append_left _ _

theorem starts_goto_builtin
    {place : Place}
    (hNone : place.start? = none) :
    (reader.goto place).starts.Sublist
      (reader.starts ++ names) := by
  apply starts_goto
  rw [hNone]
  exact List.nil_sublist _

theorem starts_emit
    {item : Item}
    (hItem : item.start? = reader.place.start? ∨
      item.start? = none) :
    (reader.emit item).starts.Sublist
      (reader.starts ++ names) := by
  have hLast : item.start?.toList.Sublist
      (reader.place.start?.toList ++ names) := by
    rcases hItem with hSame | hNone
    · rw [hSame]
      exact List.sublist_append_left _ _
    · rw [hNone]
      exact List.nil_sublist _
  have hItems : (reader.emit item).starts =
      reader.items.filterMap Item.start? ++
        item.start?.toList := by
    simp [starts, emit, Place.start?, Place.opening?,
      List.filterMap_cons]
    cases item.start? <;> rfl
  rw [hItems, starts, List.append_assoc]
  exact (List.Sublist.refl _).append hLast

theorem starts_complete
    {target : Target}
    (hTarget : reader.place.start? =
      target.opening?.map Opening.start)
    (result : ResultItem) :
    (reader.emit (target.complete result)).starts.Sublist
      (reader.starts ++ names) := by
  apply starts_emit
  left
  rw [target.start?_complete, hTarget]

theorem starts_afterHead
    {target : Target}
    {head : FullName}
    {token : Token}
    (hTarget : reader.place.start? =
      target.opening?.map Opening.start)
    (hStep : reader.afterHead target head token = some next) :
    next.starts.Sublist (reader.starts ++ names) := by
  unfold afterHead at hStep
  split at hStep <;> cases hStep
  · exact starts_goto_same hTarget.symm
  · exact starts_goto_same hTarget.symm
  · exact starts_complete hTarget _

theorem starts_afterTerm
    {target : Target}
    {head : FullName}
    {state : TermState}
    {token : Token}
    (hTarget : reader.place.start? =
      target.opening?.map Opening.start)
    (hStep :
      reader.afterTerm target head state token = some next) :
    next.starts.Sublist (reader.starts ++ names) := by
  unfold afterTerm at hStep
  split at hStep
  · cases hStep
    exact starts_goto_same hTarget.symm
  · split at hStep <;> cases hStep
    exact starts_goto_same hTarget.symm

theorem starts_afterName
    {opening : Opening}
    {token : Token}
    (hStart : reader.place.start? = some opening.start)
    (hStep : (opening.afterName token).map reader.goto =
      some next) :
    next.starts.Sublist (reader.starts ++ names) := by
  rcases Option.map_eq_some_iff.mp hStep with
    ⟨place, hPlace, rfl⟩
  rcases Opening.start?_afterName hPlace with hSame | hNone
  · exact starts_goto_same (hSame.trans hStart.symm)
  · exact starts_goto_builtin hNone

/- A step carries the starts along.  The only new one is that of
   a name at the start of an item. -/
theorem starts_step
    {lexeme : Lexeme}
    {position : Position}
    (hStep : reader.step (lexeme.token position) =
      some next) :
    next.starts.Sublist
      (reader.starts ++ lexeme.nameAt position) := by
  rcases reader with ⟨items, place⟩
  rcases lexeme with ⟨terminal, text⟩
  unfold step Lexeme.token at hStep
  dsimp only at hStep
  split at hStep
  -- behind the head and in the argument of a result
  case h_23 => exact starts_afterHead rfl hStep
  case h_25 => exact starts_afterHead rfl hStep
  case h_28 => exact starts_afterTerm rfl hStep
  -- among the params
  case h_7 opening =>
      rcases Option.map_eq_some_iff.mp hStep with
        ⟨place, hPlace, rfl⟩
      exact starts_goto_same
        (Opening.start?_afterTypeParams hPlace)
  case h_8 opening =>
      rcases Option.map_eq_some_iff.mp hStep with
        ⟨place, hPlace, rfl⟩
      exact starts_goto_same
        (Opening.start?_afterParams hPlace)
  -- behind the name
  case h_4 => exact starts_afterName rfl hStep
  case h_6 => exact starts_afterName rfl hStep
  all_goals cases hStep
  case h_1 => exact starts_emit (.inr rfl)
  case h_2 => exact starts_goto (List.Sublist.refl _)
  case h_27 => exact starts_complete rfl _
  case h_29 => exact starts_complete rfl _
  all_goals exact starts_goto_same rfl

/- No item ends with a name. -/
theorem place_ne_item_of_name
    {text : String}
    {position : Position}
    (hStep : reader.step ⟨.name, text, position⟩ =
      some next) :
    next.place ≠ .item := by
  rcases reader with ⟨items, place⟩
  intro hItem
  cases place with
  | resultTerm target name state =>
      change afterTerm _ target name state _ = some next
        at hStep
      unfold afterTerm at hStep
      split at hStep
      · cases hStep
        cases hItem
      · cases hStep
  | _ => cases hStep <;> cases hItem

end Reader

/- No lexeme that is read is empty. -/
theorem Automaton.Reads.forall_ne_nil
    {σ α : Type}
    {automaton : Automaton σ α}
    {rest : List Char}
    {state final : σ}
    {last position finish : Position}
    {lexemes : List Lexeme}
    (hReads : automaton.Reads rest state last position lexemes
      final finish) :
    ∀ lexeme ∈ lexemes, lexeme.chars ≠ [] := by
  induction hReads with
  | done state last position => exact List.forall_mem_nil _
  | next hTakes hPass hReads ih =>
      exact List.forall_mem_cons.mpr
        ⟨hTakes.chars_ne_nil, ih⟩

namespace Item

/- The starts behind lexemes are among those before them and the
   names that have been passed. -/
theorem starts_of_reads
    {rest : List Char}
    {reader final : Reader}
    {last position finish : Position}
    {lexemes : List Lexeme}
    (hReads : automaton.Reads rest reader last position lexemes
      final finish) :
    final.starts.Sublist
      (reader.starts ++ Lexeme.names position lexemes) := by
  induction hReads with
  | done reader last position =>
      rw [Lexeme.names, List.append_nil]
  | @next reader after final last place position finish lexeme
      lexemes hTakes hPass hReads ih =>
      have hAfter : after.starts.Sublist
          (reader.starts ++ lexeme.nameAt position) := by
        unfold Automaton.pass at hPass
        split at hPass
        · cases hPass
          exact List.sublist_append_left _ _
        · rcases Option.map_eq_some_iff.mp hPass with
            ⟨next, hStep, hNext⟩
          cases hNext
          exact Reader.starts_step hStep
      rw [Lexeme.names, ← List.append_assoc]
      exact ih.trans (hAfter.append (List.Sublist.refl _))

/- A name that has been read is followed by something, and not
   by a character of names. -/
theorem exists_behind_name
    {reader : Reader}
    {items : List Item}
    {last position finish : Position}
    {name : String}
    {later : List Lexeme}
    (hReads : automaton.Reads [] reader last position
      (⟨.name, name⟩ :: later) ⟨items, .item⟩ finish) :
    ∃ c rest, Lexeme.spell later = c :: rest ∧
      Terminal.inName c = false := by
  cases hReads with
  | next hTakes hPass hLater =>
      rw [List.append_nil] at hTakes
      have hExtent : Terminal.name.extent
          (name.toList ++ Lexeme.spell later) =
            name.toList.length :=
        hTakes.extent_eq
      have hEnds := Terminal.heads_of_extent (by decide)
        (by decide) hTakes.chars_ne_nil hExtent
      cases hSpell : Lexeme.spell later with
      | cons c rest =>
          rw [hSpell] at hEnds
          exact ⟨c, rest, rfl, hEnds c rfl⟩
      | nil =>
          cases hLater with
          | next hNext _ _ =>
              rw [Lexeme.spell_cons] at hSpell
              exact absurd
                (List.append_eq_nil_iff.mp hSpell).1
                hNext.chars_ne_nil
          | done =>
              rcases Option.map_eq_some_iff.mp hPass with
                ⟨next, hStep, hNext⟩
              cases hNext
              exact absurd rfl
                (Reader.place_ne_item_of_name hStep)

end Item

------------------------------------------------------------
-- Records
------------------------------------------------------------

/- The part of a name before its first point. -/
def Qualified.first
    (name : String) :
    String :=
  String.ofList (name.toList.takeWhile (· != '.'))

theorem Qualified.first_text
    {name : FullName}
    (hName : name.IsSpelled) :
    first name.text = name.first := by
  have hPart : ∀ {part : String}, IsName part →
      ∀ c ∈ part.toList, (c != '.') = true := by
    intro part hPart c hMem
    rw [bne_iff_ne]
    exact Terminal.ne_dot_of_inName (hPart.inName c hMem)
  rcases name with ⟨_ | space, member⟩
  · have hAll := hPart hName.member
    rw [first, FullName.text, List.takeWhile_eq_self_iff.mpr hAll,
      String.ofList_toList]
    rfl
  · have hAll := hPart (hName.space space rfl)
    rw [first, FullName.toList_text_qualified,
      List.takeWhile_append_of_pos hAll]
    simp [FullName.first]

namespace Record

/- The place of a record and the first part of its name. -/
def start
    (record : Record) :
    Position × String :=
  (record.position, Qualified.first record.name)

/- The records of items start where the combinators among them
   do. -/
theorem starts_of_ofItemsFrom
    {kind : RecordKind}
    {items : List Item}
    {records : List Record}
    (hItems : ∀ item ∈ items, item.IsSpelled)
    (hRecords : ofItemsFrom kind [] items = .ok records) :
    records.map start = items.filterMap Item.start? := by
  induction items generalizing kind records with
  | nil =>
      cases hRecords
      rfl
  | cons item items ih =>
      rcases List.forall_mem_cons.mp hItems with
        ⟨hItem, hRest⟩
      cases item with
      | marker text position =>
          rw [ofItemsFrom] at hRecords
          split at hRecords
          · exact ih hRest hRecords
          · cases hRecords
      | builtin name result => exact ih hRest hRecords
      | combinator combinator =>
          rw [ofItemsFrom_combinator] at hRecords
          rcases Outcome.bind_eq_ok_iff.mp hRecords with
            ⟨record, hRecord, hMap⟩
          rcases Outcome.map_eq_ok_iff.mp hMap with
            ⟨others, hOthers, rfl⟩
          rcases ofCombinator_eq_ok_iff.mp hRecord with
            ⟨-, tag, -, rfl⟩
          have hName : Qualified.first combinator.name.text =
              combinator.name.first :=
            Qualified.first_text hItem.opening.name
          rw [List.map_cons, ih hRest hOthers, start, declared,
            hName]
          rfl

/- A record stands behind a text: its place is the one there,
   where the first part of its name is read as a name, up to a
   character that is in no name. -/
structure StandsAt
    (text : String)
    (record : Record)
    (before after : List Char) :
    Prop where
  split : text.toList =
    before ++ ((Qualified.first record.name).toList ++ after)
  position : record.position = Position.behind before
  ends : ∃ c, after.head? = some c ∧
    Terminal.inName c = false
  lexeme : Lexeme.at? (Schema.lexemes text) before.length =
    some (⟨.name, Qualified.first record.name⟩, 0)

end Record

namespace Schema

/- The lexemes of a schema lead a reader through all of its
   text. -/
theorem exists_reads
    {text : String}
    {source : Option String}
    {schema : Schema}
    (hParse : parse text source = .ok schema) :
    ∃ items finish, Item.parse text = .ok items ∧
      Record.ofItems items = .ok schema.records ∧
      Lexeme.spell (lexemes text) = text.toList ∧
      Item.automaton.Reads [] Reader.start Position.start
        Position.start (lexemes text) ⟨items, .item⟩
        finish := by
  rcases parse_eq_ok_iff.mp hParse with
    ⟨items, hItems, hRecords, -⟩
  rcases Item.run_of_parse hItems with ⟨finish, hRun⟩
  have hReads := Automaton.reads_of_run hRun
  exact ⟨items, finish, hItems, hRecords, hReads.1, hReads.2⟩

/- Every record stands at its place in the text, and later
   records stand further on. -/
theorem standsAt_of_parse
    {text : String}
    {source : Option String}
    {schema : Schema}
    (hParse : parse text source = .ok schema) :
    (∀ record ∈ schema.records,
        ∃ before after, record.StandsAt text before after) ∧
      schema.records.Pairwise fun first second =>
        first.position.Precedes second.position := by
  rcases exists_reads hParse with
    ⟨items, finish, hItems, hRecords, hSpell, hReads⟩
  have hStarts : (schema.records.map Record.start).Sublist
      (Lexeme.names Position.start (lexemes text)) := by
    rw [Record.starts_of_ofItemsFrom
      (Item.isSpelled_of_parse hItems) hRecords]
    have hFound := Item.starts_of_reads hReads
    rw [Reader.start, Reader.starts_item, Reader.starts_item]
      at hFound
    exact hFound
  constructor
  · intro record hMem
    rcases Lexeme.exists_of_mem_names
      (hStarts.subset (List.mem_map_of_mem hMem)) with
      ⟨earlier, later, hLexemes, hPlace⟩
    rw [hLexemes] at hReads
    rcases hReads.split with ⟨middle, place, -, hRest⟩
    rcases Item.exists_behind_name hRest with
      ⟨c, after, hAfter, hEnds⟩
    have hName := List.length_pos_of_ne_nil
      hRest.ne_nil_of_cons
    refine ⟨Lexeme.spell earlier, Lexeme.spell later, ?_⟩
    exact
      { split := by
          rw [← hSpell, hLexemes, Lexeme.spell_append,
            Lexeme.spell_cons, Lexeme.chars]
        position := hPlace.trans (Position.advance_start _)
        ends := ⟨c, by rw [hAfter]; rfl, hEnds⟩
        lexeme := by
          rw [hLexemes]
          exact Lexeme.at?_append earlier later hName }
  · have hOrder := Lexeme.pairwise_names Position.start
      hReads.forall_ne_nil
    have hSorted := hOrder.sublist hStarts
    rw [List.pairwise_map] at hSorted
    exact hSorted

/- Two records behind a comment of two lines. -/
theorem standsAt_commented :
    ∃ schema,
      parse "/*\n*/ a.b#1 = X;//\r\n\tc = Y;" none =
        .ok schema ∧
      schema.records.map Record.start =
        [(⟨2, 4⟩, "a"), (⟨3, 2⟩, "c")] ∧
      (∀ record ∈ schema.records, ∃ before after,
        record.StandsAt "/*\n*/ a.b#1 = X;//\r\n\tc = Y;"
          before after) ∧
      schema.records.Pairwise fun first second =>
        first.position.Precedes second.position := by
  have hPasses : Outcome.passes
      (fun schema => schema.records.map Record.start =
        [(⟨2, 4⟩, "a"), (⟨3, 2⟩, "c")])
      (parse "/*\n*/ a.b#1 = X;//\r\n\tc = Y;" none) =
        true := by
    decide +kernel
  rcases Outcome.exists_of_passes hPasses with
    ⟨schema, hParse, hStarts⟩
  rcases standsAt_of_parse hParse with ⟨hStand, hOrder⟩
  exact ⟨schema, hParse, by simpa using hStarts, hStand, hOrder⟩

end Schema

end WireSchema
