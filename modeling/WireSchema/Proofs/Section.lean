import Mathlib.Data.List.Infix
import WireSchema.Proofs.Outcome
import WireSchema.Schema.Record

/-
  Records section by section.

  Items are turned into records one after another, and the only
  thing that passes from item to item is the section that is in
  force.  So the records of two lists of items are those of the
  first and then those of the second in the section that the
  first ends in.

  Main declarations:
    * `Record.sectionAfter`
    * `Record.ofItemsFrom_append`
    * `Record.ofItemsFrom_eq_ok_iff`
    * `Record.ofItemsFrom_withKind`
-/

namespace WireSchema

------------------------------------------------------------
-- Markers
------------------------------------------------------------

/- The section that an item starts. -/
def Item.section? :
    Item → Option RecordKind
  | .marker text _ => Record.sectionOf text
  | _ => none

def Item.isMarker :
    Item → Bool
  | .marker _ _ => true
  | _ => false

def Item.isCombinator :
    Item → Bool
  | .combinator _ => true
  | _ => false

def Item.combinator? :
    Item → Option Combinator
  | .combinator declared => some declared
  | _ => none

/- A marker of a known section, or no marker. -/
def Item.IsKnown
    (item : Item) :
    Prop :=
  item.isMarker = true → ∃ kind, item.section? = some kind

theorem Item.isKnown_marker
    {text : String}
    {position : Position} :
    IsKnown (.marker text position) ↔
      ∃ kind, Record.sectionOf text = some kind := by
  simp [IsKnown, isMarker, section?]

namespace Record

/- The section in force behind items: that of the last marker
   among them, or the one before them. -/
def sectionAfter
    (kind : RecordKind)
    (items : List Item) :
    RecordKind :=
  (items.filterMap Item.section?).getLast?.getD kind

@[simp]
theorem sectionAfter_nil
    (kind : RecordKind) :
    sectionAfter kind [] = kind :=
  rfl

theorem sectionAfter_cons
    (kind : RecordKind)
    (item : Item)
    (items : List Item) :
    sectionAfter kind (item :: items) =
      sectionAfter (item.section?.getD kind) items := by
  unfold sectionAfter
  cases hSection : item.section? with
  | none => rw [List.filterMap_cons_none hSection]; rfl
  | some next =>
      rw [List.filterMap_cons_some hSection,
        List.getLast?_cons]
      rfl

end Record

namespace Item

/- The combinators among items, each with the section that is
   in force behind the items before it. -/
def declarations
    (kind : RecordKind)
    (items : List Item) :
    List (RecordKind × Combinator) :=
  (items.inits.zip items).filterMap fun (before, item) =>
    item.combinator?.map fun declared =>
      (Record.sectionAfter kind before, declared)

@[simp]
theorem declarations_nil
    (kind : RecordKind) :
    declarations kind [] = [] :=
  rfl

theorem declarations_cons
    (kind : RecordKind)
    (item : Item)
    (items : List Item) :
    declarations kind (item :: items) =
      (item.combinator?.map fun declared =>
          (kind, declared)).toList ++
        declarations (item.section?.getD kind) items := by
  have hTail : (items.inits.map (item :: ·)).zip items =
      (items.inits.zip items).map
        fun (before, other) => (item :: before, other) := by
    rw [List.zip_map_left]
    rfl
  rw [declarations, List.inits_cons, List.zip_cons_cons, hTail,
    List.filterMap_cons, List.filterMap_map]
  simp only [Function.comp_def, Record.sectionAfter_cons,
    Record.sectionAfter_nil]
  cases item with
  | marker text position => rfl
  | builtin name result => rfl
  | combinator declared => rfl

theorem mem_of_mem_declarations
    {kind : RecordKind}
    {items : List Item}
    {declaration : RecordKind × Combinator}
    (hMem : declaration ∈ declarations kind items) :
    .combinator declaration.2 ∈ items := by
  rcases List.mem_filterMap.mp hMem with
    ⟨⟨before, item⟩, hPair, hSome⟩
  rcases Option.map_eq_some_iff.mp hSome with
    ⟨declared, hDeclared, rfl⟩
  have hItem := (List.of_mem_zip hPair).2
  cases item <;> cases hDeclared
  exact hItem

end Item

namespace Record

------------------------------------------------------------
-- Records of Items in Turn
------------------------------------------------------------

/- The record of a combinator with a tag. -/
def declared
    (kind : RecordKind)
    (tag : Int)
    (combinator : Combinator) :
    Record where
  tag := tag
  name := combinator.name.text
  resultType := combinator.result.text
  params := combinator.params.map fun param =>
    ⟨param.name, param.wireType⟩
  kind := kind
  typeParams := combinator.typeParams.map TypeParam.name
  position := combinator.position
  tagInferred := combinator.tag.isNone

theorem ofCombinator_eq_ok_iff
    {kind : RecordKind}
    {combinator : Combinator}
    {record : Record} :
    ofCombinator kind combinator = .ok record ↔
      firstRepeated [] (combinator.params.map ParamItem.name) =
          none ∧
        ∃ tag, tagOf combinator = .ok tag ∧
          record = declared kind tag combinator := by
  unfold ofCombinator
  cases tagOf combinator with
  | error fault => simp
  | ok tag =>
      simp only
      cases firstRepeated []
          (combinator.params.map ParamItem.name) with
      | some param => simp
      | none =>
          simp only [Except.ok.injEq, true_and,
            exists_eq_left']
          exact eq_comm

/- Records that were read before stand before those of the
   items. -/
theorem ofItemsFrom_eq_map
    (kind : RecordKind)
    (read : List Record)
    (items : List Item) :
    ofItemsFrom kind read items =
      (ofItemsFrom kind [] items).map (read.reverse ++ ·) := by
  induction items generalizing kind read with
  | nil => simp [ofItemsFrom, Except.map]
  | cons item items ih =>
      cases item with
      | marker marker position =>
          simp only [ofItemsFrom]
          cases sectionOf marker with
          | none => rfl
          | some next => exact ih next read
      | builtin name result => exact ih kind read
      | combinator declared =>
          simp only [ofItemsFrom]
          cases ofCombinator kind declared with
          | error fault => rfl
          | ok record =>
              simp only
              rw [ih kind (record :: read), ih kind [record]]
              cases ofItemsFrom kind [] items with
              | error fault => rfl
              | ok records => simp [Except.map]

theorem ofItemsFrom_combinator
    (kind : RecordKind)
    (combinator : Combinator)
    (items : List Item) :
    ofItemsFrom kind [] (.combinator combinator :: items) =
      ofCombinator kind combinator >>= fun record =>
        (ofItemsFrom kind [] items).map (record :: ·) := by
  rw [ofItemsFrom]
  cases ofCombinator kind combinator with
  | error fault => rfl
  | ok record => exact ofItemsFrom_eq_map kind [record] items

/- The records of two lists of items. -/
theorem ofItemsFrom_append
    (kind : RecordKind)
    (read : List Record)
    (items others : List Item) :
    ofItemsFrom kind read (items ++ others) =
      ofItemsFrom kind read items >>= fun records =>
        (ofItemsFrom (sectionAfter kind items) [] others).map
          (records ++ ·) := by
  fun_induction ofItemsFrom kind read items with
  | case1 kind read => exact ofItemsFrom_eq_map kind read others
  | case2 kind read marker position items next hSection ih =>
      have hNext : Item.section? (.marker marker position) =
          some next :=
        hSection
      rw [List.cons_append, ofItemsFrom, hSection,
        sectionAfter_cons, hNext]
      exact ih
  | case3 kind read marker position items hSection =>
      rw [List.cons_append, ofItemsFrom, hSection]
      rfl
  | case4 kind read name result items ih =>
      rw [List.cons_append, ofItemsFrom, sectionAfter_cons]
      exact ih
  | case5 kind read declared items record hRecord ih =>
      rw [List.cons_append, ofItemsFrom, hRecord,
        sectionAfter_cons]
      exact ih
  | case6 kind read declared items fault hFault =>
      rw [List.cons_append, ofItemsFrom, hFault]
      rfl

------------------------------------------------------------
-- Declarations
------------------------------------------------------------

/- The records of items are those of the combinators among
   them, each in the section of the last marker before it. -/
theorem ofItemsFrom_eq_ok_iff
    {kind : RecordKind}
    {items : List Item}
    {records : List Record} :
    ofItemsFrom kind [] items = .ok records ↔
      (∀ item ∈ items, item.IsKnown) ∧
        List.Forall₂
          (fun declaration record =>
            ofCombinator declaration.1 declaration.2 =
              .ok record)
          (Item.declarations kind items) records := by
  induction items generalizing kind records with
  | nil => simp [ofItemsFrom, eq_comm]
  | cons item items ih =>
      cases item with
      | marker text position =>
          rw [ofItemsFrom, List.forall_mem_cons,
            Item.isKnown_marker, Item.declarations_cons,
            Item.section?]
          cases sectionOf text with
          | none => simp
          | some next => simpa [Item.combinator?] using ih
      | builtin name result =>
          rw [ofItemsFrom, List.forall_mem_cons, ih]
          simp [Item.IsKnown, Item.isMarker, Item.section?,
            Item.declarations_cons, Item.combinator?]
      | combinator declared =>
          rw [ofItemsFrom_combinator, Outcome.bind_eq_ok_iff,
            List.forall_mem_cons, Item.declarations_cons]
          change _ ↔ _ ∧ List.Forall₂ _
            ((kind, declared) :: Item.declarations kind items) _
          rw [List.forall₂_cons_left_iff]
          simp only [Outcome.map_eq_ok_iff, ih, Item.IsKnown,
            Item.isMarker]
          constructor
          · rintro ⟨record, hRecord, rest, ⟨hKnown, hRest⟩, rfl⟩
            exact ⟨⟨by simp, hKnown⟩, record, rest, hRecord,
              hRest, rfl⟩
          · rintro ⟨⟨-, hKnown⟩, record, rest, hRecord, hRest,
              rfl⟩
            exact ⟨record, hRecord, rest, ⟨hKnown, hRest⟩, rfl⟩

------------------------------------------------------------
-- Records in Another Section
------------------------------------------------------------

/- A record as it stands in a section. -/
def withKind
    (kind : RecordKind)
    (record : Record) :
    Record :=
  { record with kind := kind }

/- How many combinators stand before the first marker. -/
def unmarked
    (items : List Item) :
    Nat :=
  (items.takeWhile fun item => !item.isMarker).countP
    Item.isCombinator

/- Records of which some first ones stand in a section. -/
def restart
    (kind : RecordKind)
    (count : Nat)
    (records : List Record) :
    List Record :=
  (records.take count).map (withKind kind) ++
    records.drop count

theorem ofCombinator_withKind
    (kind other : RecordKind)
    (combinator : Combinator) :
    ofCombinator kind combinator =
      (ofCombinator other combinator).map
        (withKind kind) := by
  unfold ofCombinator
  cases tagOf combinator with
  | error fault => rfl
  | ok tag =>
      simp only
      cases firstRepeated []
          (combinator.params.map ParamItem.name) with
      | some param => rfl
      | none => rfl

/- The section that items stand in is that of their records up
   to the first marker. -/
theorem ofItemsFrom_withKind
    (kind other : RecordKind)
    (items : List Item) :
    ofItemsFrom kind [] items =
      (ofItemsFrom other [] items).map
        (restart kind (unmarked items)) := by
  induction items with
  | nil => rfl
  | cons item items ih =>
      cases item with
      | marker marker position =>
          simp only [ofItemsFrom]
          cases sectionOf marker with
          | none => rfl
          | some next =>
              simp only
              cases ofItemsFrom next [] items with
              | error fault => rfl
              | ok records => rfl
      | builtin name result => exact ih
      | combinator declared =>
          have hMore :
              unmarked (.combinator declared :: items) =
                unmarked items + 1 := by
            rw [unmarked, List.takeWhile_cons_of_pos rfl,
              List.countP_cons_of_pos rfl]
            rfl
          rw [ofItemsFrom_combinator, ofItemsFrom_combinator,
            ofCombinator_withKind kind other, hMore, ih]
          cases ofCombinator other declared with
          | error fault => rfl
          | ok record =>
              cases ofItemsFrom other [] items with
              | error fault => rfl
              | ok records => rfl

end Record

/- A schema is read to the records of its items. -/
theorem Schema.parse_eq_ok_iff
    {text : String}
    {source : Option String}
    {schema : Schema} :
    Schema.parse text source = .ok schema ↔
      ∃ items, Item.parse text = .ok items ∧
        Record.ofItems items = .ok schema.records ∧
        schema.source = source := by
  unfold Schema.parse
  cases Item.parse text with
  | error fault => simp
  | ok items =>
      simp only [Except.ok.injEq, exists_eq_left']
      cases Record.ofItems items with
      | error fault => simp
      | ok records =>
          rcases schema with ⟨others, name⟩
          simp [eq_comm]

end WireSchema
