import WireSchema.Proofs.Tag
import WireSchema.Schema.Record

/-
  The records that a text is read to.

  Each record comes from a combinator made of lexemes, so its
  tag lies in the range of tags, its name is the spelling of a
  name, and its result type the spelling of a result.

  Main declarations:
    * `Record.IsRead`
    * `Record.isRead_of_parse`
    * `Schema.isReported_of_parse`
-/

namespace WireSchema

------------------------------------------------------------
-- Records of Items
------------------------------------------------------------

namespace Record

/- What is known of a record that has been read. -/
structure IsRead
    (record : Record) :
    Prop where
  tag : Tag.InRange record.tag
  name : ∃ name : FullName, name.IsSpelled ∧
    record.name = name.text
  result : ∃ result : ResultItem, result.IsSpelled ∧
    record.resultType = result.text

/- A combinator of lexemes has a tag, and it lies in the
   range. -/
theorem tagOf_isSpelled
    {combinator : Combinator}
    (hCombinator : combinator.IsSpelled) :
    ∃ tag, tagOf combinator = .ok tag ∧ Tag.InRange tag := by
  unfold tagOf
  cases hTag : combinator.tag with
  | none => exact ⟨_, rfl, Tag.inRange_infer _⟩
  | some text =>
      have hText := hCombinator.opening.tag text hTag
      rcases Tag.parse_lexeme hText with
        ⟨tag, hParse, hRange⟩
      refine ⟨tag, ?_, hRange⟩
      simp only [hParse]

theorem isRead_of_ofCombinator
    {kind : RecordKind}
    {combinator : Combinator}
    {record : Record}
    (hCombinator : combinator.IsSpelled)
    (hRecord : ofCombinator kind combinator = .ok record) :
    record.IsRead := by
  rcases tagOf_isSpelled hCombinator with ⟨tag, hTag, hRange⟩
  unfold ofCombinator at hRecord
  rw [hTag] at hRecord
  dsimp only at hRecord
  split at hRecord
  · cases hRecord
  · cases hRecord
    exact
      { tag := hRange
        name := ⟨combinator.name, hCombinator.opening.name,
          rfl⟩
        result := ⟨combinator.result, hCombinator.result,
          rfl⟩ }

/- Every record of items comes from one of them. -/
theorem isRead_of_ofItemsFrom
    {kind : RecordKind}
    {read records : List Record}
    {items : List Item}
    (hRead : ∀ record ∈ read, record.IsRead)
    (hItems : ∀ item ∈ items, item.IsSpelled)
    (hRecords : ofItemsFrom kind read items = .ok records) :
    ∀ record ∈ records, record.IsRead := by
  fun_induction ofItemsFrom kind read items with
  | case1 kind read =>
      cases hRecords
      intro record hMem
      exact hRead record (List.mem_reverse.mp hMem)
  | case2 kind read marker position items next hSection ih =>
      exact ih hRead
        (List.forall_mem_of_forall_mem_cons hItems)
        hRecords
  | case3 => cases hRecords
  | case4 kind read name result items ih =>
      exact ih hRead
        (List.forall_mem_of_forall_mem_cons hItems)
        hRecords
  | case5 kind read combinator items record hRecord ih =>
      have hCombinator : combinator.IsSpelled :=
        hItems (.combinator combinator) List.mem_cons_self
      refine ih ?_
        (List.forall_mem_of_forall_mem_cons hItems)
        hRecords
      intro other hMem
      rcases List.mem_cons.mp hMem with hHead | hTail
      · rw [hHead]
        exact isRead_of_ofCombinator hCombinator hRecord
      · exact hRead other hTail
  | case6 => cases hRecords

/- The records of a schema have been read from its text. -/
theorem isRead_of_parse
    {text : String}
    {source : Option String}
    {schema : Schema}
    (hParse : Schema.parse text source = .ok schema) :
    ∀ record ∈ schema.records, record.IsRead := by
  unfold Schema.parse at hParse
  split at hParse
  · cases hParse
  · rename_i items hItems
    split at hParse
    · cases hParse
    · rename_i records hRecords
      cases hParse
      refine isRead_of_ofItemsFrom ?_
        (Item.isSpelled_of_parse hItems) hRecords
      intro record hMem
      cases hMem

------------------------------------------------------------
-- Names and Results
------------------------------------------------------------

namespace IsRead

theorem collapse_resultType
    {record : Record}
    (hRecord : record.IsRead) :
    Text.collapse record.resultType = record.resultType := by
  rcases hRecord.result with ⟨result, hSpelled, hText⟩
  rw [hText]
  exact ResultItem.collapse_text hSpelled

theorem name_space_ne_empty
    {record : Record}
    {space : String}
    (hRecord : record.IsRead)
    (hSpace : Qualified.space? record.name = some space) :
    space ≠ "" := by
  rcases hRecord.name with ⟨name, hSpelled, hText⟩
  rcases FullName.text_eq_cons hSpelled with
    ⟨c, cs, hCons, hFirst⟩
  rw [hText] at hSpace
  exact Qualified.space_ne_empty hCons
    (Terminal.ne_dot_of_inName
      (Terminal.inName_of_startsName hFirst))
    hSpace

theorem result_space_ne_empty
    {record : Record}
    {space : String}
    (hRecord : record.IsRead)
    (hSpace :
      Qualified.space? record.resultType = some space) :
    space ≠ "" := by
  rcases hRecord.result with ⟨result, hSpelled, hText⟩
  rcases ResultItem.text_eq_cons hSpelled with
    ⟨c, cs, hCons, hFirst⟩
  rw [hText] at hSpace
  exact Qualified.space_ne_empty hCons
    (Terminal.ne_dot_of_inName
      (Terminal.inName_of_startsName hFirst))
    hSpace

end IsRead

end Record

------------------------------------------------------------
-- Faults
------------------------------------------------------------

/- A fault that is reported as a failure of the schema. -/
def SchemaFault.IsReported
    (fault : SchemaFault) :
    Prop :=
  ∃ failure, fault.failure? = some failure ∧
    failure.kind = .schema

namespace Record

theorem isReported_of_ofCombinator
    {kind : RecordKind}
    {combinator : Combinator}
    {fault : SchemaFault}
    (hCombinator : combinator.IsSpelled)
    (hFault : ofCombinator kind combinator = .error fault) :
    fault.IsReported := by
  rcases tagOf_isSpelled hCombinator with ⟨tag, hTag, -⟩
  unfold ofCombinator at hFault
  rw [hTag] at hFault
  dsimp only at hFault
  split at hFault
  · cases hFault
    exact ⟨_, rfl, rfl⟩
  · cases hFault

theorem isReported_of_ofItemsFrom
    {kind : RecordKind}
    {read : List Record}
    {items : List Item}
    {fault : SchemaFault}
    (hItems : ∀ item ∈ items, item.IsSpelled)
    (hFault : ofItemsFrom kind read items = .error fault) :
    fault.IsReported := by
  fun_induction ofItemsFrom kind read items with
  | case1 => cases hFault
  | case2 kind read marker position items next hSection ih =>
      exact ih (List.forall_mem_of_forall_mem_cons hItems)
        hFault
  | case3 kind read marker position items hSection =>
      cases hFault
      exact ⟨_, rfl, rfl⟩
  | case4 kind read name result items ih =>
      exact ih (List.forall_mem_of_forall_mem_cons hItems)
        hFault
  | case5 kind read combinator items record hRecord ih =>
      exact ih (List.forall_mem_of_forall_mem_cons hItems)
        hFault
  | case6 kind read combinator items other hOther =>
      have hCombinator : combinator.IsSpelled :=
        hItems (.combinator combinator) List.mem_cons_self
      cases hFault
      exact isReported_of_ofCombinator hCombinator hOther

end Record

/- A text that is no schema is reported as such: a tag that has
   been read as a lexeme is never at fault. -/
theorem Schema.isReported_of_parse
    {text : String}
    {source : Option String}
    {fault : SchemaFault}
    (hParse : Schema.parse text source = .error fault) :
    fault.IsReported := by
  unfold Schema.parse at hParse
  split at hParse
  · cases hParse
    exact ⟨_, rfl, rfl⟩
  · rename_i items hItems
    split at hParse
    · rename_i other hOther
      cases hParse
      exact Record.isReported_of_ofItemsFrom
        (Item.isSpelled_of_parse hItems) hOther
    · cases hParse

end WireSchema
