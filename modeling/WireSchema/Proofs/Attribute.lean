import Mathlib.Data.List.Nodup
import WireSchema.Instance.Class
import WireSchema.Proofs.Identifier

/-
  The attribute names of a class.

  The names of the fields of a class differ.  Their attribute
  names may not: a reserved word gets a low line, which the name
  of another field may have already.  Nothing keeps a field from
  having the name of a member of the common base.

  Main declarations:
    * `Naming.escape_eq_escape_iff`
    * `Combinator.Declares.nodup_names`
    * `attributeNames_of_compile`
-/

namespace WireSchema

------------------------------------------------------------
-- Marked Words
------------------------------------------------------------

namespace Naming

/- A word that an attribute cannot be called. -/
def IsReserved
    (name : String) :
    Prop :=
  name ∈ keywords ∨ name = receiver

theorem escape_of_isReserved
    {name : String}
    (hReserved : IsReserved name) :
    escape name = name ++ "_" := by
  have hTest :
      (keywords.contains name || name == receiver) = true := by
    simpa [IsReserved] using hReserved
  rw [escape, if_pos hTest]

theorem escape_of_not_isReserved
    {name : String}
    (hFree : ¬ IsReserved name) :
    escape name = name := by
  have hTest :
      ¬ (keywords.contains name || name == receiver) = true := by
    simpa [IsReserved] using hFree
  rw [escape, if_neg hTest]

/- No reserved word has a low line. -/
theorem not_isReserved_of_mem
    {name : String}
    (hLine : '_' ∈ name.toList) :
    ¬ IsReserved name := by
  intro hReserved
  rcases hReserved with hKeyword | hReceiver
  · exact not_mem_keywords hLine hKeyword
  · rw [hReceiver] at hLine
    revert hLine
    decide

theorem not_isReserved_marked
    (name : String) :
    ¬ IsReserved (name ++ "_") := by
  apply not_isReserved_of_mem
  simp

/- Two names become one exactly when one of them is a reserved
   word and the other is that word with a low line. -/
theorem escape_eq_escape_iff
    {name other : String} :
    escape name = escape other ↔
      name = other ∨
        IsReserved name ∧ other = name ++ "_" ∨
        IsReserved other ∧ name = other ++ "_" := by
  by_cases hName : IsReserved name
  · by_cases hOther : IsReserved other
    · rw [escape_of_isReserved hName,
        escape_of_isReserved hOther]
      have hLeft : other ≠ name ++ "_" := by
        intro hSame
        exact not_isReserved_marked name (hSame ▸ hOther)
      have hRight : name ≠ other ++ "_" := by
        intro hSame
        exact not_isReserved_marked other (hSame ▸ hName)
      simp [hLeft, hRight]
    · rw [escape_of_isReserved hName,
        escape_of_not_isReserved hOther]
      have hApart : name ≠ other := by
        intro hSame
        exact hOther (hSame ▸ hName)
      simp [hName, hOther, hApart, eq_comm]
  · by_cases hOther : IsReserved other
    · rw [escape_of_not_isReserved hName,
        escape_of_isReserved hOther]
      have hApart : name ≠ other := by
        intro hSame
        exact hName (hSame ▸ hOther)
      simp [hName, hOther, hApart]
    · rw [escape_of_not_isReserved hName,
        escape_of_not_isReserved hOther]
      simp [hName, hOther]

/- Names that differ stay apart when they are marked, unless a
   reserved word is among them beside its marked form. -/
theorem nodup_map_escape_iff
    {names : List String}
    (hApart : names.Nodup) :
    (names.map escape).Nodup ↔
      ∀ word, IsReserved word → word ∈ names →
        word ++ "_" ∉ names := by
  rw [List.nodup_map_iff_inj_on hApart]
  constructor
  · intro hInjective word hReserved hWord hMarked
    have hEqual := hInjective word hWord (word ++ "_") hMarked
      (escape_eq_escape_iff.mpr (.inr (.inl ⟨hReserved, rfl⟩)))
    exact not_isReserved_marked word (hEqual ▸ hReserved)
  · intro hFree name hName other hOther hSame
    rcases escape_eq_escape_iff.mp hSame with
      hEqual | ⟨hReserved, hMarked⟩ | ⟨hReserved, hMarked⟩
    · exact hEqual
    · rw [hMarked] at hOther
      exact absurd hOther (hFree name hReserved hName)
    · rw [hMarked] at hName
      exact absurd hName (hFree other hReserved hOther)

/- Marking neither makes nor removes a name that is no reserved
   word with or without a low line. -/
theorem mem_map_escape_iff
    {names : List String}
    {name : String}
    (hFree : ¬ IsReserved name)
    (hUnmarked : ∀ word, IsReserved word → name ≠ word ++ "_") :
    name ∈ names.map escape ↔ name ∈ names := by
  rw [List.mem_map]
  constructor
  · intro hMarked
    rcases hMarked with ⟨other, hOther, hSame⟩
    by_cases hReserved : IsReserved other
    · rw [escape_of_isReserved hReserved] at hSame
      exact absurd hSame.symm (hUnmarked other hReserved)
    · rw [escape_of_not_isReserved hReserved] at hSame
      exact hSame ▸ hOther
  · intro hName
    exact ⟨name, hName, escape_of_not_isReserved hFree⟩

end Naming

------------------------------------------------------------
-- Attribute Names
------------------------------------------------------------

/- Params that all have names have different ones. -/
theorem Combinator.NamesApart.nodup
    {combinator : Combinator}
    (hApart : combinator.NamesApart)
    (hSpelled : combinator.IsSpelled)
    (hNamed : ∀ param ∈ combinator.params, param.IsNamed) :
    (combinator.params.map ParamItem.name).Nodup := by
  have hSome : (combinator.params.map ParamItem.name).filter
      (· ≠ "") = combinator.params.map ParamItem.name := by
    rw [List.filter_eq_self]
    intro name hName
    rcases List.mem_map.mp hName with ⟨param, hParam, rfl⟩
    have hIsName := ParamItem.isName_of_isNamed
      (hSpelled.opening.params param hParam)
      (hNamed param hParam)
    exact decide_eq_true hIsName.ne_empty
  rw [← hSome]
  exact hApart

/- The fields of a class have different names, as the params of
   its combinator do. -/
theorem Combinator.Declares.nodup_names
    {item : ClassDecl}
    {combinator : Combinator}
    (hDeclares : combinator.Declares item) :
    (item.fields.map FieldDecl.name).Nodup := by
  have hNames : item.fields.map FieldDecl.name =
      combinator.params.map ParamItem.name := by
    have hFields := congrArg (List.map Param.name)
      hDeclares.fields
    rw [List.map_map, List.map_map] at hFields
    exact hFields
  rw [hNames]
  exact hDeclares.apart.nodup hDeclares.spelled
    hDeclares.named

namespace ClassDecl

/- The attribute names of the fields that carry values. -/
def attributeNames
    (item : ClassDecl) :
    List String :=
  item.params.map fun field =>
    Naming.attributeName field.name

/- The members that the common base defines itself and uses. -/
def baseMembers : List String :=
  ["_name_", "_tag_", "_result_", "_params_", "_conditions_",
    "_values_", "_bitmask_", "to_dict"]

theorem attributeNames_eq
    (item : ClassDecl) :
    item.attributeNames =
      (item.params.map FieldDecl.name).map Naming.escape := by
  rw [List.map_map]
  rfl

/- No member of the base is a reserved word or the marked form
   of one. -/
theorem free_of_mem_baseMembers
    {member : String}
    (hMember : member ∈ baseMembers) :
    ¬ Naming.IsReserved member ∧
      ∀ word, Naming.IsReserved word → member ≠ word ++ "_" := by
  have hLine : (baseMembers.all fun member =>
      member.toList.dropLast.contains '_') = true := by
    decide +kernel
  have hBefore : '_' ∈ member.toList.dropLast := by
    simpa using List.all_eq_true.mp hLine member hMember
  constructor
  · apply Naming.not_isReserved_of_mem
    exact List.dropLast_subset _ hBefore
  · intro word hReserved hSame
    have hWord : member.toList.dropLast = word.toList := by
      rw [hSame, String.toList_append]
      exact List.dropLast_concat
    rw [hWord] at hBefore
    exact Naming.not_isReserved_of_mem hBefore hReserved

end ClassDecl

/- The attribute names of a class differ exactly when no field
   is called by a reserved word and another one by that word
   with a low line.  One of them is a member of the base exactly
   when a field has that very name. -/
theorem attributeNames_of_compile
    {text : String}
    {options : CompileOptions}
    {compiled : Compiled}
    (hCompile : compile text options = .ok compiled)
    {item : ClassDecl}
    (hItem : item ∈ compiled.decl.classes) :
    (item.attributeNames.Nodup ↔
      ∀ word, Naming.IsReserved word →
        word ∈ item.params.map FieldDecl.name →
        word ++ "_" ∉ item.params.map FieldDecl.name) ∧
    ∀ member ∈ ClassDecl.baseMembers,
      member ∈ item.attributeNames ↔
        member ∈ item.params.map FieldDecl.name := by
  rcases ClassDecl.exists_combinator
    (isChecked_of_compile hCompile) hItem with
    ⟨combinator, hDeclares⟩
  have hNames : (item.params.map FieldDecl.name).Nodup :=
    hDeclares.nodup_names.sublist
      (List.filter_sublist.map FieldDecl.name)
  rw [ClassDecl.attributeNames_eq]
  refine ⟨Naming.nodup_map_escape_iff hNames, ?_⟩
  intro member hMember
  rcases ClassDecl.free_of_mem_baseMembers hMember with
    ⟨hFree, hUnmarked⟩
  exact Naming.mem_map_escape_iff hFree hUnmarked

/- A reserved word, a marked one and names that are nearly
   members of the base stay apart. -/
theorem attributeNames_apart :
    ∃ compiled item,
      compile "a#1 class:int self_:int _values:int = A;"
        (Sample.skipping []) = .ok compiled ∧
      item ∈ compiled.decl.classes ∧
      item.attributeNames = ["class_", "self_", "_values"] ∧
      item.attributeNames.Nodup ∧
      ∀ member ∈ ClassDecl.baseMembers,
        member ∉ item.attributeNames := by
  have hPasses : Outcome.passes
      (fun compiled => compiled.decl.classes.any fun item =>
        decide (item.params.map FieldDecl.name =
            ["class", "self_", "_values"] ∧
          item.attributeNames =
            ["class_", "self_", "_values"]))
      (compile "a#1 class:int self_:int _values:int = A;"
        (Sample.skipping [])) = true := by
    decide +kernel
  rcases Outcome.exists_of_passes hPasses with
    ⟨compiled, hCompile, hAny⟩
  rcases List.any_eq_true.mp hAny with ⟨item, hItem, hParts⟩
  rcases of_decide_eq_true hParts with ⟨hNames, hAttributes⟩
  rcases attributeNames_of_compile hCompile hItem with
    ⟨hNodup, hMembers⟩
  refine ⟨compiled, item, hCompile, hItem, hAttributes,
    hNodup.mpr ?_, ?_⟩
  · intro word hReserved hWord hMarked
    have hSelf : ¬ Naming.IsReserved "self_" :=
      Naming.not_isReserved_of_mem (by decide)
    have hValues : ¬ Naming.IsReserved "_values" :=
      Naming.not_isReserved_of_mem (by decide)
    rw [hNames] at hWord hMarked
    simp only [List.mem_cons, List.not_mem_nil, or_false]
      at hWord
    rcases hWord with rfl | rfl | rfl
    · revert hMarked
      decide
    · exact hSelf hReserved
    · exact hValues hReserved
  · intro member hMember
    rw [hMembers member hMember, hNames]
    revert member
    decide

/- A reserved word beside its marked form, and a member of the
   base. -/
theorem attributeNames_clash :
    ∃ compiled item,
      compile "a#1 class:int class_:int to_dict:int = A;"
        (Sample.skipping []) = .ok compiled ∧
      item ∈ compiled.decl.classes ∧
      item.attributeNames = ["class_", "class_", "to_dict"] ∧
      ¬ item.attributeNames.Nodup ∧
      "to_dict" ∈ ClassDecl.baseMembers := by
  have hPasses : Outcome.passes
      (fun compiled => compiled.decl.classes.any fun item =>
        decide (item.attributeNames =
          ["class_", "class_", "to_dict"]))
      (compile "a#1 class:int class_:int to_dict:int = A;"
        (Sample.skipping [])) = true := by
    decide +kernel
  rcases Outcome.exists_of_passes hPasses with
    ⟨compiled, hCompile, hAny⟩
  rcases List.any_eq_true.mp hAny with ⟨item, hItem, hNames⟩
  have hNames := of_decide_eq_true hNames
  refine ⟨compiled, item, hCompile, hItem, hNames, ?_,
    by decide⟩
  rw [hNames]
  decide

end WireSchema
