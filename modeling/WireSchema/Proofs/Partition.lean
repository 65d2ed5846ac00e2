import Mathlib.Data.List.Perm.Basic
import Mathlib.Data.List.Perm.Subperm
import WireSchema.Proofs.Check
import WireSchema.Proofs.Extent
import WireSchema.Proofs.Group
import WireSchema.Proofs.Name

/-
  Groups as a partition of the constructors.

  A constructor is a member of the group of its result type and
  of no other, as often as it is declared.  Groups are told
  apart, and looked up, by the words of their names: how much
  white space stands between the words, and of which kind, is
  all the same.

  Main declarations:
    * `Text.Splits`
    * `Text.SameWords`
    * `GroupTable.Partitions`
    * `GroupTable.partitions_ofShapes`
-/

namespace WireSchema

------------------------------------------------------------
-- Words
------------------------------------------------------------

namespace Text

/- A text made of words, with white space before each and at the
   end.  A word has no white space in it and ends where some
   starts. -/
inductive Splits :
    List Char → List (List Char) → Prop where
  | nil
      {gap : List Char}
      (hGap : ∀ c ∈ gap, isBlank c = true) :
      Splits gap []
  | cons
      {gap word rest : List Char}
      {words : List (List Char)}
      (hGap : ∀ c ∈ gap, isBlank c = true)
      (hSome : word ≠ [])
      (hWord : ∀ c ∈ word, isBlank c = false)
      (hEnds : Terminal.Heads (fun c => isBlank c = true) rest)
      (hRest : Splits rest words) :
      Splits (gap ++ (word ++ rest)) (word :: words)

/- Texts with the same words in the same order. -/
def SameWords
    (text other : String) :
    Prop :=
  ∃ words, Splits text.toList words ∧
    Splits other.toList words

theorem wordsFrom_blanks
    {gap : List Char}
    (hGap : ∀ c ∈ gap, isBlank c = true)
    (rest : List Char) :
    wordsFrom (gap ++ rest) [] = wordsFrom rest [] := by
  induction gap with
  | nil => rfl
  | cons c gap ih =>
      rcases List.forall_mem_cons.mp hGap with ⟨hBlank, hGap⟩
      rw [List.cons_append, wordsFrom, if_pos hBlank,
        List.isEmpty_nil, if_pos rfl, ih hGap]

/- A word ends at the end of the text or at white space. -/
theorem wordsFrom_of_heads
    {word rest : List Char}
    (hSome : word ≠ [])
    (hEnds : Terminal.Heads (fun c => isBlank c = true) rest) :
    wordsFrom rest word = word :: wordsFrom rest [] := by
  cases rest with
  | nil => simp [wordsFrom]
  | cons c rest => simp [wordsFrom, hEnds c rfl, hSome]

theorem Splits.blank
    {c : Char}
    {cs : List Char}
    {words : List (List Char)}
    (hBlank : isBlank c = true)
    (hSplits : Splits cs words) :
    Splits (c :: cs) words := by
  cases hSplits with
  | nil hGap =>
      exact .nil (List.forall_mem_cons.mpr ⟨hBlank, hGap⟩)
  | cons hGap hSome hWord hEnds hRest =>
      exact .cons (List.forall_mem_cons.mpr ⟨hBlank, hGap⟩)
        hSome hWord hEnds hRest

theorem Splits.word
    {word rest : List Char}
    {words : List (List Char)}
    (hSome : word ≠ [])
    (hWord : ∀ c ∈ word, isBlank c = false)
    (hEnds : Terminal.Heads (fun c => isBlank c = true) rest)
    (hRest : Splits rest words) :
    Splits (word ++ rest) (word :: words) :=
  .cons (List.forall_mem_nil _) hSome hWord hEnds hRest

theorem splits_wordsFrom
    {word : List Char}
    (hWord : ∀ c ∈ word, isBlank c = false)
    (cs : List Char) :
    Splits (word ++ cs) (wordsFrom cs word) := by
  induction cs generalizing word with
  | nil =>
      have hNil : Splits [] [] := .nil (List.forall_mem_nil _)
      by_cases hSome : word = []
      · rw [hSome]
        exact hNil
      · rw [wordsFrom_of_heads hSome (by rintro c ⟨⟩)]
        exact .word hSome hWord (by rintro c ⟨⟩) hNil
  | cons c cs ih =>
      by_cases hBlank : isBlank c = true
      · have hRest : Splits (c :: cs) (wordsFrom (c :: cs) []) := by
          rw [wordsFrom, if_pos hBlank, List.isEmpty_nil,
            if_pos rfl]
          exact (ih (List.forall_mem_nil _)).blank hBlank
        have hEnds : Terminal.Heads
            (fun c => isBlank c = true) (c :: cs) := by
          rintro d ⟨⟩
          exact hBlank
        by_cases hSome : word = []
        · rw [hSome]
          exact hRest
        · rw [wordsFrom_of_heads hSome hEnds]
          exact .word hSome hWord hEnds hRest
      · have hLonger : ∀ d ∈ word ++ [c],
            isBlank d = false := by
          rw [List.forall_mem_append, List.forall_mem_singleton]
          exact ⟨hWord, Bool.eq_false_iff.mpr hBlank⟩
        have hMore := ih hLonger
        rw [List.append_assoc] at hMore
        rw [wordsFrom, if_neg hBlank]
        exact hMore

/- The words of a text are those that it is made of, and there
   is one way to split it. -/
theorem splits_iff
    {cs : List Char}
    {words : List (List Char)} :
    Splits cs words ↔ wordsFrom cs [] = words := by
  constructor
  · intro hSplits
    induction hSplits with
    | @nil gap hGap =>
        rw [← List.append_nil gap, wordsFrom_blanks hGap]
        rfl
    | cons hGap hSome hWord hEnds hRest ih =>
        rw [wordsFrom_blanks hGap, wordsFrom_append hWord,
          List.nil_append, wordsFrom_of_heads hSome hEnds, ih]
  · rintro rfl
    exact splits_wordsFrom (List.forall_mem_nil _) cs

theorem Splits.isWord
    {cs : List Char}
    {words : List (List Char)}
    (hSplits : Splits cs words) :
    ∀ word ∈ words,
      word ≠ [] ∧ ∀ c ∈ word, isBlank c = false := by
  induction hSplits with
  | nil hGap => exact List.forall_mem_nil _
  | cons hGap hSome hWord hEnds hRest ih =>
      exact List.forall_mem_cons.mpr ⟨⟨hSome, hWord⟩, ih⟩

theorem sameWords_iff
    {text other : String} :
    SameWords text other ↔ words text = words other := by
  have hInjective : Function.Injective String.ofList := by
    intro cs ds hSame
    simpa using congrArg String.toList hSame
  rw [words, words, List.map_inj_right hInjective]
  constructor
  · rintro ⟨parts, hText, hOther⟩
    rw [splits_iff.mp hText, splits_iff.mp hOther]
  · intro hSame
    exact ⟨_, splits_iff.mpr rfl, splits_iff.mpr hSame.symm⟩

theorem isWordText_of_mem_words
    {text : String} :
    ∀ word ∈ words text, IsWordText word := by
  intro word hMem
  rcases List.mem_map.mp hMem with ⟨cs, hCs, rfl⟩
  have hSplits := splits_wordsFrom (List.forall_mem_nil _)
    text.toList
  rw [IsWordText, String.toList_ofList]
  exact hSplits.isWord cs hCs

/- Collapsing white space keeps the words. -/
theorem words_collapse
    (text : String) :
    words (collapse text) = words text :=
  words_intercalate isWordText_of_mem_words

/- A collapsed text is told by its words. -/
theorem eq_collapse_iff
    {text name : String}
    (hName : collapse name = name) :
    name = collapse text ↔ SameWords text name := by
  rw [sameWords_iff]
  constructor
  · rintro rfl
    exact (words_collapse text).symm
  · intro hWords
    rw [← hName, collapse, collapse, hWords]

theorem collapse_collapse
    (text : String) :
    collapse (collapse text) = collapse text := by
  rw [collapse, words_collapse, ← collapse]

end Text

------------------------------------------------------------
-- Gathered Entries
------------------------------------------------------------

namespace Gather

variable {α : Type}

/- Keys stand in the order in which they first occur. -/
theorem pairwise_eraseDups
    (keys : List String) :
    keys.eraseDups.Pairwise fun key later =>
      keys.idxOf key < keys.idxOf later := by
  induction keys using List.reverseRecOn with
  | nil => exact .nil
  | append_singleton keys key ih =>
      have hBefore : keys.eraseDups.Pairwise fun first later =>
          (keys ++ [key]).idxOf first <
            (keys ++ [key]).idxOf later := by
        refine ih.imp_of_mem ?_
        intro first later hFirst hLater hLess
        rw [List.idxOf_append_of_mem
            (List.mem_eraseDups.mp hFirst),
          List.idxOf_append_of_mem
            (List.mem_eraseDups.mp hLater)]
        exact hLess
      rw [eraseDups_concat]
      by_cases hMem : key ∈ keys
      · rw [if_pos hMem, List.append_nil]
        exact hBefore
      · rw [if_neg hMem, List.pairwise_append]
        refine ⟨hBefore, List.pairwise_singleton _ _, ?_⟩
        intro first hFirst later hLater
        rw [List.mem_singleton.mp hLater]
        have hFirst := List.mem_eraseDups.mp hFirst
        rw [List.idxOf_append_of_mem hFirst,
          List.idxOf_append_of_notMem hMem]
        exact Nat.lt_of_lt_of_le
          (List.idxOf_lt_length_of_mem hFirst)
          (Nat.le_add_right _ _)

/- The rows of distinct keys hold each entry of these keys
   once. -/
theorem perm_flatMap_filter
    {keys : List String}
    {entries : List (String × α)}
    (hNodup : keys.Nodup)
    (hKeys : ∀ entry ∈ entries, entry.1 ∈ keys) :
    (keys.flatMap fun key =>
      entries.filter fun entry => entry.1 == key).Perm
        entries := by
  induction keys generalizing entries with
  | nil =>
      have hNone : entries = [] := by
        rw [List.eq_nil_iff_forall_not_mem]
        intro entry hMem
        exact absurd (hKeys entry hMem) List.not_mem_nil
      rw [hNone]
      rfl
  | cons first keys ih =>
      rcases List.nodup_cons.mp hNodup with ⟨hFirst, hNodup⟩
      have hRest : ∀ entry ∈ entries.filter
          (fun entry => !(entry.1 == first)),
          entry.1 ∈ keys := by
        intro entry hMem
        rcases List.mem_filter.mp hMem with ⟨hEntry, hOther⟩
        rcases List.mem_cons.mp (hKeys entry hEntry) with
          hSame | hIn
        · simp [hSame] at hOther
        · exact hIn
      have hSame : (keys.flatMap fun key =>
          entries.filter fun entry => entry.1 == key) =
          keys.flatMap fun key =>
            (entries.filter fun entry =>
              !(entry.1 == first)).filter
                fun entry => entry.1 == key := by
        refine List.flatMap_congr ?_
        intro key hKey
        rw [List.filter_filter]
        refine List.filter_congr ?_
        intro entry hEntry
        by_cases hIs : entry.1 = key
        · have hNe : key ≠ first :=
            ne_of_mem_of_not_mem hKey hFirst
          simp [hIs, hNe]
        · simp [hIs]
      rw [List.flatMap_cons, hSame]
      exact ((ih hNodup hRest).append_left _).trans
        (List.filter_append_perm _ entries)

/- A table holds each entry once. -/
theorem perm_flatMap_table
    (entries : List (String × α)) :
    ((table entries).flatMap fun row =>
      row.2.map fun value => (row.1, value)).Perm
        entries := by
  have hRow : ∀ key,
      ((valuesOf key entries).map fun value => (key, value)) =
        entries.filter fun entry => entry.1 == key := by
    intro key
    rw [valuesOf, List.map_map]
    conv => rhs; rw [← List.map_id (List.filter _ _)]
    refine List.map_congr_left ?_
    rintro ⟨other, value⟩ hMem
    rw [← beq_iff_eq.mp (List.mem_filter.mp hMem).2]
    rfl
  rw [table, List.flatMap_map]
  simp only [hRow]
  refine perm_flatMap_filter (nodup_eraseDups _) ?_
  intro entry hMem
  exact List.mem_eraseDups.mpr (List.mem_map_of_mem hMem)

end Gather

------------------------------------------------------------
-- Partitions
------------------------------------------------------------

namespace Shape

theorem memberships_eq
    (shapes : List Shape) :
    memberships shapes =
      (constructors shapes).map fun shape =>
        (shape.resultGroup, shape.name) :=
  rfl

theorem valuesOf_memberships
    (key : String)
    (shapes : List Shape) :
    Gather.valuesOf key (memberships shapes) =
      ((constructors shapes).filter fun shape =>
        shape.resultGroup == key).map Shape.name := by
  rw [memberships_eq, Gather.valuesOf, List.filter_map,
    List.map_map]
  rfl

end Shape

namespace GroupTable

/- A table of the constructors among shapes.  A group is found
   by every text with the words of its name, and by no
   other. -/
structure Partitions
    (table : GroupTable)
    (shapes : List Shape) :
    Prop where
  distinct : (table.groups.map Group.name).Nodup
  ordered : table.groups.Pairwise fun group later =>
    ((Shape.constructors shapes).map
        Shape.resultGroup).idxOf group.name <
      ((Shape.constructors shapes).map
        Shape.resultGroup).idxOf later.name
  members : ∀ group ∈ table.groups,
    group.members ≠ [] ∧
      group.members =
        ((Shape.constructors shapes).filter fun shape =>
          Text.collapse shape.resultType ==
            group.name).map Shape.name
  occurrences :
    (table.groups.flatMap fun group =>
      group.members.map fun name => (group.name, name)).Perm
        ((Shape.constructors shapes).map fun shape =>
          (Text.collapse shape.resultType, shape.name))
  single : ∀ shape ∈ Shape.constructors shapes,
    (∀ other ∈ Shape.constructors shapes,
      other.name = shape.name →
        Text.SameWords other.resultType shape.resultType) →
    ∃ group ∈ table.groups,
      group.members.count shape.name =
          (Shape.constructors shapes).countP
            (fun other => other.name == shape.name) ∧
        ∀ other ∈ table.groups,
          shape.name ∈ other.members → other = group
  found : ∀ text group,
    table.get? text = some group ↔
      group ∈ table.groups ∧ Text.SameWords text group.name
  missing : ∀ text,
    table.get? text = none ↔
      ∀ group ∈ table.groups, ¬ Text.SameWords text group.name

section OfShapes

variable {shapes : List Shape}
variable {group : Group}

theorem nodup_names_ofShapes
    (shapes : List Shape) :
    ((ofShapes shapes).groups.map Group.name).Nodup := by
  rw [names_ofShapes]
  exact Gather.nodup_eraseDups _

/- The name of a group is collapsed. -/
theorem collapse_name
    (hGroup : group ∈ (ofShapes shapes).groups) :
    Text.collapse group.name = group.name := by
  rcases mem_names_ofShapes_iff.mp
    (List.mem_map_of_mem hGroup) with ⟨shape, -, -, hName⟩
  rw [← hName]
  exact Text.collapse_collapse shape.resultType

theorem members_eq_map
    (hGroup : group ∈ (ofShapes shapes).groups) :
    group.members =
      ((Shape.constructors shapes).filter fun shape =>
        shape.resultGroup == group.name).map Shape.name := by
  rw [members_eq hGroup, Shape.valuesOf_memberships]

theorem ordered_ofShapes
    (shapes : List Shape) :
    (ofShapes shapes).groups.Pairwise fun group later =>
      ((Shape.constructors shapes).map
          Shape.resultGroup).idxOf group.name <
        ((Shape.constructors shapes).map
          Shape.resultGroup).idxOf later.name := by
  have hKeys : (Shape.memberships shapes).map Prod.fst =
      (Shape.constructors shapes).map Shape.resultGroup := by
    rw [Shape.memberships_eq, List.map_map]
    rfl
  have hNames := names_ofShapes shapes
  rw [hKeys] at hNames
  have hOrder := Gather.pairwise_eraseDups
    ((Shape.constructors shapes).map Shape.resultGroup)
  rwa [← hNames, List.pairwise_map] at hOrder

theorem occurrences_ofShapes
    (shapes : List Shape) :
    ((ofShapes shapes).groups.flatMap fun group =>
      group.members.map fun name => (group.name, name)).Perm
        ((Shape.constructors shapes).map fun shape =>
          (shape.resultGroup, shape.name)) := by
  have hPerm := Gather.perm_flatMap_table
    (Shape.memberships shapes)
  rw [ofShapes_groups, List.flatMap_map]
  exact hPerm

theorem get?_eq_some_iff_sameWords
    {text : String} :
    (ofShapes shapes).get? text = some group ↔
      group ∈ (ofShapes shapes).groups ∧
        Text.SameWords text group.name := by
  rw [get?_eq_some_iff]
  refine and_congr_right ?_
  intro hGroup
  exact Text.eq_collapse_iff (collapse_name hGroup)

theorem get?_eq_none_iff_sameWords
    {text : String} :
    (ofShapes shapes).get? text = none ↔
      ∀ group ∈ (ofShapes shapes).groups,
        ¬ Text.SameWords text group.name := by
  rw [Option.eq_none_iff_forall_ne_some]
  simp only [ne_eq, get?_eq_some_iff_sameWords, not_and]

/- A constructor that is declared with one result type only is in
   one group only, as often as it is declared. -/
theorem exists_group_of_declared
    {shape : Shape}
    (hShape : shape ∈ Shape.constructors shapes)
    (hOne : ∀ other ∈ Shape.constructors shapes,
      other.name = shape.name →
        other.resultGroup = shape.resultGroup) :
    ∃ group ∈ (ofShapes shapes).groups,
      group.members.count shape.name =
          (Shape.constructors shapes).countP
            (fun other => other.name == shape.name) ∧
        ∀ other ∈ (ofShapes shapes).groups,
          shape.name ∈ other.members → other = group := by
  have hMem : shape ∈ shapes ∧ shape.isFunction = false := by
    simpa [Shape.constructors] using hShape
  rcases List.mem_map.mp (mem_names_ofShapes_iff.mpr
    ⟨shape, hMem.1, hMem.2, rfl⟩) with
    ⟨group, hGroup, hName⟩
  refine ⟨group, hGroup, ?_, ?_⟩
  · rw [members_eq_map hGroup, List.count, List.countP_map,
      List.countP_filter]
    refine List.countP_congr ?_
    intro other hOther
    simp only [Function.comp_apply, Bool.and_eq_true,
      beq_iff_eq, and_iff_left_iff_imp, hName]
    exact hOne other hOther
  · intro other hOther hIn
    rcases (mem_members_iff hOther).mp hIn with
      ⟨declared, hDeclared, hConstructor, hResult, hSame⟩
    have hIs : declared ∈ Shape.constructors shapes := by
      simpa [Shape.constructors] using
        And.intro hDeclared hConstructor
    refine List.inj_on_of_nodup_map
      (nodup_names_ofShapes shapes) hOther hGroup ?_
    rw [hName, ← hResult, hOne declared hIs hSame]

end OfShapes

/- The groups of shapes have each constructor in its group, and
   are found by the words of their names. -/
theorem partitions_ofShapes
    (shapes : List Shape) :
    (ofShapes shapes).Partitions shapes where
  distinct := nodup_names_ofShapes shapes
  ordered := ordered_ofShapes shapes
  members := fun _ hGroup =>
    ⟨members_ne_nil hGroup, members_eq_map hGroup⟩
  occurrences := occurrences_ofShapes shapes
  single := by
    intro shape hShape hOne
    refine exists_group_of_declared hShape ?_
    intro other hOther hSame
    have hWords := Text.sameWords_iff.mp
      (hOne other hOther hSame)
    rw [Shape.resultGroup, Shape.resultGroup, Text.collapse,
      Text.collapse, hWords]
  found := fun _ _ => get?_eq_some_iff_sameWords
  missing := fun _ => get?_eq_none_iff_sameWords

end GroupTable

end WireSchema
