import WireSchema.Proofs.Acceptance
import WireSchema.Proofs.SchemaLine

/-
  The names of a module as identifiers.

  A name of the schema keeps its characters in the module, but
  loses its low lines where it is capitalized.  So the name of a
  class may become empty or start with a digit.  The names of a
  union and of its namespace are cut from a whole result type,
  with the signs and spaces that this may hold.  All other names
  are identifiers.

  Main declarations:
    * `Naming.IsIdentifier`
    * `Naming.isIdentifier_escape_iff`
    * `Naming.isName_pascalCase_iff`
    * `Naming.isIdentifier_unionName_iff`
    * `ModuleDecl.Introduces`
    * `isIdentifier_iff_of_compile`
-/

namespace WireSchema

------------------------------------------------------------
-- Identifiers
------------------------------------------------------------

theorem isName_iff
    {text : String} :
    IsName text ↔
      ∃ c cs, text.toList = c :: cs ∧
        Terminal.startsName c = true ∧
        ∀ d ∈ cs, Terminal.inName d = true := by
  constructor
  · exact Terminal.IsLexeme.name_chars
  · rintro ⟨c, cs, hText, hFirst, hRest⟩
    refine ⟨?_, [], ?_⟩
    · rw [hText]
      exact List.cons_ne_nil c cs
    · rw [hText, List.append_nil, Terminal.extent,
        if_pos hFirst, Terminal.runLength,
        List.takeWhile_eq_self_iff.mpr hRest,
        List.length_cons]
      omega

/- What holds of all characters below 128 can be checked one by
   one. -/
theorem Text.of_forall_ascii
    {p : Char → Bool}
    (hAll : ((List.range 128).all fun n =>
      p (Char.ofNat n)) = true)
    {c : Char}
    (hAscii : c.toNat < 128) :
    p c = true := by
  have hCode := List.all_eq_true.mp hAll c.toNat
    (List.mem_range.mpr hAscii)
  rwa [Char.ofNat_toNat] at hCode

theorem Terminal.isAscii_of_inName
    {c : Char}
    (hIn : inName c = true) :
    c.toNat < 128 := by
  have hCodes := inName_codes hIn
  omega

theorem ParamItem.isName_of_isNamed
    {param : ParamItem}
    (hSpelled : param.IsSpelled)
    (hNamed : param.IsNamed) :
    IsName param.name := by
  cases param with
  | bitmask name => exact hSpelled
  | typed name wireType => exact hSpelled.1
  | number => exact hNamed.elim
  | repeated names => exact hNamed.elim

namespace Naming

/- A name that a program may bind: letters, digits and low
   lines, not a digit first, and no keyword. -/
structure IsIdentifier
    (name : String) :
    Prop where
  nonempty : name ≠ ""
  chars : ∀ c ∈ name.toList, Terminal.inName c = true
  first : ∀ c, name.toList.head? = some c →
    Text.isAsciiDigit c = false
  keyword : name ∉ keywords

/- A character of names starts one unless it is a digit. -/
theorem startsName_eq_of_inName
    {c : Char}
    (hIn : Terminal.inName c = true) :
    Terminal.startsName c = !Text.isAsciiDigit c := by
  have hSame := Text.of_forall_ascii
    (p := fun c => !Terminal.inName c ||
      Terminal.startsName c == !Text.isAsciiDigit c)
    (by decide) (Terminal.isAscii_of_inName hIn)
  simpa [hIn] using hSame

theorem isName_iff_chars
    {name : String} :
    IsName name ↔
      name ≠ "" ∧
      (∀ c ∈ name.toList, Terminal.inName c = true) ∧
      ∀ c, name.toList.head? = some c →
        Text.isAsciiDigit c = false := by
  rw [isName_iff]
  constructor
  · rintro ⟨c, cs, hText, hFirst, hRest⟩
    have hIn := Terminal.inName_of_startsName hFirst
    refine ⟨?_, ?_, ?_⟩
    · rintro rfl
      cases hText
    · rw [hText, List.forall_mem_cons]
      exact ⟨hIn, hRest⟩
    · rw [hText]
      rintro d ⟨⟩
      rw [startsName_eq_of_inName hIn] at hFirst
      simpa using hFirst
  · rintro ⟨hSome, hChars, hFirst⟩
    rcases List.exists_cons_of_ne_nil
      (mt String.toList_eq_nil_iff.mp hSome) with
      ⟨c, cs, hText⟩
    rw [hText, List.forall_mem_cons] at hChars
    refine ⟨c, cs, hText, ?_, hChars.2⟩
    rw [startsName_eq_of_inName hChars.1,
      hFirst c (by rw [hText]; rfl)]
    rfl

theorem isIdentifier_iff
    {name : String} :
    IsIdentifier name ↔ IsName name ∧ name ∉ keywords := by
  rw [isName_iff_chars]
  constructor
  · rintro ⟨hSome, hChars, hFirst, hKeyword⟩
    exact ⟨⟨hSome, hChars, hFirst⟩, hKeyword⟩
  · rintro ⟨⟨hSome, hChars, hFirst⟩, hKeyword⟩
    exact ⟨hSome, hChars, hFirst, hKeyword⟩

/- No keyword has a low line. -/
theorem not_mem_keywords
    {name : String}
    (hLine : '_' ∈ name.toList) :
    name ∉ keywords := by
  have hAll : (keywords.all fun word =>
      !word.toList.contains '_') = true := by
    decide +kernel
  intro hMem
  have hNot := List.all_eq_true.mp hAll name hMem
  simp [hLine] at hNot

theorem isName_append
    {name : String}
    {rest : String}
    (hName : IsName name)
    (hRest : ∀ c ∈ rest.toList, Terminal.inName c = true) :
    IsName (name ++ rest) := by
  rcases isName_iff.mp hName with ⟨c, cs, hText, hFirst, hCs⟩
  refine isName_iff.mpr ⟨c, cs ++ rest.toList, ?_, hFirst, ?_⟩
  · rw [String.toList_append, hText]
    rfl
  · rw [List.forall_mem_append]
    exact ⟨hCs, hRest⟩

/- A name is an identifier once its keywords are marked. -/
theorem isIdentifier_escape_iff
    {name : String} :
    IsIdentifier (escape name) ↔ IsName name := by
  rw [escape]
  split
  · rename_i hReserved
    have hMem : name ∈ receiver :: keywords := by
      simpa [or_comm] using hReserved
    have hNames : ((receiver :: keywords).all fun word =>
        decide (IsName word)) = true := by
      decide +kernel
    have hName : IsName name :=
      of_decide_eq_true (List.all_eq_true.mp hNames name hMem)
    have hMarked : IsIdentifier (name ++ "_") := by
      refine isIdentifier_iff.mpr
        ⟨isName_append hName (List.all_eq_true.mp rfl), ?_⟩
      apply not_mem_keywords
      simp
    exact ⟨fun _ => hName, fun _ => hMarked⟩
  · rename_i hReserved
    rw [isIdentifier_iff]
    constructor
    · exact And.left
    · intro hName
      refine ⟨hName, ?_⟩
      intro hMem
      apply hReserved
      simp [hMem]

theorem inName_escape
    {name : String}
    (hName : ∀ c ∈ name.toList, Terminal.inName c = true) :
    ∀ c ∈ (escape name).toList, Terminal.inName c = true := by
  rw [escape]
  split
  · rw [String.toList_append, List.forall_mem_append]
    exact ⟨hName, List.all_eq_true.mp rfl⟩
  · exact hName

/- A name behind its namespace is an identifier if the namespace
   is a name and the rest has the characters of one. -/
theorem isIdentifier_qualified_iff
    {space base : String}
    (hSpace : space ≠ "") :
    IsIdentifier (space ++ "_" ++ base) ↔
      IsName space ∧
        ∀ c ∈ base.toList, Terminal.inName c = true := by
  constructor
  · rintro ⟨-, hChars, hFirst, -⟩
    simp only [String.toList_append, List.forall_mem_append]
      at hChars
    refine ⟨?_, hChars.2⟩
    apply isName_iff_chars.mpr
    refine ⟨hSpace, hChars.1.1, ?_⟩
    intro c hHead
    apply hFirst
    simp [hHead]
  · rintro ⟨hName, hBase⟩
    refine isIdentifier_iff.mpr ⟨?_, ?_⟩
    · exact isName_append
        (isName_append hName (List.all_eq_true.mp rfl)) hBase
    · apply not_mem_keywords
      simp

end Naming

------------------------------------------------------------
-- Capitalized Names
------------------------------------------------------------

namespace Text

/- The pieces between marks hold all other characters. -/
theorem flatten_splitOn
    (mark : Char)
    (cs : List Char) :
    (splitOn mark cs).flatten = cs.filter (· != mark) := by
  induction cs with
  | nil => rfl
  | cons c cs ih =>
      rw [splitOn]
      by_cases hMark : c = mark
      · simp [hMark, ih]
      · cases hPieces : splitOn mark cs with
        | nil =>
            rw [hPieces] at ih
            simp [hMark, ← ih]
        | cons piece pieces =>
            rw [hPieces] at ih
            simp [hMark, ← ih]

theorem mem_capitalize
    {d : Char}
    {cs : List Char}
    (hMem : d ∈ capitalize cs) :
    ∃ c ∈ cs, d = c ∨ d ∈ capitals c := by
  cases cs with
  | nil => cases hMem
  | cons c cs =>
      rcases List.mem_append.mp hMem with hFirst | hRest
      · exact ⟨c, List.mem_cons_self, .inr hFirst⟩
      · exact ⟨d, List.mem_cons_of_mem c hRest, .inl rfl⟩

/- A character without a capital form stays. -/
theorem mem_capitalize_of_mem
    {c : Char}
    {cs : List Char}
    (hMem : c ∈ cs)
    (hSame : capitals c = [c]) :
    c ∈ capitalize cs := by
  cases cs with
  | nil => cases hMem
  | cons d cs =>
      rw [capitalize]
      rcases List.mem_cons.mp hMem with rfl | hRest
      · simp [hSame]
      · exact List.mem_append_right _ hRest

theorem capitals_of_inName
    {c : Char}
    (hIn : Terminal.inName c = true) :
    capitals c = [c.toUpper] := by
  rw [capitals, if_pos (Terminal.isAscii_of_inName hIn)]

theorem inName_toUpper
    {c : Char}
    (hIn : Terminal.inName c = true) :
    Terminal.inName c.toUpper = true := by
  have hUpper := Text.of_forall_ascii
    (p := fun c => !Terminal.inName c ||
      Terminal.inName c.toUpper)
    (by decide) (Terminal.isAscii_of_inName hIn)
  simpa [hIn] using hUpper

end Text

namespace Naming

/- A name whose first character behind low lines is a
   letter. -/
def HasInitial
    (name : String) :
    Prop :=
  (name.toList.dropWhile (· == '_')).head?.any
    Char.isAlpha = true

instance instDecidableHasInitial
    (name : String) :
    Decidable (HasInitial name) :=
  inferInstanceAs (Decidable (_ = _))

theorem toList_pascalCase
    (name : String) :
    (pascalCase name).toList =
      (Text.splitOn '_' name.toList).flatMap
        Text.capitalize := by
  rw [pascalCase, String.toList_ofList]

/- Capitalization keeps to the characters of names. -/
theorem inName_pascalCase
    {name : String}
    (hName : ∀ c ∈ name.toList, Terminal.inName c = true) :
    ∀ c ∈ (pascalCase name).toList,
      Terminal.inName c = true := by
  rw [toList_pascalCase]
  intro d hMem
  rcases List.mem_flatMap.mp hMem with ⟨piece, hPiece, hIn⟩
  rcases Text.mem_capitalize hIn with ⟨c, hC, hD⟩
  have hFlat : c ∈ (Text.splitOn '_' name.toList).flatten :=
    List.mem_flatten_of_mem hPiece hC
  rw [Text.flatten_splitOn] at hFlat
  have hChar := hName c (List.mem_filter.mp hFlat).1
  rcases hD with rfl | hUpper
  · exact hChar
  · rw [Text.capitals_of_inName hChar,
      List.mem_singleton] at hUpper
    rw [hUpper]
    exact Text.inName_toUpper hChar

/- A character that is neither a low line nor has a capital form
   is kept. -/
theorem mem_pascalCase
    {name : String}
    {c : Char}
    (hMem : c ∈ name.toList)
    (hLine : c ≠ '_')
    (hSame : Text.capitals c = [c]) :
    c ∈ (pascalCase name).toList := by
  have hFlat : c ∈ (Text.splitOn '_' name.toList).flatten := by
    rw [Text.flatten_splitOn, List.mem_filter]
    exact ⟨hMem, by simpa using hLine⟩
  rcases List.mem_flatten.mp hFlat with ⟨piece, hPiece, hIn⟩
  rw [toList_pascalCase]
  exact List.mem_flatMap.mpr ⟨piece, hPiece,
    Text.mem_capitalize_of_mem hIn hSame⟩

/- The first character behind low lines comes first. -/
theorem head?_capitalized
    {cs : List Char}
    (hCs : ∀ c ∈ cs, Terminal.inName c = true) :
    ((Text.splitOn '_' cs).flatMap Text.capitalize).head? =
      (cs.dropWhile (· == '_')).head?.map Char.toUpper := by
  induction cs with
  | nil => rfl
  | cons c cs ih =>
      rw [List.forall_mem_cons] at hCs
      rw [Text.splitOn]
      by_cases hLine : c = '_'
      · rw [hLine]
        exact ih hCs.2
      · have hNot : (c == '_') = false := by
          simpa using hLine
        simp only [List.dropWhile_cons, hNot,
          Bool.false_eq_true, if_false]
        cases Text.splitOn '_' cs with
        | nil =>
            simp [Text.capitalize,
              Text.capitals_of_inName hCs.1]
        | cons piece pieces =>
            simp [Text.capitalize,
              Text.capitals_of_inName hCs.1]

/- A capitalized name is a name if it has a letter to start
   with. -/
theorem isName_pascalCase_iff
    {name : String}
    (hName : ∀ c ∈ name.toList, Terminal.inName c = true) :
    IsName (pascalCase name) ↔ HasInitial name := by
  have hChars := inName_pascalCase hName
  have hHead := head?_capitalized hName
  rw [← toList_pascalCase] at hHead
  rw [isName_iff, HasInitial]
  cases hRest : name.toList.dropWhile (· == '_') with
  | nil =>
      rw [hRest] at hHead
      have hNil := List.head?_eq_none_iff.mp hHead
      simp [hNil]
  | cons c cs =>
      rw [hRest] at hHead
      have hC : c ∈ name.toList :=
        (List.dropWhile_sublist _).subset
          (hRest ▸ List.mem_cons_self)
      have hLine : c ≠ '_' := by
        have hFirst := List.head?_dropWhile_not (· == '_')
          name.toList
        rw [hRest] at hFirst
        simpa using hFirst
      have hStarts : Terminal.startsName c.toUpper =
          c.isAlpha := by
        have hSame := Text.of_forall_ascii
          (p := fun c => !Terminal.inName c || c == '_' ||
            Terminal.startsName c.toUpper == c.isAlpha)
          (by decide)
          (Terminal.isAscii_of_inName (hName c hC))
        simpa [hName c hC, hLine] using hSame
      rcases List.head?_eq_some_iff.mp hHead with
        ⟨tail, hText⟩
      rw [hText, List.forall_mem_cons] at hChars
      constructor
      · rintro ⟨d, ds, hCons, hFirst, -⟩
        rw [hText] at hCons
        cases hCons
        exact hStarts.symm.trans hFirst
      · intro hAlpha
        exact ⟨_, tail, hText, hStarts.trans hAlpha,
          hChars.2⟩

/- The class of a name is an identifier if the name has a
   namespace or a letter to start with. -/
theorem isIdentifier_className_iff
    {name : FullName}
    (hName : name.IsSpelled) :
    IsIdentifier (className name.text) ↔
      name.space.isSome = true ∨ HasInitial name.member := by
  have hMember := hName.member.inName
  rw [className, Qualified.space?_text hName,
    Qualified.member_text hName]
  cases hSpace : name.space with
  | none =>
      rw [qualify, isIdentifier_escape_iff,
        isName_pascalCase_iff hMember]
      simp
  | some space =>
      have hIs := hName.space space hSpace
      rw [qualify_of_ne_empty _ hIs.ne_empty,
        isIdentifier_qualified_iff hIs.ne_empty]
      simp only [Option.isSome_some, true_or, iff_true]
      exact ⟨hIs, inName_escape (inName_pascalCase hMember)⟩

end Naming

------------------------------------------------------------
-- Unions
------------------------------------------------------------

/- The spelling of a qualified name. -/
def IsFullName
    (text : String) :
    Prop :=
  ∃ name : FullName, name.IsSpelled ∧ text = name.text

/- What stands behind all points of a text is in its last
   part. -/
theorem Qualified.mem_member
    {text : String}
    {front back : List Char}
    {c : Char}
    (hText : text.toList = front ++ c :: back)
    (hDots : '.' ∉ c :: back) :
    c ∈ (member text).toList := by
  rw [member]
  split
  · rename_i parts hSplit
    rcases parts with ⟨before, after⟩
    have hParts := Text.eq_of_splitLast hSplit
    rw [hText, List.append_eq_append_iff] at hParts
    rw [String.toList_ofList]
    rcases hParts with
      ⟨middle, -, hBack⟩ | ⟨middle, -, hAfter⟩
    · rw [hBack] at hDots
      simp at hDots
    · cases middle with
      | nil =>
          cases hAfter
          exact absurd List.mem_cons_self hDots
      | cons d middle =>
          cases hAfter
          exact List.mem_append_right _ List.mem_cons_self
  · rw [hText]
    exact List.mem_append_right _ List.mem_cons_self

theorem Text.dot_notMem_spaced
    {names : List String}
    (hNames : ∀ name ∈ names, IsName name) :
    '.' ∉ spaced names := by
  rw [spaced, List.mem_flatMap]
  rintro ⟨name, hName, hMem⟩
  rcases List.mem_cons.mp hMem with hSpace | hDot
  · revert hSpace
    decide
  · exact (hNames name hName).dot_not_mem hDot

namespace ResultItem

/- A result with arguments has a sign that no name has, behind
   all of its points. -/
theorem isFullName_or_exists
    {result : ResultItem}
    (hResult : result.IsSpelled) :
    IsFullName result.text ∨
      ∃ c, (c = ' ' ∨ c = '>') ∧
        c ∈ (Qualified.member result.text).toList := by
  cases result with
  | plain head arguments =>
      cases arguments with
      | nil =>
          left
          refine ⟨head, hResult.1, ?_⟩
          rw [text, String.intercalate_singleton]
      | cons argument arguments =>
          right
          have hText : (text (.plain head
              (argument :: arguments))).toList =
              head.text.toList ++
                Text.spaced (argument :: arguments) :=
            Text.toList_intercalate_cons _ _
          exact ⟨' ', .inl rfl, Qualified.mem_member hText
            (Text.dot_notMem_spaced hResult.2)⟩
  | applied head argument =>
      right
      have hText : (text (.applied head argument)).toList =
          (head.text ++ "<" ++ argument.text).toList ++
            ['>'] :=
        String.toList_append
      refine ⟨'>', .inr rfl, Qualified.mem_member hText ?_⟩
      decide

end ResultItem

namespace Naming

/- The last part of a result type keeps to the characters of
   names, capitalized, only in a full name. -/
theorem inName_result_iff
    {result : ResultItem}
    (hResult : result.IsSpelled) :
    (∀ c ∈ (pascalCase
        (Qualified.member result.text)).toList,
      Terminal.inName c = true) ↔
      IsFullName result.text := by
  constructor
  · intro hChars
    rcases ResultItem.isFullName_or_exists hResult with
      hFull | ⟨c, hSign, hMem⟩
    · exact hFull
    · have hSame : c ≠ '_' ∧ Text.capitals c = [c] ∧
          Terminal.inName c = false := by
        rcases hSign with rfl | rfl <;> decide
      have hIn := hChars c
        (mem_pascalCase hMem hSame.1 hSame.2.1)
      rw [hSame.2.2] at hIn
      cases hIn
  · rintro ⟨name, hName, hText⟩
    rw [hText, Qualified.member_text hName]
    exact inName_pascalCase hName.member.inName

theorem isIdentifier_type_iff
    {base : String} :
    IsIdentifier ("Type" ++ base) ↔
      ∀ c ∈ base.toList, Terminal.inName c = true := by
  constructor
  · intro hType c hMem
    apply hType.chars
    rw [String.toList_append]
    exact List.mem_append_right _ hMem
  · intro hBase
    refine isIdentifier_iff.mpr
      ⟨isName_append (by decide) hBase, ?_⟩
    -- no keyword starts like this
    have hAll : (keywords.all fun word =>
        (Text.afterStart "Type".toList
          word.toList).isNone) = true := by
      decide +kernel
    intro hMem
    have hNone := List.all_eq_true.mp hAll _ hMem
    rw [String.toList_append,
      Text.afterStart_eq_some_iff.mpr rfl] at hNone
    cases hNone

/- The union of a result type is an identifier if this is a full
   name. -/
theorem isIdentifier_unionName_iff
    {result : ResultItem}
    (hResult : result.IsSpelled) :
    IsIdentifier (unionName result.text) ↔
      IsFullName result.text := by
  rw [← inName_result_iff hResult, unionName]
  cases hSpace : Qualified.space? result.text with
  | none => exact isIdentifier_type_iff
  | some space =>
      rcases ResultItem.text_eq_cons hResult with
        ⟨c, cs, hCons, hFirst⟩
      have hSome := Qualified.space_ne_empty hCons
        (Terminal.ne_dot_of_inName
          (Terminal.inName_of_startsName hFirst)) hSpace
      rw [qualify_of_ne_empty _ hSome,
        isIdentifier_qualified_iff hSome, String.toList_append,
        List.forall_mem_append]
      constructor
      · exact fun hParts => hParts.2.2
      · intro hChars
        rcases (inName_result_iff hResult).mp hChars with
          ⟨name, hName, hText⟩
        rw [hText, Qualified.space?_text hName] at hSpace
        exact ⟨hName.space space hSpace,
          List.all_eq_true.mp rfl, hChars⟩

end Naming

------------------------------------------------------------
-- Names of a Module
------------------------------------------------------------

/- The name of a namespace member inside the holder. -/
def NamespaceMember.shortName
    (member : NamespaceMember) :
    String :=
  let base :=
    Naming.pascalCase (Qualified.member member.schemaName)
  match member.kind with
  | .ofClass => Naming.escape base
  | .ofUnion => "Type" ++ base

theorem NamespaceMember.canonicalName_eq_shortName
    {member : NamespaceMember}
    {space : String}
    (hSpace :
      Qualified.space? member.schemaName = some space)
    (hSome : space ≠ "") :
    Printer.canonicalName member =
      space ++ "_" ++ member.shortName := by
  rw [Printer.canonicalName, shortName]
  cases member.kind with
  | ofClass =>
      rw [← Naming.qualify_of_ne_empty _ hSome, ← hSpace]
      rfl
  | ofUnion =>
      rw [← Naming.qualify_of_ne_empty _ hSome, ← hSpace]
      rfl

/- What a name is introduced for. -/
inductive NameRole where
  | ofClass (schemaName : String)
  | ofUnion (schemaName : String)
  | holder (space : String)
  | short (member : NamespaceMember)
  | parameter

namespace NameRole

/- Whether a name comes from a schema name that makes it an
   identifier. -/
def IsFit :
    NameRole → Prop
  | .ofClass name =>
      (Qualified.space? name).isSome = true ∨
        Naming.HasInitial (Qualified.member name)
  | .ofUnion name => IsFullName name
  | .holder space => IsName space
  | .short member =>
      match member.kind with
      | .ofClass =>
          Naming.HasInitial (Qualified.member member.schemaName)
      | .ofUnion => IsFullName member.schemaName
  | .parameter => True

/- What stands before and behind a name in the line that
   introduces it. -/
def frame :
    NameRole → String × String
  | .ofClass _ => ("class ", "(")
  | .ofUnion _ => ("", " = ")
  | .holder _ => ("class ", ":")
  | .short _ => ("    ", " = ")
  | .parameter => ("        ", ": ")

/- Whether a line introduces a name. -/
def Opens
    (role : NameRole)
    (name line : String) :
    Prop :=
  ∃ rest, line = role.frame.1 ++ name ++ role.frame.2 ++ rest

end NameRole

namespace ModuleDecl

/- The names that a module introduces: those of its classes,
   unions and holders, of the members inside the holders, and of
   the parameters of constructors. -/
inductive Introduces
    (decl : ModuleDecl) :
    NameRole → String → Prop where
  | ofClass
      {item : ClassDecl}
      (hItem : item ∈ decl.classes) :
      Introduces decl (.ofClass item.schemaName)
        (Naming.className item.schemaName)
  | ofUnion
      {item : UnionDecl}
      (hItem : item ∈ decl.unions) :
      Introduces decl (.ofUnion item.schemaName)
        (Naming.unionName item.schemaName)
  | holder
      {space : NamespaceDecl}
      (hSpace : space ∈ decl.namespaces) :
      Introduces decl (.holder space.name)
        (Naming.holderName space.name)
  | short
      {space : NamespaceDecl}
      {member : NamespaceMember}
      {name : String}
      (hSpace : space ∈ decl.namespaces)
      (hMember : member ∈ space.members)
      (hName : Naming.aliasName?
        (Printer.canonicalName member) space.name = some name) :
      Introduces decl (.short member) name
  | parameter
      {item : ClassDecl}
      {field : FieldDecl}
      (hItem : item ∈ decl.classes)
      (hField : field ∈ item.params) :
      Introduces decl .parameter
        (Naming.attributeName field.name)

end ModuleDecl

namespace Compiled.IsChecked

variable {text : String} {options : CompileOptions}
variable {compiled : Compiled}

theorem isRead
    (hChecked : compiled.IsChecked text options)
    {record : Record}
    (hRecord : record ∈ Record.kept options.skippedTags
      compiled.schema.records) :
    record.IsRead := by
  rcases Paired.exists_right hChecked.isFrom hRecord with
    ⟨shape, -, hFrom⟩
  exact hFrom.isRead

/- The classes have the names of the records. -/
theorem exists_class_iff
    (hChecked : compiled.IsChecked text options)
    (name : String) :
    (∃ item ∈ compiled.decl.classes,
        item.schemaName = name) ↔
      ∃ record ∈ Record.kept options.skippedTags
          compiled.schema.records,
        record.name = name := by
  rw [← List.mem_map, ← List.mem_map, hChecked.decl,
    ModuleDecl.classNames_ofChecked _ _ hChecked.isFrom]

/- The unions have the names of result types. -/
theorem exists_union_iff
    (hChecked : compiled.IsChecked text options)
    (name : String) :
    (∃ item ∈ compiled.decl.unions,
        item.schemaName = name) ↔
      ∃ record ∈ Record.kept options.skippedTags
          compiled.schema.records,
        record.kind = .constructor ∧
          record.resultType = name := by
  rw [← List.mem_map, hChecked.decl,
    ModuleDecl.unionNames_ofChecked _ _ hChecked.isFrom,
    Record.resultTypes, List.mem_eraseDups]
  simp [and_assoc]

theorem exists_member_iff
    (hChecked : compiled.IsChecked text options)
    (member : NamespaceMember)
    (space : String) :
    (∃ decl ∈ compiled.decl.namespaces,
        decl.name = space ∧ member ∈ decl.members) ↔
      (space, member) ∈ NamespaceDecl.entries
        compiled.decl.classes compiled.decl.unions := by
  rw [hChecked.decl]
  exact NamespaceDecl.exists_member_iff

/- Every class has the spelling of a qualified name. -/
theorem exists_fullName
    (hChecked : compiled.IsChecked text options)
    {item : ClassDecl}
    (hItem : item ∈ compiled.decl.classes) :
    ∃ name : FullName, name.IsSpelled ∧
      item.schemaName = name.text := by
  rcases (hChecked.exists_class_iff _).mp
    ⟨item, hItem, rfl⟩ with ⟨record, hRecord, hSame⟩
  rw [← hSame]
  exact (hChecked.isRead hRecord).name

/- Every union has the spelling of a result. -/
theorem exists_result
    (hChecked : compiled.IsChecked text options)
    {item : UnionDecl}
    (hItem : item ∈ compiled.decl.unions) :
    ∃ result : ResultItem, result.IsSpelled ∧
      item.schemaName = result.text := by
  rcases (hChecked.exists_union_iff _).mp
    ⟨item, hItem, rfl⟩ with ⟨record, hRecord, -, hSame⟩
  rw [← hSame]
  exact (hChecked.isRead hRecord).result

theorem isName_field
    (hChecked : compiled.IsChecked text options)
    {item : ClassDecl}
    {field : FieldDecl}
    (hItem : item ∈ compiled.decl.classes)
    (hField : field ∈ item.fields) :
    IsName field.name := by
  rcases ClassDecl.exists_combinator hChecked hItem with
    ⟨combinator, hDeclares⟩
  have hParam : Param.mk field.name field.rawType ∈
      combinator.params.map fun param =>
        Param.mk param.name param.wireType := by
    rw [← hDeclares.fields]
    exact List.mem_map_of_mem hField
  rcases List.mem_map.mp hParam with ⟨param, hMem, hSame⟩
  injection hSame with hName
  rw [← hName]
  exact ParamItem.isName_of_isNamed
    (hDeclares.spelled.opening.params param hMem)
    (hDeclares.named param hMem)

/- Inside its holder a member has its short name. -/
theorem short_eq
    (hChecked : compiled.IsChecked text options)
    {space : NamespaceDecl}
    {member : NamespaceMember}
    (hSpace : space ∈ compiled.decl.namespaces)
    (hMember : member ∈ space.members) :
    Naming.aliasName? (Printer.canonicalName member)
      space.name = some member.shortName := by
  rw [hChecked.decl] at hSpace
  rcases ModuleDecl.namespace_ne_empty hChecked.isFrom hSpace
    hMember with ⟨hName, hSome⟩
  rw [NamespaceMember.canonicalName_eq_shortName hName hSome]
  exact Naming.aliasName?_append _ _

theorem isIdentifier_shortName_iff
    (hChecked : compiled.IsChecked text options)
    {space : NamespaceDecl}
    {member : NamespaceMember}
    (hSpace : space ∈ compiled.decl.namespaces)
    (hMember : member ∈ space.members) :
    Naming.IsIdentifier member.shortName ↔
      (NameRole.short member).IsFit := by
  have hEntry := (hChecked.exists_member_iff _ _).mp
    ⟨space, hSpace, rfl, hMember⟩
  have hDeclared := (NamespaceDecl.mem_entries_iff.mp hEntry).2
  rcases member with ⟨schemaName, kind⟩
  cases kind with
  | ofClass =>
      rcases hDeclared with ⟨item, hItem, rfl⟩
      rcases hChecked.exists_fullName hItem with
        ⟨name, hName, hText⟩
      rw [NamespaceMember.shortName, NameRole.IsFit, hText,
        Qualified.member_text hName,
        Naming.isIdentifier_escape_iff,
        Naming.isName_pascalCase_iff hName.member.inName]
  | ofUnion =>
      rcases hDeclared with ⟨item, hItem, rfl⟩
      rcases hChecked.exists_result hItem with
        ⟨result, hResult, hText⟩
      rw [NamespaceMember.shortName, NameRole.IsFit, hText,
        Naming.isIdentifier_type_iff,
        Naming.inName_result_iff hResult]

/- A name is an identifier exactly when it comes from a fitting
   schema name. -/
theorem isIdentifier_iff_isFit
    (hChecked : compiled.IsChecked text options)
    {role : NameRole}
    {name : String}
    (hName : compiled.decl.Introduces role name) :
    Naming.IsIdentifier name ↔ role.IsFit := by
  cases hName with
  | ofClass hItem =>
      rcases hChecked.exists_fullName hItem with
        ⟨name, hName, hText⟩
      rw [NameRole.IsFit, hText, Qualified.space?_text hName,
        Qualified.member_text hName]
      exact Naming.isIdentifier_className_iff hName
  | ofUnion hItem =>
      rcases hChecked.exists_result hItem with
        ⟨result, hResult, hText⟩
      rw [NameRole.IsFit, hText]
      exact Naming.isIdentifier_unionName_iff hResult
  | holder hSpace => exact Naming.isIdentifier_escape_iff
  | short hSpace hMember hShort =>
      rw [hChecked.short_eq hSpace hMember] at hShort
      cases hShort
      exact hChecked.isIdentifier_shortName_iff hSpace hMember
  | parameter hItem hField =>
      have hIs := hChecked.isName_field hItem
        (List.mem_filter.mp hField).1
      exact iff_of_true
        (Naming.isIdentifier_escape_iff.mpr hIs) trivial

/- The name of a holder is the namespace of a class or a
   union. -/
theorem isName_space
    (hChecked : compiled.IsChecked text options)
    (hUnions : ∀ item ∈ compiled.decl.unions,
      IsFullName item.schemaName)
    {space : NamespaceDecl}
    (hSpace : space ∈ compiled.decl.namespaces) :
    IsName space.name := by
  have hNames : space.name ∈
      ((compiled.decl.classes.map ClassDecl.schemaName ++
        compiled.decl.unions.map
          UnionDecl.schemaName).filterMap
            Qualified.space?).eraseDups := by
    rw [← NamespaceDecl.names_ofMembers]
    rw [hChecked.decl] at hSpace ⊢
    exact List.mem_map_of_mem hSpace
  rw [List.mem_eraseDups, List.mem_filterMap] at hNames
  rcases hNames with ⟨schemaName, hMem, hOf⟩
  have hFull : IsFullName schemaName := by
    rcases List.mem_append.mp hMem with hClass | hUnion
    · rcases List.mem_map.mp hClass with ⟨item, hItem, rfl⟩
      exact hChecked.exists_fullName hItem
    · rcases List.mem_map.mp hUnion with ⟨item, hItem, rfl⟩
      exact hUnions item hItem
  rcases hFull with ⟨name, hName, rfl⟩
  rw [Qualified.space?_text hName] at hOf
  exact hName.space _ hOf

theorem isFit_of_introduces
    (hChecked : compiled.IsChecked text options)
    (hClasses : ∀ item ∈ compiled.decl.classes,
      Naming.HasInitial (Qualified.member item.schemaName))
    (hUnions : ∀ item ∈ compiled.decl.unions,
      IsFullName item.schemaName)
    {role : NameRole}
    {name : String}
    (hName : compiled.decl.Introduces role name) :
    role.IsFit := by
  cases hName with
  | ofClass hItem => exact .inr (hClasses _ hItem)
  | ofUnion hItem => exact hUnions _ hItem
  | holder hSpace => exact hChecked.isName_space hUnions hSpace
  | @short space member name hSpace hMember hShort =>
      have hEntry := (hChecked.exists_member_iff _ _).mp
        ⟨space, hSpace, rfl, hMember⟩
      have hDeclared :=
        (NamespaceDecl.mem_entries_iff.mp hEntry).2
      rcases member with ⟨schemaName, kind⟩
      cases kind with
      | ofClass =>
          rcases hDeclared with ⟨item, hItem, rfl⟩
          exact hClasses item hItem
      | ofUnion =>
          rcases hDeclared with ⟨item, hItem, rfl⟩
          exact hUnions item hItem
  | parameter hItem hField => trivial

/- All names are identifiers exactly when the records have names
   with a letter to start with, and result types without
   arguments. -/
theorem all_isIdentifier_iff
    (hChecked : compiled.IsChecked text options) :
    (∀ role name, compiled.decl.Introduces role name →
        Naming.IsIdentifier name) ↔
      ∀ record ∈ Record.kept options.skippedTags
          compiled.schema.records,
        Naming.HasInitial (Qualified.member record.name) ∧
          (record.kind = .constructor →
            IsFullName record.resultType) := by
  constructor
  · intro hAll record hRecord
    constructor
    · rcases (hChecked.exists_class_iff _).mpr
        ⟨record, hRecord, rfl⟩ with ⟨item, hItem, hSame⟩
      rw [← hSame]
      cases hSpace : Qualified.space? item.schemaName with
      | none =>
          have hFit := (hChecked.isIdentifier_iff_isFit
            (.ofClass hItem)).mp (hAll _ _ (.ofClass hItem))
          rw [NameRole.IsFit, hSpace] at hFit
          simpa using hFit
      | some space =>
          -- the class has a namespace, so its short name counts
          have hEntry : (space,
              NamespaceMember.mk item.schemaName .ofClass) ∈
              NamespaceDecl.entries compiled.decl.classes
                compiled.decl.unions :=
            NamespaceDecl.mem_entries_iff.mpr
              ⟨hSpace, item, hItem, rfl⟩
          rcases (hChecked.exists_member_iff _ _).mpr hEntry
            with ⟨decl, hDecl, -, hMember⟩
          exact (hChecked.isIdentifier_shortName_iff hDecl
            hMember).mp (hAll _ _ (.short hDecl hMember
              (hChecked.short_eq hDecl hMember)))
    · intro hKind
      rcases (hChecked.exists_union_iff _).mpr
        ⟨record, hRecord, hKind, rfl⟩ with
        ⟨item, hItem, hSame⟩
      rw [← hSame]
      exact (hChecked.isIdentifier_iff_isFit
        (.ofUnion hItem)).mp (hAll _ _ (.ofUnion hItem))
  · intro hRecords role name hName
    have hClasses : ∀ item ∈ compiled.decl.classes,
        Naming.HasInitial
          (Qualified.member item.schemaName) := by
      intro item hItem
      rcases (hChecked.exists_class_iff _).mp
        ⟨item, hItem, rfl⟩ with ⟨record, hRecord, hSame⟩
      rw [← hSame]
      exact (hRecords record hRecord).1
    have hUnions : ∀ item ∈ compiled.decl.unions,
        IsFullName item.schemaName := by
      intro item hItem
      rcases (hChecked.exists_union_iff _).mp
        ⟨item, hItem, rfl⟩ with
        ⟨record, hRecord, hKind, hSame⟩
      rw [← hSame]
      exact (hRecords record hRecord).2 hKind
    rw [hChecked.isIdentifier_iff_isFit hName]
    exact hChecked.isFit_of_introduces hClasses hUnions hName

end Compiled.IsChecked

------------------------------------------------------------
-- Lines that Introduce Names
------------------------------------------------------------

namespace Printer

/- An indented line that starts with a name introduces it. -/
theorem opens_line
    {role : NameRole}
    {depth : Nat}
    (hIndent : role.frame.1 =
      String.ofList (List.replicate (4 * depth) ' '))
    (hMark : role.frame.2 ≠ "")
    (name rest : String) :
    role.Opens name
      (line depth (name ++ role.frame.2 ++ rest)) := by
  have hSome : ¬ (name ++ role.frame.2 ++ rest).isEmpty =
      true := by
    simp [hMark]
  rw [line, if_neg hSome, ← hIndent]
  exact ⟨rest, by simp only [String.append_assoc]⟩

theorem opens_of_parameterLine
    {field : FieldDecl}
    {text : String}
    (hText : parameterLine field = .ok text) :
    NameRole.parameter.Opens
      (Naming.attributeName field.name) text := by
  rcases Outcome.map_eq_ok_iff.mp hText with
    ⟨type, -, hText⟩
  have hIndent : NameRole.parameter.frame.1 =
      String.ofList (List.replicate (4 * 2) ' ') := by
    decide
  have hOpens := opens_line hIndent (by decide)
    (Naming.attributeName field.name)
  have hWord : ": typing.Optional[" =
      ": " ++ "typing.Optional[" := by
    decide
  rw [← hText]
  dsimp only
  split
  · rw [hWord]
    simp only [String.append_assoc]
    rw [← String.append_assoc]
    exact hOpens _
  · rw [String.append_assoc]
    exact hOpens _

theorem opens_of_constructorLines
    {params : List FieldDecl}
    {lines : List String}
    (hLines : constructorLines params = .ok lines)
    {field : FieldDecl}
    (hField : field ∈ params) :
    ∃ line ∈ lines, NameRole.parameter.Opens
      (Naming.attributeName field.name) line := by
  unfold constructorLines at hLines
  split at hLines
  · rename_i hEmpty
    rw [List.isEmpty_iff.mp hEmpty] at hField
    cases hField
  · rcases Outcome.bind_eq_ok_iff.mp hLines with
      ⟨parameters, hParameters, hEq⟩
    cases hEq
    rcases Paired.exists_right
      (Outcome.mapM_eq_ok_iff.mp hParameters) hField with
      ⟨line, hLine, hParameter⟩
    exact ⟨line, by simp [hLine],
      opens_of_parameterLine hParameter⟩

theorem opens_of_classLines
    {item : ClassDecl}
    {lines : List String}
    (hLines : classLines item = .ok lines) :
    (∃ line ∈ lines,
      (NameRole.ofClass item.schemaName).Opens
        (Naming.className item.schemaName) line) ∧
    ∀ field ∈ item.params,
      ∃ line ∈ lines, NameRole.parameter.Opens
        (Naming.attributeName field.name) line := by
  unfold classLines at hLines
  rcases Outcome.bind_eq_ok_iff.mp hLines with
    ⟨base, -, hLines⟩
  rcases Outcome.bind_eq_ok_iff.mp hLines with
    ⟨tag, -, hLines⟩
  rcases Outcome.bind_eq_ok_iff.mp hLines with
    ⟨params, -, hLines⟩
  rcases Outcome.bind_eq_ok_iff.mp hLines with
    ⟨constructor, hConstructor, hEq⟩
  cases hEq
  constructor
  · exact ⟨_, List.mem_cons_self, base ++ "):",
      String.append_assoc⟩
  · intro field hField
    rcases opens_of_constructorLines hConstructor hField with
      ⟨line, hLine, hOpens⟩
    exact ⟨line, by simp [hLine], hOpens⟩

theorem opens_of_unionLines
    {unions : List UnionDecl}
    {item : UnionDecl}
    (hItem : item ∈ unions)
    (hMembers : item.members ≠ []) :
    ∃ line ∈ unionLines unions,
      (NameRole.ofUnion item.schemaName).Opens
        (Naming.unionName item.schemaName) line := by
  have hAlias : ∃ line ∈ aliasLines
        (Naming.unionName item.schemaName)
        (item.members.map Naming.className),
      (NameRole.ofUnion item.schemaName).Opens
        (Naming.unionName item.schemaName) line := by
    cases hNames : item.members.map Naming.className with
    | nil =>
        exact absurd (List.map_eq_nil_iff.mp hNames) hMembers
    | cons first others =>
        cases others with
        | nil =>
            refine ⟨_, List.mem_cons_self, first, ?_⟩
            simp [NameRole.frame]
        | cons second others =>
            refine ⟨_, List.mem_cons_self, "typing.Union[", ?_⟩
            simp [NameRole.frame, String.append_assoc]
  rcases hAlias with ⟨line, hLine, hOpens⟩
  refine ⟨line, ?_, hOpens⟩
  rw [unionLines]
  apply List.mem_append_left
  exact List.mem_flatMap.mpr ⟨item, hItem, hLine⟩

theorem opens_of_namespaceLines
    {space : NamespaceDecl}
    {lines : List String}
    (hLines : namespaceLines space = .ok lines) :
    (∃ line ∈ lines,
      (NameRole.holder space.name).Opens
        (Naming.holderName space.name) line) ∧
    ∀ member ∈ space.members, ∀ name,
      Naming.aliasName? (canonicalName member) space.name =
        some name →
      ∃ line ∈ lines,
        (NameRole.short member).Opens name line := by
  unfold namespaceLines at hLines
  rcases Outcome.bind_eq_ok_iff.mp hLines with
    ⟨members, hMembers, hEq⟩
  cases hEq
  constructor
  · refine ⟨_, List.mem_cons_self, "", ?_⟩
    simp [NameRole.frame]
  · intro member hMember name hName
    rcases Paired.exists_right
      (Outcome.mapM_eq_ok_iff.mp hMembers) hMember with
      ⟨line, hLine, hText⟩
    refine ⟨line, by simp [hLine], ?_⟩
    simp only [memberLine, hName] at hText
    cases hText
    have hIndent : (NameRole.short member).frame.1 =
        String.ofList (List.replicate (4 * 1) ' ') := by
      change "    " = _
      decide
    have hMark : (NameRole.short member).frame.2 ≠ "" := by
      simp [NameRole.frame]
    exact opens_line hIndent hMark name (canonicalName member)

end Printer

namespace ModuleDecl

/- Every name that a printed module introduces starts a line of
   its own. -/
theorem opens_of_lines
    {decl : ModuleDecl}
    {basesModule : String}
    {lines : List String}
    (hMembers : ∀ item ∈ decl.unions, item.members ≠ [])
    (hLines : decl.lines basesModule = .ok lines)
    {role : NameRole}
    {name : String}
    (hName : decl.Introduces role name) :
    ∃ line ∈ lines, role.Opens name line := by
  rcases exists_of_lines hLines with
    ⟨classes, namespaces, tables, -, hClasses, hNamespaces, -,
      hText⟩
  rw [hText]
  have hFound : ∃ line, (line ∈ classes ∨
      line ∈ Printer.unionLines decl.unions ∨
      line ∈ namespaces) ∧ role.Opens name line := by
    cases hName with
    | ofClass hItem =>
        rcases Printer.mem_of_concat hClasses hItem with
          ⟨own, hOwn, hIn⟩
        rcases (Printer.opens_of_classLines hOwn).1 with
          ⟨line, hLine, hOpens⟩
        exact ⟨line, .inl (hIn line hLine), hOpens⟩
    | ofUnion hItem =>
        rcases Printer.opens_of_unionLines hItem
          (hMembers _ hItem) with ⟨line, hLine, hOpens⟩
        exact ⟨line, .inr (.inl hLine), hOpens⟩
    | holder hSpace =>
        rcases Printer.mem_of_concat hNamespaces hSpace with
          ⟨own, hOwn, hIn⟩
        rcases (Printer.opens_of_namespaceLines hOwn).1 with
          ⟨line, hLine, hOpens⟩
        exact ⟨line, .inr (.inr (hIn line hLine)), hOpens⟩
    | short hSpace hMember hShort =>
        rcases Printer.mem_of_concat hNamespaces hSpace with
          ⟨own, hOwn, hIn⟩
        rcases (Printer.opens_of_namespaceLines hOwn).2 _
          hMember _ hShort with ⟨line, hLine, hOpens⟩
        exact ⟨line, .inr (.inr (hIn line hLine)), hOpens⟩
    | parameter hItem hField =>
        rcases Printer.mem_of_concat hClasses hItem with
          ⟨own, hOwn, hIn⟩
        rcases (Printer.opens_of_classLines hOwn).2 _
          hField with ⟨line, hLine, hOpens⟩
        exact ⟨line, .inl (hIn line hLine), hOpens⟩
  rcases hFound with ⟨line, hLine, hOpens⟩
  refine ⟨line, Printer.mem_trimEnd ?_ ?_, hOpens⟩
  · simp only [List.mem_append]
    rcases hLine with hClass | hUnion | hSpace
    · exact .inl (.inl (.inl (.inl (.inr hClass))))
    · exact .inl (.inl (.inl (.inr hUnion)))
    · exact .inl (.inl (.inr hSpace))
  · rcases hOpens with ⟨rest, rfl⟩
    cases role <;> simp [NameRole.frame]

end ModuleDecl

------------------------------------------------------------
-- Identifiers of Compiled Modules
------------------------------------------------------------

theorem Compiled.IsChecked.members_ne_nil
    {text : String}
    {options : CompileOptions}
    {compiled : Compiled}
    (hChecked : compiled.IsChecked text options)
    {item : UnionDecl}
    (hItem : item ∈ compiled.decl.unions) :
    item.members ≠ [] := by
  rw [hChecked.decl] at hItem
  rcases List.mem_map.mp hItem with ⟨group, hGroup, rfl⟩
  exact GroupTable.members_ne_nil hGroup

/- Which names of a compiled module are identifiers.  Each name
   starts a line of the text.  Parameters and the classes in
   namespaces always have identifiers.  Any other name has one
   exactly when it comes from a fitting schema name, so all of
   them do exactly when no schema name starts with a digit
   behind low lines or is made of low lines alone, and no
   constructor has a result type with arguments. -/
theorem isIdentifier_iff_of_compile
    {text : String}
    {options : CompileOptions}
    {compiled : Compiled}
    (hCompile : compile text options = .ok compiled) :
    (∃ lines,
      compiled.module = "\n".intercalate lines ++ "\n" ∧
      ∀ role name, compiled.decl.Introduces role name →
        ∃ line ∈ lines, role.Opens name line) ∧
    (∀ role name, compiled.decl.Introduces role name →
      (Naming.IsIdentifier name ↔ role.IsFit)) ∧
    ((∀ role name, compiled.decl.Introduces role name →
        Naming.IsIdentifier name) ↔
      ∀ record ∈ Record.kept options.skippedTags
          compiled.schema.records,
        Naming.HasInitial (Qualified.member record.name) ∧
          (record.kind = .constructor →
            IsFullName record.resultType)) := by
  have hChecked := isChecked_of_compile hCompile
  refine ⟨?_, ?_, hChecked.all_isIdentifier_iff⟩
  · rcases compile_eq_ok_iff.mp hCompile with
      ⟨schema, -, hSchema⟩
    rcases Schema.compile_eq_ok_iff.mp hSchema with
      ⟨shapes, module, -, -, -, -, hModule, rfl⟩
    rcases Outcome.map_eq_ok_iff.mp hModule with
      ⟨lines, hLines, hText⟩
    refine ⟨lines, hText.symm, ?_⟩
    intro role name hName
    exact ModuleDecl.opens_of_lines
      (fun item => hChecked.members_ne_nil) hLines hName
  · intro role name hName
    exact hChecked.isIdentifier_iff_isFit hName

/- Keywords as the names of a class, a parameter and a
   namespace. -/
theorem isIdentifier_keywords :
    ∃ compiled,
      compile ("x.none#1 class:int = x.T; _a_1#2 = Some; " ++
          "---functions--- in.f#3 = x.T;")
        (Sample.skipping []) = .ok compiled ∧
      compiled.decl.Introduces (.holder "in") "in_" ∧
      ∀ role name, compiled.decl.Introduces role name →
        Naming.IsIdentifier name := by
  have hPasses : Outcome.passes
      (fun compiled => decide
        (((Record.kept [] compiled.schema.records).map
            fun record =>
              (record.name, record.kind, record.resultType)) =
            [("x.none", .constructor, "x.T"),
              ("_a_1", .constructor, "Some"),
              ("in.f", .function, "x.T")] ∧
          ⟨"in", [⟨"in.f", .ofClass⟩]⟩ ∈
            compiled.decl.namespaces))
      (compile ("x.none#1 class:int = x.T; _a_1#2 = Some; " ++
          "---functions--- in.f#3 = x.T;")
        (Sample.skipping [])) = true := by
    decide +kernel
  rcases Outcome.exists_of_passes hPasses with
    ⟨compiled, hCompile, hParts⟩
  rcases of_decide_eq_true hParts with ⟨hRecords, hSpace⟩
  refine ⟨compiled, hCompile, .holder hSpace, ?_⟩
  refine (isIdentifier_iff_of_compile hCompile).2.2.mpr ?_
  intro record hRecord
  have hMem : (record.name, record.kind, record.resultType) ∈
      [("x.none", RecordKind.constructor, "x.T"),
        ("_a_1", .constructor, "Some"),
        ("in.f", .function, "x.T")] := by
    rw [← hRecords]
    exact List.mem_map_of_mem hRecord
  simp only [List.mem_cons, Prod.mk.injEq, List.not_mem_nil,
    or_false] at hMem
  rcases hMem with ⟨hName, -, hResult⟩ | ⟨hName, -, hResult⟩ |
    ⟨hName, hKind, -⟩
  · rw [hName, hResult]
    exact ⟨by decide, fun _ => ⟨⟨some "x", "T"⟩,
      FullName.isSpelled_qualified (by decide) (by decide),
      by decide⟩⟩
  · rw [hName, hResult]
    exact ⟨by decide, fun _ => ⟨⟨none, "Some"⟩,
      FullName.isSpelled_simple (by decide), rfl⟩⟩
  · rw [hName, hKind]
    refine ⟨by decide, ?_⟩
    rintro ⟨⟩

/- The class of a name of low lines alone has no name. -/
theorem not_isIdentifier_lowLine :
    ∃ compiled,
      compile "_#1 = X;" (Sample.skipping []) =
        .ok compiled ∧
      compiled.decl.Introduces (.ofClass "_") "" ∧
      ¬ Naming.IsIdentifier "" := by
  have hPasses : Outcome.passes
      (fun compiled => compiled.decl.classes.any fun item =>
        decide (item.schemaName = "_"))
      (compile "_#1 = X;" (Sample.skipping [])) = true := by
    decide +kernel
  rcases Outcome.exists_of_passes hPasses with
    ⟨compiled, hCompile, hAny⟩
  rcases List.any_eq_true.mp hAny with ⟨item, hItem, hName⟩
  have hIntroduces :=
    ModuleDecl.Introduces.ofClass hItem
  have hClass : Naming.className "_" = "" := by
    decide
  rw [of_decide_eq_true hName, hClass] at hIntroduces
  refine ⟨compiled, hCompile, hIntroduces, ?_⟩
  intro hIdentifier
  exact hIdentifier.nonempty rfl

end WireSchema
