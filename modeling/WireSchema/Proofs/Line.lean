import WireSchema.Proofs.Constant
import WireSchema.Proofs.Identifier

/-
  The lines of a generated module.

  A text of lines, each with a line break at its end, tells its
  lines apart as long as none has a line break inside.  The
  names of a module are plain: they have no line break and no
  opening parenthesis, and neither has what they come from in
  the schema.  A wire type may have other signs but stays on its
  line, and a literal writes line breaks as escapes.

  Main declarations:
    * `Printer.ended`
    * `Text.append_cons_inj`
    * `Text.IsInline`
    * `Text.IsPlain`
    * `Printer.docstring_inj`
    * `Combinator.Declares.isInline_schemaLine`
-/

namespace WireSchema

------------------------------------------------------------
-- Ends of Lines
------------------------------------------------------------

namespace Text

/- Two texts are the same up to the first character that stops
   them. -/
theorem append_cons_inj
    {p : Char → Prop}
    {front others rest last : List Char}
    {c d : Char}
    (hFront : ∀ x ∈ front, ¬ p x)
    (hOthers : ∀ x ∈ others, ¬ p x)
    (hC : p c)
    (hD : p d)
    (hSame : front ++ c :: rest = others ++ d :: last) :
    front = others ∧ c = d ∧ rest = last := by
  induction front generalizing others with
  | nil =>
      cases others with
      | nil =>
          rw [List.nil_append, List.nil_append,
            List.cons.injEq] at hSame
          exact ⟨rfl, hSame⟩
      | cons x others =>
          rw [List.nil_append, List.cons_append,
            List.cons.injEq] at hSame
          rw [hSame.1] at hC
          exact absurd hC (hOthers x List.mem_cons_self)
  | cons x front ih =>
      cases others with
      | nil =>
          rw [List.nil_append, List.cons_append,
            List.cons.injEq] at hSame
          rw [← hSame.1] at hD
          exact absurd hD (hFront x List.mem_cons_self)
      | cons y others =>
          rw [List.cons_append, List.cons_append,
            List.cons.injEq] at hSame
          rw [List.forall_mem_cons] at hFront hOthers
          rcases ih hFront.2 hOthers.2 hSame.2 with
            ⟨hFronts, hStop, hRest⟩
          rw [hSame.1, hFronts]
          exact ⟨rfl, hStop, hRest⟩

/- Text that stays on its line. -/
def IsInline
    (text : String) :
    Prop :=
  '\n' ∉ text.toList

theorem isInline_append_iff
    {text other : String} :
    IsInline (text ++ other) ↔
      IsInline text ∧ IsInline other := by
  rw [IsInline, String.toList_append, List.mem_append, not_or]
  rfl

theorem isInline_intercalate
    {texts : List String}
    (hTexts : ∀ text ∈ texts, IsInline text) :
    IsInline (" ".intercalate texts) := by
  cases texts with
  | nil => exact List.not_mem_nil
  | cons text texts =>
      rw [List.forall_mem_cons] at hTexts
      rw [IsInline, toList_intercalate_cons, List.mem_append,
        not_or]
      refine ⟨hTexts.1, ?_⟩
      rw [spaced, List.mem_flatMap]
      intro hBreak
      rcases hBreak with ⟨other, hOther, hBreak⟩
      rcases List.mem_cons.mp hBreak with hSpace | hInside
      · exact absurd hSpace (by decide)
      · exact hTexts.2 other hOther hInside

end Text

namespace Printer

/- The text of lines with a line break at the end of each. -/
def ended
    (lines : List String) :
    List Char :=
  lines.flatMap fun line => line.toList ++ ['\n']

@[simp]
theorem ended_nil :
    ended [] = [] :=
  rfl

@[simp]
theorem ended_cons
    (line : String)
    (lines : List String) :
    ended (line :: lines) =
      line.toList ++ '\n' :: ended lines := by
  rw [ended, List.flatMap_cons, List.append_assoc]
  rfl

@[simp]
theorem ended_append
    (lines others : List String) :
    ended (lines ++ others) = ended lines ++ ended others :=
  List.flatMap_append

/- Lines joined by line breaks, and one more at the end. -/
theorem toList_joined
    {lines : List String}
    (hLines : lines ≠ []) :
    ("\n".intercalate lines ++ "\n").toList = ended lines := by
  rw [String.toList_append, String.toList_intercalate]
  induction lines with
  | nil => exact absurd rfl hLines
  | cons line lines ih =>
      cases lines with
      | nil => simp
      | cons other lines =>
          rw [ended_cons, ← ih (List.cons_ne_nil _ _),
            List.map_cons, List.map_cons,
            List.intercalate_cons_cons]
          simp

theorem ended_cons_inj
    {line other : String}
    {lines others : List String}
    {rest last : List Char}
    (hLine : Text.IsInline line)
    (hOther : Text.IsInline other)
    (hSame : ended (line :: lines) ++ rest =
      ended (other :: others) ++ last) :
    line = other ∧
      ended lines ++ rest = ended others ++ last := by
  rw [ended_cons, ended_cons, List.append_assoc,
    List.append_assoc] at hSame
  have hFree : ∀ text : String, Text.IsInline text →
      ∀ c ∈ text.toList, ¬ c = '\n' := by
    intro text hText c hC hBreak
    rw [hBreak] at hC
    exact hText hC
  rcases Text.append_cons_inj (hFree line hLine)
    (hFree other hOther) rfl rfl hSame with
    ⟨hText, -, hRest⟩
  exact ⟨String.toList_injective hText, hRest⟩

end Printer

------------------------------------------------------------
-- Plain Names
------------------------------------------------------------

namespace Text

/- The ASCII characters apart from line breaks and opening
   parentheses. -/
def inPlain
    (c : Char) :
    Bool :=
  decide (c.toNat < 128) && c != '\n' && c != '('

/- Text of such characters. -/
def IsPlain
    (text : String) :
    Prop :=
  ∀ c ∈ text.toList, inPlain c = true

theorem isPlain_append_iff
    {text other : String} :
    IsPlain (text ++ other) ↔
      IsPlain text ∧ IsPlain other := by
  rw [IsPlain, String.toList_append, List.forall_mem_append]
  rfl

theorem IsPlain.isInline
    {text : String}
    (hText : IsPlain text) :
    IsInline text := by
  intro hBreak
  exact absurd (hText _ hBreak) (by decide)

theorem isPlain_of_inName
    {text : String}
    (hText : ∀ c ∈ text.toList, Terminal.inName c = true) :
    IsPlain text := by
  intro c hC
  have hIn := hText c hC
  have hAll := of_forall_ascii
    (p := fun c => !Terminal.inName c || inPlain c)
    (by decide) (Terminal.isAscii_of_inName hIn)
  simpa [hIn] using hAll

theorem isPlain_of_isName
    {name : String}
    (hName : IsName name) :
    IsPlain name :=
  isPlain_of_inName hName.inName

theorem inPlain_capitals
    {c : Char}
    (hC : inPlain c = true) :
    ∀ d ∈ capitals c, inPlain d = true := by
  have hAscii : c.toNat < 128 := by
    simp only [inPlain, Bool.and_eq_true, decide_eq_true_eq]
      at hC
    exact hC.1.1
  have hAll := of_forall_ascii
    (p := fun c => !inPlain c || inPlain c.toUpper)
    (by decide) hAscii
  rw [capitals, if_pos hAscii]
  simpa [hC] using hAll

end Text

namespace Naming

open Text

theorem isPlain_pascalCase
    {name : String}
    (hName : IsPlain name) :
    IsPlain (pascalCase name) := by
  rw [IsPlain, toList_pascalCase]
  intro d hMem
  rcases List.mem_flatMap.mp hMem with ⟨piece, hPiece, hIn⟩
  rcases Text.mem_capitalize hIn with ⟨c, hC, hD⟩
  have hFlat : c ∈ (Text.splitOn '_' name.toList).flatten :=
    List.mem_flatten_of_mem hPiece hC
  rw [Text.flatten_splitOn] at hFlat
  have hChar := hName c (List.mem_filter.mp hFlat).1
  rcases hD with hSame | hUpper
  · rw [hSame]
    exact hChar
  · exact inPlain_capitals hChar d hUpper

theorem isPlain_escape
    {name : String}
    (hName : IsPlain name) :
    IsPlain (escape name) := by
  rw [escape]
  split
  · rw [isPlain_append_iff]
    exact ⟨hName, List.all_eq_true.mp rfl⟩
  · exact hName

/- The parts of a plain name are plain. -/
theorem isPlain_space
    {name space : String}
    (hName : IsPlain name)
    (hSpace : Qualified.space? name = some space) :
    IsPlain space := by
  rcases Option.map_eq_some_iff.mp hSpace with
    ⟨parts, hSplit, hSame⟩
  rw [IsPlain, Text.eq_of_splitLast hSplit,
    List.forall_mem_append] at hName
  rw [← hSame, IsPlain, String.toList_ofList]
  exact hName.1

theorem isPlain_member
    {name : String}
    (hName : IsPlain name) :
    IsPlain (Qualified.member name) := by
  rw [Qualified.member]
  split
  · rename_i parts hSplit
    rw [IsPlain, Text.eq_of_splitLast hSplit,
      List.forall_mem_append, List.forall_mem_cons] at hName
    rw [IsPlain, String.toList_ofList]
    exact hName.2.2
  · exact hName

theorem isPlain_qualify
    {name base : String}
    (hName : IsPlain name)
    (hBase : IsPlain base) :
    IsPlain (qualify (Qualified.space? name) base) := by
  cases hSpace : Qualified.space? name with
  | none => exact hBase
  | some space =>
      rw [qualify]
      split
      · exact hBase
      · rw [isPlain_append_iff, isPlain_append_iff]
        exact ⟨⟨isPlain_space hName hSpace,
          List.all_eq_true.mp rfl⟩, hBase⟩

theorem isPlain_className
    {name : String}
    (hName : IsPlain name) :
    IsPlain (className name) :=
  isPlain_qualify hName
    (isPlain_escape (isPlain_pascalCase (isPlain_member hName)))

theorem isPlain_unionName
    {name : String}
    (hName : IsPlain name) :
    IsPlain (unionName name) := by
  apply isPlain_qualify hName
  rw [isPlain_append_iff]
  exact ⟨List.all_eq_true.mp rfl,
    isPlain_pascalCase (isPlain_member hName)⟩

end Naming

theorem FullName.isPlain_text
    {name : FullName}
    (hName : name.IsSpelled) :
    Text.IsPlain name.text := by
  rw [text]
  split
  · rename_i space hSpace
    rw [Text.isPlain_append_iff, Text.isPlain_append_iff]
    exact ⟨⟨Text.isPlain_of_isName (hName.space space hSpace),
      List.all_eq_true.mp rfl⟩,
      Text.isPlain_of_isName hName.member⟩
  · exact Text.isPlain_of_isName hName.member

theorem Term.isPlain_text
    {term : Term}
    (hTerm : term.IsSpelled) :
    Text.IsPlain term.text := by
  induction term with
  | named name bare =>
      have hName := FullName.isPlain_text hTerm
      cases bare with
      | false => exact hName
      | true =>
          rw [text, Text.isPlain_append_iff]
          exact ⟨List.all_eq_true.mp rfl, hName⟩
  | generic name =>
      rw [text, Text.isPlain_append_iff]
      exact ⟨List.all_eq_true.mp rfl,
        Text.isPlain_of_isName hTerm⟩
  | vector keyword element ih =>
      rw [text, Text.isPlain_append_iff, Text.isPlain_append_iff,
        Text.isPlain_append_iff]
      exact ⟨⟨⟨Text.isPlain_of_isName hTerm.1,
        List.all_eq_true.mp rfl⟩, ih hTerm.2⟩,
        List.all_eq_true.mp rfl⟩

theorem ResultItem.isPlain_text
    {result : ResultItem}
    (hResult : result.IsSpelled) :
    Text.IsPlain result.text := by
  cases result with
  | plain head arguments =>
      rw [Text.IsPlain, text, Text.toList_intercalate_cons,
        List.forall_mem_append]
      refine ⟨FullName.isPlain_text hResult.1, ?_⟩
      intro c hC
      rcases List.mem_flatMap.mp hC with ⟨name, hName, hC⟩
      rcases List.mem_cons.mp hC with hSpace | hInside
      · rw [hSpace]
        decide
      · exact Text.isPlain_of_isName (hResult.2 name hName) c
          hInside
  | applied head argument =>
      rw [text, Text.isPlain_append_iff, Text.isPlain_append_iff,
        Text.isPlain_append_iff]
      exact ⟨⟨⟨FullName.isPlain_text hResult.1,
        List.all_eq_true.mp rfl⟩,
        Term.isPlain_text hResult.2⟩, List.all_eq_true.mp rfl⟩

------------------------------------------------------------
-- Literals and Documentation
------------------------------------------------------------

namespace Text

instance instDecidableIsInline
    (text : String) :
    Decidable (IsInline text) :=
  inferInstanceAs (Decidable (_ ∉ _))

theorem notMem_hexFixed
    (width n : Nat) :
    '\n' ∉ hexFixed width n := by
  induction width generalizing n with
  | zero => exact List.not_mem_nil
  | succ width ih =>
      rw [hexFixed, List.mem_append, not_or]
      refine ⟨ih (n / 16), ?_⟩
      intro hBreak
      have hValue := hexValue_hexDigit
        (Nat.mod_lt n (by decide : 16 > 0))
      rw [← List.mem_singleton.mp hBreak] at hValue
      exact absurd hValue (by simp [hexValue])

end Text

namespace Printer

open Text

theorem notMem_unitEscape
    (unit : Nat) :
    '\n' ∉ Json.unitEscape unit := by
  rw [Json.unitEscape, List.mem_cons, List.mem_cons, not_or,
    not_or]
  exact ⟨by decide, by decide, notMem_hexFixed 4 unit⟩

/- A literal has its line breaks as escapes. -/
theorem isInline_literal
    (text : String) :
    IsInline (literal text) := by
  have hChar : ∀ c, '\n' ∉ Json.asciiLiteralChar c := by
    intro c hBreak
    unfold Json.asciiLiteralChar at hBreak
    split at hBreak
    · rename_i letter hLetter
      rcases List.mem_cons.mp hBreak with hSlash | hLast
      · exact absurd hSlash (by decide)
      · rw [← List.mem_singleton.mp hLast] at hLetter
        unfold Json.letterEscape at hLetter
        split at hLetter <;> cases hLetter
    · rename_i hNone
      split at hBreak
      · rw [← List.mem_singleton.mp hBreak] at hNone
        cases hNone
      · rcases List.mem_flatMap.mp hBreak with
          ⟨unit, -, hUnit⟩
        exact notMem_unitEscape unit hUnit
  rw [IsInline, literal, Json.asciiLiteral,
    String.toList_ofList, List.cons_append, List.mem_cons,
    List.mem_append, List.mem_flatMap]
  intro hBreak
  rcases hBreak with hFirst | hInside | hLast
  · exact absurd hFirst (by decide)
  · rcases hInside with ⟨c, -, hC⟩
    exact hChar c hC
  · exact absurd hLast (by decide)

/- One character of documentation. -/
def docChar
    (c : Char) :
    List Char :=
  if c == '\\' || c == '"' then ['\\', c] else [c]

theorem toList_docstring
    (text : String) :
    (docstring text).toList =
      ['"', '"', '"'] ++ (text.toList.flatMap docChar ++
        ['"', '"', '"']) := by
  simp only [docstring, String.toList_append,
    String.toList_ofList, List.append_assoc]
  rfl

theorem docChar_cases
    (c : Char) :
    (docChar c = ['\\', c] ∧ (c = '\\' ∨ c = '"')) ∨
      (docChar c = [c] ∧ c ≠ '\\') := by
  unfold docChar
  by_cases hMark : (c == '\\' || c == '"') = true
  · left
    rw [if_pos hMark]
    simpa using hMark
  · right
    rw [if_neg hMark]
    simp only [Bool.or_eq_true, beq_iff_eq, not_or] at hMark
    exact ⟨rfl, hMark.1⟩

/- A backslash is always the first of two, so each character is
   told. -/
theorem flatMap_docChar_inj
    {cs ds : List Char}
    (hSame : cs.flatMap docChar = ds.flatMap docChar) :
    cs = ds := by
  induction cs generalizing ds with
  | nil =>
      cases ds with
      | nil => rfl
      | cons d ds =>
          rcases docChar_cases d with hD | hD
          · simp [hD.1] at hSame
          · simp [hD.1] at hSame
  | cons c cs ih =>
      cases ds with
      | nil =>
          rcases docChar_cases c with hC | hC
          · simp [hC.1] at hSame
          · simp [hC.1] at hSame
      | cons d ds =>
          rw [List.flatMap_cons, List.flatMap_cons] at hSame
          rcases docChar_cases c with hC | hC
          · rcases docChar_cases d with hD | hD
            · simp only [hC.1, hD.1, List.cons_append,
                List.nil_append, List.cons.injEq,
                true_and] at hSame
              rw [hSame.1, ih hSame.2]
            · simp only [hC.1, hD.1, List.cons_append,
                List.nil_append, List.cons.injEq] at hSame
              exact absurd hSame.1.symm hD.2
          · rcases docChar_cases d with hD | hD
            · simp only [hC.1, hD.1, List.cons_append,
                List.nil_append, List.cons.injEq] at hSame
              exact absurd hSame.1 hC.2
            · simp only [hC.1, hD.1, List.cons_append,
                List.nil_append, List.cons.injEq] at hSame
              rw [hSame.1, ih hSame.2]

/- Documentation tells the text that it shows. -/
theorem docstring_inj
    {text other : String}
    (hSame : docstring text = docstring other) :
    text = other := by
  have hChars := congrArg String.toList hSame
  rw [toList_docstring, toList_docstring,
    List.append_cancel_left_eq, List.append_cancel_right_eq]
    at hChars
  exact String.toList_injective (flatMap_docChar_inj hChars)

theorem isInline_docstring
    {text : String}
    (hText : IsInline text) :
    IsInline (docstring text) := by
  rw [IsInline, toList_docstring, List.mem_append,
    List.mem_append, not_or, not_or]
  refine ⟨by decide, ?_, by decide⟩
  intro hBreak
  rcases List.mem_flatMap.mp hBreak with ⟨c, hC, hBreak⟩
  have hSame : '\n' = c := by
    unfold docChar at hBreak
    split at hBreak
    · rcases List.mem_cons.mp hBreak with hSlash | hLast
      · exact absurd hSlash (by decide)
      · exact List.mem_singleton.mp hLast
    · exact List.mem_singleton.mp hBreak
  rw [← hSame] at hC
  exact hText hC

end Printer

------------------------------------------------------------
-- Schema Lines
------------------------------------------------------------

theorem ParamItem.isInline_text
    {param : ParamItem}
    (hSpelled : param.IsSpelled)
    (hNamed : param.IsNamed) :
    Text.IsInline param.text := by
  have hName := ParamItem.isName_of_isNamed hSpelled hNamed
  rw [text_of_isNamed hNamed, Text.isInline_append_iff,
    Text.isInline_append_iff]
  refine ⟨⟨(Text.isPlain_of_isName hName).isInline,
    by decide⟩, ?_⟩
  cases param with
  | bitmask name => exact (by decide : Text.IsInline "#")
  | typed name wireType =>
      intro hBreak
      have hEnds := (Terminal.isLexeme_wireType_iff.mp
        hSpelled.2).2.2 _ hBreak
      exact absurd hEnds (by decide)
  | number => exact hNamed.elim
  | repeated names => exact hNamed.elim

theorem Tag.isInline_written
    {tag : Int}
    (hTag : InRange tag) :
    Text.IsInline (written tag) := by
  rcases toList_written hTag with ⟨cs, hText, -, hHex, -⟩
  rw [Text.IsInline, hText, List.mem_cons, not_or]
  refine ⟨by decide, ?_⟩
  intro hBreak
  exact absurd (hHex _ hBreak) (by decide)

/- The schema line of a class is one line. -/
theorem Combinator.Declares.isInline_schemaLine
    {item : ClassDecl}
    {combinator : Combinator}
    (hDeclares : combinator.Declares item) :
    Text.IsInline item.schemaLine := by
  have hSpelled := hDeclares.spelled
  have hTag := Tag.isInline_written hDeclares.tag
  rw [Tag.written, Text.isInline_append_iff] at hTag
  rw [hDeclares.schemaLine_eq, line]
  apply Text.isInline_intercalate
  rw [List.cons_append, List.forall_mem_cons,
    List.forall_mem_append, List.forall_mem_singleton]
  simp only [Text.isInline_append_iff]
  refine ⟨⟨⟨?_, hTag.1⟩, hTag.2⟩, ?_, ⟨by decide, ?_⟩,
    by decide⟩
  · exact (FullName.isPlain_text
      hSpelled.opening.name).isInline
  · intro text hText
    rcases List.mem_map.mp hText with ⟨param, hParam, hSame⟩
    rw [← hSame]
    exact ParamItem.isInline_text
      (hSpelled.opening.params param hParam)
      (hDeclares.named param hParam)
  · exact (ResultItem.isPlain_text hSpelled.result).isInline

------------------------------------------------------------
-- Numerals
------------------------------------------------------------

namespace Text

theorem natText_inj
    {m n : Nat}
    (hSame : natText m = natText n) :
    m = n := by
  have hChars := congrArg String.toList hSame
  rw [natText, natText, String.toList_ofList,
    String.toList_ofList] at hChars
  rw [← natValue_natChars m, hChars, natValue_natChars]

theorem natText_ne_negative
    (m : Nat)
    (text : String) :
    natText m ≠ "-" ++ text := by
  intro hSame
  have hSign : '-' ∈ (natText m).toList := by
    rw [hSame, String.toList_append]
    exact List.mem_append_left _ List.mem_cons_self
  rw [natText, String.toList_ofList] at hSign
  exact absurd (isAsciiDigit_of_mem_natChars m _ hSign)
    (by decide)

/- A numeral tells its number. -/
theorem intText_inj
    {m n : Int}
    (hSame : intText m = intText n) :
    m = n := by
  cases m with
  | ofNat m =>
      cases n with
      | ofNat n => rw [natText_inj hSame]
      | negSucc n =>
          exact absurd hSame (natText_ne_negative m _)
  | negSucc m =>
      cases n with
      | ofNat n =>
          exact absurd hSame.symm (natText_ne_negative n _)
      | negSucc n =>
          have hChars := congrArg String.toList hSame
          rw [intText, intText, String.toList_append,
            String.toList_append, List.append_cancel_left_eq]
            at hChars
          have hNext := natText_inj
            (String.toList_injective hChars)
          rw [Nat.succ.inj hNext]

theorem isInline_intText
    (n : Int) :
    IsInline (intText n) := by
  have hNat : ∀ m, IsInline (natText m) := by
    intro m hBreak
    rw [natText, String.toList_ofList] at hBreak
    exact absurd (isAsciiDigit_of_mem_natChars m _ hBreak)
      (by decide)
  cases n with
  | ofNat n => exact hNat n
  | negSucc n =>
      rw [intText, isInline_append_iff]
      exact ⟨by decide, hNat (n + 1)⟩

end Text

end WireSchema
