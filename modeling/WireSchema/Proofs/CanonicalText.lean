import Mathlib.Data.List.Forall2
import Mathlib.Data.List.Perm.Basic
import WireSchema.Proofs.Canonical
import WireSchema.Proofs.Line
import WireSchema.Proofs.Utf8

/-
  The canonical text of data and the data that it tells.

  Data has the same canonical text if it differs in the order
  of members only.  The other way round, a text with what
  follows it can be that of such data only: a first character
  tells what a value is, a literal ends at the first quote that
  is no escape, a numeral ends where its digits do, and parts in
  brackets end at a comma or at a line break.

  Main declarations:
    * `Json.KeysApart`
    * `Json.Alike`
    * `Text.Tells`
    * `Json.tells_render`
    * `Json.render_eq_of_alike`
    * `Json.encode_canonical_eq_iff`
-/

namespace WireSchema

------------------------------------------------------------
-- Data up to the Order of Members
------------------------------------------------------------

namespace Json

/- No object in a value has two members with the same key. -/
inductive KeysApart :
    Json → Prop where
  | null : KeysApart .null
  | bool {value : Bool} : KeysApart (.bool value)
  | int {value : Int} : KeysApart (.int value)
  | string {value : String} : KeysApart (.string value)
  | array
      {items : List Json}
      (hItems : ∀ item ∈ items, KeysApart item) :
      KeysApart (.array items)
  | object
      {members : List (String × Json)}
      (hKeys : (members.map Prod.fst).Nodup)
      (hValues : ∀ member ∈ members, KeysApart member.2) :
      KeysApart (.object members)

/- Values that are equal up to the order of members at every
   depth.  The members of an object are matched one by one with
   those of the other, which may stand in another order. -/
inductive Alike :
    Json → Json → Prop where
  | same {value : Json} : Alike value value
  | array
      {items others : List Json}
      (hLength : items.length = others.length)
      (hItems : ∀ pair ∈ items.zip others,
        Alike pair.1 pair.2) :
      Alike (.array items) (.array others)
  | object
      {members matched others : List (String × Json)}
      (hKeys : members.map Prod.fst = matched.map Prod.fst)
      (hValues : ∀ pair ∈ members.zip matched,
        Alike pair.1.2 pair.2.2)
      (hPerm : matched.Perm others) :
      Alike (.object members) (.object others)

/- Members with the same key and values that are alike. -/
def MemberAlike
    (member other : String × Json) :
    Prop :=
  member.1 = other.1 ∧ member.2.Alike other.2

theorem Alike.of_items
    {items others : List Json}
    (hItems : List.Forall₂ Alike items others) :
    Alike (.array items) (.array others) := by
  rcases List.forall₂_iff_zip.mp hItems with ⟨hLength, hAll⟩
  exact .array hLength fun _ hMem => hAll hMem

theorem Alike.of_members
    {members matched others : List (String × Json)}
    (hMembers : List.Forall₂ MemberAlike members matched)
    (hPerm : matched.Perm others) :
    Alike (.object members) (.object others) := by
  have hKeys := Paired.map_eq_map hMembers
    fun _ _ hPair => hPair.1
  rcases List.forall₂_iff_zip.mp hMembers with ⟨-, hAll⟩
  exact .object hKeys (fun _ hMem => (hAll hMem).2) hPerm

/- What holds of an array if of its items, and of an object if
   of its values, holds of every value. -/
@[elab_as_elim]
theorem induction
    {motive : Json → Prop}
    (null : motive .null)
    (bool : ∀ value, motive (.bool value))
    (int : ∀ value, motive (.int value))
    (string : ∀ value, motive (.string value))
    (array : ∀ items, (∀ item ∈ items, motive item) →
      motive (.array items))
    (object : ∀ members,
      (∀ member ∈ members, motive member.2) →
      motive (.object members))
    (value : Json) :
    motive value :=
  match value with
  | .null => null
  | .bool value => bool value
  | .int value => int value
  | .string value => string value
  | .array items =>
      array items fun item _ =>
        induction null bool int string array object item
  | .object members =>
      object members fun member _ =>
        induction null bool int string array object member.2
termination_by sizeOf value
decreasing_by
  · have hLess := List.sizeOf_lt_of_mem ‹item ∈ items›
    simp only [Json.array.sizeOf_spec]
    omega
  · have hLess := List.sizeOf_lt_of_mem ‹member ∈ members›
    rcases member with ⟨key, value⟩
    simp only [Json.object.sizeOf_spec, Prod.mk.sizeOf_spec]
      at hLess ⊢
    omega

end Json

------------------------------------------------------------
-- Texts That Tell What They Show
------------------------------------------------------------

namespace Text

/- A character of the numeral of an integer. -/
def inNumeral
    (c : Char) :
    Bool :=
  isAsciiDigit c || c == '-'

/- What may follow a numeral. -/
def Ends
    (cs : List Char) :
    Prop :=
  ∀ c ∈ cs.head?, inNumeral c = false

theorem ends_cons
    {c : Char}
    (hC : inNumeral c = false)
    (cs : List Char) :
    Ends (c :: cs) := by
  rintro d ⟨⟩
  exact hC

/- A printed text tells a value if no text of an other value
   that is not alike starts in the same way, whatever follows
   the two, and shows where it ends. -/
def Tells
    {α : Type}
    (alike : α → α → Prop)
    (print : α → String)
    (value : α) :
    Prop :=
  ∀ other rest last, Ends rest → Ends last →
    (print value).toList ++ rest =
      (print other).toList ++ last →
    alike value other ∧ rest = last

theorem inNumeral_of_mem_intText
    (n : Int) :
    ∀ c ∈ (intText n).toList, inNumeral c = true := by
  have hDigits : ∀ (m : Nat), ∀ c ∈ (natText m).toList,
      inNumeral c = true := by
    intro m c hMem
    rw [natText, String.toList_ofList] at hMem
    rw [inNumeral, isAsciiDigit_of_mem_natChars m c hMem]
    rfl
  cases n with
  | ofNat n => exact hDigits n
  | negSucc n =>
      rw [intText, String.toList_append,
        List.forall_mem_append]
      exact ⟨List.all_eq_true.mp rfl, hDigits (n + 1)⟩

theorem toList_intText_ne_nil
    (n : Int) :
    (intText n).toList ≠ [] := by
  cases n with
  | ofNat n =>
      rw [intText, natText, String.toList_ofList]
      exact natChars_ne_nil n
  | negSucc n =>
      rw [intText, String.toList_append]
      exact List.cons_ne_nil _ _

theorem tells_intText
    (n : Int) :
    Tells Eq intText n := by
  intro other rest last hRest hLast hSame
  have hNumeral := congrArg (List.takeWhile inNumeral) hSame
  rw [takeWhile_append_of_head (inNumeral_of_mem_intText n)
      hRest,
    takeWhile_append_of_head (inNumeral_of_mem_intText other)
      hLast] at hNumeral
  have hText := String.toList_injective hNumeral
  rw [hText, List.append_cancel_left_eq] at hSame
  exact ⟨intText_inj hText, hSame⟩

end Text

namespace Json

open Text

------------------------------------------------------------
-- Literals
------------------------------------------------------------

/- The character of an escape that has a letter. -/
def letterChar :
    Char → Char
  | 'b' => '\x08'
  | 'f' => '\x0c'
  | 'n' => '\n'
  | 'r' => '\r'
  | 't' => '\t'
  | letter => letter

/- Reads one character of a literal, unless it ends there. -/
def readChar :
    List Char → Option (Char × List Char)
  | '\\' :: 'u' :: cs =>
      some (Char.ofNat (hexNumber 0 (cs.take 4)), cs.drop 4)
  | '\\' :: letter :: cs => some (letterChar letter, cs)
  | '"' :: _ => none
  | c :: cs => some (c, cs)
  | [] => none

theorem readChar_of_letterEscape
    {c letter : Char}
    (hLetter : letterEscape c = some letter)
    (cs : List Char) :
    readChar ('\\' :: letter :: cs) = some (c, cs) := by
  unfold letterEscape at hLetter
  split at hLetter <;> cases hLetter
  all_goals
    rename_i hCode
    rw [← Char.ofNat_toNat c, hCode]
    rfl

theorem readChar_unitEscape
    {c : Char}
    (hLow : c.toNat < 0x20)
    (cs : List Char) :
    readChar (unitEscape c.toNat ++ cs) = some (c, cs) := by
  have hNumber : ∀ n < 0x20,
      hexNumber 0 (hexFixed 4 n) = n := by
    decide
  have hLength : (hexFixed 4 c.toNat).length = 4 := by
    simp [hexFixed]
  rw [unitEscape, List.cons_append, List.cons_append, readChar,
    List.take_left' hLength, List.drop_left' hLength,
    hNumber _ hLow, Char.ofNat_toNat]

theorem readChar_plain
    {c : Char}
    (hLetter : letterEscape c = none)
    (cs : List Char) :
    readChar (c :: cs) = some (c, cs) := by
  have hSlash : c ≠ '\\' := by
    rintro rfl
    cases hLetter
  have hQuote : c ≠ '"' := by
    rintro rfl
    cases hLetter
  rw [readChar]
  · intro others hC
    exact absurd hC hSlash
  · intro letter others hC
    exact absurd hC hSlash
  · exact hQuote

theorem readChar_literalChar
    (c : Char)
    (cs : List Char) :
    readChar (literalChar c ++ cs) = some (c, cs) := by
  unfold literalChar
  cases hLetter : letterEscape c with
  | some letter => exact readChar_of_letterEscape hLetter cs
  | none =>
      by_cases hLow : c.toNat < 0x20
      · rw [if_pos hLow]
        exact readChar_unitEscape hLow cs
      · rw [if_neg hLow]
        exact readChar_plain hLetter cs

theorem flatMap_literalChar_inj
    {cs ds rest last : List Char}
    (hSame : cs.flatMap literalChar ++ '"' :: rest =
      ds.flatMap literalChar ++ '"' :: last) :
    cs = ds ∧ rest = last := by
  induction cs generalizing ds with
  | nil =>
      cases ds with
      | nil => exact ⟨rfl, (List.cons.inj hSame).2⟩
      | cons d ds =>
          have hRead := congrArg readChar hSame
          rw [List.flatMap_cons, List.append_assoc,
            readChar_literalChar] at hRead
          cases hRead
  | cons c cs ih =>
      have hRead := congrArg readChar hSame
      rw [List.flatMap_cons, List.append_assoc,
        readChar_literalChar] at hRead
      cases ds with
      | nil => cases hRead
      | cons d ds =>
          rw [List.flatMap_cons, List.append_assoc,
            readChar_literalChar, Option.some.injEq,
            Prod.mk.injEq] at hRead
          rcases ih hRead.2 with ⟨hChars, hRest⟩
          rw [hRead.1, hChars]
          exact ⟨rfl, hRest⟩

theorem tells_literal
    (text : String) :
    Tells Eq literal text := by
  intro other rest last _ _ hSame
  simp only [literal, String.toList_ofList, List.cons_append,
    List.append_assoc, List.nil_append, List.cons.injEq,
    true_and] at hSame
  rcases flatMap_literalChar_inj hSame with ⟨hText, hRest⟩
  exact ⟨String.toList_injective hText, hRest⟩

------------------------------------------------------------
-- Parts between Brackets
------------------------------------------------------------

section Brackets

variable {α : Type}
variable {alike : α → α → Prop} {print : α → String}
variable {values others : List α}
variable {rest last : List Char}

/- Values behind the first, each with a comma and a line break
   before it. -/
def following
    (level : Nat)
    (print : α → String)
    (values : List α) :
    List Char :=
  values.flatMap fun value =>
    ',' :: (lineBreak level).toList ++ (print value).toList

theorem ends_following
    (level : Nat)
    (print : α → String)
    (values : List α)
    (cs : List Char) :
    Ends (following level print values ++ '\n' :: cs) := by
  cases values with
  | nil => exact ends_cons (by decide) cs
  | cons value values => exact ends_cons (by decide) _

/- Each comma shows that a value follows, and the line break
   that none does. -/
theorem following_inj
    {level : Nat}
    (hValues : ∀ value ∈ values, Tells alike print value)
    (hSame : following level print values ++ '\n' :: rest =
      following level print others ++ '\n' :: last) :
    List.Forall₂ alike values others ∧ rest = last := by
  induction values generalizing others with
  | nil =>
      cases others with
      | nil => exact ⟨.nil, (List.cons.inj hSame).2⟩
      | cons other others =>
          exact absurd (List.cons.inj hSame).1 (by decide)
  | cons value values ih =>
      rw [List.forall_mem_cons] at hValues
      cases others with
      | nil =>
          exact absurd (List.cons.inj hSame).1 (by decide)
      | cons other others =>
          simp only [following, List.flatMap_cons,
            List.append_assoc,
            List.append_cancel_left_eq] at hSame
          rcases hValues.1 other _ _
            (ends_following level print values rest)
            (ends_following level print others last) hSame with
            ⟨hFirst, hTail⟩
          rcases ih hValues.2 hTail with ⟨hRest, hLast⟩
          exact ⟨.cons hFirst hRest, hLast⟩

theorem toList_intercalate_map
    (level : Nat)
    (value : α)
    (values : List α) :
    (("," ++ lineBreak level).intercalate
        ((value :: values).map print)).toList =
      (print value).toList ++
        following level print values := by
  induction values generalizing value with
  | nil => simp [following]
  | cons other others ih =>
      have hOthers := ih other
      rw [List.map_cons] at hOthers
      rw [List.map_cons, List.map_cons,
        String.intercalate_cons_cons, String.toList_append,
        String.toList_append, String.toList_append, hOthers,
        List.append_assoc]
      simp [following]

theorem toList_bracketed_cons
    (level : Nat)
    (opening closing : String)
    (value : α)
    (values : List α) :
    (bracketed level opening closing
        ((value :: values).map print)).toList =
      opening.toList ++ ((lineBreak (level + 1)).toList ++
        ((print value).toList ++
          (following (level + 1) print values ++
            '\n' :: (List.replicate (2 * level) ' ' ++
              closing.toList)))) := by
  have hBreak : (lineBreak level).toList =
      '\n' :: List.replicate (2 * level) ' ' :=
    String.toList_ofList
  rw [List.map_cons, bracketed, ← List.map_cons,
    String.toList_append, String.toList_append,
    String.toList_append, String.toList_append,
    toList_intercalate_map, hBreak]
  simp only [List.append_assoc, List.cons_append]

/- A line break behind the first bracket shows that there are
   parts. -/
theorem bracketed_cons_ne
    {level : Nat}
    {opening closing : String}
    {stop : Char}
    (hClosing : closing.toList = [stop])
    (hStop : stop ≠ '\n')
    (value : α)
    (values : List α) :
    (bracketed level opening closing
        ((value :: values).map print)).toList ++ rest ≠
      (bracketed level opening closing []).toList ++ last := by
  have hBreak : (lineBreak (level + 1)).toList =
      '\n' :: List.replicate (2 * (level + 1)) ' ' :=
    String.toList_ofList
  intro hSame
  rw [toList_bracketed_cons, bracketed, String.toList_append,
    hClosing, hBreak] at hSame
  simp only [List.append_assoc,
    List.append_cancel_left_eq] at hSame
  exact hStop (List.cons.inj hSame).1.symm

/- The parts between brackets are told if each is. -/
theorem bracketed_inj
    {level : Nat}
    {opening closing : String}
    {stop : Char}
    (hClosing : closing.toList = [stop])
    (hStop : stop ≠ '\n')
    (hValues : ∀ value ∈ values, Tells alike print value)
    (hSame :
      (bracketed level opening closing
          (values.map print)).toList ++ rest =
        (bracketed level opening closing
          (others.map print)).toList ++ last) :
    List.Forall₂ alike values others ∧ rest = last := by
  cases values with
  | nil =>
      cases others with
      | nil => exact ⟨.nil, List.append_cancel_left hSame⟩
      | cons other others =>
          exact absurd hSame.symm
            (bracketed_cons_ne hClosing hStop other others)
  | cons value values =>
      cases others with
      | nil =>
          exact absurd hSame
            (bracketed_cons_ne hClosing hStop value values)
      | cons other others =>
          rw [List.forall_mem_cons] at hValues
          simp only [toList_bracketed_cons, List.append_assoc,
            List.append_cancel_left_eq, List.cons_append]
            at hSame
          rcases hValues.1 other _ _
            (ends_following _ print values _)
            (ends_following _ print others _) hSame with
            ⟨hFirst, hTail⟩
          rcases following_inj hValues.2 hTail with
            ⟨hRest, hLast⟩
          rw [List.append_cancel_left_eq,
            List.append_cancel_left_eq] at hLast
          exact ⟨.cons hFirst hRest, hLast⟩

end Brackets

------------------------------------------------------------
-- First Characters
------------------------------------------------------------

/- What a value is, without its parts. -/
inductive Form where
  | null
  | bool (value : Bool)
  | int
  | string
  | array
  | object

def form :
    Json → Form
  | .null => .null
  | .bool value => .bool value
  | .int _ => .int
  | .string _ => .string
  | .array _ => .array
  | .object _ => .object

/- What is a value whose text starts with a character. -/
def Form.ofFirst :
    Char → Form
  | 'n' => .null
  | 't' => .bool true
  | 'f' => .bool false
  | '"' => .string
  | '[' => .array
  | '\x7b' => .object
  | _ => .int

theorem Form.ofFirst_of_inNumeral
    {c : Char}
    (hC : inNumeral c = true) :
    ofFirst c = .int := by
  unfold ofFirst
  split
  case h_7 => rfl
  all_goals exact absurd hC (by decide)

theorem exists_first_bracketed
    {level : Nat}
    {opening closing : String}
    {first : Char}
    (hOpening : opening.toList = [first])
    (parts : List String) :
    ∃ cs, (bracketed level opening closing parts).toList =
      first :: cs := by
  cases parts with
  | nil =>
      rw [bracketed, String.toList_append, hOpening]
      exact ⟨_, rfl⟩
  | cons part parts =>
      rw [bracketed, String.toList_append,
        String.toList_append, String.toList_append,
        String.toList_append, hOpening]
      exact ⟨_, rfl⟩

/- The first character of a text tells what the value is. -/
theorem exists_first
    (level : Nat)
    (value : Json) :
    ∃ c cs, (render level value).toList = c :: cs ∧
      Form.ofFirst c = value.form := by
  cases value with
  | null =>
      rw [render]
      exact ⟨'n', _, rfl, rfl⟩
  | bool value =>
      cases value with
      | false =>
          rw [render]
          exact ⟨'f', _, rfl, rfl⟩
      | true =>
          rw [render]
          exact ⟨'t', _, rfl, rfl⟩
  | int value =>
      rcases List.exists_cons_of_ne_nil
        (toList_intText_ne_nil value) with ⟨c, cs, hText⟩
      have hFirst : c ∈ (intText value).toList := by
        rw [hText]
        exact List.mem_cons_self
      rw [render]
      exact ⟨c, cs, hText, Form.ofFirst_of_inNumeral
        (inNumeral_of_mem_intText value c hFirst)⟩
  | string value =>
      rw [render, literal, String.toList_ofList]
      exact ⟨'"', _, rfl, rfl⟩
  | array items =>
      have hFirst : ∃ cs, (bracketed level "[" "]"
          (renderItems (level + 1) items)).toList = '[' :: cs :=
        exists_first_bracketed rfl _
      rcases hFirst with ⟨cs, hText⟩
      rw [render]
      exact ⟨'[', cs, hText, rfl⟩
  | object members =>
      have hFirst : ∃ cs, (bracketed level "\x7b" "\x7d"
          ((sortByKey (renderMembers (level + 1) members)).map
            fun member =>
              literal member.1 ++ ": " ++ member.2)).toList =
            '\x7b' :: cs :=
        exists_first_bracketed rfl _
      rcases hFirst with ⟨cs, hText⟩
      rw [render]
      exact ⟨'\x7b', cs, hText, rfl⟩

theorem form_eq_of_render
    {level : Nat}
    {value other : Json}
    {rest last : List Char}
    (hSame : (render level value).toList ++ rest =
      (render level other).toList ++ last) :
    value.form = other.form := by
  rcases exists_first level value with ⟨c, cs, hText, hForm⟩
  rcases exists_first level other with ⟨d, ds, hOther, hLast⟩
  rw [hText, hOther] at hSame
  rw [← hForm, ← hLast, (List.cons.inj hSame).1]

------------------------------------------------------------
-- Texts of Values
------------------------------------------------------------

/- Members in the order of their keys, before their values are
   rendered. -/
def sortMembers
    (members : List (String × Json)) :
    List (String × Json) :=
  members.mergeSort fun a b => decide (a.1 ≤ b.1)

theorem perm_sortMembers
    (members : List (String × Json)) :
    (sortMembers members).Perm members :=
  List.mergeSort_perm members _

/- A member as text. -/
def renderMember
    (level : Nat)
    (member : String × Json) :
    String :=
  literal member.1 ++ ": " ++ render level member.2

theorem renderItems_eq_map
    (level : Nat)
    (items : List Json) :
    renderItems level items = items.map (render level) := by
  induction items with
  | nil => rw [renderItems, List.map_nil]
  | cons item items ih =>
      rw [renderItems, List.map_cons, ih]

theorem render_array
    (level : Nat)
    (items : List Json) :
    render level (.array items) =
      bracketed level "[" "]"
        (items.map (render (level + 1))) := by
  rw [render, renderItems_eq_map]

theorem render_object
    (level : Nat)
    (members : List (String × Json)) :
    render level (.object members) =
      bracketed level "\x7b" "\x7d"
        ((sortMembers members).map
          (renderMember (level + 1))) := by
  have hSorted : sortByKey (renderMembers (level + 1) members) =
      (sortMembers members).map fun member =>
        (member.1, render (level + 1) member.2) := by
    rw [renderMembers_eq_map, sortMembers, sortByKey, eq_comm]
    exact List.map_mergeSort fun _ _ _ _ => rfl
  rw [render, hSorted, List.map_map]
  rfl

theorem tells_renderMember
    {level : Nat}
    {member : String × Json}
    (hValue : Tells Alike (render level) member.2) :
    Tells MemberAlike (renderMember level) member := by
  intro other rest last hRest hLast hSame
  have hColon : ∀ cs, Ends (": ".toList ++ cs) := by
    intro cs
    exact ends_cons (by decide) _
  simp only [renderMember, String.toList_append,
    List.append_assoc] at hSame
  rcases tells_literal member.1 other.1 _ _ (hColon _)
    (hColon _) hSame with ⟨hKey, hTail⟩
  rw [List.append_cancel_left_eq] at hTail
  rcases hValue other.2 rest last hRest hLast hTail with
    ⟨hAlike, hEnd⟩
  exact ⟨⟨hKey, hAlike⟩, hEnd⟩

/- The text of a value at a level tells the value up to the
   order of members, by induction on the value. -/
theorem tells_render
    (level : Nat)
    (value : Json) :
    Tells Alike (render level) value := by
  induction value using Json.induction generalizing level with
  | null =>
      intro other rest last hRest hLast hSame
      have hForm := form_eq_of_render hSame
      cases other with
      | null => exact ⟨.same, List.append_cancel_left hSame⟩
      | _ => cases hForm
  | bool value =>
      intro other rest last hRest hLast hSame
      have hForm := form_eq_of_render hSame
      cases other with
      | bool truth =>
          cases hForm
          exact ⟨.same, List.append_cancel_left hSame⟩
      | _ => cases hForm
  | int value =>
      intro other rest last hRest hLast hSame
      have hForm := form_eq_of_render hSame
      cases other with
      | int number =>
          rw [render, render] at hSame
          rcases tells_intText value number rest last hRest
            hLast hSame with ⟨rfl, hEnd⟩
          exact ⟨.same, hEnd⟩
      | _ => cases hForm
  | string value =>
      intro other rest last hRest hLast hSame
      have hForm := form_eq_of_render hSame
      cases other with
      | string text =>
          rw [render, render] at hSame
          rcases tells_literal value text rest last hRest
            hLast hSame with ⟨rfl, hEnd⟩
          exact ⟨.same, hEnd⟩
      | _ => cases hForm
  | array items ih =>
      intro other rest last hRest hLast hSame
      have hForm := form_eq_of_render hSame
      cases other with
      | array others =>
          rw [render_array, render_array] at hSame
          rcases bracketed_inj rfl (by decide)
            (fun item hMem => ih item hMem (level + 1))
            hSame with ⟨hItems, hEnd⟩
          exact ⟨.of_items hItems, hEnd⟩
      | _ => cases hForm
  | object members ih =>
      intro other rest last hRest hLast hSame
      have hForm := form_eq_of_render hSame
      cases other with
      | object others =>
          have hMembers : ∀ member ∈ sortMembers members,
              Tells MemberAlike (renderMember (level + 1))
                member := by
            intro member hMem
            exact tells_renderMember (ih member
              ((perm_sortMembers members).mem_iff.mp hMem)
              (level + 1))
          rw [render_object, render_object] at hSame
          rcases bracketed_inj rfl (by decide) hMembers
            hSame with ⟨hSorted, hEnd⟩
          -- sorting is undone on both sides
          rcases List.perm_comp_forall₂
            (perm_sortMembers members).symm hSorted with
            ⟨matched, hMatched, hPerm⟩
          exact ⟨.of_members hMatched
            (hPerm.trans (perm_sortMembers others)), hEnd⟩
      | _ => cases hForm

/- Values that differ in the order of members only have the
   same text. -/
theorem render_eq_of_alike
    {value other : Json}
    (hAlike : value.Alike other)
    (hApart : value.KeysApart)
    (level : Nat) :
    render level value = render level other := by
  induction hAlike generalizing level with
  | same => rfl
  | @array items others hLength hItems ih =>
      cases hApart with
      | array hApart =>
          have hTexts : List.Forall₂
              (fun item other => render (level + 1) item =
                render (level + 1) other) items others := by
            refine List.forall₂_iff_zip.mpr ⟨hLength, ?_⟩
            intro item other hMem
            exact ih _ hMem
              (hApart item (List.of_mem_zip hMem).1) _
          rw [render_array, render_array,
            Paired.map_eq_map hTexts fun _ _ hText => hText]
  | @object members matched others hKeys hValues hPerm ih =>
      cases hApart with
      | object hNodup hApart =>
          have hTexts : List.Forall₂
              (fun member other =>
                render (level + 1) member.2 =
                  render (level + 1) other.2)
              members matched := by
            refine List.forall₂_iff_zip.mpr ⟨?_, ?_⟩
            · simpa using congrArg List.length hKeys
            · intro member other hMem
              exact ih _ hMem
                (hApart member (List.of_mem_zip hMem).1) _
          have hMatched :
              renderMembers (level + 1) members =
                renderMembers (level + 1) matched := by
            rw [renderMembers_eq_map, renderMembers_eq_map,
              ← List.zip_map', ← List.zip_map', hKeys,
              Paired.map_eq_map hTexts fun _ _ hText => hText]
          have hSame : render level (.object members) =
              render level (.object matched) := by
            rw [render, render, hMatched]
          rw [hKeys] at hNodup
          exact hSame.trans
            (render_object_of_perm level hPerm hNodup)

------------------------------------------------------------
-- Canonical Bytes
------------------------------------------------------------

/- Two values of which one has no key twice in an object have
   the same canonical bytes exactly if they are equal up to the
   order of members at every depth. -/
theorem encode_canonical_eq_iff
    {value other : Json}
    (hApart : value.KeysApart) :
    Utf8.encode (canonical value) =
        Utf8.encode (canonical other) ↔
      value.Alike other := by
  have hEnds : Ends "\n".toList := ends_cons (by decide) _
  rw [Utf8.encode_inj, canonical, canonical]
  constructor
  · intro hSame
    have hChars := congrArg String.toList hSame
    rw [String.toList_append, String.toList_append] at hChars
    exact (tells_render 0 value other _ _ hEnds hEnds
      hChars).1
  · intro hAlike
    rw [render_eq_of_alike hAlike hApart]

/- Members that stand in another order at two depths, with an
   empty object and with escapes in a key and in a text. -/
theorem encode_canonical_eq_iff_nested :
    KeysApart (.object
      [("b", .array [.int (-1), .object []]),
        ("a\"", .object
          [("y", .string "\\u\n"), ("x", .null)])]) ∧
    Utf8.encode (canonical (.object
      [("b", .array [.int (-1), .object []]),
        ("a\"", .object
          [("y", .string "\\u\n"), ("x", .null)])])) =
    Utf8.encode (canonical (.object
      [("a\"", .object
          [("x", .null), ("y", .string "\\u\n")]),
        ("b", .array [.int (-1), .object []])])) := by
  have hApart : KeysApart (.object
      [("b", .array [.int (-1), .object []]),
        ("a\"", .object
          [("y", .string "\\u\n"), ("x", .null)])]) := by
    refine .object (by decide) ?_
    simp only [List.forall_mem_cons, List.not_mem_nil,
      false_imp_iff, implies_true, and_true]
    constructor
    · refine .array ?_
      simp only [List.forall_mem_cons, List.not_mem_nil,
        false_imp_iff, implies_true, and_true]
      exact ⟨.int, .object List.nodup_nil (by simp)⟩
    · refine .object (by decide) ?_
      simp only [List.forall_mem_cons, List.not_mem_nil,
        false_imp_iff, implies_true, and_true]
      exact ⟨.string, .null⟩
  have hInner : MemberAlike
      ("a\"", .object
        [("y", .string "\\u\n"), ("x", .null)])
      ("a\"", .object
        [("x", .null), ("y", .string "\\u\n")]) :=
    ⟨rfl, .of_members (.cons ⟨rfl, .same⟩
      (.cons ⟨rfl, .same⟩ .nil)) (.swap _ _ _)⟩
  exact ⟨hApart, (encode_canonical_eq_iff hApart).mpr
    (.of_members (.cons ⟨rfl, .same⟩ (.cons hInner .nil))
      (.swap _ _ _))⟩

end Json

end WireSchema
