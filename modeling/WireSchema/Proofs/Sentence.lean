import WireSchema.Proofs.Spelled
import WireSchema.Proofs.Written

/-
  The items of a schema as lexemes.

  Every item has its lexemes, and these lead a reader from
  before the item to behind it, with that item read.

  Main declarations:
    * `Item.lexemes`
    * `Item.feed_lexemes`
    * `Item.isToken_lexemes`
-/

namespace WireSchema

------------------------------------------------------------
-- Lexemes of Items
------------------------------------------------------------

/- The sign of a terminal that is always spelled alike. -/
def Terminal.spelling :
    Terminal → String
  | .bang => "!"
  | .colon => ":"
  | .dot => "."
  | .equal => "="
  | .hash => "#"
  | .openBrace => "\x7b"
  | .less => "<"
  | .openBracket => "["
  | .greater => ">"
  | .percent => "%"
  | .question => "?"
  | .closeBrace => "\x7d"
  | .closeBracket => "]"
  | .semicolon => ";"
  | _ => ""

namespace Lexeme

def name
    (text : String) :
    Lexeme :=
  ⟨.name, text⟩

def sign
    (terminal : Terminal) :
    Lexeme :=
  ⟨terminal, terminal.spelling⟩

end Lexeme

def FullName.lexemes
    (name : FullName) :
    List Lexeme :=
  match name.space with
  | some space => [.name space, .sign .dot, .name name.member]
  | none => [.name name.member]

def Term.lexemes :
    Term → List Lexeme
  | .named name false => name.lexemes
  | .named name true => .sign .percent :: name.lexemes
  | .generic name => [.sign .bang, .name name]
  | .vector keyword element =>
      .name keyword :: .sign .less :: element.lexemes ++
        [.sign .greater]

def TypeParam.lexemes
    (param : TypeParam) :
    List Lexeme :=
  [.sign .openBrace, .name param.name, .sign .colon,
    .name param.kind, .sign .closeBrace]

def ParamItem.lexemes :
    ParamItem → List Lexeme
  | .bitmask name => [.name name, .sign .colon, .sign .hash]
  | .typed name wireType =>
      [.name name, .sign .colon, ⟨.wireType, wireType⟩]
  | .number => [.sign .hash]
  | .repeated names =>
      .sign .openBracket :: names.map .name ++
        [.sign .closeBracket]

def ResultItem.lexemes :
    ResultItem → List Lexeme
  | .plain head arguments =>
      head.lexemes ++ arguments.map .name
  | .applied head argument =>
      head.lexemes ++ .sign .less :: argument.lexemes ++
        [.sign .greater]

def Opening.lexemes
    (opening : Opening) :
    List Lexeme :=
  opening.name.lexemes ++
    (opening.tag.toList.map fun text => ⟨.tag, text⟩) ++
    opening.typeParams.flatMap TypeParam.lexemes ++
    opening.params.flatMap ParamItem.lexemes

def Item.lexemes :
    Item → List Lexeme
  | .marker text _ => [⟨.marker, text⟩]
  | .builtin name result =>
      name.lexemes ++ .sign .question :: .sign .equal ::
        result.lexemes ++ [.sign .semicolon]
  | .combinator declared =>
      declared.toOpening.lexemes ++ .sign .equal ::
        declared.result.lexemes ++ [.sign .semicolon]

------------------------------------------------------------
-- Names
------------------------------------------------------------

namespace Place

/- The place behind the name of an item. -/
def ofHead
    (name : FullName) :
    Place :=
  match name.space with
  | some _ => .headFull Position.start name
  | none => .head Position.start name.member

/- The place behind the head of a result. -/
def ofResult
    (target : Target)
    (name : FullName) :
    Place :=
  match name.space with
  | some _ => .resultFull target name
  | none => .resultName target name.member

end Place

namespace Reader

variable (items : List Item)
variable (rest : List Lexeme)

theorem feed_head
    (name : FullName) :
    feed (name.lexemes ++ rest) ⟨items, .item⟩ =
      feed rest ⟨items, .ofHead name⟩ := by
  rcases name with ⟨space, member⟩
  cases space <;> rfl

theorem feed_resultHead
    (target : Target)
    (name : FullName) :
    feed (name.lexemes ++ rest) ⟨items, .resultStart target⟩ =
      feed rest ⟨items, .ofResult target name⟩ := by
  rcases name with ⟨space, member⟩
  cases space <;> rfl

end Reader

------------------------------------------------------------
-- Openings
------------------------------------------------------------

namespace Place

/- A place with an opening read, where a type variable may
   follow. -/
inductive Opens :
    Opening → Place → Prop where
  | head
      (name : FullName) :
      Opens (.ofName Position.start name) (.ofHead name)
  | opened
      (opening : Opening) :
      Opens opening (.opened opening)

/- A place with an opening read, where a param may follow. -/
inductive Lists
    (opening : Opening) :
    Place → Prop where
  | opens
      {place : Place}
      (hOpens : Opens opening place) :
      Lists opening place
  | listed :
      Lists opening (.listed opening)

end Place

namespace Reader

variable (items : List Item)
variable (rest : List Lexeme)
variable {opening : Opening}
variable {place : Place}

theorem feed_tag
    (name : FullName)
    (tag : Option String) :
    ∃ place,
      Place.Opens
        { Opening.ofName Position.start name with tag := tag }
        place ∧
      feed ((tag.toList.map fun text => ⟨.tag, text⟩) ++ rest)
          ⟨items, .ofHead name⟩ =
        feed rest ⟨items, place⟩ := by
  cases tag with
  | none => exact ⟨_, .head name, rfl⟩
  | some text =>
      refine ⟨_, .opened _, ?_⟩
      rcases name with ⟨space, member⟩
      cases space <;> rfl

theorem feed_typeParam
    (hOpens : place.Opens opening)
    (param : TypeParam) :
    feed (param.lexemes ++ rest) ⟨items, place⟩ =
      feed rest ⟨items, .opened { opening with
        typeParams := opening.typeParams ++ [param] }⟩ := by
  cases hOpens with
  | opened => rfl
  | head name =>
      rcases name with ⟨space, member⟩
      cases space <;> rfl

theorem feed_typeParams
    (hOpens : place.Opens opening)
    (params : List TypeParam) :
    ∃ next,
      Place.Opens { opening with
        typeParams := opening.typeParams ++ params } next ∧
      feed (params.flatMap TypeParam.lexemes ++ rest)
          ⟨items, place⟩ =
        feed rest ⟨items, next⟩ := by
  induction params generalizing opening place with
  | nil =>
      refine ⟨place, ?_, rfl⟩
      rw [List.append_nil]
      exact hOpens
  | cons param params ih =>
      rcases ih (.opened { opening with
        typeParams := opening.typeParams ++ [param] }) with
        ⟨next, hNext, hFeed⟩
      refine ⟨next, ?_, ?_⟩
      · rw [List.append_assoc] at hNext
        exact hNext
      · rw [List.flatMap_cons, List.append_assoc,
          feed_typeParam items _ hOpens, hFeed]

theorem feed_repeatNames
    (names others : List String) :
    feed (others.map .name ++ .sign .closeBracket :: rest)
        ⟨items, .repeatNames opening names⟩ =
      feed rest ⟨items, .listed
        (opening.addParam (.repeated (names ++ others)))⟩ := by
  induction others generalizing names with
  | nil =>
      rw [List.append_nil]
      rfl
  | cons name others ih =>
      have hMore := ih (names ++ [name])
      rw [List.append_assoc] at hMore
      exact hMore

theorem feed_repeatOpen
    (names : List String) :
    feed (names.map .name ++ .sign .closeBracket :: rest)
        ⟨items, .repeatOpen opening⟩ =
      feed rest ⟨items, .listed
        (opening.addParam (.repeated names))⟩ := by
  cases names with
  | nil => rfl
  | cons name names =>
      exact feed_repeatNames items rest [name] names

/- Wherever a param may follow, the same lexemes go on. -/
theorem feed_afterParams
    (hLists : place.Lists opening)
    {terminal : Terminal}
    (hMem : terminal ∈
      [Terminal.equal, .hash, .openBracket, .name])
    (text : String) :
    feed (⟨terminal, text⟩ :: rest) ⟨items, place⟩ =
      (opening.afterParams
        ⟨terminal, text, Position.start⟩).bind fun next =>
          feed rest ⟨items, next⟩ := by
  have hCases : terminal = .equal ∨ terminal = .hash ∨
      terminal = .openBracket ∨ terminal = .name := by
    simpa using hMem
  cases hLists with
  | listed => rcases hCases with rfl | rfl | rfl | rfl <;> rfl
  | opens hOpens =>
      cases hOpens with
      | opened =>
          rcases hCases with rfl | rfl | rfl | rfl <;> rfl
      | head name =>
          rcases name with ⟨space, member⟩
          cases space <;>
            rcases hCases with rfl | rfl | rfl | rfl <;> rfl

theorem feed_param
    (hLists : place.Lists opening)
    (param : ParamItem) :
    feed (param.lexemes ++ rest) ⟨items, place⟩ =
      feed rest ⟨items, .listed (opening.addParam param)⟩ := by
  cases param with
  | bitmask name =>
      exact feed_afterParams items _ hLists (by decide) _
  | typed name wireType =>
      exact feed_afterParams items _ hLists (by decide) _
  | number =>
      exact feed_afterParams items _ hLists (by decide) _
  | repeated names =>
      rw [ParamItem.lexemes, List.append_assoc,
        ← feed_repeatOpen]
      exact feed_afterParams items _ hLists (by decide) _

theorem feed_params
    (hLists : place.Lists opening)
    (params : List ParamItem) :
    ∃ next,
      Place.Lists { opening with
        params := opening.params ++ params } next ∧
      feed (params.flatMap ParamItem.lexemes ++ rest)
          ⟨items, place⟩ =
        feed rest ⟨items, next⟩ := by
  induction params generalizing opening place with
  | nil =>
      refine ⟨place, ?_, rfl⟩
      rw [List.append_nil]
      exact hLists
  | cons param params ih =>
      have hListed :
          Place.Lists (opening.addParam param)
            (.listed (opening.addParam param)) :=
        .listed
      rcases ih hListed with ⟨next, hNext, hFeed⟩
      refine ⟨next, ?_, ?_⟩
      · rw [Opening.addParam, List.append_assoc] at hNext
        exact hNext
      · rw [List.flatMap_cons, List.append_assoc,
          feed_param items _ hLists, hFeed]

theorem feed_equal
    (hLists : place.Lists opening) :
    feed (.sign .equal :: rest) ⟨items, place⟩ =
      feed rest
        ⟨items, .resultStart (.combinator opening)⟩ :=
  feed_afterParams items rest hLists (by decide) "="

end Reader

------------------------------------------------------------
-- Results
------------------------------------------------------------

/- The place behind the bracket that closes a term inside open
   vectors. -/
def Place.behindTerm
    (target : Target)
    (head : FullName)
    (term : Term) :
    List String → Place
  | [] => .resultClosed target head term
  | keyword :: keywords =>
      .resultTerm target head
        ⟨keywords, .closed (.vector keyword term)⟩

namespace Reader

variable (items : List Item)
variable (rest : List Lexeme)
variable (target : Target)
variable (head : FullName)

theorem feed_greater
    (place : TermPlace)
    {term : Term}
    (hTerm : place.term? = some term)
    (keywords : List String) :
    feed (.sign .greater :: rest)
        ⟨items, .resultTerm target head ⟨keywords, place⟩⟩ =
      feed rest
        ⟨items, .behindTerm target head term keywords⟩ := by
  cases place <;> cases hTerm <;> cases keywords <;> rfl

/- A term and the bracket behind it. -/
theorem feed_term
    (term : Term)
    (keywords : List String) :
    feed (term.lexemes ++ .sign .greater :: rest)
        ⟨items, .resultTerm target head ⟨keywords, .start⟩⟩ =
      feed rest
        ⟨items, .behindTerm target head term keywords⟩ := by
  induction term generalizing keywords rest with
  | generic name =>
      exact feed_greater items rest target head
        (.closed (.generic name)) rfl keywords
  | named name bare =>
      rcases name with ⟨space, member⟩
      cases space with
      | none =>
          cases bare with
          | false =>
              exact feed_greater items rest target head
                (.named member) rfl keywords
          | true =>
              exact feed_greater items rest target head
                (.bareNamed member) rfl keywords
      | some space =>
          cases bare with
          | false =>
              exact feed_greater items rest target head
                (.qualified ⟨some space, member⟩ false) rfl
                keywords
          | true =>
              exact feed_greater items rest target head
                (.qualified ⟨some space, member⟩ true) rfl
                keywords
  | vector keyword element ih =>
      have hInner := ih (.sign .greater :: rest)
        (keyword :: keywords)
      rw [Place.behindTerm, feed_greater items rest target head
        (.closed (.vector keyword element)) rfl] at hInner
      rw [← hInner, Term.lexemes, List.append_assoc]
      rfl

theorem feed_arguments
    (arguments others : List String) :
    feed (others.map .name ++ .sign .semicolon :: rest)
        ⟨items, .resultArguments target head arguments⟩ =
      feed rest ⟨items ++ [target.complete
        (.plain head (arguments ++ others))], .item⟩ := by
  induction others generalizing arguments with
  | nil =>
      rw [List.append_nil]
      rfl
  | cons name others ih =>
      have hMore := ih (arguments ++ [name])
      rw [List.append_assoc] at hMore
      exact hMore

/- A result and the semicolon behind it. -/
theorem feed_result
    (result : ResultItem) :
    feed (result.lexemes ++ .sign .semicolon :: rest)
        ⟨items, .resultStart target⟩ =
      feed rest
        ⟨items ++ [target.complete result], .item⟩ := by
  cases result with
  | plain head arguments =>
      rw [ResultItem.lexemes, List.append_assoc,
        feed_resultHead]
      rcases head with ⟨space, member⟩
      cases arguments with
      | nil => cases space <;> rfl
      | cons name arguments =>
          have hMore := feed_arguments items rest target
            ⟨space, member⟩ [name] arguments
          cases space <;> exact hMore
  | applied head argument =>
      rw [ResultItem.lexemes, List.append_assoc,
        List.append_assoc, feed_resultHead]
      have hTerm := feed_term items (.sign .semicolon :: rest)
        target head argument []
      rcases head with ⟨space, member⟩
      cases space <;> exact hTerm

end Reader

------------------------------------------------------------
-- Items
------------------------------------------------------------

/- The lexemes of an item lead a reader behind it. -/
theorem Item.feed_lexemes
    (items : List Item)
    (rest : List Lexeme)
    (item : Item) :
    Reader.feed (item.lexemes ++ rest) ⟨items, .item⟩ =
      Reader.feed rest
        ⟨items ++ [item.relocate Position.forget],
          .item⟩ := by
  cases item with
  | marker text position => rfl
  | builtin name result =>
      simp only [lexemes, List.append_assoc, List.cons_append,
        List.nil_append]
      rw [Reader.feed_head]
      have hResult := Reader.feed_result items rest
        (.builtin name) result
      rcases name with ⟨space, member⟩
      cases space <;> exact hResult
  | combinator declared =>
      rcases declared with
        ⟨⟨position, name, tag, typeParams, params⟩, result⟩
      simp only [lexemes, Opening.lexemes, List.append_assoc,
        List.cons_append, List.nil_append]
      rw [Reader.feed_head]
      generalize hEnd : Lexeme.sign .equal ::
        (result.lexemes ++ .sign .semicolon :: rest) = ending
      rcases Reader.feed_tag items
        (typeParams.flatMap TypeParam.lexemes ++
          (params.flatMap ParamItem.lexemes ++ ending))
        name tag with ⟨tagged, hTagged, hTag⟩
      rcases Reader.feed_typeParams items
        (params.flatMap ParamItem.lexemes ++ ending)
        hTagged typeParams with ⟨opened, hOpened, hOpen⟩
      rcases Reader.feed_params items ending
        (.opens hOpened) params with ⟨listed, hListed, hList⟩
      rw [hTag, hOpen, hList, ← hEnd,
        Reader.feed_equal items _ hListed, Reader.feed_result]
      rfl

/- The lexemes of items are read to these items. -/
theorem Item.feed_flatMap
    (before items : List Item) :
    Reader.feed (items.flatMap lexemes) ⟨before, .item⟩ =
      some ⟨before ++ items.map (relocate Position.forget),
        .item⟩ := by
  induction items generalizing before with
  | nil =>
      rw [List.map_nil, List.append_nil]
      rfl
  | cons item items ih =>
      rw [List.flatMap_cons, feed_lexemes, ih,
        List.append_assoc]
      rfl

------------------------------------------------------------
-- Lexemes that Are Tokens
------------------------------------------------------------

instance instDecidableIsName
    (text : String) :
    Decidable (IsName text) :=
  Terminal.instDecidableIsLexeme .name text

namespace Lexeme

/- A name, or a sign that is always spelled alike. -/
inductive IsPiece :
    Lexeme → Prop where
  | name
      {text : String}
      (hName : IsName text) :
      IsPiece (.name text)
  | sign
      {terminal : Terminal}
      (hSign : terminal.spelling ≠ "") :
      IsPiece (.sign terminal)

@[simp]
theorem isPiece_name_iff
    {text : String} :
    (name text).IsPiece ↔ IsName text := by
  constructor
  · intro hPiece
    cases hPiece with
    | name hName => exact hName
    | sign hSign => exact absurd rfl hSign
  · exact .name

@[simp]
theorem isPiece_sign_iff
    {terminal : Terminal} :
    (sign terminal).IsPiece ↔ terminal.spelling ≠ "" := by
  constructor
  · rintro (⟨⟨hSome, -⟩⟩ | ⟨hSign⟩)
    · exact absurd rfl hSome
    · exact hSign
  · exact .sign

theorem IsPiece.isToken
    {lexeme : Lexeme}
    (hPiece : lexeme.IsPiece) :
    lexeme.IsToken := by
  cases hPiece with
  | name hName => exact ⟨rfl, hName⟩
  | @sign terminal hSign =>
      constructor <;>
        cases terminal <;>
        first | exact absurd rfl hSign | decide

end Lexeme

theorem FullName.isPiece_lexemes
    {name : FullName}
    (hName : name.IsSpelled) :
    ∀ lexeme ∈ name.lexemes, lexeme.IsPiece := by
  rcases name with ⟨space, member⟩
  cases space with
  | none => simpa [lexemes] using hName.member
  | some space =>
      simpa [lexemes, Terminal.spelling] using
        ⟨hName.space space rfl, hName.member⟩

theorem Term.isPiece_lexemes
    {term : Term}
    (hTerm : term.IsSpelled) :
    ∀ lexeme ∈ term.lexemes, lexeme.IsPiece := by
  induction term with
  | named name bare =>
      have hName := FullName.isPiece_lexemes hTerm
      cases bare with
      | false => exact hName
      | true => simpa [lexemes, Terminal.spelling] using hName
  | generic name =>
      simpa [lexemes, Terminal.spelling, IsSpelled] using hTerm
  | vector keyword element ih =>
      simpa [lexemes, Terminal.spelling, or_imp, forall_and]
        using ⟨hTerm.1, ih hTerm.2⟩

theorem TypeParam.isPiece_lexemes
    {param : TypeParam}
    (hParam : param.IsSpelled) :
    ∀ lexeme ∈ param.lexemes, lexeme.IsPiece := by
  simpa [lexemes, Terminal.spelling, IsSpelled] using hParam

/- A param is made of names and signs, unless it is typed. -/
theorem ParamItem.isPiece_lexemes
    {param : ParamItem}
    (hParam : param.IsSpelled)
    (hPlain : ∀ name wireType, param ≠ .typed name wireType) :
    ∀ lexeme ∈ param.lexemes, lexeme.IsPiece := by
  cases param with
  | bitmask name =>
      simpa [lexemes, Terminal.spelling, IsSpelled] using
        hParam
  | typed name wireType => exact absurd rfl (hPlain _ _)
  | number => simp [lexemes, Terminal.spelling]
  | repeated names =>
      simpa [lexemes, Terminal.spelling, IsSpelled, or_imp,
        forall_and] using hParam

theorem ResultItem.isPiece_lexemes
    {result : ResultItem}
    (hResult : result.IsSpelled) :
    ∀ lexeme ∈ result.lexemes, lexeme.IsPiece := by
  cases result with
  | plain head arguments =>
      simpa [lexemes, or_imp, forall_and] using
        ⟨FullName.isPiece_lexemes hResult.1, hResult.2⟩
  | applied head argument =>
      simpa [lexemes, Terminal.spelling, or_imp, forall_and]
        using ⟨FullName.isPiece_lexemes hResult.1,
          Term.isPiece_lexemes hResult.2⟩

theorem ParamItem.isToken_lexemes
    {param : ParamItem}
    (hParam : param.IsSpelled) :
    ∀ lexeme ∈ param.lexemes, lexeme.IsToken := by
  cases param with
  | typed name wireType =>
      have hName := (Lexeme.IsPiece.name hParam.1).isToken
      have hColon : (Lexeme.sign .colon).IsToken :=
        Lexeme.IsPiece.isToken (.sign (by decide))
      have hWire : Lexeme.IsToken ⟨.wireType, wireType⟩ :=
        ⟨rfl, hParam.2⟩
      simpa [lexemes] using ⟨hName, hColon, hWire⟩
  | _ =>
      intro lexeme hMem
      refine (isPiece_lexemes hParam ?_ lexeme hMem).isToken
      rintro _ _ ⟨⟩

theorem Opening.isToken_lexemes
    {opening : Opening}
    (hOpening : opening.IsSpelled) :
    ∀ lexeme ∈ opening.lexemes, lexeme.IsToken := by
  simp only [lexemes, List.forall_mem_append]
  refine ⟨⟨⟨?_, ?_⟩, ?_⟩, ?_⟩
  · intro lexeme hMem
    exact (FullName.isPiece_lexemes hOpening.name lexeme
      hMem).isToken
  · intro lexeme hMem
    rcases List.mem_map.mp hMem with ⟨text, hText, rfl⟩
    exact ⟨rfl, hOpening.tag text
      (Option.mem_toList.mp hText)⟩
  · intro lexeme hMem
    rcases List.mem_flatMap.mp hMem with
      ⟨param, hParam, hLexeme⟩
    exact (TypeParam.isPiece_lexemes
      (hOpening.typeParams param hParam) lexeme
      hLexeme).isToken
  · intro lexeme hMem
    rcases List.mem_flatMap.mp hMem with
      ⟨param, hParam, hLexeme⟩
    exact ParamItem.isToken_lexemes
      (hOpening.params param hParam) lexeme hLexeme

/- The lexemes of an item stand for themselves. -/
theorem Item.isToken_lexemes
    {item : Item}
    (hItem : item.IsSpelled) :
    ∀ lexeme ∈ item.lexemes, lexeme.IsToken := by
  cases item with
  | marker text position =>
      have hMarker : Lexeme.IsToken ⟨.marker, text⟩ :=
        ⟨rfl, hItem⟩
      simpa [lexemes] using hMarker
  | builtin name result =>
      have hPieces : ∀ lexeme ∈ lexemes (.builtin name result),
          lexeme.IsPiece := by
        simpa [lexemes, Terminal.spelling, or_imp, forall_and]
          using ⟨FullName.isPiece_lexemes hItem.1,
            ResultItem.isPiece_lexemes hItem.2⟩
      intro lexeme hMem
      exact (hPieces lexeme hMem).isToken
  | combinator declared =>
      have hPieces : ∀ lexeme ∈ Lexeme.sign .equal ::
          declared.result.lexemes ++ [.sign .semicolon],
          lexeme.IsPiece := by
        simpa [Terminal.spelling, or_imp, forall_and] using
          ResultItem.isPiece_lexemes hItem.result
      intro lexeme hMem
      rw [lexemes, List.append_assoc] at hMem
      rcases List.mem_append.mp hMem with hFront | hBack
      · exact Opening.isToken_lexemes hItem.opening lexeme
          hFront
      · exact (hPieces lexeme hBack).isToken

end WireSchema
