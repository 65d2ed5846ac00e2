import WireSchema.Grammar.Terminal
import WireSchema.Text.Numeral
import WireSchema.Text.Position
import WireSchema.Text.Quoted

/-
  Reading a text by an automaton that tells, at each place,
  which terminals it looks for.

  What an automaton looks for decides how the text is cut into
  lexemes.  It may look for a terminal and still refuse the
  token: it then has seen a lexeme that some other place of the
  grammar would have taken.

  Key definitions include:
    * `Token`
    * `Unexpected`
    * `Automaton`
    * `Automaton.read`
-/

namespace WireSchema

------------------------------------------------------------
-- Tokens
------------------------------------------------------------

/- A lexeme that is no layout, and the place of its start. -/
structure Token where
  terminal : Terminal
  text : String
  position : Position
deriving Repr, DecidableEq

/- Where and why a text stops being a sentence.  A text that
   ends too early has an empty token at the start of its last
   one. -/
inductive Unexpected where
  | token (text : String) (position : Position)
  | character (c : Char) (position : Position)
deriving Repr, DecidableEq

namespace Unexpected

def position :
    Unexpected → Position
  | .token _ position => position
  | .character _ position => position

def message
    (fault : Unexpected) :
    String :=
  let what :=
    match fault with
    | .token text _ => "token " ++ Text.quoted text
    | .character c _ =>
        "character " ++ Text.quoted (String.ofList [c])
  "unexpected " ++ what ++
    " at line " ++ Text.natText fault.position.line ++
    ", column " ++ Text.natText fault.position.column

/- The fault of a text in which no terminal looked for
   matches. -/
def ofText
    (c : Char)
    (rest : List Char)
    (position : Position) :
    Unexpected :=
  match Terminal.firstMatch Terminal.inOrder (c :: rest) with
  | some (_, length) =>
      .token (String.ofList ((c :: rest).take length)) position
  | none => .character c position

end Unexpected

------------------------------------------------------------
-- Automata
------------------------------------------------------------

/- States, the terminals that each looks for, the step on a
   token, and the value of a text that ends in a state. -/
structure Automaton (σ α : Type) where
  expects : σ → List Terminal
  step : σ → Token → Option σ
  finish : σ → Option α

namespace Automaton

variable {σ α : Type}

/- Runs from a state through the rest of a text.  `last` is the
   start of the last token before it. -/
def run
    (automaton : Automaton σ α)
    (state : σ)
    (last position : Position)
    (text : List Char) :
    Except Unexpected (σ × Position) :=
  match text with
  | [] => .ok (state, last)
  | c :: rest =>
      match Terminal.select (automaton.expects state)
          (c :: rest) with
      | none => .error (.ofText c rest position)
      | some (terminal, length) =>
          let lexeme := (c :: rest).take length
          let after := position.advance lexeme
          if terminal.isLayout then
            run automaton state last after
              (rest.drop (length - 1))
          else
            let token : Token :=
              ⟨terminal, String.ofList lexeme, position⟩
            match automaton.step state token with
            | none => .error (.token token.text position)
            | some state =>
                run automaton state position after
                  (rest.drop (length - 1))
termination_by text.length
decreasing_by
  all_goals
    simp only [List.length_cons, List.length_drop]
    omega

/- Reads a whole text from a first state. -/
def read
    (automaton : Automaton σ α)
    (first : σ)
    (text : String) :
    Except Unexpected α :=
  match automaton.run first Position.start Position.start
      text.toList with
  | .error fault => .error fault
  | .ok (state, last) =>
      match automaton.finish state with
      | some value => .ok value
      | none => .error (.token "" last)

end Automaton

end WireSchema
