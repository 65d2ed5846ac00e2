import WireSchema.Grammar.Term

/-
  Wire types: a term, perhaps behind a gate.

  A gate names a bitmask field and one of its bits, as in
  `flags.3?int`; the param is present when the bit is set.

  Terms nest to any depth.  The depth at which a recursive
  reader would run out of its stack is left out.

  Key definitions include:
    * `Gate`
    * `WireType`
    * `WireType.parse`
-/

namespace WireSchema

------------------------------------------------------------
-- Wire Types
------------------------------------------------------------

/- A bit of a bitmask field. -/
structure Gate where
  field : String
  bit : Nat
deriving Repr, DecidableEq

/- The type of a param as it is spelled. -/
structure WireType where
  gate : Option Gate
  term : Term
deriving Repr, DecidableEq

------------------------------------------------------------
-- Places in a Wire Type
------------------------------------------------------------

/- How far a wire type has been read.  A name and a point may
   start a gate as well as a term. -/
inductive WirePlace where
  | start
  | first (name : String)
  | firstDot (name : String)
  | gateBit (gate : Gate)
  | term (gate : Option Gate) (state : TermState)
deriving Repr, DecidableEq

namespace WirePlace

/- What is looked for at a place. -/
def expects :
    WirePlace → List Terminal
  | .start => [.bang, .name, .percent]
  | .first _ => [.dot, .less]
  | .firstDot _ => [.integer, .name]
  | .gateBit _ => [.question]
  | .term _ state => state.place.expects

/- The place after a token. -/
def step
    (place : WirePlace)
    (token : Token) :
    Option WirePlace :=
  match place, token.terminal with
  | .start, .bang => some (.term none ⟨[], .bang⟩)
  | .start, .percent => some (.term none ⟨[], .percent⟩)
  | .start, .name => some (.first token.text)
  | .first name, .dot => some (.firstDot name)
  | .first name, .less => some (.term none ⟨[name], .start⟩)
  | .firstDot name, .integer =>
      some (.gateBit
        ⟨name, Text.natValue token.text.toList⟩)
  | .firstDot name, .name =>
      some (.term none
        ⟨[], .qualified ⟨some name, token.text⟩ false⟩)
  | .gateBit gate, .question =>
      some (.term (some gate) TermState.start)
  | .term gate state, _ =>
      (state.step token).map fun state => .term gate state
  | _, _ => none

/- The wire type that ends at a place. -/
def finish :
    WirePlace → Option WireType
  | .first name =>
      some ⟨none, .named ⟨none, name⟩ false⟩
  | .term gate state =>
      state.term?.map fun term => ⟨gate, term⟩
  | _ => none

end WirePlace

------------------------------------------------------------
-- Reading
------------------------------------------------------------

/- The automaton of wire types. -/
def WireType.automaton : Automaton WirePlace WireType where
  expects := WirePlace.expects
  step := WirePlace.step
  finish := WirePlace.finish

/- Reads a wire type from a text of its own. -/
def WireType.parse
    (text : String) :
    Except Unexpected WireType :=
  WireType.automaton.read .start text

end WireSchema
