import WireSchema.Text.Blank
import WireSchema.Text.Hex
import WireSchema.Text.Numeral
import WireSchema.Text.Word

/-
  The terminals of the schema language.

  A terminal is given by its extent: the number of characters
  it takes at the start of a text, zero if it does not match
  there.  Several terminals may match at one place; they are
  tried in a fixed order and the first match is taken, whether
  or not it is the longest.

  Key definitions include:
    * `Terminal`
    * `Terminal.extent`
    * `Terminal.inOrder`
    * `Terminal.select`
-/

namespace WireSchema

------------------------------------------------------------
-- Terminals
------------------------------------------------------------

inductive Terminal where
  | wireType
  | name
  | blockComment
  | blank
  | lineComment
  | marker
  | integer
  | tag
  | bang
  | colon
  | dot
  | equal
  | hash
  | openBrace
  | less
  | openBracket
  | greater
  | percent
  | question
  | closeBrace
  | closeBracket
  | semicolon
deriving Repr, DecidableEq

namespace Terminal

/- The order in which terminals are tried. -/
def inOrder : List Terminal :=
  [.wireType, .name, .blockComment, .blank, .lineComment,
    .marker, .integer, .tag, .bang, .colon, .dot, .equal,
    .hash, .openBrace, .less, .openBracket, .greater,
    .percent, .question, .closeBrace, .closeBracket,
    .semicolon]

/- White space and comments, which separate other lexemes and
   mean nothing themselves. -/
def isLayout :
    Terminal → Bool
  | .blockComment => true
  | .blank => true
  | .lineComment => true
  | _ => false

------------------------------------------------------------
-- Character Classes
------------------------------------------------------------

/- A letter or a low line. -/
def startsName
    (c : Char) :
    Bool :=
  c.isAlpha || c == '_'

/- A letter, a digit or a low line. -/
def inName
    (c : Char) :
    Bool :=
  c.isAlphanum || c == '_'

/- Signs that end a wire type wherever they stand. -/
def endsWireType
    (c : Char) :
    Bool :=
  Text.isBlank c || c == ';' || c == '\x7b' || c == '\x7d' ||
    c == '[' || c == ']' || c == '='

/- White space that separates lexemes.  Other white space is
   no part of any lexeme outside comments. -/
def isSpacing
    (c : Char) :
    Bool :=
  c == ' ' || c == '\t' || c == '\x0c' || c == '\r' ||
    c == '\n'

------------------------------------------------------------
-- Extents
------------------------------------------------------------

/- The length of the longest start within a class. -/
def runLength
    (inRun : Char → Bool)
    (cs : List Char) :
    Nat :=
  (cs.takeWhile inRun).length

/- The length up to and with the first end of a comment,
   counted on from `n`; zero if there is none. -/
def commentEnd :
    Nat → List Char → Nat
  | _, [] => 0
  | n, '*' :: '/' :: _ => n + 2
  | n, _ :: rest => commentEnd (n + 1) rest

/- The length of a section marker after its first three
   hyphens: a word and three hyphens more. -/
def markerTail
    (cs : List Char) :
    Nat :=
  match runLength Text.isWord cs with
  | 0 => 0
  | length + 1 =>
      match cs.drop (length + 1) with
      | '-' :: '-' :: '-' :: _ => length + 4
      | _ => 0

/- The extent of a terminal that is one sign. -/
def signExtent
    (sign : Char) :
    List Char → Nat
  | [] => 0
  | c :: _ => if c == sign then 1 else 0

/- How many characters of a text a terminal takes. -/
def extent :
    Terminal → List Char → Nat
  | .wireType, c :: rest =>
      if endsWireType c || c == '#' then 0
      else 1 + runLength (fun c => !endsWireType c) rest
  | .wireType, [] => 0
  | .name, c :: rest =>
      if startsName c then 1 + runLength inName rest else 0
  | .name, [] => 0
  | .blockComment, '/' :: '*' :: rest => commentEnd 2 rest
  | .blockComment, _ => 0
  | .blank, cs => runLength isSpacing cs
  | .lineComment, '/' :: '/' :: rest =>
      2 + runLength (· != '\n') rest
  | .lineComment, _ => 0
  | .marker, '-' :: '-' :: '-' :: rest =>
      match markerTail rest with
      | 0 => 0
      | length + 1 => length + 4
  | .marker, _ => 0
  | .integer, cs => runLength Text.isAsciiDigit cs
  | .tag, '#' :: rest =>
      match runLength Text.isHex rest with
      | 0 => 0
      | length + 1 => 1 + min (length + 1) 8
  | .tag, _ => 0
  | .bang, cs => signExtent '!' cs
  | .colon, cs => signExtent ':' cs
  | .dot, cs => signExtent '.' cs
  | .equal, cs => signExtent '=' cs
  | .hash, cs => signExtent '#' cs
  | .openBrace, cs => signExtent '\x7b' cs
  | .less, cs => signExtent '<' cs
  | .openBracket, cs => signExtent '[' cs
  | .greater, cs => signExtent '>' cs
  | .percent, cs => signExtent '%' cs
  | .question, cs => signExtent '?' cs
  | .closeBrace, cs => signExtent '\x7d' cs
  | .closeBracket, cs => signExtent ']' cs
  | .semicolon, cs => signExtent ';' cs

------------------------------------------------------------
-- Selection
------------------------------------------------------------

/- The first of some terminals that matches, with its
   extent. -/
def firstMatch
    (terminals : List Terminal)
    (cs : List Char) :
    Option (Terminal × Nat) :=
  terminals.findSome? fun terminal =>
    match terminal.extent cs with
    | 0 => none
    | length + 1 => some (terminal, length + 1)

/- The terminal taken where some are expected: one of these or
   layout. -/
def select
    (expected : List Terminal)
    (cs : List Char) :
    Option (Terminal × Nat) :=
  firstMatch
    (inOrder.filter fun terminal =>
      expected.contains terminal || terminal.isLayout)
    cs

end Terminal

end WireSchema
