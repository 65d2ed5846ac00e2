/-
  Line ends of text files.

  Key definitions include:
    * `Text.unifyNewlines`
-/

namespace WireSchema

namespace Text

------------------------------------------------------------
-- Line Ends
------------------------------------------------------------

/- Turns each carriage return, with the line feed after it if
   there is one, into a line feed.  The characters already
   passed are kept in reverse. -/
def unifyNewlinesFrom :
    List Char → List Char → List Char
  | passed, [] => passed.reverse
  | passed, '\r' :: '\n' :: rest =>
      unifyNewlinesFrom ('\n' :: passed) rest
  | passed, '\r' :: rest =>
      unifyNewlinesFrom ('\n' :: passed) rest
  | passed, c :: rest =>
      unifyNewlinesFrom (c :: passed) rest

/- The text with line feeds for line ends of every kind. -/
def unifyNewlines
    (text : String) :
    String :=
  String.ofList (unifyNewlinesFrom [] text.toList)

end Text

end WireSchema
