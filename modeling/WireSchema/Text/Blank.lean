/-
  White space, and the words between it.

  Key definitions include:
    * `Text.isBlank`
    * `Text.words`
    * `Text.collapse`
-/

namespace WireSchema

namespace Text

------------------------------------------------------------
-- White Space
------------------------------------------------------------

/- White space of every script, the four information
   separators included. -/
def isBlank
    (c : Char) :
    Bool :=
  let n := c.toNat
  (decide (0x09 ≤ n) && decide (n ≤ 0x0D)) ||
    (decide (0x1C ≤ n) && decide (n ≤ 0x20)) ||
    n == 0x85 || n == 0xA0 || n == 0x1680 ||
    (decide (0x2000 ≤ n) && decide (n ≤ 0x200A)) ||
    n == 0x2028 || n == 0x2029 || n == 0x202F ||
    n == 0x205F || n == 0x3000

------------------------------------------------------------
-- Words
------------------------------------------------------------

/- The maximal runs of characters that are not blank.  The
   second argument is the word being read. -/
def wordsFrom :
    List Char → List Char → List (List Char)
  | [], [] => []
  | [], word => [word]
  | c :: rest, word =>
      if isBlank c then
        if word.isEmpty then
          wordsFrom rest []
        else
          word :: wordsFrom rest []
      else
        wordsFrom rest (word ++ [c])

/- The words of a text, in order. -/
def words
    (text : String) :
    List String :=
  (wordsFrom text.toList []).map String.ofList

/- The text with its words one space apart. -/
def collapse
    (text : String) :
    String :=
  " ".intercalate (words text)

end Text

end WireSchema
