/-
  Places in a text.

  Lines and columns count from one, columns in code points.
  Only a line feed ends a line.

  Key definitions include:
    * `Position`
    * `Position.advance`
-/

namespace WireSchema

------------------------------------------------------------
-- Positions
------------------------------------------------------------

/- A line and a column. -/
structure Position where
  line : Nat
  column : Nat
deriving Repr, DecidableEq, Inhabited

namespace Position

/- The place of the first character. -/
def start : Position :=
  ⟨1, 1⟩

/- The place after one character. -/
def next
    (pos : Position)
    (c : Char) :
    Position :=
  if c == '\n' then
    ⟨pos.line + 1, 1⟩
  else
    ⟨pos.line, pos.column + 1⟩

/- The place after several characters. -/
def advance
    (pos : Position)
    (cs : List Char) :
    Position :=
  cs.foldl next pos

end Position

end WireSchema
