/-
  Tables: values by key.

  A table keeps its keys in the order in which they came.  A
  key that is set again keeps its place and loses its value.

  Key definitions include:
    * `Table.put`
    * `Table.ofEntries`
-/

namespace WireSchema

namespace Table

variable {κ ν : Type}
variable [BEq κ]

/- Sets the value of a key, in its place or, if it is new, at
   the end. -/
def put
    (key : κ)
    (value : ν) :
    List (κ × ν) → List (κ × ν)
  | [] => [(key, value)]
  | entry :: entries =>
      if entry.1 == key then
        (entry.1, value) :: entries
      else
        entry :: put key value entries

/- The table of entries: the last value of each key. -/
def ofEntries
    (entries : List (κ × ν)) :
    List (κ × ν) :=
  entries.foldl (fun table entry => put entry.1 entry.2 table)
    []

end Table

end WireSchema
