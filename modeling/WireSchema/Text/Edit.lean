/-
  Cutting and replacing in texts.

  Key definitions include:
    * `Text.afterStart`
    * `Text.replaceAll`
    * `Text.splitLast`
-/

namespace WireSchema

namespace Text

------------------------------------------------------------
-- Starts
------------------------------------------------------------

/- What follows a text in another that starts with it. -/
def afterStart :
    List Char → List Char → Option (List Char)
  | [], rest => some rest
  | _ :: _, [] => none
  | p :: pattern, c :: rest =>
      if p == c then afterStart pattern rest else none

/- What follows is no longer than the whole. -/
theorem length_of_afterStart
    {pattern text rest : List Char}
    (h : afterStart pattern text = some rest) :
    rest.length ≤ text.length := by
  induction pattern generalizing text with
  | nil =>
      cases h
      exact Nat.le_refl _
  | cons p pattern ih =>
      cases text with
      | nil => cases h
      | cons c text =>
          simp only [afterStart] at h
          split at h
          · exact Nat.le_succ_of_le (ih h)
          · cases h

------------------------------------------------------------
-- Replacement
------------------------------------------------------------

/- Replaces every occurrence of `first :: pattern`, from left
   to right and without overlaps. -/
def replaceAll
    (first : Char)
    (pattern replacement : List Char)
    (text : List Char) :
    List Char :=
  match text with
  | [] => []
  | c :: rest =>
      if c == first then
        match h : afterStart pattern rest with
        | some after =>
            have : after.length ≤ rest.length :=
              length_of_afterStart h
            replacement ++
              replaceAll first pattern replacement after
        | none =>
            c :: replaceAll first pattern replacement rest
      else
        c :: replaceAll first pattern replacement rest
termination_by text.length

------------------------------------------------------------
-- Qualified Names
------------------------------------------------------------

/- The parts of a text around the last `mark`, if any. -/
def splitLast
    (mark : Char) :
    List Char → Option (List Char × List Char)
  | [] => none
  | c :: rest =>
      match splitLast mark rest with
      | some (before, after) => some (c :: before, after)
      | none =>
          if c == mark then some ([], rest) else none

/- The pieces of a text between the marks. -/
def splitOn
    (mark : Char) :
    List Char → List (List Char)
  | [] => [[]]
  | c :: rest =>
      if c == mark then
        [] :: splitOn mark rest
      else
        match splitOn mark rest with
        | [] => [[c]]
        | piece :: pieces => (c :: piece) :: pieces

end Text

end WireSchema
