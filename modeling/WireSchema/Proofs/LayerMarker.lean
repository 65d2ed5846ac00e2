import WireSchema.Layer
import WireSchema.Proofs.Constant
import WireSchema.Proofs.Name

/-
  The marker that announces the layer of a schema.

  A marker is two slashes and a word between white space, with
  a number behind it.  The first one of a text is the one that
  starts first, with all digits that follow, and it is the one
  that is found.

  Main declarations:
    * `Layer.Marker`
    * `Layer.Marker.IsFirst`
    * `Layer.extract_eq_some_iff`
    * `Layer.extract_eq_none_iff`
-/

namespace WireSchema

------------------------------------------------------------
-- Markers
------------------------------------------------------------

namespace Text

theorem isBlank_of_isAsciiDigit
    {c : Char}
    (hDigit : isAsciiDigit c = true) :
    isBlank c = false := by
  have hCodes := isAsciiDigit_iff.mp hDigit
  simp only [isBlank, Bool.or_eq_false_iff,
    Bool.and_eq_false_iff, decide_eq_false_iff_not,
    beq_eq_false_iff_ne]
  omega

end Text

namespace Layer

/- Two slashes, a word between white space, and digits. -/
structure Marker where
  gap : List Char
  space : List Char
  digits : List Char
  isBlank_gap : ∀ c ∈ gap, Text.isBlank c = true
  isBlank_space : ∀ c ∈ space, Text.isBlank c = true
  space_ne_nil : space ≠ []
  isDigit_digits : ∀ c ∈ digits, Text.isAsciiDigit c = true
  digits_ne_nil : digits ≠ []

namespace Marker

/- What stands behind the two slashes. -/
def tail
    (marker : Marker) :
    List Char :=
  marker.gap ++
    ("LAYER".toList ++ (marker.space ++ marker.digits))

def chars
    (marker : Marker) :
    List Char :=
  '/' :: '/' :: marker.tail

/- The layer that a marker announces. -/
def value
    (marker : Marker) :
    Nat :=
  Text.natValue marker.digits

theorem exists_space_eq_cons
    (marker : Marker) :
    ∃ c space, marker.space = c :: space ∧
      Text.isBlank c = true := by
  rcases List.exists_cons_of_ne_nil marker.space_ne_nil with
    ⟨c, space, hSpace⟩
  refine ⟨c, space, hSpace, marker.isBlank_space c ?_⟩
  rw [hSpace]
  exact List.mem_cons_self

theorem exists_digits_eq_cons
    (marker : Marker) :
    ∃ d digits, marker.digits = d :: digits ∧
      Text.isAsciiDigit d = true := by
  rcases List.exists_cons_of_ne_nil marker.digits_ne_nil with
    ⟨d, digits, hDigits⟩
  refine ⟨d, digits, hDigits, marker.isDigit_digits d ?_⟩
  rw [hDigits]
  exact List.mem_cons_self

/- The first marker of a text, with all its digits. -/
structure IsFirst
    (text before : List Char)
    (marker : Marker)
    (after : List Char) :
    Prop where
  split : text = before ++ (marker.chars ++ after)
  isWhole : ∀ c ∈ after.head?, Text.isAsciiDigit c = false
  isEarliest : ∀ front (other : Marker) back,
    text = front ++ (other.chars ++ back) →
      before.length ≤ front.length

/- A marker with more digits. -/
def extend
    (marker : Marker)
    (more : List Char)
    (hMore : ∀ c ∈ more, Text.isAsciiDigit c = true) :
    Marker :=
  { marker with
    digits := marker.digits ++ more
    isDigit_digits :=
      List.forall_mem_append.mpr
        ⟨marker.isDigit_digits, hMore⟩
    digits_ne_nil :=
      List.append_ne_nil_of_left_ne_nil
        marker.digits_ne_nil more }

theorem tail_extend
    (marker : Marker)
    {more : List Char}
    (hMore : ∀ c ∈ more, Text.isAsciiDigit c = true) :
    (marker.extend more hMore).tail = marker.tail ++ more := by
  simp only [tail, extend, List.append_assoc]

end Marker

namespace Marker

variable {marker : Marker} {after : List Char}

theorem dropWhile_tail
    (marker : Marker)
    (after : List Char) :
    (marker.tail ++ after).dropWhile Text.isBlank =
      "LAYER".toList ++
        (marker.space ++ (marker.digits ++ after)) := by
  rw [tail, List.append_assoc,
    Text.dropWhile_append_of_head marker.isBlank_gap]
  · simp only [List.append_assoc]
  · intro c hHead
    cases hHead
    rfl

theorem isBlank_of_head_digits
    (marker : Marker)
    (after : List Char) :
    ∀ c ∈ (marker.digits ++ after).head?,
      Text.isBlank c = false := by
  intro c hHead
  rcases marker.exists_digits_eq_cons with
    ⟨d, digits, hDigits, hDigit⟩
  rw [hDigits] at hHead
  cases hHead
  exact Text.isBlank_of_isAsciiDigit hDigit

/- The digits of a marker are read behind its slashes. -/
theorem markerDigits_tail
    (marker : Marker)
    (hWhole :
      ∀ c ∈ after.head?, Text.isAsciiDigit c = false) :
    markerDigits (marker.tail ++ after) =
      some marker.digits := by
  have hWord := Text.afterStart_eq_some_iff.mpr
    (marker.dropWhile_tail after)
  rcases marker.exists_space_eq_cons with
    ⟨c, space, hSpace, -⟩
  have hBlank := marker.isBlank_space
  rw [hSpace, List.forall_mem_cons] at hBlank
  have hDrop :
      (space ++ (marker.digits ++ after)).dropWhile
        Text.isBlank = marker.digits ++ after :=
    Text.dropWhile_append_of_head hBlank.2
      (marker.isBlank_of_head_digits after)
  have hTake :
      (marker.digits ++ after).takeWhile Text.isAsciiDigit =
        marker.digits :=
    Text.takeWhile_append_of_head marker.isDigit_digits hWhole
  rw [markerDigits, hWord, hSpace]
  simp only [Option.bind_eq_bind, Option.bind_some,
    List.cons_append, hBlank.1, if_true, hDrop, hTake]
  cases hDigits : marker.digits with
  | nil => exact absurd hDigits marker.digits_ne_nil
  | cons d digits => rfl

end Marker

/- Digits are read behind two slashes only where a marker
   stands. -/
theorem exists_of_markerDigits
    {cs digits : List Char}
    (hDigits : markerDigits cs = some digits) :
    ∃ (marker : Marker) (after : List Char),
      cs = marker.tail ++ after ∧ marker.digits = digits ∧
      ∀ c ∈ after.head?, Text.isAsciiDigit c = false := by
  rcases Option.bind_eq_some_iff.mp hDigits with
    ⟨behind, hWord, hBehind⟩
  rw [Text.afterStart_eq_some_iff] at hWord
  cases behind with
  | nil => cases hBehind
  | cons c rest =>
      by_cases hBlank : Text.isBlank c = true
      · have hSome : digits ≠ [] ∧
            (rest.dropWhile Text.isBlank).takeWhile
              Text.isAsciiDigit = digits := by
          simp only [hBlank, if_true] at hBehind
          split at hBehind
          · cases hBehind
          · rename_i hNot
            cases hBehind
            exact ⟨hNot, rfl⟩
        rcases hSome with ⟨hSome, hTake⟩
        let marker : Marker :=
          { gap := cs.takeWhile Text.isBlank
            space := c :: rest.takeWhile Text.isBlank
            digits := digits
            isBlank_gap := fun _ => List.mem_takeWhile_imp
            isBlank_space := List.forall_mem_cons.mpr
              ⟨hBlank, fun _ => List.mem_takeWhile_imp⟩
            space_ne_nil := List.cons_ne_nil _ _
            isDigit_digits := by
              rw [← hTake]
              exact fun _ => List.mem_takeWhile_imp
            digits_ne_nil := hSome }
        have hNumber : digits ++ (rest.dropWhile
            Text.isBlank).dropWhile Text.isAsciiDigit =
              rest.dropWhile Text.isBlank := by
          rw [← hTake, List.takeWhile_append_dropWhile]
        have hSpace : c :: rest.takeWhile Text.isBlank ++
            rest.dropWhile Text.isBlank = c :: rest := by
          rw [List.cons_append, List.takeWhile_append_dropWhile]
        refine ⟨marker, (rest.dropWhile
          Text.isBlank).dropWhile Text.isAsciiDigit, ?_, rfl,
          Text.head?_dropWhile _ _⟩
        simp only [marker, Marker.tail, List.append_assoc,
          hNumber]
        rw [hSpace, ← hWord, List.takeWhile_append_dropWhile]
      · simp [hBlank] at hBehind

------------------------------------------------------------
-- First Markers
------------------------------------------------------------

namespace Marker

/- A text that starts with a marker starts with a whole
   one. -/
theorem markerDigits_ne_none
    (marker : Marker)
    (back : List Char) :
    markerDigits (marker.tail ++ back) ≠ none := by
  have hMore : ∀ c ∈ back.takeWhile Text.isAsciiDigit,
      Text.isAsciiDigit c = true :=
    fun _ => List.mem_takeWhile_imp
  have hDigits := (marker.extend _ hMore).markerDigits_tail
    (Text.head?_dropWhile Text.isAsciiDigit back)
  rw [tail_extend, List.append_assoc,
    List.takeWhile_append_dropWhile] at hDigits
  rw [hDigits]
  exact Option.some_ne_none _

/- Passing a character that no marker starts at. -/
theorem IsFirst.cons
    {c : Char}
    {text before after : List Char}
    {marker : Marker}
    (hNone : ∀ (other : Marker) back,
      c :: text ≠ other.chars ++ back)
    (hFirst : IsFirst text before marker after) :
    IsFirst (c :: text) (c :: before) marker after where
  split := by rw [hFirst.split, List.cons_append]
  isWhole := hFirst.isWhole
  isEarliest := by
    intro front other back hText
    cases front with
    | nil => exact absurd hText (hNone other back)
    | cons d front =>
        rw [List.cons_append] at hText
        have hLength := hFirst.isEarliest front other back
          (List.cons.inj hText).2
        simpa using hLength

/- The first marker of a text has the same digits however it is
   split off. -/
theorem IsFirst.digits_eq
    {text before after before' after' : List Char}
    {marker marker' : Marker}
    (hFirst : IsFirst text before marker after)
    (hOther : IsFirst text before' marker' after') :
    marker.digits = marker'.digits := by
  have hLength : before.length = before'.length :=
    Nat.le_antisymm
      (hFirst.isEarliest _ _ _ hOther.split)
      (hOther.isEarliest _ _ _ hFirst.split)
  have hRest := List.append_inj_right
    (hFirst.split.symm.trans hOther.split) hLength
  simp only [chars, List.cons_append, List.cons.injEq,
    true_and] at hRest
  have hDigits := marker.markerDigits_tail hFirst.isWhole
  rw [hRest, marker'.markerDigits_tail hOther.isWhole]
    at hDigits
  exact (Option.some.inj hDigits).symm

/- No marker starts with two slashes behind which none can be
   read. -/
theorem ne_of_markerDigits
    {rest : List Char}
    (hNone : markerDigits rest = none)
    (marker : Marker)
    (back : List Char) :
    '/' :: '/' :: rest ≠ marker.chars ++ back := by
  intro hText
  have hRest : rest = marker.tail ++ back :=
    (List.cons.inj (List.cons.inj hText).2).2
  rw [hRest] at hNone
  exact marker.markerDigits_ne_none back hNone

/- No marker starts without two slashes. -/
theorem ne_of_not_slashes
    {c : Char}
    {rest : List Char}
    (hNot : ∀ more, c = '/' → rest = '/' :: more → False)
    (marker : Marker)
    (back : List Char) :
    c :: rest ≠ marker.chars ++ back := by
  intro hText
  rcases List.cons.inj hText with ⟨hSlash, hRest⟩
  exact hNot _ hSlash hRest

end Marker

theorem exists_isFirst_of_firstMarker
    {cs digits : List Char}
    (hDigits : firstMarker cs = some digits) :
    ∃ before marker after,
      Marker.IsFirst cs before marker after ∧
        marker.digits = digits := by
  fun_induction firstMarker cs with
  | case1 rest found hFound =>
      cases hDigits
      rcases exists_of_markerDigits hFound with
        ⟨marker, after, hRest, hSame, hWhole⟩
      refine ⟨[], marker, after, ?_, hSame⟩
      exact
        { split := by
            rw [hRest, List.nil_append]
            rfl
          isWhole := hWhole
          isEarliest := fun _ _ _ _ => Nat.zero_le _ }
  | case2 rest hNone ih =>
      rcases ih hDigits with
        ⟨before, marker, after, hFirst, hSame⟩
      exact ⟨_, marker, after,
        hFirst.cons (Marker.ne_of_markerDigits hNone), hSame⟩
  | case3 c rest hNot ih =>
      rcases ih hDigits with
        ⟨before, marker, after, hFirst, hSame⟩
      exact ⟨_, marker, after,
        hFirst.cons (Marker.ne_of_not_slashes hNot), hSame⟩
  | case4 => cases hDigits

theorem ne_append_of_firstMarker
    {cs : List Char}
    (hNone : firstMarker cs = none)
    (front : List Char)
    (marker : Marker)
    (back : List Char) :
    cs ≠ front ++ (marker.chars ++ back) := by
  fun_induction firstMarker cs generalizing front with
  | case1 rest found hFound => cases hNone
  | case2 rest hRest ih =>
      cases front with
      | nil => exact Marker.ne_of_markerDigits hRest marker back
      | cons d front =>
          intro hText
          rw [List.cons_append] at hText
          exact ih hNone front (List.cons.inj hText).2
  | case3 c rest hNot ih =>
      cases front with
      | nil => exact Marker.ne_of_not_slashes hNot marker back
      | cons d front =>
          intro hText
          rw [List.cons_append] at hText
          exact ih hNone front (List.cons.inj hText).2
  | case4 =>
      intro hText
      have hParts := List.append_eq_nil_iff.mp hText.symm
      cases hParts.2

theorem extract_eq_some_iff
    {text : String}
    {layer : Nat} :
    extract text = some layer ↔
      ∃ before marker after,
        Marker.IsFirst text.toList before marker after ∧
          marker.value = layer := by
  rw [extract, Option.map_eq_some_iff]
  constructor
  · rintro ⟨digits, hDigits, hValue⟩
    rcases exists_isFirst_of_firstMarker hDigits with
      ⟨before, marker, after, hFirst, hSame⟩
    refine ⟨before, marker, after, hFirst, ?_⟩
    rw [Marker.value, hSame, hValue]
  · rintro ⟨before, marker, after, hFirst, hValue⟩
    refine ⟨marker.digits, ?_, hValue⟩
    cases hDigits : firstMarker text.toList with
    | none =>
        exact absurd hFirst.split
          (ne_append_of_firstMarker hDigits _ _ _)
    | some digits =>
        rcases exists_isFirst_of_firstMarker hDigits with
          ⟨front, other, back, hOther, hSame⟩
        rw [← hSame, hOther.digits_eq hFirst]

theorem extract_eq_none_iff
    {text : String} :
    extract text = none ↔
      ∀ front (marker : Marker) back,
        text.toList ≠ front ++ (marker.chars ++ back) := by
  rw [extract, Option.map_eq_none_iff]
  constructor
  · exact ne_append_of_firstMarker
  · intro hNone
    cases hDigits : firstMarker text.toList with
    | none => rfl
    | some digits =>
        rcases exists_isFirst_of_firstMarker hDigits with
          ⟨before, marker, after, hFirst, -⟩
        exact absurd hFirst.split (hNone _ _ _)

end Layer

end WireSchema
