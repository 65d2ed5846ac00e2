import Mathlib.Data.List.Induction
import Mathlib.Data.List.Nodup
import WireSchema.Instance.Datum
import WireSchema.Proofs.Outcome

/-
  What values are compared by.

  Two values are equal when they have the same face: truth
  values count as numbers, and objects by the name of their
  class and by the faces of their values.  The hash of a value
  is that of its face, too.

  An object that is met twice is not compared, so a value must
  hold each of its objects in one state only.  And objects that
  cannot list their values cannot be compared at all.

  Main declarations:
    * `Datum.IsSound`
    * `Datum.face`
    * `Datum.tells_equal`
    * `Datum.equal_self_object_iff`
    * `Datum.checkHashable_eq`
    * `Datum.hash_eq`
    * `Datum.checkHashable_eq_hash`
    * `Datum.distinct_spec`
    * `Datum.arePlainAlike_object`
-/

namespace WireSchema

namespace Datum

------------------------------------------------------------
-- Sound Values
------------------------------------------------------------

/- Induction over unfolded values, for the items of a list and
   the entries of an object at once. -/
@[elab_as_elim]
theorem induct
    {P : Datum → Prop}
    (null : P .null)
    (bool : ∀ value, P (.bool value))
    (int : ∀ value, P (.int value))
    (text : ∀ value, P (.text value))
    (bytes : ∀ value, P (.bytes value))
    (atom : ∀ value, P (.atom value))
    (list : ∀ items, (∀ item ∈ items, P item) →
      P (.list items))
    (object : ∀ index decl outline entries,
      (∀ entry ∈ entries, P entry.2) →
      P (.object index decl outline entries)) :
    ∀ value, P value := by
  refine @Datum.rec P (fun items => ∀ item ∈ items, P item)
    (fun entries => ∀ entry ∈ entries, P entry.2)
    (fun entry => P entry.2)
    null bool int text bytes atom list object ?_ ?_ ?_ ?_ ?_
  · simp
  · intro item items hItem hItems
    rw [List.forall_mem_cons]
    exact ⟨hItem, hItems⟩
  · simp
  · intro entry entries hEntry hEntries
    rw [List.forall_mem_cons]
    exact ⟨hEntry, hEntries⟩
  · intro name value hValue
    exact hValue

/- A value whose objects are the known ones, all of which list
   their values. -/
inductive IsSound
    (known : Nat → Datum) :
    Datum → Prop where
  | null :
      IsSound known .null
  | bool
      (value : Bool) :
      IsSound known (.bool value)
  | int
      (value : Int) :
      IsSound known (.int value)
  | text
      (value : String) :
      IsSound known (.text value)
  | bytes
      (value : List UInt8) :
      IsSound known (.bytes value)
  | atom
      (value : Atom) :
      IsSound known (.atom value)
  | list
      {items : List Datum}
      (hItems : ∀ item ∈ items, IsSound known item) :
      IsSound known (.list items)
  | object
      {index : Nat}
      {decl : ClassDecl}
      {outline : Outline}
      {entries : List (String × Datum)}
      (hKnown :
        known index = .object index decl outline entries)
      (hFault : outline.fault = none)
      (hEntries : ∀ entry ∈ entries, IsSound known entry.2) :
      IsSound known (.object index decl outline entries)

namespace IsSound

variable {known : Nat → Datum}

theorem items
    {items : List Datum}
    (hSound : IsSound known (.list items)) :
    ∀ item ∈ items, IsSound known item := by
  cases hSound with
  | list hItems => exact hItems

variable {index : Nat} {decl : ClassDecl} {outline : Outline}
variable {fields : List (String × Datum)}

theorem entries
    (hSound :
      IsSound known (.object index decl outline fields)) :
    ∀ entry ∈ fields, IsSound known entry.2 := by
  cases hSound with
  | object hKnown hFault hEntries => exact hEntries

theorem check
    (hSound :
      IsSound known (.object index decl outline fields)) :
    outline.check = .ok () := by
  cases hSound with
  | object hKnown hFault hEntries => rw [Outline.check, hFault]

/- One and the same object unfolds in one way. -/
theorem eq_of_isSameObject
    {a b : Datum}
    (hA : IsSound known a)
    (hB : IsSound known b)
    (hSame : a.isSameObject b = true) :
    a = b := by
  cases hA with
  | object hKnown =>
      cases hB with
      | object hOther =>
          rw [← hKnown, ← hOther]
          congr 1
          simpa [isSameObject, index?] using hSame
      | _ => simp [isSameObject, index?] at hSame
  | _ => simp [isSameObject, index?] at hSame

end IsSound

end Datum

------------------------------------------------------------
-- Faces
------------------------------------------------------------

/- What counts of a value in comparisons.  Truth values count as
   numbers, and so do atoms that equal one.  Objects count by
   their class and values. -/
inductive Face where
  | null
  | number (value : Int)
  | text (value : String)
  | bytes (value : List UInt8)
  | atom (text : String)
  | list (items : List Face)
  | object (name : String) (entries : List (String × Face))
  | dict (entries : List (String × Face))

namespace Atom

/- The face of an atom. -/
def face
    (value : Atom) :
    Face :=
  match value.whole with
  | some number => .number number
  | none => .atom value.text

theorem face_cases
    (value : Atom) :
    (∃ number, value.whole = some number ∧
        value.face = .number number) ∨
      (value.whole = none ∧ value.face = .atom value.text) := by
  rcases value with ⟨text, whole⟩
  cases whole with
  | some number => exact .inl ⟨number, rfl, rfl⟩
  | none => exact .inr ⟨rfl, rfl⟩

end Atom

namespace Datum

mutual

/- The face of a value. -/
def face :
    Datum → Face
  | .null => .null
  | .bool value => .number (if value then 1 else 0)
  | .int value => .number value
  | .text value => .text value
  | .bytes value => .bytes value
  | .atom value => value.face
  | .list items => .list (faceItems items)
  | .object _ decl _ entries =>
      .object decl.schemaName (faceEntries entries)

/- The faces of items. -/
def faceItems :
    List Datum → List Face
  | [] => []
  | item :: items => face item :: faceItems items

/- The faces of named values. -/
def faceEntries :
    List (String × Datum) → List (String × Face)
  | [] => []
  | (name, value) :: entries =>
      (name, face value) :: faceEntries entries

end

theorem faceItems_eq
    (items : List Datum) :
    faceItems items = items.map face := by
  induction items with
  | nil => rfl
  | cons item items ih =>
      rw [faceItems, ih, List.map_cons]

theorem faceEntries_eq
    (entries : List (String × Datum)) :
    faceEntries entries =
      entries.map (Prod.map id face) := by
  induction entries with
  | nil => rfl
  | cons entry entries ih =>
      rw [faceEntries, ih, List.map_cons]
      rfl

theorem exists_of_face_list
    {value : Datum}
    {faces : List Face}
    (hFace : value.face = .list faces) :
    ∃ items, value = .list items := by
  cases value with
  | list items => exact ⟨items, rfl⟩
  | atom value =>
      rcases value.face_cases with
        ⟨number, -, hAtom⟩ | ⟨-, hAtom⟩
      · simp [face, hAtom] at hFace
      · simp [face, hAtom] at hFace
  | _ => simp [face] at hFace

theorem exists_of_face_object
    {value : Datum}
    {name : String}
    {faces : List (String × Face)}
    (hFace : value.face = .object name faces) :
    ∃ index decl outline entries,
      value = .object index decl outline entries := by
  cases value with
  | object index decl outline entries =>
      exact ⟨index, decl, outline, entries, rfl⟩
  | atom value =>
      rcases value.face_cases with
        ⟨number, -, hAtom⟩ | ⟨-, hAtom⟩
      · simp [face, hAtom] at hFace
      · simp [face, hAtom] at hFace
  | _ => simp [face] at hFace

------------------------------------------------------------
-- Comparisons
------------------------------------------------------------

/- An outcome that tells whether something holds. -/
def Tells
    (outcome : Except InstanceFault Bool)
    (holds : Prop) :
    Prop :=
  ∃ answer, outcome = .ok answer ∧ (answer = true ↔ holds)

/- A second comparison is made if the first one holds. -/
theorem Tells.bind
    {first next : Except InstanceFault Bool}
    {P Q : Prop}
    (hFirst : Tells first P)
    (hNext : Tells next Q) :
    Tells
      (first >>= fun same => if same then next else .ok false)
      (P ∧ Q) := by
  rcases hFirst with ⟨answer, hAnswer, hHolds⟩
  rw [hAnswer]
  by_cases hSame : answer = true
  · rcases hNext with ⟨last, hLast, hEnds⟩
    refine ⟨last, ?_, ?_⟩
    · simpa [hSame, Bind.bind, Except.bind] using hLast
    · rw [hEnds, ← hHolds]
      simp [hSame]
  · refine ⟨false, ?_, ?_⟩
    · simp [hSame, Bind.bind, Except.bind]
    · rw [← hHolds]
      simp [hSame]

/- An atom counts as a whole number or as its text. -/
theorem tells_equal_atom
    (value : Atom)
    (b : Datum) :
    Tells (equal (.atom value) b) (value.face = b.face) := by
  rcases value with ⟨text, whole⟩
  cases b with
  | bool other =>
      cases whole <;> cases other <;>
        simp [Tells, equal, face, number?, Atom.face]
  | atom other =>
      rcases other with ⟨other, number⟩
      cases whole <;> cases number <;>
        simp [Tells, equal, face, equalAtoms, Atom.face]
  | _ =>
      cases whole <;>
        simp [Tells, equal, face, number?, Atom.face]

theorem tells_atom_equal
    (a : Datum)
    (value : Atom) :
    Tells (equal a (.atom value)) (a.face = value.face) := by
  rcases value with ⟨text, whole⟩
  cases a with
  | bool other =>
      cases whole <;> cases other <;>
        simp [Tells, equal, face, number?, Atom.face]
  | atom other => exact tells_equal_atom other _
  | _ =>
      cases whole <;>
        simp [Tells, equal, face, number?, Atom.face]

/- Values of different kinds, and those that are neither lists
   nor objects. -/
theorem tells_equal_of_apart
    {a b : Datum}
    (hLists : ∀ items others,
      ¬ (a = .list items ∧ b = .list others))
    (hObjects : a.index? = none ∨ b.index? = none) :
    Tells (equal a b) (a.face = b.face) := by
  cases b with
  | atom value => exact tells_atom_equal a value
  | bool other =>
      cases a with
      | atom value => exact tells_equal_atom value _
      | bool value =>
          cases value <;> cases other <;>
            simp [Tells, equal, face, number?]
      | _ =>
          cases other <;> simp [Tells, equal, face, number?]
  | list others =>
      cases a with
      | list items => exact absurd ⟨rfl, rfl⟩ (hLists _ _)
      | atom value => exact tells_equal_atom value _
      | _ => simp [Tells, equal, face, number?]
  | object j other outline others =>
      cases a with
      | object i decl outline entries =>
          simp [index?] at hObjects
      | atom value => exact tells_equal_atom value _
      | _ => simp [Tells, equal, face, number?]
  | _ =>
      cases a with
      | atom value => exact tells_equal_atom value _
      | bool value =>
          cases value <;> simp [Tells, equal, face, number?]
      | _ => simp [Tells, equal, face, number?]

variable {known : Nat → Datum}

/- Two values are compared and then what follows them.  An
   object that is met again needs no comparison. -/
theorem tells_then
    {a b : Datum}
    {next : Except InstanceFault Bool}
    {Q : Prop}
    (hA : IsSound known a)
    (hB : IsSound known b)
    (hEqual : Tells (equal a b) (a.face = b.face))
    (hNext : Tells next Q) :
    Tells
      (if a.isSameObject b then
        .ok true >>= fun same =>
          if same then next else .ok false
      else
        equal a b >>= fun same =>
          if same then next else .ok false)
      (a.face = b.face ∧ Q) := by
  by_cases hSame : a.isSameObject b = true
  · rw [if_pos hSame, hA.eq_of_isSameObject hB hSame]
    exact Tells.bind ⟨true, rfl, by simp⟩ hNext
  · rw [if_neg hSame]
    exact hEqual.bind hNext

theorem tells_equalItems
    {items others : List Datum}
    (hItems : ∀ item ∈ items, IsSound known item)
    (hOthers : ∀ other ∈ others, IsSound known other)
    (hEqual : ∀ item ∈ items, ∀ other ∈ others,
      Tells (equal item other) (item.face = other.face)) :
    Tells (equalItems items others)
      (faceItems items = faceItems others) := by
  induction items generalizing others with
  | nil =>
      cases others with
      | nil => exact ⟨true, rfl, by simp⟩
      | cons other others =>
          exact ⟨false, rfl, by simp [faceItems]⟩
  | cons item items ih =>
      cases others with
      | nil => exact ⟨false, rfl, by simp [faceItems]⟩
      | cons other others =>
          rw [List.forall_mem_cons] at hItems hOthers
          rw [equalItems, faceItems, faceItems,
            List.cons.injEq]
          apply tells_then hItems.1 hOthers.1
          · exact hEqual item List.mem_cons_self other
              List.mem_cons_self
          · apply ih hItems.2 hOthers.2
            intro next hNext last hLast
            exact hEqual next (List.mem_cons_of_mem _ hNext)
              last (List.mem_cons_of_mem _ hLast)

theorem tells_equalEntries
    {entries others : List (String × Datum)}
    (hEntries : ∀ entry ∈ entries, IsSound known entry.2)
    (hOthers : ∀ other ∈ others, IsSound known other.2)
    (hEqual : ∀ entry ∈ entries, ∀ other ∈ others,
      Tells (equal entry.2 other.2)
        (entry.2.face = other.2.face)) :
    Tells (equalEntries entries others)
      (faceEntries entries = faceEntries others) := by
  induction entries generalizing others with
  | nil =>
      cases others with
      | nil => exact ⟨true, rfl, by simp⟩
      | cons other others =>
          exact ⟨false, rfl, by simp [faceEntries]⟩
  | cons entry entries ih =>
      cases others with
      | nil => exact ⟨false, rfl, by simp [faceEntries]⟩
      | cons other others =>
          rw [List.forall_mem_cons] at hEntries hOthers
          rw [equalEntries, faceEntries, faceEntries,
            List.cons.injEq, Prod.mk.injEq, and_assoc]
          by_cases hName : entry.1 = other.1
          · simp only [hName, bne_self_eq_false, true_and,
              Bool.false_eq_true, if_false]
            apply tells_then hEntries.1 hOthers.1
            · exact hEqual entry List.mem_cons_self other
                List.mem_cons_self
            · apply ih hEntries.2 hOthers.2
              intro next hNext last hLast
              exact hEqual next (List.mem_cons_of_mem _ hNext)
                last (List.mem_cons_of_mem _ hLast)
          · rw [if_pos (bne_iff_ne.mpr hName)]
            exact ⟨false, rfl, by simp [hName]⟩

/- Two values are equal when they have the same face. -/
theorem tells_equal
    {a b : Datum}
    (hA : IsSound known a)
    (hB : IsSound known b) :
    Tells (equal a b) (a.face = b.face) := by
  induction a using induct generalizing b with
  | list items ih =>
      by_cases hList : ∃ others, b = .list others
      · rcases hList with ⟨others, hList⟩
        rw [hList] at hB ⊢
        rw [equal, face, face, Face.list.injEq]
        by_cases hLength : items.length = others.length
        · rw [if_pos (beq_iff_eq.mpr hLength)]
          apply tells_equalItems hA.items hB.items
          intro item hItem other hOther
          exact ih item hItem (hA.items item hItem)
            (hB.items other hOther)
        · rw [if_neg (by simpa using hLength)]
          refine ⟨false, rfl, ?_⟩
          simp only [Bool.false_eq_true, false_iff,
            faceItems_eq]
          intro hFaces
          have hSame := congrArg List.length hFaces
          rw [List.length_map, List.length_map] at hSame
          exact hLength hSame
      · apply tells_equal_of_apart
        · intro items others hBoth
          exact hList ⟨others, hBoth.2⟩
        · left
          rfl
  | object i decl outline entries ih =>
      cases hB with
      | object hKnown hFault hOthers =>
          rename_i j other otherOutline others
          have hB := IsSound.object hKnown hFault hOthers
          rw [equal, face, face, Face.object.injEq]
          by_cases hName : decl.schemaName = other.schemaName
          · rw [if_pos (beq_iff_eq.mpr hName), hA.check,
              hB.check]
            simp only [hName, true_and]
            apply tells_equalEntries hA.entries hB.entries
            intro entry hEntry last hLast
            exact ih entry hEntry (hA.entries entry hEntry)
              (hB.entries last hLast)
          · rw [if_neg (by simpa using hName)]
            exact ⟨false, rfl, by simp [hName]⟩
      | _ =>
          apply tells_equal_of_apart
          · simp
          · simp [index?]
  | _ =>
      apply tells_equal_of_apart
      · simp
      · simp [index?]

/- An item of a list is equal to itself, if only as one and the
   same object. -/
theorem equalItems_self
    {items : List Datum}
    (hItems : ∀ item ∈ items,
      item.index? = none → equal item item = .ok true) :
    equalItems items items = .ok true := by
  induction items with
  | nil => rfl
  | cons item items ih =>
      rw [List.forall_mem_cons] at hItems
      rw [equalItems]
      cases hIndex : item.index? with
      | none =>
          simp [isSameObject, hIndex, hItems.1 hIndex,
            ih hItems.2, Bind.bind, Except.bind]
      | some index =>
          simp [isSameObject, hIndex, ih hItems.2, Bind.bind,
            Except.bind]

theorem equalEntries_self
    {entries : List (String × Datum)}
    (hEntries : ∀ entry ∈ entries,
      entry.2.index? = none →
      equal entry.2 entry.2 = .ok true) :
    equalEntries entries entries = .ok true := by
  induction entries with
  | nil => rfl
  | cons entry entries ih =>
      rw [List.forall_mem_cons] at hEntries
      rw [equalEntries]
      cases hIndex : entry.2.index? with
      | none =>
          simp [isSameObject, hIndex, hEntries.1 hIndex,
            ih hEntries.2, Bind.bind, Except.bind]
      | some index =>
          simp [isSameObject, hIndex, ih hEntries.2, Bind.bind,
            Except.bind]

theorem equal_self_of_index?
    (value : Datum)
    (hIndex : value.index? = none) :
    equal value value = .ok true := by
  induction value using induct with
  | list items ih =>
      rw [equal, if_pos (beq_self_eq_true _)]
      exact equalItems_self ih
  | object index decl outline entries => cases hIndex
  | bool value => cases value <;> rfl
  | atom value =>
      rcases value with ⟨text, whole⟩
      cases whole <;> simp [equal, equalAtoms]
  | _ => simp [equal, number?]

/- An object is equal to itself if it lists its values. -/
theorem equal_self_object_iff
    {index : Nat}
    {decl : ClassDecl}
    {outline : Outline}
    {entries : List (String × Datum)} :
    equal (.object index decl outline entries)
        (.object index decl outline entries) = .ok true ↔
      outline.fault = none := by
  have hEntries : equalEntries entries entries = .ok true := by
    apply equalEntries_self
    intro entry _ hIndex
    exact equal_self_of_index? entry.2 hIndex
  rw [equal, if_pos (beq_self_eq_true _), hEntries,
    Outline.check]
  cases outline.fault with
  | none => simp [Bind.bind, Except.bind]
  | some fault => simp [Bind.bind, Except.bind]

------------------------------------------------------------
-- Hashing
------------------------------------------------------------

/- A value that is a list or an object with such a value. -/
inductive HoldsList :
    Datum → Prop where
  | list
      (items : List Datum) :
      HoldsList (.list items)
  | entry
      {index : Nat}
      {decl : ClassDecl}
      {outline : Outline}
      {entries : List (String × Datum)}
      {entry : String × Datum}
      (hEntry : entry ∈ entries)
      (hHolds : HoldsList entry.2) :
      HoldsList (.object index decl outline entries)

theorem holdsList_object_iff
    {index : Nat}
    {decl : ClassDecl}
    {outline : Outline}
    {entries : List (String × Datum)} :
    HoldsList (.object index decl outline entries) ↔
      ∃ entry ∈ entries, HoldsList entry.2 := by
  constructor
  · intro hHolds
    cases hHolds with
    | entry hEntry hHolds => exact ⟨_, hEntry, hHolds⟩
  · intro hHolds
    rcases hHolds with ⟨entry, hEntry, hHolds⟩
    exact .entry hEntry hHolds

open Classical in
theorem checkHashableEntries_eq
    {entries : List (String × Datum)}
    (hEntries : ∀ entry ∈ entries,
      entry.2.checkHashable =
        if HoldsList entry.2 then .error .unhashable
        else .ok ()) :
    checkHashableEntries entries =
      if ∃ entry ∈ entries, HoldsList entry.2 then
        .error .unhashable
      else
        .ok () := by
  induction entries with
  | nil => simp [checkHashableEntries]
  | cons entry entries ih =>
      rw [List.forall_mem_cons] at hEntries
      rw [checkHashableEntries, hEntries.1, ih hEntries.2]
      simp only [List.exists_mem_cons_iff]
      by_cases hFirst : HoldsList entry.2
      · simp [hFirst, Bind.bind, Except.bind]
      · simp [hFirst, Bind.bind, Except.bind]

open Classical in
/- A value is refused when a list occurs in it. -/
theorem checkHashable_eq
    {value : Datum}
    (hSound : IsSound known value) :
    value.checkHashable =
      if HoldsList value then .error .unhashable
      else .ok () := by
  induction hSound with
  | list hItems ih =>
      rw [if_pos (.list _), checkHashable]
  | object hKnown hFault hEntries ih =>
      rw [checkHashable, Outline.check, hFault,
        checkHashableEntries_eq ih]
      simp only [holdsList_object_iff]
      rfl
  | _ =>
      rw [if_neg (by intro hHolds; cases hHolds)]
      rfl

end Datum

namespace Face

mutual

/- The hash of a face. -/
def hash
    (hashing : Hashing) :
    Face → Except InstanceFault Int
  | .null => .ok hashing.ofNull
  | .number value => .ok (hashing.ofNumber value)
  | .text value => .ok (hashing.ofText value)
  | .bytes value => .ok (hashing.ofBytes value)
  | .atom value => .ok (hashing.ofAtom value)
  | .list _ => .error .unhashable
  | .dict _ => .error .unhashable
  | .object name entries => do
      let rows ← hashEntries hashing entries
      return hashing.ofRow
        [hashing.ofClass name, hashing.ofRow rows]

/- The hashes of named faces. -/
def hashEntries
    (hashing : Hashing) :
    List (String × Face) → Except InstanceFault (List Int)
  | [] => .ok []
  | (name, value) :: entries => do
      let first ← hash hashing value
      let rest ← hashEntries hashing entries
      return hashing.ofRow [hashing.ofText name, first] :: rest

end

end Face

namespace Datum

variable {known : Nat → Datum} {hashing : Hashing}

theorem hashEntries_eq
    {entries : List (String × Datum)}
    (hEntries : ∀ entry ∈ entries,
      entry.2.hash hashing = entry.2.face.hash hashing) :
    hashEntries hashing entries =
      Face.hashEntries hashing (faceEntries entries) := by
  induction entries with
  | nil => rfl
  | cons entry entries ih =>
      rw [List.forall_mem_cons] at hEntries
      rw [hashEntries, faceEntries, Face.hashEntries,
        hEntries.1, ih hEntries.2]

/- The hash of a value is that of its face, so equal values hash
   alike. -/
theorem hash_eq
    {value : Datum}
    (hSound : IsSound known value) :
    value.hash hashing = value.face.hash hashing := by
  induction hSound with
  | atom value =>
      rcases value.face_cases with
        ⟨number, hWhole, hFace⟩ | ⟨hWhole, hFace⟩
      · simp only [hash, face, hWhole, hFace, Face.hash]
      · simp only [hash, face, hWhole, hFace, Face.hash]
  | object hKnown hFault hEntries ih =>
      rw [hash, face, Face.hash, hashEntries_eq ih,
        Outline.check, hFault]
      rfl
  | _ => simp only [hash, face, Face.hash]

theorem checkHashableEntries_eq_hash
    {entries : List (String × Datum)}
    (hEntries : ∀ entry ∈ entries, entry.2.checkHashable =
      (entry.2.hash hashing).map fun _ => ()) :
    checkHashableEntries entries =
      (hashEntries hashing entries).map fun _ => () := by
  induction entries with
  | nil => rfl
  | cons entry entries ih =>
      rw [List.forall_mem_cons] at hEntries
      rw [checkHashableEntries, hashEntries, hEntries.1,
        ih hEntries.2]
      cases entry.2.hash hashing with
      | error fault => rfl
      | ok first =>
          cases hashEntries hashing entries with
          | error fault => rfl
          | ok rest => rfl

/- A value is taken exactly if it has a hash, and refused for
   the same reason. -/
theorem checkHashable_eq_hash
    (hashing : Hashing)
    (value : Datum) :
    value.checkHashable =
      (value.hash hashing).map fun _ => () := by
  induction value using induct with
  | atom value =>
      rcases value with ⟨text, whole⟩
      cases whole <;> rfl
  | object index decl outline entries ih =>
      rw [checkHashable, hash, checkHashableEntries_eq_hash ih]
      cases outline.check with
      | error fault => rfl
      | ok _ =>
          cases hashEntries hashing entries with
          | error fault => rfl
          | ok rows => rfl
  | _ => rfl

theorem hash_of_face
    {a b : Datum}
    (hA : IsSound known a)
    (hB : IsSound known b)
    (hFace : a.face = b.face)
    (hashing : Hashing) :
    a.hash hashing = b.hash hashing := by
  rw [hash_eq hA, hash_eq hB, hFace]

/- Equal values are refused or taken alike. -/
theorem checkHashable_of_face
    {a b : Datum}
    (hA : IsSound known a)
    (hB : IsSound known b)
    (hFace : a.face = b.face) :
    a.checkHashable = b.checkHashable := by
  rw [checkHashable_eq_hash default,
    checkHashable_eq_hash default b,
    hash_of_face hA hB hFace]

------------------------------------------------------------
-- Different Values
------------------------------------------------------------

/- A sound value with its hash. -/
structure IsHashed
    (known : Nat → Datum)
    (hashing : Hashing)
    (value : Int × Datum) :
    Prop where
  sound : IsSound known value.2
  hash : value.2.hash hashing = .ok value.1

theorem IsHashed.eq_of_face
    {a b : Int × Datum}
    (hA : IsHashed known hashing a)
    (hB : IsHashed known hashing b)
    (hFace : a.2.face = b.2.face) :
    a.1 = b.1 := by
  have hSame := hash_of_face hA.sound hB.sound hFace hashing
  rw [hA.hash, hB.hash] at hSame
  exact Except.ok.inj hSame

/- What is found by its hash is what has the same face. -/
theorem isAmong_iff
    {value : Int × Datum}
    {others : List (Int × Datum)}
    (hValue : IsHashed known hashing value)
    (hOthers : ∀ other ∈ others,
      IsHashed known hashing other) :
    isAmong value others = true ↔
      value.2.face ∈ others.map fun other => other.2.face := by
  rw [isAmong, List.any_eq_true, List.mem_map]
  apply exists_congr
  intro other
  apply and_congr_right
  intro hMem
  have hOther := hOthers other hMem
  rcases tells_equal hOther.sound hValue.sound with
    ⟨same, hSame, hFace⟩
  rw [hSame, Bool.and_eq_true, beq_iff_eq, Bool.or_eq_true,
    ← hFace]
  constructor
  · rintro ⟨-, hObject | hEqual⟩
    · rw [hFace, hValue.sound.eq_of_isSameObject hOther.sound
        hObject]
    · exact hEqual
  · intro hEqual
    exact ⟨hOther.eq_of_face hValue (hFace.mp hEqual),
      .inr hEqual⟩

/- The values that differ from all before them. -/
def distinct
    (values : List (Int × Datum)) :
    List (Int × Datum) :=
  values.foldl
    (fun kept value =>
      if isAmong value kept then kept else kept ++ [value]) []

theorem distinct_concat
    (values : List (Int × Datum))
    (value : Int × Datum) :
    distinct (values ++ [value]) =
      if isAmong value (distinct values) then distinct values
      else distinct values ++ [value] := by
  rw [distinct, List.foldl_append]
  rfl

/- One value of each face is kept. -/
theorem distinct_spec
    {values : List (Int × Datum)}
    (hValues : ∀ value ∈ values,
      IsHashed known hashing value) :
    distinct values ⊆ values ∧
      ((distinct values).map fun value =>
        value.2.face).Nodup ∧
      (values.map fun value => value.2.face) ⊆
        (distinct values).map fun value => value.2.face := by
  induction values using List.reverseRecOn with
  | nil => simp [distinct]
  | append_singleton values value ih =>
      rw [List.forall_mem_append, List.forall_mem_singleton]
        at hValues
      rcases ih hValues.1 with ⟨hSubset, hNodup, hFaces⟩
      have hAmong := isAmong_iff hValues.2
        fun other hOther => hValues.1 other (hSubset hOther)
      rw [distinct_concat, List.map_append]
      by_cases hSeen :
          isAmong value (distinct values) = true
      · rw [if_pos hSeen]
        refine ⟨?_, hNodup, ?_⟩
        · exact List.subset_append_of_subset_left _ hSubset
        · apply List.append_subset.mpr
          refine ⟨hFaces, ?_⟩
          simpa using hAmong.mp hSeen
      · rw [if_neg hSeen, List.map_append]
        refine ⟨?_, ?_, ?_⟩
        · exact List.append_subset.mpr
            ⟨List.subset_append_of_subset_left _ hSubset,
              List.subset_append_right _ _⟩
        · apply List.Nodup.append hNodup (by simp)
          rw [hAmong] at hSeen
          simpa using hSeen
        · exact List.append_subset.mpr
            ⟨List.subset_append_of_subset_left _ hFaces,
              List.subset_append_right _ _⟩

/- Values that are taken as keys all get their hashes. -/
theorem exists_hashed
    (hashing : Hashing)
    {values : List Datum}
    (hSound : ∀ value ∈ values, IsSound known value)
    (hValues : ∀ value ∈ values, value.checkHashable = .ok ()) :
    ∃ hashed,
      hashed.map Prod.snd = values ∧
      (∀ value ∈ hashed, IsHashed known hashing value) ∧
      countDistinct hashing values =
        .ok (distinct hashed).length := by
  have hHashes : ∃ hashed,
      values.mapM (fun value =>
        (value.hash hashing).map fun number =>
          (number, value)) = .ok hashed ∧
      hashed.map Prod.snd = values ∧
      ∀ value ∈ hashed, IsHashed known hashing value := by
    induction values with
    | nil => exact ⟨[], rfl, rfl, by simp⟩
    | cons value values ih =>
        rw [List.forall_mem_cons] at hSound hValues
        rcases ih hSound.2 hValues.2 with
          ⟨hashed, hMap, hSame, hAll⟩
        have hTaken := hValues.1
        rw [checkHashable_eq_hash hashing,
          Outcome.map_eq_ok_iff] at hTaken
        rcases hTaken with ⟨number, hNumber, -⟩
        refine ⟨(number, value) :: hashed, ?_, ?_, ?_⟩
        · rw [List.mapM_cons, hNumber, hMap]
          rfl
        · rw [List.map_cons, hSame]
        · rw [List.forall_mem_cons]
          exact ⟨⟨hSound.1, hNumber⟩, hAll⟩
  rcases hHashes with ⟨hashed, hMap, hSame, hAll⟩
  refine ⟨hashed, hSame, hAll, ?_⟩
  rw [countDistinct, hMap]
  rfl

end Datum

------------------------------------------------------------
-- Plain Forms
------------------------------------------------------------

namespace Plain

mutual

/- The face of plain data, given those of the objects left in
   it. -/
def face
    (faceOf : Nat → Face) :
    Plain → Face
  | .null => .null
  | .bool value => .number (if value then 1 else 0)
  | .int value => .number value
  | .text value => .text value
  | .bytes value => .bytes value
  | .atom value => value.face
  | .list items => .list (faceItems faceOf items)
  | .dict entries => .dict (faceEntries faceOf entries)
  | .object index => faceOf index

/- The faces of items. -/
def faceItems
    (faceOf : Nat → Face) :
    List Plain → List Face
  | [] => []
  | item :: items =>
      face faceOf item :: faceItems faceOf items

/- The faces of the entries of a dictionary. -/
def faceEntries
    (faceOf : Nat → Face) :
    List (String × Plain) → List (String × Face)
  | [] => []
  | (key, value) :: entries =>
      (key, face faceOf value) :: faceEntries faceOf entries

end

variable {faceOf : Nat → Face}

theorem faceItems_eq
    (items : List Plain) :
    faceItems faceOf items = items.map (face faceOf) := by
  induction items with
  | nil => rfl
  | cons item items ih =>
      rw [faceItems, ih, List.map_cons]

theorem ofItems_eq
    (items : List Value) :
    ofItems items = items.map ofValue := by
  induction items with
  | nil => rfl
  | cons item items ih =>
      rw [ofItems, ih, List.map_cons]

theorem put_congr
    {key : String}
    {value same : Plain}
    {entries others : List (String × Plain)}
    (hValue : value.face faceOf = same.face faceOf)
    (hEntries : faceEntries faceOf entries =
      faceEntries faceOf others) :
    faceEntries faceOf (put key value entries) =
      faceEntries faceOf (put key same others) := by
  induction entries generalizing others with
  | nil =>
      cases others with
      | nil => simp [put, faceEntries, hValue]
      | cons other others => simp [faceEntries] at hEntries
  | cons entry entries ih =>
      cases others with
      | nil => simp [faceEntries] at hEntries
      | cons other others =>
          rw [faceEntries, faceEntries, List.cons.injEq,
            Prod.mk.injEq] at hEntries
          rw [put, put, hEntries.1.1]
          split
          · rw [faceEntries, faceEntries, hValue, hEntries.2]
          · rw [faceEntries, faceEntries, hEntries.1.2,
              ih hEntries.2]

theorem foldl_put_congr
    {puts sames entries others : List (String × Plain)}
    (hPuts : faceEntries faceOf puts =
      faceEntries faceOf sames)
    (hEntries : faceEntries faceOf entries =
      faceEntries faceOf others) :
    faceEntries faceOf
        (puts.foldl (fun dict (key, value) =>
          put key value dict) entries) =
      faceEntries faceOf
        (sames.foldl (fun dict (key, value) =>
          put key value dict) others) := by
  induction puts generalizing sames entries others with
  | nil =>
      cases sames with
      | nil => exact hEntries
      | cons same sames => simp [faceEntries] at hPuts
  | cons next puts ih =>
      cases sames with
      | nil => simp [faceEntries] at hPuts
      | cons same sames =>
          rw [faceEntries, faceEntries, List.cons.injEq,
            Prod.mk.injEq] at hPuts
          rw [List.foldl_cons, List.foldl_cons]
          apply ih hPuts.2
          rw [show next = (same.1, next.2) from
            Prod.ext hPuts.1.1 rfl]
          exact put_congr hPuts.1.2 hEntries

end Plain

namespace Datum

/- Whether two values have plain forms that are equal, or none
   for the same reason. -/
def ArePlainAlike
    (faceOf : Nat → Face)
    (a b : Datum) :
    Prop :=
  a.plain.map (Plain.face faceOf) =
    b.plain.map (Plain.face faceOf)

variable {faceOf : Nat → Face}

theorem plainItems_congr
    {items others : List Datum}
    (hAlike : ∀ item ∈ items, ∀ other ∈ others,
      item.face = other.face →
      ArePlainAlike faceOf item other)
    (hFaces : faceItems items = faceItems others) :
    (plainItems items).map (Plain.faceItems faceOf) =
      (plainItems others).map (Plain.faceItems faceOf) := by
  induction items generalizing others with
  | nil =>
      cases others with
      | nil => rfl
      | cons other others => simp [faceItems] at hFaces
  | cons item items ih =>
      cases others with
      | nil => simp [faceItems] at hFaces
      | cons other others =>
          rw [faceItems, faceItems, List.cons.injEq] at hFaces
          rw [plainItems, plainItems]
          apply Outcome.map_bind_congr
          · exact hAlike item List.mem_cons_self other
              List.mem_cons_self hFaces.1
          · intro first same hFirst
            apply Outcome.map_bind_congr
            · apply ih ?_ hFaces.2
              intro next hNext last hLast
              exact hAlike next (List.mem_cons_of_mem _ hNext)
                last (List.mem_cons_of_mem _ hLast)
            · intro rest remaining hRest
              simp only [pure, Except.pure, Except.map,
                Plain.faceItems, hFirst, hRest]

theorem plainEntries_congr
    {entries others : List (String × Datum)}
    (hAlike : ∀ entry ∈ entries, ∀ other ∈ others,
      entry.2.face = other.2.face →
      ArePlainAlike faceOf entry.2 other.2)
    (hFaces : faceEntries entries = faceEntries others)
    (omitted : List String) :
    (plainEntries omitted entries).map
        (Plain.faceEntries faceOf) =
      (plainEntries omitted others).map
        (Plain.faceEntries faceOf) := by
  induction entries generalizing others with
  | nil =>
      cases others with
      | nil => rfl
      | cons other others => simp [faceEntries] at hFaces
  | cons entry entries ih =>
      cases others with
      | nil => simp [faceEntries] at hFaces
      | cons other others =>
          rw [faceEntries, faceEntries, List.cons.injEq,
            Prod.mk.injEq] at hFaces
          have hRest := ih
            (fun next hNext last hLast => hAlike next
              (List.mem_cons_of_mem _ hNext) last
              (List.mem_cons_of_mem _ hLast)) hFaces.2
          rw [plainEntries, plainEntries, hFaces.1.1]
          split
          · exact hRest
          · apply Outcome.map_bind_congr
            · exact hAlike entry List.mem_cons_self other
                List.mem_cons_self hFaces.1.2
            · intro first same hFirst
              apply Outcome.map_bind_congr hRest
              intro rest remaining hRest
              simp only [pure, Except.pure, Except.map,
                Plain.faceEntries, hFirst, hRest]

/- Values without parts are their own plain forms. -/
theorem arePlainAlike_of_face
    {a b : Datum}
    (hFace : a.face = b.face)
    (hLists : ∀ faces, a.face ≠ .list faces)
    (hObjects : ∀ name faces, a.face ≠ .object name faces) :
    ArePlainAlike faceOf a b := by
  rw [ArePlainAlike]
  cases a with
  | list items => simp [face] at hLists
  | object index decl outline entries => simp [face] at hObjects
  | _ =>
      cases b <;> simp_all [face, plain, Except.map, Plain.face]

/- Equal lists have plain forms alike if their items do. -/
theorem arePlainAlike_list
    {items others : List Datum}
    (hAlike : ∀ item ∈ items, ∀ other ∈ others,
      item.face = other.face →
      ArePlainAlike faceOf item other)
    (hFaces : faceItems items = faceItems others) :
    ArePlainAlike faceOf (.list items) (.list others) := by
  rw [ArePlainAlike, plain, plain]
  apply Outcome.map_bind_congr (plainItems_congr hAlike hFaces)
  intro plains sames hSame
  simp only [pure, Except.pure, Except.map, Plain.face, hSame]

/- Equal objects do if also their names and the fields left out
   are alike. -/
theorem arePlainAlike_object
    {i j : Nat}
    {declA declB : ClassDecl}
    {outlineA outlineB : Outline}
    {entries others : List (String × Datum)}
    (hName : outlineA.name.map (Plain.face faceOf) =
      outlineB.name.map (Plain.face faceOf))
    (hOmitted : outlineA.omitted = outlineB.omitted)
    (hFault : outlineA.fault = outlineB.fault)
    (hAlike : ∀ entry ∈ entries, ∀ other ∈ others,
      entry.2.face = other.2.face →
      ArePlainAlike faceOf entry.2 other.2)
    (hFaces : faceEntries entries = faceEntries others) :
    ArePlainAlike faceOf (.object i declA outlineA entries)
      (.object j declB outlineB others) := by
  rw [ArePlainAlike, plain, plain, hOmitted, Outline.check,
    Outline.check, hFault]
  apply Outcome.map_bind_congr hName
  intro name same hSame
  cases outlineB.omitted with
  | error fault => rfl
  | ok omitted =>
      cases outlineB.fault with
      | some fault => rfl
      | none =>
          apply Outcome.map_bind_congr
            (plainEntries_congr hAlike hFaces omitted)
          intro plains sames hPlains
          simp only [pure, Except.pure, Except.map, Plain.face]
          rw [Plain.foldl_put_congr hPlains]
          simp only [Plain.faceEntries, hSame]

end Datum

end WireSchema
