import Mathlib.Data.List.Induction
import Mathlib.Data.List.Perm.Subperm
import Mathlib.Logic.Relation
import WireSchema.Instance.Store
import WireSchema.Proofs.Outcome

/-
  Unfolding of values without cycles.

  Objects are unfolded in sweeps.  A sweep sees what it has
  unfolded itself of the objects before one, and what the sweep
  before has of the others.  So an object is settled after one
  more sweep than its references lead forward, from an object
  to itself or a later one.  Without a cycle they do so at most
  once for each object that refers forward, and these are
  counted.

  Main declarations:
    * `Store.Refers`
    * `Store.IsAcyclic`
    * `Store.getD_sweep`
    * `Store.settled_of_not_climbs`
    * `Store.length_le_of_climbs`
    * `Store.datum_eq`
-/

namespace WireSchema

------------------------------------------------------------
-- References of Values
------------------------------------------------------------

namespace Value

/- Induction over values, for the items of a list at once. -/
@[elab_as_elim]
theorem induct
    {P : Value → Prop}
    (null : P .null)
    (bool : ∀ value, P (.bool value))
    (int : ∀ value, P (.int value))
    (text : ∀ value, P (.text value))
    (bytes : ∀ value, P (.bytes value))
    (atom : ∀ value, P (.atom value))
    (list : ∀ items, (∀ item ∈ items, P item) →
      P (.list items))
    (object : ∀ index, P (.object index)) :
    ∀ value, P value := by
  refine @Value.rec P (fun items => ∀ item ∈ items, P item)
    null bool int text bytes atom list object ?_ ?_
  · simp
  · intro item items hItem hItems
    rw [List.forall_mem_cons]
    exact ⟨hItem, hItems⟩

mutual

/- The indices of the objects that a value refers to. -/
def indices :
    Value → List Nat
  | .list items => indicesOfItems items
  | .object index => [index]
  | _ => []

/- The indices of the objects that several values refer to. -/
def indicesOfItems :
    List Value → List Nat
  | [] => []
  | item :: items => indices item ++ indicesOfItems items

end

theorem indicesOfItems_eq
    (items : List Value) :
    indicesOfItems items = items.flatMap indices := by
  induction items with
  | nil => rfl
  | cons item items ih =>
      rw [indicesOfItems, ih, List.flatMap_cons]

theorem mem_indices_list_iff
    {items : List Value}
    {index : Nat} :
    index ∈ indices (.list items) ↔
      ∃ item ∈ items, index ∈ item.indices := by
  rw [indices, indicesOfItems_eq, List.mem_flatMap]

/- The parts of a value refer to nothing else. -/
theorem mem_indices_of_parts
    {value part : Value}
    {parts : List Value}
    {index : Nat}
    (hParts : value.parts = .ok parts)
    (hPart : part ∈ parts)
    (hIndex : index ∈ part.indices) :
    index ∈ value.indices := by
  cases value with
  | text value =>
      injection hParts with hParts
      rw [← hParts] at hPart
      rcases List.mem_map.mp hPart with ⟨c, -, hSame⟩
      rw [← hSame] at hIndex
      simp [indices] at hIndex
  | bytes value =>
      injection hParts with hParts
      rw [← hParts] at hPart
      rcases List.mem_map.mp hPart with ⟨b, -, hSame⟩
      rw [← hSame] at hIndex
      simp [indices] at hIndex
  | list items =>
      injection hParts with hParts
      rw [← hParts] at hPart
      exact mem_indices_list_iff.mpr ⟨part, hPart, hIndex⟩
  | null => cases hParts
  | bool value => cases hParts
  | int value => cases hParts
  | atom value => cases hParts
  | object other => cases hParts

theorem parts_of_unpack
    {value : Value}
    {expected : Nat}
    {parts : List Value}
    (hUnpack : value.unpack expected = .ok parts) :
    value.parts = .ok parts := by
  unfold unpack at hUnpack
  split at hUnpack
  · cases hUnpack
  · rename_i found hFound
    rw [hFound]
    split at hUnpack
    · cases hUnpack
    · split at hUnpack
      · cases hUnpack
      · exact hUnpack

end Value

namespace Store

theorem itemsReferFrom_eq
    (bound : Nat)
    (items : List Value) :
    itemsReferFrom bound items =
      items.any (refersFrom bound) := by
  induction items with
  | nil => rfl
  | cons item items ih =>
      rw [itemsReferFrom, ih, List.any_cons]

theorem refersFrom_iff
    {bound : Nat}
    {value : Value} :
    refersFrom bound value = true ↔
      ∃ index ∈ value.indices, bound ≤ index := by
  induction value using Value.induct with
  | null => simp [refersFrom, Value.indices]
  | bool value => simp [refersFrom, Value.indices]
  | int value => simp [refersFrom, Value.indices]
  | text value => simp [refersFrom, Value.indices]
  | bytes value => simp [refersFrom, Value.indices]
  | atom value => simp [refersFrom, Value.indices]
  | list items ih =>
      rw [refersFrom, itemsReferFrom_eq, List.any_eq_true]
      simp only [Value.mem_indices_list_iff]
      constructor
      · intro hRefers
        rcases hRefers with ⟨item, hItem, hRefers⟩
        rcases (ih item hItem).mp hRefers with
          ⟨index, hIndex, hBound⟩
        exact ⟨index, ⟨item, hItem, hIndex⟩, hBound⟩
      · intro hRefers
        rcases hRefers with
          ⟨index, ⟨item, hItem, hIndex⟩, hBound⟩
        exact ⟨item, hItem,
          (ih item hItem).mpr ⟨index, hIndex, hBound⟩⟩
  | object index => simp [refersFrom, Value.indices]

------------------------------------------------------------
-- What Unfolding Depends On
------------------------------------------------------------

variable {f g : Nat → Datum}

theorem unfoldItems_eq
    (f : Nat → Datum)
    (items : List Value) :
    unfoldItems f items = items.map (unfoldWith f) := by
  induction items with
  | nil => rfl
  | cons item items ih =>
      rw [unfoldItems, ih, List.map_cons]

theorem unfoldWith_congr
    {value : Value}
    (hSame : ∀ index ∈ value.indices, f index = g index) :
    unfoldWith f value = unfoldWith g value := by
  induction value using Value.induct with
  | null => rfl
  | bool value => rfl
  | int value => rfl
  | text value => rfl
  | bytes value => rfl
  | atom value => rfl
  | list items ih =>
      rw [unfoldWith, unfoldWith, unfoldItems_eq,
        unfoldItems_eq]
      congr 1
      apply List.map_congr_left
      intro item hItem
      apply ih item hItem
      intro index hIndex
      exact hSame index
        (Value.mem_indices_list_iff.mpr ⟨item, hItem, hIndex⟩)
  | object index =>
      exact hSame index (List.mem_singleton_self index)

theorem typeRow_congr
    {row : Value}
    (hSame : ∀ index ∈ row.indices, f index = g index) :
    typeRow f row = typeRow g row := by
  unfold typeRow
  split
  · rfl
  · rename_i name other rawType hUnpack
    rw [unfoldWith_congr fun index hIndex => hSame index
      (Value.mem_indices_of_parts
        (Value.parts_of_unpack hUnpack)
        List.mem_cons_self hIndex)]
  · rfl

end Store

namespace Instance

/- The indices of the objects that the attributes of an
   instance refer to. -/
def indices
    (object : Instance) :
    List Nat :=
  object.attributes.flatMap fun held => held.2.indices

theorem mem_indices_of_get?
    {object : Instance}
    {name : String}
    {value : Value}
    {index : Nat}
    (hValue : object.get? name = some value)
    (hIndex : index ∈ value.indices) :
    index ∈ object.indices := by
  rcases List.lookup_eq_some_iff.mp hValue with
    ⟨before, after, hSplit, -⟩
  apply List.mem_flatMap.mpr
  refine ⟨(name, value), ?_, hIndex⟩
  rw [hSplit]
  exact List.mem_append_right before List.mem_cons_self

theorem mem_indices_of_values
    {object : Instance}
    {values : List (String × Value)}
    {entry : String × Value}
    {index : Nat}
    (hValues : object.values = .ok values)
    (hEntry : entry ∈ values)
    (hIndex : index ∈ entry.2.indices) :
    index ∈ object.indices := by
  unfold Instance.values at hValues
  split at hValues
  · cases hValues
  · rcases Paired.exists_left
      (Outcome.mapM_eq_ok_iff.mp hValues) hEntry with
      ⟨field, -, hField⟩
    rcases Outcome.map_eq_ok_iff.mp hField with
      ⟨value, hValue, hSame⟩
    rw [← hSame] at hIndex
    unfold valueOf at hValue
    split at hValue
    · rcases Outcome.map_eq_ok_iff.mp hValue with
        ⟨mask, -, hMask⟩
      rw [← hMask] at hIndex
      simp [Value.indices] at hIndex
    · split at hValue
      · rename_i held hHeld
        injection hValue with hValue
        rw [← hValue] at hIndex
        exact mem_indices_of_get? hHeld hIndex
      · cases hValue

end Instance

namespace Store

variable {f g : Nat → Datum}

theorem omitted_congr
    {object : Instance}
    (hSame : ∀ index ∈ object.indices, f index = g index) :
    omitted f object = omitted g object := by
  unfold omitted
  split
  · rfl
  · rename_i table hTable
    split
    · rfl
    · rename_i rows hRows
      rw [Outcome.mapM_congr]
      intro row hRow
      apply typeRow_congr
      intro index hIndex
      apply hSame
      exact Instance.mem_indices_of_get? hTable
        (Value.mem_indices_of_parts hRows hRow hIndex)

/- An object unfolds by what its attributes refer to. -/
theorem unfoldInstance_congr
    {object : Instance}
    (hSame : ∀ index ∈ object.indices, f index = g index)
    (index : Nat) :
    unfoldInstance f index object =
      unfoldInstance g index object := by
  unfold unfoldInstance
  rw [omitted_congr hSame]
  cases hValues : object.values with
  | error fault => rfl
  | ok values =>
      simp only
      congr 1
      apply List.map_congr_left
      intro entry hEntry
      rw [unfoldWith_congr fun index hIndex => hSame index
        (Instance.mem_indices_of_values hValues hEntry hIndex)]

/- An entry of the store, unfolded. -/
def unfoldEntry
    (unfoldObject : Nat → Datum)
    (index : Nat) :
    Option Instance → Datum
  | some object => unfoldInstance unfoldObject index object
  | none => .null

theorem unfoldEntry_congr
    {entry : Option Instance}
    (hSame : ∀ object, entry = some object →
      ∀ index ∈ object.indices, f index = g index)
    (index : Nat) :
    unfoldEntry f index entry = unfoldEntry g index entry := by
  cases entry with
  | none => rfl
  | some object =>
      exact unfoldInstance_congr (hSame object rfl) index

------------------------------------------------------------
-- Sweeps
------------------------------------------------------------

/- What a sweep sees at an object: what it has unfolded of those
   before, and what was unfolded before of the others. -/
def seenAt
    (before done : Array Datum)
    (bound index : Nat) :
    Datum :=
  if index < bound then
    done.getD index .null
  else
    before.getD index .null

/- A sweep over part of the entries. -/
def sweepOver
    (before : Array Datum)
    (entries : List (Option Instance)) :
    Array Datum :=
  entries.foldl
    (fun done entry => done.push
      (unfoldEntry (fun index =>
        done.getD index (before.getD index .null))
        done.size entry))
    #[]

theorem sweep_eq
    (store : Store)
    (before : Array Datum) :
    store.sweep before = sweepOver before store.objects := by
  unfold sweep sweepOver
  congr 1

theorem sweepOver_concat
    (before : Array Datum)
    (entries : List (Option Instance))
    (entry : Option Instance) :
    sweepOver before (entries ++ [entry]) =
      (sweepOver before entries).push
        (unfoldEntry (fun index =>
          (sweepOver before entries).getD index
            (before.getD index .null))
          (sweepOver before entries).size entry) := by
  rw [sweepOver, List.foldl_append]
  rfl

theorem size_sweepOver
    (before : Array Datum)
    (entries : List (Option Instance)) :
    (sweepOver before entries).size = entries.length := by
  induction entries using List.reverseRecOn with
  | nil => rfl
  | append_singleton entries entry ih =>
      rw [sweepOver_concat, Array.size_push, ih,
        List.length_append]
      rfl

theorem getD_push_of_lt
    {done : Array Datum}
    {index : Nat}
    (hIndex : index < done.size)
    (datum default : Datum) :
    (done.push datum).getD index default =
      done.getD index default := by
  have hApart : index ≠ done.size := Nat.ne_of_lt hIndex
  rw [Array.getD_eq_getD_getElem?, Array.getElem?_push,
    if_neg hApart, Array.getD_eq_getD_getElem?]

theorem getD_push_size
    (done : Array Datum)
    (datum default : Datum) :
    (done.push datum).getD done.size default = datum := by
  rw [Array.getD_eq_getD_getElem?, Array.getElem?_push,
    if_pos rfl]
  rfl

theorem getD_of_size_le
    {done : Array Datum}
    {index : Nat}
    (hIndex : done.size ≤ index)
    (default : Datum) :
    done.getD index default = default := by
  rw [Array.getD_eq_getD_getElem?,
    Array.getElem?_eq_none hIndex]
  rfl

theorem getD_of_lt
    {done : Array Datum}
    {index : Nat}
    (hIndex : index < done.size)
    (default other : Datum) :
    done.getD index default = done.getD index other := by
  rw [Array.getD_eq_getD_getElem?,
    Array.getD_eq_getD_getElem?,
    Array.getElem?_eq_getElem hIndex]
  rfl

/- Each entry of a sweep is unfolded by what is seen there. -/
theorem getD_sweepOver
    (before : Array Datum)
    {entries : List (Option Instance)}
    {index : Nat}
    {entry : Option Instance}
    (hEntry : entries[index]? = some entry) :
    (sweepOver before entries).getD index .null =
      unfoldEntry
        (seenAt before (sweepOver before entries) index)
        index entry := by
  induction entries using List.reverseRecOn with
  | nil => simp at hEntry
  | append_singleton entries last ih =>
      have hSize := size_sweepOver before entries
      rw [sweepOver_concat]
      by_cases hInside : index < entries.length
      · rw [List.getElem?_append_left hInside] at hEntry
        rw [getD_push_of_lt (hSize ▸ hInside), ih hEntry]
        congr 1
        funext other
        unfold seenAt
        by_cases hOther : other < index
        · rw [if_pos hOther, if_pos hOther, getD_push_of_lt]
          omega
        · rw [if_neg hOther, if_neg hOther]
      · have hLast : index = entries.length := by
          have hBound := List.getElem?_eq_some_iff.mp hEntry
          rcases hBound with ⟨hBound, -⟩
          rw [List.length_append, List.length_singleton]
            at hBound
          omega
        have hSame : entry = last := by
          rw [hLast, List.getElem?_concat_length] at hEntry
          exact (Option.some.inj hEntry).symm
        rw [hSame, hLast, ← hSize, getD_push_size]
        congr 1
        funext other
        unfold seenAt
        by_cases hOther : other < (sweepOver before entries).size
        · rw [if_pos hOther, getD_push_of_lt hOther]
          exact getD_of_lt hOther _ _
        · rw [if_neg hOther]
          exact getD_of_size_le (Nat.le_of_not_lt hOther) _

theorem getD_sweep
    (store : Store)
    (before : Array Datum)
    (index : Nat) :
    (store.sweep before).getD index .null =
      unfoldEntry (seenAt before (store.sweep before) index)
        index (store.get? index) := by
  rw [sweep_eq]
  unfold get?
  cases hEntry : store.objects[index]? with
  | none =>
      apply getD_of_size_le
      rw [size_sweepOver]
      exact List.getElem?_eq_none_iff.mp hEntry
  | some entry => exact getD_sweepOver before hEntry

------------------------------------------------------------
-- Settled Objects
------------------------------------------------------------

/- Whether an object has another among its attributes. -/
def Refers
    (store : Store)
    (index other : Nat) :
    Prop :=
  ∃ object, store.get? index = some object ∧
    other ∈ object.indices

/- Whether references lead from an object at least `n` times to
   the same or a later one. -/
inductive Climbs
    (store : Store) :
    Nat → Nat → Prop where
  | start
      (index : Nat) :
      Climbs store 0 index
  | back
      {n index other : Nat}
      (hRefers : store.Refers index other)
      (hClimbs : Climbs store n other) :
      Climbs store n index
  | forward
      {n index other : Nat}
      (hRefers : store.Refers index other)
      (hForward : index ≤ other)
      (hClimbs : Climbs store n other) :
      Climbs store (n + 1) index

/- Whether one more sweep unfolds an object in the same way. -/
def IsSettled
    (store : Store)
    (n index : Nat) :
    Prop :=
  (store.sweeps n).getD index .null =
    (store.sweeps (n + 1)).getD index .null

/- Two sweeps agree on the objects that climb less than `n`
   times, if what was unfolded before agrees where these refer
   forward. -/
theorem getD_sweep_congr
    {store : Store}
    {before after : Array Datum}
    {n : Nat}
    (hForward : ∀ index other, ¬ store.Climbs n index →
      store.Refers index other → index ≤ other →
      before.getD other .null = after.getD other .null)
    {index : Nat}
    (hClimbs : ¬ store.Climbs n index) :
    (store.sweep before).getD index .null =
      (store.sweep after).getD index .null := by
  induction index using Nat.strongRecOn with
  | ind index ih =>
      rw [getD_sweep, getD_sweep]
      apply unfoldEntry_congr
      intro object hObject other hOther
      have hRefers : store.Refers index other :=
        ⟨object, hObject, hOther⟩
      unfold seenAt
      by_cases hBefore : other < index
      · rw [if_pos hBefore, if_pos hBefore]
        apply ih other hBefore
        intro hOther
        exact hClimbs (.back hRefers hOther)
      · rw [if_neg hBefore, if_neg hBefore]
        exact hForward index other hClimbs hRefers
          (Nat.le_of_not_lt hBefore)

/- An object is settled after as many sweeps as its references
   lead forward, and one more. -/
theorem settled_of_not_climbs
    {store : Store}
    {n index : Nat}
    (hClimbs : ¬ store.Climbs (n + 1) index) :
    store.IsSettled n index := by
  induction n generalizing index with
  | zero =>
      apply getD_sweep_congr ?_ hClimbs
      intro index other hFree hRefers hForward
      exact absurd (.forward hRefers hForward (.start other))
        hFree
  | succ n ih =>
      apply getD_sweep_congr ?_ hClimbs
      intro index other hFree hRefers hForward
      apply ih
      intro hOther
      exact hFree (.forward hRefers hForward hOther)

------------------------------------------------------------
-- Objects That Refer Forward
------------------------------------------------------------

/- Whether an object refers to itself or a later one. -/
def IsForward
    (store : Store)
    (index : Nat) :
    Prop :=
  ∃ other, store.Refers index other ∧ index ≤ other

/- The objects that refer forward, counted from an index on. -/
def forwardFrom :
    Nat → List (Option Instance) → List Nat
  | _, [] => []
  | index, entry :: entries =>
      let isForward :=
        (entry.map fun object =>
          object.attributes.any fun held =>
            refersFrom index held.2).getD false
      if isForward then
        index :: forwardFrom (index + 1) entries
      else
        forwardFrom (index + 1) entries

theorem length_forwardFrom
    (index : Nat)
    (entries : List (Option Instance)) :
    (forwardFrom index entries).length =
      countForward index entries := by
  induction entries generalizing index with
  | nil => rfl
  | cons entry entries ih =>
      rw [forwardFrom, countForward]
      split
      · rw [List.length_cons, ih]
      · rw [ih]
        rfl

theorem any_refersFrom_iff
    {object : Instance}
    {bound : Nat} :
    (object.attributes.any fun held =>
        refersFrom bound held.2) = true ↔
      ∃ index ∈ object.indices, bound ≤ index := by
  simp only [List.any_eq_true, refersFrom_iff,
    Instance.indices, List.mem_flatMap]
  constructor
  · intro hRefers
    rcases hRefers with ⟨held, hHeld, index, hIndex, hBound⟩
    exact ⟨index, ⟨held, hHeld, hIndex⟩, hBound⟩
  · intro hRefers
    rcases hRefers with ⟨index, ⟨held, hHeld, hIndex⟩, hBound⟩
    exact ⟨held, hHeld, index, hIndex, hBound⟩

theorem mem_forwardFrom
    {entries : List (Option Instance)}
    {start offset : Nat}
    {object : Instance}
    (hEntry : entries[offset]? = some (some object))
    (hForward : ∃ index ∈ object.indices,
      start + offset ≤ index) :
    start + offset ∈ forwardFrom start entries := by
  induction entries generalizing start offset with
  | nil => simp at hEntry
  | cons entry entries ih =>
      rw [forwardFrom]
      cases offset with
      | zero =>
          rw [List.getElem?_cons_zero] at hEntry
          injection hEntry with hEntry
          have hTest := any_refersFrom_iff.mpr hForward
          rw [Nat.add_zero] at hTest
          simp [hEntry, hTest]
      | succ offset =>
          rw [List.getElem?_cons_succ] at hEntry
          have hShift : start + (offset + 1) =
              start + 1 + offset := by
            omega
          rw [hShift] at hForward ⊢
          have hMem := ih hEntry hForward
          split
          · exact List.mem_cons_of_mem start hMem
          · exact hMem

theorem IsForward.mem
    {store : Store}
    {index : Nat}
    (hForward : store.IsForward index) :
    index ∈ forwardFrom 0 store.objects := by
  rcases hForward with ⟨other, ⟨object, hObject, hOther⟩, hLe⟩
  have hEntry : store.objects[index]? = some (some object) := by
    unfold get? at hObject
    exact Option.join_eq_some_iff.mp hObject
  have hMem : 0 + index ∈ forwardFrom 0 store.objects :=
    mem_forwardFrom hEntry ⟨other, hOther, by omega⟩
  rwa [Nat.zero_add] at hMem

------------------------------------------------------------
-- Values without Cycles
------------------------------------------------------------

/- Whether no object that is reached from an index reaches
   itself again. -/
def IsAcyclicAt
    (store : Store)
    (index : Nat) :
    Prop :=
  ∀ other, Relation.ReflTransGen store.Refers index other →
    ¬ Relation.TransGen store.Refers other other

/- Whether no object that is reached from a value reaches itself
   again. -/
def IsAcyclic
    (store : Store)
    (value : Value) :
    Prop :=
  ∀ index ∈ value.indices, store.IsAcyclicAt index

theorem IsAcyclicAt.of_refers
    {store : Store}
    {index other : Nat}
    (hAcyclic : store.IsAcyclicAt index)
    (hRefers : store.Refers index other) :
    store.IsAcyclicAt other := by
  intro last hReach
  exact hAcyclic last (hReach.head hRefers)

/- The objects by which references lead forward are different
   ones if there is no cycle. -/
theorem exists_forward_of_climbs
    {store : Store}
    {n index : Nat}
    (hAcyclic : store.IsAcyclicAt index)
    (hClimbs : store.Climbs n index) :
    ∃ sources : List Nat, sources.length = n ∧
      sources.Nodup ∧
      ∀ source ∈ sources, store.IsForward source ∧
        Relation.ReflTransGen store.Refers index source := by
  induction hClimbs with
  | start index => exact ⟨[], rfl, List.nodup_nil, by simp⟩
  | back hRefers hOther ih =>
      rcases ih (hAcyclic.of_refers hRefers) with
        ⟨sources, hLength, hNodup, hSources⟩
      refine ⟨sources, hLength, hNodup, ?_⟩
      intro source hSource
      rcases hSources source hSource with ⟨hForward, hReach⟩
      exact ⟨hForward, hReach.head hRefers⟩
  | forward hRefers hForward hOther ih =>
      rename_i n index other
      rcases ih (hAcyclic.of_refers hRefers) with
        ⟨sources, hLength, hNodup, hSources⟩
      have hNew : index ∉ sources := by
        intro hMem
        exact hAcyclic index .refl
          (.head' hRefers (hSources index hMem).2)
      refine ⟨index :: sources, by rw [List.length_cons, hLength],
        List.nodup_cons.mpr ⟨hNew, hNodup⟩, ?_⟩
      rw [List.forall_mem_cons]
      refine ⟨⟨⟨other, hRefers, hForward⟩, .refl⟩, ?_⟩
      intro source hSource
      rcases hSources source hSource with ⟨hFound, hReach⟩
      exact ⟨hFound, hReach.head hRefers⟩

theorem length_le_of_climbs
    {store : Store}
    {n index : Nat}
    (hAcyclic : store.IsAcyclicAt index)
    (hClimbs : store.Climbs n index) :
    n ≤ countForward 0 store.objects := by
  rcases exists_forward_of_climbs hAcyclic hClimbs with
    ⟨sources, hLength, hNodup, hSources⟩
  have hSubset : sources ⊆ forwardFrom 0 store.objects := by
    intro source hSource
    exact (hSources source hSource).1.mem
  rw [← hLength, ← length_forwardFrom]
  exact (hNodup.subperm hSubset).length_le

/- What an object unfolds to. -/
def datum
    (store : Store)
    (index : Nat) :
    Datum :=
  store.unfoldObjects.getD index .null

/- An object without cycles unfolds by what the objects in it
   unfold to. -/
theorem datum_eq
    {store : Store}
    {index : Nat}
    (hAcyclic : store.IsAcyclicAt index) :
    store.datum index =
      unfoldEntry store.datum index (store.get? index) := by
  have hSettled : ∀ other, store.IsAcyclicAt other →
      store.IsSettled (countForward 0 store.objects) other := by
    intro other hOther
    apply settled_of_not_climbs
    intro hClimbs
    have hBound := length_le_of_climbs hOther hClimbs
    omega
  rw [datum, unfoldObjects, hSettled index hAcyclic, sweeps,
    getD_sweep]
  apply unfoldEntry_congr
  intro object hObject other hOther
  have hSame := hSettled other
    (hAcyclic.of_refers ⟨object, hObject, hOther⟩)
  unfold seenAt
  split
  · exact hSame.symm
  · rfl

theorem unfold_eq
    (store : Store)
    (value : Value) :
    store.unfold value = unfoldWith store.datum value :=
  rfl

theorem unfoldAll_eq
    (store : Store)
    (values : List Value) :
    store.unfoldAll values = values.map store.unfold :=
  unfoldItems_eq store.datum values

/- A store without forward references has no cycles. -/
theorem isAcyclic_of_countForward
    {store : Store}
    (hNone : countForward 0 store.objects = 0)
    (value : Value) :
    store.IsAcyclic value := by
  have hBack : ∀ index other, store.Refers index other →
      other < index := by
    intro index other hRefers
    by_contra hForward
    have hMem := IsForward.mem
      ⟨other, hRefers, Nat.le_of_not_lt hForward⟩
    rw [← length_forwardFrom, List.length_eq_zero_iff] at hNone
    rw [hNone] at hMem
    cases hMem
  have hLess : ∀ index other,
      Relation.TransGen store.Refers index other →
      other < index := by
    intro index other hReach
    induction hReach with
    | single hRefers => exact hBack _ _ hRefers
    | tail _ hRefers ih =>
        exact Nat.lt_trans (hBack _ _ hRefers) ih
  intro index _ other _ hCycle
  exact Nat.lt_irrefl other (hLess other other hCycle)

end Store

end WireSchema
