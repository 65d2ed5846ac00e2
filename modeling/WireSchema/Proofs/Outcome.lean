import Mathlib.Data.List.Forall2
import Mathlib.Data.List.Perm.Basic

/-
  Computations that end in a value or a fault.

  Every pass over a schema is such a computation.  The lemmas
  say when a composed one succeeds, in terms of its parts.

  Main declarations:
    * `Outcome.bind_eq_ok_iff`
    * `Outcome.bind_eq_error_iff`
    * `Outcome.bimap`
    * `Outcome.mapM_eq_ok_iff`
    * `Outcome.exists_mapM_eq_ok_iff`
    * `Outcome.mapM_eq_some_iff`
    * `Outcome.exists_of_passes`
    * `Paired.map_eq_map`
-/

namespace WireSchema

namespace Outcome

variable {α β ε δ : Type}

------------------------------------------------------------
-- Composition
------------------------------------------------------------

theorem bind_eq_ok_iff
    {first : Except ε α}
    {next : α → Except ε β}
    {result : β} :
    (first >>= next) = .ok result ↔
      ∃ value, first = .ok value ∧
        next value = .ok result := by
  cases first with
  | error fault =>
      constructor
      · intro hBind
        cases hBind
      · rintro ⟨value, hFirst, -⟩
        cases hFirst
  | ok value =>
      constructor
      · intro hBind
        exact ⟨value, rfl, hBind⟩
      · rintro ⟨other, hFirst, hNext⟩
        cases hFirst
        exact hNext

theorem exists_bind_eq_ok
    {first : Except ε α}
    {next : α → Except ε β}
    (hFirst : ∃ value, first = .ok value)
    (hNext : ∀ value, ∃ result, next value = .ok result) :
    ∃ result, (first >>= next) = .ok result := by
  rcases hFirst with ⟨value, hValue⟩
  rcases hNext value with ⟨result, hResult⟩
  exact ⟨result, bind_eq_ok_iff.mpr ⟨value, hValue, hResult⟩⟩

/- The first fault is the fault of the whole. -/
theorem bind_eq_error_iff
    {first : Except ε α}
    {next : α → Except ε β}
    {fault : ε} :
    (first >>= next) = .error fault ↔
      first = .error fault ∨
        ∃ value, first = .ok value ∧
          next value = .error fault := by
  cases first with
  | error other =>
      constructor
      · intro hBind
        cases hBind
        exact .inl rfl
      · rintro (hFirst | ⟨value, hFirst, -⟩)
        · cases hFirst
          rfl
        · cases hFirst
  | ok value =>
      constructor
      · intro hBind
        exact .inr ⟨value, rfl, hBind⟩
      · rintro (hFirst | ⟨other, hFirst, hNext⟩)
        · cases hFirst
        · cases hFirst
          exact hNext

theorem map_eq_ok_iff
    {outcome : Except ε α}
    {f : α → β}
    {result : β} :
    outcome.map f = .ok result ↔
      ∃ value, outcome = .ok value ∧ f value = result := by
  cases outcome with
  | error fault =>
      constructor
      · intro hMap
        cases hMap
      · rintro ⟨value, hValue, -⟩
        cases hValue
  | ok value =>
      constructor
      · intro hMap
        cases hMap
        exact ⟨value, rfl, rfl⟩
      · rintro ⟨other, hValue, hResult⟩
        cases hValue
        rw [← hResult]
        rfl

/- A computation that succeeds under a condition, with a value
   that is known then. -/
theorem map_eq_ok_iff_and
    {outcome : Except ε α}
    {P : Prop}
    {value : α}
    (hOutcome : ∀ other,
      outcome = .ok other ↔ P ∧ other = value)
    {f : α → β}
    {result : β} :
    outcome.map f = .ok result ↔ P ∧ result = f value := by
  rw [map_eq_ok_iff]
  simp only [hOutcome]
  constructor
  · rintro ⟨other, ⟨hHolds, rfl⟩, rfl⟩
    exact ⟨hHolds, rfl⟩
  · rintro ⟨hHolds, rfl⟩
    exact ⟨value, ⟨hHolds, rfl⟩, rfl⟩

theorem exists_map_eq_ok
    {outcome : Except ε α}
    (f : α → β)
    (hValue : ∃ value, outcome = .ok value) :
    ∃ result, outcome.map f = .ok result := by
  rcases hValue with ⟨value, hValue⟩
  exact ⟨f value, map_eq_ok_iff.mpr ⟨value, hValue, rfl⟩⟩

theorem map_eq_error_iff
    {outcome : Except ε α}
    {f : α → β}
    {fault : ε} :
    outcome.map f = .error fault ↔
      outcome = .error fault := by
  cases outcome with
  | error other => simp only [Except.map, Except.error.injEq]
  | ok value => simp only [Except.map, reduceCtorEq]

theorem mapError_eq_ok_iff
    {outcome : Except ε α}
    {f : ε → δ}
    {result : α} :
    outcome.mapError f = .ok result ↔
      outcome = .ok result := by
  cases outcome with
  | error fault => simp only [Except.mapError, reduceCtorEq]
  | ok value => simp only [Except.mapError, Except.ok.injEq]

theorem mapError_eq_error_iff
    {outcome : Except ε α}
    {f : ε → δ}
    {fault : δ} :
    outcome.mapError f = .error fault ↔
      ∃ inner, outcome = .error inner ∧
        f inner = fault := by
  cases outcome with
  | error inner =>
      constructor
      · intro hMap
        cases hMap
        exact ⟨inner, rfl, rfl⟩
      · rintro ⟨other, hInner, hFault⟩
        cases hInner
        rw [← hFault]
        rfl
  | ok value =>
      constructor
      · intro hMap
        cases hMap
      · rintro ⟨inner, hInner, -⟩
        cases hInner

/- Computations that agree go on to agree, if what follows them
   does not tell their values apart. -/
theorem map_bind_congr
    {γ : Type}
    {first other : Except ε α}
    {next last : α → Except ε β}
    {f : α → γ}
    {g : β → δ}
    (hFirst : first.map f = other.map f)
    (hNext : ∀ value same, f value = f same →
      (next value).map g = (last same).map g) :
    (first >>= next).map g = (other >>= last).map g := by
  cases first with
  | error fault =>
      rw [map_eq_error_iff.mp hFirst.symm]
      rfl
  | ok value =>
      rcases map_eq_ok_iff.mp hFirst.symm with
        ⟨same, hSame, hValue⟩
      rw [hSame]
      exact hNext value same hValue.symm

theorem map_congr_of_map
    {γ : Type}
    {outcome other : Except ε α}
    {f : α → γ}
    {g : α → β}
    (hOutcome : outcome.map f = other.map f)
    (hSame : ∀ value same, f value = f same →
      g value = g same) :
    outcome.map g = other.map g := by
  cases outcome with
  | error fault =>
      rw [map_eq_error_iff.mp hOutcome.symm]
  | ok value =>
      rcases map_eq_ok_iff.mp hOutcome.symm with
        ⟨same, hOther, hValue⟩
      rw [hOther, Except.map, Except.map,
        hSame value same hValue.symm]

/- A computation with its value and its fault both
   replaced. -/
def bimap
    (f : α → β)
    (g : ε → δ) :
    Except ε α → Except δ β
  | .ok value => .ok (f value)
  | .error fault => .error (g fault)

theorem bimap_eq_ok_iff
    {outcome : Except ε α}
    {f : α → β}
    {g : ε → δ}
    {result : β} :
    bimap f g outcome = .ok result ↔
      ∃ value, outcome = .ok value ∧ f value = result := by
  cases outcome with
  | error fault => simp [bimap]
  | ok value => simp [bimap]

------------------------------------------------------------
-- Traversals
------------------------------------------------------------

/- A traversal succeeds when each of its steps does, and gives
   the results of the steps in order. -/
theorem mapM_eq_ok_iff
    {f : α → Except ε β}
    {items : List α}
    {results : List β} :
    items.mapM f = .ok results ↔
      List.Forall₂ (fun item result => f item = .ok result)
        items results := by
  induction items generalizing results with
  | nil =>
      rw [List.forall₂_nil_left_iff, List.mapM_nil]
      constructor
      · intro hNil
        cases hNil
        rfl
      · intro hNil
        rw [hNil]
        rfl
  | cons item items ih =>
      rw [List.forall₂_cons_left_iff, List.mapM_cons,
        bind_eq_ok_iff]
      simp only [bind_eq_ok_iff, ih]
      constructor
      · rintro ⟨first, hFirst, rest, hRest, hResults⟩
        cases hResults
        exact ⟨first, rest, hFirst, hRest, rfl⟩
      · rintro ⟨first, rest, hFirst, hRest, hResults⟩
        rw [hResults]
        exact ⟨first, hFirst, rest, hRest, rfl⟩

theorem exists_mapM_eq_ok_iff
    {f : α → Except ε β}
    {items : List α} :
    (∃ results, items.mapM f = .ok results) ↔
      ∀ item ∈ items, ∃ result, f item = .ok result := by
  simp only [mapM_eq_ok_iff]
  induction items with
  | nil =>
      refine ⟨?_, fun _ => ⟨[], .nil⟩⟩
      intro _ item hMem
      cases hMem
  | cons item items ih =>
      rw [List.forall_mem_cons, ← ih]
      constructor
      · rintro ⟨results, hResults⟩
        rcases List.forall₂_cons_left_iff.mp hResults with
          ⟨first, rest, hFirst, hRest, -⟩
        exact ⟨⟨first, hFirst⟩, ⟨rest, hRest⟩⟩
      · rintro ⟨⟨first, hFirst⟩, ⟨rest, hRest⟩⟩
        exact ⟨first :: rest, .cons hFirst hRest⟩

theorem mapM_congr
    {f g : α → Except ε β}
    {items : List α}
    (hSame : ∀ item ∈ items, f item = g item) :
    items.mapM f = items.mapM g := by
  induction items with
  | nil => rfl
  | cons item items ih =>
      rw [List.forall_mem_cons] at hSame
      rw [List.mapM_cons, List.mapM_cons, hSame.1,
        ih hSame.2]

/- Two traversals agree if their steps do. -/
theorem map_mapM_congr
    {γ : Type}
    {f : α → Except ε β}
    {p : α → γ}
    {g : β → δ}
    {items others : List α}
    (hItems : items.map p = others.map p)
    (hStep : ∀ item ∈ items, ∀ other ∈ others,
      p item = p other →
      (f item).map g = (f other).map g) :
    (items.mapM f).map (List.map g) =
      (others.mapM f).map (List.map g) := by
  induction items generalizing others with
  | nil =>
      rw [List.map_nil, eq_comm, List.map_eq_nil_iff] at hItems
      rw [hItems]
  | cons item items ih =>
      cases others with
      | nil => simp at hItems
      | cons other others =>
          rw [List.map_cons, List.map_cons, List.cons.injEq]
            at hItems
          rw [List.mapM_cons, List.mapM_cons]
          apply map_bind_congr
          · exact hStep item List.mem_cons_self other
              List.mem_cons_self hItems.1
          · intro first same hFirst
            apply map_bind_congr
            · apply ih hItems.2
              intro next hNext last hLast
              exact hStep next (List.mem_cons_of_mem _ hNext)
                last (List.mem_cons_of_mem _ hLast)
            · intro rest remaining hRest
              simp only [pure, Except.pure, Except.map,
                List.map_cons, hFirst, hRest]

/- The steps of two traversals whose results agree do so one by
   one. -/
theorem exists_steps_of_mapM
    {f g : α → Except ε β}
    {p : β → δ}
    {items : List α}
    {results others : List β}
    (hResults : items.mapM f = .ok results)
    (hOthers : items.mapM g = .ok others)
    (hSame : results.map p = others.map p)
    {item : α}
    (hItem : item ∈ items) :
    ∃ result other, f item = .ok result ∧
      g item = .ok other ∧ p result = p other := by
  rw [mapM_eq_ok_iff] at hResults hOthers
  induction hResults generalizing others with
  | nil => cases hItem
  | cons hFirst hRest ih =>
      rcases List.forall₂_cons_left_iff.mp hOthers with
        ⟨other, remaining, hOther, hRemaining, rfl⟩
      rw [List.map_cons, List.map_cons, List.cons.injEq] at hSame
      rcases List.mem_cons.mp hItem with hEq | hIn
      · rw [hEq]
        exact ⟨_, other, hFirst, hOther, hSame.1⟩
      · exact ih hRemaining hSame.2 hIn

/- A traversal in another order succeeds too, with the results
   in that order. -/
theorem exists_mapM_of_perm
    {f : α → Except ε β}
    {items others : List α}
    {results : List β}
    (hPerm : items.Perm others)
    (hResults : items.mapM f = .ok results) :
    ∃ same, others.mapM f = .ok same ∧
      results.Perm same := by
  rcases List.perm_comp_forall₂ hPerm.symm
    (mapM_eq_ok_iff.mp hResults) with ⟨same, hSame, hMoved⟩
  exact ⟨same, mapM_eq_ok_iff.mpr hSame, hMoved.symm⟩

/- A traversal whose steps succeed under a condition, with a
   result that is known then. -/
theorem mapM_eq_ok_iff_and
    {f : α → Except ε β}
    {P : α → Prop}
    {g : α → β}
    (hStep : ∀ item result,
      f item = .ok result ↔ P item ∧ result = g item)
    {items : List α}
    {results : List β} :
    items.mapM f = .ok results ↔
      (∀ item ∈ items, P item) ∧ results = items.map g := by
  rw [mapM_eq_ok_iff]
  simp only [hStep]
  rw [List.forall₂_and_left, eq_comm,
    ← List.forall₂_eq_eq_eq, List.forall₂_map_left_iff]
  simp only [eq_comm]

------------------------------------------------------------
-- Optional Values
------------------------------------------------------------

theorem mapM_eq_some_iff
    {f : α → Option β}
    {xs : List α}
    {ys : List β} :
    xs.mapM f = some ys ↔
      List.Forall₂ (fun x y => f x = some y) xs ys := by
  induction xs generalizing ys with
  | nil =>
      rw [List.forall₂_nil_left_iff, List.mapM_nil]
      exact ⟨fun hSome => (Option.some.inj hSome).symm,
        fun hNil => by rw [hNil]; rfl⟩
  | cons x xs ih =>
      rw [List.forall₂_cons_left_iff, List.mapM_cons]
      simp only [Option.bind_eq_bind, Option.bind_eq_some_iff,
        Option.pure_def, Option.some.injEq, ih]
      constructor
      · rintro ⟨y, hY, ys, hYs, rfl⟩
        exact ⟨y, ys, hY, hYs, rfl⟩
      · rintro ⟨y, ys, hY, hYs, rfl⟩
        exact ⟨y, hY, ys, hYs, rfl⟩

theorem exists_mapM_of_isSome
    {f : α → Option β}
    {xs : List α}
    (hAll : ∀ x ∈ xs, (f x).isSome = true) :
    ∃ ys, xs.mapM f = some ys := by
  induction xs with
  | nil => exact ⟨[], rfl⟩
  | cons x xs ih =>
      rw [List.forall_mem_cons] at hAll
      rcases Option.isSome_iff_exists.mp hAll.1 with ⟨y, hY⟩
      rcases ih hAll.2 with ⟨ys, hYs⟩
      exact ⟨y :: ys, by rw [List.mapM_cons, hY, hYs]; rfl⟩

------------------------------------------------------------
-- Tests
------------------------------------------------------------

/- Whether a computation ends in a value that passes a test. -/
def passes
    (test : α → Bool) :
    Except ε α → Bool
  | .ok value => test value
  | .error _ => false

theorem exists_of_passes
    {test : α → Bool}
    {outcome : Except ε α}
    (hPasses : passes test outcome = true) :
    ∃ value, outcome = .ok value ∧ test value = true := by
  cases outcome with
  | ok value => exact ⟨value, rfl, hPasses⟩
  | error fault => cases hPasses

end Outcome

------------------------------------------------------------
-- Paired Lists
------------------------------------------------------------

namespace Paired

variable {α β γ : Type}
variable {R : α → β → Prop}
variable {xs : List α} {ys : List β}

theorem exists_right
    {x : α}
    (hPaired : List.Forall₂ R xs ys)
    (hMem : x ∈ xs) :
    ∃ y ∈ ys, R x y := by
  induction hPaired with
  | nil => cases hMem
  | cons hFirst hRest ih =>
      rcases List.mem_cons.mp hMem with hEq | hIn
      · rw [hEq]
        exact ⟨_, List.mem_cons_self, hFirst⟩
      · rcases ih hIn with ⟨y, hY, hRel⟩
        exact ⟨y, List.mem_cons_of_mem _ hY, hRel⟩

theorem exists_left
    {y : β}
    (hPaired : List.Forall₂ R xs ys)
    (hMem : y ∈ ys) :
    ∃ x ∈ xs, R x y := by
  have hFlip := List.Forall₂.flip hPaired
  exact exists_right hFlip hMem

theorem forall_iff
    {p : α → Prop}
    {q : β → Prop}
    (hPaired : List.Forall₂ R xs ys)
    (hSame : ∀ x y, R x y → (p x ↔ q y)) :
    (∀ x ∈ xs, p x) ↔ ∀ y ∈ ys, q y := by
  induction hPaired with
  | nil => simp
  | cons hFirst hRest ih =>
      rw [List.forall_mem_cons, List.forall_mem_cons, ih,
        hSame _ _ hFirst]

theorem map_eq_map
    {f : α → γ}
    {g : β → γ}
    (hPaired : List.Forall₂ R xs ys)
    (hSame : ∀ x y, R x y → f x = g y) :
    xs.map f = ys.map g := by
  induction hPaired with
  | nil => rfl
  | cons hFirst hRest ih =>
      rw [List.map_cons, List.map_cons, ih,
        hSame _ _ hFirst]

theorem filter
    {p : α → Bool}
    {q : β → Bool}
    (hPaired : List.Forall₂ R xs ys)
    (hSame : ∀ x y, R x y → p x = q y) :
    List.Forall₂ R (xs.filter p) (ys.filter q) := by
  refine List.rel_filter ?_ hPaired
  intro x y hRel
  simp only [hSame x y hRel]

end Paired

end WireSchema
