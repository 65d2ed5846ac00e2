import Mathlib.Data.List.Induction
import Mathlib.Data.List.Nodup
import WireSchema.Table

/-
  What tables hold.

  Main declarations:
    * `Table.lookup_put`
    * `Table.ofEntries_of_nodup`
    * `Table.lookup_of_mem`
    * `Table.isSome_lookup_iff`
-/

namespace WireSchema

namespace Table

variable {κ ν : Type}
variable [BEq κ] [LawfulBEq κ]

theorem isSome_lookup_iff
    {key : κ}
    {entries : List (κ × ν)} :
    (entries.lookup key).isSome = true ↔
      key ∈ entries.map Prod.fst := by
  induction entries with
  | nil => simp
  | cons entry entries ih =>
      rw [List.lookup_cons, List.map_cons, List.mem_cons, ← ih]
      by_cases hSame : key = entry.1
      · simp [hSame]
      · simp [hSame, beq_eq_false_iff_ne.mpr hSame]

/- A key that is set has its value, and no other changes. -/
theorem lookup_put
    (key : κ)
    (value : ν)
    (entries : List (κ × ν))
    (wanted : κ)
    [Decidable (wanted = key)] :
    (put key value entries).lookup wanted =
      if wanted = key then some value
      else entries.lookup wanted := by
  induction entries with
  | nil =>
      by_cases hWanted : wanted = key
      · simp [put, hWanted]
      · simp [put, hWanted, List.lookup_cons,
          beq_eq_false_iff_ne.mpr hWanted]
  | cons entry entries ih =>
      by_cases hFirst : entry.1 = key
      · rw [put, if_pos (beq_iff_eq.mpr hFirst),
          List.lookup_cons, List.lookup_cons, hFirst]
        by_cases hWanted : wanted = key
        · simp [hWanted]
        · simp [hWanted, beq_eq_false_iff_ne.mpr hWanted]
      · rw [put, if_neg (mt beq_iff_eq.mp hFirst),
          List.lookup_cons, List.lookup_cons, ih]
        by_cases hWanted : wanted = entry.1
        · have hOther : ¬ wanted = key := by
            rw [hWanted]
            exact hFirst
          simp only [if_neg hOther]
        · simp only [beq_eq_false_iff_ne.mpr hWanted]

theorem put_of_not_mem
    {key : κ}
    {entries : List (κ × ν)}
    (value : ν)
    (hNew : key ∉ entries.map Prod.fst) :
    put key value entries = entries ++ [(key, value)] := by
  induction entries with
  | nil => rfl
  | cons entry entries ih =>
      rw [List.map_cons, List.mem_cons, not_or] at hNew
      have hFirst : (entry.1 == key) = false :=
        beq_eq_false_iff_ne.mpr (Ne.symm hNew.1)
      simp [put, hFirst, ih hNew.2]

theorem mem_of_lookup
    {key : κ}
    {value : ν}
    {entries : List (κ × ν)}
    (hLookup : entries.lookup key = some value) :
    (key, value) ∈ entries := by
  induction entries with
  | nil => cases hLookup
  | cons entry entries ih =>
      rw [List.lookup_cons] at hLookup
      split at hLookup
      · rename_i hSame
        cases hLookup
        rw [eq_of_beq hSame]
        exact List.mem_cons_self
      · exact List.mem_cons_of_mem entry (ih hLookup)

theorem mem_of_mem_put
    {key : κ}
    {value : ν}
    {entries : List (κ × ν)}
    {entry : κ × ν}
    (hMem : entry ∈ put key value entries) :
    entry = (key, value) ∨ entry ∈ entries := by
  induction entries with
  | nil => exact .inl (List.mem_singleton.mp hMem)
  | cons first entries ih =>
      rw [put] at hMem
      split at hMem
      · rename_i hSame
        rcases List.mem_cons.mp hMem with hFirst | hRest
        · rw [eq_of_beq hSame] at hFirst
          exact .inl hFirst
        · exact .inr (List.mem_cons_of_mem first hRest)
      · rcases List.mem_cons.mp hMem with hFirst | hRest
        · exact .inr (hFirst ▸ List.mem_cons_self)
        · exact (ih hRest).imp id
            (List.mem_cons_of_mem first)

/- A table holds nothing but its entries. -/
theorem mem_of_mem_ofEntries
    {entries : List (κ × ν)}
    {entry : κ × ν}
    (hMem : entry ∈ ofEntries entries) :
    entry ∈ entries := by
  induction entries using List.reverseRecOn with
  | nil => exact hMem
  | append_singleton entries last ih =>
      unfold ofEntries at ih hMem
      rw [List.foldl_concat] at hMem
      rcases mem_of_mem_put hMem with hLast | hBefore
      · exact List.mem_append_right _
          (List.mem_singleton.mpr hLast)
      · exact List.mem_append_left _ (ih hBefore)

theorem mem_keys_ofEntries_iff
    {key : κ}
    {entries : List (κ × ν)} :
    key ∈ (ofEntries entries).map Prod.fst ↔
      key ∈ entries.map Prod.fst := by
  classical
  induction entries using List.reverseRecOn with
  | nil => rfl
  | append_singleton entries last ih =>
      unfold ofEntries at ih ⊢
      rw [List.foldl_concat, ← isSome_lookup_iff, lookup_put,
        List.map_append, List.mem_append, ← ih,
        ← isSome_lookup_iff]
      by_cases hKey : key = last.1
      · simp [hKey]
      · simp [hKey]

/- Entries with different keys make a table as they stand. -/
theorem ofEntries_of_nodup
    {entries : List (κ × ν)}
    (hNodup : (entries.map Prod.fst).Nodup) :
    ofEntries entries = entries := by
  induction entries using List.reverseRecOn with
  | nil => rfl
  | append_singleton entries entry ih =>
      rw [List.map_append, List.nodup_append] at hNodup
      have hNew : entry.1 ∉ entries.map Prod.fst := by
        intro hMem
        exact hNodup.2.2 entry.1 hMem entry.1
          (List.mem_singleton_self entry.1) rfl
      have hBefore : ofEntries entries = entries :=
        ih hNodup.1
      unfold ofEntries at hBefore ⊢
      rw [List.foldl_concat, hBefore,
        put_of_not_mem entry.2 hNew]

theorem ofEntries_map
    {ι : Type}
    {key : ι → κ}
    {value : ι → ν}
    {items : List ι}
    (hNodup : (items.map key).Nodup) :
    ofEntries (items.map fun item => (key item, value item)) =
      items.map fun item => (key item, value item) := by
  refine ofEntries_of_nodup ?_
  rw [List.map_map]
  exact hNodup

theorem lookup_of_mem
    {key : κ}
    {value : ν}
    {entries : List (κ × ν)}
    (hNodup : (entries.map Prod.fst).Nodup)
    (hMem : (key, value) ∈ entries) :
    entries.lookup key = some value := by
  induction entries with
  | nil => cases hMem
  | cons entry entries ih =>
      rw [List.map_cons, List.nodup_cons] at hNodup
      rcases List.mem_cons.mp hMem with hFirst | hRest
      · rw [← hFirst, List.lookup_cons_self]
      · have hOther : (key == entry.1) = false := by
          rw [beq_eq_false_iff_ne]
          intro hSame
          rw [← hSame] at hNodup
          exact hNodup.1
            (List.mem_map.mpr ⟨(key, value), hRest, rfl⟩)
        rw [List.lookup_cons, hOther]
        exact ih hNodup.2 hRest

theorem lookup_of_not_mem
    {key : κ}
    {entries : List (κ × ν)}
    (hNew : key ∉ entries.map Prod.fst) :
    entries.lookup key = none := by
  rw [List.lookup_eq_none_iff]
  intro entry hEntry
  rw [bne_iff_ne]
  intro hSame
  exact hNew (List.mem_map.mpr ⟨entry, hEntry, hSame.symm⟩)

end Table

end WireSchema
