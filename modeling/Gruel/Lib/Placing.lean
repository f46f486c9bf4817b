import Mathlib.Tactic

/-!
Items that come in an order of their own and are stored by index, and the same
items found by the keys they were given with.
-/

namespace Placing

variable {α : Type}

def placed (count : Nat) (order : List Nat) (items : List α) : List (Option α) :=
  (order.zip items).foldl (fun cells entry => cells.set entry.1 (some entry.2)) (List.replicate count none)

def collected (cells : List (Option α)) : Option (List α) := cells.mapM id

theorem length_foldl_set (entries : List (Nat × α)) (cells : List (Option α)) :
    (entries.foldl (fun cells entry => cells.set entry.1 (some entry.2)) cells).length = cells.length := by
  induction entries generalizing cells with
  | nil => rfl
  | cons entry entries ih => rw [List.foldl_cons, ih, List.length_set]

variable {κ : Type} {keys : List κ} {items : List α}

theorem lookup_eq_none_of_notMem [DecidableEq κ] {key : κ} {entries : List (κ × α)}
    (absent : key ∉ entries.map Prod.fst) : entries.lookup key = none := by
  rw [List.lookup_eq_none_iff]
  intro entry member
  have different : key ≠ entry.1 := by
    intro same
    exact absent (same ▸ List.mem_map_of_mem member)
  simpa using different

theorem getElem?_foldl_set {entries : List (Nat × α)} (distinct : (entries.map Prod.fst).Nodup)
    (cells : List (Option α)) {index : Nat} (bound : index < cells.length) :
    (entries.foldl (fun cells entry => cells.set entry.1 (some entry.2)) cells)[index]? =
      some ((entries.lookup index).or cells[index]) := by
  induction entries generalizing cells with
  | nil => simp
  | cons entry entries ih =>
    obtain ⟨first, _⟩ := entry
    simp only [List.map_cons, List.nodup_cons] at distinct
    rw [List.foldl_cons, ih distinct.2 _ (by simpa using bound), List.lookup_cons]
    by_cases here : index = first
    · subst here
      simp [lookup_eq_none_of_notMem distinct.1]
    · have different : (index == first) = false := by simpa using here
      simp only [different]
      rw [List.getElem_set_ne (Ne.symm here)]

theorem map_fst_zip_sublist (keys : List κ) (items : List α) :
    List.Sublist ((keys.zip items).map Prod.fst) keys := by
  induction keys generalizing items with
  | nil => simp
  | cons key keys ih =>
    cases items with
    | nil => simp
    | cons item items => simpa using ih items

theorem placed_eq_map {order : List Nat} (distinct : order.Nodup) (count : Nat) (items : List α) :
    placed count order items = (List.range count).map fun index => (order.zip items).lookup index := by
  have distinct' : ((order.zip items).map Prod.fst).Nodup :=
    distinct.sublist (map_fst_zip_sublist order items)
  apply List.ext_getElem?
  intro index
  by_cases bound : index < count
  · rw [placed, getElem?_foldl_set distinct' _ (by simpa using bound)]
    simp [bound]
  · have short : (placed count order items).length = count := by
      rw [placed, length_foldl_set, List.length_replicate]
    rw [List.getElem?_eq_none (by omega), List.getElem?_eq_none (by simpa using bound)]

theorem lookup_zip [DecidableEq κ] (distinct : keys.Nodup) (items : List α) {index : Nat}
    (bound : index < keys.length) : (keys.zip items).lookup keys[index] = items[index]? := by
  induction keys generalizing items index with
  | nil => simp at bound
  | cons key keys ih =>
    cases items with
    | nil => simp
    | cons item items =>
      rw [List.nodup_cons] at distinct
      cases index with
      | zero => simp
      | succ index =>
        simp only [List.length_cons, Nat.add_lt_add_iff_right] at bound
        have different : (keys[index] == key) = false := by
          simp only [beq_eq_false_iff_ne]
          intro same
          exact distinct.1 (same ▸ List.getElem_mem bound)
        rw [List.zip_cons_cons, List.getElem_cons_succ, List.getElem?_cons_succ, List.lookup_cons, different]
        exact ih distinct.2 items bound

theorem collected_map (found : κ → Option α) (keys : List κ) :
    collected (keys.map found) = keys.mapM found := by
  induction keys with
  | nil => rfl
  | cons key keys ih =>
    unfold collected at ih ⊢
    rw [List.map_cons, List.mapM_cons, List.mapM_cons, ih]
    rfl

theorem getElem?_of_mapM {found : κ → Option α} (all : keys.mapM found = some items) (index : Nat) :
    items[index]? = keys[index]?.bind found := by
  induction keys generalizing items index with
  | nil =>
    simp only [List.mapM_nil, Option.pure_def, Option.some.injEq] at all
    simp [← all]
  | cons key keys ih =>
    simp only [List.mapM_cons, Option.pure_def, Option.bind_eq_bind, Option.bind_eq_some_iff,
      Option.some.injEq] at all
    obtain ⟨_, foundItem, _, foundRest, rfl⟩ := all
    cases index with
    | zero => simp [foundItem]
    | succ index => simpa using ih foundRest index

theorem length_of_mapM {found : κ → Option α} (all : keys.mapM found = some items) :
    items.length = keys.length := by
  induction keys generalizing items with
  | nil =>
    simp only [List.mapM_nil, Option.pure_def, Option.some.injEq] at all
    simp [← all]
  | cons key keys ih =>
    simp only [List.mapM_cons, Option.pure_def, Option.bind_eq_bind, Option.bind_eq_some_iff,
      Option.some.injEq] at all
    obtain ⟨_, -, _, foundRest, rfl⟩ := all
    simp [ih foundRest]

theorem length_of_collected {count : Nat} {order : List Nat} {fields : List α}
    (all : collected (placed count order items) = some fields) : fields.length = count := by
  have short := length_of_mapM all
  rwa [placed, length_foldl_set, List.length_replicate] at short

theorem collected_map_some (items : List α) : collected (items.map some) = some items := by
  induction items with
  | nil => rfl
  | cons item items ih =>
    unfold collected at ih ⊢
    rw [List.map_cons, List.mapM_cons, ih]
    rfl

section InOrder

variable {order : List Nat} {items fields : List α}

theorem map_getElem?_of_collected (distinct : order.Nodup) (each : order.length = items.length)
    {count : Nat} (within : ∀ index ∈ order, index < count)
    (all : collected (placed count order items) = some fields) :
    (order.map fun index => fields[index]?) = items.map some := by
  rw [placed_eq_map distinct, collected_map] at all
  apply List.ext_getElem (by simpa using each)
  intro index bound bound'
  have here : index < order.length := by simpa using bound
  have there : index < items.length := by simpa using bound'
  have found := getElem?_of_mapM all order[index]
  rw [List.getElem?_range (within _ (List.getElem_mem here)), Option.bind_some,
    lookup_zip distinct items here, List.getElem?_eq_getElem there] at found
  simpa using found

theorem collected_placed_range (items : List α) :
    collected (placed items.length (List.range items.length) items) = some items := by
  rw [placed_eq_map List.nodup_range, ← collected_map_some items]
  congr 1
  apply List.ext_getElem (by simp)
  intro index bound _
  have here : index < (List.range items.length).length := by simpa using bound
  have there : index < items.length := by simpa using here
  have found := lookup_zip List.nodup_range items here
  rw [List.getElem_range, List.getElem?_eq_getElem there] at found
  simpa using found

variable {κ : Type} [DecidableEq κ] {keys given : List κ}

theorem map_idxOf_self (distinct : keys.Nodup) : keys.map keys.idxOf = List.range keys.length := by
  apply List.ext_getElem (by simp)
  intro _ _ _
  rw [List.getElem_map, List.getElem_range, distinct.idxOf_getElem]

theorem map_idxOf_nodup (distinct : keys.Nodup) (same : given.Perm keys) : (given.map keys.idxOf).Nodup := by
  have shuffled : (given.map keys.idxOf).Perm (List.range keys.length) :=
    map_idxOf_self distinct ▸ same.map keys.idxOf
  exact shuffled.nodup_iff.mpr List.nodup_range

theorem collected_placed (distinct : keys.Nodup) (same : given.Perm keys) (items : List α) :
    collected (placed keys.length (given.map keys.idxOf) items) =
      keys.mapM fun key => (given.zip items).lookup key := by
  have ordered := map_idxOf_nodup distinct same
  rw [placed_eq_map ordered, ← collected_map]
  congr 1
  apply List.ext_getElem (by simp)
  intro index _ bound'
  have within : index < keys.length := by simpa using bound'
  obtain ⟨place, here, names⟩ := List.getElem_of_mem (same.mem_iff.mpr (List.getElem_mem within))
  have there : place < (given.map keys.idxOf).length := by simpa using here
  have byIndex := lookup_zip ordered items there
  have byKey := lookup_zip (same.nodup_iff.mpr distinct) items here
  rw [List.getElem_map, names, distinct.idxOf_getElem] at byIndex
  rw [names] at byKey
  simp [byIndex, byKey]

end InOrder

end Placing
