import Mathlib.Data.List.Basic

/-!
A store that is updated in place, beside a list of versions that never change.
-/

namespace Versions

variable {index place last : Nat}
variable {places : List Nat}

def outdated (places : List Nat) (index : Nat) : Bool := match places[index]? with
  | some place => (places.drop (index + 1)).contains place
  | none => false

theorem outdated_iff (written : places[index]? = some place) :
    outdated places index = true ↔ ∃ later, index < later ∧ places[later]? = some place := by
  simp only [outdated, written, List.contains_iff_mem, List.mem_iff_getElem?, List.getElem?_drop]
  constructor
  · rintro ⟨offset, found⟩
    exact ⟨index + 1 + offset, by omega, found⟩
  · rintro ⟨later, _, found⟩
    refine ⟨later - (index + 1), ?_⟩
    have same : index + 1 + (later - (index + 1)) = later := by omega
    rw [same, found]

theorem current_of_append (written : places[index]? = some place)
    (current : outdated (places ++ [last]) index = false) : outdated places index = false := by
  have stillWritten : (places ++ [last])[index]? = some place := by
    rw [List.getElem?_append_left (List.getElem?_eq_some_iff.mp written).1, written]
  by_contra old
  rw [Bool.not_eq_false, outdated_iff written] at old
  obtain ⟨later, after, found⟩ := old
  have stillOld : outdated (places ++ [last]) index = true :=
    (outdated_iff stillWritten).mpr ⟨later, after, by
      rw [List.getElem?_append_left (List.getElem?_eq_some_iff.mp found).1, found]⟩
  rw [current] at stillOld
  cases stillOld

theorem ne_of_current (written : places[index]? = some place)
    (current : outdated (places ++ [last]) index = false) : place ≠ last := by
  rintro rfl
  have bound := (List.getElem?_eq_some_iff.mp written).1
  have stillWritten : (places ++ [place])[index]? = some place := by
    rw [List.getElem?_append_left bound, written]
  have old : outdated (places ++ [place]) index = true :=
    (outdated_iff stillWritten).mpr ⟨places.length, bound, List.getElem?_concat_length⟩
  rw [current] at old
  cases old

theorem written_cases (written : (places ++ [last])[index]? = some place) :
    places[index]? = some place ∨ index = places.length ∧ place = last := by
  by_cases old : index < places.length
  · rw [List.getElem?_append_left old] at written
    exact .inl written
  · have bound := (List.getElem?_eq_some_iff.mp written).1
    rw [List.length_append, List.length_singleton] at bound
    have isLast : index = places.length := by omega
    subst isLast
    rw [List.getElem?_concat_length] at written
    exact .inr ⟨rfl, (Option.some.inj written).symm⟩

section Keeps

variable {α β : Type} (related : List Nat → α → β → Prop)

structure Keeps (places : List Nat) (versions : List α) (store : List β) : Prop where
  length_eq : places.length = versions.length
  bounded : ∀ place ∈ places, place < store.length
  holds : ∀ index place, places[index]? = some place → outdated places index = false →
    ∃ version item, versions[index]? = some version ∧ store[place]? = some item ∧ related places version item

variable {related} {places : List Nat} {versions : List α} {store : List β}

section

variable (keeps : Keeps related places versions store)
include keeps

theorem Keeps.holds_append
    (mono : ∀ last version item, related places version item → related (places ++ [last]) version item)
    {index place last : Nat} (version : α) (written : places[index]? = some place)
    (current : outdated (places ++ [last]) index = false) :
    ∃ kept item, (versions ++ [version])[index]? = some kept ∧ store[place]? = some item ∧
      related (places ++ [last]) kept item := by
  obtain ⟨kept, item, isVersion, isItem, isRelated⟩ :=
    keeps.holds index place written (current_of_append written current)
  refine ⟨kept, item, ?_, isItem, mono _ _ _ isRelated⟩
  rw [List.getElem?_append_left (List.getElem?_eq_some_iff.mp isVersion).1, isVersion]

theorem Keeps.alloc
    (mono : ∀ last version item, related places version item → related (places ++ [last]) version item)
    {version : α} {item : β} (isRelated : related (places ++ [store.length]) version item) :
    Keeps related (places ++ [store.length]) (versions ++ [version]) (store ++ [item]) where
  length_eq := by simp [keeps.length_eq]
  bounded := by
    intro place member
    rw [List.length_append, List.length_singleton]
    rcases List.mem_append.mp member with old | new
    · have := keeps.bounded place old
      omega
    · rw [List.mem_singleton.mp new]
      omega
  holds := by
    intro _ place written current
    rcases written_cases written with old | ⟨rfl, rfl⟩
    · obtain ⟨kept, cell, isVersion, isItem, keptRelated⟩ :=
        keeps.holds_append mono version old current
      refine ⟨kept, cell, isVersion, ?_, keptRelated⟩
      rw [List.getElem?_append_left (List.getElem?_eq_some_iff.mp isItem).1, isItem]
    · refine ⟨version, item, ?_, List.getElem?_concat_length, isRelated⟩
      rw [keeps.length_eq, List.getElem?_concat_length]

theorem Keeps.update
    (mono : ∀ last version item, related places version item → related (places ++ [last]) version item)
    {place : Nat} (isPlace : place ∈ places) {version : α} {item : β}
    (isRelated : related (places ++ [place]) version item) :
    Keeps related (places ++ [place]) (versions ++ [version]) (store.set place item) where
  length_eq := by simp [keeps.length_eq]
  bounded := by
    intro other member
    rw [List.length_set]
    rcases List.mem_append.mp member with old | new
    · exact keeps.bounded other old
    · rw [List.mem_singleton.mp new]
      exact keeps.bounded place isPlace
  holds := by
    intro _ other written current
    rcases written_cases written with old | ⟨rfl, rfl⟩
    · obtain ⟨kept, cell, isVersion, isItem, keptRelated⟩ :=
        keeps.holds_append mono version old current
      refine ⟨kept, cell, isVersion, ?_, keptRelated⟩
      rw [List.getElem?_set_ne (Ne.symm (ne_of_current old current)), isItem]
    · refine ⟨version, item, ?_, ?_, isRelated⟩
      · rw [keeps.length_eq, List.getElem?_concat_length]
      · rw [List.getElem?_set_self (keeps.bounded other isPlace)]

end

end Keeps

end Versions
