/-!
Searching a list by ranks: the first rank that accepts any item decides, and the
first item it accepts is the answer.
-/

namespace FirstMatch

variable {Rank Item : Type} {accepts : Rank → Item → Bool} {ranks : List Rank}
  {items : List Item} {rank : Rank} {item : Item}

def deciding (accepts : Rank → Item → Bool) (ranks : List Rank) (items : List Item) : Option Rank :=
  ranks.find? fun rank => items.any (accepts rank)

def firstMatch (accepts : Rank → Item → Bool) (ranks : List Rank) (items : List Item) : Option Item :=
  ranks.findSome? fun rank => items.find? (accepts rank)

@[simp] theorem firstMatch_nil (accepts : Rank → Item → Bool) (items : List Item) :
    firstMatch accepts [] items = none := rfl

@[simp] theorem firstMatch_cons (accepts : Rank → Item → Bool) (rank : Rank) (ranks : List Rank)
    (items : List Item) : firstMatch accepts (rank :: ranks) items =
      (items.find? (accepts rank) <|> firstMatch accepts ranks items) := by
  rw [firstMatch, List.findSome?_cons]
  cases items.find? (accepts rank) <;> rfl

theorem any_of_deciding (decides : deciding accepts ranks items = some rank) :
    ∃ item ∈ items, accepts rank item = true := by
  have accepted := @List.find?_some _ (fun rank => items.any (accepts rank)) _ _ decides
  exact List.any_eq_true.mp accepted

theorem firstMatch_eq_bind (accepts : Rank → Item → Bool) (ranks : List Rank)
    (items : List Item) : firstMatch accepts ranks items =
      (deciding accepts ranks items).bind fun rank => items.find? (accepts rank) := by
  induction ranks with
  | nil => rfl
  | cons rank ranks ih =>
    unfold firstMatch deciding at *
    rw [List.findSome?_cons, List.find?_cons]
    cases found : items.find? (accepts rank) with
    | none =>
      have rejects : items.any (accepts rank) = false := by
        simpa using found
      rw [rejects]
      exact ih
    | some item =>
      have some_accepted : items.any (accepts rank) = true :=
        List.any_eq_true.mpr ⟨item, List.mem_of_find?_eq_some found, List.find?_some found⟩
      rw [some_accepted]
      exact found.symm

theorem exists_of_deciding (decides : deciding accepts ranks items = some rank) :
    ∃ item, firstMatch accepts ranks items = some item := by
  rw [firstMatch_eq_bind, decides]
  exact Option.isSome_iff_exists.mp (List.find?_isSome.mpr (any_of_deciding decides))

theorem deciding_perm {other : List Item} (permuted : other.Perm items) :
    deciding accepts ranks other = deciding accepts ranks items := by
  simp [deciding, permuted.any_eq]

theorem firstMatch_eq_some (found : firstMatch accepts ranks items = some item) :
    ∃ rank, deciding accepts ranks items = some rank ∧ item ∈ items ∧ accepts rank item = true := by
  rw [firstMatch_eq_bind, Option.bind_eq_some_iff] at found
  obtain ⟨rank, decides, found⟩ := found
  exact ⟨rank, decides, List.mem_of_find?_eq_some found, List.find?_some found⟩

/-- The answer is the same for every order of the items exactly when the rank that decides accepts
a single one. -/
theorem firstMatch_perm_iff : (∀ other : List Item, other.Perm items →
      firstMatch accepts ranks other = firstMatch accepts ranks items) ↔
    ∀ rank, deciding accepts ranks items = some rank → ∀ first ∈ items, ∀ second ∈ items,
      accepts rank first = true → accepts rank second = true → first = second := by
  constructor
  · intro stable rank decides
    -- Moved to the front, any item that the rank accepts is the answer.
    have answer : ∀ item ∈ items, accepts rank item = true → firstMatch accepts ranks items = some item := by
      intro item member accepted
      obtain ⟨before, after, rfl⟩ := List.append_of_mem member
      have moved : (item :: (before ++ after)).Perm (before ++ item :: after) :=
        List.perm_middle.symm
      rw [← stable _ moved, firstMatch_eq_bind, deciding_perm moved, decides, Option.bind_some,
        List.find?_cons_of_pos accepted]
    intro first firstMember second secondMember acceptsFirst acceptsSecond
    have same := answer first firstMember acceptsFirst
    rw [answer second secondMember acceptsSecond, Option.some.injEq] at same
    exact same.symm
  · intro single other permuted
    rw [firstMatch_eq_bind, firstMatch_eq_bind, deciding_perm permuted]
    cases decides : deciding accepts ranks items with
    | none => rfl
    | some rank =>
      obtain ⟨item, member, accepted⟩ := any_of_deciding decides
      have answer : ∀ items' : List Item, items'.Perm items → items'.find? (accepts rank) = some item := by
        intro items' permuted
        have exists_found : (items'.find? (accepts rank)).isSome :=
          List.find?_isSome.mpr ⟨item, permuted.mem_iff.mpr member, accepted⟩
        obtain ⟨found, isFound⟩ := Option.isSome_iff_exists.mp exists_found
        have inside := permuted.mem_iff.mp (List.mem_of_find?_eq_some isFound)
        rw [isFound, single rank decides found inside item member (List.find?_some isFound) accepted]
      rw [Option.bind_some, Option.bind_some, answer other permuted, answer items (.refl _)]

end FirstMatch
