import Mathlib.Data.List.Induction

/-!
Deduplicating tables: an append-only list of entries and an index that finds an entry from its key.
-/

namespace InternTable

variable {Key Entry Name : Type}

def Exact (name : Nat → Name) (build : Key → Entry) (find : Key → Option Name) (entries : List Entry) : Prop :=
  ∀ key found, find key = some found ↔ ∃ position, found = name position ∧ entries[position]? = some (build key)

variable {name : Nat → Name} {build : Key → Entry} {find : Key → Option Name} {entries : List Entry}

theorem exact_nil (none : ∀ key, find key = none) : Exact name build find [] := by
  intro key _
  simp [none key]

section

variable (exact : Exact name build find entries)
include exact

theorem Exact.missing {key : Key} (missed : find key = none) (position : Nat) :
    entries[position]? ≠ some (build key) := by
  intro present
  have found := (exact key (name position)).mpr ⟨position, rfl, present⟩
  rw [missed] at found
  cases found

theorem Exact.append_other {entry : Entry} (other : ∀ key, entry ≠ build key) :
    Exact name build find (entries ++ [entry]) := by
  intro key found
  rw [exact key found]
  constructor
  · rintro ⟨position, named, present⟩
    refine ⟨position, named, ?_⟩
    have inside : position < entries.length := (List.getElem?_eq_some_iff.mp present).1
    rw [List.getElem?_append_left inside]
    exact present
  · rintro ⟨position, named, present⟩
    refine ⟨position, named, ?_⟩
    by_cases inside : position < entries.length
    · rwa [List.getElem?_append_left inside] at present
    · rw [List.getElem?_append_right (by omega)] at present
      obtain ⟨_, equal⟩ := List.getElem?_eq_some_iff.mp present
      simp only [List.getElem_singleton] at equal
      exact absurd equal (other key)

theorem Exact.append_new [DecidableEq Key] (injective : Function.Injective build) {key : Key}
    (missed : find key = none) {extended : Key → Option Name}
    (extends_find : ∀ other, extended other = if other = key then some (name entries.length) else find other) :
    Exact name build extended (entries ++ [build key]) := by
  intro other found
  rw [extends_find other]
  by_cases same : other = key
  · subst same
    rw [if_pos rfl]
    constructor
    · intro equal
      cases equal
      exact ⟨entries.length, rfl, by simp⟩
    · rintro ⟨position, named, present⟩
      by_cases inside : position < entries.length
      · rw [List.getElem?_append_left inside] at present
        exact absurd present (exact.missing missed position)
      · have atEnd : position < (entries ++ [build other]).length :=
          (List.getElem?_eq_some_iff.mp present).1
        have last : position = entries.length := by
          simp only [List.length_append, List.length_singleton] at atEnd
          omega
        rw [named, last]
  · rw [if_neg same]
    have different : ∀ position : Nat, (entries ++ [build key])[position]? = some (build other) ↔
        entries[position]? = some (build other) := by
      intro position
      by_cases inside : position < entries.length
      · rw [List.getElem?_append_left inside]
      · rw [List.getElem?_append_right (by omega), List.getElem?_eq_none (by omega : _ ≤ position)]
        constructor
        · intro present
          obtain ⟨_, equal⟩ := List.getElem?_eq_some_iff.mp present
          simp only [List.getElem_singleton] at equal
          exact absurd (injective equal).symm same
        · intro present
          cases present
    rw [exact other found]
    simp [different]

theorem Exact.set_other {position : Nat} {entry : Entry}
    (wasOther : ∀ key, entries[position]? ≠ some (build key)) (isOther : ∀ key, entry ≠ build key) :
    Exact name build find (entries.set position entry) := by
  intro key found
  rw [exact key found]
  have unchanged : ∀ other : Nat, (entries.set position entry)[other]? = some (build key) ↔
      entries[other]? = some (build key) := by
    intro other
    by_cases same : position = other
    · subst same
      constructor
      · intro present
        obtain ⟨_, equal⟩ := List.getElem?_eq_some_iff.mp present
        rw [List.getElem_set_self] at equal
        exact absurd equal (isOther key)
      · intro present
        exact absurd present (wasOther key)
    · rw [List.getElem?_set_ne same]
  simp [unchanged]

end

/-! ### An index over some of the entries

An entry may carry a key before the index names it: `active` says which positions
the index covers.  A walk over the whole list rebuilds an index that covers all. -/

def Indexed (name : Nat → Name) (keyOf : Entry → Option Key) (active : Nat → Prop)
    (find : Key → Option Name) (entries : List Entry) : Prop :=
  ∀ key found, find key = some found ↔ ∃ position, found = name position ∧ active position ∧
      entries[position]?.bind keyOf = some key

section Indexed

variable {keyOf : Entry → Option Key} {active : Nat → Prop}
variable {entry : Entry} {key : Key} {position : Nat} {extended : Key → Option Name}

theorem indexed_nil (none : ∀ key, find key = none) : Indexed name keyOf active find [] := by
  intro key _
  simp [none key]

theorem Exact.indexed (exact : Exact name build find entries)
    (keyed : ∀ entry key, keyOf entry = some key ↔ entry = build key) :
    Indexed name keyOf (fun _ => True) find entries := by
  intro key found
  simp only [exact key found, true_and, Option.bind_eq_some_iff, keyed]
  constructor
  · rintro ⟨position, named, present⟩
    exact ⟨position, named, build key, present, rfl⟩
  · rintro ⟨position, named, entry, present, rfl⟩
    exact ⟨position, named, present⟩

section

variable (indexed : Indexed name keyOf active find entries)
include indexed

theorem Indexed.missing (missed : find key = none) (isActive : active position) :
    entries[position]?.bind keyOf ≠ some key := by
  intro carried
  have found := (indexed key (name position)).mpr ⟨position, rfl, isActive, carried⟩
  rw [missed] at found
  cases found

theorem Indexed.active_congr {other : Nat → Prop}
    (same : ∀ position < entries.length, (active position ↔ other position)) :
    Indexed name keyOf other find entries := by
  intro key found
  rw [indexed key found]
  refine exists_congr fun position => and_congr_right fun _ => and_congr_left fun carried => ?_
  obtain ⟨_, present, -⟩ := Option.bind_eq_some_iff.mp carried
  exact same position (List.getElem?_eq_some_iff.mp present).1

theorem Indexed.append_unnamed (unnamed : active entries.length → keyOf entry = none) :
    Indexed name keyOf active find (entries ++ [entry]) := by
  intro key found
  rw [indexed key found]
  refine exists_congr fun position => and_congr_right fun _ => and_congr_right fun isActive => ?_
  rcases Nat.lt_trichotomy position entries.length with inside | rfl | outside
  · rw [List.getElem?_append_left inside]
  · simp [unnamed isActive]
  · have past : (entries ++ [entry]).length ≤ position := by
      simp only [List.length_append, List.length_singleton]
      omega
    rw [List.getElem?_eq_none past, List.getElem?_eq_none (Nat.le_of_lt outside)]

theorem Indexed.set_same {old : Entry} (was : entries[position]? = some old) (same : keyOf entry = keyOf old) :
    Indexed name keyOf active find (entries.set position entry) := by
  intro key found
  rw [indexed key found]
  refine exists_congr fun other => and_congr_right fun _ => and_congr_right fun _ => ?_
  by_cases here : position = other
  · subst here
    have inside : position < entries.length := (List.getElem?_eq_some_iff.mp was).1
    rw [List.getElem?_set_self inside, was, Option.bind_some, Option.bind_some, same]
  · rw [List.getElem?_set_ne here]

theorem Indexed.activate [DecidableEq Key] {later : List Entry} {nowActive : Nat → Prop} (key : Key)
    (position : Nat) (missed : find key = none)
    (uncovered : active position → entries[position]? = none) (covered : nowActive position)
    (carries : later[position]?.bind keyOf = some key)
    (sameActive : ∀ other, other ≠ position → (nowActive other ↔ active other))
    (sameEntry : ∀ other, other ≠ position → later[other]? = entries[other]?)
    (extends_find : ∀ other, extended other = if other = key then some (name position) else find other) :
    Indexed name keyOf nowActive extended later := by
  intro other found
  rw [extends_find other]
  by_cases same : other = key
  · subst same
    rw [if_pos rfl]
    constructor
    · intro equal
      cases equal
      exact ⟨position, rfl, covered, carries⟩
    · rintro ⟨holder, rfl, isActive, carried⟩
      by_cases here : holder = position
      · rw [here]
      · rw [sameEntry holder here] at carried
        exact absurd carried (indexed.missing missed ((sameActive holder here).mp isActive))
  · rw [if_neg same, indexed other found]
    refine exists_congr fun holder => and_congr_right fun _ => ?_
    by_cases here : holder = position
    · subst here
      constructor
      · rintro ⟨isActive, carried⟩
        rw [uncovered isActive] at carried
        cases carried
      · rintro ⟨-, carried⟩
        rw [carries] at carried
        exact absurd (Option.some.inj carried).symm same
    · rw [sameActive holder here, sameEntry holder here]

theorem Indexed.append_keyed [DecidableEq Key] (missed : find key = none)
    (covered : active entries.length) (carries : keyOf entry = some key)
    (extends_find : ∀ other, extended other = if other = key then some (name entries.length) else find other) :
    Indexed name keyOf active extended (entries ++ [entry]) := by
  refine indexed.activate key entries.length missed (by simp) covered (by simpa using carries)
    (fun _ _ => Iff.rfl) (fun other differs => ?_) extends_find
  rcases Nat.lt_or_gt_of_ne differs with inside | outside
  · exact List.getElem?_append_left inside
  · have past : (entries ++ [entry]).length ≤ other := by
      simp only [List.length_append, List.length_singleton]
      omega
    rw [List.getElem?_eq_none past, List.getElem?_eq_none (Nat.le_of_lt outside)]

end

variable [DecidableEq Key]

/-- The name of the last entry that carries the key: what a walk leaves that
overwrites the index entry of every key it meets. -/
def lastNamed (name : Nat → Name) (keyOf : Entry → Option Key) (entries : List Entry) (key : Key) : Option Name :=
  (entries.zipIdx.reverse.find? fun (entry, _) => keyOf entry = some key).map fun (_, position) => name position

@[simp] theorem lastNamed_nil (key : Key) : lastNamed name keyOf ([] : List Entry) key = none := rfl

theorem lastNamed_concat (entries : List Entry) (entry : Entry) (key : Key) :
    lastNamed name keyOf (entries ++ [entry]) key = if keyOf entry = some key then some (name entries.length)
      else lastNamed name keyOf entries key := by
  by_cases carries : keyOf entry = some key <;>
    simp [lastNamed, List.zipIdx_append, carries]

theorem lastNamed_cases (name : Nat → Name) (entries : List Entry) (key : Key) :
    (lastNamed name keyOf entries key = none ∧ ∀ position : Nat, entries[position]?.bind keyOf ≠ some key) ∨
    ∃ position : Nat, lastNamed name keyOf entries key = some (name position) ∧
      entries[position]?.bind keyOf = some key := by
  induction entries using List.reverseRecOn with
  | nil => simp
  | append_singleton entries entry ih =>
    rw [lastNamed_concat]
    by_cases carries : keyOf entry = some key
    · exact .inr ⟨entries.length, if_pos carries, by simpa using carries⟩
    · rw [if_neg carries]
      rcases ih with ⟨nowhere, absent⟩ | ⟨position, last, present⟩
      · refine .inl ⟨nowhere, fun position => ?_⟩
        rcases Nat.lt_trichotomy position entries.length with inside | rfl | _
        · rw [List.getElem?_append_left inside]
          exact absent position
        · simpa using carries
        · have past : (entries ++ [entry]).length ≤ position := by
            simp only [List.length_append, List.length_singleton]
            omega
          rw [List.getElem?_eq_none past]
          simp
      · refine .inr ⟨position, last, ?_⟩
        obtain ⟨_, held, -⟩ := Option.bind_eq_some_iff.mp present
        rwa [List.getElem?_append_left (List.getElem?_eq_some_iff.mp held).1]

theorem Indexed.eq_lastNamed (indexed : Indexed name keyOf (fun _ => True) find entries) :
    find = lastNamed name keyOf entries := by
  funext key
  rcases lastNamed_cases name entries key with ⟨nowhere, absent⟩ | ⟨position, last, present⟩
  · rw [nowhere]
    cases found : find key with
    | none => rfl
    | some holder =>
      obtain ⟨position, -, -, present⟩ := (indexed key holder).mp found
      exact absurd present (absent position)
  · rw [last]
    exact (indexed key (name position)).mpr ⟨position, rfl, trivial, present⟩

end Indexed

end InternTable
