import Mathlib.Data.List.Induction

/-!
Cells filled by the code of their first use.
-/

namespace FirstUse

variable {U κ V : Type} [DecidableEq κ]

abbrev Cells (κ V : Type) := κ → Option V

variable (key : U → Option κ)

def mentions (uses : List U) (cell : κ) : Bool := uses.any fun use => decide (key use = some cell)

def firstOf (uses : List U) (cell : κ) : Option U := uses.find? fun use => decide (key use = some cell)

def firstBlock (blocks : List (List U)) (cell : κ) : Option Nat :=
  blocks.findIdx? fun uses => mentions key uses cell

def seenBefore (blocks : List (List U)) (number : Nat) : List κ :=
  (blocks.take number).flatten.filterMap key

def see (seen : List κ) (use : U) : List κ := match key use with
  | some cell => if cell ∈ seen then seen else cell :: seen
  | none => seen

variable (content : U → Option V)

def fill (seen : List κ) (uses : List U) (cells : Cells κ V) : Cells κ V := fun cell =>
  if cell ∈ seen then cells cell
  else
    match firstOf key uses cell with
    | some use => content use
    | none => cells cell

def runPath (blocks : List (List U)) (path : List Nat) : Cells κ V :=
  path.foldl (fun cells number =>
    fill key content (seenBefore key blocks number) ((blocks[number]?).getD []) cells) fun _ => none

variable {key content} {uses : List U} {blocks : List (List U)} {cell : κ}

theorem mentions_iff : mentions key uses cell = true ↔ ∃ use ∈ uses, key use = some cell := by
  simp [mentions]

theorem firstOf_eq_none_iff : firstOf key uses cell = none ↔ mentions key uses cell = false := by
  simp [firstOf, mentions]

variable {use : U} {number : Nat} {seen : List κ} {cells : Cells κ V}

theorem firstOf_key (first : firstOf key uses cell = some use) : use ∈ uses ∧ key use = some cell :=
  ⟨List.mem_of_find?_eq_some first, by simpa using List.find?_some first⟩

theorem firstOf_cons_same {rest : List U} (same : key use = some cell) :
    firstOf key (use :: rest) cell = some use := by
  simp [firstOf, same]

theorem firstOf_cons_other {rest : List U} (other : key use ≠ some cell) :
    firstOf key (use :: rest) cell = firstOf key rest cell := by
  simp [firstOf, other]

theorem mem_seenBefore_iff : cell ∈ seenBefore key blocks number ↔
    ∃ earlier, earlier < number ∧ ∃ uses, blocks[earlier]? = some uses ∧ mentions key uses cell = true := by
  simp only [seenBefore, List.mem_filterMap, List.mem_flatten, mentions_iff]
  constructor
  · rintro ⟨use, ⟨uses, inTake, inUses⟩, isKey⟩
    obtain ⟨earlier, at_⟩ := List.mem_iff_getElem?.mp inTake
    rw [List.getElem?_take] at at_
    split at at_
    · rename_i lower
      exact ⟨earlier, lower, uses, at_, use, inUses, isKey⟩
    · cases at_
  · rintro ⟨earlier, lower, uses, at_, use, inUses, isKey⟩
    refine ⟨use, ⟨uses, ?_, inUses⟩, isKey⟩
    apply List.mem_of_getElem? (i := earlier)
    rw [List.getElem?_take, if_pos lower, at_]

theorem fill_congr {seen' : List κ} (same : ∀ cell, cell ∈ seen ↔ cell ∈ seen')
    (cells : Cells κ V) : fill key content seen uses cells = fill key content seen' uses cells := by
  funext cell
  unfold fill
  by_cases member : cell ∈ seen
  · rw [if_pos member, if_pos ((same cell).mp member)]
  · rw [if_neg member, if_neg (mt (same cell).mpr member)]

theorem mem_see_iff : cell ∈ see key seen use ↔ cell ∈ seen ∨ key use = some cell := by
  unfold see
  cases isKey : key use with
  | none => simp
  | some own =>
    by_cases member : own ∈ seen
    · simp only [member, if_true, Option.some.injEq]
      constructor
      · exact Or.inl
      · rintro (inSeen | same)
        · exact inSeen
        · rwa [← same]
    · simp only [member, if_false, List.mem_cons, Option.some.injEq]
      rw [or_comm, eq_comm]

theorem fill_nil : fill key content seen [] cells = cells := by
  funext cell
  simp [fill, firstOf]

theorem fill_of_mem (member : cell ∈ seen) : fill key content seen uses cells cell = cells cell := by
  rw [fill, if_pos member]

theorem fill_cons : fill key content seen (use :: uses) cells =
      fill key content (see key seen use) uses (fill key content seen [use] cells) := by
  funext cell
  by_cases member : cell ∈ seen
  · rw [fill_of_mem member, fill_of_mem (mem_see_iff.2 (Or.inl member)), fill_of_mem member]
  · by_cases own : key use = some cell
    · rw [fill_of_mem (mem_see_iff.2 (Or.inr own))]
      unfold fill
      rw [if_neg member, if_neg member, firstOf_cons_same own, firstOf_cons_same own]
    · have fresh : cell ∉ see key seen use := by
        rw [mem_see_iff]
        exact not_or.mpr ⟨member, own⟩
      unfold fill
      rw [if_neg member, if_neg fresh, if_neg member, firstOf_cons_other own, firstOf_cons_other own]
      rfl

theorem runPath_append_singleton (path : List Nat) (number : Nat) : runPath key content blocks (path ++ [number]) =
      fill key content (seenBefore key blocks number) ((blocks[number]?).getD [])
        (runPath key content blocks path) := by
  rw [runPath, List.foldl_append]
  rfl

theorem firstBlock_eq_some_iff : firstBlock key blocks cell = some number ↔
    (∃ uses, blocks[number]? = some uses ∧ mentions key uses cell = true) ∧ cell ∉ seenBefore key blocks number := by
  unfold firstBlock
  rw [List.findIdx?_eq_some_iff_getElem, mem_seenBefore_iff]
  constructor
  · rintro ⟨lower, found, before⟩
    refine ⟨⟨blocks[number], List.getElem?_eq_getElem lower, found⟩, ?_⟩
    rintro ⟨earlier, less, uses, at_, mentioned⟩
    obtain ⟨bound, isUses⟩ := List.getElem?_eq_some_iff.mp at_
    apply before earlier less
    rw [isUses]
    exact mentioned
  · rintro ⟨⟨uses, at_, found⟩, fresh⟩
    obtain ⟨lower, isUses⟩ := List.getElem?_eq_some_iff.mp at_
    refine ⟨lower, by rw [isUses]; exact found, ?_⟩
    intro earlier less mentioned
    have bound : earlier < blocks.length := by omega
    exact fresh ⟨earlier, less, blocks[earlier], List.getElem?_eq_getElem bound, mentioned⟩

theorem firstOf_flatten {uses : List U} (at_ : blocks[number]? = some uses)
    (first : firstBlock key blocks cell = some number) :
    firstOf key blocks.flatten cell = firstOf key uses cell := by
  induction blocks generalizing number with
  | nil => simp at at_
  | cons block rest ih =>
    unfold firstBlock at first
    rw [List.findIdx?_cons] at first
    unfold firstOf
    rw [List.flatten_cons, List.find?_append]
    by_cases mentioned : mentions key block cell = true
    · rw [if_pos mentioned] at first
      cases first
      cases at_
      obtain ⟨use, member, isKey⟩ := mentions_iff.1 mentioned
      have found : (uses.find? fun use => decide (key use = some cell)).isSome = true :=
        List.find?_isSome.mpr ⟨use, member, by simpa using isKey⟩
      exact Option.or_of_isSome found
    · rw [if_neg mentioned] at first
      obtain ⟨_, firstInRest, isNumber⟩ := Option.map_eq_some_iff.mp first
      subst isNumber
      have none := firstOf_eq_none_iff.2 ((Bool.not_eq_true _).mp mentioned)
      unfold firstOf at none
      rw [none, Option.none_or]
      exact ih at_ firstInRest

theorem runPath_apply (path : List Nat) (cell : κ) : runPath key content blocks path cell =
    if firstBlock key blocks cell ∈ path.map some then
      (firstOf key blocks.flatten cell).bind content
    else none := by
  induction path using List.reverseRecOn with
  | nil => rfl
  | append_singleton path number ih =>
    rw [runPath_append_singleton, List.map_append, List.map_singleton]
    by_cases first : firstBlock key blocks cell = some number
    · obtain ⟨⟨uses, at_, mentioned⟩, fresh⟩ := firstBlock_eq_some_iff.1 first
      rw [if_pos (by simp [first]), firstOf_flatten at_ first]
      unfold fill
      rw [if_neg fresh, at_, Option.getD_some]
      cases found : firstOf key uses cell with
      | none =>
        rw [firstOf_eq_none_iff.1 found] at mentioned
        cases mentioned
      | some use => rfl
    · have kept : fill key content (seenBefore key blocks number) ((blocks[number]?).getD [])
          (runPath key content blocks path) cell = runPath key content blocks path cell := by
        unfold fill
        by_cases member : cell ∈ seenBefore key blocks number
        · rw [if_pos member]
        · rw [if_neg member]
          cases found : firstOf key ((blocks[number]?).getD []) cell with
          | none => rfl
          | some use =>
            exfalso
            apply first
            obtain ⟨inUses, isKey⟩ := firstOf_key found
            cases at_ : blocks[number]? with
            | none =>
              rw [at_] at inUses
              simp at inUses
            | some uses =>
              rw [at_] at inUses
              exact firstBlock_eq_some_iff.2 ⟨⟨uses, at_, mentions_iff.2 ⟨use, inUses, isKey⟩⟩, member⟩
      rw [kept, ih]
      simp [first]

end FirstUse
