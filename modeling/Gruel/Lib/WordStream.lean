import Mathlib.Data.List.Basic

/-!
Decoders over a flat word array.  A decoder reads a value at the front of a slice
and says how many words it took; a counted loop of decoders reads a sequence.
-/

namespace WordStream

variable {Word α Item : Type}
variable {offset count stop size : Nat} {data other : List Word}
variable {patch : Word → Word} {locate : List Word → Option (Nat × Nat)}

abbrev Decoder (Word α : Type) := List Word → Option (α × Nat)

def decodeMany (decode : Decoder Word α) (data : List Word) : Nat → Nat → Option (List α × Nat)
  | 0, offset => some ([], offset)
  | count + 1, offset => do
      let (value, consumed) ← decode (data.drop offset)
      let (values, stop) ← decodeMany decode data count (offset + consumed)
      some (value :: values, stop)

def Reads (decode : Decoder Word α) (words : List Word) (value : α) : Prop :=
  ∀ rest, decode (words ++ rest) = some (value, words.length)

theorem decodeMany_of_reads {decode : Decoder Word α} {encode : Item → List Word}
    {view : Item → α} (items : List Item)
    (each : ∀ item ∈ items, Reads decode (encode item) (view item)) (before rest : List Word) :
    decodeMany decode (before ++ items.flatMap encode ++ rest) items.length before.length =
      some (items.map view, before.length + (items.flatMap encode).length) := by
  induction items generalizing before with
  | nil => simp [decodeMany]
  | cons item items ih =>
    have first := each item (.head _) (items.flatMap encode ++ rest)
    have others := ih (fun other member => each other (.tail _ member)) (before ++ encode item)
    have slice : (before ++ (item :: items).flatMap encode ++ rest).drop before.length =
        encode item ++ (items.flatMap encode ++ rest) := by
      simp
    have regroup : before ++ (item :: items).flatMap encode ++ rest =
        before ++ encode item ++ items.flatMap encode ++ rest := by
      simp
    simp only [List.length_append] at others
    simp only [decodeMany, List.length_cons, slice, first, Option.bind_eq_bind, Option.bind_some, List.map_cons]
    rw [regroup, others]
    simp [Nat.add_assoc]

theorem decodeMany_all {decode : Decoder Word α} {encode : Item → List Word} {view : Item → α}
    (items : List Item) (each : ∀ item ∈ items, Reads decode (encode item) (view item))
    (before : List Word) {rest words : List Word}
    (laidOut : words = before ++ items.flatMap encode ++ rest) (counted : count = items.length)
    (starts : offset = before.length) :
    decodeMany decode words count offset = some (items.map view, before.length + (items.flatMap encode).length) := by
  subst laidOut counted starts
  exact decodeMany_of_reads items each before rest

structure Local (decode : Decoder Word α) (Admitted : α → Prop) : Prop where
  inside : ∀ {data value size}, decode data = some (value, size) → Admitted value → size ≤ data.length
  same : ∀ {data value size other}, decode data = some (value, size) → Admitted value →
    other.take size = data.take size → decode other = some (value, size)

variable {decode : Decoder Word α} {Admitted : α → Prop}

variable {values : List α}

theorem decodeMany_succ (decoded : decodeMany decode data (count + 1) offset = some (values, stop)) :
    ∃ value size rest, decode (data.drop offset) = some (value, size) ∧
      decodeMany decode data count (offset + size) = some (rest, stop) ∧
      values = value :: rest := by
  obtain ⟨⟨value, size⟩, first, decoded⟩ := Option.bind_eq_some_iff.mp decoded
  obtain ⟨⟨rest, _⟩, others, decoded⟩ := Option.bind_eq_some_iff.mp decoded
  obtain ⟨rfl, rfl⟩ := decoded
  exact ⟨value, size, rest, first, others, rfl⟩

theorem decodeMany_cons {value : α} {rest : List α} (first : decode (data.drop offset) = some (value, size))
    (others : decodeMany decode data count (offset + size) = some (rest, stop)) :
    decodeMany decode data (count + 1) offset = some (value :: rest, stop) := by
  simp [decodeMany, first, others]

theorem le_of_decodeMany (decoded : decodeMany decode data count offset = some (values, stop)) : offset ≤ stop := by
  induction count generalizing offset values with
  | zero =>
    cases decoded
    exact Nat.le_refl _
  | succ count ih =>
    obtain ⟨_, _, _, _, others, rfl⟩ := decodeMany_succ decoded
    have bound := ih others
    omega

theorem stop_le_length_of_decodeMany (isLocal : Local decode Admitted)
    (decoded : decodeMany decode data count offset = some (values, stop))
    (admitted : ∀ value ∈ values, Admitted value) (starts : offset ≤ data.length) :
    stop ≤ data.length := by
  induction count generalizing offset values with
  | zero =>
    cases decoded
    exact starts
  | succ count ih =>
    obtain ⟨value, _, _, first, others, rfl⟩ := decodeMany_succ decoded
    have size_le := isLocal.inside first (admitted value (.head _))
    rw [List.length_drop] at size_le
    exact ih others (fun other member => admitted other (.tail _ member)) (by omega)

theorem take_drop_congr {otherOffset : Nat}
    (agree : ∀ index, index < size → other[otherOffset + index]? = data[offset + index]?) :
    (other.drop otherOffset).take size = (data.drop offset).take size := by
  apply List.ext_getElem?
  intro index
  by_cases inside : index < size
  · rw [List.getElem?_take_of_lt inside, List.getElem?_take_of_lt inside, List.getElem?_drop, List.getElem?_drop]
    exact agree index inside
  · rw [List.getElem?_take_eq_none (by omega), List.getElem?_take_eq_none (by omega)]

theorem decodeMany_moved (isLocal : Local decode Admitted) {shift : Nat}
    (decoded : decodeMany decode data count offset = some (values, stop))
    (admitted : ∀ value ∈ values, Admitted value)
    (agree : ∀ index, offset ≤ index → index < stop → other[shift + index]? = data[index]?) :
    decodeMany decode other count (shift + offset) = some (values, shift + stop) := by
  induction count generalizing offset values with
  | zero =>
    cases decoded
    rfl
  | succ count ih =>
    obtain ⟨value, size, _, first, others, rfl⟩ := decodeMany_succ decoded
    have inside := le_of_decodeMany others
    have firstAgain : decode (other.drop (shift + offset)) = some (value, size) := by
      apply isLocal.same first (admitted value (.head _))
      apply take_drop_congr
      intro index _
      rw [Nat.add_assoc]
      exact agree (offset + index) (by omega) (by omega)
    have othersAgain := ih others (fun other member => admitted other (.tail _ member))
      (fun index lower upper => agree index (by omega) upper)
    rw [← Nat.add_assoc] at othersAgain
    exact decodeMany_cons firstAgain othersAgain

theorem decodeMany_same (isLocal : Local decode Admitted)
    (decoded : decodeMany decode data count offset = some (values, stop))
    (admitted : ∀ value ∈ values, Admitted value) (within : stop ≤ size)
    (same : other.take size = data.take size) :
    decodeMany decode other count offset = some (values, stop) := by
  have agree : ∀ index, offset ≤ index → index < stop → other[0 + index]? = data[index]? := by
    intro index _ _
    rw [Nat.zero_add, ← List.getElem?_take_of_lt (by omega : index < size), same, List.getElem?_take_of_lt (by omega)]
  have moved := decodeMany_moved isLocal decoded admitted agree
  rwa [Nat.zero_add, Nat.zero_add] at moved

theorem decodeMany_of_drop (same : other.drop offset = data.drop offset) :
    decodeMany decode other count offset = decodeMany decode data count offset := by
  induction count generalizing offset with
  | zero => rfl
  | succ count ih =>
    simp only [decodeMany, same]
    congr 1
    funext ⟨value, size⟩
    have later : other.drop (offset + size) = data.drop (offset + size) := by
      rw [← List.drop_drop, ← List.drop_drop, same]
    rw [ih later]

def patchAt (patch : Word → Word) (position : Nat) (data : List Word) : Option (List Word) :=
  if position < data.length then some (data.modify position patch) else none

/-- `locate` says where the word to rewrite stands in an item and how long the item is. -/
def patchMany (patch : Word → Word) (locate : List Word → Option (Nat × Nat)) :
    Nat → Nat → List Word → Option (List Word)
  | 0, _, data => some data
  | count + 1, offset, data => do
      let (position, size) ← locate (data.drop offset)
      let patched ← patchAt patch (offset + position) data
      patchMany patch locate count (offset + size) patched

/-- Rewriting the located word turns an item into its `shift`. -/
structure Patchable (decode : Decoder Word α) (Admitted : α → Prop) (patch : Word → Word)
    (locate : List Word → Option (Nat × Nat)) (shift : α → α) : Prop
    extends Local decode Admitted where
  patched : ∀ {data value size}, decode data = some (value, size) → Admitted value →
    ∃ position, locate data = some (position, size) ∧ position < size ∧
      decode (data.modify position patch) = some (shift value, size)
  admitted_shift : ∀ {value}, Admitted value → Admitted (shift value)

theorem drop_modify (data : List Word) (patch : Word → Word) (offset position : Nat) :
    (data.modify (offset + position) patch).drop offset = (data.drop offset).modify position patch := by
  apply List.ext_getElem?
  intro _
  rw [List.getElem?_drop, List.getElem?_modify, List.getElem?_modify, List.getElem?_drop]
  simp

theorem patchMany_spec {shift : α → α} (patchable : Patchable decode Admitted patch locate shift)
    (decoded : decodeMany decode data count offset = some (values, stop))
    (admitted : ∀ value ∈ values, Admitted value) :
    ∃ result, patchMany patch locate count offset data = some result ∧ result.length = data.length ∧
      decodeMany decode result count offset = some (values.map shift, stop) ∧
      ∀ index, index < offset ∨ stop ≤ index → result[index]? = data[index]? := by
  induction count generalizing offset values data with
  | zero =>
    cases decoded
    exact ⟨data, rfl, rfl, rfl, fun _ _ => rfl⟩
  | succ count ih =>
    obtain ⟨value, size, rest, first, others, rfl⟩ := decodeMany_succ decoded
    have valueAdmitted := admitted value (.head _)
    obtain ⟨position, located, _, shifted⟩ := patchable.patched first valueAdmitted
    have fits := patchable.inside first valueAdmitted
    rw [List.length_drop] at fits
    have othersStop := le_of_decodeMany others
    let middle := data.modify (offset + position) patch
    have laterSame : middle.drop (offset + size) = data.drop (offset + size) := by
      apply List.ext_getElem?
      intro index
      rw [List.getElem?_drop, List.getElem?_drop, List.getElem?_modify_ne _ _ (by omega)]
    have othersMiddle : decodeMany decode middle count (offset + size) = some (rest, stop) := by
      rw [decodeMany_of_drop laterSame]
      exact others
    obtain ⟨result, patchedRest, sameLength, decodedRest, outside⟩ := ih othersMiddle
      (fun other member => admitted other (.tail _ member))
    have firstMiddle : decode (middle.drop offset) = some (shift value, size) := by
      rw [drop_modify]
      exact shifted
    have firstResult : decode (result.drop offset) = some (shift value, size) := by
      apply patchable.same firstMiddle (patchable.admitted_shift valueAdmitted)
      apply take_drop_congr
      intro index _
      exact outside (offset + index) (.inl (by omega))
    refine ⟨result, ?_, ?_, decodeMany_cons firstResult decodedRest, ?_⟩
    · simp only [patchMany, located, Option.bind_eq_bind, Option.bind_some, patchAt]
      rw [if_pos (by omega)]
      exact patchedRest
    · rw [sameLength]
      exact List.length_modify _ _ _
    · intro index _
      have apart : offset + position ≠ index := by omega
      rw [outside index (by omega), List.getElem?_modify_ne _ _ apart]

theorem patchMany_same (unchanged : ∀ word, patch word = word) {result : List Word}
    (patched : patchMany patch locate count offset data = some result) : result = data := by
  have isId : patch = id := funext unchanged
  induction count generalizing offset data with
  | zero =>
    cases patched
    rfl
  | succ count ih =>
    obtain ⟨⟨_, _⟩, _, patched⟩ := Option.bind_eq_some_iff.mp patched
    obtain ⟨middle, first, others⟩ := Option.bind_eq_some_iff.mp patched
    have sameMiddle : middle = data := by
      unfold patchAt at first
      split at first
      · simpa [isId] using first.symm
      · cases first
    rw [ih others, sameMiddle]

end WordStream
