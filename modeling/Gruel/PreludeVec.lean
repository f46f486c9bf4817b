import Mathlib.Tactic
import Gruel.PreludeVecCore

/-!
What each operation of the prelude's `Vec(T)` does to the elements a vector
holds: one specification for each operation, from the representation of the
vector before it to that of the vector after it.
-/

namespace Gruel.PreludeVec

open TotalRun Blocks

variable {V : Type} {size : Nat}

theorem usizeAdd_eq {left right : Nat} (fits : left + right < usizeLimit) :
    usizeAdd left right = left + right := Nat.mod_eq_of_lt fits

theorem usizeMul_eq {left right : Nat} (fits : left * right < usizeLimit) :
    usizeMul left right = left * right := Nat.mod_eq_of_lt fits

/-- A vector whose buffer is a live heap block with room for `cap` elements. -/
structure OwnedVec (size : Nat) (memory : Memory V) (v : VecRep) (id : Nat) (elements : List V) :
    Prop where
  ptr : v.ptr = .block id
  len : v.len = elements.length
  positive : v.cap ≠ 0
  fits : v.cap < usizeLimit
  bytes : v.cap * size < usizeLimit
  region : Region size memory id true v.cap elements

structure StaticVec (size : Nat) (memory : Memory V) (v : VecRep) (id : Nat) (elements : List V) :
    Prop where
  ptr : v.ptr = .block id
  len : v.len = elements.length
  cap : v.cap = 0
  fits : elements.length < usizeLimit
  bytes : elements.length * size < usizeLimit
  region : Region size memory id false elements.length elements

inductive Represents (size : Nat) (memory : Memory V) (v : VecRep) (elements : List V) : Prop
  | null (vacant : v = vecNew) (empty : elements = [])
  | static (id : Nat) (holds : StaticVec size memory v id elements)
  | owned (id : Nat) (holds : OwnedVec size memory v id elements)

namespace Represents

variable {memory : Memory V} {v : VecRep} {elements : List V}

section

variable (holds : Represents size memory v elements)
include holds

theorem len_eq : v.len = elements.length := by
  rcases holds with ⟨rfl, rfl⟩ | ⟨id, holds⟩ | ⟨id, holds⟩
  · rfl
  · exact holds.len
  · exact holds.len

theorem length_lt : elements.length < usizeLimit := by
  rcases holds with ⟨rfl, rfl⟩ | ⟨id, holds⟩ | ⟨id, holds⟩
  · exact Nat.two_pow_pos 64
  · exact holds.fits
  · exact Nat.lt_of_le_of_lt holds.region.within holds.fits

theorem bytes_lt : elements.length * size < usizeLimit := by
  rcases holds with ⟨rfl, rfl⟩ | ⟨id, holds⟩ | ⟨id, holds⟩
  · rw [List.length_nil, Nat.zero_mul]
    exact Nat.two_pow_pos 64
  · exact holds.bytes
  · exact Nat.lt_of_le_of_lt (Nat.mul_le_mul_right size holds.region.within) holds.bytes

theorem read_eq {index : Nat} {value : V} (here : elements[index]? = some value) :
    read size memory v.ptr index = .ok value := by
  rcases holds with ⟨rfl, rfl⟩ | ⟨id, holds⟩ | ⟨id, holds⟩
  · simp at here
  · rw [holds.ptr]
    exact holds.region.read_eq here
  · rw [holds.ptr]
    exact holds.region.read_eq here

theorem frame {touched : Ptr} {after : Memory V} (frame : Frame touched memory after)
    (apart : touched = v.ptr → v.ptr = .null) : Represents size after v elements := by
  have other : ∀ id, v.ptr = .block id → touched ≠ .block id := by
    intro id here same
    rw [here] at apart
    cases apart same
  rcases holds with ⟨vacant, empty⟩ | ⟨id, holds⟩ | ⟨id, holds⟩
  · exact .null vacant empty
  · exact .static id { holds with region := holds.region.frame frame (other id holds.ptr) }
  · exact .owned id { holds with region := holds.region.frame frame (other id holds.ptr) }

theorem ptr_lt {id : Nat} (here : v.ptr = .block id) : id < memory.length := by
  rcases holds with ⟨rfl, rfl⟩ | ⟨other, holds⟩ | ⟨other, holds⟩
  · cases here
  · rw [holds.ptr, Ptr.block.injEq] at here
    exact here ▸ holds.region.lt_length
  · rw [holds.ptr, Ptr.block.injEq] at here
    exact here ▸ holds.region.lt_length

end

end Represents

/-- What an operation did: the vector it leaves, the block it may have changed, where the buffer
is now, and the elements it released. -/
structure Updated (size : Nat) (touched : Ptr) (before : VecHeap V) (released : List V)
    (elements : List V) (v : VecRep) (after : VecHeap V) : Prop where
  represents : Represents size after.memory v elements
  frame : Frame touched before.memory after.memory
  place : v.ptr = .null ∨ v.ptr = touched ∨ ∃ id, v.ptr = .block id ∧ before.memory.length ≤ id
  log : after.released = before.released ++ released

theorem updated_same {heap : VecHeap V} {v : VecRep} {elements : List V}
    (holds : Represents size heap.memory v elements) :
    Updated size v.ptr heap [] elements v heap :=
  ⟨holds, Frame.refl _ _, .inr (.inl rfl), by simp⟩

theorem yields_readAt {heap : VecHeap V} {pointer : Ptr} {index : Nat} {value : V}
    (reads : read size heap.memory pointer index = .ok value) :
    Yields (readAt size pointer index) heap fun result after => result = value ∧ after = heap :=
  ⟨value, heap, by simp [readAt, reads], rfl, rfl⟩

theorem yields_readSlice {heap : VecHeap V} {slice : Slice V} {index : Nat} {value : V}
    (here : slice.elements[index]? = some value) :
    Yields (readSlice slice index) heap fun result after => result = value ∧ after = heap := by
  simp only [readSlice, here]
  exact yields_pure ⟨rfl, rfl⟩

theorem yields_writeAt {heap : VecHeap V} {id capacity index : Nat} {elements : List V}
    (region : Region size heap.memory id true capacity elements) (inside : index < capacity)
    (reached : index ≤ elements.length) (value : V) :
    Yields (writeAt size (.block id) index value) heap fun _ after =>
      Frame (.block id) heap.memory after.memory ∧ after.released = heap.released ∧
      Region size after.memory id true capacity (elements.take index ++ value :: elements.drop (index + 1)) := by
  obtain ⟨after, wrote, frame, holds⟩ := region.write_eq inside reached value
  exact ⟨(), { heap with memory := after }, by simp [writeAt, wrote], frame, rfl, holds⟩

theorem yields_writeAt_end {heap : VecHeap V} {id capacity index : Nat} {elements : List V}
    (region : Region size heap.memory id true capacity elements) (inside : index < capacity)
    (reached : index = elements.length) (value : V) :
    Yields (writeAt size (.block id) index value) heap fun _ after =>
      Frame (.block id) heap.memory after.memory ∧ after.released = heap.released ∧
      Region size after.memory id true capacity (elements ++ [value]) := by
  have wrote := yields_writeAt region inside (Nat.le_of_eq reached) value
  subst reached
  rwa [List.take_length, List.drop_eq_nil_of_le (by omega)] at wrote

theorem yields_memAlloc (heap : VecHeap V) {bytes capacity : Nat} (fits : capacity * size ≤ bytes) :
    Yields (memAlloc bytes) heap fun pointer after =>
      pointer = .block heap.memory.length ∧ Frame .null heap.memory after.memory ∧
      after.released = heap.released ∧
      Region size after.memory heap.memory.length true capacity [] := by
  obtain ⟨frame, region⟩ := malloc_region heap.memory fits
  exact ⟨_, _, rfl, rfl, frame, rfl, region⟩

theorem yields_memRealloc {heap : VecHeap V} {id capacity bytes larger : Nat} {elements : List V}
    (region : Region size heap.memory id true capacity elements) (fits : larger * size ≤ bytes)
    (room : elements.length ≤ larger) :
    Yields (memRealloc size (.block id) bytes) heap fun pointer after =>
      pointer = .block heap.memory.length ∧ Frame (.block id) heap.memory after.memory ∧
      after.released = heap.released ∧
      Region size after.memory heap.memory.length true larger elements := by
  obtain ⟨after, moved, frame, holds⟩ := realloc_region region fits room
  exact ⟨_, { heap with memory := after }, by simp [memRealloc, moved], rfl, frame, rfl, holds⟩

theorem yields_memFree {heap : VecHeap V} {id capacity : Nat} {elements : List V}
    (region : Region size heap.memory id true capacity elements) :
    Yields (memFree (.block id)) heap fun _ after =>
      Frame (.block id) heap.memory after.memory ∧ after.released = heap.released := by
  obtain ⟨after, freed, frame⟩ := region.free_eq
  exact ⟨(), { heap with memory := after }, by simp [memFree, freed], frame, rfl⟩

theorem yields_copyElements {heap : VecHeap V} (source : Nat → VecRun V V) (place : Nat → Nat)
    {dst capacity : Nat} {front : List V} (elements : List V)
    (region : Region size heap.memory dst true capacity front)
    (room : front.length + elements.length ≤ capacity)
    (places : ∀ index, index < elements.length → place index = front.length + index)
    (reads : ∀ index value (now : VecHeap V), elements[index]? = some value →
      Frame (.block dst) heap.memory now.memory →
      Yields (source index) now fun result after => result = value ∧ after = now) :
    Yields (copyElements size source (.block dst) place elements.length) heap fun _ after =>
      Frame (.block dst) heap.memory after.memory ∧ after.released = heap.released ∧
      Region size after.memory dst true capacity (front ++ elements) := by
  let invariant : Nat → VecHeap V → Prop := fun index now =>
    Frame (.block dst) heap.memory now.memory ∧ now.released = heap.released ∧
      Region size now.memory dst true capacity (front ++ elements.take index)
  have start : invariant 0 heap := ⟨Frame.refl _ _, rfl, by simpa using region⟩
  have copied : Yields (loopFrom (fun index => do
      let x ← source index
      writeAt size (.block dst) (place index) x
      pure (none : Option Unit)) elements.length 0) heap fun _ now => invariant elements.length now := by
    refine yields_loopFrom invariant start ?_ (fun now holds => holds)
    intro index now inside holds
    obtain ⟨frame, log, holds⟩ := holds
    have here : elements[index]? = some elements[index] := List.getElem?_eq_getElem inside
    refine yields_bind (reads index _ now here frame) ?_
    rintro value after ⟨rfl, rfl⟩
    have reached : place index = (front ++ elements.take index).length := by
      rw [places index inside, List.length_append, List.length_take]
      omega
    refine yields_bind (yields_writeAt_end holds (by rw [places index inside]; omega) reached _) ?_
    rintro _ _ ⟨wrote, unchanged, grown⟩
    refine yields_pure ⟨frame.trans wrote, unchanged.trans log, ?_⟩
    rwa [List.append_assoc, List.take_append_getElem inside] at grown
  refine yields_bind copied ?_
  rintro result now ⟨frame, log, holds⟩
  rw [List.take_length] at holds
  exact yields_pure ⟨frame, log, holds⟩

theorem yields_dropElements {heap : VecHeap V} {pointer : Ptr} {elements : List V}
    (reads : ∀ index value, elements[index]? = some value → read size heap.memory pointer index = .ok value) :
    Yields (dropElements size pointer elements.length) heap fun _ after =>
      after.memory = heap.memory ∧ after.released = heap.released ++ elements := by
  let invariant : Nat → VecHeap V → Prop := fun index now =>
    now.memory = heap.memory ∧ now.released = heap.released ++ elements.take index
  have dropped : Yields (loopFrom (fun index => do
      let x ← readAt size pointer index
      release x
      pure (none : Option Unit)) elements.length 0) heap fun _ now => invariant elements.length now := by
    refine yields_loopFrom invariant ⟨rfl, by simp⟩ ?_ (fun now holds => holds)
    rintro index now inside ⟨same, log⟩
    have here : elements[index]? = some elements[index] := List.getElem?_eq_getElem inside
    refine yields_bind (yields_readAt (by rw [same]; exact reads index _ here)) ?_
    rintro value after ⟨rfl, rfl⟩
    refine ⟨none, { after with released := after.released ++ [elements[index]] }, rfl, same, ?_⟩
    rw [log, List.append_assoc, List.take_append_getElem inside]
  refine yields_bind dropped ?_
  rintro _ now ⟨same, log⟩
  rw [List.take_length] at log
  exact yields_pure ⟨same, log⟩

structure Grown (size : Nat) (touched : Ptr) (before : VecHeap V) (elements : List V) (cap : Nat)
    (v : VecRep) (after : VecHeap V) : Prop where
  owned : ∃ id, OwnedVec size after.memory v id elements ∧ (v.ptr = touched ∨ before.memory.length ≤ id)
  cap_eq : v.cap = cap
  frame : Frame touched before.memory after.memory
  log : after.released = before.released

theorem Grown.updated {touched : Ptr} {before after : VecHeap V} {elements : List V} {cap : Nat}
    {v : VecRep} (grown : Grown size touched before elements cap v after) :
    Updated size touched before [] elements v after := by
  obtain ⟨id, owned, place⟩ := grown.owned
  refine ⟨.owned id owned, grown.frame, ?_, by simp [grown.log]⟩
  rcases place with same | fresh
  · exact .inr (.inl same)
  · exact .inr (.inr ⟨id, owned.ptr, fresh⟩)

theorem grown_same {heap : VecHeap V} {v : VecRep} {id : Nat} {elements : List V}
    (owned : OwnedVec size heap.memory v id elements) :
    Grown size v.ptr heap elements v.cap v heap :=
  ⟨⟨id, owned, .inl rfl⟩, rfl, Frame.refl _ _, rfl⟩

section Growth

variable {heap : VecHeap V} {v : VecRep} {elements : List V} {newCap : Nat}

theorem yields_growFirst (holds : Represents size heap.memory v elements) (positive : newCap ≠ 0)
    (room : elements.length ≤ newCap) (fits : newCap < usizeLimit)
    (bytes : newCap * size < usizeLimit) :
    Yields (growFirst size v newCap) heap fun grown after =>
      Grown size v.ptr heap elements newCap grown after := by
  have enough : newCap * size ≤ usizeMul newCap size := Nat.le_of_eq (usizeMul_eq bytes).symm
  refine yields_bind (yields_memAlloc heap enough) ?_
  rintro _ middle ⟨rfl, allocated, unchanged, region⟩
  have apart : ∀ id, v.ptr = .block id → id < heap.memory.length := fun id => holds.ptr_lt
  have kept : Represents size middle.memory v elements := by
    refine holds.frame allocated ?_
    intro same
    exact same.symm
  have copied : Yields (copyElements size (readAt size v.ptr) (.block heap.memory.length) id
      elements.length) middle fun _ after =>
        Frame (.block heap.memory.length) middle.memory after.memory ∧
        after.released = middle.released ∧
        Region size after.memory heap.memory.length true newCap ([] ++ elements) := by
    refine yields_copyElements _ _ elements region (by simpa using room) (by intro index _; simp) ?_
    intro index _ _ here frame
    have still := kept.frame frame (by
      intro same
      have old := apart _ same.symm
      omega)
    exact yields_readAt (still.read_eq here)
  rw [← holds.len_eq] at copied
  refine yields_bind copied ?_
  rintro _ after ⟨frame, log, filled⟩
  refine yields_pure ⟨⟨heap.memory.length, ⟨rfl, holds.len_eq, positive, fits, bytes, ?_⟩,
    .inr (Nat.le_refl _)⟩, rfl, ?_, log.trans unchanged⟩
  · rwa [List.nil_append] at filled
  · exact allocated.of_null.trans_fresh (Nat.le_refl _) frame

theorem yields_growAgain (holds : v = vecNew ∧ elements = [] ∨ ∃ id, OwnedVec size heap.memory v id elements)
    (positive : newCap ≠ 0) (room : elements.length ≤ newCap) (fits : newCap < usizeLimit)
    (bytes : newCap * size < usizeLimit) :
    Yields (growAgain size v newCap) heap fun grown after =>
      Grown size v.ptr heap elements newCap grown after := by
  have enough : newCap * size ≤ usizeMul newCap size := Nat.le_of_eq (usizeMul_eq bytes).symm
  rcases holds with ⟨rfl, rfl⟩ | ⟨id, owned⟩
  · obtain ⟨frame, region⟩ := malloc_region heap.memory enough
    have allocated : Yields (memRealloc size .null (usizeMul newCap size)) heap
        fun pointer after => pointer = .block heap.memory.length ∧
          Frame .null heap.memory after.memory ∧ after.released = heap.released ∧
          Region size after.memory heap.memory.length true newCap [] :=
      ⟨_, _, rfl, rfl, frame, rfl, region⟩
    refine yields_bind allocated ?_
    rintro _ after ⟨rfl, frame, log, region⟩
    exact yields_pure ⟨⟨_, ⟨rfl, rfl, positive, fits, bytes, region⟩, .inr (Nat.le_refl _)⟩, rfl, frame, log⟩
  · have moved := yields_memRealloc owned.region enough room
    rw [← owned.ptr] at moved
    refine yields_bind moved ?_
    rintro _ after ⟨rfl, frame, log, region⟩
    exact yields_pure ⟨⟨_, ⟨rfl, owned.len, positive, fits, bytes, region⟩, .inr (Nat.le_refl _)⟩, rfl, frame, log⟩

end Growth

def CanGrow (size cap : Nat) : Prop := cap * 2 < usizeLimit ∧ grownCap cap * size < usizeLimit

instance (size cap : Nat) : Decidable (CanGrow size cap) := inferInstanceAs (Decidable (_ ∧ _))

theorem CanGrow.grownCap_eq {cap : Nat} (grows : CanGrow size cap) :
    grownCap cap = if cap = 0 then 4 else cap * 2 := by
  rw [grownCap, usizeMul_eq grows.1]

theorem CanGrow.lt_grownCap {cap : Nat} (grows : CanGrow size cap) : cap < grownCap cap := by
  rw [grows.grownCap_eq]
  split <;> omega

theorem grownCap_lt (cap : Nat) : grownCap cap < usizeLimit := by
  rw [grownCap]
  split
  · decide
  · exact Nat.mod_lt _ (Nat.two_pow_pos 64)

theorem Grown.yields_writeAt {touched : Ptr} {heap middle : VecHeap V} {elements : List V}
    {cap : Nat} {v : VecRep} (grown : Grown size touched heap elements cap v middle)
    (room : elements.length < cap) (value : V) :
    Yields (writeAt size v.ptr v.len value) middle fun _ after =>
      ∃ id, v.ptr = .block id ∧ (v.ptr = touched ∨ heap.memory.length ≤ id) ∧
        Frame touched heap.memory after.memory ∧ after.released = heap.released ∧
        Region size after.memory id true v.cap (elements ++ [value]) := by
  obtain ⟨id, owned, place⟩ := grown.owned
  rw [owned.ptr, owned.len]
  refine yields_mono (yields_writeAt_end owned.region (by rw [grown.cap_eq]; exact room) rfl value) ?_
  rintro _ after ⟨frame, log, region⟩
  refine ⟨id, rfl, by rwa [← owned.ptr], ?_, log.trans grown.log, region⟩
  rcases place with same | fresh
  · rw [owned.ptr] at same
    rw [← same]
    rw [← same] at grown
    exact grown.frame.trans frame
  · exact grown.frame.trans_fresh fresh frame

section Operations

variable {heap : VecHeap V} {v : VecRep} {elements : List V}

theorem Represents.owned_of_cap (holds : Represents size heap.memory v elements)
    (positive : v.cap ≠ 0) : ∃ id, OwnedVec size heap.memory v id elements := by
  rcases holds with ⟨rfl, -⟩ | ⟨id, holds⟩ | ⟨id, holds⟩
  · exact absurd rfl positive
  · exact absurd holds.cap positive
  · exact ⟨id, holds⟩

def PushSafe (size : Nat) (v : VecRep) : Prop :=
  (v.cap = 0 → v.len = 0) ∧ (v.len = v.cap → CanGrow size v.cap)

instance (size : Nat) (v : VecRep) : Decidable (PushSafe size v) :=
  inferInstanceAs (Decidable (_ ∧ _))

theorem yields_vecPush (holds : Represents size heap.memory v elements) (safe : PushSafe size v) (value : V) :
    Yields (vecPush size v value) heap fun pushed after =>
      Updated size v.ptr heap [] (elements ++ [value]) pushed after := by
  have len := holds.len_eq
  have grown : Yields (growForPush size v) heap fun grown after =>
      ∃ cap, elements.length < cap ∧ Grown size v.ptr heap elements cap grown after := by
    rw [growForPush]
    by_cases full : v.len = v.cap
    · have grows := safe.2 full
      have more := grows.lt_grownCap
      rw [if_pos full]
      by_cases first : v.cap = 0
      · rw [if_pos first]
        refine yields_mono (yields_growFirst holds (by omega) (by omega) (grownCap_lt _) grows.2) ?_
        intro _ after grown
        exact ⟨_, by omega, grown⟩
      · rw [if_neg first]
        refine yields_mono (yields_growAgain (.inr (holds.owned_of_cap first)) (by omega)
          (by omega) (grownCap_lt _) grows.2) ?_
        intro _ after grown
        exact ⟨_, by omega, grown⟩
    · rw [if_neg full]
      have positive : v.cap ≠ 0 := fun none => full ((safe.1 none).trans none.symm)
      obtain ⟨id, owned⟩ := holds.owned_of_cap positive
      have within := owned.region.within
      exact yields_pure ⟨v.cap, by omega, grown_same owned⟩
  refine yields_bind grown ?_
  rintro grown _ ⟨cap, room, holds⟩
  obtain ⟨_, before, -⟩ := holds.owned
  refine yields_bind (holds.yields_writeAt room value) ?_
  rintro _ after ⟨id, ptr, place, frame, log, region⟩
  have fits : elements.length + 1 < usizeLimit := by
    have bound := before.fits
    rw [holds.cap_eq] at bound
    omega
  refine yields_pure ⟨.owned id ⟨ptr, ?_, before.positive, before.fits, before.bytes, region⟩,
    frame, ?_, by simp [log]⟩
  · simp only [List.length_append, List.length_singleton]
    rw [before.len, usizeAdd_eq fits]
  · rcases place with same | fresh
    · exact .inr (.inl same)
    · exact .inr (.inr ⟨id, ptr, fresh⟩)

theorem Represents.take (holds : Represents size heap.memory v elements) {fewer : List V}
    (start : fewer <+: elements) :
    Represents size heap.memory { v with len := fewer.length } fewer := by
  have shorter := start.length_le
  rcases holds with ⟨rfl, rfl⟩ | ⟨id, holds⟩ | ⟨id, holds⟩
  · rw [List.prefix_nil] at start
    subst start
    exact .null rfl rfl
  · exact .static id ⟨holds.ptr, rfl, holds.cap, Nat.lt_of_le_of_lt shorter holds.fits,
      Nat.lt_of_le_of_lt (Nat.mul_le_mul_right size shorter) holds.bytes,
      (holds.region.take start).shrink (Nat.le_refl _) shorter⟩
  · exact .owned id ⟨holds.ptr, rfl, holds.positive, holds.fits, holds.bytes, holds.region.take start⟩

theorem yields_vecPop {last : V} (holds : Represents size heap.memory v (elements ++ [last])) :
    Yields (vecPop size v) heap fun popped after =>
      popped.1 = last ∧ Updated size v.ptr heap [] elements popped.2 after := by
  have len := holds.len_eq
  rw [List.length_append, List.length_singleton] at len
  have filled : ¬ v.len = 0 := by omega
  have shorter : v.len - 1 = elements.length := by omega
  have here : (elements ++ [last])[elements.length]? = some last := by simp
  simp only [vecPop, if_neg filled, shorter]
  refine yields_bind (yields_readAt (holds.read_eq here)) ?_
  rintro _ after ⟨rfl, rfl⟩
  exact yields_pure ⟨rfl, holds.take (List.prefix_append _ _), Frame.refl _ _, .inr (.inl rfl), by simp⟩

theorem vecPop_empty (holds : Represents size heap.memory v []) :
    vecPop size v heap = .error (.panic "Vec::pop on empty Vec") := by
  have len : v.len = 0 := holds.len_eq
  simp only [vecPop, if_pos len]
  rfl

def droppedElements (ownership : Ownership) (elements : List V) : List V :=
  if ownership = .affine then elements else []

theorem yields_ifAffine {ownership : Ownership} {action : VecRun V Unit} {released : List V}
    (does : Yields action heap fun _ after =>
      after.memory = heap.memory ∧ after.released = heap.released ++ released) :
    Yields (ifAffine ownership action) heap fun _ after =>
      after.memory = heap.memory ∧
      after.released = heap.released ++ droppedElements ownership released := by
  rw [ifAffine, droppedElements]
  by_cases affine : ownership = .affine
  · rw [if_pos affine, if_pos affine]
    exact does
  · rw [if_neg affine, if_neg affine]
    exact yields_pure ⟨rfl, by simp⟩

theorem yields_dropAll (holds : Represents size heap.memory v elements) (ownership : Ownership) :
    Yields (ifAffine ownership (dropElements size v.ptr v.len)) heap fun _ after =>
      after.memory = heap.memory ∧
      after.released = heap.released ++ droppedElements ownership elements := by
  rw [holds.len_eq]
  exact yields_ifAffine (yields_dropElements fun index value here => holds.read_eq here)

theorem yields_vecClear (holds : Represents size heap.memory v elements) (ownership : Ownership) :
    Yields (vecClear size ownership v) heap fun cleared after =>
      Updated size v.ptr heap (droppedElements ownership elements) [] cleared after := by
  refine yields_bind (yields_dropAll holds ownership) ?_
  rintro _ after ⟨same, log⟩
  have vacant : Represents size heap.memory { v with len := 0 } [] := holds.take List.nil_prefix
  refine yields_pure ⟨by rwa [same], ?_, .inr (.inl rfl), log⟩
  rw [same]
  exact Frame.refl _ _

/-- The sum of length and addition stays within the capacity, or it does not wrap around and the
new capacity's size in bytes does not either. -/
def ReserveSafe (size : Nat) (v : VecRep) (additional : Nat) : Prop :=
  usizeAdd v.len additional ≤ v.cap ∨ v.len + additional < usizeLimit ∧ reserveCap v additional * size < usizeLimit

section

variable (holds : Represents size heap.memory v elements)
include holds

theorem yields_vecReserve {additional : Nat} (safe : ReserveSafe size v additional) :
    Yields (vecReserve size v additional) heap fun reserved after =>
      Updated size v.ptr heap [] elements reserved after ∧
      (elements.length + additional < usizeLimit → elements.length + additional ≤ reserved.cap ∨ additional = 0) := by
  have len := holds.len_eq
  rw [vecReserve]
  by_cases enough : usizeAdd v.len additional ≤ v.cap
  · rw [if_pos enough]
    refine yields_pure ⟨updated_same holds, ?_⟩
    intro fits
    rw [len, usizeAdd_eq fits] at enough
    exact .inl enough
  · obtain ⟨fits, bytes⟩ := safe.resolve_left enough
    rw [usizeAdd_eq fits] at enough
    have larger : v.len + additional ≤ reserveCap v additional := by
      simp only [reserveCap, usizeAdd_eq fits]
      split <;> omega
    have bounded : reserveCap v additional < usizeLimit := by
      simp only [reserveCap, usizeAdd_eq fits]
      split
      · exact fits
      · exact grownCap_lt _
    have grown : Yields (if v.cap = 0 then growFirst size v (reserveCap v additional)
        else growAgain size v (reserveCap v additional)) heap fun grown after =>
          Grown size v.ptr heap elements (reserveCap v additional) grown after := by
      by_cases first : v.cap = 0
      · rw [if_pos first]
        exact yields_growFirst holds (by omega) (by omega) bounded bytes
      · rw [if_neg first]
        exact yields_growAgain (.inr (holds.owned_of_cap first)) (by omega) (by omega) bounded bytes
    rw [if_neg (by rw [usizeAdd_eq fits]; exact enough)]
    refine yields_mono grown ?_
    intro reserved after grown
    refine ⟨grown.updated, fun _ => .inl ?_⟩
    rw [grown.cap_eq]
    omega

theorem yields_vecIndexRead {i : Nat} {value : V} (here : elements[i]? = some value) :
    Yields (vecIndexRead size v i) heap fun result after => result = value ∧ after = heap := by
  have bound := (List.getElem?_eq_some_iff.mp here).1
  have inside : ¬ i ≥ v.len := by
    rw [holds.len_eq]
    omega
  rw [vecIndexRead, if_neg inside]
  exact yields_readAt (holds.read_eq here)

theorem vecIndexRead_outside {i : Nat} (outside : elements[i]? = none) :
    vecIndexRead size v i heap = .error (.panic "Vec index out of bounds") := by
  have past : i ≥ v.len := by
    rw [holds.len_eq]
    exact List.getElem?_eq_none_iff.mp outside
  rw [vecIndexRead, if_pos past]
  rfl

theorem yields_vecIndexWrite (positive : v.cap ≠ 0) (ownership : Ownership) {i : Nat} {old : V}
    (here : elements[i]? = some old) (value : V) :
    Yields (vecIndexWrite size ownership v i value) heap fun _ after =>
      Updated size v.ptr heap (droppedElements ownership [old]) (elements.set i value) v after := by
  have bound := (List.getElem?_eq_some_iff.mp here).1
  have inside : ¬ i ≥ v.len := by
    rw [holds.len_eq]
    omega
  obtain ⟨id, owned⟩ := holds.owned_of_cap positive
  have displaced : Yields (do
      let displaced ← readAt size v.ptr i
      release displaced) heap fun _ after =>
        after.memory = heap.memory ∧ after.released = heap.released ++ [old] := by
    refine yields_bind (yields_readAt (holds.read_eq here)) ?_
    rintro _ after ⟨rfl, rfl⟩
    exact ⟨(), _, rfl, rfl, rfl⟩
  rw [vecIndexWrite, if_neg inside]
  refine yields_bind (yields_ifAffine displaced) ?_
  rintro _ middle ⟨same, log⟩
  have region : Region size middle.memory id true v.cap elements := by
    rw [same]
    exact owned.region
  have within := owned.region.within
  rw [owned.ptr]
  refine yields_mono (yields_writeAt region (by omega) (Nat.le_of_lt bound) value) ?_
  rintro _ after ⟨frame, unchanged, written⟩
  rw [same] at frame
  have replaced : elements.take i ++ value :: elements.drop (i + 1) = elements.set i value := by
    rw [List.set_eq_take_append_cons_drop, if_pos bound]
  rw [replaced] at written
  refine ⟨.owned id ⟨owned.ptr, ?_, owned.positive, owned.fits, owned.bytes, written⟩, frame,
    .inr (.inl owned.ptr), unchanged.trans log⟩
  rw [List.length_set]
  exact owned.len

theorem vecIndexWrite_outside (ownership : Ownership) {i : Nat} (outside : elements[i]? = none) (value : V) :
    vecIndexWrite size ownership v i value heap = .error (.panic "Vec index out of bounds") := by
  have past : i ≥ v.len := by
    rw [holds.len_eq]
    exact List.getElem?_eq_none_iff.mp outside
  rw [vecIndexWrite, if_pos past]
  rfl

end

def TerminateSafe (size : Nat) (v : VecRep) : Prop :=
  (v.cap = 0 → v.ptr = .null) ∧ (v.len = v.cap → CanGrow size v.cap)

theorem yields_vecTerminatedPtr (holds : Represents size heap.memory v elements)
    (safe : TerminateSafe size v) (s : V) :
    Yields (vecTerminatedPtr size v s) heap fun result after =>
      Updated size v.ptr heap [] elements result.2 after ∧
      ∀ index value, (elements ++ [s])[index]? = some value → read size after.memory result.1 index = .ok value := by
  have len := holds.len_eq
  have grown : Yields (growForTerminator size v) heap fun grown after =>
      ∃ cap, elements.length < cap ∧ Grown size v.ptr heap elements cap grown after := by
    rw [growForTerminator]
    have heapOnly : v = vecNew ∧ elements = [] ∨ ∃ id, OwnedVec size heap.memory v id elements := by
      rcases holds with vacant | ⟨id, holds⟩ | ⟨id, holds⟩
      · exact .inl ⟨vacant, by assumption⟩
      · have none := safe.1 holds.cap
        rw [holds.ptr] at none
        cases none
      · exact .inr ⟨id, holds⟩
    by_cases full : v.len = v.cap
    · have grows := safe.2 full
      have more := grows.lt_grownCap
      rw [if_pos full]
      refine yields_mono (yields_growAgain heapOnly (by omega) (by omega) (grownCap_lt _) grows.2) ?_
      intro _ after grown
      exact ⟨_, by omega, grown⟩
    · rw [if_neg full]
      rcases heapOnly with ⟨rfl, -⟩ | ⟨id, owned⟩
      · exact absurd rfl full
      · have within := owned.region.within
        exact yields_pure ⟨v.cap, by omega, grown_same owned⟩
  refine yields_bind grown ?_
  rintro grown _ ⟨cap, room, holds⟩
  obtain ⟨_, before, -⟩ := holds.owned
  refine yields_bind (holds.yields_writeAt room s) ?_
  rintro _ after ⟨id, ptr, place, frame, log, region⟩
  refine yields_pure ⟨⟨.owned id ⟨ptr, before.len, before.positive, before.fits, before.bytes,
    region.take (List.prefix_append _ _)⟩, frame, ?_, by simp [log]⟩, ?_⟩
  · rcases place with same | fresh
    · exact .inr (.inl same)
    · exact .inr (.inr ⟨id, ptr, fresh⟩)
  · intro index value here
    simp only [ptr]
    exact region.read_eq here

theorem represents_vecNew (memory : Memory V) : Represents size memory vecNew [] := .null rfl rfl

abbrev Made (size : Nat) (before : VecHeap V) (elements : List V) (v : VecRep)
    (after : VecHeap V) : Prop := Updated size .null before [] elements v after

theorem made_vecNew (heap : VecHeap V) : Made size heap [] vecNew heap :=
  updated_same (represents_vecNew heap.memory)

theorem yields_vecWithCapacity (heap : VecHeap V) {n : Nat} (fits : n < usizeLimit) (bytes : n * size < usizeLimit) :
    Yields (vecWithCapacity size n) heap fun v after => Made size heap [] v after := by
  rw [vecWithCapacity]
  by_cases none : n = 0
  · rw [if_pos none]
    exact yields_pure (made_vecNew heap)
  · have enough : n * size ≤ usizeMul n size := Nat.le_of_eq (usizeMul_eq bytes).symm
    rw [if_neg none]
    refine yields_bind (yields_memAlloc heap enough) ?_
    rintro _ after ⟨rfl, frame, log, region⟩
    exact yields_pure ⟨.owned _ ⟨rfl, rfl, none, fits, bytes, region⟩, frame,
      .inr (.inr ⟨_, rfl, Nat.le_refl _⟩), by simp [log]⟩

theorem yields_stringConst (heap : VecHeap V) (bytes : Slice V) :
    Yields (stringConst 1 bytes) heap fun v after => Made 1 heap bytes.elements v after := by
  obtain ⟨frame, region⟩ := allocStatic_region 1 heap.memory bytes.elements
  refine ⟨_, _, rfl, .static _ ⟨rfl, rfl, rfl, bytes.fits, ?_, region⟩, frame,
    .inr (.inr ⟨_, rfl, Nat.le_refl _⟩), by simp⟩
  rw [Nat.mul_one]
  exact bytes.fits

section

variable (holds : Represents size heap.memory v elements)
include holds

theorem yields_copyVec {middle : VecHeap V} {capacity : Nat} (allocated : Frame .null heap.memory middle.memory)
    (region : Region size middle.memory heap.memory.length true capacity [])
    (room : elements.length ≤ capacity) :
    Yields (copyElements size (readAt size v.ptr) (.block heap.memory.length) id v.len) middle
      fun _ after => Frame (.block heap.memory.length) middle.memory after.memory ∧ after.released = middle.released ∧
        Region size after.memory heap.memory.length true capacity elements := by
  have kept : Represents size middle.memory v elements := holds.frame allocated fun same => same.symm
  have copied := yields_copyElements (readAt size v.ptr) id elements region (by simpa using room)
    (by intro index _; simp) (by
      intro index _ _ here frame
      have still := kept.frame frame (by
        intro same
        have old := holds.ptr_lt same.symm
        omega)
      exact yields_readAt (still.read_eq here))
  rw [← holds.len_eq] at copied
  simpa using copied

theorem yields_vecClone : Yields (vecClone size v) heap fun copy after => Made size heap elements copy after := by
  have len := holds.len_eq
  rw [vecClone]
  by_cases vacant : v.len = 0
  · have empty : elements = [] := List.length_eq_zero_iff.mp (by omega)
    subst empty
    rw [if_pos vacant]
    exact yields_pure (made_vecNew heap)
  · have bytes : v.len * size < usizeLimit := by
      rw [len]
      exact holds.bytes_lt
    have fits : v.len < usizeLimit := by
      rw [len]
      exact holds.length_lt
    have enough : v.len * size ≤ usizeMul v.len size := Nat.le_of_eq (usizeMul_eq bytes).symm
    rw [if_neg vacant]
    refine yields_bind (yields_memAlloc heap enough) ?_
    rintro _ _ ⟨rfl, allocated, log, region⟩
    refine yields_bind (yields_copyVec holds allocated region (Nat.le_of_eq len.symm)) ?_
    rintro _ after ⟨frame, unchanged, filled⟩
    exact yields_pure ⟨.owned _ ⟨rfl, len, vacant, fits, bytes, filled⟩,
      allocated.trans_fresh (Nat.le_refl _) frame, .inr (.inr ⟨_, rfl, Nat.le_refl _⟩),
      by simp [unchanged, log]⟩

theorem yields_freeBuffer : Yields (freeBuffer v) heap fun _ after =>
      Frame v.ptr heap.memory after.memory ∧ after.released = heap.released := by
  rw [freeBuffer]
  by_cases positive : v.cap ≠ 0
  · obtain ⟨_, owned⟩ := holds.owned_of_cap positive
    rw [if_pos positive, owned.ptr]
    exact yields_memFree owned.region
  · rw [if_neg positive]
    exact yields_pure ⟨Frame.refl _ _, rfl⟩

theorem yields_vecDrop (ownership : Ownership) : Yields (vecDrop size ownership v) heap fun _ after =>
      Frame v.ptr heap.memory after.memory ∧
      after.released = heap.released ++ droppedElements ownership elements := by
  refine yields_bind (yields_dropAll holds ownership) ?_
  rintro _ middle ⟨same, log⟩
  have kept : Represents size middle.memory v elements := by rwa [same]
  refine yields_mono (yields_freeBuffer kept) ?_
  rintro _ after ⟨frame, unchanged⟩
  rw [same] at frame
  exact ⟨frame, unchanged.trans log⟩

end

def ConcatSafe (size : Nat) (v : VecRep) (other : Slice V) : Prop :=
  v.len + other.elements.length < usizeLimit ∧ (v.len + other.elements.length) * size < usizeLimit

theorem yields_vecConcat (holds : Represents size heap.memory v elements) {other : Slice V}
    (safe : ConcatSafe size v other) :
    Yields (vecConcat size v other) heap fun joined after =>
      Updated size v.ptr heap [] (elements ++ other.elements) joined after := by
  have len := holds.len_eq
  obtain ⟨fits, bytes⟩ := safe
  simp only [vecConcat, usizeAdd_eq fits]
  by_cases vacant : v.len + other.elements.length = 0
  · have empty : elements ++ other.elements = [] := by
      rw [← List.length_eq_zero_iff, List.length_append]
      omega
    rw [if_pos vacant, empty]
    exact yields_pure ⟨represents_vecNew _, Frame.refl _ _, .inl rfl, by simp⟩
  · have enough := Nat.le_of_eq (usizeMul_eq bytes).symm
    rw [if_neg vacant]
    refine yields_bind (yields_memAlloc heap enough) ?_
    rintro _ _ ⟨rfl, allocated, log, region⟩
    refine yields_bind (yields_copyVec holds allocated region (by omega)) ?_
    rintro _ _ ⟨frame, unchanged, filled⟩
    have appended := yields_copyElements (readSlice other) (usizeAdd v.len) other.elements filled (by omega) (by
        intro index _
        rw [usizeAdd_eq (by omega), len])
      (fun index value now here _ => yields_readSlice here)
    refine yields_bind appended ?_
    rintro _ full ⟨frameAgain, still, joined⟩
    -- The old buffer is untouched so far, and is freed now.
    have fresh := (allocated.trans_fresh (Nat.le_refl _) frame).trans_fresh (Nat.le_refl _) frameAgain
    have kept : Represents size full.memory v elements := holds.frame fresh fun same => same.symm
    have apart : v.ptr ≠ .block heap.memory.length := by
      intro same
      have old := holds.ptr_lt same
      omega
    refine yields_bind (yields_freeBuffer kept) ?_
    rintro _ after ⟨freed, last⟩
    refine yields_pure ⟨.owned _ ⟨rfl, ?_, vacant, fits, bytes, joined.frame freed apart⟩,
      fresh.of_null.trans freed, .inr (.inr ⟨_, rfl, Nat.le_refl _⟩), ?_⟩
    · rw [List.length_append, len]
    · simp [last, still, unchanged, log]

def ExtendSafe (size : Nat) (v : VecRep) (other : Slice V) : Prop :=
  v.len + other.elements.length < usizeLimit ∧ ReserveSafe size v other.elements.length

theorem yields_vecExtendFromSlice (holds : Represents size heap.memory v elements)
    {other : Slice V} (safe : ExtendSafe size v other) :
    Yields (vecExtendFromSlice size v other) heap fun extended after =>
      Updated size v.ptr heap [] (elements ++ other.elements) extended after := by
  have len := holds.len_eq
  obtain ⟨fits, reserves⟩ := safe
  refine yields_bind (yields_vecReserve holds reserves) ?_
  rintro reserved middle ⟨updated, room⟩
  have lenNow := updated.represents.len_eq
  by_cases empty : other.elements = []
  · have copied : Yields (copyElements size (readSlice other) reserved.ptr (usizeAdd reserved.len) 0)
        middle fun _ now => now = middle := ⟨(), middle, rfl, rfl⟩
    simp only [empty, List.length_nil, List.append_nil]
    refine yields_bind copied ?_
    rintro _ after rfl
    have same : usizeAdd reserved.len 0 = reserved.len := by
      rw [usizeAdd_eq (by omega), Nat.add_zero]
    simp only [same]
    exact yields_pure updated
  · have filled : other.elements.length ≠ 0 := fun zero => empty (List.length_eq_zero_iff.mp zero)
    have enough := (room (by omega)).resolve_right filled
    obtain ⟨id, owned⟩ := updated.represents.owned_of_cap (by omega)
    rw [owned.ptr]
    have appended := yields_copyElements (readSlice other) (usizeAdd reserved.len) other.elements owned.region enough
      (by
        intro index _
        rw [usizeAdd_eq (by omega), lenNow])
      (fun index value now here _ => yields_readSlice here)
    refine yields_bind appended ?_
    rintro _ after ⟨frame, unchanged, joined⟩
    have whole : Frame v.ptr heap.memory after.memory := by
      rcases updated.place with vacant | same | ⟨other, ptr, _⟩
      · rw [owned.ptr] at vacant
        cases vacant
      · rw [← owned.ptr, same] at frame
        exact updated.frame.trans frame
      · rw [owned.ptr, Ptr.block.injEq] at ptr
        exact updated.frame.trans_fresh (by omega) frame
    refine yields_pure ⟨.owned id ⟨rfl, ?_, owned.positive, owned.fits, owned.bytes, joined⟩,
      whole, owned.ptr ▸ updated.place, ?_⟩
    · rw [List.length_append, lenNow, usizeAdd_eq (by omega)]
    · rw [unchanged, updated.log]

end Operations

def startsWithList (eq : V → V → Bool) : List V → List V → Bool
  | [], _ => true
  | _ :: _, [] => false
  | wanted :: start, value :: elements => eq value wanted && startsWithList eq start elements

def eqList (eq : V → V → Bool) (elements other : List V) : Bool :=
  decide (elements.length = other.length) && startsWithList eq other elements

def endsWithList (eq : V → V → Bool) (ending elements : List V) : Bool :=
  decide (ending.length ≤ elements.length) &&
    startsWithList eq ending (elements.drop (elements.length - ending.length))

def containsList (eq : V → V → Bool) (elements needle : List V) : Bool :=
  elements.tails.any (startsWithList eq needle)

def cmpList (lt : V → V → Bool) : List V → List V → Ordering
  | [], [] => .eq
  | [], _ :: _ => .lt
  | _ :: _, [] => .gt
  | a :: elements, b :: other =>
    if lt a b then .lt else if lt b a then .gt else cmpList lt elements other

def mismatchAt (eq : V → V → Bool) (elements other : List V) (index : Nat) : Option Unit :=
  match elements[index]?, other[index]? with
  | some a, some b => if !eq a b then some () else none
  | _, _ => none

theorem startsWithList_eq (eq : V → V → Bool) (start elements : List V) :
    startsWithList eq start elements = (decide (start.length ≤ elements.length) &&
        ((List.range start.length).findSome? (mismatchAt eq elements start)).isNone) := by
  induction start generalizing elements with
  | nil => simp [startsWithList]
  | cons wanted start ih =>
    cases elements with
    | nil => simp [startsWithList]
    | cons value elements =>
      have later : (mismatchAt eq (value :: elements) (wanted :: start)) ∘ Nat.succ =
          mismatchAt eq elements start := rfl
      have first : mismatchAt eq (value :: elements) (wanted :: start) 0 =
          if !eq value wanted then some () else none := rfl
      rw [startsWithList, ih, List.length_cons, List.length_cons, List.range_succ_eq_map,
        List.findSome?_cons, List.findSome?_map, later, first]
      cases eq value wanted <;> simp

def decidedAt (lt : V → V → Bool) (elements other : List V) (index : Nat) : Option Ordering :=
  match elements[index]?, other[index]? with
  | some a, some b => if lt a b then some .lt else if lt b a then some .gt else none
  | _, _ => none

theorem cmpList_eq (lt : V → V → Bool) (elements other : List V) : cmpList lt elements other =
      match (List.range (min elements.length other.length)).findSome? (decidedAt lt elements other) with
      | some ordering => ordering
      | none =>
        if elements.length < other.length then .lt
        else if other.length < elements.length then .gt
        else .eq := by
  induction elements generalizing other with
  | nil => cases other <;> simp [cmpList]
  | cons a elements ih =>
    cases other with
    | nil => simp [cmpList]
    | cons b other =>
      have later : (decidedAt lt (a :: elements) (b :: other)) ∘ Nat.succ = decidedAt lt elements other := rfl
      have first : decidedAt lt (a :: elements) (b :: other) 0 =
          if lt a b then some .lt else if lt b a then some .gt else none := rfl
      rw [cmpList, ih, List.length_cons, List.length_cons, Nat.succ_min_succ,
        List.range_succ_eq_map, List.findSome?_cons, List.findSome?_map, later, first]
      cases lt a b <;> cases lt b a <;> simp

section Searches

variable {heap : VecHeap V} {v other : VecRep} {elements otherElements : List V}

theorem yields_vecEq (holds : Represents size heap.memory v elements)
    (otherHolds : Represents size heap.memory other otherElements) (eq : V → V → Bool) :
    Yields (vecEq size eq v other) heap fun result after =>
      result = eqList eq elements otherElements ∧ after = heap := by
  rw [vecEq, holds.len_eq, otherHolds.len_eq, eqList]
  by_cases same : elements.length = otherElements.length
  · rw [if_neg (by simpa using same)]
    have found : Yields (loopFrom (fun index => do
        let a ← readAt size v.ptr index
        let b ← readAt size other.ptr index
        pure (if !eq a b then some () else none)) elements.length 0) heap fun left now =>
          left = (List.range elements.length).findSome? (mismatchAt eq elements otherElements) ∧ now = heap := by
      refine yields_search ?_
      intro index inside
      have here : elements[index]? = some elements[index] := List.getElem?_eq_getElem inside
      have bound : index < otherElements.length := same ▸ inside
      have there : otherElements[index]? = some otherElements[index] :=
        List.getElem?_eq_getElem bound
      refine yields_bind (yields_readAt (holds.read_eq here)) ?_
      rintro a _ ⟨rfl, rfl⟩
      refine yields_bind (yields_readAt (otherHolds.read_eq there)) ?_
      rintro b _ ⟨rfl, rfl⟩
      exact yields_pure ⟨by simp [mismatchAt, here, there], rfl⟩
    refine yields_bind found ?_
    rintro left after ⟨rfl, rfl⟩
    refine yields_pure ⟨?_, rfl⟩
    rw [startsWithList_eq, same]
    simp
  · rw [if_pos (by simpa using same)]
    exact yields_pure ⟨by simp [same], rfl⟩

theorem yields_vecCmp (holds : Represents size heap.memory v elements)
    (otherHolds : Represents size heap.memory other otherElements) (lt : V → V → Bool) :
    Yields (vecCmp size lt v other) heap fun result after =>
      result = cmpList lt elements otherElements ∧ after = heap := by
  have shorter : (if elements.length < otherElements.length then elements.length
      else otherElements.length) = min elements.length otherElements.length := by
    split <;> omega
  simp only [vecCmp, holds.len_eq, otherHolds.len_eq, shorter]
  have found : Yields (loopFrom (fun index => do
      let a ← readAt size v.ptr index
      let b ← readAt size other.ptr index
      pure (if lt a b then some Ordering.lt else if lt b a then some Ordering.gt else none))
      (min elements.length otherElements.length) 0) heap fun left now =>
        left = (List.range (min elements.length otherElements.length)).findSome?
          (decidedAt lt elements otherElements) ∧ now = heap := by
    refine yields_search ?_
    intro index _
    have bound : index < elements.length := by omega
    have otherBound : index < otherElements.length := by omega
    have here : elements[index]? = some elements[index] := List.getElem?_eq_getElem bound
    have there : otherElements[index]? = some otherElements[index] :=
      List.getElem?_eq_getElem otherBound
    refine yields_bind (yields_readAt (holds.read_eq here)) ?_
    rintro a _ ⟨rfl, rfl⟩
    refine yields_bind (yields_readAt (otherHolds.read_eq there)) ?_
    rintro b _ ⟨rfl, rfl⟩
    exact yields_pure ⟨by simp [decidedAt, here, there], rfl⟩
  refine yields_bind found ?_
  rintro left after ⟨decided, rfl⟩
  rw [cmpList_eq, ← decided]
  cases left with
  | some ordering => exact yields_pure ⟨rfl, rfl⟩
  | none =>
    dsimp only
    by_cases less : elements.length < otherElements.length
    · rw [if_pos less, if_pos less]
      exact yields_pure ⟨rfl, rfl⟩
    · rw [if_neg less, if_neg less]
      by_cases more : otherElements.length < elements.length
      · rw [if_pos more, if_pos more]
        exact yields_pure ⟨rfl, rfl⟩
      · rw [if_neg more, if_neg more]
        exact yields_pure ⟨rfl, rfl⟩

theorem yields_matchSlice (holds : Represents size heap.memory v elements) (eq : V → V → Bool)
    (slice : Slice V) {offset : Nat} (room : offset + slice.elements.length ≤ elements.length)
    {place : Nat → Nat} (places : ∀ k, k < slice.elements.length → place k = offset + k) :
    Yields (matchSlice size eq v slice place) heap fun result after =>
      result = startsWithList eq slice.elements (elements.drop offset) ∧ after = heap := by
  have found : Yields (loopFrom (fun k => do
      let a ← readAt size v.ptr (place k)
      let b ← readSlice slice k
      pure (if !eq a b then some () else none)) slice.elements.length 0) heap fun left now =>
        left = (List.range slice.elements.length).findSome?
          (mismatchAt eq (elements.drop offset) slice.elements) ∧ now = heap := by
    refine yields_search ?_
    intro k inside
    have bound : place k < elements.length := by
      rw [places k inside]
      omega
    have here : elements[place k]? = some elements[place k] := List.getElem?_eq_getElem bound
    have shifted : (elements.drop offset)[k]? = elements[place k]? := by
      rw [List.getElem?_drop, places k inside]
    have there : slice.elements[k]? = some slice.elements[k] := List.getElem?_eq_getElem inside
    refine yields_bind (yields_readAt (holds.read_eq here)) ?_
    rintro a _ ⟨rfl, rfl⟩
    refine yields_bind (yields_readSlice there) ?_
    rintro b _ ⟨rfl, rfl⟩
    exact yields_pure ⟨by simp [mismatchAt, shifted, here, there], rfl⟩
  refine yields_bind found ?_
  rintro left after ⟨rfl, rfl⟩
  refine yields_pure ⟨?_, rfl⟩
  have inside : slice.elements.length ≤ (elements.drop offset).length := by
    rw [List.length_drop]
    omega
  rw [startsWithList_eq, decide_eq_true inside, Bool.true_and]

theorem startsWithList_short (eq : V → V → Bool) {start elements : List V}
    (short : elements.length < start.length) : startsWithList eq start elements = false := by
  rw [startsWithList_eq, decide_eq_false (by omega), Bool.false_and]

theorem yields_vecStartsWith (holds : Represents size heap.memory v elements) (eq : V → V → Bool) (start : Slice V) :
    Yields (vecStartsWith size eq v start) heap fun result after =>
      result = startsWithList eq start.elements elements ∧ after = heap := by
  rw [vecStartsWith, holds.len_eq]
  by_cases long : start.elements.length > elements.length
  · rw [if_pos long]
    exact yields_pure ⟨(startsWithList_short eq long).symm, rfl⟩
  · rw [if_neg long]
    have matched := yields_matchSlice holds eq start (by omega) (fun k _ => (Nat.zero_add k).symm)
    rwa [List.drop_zero] at matched

theorem yields_vecEndsWith (holds : Represents size heap.memory v elements) (eq : V → V → Bool) (ending : Slice V) :
    Yields (vecEndsWith size eq v ending) heap fun result after =>
      result = endsWithList eq ending.elements elements ∧ after = heap := by
  have bound := holds.length_lt
  rw [vecEndsWith, holds.len_eq, endsWithList]
  by_cases long : ending.elements.length > elements.length
  · rw [if_pos long, decide_eq_false (by omega), Bool.false_and]
    exact yields_pure ⟨rfl, rfl⟩
  · rw [if_neg long, decide_eq_true (by omega), Bool.true_and]
    exact yields_matchSlice holds eq ending (by omega) fun k _ => usizeAdd_eq (by omega)

theorem containsList_eq (eq : V → V → Bool) {elements needle : List V} (short : needle.length ≤ elements.length) :
    containsList eq elements needle = ((List.range (elements.length - needle.length + 1)).findSome? fun index =>
        if startsWithList eq needle (elements.drop index) then some () else none).isSome := by
  rw [Bool.eq_iff_iff, containsList, List.any_eq_true, Option.isSome_iff_ne_none, ne_eq, List.findSome?_eq_none_iff]
  simp only [List.mem_tails, List.mem_range, ite_eq_right_iff, reduceCtorEq, imp_false, not_forall, not_not]
  constructor
  · rintro ⟨tail, ⟨front, rfl⟩, found⟩
    refine ⟨front.length, ?_, by simpa using found⟩
    have long : needle.length ≤ tail.length := by
      by_contra longer
      rw [startsWithList_short eq (Nat.lt_of_not_le longer)] at found
      cases found
    rw [List.length_append]
    omega
  · rintro ⟨index, _, found⟩
    exact ⟨elements.drop index, List.drop_suffix _ _, found⟩

theorem yields_vecContains (holds : Represents size heap.memory v elements) (eq : V → V → Bool) (needle : Slice V) :
    Yields (vecContains size eq v needle) heap fun result after =>
      result = containsList eq elements needle.elements ∧ after = heap := by
  have bound := holds.length_lt
  simp only [vecContains, holds.len_eq]
  by_cases empty : needle.elements.length = 0
  · have none : needle.elements = [] := List.length_eq_zero_iff.mp empty
    rw [if_pos empty]
    refine yields_pure ⟨?_, rfl⟩
    rw [containsList, none, List.any_eq_true.mpr ⟨elements, by simp, rfl⟩]
  rw [if_neg empty]
  by_cases long : needle.elements.length > elements.length
  · rw [if_pos long]
    refine yields_pure ⟨?_, rfl⟩
    rw [containsList, eq_comm, List.any_eq_false]
    intro _ suffixed
    have shorter := (List.mem_tails _ _ |>.mp suffixed).length_le
    rw [startsWithList_short eq (by omega)]
    exact Bool.false_ne_true
  · rw [if_neg long]
    have rounds : usizeAdd (elements.length - needle.elements.length) 1 =
        elements.length - needle.elements.length + 1 := usizeAdd_eq (by omega)
    rw [rounds]
    have found : Yields (loopFrom (fun index => do
        let matched ← matchSlice size eq v needle (usizeAdd index)
        pure (if matched then some () else none))
        (elements.length - needle.elements.length + 1) 0) heap fun left now =>
          left = ((List.range (elements.length - needle.elements.length + 1)).findSome?
            fun index => if startsWithList eq needle.elements (elements.drop index) then some ()
              else none) ∧ now = heap := by
      refine yields_search ?_
      intro index _
      have room : index + needle.elements.length ≤ elements.length := by omega
      refine yields_bind (yields_matchSlice holds eq needle room fun k _ =>
        usizeAdd_eq (by omega)) ?_
      rintro _ _ ⟨rfl, rfl⟩
      exact yields_pure ⟨rfl, rfl⟩
    refine yields_bind found ?_
    rintro left after ⟨rfl, rfl⟩
    exact yields_pure ⟨(containsList_eq eq (by omega)).symm, rfl⟩

end Searches

end Gruel.PreludeVec
