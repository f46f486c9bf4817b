import Mathlib.Data.List.Basic

/-!
Memory as a growing list of blocks of equally spaced elements: heap blocks that
`malloc`, `realloc` and `free` manage, and static ones. An access outside a live
block, a write to static storage or a release of anything but a live heap block
is a fault.
-/

namespace Blocks

variable {touched : Ptr}

inductive Ptr
  | null
  | block (id : Nat)
  deriving DecidableEq, Repr

structure Block (α : Type) where
  bytes : Nat
  owned : Bool
  live : Bool
  cells : Nat → Option α

abbrev Memory (α : Type) := List (Block α)

inductive Fault
  | read
  | write
  | release
  deriving DecidableEq, Repr

variable {α : Type}

def Block.covers (stride : Nat) (block : Block α) (index : Nat) : Bool :=
  decide ((index + 1) * stride ≤ block.bytes)

def Block.put (block : Block α) (index : Nat) (value : α) : Block α :=
  { block with cells := fun other => if other = index then some value else block.cells other }

def Block.dead (block : Block α) : Block α := { block with live := false }

def Block.resized (stride : Nat) (block : Block α) (bytes : Nat) : Block α :=
  ⟨bytes, true, true, fun index =>
    if (index + 1) * stride ≤ min block.bytes bytes then block.cells index else none⟩

def malloc (memory : Memory α) (bytes : Nat) : Ptr × Memory α :=
  (.block memory.length, memory ++ [⟨bytes, true, true, fun _ => none⟩])

def allocStatic (stride : Nat) (memory : Memory α) (elements : List α) : Ptr × Memory α :=
  (.block memory.length, memory ++ [⟨elements.length * stride, false, true, fun index => elements[index]?⟩])

def target (memory : Memory α) : Ptr → Option (Nat × Block α)
  | .null => none
  | .block id =>
    match memory[id]? with
    | some block => if block.live then some (id, block) else none
    | none => none

def read (stride : Nat) (memory : Memory α) (pointer : Ptr) (index : Nat) : Except Fault α :=
  match target memory pointer with
  | some (_, block) =>
    if block.covers stride index then
      match block.cells index with
      | some value => .ok value
      | none => .error .read
    else .error .read
  | none => .error .read

def write (stride : Nat) (memory : Memory α) (pointer : Ptr) (index : Nat) (value : α) : Except Fault (Memory α) :=
  match target memory pointer with
  | some (id, block) =>
    if block.owned && block.covers stride index then
      .ok (memory.set id (block.put index value))
    else .error .write
  | none => .error .write

def free (memory : Memory α) (pointer : Ptr) : Except Fault (Memory α) := match pointer with
  | .null => .ok memory
  | pointer =>
    match target memory pointer with
    | some (id, block) =>
      if block.owned then .ok (memory.set id block.dead)
      else .error .release
    | none => .error .release

def realloc (stride : Nat) (memory : Memory α) (pointer : Ptr) (bytes : Nat) : Except Fault (Ptr × Memory α) :=
  match pointer with
  | .null => .ok (malloc memory bytes)
  | pointer =>
    match target memory pointer with
    | some (id, block) =>
      if block.owned then
        .ok (.block memory.length, memory.set id block.dead ++ [block.resized stride bytes])
      else .error .release
    | none => .error .release

structure Region (stride : Nat) (memory : Memory α) (id : Nat) (owned : Bool) (capacity : Nat)
    (elements : List α) : Prop where
  within : elements.length ≤ capacity
  block : ∃ block, memory[id]? = some block ∧ block.live = true ∧ block.owned = owned ∧
    capacity * stride ≤ block.bytes ∧
    ∀ index value, elements[index]? = some value → block.cells index = some value

structure Frame (touched : Ptr) (before after : Memory α) : Prop where
  grows : before.length ≤ after.length
  kept : ∀ id, id < before.length → touched ≠ .block id → after[id]? = before[id]?

theorem Frame.refl (touched : Ptr) (memory : Memory α) : Frame touched memory memory :=
  ⟨Nat.le_refl _, fun _ _ _ => rfl⟩

theorem Frame.trans {first second third : Memory α} (left : Frame touched first second)
    (right : Frame touched second third) : Frame touched first third := by
  refine ⟨Nat.le_trans left.grows right.grows, ?_⟩
  intro id old other
  rw [right.kept id (Nat.lt_of_lt_of_le old left.grows) other, left.kept id old other]

theorem Frame.trans_fresh {first second third : Memory α} {id : Nat}
    (left : Frame touched first second) (fresh : first.length ≤ id)
    (right : Frame (.block id) second third) : Frame touched first third := by
  refine ⟨Nat.le_trans left.grows right.grows, ?_⟩
  intro other old apart
  rw [right.kept other (Nat.lt_of_lt_of_le old left.grows) (by simp; omega), left.kept other old apart]

theorem Frame.of_null {before after : Memory α} (frame : Frame .null before after) : Frame touched before after :=
  ⟨frame.grows, fun id old _ => frame.kept id old (by simp)⟩

namespace Region

variable {stride id capacity : Nat} {owned : Bool} {memory : Memory α} {elements : List α}

section

variable (region : Region stride memory id owned capacity elements)
include region

theorem lt_length : id < memory.length := by
  obtain ⟨block, found, -⟩ := region.block
  exact (List.getElem?_eq_some_iff.mp found).1

theorem frame {touched : Ptr} {after : Memory α} (frame : Frame touched memory after)
    (apart : touched ≠ .block id) : Region stride after id owned capacity elements := by
  have old := region.lt_length
  obtain ⟨block, found, facts⟩ := region.block
  exact ⟨region.within, block, by rw [frame.kept id old apart, found], facts⟩

theorem take {fewer : List α} (start : fewer <+: elements) : Region stride memory id owned capacity fewer := by
  obtain ⟨block, found, live, kind, room, holds⟩ := region.block
  obtain ⟨_, rfl⟩ := start
  have within := region.within
  rw [List.length_append] at within
  refine ⟨by omega, block, found, live, kind, room, ?_⟩
  intro index value here
  have bound := (List.getElem?_eq_some_iff.mp here).1
  exact holds index value (by rw [List.getElem?_append_left bound, here])

theorem shrink {smaller : Nat} (fits : elements.length ≤ smaller) (less : smaller ≤ capacity) :
    Region stride memory id owned smaller elements := by
  obtain ⟨block, found, live, kind, room, holds⟩ := region.block
  exact ⟨fits, block, found, live, kind, Nat.le_trans (Nat.mul_le_mul_right stride less) room, holds⟩

end

theorem target_eq {block : Block α} (found : memory[id]? = some block)
    (live : block.live = true) : target memory (.block id) = some (id, block) := by
  simp [target, found, live]

theorem read_eq (region : Region stride memory id owned capacity elements) {index : Nat}
    {value : α} (here : elements[index]? = some value) :
    read stride memory (.block id) index = .ok value := by
  obtain ⟨block, found, live, -, room, holds⟩ := region.block
  have bound := (List.getElem?_eq_some_iff.mp here).1
  have within := region.within
  have covered : block.covers stride index = true := by
    rw [Block.covers, decide_eq_true_eq]
    exact Nat.le_trans (Nat.mul_le_mul_right stride (by omega)) room
  simp [read, target_eq found live, covered, holds index value here]

theorem write_eq (region : Region stride memory id true capacity elements) {index : Nat}
    (inside : index < capacity) (reached : index ≤ elements.length) (value : α) :
    ∃ after, write stride memory (.block id) index value = .ok after ∧ Frame (.block id) memory after ∧
      Region stride after id true capacity (elements.take index ++ value :: elements.drop (index + 1)) := by
  have old := region.lt_length
  obtain ⟨block, found, live, kind, room, holds⟩ := region.block
  have within := region.within
  have covered : block.covers stride index = true := by
    rw [Block.covers, decide_eq_true_eq]
    exact Nat.le_trans (Nat.mul_le_mul_right stride (by omega)) room
  refine ⟨memory.set id (block.put index value), ?_, ?_, ?_⟩
  · simp [write, target_eq found live, kind, covered]
  · refine ⟨by simp, ?_⟩
    intro other _ apart
    have different : id ≠ other := by
      rintro rfl
      exact apart rfl
    rw [List.getElem?_set_ne different]
  · refine ⟨?_, _, List.getElem?_set_self old, live, kind, room, ?_⟩
    · simp only [List.length_append, List.length_take, List.length_cons, List.length_drop]
      omega
    · intro other stored here
      have split : min index elements.length = index := Nat.min_eq_left reached
      by_cases first : other < index
      · rw [List.getElem?_append_left (by simp; omega), List.getElem?_take_of_lt first] at here
        simp only [Block.put, if_neg (Nat.ne_of_lt first)]
        exact holds other stored here
      · rw [List.getElem?_append_right (by simp; omega), List.length_take, split] at here
        by_cases same : other = index
        · subst same
          simpa [Block.put] using here
        · obtain ⟨later, rfl⟩ : ∃ later, other = index + 1 + later := ⟨other - index - 1, by omega⟩
          have offset : index + 1 + later - index = later + 1 := by omega
          rw [offset, List.getElem?_cons_succ, List.getElem?_drop] at here
          simp only [Block.put, if_neg same]
          exact holds _ stored here

theorem free_eq (region : Region stride memory id true capacity elements) :
    ∃ after, free memory (.block id) = .ok after ∧ Frame (.block id) memory after := by
  obtain ⟨block, found, live, kind, -⟩ := region.block
  refine ⟨memory.set id block.dead, ?_, by simp, ?_⟩
  · simp [free, target_eq found live, kind]
  · intro other _ apart
    have different : id ≠ other := by
      rintro rfl
      exact apart rfl
    rw [List.getElem?_set_ne different]

end Region

theorem malloc_region {stride bytes capacity : Nat} (memory : Memory α) (fits : capacity * stride ≤ bytes) :
    Frame .null memory (malloc memory bytes).2 ∧
      Region stride (malloc memory bytes).2 memory.length true capacity [] := by
  refine ⟨⟨by simp [malloc], ?_⟩, Nat.zero_le _, _, List.getElem?_concat_length, rfl, rfl, fits, ?_⟩
  · intro _ old _
    exact List.getElem?_append_left old
  · intro _ _ here
    simp at here

theorem allocStatic_region (stride : Nat) (memory : Memory α) (elements : List α) :
    Frame .null memory (allocStatic stride memory elements).2 ∧
      Region stride (allocStatic stride memory elements).2 memory.length false elements.length elements := by
  refine ⟨⟨by simp [allocStatic], ?_⟩, Nat.le_refl _, _, List.getElem?_concat_length, rfl, rfl,
    Nat.le_refl _, fun _ _ here => here⟩
  intro _ old _
  exact List.getElem?_append_left old

theorem realloc_region {stride id capacity bytes larger : Nat} {memory : Memory α}
    {elements : List α} (region : Region stride memory id true capacity elements)
    (fits : larger * stride ≤ bytes) (room : elements.length ≤ larger) :
    ∃ after, realloc stride memory (.block id) bytes = .ok (.block memory.length, after) ∧
      Frame (.block id) memory after ∧
      Region stride after memory.length true larger elements := by
  obtain ⟨block, found, live, kind, size, holds⟩ := region.block
  have within := region.within
  refine ⟨memory.set id block.dead ++ [block.resized stride bytes], ?_, ⟨?_, ?_⟩, room,
    block.resized stride bytes, ?_, rfl, rfl, fits, ?_⟩
  · simp [realloc, Region.target_eq found live, kind]
  · simp
  · intro other bound apart
    have different : id ≠ other := by
      rintro rfl
      exact apart rfl
    rw [List.getElem?_append_left (by simpa using bound), List.getElem?_set_ne different]
  · simp
  · intro index value here
    have bound := (List.getElem?_eq_some_iff.mp here).1
    have inside : (index + 1) * stride ≤ min block.bytes bytes := by
      refine Nat.le_min.mpr ⟨?_, ?_⟩
      · exact Nat.le_trans (Nat.mul_le_mul_right stride (by omega)) size
      · exact Nat.le_trans (Nat.mul_le_mul_right stride (by omega)) fits
    simp only [Block.resized, if_pos inside]
    exact holds index value here

end Blocks
