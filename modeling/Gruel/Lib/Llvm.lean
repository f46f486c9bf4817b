import Gruel.Lib.ByteMemory
import Gruel.Lib.RecordLayout
import Mathlib.Data.List.Induction

/-!
LLVM types under the default data layout of a 64-bit target with non-packed structs, and
first-class values of them in memory.  Padding is undefined: a store fills it from an
arbitrary memory given beside the value.
-/

open RecordLayout (Shape le_alignUp)
open ByteMemory

inductive LlvmTy
  | int (bits : Nat)
  | float (bits : Nat)
  | ptr
  | struct (fields : List LlvmTy)
  | array (elem : LlvmTy) (len : Nat)

def LlvmTy.scalarShape (bits : Nat) : Shape := if bits ≤ 8 then ⟨1, 1⟩ else if bits ≤ 16 then ⟨2, 2⟩
  else if bits ≤ 32 then ⟨4, 4⟩
  else ⟨(bits + 63) / 64 * 8, 8⟩

mutual

def LlvmTy.shape : LlvmTy → Shape
  | .int bits | .float bits => LlvmTy.scalarShape bits
  | .ptr => ⟨8, 8⟩
  | .struct fields => RecordLayout.record (LlvmTy.shapes fields)
  | .array elem len => ⟨elem.shape.size * len, elem.shape.align⟩

def LlvmTy.shapes : List LlvmTy → List Shape
  | [] => []
  | ty :: rest => ty.shape :: LlvmTy.shapes rest

end

theorem LlvmTy.shapes_eq_map (tys : List LlvmTy) : LlvmTy.shapes tys = tys.map LlvmTy.shape := by
  induction tys with
  | nil => rfl
  | cons ty rest ih => simp [LlvmTy.shapes, ih]

def LlvmTy.i8 : LlvmTy := .int 8

def LlvmTy.i64 : LlvmTy := .int 64

inductive LlvmVal
  | scalar (bits : Nat)
  | agg (elems : List LlvmVal)

mutual

def LlvmTy.HasVal : LlvmTy → LlvmVal → Prop
  | .int bits, .scalar value | .float bits, .scalar value => value < 2 ^ bits
  | .ptr, .scalar value => value < 2 ^ 64
  | .struct fields, .agg elems => LlvmTy.HasVals fields elems
  | .array elem len, .agg elems => elems.length = len ∧ ∀ value ∈ elems, elem.HasVal value
  | _, _ => False

def LlvmTy.HasVals : List LlvmTy → List LlvmVal → Prop
  | [], [] => True
  | ty :: tys, value :: values => ty.HasVal value ∧ LlvmTy.HasVals tys values
  | _, _ => False

end

mutual

def LlvmTy.zero : LlvmTy → LlvmVal
  | .int _ | .float _ | .ptr => .scalar 0
  | .struct fields => .agg (LlvmTy.zeros fields)
  | .array elem len => .agg (List.replicate len elem.zero)

def LlvmTy.zeros : List LlvmTy → List LlvmVal
  | [] => []
  | ty :: tys => ty.zero :: LlvmTy.zeros tys

end

def ByteMemory.Memory.fill (memory undef : Memory) (base size : Nat) : Memory := fun address =>
  if base ≤ address ∧ address < base + size then undef address else memory address

mutual

def LlvmTy.store (undef : Memory) : LlvmTy → LlvmVal → Nat → Memory → Memory
  | .int bits, .scalar value, base, memory | .float bits, .scalar value, base, memory =>
    writeLe memory base (LlvmTy.scalarShape bits).size value
  | .ptr, .scalar value, base, memory => writeLe memory base 8 value
  | .struct fields, .agg elems, base, memory =>
    LlvmTy.storeFields undef fields elems base 0 (memory.fill undef base (RecordLayout.size (LlvmTy.shapes fields)))
  | .array elem _, .agg elems, base, memory =>
    elems.zipIdx.foldl
      (fun current entry => elem.store undef entry.1 (base + entry.2 * elem.shape.size) current) memory
  | _, _, _, memory => memory

def LlvmTy.storeFields (undef : Memory) : List LlvmTy → List LlvmVal → Nat → Nat → Memory → Memory
  | ty :: tys, value :: values, base, start, memory =>
    let offset := RecordLayout.alignUp start ty.shape.align
    LlvmTy.storeFields undef tys values base (offset + ty.shape.size) (ty.store undef value (base + offset) memory)
  | _, _, _, _, memory => memory

end

mutual

def LlvmTy.load : LlvmTy → Memory → Nat → LlvmVal
  | .int bits, memory, base | .float bits, memory, base =>
    .scalar (readLe memory base (LlvmTy.scalarShape bits).size % 2 ^ bits)
  | .ptr, memory, base => .scalar (readLe memory base 8)
  | .struct fields, memory, base => .agg (LlvmTy.loadFields fields memory base 0)
  | .array elem len, memory, base =>
    .agg ((List.range len).map fun index => elem.load memory (base + index * elem.shape.size))

def LlvmTy.loadFields : List LlvmTy → Memory → Nat → Nat → List LlvmVal
  | [], _, _, _ => []
  | ty :: tys, memory, base, start =>
    let offset := RecordLayout.alignUp start ty.shape.align
    ty.load memory (base + offset) :: LlvmTy.loadFields tys memory base (offset + ty.shape.size)

end

mutual

/-- The bytes at `base` are those of the value. -/
def LlvmTy.Holds : LlvmTy → LlvmVal → Memory → Nat → Prop
  | .int bits, .scalar value, memory, base | .float bits, .scalar value, memory, base =>
    readLe memory base (LlvmTy.scalarShape bits).size = value
  | .ptr, .scalar value, memory, base => readLe memory base 8 = value
  | .struct fields, .agg elems, memory, base => LlvmTy.HoldFields fields elems memory base 0
  | .array elem _, .agg elems, memory, base => ∀ (index : Nat) value, elems[index]? = some value →
    elem.Holds value memory (base + index * elem.shape.size)
  | _, _, _, _ => False

def LlvmTy.HoldFields : List LlvmTy → List LlvmVal → Memory → Nat → Nat → Prop
  | [], [], _, _, _ => True
  | ty :: tys, value :: values, memory, base, start =>
    ty.Holds value memory (base + RecordLayout.alignUp start ty.shape.align) ∧
      LlvmTy.HoldFields tys values memory base (RecordLayout.alignUp start ty.shape.align + ty.shape.size)
  | _, _, _, _, _ => False

end

namespace LlvmTy

theorem two_pow_le (bits : Nat) : 2 ^ bits ≤ 256 ^ (scalarShape bits).size := by
  have wide : bits ≤ 8 * (scalarShape bits).size := by
    unfold scalarShape
    split
    · omega
    · split
      · omega
      · split <;> simp only <;> omega
  calc 2 ^ bits ≤ 2 ^ (8 * (scalarShape bits).size) := Nat.pow_le_pow_right (by decide) wide
    _ = 256 ^ (scalarShape bits).size := by rw [Nat.pow_mul]

theorem scalarShape_align_pos (bits : Nat) : 0 < (scalarShape bits).align := by
  unfold scalarShape
  split
  · decide
  · split
    · decide
    · split
      · decide
      · exact Nat.succ_pos 7

theorem align_pos : ∀ ty : LlvmTy, 0 < ty.shape.align
  | .int bits | .float bits => scalarShape_align_pos bits
  | .ptr => Nat.succ_pos 7
  | .struct fields => RecordLayout.maxAlign_pos _
  | .array elem _ => align_pos elem

theorem aligned_shapes (tys : List LlvmTy) : RecordLayout.Aligned (shapes tys) := by
  intro _ member
  rw [shapes_eq_map] at member
  obtain ⟨ty, -, rfl⟩ := List.mem_map.mp member
  exact align_pos ty

mutual

theorem store_outside (undef : Memory) : ∀ (ty : LlvmTy) (value : LlvmVal) (base : Nat)
    (memory : Memory) (address : Nat), ty.HasVal value →
    (address < base ∨ base + ty.shape.size ≤ address) →
    ty.store undef value base memory address = memory address
  | .int bits, .scalar value, base, memory, address, _, outside => by
      exact writeLe_outside outside
  | .float _, .scalar _, _, _, _, _, outside | .ptr, .scalar _, _, _, _, _, outside => by
      rw [store]
      exact writeLe_outside outside
  | .struct fields, .agg elems, base, memory, address, typed, outside => by
      have ends := RecordLayout.endFrom_le_size (shapes fields)
      simp only [shape, RecordLayout.record] at outside
      rw [store, storeFields_outside undef fields elems base 0 _ address typed (by omega),
        Memory.fill, if_neg (by omega)]
  | .array elem len, .agg elems, base, memory, address, typed, outside => by
      obtain ⟨length, elemTyped⟩ := typed
      simp only [shape] at outside
      have step : ∀ (start : Nat) (current : Memory) (rest : List LlvmVal),
          (∀ value ∈ rest, elem.HasVal value) → start + rest.length ≤ len →
          (rest.zipIdx start).foldl (fun current entry =>
            elem.store undef entry.1 (base + entry.2 * elem.shape.size) current) current address =
              current address := by
        intro start current rest
        induction rest generalizing start current with
        | nil => exact fun _ _ => rfl
        | cons value rest ih =>
          intro allTyped bound
          rw [List.length_cons] at bound
          have inside : (start + 1) * elem.shape.size ≤ elem.shape.size * len := by
            rw [Nat.mul_comm elem.shape.size]
            exact Nat.mul_le_mul_right _ (by omega)
          rw [Nat.add_mul, Nat.one_mul] at inside
          rw [List.zipIdx_cons, List.foldl_cons,
            ih _ _ (fun other member => allTyped other (.tail _ member)) (by omega)]
          apply store_outside undef elem value _ current address (allTyped value (List.mem_cons_self ..))
          simp only
          omega
      rw [store]
      exact step 0 memory elems elemTyped (by omega)

theorem storeFields_outside (undef : Memory) : ∀ (tys : List LlvmTy) (values : List LlvmVal)
    (base start : Nat) (memory : Memory) (address : Nat), HasVals tys values →
    (address < base + start ∨ base + RecordLayout.endFrom start (shapes tys) ≤ address) →
    storeFields undef tys values base start memory address = memory address
  | [], [], base, start, memory, address, _, _ => by rw [storeFields]; simp
  | ty :: tys, value :: values, base, start, memory, address, typed, outside => by
      obtain ⟨headTyped, tailTyped⟩ := typed
      have placed := le_alignUp start ty.shape.align (align_pos ty)
      have ends := RecordLayout.le_endFrom (aligned_shapes tys)
        (RecordLayout.alignUp start ty.shape.align + ty.shape.size)
      simp only [shapes, RecordLayout.endFrom] at outside
      rw [storeFields, storeFields_outside undef tys values base _ _ address tailTyped (by omega)]
      exact store_outside undef ty value _ memory address headTyped (by omega)

end

mutual

theorem holds_congr : ∀ (ty : LlvmTy) (value : LlvmVal) (first second : Memory)
    (firstBase secondBase : Nat), ty.HasVal value →
    (∀ index < ty.shape.size, first (firstBase + index) = second (secondBase + index)) →
    ty.Holds value first firstBase → ty.Holds value second secondBase
  | .int _, .scalar _, _, _, _, _, _, same, holds | .float _, .scalar _, _, _, _, _, _, same, holds
  | .ptr, .scalar _, _, _, _, _, _, same, holds => by
      rw [shape] at same
      rw [Holds] at holds ⊢
      rw [← readLe_congr same]
      exact holds
  | .struct fields, .agg elems, first, second, firstBase, secondBase, typed, same, holds => by
      have ends := RecordLayout.endFrom_le_size (shapes fields)
      apply holdFields_congr fields elems first second firstBase secondBase 0 typed _ holds
      intro index _ bound
      exact same index (by simp [shape, RecordLayout.record]; omega)
  | .array elem len, .agg elems, first, second, firstBase, secondBase, typed, same, holds => by
      rw [Holds] at holds ⊢
      obtain ⟨_, elemTyped⟩ := typed
      intro index value found
      have bound := (List.getElem?_eq_some_iff.mp found).1
      have inside : (index + 1) * elem.shape.size ≤ elem.shape.size * len := by
        rw [Nat.mul_comm elem.shape.size]
        exact Nat.mul_le_mul_right _ (by omega)
      rw [Nat.add_mul, Nat.one_mul] at inside
      apply holds_congr elem value first second _ _ (elemTyped value (List.mem_of_getElem? found)) _
        (holds index value found)
      intro offset _
      have shifted := same (index * elem.shape.size + offset) (by simp only [shape]; omega)
      rw [Nat.add_assoc, Nat.add_assoc]
      exact shifted

theorem holdFields_congr : ∀ (tys : List LlvmTy) (values : List LlvmVal) (first second : Memory)
    (firstBase secondBase start : Nat), HasVals tys values →
    (∀ index, start ≤ index → index < RecordLayout.endFrom start (shapes tys) →
      first (firstBase + index) = second (secondBase + index)) →
    HoldFields tys values first firstBase start → HoldFields tys values second secondBase start
  | [], [], _, _, _, _, _, _, _, _ => trivial
  | ty :: tys, value :: values, first, second, firstBase, secondBase, start, typed, same, holds => by
      obtain ⟨headTyped, tailTyped⟩ := typed
      obtain ⟨headHolds, tailHolds⟩ := holds
      have placed := le_alignUp start ty.shape.align (align_pos ty)
      have ends := RecordLayout.le_endFrom (aligned_shapes tys)
        (RecordLayout.alignUp start ty.shape.align + ty.shape.size)
      simp only [shapes, RecordLayout.endFrom] at same
      constructor
      · apply holds_congr ty value first second _ _ headTyped _ headHolds
        intro index _
        rw [Nat.add_assoc, Nat.add_assoc]
        exact same _ (by omega) (by omega)
      · apply holdFields_congr tys values first second firstBase secondBase _ tailTyped _ tailHolds
        intro index _ upper
        exact same index (by omega) upper

end

mutual

theorem holds_store (undef : Memory) : ∀ (ty : LlvmTy) (value : LlvmVal) (base : Nat)
    (memory : Memory), ty.HasVal value → ty.Holds value (ty.store undef value base memory) base
  | .int bits, .scalar _, _, _, typed | .float bits, .scalar _, _, _, typed => by
      have small := two_pow_le bits
      simp only [HasVal] at typed
      rw [Holds, store, readLe_writeLe, Nat.mod_eq_of_lt (by omega)]
  | .ptr, .scalar value, base, memory, typed => by
      simp only [HasVal] at typed
      rw [Holds, store, readLe_writeLe, Nat.mod_eq_of_lt (by omega)]
  | .struct fields, .agg elems, base, memory, typed => by
      exact holds_storeFields undef fields elems base 0 _ typed
  | .array elem len, .agg elems, base, memory, typed => by
      obtain ⟨length, elemTyped⟩ := typed
      have step : ∀ (rest : List LlvmVal) (start : Nat) (current : Memory),
          (∀ value ∈ rest, elem.HasVal value) → ∀ (index : Nat) value, rest[index]? = some value →
          elem.Holds value ((rest.zipIdx start).foldl (fun current entry =>
            elem.store undef entry.1 (base + entry.2 * elem.shape.size) current) current)
              (base + (start + index) * elem.shape.size) := by
        intro rest
        induction rest using List.reverseRecOn with
        | nil =>
          intro start current _ index value found
          simp at found
        | append_singleton rest last ih =>
          intro start current allTyped index value found
          have lastTyped := allTyped last (by simp)
          have bound := (List.getElem?_eq_some_iff.mp found).1
          rw [List.length_append, List.length_singleton] at bound
          rw [List.zipIdx_append, List.foldl_append]
          simp only [List.zipIdx_cons, List.zipIdx_nil, List.foldl_cons, List.foldl_nil]
          by_cases before : index < rest.length
          · rw [List.getElem?_append_left before] at found
            have earlier := ih start current
              (fun other member => allTyped other (List.mem_append_left _ member)) index value found
            apply holds_congr elem value _ _ _ _
              (allTyped value (List.mem_append_left _ (List.mem_of_getElem? found))) _ earlier
            intro _ _
            have apart : (start + index + 1) * elem.shape.size ≤ (start + rest.length) * elem.shape.size :=
              Nat.mul_le_mul_right _ (by omega)
            rw [Nat.add_mul (start + index) 1, Nat.one_mul] at apart
            rw [store_outside undef elem last _ _ _ lastTyped (by omega)]
          · have isLast : index = rest.length := by omega
            subst isLast
            rw [List.getElem?_append_right (Nat.le_refl _), Nat.sub_self] at found
            cases found
            exact holds_store undef elem last _ _ lastTyped
      rw [Holds, store]
      intro index value found
      have held := step elems 0 memory elemTyped index value found
      rw [Nat.zero_add] at held
      exact held

theorem holds_storeFields (undef : Memory) : ∀ (tys : List LlvmTy) (values : List LlvmVal)
    (base start : Nat) (memory : Memory), HasVals tys values →
    HoldFields tys values (storeFields undef tys values base start memory) base start
  | [], [], _, _, _, _ => trivial
  | ty :: tys, value :: values, base, start, memory, typed => by
      obtain ⟨headTyped, tailTyped⟩ := typed
      rw [storeFields]
      constructor
      · apply holds_congr ty value _ _ _ _ headTyped _
          (holds_store undef ty value (base + RecordLayout.alignUp start ty.shape.align) memory headTyped)
        intro _ _
        rw [storeFields_outside undef tys values base _ _ _ tailTyped (by omega)]
      · exact holds_storeFields undef tys values base _ _ tailTyped

end

mutual

theorem load_of_holds : ∀ (ty : LlvmTy) (value : LlvmVal) (memory : Memory) (base : Nat),
    ty.HasVal value → ty.Holds value memory base → ty.load memory base = value
  | .int bits, .scalar value, memory, base, typed, holds => by
      rw [load, holds, Nat.mod_eq_of_lt typed]
  | .float bits, .scalar value, memory, base, typed, holds => by
      simp only [HasVal] at typed
      simp only [Holds] at holds
      rw [load, holds, Nat.mod_eq_of_lt typed]
  | .ptr, .scalar value, memory, base, _, holds => by
      simp only [Holds] at holds
      rw [load, holds]
  | .struct fields, .agg elems, memory, base, typed, holds => by
      rw [load, loadFields_of_holds fields elems memory base 0 typed holds]
  | .array elem len, .agg elems, memory, base, typed, holds => by
      obtain ⟨length, elemTyped⟩ := typed
      rw [load]
      congr 1
      apply List.ext_getElem
      · simp [length]
      · intro index _ rightBound
        rw [List.getElem_map, List.getElem_range]
        have found : elems[index]? = some elems[index] := List.getElem?_eq_getElem rightBound
        exact load_of_holds elem elems[index] memory _
          (elemTyped _ (List.getElem_mem rightBound)) (holds index _ found)

theorem loadFields_of_holds : ∀ (tys : List LlvmTy) (values : List LlvmVal) (memory : Memory)
    (base start : Nat), HasVals tys values → HoldFields tys values memory base start →
    loadFields tys memory base start = values
  | [], [], _, _, _, _, _ => by rw [loadFields]
  | ty :: tys, value :: values, memory, base, start, typed, holds => by
      obtain ⟨headTyped, tailTyped⟩ := typed
      obtain ⟨headHolds, tailHolds⟩ := holds
      rw [loadFields, load_of_holds ty value memory _ headTyped headHolds,
        loadFields_of_holds tys values memory base _ tailTyped tailHolds]

end

mutual

theorem hasVal_load : ∀ (ty : LlvmTy) (memory : Memory) (base : Nat), ty.HasVal (ty.load memory base)
  | .int bits, memory, base => by
      exact Nat.mod_lt _ (Nat.two_pow_pos bits)
  | .float bits, memory, base => by
      rw [load, HasVal]
      exact Nat.mod_lt _ (Nat.two_pow_pos bits)
  | .ptr, memory, base => by
      have bound := readLe_lt memory base 8
      rw [load, HasVal]
      omega
  | .struct fields, memory, base => by
      rw [load, HasVal]
      exact hasVals_loadFields fields memory base 0
  | .array elem len, memory, base => by
      rw [load, HasVal]
      refine ⟨by simp, ?_⟩
      intro _ member
      obtain ⟨_, -, rfl⟩ := List.mem_map.mp member
      exact hasVal_load elem memory _

theorem hasVals_loadFields : ∀ (tys : List LlvmTy) (memory : Memory) (base start : Nat),
    HasVals tys (loadFields tys memory base start)
  | [], _, _, _ => trivial
  | ty :: tys, memory, base, start => by
      exact ⟨hasVal_load ty memory _, hasVals_loadFields tys memory base _⟩

end

mutual

theorem hasVal_zero : ∀ ty : LlvmTy, ty.HasVal ty.zero
  | .int bits => by
      exact Nat.two_pow_pos bits
  | .float bits => by
      rw [zero, HasVal]
      exact Nat.two_pow_pos bits
  | .ptr => by
      rw [zero, HasVal]
      exact Nat.two_pow_pos 64
  | .struct fields => by
      rw [zero, HasVal]
      exact hasVals_zeros fields
  | .array elem len => by
      rw [zero, HasVal]
      refine ⟨List.length_replicate, ?_⟩
      intro _ member
      rw [List.eq_of_mem_replicate member]
      exact hasVal_zero elem

theorem hasVals_zeros : ∀ tys : List LlvmTy, HasVals tys (zeros tys)
  | [] => trivial
  | ty :: tys => ⟨hasVal_zero ty, hasVals_zeros tys⟩

end

theorem bytes_of_holds_array (width count : Nat) {first second : Memory} {firstBase secondBase : Nat}
    (whole : (scalarShape (8 * width)).size = width)
    (holds : (array (int (8 * width)) count).Holds
      ((array (int (8 * width)) count).load first firstBase) second secondBase) :
    ∀ index < width * count, second (secondBase + index) = first (firstBase + index) := by
  intro index bound
  have positive : 0 < width := Nat.pos_of_mul_pos_right (Nat.zero_lt_of_lt bound)
  have quotient : index / width < count := Nat.div_lt_of_lt_mul bound
  have remainder := Nat.mod_lt index positive
  have split := Nat.div_add_mod index width
  have element := holds (index / width) _ (by
    rw [List.getElem?_map, List.getElem?_range quotient]
    rfl)
  simp only [load, Holds, shape, whole] at element
  rw [Nat.mod_eq_of_lt (by
    have small := readLe_lt first (firstBase + index / width * width) width
    rwa [show (256 : Nat) = 2 ^ 8 from rfl, ← Nat.pow_mul] at small)] at element
  have byte := bytes_of_readLe_eq element (index % width) remainder
  rw [Nat.mul_comm] at split
  rw [Nat.add_assoc, Nat.add_assoc, split] at byte
  exact byte

end LlvmTy
