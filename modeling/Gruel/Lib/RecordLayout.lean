import Mathlib.Data.List.Basic

/-!
Sequential placement of the fields of a record: each field starts at the next multiple of its
alignment, and the record ends at the next multiple of the largest alignment.
-/

namespace RecordLayout

variable {value align : Nat}

def alignUp (value align : Nat) : Nat := (value + align - 1) / align * align

theorem dvd_alignUp (value align : Nat) : align ∣ alignUp value align := Nat.dvd_mul_left _ _

theorem le_alignUp (value align : Nat) (positive : 0 < align) : value ≤ alignUp value align := by
  have split := Nat.div_add_mod (value + align - 1) align
  have remainder := Nat.mod_lt (value + align - 1) positive
  unfold alignUp
  rw [Nat.mul_comm]
  omega

theorem alignUp_le_of_dvd {bound : Nat} (positive : 0 < align) (valueLe : value ≤ bound)
    (divides : align ∣ bound) : alignUp value align ≤ bound := by
  obtain ⟨steps, rfl⟩ := divides
  have quotient : (value + align - 1) / align ≤ steps := by
    apply Nat.le_of_lt_succ
    apply (Nat.div_lt_iff_lt_mul positive).mpr
    rw [Nat.succ_mul, Nat.mul_comm steps align]
    omega
  have scaled := Nat.mul_le_mul_right align quotient
  rw [Nat.mul_comm align steps]
  exact scaled

theorem alignUp_of_dvd (positive : 0 < align) (divides : align ∣ value) : alignUp value align = value :=
  Nat.le_antisymm (alignUp_le_of_dvd positive (Nat.le_refl _) divides) (le_alignUp value align positive)

@[simp] theorem alignUp_one (value : Nat) : alignUp value 1 = value :=
  alignUp_of_dvd Nat.one_pos (Nat.one_dvd value)

theorem alignUp_mono {other : Nat} (positive : 0 < align) (le : value ≤ other) :
    alignUp value align ≤ alignUp other align :=
  alignUp_le_of_dvd positive (Nat.le_trans le (le_alignUp other align positive)) (dvd_alignUp other align)

theorem add_align_le_of_alignUp_lt {limit : Nat} (positive : 0 < align) (divides : align ∣ limit)
    (below : alignUp value align < limit) : value + align ≤ limit := by
  obtain ⟨steps, rfl⟩ := divides
  obtain ⟨quotient, equation⟩ := dvd_alignUp value align
  have valueLe := le_alignUp value align positive
  rw [equation] at below valueLe
  have stepBound : quotient + 1 ≤ steps := Nat.lt_of_mul_lt_mul_left below
  have scaled := Nat.mul_le_mul_left align stepBound
  rw [Nat.mul_add] at scaled
  omega

structure Shape where
  size : Nat
  align : Nat
  deriving DecidableEq, Repr

def offsetsFrom (start : Nat) : List Shape → List Nat
  | [] => []
  | shape :: rest =>
    alignUp start shape.align :: offsetsFrom (alignUp start shape.align + shape.size) rest

def endFrom (start : Nat) : List Shape → Nat
  | [] => start
  | shape :: rest => endFrom (alignUp start shape.align + shape.size) rest

def maxAlign : List Shape → Nat
  | [] => 1
  | shape :: rest => max shape.align (maxAlign rest)

def size (shapes : List Shape) : Nat := alignUp (endFrom 0 shapes) (maxAlign shapes)

def record (shapes : List Shape) : Shape := ⟨size shapes, maxAlign shapes⟩

def Aligned (shapes : List Shape) : Prop := ∀ shape ∈ shapes, 0 < shape.align

theorem Aligned.tail {shape : Shape} {shapes : List Shape} (aligned : Aligned (shape :: shapes)) : Aligned shapes :=
  fun other member => aligned other (List.mem_cons_of_mem shape member)

theorem maxAlign_pos (shapes : List Shape) : 0 < maxAlign shapes := by
  induction shapes with
  | nil => exact Nat.one_pos
  | cons shape rest ih => exact Nat.lt_of_lt_of_le ih (Nat.le_max_right _ _)

theorem le_endFrom {shapes : List Shape} (aligned : Aligned shapes) (start : Nat) : start ≤ endFrom start shapes := by
  induction shapes generalizing start with
  | nil => exact Nat.le_refl _
  | cons shape rest ih =>
    have placed := le_alignUp start shape.align (aligned shape (List.mem_cons_self ..))
    have later := ih aligned.tail (alignUp start shape.align + shape.size)
    simp only [endFrom]
    omega

theorem endFrom_le_size (shapes : List Shape) : endFrom 0 shapes ≤ size shapes :=
  le_alignUp _ _ (maxAlign_pos shapes)

end RecordLayout
