import Mathlib.Algebra.Group.Nat.Defs
import Mathlib.Data.List.Basic

/-! Byte-addressed memory with little-endian integer access. -/

namespace ByteMemory

variable {width base value : Nat} {memory : Memory}
variable {first second : Memory} {firstBase secondBase : Nat}

abbrev Memory := Nat → UInt8

def readLe (memory : Memory) (base : Nat) : Nat → Nat
  | 0 => 0
  | width + 1 => (memory base).toNat + 256 * readLe memory (base + 1) width

theorem readLe_lt (memory : Memory) (base width : Nat) : readLe memory base width < 256 ^ width := by
  induction width generalizing base with
  | zero => exact Nat.one_pos
  | succ width ih =>
    have low : (memory base).toNat < 256 := (memory base).toNat_lt
    have high := ih (base + 1)
    simp only [readLe, Nat.pow_succ]
    omega

theorem readLe_congr (same : ∀ index < width, first (firstBase + index) = second (secondBase + index)) :
    readLe first firstBase width = readLe second secondBase width := by
  induction width generalizing firstBase secondBase with
  | zero => rfl
  | succ width ih =>
    have head := same 0 (Nat.succ_pos width)
    have tail : readLe first (firstBase + 1) width = readLe second (secondBase + 1) width := by
      apply ih
      intro index _
      have shifted := same (index + 1) (by omega)
      rw [Nat.add_assoc, Nat.add_assoc, Nat.add_comm 1 index]
      exact shifted
    simp only [Nat.add_zero] at head
    simp [readLe, head, tail]

def writeLe (memory : Memory) (base width value : Nat) : Memory := fun address =>
  if base ≤ address ∧ address < base + width then UInt8.ofNat (value / 256 ^ (address - base))
  else memory address

theorem writeLe_outside {address : Nat} (outside : address < base ∨ base + width ≤ address) :
    writeLe memory base width value address = memory address := by
  unfold writeLe
  rw [if_neg (by omega)]

theorem writeLe_inside {index : Nat} (inside : index < width) :
    writeLe memory base width value (base + index) = UInt8.ofNat (value / 256 ^ index) := by
  unfold writeLe
  rw [if_pos (by omega), Nat.add_sub_cancel_left]

theorem readLe_of_bytes (bytes : ∀ index < width, memory (base + index) = UInt8.ofNat (value / 256 ^ index)) :
    readLe memory base width = value % 256 ^ width := by
  induction width generalizing base value with
  | zero => simp [readLe, Nat.mod_one]
  | succ width ih =>
    have head := bytes 0 (Nat.succ_pos width)
    have tail : readLe memory (base + 1) width = value / 256 % 256 ^ width := by
      apply ih
      intro index _
      have shifted := bytes (index + 1) (by omega)
      rw [Nat.add_assoc, Nat.add_comm 1 index, shifted, Nat.div_div_eq_div_mul, Nat.pow_succ,
        Nat.mul_comm (256 ^ index) 256]
    simp only [Nat.add_zero, Nat.pow_zero, Nat.div_one] at head
    rw [readLe, head, tail, Nat.pow_succ, Nat.mul_comm (256 ^ width) 256, Nat.mod_mul]
    simp

theorem readLe_writeLe (memory : Memory) (base width value : Nat) :
    readLe (writeLe memory base width value) base width = value % 256 ^ width :=
  readLe_of_bytes fun _ inside => writeLe_inside inside

theorem bytes_of_readLe_eq (same : readLe first firstBase width = readLe second secondBase width) :
    ∀ index < width, first (firstBase + index) = second (secondBase + index) := by
  induction width generalizing firstBase secondBase with
  | zero =>
    omega
  | succ width ih =>
    intro index _
    have firstLow : (first firstBase).toNat < 256 := (first firstBase).toNat_lt
    have secondLow : (second secondBase).toNat < 256 := (second secondBase).toNat_lt
    simp only [readLe] at same
    cases index with
    | zero =>
      apply UInt8.toNat_inj.mp
      simp only [Nat.add_zero]
      omega
    | succ index =>
      have rest : readLe first (firstBase + 1) width = readLe second (secondBase + 1) width := by
        omega
      have tail := ih rest index (by omega)
      rw [Nat.add_right_comm firstBase, Nat.add_right_comm secondBase] at tail
      exact tail

end ByteMemory
