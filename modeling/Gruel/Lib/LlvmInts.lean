import Mathlib.Algebra.Group.Int.Defs
import Mathlib.Algebra.Group.Nat.Defs
import Mathlib.Data.Int.Basic

/-!
Integer instructions of LLVM, with poison and undefined behaviour as its language reference
gives them, and where the unsigned instructions compute what the signed ones do.
-/

namespace LlvmInts

/-- The bits of a value; none for poison. -/
abbrev Word (width : Nat) := Option (BitVec width)

inductive Behaviour (α : Type)
  | returns (value : α)
  | panics
  | undefined
  deriving DecidableEq, Repr

namespace Behaviour

variable {α β : Type}

def andThen (first : Behaviour α) (next : α → Behaviour β) : Behaviour β := match first with
  | returns value => next value
  | panics => panics
  | undefined => undefined

instance : Monad Behaviour where
  pure := returns
  bind := andThen

@[simp] theorem pure_eq (value : α) : (pure value : Behaviour α) = returns value := rfl

@[simp] theorem returns_bind (value : α) (next : α → Behaviour β) : (returns value >>= next) = next value := rfl

@[simp] theorem panics_bind (next : α → Behaviour β) : (panics >>= next) = panics := rfl

@[simp] theorem undefined_bind (next : α → Behaviour β) : (undefined >>= next) = undefined := rfl

end Behaviour

variable {width : Nat}

def Word.lift {target : Nat} (combine : BitVec width → BitVec width → BitVec target) :
    Word width → Word width → Word target
  | some lhs, some rhs => some (combine lhs rhs)
  | _, _ => none

def add (lhs rhs : Word width) : Word width := .lift (· + ·) lhs rhs

def sub (lhs rhs : Word width) : Word width := .lift (· - ·) lhs rhs

def mul (lhs rhs : Word width) : Word width := .lift (· * ·) lhs rhs

def and (lhs rhs : Word width) : Word width := .lift (· &&& ·) lhs rhs

def or (lhs rhs : Word width) : Word width := .lift (· ||| ·) lhs rhs

def xor (lhs rhs : Word width) : Word width := .lift (· ^^^ ·) lhs rhs

def divide (traps : BitVec width → BitVec width → Bool) (quotient : BitVec width → BitVec width → BitVec width) :
    Word width → Word width → Behaviour (Word width)
  | some lhs, some rhs => if traps lhs rhs then .undefined else .returns (some (quotient lhs rhs))
  | none, some rhs => if rhs = 0 then .undefined else .returns none
  | _, none => .undefined

attribute [grind =] divide

def udiv (lhs rhs : Word width) : Behaviour (Word width) :=
  divide (fun _ rhs => decide (rhs = 0)) (· / ·) lhs rhs

def urem (lhs rhs : Word width) : Behaviour (Word width) :=
  divide (fun _ rhs => decide (rhs = 0)) (· % ·) lhs rhs

def signedTraps (lhs rhs : BitVec width) : Bool :=
  decide (rhs = 0 ∨ lhs = BitVec.intMin width ∧ rhs = -1)

def sdiv (lhs rhs : Word width) : Behaviour (Word width) := divide signedTraps BitVec.sdiv lhs rhs

def srem (lhs rhs : Word width) : Behaviour (Word width) := divide signedTraps BitVec.srem lhs rhs

def shift (move : BitVec width → Nat → BitVec width) : Word width → Word width → Word width
  | some lhs, some rhs => if rhs.toNat < width then some (move lhs rhs.toNat) else none
  | _, _ => none

def shl (lhs rhs : Word width) : Word width := shift (· <<< ·) lhs rhs

def lshr (lhs rhs : Word width) : Word width := shift (· >>> ·) lhs rhs

def ashr (lhs rhs : Word width) : Word width := shift BitVec.sshiftRight lhs rhs

inductive IntPredicate
  | eq | ult | ugt | ule | uge | slt | sgt | sle | sge
  deriving DecidableEq, Repr

def IntPredicate.holds (predicate : IntPredicate) (lhs rhs : BitVec width) : Bool :=
  match predicate with
  | eq => lhs == rhs
  | ult => lhs.ult rhs
  | ugt => rhs.ult lhs
  | ule => lhs.ule rhs
  | uge => rhs.ule lhs
  | slt => lhs.slt rhs
  | sgt => rhs.slt lhs
  | sle => lhs.sle rhs
  | sge => rhs.sle lhs

def icmp (predicate : IntPredicate) (lhs rhs : Word width) : Word 1 :=
  .lift (fun lhs rhs => BitVec.ofBool (predicate.holds lhs rhs)) lhs rhs

def not (value : Word width) : Word width := value.map (~~~·)

def trunc (target : Nat) (value : Word width) : Word target := value.map (BitVec.setWidth target)

def zext (target : Nat) (value : Word width) : Word target := value.map (BitVec.setWidth target)

def sext (target : Nat) (value : Word width) : Word target := value.map (BitVec.signExtend target)

def condBranch {α : Type} (condition : Word 1) (onTrue onFalse : Behaviour α) : Behaviour α :=
  match condition with
  | some bit => if bit = 1 then onTrue else onFalse
  | none => .undefined

section Defined

variable (lhs rhs : BitVec width)

@[simp] theorem add_some : add (some lhs) (some rhs) = some (lhs + rhs) := rfl

@[simp] theorem sub_some : sub (some lhs) (some rhs) = some (lhs - rhs) := rfl

@[simp] theorem mul_some : mul (some lhs) (some rhs) = some (lhs * rhs) := rfl

@[simp] theorem and_some : and (some lhs) (some rhs) = some (lhs &&& rhs) := rfl

@[simp] theorem or_some : or (some lhs) (some rhs) = some (lhs ||| rhs) := rfl

@[simp] theorem xor_some : xor (some lhs) (some rhs) = some (lhs ^^^ rhs) := rfl

@[simp] theorem udiv_some : udiv (some lhs) (some rhs) =
    if rhs = 0 then .undefined else .returns (some (lhs / rhs)) := by
  simp [udiv, divide]

@[simp] theorem urem_some : urem (some lhs) (some rhs) =
    if rhs = 0 then .undefined else .returns (some (lhs % rhs)) := by
  simp [urem, divide]

@[simp] theorem sdiv_some : sdiv (some lhs) (some rhs) =
    if rhs = 0 ∨ lhs = BitVec.intMin width ∧ rhs = -1 then .undefined
    else .returns (some (lhs.sdiv rhs)) := by
  simp [sdiv, divide, signedTraps]

@[simp] theorem srem_some : srem (some lhs) (some rhs) =
    if rhs = 0 ∨ lhs = BitVec.intMin width ∧ rhs = -1 then .undefined
    else .returns (some (lhs.srem rhs)) := by
  simp [srem, divide, signedTraps]

@[simp] theorem shl_some : shl (some lhs) (some rhs) =
    if rhs.toNat < width then some (lhs <<< rhs.toNat) else none := rfl

@[simp] theorem lshr_some : lshr (some lhs) (some rhs) =
    if rhs.toNat < width then some (lhs >>> rhs.toNat) else none := rfl

@[simp] theorem ashr_some : ashr (some lhs) (some rhs) =
    if rhs.toNat < width then some (lhs.sshiftRight rhs.toNat) else none := rfl

@[simp] theorem icmp_some (predicate : IntPredicate) : icmp predicate (some lhs) (some rhs) =
    some (BitVec.ofBool (predicate.holds lhs rhs)) := rfl

@[simp] theorem trunc_some (target : Nat) : trunc target (some lhs) = some (lhs.setWidth target) := rfl

@[simp] theorem zext_some (target : Nat) : zext target (some lhs) = some (lhs.setWidth target) := rfl

@[simp] theorem sext_some (target : Nat) : sext target (some lhs) = some (lhs.signExtend target) := rfl

theorem ofBool_eq_one (truth : Bool) : BitVec.ofBool truth = 1 ↔ truth = true := by
  cases truth <;> decide

@[simp] theorem not_ofBool (truth : Bool) : not (some (BitVec.ofBool truth)) = some (BitVec.ofBool !truth) := by
  cases truth <;> rfl

@[simp] theorem condBranch_ofBool {α : Type} (truth : Bool) (onTrue onFalse : Behaviour α) :
    condBranch (some (BitVec.ofBool truth)) onTrue onFalse = if truth = true then onTrue else onFalse := by
  simp only [condBranch, ofBool_eq_one]

end Defined

theorem halves (positive : 0 < width) (value : BitVec width) :
    value.msb = false ∧ value.toInt = value.toNat ∧ value.toNat < 2 ^ (width - 1) ∨
      value.msb = true ∧ value.toInt = value.toNat - 2 * (2 ^ (width - 1) : Nat) ∧
        2 ^ (width - 1) ≤ value.toNat ∧ value.toNat < 2 * 2 ^ (width - 1) := by
  have double : 2 ^ width = 2 * 2 ^ (width - 1) := by
    rw [← Nat.pow_succ', Nat.succ_eq_add_one, Nat.sub_add_cancel positive]
  have cond := value.toInt_eq_msb_cond
  have half := value.msb_eq_decide
  cases sign : value.msb
  · rw [sign] at cond half
    have lower : value.toNat < 2 ^ (width - 1) := by simpa using half.symm
    exact .inl ⟨rfl, by simpa using cond, lower⟩
  · rw [sign] at cond half
    have upper : 2 ^ (width - 1) ≤ value.toNat := by simpa using half.symm
    refine .inr ⟨rfl, ?_, upper, by omega⟩
    have power : ((2 ^ width : Nat) : Int) = 2 * (2 ^ (width - 1) : Nat) := by exact_mod_cast double
    simp only [if_true] at cond
    rw [cond, power]

def UdivAgrees (lhs rhs : Int) : Prop :=
  0 ≤ lhs ∧ (0 ≤ rhs ∨ lhs < -rhs) ∨ lhs < 0 ∧ (rhs = 1 ∨ lhs = rhs)

def UremAgrees (width : Nat) (lhs rhs : Int) : Prop := 0 ≤ lhs ∧ (0 ≤ rhs ∨ lhs < -rhs) ∨
    lhs < 0 ∧ (lhs = rhs ∨ 0 < rhs ∧ rhs ∣ lhs ∧ rhs ∣ 2 ^ width)

section Halves

variable {half lhs rhs : Nat}

theorem div_eq_neg_div_iff (large : 2 ≤ half) (lower : half ≤ lhs) (upper : lhs < 2 * half)
    (positive : 0 < rhs) (below : rhs < half) :
    lhs / rhs = (2 * half - (2 * half - lhs) / rhs) % (2 * half) ↔ rhs = 1 := by
  constructor
  · intro same
    by_contra notOne
    have small : lhs / rhs ≤ lhs / 2 := Nat.div_le_div_left (by omega) (by omega)
    have reached : 1 ≤ lhs / rhs := (Nat.one_le_div_iff positive).mpr (by omega)
    have quotient : (2 * half - lhs) / rhs ≤ (2 * half - lhs) / 2 :=
      Nat.div_le_div_left (by omega) (by omega)
    generalize (2 * half - lhs) / rhs = negated at same quotient
    by_cases none : negated = 0
    · rw [none, Nat.sub_zero, Nat.mod_self] at same
      omega
    · have noWrap : 2 * half - negated < 2 * half := by omega
      rw [Nat.mod_eq_of_lt noWrap] at same
      omega
  · rintro rfl
    rw [Nat.div_one, Nat.div_one, Nat.mod_eq_of_lt (by omega)]
    omega

theorem div_eq_div_of_upper (lhsLower : half ≤ lhs) (lhsUpper : lhs < 2 * half)
    (rhsLower : half ≤ rhs) (rhsUpper : rhs < 2 * half) :
    lhs / rhs = (2 * half - lhs) / (2 * half - rhs) ↔ lhs = rhs := by
  constructor
  · intro same
    by_contra differ
    by_cases less : lhs < rhs
    · rw [Nat.div_eq_of_lt less] at same
      have reached : 1 ≤ (2 * half - lhs) / (2 * half - rhs) :=
        (Nat.one_le_div_iff (by omega)).mpr (by omega)
      omega
    · rw [Nat.div_eq_of_lt (a := 2 * half - lhs) (by omega)] at same
      have reached : 1 ≤ lhs / rhs := (Nat.one_le_div_iff (by omega)).mpr (by omega)
      omega
  · rintro rfl
    rw [Nat.div_self (by omega), Nat.div_self (by omega)]

theorem mod_eq_mod_of_lower (lhsUpper : lhs < half) (rhsLower : half ≤ rhs) (rhsUpper : rhs < 2 * half) :
    lhs % rhs = lhs % (2 * half - rhs) ↔ lhs < 2 * half - rhs := by
  rw [Nat.mod_eq_of_lt (a := lhs) (b := rhs) (by omega)]
  constructor
  · have below := Nat.mod_lt lhs (y := 2 * half - rhs) (by omega)
    omega
  · intro below
    exact (Nat.mod_eq_of_lt below).symm

theorem mod_eq_neg_mod_iff (upper : lhs < 2 * half) (positive : 0 < rhs) (below : rhs < half) :
    lhs % rhs = (2 * half - (2 * half - lhs) % rhs) % (2 * half) ↔ rhs ∣ 2 * half - lhs ∧ rhs ∣ 2 * half := by
  have rest := Nat.mod_lt lhs positive
  have negatedRest := Nat.mod_lt (2 * half - lhs) positive
  by_cases divides : rhs ∣ 2 * half - lhs
  · rw [Nat.mod_eq_zero_of_dvd divides, Nat.sub_zero, Nat.mod_self, ← Nat.dvd_iff_mod_eq_zero]
    have whole : 2 * half = (2 * half - lhs) + lhs := by omega
    constructor
    · intro dividesLhs
      exact ⟨divides, by rw [whole]; exact Nat.dvd_add divides dividesLhs⟩
    · rintro ⟨-, dividesWhole⟩
      rw [whole] at dividesWhole
      exact (Nat.dvd_add_right divides).mp dividesWhole
  · have left : (2 * half - lhs) % rhs ≠ 0 := fun zero => divides (Nat.dvd_of_mod_eq_zero zero)
    generalize (2 * half - lhs) % rhs = negated at left negatedRest ⊢
    rw [Nat.mod_eq_of_lt (a := 2 * half - negated) (by omega)]
    constructor
    · omega
    · rintro ⟨contradiction, -⟩
      exact absurd contradiction divides

theorem mod_eq_neg_mod_of_upper (lhsLower : half ≤ lhs) (lhsUpper : lhs < 2 * half)
    (rhsLower : half ≤ rhs) (rhsUpper : rhs < 2 * half) :
    lhs % rhs = (2 * half - (2 * half - lhs) % (2 * half - rhs)) % (2 * half) ↔ lhs = rhs := by
  rcases Nat.lt_trichotomy lhs rhs with less | same | _
  · rw [Nat.mod_eq_of_lt less]
    have negatedRest := Nat.mod_lt (2 * half - lhs) (y := 2 * half - rhs) (by omega)
    generalize (2 * half - lhs) % (2 * half - rhs) = negated at negatedRest ⊢
    by_cases zero : negated = 0
    · rw [zero, Nat.sub_zero, Nat.mod_self]
      omega
    · rw [Nat.mod_eq_of_lt (a := 2 * half - negated) (by omega)]
      omega
  · subst same
    simp
  · rw [Nat.mod_eq_of_lt (a := 2 * half - lhs) (b := 2 * half - rhs) (by omega),
      Nat.mod_eq_of_lt (a := 2 * half - (2 * half - lhs)) (by omega), Nat.mod_eq_sub_mod (by omega),
      Nat.mod_eq_of_lt (a := lhs - rhs) (by omega)]
    omega

end Halves

theorem toNat_pos {value : BitVec width} (nonzero : value ≠ 0) : 0 < value.toNat := by
  rw [Nat.pos_iff_ne_zero]
  intro zero
  exact nonzero (BitVec.eq_of_toNat_eq zero)

theorem two_pow_eq (positive : 0 < width) : 2 ^ width = 2 * 2 ^ (width - 1) := by
  rw [← Nat.pow_succ', Nat.succ_eq_add_one, Nat.sub_add_cancel positive]

theorem two_le_half (wide : 1 < width) : 2 ≤ 2 ^ (width - 1) := by
  calc 2 = 2 ^ 1 := rfl
    _ ≤ 2 ^ (width - 1) := Nat.pow_le_pow_right (by decide) (by omega)

variable {lhs rhs : BitVec width}

theorem udiv_eq_sdiv_iff (wide : 1 < width) (nonzero : rhs ≠ 0) :
    lhs / rhs = lhs.sdiv rhs ↔ UdivAgrees lhs.toInt rhs.toInt := by
  have large := two_le_half wide
  have positive := toNat_pos nonzero
  unfold UdivAgrees
  rw [BitVec.sdiv_eq, ← BitVec.toNat_inj]
  rcases halves (by omega) lhs with
      ⟨lhsSign, lhsInt, lhsBelow⟩ | ⟨lhsSign, lhsInt, lhsLower, lhsUpper⟩ <;>
    rcases halves (by omega) rhs with
      ⟨rhsSign, rhsInt, rhsBelow⟩ | ⟨rhsSign, rhsInt, rhsLower, rhsUpper⟩ <;>
    rw [lhsSign, rhsSign, lhsInt, rhsInt] <;>
    simp only [BitVec.udiv_eq, BitVec.toNat_udiv, BitVec.toNat_neg, two_pow_eq (by omega : 0 < width)] <;>
    generalize 2 ^ (width - 1) = half at * <;>
    generalize lhs.toNat = left at * <;>
    generalize rhs.toNat = right at *
  · simp
  · have quotient : left / right = 0 := Nat.div_eq_of_lt (by omega)
    rw [quotient, Nat.mod_eq_of_lt (a := 2 * half - right) (by omega)]
    by_cases small : left < 2 * half - right
    · rw [Nat.div_eq_of_lt small, Nat.sub_zero, Nat.mod_self]
      omega
    · have reached : 1 ≤ left / (2 * half - right) := (Nat.one_le_div_iff (by omega)).mpr (by omega)
      have bounded := Nat.div_le_self left (2 * half - right)
      generalize left / (2 * half - right) = negated at reached bounded ⊢
      rw [Nat.mod_eq_of_lt (a := 2 * half - negated) (by omega)]
      omega
  · rw [Nat.mod_eq_of_lt (a := 2 * half - left) (by omega),
      div_eq_neg_div_iff large lhsLower lhsUpper positive rhsBelow]
    omega
  · rw [Nat.mod_eq_of_lt (a := 2 * half - left) (by omega), Nat.mod_eq_of_lt (a := 2 * half - right) (by omega),
      div_eq_div_of_upper lhsLower lhsUpper rhsLower rhsUpper]
    omega

theorem urem_eq_srem_iff (wide : 1 < width) (nonzero : rhs ≠ 0) :
    lhs % rhs = lhs.srem rhs ↔ UremAgrees width lhs.toInt rhs.toInt := by
  have positive := toNat_pos nonzero
  have power : (2 : Int) ^ width = 2 * (2 ^ (width - 1) : Nat) := by
    exact_mod_cast two_pow_eq (by omega : 0 < width)
  unfold UremAgrees
  rw [BitVec.srem_eq, ← BitVec.toNat_inj, power]
  rcases halves (by omega) lhs with
      ⟨lhsSign, lhsInt, lhsBelow⟩ | ⟨lhsSign, lhsInt, lhsLower, lhsUpper⟩ <;>
    rcases halves (by omega) rhs with
      ⟨rhsSign, rhsInt, rhsBelow⟩ | ⟨rhsSign, rhsInt, rhsLower, rhsUpper⟩ <;>
    rw [lhsSign, rhsSign, lhsInt, rhsInt] <;>
    simp only [BitVec.toNat_umod, BitVec.toNat_neg, two_pow_eq (by omega : 0 < width)] <;>
    generalize 2 ^ (width - 1) = half at * <;>
    generalize lhs.toNat = left at * <;>
    generalize rhs.toNat = right at *
  · simp
  · rw [Nat.mod_eq_of_lt (a := 2 * half - right) (by omega), mod_eq_mod_of_lower lhsBelow rhsLower rhsUpper]
    omega
  · rw [Nat.mod_eq_of_lt (a := 2 * half - left) (by omega), mod_eq_neg_mod_iff lhsUpper positive rhsBelow]
    have dividesLhs : (right : Int) ∣ left - 2 * half ↔ right ∣ 2 * half - left := by
      have negated : ((2 * half - left : Nat) : Int) = -(left - 2 * half) := by omega
      rw [← Int.natCast_dvd_natCast, negated, Int.dvd_neg]
    have dividesWhole : (right : Int) ∣ 2 * half ↔ right ∣ 2 * half := by
      exact_mod_cast Int.natCast_dvd_natCast
    omega
  · rw [Nat.mod_eq_of_lt (a := 2 * half - left) (by omega), Nat.mod_eq_of_lt (a := 2 * half - right) (by omega),
      mod_eq_neg_mod_of_upper lhsLower lhsUpper rhsLower rhsUpper]
    omega

theorem ult_eq_slt_iff (positive : 0 < width) :
    lhs.ult rhs = lhs.slt rhs ↔ (lhs.toInt < 0 ↔ rhs.toInt < 0) := by
  rw [BitVec.ult_eq_decide, BitVec.slt_eq_decide, decide_eq_decide]
  rcases halves positive lhs with ⟨-, lhsInt, _⟩ | ⟨-, lhsInt, _⟩ <;>
    rcases halves positive rhs with ⟨-, rhsInt, _⟩ | ⟨-, rhsInt, _⟩ <;>
    omega

theorem ule_eq_sle_iff (positive : 0 < width) :
    lhs.ule rhs = lhs.sle rhs ↔ (lhs.toInt < 0 ↔ rhs.toInt < 0) := by
  rw [BitVec.ule_eq_not_ult, BitVec.sle_eq_not_slt, Bool.not_inj_iff, ult_eq_slt_iff positive]
  exact iff_comm

theorem ushiftRight_eq_sshiftRight_iff (positive : 0 < width) {value : BitVec width}
    {amount : Nat} : value >>> amount = value.sshiftRight amount ↔ 0 ≤ value.toInt ∨ amount = 0 := by
  rcases halves positive value with ⟨sign, number, -⟩ | ⟨sign, number, -, _⟩
  · rw [BitVec.sshiftRight_eq_of_msb_false sign]
    simp only [true_iff]
    omega
  · constructor
    · intro same
      have signs := congrArg BitVec.msb same
      rw [BitVec.msb_ushiftRight, BitVec.msb_sshiftRight, sign] at signs
      right
      by_contra nonzero
      simp [Nat.pos_iff_ne_zero.mpr nonzero] at signs
    · rintro (_ | rfl)
      · omega
      · simp

end LlvmInts
