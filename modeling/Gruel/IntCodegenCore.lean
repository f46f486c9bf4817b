import Gruel.Arith
import Gruel.Lib.LlvmInts

/-!
The instructions emitted for integer operators and integer casts, and what the language says
their results are.
-/

namespace Gruel

namespace IntCodegen

open LlvmInts
open Arith (bits isSignedType read encode fits wrap Val)

inductive Emitted (width : Nat)
  | int (word : LlvmInts.Word width)
  | bool (word : LlvmInts.Word 1)
  deriving DecidableEq

def Emitted.observe (ty : Ty) : Emitted (bits ty) → Behaviour Val
  | .int (some pattern) => .returns (.int (read ty pattern))
  | .bool (some bit) => .returns (.bool (decide (bit = 1)))
  | _ => .undefined

@[simp] theorem Emitted.observe_int (ty : Ty) (pattern : BitVec (bits ty)) :
    (Emitted.int (some pattern)).observe ty = .returns (.int (read ty pattern)) := rfl

@[simp] theorem Emitted.observe_poison (ty : Ty) :
    (Emitted.int none : Emitted (bits ty)).observe ty = .undefined := rfl

@[simp] theorem Emitted.observe_bool (ty : Ty) (truth : Bool) :
    (Emitted.bool (some (BitVec.ofBool truth))).observe ty = .returns (.bool truth) := by
  cases truth <;> rfl

def buildDivZeroCheck {width : Nat} (divisor : LlvmInts.Word width) : Behaviour Unit :=
  condBranch (icmp .eq divisor (some 0)) .panics (.returns ())

def buildDiv (ty : Ty) (lhs rhs : LlvmInts.Word (bits ty)) : Behaviour (LlvmInts.Word (bits ty)) :=
  if isSignedType ty then sdiv lhs rhs else udiv lhs rhs

def buildRem (ty : Ty) (lhs rhs : LlvmInts.Word (bits ty)) : Behaviour (LlvmInts.Word (bits ty)) :=
  if isSignedType ty then srem lhs rhs else urem lhs rhs

def orderingPredicate (signed unsigned : IntPredicate) (ty : Ty) : IntPredicate :=
  if isSignedType ty then signed else unsigned

def translateBin (op : BinOp) (ty : Ty) (lhs rhs : LlvmInts.Word (bits ty)) : Behaviour (Emitted (bits ty)) :=
  match op with
  | .add => pure (.int (add lhs rhs))
  | .sub => pure (.int (sub lhs rhs))
  | .mul => pure (.int (mul lhs rhs))
  | .div => do
      buildDivZeroCheck rhs
      pure (.int (← buildDiv ty lhs rhs))
  | .mod => do
      buildDivZeroCheck rhs
      pure (.int (← buildRem ty lhs rhs))
  | .eq => pure (.bool (icmp .eq lhs rhs))
  | .ne => pure (.bool (not (icmp .eq lhs rhs)))
  | .lt => pure (.bool (icmp (orderingPredicate .slt .ult ty) lhs rhs))
  | .gt => pure (.bool (icmp (orderingPredicate .sgt .ugt ty) lhs rhs))
  | .le => pure (.bool (icmp (orderingPredicate .sle .ule ty) lhs rhs))
  | .ge => pure (.bool (icmp (orderingPredicate .sge .uge ty) lhs rhs))
  | .bitAnd => pure (.int (and lhs rhs))
  | .bitOr => pure (.int (or lhs rhs))
  | .bitXor => pure (.int (xor lhs rhs))
  | .shl => pure (.int (shl lhs rhs))
  | .shr => pure (.int (if isSignedType ty then ashr lhs rhs else lshr lhs rhs))

def sameBits (fromTy ty : Ty) (value : LlvmInts.Word (bits fromTy)) : LlvmInts.Word (bits ty) :=
  value.map (BitVec.setWidth (bits ty))

def translateIntCast (fromTy ty : Ty) (value : LlvmInts.Word (bits fromTy)) : Behaviour (LlvmInts.Word (bits ty)) :=
  if bits fromTy < bits ty then
    pure (if isSignedType fromTy then sext (bits ty) value else zext (bits ty) value)
  else if bits ty < bits fromTy then
    let truncated := trunc (bits ty) value
    let extended :=
      if isSignedType ty then sext (bits fromTy) truncated else zext (bits fromTy) truncated
    condBranch (icmp .eq value extended) (.returns truncated) .panics
  else if isSignedType fromTy = isSignedType ty then pure (sameBits fromTy ty value)
  else
    let inRange := if isSignedType fromTy && !isSignedType ty then icmp .sge value (some 0)
      else icmp .ule value (some (BitVec.ofNat _ ((2 ^ 63 - 1) >>> (64 - bits fromTy))))
    condBranch inRange (.returns (sameBits fromTy ty value)) .panics

def runBin (op : BinOp) (ty : Ty) (lhs rhs : BitVec (bits ty)) : Behaviour Val := do
  (← translateBin op ty (some lhs) (some rhs)).observe ty

def observeCast (ty : Ty) : LlvmInts.Word (bits ty) → Behaviour Int
  | some pattern => .returns (read ty pattern)
  | none => .undefined

def runIntCast (fromTy ty : Ty) (value : BitVec (bits fromTy)) : Behaviour Int := do
  observeCast ty (← translateIntCast fromTy ty (some value))

def languageBin (op : BinOp) (ty : Ty) (lhs rhs : Int) : Behaviour Val := match op with
  | .add => .returns (.int (wrap ty (lhs + rhs)))
  | .sub => .returns (.int (wrap ty (lhs - rhs)))
  | .mul => .returns (.int (wrap ty (lhs * rhs)))
  | .div => if rhs = 0 then .panics else .returns (.int (wrap ty (lhs.tdiv rhs)))
  | .mod => if rhs = 0 then .panics else .returns (.int (wrap ty (lhs.tmod rhs)))
  | .eq => .returns (.bool (decide (lhs = rhs)))
  | .ne => .returns (.bool (decide (lhs ≠ rhs)))
  | .lt => .returns (.bool (decide (lhs < rhs)))
  | .gt => .returns (.bool (decide (lhs > rhs)))
  | .le => .returns (.bool (decide (lhs ≤ rhs)))
  | .ge => .returns (.bool (decide (lhs ≥ rhs)))
  | .bitAnd => .returns (.int (read ty (encode ty lhs &&& encode ty rhs)))
  | .bitOr => .returns (.int (read ty (encode ty lhs ||| encode ty rhs)))
  | .bitXor => .returns (.int (read ty (encode ty lhs ^^^ encode ty rhs)))
  | .shl => .returns (.int (wrap ty (lhs * 2 ^ (rhs % bits ty).toNat)))
  | .shr => .returns (.int (wrap ty (lhs / 2 ^ (rhs % bits ty).toNat)))

def languageCast (ty : Ty) (value : Int) : Behaviour Int :=
  if fits ty value then .returns value else .panics

def signLost (ty : Ty) : Bool := ty.isSigned && !isSignedType ty

/-- The operands for which the emitted operator gives the language's result. -/
def BinDefined (op : BinOp) (ty : Ty) (lhs rhs : Int) : Prop := match op with
  | .div =>
    rhs = 0 ∨ (isSignedType ty = true → ¬ (lhs = -2 ^ (bits ty - 1) ∧ rhs = -1)) ∧
      (signLost ty = true → UdivAgrees lhs rhs)
  | .mod =>
    rhs = 0 ∨ (isSignedType ty = true → ¬ (lhs = -2 ^ (bits ty - 1) ∧ rhs = -1)) ∧
      (signLost ty = true → UremAgrees (bits ty) lhs rhs)
  | .lt | .gt | .le | .ge => signLost ty = true → (lhs < 0 ↔ rhs < 0)
  | .shl => 0 ≤ rhs ∧ rhs < bits ty
  | .shr => 0 ≤ rhs ∧ rhs < bits ty ∧ (signLost ty = true → 0 ≤ lhs ∨ rhs = 0)
  | _ => True

/-- The values for which the emitted cast gives the language's result. -/
def CastExact (fromTy ty : Ty) (value : Int) : Prop := if bits fromTy < bits ty then
    0 ≤ value ∨ isSignedType fromTy = true ∧ ty.isSigned = true
  else if bits ty < bits fromTy then
    if isSignedType ty then
      fromTy.isSigned = true ∨ value < 2 ^ bits fromTy - 2 ^ (bits ty - 1)
    else if ty.isSigned then
      value < -2 ^ (bits ty - 1) ∨ 0 ≤ value ∧ value < 2 ^ (bits ty - 1) ∨ 2 ^ bits ty ≤ value
    else True
  else if isSignedType fromTy = isSignedType ty then
    fromTy.isSigned = ty.isSigned ∨ fits ty value
  else fromTy.isSigned ≠ ty.isSigned ∨ 0 ≤ value

end IntCodegen

end Gruel
