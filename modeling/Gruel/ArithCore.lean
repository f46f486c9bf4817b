import Mathlib.Algebra.GroupWithZero.Nat
import Mathlib.Algebra.Ring.Int.Defs
import Gruel.ComptimeCore

/-!
Integer and boolean expressions, evaluated by the compile-time interpreter and by the
generated code.
-/

namespace Gruel

namespace Arith

abbrev Name := Comptime.Name

def bits : Ty → Nat
  | .i8 | .u8 | .cSchar | .cUchar => 8
  | .i16 | .u16 | .cShort | .cUshort => 16
  | .i32 | .u32 | .cInt | .cUint => 32
  | _ => 64

attribute [grind =] bits

def isSignedType : Ty → Bool
  | .i8 | .i16 | .i32 | .i64 | .isize => true
  | _ => false

def literalFits (ty : Ty) (value : Nat) : Bool :=
  if ty.isSigned then decide (value < 2 ^ (bits ty - 1)) else decide (value < 2 ^ bits ty)

def negatedLiteralFits (ty : Ty) (value : Nat) : Bool :=
  ty.isSigned && decide (value ≤ 2 ^ (bits ty - 1))

def read (ty : Ty) (pattern : BitVec (bits ty)) : Int :=
  if ty.isSigned then pattern.toInt else pattern.toNat

def encode (ty : Ty) (value : Int) : BitVec (bits ty) := BitVec.ofInt (bits ty) value

def fits (ty : Ty) (value : Int) : Prop :=
  if ty.isSigned then -2 ^ (bits ty - 1) ≤ value ∧ value < 2 ^ (bits ty - 1)
  else 0 ≤ value ∧ value < 2 ^ bits ty

instance (ty : Ty) (value : Int) : Decidable (fits ty value) :=
  inferInstanceAs (Decidable (if ty.isSigned then -2 ^ (bits ty - 1) ≤ value ∧ value < 2 ^ (bits ty - 1)
    else 0 ≤ value ∧ value < 2 ^ bits ty))

/-- An expression with its inferred types: operators carry the type of their operands. -/
inductive Expr
  | int (value : Nat) (ty : Ty)
  -- The literal that only fits because it is negated.
  | negInt (value : Nat) (ty : Ty)
  | bool (value : Bool)
  | var (name : Name)
  | unary (op : UnaryOp) (ty : Ty) (operand : Expr)
  | bin (op : BinOp) (ty : Ty) (lhs rhs : Expr)
  | logic (op : LogicOp) (lhs rhs : Expr)
  | cast (fromTy ty : Ty) (operand : Expr)
  deriving DecidableEq, Repr

structure Let where
  name : Name
  ty : Ty
  init : Expr
  deriving DecidableEq, Repr

def lookup {α : Type} (entries : List (Name × α)) (name : Name) : Option α :=
  (entries.find? fun entry => entry.1 == name).map Prod.snd

def isComparison : BinOp → Bool
  | .eq | .ne | .lt | .gt | .le | .ge => true
  | _ => false

def binTy (op : BinOp) (ty : Ty) : Option Ty := if isComparison op then
    if ty.isInteger || (decide (ty = .bool) && (op == .eq || op == .ne)) then some .bool else none
  else if ty.isInteger then some ty else none

def unaryTy (op : UnaryOp) (ty : Ty) : Option Ty := match op with
  | .neg => if ty.isSigned then some ty else none
  | .not => if ty = .bool then some .bool else none
  | .bitNot => if ty.isInteger then some ty else none

def typeOf (vars : List (Name × Ty)) : Expr → Option Ty
  | .int value ty =>
    if ty.isInteger && decide (value < 2 ^ 64) && literalFits ty value then some ty else none
  -- Other types for which the negated literal fits make the analysis panic.
  | .negInt value ty =>
    if !literalFits ty value && negatedLiteralFits ty value && isSignedType ty &&
      decide (ty ≠ .isize) then some ty else none
  | .bool _ => some .bool
  | .var name => lookup vars name
  | .unary op ty operand => if typeOf vars operand = some ty then unaryTy op ty else none
  | .bin op ty lhs rhs =>
    if typeOf vars lhs = some ty ∧ typeOf vars rhs = some ty then binTy op ty else none
  | .logic _ lhs rhs =>
    if typeOf vars lhs = some .bool ∧ typeOf vars rhs = some .bool then some .bool else none
  | .cast fromTy ty operand =>
    if typeOf vars operand = some fromTy ∧ fromTy.isInteger ∧ ty.isInteger then some ty else none

def WellTyped (vars : List (Name × Ty)) : List Let → Expr → Prop
  | [], body => (typeOf vars body).isSome
  | binding :: lets, body =>
    typeOf vars binding.init = some binding.ty ∧ WellTyped ((binding.name, binding.ty) :: vars) lets body

instance decidableWellTyped (vars : List (Name × Ty)) : (lets : List Let) → (body : Expr) →
    Decidable (WellTyped vars lets body)
  | [], body => inferInstanceAs (Decidable ((typeOf vars body).isSome = true))
  | binding :: lets, body =>
    have := decidableWellTyped ((binding.name, binding.ty) :: vars) lets body
    inferInstanceAs (Decidable (typeOf vars binding.init = some binding.ty ∧
      WellTyped ((binding.name, binding.ty) :: vars) lets body))

inductive Val
  | int (value : Int)
  | bool (value : Bool)
  deriving DecidableEq, Repr

def compareBits (op : BinOp) {width : Nat} (signed : Bool) (lhs rhs : BitVec width) : Bool :=
  match op with
  | .lt => if signed then lhs.slt rhs else lhs.ult rhs
  | .gt => if signed then rhs.slt lhs else rhs.ult lhs
  | .le => if signed then lhs.sle rhs else lhs.ule rhs
  | _ => if signed then rhs.sle lhs else rhs.ule lhs

/-- No value where the code traps, or where the instruction has no defined result: a quotient
that overflows, or a shift by the width or more. -/
def translateBin (op : BinOp) (ty : Ty) (lhs rhs : BitVec (bits ty)) : Option Val := match op with
  | .add => some (.int (read ty (lhs + rhs)))
  | .sub => some (.int (read ty (lhs - rhs)))
  | .mul => some (.int (read ty (lhs * rhs)))
  | .div =>
    if rhs = 0 then none
    else if isSignedType ty then
      if lhs = BitVec.intMin _ ∧ rhs = -1 then none else some (.int (read ty (lhs.sdiv rhs)))
    else some (.int (read ty (lhs / rhs)))
  | .mod =>
    if rhs = 0 then none
    else if isSignedType ty then
      if lhs = BitVec.intMin _ ∧ rhs = -1 then none else some (.int (read ty (lhs.srem rhs)))
    else some (.int (read ty (lhs % rhs)))
  | .eq => some (.bool (lhs == rhs))
  | .ne => some (.bool (lhs != rhs))
  | .lt | .gt | .le | .ge => some (.bool (compareBits op (isSignedType ty) lhs rhs))
  | .bitAnd => some (.int (read ty (lhs &&& rhs)))
  | .bitOr => some (.int (read ty (lhs ||| rhs)))
  | .bitXor => some (.int (read ty (lhs ^^^ rhs)))
  | .shl => if rhs.toNat < bits ty then some (.int (read ty (lhs <<< rhs.toNat))) else none
  | .shr =>
    if rhs.toNat < bits ty then
      if isSignedType ty then some (.int (read ty (lhs.sshiftRight rhs.toNat)))
      else some (.int (read ty (lhs >>> rhs.toNat)))
    else none

def translateUnary (op : UnaryOp) (ty : Ty) (operand : BitVec (bits ty)) : Option Val :=
  match op with
  | .neg => some (.int (read ty (-operand)))
  | .not => none
  | .bitNot => some (.int (read ty (~~~operand)))

def extend (signed : Bool) {width : Nat} (wider : Nat) (pattern : BitVec width) : BitVec wider :=
  if signed then pattern.signExtend wider else pattern.setWidth wider

def evalBin (op : BinOp) (ty : Ty) : Val → Val → Option Val
  | .int lhs, .int rhs => translateBin op ty (encode ty lhs) (encode ty rhs)
  | .bool lhs, .bool rhs =>
    match op with
    | .eq => some (.bool (lhs == rhs))
    | .ne => some (.bool (lhs != rhs))
    | _ => none
  | _, _ => none

def evalUnary (op : UnaryOp) (ty : Ty) : Val → Option Val
  | .int operand => translateUnary op ty (encode ty operand)
  | .bool operand => if op = .not then some (.bool !operand) else none

-- A constant that is no `i64` cannot be evaluated, and a cast is not there at all.
def toComptime : Expr → Comptime.Expr
  | .int value _ =>
    if value < 2 ^ 63 then .literal (.integer (BitVec.ofNat 64 value)) else .unsupported
  | .negInt value _ =>
    .strict (.unary .neg) [if value < 2 ^ 63 then .literal (.integer (BitVec.ofNat 64 value)) else .unsupported]
  | .bool value => .literal (.bool value)
  | .var name => .varRef name
  | .unary op _ operand => .strict (.unary op) [toComptime operand]
  | .bin op _ lhs rhs => .strict (.bin op) [toComptime lhs, toComptime rhs]
  | .logic op lhs rhs => .strict (.logic op) [toComptime lhs, toComptime rhs]
  | .cast _ _ operand => toComptime operand

def comptimeBlock (lets : List Let) (body : Expr) : Comptime.Expr :=
  .block (lets.map (fun binding => .alloc (some binding.name) (toComptime binding.init)) ++ [toComptime body])

end Arith

end Gruel
