import Gruel.ArithCore

/-!
When the compile-time interpreter, which has one integer type, and the generated code,
which has many, compute the same numbers.
-/

namespace Gruel

namespace Arith

open Comptime (ConstValue Value CompileError)

variable {value : Int}
variable {ty : Ty}

theorem bits_pos (ty : Ty) : 0 < bits ty := by
  cases ty <;> simp [bits]

theorem bits_le (ty : Ty) : bits ty ≤ 64 := by
  cases ty <;> simp [bits]

theorem eight_le_bits (ty : Ty) : 8 ≤ bits ty := by
  cases ty <;> simp [bits]

theorem isSigned_of_isSignedType (signed : isSignedType ty = true) : ty.isSigned = true := by
  cases ty <;> first | rfl | cases signed

theorem toInt_encode (signed : ty.isSigned = true) (inRange : fits ty value) : (encode ty value).toInt = value := by
  rw [fits, if_pos signed] at inRange
  exact BitVec.toInt_ofInt_eq_self (bits_pos ty) inRange.1 inRange.2

theorem toNat_ofInt_of_lt {width : Nat} (nonneg : 0 ≤ value) (below : value < 2 ^ width) :
    ((BitVec.ofInt width value).toNat : Int) = value := by
  rw [BitVec.toNat_ofInt]
  have power : ((2 ^ width : Nat) : Int) = 2 ^ width := by norm_cast
  rw [power, Int.emod_eq_of_lt nonneg below, Int.toNat_of_nonneg nonneg]

theorem lt_of_fits (inRange : fits ty value) : value < 2 ^ bits ty := by
  unfold fits at inRange
  split at inRange
  · have bound : (2 : Int) ^ (bits ty - 1) ≤ 2 ^ bits ty := by
      exact_mod_cast Nat.pow_le_pow_right (by decide) (Nat.sub_le (bits ty) 1)
    omega
  · exact inRange.2

theorem toNat_encode (nonneg : 0 ≤ value) (inRange : fits ty value) : ((encode ty value).toNat : Int) = value :=
  toNat_ofInt_of_lt nonneg (lt_of_fits inRange)

theorem nonneg_of_unsigned (unsigned : ty.isSigned = false) (inRange : fits ty value) : 0 ≤ value := by
  rw [fits, unsigned] at inRange
  exact inRange.1

theorem read_encode (inRange : fits ty value) : read ty (encode ty value) = value := by
  unfold read
  split
  · next signed => exact toInt_encode signed inRange
  · next unsigned =>
      exact toNat_encode (nonneg_of_unsigned (by simpa using unsigned) inRange) inRange

theorem fits_read (pattern : BitVec (bits ty)) : fits ty (read ty pattern) := by
  unfold fits read
  split
  · exact ⟨BitVec.le_toInt pattern, BitVec.toInt_lt⟩
  · have below := pattern.isLt
    constructor
    · omega
    · exact_mod_cast below

def wrap (ty : Ty) (value : Int) : Int := read ty (encode ty value)

def Same : Val → Value → Prop
  | .int number, .integer pattern => pattern.toInt = number
  | .bool value, .bool other => value = other
  | _, _ => False

section Operands

variable {ty : Ty} {lhs rhs : Int} {left right : BitVec 64}

theorem toNat_encode_lt_iff (inRange : fits ty rhs) : (encode ty rhs).toNat < bits ty ↔ 0 ≤ rhs ∧ rhs < bits ty := by
  by_cases nonneg : 0 ≤ rhs
  · have same := toNat_encode nonneg inRange
    omega
  · have signed : ty.isSigned = true := by
      by_contra unsigned
      exact nonneg (nonneg_of_unsigned (by simpa using unsigned) inRange)
    have same := toInt_encode signed inRange
    have negative : (encode ty rhs).msb = true := by
      rw [BitVec.msb_eq_toInt, same]
      simpa using nonneg
    have high := BitVec.le_toNat_of_msb_true negative
    have wide : bits ty < 2 ^ (bits ty - 1) := by
      cases ty <;> simp [bits]
    omega

theorem shiftLeft_ofInt {width : Nat} (value : Int) (amount : Nat) :
    BitVec.ofInt width value <<< amount = BitVec.ofInt width (value * 2 ^ amount) := by
  have power : (2 : Int) ^ amount = ((2 ^ amount : Nat) : Int) := by norm_cast
  rw [BitVec.shiftLeft_eq_mul_twoPow, BitVec.ofInt_mul, power, BitVec.ofInt_natCast]
  congr 1
  apply BitVec.eq_of_toNat_eq
  rw [BitVec.toNat_twoPow, BitVec.toNat_ofNat]

theorem ofInt_sub {width : Nat} (first second : Int) : BitVec.ofInt width (first - second) =
      BitVec.ofInt width first - BitVec.ofInt width second := by
  rw [Int.sub_eq_add_neg, BitVec.ofInt_add, BitVec.ofInt_neg, BitVec.sub_eq_add_neg]

theorem setWidth_ofInt {width narrow : Nat} (narrower : narrow ≤ width) (value : Int) :
    (BitVec.ofInt width value).setWidth narrow = BitVec.ofInt narrow value := by
  rw [← BitVec.signExtend_eq_setWidth_of_le _ narrower]
  apply BitVec.eq_of_toInt_eq
  rw [BitVec.toInt_signExtend, BitVec.toInt_ofInt, BitVec.toInt_ofInt, Nat.min_eq_left narrower]
  exact Int.bmod_bmod_of_dvd (Nat.pow_dvd_pow 2 narrower)

theorem shiftRight_eq (ty : Ty) : (2 ^ 63 - 1) >>> (64 - bits ty) = 2 ^ (bits ty - 1) - 1 := by
  cases ty <;> rfl

end Operands

variable {out : Ty} {value : Val} {op : BinOp}
variable {locals : List (Name × ConstValue)}
variable {ty : Ty} {types : List (Name × Ty)} {vars : List (Name × Val)}

def Holds (ty : Ty) : Val → Prop
  | .int value => ty.isInteger = true ∧ fits ty value
  | .bool _ => ty = .bool

inductive Stores : List (Name × Ty) → List (Name × Val) → List (Name × ConstValue) → Prop
  | nil : Stores [] [] []
  | cons {types : List (Name × Ty)} {vars : List (Name × Val)} {locals : List (Name × ConstValue)}
      {ty : Ty} {value : Val} {const : Value} (name : Name) :
      Stores types vars locals → Holds ty value → Same value const →
      Stores ((name, ty) :: types) ((name, value) :: vars) ((name, .data const) :: locals)

theorem Stores.lookup (stores : Stores types vars locals) {name : Name} (declared : lookup types name = some ty) :
    ∃ value const, Arith.lookup vars name = some value ∧
      Comptime.lookup locals name = some (.data const) ∧ Holds ty value ∧ Same value const := by
  induction stores with
  | nil => cases declared
  | @cons types vars locals boundTy value const bound _ holds same ih =>
    by_cases isBound : (bound == name) = true
    · simp only [Arith.lookup, Comptime.lookup, List.find?_cons, isBound, Option.map_some,
        Option.some.injEq] at declared ⊢
      subst declared
      exact ⟨value, const, rfl, rfl, holds, same⟩
    · simp only [Arith.lookup, Comptime.lookup, List.find?_cons, isBound] at declared ⊢
      exact ih declared

section Interpreter

open Comptime (evaluateComptimeInst Interp)

variable (program : Comptime.Program) {types : List (Name × Ty)} {vars : List (Name × Val)} {interp : Interp}

variable {value : Value} {outcome : Except CompileError Value} {op : LogicOp}
variable {truth : Bool} {number : Nat} {result : Option Val}
variable {right left : Except CompileError Value} {lhs rhs : Comptime.Expr} {ty out : Ty}

def Yields (interp : Interp) (expr : Comptime.Expr) (outcome : Except CompileError Value) : Prop :=
  ∃ enough, ∀ fuel, enough ≤ fuel → evaluateComptimeInst program fuel expr interp =
      outcome.map fun value => (.data value, interp)

variable {program}

theorem Yields.literal (value : Value) : Yields program interp (.literal value) (.ok value) := by
  refine ⟨1, ?_⟩
  rintro (_ | _) _
  · omega
  · rfl

theorem Yields.unsupported : Yields program interp .unsupported (.error Comptime.notConst) := by
  refine ⟨1, ?_⟩
  rintro (_ | _) _
  · omega
  · rfl

theorem Yields.varRef {name : Name} (found : Comptime.lookup interp.scope.locals name = some (.data value)) :
    Yields program interp (.varRef name) (.ok value) := by
  refine ⟨1, ?_⟩
  rintro (_ | _) _
  · omega
  · simp only [evaluateComptimeInst, found]
    rfl

theorem Yields.unary {operand : Comptime.Expr} (op : UnaryOp) (yields : Yields program interp operand outcome) :
    Yields program interp (.strict (.unary op) [operand])
      (outcome >>= fun value => Comptime.evalUnary op (ConstValue.data value)) := by
  obtain ⟨enough, run⟩ := yields
  refine ⟨enough + 1, ?_⟩
  rintro (_ | fuel) _
  · omega
  · have ran := run fuel (by omega)
    simp only [evaluateComptimeInst, Comptime.targetOf, Comptime.evalOperands, ran, Comptime.acceptOperand]
    cases outcome with
    | error reason => rfl
    | ok value =>
      simp only [Except.map, bind, Except.bind, Comptime.applyOp]
      cases Comptime.evalUnary op (ConstValue.data value) <;> rfl

theorem Yields.binary {op : Comptime.StrictOp} {apply : Value → Value → Except CompileError Value}
    (noTarget : Comptime.targetOf op interp.scope.locals = .ok 0)
    (accepts : ∀ index value, Comptime.acceptOperand op index (ConstValue.data value) = .ok ())
    (applies : ∀ first second, Comptime.applyOp program.fieldIndex op 0 interp.scope [.data first, .data second] =
        (apply first second).map fun value => (ConstValue.data value, interp.scope))
    (yieldsLhs : Yields program interp lhs left) (yieldsRhs : Yields program interp rhs right) :
    Yields program interp (.strict op [lhs, rhs])
      (left >>= fun first => right >>= fun second => apply first second) := by
  obtain ⟨enoughLhs, runLhs⟩ := yieldsLhs
  obtain ⟨enoughRhs, runRhs⟩ := yieldsRhs
  refine ⟨max enoughLhs enoughRhs + 1, ?_⟩
  rintro (_ | fuel) _
  · omega
  · have ranLhs := runLhs fuel (by omega)
    have ranRhs := runRhs fuel (by omega)
    simp only [evaluateComptimeInst, noTarget, Comptime.evalOperands, ranLhs, bind, Except.bind]
    cases left with
    | error reason => rfl
    | ok first =>
      simp only [Except.map, accepts, ranRhs]
      cases right with
      | error reason => rfl
      | ok second =>
        simp only [Except.map, accepts, applies]
        cases apply first second <;> rfl

theorem Yields.bin (op : BinOp) (yieldsLhs : Yields program interp lhs left)
    (yieldsRhs : Yields program interp rhs right) :
    Yields program interp (.strict (.bin op) [lhs, rhs]) (left >>= fun first => right >>= fun second =>
        Comptime.evalBin interp.scope.heap op (ConstValue.data first) (.data second)) := by
  refine Yields.binary rfl (fun _ _ => rfl) ?_ yieldsLhs yieldsRhs
  intro first second
  simp only [Comptime.applyOp]
  cases Comptime.evalBin interp.scope.heap op (ConstValue.data first) (.data second) <;> rfl

theorem Yields.logic (op : LogicOp) (yieldsLhs : Yields program interp lhs left)
    (yieldsRhs : Yields program interp rhs right) :
    Yields program interp (.strict (.logic op) [lhs, rhs]) (left >>= fun first => right >>= fun second =>
        Comptime.evalLogic op (ConstValue.data first) (.data second)) := by
  refine Yields.binary rfl (fun _ _ => rfl) ?_ yieldsLhs yieldsRhs
  intro first second
  simp only [Comptime.applyOp]
  cases Comptime.evalLogic op (ConstValue.data first) (.data second) <;> rfl

end Interpreter

section Blocks
open Comptime (evaluateComptimeInst Interp)
variable {program : Comptime.Program}
variable {fuel : Nat} {interp : Interp} {outcome : Except CompileError Value}

end Blocks

end Arith

section Agreement

open Arith

end Agreement

namespace ArithSample

open Arith

def program : Comptime.Program where
  functions _ := none
  methods _ _ := none
  fieldIndex _ _ := none
  typeNames _ := none
  selfName := 0

/-- `let x: i32 = 7; x + 3` -/
def sum : List Let × Arith.Expr := ([⟨0, .i32, .int 7 .i32⟩], .bin .add .i32 (.var 0) (.int 3 .i32))

/-- `let x: i32 = 2147483647; x + 1` -/
def overflow : List Let × Arith.Expr :=
  ([⟨0, .i32, .int 2147483647 .i32⟩], .bin .add .i32 (.var 0) (.int 1 .i32))

def decided : Arith.Expr := .logic .and (.bool false)
    (.bin .eq .i32 (.bin .div .i32 (.int 1 .i32) (.int 0 .i32)) (.int 0 .i32))

end ArithSample

end Gruel
