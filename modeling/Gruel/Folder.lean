import Gruel.FolderCore
import Gruel.Lib.Surviving

/-!
Where the constant folder and the interpreter agree.
-/

namespace Gruel

namespace Folder

open AnonTypes (AnonMethodSig CapturedValues Handle Sema)
open Comptime (CompileError ConstValue Name)

attribute [local simp] Comptime.Except.ok_bind fold

variable {operand lhs rhs : ConstValue} {value : Comptime.Value}

theorem asInteger_eq_some {value : BitVec 64} (isInteger : asInteger operand = some value) :
    operand = .data (.integer value) := by
  unfold asInteger at isInteger
  split at isInteger
  case h_1 => simp_all
  case h_2 => simp at isInteger

theorem asBool_eq_some {value : Bool} (isBool : asBool operand = some value) : operand = .data (.bool value) := by
  unfold asBool at isBool
  split at isBool
  case h_1 => simp_all
  case h_2 => simp at isBool

inductive Scalar : ConstValue → Prop
  | integer (value : BitVec 64) : Scalar (.data (.integer value))
  | bool (value : Bool) : Scalar (.data (.bool value))

theorem foldUnary_eq {op : UnaryOp} (folded : foldUnary op operand = some value) :
    Scalar operand ∧ Scalar (.data value) ∧ Comptime.evalUnary op operand = .ok value := by
  cases op with
  | neg | bitNot =>
    simp only [foldUnary, Option.bind_eq_bind, Option.bind_eq_some_iff, Option.some.injEq] at folded
    obtain ⟨integer, isInteger, rfl⟩ := folded
    rw [asInteger_eq_some isInteger]
    exact ⟨.integer integer, .integer _, rfl⟩
  | not =>
    simp only [foldUnary, Option.bind_eq_bind, Option.bind_eq_some_iff, Option.some.injEq] at folded
    obtain ⟨bool, isBool, rfl⟩ := folded
    rw [asBool_eq_some isBool]
    exact ⟨.bool bool, .bool _, rfl⟩

theorem compare_lt (left right : Int) : (compare left right == .lt) = decide (left < right) := by
  by_cases below : left < right
  · simp [below, Int.compare_eq_lt.mpr below]
  · have notLt : compare left right ≠ .lt := fun isLt => below (Int.compare_eq_lt.mp isLt)
    simp [below, notLt]

theorem compare_gt (left right : Int) : (compare left right == .gt) = decide (right < left) := by
  by_cases above : right < left
  · simp [above, Int.compare_eq_gt.mpr above]
  · have notGt : compare left right ≠ .gt := fun isGt => above (Int.compare_eq_gt.mp isGt)
    simp [above, notGt]

theorem compare_le (left right : Int) : (compare left right != .gt) = decide (left ≤ right) := by
  rw [bne, compare_gt]
  by_cases above : right < left
  · simp [above, Int.not_le.mpr above]
  · simp [above, Int.not_lt.mp above]

theorem compare_ge (left right : Int) : (compare left right != .lt) = decide (right ≤ left) := by
  rw [bne, compare_lt]
  by_cases below : left < right
  · simp [below, Int.not_le.mpr below]
  · simp [below, Int.not_lt.mp below]

theorem foldEq_eq {equal : Bool} (folded : foldEq lhs rhs = some equal) :
    Scalar lhs ∧ Scalar rhs ∧ ∀ heap, Comptime.evalEq heap lhs rhs = .ok equal := by
  unfold foldEq at folded
  split at folded
  case h_1 left right =>
      cases folded
      exact ⟨.integer left, .integer right, fun heap => rfl⟩
  case h_2 left right =>
      cases folded
      exact ⟨.bool left, .bool right, fun heap => rfl⟩
  case h_3 => simp at folded

theorem foldDivisor_eq {dividend divisor : BitVec 64} (folded : foldDivisor lhs rhs = some (dividend, divisor)) :
    lhs = .data (.integer dividend) ∧ rhs = .data (.integer divisor) ∧ divisor ≠ 0 := by
  simp only [foldDivisor, Option.bind_eq_bind, Option.bind_eq_some_iff] at folded
  obtain ⟨right, isRight, folded⟩ := folded
  by_cases zero : right = 0
  · simp [zero] at folded
  · simp only [zero, if_false, Option.bind_eq_some_iff] at folded
    obtain ⟨_, isLeft, folded⟩ := folded
    split at folded
    · simp at folded
    · cases folded
      exact ⟨asInteger_eq_some isLeft, asInteger_eq_some isRight, zero⟩

theorem foldShift_eq {amount : Nat} (folded : foldShift operand = some amount) :
    ∃ value, operand = .data (.integer value) ∧
      Comptime.shiftAmount (ConstValue.data (.integer value)) = .ok amount := by
  simp only [foldShift, Option.bind_eq_bind, Option.bind_eq_some_iff] at folded
  obtain ⟨value, isValue, folded⟩ := folded
  split at folded
  case isTrue small =>
      cases folded
      refine ⟨value, asInteger_eq_some isValue, ?_⟩
      have inRange : 0 ≤ value.toInt ∧ value.toInt < 64 := ⟨small.1, by omega⟩
      simp [Comptime.shiftAmount, Comptime.asInteger, inRange]
  case isFalse => simp at folded

theorem nonzero_eq {divisor : BitVec 64} (isNonzero : divisor ≠ 0) (what : String) :
    Comptime.nonzero what (ConstValue.data (.integer divisor)) = .ok divisor := by
  change (if divisor = 0 then _ else _) = _
  rw [if_neg isNonzero]

theorem foldBin_eq {op : BinOp} (folded : foldBin op lhs rhs = some value) :
    Scalar lhs ∧ Scalar rhs ∧ Scalar (.data value) ∧ ∀ heap, Comptime.evalBin heap op lhs rhs = .ok value := by
  cases op with
  | div | mod =>
    simp only [foldBin, Option.bind_eq_bind, Option.bind_eq_some_iff, Option.some.injEq] at folded
    obtain ⟨⟨dividend, divisor⟩, divides, rfl⟩ := folded
    obtain ⟨rfl, rfl, isNonzero⟩ := foldDivisor_eq divides
    refine ⟨.integer dividend, .integer divisor, .integer _, fun heap => ?_⟩
    simp only [Comptime.evalBin, nonzero_eq isNonzero, Comptime.Except.ok_bind]
    rfl
  | eq | ne =>
    simp only [foldBin, Option.bind_eq_bind, Option.bind_eq_some_iff, Option.some.injEq] at folded
    obtain ⟨_, compares, rfl⟩ := folded
    obtain ⟨left, right, evaluates⟩ := foldEq_eq compares
    refine ⟨left, right, .bool _, fun heap => ?_⟩
    simp [Comptime.evalBin, evaluates]
  | shl | shr =>
    simp only [foldBin, Option.bind_eq_bind, Option.bind_eq_some_iff, Option.some.injEq] at folded
    obtain ⟨_, shifts, left, isLeft, rfl⟩ := folded
    obtain ⟨right, rfl, inRange⟩ := foldShift_eq shifts
    rw [asInteger_eq_some isLeft]
    refine ⟨.integer left, .integer right, .integer _, fun heap => ?_⟩
    simp [Comptime.evalBin, inRange, Comptime.asInteger]
  | lt | gt | le | ge =>
    simp only [foldBin, Option.bind_eq_bind, Option.bind_eq_some_iff, Option.some.injEq] at folded
    obtain ⟨left, isLeft, right, isRight, rfl⟩ := folded
    rw [asInteger_eq_some isLeft, asInteger_eq_some isRight]
    refine ⟨.integer left, .integer right, .bool _, fun heap => ?_⟩
    simp [Comptime.evalBin, Comptime.evalOrdering, compare_lt, compare_gt, compare_le, compare_ge]
  | _ =>
    simp only [foldBin, Option.bind_eq_bind, Option.bind_eq_some_iff, Option.some.injEq] at folded
    obtain ⟨left, isLeft, right, isRight, rfl⟩ := folded
    rw [asInteger_eq_some isLeft, asInteger_eq_some isRight]
    exact ⟨.integer left, .integer right, .integer _, fun heap => rfl⟩

theorem foldLogic_eq {op : LogicOp} (folded : foldLogic op lhs rhs = some value) : Scalar lhs ∧ Scalar (.data value) ∧
      ((∀ other : ConstValue, Comptime.evalLogic op lhs other = .ok value) ∨
        (Scalar rhs ∧ Comptime.evalLogic op lhs rhs = .ok value)) := by
  cases op with
  | and =>
    simp only [foldLogic, Option.bind_eq_bind, Option.bind_eq_some_iff] at folded
    obtain ⟨left, isLeft, folded⟩ := folded
    rw [asBool_eq_some isLeft]
    refine ⟨.bool left, ?_⟩
    cases left with
    | false =>
      cases folded
      exact ⟨.bool _, .inl fun other => rfl⟩
    | true =>
      simp only [if_true, Option.bind_eq_some_iff, Option.some.injEq] at folded
      obtain ⟨right, isRight, rfl⟩ := folded
      rw [asBool_eq_some isRight]
      exact ⟨.bool _, .inr ⟨.bool right, rfl⟩⟩
  | or =>
    simp only [foldLogic, Option.bind_eq_bind, Option.bind_eq_some_iff] at folded
    obtain ⟨left, isLeft, folded⟩ := folded
    rw [asBool_eq_some isLeft]
    refine ⟨.bool left, ?_⟩
    cases left with
    | true =>
      cases folded
      exact ⟨.bool _, .inl fun other => rfl⟩
    | false =>
      simp only [Bool.false_eq_true, if_false, Option.bind_eq_some_iff, Option.some.injEq] at folded
      obtain ⟨right, isRight, rfl⟩ := folded
      rw [asBool_eq_some isRight]
      exact ⟨.bool _, .inr ⟨.bool right, rfl⟩⟩

variable {fuel : Nat} {sema : Sema}

section Simulation

variable {analyzer : Analyzer} {context : Context}
variable {state after : State} {inst : Inst} {value : ConstValue}

def interpretedVar (analyzer : Analyzer) (context : Context) (typeSubst : TypeSubst)
    (locals : List (Name × ConstValue)) (name : Name) : Option ConstValue :=
  match Comptime.lookup locals name with
  | some value => some value
  | none =>
    (Comptime.lookupType (interpretedProgram analyzer context) typeSubst name).map fun ty =>
      .data (.type ty)

structure LeavesAgree (analyzer : Analyzer) (context : Context) (leaves : Leaves)
    (typeSubst : TypeSubst) (locals : List (Name × ConstValue)) (sema : Sema) : Prop where
  varRef : ∀ name value other, leaves.varRef name = some value →
    interpretedVar analyzer context typeSubst locals name = some other → value = other
  typeConst : ∀ name ty other, leaves.typeConst name = some ty →
    (substLeaves analyzer typeSubst typeSubst locals).typeConst name = some other → ty = other
  anonStruct : ∀ literal made other, leaves.anonStruct literal sema = some made →
    (substLeaves analyzer typeSubst typeSubst locals).anonStruct literal sema = some other →
    made.1 = other.1
  anonEnum : ∀ literal made other, leaves.anonEnum literal sema = some made →
    (substLeaves analyzer typeSubst typeSubst locals).anonEnum literal sema = some other →
    made.1 = other.1

theorem delegate_ok (delegated : delegate analyzer inst state = .ok (value, after)) :
    ∃ sema, tryEvaluateConstWithSubst analyzer state.interp.typeOverrides
      state.interp.typeOverrides state.interp.scope.locals inst state.sema =
        some (value, sema) ∧ after = { state with sema := sema } := by
  unfold delegate at delegated
  split at delegated
  case h_1 found =>
      cases delegated
      exact ⟨_, found, rfl⟩
  case h_2 => simp at delegated

theorem evaluateInst_varRef {name : Name}
    (ran : evaluateInst analyzer context fuel (.varRef name) state = .ok (value, after)) :
    interpretedVar analyzer context state.interp.typeOverrides state.interp.scope.locals name =
      some value ∧ after = state := by
  simp only [evaluateInst] at ran
  unfold interpretedVar
  cases bound : Comptime.lookup state.interp.scope.locals name with
  | some held =>
    simp only [bound, Except.ok.injEq, Prod.mk.injEq] at ran
    obtain ⟨rfl, rfl⟩ := ran
    exact ⟨rfl, rfl⟩
  | none =>
    cases typed : Comptime.lookupType (interpretedProgram analyzer context) state.interp.typeOverrides name with
    | some ty =>
      simp only [bound, typed, Except.ok.injEq, Prod.mk.injEq] at ran
      obtain ⟨rfl, rfl⟩ := ran
      exact ⟨rfl, rfl⟩
    | none => simp [bound, typed] at ran

theorem evaluateInst_single: evaluateInst analyzer context fuel (.block [inst]) state =
      evaluateInst analyzer context fuel inst state := by
  simp only [evaluateInst, evaluateInsts]
  cases evaluateInst analyzer context fuel inst state with
  | error error => rfl
  | ok result =>
    obtain ⟨value, _⟩ := result
    cases value <;> rfl

variable {leaves : Leaves} {typeSubst : TypeSubst} {locals : List (Name × ConstValue)} {fuel : Nat}

/-- The folder and the interpreter leave the variables alone, and where one of the two values
is an integer or a Boolean they are equal.  The pools need not be the same: types are the only
values that depend on them. -/
theorem scalars_agree (vars : ∀ name value other, leaves.varRef name = some value →
      interpretedVar analyzer context typeSubst locals name = some other → value = other)
    (inst : Inst) {sema sema' : Sema} {state after : State} {value other : ConstValue}
    (types : state.interp.typeOverrides = typeSubst) (vals : state.interp.scope.locals = locals)
    (folded : fold leaves inst sema = some (value, sema'))
    (ran : evaluateInst analyzer context fuel inst state = .ok (other, after)) :
    after.interp = state.interp ∧ (Scalar value ∨ Scalar other → value = other) := by
  match inst, folded, ran with
  | .intConst number, folded, ran =>
    simp only [fold, Option.ite_none_right_eq_some, Option.some.injEq, Prod.mk.injEq] at folded
    obtain ⟨small, rfl, -⟩ := folded
    simp only [evaluateInst, small, if_true, Except.ok.injEq, Prod.mk.injEq] at ran
    obtain ⟨rfl, rfl⟩ := ran
    exact ⟨rfl, fun _ => rfl⟩
  | .boolConst bool, folded, ran =>
    obtain ⟨rfl, -⟩ := folded
    obtain ⟨rfl, rfl⟩ := ran
    exact ⟨rfl, fun _ => rfl⟩
  | .unary op operand, folded, ran =>
    simp only [fold, Option.bind_eq_bind, Option.bind_eq_some_iff, Option.some.injEq,
      Prod.mk.injEq, Prod.exists] at folded
    obtain ⟨_, _, foldedInner, result, isResult, rfl, -⟩ := folded
    simp only [evaluateInst, Surviving.bind_eq_ok, Except.ok.injEq, Prod.mk.injEq, Prod.exists] at ran
    obtain ⟨_, between, ranInner, result', evaluated, rfl, rfl⟩ := ran
    obtain ⟨same, equal⟩ := scalars_agree vars operand types vals foldedInner ranInner
    obtain ⟨scalar, -, evaluates⟩ := foldUnary_eq isResult
    rw [← equal (.inl scalar), evaluates] at evaluated
    cases evaluated
    exact ⟨same, fun _ => rfl⟩
  | .bin op lhs rhs, folded, ran =>
    simp only [fold, Option.bind_eq_bind, Option.bind_eq_some_iff, Option.some.injEq,
      Prod.mk.injEq, Prod.exists] at folded
    obtain ⟨left, _, foldedLeft, right, _, foldedRight, result, isResult, rfl, -⟩ := folded
    simp only [evaluateInst, Surviving.bind_eq_ok, Except.ok.injEq, Prod.mk.injEq, Prod.exists] at ran
    obtain ⟨left', between, ranLeft, right', behind, ranRight, result', evaluated, rfl, rfl⟩ :=
      ran
    obtain ⟨sameLeft, equalLeft⟩ := scalars_agree vars lhs types vals foldedLeft ranLeft
    obtain ⟨sameRight, equalRight⟩ := scalars_agree vars rhs (by rw [sameLeft, types])
      (by rw [sameLeft, vals]) foldedRight ranRight
    obtain ⟨scalarLeft, scalarRight, -, evaluates⟩ := foldBin_eq isResult
    rw [← equalLeft (.inl scalarLeft), ← equalRight (.inl scalarRight), evaluates] at evaluated
    cases evaluated
    exact ⟨sameRight.trans sameLeft, fun _ => rfl⟩
  | .logic op lhs rhs, folded, ran =>
    simp only [fold, Option.bind_eq_bind, Option.bind_eq_some_iff, Option.some.injEq,
      Prod.mk.injEq, Prod.exists] at folded
    obtain ⟨left, _, foldedLeft, right, _, foldedRight, result, isResult, rfl, -⟩ := folded
    simp only [evaluateInst, Surviving.bind_eq_ok, Except.ok.injEq, Prod.mk.injEq, Prod.exists] at ran
    obtain ⟨left', between, ranLeft, right', behind, ranRight, result', evaluated, rfl, rfl⟩ :=
      ran
    obtain ⟨sameLeft, equalLeft⟩ := scalars_agree vars lhs types vals foldedLeft ranLeft
    obtain ⟨sameRight, equalRight⟩ := scalars_agree vars rhs (by rw [sameLeft, types])
      (by rw [sameLeft, vals]) foldedRight ranRight
    obtain ⟨scalarLeft, -, decided | ⟨scalarRight, evaluates⟩⟩ := foldLogic_eq isResult
    · rw [← equalLeft (.inl scalarLeft), decided] at evaluated
      cases evaluated
      exact ⟨sameRight.trans sameLeft, fun _ => rfl⟩
    · rw [← equalLeft (.inl scalarLeft), ← equalRight (.inl scalarRight), evaluates] at evaluated
      cases evaluated
      exact ⟨sameRight.trans sameLeft, fun _ => rfl⟩
  | .comptime expr, folded, ran =>
    simp only [fold] at folded
    simp only [evaluateInst] at ran
    exact scalars_agree vars expr types vals folded ran
  | .block [], folded, _ | .block (_ :: _ :: _), folded, _ | .other _, folded, _ =>
    simp at folded
  | .block [result], folded, ran =>
    simp only [fold] at folded
    rw [evaluateInst_single] at ran
    exact scalars_agree vars result types vals folded ran
  | .typeConst name, folded, ran =>
    simp only [fold, Option.map_eq_some_iff, Prod.mk.injEq] at folded
    obtain ⟨_, -, rfl, -⟩ := folded
    simp only [evaluateInst] at ran
    obtain ⟨_, delegated, rfl⟩ := delegate_ok ran
    simp only [tryEvaluateConstWithSubst, fold, Option.map_eq_some_iff, Prod.mk.injEq] at delegated
    obtain ⟨_, -, rfl, -⟩ := delegated
    refine ⟨rfl, fun scalar => ?_⟩
    rcases scalar with scalar | scalar <;> cases scalar
  | .varRef name, folded, ran =>
    simp only [fold, Option.map_eq_some_iff, Prod.mk.injEq] at folded
    obtain ⟨_, found, rfl, -⟩ := folded
    obtain ⟨looked, rfl⟩ := evaluateInst_varRef ran
    rw [types, vals] at looked
    exact ⟨rfl, fun _ => vars name _ _ found looked⟩
  | .anonStructType literal, folded, ran | .anonEnumType literal, folded, ran =>
    simp only [fold, Option.map_eq_some_iff] at folded
    obtain ⟨made, -, made_eq⟩ := folded
    cases made_eq
    simp only [evaluateInst] at ran
    obtain ⟨_, delegated, rfl⟩ := delegate_ok ran
    simp only [tryEvaluateConstWithSubst, fold, Option.map_eq_some_iff] at delegated
    obtain ⟨made', -, made_eq⟩ := delegated
    cases made_eq
    refine ⟨rfl, fun scalar => ?_⟩
    rcases scalar with scalar | scalar <;> cases scalar
  | .anonInterfaceType _, folded, ran =>
    simp [evaluateInst] at ran

theorem values_agree (agree : LeavesAgree analyzer context leaves typeSubst locals sema)
    (inst : Inst) {sema' : Sema} {state after : State} {value other : ConstValue}
    (types : state.interp.typeOverrides = typeSubst) (vals : state.interp.scope.locals = locals)
    (pool : state.sema = sema) (folded : fold leaves inst sema = some (value, sema'))
    (ran : evaluateInst analyzer context fuel inst state = .ok (other, after)) : value = other := by
  match inst, folded, ran with
  | .comptime expr, folded, ran =>
    exact values_agree agree expr types vals pool folded ran
  | .block [result], folded, ran =>
    simp only [fold] at folded
    rw [evaluateInst_single] at ran
    exact values_agree agree result types vals pool folded ran
  | .typeConst name, folded, ran =>
    simp only [fold, Option.map_eq_some_iff, Prod.mk.injEq] at folded
    obtain ⟨ty, named, rfl, -⟩ := folded
    simp only [evaluateInst] at ran
    obtain ⟨_, delegated, rfl⟩ := delegate_ok ran
    rw [types, vals] at delegated
    simp only [tryEvaluateConstWithSubst, fold, Option.map_eq_some_iff, Prod.mk.injEq] at delegated
    obtain ⟨ty', named', rfl, -⟩ := delegated
    rw [agree.typeConst name ty ty' named named']
  | .varRef name, folded, ran =>
    simp only [fold, Option.map_eq_some_iff, Prod.mk.injEq] at folded
    obtain ⟨_, found, rfl, -⟩ := folded
    obtain ⟨looked, rfl⟩ := evaluateInst_varRef ran
    rw [types, vals] at looked
    exact agree.varRef name _ _ found looked
  | .anonStructType literal, folded, ran | .anonEnumType literal, folded, ran =>
    simp only [fold, Option.map_eq_some_iff] at folded
    obtain ⟨made, found, made_eq⟩ := folded
    cases made_eq
    simp only [evaluateInst] at ran
    obtain ⟨_, delegated, rfl⟩ := delegate_ok ran
    rw [types, vals, pool] at delegated
    simp only [tryEvaluateConstWithSubst, fold, Option.map_eq_some_iff] at delegated
    obtain ⟨made', found', made_eq⟩ := delegated
    cases made_eq
    first
    | rw [agree.anonStruct literal made made' found found']
    | rw [agree.anonEnum literal made made' found found']
  | .intConst number, folded, ran =>
    have isScalar : Scalar value := by
      simp only [fold, Option.ite_none_right_eq_some, Option.some.injEq, Prod.mk.injEq] at folded
      obtain ⟨-, rfl, -⟩ := folded
      exact .integer _
    exact (scalars_agree agree.varRef _ types vals folded ran).2 (.inl isScalar)
  | .boolConst bool, folded, ran =>
    have isScalar : Scalar value := by
      obtain ⟨rfl, -⟩ := folded
      exact .bool _
    exact (scalars_agree agree.varRef _ types vals folded ran).2 (.inl isScalar)
  | .unary op operand, folded, ran =>
    have isScalar : Scalar value := by
      simp only [fold, Option.bind_eq_bind, Option.bind_eq_some_iff, Option.some.injEq,
        Prod.mk.injEq, Prod.exists] at folded
      obtain ⟨_, _, -, result, isResult, rfl, -⟩ := folded
      exact (foldUnary_eq isResult).2.1
    exact (scalars_agree agree.varRef _ types vals folded ran).2 (.inl isScalar)
  | .bin op lhs rhs, folded, ran =>
    have isScalar : Scalar value := by
      simp only [fold, Option.bind_eq_bind, Option.bind_eq_some_iff, Option.some.injEq,
        Prod.mk.injEq, Prod.exists] at folded
      obtain ⟨_, _, -, _, _, -, result, isResult, rfl, -⟩ := folded
      exact (foldBin_eq isResult).2.2.1
    exact (scalars_agree agree.varRef _ types vals folded ran).2 (.inl isScalar)
  | .logic op lhs rhs, folded, ran =>
    have isScalar : Scalar value := by
      simp only [fold, Option.bind_eq_bind, Option.bind_eq_some_iff, Option.some.injEq,
        Prod.mk.injEq, Prod.exists] at folded
      obtain ⟨_, _, -, _, _, -, result, isResult, rfl, -⟩ := folded
      exact (foldLogic_eq isResult).2.1
    exact (scalars_agree agree.varRef _ types vals folded ran).2 (.inl isScalar)
  | .block [], folded, _ | .block (_ :: _ :: _), folded, _ | .other _, folded, _ =>
    simp at folded
  | .anonInterfaceType _, folded, ran =>
    simp [evaluateInst] at ran

end Simulation

theorem basicType_of_cNamedType {text : String} {ty : Ty} (isC : cNamedType text = some ty) :
    basicType text = none ∧ (∀ id, ty ≠ .struct id) ∧ ∀ id, ty ≠ .enum id := by
  unfold cNamedType at isC
  split at isC <;> cases isC <;> exact ⟨by decide, by simp, by simp⟩

section Names

variable {analyzer : Analyzer} {context : Context}
variable {name : Name}
variable {typeSubst : TypeSubst} {locals : List (Name × ConstValue)} {ty : Ty} {value : ConstValue}

theorem typeNamed_of_cNamedType (isC : cNamedType (analyzer.text name) = some ty) :
    analyzer.typeNamed name = some ty := by
  simp [Analyzer.typeNamed, (basicType_of_cNamedType isC).1, isC]

theorem declaredType_ne {declared : Ty} (isC : cNamedType (analyzer.text name) = some ty)
    (isDeclared : analyzer.declaredType name = some declared) : ty ≠ declared := by
  obtain ⟨-, notStruct, notEnum⟩ := basicType_of_cNamedType isC
  unfold Analyzer.declaredType at isDeclared
  split at isDeclared
  case h_1 =>
      cases isDeclared
      exact notStruct _
  case h_2 =>
      obtain ⟨_, -, rfl⟩ := Option.map_eq_some_iff.mp isDeclared
      exact notEnum _

theorem tables_agree_iff (free : context.comptimeTypeVars.find name = none) :
    (∀ ty other, analyzer.typeNamed name = some ty →
      analyzer.interpretedType context name = some other → ty = other) ↔
    ((cNamedType (analyzer.text name)).isSome → analyzer.declaredType name = none) := by
  constructor
  · intro agree isC
    obtain ⟨ty, isC⟩ := Option.isSome_iff_exists.mp isC
    refine Option.eq_none_iff_forall_ne_some.mpr fun declared isDeclared => ?_
    have interpreted : analyzer.interpretedType context name = some declared := by
      simp [Analyzer.interpretedType, free, (basicType_of_cNamedType isC).1, isDeclared]
    exact declaredType_ne isC isDeclared (agree _ _ (typeNamed_of_cNamedType isC) interpreted)
  · intro undeclared ty other named interpreted
    simp only [Analyzer.typeNamed] at named
    simp only [Analyzer.interpretedType, free] at interpreted
    cases basic : basicType (analyzer.text name) with
    | some builtin =>
      simp only [basic, Option.some.injEq] at named interpreted
      rw [← named, interpreted]
    | none =>
      simp only [basic] at named interpreted
      cases isC : cNamedType (analyzer.text name) with
      | some cType => simp [undeclared (by rw [isC]; rfl)] at interpreted
      | none =>
        simp only [isC] at named
        rw [named] at interpreted
        cases interpreted
        rfl

theorem evaluateInst_of_interpretedVar {state : State}
    (found : interpretedVar analyzer context state.interp.typeOverrides state.interp.scope.locals name = some value) :
    evaluateInst analyzer context fuel (.varRef name) state = .ok (value, state) := by
  simp only [evaluateInst]
  unfold interpretedVar at found
  cases bound : Comptime.lookup state.interp.scope.locals name with
  | some held =>
    simp only [bound, Option.some.injEq] at found
    rw [found]
  | none =>
    simp only [bound] at found
    obtain ⟨_, named, rfl⟩ := Option.map_eq_some_iff.mp found
    simp [named]

theorem interpretedVar_bound (bound : Comptime.lookup locals name = some value) :
    interpretedVar analyzer context typeSubst locals name = some value := by
  simp [interpretedVar, bound]

theorem interpretedVar_free (free : Comptime.lookup locals name = none) :
    interpretedVar analyzer context typeSubst locals name = (match typeSubst.find name with
        | some ty => some ty
        | none => analyzer.interpretedType context name).map fun ty => .data (.type ty) := by
  simp only [interpretedVar, free]
  rfl

theorem unambiguous_iff : (∀ name value other,
      (substLeaves analyzer typeSubst typeSubst locals).varRef name = some value →
      interpretedVar analyzer context typeSubst locals name = some other → value = other) ↔
    Unambiguous analyzer context typeSubst locals := by
  constructor
  · intro agree
    refine ⟨fun name ty value named bound => ?_,
      fun name ty other unnamed free typed isVar => ?_, fun name unnamed free noVar => ?_⟩
    · exact (agree name (.data (.type ty)) value (by simp [substLeaves, named]) (interpretedVar_bound bound)).symm
    · have same := agree name (.data (.type ty)) (.data (.type other)) (by simp [substLeaves, unnamed, free, typed])
        (by simp [interpretedVar_free free, unnamed, Analyzer.interpretedType, isVar])
      simpa using same
    · refine (tables_agree_iff noVar).mp fun ty other typed interpreted => ?_
      have same := agree name (.data (.type ty)) (.data (.type other)) (by simp [substLeaves, unnamed, free, typed])
        (by simp [interpretedVar_free free, unnamed, interpreted])
      simpa using same
  · intro unambiguous name value other folded interpreted
    cases named : typeSubst.find name with
    | some ty =>
      simp only [substLeaves, named, Option.some.injEq] at folded
      subst folded
      cases bound : Comptime.lookup locals name with
      | some held =>
        rw [interpretedVar_bound bound] at interpreted
        cases interpreted
        exact (unambiguous.both name ty _ named bound).symm
      | none =>
        simp only [interpretedVar_free bound, named, Option.map_some, Option.some.injEq] at interpreted
        exact interpreted
    | none =>
      cases bound : Comptime.lookup locals name with
      | some held =>
        simp only [substLeaves, named, bound, Option.some.injEq] at folded
        rw [interpretedVar_bound bound] at interpreted
        cases interpreted
        exact folded.symm
      | none =>
        simp only [substLeaves, named, bound] at folded
        obtain ⟨ty, typed, rfl⟩ := Option.map_eq_some_iff.mp folded
        simp only [interpretedVar_free bound, named] at interpreted
        obtain ⟨other, looked, rfl⟩ := Option.map_eq_some_iff.mp interpreted
        cases isVar : context.comptimeTypeVars.find name with
        | some var =>
          simp only [Analyzer.interpretedType, isVar, Option.some.injEq] at looked
          rw [unambiguous.typeVars name ty var named bound typed isVar, looked]
        | none =>
          rw [(tables_agree_iff isVar).mpr (unambiguous.cTypes name named bound isVar) ty
            other typed looked]

theorem foldsAlike_iff :
    FoldsAlike analyzer context typeSubst locals ↔ Unambiguous analyzer context typeSubst locals := by
  rw [← unambiguous_iff]
  constructor
  · intro alike name value other folded interpreted
    refine alike (.varRef name) 0 ⟨{ scope := { locals := locals }, typeOverrides := typeSubst },
      {}⟩ value other {} _ rfl rfl ?_ (evaluateInst_of_interpretedVar interpreted)
    simp [tryEvaluateConstWithSubst, folded]
  · intro agree inst _ state value other _ _ types vals folded ran
    have leavesAgree : LeavesAgree analyzer context
        (substLeaves analyzer typeSubst typeSubst locals) typeSubst locals state.sema :=
      { varRef := agree
        typeConst := fun name ty other found found' => by
          rw [found] at found'
          exact Option.some.inj found'
        anonStruct := fun literal made other found found' => by
          rw [found] at found'
          rw [Option.some.inj found']
        anonEnum := fun literal made other found found' => by
          rw [found] at found'
          rw [Option.some.inj found'] }
    exact values_agree leavesAgree inst types vals rfl folded ran

end Names

section Literals

variable {analyzer : Analyzer}
variable {substituted : Bool} {types : Name → Option Ty} {captured : CapturedValues} {after : Sema} {made : Ty × Sema}

theorem inForce_none (overrides : TypeSubst) : inForce [] overrides = overrides.find := by
  rfl

theorem inForce_self (overrides : TypeSubst) : inForce overrides overrides = overrides.find := by
  funext name
  unfold inForce
  cases overrides.find name <;> rfl

theorem anonStruct_met {literal : AnonStructLit} {fields : List StructField}
    (resolved : resolveFields analyzer types literal.fields sema = some (fields, after))
    (taken : anonStruct analyzer substituted types captured literal sema = some made) :
    made.1 = structMet analyzer after fields literal.methods captured := by
  simp only [anonStruct, resolved, Option.bind_eq_bind, Option.bind_some,
    Option.bind_eq_some_iff, Prod.exists] at taken
  obtain ⟨_, _, _, found, taken⟩ := taken
  obtain ⟨-, isMade⟩ := Option.ite_none_right_eq_some.mp taken
  cases isMade
  unfold structMet
  unfold AnonTypes.findOrCreateAnonStruct at found
  cases isEntry : (analyzer.order.structs after.structs.byName).find?
      (AnonTypes.matching AnonTypes.structStem after.structs fields literal.methods captured) with
  | some entry =>
    simp only [isEntry, Option.some.injEq, Prod.mk.injEq] at found
    rw [← found.2.1]
  | none =>
    simp only [isEntry] at found
    obtain ⟨⟨_, _⟩, created, same⟩ := Option.map_eq_some_iff.mp found
    obtain ⟨-, rfl, -⟩ := same
    simp only [AnonTypes.createUniqueAnonStruct] at created
    split at created
    · simp at created
    · simp only [Option.some.injEq, Prod.mk.injEq] at created
      rw [created.2]

theorem anonEnum_met {literal : AnonEnumLit} {variants : List EnumVariantDef}
    (resolved : resolveVariants analyzer types literal.variants sema = some (variants, after))
    (taken : anonEnum analyzer substituted types captured literal sema = some made) :
    made.1 = enumMet analyzer after variants literal.methods captured := by
  simp only [anonEnum, resolved, Option.bind_eq_bind, Option.bind_some, Option.bind_eq_some_iff, Prod.exists] at taken
  obtain ⟨_, _, _, found, taken⟩ := taken
  obtain ⟨-, isMade⟩ := Option.ite_none_right_eq_some.mp taken
  cases isMade
  unfold enumMet
  unfold AnonTypes.findOrCreateAnonEnum at found
  cases isEntry : (analyzer.order.enums after.enums.byName).find?
      (AnonTypes.matching AnonTypes.enumStem after.enums variants literal.methods captured) with
  | some entry =>
    simp only [isEntry, Option.some.injEq, Prod.mk.injEq] at found
    rw [← found.2.1]
  | none =>
    simp only [isEntry] at found
    obtain ⟨⟨_, _⟩, created, same⟩ := Option.map_eq_some_iff.mp found
    obtain ⟨-, rfl, -⟩ := same
    unfold AnonTypes.registerEnum at created
    cases isTaken : after.enums.named (AnonTypes.enumStem ++ Spelling.decimal after.enums.byName.length) with
    | some existing =>
      simp only [isTaken, Option.some.injEq, Prod.mk.injEq] at created
      simp [← created.2]
    | none =>
      simp only [isTaken] at created
      split at created
      · simp at created
      · simp only [Option.some.injEq, Prod.mk.injEq] at created
        simp [← created.2]

end Literals

section Paths

variable {analyzer : Analyzer} {context : Context} {overrides : TypeSubst}
variable {sema : Sema} {inst : Inst} {state : State} {value : ConstValue} {name : Name}

def State.forArg (state : State) (context : Context) : State :=
  { state with
    interp :=
      { state.interp with
        scope := { state.interp.scope with
          locals := Comptime.injectLocals context.comptimeValueVars }
        steps := 0 } }

theorem slowPath_eq_some_iff: (∃ slow, slowPath analyzer context fuel inst state = some (value, slow)) ↔
      ∃ result after, value = .data result ∧
        evaluateInst analyzer context fuel inst (state.forArg context) = .ok (value, after) := by
  unfold slowPath
  constructor
  · rintro ⟨slow, taken⟩
    split at taken
    case h_1 result after ran =>
        obtain ⟨rfl, -⟩ := taken
        exact ⟨result, after, rfl, ran⟩
    case h_2 => simp at taken
  · rintro ⟨result, after, rfl, ran⟩
    simp only [State.forArg] at ran
    rw [ran]
    exact ⟨_, rfl⟩

theorem fastPath_eq_some_iff : (∃ fast, fastPath analyzer inst state = some (value, fast)) ↔
      ∃ sema, tryEvaluateConst analyzer state.interp.typeOverrides inst state.sema = some (value, sema) := by
  unfold fastPath
  constructor
  · rintro ⟨fast, taken⟩
    obtain ⟨⟨_, sema⟩, folded, same⟩ := Option.map_eq_some_iff.mp taken
    obtain ⟨rfl, -⟩ := same
    exact ⟨sema, folded⟩
  · rintro ⟨sema, folded⟩
    rw [folded]
    exact ⟨_, rfl⟩

theorem lookup_injected {value : Comptime.Value}
    (bound : Comptime.lookup context.comptimeValueVars name = some value) :
    Comptime.lookup (Comptime.injectLocals context.comptimeValueVars) name = some (.data value) := by
  rw [Comptime.lookup_inject, bound]
  rfl

theorem lookup_injected_none (free : Comptime.lookup context.comptimeValueVars name = none) :
    Comptime.lookup (Comptime.injectLocals context.comptimeValueVars) name = none := by
  rw [Comptime.lookup_inject, free]
  rfl

theorem leavesAgree_of_unshadowed (unshadowed : Unshadowed analyzer context overrides sema) :
    LeavesAgree analyzer context (constLeaves analyzer overrides) overrides
      (Comptime.injectLocals context.comptimeValueVars) sema where
  varRef := fun name value other found interpreted => by
    obtain ⟨ty, typed, rfl⟩ := Option.map_eq_some_iff.mp found
    cases bound : Comptime.lookup context.comptimeValueVars name with
    | some held =>
      rw [interpretedVar_bound (lookup_injected bound)] at interpreted
      cases interpreted
      rw [unshadowed.values name ty held typed bound]
    | none =>
      rw [interpretedVar_free (lookup_injected_none bound)] at interpreted
      cases named : overrides.find name with
      | some override =>
        simp only [named, Option.map_some, Option.some.injEq] at interpreted
        rw [← interpreted, unshadowed.overridden name ty override typed named]
      | none =>
        simp only [named] at interpreted
        obtain ⟨looked, isLooked, rfl⟩ := Option.map_eq_some_iff.mp interpreted
        cases isVar : context.comptimeTypeVars.find name with
        | some var =>
          simp only [Analyzer.interpretedType, isVar, Option.some.injEq] at isLooked
          rw [unshadowed.typeVars name ty var bound named typed isVar, isLooked]
        | none =>
          rw [(tables_agree_iff isVar).mpr (unshadowed.cTypes name bound named isVar) ty looked typed isLooked]
  typeConst := fun name ty other typed found => by
    simp only [constLeaves] at typed
    simp only [substLeaves] at found
    cases named : overrides.find name with
    | some override =>
      simp only [named, Option.some.injEq] at found
      rw [unshadowed.overridden name ty override typed named, found]
    | none =>
      simp only [named, typed, Option.some.injEq] at found
      exact found
  anonStruct := fun literal made other taken taken' => by
    simp only [constLeaves, inForce_none] at taken
    simp only [substLeaves, inForce_self] at taken'
    obtain ⟨wellFormed, taken'⟩ := Option.ite_none_right_eq_some.mp taken'
    obtain ⟨⟨fields, after⟩, resolved, -⟩ := Option.bind_eq_some_iff.mp taken
    rw [anonStruct_met resolved taken, anonStruct_met resolved taken']
    exact unshadowed.structs literal fields after wellFormed resolved
      (by rw [taken]; rfl) (Option.isSome_iff_exists.mpr ⟨other, taken'⟩)
  anonEnum := fun literal made other taken taken' => by
    simp only [constLeaves, inForce_none] at taken
    simp only [substLeaves, inForce_self] at taken'
    obtain ⟨wellFormed, taken'⟩ := Option.ite_none_right_eq_some.mp taken'
    obtain ⟨⟨variants, after⟩, resolved, -⟩ := Option.bind_eq_some_iff.mp taken
    rw [anonEnum_met resolved taken, anonEnum_met resolved taken']
    exact unshadowed.enums literal variants after wellFormed resolved
      (by rw [taken]; rfl) (Option.isSome_iff_exists.mpr ⟨other, taken'⟩)

theorem PathsAgree.same {after : Sema} {result : Comptime.Value} (agree : PathsAgree analyzer context overrides sema)
    (folded : tryEvaluateConst analyzer overrides inst sema = some (value, after))
    (ran : evaluateInst analyzer context 0 inst
      (State.forArg ⟨{ typeOverrides := overrides }, sema⟩ context) = .ok (.data result, state)) :
    value = .data result := by
  have isFast : ∃ fast, fastPath analyzer inst ⟨{ typeOverrides := overrides }, sema⟩ =
      some (value, fast) := fastPath_eq_some_iff.2 ⟨after, folded⟩
  obtain ⟨fast, isFast⟩ := isFast
  obtain ⟨slow, isSlow⟩ := slowPath_eq_some_iff.2 ⟨result, state, rfl, ran⟩
  exact agree inst 0 _ value _ fast slow rfl rfl isFast isSlow

theorem PathsAgree.var {ty : Ty} {value : Comptime.Value}
    (agree : PathsAgree analyzer context overrides sema) (typed : analyzer.typeNamed name = some ty)
    (interpreted : interpretedVar analyzer context overrides
      (Comptime.injectLocals context.comptimeValueVars) name = some (.data value)) :
    value = .type ty := by
  have folded : tryEvaluateConst analyzer overrides (.varRef name) sema = some (.data (.type ty), sema) := by
    simp [tryEvaluateConst, constLeaves, typed]
  have same := agree.same folded (evaluateInst_of_interpretedVar interpreted)
  simpa using same.symm

theorem unshadowed_of_pathsAgree (agree : PathsAgree analyzer context overrides sema) :
    Unshadowed analyzer context overrides sema where
  values := fun name ty value typed bound =>
    agree.var typed (interpretedVar_bound (lookup_injected bound))
  overridden := fun name ty other typed named => by
    have folded : tryEvaluateConst analyzer overrides (.typeConst name) sema = some (.data (.type ty), sema) := by
      simp [tryEvaluateConst, constLeaves, typed]
    have ran : evaluateInst analyzer context 0 (.typeConst name)
        (State.forArg ⟨{ typeOverrides := overrides }, sema⟩ context) = .ok (.data (.type other),
            State.forArg ⟨{ typeOverrides := overrides }, sema⟩ context) := by
      simp [evaluateInst, delegate, tryEvaluateConstWithSubst, substLeaves, State.forArg, named]
    simpa using agree.same folded ran
  typeVars := fun name ty other free unnamed typed isVar => by
    have interpreted : interpretedVar analyzer context overrides
        (Comptime.injectLocals context.comptimeValueVars) name = some (.data (.type other)) := by
      simp [interpretedVar_free (lookup_injected_none free), unnamed, Analyzer.interpretedType, isVar]
    simpa using (agree.var typed interpreted).symm
  cTypes := fun name free unnamed noVar => by
    refine (tables_agree_iff noVar).mp fun ty other typed looked => ?_
    have interpreted : interpretedVar analyzer context overrides
        (Comptime.injectLocals context.comptimeValueVars) name = some (.data (.type other)) := by
      simp [interpretedVar_free (lookup_injected_none free), unnamed, looked]
    simpa using (agree.var typed interpreted).symm
  structs := fun literal fields after wellFormed resolved taken taken' => by
    obtain ⟨made, isMade⟩ := Option.isSome_iff_exists.mp taken
    obtain ⟨made', isMade'⟩ := Option.isSome_iff_exists.mp taken'
    have folded : tryEvaluateConst analyzer overrides (.anonStructType literal) sema = some (typeValue made) := by
      simp [tryEvaluateConst, constLeaves, inForce_none, isMade]
    have ran : evaluateInst analyzer context 0 (.anonStructType literal)
        (State.forArg ⟨{ typeOverrides := overrides }, sema⟩ context) = .ok (.data (.type made'.1),
            { State.forArg ⟨{ typeOverrides := overrides }, sema⟩ context with
              sema := made'.2 }) := by
      simp only [evaluateInst, delegate, tryEvaluateConstWithSubst, fold, substLeaves,
        State.forArg, inForce_self, wellFormed, if_true]
      simp only [Context.captured] at isMade'
      rw [isMade']
      rfl
    have same := agree.same folded ran
    rw [← anonStruct_met resolved isMade, ← anonStruct_met resolved isMade']
    simpa using same
  enums := fun literal variants after wellFormed resolved taken taken' => by
    obtain ⟨made, isMade⟩ := Option.isSome_iff_exists.mp taken
    obtain ⟨made', isMade'⟩ := Option.isSome_iff_exists.mp taken'
    have folded : tryEvaluateConst analyzer overrides (.anonEnumType literal) sema = some (typeValue made) := by
      simp [tryEvaluateConst, constLeaves, inForce_none, isMade]
    have ran : evaluateInst analyzer context 0 (.anonEnumType literal)
        (State.forArg ⟨{ typeOverrides := overrides }, sema⟩ context) = .ok (.data (.type made'.1),
            { State.forArg ⟨{ typeOverrides := overrides }, sema⟩ context with
              sema := made'.2 }) := by
      simp only [evaluateInst, delegate, tryEvaluateConstWithSubst, fold, substLeaves,
        State.forArg, inForce_self, wellFormed, if_true]
      simp only [Context.captured] at isMade'
      rw [isMade']
      rfl
    have same := agree.same folded ran
    rw [← anonEnum_met resolved isMade, ← anonEnum_met resolved isMade']
    simpa using same

theorem pathsAgree_iff : PathsAgree analyzer context overrides sema ↔ Unshadowed analyzer context overrides sema := by
  constructor
  · exact unshadowed_of_pathsAgree
  · intro unshadowed inst _ state _ _ fast slow types pool isFast isSlow
    obtain ⟨_, folded⟩ := fastPath_eq_some_iff.1 ⟨fast, isFast⟩
    obtain ⟨_, _, -, ran⟩ := slowPath_eq_some_iff.1 ⟨slow, isSlow⟩
    rw [types, pool] at folded
    have types' : (state.forArg context).interp.typeOverrides = overrides := types
    have pool' : (state.forArg context).sema = sema := pool
    exact values_agree (leavesAgree_of_unshadowed unshadowed) inst types' rfl pool' folded ran

/-- Folder and interpreter agree under one set of bindings exactly when no name is ambiguous,
and the two paths of an argument agree exactly when no name of a type is shadowed. -/
theorem evaluators_agree_iff (analyzer : Analyzer) (context : Context) (typeSubst : TypeSubst) :
    (∀ valueSubst, FoldsAlike analyzer context typeSubst valueSubst ↔
      Unambiguous analyzer context typeSubst valueSubst) ∧
    ∀ sema, PathsAgree analyzer context typeSubst sema ↔ Unshadowed analyzer context typeSubst sema :=
  ⟨fun _ => foldsAlike_iff, fun _ => pathsAgree_iff⟩

def declaresN : Analyzer where
  text := fun _ => "N"
  structs := fun name => if name = 0 then some 0 else none
  enums := fun _ => none
  order := ⟨id, id⟩
  resolveSymbol := fun _ _ _ => none
  completes := fun _ _ _ _ _ _ => true
  internInterface := fun _ _ _ => none
  program :=
    { functions := fun _ => none
      methods := fun _ _ => none
      fieldIndex := fun _ _ => none
      typeNames := fun _ => none
      selfName := 1 }

def insideN : Context where
  comptimeValueVars := [(0, .integer 3)]

/-- The folder takes the struct where the interpreter takes the parameter. -/
theorem parameter_not_shadowing :
    (fastPath declaresN (.varRef 0) {}).map Prod.fst = some (.data (.type (.struct 0))) ∧
    (slowPath declaresN insideN 0 (.varRef 0) {}).map Prod.fst = some (.data (.integer 3)) ∧
    ¬ PathsAgree declaresN insideN [] {} := by
  refine ⟨rfl, ?_, fun agree => ?_⟩
  · rfl
  · have interpreted : interpretedVar declaresN insideN []
        (Comptime.injectLocals insideN.comptimeValueVars) 0 = some (.data (.integer 3)) := rfl
    have typed : declaresN.typeNamed 0 = some (.struct 0) := rfl
    have same := agree.var typed interpreted
    cases same

end Paths

end Folder

end Gruel
