import Gruel.Source
import Gruel.Types

/-!
Type inference: constraints, the substitution with path compression, the
unifier and the defaulting of literal variables.
-/

namespace Gruel

abbrev TypeVarId := Nat

inductive InferType
  | concrete (ty : Ty)
  | var (id : TypeVarId)
  | intLiteral
  | floatLiteral
  | array (element : InferType) (length : Nat)
  deriving DecidableEq, Repr

inductive Constraint
  | equal (lhs rhs : InferType) (span : Span)
  | isSigned (ty : InferType) (span : Span)
  | isInteger (ty : InferType) (span : Span)
  | isUnsigned (ty : InferType) (span : Span)
  | isNumeric (ty : InferType) (span : Span)
  deriving DecidableEq, Repr

structure Substitution where
  mapping : List (Option InferType)
  deriving DecidableEq, Repr

namespace Substitution

def withCapacity (capacity : Nat) : Substitution := ⟨List.replicate capacity none⟩

def resize (mapping : List (Option InferType)) (length : Nat) : List (Option InferType) :=
  mapping.take length ++ List.replicate (length - mapping.length) none

def insert (substitution : Substitution) (var : TypeVarId) (ty : InferType) : Substitution :=
  let mapping := if substitution.mapping.length ≤ var then resize substitution.mapping (var + 1)
    else substitution.mapping
  ⟨mapping.set var (some ty)⟩

def get (substitution : Substitution) (var : TypeVarId) : Option InferType :=
  if bound : var < substitution.mapping.length then substitution.mapping[var] else none

mutual

def apply : Nat → Substitution → InferType → Option (InferType × Substitution)
  | 0, _, _ => none
  | fuel + 1, substitution, ty =>
    match ty with
    | .concrete _ => some (ty, substitution)
    | .var id => applyVar fuel substitution id
    | .intLiteral | .floatLiteral => some (ty, substitution)
    | .array element length =>
      (apply fuel substitution element).bind fun applied =>
        some (.array applied.1 length, applied.2)

def applyVar : Nat → Substitution → TypeVarId → Option (InferType × Substitution)
  | 0, _, _ => none
  | fuel + 1, substitution, id =>
    match substitution.get id with
    | none => some (.var id, substitution)
    | some resolved =>
      (apply fuel substitution resolved).bind fun applied =>
        if applied.1 ≠ resolved then
          some (applied.1, ⟨applied.2.mapping.set id (some applied.1)⟩)
        else some applied

end

def occursIn : Nat → Substitution → TypeVarId → InferType → Option Bool
  | 0, _, _, _ => none
  | fuel + 1, substitution, var, ty =>
    match ty with
    | .concrete _ => some false
    | .var id =>
      if id = var then some true
      else
        match substitution.get id with
        | some resolved => occursIn fuel substitution var resolved
        | none => some false
    | .intLiteral | .floatLiteral => some false
    | .array element _ => occursIn fuel substitution var element

end Substitution

inductive UnifyResult
  | ok
  | typeMismatch (expected found : InferType)
  | intLiteralNonInteger (found : Ty)
  | occursCheck (var : TypeVarId) (ty : InferType)
  | notSigned (ty : Ty)
  | notInteger (ty : Ty)
  | notUnsigned (ty : Ty)
  | notNumeric (ty : Ty)
  | arrayLengthMismatch (expected found : Nat)
  deriving DecidableEq, Repr

structure UnificationError where
  kind : UnifyResult
  span : Span
  deriving DecidableEq, Repr

namespace Unifier

def bind (fuel : Nat) (substitution : Substitution) (var : TypeVarId) (ty : InferType) :
    Option (UnifyResult × Substitution) :=
  if ty = .var var then some (.ok, substitution)
  else
    (substitution.occursIn fuel var ty).bind fun occurs =>
      if occurs then some (.occursCheck var ty, substitution)
      else some (.ok, substitution.insert var ty)

def rebindLiteralToConcrete (literal : InferType) (substitution : Substitution)
    (original : InferType) (concreteTy : Ty) : Substitution :=
  match original with
  | .var var =>
    if substitution.get var = some literal then substitution.insert var (.concrete concreteTy)
    else substitution
  | _ => substitution

def rebindIntLiteralToConcrete : Substitution → InferType → Ty → Substitution :=
  rebindLiteralToConcrete .intLiteral

def rebindFloatLiteralToConcrete : Substitution → InferType → Ty → Substitution :=
  rebindLiteralToConcrete .floatLiteral

def unifyIntLiteral (substitution : Substitution) (lhs rhs : InferType) (ty : Ty) : UnifyResult × Substitution :=
  if ty.isInteger then
    (.ok, rebindIntLiteralToConcrete (rebindIntLiteralToConcrete substitution lhs ty) rhs ty)
  else if ty.isError then (.ok, substitution)
  else (.intLiteralNonInteger ty, substitution)

def unifyFloatLiteral (substitution : Substitution) (lhs rhs lhsResolved rhsResolved : InferType)
    (ty : Ty) : UnifyResult × Substitution :=
  if ty.isFloat then
    (.ok, rebindFloatLiteralToConcrete (rebindFloatLiteralToConcrete substitution lhs ty) rhs ty)
  else if ty.isError then (.ok, substitution)
  else (.typeMismatch lhsResolved rhsResolved, substitution)

def unifyResolved (fuel : Nat)
    (unifyElements : Substitution → InferType → InferType → Option (UnifyResult × Substitution))
    (substitution : Substitution) (lhs rhs lhsResolved rhsResolved : InferType) :
    Option (UnifyResult × Substitution) :=
  match lhsResolved, rhsResolved with
  | .concrete t1, .concrete t2 =>
    if t1 = t2 ∨ t1.canCoerceTo t2 ∨ t2.canCoerceTo t1 then some (.ok, substitution)
    else some (.typeMismatch lhsResolved rhsResolved, substitution)
  | .var var, _ => bind fuel substitution var rhsResolved
  | _, .var var => bind fuel substitution var lhsResolved
  | .intLiteral, .concrete ty | .concrete ty, .intLiteral =>
    some (unifyIntLiteral substitution lhs rhs ty)
  | .floatLiteral, .concrete ty | .concrete ty, .floatLiteral =>
    some (unifyFloatLiteral substitution lhs rhs lhsResolved rhsResolved ty)
  | .intLiteral, .intLiteral => some (.ok, substitution)
  | .floatLiteral, .floatLiteral => some (.ok, substitution)
  | .intLiteral, .floatLiteral | .floatLiteral, .intLiteral =>
    some (.typeMismatch lhsResolved rhsResolved, substitution)
  | .array elem1 len1, .array elem2 len2 =>
    if len1 ≠ len2 then some (.arrayLengthMismatch len1 len2, substitution)
    else unifyElements substitution elem1 elem2
  | .array _ _, _ | _, .array _ _ =>
    some (.typeMismatch lhsResolved rhsResolved, substitution)

def unify : Nat → Substitution → InferType → InferType → Option (UnifyResult × Substitution)
  | 0, _, _, _ => none
  | fuel + 1, substitution, lhs, rhs =>
    (substitution.apply fuel lhs).bind fun left =>
    (left.2.apply fuel rhs).bind fun right =>
      unifyResolved fuel (unify fuel) right.2 lhs rhs left.1 right.1

def checkWith (rule : InferType → UnifyResult) (fuel : Nat) (substitution : Substitution)
    (ty : InferType) : Option (UnifyResult × Substitution) :=
  (substitution.apply fuel ty).bind fun applied => some (rule applied.1, applied.2)

def signedRule : InferType → UnifyResult
  | .concrete concrete =>
    if concrete.isSigned || concrete.isError || concrete.isNever then .ok
    else if concrete.isUnsigned then .notSigned concrete
    else .ok
  | .var _ | .intLiteral | .floatLiteral | .array _ _ => .ok

def integerRule : InferType → UnifyResult
  | .concrete concrete =>
    if concrete.isInteger || concrete.isError || concrete.isNever then .ok
    else .notInteger concrete
  | .var _ | .intLiteral => .ok
  | .floatLiteral => .notInteger .f64
  | .array _ _ => .notInteger .error

def numericRule : InferType → UnifyResult
  | .concrete concrete =>
    if concrete.isNumeric || concrete.isError || concrete.isNever then .ok
    else .notNumeric concrete
  | .var _ | .intLiteral | .floatLiteral => .ok
  | .array _ _ => .notNumeric .error

def unsignedRule : InferType → UnifyResult
  | .concrete concrete =>
    if concrete.isUnsigned || concrete.isError || concrete.isNever then .ok
    else .notUnsigned concrete
  | .var _ | .intLiteral => .ok
  | .floatLiteral => .notUnsigned .f64
  | .array _ _ => .notUnsigned .error

def checkSigned := checkWith signedRule

def checkInteger := checkWith integerRule

def checkNumeric := checkWith numericRule

def checkUnsigned := checkWith unsignedRule

def bindUnsigned (substitution : Substitution) (ty applied : InferType) : Substitution :=
  match applied with
  | .intLiteral =>
    match ty with
    | .var var => substitution.insert var (.concrete .u64)
    | _ => substitution
  | .var var => substitution.insert var (.concrete .u64)
  | _ => substitution

def bindErrorVar (substitution : Substitution) : InferType → Substitution
  | .var var => substitution.insert var (.concrete .error)
  | _ => substitution

def recoverFromError (fuel : Nat) (substitution : Substitution) (lhs rhs : InferType) : Option Substitution :=
  (substitution.apply fuel lhs).bind fun left =>
  (left.2.apply fuel rhs).bind fun right =>
    some (bindErrorVar (bindErrorVar right.2 left.1) right.1)

def errorsOf (result : UnifyResult) (span : Span) : List UnificationError :=
  if result = .ok then [] else [⟨result, span⟩]

def solveConstraint (fuel : Nat) (substitution : Substitution) :
    Constraint → Option (List UnificationError × Substitution)
  | .equal lhs rhs span =>
    (unify fuel substitution lhs rhs).bind fun unified =>
      if unified.1 = .ok then some ([], unified.2)
      else
        (recoverFromError fuel unified.2 lhs rhs).bind fun recovered =>
          some ([⟨unified.1, span⟩], recovered)
  | .isSigned ty span =>
    (checkSigned fuel substitution ty).bind fun checked =>
      some (errorsOf checked.1 span, checked.2)
  | .isInteger ty span =>
    (checkInteger fuel substitution ty).bind fun checked =>
      some (errorsOf checked.1 span, checked.2)
  | .isUnsigned ty span =>
    (substitution.apply fuel ty).bind fun applied =>
    (checkUnsigned fuel (bindUnsigned applied.2 ty applied.1) ty).bind fun checked =>
      some (errorsOf checked.1 span, checked.2)
  | .isNumeric ty span =>
    (checkNumeric fuel substitution ty).bind fun checked =>
      some (errorsOf checked.1 span, checked.2)

def solveConstraints (fuel : Nat) (substitution : Substitution) :
    List Constraint → Option (List UnificationError × Substitution)
  | [] => some ([], substitution)
  | constraint :: constraints =>
    (solveConstraint fuel substitution constraint).bind fun solved =>
    (solveConstraints fuel solved.2 constraints).bind fun rest =>
      some (solved.1 ++ rest.1, rest.2)

def defaultVar (default : Ty) (substitution : Substitution) (var : TypeVarId) : InferType → Substitution
  | .var _ => substitution.insert var (.concrete default)
  | _ => substitution

def defaultLiteralVars (default : Ty) (fuel : Nat) (substitution : Substitution) :
    List TypeVarId → Option Substitution
  | [] => some substitution
  | var :: vars =>
    (substitution.apply fuel (.var var)).bind fun resolved =>
      defaultLiteralVars default fuel (defaultVar default resolved.2 var resolved.1) vars

def defaultIntLiteralVars := defaultLiteralVars .i32

def defaultFloatLiteralVars := defaultLiteralVars .f64

def defaultLiterals (fuel : Nat) (substitution : Substitution)
    (intLiteralVars floatLiteralVars : List TypeVarId) : Option Substitution :=
  (defaultIntLiteralVars fuel substitution intLiteralVars).bind fun defaulted =>
    defaultFloatLiteralVars fuel defaulted floatLiteralVars

def resolveInferType : Nat → Substitution → InferType → Option (InferType × Substitution)
  | 0, _, _ => none
  | fuel + 1, substitution, ty =>
    (substitution.apply fuel ty).bind fun resolved =>
      match resolved.1 with
      | .concrete _ => some resolved
      | .var _ => some resolved
      | .intLiteral => some (.concrete .i32, resolved.2)
      | .floatLiteral => some (.concrete .f64, resolved.2)
      | .array element length =>
        (resolveInferType fuel resolved.2 element).bind fun elementResolved =>
          some (.array elementResolved.1 length, elementResolved.2)

end Unifier

end Gruel
