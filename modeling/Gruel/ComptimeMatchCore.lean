import Gruel.ComptimeCore
import Gruel.RirCore

/-!
The interpreter's `match` on the arms as the front end writes them, and what matching a
pattern means.
-/

namespace Gruel

namespace Comptime

structure PatternNames where
  resolveComptimeEnum : Spur → Option EnumId
  findVariant : EnumId → Spur → Option Nat
  findField : EnumId → Nat → Spur → Option Nat
  resolveComptimeStruct : Spur → Option StructId
  structField : StructId → Spur → Option Nat
  -- The symbol of `..`.
  restMarker : Spur

def PatternNames.variant (names : PatternNames) (typeName variant : Spur) : Option (EnumId × Nat) := do
  let enumId ← names.resolveComptimeEnum typeName
  let variantIdx ← names.findVariant enumId variant
  some (enumId, variantIdx)

inductive ArmFailure
  | failed (error : CompileError)
  | unreachable
  deriving DecidableEq, Repr

def ArmFailure.toCompileError : ArmFailure → CompileError
  | .failed error => error
  | .unreachable => .panic

def boundName : RirPatternBinding → Option Name
  | .mk true _ _ _ => none
  | .mk false _ name _ => name.map (·.val)

def bindData (fields : List ConstValue) :
    Nat → List RirPatternBinding → Scope ConstValue → Except ArmFailure (Scope ConstValue)
  | _, [], scope => .ok scope
  | index, binding :: bindings, scope =>
    match boundName binding with
    | none => bindData fields (index + 1) bindings scope
    | some name =>
      match fields[index]? with
      | some value => bindData fields (index + 1) bindings (bind scope name value)
      | none => .error (.failed .panic)

def bindStruct (findField : Spur → Option Nat) (fields : List ConstValue) :
    List RirStructPatternBinding → Scope ConstValue → Except ArmFailure (Scope ConstValue)
  | [], scope => .ok scope
  | .mk fieldName binding :: bindings, scope =>
    match boundName binding with
    | none => bindStruct findField fields bindings scope
    | some name =>
      match findField fieldName with
      | none => .error (.failed notConst)
      | some index =>
        match fields[index]? with
        | some value => bindStruct findField fields bindings (bind scope name value)
        | none => .error (.failed .panic)

def sameVariant (expected : Option (EnumId × Nat)) (enumId : EnumId) (variantIdx : Nat) : Bool :=
  expected == some (enumId, variantIdx)

def matchArm (names : PatternNames) (pattern : RirPattern) (scrutinee : ConstValue)
    (scope : Scope ConstValue) : Except ArmFailure (Option (Scope ConstValue)) :=
  match pattern, scrutinee with
  | .wildcard _, _ => .ok (some scope)
  | .int expected _, .data (.integer value) =>
    .ok (if value = expected then some scope else none)
  | .bool expected _, .data (.bool value) =>
    .ok (if value = expected then some scope else none)
  | .path _ typeName variant _, .data (.enumVariant enumId variantIdx)
  | .path _ typeName variant _, .data (.enumData enumId variantIdx _)
  | .path _ typeName variant _, .data (.enumStruct enumId variantIdx _) =>
    .ok (if sameVariant (names.variant typeName variant) enumId variantIdx then some scope else none)
  | .dataVariant _ typeName variant bindings _, .data (.enumData enumId variantIdx heapIdx) =>
    if sameVariant (names.variant typeName variant) enumId variantIdx then
      match scope.heap[heapIdx]? with
      | some (.enumData fields) => (bindData fields 0 bindings scope).map some
      | some _ => .error (.failed notConst)
      | none => .error (.failed .panic)
    else .ok none
  | .structVariant _ typeName variant fieldBindings _, .data (.enumStruct enumId variantIdx heapIdx) =>
      if sameVariant (names.variant typeName variant) enumId variantIdx then
        match scope.heap[heapIdx]? with
        | some (.enumStruct fields) =>
          (bindStruct (names.findField enumId variantIdx) fields fieldBindings scope).map some
        | some _ => .error (.failed notConst)
        | none => .error (.failed .panic)
      else .ok none
  | .ident .., _ | .tuple .., _ | .struct .., _ => .error .unreachable
  | .comptimeUnrollArm .., _ =>
    .error (.failed (.failed "comptime_unroll for arm cannot be evaluated at comptime"))
  | _, _ => .ok none

attribute [grind =] matchArm

def selectArm (names : PatternNames) (scrutinee : ConstValue) (scope : Scope ConstValue) :
    Nat → List RirPattern → Except ArmFailure (Option (Nat × Scope ConstValue))
  | _, [] => .ok none
  | index, pattern :: patterns => do
      match ← matchArm names pattern scrutinee scope with
      | some scope => .ok (some (index, scope))
      | none => selectArm names scrutinee scope (index + 1) patterns

def isRest (names : PatternNames) : RirPatternBinding → Bool
  | .mk isWildcard _ name _ => isWildcard && name == some names.restMarker

section Matching

variable (names : PatternNames) (heap : List (HeapItem ConstValue))

def payload (expected : Option (EnumId × Nat)) : ConstValue → Option (List ConstValue)
  | .data (.enumVariant enumId variantIdx) =>
    if sameVariant expected enumId variantIdx then some [] else none
  | .data (.enumData enumId variantIdx heapIdx) =>
    match heap[heapIdx]? with
    | some (.enumData fields) => if sameVariant expected enumId variantIdx then some fields else none
    | _ => none
  | .data (.enumStruct enumId variantIdx heapIdx) =>
    match heap[heapIdx]? with
    | some (.enumStruct fields) =>
      if sameVariant expected enumId variantIdx then some fields else none
    | _ => none
  | _ => none

def structPayload (expected : Option (EnumId × Nat)) : ConstValue → Option (EnumId × Nat × List ConstValue)
  | .data (.enumStruct enumId variantIdx heapIdx) =>
    match heap[heapIdx]? with
    | some (.enumStruct fields) =>
      if sameVariant expected enumId variantIdx then some (enumId, variantIdx, fields) else none
    | _ => none
  | _ => none

def structFields : ConstValue → Option (StructId × List ConstValue)
  | .data (.struct heapIdx) =>
    match heap[heapIdx]? with
    | some (.struct structId fields) => some (structId, fields)
    | _ => none
  | _ => none

mutual

def matchPatternTree : RirPattern → ConstValue → Option (List (Name × ConstValue))
  | .wildcard _, _ => some []
  | .int expected _, value => if value = .data (.integer expected) then some [] else none
  | .bool expected _, value => if value = .data (.bool expected) then some [] else none
  | .path _ typeName variant _, value =>
    match value with
    | .data (.enumVariant enumId variantIdx) | .data (.enumData enumId variantIdx _)
    | .data (.enumStruct enumId variantIdx _) =>
      if sameVariant (names.variant typeName variant) enumId variantIdx then some [] else none
    | _ => none
  | .dataVariant _ typeName variant bindings _, value => do
      let fields ← payload heap (names.variant typeName variant) value
      matchBindings fields 0 bindings
  | .structVariant _ typeName variant fieldBindings _, value => do
      let (enumId, variantIdx, fields) ← structPayload heap (names.variant typeName variant) value
      matchStructBindings (names.findField enumId variantIdx) fields fieldBindings
  | .ident name _ _, value => some [(name.val, value)]
  | .tuple elems restPosition _, value => do
      let (_, fields) ← structFields heap value
      matchElems fields (restPosition.map BitVec.toNat) 0 elems
  | .struct _ typeName fields _ _, value => do
      let (structId, values) ← structFields heap value
      if names.resolveComptimeStruct typeName = some structId then
        matchFields (names.structField structId) values fields
      else none
  | .comptimeUnrollArm .., _ => none

def matchBinding : RirPatternBinding → ConstValue → Option (List (Name × ConstValue))
  | .mk isWildcard isMut name subPattern, value => do
      let nested ← matchSubPattern subPattern value
      match boundName (.mk isWildcard isMut name none) with
      | some name => some ((name, value) :: nested)
      | none => some nested

def matchSubPattern : Option RirPattern → ConstValue → Option (List (Name × ConstValue))
  | none, _ => some []
  | some pattern, value => matchPatternTree pattern value

/-- What stands after `..` is counted from the end. -/
def matchBindings (fields : List ConstValue) : Nat → List RirPatternBinding → Option (List (Name × ConstValue))
  | _, [] => some []
  | position, binding :: bindings =>
    if isRest names binding then matchBindings fields (fields.length - bindings.length) bindings
    else
      match fields[position]? with
      | none => none
      | some value => do
          let bound ← matchBinding binding value
          let others ← matchBindings fields (position + 1) bindings
          some (bound ++ others)

def matchStructBindings (findField : Spur → Option Nat) (fields : List ConstValue) :
    List RirStructPatternBinding → Option (List (Name × ConstValue))
  | [] => some []
  | .mk fieldName binding :: bindings =>
    if isRest names binding then matchStructBindings findField fields bindings
    else
      match (findField fieldName).bind (fields[·]?) with
      | none => none
      | some value => do
          let bound ← matchBinding binding value
          let others ← matchStructBindings findField fields bindings
          some (bound ++ others)

def matchElems (fields : List ConstValue) (restPosition : Option Nat) :
    Nat → List RirPattern → Option (List (Name × ConstValue))
  | _, [] => some []
  | index, elem :: elems =>
    let fromEnd := fields.length - (elems.length + 1)
    let position := if restPosition.any (· ≤ index) then fromEnd else index
    match fields[position]? with
    | none => none
    | some value => do
        let bound ← matchPatternTree elem value
        let others ← matchElems fields restPosition (index + 1) elems
        some (bound ++ others)

def matchFields (fieldIndex : Spur → Option Nat) (values : List ConstValue) :
    List RirStructField → Option (List (Name × ConstValue))
  | [] => some []
  | .mk fieldName pattern :: fields =>
    match (fieldIndex fieldName).bind (values[·]?) with
    | none => none
    | some value => do
        let bound ← matchPatternTree pattern value
        let others ← matchFields fieldIndex values fields
        some (bound ++ others)

end

end Matching

def bindAll (scope : Scope ConstValue) (bound : List (Name × ConstValue)) : Scope ConstValue :=
  bound.foldl (fun scope entry => bind scope entry.1 entry.2) scope

def firstMatch (names : PatternNames) (scrutinee : ConstValue) (scope : Scope ConstValue) :
    Nat → List RirPattern → Option (Nat × Scope ConstValue)
  | _, [] => none
  | index, pattern :: patterns =>
    match matchPatternTree names scope.heap pattern scrutinee with
    | some bound => some (index, bindAll scope bound)
    | none => firstMatch names scrutinee scope (index + 1) patterns

end Comptime

end Gruel
