import Gruel.ComptimeCore

/-!
Straight-line constructs do not care whether their operands could have been signals: on
values, and in scopes that hold values only, they compute the same either way.
-/

namespace Gruel

namespace Comptime

attribute [local simp] Except.map

def HeapItem.inject : HeapItem Value → HeapItem ConstValue
  | .struct structId fields => .struct structId (fields.map .data)
  | .array elems => .array (elems.map .data)
  | .enumData fields => .enumData (fields.map .data)
  | .enumStruct fields => .enumStruct (fields.map .data)
  | .string text => .string text

def injectLocals (locals : List (Name × Value)) : List (Name × ConstValue) :=
  locals.map fun entry => (entry.1, .data entry.2)

def Scope.inject (scope : Scope Value) : Scope ConstValue where
  locals := injectLocals scope.locals
  heap := scope.heap.map HeapItem.inject

def injectResult (result : Value × Scope Value) : ConstValue × Scope ConstValue :=
  (.data result.1, result.2.inject)

@[simp] theorem view_value (value : Value) : Operand.view value = some value := rfl

@[simp] theorem view_data (value : Value) : Operand.view (ConstValue.data value) = some value := rfl

@[simp] theorem inject_value (value : Value) : (Operand.inject value : Value) = value := rfl

@[simp] theorem inject_data (value : Value) : (Operand.inject value : ConstValue) = .data value := rfl

@[simp] theorem asInteger_data (value : Value) : asInteger (ConstValue.data value) = asInteger value := rfl

@[simp] theorem asBool_data (value : Value) : asBool (ConstValue.data value) = asBool value := rfl

theorem Except.ok_bind {α β : Type} (value : α) (next : α → Except CompileError β) :
    (Except.ok value >>= next) = next value := rfl

section Heap

variable (heap : List (HeapItem Value))

theorem resolveComptimeStr_inject (heapIdx : Nat) :
    resolveComptimeStr (heap.map HeapItem.inject) heapIdx = resolveComptimeStr heap heapIdx := by
  unfold resolveComptimeStr
  rw [List.getElem?_map]
  cases heap[heapIdx]? with
  | none => rfl
  | some item => cases item <;> rfl

theorem evalEq_inject (lhs rhs : Value) :
    evalEq (heap.map HeapItem.inject) (ConstValue.data lhs) (.data rhs) = evalEq heap lhs rhs := by
  cases lhs <;> cases rhs <;> simp [evalEq, resolveComptimeStr_inject]

theorem evalOrdering_inject (lhs rhs : Value) :
    evalOrdering (heap.map HeapItem.inject) (ConstValue.data lhs) (.data rhs) = evalOrdering heap lhs rhs := by
  cases lhs <;> cases rhs <;> simp [evalOrdering, resolveComptimeStr_inject]

theorem evalBin_inject (op : BinOp) (lhs rhs : Value) :
    evalBin (heap.map HeapItem.inject) op (ConstValue.data lhs) (.data rhs) = evalBin heap op lhs rhs := by
  cases op with
  | eq => simp [evalBin, evalEq_inject]
  | ne => simp [evalBin, evalEq_inject]
  | lt | gt | le | ge => simp [evalBin, evalOrdering_inject]
  | _ => rfl

theorem getStruct_inject (operand : Value) : getStruct (heap.map HeapItem.inject) (ConstValue.data operand) =
      (getStruct heap operand).map fun found => (found.1, found.2.map .data) := by
  cases operand with
  | struct heapIdx =>
    simp only [getStruct, view_data, view_value, List.getElem?_map]
    cases heap[heapIdx]? with
    | none => rfl
    | some item => cases item <;> rfl
  | _ => rfl

theorem getArray_inject (operand : Value) : getArray (heap.map HeapItem.inject) (ConstValue.data operand) =
      (getArray heap operand).map (List.map .data) := by
  cases operand with
  | array heapIdx =>
    simp only [getArray, view_data, view_value, List.getElem?_map]
    cases heap[heapIdx]? with
    | none => rfl
    | some item => cases item <;> rfl
  | _ => rfl

end Heap

theorem lookup_inject (locals : List (Name × Value)) (name : Name) :
    lookup (injectLocals locals) name = (lookup locals name).map .data := by
  unfold lookup injectLocals
  rw [List.find?_map]
  simp [Function.comp_def, Option.map_map]

theorem targetOf_inject (op : StrictOp) (locals : List (Name × Value)) :
    targetOf op (injectLocals locals) = targetOf op locals := by
  unfold targetOf
  split
  case h_1 base field =>
      rw [lookup_inject]
      cases lookup locals base <;> rfl
  case h_2 base =>
      rw [lookup_inject]
      cases lookup locals base <;> rfl
  case h_3 => rfl

theorem acceptOperand_inject (op : StrictOp) (index : Nat) (operand : Value) :
    acceptOperand op index (ConstValue.data operand) = acceptOperand op index operand := rfl

theorem bind_inject (scope : Scope Value) (name : Name) (value : Value) :
    bind scope.inject name (.data value) = (bind scope name value).inject := rfl

theorem placeFields_inject (fieldCount : Nat) (places : List Nat) (operands : List Value) :
    placeFields fieldCount places (operands.map ConstValue.data) =
      (placeFields fieldCount places operands).map .data := by
  have general : ∀ (entries : List (Nat × Value)) (fields : List Value),
      (entries.map fun entry => (entry.1, ConstValue.data entry.2)).foldl
        (fun fields entry => fields.set entry.1 entry.2) (fields.map ConstValue.data) =
      (entries.foldl (fun fields entry => fields.set entry.1 entry.2) fields).map .data := by
    intro entries
    induction entries with
    | nil => simp
    | cons entry entries ih =>
      intro fields
      simp only [List.map_cons, List.foldl_cons]
      rw [← ih, List.map_set]
  unfold placeFields
  rw [← general, List.map_replicate, List.zip_map_right]
  rfl

theorem orPanic_map {α β : Type} (f : α → β) (found : Option α) : orPanic (found.map f) = (orPanic found).map f := by
  cases found <;> rfl

def positioned : List (Option Name) → Nat → List (Name × Name)
  | [], _ => []
  | none :: bindings, index => positioned bindings (index + 1)
  | some name :: bindings, index => (index, name) :: positioned bindings (index + 1)

theorem bindPositions_eq {X : Type} [Operand X] (fields : List X) (bindings : List (Option Name))
    (index : Nat) (scope : Scope X) : bindPositions fields bindings index scope =
      bindFields some fields (positioned bindings index) scope := by
  induction bindings generalizing index scope with
  | nil => rfl
  | cons binding bindings ih =>
    cases binding with
    | none => exact ih (index + 1) scope
    | some name => simp [bindPositions, positioned, bindFields, orNotConst, Except.ok_bind, ih]

theorem bindIndexed_eq {X : Type} [Operand X] (fields : List X) (bindings : List (Nat × Name))
    (scope : Scope X) : bindIndexed fields bindings scope = bindFields some fields bindings scope := by
  induction bindings generalizing scope with
  | nil => rfl
  | cons binding bindings ih => simp [bindIndexed, bindFields, orNotConst, Except.ok_bind, ih]

theorem bindFields_inject (fieldIndex : Name → Option Nat) (fields : List Value)
    (bindings : List (Name × Name)) (scope : Scope Value) :
    bindFields fieldIndex (fields.map ConstValue.data) bindings scope.inject =
      (bindFields fieldIndex fields bindings scope).map Scope.inject := by
  induction bindings generalizing scope with
  | nil => rfl
  | cons binding bindings ih =>
    obtain ⟨field, name⟩ := binding
    simp only [bindFields, List.getElem?_map, orPanic_map]
    cases orNotConst (fieldIndex field) with
    | error => rfl
    | ok index =>
      simp only [Except.ok_bind]
      cases orPanic fields[index]? with
      | error => rfl
      | ok value => exact ih (bind scope name value)

attribute [local simp] HeapItem.inject injectResult Scope.inject

theorem applyOp_inject (fieldIndex : FieldIndex) (op : StrictOp) (target : Nat)
    (scope : Scope Value) (operands : List Value) :
    applyOp fieldIndex op target scope.inject (operands.map ConstValue.data) =
      (applyOp fieldIndex op target scope operands).map injectResult := by
  cases op with
  | unary op =>
    match operands with
    | [] => rfl
    | [operand] =>
      change (evalUnary op operand >>= fun value => _) = _
      simp only [applyOp]
      cases evalUnary op operand <;> rfl
    | _ :: _ :: _ => rfl
  | bin op =>
    match operands with
    | [] => rfl
    | [_] => rfl
    | [lhs, rhs] =>
      simp only [applyOp, List.map_cons, List.map_nil, Scope.inject, evalBin_inject]
      cases evalBin scope.heap op lhs rhs <;> rfl
    | _ :: _ :: _ :: _ => rfl
  | logic op =>
    match operands with
    | [] => rfl
    | [_] => rfl
    | [lhs, rhs] =>
      change (evalLogic op lhs rhs >>= fun value => _) = _
      simp only [applyOp]
      cases evalLogic op lhs rhs <;> rfl
    | _ :: _ :: _ :: _ => rfl
  | stringConst text =>
    match operands with
    | [] => simp [applyOp, alloc]
    | _ :: _ => rfl
  | arrayInit =>
    simp [applyOp, alloc]
  | indexGet =>
    match operands with
    | [] => rfl
    | [_] => rfl
    | [base, index] =>
      simp only [applyOp, List.map_cons, List.map_nil, Scope.inject, getArray_inject, asInteger_data]
      cases getArray scope.heap base with
      | error => rfl
      | ok elems =>
        simp only [Except.map, Except.ok_bind, List.length_map, List.getElem?_map, orPanic_map]
        cases asInteger index with
        | error => rfl
        | ok index =>
          simp only [Except.ok_bind]
          cases indexInto index elems.length with
          | error => rfl
          | ok place =>
            simp only [Except.ok_bind]
            cases orPanic elems[place]? <;> rfl
    | _ :: _ :: _ :: _ => rfl
  | indexSet base =>
    match operands with
    | [] => rfl
    | [_] => rfl
    | [index, operand] =>
      simp only [applyOp, List.map_cons, List.map_nil, Scope.inject, asInteger_data, List.getElem?_map]
      cases scope.heap[target]? with
      | none => rfl
      | some item =>
        cases item with
        | array elems =>
          simp only [Option.map_some, HeapItem.inject, List.length_map]
          cases asInteger index with
          | error => rfl
          | ok index =>
            simp only [Except.ok_bind]
            cases indexInto index elems.length with
            | error => rfl
            | ok place =>
              simp [Except.ok_bind, List.map_set]
        | _ => rfl
    | _ :: _ :: _ :: _ => rfl
  | structInit structId fieldCount places | enumStruct enumId variantIdx fieldCount places =>
    simp [applyOp, alloc, placeFields_inject]
  | fieldGet field =>
    match operands with
    | [] => rfl
    | [base] =>
      simp only [applyOp, List.map_cons, List.map_nil, Scope.inject, getStruct_inject]
      cases getStruct scope.heap base with
      | error => rfl
      | ok found =>
        simp only [Except.map, Except.ok_bind, List.getElem?_map, orPanic_map]
        cases fieldIndex found.1 field with
        | none => rfl
        | some index =>
          simp only
          cases orPanic found.2[index]? <;> rfl
    | _ :: _ :: _ => rfl
  | fieldSet base field =>
    match operands with
    | [] => rfl
    | [operand] =>
      simp only [applyOp, List.map_cons, List.map_nil, Scope.inject, List.getElem?_map]
      cases scope.heap[target]? with
      | none => rfl
      | some item =>
        cases item with
        | struct structId fields =>
          simp only [Option.map_some, HeapItem.inject]
          cases fieldIndex structId field with
          | none => rfl
          | some index =>
            simp
        | _ => rfl
    | _ :: _ :: _ => rfl
  | enumData enumId variantIdx =>
    simp [applyOp, alloc]
  | structDestructure bindings =>
    match operands with
    | [] => rfl
    | [init] =>
      have heapEq : scope.inject.heap = scope.heap.map HeapItem.inject := rfl
      simp only [applyOp, List.map_cons, List.map_nil, heapEq, getStruct_inject]
      cases getStruct scope.heap init with
      | error => rfl
      | ok found =>
        simp only [Except.map, Except.ok_bind, bindFields_inject]
        cases bindFields (fieldIndex found.1) found.2 bindings scope <;> rfl
    | _ :: _ :: _ => rfl

theorem matchPattern_inject (pattern : Pattern) (scrutinee : Value) (scope : Scope Value) :
    matchPattern pattern (ConstValue.data scrutinee) scope.inject =
      (matchPattern pattern scrutinee scope).map (Option.map Scope.inject) := by
  have heapEq : scope.inject.heap = scope.heap.map HeapItem.inject := rfl
  cases pattern with
  | dataVariant enumId variantIdx bindings =>
    cases scrutinee with
    | enumData otherId otherIdx heapIdx =>
      simp only [matchPattern, view_data, view_value, heapEq, List.getElem?_map]
      by_cases sameVariant : otherId = enumId ∧ otherIdx = variantIdx
      · simp only [sameVariant, and_self, if_true]
        cases scope.heap[heapIdx]? with
        | none => rfl
        | some item =>
          cases item with
          | enumData fields =>
            simp only [Option.map_some, HeapItem.inject, bindPositions_eq, bindFields_inject]
            cases bindFields some fields (positioned bindings 0) scope <;> rfl
          | _ => rfl
      · simp only [if_neg sameVariant]
        rfl
    | _ => rfl
  | structVariant enumId variantIdx bindings =>
    cases scrutinee with
    | enumStruct otherId otherIdx heapIdx =>
      simp only [matchPattern, view_data, view_value, heapEq, List.getElem?_map]
      by_cases sameVariant : otherId = enumId ∧ otherIdx = variantIdx
      · simp only [sameVariant, and_self, if_true]
        cases scope.heap[heapIdx]? with
        | none => rfl
        | some item =>
          cases item with
          | enumStruct fields =>
            simp only [Option.map_some, HeapItem.inject, bindIndexed_eq, bindFields_inject]
            cases bindFields some fields bindings scope <;> rfl
          | _ => rfl
      · simp only [if_neg sameVariant]
        rfl
    | _ => rfl
  | int expected =>
    cases scrutinee with
    | integer value =>
      simp only [matchPattern, view_data, view_value]
      split <;> rfl
    | _ => rfl
  | bool expected =>
    cases scrutinee with
    | bool value =>
      simp only [matchPattern, view_data, view_value]
      split <;> rfl
    | _ => rfl
  | path enumId variantIdx =>
    cases scrutinee with
    | enumVariant otherId otherIdx | enumData otherId otherIdx heapIdx | enumStruct otherId otherIdx heapIdx =>
      simp only [matchPattern, view_data, view_value]
      split <;> rfl
    | _ => rfl
  | _ => cases scrutinee <;> rfl

theorem typeOverridesOf_inject (info : FnInfo) (args : List Value) :
    typeOverridesOf info (args.map ConstValue.data) = typeOverridesOf info args := by
  unfold typeOverridesOf
  rw [List.zip_map_right, ← List.map_reverse, List.filterMap_map]
  rfl

theorem callLocals_inject (info : FnInfo) (args : List Value) :
    callLocals info (args.map ConstValue.data) = injectLocals (callLocals info args) := by
  unfold callLocals injectLocals
  rw [List.zip_map_right, List.filter_map, ← List.map_reverse, List.map_map, List.map_map]
  rfl

theorem zip_inject (names : List Name) (values : List Value) :
    names.zip (values.map ConstValue.data) = injectLocals (names.zip values) := by
  rw [List.zip_map_right]
  rfl

end Comptime

end Gruel
