import Gruel.ComptimeData
import Gruel.ComptimeStructured

/-!
The interpreter does structured control flow in every run that stays unmarked: no jump
leaves an operand, and no return leaves a loop.
-/

namespace Gruel

namespace Comptime

open Marked

/-- The interpreter's state holds the values of the structured one.  The slot for returned
values is free to hold anything. -/
structure Related (state : State) (interp : Interp) : Prop where
  scope : interp.scope = state.scope.inject
  steps : interp.steps = state.steps
  callDepth : interp.callDepth = state.callDepth
  typeOverrides : interp.typeOverrides = state.typeOverrides

def Encodes : Ran Value → ConstValue × Interp → Prop
  | (.value value, state), (result, interp) => result = .data value ∧ Related state interp
  | (.break, state), (result, interp) => result = .breakSignal ∧ Related state interp
  | (.continue, state), (result, interp) => result = .continueSignal ∧ Related state interp
  | (.return value, state), (result, interp) =>
    result = .returnSignal ∧ interp.returnValue = some (.data value) ∧ Related state interp

def EncodesAll (ran : Ran (List Value)) (result : List ConstValue × Interp) : Prop :=
  ∃ values, ran.1 = .value values ∧ result.1 = values.map .data ∧ Related ran.2 result.2

def Simulates (run : StructuredStep) (interpret : Step) : Prop :=
  ∀ expr state interp, Related state interp → Follows Encodes (run expr state) (interpret expr interp)

variable {state : State} {interp : Interp}

theorem Related.withScope (related : Related state interp) (scope : Scope Value) :
    Related { state with scope := scope } { interp with scope := scope.inject } :=
  ⟨rfl, related.steps, related.callDepth, related.typeOverrides⟩

section Constructs

variable {run : StructuredStep} {interpret : Step} {state : State} {interp : Interp}
variable {ran : Structured (Ran Value)} {plain : Except CompileError (ConstValue × Interp)}

theorem follows_value {value : Value} (related : Related state interp) :
    Follows Encodes (pure (.value value, state) : Structured (Ran Value)) (.ok (.data value, interp)) :=
  follows_ok ⟨rfl, related⟩

theorem follows_withValue {β γ : Type} {relatedNext : Ran β → γ → Prop} {next : Value → State → Structured (Ran β)}
    {plainNext : ConstValue × Interp → Except CompileError γ} (follows : Follows Encodes ran plain)
    (followsNext : ∀ value state interp, Related state interp →
      Follows relatedNext (next value state) (plainNext (.data value, interp))) :
    Follows relatedNext (ran >>= withValue next) (plain >>= plainNext) := by
  refine follows_bind follows ?_
  rintro ⟨outcome, state⟩ ⟨_, interp⟩ encodes
  cases outcome with
  | value value =>
    obtain ⟨rfl, related⟩ := encodes
    exact followsNext value state interp related
  | «break» | «continue» | «return» value => exact follows_mark _ _

theorem follows_withValues {β γ : Type} {relatedNext : Ran β → γ → Prop} {ran : Structured (Ran (List Value))}
    {plain : Except CompileError (List ConstValue × Interp)}
    {next : List Value → State → Structured (Ran β)}
    {plainNext : List ConstValue × Interp → Except CompileError γ}
    (follows : Follows EncodesAll ran plain)
    (followsNext : ∀ values state interp, Related state interp →
      Follows relatedNext (next values state) (plainNext (values.map .data, interp))) :
    Follows relatedNext (ran >>= withValue next) (plain >>= plainNext) := by
  refine follows_bind follows ?_
  rintro ⟨_, state⟩ ⟨_, interp⟩ ⟨values, rfl, rfl, related⟩
  exact followsNext values state interp related

section

variable (simulates : Simulates run interpret)
include simulates

theorem follows_operands {accept : Nat → Value → Except CompileError Unit}
    {plainAccept : Nat → ConstValue → Except CompileError Unit}
    (acceptEq : ∀ index value, plainAccept index (.data value) = accept index value)
    (operands : List Expr) (index : Nat) (related : Related state interp) :
    Follows EncodesAll (structuredOperands run accept index operands state)
      (evalOperands interpret plainAccept index operands interp) := by
  induction operands generalizing index state interp with
  | nil => exact follows_ok ⟨[], rfl, rfl, related⟩
  | cons operand operands ih =>
    refine follows_withValue (simulates operand state interp related) ?_
    intro value state interp related
    change Follows EncodesAll (Run.ofExcept (accept index value) >>= _) (plainAccept index (.data value) >>= _)
    rw [acceptEq]
    refine follows_shared fun _ _ => ?_
    refine follows_withValues (ih (index + 1) related) ?_
    intro values state interp related
    exact follows_ok ⟨value :: values, rfl, rfl, related⟩

theorem follows_args (args : List Expr) (related : Related state interp) :
    Follows EncodesAll (structuredOperands run (fun _ _ => .ok ()) 0 args state)
      (evalOperands interpret acceptAll 0 args interp) := by
  have acceptEq : ∀ index value, acceptAll index (.data value) = .ok () := fun _ _ => rfl
  exact follows_operands simulates acceptEq args 0 related

theorem follows_stmts (stmts : List Expr) (last : Value) (related : Related state interp) :
    Follows Encodes (structuredStmts run stmts last state) (evalStmts interpret stmts (.data last) interp) := by
  induction stmts generalizing last state interp with
  | nil => exact follows_value related
  | cons stmt stmts ih =>
    refine follows_bind (simulates stmt state interp related) ?_
    rintro ⟨outcome, state⟩ ⟨_, interp⟩ encodes
    cases outcome with
    | value value =>
      obtain ⟨rfl, related⟩ := encodes
      exact ih value related
    | «break» | «continue» =>
      obtain ⟨rfl, related⟩ := encodes
      exact follows_ok ⟨rfl, related⟩
    | «return» value =>
      obtain ⟨rfl, returned, related⟩ := encodes
      exact follows_ok ⟨rfl, returned, related⟩

theorem follows_arms (scrutinee : Value) (arms : List (Pattern × Expr)) (related : Related state interp) :
    Follows Encodes (structuredArms run scrutinee arms state) (evalArms interpret (.data scrutinee) arms interp) := by
  induction arms with
  | nil => exact follows_error _
  | cons arm arms ih =>
    obtain ⟨_, body⟩ := arm
    simp only [structuredArms, evalArms, related.scope, matchPattern_inject]
    refine follows_bind (follows_map _ _) ?_
    rintro matched _ rfl
    cases matched with
    | none => exact ih
    | some scope => exact simulates body _ _ (related.withScope scope)

theorem follows_body (place : String) (body : Expr) (locals : List (Name × Value))
    (typeOverrides : List (Name × Ty)) (related : Related state interp) :
    Follows Encodes (structuredBody run place body locals typeOverrides state)
      (runBody interpret place body (injectLocals locals) typeOverrides interp) := by
  refine follows_bind (simulates body _ _ ?entered) ?_
  case entered =>
      refine ⟨?_, related.steps, ?_, rfl⟩
      · rw [related.scope]
        rfl
      · rw [related.callDepth]
  rintro ⟨outcome, after⟩ ⟨_, interpAfter⟩ encodes
  have leaves : ∀ returnValue, Related after interpAfter → Related { after with
        scope := { after.scope with locals := state.scope.locals }
        typeOverrides := state.typeOverrides
        callDepth := state.callDepth }
      { interpAfter with
        scope := { interpAfter.scope with locals := interp.scope.locals }
        typeOverrides := interp.typeOverrides
        callDepth := interp.callDepth
        returnValue := returnValue } := by
    intro returnValue relatedAfter
    refine ⟨?_, relatedAfter.steps, related.callDepth, related.typeOverrides⟩
    rw [relatedAfter.scope, related.scope]
    rfl
  cases outcome with
  | value value =>
    obtain ⟨rfl, relatedAfter⟩ := encodes
    exact follows_value (leaves _ relatedAfter)
  | «break» | «continue» =>
    obtain ⟨rfl, relatedAfter⟩ := encodes
    exact follows_error _
  | «return» value =>
    obtain ⟨rfl, returned, relatedAfter⟩ := encodes
    simp only [finishCall, returned]
    exact follows_value (leaves _ relatedAfter)

end

theorem follows_loopBody {again : State → Structured (Ran Value)}
    {plainAgain : Interp → Except CompileError (ConstValue × Interp)}
    (follows : Follows Encodes ran plain) (followsAgain : ∀ state interp, Related state interp →
      Follows Encodes (again state) (plainAgain interp)) :
    Follows Encodes (ran >>= afterBody again) (plain >>= fun
        | (.breakSignal, interp) => .ok (.data .unit, interp)
        | (_, interp) => plainAgain interp) := by
  refine follows_bind follows ?_
  rintro ⟨outcome, state⟩ ⟨_, interp⟩ encodes
  cases outcome with
  | value value | «continue» =>
    obtain ⟨rfl, related⟩ := encodes
    exact followsAgain state interp related
  | «break» =>
    obtain ⟨rfl, related⟩ := encodes
    exact follows_value related
  | «return» value => exact follows_mark _ _

end Constructs

variable {run : StructuredStep} {interpret : Step} {state : State} {interp : Interp}

theorem follows_strict (simulates : Simulates run interpret) (related : Related state interp)
    (fieldIndex : FieldIndex) (op : StrictOp) (operands : List Expr) :
    Follows Encodes (do
        let target ← Run.ofExcept (targetOf op state.scope.locals)
        structuredOperands run (acceptOperand op) 0 operands state >>=
          withValue fun values state => do
            let (value, scope) ← Run.ofExcept (applyOp fieldIndex op target state.scope values)
            pure (.value value, { state with scope := scope }))
      (do
        let target ← targetOf op interp.scope.locals
        let (values, interp) ← evalOperands interpret (acceptOperand op) 0 operands interp
        let (value, scope) ← applyOp fieldIndex op target interp.scope values
        .ok (value, { interp with scope := scope })) := by
  have localsEq : interp.scope.locals = injectLocals state.scope.locals := by
    rw [related.scope]
    rfl
  rw [localsEq, targetOf_inject]
  refine follows_shared fun target _ => ?_
  refine follows_withValues (follows_operands simulates (acceptOperand_inject op) operands 0 related) ?_
  intro values state interp related
  simp only [related.scope, applyOp_inject]
  refine follows_bind (follows_map _ _) ?_
  rintro ⟨value, scope⟩ _ rfl
  exact follows_value (related.withScope scope)

theorem follows_iteration (simulates : Simulates run interpret) (related : Related state interp)
    (body : Expr) {again : State → Structured (Ran Value)}
    {plainAgain : Interp → Except CompileError (ConstValue × Interp)}
    (followsAgain : ∀ state interp, Related state interp → Follows Encodes (again state) (plainAgain interp)) :
    Follows Encodes (if maxSteps < state.steps + 1 then Run.ofExcept (.error stepBudgetExceeded)
      else run body { state with steps := state.steps + 1 } >>= afterBody again)
      (if maxSteps < interp.steps + 1 then .error stepBudgetExceeded
      else
        interpret body { interp with steps := interp.steps + 1 } >>= fun
          | (.breakSignal, interp) => .ok (.data .unit, interp)
          | (_, interp) => plainAgain interp) := by
  rw [related.steps]
  split
  case isTrue => exact follows_error _
  case isFalse =>
      refine follows_loopBody (simulates body _ _ ?_) followsAgain
      exact ⟨related.scope, rfl, related.callDepth, related.typeOverrides⟩

theorem simulates_evaluateComptimeInst (program : Program) (fuel : Nat) :
    Simulates (evalStructured program fuel) (evaluateComptimeInst program fuel) := by
  induction fuel with
  | zero => exact fun _ _ _ _ => follows_error _
  | succ fuel simulates =>
    intro expr state interp related
    cases expr with
    | literal value => exact follows_value related
    | strict op operands =>
      exact follows_strict simulates related program.fieldIndex op operands
    | block stmts => exact follows_stmts simulates stmts .unit related
    | alloc name init =>
      refine follows_withValue (simulates init state interp related) ?_
      intro value state interp related
      cases name with
      | none => exact follows_value related
      | some name =>
        simp only [related.scope, bind_inject]
        exact follows_value (related.withScope _)
    | varRef name =>
      simp only [evalStructured, evaluateComptimeInst, related.scope, related.typeOverrides,
        Scope.inject, lookup_inject]
      cases lookup state.scope.locals name with
      | some value => exact follows_value related
      | none =>
        cases lookupType program state.typeOverrides name with
        | some ty => exact follows_value related
        | none => exact follows_error _
    | assign name value =>
      refine follows_withValue (simulates value state interp related) ?_
      intro value state interp related
      simp only [related.scope, bind_inject]
      exact follows_value (related.withScope _)
    | branch cond thenBlock elseBlock =>
      refine follows_withValue (simulates cond state interp related) ?_
      intro condition state interp related
      cases condition with
      | bool taken =>
        cases taken with
        | true => exact simulates thenBlock state interp related
        | false =>
          cases elseBlock with
          | none => exact follows_value related
          | some elseBlock => exact simulates elseBlock state interp related
      | _ => exact follows_error _
    | comptime expr => exact simulates expr state interp related
    | loop cond body =>
      refine follows_withValue (simulates cond state interp related) ?_
      intro condition state interp related
      refine follows_shared fun taken _ => ?_
      cases taken with
      | false => exact follows_value related
      | true =>
        exact follows_iteration simulates related body fun state interp related =>
          simulates (.loop cond body) state interp related
    | infiniteLoop body =>
      exact follows_iteration simulates related body fun state interp related =>
        simulates (.infiniteLoop body) state interp related
    | «break» | «continue» => exact follows_ok ⟨rfl, related⟩
    | ret value =>
      cases value with
      | none =>
        exact follows_ok ⟨rfl, rfl, related.scope, related.steps, related.callDepth, related.typeOverrides⟩
      | some value =>
        refine follows_withValue (simulates value state interp related) ?_
        intro value state interp related
        exact follows_ok ⟨rfl, rfl, related.scope, related.steps, related.callDepth, related.typeOverrides⟩
    | call name args =>
      simp only [evalStructured, evaluateComptimeInst]
      cases program.functions name with
      | none => exact follows_error _
      | some info =>
        refine follows_withValues (follows_args simulates args related) ?_
        intro values state interp related
        simp only [related.callDepth]
        by_cases tooDeep : callDepthLimit ≤ state.callDepth
        · simp only [if_pos tooDeep]
          exact follows_error _
        · simp only [if_neg tooDeep, callLocals_inject, typeOverridesOf_inject]
          exact follows_body simulates _ _ _ _ related
    | methodCall receiver method args =>
      refine follows_withValue (simulates receiver state interp related) ?_
      intro self state interp related
      have heapEq : interp.scope.heap = state.scope.heap.map HeapItem.inject := by
        rw [related.scope]
        rfl
      simp only [heapEq, getStruct_inject]
      refine follows_bind (follows_map _ _) ?_
      rintro ⟨structId, _⟩ _ rfl
      cases program.methods structId method with
      | none => exact follows_error _
      | some info =>
        refine follows_withValues (follows_args simulates args related) ?_
        intro values state interp related
        simp only [related.callDepth, related.typeOverrides]
        by_cases tooDeep : callDepthLimit ≤ state.callDepth
        · simp only [if_pos tooDeep]
          exact follows_error _
        · simp only [if_neg tooDeep, zip_inject]
          have localsEq : (injectLocals (info.paramNames.zip values)).reverse ++
                [(program.selfName, ConstValue.data self)] =
              injectLocals ((info.paramNames.zip values).reverse ++ [(program.selfName, self)]) := by
            simp [injectLocals]
          rw [localsEq]
          exact follows_body simulates _ _ _ _ related
    | matchOn scrutinee arms =>
      refine follows_withValue (simulates scrutinee state interp related) ?_
      intro scrutinee state interp related
      exact follows_arms simulates scrutinee arms related
    | unsupported => exact follows_error _

/-- In every run in which no jump leaves an operand and no return leaves a loop, the
interpreter fails where structured control flow fails, and otherwise reports its outcome
and leaves its variables and heap. -/
theorem evaluateComptimeInst_structured (program : Program) (fuel : Nat) (expr : Expr)
    (state : State) (interp : Interp) (related : Related state interp)
    (unmarked : (evalStructured program fuel expr state).marked = false) :
    (∀ err, (evalStructured program fuel expr state).result = .error err →
      evaluateComptimeInst program fuel expr interp = .error err) ∧
    (∀ ran, (evalStructured program fuel expr state).result = .ok ran →
      ∃ result, evaluateComptimeInst program fuel expr interp = .ok result ∧ Encodes ran result) := by
  have follows := simulates_evaluateComptimeInst program fuel expr state interp related unmarked
  constructor
  · intro err failed
    rw [failed] at follows
    exact follows
  · intro ran returned
    rw [returned] at follows
    exact follows

namespace ControlSample

def int (value : BitVec 64) : Expr := .literal (.integer value)

def program (body : Expr) : Program where
  functions name := if name = 0 then some ⟨[(1, false)], false, body⟩ else none
  methods _ _ := none
  fieldIndex _ _ := none
  typeNames _ := none
  selfName := 9

def count : Expr := .varRef 1

def increment : Expr := .assign 1 (.strict (.bin .add) [count, int 1])

/-- `while n < 3 { n = n + 1; return n; }; 10` -/
def returnInLoop : Expr := .block [ .loop (.strict (.bin .lt) [count, int 3]) (.block [increment, .ret (some count)]),
    int 10]

/-- `let x = return n; 10` -/
def returnInInit : Expr := .block [.alloc (some 2) (.ret (some count)), int 10]

/-- `while n < 10 { n = n + 1; if n == 3 { break; } }; if n == 3 { return 30; }; n` -/
def search : Expr := .block [ .loop (.strict (.bin .lt) [count, int 10])
      (.block [increment, .branch (.strict (.bin .eq) [count, int 3]) .break none]),
    .branch (.strict (.bin .eq) [count, int 3]) (.ret (some (int 30))) none,
    count]

/-- The loop runs on after the return, and the statement after the initialiser runs too. -/
theorem returns_are_swallowed : (evaluateComptimeBlock (program returnInLoop) 12 (.call 0 [int 0]) [] =
        .ok (.data (.integer 10)) ∧
      (structuredBlock (program returnInLoop) 12 (.call 0 [int 0]) []).result = .ok (.integer 1)) ∧
    (evaluateComptimeBlock (program returnInInit) 12 (.call 0 [int 5]) [] = .ok (.data (.integer 10)) ∧
      (structuredBlock (program returnInInit) 12 (.call 0 [int 5]) []).result = .ok (.integer 5)) := by
  refine ⟨⟨?_, ?_⟩, ?_, ?_⟩ <;> rfl

theorem search_structured : Related {} {} ∧ (evalStructured (program search) 12 (.call 0 [int 0]) {}).result =
      .ok (.value (.integer 30), { steps := 3 }) ∧
    ∃ result, evaluateComptimeInst (program search) 12 (.call 0 [int 0]) {} = .ok result ∧
      Encodes (.value (.integer 30), { steps := 3 }) result :=
  ⟨⟨rfl, rfl, rfl, rfl⟩, rfl, (evaluateComptimeInst_structured (program search) 12 (.call 0 [int 0]) {} {}
      ⟨rfl, rfl, rfl, rfl⟩ rfl).2 _ rfl⟩

end ControlSample

end Comptime

end Gruel
