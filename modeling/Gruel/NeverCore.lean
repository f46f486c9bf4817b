import Gruel.Types
import Gruel.Lib.EventRuns

/-!
The never type: the types that the analysis gives to expressions, and the runs
of an analyzed program, which log every expression that completes together with
its type.
-/

namespace Gruel.Never

open EventRuns

inductive Variable
  | stored (id : Nat)
  | given
  deriving DecidableEq, Repr

inductive ForLoopSource
  | range
  | array (isCopy : Bool)
  | slice
  deriving DecidableEq, Repr

/-- Expressions by their control flow. An operation is anything that evaluates its operands and then
gives a value of a type that is declared or was inferred; the types of the variables are those of
the bindings that their names resolve to. -/
inductive Expr
  | unitConst
  | boolConst
  | varRef (variable_ : Variable) (ty : Ty)
  | alloc (id : Nat) (init : Expr)
  | assign (value : Expr)
  | operation (operands : List Expr) (resolved : Ty)
  | logical (lhs rhs : Expr)
  | call (name : String) (args : List Expr)
  | panic
  | panicWith (message : Expr)
  | block (statements : List Expr) (value : Expr)
  | branch (cond thenBlock elseBlock : Expr)
  | branchOnly (cond thenBlock : Expr)
  /-- A `checked` block, or the branch of a `comptime if` that is taken. -/
  | inner (body : Expr)
  | whileLoop (cond body : Expr)
  | forLoop (source : ForLoopSource) (iterable body : Expr)
  | infiniteLoop (body : Expr)
  | matchOn (scrutinee : Expr) (arms : List Expr)
  | breakLoop
  | continueLoop
  | ret (value : Expr)
  | retUnit

inductive Air
  | unitConst (ty : Ty)
  | boolConst
  | load (variable_ : Variable) (ty : Ty)
  | alloc (id : Nat) (init : Air)
  | store (value : Air)
  | operation (operands : List Air) (ty : Ty)
  | logic (lhs rhs : Air)
  | call (name : String) (args : List Air) (ty : Ty)
  | panicWith (message : Air)
  | block (statements : List Air) (value : Air)
  | branch (cond thenValue elseValue : Air) (ty : Ty)
  | branchOnly (cond thenValue : Air)
  | loop (cond body : Air)
  | infiniteLoop (body : Air)
  | matchOn (scrutinee : Air) (arms : List Air) (ty : Ty)
  | breakLoop
  | continueLoop
  | ret (value : Air)
  | retUnit

def Air.ty : Air → Ty
  | unitConst ty | load _ ty | operation _ ty | call _ _ ty | branch _ _ _ ty
  | matchOn _ _ ty => ty
  | boolConst | logic _ _ => .bool
  | alloc _ _ | store _ | branchOnly _ _ | loop _ _ => .unit
  | block _ value => value.ty
  | panicWith _ | infiniteLoop _ | breakLoop | continueLoop | ret _ | retUnit => .never

inductive SemaError
  | typeMismatch (expected found : Ty)
  | breakOutsideLoop
  | continueOutsideLoop
  | breakInConsumingForLoop
  | undefinedFunction (name : String)
  | wrongArgumentCount (expected found : Nat)
  | invalidMatchType (ty : Ty)
  | emptyMatch
  deriving DecidableEq, Repr

structure Function where
  params : List Ty
  returnType : Ty
  body : Option Expr

structure Program where
  functions : String → Option Function
  isEmptyEnum : EnumId → Bool

structure AnalysisContext where
  loopDepth : Nat
  forbidBreak : Bool
  returnType : Ty

def AnalysisContext.inLoop (ctx : AnalysisContext) : AnalysisContext :=
  { ctx with loopDepth := ctx.loopDepth + 1 }

def AnalysisContext.inForLoop (ctx : AnalysisContext) (source : ForLoopSource) : AnalysisContext :=
  match source with
  | .array isCopy => { ctx.inLoop with forbidBreak := !isCopy }
  | .range | .slice => ctx.inLoop

def branchType (thenType elseType : Ty) : Except SemaError Ty :=
  match thenType.isNever, elseType.isNever with
  | true, true => .ok .never
  | true, false => .ok elseType
  | false, true => .ok thenType
  | false, false =>
    if thenType ≠ elseType ∧ !thenType.isError ∧ !elseType.isError then
      .error (.typeMismatch thenType elseType)
    else .ok thenType

def armType (result : Option Ty) (bodyType : Ty) : Except SemaError Ty := match result with
  | none => .ok bodyType
  | some previous =>
    if previous.isNever then .ok bodyType
    else if bodyType.isNever then .ok previous
    else if previous ≠ bodyType ∧ !previous.isError ∧ !bodyType.isError then
      .error (.typeMismatch previous bodyType)
    else .ok previous

def armsType (result : Option Ty) : List Air → Except SemaError (Option Ty)
  | [] => .ok result
  | arm :: arms => do
      let next ← armType result arm.ty
      armsType (some next) arms

def isMatchable (ty : Ty) : Bool :=
  ty.isInteger || ty = .bool || ty.asEnum.isSome || ty.asStruct.isSome || ty.isNever

def isUninhabited (program : Program) (ty : Ty) : Bool :=
  ty.isNever || (ty.asEnum.map program.isEmptyEnum).getD false

section Analysis

variable (program : Program)

mutual

def analyzeInst (ctx : AnalysisContext) : Expr → Except SemaError Air
  | .unitConst => .ok (.unitConst .unit)
  | .boolConst => .ok .boolConst
  | .varRef variable_ ty => .ok (.load variable_ ty)
  | .alloc id init => do
      let init ← analyzeInst ctx init
      return .alloc id init
  | .assign value => do
      let value ← analyzeInst ctx value
      return .store value
  | .operation operands resolved => do
      let operands ← analyzeInsts ctx operands
      return .operation operands resolved
  | .logical lhs rhs => do
      let lhs ← analyzeInst ctx lhs
      let rhs ← analyzeInst ctx rhs
      return .logic lhs rhs
  | .call name args =>
    match program.functions name with
    | none => .error (.undefinedFunction name)
    | some function =>
      if args.length ≠ function.params.length then
        .error (.wrongArgumentCount function.params.length args.length)
      else do
        let args ← analyzeInsts ctx args
        return .call name args function.returnType
  -- A panic without a message is a unit constant of the never type.
  | .panic => .ok (.unitConst .never)
  | .panicWith message => do
      let message ← analyzeInst ctx message
      return .panicWith message
  | .block statements value => do
      let statements ← analyzeInsts ctx statements
      let value ← analyzeInst ctx value
      return .block statements value
  | .branch cond thenBlock elseBlock => do
      let cond ← analyzeInst ctx cond
      let thenValue ← analyzeInst ctx thenBlock
      let elseValue ← analyzeInst ctx elseBlock
      let ty ← branchType thenValue.ty elseValue.ty
      return .branch cond thenValue elseValue ty
  | .branchOnly cond thenBlock => do
      let cond ← analyzeInst ctx cond
      let thenValue ← analyzeInst ctx thenBlock
      if thenValue.ty = .unit ∨ thenValue.ty.isNever ∨ thenValue.ty.isError then
        return .branchOnly cond thenValue
      else throw (.typeMismatch .unit thenValue.ty)
  | .inner body => analyzeInst ctx body
  | .whileLoop cond body => do
      let cond ← analyzeInst ctx cond
      let body ← analyzeInst ctx.inLoop body
      return .loop cond body
  -- A loop over a hidden counter, after the iterable.
  | .forLoop source iterable body => do
      let iterable ← analyzeInst ctx iterable
      let body ← analyzeInst (ctx.inForLoop source) body
      return .block [.alloc 0 iterable] (.loop .boolConst body)
  | .infiniteLoop body => do
      let body ← analyzeInst ctx.inLoop body
      return .infiniteLoop body
  | .matchOn scrutinee arms => do
      let scrutinee ← analyzeInst ctx scrutinee
      if !isMatchable scrutinee.ty then throw (.invalidMatchType scrutinee.ty)
      else
        let arms ← analyzeInsts ctx arms
        if arms.isEmpty then
          if isUninhabited program scrutinee.ty then return .matchOn scrutinee [] .never
          else throw .emptyMatch
        else
          let ty ← armsType none arms
          return .matchOn scrutinee arms (ty.getD .unit)
  | .breakLoop =>
    if ctx.loopDepth = 0 then .error .breakOutsideLoop
    else if ctx.forbidBreak then .error .breakInConsumingForLoop
    else .ok .breakLoop
  | .continueLoop =>
    if ctx.loopDepth = 0 then .error .continueOutsideLoop else .ok .continueLoop
  | .ret value => do
      let value ← analyzeInst ctx value
      if !ctx.returnType.isError && !value.ty.isError && !value.ty.canCoerceTo ctx.returnType then
        throw (.typeMismatch ctx.returnType value.ty)
      else return .ret value
  | .retUnit =>
    if ctx.returnType ≠ .unit ∧ !ctx.returnType.isError then
      .error (.typeMismatch ctx.returnType .unit)
    else .ok .retUnit

def analyzeInsts (ctx : AnalysisContext) : List Expr → Except SemaError (List Air)
  | [] => .ok []
  | expr :: exprs => do
      let air ← analyzeInst ctx expr
      let airs ← analyzeInsts ctx exprs
      return air :: airs

end

def unifies (lhs rhs : Ty) : Bool := lhs = rhs || lhs.canCoerceTo rhs || rhs.canCoerceTo lhs

def analyzeFunction (returnType : Ty) (body : Expr) : Except SemaError Air := do
  let body ← analyzeInst program ⟨0, false, returnType⟩ body
  if unifies body.ty returnType then return body
  else throw (.typeMismatch returnType body.ty)

end Analysis

inductive How
  /-- After those parts that decide its type, or with a value that is not of that type only. -/
  | plain
  | neverConst
  | leftByBreak
  | loaded
  | unfilled
  | given
  | carriedOut
  | reachedEnd (bodyType : Ty)
  | returned (ty : Ty)
  | foreign
  deriving DecidableEq, Repr

structure Completion where
  ty : Ty
  how : How
  deriving DecidableEq, Repr

inductive Exit
  | broke
  | continued
  | returned (ty : Ty)
  | trapped
  | spent
  deriving DecidableEq, Repr

structure State where
  filled : List (Nat × Ty)
  clock : Nat

abbrev Action := Step State Completion Exit

section Execution

-- Conditions, the arms that match and failures of operations are decided from outside.
variable (choose : Nat → Nat)

def decision (state : State) : Nat × State :=
  (choose state.clock, { state with clock := state.clock + 1 })

def complete (ty : Ty) (how : How) : Action := log ⟨ty, how⟩

def fill (id : Nat) (ty : Ty) (state : State) : State :=
  { state with filled := (id, ty) :: state.filled }

def howLoaded (variable_ : Variable) (ty : Ty) (state : State) : How × State := match variable_ with
  | .given => (.given, state)
  | .stored id => (if (id, ty) ∈ state.filled then .loaded else .unfilled, state)

def afterLoopBody (outcome : EventRuns.Outcome Exit) (again : Action) : Action := match outcome with
  | .done | .exit .continued => again
  | .exit .broke => skip
  | .exit reason => stop reason

variable (callee : String → Ty → Action) (limit : Nat)

mutual

def exec : Air → Action
  | .unitConst ty => complete ty .neverConst
  | .boolConst => complete .bool .plain
  | .load variable_ ty => ask (howLoaded variable_ ty) fun how => complete ty how
  | .alloc id init =>
    seq (exec init) (seq (modify (fill id init.ty)) (complete .unit .plain))
  | .store value => seq (exec value) (complete .unit .plain)
  | .operation operands ty =>
    seq (execAll operands) <| ask (decision choose) fun fails =>
      if fails = 0 then stop .trapped else complete ty .carriedOut
  | .logic lhs rhs =>
    seq (exec lhs) <| ask (decision choose) fun decides =>
      if decides = 0 then complete .bool .plain else seq (exec rhs) (complete .bool .plain)
  | .call name args ty => seq (execAll args) (callee name ty)
  | .panicWith message => seq (exec message) (stop .trapped)
  | .block statements value =>
    seq (execAll statements) (seq (exec value) (complete value.ty .plain))
  | .branch cond thenValue elseValue ty =>
    seq (exec cond) <| ask (decision choose) fun test =>
      if test = 0 then seq (exec elseValue) (complete ty .plain)
      else seq (exec thenValue) (complete ty .plain)
  | .branchOnly cond thenValue =>
    seq (exec cond) <| ask (decision choose) fun test =>
      if test = 0 then complete .unit .plain
      else seq (exec thenValue) (complete .unit .plain)
  | .loop cond body =>
    seq (rounds (seq (exec cond) (ask (decision choose) fun test =>
        if test = 0 then stop .broke else exec body)) .spent afterLoopBody limit)
      (complete .unit .plain)
  | .infiniteLoop body =>
    seq (rounds (exec body) .spent afterLoopBody limit) (complete .never .leftByBreak)
  | .matchOn scrutinee arms ty =>
    seq (exec scrutinee) <| ask (decision choose) fun arm =>
      seq (execArm arms arm) (complete ty .plain)
  | .breakLoop => stop .broke
  | .continueLoop => stop .continued
  | .ret value => seq (exec value) (stop (.returned value.ty))
  | .retUnit => stop (.returned .unit)

def execAll : List Air → Action
  | [] => skip
  | air :: airs => seq (exec air) (execAll airs)

def execArm : List Air → Nat → Action
  | [], _ => stop .trapped
  | arm :: arms, index => if index = 0 then exec arm else execArm arms (index - 1)

end

end Execution

section Runs

variable (program : Program) (choose : Nat → Nat)

def afterBody (bodyType ty : Ty) : EventRuns.Outcome Exit → Action
  | .done => complete ty (.reachedEnd bodyType)
  | .exit (.returned returned) => complete ty (.returned returned)
  | .exit .broke | .exit .continued => stop .trapped
  | .exit reason => stop reason

def callFunction : Nat → String → Ty → Action
  | 0, _, _ => stop .spent
  | limit + 1, name, ty =>
    match program.functions name with
    | none => stop .trapped
    | some function =>
      match function.body with
      | none => ask (decision choose) fun returns =>
        if returns = 0 then stop .trapped else complete ty .foreign
      | some body =>
        match analyzeFunction program function.returnType body with
        | .error _ => stop .trapped
        | .ok air =>
          resume (exec choose (callFunction limit) limit air) (afterBody air.ty ty)

def completions (limit : Nat) (name : String) (ty : Ty) : List Completion :=
  (callFunction program choose limit name ty ⟨[], 0⟩).events

end Runs

def Program.Accepted (program : Program) : Prop :=
  ∀ name function body, program.functions name = some function → function.body = some body →
    ∃ air, analyzeFunction program function.returnType body = .ok air

end Gruel.Never
