import Gruel.Types
import Gruel.Lib.UndoLog

/-!
Names in a function body: the tables that the two passes over it keep, the
lookups they make at an occurrence, and the walks of the analysis and of the
constraint generation through the scopes of the body.
-/

namespace Gruel.Names

open UndoLog

inductive BindingKind
  | param
  | local
  | typeVar
  | valueVar
  deriving DecidableEq, Repr

/-- A binding of a name. Those of one kind are told apart by the instruction that introduces
them. -/
structure Binding where
  name : String
  kind : BindingKind
  id : Nat
  deriving DecidableEq, Repr

def Binding.isVariable (binding : Binding) : Bool := binding.kind = .param ∨ binding.kind = .local

structure Binder where
  name : String
  id : Nat
  deriving DecidableEq, Repr

def Binder.as (kind : BindingKind) (binder : Binder) : Binding := ⟨binder.name, kind, binder.id⟩

inductive Use
  | read
  | fieldBase
  | indexBase
  | fieldTarget
  | indexTarget
  | iterable
  deriving DecidableEq, Repr

/-- Expressions by their scopes. A binding is a statement of its own; the init of one that is bound
to a type at compile time is marked so. -/
inductive Expr
  | varRef (use : Use) (name : String)
  | assign (name : String) (value : Expr)
  | call (callee : String) (args : List Expr)
  | alloc (binders : List Binder) (init : Expr)
  | allocType (binder : Binder) (init : Expr)
  | finalize (handle : String)
  | block (statements : List Expr)
  /-- A branch or the body of a loop. -/
  | scoped (body : Expr)
  | forLoop (binder : Binder) (iterable body : Expr)
  | arm (binders : List Binder) (body : Expr)
  /-- A body or an arm that is analyzed once for each of the elements of a compile-time array. -/
  | unrolled (binder : Binder) (elements : Nat) (body : Expr)
  | unrolledArm (binder : Binder) (elements : Nat) (body : Expr)
  /-- A part that is only evaluated at compile time, or a branch that is not taken then. -/
  | skipped (part : Expr)
  | parts (exprs : List Expr)

namespace Expr

def branch (cond thenBlock elseBlock : Expr) : Expr :=
  .parts [cond, .scoped thenBlock, .scoped elseBlock]

def comptimeBranch (cond thenBlock elseBlock : Expr) (taken : Bool) : Expr :=
  .parts [.skipped cond, if taken then .scoped thenBlock else .skipped thenBlock,
    if taken then .skipped elseBlock else .scoped elseBlock]

def whileLoop (cond body : Expr) : Expr := .parts [cond, .scoped body]

def infiniteLoop (body : Expr) : Expr := .scoped body

def comptimeUnrollFor (binder : Binder) (iterable : Expr) (elements : Nat) (body : Expr) : Expr :=
  .parts [.skipped iterable, .unrolled binder elements body]

def matchOn (scrutinee : Expr) (arms : List Expr) : Expr := .parts (scrutinee :: arms)

/-- `let h = @uninit(T)`, whose argument is evaluated at compile time. -/
def uninit (handle : Binder) : Expr := .alloc [handle] (.parts [])

def introduced : Expr → List Binding
  | .alloc binders _ => binders.reverse.map (·.as .local)
  | .allocType binder _ => [binder.as .typeVar]
  | _ => []

end Expr

abbrev Env := List Binding

def Env.innermost (env : Env) (name : String) : Option Binding :=
  env.find? fun binding => binding.name = name

def Env.innermostVariable (env : Env) (name : String) : Option Binding :=
  (env.innermost name).filter Binding.isVariable

inductive Lookup
  | analyzeVarRef
  | tryTracePlace
  | analyzeAssign
  | peekInstType
  | callSugar
  | generate
  deriving DecidableEq, Repr

structure Tables where
  params : String → Option Nat
  locals : String → Option Nat
  comptimeTypeVars : String → Option Nat
  comptimeValueVars : String → Option Nat
  functions : String → Bool

namespace Tables

variable (tables : Tables) (name : String)

def param : Option Binding := (tables.params name).map fun id => ⟨name, .param, id⟩

def local_ : Option Binding := (tables.locals name).map fun id => ⟨name, .local, id⟩

def typeVar : Option Binding := (tables.comptimeTypeVars name).map fun id => ⟨name, .typeVar, id⟩

def valueVar : Option Binding := (tables.comptimeValueVars name).map fun id => ⟨name, .valueVar, id⟩

def analyzeVarRef : Option Binding := (tables.param name).or <| (tables.local_ name).or <|
    (tables.typeVar name).or (tables.valueVar name)

def tryTracePlace : Option Binding := (tables.param name).or (tables.local_ name)

def analyzeAssign : Option Binding := (tables.param name).or (tables.local_ name)

def peekInstType : Option Binding := (tables.local_ name).or (tables.param name)

def callSugar : Option Binding :=
  if tables.functions name then none else (tables.local_ name).or (tables.param name)

end Tables

structure Resolution where
  lookup : Lookup
  name : String
  found : Option Binding
  meant : Option Binding
  deriving DecidableEq, Repr

section Occurrences

variable (tables : Tables) (env : Env)

def placeResolution (name : String) : Resolution :=
  ⟨.tryTracePlace, name, tables.tryTracePlace name, env.innermostVariable name⟩

def peekResolution (name : String) : Resolution :=
  ⟨.peekInstType, name, tables.peekInstType name, env.innermostVariable name⟩

def varRefResolution (name : String) : Resolution :=
  ⟨.analyzeVarRef, name, tables.analyzeVarRef name, env.innermost name⟩

def baseResolutions (name : String) : List Resolution :=
  if (tables.tryTracePlace name).isSome then [placeResolution tables env name]
  else [placeResolution tables env name, varRefResolution tables env name]

def varRefResolutions (use : Use) (name : String) : List Resolution := match use with
  | .read => [varRefResolution tables env name]
  | .fieldBase => baseResolutions tables env name
  | .indexBase => peekResolution tables env name :: baseResolutions tables env name
  | .fieldTarget => [placeResolution tables env name]
  | .indexTarget => [peekResolution tables env name, placeResolution tables env name]
  | .iterable => [peekResolution tables env name, varRefResolution tables env name]

def assignResolution (name : String) : Resolution :=
  ⟨.analyzeAssign, name, tables.analyzeAssign name, env.innermostVariable name⟩

def calleeResolution (name : String) : Resolution :=
  ⟨.callSugar, name, tables.callSugar name, env.innermostVariable name⟩

end Occurrences

def firstNamed (binders : List Binder) (name : String) : Option Nat :=
  (binders.find? fun binder => binder.name = name).map Binder.id

structure AnalysisContext where
  params : List Binder
  functions : String → Bool
  locals : Table String Nat
  comptimeTypeVars : String → Option Nat
  comptimeValueVars : String → Option Nat

namespace AnalysisContext

variable (ctx : AnalysisContext)

def tables : Tables where
  params := firstNamed ctx.params
  locals := ctx.locals.entries
  comptimeTypeVars := ctx.comptimeTypeVars
  comptimeValueVars := ctx.comptimeValueVars
  functions := ctx.functions

def pushScope : AnalysisContext := { ctx with locals := ctx.locals.push }

def popScope : AnalysisContext := { ctx with locals := ctx.locals.pop }

def insertLocal (binder : Binder) : AnalysisContext :=
  { ctx with locals := ctx.locals.insert binder.name binder.id }

def insertLocals (binders : List Binder) : AnalysisContext := binders.foldl insertLocal ctx

def removeLocal (name : String) : AnalysisContext := { ctx with locals := ctx.locals.set name none }

def insertType (binder : Binder) : AnalysisContext := { ctx with
    comptimeTypeVars := Function.update ctx.comptimeTypeVars binder.name (some binder.id) }

def setValue (name : String) (value : Option Nat) : AnalysisContext :=
  { ctx with comptimeValueVars := Function.update ctx.comptimeValueVars name value }

end AnalysisContext

abbrev Pass (Context : Type) := Context → Context × List Resolution

namespace Pass

variable {Context : Type}

def change (f : Context → Context) : Pass Context := fun ctx => (f ctx, [])

def andThen (first second : Pass Context) : Pass Context := fun ctx =>
  let (middle, early) := first ctx
  let (after, late) := second middle
  (after, early ++ late)

def repeated (pass : Pass Context) : Nat → Pass Context
  | 0 => change id
  | times + 1 => pass.andThen (repeated pass times)

end Pass

def withValue (binder : Binder) (pass : Pass AnalysisContext) : Pass AnalysisContext := fun ctx =>
  let previous := ctx.comptimeValueVars binder.name
  let (after, resolutions) := pass (ctx.setValue binder.name (some binder.id))
  (after.setValue binder.name previous, resolutions)

def withScope (pass : Pass AnalysisContext) : Pass AnalysisContext :=
  (Pass.change (·.pushScope)).andThen (pass.andThen (Pass.change (·.popScope)))

mutual

def analyzeInst (env : Env) : Expr → Pass AnalysisContext
  | .varRef use name => fun ctx => (ctx, varRefResolutions ctx.tables env use name)
  | .assign name value =>
    Pass.andThen (fun ctx => (ctx, [assignResolution ctx.tables env name])) (analyzeInst env value)
  | .call callee args =>
    Pass.andThen (fun ctx => (ctx, [calleeResolution ctx.tables env callee])) (analyzeInsts env args)
  | .alloc binders init => (analyzeInst env init).andThen (Pass.change (·.insertLocals binders))
  | .allocType binder init => (analyzeInst env init).andThen (Pass.change (·.insertType binder))
  | .finalize handle => Pass.change (·.removeLocal handle)
  | .block statements => withScope (analyzeInsts env statements)
  | .scoped body => withScope (analyzeInst env body)
  | .forLoop binder iterable body =>
    (analyzeInst env iterable).andThen <| withScope <| withScope <|
      (Pass.change (·.insertLocal binder)).andThen (analyzeInst (binder.as .local :: env) body)
  | .arm binders body =>
    withScope <| (Pass.change (·.insertLocals binders)).andThen
      (analyzeInst (binders.reverse.map (·.as .local) ++ env) body)
  | .unrolled binder elements body =>
    Pass.repeated (withValue binder (analyzeInst (binder.as .valueVar :: env) body)) elements
  | .unrolledArm binder elements body =>
    Pass.repeated (withScope (withValue binder (analyzeInst (binder.as .valueVar :: env) body))) elements
  | .skipped _ => Pass.change id
  | .parts exprs => analyzeInsts env exprs

def analyzeInsts (env : Env) : List Expr → Pass AnalysisContext
  | [] => Pass.change id
  | expr :: exprs =>
    (analyzeInst env expr).andThen (analyzeInsts (expr.introduced ++ env) exprs)

end

structure ConstraintContext where
  params : String → Option Binding
  locals : Table String Binding

namespace ConstraintContext

variable (ctx : ConstraintContext)

def generateVarRef (name : String) : Option Binding :=
  (ctx.locals.entries name).or (ctx.params name)

def pushScope : ConstraintContext := { ctx with locals := ctx.locals.push }

def popScope : ConstraintContext := { ctx with locals := ctx.locals.pop }

def insertLocal (binding : Binding) : ConstraintContext :=
  { ctx with locals := ctx.locals.insert binding.name binding }

def insertLocals (bindings : List Binding) : ConstraintContext := bindings.foldl insertLocal ctx

end ConstraintContext

def generateResolution (ctx : ConstraintContext) (env : Env) (name : String) : Resolution :=
  ⟨.generate, name, ctx.generateVarRef name, env.innermost name⟩

def withBindings (bindings : List Binding) (pass : Pass ConstraintContext) : Pass ConstraintContext := fun ctx =>
  let (bound, olds) := ctx.locals.swapIn (bindings.map fun binding => (binding.name, binding))
  let (after, resolutions) := pass { ctx with locals := bound }
  ({ after with locals := after.locals.putBack olds }, resolutions)

mutual

def generate (env : Env) : Expr → Pass ConstraintContext
  | .varRef _ name => fun ctx => (ctx, [generateResolution ctx env name])
  | .assign name value =>
    (generate env value).andThen fun ctx => (ctx, [generateResolution ctx env name])
  | .call _ args => generateAll env args
  | .alloc binders init =>
    (generate env init).andThen (Pass.change (·.insertLocals (binders.map (·.as .local))))
  | .allocType binder init =>
    (generate env init).andThen (Pass.change (·.insertLocal (binder.as .typeVar)))
  | .finalize handle => fun ctx => (ctx, [generateResolution ctx env handle])
  | .block statements =>
    (Pass.change (·.pushScope)).andThen ((generateAll env statements).andThen (Pass.change (·.popScope)))
  | .scoped body => generate env body
  | .forLoop binder iterable body =>
    (generate env iterable).andThen <| (Pass.change (·.insertLocal (binder.as .local))).andThen <|
        generate (binder.as .local :: env) body
  | .arm binders body =>
    withBindings (binders.map (·.as .local)) (generate (binders.reverse.map (·.as .local) ++ env) body)
  | .unrolled binder _ body =>
    (Pass.change (·.insertLocal (binder.as .valueVar))).andThen (generate (binder.as .valueVar :: env) body)
  | .unrolledArm binder _ body => generate (binder.as .valueVar :: env) body
  | .skipped part => generate env part
  | .parts exprs => generateAll env exprs

def generateAll (env : Env) : List Expr → Pass ConstraintContext
  | [] => Pass.change id
  | expr :: exprs => (generate env expr).andThen (generateAll (expr.introduced ++ env) exprs)

end

structure Function where
  params : List Binder
  capturedTypes : List Binder
  capturedValues : List Binder
  /-- The functions that can be called by their names. -/
  functions : String → Bool
  body : Expr

namespace Function

variable (f : Function)

def env : Env := f.params.reverse.map (·.as .param) ++
    (f.capturedTypes.map (·.as .typeVar) ++ f.capturedValues.map (·.as .valueVar))

def analysisContext : AnalysisContext where
  params := f.params
  functions := f.functions
  locals := .empty
  comptimeTypeVars := firstNamed f.capturedTypes
  comptimeValueVars := firstNamed f.capturedValues

def generateParams (name : String) : Option Binding := Env.innermost
    (f.capturedValues.map (·.as .valueVar) ++ f.params.reverse.map (·.as .param)) name

def constraintContext : ConstraintContext := ⟨f.generateParams, .empty⟩

def resolutions : List Resolution :=
  (generate f.env f.body f.constraintContext).2 ++ (analyzeInst f.env f.body f.analysisContext).2

end Function

end Gruel.Names
