import Gruel.ComptimeValueCore
import Gruel.Lib.Ensures

/-!
The comptime heap over a whole analysis.  Bodies are analyzed one after another or one
inside another; what their analysis evaluates shares one heap, which `comptime` blocks
clear, while comptime variables, the arms of unrolled matches and the captures of anonymous
types hold on to values.
-/

namespace Gruel

namespace ComptimeHeap

open Comptime Ensuring

structure Held where
  value : ConstValue
  cell : Option Nat := none

/-- The heap, and the captured values of the anonymous types.  Every cell of the heap is
marked with its number among all cells that were ever made. -/
structure Sema where
  comptimeHeap : List (HeapItem ConstValue) := []
  cells : List Nat := []
  made : Nat := 0
  capturedValues : List (Nat × List (Name × Held)) := []

def Sema.hold (sema : Sema) (value : ConstValue) : Held where
  value
  cell := value.heapIdx.bind fun heapIdx => sema.cells[heapIdx]?

def Sema.clear (sema : Sema) : Sema := { sema with comptimeHeap := [], cells := [] }

def Sema.regrown (sema : Sema) (heap : List (HeapItem ConstValue)) : Sema :=
  let more := heap.length - sema.comptimeHeap.length
  { sema with
    comptimeHeap := heap
    cells := sema.cells ++ List.range' sema.made more
    made := sema.made + more }

/-- A binding in force for the body of a loop or an arm: what its name held before, and the
elements that are still to come. -/
structure Binding where
  name : Name
  previous : Option Held
  remaining : List Held := []

structure AnalysisContext where
  comptimeValueVars : List (Name × Held) := []
  unrollArmBindings : List (Nat × Name × Held) := []
  bindings : List Binding := []

structure Analysis where
  sema : Sema := {}
  contexts : List AnalysisContext := []

def insertVar (name : Name) (held : Held) (vars : List (Name × Held)) : List (Name × Held) :=
  (name, held) :: vars.filter fun entry => entry.1 != name

def restoreVar (name : Name) (previous : Option Held) (vars : List (Name × Held)) : List (Name × Held) :=
  match previous with
  | some held => insertVar name held vars
  | none => vars.filter fun entry => entry.1 != name

namespace AnalysisContext

def locals (ctx : AnalysisContext) : List (Name × ConstValue) :=
  ctx.comptimeValueVars.map fun entry => (entry.1, entry.2.value)

def previous (ctx : AnalysisContext) (name : Name) : Option Held :=
  (ctx.comptimeValueVars.find? fun entry => entry.1 == name).map Prod.snd

def bindVar (ctx : AnalysisContext) (name : Name) (held : Held) (remaining : List Held) : AnalysisContext :=
  { ctx with
    comptimeValueVars := insertVar name held ctx.comptimeValueVars
    bindings := ⟨name, ctx.previous name, remaining⟩ :: ctx.bindings }

end AnalysisContext

def SameKind : HeapItem ConstValue → HeapItem ConstValue → Prop
  | .struct structId _, .struct otherId _ => structId = otherId
  | .array elems, .array others => elems.length = others.length
  | .enumData _, .enumData _ => True
  | .enumStruct _, .enumStruct _ => True
  | .string text, .string other => text = other
  | _, _ => False

/-- `evaluate_comptime_inst` on a heap, with these variables.  It returns, or it fails and
leaves the cells it has made. -/
inductive Evaluates (program : Program) (start : Interp) (expr : Expr)
    (locals : List (Name × ConstValue)) (sema : Sema) : Option ConstValue → Sema → Prop
  | returns {fuel : Nat} {value : ConstValue} {after : Interp} (returned : evaluateComptimeInst program fuel expr
        { start with scope := ⟨locals, sema.comptimeHeap⟩ } = .ok (value, after)) :
      Evaluates program start expr locals sema (some value) (sema.regrown after.scope.heap)
  | fails {fuel : Nat} {err : CompileError} {left : List (HeapItem ConstValue)}
      (failed : evaluateComptimeInst program fuel expr
        { start with scope := ⟨locals, sema.comptimeHeap⟩ } = .error err)
      (kept : Kept SameKind sema.comptimeHeap left) :
      Evaluates program start expr locals sema none (sema.regrown left)

def goesOn (result : Option ConstValue) (contexts : List AnalysisContext) : List AnalysisContext :=
  match result with
  | some (.data _) => contexts
  | _ => contexts.tail

def elementsOf (sema : Sema) : Option ConstValue → Option (List ConstValue)
  | some (.data (.array heapIdx)) =>
    match sema.comptimeHeap[heapIdx]? with
    | some (.array elems) => some elems
    | _ => none
  | _ => none

def bindArms (name : Name) (elements : List Held) (index : Nat)
    (arms : List (Nat × Name × Held)) : List (Nat × Name × Held) :=
  (elements.zipIdx index).map (fun (held, arm) => (arm, name, held)) ++
    arms.filter fun entry => entry.1 < index ∨ index + elements.length ≤ entry.1

inductive Step (program : Program) : Bool → Analysis → Analysis → Prop
  -- A function body, or an instance of one for these value arguments.
  | enterFunction (sema : Sema) (contexts : List AnalysisContext) (values : List (Name × ConstValue)) :
      Step program false ⟨sema, contexts⟩
        ⟨sema, { comptimeValueVars := values.map fun entry => (entry.1, sema.hold entry.2) } :: contexts⟩
  -- A method of an anonymous type.
  | enterMethod (sema : Sema) (contexts : List AnalysisContext) {typeId : Nat}
      {captured : List (Name × Held)} (stored : (typeId, captured) ∈ sema.capturedValues) :
      Step program false ⟨sema, contexts⟩ ⟨sema, { comptimeValueVars := captured } :: contexts⟩
  | leaveBody (sema : Sema) (ctx : AnalysisContext) (contexts : List AnalysisContext) :
      Step program false ⟨sema, ctx :: contexts⟩ ⟨sema, contexts⟩
  -- `evaluate_comptime_block`
  | comptimeBlock {sema after : Sema} {ctx : AnalysisContext} {contexts : List AnalysisContext}
      {start : Interp} {expr : Expr} {result : Option ConstValue}
      (evaluates : Evaluates program start expr ctx.locals sema.clear result after) :
      Step program true ⟨sema, ctx :: contexts⟩ ⟨after, goesOn result (ctx :: contexts)⟩
  -- `evaluate_comptime_expr`, and `evaluate_type_ctor_body` with its value arguments.
  | comptimeExpr {sema after : Sema} {ctx : AnalysisContext} {contexts : List AnalysisContext}
      {start : Interp} {expr : Expr} {values : List (Name × ConstValue)}
      {result : Option ConstValue}
      (evaluates : Evaluates program start expr (values ++ ctx.locals) sema result after) :
      Step program false ⟨sema, ctx :: contexts⟩ ⟨after, goesOn result (ctx :: contexts)⟩
  -- A new anonymous type captures the value arguments of its constructor.
  | capture (sema : Sema) (contexts : List AnalysisContext) (typeId : Nat) (values : List (Name × ConstValue)) :
      Step program false ⟨sema, contexts⟩ ⟨{ sema with
            capturedValues := (typeId, values.map fun entry => (entry.1, sema.hold entry.2)) :: sema.capturedValues },
          contexts⟩
  -- `comptime_unroll for`, whose iterable does not clear the heap.
  | unrollFor {sema after : Sema} {ctx : AnalysisContext} {contexts : List AnalysisContext}
      {start : Interp} {name : Name} {iterable : Expr} {result : Option ConstValue}
      {element : ConstValue} {elements : List ConstValue}
      (evaluates : Evaluates program start iterable ctx.locals sema result after)
      (array : elementsOf after result = some (element :: elements)) :
      Step program false ⟨sema, ctx :: contexts⟩
        ⟨after, ctx.bindVar name (after.hold element) (elements.map after.hold) :: contexts⟩
  | nextIteration (sema : Sema) (vars : List (Name × Held)) (arms : List (Nat × Name × Held))
      (name : Name) (previous : Option Held) (held : Held) (remaining : List Held)
      (bindings : List Binding) (contexts : List AnalysisContext) :
      Step program false ⟨sema, ⟨vars, arms, ⟨name, previous, held :: remaining⟩ :: bindings⟩ :: contexts⟩
        ⟨sema, ⟨insertVar name held (restoreVar name previous vars), arms,
          ⟨name, previous, remaining⟩ :: bindings⟩ :: contexts⟩
  | endBinding (sema : Sema) (vars : List (Name × Held)) (arms : List (Nat × Name × Held))
      (name : Name) (previous : Option Held) (bindings : List Binding)
      (contexts : List AnalysisContext) :
      Step program false ⟨sema, ⟨vars, arms, ⟨name, previous, []⟩ :: bindings⟩ :: contexts⟩
        ⟨sema, ⟨restoreVar name previous vars, arms, bindings⟩ :: contexts⟩
  -- An unrolled arm, whose iterable is evaluated as a block.
  | expandArm {sema after : Sema} {ctx : AnalysisContext} {contexts : List AnalysisContext}
      {start : Interp} {name : Name} {iterable : Expr} {result : Option ConstValue}
      {elements : List ConstValue} {index : Nat}
      (evaluates : Evaluates program start iterable ctx.locals sema.clear result after)
      (array : elementsOf after result = some elements) :
      Step program true ⟨sema, ctx :: contexts⟩ ⟨after, { ctx with
            unrollArmBindings :=
              bindArms name (elements.map after.hold) index ctx.unrollArmBindings } :: contexts⟩
  | enterArm (sema : Sema) {ctx : AnalysisContext} (contexts : List AnalysisContext) {index : Nat}
      {name : Name} {held : Held} (bound : (index, name, held) ∈ ctx.unrollArmBindings) :
      Step program false ⟨sema, ctx :: contexts⟩ ⟨sema, ctx.bindVar name held [] :: contexts⟩

/-- The analysis from its start: the states it went through, the last first, and for each
whether the step from it cleared the heap. -/
inductive Run (program : Program) : List (Analysis × Bool) → Analysis → Prop
  | start : Run program [] {}
  | step {history : List (Analysis × Bool)} {before after : Analysis} {clears : Bool}
      (ran : Run program history before) (next : Step program clears before after) :
      Run program ((before, clears) :: history) after

def Binding.held (binding : Binding) : List Held := binding.previous.toList ++ binding.remaining

def AnalysisContext.held (ctx : AnalysisContext) : List Held :=
  ctx.comptimeValueVars.map Prod.snd ++ ctx.unrollArmBindings.map (fun entry => entry.2.2) ++
    ctx.bindings.flatMap Binding.held

def Sema.held (sema : Sema) : List Held :=
  sema.capturedValues.flatMap fun entry => entry.2.map Prod.snd

def Analysis.held (analysis : Analysis) : List Held :=
  analysis.sema.held ++ analysis.contexts.flatMap AnalysisContext.held

def Denotes (cells : List Nat) (held : Held) : Prop :=
  ∀ heapIdx cell, held.value.heapIdx = some heapIdx → held.cell = some cell → cells[heapIdx]? = some cell

end ComptimeHeap

end Gruel
