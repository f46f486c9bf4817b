import Gruel.Source
import Gruel.Lib.UndoLog

/-!
The contexts that track variables by scope: the locals map with its undo log, and the move
states that the analysis keeps by name beside it.
-/

namespace Gruel.Scopes

inductive ScopeCall (Action : Type)
  | pushScope
  | act (action : Action)
  | popScope

/-- Sequences in which every `pop_scope` ends a scope of the sequence, and every scope ends. -/
inductive Matched {Action : Type} : List (ScopeCall Action) → Prop
  | nil : Matched []
  | act {action : Action} {calls : List (ScopeCall Action)} : Matched calls → Matched (.act action :: calls)
  | scope {body calls : List (ScopeCall Action)} :
      Matched body → Matched calls → Matched (.pushScope :: (body ++ .popScope :: calls))

/-- The locals map, with the entries of the scope stack as its logs. -/
abbrev ScopedContext (VarInfo : Type) := UndoLog.Table Spur VarInfo

structure Insertion (VarInfo : Type) where
  symbol : Spur
  var : VarInfo

section ScopedContexts

variable {VarInfo : Type}

def pushScope (ctx : ScopedContext VarInfo) : ScopedContext VarInfo := ctx.push

def popScope (ctx : ScopedContext VarInfo) : ScopedContext VarInfo := ctx.pop

def insertLocal (ctx : ScopedContext VarInfo) (symbol : Spur) (var : VarInfo) : ScopedContext VarInfo :=
  ctx.insert symbol var

def perform (ctx : ScopedContext VarInfo) : ScopeCall (Insertion VarInfo) → ScopedContext VarInfo
  | .pushScope => pushScope ctx
  | .act insertion => insertLocal ctx insertion.symbol insertion.var
  | .popScope => popScope ctx

def performAll (ctx : ScopedContext VarInfo) (calls : List (ScopeCall (Insertion VarInfo))) : ScopedContext VarInfo :=
  calls.foldl perform ctx

end ScopedContexts

abbrev FieldPath := List Spur

structure VariableMoveState where
  fullMove : Option Span := none
  partialMoves : FieldPath → Option Span := fun _ => none

def VariableMoveState.markPathMoved (state : VariableMoveState) (path : FieldPath) (span : Span) :
    VariableMoveState :=
  if path = [] then { fullMove := some span }
  else if state.fullMove = none then
    { state with partialMoves := Function.update state.partialMoves path (some span) }
  else state

structure AnalysisContext (LocalVar : Type) where
  bindings : ScopedContext LocalVar
  params : List Spur
  movedVars : Spur → Option VariableMoveState

inductive AnalysisAction (LocalVar : Type)
  | insertLocal (symbol : Spur) (var : LocalVar)
  | markPathMoved (symbol : Spur) (path : FieldPath) (span : Span)

/-- `entry(symbol).or_default().mark_path_moved(path, span)`. -/
def marked (path : FieldPath) (span : Span) (state : Option VariableMoveState) : Option VariableMoveState :=
  some ((state.getD {}).markPathMoved path span)

namespace AnalysisContext

variable {LocalVar : Type}

def insertLocal (ctx : AnalysisContext LocalVar) (symbol : Spur) (var : LocalVar) : AnalysisContext LocalVar :=
  { ctx with
    bindings := Scopes.insertLocal ctx.bindings symbol var
    movedVars := Function.update ctx.movedVars symbol none }

def markPathMoved (ctx : AnalysisContext LocalVar) (symbol : Spur) (path : FieldPath)
    (span : Span) : AnalysisContext LocalVar :=
  { ctx with
    movedVars := Function.update ctx.movedVars symbol (marked path span (ctx.movedVars symbol)) }

def perform (ctx : AnalysisContext LocalVar) : ScopeCall (AnalysisAction LocalVar) → AnalysisContext LocalVar
  | .pushScope => { ctx with bindings := pushScope ctx.bindings }
  | .act (.insertLocal symbol var) => ctx.insertLocal symbol var
  | .act (.markPathMoved symbol path span) => ctx.markPathMoved symbol path span
  | .popScope => { ctx with bindings := popScope ctx.bindings }

def performAll (ctx : AnalysisContext LocalVar)
    (calls : List (ScopeCall (AnalysisAction LocalVar))) : AnalysisContext LocalVar :=
  calls.foldl perform ctx

end AnalysisContext

end Gruel.Scopes
