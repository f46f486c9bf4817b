import Gruel.Scopes

/-!
Move states are kept by name.  They are compared here with bindings that carry their own: what
is found under a name after a scope is the state of the outer binding exactly when the last
binding of the name inside ended in the same state.
-/

namespace Gruel.Scopes

attribute [local simp] AnalysisContext.perform AnalysisContext.insertLocal
  AnalysisContext.markPathMoved

variable {LocalVar : Type}
variable {symbol : Spur} {calls : List (ScopeCall (AnalysisAction LocalVar))}
variable {last : Option (Option VariableMoveState)} {state : Option VariableMoveState}
  {body : List (ScopeCall (AnalysisAction LocalVar))}

abbrev Frame := Spur → Option (Option VariableMoveState)

def markInnermost (symbol : Spur) (path : FieldPath) (span : Span) : List Frame → List Frame
  | [] => []
  | frame :: frames =>
    match frame symbol with
    | some state => Function.update frame symbol (some (marked path span state)) :: frames
    | none => frame :: markInnermost symbol path span frames

def declare (symbol : Spur) : List Frame → List Frame
  | [] => []
  | frame :: frames => Function.update frame symbol (some none) :: frames

def lexical (frames : List Frame) : ScopeCall (AnalysisAction LocalVar) → List Frame
  | .pushScope => (fun _ => none) :: frames
  | .act (.insertLocal symbol _) => declare symbol frames
  | .act (.markPathMoved symbol path span) => markInnermost symbol path span frames
  | .popScope => frames.tail

def lexicalAll (frames : List Frame) (calls : List (ScopeCall (AnalysisAction LocalVar))) : List Frame :=
  calls.foldl lexical frames

def innermost (symbol : Spur) (frames : List Frame) : Option (Option VariableMoveState) :=
  frames.findSome? fun frame => frame symbol

def AnalysisContext.outer (ctx : AnalysisContext LocalVar) : Frame := fun symbol =>
  if symbol ∈ ctx.params ∨ (ctx.bindings.entries symbol).isSome then some (ctx.movedVars symbol)
  else none

def scopeOf (body : List (ScopeCall (AnalysisAction LocalVar))) : List (ScopeCall (AnalysisAction LocalVar)) :=
  .pushScope :: (body ++ [.popScope])

/-- After every scope, each name that was bound before it is found with the move state of that
outer binding. -/
def MovesBelongToBindings (ctx : AnalysisContext LocalVar)
    (calls : List (ScopeCall (AnalysisAction LocalVar))) : Prop :=
  ∀ before body, IsScope calls before body → ∀ symbol state,
    innermost symbol (lexicalAll [(ctx.performAll before).outer] (scopeOf body)) = some state →
      ((ctx.performAll before).performAll (scopeOf body)).movedVars symbol = state

def lastStep (symbol : Spur) (last : Option (Option VariableMoveState)) :
    ScopeCall (AnalysisAction LocalVar) → Option (Option VariableMoveState)
  | .act (.insertLocal name _) => if name = symbol then some none else last
  | .act (.markPathMoved name path span) =>
    if name = symbol then last.map (marked path span) else last
  | _ => last

def movesOfLast (symbol : Spur) (calls : List (ScopeCall (AnalysisAction LocalVar))) :
    Option (Option VariableMoveState) :=
  calls.foldl (lastStep symbol) none

/-- The last binding of a name in a scope, or in a scope inside it, ends with the move state of
the outer binding of the name, if there is one. -/
def ShadowsEndAlike (ctx : AnalysisContext LocalVar) (calls : List (ScopeCall (AnalysisAction LocalVar))) : Prop :=
  ∀ before body, IsScope calls before body → ∀ symbol last state, movesOfLast symbol body = some last →
      innermost symbol (lexicalAll [(ctx.performAll before).outer] (scopeOf body)) = some state → last = state

def moveStep (symbol : Spur) (state : Option VariableMoveState) :
    ScopeCall (AnalysisAction LocalVar) → Option VariableMoveState
  | .act (.insertLocal name _) => if name = symbol then none else state
  | .act (.markPathMoved name path span) => if name = symbol then marked path span state else state
  | _ => state

attribute [local simp] moveStep

theorem movedVars_perform (ctx : AnalysisContext LocalVar)
    (call : ScopeCall (AnalysisAction LocalVar)) (symbol : Spur) :
    (ctx.perform call).movedVars symbol = moveStep symbol (ctx.movedVars symbol) call := by
  cases call with
  | pushScope => rfl
  | popScope => rfl
  | act action =>
    cases action with
    | insertLocal name var | markPathMoved name path span =>
      by_cases same : name = symbol
      · subst same
        simp
      · simp [same, Function.update_of_ne (Ne.symm same)]

theorem movedVars_performAll (ctx : AnalysisContext LocalVar)
    (calls : List (ScopeCall (AnalysisAction LocalVar))) (symbol : Spur) :
    (ctx.performAll calls).movedVars symbol = calls.foldl (moveStep symbol) (ctx.movedVars symbol) := by
  induction calls generalizing ctx with
  | nil => rfl
  | cons call calls ih =>
    have rest := ih (ctx.perform call)
    rw [movedVars_perform] at rest
    exact rest

theorem moveStep_scopeOf (symbol : Spur) (state : Option VariableMoveState)
    (body : List (ScopeCall (AnalysisAction LocalVar))) :
    (scopeOf body).foldl (moveStep symbol) state = body.foldl (moveStep symbol) state := by
  rw [scopeOf, List.foldl_cons, List.foldl_append]
  rfl

theorem foldl_moveStep_of_last {final : Option VariableMoveState} (agree : ∀ known, last = some known → state = known)
    (ends : calls.foldl (lastStep symbol) last = some final) :
    calls.foldl (moveStep symbol) state = final := by
  induction calls generalizing last state with
  | nil => exact agree final ends
  | cons call calls ih =>
    refine ih ?_ ends
    intro known step
    cases call with
    | pushScope => exact agree known step
    | popScope => exact agree known step
    | act action =>
      cases action with
      | insertLocal name var =>
        by_cases same : name = symbol
        · simp only [lastStep, same, if_true, Option.some.injEq] at step
          simp [same, step]
        · simp only [lastStep, same, if_false] at step
          simpa [same] using agree known step
      | markPathMoved name path span =>
        by_cases same : name = symbol
        · simp only [lastStep, same, if_true, Option.map_eq_some_iff] at step
          obtain ⟨earlier, isLast, rfl⟩ := step
          simp [same, agree earlier isLast]
        · simp only [lastStep, same, if_false] at step
          simpa [same] using agree known step

theorem lastStep_isSome (known : last.isSome) : (calls.foldl (lastStep symbol) last).isSome := by
  induction calls generalizing last with
  | nil => exact known
  | cons call calls ih =>
    apply ih
    cases call with
    | pushScope => exact known
    | popScope => exact known
    | act action => cases action <;> simp [lastStep] <;> split <;> simp [known]

theorem not_inserted_of_movesOfLast (none : movesOfLast symbol calls = none) (var : LocalVar) :
    .act (.insertLocal symbol var) ∉ calls := by
  intro member
  obtain ⟨before, after, rfl⟩ := List.append_of_mem member
  have known : (movesOfLast symbol (before ++ .act (.insertLocal symbol var) :: after)).isSome := by
    rw [movesOfLast, List.foldl_append, List.foldl_cons]
    apply lastStep_isSome
    simp [lastStep]
  rw [none] at known
  cases known

def column (symbol : Spur) (frames : List Frame) : List (Option (Option VariableMoveState)) :=
  frames.map fun frame => frame symbol

def changeFirst {X : Type} (f : X → X) : List (Option X) → List (Option X)
  | [] => []
  | some held :: rest => some (f held) :: rest
  | none :: rest => none :: changeFirst f rest

attribute [local simp] changeFirst

theorem changeFirst_id {X : Type} (held : List (Option X)) : changeFirst (fun x => x) held = held := by
  induction held with
  | nil => rfl
  | cons first rest ih => cases first <;> simp [ih]

theorem changeFirst_changeFirst {X : Type} (f g : X → X) (held : List (Option X)) :
    changeFirst g (changeFirst f held) = changeFirst (fun x => g (f x)) held := by
  induction held with
  | nil => rfl
  | cons first rest ih => cases first <;> simp [ih]

theorem column_declare {name : Spur} (differs : name ≠ symbol) (frames : List Frame) :
    column symbol (declare name frames) = column symbol frames := by
  cases frames with
  | nil => rfl
  | cons frame frames => simp [column, declare, Function.update_of_ne (Ne.symm differs)]

attribute [local simp] markInnermost

theorem column_markInnermost (symbol name : Spur) (path : FieldPath) (span : Span) (frames : List Frame) :
    column symbol (markInnermost name path span frames) =
      if name = symbol then changeFirst (marked path span) (column symbol frames)
      else column symbol frames := by
  induction frames with
  | nil => simp [column]
  | cons frame frames ih =>
    simp only [column] at ih
    by_cases same : name = symbol
    · subst same
      cases held : frame name with
      | some state => simp [column, held]
      | none => simp [column, held, ih]
    · rw [if_neg same] at ih ⊢
      cases held : frame name with
      | some state => simp [column, held, Function.update_of_ne (Ne.symm same)]
      | none => simp [column, held, ih]

theorem column_lexicalAll (matched : Matched body)
    (absent : ∀ var, .act (.insertLocal symbol var) ∉ body) (frames : List Frame) :
    column symbol (lexicalAll frames body) =
      changeFirst (fun state => body.foldl (moveStep symbol) state) (column symbol frames) := by
  induction matched generalizing frames with
  | nil => exact (changeFirst_id _).symm
  | @act action calls matched ih =>
    have rest := ih (fun var member => absent var (.tail _ member)) (lexical frames (.act action))
    rw [lexicalAll, List.foldl_cons, ← lexicalAll, rest]
    cases action with
    | insertLocal name var =>
      have differs : name ≠ symbol := by
        rintro rfl
        exact absent var (List.mem_cons_self ..)
      simp [lexical, column_declare differs, differs]
    | markPathMoved name path span =>
      rw [lexical, column_markInnermost]
      by_cases same : name = symbol
      · simp [same, changeFirst_changeFirst]
      · simp [same]
  | @scope inner calls matchedInner matched innerIh ih =>
    have innerAbsent : ∀ var, .act (.insertLocal symbol var) ∉ inner := fun var member =>
      absent var (List.mem_cons_of_mem _ (List.mem_append_left _ member))
    have restAbsent : ∀ var, .act (.insertLocal symbol var) ∉ calls := fun var member =>
      absent var (List.mem_cons_of_mem _ (List.mem_append_right _ (.tail _ member)))
    have split : lexicalAll frames (.pushScope :: (inner ++ .popScope :: calls)) =
        lexicalAll (lexicalAll ((fun _ => none) :: frames) inner).tail calls := by
      simp [lexicalAll, lexical]
    have ended : column symbol (lexicalAll ((fun _ => none) :: frames) inner).tail =
        changeFirst (fun state => inner.foldl (moveStep symbol) state) (column symbol frames) := by
      rw [column, List.map_tail, ← column, innerIh innerAbsent]
      rfl
    rw [split, ih restAbsent, ended, changeFirst_changeFirst]
    congr 1
    funext state
    rw [List.foldl_cons, List.foldl_append]
    rfl

theorem innermost_eq (symbol : Spur) (frames : List Frame) :
    innermost symbol frames = (column symbol frames).findSome? id := by
  induction frames with
  | nil => rfl
  | cons frame frames ih =>
    simp only [innermost, column] at ih
    simp only [innermost, column, List.map_cons, List.findSome?_cons, id]
    rw [ih]

theorem found_of_not_inserted {ctx : AnalysisContext LocalVar} (matched : Matched body)
    (absent : ∀ var, .act (.insertLocal symbol var) ∉ body)
    (outer : innermost symbol (lexicalAll [ctx.outer] (scopeOf body)) = some state) :
    (ctx.performAll (scopeOf body)).movedVars symbol = state := by
  have scopeAbsent : ∀ var, .act (.insertLocal symbol var) ∉ scopeOf body := by
    intro var member
    simp only [scopeOf, List.mem_cons, List.mem_append, reduceCtorEq, List.not_mem_nil, or_false, false_or] at member
    exact absent var member
  have whole : Matched (scopeOf body) := .scope matched .nil
  rw [innermost_eq, column_lexicalAll whole scopeAbsent] at outer
  have bound : ctx.outer symbol = some (ctx.movedVars symbol) := by
    unfold AnalysisContext.outer at outer ⊢
    split
    · rfl
    · next unbound => simp [column, unbound] at outer
  simp only [column, List.map_cons, List.map_nil, bound, changeFirst, List.findSome?_cons, id,
    Option.some.injEq] at outer
  rw [movedVars_performAll, outer]

/-- After every scope of every sequence of calls, a name that was bound outside is found with the
move state of its outer binding exactly when no binding inside ended in another state. -/
theorem moves_belong_to_bindings_iff (ctx : AnalysisContext LocalVar)
    (calls : List (ScopeCall (AnalysisAction LocalVar))) :
    MovesBelongToBindings ctx calls ↔ ShadowsEndAlike ctx calls := by
  have found : ∀ (start : AnalysisContext LocalVar) body symbol last, movesOfLast symbol body = some last →
        (start.performAll (scopeOf body)).movedVars symbol = last := by
    intro start body symbol last ends
    rw [movedVars_performAll, moveStep_scopeOf]
    exact foldl_moveStep_of_last (by simp) ends
  constructor
  · intro belong before body scope symbol last state ends outer
    rw [← belong before body scope symbol state outer]
    exact (found _ body symbol last ends).symm
  · intro alike before body scope symbol state outer
    cases ends : movesOfLast symbol body with
    | some last =>
      rw [found _ body symbol last ends]
      exact alike before body scope symbol last state ends outer
    | none => exact found_of_not_inserted scope.1 (not_inserted_of_movesOfLast ends) outer

/-- `let x = s; consume(x); { let x = t; }`: the inner `let` makes the moved `x` look whole. -/
theorem shadowing_clears_move : ¬ MovesBelongToBindings
      (⟨UndoLog.Table.empty, [], fun _ => none⟩ : AnalysisContext Nat)
      [.act (.insertLocal 0 0), .act (.markPathMoved 0 [] (Span.new 0 1)), .pushScope,
        .act (.insertLocal 0 1), .popScope] := by
  intro belong
  have whole := belong [.act (.insertLocal 0 0), .act (.markPathMoved 0 [] (Span.new 0 1))]
    [.act (.insertLocal 0 1)] ⟨.act .nil, [], rfl⟩ 0 (some { fullMove := some (Span.new 0 1) })
    (by
      simp [innermost, lexicalAll, lexical, scopeOf, declare, AnalysisContext.outer,
        AnalysisContext.performAll, insertLocal, UndoLog.Table.insert, marked,
        VariableMoveState.markPathMoved])
  simp [scopeOf, AnalysisContext.performAll] at whole

end Gruel.Scopes
