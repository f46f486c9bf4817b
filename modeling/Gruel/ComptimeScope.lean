import Gruel.ComptimeData
import Gruel.ComptimeScopeCore

/-!
The interpreter's one map of variables gives the results of lexical scopes in every run that
uses no stale name.
-/

namespace Gruel

namespace Comptime

open Marked

variable {name : Name} {interp : Interp}

section Locals

variable {X : Type}

theorem lookup_cons (entry : Name × X) (locals : List (Name × X)) (name : Name) :
    lookup (entry :: locals) name = if entry.1 = name then some entry.2 else lookup locals name := by
  unfold lookup
  rw [List.find?_cons]
  by_cases same : entry.1 = name
  · rw [if_pos same, beq_iff_eq.mpr same]
    rfl
  · rw [if_neg same, beq_eq_false_iff_ne.mpr same]

theorem lookup_append_congr {first second other : List (Name × X)}
    (same : name ∉ first.map Prod.fst → lookup second name = lookup other name) :
    lookup (first ++ second) name = lookup (first ++ other) name := by
  induction first with
  | nil => exact same List.not_mem_nil
  | cons entry first ih =>
    rw [List.cons_append, List.cons_append, lookup_cons, lookup_cons]
    split
    · rfl
    · next differs =>
        refine ih fun absent => same ?_
        rw [List.map_cons, List.mem_cons, not_or]
        exact ⟨Ne.symm differs, absent⟩

theorem lookup_append_of_not_mem {first second : List (Name × X)}
    (absent : name ∉ first.map Prod.fst) : lookup (first ++ second) name = lookup second name := by
  induction first with
  | nil => rfl
  | cons entry first ih =>
    rw [List.map_cons, List.mem_cons, not_or] at absent
    rw [List.cons_append, lookup_cons, if_neg (Ne.symm absent.1), ih absent.2]

end Locals

theorem lookup_assignLocal {value : ConstValue} {locals changed : List (Name × ConstValue)}
    (assigned : assignLocal name value locals = some changed) (other : Name) :
    lookup changed other = if name = other then some value else lookup locals other := by
  induction locals generalizing changed with
  | nil => cases assigned
  | cons entry locals ih =>
    rw [assignLocal] at assigned
    split at assigned
    · next same =>
        obtain rfl := Option.some.inj assigned
        rw [lookup_cons, lookup_cons, same]
        split <;> rfl
    · next differs =>
        obtain ⟨_, assignedRest, rfl⟩ := Option.map_eq_some_iff.mp assigned
        rw [lookup_cons, lookup_cons, ih assignedRest]
        split
        · next isEntry =>
            rw [if_neg]
            rintro rfl
            exact differs isEntry
        · rfl

section Frame

variable {X : Type}

def Scope.above (below : List (Name × X)) (scope : Scope X) : Scope X :=
  { scope with locals := scope.locals ++ below }

theorem bindFields_above (fieldIndex : Name → Option Nat) (fields : List X)
    (bindings : List (Name × Name)) (below : List (Name × X)) (scope : Scope X) :
    bindFields fieldIndex fields bindings (scope.above below) =
      (bindFields fieldIndex fields bindings scope).map (Scope.above below) := by
  induction bindings generalizing scope with
  | nil => rfl
  | cons binding bindings ih =>
    obtain ⟨field, name⟩ := binding
    simp only [bindFields]
    cases orNotConst (fieldIndex field) with
    | error => rfl
    | ok index =>
      simp only [Except.ok_bind]
      cases orPanic fields[index]? with
      | error => rfl
      | ok operand => exact ih (bind scope name operand)

variable [Operand X]

theorem applyOp_above (fieldIndex : FieldIndex) (op : StrictOp) (target : Nat)
    (below : List (Name × X)) (scope : Scope X) (operands : List X) :
    applyOp fieldIndex op target (scope.above below) operands = (applyOp fieldIndex op target scope operands).map
        fun result => (result.1, result.2.above below) := by
  have heapEq : (scope.above below).heap = scope.heap := rfl
  cases op with
  | unary op =>
    rcases operands with _ | ⟨operand, _ | _⟩
    case cons.nil =>
        simp only [applyOp]
        cases evalUnary op operand <;> rfl
    all_goals rfl
  | bin op =>
    rcases operands with _ | ⟨lhs, _ | ⟨rhs, _ | _⟩⟩
    case cons.cons.nil =>
        simp only [applyOp, heapEq]
        cases evalBin scope.heap op lhs rhs <;> rfl
    all_goals rfl
  | logic op =>
    rcases operands with _ | ⟨lhs, _ | ⟨rhs, _ | _⟩⟩
    case cons.cons.nil =>
        simp only [applyOp]
        cases evalLogic op lhs rhs <;> rfl
    all_goals rfl
  | stringConst text =>
    cases operands <;> rfl
  | arrayInit => rfl
  | indexGet =>
    rcases operands with _ | ⟨base, _ | ⟨index, _ | _⟩⟩
    case cons.cons.nil =>
        simp only [applyOp, heapEq]
        cases getArray scope.heap base with
        | error => rfl
        | ok elems =>
          cases asInteger index with
          | error => rfl
          | ok number =>
            simp only [Except.ok_bind]
            cases indexInto number elems.length with
            | error => rfl
            | ok place =>
              simp only [Except.ok_bind]
              cases orPanic elems[place]? <;> rfl
    all_goals rfl
  | indexSet base =>
    rcases operands with _ | ⟨index, _ | ⟨operand, _ | _⟩⟩
    case cons.cons.nil =>
        simp only [applyOp, heapEq]
        cases scope.heap[target]? with
        | none => rfl
        | some item =>
          cases item with
          | array elems =>
            cases asInteger index with
            | error => rfl
            | ok number =>
              simp only [Except.ok_bind]
              cases indexInto number elems.length <;> rfl
          | _ => rfl
    all_goals rfl
  | structInit structId fieldCount places => rfl
  | fieldGet field =>
    rcases operands with _ | ⟨base, _ | _⟩
    case cons.nil =>
        simp only [applyOp, heapEq]
        cases getStruct scope.heap base with
        | error => rfl
        | ok found =>
          simp only [Except.ok_bind]
          cases fieldIndex found.1 field with
          | none => rfl
          | some index =>
            dsimp only
            cases orPanic found.2[index]? <;> rfl
    all_goals rfl
  | fieldSet base field =>
    rcases operands with _ | ⟨operand, _ | _⟩
    case cons.nil =>
        simp only [applyOp, heapEq]
        cases scope.heap[target]? with
        | none => rfl
        | some item =>
          cases item with
          | struct structId fields =>
            dsimp only
            cases fieldIndex structId field <;> rfl
          | _ => rfl
    all_goals rfl
  | enumData enumId variantIdx => rfl
  | enumStruct enumId variantIdx fieldCount places => rfl
  | structDestructure bindings =>
    rcases operands with _ | ⟨init, _ | _⟩
    case cons.nil =>
        simp only [applyOp, heapEq]
        cases getStruct scope.heap init with
        | error => rfl
        | ok found =>
          simp only [Except.ok_bind, bindFields_above]
          cases bindFields (fieldIndex found.1) found.2 bindings scope <;> rfl
    all_goals rfl

theorem matchPattern_above (pattern : Pattern) (scrutinee : X) (below : List (Name × X)) (scope : Scope X) :
    matchPattern pattern scrutinee (scope.above below) =
      (matchPattern pattern scrutinee scope).map (Option.map (Scope.above below)) := by
  have heapEq : (scope.above below).heap = scope.heap := rfl
  unfold matchPattern
  split
  case h_7 enumId variantIdx bindings otherId otherIdx heapIdx _ =>
      simp only [heapEq]
      split
      · cases scope.heap[heapIdx]? with
        | none => rfl
        | some item =>
          cases item with
          | enumData fields =>
            simp only [bindPositions_eq, bindFields_above]
            cases bindFields some fields (positioned bindings 0) scope <;> rfl
          | _ => rfl
      · rfl
  case h_8 enumId variantIdx bindings otherId otherIdx heapIdx _ =>
      simp only [heapEq]
      split
      · cases scope.heap[heapIdx]? with
        | none => rfl
        | some item =>
          cases item with
          | enumStruct fields =>
            simp only [bindIndexed_eq, bindFields_above]
            cases bindFields some fields bindings scope <;> rfl
          | _ => rfl
      · rfl
  case h_1 => rfl
  case h_9 => rfl
  case h_10 => rfl
  case h_11 => rfl
  -- The patterns that bind nothing compare.
  all_goals split <;> rfl

end Frame

variable {lexical : Lexical} {locals : List (Name × ConstValue)}

def Agrees (lexical : Lexical) (interp : Interp) : Prop :=
  ∃ locals, interp = lexical.interp.withLocals locals ∧
    ∀ name, name ∉ lexical.stale → lookup locals name = lookup lexical.interp.scope.locals name

def AgreesOn {α : Type} (ran : InScope α) (result : α × Interp) : Prop :=
  result.1 = ran.1 ∧ Agrees ran.2 result.2

def Scopes (run : LexicalStep) (interpret : Step) : Prop :=
  ∀ expr lexical interp, Agrees lexical interp → Follows AgreesOn (run expr lexical) (interpret expr interp)

theorem added_append (above below : List (Name × ConstValue)) :
    added below (above ++ below) = above.map Prod.fst := by
  unfold added
  rw [List.length_append, Nat.add_sub_cancel, List.take_left]

theorem Agrees.enter (values : ∀ name, name ∉ lexical.stale →
      lookup locals name = lookup lexical.interp.scope.locals name) (scope : Scope ConstValue) :
    Agrees (lexical.enter (scope.above lexical.interp.scope.locals))
      { lexical.interp with scope := scope.above locals } := by
  refine ⟨scope.locals ++ locals, rfl, ?_⟩
  intro name fresh
  simp only [Lexical.enter, Lexical.refresh, Scope.above, added_append, List.mem_filter,
    decide_eq_true_eq, not_and, not_not] at fresh
  refine lookup_append_congr fun notAdded => values name fun stale => ?_
  exact notAdded (fresh stale)

theorem Agrees.leave {before after : Lexical} (agrees : Agrees after interp) :
    Agrees (before.leave after) interp := by
  obtain ⟨locals, rfl, values⟩ := agrees
  refine ⟨locals, rfl, ?_⟩
  intro name fresh
  simp only [Lexical.leave, added, List.mem_append, not_or] at fresh
  rw [values name fresh.2]
  have cut := List.take_append_drop (after.interp.scope.locals.length - before.interp.scope.locals.length)
    after.interp.scope.locals
  conv_lhs => rw [← cut]
  exact lookup_append_of_not_mem fresh.1

theorem Agrees.assign {changed : List (Name × ConstValue)}
    (values : ∀ name, name ∉ lexical.stale → lookup locals name = lookup lexical.interp.scope.locals name)
    {value : ConstValue}
    (assigned : assignLocal name value lexical.interp.scope.locals = some changed) :
    Agrees (Lexical.refresh [name] { lexical with interp := lexical.interp.withLocals changed })
      (lexical.interp.withLocals ((name, value) :: locals)) := by
  refine ⟨(name, value) :: locals, rfl, ?_⟩
  intro other fresh
  simp only [Lexical.refresh, List.mem_filter, List.mem_singleton, decide_eq_true_eq, not_and, not_not] at fresh
  have changedTo := lookup_assignLocal assigned other
  rw [lookup_cons]
  refine Eq.trans ?_ changedTo.symm
  split
  · rfl
  · next differs => exact values other fun stale => differs (fresh stale).symm

section Constructs

variable {run : LexicalStep} {interpret : Step} {lexical : Lexical} {interp : Interp}

theorem follows_result {α : Type} {value : α} (agrees : Agrees lexical interp) :
    Follows AgreesOn (pure (value, lexical) : LexicalRun (InScope α)) (.ok (value, interp)) :=
  follows_ok ⟨rfl, agrees⟩

theorem follows_next {α γ δ : Type} {related : γ → δ → Prop} {ran : LexicalRun (InScope α)}
    {plain : Except CompileError (α × Interp)} {next : InScope α → LexicalRun γ}
    {plainNext : α × Interp → Except CompileError δ} (follows : Follows AgreesOn ran plain)
    (followsNext : ∀ value lexical interp, Agrees lexical interp →
      Follows related (next (value, lexical)) (plainNext (value, interp))) :
    Follows related (ran >>= next) (plain >>= plainNext) := by
  refine follows_bind follows ?_
  rintro ⟨_, lexical⟩ ⟨value, interp⟩ ⟨rfl, agrees⟩
  exact followsNext value lexical interp agrees

theorem follows_inScope {body : Lexical → LexicalRun (InScope ConstValue)}
    {plain : Except CompileError (ConstValue × Interp)}
    (follows : Follows AgreesOn (body lexical) plain) :
    Follows AgreesOn (inScope body lexical) plain :=
  follows_finish follows fun _ _ agrees => ⟨agrees.1, agrees.2.leave⟩

theorem follows_lexicalOperands (scopes : Scopes run interpret)
    (accept : Nat → ConstValue → Except CompileError Unit) (operands : List Expr) (index : Nat)
    {lexical : Lexical} (agrees : Agrees lexical interp) :
    Follows AgreesOn (lexicalOperands run accept index operands lexical)
      (evalOperands interpret accept index operands interp) := by
  induction operands generalizing index lexical interp with
  | nil => exact follows_result agrees
  | cons operand operands ih =>
    refine follows_next (scopes operand lexical interp agrees) ?_
    intro _ lexical interp agrees
    refine follows_shared fun _ _ => ?_
    refine follows_next (ih (index + 1) agrees) ?_
    intro _ lexical interp agrees
    exact follows_result agrees

theorem follows_lexicalStmts (scopes : Scopes run interpret) (stmts : List Expr) (last : ConstValue)
    {lexical : Lexical} (agrees : Agrees lexical interp) :
    Follows AgreesOn (lexicalStmts run stmts last lexical) (evalStmts interpret stmts last interp) := by
  induction stmts generalizing last lexical interp with
  | nil => exact follows_result agrees
  | cons stmt stmts ih =>
    refine follows_next (scopes stmt lexical interp agrees) ?_
    intro value lexical interp agrees
    cases value with
    | data value => exact ih (.data value) agrees
    | _ => exact follows_result agrees

theorem follows_matchPattern (pattern : Pattern) (scrutinee : ConstValue) (locals : List (Name × ConstValue)) :
    Follows (fun matched plainMatched => ∃ bound : Option (Scope ConstValue),
        matched = bound.map (Scope.above lexical.interp.scope.locals) ∧ plainMatched = bound.map (Scope.above locals))
      (Run.ofExcept (matchPattern pattern scrutinee lexical.interp.scope))
      (matchPattern pattern scrutinee (lexical.interp.withLocals locals).scope) := by
  have onLexical := matchPattern_above pattern scrutinee lexical.interp.scope.locals
    { heap := lexical.interp.scope.heap }
  have onFlat := matchPattern_above pattern scrutinee locals { heap := lexical.interp.scope.heap }
  change matchPattern pattern scrutinee lexical.interp.scope = _ at onLexical
  change matchPattern pattern scrutinee (lexical.interp.withLocals locals).scope = _ at onFlat
  rw [onLexical, onFlat]
  exact follows_maps _ fun bound => ⟨bound, rfl, rfl⟩

theorem follows_lexicalArms (scopes : Scopes run interpret) (scrutinee : ConstValue)
    (arms : List (Pattern × Expr)) (agrees : Agrees lexical interp) :
    Follows AgreesOn (lexicalArms run scrutinee arms lexical) (evalArms interpret scrutinee arms interp) := by
  obtain ⟨locals, rfl, values⟩ := agrees
  induction arms with
  | nil => exact follows_error _
  | cons arm arms ih =>
    obtain ⟨pattern, body⟩ := arm
    refine follows_bind (follows_matchPattern pattern scrutinee locals) ?_
    rintro _ _ ⟨bound, rfl, rfl⟩
    cases bound with
    | none => exact ih
    | some scope => exact scopes body _ _ (Agrees.enter values scope)

theorem follows_applyOp (fieldIndex : FieldIndex) (op : StrictOp) (target : Nat)
    (operands : List ConstValue) (agrees : Agrees lexical interp) :
    Follows AgreesOn (do
        let (value, scope) ←
          Run.ofExcept (applyOp fieldIndex op target lexical.interp.scope operands)
        pure (value, lexical.enter scope))
      (do
        let (value, scope) ← applyOp fieldIndex op target interp.scope operands
        .ok (value, { interp with scope := scope })) := by
  obtain ⟨locals, rfl, values⟩ := agrees
  have onLexical := applyOp_above fieldIndex op target lexical.interp.scope.locals
    { heap := lexical.interp.scope.heap } operands
  have onFlat := applyOp_above fieldIndex op target locals { heap := lexical.interp.scope.heap } operands
  change applyOp fieldIndex op target lexical.interp.scope operands = _ at onLexical
  change applyOp fieldIndex op target (lexical.interp.withLocals locals).scope operands = _ at onFlat
  rw [onLexical, onFlat]
  cases applyOp fieldIndex op target { heap := lexical.interp.scope.heap } operands with
  | error err => exact follows_error err
  | ok result => exact follows_ok ⟨rfl, Agrees.enter values result.2⟩

theorem follows_target {γ δ : Type} {related : γ → δ → Prop} {next : Nat → LexicalRun γ}
    {plainNext : Nat → Except CompileError δ} (op : StrictOp) (agrees : Agrees lexical interp)
    (followsNext : ∀ target, Follows related (next target) (plainNext target)) :
    Follows related (do
        op.useBase lexical
        let target ← Run.ofExcept (targetOf op lexical.interp.scope.locals)
        next target)
      (targetOf op interp.scope.locals >>= plainNext) := by
  obtain ⟨locals, rfl, values⟩ := agrees
  have shared (same : targetOf op locals = targetOf op lexical.interp.scope.locals) :
      Follows related (Run.ofExcept (targetOf op lexical.interp.scope.locals) >>= next)
        (targetOf op locals >>= plainNext) := by
    rw [same]
    exact follows_shared fun target _ => followsNext target
  cases op with
  | indexSet base =>
    refine follows_markIf fun fresh => shared ?_
    simp [targetOf, values base (of_decide_eq_false fresh)]
  | fieldSet base field =>
    refine follows_markIf fun fresh => shared ?_
    simp only [targetOf, values base (of_decide_eq_false fresh)]
  | _ => exact shared rfl

theorem follows_lexicalIteration {body again : Lexical → LexicalRun (InScope ConstValue)}
    {plainBody plainAgain : Interp → Except CompileError (ConstValue × Interp)}
    (agrees : Agrees lexical interp)
    (followsBody : ∀ lexical interp, Agrees lexical interp → Follows AgreesOn (body lexical) (plainBody interp))
    (followsAgain : ∀ lexical interp, Agrees lexical interp → Follows AgreesOn (again lexical) (plainAgain interp)) :
    Follows AgreesOn (lexicalIteration body again lexical)
      (if maxSteps < interp.steps + 1 then .error stepBudgetExceeded
      else
        plainBody { interp with steps := interp.steps + 1 } >>= fun
          | (.breakSignal, interp) => .ok (.data .unit, interp)
          | (_, interp) => plainAgain interp) := by
  have stepped : Agrees { lexical with interp := { lexical.interp with steps := lexical.interp.steps + 1 } }
      { interp with steps := interp.steps + 1 } := by
    obtain ⟨locals, rfl, values⟩ := agrees
    exact ⟨locals, rfl, values⟩
  have sameSteps : interp.steps = lexical.interp.steps := by
    obtain ⟨locals, rfl, values⟩ := agrees
    rfl
  rw [sameSteps, lexicalIteration]
  split
  · exact follows_error _
  · refine follows_next (follows_inScope (followsBody _ _ (sameSteps ▸ stepped))) ?_
    intro value lexical interp agrees
    cases value with
    | breakSignal => exact follows_result agrees
    | _ => exact followsAgain lexical interp agrees

theorem finishCall_withLocals (place : String) (value : ConstValue) (interp : Interp)
    (locals : List (Name × ConstValue)) :
    finishCall place value (interp.withLocals locals) =
      (finishCall place value interp).map fun result => (result.1, result.2.withLocals locals) := by
  cases value with
  | returnSignal =>
    obtain ⟨_, _, _, _, returnValue⟩ := interp
    cases returnValue <;> rfl
  | _ => rfl

theorem follows_lexicalBody (scopes : Scopes run interpret) (place : String) (body : Expr)
    (params : List (Name × ConstValue)) (typeOverrides : List (Name × Ty))
    (agrees : Agrees lexical interp) :
    Follows AgreesOn (lexicalBody run place body params typeOverrides lexical)
      (runBody interpret place body params typeOverrides interp) := by
  obtain ⟨locals, rfl, values⟩ := agrees
  refine follows_next (scopes body _ _ ⟨params, rfl, fun _ _ => rfl⟩) ?_
  intro value after _ agrees
  obtain ⟨_, rfl, -⟩ := agrees
  let restored : Interp := { after.interp with
      typeOverrides := lexical.interp.typeOverrides
      callDepth := lexical.interp.callDepth }
  change Follows AgreesOn (Run.ofExcept (finishCall place value (restored.withLocals lexical.interp.scope.locals)) >>=
      fun result => pure (result.1, { lexical with interp := result.2 }))
    (finishCall place value (restored.withLocals locals))
  rw [finishCall_withLocals, finishCall_withLocals]
  cases finishCall place value restored with
  | error err => exact follows_error err
  | ok result => exact follows_ok ⟨rfl, locals, rfl, values⟩

theorem follows_lexicalCall (scopes : Scopes run interpret) (agrees : Agrees lexical interp)
    {tooDeep : CompileError} {place : String} {body : Expr} {params : List (Name × ConstValue)}
    {typeOverrides : List (Name × Ty)} :
    Follows AgreesOn (if callDepthLimit ≤ lexical.interp.callDepth then Run.ofExcept (.error tooDeep)
      else lexicalBody run place body params typeOverrides lexical)
      (if callDepthLimit ≤ interp.callDepth then .error tooDeep
      else runBody interpret place body params typeOverrides interp) := by
  have sameDepth : interp.callDepth = lexical.interp.callDepth := by
    obtain ⟨_, rfl, _⟩ := agrees
    rfl
  rw [sameDepth]
  split
  · exact follows_error _
  · exact follows_lexicalBody scopes place body params typeOverrides agrees

end Constructs

theorem scopes_evaluateLexical (program : Program) (fuel : Nat) :
    Scopes (evaluateLexical program fuel) (evaluateComptimeInst program fuel) := by
  induction fuel with
  | zero => exact fun _ _ _ _ => follows_error _
  | succ fuel scopes =>
    intro expr lexical interp agrees
    cases expr with
    | literal value | «break» | «continue» => exact follows_result agrees
    | strict op operands =>
      refine follows_target op agrees fun target => ?_
      refine follows_next (follows_lexicalOperands scopes (acceptOperand op) operands 0 agrees) ?_
      intro values lexical interp agrees
      exact follows_applyOp program.fieldIndex op target values agrees
    | block stmts =>
      exact follows_inScope (follows_lexicalStmts scopes stmts (.data .unit) agrees)
    | alloc name init =>
      refine follows_next (scopes init lexical interp agrees) ?_
      intro value lexical interp agrees
      cases name with
      | none => exact follows_result agrees
      | some name =>
        obtain ⟨locals, rfl, values⟩ := agrees
        exact follows_result (Agrees.enter values { locals := [(name, value)], heap := lexical.interp.scope.heap })
    | varRef name =>
      obtain ⟨locals, rfl, values⟩ := agrees
      refine follows_markIf fun fresh => ?_
      have sameValue := values name (of_decide_eq_false fresh)
      simp only [evaluateComptimeInst, Interp.withLocals, sameValue]
      cases lookup lexical.interp.scope.locals name with
      | some value => exact follows_result ⟨locals, rfl, values⟩
      | none =>
        cases lookupType program lexical.interp.typeOverrides name with
        | some ty => exact follows_result ⟨locals, rfl, values⟩
        | none => exact follows_error _
    | assign name value =>
      refine follows_next (scopes value lexical interp agrees) ?_
      intro value lexical interp agrees
      obtain ⟨locals, rfl, values⟩ := agrees
      simp only [Lexical.assign]
      cases assigned : assignLocal name value lexical.interp.scope.locals with
      | none => exact follows_of_marked rfl
      | some changed => exact follows_result (Agrees.assign values assigned)
    | branch cond thenBlock elseBlock =>
      refine follows_next (scopes cond lexical interp agrees) ?_
      intro condition lexical interp agrees
      cases condition with
      | data condition =>
        cases condition with
        | bool taken =>
          cases taken with
          | true => exact follows_inScope (scopes thenBlock lexical interp agrees)
          | false =>
            cases elseBlock with
            | none => exact follows_result agrees
            | some elseBlock =>
              exact follows_inScope (scopes elseBlock lexical interp agrees)
        | _ => exact follows_error _
      | _ => exact follows_error _
    | comptime expr => exact scopes expr lexical interp agrees
    | loop cond body =>
      refine follows_next (scopes cond lexical interp agrees) ?_
      intro condition lexical interp agrees
      refine follows_shared fun taken _ => ?_
      cases taken with
      | false => exact follows_result agrees
      | true => exact follows_lexicalIteration agrees (scopes body) (scopes (.loop cond body))
    | infiniteLoop body =>
      exact follows_lexicalIteration agrees (scopes body) (scopes (.infiniteLoop body))
    | ret value =>
      cases value with
      | none =>
        obtain ⟨locals, rfl, values⟩ := agrees
        exact follows_result ⟨locals, rfl, values⟩
      | some value =>
        refine follows_next (scopes value lexical interp agrees) ?_
        intro value lexical interp agrees
        obtain ⟨locals, rfl, values⟩ := agrees
        exact follows_result ⟨locals, rfl, values⟩
    | call name args =>
      simp only [evaluateLexical, evaluateComptimeInst]
      cases program.functions name with
      | none => exact follows_error _
      | some info =>
        refine follows_next (follows_lexicalOperands scopes acceptAll args 0 agrees) ?_
        intro values lexical interp agrees
        exact follows_lexicalCall scopes agrees
    | methodCall receiver method args =>
      refine follows_next (scopes receiver lexical interp agrees) ?_
      intro _ lexical interp agrees
      have sameHeap : interp.scope.heap = lexical.interp.scope.heap := by
        obtain ⟨locals, rfl, values⟩ := agrees
        rfl
      simp only [sameHeap]
      refine follows_shared fun found _ => ?_
      cases program.methods found.1 method with
      | none => exact follows_error _
      | some info =>
        refine follows_next (follows_lexicalOperands scopes acceptAll args 0 agrees) ?_
        intro values lexical interp agrees
        have sameOverrides : interp.typeOverrides = lexical.interp.typeOverrides := by
          obtain ⟨locals, rfl, values⟩ := agrees
          rfl
        simp only [sameOverrides]
        exact follows_lexicalCall scopes agrees
    | matchOn scrutinee arms =>
      refine follows_next (scopes scrutinee lexical interp agrees) ?_
      intro scrutinee lexical interp agrees
      exact follows_inScope (follows_lexicalArms scopes scrutinee arms agrees)
    | unsupported => exact follows_error _

/-- In every run that uses no stale name and assigns to names in scope only, the interpreter
fails where lexical scopes fail, and otherwise has their value, and their variable for every
name that is not stale. -/
theorem evaluateComptimeInst_lexical (program : Program) (fuel : Nat) (expr : Expr)
    (lexical : Lexical) (interp : Interp) (agrees : Agrees lexical interp)
    (unmarked : (evaluateLexical program fuel expr lexical).marked = false) :
    (∀ err, (evaluateLexical program fuel expr lexical).result = .error err →
      evaluateComptimeInst program fuel expr interp = .error err) ∧
    (∀ value after, (evaluateLexical program fuel expr lexical).result = .ok (value, after) →
      ∃ interpAfter, evaluateComptimeInst program fuel expr interp = .ok (value, interpAfter) ∧
        Agrees after interpAfter) := by
  have follows := scopes_evaluateLexical program fuel expr lexical interp agrees unmarked
  constructor
  · intro err failed
    rw [failed] at follows
    exact follows
  · intro value after returned
    rw [returned] at follows
    obtain ⟨⟨_, interpAfter⟩, interpreted, rfl, agreesAfter⟩ := follows
    exact ⟨interpAfter, interpreted, agreesAfter⟩

namespace ScopeSample

def int (value : BitVec 64) : Expr := .literal (.integer value)

def program (body : Expr) : Program where
  functions name := if name = 0 then some ⟨[(1, false)], false, body⟩ else none
  methods _ _ := none
  fieldIndex _ _ := none
  typeNames _ := none
  selfName := 9

/-- `let x = 1; { let x = 2; } x` -/
def shadowed : Expr := .block [.alloc (some 1) (int 1), .block [.alloc (some 1) (int 2)], .varRef 1]

/-- `{ let y = 2; } y` -/
def gone : Expr := .block [.block [.alloc (some 2) (int 2)], .varRef 2]

/-- `match E::A(7) { E::A(y) => 0, } y` -/
def boundByArm : Expr := .block [ .matchOn (.strict (.enumData 0 0) [int 7]) [(.dataVariant 0 0 [some 2], int 0)],
    .varRef 2]

/-- `loop { if 5 < n { break; } n = n + 1; let n = 9; } n` -/
def shadowedCounter : Expr := .block [ .infiniteLoop (.block [
      .branch (.strict (.bin .lt) [int 5, .varRef 1]) .break none,
      .assign 1 (.strict (.bin .add) [.varRef 1, int 1]),
      .alloc (some 1) (int 9)]),
    .varRef 1]

/-- The value after a block is the inner binding's, and names outlive their scope. -/
theorem scopes_leak : (evaluateComptimeBlock (program shadowed) 8 shadowed [] = .ok (.data (.integer 2)) ∧
      (evaluateLexicalBlock (program shadowed) 8 shadowed []).result = .ok (.data (.integer 1))) ∧
    (evaluateComptimeBlock (program gone) 8 gone [] = .ok (.data (.integer 2)) ∧
      (evaluateLexicalBlock (program gone) 8 gone []).result = .error notConst) ∧
    (evaluateComptimeBlock (program boundByArm) 8 boundByArm [] = .ok (.data (.integer 7)) ∧
      (evaluateLexicalBlock (program boundByArm) 8 boundByArm []).result = .error notConst) ∧
    (evaluateComptimeBlock (program shadowedCounter) 20 (.call 0 [int 0]) [] = .ok (.data (.integer 9)) ∧
      (evaluateLexicalBlock (program shadowedCounter) 20 (.call 0 [int 0]) []).result =
        .ok (.data (.integer 6))) := by
  refine ⟨⟨?_, ?_⟩, ⟨?_, ?_⟩, ⟨?_, ?_⟩, ?_, ?_⟩ <;> rfl

/-- `while n < 3 { let next = n + 1; { let n = next; n } n = next; } n`: the inner `n` is over
when the outer one is assigned. -/
def counts : Expr := .block [ .loop (.strict (.bin .lt) [.varRef 1, int 3]) (.block [
        .alloc (some 2) (.strict (.bin .add) [.varRef 1, int 1]),
        .block [.alloc (some 1) (.varRef 2), .varRef 1],
        .assign 1 (.varRef 2)]),
    .varRef 1]

theorem counts_lexical : Agrees {} {} ∧
    ∃ interpAfter after, evaluateComptimeInst (program counts) 12 (.call 0 [int 0]) {} =
      .ok (.data (.integer 3), interpAfter) ∧ Agrees after interpAfter := by
  have initial : Agrees {} {} := ⟨[], rfl, fun _ _ => rfl⟩
  have sameRun := evaluateComptimeInst_lexical (program counts) 12 (.call 0 [int 0]) {} {} initial rfl
  obtain ⟨interpAfter, interpreted, agrees⟩ := sameRun.2 (.data (.integer 3)) _ rfl
  exact ⟨initial, interpAfter, _, interpreted, agrees⟩

end ScopeSample

end Comptime

end Gruel
