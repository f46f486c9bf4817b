import Mathlib.Tactic
import Gruel.CheckedGateCore

/-!
Which calls of an accepted body can reach an unchecked callee outside of a
checked block: the calls of a body as its text resolves them, independent of the
analysis, against the depth counter that the analysis consults.
-/

namespace Gruel.CheckedGate

open Surviving

def Expr.children : Expr → List Expr
  | .plain parts _ => parts
  | .checked body | .comptime body _ => [body]
  | .call _ _ args | .assocFnCall _ _ args | .intrinsic _ args => args
  | .methodCall receiver _ args => receiver :: args
  | .comparison _ lhs rhs => [lhs, rhs]
  | .indexGet base index => [base, index]
  | .indexSet base index value => [base, index, value]
  | .spawn _ arg => [arg]

def insideChecked : Expr → List Nat → Bool
  | _, [] => false
  | .checked _, _ :: _ => true
  | expr, index :: path =>
    match expr.children[index]? with
    | some child => insideChecked child path
    | none => false

section Resolution

variable (sema : Sema)

def Dispatch.ty : Dispatch → Ty
  | .call target => target.returnType
  | .variant ty _ | .value ty => ty

def Dispatch.target : Dispatch → Option Target
  | .call target => some target
  | .variant _ _ | .value _ => none

mutual

def typeOf : Expr → Except SemaError Ty
  | .plain parts result => do
      let tys ← typesOf parts
      result tys
  | .checked body => typeOf body
  | .comptime body result => do
      let ty ← evaluateComptimeInst sema body
      result ty
  | .call name callable _ => do
      let target ← sema.resolveCall name callable
      pure target.returnType
  | .methodCall receiver method args => do
      let receiverTy ← typeOf receiver
      let dispatch ← sema.resolveMethod receiverTy method args.length
      pure dispatch.ty
  | .assocFnCall typeName function _ => do
      let dispatch ← sema.resolveAssoc typeName function
      pure dispatch.ty
  | .comparison _ _ _ => pure .bool
  | .indexGet base _ => do
      let baseTy ← typeOf base
      match baseTy with
      | .vec vec => pure (sema.vecElem vec)
      | baseTy => sema.indexed baseTy
  | .indexSet _ _ _ => pure .unit
  | .intrinsic name _ => do
      let target ← sema.resolveIntrinsic name
      pure target.returnType
  | .spawn function _ => do
      let target ← sema.resolveSpawn function
      sema.joinHandle target.returnType

def typesOf : List Expr → Except SemaError (List Ty)
  | [] => pure []
  | expr :: exprs => do
      let ty ← typeOf expr
      let tys ← typesOf exprs
      pure (ty :: tys)

end

def runtimeTarget : Expr → Except SemaError (Option Target)
  | .plain _ _ | .checked _ | .comptime _ _ => pure none
  | .call name callable _ => (sema.resolveCall name callable).map some
  | .methodCall receiver method args => do
      let receiverTy ← typeOf sema receiver
      (sema.resolveMethod receiverTy method args.length).map Dispatch.target
  | .assocFnCall typeName function _ =>
    (sema.resolveAssoc typeName function).map Dispatch.target
  | .comparison op lhs _ => do
      let lhsTy ← typeOf sema lhs
      if lhsTy.isNever || lhsTy.isError then pure none else sema.resolveComparison op lhsTy
  | .indexGet base _ => do
      let baseTy ← typeOf sema base
      match baseTy with
      | .vec vec => (sema.resolveIndex vec "index_read" (sema.vecElem vec)).map some
      | _ => pure none
  | .indexSet base _ _ => do
      let baseTy ← typeOf sema base
      match baseTy with
      | .vec vec => (sema.resolveIndex vec "index_write" .unit).map some
      | _ => pure none
  | .intrinsic name _ => (sema.resolveIntrinsic name).map some
  | .spawn function _ => (sema.resolveSpawn function).map some

def comptimeTarget : Expr → Except SemaError (Option Target)
  | .call name _ _ => (sema.resolveComptimeCall name).map some
  | .methodCall receiver method _ => do
      let receiverTy ← evaluateComptimeInst sema receiver
      (sema.resolveComptimeMethod receiverTy method).map Dispatch.target
  | _ => pure none

def targetOf : Mode → Expr → Except SemaError (Option Target)
  | .runtime, expr => runtimeTarget sema expr
  | .comptime, expr => comptimeTarget sema expr

def Expr.modeInside : Expr → Mode → Mode
  | .comptime _ _, _ => .comptime
  | _, mode => mode

def CallsAt : Mode → Expr → List Nat → Target → Prop
  | mode, expr, [], target => targetOf sema mode expr = .ok (some target)
  | mode, expr, index :: path, target =>
    match expr.children[index]? with
    | some child => CallsAt (expr.modeInside mode) child path target
    | none => False

/-- The callees that a call can end up in: a call through an interface value reaches the method of
any struct that conforms. -/
inductive Reaches : Callee → Callee → Prop
  | self (callee : Callee) : Reaches callee callee
  | implementor {owner : StructId} {interface : InterfaceId} {name : String}
      (required : (sema.interfaceMethod interface name).isSome)
      (conforms : sema.checkConforms owner interface = true) :
      Reaches (.interfaceMethod interface name) (.method owner name)

def Gated (mode : Mode) (body : Expr) : Prop :=
  ∀ path target, CallsAt sema mode body path target → ∀ reached,
    Reaches sema target.callee reached → sema.isUnchecked reached = true →
    insideChecked body path = true

/-- No call outside of the checked blocks of the body takes a path without a gate to an unchecked
callee. -/
def NoBypass (mode : Mode) (body : Expr) : Prop :=
  ∀ path target, CallsAt sema mode body path target → target.route.gate = .none →
    insideChecked body path = false → sema.isUnchecked target.callee = false

end Resolution

section Depth

variable {sema : Sema}

theorem restores_enter (target : Target) : Restores (enter sema target) := fun _ => rfl

theorem restores_emit (dispatch : Dispatch) {args : Analysis (List Ty)} (restores : Restores args) :
    Restores (emit sema dispatch args) := by
  cases dispatch with
  | call target =>
    exact restores_bind (restores_enter target) fun _ =>
      restores_bind restores fun _ => restores_fromExcept _
  | variant ty fields =>
    refine restores_bind restores fun tys => ?_
    split
    · exact restores_pure _
    · exact restores_throw _
  | value ty => exact restores_bind restores fun _ => restores_pure ty

mutual

theorem restores_analyzeInst (expr : Expr) : Restores (analyzeInst sema expr) := by
  match expr with
  | .plain parts result =>
    exact restores_bind (restores_analyzeInsts parts) fun _ => restores_fromExcept _
  | .checked body =>
    rw [analyzeInst]
    exact restores_bracket (fun _ => rfl) (restores_analyzeInst body)
  | .comptime body result =>
    rw [analyzeInst]
    exact restores_bind (restores_fromExcept _) fun _ => restores_fromExcept _
  | .call _ _ args | .assocFnCall _ _ args | .intrinsic _ args =>
    rw [analyzeInst]
    exact restores_bind (restores_fromExcept _) fun _ =>
      restores_emit _ (restores_analyzeInsts args)
  | .methodCall receiver method args =>
    rw [analyzeInst]
    exact restores_bind (restores_analyzeInst receiver) fun _ =>
      restores_bind (restores_fromExcept _) fun _ => restores_emit _ (restores_analyzeInsts args)
  | .comparison op lhs rhs =>
    rw [analyzeInst]
    split
    · exact restores_throw _
    · refine restores_bind (restores_analyzeInst lhs) fun lhsTy => ?_
      split
      · exact restores_bind (restores_analyzeInst rhs) fun _ => restores_pure _
      · refine restores_bind (restores_fromExcept _) fun target => ?_
        cases target with
        | some target =>
          exact restores_bind (restores_enter target) fun _ =>
            restores_bind (restores_analyzeInst rhs) fun _ =>
              restores_bind (restores_fromExcept _) fun _ => restores_fromExcept _
        | none => exact restores_bind (restores_analyzeInst rhs) fun _ => restores_fromExcept _
  | .indexGet base index =>
    rw [analyzeInst]
    refine restores_bind (restores_analyzeInst base) fun baseTy => ?_
    split
    · split
      · exact restores_bind (restores_analyzeInst index) fun _ =>
          restores_bind (restores_fromExcept _) fun target =>
            restores_bind (restores_enter target) fun _ => restores_fromExcept _
      · exact restores_throw _
    · exact restores_bind (restores_analyzeInst index) fun _ => restores_fromExcept _
  | .indexSet base index value =>
    rw [analyzeInst]
    refine restores_bind (restores_analyzeInst base) fun baseTy => ?_
    refine restores_bind (restores_analyzeInst index) fun _ => ?_
    refine restores_bind (restores_analyzeInst value) fun _ => ?_
    split
    · exact restores_bind (restores_fromExcept _) fun target =>
        restores_bind (restores_enter target) fun _ => restores_fromExcept _
    · exact restores_bind (restores_fromExcept _) fun _ => restores_pure _
  | .spawn function arg =>
    rw [analyzeInst]
    exact restores_bind (restores_fromExcept _) fun target =>
      restores_bind (restores_enter target) fun _ =>
        restores_bind (restores_analyzeInst arg) fun _ =>
          restores_bind (restores_fromExcept _) fun _ => restores_fromExcept _

theorem restores_analyzeInsts (exprs : List Expr) : Restores (analyzeInsts sema exprs) := by
  match exprs with
  | [] =>
    exact restores_pure _
  | expr :: exprs =>
    rw [analyzeInsts]
    exact restores_bind (restores_analyzeInst expr) fun _ =>
      restores_bind (restores_analyzeInsts exprs) fun _ => restores_pure _

end

end Depth

section Accepted

variable {sema : Sema} {depth : Nat}
variable {target : Target} {expr : Expr}
variable {path : List Nat} {dispatch : Dispatch} {method : String}

/-- A call of an unchecked callee on a path with a gate is inside a checked block: one around the
expression, which the depth counts, or one in it. -/
def Guarded (sema : Sema) (depth : Nat) (expr : Expr) : Prop :=
  ∀ path target, CallsAt sema .runtime expr path target → target.route.gate ≠ .none →
    sema.isUnchecked target.callee = true → 0 < depth ∨ insideChecked expr path = true

def Passed (sema : Sema) (depth : Nat) (target : Target) : Prop :=
  target.route.gate ≠ .none → sema.isUnchecked target.callee = true → 0 < depth

theorem passed_of_enter (entered : (enter sema target).result depth = .ok ()) : Passed sema depth target := by
  intro guarded unchecked
  by_contra outside
  have zero : depth = 0 := by omega
  subst zero
  simp only [enter, Action.result, ExceptT.run, StateT.run, unchecked, decide_true, Bool.and_self, if_true] at entered
  cases gate : target.route.gate with
  | none => exact guarded gate
  | unchecked | intrinsic =>
    rw [gate] at entered
    cases entered

theorem insideChecked_cons (plain : ∀ body, expr ≠ .checked body) {index : Nat} {child : Expr}
    (here : expr.children[index]? = some child) :
    insideChecked expr (index :: path) = insideChecked child path := by
  cases expr with
  | checked body => exact absurd rfl (plain body)
  | _ => simp [insideChecked, here]

theorem guarded_of_children (plain : ∀ body, expr ≠ .checked body) (runtime : expr.modeInside .runtime = .runtime)
    (here : ∀ target, runtimeTarget sema expr = .ok (some target) → Passed sema depth target)
    (children : ∀ (index : Nat) child, expr.children[index]? = some child →
      Guarded sema depth child) : Guarded sema depth expr := by
  intro path target calls guarded unchecked
  cases path with
  | nil => exact .inl (here target calls guarded unchecked)
  | cons index path =>
    simp only [CallsAt, runtime] at calls
    cases found : expr.children[index]? with
    | none =>
      rw [found] at calls
      exact calls.elim
    | some child =>
      rw [found] at calls
      rw [insideChecked_cons plain found]
      exact children index child found path target calls guarded unchecked

theorem guarded_of_operands (plain : ∀ body, expr ≠ .checked body) (runtime : expr.modeInside .runtime = .runtime)
    (none : runtimeTarget sema expr = .ok Option.none)
    (children : ∀ (index : Nat) child, expr.children[index]? = some child →
      Guarded sema depth child) : Guarded sema depth expr := by
  refine guarded_of_children plain runtime ?_ children
  intro _ calls
  rw [none] at calls
  cases calls

theorem finishCall_ok {args : List Ty} {ty : Ty} (finished : finishCall sema target args = .ok ty) :
    target.returnType = ty := by
  rw [finishCall] at finished
  split at finished
  · cases finished
  · cases admitted : sema.admits target.callee args with
    | error error =>
      rw [admitted] at finished
      cases finished
    | ok _ =>
      rw [admitted] at finished
      exact Except.ok.inj finished

theorem emit_ok {args : Analysis (List Ty)} (restores : Restores args) {ty : Ty}
    (emitted : (emit sema dispatch args).result depth = .ok ty) :
    dispatch.ty = ty ∧ (∀ target, dispatch.target = some target → Passed sema depth target) ∧
      ∃ tys, args.result depth = .ok tys := by
  cases dispatch with
  | call target =>
    obtain ⟨_, entered, emitted⟩ := result_bind_ok (restores_enter target) emitted
    obtain ⟨tys, analyzed, emitted⟩ := result_bind_ok restores emitted
    refine ⟨finishCall_ok emitted, ?_, tys, analyzed⟩
    intro _ same
    cases same
    exact passed_of_enter entered
  | variant ty fields =>
    simp only [emit] at emitted
    obtain ⟨tys, analyzed, emitted⟩ := result_bind_ok restores emitted
    refine ⟨?_, fun _ same => absurd same (Option.some_ne_none _).symm, tys, analyzed⟩
    split at emitted
    · cases emitted
      rfl
    · cases emitted
  | value ty =>
    simp only [emit] at emitted
    obtain ⟨tys, analyzed, emitted⟩ := result_bind_ok restores emitted
    cases emitted
    exact ⟨rfl, fun _ same => absurd same (Option.some_ne_none _).symm, tys, analyzed⟩

def GuardedAll (sema : Sema) (depth : Nat) (exprs : List Expr) : Prop :=
  ∀ (index : Nat) child, exprs[index]? = some child → Guarded sema depth child

theorem guardedAll_nil : GuardedAll sema depth [] := by
  intro _ _ here
  simp at here

theorem guardedAll_cons {exprs : List Expr} (first : Guarded sema depth expr)
    (rest : GuardedAll sema depth exprs) : GuardedAll sema depth (expr :: exprs) := by
  intro index child here
  cases index with
  | zero =>
    rw [List.getElem?_cons_zero, Option.some.injEq] at here
    exact here ▸ first
  | succ index =>
    exact rest index child here

theorem guarded_checked (body : Expr) : Guarded sema depth (.checked body) := by
  intro path _ calls _ _
  cases path with
  | nil =>
    cases calls
  | cons index path => exact .inr rfl

theorem resolveComptimeCall_gate {name : String}
    (resolved : sema.resolveComptimeCall name = .ok target) : target.route.gate = .none := by
  rw [Sema.resolveComptimeCall] at resolved
  split at resolved
  · cases resolved
    rfl
  · cases resolved

theorem resolveComptimeMethod_gate {receiver : Ty}
    (resolved : sema.resolveComptimeMethod receiver method = .ok dispatch)
    (calls : dispatch.target = some target) : target.route.gate = .none := by
  rw [Sema.resolveComptimeMethod.eq_def] at resolved
  split at resolved
  · cases resolved
    cases calls
  · split at resolved
    · cases resolved
      cases calls
      rfl
    · cases resolved
  · cases resolved

theorem comptimeTarget_gate (calls : comptimeTarget sema expr = .ok (some target)) : target.route.gate = .none := by
  cases expr with
  | call name callable args =>
    obtain ⟨_, resolved, same⟩ := map_eq_ok.mp calls
    cases same
    exact resolveComptimeCall_gate resolved
  | methodCall receiver method args =>
    obtain ⟨_, -, calls⟩ := bind_eq_ok.mp calls
    obtain ⟨_, resolved, same⟩ := map_eq_ok.mp calls
    exact resolveComptimeMethod_gate resolved same
  | _ => cases calls

theorem callsAt_comptime_gate (calls : CallsAt sema .comptime expr path target) : target.route.gate = .none := by
  induction path generalizing expr with
  | nil => exact comptimeTarget_gate calls
  | cons index path ih =>
    have inside : expr.modeInside .comptime = .comptime := by cases expr <;> rfl
    simp only [CallsAt, inside] at calls
    cases found : expr.children[index]? with
    | none =>
      rw [found] at calls
      exact calls.elim
    | some child =>
      rw [found] at calls
      exact ih calls

theorem guarded_comptime (body : Expr) (result : Ty → Except SemaError Ty) :
    Guarded sema depth (.comptime body result) := by
  intro path _ calls guarded _
  cases path with
  | nil =>
    cases calls
  | cons index path =>
    simp only [CallsAt, Expr.modeInside] at calls
    cases found : (Expr.comptime body result).children[index]? with
    | none =>
      rw [found] at calls
      exact calls.elim
    | some child =>
      rw [found] at calls
      exact absurd (callsAt_comptime_gate calls) guarded

theorem resolveIndex_returnType {vec : PointeeId} {returnType : Ty}
    (resolved : sema.resolveIndex vec method returnType = .ok target) :
    target.returnType = returnType := by
  obtain ⟨_, -, rfl⟩ := map_eq_ok.mp resolved
  rfl

mutual

theorem guarded_of_analyzeInst {depth : Nat} {ty : Ty} (expr : Expr)
    (accepted : (analyzeInst sema expr).result depth = .ok ty) :
    typeOf sema expr = .ok ty ∧ Guarded sema depth expr := by
  match expr with
  | .plain parts result =>
    rw [analyzeInst] at accepted
    obtain ⟨tys, analyzed, accepted⟩ := result_bind_ok (restores_analyzeInsts parts) accepted
    obtain ⟨typed, guarded⟩ := guardedAll_of_analyzeInsts parts analyzed
    rw [typeOf, typed]
    exact ⟨accepted, guarded_of_operands nofun rfl rfl guarded⟩
  | .checked body =>
    rw [analyzeInst, result_bracket] at accepted
    rw [typeOf]
    exact ⟨(guarded_of_analyzeInst body accepted).1, guarded_checked body⟩
  | .comptime body result =>
    rw [analyzeInst] at accepted
    obtain ⟨bodyTy, evaluated, accepted⟩ := result_bind_ok (restores_fromExcept _) accepted
    rw [typeOf, show evaluateComptimeInst sema body = .ok bodyTy from evaluated]
    exact ⟨accepted, guarded_comptime body result⟩
  | .call _ _ args | .intrinsic _ args =>
    rw [analyzeInst] at accepted
    obtain ⟨target, resolved, accepted⟩ := result_bind_ok (restores_fromExcept _) accepted
    rw [result_fromExcept] at resolved
    obtain ⟨typed, passed, tys, analyzed⟩ := emit_ok (restores_analyzeInsts args) accepted
    obtain ⟨-, guarded⟩ := guardedAll_of_analyzeInsts args analyzed
    rw [typeOf, resolved]
    refine ⟨congrArg Except.ok typed, guarded_of_children nofun rfl ?_ guarded⟩
    intro other calls
    rw [runtimeTarget, resolved] at calls
    cases calls
    exact passed target rfl
  | .methodCall receiver method args =>
    rw [analyzeInst] at accepted
    obtain ⟨_, first, accepted⟩ := result_bind_ok (restores_analyzeInst receiver) accepted
    obtain ⟨dispatch, resolved, accepted⟩ := result_bind_ok (restores_fromExcept _) accepted
    rw [result_fromExcept] at resolved
    obtain ⟨receiverTyped, receiverGuarded⟩ := guarded_of_analyzeInst receiver first
    obtain ⟨typed, passed, tys, analyzed⟩ := emit_ok (restores_analyzeInsts args) accepted
    obtain ⟨-, guarded⟩ := guardedAll_of_analyzeInsts args analyzed
    refine ⟨?_, guarded_of_children nofun rfl ?_ (guardedAll_cons receiverGuarded guarded)⟩
    · rw [typeOf, receiverTyped]
      simp only [bind, Except.bind, resolved]
      exact congrArg Except.ok typed
    · intro target calls
      rw [runtimeTarget, receiverTyped] at calls
      simp only [bind, Except.bind, resolved, Except.map, Except.ok.injEq] at calls
      exact passed target calls
  | .assocFnCall typeName function args =>
    rw [analyzeInst] at accepted
    obtain ⟨dispatch, resolved, accepted⟩ := result_bind_ok (restores_fromExcept _) accepted
    rw [result_fromExcept] at resolved
    obtain ⟨typed, passed, tys, analyzed⟩ := emit_ok (restores_analyzeInsts args) accepted
    obtain ⟨-, guarded⟩ := guardedAll_of_analyzeInsts args analyzed
    rw [typeOf, resolved]
    refine ⟨congrArg Except.ok typed, guarded_of_children nofun rfl ?_ guarded⟩
    intro target calls
    rw [runtimeTarget, resolved] at calls
    simp only [Except.map, Except.ok.injEq] at calls
    exact passed target calls
  | .comparison op lhs rhs =>
    rw [analyzeInst] at accepted
    split at accepted
    · cases accepted
    obtain ⟨lhsTy, first, accepted⟩ := result_bind_ok (restores_analyzeInst lhs) accepted
    obtain ⟨lhsTyped, lhsGuarded⟩ := guarded_of_analyzeInst lhs first
    have both : ∀ {rhsTy}, (analyzeInst sema rhs).result depth = .ok rhsTy →
        GuardedAll sema depth [lhs, rhs] := fun analyzed =>
      guardedAll_cons lhsGuarded (guardedAll_cons (guarded_of_analyzeInst rhs analyzed).2 guardedAll_nil)
    have target : runtimeTarget sema (.comparison op lhs rhs) = if lhsTy.isNever || lhsTy.isError then pure none
        else sema.resolveComparison op lhsTy := by
      rw [runtimeTarget, lhsTyped]
      rfl
    rw [typeOf]
    split at accepted
    · rename_i stops
      obtain ⟨rhsTy, second, accepted⟩ := result_bind_ok (restores_analyzeInst rhs) accepted
      rw [if_pos stops] at target
      exact ⟨accepted, guarded_of_operands nofun rfl target (both second)⟩
    · rename_i goes
      rw [if_neg goes] at target
      obtain ⟨found, resolved, accepted⟩ := result_bind_ok (restores_fromExcept _) accepted
      rw [result_fromExcept] at resolved
      rw [resolved] at target
      cases found with
      | none =>
        obtain ⟨rhsTy, second, accepted⟩ := result_bind_ok (restores_analyzeInst rhs) accepted
        have isBool : ty = .bool := by
          rw [result_fromExcept, Sema.comparePlain] at accepted
          split at accepted <;> split at accepted <;> cases accepted <;> rfl
        exact ⟨congrArg Except.ok isBool.symm, guarded_of_operands nofun rfl target (both second)⟩
      | some callee =>
        obtain ⟨_, entered, accepted⟩ := result_bind_ok (restores_enter callee) accepted
        obtain ⟨rhsTy, second, accepted⟩ := result_bind_ok (restores_analyzeInst rhs) accepted
        obtain ⟨_, -, accepted⟩ := result_bind_ok (restores_fromExcept _) accepted
        have isBool : ty = .bool := by
          rw [result_fromExcept, Sema.finishOperatorDispatch] at accepted
          split at accepted
          · split at accepted <;> cases accepted
            rfl
          · split at accepted
            · split at accepted <;> cases accepted
              rfl
            · cases accepted
        refine ⟨congrArg Except.ok isBool.symm, guarded_of_children nofun rfl ?_ (both second)⟩
        intro other calls
        rw [target] at calls
        cases calls
        exact passed_of_enter entered
  | .indexGet base index =>
    rw [analyzeInst] at accepted
    obtain ⟨baseTy, first, accepted⟩ := result_bind_ok (restores_analyzeInst base) accepted
    obtain ⟨baseTyped, baseGuarded⟩ := guarded_of_analyzeInst base first
    have both : ∀ {indexTy}, (analyzeInst sema index).result depth = .ok indexTy →
        GuardedAll sema depth [base, index] := fun analyzed =>
      guardedAll_cons baseGuarded (guardedAll_cons (guarded_of_analyzeInst index analyzed).2 guardedAll_nil)
    rw [typeOf, baseTyped]
    split at accepted
    · rename_i vec
      split at accepted
      · obtain ⟨indexTy, second, accepted⟩ := result_bind_ok (restores_analyzeInst index) accepted
        obtain ⟨target, resolved, accepted⟩ := result_bind_ok (restores_fromExcept _) accepted
        rw [result_fromExcept] at resolved
        obtain ⟨_, entered, accepted⟩ := result_bind_ok (restores_enter target) accepted
        have returned : sema.vecElem vec = ty :=
          (resolveIndex_returnType resolved).symm.trans (finishCall_ok accepted)
        refine ⟨congrArg Except.ok returned, guarded_of_children nofun rfl ?_ (both second)⟩
        intro other calls
        rw [runtimeTarget, baseTyped] at calls
        simp only [bind, Except.bind, resolved, Except.map, Except.ok.injEq, Option.some.injEq] at calls
        exact calls ▸ passed_of_enter entered
      · cases accepted
    · rename_i array
      obtain ⟨indexTy, second, accepted⟩ := result_bind_ok (restores_analyzeInst index) accepted
      refine ⟨?_, guarded_of_operands nofun rfl ?_ (both second)⟩
      · rw [result_fromExcept] at accepted
        simp only [bind, Except.bind, accepted]
      · rw [runtimeTarget, baseTyped]
        simp only [bind, Except.bind]
        rfl
  | .indexSet base index value =>
    rw [analyzeInst] at accepted
    obtain ⟨baseTy, first, accepted⟩ := result_bind_ok (restores_analyzeInst base) accepted
    obtain ⟨indexTy, second, accepted⟩ := result_bind_ok (restores_analyzeInst index) accepted
    obtain ⟨_, third, accepted⟩ := result_bind_ok (restores_analyzeInst value) accepted
    obtain ⟨baseTyped, baseGuarded⟩ := guarded_of_analyzeInst base first
    have all : GuardedAll sema depth [base, index, value] :=
      guardedAll_cons baseGuarded (guardedAll_cons (guarded_of_analyzeInst index second).2
        (guardedAll_cons (guarded_of_analyzeInst value third).2 guardedAll_nil))
    rw [typeOf]
    split at accepted
    · obtain ⟨target, resolved, accepted⟩ := result_bind_ok (restores_fromExcept _) accepted
      rw [result_fromExcept] at resolved
      obtain ⟨_, entered, accepted⟩ := result_bind_ok (restores_enter target) accepted
      have returned : Ty.unit = ty :=
        (resolveIndex_returnType resolved).symm.trans (finishCall_ok accepted)
      refine ⟨congrArg Except.ok returned, guarded_of_children nofun rfl ?_ all⟩
      intro other calls
      rw [runtimeTarget, baseTyped] at calls
      simp only [bind, Except.bind, resolved, Except.map, Except.ok.injEq, Option.some.injEq] at calls
      exact calls ▸ passed_of_enter entered
    · obtain ⟨_, -, accepted⟩ := result_bind_ok (restores_fromExcept _) accepted
      refine ⟨accepted, guarded_of_operands nofun rfl ?_ all⟩
      rw [runtimeTarget, baseTyped]
      simp only [bind, Except.bind]
      rfl
  | .spawn function arg =>
    rw [analyzeInst] at accepted
    obtain ⟨target, resolved, accepted⟩ := result_bind_ok (restores_fromExcept _) accepted
    rw [result_fromExcept] at resolved
    obtain ⟨_, entered, accepted⟩ := result_bind_ok (restores_enter target) accepted
    obtain ⟨_, analyzed, accepted⟩ := result_bind_ok (restores_analyzeInst arg) accepted
    obtain ⟨returnTy, finished, accepted⟩ := result_bind_ok (restores_fromExcept _) accepted
    have returned : target.returnType = returnTy := finishCall_ok finished
    rw [typeOf, resolved]
    refine ⟨?_, guarded_of_children nofun rfl ?_
      (guardedAll_cons (guarded_of_analyzeInst arg analyzed).2 guardedAll_nil)⟩
    · rw [returned.symm] at accepted
      exact accepted
    · intro other calls
      rw [runtimeTarget, resolved] at calls
      cases calls
      exact passed_of_enter entered

theorem guardedAll_of_analyzeInsts {depth : Nat} {tys : List Ty} (exprs : List Expr)
    (accepted : (analyzeInsts sema exprs).result depth = .ok tys) :
    typesOf sema exprs = .ok tys ∧ GuardedAll sema depth exprs := by
  match exprs with
  | [] =>
    rw [analyzeInsts] at accepted
    rw [typesOf]
    exact ⟨accepted, guardedAll_nil⟩
  | expr :: exprs =>
    rw [analyzeInsts] at accepted
    obtain ⟨_, first, accepted⟩ := result_bind_ok (restores_analyzeInst expr) accepted
    obtain ⟨_, rest, accepted⟩ := result_bind_ok (restores_analyzeInsts exprs) accepted
    obtain ⟨typed, guarded⟩ := guarded_of_analyzeInst expr first
    obtain ⟨typedRest, guardedRest⟩ := guardedAll_of_analyzeInsts exprs rest
    rw [typesOf, typed, typedRest]
    exact ⟨accepted, guardedAll_cons guarded guardedRest⟩

end

theorem isUnchecked_of_reaches {callee reached : Callee} (reaches : Reaches sema callee reached)
    (unchecked : sema.isUnchecked reached = true) : sema.isUnchecked callee = true := by
  cases reaches with
  | self callee => exact unchecked
  | @implementor owner interface name required conforms =>
    obtain ⟨req, found⟩ := Option.isSome_iff_exists.mp required
    have named : req.name = name := by
      simpa using List.find?_some found
    have fits := List.all_eq_true.mp conforms req (List.mem_of_find?_eq_some found)
    rw [named] at fits
    simp only [Sema.isUnchecked, found, Option.any_some] at unchecked ⊢
    cases method : sema.methods owner name with
    | none =>
      rw [method] at fits
      cases fits
    | some info =>
      rw [method] at fits unchecked
      simp only [Bool.and_eq_true, beq_iff_eq] at fits
      rw [← fits.1.1.2]
      exact unchecked

theorem gated_iff {mode : Mode} {body : Expr} {ty : Ty} (accepted : analyzeBody sema mode body = .ok ty) :
    Gated sema mode body ↔ NoBypass sema mode body := by
  constructor
  · intro gated path target calls _ outside
    by_contra unchecked
    rw [Bool.not_eq_false] at unchecked
    rw [gated path target calls _ (.self _) unchecked] at outside
    cases outside
  · intro noBypass path target calls _ reaches unchecked
    have uncheckedHere := isUnchecked_of_reaches reaches unchecked
    by_contra outside
    rw [Bool.not_eq_true] at outside
    by_cases gate : target.route.gate = .none
    · rw [noBypass path target calls gate outside] at uncheckedHere
      cases uncheckedHere
    · cases mode with
      | comptime => exact gate (callsAt_comptime_gate calls)
      | runtime =>
        rcases (guarded_of_analyzeInst body accepted).2 path target calls gate uncheckedHere with
          deeper | inside
        · exact absurd deeper (Nat.lt_irrefl 0)
        · rw [inside] at outside
          cases outside

end Accepted

/-- In an accepted body every call that reaches an unchecked callee stands inside a checked block
exactly when no path without a gate is taken to one outside; and a checked block's permission ends
with it however its analysis ends. -/
theorem unchecked_calls_gated_iff (sema : Sema) (mode : Mode) (body : Expr) (ty : Ty)
    (accepted : analyzeBody sema mode body = .ok ty) :
    (Gated sema mode body ↔ NoBypass sema mode body) ∧ ∀ expr depth, (analyzeInst sema expr).after depth = depth :=
  ⟨gated_iff accepted, fun expr depth => restores_analyzeInst expr depth⟩

namespace GateSample

def sema : Sema where
  functions name := if name = "danger" then some ⟨0, .i32, true⟩ else none
  methods _ _ := none
  enumMethods _ method := if method = "raw" then some ⟨true, 0, 0, false, .i32, true⟩ else none
  interfaceDefs _ := []
  pointerMethods _ _ := none
  pointerFunctions _ _ := none
  sliceMethods _ _ := none
  intrinsics _ := none
  structs _ := none
  enums _ := none
  comptimeTypeVars _ := none
  typeCall _ := none
  tupleVariant _ _ := none
  vecElem _ := .unit
  vecInstance _ := none
  isCopy _ := false
  isClone _ := false
  cloneBound := false
  eqMethod := "eq"
  cmpMethod := "cmp"
  ordering := none
  indexed ty := .error (.typeMismatchWith "array" ty)
  joinHandle ty := .ok ty
  comptimeIntrinsic _ _ := .error .notConst
  admits _ _ := .ok ()

def flag : Expr := .plain [] fun _ => .ok (.enum 0)

def wrapped : Expr := .checked (.methodCall flag "raw" [])

theorem wrapped_gated : (Gated sema .runtime wrapped ↔ NoBypass sema .runtime wrapped) ∧
    ∀ expr depth, (analyzeInst sema expr).after depth = depth :=
  unchecked_calls_gated_iff sema .runtime wrapped .i32 (by with_unfolding_all rfl)

/-- `flag.raw()` and `module.danger()` outside of any checked block are accepted. -/
theorem not_all_gated : analyzeBody sema .runtime (.methodCall flag "raw" []) = .ok .i32 ∧
      ¬ Gated sema .runtime (.methodCall flag "raw" []) ∧
      analyzeBody sema .runtime (.methodCall (.plain [] fun _ => .ok (.module 0)) "danger" []) = .ok .i32 ∧
      ¬ Gated sema .runtime (.methodCall (.plain [] fun _ => .ok (.module 0)) "danger" []) := by
  refine ⟨by with_unfolding_all rfl, ?_, by with_unfolding_all rfl, ?_⟩
  · intro gated
    have calls : CallsAt sema .runtime (.methodCall flag "raw" []) []
        ⟨.enumMethod, .enumMethod 0 "raw", .i32, [0]⟩ := by with_unfolding_all rfl
    cases gated [] _ calls _ (.self _) (by with_unfolding_all rfl)
  · intro gated
    have calls : CallsAt sema .runtime (.methodCall (.plain [] fun _ => .ok (.module 0)) "danger" []) []
        ⟨.moduleMember, .function "danger", .i32, [0]⟩ := by with_unfolding_all rfl
    cases gated [] _ calls _ (.self _) (by with_unfolding_all rfl)

end GateSample

end Gruel.CheckedGate
