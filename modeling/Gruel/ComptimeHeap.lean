import Gruel.ComptimeData
import Gruel.ComptimeHeapCore

/-!
What is held refers to the cell it was stored for as long as no block clears the heap
under it.
-/

namespace Gruel

namespace ComptimeHeap

open Comptime Ensuring

theorem SameKind.refl (item : HeapItem ConstValue) : SameKind item item := by
  cases item <;> first | rfl | trivial

theorem SameKind.trans {first second third : HeapItem ConstValue} (same : SameKind first second)
    (again : SameKind second third) : SameKind first third := by
  cases first <;> cases second <;> cases third <;> first
    | exact Eq.trans same again
    | trivial

abbrev KeptHeap (before after : List (HeapItem ConstValue)) : Prop := Kept SameKind before after

theorem KeptHeap.trans {before middle after : List (HeapItem ConstValue)}
    (first : KeptHeap before middle) (second : KeptHeap middle after) : KeptHeap before after :=
  Kept.trans SameKind.trans first second

theorem ensures_bindFields (fieldIndex : Name → Option Nat) (fields : List ConstValue)
    (bindings : List (Name × Name)) (scope : Scope ConstValue) :
    Ensures (bindFields fieldIndex fields bindings scope) fun after => after.heap = scope.heap := by
  induction bindings generalizing scope with
  | nil => exact ensures_ok rfl
  | cons binding bindings ih =>
    refine ensures_bind (ensures_any _) fun index _ => ?_
    refine ensures_bind (ensures_any _) fun operand _ => ?_
    exact ih (bind scope _ operand)

theorem ensures_applyOp (fieldIndex : FieldIndex) (op : StrictOp) (target : Nat)
    (scope : Scope ConstValue) (operands : List ConstValue) :
    Ensures (applyOp fieldIndex op target scope operands) fun result =>
      KeptHeap scope.heap result.2.heap := by
  have same : KeptHeap scope.heap scope.heap := Kept.refl SameKind.refl _
  unfold applyOp
  split
  case h_1 | h_2 | h_3 =>
      exact ensures_bind (ensures_any _) fun _ _ => ensures_ok same
  case h_4 | h_5 | h_8 | h_11 | h_12 => exact ensures_ok (Kept.append SameKind.refl _ _)
  case h_6 =>
      refine ensures_bind (ensures_any _) fun _ _ => ?_
      refine ensures_bind (ensures_any _) fun _ _ => ?_
      refine ensures_bind (ensures_any _) fun _ _ => ?_
      exact ensures_bind (ensures_any _) fun _ _ => ensures_ok same
  case h_7 =>
      split
      case h_1 elems found =>
          refine ensures_bind (ensures_any _) fun _ _ => ?_
          refine ensures_bind (ensures_any _) fun _ _ => ensures_ok ?_
          exact Kept.set SameKind.refl found (by simp [SameKind])
      case h_2 | h_3 => exact ensures_error
  case h_9 =>
      refine ensures_bind (ensures_any _) ?_
      rintro ⟨structId, fields⟩ -
      dsimp only
      split
      case h_1 => exact ensures_bind (ensures_any _) fun _ _ => ensures_ok same
      case h_2 => exact ensures_error
  case h_10 =>
      split
      case h_1 structId fields found =>
          split
          case h_1 => exact ensures_ok (Kept.set SameKind.refl found rfl)
          case h_2 => exact ensures_error
      case h_2 | h_3 => exact ensures_error
  case h_13 =>
      refine ensures_bind (ensures_any _) fun _ _ => ?_
      refine ensures_bind (ensures_bindFields _ _ _ _) fun after sameHeap => ensures_ok ?_
      rw [sameHeap]
      exact same
  case h_14 => exact ensures_error

theorem ensures_matchPattern (pattern : Pattern) (scrutinee : ConstValue) (scope : Scope ConstValue) :
    Ensures (matchPattern pattern scrutinee scope) fun matched =>
      ∀ after ∈ matched, after.heap = scope.heap := by
  have here : ∀ after ∈ some scope, after.heap = scope.heap := by
    rintro after ⟨⟩
    rfl
  have nowhere : ∀ after ∈ (none : Option (Scope ConstValue)), after.heap = scope.heap :=
    fun _ absent => nomatch absent
  unfold matchPattern
  split
  case h_1 => exact ensures_ok here
  case h_2 | h_3 | h_4 | h_5 | h_6 =>
      apply ensures_ok
      split
      case isTrue => exact here
      case isFalse => exact nowhere
  case h_7 =>
      split
      case isFalse => exact ensures_ok nowhere
      case isTrue =>
          split
          case h_1 =>
              rw [bindPositions_eq]
              refine ensures_bind (ensures_bindFields _ _ _ _) fun after same => ensures_ok ?_
              rintro _ ⟨⟩
              exact same
          case h_2 | h_3 => exact ensures_error
  case h_8 =>
      split
      case isFalse => exact ensures_ok nowhere
      case isTrue =>
          split
          case h_1 =>
              rw [bindIndexed_eq]
              refine ensures_bind (ensures_bindFields _ _ _ _) fun after same => ensures_ok ?_
              rintro _ ⟨⟩
              exact same
          case h_2 | h_3 => exact ensures_error
  case h_9 | h_10 => exact ensures_error
  case h_11 => exact ensures_ok nowhere

def Keeps {α : Type} (before : Interp) (result : Except CompileError (α × Interp)) : Prop :=
  Ensures result fun after => KeptHeap before.scope.heap after.2.scope.heap

def KeepsAll (run : Comptime.Step) : Prop := ∀ expr interp, Keeps interp (run expr interp)

theorem keeps_ok {α : Type} {before after : Interp} {value : α} (same : after.scope.heap = before.scope.heap) :
    Keeps before (.ok (value, after) : Except CompileError (α × Interp)) := by
  apply ensures_ok
  rw [same]
  exact Kept.refl SameKind.refl _

theorem keeps_bind {α β : Type} {before : Interp} {first : Except CompileError (α × Interp)}
    {next : α × Interp → Except CompileError (β × Interp)} (kept : Keeps before first)
    (after : ∀ value interp, Keeps interp (next (value, interp))) :
    Keeps before (first >>= next) := by
  refine ensures_bind kept ?_
  rintro ⟨value, interp⟩ keptFirst result returned
  exact keptFirst.trans (after value interp result returned)

theorem keeps_finishCall (place : String) (value : ConstValue) (interp : Interp) :
    Keeps interp (finishCall place value interp) := by
  cases value with
  | data value => exact keeps_ok rfl
  | breakSignal | continueSignal => exact ensures_error
  | returnSignal =>
    cases returned : interp.returnValue with
    | none =>
      simp only [finishCall, returned]
      exact ensures_error
    | some value =>
      simp only [finishCall, returned]
      exact keeps_ok rfl

section Constructs

variable {run : Comptime.Step} (keeps : KeepsAll run)
include keeps

theorem keeps_evalOperands (accept : Nat → ConstValue → Except CompileError Unit)
    (operands : List Expr) (index : Nat) (interp : Interp) :
    Keeps interp (evalOperands run accept index operands interp) := by
  induction operands generalizing index interp with
  | nil => exact keeps_ok rfl
  | cons operand operands ih =>
    refine keeps_bind (keeps operand interp) fun value interp => ?_
    refine ensures_bind (ensures_any _) fun _ _ => ?_
    exact keeps_bind (ih (index + 1) interp) fun values interp => keeps_ok rfl

theorem keeps_evalStmts (stmts : List Expr) (last : ConstValue) (interp : Interp) :
    Keeps interp (evalStmts run stmts last interp) := by
  induction stmts generalizing last interp with
  | nil => exact keeps_ok rfl
  | cons stmt stmts ih =>
    refine keeps_bind (keeps stmt interp) fun value interp => ?_
    cases value with
    | data value => exact ih (.data value) interp
    | breakSignal | continueSignal | returnSignal => exact keeps_ok rfl

theorem keeps_evalArms (scrutinee : ConstValue) (arms : List (Pattern × Expr)) (interp : Interp) :
    Keeps interp (Comptime.evalArms run scrutinee arms interp) := by
  induction arms with
  | nil => exact ensures_error
  | cons arm arms ih =>
    obtain ⟨pattern, body⟩ := arm
    refine ensures_bind (ensures_matchPattern pattern scrutinee interp.scope) ?_
    intro matched same
    cases matched with
    | none => exact ih
    | some scope =>
      intro result returned
      have kept := keeps body { interp with scope := scope } result returned
      rwa [same scope rfl] at kept

theorem keeps_runBody (place : String) (body : Expr) (locals : List (Name × ConstValue))
    (typeOverrides : List (Name × Ty)) (interp : Interp) :
    Keeps interp (runBody run place body locals typeOverrides interp) := by
  have kept := keeps body { interp with
      scope := { interp.scope with locals := locals }
      typeOverrides := typeOverrides
      callDepth := interp.callDepth + 1 }
  refine ensures_bind kept ?_
  rintro ⟨value, after⟩ keptBody result returned
  exact keptBody.trans (keeps_finishCall place value { after with
      scope := { after.scope with locals := interp.scope.locals }
      typeOverrides := interp.typeOverrides
      callDepth := interp.callDepth } result returned)

theorem keeps_iteration (body again : Expr) (interp : Interp) : Keeps interp
      (run body { interp with steps := interp.steps + 1 } >>= fun
        | (.breakSignal, interp) => .ok (.data .unit, interp)
        | (_, interp) => run again interp) := by
  have kept := keeps body { interp with steps := interp.steps + 1 }
  refine ensures_bind kept ?_
  rintro ⟨value, after⟩ keptBody
  cases value with
  | breakSignal => exact ensures_ok keptBody
  | data value | continueSignal | returnSignal =>
    intro result returned
    exact keptBody.trans (keeps again after result returned)

end Constructs

variable {program : Program} {ctx : AnalysisContext} {held : Held} {name : Name}
  {result : Option ConstValue} {clears : Bool} {before after : Analysis}

variable {vars : List (Name × Held)} {start : Interp} {expr : Expr}
  {locals : List (Name × ConstValue)} {cells : List Nat}

theorem keepsAll_evaluateComptimeInst (program : Program) (fuel : Nat) :
    KeepsAll (evaluateComptimeInst program fuel) := by
  induction fuel with
  | zero => exact fun _ _ => ensures_error
  | succ fuel keeps =>
    intro expr interp
    cases expr with
    | literal value | «break» | «continue» => exact keeps_ok rfl
    | strict op operands =>
      refine ensures_bind (ensures_any _) fun target _ => ?_
      refine keeps_bind (keeps_evalOperands keeps _ _ _ interp) fun values interp => ?_
      refine ensures_bind (ensures_applyOp program.fieldIndex op target _ values) ?_
      rintro ⟨value, _⟩ kept
      exact ensures_ok kept
    | block stmts => exact keeps_evalStmts keeps stmts _ interp
    | alloc name init =>
      refine keeps_bind (keeps init interp) fun value interp => ?_
      cases name with
      | none => exact keeps_ok rfl
      | some name => exact keeps_ok rfl
    | varRef name =>
      unfold evaluateComptimeInst
      dsimp only
      split
      case h_1 => exact keeps_ok rfl
      case h_2 =>
          split
          case h_1 => exact keeps_ok rfl
          case h_2 => exact ensures_error
    | assign name value =>
      exact keeps_bind (keeps value interp) fun value interp => keeps_ok rfl
    | branch cond thenBlock elseBlock =>
      refine keeps_bind (keeps cond interp) fun condition interp => ?_
      split
      case h_1 heq =>
          cases heq
          exact keeps thenBlock _
      case h_2 heq =>
          cases heq
          cases elseBlock with
          | none => exact keeps_ok rfl
          | some elseBlock => exact keeps elseBlock _
      case h_3 => exact ensures_error
    | comptime expr => exact keeps expr interp
    | loop cond body =>
      refine keeps_bind (keeps cond interp) fun condition interp => ?_
      refine ensures_bind (ensures_any _) fun taken _ => ?_
      cases taken with
      | false => exact keeps_ok rfl
      | true =>
        rw [if_pos rfl]
        dsimp only
        split
        case isTrue => exact ensures_error
        case isFalse => exact keeps_iteration keeps body _ interp
    | infiniteLoop body =>
      unfold evaluateComptimeInst
      dsimp only
      split
      case isTrue => exact ensures_error
      case isFalse => exact keeps_iteration keeps body _ interp
    | ret value =>
      cases value with
      | none => exact keeps_ok rfl
      | some value => exact keeps_bind (keeps value interp) fun value interp => keeps_ok rfl
    | call name args =>
      unfold evaluateComptimeInst
      dsimp only
      split
      case h_1 => exact ensures_error
      case h_2 =>
          refine keeps_bind (keeps_evalOperands keeps _ _ _ interp) fun values interp => ?_
          split
          case isTrue => exact ensures_error
          case isFalse => exact keeps_runBody keeps _ _ _ _ interp
    | methodCall receiver method args =>
      refine keeps_bind (keeps receiver interp) fun self interp => ?_
      refine ensures_bind (ensures_any _) ?_
      rintro ⟨_, _⟩ -
      dsimp only
      split
      case h_1 => exact ensures_error
      case h_2 =>
          refine keeps_bind (keeps_evalOperands keeps _ _ _ interp) fun values interp => ?_
          dsimp only
          split
          case isTrue => exact ensures_error
          case isFalse => exact keeps_runBody keeps _ _ _ _ interp
    | matchOn scrutinee arms =>
      exact keeps_bind (keeps scrutinee interp) fun scrutinee interp =>
        keeps_evalArms keeps scrutinee arms interp
    | unsupported => exact ensures_error

variable {p : Held → Prop}

structure HoldsIn (p : Held → Prop) (ctx : AnalysisContext) : Prop where
  vars : ∀ entry ∈ ctx.comptimeValueVars, p entry.2
  arms : ∀ entry ∈ ctx.unrollArmBindings, p entry.2.2
  previous : ∀ binding ∈ ctx.bindings, ∀ held ∈ binding.previous, p held
  remaining : ∀ binding ∈ ctx.bindings, ∀ held ∈ binding.remaining, p held

theorem holdsIn_iff : (∀ held ∈ ctx.held, p held) ↔ HoldsIn p ctx := by
  constructor
  · intro holds
    constructor
    case vars =>
        intro entry member
        refine holds _ (List.mem_append_left _ (List.mem_append_left _ ?_))
        exact List.mem_map_of_mem member
    case arms =>
        intro entry member
        refine holds _ (List.mem_append_left _ (List.mem_append_right _ ?_))
        exact List.mem_map.mpr ⟨entry, member, rfl⟩
    case previous =>
        intro binding member held kept
        refine holds held (List.mem_append_right _ (List.mem_flatMap.mpr ⟨binding, member, ?_⟩))
        exact List.mem_append_left _ (Option.mem_toList.mpr kept)
    case remaining =>
        intro binding member held kept
        refine holds held (List.mem_append_right _ (List.mem_flatMap.mpr ⟨binding, member, ?_⟩))
        exact List.mem_append_right _ kept
  · intro holds held member
    rcases List.mem_append.mp member with inside | inside
    · rcases List.mem_append.mp inside with inside | inside
      · obtain ⟨entry, stored, rfl⟩ := List.mem_map.mp inside
        exact holds.vars entry stored
      · obtain ⟨entry, stored, rfl⟩ := List.mem_map.mp inside
        exact holds.arms entry stored
    · obtain ⟨binding, stored, inside⟩ := List.mem_flatMap.mp inside
      rcases List.mem_append.mp inside with kept | kept
      · exact holds.previous binding stored held (Option.mem_toList.mp kept)
      · exact holds.remaining binding stored held kept

theorem holds_insertVar (new : p held) (old : ∀ entry ∈ vars, p entry.2) :
    ∀ entry ∈ insertVar name held vars, p entry.2 := by
  intro entry member
  rcases List.mem_cons.mp member with rfl | inside
  · exact new
  · exact old entry (List.mem_filter.mp inside).1

theorem holds_restoreVar {previous : Option Held} (kept : ∀ held ∈ previous, p held)
    (old : ∀ entry ∈ vars, p entry.2) : ∀ entry ∈ restoreVar name previous vars, p entry.2 := by
  cases previous with
  | none => exact fun entry member => old entry (List.mem_filter.mp member).1
  | some held => exact holds_insertVar (kept held rfl) old

theorem HoldsIn.bindVar (holds : HoldsIn p ctx) {remaining : List Held} (new : p held)
    (later : ∀ held ∈ remaining, p held) :
    HoldsIn p (ctx.bindVar name held remaining) where
  vars := holds_insertVar new holds.vars
  arms := holds.arms
  previous := by
    intro binding member held kept
    rcases List.mem_cons.mp member with rfl | outer
    · obtain ⟨entry, found, rfl⟩ := Option.map_eq_some_iff.mp kept
      exact holds.vars entry (List.mem_of_find?_eq_some found)
    · exact holds.previous binding outer held kept
  remaining := by
    intro binding member held kept
    rcases List.mem_cons.mp member with rfl | outer
    · exact later held kept
    · exact holds.remaining binding outer held kept

theorem holds_analysis_iff {analysis : Analysis} : (∀ held ∈ analysis.held, p held) ↔
    (∀ entry ∈ analysis.sema.capturedValues, ∀ var ∈ entry.2, p var.2) ∧
      ∀ ctx ∈ analysis.contexts, HoldsIn p ctx := by
  constructor
  · intro holds
    constructor
    · intro entry member var inside
      refine holds _ (List.mem_append_left _ (List.mem_flatMap.mpr ⟨entry, member, ?_⟩))
      exact List.mem_map_of_mem inside
    · intro ctx member
      refine holdsIn_iff.1 fun held inside => holds held (List.mem_append_right _ ?_)
      exact List.mem_flatMap.mpr ⟨ctx, member, inside⟩
  · rintro ⟨captured, contexts⟩ held member
    rcases List.mem_append.mp member with inside | inside
    · obtain ⟨entry, stored, inside⟩ := List.mem_flatMap.mp inside
      obtain ⟨var, stored', rfl⟩ := List.mem_map.mp inside
      exact captured entry stored var stored'
    · obtain ⟨ctx, stored, inside⟩ := List.mem_flatMap.mp inside
      exact holdsIn_iff.2 (contexts ctx stored) held inside

theorem mem_of_mem_goesOn {contexts : List AnalysisContext}
    (member : ctx ∈ goesOn result contexts) : ctx ∈ contexts := by
  unfold goesOn at member
  split at member
  case h_1 => exact member
  case h_2 => exact List.mem_of_mem_tail member

theorem Evaluates.captured {sema after : Sema} (evaluates : Evaluates program start expr locals sema result after) :
    after.capturedValues = sema.capturedValues := by
  cases evaluates with
  | returns => rfl
  | fails => rfl

theorem Step.holds (step : Step program clears before after) (old : ∀ held ∈ before.held, p held)
    (new : ∀ value, p (after.sema.hold value)) : ∀ held ∈ after.held, p held := by
  rw [holds_analysis_iff] at old ⊢
  obtain ⟨captured, contexts⟩ := old
  cases step with
  | enterFunction sema outer values =>
    refine ⟨captured, List.forall_mem_cons.mpr ⟨?_, contexts⟩⟩
    constructor
    case vars =>
        intro entry member
        obtain ⟨value, -, rfl⟩ := List.mem_map.mp member
        exact new value.2
    all_goals exact fun _ absent => nomatch absent
  | enterMethod sema outer stored =>
    refine ⟨captured, List.forall_mem_cons.mpr ⟨?_, contexts⟩⟩
    constructor
    case vars => exact captured _ stored
    all_goals exact fun _ absent => nomatch absent
  | leaveBody sema ctx outer =>
    exact ⟨captured, fun other member => contexts other (.tail _ member)⟩
  | comptimeBlock evaluates | comptimeExpr evaluates =>
    rw [evaluates.captured]
    exact ⟨captured, fun other member => contexts other (mem_of_mem_goesOn member)⟩
  | capture sema outer typeId values =>
    refine ⟨List.forall_mem_cons.mpr ⟨?_, captured⟩, contexts⟩
    intro entry member
    obtain ⟨value, -, rfl⟩ := List.mem_map.mp member
    exact new value.2
  | unrollFor evaluates array =>
    rw [evaluates.captured]
    obtain ⟨own, outer⟩ := List.forall_mem_cons.mp contexts
    refine ⟨captured, List.forall_mem_cons.mpr ⟨own.bindVar (new _) ?_, outer⟩⟩
    intro held member
    obtain ⟨value, -, rfl⟩ := List.mem_map.mp member
    exact new value
  | nextIteration sema vars arms name previous held remaining bindings outerContexts =>
    obtain ⟨own, outer⟩ := List.forall_mem_cons.mp contexts
    obtain ⟨keptFirst, keptOuter⟩ := List.forall_mem_cons.mp own.previous
    obtain ⟨laterFirst, laterOuter⟩ := List.forall_mem_cons.mp own.remaining
    obtain ⟨next, later⟩ := List.forall_mem_cons.mp laterFirst
    refine ⟨captured, List.forall_mem_cons.mpr ⟨?_, outer⟩⟩
    constructor
    case vars => exact holds_insertVar next (holds_restoreVar keptFirst own.vars)
    case arms => exact own.arms
    case previous => exact List.forall_mem_cons.mpr ⟨keptFirst, keptOuter⟩
    case remaining => exact List.forall_mem_cons.mpr ⟨later, laterOuter⟩
  | endBinding sema vars arms name previous bindings outerContexts =>
    obtain ⟨own, outer⟩ := List.forall_mem_cons.mp contexts
    obtain ⟨keptFirst, keptOuter⟩ := List.forall_mem_cons.mp own.previous
    obtain ⟨-, laterOuter⟩ := List.forall_mem_cons.mp own.remaining
    refine ⟨captured, List.forall_mem_cons.mpr ⟨?_, outer⟩⟩
    exact ⟨holds_restoreVar keptFirst own.vars, own.arms, keptOuter, laterOuter⟩
  | expandArm evaluates array =>
    rw [evaluates.captured]
    obtain ⟨own, outer⟩ := List.forall_mem_cons.mp contexts
    refine ⟨captured, List.forall_mem_cons.mpr ⟨?_, outer⟩⟩
    refine ⟨own.vars, ?_, own.previous, own.remaining⟩
    intro entry member
    rcases List.mem_append.mp member with bound | kept
    · obtain ⟨⟨held, _⟩, inside, rfl⟩ := List.mem_map.mp bound
      obtain ⟨value, -, rfl⟩ := List.mem_map.mp (List.fst_mem_of_mem_zipIdx inside)
      exact new value
    · exact own.arms entry (List.mem_filter.mp kept).1
  | enterArm sema outerContexts bound =>
    obtain ⟨own, outer⟩ := List.forall_mem_cons.mp contexts
    refine ⟨captured, List.forall_mem_cons.mpr ⟨own.bindVar (own.arms _ bound) ?_, outer⟩⟩
    exact fun _ absent => nomatch absent

structure Marked (sema : Sema) : Prop where
  length : sema.cells.length = sema.comptimeHeap.length
  nodup : sema.cells.Nodup
  made : ∀ cell ∈ sema.cells, cell < sema.made

theorem Marked.clear (sema : Sema) : Marked sema.clear where
  length := rfl
  nodup := List.nodup_nil
  made := fun _ absent => nomatch absent

theorem Evaluates.kept {sema after : Sema} (evaluates : Evaluates program start expr locals sema result after) :
    ∃ heap, KeptHeap sema.comptimeHeap heap ∧ after = sema.regrown heap := by
  cases evaluates with
  | returns returned => exact ⟨_, keepsAll_evaluateComptimeInst program _ _ _ _ returned, rfl⟩
  | fails failed kept => exact ⟨_, kept, rfl⟩

theorem regrown_self (sema : Sema) : sema.regrown sema.comptimeHeap = sema := by
  simp [Sema.regrown]

theorem Step.sema (step : Step program clears before after) : ∃ heap captured,
      KeptHeap (if clears then before.sema.clear else before.sema).comptimeHeap heap ∧
      after.sema = { (if clears then before.sema.clear else before.sema).regrown heap with
        capturedValues := captured } := by
  have still : ∀ sema : Sema, KeptHeap sema.comptimeHeap sema.comptimeHeap :=
    fun _ => Kept.refl SameKind.refl _
  cases step with
  | comptimeBlock evaluates | comptimeExpr evaluates | unrollFor evaluates
  | expandArm evaluates =>
    obtain ⟨heap, kept, rfl⟩ := evaluates.kept
    exact ⟨heap, _, kept, rfl⟩
  | capture sema contexts typeId values =>
    let captured := values.map fun entry => (entry.1, sema.hold entry.2)
    refine ⟨sema.comptimeHeap, (typeId, captured) :: sema.capturedValues, still sema, ?_⟩
    rw [if_neg Bool.false_ne_true, regrown_self]
  | enterFunction sema | enterMethod sema | leaveBody sema | nextIteration sema
  | endBinding sema | enterArm sema =>
    refine ⟨sema.comptimeHeap, sema.capturedValues, still sema, ?_⟩
    rw [if_neg Bool.false_ne_true, regrown_self]

theorem Denotes.hold (sema : Sema) (value : ConstValue) : Denotes sema.cells (sema.hold value) := by
  intro heapIdx cell place marked
  have found : (value.heapIdx.bind fun heapIdx => sema.cells[heapIdx]?) = some cell := marked
  have here : value.heapIdx = some heapIdx := place
  rwa [here, Option.bind_some] at found

theorem Denotes.append {more : List Nat} (denotes : Denotes cells held) : Denotes (cells ++ more) held := by
  intro heapIdx cell place marked
  have found := denotes heapIdx cell place marked
  rw [List.getElem?_append_left (List.getElem?_eq_some_iff.mp found).1]
  exact found

/-- `f.name` -/
def fieldName : Expr := .strict (.fieldGet 1) [.varRef 2]

def describedHeap : List (HeapItem ConstValue) :=
  [.string "a", .struct 0 [.data (.comptimeStr 0)], .string "b",
    .struct 0 [.data (.comptimeStr 2)], .array [.data (.struct 1), .data (.struct 3)]]

def unrolling : Analysis where
  sema := { comptimeHeap := describedHeap, cells := [0, 1, 2, 3, 4], made := 5 }
  contexts :=
    [{ comptimeValueVars := [(2, ⟨.data (.struct 1), some 1⟩)]
       bindings := [⟨2, none, [⟨.data (.struct 3), some 3⟩]⟩] }]

def cleared : Analysis := { unrolling with sema := { made := 5 } }

end ComptimeHeap

end Gruel
