import Gruel.NeverCore
import Gruel.Lib.Surviving

/-!
Soundness of the never type: what of an accepted body can complete although it
has that type, and that nothing else does.
-/

namespace Gruel.Never

open EventRuns Surviving

def Source (completion : Completion) : Prop := completion.ty = .never ∧ match completion.how with
    | .plain | .loaded => False
    | .reachedEnd inner | .returned inner => inner ≠ .never
    | .neverConst | .leftByBreak | .unfilled | .given | .carriedOut | .foreign => True

def Completion.Sound (completion : Completion) : Prop := completion.ty ≠ .never

section Types

inductive Typed : Air → Prop
  | unitConst (ty) : Typed (.unitConst ty)
  | boolConst : Typed .boolConst
  | load (variable_ ty) : Typed (.load variable_ ty)
  | alloc (id) {init} (_ : Typed init) : Typed (.alloc id init)
  | store {value} (_ : Typed value) : Typed (.store value)
  | operation {operands} (ty) (_ : ∀ operand ∈ operands, Typed operand) : Typed (.operation operands ty)
  | logic {lhs rhs} (_ : Typed lhs) (_ : Typed rhs) : Typed (.logic lhs rhs)
  | call (name) {args} (ty) (_ : ∀ arg ∈ args, Typed arg) : Typed (.call name args ty)
  | panicWith {message} (_ : Typed message) : Typed (.panicWith message)
  | block {statements value} (_ : ∀ statement ∈ statements, Typed statement)
      (_ : Typed value) : Typed (.block statements value)
  | branch {cond thenValue elseValue ty} (_ : Typed cond) (_ : Typed thenValue)
      (_ : Typed elseValue) (thenNever : ty = .never → thenValue.ty = .never)
      (elseNever : ty = .never → elseValue.ty = .never) :
      Typed (.branch cond thenValue elseValue ty)
  | branchOnly {cond thenValue} (_ : Typed cond) (_ : Typed thenValue) : Typed (.branchOnly cond thenValue)
  | loop {cond body} (_ : Typed cond) (_ : Typed body) : Typed (.loop cond body)
  | infiniteLoop {body} (_ : Typed body) : Typed (.infiniteLoop body)
  | matchOn {scrutinee arms ty} (_ : Typed scrutinee) (_ : ∀ arm ∈ arms, Typed arm)
      (armsNever : ty = .never → ∀ arm ∈ arms, arm.ty = .never) : Typed (.matchOn scrutinee arms ty)
  | breakLoop : Typed .breakLoop
  | continueLoop : Typed .continueLoop
  | ret {value} (_ : Typed value) : Typed (.ret value)
  | retUnit : Typed .retUnit

theorem isNever_iff {ty : Ty} : ty.isNever = true ↔ ty = .never := by
  simp [Ty.isNever]

theorem branchType_never {thenType elseType : Ty} (checked : branchType thenType elseType = .ok .never) :
    thenType = .never ∧ elseType = .never := by
  unfold branchType at checked
  split at checked
  · exact ⟨isNever_iff.1 ‹_›, isNever_iff.1 ‹_›⟩
  · simp_all [Ty.isNever]
  · cases checked
    simp_all [Ty.isNever]
  · split at checked
    · cases checked
    · simp_all [Ty.isNever]

theorem armType_never {result : Option Ty} {bodyType : Ty} (checked : armType result bodyType = .ok .never) :
    bodyType = .never ∧ ∀ previous ∈ result, previous = .never := by
  cases result with
  | none =>
    cases checked
    exact ⟨rfl, nofun⟩
  | some previous =>
    simp only [armType, isNever_iff] at checked
    by_cases previousNever : previous = .never
    · simp only [previousNever, if_true, Except.ok.injEq] at checked
      refine ⟨checked, ?_⟩
      rintro _ ⟨⟩
      exact previousNever
    · rw [if_neg previousNever] at checked
      split at checked
      · cases checked
        exact absurd rfl previousNever
      · split at checked
        · cases checked
        · cases checked
          exact absurd rfl previousNever

theorem armsType_never {arms : List Air} {result : Option Ty} (checked : armsType result arms = .ok (some .never)) :
    (∀ arm ∈ arms, arm.ty = .never) ∧ ∀ previous ∈ result, previous = .never := by
  induction arms generalizing result with
  | nil =>
    cases checked
    refine ⟨nofun, ?_⟩
    rintro _ ⟨⟩
    rfl
  | cons arm arms ih =>
    obtain ⟨next, first, rest⟩ := bind_eq_ok.mp checked
    obtain ⟨armsNever, nextNever⟩ := ih rest
    rw [nextNever next rfl] at first
    obtain ⟨armNever, previousNever⟩ := armType_never first
    exact ⟨List.forall_mem_cons.mpr ⟨armNever, armsNever⟩, previousNever⟩

variable {program : Program}

mutual

theorem typed_of_analyzeInst {ctx : AnalysisContext} (expr : Expr) {air : Air}
    (analyzed : analyzeInst program ctx expr = .ok air) : Typed air := by
  match expr with
  | .unitConst | .panic =>
    cases analyzed
    exact .unitConst _
  | .boolConst =>
    cases analyzed
    exact .boolConst
  | .varRef _ _ =>
    cases analyzed
    exact .load _ _
  | .alloc _ init =>
    obtain ⟨_, first, result⟩ := bind_eq_ok.mp analyzed
    cases result
    exact .alloc _ (typed_of_analyzeInst init first)
  | .assign value =>
    obtain ⟨_, first, result⟩ := bind_eq_ok.mp analyzed
    cases result
    exact .store (typed_of_analyzeInst value first)
  | .operation operands _ =>
    obtain ⟨_, first, result⟩ := bind_eq_ok.mp analyzed
    cases result
    exact .operation _ (typed_of_analyzeInsts operands first)
  | .logical lhs rhs =>
    obtain ⟨_, first, _, second, result⟩ := bind_bind_eq_ok.mp analyzed
    cases result
    exact .logic (typed_of_analyzeInst lhs first) (typed_of_analyzeInst rhs second)
  | .call name args =>
    simp only [analyzeInst] at analyzed
    split at analyzed
    · cases analyzed
    · split at analyzed
      · cases analyzed
      · obtain ⟨_, first, result⟩ := bind_eq_ok.mp analyzed
        cases result
        exact .call _ _ (typed_of_analyzeInsts args first)
  | .panicWith message =>
    obtain ⟨_, first, result⟩ := bind_eq_ok.mp analyzed
    cases result
    exact .panicWith (typed_of_analyzeInst message first)
  | .block statements value =>
    obtain ⟨_, first, _, second, result⟩ := bind_bind_eq_ok.mp analyzed
    cases result
    exact .block (typed_of_analyzeInsts statements first) (typed_of_analyzeInst value second)
  | .branch cond thenBlock elseBlock =>
    obtain ⟨_, first, _, second, rest⟩ := bind_bind_eq_ok.mp analyzed
    obtain ⟨_, third, _, checked, result⟩ := bind_bind_eq_ok.mp rest
    cases result
    refine .branch (typed_of_analyzeInst cond first) (typed_of_analyzeInst thenBlock second)
      (typed_of_analyzeInst elseBlock third) ?_ ?_
    · rintro rfl
      exact (branchType_never checked).1
    · rintro rfl
      exact (branchType_never checked).2
  | .branchOnly cond thenBlock =>
    obtain ⟨_, first, _, second, rest⟩ := bind_bind_eq_ok.mp analyzed
    split at rest
    · cases rest
      exact .branchOnly (typed_of_analyzeInst cond first) (typed_of_analyzeInst thenBlock second)
    · cases rest
  | .inner body =>
    exact typed_of_analyzeInst body analyzed
  | .whileLoop cond body =>
    obtain ⟨_, first, _, second, result⟩ := bind_bind_eq_ok.mp analyzed
    cases result
    exact .loop (typed_of_analyzeInst cond first) (typed_of_analyzeInst body second)
  | .forLoop _ iterable body =>
    obtain ⟨_, first, _, second, result⟩ := bind_bind_eq_ok.mp analyzed
    cases result
    refine .block ?_ (.loop .boolConst (typed_of_analyzeInst body second))
    intro _ member
    rw [List.mem_singleton.mp member]
    exact .alloc _ (typed_of_analyzeInst iterable first)
  | .infiniteLoop body =>
    obtain ⟨_, first, result⟩ := bind_eq_ok.mp analyzed
    cases result
    exact .infiniteLoop (typed_of_analyzeInst body first)
  | .matchOn scrutinee arms =>
    obtain ⟨_, first, rest⟩ := bind_eq_ok.mp analyzed
    have typed := typed_of_analyzeInst scrutinee first
    split at rest
    · cases rest
    · obtain ⟨_, second, rest⟩ := bind_eq_ok.mp rest
      have typedArms := typed_of_analyzeInsts arms second
      split at rest
      · split at rest
        · cases rest
          exact .matchOn typed nofun fun _ => nofun
        · cases rest
      · obtain ⟨ty, checked, result⟩ := bind_eq_ok.mp rest
        cases result
        refine .matchOn typed typedArms ?_
        cases ty with
        | none => exact nofun
        | some ty =>
          rintro rfl
          exact (armsType_never checked).1
  | .breakLoop =>
    simp only [analyzeInst] at analyzed
    split at analyzed
    · cases analyzed
    · split at analyzed
      · cases analyzed
      · cases analyzed
        exact .breakLoop
  | .continueLoop =>
    simp only [analyzeInst] at analyzed
    split at analyzed
    · cases analyzed
    · cases analyzed
      exact .continueLoop
  | .ret value =>
    obtain ⟨_, first, rest⟩ := bind_eq_ok.mp analyzed
    split at rest
    · cases rest
    · cases rest
      exact .ret (typed_of_analyzeInst value first)
  | .retUnit =>
    simp only [analyzeInst] at analyzed
    split at analyzed
    · cases analyzed
    · cases analyzed
      exact .retUnit

theorem typed_of_analyzeInsts {ctx : AnalysisContext} (exprs : List Expr) {airs : List Air}
    (analyzed : analyzeInsts program ctx exprs = .ok airs) : ∀ air ∈ airs, Typed air := by
  match exprs with
  | [] =>
    cases analyzed
    exact nofun
  | expr :: exprs =>
    obtain ⟨_, first, _, second, result⟩ := bind_bind_eq_ok.mp analyzed
    cases result
    exact List.forall_mem_cons.mpr ⟨typed_of_analyzeInst expr first, typed_of_analyzeInsts exprs second⟩

end

theorem typed_of_analyzeFunction {returnType : Ty} {body : Expr} {air : Air}
    (analyzed : analyzeFunction program returnType body = .ok air) : Typed air := by
  obtain ⟨_, first, rest⟩ := bind_eq_ok.mp analyzed
  split at rest
  · cases rest
    exact typed_of_analyzeInst body first
  · cases rest

end Types

section Runs

def NoNever (state : State) : Prop := ∀ entry ∈ state.filled, entry.2 ≠ .never

def ExitSound : Exit → Prop
  | .returned ty => ty ≠ .never
  | .broke | .continued | .trapped | .spent => True

abbrev KeepsSound (completes : Prop) (action : Action) : Prop :=
  EventRuns.Keeps NoNever (fun completion => ¬Source completion) Completion.Sound ExitSound completes action

variable {choose : Nat → Nat} {completes : Prop}

theorem keepsSound_plain {ty : Ty} (sound : ty ≠ .never) : KeepsSound (ty ≠ .never) (complete ty .plain) :=
  keeps_log fun _ => sound

theorem keepsSound_unit : KeepsSound (Ty.unit ≠ .never) (complete .unit .plain) :=
  keepsSound_plain nofun

theorem keepsSound_bool : KeepsSound (Ty.bool ≠ .never) (complete .bool .plain) :=
  keepsSound_plain nofun

theorem keepsSound_source {ty : Ty} {how : How}
    (source : ty = .never → Source ⟨ty, how⟩) : KeepsSound (ty ≠ .never) (complete ty how) :=
  keeps_log fun notSource never => notSource (source never)

theorem keepsSound_stop {reason : Exit} (sound : ExitSound reason) : KeepsSound completes (stop reason) :=
  (keeps_stop sound).mono False.elim

theorem keepsSound_decision {next : Nat → Action} (keeps : ∀ answer, KeepsSound completes (next answer)) :
    KeepsSound completes (ask (decision choose) next) :=
  keeps_ask (fun _ => True) (fun _ holds => ⟨trivial, holds⟩) fun answer _ => keeps answer

theorem keepsSound_load (variable_ : Variable) (ty : Ty) :
    KeepsSound (ty ≠ .never) (ask (howLoaded variable_ ty) fun how => complete ty how) := by
  refine keeps_ask (fun how => ty = .never → Source ⟨ty, how⟩) ?_ ?_
  · intro state holds
    cases variable_ with
    | given => exact ⟨fun never => ⟨never, trivial⟩, holds⟩
    | stored id =>
      refine ⟨?_, holds⟩
      intro never
      by_cases filled : (id, ty) ∈ state.filled
      · exact absurd never (holds _ filled)
      · simp only [howLoaded, if_neg filled]
        exact ⟨never, trivial⟩
  · exact fun _ source => keepsSound_source source

variable {callee : String → Ty → Action} {limit : Nat}

theorem keepsSound_execAll {airs : List Air}
    (keeps : ∀ air ∈ airs, KeepsSound (air.ty ≠ .never) (exec choose callee limit air)) :
    KeepsSound True (execAll choose callee limit airs) := by
  induction airs with
  | nil => exact keeps_skip
  | cons air airs ih =>
    refine (keeps air (.head _)).seq ?_
    exact fun _ => ih fun other member => keeps other (.tail _ member)

theorem keepsSound_execArm {ty : Ty} {arms : List Air}
    (keeps : ∀ arm ∈ arms, KeepsSound (ty ≠ .never) (exec choose callee limit arm))
    (index : Nat) : KeepsSound (ty ≠ .never) (execArm choose callee limit arms index) := by
  induction arms generalizing index with
  | nil => exact keepsSound_stop trivial
  | cons arm arms ih =>
    rw [execArm]
    split
    · exact keeps arm (.head _)
    · exact ih (fun other member => keeps other (.tail _ member)) _

theorem keepsSound_rounds {body : Action} (keeps : KeepsSound completes body) :
    KeepsSound True (rounds body .spent afterLoopBody limit) := by
  refine keeps.rounds trivial ?_ limit
  intro outcome _ ends keepsAgain
  match outcome with
  | .done | .exit .continued => exact keepsAgain
  | .exit .broke => exact keeps_skip
  | .exit (.returned _) | .exit .trapped | .exit .spent =>
    exact keepsSound_stop ends

theorem keepsSound_exec (calls : ∀ name ty, KeepsSound (ty ≠ .never) (callee name ty)) {air : Air}
    (typed : Typed air) : KeepsSound (air.ty ≠ .never) (exec choose callee limit air) := by
  induction typed with
  | unitConst ty =>
    exact keepsSound_source fun never => ⟨never, trivial⟩
  | boolConst =>
    rw [exec]
    exact keepsSound_bool
  | load variable_ ty =>
    rw [exec]
    exact keepsSound_load variable_ ty
  | alloc id _ ih =>
    rw [exec]
    refine ih.seq ?_
    intro inhabited
    refine (keeps_modify ?_).seq fun _ => keepsSound_unit
    intro _ holds
    exact List.forall_mem_cons.mpr ⟨inhabited, holds⟩
  | store _ ih =>
    rw [exec]
    exact ih.seq fun _ => keepsSound_unit
  | operation ty _ ih =>
    rw [exec]
    refine (keepsSound_execAll ih).seq fun _ => keepsSound_decision ?_
    intro _
    split
    · exact keepsSound_stop trivial
    · exact keepsSound_source fun never => ⟨never, trivial⟩
  | logic _ _ ihLhs ihRhs =>
    rw [exec]
    refine ihLhs.seq fun _ => keepsSound_decision ?_
    intro _
    split
    · exact keepsSound_bool
    · exact ihRhs.seq fun _ => keepsSound_bool
  | call name ty _ ih =>
    rw [exec]
    exact (keepsSound_execAll ih).seq fun _ => calls name ty
  | panicWith _ ih =>
    rw [exec]
    exact ih.seq fun _ => keepsSound_stop trivial
  | block _ _ ihStatements ihValue =>
    rw [exec]
    refine (keepsSound_execAll ihStatements).seq fun _ => ihValue.seq ?_
    exact keepsSound_plain
  | branch _ _ _ thenNever elseNever ihCond ihThen ihElse =>
    rw [exec]
    refine ihCond.seq fun _ => keepsSound_decision ?_
    intro test
    split
    · refine ihElse.seq ?_
      intro inhabited
      exact keepsSound_plain fun never => inhabited (elseNever never)
    · refine ihThen.seq ?_
      intro inhabited
      exact keepsSound_plain fun never => inhabited (thenNever never)
  | branchOnly _ _ ihCond ihThen =>
    rw [exec]
    refine ihCond.seq fun _ => keepsSound_decision ?_
    intro test
    split
    · exact keepsSound_unit
    · exact ihThen.seq fun _ => keepsSound_unit
  | @loop cond body _ _ ihCond ihBody =>
    rw [exec]
    have round : KeepsSound (body.ty ≠ .never) (seq (exec choose callee limit cond) (ask (decision choose) fun test =>
          if test = 0 then stop .broke else exec choose callee limit body)) := by
      refine ihCond.seq fun _ => keepsSound_decision ?_
      intro test
      split
      · exact keepsSound_stop trivial
      · exact ihBody
    exact (keepsSound_rounds round).seq fun _ => keepsSound_unit
  | infiniteLoop _ ih =>
    rw [exec]
    refine (keepsSound_rounds ih).seq fun _ => ?_
    exact keepsSound_source fun never => ⟨never, trivial⟩
  | matchOn _ _ armsNever ihScrutinee ihArms =>
    rw [exec]
    refine ihScrutinee.seq fun _ => keepsSound_decision ?_
    intro arm
    refine (keepsSound_execArm ?_ arm).seq keepsSound_plain
    intro arm member
    refine (ihArms arm member).mono ?_
    exact fun inhabited never => inhabited (armsNever never arm member)
  | breakLoop | continueLoop =>
    rw [exec]
    exact keepsSound_stop trivial
  | ret _ ih =>
    rw [exec]
    refine ih.seq ?_
    intro inhabited
    exact keepsSound_stop inhabited
  | retUnit =>
    rw [exec]
    have inhabited : ExitSound (.returned .unit) := nofun
    exact keepsSound_stop inhabited

variable {program : Program}

theorem keepsSound_afterBody {bodyType ty : Ty} {outcome : EventRuns.Outcome Exit}
    (ends : Ends ExitSound (bodyType ≠ .never) outcome) :
    KeepsSound (ty ≠ .never) (afterBody bodyType ty outcome) := by
  match outcome with
  | .done | .exit (.returned _) => exact keepsSound_source fun never => ⟨never, ends⟩
  | .exit .broke | .exit .continued | .exit .trapped | .exit .spent =>
    exact keepsSound_stop trivial

theorem keepsSound_callFunction (limit : Nat) (name : String) (ty : Ty) :
    KeepsSound (ty ≠ .never) (callFunction program choose limit name ty) := by
  induction limit generalizing name ty with
  | zero => exact keepsSound_stop trivial
  | succ limit ih =>
    rw [callFunction]
    split
    · exact keepsSound_stop trivial
    · split
      · refine keepsSound_decision ?_
        intro _
        split
        · exact keepsSound_stop trivial
        · exact keepsSound_source fun never => ⟨never, trivial⟩
      · split
        · exact keepsSound_stop trivial
        · have typed := typed_of_analyzeFunction ‹_›
          exact (keepsSound_exec ih typed).resume fun _ => keepsSound_afterBody

/-- In every run of a call, an expression of the never type completes exactly when one completes by
itself. -/
theorem never_completes_iff (program : Program) (choose : Nat → Nat) (limit : Nat) (name : String) (ty : Ty) :
    (∀ completion ∈ completions program choose limit name ty, completion.Sound) ↔
      ∀ completion ∈ completions program choose limit name ty, ¬Source completion := by
  constructor
  · intro sound completion member source
    exact sound completion member source.1
  · intro noSource
    exact (keepsSound_callFunction limit name ty ⟨[], 0⟩ nofun noSource).1

end Runs

namespace NeverSample

/-- `fn pick(x: bool) -> i32 { if x { 1 } else { @panic() } }`. -/
def pick : Expr := .branch (.varRef .given .bool) (.operation [] .i32) .panic

def program : Program where
  functions := fun name => if name = "pick" then some ⟨[.bool], .i32, some pick⟩ else none
  isEmptyEnum := fun _ => false

theorem program_accepted : program.Accepted := by
  intro _ _ _ found isBody
  simp only [program] at found
  split at found
  · cases found
    cases isBody
    exact ⟨_, rfl⟩
  · cases found

/-- The run goes on after the panic, and `pick` returns. -/
theorem not_all_sound : ¬ ∀ program : Program, program.Accepted → ∀ choose limit name ty,
        ∀ completion ∈ completions program choose limit name ty, completion.Sound := by
  intro sound
  exact sound program program_accepted (fun _ => 0) 2 "pick" .i32 ⟨.never, .neverConst⟩ (by decide) rfl

/-- A loop that is left by its `break` completes, although it has the never type. -/
example : (exec (fun _ => 0) (fun _ _ => stop .spent) 1 (.infiniteLoop .breakLoop) ⟨[], 0⟩).events =
      [⟨.never, .leftByBreak⟩] := by
  decide

end NeverSample

end Gruel.Never
