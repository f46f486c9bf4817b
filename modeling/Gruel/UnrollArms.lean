import Mathlib.Logic.Function.Basic
import Gruel.Source
import Gruel.Types

/-!
`comptime_unroll` arms of a match.  The expanded arms find their element through one map of the
whole function, keyed by the index of the arm.
-/

namespace Gruel

namespace UnrollArms

variable {Value Pattern : Type}

structure UnrollArmBinding (Value : Type) where
  binding : Spur
  value : Value

abbrev Vars (Value : Type) := Spur → Option Value

abbrev Bindings (Value : Type) := Nat → Option (UnrollArmBinding Value)

structure Ctx (Value : Type) where
  comptimeValueVars : Vars Value
  unrollArmBindings : Bindings Value

/-- What sema computes at compile time: the elements of an iterable, and the variant pattern that
stands for an element (`extract_variant_info_name`, `synthesize_variant_pattern`). -/
structure Evaluator (Value Pattern : Type) where
  evaluateComptimeBlock : Nat → Vars Value → Option (List Value)
  variantPattern : EnumId → Value → Option Pattern

inductive RirPattern (Pattern : Type)
  | plain (pattern : Pattern)
  | comptimeUnrollArm (binding : Spur) (iterable : Nat)

inductive Body (Pattern : Type)
  | other
  | seq (first rest : Body Pattern)
  | comptimeUnrollFor (binding : Spur) (iterable : Nat) (body : Body Pattern)
  | matchOn (scrutinee : Option EnumId) (arms : List (RirPattern Pattern × Body Pattern))

/-- A run leaves what it saw and, unless it fails, the state behind it. -/
abbrev Run (Event State : Type) := List Event × Option State

section Run

variable {Event State : Type}

def andThen (first : Run Event State) (next : State → Run Event State) : Run Event State :=
  match first.2 with
  | none => first
  | some state => (first.1 ++ (next state).1, (next state).2)

def inTurn {Step : Type} (act : Step → State → Run Event State) : List Step → State → Run Event State
  | [], state => ([], some state)
  | step :: rest, state => andThen (act step state) (inTurn act rest)

end Run

abbrev Action (Value : Type) := Ctx Value → Run (Vars Value) (Ctx Value)

def bindVars (vars : Vars Value) : Option (UnrollArmBinding Value) → Vars Value
  | none => vars
  | some arm => Function.update vars arm.binding (some arm.value)

def restore (vars : Vars Value) : Option (UnrollArmBinding Value) → Vars Value → Vars Value
  | none, after => after
  | some arm, after => Function.update after arm.binding (vars arm.binding)

def analyzeBound (binding : Option (UnrollArmBinding Value)) (body : Action Value) : Action Value :=
  fun ctx =>
    let inside := bindVars ctx.comptimeValueVars binding
    let res := body { ctx with comptimeValueVars := inside }
    (inside :: res.1, res.2.map fun after => { after with
      comptimeValueVars := restore ctx.comptimeValueVars binding after.comptimeValueVars })

def analyzeArmBody (arm : Action Value × Nat) : Action Value := fun ctx =>
  analyzeBound (ctx.unrollArmBindings arm.2) arm.1 ctx

section Expansion

variable {Code : Type} (evaluator : Evaluator Value Pattern)

def expandElements (enumId : EnumId) (binding : Spur) (body : Code) :
    List Value → List (Pattern × Code) × Bindings Value → Option (List (Pattern × Code) × Bindings Value)
  | [], state => some state
  | element :: elements, (expanded, bindings) => do
      let synthesized ← evaluator.variantPattern enumId element
      let bindings := Function.update bindings expanded.length (some ⟨binding, element⟩)
      expandElements enumId binding body elements (expanded ++ [(synthesized, body)], bindings)

def expandArms (enumId : EnumId) (vars : Vars Value) :
    List (RirPattern Pattern × Code) → List (Pattern × Code) × Bindings Value →
      Option (List (Pattern × Code) × Bindings Value)
  | [], state => some state
  | (.plain pattern, body) :: raw, (expanded, bindings) =>
    expandArms enumId vars raw (expanded ++ [(pattern, body)], bindings)
  | (.comptimeUnrollArm binding iterable, body) :: raw, state => do
      let elements ← evaluator.evaluateComptimeBlock iterable vars
      let state ← expandElements evaluator enumId binding body elements state
      expandArms enumId vars raw state

def plainArms : List (RirPattern Pattern × Code) → Option (List (Pattern × Code))
  | [] => some []
  | (.plain pattern, body) :: raw => (plainArms raw).map ((pattern, body) :: ·)
  | (.comptimeUnrollArm _ _, _) :: _ => none

def expandUnrollArms (raw : List (RirPattern Pattern × Code)) (scrutinee : Option EnumId)
    (ctx : Ctx Value) : Option (List (Pattern × Code) × Ctx Value) :=
  match plainArms raw with
  | some arms => some (arms, ctx)
  | none => do
      let enumId ← scrutinee
      let (expanded, bindings) ←
        expandArms evaluator enumId ctx.comptimeValueVars raw ([], ctx.unrollArmBindings)
      pure (expanded, { ctx with unrollArmBindings := bindings })

end Expansion

mutual

def analyze (evaluator : Evaluator Value Pattern) : Body Pattern → Action Value
  | .other => fun ctx => ([], some ctx)
  | .seq first rest => fun ctx => andThen (analyze evaluator first ctx) (analyze evaluator rest)
  | .comptimeUnrollFor binding iterable body => fun ctx =>
    match evaluator.evaluateComptimeBlock iterable ctx.comptimeValueVars with
    | none => ([], none)
    | some elements =>
      inTurn (fun element => analyzeBound (some ⟨binding, element⟩) (analyze evaluator body)) elements ctx
  | .matchOn scrutinee arms => fun ctx =>
    match expandUnrollArms evaluator (analyzeEach evaluator arms) scrutinee ctx with
    | none => ([], none)
    | some (expanded, ctx) => inTurn analyzeArmBody (expanded.map Prod.snd).zipIdx ctx

def analyzeEach (evaluator : Evaluator Value Pattern) :
    List (RirPattern Pattern × Body Pattern) → List (RirPattern Pattern × Action Value)
  | [] => []
  | (pattern, body) :: arms => (pattern, analyze evaluator body) :: analyzeEach evaluator arms

end

def ownElements {Code : Type} (evaluator : Evaluator Value Pattern) (enumId : EnumId)
    (binding : Spur) (body : Code) : List Value → Option (List (Pattern × Option (UnrollArmBinding Value) × Code))
  | [] => some []
  | element :: elements =>
    (evaluator.variantPattern enumId element).bind fun pattern =>
      (ownElements evaluator enumId binding body elements).map ((pattern, some ⟨binding, element⟩, body) :: ·)

def ownArms {Code : Type} (evaluator : Evaluator Value Pattern) (enumId : EnumId)
    (vars : Vars Value) : List (RirPattern Pattern × Code) →
      Option (List (Pattern × Option (UnrollArmBinding Value) × Code))
  | [] => some []
  | (.plain pattern, body) :: raw =>
    (ownArms evaluator enumId vars raw).map ((pattern, none, body) :: ·)
  | (.comptimeUnrollArm binding iterable, body) :: raw =>
    (evaluator.evaluateComptimeBlock iterable vars).bind fun elements =>
      (ownElements evaluator enumId binding body elements).bind fun own =>
        (ownArms evaluator enumId vars raw).map (own ++ ·)

def armsOf {Code : Type} (evaluator : Evaluator Value Pattern)
    (raw : List (RirPattern Pattern × Code)) (scrutinee : Option EnumId) (vars : Vars Value) :
    Option (List (Pattern × Option (UnrollArmBinding Value) × Code)) :=
  match plainArms raw with
  | some arms => some (arms.map fun arm => (arm.1, none, arm.2))
  | none => scrutinee.bind fun enumId => ownArms evaluator enumId vars raw

structure Visit (Value : Type) where
  base : Vars Value
  own : Option (UnrollArmBinding Value)
  stored : Option (UnrollArmBinding Value)

def Visit.due (visit : Visit Value) : Vars Value := bindVars visit.base visit.own

def Visit.seen (visit : Visit Value) : Vars Value := bindVars visit.base visit.stored

abbrev Walk (Value : Type) := Vars Value → Bindings Value → Run (Visit Value) (Bindings Value)

def enter (vars : Vars Value) (own stored : Option (UnrollArmBinding Value)) (body : Walk Value)
    (bindings : Bindings Value) : Run (Visit Value) (Bindings Value) :=
  let visit : Visit Value := ⟨vars, own, stored⟩
  (visit :: (body visit.due bindings).1, (body visit.due bindings).2)

def record : List (Option (UnrollArmBinding Value)) → Nat → Bindings Value → Bindings Value
  | [], _, bindings => bindings
  | none :: arms, index, bindings => record arms (index + 1) bindings
  | some arm :: arms, index, bindings =>
    record arms (index + 1) (Function.update bindings index (some arm))

attribute [grind =] record

mutual

def walk (evaluator : Evaluator Value Pattern) : Body Pattern → Walk Value
  | .other => fun _ bindings => ([], some bindings)
  | .seq first rest => fun vars bindings =>
    andThen (walk evaluator first vars bindings) (walk evaluator rest vars)
  | .comptimeUnrollFor binding iterable body => fun vars bindings =>
    match evaluator.evaluateComptimeBlock iterable vars with
    | none => ([], none)
    | some elements =>
      inTurn (fun element => enter vars (some ⟨binding, element⟩) (some ⟨binding, element⟩)
        (walk evaluator body)) elements bindings
  | .matchOn scrutinee arms => fun vars bindings =>
    match armsOf evaluator (walkEach evaluator arms) scrutinee vars with
    | none => ([], none)
    | some own =>
      inTurn (fun arm bindings => enter vars arm.1.1 (bindings arm.2) arm.1.2 bindings)
        (own.map Prod.snd).zipIdx (record (own.map (·.2.1)) 0 bindings)

def walkEach (evaluator : Evaluator Value Pattern) :
    List (RirPattern Pattern × Body Pattern) → List (RirPattern Pattern × Walk Value)
  | [] => []
  | (pattern, body) :: arms => (pattern, walk evaluator body) :: walkEach evaluator arms

end

/-- Both runs start the same bodies with the same bindings and end alike, or they part at a body
that finds another binding than its own. -/
def Follows (vars : Vars Value) (code : Run (Vars Value) (Ctx Value))
    (due : Run (Visit Value) (Bindings Value)) : Prop :=
  (∀ visit ∈ due.1, visit.seen = visit.due) ∧ code = (due.1.map Visit.due, due.2.map (Ctx.mk vars)) ∨
    ∃ before visit after rest, due.1 = before ++ visit :: after ∧ visit.seen ≠ visit.due ∧
      code.1 = before.map Visit.due ++ visit.seen :: rest

variable {vars : Vars Value} {bindings : Bindings Value}
variable {code : Run (Vars Value) (Ctx Value)} {due : Run (Visit Value) (Bindings Value)}

theorem andThen_fst {Event State : Type} (first : Run Event State) (next : State → Run Event State) :
    ∃ more, (andThen first next).1 = first.1 ++ more := by
  unfold andThen
  cases first.2 with
  | none => exact ⟨[], (List.append_nil _).symm⟩
  | some state => exact ⟨(next state).1, rfl⟩

theorem Follows.andThen {next : Ctx Value → Run (Vars Value) (Ctx Value)}
    {dueNext : Bindings Value → Run (Visit Value) (Bindings Value)} (follows : Follows vars code due)
    (later : ∀ bindings, Follows vars (next ⟨vars, bindings⟩) (dueNext bindings)) :
    Follows vars (andThen code next) (andThen due dueNext) := by
  obtain ⟨visits, ends⟩ := due
  rcases follows with ⟨kept, rfl⟩ | ⟨before, visit, after, rest, split, strays, parted⟩
  · cases ends with
    | none => exact .inl ⟨kept, rfl⟩
    | some bindings =>
      rcases later bindings with ⟨laterKept, same⟩ | ⟨before, visit, after, rest, split, strays, parted⟩
      · refine .inl ⟨fun visit member => ?_, ?_⟩
        · rcases List.mem_append.mp member with first | second
          · exact kept visit first
          · exact laterKept visit second
        · simp [UnrollArms.andThen, Option.map_some, same, List.map_append]
      · refine .inr ⟨visits ++ before, visit, after, rest, ?_, strays, ?_⟩
        · simp [UnrollArms.andThen, split, List.append_assoc]
        · simp [UnrollArms.andThen, Option.map_some, parted, List.map_append, List.append_assoc]
  · obtain ⟨more, grown⟩ := andThen_fst (visits, ends) dueNext
    obtain ⟨codeMore, codeGrown⟩ := andThen_fst code next
    refine .inr ⟨before, visit, after ++ more, rest ++ codeMore, ?_, strays, ?_⟩
    · rw [grown, split, List.append_assoc, List.cons_append]
    · rw [codeGrown, parted, List.append_assoc, List.cons_append]

theorem Follows.inTurn {Step CodeStep DueStep : Type} (act : CodeStep → Action Value)
    (dueAct : DueStep → Bindings Value → Run (Visit Value) (Bindings Value))
    (asCode : Step → CodeStep) (asDue : Step → DueStep) (steps : List Step)
    (each : ∀ step ∈ steps, ∀ bindings,
      Follows vars (act (asCode step) ⟨vars, bindings⟩) (dueAct (asDue step) bindings))
    (bindings : Bindings Value) :
    Follows vars (inTurn act (steps.map asCode) ⟨vars, bindings⟩) (inTurn dueAct (steps.map asDue) bindings) := by
  induction steps generalizing bindings with
  | nil => exact .inl ⟨fun _ member => (List.not_mem_nil member).elim, rfl⟩
  | cons step steps ih =>
    exact (each step (.head _) bindings).andThen fun bindings =>
      ih (fun step member => each step (.tail _ member)) bindings

theorem restore_bindVars (vars : Vars Value) (binding : Option (UnrollArmBinding Value)) :
    restore vars binding (bindVars vars binding) = vars := by
  cases binding with
  | none => rfl
  | some arm => rw [restore, bindVars, Function.update_idem, Function.update_eq_self]

/-- A body under the binding it finds, against the same body under its own. -/
theorem follows_analyzeBound {own stored : Option (UnrollArmBinding Value)} {body : Action Value}
    {walked : Walk Value}
    (follows : ∀ vars bindings, Follows vars (body ⟨vars, bindings⟩) (walked vars bindings)) :
    Follows vars (analyzeBound stored body ⟨vars, bindings⟩) (enter vars own stored walked bindings) := by
  let visit : Visit Value := ⟨vars, own, stored⟩
  by_cases same : visit.seen = visit.due
  · have inner : Follows visit.seen (body ⟨visit.seen, bindings⟩) (walked visit.due bindings) := by
      rw [← same]
      exact follows visit.seen bindings
    rcases inner with ⟨kept, ran⟩ | ⟨before, other, after, rest, split, strays, parted⟩
    · refine .inl ⟨List.forall_mem_cons.mpr ⟨same, kept⟩, Prod.ext ?_ ?_⟩
      · exact congrArg₂ List.cons same (congrArg Prod.fst ran)
      · refine (congrArg (Option.map _) (congrArg Prod.snd ran)).trans ?_
        rw [Option.map_map]
        refine congrArg (Option.map · _) (funext fun bindings => ?_)
        exact congrArg (Ctx.mk · bindings) (restore_bindVars vars stored)
    · refine .inr ⟨visit :: before, other, after, rest, congrArg (visit :: ·) split, strays, ?_⟩
      exact (congrArg (visit.seen :: ·) parted).trans (by rw [same]; rfl)
  · exact .inr ⟨[], visit, _, _, rfl, same, rfl⟩

section Expansion

variable {Code Other : Type} {evaluator : Evaluator Value Pattern} {enumId : EnumId}

theorem expandElements_eq (binding : Spur) (body : Code) (elements : List Value)
    (expanded : List (Pattern × Code)) (bindings : Bindings Value) :
    expandElements evaluator enumId binding body elements (expanded, bindings) =
      (ownElements evaluator enumId binding body elements).map fun own =>
        (expanded ++ own.map fun arm => (arm.1, arm.2.2), record (own.map (·.2.1)) expanded.length bindings) := by
  induction elements generalizing expanded bindings with
  | nil => simp [expandElements, ownElements, record]
  | cons element elements ih =>
    rw [expandElements, ownElements]
    cases evaluator.variantPattern enumId element with
    | none => rfl
    | some synthesized =>
      simp only [Option.bind_eq_bind, Option.bind_some, ih, Option.map_map]
      congr 1
      funext own
      simp [record]

theorem record_append (own others : List (Option (UnrollArmBinding Value))) (index : Nat)
    (bindings : Bindings Value) : record (own ++ others) index bindings =
      record others (index + own.length) (record own index bindings) := by
  induction own generalizing index bindings with
  | nil => rfl
  | cons first own ih =>
    cases first <;> simp [List.cons_append, record, ih, List.length_cons, Nat.add_assoc, Nat.add_comm 1]

theorem expandArms_eq (raw : List (RirPattern Pattern × Code)) (expanded : List (Pattern × Code))
    (bindings : Bindings Value) :
    expandArms evaluator enumId vars raw (expanded, bindings) = (ownArms evaluator enumId vars raw).map fun own =>
        (expanded ++ own.map fun arm => (arm.1, arm.2.2), record (own.map (·.2.1)) expanded.length bindings) := by
  induction raw generalizing expanded bindings with
  | nil => simp [expandArms, ownArms, record]
  | cons arm raw ih =>
    obtain ⟨pattern, body⟩ := arm
    cases pattern with
    | plain pattern =>
      rw [expandArms, ownArms, ih, Option.map_map]
      congr 1
      funext own
      simp [record]
    | comptimeUnrollArm binding iterable =>
      rw [expandArms, ownArms]
      cases evaluator.evaluateComptimeBlock iterable vars with
      | none => rfl
      | some elements =>
        simp only [Option.bind_eq_bind, Option.bind_some, expandElements_eq]
        cases ownElements evaluator enumId binding body elements with
        | none => rfl
        | some own =>
          simp only [Option.map_some, Option.bind_some, ih, Option.map_map]
          congr 1
          funext others
          simp [record_append]

theorem record_none (count index : Nat) (bindings : Bindings Value) :
    record (List.replicate count none) index bindings = bindings := by
  induction count generalizing index with
  | zero => rfl
  | succ count ih => exact ih (index + 1)

theorem expandUnrollArms_eq (raw : List (RirPattern Pattern × Code)) (scrutinee : Option EnumId) :
    expandUnrollArms evaluator raw scrutinee ⟨vars, bindings⟩ = (armsOf evaluator raw scrutinee vars).map fun own =>
        (own.map fun arm => (arm.1, arm.2.2), ⟨vars, record (own.map (·.2.1)) 0 bindings⟩) := by
  unfold expandUnrollArms armsOf
  cases plainArms raw with
  | some arms => simp [Function.comp_def, record_none]
  | none =>
    cases scrutinee with
    | none => rfl
    | some enumId =>
      simp only [Option.bind_eq_bind, Option.bind_some, expandArms_eq, List.length_nil]
      cases ownArms evaluator enumId vars raw <;> rfl

theorem ownElements_map (asOther : Code → Other) (binding : Spur) (body : Code)
    (elements : List Value) : ownElements evaluator enumId binding (asOther body) elements =
      (ownElements evaluator enumId binding body elements).map
        (List.map fun arm => (arm.1, arm.2.1, asOther arm.2.2)) := by
  induction elements with
  | nil => rfl
  | cons element elements ih =>
    rw [ownElements, ownElements, ih]
    cases evaluator.variantPattern enumId element with
    | none => rfl
    | some pattern => cases ownElements evaluator enumId binding body elements <;> rfl

theorem ownArms_map (asOther : Code → Other) (raw : List (RirPattern Pattern × Code)) :
    ownArms evaluator enumId vars (raw.map fun arm => (arm.1, asOther arm.2)) =
      (ownArms evaluator enumId vars raw).map (List.map fun arm => (arm.1, arm.2.1, asOther arm.2.2)) := by
  induction raw with
  | nil => rfl
  | cons arm raw ih =>
    obtain ⟨pattern, body⟩ := arm
    rw [List.map_cons]
    cases pattern with
    | plain pattern =>
      rw [ownArms, ownArms, ih]
      cases ownArms evaluator enumId vars raw <;> rfl
    | comptimeUnrollArm binding iterable =>
      rw [ownArms, ownArms, ih]
      cases evaluator.evaluateComptimeBlock iterable vars with
      | none => rfl
      | some elements =>
        simp only [Option.bind_some, ownElements_map asOther]
        cases ownElements evaluator enumId binding body elements with
        | none => rfl
        | some own =>
          cases ownArms evaluator enumId vars raw with
          | none => rfl
          | some others => simp

theorem plainArms_map (asOther : Code → Other) (raw : List (RirPattern Pattern × Code)) :
    plainArms (raw.map fun arm => (arm.1, asOther arm.2)) =
      (plainArms raw).map (List.map fun arm => (arm.1, asOther arm.2)) := by
  induction raw with
  | nil => rfl
  | cons arm raw ih =>
    obtain ⟨pattern, _⟩ := arm
    rw [List.map_cons]
    cases pattern with
    | plain pattern =>
      rw [plainArms, plainArms, ih]
      cases plainArms raw <;> rfl
    | comptimeUnrollArm binding iterable => rfl

theorem armsOf_map (asOther : Code → Other) (raw : List (RirPattern Pattern × Code)) (scrutinee : Option EnumId) :
    armsOf evaluator (raw.map fun arm => (arm.1, asOther arm.2)) scrutinee vars =
      (armsOf evaluator raw scrutinee vars).map (List.map fun arm => (arm.1, arm.2.1, asOther arm.2.2)) := by
  unfold armsOf
  rw [plainArms_map]
  cases plainArms raw with
  | some arms => simp
  | none =>
    cases scrutinee with
    | none => rfl
    | some enumId => exact ownArms_map asOther raw

end Expansion

structure Paired (Value : Type) where
  action : Action Value
  walked : Walk Value
  follows : ∀ vars bindings, Follows vars (action ⟨vars, bindings⟩) (walked vars bindings)

mutual

theorem follows_analyze (evaluator : Evaluator Value Pattern) (body : Body Pattern)
    (vars : Vars Value) (bindings : Bindings Value) :
    Follows vars (analyze evaluator body ⟨vars, bindings⟩) (walk evaluator body vars bindings) := by
  cases body with
  | other => exact .inl ⟨fun _ member => (List.not_mem_nil member).elim, rfl⟩
  | seq first rest =>
    exact (follows_analyze evaluator first vars bindings).andThen (follows_analyze evaluator rest vars)
  | comptimeUnrollFor binding iterable body =>
    simp only [analyze, walk]
    cases evaluator.evaluateComptimeBlock iterable vars with
    | none => exact .inl ⟨fun _ member => (List.not_mem_nil member).elim, rfl⟩
    | some elements =>
      have each := Follows.inTurn (fun element => analyzeBound (some ⟨binding, element⟩) (analyze evaluator body))
        (fun element => enter vars (some ⟨binding, element⟩) (some ⟨binding, element⟩)
          (walk evaluator body)) id id elements
        (fun element _ bindings => follows_analyzeBound (follows_analyze evaluator body)) bindings
      rwa [List.map_id] at each
  | matchOn scrutinee arms =>
    obtain ⟨raw, sameCode, sameDue⟩ := exists_paired evaluator arms
    simp only [analyze, walk, sameCode, sameDue, expandUnrollArms_eq, armsOf_map]
    cases armsOf evaluator raw scrutinee vars with
    | none => exact .inl ⟨fun _ member => (List.not_mem_nil member).elim, rfl⟩
    | some own =>
      simp only [Option.map_some, List.map_map, List.zipIdx_map]
      exact Follows.inTurn analyzeArmBody _ _ _ own.zipIdx
        (fun arm _ bindings => follows_analyzeBound arm.1.2.2.follows) _

theorem exists_paired (evaluator : Evaluator Value Pattern) (arms : List (RirPattern Pattern × Body Pattern)) :
    ∃ raw : List (RirPattern Pattern × Paired Value),
      analyzeEach evaluator arms = raw.map (fun arm => (arm.1, arm.2.action)) ∧
        walkEach evaluator arms = raw.map fun arm => (arm.1, arm.2.walked) := by
  cases arms with
  | nil => exact ⟨[], rfl, rfl⟩
  | cons arm arms =>
    obtain ⟨pattern, body⟩ := arm
    obtain ⟨raw, sameCode, sameDue⟩ := exists_paired evaluator arms
    refine ⟨(pattern, ⟨_, _, follows_analyze evaluator body⟩) :: raw, ?_, ?_⟩
    · rw [analyzeEach, sameCode, List.map_cons]
    · rw [walkEach, sameDue, List.map_cons]

end

end UnrollArms

end Gruel
