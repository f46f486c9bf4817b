import Gruel.Inference

/-!
What unification and one constraint do to the assignment: every operation
settles, and a run without errors is a chain of such steps.
-/

namespace Gruel

open Fuel

variable {assignment : Assignment} {lhs rhs : InferType}

def LiteralTakes (literal : InferType) (ty : Ty) : Prop :=
  literal = .intLiteral ∧ ty.isInteger = true ∨ literal = .floatLiteral ∧ ty.isFloat = true

inductive Unified (assignment : Assignment) : InferType → InferType → Assignment → Prop
  | same (ty : InferType) : Unified assignment ty ty assignment
  | coerce (t1 t2 : Ty) (coerces : t1.canCoerceTo t2 ∨ t2.canCoerceTo t1) :
      Unified assignment (.concrete t1) (.concrete t2) assignment
  | bind (var : TypeVarId) (ty : InferType) (free : assignment var = .var var)
      (settled : ty.subst assignment = ty) (absent : ty.leafVar ≠ some var) :
      Unified assignment (.var var) ty (assignment.bind var ty)
  | literal (literal : InferType) (ty : Ty) (after : Assignment) (takes : LiteralTakes literal ty)
      (overwrites : Overwrites assignment after literal ty) :
      Unified assignment literal (.concrete ty) after
  | literalError (literal : InferType) (isLiteral : literal = .intLiteral ∨ literal = .floatLiteral) :
      Unified assignment literal (.concrete .error) assignment
  | array (first second : InferType) (length : Nat) (after : Assignment)
      (elements : Unified assignment first second after) :
      Unified assignment (.array first length) (.array second length) after
  | symm (first second : InferType) (after : Assignment)
      (unified : Unified assignment first second after) : Unified assignment second first after

def Unifies (assignment : Assignment) (lhs rhs : InferType)
    (run : Nat → Option (UnifyResult × Substitution)) : Prop :=
  ∃ result after afterAssignment afterRank, Settles run (result, after) ∧ Represents after afterAssignment afterRank ∧
    (result = .ok → Unified assignment lhs rhs afterAssignment)

theorem Unifies.symm {run : Nat → Option (UnifyResult × Substitution)}
    (unifies : Unifies assignment lhs rhs run) : Unifies assignment rhs lhs run := by
  obtain ⟨result, after, afterAssignment, afterRank, settles, represents, unified⟩ := unifies
  exact ⟨result, after, afterAssignment, afterRank, settles, represents, fun isOk => .symm _ _ _ (unified isOk)⟩

theorem Unifies.of_some {afterAssignment : Assignment} {afterRank : TypeVarId → Nat}
    {result : UnifyResult × Substitution}
    (represents : Represents result.2 afterAssignment afterRank)
    (unified : result.1 = .ok → Unified assignment lhs rhs afterAssignment) :
    Unifies assignment lhs rhs fun _ => some result :=
  ⟨result.1, result.2, afterAssignment, afterRank, settles_some _, represents, unified⟩

namespace Represents

variable {substitution : Substitution} {assignment : Assignment} {rank : TypeVarId → Nat}

theorem bind_unifies (represents : Represents substitution assignment rank) {var : TypeVarId}
    {ty : InferType} (free : assignment var = .var var) (settled : ty.subst assignment = ty) :
    Unifies assignment (.var var) ty fun fuel => Unifier.bind fuel substitution var ty := by
  by_cases self : ty = .var var
  · refine ⟨.ok, substitution, assignment, rank, ?_, represents, fun _ => ?_⟩
    · simp only [Unifier.bind, if_pos self]
      exact settles_some _
    · rw [self]
      exact .same _
  · have occurs := represents.occursIn_settles var settled
    by_cases present : ty.leafVar = some var
    · refine ⟨.occursCheck var ty, substitution, assignment, rank, ?_, represents, fun isOk => by cases isOk⟩
      simp only [Unifier.bind, if_neg self]
      refine settles_bind occurs ?_
      simp only [present, decide_true, if_true]
      exact settles_some _
    · obtain ⟨newRank, newRepresents⟩ := represents.bind free settled present
      refine ⟨.ok, _, _, newRank, ?_, newRepresents, fun _ => .bind var ty free settled present⟩
      simp only [Unifier.bind, if_neg self]
      refine settles_bind occurs ?_
      simp only [present, decide_false]
      exact settles_some _

theorem rebind (represents : Represents substitution assignment rank) (literal original : InferType)
    (ty : Ty) (isLeaf : ∀ element length, literal ≠ .array element length)
    (closed : literal.leafVar = none) :
    ∃ after, Represents (Unifier.rebindLiteralToConcrete literal substitution original ty) after rank
      ∧ Overwrites assignment after literal ty := by
  unfold Unifier.rebindLiteralToConcrete
  split
  · next var =>
      split
      · next found =>
          have atVar : assignment var = literal := by
            rw [represents.bound var literal found]
            refine InferType.subst_eq_self fun id leaf => ?_
            rw [closed] at leaf
            cases leaf
          obtain ⟨after, afterRepresents, overwrites, _⟩ :=
            represents.overwrite var ty (by rw [atVar]; exact isLeaf)
          rw [atVar] at overwrites
          exact ⟨after, afterRepresents, overwrites⟩
      · exact ⟨assignment, represents, .refl _ _ _⟩
  · exact ⟨assignment, represents, .refl _ _ _⟩

end Represents

theorem InferType.relabel_relabel (leaf target : InferType) (ty : Ty) :
    relabel leaf ty (relabel leaf ty target) = relabel leaf ty target ∨ leaf = .concrete ty := by
  by_cases same : leaf = .concrete ty
  · exact .inr same
  · left
    induction target with
    | array element length elementSame => simp [relabel, elementSame]
    | _ =>
      simp only [relabel]
      split
      · simp [relabel]
      · next other => simp [relabel, if_neg other]

theorem Overwrites.trans {first second third : Assignment} {leaf : InferType} {ty : Ty}
    (notConcrete : leaf ≠ .concrete ty) (before : Overwrites first second leaf ty)
    (after : Overwrites second third leaf ty) : Overwrites first third leaf ty := by
  constructor
  intro id
  rcases before.each id with kept | relabelled
  · rw [← kept]
    exact after.each id
  · rcases after.each id with keptAfter | relabelledAfter
    · exact .inr (keptAfter.trans relabelled)
    · right
      rw [relabelledAfter, relabelled]
      exact (InferType.relabel_relabel leaf (first id) ty).resolve_right notConcrete

namespace Represents

variable {substitution : Substitution} {assignment : Assignment} {rank : TypeVarId → Nat}

section

variable (represents : Represents substitution assignment rank)
include represents

theorem rebind_both {literal : InferType}
    (isLiteral : literal = .intLiteral ∨ literal = .floatLiteral) (lhs rhs : InferType) (ty : Ty) :
    ∃ after, Represents (Unifier.rebindLiteralToConcrete literal
        (Unifier.rebindLiteralToConcrete literal substitution lhs ty) rhs ty) after rank ∧
      Overwrites assignment after literal ty := by
  have isLeaf : ∀ element length, literal ≠ .array element length := by
    rcases isLiteral with rfl | rfl <;> exact fun _ _ shape => by cases shape
  have closed : literal.leafVar = none := by
    rcases isLiteral with rfl | rfl <;> rfl
  have notConcrete : literal ≠ .concrete ty := by
    rcases isLiteral with rfl | rfl <;> exact fun shape => by cases shape
  obtain ⟨_, middleRepresents, overwritesLeft⟩ := represents.rebind literal lhs ty isLeaf closed
  obtain ⟨after, afterRepresents, overwritesRight⟩ :=
    middleRepresents.rebind literal rhs ty isLeaf closed
  exact ⟨after, afterRepresents, overwritesLeft.trans notConcrete overwritesRight⟩

theorem unifyIntLiteral_spec (lhs rhs : InferType) (ty : Ty) :
    ∃ after, Represents (Unifier.unifyIntLiteral substitution lhs rhs ty).2 after rank ∧
      ((Unifier.unifyIntLiteral substitution lhs rhs ty).1 = .ok →
        Unified assignment .intLiteral (.concrete ty) after) := by
  unfold Unifier.unifyIntLiteral
  split
  · next integer =>
      obtain ⟨after, afterRepresents, overwrites⟩ := represents.rebind_both (.inl rfl) lhs rhs ty
      exact ⟨after, afterRepresents, fun _ => .literal _ _ _ (.inl ⟨rfl, integer⟩) overwrites⟩
  · split
    · next isError =>
        have isErrorTy : ty = .error := of_decide_eq_true isError
        refine ⟨assignment, represents, fun _ => ?_⟩
        rw [isErrorTy]
        exact .literalError _ (.inl rfl)
    · exact ⟨assignment, represents, fun isOk => by cases isOk⟩

theorem unifyFloatLiteral_spec (lhs rhs lhsResolved rhsResolved : InferType) (ty : Ty) : ∃ after, Represents
        (Unifier.unifyFloatLiteral substitution lhs rhs lhsResolved rhsResolved ty).2 after rank ∧
      ((Unifier.unifyFloatLiteral substitution lhs rhs lhsResolved rhsResolved ty).1 = .ok →
        Unified assignment .floatLiteral (.concrete ty) after) := by
  unfold Unifier.unifyFloatLiteral
  split
  · next float =>
      obtain ⟨after, afterRepresents, overwrites⟩ := represents.rebind_both (.inr rfl) lhs rhs ty
      exact ⟨after, afterRepresents, fun _ => .literal _ _ _ (.inr ⟨rfl, float⟩) overwrites⟩
  · split
    · next isError =>
        have isErrorTy : ty = .error := of_decide_eq_true isError
        refine ⟨assignment, represents, fun _ => ?_⟩
        rw [isErrorTy]
        exact .literalError _ (.inr rfl)
    · exact ⟨assignment, represents, fun isOk => by cases isOk⟩

theorem unifyResolved_unifies
    {unifyElements : Nat → Substitution → InferType → InferType → Option (UnifyResult × Substitution)}
    (lhs rhs : InferType) {left right : InferType} (leftSettled : left.subst assignment = left)
    (rightSettled : right.subst assignment = right)
    (elements : ∀ first second length, left = .array first length → right = .array second length →
      Unifies assignment first second fun fuel => unifyElements fuel substitution first second) :
    Unifies assignment left right fun fuel =>
      Unifier.unifyResolved fuel (unifyElements fuel) substitution lhs rhs left right := by
  have mismatch : Unifies assignment left right fun _ =>
      some (.typeMismatch left right, substitution) :=
    .of_some represents fun isOk => by cases isOk
  cases left with
  | var var => exact represents.bind_unifies leftSettled rightSettled
  | concrete t1 =>
    cases right with
    | concrete t2 =>
      simp only [Unifier.unifyResolved]
      split
      · next compatible =>
          refine .of_some represents fun _ => ?_
          rcases compatible with rfl | coerces
          · exact .same _
          · exact .coerce t1 t2 coerces
      · exact mismatch
    | var var => exact (represents.bind_unifies rightSettled leftSettled).symm
    | intLiteral =>
      obtain ⟨after, afterRepresents, unified⟩ := represents.unifyIntLiteral_spec lhs rhs t1
      exact .of_some afterRepresents fun isOk => .symm _ _ _ (unified isOk)
    | floatLiteral =>
      obtain ⟨after, afterRepresents, unified⟩ :=
        represents.unifyFloatLiteral_spec lhs rhs (.concrete t1) .floatLiteral t1
      exact .of_some afterRepresents fun isOk => .symm _ _ _ (unified isOk)
    | array element length => exact mismatch
  | intLiteral =>
    cases right with
    | concrete t2 =>
      obtain ⟨after, afterRepresents, unified⟩ := represents.unifyIntLiteral_spec lhs rhs t2
      exact .of_some afterRepresents unified
    | var var => exact (represents.bind_unifies rightSettled leftSettled).symm
    | intLiteral => exact .of_some represents fun _ => .same _
    | floatLiteral => exact mismatch
    | array element length => exact mismatch
  | floatLiteral =>
    cases right with
    | concrete t2 =>
      obtain ⟨after, afterRepresents, unified⟩ :=
        represents.unifyFloatLiteral_spec lhs rhs .floatLiteral (.concrete t2) t2
      exact .of_some afterRepresents unified
    | var var => exact (represents.bind_unifies rightSettled leftSettled).symm
    | intLiteral => exact mismatch
    | floatLiteral => exact .of_some represents fun _ => .same _
    | array element length => exact mismatch
  | array first firstLength =>
    cases right with
    | var var => exact (represents.bind_unifies rightSettled leftSettled).symm
    | array second secondLength =>
      by_cases lengths : firstLength = secondLength
      · subst lengths
        obtain ⟨result, after, afterAssignment, afterRank, settles, afterRepresents, unified⟩ :=
          elements first second firstLength rfl rfl
        refine ⟨result, after, afterAssignment, afterRank, ?_, afterRepresents,
          fun isOk => .array _ _ _ _ (unified isOk)⟩
        simpa [Unifier.unifyResolved, ne_eq, not_true, if_false] using settles
      · simp only [Unifier.unifyResolved, ne_eq, lengths, not_false_iff, if_true]
        exact .of_some represents fun isOk => by cases isOk
    | _ => exact mismatch

theorem unify_unifies (lhs rhs : InferType) : Unifies assignment (lhs.subst assignment) (rhs.subst assignment)
      fun fuel => Unifier.unify fuel substitution lhs rhs := by
  induction bounded : (lhs.subst assignment).depth using Nat.strongRecOn generalizing substitution lhs rhs with
  | ind bound ih =>
    obtain ⟨_, settlesLeft, middleRepresents⟩ := represents.apply_settles lhs
    obtain ⟨after, settlesRight, afterRepresents⟩ := middleRepresents.apply_settles rhs
    have leftSettled := represents.idempotent lhs
    have rightSettled := represents.idempotent rhs
    have elements : ∀ first second length, lhs.subst assignment = .array first length →
        rhs.subst assignment = .array second length →
        Unifies assignment first second fun fuel => Unifier.unify fuel after first second := by
      intro first second length leftShape rightShape
      rw [leftShape] at leftSettled bounded
      rw [rightShape] at rightSettled
      have firstSettled : first.subst assignment = first := (InferType.array.inj leftSettled).1
      have secondSettled : second.subst assignment = second :=
        (InferType.array.inj rightSettled).1
      have smaller : (first.subst assignment).depth < bound := by
        rw [firstSettled, ← bounded]
        exact Nat.lt_succ_self _
      have unifies := ih _ smaller afterRepresents first second rfl
      rwa [firstSettled, secondSettled] at unifies
    obtain ⟨result, final, finalAssignment, finalRank, settles, finalRepresents, unified⟩ :=
      afterRepresents.unifyResolved_unifies lhs rhs leftSettled rightSettled elements
    exact ⟨result, final, finalAssignment, finalRank,
      settles_of_succ (settles_bind settlesLeft (settles_bind settlesRight settles)),
      finalRepresents, unified⟩

theorem bindErrorVar_represents {applied : InferType}
    (isLeaf : ∀ var, applied = .var var → ∀ element length, assignment var ≠ .array element length) :
    ∃ after leaf, Represents (Unifier.bindErrorVar substitution applied) after rank ∧
      Overwrites assignment after leaf .error := by
  cases applied with
  | var var =>
    obtain ⟨after, afterRepresents, overwrites, _⟩ :=
      represents.overwrite var .error (isLeaf var rfl)
    exact ⟨after, _, afterRepresents, overwrites⟩
  | _ => exact ⟨assignment, .intLiteral, represents, .refl _ _ _⟩

theorem var_fixed {ty : InferType} {var : TypeVarId} (resolved : ty.subst assignment = .var var) :
    assignment var = .var var := by
  have leaf : (ty.subst assignment).leafVar = some var := by
    rw [resolved]
    rfl
  exact represents.leaf_fixed leaf

theorem recoverFromError_settles (lhs rhs : InferType) : ∃ after afterAssignment,
      Settles (fun fuel => Unifier.recoverFromError fuel substitution lhs rhs) after ∧
      Represents after afterAssignment rank := by
  obtain ⟨_, settlesLeft, middleRepresents⟩ := represents.apply_settles lhs
  obtain ⟨_, settlesRight, appliedRepresents⟩ := middleRepresents.apply_settles rhs
  have leftLeaf : ∀ var, lhs.subst assignment = .var var →
      ∀ element length, assignment var ≠ .array element length := by
    intro var resolved element length isArray
    rw [represents.var_fixed resolved] at isArray
    cases isArray
  obtain ⟨leftAssignment, _, leftRepresents, overwrites⟩ :=
    appliedRepresents.bindErrorVar_represents leftLeaf
  have rightLeaf : ∀ var, rhs.subst assignment = .var var →
      ∀ element length, leftAssignment var ≠ .array element length := by
    intro var resolved element length isArray
    have free := represents.var_fixed resolved
    rcases overwrites.each var with kept | relabelled
    · rw [kept, free] at isArray
      cases isArray
    · rw [relabelled, free] at isArray
      simp only [InferType.relabel] at isArray
      split at isArray <;> cases isArray
  obtain ⟨after, _, afterRepresents, _⟩ := leftRepresents.bindErrorVar_represents rightLeaf
  exact ⟨_, after, settles_bind settlesLeft (settles_bind settlesRight (settles_some _)), afterRepresents⟩

end

end Represents

inductive Solved (assignment : Assignment) : Constraint → Assignment → Prop
  | equal (lhs rhs : InferType) (span : Span) (after : Assignment)
      (unified : Unified assignment (lhs.subst assignment) (rhs.subst assignment) after) :
      Solved assignment (.equal lhs rhs span) after
  | isSigned (ty : InferType) (span : Span) : Solved assignment (.isSigned ty span) assignment
  | isInteger (ty : InferType) (span : Span) : Solved assignment (.isInteger ty span) assignment
  | isNumeric (ty : InferType) (span : Span) : Solved assignment (.isNumeric ty span) assignment
  | unsignedKept (ty : InferType) (span : Span) (kept : ∀ var, ty = .var var → assignment var ≠ .intLiteral) :
      Solved assignment (.isUnsigned ty span) assignment
  | unsignedFree (ty : InferType) (span : Span) (var : TypeVarId)
      (resolved : ty.subst assignment = .var var) (free : assignment var = .var var) :
      Solved assignment (.isUnsigned ty span) (assignment.bind var (.concrete .u64))
  | unsignedLiteral (var : TypeVarId) (span : Span) (after : Assignment) (resolved : assignment var = .intLiteral)
      (overwrites : Overwrites assignment after .intLiteral .u64)
      (written : after var = .concrete .u64) :
      Solved assignment (.isUnsigned (.var var) span) after

namespace Represents

variable {substitution : Substitution} {assignment : Assignment} {rank : TypeVarId → Nat}

section

variable (represents : Represents substitution assignment rank)
include represents

theorem checkWith_settles (rule : InferType → UnifyResult) (ty : InferType) (span : Span) :
    ∃ errors after, Settles (fun fuel =>
        (Unifier.checkWith rule fuel substitution ty).bind fun checked =>
          some (Unifier.errorsOf checked.1 span, checked.2)) (errors, after) ∧
      Represents after assignment rank := by
  obtain ⟨after, settles, afterRepresents⟩ := represents.apply_settles ty
  exact ⟨_, after, settles_bind (settles_bind settles (settles_some _)) (settles_some _), afterRepresents⟩

theorem bindUnsigned_spec (ty : InferType) (span : Span) : ∃ after afterRank,
      Represents (Unifier.bindUnsigned substitution ty (ty.subst assignment)) after afterRank ∧
      Solved assignment (.isUnsigned ty span) after := by
  cases shape : ty.subst assignment with
  | var var =>
    have absent : (InferType.concrete .u64).leafVar ≠ some var := fun leaf => by cases leaf
    have free := represents.var_fixed shape
    obtain ⟨newRank, newRepresents⟩ := represents.bind free rfl absent
    exact ⟨_, newRank, newRepresents, .unsignedFree ty span var shape free⟩
  | intLiteral =>
    cases ty with
    | var var =>
      have resolved : assignment var = .intLiteral := shape
      have isLeaf : ∀ element length, assignment var ≠ .array element length := by
        intro element length isArray
        rw [resolved] at isArray
        cases isArray
      obtain ⟨after, afterRepresents, overwrites, written, _⟩ :=
        represents.overwrite var .u64 isLeaf
      rw [resolved] at overwrites
      exact ⟨after, rank, afterRepresents, .unsignedLiteral var span after resolved overwrites written⟩
    | _ => exact ⟨assignment, rank, represents, .unsignedKept _ span fun _ isVar => by cases isVar⟩
  | _ =>
    refine ⟨assignment, rank, represents, .unsignedKept _ span fun var isVar resolved => ?_⟩
    rw [isVar] at shape
    rw [InferType.subst, resolved] at shape
    cases shape

theorem solveConstraint_settles (constraint : Constraint) : ∃ errors after afterAssignment afterRank,
      Settles (fun fuel => Unifier.solveConstraint fuel substitution constraint) (errors, after) ∧
      Represents after afterAssignment afterRank ∧
      (errors = [] → Solved assignment constraint afterAssignment) := by
  cases constraint with
  | equal lhs rhs span =>
    obtain ⟨result, after, afterAssignment, afterRank, settles, afterRepresents, unified⟩ :=
      represents.unify_unifies lhs rhs
    by_cases isOk : result = .ok
    · refine ⟨[], after, afterAssignment, afterRank, settles_bind settles ?_, afterRepresents,
        fun _ => .equal lhs rhs span _ (unified isOk)⟩
      simp only [isOk, if_true]
      exact settles_some _
    · obtain ⟨recovered, recoveredAssignment, settlesRecovered, recoveredRepresents⟩ :=
        afterRepresents.recoverFromError_settles lhs rhs
      refine ⟨[⟨result, span⟩], recovered, recoveredAssignment, afterRank,
        settles_bind settles ?_, recoveredRepresents, fun noErrors => by cases noErrors⟩
      simp only [if_neg isOk]
      exact settles_bind settlesRecovered (settles_some _)
  | isSigned ty span =>
    obtain ⟨errors, after, settles, afterRepresents⟩ :=
      represents.checkWith_settles Unifier.signedRule ty span
    exact ⟨errors, after, assignment, rank, settles, afterRepresents, fun _ => .isSigned ty span⟩
  | isInteger ty span =>
    obtain ⟨errors, after, settles, afterRepresents⟩ :=
      represents.checkWith_settles Unifier.integerRule ty span
    exact ⟨errors, after, assignment, rank, settles, afterRepresents, fun _ => .isInteger ty span⟩
  | isNumeric ty span =>
    obtain ⟨errors, after, settles, afterRepresents⟩ :=
      represents.checkWith_settles Unifier.numericRule ty span
    exact ⟨errors, after, assignment, rank, settles, afterRepresents, fun _ => .isNumeric ty span⟩
  | isUnsigned ty span =>
    obtain ⟨_, settlesApplied, appliedRepresents⟩ := represents.apply_settles ty
    obtain ⟨boundAssignment, boundRank, boundRepresents, solved⟩ :=
      appliedRepresents.bindUnsigned_spec ty span
    obtain ⟨errors, after, settles, afterRepresents⟩ :=
      boundRepresents.checkWith_settles Unifier.unsignedRule ty span
    exact ⟨errors, after, boundAssignment, boundRank, settles_bind settlesApplied settles,
      afterRepresents, fun _ => solved⟩

end

end Represents

inductive Solves : Substitution → Assignment → List Constraint → Substitution → Assignment → Prop
  | nil (substitution : Substitution) (assignment : Assignment) :
      Solves substitution assignment [] substitution assignment
  | cons {substitution middle final : Substitution}
      {assignment middleAssignment finalAssignment : Assignment} {rank : TypeVarId → Nat}
      (constraint : Constraint) (constraints : List Constraint)
      (represents : Represents substitution assignment rank)
      (settles : Settles (fun fuel => Unifier.solveConstraint fuel substitution constraint) ([], middle))
      (solved : Solved assignment constraint middleAssignment)
      (rest : Solves middle middleAssignment constraints final finalAssignment) :
      Solves substitution assignment (constraint :: constraints) final finalAssignment

theorem Represents.solveConstraints_settles {substitution : Substitution} {assignment : Assignment}
    {rank : TypeVarId → Nat} (represents : Represents substitution assignment rank)
    (constraints : List Constraint) :
    ∃ errors after afterAssignment afterRank,
      Settles (fun fuel => Unifier.solveConstraints fuel substitution constraints) (errors, after) ∧
      Represents after afterAssignment afterRank ∧
      (errors = [] → Solves substitution assignment constraints after afterAssignment) := by
  induction constraints generalizing substitution assignment rank with
  | nil =>
    exact ⟨[], substitution, assignment, rank, settles_some _, represents, fun _ => .nil _ _⟩
  | cons constraint constraints restSettles =>
    obtain ⟨errors, _, _, _, settles, middleRepresents, solved⟩ :=
      represents.solveConstraint_settles constraint
    obtain ⟨restErrors, after, afterAssignment, afterRank, settlesRest, afterRepresents, solves⟩ :=
      restSettles middleRepresents
    refine ⟨errors ++ restErrors, after, afterAssignment, afterRank,
      settles_bind settles (settles_bind settlesRest (settles_some _)), afterRepresents,
      fun noErrors => ?_⟩
    obtain ⟨noneHere, noneLater⟩ := List.append_eq_nil_iff.mp noErrors
    subst noneHere
    exact .cons constraint constraints represents settles (solved rfl) (solves noneLater)

end Gruel
