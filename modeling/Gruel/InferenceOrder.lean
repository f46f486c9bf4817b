import Mathlib.Data.List.Perm.Basic
import Gruel.InferenceComplete

/-!
Order independence of unification: a run over satisfiable equalities leaves a
determined variable at its type or at a literal placeholder, and which of the
two happens depends on the order of the equalities.
-/

namespace Gruel

open Fuel InferType

variable {ty literal : InferType}
variable {lhs rhs : InferType} {id : TypeVarId} {assignment after : Assignment}

theorem Meets.symm (meets : Meets id ty lhs rhs) : Meets id ty rhs lhs := by
  induction meets with
  | left => exact .right
  | right => exact .left
  | array length elements swapped => exact .array length swapped

theorem Meets.leaves (meets : Meets id ty lhs rhs) :
    lhs.leaf = .var id ∧ rhs.leaf = ty.leaf ∨ rhs.leaf = .var id ∧ lhs.leaf = ty.leaf := by
  induction meets with
  | left => exact .inl ⟨rfl, rfl⟩
  | right => exact .inr ⟨rfl, rfl⟩
  | array length elements elementLeaves => exact elementLeaves

def IsLiteral (ty : InferType) : Prop := ty = .intLiteral ∨ ty = .floatLiteral

theorem not_isLiteral_var (id : TypeVarId) : ¬ IsLiteral (.var id) := by
  rintro (isInt | isFloat)
  · cases isInt
  · cases isFloat

theorem not_isLiteral_concrete (ty : Ty) : ¬ IsLiteral (.concrete ty) := by
  rintro (isInt | isFloat)
  · cases isInt
  · cases isFloat

theorem LiteralTakes.isLiteral {ty : Ty} (takes : LiteralTakes literal ty) :
    IsLiteral literal := takes.imp And.left And.left

theorem IsLiteral.leafVar (isLiteral : IsLiteral ty.leaf) : ty.leafVar = none := by
  cases found : ty.leafVar with
  | none => rfl
  | some id =>
    rw [(leafVar_eq_some ty id).mp found] at isLiteral
    exact absurd isLiteral (not_isLiteral_var id)

theorem InferType.leaf_cases (ty : InferType) : (∃ id, ty.leaf = .var id) ∨ Ground ty ∨ IsLiteral ty.leaf := by
  induction ty with
  | concrete ty => exact .inr (.inl ⟨ty, rfl⟩)
  | var id => exact .inl ⟨id, rfl⟩
  | intLiteral => exact .inr (.inr (.inl rfl))
  | floatLiteral => exact .inr (.inr (.inr rfl))
  | array element length elementCases => exact elementCases

theorem not_literal_of_ground (ground : Ground ty) : ¬ IsLiteral ty.leaf := by
  obtain ⟨concreteTy, isConcrete⟩ := ground
  rw [isConcrete]
  exact not_isLiteral_concrete concreteTy

theorem InferType.leaf_relabel (literal : InferType) (ty : Ty) (target : InferType) :
    (relabel literal ty target).leaf = target.leaf ∨ (relabel literal ty target).leaf = .concrete ty := by
  induction target with
  | array element length elementCases => exact elementCases
  | _ =>
    simp only [relabel]
    split
    · exact .inr rfl
    · exact .inl rfl

theorem InferType.relabel_of_leaf {target : InferType} {ty : Ty} (other : target.leaf ≠ literal) :
    relabel literal ty target = target := by
  induction target with
  | array element length elementSame => simp [relabel, elementSame other]
  | _ => exact if_neg other

inductive Effect (assignment : Assignment) (lhs rhs : InferType) : Assignment → Prop
  | unchanged (leaves : lhs.leafVar = rhs.leafVar) : Effect assignment lhs rhs assignment
  | binds (var : TypeVarId) (ty : InferType) (free : assignment var = .var var)
      (settled : ty.subst assignment = ty) (absent : ty.leafVar ≠ some var)
      (meets : Meets var ty lhs rhs) : Effect assignment lhs rhs (assignment.bind var ty)
  | relabels (literal : InferType) (ty : Ty) (after : Assignment)
      (takes : LiteralTakes literal ty) (overwrites : Overwrites assignment after literal ty)
      (sides : lhs.leaf = literal ∧ rhs.leaf = .concrete ty ∨ lhs.leaf = .concrete ty ∧ rhs.leaf = literal) :
      Effect assignment lhs rhs after

theorem Effect.symm (effect : Effect assignment lhs rhs after) : Effect assignment rhs lhs after := by
  cases effect with
  | unchanged leaves => exact .unchanged leaves.symm
  | binds var ty free settled absent meets => exact .binds var ty free settled absent meets.symm
  | relabels literal ty _ takes overwrites sides =>
    exact .relabels literal ty after takes overwrites
      (sides.symm.imp (fun side => ⟨side.2, side.1⟩) fun side => ⟨side.2, side.1⟩)

theorem LiteralTakes.leaf {ty : Ty} (takes : LiteralTakes literal ty) : literal.leaf = literal := by
  rcases takes with ⟨rfl, _⟩ | ⟨rfl, _⟩ <;> rfl

theorem Unified.effect (unified : Unified assignment lhs rhs after) : Effect assignment lhs rhs after := by
  induction unified with
  | same ty => exact .unchanged rfl
  | coerce t1 t2 coerces => exact .unchanged rfl
  | bind var ty free settled absent => exact .binds var ty free settled absent .left
  | literal literal ty after takes overwrites =>
    exact .relabels literal ty after takes overwrites (.inl ⟨takes.leaf, rfl⟩)
  | literalError literal isLiteral =>
    refine .unchanged ?_
    rcases isLiteral with rfl | rfl <;> rfl
  | array first second length after elements elementEffect =>
    cases elementEffect with
    | unchanged leaves => exact .unchanged leaves
    | binds var ty free settled absent meets =>
      exact .binds var ty free settled absent (.array length meets)
    | relabels literal ty _ takes overwrites sides =>
      exact .relabels literal ty after takes overwrites sides
  | symm first second after unified swapped => exact swapped.symm

namespace Effect

variable {assignment after : Assignment} {lhs rhs : InferType}

theorem relabel_leafVar {literal : InferType} (isLiteral : IsLiteral literal) (ty : Ty)
    (target : InferType) : (relabel literal ty target).leafVar = target.leafVar := by
  induction target with
  | array element length elementSame => exact elementSame
  | _ =>
    simp only [relabel]
    split
    · next isLeaf => rcases isLiteral with rfl | rfl <;> cases isLeaf <;> rfl
    · rfl

section

variable (effect : Effect assignment lhs rhs after)
include effect

theorem leafVar_stable {first second : InferType}
    (same : (first.subst assignment).leafVar = (second.subst assignment).leafVar) :
    (first.subst after).leafVar = (second.subst after).leafVar := by
  cases effect with
  | unchanged leaves => exact same
  | binds var ty free settled absent meets =>
    rw [Assignment.subst_bind, Assignment.subst_bind, leafVar_subst, leafVar_subst _ (subst _ _), same]
  | relabels literal ty _ takes overwrites sides =>
    have kept : ∀ target : InferType, (target.subst after).leafVar = (target.subst assignment).leafVar := by
      intro target
      rcases overwrites.subst target with same | relabelled
      · rw [same]
      · rw [relabelled, relabel_leafVar takes.isLiteral]
    rw [kept, kept, same]

theorem leafVar_eq (leftSettled : lhs.subst assignment = lhs) (rightSettled : rhs.subst assignment = rhs) :
    (lhs.subst after).leafVar = (rhs.subst after).leafVar := by
  cases effect with
  | unchanged leaves =>
    rw [leftSettled, rightSettled]
    exact leaves
  | binds var ty free settled absent meets =>
    rw [Assignment.subst_bind, Assignment.subst_bind, leftSettled, rightSettled]
    clear leftSettled rightSettled
    have atType : ty.subst (Assignment.single var ty) = ty :=
      Assignment.subst_single_of_absent absent
    induction meets with
    | left | right => rw [atType, InferType.subst, Assignment.single_self]
    | array length elements elementSame => exact elementSame
  | relabels literal ty _ takes overwrites sides =>
    refine leafVar_stable (.relabels literal ty after takes overwrites sides) ?_
    rw [leftSettled, rightSettled]
    rcases sides with ⟨isLiteral, isConcrete⟩ | ⟨isConcrete, isLiteral⟩
    · have closed : IsLiteral lhs.leaf := isLiteral ▸ takes.isLiteral
      rw [closed.leafVar, Ground.leafVar ⟨ty, isConcrete⟩]
    · have closed : IsLiteral rhs.leaf := isLiteral ▸ takes.isLiteral
      rw [closed.leafVar, Ground.leafVar ⟨ty, isConcrete⟩]

theorem closed_stable {target : InferType} (closed : (target.subst assignment).leafVar = none) :
    (target.subst after).leafVar = none := by
  have same := effect.leafVar_stable
    (show (target.subst assignment).leafVar = (InferType.intLiteral.subst assignment).leafVar from
      closed)
  exact same

theorem ground_stable {id : TypeVarId} (ground : Ground (assignment id)) : after id = assignment id := by
  cases effect with
  | unchanged leaves => rfl
  | binds var ty free settled absent meets =>
    refine Assignment.subst_single_of_absent ?_
    rw [ground.leafVar]
    exact fun isSome => by cases isSome
  | relabels literal ty _ takes overwrites sides =>
    rcases overwrites.each id with same | relabelled
    · exact same
    · obtain ⟨concreteTy, isConcrete⟩ := ground
      rw [relabelled]
      refine relabel_of_leaf fun isLiteral => ?_
      exact takes.notConcrete concreteTy (isConcrete.symm.trans isLiteral)

end

end Effect

namespace Equated

variable {model assignment afterAssignment : Assignment} {before after : Substitution} {equation : Equation}

section

variable (equated : Equated model before assignment equation after afterAssignment)
include equated

theorem effect : Effect assignment (equation.lhs.subst assignment) (equation.rhs.subst assignment) afterAssignment :=
  equated.unified.effect

theorem leafVar_eq : (equation.lhs.subst afterAssignment).leafVar = (equation.rhs.subst afterAssignment).leafVar := by
  obtain ⟨_, represents⟩ := equated.represents
  have resolved := equated.effect.leafVar_eq (represents.idempotent _) (represents.idempotent _)
  have left := equated.effect.leafVar_stable (congrArg leafVar (represents.idempotent equation.lhs))
  have right := equated.effect.leafVar_stable (congrArg leafVar (represents.idempotent equation.rhs))
  rw [← left, ← right, resolved]

theorem afterModels : Models model after := by
  obtain ⟨_, represents⟩ := equated.represents
  exact equated.models.unified represents equated.agrees equated.writes

end

end Equated

namespace Equates

variable {model assignment afterAssignment : Assignment} {before after : Substitution} {equations : List Equation}

theorem preserves (holds : Substitution → Assignment → Prop)
    (equates : Equates model before assignment equations after afterAssignment)
    (step : ∀ equation ∈ equations, ∀ before assignment after afterAssignment,
      Equated model before assignment equation after afterAssignment →
      holds before assignment → holds after afterAssignment)
    (start : holds before assignment) : holds after afterAssignment := by
  induction equates with
  | nil substitution assignment => exact start
  | cons equation equations first rest restHolds =>
    refine restHolds (fun other isMember => step other (.tail _ isMember)) ?_
    exact step equation (.head _) _ _ _ _ first start

section

variable (equates : Equates model before assignment equations after afterAssignment)
include equates

theorem leafVar_stable {first second : InferType}
    (same : (first.subst assignment).leafVar = (second.subst assignment).leafVar) :
    (first.subst afterAssignment).leafVar = (second.subst afterAssignment).leafVar :=
  equates.preserves (fun _ assignment => (first.subst assignment).leafVar = (second.subst assignment).leafVar)
    (fun _ _ _ _ _ _ equated => equated.effect.leafVar_stable) same

theorem closed_stable {target : InferType} (closed : (target.subst assignment).leafVar = none) :
    (target.subst afterAssignment).leafVar = none :=
  equates.preserves (fun _ assignment => (target.subst assignment).leafVar = none)
    (fun _ _ _ _ _ _ equated => equated.effect.closed_stable) closed

theorem leafVar_eq {equation : Equation} (isMember : equation ∈ equations) :
    (equation.lhs.subst afterAssignment).leafVar = (equation.rhs.subst afterAssignment).leafVar := by
  induction equates with
  | nil substitution assignment => cases isMember
  | cons first equations equated rest restEq =>
    rcases List.mem_cons.mp isMember with rfl | inRest
    · exact rest.leafVar_stable equated.leafVar_eq
    · exact restEq inRest

theorem ground_stable {id : TypeVarId} (ground : Ground (assignment id)) : Ground (afterAssignment id) := by
  refine equates.preserves (fun _ assignment => Ground (assignment id))
    (fun _ _ _ assignment _ _ equated ground => ?_) ground
  rw [equated.effect.ground_stable ground]
  exact ground

theorem append {middleEquations : List Equation} {final : Substitution} {finalAssignment : Assignment}
    (rest : Equates model after afterAssignment middleEquations final finalAssignment) :
    Equates model before assignment (equations ++ middleEquations) final finalAssignment := by
  induction equates with
  | nil substitution assignment => exact rest
  | cons equation equations first _ restAppend =>
    exact .cons equation _ first (restAppend rest)

theorem represents (start : ∃ rank, Represents before assignment rank) :
    ∃ rank, Represents after afterAssignment rank :=
  equates.preserves (fun substitution assignment => ∃ rank, Represents substitution assignment rank)
    (fun _ _ _ _ _ _ equated _ => equated.afterRepresents) start

theorem models (start : Models model before) : Models model after :=
  equates.preserves (fun substitution _ => Models model substitution)
    (fun _ _ _ _ _ _ equated _ => equated.afterModels) start

end

end Equates

/-- Every assignment that satisfies the equalities gives the variable the same type. -/
def Determined (intVars floatVars : List TypeVarId) (equations : List Equation) (id : TypeVarId) : Prop :=
  ∀ first second, Satisfies intVars floatVars first equations →
    Satisfies intVars floatVars second equations → first id = second id

namespace InferType

def setLeaf (ty : Ty) : InferType → InferType
  | .array element length => .array (setLeaf ty element) length
  | _ => .concrete ty

theorem leaf_setLeaf (ty : Ty) (target : InferType) : (setLeaf ty target).leaf = .concrete ty := by
  induction target with
  | array element length elementLeaf => exact elementLeaf
  | _ => rfl

def SameKind (first second : Ty) : Prop :=
  first.isInteger = second.isInteger ∧ first.isFloat = second.isFloat

theorem exists_other (ty : Ty) : ∃ other, other ≠ ty ∧ SameKind ty other := by
  by_cases integer : ty.isInteger = true
  · have notFloat := Ty.isFloat_of_isInteger integer
    by_cases isDefault : ty = .i32
    · subst isDefault
      exact ⟨.i64, by decide, rfl, rfl⟩
    · exact ⟨.i32, Ne.symm isDefault, integer, notFloat⟩
  · have notInteger : ty.isInteger = false := Bool.eq_false_iff.mpr integer
    by_cases float : ty.isFloat = true
    · by_cases isDefault : ty = .f64
      · subst isDefault
        exact ⟨.f32, by decide, rfl, rfl⟩
      · exact ⟨.f64, Ne.symm isDefault, notInteger, float⟩
    · have notFloat : ty.isFloat = false := Bool.eq_false_iff.mpr float
      by_cases isBool : ty = .bool
      · subst isBool
        exact ⟨.unit, by decide, rfl, rfl⟩
      · exact ⟨.bool, Ne.symm isBool, notInteger, notFloat⟩

theorem Takes.setLeaf {target ty : InferType} {old new : Ty} (takes : Takes ty target)
    (literal : IsLiteral ty.leaf) (isOld : target.leaf = .concrete old) (same : SameKind old new) :
    Takes ty (setLeaf new target) := by
  induction ty generalizing target with
  | concrete concreteTy => exact absurd literal (not_isLiteral_concrete concreteTy)
  | var id => exact absurd literal (not_isLiteral_var id)
  | array element length elementTakes =>
    cases target with
    | array targetElement targetLength => exact ⟨takes.1, elementTakes takes.2 literal isOld⟩
    | _ => cases takes
  | intLiteral =>
    cases target with
    | concrete concreteTy =>
      have isSame : concreteTy = old := InferType.concrete.inj isOld
      subst isSame
      exact same.1.symm.trans takes
    | _ => cases takes
  | floatLiteral =>
    cases target with
    | concrete concreteTy =>
      have isSame : concreteTy = old := InferType.concrete.inj isOld
      subst isSame
      exact same.2.symm.trans takes
    | _ => cases takes

theorem Agrees.eq_of_ground {lhs rhs : InferType} (agrees : Agrees lhs rhs) (left : Ground lhs)
    (right : Ground rhs) : lhs = rhs := by
  obtain ⟨_, takesLeft, takesRight⟩ := agrees
  exact (left.takes_iff.mp takesLeft).symm.trans (right.takes_iff.mp takesRight)

theorem Ground.subst {model : Assignment} (ground : ∀ id, Ground (model id)) {ty : InferType}
    {id : TypeVarId} (leafId : ty.leafVar = some id) : Ground (ty.subst model) := by
  obtain ⟨concreteTy, isConcrete⟩ := ground id
  refine ⟨concreteTy, ?_⟩
  rw [leaf_subst, (leafVar_eq_some ty id).mp leafId]
  exact isConcrete

end InferType

def releaf (model assignment : Assignment) (root : TypeVarId) (ty : Ty) : Assignment := fun id =>
  if (assignment id).leafVar = some root then setLeaf ty (model id) else model id

section Releaf

variable {model assignment : Assignment} {root : TypeVarId} {new : Ty}
variable {substitution : Substitution} {rank : TypeVarId → Nat} {old : Ty}

theorem releaf_ground (ground : ∀ id, Ground (model id)) (id : TypeVarId) :
    Ground (releaf model assignment root new id) := by
  unfold releaf
  split
  · exact ⟨new, leaf_setLeaf new _⟩
  · exact ground id

theorem subst_releaf (ty : InferType) : ty.subst (releaf model assignment root new) =
      if (ty.subst assignment).leafVar = some root then setLeaf new (ty.subst model)
      else ty.subst model := by
  induction ty with
  | var id => rfl
  | array element length elementSame =>
    simp only [InferType.subst, leafVar, elementSame]
    split <;> rfl
  | _ => rfl

theorem leaf_model (models : Models model substitution) (represents : Represents substitution assignment rank)
    (isOld : (model root).leaf = .concrete old) (ty : InferType)
    (inside : (ty.subst assignment).leafVar = some root) :
    Ground (ty.subst model) ∧ (ty.subst model).leaf = .concrete old := by
  have hasLeaf : ∃ id, ty.leafVar = some id := by
    rw [leafVar_subst] at inside
    cases leafId : ty.leafVar with
    | none =>
      rw [leafId] at inside
      cases inside
    | some id => exact ⟨id, rfl⟩
  obtain ⟨id, leafId⟩ := hasLeaf
  have ground := Ground.subst models.ground leafId
  have resolved := models.takes_subst represents ground.takes_self
  have resolvedGround := Ground.subst models.ground inside
  have same := resolvedGround.takes_iff.mp resolved
  refine ⟨ground, ?_⟩
  rw [same, leaf_subst, (leafVar_eq_some _ root).mp inside]
  exact isOld

theorem releaf_agrees (models : Models model substitution) (represents : Represents substitution assignment rank)
    (isOld : (model root).leaf = .concrete old) (same : SameKind old new) {lhs rhs : InferType}
    (agrees : Agrees (lhs.subst model) (rhs.subst model))
    (linked : (lhs.subst assignment).leafVar = (rhs.subst assignment).leafVar ∨
      IsLiteral lhs.leaf ∨ IsLiteral rhs.leaf) :
    Agrees (lhs.subst (releaf model assignment root new)) (rhs.subst (releaf model assignment root new)) := by
  -- A side with a placeholder takes every type of the kind, so the other side may change its leaf.
  have againstLiteral : ∀ {first second : InferType}, IsLiteral first.leaf →
      Agrees (first.subst model) (second.subst model) →
      Agrees (first.subst (releaf model assignment root new)) (second.subst (releaf model assignment root new)) := by
    intro first second isLiteral pair
    rw [subst_of_closed isLiteral.leafVar] at pair ⊢
    rw [subst_releaf]
    split
    · next inside =>
        obtain ⟨ground, leafOld⟩ := leaf_model models represents isOld _ inside
        obtain ⟨_, takesFirst, takesSecond⟩ := pair
        rw [ground.takes_iff.mp takesSecond] at takesFirst
        refine ⟨setLeaf new (second.subst model), takesFirst.setLeaf isLiteral leafOld same, ?_⟩
        exact Ground.takes_self ⟨new, leaf_setLeaf new _⟩
    · exact pair
  rcases linked with sameLeaf | leftLiteral | rightLiteral
  · rw [subst_releaf, subst_releaf, sameLeaf]
    split
    · next inside =>
        obtain ⟨leftGround, _⟩ := leaf_model models represents isOld _ (sameLeaf.trans inside)
        obtain ⟨rightGround, _⟩ := leaf_model models represents isOld _ inside
        rw [agrees.eq_of_ground leftGround rightGround]
        have ground : Ground (setLeaf new (rhs.subst model)) := ⟨new, leaf_setLeaf new _⟩
        exact ⟨_, ground.takes_self, ground.takes_self⟩
    · exact agrees
  · exact againstLiteral leftLiteral agrees
  · exact (againstLiteral rightLiteral agrees.symm).symm

end Releaf

variable {first second : TypeVarId}
variable {substitution : Substitution} {rank : TypeVarId → Nat} {final : Assignment}
variable {equations : List Equation} {id : TypeVarId}
  {assignment model afterAssignment : Assignment} {intVars floatVars : List TypeVarId}
  {ty : InferType} {before after : Substitution}

theorem Determined.closed (determined : Determined intVars floatVars equations id)
    (satisfies : Satisfies intVars floatVars model equations) (models : Models model substitution)
    (represents : Represents substitution assignment rank) (linked : ∀ equation ∈ equations,
      (equation.lhs.subst assignment).leafVar = (equation.rhs.subst assignment).leafVar ∨
        IsLiteral equation.lhs.leaf ∨ IsLiteral equation.rhs.leaf) :
    (assignment id).leafVar = none := by
  cases isRoot : (assignment id).leafVar with
  | none => rfl
  | some root =>
    obtain ⟨old, isOld⟩ := models.ground root
    obtain ⟨new, isNew, same⟩ := exists_other old
    have keeps : ∀ literal, IsLiteral literal.leaf → ∀ var, Takes literal (model var) →
        Takes literal (releaf model assignment root new var) := by
      intro literal isLiteral var takes
      unfold releaf
      split
      · next inside =>
          have leafOld := (leaf_model models represents isOld (.var var) inside).2
          exact takes.setLeaf isLiteral leafOld same
      · exact takes
    have other : Satisfies intVars floatVars (releaf model assignment root new) equations :=
      { ground := releaf_ground models.ground
        ints := fun var isMember => keeps _ (.inl rfl) var (satisfies.ints var isMember)
        floats := fun var isMember => keeps _ (.inr rfl) var (satisfies.floats var isMember)
        agrees := fun equation isMember => releaf_agrees models represents isOld same
          (satisfies.agrees equation isMember) (linked equation isMember) }
    have agree := determined model _ satisfies other
    rw [releaf, if_pos isRoot] at agree
    have leafOld := (leaf_model models represents isOld (.var id) isRoot).2
    have leafNew := congrArg leaf agree
    rw [leaf_setLeaf] at leafNew
    exact absurd (InferType.concrete.inj (leafNew.symm.trans leafOld)) isNew

theorem defaulted_of_ground (ground : Ground ty) : ty.defaulted = ty := by
  induction ty with
  | concrete ty => rfl
  | array element length elementSame => simp [defaulted, elementSame ground]
  | _ =>
    obtain ⟨_, isConcrete⟩ := ground
    cases isConcrete

def IsDefault (ty : InferType) : Prop := ty.leaf = .concrete .i32 ∨ ty.leaf = .concrete .f64

theorem defaulted_eq_iff {target : InferType} (takes : Takes ty target)
    (literal : IsLiteral ty.leaf) : ty.defaulted = target ↔ IsDefault target := by
  induction ty generalizing target with
  | concrete concreteTy => exact absurd literal (not_isLiteral_concrete concreteTy)
  | var id => exact absurd literal (not_isLiteral_var id)
  | array element length elementIff =>
    cases target with
    | array targetElement targetLength =>
      have lengths : length = targetLength := takes.1
      have inner := elementIff takes.2 literal
      simp only [defaulted, lengths, InferType.array.injEq, and_true]
      exact inner
    | _ => cases takes
  | intLiteral =>
    cases target with
    | concrete concreteTy =>
      simp only [defaulted, IsDefault, leaf, InferType.concrete.injEq]
      constructor
      · exact fun isDefault => .inl isDefault.symm
      · rintro (isInt | isFloat)
        · exact isInt.symm
        · rw [isFloat] at takes
          cases takes
    | _ => cases takes
  | floatLiteral =>
    cases target with
    | concrete concreteTy =>
      simp only [defaulted, IsDefault, leaf, InferType.concrete.injEq]
      constructor
      · exact fun isDefault => .inr isDefault.symm
      · rintro (isInt | isFloat)
        · rw [isInt] at takes
          cases takes
        · exact isFloat.symm
    | _ => cases takes

theorem Defaults.closed {solved : Assignment} (defaults : Defaults solved final intVars floatVars)
    (closed : (solved id).leafVar = none) : final id = solved id := by
  rcases defaults.leaf id with same | ⟨_, _, changed⟩
  · exact same
  · rw [changed, subst_of_closed closed]

theorem Models.finalType_eq_iff (models : Models model substitution)
    (represents : Represents substitution assignment rank)
    (defaults : Defaults assignment final intVars floatVars)
    (closed : (assignment id).leafVar = none) :
    finalType final (.var id) = model id ↔ Ground (assignment id) ∨ IsDefault (model id) := by
  have resolved : finalType final (.var id) = (assignment id).defaulted :=
    congrArg defaulted (defaults.closed closed)
  have takes := models.takes_assignment represents id
  rw [subst_of_closed closed] at takes
  rw [resolved]
  rcases leaf_cases (assignment id) with ⟨root, isVar⟩ | ground | literal
  · rw [(leafVar_eq_some _ root).mpr isVar] at closed
    cases closed
  · rw [defaulted_of_ground ground, ground.takes_iff.mp takes]
    exact ⟨fun _ => .inl ground, fun _ => rfl⟩
  · rw [defaulted_eq_iff takes literal]
    exact ⟨.inr, fun either => either.resolve_left fun ground => not_literal_of_ground ground literal⟩

def Direct (equations : List Equation) (id : TypeVarId) : Prop :=
  ∃ equation ∈ equations, ∃ ty, equation.lhs = .var id ∧ equation.rhs = .concrete ty ∨
    equation.lhs = .concrete ty ∧ equation.rhs = .var id

theorem Effect.binds_concrete {after : Assignment} {lhs rhs : InferType}
    (effect : Effect assignment lhs rhs after) {root : TypeVarId} {ty : Ty}
    (sides : lhs = .var root ∧ rhs = .concrete ty ∨ lhs = .concrete ty ∧ rhs = .var root) :
    after = assignment.bind root (.concrete ty) := by
  cases effect with
  | unchanged leaves => rcases sides with ⟨rfl, rfl⟩ | ⟨rfl, rfl⟩ <;> cases leaves
  | binds var bound free settled absent meets =>
    rcases sides with ⟨rfl, rfl⟩ | ⟨rfl, rfl⟩ <;> cases meets <;> rfl
  | relabels literal other _ takes overwrites leaves =>
    rcases sides with ⟨rfl, rfl⟩ | ⟨rfl, rfl⟩
    · rcases takes with ⟨rfl, _⟩ | ⟨rfl, _⟩ <;> rcases leaves with ⟨left, _⟩ | ⟨left, _⟩ <;> cases left
    · rcases takes with ⟨rfl, _⟩ | ⟨rfl, _⟩ <;> rcases leaves with ⟨_, right⟩ | ⟨_, right⟩ <;> cases right

theorem Equated.ground_of_direct {equation : Equation}
    (equated : Equated model before assignment equation after afterAssignment) {ty : Ty}
    (sides : equation.lhs = .var id ∧ equation.rhs = .concrete ty ∨
      equation.lhs = .concrete ty ∧ equation.rhs = .var id) : Ground (afterAssignment id) := by
  obtain ⟨_, represents⟩ := equated.represents
  obtain ⟨_, afterRepresents⟩ := equated.afterRepresents
  have takes := equated.models.takes_assignment represents id
  have atModel : model id = .concrete ty := by
    obtain ⟨_, left, right⟩ := equated.agrees
    rcases sides with ⟨isVar, isConcrete⟩ | ⟨isConcrete, isVar⟩
    · rw [isVar] at left
      rw [isConcrete] at right
      exact ((equated.models.ground id).takes_iff.mp left).symm.trans right
    · rw [isVar] at right
      rw [isConcrete] at left
      exact ((equated.models.ground id).takes_iff.mp right).symm.trans left
  rw [atModel] at takes
  have ofLiteral : ∀ literal, LiteralTakes literal ty → assignment id = literal → Ground (afterAssignment id) := by
    intro literal literalTakes resolved
    have written : after.get id = some (.concrete ty) := by
      refine equated.writes.rebinds id literal ty literalTakes resolved ?_
      rcases sides with ⟨isVar, isConcrete⟩ | ⟨isConcrete, isVar⟩
      · exact .inl ⟨isVar, by rw [isConcrete]; rfl⟩
      · exact .inr ⟨isVar, by rw [isConcrete]; rfl⟩
    rw [afterRepresents.bound id _ written]
    exact ⟨ty, rfl⟩
  cases resolved : assignment id with
  | concrete other =>
    have ground : Ground (assignment id) := by
      rw [resolved]
      exact ⟨other, rfl⟩
    rw [equated.effect.ground_stable ground]
    exact ground
  | var root =>
    have bound : afterAssignment = assignment.bind root (.concrete ty) := by
      refine equated.effect.binds_concrete ?_
      rcases sides with ⟨isVar, isConcrete⟩ | ⟨isConcrete, isVar⟩
      · rw [isVar, isConcrete]
        exact .inl ⟨resolved, rfl⟩
      · rw [isVar, isConcrete]
        exact .inr ⟨rfl, resolved⟩
    rw [bound, Assignment.bind, resolved]
    refine ⟨ty, ?_⟩
    rw [InferType.subst, Assignment.single_self]
    rfl
  | intLiteral =>
    rw [resolved] at takes
    exact ofLiteral _ (.inl ⟨rfl, takes⟩) resolved
  | floatLiteral =>
    rw [resolved] at takes
    exact ofLiteral _ (.inr ⟨rfl, takes⟩) resolved
  | array element length =>
    rw [resolved] at takes
    cases takes

theorem Equates.ground_of_direct (equates : Equates model before assignment equations after afterAssignment)
    (direct : Direct equations id) : Ground (afterAssignment id) := by
  obtain ⟨_, isMember, _, sides⟩ := direct
  induction equates with
  | nil substitution assignment => cases isMember
  | cons first equations equated rest restGround =>
    rcases List.mem_cons.mp isMember with rfl | inRest
    · exact rest.ground_stable (equated.ground_of_direct sides)
    · exact restGround inRest

def Edge (equations : List Equation) (first second : TypeVarId) : Prop := ∃ equation ∈ equations,
    equation.lhs.leaf = .var first ∧ equation.rhs.leaf = .var second ∨
      equation.lhs.leaf = .var second ∧ equation.rhs.leaf = .var first

def Linked (equations : List Equation) : TypeVarId → TypeVarId → Prop :=
  Relation.ReflTransGen (Edge equations)

def MeetsLiteral (equations : List Equation) (id : TypeVarId) : Prop := ∃ equation ∈ equations,
    equation.lhs.leaf = .var id ∧ IsLiteral equation.rhs.leaf ∨
      IsLiteral equation.lhs.leaf ∧ equation.rhs.leaf = .var id

def LiteralLinked (equations : List Equation) (id : TypeVarId) : Prop :=
  ∃ other, Linked equations id other ∧ MeetsLiteral equations other

theorem Edge.symm (edge : Edge equations first second) : Edge equations second first := by
  obtain ⟨equation, isMember, sides⟩ := edge
  exact ⟨equation, isMember, sides.symm⟩

theorem Linked.symm (linked : Linked equations first second) : Linked equations second first := by
  induction linked with
  | refl => exact .refl
  | tail path edge backwards => exact .head edge.symm backwards

theorem LiteralLinked.of_linked (linked : Linked equations first second)
    (literal : LiteralLinked equations second) : LiteralLinked equations first := by
  obtain ⟨other, path, meets⟩ := literal
  exact ⟨other, linked.trans path, meets⟩

structure LeavesLinked (equations : List Equation) (assignment : Assignment) : Prop where
  var : ∀ id root, (assignment id).leaf = .var root → Linked equations id root
  literal : ∀ id, IsLiteral (assignment id).leaf → LiteralLinked equations id

theorem leaf_bind (assignment : Assignment) (var id : TypeVarId) (ty : InferType) : (assignment.bind var ty id).leaf =
      if (assignment id).leaf = .var var then ty.leaf else (assignment id).leaf := by
  rw [Assignment.bind, leaf_subst]
  rcases leaf_cases (assignment id) with ⟨root, isVar⟩ | ⟨_, isConcrete⟩ | isInt | isFloat
  · rw [isVar, InferType.subst]
    by_cases same : root = var
    · rw [if_pos (congrArg _ same), same, Assignment.single_self]
    · rw [if_neg fun isRoot => same (InferType.var.inj isRoot), Assignment.single_other ty same]
      rfl
  · rw [isConcrete]
    rfl
  · rw [isInt]
    rfl
  · rw [isFloat]
    rfl

namespace LeavesLinked

variable {equations : List Equation} {assignment : Assignment}
variable {ty : InferType} {model afterAssignment : Assignment} {before after : Substitution}

section

variable (linked : LeavesLinked equations assignment)
include linked

theorem leaf_subst_var {root : TypeVarId} (resolved : (ty.subst assignment).leaf = .var root) :
    ∃ id, ty.leaf = .var id ∧ Linked equations id root := by
  rw [leaf_subst] at resolved
  rcases leaf_cases ty with ⟨id, isVar⟩ | ⟨_, isConcrete⟩ | isInt | isFloat
  · rw [isVar] at resolved
    exact ⟨id, isVar, linked.var id root resolved⟩
  · rw [isConcrete] at resolved
    cases resolved
  · rw [isInt] at resolved
    cases resolved
  · rw [isFloat] at resolved
    cases resolved

theorem leaf_subst_literal (resolved : IsLiteral (ty.subst assignment).leaf) :
    IsLiteral ty.leaf ∨ ∃ id, ty.leaf = .var id ∧ LiteralLinked equations id := by
  rw [leaf_subst] at resolved
  rcases leaf_cases ty with ⟨id, isVar⟩ | ⟨concreteTy, isConcrete⟩ | literal
  · rw [isVar] at resolved
    exact .inr ⟨id, isVar, linked.literal id resolved⟩
  · rw [isConcrete] at resolved
    exact absurd resolved (not_isLiteral_concrete concreteTy)
  · exact .inl literal

theorem bind {first second : InferType} {var : TypeVarId}
    (edge : ∀ id other, first.leaf = .var id → second.leaf = .var other → Edge equations id other)
    (meetsLiteral : ∀ id, first.leaf = .var id → IsLiteral second.leaf → MeetsLiteral equations id)
    (atVar : (first.subst assignment).leaf = .var var)
    (atType : (second.subst assignment).leaf = ty.leaf) :
    LeavesLinked equations (assignment.bind var ty) := by
  obtain ⟨id, firstLeaf, toVar⟩ := linked.leaf_subst_var atVar
  constructor
  · intro other root resolved
    rw [leaf_bind] at resolved
    split at resolved
    · next atOther =>
        rw [← atType] at resolved
        obtain ⟨next, secondLeaf, toRoot⟩ := linked.leaf_subst_var resolved
        have toId : Linked equations other id := (linked.var other var atOther).trans toVar.symm
        exact (toId.tail (edge id next firstLeaf secondLeaf)).trans toRoot
    · exact linked.var other root resolved
  · intro other literal
    rw [leaf_bind] at literal
    split at literal
    · next atOther =>
        rw [← atType] at literal
        have toId : Linked equations other id := (linked.var other var atOther).trans toVar.symm
        rcases linked.leaf_subst_literal literal with isLiteral | ⟨next, secondLeaf, tainted⟩
        · exact ⟨id, toId, meetsLiteral id firstLeaf isLiteral⟩
        · exact .of_linked (toId.tail (edge id next firstLeaf secondLeaf)) tainted
    · exact linked.literal other literal

theorem equated {equation : Equation} (isMember : equation ∈ equations)
    (equated : Equated model before assignment equation after afterAssignment) :
    LeavesLinked equations afterAssignment := by
  have effect := equated.effect
  cases effect with
  | unchanged leaves => exact linked
  | binds var ty free settled absent meets =>
    rcases meets.leaves with ⟨atVar, atType⟩ | ⟨atVar, atType⟩
    · refine linked.bind (fun id other left right => ?_) (fun id left right => ?_) atVar atType
      · exact ⟨equation, isMember, .inl ⟨left, right⟩⟩
      · exact ⟨equation, isMember, .inl ⟨left, right⟩⟩
    · refine linked.bind (fun id other right left => ?_) (fun id right left => ?_) atVar atType
      · exact ⟨equation, isMember, .inr ⟨left, right⟩⟩
      · exact ⟨equation, isMember, .inr ⟨left, right⟩⟩
  | relabels literal ty _ takes overwrites sides =>
    have kept : ∀ id, (afterAssignment id).leaf = (assignment id).leaf ∨
        (afterAssignment id).leaf = .concrete ty := by
      intro id
      rcases overwrites.each id with same | relabelled
      · exact .inl (congrArg leaf same)
      · rw [relabelled]
        exact leaf_relabel literal ty (assignment id)
    constructor
    · intro id root resolved
      rcases kept id with same | changed
      · exact linked.var id root (same.symm.trans resolved)
      · rw [changed] at resolved
        cases resolved
    · intro id isLiteral
      rcases kept id with same | changed
      · exact linked.literal id (same ▸ isLiteral)
      · rw [changed] at isLiteral
        exact absurd isLiteral (not_isLiteral_concrete ty)

end

theorem start (equations : List Equation) : LeavesLinked equations .var where
  var id root isRoot := by
    have same : id = root := InferType.var.inj isRoot
    subst same
    exact .refl
  literal id isLiteral := absurd isLiteral (not_isLiteral_var id)

theorem equates {order : List Equation} (linked : LeavesLinked equations assignment)
    (members : ∀ equation ∈ order, equation ∈ equations)
    (equates : Equates model before assignment order after afterAssignment) :
    LeavesLinked equations afterAssignment :=
  equates.preserves (fun _ assignment => LeavesLinked equations assignment)
    (fun _ isMember _ _ _ _ equated linked => linked.equated (members _ isMember) equated) linked

end LeavesLinked

def BoundDirectly (substitution : Substitution) : Prop :=
  ∀ id ty, substitution.get id = some ty → ty.leafVar = none

namespace Equated

variable {model assignment afterAssignment : Assignment} {before after : Substitution} {equation : Equation}

variable {id : TypeVarId} {ty : InferType}

section

variable (equated : Equated model before assignment equation after afterAssignment)
include equated

theorem subst_binding (found : before.get id = some ty) (closed : ty.leafVar = none) : assignment id = ty := by
  obtain ⟨_, represents⟩ := equated.represents
  rw [represents.bound id ty found, subst_of_closed closed]

theorem boundDirectly (direct : BoundDirectly before) (closed : (equation.lhs.subst assignment).leafVar = none ∨
      (equation.rhs.subst assignment).leafVar = none) :
    BoundDirectly after := by
  intro id ty found
  have written := equated.writes.each id
  rw [found] at written
  cases wasBound : before.get id with
  | none =>
    rw [wasBound] at written
    cases written with
    | bound _ meets =>
      -- The variable is the leaf of one side, so the other side is the one without variables.
      cases leafId : ty.leafVar with
      | none => rfl
      | some root =>
        rcases meets.leaves with ⟨atVar, atType⟩ | ⟨atVar, atType⟩ <;>
          rw [(leafVar_eq_some ty root).mp leafId] at atType <;>
          rw [← leafVar_eq_some] at atVar atType <;>
          rcases closed with isClosed | isClosed <;>
          simp_all
  | some binding =>
    rw [wasBound] at written
    have bindingClosed := direct id binding wasBound
    cases written with
    | kept _ => exact bindingClosed
    | compressed _ =>
      rw [equated.subst_binding wasBound bindingClosed]
      exact bindingClosed
    | rebound _ literal concreteTy takes resolved sides => rfl

theorem keeps_binding (found : before.get id = some ty) (closed : ty.leafVar = none) (quiet : ∀ concreteTy,
      ¬ (equation.lhs = .var id ∧ equation.rhs.subst assignment = .concrete concreteTy) ∧
      ¬ (equation.rhs = .var id ∧ equation.lhs.subst assignment = .concrete concreteTy)) :
    after.get id = some ty := by
  have written := equated.writes.each id
  rw [found] at written
  generalize after.get id = binding at written
  cases written with
  | kept _ => rfl
  | compressed _ => rw [equated.subst_binding found closed]
  | rebound _ literal concreteTy takes resolved sides =>
    rcases sides with left | right
    · exact absurd left (quiet concreteTy).1
    · exact absurd right (quiet concreteTy).2

end

end Equated

variable {assignment : Assignment} {ty : InferType}

theorem exists_frontier {substitution : Substitution} {model : Assignment} {rank : TypeVarId → Nat}
    (represents : Represents substitution assignment rank) (models : Models model substitution)
    (direct : BoundDirectly substitution) (equations : List Equation)
    (agrees : ∀ equation ∈ equations, Agrees (equation.lhs.subst model) (equation.rhs.subst model)) :
    ∃ first rest after afterAssignment, (first ++ rest).Perm equations ∧
      Equates model substitution assignment first after afterAssignment ∧
      BoundDirectly after ∧
      (∀ equation ∈ first, (equation.lhs.subst afterAssignment).leafVar = none ∧
        (equation.rhs.subst afterAssignment).leafVar = none) ∧
      ∀ equation ∈ rest, (equation.lhs.subst afterAssignment).leafVar ≠ none ∧
        (equation.rhs.subst afterAssignment).leafVar ≠ none := by
  induction bounded : equations.length generalizing substitution assignment rank equations with
  | zero =>
    have isEmpty : equations = [] := List.eq_nil_of_length_eq_zero bounded
    subst isEmpty
    exact ⟨[], [], substitution, assignment, .nil, .nil _ _, direct, List.forall_mem_nil _, List.forall_mem_nil _⟩
  | succ bound ih =>
    by_cases found : ∃ equation ∈ equations, (equation.lhs.subst assignment).leafVar = none ∨
        (equation.rhs.subst assignment).leafVar = none
    · obtain ⟨equation, isMember, closed⟩ := found
      obtain ⟨_, middleAssignment, _, middleRepresents, middleModels, equated⟩ :=
        represents.solve_equation models equation (agrees equation isMember)
      have shorter : (equations.erase equation).length = bound := by
        rw [List.length_erase_of_mem isMember]
        omega
      obtain ⟨first, rest, after, afterAssignment, perm, equates, afterDirect, firstClosed,
        restOpen⟩ := ih middleRepresents middleModels (equated.boundDirectly direct closed) (equations.erase equation)
          (fun other otherMember => agrees other (List.mem_of_mem_erase otherMember)) shorter
      have middleClosed : (equation.lhs.subst middleAssignment).leafVar = none := by
        rcases closed with left | right
        · exact equated.effect.closed_stable left
        · rw [equated.leafVar_eq]
          exact equated.effect.closed_stable right
      refine ⟨equation :: first, rest, after, afterAssignment, ?_, .cons equation first equated
        equates, afterDirect, fun other otherMember => ?_, restOpen⟩
      · exact (perm.cons equation).trans (List.perm_cons_erase isMember).symm
      · rcases List.mem_cons.mp otherMember with rfl | inFirst
        · exact ⟨equates.closed_stable middleClosed, equates.closed_stable (equated.leafVar_eq ▸ middleClosed)⟩
        · exact firstClosed other inFirst
    · refine ⟨[], equations, substitution, assignment, .refl _, .nil _ _, direct,
        List.forall_mem_nil _, fun equation isMember => ?_⟩
      constructor
      · exact fun closed => found ⟨equation, isMember, .inl closed⟩
      · exact fun closed => found ⟨equation, isMember, .inr closed⟩

theorem ground_of_ground_subst (ground : Ground (ty.subst assignment)) :
    Ground ty ∨ ∃ id, Ground (assignment id) := by
  obtain ⟨concreteTy, isConcrete⟩ := ground
  rw [leaf_subst] at isConcrete
  rcases leaf_cases ty with ⟨id, isVar⟩ | ground | isInt | isFloat
  · rw [isVar] at isConcrete
    exact .inr ⟨id, concreteTy, isConcrete⟩
  · exact .inl ground
  · rw [isInt] at isConcrete
    cases isConcrete
  · rw [isFloat] at isConcrete
    cases isConcrete

theorem literal_of_literal_subst (literal : IsLiteral (ty.subst assignment).leaf) :
    IsLiteral ty.leaf ∨ ∃ id, IsLiteral (assignment id).leaf := by
  rw [leaf_subst] at literal
  rcases leaf_cases ty with ⟨id, isVar⟩ | ground | isLiteral
  · rw [isVar] at literal
    exact .inr ⟨id, literal⟩
  · obtain ⟨concreteTy, isConcrete⟩ := ground
    rw [isConcrete] at literal
    exact absurd literal (not_isLiteral_concrete concreteTy)
  · exact .inl isLiteral

namespace Equated

variable {model assignment afterAssignment : Assignment} {before after : Substitution} {equation : Equation}

theorem no_ground (equated : Equated model before assignment equation after afterAssignment)
    (left : ¬ Ground equation.lhs) (right : ¬ Ground equation.rhs)
    (none : ∀ id, ¬ Ground (assignment id)) (id : TypeVarId) :
    ¬ Ground (afterAssignment id) := by
  have noneLeft : ¬ Ground (equation.lhs.subst assignment) := fun ground =>
    (ground_of_ground_subst ground).elim left fun ⟨other, otherGround⟩ => none other otherGround
  have noneRight : ¬ Ground (equation.rhs.subst assignment) := fun ground =>
    (ground_of_ground_subst ground).elim right fun ⟨other, otherGround⟩ => none other otherGround
  have effect := equated.effect
  cases effect with
  | unchanged leaves => exact none id
  | binds var ty free settled absent meets =>
    rintro ⟨concreteTy, isConcrete⟩
    rw [leaf_bind] at isConcrete
    split at isConcrete
    · rcases meets.leaves with ⟨_, atType⟩ | ⟨_, atType⟩
      · exact noneRight ⟨concreteTy, atType.trans isConcrete⟩
      · exact noneLeft ⟨concreteTy, atType.trans isConcrete⟩
    · exact none id ⟨concreteTy, isConcrete⟩
  | relabels literal ty _ takes overwrites sides =>
    rcases sides with ⟨_, isConcrete⟩ | ⟨isConcrete, _⟩
    · exact absurd ⟨ty, isConcrete⟩ noneRight
    · exact absurd ⟨ty, isConcrete⟩ noneLeft

theorem no_literal (equated : Equated model before assignment equation after afterAssignment)
    (sides : ¬ IsLiteral equation.lhs.leaf ∧ ¬ IsLiteral equation.rhs.leaf ∨
      Ground equation.lhs ∨ Ground equation.rhs)
    (none : ∀ id, ¬ IsLiteral (assignment id).leaf) (id : TypeVarId) :
    ¬ IsLiteral (afterAssignment id).leaf := by
  -- A placeholder is equated with a concrete type here, never with a variable.
  have apart : ∀ first second : InferType, ∀ var,
      (¬ IsLiteral first.leaf ∧ ¬ IsLiteral second.leaf ∨ Ground first ∨ Ground second) →
      (first.subst assignment).leaf = .var var → ¬ IsLiteral (second.subst assignment).leaf := by
    intro first second var kinds atVar literal
    have isLiteral : IsLiteral second.leaf :=
      (literal_of_literal_subst literal).resolve_right fun ⟨other, isOther⟩ => none other isOther
    rcases kinds with ⟨_, notLiteral⟩ | ground | ground
    · exact notLiteral isLiteral
    · obtain ⟨_, isConcrete⟩ := ground
      rw [leaf_subst, isConcrete] at atVar
      cases atVar
    · exact not_literal_of_ground ground isLiteral
  have effect := equated.effect
  cases effect with
  | unchanged leaves => exact none id
  | binds var ty free settled absent meets =>
    rw [leaf_bind]
    split
    · rcases meets.leaves with ⟨atVar, atType⟩ | ⟨atVar, atType⟩
      · rw [← atType]
        exact apart _ _ var sides atVar
      · rw [← atType]
        exact apart _ _ var (sides.imp And.symm Or.symm) atVar
    · exact none id
  | relabels literal ty _ takes overwrites leaves =>
    rcases overwrites.each id with same | relabelled
    · rw [same]
      exact none id
    · rw [relabelled]
      rcases leaf_relabel literal ty (assignment id) with same | isConcrete
      · rw [same]
        exact none id
      · exact not_literal_of_ground ⟨ty, isConcrete⟩

end Equated

section Orders

variable {intVars floatVars : List TypeVarId} {equations : List Equation} {model : Assignment}

theorem exists_order_keeping (satisfies : Satisfies intVars floatVars model equations) (capacity : Nat) :
    ∃ order after afterAssignment, order.Perm equations ∧
      Equates model (Substitution.withCapacity capacity) .var order after afterAssignment ∧
      ∀ id, Determined intVars floatVars equations id → Ground (afterAssignment id) := by
  classical
  let plain : Equation → Bool := fun equation =>
    decide (¬ IsLiteral equation.lhs.leaf ∧ ¬ IsLiteral equation.rhs.leaf ∨ Ground equation.lhs ∨ Ground equation.rhs)
  have perm := List.filter_append_perm plain equations
  have start := Represents.withCapacity capacity
  have startModels := Models.withCapacity satisfies.ground capacity
  obtain ⟨_, middleAssignment, equatesPlain⟩ := start.solve_equations startModels
    (equations.filter plain) fun equation isMember =>
      satisfies.agrees equation (List.mem_of_mem_filter isMember)
  obtain ⟨_, middleRepresents⟩ := equatesPlain.represents ⟨_, start⟩
  have middleModels := equatesPlain.models startModels
  obtain ⟨after, afterAssignment, equatesRest⟩ := middleRepresents.solve_equations middleModels
    (equations.filter fun equation => !plain equation) fun equation isMember =>
      satisfies.agrees equation (List.mem_of_mem_filter isMember)
  have noLiteral : ∀ id, ¬ IsLiteral (middleAssignment id).leaf := by
    refine equatesPlain.preserves (fun _ assignment => ∀ id, ¬ IsLiteral (assignment id).leaf)
      (fun equation isMember _ _ _ _ equated none => ?_) not_isLiteral_var
    exact equated.no_literal (of_decide_eq_true (List.mem_filter.mp isMember).2) none
  refine ⟨_, after, afterAssignment, perm, equatesPlain.append equatesRest, fun id determined => ?_⟩
  have closed : (middleAssignment id).leafVar = none := by
    refine determined.closed satisfies middleModels middleRepresents fun equation isMember => ?_
    by_cases isPlain : plain equation = true
    · exact .inl (equatesPlain.leafVar_eq (List.mem_filter.mpr ⟨isMember, isPlain⟩))
    · refine .inr ?_
      by_contra neither
      rw [not_or] at neither
      exact isPlain (decide_eq_true (.inl neither))
  rcases leaf_cases (middleAssignment id) with ⟨root, isVar⟩ | ground | literal
  · rw [(leafVar_eq_some _ root).mpr isVar] at closed
    cases closed
  · exact equatesRest.ground_stable ground
  · exact absurd literal (noLiteral id)

theorem closed_of_literalLinked {first rest : List Equation} {assignment : Assignment}
    (split : ∀ equation ∈ equations, ¬ Ground equation.lhs → ¬ Ground equation.rhs →
      equation ∈ first ∨ equation ∈ rest)
    (firstClosed : ∀ equation ∈ first, (equation.lhs.subst assignment).leafVar = none ∧
      (equation.rhs.subst assignment).leafVar = none)
    (restOpen : ∀ equation ∈ rest, (equation.lhs.subst assignment).leafVar ≠ none ∧
      (equation.rhs.subst assignment).leafVar ≠ none) {id : TypeVarId}
    (linked : LiteralLinked equations id) : (assignment id).leafVar = none := by
  have atLeaf : ∀ {ty : InferType} {other : TypeVarId}, ty.leaf = .var other →
      (ty.subst assignment).leafVar = (assignment other).leafVar := by
    intro ty other isVar
    rw [leafVar_subst, (leafVar_eq_some ty other).mpr isVar]
    rfl
  have notGround : ∀ {ty : InferType} {other : TypeVarId}, ty.leaf = .var other → ¬ Ground ty := by
    rintro ty other isVar ⟨_, isConcrete⟩
    rw [isVar] at isConcrete
    cases isConcrete
  have closedLiteral : ∀ {ty : InferType}, IsLiteral ty.leaf → (ty.subst assignment).leafVar = none := by
    intro ty isLiteral
    rw [leafVar_subst, isLiteral.leafVar]
    rfl
  obtain ⟨last, path, equation, isMember, sides⟩ := linked
  have lastClosed : (assignment last).leafVar = none := by
    rcases sides with ⟨isVar, isLiteral⟩ | ⟨isLiteral, isVar⟩
    · rcases split equation isMember (notGround isVar)
        (fun ground => not_literal_of_ground ground isLiteral) with inFirst | inRest
      · rw [← atLeaf isVar]
        exact (firstClosed equation inFirst).1
      · exact absurd (closedLiteral isLiteral) (restOpen equation inRest).2
    · rcases split equation isMember (fun ground => not_literal_of_ground ground isLiteral)
        (notGround isVar) with inFirst | inRest
      · rw [← atLeaf isVar]
        exact (firstClosed equation inFirst).2
      · exact absurd (closedLiteral isLiteral) (restOpen equation inRest).1
  induction path using Relation.ReflTransGen.head_induction_on with
  | refl => exact lastClosed
  | head edge _ nextClosed =>
    obtain ⟨edgeEquation, edgeMember, ⟨left, right⟩ | ⟨left, right⟩⟩ := edge
    · rcases split edgeEquation edgeMember (notGround left) (notGround right) with inFirst | inRest
      · rw [← atLeaf left]
        exact (firstClosed edgeEquation inFirst).1
      · refine absurd ?_ (restOpen edgeEquation inRest).2
        rw [atLeaf right]
        exact nextClosed
    · rcases split edgeEquation edgeMember (notGround left) (notGround right) with inFirst | inRest
      · rw [← atLeaf right]
        exact (firstClosed edgeEquation inFirst).2
      · refine absurd ?_ (restOpen edgeEquation inRest).1
        rw [atLeaf left]
        exact nextClosed

/-- Equalities with a concrete type last, and before them the ones that spread a placeholder: a
variable that no equality rebinds is left at the placeholder. -/
theorem exists_order_losing (satisfies : Satisfies intVars floatVars model equations)
    (capacity : Nat) {id : TypeVarId} (linked : LiteralLinked equations id)
    (notDirect : ¬ Direct equations id) :
    ∃ order after afterAssignment, order.Perm equations ∧
      Equates model (Substitution.withCapacity capacity) .var order after afterAssignment ∧
      IsLiteral (afterAssignment id).leaf := by
  classical
  let vague : Equation → Bool := fun equation =>
    decide (¬ Ground equation.lhs ∧ ¬ Ground equation.rhs)
  have start := Represents.withCapacity capacity
  have startModels := Models.withCapacity satisfies.ground capacity
  have startDirect : BoundDirectly (Substitution.withCapacity capacity) := by
    intro var _ found
    rw [Substitution.get_withCapacity] at found
    cases found
  obtain ⟨first, rest, middle, middleAssignment, vaguePerm, equatesFirst, middleDirect,
    firstClosed, restOpen⟩ := exists_frontier start startModels startDirect
      (equations.filter vague) fun equation isMember =>
        satisfies.agrees equation (List.mem_of_mem_filter isMember)
  obtain ⟨rank, middleRepresents⟩ := equatesFirst.represents ⟨_, start⟩
  have middleModels := equatesFirst.models startModels
  have vagueMember : ∀ equation ∈ first ++ rest,
      equation ∈ equations ∧ ¬ Ground equation.lhs ∧ ¬ Ground equation.rhs := by
    intro equation isMember
    have filtered := List.mem_filter.mp (vaguePerm.mem_iff.mp isMember)
    exact ⟨filtered.1, of_decide_eq_true filtered.2⟩
  have split : ∀ equation ∈ equations, ¬ Ground equation.lhs → ¬ Ground equation.rhs →
      equation ∈ first ∨ equation ∈ rest := by
    intro equation isMember left right
    refine List.mem_append.mp (vaguePerm.mem_iff.mpr ?_)
    exact List.mem_filter.mpr ⟨isMember, decide_eq_true ⟨left, right⟩⟩
  have closed := closed_of_literalLinked split firstClosed restOpen linked
  have noGround : ¬ Ground (middleAssignment id) := by
    refine equatesFirst.preserves (fun _ assignment => ∀ var, ¬ Ground (assignment var))
      (fun equation isMember _ _ _ _ equated none => ?_) (fun var ground => ?_) id
    · have kinds := (vagueMember equation (List.mem_append_left _ isMember)).2
      exact equated.no_ground kinds.1 kinds.2 none
    · obtain ⟨concreteTy, isConcrete⟩ := ground
      cases isConcrete
  have literal : IsLiteral (middleAssignment id).leaf := by
    rcases leaf_cases (middleAssignment id) with ⟨root, isVar⟩ | ground | literal
    · rw [(leafVar_eq_some _ root).mpr isVar] at closed
      cases closed
    · exact absurd ground noGround
    · exact literal
  obtain ⟨binding, found⟩ : ∃ binding, middle.get id = some binding := by
    refine Option.ne_none_iff_exists'.mp fun unbound => ?_
    rw [middleRepresents.unbound id unbound] at closed
    cases closed
  have bindingClosed := middleDirect id binding found
  have bindingEq : middleAssignment id = binding := by
    rw [middleRepresents.bound id binding found, subst_of_closed bindingClosed]
  obtain ⟨after, afterAssignment, equatesRest⟩ := middleRepresents.solve_equations middleModels
    (rest ++ equations.filter fun equation => !vague equation) fun equation isMember => by
      rcases List.mem_append.mp isMember with inRest | filtered
      · exact satisfies.agrees equation (vagueMember equation (List.mem_append_right _ inRest)).1
      · exact satisfies.agrees equation (List.mem_of_mem_filter filtered)
  have kept : after.get id = some binding := by
    refine equatesRest.preserves (fun substitution _ => substitution.get id = some binding)
      (fun equation isMember _ assignment _ _ equated wasFound => ?_) found
    refine equated.keeps_binding wasFound bindingClosed fun concreteTy => ?_
    -- Only an equality of the variable itself with a concrete type would rebind it.
    have oneSide : ∀ {side other : InferType}, side = .var id →
        other.subst assignment = .concrete concreteTy → (Ground side ∨ Ground other) →
        other = .concrete concreteTy := by
      rintro side other rfl resolved (⟨_, isConcrete⟩ | ground)
      · cases isConcrete
      · exact (subst_of_closed ground.leafVar assignment).symm.trans resolved
    rcases List.mem_append.mp isMember with inRest | filtered
    · have isOpen := restOpen equation inRest
      constructor
      · rintro ⟨isVar, _⟩
        rw [isVar] at isOpen
        exact isOpen.1 closed
      · rintro ⟨isVar, _⟩
        rw [isVar] at isOpen
        exact isOpen.2 closed
    · obtain ⟨inEquations, notVague⟩ := List.mem_filter.mp filtered
      have hasGround : Ground equation.lhs ∨ Ground equation.rhs := by
        by_contra neither
        rw [not_or] at neither
        have isVague : vague equation = true := decide_eq_true neither
        rw [isVague] at notVague
        cases notVague
      constructor
      · rintro ⟨isVar, resolved⟩
        have isConcrete := oneSide isVar resolved hasGround
        exact notDirect ⟨equation, inEquations, concreteTy, .inl ⟨isVar, isConcrete⟩⟩
      · rintro ⟨isVar, resolved⟩
        have isConcrete := oneSide isVar resolved hasGround.symm
        exact notDirect ⟨equation, inEquations, concreteTy, .inr ⟨isConcrete, isVar⟩⟩
  obtain ⟨_, afterRepresents⟩ := equatesRest.represents ⟨rank, middleRepresents⟩
  refine ⟨first ++ (rest ++ equations.filter fun equation => !vague equation), after,
    afterAssignment, ?_, equatesFirst.append equatesRest, ?_⟩
  · rw [← List.append_assoc]
    exact (vaguePerm.append_right _).trans (List.filter_append_perm vague equations)
  · rw [afterRepresents.bound id binding kept, subst_of_closed bindingClosed, ← bindingEq]
    exact literal

end Orders

/-- The type of a variable after solving the equalities in the given order and defaulting. -/
def Infers (capacity : Nat) (intVars floatVars : List TypeVarId) (order : List Equation)
    (id : TypeVarId) (ty : InferType) : Prop :=
  ∃ errors solved final, Settles (fun fuel => Unifier.solveConstraints fuel (Substitution.withCapacity capacity)
      (order.map Equation.constraint)) (errors, solved) ∧
    Settles (fun fuel => Unifier.defaultLiterals fuel solved intVars floatVars) final ∧
    ResolvesFinally final (.var id) ty

def ReportsNoError (capacity : Nat) (order : List Equation) : Prop :=
  ∃ solved, Settles (fun fuel => Unifier.solveConstraints fuel
    (Substitution.withCapacity capacity) (order.map Equation.constraint)) ([], solved)

/-- Every order of the equalities gives a determined variable the same type. -/
def OrderIndependent (capacity : Nat) (intVars floatVars : List TypeVarId) (equations : List Equation) : Prop :=
  ∀ first second : List Equation, first.Perm equations → second.Perm equations →
    ∀ id, Determined intVars floatVars equations id → ∀ ty,
      Infers capacity intVars floatVars first id ty → Infers capacity intVars floatVars second id ty

/-- A variable the equalities determine and link to a literal has the default type, or it is
equated with its type itself. -/
def LiteralsKeepTypes (intVars floatVars : List TypeVarId) (equations : List Equation) : Prop :=
  ∀ model, Satisfies intVars floatVars model equations →
    ∀ id, Determined intVars floatVars equations id → LiteralLinked equations id →
      IsDefault (model id) ∨ Direct equations id

theorem Equates.infers_iff {model afterAssignment : Assignment} {after : Substitution}
    {capacity : Nat} {order : List Equation}
    (equates : Equates model (Substitution.withCapacity capacity) .var order after afterAssignment)
    (intVars floatVars : List TypeVarId) :
    ∃ final, Defaults afterAssignment final intVars floatVars ∧
      ∀ id ty, Infers capacity intVars floatVars order id ty ↔ ty = finalType final (.var id) := by
  obtain ⟨_, represents⟩ := equates.represents ⟨_, Represents.withCapacity capacity⟩
  obtain ⟨defaulted, final, settles, defaultedRepresents, defaults⟩ :=
    represents.defaultLiterals_settles intVars floatVars
  refine ⟨final, defaults, fun id ty => ?_⟩
  rw [← defaultedRepresents.resolvesFinally_iff]
  constructor
  · rintro ⟨_, _, _, settlesSolved, settlesOther, resolves⟩
    obtain ⟨_, rfl⟩ := Prod.mk.inj (settles_unique equates.settles settlesSolved)
    rw [settles_unique settles settlesOther]
    exact resolves
  · exact fun resolves => ⟨[], after, defaulted, equates.settles, settles, resolves⟩

section Runs

variable {intVars floatVars : List TypeVarId} {equations : List Equation} {model : Assignment}
  {capacity : Nat} {order : List Equation}

theorem Satisfies.solves (satisfies : Satisfies intVars floatVars model equations)
    (capacity : Nat) (perm : order.Perm equations) :
    ∃ after afterAssignment, Equates model (Substitution.withCapacity capacity) .var order after afterAssignment :=
  (Represents.withCapacity capacity).solve_equations (Models.withCapacity satisfies.ground capacity) order
    fun equation isMember => satisfies.agrees equation (perm.mem_iff.mp isMember)

variable {after : Substitution} {afterAssignment : Assignment} {id : TypeVarId}

theorem Equates.closed_of_determined
    (equates : Equates model (Substitution.withCapacity capacity) .var order after afterAssignment)
    (satisfies : Satisfies intVars floatVars model equations) (perm : order.Perm equations)
    (determined : Determined intVars floatVars equations id) :
    (afterAssignment id).leafVar = none := by
  obtain ⟨_, represents⟩ := equates.represents ⟨_, Represents.withCapacity capacity⟩
  have models := equates.models (Models.withCapacity satisfies.ground capacity)
  exact determined.closed satisfies models represents fun equation isMember =>
    .inl (equates.leafVar_eq (perm.mem_iff.mpr isMember))

theorem Equates.infers_of_determined
    (equates : Equates model (Substitution.withCapacity capacity) .var order after afterAssignment)
    (satisfies : Satisfies intVars floatVars model equations) (perm : order.Perm equations)
    (determined : Determined intVars floatVars equations id) :
    ∃ ty, (∀ other, Infers capacity intVars floatVars order id other ↔ other = ty) ∧
      (ty = model id ↔ Ground (afterAssignment id) ∨ IsDefault (model id)) := by
  obtain ⟨_, represents⟩ := equates.represents ⟨_, Represents.withCapacity capacity⟩
  have models := equates.models (Models.withCapacity satisfies.ground capacity)
  obtain ⟨_, defaults, infers⟩ := equates.infers_iff intVars floatVars
  have closed := equates.closed_of_determined satisfies perm determined
  exact ⟨_, infers id, models.finalType_eq_iff represents defaults closed⟩

theorem LiteralsKeepTypes.infers_iff (keeps : LiteralsKeepTypes intVars floatVars equations)
    (satisfies : Satisfies intVars floatVars model equations) (perm : order.Perm equations)
    (determined : Determined intVars floatVars equations id) (ty : InferType) :
    Infers capacity intVars floatVars order id ty ↔ ty = model id := by
  obtain ⟨_, afterAssignment, equates⟩ := satisfies.solves capacity perm
  obtain ⟨only, isOnly, onlyIff⟩ := equates.infers_of_determined satisfies perm determined
  have closed := equates.closed_of_determined satisfies perm determined
  have reached : only = model id := by
    rw [onlyIff]
    rcases leaf_cases (afterAssignment id) with ⟨root, isVar⟩ | ground | literal
    · rw [(leafVar_eq_some _ root).mpr isVar] at closed
      cases closed
    · exact .inl ground
    · have linked := ((LeavesLinked.start equations).equates
        (fun equation isMember => perm.mem_iff.mp isMember) equates).literal id literal
      rcases keeps model satisfies id determined linked with isDefault | direct
      · exact .inr isDefault
      · obtain ⟨equation, isMember, sides⟩ := direct
        exact .inl (equates.ground_of_direct ⟨equation, perm.mem_iff.mpr isMember, sides⟩)
  rw [isOnly, reached]

theorem OrderIndependent.isDefault (independent : OrderIndependent capacity intVars floatVars equations)
    (satisfies : Satisfies intVars floatVars model equations)
    (determined : Determined intVars floatVars equations id)
    (linked : LiteralLinked equations id) (notDirect : ¬ Direct equations id) :
    IsDefault (model id) := by
  obtain ⟨keeping, _, _, keepingPerm, keeps, grounds⟩ :=
    exists_order_keeping satisfies capacity
  obtain ⟨losing, _, _, losingPerm, loses, literal⟩ :=
    exists_order_losing satisfies capacity linked notDirect
  obtain ⟨kept, isKept, keptIff⟩ := keeps.infers_of_determined satisfies keepingPerm determined
  obtain ⟨lost, isLost, lostIff⟩ := loses.infers_of_determined satisfies losingPerm determined
  have transferred := independent keeping losing keepingPerm losingPerm id determined kept ((isKept kept).mpr rfl)
  have same : lost = model id :=
    ((isLost kept).mp transferred).symm.trans (keptIff.mpr (.inl (grounds id determined)))
  exact (lostIff.mp same).resolve_left fun ground => not_literal_of_ground ground literal

end Runs

/-- Satisfiable equalities are solved without an error in every order.  The order does not matter
for the determined variables exactly where no placeholder can hold one of them back from a type
that is not the default. -/
theorem orderIndependent_iff (capacity : Nat) (intVars floatVars : List TypeVarId) (equations : List Equation)
    (satisfiable : ∃ model, Satisfies intVars floatVars model equations) :
    (∀ order : List Equation, order.Perm equations → ReportsNoError capacity order) ∧
      (OrderIndependent capacity intVars floatVars equations ↔ LiteralsKeepTypes intVars floatVars equations) := by
  refine ⟨fun order perm => ?_, fun independent => ?_, fun keeps => ?_⟩
  · obtain ⟨model, satisfies⟩ := satisfiable
    obtain ⟨after, _, equates⟩ := satisfies.solves capacity perm
    exact ⟨after, equates.settles⟩
  · intro model satisfies id determined linked
    by_cases direct : Direct equations id
    · exact .inr direct
    · exact .inl (independent.isDefault satisfies determined linked direct)
  · intro _ _ firstPerm secondPerm id determined ty infersFirst
    obtain ⟨model, satisfies⟩ := satisfiable
    rw [keeps.infers_iff satisfies secondPerm determined]
    exact (keeps.infers_iff satisfies firstPerm determined ty).mp infersFirst

namespace OrderSample

def rebinding : List Equation :=
  [⟨.var 0, .intLiteral, ⟨0, 0, 0⟩⟩, ⟨.var 0, .concrete .i64, ⟨0, 0, 0⟩⟩]

theorem rebinding_satisfies : Satisfies [] [] (fun _ => .concrete .i64) rebinding where
  ground _ := ⟨.i64, rfl⟩
  ints := List.forall_mem_nil _
  floats := List.forall_mem_nil _
  agrees := by
    intro _ isMember
    rcases List.mem_cons.mp isMember with rfl | inRest
    · exact ⟨.concrete .i64, rfl, rfl⟩
    · rcases List.mem_singleton.mp inRest with rfl
      exact ⟨.concrete .i64, rfl, rfl⟩

/-- A variable that meets a literal and is equated with `i64` itself. -/
theorem rebinding_orderIndependent :
    (∃ model, Satisfies [] [] model rebinding) ∧ OrderIndependent 1 [] [] rebinding := by
  have satisfiable : ∃ model, Satisfies [] [] model rebinding := ⟨_, rebinding_satisfies⟩
  refine ⟨satisfiable, (orderIndependent_iff 1 [] [] rebinding satisfiable).2.mpr ?_⟩
  intro model _ id _ linked
  have apart : ∀ equation ∈ rebinding, ∀ other, equation.rhs.leaf ≠ .var other := by
    intro equation isMember other isVar
    rcases List.mem_cons.mp isMember with rfl | inRest
    · cases isVar
    · rcases List.mem_singleton.mp inRest with rfl
      cases isVar
  obtain ⟨last, path, equation, isMember, sides⟩ := linked
  have atZero : last = 0 := by
    rcases sides with ⟨isVar, isLiteral⟩ | ⟨_, isVar⟩
    · rcases List.mem_cons.mp isMember with rfl | inRest
      · exact (InferType.var.inj isVar).symm
      · rcases List.mem_singleton.mp inRest with rfl
        exact absurd isLiteral (not_isLiteral_concrete _)
    · exact absurd isVar (apart equation isMember last)
  have same : id = last := by
    cases path with
    | refl => rfl
    | tail _ edge =>
      obtain ⟨edgeEquation, edgeMember, ⟨_, right⟩ | ⟨_, right⟩⟩ := edge
      · exact absurd right (apart edgeEquation edgeMember _)
      · exact absurd right (apart edgeEquation edgeMember _)
  rw [same, atZero]
  exact .inr ⟨⟨.var 0, .concrete .i64, ⟨0, 0, 0⟩⟩, by decide, .i64, .inl ⟨rfl, rfl⟩⟩

def literalEquation : Equation := ⟨.var 0, .intLiteral, ⟨0, 0, 0⟩⟩

def linkEquation : Equation := ⟨.var 1, .var 0, ⟨0, 0, 0⟩⟩

def typeEquation : Equation := ⟨.var 0, .concrete .i64, ⟨0, 0, 0⟩⟩

/-- The second variable is `i64` by the equalities.  It ends as `i32` when the literal comes first
and as `i64` when it comes last. -/
theorem types_depend_on_order : (∃ model, Satisfies [] [] model [literalEquation, linkEquation, typeEquation]) ∧
      Determined [] [] [literalEquation, linkEquation, typeEquation] 1 ∧
      Infers 2 [] [] [literalEquation, linkEquation, typeEquation] 1 (.concrete .i32) ∧
      Infers 2 [] [] [typeEquation, linkEquation, literalEquation] 1 (.concrete .i64) ∧
      ¬ OrderIndependent 2 [] [] [literalEquation, linkEquation, typeEquation] := by
  have satisfies : Satisfies [] [] (fun _ => .concrete .i64) [literalEquation, linkEquation, typeEquation] := by
    refine ⟨fun _ => ⟨.i64, rfl⟩, List.forall_mem_nil _, List.forall_mem_nil _, ?_⟩
    simp only [List.forall_mem_cons]
    exact ⟨⟨.concrete .i64, rfl, rfl⟩, ⟨.concrete .i64, rfl, rfl⟩, ⟨.concrete .i64, rfl, rfl⟩, List.forall_mem_nil _⟩
  have value : ∀ model, Satisfies [] [] model [literalEquation, linkEquation, typeEquation] →
      model 1 = .concrete .i64 := by
    intro model other
    have link := other.agrees linkEquation (by decide)
    have atType := other.agrees typeEquation (by decide)
    exact (link.eq_of_ground (other.ground 1) (other.ground 0)).trans
      (atType.eq_of_ground (other.ground 0) ⟨.i64, rfl⟩)
  have determined : Determined [] [] [literalEquation, linkEquation, typeEquation] 1 :=
    fun first second isFirst isSecond => (value first isFirst).trans (value second isSecond).symm
  have asInt : Infers 2 [] [] [literalEquation, linkEquation, typeEquation] 1 (.concrete .i32) := by
    refine ⟨[], ⟨[some (.concrete .i64), some .intLiteral]⟩, ⟨[some (.concrete .i64), some .intLiteral]⟩, ?_, ?_, ?_⟩
    · exact settles_of_add 10 fun _ => rfl
    · exact settles_of_add 10 fun _ => rfl
    · exact ⟨⟨[some (.concrete .i64), some .intLiteral]⟩, settles_of_add 10 fun _ => rfl⟩
  have solvesLast : Settles (fun fuel => Unifier.solveConstraints fuel (Substitution.withCapacity 2)
      ([typeEquation, linkEquation, literalEquation].map Equation.constraint))
      ([], ⟨[some (.concrete .i64), some (.concrete .i64)]⟩) :=
    settles_of_add 10 fun _ => rfl
  have defaultsLast : Settles (fun fuel => Unifier.defaultLiterals fuel
      ⟨[some (.concrete .i64), some (.concrete .i64)]⟩ [] [])
      ⟨[some (.concrete .i64), some (.concrete .i64)]⟩ :=
    settles_of_add 10 fun _ => rfl
  have resolvesLast : ResolvesFinally ⟨[some (.concrete .i64), some (.concrete .i64)]⟩ (.var 1) (.concrete .i64) :=
    ⟨⟨[some (.concrete .i64), some (.concrete .i64)]⟩, settles_of_add 10 fun _ => rfl⟩
  refine ⟨⟨_, satisfies⟩, determined, asInt, ⟨_, _, _, solvesLast, defaultsLast, resolvesLast⟩, fun independent => ?_⟩
  have perm : [typeEquation, linkEquation, literalEquation].Perm
      [literalEquation, linkEquation, typeEquation] := by decide
  obtain ⟨_, _, _, settlesSolved, settlesFinal, _, settlesType⟩ :=
    independent _ _ (.refl _) perm 1 determined _ asInt
  obtain ⟨_, rfl⟩ := Prod.mk.inj (settles_unique solvesLast settlesSolved)
  have sameFinal := settles_unique defaultsLast settlesFinal
  subst sameFinal
  obtain ⟨_, settlesLast⟩ := resolvesLast
  have sameType := settles_unique settlesLast settlesType
  cases sameType

end OrderSample

end Gruel
