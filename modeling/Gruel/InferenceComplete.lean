import Gruel.InferenceSound

/-!
Completeness of unification: an assignment of types that satisfies every
equality stays a model of the substitution, so no equality is refused.
-/

namespace Gruel

open Fuel

theorem Ty.isFloat_of_isInteger {ty : Ty} (integer : ty.isInteger = true) : ty.isFloat = false := by
  cases ty <;> first | rfl | cases integer

namespace InferType

variable {ty : InferType}

def leaf : InferType → InferType
  | .array element _ => element.leaf
  | other => other

def Ground (ty : InferType) : Prop := ∃ concreteTy, ty.leaf = .concrete concreteTy

def Takes : InferType → InferType → Prop
  | .concrete ty, target => target = .concrete ty
  | .intLiteral, .concrete ty => ty.isInteger = true
  | .floatLiteral, .concrete ty => ty.isFloat = true
  | .array element length, .array targetElement targetLength =>
    length = targetLength ∧ Takes element targetElement
  | _, _ => False

def Agrees (lhs rhs : InferType) : Prop := ∃ ty, Takes lhs ty ∧ Takes rhs ty

theorem leafVar_eq_some (ty : InferType) (id : TypeVarId) : ty.leafVar = some id ↔ ty.leaf = .var id := by
  induction ty with
  | array element length elementSame => exact elementSame
  | _ => simp [leafVar, leaf]

theorem leaf_subst (assignment : Assignment) (ty : InferType) :
    (ty.subst assignment).leaf = (ty.leaf.subst assignment).leaf := by
  induction ty with
  | array element length elementSame => exact elementSame
  | _ => rfl

theorem subst_of_closed (closed : ty.leafVar = none) (assignment : Assignment) : ty.subst assignment = ty := by
  refine subst_eq_self fun id leafId => ?_
  rw [closed] at leafId
  cases leafId

theorem Ground.leafVar (ground : Ground ty) : ty.leafVar = none := by
  obtain ⟨_, isConcrete⟩ := ground
  cases found : ty.leafVar with
  | none => rfl
  | some id =>
    rw [(leafVar_eq_some ty id).mp found] at isConcrete
    cases isConcrete

theorem Ground.takes_iff {target : InferType} (ground : Ground ty) : Takes ty target ↔ target = ty := by
  induction ty generalizing target with
  | concrete ty => rfl
  | array element length elementIff =>
    cases target with
    | array targetElement targetLength =>
      simp only [Takes, elementIff ground, InferType.array.injEq]
      exact ⟨fun ⟨sameLength, sameElement⟩ => ⟨sameElement, sameLength.symm⟩,
        fun ⟨sameElement, sameLength⟩ => ⟨sameLength.symm, sameElement⟩⟩
    | _ => simp [Takes]
  | var id | intLiteral | floatLiteral =>
    obtain ⟨_, isConcrete⟩ := ground
    cases isConcrete

theorem Ground.takes_self (ground : Ground ty) : Takes ty ty := ground.takes_iff.2 rfl

theorem Takes.depth {target : InferType} (takes : Takes ty target) : ty.depth = target.depth := by
  induction ty generalizing target with
  | concrete ty =>
    cases takes
    rfl
  | array element length elementSame =>
    cases target with
    | array targetElement targetLength => exact congrArg (· + 1) (elementSame takes.2)
    | _ => cases takes
  | _ => cases target <;> first | rfl | cases takes

theorem depth_subst {id : TypeVarId} (leaf : ty.leafVar = some id) (assignment : Assignment) :
    (ty.subst assignment).depth = ty.depth + (assignment id).depth := by
  induction ty with
  | var other =>
    cases leaf
    simp [subst, depth]
  | array element length elementSame =>
    simp only [subst, depth, elementSame leaf]
    omega
  | _ => cases leaf

theorem Agrees.symm {lhs rhs : InferType} (agrees : Agrees lhs rhs) : Agrees rhs lhs := by
  obtain ⟨ty, left, right⟩ := agrees
  exact ⟨ty, right, left⟩

theorem Agrees.elements {first second : InferType} {firstLength secondLength : Nat}
    (agrees : Agrees (.array first firstLength) (.array second secondLength)) :
    Agrees first second := by
  obtain ⟨common, left, right⟩ := agrees
  cases common with
  | array element length => exact ⟨element, left.2, right.2⟩
  | _ => cases left

end InferType

open InferType

structure Models (model : Assignment) (substitution : Substitution) : Prop where
  ground : ∀ id, Ground (model id)
  bound : ∀ id ty, substitution.get id = some ty → Takes (ty.subst model) (model id)

namespace Models

variable {model assignment : Assignment} {substitution : Substitution} {rank : TypeVarId → Nat}
variable {ty target : InferType}

theorem takes_subst_of_leaf {model assignment : Assignment} (ground : ∀ id, Ground (model id))
    (leaves : ∀ id, ty.leafVar = some id → Takes ((assignment id).subst model) (model id))
    (takes : Takes (ty.subst model) target) : Takes ((ty.subst assignment).subst model) target := by
  induction ty generalizing target with
  | var id =>
    rw [(ground id).takes_iff.mp takes]
    exact leaves id rfl
  | array element length elementTakes =>
    cases target with
    | array targetElement targetLength => exact ⟨takes.1, elementTakes leaves takes.2⟩
    | _ => cases takes
  | _ => exact takes

theorem takes_assignment (models : Models model substitution)
    (represents : Represents substitution assignment rank) (id : TypeVarId) :
    Takes ((assignment id).subst model) (model id) := by
  induction bounded : rank id using Nat.strongRecOn generalizing id with
  | ind bound ih =>
    cases found : substitution.get id with
    | none =>
      rw [represents.unbound id found]
      exact (models.ground id).takes_self
    | some ty =>
      rw [represents.bound id ty found]
      refine takes_subst_of_leaf models.ground (fun below leaf => ?_) (models.bound id ty found)
      have smaller := represents.descends id ty below found leaf
      exact ih (rank below) (by omega) below rfl

theorem takes_subst (models : Models model substitution)
    (represents : Represents substitution assignment rank) (takes : Takes (ty.subst model) target) :
    Takes ((ty.subst assignment).subst model) target :=
  takes_subst_of_leaf models.ground (fun id _ => models.takes_assignment represents id) takes

theorem agrees_subst (models : Models model substitution)
    (represents : Represents substitution assignment rank) {lhs rhs : InferType}
    (agrees : Agrees (lhs.subst model) (rhs.subst model)) :
    Agrees ((lhs.subst assignment).subst model) ((rhs.subst assignment).subst model) := by
  obtain ⟨ty, left, right⟩ := agrees
  exact ⟨ty, models.takes_subst represents left, models.takes_subst represents right⟩

theorem compresses (models : Models model substitution)
    (represents : Represents substitution assignment rank) {after : Substitution}
    (compressed : Compresses assignment substitution after) : Models model after where
  ground := models.ground
  bound id ty found := by
    rcases compressed id with kept | ⟨_, resolved⟩
    · exact models.bound id ty (kept ▸ found)
    · rw [found] at resolved
      rw [Option.some.inj resolved]
      exact models.takes_assignment represents id

end Models

inductive Meets (id : TypeVarId) (ty : InferType) : InferType → InferType → Prop
  | left : Meets id ty (.var id) ty
  | right : Meets id ty ty (.var id)
  | array {first second : InferType} (length : Nat) (elements : Meets id ty first second) :
      Meets id ty (.array first length) (.array second length)

inductive Writes (assignment : Assignment) (lhs rhs : InferType) (id : TypeVarId) :
    Option InferType → Option InferType → Prop
  | kept (binding : Option InferType) : Writes assignment lhs rhs id binding binding
  | compressed (binding : InferType) : Writes assignment lhs rhs id (some binding) (some (assignment id))
  | bound (ty : InferType) (meets : Meets id ty (lhs.subst assignment) (rhs.subst assignment)) :
      Writes assignment lhs rhs id none (some ty)
  | rebound (binding literal : InferType) (ty : Ty) (takes : LiteralTakes literal ty)
      (resolved : assignment id = literal)
      (sides : lhs = .var id ∧ rhs.subst assignment = .concrete ty ∨
        rhs = .var id ∧ lhs.subst assignment = .concrete ty) :
      Writes assignment lhs rhs id (some binding) (some (.concrete ty))

structure UnifyWrites (assignment : Assignment) (lhs rhs : InferType)
    (before after : Substitution) : Prop where
  each : ∀ id, Writes assignment lhs rhs id (before.get id) (after.get id)
  rebinds : ∀ id literal ty, LiteralTakes literal ty → assignment id = literal →
    (lhs = .var id ∧ rhs.subst assignment = .concrete ty ∨ rhs = .var id ∧ lhs.subst assignment = .concrete ty) →
    after.get id = some (.concrete ty)

def LiteralMeets (lhs rhs : InferType) : Prop := ∃ literal ty, LiteralTakes literal ty ∧
    (lhs = literal ∧ rhs = .concrete ty ∨ lhs = .concrete ty ∧ rhs = literal)

theorem UnifyWrites.of_each {assignment : Assignment} {lhs rhs : InferType} {before after : Substitution}
    (each : ∀ id, Writes assignment lhs rhs id (before.get id) (after.get id))
    (apart : ¬ LiteralMeets (lhs.subst assignment) (rhs.subst assignment)) :
    UnifyWrites assignment lhs rhs before after where
  each := each
  rebinds id literal ty takes resolved sides := by
    refine absurd ⟨literal, ty, takes, ?_⟩ apart
    rcases sides with ⟨rfl, concrete⟩ | ⟨rfl, concrete⟩
    · exact .inl ⟨resolved, concrete⟩
    · exact .inr ⟨concrete, resolved⟩

namespace Unifier

theorem get_rebindLiteralToConcrete (literal : InferType) (substitution : Substitution)
    (original : InferType) (ty : Ty) (id : TypeVarId) :
    (rebindLiteralToConcrete literal substitution original ty).get id =
      if original = .var id ∧ substitution.get id = some literal then some (.concrete ty)
      else substitution.get id := by
  unfold rebindLiteralToConcrete
  split
  · next var =>
      split
      · next found =>
          rw [Substitution.get_insert]
          by_cases same : id = var
          · subst same
            simp [found]
          · have other : InferType.var var ≠ .var id := fun isVar =>
              same (InferType.var.inj isVar).symm
            simp [same, other]
      · next missed =>
          have other : ¬ (InferType.var var = .var id ∧ substitution.get id = some literal) := by
            rintro ⟨isVar, found⟩
            rw [InferType.var.inj isVar] at missed
            exact missed found
          rw [if_neg other]
  · next notVar =>
      have other : ¬ (original = .var id ∧ substitution.get id = some literal) :=
        fun isVar => notVar id isVar.1
      rw [if_neg other]

theorem get_rebind_both {literal : InferType} {ty : Ty} (notConcrete : .concrete ty ≠ literal)
    (substitution : Substitution) (lhs rhs : InferType) (id : TypeVarId) :
    (rebindLiteralToConcrete literal (rebindLiteralToConcrete literal substitution lhs ty) rhs ty).get id =
      if (lhs = .var id ∨ rhs = .var id) ∧ substitution.get id = some literal then
        some (.concrete ty)
      else substitution.get id := by
  rw [get_rebindLiteralToConcrete, get_rebindLiteralToConcrete]
  by_cases left : lhs = .var id ∧ substitution.get id = some literal
  · simp [left, notConcrete]
  · by_cases right : rhs = .var id ∧ substitution.get id = some literal
    · rw [if_neg left, if_pos right, if_pos ⟨.inr right.1, right.2⟩]
    · have neither : ¬ ((lhs = .var id ∨ rhs = .var id) ∧ substitution.get id = some literal) := by
        rintro ⟨isVar | isVar, found⟩
        · exact left ⟨isVar, found⟩
        · exact right ⟨isVar, found⟩
      rw [if_neg left, if_neg right, if_neg neither]

end Unifier

namespace Represents

variable {substitution : Substitution} {assignment : Assignment} {rank : TypeVarId → Nat}
variable {literal lhs rhs : InferType}

section

variable (represents : Represents substitution assignment rank)
include represents

theorem resolves_literal {ty : Ty} (takes : LiteralTakes literal ty) {id : TypeVarId}
    (found : substitution.get id = some literal) : assignment id = literal := by
  rw [represents.bound id literal found]
  rcases takes with ⟨rfl, _⟩ | ⟨rfl, _⟩ <;> rfl

theorem rebind_writes {ty : Ty} (takes : LiteralTakes literal ty)
    (sides : lhs.subst assignment = literal ∧ rhs.subst assignment = .concrete ty ∨
      lhs.subst assignment = .concrete ty ∧ rhs.subst assignment = literal)
    (compressed : ∀ id, lhs = .var id ∨ rhs = .var id → substitution.get id ≠ none →
      substitution.get id = some (assignment id)) :
    UnifyWrites assignment lhs rhs substitution (Unifier.rebindLiteralToConcrete literal
        (Unifier.rebindLiteralToConcrete literal substitution lhs ty) rhs ty) where
  each id := by
    rw [Unifier.get_rebind_both (takes.notConcrete ty)]
    split
    · next written =>
        obtain ⟨isSide, found⟩ := written
        have resolved := represents.resolves_literal takes found
        rw [found]
        refine .rebound literal literal ty takes resolved ?_
        rcases sides with ⟨left, right⟩ | ⟨left, right⟩
        · rcases isSide with rfl | rfl
          · exact .inl ⟨rfl, right⟩
          · exact absurd (right.symm.trans resolved) (takes.notConcrete ty)
        · rcases isSide with rfl | rfl
          · exact absurd (left.symm.trans resolved) (takes.notConcrete ty)
          · exact .inr ⟨rfl, left⟩
    · exact .kept _
  rebinds id other otherTy otherTakes resolved isSide := by
    have isVar : lhs = .var id ∨ rhs = .var id := isSide.imp And.left And.left
    have isBound : substitution.get id ≠ none := by
      intro unbound
      rw [represents.unbound id unbound] at resolved
      rcases otherTakes with ⟨rfl, _⟩ | ⟨rfl, _⟩ <;> cases resolved
    have same : other = literal ∧ otherTy = ty := by
      rcases isSide with ⟨rfl, concrete⟩ | ⟨rfl, concrete⟩
      · rcases sides with ⟨left, right⟩ | ⟨left, right⟩
        · exact ⟨resolved.symm.trans left, InferType.concrete.inj (concrete.symm.trans right)⟩
        · exact absurd (left.symm.trans resolved) (otherTakes.notConcrete ty)
      · rcases sides with ⟨left, right⟩ | ⟨left, right⟩
        · exact absurd (right.symm.trans resolved) (otherTakes.notConcrete ty)
        · exact ⟨resolved.symm.trans right, InferType.concrete.inj (concrete.symm.trans left)⟩
    have found := compressed id isVar isBound
    rw [resolved, same.1] at found
    rw [Unifier.get_rebind_both (takes.notConcrete ty), if_pos ⟨isVar, found⟩, same.2]

theorem bind_writes {model : Assignment} (ground : ∀ id, Ground (model id)) {var : TypeVarId}
    {ty : InferType} (settled : ty.subst assignment = ty)
    (agrees : Agrees (model var) (ty.subst model)) (free : assignment var = .var var)
    (meets : Meets var ty (lhs.subst assignment) (rhs.subst assignment))
    (apart : ¬ LiteralMeets (lhs.subst assignment) (rhs.subst assignment)) :
    ∃ after, Settles (fun fuel => Unifier.bind fuel substitution var ty) (.ok, after) ∧
      UnifyWrites assignment lhs rhs substitution after := by
  by_cases self : ty = .var var
  · refine ⟨substitution, ?_, .of_each (fun id => .kept _) apart⟩
    simp only [Unifier.bind, if_pos self]
    exact settles_some _
  · have absent : ty.leafVar ≠ some var := by
      intro present
      obtain ⟨_, left, right⟩ := agrees
      rw [(ground var).takes_iff] at left
      have depths := right.depth
      rw [left, depth_subst present] at depths
      cases ty with
      | var id =>
        cases present
        exact self rfl
      | array element length =>
        simp only [InferType.depth] at depths
        omega
      | _ => cases present
    have occurs := represents.occursIn_settles var settled
    refine ⟨substitution.insert var ty, ?_, .of_each (fun id => ?_) apart⟩
    · simp only [Unifier.bind, if_neg self]
      refine settles_bind occurs ?_
      simp only [absent, decide_false]
      exact settles_some _
    · rw [Substitution.get_insert]
      split
      · next same =>
          rw [same, (represents.get_none_iff var).mpr free]
          exact .bound ty meets
      · exact .kept _

end

end Represents

theorem not_literalMeets_var_left (id : TypeVarId) (rhs : InferType) : ¬ LiteralMeets (.var id) rhs := by
  rintro ⟨_, _, ⟨rfl, _⟩ | ⟨rfl, _⟩, ⟨left, _⟩ | ⟨left, _⟩⟩ <;> cases left

theorem not_literalMeets_var_right (lhs : InferType) (id : TypeVarId) : ¬ LiteralMeets lhs (.var id) := by
  rintro ⟨_, _, ⟨rfl, _⟩ | ⟨rfl, _⟩, ⟨_, right⟩ | ⟨_, right⟩⟩ <;> cases right

theorem not_literalMeets_self (ty : InferType) : ¬ LiteralMeets ty ty := by
  rintro ⟨_, concreteTy, takes, ⟨left, right⟩ | ⟨left, right⟩⟩
  · exact takes.notConcrete concreteTy (right.symm.trans left)
  · exact takes.notConcrete concreteTy (left.symm.trans right)

theorem not_literalMeets_array (first second : InferType) (firstLength secondLength : Nat) :
    ¬ LiteralMeets (.array first firstLength) (.array second secondLength) := by
  rintro ⟨_, _, ⟨rfl, _⟩ | ⟨rfl, _⟩, ⟨left, _⟩ | ⟨left, _⟩⟩ <;> cases left

theorem Writes.array {assignment : Assignment} {lhs rhs first second : InferType} {length : Nat}
    {id : TypeVarId} {before after : Option InferType}
    (left : lhs.subst assignment = .array first length)
    (right : rhs.subst assignment = .array second length)
    (firstSettled : first.subst assignment = first)
    (secondSettled : second.subst assignment = second)
    (writes : Writes assignment first second id before after) :
    Writes assignment lhs rhs id before after := by
  cases writes with
  | kept binding => exact .kept _
  | compressed binding => exact .compressed binding
  | bound ty meets =>
    refine .bound ty ?_
    rw [left, right]
    rw [firstSettled, secondSettled] at meets
    exact .array length meets
  | rebound binding literal ty takes resolved sides =>
    -- The elements are resolved, so a variable among them is unbound.
    have isVar : assignment id = .var id := by
      rcases sides with ⟨rfl, _⟩ | ⟨rfl, _⟩
      · exact firstSettled
      · exact secondSettled
    rw [isVar] at resolved
    rcases takes with ⟨rfl, _⟩ | ⟨rfl, _⟩ <;> cases resolved

namespace Represents

variable {substitution : Substitution} {assignment : Assignment} {rank : TypeVarId → Nat}
variable {lhs rhs : InferType} {ty : Ty}

section

variable (represents : Represents substitution assignment rank)
include represents

theorem unifyIntLiteral_writes (integer : ty.isInteger = true)
    (sides : lhs.subst assignment = .intLiteral ∧ rhs.subst assignment = .concrete ty ∨
      lhs.subst assignment = .concrete ty ∧ rhs.subst assignment = .intLiteral)
    (compressed : ∀ id, lhs = .var id ∨ rhs = .var id → substitution.get id ≠ none →
      substitution.get id = some (assignment id)) :
    ∃ after, Unifier.unifyIntLiteral substitution lhs rhs ty = (.ok, after) ∧
      UnifyWrites assignment lhs rhs substitution after := by
  refine ⟨_, if_pos integer, ?_⟩
  exact represents.rebind_writes (.inl ⟨rfl, integer⟩) sides compressed

theorem unifyFloatLiteral_writes (lhsResolved rhsResolved : InferType) (float : ty.isFloat = true)
    (sides : lhs.subst assignment = .floatLiteral ∧ rhs.subst assignment = .concrete ty ∨
      lhs.subst assignment = .concrete ty ∧ rhs.subst assignment = .floatLiteral)
    (compressed : ∀ id, lhs = .var id ∨ rhs = .var id → substitution.get id ≠ none →
      substitution.get id = some (assignment id)) :
    ∃ after, Unifier.unifyFloatLiteral substitution lhs rhs lhsResolved rhsResolved ty = (.ok, after) ∧
      UnifyWrites assignment lhs rhs substitution after := by
  refine ⟨_, if_pos float, ?_⟩
  exact represents.rebind_writes (.inr ⟨rfl, float⟩) sides compressed

theorem unifyResolved_writes {model : Assignment} (ground : ∀ id, Ground (model id))
    {unifyElements : Nat → Substitution → InferType → InferType → Option (UnifyResult × Substitution)}
    {left right : InferType} (leftResolved : lhs.subst assignment = left)
    (rightResolved : rhs.subst assignment = right) (leftSettled : left.subst assignment = left)
    (rightSettled : right.subst assignment = right)
    (agrees : Agrees (left.subst model) (right.subst model))
    (compressed : ∀ id, lhs = .var id ∨ rhs = .var id → substitution.get id ≠ none →
      substitution.get id = some (assignment id))
    (elements : ∀ first second length, left = .array first length → right = .array second length →
      ∃ after, Settles (fun fuel => unifyElements fuel substitution first second) (.ok, after) ∧
      UnifyWrites assignment first second substitution after) :
    ∃ after, Settles (fun fuel =>
        Unifier.unifyResolved fuel (unifyElements fuel) substitution lhs rhs left right)
        (.ok, after) ∧
      UnifyWrites assignment lhs rhs substitution after := by
  have ofSame : left = right → UnifyWrites assignment lhs rhs substitution substitution := by
    intro same
    refine .of_each (fun id => .kept _) ?_
    rw [leftResolved, rightResolved, same]
    exact not_literalMeets_self right
  have bindLeft : ∀ var, left = .var var →
      ∃ after, Settles (fun fuel => Unifier.bind fuel substitution var right) (.ok, after) ∧
        UnifyWrites assignment lhs rhs substitution after := by
    rintro var rfl
    refine represents.bind_writes ground rightSettled agrees leftSettled ?_ ?_
    · rw [leftResolved, rightResolved]
      exact .left
    · rw [leftResolved]
      exact not_literalMeets_var_left var _
  have bindRight : ∀ var, right = .var var →
      ∃ after, Settles (fun fuel => Unifier.bind fuel substitution var left) (.ok, after) ∧
        UnifyWrites assignment lhs rhs substitution after := by
    rintro var rfl
    refine represents.bind_writes ground leftSettled agrees.symm rightSettled ?_ ?_
    · rw [leftResolved, rightResolved]
      exact .right
    · rw [rightResolved]
      exact not_literalMeets_var_right _ var
  have ofLiteral : ∀ {outcome : UnifyResult × Substitution},
      (∃ after, outcome = (.ok, after) ∧ UnifyWrites assignment lhs rhs substitution after) →
      ∃ after, Settles (fun _ => some outcome) (.ok, after) ∧ UnifyWrites assignment lhs rhs substitution after := by
    rintro outcome ⟨after, rfl, writes⟩
    exact ⟨after, settles_some _, writes⟩
  obtain ⟨common, takesLeft, takesRight⟩ := agrees
  cases left with
  | var var => exact bindLeft var rfl
  | concrete t1 =>
    have isCommon : common = .concrete t1 := takesLeft
    subst isCommon
    cases right with
    | concrete t2 =>
      have same : t1 = t2 := InferType.concrete.inj takesRight
      subst same
      refine ⟨substitution, ?_, ofSame rfl⟩
      simp only [Unifier.unifyResolved, true_or, if_true]
      exact settles_some _
    | var var => exact bindRight var rfl
    | intLiteral =>
      exact ofLiteral (represents.unifyIntLiteral_writes takesRight (.inr ⟨leftResolved, rightResolved⟩) compressed)
    | floatLiteral =>
      exact ofLiteral (represents.unifyFloatLiteral_writes _ _ takesRight
        (.inr ⟨leftResolved, rightResolved⟩) compressed)
    | array element length => cases takesRight
  | intLiteral =>
    cases right with
    | concrete t2 =>
      have isCommon : common = .concrete t2 := takesRight
      subst isCommon
      exact ofLiteral (represents.unifyIntLiteral_writes takesLeft (.inl ⟨leftResolved, rightResolved⟩) compressed)
    | var var => exact bindRight var rfl
    | intLiteral => exact ⟨substitution, settles_some _, ofSame rfl⟩
    | floatLiteral =>
      cases common with
      | concrete ty =>
        have float : ty.isFloat = true := takesRight
        rw [Ty.isFloat_of_isInteger takesLeft] at float
        cases float
      | _ => cases takesLeft
    | array element length => cases common <;> first | cases takesLeft | cases takesRight
  | floatLiteral =>
    cases right with
    | concrete t2 =>
      have isCommon : common = .concrete t2 := takesRight
      subst isCommon
      exact ofLiteral (represents.unifyFloatLiteral_writes _ _ takesLeft
        (.inl ⟨leftResolved, rightResolved⟩) compressed)
    | var var => exact bindRight var rfl
    | intLiteral =>
      cases common with
      | concrete ty =>
        have float : ty.isFloat = true := takesLeft
        rw [Ty.isFloat_of_isInteger takesRight] at float
        cases float
      | _ => cases takesLeft
    | floatLiteral => exact ⟨substitution, settles_some _, ofSame rfl⟩
    | array element length => cases common <;> first | cases takesLeft | cases takesRight
  | array first firstLength =>
    cases right with
    | var var => exact bindRight var rfl
    | array second secondLength =>
      cases common with
      | array element length =>
        have lengths : firstLength = secondLength := takesLeft.1.trans takesRight.1.symm
        subst lengths
        obtain ⟨after, settles, writes⟩ := elements first second firstLength rfl rfl
        refine ⟨after, ?_, .of_each (fun id => ?_) ?_⟩
        · simpa [Unifier.unifyResolved, ne_eq, not_true, if_false] using settles
        · exact (writes.each id).array leftResolved rightResolved
            (InferType.array.inj leftSettled).1 (InferType.array.inj rightSettled).1
        · rw [leftResolved, rightResolved]
          exact not_literalMeets_array _ _ _ _
      | _ => cases takesLeft
    | concrete ty =>
      have isCommon : common = .concrete ty := takesRight
      subst isCommon
      cases takesLeft
    | _ => cases common <;> first | cases takesRight | cases takesLeft

end

end Represents

theorem UnifyWrites.of_compresses {assignment : Assignment} {lhs rhs : InferType}
    {before middle after : Substitution} (compresses : Compresses assignment before middle)
    (writes : UnifyWrites assignment lhs rhs middle after) :
    UnifyWrites assignment lhs rhs before after where
  each id := by
    have written := writes.each id
    rcases compresses id with kept | ⟨wasBound, compressed⟩
    · rw [← kept]
      exact written
    · obtain ⟨binding, found⟩ := Option.ne_none_iff_exists'.mp wasBound
      rw [compressed] at written
      rw [found]
      generalize after.get id = binding' at written
      cases written with
      | kept _ => exact .compressed binding
      | compressed _ => exact .compressed binding
      | rebound _ literal ty takes resolved sides =>
        exact .rebound binding literal ty takes resolved sides
  rebinds := writes.rebinds

namespace Represents

variable {substitution : Substitution} {assignment model : Assignment} {rank : TypeVarId → Nat}

theorem unify_writes (represents : Represents substitution assignment rank)
    (models : Models model substitution) {lhs rhs : InferType}
    (agrees : Agrees (lhs.subst model) (rhs.subst model)) :
    ∃ after, Settles (fun fuel => Unifier.unify fuel substitution lhs rhs) (.ok, after) ∧
      UnifyWrites assignment lhs rhs substitution after := by
  induction bounded : (lhs.subst assignment).depth using Nat.strongRecOn generalizing substitution lhs rhs with
  | ind bound ih =>
    obtain ⟨middle, settlesLeft, middleRepresents, compressesLeft, compressedLeft⟩ :=
      represents.apply_compresses lhs
    obtain ⟨applied, settlesRight, appliedRepresents, compressesRight, compressedRight⟩ :=
      middleRepresents.apply_compresses rhs
    have compresses := compressesLeft.trans compressesRight
    have appliedModels := models.compresses represents compresses
    have resolvedAgrees := models.agrees_subst represents agrees
    have leftSettled := represents.idempotent lhs
    have rightSettled := represents.idempotent rhs
    have boundBefore : ∀ id, applied.get id ≠ none → substitution.get id ≠ none ∧ middle.get id ≠ none := by
      intro id isBound
      have notFree : assignment id ≠ .var id := fun free =>
        isBound ((appliedRepresents.get_none_iff id).mpr free)
      exact ⟨fun unbound => notFree (represents.unbound id unbound),
        fun unbound => notFree (middleRepresents.unbound id unbound)⟩
    have compressed : ∀ id, lhs = .var id ∨ rhs = .var id → applied.get id ≠ none →
        applied.get id = some (assignment id) := by
      intro id isSide isBound
      obtain ⟨boundFirst, boundMiddle⟩ := boundBefore id isBound
      rcases isSide with isLeft | isRight
      · rcases compressesRight id with kept | ⟨_, compressed⟩
        · rw [kept]
          exact compressedLeft id isLeft boundFirst
        · exact compressed
      · exact compressedRight id isRight boundMiddle
    have elements : ∀ first second length, lhs.subst assignment = .array first length →
        rhs.subst assignment = .array second length →
        ∃ after, Settles (fun fuel => Unifier.unify fuel applied first second) (.ok, after) ∧
          UnifyWrites assignment first second applied after := by
      intro first second length leftShape rightShape
      rw [leftShape] at leftSettled bounded resolvedAgrees
      rw [rightShape] at rightSettled resolvedAgrees
      have firstSettled : first.subst assignment = first := (InferType.array.inj leftSettled).1
      have smaller : (first.subst assignment).depth < bound := by
        rw [firstSettled, ← bounded]
        exact Nat.lt_succ_self _
      exact ih _ smaller appliedRepresents appliedModels resolvedAgrees.elements rfl
    obtain ⟨after, settles, writes⟩ := appliedRepresents.unifyResolved_writes models.ground rfl
      rfl leftSettled rightSettled resolvedAgrees compressed elements
    exact ⟨after, settles_of_succ (settles_bind settlesLeft (settles_bind settlesRight settles)),
      writes.of_compresses compresses⟩

end Represents

variable {model assignment : Assignment} {substitution after : Substitution}
  {rank : TypeVarId → Nat} {lhs rhs : InferType}

theorem Meets.takes (ground : ∀ id, Ground (model id)) {id : TypeVarId} {ty : InferType}
    (meets : Meets id ty lhs rhs) (agrees : Agrees (lhs.subst model) (rhs.subst model)) :
    Takes (ty.subst model) (model id) := by
  induction meets with
  | left =>
    obtain ⟨common, left, right⟩ := agrees
    rwa [← (ground id).takes_iff.mp left]
  | right =>
    obtain ⟨common, left, right⟩ := agrees
    rwa [← (ground id).takes_iff.mp right]
  | array length elements elementTakes => exact elementTakes agrees.elements

theorem Models.unified (models : Models model substitution) (represents : Represents substitution assignment rank)
    (agrees : Agrees (lhs.subst model) (rhs.subst model))
    (writes : UnifyWrites assignment lhs rhs substitution after) : Models model after where
  ground := models.ground
  bound id ty found := by
    have written := writes.each id
    have resolvedAgrees := models.agrees_subst represents agrees
    rw [found] at written
    cases before : substitution.get id with
    | none =>
      rw [before] at written
      cases written with
      | bound _ meets => exact meets.takes models.ground resolvedAgrees
    | some binding =>
      rw [before] at written
      cases written with
      | kept _ => exact models.bound id ty before
      | compressed _ => exact models.takes_assignment represents id
      | rebound _ literal concreteTy takes resolved sides =>
        obtain ⟨common, left, right⟩ := agrees
        have takenLeft := models.takes_subst represents left
        have takenRight := models.takes_subst represents right
        have isConcrete : common = .concrete concreteTy ∧ common = model id := by
          rcases sides with ⟨rfl, concrete⟩ | ⟨rfl, concrete⟩
          · rw [concrete] at takenRight
            exact ⟨takenRight, (models.ground id).takes_iff.mp left⟩
          · rw [concrete] at takenLeft
            exact ⟨takenLeft, (models.ground id).takes_iff.mp right⟩
        exact isConcrete.2.symm.trans isConcrete.1

structure Equation where
  lhs : InferType
  rhs : InferType
  span : Span
  deriving DecidableEq, Repr

def Equation.constraint (equation : Equation) : Constraint :=
  .equal equation.lhs equation.rhs equation.span

/-- An assignment of types under which the equalities hold: the literal variables and the
placeholders get types of their kind, and `never` and `error` are constants like any other. -/
structure Satisfies (intVars floatVars : List TypeVarId) (model : Assignment)
    (equations : List Equation) : Prop where
  ground : ∀ id, Ground (model id)
  ints : ∀ id ∈ intVars, Takes .intLiteral (model id)
  floats : ∀ id ∈ floatVars, Takes .floatLiteral (model id)
  agrees : ∀ equation ∈ equations, Agrees (equation.lhs.subst model) (equation.rhs.subst model)

structure Equated (model : Assignment) (before : Substitution) (assignment : Assignment)
    (equation : Equation) (after : Substitution) (afterAssignment : Assignment) : Prop where
  settles : Settles (fun fuel => Unifier.solveConstraint fuel before equation.constraint) ([], after)
  represents : ∃ rank, Represents before assignment rank
  models : Models model before
  agrees : Agrees (equation.lhs.subst model) (equation.rhs.subst model)
  afterRepresents : ∃ rank, Represents after afterAssignment rank
  unified : Unified assignment (equation.lhs.subst assignment) (equation.rhs.subst assignment) afterAssignment
  writes : UnifyWrites assignment equation.lhs equation.rhs before after

inductive Equates (model : Assignment) :
    Substitution → Assignment → List Equation → Substitution → Assignment → Prop
  | nil (substitution : Substitution) (assignment : Assignment) :
      Equates model substitution assignment [] substitution assignment
  | cons {before middle after : Substitution}
      {assignment middleAssignment afterAssignment : Assignment} (equation : Equation)
      (equations : List Equation)
      (first : Equated model before assignment equation middle middleAssignment)
      (rest : Equates model middle middleAssignment equations after afterAssignment) :
      Equates model before assignment (equation :: equations) after afterAssignment

theorem Represents.solve_equation (represents : Represents substitution assignment rank)
    (models : Models model substitution) (equation : Equation)
    (agrees : Agrees (equation.lhs.subst model) (equation.rhs.subst model)) :
    ∃ after afterAssignment afterRank, Represents after afterAssignment afterRank ∧ Models model after ∧
      Equated model substitution assignment equation after afterAssignment := by
  obtain ⟨after, settles, writes⟩ := represents.unify_writes models agrees
  obtain ⟨_, _, afterAssignment, afterRank, settlesOther, afterRepresents, unified⟩ :=
    represents.unify_unifies equation.lhs equation.rhs
  obtain ⟨rfl, rfl⟩ := Prod.mk.inj (settles_unique settles settlesOther)
  refine ⟨after, afterAssignment, afterRank, afterRepresents, models.unified represents agrees writes, ?_⟩
  exact ⟨settles_bind settles (settles_some _), ⟨rank, represents⟩, models, agrees,
    ⟨afterRank, afterRepresents⟩, unified rfl, writes⟩

theorem Represents.solve_equations (represents : Represents substitution assignment rank)
    (models : Models model substitution) (equations : List Equation)
    (agrees : ∀ equation ∈ equations, Agrees (equation.lhs.subst model) (equation.rhs.subst model)) :
    ∃ after afterAssignment, Equates model substitution assignment equations after afterAssignment := by
  induction equations generalizing substitution assignment rank with
  | nil => exact ⟨substitution, assignment, .nil _ _⟩
  | cons equation equations restSolved =>
    obtain ⟨_, _, _, middleRepresents, middleModels, first⟩ :=
      represents.solve_equation models equation (agrees equation (.head _))
    obtain ⟨after, afterAssignment, rest⟩ := restSolved middleRepresents middleModels
      fun other isMember => agrees other (.tail _ isMember)
    exact ⟨after, afterAssignment, .cons equation equations first rest⟩

theorem Equates.settles {afterAssignment : Assignment} {before : Substitution} {equations : List Equation}
    (equates : Equates model before assignment equations after afterAssignment) :
    Settles (fun fuel => Unifier.solveConstraints fuel before (equations.map Equation.constraint)) ([], after) := by
  induction equates with
  | nil substitution assignment => exact settles_some _
  | cons equation equations first rest restSettles =>
    exact settles_bind first.settles (settles_bind restSettles (settles_some _))

theorem Models.withCapacity (ground : ∀ id, Ground (model id)) (capacity : Nat) :
    Models model (Substitution.withCapacity capacity) where
  ground := ground
  bound id ty found := by
    rw [Substitution.get_withCapacity] at found
    cases found

end Gruel
