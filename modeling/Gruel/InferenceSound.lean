import Gruel.InferenceSteps

/-!
Soundness of inference: what a run without errors keeps, and when the
defaulting passes keep the equalities it solved.
-/

namespace Gruel

open Fuel

theorem Ty.not_special_of_isNumeric {ty : Ty} (numeric : ty.isNumeric = true) :
    ty.isNever = false ∧ ty.isError = false := by
  constructor
  · refine decide_eq_false fun isNever => ?_
    subst isNever
    cases numeric
  · refine decide_eq_false fun isError => ?_
    subst isError
    cases numeric

namespace InferType

variable {lhs rhs : InferType}

def defaulted : InferType → InferType
  | .intLiteral => .concrete .i32
  | .floatLiteral => .concrete .f64
  | .array element length => .array element.defaulted length
  | other => other

def blur : InferType → InferType
  | .concrete ty => if ty.isNumeric then .intLiteral else .concrete ty
  | .array element length => .array element.blur length
  | _ => .intLiteral

def Coerces : InferType → InferType → Prop
  | .concrete t1, .concrete t2 =>
    t1 = t2 ∨ (t1.isNever || t1.isError || t2.isNever || t2.isError) = true
  | .array first firstLength, .array second secondLength =>
    firstLength = secondLength ∧ Coerces first second
  | lhs, rhs => lhs = rhs

theorem coerces_refl (ty : InferType) : Coerces ty ty := by
  induction ty with
  | concrete ty => exact .inl rfl
  | array element length elementCoerces => exact ⟨rfl, elementCoerces⟩
  | _ => rfl

theorem coerces_symm (coerces : Coerces lhs rhs) : Coerces rhs lhs := by
  induction lhs generalizing rhs with
  | concrete t1 =>
    cases rhs with
    | concrete t2 =>
      rcases coerces with same | special
      · exact .inl same.symm
      · right
        simp only [Bool.or_eq_true] at special ⊢
        tauto
    | _ => cases coerces
  | array first firstLength elementSymm =>
    cases rhs with
    | array second secondLength => exact ⟨coerces.1.symm, elementSymm coerces.2⟩
    | _ => cases coerces
  | _ => cases rhs <;> cases coerces <;> rfl

theorem coerces_subst (assignment : Assignment) (coerces : Coerces lhs rhs) :
    Coerces (lhs.subst assignment) (rhs.subst assignment) := by
  induction lhs generalizing rhs with
  | concrete t1 =>
    cases rhs with
    | concrete t2 => exact coerces
    | _ => cases coerces
  | array first firstLength elementCoerces =>
    cases rhs with
    | array second secondLength => exact ⟨coerces.1, elementCoerces coerces.2⟩
    | _ => cases coerces
  | _ => cases rhs <;> cases coerces <;> exact coerces_refl _

theorem eq_of_coerces_of_blur (coerces : Coerces lhs rhs) (blurred : lhs.blur = rhs.blur) : lhs = rhs := by
  induction lhs generalizing rhs with
  | concrete t1 =>
    cases rhs with
    | concrete t2 =>
      rcases coerces with same | special
      · rw [same]
      · simp only [blur] at blurred
        split at blurred <;> split at blurred
        · next first second =>
            obtain ⟨notNever, notError⟩ := Ty.not_special_of_isNumeric first
            obtain ⟨otherNotNever, otherNotError⟩ := Ty.not_special_of_isNumeric second
            rw [notNever, notError, otherNotNever, otherNotError] at special
            cases special
        · cases blurred
        · cases blurred
        · exact blurred
    | _ => cases coerces
  | array first firstLength elementSame =>
    cases rhs with
    | array second secondLength =>
      obtain ⟨elementBlurred, lengths⟩ := InferType.array.inj blurred
      rw [elementSame coerces.2 elementBlurred, lengths]
    | _ => cases coerces
  | _ => cases rhs <;> cases coerces <;> rfl

theorem defaulted_subst (assignment : Assignment) (ty : InferType) :
    (ty.subst assignment).defaulted = ty.defaulted.subst fun id => (assignment id).defaulted := by
  induction ty with
  | array element length elementSame => simp [subst, defaulted, elementSame]
  | _ => rfl

theorem leafVar_defaulted (ty : InferType) : ty.defaulted.leafVar = ty.leafVar := by
  induction ty with
  | array element length elementSame => exact elementSame
  | _ => rfl

theorem defaulted_relabel {literal : InferType} {ty : Ty}
    (default : literal.defaulted = .concrete ty) (target : InferType) :
    (relabel literal ty target).defaulted = target.defaulted := by
  induction target with
  | array element length elementSame => simp [relabel, defaulted, elementSame]
  | _ =>
    simp only [relabel]
    split
    · next same =>
        rw [same, default]
        rfl
    · rfl

def MeetsDefault : InferType → InferType → Prop
  | .intLiteral, .concrete ty | .concrete ty, .intLiteral => ty.isInteger = true → ty = .i32
  | .floatLiteral, .concrete ty | .concrete ty, .floatLiteral => ty.isFloat = true → ty = .f64
  | .array first _, .array second _ => MeetsDefault first second
  | _, _ => True

theorem meetsDefault_symm (meets : MeetsDefault lhs rhs) : MeetsDefault rhs lhs := by
  induction lhs generalizing rhs with
  | array first firstLength elementSymm =>
    cases rhs with
    | array second secondLength => exact elementSymm meets
    | _ => trivial
  | _ => cases rhs <;> exact meets

theorem meetsDefault_refl (ty : InferType) : MeetsDefault ty ty := by
  induction ty with
  | array element length elementMeets => exact elementMeets
  | _ => trivial

end InferType

open InferType

def Resolves (substitution : Substitution) (ty resolved : InferType) : Prop :=
  ∃ after, Settles (fun fuel => substitution.apply fuel ty) (resolved, after)

def StepKeepsLiterals (substitution : Substitution) : Constraint → Prop
  | .equal lhs rhs _ =>
    ∀ left right, Resolves substitution lhs left → Resolves substitution rhs right → MeetsDefault left right
  | .isUnsigned (.var id) _ => ¬ Resolves substitution (.var id) .intLiteral
  | _ => True

/-- No step of the run ties a literal placeholder to a type other than its default. -/
def KeepsLiterals : Substitution → List Constraint → Prop
  | _, [] => True
  | substitution, constraint :: constraints =>
    StepKeepsLiterals substitution constraint ∧
      ∀ errors after, Settles (fun fuel => Unifier.solveConstraint fuel substitution constraint) (errors, after) →
        KeepsLiterals after constraints

def StepMeetsDefaults (assignment : Assignment) : Constraint → Prop
  | .equal lhs rhs _ => MeetsDefault (lhs.subst assignment) (rhs.subst assignment)
  | .isUnsigned (.var id) _ => assignment id ≠ .intLiteral
  | _ => True

namespace Represents

variable {substitution : Substitution} {assignment : Assignment} {rank : TypeVarId → Nat}

theorem resolves_assigned (represents : Represents substitution assignment rank) (ty resolved : InferType) :
    Resolves substitution ty resolved ↔ resolved = ty.subst assignment := by
  obtain ⟨after, settles, _⟩ := represents.apply_settles ty
  constructor
  · rintro ⟨_, settlesOther⟩
    exact congrArg Prod.fst (settles_unique settlesOther settles)
  · rintro rfl
    exact ⟨after, settles⟩

theorem stepKeepsLiterals_iff (represents : Represents substitution assignment rank) (constraint : Constraint) :
    StepKeepsLiterals substitution constraint ↔ StepMeetsDefaults assignment constraint := by
  cases constraint with
  | equal lhs rhs span =>
    constructor
    · intro keeps
      exact keeps _ _ ((represents.resolves_assigned lhs _).mpr rfl) ((represents.resolves_assigned rhs _).mpr rfl)
    · intro meets left right resolvesLeft resolvesRight
      rw [(represents.resolves_assigned lhs left).mp resolvesLeft,
        (represents.resolves_assigned rhs right).mp resolvesRight]
      exact meets
  | isUnsigned ty span =>
    cases ty with
    | var var =>
      simp only [StepKeepsLiterals, StepMeetsDefaults, represents.resolves_assigned, subst, ne_eq]
      exact not_congr eq_comm
    | _ => exact Iff.rfl
  | _ => exact Iff.rfl

end Represents

variable {literal lhs rhs : InferType} {ty : Ty} {after finalAssignment : Assignment}
  {constraint : Constraint} {constraints : List Constraint}

variable {assignment final solvedAssignment : Assignment} {substitution : Substitution}
  {rank : TypeVarId → Nat} {var : TypeVarId}

def Instantiates (before after : Assignment) (instantiation : Assignment) : Prop :=
  ∀ ty : InferType, (ty.subst after).defaulted = ((ty.subst before).defaulted).subst instantiation

theorem instantiates_refl (assignment : Assignment) :
    Instantiates assignment assignment .var := fun ty => (subst_var _).symm

theorem Instantiates.trans {first second third instantiation : Assignment}
    (before : Instantiates first second instantiation) (later : Instantiates second third after) :
    Instantiates first third fun id => (instantiation id).subst after := by
  intro ty
  rw [later ty, before ty, subst_subst]

theorem instantiates_bind (assignment : Assignment) (var : TypeVarId) (ty : InferType) :
    Instantiates assignment (assignment.bind var ty) (Assignment.single var ty.defaulted) := by
  intro _
  rw [Assignment.subst_bind, defaulted_subst]
  refine subst_congr fun id _ => ?_
  unfold Assignment.single
  split <;> rfl

theorem instantiates_overwrite {before : Assignment} (default : literal.defaulted = .concrete ty)
    (overwrites : Overwrites before after literal ty) : Instantiates before after .var := by
  intro target
  rw [subst_var]
  rcases overwrites.subst target with kept | relabelled
  · rw [kept]
  · rw [relabelled, defaulted_relabel default]

theorem LiteralTakes.default_of_meets (takes : LiteralTakes literal ty)
    (meets : MeetsDefault literal (.concrete ty)) : literal.defaulted = .concrete ty := by
  rcases takes with ⟨rfl, integer⟩ | ⟨rfl, float⟩
  · rw [meets integer]
    rfl
  · rw [meets float]
    rfl

theorem Unified.sound (unified : Unified assignment lhs rhs after) (meets : MeetsDefault lhs rhs) :
    ∃ instantiation, Instantiates assignment after instantiation ∧
      Coerces (lhs.defaulted.subst instantiation) (rhs.defaulted.subst instantiation) := by
  induction unified with
  | same ty => exact ⟨.var, instantiates_refl _, coerces_refl _⟩
  | coerce t1 t2 coerces =>
    refine ⟨.var, instantiates_refl _, ?_⟩
    simp only [Ty.canCoerceTo, Bool.or_eq_true, decide_eq_true_eq] at coerces
    simp only [defaulted, subst, Coerces, Bool.or_eq_true]
    rcases coerces with (special | same) | (special | same)
    · exact .inr (by tauto)
    · exact .inl same
    · exact .inr (by tauto)
    · exact .inl same.symm
  | bind var ty free settled absent =>
    refine ⟨_, instantiates_bind _ var ty, ?_⟩
    have absentDefaulted : ty.defaulted.leafVar ≠ some var := by
      rw [leafVar_defaulted]
      exact absent
    rw [Assignment.subst_single_of_absent absentDefaulted]
    simp only [defaulted, subst, Assignment.single_self]
    exact coerces_refl _
  | literal literal ty after takes overwrites =>
    have default := takes.default_of_meets meets
    refine ⟨.var, instantiates_overwrite default overwrites, ?_⟩
    rw [default]
    exact coerces_refl _
  | literalError literal isLiteral =>
    refine ⟨.var, instantiates_refl _, ?_⟩
    rcases isLiteral with rfl | rfl <;> exact .inr rfl
  | array first second length after elements elementsSound =>
    obtain ⟨instantiation, instantiates, coerces⟩ := elementsSound meets
    exact ⟨instantiation, instantiates, rfl, coerces⟩
  | symm first second after unified sound =>
    obtain ⟨instantiation, instantiates, coerces⟩ := sound (meetsDefault_symm meets)
    exact ⟨instantiation, instantiates, coerces_symm coerces⟩

theorem Solved.sound (solved : Solved assignment constraint after) (meets : StepMeetsDefaults assignment constraint) :
    ∃ instantiation, Instantiates assignment after instantiation ∧ ∀ lhs rhs span, constraint = .equal lhs rhs span →
        Coerces (lhs.subst after).defaulted (rhs.subst after).defaulted := by
  cases solved with
  | equal lhs rhs span _ unified =>
    obtain ⟨instantiation, instantiates, coerces⟩ := unified.sound meets
    refine ⟨instantiation, instantiates, fun _ _ _ same => ?_⟩
    cases same
    rw [instantiates lhs, instantiates rhs]
    exact coerces
  | unsignedFree ty span var resolved free =>
    exact ⟨_, instantiates_bind _ var _, fun _ _ _ same => by cases same⟩
  | unsignedLiteral var span _ resolved overwrites written => exact absurd resolved meets
  | _ => exact ⟨.var, instantiates_refl _, fun _ _ _ same => by cases same⟩

theorem Solves.sound {final : Substitution}
    (solves : Solves substitution assignment constraints final finalAssignment)
    (keeps : KeepsLiterals substitution constraints) :
    ∃ instantiation, Instantiates assignment finalAssignment instantiation ∧
      ∀ lhs rhs span, Constraint.equal lhs rhs span ∈ constraints →
        Coerces (lhs.subst finalAssignment).defaulted (rhs.subst finalAssignment).defaulted := by
  induction solves with
  | nil substitution assignment =>
    exact ⟨.var, instantiates_refl _, fun _ _ _ isMember => by cases isMember⟩
  | cons constraint constraints represents settles solved rest restSound =>
    obtain ⟨instantiation, instantiates, coerces⟩ :=
      solved.sound ((represents.stepKeepsLiterals_iff constraint).mp keeps.1)
    obtain ⟨later, instantiatesLater, coercesLater⟩ := restSound (keeps.2 _ _ settles)
    refine ⟨_, instantiates.trans instantiatesLater, fun lhs rhs span isMember => ?_⟩
    rcases List.mem_cons.mp isMember with same | inRest
    · rw [instantiatesLater lhs, instantiatesLater rhs]
      exact coerces_subst later (coerces lhs rhs span same.symm)
    · exact coercesLater lhs rhs span inRest

def finalType (final : Assignment) (ty : InferType) : InferType := (ty.subst final).defaulted

theorem finalType_subst (final assignment : Assignment) (ty : InferType) : finalType final (ty.subst assignment) =
      ty.defaulted.subst fun id => finalType final (assignment id) := by
  rw [finalType, subst_subst, defaulted_subst]
  rfl

theorem finalType_eq (final : Assignment) (ty : InferType) :
    finalType final ty = ty.defaulted.subst fun id => finalType final (.var id) := by
  have expanded := finalType_subst final .var ty
  rwa [subst_var] at expanded

theorem finalType_relabel (default : literal.defaulted = .concrete ty) (final : Assignment) (target : InferType) :
    finalType final (relabel literal ty target) = finalType final target := by
  rw [finalType_eq, defaulted_relabel default, ← finalType_eq]

theorem LiteralTakes.isNumeric (takes : LiteralTakes literal ty) : ty.isNumeric = true := by
  rcases takes with ⟨_, integer⟩ | ⟨_, float⟩
  · simp [Ty.isNumeric, integer]
  · simp [Ty.isNumeric, float]

theorem LiteralTakes.notConcrete (takes : LiteralTakes literal ty) (other : Ty) : .concrete other ≠ literal := by
  rcases takes with ⟨rfl, _⟩ | ⟨rfl, _⟩ <;> exact fun same => by cases same

theorem blur_finalType_relabel (takes : LiteralTakes literal ty) (final : Assignment) (target : InferType) :
    (finalType final (relabel literal ty target)).blur = (finalType final target).blur := by
  induction target with
  | array element length elementSame =>
    simp only [finalType, relabel, subst, defaulted, blur, InferType.array.injEq, and_true]
    exact elementSame
  | _ =>
    simp only [relabel]
    split
    · next same =>
        rw [same]
        simp only [finalType, subst, defaulted, blur, takes.isNumeric, if_true]
        rcases takes with ⟨rfl, _⟩ | ⟨rfl, _⟩ <;> rfl
    · rfl

structure Later (assignment final : Assignment) : Prop where
  blurred : ∀ ty, (finalType final ty).blur = (finalType final (ty.subst assignment)).blur
  concrete : ∀ ty concreteTy, ty.subst assignment = .concrete concreteTy → finalType final ty = .concrete concreteTy

theorem Represents.later_of_bind (represents : Represents substitution assignment rank)
    {ty : InferType} (later : Later (assignment.bind var ty) final) :
    Later assignment final where
  blurred target := by
    have applied := later.blurred (target.subst assignment)
    rw [Assignment.subst_bind, represents.idempotent, ← Assignment.subst_bind] at applied
    rw [later.blurred target, applied]
  concrete target concreteTy resolved := by
    refine later.concrete target concreteTy ?_
    rw [Assignment.subst_bind, resolved]
    rfl

theorem later_of_overwrite (takes : LiteralTakes literal ty)
    (overwrites : Overwrites assignment after literal ty) (later : Later after final) :
    Later assignment final where
  blurred target := by
    rw [later.blurred target]
    rcases overwrites.subst target with kept | relabelled
    · rw [kept]
    · rw [relabelled, blur_finalType_relabel takes]
  concrete target concreteTy resolved := by
    refine later.concrete target concreteTy ?_
    rcases overwrites.subst target with kept | relabelled
    · rw [kept, resolved]
    · rw [relabelled, resolved]
      exact if_neg (takes.notConcrete concreteTy)

theorem Unified.later (represents : Represents substitution assignment rank)
    (unified : Unified assignment lhs rhs after) (later : Later after final) :
    Later assignment final := by
  induction unified with
  | same ty => exact later
  | coerce t1 t2 coerces => exact later
  | bind var ty free settled absent => exact represents.later_of_bind later
  | literal literal ty after takes overwrites => exact later_of_overwrite takes overwrites later
  | literalError literal isLiteral => exact later
  | array first second length after elements elementsLater => exact elementsLater later
  | symm first second after unified unifiedLater => exact unifiedLater later

theorem Solved.later (represents : Represents substitution assignment rank)
    (solved : Solved assignment constraint after) (later : Later after final) :
    Later assignment final := by
  cases solved with
  | equal lhs rhs span _ unified => exact unified.later represents later
  | unsignedFree ty span var resolved free => exact represents.later_of_bind later
  | unsignedLiteral var span _ resolved overwrites written =>
    exact later_of_overwrite (.inl ⟨rfl, rfl⟩) overwrites later
  | _ => exact later

theorem Solves.later {final : Substitution}
    (solves : Solves substitution assignment constraints final solvedAssignment)
    (later : Later solvedAssignment finalAssignment) : Later assignment finalAssignment := by
  induction solves with
  | nil substitution assignment => exact later
  | cons constraint constraints represents settles solved rest restLater =>
    exact solved.later represents (restLater later)

def Respects (final assignment : Assignment) : Prop :=
  ∀ ty, finalType final ty = finalType final (ty.subst assignment)

theorem respects_bind {ty : InferType} (respects : Respects final assignment)
    (same : finalType final (.var var) = finalType final ty) :
    Respects final (assignment.bind var ty) := by
  intro target
  rw [Assignment.subst_bind, respects target, finalType_subst final (Assignment.single var ty),
    finalType_eq final (target.subst assignment)]
  refine subst_congr fun id _ => ?_
  by_cases isVar : id = var
  · rw [isVar, Assignment.single_self, same]
  · rw [Assignment.single_other ty isVar]

theorem respects_overwrite (default : literal.defaulted = .concrete ty)
    (overwrites : Overwrites assignment after literal ty) (respects : Respects final assignment) :
    Respects final after := by
  intro target
  rw [respects target]
  rcases overwrites.subst target with kept | relabelled
  · rw [kept]
  · rw [relabelled, finalType_relabel default]

theorem LiteralTakes.default_of_coerces (takes : LiteralTakes literal ty)
    (coerces : Coerces literal.defaulted (.concrete ty)) : literal.defaulted = .concrete ty := by
  refine eq_of_coerces_of_blur coerces ?_
  simp only [blur, takes.isNumeric, if_true]
  rcases takes with ⟨rfl, _⟩ | ⟨rfl, _⟩ <;> rfl

theorem LiteralTakes.meets_of_default (takes : LiteralTakes literal ty)
    (default : literal.defaulted = .concrete ty) : MeetsDefault literal (.concrete ty) := by
  rcases takes with ⟨rfl, _⟩ | ⟨rfl, _⟩
  · exact fun _ => (InferType.concrete.inj default).symm
  · exact fun _ => (InferType.concrete.inj default).symm

theorem LiteralTakes.finalType_literal (takes : LiteralTakes literal ty) (final : Assignment) :
    finalType final literal = literal.defaulted := by
  rcases takes with ⟨rfl, _⟩ | ⟨rfl, _⟩ <;> rfl

theorem Unified.respects (unified : Unified assignment lhs rhs after)
    (respects : Respects final assignment) (later : Later after final)
    (coerces : Coerces (finalType final lhs) (finalType final rhs)) :
    MeetsDefault lhs rhs ∧ Respects final after := by
  induction unified with
  | same ty => exact ⟨meetsDefault_refl ty, respects⟩
  | coerce t1 t2 _ => exact ⟨trivial, respects⟩
  | bind var ty free settled absent =>
    have boundTo : (InferType.var var).subst (assignment.bind var ty) = ty :=
      Assignment.bind_self free ty
    have blurred := later.blurred (.var var)
    rw [boundTo] at blurred
    refine ⟨by cases ty <;> trivial, respects_bind respects ?_⟩
    exact eq_of_coerces_of_blur coerces blurred
  | literal literal ty after takes overwrites =>
    rw [takes.finalType_literal] at coerces
    have default := takes.default_of_coerces coerces
    exact ⟨takes.meets_of_default default, respects_overwrite default overwrites respects⟩
  | literalError literal isLiteral =>
    refine ⟨?_, respects⟩
    rcases isLiteral with rfl | rfl
    · exact fun integer => by cases integer
    · exact fun float => by cases float
  | array first second length after elements elementsRespect =>
    exact elementsRespect later coerces.2
  | symm first second after unified unifiedRespects =>
    obtain ⟨meets, respectsAfter⟩ := unifiedRespects later (coerces_symm coerces)
    exact ⟨meetsDefault_symm meets, respectsAfter⟩

theorem Solved.respects (solved : Solved assignment constraint after)
    (respects : Respects final assignment) (later : Later after final)
    (coerces : ∀ lhs rhs span, constraint = .equal lhs rhs span →
      Coerces (finalType final lhs) (finalType final rhs)) :
    StepMeetsDefaults assignment constraint ∧ Respects final after := by
  cases solved with
  | equal lhs rhs span _ unified =>
    have resolved := coerces lhs rhs span rfl
    rw [respects lhs, respects rhs] at resolved
    exact unified.respects respects later resolved
  | isSigned ty span | isInteger ty span | isNumeric ty span => exact ⟨trivial, respects⟩
  | unsignedKept ty span kept =>
    refine ⟨?_, respects⟩
    cases ty with
    | var id => exact kept id rfl
    | _ => trivial
  | unsignedFree ty span var resolved free =>
    have atVar : finalType final (.var var) = .concrete .u64 :=
      later.concrete (.var var) .u64 (Assignment.bind_self free _)
    refine ⟨?_, respects_bind respects atVar⟩
    cases ty with
    | var id =>
      intro literal
      rw [subst, literal] at resolved
      cases resolved
    | _ => trivial
  | unsignedLiteral var span _ resolved overwrites written =>
    have atVar : finalType final (.var var) = .concrete .u64 := later.concrete (.var var) _ written
    have asLiteral := respects (.var var)
    rw [atVar, subst, resolved] at asLiteral
    cases asLiteral

theorem Solves.respects {final : Substitution}
    (solves : Solves substitution assignment constraints final solvedAssignment)
    (later : Later solvedAssignment finalAssignment)
    (respects : Respects finalAssignment assignment)
    (coerces : ∀ lhs rhs span, Constraint.equal lhs rhs span ∈ constraints →
      Coerces (finalType finalAssignment lhs) (finalType finalAssignment rhs)) :
    KeepsLiterals substitution constraints ∧ Respects finalAssignment solvedAssignment := by
  induction solves with
  | nil substitution assignment => exact ⟨trivial, respects⟩
  | cons constraint constraints represents settles solved rest restRespects =>
    obtain ⟨meets, respectsMiddle⟩ := solved.respects respects (rest.later later)
      fun lhs rhs span same => coerces lhs rhs span (by rw [same]; exact (.head _))
    obtain ⟨keepsRest, respectsFinal⟩ := restRespects later respectsMiddle
      fun lhs rhs span isMember => coerces lhs rhs span (.tail _ isMember)
    refine ⟨⟨(represents.stepKeepsLiterals_iff constraint).mpr meets, ?_⟩, respectsFinal⟩
    intro _ _ settlesOther
    obtain ⟨_, rfl⟩ := Prod.mk.inj (settles_unique settlesOther settles)
    exact keepsRest

inductive DefaultPass (default : Ty) : Assignment → List TypeVarId → Assignment → Prop
  | nil (assignment : Assignment) : DefaultPass default assignment [] assignment
  | kept {assignment final : Assignment} {var : TypeVarId} {vars : List TypeVarId}
      (resolved : ∀ root, assignment var ≠ .var root)
      (rest : DefaultPass default assignment vars final) :
      DefaultPass default assignment (var :: vars) final
  | written {assignment after final : Assignment} {var root : TypeVarId} {vars : List TypeVarId}
      (resolved : assignment var = .var root)
      (overwrites : Overwrites assignment after (.var root) default)
      (atVar : after var = .concrete default)
      (others : ∀ id, id ≠ var → assignment id = .var id → after id = .var id)
      (rest : DefaultPass default after vars final) :
      DefaultPass default assignment (var :: vars) final

theorem Represents.defaultLiteralVars_settles (represents : Represents substitution assignment rank)
    (default : Ty) (vars : List TypeVarId) :
    ∃ after afterAssignment, Settles (fun fuel => Unifier.defaultLiteralVars default fuel substitution vars) after ∧
      Represents after afterAssignment rank ∧
      DefaultPass default assignment vars afterAssignment := by
  induction vars generalizing substitution assignment with
  | nil => exact ⟨substitution, assignment, settles_some _, represents, .nil _⟩
  | cons var vars restSettles =>
    obtain ⟨_, settles, appliedRepresents⟩ := represents.apply_settles (.var var)
    cases shape : assignment var with
    | var root =>
      have isLeaf : ∀ element length, assignment var ≠ .array element length := by
        intro element length isArray
        rw [shape] at isArray
        cases isArray
      obtain ⟨written, writtenRepresents, overwrites, atVar, others⟩ :=
        appliedRepresents.overwrite var default isLeaf
      obtain ⟨after, afterAssignment, settlesRest, afterRepresents, pass⟩ :=
        restSettles writtenRepresents
      rw [shape] at overwrites
      refine ⟨after, afterAssignment, settles_bind settles ?_, afterRepresents,
        .written shape overwrites atVar others pass⟩
      simp only [subst, shape]
      exact settlesRest
    | _ =>
      obtain ⟨after, afterAssignment, settlesRest, afterRepresents, pass⟩ :=
        restSettles appliedRepresents
      have resolved : ∀ root, assignment var ≠ .var root := by
        intro root isVar
        rw [shape] at isVar
        cases isVar
      refine ⟨after, afterAssignment, settles_bind settles ?_, afterRepresents, .kept resolved pass⟩
      simp only [subst, shape]
      exact settlesRest

theorem relabel_var (root : TypeVarId) (ty : Ty) (target : InferType) :
    relabel (.var root) ty target = target ∨ target.leafVar = some root ∧
        relabel (.var root) ty target = target.subst fun _ => .concrete ty := by
  induction target with
  | array element length elementCases =>
    simp only [relabel, subst, leafVar]
    rcases elementCases with kept | ⟨leaf, changed⟩
    · exact .inl (by rw [kept])
    · exact .inr ⟨leaf, by rw [changed]⟩
  | var id =>
    by_cases same : id = root
    · subst same
      exact .inr ⟨rfl, if_pos rfl⟩
    · exact .inl (if_neg fun isRoot => same (InferType.var.inj isRoot))
  | _ => exact .inl (if_neg fun same => by cases same)

def fillRoots (vars : List TypeVarId) (default : Ty) : Assignment := fun root =>
  if root ∈ vars then .concrete default else .var root

namespace DefaultPass

variable {default : Ty} {assignment final : Assignment} {vars : List TypeVarId}
variable {id : TypeVarId}

section

variable (pass : DefaultPass default assignment vars final)
include pass

theorem leaf (id : TypeVarId) :
    final id = assignment id ∨ final id = (assignment id).subst fun _ => .concrete default := by
  induction pass with
  | nil assignment => exact .inl rfl
  | kept resolved rest restLeaf => exact restLeaf
  | @written assignment after final var root vars resolved overwrites atVar others rest restLeaf =>
    have middle : after id = assignment id ∨ after id = (assignment id).subst fun _ => .concrete default := by
      rcases overwrites.each id with kept | relabelled
      · exact .inl kept
      · rcases relabel_var root default (assignment id) with same | ⟨_, changed⟩
        · exact .inl (relabelled.trans same)
        · exact .inr (relabelled.trans changed)
    rcases restLeaf with same | changed
    · rw [same]
      exact middle
    · rcases middle with middleSame | middleChanged
      · rw [changed, middleSame]
        exact .inr rfl
      · rw [changed, middleChanged, subst_subst]
        exact .inr rfl

theorem concrete {ty : Ty} (resolved : assignment id = .concrete ty) : final id = .concrete ty := by
  rcases pass.leaf id with same | changed
  · rw [same, resolved]
  · rw [changed, resolved]
    rfl

theorem free (absent : id ∉ vars) (unbound : assignment id = .var id) : final id = .var id := by
  induction pass with
  | nil assignment => exact unbound
  | kept resolved rest restFree =>
    exact restFree (fun isMember => absent (.tail _ isMember)) unbound
  | @written assignment after final var root vars resolved overwrites atVar others rest restFree =>
    have other : id ≠ var := fun same => absent (by rw [same]; exact (.head _))
    exact restFree (fun isMember => absent (.tail _ isMember)) (others id other unbound)

theorem defaults {root : TypeVarId} (isMember : id ∈ vars) (resolved : assignment id = .var root) :
    final id = .concrete default := by
  induction pass with
  | nil assignment => cases isMember
  | kept isBound rest restDefaults =>
    rcases List.mem_cons.mp isMember with same | inRest
    · subst same
      exact absurd resolved (isBound root)
    · exact restDefaults inRest resolved
  | @written assignment after final var written vars writtenAt overwrites atVar others rest restDefaults =>
      rcases List.mem_cons.mp isMember with same | inRest
      · subst same
        exact rest.concrete atVar
      · rcases overwrites.each id with kept | relabelled
        · exact restDefaults inRest (kept.trans resolved)
        · rcases relabel_var written default (assignment id) with same | ⟨_, changed⟩
          · exact restDefaults inRest (relabelled.trans (same.trans resolved))
          · refine rest.concrete ?_
            rw [relabelled, changed, resolved]
            rfl

theorem fills_aux {all : List TypeVarId}
    (roots : ∀ id root, id ∈ vars → assignment id = .var root → root ∈ all) (id : TypeVarId) :
    (final id).subst (fillRoots all default) = (assignment id).subst (fillRoots all default) := by
  induction pass with
  | nil assignment => rfl
  | kept resolved rest restFills =>
    exact restFills fun id root isMember => roots id root (.tail _ isMember)
  | @written assignment after final var root vars resolved overwrites atVar others rest restFills =>
    have rootIn : root ∈ all := roots var root (.head _) resolved
    have laterRoots : ∀ other laterRoot, other ∈ vars → after other = .var laterRoot → laterRoot ∈ all := by
      intro other laterRoot isMember resolvedLater
      refine roots other laterRoot (.tail _ isMember) ?_
      rcases overwrites.each other with kept | relabelled
      · exact kept.symm.trans resolvedLater
      · rcases relabel_var root default (assignment other) with same | ⟨leafRoot, changed⟩
        · exact same.symm.trans (relabelled.symm.trans resolvedLater)
        · rw [relabelled, changed] at resolvedLater
          cases shape : assignment other <;> rw [shape] at resolvedLater <;> cases resolvedLater
    rw [restFills laterRoots]
    rcases overwrites.each id with kept | relabelled
    · rw [kept]
    · rcases relabel_var root default (assignment id) with same | ⟨leafRoot, changed⟩
      · rw [relabelled, same]
      · rw [relabelled, changed, subst_subst]
        refine subst_congr fun other isLeaf => ?_
        have isRoot : root = other := Option.some.inj (leafRoot.symm.trans isLeaf)
        rw [← isRoot, fillRoots, if_pos rootIn]
        rfl

theorem notVar (isMember : id ∈ vars) (root : TypeVarId) : final id ≠ .var root := by
  intro isVar
  have before : ∃ start, assignment id = .var start := by
    rcases pass.leaf id with same | changed
    · exact ⟨root, same.symm.trans isVar⟩
    · rw [changed] at isVar
      cases shape : assignment id <;> rw [shape] at isVar <;> cases isVar
  obtain ⟨start, resolved⟩ := before
  rw [pass.defaults isMember resolved] at isVar
  cases isVar

theorem fills {substitution : Substitution} {rank : TypeVarId → Nat} (represents : Represents substitution final rank)
    (roots : ∀ id root, id ∈ vars → assignment id = .var root → root ∈ vars) (id : TypeVarId) :
    final id = (assignment id).subst (fillRoots vars default) := by
  rw [← pass.fills_aux roots id]
  symm
  refine subst_eq_self fun root isLeaf => if_neg fun isMember => ?_
  exact pass.notVar isMember root (represents.root_fixed isLeaf)

end

end DefaultPass

theorem blur_subst_of_weak {assignment : Assignment} {ty : InferType}
    (weak : ∀ root, ty.leafVar = some root → (assignment root).defaulted.blur = .intLiteral) :
    (ty.subst assignment).defaulted.blur = ty.defaulted.blur := by
  induction ty with
  | var id => exact weak id rfl
  | array element length elementSame =>
    simp [subst, defaulted, blur, elementSame weak]
  | _ => rfl

structure Defaults (solved final : Assignment) (intVars floatVars : List TypeVarId) : Prop where
  passes : ∃ middle, DefaultPass .i32 solved intVars middle ∧ DefaultPass .f64 middle floatVars final ∧
    ∃ substitution rank, Represents substitution middle rank

namespace Defaults

variable {substitution : Substitution} {solved final : Assignment}
  {intVars floatVars : List TypeVarId} {rank : TypeVarId → Nat}

theorem leaf (defaults : Defaults solved final intVars floatVars) (id : TypeVarId) :
    final id = solved id ∨ ∃ ty : Ty, ty.isNumeric = true ∧ final id = (solved id).subst fun _ => .concrete ty := by
  obtain ⟨_, ints, floats, _⟩ := defaults.passes
  rcases floats.leaf id with sameFloat | changedFloat
  · rcases ints.leaf id with sameInt | changedInt
    · exact .inl (sameFloat.trans sameInt)
    · exact .inr ⟨.i32, rfl, sameFloat.trans changedInt⟩
  · rcases ints.leaf id with sameInt | changedInt
    · refine .inr ⟨.f64, rfl, ?_⟩
      rw [changedFloat, sameInt]
    · refine .inr ⟨.i32, rfl, ?_⟩
      rw [changedFloat, changedInt, subst_subst]
      rfl

theorem weak (defaults : Defaults solved final intVars floatVars) {root : TypeVarId}
    (unbound : solved root = .var root) : (final root).defaulted.blur = .intLiteral := by
  rcases defaults.leaf root with same | ⟨_, numeric, changed⟩
  · rw [same, unbound]
    rfl
  · rw [changed, unbound]
    simp [subst, defaulted, blur, numeric]

theorem later (defaults : Defaults solved final intVars floatVars)
    (represents : Represents substitution solved rank) : Later solved final where
  blurred ty := by
    induction ty with
    | array element length elementSame =>
      simp only [finalType, subst, defaulted, blur, InferType.array.injEq, and_true]
      exact elementSame
    | var id =>
      have resolved : ((solved id).subst final).defaulted.blur = (solved id).defaulted.blur :=
        blur_subst_of_weak fun root isLeaf => defaults.weak (represents.root_fixed isLeaf)
      simp only [finalType, subst, resolved]
      rcases defaults.leaf id with same | ⟨ty, numeric, changed⟩
      · rw [same]
      · rw [changed]
        refine blur_subst_of_weak fun root isLeaf => ?_
        simp [defaulted, blur, numeric]
    | _ => rfl
  concrete ty concreteTy resolved := by
    obtain ⟨_, ints, floats, _⟩ := defaults.passes
    cases ty with
    | var id =>
      have atEnd : final id = .concrete concreteTy := floats.concrete (ints.concrete resolved)
      rw [finalType, subst, atEnd]
      rfl
    | concrete other =>
      rw [← resolved]
      rfl
    | _ => cases resolved

end Defaults

theorem Represents.resolveInferType_settles {substitution : Substitution} {assignment : Assignment}
    {rank : TypeVarId → Nat} (represents : Represents substitution assignment rank)
    (ty : InferType) :
    ∃ after, Settles (fun fuel => Unifier.resolveInferType fuel substitution ty)
      (finalType assignment ty, after) := by
  induction bounded : (ty.subst assignment).depth using Nat.strongRecOn generalizing substitution ty with
  | ind bound ih =>
    obtain ⟨after, settles, afterRepresents⟩ := represents.apply_settles ty
    have settled := represents.idempotent ty
    rw [finalType]
    cases shape : ty.subst assignment with
    | array element length =>
      rw [shape] at settles settled bounded
      have elementSettled : element.subst assignment = element :=
        (InferType.array.inj settled).1
      have smaller : (element.subst assignment).depth < bound := by
        rw [elementSettled, ← bounded]
        exact Nat.lt_succ_self _
      obtain ⟨final, settlesElement⟩ := ih _ smaller afterRepresents element rfl
      rw [finalType, elementSettled] at settlesElement
      exact ⟨final, settles_of_succ (settles_bind settles (settles_bind settlesElement (settles_some _)))⟩
    | _ =>
      rw [shape] at settles
      exact ⟨after, settles_of_succ (settles_bind settles (settles_some _))⟩

def ResolvesFinally (substitution : Substitution) (ty resolved : InferType) : Prop :=
  ∃ after, Settles (fun fuel => Unifier.resolveInferType fuel substitution ty) (resolved, after)

/-- Under the final substitution the two sides of every equality resolve to equal types, up to the
never and error types that unification lets coerce. -/
def EqualitiesHold (final : Substitution) (constraints : List Constraint) : Prop :=
  ∀ lhs rhs span, Constraint.equal lhs rhs span ∈ constraints →
    ∃ left right, ResolvesFinally final lhs left ∧ ResolvesFinally final rhs right ∧ Coerces left right

/-- A literal variable that is still unresolved stands for a variable that is defaulted too. -/
def DefaultsReachRoots (solved : Substitution) (intVars floatVars : List TypeVarId) : Prop :=
  (∀ id ∈ intVars, ∀ root, Resolves solved (.var id) (.var root) → root ∈ intVars) ∧
    ∀ id ∈ floatVars, ∀ root, Resolves solved (.var id) (.var root) → root ∈ intVars ∨ root ∈ floatVars

namespace Represents

variable {substitution : Substitution} {assignment : Assignment} {rank : TypeVarId → Nat}

section

variable (represents : Represents substitution assignment rank)
include represents

theorem resolvesFinally_iff (ty resolved : InferType) :
    ResolvesFinally substitution ty resolved ↔ resolved = finalType assignment ty := by
  obtain ⟨after, settles⟩ := represents.resolveInferType_settles ty
  constructor
  · rintro ⟨_, settlesOther⟩
    exact congrArg Prod.fst (settles_unique settlesOther settles)
  · rintro rfl
    exact ⟨after, settles⟩

theorem equalitiesHold_iff (constraints : List Constraint) : EqualitiesHold substitution constraints ↔
      ∀ lhs rhs span, Constraint.equal lhs rhs span ∈ constraints →
        Coerces (finalType assignment lhs) (finalType assignment rhs) := by
  constructor
  · intro hold lhs rhs span isMember
    obtain ⟨left, right, resolvesLeft, resolvesRight, coerces⟩ := hold lhs rhs span isMember
    rw [(represents.resolvesFinally_iff lhs left).mp resolvesLeft,
      (represents.resolvesFinally_iff rhs right).mp resolvesRight] at coerces
    exact coerces
  · intro hold lhs rhs span isMember
    exact ⟨_, _, (represents.resolvesFinally_iff lhs _).mpr rfl,
      (represents.resolvesFinally_iff rhs _).mpr rfl, hold lhs rhs span isMember⟩

theorem defaultsReachRoots_iff (intVars floatVars : List TypeVarId) :
    DefaultsReachRoots substitution intVars floatVars ↔
      (∀ id ∈ intVars, ∀ root, assignment id = .var root → root ∈ intVars) ∧
        ∀ id ∈ floatVars, ∀ root, assignment id = .var root → root ∈ intVars ∨ root ∈ floatVars := by
  have resolves : ∀ id root, Resolves substitution (.var id) (.var root) ↔ assignment id = .var root := fun id root =>
    (represents.resolves_assigned (.var id) (.var root)).trans eq_comm
  simp [DefaultsReachRoots, resolves]

end

end Represents

namespace Defaults

variable {substitution : Substitution} {solved final : Assignment}
  {intVars floatVars : List TypeVarId} {rank : TypeVarId → Nat}

theorem reach_of_respects (defaults : Defaults solved final intVars floatVars)
    (represents : Represents substitution solved rank) (respects : Respects final solved) :
    (∀ id ∈ intVars, ∀ root, solved id = .var root → root ∈ intVars) ∧
      ∀ id ∈ floatVars, ∀ root, solved id = .var root → root ∈ intVars ∨ root ∈ floatVars := by
  obtain ⟨_, ints, floats, _⟩ := defaults.passes
  have sameFinal : ∀ id root, solved id = .var root → (final id).defaulted = (final root).defaulted := by
    intro id root resolved
    have same := respects (.var id)
    simp only [finalType, subst, resolved] at same
    exact same
  have rootFree : ∀ id root, solved id = .var root → solved root = .var root := by
    intro id root resolved
    have isLeaf : (solved id).leafVar = some root := by
      rw [resolved]
      rfl
    exact represents.root_fixed isLeaf
  constructor
  · intro id isMember root resolved
    by_contra absent
    have unbound := rootFree id root resolved
    have atInt : final id = .concrete .i32 := floats.concrete (ints.defaults isMember resolved)
    have rootMiddle := ints.free absent unbound
    have same := sameFinal id root resolved
    rw [atInt] at same
    rcases floats.leaf root with kept | changed
    · rw [kept, rootMiddle] at same
      cases same
    · rw [changed, rootMiddle] at same
      cases same
  · intro id isMember root resolved
    by_contra absent
    obtain ⟨notInt, notFloat⟩ := not_or.mp absent
    have unbound := rootFree id root resolved
    have rootFinal := floats.free notFloat (ints.free notInt unbound)
    have same := sameFinal id root resolved
    rw [rootFinal] at same
    rcases ints.leaf id with kept | changed
    · rw [floats.defaults isMember (kept.trans resolved)] at same
      cases same
    · rw [resolved] at changed
      rw [floats.concrete changed] at same
      cases same

theorem instantiates_of_reach (defaults : Defaults solved final intVars floatVars)
    (represents : Represents substitution final rank)
    (reach : (∀ id ∈ intVars, ∀ root, solved id = .var root → root ∈ intVars) ∧
      ∀ id ∈ floatVars, ∀ root, solved id = .var root → root ∈ intVars ∨ root ∈ floatVars) :
    ∃ instantiation, Instantiates solved final instantiation := by
  obtain ⟨middle, ints, floats, _, _, middleRepresents⟩ := defaults.passes
  have middleFilled := ints.fills middleRepresents fun id root isMember => reach.1 id isMember root
  have floatRoots : ∀ id root, id ∈ floatVars → middle id = .var root → root ∈ floatVars := by
    intro id root isMember resolved
    rw [middleFilled id] at resolved
    cases shape : solved id with
    | var start =>
      rw [shape] at resolved
      by_cases isInt : start ∈ intVars
      · simp only [subst, fillRoots, if_pos isInt] at resolved
        cases resolved
      · simp only [subst, fillRoots, if_neg isInt] at resolved
        have same : start = root := InferType.var.inj resolved
        rw [← same]
        exact (reach.2 id isMember start shape).resolve_left isInt
    | _ =>
      rw [shape] at resolved
      cases resolved
  have finalFilled := floats.fills represents floatRoots
  have composed : final = fun id => (solved id).subst fun root =>
      (fillRoots intVars .i32 root).subst (fillRoots floatVars .f64) := by
    funext id
    rw [finalFilled id, middleFilled id, subst_subst]
  refine ⟨fun root => ((fillRoots intVars .i32 root).subst (fillRoots floatVars .f64)).defaulted, fun ty => ?_⟩
  rw [composed, ← subst_subst]
  exact defaulted_subst _ _

end Defaults

theorem Represents.defaultLiterals_settles {substitution : Substitution} {assignment : Assignment}
    {rank : TypeVarId → Nat} (represents : Represents substitution assignment rank)
    (intVars floatVars : List TypeVarId) :
    ∃ after final, Settles (fun fuel => Unifier.defaultLiterals fuel substitution intVars floatVars) after ∧
      Represents after final rank ∧ Defaults assignment final intVars floatVars := by
  obtain ⟨middle, middleAssignment, settlesInts, middleRepresents, ints⟩ :=
    represents.defaultLiteralVars_settles .i32 intVars
  obtain ⟨after, final, settlesFloats, afterRepresents, floats⟩ :=
    middleRepresents.defaultLiteralVars_settles .f64 floatVars
  exact ⟨after, final, settles_bind settlesInts settlesFloats, afterRepresents,
    ⟨⟨middleAssignment, ints, floats, middle, rank, middleRepresents⟩⟩⟩

/-- Inference always settles. Where it reports no error, every solved equality holds under the
final substitution exactly when no step ties a literal placeholder to a type other than its
default, and every literal variable left unresolved stands for a variable that is defaulted with
it. -/
theorem equalitiesHold_iff_of_no_errors (capacity : Nat) (constraints : List Constraint)
    (intVars floatVars : List TypeVarId) :
    ∃ errors solved final, Settles (fun fuel => Unifier.solveConstraints fuel (Substitution.withCapacity capacity)
        constraints) (errors, solved) ∧
      Settles (fun fuel => Unifier.defaultLiterals fuel solved intVars floatVars) final ∧
      (errors = [] → (EqualitiesHold final constraints ↔
          KeepsLiterals (Substitution.withCapacity capacity) constraints ∧
            DefaultsReachRoots solved intVars floatVars)) := by
  obtain ⟨errors, solved, _, _, settles, solvedRepresents, solves⟩ :=
    (Represents.withCapacity capacity).solveConstraints_settles constraints
  obtain ⟨final, finalAssignment, settlesDefaults, finalRepresents, defaults⟩ :=
    solvedRepresents.defaultLiterals_settles intVars floatVars
  refine ⟨errors, solved, final, settles, settlesDefaults, fun noErrors => ?_⟩
  have run := solves noErrors
  rw [finalRepresents.equalitiesHold_iff, solvedRepresents.defaultsReachRoots_iff]
  constructor
  · intro hold
    have later := defaults.later solvedRepresents
    have initially : Respects finalAssignment .var := fun ty => by rw [subst_var]
    obtain ⟨keeps, respects⟩ := run.respects later initially hold
    exact ⟨keeps, defaults.reach_of_respects solvedRepresents respects⟩
  · rintro ⟨keeps, reach⟩ lhs rhs span isMember
    obtain ⟨_, _, coerces⟩ := run.sound keeps
    obtain ⟨instantiation, instantiates⟩ := defaults.instantiates_of_reach finalRepresents reach
    rw [finalType, finalType, instantiates lhs, instantiates rhs]
    exact coerces_subst instantiation (coerces lhs rhs span isMember)

def literalLink : List Constraint := [.equal (.var 0) (.var 1) ⟨0, 0, 0⟩]

/-- An integer literal variable linked to a float literal variable: no error, and the two sides
end as `i32` and `f64`. -/
theorem not_equalitiesHold_literalLink : ∃ solved final,
      Settles (fun fuel => Unifier.solveConstraints fuel (Substitution.withCapacity 2) literalLink) ([], solved) ∧
      Settles (fun fuel => Unifier.defaultLiterals fuel solved [0] [1]) final ∧
      ¬ EqualitiesHold final literalLink := by
  refine ⟨⟨[some (.var 1), none]⟩, ⟨[some (.concrete .i32), some (.concrete .f64)]⟩, ?_, ?_, ?_⟩
  · exact settles_of_add 10 fun _ => rfl
  · exact settles_of_add 10 fun _ => rfl
  · intro hold
    obtain ⟨_, _, ⟨_, leftSettles⟩, ⟨_, rightSettles⟩, coerces⟩ :=
      hold (.var 0) (.var 1) ⟨0, 0, 0⟩ (.head _)
    have leftInt := settles_unique leftSettles (settles_of_add 10 fun _ => rfl)
    have rightFloat := settles_unique rightSettles (settles_of_add 10 fun _ => rfl)
    cases leftInt
    cases rightFloat
    rcases coerces with same | special
    · cases same
    · cases special

end Gruel
