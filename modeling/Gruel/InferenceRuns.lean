import Gruel.InferenceSound

/-!
Runs of the unifier: no sequence of its steps makes the substitution cyclic, and what a class
constraint guarantees about the types a run ends with.
-/

namespace Gruel

open Fuel InferType Substitution

variable {substitution : Substitution} {assignment : Assignment} {rank : TypeVarId → Nat}

namespace Unifier

inductive Step
  | unify (lhs rhs : InferType)
  | solveConstraint (constraint : Constraint)
  | recoverFromError (lhs rhs : InferType)
  | defaultIntLiteralVars (vars : List TypeVarId)
  | defaultFloatLiteralVars (vars : List TypeVarId)

def perform (fuel : Nat) (substitution : Substitution) : Step → Option Substitution
  | .unify lhs rhs => (unify fuel substitution lhs rhs).bind fun unified => some unified.2
  | .solveConstraint constraint =>
    (solveConstraint fuel substitution constraint).bind fun solved => some solved.2
  | .recoverFromError lhs rhs => recoverFromError fuel substitution lhs rhs
  | .defaultIntLiteralVars vars => defaultIntLiteralVars fuel substitution vars
  | .defaultFloatLiteralVars vars => defaultFloatLiteralVars fuel substitution vars

def performAll (fuel : Nat) (substitution : Substitution) : List Step → Option Substitution
  | [] => some substitution
  | step :: steps =>
    (perform fuel substitution step).bind fun after => performAll fuel after steps

end Unifier

/-- Following the bindings of a variable, through links and array elements, comes to an unbound
variable or to a type without variables. -/
inductive Substitution.Ends (substitution : Substitution) : TypeVarId → Prop
  | unbound {var : TypeVarId} (found : substitution.get var = none) : substitution.Ends var
  | closed {var : TypeVarId} {ty : InferType} (found : substitution.get var = some ty)
      (leafless : ty.leafVar = none) : substitution.Ends var
  | link {var below : TypeVarId} {ty : InferType} (found : substitution.get var = some ty)
      (leaf : ty.leafVar = some below) (rest : substitution.Ends below) : substitution.Ends var

namespace Represents

section

variable (represents : Represents substitution assignment rank)
include represents

theorem ends (var : TypeVarId) : substitution.Ends var := by
  induction bounded : rank var using Nat.strongRecOn generalizing var with
  | ind bound ih =>
    cases found : substitution.get var with
    | none => exact .unbound found
    | some ty =>
      cases leaf : ty.leafVar with
      | none => exact .closed found leaf
      | some below =>
        have smaller := represents.descends var ty below found leaf
        exact .link found leaf (ih (rank below) (by omega) below rfl)

theorem occursIn_total (var : TypeVarId) (ty : InferType) :
    ∃ occurs, Settles (fun fuel => substitution.occursIn fuel var ty) occurs := by
  induction bounded : ty.leafVar.elim 0 (rank · + 1) using Nat.strongRecOn generalizing ty with
  | ind bound ih =>
    induction ty with
    | array element length elementSettles =>
      obtain ⟨occurs, settles⟩ := elementSettles bounded
      exact ⟨occurs, settles_of_succ settles⟩
    | var id =>
      by_cases same : id = var
      · refine ⟨true, settles_of_succ ?_⟩
        simp only [Substitution.occursIn, if_pos same]
        exact settles_some _
      · cases found : substitution.get id with
        | none =>
          refine ⟨false, settles_of_succ ?_⟩
          simp only [Substitution.occursIn, if_neg same, found]
          exact settles_some _
        | some resolved =>
          obtain ⟨occurs, settles⟩ :=
            ih _ (bounded ▸ represents.leafRank_lt found) resolved rfl
          refine ⟨occurs, settles_of_succ ?_⟩
          simp only [Substitution.occursIn, if_neg same, found]
          exact settles
    | _ => exact ⟨false, settles_of_succ (settles_some _)⟩

theorem perform_settles (step : Unifier.Step) : ∃ after afterAssignment afterRank,
      Settles (fun fuel => Unifier.perform fuel substitution step) after ∧
      Represents after afterAssignment afterRank := by
  cases step with
  | unify lhs rhs =>
    obtain ⟨_, after, afterAssignment, afterRank, settles, afterRepresents, _⟩ :=
      represents.unify_unifies lhs rhs
    exact ⟨after, afterAssignment, afterRank, settles_bind settles (settles_some _), afterRepresents⟩
  | solveConstraint constraint =>
    obtain ⟨_, after, afterAssignment, afterRank, settles, afterRepresents, _⟩ :=
      represents.solveConstraint_settles constraint
    exact ⟨after, afterAssignment, afterRank, settles_bind settles (settles_some _), afterRepresents⟩
  | recoverFromError lhs rhs =>
    obtain ⟨after, afterAssignment, settles, afterRepresents⟩ :=
      represents.recoverFromError_settles lhs rhs
    exact ⟨after, afterAssignment, rank, settles, afterRepresents⟩
  | defaultIntLiteralVars vars =>
    obtain ⟨after, afterAssignment, settles, afterRepresents, _⟩ :=
      represents.defaultLiteralVars_settles .i32 vars
    exact ⟨after, afterAssignment, rank, settles, afterRepresents⟩
  | defaultFloatLiteralVars vars =>
    obtain ⟨after, afterAssignment, settles, afterRepresents, _⟩ :=
      represents.defaultLiteralVars_settles .f64 vars
    exact ⟨after, afterAssignment, rank, settles, afterRepresents⟩

theorem performAll_settles (steps : List Unifier.Step) : ∃ after afterAssignment afterRank,
      Settles (fun fuel => Unifier.performAll fuel substitution steps) after ∧
      Represents after afterAssignment afterRank := by
  induction steps generalizing substitution assignment rank with
  | nil => exact ⟨substitution, assignment, rank, settles_some _, represents⟩
  | cons step steps restSettles =>
    obtain ⟨_, _, _, settles, middleRepresents⟩ :=
      represents.perform_settles step
    obtain ⟨after, afterAssignment, afterRank, settlesRest, afterRepresents⟩ :=
      restSettles middleRepresents
    exact ⟨after, afterAssignment, afterRank, settles_bind settles settlesRest, afterRepresents⟩

end

end Represents

/-- Whatever the unifier is asked to do, starting from the empty substitution: every step
completes, the bindings of every variable come to an end, and `apply` and `occurs_in` return on
every type. -/
theorem performAll_acyclic (capacity : Nat) (steps : List Unifier.Step) : ∃ after,
      Settles (fun fuel => Unifier.performAll fuel (.withCapacity capacity) steps) after ∧
      (∀ var, after.Ends var) ∧
      (∀ ty, ∃ applied, Settles (fun fuel => after.apply fuel ty) applied) ∧
      ∀ var ty, ∃ occurs, Settles (fun fuel => after.occursIn fuel var ty) occurs := by
  obtain ⟨after, _, _, settles, represents⟩ :=
    (Represents.withCapacity capacity).performAll_settles steps
  refine ⟨after, settles, represents.ends, fun ty => ?_, represents.occursIn_total⟩
  obtain ⟨applied, settlesApply, _⟩ := represents.apply_settles ty
  exact ⟨_, settlesApply⟩

/-- After whatever the unifier was asked to do, resolving a type leaves no variable in it that has a
binding, and resolving it again changes nothing, whatever is resolved in between. -/
theorem performAll_resolves (capacity : Nat) (steps : List Unifier.Step) : ∃ after,
    Settles (fun fuel => Unifier.performAll fuel (.withCapacity capacity) steps) after ∧
      ∀ ty other, ∃ applied next otherApplied between again,
        Settles (fun fuel => after.apply fuel ty) (applied, next) ∧
        (∀ var, applied.leafVar = some var → next.get var = none) ∧
        Settles (fun fuel => next.apply fuel other) (otherApplied, between) ∧
        Settles (fun fuel => between.apply fuel applied) (applied, again) := by
  obtain ⟨after, assignment, _, performed, represents⟩ :=
    (Represents.withCapacity capacity).performAll_settles steps
  refine ⟨after, performed, fun ty other => ?_⟩
  obtain ⟨next, applied, nextRepresents⟩ := represents.apply_settles ty
  obtain ⟨between, otherApplied, betweenRepresents⟩ := nextRepresents.apply_settles other
  obtain ⟨again, reapplied, -⟩ := betweenRepresents.apply_settles (ty.subst assignment)
  rw [represents.idempotent] at reapplied
  exact ⟨_, next, _, between, again, applied,
    fun var leaf => (nextRepresents.get_none_iff var).mpr (represents.leaf_fixed leaf), otherApplied, reapplied⟩

/-- The end of a variable's chain and the number of links to it. -/
def Substitution.chase (substitution : Substitution) : Nat → TypeVarId → Option (InferType × Nat)
  | 0, _ => none
  | fuel + 1, id =>
    match substitution.get id with
    | none => some (.var id, 0)
    | some ty =>
      match ty.leafVar with
      | none => some (ty, 0)
      | some below => (substitution.chase fuel below).bind fun last =>
        some (ty.subst fun _ => last.1, last.2 + 1)

theorem Substitution.Ends.chased {var : TypeVarId} (ends : substitution.Ends var) :
    ∃ last, Settles (fun fuel => substitution.chase fuel var) last := by
  induction ends with
  | unbound found =>
    exact ⟨_, settles_of_succ (by simpa [chase, found] using settles_some _)⟩
  | closed found leafless =>
    exact ⟨_, settles_of_succ (by simpa [chase, found, leafless] using settles_some _)⟩
  | @link var below ty found leaf _ chased =>
    obtain ⟨last, settles⟩ := chased
    refine ⟨(ty.subst fun _ => last.1, last.2 + 1), settles_of_succ ?_⟩
    simp only [chase, found, leaf]
    exact settles_bind settles (settles_some _)

namespace Represents

theorem of_ends (acyclic : ∀ var, substitution.Ends var) :
    ∃ assignment rank, Represents substitution assignment rank := by
  choose last settles using fun var => (acyclic var).chased
  have chased : ∀ var ty below, substitution.get var = some ty → ty.leafVar = some below →
      last var = (ty.subst fun _ => (last below).1, (last below).2 + 1) := by
    intro var ty below found leaf
    refine settles_unique (settles var) (settles_of_succ ?_)
    simp only [chase, found, leaf]
    exact settles_bind (settles below) (settles_some _)
  refine ⟨fun var => (last var).1, fun var => (last var).2, fun var found => ?_,
    fun var ty found => ?_, fun var ty below found leaf => ?_⟩
  · have atEnd : Settles (fun fuel => substitution.chase fuel var) (.var var, 0) :=
      settles_of_succ (by simpa [chase, found] using settles_some _)
    rw [settles_unique (settles var) atEnd]
  · cases leaf : ty.leafVar with
    | none =>
      have atEnd : Settles (fun fuel => substitution.chase fuel var) (ty, 0) :=
        settles_of_succ (by simpa [chase, found, leaf] using settles_some _)
      rw [settles_unique (settles var) atEnd]
      exact (InferType.subst_eq_self fun _ isLeaf => by rw [leaf] at isLeaf; cases isLeaf).symm
    | some below =>
      rw [chased var ty below found leaf]
      exact InferType.subst_congr fun other isLeaf => by
        rw [Option.some.inj (leaf.symm.trans isLeaf)]
  · simp only [chased var ty below found leaf]
    omega

theorem occursIn_unbound (represents : Represents substitution assignment rank)
    {var : TypeVarId} (unbound : substitution.get var = none) (ty : InferType) :
    Settles (fun fuel => substitution.occursIn fuel var ty) (decide ((ty.subst assignment).leafVar = some var)) := by
  induction bounded : ty.leafVar.elim 0 (rank · + 1) using Nat.strongRecOn generalizing ty with
  | ind bound ih =>
    induction ty with
    | array element length elementSettles => exact settles_of_succ (elementSettles bounded)
    | var id =>
      refine settles_of_succ ?_
      cases found : substitution.get id with
      | none =>
        have fixed : assignment id = .var id := represents.unbound id found
        simp only [Substitution.occursIn, found, subst, fixed, leafVar, Option.some.injEq]
        split <;> rename_i same <;> simp [same] <;> exact settles_some _
      | some resolved =>
        have other : id ≠ var := by
          rintro rfl
          rw [found] at unbound
          cases unbound
        simp only [Substitution.occursIn, if_neg other, found, subst, represents.bound id resolved found]
        exact ih _ (bounded ▸ represents.leafRank_lt found) resolved rfl
    | _ => exact settles_of_succ (settles_some _)

/-- Compression takes variables off a chain and puts none on it. -/
theorem occursIn_compresses {after : Substitution} (represents : Represents substitution assignment rank)
    (afterRepresents : Represents after assignment rank)
    (compresses : Compresses assignment substitution after) (var : TypeVarId) (ty : InferType)
    (occurs : Settles (fun fuel => after.occursIn fuel var ty) true) :
    Settles (fun fuel => substitution.occursIn fuel var ty) true := by
  induction bounded : ty.leafVar.elim 0 (rank · + 1) using Nat.strongRecOn generalizing ty with
  | ind bound ih =>
    induction ty with
    | array element length elementOccurs =>
      exact settles_of_succ (elementOccurs (settles_pred occurs) bounded)
    | var id =>
      have occursNext := settles_pred occurs
      simp only [Substitution.occursIn] at occursNext
      rcases compresses id with kept | ⟨_, compressed⟩
      · refine settles_of_succ ?_
        simp only [Substitution.occursIn]
        rw [kept] at occursNext
        split
        · exact settles_some _
        · rename_i other
          simp only [if_neg other] at occursNext
          cases found : substitution.get id with
          | none => simpa [found] using occursNext
          | some resolved =>
            simp only [found] at occursNext
            exact ih _ (bounded ▸ represents.leafRank_lt found) resolved occursNext rfl
      · by_cases same : id = var
        · refine settles_of_succ ?_
          simp only [Substitution.occursIn, if_pos same]
          exact settles_some _
        · simp only [compressed, if_neg same] at occursNext
          have atEnd := afterRepresents.occursIn_settles var (afterRepresents.idempotent (.var id))
          have leaf := of_decide_eq_true (settles_unique atEnd occursNext)
          have reached := represents.occursIn_unbound (represents.root leaf).1 (.var id)
          rwa [decide_eq_true leaf] at reached
    | _ => exact absurd (settles_unique occurs (settles_of_succ (settles_some false))) (by decide)

end Represents

/-- After `apply` of a variable, `apply` gives the same on every type, and `occurs_in` for every
unbound variable; for a bound one it never turns to true. -/
theorem compression_invisible (acyclic : ∀ var, substitution.Ends var) (var : TypeVarId) :
    ∃ resolved after, Settles (fun fuel => substitution.apply fuel (.var var)) (resolved, after) ∧
      (∀ ty, ∃ applied compressed compressedAfter,
        Settles (fun fuel => substitution.apply fuel ty) (applied, compressed) ∧
        Settles (fun fuel => after.apply fuel ty) (applied, compressedAfter)) ∧
      ∀ target ty, ∃ occurs occursAfter, Settles (fun fuel => substitution.occursIn fuel target ty) occurs ∧
        Settles (fun fuel => after.occursIn fuel target ty) occursAfter ∧
        (substitution.get target = none → occursAfter = occurs) ∧
        (occursAfter = true → occurs = true) := by
  obtain ⟨_, _, represents⟩ := Represents.of_ends acyclic
  obtain ⟨after, settles, afterRepresents, compresses, _⟩ :=
    represents.apply_compresses (.var var)
  refine ⟨_, after, settles, fun ty => ?_, fun target ty => ?_⟩
  · obtain ⟨compressed, settlesBefore, _⟩ := represents.apply_settles ty
    obtain ⟨compressedAfter, settlesAfter, _⟩ := afterRepresents.apply_settles ty
    exact ⟨_, compressed, compressedAfter, settlesBefore, settlesAfter⟩
  · obtain ⟨occurs, settlesBefore⟩ := represents.occursIn_total target ty
    obtain ⟨occursAfter, settlesAfter⟩ := afterRepresents.occursIn_total target ty
    refine ⟨occurs, occursAfter, settlesBefore, settlesAfter, fun unbound => ?_, ?_⟩
    · have stillUnbound : after.get target = none :=
        (afterRepresents.get_none_iff target).mpr (represents.unbound target unbound)
      rw [settles_unique settlesBefore (represents.occursIn_unbound unbound ty),
        settles_unique settlesAfter (afterRepresents.occursIn_unbound stillUnbound ty)]
    · rintro rfl
      exact settles_unique settlesBefore
        (represents.occursIn_compresses afterRepresents compresses target ty settlesAfter)

def twoLinks : Substitution := ⟨[some (.var 1), some (.var 2), none]⟩

theorem twoLinks_ends : ∀ var, twoLinks.Ends var := by
  have two : ∀ var, 2 ≤ var → twoLinks.Ends var := by
    intro var later
    refine .unbound ?_
    obtain rfl | past := Nat.eq_or_lt_of_le later
    · rfl
    · exact dif_neg (Nat.not_lt.mpr past)
  have one : twoLinks.Ends 1 := .link rfl rfl (two 2 (Nat.le_refl 2))
  intro var
  match var with
  | 0 => exact .link rfl rfl one
  | 1 => exact one
  | rest + 2 => exact two _ (Nat.le_add_left 2 rest)

theorem twoLinks_compression : (∀ var, twoLinks.Ends var) ∧ ∃ resolved after,
    Settles (fun fuel => twoLinks.apply fuel (.var 0)) (resolved, after) := by
  obtain ⟨resolved, after, settles, _⟩ := compression_invisible twoLinks_ends 0
  exact ⟨twoLinks_ends, resolved, after, settles⟩

/-- `?1` is on the chain of `?0` before `apply` of `?0` and not after it. -/
theorem twoLinks_occurs : (∀ var, twoLinks.Ends var) ∧ ∃ after,
    Settles (fun fuel => twoLinks.apply fuel (.var 0)) (.var 2, after) ∧
    Settles (fun fuel => twoLinks.occursIn fuel 1 (.var 0)) true ∧
    Settles (fun fuel => after.occursIn fuel 1 (.var 0)) false := by
  refine ⟨twoLinks_ends, ⟨[some (.var 2), some (.var 2), none]⟩, ?_, ?_, ?_⟩
  all_goals exact settles_of_add 10 fun _ => rfl

namespace Represents

theorem unique {first second : Assignment} {firstRank secondRank : TypeVarId → Nat}
    (represents : Represents substitution first firstRank)
    (other : Represents substitution second secondRank) : first = second := by
  funext var
  induction bounded : firstRank var using Nat.strongRecOn generalizing var with
  | ind bound ih =>
    cases found : substitution.get var with
    | none => rw [represents.unbound var found, other.unbound var found]
    | some ty =>
      rw [represents.bound var ty found, other.bound var ty found]
      refine subst_congr fun below leaf => ?_
      have smaller := represents.descends var ty below found leaf
      exact ih (firstRank below) (by omega) below rfl

theorem of_solves {constraints : List Constraint} {final : Substitution}
    {finalAssignment : Assignment} (represents : Represents final finalAssignment rank)
    (solves : Solves substitution assignment constraints final finalAssignment) :
    ∃ rank, Represents substitution assignment rank := by
  cases solves with
  | nil => exact ⟨rank, represents⟩
  | cons constraint constraints represents => exact ⟨_, represents⟩

end Represents

structure Turn (start : Substitution) (before : List Constraint) (constraint : Constraint)
    (finalAssignment : Assignment) (middle after : Substitution)
    (middleAssignment afterAssignment : Assignment) : Prop where
  reached : Settles (fun fuel => Unifier.solveConstraints fuel start before) ([], middle)
  taken : Settles (fun fuel => Unifier.solveConstraint fuel middle constraint) ([], after)
  represents : ∃ rank, Represents middle middleAssignment rank
  afterRepresents : ∃ rank, Represents after afterAssignment rank
  solved : Solved middleAssignment constraint afterAssignment
  rest : ∃ later final, Solves after afterAssignment later final finalAssignment

theorem Solves.turn {constraint : Constraint} {before later constraints : List Constraint}
    {final : Substitution} {finalAssignment : Assignment}
    (solves : Solves substitution assignment constraints final finalAssignment)
    (represents : Represents final finalAssignment rank)
    (parts : constraints = before ++ constraint :: later) :
    ∃ middle after middleAssignment afterAssignment, Turn substitution before constraint
      finalAssignment middle after middleAssignment afterAssignment := by
  induction solves generalizing before with
  | nil => cases before <;> cases parts
  | cons first constraints firstRepresents settles solved rest restTurn =>
    cases before with
    | nil =>
      cases parts
      exact ⟨_, _, _, _, settles_some _, settles, ⟨_, firstRepresents⟩, represents.of_solves rest, solved, _, _, rest⟩
    | cons _ before =>
      obtain ⟨rfl, restParts⟩ := List.cons.inj parts
      obtain ⟨middle, after, middleAssignment, afterAssignment, turn⟩ :=
        restTurn represents restParts
      exact ⟨middle, after, middleAssignment, afterAssignment, { turn with
          reached := settles_bind settles (settles_bind turn.reached (settles_some _)) }⟩

def LiteralsKept (assignment final : Assignment) : Prop :=
  ∀ literal ty target, LiteralTakes literal ty → target.subst assignment = literal →
    ∃ kept, LiteralTakes literal kept ∧ finalType final target = .concrete kept

section Later

variable {final after : Assignment} {literal lhs rhs : InferType} {ty : Ty}

theorem literalsKept_of_bind {var : TypeVarId} {bound : InferType}
    (keeps : LiteralsKept (assignment.bind var bound) final) : LiteralsKept assignment final := by
  intro literal ty target takes resolved
  refine keeps literal ty target takes ?_
  rw [Assignment.subst_bind, resolved]
  rcases takes with ⟨rfl, _⟩ | ⟨rfl, _⟩ <;> rfl

theorem literalsKept_of_overwrite (takes : LiteralTakes literal ty)
    (overwrites : Overwrites assignment after literal ty) (later : Later after final)
    (keeps : LiteralsKept after final) : LiteralsKept assignment final := by
  intro found foundTy target foundTakes resolved
  rcases overwrites.subst target with kept | relabelled
  · exact keeps found foundTy target foundTakes (kept.trans resolved)
  · by_cases same : found = literal
    · subst same
      refine ⟨ty, takes, later.concrete target ty ?_⟩
      rw [relabelled, resolved]
      rcases takes with ⟨rfl, _⟩ | ⟨rfl, _⟩ <;> rfl
    · refine keeps found foundTy target foundTakes ?_
      rw [relabelled, resolved]
      rcases foundTakes with ⟨rfl, _⟩ | ⟨rfl, _⟩ <;> exact if_neg same

theorem Unified.literalsKept (unified : Unified assignment lhs rhs after) (later : Later after final)
    (keeps : LiteralsKept after final) : LiteralsKept assignment final := by
  induction unified with
  | bind => exact literalsKept_of_bind keeps
  | literal literal ty after takes overwrites =>
    exact literalsKept_of_overwrite takes overwrites later keeps
  | array first second length after elements elementsKeep => exact elementsKeep later keeps
  | symm first second after unified unifiedKeeps => exact unifiedKeeps later keeps
  | _ => exact keeps

theorem Solved.literalsKept {constraint : Constraint} (solved : Solved assignment constraint after)
    (later : Later after final) (keeps : LiteralsKept after final) :
    LiteralsKept assignment final := by
  cases solved with
  | equal lhs rhs span _ unified => exact unified.literalsKept later keeps
  | unsignedFree => exact literalsKept_of_bind keeps
  | unsignedLiteral var span _ resolved overwrites =>
    exact literalsKept_of_overwrite (.inl ⟨rfl, rfl⟩) overwrites later keeps
  | _ => exact keeps

theorem Solves.literalsKept {constraints : List Constraint} {solved : Substitution} {solvedAssignment : Assignment}
    (solves : Solves substitution assignment constraints solved solvedAssignment)
    (later : Later solvedAssignment final) (keeps : LiteralsKept solvedAssignment final) :
    LiteralsKept assignment final := by
  induction solves with
  | nil => exact keeps
  | cons constraint constraints represents settles solved rest restKeeps =>
    exact solved.literalsKept (rest.later later) (restKeeps later keeps)

theorem Defaults.literalsKept {solved : Assignment} {intVars floatVars : List TypeVarId}
    (defaults : Defaults solved final intVars floatVars) : LiteralsKept solved final := by
  intro literal _ target takes resolved
  have same : target.subst final = literal := by
    cases target with
    | var id =>
      have isLiteral : solved id = literal := resolved
      rcases defaults.leaf id with kept | ⟨_, _, filled⟩
      · exact kept.trans isLiteral
      · refine filled.trans ?_
        rw [isLiteral]
        rcases takes with ⟨rfl, _⟩ | ⟨rfl, _⟩ <;> rfl
    | array element length => rcases takes with ⟨rfl, _⟩ | ⟨rfl, _⟩ <;> cases resolved
    | _ => exact resolved
  rw [finalType, same]
  rcases takes with ⟨rfl, _⟩ | ⟨rfl, _⟩
  · exact ⟨.i32, .inl ⟨rfl, rfl⟩, rfl⟩
  · exact ⟨.f64, .inr ⟨rfl, rfl⟩, rfl⟩

end Later

inductive Class
  | isSigned | isInteger | isUnsigned | isNumeric

namespace Class

def constraint : Class → InferType → Span → Constraint
  | .isSigned => .isSigned
  | .isInteger => .isInteger
  | .isUnsigned => .isUnsigned
  | .isNumeric => .isNumeric

def rule : Class → InferType → UnifyResult
  | .isSigned => Unifier.signedRule
  | .isInteger => Unifier.integerRule
  | .isUnsigned => Unifier.unsignedRule
  | .isNumeric => Unifier.numericRule

def admits : Class → Ty → Bool
  | .isSigned, ty => !ty.isUnsigned
  | .isInteger, ty => ty.isInteger || ty.isError || ty.isNever
  | .isUnsigned, ty => ty.isUnsigned || ty.isError || ty.isNever
  | .isNumeric, ty => ty.isNumeric || ty.isError || ty.isNever

/-- The types a check lets pass without an answer. -/
def defers : Class → InferType → Bool
  | .isSigned, .concrete _ | .isUnsigned, _ => false
  | .isSigned, _ | .isInteger, .var _ | .isNumeric, .var _ => true
  | _, _ => false

theorem admits_of_rule {cls : Class} {ty : Ty} (passes : cls.rule (.concrete ty) = .ok) : cls.admits ty = true := by
  cases cls <;> cases ty <;> first | rfl | cases passes

theorem admits_of_literal {cls : Class} {literal : InferType} {ty : Ty}
    (takes : LiteralTakes literal ty) (passes : cls.rule literal = .ok)
    (answered : cls.defers literal = false) (bound : cls ≠ .isUnsigned) :
    cls.admits ty = true := by
  rcases takes with ⟨rfl, _⟩ | ⟨rfl, _⟩
  · cases cls <;> simp_all [admits, defers, Ty.isNumeric]
  · cases cls <;> simp_all [admits, defers, Ty.isNumeric, rule, Unifier.integerRule]

end Class

namespace Represents

theorem bindUnsigned_var (represents : Represents substitution assignment rank) (var : TypeVarId) : ∃ after afterRank,
      Represents (Unifier.bindUnsigned substitution (.var var) (assignment var)) after afterRank ∧
      (Unifier.unsignedRule (after var) = .ok → ∃ ty, after var = .concrete ty) := by
  cases shape : assignment var with
  | var root =>
    have absent : (InferType.concrete .u64).leafVar ≠ some root := by simp [InferType.leafVar]
    have fixed : assignment root = .var root := represents.root_fixed (by rw [shape]; rfl)
    obtain ⟨newRank, newRepresents⟩ := represents.bind fixed rfl absent
    refine ⟨_, newRank, newRepresents, fun _ => ⟨.u64, ?_⟩⟩
    rw [Assignment.bind, shape]
    exact Assignment.single_self root _
  | intLiteral =>
    obtain ⟨after, afterRepresents, _, written, _⟩ :=
      represents.overwrite var .u64 (by rw [shape]; simp)
    exact ⟨after, rank, afterRepresents, fun _ => ⟨.u64, written⟩⟩
  | concrete ty => exact ⟨assignment, rank, represents, fun _ => ⟨ty, shape⟩⟩
  | _ =>
    refine ⟨assignment, rank, represents, fun passes => ?_⟩
    rw [shape] at passes
    cases passes

end Represents

theorem ok_of_errorsOf {result : UnifyResult} {span : Span}
    (quiet : [] = Unifier.errorsOf result span) : result = .ok := by
  rw [Unifier.errorsOf] at quiet
  split at quiet
  · assumption
  · cases quiet

namespace Turn

variable {start middle after : Substitution} {before : List Constraint} {cls : Class}
  {finalAssignment middleAssignment afterAssignment final : Assignment} {var : TypeVarId}
  {span : Span}

theorem checked (bound : cls ≠ .isUnsigned)
    (turn : Turn start before (cls.constraint (.var var) span) finalAssignment middle after
      middleAssignment afterAssignment) :
    cls.rule (middleAssignment var) = .ok ∧ afterAssignment = middleAssignment := by
  obtain ⟨_, represents⟩ := turn.represents
  obtain ⟨_, afterRepresents⟩ := turn.afterRepresents
  obtain ⟨other, settles, otherRepresents⟩ := represents.apply_settles (.var var)
  have run : Settles (fun fuel => Unifier.solveConstraint fuel middle (cls.constraint (.var var) span))
      (Unifier.errorsOf (cls.rule (middleAssignment var)) span, other) := by
    cases cls with
    | isUnsigned => exact absurd rfl bound
    | _ => exact settles_bind (settles_bind settles (settles_some _)) (settles_some _)
  obtain ⟨quiet, rfl⟩ := Prod.mk.inj (settles_unique turn.taken run)
  exact ⟨ok_of_errorsOf quiet, afterRepresents.unique otherRepresents⟩

theorem bound (turn : Turn start before (.isUnsigned (.var var) span) finalAssignment middle after
      middleAssignment afterAssignment) :
    ∃ ty, Class.admits .isUnsigned ty = true ∧ afterAssignment var = .concrete ty := by
  obtain ⟨_, represents⟩ := turn.represents
  obtain ⟨_, afterRepresents⟩ := turn.afterRepresents
  obtain ⟨_, settles, appliedRepresents⟩ := represents.apply_settles (.var var)
  obtain ⟨boundAssignment, _, boundRepresents, isConcrete⟩ :=
    appliedRepresents.bindUnsigned_var var
  obtain ⟨other, settlesBound, otherRepresents⟩ := boundRepresents.apply_settles (.var var)
  have run : Settles (fun fuel => Unifier.solveConstraint fuel middle (.isUnsigned (.var var) span))
      (Unifier.errorsOf (Unifier.unsignedRule (boundAssignment var)) span, other) :=
    settles_bind settles (settles_bind (settles_bind settlesBound (settles_some _)) (settles_some _))
  obtain ⟨quiet, rfl⟩ := Prod.mk.inj (settles_unique turn.taken run)
  have passes := ok_of_errorsOf quiet
  obtain ⟨ty, isTy⟩ := isConcrete passes
  rw [isTy] at passes
  rw [afterRepresents.unique otherRepresents]
  exact ⟨ty, @Class.admits_of_rule .isUnsigned ty passes, isTy⟩

theorem enforced (turn : Turn start before (cls.constraint (.var var) span) finalAssignment middle after
      middleAssignment afterAssignment)
    (later : Later afterAssignment final) (keeps : LiteralsKept afterAssignment final)
    (answered : cls.defers (middleAssignment var) = false) :
    ∃ ty, cls.admits ty = true ∧ finalType final (.var var) = .concrete ty := by
  by_cases unsigned : cls = .isUnsigned
  · subst unsigned
    obtain ⟨ty, admitted, isTy⟩ := turn.bound
    exact ⟨ty, admitted, later.concrete _ ty isTy⟩
  · obtain ⟨passes, same⟩ := turn.checked unsigned
    subst same
    have literal : ∀ found, (∃ ty, LiteralTakes found ty) → afterAssignment var = found →
        ∃ ty, cls.admits ty = true ∧ finalType final (.var var) = .concrete ty := by
      rintro found ⟨ty, takes⟩ isFound
      obtain ⟨kept, keptTakes, isKept⟩ := keeps found ty (.var var) takes isFound
      rw [isFound] at passes answered
      exact ⟨kept, Class.admits_of_literal keptTakes passes answered unsigned, isKept⟩
    cases shape : afterAssignment var with
    | concrete ty =>
      rw [shape] at passes
      exact ⟨ty, Class.admits_of_rule passes, later.concrete _ ty shape⟩
    | intLiteral => exact literal _ ⟨.i32, .inl ⟨rfl, rfl⟩⟩ shape
    | floatLiteral => exact literal _ ⟨.f64, .inr ⟨rfl, rfl⟩⟩ shape
    | var root =>
      rw [shape] at answered
      cases cls <;> first | exact absurd rfl unsigned | cases answered
    | array element length =>
      rw [shape] at answered passes
      cases cls <;> first | exact absurd rfl unsigned | (cases passes; done) | cases answered

end Turn

/-- Where inference reports no error, the variable of a class constraint ends as a type the class
admits, unless the check let it pass unanswered. -/
theorem class_enforced (capacity : Nat) (before later : List Constraint) (cls : Class)
    (var : TypeVarId) (span : Span) (intVars floatVars : List TypeVarId) :
    ∃ errors solved final, Settles (fun fuel => Unifier.solveConstraints fuel (.withCapacity capacity)
        (before ++ cls.constraint (.var var) span :: later)) (errors, solved) ∧
      Settles (fun fuel => Unifier.defaultLiterals fuel solved intVars floatVars) final ∧
      (errors = [] → ∃ middle resolved,
        Settles (fun fuel => Unifier.solveConstraints fuel (.withCapacity capacity) before) ([], middle) ∧
        Resolves middle (.var var) resolved ∧
        (cls.defers resolved = false →
          ∃ ty, cls.admits ty = true ∧ ResolvesFinally final (.var var) (.concrete ty))) := by
  obtain ⟨errors, solved, _, _, settles, solvedRepresents, solves⟩ :=
    (Represents.withCapacity capacity).solveConstraints_settles (before ++ cls.constraint (.var var) span :: later)
  obtain ⟨final, _, settlesDefaults, finalRepresents, defaults⟩ :=
    solvedRepresents.defaultLiterals_settles intVars floatVars
  refine ⟨errors, solved, final, settles, settlesDefaults, fun noErrors => ?_⟩
  obtain ⟨middle, _, middleAssignment, _, turn⟩ :=
    (solves noErrors).turn solvedRepresents rfl
  obtain ⟨_, represents⟩ := turn.represents
  obtain ⟨_, _, rest⟩ := turn.rest
  have laterSolved := defaults.later solvedRepresents
  refine ⟨middle, middleAssignment var, turn.reached,
    (represents.resolves_assigned (.var var) _).mpr rfl, fun answered => ?_⟩
  obtain ⟨ty, admitted, isFinal⟩ := turn.enforced (rest.later laterSolved)
    (rest.literalsKept laterSolved defaults.literalsKept) answered
  exact ⟨ty, admitted, (finalRepresents.resolvesFinally_iff _ _).mpr isFinal.symm⟩

/-- A variable checked for a signed type while it is unbound, and bound to `u8` afterwards. -/
def signedThenUnsigned : List Constraint :=
  [.isSigned (.var 0) ⟨0, 0, 0⟩, .equal (.var 0) (.concrete .u8) ⟨0, 0, 0⟩]

theorem signed_resolves_unsigned : ∃ solved,
    Settles (fun fuel => Unifier.solveConstraints fuel (.withCapacity 1) signedThenUnsigned) ([], solved) ∧
    Settles (fun fuel => Unifier.defaultLiterals fuel solved [] []) solved ∧
    ResolvesFinally solved (.var 0) (.concrete .u8) ∧
    ¬ (Ty.u8.isSigned || Ty.u8.isNever || Ty.u8.isError) := by
  refine ⟨⟨[some (.concrete .u8)]⟩, ?_, settles_some _, ⟨⟨[some (.concrete .u8)]⟩, ?_⟩, by decide⟩
  · exact settles_of_add 10 fun _ => rfl
  · exact settles_of_add 10 fun _ => rfl

end Gruel
