import Gruel.InferenceCore
import Gruel.Lib.Fuel

/-!
The unifier over assignments: a substitution whose chains end represents an
idempotent assignment of types to type variables, and every operation of the
unifier is a step on that assignment.
-/

namespace Gruel

open Fuel

abbrev Assignment := TypeVarId → InferType

namespace InferType

variable {first second : Assignment} {ty : InferType}

def subst (assignment : Assignment) : InferType → InferType
  | .concrete ty => .concrete ty
  | .var id => assignment id
  | .intLiteral => .intLiteral
  | .floatLiteral => .floatLiteral
  | .array element length => .array (element.subst assignment) length

def leafVar : InferType → Option TypeVarId
  | .var id => some id
  | .array element _ => element.leafVar
  | _ => none

def relabel (leaf : InferType) (ty : Ty) : InferType → InferType
  | .array element length => .array (relabel leaf ty element) length
  | other => if other = leaf then .concrete ty else other

def depth : InferType → Nat
  | .array element _ => element.depth + 1
  | _ => 0

attribute [grind =] subst

theorem subst_congr (agree : ∀ id, ty.leafVar = some id → first id = second id) :
    ty.subst first = ty.subst second := by
  induction ty with
  | var id => exact agree id rfl
  | array element length elementAgree =>
    simp [subst, elementAgree agree]
  | _ => rfl

theorem subst_var (ty : InferType) : ty.subst .var = ty := by
  induction ty with
  | array element length elementSame => simp [subst, elementSame]
  | _ => rfl

theorem subst_eq_self {assignment : Assignment}
    (fixes : ∀ id, ty.leafVar = some id → assignment id = .var id) : ty.subst assignment = ty := by
  rw [subst_congr fixes, subst_var]

theorem subst_subst (first second : Assignment) (ty : InferType) :
    (ty.subst first).subst second = ty.subst fun id => (first id).subst second := by
  induction ty with
  | array element length elementSame => simp [subst, elementSame]
  | _ => rfl

theorem leafVar_subst (assignment : Assignment) (ty : InferType) :
    (ty.subst assignment).leafVar = ty.leafVar.bind fun id => (assignment id).leafVar := by
  induction ty with
  | array element length elementSame => simpa [subst, leafVar] using elementSame
  | _ => rfl

theorem relabel_subst {leaf : InferType} {ty : Ty} {target : InferType} {id : TypeVarId}
    (leafId : target.leafVar = some id) (relabelled : second id = relabel leaf ty (first id)) :
    target.subst second = relabel leaf ty (target.subst first) := by
  induction target with
  | var other =>
    have same : other = id := Option.some.inj leafId
    subst same
    exact relabelled
  | array element length elementSame =>
    simp [subst, relabel, elementSame leafId]
  | concrete _ => cases leafId
  | intLiteral => cases leafId
  | floatLiteral => cases leafId

end InferType

namespace Substitution

theorem get_eq (substitution : Substitution) (var : TypeVarId) :
    substitution.get var = (substitution.mapping[var]?).join := by
  unfold get
  split
  · next bound => rw [List.getElem?_eq_getElem bound]; rfl
  · next beyond => rw [List.getElem?_eq_none (Nat.le_of_not_lt beyond)]; rfl

theorem get_withCapacity (capacity : Nat) (var : TypeVarId) : (withCapacity capacity).get var = none := by
  rw [get_eq, withCapacity, List.getElem?_replicate]
  split <;> rfl

theorem getElem?_resize (mapping : List (Option InferType)) (var other : Nat) (short : mapping.length ≤ var) :
    ((resize mapping (var + 1))[other]?).join = (mapping[other]?).join := by
  have whole : mapping.take (var + 1) = mapping := List.take_of_length_le (by omega)
  rw [resize, whole, List.getElem?_append]
  split
  · rfl
  · next beyond =>
      rw [List.getElem?_eq_none (l := mapping) (by omega), List.getElem?_replicate]
      split <;> rfl

theorem length_resize (mapping : List (Option InferType)) (var : Nat)
    (short : mapping.length ≤ var) : (resize mapping (var + 1)).length = var + 1 := by
  rw [resize, List.length_append, List.length_take, List.length_replicate]
  omega

theorem get_insert (substitution : Substitution) (var other : TypeVarId) (ty : InferType) :
    (substitution.insert var ty).get other = if other = var then some ty else substitution.get other := by
  rw [get_eq, get_eq, insert]
  by_cases short : substitution.mapping.length ≤ var
  · simp only [if_pos short]
    rw [List.getElem?_set, length_resize _ _ short]
    by_cases same : other = var
    · subst same
      simp
    · rw [if_neg (Ne.symm same), if_neg same, getElem?_resize _ _ _ short]
  · simp only [if_neg short]
    rw [List.getElem?_set]
    by_cases same : other = var
    · subst same
      have inside : other < substitution.mapping.length := Nat.lt_of_not_le short
      simp [inside]
    · rw [if_neg (Ne.symm same), if_neg same]

theorem get_set {substitution : Substitution} {var : TypeVarId}
    (bound : substitution.get var ≠ none) (other : TypeVarId) (ty : InferType) :
    get ⟨substitution.mapping.set var (some ty)⟩ other = if other = var then some ty else substitution.get other := by
  have inside : var < substitution.mapping.length := by
    by_cases inside : var < substitution.mapping.length
    · exact inside
    · refine absurd ?_ bound
      simp [get, inside]
  rw [get_eq, get_eq, List.getElem?_set]
  by_cases same : other = var
  · subst same
    simp [inside]
  · rw [if_neg (Ne.symm same), if_neg same]

end Substitution

structure Represents (substitution : Substitution) (assignment : Assignment)
    (rank : TypeVarId → Nat) : Prop where
  unbound : ∀ var, substitution.get var = none → assignment var = .var var
  bound : ∀ var ty, substitution.get var = some ty → assignment var = ty.subst assignment
  descends : ∀ var ty below, substitution.get var = some ty → ty.leafVar = some below → rank below < rank var

namespace Represents

variable {substitution : Substitution} {assignment : Assignment} {rank : TypeVarId → Nat}

section

variable (represents : Represents substitution assignment rank)
include represents

theorem root {var root : TypeVarId} (leaf : (assignment var).leafVar = some root) :
    substitution.get root = none ∧ (substitution.get var ≠ none → rank root < rank var) := by
  induction bounded : rank var using Nat.strongRecOn generalizing var with
  | ind bound ih =>
    cases found : substitution.get var with
    | none =>
      rw [represents.unbound var found] at leaf
      have same : var = root := Option.some.inj leaf
      subst same
      exact ⟨found, fun isBound => absurd rfl isBound⟩
    | some ty =>
      rw [represents.bound var ty found, InferType.leafVar_subst] at leaf
      cases below : ty.leafVar with
      | none => rw [below] at leaf; cases leaf
      | some next =>
        rw [below] at leaf
        have nextLeaf : (assignment next).leafVar = some root := leaf
        have smaller := represents.descends var ty next found below
        have nextRoot := ih (rank next) (by omega) nextLeaf rfl
        refine ⟨nextRoot.1, fun _ => ?_⟩
        cases nextFound : substitution.get next with
        | none =>
          rw [represents.unbound next nextFound] at nextLeaf
          have same : next = root := Option.some.inj nextLeaf
          subst same
          omega
        | some _ =>
          have nextBelow := nextRoot.2 (by rw [nextFound]; exact Option.some_ne_none _)
          omega

theorem root_fixed {var root : TypeVarId} (leaf : (assignment var).leafVar = some root) :
    assignment root = .var root :=
  represents.unbound root (represents.root leaf).1

theorem leaf_fixed {ty : InferType} {root : TypeVarId}
    (leaf : (ty.subst assignment).leafVar = some root) : assignment root = .var root := by
  rw [InferType.leafVar_subst] at leaf
  cases below : ty.leafVar with
  | none => rw [below] at leaf; cases leaf
  | some id =>
    rw [below] at leaf
    exact represents.root_fixed leaf

theorem idempotent (ty : InferType) : (ty.subst assignment).subst assignment = ty.subst assignment :=
  InferType.subst_eq_self fun _ leaf => represents.leaf_fixed leaf

theorem get_none_iff (var : TypeVarId) : substitution.get var = none ↔ assignment var = .var var := by
  constructor
  · exact represents.unbound var
  · intro fixed
    have leaf : (assignment var).leafVar = some var := by rw [fixed]; rfl
    exact (represents.root leaf).1

end

theorem withCapacity (capacity : Nat) : Represents (Substitution.withCapacity capacity) .var fun _ => 0 where
  unbound _ _ := rfl
  bound var ty found := by rw [Substitution.get_withCapacity] at found; cases found
  descends var ty below found := by rw [Substitution.get_withCapacity] at found; cases found

theorem compress (represents : Represents substitution assignment rank) {var : TypeVarId}
    (isBound : substitution.get var ≠ none) :
    Represents ⟨substitution.mapping.set var (some (assignment var))⟩ assignment rank where
  unbound other found := by
    rw [Substitution.get_set isBound] at found
    split at found
    · cases found
    · exact represents.unbound other found
  bound other ty found := by
    rw [Substitution.get_set isBound] at found
    split at found
    · next same =>
        cases found
        rw [same]
        exact (represents.idempotent (.var var)).symm
    · exact represents.bound other ty found
  descends other ty below found leaf := by
    rw [Substitution.get_set isBound] at found
    split at found
    · next same =>
        cases found
        rw [same]
        exact (represents.root leaf).2 isBound
    · exact represents.descends other ty below found leaf

end Represents

namespace Assignment

def single (var : TypeVarId) (ty : InferType) : Assignment := fun id =>
  if id = var then ty else .var id

def bind (assignment : Assignment) (var : TypeVarId) (ty : InferType) : Assignment := fun id =>
  (assignment id).subst (single var ty)

theorem single_self (var : TypeVarId) (ty : InferType) : single var ty var = ty := if_pos rfl

theorem single_other {var id : TypeVarId} (ty : InferType) (other : id ≠ var) :
    single var ty id = .var id := if_neg other

theorem subst_single_of_absent {var : TypeVarId} {ty target : InferType}
    (absent : target.leafVar ≠ some var) : target.subst (single var ty) = target := by
  refine InferType.subst_eq_self fun id leaf => single_other ty fun same => ?_
  rw [same] at leaf
  exact absent leaf

theorem subst_bind (assignment : Assignment) (var : TypeVarId) (ty target : InferType) :
    target.subst (assignment.bind var ty) = (target.subst assignment).subst (single var ty) :=
  (InferType.subst_subst assignment (single var ty) target).symm

theorem bind_self {assignment : Assignment} {var : TypeVarId} (free : assignment var = .var var)
    (ty : InferType) : assignment.bind var ty var = ty := by
  rw [bind, free]
  exact single_self var ty

end Assignment

namespace Represents

variable {substitution : Substitution} {assignment : Assignment} {rank : TypeVarId → Nat}

theorem bind (represents : Represents substitution assignment rank) {var : TypeVarId}
    {ty : InferType} (free : assignment var = .var var) (settled : ty.subst assignment = ty)
    (absent : ty.leafVar ≠ some var) :
    ∃ newRank, Represents (substitution.insert var ty) (assignment.bind var ty) newRank := by
  have fixedLeaf : ∀ id, ty.leafVar = some id → assignment id = .var id := by
    intro id leaf
    rw [← settled] at leaf
    exact represents.leaf_fixed leaf
  refine ⟨fun id => rank id +
    if (assignment id).leafVar = some var then (ty.leafVar.elim 0 rank) + 1 else 0, ?_, ?_, ?_⟩
  · intro id found
    rw [Substitution.get_insert] at found
    by_cases same : id = var
    · rw [if_pos same] at found
      cases found
    · rw [if_neg same] at found
      rw [Assignment.bind, represents.unbound id found]
      exact Assignment.single_other ty same
  · intro id target found
    rw [Substitution.get_insert] at found
    rw [Assignment.subst_bind]
    by_cases same : id = var
    · rw [if_pos same] at found
      have target_eq : ty = target := Option.some.inj found
      rw [← target_eq, settled, Assignment.subst_single_of_absent absent, same, Assignment.bind, free]
      exact Assignment.single_self var ty
    · rw [if_neg same] at found
      rw [Assignment.bind, represents.bound id target found]
  · intro id target below found leaf
    rw [Substitution.get_insert] at found
    by_cases same : id = var
    · rw [if_pos same] at found
      have target_eq : ty = target := Option.some.inj found
      subst target_eq
      have belowFixed := fixedLeaf below leaf
      have belowOther : below ≠ var := fun isVar => absent (isVar ▸ leaf)
      have belowLeaf : (assignment below).leafVar ≠ some var := by
        rw [belowFixed]
        exact fun isVar => belowOther (Option.some.inj isVar)
      have varLeaf : (assignment id).leafVar = some var := by
        rw [same, free]
        rfl
      simp only [if_neg belowLeaf, if_pos varLeaf, leaf, Option.elim_some]
      omega
    · rw [if_neg same] at found
      have sameLeaf : (assignment id).leafVar = (assignment below).leafVar := by
        rw [represents.bound id target found, InferType.leafVar_subst, leaf]
        rfl
      have smaller := represents.descends id target below found leaf
      simp only [sameLeaf]
      omega

end Represents

def assignmentOf (substitution : Substitution) (rank : TypeVarId → Nat)
    (descends : ∀ var ty below, substitution.get var = some ty → ty.leafVar = some below →
      rank below < rank var) (var : TypeVarId) : InferType :=
  match found : substitution.get var with
  | none => .var var
  | some ty =>
    match leaf : ty.leafVar with
    | none => ty
    | some below => ty.subst fun _ => assignmentOf substitution rank descends below
termination_by rank var
decreasing_by exact descends var ty below found leaf

theorem represents_assignmentOf (substitution : Substitution) (rank : TypeVarId → Nat)
    (descends : ∀ var ty below, substitution.get var = some ty → ty.leafVar = some below → rank below < rank var) :
    Represents substitution (assignmentOf substitution rank descends) rank where
  unbound var found := by
    rw [assignmentOf]
    split
    · rfl
    · next ty foundSome => rw [found] at foundSome; cases foundSome
  bound var ty found := by
    rw [assignmentOf]
    split
    · next foundNone => rw [found] at foundNone; cases foundNone
    · next other foundSome =>
        have same : ty = other := Option.some.inj (found.symm.trans foundSome)
        subst same
        split
        · next leaf =>
            symm
            refine InferType.subst_eq_self fun id isLeaf => ?_
            rw [leaf] at isLeaf
            cases isLeaf
        · next below leaf =>
            refine InferType.subst_congr fun id isLeaf => ?_
            rw [leaf] at isLeaf
            rw [Option.some.inj isLeaf]
  descends := descends

structure Overwrites (before after : Assignment) (leaf : InferType) (ty : Ty) : Prop where
  each : ∀ id, after id = before id ∨ after id = InferType.relabel leaf ty (before id)

theorem Overwrites.refl (assignment : Assignment) (leaf : InferType) (ty : Ty) :
    Overwrites assignment assignment leaf ty :=
  ⟨fun _ => .inl rfl⟩

theorem Overwrites.subst {before after : Assignment} {leaf : InferType} {ty : Ty}
    (overwrites : Overwrites before after leaf ty) (target : InferType) :
    target.subst after = target.subst before ∨
      target.subst after = InferType.relabel leaf ty (target.subst before) := by
  cases leafId : target.leafVar with
  | none =>
    refine .inl (InferType.subst_congr fun id isLeaf => ?_)
    rw [leafId] at isLeaf
    cases isLeaf
  | some id =>
    rcases overwrites.each id with same | relabelled
    · refine .inl (InferType.subst_congr fun other isLeaf => ?_)
      rw [leafId] at isLeaf
      rw [← Option.some.inj isLeaf, same]
    · exact .inr (InferType.relabel_subst leafId relabelled)

theorem Represents.overwrite {substitution : Substitution} {assignment : Assignment}
    {rank : TypeVarId → Nat} (represents : Represents substitution assignment rank)
    (var : TypeVarId) (ty : Ty) (isLeaf : ∀ element length, assignment var ≠ .array element length) :
    ∃ after, Represents (substitution.insert var (.concrete ty)) after rank ∧
      Overwrites assignment after (assignment var) ty ∧ after var = .concrete ty ∧
      ∀ id, id ≠ var → assignment id = .var id → after id = .var id := by
  have descends : ∀ id target below, (substitution.insert var (.concrete ty)).get id = some target →
      target.leafVar = some below → rank below < rank id := by
    intro id target below found leaf
    rw [Substitution.get_insert] at found
    by_cases same : id = var
    · rw [if_pos same] at found
      rw [← Option.some.inj found] at leaf
      cases leaf
    · rw [if_neg same] at found
      exact represents.descends id target below found leaf
  have afterRepresents := represents_assignmentOf _ rank descends
  have atVar : assignmentOf _ rank descends var = .concrete ty := by
    have found : (substitution.insert var (.concrete ty)).get var = some (.concrete ty) := by
      rw [Substitution.get_insert, if_pos rfl]
    exact afterRepresents.bound var _ found
  have relabelSelf : InferType.relabel (assignment var) ty (assignment var) = .concrete ty := by
    cases shape : assignment var with
    | array element length => exact absurd shape (isLeaf element length)
    | _ => exact if_pos rfl
  refine ⟨assignmentOf _ rank descends, afterRepresents, ⟨fun id => ?_⟩, atVar, ?_⟩
  · induction bounded : rank id using Nat.strongRecOn generalizing id with
    | ind bound ih =>
      by_cases same : id = var
      · rw [same]
        exact .inr (atVar.trans relabelSelf.symm)
      · have getSame : (substitution.insert var (.concrete ty)).get id = substitution.get id := by
          rw [Substitution.get_insert, if_neg same]
        cases found : substitution.get id with
        | none =>
          rw [found] at getSame
          rw [afterRepresents.unbound id getSame, represents.unbound id found]
          exact .inl rfl
        | some target =>
          rw [found] at getSame
          rw [afterRepresents.bound id target getSame, represents.bound id target found]
          cases leafId : target.leafVar with
          | none =>
            refine .inl (InferType.subst_congr fun other otherLeaf => ?_)
            rw [leafId] at otherLeaf
            cases otherLeaf
          | some below =>
            have smaller := represents.descends id target below found leafId
            rcases ih (rank below) (by omega) below rfl with kept | relabelled
            · refine .inl (InferType.subst_congr fun other otherLeaf => ?_)
              rw [leafId] at otherLeaf
              rw [← Option.some.inj otherLeaf, kept]
            · exact .inr (InferType.relabel_subst leafId relabelled)
  · intro id other fixed
    refine afterRepresents.unbound id ?_
    rw [Substitution.get_insert, if_neg other]
    exact (represents.get_none_iff id).mpr fixed

def Compresses (assignment : Assignment) (before after : Substitution) : Prop :=
  ∀ var, after.get var = before.get var ∨ before.get var ≠ none ∧ after.get var = some (assignment var)

theorem Compresses.refl (assignment : Assignment) (substitution : Substitution) :
    Compresses assignment substitution substitution := fun _ => .inl rfl

theorem Compresses.trans {assignment : Assignment} {before middle after : Substitution}
    (first : Compresses assignment before middle) (second : Compresses assignment middle after) :
    Compresses assignment before after := by
  intro var
  rcases second var with kept | ⟨wasBound, compressed⟩
  · rw [kept]
    exact first var
  · refine .inr ⟨fun unbound => ?_, compressed⟩
    rcases first var with kept | ⟨isBound, _⟩
    · rw [kept] at wasBound
      exact wasBound unbound
    · exact isBound unbound

namespace Represents

variable {substitution : Substitution} {assignment : Assignment} {rank : TypeVarId → Nat}

section

variable (represents : Represents substitution assignment rank)
include represents

theorem leafRank_lt {id : TypeVarId} {resolved : InferType} (found : substitution.get id = some resolved) :
    resolved.leafVar.elim 0 (rank · + 1) < rank id + 1 := by
  cases leaf : resolved.leafVar with
  | none => exact Nat.succ_pos _
  | some below =>
    have smaller := represents.descends id resolved below found leaf
    exact Nat.succ_lt_succ smaller

theorem apply_compresses (ty : InferType) :
    ∃ after, Settles (fun fuel => substitution.apply fuel ty) (ty.subst assignment, after) ∧
      Represents after assignment rank ∧ Compresses assignment substitution after ∧
      ∀ var, ty = .var var → substitution.get var ≠ none → after.get var = some (assignment var) := by
  induction bounded : ty.leafVar.elim 0 (rank · + 1) using Nat.strongRecOn generalizing ty with
  | ind bound ih =>
    induction ty with
    | array element length elementSettles =>
      obtain ⟨after, settles, afterRepresents, compresses, _⟩ := elementSettles bounded
      exact ⟨after, settles_of_succ (settles_bind settles (settles_some _)), afterRepresents,
        compresses, fun _ isVar => by cases isVar⟩
    | var id =>
      cases found : substitution.get id with
      | none =>
        refine ⟨substitution, settles_of_succ (settles_of_succ ?_), represents, .refl _ _, ?_⟩
        · simp only [Substitution.apply, Substitution.applyVar, found, InferType.subst, represents.unbound id found]
          exact settles_some _
        · intro var isVar isBound
          rw [← InferType.var.inj isVar, found] at isBound
          exact absurd rfl isBound
      | some resolved =>
        obtain ⟨after, settles, afterRepresents, compresses, _⟩ :=
          ih _ (bounded ▸ represents.leafRank_lt found) resolved rfl
        have same : assignment id = resolved.subst assignment :=
          represents.bound id resolved found
        have wasBound : substitution.get id ≠ none := by
          rw [found]
          exact Option.some_ne_none _
        have stillBound : after.get id ≠ none := by
          intro unbound
          have fixed := (afterRepresents.get_none_iff id).mp unbound
          exact wasBound ((represents.get_none_iff id).mpr fixed)
        by_cases unchanged : resolved.subst assignment ≠ resolved
        · refine ⟨_, settles_of_succ (settles_of_succ ?_),
            afterRepresents.compress stillBound, compresses.trans fun var => ?_, ?_⟩
          · simp only [Substitution.apply, Substitution.applyVar, found, InferType.subst]
            refine settles_bind settles ?_
            simp only [if_pos unchanged, same]
            exact settles_some _
          · rw [Substitution.get_set stillBound]
            by_cases atId : var = id
            · rw [atId, if_pos rfl]
              exact .inr ⟨stillBound, rfl⟩
            · rw [if_neg atId]
              exact .inl rfl
          · intro var isVar _
            rw [← InferType.var.inj isVar, Substitution.get_set stillBound, if_pos rfl]
        · refine ⟨after, settles_of_succ (settles_of_succ ?_), afterRepresents, compresses, ?_⟩
          · simp only [Substitution.apply, Substitution.applyVar, found, InferType.subst]
            refine settles_bind settles ?_
            simp only [if_neg unchanged, same]
            exact settles_some _
          · intro var isVar _
            rw [← InferType.var.inj isVar]
            rcases compresses id with kept | ⟨_, compressed⟩
            · rw [kept, found, same, not_not.mp unchanged]
            · exact compressed
    | _ =>
      exact ⟨substitution, settles_of_succ (settles_some _), represents, .refl _ _, fun _ isVar => by cases isVar⟩

theorem apply_settles (ty : InferType) :
    ∃ after, Settles (fun fuel => substitution.apply fuel ty) (ty.subst assignment, after) ∧
      Represents after assignment rank := by
  obtain ⟨after, settles, afterRepresents, _⟩ := represents.apply_compresses ty
  exact ⟨after, settles, afterRepresents⟩

theorem occursIn_settles (var : TypeVarId) {ty : InferType} (settled : ty.subst assignment = ty) :
    Settles (fun fuel => substitution.occursIn fuel var ty) (decide (ty.leafVar = some var)) := by
  induction ty with
  | concrete other | intLiteral | floatLiteral => exact settles_of_succ (settles_some _)
  | array element length elementSettles =>
    have elementSettled : element.subst assignment = element := (InferType.array.inj settled).1
    exact settles_of_succ (elementSettles elementSettled)
  | var id =>
    refine settles_of_succ ?_
    have unbound : substitution.get id = none := (represents.get_none_iff id).mpr settled
    by_cases same : id = var
    · simp only [Substitution.occursIn, same, InferType.leafVar, if_true, decide_true]
      exact settles_some _
    · simp only [Substitution.occursIn, unbound, InferType.leafVar, Option.some.injEq, same, decide_false]
      exact settles_some _

end

end Represents

end Gruel
