import Gruel.MatchLowering

/-!
The arms of a `match` that the analysis does not reject: they are well typed at
every depth and lowered without a panic exactly when those parts of their patterns
are in order that the check of an arm does not look at.
-/

namespace Gruel.MatchPatterns

open Parts Surviving

section Arms

variable (env : Env)

/-- A `..` at the end of the arm's own variant pattern stands for some field. -/
def LeavesFieldToRest (scrutinee : Ty) : RirPattern → Prop
  | .dataVariant _ _ variant bindings => EndsInRest bindings →
      ∀ definition, namedVariant env scrutinee variant = some definition →
        bindings.length - 1 < definition.fields.length
  | _ => True

/-- What the check of an arm does not look at: whether a tuple or struct pattern fits, what is below
the arm's own pattern, and what the lowering and the bindings cannot handle. -/
structure Unchecked (scrutinee : Ty) (pattern : RirPattern) : Prop where
  aggregate : AggregateFits env (armNode env scrutinee pattern)
  below : ∀ part ∈ parts env (armNode env scrutinee pattern), Everywhere (parts env) (Checked env) part
  resolvable : ∀ part ∈ loweredParts env (armNode env scrutinee pattern),
    Everywhere (loweredParts env) (Resolvable env) part
  rest : LeavesFieldToRest env scrutinee pattern

variable {env} {scrutinee : Ty} {pattern : RirPattern} {resolved : Option (EnumId × Nat)}

variable (env scrutinee) in
theorem expandedTuplePattern_tuple (elems : List RirPattern) (rest : Option Nat) :
    ∃ expanded other, expandedTuplePattern env scrutinee (.tuple elems rest) = .tuple expanded other := by
  unfold expandedTuplePattern
  split
  · exact ⟨_, _, rfl⟩
  · exact ⟨_, _, rfl⟩

section

variable (checked : validate env scrutinee pattern = .ok resolved)
include checked

theorem validate_expanded : validate env scrutinee (expandedTuplePattern env scrutinee pattern) = .ok resolved := by
  cases pattern with
  | tuple elems rest =>
    obtain ⟨_, _, same⟩ := expandedTuplePattern_tuple env scrutinee elems rest
    rw [same]
    exact checked
  | wildcard | int _ | bool _ | path _ _ _ | dataVariant _ _ _ _ | structVariant _ _ _ _
  | ident _ _ | struct _ _ _ _ | comptimeUnrollArm _ _ =>
    exact checked

theorem agrees_of_validate : Agrees env ⟨false, pattern, scrutinee⟩ resolved ∧
      ((variantName pattern).isSome = true → resolved.isSome = true) := by
  have ofFound {module typeName variant place} (found : resolveVariant env scrutinee module typeName variant = .ok place)
      (named : variantName pattern = some variant) : Agrees env ⟨false, pattern, scrutinee⟩ (some place) := by
    intro _ same _ isNamed
    cases same
    cases named.symm.trans isNamed
    obtain ⟨definition, present, again⟩ := namedVariant_of_resolveVariant found
    exact present.trans again.symm
  cases pattern with
  | path module typeName variant =>
    obtain ⟨place, found, result⟩ := bind_eq_ok.mp checked
    cases result
    exact ⟨ofFound found rfl, fun _ => rfl⟩
  | dataVariant module typeName variant bindings =>
    obtain ⟨place, definition, found, -, -, rfl⟩ := validate_dataVariant.mp checked
    exact ⟨ofFound found rfl, fun _ => rfl⟩
  | structVariant module typeName variant fields =>
    obtain ⟨place, definition, found, -, -, rfl⟩ := validate_structVariant.mp checked
    exact ⟨ofFound found rfl, fun _ => rfl⟩
  | wildcard | int _ | bool _ | ident _ _ | tuple _ _ | struct _ _ _ _ | comptimeUnrollArm _ _ =>
    refine ⟨?_, nofun⟩
    intro _ _ _ named
    cases named

theorem wellTyped_iff : WellTyped env scrutinee pattern ↔ AggregateFits env (armNode env scrutinee pattern) ∧
        ∀ part ∈ parts env (armNode env scrutinee pattern), Everywhere (parts env) (Checked env) part := by
  rw [WellTyped, everywhere_congr fits_iff_checked, everywhere_iff]
  refine and_congr_left fun _ => ?_
  exact and_iff_right ⟨resolved, validate_expanded checked⟩

theorem lowers_arm_iff (wellTyped : WellTyped env scrutinee pattern) :
    (lowerPattern env (expandedTuplePattern env scrutinee pattern) resolved).isSome = true ↔
      ∀ part ∈ loweredParts env (armNode env scrutinee pattern),
        Everywhere (loweredParts env) (Resolvable env) part := by
  obtain ⟨fits, below⟩ := everywhere_iff.mp wellTyped
  obtain ⟨agrees, known⟩ := agrees_of_validate (validate_expanded checked)
  refine (lowerPattern_isSome fits agrees).trans ((and_iff_right known).trans ?_)
  refine forall₂_congr ?_
  intro part member
  have formed := below part (loweredParts_subset _ part member)
  exact formed.decides loweredParts_subset fun _ => lowers_iff

theorem emitArm_isSome : (emitArm env scrutinee pattern resolved).isSome = true ↔
      LeavesFieldToRest env scrutinee pattern := by
  cases pattern with
  | wildcard | int _ | bool _ | path _ _ _ | comptimeUnrollArm _ _ =>
    simp [emitArm, LeavesFieldToRest]
  | ident _ _ | tuple _ _ | struct _ _ _ _ =>
    simp [emitArm, LeavesFieldToRest, emitRecursivePatternBindings_isSome]
  | dataVariant module typeName variant bindings =>
    obtain ⟨place, definition, found, named, fits, rfl⟩ := validate_dataVariant.mp checked
    obtain ⟨other, present, again⟩ := namedVariant_of_resolveVariant found
    rw [named] at again
    cases again
    obtain ⟨fields, expanded, bounded⟩ := dataBindings_bounded fits
    simp only [emitArm, Option.bind_eq_bind, Option.bind_some, present, expanded,
      emitVariantFields_isSome, bounded, LeavesFieldToRest, named, Option.some.injEq,
      forall_eq']
  | structVariant module typeName variant fields =>
    obtain ⟨place, definition, found, named, fit, rfl⟩ := validate_structVariant.mp checked
    obtain ⟨other, present, again⟩ := namedVariant_of_resolveVariant found
    rw [named] at again
    cases again
    obtain ⟨bindings, listed, bounded⟩ := structBindings_bounded fit
    simp only [emitArm, Option.bind_eq_bind, Option.bind_some, present, listed,
      emitVariantFields_isSome, LeavesFieldToRest, iff_true]
    intro field member
    have inNames := bounded field member
    rcases env.variantNames place.1 definition (List.mem_of_getElem? present) with none | same
    · simp [none] at inNames
    · exact same ▸ inNames

theorem arm_iff : (WellTyped env scrutinee pattern ∧ (emitArm env scrutinee pattern resolved).isSome = true ∧
        (lowerPattern env (expandedTuplePattern env scrutinee pattern) resolved).isSome = true) ↔
      Unchecked env scrutinee pattern := by
  rw [emitArm_isSome checked]
  constructor
  · rintro ⟨wellTyped, rest, lowers⟩
    obtain ⟨aggregate, below⟩ := (wellTyped_iff checked).mp wellTyped
    exact ⟨aggregate, below, (lowers_arm_iff checked wellTyped).mp lowers, rest⟩
  · rintro ⟨aggregate, below, resolvable, rest⟩
    have wellTyped := (wellTyped_iff checked).mpr ⟨aggregate, below⟩
    exact ⟨wellTyped, rest, (lowers_arm_iff checked wellTyped).mpr resolvable⟩

end

end Arms

section Matches

variable {env : Env} {elsewhere : Elsewhere} {scrutinee : Ty}

variable (env elsewhere scrutinee) in
theorem analyzeArms_cases (index : Nat) (result : Option Ty) (arms : List Arm) :
    ((∃ analyzed, analyzeArms env elsewhere scrutinee index result arms = .ok analyzed) ∧
      ∀ arm ∈ arms, ∃ resolved, validate env scrutinee arm.pattern = .ok resolved ∧
        (emitArm env scrutinee arm.pattern resolved).isSome = true ∧
        (lowerPattern env (expandedTuplePattern env scrutinee arm.pattern) resolved).isSome = true) ∨
    (∃ error, analyzeArms env elsewhere scrutinee index result arms = .error (.error error)) ∨
    (analyzeArms env elsewhere scrutinee index result arms = .error .panic ∧
      ∃ arm ∈ arms, ∃ resolved, validate env scrutinee arm.pattern = .ok resolved ∧
        ¬((emitArm env scrutinee arm.pattern resolved).isSome = true ∧
          (lowerPattern env (expandedTuplePattern env scrutinee arm.pattern) resolved).isSome = true)) := by
  induction arms generalizing index result with
  | nil => exact .inl ⟨⟨_, rfl⟩, nofun⟩
  | cons arm arms ih =>
    rw [analyzeArms]
    cases checked : validate env scrutinee arm.pattern with
    | error error => exact .inr (.inl ⟨error, rfl⟩)
    | ok resolved =>
    cases emitted : emitArm env scrutinee arm.pattern resolved with
    | none =>
      refine .inr (.inr ⟨?_, ?_⟩)
      · simp [orError, orPanic, emitted, bind, Except.bind]
      · exact ⟨arm, (.head _), resolved, checked, by simp [emitted]⟩
    | some setups =>
    cases analyzed : elsewhere.analyzeArmBody index arm.body setups with
    | error error =>
      refine .inr (.inl ⟨error, ?_⟩)
      simp [orError, orPanic, emitted, analyzed, bind, Except.bind]
    | ok bodyType =>
    cases typed : armType result bodyType with
    | error error =>
      refine .inr (.inl ⟨error, ?_⟩)
      simp [orError, orPanic, emitted, analyzed, typed, bind, Except.bind]
    | ok next =>
    cases lowered : lowerPattern env (expandedTuplePattern env scrutinee arm.pattern) resolved with
    | none =>
      refine .inr (.inr ⟨?_, ?_⟩)
      · simp [orError, orPanic, emitted, analyzed, typed, lowered, bind, Except.bind]
      · exact ⟨arm, (.head _), resolved, checked, by simp [lowered]⟩
    | some pattern =>
    simp only [orError, orPanic, emitted, analyzed, typed, lowered, bind, Except.bind]
    rcases ih (index + 1) (some next) with ⟨⟨_, rest⟩, all⟩ | ⟨error, rest⟩ | ⟨rest, other, member, panics⟩
    · rw [rest]
      refine .inl ⟨⟨_, rfl⟩, List.forall_mem_cons.mpr ⟨?_, all⟩⟩
      exact ⟨resolved, checked, by simp [emitted], by simp [lowered]⟩
    · rw [rest]
      exact .inr (.inl ⟨error, rfl⟩)
    · rw [rest]
      exact .inr (.inr ⟨rfl, other, List.mem_cons_of_mem _ member, panics⟩)

/-- A `match` that is not rejected is accepted with well-typed arms exactly when what the check of
an arm does not look at is in order in each of them. -/
theorem match_iff (env : Env) (elsewhere : Elsewhere) (scrutinee : Ty) (raw arms : List Arm)
    (expanded : expandUnrollArms env elsewhere scrutinee raw = .ok arms)
    (notRejected : ∀ error, analyzeMatch env elsewhere scrutinee raw ≠ .error (.error error)) :
    ((∃ accepted, analyzeMatch env elsewhere scrutinee raw = .ok accepted) ∧
        ∀ arm ∈ arms, WellTyped env scrutinee arm.pattern) ↔
      ∀ arm ∈ arms, Unchecked env scrutinee arm.pattern := by
  unfold analyzeMatch at notRejected ⊢
  by_cases matchable : isMatchable scrutinee = true
  case neg => exact absurd (by simp [matchable]) (notRejected (.invalidMatchType scrutinee))
  simp only [matchable, Bool.not_true, Bool.false_eq_true, if_false, expanded, orError, bind,
    Except.bind] at notRejected ⊢
  by_cases empty : arms.isEmpty = true
  · rw [if_pos empty] at notRejected ⊢
    rw [List.isEmpty_iff.mp empty]
    split at notRejected
    · rw [if_pos ‹_›]
      exact ⟨fun _ => nofun, fun _ => ⟨⟨_, rfl⟩, nofun⟩⟩
    · exact absurd rfl (notRejected .emptyMatch)
  rw [if_neg empty] at notRejected ⊢
  rcases analyzeArms_cases env elsewhere scrutinee 0 none arms with
    ⟨⟨analyzed, result⟩, all⟩ | ⟨error, result⟩ | ⟨result, arm, member, _, checked, panics⟩
  · rw [result] at notRejected ⊢
    simp only at notRejected ⊢
    split at notRejected
    · rw [if_pos ‹_›]
      refine (and_iff_right ⟨_, rfl⟩).trans (forall₂_congr ?_)
      intro arm member
      obtain ⟨_, checked, goesThrough⟩ := all arm member
      rw [← arm_iff checked]
      exact (and_iff_left goesThrough).symm
    · exact absurd rfl (notRejected _)
  · rw [result] at notRejected
    exact absurd rfl (notRejected error)
  · rw [result]
    constructor
    · rintro ⟨⟨_, accepted⟩, _⟩
      cases accepted
    · intro unchecked
      exact absurd ((arm_iff checked).mpr (unchecked arm member)).2 panics

end Matches

namespace MatchSample

def pool : TypeInternPool where
  structDef _ := { name := "__anon_struct_0", fields := [⟨"0", .enum 0⟩, ⟨"1", .i32⟩] }
  enumDef _ := { name := "Shape", variants := [⟨"Circle", [.i32], []⟩, ⟨"Dot", [], []⟩] }
  arrayDef _ := (.unit, 0)

def env : Env where
  pool := pool
  enums := fun name => if name = "Shape" then some 0 else none
  structs := fun _ => none
  comptimeTypeVars := fun _ => none
  isAccessible := fun _ => true
  symbol := String.length
  variantNames := by
    intro _ _ member
    simp only [pool, List.mem_cons, List.not_mem_nil, or_false] at member
    rcases member with rfl | rfl <;> exact .inl rfl

def elsewhere : Elsewhere := ⟨fun _ => .ok [], fun _ _ _ => .ok .i32⟩

def arms (patterns : List Pattern) : List Arm :=
  patterns.zipIdx.map fun (pattern, body) => ⟨genMatchArmPattern pattern, body⟩

def circle (radius : Pattern) : Pattern := .dataVariant none "Shape" "Circle" [.pattern radius]

theorem circle_exhaustive (radius : AirPattern) :
    exhaustivenessWitnesses pool [.enumDataVariant 0 0 [radius], .wildcard] (.enum 0) = [] := by
  have incomplete : ¬∀ index ≤ 1, index = 0 := fun all => absurd (all 1 le_rfl) (by decide)
  simp [exhaustivenessWitnesses, isUseful, headCtor, usedCtors, defaultRows, defaultRow,
    typeSignature, pool, Ty.asEnum, Usefulness.witnesses, incomplete]

theorem circle_accepted {radius : Pattern} {lowered : AirPattern}
    (analyzed : analyzeArms env elsewhere (.enum 0) 0 none (arms [circle radius, .wildcard]) =
      .ok ([.enumDataVariant 0 0 [lowered], .wildcard], some .i32)) :
    analyzeMatch env elsewhere (.enum 0) (arms [circle radius, .wildcard]) =
      .ok ([.enumDataVariant 0 0 [lowered], .wildcard], .i32) := by
  have expanded : expandUnrollArms env elsewhere (.enum 0) (arms [circle radius, .wildcard]) =
      .ok (arms [circle radius, .wildcard]) := rfl
  unfold analyzeMatch
  rw [if_neg (by decide)]
  simp only [expanded, orError, bind, Except.bind]
  rw [if_neg (by simp [arms]), analyzed]
  simp only [env, circle_exhaustive]
  rfl

theorem circle_well_typed : ((∃ accepted, analyzeMatch env elsewhere (.enum 0) (arms [circle (.int 1), .wildcard]) =
          .ok accepted) ∧
        ∀ arm ∈ arms [circle (.int 1), .wildcard], WellTyped env (.enum 0) arm.pattern) ↔
      ∀ arm ∈ arms [circle (.int 1), .wildcard], Unchecked env (.enum 0) arm.pattern := by
  refine match_iff env elsewhere (.enum 0) _ (arms [circle (.int 1), .wildcard]) rfl ?_
  intro _ rejected
  rw [circle_accepted rfl] at rejected
  cases rejected

/-- The radius is an `i32`. -/
example : ∃ accepted, analyzeMatch env elsewhere (.enum 0) (arms [circle (.bool true), .wildcard]) = .ok accepted :=
  ⟨_, circle_accepted rfl⟩

/-- `match pair { (Shape::Circle(_), 1) => .., _ => .. }` panics: the elements of a tuple pattern are
lowered without the variants they name. -/
theorem not_all_matches_fit : ¬ ∀ (env : Env) (elsewhere : Elsewhere) (scrutinee : Ty) (patterns : List Pattern)
        (expanded : List Arm),
        expandUnrollArms env elsewhere scrutinee (arms patterns) = .ok expanded →
        (∀ error, analyzeMatch env elsewhere scrutinee (arms patterns) ≠ .error (.error error)) →
        (∃ accepted, analyzeMatch env elsewhere scrutinee (arms patterns) = .ok accepted) ∧
          ∀ arm ∈ expanded, WellTyped env scrutinee arm.pattern := by
  intro fit
  obtain ⟨⟨accepted, result⟩, _⟩ := fit env elsewhere (.struct 0)
    [.tuple [.pattern (circle .wildcard), .pattern (.int 1)], .wildcard] _ rfl (by
      intro error rejected
      cases rejected)
  cases result

end MatchSample

end Gruel.MatchPatterns
