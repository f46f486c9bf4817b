import Gruel.NamesCore

/-!
Which occurrences of a name resolve to the innermost enclosing binding.
-/

namespace Gruel.Names

open UndoLog

abbrev Trail := List (Event String Nat)

def bindAll (binders : List Binder) : Trail :=
  binders.reverse.map fun binder => .bind binder.name binder.id

mutual

def Expr.trail : Expr → Trail
  | .varRef .. => []
  | .assign _ value => value.trail
  | .call _ args => trailOf args
  | .alloc binders init => bindAll binders ++ init.trail
  | .allocType _ init => init.trail
  | .finalize handle => [.assign handle none]
  | .block statements => [.closed (trailOf statements)]
  | .scoped body => [.closed body.trail]
  | .forLoop binder iterable body =>
    .closed [.closed (body.trail ++ [.bind binder.name binder.id])] :: iterable.trail
  | .arm binders body => [.closed (body.trail ++ bindAll binders)]
  | .unrolled _ elements body => (List.replicate elements body.trail).flatten
  | .unrolledArm _ elements body => List.replicate elements (.closed body.trail)
  | .skipped _ => []
  | .parts exprs => trailOf exprs

def trailOf : List Expr → Trail
  | [] => []
  | expr :: exprs => trailOf exprs ++ expr.trail

end

mutual

/-- The types that the analysis of a part binds, latest first; no scope ends their bindings. -/
def Expr.types : Expr → List Binder
  | .varRef .. | .finalize _ | .skipped _ => []
  | .assign _ value => value.types
  | .call _ args => typesOf args
  | .alloc _ init => init.types
  | .allocType binder init => binder :: init.types
  | .block statements => typesOf statements
  | .scoped body => body.types
  | .forLoop _ iterable body => body.types ++ iterable.types
  | .arm _ body => body.types
  | .unrolled _ elements body | .unrolledArm _ elements body =>
    (List.replicate elements body.types).flatten
  | .parts exprs => typesOf exprs

def typesOf : List Expr → List Binder
  | [] => []
  | expr :: exprs => typesOf exprs ++ expr.types

end

/-- A point of the body: the enclosing bindings, the history of the table of locals and the types
bound so far. -/
structure Spot where
  env : Env
  trail : Trail
  types : List Binder

namespace Spot

def past (spot : Spot) (expr : Expr) : Spot :=
  ⟨spot.env, expr.trail ++ spot.trail, expr.types ++ spot.types⟩

def within (spot : Spot) (bindings : List Binding) : Spot :=
  { spot with env := bindings ++ spot.env }

def binding (spot : Spot) (binders : List Binder) : Spot :=
  { spot.within (binders.reverse.map (·.as .local)) with trail := bindAll binders ++ spot.trail }

end Spot

inductive Occurrence
  | varRef (use : Use) (name : String)
  | assign (name : String)
  | callee (name : String)
  deriving DecidableEq, Repr

abbrev Sites := Spot → List (Spot × Occurrence)

def repeatedSites (sites : Sites) (next : Spot → Spot) : Nat → Sites
  | 0 => fun _ => []
  | times + 1 => fun spot => sites spot ++ repeatedSites sites next times (next spot)

mutual

def Expr.sites : Expr → Sites
  | .varRef use name => fun spot => [(spot, .varRef use name)]
  | .assign name value => fun spot => (spot, .assign name) :: value.sites spot
  | .call callee args => fun spot => (spot, .callee callee) :: sitesOf args spot
  | .alloc _ init | .allocType _ init => init.sites
  | .finalize _ | .skipped _ => fun _ => []
  | .block statements => sitesOf statements
  | .scoped body => body.sites
  | .forLoop binder iterable body => fun spot =>
    iterable.sites spot ++ body.sites ((spot.past iterable).binding [binder])
  | .arm binders body => fun spot => body.sites (spot.binding binders)
  | .unrolled binder elements body =>
    repeatedSites (fun spot => body.sites (spot.within [binder.as .valueVar]))
      (fun spot => ⟨spot.env, body.trail ++ spot.trail, body.types ++ spot.types⟩) elements
  | .unrolledArm binder elements body =>
    repeatedSites (fun spot => body.sites (spot.within [binder.as .valueVar]))
      (fun spot => ⟨spot.env, .closed body.trail :: spot.trail, body.types ++ spot.types⟩)
      elements
  | .parts exprs => sitesOf exprs

def sitesOf : List Expr → Sites
  | [] => fun _ => []
  | expr :: exprs => fun spot =>
    expr.sites spot ++ sitesOf exprs ((spot.past expr).within expr.introduced)

end

def Env.valueVars (env : Env) (name : String) : Option Nat :=
  (env.find? fun binding => binding.name = name ∧ binding.kind = .valueVar).map Binding.id

section Analysis

variable (f : Function)
variable {ctx : AnalysisContext} {frames : List Trail}

def Spot.tables (spot : Spot) : Tables where
  params := firstNamed f.params
  locals name := entry name spot.trail
  comptimeTypeVars := firstNamed (spot.types ++ f.capturedTypes)
  comptimeValueVars := spot.env.valueVars
  functions := f.functions

def resolutionsAt : Spot × Occurrence → List Resolution
  | (spot, .varRef use name) => varRefResolutions (spot.tables f) spot.env use name
  | (spot, .assign name) => [assignResolution (spot.tables f) spot.env name]
  | (spot, .callee name) => [calleeResolution (spot.tables f) spot.env name]

structure Follows (ctx : AnalysisContext) (env : Env) (types : List Binder) (frames : List Trail) :
    Prop where
  params : ctx.params = f.params
  functions : ctx.functions = f.functions
  typeVars : ctx.comptimeTypeVars = firstNamed (types ++ f.capturedTypes)
  valueVars : ctx.comptimeValueVars = env.valueVars
  locals : Records (fun _ => none) ctx.locals frames

def Tracks (env : Env) (pass : Pass AnalysisContext) (trail : Trail) (types : List Binder) (sites : Sites) : Prop :=
  ∀ ctx old frame frames, Follows f ctx env old (frame :: frames) →
    Follows f (pass ctx).1 env (types ++ old) ((trail ++ frame) :: frames) ∧
      (pass ctx).2 = (sites ⟨env, (frame :: frames).flatten, old⟩).flatMap (resolutionsAt f)

variable {f} {env : Env} {types : List Binder} {sites : Sites} {trail : Trail} {pass : Pass AnalysisContext}

theorem Follows.tables (follows : Follows f ctx env types frames) :
    ctx.tables = Spot.tables f ⟨env, frames.flatten, types⟩ := by
  rw [AnalysisContext.tables, Spot.tables, follows.params, follows.functions, follows.typeVars,
    follows.valueVars, follows.locals.entry]

theorem Follows.insertLocal {frame : Trail} (follows : Follows f ctx env types (frame :: frames)) (binder : Binder) :
    Follows f (ctx.insertLocal binder) env types ((.bind binder.name binder.id :: frame) :: frames) :=
  { follows with locals := follows.locals.insert binder.name binder.id }

theorem bindAll_cons (binder : Binder) (binders : List Binder) :
    bindAll (binder :: binders) = bindAll binders ++ [.bind binder.name binder.id] := by
  simp [bindAll]

theorem Follows.insertLocals {frame : Trail} (follows : Follows f ctx env types (frame :: frames))
    (binders : List Binder) :
    Follows f (ctx.insertLocals binders) env types ((bindAll binders ++ frame) :: frames) := by
  induction binders generalizing ctx frame with
  | nil => exact follows
  | cons binder binders ih =>
    have rest := ih (follows.insertLocal binder)
    rw [bindAll_cons, List.append_assoc]
    exact rest

theorem firstNamed_cons (binder : Binder) (binders : List Binder) : firstNamed (binder :: binders) =
      Function.update (firstNamed binders) binder.name (some binder.id) := by
  funext name
  by_cases same : binder.name = name
  · subst same
    simp [firstNamed]
  · simp [firstNamed, same, Function.update_of_ne (Ne.symm same)]

theorem Env.valueVars_cons (binder : Binder) (env : Env) : Env.valueVars (binder.as .valueVar :: env) =
      Function.update env.valueVars binder.name (some binder.id) := by
  funext name
  by_cases same : binder.name = name
  · subst same
    simp [Env.valueVars, Binder.as]
  · simp [Env.valueVars, Binder.as, same, Function.update_of_ne (Ne.symm same)]

theorem Env.valueVars_append {inner : Env} (none : ∀ binding ∈ inner, binding.kind ≠ .valueVar)
    (env : Env) : Env.valueVars (inner ++ env) = env.valueVars := by
  funext name
  have unfound : inner.find? (fun binding => binding.name = name ∧ binding.kind = .valueVar) = Option.none := by
    rw [List.find?_eq_none]
    intro binding member found
    exact none binding member (by simpa using (of_decide_eq_true found).2)
  rw [Env.valueVars, Env.valueVars, List.find?_append, unfound, Option.none_or]

theorem tracks_skip : Tracks f env (Pass.change id) [] [] (fun _ => []) :=
  fun _ _ _ _ follows => ⟨follows, rfl⟩

theorem tracks_occurrence {resolved : AnalysisContext → List Resolution} {occurrence : Occurrence}
    (found : ∀ ctx spot, ctx.tables = spot.tables f → spot.env = env →
      resolved ctx = resolutionsAt f (spot, occurrence)) :
    Tracks f env (fun ctx => (ctx, resolved ctx)) [] [] (fun spot => [(spot, occurrence)]) := by
  intro ctx _ _ _ follows
  refine ⟨follows, ?_⟩
  rw [List.flatMap_singleton]
  exact found ctx _ follows.tables rfl

theorem tracks_varRef (use : Use) (name : String) :
    Tracks f env (fun ctx => (ctx, varRefResolutions ctx.tables env use name)) [] []
      (fun spot => [(spot, .varRef use name)]) :=
  tracks_occurrence fun _ _ tables same => by rw [tables, ← same]; rfl

theorem tracks_assign (name : String) : Tracks f env (fun ctx => (ctx, [assignResolution ctx.tables env name])) [] []
      (fun spot => [(spot, .assign name)]) :=
  tracks_occurrence fun _ _ tables same => by rw [tables, ← same]; rfl

theorem tracks_callee (name : String) : Tracks f env (fun ctx => (ctx, [calleeResolution ctx.tables env name])) [] []
      (fun spot => [(spot, .callee name)]) :=
  tracks_occurrence fun _ _ tables same => by rw [tables, ← same]; rfl

theorem Tracks.andThen {first second : Pass AnalysisContext} {early late : Trail}
    {earlyTypes lateTypes : List Binder} {earlySites lateSites : Sites}
    (tracksFirst : Tracks f env first early earlyTypes earlySites)
    (tracksSecond : Tracks f env second late lateTypes lateSites) :
    Tracks f env (first.andThen second) (late ++ early) (lateTypes ++ earlyTypes) (fun spot => earlySites spot ++
        lateSites ⟨spot.env, early ++ spot.trail, earlyTypes ++ spot.types⟩) := by
  intro ctx old frame frames follows
  obtain ⟨middle, earlyResolved⟩ := tracksFirst ctx old frame frames follows
  obtain ⟨after, lateResolved⟩ := tracksSecond _ _ _ _ middle
  refine ⟨?_, ?_⟩
  · simpa [Pass.andThen, List.append_assoc] using after
  · rw [List.flatMap_append, ← earlyResolved]
    simp only [List.flatten_cons, List.append_assoc] at lateResolved ⊢
    rw [← lateResolved]
    rfl

theorem tracks_insertLocals (binders : List Binder) :
    Tracks f env (Pass.change (·.insertLocals binders)) (bindAll binders) [] (fun _ => []) :=
  fun _ _ _ _ follows => ⟨follows.insertLocals binders, rfl⟩

theorem tracks_insertType (binder : Binder) :
    Tracks f env (Pass.change (·.insertType binder)) [] [binder] (fun _ => []) := by
  intro _ _ _ _ follows
  refine ⟨{ follows with typeVars := ?_ }, rfl⟩
  rw [List.cons_append, List.nil_append, List.cons_append, firstNamed_cons, ← follows.typeVars]
  rfl

theorem tracks_removeLocal (handle : String) :
    Tracks f env (Pass.change (·.removeLocal handle)) [.assign handle none] [] (fun _ => []) :=
  fun _ _ _ _ follows => ⟨{ follows with locals := follows.locals.set handle none }, rfl⟩

theorem Tracks.withScope (tracks : Tracks f env pass trail types sites) :
    Tracks f env (withScope pass) [.closed trail] types sites := by
  intro ctx old frame frames follows
  have pushed : Follows f ctx.pushScope env old ([] :: frame :: frames) :=
    { follows with locals := follows.locals.push (List.cons_ne_nil _ _) }
  obtain ⟨after, resolved⟩ := tracks _ _ _ _ pushed
  rw [List.append_nil] at after
  refine ⟨{ after with locals := after.locals.pop }, ?_⟩
  rw [List.flatten_cons, List.nil_append] at resolved
  rw [← resolved]
  simp [Names.withScope, Pass.andThen, Pass.change]

theorem Tracks.within {inner : List Binding} (none : ∀ binding ∈ inner, binding.kind ≠ .valueVar)
    (tracks : Tracks f (inner ++ env) pass trail types sites) :
    Tracks f env pass trail types (fun spot => sites (spot.within inner)) := by
  intro ctx old frame frames follows
  have extended : Follows f ctx (inner ++ env) old (frame :: frames) :=
    { follows with valueVars := by rw [follows.valueVars, Env.valueVars_append none] }
  obtain ⟨after, resolved⟩ := tracks _ _ _ _ extended
  exact ⟨{ after with valueVars := by rw [after.valueVars, Env.valueVars_append none] }, resolved⟩

theorem Tracks.withValue {binder : Binder} (tracks : Tracks f (binder.as .valueVar :: env) pass trail types sites) :
    Tracks f env (withValue binder pass) trail types (fun spot => sites (spot.within [binder.as .valueVar])) := by
  intro ctx old frame frames follows
  have set : Follows f (ctx.setValue binder.name (some binder.id)) (binder.as .valueVar :: env) old
      (frame :: frames) :=
    { follows with
      valueVars := by rw [Env.valueVars_cons, ← follows.valueVars]; rfl }
  obtain ⟨after, resolved⟩ := tracks _ _ _ _ set
  refine ⟨{ after with valueVars := ?_ }, resolved⟩
  have held := after.valueVars
  rw [Env.valueVars_cons, ← follows.valueVars] at held
  have restored : Function.update (pass (ctx.setValue binder.name (some binder.id))).1.comptimeValueVars binder.name
      (ctx.comptimeValueVars binder.name) = env.valueVars := by
    rw [held, Function.update_idem, Function.update_eq_self, follows.valueVars]
  exact restored

theorem Tracks.repeated (tracks : Tracks f env pass trail types sites) (times : Nat) :
    Tracks f env (pass.repeated times) (List.replicate times trail).flatten (List.replicate times types).flatten
      (repeatedSites sites (fun spot => ⟨spot.env, trail ++ spot.trail, types ++ spot.types⟩) times) := by
  induction times with
  | zero => exact tracks_skip
  | succ times ih =>
    rw [List.replicate_succ', List.replicate_succ', List.flatten_append, List.flatten_append,
      List.flatten_singleton, List.flatten_singleton]
    exact tracks.andThen ih

theorem as_local_kind {binders : List Binder} : ∀ binding ∈ binders.map (·.as .local), binding.kind ≠ .valueVar := by
  intro binding member
  obtain ⟨_, -, rfl⟩ := List.mem_map.mp member
  nofun

theorem introduced_kind (expr : Expr) : ∀ binding ∈ expr.introduced, binding.kind ≠ .valueVar := by
  cases expr with
  | alloc binders init => exact as_local_kind
  | allocType binder init =>
    intro binding member
    rw [Expr.introduced, List.mem_singleton] at member
    subst member
    nofun
  | _ => nofun

theorem tracks_binding (binders : List Binder) (tracks :
      Tracks f (binders.reverse.map (·.as .local) ++ env) pass trail types sites) :
    Tracks f env ((Pass.change (·.insertLocals binders)).andThen pass)
      (trail ++ bindAll binders) types (fun spot => sites (spot.binding binders)) := by
  have both := (tracks_insertLocals binders).andThen (tracks.within as_local_kind)
  rw [List.append_nil] at both
  exact both

variable (f)

mutual

theorem tracks_analyzeInst (env : Env) (expr : Expr) :
    Tracks f env (analyzeInst env expr) expr.trail expr.types expr.sites := by
  match expr with
  | .varRef use name => exact tracks_varRef use name
  | .assign name value =>
    have both := (tracks_assign name).andThen (tracks_analyzeInst env value)
    rw [List.append_nil, List.append_nil] at both
    exact both
  | .call callee args =>
    have both := (tracks_callee callee).andThen (tracks_analyzeInsts env args)
    rw [List.append_nil, List.append_nil] at both
    exact both
  | .alloc binders init =>
    have both := (tracks_analyzeInst env init).andThen (tracks_insertLocals binders)
    simp only [List.append_nil] at both
    exact both
  | .allocType binder init =>
    have both := (tracks_analyzeInst env init).andThen (tracks_insertType binder)
    simp only [List.append_nil] at both
    exact both
  | .finalize handle => exact tracks_removeLocal handle
  | .block statements => exact (tracks_analyzeInsts env statements).withScope
  | .scoped body => exact (tracks_analyzeInst env body).withScope
  | .forLoop binder iterable body =>
    have inside := tracks_binding [binder] (tracks_analyzeInst (binder.as .local :: env) body)
    exact (tracks_analyzeInst env iterable).andThen inside.withScope.withScope
  | .arm binders body =>
    exact (tracks_binding binders (tracks_analyzeInst _ body)).withScope
  | .unrolled binder elements body =>
    exact (tracks_analyzeInst (binder.as .valueVar :: env) body).withValue.repeated elements
  | .unrolledArm binder elements body =>
    have arms := (tracks_analyzeInst (binder.as .valueVar :: env) body).withValue.withScope.repeated elements
    rw [List.flatten_replicate_singleton] at arms
    exact arms
  | .skipped part => exact tracks_skip
  | .parts exprs => exact tracks_analyzeInsts env exprs

theorem tracks_analyzeInsts (env : Env) (exprs : List Expr) :
    Tracks f env (analyzeInsts env exprs) (trailOf exprs) (typesOf exprs) (sitesOf exprs) := by
  match exprs with
  | [] => exact tracks_skip
  | expr :: exprs =>
    have rest := (tracks_analyzeInsts (expr.introduced ++ env) exprs).within (introduced_kind expr)
    exact (tracks_analyzeInst env expr).andThen rest

end

end Analysis

abbrev ConstraintTrail := List (Event String Binding)

def insertAll (bindings : List Binding) : ConstraintTrail :=
  bindings.reverse.map fun binding => .bind binding.name binding

def assignAll (bindings : List Binding) : ConstraintTrail :=
  (bindings.map fun binding => (binding.name, binding)).reverse.map fun binder =>
    .assign binder.1 (some binder.2)

mutual

def Expr.constraintTrail : Expr → ConstraintTrail
  | .varRef .. | .finalize _ => []
  | .assign _ value => value.constraintTrail
  | .call _ args => constraintTrailOf args
  | .alloc binders init => insertAll (binders.map (·.as .local)) ++ init.constraintTrail
  | .allocType binder init => insertAll [binder.as .typeVar] ++ init.constraintTrail
  | .block statements => [.closed (constraintTrailOf statements)]
  | .scoped body => body.constraintTrail
  | .forLoop binder iterable body =>
    body.constraintTrail ++ insertAll [binder.as .local] ++ iterable.constraintTrail
  | .arm binders body =>
    [.borrowed ((binders.map (·.as .local)).map fun binding => (binding.name, binding)) body.constraintTrail]
  | .unrolled binder _ body => body.constraintTrail ++ insertAll [binder.as .valueVar]
  | .unrolledArm _ _ body => body.constraintTrail
  | .skipped part => part.constraintTrail
  | .parts exprs => constraintTrailOf exprs

def constraintTrailOf : List Expr → ConstraintTrail
  | [] => []
  | expr :: exprs => constraintTrailOf exprs ++ expr.constraintTrail

end

structure ConstraintSpot where
  env : Env
  trail : ConstraintTrail

def ConstraintSpot.within (spot : ConstraintSpot) (bindings : List Binding)
    (trail : ConstraintTrail) : ConstraintSpot :=
  ⟨bindings ++ spot.env, trail ++ spot.trail⟩

abbrev ConstraintSites := ConstraintSpot → List (ConstraintSpot × String)

mutual

def Expr.constraintSites : Expr → ConstraintSites
  | .varRef _ name | .finalize name => fun spot => [(spot, name)]
  | .assign name value => fun spot =>
    value.constraintSites spot ++ [(spot.within [] value.constraintTrail, name)]
  | .call _ args => constraintSitesOf args
  | .alloc _ init | .allocType _ init => init.constraintSites
  | .block statements => constraintSitesOf statements
  | .scoped body => body.constraintSites
  | .forLoop binder iterable body => fun spot =>
    iterable.constraintSites spot ++ body.constraintSites
      ((spot.within [] iterable.constraintTrail).within [binder.as .local] (insertAll [binder.as .local]))
  | .arm binders body => fun spot =>
    body.constraintSites (spot.within (binders.reverse.map (·.as .local)) (assignAll (binders.map (·.as .local))))
  | .unrolled binder _ body => fun spot =>
    body.constraintSites (spot.within [binder.as .valueVar] (insertAll [binder.as .valueVar]))
  | .unrolledArm binder _ body => fun spot =>
    body.constraintSites (spot.within [binder.as .valueVar] [])
  | .skipped part => part.constraintSites
  | .parts exprs => constraintSitesOf exprs

def constraintSitesOf : List Expr → ConstraintSites
  | [] => fun _ => []
  | expr :: exprs => fun spot =>
    expr.constraintSites spot ++ constraintSitesOf exprs (spot.within expr.introduced expr.constraintTrail)

end

section Generation

variable (f : Function)

def ConstraintSpot.generateVarRef (spot : ConstraintSpot) (name : String) : Option Binding :=
  (entry name spot.trail).or (f.generateParams name)

def constraintResolution (site : ConstraintSpot × String) : Resolution :=
  ⟨.generate, site.2, site.1.generateVarRef f site.2, site.1.env.innermost site.2⟩

structure ConstraintFollows (ctx : ConstraintContext) (frames : List ConstraintTrail) : Prop where
  params : ctx.params = f.generateParams
  locals : Records (fun _ => none) ctx.locals frames

def ConstraintTracks (env : Env) (pass : Pass ConstraintContext) (trail : ConstraintTrail)
    (sites : ConstraintSites) : Prop :=
  ∀ ctx frame frames, ConstraintFollows f ctx (frame :: frames) →
    ConstraintFollows f (pass ctx).1 ((trail ++ frame) :: frames) ∧
      (pass ctx).2 = (sites ⟨env, (frame :: frames).flatten⟩).map (constraintResolution f)

variable {f} {env : Env} {sites : ConstraintSites} {trail : ConstraintTrail} {pass : Pass ConstraintContext}

theorem constraintTracks_skip : ConstraintTracks f env (Pass.change id) [] (fun _ => []) :=
  fun _ _ _ follows => ⟨follows, rfl⟩

theorem constraintTracks_name (name : String) :
    ConstraintTracks f env (fun ctx => (ctx, [generateResolution ctx env name])) [] (fun spot => [(spot, name)]) := by
  intro ctx _ _ follows
  refine ⟨follows, ?_⟩
  simp [generateResolution, constraintResolution, ConstraintSpot.generateVarRef,
    ConstraintContext.generateVarRef, follows.params, follows.locals.entry]

theorem ConstraintTracks.andThen {first second : Pass ConstraintContext}
    {early late : ConstraintTrail} {earlySites lateSites : ConstraintSites} (inner : List Binding)
    (tracksFirst : ConstraintTracks f env first early earlySites)
    (tracksSecond : ConstraintTracks f (inner ++ env) second late lateSites) :
    ConstraintTracks f env (first.andThen second) (late ++ early)
      (fun spot => earlySites spot ++ lateSites (spot.within inner early)) := by
  intro ctx frame frames follows
  obtain ⟨middle, earlyResolved⟩ := tracksFirst ctx frame frames follows
  obtain ⟨after, lateResolved⟩ := tracksSecond _ _ _ middle
  refine ⟨?_, ?_⟩
  · simpa [Pass.andThen, List.append_assoc] using after
  · rw [List.map_append, ← earlyResolved]
    simp only [List.flatten_cons, List.append_assoc, ConstraintSpot.within] at lateResolved ⊢
    rw [← lateResolved]
    rfl

theorem insertAll_cons (binding : Binding) (bindings : List Binding) :
    insertAll (binding :: bindings) = insertAll bindings ++ [.bind binding.name binding] := by
  simp [insertAll]

theorem ConstraintFollows.insertLocals {ctx : ConstraintContext} {frame : ConstraintTrail}
    {frames : List ConstraintTrail} (follows : ConstraintFollows f ctx (frame :: frames))
    (bindings : List Binding) :
    ConstraintFollows f (ctx.insertLocals bindings) ((insertAll bindings ++ frame) :: frames) := by
  induction bindings generalizing ctx frame with
  | nil => exact follows
  | cons binding bindings ih =>
    have inserted : ConstraintFollows f (ctx.insertLocal binding) ((.bind binding.name binding :: frame) :: frames) :=
      ⟨follows.params, follows.locals.insert binding.name binding⟩
    have rest := ih inserted
    rw [insertAll_cons, List.append_assoc]
    exact rest

theorem constraintTracks_insertLocals (bindings : List Binding) :
    ConstraintTracks f env (Pass.change (·.insertLocals bindings)) (insertAll bindings) (fun _ => []) :=
  fun _ _ _ follows => ⟨follows.insertLocals bindings, rfl⟩

theorem ConstraintTracks.withScope (tracks : ConstraintTracks f env pass trail sites) :
    ConstraintTracks f env ((Pass.change (·.pushScope)).andThen (pass.andThen (Pass.change (·.popScope))))
      [.closed trail] sites := by
  intro ctx frame frames follows
  have pushed : ConstraintFollows f ctx.pushScope ([] :: frame :: frames) :=
    ⟨follows.params, follows.locals.push (List.cons_ne_nil _ _)⟩
  obtain ⟨after, resolved⟩ := tracks _ _ _ pushed
  rw [List.append_nil] at after
  refine ⟨⟨after.params, after.locals.pop⟩, ?_⟩
  rw [List.flatten_cons, List.nil_append] at resolved
  rw [← resolved]
  simp [Pass.andThen, Pass.change]

theorem ConstraintTracks.withBindings {bindings inner : List Binding}
    (tracks : ConstraintTracks f (inner ++ env) pass trail sites) :
    ConstraintTracks f env (withBindings bindings pass)
      [.borrowed (bindings.map fun binding => (binding.name, binding)) trail]
      (fun spot => sites (spot.within inner (assignAll bindings))) := by
  intro ctx frame frames follows
  have bound : ConstraintFollows f { ctx with
        locals := (ctx.locals.swapIn (bindings.map fun binding => (binding.name, binding))).1 }
      ((assignAll bindings ++ frame) :: frames) :=
    ⟨follows.params, follows.locals.swapIn _⟩
  obtain ⟨after, resolved⟩ := tracks _ _ _ bound
  refine ⟨⟨after.params, follows.locals.putBack after.locals⟩, ?_⟩
  rw [List.flatten_cons, List.append_assoc] at resolved
  exact resolved

theorem ConstraintTracks.within {inner : List Binding} (tracks : ConstraintTracks f (inner ++ env) pass trail sites) :
    ConstraintTracks f env pass trail (fun spot => sites (spot.within inner [])) :=
  fun ctx frame frames follows => tracks ctx frame frames follows

variable (f)

mutual

theorem constraintTracks_generate (env : Env) (expr : Expr) :
    ConstraintTracks f env (generate env expr) expr.constraintTrail expr.constraintSites := by
  match expr with
  | .varRef use name => exact constraintTracks_name name
  | .assign name value =>
    exact (constraintTracks_generate env value).andThen [] (constraintTracks_name name)
  | .call callee args => exact constraintTracks_generateAll env args
  | .alloc binders init =>
    have both := (constraintTracks_generate env init).andThen []
      (constraintTracks_insertLocals (binders.map (·.as .local)))
    simp only [List.append_nil] at both
    exact both
  | .allocType binder init =>
    have both := (constraintTracks_generate env init).andThen [] (constraintTracks_insertLocals [binder.as .typeVar])
    simp only [List.append_nil] at both
    exact both
  | .finalize handle => exact constraintTracks_name handle
  | .block statements => exact (constraintTracks_generateAll env statements).withScope
  | .scoped body => exact constraintTracks_generate env body
  | .forLoop binder iterable body =>
    have inserted : ConstraintTracks f env _ _ _ :=
      constraintTracks_insertLocals [binder.as .local]
    have looped := inserted.andThen [binder.as .local] (constraintTracks_generate _ body)
    exact (constraintTracks_generate env iterable).andThen [] looped
  | .arm binders body => exact (constraintTracks_generate _ body).withBindings
  | .unrolled binder elements body =>
    have inserted : ConstraintTracks f env _ _ _ :=
      constraintTracks_insertLocals [binder.as .valueVar]
    exact inserted.andThen [binder.as .valueVar] (constraintTracks_generate _ body)
  | .unrolledArm binder elements body =>
    exact (constraintTracks_generate (binder.as .valueVar :: env) body).within
  | .skipped part => exact constraintTracks_generate env part
  | .parts exprs => exact constraintTracks_generateAll env exprs

theorem constraintTracks_generateAll (env : Env) (exprs : List Expr) :
    ConstraintTracks f env (generateAll env exprs) (constraintTrailOf exprs) (constraintSitesOf exprs) := by
  match exprs with
  | [] => exact constraintTracks_skip
  | expr :: exprs =>
    exact (constraintTracks_generate env expr).andThen
      expr.introduced (constraintTracks_generateAll (expr.introduced ++ env) exprs)

end

end Generation

section Clearness

variable (f : Function)

def NoParam (name : String) : Prop := ∀ param ∈ f.params, param.name ≠ name

namespace Spot

variable (spot : Spot) (name : String)

def NoLocal : Prop := entry name spot.trail = none

def NoType : Prop := ∀ binder ∈ spot.types ++ f.capturedTypes, binder.name ≠ name

/-- Where the parameters are asked first, a local must not share its name with one of them, and it
must be the binding that the scopes closed since have left in the table. -/
def ParamsFirst : Option Binding → Prop
  | some ⟨_, .param, id⟩ => firstNamed f.params name = some id
  | some ⟨_, _, id⟩ => NoParam f name ∧ entry name spot.trail = some id
  | none => NoParam f name ∧ spot.NoLocal name

def LocalsFirst : Option Binding → Prop
  | some ⟨_, .param, id⟩ => spot.NoLocal name ∧ firstNamed f.params name = some id
  | some ⟨_, _, id⟩ => entry name spot.trail = some id
  | none => spot.NoLocal name ∧ NoParam f name

/-- A type or a value known at compile time must share its name with no variable, and a type must
be the one bound last. -/
def VarRefClear : Option Binding → Prop
  | some ⟨_, .param, id⟩ => firstNamed f.params name = some id
  | some ⟨_, .local, id⟩ => NoParam f name ∧ entry name spot.trail = some id
  | some ⟨_, .typeVar, id⟩ => NoParam f name ∧ spot.NoLocal name ∧
      firstNamed (spot.types ++ f.capturedTypes) name = some id
  | some ⟨_, .valueVar, _⟩ | none => NoParam f name ∧ spot.NoLocal name ∧ spot.NoType f name

def PlaceClear : Prop := spot.ParamsFirst f name (spot.env.innermostVariable name)

def PeekClear : Prop := spot.LocalsFirst f name (spot.env.innermostVariable name)

def ReadClear : Prop := spot.VarRefClear f name (spot.env.innermost name)

def BaseClear : Prop :=
  spot.PlaceClear f name ∧ (NoParam f name → spot.NoLocal name → spot.ReadClear f name)

def CalleeClear : Prop := match spot.env.innermostVariable name with
  | some binding => f.functions name = false ∧ spot.LocalsFirst f name (some binding)
  | none => f.functions name = true ∨ spot.LocalsFirst f name none

end Spot

variable {env : Env} {meant : Option Binding}

/-- The tables that the analysis asks at an occurrence hold no binding of the name before the
innermost enclosing one. -/
def Clear : Spot × Occurrence → Prop
  | (spot, .varRef .read name) => spot.ReadClear f name
  | (spot, .varRef .fieldBase name) => spot.BaseClear f name
  | (spot, .varRef .indexBase name) => spot.PeekClear f name ∧ spot.BaseClear f name
  | (spot, .varRef .fieldTarget name) => spot.PlaceClear f name
  | (spot, .varRef .indexTarget name) => spot.PeekClear f name ∧ spot.PlaceClear f name
  | (spot, .varRef .iterable name) => spot.PeekClear f name ∧ spot.ReadClear f name
  | (spot, .assign name) => spot.PlaceClear f name
  | (spot, .callee name) => spot.CalleeClear f name

/-- The table of the constraint generation has the innermost enclosing binding left, or nothing
where that binding is a parameter or was captured as a value. -/
def ConstraintClear (site : ConstraintSpot × String) : Prop :=
  match site.1.env.innermost site.2 with
  | some binding => entry site.2 site.1.trail = some binding ∨
      (entry site.2 site.1.trail = none ∧ f.generateParams site.2 = some binding)
  | none => entry site.2 site.1.trail = none ∧ f.generateParams site.2 = none

def Function.Clear : Prop := (∀ site ∈ f.body.sites ⟨f.env, [], []⟩, Names.Clear f site) ∧
    ∀ site ∈ f.body.constraintSites ⟨f.env, []⟩, ConstraintClear f site

variable {f} {spot : Spot} {name : String}

def Variable (name : String) (meant : Option Binding) : Prop :=
  ∀ binding ∈ meant, binding.name = name ∧ (binding.kind = .param ∨ binding.kind = .local)

end Clearness

namespace NamesSample

def shadowed : Function where
  params := [⟨"x", 0⟩]
  capturedTypes := []
  capturedValues := []
  functions _ := false
  body := .block [.alloc [⟨"x", 1⟩] (.parts []), .varRef .read "x"]

def leftBehind : Function where
  params := []
  capturedTypes := []
  capturedValues := []
  functions _ := false
  body := .block [.alloc [⟨"x", 1⟩] (.parts []),
    .block [.alloc [⟨"x", 2⟩] (.parts []), .alloc [⟨"x", 3⟩] (.parts [])], .varRef .read "x"]

example : leftBehind.resolutions.map (·.found) = [some ⟨"x", .local, 2⟩, some ⟨"x", .local, 2⟩] := by decide

end NamesSample

end Gruel.Names
