import Gruel.CfgBuild

/-!
Soundness of lowering, continued: sequences of operands and statements, and the
constructs that end a block.
-/

namespace Gruel

open Machine CfgBuilder

section Leaving

variable {semantics : Semantics} {arguments : List Scalar} {needsDrop : Ty → Bool}
variable {builder : CfgBuilder} {cfg : Cfg} {pending : List BlockId} {config : Config}
variable {target : BlockId} {state : AirState}

theorem step_terminate {terminator : Terminator} (ready : builder.Ready) (final : terminator.isFinal = true)
    (completes : Completes pending (builder.setTerminator builder.currentBlock terminator) cfg)
    (aside : Aside pending builder) (located : At config builder) :
    step semantics arguments cfg config = execTerminator cfg config terminator := by
  have grows := grows_terminate ready terminator
  have within := completes.current (aside.after grows) ready.bound
  rw [current_terminate] at within
  have closed : ¬ ({ builder.current with terminator := terminator } : BasicBlock).Open :=
    BasicBlock.closed_of_isFinal final
  have isBlock : cfg.blocks config.block = { builder.current with terminator := terminator } := by
    rw [located.block]
    exact within.eq_of_closed closed
  exact step_of_terminator isBlock located.pc

theorem jump_nil (config : Config) (enters : (cfg.blocks target).params = []) :
    jump cfg config target [] = .running { config with block := target, pc := 0 } := by
  simp [jump, enters, bindParams]

theorem Realizes.return {after : CfgBuilder} {source : Option CfgValue} {base fuel : Nat}
    {loops : List LoopContext} {result : ExprResult} {value : Scalar} (ready : builder.Ready)
    (completes : Completes pending (builder.setTerminator builder.currentBlock (.return source)) cfg)
    (aside : Aside pending builder) (located : At config builder) (same : SameState config state)
    (valued : (source.map config.env).getD .unit = value) :
    Realizes semantics arguments cfg base loops after result fuel config (.returned value, state) := by
  refine ⟨0, config, .refl _, (step_terminate ready rfl completes aside located).trans ?_⟩
  rw [← same.trace, ← valued]
  cases source with
  | none => rfl
  | some id => rfl

theorem lowers_ret_none : Lowers semantics arguments needsDrop (.ret none) := by
  intro _ builder ready _
  have drops : Quiet semantics arguments builder (builder.emitDropsForAllScopes needsDrop) :=
    .emitDropsForAllScopes ready needsDrop
  have grows := grows_terminate drops.ready (.return none)
  refine .leaves (drops.grows.trans ready grows) rfl ?_
  intro _ _ completes aside _ _ _ _ located same
  refine Realizes.of_quiet drops (completes.before grows) aside located same fun last atLast sameLast _ => ?_
  exact Realizes.return drops.ready completes (aside.after drops.grows) atLast sameLast rfl

theorem lowers_ret_some {value : Air} (lowersValue : Lowers semantics arguments needsDrop value) :
    Lowers semantics arguments needsDrop (.ret (some value)) := by
  intro sound builder ready inLoop
  have lowered := lowersValue sound builder ready inLoop
  simp only [lowerInst]
  generalize lowerInst needsDrop value builder = run at lowered
  obtain ⟨first, middle⟩ := run
  by_cases diverged : first.diverged = true
  · simp only [diverged, if_true]
    exact lowered.stops (fun _ returned state => (.returned returned, state))
      (lowered.diverged.symm.trans diverged) rfl fun _ _ => rfl
  · simp only [diverged, Bool.false_eq_true, if_false]
    have undiverged : first.diverged = false := Bool.eq_false_iff.mpr diverged
    have middleReady := lowered.ready undiverged
    have forgets : Quiet semantics arguments middle (middle.forgetConsumedValue needsDrop value) :=
      .forgetConsumedValue middleReady needsDrop value
    have drops := forgets.trans middleReady (.emitDropsForAllScopes forgets.ready needsDrop)
    have grows := grows_terminate drops.ready (.return first.value)
    refine .leaves (lowered.grows.trans ready (drops.grows.trans middleReady grows)) rfl ?_
    intro _ _ completes aside loopsEnter fuel _ state located same
    refine lowered.simulates_then (drops.grows.trans middleReady grows) completes aside loopsEnter located same ?_
    intro returned _ _ evaluates _ atLast sameLast _ valued
    have asideLast := aside.after lowered.grows
    refine Realizes.of_quiet drops (completes.before grows) asideLast atLast sameLast
      fun final atFinal sameFinal keeps => ?_
    refine Realizes.return drops.ready completes (asideLast.after drops.grows) atFinal sameFinal ?_
    cases produced : first.value with
    | some id =>
      change final.env id = returned
      rw [keeps id (lowered.valueBound id produced)]
      exact valued id produced
    | none =>
      have valueless : value.hasValue = false := by
        rw [← lowered.hasValue undiverged, produced]
        rfl
      exact (eval_unit_of_valueless fuel value valueless _ _ _ evaluates).symm

theorem Quiet.emitDropsForLoopExit (ready : builder.Ready) (needsDrop : Ty → Bool) (targetDepth : Nat) :
    Quiet semantics arguments builder (builder.emitDropsForLoopExit needsDrop targetDepth) :=
  .emitDropsForSlots ready needsDrop _

theorem reaches_loopTarget {depth : Nat} (ready : builder.Ready) (completes : Completes pending
      ((builder.emitDropsForLoopExit needsDrop depth).setTerminator
        (builder.emitDropsForLoopExit needsDrop depth).currentBlock (.goto target [])) cfg)
    (aside : Aside pending builder) (enters : (cfg.blocks target).params = [])
    (located : At config builder) (same : SameState config state) :
    ∃ count last, 0 < count ∧ Reaches (step semantics arguments cfg) count config last ∧
      last.block = target ∧ last.pc = 0 ∧ SameState last state ∧
      Keeps builder.cfg.valueCount config last := by
  have drops : Quiet semantics arguments builder (builder.emitDropsForLoopExit needsDrop depth) :=
    .emitDropsForLoopExit ready needsDrop depth
  have grows := grows_terminate drops.ready (.goto target [])
  obtain ⟨count, middle, reaches, atMiddle, locals, trace, keeps⟩ :=
    drops.runs pending cfg config (completes.before grows) aside located
  have stepped : step semantics arguments cfg middle = .running { middle with block := target, pc := 0 } :=
    (step_terminate drops.ready rfl completes (aside.after drops.grows) atMiddle).trans (jump_nil middle enters)
  exact ⟨count + 1, _, Nat.succ_pos _, reaches.trans (.single stepped), rfl, rfl,
    ⟨locals.trans same.locals, trace.trans same.trace⟩, keeps⟩

theorem lowers_loopExit {leave : Air} (leaves : leave = .break ∨ leave = .continue) :
    Lowers semantics arguments needsDrop leave := by
  intro _ builder ready inLoop
  obtain ⟨loop, outer, isLoop⟩ := List.exists_cons_of_ne_nil (inLoop (by rcases leaves with rfl | rfl <;> rfl))
  have drops : Quiet semantics arguments builder
      (builder.emitDropsForLoopExit needsDrop loop.scopeDepth) := .emitDropsForLoopExit ready _ _
  rcases leaves with rfl | rfl
  all_goals
    simp only [lowerInst, isLoop]
    refine .leaves (drops.grows.trans ready (grows_terminate drops.ready _)) rfl ?_
    intro _ _ completes aside loopsEnter _ _ _ located same
    have enters := loopsEnter loop (isLoop ▸ (.head _))
  · exact ⟨loop, outer, isLoop, reaches_loopTarget ready completes aside enters.2 located same⟩
  · exact ⟨loop, outer, isLoop, reaches_loopTarget ready completes aside enters.1 located same⟩

end Leaving

section Sequences

variable {semantics : Semantics} {arguments : List Scalar} {needsDrop : Ty → Bool}
variable {args statements : List Air} {before middle : CfgBuilder} {result : ExprResult} {value : Air}

theorem afterArgs_cons (fuel : Nat) (arg : Air) (args : List Air) (state : AirState)
    (next : List Scalar → AirState → Outcome × AirState) :
    afterArgs (evalArgs semantics arguments fuel (arg :: args) state) next =
      andThen (eval semantics arguments fuel arg state) fun value state =>
        afterArgs (evalArgs semantics arguments fuel args state) fun values state =>
          next (value :: values) state := by
  rw [evalArgs]
  obtain ⟨outcome, middle⟩ := eval semantics arguments fuel arg state
  cases outcome with
  | value value =>
    simp only [andThen]
    obtain ⟨rest, _⟩ := evalArgs semantics arguments fuel args middle
    cases rest with
    | values values => rfl
    | stopped outcome => rfl
  | _ => rfl

variable (semantics arguments) in
structure ArgsLowered (args : List Air) (before : CfgBuilder) (values : Option (List CfgValue))
    (after : CfgBuilder) : Prop where
  grows : Grows before after
  diverged : values.isNone = Air.anyDiverges args
  ready : ∀ ids, values = some ids → after.Ready ∧ ∀ id ∈ ids, id < after.cfg.valueCount
  simulates : ∀ (pending : List BlockId) (cfg : Cfg) (fuel : Nat) (config : Config)
    (state : AirState) (final : CfgBuilder) (result : ExprResult)
    (next : List Scalar → AirState → Outcome × AirState),
    Completes pending after cfg → Aside pending before → LoopsEnter cfg before.loopStack →
    At config before → SameState config state →
    (∀ ids laterState last, values = some ids → At last after → SameState last laterState →
      Keeps before.cfg.valueCount config last →
      Realizes semantics arguments cfg after.cfg.valueCount before.loopStack final result fuel last
        (next (ids.map last.env) laterState)) →
    Realizes semantics arguments cfg before.cfg.valueCount before.loopStack final result fuel config
      (afterArgs (evalArgs semantics arguments fuel args state) next)

theorem argsLowered (lowersEach : ∀ arg ∈ args, Lowers semantics arguments needsDrop arg)
    (sound : Air.argsLowerSoundly args = true) (builder : CfgBuilder) (ready : builder.Ready)
    (inLoop : Air.anyEscapes args = true → builder.loopStack ≠ []) :
    ArgsLowered semantics arguments args builder (lowerArgs needsDrop args builder).1
      (lowerArgs needsDrop args builder).2 := by
  induction args generalizing builder with
  | nil =>
    refine ⟨.refl ready, rfl, fun ids isIds => ⟨ready, ?_⟩, ?_⟩
    · cases isIds
      intro id isMember
      cases isMember
    · intro pending cfg fuel config state final result next _ _ _ located same later
      exact later [] state config rfl located same (.refl _ _)
  | cons arg args restLowered =>
    simp only [Air.argsLowerSoundly, Bool.and_eq_true, Bool.or_eq_true] at sound
    obtain ⟨⟨argSound, argYields⟩, restSound⟩ := sound
    have lowered := lowersEach arg (.head _) argSound builder ready fun escapes =>
      inLoop (by simp [Air.anyEscapes, escapes])
    simp only [lowerArgs]
    generalize lowerInst needsDrop arg builder = run at lowered
    obtain ⟨_, middle⟩ := run
    rcases lowered.operand argYields with ⟨diverges, isNone⟩ | ⟨continues, undiverged, value, isValue, bound, isSome⟩
    · simp only [isNone]
      refine ⟨lowered.grows, ?_, fun ids isIds => (by cases isIds), ?_⟩
      · simp only [Air.anyDiverges, diverges, Bool.true_or]
        rfl
      · intro pending cfg fuel config state final result next completes aside loopsEnter located same _
        rw [afterArgs_cons]
        exact lowered.simulates_stop diverges completes aside loopsEnter located same
    simp only [isSome]
    have middleReady := lowered.ready undiverged
    rw [continues] at restSound
    have rest := restLowered (fun other isMember => lowersEach other (.tail _ isMember))
      (restSound.resolve_left Bool.false_ne_true) middle middleReady fun escapes => by
        rw [lowered.grows.loops]
        refine inLoop ?_
        simp [Air.anyEscapes, escapes, continues]
    generalize lowerArgs needsDrop args middle = run at rest
    obtain ⟨values, last⟩ := run
    suffices whole : ArgsLowered semantics arguments (arg :: args) builder (values.map (value :: ·)) last by
      cases values with
      | none => exact whole
      | some ids => exact whole
    refine ⟨lowered.grows.trans ready rest.grows, ?_, ?_, ?_⟩
    · rw [Option.isNone_map, rest.diverged]
      simp [Air.anyDiverges, continues]
    · intro _ isAll
      obtain ⟨ids, isIds, isCons⟩ := Option.map_eq_some_iff.mp isAll
      obtain ⟨lastReady, idsBound⟩ := rest.ready ids isIds
      refine ⟨lastReady, fun id isMember => ?_⟩
      rw [← isCons] at isMember
      rcases List.mem_cons.mp isMember with isFirst | isRest
      · rw [isFirst]
        exact Nat.lt_of_lt_of_le bound rest.grows.values
      · exact idsBound id isRest
    · intro pending cfg fuel config state final result next completes aside loopsEnter located same later
      rw [afterArgs_cons]
      refine Realizes.andThen lowered.grows.values
        (lowered.simulates pending cfg (completes.before rest.grows) aside loopsEnter fuel
          config state located same) ?_
      intro _ laterState position _ _ atPosition samePosition keepsFirst valued
      rw [← lowered.grows.loops] at loopsEnter later ⊢
      refine rest.simulates pending cfg fuel position laterState final result _ completes
        (aside.after lowered.grows) loopsEnter atPosition samePosition ?_
      intro ids finalState reached isIds atReached sameReached keeps
      have isAll : values.map (value :: ·) = some (value :: ids) :=
        Option.map_eq_some_iff.mpr ⟨ids, isIds, rfl⟩
      have whole := later (value :: ids) finalState reached isAll atReached sameReached
        (keepsFirst.trans lowered.grows.values keeps)
      rw [List.map_cons, keeps value bound, valued value isValue] at whole
      exact whole

theorem lowers_call (name : String) (ty : Ty) (lowersEach : ∀ arg ∈ args, Lowers semantics arguments needsDrop arg) :
    Lowers semantics arguments needsDrop (.call name args ty) := by
  intro sound builder ready inLoop
  have lowered := argsLowered lowersEach sound builder ready inLoop
  simp only [lowerInst]
  generalize lowerArgs needsDrop args builder = run at lowered
  obtain ⟨values, middle⟩ := run
  cases values with
  | none =>
    refine .leaves lowered.grows lowered.diverged.symm ?_
    intro pending cfg completes aside loopsEnter fuel config state located same
    refine lowered.simulates pending cfg fuel config state middle .divergence _ completes aside
      loopsEnter located same ?_
    intro ids _ _ isIds
    cases isIds
  | some ids =>
    obtain ⟨middleReady, idsBound⟩ := lowered.ready ids rfl
    have forgets : Quiet semantics arguments middle (middle.forgetConsumedValues needsDrop args) :=
      .forgetConsumedValues middleReady needsDrop args
    have growsEmit := grows_emit forgets.ready (.call name ids) ty
    refine .emitted ready (lowered.grows.trans ready forgets.grows) forgets.ready lowered.diverged.symm rfl ?_
    intro pending cfg completes aside loopsEnter fuel config state located same
    refine lowered.simulates pending cfg fuel config state _ _ _
      (completes.before (forgets.grows.trans middleReady growsEmit)) aside loopsEnter located
      same ?_
    intro _ laterState last isIds atLast sameLast _
    cases isIds
    have asideLast := aside.after lowered.grows
    refine Realizes.of_quiet forgets (completes.before growsEmit) asideLast atLast sameLast
      fun start atStart sameStart keeps => ?_
    have sameArgs : ids.map last.env = ids.map start.env :=
      List.map_congr_left fun id isMember => (keeps id (idsBound id isMember)).symm
    rw [sameArgs, ← sameStart.trace]
    let called : Config := { start with trace := start.trace ++ [⟨name, ids.map start.env⟩] }
    have sameCalled : SameState called { laterState with trace := start.trace ++ [⟨name, ids.map start.env⟩] } :=
      ⟨sameStart.locals, rfl⟩
    exact Realizes.defineOr forgets.ready completes (asideLast.after forgets.grows) atStart sameCalled rfl rfl rfl rfl

variable (semantics arguments) in
structure StatementsLowered (statements : List Air) (before : CfgBuilder) (stopped : Bool)
    (after : CfgBuilder) : Prop where
  grows : Grows before after
  diverged : stopped = Air.anyDiverges statements
  ready : stopped = false → after.Ready
  simulates : ∀ (pending : List BlockId) (cfg : Cfg), Completes pending after cfg →
    Aside pending before → LoopsEnter cfg before.loopStack →
    ∀ (fuel : Nat) (config : Config) (state : AirState), At config before → SameState config state →
      Realizes semantics arguments cfg before.cfg.valueCount before.loopStack after ⟨none, stopped⟩
        fuel config (evalStatements semantics arguments fuel statements state)

theorem statementsLowered (lowersEach : ∀ statement ∈ statements, Lowers semantics arguments needsDrop statement)
    (sound : Air.statementsLowerSoundly statements = true) (builder : CfgBuilder)
    (ready : builder.Ready) (inLoop : Air.anyEscapes statements = true → builder.loopStack ≠ []) :
    StatementsLowered semantics arguments statements builder (lowerStatements needsDrop statements builder).1
      (lowerStatements needsDrop statements builder).2 := by
  induction statements generalizing builder with
  | nil =>
    refine ⟨.refl ready, rfl, fun _ => ready, ?_⟩
    intro pending cfg _ _ _ fuel config state located same
    exact ⟨rfl, 0, config, .refl _, located, same, .refl _ _, fun id isValue => by cases isValue⟩
  | cons statement statements restLowered =>
    simp only [Air.statementsLowerSoundly, Bool.and_eq_true, Bool.or_eq_true] at sound
    obtain ⟨firstSound, restSound⟩ := sound
    have lowered := lowersEach statement (.head _) firstSound builder ready fun escapes =>
      inLoop (by simp [Air.anyEscapes, escapes])
    simp only [lowerStatements]
    generalize lowerInst needsDrop statement builder = run at lowered
    obtain ⟨first, middle⟩ := run
    by_cases diverged : first.diverged = true
    · have diverges := lowered.diverged.symm.trans diverged
      simp only [diverged, if_true]
      refine ⟨lowered.grows, ?_, fun continues => (by cases continues), ?_⟩
      · simp [Air.anyDiverges, diverges]
      · intro pending cfg completes aside loopsEnter fuel config state located same
        exact lowered.simulates_stop diverges completes aside loopsEnter located same
    · have undiverged : first.diverged = false := Bool.eq_false_iff.mpr diverged
      have continues := lowered.diverged.symm.trans undiverged
      simp only [undiverged, Bool.false_eq_true, if_false]
      have middleReady := lowered.ready undiverged
      rw [continues] at restSound
      have rest := restLowered (fun other isMember => lowersEach other (.tail _ isMember))
        (restSound.resolve_left Bool.false_ne_true) middle middleReady fun escapes => by
          rw [lowered.grows.loops]
          refine inLoop ?_
          simp [Air.anyEscapes, escapes, continues]
      refine ⟨lowered.grows.trans ready rest.grows, ?_, rest.ready, ?_⟩
      · rw [rest.diverged]
        simp [Air.anyDiverges, continues]
      · intro pending cfg completes aside loopsEnter fuel config state located same
        refine lowered.simulates_then rest.grows completes aside loopsEnter located same ?_
        intro _ laterState last _ _ atLast sameLast _ _
        rw [← lowered.grows.loops] at loopsEnter
        exact rest.simulates pending cfg completes (aside.after lowered.grows) loopsEnter fuel
          last laterState atLast sameLast

theorem Lowered.followedBy {expression : Air} {after : CfgBuilder} (ready : before.Ready)
    (lowered : Lowered semantics arguments expression before result middle)
    (grows : Grows middle after)
    (quiet : result.diverged = false → Quiet semantics arguments middle after) :
    Lowered semantics arguments expression before result after where
  grows := lowered.grows.trans ready grows
  diverged := lowered.diverged
  ready continues := (quiet continues).ready
  hasValue := lowered.hasValue
  valueBound id isValue := Nat.lt_of_lt_of_le (lowered.valueBound id isValue) grows.values
  simulates pending cfg completes aside loopsEnter fuel config state located same := by
    have simulated := lowered.simulates pending cfg (completes.before grows) aside loopsEnter fuel
      config state located same
    generalize eval semantics arguments fuel expression state = evaluated at simulated ⊢
    obtain ⟨outcome, _⟩ := evaluated
    cases outcome with
    | value value =>
      obtain ⟨continues, _, last, reaches, atLast, sameLast, keeps, valued⟩ := simulated
      obtain ⟨_, final, reachesFinal, atFinal, locals, trace, keepsFinal⟩ :=
        (quiet continues).runs pending cfg last completes (aside.after lowered.grows) atLast
      refine ⟨continues, _, final, reaches.trans reachesFinal, atFinal,
        ⟨locals.trans sameLast.locals, trace.trans sameLast.trace⟩,
        keeps.trans lowered.grows.values keepsFinal, fun id isValue => ?_⟩
      rw [keepsFinal id (lowered.valueBound id isValue)]
      exact valued id isValue
    | _ => exact simulated

theorem Lowered.scopeEnd (ready : before.Ready) (lowered : Lowered semantics arguments value before result middle) :
    Lowered semantics arguments value before result
      ((middle.forgetConsumedValue needsDrop value).popScope needsDrop result.diverged) := by
  obtain ⟨cfg, block, loops⟩ := sameCode_forgetConsumedValue middle needsDrop value
  have grows : Grows middle (middle.forgetConsumedValue needsDrop value) :=
    .of_sameCode lowered.grows.bound cfg block loops
  cases diverged : result.diverged with
  | true =>
    refine lowered.followedBy ready ?_ fun continues => ?_
    · unfold popScope
      split
      · exact grows
      · exact .of_sameCode lowered.grows.bound cfg block loops
    · rw [diverged] at continues
      cases continues
  | false =>
    have middleReady := lowered.ready diverged
    have forgets : Quiet semantics arguments middle (middle.forgetConsumedValue needsDrop value) :=
      .forgetConsumedValue middleReady needsDrop value
    have pops := forgets.trans middleReady (.popScope forgets.ready needsDrop false)
    exact lowered.followedBy ready pops.grows fun _ => pops

def afterStatements (needsDrop : Ty → Bool) (value : Air)
    (finish : ExprResult × CfgBuilder → CfgBuilder) : Bool × CfgBuilder → ExprResult × CfgBuilder
  | (true, middle) => (.divergence, middle)
  | (false, middle) =>
    ((lowerInst needsDrop value middle).1, finish (lowerInst needsDrop value middle))

theorem lowers_block (ty : Ty) (lowersEach : ∀ statement ∈ statements, Lowers semantics arguments needsDrop statement)
    (lowersValue : Lowers semantics arguments needsDrop value) :
    Lowers semantics arguments needsDrop (.block statements value ty) := by
  intro sound builder ready inLoop
  simp only [Air.lowersSoundly, Bool.and_eq_true, Bool.or_eq_true] at sound
  obtain ⟨statementsSound, valueSound⟩ := sound
  -- Both forms of the block: the statements in `opened`, then the value and quiet code after it.
  suffices whole : ∀ opened : CfgBuilder, Quiet semantics arguments builder opened →
      ∀ finish : ExprResult × CfgBuilder → CfgBuilder,
      (∀ before run, before.Ready → Lowered semantics arguments value before run.1 run.2 →
        Lowered semantics arguments value before run.1 (finish run)) →
      Lowered semantics arguments (.block statements value ty) builder
        (afterStatements needsDrop value finish (lowerStatements needsDrop statements opened)).1
        (afterStatements needsDrop value finish (lowerStatements needsDrop statements opened)).2 by
    rw [lowerInst]
    split
    · exact whole builder (.refl ready) Prod.snd fun _ _ _ lowered => lowered
    · exact whole builder.pushScope (.of_sameCode ready rfl rfl rfl)
        (fun run => (run.2.forgetConsumedValue needsDrop value).popScope needsDrop run.1.diverged)
        fun _ _ beforeReady lowered => lowered.scopeEnd beforeReady
  intro opened opens finish finished
  have lowered := statementsLowered lowersEach statementsSound opened opens.ready fun escapes => by
    rw [opens.grows.loops]
    exact inLoop (by simp [Air.escapes, escapes])
  generalize lowerStatements needsDrop statements opened = run at lowered
  obtain ⟨stopped, middle⟩ := run
  have growsMiddle := opens.grows.trans ready lowered.grows
  cases stopped with
  | true =>
    have diverges := lowered.diverged.symm
    refine .leaves growsMiddle (by simp [Air.diverges, diverges, Bool.true_or]) ?_
    intro pending cfg completes aside loopsEnter fuel config state located same
    refine Realizes.of_quiet opens (completes.before lowered.grows) aside located same
      fun start atStart sameStart _ => ?_
    rw [← opens.grows.loops] at loopsEnter ⊢
    refine Realizes.andThen (Nat.le_refl _)
      (lowered.simulates pending cfg completes (aside.after opens.grows) loopsEnter fuel start
        state atStart sameStart) ?_
    intro _ _ _ _ continues
    cases continues
  | false =>
    have continues := lowered.diverged.symm
    have middleReady := lowered.ready rfl
    rw [continues] at valueSound
    have valueLowered := lowersValue (valueSound.resolve_left Bool.false_ne_true) middle middleReady fun escapes => by
        rw [growsMiddle.loops]
        refine inLoop ?_
        simp [Air.escapes, escapes, continues]
    have last := finished middle _ middleReady valueLowered
    rw [afterStatements]
    refine ⟨growsMiddle.trans ready last.grows, ?_, last.ready, last.hasValue, last.valueBound, ?_⟩
    · rw [last.diverged]
      simp [Air.diverges, continues]
    · intro pending cfg completes aside loopsEnter fuel config state located same
      refine Realizes.of_quiet opens (completes.before (lowered.grows.trans opens.ready last.grows))
        aside located same fun start atStart sameStart _ => ?_
      rw [← opens.grows.loops] at loopsEnter ⊢
      refine Realizes.andThen lowered.grows.values
        (lowered.simulates pending cfg (completes.before last.grows) (aside.after opens.grows)
          loopsEnter fuel start state atStart sameStart) ?_
      intro _ laterState position _ _ atPosition samePosition _ _
      rw [← lowered.grows.loops] at loopsEnter ⊢
      exact last.simulates pending cfg completes (aside.after growsMiddle) loopsEnter fuel
        position laterState atPosition samePosition

end Sequences

end Gruel
