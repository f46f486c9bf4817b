import Gruel.CfgJoins

/-!
Soundness of lowering, continued: loops, and the whole function body.
-/

namespace Gruel

open Machine CfgBuilder

theorem ready_entryBuilder (liveParams : List LiveParam) : (entryBuilder liveParams).Ready :=
  ⟨Nat.one_pos, .inl rfl⟩

section Loops

variable {semantics : Semantics} {arguments : List Scalar} {needsDrop : Ty → Bool}
variable {exit : BlockId} {limit : Nat}
variable {closed source final : CfgBuilder}

structure Above (limit : Nat) (before after : CfgBuilder) : Prop where
  values : before.cfg.valueCount ≤ after.cfg.valueCount
  blocks : before.cfg.blockCount ≤ after.cfg.blockCount
  old : ∀ id, id < limit → after.cfg.blocks id = before.cfg.blocks id
  current : limit ≤ after.currentBlock
  entry : after.cfg.entry = before.cfg.entry

theorem Above.trans {first second third : CfgBuilder} (before : Above limit first second)
    (after : Above limit second third) :
    Above limit first third where
  values := Nat.le_trans before.values after.values
  blocks := Nat.le_trans before.blocks after.blocks
  old id bound := (after.old id bound).trans (before.old id bound)
  current := after.current
  entry := after.entry.trans before.entry

theorem Above.of_grows {before after : CfgBuilder} (grows : Grows before after)
    (fresh : limit ≤ before.currentBlock) (le : limit ≤ before.cfg.blockCount) :
    Above limit before after where
  values := grows.values
  blocks := grows.blocks
  old id bound := grows.others id (Nat.lt_of_lt_of_le bound le) (Nat.ne_of_lt (Nat.lt_of_lt_of_le bound fresh))
  current := by
    rcases grows.moved with same | moved
    · rw [same]
      exact fresh
    · exact Nat.le_trans le moved
  entry := grows.entry

theorem Above.startBlock {block : BlockId} {builder : CfgBuilder} (fresh : limit ≤ block) :
    Above limit builder (builder.startBlock block) :=
  ⟨Nat.le_refl _, Nat.le_refl _, fun _ _ => rfl, fresh, rfl⟩

theorem Realizes.afterBody {cfg : Cfg} {base bodyBase fuel count : Nat} {loop : LoopContext}
    {outer : List LoopContext} {bodyEnd : CfgBuilder} {bodyResult result : ExprResult}
    {config : Config} {evaluated : Outcome × AirState} {again : AirState → Outcome × AirState}
    (le : base ≤ bodyBase) (enough : count + 1 ≤ fuel)
    (bodyRuns : Realizes semantics arguments cfg bodyBase (loop :: outer) bodyEnd bodyResult fuel config evaluated)
    (repeats : ∀ last state, last.block = loop.header → last.pc = 0 → SameState last state →
      Realizes semantics arguments cfg base outer final result count last (again state))
    (leaves : ∀ last state, last.block = loop.exit → last.pc = 0 → SameState last state →
      Realizes semantics arguments cfg base outer final result count last (.value .unit, state))
    (closes : bodyResult.diverged = false → ∀ last, At last bodyEnd →
      step semantics arguments cfg last = .running { last with block := loop.header, pc := 0 }) :
    Realizes semantics arguments cfg base outer final result (count + 1) config (afterBody evaluated again) := by
  have weaken : ∀ {last : Config}, Keeps bodyBase config last → Keeps base config last :=
    fun keeps id bound => keeps id (Nat.lt_of_lt_of_le bound le)
  obtain ⟨outcome, state⟩ := evaluated
  cases outcome with
  | value value =>
    obtain ⟨continues, steps, last, reaches, atLast, same, keeps, _⟩ := bodyRuns
    have reachesHeader := reaches.trans (.single (closes continues last atLast))
    refine Realizes.after_steps reachesHeader (weaken keeps) (by omega) (repeats _ state rfl rfl ?_)
    exact ⟨same.locals, same.trace⟩
  | «continue» =>
    obtain ⟨_, _, isLoop, steps, last, positive, reaches, block, pc, same, keeps⟩ := bodyRuns
    obtain ⟨rfl, rfl⟩ := List.cons.inj isLoop
    exact Realizes.after_steps reaches (weaken keeps) (by omega) (repeats last state block pc same)
  | «break» =>
    obtain ⟨_, _, isLoop, steps, last, positive, reaches, block, pc, same, keeps⟩ := bodyRuns
    obtain ⟨rfl, rfl⟩ := List.cons.inj isLoop
    exact Realizes.after_steps reaches (weaken keeps) (by omega) (leaves last state block pc same)
  | returned value => exact bodyRuns
  | panic => exact bodyRuns
  | stuck => trivial
  | outOfFuel =>
    obtain ⟨steps, last, _, reaches, traces⟩ := bodyRuns
    exact ⟨steps, last, by omega, reaches, traces⟩

theorem eval_not_escaping {expression : Air} (lowers : Lowers semantics arguments needsDrop expression)
    (sound : expression.lowersSoundly = true) (contained : expression.escapes = false) (fuel : Nat)
    (state final : AirState) :
    eval semantics arguments fuel expression state ≠ (.break, final) ∧
      eval semantics arguments fuel expression state ≠ (.continue, final) := by
  have lowered := lowers sound (entryBuilder []) (ready_entryBuilder []) fun escapes => by
    rw [contained] at escapes
    cases escapes
  let start : Config :=
    { block := 0, pc := 0, env := fun _ => .unit, locals := state.locals, trace := state.trace }
  have runs := lowered.simulates [] (lowerInst needsDrop expression (entryBuilder [])).2.cfg
    (fun _ _ _ => .refl _) (fun _ isPending => by cases isPending)
    (fun _ isLoop => by cases isLoop) fuel start state ⟨rfl, rfl⟩ ⟨rfl, rfl⟩
  refine ⟨fun isBreak => ?_, fun isContinue => ?_⟩
  · rw [isBreak] at runs
    obtain ⟨_, _, isLoop, _⟩ := runs
    cases isLoop
  · rw [isContinue] at runs
    obtain ⟨_, _, isLoop, _⟩ := runs
    cases isLoop

theorem grows_above {ended : CfgBuilder} (ready : source.Ready) (grows : Grows source ended)
    (above : Above source.cfg.blockCount ended final) (loops : final.loopStack = source.loopStack)
    (bound : final.currentBlock < final.cfg.blockCount) : Grows source final where
  values := Nat.le_trans grows.values above.values
  blocks := Nat.le_trans grows.blocks above.blocks
  others id idBound other := (above.old id idBound).trans (grows.others id idBound other)
  filled := by
    rw [above.old _ ready.bound]
    exact grows.filled
  moved := .inr above.current
  bound := bound
  loops := loops
  entry := above.entry.trans grows.entry

structure LoopOpened (source ended entered : CfgBuilder) (loop : LoopContext)
    (ids : List BlockId) : Prop where
  grows : Grows source ended
  sameCode : entered.cfg = ended.cfg
  loops : entered.loopStack = loop :: source.loopStack
  above : Above source.cfg.blockCount ended entered
  ready : entered.Ready
  empty : entered.current = emptyBlock
  header : entered.currentBlock = loop.header
  fresh : ∀ id ∈ ids, source.cfg.blockCount ≤ id
  reserved : ∀ id ∈ ids, id ≠ loop.header → Reserved id emptyBlock entered

theorem loopOpened (ready : source.Ready) (count : Nat) {header : BlockId} (exit : BlockId)
    (isHeader : header ∈ (source.newBlocks count).1) :
    LoopOpened source ((source.newBlocks count).2.setTerminator (source.newBlocks count).2.currentBlock
        (.goto header []))
      ((source.newBlocks count).2.enterLoop header exit)
      ⟨header, exit, (source.newBlocks count).2.scopeStack.length⟩ (source.newBlocks count).1 := by
  have news := newBlocks_laidOut ready count
  have growsEnd := grows_terminate news.ready (.goto header [])
  have headerReserved := (news.reserved header isHeader).after growsEnd
  have started := headerReserved.ready emptyBlock_open
  exact {
    grows := news.grows.trans ready growsEnd
    sameCode := rfl
    loops := congrArg (List.cons _) news.grows.loops
    above := ⟨Nat.le_refl _, Nat.le_refl _, fun _ _ => rfl, news.fresh header isHeader, rfl⟩
    ready := ⟨started.bound, started.isOpen⟩
    empty := headerReserved.content
    header := rfl
    fresh := news.fresh
    reserved := fun id isId other =>
      let reserved := (news.reserved id isId).after growsEnd
      ⟨reserved.bound, other, reserved.content⟩ }

variable (semantics arguments) in
def EntersLoop (source ended : CfgBuilder) (header : BlockId) : Prop :=
  ∀ (pending : List BlockId) (cfg : Cfg) (config : Config), Completes pending ended cfg →
    Aside pending source → At config source → (cfg.blocks header).params = [] →
    step semantics arguments cfg config = .running { config with block := header, pc := 0 }

theorem entersLoop (ready : source.Ready) (count : Nat) (header : BlockId) : EntersLoop semantics arguments source
      ((source.newBlocks count).2.setTerminator (source.newBlocks count).2.currentBlock
        (.goto header [])) header := by
  intro _ cfg config completes aside located enters
  have news := newBlocks_laidOut ready count
  have steps : step semantics arguments cfg config = jump cfg config header [] :=
    step_terminate news.ready rfl completes (aside.after news.grows) (news.same.located located)
  exact steps.trans (jump_nil config enters)

variable (semantics arguments) in
structure BodyClosed (header : BlockId) (opened bodyEnd : CfgBuilder) (result : ExprResult)
    (closed : CfgBuilder) : Prop where
  grows : Grows opened closed
  completes : ∀ pending cfg, Completes pending closed cfg → Completes pending bodyEnd cfg
  closes : ∀ pending cfg, Completes pending closed cfg → Aside pending opened →
    (cfg.blocks header).params = [] → result.diverged = false → ∀ last, At last bodyEnd →
    step semantics arguments cfg last = .running { last with block := header, pc := 0 }

theorem bodyClosed {body : Air} {header : BlockId} {opened bodyEnd : CfgBuilder}
    {result : ExprResult} (ready : opened.Ready)
    (lowered : Lowered semantics arguments body opened result bodyEnd) :
    BodyClosed semantics arguments header opened bodyEnd result (closeBody header (result, bodyEnd)) := by
  unfold closeBody
  by_cases diverged : result.diverged = true
  · simp only [diverged, if_true]
    refine ⟨lowered.grows, fun _ _ completes => completes, ?_⟩
    intro pending cfg _ _ _ continues
    rw [diverged] at continues
    cases continues
  · have continues : result.diverged = false := Bool.eq_false_iff.mpr diverged
    simp only [continues, Bool.false_eq_true, if_false]
    have bodyReady := lowered.ready continues
    have growsGoto := grows_terminate bodyReady (.goto header [])
    refine ⟨lowered.grows.trans ready growsGoto, fun _ _ completes => completes.before growsGoto, ?_⟩
    intro pending cfg completes aside enters _ last atLast
    have steps : step semantics arguments cfg last = jump cfg last header [] :=
      step_terminate bodyReady rfl completes (aside.after lowered.grows) atLast
    exact steps.trans (jump_nil last enters)

variable (semantics arguments) in
structure LoopLeft (exit : BlockId) (closed after : CfgBuilder) (unit : CfgValue) : Prop where
  ready : after.Ready
  valueBound : unit < after.cfg.valueCount
  above : ∀ limit, limit ≤ exit → Above limit closed after
  loops : after.loopStack = closed.loopStack.tail
  completes : ∀ pending cfg, Completes pending after cfg → Completes pending closed cfg
  leaves : ∀ pending cfg base count loops last state, Completes pending after cfg →
    Aside pending (closed.startBlock exit) → base ≤ closed.cfg.valueCount → last.block = exit →
    last.pc = 0 → SameState last state →
    Realizes semantics arguments cfg base loops after (.continues (some unit)) count last (.value .unit, state)

theorem loopLeft {exited : CfgBuilder} (bound : exit < closed.cfg.blockCount) (ready : exited.Ready)
    (grows : Grows (closed.popLoop.startBlock exit) exited) (block : exited.currentBlock = exit)
    (insts : exited.current.insts = []) :
    LoopLeft semantics arguments exit closed (exited.emit (.const 0) .unit).2 exited.cfg.valueCount := by
  have growsEmit := grows_emit ready (.const 0) .unit
  refine {
    ready := ready_emit ready _ _
    valueBound := Nat.lt_succ_self _
    above := ?above
    loops := growsEmit.loops.trans grows.loops
    completes := ?completes
    leaves := ?leaves }
  case completes =>
    intro pending cfg completes
    have exitCompletes : Completes pending (closed.popLoop.startBlock exit) cfg :=
      (completes.before growsEmit).before grows
    exact exitCompletes
  case above =>
    intro limit fresh
    have started : Above limit closed (closed.popLoop.startBlock exit) :=
      ⟨Nat.le_refl _, Nat.le_refl _, fun _ _ => rfl, fresh, rfl⟩
    have le : limit ≤ closed.cfg.blockCount := Nat.le_trans fresh (Nat.le_of_lt bound)
    have filled : Above limit (closed.popLoop.startBlock exit) exited := .of_grows grows fresh le
    exact (started.trans filled).trans (.of_grows growsEmit filled.current (Nat.le_trans le grows.blocks))
  case leaves =>
    intro pending cfg _ _ loops last _ completes aside le isExit isStart same
    have atExit : At last exited := by
      refine ⟨isExit.trans block.symm, ?_⟩
      rw [insts, isStart]
      rfl
    refine Realizes.base_le (Nat.le_trans le grows.values) ?_
    exact Realizes.define ready completes (Aside.after grows aside) atExit same rfl

theorem ready_exit (reserved : Reserved exit emptyBlock closed) : (closed.popLoop.startBlock exit).Ready := by
  have started := reserved.ready emptyBlock_open
  exact ⟨started.bound, started.isOpen⟩

theorem loopLeft_open (reserved : Reserved exit emptyBlock closed) : LoopLeft semantics arguments exit closed
      ((closed.popLoop.startBlock exit).emit (.const 0) .unit).2 closed.cfg.valueCount :=
  loopLeft reserved.bound (ready_exit reserved) (.refl (ready_exit reserved)) rfl
    (congrArg BasicBlock.insts reserved.content)

theorem loopLeft_unreachable (reserved : Reserved exit emptyBlock closed) : LoopLeft semantics arguments exit closed
      (((closed.popLoop.startBlock exit).setTerminator exit .unreachable).emit (.const 0) .unit).2
      closed.cfg.valueCount := by
  have ready := ready_exit reserved
  have content := current_terminate (closed.popLoop.startBlock exit) .unreachable
  refine loopLeft reserved.bound ⟨ready.bound, ?_⟩ (grows_terminate ready .unreachable) rfl ?_
  · refine .inr ?_
    exact congrArg BasicBlock.terminator content
  · refine (congrArg BasicBlock.insts content).trans ?_
    exact congrArg BasicBlock.insts reserved.content

section Opened

variable {source ended entered closed after : CfgBuilder} {loop : LoopContext} {ids : List BlockId} {unit : CfgValue}

variable {cfg : Cfg} {result : ExprResult}
variable {pending : List BlockId} {config : Config} {body : Air} {bodyEnd : CfgBuilder}

theorem LoopOpened.aside (opened : LoopOpened source ended entered loop ids)
    (aside : Aside pending source) : Aside pending entered := by
  intro id isPending
  have bound := (aside id isPending).1
  exact ⟨Nat.lt_of_lt_of_le bound (Nat.le_trans opened.grows.blocks opened.above.blocks),
    Nat.ne_of_lt (Nat.lt_of_lt_of_le bound opened.above.current)⟩

theorem LoopOpened.headerEnters (opened : LoopOpened source ended entered loop ids)
    (aside : Aside pending source) (completes : Completes pending entered cfg) :
    (cfg.blocks loop.header).params = [] := by
  have within := completes.current (opened.aside aside) opened.ready.bound
  rw [opened.empty, opened.header] at within
  exact within.params_eq.symm

theorem LoopOpened.ended_completes (opened : LoopOpened source ended entered loop ids)
    (completes : Completes pending entered cfg) : Completes pending ended cfg := by
  intro id bound notPending
  have within := completes id (opened.sameCode ▸ bound) notPending
  rw [opened.sameCode] at within
  exact within

theorem LoopOpened.located (opened : LoopOpened source ended entered loop ids)
    (block : config.block = loop.header) (pc : config.pc = 0) : At config entered := by
  refine ⟨block.trans opened.header.symm, ?_⟩
  rw [opened.empty, pc]
  rfl

theorem LoopOpened.grows_left {closed after : CfgBuilder} (ready : source.Ready)
    (opened : LoopOpened source ended entered loop ids)
    (aboveBody : Above source.cfg.blockCount entered closed)
    (bodyLoops : closed.loopStack = entered.loopStack)
    (left : LoopLeft semantics arguments loop.exit closed after unit)
    (fresh : source.cfg.blockCount ≤ loop.exit) : Grows source after := by
  refine grows_above ready opened.grows ((opened.above.trans aboveBody).trans (left.above _ fresh)) ?_
    left.ready.bound
  rw [left.loops, bodyLoops, opened.loops]
  rfl

theorem LoopOpened.loopsEnter (opened : LoopOpened source ended entered loop ids)
    (headerEnters : (cfg.blocks loop.header).params = [])
    (exitEnters : (cfg.blocks loop.exit).params = [])
    (loopsEnter : LoopsEnter cfg source.loopStack) : LoopsEnter cfg entered.loopStack := by
  rw [opened.loops]
  intro other isLoop
  rcases List.mem_cons.mp isLoop with rfl | isOuter
  · exact ⟨headerEnters, exitEnters⟩
  · exact loopsEnter other isOuter

theorem infiniteLoop_lowered (ready : source.Ready) (opened : LoopOpened source ended entered loop ids)
    (enters : EntersLoop semantics arguments source ended loop.header)
    (lowered : Lowered semantics arguments body entered result bodyEnd)
    (bodyClosed : BodyClosed semantics arguments loop.header entered bodyEnd result closed)
    (exitReserved : Reserved loop.exit emptyBlock closed)
    (exitFresh : source.cfg.blockCount ≤ loop.exit)
    (left : LoopLeft semantics arguments loop.exit closed after unit) :
    Lowered semantics arguments (.infiniteLoop body) source (.continues (some unit)) after := by
  have aboveBody : Above source.cfg.blockCount entered closed :=
    .of_grows bodyClosed.grows opened.above.current (Nat.le_trans opened.grows.blocks opened.above.blocks)
  refine ⟨opened.grows_left ready aboveBody bodyClosed.grows.loops left exitFresh, rfl,
    fun _ => left.ready, fun _ => rfl, ?_, ?_⟩
  · intro id isUnit
    rw [← Option.some.inj isUnit]
    exact left.valueBound
  intro pending cfg completes aside loopsEnter fuel config state located same
  have closedCompletes := left.completes pending cfg completes
  have enteredCompletes := closedCompletes.before bodyClosed.grows
  have asideEntered := opened.aside aside
  have headerEnters := opened.headerEnters aside enteredCompletes
  have exitEnters := closedCompletes.params_eq exitReserved (aside.not_mem_of_le exitFresh)
  have asideExit : Aside pending (closed.startBlock loop.exit) := fun id isPending =>
    ⟨(asideEntered.after bodyClosed.grows id isPending).1,
      Nat.ne_of_lt (Nat.lt_of_lt_of_le (aside id isPending).1 exitFresh)⟩
  have valuesLe : source.cfg.valueCount ≤ entered.cfg.valueCount :=
    Nat.le_trans opened.grows.values opened.above.values
  have iterate : ∀ count, count ≤ fuel → ∀ (start : Config) (startState : AirState),
      start.block = loop.header → start.pc = 0 → SameState start startState →
      Realizes semantics arguments cfg source.cfg.valueCount source.loopStack after
        (.continues (some unit)) count start
        (runForever (eval semantics arguments fuel body) count startState) := by
    intro count
    induction count with
    | zero =>
      intro _ start startState _ _ sameStart
      exact ⟨0, start, Nat.le_refl _, .refl _, sameStart.trace⟩
    | succ count again =>
      intro enough start startState isHeader isStart sameStart
      have bodyRuns := lowered.simulates pending cfg (bodyClosed.completes pending cfg closedCompletes) asideEntered
        (opened.loopsEnter headerEnters exitEnters loopsEnter) fuel start startState
        (opened.located isHeader isStart) sameStart
      rw [opened.loops] at bodyRuns
      refine Realizes.afterBody valuesLe enough bodyRuns (again (Nat.le_of_succ_le enough)) ?_
        (bodyClosed.closes pending cfg closedCompletes asideEntered headerEnters)
      intro last lastState isExit lastStart sameLast
      exact left.leaves pending cfg _ count _ last lastState completes asideExit
        (Nat.le_trans valuesLe aboveBody.values) isExit lastStart sameLast
  have endedCompletes := opened.ended_completes enteredCompletes
  refine .of_reaches (.single (enters pending cfg config endedCompletes aside located headerEnters)) (.refl _ _) ?_
  exact iterate fuel (Nat.le_refl _) _ state rfl rfl ⟨same.locals, same.trace⟩

theorem Realizes.unescaped {base laterBase fuel wanted : Nat} {loops otherLoops : List LoopContext}
    {finish : CfgBuilder} {evaluated : Outcome × AirState} (le : base ≤ laterBase)
    (enough : wanted ≤ fuel)
    (contained : ∀ final, evaluated ≠ (.break, final) ∧ evaluated ≠ (.continue, final))
    (runs : Realizes semantics arguments cfg laterBase loops finish result fuel config evaluated) :
    Realizes semantics arguments cfg base otherLoops finish result wanted config evaluated := by
  have weakened := (runs.base_le le).after_steps (.refl _) (.refl _ _) (Nat.le_trans enough (Nat.le_add_left _ 0))
  obtain ⟨outcome, state⟩ := evaluated
  cases outcome with
  | «break» => exact absurd rfl (contained state).1
  | «continue» => exact absurd rfl (contained state).2
  | _ => exact weakened

theorem loop_lowered {cond : Air} {bodyBlock : BlockId} {decision : CfgValue} {condEnd : CfgBuilder}
    {condResult : ExprResult} (ready : source.Ready)
    (opened : LoopOpened source ended entered loop ids)
    (enters : EntersLoop semantics arguments source ended loop.header)
    (condLowered : Lowered semantics arguments cond entered condResult condEnd)
    (condContinues : condResult.diverged = false) (isDecision : condResult.value = some decision)
    (contained : ∀ fuel state final, eval semantics arguments fuel cond state ≠ (.break, final) ∧
        eval semantics arguments fuel cond state ≠ (.continue, final)) (isBody : bodyBlock ∈ ids)
    (bodyHeader : bodyBlock ≠ loop.header) (isExit : loop.exit ∈ ids)
    (exitHeader : loop.exit ≠ loop.header) (exitBody : loop.exit ≠ bodyBlock)
    (lowered : Lowered semantics arguments body ((condEnd.setTerminator condEnd.currentBlock
        (.branch decision bodyBlock [] loop.exit [])).startBlock bodyBlock) result bodyEnd)
    (bodyClosed : BodyClosed semantics arguments loop.header ((condEnd.setTerminator condEnd.currentBlock
        (.branch decision bodyBlock [] loop.exit [])).startBlock bodyBlock) bodyEnd result closed)
    (left : LoopLeft semantics arguments loop.exit closed after unit) :
    Lowered semantics arguments (.loop cond body) source (.continues (some unit)) after := by
  have condReady := condLowered.ready condContinues
  have growsBranch := grows_terminate condReady (.branch decision bodyBlock [] loop.exit [])
  have exitFresh := opened.fresh loop.exit isExit
  have bodyFresh := opened.fresh bodyBlock isBody
  have sourceLe := Nat.le_trans opened.grows.blocks opened.above.blocks
  have aboveCond : Above source.cfg.blockCount entered condEnd :=
    .of_grows condLowered.grows opened.above.current sourceLe
  have condLe := Nat.le_trans sourceLe aboveCond.blocks
  have aboveBranch := aboveCond.trans (.of_grows growsBranch aboveCond.current condLe)
  have aboveClosed : Above source.cfg.blockCount entered closed :=
    (aboveBranch.trans (.startBlock bodyFresh)).trans
      (.of_grows bodyClosed.grows bodyFresh (Nat.le_trans sourceLe aboveBranch.blocks))
  have closedLoops : closed.loopStack = entered.loopStack :=
    bodyClosed.grows.loops.trans condLowered.grows.loops
  have bodyReserved :=
    ((opened.reserved bodyBlock isBody bodyHeader).after condLowered.grows).after growsBranch
  have exitReserved :=
    ((((opened.reserved loop.exit isExit exitHeader).after condLowered.grows).after
      growsBranch).startBlock exitBody).after bodyClosed.grows
  refine ⟨opened.grows_left ready aboveClosed closedLoops left exitFresh, rfl,
    fun _ => left.ready, fun _ => rfl, ?_, ?_⟩
  · intro id isUnit
    rw [← Option.some.inj isUnit]
    exact left.valueBound
  intro pending cfg completes aside loopsEnter fuel config state located same
  have closedCompletes := left.completes pending cfg completes
  have bodyCompletes := closedCompletes.before bodyClosed.grows
  have branchCompletes : Completes pending (condEnd.setTerminator condEnd.currentBlock
      (.branch decision bodyBlock [] loop.exit [])) cfg := bodyCompletes
  have enteredCompletes := (branchCompletes.before growsBranch).before condLowered.grows
  have asideEntered := opened.aside aside
  have asideCond := asideEntered.after condLowered.grows
  have asideBlock : ∀ block, source.cfg.blockCount ≤ block → ∀ builder : CfgBuilder,
      source.cfg.blockCount ≤ builder.cfg.blockCount →
      Aside pending (builder.startBlock block) := by
    intro block fresh builder le id isPending
    have bound := (aside id isPending).1
    exact ⟨Nat.lt_of_lt_of_le bound le, Nat.ne_of_lt (Nat.lt_of_lt_of_le bound fresh)⟩
  have headerEnters := opened.headerEnters aside enteredCompletes
  have exitEnters := closedCompletes.params_eq exitReserved (aside.not_mem_of_le exitFresh)
  have bodyEnters := branchCompletes.params_eq bodyReserved (aside.not_mem_of_le bodyFresh)
  have loopsEnterInside := opened.loopsEnter headerEnters exitEnters loopsEnter
  have valuesLe : source.cfg.valueCount ≤ entered.cfg.valueCount :=
    Nat.le_trans opened.grows.values opened.above.values
  have leaves : ∀ count last lastState, last.block = loop.exit → last.pc = 0 → SameState last lastState →
      Realizes semantics arguments cfg source.cfg.valueCount source.loopStack after
        (.continues (some unit)) count last (.value .unit, lastState) := by
    intro count last lastState isThere isStart sameLast
    exact left.leaves pending cfg _ count _ last lastState completes
      (asideBlock loop.exit exitFresh closed (Nat.le_trans sourceLe aboveClosed.blocks))
      (Nat.le_trans valuesLe aboveClosed.values) isThere isStart sameLast
  have iterate : ∀ count, count ≤ fuel → ∀ (start : Config) (startState : AirState),
      start.block = loop.header → start.pc = 0 → SameState start startState →
      Realizes semantics arguments cfg source.cfg.valueCount source.loopStack after
        (.continues (some unit)) count start
        (runWhile (eval semantics arguments fuel cond) (eval semantics arguments fuel body) count startState) := by
    intro count
    induction count with
    | zero =>
      intro _ start startState _ _ sameStart
      exact ⟨0, start, Nat.le_refl _, .refl _, sameStart.trace⟩
    | succ count again =>
      intro enough start startState isHeader isStart sameStart
      have condRuns := condLowered.simulates pending cfg (branchCompletes.before growsBranch)
        asideEntered loopsEnterInside fuel start startState (opened.located isHeader isStart)
        sameStart
      refine Realizes.andThen (Nat.le_refl _) (condRuns.unescaped valuesLe enough (contained fuel startState)) ?_
      intro value laterState last _ _ atLast sameLast _ valued
      have steps : step semantics arguments cfg last =
          execTerminator cfg last (.branch decision bodyBlock [] loop.exit []) :=
        step_terminate condReady rfl branchCompletes asideCond atLast
      simp only [execTerminator, valued decision isDecision] at steps
      cases decided : value.asBool with
      | none => trivial
      | some isTrue =>
        rw [decided] at steps
        cases isTrue with
        | false =>
          refine Realizes.of_reaches (.single (steps.trans (jump_nil last exitEnters))) (.refl _ _) ?_
          exact leaves _ _ laterState rfl rfl ⟨sameLast.locals, sameLast.trace⟩
        | true =>
          refine Realizes.of_reaches (.single (steps.trans (jump_nil last bodyEnters))) (.refl _ _) ?_
          have sameBody : SameState { last with block := bodyBlock, pc := 0 } laterState :=
            ⟨sameLast.locals, sameLast.trace⟩
          have bodyRuns := lowered.simulates pending cfg (bodyClosed.completes pending cfg closedCompletes)
            (asideBlock bodyBlock bodyFresh _ (Nat.le_trans sourceLe aboveBranch.blocks))
            (condLowered.grows.loops ▸ loopsEnterInside) fuel _ laterState
            (at_start (congrArg BasicBlock.insts bodyReserved.content) rfl rfl) sameBody
          have insideLoops : ((condEnd.setTerminator condEnd.currentBlock
              (.branch decision bodyBlock [] loop.exit [])).startBlock bodyBlock).loopStack =
                loop :: source.loopStack := condLowered.grows.loops.trans opened.loops
          rw [insideLoops] at bodyRuns
          exact Realizes.afterBody (Nat.le_trans valuesLe aboveBranch.values) enough bodyRuns
            (again (Nat.le_of_succ_le enough)) (leaves count)
            (bodyClosed.closes pending cfg closedCompletes
              (asideBlock bodyBlock bodyFresh _ (Nat.le_trans sourceLe aboveBranch.blocks))
              headerEnters)
  have endedCompletes := opened.ended_completes enteredCompletes
  refine .of_reaches (.single (enters pending cfg config endedCompletes aside located headerEnters)) (.refl _ _) ?_
  exact iterate fuel (Nat.le_refl _) _ state rfl rfl ⟨same.locals, same.trace⟩

end Opened

theorem lowers_infiniteLoop {body : Air} (lowersBody : Lowers semantics arguments needsDrop body) :
    Lowers semantics arguments needsDrop (.infiniteLoop body) := by
  intro sound builder ready _
  have opened := loopOpened ready 2 builder.newBlock.2.newBlock.1
    (List.mem_cons_self : builder.newBlock.1 ∈ (builder.newBlocks 2).1)
  have lowered := lowersBody sound _ opened.ready fun _ => by
    exact List.cons_ne_nil _ _
  have closed := @bodyClosed semantics arguments body builder.newBlock.1 _ _ _ opened.ready lowered
  have exitReserved := (opened.reserved builder.newBlock.2.newBlock.1
    (List.mem_cons_of_mem _ (.head _)) (Nat.ne_of_gt (Nat.lt_succ_self _))).after
    closed.grows
  exact infiniteLoop_lowered ready opened (entersLoop ready 2 _) lowered closed exitReserved
    (Nat.le_succ _) (loopLeft_unreachable exitReserved)

theorem lowers_loop {cond body : Air} (lowersCond : Lowers semantics arguments needsDrop cond)
    (lowersBody : Lowers semantics arguments needsDrop body) :
    Lowers semantics arguments needsDrop (.loop cond body) := by
  intro sound builder ready _
  simp only [Air.lowersSoundly, Bool.and_eq_true, Bool.not_eq_true'] at sound
  obtain ⟨⟨⟨⟨condSound, condValued⟩, condContinues⟩, condContained⟩, bodySound⟩ := sound
  have opened := loopOpened ready 3 builder.newBlock.2.newBlock.2.newBlock.1
    (List.mem_cons_self : builder.newBlock.1 ∈ (builder.newBlocks 3).1)
  have condLowered := lowersCond condSound _ opened.ready fun _ => by
    exact List.cons_ne_nil _ _
  have contained := eval_not_escaping lowersCond condSound condContained
  have isBody : builder.newBlock.2.newBlock.1 ∈ (builder.newBlocks 3).1 :=
    List.mem_cons_of_mem _ (.head _)
  have isExit : builder.newBlock.2.newBlock.2.newBlock.1 ∈ (builder.newBlocks 3).1 :=
    List.mem_cons_of_mem _ (List.mem_cons_of_mem _ (.head _))
  have bodyHeader : builder.newBlock.2.newBlock.1 ≠ builder.newBlock.1 :=
    Nat.ne_of_gt (Nat.lt_succ_self _)
  have exitBody : builder.newBlock.2.newBlock.2.newBlock.1 ≠ builder.newBlock.2.newBlock.1 :=
    Nat.ne_of_gt (Nat.lt_succ_self _)
  have exitHeader : builder.newBlock.2.newBlock.2.newBlock.1 ≠ builder.newBlock.1 :=
    Nat.ne_of_gt (Nat.lt_succ_of_lt (Nat.lt_succ_self _))
  rcases condLowered.operand (by simp [Air.yields, condValued, Bool.or_true]) with
    ⟨condDiverges, _⟩ | ⟨_, undiverged, decision, isDecision, _, isSome⟩
  · rw [condContinues] at condDiverges
    cases condDiverges
  have growsBranch := grows_terminate (condLowered.ready undiverged)
    (.branch decision builder.newBlock.2.newBlock.1 [] builder.newBlock.2.newBlock.2.newBlock.1 [])
  have bodyReserved :=
    ((opened.reserved _ isBody bodyHeader).after condLowered.grows).after growsBranch
  have exitReserved :=
    ((opened.reserved _ isExit exitHeader).after condLowered.grows).after growsBranch
  have bodyReady := bodyReserved.ready emptyBlock_open
  have insideLoops := growsBranch.loops.trans (condLowered.grows.loops.trans opened.loops)
  have lowered := lowersBody bodySound _ bodyReady fun _ isNil =>
    List.cons_ne_nil _ _ (insideLoops.symm.trans isNil)
  have closed := @bodyClosed semantics arguments body builder.newBlock.1 _ _ _ bodyReady lowered
  have left : LoopLeft semantics arguments _ _ _ _ :=
    loopLeft_open ((exitReserved.startBlock exitBody).after closed.grows)
  have whole := loop_lowered ready opened (entersLoop ready 3 _) condLowered undiverged isDecision
    contained isBody bodyHeader isExit exitHeader exitBody lowered closed left
  have isRun : lowerValue (lowerInst needsDrop cond
      (CfgBuilder.enterLoop builder.newBlock.2.newBlock.2.newBlock.2 builder.newBlock.1
        builder.newBlock.2.newBlock.2.newBlock.1)) = (some decision, _) := isSome
  simp only [lowerInst, isRun]
  exact whole

end Loops

section Bodies

variable (semantics : Semantics) (arguments : List Scalar) (needsDrop : Ty → Bool)

mutual

theorem lowers : (expression : Air) → Lowers semantics arguments needsDrop expression
  | .const value ty => lowers_const value ty
  | .boolConst value => lowers_boolConst value
  | .unitConst => lowers_unitConst
  | .param index ty => lowers_param index ty
  | .bin op lhs rhs ty => lowers_bin op ty (lowers lhs) (lowers rhs)
  | .logic op lhs rhs => lowers_logic op (lowers lhs) (lowers rhs)
  | .unary op operand ty => lowers_unary op ty (lowers operand)
  | .alloc slot init => lowers_alloc slot (lowers init)
  | .load slot ty => lowers_load slot ty
  | .store slot value hadLiveValue => lowers_store slot hadLiveValue (lowers value)
  | .call name args ty => lowers_call name ty (lowersAll args)
  | .block statements value ty => lowers_block ty (lowersAll statements) (lowers value)
  | .branch cond thenValue none ty => lowers_branch_none ty (lowers cond) (lowers thenValue)
  | .branch cond thenValue (some elseValue) ty =>
    lowers_branch_some ty (lowers cond) (lowers thenValue) (lowers elseValue)
  | .loop cond body => lowers_loop (lowers cond) (lowers body)
  | .infiniteLoop body => lowers_infiniteLoop (lowers body)
  | .match scrutinee arms ty => lowers_match ty (lowers scrutinee) (lowersArms arms)
  | .break => lowers_loopExit (.inl rfl)
  | .continue => lowers_loopExit (.inr rfl)
  | .ret none => lowers_ret_none
  | .ret (some value) => lowers_ret_some (lowers value)
  | .storageLive slot ty => lowers_storageLive slot ty
  | .storageDead slot => lowers_storageDead slot

theorem lowersAll : (expressions : List Air) →
    ∀ expression ∈ expressions, Lowers semantics arguments needsDrop expression
  | [] => fun _ isMember => by cases isMember
  | first :: rest => List.forall_mem_cons.mpr ⟨lowers first, lowersAll rest⟩

theorem lowersArms : (arms : List (MatchPattern × Air)) → ∀ arm ∈ arms, Lowers semantics arguments needsDrop arm.2
  | [] => fun _ isMember => by cases isMember
  | (_, body) :: rest => List.forall_mem_cons.mpr ⟨lowers body, lowersArms rest⟩

end

def SameBehaviour (cfg : Cfg) (fuel : Nat) : Outcome × AirState → Prop
  | (.returned value, state) =>
    Halts (step semantics arguments cfg) (initialConfig cfg) (.returned value state.trace)
  | (.panic, state) =>
    Halts (step semantics arguments cfg) (initialConfig cfg) (.panicked state.trace)
  | (.value _, _) => Halts (step semantics arguments cfg) (initialConfig cfg) .stuck
  | (.outOfFuel, state) =>
    ∃ count last, fuel ≤ count ∧ Reaches (step semantics arguments cfg) count (initialConfig cfg) last ∧
      last.trace = state.trace
  | (.break, _) | (.continue, _) => False
  | (.stuck, _) => True

def initialState : AirState := ⟨fun _ => .unit, []⟩

/-- The graph of a function does what its body evaluates to, for every input. -/
def MeaningPreserved (slotCount : Ty → Nat) (func : AnalyzedFunction) : Prop :=
  ∀ (semantics : Semantics) (arguments : List Scalar) (fuel : Nat),
    SameBehaviour semantics arguments (build needsDrop slotCount func) fuel
      (eval semantics arguments fuel func.root initialState)

variable {semantics arguments needsDrop}

theorem lowerInst_entry {expression : Air} (liveParams : List LiveParam)
    (sound : expression.lowersSoundly = true) (contained : expression.escapes = false) :
    Lowered semantics arguments expression (entryBuilder liveParams)
      (lowerInst needsDrop expression (entryBuilder liveParams)).1
      (lowerInst needsDrop expression (entryBuilder liveParams)).2 :=
  lowers semantics arguments needsDrop expression sound _ (ready_entryBuilder liveParams) fun escapes => by
      rw [contained] at escapes
      cases escapes

theorem step_stuck {builder : CfgBuilder} {config : Config} (ready : builder.Ready) (located : At config builder) :
    step semantics arguments builder.cfg config = .halted .stuck := by
  have isBlock : builder.cfg.blocks config.block = builder.current := by rw [located.block]; rfl
  rw [step_of_terminator isBlock located.pc]
  rcases ready.isOpen with isNone | isUnreachable
  · rw [isNone]
    rfl
  · rw [isUnreachable]
    rfl

end Bodies

/-- A body without a diverging right operand of `&&` or `||`, without a diverging initialiser,
without a `while` condition that diverges or leaves the condition, and without an operand that has
no value, is lowered to a graph of the same meaning. -/
theorem meaningPreserved_of_lowersSoundly (needsDrop : Ty → Bool) (slotCount : Ty → Nat)
    (func : AnalyzedFunction) (sound : func.root.lowersSoundly = true)
    (contained : func.root.escapes = false) : MeaningPreserved needsDrop slotCount func := by
  intro semantics arguments fuel
  let liveParams :=
    if func.isDestructor then [] else ownedParams needsDrop slotCount 0 0 func.paramSlots
  have lowered : Lowered semantics arguments func.root (entryBuilder liveParams)
      (lowerInst needsDrop func.root (entryBuilder liveParams)).1
      (lowerInst needsDrop func.root (entryBuilder liveParams)).2 :=
    lowerInst_entry liveParams sound contained
  have atEntry : At (initialConfig (build needsDrop slotCount func)) (entryBuilder liveParams) :=
    ⟨lowered.grows.entry, rfl⟩
  have runs := lowered.simulates [] (build needsDrop slotCount func) (fun _ _ _ => .refl _)
    (fun _ isPending => by cases isPending) (fun _ isLoop => by cases isLoop) fuel _ initialState
    atEntry ⟨rfl, rfl⟩
  generalize eval semantics arguments fuel func.root initialState = evaluated at runs
  obtain ⟨outcome, _⟩ := evaluated
  cases outcome with
  | value value =>
    obtain ⟨continues, count, last, reaches, atLast, _⟩ := runs
    exact ⟨count, last, reaches, step_stuck (lowered.ready continues) atLast⟩
  | «break» | «continue» =>
    obtain ⟨_, _, isLoop, _⟩ := runs
    cases isLoop
  | returned value => exact runs
  | panic => exact runs
  | stuck => trivial
  | outOfFuel => exact runs

/-- Lowering an expression keeps what is there: complete blocks stay as they are, the current one
keeps its parameters and instructions, and the loops come back; where the expression does not
diverge, its code ends in a block that can be appended to. -/
theorem lowerInst_keeps (needsDrop : Ty → Bool) (expression : Air) (sound : expression.lowersSoundly = true)
    (builder : CfgBuilder) (ready : builder.Ready)
    (inLoop : expression.escapes = true → builder.loopStack ≠ []) :
    Grows builder (lowerInst needsDrop expression builder).2 ∧
      (lowerInst needsDrop expression builder).1.diverged = expression.diverges ∧
      (expression.diverges = false → (lowerInst needsDrop expression builder).2.Ready) := by
  have lowered := lowers ⟨fun _ _ _ _ => none, fun _ _ _ => none, fun _ _ _ => none⟩ [] needsDrop
    expression sound builder ready inLoop
  exact ⟨lowered.grows, lowered.diverged, fun continues => lowered.ready (lowered.diverged.trans continues)⟩

/-- `fn f(n: i32) -> i32 { let mut i = 0; while i < n { if i == n { return 7; } i = i + 1; } i }`. -/
def countingFunction : AnalyzedFunction where
  root := .ret (some (.block [.block [.storageLive 0 .i32] (.alloc 0 (.const 0 .i32)) .unit,
      .loop (.bin .lt (.load 0 .i32) (.param 0 .i32) .bool) (.block
          [.branch (.bin .eq (.load 0 .i32) (.param 0 .i32) .bool)
            (.block [] (.ret (some (.const 7 .i32))) .never) none .unit]
          (.store 0 (.bin .add (.load 0 .i32) (.const 1 .i32) .i32) true) .unit)]
    (.load 0 .i32) .i32))
  paramSlots := [⟨.i32, false⟩]
  isDestructor := false

theorem countingFunction_meaningPreserved :
    (countingFunction.root.lowersSoundly = true ∧ countingFunction.root.escapes = false) ∧
      MeaningPreserved (fun _ => false) (fun _ => 1) countingFunction :=
  ⟨by decide, meaningPreserved_of_lowersSoundly _ _ _ (by decide) (by decide)⟩

theorem countingFunction_keeps :
    Grows (entryBuilder []) (lowerInst (fun _ => false) countingFunction.root (entryBuilder [])).2 :=
  (lowerInst_keeps _ countingFunction.root (by decide) _ (ready_entryBuilder []) fun escapes =>
    absurd escapes (by decide)).1

/-- `fn f() -> i32 { let x = return 1; 2 }`: the block that returns is appended to and ended again,
so the graph returns 2. -/
def divergingInitialiser : AnalyzedFunction where
  root := .ret (some (.block [.block [.storageLive 0 .never] (.alloc 0 (.ret (some (.const 1 .i32)))) .unit]
    (.const 2 .i32) .i32))
  paramSlots := []
  isDestructor := false

theorem not_meaningPreserved_divergingInitialiser :
    ¬ MeaningPreserved (fun _ => false) (fun _ => 1) divergingInitialiser := by
  intro preserved
  let semantics : Semantics := ⟨fun _ _ _ _ => none, fun _ _ _ => none, fun _ _ _ => none⟩
  have returnsOne : Halts (step semantics [] (build (fun _ => false) (fun _ => 1)
      divergingInitialiser)) (initialConfig (build (fun _ => false) (fun _ => 1)
      divergingInitialiser)) (.returned (.int 1) []) := preserved semantics [] 0
  have returnsTwo : Halts (step semantics [] (build (fun _ => false) (fun _ => 1)
      divergingInitialiser)) (initialConfig (build (fun _ => false) (fun _ => 1)
      divergingInitialiser)) (.returned (.int 2) []) :=
    ⟨_, _, .cons rfl (.cons rfl (.cons rfl (.cons rfl (.cons rfl (.cons rfl (.cons rfl (.refl _))))))), rfl⟩
  have same := returnsOne.unique returnsTwo
  cases same

end Gruel
