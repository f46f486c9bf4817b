import Gruel.CfgFrames

/-!
Lowering preserves meaning: the graph of a soundly lowered expression runs as
the expression evaluates.
-/

namespace Gruel

open Machine CfgBuilder

structure At (config : Config) (builder : CfgBuilder) : Prop where
  block : config.block = builder.currentBlock
  pc : config.pc = builder.current.insts.length

structure SameState (config : Config) (state : AirState) : Prop where
  locals : config.locals = state.locals
  trace : config.trace = state.trace

def Keeps (base : Nat) (before after : Config) : Prop :=
  ∀ id, id < base → after.env id = before.env id

theorem Keeps.refl (base : Nat) (config : Config) : Keeps base config config := fun _ _ => rfl

variable {laterBase : Nat} {second : Config} {expression : Air}

theorem Keeps.trans {base : Nat} {first third : Config} (le : base ≤ laterBase)
    (before : Keeps base first second) (after : Keeps laterBase second third) :
    Keeps base first third := fun id bound =>
  (after id (Nat.lt_of_lt_of_le bound le)).trans (before id bound)

section Simulation

variable (semantics : Semantics) (arguments : List Scalar)
variable {cfg : Cfg} {config last : Config} {fuel base : Nat}
  {after builder before middle : CfgBuilder} {result first : ExprResult} {loops : List LoopContext}
  {data : CfgInstData} {ty : Ty} {pending : List BlockId} {state : AirState}
  {evaluated : Outcome × AirState} {value : Scalar} {next : Scalar → AirState → Outcome × AirState}

def Realizes (cfg : Cfg) (base : Nat) (loops : List LoopContext) (after : CfgBuilder)
    (result : ExprResult) (fuel : Nat) (config : Config) : Outcome × AirState → Prop
  | (.value value, state) =>
    result.diverged = false ∧ ∃ count last, Reaches (step semantics arguments cfg) count config last ∧ At last after ∧
      SameState last state ∧ Keeps base config last ∧
      ∀ id, result.value = some id → last.env id = value
  | (.break, state) =>
    ∃ loop outer, loops = loop :: outer ∧ ∃ count last, 0 < count ∧
      Reaches (step semantics arguments cfg) count config last ∧ last.block = loop.exit ∧
      last.pc = 0 ∧ SameState last state ∧ Keeps base config last
  | (.continue, state) =>
    ∃ loop outer, loops = loop :: outer ∧ ∃ count last, 0 < count ∧
      Reaches (step semantics arguments cfg) count config last ∧ last.block = loop.header ∧
      last.pc = 0 ∧ SameState last state ∧ Keeps base config last
  | (.returned value, state) =>
    Halts (step semantics arguments cfg) config (.returned value state.trace)
  | (.panic, state) => Halts (step semantics arguments cfg) config (.panicked state.trace)
  | (.stuck, _) => True
  | (.outOfFuel, state) =>
    ∃ count last, fuel ≤ count ∧ Reaches (step semantics arguments cfg) count config last ∧ last.trace = state.trace

def LoopsEnter (cfg : Cfg) (loops : List LoopContext) : Prop :=
  ∀ loop ∈ loops, (cfg.blocks loop.header).params = [] ∧ (cfg.blocks loop.exit).params = []

def Simulates (expression : Air) (before : CfgBuilder) (result : ExprResult) (after : CfgBuilder) : Prop :=
  ∀ (pending : List BlockId) (cfg : Cfg), Completes pending after cfg → Aside pending before →
    LoopsEnter cfg before.loopStack →
    ∀ (fuel : Nat) (config : Config) (state : AirState), At config before → SameState config state →
      Realizes semantics arguments cfg before.cfg.valueCount before.loopStack after result fuel
        config (eval semantics arguments fuel expression state)

structure Lowered (expression : Air) (before : CfgBuilder) (result : ExprResult)
    (after : CfgBuilder) : Prop where
  grows : Grows before after
  diverged : result.diverged = expression.diverges
  ready : result.diverged = false → after.Ready
  hasValue : result.diverged = false → result.value.isSome = expression.hasValue
  valueBound : ∀ id, result.value = some id → id < after.cfg.valueCount
  simulates : Simulates semantics arguments expression before result after

variable {semantics arguments}

theorem Realizes.after_steps {wanted count : Nat} {first : Config}
    (reaches : Reaches (step semantics arguments cfg) count first second)
    (keeps : Keeps base first second) (enough : wanted ≤ count + fuel)
    (later : Realizes semantics arguments cfg base loops after result fuel second evaluated) :
    Realizes semantics arguments cfg base loops after result wanted first evaluated := by
  obtain ⟨outcome, _⟩ := evaluated
  cases outcome with
  | value value =>
    obtain ⟨continues, laterCount, last, reachesLast, atLast, same, keepsLast, valued⟩ := later
    exact ⟨continues, _, last, reaches.trans reachesLast, atLast, same, keeps.trans (Nat.le_refl _) keepsLast, valued⟩
  | «break» | «continue» =>
    obtain ⟨loop, outer, isLoop, laterCount, last, steps, reachesLast, block, pc, same, keepsLast⟩ := later
    exact ⟨loop, outer, isLoop, _, last, Nat.add_pos_right _ steps, reaches.trans reachesLast,
      block, pc, same, keeps.trans (Nat.le_refl _) keepsLast⟩
  | returned value | panic => exact Halts.of_reaches reaches later
  | stuck => trivial
  | outOfFuel =>
    obtain ⟨laterCount, last, _, reachesLast, traces⟩ := later
    exact ⟨_, last, by omega, reaches.trans reachesLast, traces⟩

theorem Realizes.of_reaches {count : Nat} {first : Config}
    (reaches : Reaches (step semantics arguments cfg) count first second)
    (keeps : Keeps base first second)
    (later : Realizes semantics arguments cfg base loops after result fuel second evaluated) :
    Realizes semantics arguments cfg base loops after result fuel first evaluated :=
  later.after_steps reaches keeps (Nat.le_add_left _ _)

theorem Realizes.base_le (le : base ≤ laterBase)
    (later : Realizes semantics arguments cfg laterBase loops after result fuel config evaluated) :
    Realizes semantics arguments cfg base loops after result fuel config evaluated := by
  have weaken : ∀ {last : Config}, Keeps laterBase config last → Keeps base config last :=
    fun keeps id bound => keeps id (Nat.lt_of_lt_of_le bound le)
  obtain ⟨outcome, _⟩ := evaluated
  cases outcome with
  | value value =>
    obtain ⟨continues, count, last, reaches, atLast, same, keeps, valued⟩ := later
    exact ⟨continues, count, last, reaches, atLast, same, weaken keeps, valued⟩
  | «break» | «continue» =>
    obtain ⟨loop, outer, isLoop, count, last, steps, reaches, block, pc, same, keeps⟩ := later
    exact ⟨loop, outer, isLoop, count, last, steps, reaches, block, pc, same, weaken keeps⟩
  | returned value => exact later
  | panic => exact later
  | stuck => trivial
  | outOfFuel => exact later

theorem Realizes.andThen (le : base ≤ laterBase)
    (matchesFirst : Realizes semantics arguments cfg base loops middle first fuel config evaluated)
    (matchesNext : ∀ value state last, evaluated = (.value value, state) →
      first.diverged = false → At last middle → SameState last state → Keeps base config last →
      (∀ id, first.value = some id → last.env id = value) →
      Realizes semantics arguments cfg laterBase loops after result fuel last (next value state)) :
    Realizes semantics arguments cfg base loops after result fuel config (andThen evaluated next) := by
  obtain ⟨outcome, state⟩ := evaluated
  cases outcome with
  | value value =>
    obtain ⟨continues, _, last, reaches, atLast, same, keeps, valued⟩ := matchesFirst
    have later := matchesNext value state last rfl continues atLast same keeps valued
    exact (later.base_le le).of_reaches reaches keeps
  | «break» | «continue» | returned value | panic | outOfFuel => exact matchesFirst
  | stuck => trivial

theorem step_of_inst {before : List CfgInst} {inst : CfgInst}
    (isPrefix : before ++ [inst] <+: (cfg.blocks config.block).insts)
    (pc : config.pc = before.length) :
    step semantics arguments cfg config = execInst semantics arguments config inst := by
  obtain ⟨_, whole⟩ := isPrefix
  have found : (cfg.blocks config.block).insts[config.pc]? = some inst := by
    rw [← whole, pc, List.append_assoc, List.getElem?_append_right (Nat.le_refl _), Nat.sub_self]
    rfl
  simp [step, found]

theorem step_of_terminator {block : BasicBlock} (isBlock : cfg.blocks config.block = block)
    (pc : config.pc = block.insts.length) :
    step semantics arguments cfg config = execTerminator cfg config block.terminator := by
  have finished : (cfg.blocks config.block).insts[config.pc]? = none := by
    rw [isBlock, pc]
    exact List.getElem?_eq_none (Nat.le_refl _)
  simp only [step, finished]
  rw [isBlock]

theorem step_emit (ready : builder.Ready)
    (completes : Completes pending (builder.emit data ty).2 cfg) (aside : Aside pending builder)
    (located : At config builder) :
    step semantics arguments cfg config = execInst semantics arguments config ⟨builder.cfg.valueCount, data, ty⟩ := by
  have within := completes.current (aside.after (grows_emit ready data ty)) ready.bound
  rw [current_emit] at within
  refine step_of_inst ?_ located.pc
  rw [located.block]
  exact within.insts_prefix

theorem at_emit (located : At config builder) (block : last.block = config.block)
    (pc : last.pc = config.pc + 1) : At last (builder.emit data ty).2 where
  block := block.trans located.block
  pc := by
    rw [current_emit, pc, located.pc]
    simp

theorem keeps_setValue {id : Nat} (fresh : base ≤ id)
    (env : last.env = setValue config.env id value) : Keeps base config last := by
  intro other _
  have different : other ≠ id := by omega
  rw [env, setValue, if_neg different]

section

variable (ready : builder.Ready)
include ready

theorem Realizes.emit (completes : Completes pending (builder.emit data ty).2 cfg)
    (aside : Aside pending builder) (located : At config builder)
    (executes : execInst semantics arguments config ⟨builder.cfg.valueCount, data, ty⟩ = .running last)
    (block : last.block = config.block) (pc : last.pc = config.pc + 1)
    (env : ∃ defined, last.env = setValue config.env builder.cfg.valueCount defined ∧
      ∀ id, result.value = some id → id = builder.cfg.valueCount ∧ defined = value)
    (same : SameState last state) (continues : result.diverged = false) :
    Realizes semantics arguments cfg builder.cfg.valueCount loops (builder.emit data ty).2 result
      fuel config (.value value, state) := by
  have stepped := (step_emit ready completes aside located).trans executes
  obtain ⟨defined, env, valued⟩ := env
  refine ⟨continues, 1, last, .single stepped, at_emit located block pc, same,
    keeps_setValue (Nat.le_refl _) env, fun id isValue => ?_⟩
  obtain ⟨isDefined, same⟩ := valued id isValue
  rw [env, isDefined, setValue, if_pos rfl, same]

theorem reaches_define (completes : Completes pending (builder.emit data ty).2 cfg)
    (aside : Aside pending builder) (located : At config builder)
    (executes : execInst semantics arguments config ⟨builder.cfg.valueCount, data, ty⟩ =
      .running (config.define ⟨builder.cfg.valueCount, data, ty⟩ value)) :
    Reaches (step semantics arguments cfg) 1 config (config.define ⟨builder.cfg.valueCount, data, ty⟩ value) ∧
      At (config.define ⟨builder.cfg.valueCount, data, ty⟩ value) (builder.emit data ty).2 ∧
      Keeps builder.cfg.valueCount config (config.define ⟨builder.cfg.valueCount, data, ty⟩ value) :=
  ⟨.single ((step_emit ready completes aside located).trans executes), at_emit located rfl rfl,
    keeps_setValue (Nat.le_refl _) rfl⟩

theorem Realizes.define (completes : Completes pending (builder.emit data ty).2 cfg)
    (aside : Aside pending builder) (located : At config builder) (same : SameState config state)
    (executes : execInst semantics arguments config ⟨builder.cfg.valueCount, data, ty⟩ =
      .running (config.define ⟨builder.cfg.valueCount, data, ty⟩ value)) :
    Realizes semantics arguments cfg builder.cfg.valueCount loops (builder.emit data ty).2
      (.continues (some builder.cfg.valueCount)) fuel config (.value value, state) := by
  refine Realizes.emit ready completes aside located executes rfl rfl
    ⟨value, rfl, fun id isValue => ?_⟩ ⟨same.locals, same.trace⟩ rfl
  exact ⟨(Option.some.inj isValue).symm, rfl⟩

theorem Realizes.defineOr {called : Config} {outcome : Option Scalar}
    (completes : Completes pending (builder.emit data ty).2 cfg) (aside : Aside pending builder)
    (located : At config builder) (same : SameState called state)
    (executes : execInst semantics arguments config ⟨builder.cfg.valueCount, data, ty⟩ =
      called.defineOr ⟨builder.cfg.valueCount, data, ty⟩ outcome)
    (block : called.block = config.block) (pc : called.pc = config.pc)
    (env : called.env = config.env) :
    Realizes semantics arguments cfg builder.cfg.valueCount loops (builder.emit data ty).2
      (.continues (some builder.cfg.valueCount)) fuel config (ofOption outcome, state) := by
  cases outcome with
  | some value =>
    refine Realizes.emit ready completes aside located executes block ?_
      ⟨value, ?_, fun id isValue => ⟨(Option.some.inj isValue).symm, rfl⟩⟩
      ⟨same.locals, same.trace⟩ rfl
    · rw [← pc]
      rfl
    · rw [← env]
      rfl
  | none =>
    have stepped := (step_emit ready completes aside located).trans executes
    refine ⟨0, config, .refl _, ?_⟩
    rw [stepped, ← same.trace]
    rfl

end

theorem Lowered.leaf (value : AirState → Scalar) (ready : builder.Ready)
    (continues : expression.diverges = false) (valued : expression.hasValue = true)
    (executes : ∀ config state, SameState config state →
      execInst semantics arguments config ⟨builder.cfg.valueCount, data, ty⟩ =
      .running (config.define ⟨builder.cfg.valueCount, data, ty⟩ (value state)))
    (evaluates : ∀ fuel state, eval semantics arguments fuel expression state = (.value (value state), state)) :
    Lowered semantics arguments expression builder
      (.continues (some (builder.emit data ty).1)) (builder.emit data ty).2 where
  grows := grows_emit ready data ty
  diverged := continues.symm
  ready _ := ready_emit ready data ty
  hasValue _ := valued.symm
  valueBound id isValue := by
    rw [← Option.some.inj isValue]
    exact Nat.lt_succ_self _
  simulates pending cfg completes aside _ fuel config state located same := by
    rw [evaluates]
    exact Realizes.define ready completes aside located same (executes config state same)

theorem Lowered.simulates_then (lowered : Lowered semantics arguments expression before first middle)
    (grows : Grows middle after) (completes : Completes pending after cfg)
    (aside : Aside pending before) (loopsEnter : LoopsEnter cfg before.loopStack)
    (located : At config before) (same : SameState config state)
    (matchesNext : ∀ value laterState last, eval semantics arguments fuel expression state =
      (.value value, laterState) → first.diverged = false → At last middle →
      SameState last laterState → Keeps before.cfg.valueCount config last →
      (∀ id, first.value = some id → last.env id = value) →
      Realizes semantics arguments cfg middle.cfg.valueCount middle.loopStack after result fuel
      last (next value laterState)) :
    Realizes semantics arguments cfg before.cfg.valueCount before.loopStack after result fuel config
      (andThen (eval semantics arguments fuel expression state) next) := by
  refine Realizes.andThen lowered.grows.values
    (lowered.simulates pending cfg (completes.before grows) aside loopsEnter fuel config state located same) ?_
  intro value laterState last evaluates continues atLast sameLast keeps valued
  rw [← lowered.grows.loops]
  exact matchesNext value laterState last evaluates continues atLast sameLast keeps valued

theorem Lowered.simulates_stop {part : Air} (lowered : Lowered semantics arguments part before first middle)
    (diverges : part.diverges = true) (completes : Completes pending middle cfg)
    (aside : Aside pending before) (loopsEnter : LoopsEnter cfg before.loopStack)
    (located : At config before) (same : SameState config state) :
    Realizes semantics arguments cfg before.cfg.valueCount before.loopStack after result fuel config
      (andThen (eval semantics arguments fuel part state) next) := by
  refine Realizes.andThen (Nat.le_refl _)
    (lowered.simulates pending cfg completes aside loopsEnter fuel config state located same) ?_
  intro _ _ _ _ continues
  rw [lowered.diverged, diverges] at continues
  cases continues

theorem Lowered.stops {part expression : Air} (next : Nat → Scalar → AirState → Outcome × AirState)
    (lowered : Lowered semantics arguments part before first after)
    (partDiverges : part.diverges = true) (diverges : expression.diverges = true)
    (evaluates : ∀ fuel state, eval semantics arguments fuel expression state =
      andThen (eval semantics arguments fuel part state) (next fuel)) :
    Lowered semantics arguments expression before .divergence after where
  grows := lowered.grows
  diverged := diverges.symm
  ready continues := by cases continues
  hasValue continues := by cases continues
  valueBound id isValue := by cases isValue
  simulates pending cfg completes aside loopsEnter fuel config state located same := by
    rw [evaluates]
    exact lowered.simulates_stop partDiverges completes aside loopsEnter located same

theorem Lowered.operand (lowered : Lowered semantics arguments expression before result after)
    (yields : expression.yields = true) :
    expression.diverges = true ∧ lowerValue (result, after) = (none, after) ∨
      expression.diverges = false ∧ result.diverged = false ∧ ∃ value,
        result.value = some value ∧ value < after.cfg.valueCount ∧
        lowerValue (result, after) = (some value, after) := by
  by_cases diverges : expression.diverges = true
  · left
    have diverged := lowered.diverged.trans diverges
    refine ⟨diverges, ?_⟩
    simp [lowerValue, diverged]
  · right
    have continues : expression.diverges = false := Bool.eq_false_iff.mpr diverges
    have undiverged := lowered.diverged.trans continues
    have valued := lowered.hasValue undiverged
    simp only [Air.yields, continues, Bool.false_or] at yields
    rw [yields] at valued
    obtain ⟨value, isValue⟩ := Option.isSome_iff_exists.mp valued
    refine ⟨continues, undiverged, value, isValue, lowered.valueBound value isValue, ?_⟩
    simp only [lowerValue, undiverged, isValue]
    rfl

theorem sameCode_forgetConsumedValue (builder : CfgBuilder) (needsDrop : Ty → Bool) (value : Air) :
    (builder.forgetConsumedValue needsDrop value).cfg = builder.cfg ∧
      (builder.forgetConsumedValue needsDrop value).currentBlock = builder.currentBlock ∧
      (builder.forgetConsumedValue needsDrop value).loopStack = builder.loopStack := by
  unfold CfgBuilder.forgetConsumedValue
  split
  · split <;> exact ⟨rfl, rfl, rfl⟩
  · split <;> exact ⟨rfl, rfl, rfl⟩
  · exact ⟨rfl, rfl, rfl⟩

variable (semantics arguments) in
structure Quiet (before after : CfgBuilder) : Prop where
  grows : Grows before after
  ready : after.Ready
  runs : ∀ (pending : List BlockId) (cfg : Cfg) (config : Config), Completes pending after cfg →
    Aside pending before → At config before →
    ∃ count last, Reaches (step semantics arguments cfg) count config last ∧ At last after ∧
      last.locals = config.locals ∧ last.trace = config.trace ∧
      Keeps before.cfg.valueCount config last

namespace Quiet

variable {builder : CfgBuilder}

theorem trans {first second third : CfgBuilder} (ready : first.Ready)
    (before : Quiet semantics arguments first second)
    (after : Quiet semantics arguments second third) : Quiet semantics arguments first third where
  grows := before.grows.trans ready after.grows
  ready := after.ready
  runs pending cfg config completes aside located := by
    obtain ⟨_, middle, reachesMiddle, atMiddle, locals, trace, keeps⟩ :=
      before.runs pending cfg config (completes.before after.grows) aside located
    obtain ⟨_, last, reachesLast, atLast, lastLocals, lastTrace, keepsLast⟩ :=
      after.runs pending cfg middle completes (aside.after before.grows) atMiddle
    exact ⟨_, last, reachesMiddle.trans reachesLast, atLast, lastLocals.trans locals,
      lastTrace.trans trace, keeps.trans before.grows.values keepsLast⟩

theorem of_sameCode {before after : CfgBuilder} (ready : before.Ready)
    (cfg : after.cfg = before.cfg) (block : after.currentBlock = before.currentBlock)
    (loops : after.loopStack = before.loopStack) : Quiet semantics arguments before after := by
  have grows : Grows before after := .of_sameCode ready.bound cfg block loops
  have current : after.current = before.current := by
    simp [current, cfg, block]
  refine ⟨grows, ⟨grows.bound, ?_⟩, ?_⟩
  · rw [current]
    exact ready.isOpen
  · intro _ _ config _ _ located
    refine ⟨0, config, .refl _, ⟨located.block.trans block.symm, ?_⟩, rfl, rfl, .refl _ _⟩
    rw [current]
    exact located.pc

theorem refl (ready : builder.Ready) : Quiet semantics arguments builder builder := of_sameCode ready rfl rfl rfl

theorem emit {data : CfgInstData} {ty : Ty} (ready : builder.Ready) (executes : ∀ config, ∃ value,
      execInst semantics arguments config ⟨builder.cfg.valueCount, data, ty⟩ =
        .running (config.define ⟨builder.cfg.valueCount, data, ty⟩ value)) :
    Quiet semantics arguments builder (builder.emit data ty).2 where
  grows := grows_emit ready data ty
  ready := ready_emit ready data ty
  runs pending cfg config completes aside located := by
    obtain ⟨value, executed⟩ := executes config
    have stepped := (step_emit ready completes aside located).trans executed
    exact ⟨1, _, .single stepped, at_emit located rfl rfl, rfl, rfl, keeps_setValue (Nat.le_refl _) rfl⟩

theorem emitDropForSlot (ready : builder.Ready) (needsDrop : Ty → Bool) (live : LiveSlot) :
    Quiet semantics arguments builder (builder.emitDropForSlot needsDrop live) := by
  have storageDead : ∀ {start : CfgBuilder}, start.Ready →
      Quiet semantics arguments start (start.emitOnly (.storageDead live.slot) .unit) :=
    fun startReady => .emit startReady fun config => ⟨_, rfl⟩
  unfold CfgBuilder.emitDropForSlot
  by_cases drops : needsDrop live.ty = true
  · simp only [if_pos drops]
    have loads : Quiet semantics arguments builder
        (builder.emit (.load live.slot) live.ty).2 := .emit ready fun config => ⟨_, rfl⟩
    have dropped : Quiet semantics arguments (builder.emit (.load live.slot) live.ty).2
        ((builder.emit (.load live.slot) live.ty).2.emitOnly
          (.drop (builder.emit (.load live.slot) live.ty).1) .unit) :=
      .emit loads.ready fun config => ⟨_, rfl⟩
    exact (loads.trans ready dropped).trans ready (storageDead dropped.ready)
  · simp only [if_neg drops]
    exact storageDead ready

theorem emitDropForParam (ready : builder.Ready) (live : LiveParam) :
    Quiet semantics arguments builder (builder.emitDropForParam live) := by
  have loads : Quiet semantics arguments builder
      (builder.emit (.param live.paramSlot) live.ty).2 := .emit ready fun config => ⟨_, rfl⟩
  exact loads.trans ready (.emit loads.ready fun config => ⟨_, rfl⟩)

theorem foldl {α : Type} {action : CfgBuilder → α → CfgBuilder}
    (each : ∀ builder item, builder.Ready → Quiet semantics arguments builder (action builder item))
    (items : List α) (ready : builder.Ready) :
    Quiet semantics arguments builder (items.foldl action builder) := by
  induction items generalizing builder with
  | nil => exact refl ready
  | cons item items restQuiet =>
    have first := each builder item ready
    exact first.trans ready (restQuiet first.ready)

section

variable (ready : builder.Ready)
include ready

theorem emitDropsForSlots (needsDrop : Ty → Bool) (slots : List LiveSlot) :
    Quiet semantics arguments builder (builder.emitDropsForSlots needsDrop slots) :=
  foldl (fun _ live stepReady => emitDropForSlot stepReady needsDrop live) slots ready

theorem emitDropsForAllScopes (needsDrop : Ty → Bool) :
    Quiet semantics arguments builder (builder.emitDropsForAllScopes needsDrop) := by
  have slots : Quiet semantics arguments builder (builder.emitDropsForSlots needsDrop builder.scopeStack.flatten) :=
    emitDropsForSlots ready needsDrop _
  exact slots.trans ready (foldl (fun _ live stepReady => emitDropForParam stepReady live) _ slots.ready)

theorem forgetConsumedValue (needsDrop : Ty → Bool) (value : Air) :
    Quiet semantics arguments builder (builder.forgetConsumedValue needsDrop value) := by
  obtain ⟨cfg, block, loops⟩ := sameCode_forgetConsumedValue builder needsDrop value
  exact of_sameCode ready cfg block loops

theorem forgetConsumedValues (needsDrop : Ty → Bool) (values : List Air) :
    Quiet semantics arguments builder (builder.forgetConsumedValues needsDrop values) :=
  foldl (fun _ value stepReady => forgetConsumedValue stepReady needsDrop value) values ready

theorem popScope (needsDrop : Ty → Bool) (diverged : Bool) :
    Quiet semantics arguments builder (builder.popScope needsDrop diverged) := by
  unfold CfgBuilder.popScope
  split
  · exact refl ready
  · next scope scopes _ =>
      have popped : Quiet semantics arguments builder { builder with scopeStack := scopes } :=
        of_sameCode ready rfl rfl rfl
      cases diverged with
      | true => exact popped
      | false => exact popped.trans ready (emitDropsForSlots popped.ready needsDrop scope)

theorem prepareStore (needsDrop : Ty → Bool) (slot : Nat) (ty : Ty) (hadLiveValue : Bool) :
    Quiet semantics arguments builder (builder.prepareStore needsDrop slot ty hadLiveValue) := by
  unfold CfgBuilder.prepareStore
  split
  · have loads : Quiet semantics arguments builder (builder.emit (.load slot) ty).2 :=
      .emit ready fun config => ⟨_, rfl⟩
    exact loads.trans ready (.emit loads.ready fun config => ⟨_, rfl⟩)
  · split
    · unfold CfgBuilder.reAddLocalSlot
      split
      · exact refl ready
      · exact of_sameCode ready rfl rfl rfl
    · exact refl ready

end

end Quiet

theorem Realizes.of_quiet {before middle after : CfgBuilder} {pending : List BlockId} {cfg : Cfg}
    {loops : List LoopContext} {result : ExprResult} {fuel : Nat} {config : Config}
    {state : AirState} {evaluated : Outcome × AirState}
    (quiet : Quiet semantics arguments before middle) (completes : Completes pending middle cfg)
    (aside : Aside pending before) (located : At config before) (same : SameState config state)
    (later : ∀ last, At last middle → SameState last state → Keeps before.cfg.valueCount config last →
      Realizes semantics arguments cfg middle.cfg.valueCount loops after result fuel last evaluated) :
    Realizes semantics arguments cfg before.cfg.valueCount loops after result fuel config evaluated := by
  obtain ⟨_, last, reaches, atLast, locals, trace, keeps⟩ :=
    quiet.runs pending cfg config completes aside located
  have sameLast : SameState last state := ⟨locals.trans same.locals, trace.trans same.trace⟩
  exact ((later last atLast sameLast keeps).base_le quiet.grows.values).of_reaches reaches keeps

end Simulation

section Constructors

variable {semantics : Semantics} {arguments : List Scalar} {needsDrop : Ty → Bool}

variable (semantics arguments needsDrop) in
/-- Lowering the expression is sound from any builder that can still be appended to and has the
loop that a `break` or `continue` of the expression leaves. -/
def Lowers (expression : Air) : Prop :=
  expression.lowersSoundly = true → ∀ builder : CfgBuilder, builder.Ready →
    (expression.escapes = true → builder.loopStack ≠ []) →
    Lowered semantics arguments expression builder (lowerInst needsDrop expression builder).1
      (lowerInst needsDrop expression builder).2

theorem lowers_const (value : Int) (ty : Ty) :
    Lowers semantics arguments needsDrop (.const value ty) := fun _ _ ready _ =>
  .leaf (fun _ => .ofConst value ty) ready rfl rfl (fun _ _ _ => rfl) fun _ _ => rfl

theorem lowers_boolConst (value : Bool) :
    Lowers semantics arguments needsDrop (.boolConst value) := fun _ _ ready _ =>
  .leaf (fun _ => .bool value) ready rfl rfl (fun _ _ _ => rfl) fun _ _ => rfl

theorem lowers_unitConst : Lowers semantics arguments needsDrop .unitConst := fun _ _ ready _ =>
    .leaf (fun _ => .unit) ready rfl rfl (fun _ _ _ => rfl) fun _ _ => rfl

theorem lowers_param (index : Nat) (ty : Ty) :
    Lowers semantics arguments needsDrop (.param index ty) := fun _ _ ready _ =>
  .leaf (fun _ => arguments.getD index .unit) ready rfl rfl (fun _ _ _ => rfl) fun _ _ => rfl

theorem lowers_load (slot : Nat) (ty : Ty) :
    Lowers semantics arguments needsDrop (.load slot ty) := fun _ _ ready _ =>
  .leaf (fun state => state.locals slot) ready rfl rfl
    (fun config state same => by rw [← same.locals]; rfl) fun _ _ => rfl

theorem Lowered.emitted {before middle : CfgBuilder} {data : CfgInstData} {ty : Ty}
    (ready : before.Ready) (grows : Grows before middle) (middleReady : middle.Ready)
    (continues : expression.diverges = false) (valued : expression.hasValue = true)
    (simulates : Simulates semantics arguments expression before
      (.continues (some middle.cfg.valueCount)) (middle.emit data ty).2) :
    Lowered semantics arguments expression before
      (.continues (some (middle.emit data ty).1)) (middle.emit data ty).2 where
  grows := grows.trans ready (grows_emit middleReady data ty)
  diverged := continues.symm
  ready _ := ready_emit middleReady data ty
  hasValue _ := valued.symm
  valueBound id isValue := by
    rw [← Option.some.inj isValue]
    exact Nat.lt_succ_self _
  simulates := simulates

theorem Lowered.effect {expression : Air} {before after : CfgBuilder}
    (grows : Grows before after) (afterReady : after.Ready)
    (continues : expression.diverges = false) (valueless : expression.hasValue = false)
    (simulates : Simulates semantics arguments expression before (.continues none) after) :
    Lowered semantics arguments expression before (.continues none) after where
  grows := grows
  diverged := continues.symm
  ready _ := afterReady
  hasValue _ := valueless.symm
  valueBound id isValue := by cases isValue
  simulates := simulates

theorem Lowered.leaves {expression : Air} {before after : CfgBuilder} (grows : Grows before after)
    (diverges : expression.diverges = true)
    (simulates : Simulates semantics arguments expression before .divergence after) :
    Lowered semantics arguments expression before .divergence after where
  grows := grows
  diverged := diverges.symm
  ready continues := by cases continues
  hasValue continues := by cases continues
  valueBound id isValue := by cases isValue
  simulates := simulates

theorem lowers_unary {operand : Air} (op : UnaryOp) (ty : Ty)
    (lowersOperand : Lowers semantics arguments needsDrop operand) :
    Lowers semantics arguments needsDrop (.unary op operand ty) := by
  intro sound builder ready inLoop
  simp only [Air.lowersSoundly, Bool.and_eq_true] at sound
  have lowered := lowersOperand sound.1 builder ready inLoop
  simp only [lowerInst]
  generalize lowerInst needsDrop operand builder = run at lowered
  rcases lowered.operand sound.2 with ⟨diverges, isNone⟩ | ⟨continues, undiverged, value, isValue, bound, isSome⟩
  · simp only [isNone]
    exact lowered.stops (fun _ value state => (ofOption (semantics.unary op ty value), state))
      diverges diverges fun _ _ => rfl
  · simp only [isSome]
    have middleReady := lowered.ready undiverged
    refine .emitted ready lowered.grows middleReady continues rfl ?_
    intro _ _ completes aside loopsEnter _ _ state located same
    refine lowered.simulates_then (grows_emit middleReady _ ty) completes aside loopsEnter located same ?_
    intro _ _ _ _ _ atLast sameLast _ valued
    refine Realizes.defineOr middleReady completes (aside.after lowered.grows) atLast sameLast ?_ rfl rfl rfl
    rw [← valued value isValue]
    rfl

theorem lowers_bin {lhs rhs : Air} (op : BinOp) (ty : Ty) (lowersLhs : Lowers semantics arguments needsDrop lhs)
    (lowersRhs : Lowers semantics arguments needsDrop rhs) :
    Lowers semantics arguments needsDrop (.bin op lhs rhs ty) := by
  intro sound builder ready inLoop
  simp only [Air.lowersSoundly, Bool.and_eq_true, Bool.or_eq_true] at sound
  obtain ⟨⟨lhsSound, lhsYields⟩, rhsSound⟩ := sound
  have loweredLhs := lowersLhs lhsSound builder ready fun escapes =>
    inLoop (by simp [Air.escapes, escapes])
  simp only [lowerInst]
  generalize lowerInst needsDrop lhs builder = run at loweredLhs
  obtain ⟨_, middle⟩ := run
  rcases loweredLhs.operand lhsYields with ⟨diverges, isNone⟩ |
    ⟨continues, undiverged, left, isLeft, leftBound, isSome⟩
  · simp only [isNone]
    exact loweredLhs.stops (fun fuel left state =>
        andThen (eval semantics arguments fuel rhs state) fun right state =>
          (ofOption (semantics.bin op ty left right), state))
      diverges (by simp [Air.diverges, diverges, Bool.true_or]) fun _ _ => rfl
  simp only [isSome]
  have middleReady := loweredLhs.ready undiverged
  rw [continues] at rhsSound
  obtain ⟨rhsLowers, rhsYields⟩ := rhsSound.resolve_left Bool.false_ne_true
  have loweredRhs := lowersRhs rhsLowers middle middleReady fun escapes => by
    rw [loweredLhs.grows.loops]
    refine inLoop ?_
    simp [Air.escapes, escapes, continues]
  generalize lowerInst needsDrop rhs middle = run at loweredRhs
  rcases loweredRhs.operand rhsYields with ⟨rhsDiverges, isNone⟩ |
    ⟨rhsContinues, rhsUndiverged, right, isRight, rightBound, isSome⟩
  · simp only [isNone]
    refine .leaves (loweredLhs.grows.trans ready loweredRhs.grows)
      (by simp [Air.diverges, rhsDiverges, Bool.or_true]) ?_
    intro pending cfg completes aside loopsEnter fuel config state located same
    refine loweredLhs.simulates_then loweredRhs.grows completes aside loopsEnter located same ?_
    intro leftValue laterState position _ _ atPosition samePosition _ _
    rw [← loweredLhs.grows.loops] at loopsEnter
    exact loweredRhs.simulates_stop rhsDiverges completes (aside.after loweredLhs.grows) loopsEnter
      atPosition samePosition
  · simp only [isSome]
    have lastReady := loweredRhs.ready rhsUndiverged
    refine .emitted ready (loweredLhs.grows.trans ready loweredRhs.grows) lastReady
      (by simp [Air.diverges, continues, rhsContinues]) rfl ?_
    intro pending cfg completes aside loopsEnter fuel config state located same
    have growsEmit := grows_emit lastReady (.bin op left right) ty
    refine loweredLhs.simulates_then (loweredRhs.grows.trans middleReady growsEmit) completes aside
      loopsEnter located same ?_
    intro leftValue laterState position _ _ atPosition samePosition _ leftValued
    have asideMiddle := aside.after loweredLhs.grows
    rw [← loweredLhs.grows.loops] at loopsEnter
    refine loweredRhs.simulates_then growsEmit completes asideMiddle loopsEnter atPosition samePosition ?_
    intro _ _ _ _ _ atFinal sameFinal keeps rightValued
    refine Realizes.defineOr lastReady completes (asideMiddle.after loweredRhs.grows) atFinal sameFinal ?_ rfl rfl rfl
    rw [← rightValued right isRight, ← leftValued left isLeft, ← keeps left leftBound]
    rfl

theorem andThen_eq_value {evaluated : Outcome × AirState}
    {next : Scalar → AirState → Outcome × AirState} {value : Scalar} {final : AirState}
    (finished : andThen evaluated next = (.value value, final)) :
    ∃ first state, evaluated = (.value first, state) ∧ next first state = (.value value, final) := by
  obtain ⟨outcome, state⟩ := evaluated
  cases outcome with
  | value first => exact ⟨first, state, rfl, finished⟩
  | _ => cases finished

theorem eval_unit_of_valueless (fuel : Nat) : (expression : Air) →
    expression.hasValue = false → ∀ (state final : AirState) (value : Scalar),
      eval semantics arguments fuel expression state = (.value value, final) → value = .unit
  | .alloc _ _, _, _, _, value, finished | .store _ stored _, _, _, _, value, finished => by
      obtain ⟨_, _, _, stored⟩ := andThen_eq_value finished
      exact (Outcome.value.inj (Prod.mk.inj stored).1).symm
  | .block statements last _, valueless, state, final, value, finished => by
      obtain ⟨_, middle, _, lastFinished⟩ := andThen_eq_value finished
      exact eval_unit_of_valueless fuel last valueless middle final value lastFinished
  | .branch cond thenValue none _, valueless, state, final, value, finished => by
      obtain ⟨decision, middle, _, taken⟩ := andThen_eq_value finished
      simp only [Air.hasValue] at valueless
      split at taken
      · cases taken
      · obtain ⟨_, _, _, joined⟩ := andThen_eq_value taken
        rw [Scalar.joined, valueless] at joined
        exact (Outcome.value.inj (Prod.mk.inj joined).1).symm
      · exact (Outcome.value.inj (Prod.mk.inj taken).1).symm
  | .branch cond thenValue (some elseValue) _, valueless, state, final, value, finished => by
      obtain ⟨decision, middle, _, taken⟩ := andThen_eq_value finished
      simp only [Air.hasValue] at valueless
      split at taken
      · cases taken
      all_goals
        obtain ⟨_, _, _, joined⟩ := andThen_eq_value taken
        rw [Scalar.joined, valueless] at joined
        exact (Outcome.value.inj (Prod.mk.inj joined).1).symm
  | .match scrutinee arms _, valueless, state, final, value, finished => by
      obtain ⟨_, middle, _, taken⟩ := andThen_eq_value finished
      simp only [Air.hasValue] at valueless
      split at taken
      · cases taken
      · obtain ⟨_, _, _, joined⟩ := andThen_eq_value taken
        rw [Scalar.joined, valueless] at joined
        exact (Outcome.value.inj (Prod.mk.inj joined).1).symm
  | .ret (some inner), _, state, final, value, finished => by
      obtain ⟨_, _, _, returned⟩ := andThen_eq_value finished
      cases returned
  | .storageLive _ _, _, _, _, value, finished | .storageDead _, _, _, _, value, finished =>
    (Outcome.value.inj (Prod.mk.inj finished).1).symm

theorem Realizes.write {builder : CfgBuilder} {data : CfgInstData} {slot : Nat} {source : CfgValue}
    {pending : List BlockId} {cfg : Cfg} {loops : List LoopContext} {fuel : Nat} {config : Config}
    {value : Scalar} {state : AirState} (ready : builder.Ready)
    (writes : ∀ start : Config, execInst semantics arguments start ⟨builder.cfg.valueCount, data, .unit⟩ =
        .running { start.define ⟨builder.cfg.valueCount, data, .unit⟩ .unit with
          locals := setLocal start.locals slot (start.env source) })
    (completes : Completes pending (builder.emit data .unit).2 cfg) (aside : Aside pending builder)
    (located : At config builder) (same : SameState config state)
    (valued : config.env source = value) :
    Realizes semantics arguments cfg builder.cfg.valueCount loops (builder.emit data .unit).2
      (.continues none) fuel config (.value .unit, state.set slot value) := by
  refine Realizes.emit ready completes aside located (writes config) rfl rfl
    ⟨.unit, rfl, fun id isValue => by cases isValue⟩ ⟨?_, same.trace⟩ rfl
  simp [AirState.set, same.locals, valued]

theorem lowers_alloc {init : Air} (slot : Nat) (lowersInit : Lowers semantics arguments needsDrop init) :
    Lowers semantics arguments needsDrop (.alloc slot init) := by
  intro sound builder ready inLoop
  simp only [Air.lowersSoundly, Bool.and_eq_true, Bool.not_eq_true'] at sound
  have forgets : Quiet semantics arguments builder (builder.forgetConsumedValue needsDrop init) :=
    .forgetConsumedValue ready needsDrop init
  have lowered := lowersInit sound.1 _ forgets.ready fun escapes => by
    rw [forgets.grows.loops]
    exact inLoop escapes
  simp only [lowerInst]
  generalize lowerInst needsDrop init (builder.forgetConsumedValue needsDrop init) = run at lowered
  obtain ⟨first, middle⟩ := run
  have undiverged := lowered.diverged.trans sound.2
  have middleReady := lowered.ready undiverged
  have growsMiddle := forgets.grows.trans ready lowered.grows
  cases produced : first.value with
  | some value =>
    have growsEmit := grows_emit middleReady (.alloc slot value) .unit
    refine .effect (growsMiddle.trans ready growsEmit) (ready_emit middleReady _ _) rfl rfl ?_
    intro pending cfg completes aside loopsEnter fuel config state located same
    refine Realizes.of_quiet forgets (completes.before (lowered.grows.trans forgets.ready growsEmit))
      aside located same fun start atStart sameStart _ => ?_
    rw [← forgets.grows.loops] at loopsEnter ⊢
    refine lowered.simulates_then growsEmit completes (aside.after forgets.grows) loopsEnter atStart sameStart ?_
    intro initValue laterState last _ _ atLast sameLast _ valued
    exact Realizes.write middleReady (fun _ => rfl) completes
      ((aside.after forgets.grows).after lowered.grows) atLast sameLast (valued value produced)
  | none =>
    have growsUnit := grows_emit middleReady (.const 0) .unit
    have unitReady := ready_emit middleReady (.const 0) .unit
    have growsEmit := grows_emit unitReady (.alloc slot middle.cfg.valueCount) .unit
    have growsBoth := growsUnit.trans middleReady growsEmit
    refine .effect (growsMiddle.trans ready growsBoth) (ready_emit unitReady _ _) rfl rfl ?_
    intro pending cfg completes aside loopsEnter fuel config state located same
    refine Realizes.of_quiet forgets (completes.before (lowered.grows.trans forgets.ready growsBoth))
      aside located same fun start atStart sameStart _ => ?_
    have asideStart := aside.after forgets.grows
    rw [← forgets.grows.loops] at loopsEnter ⊢
    refine lowered.simulates_then growsBoth completes asideStart loopsEnter atStart sameStart ?_
    intro initValue laterState last evaluates _ atLast sameLast _ _
    have valueless : init.hasValue = false := by
      rw [← lowered.hasValue undiverged, produced]
      rfl
    have isUnit := eval_unit_of_valueless fuel init valueless _ _ _ evaluates
    have asideLast := asideStart.after lowered.grows
    have unitCompletes := completes.before growsEmit
    have executes : execInst semantics arguments last ⟨middle.cfg.valueCount, .const 0, .unit⟩ =
        .running (last.define ⟨middle.cfg.valueCount, .const 0, .unit⟩ .unit) := rfl
    obtain ⟨reaches, atUnit, keeps⟩ :=
      reaches_define middleReady unitCompletes asideLast atLast executes
    refine Realizes.of_reaches reaches keeps (Realizes.base_le growsUnit.values ?_)
    refine Realizes.write unitReady (fun _ => rfl) completes (asideLast.after growsUnit) atUnit
      ⟨sameLast.locals, sameLast.trace⟩ ?_
    rw [isUnit]
    exact if_pos rfl

theorem lowers_store {value : Air} (slot : Nat) (hadLiveValue : Bool)
    (lowersValue : Lowers semantics arguments needsDrop value) :
    Lowers semantics arguments needsDrop (.store slot value hadLiveValue) := by
  intro sound builder ready inLoop
  simp only [Air.lowersSoundly, Bool.and_eq_true] at sound
  have lowered := lowersValue sound.1 builder ready inLoop
  simp only [lowerInst]
  generalize lowerInst needsDrop value builder = run at lowered
  obtain ⟨_, middle⟩ := run
  rcases lowered.operand sound.2 with ⟨diverges, isNone⟩ | ⟨continues, undiverged, stored, isStored, bound, isSome⟩
  · simp only [isNone]
    exact lowered.stops (fun _ stored state => (.value .unit, state.set slot stored)) diverges diverges fun _ _ => rfl
  · simp only [isSome]
    have middleReady := lowered.ready undiverged
    have prepares : Quiet semantics arguments middle (middle.prepareStore needsDrop slot value.ty hadLiveValue) :=
      .prepareStore middleReady needsDrop slot value.ty hadLiveValue
    have growsEmit := grows_emit prepares.ready (.store slot stored) .unit
    refine .effect ((lowered.grows.trans ready prepares.grows).trans ready growsEmit)
      (ready_emit prepares.ready _ _) continues rfl ?_
    intro _ _ completes aside loopsEnter _ _ state located same
    refine lowered.simulates_then (prepares.grows.trans middleReady growsEmit) completes aside
      loopsEnter located same ?_
    intro _ _ _ _ _ atLast sameLast _ valued
    have asideLast := aside.after lowered.grows
    refine Realizes.of_quiet prepares (completes.before growsEmit) asideLast atLast sameLast
      fun start atStart sameStart keeps => ?_
    refine Realizes.write prepares.ready (fun _ => rfl) completes (asideLast.after prepares.grows)
      atStart sameStart ?_
    rw [keeps stored bound]
    exact valued stored isStored

theorem lowers_storageDead (slot : Nat) : Lowers semantics arguments needsDrop (.storageDead slot) := by
  intro _ _ ready _
  refine .effect (grows_emit ready (.storageDead slot) .unit) (ready_emit ready _ _) rfl rfl ?_
  intro _ _ completes aside _ _ _ _ located same
  exact Realizes.emit ready completes aside located rfl rfl rfl
    ⟨.unit, rfl, fun id isValue => by cases isValue⟩ ⟨same.locals, same.trace⟩ rfl

theorem lowers_storageLive (slot : Nat) (ty : Ty) : Lowers semantics arguments needsDrop (.storageLive slot ty) := by
  intro _ builder ready _
  have emits : Quiet semantics arguments builder
      (builder.emitOnly (.storageLive slot) .unit) := .emit ready fun config => ⟨_, rfl⟩
  have registers : Quiet semantics arguments (builder.emitOnly (.storageLive slot) .unit)
      ((builder.emitOnly (.storageLive slot) .unit).registerLive slot ty) :=
    .of_sameCode emits.ready rfl rfl rfl
  have both := emits.trans ready registers
  refine .effect both.grows both.ready rfl rfl ?_
  intro pending cfg completes aside _ _ config _ located same
  obtain ⟨count, last, reaches, atLast, locals, trace, keeps⟩ :=
    both.runs pending cfg config completes aside located
  exact ⟨rfl, count, last, reaches, atLast, ⟨locals.trans same.locals, trace.trans same.trace⟩,
    keeps, fun id isValue => by cases isValue⟩

end Constructors

end Gruel
