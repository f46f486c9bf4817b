import Gruel.CfgControl

/-!
Soundness of lowering, continued: the constructs that fork and join, with the
block parameter that carries the value of the side taken.
-/

namespace Gruel

open Machine CfgBuilder

section Joins

variable {semantics : Semantics} {arguments : List Scalar} {needsDrop : Ty → Bool}
variable {builder : CfgBuilder} {cfg : Cfg} {id : BlockId}
variable {param source : CfgValue} {ty : Ty} {config : Config} {pending : List BlockId}

theorem jump_single {target : BlockId} (config : Config) (enters : (cfg.blocks target).params = [(param, ty)]) :
    jump cfg config target [source] = .running { config with
        block := target
        pc := 0
        env := setValue config.env param (config.env source) } := by
  simp [jump, enters, bindParams]

theorem at_start (insts : (builder.cfg.blocks id).insts = []) (block : config.block = id)
    (pc : config.pc = 0) : At config (builder.startBlock id) where
  block := block
  pc := by
    change config.pc = (builder.cfg.blocks id).insts.length
    rw [insts, pc]
    rfl

theorem Realizes.join {base fuel : Nat} {loops : List LoopContext} {joinBlock : BlockId}
    {value : Scalar} {state : AirState} (insts : (builder.cfg.blocks joinBlock).insts = [])
    (enters : (cfg.blocks joinBlock).params = [(param, ty)]) (fresh : base ≤ param)
    (steps : step semantics arguments cfg config = jump cfg config joinBlock [source])
    (same : SameState config state) (valued : config.env source = value) :
    Realizes semantics arguments cfg base loops (builder.startBlock joinBlock)
      (.continues (some param)) fuel config (.value value, state) := by
  refine ⟨rfl, 1, _, .single (steps.trans (jump_single config enters)), at_start insts rfl rfl,
    ⟨same.locals, same.trace⟩, keeps_setValue fresh rfl, ?_⟩
  intro _ isParam
  rw [← Option.some.inj isParam, ← valued]
  exact if_pos rfl

theorem Completes.params_eq {content : BasicBlock} (completes : Completes pending builder cfg)
    (reserved : Reserved id content builder) (notPending : id ∉ pending) :
    (cfg.blocks id).params = content.params := by
  have within := completes id reserved.bound notPending
  rw [reserved.content] at within
  exact within.params_eq.symm

theorem Aside.not_mem_of_le (aside : Aside pending builder) (fresh : builder.cfg.blockCount ≤ id) : id ∉ pending :=
  fun isPending => Nat.not_lt_of_ge fresh (aside id isPending).1

theorem emptyBlock_open : emptyBlock.Open := .inl rfl

structure LogicOpened (before : CfgBuilder) (opened : OpenedLogic) : Prop where
  grows : Grows before opened.builder
  ready : opened.builder.Ready
  reserved : Reserved opened.joinBlock ⟨[(opened.resultParam, .bool)], [], .none⟩ opened.builder
  freshJoin : before.cfg.blockCount ≤ opened.joinBlock
  freshParam : before.cfg.valueCount ≤ opened.resultParam
  paramBound : opened.resultParam < opened.builder.cfg.valueCount
  empty : opened.builder.current = emptyBlock

theorem logicOpened (ready : builder.Ready) (op : LogicOp) (left : CfgValue) :
    LogicOpened builder (builder.openLogic op left) := by
  have firstReady := ready_newBlock ready
  have growsFirst := grows_newBlock ready
  have growsSecond := growsFirst.trans ready (grows_newBlock firstReady)
  have secondReady := ready_newBlock firstReady
  have rhsReserved := (reserved_newBlock ready).after (grows_newBlock firstReady)
  have joinReserved := reserved_newBlock firstReady
  have different : builder.newBlock.1 ≠ builder.newBlock.2.newBlock.1 :=
    Nat.ne_of_lt (Nat.lt_succ_self _)
  have fresh : builder.cfg.blockCount ≤ builder.newBlock.2.newBlock.1 := Nat.le_succ _
  have growsParam := growsSecond.addBlockParam .bool ready fresh
  have paramReady := ready_addOtherParam .bool secondReady joinReserved.aside
  have growsDecided := grows_emit paramReady (.boolConst op.decides) .bool
  have decidedReady := ready_emit paramReady (.boolConst op.decides) .bool
  have growsBranch := growsDecided.trans paramReady (grows_terminate decidedReady
    (op.branch left builder.newBlock.1 builder.newBlock.2.newBlock.1
      builder.newBlock.2.newBlock.2.cfg.valueCount.succ))
  have rhsLast := (rhsReserved.addOtherParam .bool different).after growsBranch
  have joinLast := (joinReserved.addBlockParam .bool).after growsBranch
  exact {
    grows := (growsParam.trans ready growsBranch).startBlock (Nat.le_refl _) rhsLast.bound
    ready := rhsLast.ready emptyBlock_open
    reserved := joinLast.startBlock different.symm
    freshJoin := fresh
    freshParam := Nat.le_refl _
    paramBound := Nat.lt_succ_of_lt (Nat.lt_succ_self _)
    empty := rhsLast.content }

theorem openLogic_runs {builder : CfgBuilder} (ready : builder.Ready) (op : LogicOp)
    (left : CfgValue) {pending : List BlockId} {cfg : Cfg} {config : Config}
    (completes : Completes pending (builder.openLogic op left).builder cfg)
    (aside : Aside pending builder) (located : At config builder) :
    ∃ last, Reaches (step semantics arguments cfg) 1 config last ∧
      last.locals = config.locals ∧ last.trace = config.trace ∧
      Keeps builder.cfg.valueCount config last ∧
      last.env (builder.openLogic op left).decided = .bool op.decides ∧
      step semantics arguments cfg last = execTerminator cfg last
        (op.branch left (builder.openLogic op left).builder.currentBlock
          (builder.openLogic op left).joinBlock (builder.openLogic op left).decided) := by
  have firstReady := ready_newBlock ready
  have secondReady := ready_newBlock firstReady
  have joinAside := (reserved_newBlock firstReady).aside
  have paramReady := ready_addOtherParam .bool secondReady joinAside
  have decidedReady := ready_emit paramReady (.boolConst op.decides) .bool
  -- Two new blocks and a parameter of one of them leave the current block as it is.
  have atParam : At config (builder.newBlock.2.newBlock.2.addBlockParam builder.newBlock.2.newBlock.1 .bool).2 := by
    refine ⟨located.block, ?_⟩
    rw [current_addOtherParam .bool joinAside, current_newBlock firstReady, current_newBlock ready]
    exact located.pc
  have asideNew := (aside.after (grows_newBlock ready)).after (grows_newBlock firstReady)
  have asideParam : Aside pending (builder.newBlock.2.newBlock.2.addBlockParam
      builder.newBlock.2.newBlock.1 .bool).2 := asideNew
  have growsDecided := grows_emit paramReady (.boolConst op.decides) .bool
  obtain ⟨reaches, atDecided, keeps⟩ := reaches_define paramReady
    (completes.before (grows_terminate decidedReady _)) asideParam atParam rfl
  refine ⟨_, reaches, rfl, rfl, fun id bound => keeps id (Nat.lt_succ_of_lt bound), if_pos rfl, ?_⟩
  exact step_terminate decidedReady (by cases op <;> rfl) completes (asideParam.after growsDecided) atDecided

theorem andThen_value (evaluated : Outcome × AirState) :
    andThen evaluated (fun value state => (.value value, state)) = evaluated := by
  obtain ⟨outcome, state⟩ := evaluated
  cases outcome with
  | _ => rfl

theorem execTerminator_logic (cfg : Cfg) (config : Config) (op : LogicOp) (left : CfgValue)
    (rhsBlock joinBlock : BlockId) (decided : CfgValue) :
    execTerminator cfg config (op.branch left rhsBlock joinBlock decided) = match (config.env left).asBool with
      | none => .halted .stuck
      | some decision =>
        if decision = op.decides then jump cfg config joinBlock [decided]
        else jump cfg config rhsBlock [] := by
  cases op with
  | and =>
    cases decision : (config.env left).asBool with
    | none => simp [LogicOp.branch, execTerminator, decision]
    | some isTrue => cases isTrue <;> simp [LogicOp.branch, execTerminator, decision, LogicOp.decides]
  | or =>
    cases decision : (config.env left).asBool with
    | none => simp only [LogicOp.branch, execTerminator, decision]
    | some isTrue => cases isTrue <;> simp [LogicOp.branch, execTerminator, decision, LogicOp.decides]

theorem lowers_logic {lhs rhs : Air} (op : LogicOp) (lowersLhs : Lowers semantics arguments needsDrop lhs)
    (lowersRhs : Lowers semantics arguments needsDrop rhs) :
    Lowers semantics arguments needsDrop (.logic op lhs rhs) := by
  intro sound builder ready inLoop
  simp only [Air.lowersSoundly, Bool.and_eq_true, Bool.or_eq_true, Bool.not_eq_true'] at sound
  obtain ⟨⟨lhsSound, lhsYields⟩, rhsSound⟩ := sound
  have loweredLhs := lowersLhs lhsSound builder ready fun escapes =>
    inLoop (by simp [Air.escapes, escapes])
  simp only [lowerInst]
  generalize lowerInst needsDrop lhs builder = run at loweredLhs
  obtain ⟨_, middle⟩ := run
  rcases loweredLhs.operand lhsYields with ⟨diverges, isNone⟩ |
    ⟨continues, undiverged, left, isLeft, leftBound, isSome⟩
  · simp only [isNone]
    exact loweredLhs.stops (fun fuel left state =>
        match left.asBool with
        | none => (.stuck, state)
        | some decision =>
          if decision = op.decides then (.value (.bool decision), state)
          else eval semantics arguments fuel rhs state)
      diverges (by simp [Air.diverges, diverges, Bool.true_or]) fun _ _ => rfl
  simp only [isSome]
  have middleReady := loweredLhs.ready undiverged
  rw [continues] at rhsSound
  obtain ⟨⟨rhsLowers, rhsValued⟩, rhsContinues⟩ := rhsSound.resolve_left Bool.false_ne_true
  have layout := logicOpened middleReady op left
  have opensRuns := @openLogic_runs semantics arguments middle middleReady op left
  generalize middle.openLogic op left = opened at layout opensRuns
  have loweredRhs := lowersRhs rhsLowers opened.builder layout.ready fun escapes => by
    rw [layout.grows.loops, loweredLhs.grows.loops]
    refine inLoop ?_
    simp [Air.escapes, escapes, continues]
  generalize lowerInst needsDrop rhs opened.builder = run at loweredRhs
  obtain ⟨_, last⟩ := run
  rcases loweredRhs.operand (by simp [Air.yields, rhsValued, Bool.or_true]) with
    ⟨rhsDiverges, _⟩ | ⟨_, rhsUndiverged, right, isRight, rightBound, isSome⟩
  · rw [rhsContinues] at rhsDiverges
    cases rhsDiverges
  simp only [isSome]
  have lastReady := loweredRhs.ready rhsUndiverged
  have growsGoto := grows_terminate lastReady (.goto opened.joinBlock [right])
  have joinLast := (layout.reserved.after loweredRhs.grows).after growsGoto
  have growsWhole := layout.grows.trans middleReady (loweredRhs.grows.trans layout.ready growsGoto)
  have growsJoin := growsWhole.startBlock layout.freshJoin joinLast.bound
  refine ⟨loweredLhs.grows.trans ready growsJoin, ?_, fun _ => joinLast.ready (.inl rfl), fun _ => rfl, ?_, ?_⟩
  · simp only [Air.diverges, continues, rhsContinues, Bool.or_false]
    rfl
  · intro _ isParam
    rw [← Option.some.inj isParam]
    exact Nat.lt_of_lt_of_le layout.paramBound (Nat.le_trans loweredRhs.grows.values growsGoto.values)
  · intro pending cfg completes aside loopsEnter fuel _ state located same
    refine loweredLhs.simulates_then growsJoin completes aside loopsEnter located same ?_
    intro leftValue laterState _ _ _ atPosition samePosition _ leftValued
    have asideMiddle := aside.after loweredLhs.grows
    have gotoCompletes : Completes pending
        (last.setTerminator last.currentBlock (.goto opened.joinBlock [right])) cfg := completes
    have rhsCompletes := gotoCompletes.before (loweredRhs.grows.trans layout.ready growsGoto)
    have enters := gotoCompletes.params_eq joinLast (asideMiddle.not_mem_of_le layout.freshJoin)
    obtain ⟨start, reaches, locals, trace, keeps, decided, steps⟩ :=
      opensRuns rhsCompletes asideMiddle atPosition
    have sameStart : SameState start laterState :=
      ⟨locals.trans samePosition.locals, trace.trans samePosition.trace⟩
    refine Realizes.of_reaches reaches keeps ?_
    have leftHolds : start.env left = leftValue := by
      rw [keeps left leftBound]
      exact leftValued left isLeft
    rw [execTerminator_logic, leftHolds] at steps
    cases decision : leftValue.asBool with
    | none => trivial
    | some isLeftTrue =>
      simp only [decision] at steps ⊢
      by_cases decides : isLeftTrue = op.decides
      · simp only [if_pos decides] at steps ⊢
        refine Realizes.join (by rw [joinLast.content]) enters layout.freshParam steps sameStart ?_
        rw [decided, decides]
      · simp only [if_neg decides] at steps ⊢
        have rhsEnters : (cfg.blocks opened.builder.currentBlock).params = [] := by
          have within := rhsCompletes.current (asideMiddle.after layout.grows) layout.ready.bound
          rw [layout.empty] at within
          exact within.params_eq.symm
        have jumps := steps.trans (jump_nil start rhsEnters)
        refine Realizes.of_reaches (.single jumps) (.refl _ _) ?_
        have sameLoops := layout.grows.loops.trans loweredLhs.grows.loops
        rw [← sameLoops] at loopsEnter
        rw [← layout.grows.loops, ← andThen_value (eval semantics arguments fuel rhs laterState)]
        have atRhs : At { start with block := opened.builder.currentBlock, pc := 0 }
            opened.builder := ⟨rfl, by rw [layout.empty]; rfl⟩
        have rhsRuns := loweredRhs.simulates pending cfg (gotoCompletes.before growsGoto)
          (asideMiddle.after layout.grows) loopsEnter fuel _ laterState atRhs
          ⟨sameStart.locals, sameStart.trace⟩
        refine Realizes.andThen (Nat.le_refl _) (rhsRuns.base_le layout.grows.values) ?_
        intro _ _ _ _ _ atFinal sameFinal _ rightValued
        refine Realizes.join (by rw [joinLast.content]) enters layout.freshParam ?_ sameFinal
          (rightValued right isRight)
        exact step_terminate lastReady rfl gotoCompletes
          ((asideMiddle.after layout.grows).after loweredRhs.grows) atFinal

end Joins

section Arms

variable {semantics : Semantics} {arguments : List Scalar} {needsDrop : Ty → Bool}

variable (semantics arguments) in
structure ArmsLowered (joins : Bool) (arms : List (MatchPattern × Air)) (blocks : List BlockId)
    (before : CfgBuilder) (results : List (BlockId × ExprResult)) (after : CfgBuilder) : Prop where
  values : before.cfg.valueCount ≤ after.cfg.valueCount
  blockCount : before.cfg.blockCount ≤ after.cfg.blockCount
  loops : after.loopStack = before.loopStack
  entry : after.cfg.entry = before.cfg.entry
  moved : after.currentBlock = before.currentBlock ∨ after.currentBlock ∈ blocks ∨
    before.cfg.blockCount ≤ after.currentBlock
  bound : after.currentBlock < after.cfg.blockCount
  others : ∀ id, id < before.cfg.blockCount → id ∉ blocks → after.cfg.blocks id = before.cfg.blocks id
  within : ∀ id, id < before.cfg.blockCount → (before.cfg.blocks id).Within (after.cfg.blocks id)
  diverged : (results.all fun arm => arm.2.diverged) = Air.allDiverge arms
  exits : ∀ arm ∈ results, arm.1 ∈ blocks ∨ before.cfg.blockCount ≤ arm.1
  distinct : (results.map Prod.fst).Nodup
  isOpen : ∀ arm ∈ results, arm.2.diverged = false → arm.1 < after.cfg.blockCount ∧ (after.cfg.blocks arm.1).Open
  hasValue : joins = true → ∀ arm ∈ results, arm.2.diverged = false → arm.2.value.isSome = true
  simulates : ∀ (pending : List BlockId) (cfg : Cfg) (base fuel : Nat) (config : Config)
    (state : AirState) (final : CfgBuilder) (result : ExprResult)
    (next : Scalar → AirState → Outcome × AirState), base ≤ before.cfg.valueCount →
    Completes pending after cfg → (∀ id ∈ pending, id < before.cfg.blockCount ∧ id ∉ blocks) →
    LoopsEnter cfg before.loopStack → SameState config state →
    (∀ arm ∈ results, arm.2.diverged = false → ∀ value laterState last, last.block = arm.1 →
      last.pc = (after.cfg.blocks arm.1).insts.length → SameState last laterState →
      (∀ id, arm.2.value = some id → last.env id = value) →
      Realizes semantics arguments cfg base before.loopStack final result fuel last (next value laterState)) →
    ∀ entry ∈ arms.zip blocks, config.block = entry.2 → config.pc = 0 →
      Realizes semantics arguments cfg base before.loopStack final result fuel config
        (andThen (eval semantics arguments fuel entry.1.2 state) next)

theorem ArmsLowered.nil (joins : Bool) {builder : CfgBuilder}
    (bound : builder.currentBlock < builder.cfg.blockCount) :
    ArmsLowered semantics arguments joins [] [] builder [] builder where
  values := Nat.le_refl _
  blockCount := Nat.le_refl _
  loops := rfl
  entry := rfl
  moved := .inl rfl
  bound := bound
  others _ _ _ := rfl
  within _ _ := .refl _
  diverged := rfl
  exits _ isArm := by cases isArm
  distinct := .nil
  isOpen _ isArm := by cases isArm
  hasValue _ _ isArm := by cases isArm
  simulates _ _ _ _ _ _ _ _ _ _ _ _ _ _ _ _ isEntry := by cases isEntry

theorem exit_kept {block : BlockId} {blocks : List BlockId} {builder middle : CfgBuilder}
    (grows : Grows (builder.startBlock block) middle)
    (bounds : ∀ other ∈ blocks, other < builder.cfg.blockCount) (distinct : block ∉ blocks) :
    middle.currentBlock ∉ blocks := by
  intro isOther
  rcases grows.moved with same | fresh
  · rw [same] at isOther
    exact distinct isOther
  · exact Nat.not_lt_of_ge fresh (bounds _ isOther)

theorem ArmsLowered.cons {joins : Bool} {pattern : MatchPattern} {body : Air} {block : BlockId}
    {arms : List (MatchPattern × Air)} {blocks : List BlockId} {builder middle after : CfgBuilder}
    {first : ExprResult} {results : List (BlockId × ExprResult)}
    (lowered : Lowered semantics arguments body (builder.startBlock block) first middle)
    (rest : ArmsLowered semantics arguments joins arms blocks middle results after)
    (yields : joins = true → body.yields = true)
    (empty : builder.cfg.blocks block = emptyBlock)
    (bounds : ∀ other ∈ blocks, other < builder.cfg.blockCount) (distinct : block ∉ blocks) :
    ArmsLowered semantics arguments joins ((pattern, body) :: arms) (block :: blocks) builder
      ((middle.currentBlock, first) :: results) after := by
  have grows := lowered.grows
  have exitAside := exit_kept grows bounds distinct
  have exitKept : after.cfg.blocks middle.currentBlock = middle.current :=
    rest.others _ grows.bound exitAside
  have isExit : middle.currentBlock ∈ block :: blocks ∨ builder.cfg.blockCount ≤ middle.currentBlock := by
    rcases grows.moved with same | fresh
    · rw [same]
      exact .inl (.head _)
    · exact .inr fresh
  refine {
    values := Nat.le_trans grows.values rest.values
    blockCount := Nat.le_trans grows.blocks rest.blockCount
    loops := rest.loops.trans grows.loops
    entry := rest.entry.trans grows.entry
    moved := ?moved
    bound := rest.bound
    others := ?others
    within := ?within
    diverged := ?diverged
    exits := ?exits
    distinct := ?distinct
    isOpen := ?isOpen
    hasValue := ?hasValue
    simulates := ?simulates }
  case moved =>
    rcases rest.moved with same | isBlock | fresh
    · rw [same]
      exact .inr isExit
    · exact .inr (.inl (.tail _ isBlock))
    · exact .inr (.inr (Nat.le_trans grows.blocks fresh))
  case others =>
    intro id bound other
    obtain ⟨notBlock, notRest⟩ := not_or.mp (mt List.mem_cons.mpr other)
    rw [rest.others id (Nat.lt_of_lt_of_le bound grows.blocks) notRest]
    exact grows.others id bound notBlock
  case within =>
    intro id bound
    exact (grows.within bound).trans (rest.within id (Nat.lt_of_lt_of_le bound grows.blocks))
  case diverged =>
    rw [List.all_cons, rest.diverged, lowered.diverged]
    rfl
  case exits =>
    intro arm isArm
    rcases List.mem_cons.mp isArm with rfl | isRest
    · exact isExit
    · rcases rest.exits arm isRest with isBlock | fresh
      · exact .inl (.tail _ isBlock)
      · exact .inr (Nat.le_trans grows.blocks fresh)
  case distinct =>
    refine List.nodup_cons.mpr ⟨fun isRest => ?_, rest.distinct⟩
    obtain ⟨arm, isArm, sameExit⟩ := List.mem_map.mp isRest
    rcases rest.exits arm isArm with isBlock | fresh
    · rw [sameExit] at isBlock
      exact exitAside isBlock
    · rw [sameExit] at fresh
      exact Nat.not_lt_of_ge fresh grows.bound
  case isOpen =>
    intro arm isArm continues
    rcases List.mem_cons.mp isArm with rfl | isRest
    · refine ⟨Nat.lt_of_lt_of_le grows.bound rest.blockCount, ?_⟩
      rw [exitKept]
      exact (lowered.ready continues).isOpen
    · exact rest.isOpen arm isRest continues
  case hasValue =>
    intro isJoin arm isArm continues
    rcases List.mem_cons.mp isArm with rfl | isRest
    · have undiverges := lowered.diverged.symm.trans continues
      have isYield := yields isJoin
      rw [Air.yields, undiverges, Bool.false_or] at isYield
      exact (lowered.hasValue continues).trans isYield
    · exact rest.hasValue isJoin arm isRest continues
  case simulates =>
    intro pending cfg base fuel config state final result next le completes aside loopsEnter same
      later entry isEntry isBlock isStart
    have asideBoth : ∀ id ∈ pending, id ≠ block ∧ id ∉ blocks := fun id isPending =>
      not_or.mp (mt List.mem_cons.mpr (aside id isPending).2)
    rcases List.mem_cons.mp isEntry with rfl | isRest
    · have asideStart : Aside pending (builder.startBlock block) := fun id isPending =>
        ⟨(aside id isPending).1, (asideBoth id isPending).1⟩
      have middleCompletes : Completes pending middle cfg := fun id bound notPending =>
        (rest.within id bound).trans (completes id (Nat.lt_of_lt_of_le bound rest.blockCount) notPending)
      have located : At config (builder.startBlock block) :=
        at_start (by rw [empty]; rfl) isBlock isStart
      have runs := lowered.simulates pending cfg middleCompletes asideStart loopsEnter fuel config state located same
      refine Realizes.andThen (Nat.le_refl _) (runs.base_le le) ?_
      intro value laterState last _ continues atLast sameLast _ valued
      refine later (middle.currentBlock, first) (.head _) continues value laterState last
        atLast.block ?_ sameLast valued
      rw [exitKept]
      exact atLast.pc
    · have sameLoops : middle.loopStack = builder.loopStack := grows.loops
      rw [← sameLoops] at loopsEnter later ⊢
      refine rest.simulates pending cfg base fuel config state final result next
        (Nat.le_trans le grows.values) completes ?_ loopsEnter same ?_ entry isRest isBlock isStart
      · intro id isPending
        exact ⟨Nat.lt_of_lt_of_le (aside id isPending).1 grows.blocks, (asideBoth id isPending).2⟩
      · intro arm isArm
        exact later arm (.tail _ isArm)

theorem armsLowered {joins : Bool} {arms : List (MatchPattern × Air)} {blocks : List BlockId}
    (lowersEach : ∀ arm ∈ arms, Lowers semantics arguments needsDrop arm.2)
    (sound : Air.armsLowerSoundly joins arms = true) (sameLength : arms.length = blocks.length)
    (distinct : blocks.Nodup) (builder : CfgBuilder)
    (bound : builder.currentBlock < builder.cfg.blockCount)
    (laidOut : ∀ block ∈ blocks, block < builder.cfg.blockCount ∧ builder.cfg.blocks block = emptyBlock)
    (inLoop : Air.armEscapes arms = true → builder.loopStack ≠ []) :
    ArmsLowered semantics arguments joins arms blocks builder
      (lowerArms needsDrop arms blocks builder).1 (lowerArms needsDrop arms blocks builder).2 := by
  induction arms generalizing blocks builder with
  | nil =>
    cases blocks with
    | cons block blocks => cases sameLength
    | nil => exact .nil joins bound
  | cons arm arms restLowered =>
    obtain ⟨pattern, body⟩ := arm
    cases blocks with
    | nil => cases sameLength
    | cons block blocks =>
      simp only [Air.armsLowerSoundly, Bool.and_eq_true, Bool.or_eq_true, Bool.not_eq_true'] at sound
      obtain ⟨⟨bodySound, bodyYields⟩, restSound⟩ := sound
      obtain ⟨notInRest, restDistinct⟩ := List.nodup_cons.mp distinct
      obtain ⟨blockBound, blockEmpty⟩ := laidOut block (.head _)
      have startReady : (builder.startBlock block).Ready := by
        refine ⟨blockBound, ?_⟩
        change (builder.cfg.blocks block).Open
        rw [blockEmpty]
        exact emptyBlock_open
      have lowered := lowersEach (pattern, body) (.head _) bodySound
        (builder.startBlock block) startReady fun escapes =>
          inLoop (by simp [Air.armEscapes, escapes])
      have grows := lowered.grows
      have rest := restLowered (fun other isMember => lowersEach other (.tail _ isMember)) restSound
        (Nat.succ.inj sameLength) restDistinct
        (lowerInst needsDrop body (builder.startBlock block)).2 grows.bound
        (fun other isOther => by
          obtain ⟨otherBound, otherEmpty⟩ := laidOut other (.tail _ isOther)
          have different : other ≠ block := fun same => notInRest (same ▸ isOther)
          exact ⟨Nat.lt_of_lt_of_le otherBound grows.blocks,
            (grows.others other otherBound different).trans otherEmpty⟩)
        fun escapes => by
          rw [grows.loops]
          exact inLoop (by simp [Air.armEscapes, escapes])
      refine .cons lowered rest (fun isJoin => ?_) blockEmpty
        (fun other isOther => (laidOut other (.tail _ isOther)).1) notInRest
      rw [isJoin] at bodyYields
      exact bodyYields.resolve_left Bool.false_ne_true.symm

theorem wire_counts (joinBlock : BlockId) (param : Option CfgValue)
    (results : List (BlockId × ExprResult)) (builder : CfgBuilder) :
    (results.foldl (wireToJoin joinBlock param) builder).cfg.valueCount = builder.cfg.valueCount ∧
      (results.foldl (wireToJoin joinBlock param) builder).cfg.blockCount = builder.cfg.blockCount ∧
      (results.foldl (wireToJoin joinBlock param) builder).loopStack = builder.loopStack ∧
      (results.foldl (wireToJoin joinBlock param) builder).cfg.entry = builder.cfg.entry := by
  induction results generalizing builder with
  | nil => exact ⟨rfl, rfl, rfl, rfl⟩
  | cons arm results restCounts =>
    obtain ⟨values, blocks, loops, entry⟩ := restCounts (wireToJoin joinBlock param builder arm)
    rw [List.foldl_cons, values, blocks, loops, entry]
    unfold wireToJoin
    split
    · exact ⟨rfl, rfl, rfl, rfl⟩
    · exact ⟨rfl, rfl, rfl, rfl⟩

theorem wire_other {joinBlock id : BlockId} {param : Option CfgValue}
    {results : List (BlockId × ExprResult)} (builder : CfgBuilder)
    (notExit : ∀ arm ∈ results, arm.2.diverged = false → id ≠ arm.1) :
    (results.foldl (wireToJoin joinBlock param) builder).cfg.blocks id = builder.cfg.blocks id := by
  induction results generalizing builder with
  | nil => rfl
  | cons arm results restOther =>
    rw [List.foldl_cons, restOther _ fun other isOther =>
      notExit other (.tail _ isOther)]
    unfold wireToJoin
    split
    · rfl
    · next continues =>
        exact if_neg (notExit arm (.head _) (Bool.eq_false_iff.mpr continues))

theorem wire_exit {joinBlock : BlockId} {param : Option CfgValue}
    {results : List (BlockId × ExprResult)} (builder : CfgBuilder)
    (distinct : (results.map Prod.fst).Nodup) {arm : BlockId × ExprResult} (isArm : arm ∈ results)
    (continues : arm.2.diverged = false) :
    (results.foldl (wireToJoin joinBlock param) builder).cfg.blocks arm.1 =
      { builder.cfg.blocks arm.1 with terminator := .goto joinBlock (joinArgs param arm.2) } := by
  induction results generalizing builder with
  | nil => cases isArm
  | cons first results restExit =>
    obtain ⟨notRest, restDistinct⟩ := List.nodup_cons.mp distinct
    rw [List.foldl_cons]
    rcases List.mem_cons.mp isArm with rfl | isRest
    · rw [wire_other _ fun other isOther _ same =>
        notRest (List.mem_map.mpr ⟨other, isOther, same.symm⟩)]
      simp only [wireToJoin, continues, Bool.false_eq_true, if_false]
      exact if_pos rfl
    · rw [restExit _ restDistinct isRest]
      have different : arm.1 ≠ first.1 := fun same =>
        notRest (List.mem_map.mpr ⟨arm, isRest, same⟩)
      unfold wireToJoin
      split
      · rfl
      · have unchanged : (builder.setTerminator first.1 (.goto joinBlock (joinArgs param first.2))).cfg.blocks arm.1 =
              builder.cfg.blocks arm.1 := if_neg different
        rw [unchanged]

structure JoinParamAdded (ty : Ty) (joinBlock : BlockId) (before : CfgBuilder)
    (param : Option CfgValue) (after : CfgBuilder) : Prop where
  isSome : param.isSome = carriesValue ty
  fresh : ∀ id, param = some id → before.cfg.valueCount ≤ id ∧ id < after.cfg.valueCount
  join : after.cfg.blocks joinBlock = ⟨param.toList.map fun id => (id, ty), [], .none⟩
  others : ∀ id, id ≠ joinBlock → after.cfg.blocks id = before.cfg.blocks id
  values : before.cfg.valueCount ≤ after.cfg.valueCount
  blockCount : after.cfg.blockCount = before.cfg.blockCount
  loops : after.loopStack = before.loopStack
  entry : after.cfg.entry = before.cfg.entry

theorem joinParamAdded {builder : CfgBuilder} {joinBlock : BlockId} (ty : Ty)
    (empty : builder.cfg.blocks joinBlock = emptyBlock) :
    JoinParamAdded ty joinBlock builder (builder.addJoinParam joinBlock ty).1
      (builder.addJoinParam joinBlock ty).2 := by
  unfold CfgBuilder.addJoinParam
  by_cases carries : carriesValue ty = true
  · simp only [if_pos carries]
    refine ⟨carries.symm, fun id isParam => ?_, ?_, fun id other => if_neg other, Nat.le_succ _, rfl, rfl, rfl⟩
    · rw [← Option.some.inj isParam]
      exact ⟨Nat.le_refl _, Nat.lt_succ_self _⟩
    · refine (if_pos rfl).trans ?_
      rw [empty]
      rfl
  · simp only [if_neg carries]
    refine ⟨(Bool.eq_false_iff.mpr carries).symm, fun id isParam => ?_, empty, fun _ _ => rfl,
      Nat.le_refl _, rfl, rfl, rfl⟩
    cases isParam

structure ForkLaidOut (source before : CfgBuilder) (joinBlock : BlockId) (blocks : List BlockId) :
    Prop where
  grows : Grows source before
  joinBound : joinBlock < before.cfg.blockCount
  joinEmpty : before.cfg.blocks joinBlock = emptyBlock
  joinAside : joinBlock ∉ blocks
  freshJoin : source.cfg.blockCount ≤ joinBlock
  freshBlocks : ∀ block ∈ blocks, source.cfg.blockCount ≤ block
  laidOut : ∀ block ∈ blocks, block < before.cfg.blockCount ∧ before.cfg.blocks block = emptyBlock
  distinct : blocks.Nodup

variable (semantics arguments) in
structure ArmsJoined (ty : Ty) (joinBlock : BlockId) (arms : List (MatchPattern × Air))
    (blocks : List BlockId) (source before : CfgBuilder) (result : ExprResult)
    (after : CfgBuilder) : Prop where
  grows : Grows source after
  diverged : result.diverged = Air.allDiverge arms
  ready : result.diverged = false → after.Ready
  hasValue : result.diverged = false → result.value.isSome = carriesValue ty
  valueBound : ∀ id, result.value = some id → id < after.cfg.valueCount
  completes : ∀ pending cfg, Completes pending after cfg → Completes (joinBlock :: pending) before cfg
  simulates : ∀ (pending : List BlockId) (cfg : Cfg) (fuel : Nat) (config : Config)
    (state : AirState), Completes pending after cfg → Aside pending source →
    LoopsEnter cfg source.loopStack → SameState config state →
    ∀ entry ∈ arms.zip blocks, config.block = entry.2 → config.pc = 0 →
      Realizes semantics arguments cfg source.cfg.valueCount source.loopStack after result fuel
        config (andThen (eval semantics arguments fuel entry.1.2 state) fun value state =>
          (.value (value.joined ty), state))

section Closing

variable {ty : Ty} {joinBlock : BlockId} {arms : List (MatchPattern × Air)}
  {blocks : List BlockId} {source before after : CfgBuilder}
  {results : List (BlockId × ExprResult)}

variable {joins : Bool} {pending : List BlockId} {cfg : Cfg} {param : Option CfgValue}
variable {arm : BlockId × ExprResult}

theorem ArmsLowered.exit_fresh (fork : ForkLaidOut source before joinBlock blocks)
    (lowered : ArmsLowered semantics arguments joins arms blocks before results after)
    (isArm : arm ∈ results) : source.cfg.blockCount ≤ arm.1 ∧ arm.1 ≠ joinBlock := by
  rcases lowered.exits arm isArm with isBlock | fresh
  · exact ⟨fork.freshBlocks _ isBlock, fun same => fork.joinAside (same ▸ isBlock)⟩
  · refine ⟨Nat.le_trans fork.grows.blocks fresh, fun same => ?_⟩
    rw [same] at fresh
    exact Nat.not_lt_of_ge fresh fork.joinBound

theorem ArmsLowered.grows {final : CfgBuilder} (sourceReady : source.Ready)
    (fork : ForkLaidOut source before joinBlock blocks)
    (lowered : ArmsLowered semantics arguments joins arms blocks before results after)
    (old : ∀ id, id < source.cfg.blockCount → final.cfg.blocks id = after.cfg.blocks id)
    (values : after.cfg.valueCount ≤ final.cfg.valueCount)
    (blockCount : final.cfg.blockCount = after.cfg.blockCount)
    (moved : final.currentBlock = after.currentBlock ∨ final.currentBlock = joinBlock)
    (loops : final.loopStack = after.loopStack) (entry : final.cfg.entry = after.cfg.entry) :
    Grows source final := by
  have unchanged : ∀ id, id < source.cfg.blockCount → final.cfg.blocks id = before.cfg.blocks id := by
    intro id bound
    rw [old id bound]
    refine lowered.others id (Nat.lt_of_lt_of_le bound fork.grows.blocks) fun isBlock => ?_
    exact Nat.not_lt_of_ge (fork.freshBlocks id isBlock) bound
  refine ⟨Nat.le_trans fork.grows.values (Nat.le_trans lowered.values values), ?_, ?_, ?_, ?_, ?_,
    loops.trans (lowered.loops.trans fork.grows.loops),
    entry.trans (lowered.entry.trans fork.grows.entry)⟩
  · rw [blockCount]
    exact Nat.le_trans fork.grows.blocks lowered.blockCount
  · intro id bound other
    rw [unchanged id bound]
    exact fork.grows.others id bound other
  · rw [unchanged _ sourceReady.bound]
    exact fork.grows.filled
  · rcases moved with same | isJoin
    · rw [same]
      rcases lowered.moved with same | isBlock | fresh
      · rw [same]
        exact fork.grows.moved
      · exact .inr (fork.freshBlocks _ isBlock)
      · exact .inr (Nat.le_trans fork.grows.blocks fresh)
    · rw [isJoin]
      exact .inr fork.freshJoin
  · rw [blockCount]
    rcases moved with same | isJoin
    · rw [same]
      exact lowered.bound
    · rw [isJoin]
      exact Nat.lt_of_lt_of_le fork.joinBound lowered.blockCount

theorem ArmsLowered.completes_before
    (lowered : ArmsLowered semantics arguments joins arms blocks before results after)
    (completes : Completes pending after cfg) : Completes pending before cfg :=
  fun id bound notPending => (lowered.within id bound).trans
    (completes id (Nat.lt_of_lt_of_le bound lowered.blockCount) notPending)

theorem ForkLaidOut.aside (fork : ForkLaidOut source before joinBlock blocks) (aside : Aside pending source) :
    ∀ id ∈ joinBlock :: pending, id < before.cfg.blockCount ∧ id ∉ blocks := by
  intro id isPending
  rcases List.mem_cons.mp isPending with rfl | isOuter
  · exact ⟨fork.joinBound, fork.joinAside⟩
  · have bound := (aside id isOuter).1
    exact ⟨Nat.lt_of_lt_of_le bound fork.grows.blocks,
      fun isBlock => Nat.not_lt_of_ge (fork.freshBlocks id isBlock) bound⟩

theorem ArmsLowered.close_diverged (sourceReady : source.Ready) (fork : ForkLaidOut source before joinBlock blocks)
    (lowered : ArmsLowered semantics arguments joins arms blocks before results after)
    (all : (results.all fun arm => arm.2.diverged) = true) :
    ArmsJoined semantics arguments ty joinBlock arms blocks source before .divergence
      (after.setTerminator joinBlock .unreachable) := by
  have unchanged : ∀ id, id ≠ joinBlock →
      (after.setTerminator joinBlock .unreachable).cfg.blocks id = after.cfg.blocks id :=
    fun id other => if_neg other
  have armsComplete : ∀ pending cfg, Completes pending (after.setTerminator joinBlock .unreachable) cfg →
      Completes (joinBlock :: pending) after cfg := by
    intro pending cfg completes id bound notPending
    obtain ⟨notJoin, notOuter⟩ := not_or.mp (mt List.mem_cons.mpr notPending)
    rw [← unchanged id notJoin]
    exact completes id bound notOuter
  refine {
    grows := ?grows
    diverged := all.symm.trans lowered.diverged
    ready := fun continues => by cases continues
    hasValue := fun continues => by cases continues
    valueBound := fun id isValue => by cases isValue
    completes := fun pending cfg completes =>
      lowered.completes_before (armsComplete pending cfg completes)
    simulates := ?simulates }
  case grows =>
    refine lowered.grows sourceReady fork (fun id bound => unchanged id ?_) (Nat.le_refl _) rfl (.inl rfl) rfl rfl
    exact Nat.ne_of_lt (Nat.lt_of_lt_of_le bound fork.freshJoin)
  case simulates =>
    intro pending cfg fuel config state completes aside loopsEnter same entry isEntry isBlock isStart
    rw [← fork.grows.loops] at loopsEnter ⊢
    refine lowered.simulates (joinBlock :: pending) cfg _ fuel config state _ _ _
      fork.grows.values (armsComplete pending cfg completes) (fork.aside aside) loopsEnter same ?_
      entry isEntry isBlock isStart
    intro arm isArm continues
    rw [List.all_eq_true.mp all arm isArm] at continues
    cases continues

structure Wired (joinBlock : BlockId) (results : List (BlockId × ExprResult))
    (param : Option CfgValue) (after wired : CfgBuilder) : Prop where
  exits : ∀ arm ∈ results, arm.2.diverged = false → wired.cfg.blocks arm.1 =
    { after.cfg.blocks arm.1 with terminator := .goto joinBlock (joinArgs param arm.2) }
  others : ∀ id, id ≠ joinBlock → (∀ arm ∈ results, arm.2.diverged = false → id ≠ arm.1) →
    wired.cfg.blocks id = after.cfg.blocks id

theorem ArmsLowered.wired {withParam : CfgBuilder} (fork : ForkLaidOut source before joinBlock blocks)
    (lowered : ArmsLowered semantics arguments joins arms blocks before results after)
    (added : JoinParamAdded ty joinBlock after param withParam) :
    Wired joinBlock results param after (results.foldl (wireToJoin joinBlock param) withParam) where
  exits arm isArm continues := by
    rw [wire_exit withParam lowered.distinct isArm continues, added.others arm.1 (lowered.exit_fresh fork isArm).2]
  others id notJoin notExit := by
    rw [wire_other withParam notExit, added.others id notJoin]

theorem ArmsLowered.completes_after {wired : CfgBuilder}
    (lowered : ArmsLowered semantics arguments joins arms blocks before results after)
    (isWired : Wired joinBlock results param after wired)
    (blockCount : wired.cfg.blockCount = after.cfg.blockCount)
    (completes : Completes pending wired cfg) : Completes (joinBlock :: pending) after cfg := by
  intro id bound notPending
  obtain ⟨notJoin, notOuter⟩ := not_or.mp (mt List.mem_cons.mpr notPending)
  refine BasicBlock.Within.trans ?_ (completes id (blockCount ▸ bound) notOuter)
  by_cases isExit : ∃ arm ∈ results, arm.2.diverged = false ∧ id = arm.1
  · obtain ⟨arm, isArm, continues, rfl⟩ := isExit
    rw [isWired.exits arm isArm continues]
    exact .inr ⟨(lowered.isOpen arm isArm continues).2, rfl, List.prefix_rfl⟩
  · rw [isWired.others id notJoin fun arm isArm continues same =>
      isExit ⟨arm, isArm, continues, same⟩]
    exact .refl _

theorem step_exit {wired : CfgBuilder} {config : Config} (fork : ForkLaidOut source before joinBlock blocks)
    (lowered : ArmsLowered semantics arguments joins arms blocks before results after)
    (isWired : Wired joinBlock results param after wired)
    (blockCount : wired.cfg.blockCount = after.cfg.blockCount)
    (completes : Completes pending wired cfg) (aside : Aside pending source) (isArm : arm ∈ results)
    (continues : arm.2.diverged = false) (block : config.block = arm.1)
    (pc : config.pc = (after.cfg.blocks arm.1).insts.length) :
    step semantics arguments cfg config = jump cfg config joinBlock (joinArgs param arm.2) := by
  have bound : arm.1 < wired.cfg.blockCount := by
    rw [blockCount]
    exact (lowered.isOpen arm isArm continues).1
  have within := completes arm.1 bound (aside.not_mem_of_le (lowered.exit_fresh fork isArm).1)
  rw [isWired.exits arm isArm continues] at within
  have isBlock := within.eq_of_closed (BasicBlock.closed_of_isFinal rfl)
  rw [← block] at isBlock pc
  exact step_of_terminator isBlock pc

theorem ArmsLowered.close_continues (sourceReady : source.Ready) (fork : ForkLaidOut source before joinBlock blocks)
    (lowered : ArmsLowered semantics arguments (carriesValue ty) arms blocks before results after)
    (notAll : (results.all fun arm => arm.2.diverged) = false) :
    ArmsJoined semantics arguments ty joinBlock arms blocks source before
      (.continues (after.addJoinParam joinBlock ty).1)
      ((results.foldl (wireToJoin joinBlock (after.addJoinParam joinBlock ty).1)
        (after.addJoinParam joinBlock ty).2).startBlock joinBlock) := by
  have joinKept : after.cfg.blocks joinBlock = emptyBlock :=
    (lowered.others joinBlock fork.joinBound fork.joinAside).trans fork.joinEmpty
  have added := joinParamAdded ty joinKept
  generalize after.addJoinParam joinBlock ty = run at added
  obtain ⟨param, withParam⟩ := run
  have isWired := lowered.wired fork added
  obtain ⟨values, blockCount, loops, entry⟩ := wire_counts joinBlock param results withParam
  have joinWired : (results.foldl (wireToJoin joinBlock param) withParam).cfg.blocks joinBlock =
      ⟨param.toList.map fun id => (id, ty), [], .none⟩ := by
    rw [wire_other withParam fun arm isArm _ => (lowered.exit_fresh fork isArm).2.symm]
    exact added.join
  generalize results.foldl (wireToJoin joinBlock param) withParam = wired at *
  have sameCount := blockCount.trans added.blockCount
  have joinBound : joinBlock < wired.cfg.blockCount := by
    rw [sameCount]
    exact Nat.lt_of_lt_of_le fork.joinBound lowered.blockCount
  refine {
    grows := ?grows
    diverged := notAll.symm.trans lowered.diverged
    ready := fun _ => ⟨joinBound, ?ready⟩
    hasValue := fun _ => added.isSome
    valueBound := fun id isValue => ?valueBound
    completes := fun pending cfg completes =>
      lowered.completes_before (lowered.completes_after isWired sameCount completes)
    simulates := ?simulates }
  case grows =>
    refine lowered.grows sourceReady fork (fun id bound => ?_) ?_ sameCount (.inr rfl)
      (loops.trans added.loops) (entry.trans added.entry)
    · refine isWired.others id ?_ fun arm isArm _ => ?_
      · exact Nat.ne_of_lt (Nat.lt_of_lt_of_le bound fork.freshJoin)
      · exact Nat.ne_of_lt (Nat.lt_of_lt_of_le bound (lowered.exit_fresh fork isArm).1)
    · exact Nat.le_trans added.values (Nat.le_of_eq values.symm)
  case ready =>
    change (wired.cfg.blocks joinBlock).Open
    rw [joinWired]
    exact .inl rfl
  case valueBound =>
    change id < wired.cfg.valueCount
    rw [values]
    exact (added.fresh id isValue).2
  case simulates =>
    intro pending cfg fuel config state completes aside loopsEnter same entry isEntry isBlock isStart
    have wiredCompletes : Completes pending wired cfg := completes
    have joinInsts : (wired.cfg.blocks joinBlock).insts = [] := by rw [joinWired]
    have enters : (cfg.blocks joinBlock).params = param.toList.map fun id => (id, ty) := by
      have within := wiredCompletes joinBlock joinBound (aside.not_mem_of_le fork.freshJoin)
      rw [← within.params_eq, joinWired]
    rw [← fork.grows.loops] at loopsEnter ⊢
    refine lowered.simulates (joinBlock :: pending) cfg _ fuel config state _ _ _
      fork.grows.values (lowered.completes_after isWired sameCount wiredCompletes)
      (fork.aside aside) loopsEnter same ?_ entry isEntry isBlock isStart
    intro arm isArm continues _ _ last atExit pc sameLast valued
    have steps : step semantics arguments cfg last = jump cfg last joinBlock (joinArgs param arm.2) :=
      step_exit fork lowered isWired sameCount wiredCompletes aside isArm continues atExit pc
    have carries := added.isSome
    cases param with
    | none =>
      have stepped := steps.trans (jump_nil last enters)
      exact ⟨rfl, 1, _, .single stepped, at_start joinInsts rfl rfl,
        ⟨sameLast.locals, sameLast.trace⟩, .refl _ _, fun id isValue => by cases isValue⟩
    | some id =>
      have carried : carriesValue ty = true := carries.symm
      obtain ⟨source, isSource⟩ :=
        Option.isSome_iff_exists.mp (lowered.hasValue carried arm isArm continues)
      have oneArg : joinArgs (some id) arm.2 = [source] := by
        rw [joinArgs, isSource]
        rfl
      rw [oneArg] at steps
      rw [Scalar.joined, if_pos carried]
      exact Realizes.join joinInsts enters
        (Nat.le_trans fork.grows.values (Nat.le_trans lowered.values (added.fresh id rfl).1))
        steps sameLast (valued source isSource)

theorem armsJoined (sourceReady : source.Ready) (fork : ForkLaidOut source before joinBlock blocks)
    (lowered : ArmsLowered semantics arguments (carriesValue ty) arms blocks before results after) :
    ArmsJoined semantics arguments ty joinBlock arms blocks source before
      (after.closeArms joinBlock ty results).1 (after.closeArms joinBlock ty results).2 := by
  unfold CfgBuilder.closeArms
  by_cases all : (results.all fun arm => arm.2.diverged) = true
  · rw [if_pos all]
    exact lowered.close_diverged sourceReady fork all
  · rw [if_neg all]
    exact lowered.close_continues sourceReady fork (Bool.eq_false_iff.mpr all)

end Closing

structure SameCurrent (before after : CfgBuilder) : Prop where
  block : after.currentBlock = before.currentBlock
  code : after.current = before.current

theorem SameCurrent.located {before after : CfgBuilder} {config : Config}
    (same : SameCurrent before after) (located : At config before) : At config after where
  block := located.block.trans same.block.symm
  pc := by
    rw [same.code]
    exact located.pc

theorem sameCurrent_newBlock {builder : CfgBuilder} (ready : builder.Ready) :
    SameCurrent builder builder.newBlock.2 := ⟨rfl, current_newBlock ready⟩

theorem SameCurrent.trans {first second third : CfgBuilder} (before : SameCurrent first second)
    (after : SameCurrent second third) : SameCurrent first third :=
  ⟨after.block.trans before.block, after.code.trans before.code⟩

structure NewBlocks (source : CfgBuilder) (count : Nat) (ids : List BlockId)
    (after : CfgBuilder) : Prop where
  grows : Grows source after
  ready : after.Ready
  same : SameCurrent source after
  length : ids.length = count
  distinct : ids.Nodup
  fresh : ∀ id ∈ ids, source.cfg.blockCount ≤ id
  reserved : ∀ id ∈ ids, Reserved id emptyBlock after

theorem newBlocks_laidOut {source : CfgBuilder} (ready : source.Ready) (count : Nat) :
    NewBlocks source count (source.newBlocks count).1 (source.newBlocks count).2 := by
  induction count generalizing source with
  | zero =>
    exact ⟨.refl ready, ready, ⟨rfl, rfl⟩, rfl, .nil, fun _ isId => (by cases isId), fun _ isId => by cases isId⟩
  | succ count restLaidOut =>
    have growsFirst := grows_newBlock ready
    have rest := restLaidOut (ready_newBlock ready)
    have firstReserved := (reserved_newBlock ready).after rest.grows
    refine ⟨growsFirst.trans ready rest.grows, rest.ready,
      (sameCurrent_newBlock ready).trans rest.same, congrArg Nat.succ rest.length, ?_, ?_, ?_⟩
    · refine List.nodup_cons.mpr ⟨fun isRest => ?_, rest.distinct⟩
      exact Nat.not_lt_of_ge (rest.fresh _ isRest) (Nat.lt_succ_self _)
    · intro id isId
      rcases List.mem_cons.mp isId with rfl | isRest
      · exact Nat.le_refl _
      · exact Nat.le_trans (Nat.le_succ _) (rest.fresh id isRest)
    · intro id isId
      rcases List.mem_cons.mp isId with rfl | isRest
      · exact firstReserved
      · exact rest.reserved id isRest

def forkBuilder (source : CfgBuilder) (count : Nat) : CfgBuilder :=
  (source.newBlocks count).2.newBlock.2

theorem forkLaidOut {source : CfgBuilder} (ready : source.Ready) (count : Nat) (terminator : Terminator) :
    ForkLaidOut source ((forkBuilder source count).setTerminator (forkBuilder source count).currentBlock terminator)
      (source.newBlocks count).2.newBlock.1 (source.newBlocks count).1 := by
  have news := newBlocks_laidOut ready count
  have growsJoin := grows_newBlock news.ready
  have growsEnd := grows_terminate (ready_newBlock news.ready) terminator
  have joinReserved := (reserved_newBlock news.ready).after growsEnd
  have reserved : ∀ id ∈ (source.newBlocks count).1, Reserved id emptyBlock
      ((forkBuilder source count).setTerminator (forkBuilder source count).currentBlock
        terminator) := fun id isId => ((news.reserved id isId).after growsJoin).after growsEnd
  exact {
    grows := (news.grows.trans ready growsJoin).trans ready growsEnd
    joinBound := joinReserved.bound
    joinEmpty := joinReserved.content
    joinAside := fun isBlock => Nat.lt_irrefl _ (news.reserved _ isBlock).bound
    freshJoin := news.grows.blocks
    freshBlocks := news.fresh
    laidOut := fun id isId => ⟨(reserved id isId).bound, (reserved id isId).content⟩
    distinct := news.distinct }

section Entering

variable {ty : Ty} {arms : List (MatchPattern × Air)} {source after : CfgBuilder}
  {result : ExprResult} {terminator : Terminator}

variable {config : Config} {scrutinee cond thenValue : Air} {key : Int}

theorem ArmsJoined.enter (sourceReady : source.Ready)
    (joined : ArmsJoined semantics arguments ty (source.newBlocks arms.length).2.newBlock.1 arms
      (source.newBlocks arms.length).1 source
      ((forkBuilder source arms.length).setTerminator
        (forkBuilder source arms.length).currentBlock terminator) result after)
    (final : terminator.isFinal = true) {pending : List BlockId} {cfg : Cfg} {fuel : Nat}
    {state : AirState} (completes : Completes pending after cfg) (aside : Aside pending source)
    (loopsEnter : LoopsEnter cfg source.loopStack) (located : At config source)
    (same : SameState config state) {entry : (MatchPattern × Air) × BlockId}
    (isEntry : entry ∈ arms.zip (source.newBlocks arms.length).1)
    (selects : execTerminator cfg config terminator = jump cfg config entry.2 []) :
    Realizes semantics arguments cfg source.cfg.valueCount source.loopStack after result fuel config
      (andThen (eval semantics arguments fuel entry.1.2 state) fun value state =>
        (.value (value.joined ty), state)) := by
  have fork := forkLaidOut sourceReady arms.length terminator
  have news := newBlocks_laidOut sourceReady arms.length
  have isBlock : entry.2 ∈ (source.newBlocks arms.length).1 := (List.of_mem_zip isEntry).2
  have forkCompletes := joined.completes pending cfg completes
  have asideFork : Aside ((source.newBlocks arms.length).2.newBlock.1 :: pending)
      (forkBuilder source arms.length) := by
    intro id isPending
    rcases List.mem_cons.mp isPending with rfl | isOuter
    · have reserved := reserved_newBlock news.ready
      exact ⟨reserved.bound, reserved.aside⟩
    · exact (aside.after news.grows).after (grows_newBlock news.ready) id isOuter
  have forkLocated : At config (forkBuilder source arms.length) :=
    (news.same.trans (sameCurrent_newBlock news.ready)).located located
  have steps : step semantics arguments cfg config = jump cfg config entry.2 [] :=
    (step_terminate (ready_newBlock news.ready) final forkCompletes asideFork forkLocated).trans selects
  have enters : (cfg.blocks entry.2).params = [] := by
    obtain ⟨bound, empty⟩ := fork.laidOut entry.2 isBlock
    have notPending : entry.2 ∉ (source.newBlocks arms.length).2.newBlock.1 :: pending :=
      fun isPending => (fork.aside aside entry.2 isPending).2 isBlock
    have within := forkCompletes entry.2 bound notPending
    rw [empty] at within
    exact within.params_eq.symm
  refine Realizes.of_reaches (.single (steps.trans (jump_nil config enters))) (.refl _ _) ?_
  have sameThere : SameState { config with block := entry.2, pc := 0 } state :=
    ⟨same.locals, same.trace⟩
  exact joined.simulates pending cfg fuel _ state completes aside loopsEnter sameThere entry isEntry rfl rfl

theorem Lowered.fork {expression : Air} {before : CfgBuilder} {first : ExprResult}
    (select : Nat → Scalar → AirState → Outcome × AirState) (ready : before.Ready)
    (sourceReady : source.Ready)
    (lowered : Lowered semantics arguments scrutinee before first source)
    (joined : ArmsJoined semantics arguments ty (source.newBlocks arms.length).2.newBlock.1 arms
      (source.newBlocks arms.length).1 source
      ((forkBuilder source arms.length).setTerminator
        (forkBuilder source arms.length).currentBlock terminator) result after)
    (diverges : expression.diverges = Air.allDiverge arms)
    (hasValue : expression.hasValue = carriesValue ty)
    (evaluates : ∀ fuel state, eval semantics arguments fuel expression state =
      andThen (eval semantics arguments fuel scrutinee state) (select fuel))
    (selects : ∀ cfg fuel value state config, (∀ id, first.value = some id → config.env id = value) →
      select fuel value state = (.stuck, state) ∨
      ∃ entry ∈ arms.zip (source.newBlocks arms.length).1,
        execTerminator cfg config terminator = jump cfg config entry.2 [] ∧
        select fuel value state = andThen (eval semantics arguments fuel entry.1.2 state) fun value state =>
            (.value (value.joined ty), state)) (final : terminator.isFinal = true) :
    Lowered semantics arguments expression before result after where
  grows := lowered.grows.trans ready joined.grows
  diverged := joined.diverged.trans diverges.symm
  ready := joined.ready
  hasValue continues := (joined.hasValue continues).trans hasValue.symm
  valueBound := joined.valueBound
  simulates pending cfg completes aside loopsEnter fuel config state located same := by
    rw [evaluates]
    refine lowered.simulates_then joined.grows completes aside loopsEnter located same ?_
    intro value laterState last _ _ atLast sameLast _ valued
    rcases selects cfg fuel value laterState last valued with isStuck | ⟨entry, isEntry, jumps, isArm⟩
    · rw [isStuck]
      trivial
    · rw [isArm]
      rw [← lowered.grows.loops] at loopsEnter
      exact joined.enter sourceReady final completes (aside.after lowered.grows) loopsEnter atLast
        sameLast isEntry jumps

def takeSide (thenRun elseRun : AirState → Outcome × AirState) (decision : Scalar)
    (state : AirState) : Outcome × AirState :=
  match decision.asBool with
  | none => (.stuck, state)
  | some true => thenRun state
  | some false => elseRun state

variable (semantics arguments) in
def evalJoined (ty : Ty) (fuel : Nat) (expression : Air) (state : AirState) : Outcome × AirState :=
  andThen (eval semantics arguments fuel expression state) fun value state =>
    (.value (value.joined ty), state)

theorem eval_branch_some (cond thenValue elseValue : Air) (ty : Ty) (fuel : Nat) (state : AirState) :
    eval semantics arguments fuel (.branch cond thenValue (some elseValue) ty) state =
      andThen (eval semantics arguments fuel cond state) (takeSide
          (evalJoined semantics arguments (Air.branchResultType thenValue (some elseValue)) fuel thenValue)
          (evalJoined semantics arguments (Air.branchResultType thenValue (some elseValue)) fuel elseValue)) := rfl

theorem lowers_branch_some {elseValue : Air} (ty : Ty) (lowersCond : Lowers semantics arguments needsDrop cond)
    (lowersThen : Lowers semantics arguments needsDrop thenValue)
    (lowersElse : Lowers semantics arguments needsDrop elseValue) :
    Lowers semantics arguments needsDrop (.branch cond thenValue (some elseValue) ty) := by
  intro sound builder ready inLoop
  simp only [Air.lowersSoundly, Bool.and_eq_true, Bool.or_eq_true, Bool.not_eq_true'] at sound
  obtain ⟨⟨condSound, condYields⟩, armsSound⟩ := sound
  have lowered := lowersCond condSound builder ready fun escapes =>
    inLoop (by simp [Air.escapes, escapes])
  simp only [lowerInst]
  generalize lowerInst needsDrop cond builder = run at lowered
  obtain ⟨_, middle⟩ := run
  rcases lowered.operand condYields with ⟨diverges, isNone⟩ |
    ⟨continues, undiverged, decision, isDecision, bound, isSome⟩
  · simp only [isNone]
    exact lowered.stops _ diverges (by simp [Air.diverges, diverges, Bool.true_or])
      fun fuel state => eval_branch_some cond thenValue elseValue ty fuel state
  simp only [isSome]
  have middleReady := lowered.ready undiverged
  rw [continues] at armsSound
  obtain ⟨⟨thenSound, elseSound⟩, yields⟩ := armsSound.resolve_left Bool.false_ne_true
  let arms : List (MatchPattern × Air) := [(.bool true, thenValue), (.bool false, elseValue)]
  let resultTy := Air.branchResultType thenValue (some elseValue)
  let terminator : Terminator :=
    .branch decision middle.newBlock.1 [] middle.newBlock.2.newBlock.1 []
  have fork := forkLaidOut middleReady arms.length terminator
  have armsSound : Air.armsLowerSoundly (carriesValue resultTy) arms = true := by
    simp only [arms, resultTy, Air.armsLowerSoundly, thenSound, elseSound, Bool.true_and,
      Bool.and_true, Bool.and_eq_true, Bool.or_eq_true, Bool.not_eq_true']
    rcases yields with notCarried | both
    · exact ⟨.inl notCarried, .inl notCarried⟩
    · exact ⟨.inr both.1, .inr both.2⟩
  have lowersEach : ∀ arm ∈ arms, Lowers semantics arguments needsDrop arm.2 := by
    intro arm isArm
    rcases List.mem_cons.mp isArm with rfl | isElse
    · exact lowersThen
    · cases List.mem_singleton.mp isElse
      exact lowersElse
  have armsInLoop : Air.armEscapes arms = true →
      ((forkBuilder middle arms.length).setTerminator (forkBuilder middle arms.length).currentBlock
        terminator).loopStack ≠ [] := by
    intro escapes
    rw [fork.grows.loops, lowered.grows.loops]
    refine inLoop ?_
    simp only [arms, Air.armEscapes, Bool.or_false] at escapes
    simp [Air.escapes, continues, escapes]
  have armsLower := armsLowered lowersEach armsSound rfl fork.distinct _ fork.grows.bound fork.laidOut armsInLoop
  have joined := armsJoined middleReady fork armsLower
  refine Lowered.fork _ ready middleReady lowered joined ?_ rfl
    (fun fuel state => eval_branch_some cond thenValue elseValue ty fuel state) ?_ rfl
  · simp [arms, Air.diverges, continues, Air.allDiverge]
  · intro _ fuel value state _ valued
    have decides := valued decision isDecision
    simp only [takeSide, terminator, execTerminator, decides]
    cases isBool : value.asBool with
    | none => exact .inl rfl
    | some isTrue =>
      right
      cases isTrue with
      | true => exact ⟨((.bool true, thenValue), middle.newBlock.1), (.head _), rfl, rfl⟩
      | false =>
        exact ⟨((.bool false, elseValue), middle.newBlock.2.newBlock.1), List.mem_cons_of_mem _ (.head _), rfl, rfl⟩

theorem eval_branch_none (cond thenValue : Air) (ty : Ty) (fuel : Nat) (state : AirState) :
    eval semantics arguments fuel (.branch cond thenValue none ty) state =
      eval semantics arguments fuel (.branch cond thenValue (some .unitConst) ty) state := by
  have joinedUnit : ∀ resultTy : Ty, Scalar.unit.joined resultTy = .unit := fun resultTy => by
    rw [Scalar.joined, ite_self]
  simp only [eval, andThen, joinedUnit]
  rfl

theorem lowers_branch_none (ty : Ty) (lowersCond : Lowers semantics arguments needsDrop cond)
    (lowersThen : Lowers semantics arguments needsDrop thenValue) :
    Lowers semantics arguments needsDrop (.branch cond thenValue none ty) := by
  intro sound builder ready inLoop
  have sameResult : Air.branchResultType thenValue (some .unitConst) = Air.branchResultType thenValue none := rfl
  have soundWhole : (Air.branch cond thenValue (some .unitConst) ty).lowersSoundly = true := by
    simp only [Air.lowersSoundly, Air.yields, Air.hasValue, Bool.or_true, Bool.and_true, sameResult] at sound ⊢
    exact sound
  have whole := lowers_branch_some ty lowersCond lowersThen lowers_unitConst soundWhole builder
    ready fun escapes => inLoop (by
      simp only [Air.escapes, Bool.or_false] at escapes ⊢
      exact escapes)
  refine ⟨whole.grows, whole.diverged.trans ?_, whole.ready, whole.hasValue, whole.valueBound, ?_⟩
  · simp [Air.diverges]
  · intro pending cfg completes aside loopsEnter fuel config state located same
    rw [eval_branch_none]
    exact whole.simulates pending cfg completes aside loopsEnter fuel config state located same

theorem switchCases_select (fuel : Nat) (key : Int) (state : AirState)
    (arms : List (MatchPattern × Air)) (blocks : List BlockId)
    (sameLength : arms.length = blocks.length) :
    evalArms semantics arguments fuel key arms state = (.stuck, state) ∨
      ∃ entry ∈ arms.zip blocks, evalArms semantics arguments fuel key arms state =
          eval semantics arguments fuel entry.1.2 state ∧
        ((∃ found, (switchCases ((arms.map (·.1)).zip blocks)).1.find?
            (fun entry => decide (entry.1 = key)) = some found ∧ found.2 = entry.2) ∨
          (switchCases ((arms.map (·.1)).zip blocks)).1.find? (fun entry => decide (entry.1 = key)) = none ∧
          (switchCases ((arms.map (·.1)).zip blocks)).2 = some entry.2) := by
  induction arms generalizing blocks with
  | nil => exact .inl rfl
  | cons arm arms restSelect =>
    obtain ⟨pattern, body⟩ := arm
    cases blocks with
    | nil => cases sameLength
    | cons block blocks =>
      simp only [evalArms, List.map_cons, List.zip_cons_cons, switchCases]
      cases isKey : pattern.key with
      | none =>
        have accepts : pattern.accepts key = true := by simp only [MatchPattern.accepts, isKey]
        rw [if_pos accepts]
        exact .inr ⟨((pattern, body), block), (.head _), rfl, .inr ⟨rfl, rfl⟩⟩
      | some value =>
        simp only [MatchPattern.accepts, isKey, decide_eq_true_eq]
        by_cases isValue : value = key
        · rw [if_pos isValue]
          refine .inr ⟨((pattern, body), block), (.head _), rfl, .inl ⟨(value, block), ?_, rfl⟩⟩
          rw [List.find?_cons_of_pos]
          exact decide_eq_true isValue
        · rw [if_neg isValue]
          have skips : (decide (value = key)) = false := decide_eq_false isValue
          rcases restSelect blocks (Nat.succ.inj sameLength) with
            isStuck | ⟨entry, isEntry, isBody, target⟩
          · exact .inl isStuck
          · refine .inr ⟨entry, List.mem_cons_of_mem _ isEntry, isBody, ?_⟩
            rw [List.find?_cons_of_neg (by simp [skips, Bool.false_eq_true, not_false_eq_true])]
            exact target

theorem find_dropLast {cases : List (Int × BlockId)} {found : Int × BlockId}
    (isFound : cases.find? (fun entry => decide (entry.1 = key)) = some found) :
    ((cases.dropLast.find? fun entry => decide (entry.1 = key)).map (·.2)).getD
      ((cases.getLast?.map (·.2)).getD 0) = found.2 := by
  have nonempty : cases ≠ [] := by
    rintro rfl
    cases isFound
  have whole := List.dropLast_append_getLast nonempty
  rw [← whole, List.find?_append] at isFound
  rw [List.getLast?_eq_some_getLast nonempty]
  cases early : cases.dropLast.find? (fun entry => decide (entry.1 = key)) with
  | some entry =>
    rw [early] at isFound
    rw [Option.some.inj isFound]
    rfl
  | none =>
    rw [early, Option.none_or] at isFound
    have isLast := List.mem_singleton.mp (List.mem_of_find?_eq_some isFound)
    rw [isLast]
    rfl

theorem switchTerminator_select {cfg : Cfg} {scrutinee : CfgValue}
    {cases : List (MatchPattern × BlockId)} {target : BlockId}
    (isKey : (config.env scrutinee).switchKey = some key)
    (selected : (∃ found, (switchCases cases).1.find? (fun entry => decide (entry.1 = key)) =
          some found ∧ found.2 = target) ∨
      (switchCases cases).1.find? (fun entry => decide (entry.1 = key)) = none ∧
        (switchCases cases).2 = some target) :
    execTerminator cfg config (switchTerminator scrutinee cases) = jump cfg config target [] := by
  unfold switchTerminator
  generalize switchCases cases = split at selected
  obtain ⟨_, default⟩ := split
  cases default with
  | some default =>
    simp only [execTerminator, isKey]
    rcases selected with ⟨found, isFound, isTarget⟩ | ⟨missing, isDefault⟩
    · simp [isFound, isTarget]
    · simp [missing, Option.map_none, Option.getD_none, Option.some.inj isDefault]
  | none =>
    rcases selected with ⟨found, isFound, isTarget⟩ | ⟨_, isDefault⟩
    · simp only [execTerminator, isKey]
      rw [find_dropLast isFound, isTarget]
    · cases isDefault

variable (semantics arguments) in
def takeArm (arms : List (MatchPattern × Air)) (fuel : Nat) (value : Scalar) (state : AirState) :
    Outcome × AirState :=
  match value.switchKey with
  | none => (.stuck, state)
  | some key =>
    andThen (evalArms semantics arguments fuel key arms state) fun value state =>
      (.value (value.joined (Air.matchResultType arms)), state)

theorem isFinal_switchTerminator (scrutinee : CfgValue) (cases : List (MatchPattern × BlockId)) :
    (switchTerminator scrutinee cases).isFinal = true := by
  unfold switchTerminator
  split
  · rfl
  · rfl

theorem lowers_match {arms : List (MatchPattern × Air)} (ty : Ty)
    (lowersScrutinee : Lowers semantics arguments needsDrop scrutinee)
    (lowersEach : ∀ arm ∈ arms, Lowers semantics arguments needsDrop arm.2) :
    Lowers semantics arguments needsDrop (.match scrutinee arms ty) := by
  intro sound builder ready inLoop
  simp only [Air.lowersSoundly, Bool.and_eq_true, Bool.or_eq_true] at sound
  obtain ⟨⟨scrutineeSound, scrutineeYields⟩, armsSound⟩ := sound
  have lowered := lowersScrutinee scrutineeSound builder ready fun escapes =>
    inLoop (by simp [Air.escapes, escapes])
  have evaluates : ∀ fuel state, eval semantics arguments fuel (.match scrutinee arms ty) state =
      andThen (eval semantics arguments fuel scrutinee state)
        (takeArm semantics arguments arms fuel) := fun _ _ => rfl
  simp only [lowerInst]
  generalize lowerInst needsDrop scrutinee builder = run at lowered
  obtain ⟨_, middle⟩ := run
  rcases lowered.operand scrutineeYields with ⟨diverges, isNone⟩ |
    ⟨continues, undiverged, value, isValue, bound, isSome⟩
  · simp only [isNone]
    exact lowered.stops _ diverges (by simp [Air.diverges, diverges, Bool.true_or]) evaluates
  simp only [isSome]
  have middleReady := lowered.ready undiverged
  by_cases isEmpty : arms.isEmpty = true
  · rw [if_pos isEmpty]
    have noArms := List.isEmpty_iff.mp isEmpty
    have growsEnd := grows_terminate middleReady .unreachable
    refine .leaves (lowered.grows.trans ready growsEnd) ?_ ?_
    · rw [noArms]
      simp [Air.diverges, Air.allDiverge]
    · intro _ cfg completes aside loopsEnter fuel config state located same
      rw [evaluates]
      refine lowered.simulates_then growsEnd completes aside loopsEnter located same ?_
      intro matched _ _ _ _ _ _ _ _
      rw [takeArm, noArms]
      cases matched.switchKey with
      | none => trivial
      | some key => trivial
  rw [if_neg isEmpty]
  rw [continues] at armsSound
  have fork := forkLaidOut middleReady arms.length
    (switchTerminator value ((arms.map (·.1)).zip (middle.newBlocks arms.length).1))
  have armsLength := (newBlocks_laidOut middleReady arms.length).length
  have armsLower := armsLowered lowersEach (armsSound.resolve_left Bool.false_ne_true)
    armsLength.symm fork.distinct _ fork.grows.bound fork.laidOut fun escapes => by
      rw [fork.grows.loops, lowered.grows.loops]
      refine inLoop ?_
      simp [Air.escapes, continues, escapes]
  have joined := armsJoined middleReady fork armsLower
  refine Lowered.fork (takeArm semantics arguments arms) ready middleReady lowered joined ?_ rfl
    evaluates ?_ (isFinal_switchTerminator _ _)
  · simp [Air.diverges, continues]
  · intro cfg fuel matched state config valued
    rw [takeArm]
    cases isKey : matched.switchKey with
    | none => exact .inl rfl
    | some key =>
      simp only
      rcases @switchCases_select semantics arguments fuel key state arms
        (middle.newBlocks arms.length).1 armsLength.symm with
        isStuck | ⟨entry, isEntry, isBody, target⟩
      · rw [isStuck]
        exact .inl rfl
      · rw [isBody]
        refine .inr ⟨entry, isEntry, switchTerminator_select ?_ target, rfl⟩
        rw [valued value isValue]
        exact isKey

end Entering

end Arms

end Gruel
