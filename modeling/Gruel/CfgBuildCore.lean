import Gruel.CfgCore

/-!
The lowering from the tree representation to the control flow graph, with its
loop stack, its scopes for drop elaboration and its divergence flag.
-/

namespace Gruel

structure ExprResult where
  value : Option CfgValue
  diverged : Bool
  deriving DecidableEq, Repr

namespace ExprResult

def continues (value : Option CfgValue) : ExprResult := ⟨value, false⟩

def divergence : ExprResult := ⟨none, true⟩

end ExprResult

structure LoopContext where
  header : BlockId
  exit : BlockId
  scopeDepth : Nat

structure LiveSlot where
  slot : Nat
  ty : Ty
  deriving DecidableEq, Repr

structure LiveParam where
  paramSlot : Nat
  ty : Ty
  deriving DecidableEq, Repr

/-- The stacks hold their innermost entry first, each scope its newest slot first. -/
structure CfgBuilder where
  cfg : Cfg
  currentBlock : BlockId
  loopStack : List LoopContext
  scopeStack : List (List LiveSlot)
  slotOriginDepth : Nat → Option Nat
  liveParams : List LiveParam

def emptyBlock : BasicBlock := ⟨[], [], .none⟩

def setBlock (blocks : BlockId → BasicBlock) (id : BlockId) (block : BasicBlock) :
    BlockId → BasicBlock := fun other => if other = id then block else blocks other

namespace CfgBuilder

def newBlock (builder : CfgBuilder) : BlockId × CfgBuilder :=
  let id := builder.cfg.blockCount
  (id, { builder with
    cfg := { builder.cfg with
      blocks := setBlock builder.cfg.blocks id emptyBlock
      blockCount := id + 1 } })

def newBlocks (builder : CfgBuilder) : Nat → List BlockId × CfgBuilder
  | 0 => ([], builder)
  | count + 1 =>
    let (id, builder) := builder.newBlock
    let (ids, builder) := builder.newBlocks count
    (id :: ids, builder)

def addBlockParam (builder : CfgBuilder) (block : BlockId) (ty : Ty) : CfgValue × CfgBuilder :=
  let id := builder.cfg.valueCount
  let old := builder.cfg.blocks block
  (id, { builder with
    cfg := { builder.cfg with
      blocks := setBlock builder.cfg.blocks block { old with params := old.params ++ [(id, ty)] }
      valueCount := id + 1 } })

def emit (builder : CfgBuilder) (data : CfgInstData) (ty : Ty) : CfgValue × CfgBuilder :=
  let id := builder.cfg.valueCount
  let old := builder.cfg.blocks builder.currentBlock
  (id, { builder with
    cfg := { builder.cfg with
      blocks := setBlock builder.cfg.blocks builder.currentBlock { old with insts := old.insts ++ [⟨id, data, ty⟩] }
      valueCount := id + 1 } })

def emitOnly (builder : CfgBuilder) (data : CfgInstData) (ty : Ty) : CfgBuilder :=
  (builder.emit data ty).2

def setTerminator (builder : CfgBuilder) (block : BlockId) (terminator : Terminator) : CfgBuilder :=
  let old := builder.cfg.blocks block
  { builder with
    cfg := { builder.cfg with
      blocks := setBlock builder.cfg.blocks block { old with terminator := terminator } } }

def startBlock (builder : CfgBuilder) (block : BlockId) : CfgBuilder :=
  { builder with currentBlock := block }

def pushLoop (builder : CfgBuilder) (header exit : BlockId) : CfgBuilder :=
  { builder with loopStack := ⟨header, exit, builder.scopeStack.length⟩ :: builder.loopStack }

def popLoop (builder : CfgBuilder) : CfgBuilder :=
  { builder with loopStack := builder.loopStack.tail }

def pushScope (builder : CfgBuilder) : CfgBuilder :=
  { builder with scopeStack := [] :: builder.scopeStack }

def forgetLocalSlot (builder : CfgBuilder) (slot : Nat) : CfgBuilder :=
  { builder with
    scopeStack := builder.scopeStack.map fun scope => scope.filter fun live =>
      decide (live.slot ≠ slot) }

def forgetParam (builder : CfgBuilder) (paramSlot : Nat) : CfgBuilder :=
  { builder with
    liveParams := builder.liveParams.filter fun live => decide (live.paramSlot ≠ paramSlot) }

def addToScope (scopes : List (List LiveSlot)) (depth : Nat) (live : LiveSlot) : List (List LiveSlot) :=
  scopes.modify (scopes.length - 1 - depth) fun scope => live :: scope

def reAddLocalSlot (builder : CfgBuilder) (slot : Nat) (ty : Ty) : CfgBuilder :=
  if builder.scopeStack.any fun scope => scope.any fun live => decide (live.slot = slot) then
    builder
  else
    let innermost := builder.scopeStack.length - 1
    let depth := min ((builder.slotOriginDepth slot).getD innermost) innermost
    { builder with scopeStack := addToScope builder.scopeStack depth ⟨slot, ty⟩ }

def registerLive (builder : CfgBuilder) (slot : Nat) (ty : Ty) : CfgBuilder :=
  { builder with
    slotOriginDepth := fun other =>
      if other = slot then some (builder.scopeStack.length - 1) else builder.slotOriginDepth other
    scopeStack :=
      match builder.scopeStack with
      | [] => []
      | scope :: scopes => (⟨slot, ty⟩ :: scope) :: scopes }

section Drops

variable (needsDrop : Ty → Bool)

def forgetConsumedValue (builder : CfgBuilder) : Air → CfgBuilder
  | .load slot ty => if needsDrop ty then builder.forgetLocalSlot slot else builder
  | .param index ty => if needsDrop ty then builder.forgetParam index else builder
  | _ => builder

def forgetConsumedValues (builder : CfgBuilder) (values : List Air) : CfgBuilder :=
  values.foldl (forgetConsumedValue needsDrop) builder

def emitDropForSlot (builder : CfgBuilder) (live : LiveSlot) : CfgBuilder :=
  let builder :=
    if needsDrop live.ty then
      let (value, builder) := builder.emit (.load live.slot) live.ty
      builder.emitOnly (.drop value) .unit
    else builder
  builder.emitOnly (.storageDead live.slot) .unit

def emitDropForParam (builder : CfgBuilder) (live : LiveParam) : CfgBuilder :=
  let (value, builder) := builder.emit (.param live.paramSlot) live.ty
  builder.emitOnly (.drop value) .unit

def emitDropsForSlots (builder : CfgBuilder) (slots : List LiveSlot) : CfgBuilder :=
  slots.foldl (emitDropForSlot needsDrop) builder

def emitDropsForAllScopes (builder : CfgBuilder) : CfgBuilder :=
  let params := builder.liveParams.reverse
  params.foldl emitDropForParam (builder.emitDropsForSlots needsDrop builder.scopeStack.flatten)

def emitDropsForLoopExit (builder : CfgBuilder) (targetDepth : Nat) : CfgBuilder :=
  builder.emitDropsForSlots needsDrop (builder.scopeStack.take (builder.scopeStack.length - targetDepth)).flatten

def popScope (builder : CfgBuilder) (diverged : Bool) : CfgBuilder :=
  match builder.scopeStack with
  | [] => builder
  | scope :: scopes =>
    let builder := { builder with scopeStack := scopes }
    if diverged then builder else builder.emitDropsForSlots needsDrop scope

def prepareStore (builder : CfgBuilder) (slot : Nat) (ty : Ty) (hadLiveValue : Bool) : CfgBuilder :=
  if hadLiveValue && needsDrop ty then
    let (old, builder) := builder.emit (.load slot) ty
    builder.emitOnly (.drop old) .unit
  else if !hadLiveValue && needsDrop ty then builder.reAddLocalSlot slot ty
  else builder

end Drops

end CfgBuilder

def LogicOp.branch (op : LogicOp) (cond : CfgValue) (rhsBlock joinBlock : BlockId)
    (decided : CfgValue) : Terminator :=
  match op with
  | .and => .branch cond rhsBlock [] joinBlock [decided]
  | .or => .branch cond joinBlock [decided] rhsBlock []

structure OpenedLogic where
  joinBlock : BlockId
  resultParam : CfgValue
  decided : CfgValue
  builder : CfgBuilder

/-- End the current block with the branch on the left operand and start the block of the right
operand; the join receives the decided result or the right operand. -/
def CfgBuilder.openLogic (builder : CfgBuilder) (op : LogicOp) (left : CfgValue) : OpenedLogic :=
  let (rhsBlock, builder) := builder.newBlock
  let (joinBlock, builder) := builder.newBlock
  let (resultParam, builder) := builder.addBlockParam joinBlock .bool
  let (decided, builder) := builder.emit (.boolConst op.decides) .bool
  let builder := builder.setTerminator builder.currentBlock (op.branch left rhsBlock joinBlock decided)
  ⟨joinBlock, resultParam, decided, builder.startBlock rhsBlock⟩

def switchCases : List (MatchPattern × BlockId) → List (Int × BlockId) × Option BlockId
  | [] => ([], none)
  | (pattern, block) :: rest =>
    match pattern.key with
    | none => ([], some block)
    | some key =>
      let (cases, default) := switchCases rest
      ((key, block) :: cases, default)

def switchTerminator (scrutinee : CfgValue) (arms : List (MatchPattern × BlockId)) : Terminator :=
  match switchCases arms with
  | (cases, some default) => .switch scrutinee cases default
  | (cases, none) =>
    .switch scrutinee cases.dropLast ((cases.getLast?.map (·.2)).getD 0)

def joinArgs (resultParam : Option CfgValue) (result : ExprResult) : List CfgValue :=
  if resultParam.isSome then result.value.toList else []

open CfgBuilder in
def wireToJoin (joinBlock : BlockId) (resultParam : Option CfgValue) (builder : CfgBuilder)
    (arm : BlockId × ExprResult) : CfgBuilder :=
  if arm.2.diverged then builder
  else builder.setTerminator arm.1 (.goto joinBlock (joinArgs resultParam arm.2))

def CfgBuilder.addJoinParam (builder : CfgBuilder) (joinBlock : BlockId) (ty : Ty) : Option CfgValue × CfgBuilder :=
  if carriesValue ty then
    let (param, builder) := builder.addBlockParam joinBlock ty
    (some param, builder)
  else (none, builder)

structure OpenedBranch where
  elseBlock : BlockId
  joinBlock : BlockId
  builder : CfgBuilder

def CfgBuilder.openBranch (builder : CfgBuilder) (decision : CfgValue) : OpenedBranch :=
  let (thenBlock, builder) := builder.newBlock
  let (elseBlock, builder) := builder.newBlock
  let (joinBlock, builder) := builder.newBlock
  let builder := builder.setTerminator builder.currentBlock (.branch decision thenBlock [] elseBlock [])
  ⟨elseBlock, joinBlock, builder.startBlock thenBlock⟩

def CfgBuilder.closeArms (builder : CfgBuilder) (joinBlock : BlockId) (ty : Ty)
    (results : List (BlockId × ExprResult)) : ExprResult × CfgBuilder :=
  if results.all fun arm => arm.2.diverged then
    (.divergence, builder.setTerminator joinBlock .unreachable)
  else
    let (resultParam, builder) := builder.addJoinParam joinBlock ty
    let builder := results.foldl (wireToJoin joinBlock resultParam) builder
    (.continues resultParam, builder.startBlock joinBlock)

def CfgBuilder.enterLoop (builder : CfgBuilder) (header exit : BlockId) : CfgBuilder :=
  let builder := builder.setTerminator builder.currentBlock (.goto header [])
  (builder.pushLoop header exit).startBlock header

def closeBody (header : BlockId) (lowered : ExprResult × CfgBuilder) : CfgBuilder :=
  if lowered.1.diverged then lowered.2
  else lowered.2.setTerminator lowered.2.currentBlock (.goto header [])

def lowerValue (lowered : ExprResult × CfgBuilder) : Option CfgValue × CfgBuilder :=
  (if lowered.1.diverged then none else lowered.1.value, lowered.2)

section Lowering

variable (needsDrop : Ty → Bool)

open CfgBuilder ExprResult

mutual

def lowerInst : Air → CfgBuilder → ExprResult × CfgBuilder
  | .const value ty, builder =>
    let (id, builder) := builder.emit (.const value) ty
    (.continues (some id), builder)
  | .boolConst value, builder =>
    let (id, builder) := builder.emit (.boolConst value) .bool
    (.continues (some id), builder)
  | .unitConst, builder =>
    let (id, builder) := builder.emit (.const 0) .unit
    (.continues (some id), builder)
  | .param index ty, builder =>
    let (id, builder) := builder.emit (.param index) ty
    (.continues (some id), builder)
  | .bin op lhs rhs ty, builder =>
    match lowerValue (lowerInst lhs builder) with
    | (none, builder) => (.divergence, builder)
    | (some left, builder) =>
      match lowerValue (lowerInst rhs builder) with
      | (none, builder) => (.divergence, builder)
      | (some right, builder) =>
        let (id, builder) := builder.emit (.bin op left right) ty
        (.continues (some id), builder)
  | .logic op lhs rhs, builder =>
    match lowerValue (lowerInst lhs builder) with
    | (none, builder) => (.divergence, builder)
    | (some left, builder) =>
      let opened := builder.openLogic op left
      match lowerValue (lowerInst rhs opened.builder) with
      | (none, builder) => (.divergence, builder)
      | (some right, builder) =>
        let builder := builder.setTerminator builder.currentBlock (.goto opened.joinBlock [right])
        (.continues (some opened.resultParam), builder.startBlock opened.joinBlock)
  | .unary op operand ty, builder =>
    match lowerValue (lowerInst operand builder) with
    | (none, builder) => (.divergence, builder)
    | (some value, builder) =>
      let (id, builder) := builder.emit (.unary op value) ty
      (.continues (some id), builder)
  | .alloc slot init, builder =>
    let builder := builder.forgetConsumedValue needsDrop init
    let (result, builder) := lowerInst init builder
    let (initValue, builder) :=
      match result.value with
      | some value => (value, builder)
      | none => builder.emit (.const 0) .unit
    (.continues none, builder.emitOnly (.alloc slot initValue) .unit)
  | .load slot ty, builder =>
    let (id, builder) := builder.emit (.load slot) ty
    (.continues (some id), builder)
  | .store slot value hadLiveValue, builder =>
    match lowerValue (lowerInst value builder) with
    | (none, builder) => (.divergence, builder)
    | (some stored, builder) =>
      let builder := builder.prepareStore needsDrop slot value.ty hadLiveValue
      (.continues none, builder.emitOnly (.store slot stored) .unit)
  | .call name args ty, builder =>
    match lowerArgs args builder with
    | (none, builder) => (.divergence, builder)
    | (some values, builder) =>
      let builder := builder.forgetConsumedValues needsDrop args
      let (id, builder) := builder.emit (.call name values) ty
      (.continues (some id), builder)
  | .block statements value _, builder =>
    if statements.all Air.isStorageLive then
      match lowerStatements statements builder with
      | (true, builder) => (.divergence, builder)
      | (false, builder) => lowerInst value builder
    else
      match lowerStatements statements builder.pushScope with
      | (true, builder) => (.divergence, builder)
      | (false, builder) =>
        let (result, builder) := lowerInst value builder
        let builder := builder.forgetConsumedValue needsDrop value
        (result, builder.popScope needsDrop result.diverged)
  | .branch cond thenValue none _, builder =>
    match lowerValue (lowerInst cond builder) with
    | (none, builder) => (.divergence, builder)
    | (some decision, builder) =>
      let opened := builder.openBranch decision
      let (thenResult, builder) := lowerInst thenValue opened.builder
      let thenExit := builder.currentBlock
      let (unit, builder) := (builder.startBlock opened.elseBlock).emit (.const 0) .unit
      builder.closeArms opened.joinBlock (Air.branchResultType thenValue none)
        [(thenExit, thenResult), (builder.currentBlock, .continues (some unit))]
  | .branch cond thenValue (some elseValue) _, builder =>
    match lowerValue (lowerInst cond builder) with
    | (none, builder) => (.divergence, builder)
    | (some decision, builder) =>
      let opened := builder.openBranch decision
      let (thenResult, builder) := lowerInst thenValue opened.builder
      let thenExit := builder.currentBlock
      let (elseResult, builder) :=
        lowerInst elseValue (builder.startBlock opened.elseBlock)
      builder.closeArms opened.joinBlock (Air.branchResultType thenValue (some elseValue))
        [(thenExit, thenResult), (builder.currentBlock, elseResult)]
  | .loop cond body, builder =>
    let (headerBlock, builder) := builder.newBlock
    let (bodyBlock, builder) := builder.newBlock
    let (exitBlock, builder) := builder.newBlock
    match lowerValue (lowerInst cond (builder.enterLoop headerBlock exitBlock)) with
    | (none, builder) => (.divergence, builder)
    | (some decision, builder) =>
      let builder := builder.setTerminator builder.currentBlock (.branch decision bodyBlock [] exitBlock [])
      let builder := closeBody headerBlock (lowerInst body (builder.startBlock bodyBlock))
      let (unit, builder) := (builder.popLoop.startBlock exitBlock).emit (.const 0) .unit
      (.continues (some unit), builder)
  | .infiniteLoop body, builder =>
    let (bodyBlock, builder) := builder.newBlock
    let (exitBlock, builder) := builder.newBlock
    let builder := closeBody bodyBlock (lowerInst body (builder.enterLoop bodyBlock exitBlock))
    let builder := (builder.popLoop.startBlock exitBlock).setTerminator exitBlock .unreachable
    let (unit, builder) := builder.emit (.const 0) .unit
    (.continues (some unit), builder)
  | .match scrutinee arms _, builder =>
    match lowerValue (lowerInst scrutinee builder) with
    | (none, builder) => (.divergence, builder)
    | (some value, builder) =>
      if arms.isEmpty then
        (.divergence, builder.setTerminator builder.currentBlock .unreachable)
      else
        let (armBlocks, builder) := builder.newBlocks arms.length
        let (joinBlock, builder) := builder.newBlock
        let builder := builder.setTerminator builder.currentBlock
          (switchTerminator value ((arms.map (·.1)).zip armBlocks))
        let (results, builder) := lowerArms arms armBlocks builder
        builder.closeArms joinBlock (Air.matchResultType arms) results
  | .break, builder =>
    match builder.loopStack with
    | [] => (.divergence, builder)
    | loop :: _ =>
      let builder := builder.emitDropsForLoopExit needsDrop loop.scopeDepth
      (.divergence, builder.setTerminator builder.currentBlock (.goto loop.exit []))
  | .continue, builder =>
    match builder.loopStack with
    | [] => (.divergence, builder)
    | loop :: _ =>
      let builder := builder.emitDropsForLoopExit needsDrop loop.scopeDepth
      (.divergence, builder.setTerminator builder.currentBlock (.goto loop.header []))
  | .ret none, builder =>
    let builder := builder.emitDropsForAllScopes needsDrop
    (.divergence, builder.setTerminator builder.currentBlock (.return none))
  | .ret (some value), builder =>
    let (result, builder) := lowerInst value builder
    if result.diverged then (.divergence, builder)
    else
      let builder := builder.forgetConsumedValue needsDrop value
      let builder := builder.emitDropsForAllScopes needsDrop
      (.divergence, builder.setTerminator builder.currentBlock (.return result.value))
  | .storageLive slot ty, builder =>
    (.continues none, (builder.emitOnly (.storageLive slot) .unit).registerLive slot ty)
  | .storageDead slot, builder =>
    (.continues none, builder.emitOnly (.storageDead slot) .unit)

def lowerArgs : List Air → CfgBuilder → Option (List CfgValue) × CfgBuilder
  | [], builder => (some [], builder)
  | arg :: args, builder =>
    match lowerValue (lowerInst arg builder) with
    | (none, builder) => (none, builder)
    | (some value, builder) =>
      match lowerArgs args builder with
      | (none, builder) => (none, builder)
      | (some values, builder) => (some (value :: values), builder)

def lowerStatements : List Air → CfgBuilder → Bool × CfgBuilder
  | [], builder => (false, builder)
  | statement :: statements, builder =>
    let (result, builder) := lowerInst statement builder
    if result.diverged then (true, builder) else lowerStatements statements builder

def lowerArms : List (MatchPattern × Air) → List BlockId → CfgBuilder → List (BlockId × ExprResult) × CfgBuilder
  | (_, body) :: arms, block :: blocks, builder =>
    let (result, builder) := lowerInst body (builder.startBlock block)
    let exit := builder.currentBlock
    let (results, builder) := lowerArms arms blocks builder
    ((exit, result) :: results, builder)
  | _, _, builder => ([], builder)

end

attribute [grind =] lowerInst

structure ParamSlot where
  ty : Ty
  byRef : Bool
  deriving DecidableEq, Repr

structure AnalyzedFunction where
  root : Air
  paramSlots : List ParamSlot
  isDestructor : Bool

def ownedParams (slotCount : Ty → Nat) : Nat → Nat → List ParamSlot → List LiveParam
  | _, _, [] => []
  | index, skip + 1, _ :: slots => ownedParams slotCount (index + 1) skip slots
  | index, 0, slot :: slots =>
    let rest := ownedParams slotCount (index + 1) (max (slotCount slot.ty) 1 - 1) slots
    if !slot.byRef && needsDrop slot.ty then ⟨index, slot.ty⟩ :: rest else rest

def entryBuilder (liveParams : List LiveParam) : CfgBuilder :=
  let empty : CfgBuilder :=
    { cfg := ⟨0, fun _ => emptyBlock, 0, 0⟩
      currentBlock := 0
      loopStack := []
      scopeStack := [[]]
      slotOriginDepth := fun _ => none
      liveParams := liveParams }
  let (entry, builder) := empty.newBlock
  { builder.startBlock entry with cfg := { builder.cfg with entry := entry } }

def build (slotCount : Ty → Nat) (func : AnalyzedFunction) : Cfg :=
  let liveParams :=
    if func.isDestructor then [] else ownedParams needsDrop slotCount 0 0 func.paramSlots
  (lowerInst needsDrop func.root (entryBuilder liveParams)).2.cfg

end Lowering

end Gruel
