import Gruel.CfgBuildCore

/-!
What lowering can do to the graph under construction: it fills the block it is
in and the blocks it creates, and never touches a finished block.
-/

namespace Gruel

open Machine

namespace Air

mutual

def diverges : Air → Bool
  | .bin _ lhs rhs _ => lhs.diverges || rhs.diverges
  | .logic _ lhs rhs => lhs.diverges || rhs.diverges
  | .unary _ operand _ => operand.diverges
  | .store _ value _ => value.diverges
  | .call _ args _ => anyDiverges args
  | .block statements value _ => anyDiverges statements || value.diverges
  | .branch cond thenValue (some elseValue) _ =>
    cond.diverges || (thenValue.diverges && elseValue.diverges)
  | .branch cond _ none _ => cond.diverges
  | .match scrutinee arms _ => scrutinee.diverges || allDiverge arms
  | .break | .continue | .ret _ => true
  | .const _ _ | .boolConst _ | .unitConst | .param _ _ | .alloc _ _ | .load _ _ | .loop _ _
  | .infiniteLoop _ | .storageLive _ _ | .storageDead _ => false

def anyDiverges : List Air → Bool
  | [] => false
  | first :: rest => first.diverges || anyDiverges rest

def allDiverge : List (MatchPattern × Air) → Bool
  | [] => true
  | (_, body) :: rest => body.diverges && allDiverge rest

end

def hasValue : Air → Bool
  | .const _ _ | .boolConst _ | .unitConst | .param _ _ | .bin _ _ _ _ | .logic _ _ _
  | .unary _ _ _ | .load _ _ | .call _ _ _ | .loop _ _ | .infiniteLoop _ => true
  | .block _ value _ => value.hasValue
  | .branch _ thenValue elseValue _ => carriesValue (branchResultType thenValue elseValue)
  | .match _ arms _ => carriesValue (matchResultType arms)
  | .alloc _ _ | .store _ _ _ | .break | .continue | .ret _ | .storageLive _ _
  | .storageDead _ => false

mutual

def escapes : Air → Bool
  | .bin _ lhs rhs _ => lhs.escapes || (!lhs.diverges && rhs.escapes)
  | .logic _ lhs rhs => lhs.escapes || (!lhs.diverges && rhs.escapes)
  | .unary _ operand _ => operand.escapes
  | .alloc _ init => init.escapes
  | .store _ value _ => value.escapes
  | .call _ args _ => anyEscapes args
  | .block statements value _ =>
    anyEscapes statements || (!anyDiverges statements && value.escapes)
  | .branch cond thenValue (some elseValue) _ =>
    cond.escapes || (!cond.diverges && (thenValue.escapes || elseValue.escapes))
  | .branch cond thenValue none _ => cond.escapes || (!cond.diverges && thenValue.escapes)
  | .loop cond _ => cond.escapes
  | .match scrutinee arms _ => scrutinee.escapes || (!scrutinee.diverges && armEscapes arms)
  | .ret (some value) => value.escapes
  | .break | .continue => true
  | .ret none | .const _ _ | .boolConst _ | .unitConst | .param _ _ | .load _ _ | .infiniteLoop _
  | .storageLive _ _ | .storageDead _ => false

def anyEscapes : List Air → Bool
  | [] => false
  | first :: rest => first.escapes || (!first.diverges && anyEscapes rest)

def armEscapes : List (MatchPattern × Air) → Bool
  | [] => false
  | (_, body) :: rest => body.escapes || armEscapes rest

end

def yields (expression : Air) : Bool := expression.diverges || expression.hasValue

mutual

/-- The lowered code has no diverging right operand of `&&` or `||`, no diverging initialiser, no
`while` condition that diverges or leaves the condition, and no operand without a value. -/
def lowersSoundly : Air → Bool
  | .bin _ lhs rhs _ =>
    lhs.lowersSoundly && lhs.yields && (lhs.diverges || (rhs.lowersSoundly && rhs.yields))
  | .logic _ lhs rhs =>
    lhs.lowersSoundly && lhs.yields && (lhs.diverges || (rhs.lowersSoundly && rhs.hasValue && !rhs.diverges))
  | .unary _ operand _ => operand.lowersSoundly && operand.yields
  | .alloc _ init => init.lowersSoundly && !init.diverges
  | .store _ value _ => value.lowersSoundly && value.yields
  | .call _ args _ => argsLowerSoundly args
  | .block statements value _ =>
    statementsLowerSoundly statements && (anyDiverges statements || value.lowersSoundly)
  | .branch cond thenValue (some elseValue) _ =>
    cond.lowersSoundly && cond.yields && (cond.diverges || (thenValue.lowersSoundly && elseValue.lowersSoundly &&
          (!carriesValue (branchResultType thenValue (some elseValue)) || (thenValue.yields && elseValue.yields))))
  | .branch cond thenValue none _ =>
    cond.lowersSoundly && cond.yields && (cond.diverges || (thenValue.lowersSoundly &&
          (!carriesValue (branchResultType thenValue none) || thenValue.yields)))
  | .loop cond body =>
    cond.lowersSoundly && cond.hasValue && !cond.diverges && !cond.escapes && body.lowersSoundly
  | .infiniteLoop body => body.lowersSoundly
  | .match scrutinee arms _ =>
    scrutinee.lowersSoundly && scrutinee.yields &&
      (scrutinee.diverges || armsLowerSoundly (carriesValue (matchResultType arms)) arms)
  | .ret (some value) => value.lowersSoundly
  | .ret none | .const _ _ | .boolConst _ | .unitConst | .param _ _ | .load _ _ | .break
  | .continue | .storageLive _ _ | .storageDead _ => true

def argsLowerSoundly : List Air → Bool
  | [] => true
  | arg :: args =>
    arg.lowersSoundly && arg.yields && (arg.diverges || argsLowerSoundly args)

def statementsLowerSoundly : List Air → Bool
  | [] => true
  | statement :: statements =>
    statement.lowersSoundly && (statement.diverges || statementsLowerSoundly statements)

def armsLowerSoundly (joins : Bool) : List (MatchPattern × Air) → Bool
  | [] => true
  | (_, body) :: arms =>
    body.lowersSoundly && (!joins || body.yields) && armsLowerSoundly joins arms

end

attribute [grind =] lowersSoundly

end Air

variable {earlier later : BasicBlock}

def BasicBlock.Open (block : BasicBlock) : Prop :=
  block.terminator = .none ∨ block.terminator = .unreachable

def Terminator.isFinal : Terminator → Bool
  | .none | .unreachable => false
  | .goto _ _ | .branch _ _ _ _ _ | .switch _ _ _ | .return _ => true

theorem BasicBlock.closed_of_isFinal {block : BasicBlock}
    (final : block.terminator.isFinal = true) : ¬ block.Open := by
  rintro (isOpen | isOpen)
  · rw [isOpen] at final
    cases final
  · rw [isOpen] at final
    cases final

def BasicBlock.Within (earlier later : BasicBlock) : Prop := earlier = later ∨
    earlier.Open ∧ earlier.params = later.params ∧ earlier.insts <+: later.insts

theorem BasicBlock.Within.refl (block : BasicBlock) : block.Within block := .inl rfl

theorem BasicBlock.Within.params_eq (within : earlier.Within later) : earlier.params = later.params := by
  rcases within with rfl | ⟨_, params, _⟩
  · rfl
  · exact params

theorem BasicBlock.Within.insts_prefix (within : earlier.Within later) : earlier.insts <+: later.insts := by
  rcases within with rfl | ⟨_, _, insts⟩
  · exact List.prefix_rfl
  · exact insts

theorem BasicBlock.Within.trans {first second third : BasicBlock} (before : first.Within second)
    (after : second.Within third) : first.Within third := by
  rcases before with rfl | ⟨isOpen, params, insts⟩
  · exact after
  · exact .inr ⟨isOpen, params.trans after.params_eq, insts.trans after.insts_prefix⟩

theorem BasicBlock.Within.eq_of_closed (within : earlier.Within later) (closed : ¬ earlier.Open) :
    later = earlier := by
  rcases within with rfl | ⟨isOpen, _⟩
  · rfl
  · exact absurd isOpen closed

namespace CfgBuilder

def current (builder : CfgBuilder) : BasicBlock := builder.cfg.blocks builder.currentBlock

structure Ready (builder : CfgBuilder) : Prop where
  bound : builder.currentBlock < builder.cfg.blockCount
  isOpen : builder.current.Open

structure Grows (before after : CfgBuilder) : Prop where
  values : before.cfg.valueCount ≤ after.cfg.valueCount
  blocks : before.cfg.blockCount ≤ after.cfg.blockCount
  others : ∀ id, id < before.cfg.blockCount → id ≠ before.currentBlock → after.cfg.blocks id = before.cfg.blocks id
  filled : before.current.Within (after.cfg.blocks before.currentBlock)
  moved : after.currentBlock = before.currentBlock ∨ before.cfg.blockCount ≤ after.currentBlock
  bound : after.currentBlock < after.cfg.blockCount
  loops : after.loopStack = before.loopStack
  entry : after.cfg.entry = before.cfg.entry

namespace Grows

theorem refl {builder : CfgBuilder} (ready : builder.Ready) : Grows builder builder where
  values := Nat.le_refl _
  blocks := Nat.le_refl _
  others _ _ _ := rfl
  filled := .refl _
  moved := .inl rfl
  bound := ready.bound
  loops := rfl
  entry := rfl

theorem trans {first second third : CfgBuilder} (ready : first.Ready)
    (before : Grows first second) (after : Grows second third) : Grows first third where
  values := Nat.le_trans before.values after.values
  blocks := Nat.le_trans before.blocks after.blocks
  others id bound other := by
    have notCurrent : id ≠ second.currentBlock := by
      rcases before.moved with same | fresh
      · rw [same]
        exact other
      · omega
    have stillBound : id < second.cfg.blockCount := Nat.lt_of_lt_of_le bound before.blocks
    rw [after.others id stillBound notCurrent, before.others id bound other]
  filled := by
    refine before.filled.trans ?_
    by_cases same : first.currentBlock = second.currentBlock
    · rw [same]
      exact after.filled
    · have stillBound := Nat.lt_of_lt_of_le ready.bound before.blocks
      rw [after.others _ stillBound same]
      exact .refl _
  moved := by
    rcases after.moved with same | fresh
    · rw [same]
      exact before.moved
    · exact .inr (Nat.le_trans before.blocks fresh)
  bound := after.bound
  loops := after.loops.trans before.loops
  entry := after.entry.trans before.entry

theorem of_sameCode {before after : CfgBuilder}
    (bound : before.currentBlock < before.cfg.blockCount) (cfg : after.cfg = before.cfg)
    (block : after.currentBlock = before.currentBlock)
    (loops : after.loopStack = before.loopStack) : Grows before after where
  values := Nat.le_of_eq (by rw [cfg])
  blocks := Nat.le_of_eq (by rw [cfg])
  others _ _ _ := by rw [cfg]
  filled := by
    rw [cfg]
    exact .refl _
  moved := .inl block
  bound := by
    rw [block, cfg]
    exact bound
  loops := loops
  entry := by rw [cfg]

theorem within {before after : CfgBuilder} (grows : Grows before after) {id : BlockId}
    (bound : id < before.cfg.blockCount) :
    (before.cfg.blocks id).Within (after.cfg.blocks id) := by
  by_cases same : id = before.currentBlock
  · rw [same]
    exact grows.filled
  · rw [grows.others id bound same]
    exact .refl _

end Grows

end CfgBuilder

variable {pending : List BlockId}

def Completes (pending : List BlockId) (builder : CfgBuilder) (cfg : Cfg) : Prop :=
  ∀ id, id < builder.cfg.blockCount → id ∉ pending → (builder.cfg.blocks id).Within (cfg.blocks id)

def Aside (pending : List BlockId) (builder : CfgBuilder) : Prop :=
  ∀ id ∈ pending, id < builder.cfg.blockCount ∧ id ≠ builder.currentBlock

theorem Completes.before {before after : CfgBuilder} {cfg : Cfg}
    (grows : CfgBuilder.Grows before after) (completes : Completes pending after cfg) :
    Completes pending before cfg := by
  intro id bound aside
  exact (grows.within bound).trans (completes id (Nat.lt_of_lt_of_le bound grows.blocks) aside)

theorem Aside.after {before after : CfgBuilder} (grows : CfgBuilder.Grows before after)
    (aside : Aside pending before) : Aside pending after := by
  intro id isPending
  obtain ⟨bound, other⟩ := aside id isPending
  refine ⟨Nat.lt_of_lt_of_le bound grows.blocks, ?_⟩
  rcases grows.moved with same | fresh
  · rw [same]
    exact other
  · exact Nat.ne_of_lt (Nat.lt_of_lt_of_le bound fresh)

theorem Completes.current {builder : CfgBuilder} {cfg : Cfg}
    (completes : Completes pending builder cfg) (aside : Aside pending builder)
    (bound : builder.currentBlock < builder.cfg.blockCount) :
    builder.current.Within (cfg.blocks builder.currentBlock) :=
  completes _ bound fun isPending => (aside _ isPending).2 rfl

namespace CfgBuilder

section Emission

variable {builder : CfgBuilder}

theorem current_emit (builder : CfgBuilder) (data : CfgInstData) (ty : Ty) :
    (builder.emit data ty).2.current = { builder.current with
        insts := builder.current.insts ++ [⟨builder.cfg.valueCount, data, ty⟩] } :=
  if_pos rfl

theorem grows_emit (ready : builder.Ready) (data : CfgInstData) (ty : Ty) :
    Grows builder (builder.emit data ty).2 where
  values := Nat.le_succ _
  blocks := Nat.le_refl _
  others _ _ other := if_neg other
  filled := by
    refine .inr ⟨ready.isOpen, ?_⟩
    have filled := current_emit builder data ty
    simp only [current] at filled
    change _ = ((builder.emit data ty).2.cfg.blocks (builder.emit data ty).2.currentBlock).params ∧
      _ <+: ((builder.emit data ty).2.cfg.blocks (builder.emit data ty).2.currentBlock).insts
    rw [filled]
    exact ⟨rfl, List.prefix_append _ _⟩
  moved := .inl rfl
  bound := ready.bound
  loops := rfl
  entry := rfl

theorem ready_emit (ready : builder.Ready) (data : CfgInstData) (ty : Ty) : (builder.emit data ty).2.Ready where
  bound := ready.bound
  isOpen := by
    rw [current_emit]
    exact ready.isOpen

theorem current_terminate (builder : CfgBuilder) (terminator : Terminator) :
    (builder.setTerminator builder.currentBlock terminator).current =
      { builder.current with terminator := terminator } :=
  if_pos rfl

theorem grows_terminate (ready : builder.Ready) (terminator : Terminator) :
    Grows builder (builder.setTerminator builder.currentBlock terminator) where
  values := Nat.le_refl _
  blocks := Nat.le_refl _
  others _ _ other := if_neg other
  filled := by
    refine .inr ⟨ready.isOpen, ?_⟩
    change _ = (builder.setTerminator builder.currentBlock terminator).current.params ∧
      _ <+: (builder.setTerminator builder.currentBlock terminator).current.insts
    rw [current_terminate]
    exact ⟨rfl, List.prefix_rfl⟩
  moved := .inl rfl
  bound := ready.bound
  loops := rfl
  entry := rfl

end Emission

structure Reserved (id : BlockId) (content : BasicBlock) (builder : CfgBuilder) : Prop where
  bound : id < builder.cfg.blockCount
  aside : id ≠ builder.currentBlock
  content : builder.cfg.blocks id = content

section Reservation

variable {builder : CfgBuilder}
variable {id block : BlockId} {content : BasicBlock} {before : CfgBuilder}

theorem Reserved.after {after : CfgBuilder} (reserved : Reserved id content before) (grows : Grows before after) :
    Reserved id content after where
  bound := Nat.lt_of_lt_of_le reserved.bound grows.blocks
  aside := by
    rcases grows.moved with same | fresh
    · rw [same]
      exact reserved.aside
    · exact Nat.ne_of_lt (Nat.lt_of_lt_of_le reserved.bound fresh)
  content := (grows.others id reserved.bound reserved.aside).trans reserved.content

theorem Reserved.startBlock (reserved : Reserved id content builder) (other : id ≠ block) :
    Reserved id content (builder.startBlock block) :=
  ⟨reserved.bound, other, reserved.content⟩

theorem Reserved.addBlockParam (ty : Ty) (reserved : Reserved id content builder) :
    Reserved id { content with params := content.params ++ [(builder.cfg.valueCount, ty)] }
      (builder.addBlockParam id ty).2 where
  bound := reserved.bound
  aside := reserved.aside
  content := by
    rw [← reserved.content]
    exact if_pos rfl

theorem Reserved.addOtherParam {other : BlockId} (ty : Ty) (reserved : Reserved id content builder)
    (different : id ≠ other) :
    Reserved id content (builder.addBlockParam other ty).2 where
  bound := reserved.bound
  aside := reserved.aside
  content := (if_neg different).trans reserved.content

theorem Reserved.ready (reserved : Reserved id content builder) (isOpen : content.Open) :
    (builder.startBlock id).Ready where
  bound := reserved.bound
  isOpen := by
    rw [← reserved.content] at isOpen
    exact isOpen

theorem current_newBlock (ready : builder.Ready) : builder.newBlock.2.current = builder.current :=
  if_neg (Nat.ne_of_lt ready.bound)

theorem grows_newBlock (ready : builder.Ready) : Grows builder builder.newBlock.2 where
  values := Nat.le_refl _
  blocks := Nat.le_succ _
  others _ bound _ := if_neg (Nat.ne_of_lt bound)
  filled := by
    change builder.current.Within builder.newBlock.2.current
    rw [current_newBlock ready]
    exact .refl _
  moved := .inl rfl
  bound := Nat.lt_succ_of_lt ready.bound
  loops := rfl
  entry := rfl

theorem ready_newBlock (ready : builder.Ready) : builder.newBlock.2.Ready where
  bound := Nat.lt_succ_of_lt ready.bound
  isOpen := by
    rw [current_newBlock ready]
    exact ready.isOpen

theorem reserved_newBlock (ready : builder.Ready) : Reserved builder.newBlock.1 emptyBlock builder.newBlock.2 where
  bound := Nat.lt_succ_self _
  aside := Nat.ne_of_gt ready.bound
  content := if_pos rfl

theorem current_addOtherParam (ty : Ty) (other : block ≠ builder.currentBlock) :
    (builder.addBlockParam block ty).2.current = builder.current :=
  if_neg other.symm

theorem ready_addOtherParam (ty : Ty) (ready : builder.Ready) (other : block ≠ builder.currentBlock)
    : (builder.addBlockParam block ty).2.Ready where
  bound := ready.bound
  isOpen := by
    rw [current_addOtherParam ty other]
    exact ready.isOpen

theorem Grows.addBlockParam (ty : Ty) (ready : before.Ready) (grows : Grows before builder)
    (fresh : before.cfg.blockCount ≤ block) :
    Grows before (builder.addBlockParam block ty).2 where
  values := Nat.le_trans grows.values (Nat.le_succ _)
  blocks := grows.blocks
  others id bound other :=
    (if_neg (Nat.ne_of_lt (Nat.lt_of_lt_of_le bound fresh))).trans (grows.others id bound other)
  filled := by
    have unchanged : (builder.addBlockParam block ty).2.cfg.blocks before.currentBlock =
        builder.cfg.blocks before.currentBlock :=
      if_neg (Nat.ne_of_lt (Nat.lt_of_lt_of_le ready.bound fresh))
    rw [unchanged]
    exact grows.filled
  moved := grows.moved
  bound := grows.bound
  loops := grows.loops
  entry := grows.entry

theorem Grows.startBlock (grows : Grows before builder) (fresh : before.cfg.blockCount ≤ block)
    (bound : block < builder.cfg.blockCount) :
    Grows before (builder.startBlock block) where
  values := grows.values
  blocks := grows.blocks
  others := grows.others
  filled := grows.filled
  moved := .inr fresh
  bound := bound
  loops := grows.loops
  entry := grows.entry

end Reservation

end CfgBuilder

end Gruel
