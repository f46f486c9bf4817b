import Gruel.Arith
import Gruel.PatternCore
import Gruel.Lib.BlockGraph

/-!
How a `match` picks the block of an arm: a flat switch where the arms are told apart by one
number, else a cascade of blocks that test one pattern after the other.
-/

namespace Gruel

namespace MatchDispatch

open BlockGraph (Block Machine)
open Arith (wrap fits)

abbrev BlockId := Nat
abbrev Slot := Nat
abbrev CfgValue := Nat

structure FieldProjection where
  structId : StructId
  fieldIndex : Nat
  deriving DecidableEq, Repr

inductive CfgInstData
  | const (bits : BitVec 64)
  | boolConst (value : Bool)
  | placeRead (slot : Slot) (projection : List FieldProjection)
  | getDiscriminant (base : CfgValue)
  | enumPayloadGet (base : CfgValue) (variantIndex fieldIndex : Nat)
  | binEq (lhs rhs : CfgValue)
  | storageLive (slot : Slot)
  | alloc (slot : Slot) (init : CfgValue)
  deriving DecidableEq, Repr

structure CfgInst where
  value : CfgValue
  data : CfgInstData
  ty : Ty
  deriving DecidableEq, Repr

/-- A switch carries the type of its scrutinee, which code generation looks up. -/
inductive Terminator
  | goto (target : BlockId)
  | branch (cond : CfgValue) (thenBlock elseBlock : BlockId)
  | switch (scrutinee : CfgValue) (scrutineeTy : Ty) (cases : List (Int × BlockId)) (default : BlockId)
  | unreachable
  deriving DecidableEq, Repr

structure State where
  env : CfgValue → Option Value
  slots : Slot → Option Value

def project : Value → List FieldProjection → Option Value
  | value, [] => some value
  | .struct id fields, step :: rest =>
    if id = step.structId then (fields[step.fieldIndex]?).bind fun field => project field rest
    else none
  | _, _ :: _ => none

def State.place (state : State) (slot : Slot) (projection : List FieldProjection) : Option Value :=
  (state.slots slot).bind fun value => project value projection

def valueEq : Value → Value → Option Bool
  | .int lhs, .int rhs => some (decide (lhs = rhs))
  | .bool lhs, .bool rhs => some (lhs == rhs)
  | _, _ => none

/-- A constant is cut to the width of its type, and so is a tag. -/
def CfgInst.eval (inst : CfgInst) (state : State) : Option Value := match inst.data with
  | .const bits => some (.int (wrap inst.ty bits.toNat))
  | .boolConst value => some (.bool value)
  | .placeRead slot projection => state.place slot projection
  | .getDiscriminant base =>
    match state.env base with
    | some (.enum _ variantIndex _) => some (.int (wrap inst.ty variantIndex))
    | _ => none
  | .enumPayloadGet base variantIndex fieldIndex =>
    match state.env base with
    | some (.enum _ active fields) => if active = variantIndex then fields[fieldIndex]? else none
    | _ => none
  | .binEq lhs rhs =>
    (state.env lhs).bind fun left => (state.env rhs).bind fun right =>
      (valueEq left right).map Value.bool
  | .storageLive _ | .alloc _ _ => none

def State.bind (state : State) (name : CfgValue) (value : Value) : State :=
  { state with env := fun other => if other = name then some value else state.env other }

def State.store (state : State) (slot : Slot) (content : Option Value) : State :=
  { state with slots := fun other => if other = slot then content else state.slots other }

def exec (inst : CfgInst) (state : State) : Option State := match inst.data with
  | .storageLive slot => some (state.store slot none)
  | .alloc slot init => (state.env init).map fun value => state.store slot (some value)
  | _ => (inst.eval state).map (state.bind inst.value)

def caseMatches (scrutineeTy : Ty) (value : Value) (case : Int) : Bool := match value with
  | .int number => decide (wrap scrutineeTy case = number)
  | .bool truth => decide (case = if truth then 1 else 0)
  | .enum _ variantIndex _ => decide (case = variantIndex)
  | .struct _ _ => false

def switchTarget (scrutineeTy : Ty) (value : Value) (cases : List (Int × BlockId)) (default : BlockId) : BlockId :=
  ((cases.find? fun case => caseMatches scrutineeTy value case.1).map Prod.snd).getD default

def target (terminator : Terminator) (state : State) : Option BlockId := match terminator with
  | .goto target => some target
  | .branch cond thenBlock elseBlock =>
    match state.env cond with
    | some (.bool truth) => some (if truth then thenBlock else elseBlock)
    | _ => none
  | .switch scrutinee scrutineeTy cases default =>
    (state.env scrutinee).map fun value => switchTarget scrutineeTy value cases default
  | .unreachable => none

def machine : Machine CfgInst Terminator State where
  exec := exec
  target := target

abbrev CfgGraph := BlockGraph.Graph CfgInst Terminator

structure Builder where
  blocks : CfgGraph
  blockCount : Nat
  valueCount : Nat
  slotCount : Nat
  current : BlockId

namespace Builder

def setBlock (builder : Builder) (block : BlockId) (content : Block CfgInst Terminator) : Builder :=
  { builder with
    blocks := fun other => if other = block then content else builder.blocks other }

def currentBlock (builder : Builder) : Block CfgInst Terminator := builder.blocks builder.current

def emit (builder : Builder) (data : CfgInstData) (ty : Ty) : CfgValue × Builder :=
  let block := builder.currentBlock
  let inst : CfgInst := { value := builder.valueCount, data, ty }
  (builder.valueCount, { builder.setBlock builder.current { block with insts := block.insts ++ [inst] } with
      valueCount := builder.valueCount + 1 })

def newBlock (builder : Builder) : BlockId × Builder :=
  (builder.blockCount, { builder with blockCount := builder.blockCount + 1 })

def newBlocks (builder : Builder) (count : Nat) : List BlockId × Builder :=
  (List.range' builder.blockCount count, { builder with blockCount := builder.blockCount + count })

def allocTempLocal (builder : Builder) : Slot × Builder :=
  (builder.slotCount, { builder with slotCount := builder.slotCount + 1 })

def setTerminator (builder : Builder) (block : BlockId) (terminator : Terminator) : Builder :=
  builder.setBlock block { builder.blocks block with terminator := some terminator }

def moveTo (builder : Builder) (block : BlockId) : Builder := { builder with current := block }

def branchTo (builder : Builder) (cond : CfgValue) (thenBlock elseBlock : BlockId) : Builder :=
  builder.setTerminator builder.current (.branch cond thenBlock elseBlock)

end Builder

mutual

def isTrivialPattern : AirPattern → Bool
  | .wildcard => true
  | .bind _ _ inner => isTrivialInner inner
  | _ => false

def isTrivialInner : Option AirPattern → Bool
  | none => true
  | some pattern => isTrivialPattern pattern

end

structure Scrutinee where
  slot : Slot
  ty : Ty
  projection : List FieldProjection

structure BranchTargets where
  matched : BlockId
  unmatched : BlockId

abbrev Emission := Scrutinee → BranchTargets → Builder → Option Builder

structure SubTest where
  index : Nat
  trivial : Bool
  emission : Emission

def readProjected (scrut : Scrutinee) (builder : Builder) : CfgValue × Builder :=
  builder.emit (.placeRead scrut.slot scrut.projection) scrut.ty

def gotoMatched : Emission := fun _ targets builder =>
  some (builder.setTerminator builder.current (.goto targets.matched))

def emitLiteralTest (literal : CfgInstData) (literalTy : Ty) : Emission :=
  fun scrut targets builder =>
    let (value, builder) := readProjected scrut builder
    let (lit, builder) := builder.emit literal literalTy
    let (cond, builder) := builder.emit (.binEq value lit) .bool
    some (builder.branchTo cond targets.matched targets.unmatched)

def enumDiscriminantType (pool : TypeInternPool) (ty : Ty) : Ty := match ty.asEnum with
  | some id => (pool.enumDef id).discriminantType
  | none => .i32

def emitDiscriminantCheck (pool : TypeInternPool) (variantIndex : Nat) (scrut : Scrutinee)
    (builder : Builder) : CfgValue × Builder :=
  let discTy := enumDiscriminantType pool scrut.ty
  let (value, builder) := readProjected scrut builder
  let (disc, builder) := builder.emit (.getDiscriminant value) discTy
  let (lit, builder) := builder.emit (.const (BitVec.ofNat 64 variantIndex)) discTy
  builder.emit (.binEq disc lit) .bool

def emitFieldChain (structId : StructId) (fieldTypes : List Ty) : List SubTest → Emission
  | [], _, _, builder => some builder
  | sub :: rest, scrut, targets, builder => do
      let (next, builder) := if rest.isEmpty then (targets.matched, builder) else builder.newBlock
      let fieldTy ← fieldTypes[sub.index]?
      let subScrut := { scrut with
        ty := fieldTy
        projection := scrut.projection ++ [⟨structId, sub.index⟩] }
      let builder ← sub.emission subScrut { targets with matched := next } builder
      if rest.isEmpty then some builder
      else emitFieldChain structId fieldTypes rest scrut targets (builder.moveTo next)

def emitPayloadChain (base : CfgValue) (variantIndex : Nat) (fieldTypes : List Ty) :
    List SubTest → BranchTargets → Builder → Option Builder
  | [], _, builder => some builder
  | sub :: rest, targets, builder => do
      let (next, builder) := if rest.isEmpty then (targets.matched, builder) else builder.newBlock
      let fieldTy ← fieldTypes[sub.index]?
      let (fieldValue, builder) :=
        builder.emit (.enumPayloadGet base variantIndex sub.index) fieldTy
      let (fieldSlot, builder) := builder.allocTempLocal
      let (_, builder) := builder.emit (.storageLive fieldSlot) .unit
      let (_, builder) := builder.emit (.alloc fieldSlot fieldValue) .unit
      let subScrut := { slot := fieldSlot, ty := fieldTy, projection := [] }
      let builder ← sub.emission subScrut { targets with matched := next } builder
      if rest.isEmpty then some builder
      else emitPayloadChain base variantIndex fieldTypes rest targets (builder.moveTo next)

def emitEnumFieldTests (pool : TypeInternPool) (variantIndex : Nat) (fields : List SubTest) :
    Emission := fun scrut targets builder => do
  let enumId ← scrut.ty.asEnum
  let variant ← (pool.enumDef enumId).variants[variantIndex]?
  let nonTrivial := fields.filter fun field => !field.trivial
  if nonTrivial.isEmpty then gotoMatched scrut targets builder
  else
    let (base, builder) := readProjected scrut builder
    emitPayloadChain base variantIndex variant.fields nonTrivial targets builder

def emitVariantTest (pool : TypeInternPool) (variantIndex : Nat) (fields : List SubTest) :
    Emission := fun scrut targets builder =>
  let (cond, builder) := emitDiscriminantCheck pool variantIndex scrut builder
  if fields.all SubTest.trivial then
    some (builder.branchTo cond targets.matched targets.unmatched)
  else
    let (checked, builder) := builder.newBlock
    let builder := builder.branchTo cond checked targets.unmatched
    emitEnumFieldTests pool variantIndex fields scrut targets (builder.moveTo checked)

mutual

def emitPatternTest (pool : TypeInternPool) : AirPattern → Emission
  | .wildcard => gotoMatched
  | .int n => fun scrut => emitLiteralTest (.const (BitVec.ofInt 64 n)) scrut.ty scrut
  | .bool b => emitLiteralTest (.boolConst b) .bool
  | .enumVariant _ variantIndex | .enumUnitVariant _ variantIndex => fun scrut targets builder =>
    let (cond, builder) := emitDiscriminantCheck pool variantIndex scrut builder
    some (builder.branchTo cond targets.matched targets.unmatched)
  | .enumDataVariant _ variantIndex fields =>
    emitVariantTest pool variantIndex (elemTests pool 0 fields)
  | .enumStructVariant _ variantIndex fields =>
    emitVariantTest pool variantIndex (fieldTests pool fields)
  | .tuple elems => fun scrut targets builder => do
      let structId ← scrut.ty.asStruct
      emitFieldChain structId (pool.structDef structId).fieldTypes (elemTests pool 0 elems) scrut targets builder
  | .struct structId fields =>
    emitFieldChain structId (pool.structDef structId).fieldTypes (fieldTests pool fields)
  | .bind _ _ inner => emitInnerTest pool inner

def emitInnerTest (pool : TypeInternPool) : Option AirPattern → Emission
  | some pattern => emitPatternTest pool pattern
  | none => gotoMatched

def elemTests (pool : TypeInternPool) : Nat → List AirPattern → List SubTest
  | _, [] => []
  | index, pattern :: rest =>
    { index, trivial := isTrivialPattern pattern, emission := emitPatternTest pool pattern } ::
      elemTests pool (index + 1) rest

def fieldTests (pool : TypeInternPool) : List (Nat × AirPattern) → List SubTest
  | [] => []
  | (index, pattern) :: rest =>
    { index, trivial := isTrivialPattern pattern, emission := emitPatternTest pool pattern } :: fieldTests pool rest

end

def needsCascading (arms : List AirPattern) : Bool := arms.any fun
    | .tuple _ | .struct _ _ | .bind _ _ _ => true
    | .enumDataVariant _ _ fields => fields.any fun field => !isTrivialPattern field
    | .enumStructVariant _ _ fields => fields.any fun field => !isTrivialPattern field.2
    | _ => false

def emitArmTests (pool : TypeInternPool) (scrut : Scrutinee) (fallback : BlockId) :
    List (AirPattern × BlockId × BlockId) → Builder → Option Builder
  | [], builder => some builder
  | (pattern, arm, test) :: rest, builder => do
      let fallthrough := (rest.head?.map fun next => next.2.2).getD fallback
      let builder ← emitPatternTest pool pattern scrut
        { matched := arm, unmatched := fallthrough } (builder.moveTo test)
      emitArmTests pool scrut fallback rest builder

def lowerCascade (pool : TypeInternPool) (arms : List AirPattern) (armBlocks : List BlockId)
    (scrutinee : CfgValue) (scrutineeTy : Ty) (builder : Builder) : Option Builder :=
  let (slot, builder) := builder.allocTempLocal
  let (_, builder) := builder.emit (.storageLive slot) .unit
  let (_, builder) := builder.emit (.alloc slot scrutinee) .unit
  let (testBlocks, builder) := builder.newBlocks arms.length
  let (fallback, builder) := builder.newBlock
  let builder := builder.setTerminator fallback .unreachable
  let builder := builder.setTerminator builder.current (.goto (testBlocks.headD fallback))
  emitArmTests pool { slot, ty := scrutineeTy, projection := [] } fallback
    (arms.zip (armBlocks.zip testBlocks)) builder

def switchCase : AirPattern → Option Int
  | .int n => some n
  | .bool b => some (if b then 1 else 0)
  | .enumVariant _ variantIndex | .enumUnitVariant _ variantIndex => some variantIndex
  | .enumDataVariant _ variantIndex _ | .enumStructVariant _ variantIndex _ => some variantIndex
  | _ => none

def switchCases : List (AirPattern × BlockId) → Option (List (Int × BlockId) × Option BlockId)
  | [] => some ([], none)
  | (.wildcard, block) :: _ => some ([], some block)
  | (pattern, block) :: rest => do
      let case ← switchCase pattern
      let (cases, default) ← switchCases rest
      return ((case, block) :: cases, default)

def lowerSwitch (arms : List AirPattern) (armBlocks : List BlockId) (scrutinee : CfgValue)
    (scrutineeTy : Ty) (builder : Builder) : Option Builder := do
  let (cases, default) ← switchCases (arms.zip armBlocks)
  match default with
  | some block =>
    return builder.setTerminator builder.current (.switch scrutinee scrutineeTy cases block)
  | none =>
    let last ← cases.getLast?
    return builder.setTerminator builder.current (.switch scrutinee scrutineeTy cases.dropLast last.2)

structure Dispatch where
  armBlocks : List BlockId
  joinBlock : Option BlockId
  builder : Builder

def lowerMatchWith (cascading : Bool) (pool : TypeInternPool) (arms : List AirPattern)
    (scrutinee : CfgValue) (scrutineeTy : Ty) (builder : Builder) : Option Dispatch :=
  if arms.isEmpty then
    some ⟨[], none, builder.setTerminator builder.current .unreachable⟩
  else
    let (armBlocks, builder) := builder.newBlocks arms.length
    let (joinBlock, builder) := builder.newBlock
    (if cascading then lowerCascade pool arms armBlocks scrutinee scrutineeTy builder
      else lowerSwitch arms armBlocks scrutinee scrutineeTy builder).map
      (Dispatch.mk armBlocks (some joinBlock))

def lowerMatch (pool : TypeInternPool) (arms : List AirPattern) : CfgValue → Ty → Builder → Option Dispatch :=
  lowerMatchWith (needsCascading arms) pool arms

/-- The number a literal stands for at a type: its 64 bits are read as unsigned at an unsigned
type. -/
def literalNumber (ty : Ty) (n : Int) : Int := if ty.isSigned then n else n % 2 ^ 64

def literalAgrees (ty : Ty) (n number : Int) : Bool := decide (literalNumber ty n = number)

def wrappedAgrees (ty : Ty) (n number : Int) : Bool := decide (wrap ty n = number)

section Matching

variable (pool : TypeInternPool) (agrees : Ty → Int → Int → Bool)

mutual

def matchesBy : AirPattern → Ty → Value → Bool
  | .wildcard, _, _ => true
  | .int n, ty, .int number => agrees ty n number
  | .bool b, _, .bool truth => b == truth
  | .enumVariant id index, _, .enum valueId active _ => decide (id = valueId ∧ index = active)
  | .enumUnitVariant id index, _, .enum valueId active _ => decide (id = valueId ∧ index = active)
  | .bind _ _ inner, ty, value => matchesInner inner ty value
  | .tuple elems, _, .struct id values => matchesElems elems (pool.structDef id).fieldTypes values
  | .struct id fields, _, .struct valueId values =>
    decide (id = valueId) && matchesFields fields (pool.structDef id).fieldTypes values
  | .enumDataVariant id index fields, _, .enum valueId active values =>
    decide (id = valueId ∧ index = active) &&
      matchesElems fields (((pool.enumDef id).variants[index]?).elim [] EnumVariantDef.fields) values
  | .enumStructVariant id index fields, _, .enum valueId active values =>
    decide (id = valueId ∧ index = active) &&
      matchesFields fields (((pool.enumDef id).variants[index]?).elim [] EnumVariantDef.fields) values
  | _, _, _ => false

def matchesInner : Option AirPattern → Ty → Value → Bool
  | none, _, _ => true
  | some pattern, ty, value => matchesBy pattern ty value

def matchesElems : List AirPattern → List Ty → List Value → Bool
  | [], _, _ => true
  | pattern :: patterns, ty :: tys, value :: values =>
    matchesBy pattern ty value && matchesElems patterns tys values
  | _, _, _ => false

def matchesFields : List (Nat × AirPattern) → List Ty → List Value → Bool
  | [], _, _ => true
  | (index, pattern) :: fields, tys, values =>
    (match tys[index]?, values[index]? with
      | some ty, some value => matchesBy pattern ty value
      | _, _ => false) && matchesFields fields tys values

end

end Matching

def firstMatch (pool : TypeInternPool) (arms : List AirPattern) (ty : Ty) (value : Value) : Option Nat :=
  arms.findIdx? fun pattern => matchesBy pool literalAgrees pattern ty value

section Outcome

variable (pool : TypeInternPool)

mutual

/-- How the test of a pattern goes when sub-patterns are tested in order up to the first
mismatch; none where it comes to a struct or tuple pattern without sub-patterns. -/
def testOutcome : AirPattern → Ty → Value → Option Bool
  | .bind _ _ inner, ty, value => testInner inner ty value
  | .tuple [], _, _ => none
  | .tuple (elem :: elems), _, .struct id values =>
    testElems (elem :: elems) (pool.structDef id).fieldTypes values
  | .struct _ [], _, _ => none
  | .struct _ (field :: fields), _, .struct id values =>
    testFields (field :: fields) (pool.structDef id).fieldTypes values
  | .enumDataVariant id index fields, _, .enum _ active values =>
    if index = active then
      testElems fields (((pool.enumDef id).variants[index]?).elim [] EnumVariantDef.fields) values
    else some false
  | .enumStructVariant id index fields, _, .enum _ active values =>
    if index = active then
      testFields fields (((pool.enumDef id).variants[index]?).elim [] EnumVariantDef.fields) values
    else some false
  | pattern, ty, value => some (matchesBy pool wrappedAgrees pattern ty value)

def testInner : Option AirPattern → Ty → Value → Option Bool
  | none, _, _ => some true
  | some pattern, ty, value => testOutcome pattern ty value

def testElems : List AirPattern → List Ty → List Value → Option Bool
  | pattern :: patterns, ty :: tys, value :: values =>
    match testOutcome pattern ty value with
    | some true => testElems patterns tys values
    | outcome => outcome
  | _, _, _ => some true

def testFields : List (Nat × AirPattern) → List Ty → List Value → Option Bool
  | [], _, _ => some true
  | (index, pattern) :: fields, tys, values =>
    match tys[index]?, values[index]? with
    | some ty, some value =>
      match testOutcome pattern ty value with
      | some true => testFields fields tys values
      | outcome => outcome
    | _, _ => some false

end

end Outcome

mutual

/-- A value of a type: its integers are in the range of theirs, and a variant index has 32 bits. -/
def Holds (pool : TypeInternPool) : Value → Ty → Prop
  | .int number, ty => ty.isInteger = true ∧ fits ty number
  | .bool _, ty => ty = .bool
  | .struct id fields, ty => ty = .struct id ∧ HoldAll pool fields (pool.structDef id).fieldTypes
  | .enum id variantIndex fields, ty => ty = .enum id ∧ variantIndex < 2 ^ 32 ∧
      ∃ variant, (pool.enumDef id).variants[variantIndex]? = some variant ∧ HoldAll pool fields variant.fields

def HoldAll (pool : TypeInternPool) : List Value → List Ty → Prop
  | [], [] => True
  | value :: values, ty :: tys => Holds pool value ty ∧ HoldAll pool values tys
  | _, _ => False

end

mutual

def TypedAs (pool : TypeInternPool) : AirPattern → Ty → Prop
  | .wildcard, _ => True
  | .int _, ty => ty.isInteger = true
  | .bool _, ty => ty = .bool
  | .enumVariant id index, ty | .enumUnitVariant id index, ty =>
    ty = .enum id ∧ index < 2 ^ 32 ∧ index < (pool.enumDef id).variants.length
  | .bind _ _ inner, ty => TypedInner pool inner ty
  | .tuple elems, ty => ∃ id, ty = .struct id ∧ TypedElems pool elems (pool.structDef id).fieldTypes
  | .struct id fields, ty => ty = .struct id ∧ TypedFields pool fields (pool.structDef id).fieldTypes
  | .enumDataVariant id index fields, ty => ty = .enum id ∧ index < 2 ^ 32 ∧
      ∃ variant, (pool.enumDef id).variants[index]? = some variant ∧ TypedElems pool fields variant.fields
  | .enumStructVariant id index fields, ty => ty = .enum id ∧ index < 2 ^ 32 ∧
      ∃ variant, (pool.enumDef id).variants[index]? = some variant ∧ TypedFields pool fields variant.fields

def TypedInner (pool : TypeInternPool) : Option AirPattern → Ty → Prop
  | none, _ => True
  | some pattern, ty => TypedAs pool pattern ty

def TypedElems (pool : TypeInternPool) : List AirPattern → List Ty → Prop
  | [], [] => True
  | pattern :: patterns, ty :: tys => TypedAs pool pattern ty ∧ TypedElems pool patterns tys
  | _, _ => False

def TypedFields (pool : TypeInternPool) : List (Nat × AirPattern) → List Ty → Prop
  | [], _ => True
  | (index, pattern) :: fields, tys =>
    (∃ ty, tys[index]? = some ty ∧ TypedAs pool pattern ty) ∧ TypedFields pool fields tys

end

end MatchDispatch

end Gruel
