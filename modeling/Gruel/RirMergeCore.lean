import Gruel.AirCore
import Gruel.RirCodec

/-!
The instructions of the untyped representation and `Rir::merge`, which joins the
per-file instruction arrays and renumbers the references in two places: the
instruction's own fields, and the words of its lists in the extra array.
-/

namespace Gruel

open WordStream

inductive InstData
  | intConst (value : BitVec 64)
  | floatConst (bits : BitVec 64)
  | boolConst (value : Bool)
  | charConst (value : Word)
  | stringConst (content : Spur)
  | unitConst
  | bin (op : BinOp) (lhs rhs : InstRef)
  | unary (op : UnaryOp) (operand : InstRef)
  | makeRef (operand : InstRef) (isMut : Bool)
  | bareRangeSubscript
  | makeSlice (base : InstRef) (lo hi : Option InstRef) (isMut : Bool)
  | branch (cond thenBlock : InstRef) (elseBlock : Option InstRef) (isComptime : Bool)
  | loop (cond body : InstRef)
  | forIn (binding : Spur) (isMut : Bool) (iterable body : InstRef)
  | infiniteLoop (body : InstRef)
  | matchOn (scrutinee : InstRef) (armsStart armsLen : Word)
  | break
  | continue
  | fnDecl (directivesStart directivesLen : Word) (isPub isUnchecked : Bool) (name : Spur)
      (paramsStart paramsLen : Word) (returnType : Spur) (body : InstRef) (hasSelf : Bool)
      (receiverMode : BitVec 8)
  | constDecl (directivesStart directivesLen : Word) (isPub : Bool) (name : Spur) (ty : Option Spur) (init : InstRef)
  | call (name : Spur) (argsStart argsLen : Word)
  | intrinsic (name : Spur) (argsStart argsLen : Word)
  | typeIntrinsic (name typeArg : Spur)
  | typeInterfaceIntrinsic (name typeArg : Spur) (typeInst : Option InstRef) (interfaceArg : Spur)
  | paramRef (index : Word) (name : Spur)
  | ret (value : Option InstRef)
  | block (extraStart len : Word)
  | alloc (directivesStart directivesLen : Word) (name : Option Spur) (isMut : Bool)
      (ty : Option Spur) (init : InstRef)
  | structDestructure (typeName : Spur) (fieldsStart fieldsLen : Word) (init : InstRef)
  | varRef (name : Spur)
  | assign (name : Spur) (value : InstRef)
  | structDecl (directivesStart directivesLen : Word) (isPub : Bool) (posture : Posture)
      (name : Spur) (fieldsStart fieldsLen methodsStart methodsLen : Word)
  | structInit (module : Option InstRef) (typeName : Spur) (fieldsStart fieldsLen : Word)
  | fieldGet (base : InstRef) (field : Spur)
  | fieldSet (base : InstRef) (field : Spur) (value : InstRef)
  | enumDecl (isPub : Bool) (posture : Posture) (name : Spur)
      (variantsStart variantsLen methodsStart methodsLen directivesStart directivesLen : Word)
  | enumVariant (module : Option InstRef) (typeName variant : Spur)
  | enumStructVariant (module : Option InstRef) (typeName variant : Spur) (fieldsStart fieldsLen : Word)
  | arrayInit (elemsStart elemsLen : Word)
  | indexGet (base index : InstRef)
  | indexSet (base index value : InstRef)
  | methodCall (receiver : InstRef) (method : Spur) (argsStart argsLen : Word)
  | assocFnCall (typeName function : Spur) (argsStart argsLen : Word)
  | interfaceDecl (isPub : Bool) (name : Spur) (methodsStart methodsLen directivesStart directivesLen : Word)
  | interfaceMethodSig (name : Spur) (paramsStart paramsLen : Word) (returnType : Spur)
      (receiverMode : BitVec 8) (isUnchecked : Bool) (directivesStart directivesLen : Word)
  | deriveDecl (name : Spur) (methodsStart methodsLen : Word)
  | comptime (expr : InstRef)
  | comptimeUnrollFor (binding : Spur) (iterable body : InstRef)
  | checked (expr : InstRef)
  | typeConst (typeName : Spur)
  | anonStructType (directivesStart directivesLen fieldsStart fieldsLen methodsStart methodsLen : Word)
  | anonEnumType (directivesStart directivesLen variantsStart variantsLen methodsStart methodsLen : Word)
  | anonInterfaceType (methodsStart methodsLen : Word)
  | tupleInit (elemsStart elemsLen : Word)
  | anonFnValue (method : InstRef)
  deriving DecidableEq

structure Inst where
  data : InstData
  span : Span
  deriving DecidableEq

structure FunctionSpan where
  name : Spur
  bodyStart : InstRef
  decl : InstRef
  deriving DecidableEq

inductive RirLinkMode
  | dynamic | static
  deriving DecidableEq, Repr

structure RirExternFn where
  library : Spur
  name : Spur
  directivesStart : Word
  directivesLen : Word
  paramsStart : Word
  paramsLen : Word
  returnType : Spur
  span : Span
  blockSpan : Span
  linkMode : RirLinkMode
  deriving DecidableEq

structure Rir where
  instructions : List Inst := []
  extra : List Word := []
  functionSpans : List FunctionSpan := []
  externFns : List RirExternFn := []
  emptyLinkExternBlocks : List (Spur × RirLinkMode × Span) := []

namespace Rir

-- Five kinds leave the start of an empty directive list alone.
def shiftUnlessEmpty (start len extraOffset : Word) : Word :=
  if len = 0 then start else start + extraOffset

def renumberInstruction (instOffset extraOffset : Word) : InstData → InstData
  | .intConst value => .intConst value
  | .floatConst bits => .floatConst bits
  | .boolConst value => .boolConst value
  | .charConst value => .charConst value
  | .stringConst content => .stringConst content
  | .unitConst => .unitConst
  | .break => .break
  | .continue => .continue
  | .varRef name => .varRef name
  | .paramRef index name => .paramRef index name
  | .enumVariant module typeName variant =>
    .enumVariant (module.map (· + instOffset)) typeName variant
  -- The list of field initialisers keeps its per-file position.
  | .enumStructVariant module typeName variant fieldsStart fieldsLen =>
    .enumStructVariant (module.map (· + instOffset)) typeName variant fieldsStart fieldsLen
  | .typeIntrinsic name typeArg => .typeIntrinsic name typeArg
  | .typeInterfaceIntrinsic name typeArg typeInst interfaceArg =>
    .typeInterfaceIntrinsic name typeArg (typeInst.map (· + instOffset)) interfaceArg
  | .bin op lhs rhs => .bin op (lhs + instOffset) (rhs + instOffset)
  | .unary op operand => .unary op (operand + instOffset)
  | .makeRef operand isMut => .makeRef (operand + instOffset) isMut
  | .bareRangeSubscript => .bareRangeSubscript
  | .makeSlice base lo hi isMut =>
    .makeSlice (base + instOffset) (lo.map (· + instOffset)) (hi.map (· + instOffset)) isMut
  | .branch cond thenBlock elseBlock isComptime =>
    .branch (cond + instOffset) (thenBlock + instOffset) (elseBlock.map (· + instOffset)) isComptime
  | .loop cond body => .loop (cond + instOffset) (body + instOffset)
  | .forIn binding isMut iterable body =>
    .forIn binding isMut (iterable + instOffset) (body + instOffset)
  | .infiniteLoop body => .infiniteLoop (body + instOffset)
  | .ret value => .ret (value.map (· + instOffset))
  | .matchOn scrutinee armsStart armsLen =>
    .matchOn (scrutinee + instOffset) (armsStart + extraOffset) armsLen
  | .block extraStart len => .block (extraStart + extraOffset) len
  | .alloc directivesStart directivesLen name isMut ty init =>
    .alloc (directivesStart + extraOffset) directivesLen name isMut ty (init + instOffset)
  | .structDestructure typeName fieldsStart fieldsLen init =>
    .structDestructure typeName (fieldsStart + extraOffset) fieldsLen (init + instOffset)
  | .assign name value => .assign name (value + instOffset)
  | .fnDecl directivesStart directivesLen isPub isUnchecked name paramsStart paramsLen returnType
      body hasSelf receiverMode =>
      .fnDecl (directivesStart + extraOffset) directivesLen isPub isUnchecked name
        (paramsStart + extraOffset) paramsLen returnType (body + instOffset) hasSelf receiverMode
  | .constDecl directivesStart directivesLen isPub name ty init =>
    .constDecl (directivesStart + extraOffset) directivesLen isPub name ty (init + instOffset)
  | .call name argsStart argsLen => .call name (argsStart + extraOffset) argsLen
  | .intrinsic name argsStart argsLen => .intrinsic name (argsStart + extraOffset) argsLen
  | .structDecl directivesStart directivesLen isPub posture name fieldsStart fieldsLen methodsStart methodsLen =>
      .structDecl (directivesStart + extraOffset) directivesLen isPub posture name
        (fieldsStart + extraOffset) fieldsLen (methodsStart + extraOffset) methodsLen
  | .structInit module typeName fieldsStart fieldsLen =>
    .structInit (module.map (· + instOffset)) typeName (fieldsStart + extraOffset) fieldsLen
  | .fieldGet base field => .fieldGet (base + instOffset) field
  | .fieldSet base field value => .fieldSet (base + instOffset) field (value + instOffset)
  | .interfaceDecl isPub name methodsStart methodsLen directivesStart directivesLen =>
    .interfaceDecl isPub name (methodsStart + extraOffset) methodsLen
      (shiftUnlessEmpty directivesStart directivesLen extraOffset) directivesLen
  | .interfaceMethodSig name paramsStart paramsLen returnType receiverMode isUnchecked
      directivesStart directivesLen =>
      .interfaceMethodSig name (paramsStart + extraOffset) paramsLen returnType receiverMode
        isUnchecked (shiftUnlessEmpty directivesStart directivesLen extraOffset) directivesLen
  | .enumDecl isPub posture name variantsStart variantsLen methodsStart methodsLen directivesStart directivesLen =>
      .enumDecl isPub posture name (variantsStart + extraOffset) variantsLen (methodsStart + extraOffset) methodsLen
        (shiftUnlessEmpty directivesStart directivesLen extraOffset) directivesLen
  | .arrayInit elemsStart elemsLen => .arrayInit (elemsStart + extraOffset) elemsLen
  | .indexGet base index => .indexGet (base + instOffset) (index + instOffset)
  | .indexSet base index value =>
    .indexSet (base + instOffset) (index + instOffset) (value + instOffset)
  | .methodCall receiver method argsStart argsLen =>
    .methodCall (receiver + instOffset) method (argsStart + extraOffset) argsLen
  | .assocFnCall typeName function argsStart argsLen =>
    .assocFnCall typeName function (argsStart + extraOffset) argsLen
  | .deriveDecl name methodsStart methodsLen =>
    .deriveDecl name (methodsStart + extraOffset) methodsLen
  | .comptime expr => .comptime (expr + instOffset)
  | .comptimeUnrollFor binding iterable body =>
    .comptimeUnrollFor binding (iterable + instOffset) (body + instOffset)
  | .checked expr => .checked (expr + instOffset)
  | .typeConst typeName => .typeConst typeName
  | .anonStructType directivesStart directivesLen fieldsStart fieldsLen methodsStart methodsLen =>
    .anonStructType (shiftUnlessEmpty directivesStart directivesLen extraOffset) directivesLen
      (fieldsStart + extraOffset) fieldsLen (methodsStart + extraOffset) methodsLen
  | .anonEnumType directivesStart directivesLen variantsStart variantsLen methodsStart methodsLen =>
      .anonEnumType (shiftUnlessEmpty directivesStart directivesLen extraOffset) directivesLen
        (variantsStart + extraOffset) variantsLen (methodsStart + extraOffset) methodsLen
  | .anonInterfaceType methodsStart methodsLen =>
    .anonInterfaceType (methodsStart + extraOffset) methodsLen
  | .tupleInit elemsStart elemsLen => .tupleInit (elemsStart + extraOffset) elemsLen
  | .anonFnValue method => .anonFnValue (method + instOffset)

def renumberEvery (instOffset : Word) (width place : Nat) (len start : Word) : List Word → Option (List Word) :=
  patchMany (· + instOffset) (fun _ => some (place, width)) len.toNat start.toNat

-- The pass knows the four oldest pattern kinds, whose body is their last word, and
-- panics on the others.
def locateArmBody (data : List Word) : Option (Nat × Nat) := do
  match (← data[0]?).toNat with
  | 0 => some (3, 4)
  | 1 => some (5, 6)
  | 2 => some (4, 5)
  | 3 => some (6, 7)
  | _ => none

def renumberArms (instOffset len start : Word) : List Word → Option (List Word) :=
  patchMany (· + instOffset) locateArmBody len.toNat start.toNat

def renumberExtraInst (instOffset extraOffset : Word) (extra : List Word) : InstData → Option (List Word)
  | .block extraStart len => renumberEvery instOffset 1 0 len (extraStart + extraOffset) extra
  | .arrayInit elemsStart elemsLen | .tupleInit elemsStart elemsLen =>
    renumberEvery instOffset 1 0 elemsLen (elemsStart + extraOffset) extra
  | .intrinsic _ argsStart argsLen =>
    renumberEvery instOffset 1 0 argsLen (argsStart + extraOffset) extra
  | .structDecl _ _ _ _ _ _ _ methodsStart methodsLen
  | .interfaceDecl _ _ methodsStart methodsLen _ _
  | .deriveDecl _ methodsStart methodsLen
  | .anonInterfaceType methodsStart methodsLen
  | .anonStructType _ _ _ _ methodsStart methodsLen
  | .anonEnumType _ _ _ _ methodsStart methodsLen =>
    renumberEvery instOffset 1 0 methodsLen (methodsStart + extraOffset) extra
  | .call _ argsStart argsLen
  | .methodCall _ _ argsStart argsLen
  | .assocFnCall _ _ argsStart argsLen =>
    renumberEvery instOffset 2 0 argsLen (argsStart + extraOffset) extra
  | .structInit _ _ fieldsStart fieldsLen
  | .enumStructVariant _ _ _ fieldsStart fieldsLen =>
    renumberEvery instOffset 2 1 fieldsLen (fieldsStart + extraOffset) extra
  | .matchOn _ armsStart armsLen =>
    renumberArms instOffset armsLen (armsStart + extraOffset) extra
  | _ => some extra

def renumberExtraInstRefs (instOffset extraOffset : Word) (extra : List Word)
    (instructions : List Inst) : Option (List Word) :=
  instructions.foldlM (fun extra inst => renumberExtraInst instOffset extraOffset extra inst.data) extra

structure MergeState where
  merged : Rir
  instOffset : Word
  extraOffset : Word

def mergeOne (state : MergeState) (rir : Rir) : Option MergeState := do
  let instOffset := state.instOffset
  let extraOffset := state.extraOffset
  let extra ← renumberExtraInstRefs instOffset extraOffset (state.merged.extra ++ rir.extra) rir.instructions
  some {
    merged := {
      instructions := state.merged.instructions ++ rir.instructions.map fun inst =>
        { inst with data := renumberInstruction instOffset extraOffset inst.data }
      extra := extra
      functionSpans := state.merged.functionSpans ++ rir.functionSpans.map fun span =>
        { span with bodyStart := span.bodyStart + instOffset, decl := span.decl + instOffset }
      externFns := state.merged.externFns ++ rir.externFns.map fun declared =>
        { declared with
          directivesStart := declared.directivesStart + extraOffset
          paramsStart := declared.paramsStart + extraOffset }
      emptyLinkExternBlocks := state.merged.emptyLinkExternBlocks ++ rir.emptyLinkExternBlocks }
    instOffset := instOffset + lengthWord rir.instructions.length
    extraOffset := extraOffset + lengthWord rir.extra.length }

def merge : List Rir → Option Rir
  | [] => some {}
  | [rir] => some rir
  | rirs => (rirs.foldlM mergeOne ⟨{}, 0, 0⟩).map MergeState.merged

end Rir

end Gruel
