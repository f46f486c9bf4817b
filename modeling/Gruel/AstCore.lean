import Gruel.Source

/-!
Syntax trees as the parse cache sees them: which nodes there are, what each field holds,
and the walk that renumbers symbols.
-/

namespace Gruel

namespace Ast

/-- The structs of the syntax tree and the variants of its enumerations. -/
inductive Kind
  | ast | doc | directive | directiveArgIdent | directiveArgString | itemFunction | itemStruct
  | itemEnum | itemInterface | itemDerive | itemConst | itemLinkExtern | itemError
  | linkExternBlock | externFn | constDecl | structDecl | fieldDecl | enumDecl | enumVariant
  | variantUnit | variantTuple | variantStruct | enumVariantField | interfaceDecl | methodSig
  | deriveDecl | method | selfParam | function | param | ident | typeNamed | typeUnit | typeNever
  | typeArray | typeAnonymousStruct | typeAnonymousEnum | typeAnonymousInterface | typeCall
  | typeTuple | anonStructField | exprInt | exprFloat | exprString | exprChar | exprBool
  | exprUnit | exprIdent | exprBinary | exprUnary | exprParen | exprBlock | exprIf | exprMatch
  | exprWhile | exprFor | exprLoop | exprCall | exprBreak | exprContinue | exprReturn
  | exprStructLit | exprField | exprMethodCall | exprIntrinsicCall | exprArrayLit | exprIndex
  | exprPath | exprEnumStructLit | exprAssocFnCall | exprSelf | exprComptime
  | exprComptimeUnrollFor | exprChecked | exprTypeLit | exprTuple | exprTupleIndex | exprRange
  | exprAnonFn | exprError | intLit | floatLit | stringLit | charLit | boolLit | unitLit
  | binaryExpr | unaryExpr | parenExpr | blockExpr | ifExpr | matchExpr | matchArm | callArg
  | callExpr | intrinsicArgExpr | intrinsicArgType | intrinsicCallExpr | structLitExpr
  | fieldInit | tupleExpr | anonFnExpr | tupleIndexExpr | fieldExpr | methodCallExpr
  | arrayLitExpr | indexExpr | rangeExpr | pathExpr | enumStructLitExpr | assocFnCallExpr
  | whileExpr | forExpr | loopExpr | breakExpr | continueExpr | returnExpr | selfExpr
  | comptimeBlockExpr | comptimeUnrollForExpr | checkedBlockExpr | typeLitExpr | patternWildcard
  | patternIdent | patternInt | patternNegInt | patternBool | patternPath | patternDataVariant
  | patternStructVariant | patternStruct | patternTuple | patternComptimeUnrollArm | negIntLit
  | tupleElemPattern | tupleElemRest | fieldPattern | pathPattern | statementLet
  | statementAssign | statementExpr | letStatement | assignStatement | assignVar | assignField
  | assignIndex
  deriving DecidableEq

/-- What a field of the syntax tree holds.  Numbers, flags and plain enumerations are scalars;
`Box` leaves no trace. -/
inductive Shape
  | spur
  | span
  | scalar
  | text
  | node (kind : Kind)
  -- An enumeration with payloads.
  | oneOf (kinds : List Kind)
  | opt (shape : Shape)
  | list (shape : Shape)
  deriving DecidableEq

namespace Shape

def directiveArg : Shape := .oneOf [.directiveArgIdent, .directiveArgString]

def item : Shape := .oneOf [ .itemFunction, .itemStruct, .itemEnum, .itemInterface, .itemDerive, .itemConst,
    .itemLinkExtern, .itemError]

def enumVariantKind : Shape := .oneOf [.variantUnit, .variantTuple, .variantStruct]

def typeExpr : Shape := .oneOf [
    .typeNamed, .typeUnit, .typeNever, .typeArray, .typeAnonymousStruct, .typeAnonymousEnum,
    .typeAnonymousInterface, .typeCall, .typeTuple]

def expr : Shape := .oneOf [
    .exprInt, .exprFloat, .exprString, .exprChar, .exprBool, .exprUnit, .exprIdent, .exprBinary,
    .exprUnary, .exprParen, .exprBlock, .exprIf, .exprMatch, .exprWhile, .exprFor, .exprLoop,
    .exprCall, .exprBreak, .exprContinue, .exprReturn, .exprStructLit, .exprField,
    .exprMethodCall, .exprIntrinsicCall, .exprArrayLit, .exprIndex, .exprPath,
    .exprEnumStructLit, .exprAssocFnCall, .exprSelf, .exprComptime, .exprComptimeUnrollFor,
    .exprChecked, .exprTypeLit, .exprTuple, .exprTupleIndex, .exprRange, .exprAnonFn, .exprError]

def intrinsicArg : Shape := .oneOf [.intrinsicArgExpr, .intrinsicArgType]

def pattern : Shape := .oneOf [
    .patternWildcard, .patternIdent, .patternInt, .patternNegInt, .patternBool, .patternPath,
    .patternDataVariant, .patternStructVariant, .patternStruct, .patternTuple,
    .patternComptimeUnrollArm]

def tupleElemPattern : Shape := .oneOf [.tupleElemPattern, .tupleElemRest]

def statement : Shape := .oneOf [.statementLet, .statementAssign, .statementExpr]

def assignTarget : Shape := .oneOf [.assignVar, .assignField, .assignIndex]

end Shape

structure Field where
  shape : Shape
  visited : Bool

def visit (shape : Shape) : Field := ⟨shape, true⟩

def skip (shape : Shape) : Field := ⟨shape, false⟩

/-- The fields of each node, and whether `remap_spurs` visits them. -/
def Kind.fields : Kind → List Field
  -- Files and items.
  | .ast => [skip (.opt (.node .doc)), visit (.list .item)]
  | .doc => [skip .text, skip .span]
  | .directive => [visit (.node .ident), visit (.list .directiveArg), visit .span]
  | .directiveArgIdent => [visit (.node .ident)]
  | .directiveArgString => [visit (.node .stringLit)]
  | .itemFunction => [visit (.node .function)]
  | .itemStruct => [visit (.node .structDecl)]
  | .itemEnum => [visit (.node .enumDecl)]
  | .itemInterface => [visit (.node .interfaceDecl)]
  | .itemDerive => [visit (.node .deriveDecl)]
  | .itemConst => [visit (.node .constDecl)]
  | .itemLinkExtern => [visit (.node .linkExternBlock)]
  | .itemError => [skip .span]
  | .linkExternBlock =>
    [visit (.opt (.node .doc)), visit (.node .stringLit), visit (.list (.node .externFn)),
    visit .scalar, visit .span]
  | .externFn =>
    [visit (.opt (.node .doc)), visit (.list (.node .directive)), visit (.node .ident),
    visit (.list (.node .param)), visit (.opt .typeExpr), visit .span]
  | .constDecl =>
    [visit (.opt (.node .doc)), visit (.list (.node .directive)), visit .scalar,
    visit (.node .ident), visit (.opt .typeExpr), visit .expr, visit .span]
  | .structDecl =>
    [visit (.opt (.node .doc)), visit (.list (.node .directive)), visit .scalar, visit .scalar,
    visit (.node .ident), visit (.list (.node .fieldDecl)), visit (.list (.node .method)),
    visit .span]
  | .fieldDecl =>
    [visit (.opt (.node .doc)), visit .scalar, visit (.node .ident), visit .typeExpr,
    visit .span]
  | .enumDecl =>
    [visit (.opt (.node .doc)), visit (.list (.node .directive)), visit .scalar, visit .scalar,
    visit (.node .ident), visit (.list (.node .enumVariant)), visit (.list (.node .method)),
    visit .span]
  | .enumVariant =>
    [visit (.opt (.node .doc)), visit (.node .ident), visit .enumVariantKind, visit .span]
  | .variantUnit => []
  | .variantTuple => [visit (.list .typeExpr)]
  | .variantStruct => [visit (.list (.node .enumVariantField))]
  | .enumVariantField =>
    [visit (.opt (.node .doc)), visit .scalar, visit (.node .ident), visit .typeExpr,
    visit .span]
  | .interfaceDecl =>
    [visit (.opt (.node .doc)), visit (.list (.node .directive)), visit .scalar,
    visit (.node .ident), visit (.list (.node .methodSig)), visit .span]
  | .methodSig =>
    [visit (.opt (.node .doc)), visit (.list (.node .directive)), visit .scalar,
    visit (.node .ident), visit (.node .selfParam), visit (.list (.node .param)),
    visit (.opt .typeExpr), visit .span]
  | .deriveDecl =>
    [visit (.opt (.node .doc)), visit (.node .ident), visit (.list (.node .method)), visit .span]
  | .method =>
    [visit (.opt (.node .doc)), visit (.list (.node .directive)), visit .scalar, visit .scalar,
    visit (.node .ident), visit (.opt (.node .selfParam)), visit (.list (.node .param)),
    visit (.opt .typeExpr), visit .expr, visit .span]
  | .selfParam => [visit .scalar, visit .span]
  | .function =>
    [visit (.opt (.node .doc)), visit (.list (.node .directive)), visit .scalar, visit .scalar,
    visit (.node .ident), visit (.list (.node .param)), visit (.opt .typeExpr), visit .expr,
    visit .span]
  | .param => [visit .scalar, visit .scalar, visit (.node .ident), visit .typeExpr, visit .span]
  | .ident => [visit .spur, visit .span]
  -- Types.
  | .typeNamed => [visit (.node .ident)]
  | .typeUnit => [skip .span]
  | .typeNever => [skip .span]
  | .typeArray => [visit .typeExpr, skip .scalar, skip .span]
  | .typeAnonymousStruct =>
    [visit (.list (.node .directive)), skip .scalar, visit (.list (.node .anonStructField)),
    visit (.list (.node .method)), skip .span]
  | .typeAnonymousEnum =>
    [visit (.list (.node .directive)), skip .scalar, visit (.list (.node .enumVariant)),
    visit (.list (.node .method)), skip .span]
  | .typeAnonymousInterface => [visit (.list (.node .methodSig)), skip .span]
  | .typeCall => [visit (.node .ident), visit (.list .typeExpr), skip .span]
  | .typeTuple => [visit (.list .typeExpr), skip .span]
  | .anonStructField =>
    [visit (.opt (.node .doc)), visit (.node .ident), visit .typeExpr, visit .span]
  -- Expressions.
  | .exprInt => [skip (.node .intLit)]
  | .exprFloat => [skip (.node .floatLit)]
  | .exprString => [visit (.node .stringLit)]
  | .exprChar => [skip (.node .charLit)]
  | .exprBool => [skip (.node .boolLit)]
  | .exprUnit => [skip (.node .unitLit)]
  | .exprIdent => [visit (.node .ident)]
  | .exprBinary => [visit (.node .binaryExpr)]
  | .exprUnary => [visit (.node .unaryExpr)]
  | .exprParen => [visit (.node .parenExpr)]
  | .exprBlock => [visit (.node .blockExpr)]
  | .exprIf => [visit (.node .ifExpr)]
  | .exprMatch => [visit (.node .matchExpr)]
  | .exprWhile => [visit (.node .whileExpr)]
  | .exprFor => [visit (.node .forExpr)]
  | .exprLoop => [visit (.node .loopExpr)]
  | .exprCall => [visit (.node .callExpr)]
  | .exprBreak => [skip (.node .breakExpr)]
  | .exprContinue => [skip (.node .continueExpr)]
  | .exprReturn => [visit (.node .returnExpr)]
  | .exprStructLit => [visit (.node .structLitExpr)]
  | .exprField => [visit (.node .fieldExpr)]
  | .exprMethodCall => [visit (.node .methodCallExpr)]
  | .exprIntrinsicCall => [visit (.node .intrinsicCallExpr)]
  | .exprArrayLit => [visit (.node .arrayLitExpr)]
  | .exprIndex => [visit (.node .indexExpr)]
  | .exprPath => [visit (.node .pathExpr)]
  | .exprEnumStructLit => [visit (.node .enumStructLitExpr)]
  | .exprAssocFnCall => [visit (.node .assocFnCallExpr)]
  | .exprSelf => [skip (.node .selfExpr)]
  | .exprComptime => [visit (.node .comptimeBlockExpr)]
  | .exprComptimeUnrollFor => [visit (.node .comptimeUnrollForExpr)]
  | .exprChecked => [visit (.node .checkedBlockExpr)]
  | .exprTypeLit => [visit (.node .typeLitExpr)]
  | .exprTuple => [visit (.node .tupleExpr)]
  | .exprTupleIndex => [visit (.node .tupleIndexExpr)]
  | .exprRange => [visit (.node .rangeExpr)]
  | .exprAnonFn => [visit (.node .anonFnExpr)]
  | .exprError => [skip .span]
  | .intLit => [skip .scalar, skip .span]
  | .floatLit => [skip .scalar, skip .span]
  | .stringLit => [visit .spur, visit .span]
  | .charLit => [skip .scalar, skip .span]
  | .boolLit => [skip .scalar, skip .span]
  | .unitLit => [skip .span]
  | .binaryExpr => [visit .expr, visit .scalar, visit .expr, visit .span]
  | .unaryExpr => [visit .scalar, visit .expr, visit .span]
  | .parenExpr => [visit .expr, visit .span]
  | .blockExpr => [visit (.list .statement), visit .expr, visit .span]
  | .ifExpr =>
    [visit .expr, visit (.node .blockExpr), visit (.opt (.node .blockExpr)), visit .span,
    visit .scalar]
  | .matchExpr => [visit .expr, visit (.list (.node .matchArm)), visit .span]
  | .matchArm => [visit .pattern, visit .expr, visit .span]
  | .callArg => [visit .scalar, visit .expr, visit .span]
  | .callExpr => [visit (.node .ident), visit (.list (.node .callArg)), visit .span]
  | .intrinsicArgExpr => [visit .expr]
  | .intrinsicArgType => [visit .typeExpr]
  | .intrinsicCallExpr => [visit (.node .ident), visit (.list .intrinsicArg), visit .span]
  | .structLitExpr =>
    [visit (.opt .expr), visit (.node .ident), visit (.list (.node .fieldInit)), visit .span]
  | .fieldInit => [visit (.node .ident), visit .expr, visit .span]
  | .tupleExpr => [visit (.list .expr), visit .span]
  | .anonFnExpr =>
    [visit (.list (.node .param)), visit (.opt .typeExpr), visit (.node .blockExpr),
    visit .span]
  | .tupleIndexExpr => [visit .expr, visit .scalar, visit .span, visit .span]
  | .fieldExpr => [visit .expr, visit (.node .ident), visit .span]
  | .methodCallExpr =>
    [visit .expr, visit (.node .ident), visit (.list (.node .callArg)), visit .span]
  | .arrayLitExpr => [visit (.list .expr), visit .span]
  | .indexExpr => [visit .expr, visit .expr, visit .span]
  | .rangeExpr => [visit (.opt .expr), visit (.opt .expr), visit .span]
  | .pathExpr => [visit (.opt .expr), visit (.node .ident), visit (.node .ident), visit .span]
  | .enumStructLitExpr =>
    [visit (.opt .expr), visit (.node .ident), visit (.node .ident),
    visit (.list (.node .fieldInit)), visit .span]
  | .assocFnCallExpr =>
    [visit (.opt .expr), visit (.node .ident), visit (.list .expr), visit (.node .ident),
    visit (.list (.node .callArg)), visit .span]
  | .whileExpr => [visit .expr, visit (.node .blockExpr), visit .span]
  | .forExpr =>
    [visit (.node .ident), visit .scalar, visit .expr, visit (.node .blockExpr), visit .span]
  | .loopExpr => [visit (.node .blockExpr), visit .span]
  | .breakExpr => [skip .span]
  | .continueExpr => [skip .span]
  | .returnExpr => [visit (.opt .expr), visit .span]
  | .selfExpr => [skip .span]
  | .comptimeBlockExpr => [visit .expr, visit .span]
  | .comptimeUnrollForExpr =>
    [visit (.node .ident), visit .expr, visit (.node .blockExpr), visit .span]
  | .checkedBlockExpr => [visit .expr, visit .span]
  | .typeLitExpr => [visit .typeExpr, visit .span]
  -- Patterns and statements.
  | .patternWildcard => [skip .span]
  | .patternIdent => [skip .scalar, visit (.node .ident), skip .span]
  | .patternInt => [skip (.node .intLit)]
  | .patternNegInt => [skip (.node .negIntLit)]
  | .patternBool => [skip (.node .boolLit)]
  | .patternPath => [visit (.node .pathPattern)]
  | .patternDataVariant =>
    [visit (.opt .expr), visit (.node .ident), visit (.node .ident),
    visit (.list .tupleElemPattern), skip .span]
  | .patternStructVariant =>
    [visit (.opt .expr), visit (.node .ident), visit (.node .ident),
    visit (.list (.node .fieldPattern)), skip .span]
  | .patternStruct => [visit (.node .ident), visit (.list (.node .fieldPattern)), skip .span]
  | .patternTuple => [visit (.list .tupleElemPattern), skip .span]
  | .patternComptimeUnrollArm => [visit (.node .ident), visit .expr, skip .span]
  | .negIntLit => [skip .scalar, skip .span]
  | .tupleElemPattern => [visit .pattern]
  | .tupleElemRest => [skip .span]
  | .fieldPattern =>
    [visit (.opt (.node .ident)), visit (.opt .pattern), visit .scalar, visit .span]
  | .pathPattern => [visit (.opt .expr), visit (.node .ident), visit (.node .ident), visit .span]
  | .statementLet => [visit (.node .letStatement)]
  | .statementAssign => [visit (.node .assignStatement)]
  | .statementExpr => [visit .expr]
  | .letStatement =>
    [visit (.list (.node .directive)), visit .scalar, visit .pattern, visit (.opt .typeExpr),
    visit .expr, visit .span]
  | .assignStatement => [visit .assignTarget, visit .expr, visit .span]
  | .assignVar => [visit (.node .ident)]
  | .assignField => [visit (.node .fieldExpr)]
  | .assignIndex => [visit (.node .indexExpr)]

inductive Tree (Symbol : Type)
  | spur (symbol : Symbol)
  | span (span : Span)
  | scalar (value : Nat)
  | text (text : String)
  | node (kind : Kind) (fields : List (Tree Symbol))
  | opt (value : Option (Tree Symbol))
  | list (values : List (Tree Symbol))

variable {Symbol Other : Type}

mutual

def Tree.conforms : Shape → Tree Symbol → Bool
  | .spur, .spur _ => true
  | .span, .span _ => true
  | .scalar, .scalar _ => true
  | .text, .text _ => true
  | .node expected, .node kind fields =>
    decide (kind = expected) && conformsFields kind.fields fields
  | .oneOf kinds, .node kind fields => kinds.contains kind && conformsFields kind.fields fields
  | .opt _, .opt none => true
  | .opt shape, .opt (some value) => value.conforms shape
  | .list shape, .list values => conformsAll shape values
  | _, _ => false

def conformsFields : List Field → List (Tree Symbol) → Bool
  | [], [] => true
  | field :: fields, tree :: trees => tree.conforms field.shape && conformsFields fields trees
  | _, _ => false

def conformsAll (shape : Shape) : List (Tree Symbol) → Bool
  | [] => true
  | tree :: trees => tree.conforms shape && conformsAll shape trees

end

mutual

def Tree.spurs : Tree Symbol → List Symbol
  | .spur symbol => [symbol]
  | .span _ | .scalar _ | .text _ | .opt none => []
  | .node _ fields => spursAll fields
  | .opt (some value) => value.spurs
  | .list values => spursAll values

def spursAll : List (Tree Symbol) → List Symbol
  | [] => []
  | tree :: trees => tree.spurs ++ spursAll trees

end

mutual

def Tree.map (f : Symbol → Other) : Tree Symbol → Tree Other
  | .spur symbol => .spur (f symbol)
  | .span span => .span span
  | .scalar value => .scalar value
  | .text text => .text text
  | .node kind fields => .node kind (mapAll f fields)
  | .opt none => .opt none
  | .opt (some value) => .opt (some (value.map f))
  | .list values => .list (mapAll f values)

def mapAll (f : Symbol → Other) : List (Tree Symbol) → List (Tree Other)
  | [] => []
  | tree :: trees => tree.map f :: mapAll f trees

end

mutual

def remapSpurs (table : List Nat) : Tree Nat → Option (Tree Nat)
  | .spur symbol => (table[symbol]?).map .spur
  | .span span => some (.span span)
  | .scalar value => some (.scalar value)
  | .text text => some (.text text)
  | .node kind fields => (remapFields table kind.fields fields).map (.node kind)
  | .opt none => some (.opt none)
  | .opt (some value) => (remapSpurs table value).map fun value => .opt (some value)
  | .list values => (remapAll table values).map .list

def remapFields (table : List Nat) : List Field → List (Tree Nat) → Option (List (Tree Nat))
  | field :: fields, tree :: trees =>
    (if field.visited then remapSpurs table tree else some tree).bind fun tree =>
      (remapFields table fields trees).map (tree :: ·)
  | _, trees => some trees

def remapAll (table : List Nat) : List (Tree Nat) → Option (List (Tree Nat))
  | [] => some []
  | tree :: trees => do
      let tree ← remapSpurs table tree
      let trees ← remapAll table trees
      some (tree :: trees)

end

end Ast

end Gruel
