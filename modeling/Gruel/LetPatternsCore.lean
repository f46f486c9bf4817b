import Gruel.AstCore

/-!
Refutable patterns in `let`: the check the parser runs over a finished tree, and where
the generation of instructions relies on it.
-/

namespace Gruel

namespace Ast

variable {Symbol : Type}

mutual

/-- Matches only some values of its type. -/
def isRefutable : Tree Symbol → Bool
  | .node .patternWildcard _ | .node .patternIdent _ => false
  | .node .patternStruct [_, .list fields, _] => anyFieldRefutable fields
  | .node .patternTuple [.list elems, _] => anyElemRefutable elems
  | _ => true

def anyFieldRefutable : List (Tree Symbol) → Bool
  | [] => false
  | .node .fieldPattern [_, .opt (some sub), _, _] :: fields =>
    isRefutable sub || anyFieldRefutable fields
  | _ :: fields => anyFieldRefutable fields

def anyElemRefutable : List (Tree Symbol) → Bool
  | [] => false
  | .node .tupleElemPattern [pattern] :: elems => isRefutable pattern || anyElemRefutable elems
  | _ :: elems => anyElemRefutable elems

end

mutual

def isIrrefutableDestructure : Tree Symbol → Bool
  | .node .patternWildcard _ | .node .patternIdent _ => true
  | .node .patternStruct [_, .list fields, _] => allFieldsIrrefutable fields
  | .node .patternTuple [.list elems, _] => allElemsIrrefutable elems
  | _ => false

def allFieldsIrrefutable : List (Tree Symbol) → Bool
  | [] => true
  | .node .fieldPattern [_, .opt (some sub), _, _] :: fields =>
    isIrrefutableDestructure sub && allFieldsIrrefutable fields
  | _ :: fields => allFieldsIrrefutable fields

def allElemsIrrefutable : List (Tree Symbol) → Bool
  | [] => true
  | .node .tupleElemPattern [pattern] :: elems =>
    isIrrefutableDestructure pattern && allElemsIrrefutable elems
  | _ :: elems => allElemsIrrefutable elems

end

mutual

def letPanics : Tree Symbol → Bool
  | .node .patternWildcard _ | .node .patternIdent _ => false
  | .node .patternStruct [_, .list fields, _] => anyFieldPanics fields
  | .node .patternTuple [.list elems, _] => anyElemPanics elems
  | _ => true

-- A rest field is passed over.
def anyFieldPanics : List (Tree Symbol) → Bool
  | [] => false
  | .node .fieldPattern [.opt (some _), .opt (some sub), _, _] :: fields =>
    letPanics sub || anyFieldPanics fields
  | _ :: fields => anyFieldPanics fields

def anyElemPanics : List (Tree Symbol) → Bool
  | [] => false
  | .node .tupleElemPattern [pattern] :: elems => letPanics pattern || anyElemPanics elems
  | _ :: elems => anyElemPanics elems

end

attribute [grind =] isRefutable anyFieldRefutable anyElemRefutable letPanics anyFieldPanics anyElemPanics

def patternSpan : Tree Symbol → Option Span
  | .node .patternInt [.node .intLit [_, .span span]]
  | .node .patternNegInt [.node .negIntLit [_, .span span]]
  | .node .patternBool [.node .boolLit [_, .span span]]
  | .node .patternPath [.node .pathPattern [_, _, _, .span span]]
  | .node .patternWildcard [.span span]
  | .node .patternIdent [_, _, .span span]
  | .node .patternDataVariant [_, _, _, _, .span span]
  | .node .patternStructVariant [_, _, _, _, .span span]
  | .node .patternStruct [_, _, .span span]
  | .node .patternTuple [_, .span span]
  | .node .patternComptimeUnrollArm [_, _, .span span] => some span
  | _ => none

mutual

def refutableFocusSpan : Tree Symbol → Option Span
  | .node .patternStruct [name, .list fields, span] =>
    (fieldFocusSpan fields).getD (patternSpan (.node .patternStruct [name, .list fields, span]))
  | .node .patternTuple [.list elems, span] =>
    (elemFocusSpan elems).getD (patternSpan (.node .patternTuple [.list elems, span]))
  | pattern => patternSpan pattern

def fieldFocusSpan : List (Tree Symbol) → Option (Option Span)
  | [] => none
  | .node .fieldPattern [_, .opt (some sub), _, _] :: fields =>
    if isRefutable sub then some (refutableFocusSpan sub) else fieldFocusSpan fields
  | _ :: fields => fieldFocusSpan fields

def elemFocusSpan : List (Tree Symbol) → Option (Option Span)
  | [] => none
  | .node .tupleElemPattern [pattern] :: elems =>
    if isRefutable pattern then some (refutableFocusSpan pattern) else elemFocusSpan elems
  | _ :: elems => elemFocusSpan elems

end

/-- Which children a walk goes into, in order.  The flag tells the operand of `&` or `&mut`
from other expressions. -/
abbrev Follow (Symbol : Type) := Bool → Kind → List (Tree Symbol) → List (Nat × Bool)

mutual

def collect (here : Kind → List (Tree Symbol) → List (Tree Symbol)) (follow : Follow Symbol)
    (borrowed : Bool) : Tree Symbol → List (Tree Symbol)
  | .node kind fields =>
    here kind fields ++ (follow borrowed kind fields).flatMap fun child =>
      ((collectEach here follow child.2 fields)[child.1]?).getD []
  | .opt (some value) => collect here follow borrowed value
  | .list values => (collectEach here follow borrowed values).flatten
  | .spur _ | .span _ | .scalar _ | .text _ | .opt none => []

def collectEach (here : Kind → List (Tree Symbol) → List (Tree Symbol)) (follow : Follow Symbol)
    (borrowed : Bool) : List (Tree Symbol) → List (List (Tree Symbol))
  | [] => []
  | tree :: trees => collect here follow borrowed tree :: collectEach here follow borrowed trees

end

attribute [grind =] collect

def letPattern : Kind → List (Tree Symbol) → List (Tree Symbol)
  | .letStatement, [_, _, pattern, _, _, _] => [pattern]
  | _, _ => []

def everywhere : Follow Symbol := fun _ _ fields => (List.range fields.length).map (·, false)

def letPatterns (tree : Tree Symbol) : List (Tree Symbol) := collect letPattern everywhere false tree

def validated : Kind → List Nat
  | .ast => [1]
  | .itemFunction | .itemStruct | .itemEnum | .itemConst | .itemDerive => [0]
  | .function => [7]
  | .structDecl | .enumDecl => [6]
  | .constDecl => [5]
  | .deriveDecl => [2]
  | .method => [8]
  | .blockExpr => [0, 1]
  | .statementLet | .statementAssign | .statementExpr | .assignField | .assignIndex => [0]
  | .letStatement => [4]
  | .assignStatement => [1, 0]
  | .exprBlock | .exprMatch | .exprIf | .exprWhile | .exprFor | .exprLoop | .exprBinary
  | .exprUnary | .exprCall | .exprIntrinsicCall | .exprMethodCall | .exprAssocFnCall | .exprField
  | .exprTupleIndex | .exprIndex | .exprReturn | .exprParen | .exprStructLit
  | .exprEnumStructLit | .exprArrayLit | .exprTuple | .exprComptime | .exprAnonFn
  | .exprRange => [0]
  | .matchExpr | .whileExpr | .indexExpr | .rangeExpr => [0, 1]
  | .ifExpr => [0, 1, 2]
  | .forExpr => [2, 3]
  | .binaryExpr | .methodCallExpr => [0, 2]
  | .matchArm | .unaryExpr | .callExpr | .callArg | .intrinsicCallExpr | .fieldInit => [1]
  | .intrinsicArgExpr | .loopExpr | .fieldExpr | .tupleIndexExpr | .returnExpr | .parenExpr
  | .arrayLitExpr | .tupleExpr | .comptimeBlockExpr => [0]
  | .assocFnCallExpr => [4]
  | .structLitExpr | .anonFnExpr => [2]
  | .enumStructLitExpr => [3]
  | _ => []

def validatedFields : Follow Symbol := fun _ kind _ => (validated kind).map (·, false)

inductive RefutablePatternInLet
  | mk (span : Option Span)
  deriving DecidableEq, Repr

def walkAst (tree : Tree Symbol) : List RefutablePatternInLet :=
  ((collect letPattern validatedFields false tree).filter isRefutable).map fun pattern =>
    .mk (refutableFocusSpan pattern)

def isRange : Tree Symbol → Bool
  | .node .exprRange _ => true
  | _ => false

-- `Ref` and `MutRef` are the fourth and fifth unary operator.
def isReference : Tree Symbol → Bool
  | .scalar op => op == 3 || op == 4
  | _ => false

/-- The fields `AstGen` goes into.  Types are only rendered as names, unless a type literal
declares methods; a range index is only looked at under `&`. -/
def generated : Follow Symbol := fun borrowed kind fields =>
  match kind, fields with
  | .unaryExpr, [op, _, _] => [(1, isReference op)]
  | .exprIndex, [.node .indexExpr [_, index, _]] =>
    if isRange index && !borrowed then [] else [(0, borrowed)]
  | .indexExpr, [_, index, _] => [(0, false), (1, borrowed && isRange index)]
  | .exprRange, _ => if borrowed then [(0, true)] else []
  | .matchArm, _ => [(0, false), (1, false)]
  | .structLitExpr, _ => [(0, false), (2, false)]
  | .enumStructLitExpr, _ => [(0, false), (3, false)]
  | .exprPath, _ | .pathExpr, _ | .exprComptimeUnrollFor, _ | .exprChecked, _
  | .checkedBlockExpr, _ | .exprTypeLit, _ | .typeLitExpr, _ | .patternPath, _
  | .pathPattern, _ | .patternTuple, _ | .tupleElemPattern, _ => [(0, false)]
  | .comptimeUnrollForExpr, _ => [(1, false), (2, false)]
  | .typeAnonymousStruct, _ | .typeAnonymousEnum, _ => [(3, false)]
  | .patternDataVariant, _ | .patternStructVariant, _ => [(0, false), (3, false)]
  | .patternStruct, _ | .fieldPattern, _ | .patternComptimeUnrollArm, _ => [(1, false)]
  | _, _ => (validated kind).map (·, false)

def isDestructure : Tree Symbol → Bool
  | .node .patternStruct _ | .node .patternTuple _ => true
  | _ => false

def loweredAsLet : Kind → List (Tree Symbol) → List (Tree Symbol)
  | .letStatement, [_, _, pattern, _, _, _] => [pattern]
  | .matchExpr, [_, .list [.node .matchArm [pattern, _, _]], _] =>
    if isDestructure pattern && isIrrefutableDestructure pattern then [pattern] else []
  | _, _ => []

def generatePanics (tree : Tree Symbol) : Bool :=
  (collect loweredAsLet generated false tree).any letPanics

end Ast

end Gruel
