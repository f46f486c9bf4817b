import Gruel.Lib.Combinator

/-!
The expression parser: prefix operators in front of atoms, and one left fold for each level of
binary operators.
-/

namespace Gruel

namespace Operators

open Combinator

inductive TokenKind (Other : Type)
  | minus
  | bang
  | tilde
  | amp
  | mut
  | star
  | slash
  | percent
  | plus
  | ltLt
  | gtGt
  | eqEq
  | bangEq
  | lt
  | gt
  | ltEq
  | gtEq
  | caret
  | pipe
  | ampAmp
  | pipePipe
  | other (token : Other)
  deriving DecidableEq, Repr

inductive UnaryOp
  | neg
  | not
  | bitNot
  | ref
  | mutRef
  deriving DecidableEq, Repr

inductive BinaryOp
  | add
  | sub
  | mul
  | div
  | mod
  | eq
  | ne
  | lt
  | gt
  | le
  | ge
  | and
  | or
  | bitAnd
  | bitOr
  | bitXor
  | shl
  | shr
  deriving DecidableEq, Repr

inductive Expr (Atom : Type)
  | atom (atom : Atom)
  | unary (op : UnaryOp) (operand : Expr Atom)
  | binary (left : Expr Atom) (op : BinaryOp) (right : Expr Atom)
  deriving DecidableEq, Repr

section Parsers

variable {Other Atom : Type}

def BinaryOp.token : BinaryOp → TokenKind Other
  | .mul => .star
  | .div => .slash
  | .mod => .percent
  | .add => .plus
  | .sub => .minus
  | .shl => .ltLt
  | .shr => .gtGt
  | .eq => .eqEq
  | .ne => .bangEq
  | .lt => .lt
  | .gt => .gt
  | .le => .ltEq
  | .ge => .gtEq
  | .bitAnd => .amp
  | .bitXor => .caret
  | .bitOr => .pipe
  | .and => .ampAmp
  | .or => .pipePipe

variable [DecidableEq Other]

abbrev GruelParser (Other Value : Type) := Parser (TokenKind Other) Value

def prefixOp : GruelParser Other UnaryOp := .choice [ (Parser.just .minus).toValue .neg,
      (Parser.just .bang).toValue .not,
      (Parser.just .tilde).toValue .bitNot,
      -- `&mut` comes before `&`.
      ((Parser.just .amp).andThen (.just .mut)).toValue .mutRef,
      (Parser.just .amp).toValue .ref ]

def applyPrefixes (ops : List UnaryOp) (operand : Expr Atom) : Expr Atom :=
  ops.reverse.foldl (fun operand op => .unary op operand) operand

def unary (atom : GruelParser Other Atom) : GruelParser Other (Expr Atom) :=
  (prefixOp.repeated.andThen atom).map fun (ops, operand) => applyPrefixes ops (.atom operand)

def oneOf (ops : List BinaryOp) : GruelParser Other BinaryOp :=
  .choice (ops.map fun op => (Parser.just op.token).toValue op)

def leftBinary (operand : GruelParser Other (Expr Atom)) (ops : List BinaryOp) : GruelParser Other (Expr Atom) :=
  operand.leftBinary (oneOf ops) .binary

variable (atom : GruelParser Other Atom)

def multiplicative : GruelParser Other (Expr Atom) := leftBinary (unary atom) [.mul, .div, .mod]

def additive : GruelParser Other (Expr Atom) := leftBinary (multiplicative atom) [.add, .sub]

def shift : GruelParser Other (Expr Atom) := leftBinary (additive atom) [.shl, .shr]

def comparison : GruelParser Other (Expr Atom) :=
  leftBinary (shift atom) [.eq, .ne, .lt, .gt, .le, .ge]

def bitwiseAnd : GruelParser Other (Expr Atom) := leftBinary (comparison atom) [.bitAnd]

def bitwiseXor : GruelParser Other (Expr Atom) := leftBinary (bitwiseAnd atom) [.bitXor]

def bitwiseOr : GruelParser Other (Expr Atom) := leftBinary (bitwiseXor atom) [.bitOr]

def logicalAnd : GruelParser Other (Expr Atom) := leftBinary (bitwiseOr atom) [.and]

def logicalOr : GruelParser Other (Expr Atom) := leftBinary (logicalAnd atom) [.or]

/-- Atoms contain expressions; the depth bounds how often. -/
def exprParser (atomParser : GruelParser Other (Expr Atom) → GruelParser Other Atom) :
    Nat → GruelParser Other (Expr Atom)
  | 0 => .choice []
  | depth + 1 => logicalOr (atomParser (exprParser atomParser depth))

end Parsers

end Operators

end Gruel
