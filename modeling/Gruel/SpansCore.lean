import Gruel.AstCore

/-!
How the parser makes the spans of what it recognises.
-/

namespace Gruel

namespace Span

def extendTo (span : Span) (stop : BitVec 32) : Span := { span with stop := stop }

def contains (span inner : Span) : Bool :=
  decide (span.start ≤ inner.start) && decide (inner.stop ≤ span.stop)

end Span

namespace Spans

open Ast

inductive Origin
  -- `span_from_extra`
  | extra (start stop : BitVec 32)
  -- `base.span().extend_to(stop)`, for suffixes and for the modules of a pattern.
  | extendTo (stop : BitVec 32)
  | makeBinary
  | makeUnary (opStart : BitVec 32)
  -- A field or index step of `assign_target_parser`.
  | assignTarget
  -- The unit `process_block_items` puts where a block has no final expression.
  | blockEnd (stop : BitVec 32)
  deriving DecidableEq

/-- What the parser has recognised: a syntax tree that has the origins of its spans in the
place of the spans. -/
inductive Recognised
  -- A symbol, a number, a flag or a text.
  | leaf (value : Ast.Tree Nat)
  -- The position of a tuple index, kept beside the span of its expression.
  | position (start stop : BitVec 32)
  | doc (body : String) (start stop : BitVec 32)
  -- The variants of an enumeration have no span of their own.
  | node (kind : Kind) (origin : Option Origin) (fields : List Recognised)
  | opt (value : Option Recognised)
  | list (values : List Recognised)

mutual

def Recognised.span (fileId : FileId) : Recognised → Span
  | .leaf _ | .opt none => Span.new 0 0
  | .position start stop | .doc _ start stop => Span.withFile fileId start stop
  | .node _ (some (.extra start stop)) _ => Span.withFile fileId start stop
  | .node _ (some (.extendTo stop)) fields => (spanFirst fileId fields).extendTo stop
  | .node _ (some .makeBinary) fields | .node _ (some .assignTarget) fields =>
    Span.new (spanFirst fileId fields).start (spanLast fileId fields).stop
  | .node _ (some (.makeUnary opStart)) fields => Span.new opStart (spanLast fileId fields).stop
  | .node _ (some (.blockEnd stop)) _ => Span.new stop stop
  | .node _ none fields => spanFirst fileId fields
  | .opt (some value) => value.span fileId
  | .list values => spanFirst fileId values

def spanFirst (fileId : FileId) : List Recognised → Span
  | [] => Span.new 0 0
  | value :: _ => value.span fileId

def spanLast (fileId : FileId) : List Recognised → Span
  | [] => Span.new 0 0
  | [value] => value.span fileId
  | _ :: values => spanLast fileId values

end

def spanField (kind : Kind) : Nat := (kind.fields.map Field.shape).idxOf .span

mutual

def Recognised.build (fileId : FileId) : Recognised → Ast.Tree Nat
  | .leaf value => value
  | .position start stop => .span (Span.withFile fileId start stop)
  | .doc body start stop =>
    .node .doc [.text body, .span (Span.withFile fileId start stop)]
  | .node kind none fields => .node kind (buildAll fileId fields)
  | .node kind (some origin) fields =>
    .node kind ((buildAll fileId fields).insertIdx (spanField kind)
      (.span (Recognised.span fileId (.node kind (some origin) fields))))
  | .opt none => .opt none
  | .opt (some value) => .opt (some (value.build fileId))
  | .list values => .list (buildAll fileId values)

def buildAll (fileId : FileId) : List Recognised → List (Ast.Tree Nat)
  | [] => []
  | value :: values => value.build fileId :: buildAll fileId values

end

def madeBy : Kind → Option Origin → Bool
  | .binaryExpr, origin => decide (origin = some .makeBinary)
  | .unaryExpr, some (.makeUnary _) => true
  | .unaryExpr, _ => false
  | .fieldExpr, some (.extendTo _) | .fieldExpr, some .assignTarget
  | .indexExpr, some (.extendTo _) | .indexExpr, some .assignTarget => true
  | .fieldExpr, _ | .indexExpr, _ => false
  | .tupleIndexExpr, some (.extendTo _) | .methodCallExpr, some (.extendTo _) => true
  | .tupleIndexExpr, _ | .methodCallExpr, _ => false
  -- With a module in front, or without one.
  | .structLitExpr, some (.extendTo _) | .pathExpr, some (.extendTo _)
  | .enumStructLitExpr, some (.extendTo _) | .assocFnCallExpr, some (.extendTo _) => true
  | .unitLit, some (.blockEnd _) => true
  | kind, some (.extra ..) => (kind.fields.map Field.shape).contains .span
  | kind, none => !(kind.fields.map Field.shape).contains .span
  | _, some _ => false

mutual

/-- Whether `span()` finds a span that some closure made. -/
def Recognised.spanned : Recognised → Bool
  | .leaf _ | .opt none => false
  | .position .. | .doc .. => true
  | .node _ (some (.extendTo _)) fields | .node _ none fields => spannedFirst fields
  | .node _ (some _) _ => true
  | .opt (some value) => value.spanned
  | .list values => spannedFirst values

def spannedFirst : List Recognised → Bool
  | [] => false
  | value :: _ => value.spanned

end

def wellMade (kind : Kind) (origin : Option Origin) (fields : List Recognised) : Bool :=
  madeBy kind origin && decide (fields.length + (if origin.isSome then 1 else 0) = kind.fields.length) &&
    (origin.isNone || Recognised.spanned (.node kind origin fields))

mutual

/-- The parts of a node come from tokens within those of the node, whose first and last token
bound it; the doc comment attached to it ends before. -/
def Recognised.fits (start stop : BitVec 32) : Recognised → Bool
  | .leaf (.spur _) | .leaf (.scalar _) | .leaf (.text _) | .opt none => true
  | .leaf _ => false
  | .position first last => decide (start ≤ first) && decide (first ≤ last) && decide (last ≤ stop)
  | .doc _ first last => decide (first < last) && decide (last ≤ start)
  | .node kind none fields => wellMade kind none fields && fitsAll start stop fields
  | .node kind (some origin) fields =>
    let span := Recognised.span FileId.default (.node kind (some origin) fields)
    wellMade kind (some origin) fields && decide (start ≤ span.start) &&
      decide (span.start ≤ span.stop) && decide (span.stop ≤ stop) &&
      fitsAll span.start span.stop fields
  | .opt (some value) => value.fits start stop
  | .list values => fitsAll start stop values

def fitsAll (start stop : BitVec 32) : List Recognised → Bool
  | [] => true
  | value :: values => value.fits start stop && fitsAll start stop values

end

inductive Report
  -- `convert_error`, with the labels of its contexts.
  | converted (start stop : BitVec 32) (labels : List (BitVec 32 × BitVec 32))
  -- Refutable patterns and stray doc comments.
  | located (start stop : BitVec 32)

def Report.spans (fileId : FileId) : Report → List Span
  | .converted start stop labels =>
    Span.new start stop :: labels.map fun label => Span.new label.1 label.2
  | .located start stop => [Span.withFile fileId start stop]

def Report.fits (length : BitVec 32) : Report → Bool
  | .converted start stop labels =>
    decide (start ≤ stop) && decide (stop ≤ length) &&
      labels.all fun label => decide (label.1 ≤ label.2) && decide (label.2 ≤ length)
  | .located start stop => decide (start ≤ stop) && decide (stop ≤ length)

inductive Outcome
  | ast (moduleDoc : Option (String × BitVec 32 × BitVec 32)) (items : List Recognised)
  | errors (reports : List Report)

def moduleDocFits (length : BitVec 32) : Option (String × BitVec 32 × BitVec 32) → Bool
  | none => true
  | some (_, start, stop) => decide (start ≤ stop) && decide (stop ≤ length)

/-- What a parse of a source of some length may end with. -/
def Outcome.fits (length : BitVec 32) : Outcome → Bool
  | .ast moduleDoc items => moduleDocFits length moduleDoc && fitsAll 0 length items
  | .errors reports => reports.all (Report.fits length)

mutual

def spans : Ast.Tree Nat → List Span
  | .span span => [span]
  | .spur _ | .scalar _ | .text _ | .opt none => []
  | .node _ fields => spansAll fields
  | .opt (some value) => spans value
  | .list values => spansAll values

def spansAll : List (Ast.Tree Nat) → List Span
  | [] => []
  | tree :: trees => spans tree ++ spansAll trees

end

def ownSpan (kind : Kind) (fields : List (Ast.Tree Nat)) : Option Span :=
  match fields[spanField kind]? with
  | some (.span span) => some span
  | _ => none

mutual

def nested : Ast.Tree Nat → Bool
  | .span _ | .spur _ | .scalar _ | .text _ | .opt none => true
  | .node kind fields =>
    (match ownSpan kind fields with
      | some span => (spansAll fields).all span.contains
      | none => true) && nestedAll fields
  | .opt (some value) => nested value
  | .list values => nestedAll values

def nestedAll : List (Ast.Tree Nat) → Bool
  | [] => true
  | tree :: trees => nested tree && nestedAll trees

end

def Origin.leavesOutFile : Origin → Bool
  | .extra .. | .extendTo _ => false
  | .makeBinary | .makeUnary _ | .assignTarget | .blockEnd _ => true

mutual

def Recognised.leavesOutFile : Recognised → Bool
  | .leaf _ | .position .. | .doc .. | .opt none => false
  | .node _ none fields => leavesOutFileAll fields
  | .node _ (some origin) fields => origin.leavesOutFile || leavesOutFileAll fields
  | .opt (some value) => value.leavesOutFile
  | .list values => leavesOutFileAll values

def leavesOutFileAll : List Recognised → Bool
  | [] => false
  | value :: values => value.leavesOutFile || leavesOutFileAll values

end

mutual

def Recognised.hasDoc : Recognised → Bool
  | .leaf _ | .position .. | .opt none => false
  | .doc .. => true
  | .node _ _ fields => hasDocAll fields
  | .opt (some value) => value.hasDoc
  | .list values => hasDocAll values

def hasDocAll : List Recognised → Bool
  | [] => false
  | value :: values => value.hasDoc || hasDocAll values

end

def Report.leavesOutFile : Report → Bool
  | .converted .. => true
  | .located .. => false

end Spans

end Gruel
