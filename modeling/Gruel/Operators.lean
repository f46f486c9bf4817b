import Gruel.OperatorsCore
import Mathlib.Data.List.Basic

/-!
Operators are parsed into the one tree that the precedence table allows.
-/

namespace Gruel

namespace Operators

open Combinator

def BinaryOp.level : BinaryOp → Nat
  | .mul | .div | .mod => 1
  | .add | .sub => 2
  | .shl | .shr => 3
  | .eq | .ne | .lt | .gt | .le | .ge => 4
  | .bitAnd => 5
  | .bitXor => 6
  | .bitOr => 7
  | .and => 8
  | .or => 9

theorem BinaryOp.level_le (op : BinaryOp) : op.level ≤ 9 := by
  cases op <;> decide

namespace Expr

variable {Atom : Type}

def level : Expr Atom → Nat
  | .atom _ | .unary _ _ => 0
  | .binary _ op _ => op.level

theorem level_le (expr : Expr Atom) : expr.level ≤ 9 := by
  cases expr with
  | atom | unary => exact Nat.zero_le 9
  | binary left op right => exact op.level_le

/-- Every operator binds by the table, and those of one level group to the left. -/
def Precedence : Expr Atom → Prop
  | .atom _ => True
  | .unary _ operand => operand.level = 0 ∧ operand.Precedence
  | .binary left op right =>
    left.level ≤ op.level ∧ right.level < op.level ∧ left.Precedence ∧ right.Precedence

end Expr

section Sequences

variable {Other Atom : Type}

def UnaryOp.tokens : UnaryOp → List (TokenKind Other)
  | .neg => [.minus]
  | .not => [.bang]
  | .bitNot => [.tilde]
  | .ref => [.amp]
  | .mutRef => [.amp, .mut]

structure Operand (Other Atom : Type) where
  tokens : List (TokenKind Other)
  value : Atom

structure Prefixed (Other Atom : Type) where
  ops : List UnaryOp
  operand : Operand Other Atom

def Prefixed.tokens (prefixed : Prefixed Other Atom) : List (TokenKind Other) :=
  prefixed.ops.flatMap UnaryOp.tokens ++ prefixed.operand.tokens

structure Sequence (Other Atom : Type) where
  first : Prefixed Other Atom
  more : List (BinaryOp × Prefixed Other Atom)

namespace Sequence

def tailTokens (more : List (BinaryOp × Prefixed Other Atom)) : List (TokenKind Other) :=
  more.flatMap fun (op, prefixed) => op.token :: prefixed.tokens

def tokens (sequence : Sequence Other Atom) : List (TokenKind Other) :=
  sequence.first.tokens ++ tailTokens sequence.more

def prepend (op : UnaryOp) (sequence : Sequence Other Atom) : Sequence Other Atom :=
  { sequence with first := { sequence.first with ops := op :: sequence.first.ops } }

def join (left : Sequence Other Atom) (op : BinaryOp) (right : Sequence Other Atom) : Sequence Other Atom where
  first := left.first
  more := left.more ++ (op, right.first) :: right.more

end Sequence

def Expr.inorder : Expr (Operand Other Atom) → Sequence Other Atom
  | .atom operand => ⟨⟨[], operand⟩, []⟩
  | .unary op operand => operand.inorder.prepend op
  | .binary left op right => left.inorder.join op right.inorder

def Expr.map {Value : Type} (change : Atom → Value) : Expr Atom → Expr Value
  | .atom item => .atom (change item)
  | .unary op operand => .unary op (operand.map change)
  | .binary left op right => .binary (left.map change) op (right.map change)

def Expr.value (tree : Expr (Operand Other Atom)) : Expr Atom := tree.map Operand.value

def TokenKind.Leads : TokenKind Other → Prop
  | .minus | .bang | .tilde | .amp | .mut => True
  | _ => False

def Operand.Begins (operand : Operand Other Atom) : Prop :=
  ∃ token more, operand.tokens = token :: more ∧ ¬ token.Leads

namespace Sequence

def EachTail (holds : Operand Other Atom → List (TokenKind Other) → Prop) :
    List (BinaryOp × Prefixed Other Atom) → List (TokenKind Other) → Prop
  | [], _ => True
  | (_, prefixed) :: more, rest =>
    holds prefixed.operand (tailTokens more ++ rest) ∧ EachTail holds more rest

def Each (holds : Operand Other Atom → List (TokenKind Other) → Prop)
    (sequence : Sequence Other Atom) (rest : List (TokenKind Other)) : Prop :=
  holds sequence.first.operand (tailTokens sequence.more ++ rest) ∧ EachTail holds sequence.more rest

def Taken (atom : GruelParser Other Atom) : Sequence Other Atom → List (TokenKind Other) → Prop :=
  Each fun operand behind =>
    operand.Begins ∧ atom.run (operand.tokens ++ behind) = some (operand.value, behind)

variable {sequence left right : Sequence Other Atom} {op : BinaryOp}
  {holds other : Operand Other Atom → List (TokenKind Other) → Prop}
  {rest : List (TokenKind Other)}

theorem tailTokens_append (more others : List (BinaryOp × Prefixed Other Atom)) :
    tailTokens (more ++ others) = tailTokens more ++ tailTokens others := List.flatMap_append

theorem tokens_join (left : Sequence Other Atom) (op : BinaryOp) (right : Sequence Other Atom) :
    (left.join op right).tokens = left.tokens ++ op.token :: right.tokens := by
  simp [tokens, join, tailTokens]

theorem eachTail_append {more others : List (BinaryOp × Prefixed Other Atom)} : EachTail holds (more ++ others) rest ↔
      EachTail holds more (tailTokens others ++ rest) ∧ EachTail holds others rest := by
  induction more with
  | nil => simp [EachTail]
  | cons step more ih =>
    simp [List.cons_append, EachTail, ih, tailTokens_append, List.append_assoc, and_assoc]

theorem each_join : (left.join op right).Each holds rest ↔
      left.Each holds (op.token :: right.tokens ++ rest) ∧ right.Each holds rest := by
  have joined : tailTokens (left.join op right).more ++ rest =
      tailTokens left.more ++ (op.token :: right.tokens ++ rest) := by
    simp [join, tailTokens, tokens]
  have behind : tailTokens ((op, right.first) :: right.more) ++ rest = op.token :: right.tokens ++ rest := by
    simp [tailTokens, tokens]
  unfold Each
  rw [joined]
  simp [join, eachTail_append, behind, EachTail, and_assoc]

theorem Each.imp (each : sequence.Each holds rest)
    (implied : ∀ operand behind, holds operand behind → other operand behind) :
    sequence.Each other rest := by
  have tail : ∀ more, EachTail holds more rest → EachTail other more rest := by
    intro more eachTail
    induction more with
    | nil => trivial
    | cons step more ih => exact ⟨implied _ _ eachTail.1, ih eachTail.2⟩
  exact ⟨implied _ _ each.1, tail _ each.2⟩

end Sequence

end Sequences

section Building

variable {Other Atom : Type}

def Expr.append : Expr Atom → BinaryOp → Expr Atom → Expr Atom
  | .binary left above right, op, operand =>
    if op.level < above.level then .binary left above (right.append op operand)
    else .binary (.binary left above right) op operand
  | tree, op, operand => .binary tree op operand

theorem Expr.level_append (tree : Expr Atom) (op : BinaryOp) (operand : Expr Atom) :
    (tree.append op operand).level ≤ max tree.level op.level := by
  cases tree with
  | atom | unary => exact Nat.le_max_right _ _
  | binary left above right =>
    unfold append
    split
    case isTrue => exact Nat.le_max_left _ _
    case isFalse => exact Nat.le_max_right _ _

theorem BinaryOp.level_pos (op : BinaryOp) : 0 < op.level := by
  cases op <;> decide

theorem Expr.Precedence.append {tree operand : Expr Atom} (precedence : tree.Precedence)
    (op : BinaryOp) (level : operand.level = 0) (bound : operand.Precedence) :
    (tree.append op operand).Precedence := by
  have tight : operand.level < op.level := level ▸ op.level_pos
  induction tree with
  | atom | unary => exact ⟨Nat.zero_le _, tight, precedence, bound⟩
  | binary left above right _ ih =>
    unfold Expr.append
    obtain ⟨leftLevel, rightLevel, leftBound, rightBound⟩ := precedence
    split
    case isTrue below =>
        refine ⟨leftLevel, ?_, leftBound, ih rightBound⟩
        have highest := right.level_append op operand
        omega
    case isFalse above =>
        exact ⟨Nat.le_of_not_lt above, tight, ⟨leftLevel, rightLevel, leftBound, rightBound⟩, bound⟩

theorem Sequence.join_assoc (first second third : Sequence Other Atom) (op above : BinaryOp) :
    (first.join above second).join op third = first.join above (second.join op third) := by
  simp [join]

theorem Expr.inorder_append (tree : Expr (Operand Other Atom)) (op : BinaryOp) (operand : Expr (Operand Other Atom)) :
    (tree.append op operand).inorder = tree.inorder.join op operand.inorder := by
  induction tree with
  | atom | unary => rfl
  | binary left above right _ ih =>
    unfold append
    split
    case isTrue => rw [inorder, ih, inorder, Sequence.join_assoc]
    case isFalse => rfl

def Prefixed.tree (prefixed : Prefixed Other Atom) : Expr (Operand Other Atom) :=
  prefixed.ops.foldr .unary (.atom prefixed.operand)

theorem Prefixed.tree_spec (prefixed : Prefixed Other Atom) :
    prefixed.tree.inorder = ⟨prefixed, []⟩ ∧ prefixed.tree.level = 0 ∧ prefixed.tree.Precedence := by
  obtain ⟨ops, operand⟩ := prefixed
  induction ops with
  | nil => exact ⟨rfl, rfl, trivial⟩
  | cons op ops ih =>
    obtain ⟨inorder, level, precedence⟩ := ih
    refine ⟨?_, rfl, level, precedence⟩
    change Sequence.prepend op (Prefixed.tree ⟨ops, operand⟩).inorder = _
    rw [inorder]
    rfl

theorem exists_prefixed {tree : Expr (Operand Other Atom)} (precedence : tree.Precedence)
    (level : tree.level = 0) : ∃ prefixed : Prefixed Other Atom, tree = prefixed.tree := by
  induction tree with
  | atom operand => exact ⟨⟨[], operand⟩, rfl⟩
  | unary op operand ih =>
    obtain ⟨prefixed, rfl⟩ := ih precedence.2 precedence.1
    exact ⟨⟨op :: prefixed.ops, prefixed.operand⟩, rfl⟩
  | binary left op right => exact absurd level (Nat.ne_of_gt op.level_pos)

theorem Prefixed.map_tree {Value : Type} (change : Operand Other Atom → Value) (prefixed : Prefixed Other Atom) :
    prefixed.tree.map change = applyPrefixes prefixed.ops (.atom (change prefixed.operand)) := by
  obtain ⟨ops, operand⟩ := prefixed
  rw [applyPrefixes, List.foldl_reverse]
  induction ops with
  | nil => rfl
  | cons op ops ih => exact congrArg (Expr.unary op) ih

theorem exists_tree (sequence : Sequence Other Atom) :
    ∃ tree : Expr (Operand Other Atom), tree.Precedence ∧ tree.inorder = sequence := by
  have further : ∀ (more : List (BinaryOp × Prefixed Other Atom))
      (tree : Expr (Operand Other Atom)), tree.Precedence →
      ∃ whole : Expr (Operand Other Atom), whole.Precedence ∧
        whole.inorder = ⟨tree.inorder.first, tree.inorder.more ++ more⟩ := by
    intro more
    induction more with
    | nil =>
      intro tree precedence
      exact ⟨tree, precedence, by rw [List.append_nil]⟩
    | cons step more ih =>
      intro tree precedence
      obtain ⟨op, prefixed⟩ := step
      obtain ⟨inorder, level, bound⟩ := prefixed.tree_spec
      obtain ⟨whole, isPrecedence, isInorder⟩ :=
        ih (tree.append op prefixed.tree) (precedence.append op level bound)
      refine ⟨whole, isPrecedence, ?_⟩
      rw [isInorder, Expr.inorder_append, inorder]
      simp [Sequence.join]
  obtain ⟨inorder, -, precedence⟩ := sequence.first.tree_spec
  obtain ⟨whole, isPrecedence, isInorder⟩ := further sequence.more _ precedence
  refine ⟨whole, isPrecedence, ?_⟩
  rw [isInorder, inorder, List.nil_append]

end Building

section Parsing

variable {Other Atom Value : Type}
variable {ops : List BinaryOp}
variable {op : BinaryOp} {operand : Operand Other Atom}

def Reads (atom : GruelParser Other Value) (change : Operand Other Atom → Value)
    (operand : Operand Other Atom) (behind : List (TokenKind Other)) : Prop :=
  operand.Begins ∧ atom.run (operand.tokens ++ behind) = some (change operand, behind)

def recording (atom : GruelParser Other Atom) : GruelParser Other (Operand Other Atom) where
  run tokens := (atom.run tokens).map fun (value, rest) =>
    (⟨tokens.take (tokens.length - rest.length), value⟩, rest)
  suffix := by
    intro tokens _ rest ran
    obtain ⟨⟨value, _⟩, here, same⟩ := Option.map_eq_some_iff.mp ran
    cases same
    exact atom.suffix here

theorem reads_recording {atom : GruelParser Other Atom} {behind : List (TokenKind Other)}
    (reads : Reads atom Operand.value operand behind) :
    Reads (recording atom) id operand behind := by
  refine ⟨reads.1, ?_⟩
  simp [recording, reads.2]

theorem Expr.map_id (tree : Expr Atom) : tree.map id = tree := by
  induction tree with
  | atom => rfl
  | unary op operand ih => rw [map, ih]
  | binary left op right leftIh rightIh => rw [map, leftIh, rightIh]

def BinaryOp.ofToken : TokenKind Other → Option BinaryOp
  | .star => some .mul
  | .slash => some .div
  | .percent => some .mod
  | .plus => some .add
  | .minus => some .sub
  | .ltLt => some .shl
  | .gtGt => some .shr
  | .eqEq => some .eq
  | .bangEq => some .ne
  | .lt => some .lt
  | .gt => some .gt
  | .ltEq => some .le
  | .gtEq => some .ge
  | .amp => some .bitAnd
  | .caret => some .bitXor
  | .pipe => some .bitOr
  | .ampAmp => some .and
  | .pipePipe => some .or
  | _ => none

theorem BinaryOp.ofToken_token (op : BinaryOp) : ofToken (op.token : TokenKind Other) = some op := by
  cases op <;> rfl

theorem BinaryOp.token_inj {above : BinaryOp} (same : (op.token : TokenKind Other) = above.token) : op = above := by
  have back := congrArg ofToken same
  rwa [ofToken_token, ofToken_token, Option.some.injEq] at back

def Ends (level : Nat) (rest : List (TokenKind Other)) : Prop :=
  ∀ op : BinaryOp, op.level ≤ level → rest.head? ≠ some op.token

theorem ends_operator {level : Nat} (above : level < op.level) (rest : List (TokenKind Other)) :
    Ends level (op.token :: rest) := by
  intro _ within same
  rw [BinaryOp.token_inj (Option.some.inj same)] at above
  exact absurd above (Nat.not_lt_of_le within)

variable [DecidableEq Other] {rest : List (TokenKind Other)}

theorem run_oneOf (member : op ∈ ops) (rest : List (TokenKind Other)) :
    (oneOf ops).run (op.token :: rest) = some (op, rest) := by
  induction ops with
  | nil => cases member
  | cons first ops ih =>
    by_cases same : first = op
    · subst same
      exact Parser.run_choice_head (Parser.run_map (Parser.run_just _ _) _)
    · have other : (op.token :: rest).head? ≠ some first.token := fun isFirst =>
        same (BinaryOp.token_inj (Option.some.inj isFirst)).symm
      have failed := Parser.run_map_eq_none (Parser.run_just_eq_none other) fun _ => first
      have later := (List.mem_cons.mp member).resolve_left (Ne.symm same)
      exact (Parser.run_choice_tail failed).trans (ih later)

theorem run_oneOf_eq_none (ended : ∀ op ∈ ops, rest.head? ≠ some op.token) : (oneOf ops).run rest = none := by
  refine Parser.run_choice_eq_none.mpr fun parser member => ?_
  obtain ⟨op, isOp, rfl⟩ := List.mem_map.mp member
  exact Parser.run_map_eq_none (Parser.run_just_eq_none (ended op isOp)) _

theorem consumes_oneOf (ops : List BinaryOp) : (oneOf ops : GruelParser Other BinaryOp).Consumes := by
  refine Parser.consumes_choice fun parser member => ?_
  obtain ⟨op, -, rfl⟩ := List.mem_map.mp member
  exact (Parser.consumes_just op.token).map _

theorem run_prefixOp (op : UnaryOp) (notMut : rest.head? ≠ some .mut) :
    prefixOp.run (op.tokens ++ rest) = some (op, rest) := by
  cases op with
  | neg | not | bitNot | mutRef => rfl
  | ref =>
    cases rest with
    | nil => rfl
    | cons token rest =>
      cases token <;> first | rfl | exact absurd rfl notMut

theorem run_prefixOp_eq_none {token : TokenKind Other} (begins : ¬ token.Leads)
    (rest : List (TokenKind Other)) : prefixOp.run (token :: rest) = none := by
  cases token <;> first | rfl | exact absurd trivial begins

theorem consumes_prefixOp : (prefixOp : GruelParser Other UnaryOp).Consumes := by
  refine Parser.consumes_choice fun parser member => ?_
  simp only [List.mem_cons, List.not_mem_nil, or_false] at member
  rcases member with rfl | rfl | rfl | rfl | rfl
  all_goals first
    | exact (Parser.consumes_just _).map _
    | exact ((Parser.consumes_just _).andThen _).map _

variable {atom : GruelParser Other Value} {change : Operand Other Atom → Value}

theorem run_prefixes (ops : List UnaryOp) (begins : operand.Begins) (rest : List (TokenKind Other)) :
    prefixOp.repeated.run (ops.flatMap UnaryOp.tokens ++ (operand.tokens ++ rest)) =
      some (ops, operand.tokens ++ rest) := by
  obtain ⟨_, _, shape, notLeads⟩ := begins
  rw [shape, List.cons_append]
  induction ops with
  | nil => exact Parser.run_repeated_stop (run_prefixOp_eq_none notLeads _)
  | cons op ops ih =>
    rw [List.flatMap_cons, List.append_assoc]
    refine Parser.run_repeated_step consumes_prefixOp (run_prefixOp op ?_) ih
    cases ops with
    | nil =>
      rintro same
      cases same
      exact notLeads trivial
    | cons next ops =>
      cases next <;> exact nofun

def Parses (atom : GruelParser Other Value) (change : Operand Other Atom → Value)
    (parser : GruelParser Other (Expr Value)) (level : Nat) : Prop :=
  ∀ tree : Expr (Operand Other Atom), tree.Precedence → tree.level ≤ level →
    ∀ rest, tree.inorder.Each (Reads atom change) rest → Ends level rest →
      parser.run (tree.inorder.tokens ++ rest) = some (tree.map change, rest)

theorem parses_unary : Parses atom change (unary atom) 0 := by
  intro _ precedence level rest each _
  obtain ⟨prefixed, rfl⟩ := exists_prefixed precedence (Nat.le_zero.mp level)
  rw [prefixed.tree_spec.1] at each ⊢
  obtain ⟨⟨begins, taken⟩, -⟩ := each
  have tokens : Sequence.tokens ⟨prefixed, []⟩ ++ rest =
      prefixed.ops.flatMap UnaryOp.tokens ++ (prefixed.operand.tokens ++ rest) := by
    simp [Sequence.tokens, Sequence.tailTokens, Prefixed.tokens]
  rw [tokens, prefixed.map_tree]
  exact Parser.run_map (Parser.run_andThen (run_prefixes _ begins rest) taken) _

theorem Parses.leftBinary {parser : GruelParser Other (Expr Value)} {level : Nat}
    (parses : Parses atom change parser level) (isLevel : ∀ op, op ∈ ops ↔ op.level = level + 1) :
    Parses atom change (leftBinary parser ops) (level + 1) := by
  have further : ∀ tree : Expr (Operand Other Atom), tree.Precedence → tree.level ≤ level + 1 →
      ∀ rest, tree.inorder.Each (Reads atom change) rest → Ends level rest →
        (Operators.leftBinary parser ops).run (tree.inorder.tokens ++ rest) =
          Parser.continueBinary parser (oneOf ops) .binary (tree.map change) rest := by
    intro tree
    induction tree with
    | atom | unary =>
      intro precedence _ rest each ends
      exact Parser.run_leftBinary (parses _ precedence (Nat.zero_le _) rest each ends)
    | binary left op right ih _ =>
      intro precedence within rest each ends
      by_cases below : op.level ≤ level
      · exact Parser.run_leftBinary (parses _ precedence below rest each ends)
      · have here : op.level = level + 1 := by
          have atMost : op.level ≤ level + 1 := within
          omega
        obtain ⟨_, _, leftBound, rightBound⟩ := precedence
        obtain ⟨leftEach, rightEach⟩ := Sequence.each_join.1 each
        have behind : (oneOf ops).run (op.token :: right.inorder.tokens ++ rest) =
            some (op, right.inorder.tokens ++ rest) := run_oneOf ((isLevel op).mpr here) _
        have operand := parses right rightBound (by omega) rest rightEach ends
        have start := ih leftBound (by omega) _ leftEach (ends_operator (by omega) _)
        rw [Expr.inorder, Sequence.tokens_join, List.append_assoc, start]
        exact Parser.continueBinary_step (consumes_oneOf ops) behind operand _
  intro tree precedence within rest each ends
  rw [further tree precedence within rest each fun op below => ends op (Nat.le_succ_of_le below)]
  refine Parser.continueBinary_stop (run_oneOf_eq_none fun op member => ?_) _
  exact ends op (Nat.le_of_eq ((isLevel op).mp member))

theorem parses_logicalOr : Parses atom change (logicalOr atom) 9 := by
  refine .leftBinary (.leftBinary (.leftBinary (.leftBinary (.leftBinary (.leftBinary (.leftBinary
    (.leftBinary (.leftBinary parses_unary ?_) ?_) ?_) ?_) ?_) ?_) ?_) ?_) ?_
  all_goals
    intro op
    cases op <;> decide

theorem eq_of_tokens {atom : GruelParser Other Atom} {tree other : Expr (Operand Other Atom)}
    (ends : ∀ op : BinaryOp, rest.head? ≠ some op.token)
    (bound : tree.Precedence) (taken : tree.inorder.Taken atom rest)
    (otherBound : other.Precedence) (otherTaken : other.inorder.Taken atom rest)
    (same : other.inorder.tokens = tree.inorder.tokens) : other = tree := by
  have reads : ∀ whole : Expr (Operand Other Atom), whole.Precedence → whole.inorder.Taken atom rest →
      (logicalOr (recording atom)).run (whole.inorder.tokens ++ rest) = some (whole, rest) := by
    intro whole precedence isTaken
    have parsed := parses_logicalOr whole precedence whole.level_le rest
      (isTaken.imp fun _ _ => reads_recording) fun op _ => ends op
    rwa [Expr.map_id] at parsed
  have first := reads tree bound taken
  have second := reads other otherBound otherTaken
  rw [same, first] at second
  exact (Prod.mk.inj (Option.some.inj second)).1.symm

/-- Operands that are joined by operators are parsed as a whole into the one tree that the
precedence table allows, and no other operands and operators have these tokens. -/
theorem expr_parser_exact (atomParser : GruelParser Other (Expr Atom) → GruelParser Other Atom) (depth : Nat)
    (sequence : Sequence Other Atom) (rest : List (TokenKind Other))
    (taken : sequence.Taken (atomParser (exprParser atomParser depth)) rest)
    (ends : ∀ op : BinaryOp, rest.head? ≠ some op.token) :
    ∃ tree : Expr (Operand Other Atom),
      (exprParser atomParser (depth + 1)).run (sequence.tokens ++ rest) = some (tree.value, rest) ∧
        tree.Precedence ∧ tree.inorder = sequence ∧
        (∀ other : Expr (Operand Other Atom), other.Precedence →
          other.inorder.Taken (atomParser (exprParser atomParser depth)) rest →
          other.inorder.tokens = sequence.tokens → other = tree) ∧
        ∀ other : Sequence Other Atom, other.Taken (atomParser (exprParser atomParser depth)) rest →
          other.tokens = sequence.tokens → other = sequence := by
  obtain ⟨tree, precedence, rfl⟩ := exists_tree sequence
  have unique : ∀ other : Expr (Operand Other Atom), other.Precedence →
      other.inorder.Taken (atomParser (exprParser atomParser depth)) rest →
      other.inorder.tokens = tree.inorder.tokens → other = tree := fun other bound isTaken same =>
    eq_of_tokens ends precedence taken bound isTaken same
  refine ⟨tree, ?_, precedence, rfl, unique, ?_⟩
  · exact parses_logicalOr tree precedence tree.level_le rest taken fun op _ => ends op
  · intro other isTaken same
    obtain ⟨otherTree, bound, rfl⟩ := exists_tree other
    rw [unique otherTree bound isTaken same]

/-- Names as atoms. -/
def name : GruelParser Nat Nat where
  run
    | .other name :: rest => some (name, rest)
    | _ => none
  suffix := by
    intro _ _ rest ran
    split at ran
    case h_1 =>
        cases ran
        exact List.suffix_cons _ _
    case h_2 => cases ran

/-- `-a * b & &c` -/
def mixed : Sequence Nat Nat where
  first := ⟨[.neg], ⟨[.other 0], 0⟩⟩
  more := [(.mul, ⟨[], ⟨[.other 1], 1⟩⟩), (.bitAnd, ⟨[.ref], ⟨[.other 2], 2⟩⟩)]

theorem mixed_taken : mixed.Taken name [] :=
  ⟨⟨⟨.other 0, [], rfl, nofun⟩, rfl⟩, ⟨⟨.other 1, [], rfl, nofun⟩, rfl⟩, ⟨⟨.other 2, [], rfl, nofun⟩, rfl⟩, trivial⟩

theorem mixed_parsed : ∃ tree : Expr (Operand Nat Nat),
      (exprParser (fun _ => name) 1).run (mixed.tokens ++ []) = some (tree.value, []) ∧
        tree.Precedence ∧ tree.inorder = mixed := by
  obtain ⟨tree, parsed, precedence, inorder, -⟩ :=
    expr_parser_exact (fun _ => name) 0 mixed [] mixed_taken (by simp)
  exact ⟨tree, parsed, precedence, inorder⟩

example : (exprParser (fun _ => name) 1).run mixed.tokens =
    some (.binary (.binary (.unary .neg (.atom 0)) .mul (.atom 1)) .bitAnd (.unary .ref (.atom 2)), []) := rfl

end Parsing

end Operators

end Gruel
