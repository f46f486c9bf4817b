/-!
Parsers that take tokens from the front of a list and give back a suffix of it.
-/

namespace Combinator

structure Parser (Token Value : Type) where
  run : List Token → Option (Value × List Token)
  suffix : ∀ {tokens value rest}, run tokens = some (value, rest) → rest <:+ tokens

variable {Token Value Other Operator : Type}

namespace Parser

def just [DecidableEq Token] (expected : Token) : Parser Token Token where
  run
    | [] => none
    | token :: rest => if token = expected then some (token, rest) else none
  suffix := by
    intro tokens _ rest ran
    cases tokens with
    | nil => cases ran
    | cons token tokens =>
      simp only [Option.ite_none_right_eq_some, Option.some.injEq, Prod.mk.injEq] at ran
      exact ran.2.2 ▸ List.suffix_cons token tokens

def map (parser : Parser Token Value) (change : Value → Other) : Parser Token Other where
  run tokens := (parser.run tokens).map fun (value, rest) => (change value, rest)
  suffix := by
    intro tokens value rest ran
    obtain ⟨⟨_, _⟩, here, same⟩ := Option.map_eq_some_iff.mp ran
    cases same
    exact parser.suffix here

def toValue (parser : Parser Token Value) (value : Other) : Parser Token Other :=
  parser.map fun _ => value

def andThen (first : Parser Token Value) (second : Parser Token Other) : Parser Token (Value × Other) where
  run tokens := match first.run tokens with
    | none => none
    | some (value, rest) =>
      (second.run rest).map fun (other, rest) => ((value, other), rest)
  suffix := by
    intro tokens value rest ran
    split at ran
    case h_1 => cases ran
    case h_2 found middle here =>
        obtain ⟨⟨other, _⟩, further, same⟩ := Option.map_eq_some_iff.mp ran
        cases same
        exact (second.suffix further).trans (first.suffix here)

def choice (parsers : List (Parser Token Value)) : Parser Token Value where
  run tokens := parsers.findSome? fun parser => parser.run tokens
  suffix := by
    intro tokens _ _ ran
    obtain ⟨parser, -, here⟩ := List.exists_of_findSome?_eq_some ran
    exact parser.suffix here

def repeatedFrom (item : Parser Token Value) : Nat → List Token → List Value × List Token
  | 0, tokens => ([], tokens)
  | fuel + 1, tokens =>
    match item.run tokens with
    | none => ([], tokens)
    | some (value, rest) =>
      let (values, rest) := item.repeatedFrom fuel rest
      (value :: values, rest)

attribute [grind =] repeatedFrom

theorem repeatedFrom_suffix (item : Parser Token Value) (fuel : Nat) (tokens : List Token) :
    (item.repeatedFrom fuel tokens).2 <:+ tokens := by
  induction fuel generalizing tokens with
  | zero => exact List.suffix_refl tokens
  | succ fuel ih =>
    simp only [repeatedFrom]
    split
    case h_1 => exact List.suffix_refl tokens
    case h_2 value rest here => exact (ih rest).trans (item.suffix here)

def repeated (item : Parser Token Value) : Parser Token (List Value) where
  run tokens := some (item.repeatedFrom tokens.length tokens)
  suffix := by
    intro tokens _ _ ran
    have isSuffix := item.repeatedFrom_suffix tokens.length tokens
    rw [Option.some.inj ran] at isSuffix
    exact isSuffix

def foldl (first : Parser Token Value) (steps : Parser Token (List Other))
    (step : Value → Other → Value) : Parser Token Value :=
  (first.andThen steps).map fun (value, others) => others.foldl step value

def leftBinary (operand : Parser Token Value) (operator : Parser Token Operator)
    (make : Value → Operator → Value → Value) : Parser Token Value :=
  operand.foldl (operator.andThen operand).repeated fun left (op, right) => make left op right

section Rules

variable {parser item : Parser Token Value} {tokens rest : List Token} {value : Value}
variable {parsers : List (Parser Token Value)}
variable {second : Parser Token Other} {middle : List Token}

theorem run_just [DecidableEq Token] (expected : Token) (rest : List Token) :
    (just expected).run (expected :: rest) = some (expected, rest) := if_pos rfl

theorem run_just_eq_none [DecidableEq Token] {expected : Token}
    (other : tokens.head? ≠ some expected) : (just expected).run tokens = none := by
  cases tokens with
  | nil => rfl
  | cons token tokens => exact if_neg fun same => other (congrArg some same)

theorem run_map (ran : parser.run tokens = some (value, rest)) (change : Value → Other) :
    (parser.map change).run tokens = some (change value, rest) := by
  simp [map, ran]

theorem run_map_eq_none (failed : parser.run tokens = none) (change : Value → Other) :
    (parser.map change).run tokens = none := by
  simp [map, failed]

theorem run_andThen {other : Other} (here : parser.run tokens = some (value, middle))
    (behind : second.run middle = some (other, rest)) :
    (parser.andThen second).run tokens = some ((value, other), rest) := by
  simp [andThen, here, behind]

theorem run_andThen_eq_none (failed : parser.run tokens = none) : (parser.andThen second).run tokens = none := by
  simp [andThen, failed]

theorem run_choice_head (ran : parser.run tokens = some (value, rest)) :
    (choice (parser :: parsers)).run tokens = some (value, rest) := by
  simp [choice, ran]

theorem run_choice_tail (failed : parser.run tokens = none) :
    (choice (parser :: parsers)).run tokens = (choice parsers).run tokens := by
  simp [choice, failed]

theorem run_choice_eq_none : (choice parsers).run tokens = none ↔ ∀ parser ∈ parsers, parser.run tokens = none :=
  List.findSome?_eq_none_iff

def Consumes (parser : Parser Token Value) : Prop :=
  ∀ tokens value rest, parser.run tokens = some (value, rest) → rest.length < tokens.length

theorem consumes_just [DecidableEq Token] (expected : Token) : (just expected).Consumes := by
  intro tokens _ _ ran
  cases tokens with
  | nil => cases ran
  | cons token tokens =>
    simp only [just, Option.ite_none_right_eq_some, Option.some.injEq, Prod.mk.injEq] at ran
    rw [← ran.2.2]
    exact Nat.lt_succ_self _

theorem Consumes.map (consumes : parser.Consumes) (change : Value → Other) : (parser.map change).Consumes := by
  intro _ _ _ ran
  obtain ⟨⟨_, _⟩, here, same⟩ := Option.map_eq_some_iff.mp ran
  cases same
  exact consumes _ _ _ here

theorem Consumes.andThen (consumes : parser.Consumes) (second : Parser Token Other) :
    (parser.andThen second).Consumes := by
  intro _ _ _ ran
  simp only [Parser.andThen] at ran
  split at ran
  case h_1 => cases ran
  case h_2 value middle here =>
      obtain ⟨⟨_, _⟩, further, same⟩ := Option.map_eq_some_iff.mp ran
      cases same
      exact Nat.lt_of_le_of_lt (second.suffix further).length_le (consumes _ _ _ here)

theorem consumes_choice (all : ∀ parser ∈ parsers, parser.Consumes) : (choice parsers).Consumes := by
  intro _ _ _ ran
  obtain ⟨parser, member, here⟩ := List.exists_of_findSome?_eq_some ran
  exact all parser member _ _ _ here

theorem Consumes.run_nil (consumes : item.Consumes) : item.run [] = none := by
  refine Option.eq_none_iff_forall_ne_some.mpr fun found here => ?_
  exact absurd (consumes _ _ _ here) (Nat.not_lt_zero _)

theorem Consumes.repeatedFrom_nil (consumes : item.Consumes) (fuel : Nat) : item.repeatedFrom fuel [] = ([], []) := by
  cases fuel with
  | zero => rfl
  | succ fuel => simp [repeatedFrom, consumes.run_nil]

theorem Consumes.repeatedFrom_eq (consumes : item.Consumes) {fuel other : Nat}
    {tokens : List Token} (enough : tokens.length ≤ fuel) (also : tokens.length ≤ other) :
    item.repeatedFrom fuel tokens = item.repeatedFrom other tokens := by
  induction fuel generalizing other tokens with
  | zero =>
    obtain rfl := List.eq_nil_of_length_eq_zero (Nat.le_zero.mp enough)
    rw [consumes.repeatedFrom_nil, consumes.repeatedFrom_nil]
  | succ fuel ih =>
    cases other with
    | zero =>
      obtain rfl := List.eq_nil_of_length_eq_zero (Nat.le_zero.mp also)
      rw [consumes.repeatedFrom_nil, consumes.repeatedFrom_nil]
    | succ other =>
      cases here : item.run tokens with
      | none => simp [repeatedFrom, here]
      | some found =>
        have shorter := consumes _ _ _ here
        have same := @ih other found.2 (by omega) (by omega)
        simp [repeatedFrom, here, same]

theorem run_repeated_stop (failed : item.run tokens = none) : item.repeated.run tokens = some ([], tokens) := by
  cases tokens with
  | nil => rfl
  | cons token tokens => simp [repeated, repeatedFrom, failed]

theorem run_repeated_step (consumes : item.Consumes) {values : List Value}
    (here : item.run tokens = some (value, middle))
    (further : item.repeated.run middle = some (values, rest)) :
    item.repeated.run tokens = some (value :: values, rest) := by
  have shorter := consumes _ _ _ here
  obtain ⟨fuel, isFuel⟩ := Nat.exists_eq_add_one.mpr (Nat.zero_lt_of_lt shorter)
  have same := @consumes.repeatedFrom_eq _ _ _ fuel middle.length middle (by omega) (Nat.le_refl _)
  simp only [repeated, Option.some.injEq] at further ⊢
  simp [isFuel, repeatedFrom, here, same, further]

end Rules

section Levels

variable {operand : Parser Token Value} {operator : Parser Token Operator} {make : Value → Operator → Value → Value}

variable {tokens rest : List Token}

def continueBinary (operand : Parser Token Value) (operator : Parser Token Operator)
    (make : Value → Operator → Value → Value) (left : Value) (tokens : List Token) :
    Option (Value × List Token) :=
  ((operator.andThen operand).repeated.run tokens).map fun (steps, rest) =>
    (steps.foldl (fun left (op, right) => make left op right) left, rest)

theorem run_leftBinary {left : Value} (ran : operand.run tokens = some (left, rest)) :
    (leftBinary operand operator make).run tokens = continueBinary operand operator make left rest := by
  simp only [leftBinary, foldl, map, andThen, ran, continueBinary, Option.map_map]
  rfl

theorem continueBinary_stop (ended : operator.run tokens = none) (left : Value) :
    continueBinary operand operator make left tokens = some (left, tokens) := by
  simp [continueBinary, run_repeated_stop (run_andThen_eq_none ended)]

theorem continueBinary_step (consumes : operator.Consumes) {middle : List Token} {op : Operator}
    {right : Value} (here : operator.run tokens = some (op, middle))
    (behind : operand.run middle = some (right, rest)) (left : Value) :
    continueBinary operand operator make left tokens =
      continueBinary operand operator make (make left op right) rest := by
  have item := run_andThen here behind
  cases further : (operator.andThen operand).repeated.run rest with
  | none => cases further
  | some found =>
    have repeats := run_repeated_step (consumes.andThen operand) item further
    simp [continueBinary, repeats, further]

end Levels

end Parser

end Combinator
