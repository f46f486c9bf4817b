import Gruel.ScopesCore

/-!
The move states behind an `if`: what is moved after it is what was moved in a branch that comes to
its end.
-/

namespace Gruel.Scopes

variable {state : VariableMoveState} {path : FieldPath} {symbol : Spur}

namespace VariableMoveState

def isPathMoved (state : VariableMoveState) (path : FieldPath) : Option Span :=
  match state.fullMove with
  | some span => some span
  | none =>
    match state.partialMoves path with
    | some span => some span
    | none =>
      (List.range' 1 (path.length - 1)).findSome? fun len => state.partialMoves (path.take len)

/-- `is_any_part_moved` returns a span; which one depends on the order of the hash map. -/
def IsAnyPartMoved (state : VariableMoveState) : Prop :=
  state.fullMove.isSome ∨ ∃ path, (state.partialMoves path).isSome

def IsEmpty (state : VariableMoveState) : Prop :=
  state.fullMove = none ∧ ∀ path, state.partialMoves path = none

def mergeUnion (branch1 branch2 : VariableMoveState) : VariableMoveState where
  fullMove := branch1.fullMove.or branch2.fullMove
  partialMoves path := (branch1.partialMoves path).or (branch2.partialMoves path)

end VariableMoveState

abbrev MoveMap := Spur → Option VariableMoveState

-- Whether a map of partial moves is empty is a question about every path.
open Classical in
noncomputable def keepNonempty (state : VariableMoveState) : Option VariableMoveState :=
  if state.IsEmpty then none else some state

noncomputable def mergeBranchMoves (thenMoves elseMoves : MoveMap) (thenDiverges elseDiverges : Bool) : MoveMap :=
  match thenDiverges, elseDiverges with
  | true, true => thenMoves
  | true, false => elseMoves
  | false, true => thenMoves
  | false, false => fun symbol =>
    match thenMoves symbol, elseMoves symbol with
    | some thenState, some elseState => keepNonempty (thenState.mergeUnion elseState)
    | some thenState, none => keepNonempty thenState
    | none, some elseState => keepNonempty elseState
    | none, none => none

def PathMoved (moves : MoveMap) (symbol : Spur) (path : FieldPath) : Prop :=
  ∃ state, moves symbol = some state ∧ (state.isPathMoved path).isSome

def AnyPartMoved (moves : MoveMap) (symbol : Spur) : Prop :=
  ∃ state, moves symbol = some state ∧ state.IsAnyPartMoved

namespace VariableMoveState

theorem isPathMoved_iff : (state.isPathMoved path).isSome ↔ state.fullMove.isSome ∨ (state.partialMoves path).isSome ∨
      ∃ len ∈ List.range' 1 (path.length - 1), (state.partialMoves (path.take len)).isSome := by
  unfold isPathMoved
  cases state.fullMove with
  | some span => simp
  | none =>
    cases state.partialMoves path with
    | some span => simp
    | none => simp

theorem isPathMoved_mergeUnion (first second : VariableMoveState) (path : FieldPath) :
    ((first.mergeUnion second).isPathMoved path).isSome ↔
      (first.isPathMoved path).isSome ∨ (second.isPathMoved path).isSome := by
  simp only [isPathMoved_iff, mergeUnion, Option.isSome_or, Bool.or_eq_true, and_or_left, exists_or]
  grind

theorem isAnyPartMoved_mergeUnion (first second : VariableMoveState) :
    (first.mergeUnion second).IsAnyPartMoved ↔ first.IsAnyPartMoved ∨ second.IsAnyPartMoved := by
  simp only [IsAnyPartMoved, mergeUnion, Option.isSome_or, Bool.or_eq_true, exists_or]
  exact or_or_or_comm

theorem not_isPathMoved_of_isEmpty (empty : state.IsEmpty) : ¬ (state.isPathMoved path).isSome := by
  simp [isPathMoved_iff, empty.1, empty.2]

theorem not_isAnyPartMoved_of_isEmpty (empty : state.IsEmpty) : ¬ state.IsAnyPartMoved := by
  simp [IsAnyPartMoved, empty.1, empty.2]

end VariableMoveState

section

variable {Moved : VariableMoveState → Prop}

/-- An entry of a map, where leaving out an empty state loses nothing. -/
theorem exists_keepNonempty (unmoved : ∀ state : VariableMoveState, state.IsEmpty → ¬ Moved state)
    (state : VariableMoveState) :
    (∃ kept, keepNonempty state = some kept ∧ Moved kept) ↔ Moved state := by
  unfold keepNonempty
  split
  · next empty => simp [unmoved state empty]
  · simp

theorem exists_mergeBranchMoves (unmoved : ∀ state : VariableMoveState, state.IsEmpty → ¬ Moved state)
    (joined : ∀ first second : VariableMoveState, Moved (first.mergeUnion second) ↔ Moved first ∨ Moved second)
    (thenMoves elseMoves : MoveMap) (symbol : Spur) :
    (∃ state, mergeBranchMoves thenMoves elseMoves false false symbol = some state ∧ Moved state) ↔
      (∃ state, thenMoves symbol = some state ∧ Moved state) ∨
        ∃ state, elseMoves symbol = some state ∧ Moved state := by
  simp only [mergeBranchMoves]
  cases thenMoves symbol <;> cases elseMoves symbol <;> simp [exists_keepNonempty unmoved, joined]

end

theorem pathMoved_merge (thenMoves elseMoves : MoveMap) (symbol : Spur) (path : FieldPath) :
    PathMoved (mergeBranchMoves thenMoves elseMoves false false) symbol path ↔
      PathMoved thenMoves symbol path ∨ PathMoved elseMoves symbol path :=
  exists_mergeBranchMoves (fun _ empty => VariableMoveState.not_isPathMoved_of_isEmpty empty)
    (fun first second => VariableMoveState.isPathMoved_mergeUnion first second path) _ _ symbol

theorem anyPartMoved_merge (thenMoves elseMoves : MoveMap) (symbol : Spur) :
    AnyPartMoved (mergeBranchMoves thenMoves elseMoves false false) symbol ↔
      AnyPartMoved thenMoves symbol ∨ AnyPartMoved elseMoves symbol :=
  exists_mergeBranchMoves (fun _ empty => VariableMoveState.not_isAnyPartMoved_of_isEmpty empty)
    VariableMoveState.isAnyPartMoved_mergeUnion _ _ symbol

/-- The same variables and paths count as moved. -/
def SameMoves (first second : MoveMap) : Prop :=
  (∀ symbol path, PathMoved first symbol path ↔ PathMoved second symbol path) ∧
    ∀ symbol, AnyPartMoved first symbol ↔ AnyPartMoved second symbol

noncomputable def join (first second : MoveMap) : MoveMap :=
  mergeBranchMoves first second false false

/-- A path is moved behind the branches where it is moved in one that does not diverge, and the
merge of two such branches is commutative, associative and idempotent. -/
theorem mergeBranchMoves_isJoin : (∀ (thenMoves elseMoves : MoveMap) (thenDiverges elseDiverges : Bool),
        thenDiverges = false ∨ elseDiverges = false → ∀ symbol path,
          PathMoved (mergeBranchMoves thenMoves elseMoves thenDiverges elseDiverges) symbol path ↔
            (thenDiverges = false ∧ PathMoved thenMoves symbol path) ∨
              (elseDiverges = false ∧ PathMoved elseMoves symbol path)) ∧
      (∀ first second, SameMoves (join first second) (join second first)) ∧
      (∀ first second third, SameMoves (join (join first second) third) (join first (join second third))) ∧
      ∀ moves, SameMoves (join moves moves) moves := by
  refine ⟨?_, fun first second => ?_, fun first second third => ?_, fun moves => ?_⟩
  · intro thenMoves elseMoves thenDiverges elseDiverges ends symbol path
    cases thenDiverges <;> cases elseDiverges
    case true.true => simp at ends
    case false.false => simp [pathMoved_merge]
    all_goals simp [mergeBranchMoves]
  · simp only [SameMoves, join, pathMoved_merge, anyPartMoved_merge]
    exact ⟨fun _ _ => or_comm, fun _ => or_comm⟩
  · simp only [SameMoves, join, pathMoved_merge, anyPartMoved_merge]
    exact ⟨fun _ _ => or_assoc, fun _ => or_assoc⟩
  · simp only [SameMoves, join, pathMoved_merge, anyPartMoved_merge]
    exact ⟨fun _ _ => or_self_iff, fun _ => or_self_iff⟩

theorem divergingThen_keeps_elseMove :
    PathMoved (mergeBranchMoves (fun _ => none) (fun _ => some { fullMove := some ⟨0, 0, 0⟩ }) true false) 0 [] :=
  (mergeBranchMoves_isJoin.1 _ _ true false (.inr rfl) 0 []).mpr (.inr ⟨rfl, _, rfl, rfl⟩)

end Gruel.Scopes
