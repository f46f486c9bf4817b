import Gruel.ScopesCore

/-!
Scopes that end leave the locals as they found them exactly when no name is inserted a second
time in one scope, unless with the value it had outside.
-/

namespace Gruel.Scopes

open UndoLog (beforeLast)

variable {VarInfo : Type}

theorem performAll_append (ctx : ScopedContext VarInfo) (first second : List (ScopeCall (Insertion VarInfo))) :
    performAll ctx (first ++ second) = performAll (performAll ctx first) second :=
  List.foldl_append

def IsScope {Action : Type} (calls before body : List (ScopeCall Action)) : Prop :=
  Matched body ∧ ∃ after, calls = before ++ .pushScope :: (body ++ .popScope :: after)

section Positions

variable {Action : Type} {calls before body inner outer : List (ScopeCall Action)}

section

variable (scope : IsScope calls before body)
include scope

theorem IsScope.cons {call : ScopeCall Action} : IsScope (call :: calls) (call :: before) body := by
  obtain ⟨matched, after, rfl⟩ := scope
  exact ⟨matched, after, rfl⟩

theorem IsScope.append : IsScope (outer ++ calls) (outer ++ before) body := by
  obtain ⟨matched, after, rfl⟩ := scope
  exact ⟨matched, after, by rw [List.append_assoc]⟩

theorem IsScope.inside (nested : IsScope body outer inner) : IsScope calls (before ++ .pushScope :: outer) inner := by
  obtain ⟨-, after, rfl⟩ := scope
  obtain ⟨matched, rest, rfl⟩ := nested
  exact ⟨matched, rest ++ .popScope :: after, by simp⟩

theorem IsScope.length_lt : body.length < calls.length := by
  obtain ⟨-, _, rfl⟩ := scope
  simp only [List.length_append, List.length_cons]
  omega

end

end Positions

variable {ctx : ScopedContext VarInfo}
variable {body : List (ScopeCall (Insertion VarInfo))}

/-- At every `pop_scope` that ends a scope of the sequence the context is what it was before the
`push_scope`. -/
def PopsRestore (ctx : ScopedContext VarInfo) (calls : List (ScopeCall (Insertion VarInfo))) : Prop :=
  ∀ before body, IsScope calls before body →
    performAll (performAll ctx before) (.pushScope :: (body ++ [.popScope])) = performAll ctx before

def directInserts : Nat → List (ScopeCall (Insertion VarInfo)) → List (Spur × VarInfo)
  | _, [] => []
  | depth, .pushScope :: calls => directInserts (depth + 1) calls
  | depth, .popScope :: calls => directInserts (depth - 1) calls
  | 0, .act insertion :: calls => (insertion.symbol, insertion.var) :: directInserts 0 calls
  | depth + 1, .act _ :: calls => directInserts (depth + 1) calls

/-- A name that a scope inserts more than once had, when the scope was opened, the value that its
last insertion there displaces. -/
def RebindsToOuter (ctx : ScopedContext VarInfo) (calls : List (ScopeCall (Insertion VarInfo))) : Prop :=
  ∀ before body, IsScope calls before body → ∀ symbol earlier,
    beforeLast symbol (directInserts 0 body) = some earlier → (performAll ctx before).entries symbol = some earlier

theorem directInserts_matched (matched : Matched body) (depth : Nat) (calls : List (ScopeCall (Insertion VarInfo))) :
    directInserts (depth + 1) (body ++ calls) = directInserts (depth + 1) calls := by
  induction matched generalizing depth calls with
  | nil => rfl
  | act rest ih => exact ih depth calls
  | scope inner rest innerIh restIh =>
    rw [List.cons_append, directInserts, List.append_assoc, innerIh, List.cons_append, directInserts]
    exact restIh depth calls

theorem directInserts_scope (matched : Matched body) (calls : List (ScopeCall (Insertion VarInfo))) :
    directInserts 0 (.pushScope :: (body ++ .popScope :: calls)) = directInserts 0 calls := by
  rw [directInserts, directInserts_matched matched, directInserts]

theorem performAll_matched (matched : Matched body) (restored : PopsRestore ctx body) :
    performAll ctx body = ctx.insertAll (directInserts 0 body) := by
  induction matched generalizing ctx with
  | nil => rfl
  | @act insertion calls rest ih =>
    apply ih
    intro before body scope
    exact restored _ _ scope.cons
  | @scope inner calls matchedInner rest innerIh restIh =>
    have undone : performAll ctx (.pushScope :: (inner ++ [.popScope])) = ctx :=
      restored [] inner ⟨matchedInner, calls, rfl⟩
    have split : (.pushScope :: (inner ++ .popScope :: calls) : List (ScopeCall (Insertion VarInfo))) =
        (.pushScope :: (inner ++ [.popScope])) ++ calls := by simp
    rw [directInserts_scope matchedInner, split, performAll_append, undone]
    apply restIh
    intro before body scope
    have here := restored _ _ (split ▸ scope.append)
    rwa [performAll_append, undone] at here

theorem pop_restores_iff (matched : Matched body) (restored : PopsRestore (pushScope ctx) body) :
    performAll ctx (.pushScope :: (body ++ [.popScope])) = ctx ↔
      ∀ symbol earlier, beforeLast symbol (directInserts 0 body) = some earlier →
        ctx.entries symbol = some earlier := by
  have inserts := performAll_matched matched restored
  have ends : performAll ctx (.pushScope :: (body ++ [.popScope])) = popScope (performAll (pushScope ctx) body) := by
    change performAll (pushScope ctx) (body ++ [.popScope]) = _
    rw [performAll_append]
    rfl
  rw [ends, inserts]
  exact UndoLog.pop_insertAll_eq_iff ctx _

theorem PopsRestore.inside {before : List (ScopeCall (Insertion VarInfo))}
    (restored : ∀ outer inner, IsScope body outer inner →
      performAll (performAll ctx (before ++ .pushScope :: outer)) (.pushScope :: (inner ++ [.popScope])) =
        performAll ctx (before ++ .pushScope :: outer)) :
    PopsRestore (pushScope (performAll ctx before)) body := by
  intro outer inner nested
  have here := restored outer inner nested
  rwa [performAll_append] at here

/-- In every sequence of calls from every state, all scopes are undone exactly when no scope
inserts a name again, except where the value inserted before was the outer one. -/
theorem pops_restore_iff (ctx : ScopedContext VarInfo) (calls : List (ScopeCall (Insertion VarInfo))) :
    PopsRestore ctx calls ↔ RebindsToOuter ctx calls := by
  constructor
  · intro restored before body scope
    refine (pop_restores_iff scope.1 (PopsRestore.inside ?_)).mp (restored before body scope)
    intro outer inner nested
    exact restored _ _ (scope.inside nested)
  · intro rebinds before body scope
    -- Scopes inside are shorter.
    generalize size : body.length = length
    induction length using Nat.strongRecOn generalizing before body with
    | ind length ih =>
      refine (pop_restores_iff scope.1 (PopsRestore.inside ?_)).mpr (rebinds before body scope)
      intro outer inner nested
      exact ih inner.length (size ▸ nested.length_lt) _ _ (scope.inside nested) rfl

/-- `{ let x = 1; let x = 2; }` leaves the first `x` behind. -/
theorem second_insertion_leaks : ¬ PopsRestore (UndoLog.Table.empty : ScopedContext Nat)
      [.pushScope, .act ⟨0, 1⟩, .act ⟨0, 2⟩, .popScope] := by
  intro restored
  have undone := restored [] [.act ⟨0, 1⟩, .act ⟨0, 2⟩] ⟨.act (.act .nil), [], rfl⟩
  have entry := congrArg (fun ctx : ScopedContext Nat => ctx.entries 0) undone
  exact absurd entry (by decide)

end Gruel.Scopes
