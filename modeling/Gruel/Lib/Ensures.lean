import Mathlib.Data.List.Basic

/-!
Partial correctness of computations that may fail: whatever comes back meets a condition.
-/

namespace Ensuring

variable {ε α β : Type}

def Ensures (result : Except ε α) (post : α → Prop) : Prop :=
  ∀ value, result = .ok value → post value

theorem ensures_ok {value : α} {post : α → Prop} (holds : post value) : Ensures (.ok value : Except ε α) post := by
  intro _ same
  cases same
  exact holds

theorem ensures_error {err : ε} {post : α → Prop} : Ensures (.error err : Except ε α) post :=
  fun _ impossible => nomatch impossible

theorem ensures_bind {first : Except ε α} {next : α → Except ε β} {middle : α → Prop}
    {post : β → Prop} (before : Ensures first middle)
    (after : ∀ value, middle value → Ensures (next value) post) :
    Ensures (first >>= next) post := by
  cases first with
  | error err => exact ensures_error
  | ok value => exact after value (before value rfl)

theorem ensures_any (result : Except ε α) : Ensures result fun _ => True := fun _ _ => trivial

variable {Cell : Type} {alike : Cell → Cell → Prop}

def Kept (alike : Cell → Cell → Prop) (before after : List Cell) : Prop :=
  ∀ (index : Nat) (cell : Cell), before[index]? = some cell → ∃ other, after[index]? = some other ∧ alike cell other

section Reflexive

variable (reflexive : ∀ cell, alike cell cell)
include reflexive

theorem Kept.refl (cells : List Cell) : Kept alike cells cells :=
  fun _ cell held => ⟨cell, held, reflexive cell⟩

theorem Kept.append (cells more : List Cell) : Kept alike cells (cells ++ more) := by
  intro _ cell held
  refine ⟨cell, ?_, reflexive cell⟩
  have inside := (List.getElem?_eq_some_iff.mp held).1
  rw [List.getElem?_append_left inside]
  exact held

theorem Kept.set {cells : List Cell} {target : Nat} {cell other : Cell}
    (held : cells[target]? = some cell) (same : alike cell other) :
    Kept alike cells (cells.set target other) := by
  intro index found here
  by_cases own : target = index
  · subst own
    rw [held] at here
    obtain rfl := Option.some.inj here
    have inside := (List.getElem?_eq_some_iff.mp held).1
    exact ⟨other, List.getElem?_set_self inside, same⟩
  · exact ⟨found, by rw [List.getElem?_set_ne own, here], reflexive found⟩

end Reflexive

theorem Kept.trans {before middle after : List Cell}
    (transitive : ∀ {first second third}, alike first second → alike second third → alike first third)
    (first : Kept alike before middle) (second : Kept alike middle after) :
    Kept alike before after := by
  intro index cell held
  obtain ⟨other, otherHeld, same⟩ := first index cell held
  obtain ⟨last, lastHeld, sameLast⟩ := second index other otherHeld
  exact ⟨last, lastHeld, transitive same sameLast⟩

end Ensuring
