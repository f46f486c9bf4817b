import Mathlib.Data.Set.Basic

/-!
Stores of computed values, looked up by a key.
-/

namespace ContentStore

variable {Input Key Value : Type} {key : Input → Key} {yields : Input → Value → Prop}
  {inputs : Set Input} {entries : Key → Option Value}

variable {input : Input} {value : Value}

def Written (key : Input → Key) (yields : Input → Value → Prop) (inputs : Set Input)
    (entries : Key → Option Value) : Prop :=
  ∀ place value, entries place = some value → ∃ input ∈ inputs, key input = place ∧ yields input value

theorem written_empty : Written key yields inputs fun _ => none := by
  intro _ _ present
  cases present

theorem Written.insert [DecidableEq Key] (written : Written key yields inputs entries)
    (member : input ∈ inputs) (yielded : yields input value) {updated : Key → Option Value}
    (updates : ∀ place, updated place = if place = key input then some value else entries place) :
    Written key yields inputs updated := by
  intro place other present
  rw [updates place] at present
  by_cases same : place = key input
  · rw [if_pos same, Option.some.injEq] at present
    exact ⟨input, member, same.symm, present ▸ yielded⟩
  · rw [if_neg same] at present
    exact written place other present

theorem Written.lookup (written : Written key yields inputs entries)
    (determined : ∀ other ∈ inputs, key other = key input → ∀ value,
      yields other value → yields input value) (present : entries (key input) = some value) :
    yields input value := by
  obtain ⟨other, member, sameKey, yielded⟩ := written _ _ present
  exact determined other member sameKey value yielded

end ContentStore
