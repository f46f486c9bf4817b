import Mathlib.Data.List.Basic

/-!
Choosing among rules by the longest match.
-/

namespace LongestMatch

variable {Rule Text : Type} (longest : Rule → Text → Option Nat) (priority : Rule → Nat)

def pick (text : Text) : List Rule → Option (Rule × Nat)
  | [] => none
  | rule :: rules =>
    match longest rule text, pick text rules with
    | none, best => best
    | some length, none => some (rule, length)
    | some length, some (best, most) =>
      if most < length ∨ (most = length ∧ priority best ≤ priority rule) then
        some (rule, length)
      else some (best, most)

variable {longest priority} {text : Text} {rules : List Rule} {rule : Rule} {length : Nat}

theorem pick_eq_none_iff : pick longest priority text rules = none ↔ ∀ rule ∈ rules, longest rule text = none := by
  induction rules with
  | nil => simp [pick]
  | cons first rules ih =>
    simp only [pick, List.forall_mem_cons]
    cases longest first text with
    | none => simp [ih]
    | some length =>
      cases pick longest priority text rules with
      | none => simp
      | some best =>
        simp only [reduceCtorEq, false_and, iff_false]
        split <;> simp

theorem pick_spec (picked : pick longest priority text rules = some (rule, length)) :
    rule ∈ rules ∧ longest rule text = some length ∧ ∀ other ∈ rules, ∀ most, longest other text = some most →
        most < length ∨ (most = length ∧ priority other ≤ priority rule) := by
  induction rules generalizing rule length with
  | nil => simp [pick] at picked
  | cons first rules ih =>
    simp only [pick] at picked
    cases matches_first : longest first text with
    | none =>
      simp only [matches_first] at picked
      obtain ⟨member, taken, best⟩ := ih picked
      refine ⟨List.mem_cons_of_mem _ member, taken, fun other inRules most found => ?_⟩
      rcases List.mem_cons.mp inRules with rfl | inRest
      · rw [matches_first] at found
        cases found
      · exact best other inRest most found
    | some reach =>
      simp only [matches_first] at picked
      cases pickedRest : pick longest priority text rules with
      | none =>
        simp only [pickedRest, Option.some.injEq, Prod.mk.injEq] at picked
        obtain ⟨rfl, rfl⟩ := picked
        refine ⟨List.mem_cons_self, matches_first, fun other inRules most found => ?_⟩
        rcases List.mem_cons.mp inRules with rfl | inRest
        · rw [matches_first] at found
          cases found
          exact .inr ⟨rfl, Nat.le_refl _⟩
        · rw [pick_eq_none_iff.1 pickedRest other inRest] at found
          cases found
      | some best =>
        obtain ⟨member, taken, beats⟩ := ih pickedRest
        simp only [pickedRest] at picked
        split at picked
        case isTrue first_wins =>
            obtain ⟨rfl, rfl⟩ := picked
            refine ⟨List.mem_cons_self, matches_first, fun other inRules amount found => ?_⟩
            rcases List.mem_cons.mp inRules with rfl | inRest
            · rw [matches_first] at found
              cases found
              exact .inr ⟨rfl, Nat.le_refl _⟩
            · have beaten := beats other inRest amount found
              omega
        case isFalse first_loses =>
            simp only [Option.some.injEq, Prod.mk.injEq] at picked
            obtain ⟨rfl, rfl⟩ := picked
            refine ⟨List.mem_cons_of_mem _ member, taken, fun other inRules amount found => ?_⟩
            rcases List.mem_cons.mp inRules with rfl | inRest
            · rw [matches_first] at found
              cases found
              omega
            · exact beats other inRest amount found

theorem pick_le (picked : pick longest priority text rules = some (rule, length)) {other : Rule}
    (member : other ∈ rules) {most : Nat} (found : longest other text = some most) :
    most ≤ length := by
  have beaten := (pick_spec picked).2.2 other member most found
  omega

theorem pick_of_longest (member : rule ∈ rules) (taken : longest rule text = some length)
    (most : ∀ other ∈ rules, other ≠ rule → ∀ reach, longest other text = some reach →
      reach < length) : pick longest priority text rules = some (rule, length) := by
  cases picked : pick longest priority text rules with
  | none =>
    rw [pick_eq_none_iff.1 picked rule member] at taken
    cases taken
  | some best =>
    obtain ⟨winner, reach⟩ := best
    obtain ⟨isRule, reached, -⟩ := pick_spec picked
    have enough := pick_le picked member taken
    by_cases same : winner = rule
    · subst same
      rw [taken] at reached
      cases reached
      rfl
    · have less := most winner isRule same reach reached
      omega

end LongestMatch
