import Mathlib.Tactic

/-!
Worklists from which items are taken in any order, once each, and what they
reach.
-/

namespace Worklists

variable {α : Type}

inductive Reaches (seed : α → Prop) (next : α → α → Prop) (avoid : α → Prop) : α → Prop
  | seed {item : α} : seed item → ¬ avoid item → Reaches seed next avoid item
  | next {item other : α} :
      Reaches seed next avoid item → next item other → ¬ avoid other → Reaches seed next avoid other

theorem Reaches.congr {seed seed' avoid avoid' : α → Prop} {next : α → α → Prop}
    (seeds : ∀ item, seed item ↔ seed' item) (avoids : ∀ item, avoid item ↔ avoid' item)
    (item : α) : Reaches seed next avoid item ↔ Reaches seed' next avoid' item := by
  have same : seed = seed' := funext fun item => propext (seeds item)
  have same' : avoid = avoid' := funext fun item => propext (avoids item)
  rw [same, same']

/-- From a worklist and the items done so far, any item is taken next; one that is done or to be
avoided is skipped, and the others add what comes next of them, short of what is done. -/
inductive Drains [DecidableEq α] (next : α → List α) (avoid : List α) :
    List α → List α → List α → Prop
  | finished {done : List α} : Drains next avoid [] done done
  | skipped {before after done final : List α} {item : α} :
      item ∈ avoid ∨ item ∈ done → Drains next avoid (before ++ after) done final →
        Drains next avoid (before ++ item :: after) done final
  | taken {before after done final : List α} {item : α} : item ∉ avoid → item ∉ done → Drains next avoid
          (before ++ after ++ (next item).filter fun other => other ∉ avoid ∧ other ∉ item :: done)
          (item :: done) final →
        Drains next avoid (before ++ item :: after) done final

variable [DecidableEq α] {next : α → List α} {avoid pending done final : List α}

theorem Drains.nodup (drains : Drains next avoid pending done final) (distinct : done.Nodup) : final.Nodup := by
  induction drains with
  | finished => exact distinct
  | skipped _ _ ih => exact ih distinct
  | taken _ new _ ih => exact ih (List.nodup_cons.mpr ⟨new, distinct⟩)

theorem Drains.sound (drains : Drains next avoid pending done final) {holds : α → Prop}
    (onPending : ∀ item ∈ pending, item ∉ avoid → holds item) (onDone : ∀ item ∈ done, holds item)
    (passes : ∀ item, holds item → ∀ other ∈ next item, other ∉ avoid → holds other) :
    ∀ item ∈ final, holds item := by
  induction drains with
  | finished => exact onDone
  | skipped _ _ ih =>
    refine ih (fun item member => onPending item ?_) onDone
    simp only [List.mem_append, List.mem_cons] at member ⊢
    tauto
  | @taken before after done final item outside _ _ ih =>
    have first : holds item := onPending item (by simp) outside
    refine ih ?_ ?_
    · intro other member
      simp only [List.mem_append, List.mem_filter] at member
      rcases member with member | ⟨follows, -⟩
      · exact onPending other (by simp [List.mem_append, List.mem_cons]; tauto)
      · exact passes item first other follows
    · intro other member
      rcases List.mem_cons.mp member with rfl | earlier
      · exact first
      · exact onDone other earlier

theorem Drains.complete (drains : Drains next avoid pending done final)
    (closed : ∀ item ∈ done, ∀ other ∈ next item, other ∈ avoid ∨ other ∈ done ∨ other ∈ pending) :
    (∀ item ∈ done, item ∈ final) ∧ (∀ item ∈ pending, item ∈ avoid ∨ item ∈ final) ∧
      ∀ item ∈ final, ∀ other ∈ next item, other ∈ avoid ∨ other ∈ final := by
  induction drains with
  | finished =>
    refine ⟨fun _ member => member, nofun, ?_⟩
    intro item member other follows
    have covered := closed item member other follows
    simpa using covered
  | @skipped before after done final item covered _ ih =>
    obtain ⟨kept, pended, closes⟩ := ih fun first member other follows => by
      have known := closed first member other follows
      simp only [List.mem_append, List.mem_cons] at known ⊢
      rcases known with known | known | known | rfl | known
      · tauto
      · tauto
      · tauto
      · tauto
      · tauto
    refine ⟨kept, ?_, closes⟩
    intro other member
    simp only [List.mem_append, List.mem_cons] at member pended
    rcases member with member | rfl | member
    · exact pended other (.inl member)
    · exact covered.imp_right (kept other)
    · exact pended other (.inr member)
  | @taken before after done final item outside new _ ih =>
    obtain ⟨kept, pended, closes⟩ := ih fun first member other follows => by
      by_cases avoided : other ∈ avoid
      · exact .inl avoided
      by_cases known : other ∈ item :: done
      · exact .inr (.inl known)
      rcases List.mem_cons.mp member with rfl | earlier
      · refine .inr (.inr ?_)
        simp only [List.mem_append, List.mem_filter, decide_eq_true_eq]
        exact .inr ⟨follows, avoided, known⟩
      · have covered := closed first earlier other follows
        simp only [List.mem_append, List.mem_cons] at covered known ⊢
        tauto
    refine ⟨fun other member => kept other (.tail _ member), ?_, closes⟩
    intro other member
    simp only [List.mem_append, List.mem_cons] at member pended
    rcases member with member | rfl | member
    · exact pended other (.inl (.inl member))
    · exact .inr (kept other (.head _))
    · exact pended other (.inl (.inr member))

def drain (next : α → List α) (avoid : List α) : Nat → List α → List α → Option (List α)
  | 0, _, _ => none
  | _ + 1, [], done => some done
  | limit + 1, item :: rest, done =>
    if item ∈ avoid ∨ item ∈ done then drain next avoid limit rest done
    else drain next avoid limit (rest ++ (next item).filter fun other => other ∉ avoid ∧ other ∉ item :: done)
      (item :: done)

theorem drains_of_drain {n : Nat} (drained : drain next avoid n pending done = some final) :
    Drains next avoid pending done final := by
  induction n generalizing pending done with
  | zero => cases drained
  | succ limit ih =>
    cases pending with
    | nil =>
      cases drained
      exact .finished
    | cons item rest =>
      rw [drain] at drained
      by_cases known : item ∈ avoid ∨ item ∈ done
      · rw [if_pos known] at drained
        have rested : Drains next avoid ([] ++ rest) done final := ih drained
        exact rested.skipped known
      · rw [if_neg known] at drained
        rw [not_or] at known
        show Drains next avoid ([] ++ item :: rest) done final
        exact .taken known.1 known.2 (ih drained)

theorem Drains.mem_iff (drains : Drains next avoid pending [] final) (item : α) : item ∈ final ↔
      Reaches (· ∈ pending) (fun first other => other ∈ next first) (· ∈ avoid) item := by
  constructor
  · intro member
    exact drains.sound (fun _ => .seed) nofun (fun _ reaches _ => .next reaches) item member
  · intro reaches
    obtain ⟨-, pended, closes⟩ := drains.complete nofun
    induction reaches with
    | seed member outside => exact (pended _ member).resolve_left outside
    | next _ follows outside ih => exact (closes _ ih _ follows).resolve_left outside

end Worklists
