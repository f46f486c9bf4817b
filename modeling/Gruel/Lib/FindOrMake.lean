import Mathlib.Data.List.Basic

/-!
Identities that are found or made: a request is answered with the identity of an earlier maker whose
key fits, or it makes a new one; some requests always make their own.
-/

namespace FindOrMake

variable {Key Id : Type}

structure Answer (Key Id : Type) where
  key : Key
  id : Id
  isNew : Bool
  unique : Bool

inductive Answers (fits : Key → Key → Prop) : List (Answer Key Id) → Prop
  | start : Answers fits []
  | found {answers : List (Answer Key Id)} {made : Answer Key Id} {key : Key}
      (before : Answers fits answers) (member : made ∈ answers) (isMaker : made.isNew = true)
      (fit : fits made.key key) : Answers fits (⟨key, made.id, false, false⟩ :: answers)
  | made {answers : List (Answer Key Id)} {key : Key} {id : Id} (before : Answers fits answers)
      (unfit : ∀ made ∈ answers, made.isNew = true → ¬ fits made.key key)
      (fresh : ∀ earlier ∈ answers, earlier.id ≠ id) :
      Answers fits (⟨key, id, true, false⟩ :: answers)
  | unique {answers : List (Answer Key Id)} {key : Key} {id : Id} (before : Answers fits answers)
      (fresh : ∀ earlier ∈ answers, earlier.id ≠ id) :
      Answers fits (⟨key, id, true, true⟩ :: answers)

structure Agrees (fits same : Key → Key → Prop) (answers : List (Answer Key Id)) (key : Key) :
    Prop where
  shared : ∀ made ∈ answers, made.isNew = true → made.unique = false → (fits made.key key ↔ same made.key key)
  apart : ∀ made ∈ answers, made.unique = true → ¬ fits made.key key

def AllAgree (fits same : Key → Key → Prop) : List (Answer Key Id) → Prop
  | [] => True
  | answer :: answers =>
    (answer.unique = false → Agrees fits same answers answer.key) ∧ AllAgree fits same answers

structure Identified (same : Key → Key → Prop) (answers : List (Answer Key Id)) : Prop where
  equal_iff : ∀ first ∈ answers, first.unique = false → ∀ second ∈ answers, second.unique = false →
    (first.id = second.id ↔ same first.key second.key)
  unique_ne : ∀ first ∈ answers, first.unique = true → ∀ second ∈ answers, second.unique = false →
    first.id ≠ second.id
  uniques : answers.Pairwise fun later earlier =>
    later.unique = true → earlier.unique = true → later.id ≠ earlier.id
  maker : ∀ answer ∈ answers, answer.unique = false → ∃ made ∈ answers, made.isNew = true ∧
    made.unique = false ∧ same made.key answer.key

theorem Identified.cons_unique {same : Key → Key → Prop}
    {answers : List (Answer Key Id)} (identified : Identified same answers) {answer : Answer Key Id}
    (isUnique : answer.unique = true)
    (fresh : ∀ earlier ∈ answers, earlier.id ≠ answer.id) :
    Identified same (answer :: answers) where
  equal_iff := by
    intro first member firstShared second otherMember secondShared
    rcases List.mem_cons.mp member with rfl | earlier
    · rw [isUnique] at firstShared
      cases firstShared
    · rcases List.mem_cons.mp otherMember with rfl | otherEarlier
      · rw [isUnique] at secondShared
        cases secondShared
      · exact identified.equal_iff first earlier firstShared second otherEarlier secondShared
  unique_ne := by
    intro first member firstUnique second otherMember secondShared
    rcases List.mem_cons.mp otherMember with rfl | otherEarlier
    · rw [isUnique] at secondShared
      cases secondShared
    · rcases List.mem_cons.mp member with rfl | earlier
      · exact (fresh second otherEarlier).symm
      · exact identified.unique_ne first earlier firstUnique second otherEarlier secondShared
  uniques :=
    List.pairwise_cons.mpr ⟨fun other inside _ _ => (fresh other inside).symm, identified.uniques⟩
  maker := by
    intro other member otherShared
    rcases List.mem_cons.mp member with rfl | earlier
    · rw [isUnique] at otherShared
      cases otherShared
    · obtain ⟨made, inside, rest⟩ := identified.maker other earlier otherShared
      exact ⟨made, List.mem_cons_of_mem _ inside, rest⟩

section Equivalent

variable {fits same : Key → Key → Prop} (equivalence : Equivalence same)
include equivalence

theorem Identified.cons {answers : List (Answer Key Id)} (identified : Identified same answers)
    {answer : Answer Key Id} (shared : answer.unique = false)
    (equal : ∀ other ∈ answers, other.unique = false → (answer.id = other.id ↔ same answer.key other.key))
    (ne : ∀ other ∈ answers, other.unique = true → other.id ≠ answer.id)
    (maker : ∃ made ∈ answer :: answers, made.isNew = true ∧ made.unique = false ∧
      same made.key answer.key) : Identified same (answer :: answers) where
  equal_iff := by
    intro first member firstShared second otherMember secondShared
    rcases List.mem_cons.mp member with rfl | earlier <;> rcases List.mem_cons.mp otherMember with rfl | otherEarlier
    · exact ⟨fun _ => equivalence.refl _, fun _ => rfl⟩
    · exact equal second otherEarlier secondShared
    · rw [eq_comm, equal first earlier firstShared]
      exact ⟨equivalence.symm, equivalence.symm⟩
    · exact identified.equal_iff first earlier firstShared second otherEarlier secondShared
  unique_ne := by
    intro first member isUnique second otherMember secondShared
    rcases List.mem_cons.mp member with rfl | earlier
    · rw [shared] at isUnique
      cases isUnique
    · rcases List.mem_cons.mp otherMember with rfl | otherEarlier
      · exact ne first earlier isUnique
      · exact identified.unique_ne first earlier isUnique second otherEarlier secondShared
  uniques := by
    refine List.pairwise_cons.mpr ⟨?_, identified.uniques⟩
    intro other _ isUnique
    rw [shared] at isUnique
    cases isUnique
  maker := by
    intro other member otherShared
    rcases List.mem_cons.mp member with rfl | earlier
    · exact maker
    · obtain ⟨made, inside, rest⟩ := identified.maker other earlier otherShared
      exact ⟨made, List.mem_cons_of_mem _ inside, rest⟩

theorem identified_of_agree {answers : List (Answer Key Id)} (answered : Answers fits answers)
    (agree : AllAgree fits same answers) : Identified same answers := by
  induction answered with
  | start =>
    constructor
    case uniques => exact .nil
    all_goals exact fun _ absent => nomatch absent
  | @found answers made key before member isMaker fit ih =>
    have identified := ih agree.2
    have agrees := agree.1 rfl
    have shared : made.unique = false := by
      by_contra isUnique
      exact agrees.apart made member (by simpa using isUnique) fit
    have equivalent := (agrees.shared made member isMaker shared).mp fit
    refine identified.cons equivalence rfl ?_ ?_ ?_
    · intro other inside otherShared
      rw [identified.equal_iff made member shared other inside otherShared]
      exact ⟨equivalence.trans (equivalence.symm equivalent), equivalence.trans equivalent⟩
    · intro other inside isUnique
      exact identified.unique_ne other inside isUnique made member shared
    · exact ⟨made, List.mem_cons_of_mem _ member, isMaker, shared, equivalent⟩
  | @made answers key id before unfit fresh ih =>
    have identified := ih agree.2
    have agrees := agree.1 rfl
    refine identified.cons equivalence rfl ?_ (fun other inside _ => fresh other inside) ?_
    · intro other inside otherShared
      obtain ⟨made, makes, isMaker, shared, equivalent⟩ :=
        identified.maker other inside otherShared
      constructor
      · exact fun same => absurd same.symm (fresh other inside)
      · intro same
        have fit := (agrees.shared made makes isMaker shared).mpr
          (equivalence.trans equivalent (equivalence.symm same))
        exact absurd fit (unfit made makes isMaker)
    · exact ⟨_, (.head _), rfl, rfl, equivalence.refl _⟩
  | unique before fresh ih =>
    exact (ih agree.2).cons_unique rfl fresh

end Equivalent

end FindOrMake
