import Mathlib.Data.List.Basic

/-!
Lists spelled out as text.  Every item starts with a doubled mark, and no item holds
a doubled mark anywhere else; so the spelling of a list can be cut only between two
items, and a list is known from its spelling.  And decimal numbers, which end where
the digits end.
-/

namespace Spelling

variable {Symbol Item : Type} {mark : Symbol}
variable {rest text : List Symbol} {first : Symbol}

def Quiet (mark : Symbol) : List Symbol → Prop
  | [] => True
  | [last] => last ≠ mark
  | first :: second :: rest => (first = mark → second ≠ mark) ∧ Quiet mark (second :: rest)

@[simp] theorem quiet_nil : Quiet mark [] := trivial

@[simp] theorem quiet_singleton {last : Symbol} : Quiet mark [last] ↔ last ≠ mark := Iff.rfl

@[simp] theorem quiet_cons_cons {second : Symbol} : Quiet mark (first :: second :: rest) ↔
      (first = mark → second ≠ mark) ∧ Quiet mark (second :: rest) := Iff.rfl

theorem quiet_cons_of_ne (other : first ≠ mark) : Quiet mark (first :: rest) ↔ Quiet mark rest := by
  cases rest with
  | nil => simp [other]
  | cons second rest => simp [other]

theorem quiet_append_of_notMem (absent : mark ∉ text) : Quiet mark (text ++ rest) ↔ Quiet mark rest := by
  induction text with
  | nil => rfl
  | cons first text ih =>
    simp only [List.mem_cons, not_or] at absent
    rw [List.cons_append, quiet_cons_of_ne (Ne.symm absent.1), ih absent.2]

theorem Quiet.length_le {before after : List Symbol} (quiet : Quiet mark text)
    (same : text ++ rest = before ++ mark :: mark :: after) : text.length ≤ before.length := by
  induction text generalizing before with
  | nil => exact Nat.zero_le _
  | cons first text ih =>
    cases before with
    | cons head before =>
      have tails := (List.cons.inj same).2
      have tailQuiet : Quiet mark text := by
        cases text with
        | nil => trivial
        | cons second text => exact quiet.2
      exact Nat.succ_le_succ (ih tailQuiet tails)
    | nil =>
      obtain ⟨rfl, tails⟩ := List.cons.inj same
      cases text with
      | nil => exact absurd rfl quiet
      | cons second text => exact absurd (List.cons.inj tails).1 (quiet.1 rfl)

def spell (mark : Symbol) (tail : Item → List Symbol) (items : List Item) : List Symbol :=
  items.flatMap fun item => mark :: mark :: tail item

@[simp] theorem spell_nil (tail : Item → List Symbol) : spell mark tail [] = [] := rfl

@[simp] theorem spell_cons (tail : Item → List Symbol) (item : Item) (items : List Item) :
    spell mark tail (item :: items) = mark :: mark :: (tail item ++ spell mark tail items) := rfl

section Spell

variable {tail : Item → List Symbol} (quiet : ∀ item, Quiet mark (mark :: tail item))
include quiet

theorem tail_quiet (item : Item) : Quiet mark (tail item) := by
  have marked := quiet item
  cases shape : tail item with
  | nil => trivial
  | cons first rest =>
    rw [shape] at marked
    exact marked.2

theorem tail_length_le {item other : Item} {items others : List Item}
    (same : tail item ++ spell mark tail items = tail other ++ spell mark tail others) :
    (tail item).length ≤ (tail other).length := by
  cases others with
  | nil =>
    have lengths := congrArg List.length same
    simp only [spell_nil, List.append_nil, List.length_append] at lengths
    omega
  | cons next others => exact (tail_quiet quiet item).length_le same

theorem spell_injective (injective : Function.Injective tail) : Function.Injective (spell mark tail) := by
  intro items others same
  induction items generalizing others with
  | nil =>
    cases others with
    | nil => rfl
    | cons other others => cases same
  | cons item items ih =>
    cases others with
    | nil => cases same
    | cons other others =>
      simp only [spell_cons, List.cons.injEq, true_and] at same
      have lengths : (tail item).length = (tail other).length :=
        Nat.le_antisymm (tail_length_le quiet same) (tail_length_le quiet same.symm)
      obtain ⟨tails, rests⟩ := List.append_inj same lengths
      rw [injective tails, ih rests]

theorem exists_of_append_spell (injective : Function.Injective tail) {text : List Symbol}
    {items others : List Item} (same : spell mark tail items = text ++ spell mark tail others) :
    ∃ taken, text = spell mark tail taken ∧ items = taken ++ others := by
  cases others with
  | nil => exact ⟨items, by simpa using same.symm, (List.append_nil items).symm⟩
  | cons other others =>
    induction items generalizing text with
    | nil => simp at same
    | cons item items ih =>
      cases text with
      | nil => exact ⟨[], rfl, spell_injective quiet injective same⟩
      | cons first text =>
        -- The other spelling starts inside or after the first item's tail.
        simp only [spell_cons, List.cons_append, List.cons.injEq] at same
        obtain ⟨rfl, same⟩ := same
        have outside : (tail item).length + 1 ≤ text.length := (quiet item).length_le same
        obtain ⟨text, rfl⟩ : ∃ rest, text = mark :: tail item ++ rest := by
          refine ⟨text.drop ((tail item).length + 1), ?_⟩
          have cut := congrArg (List.take ((tail item).length + 1)) same
          rw [List.take_append_of_le_length outside] at cut
          have taken : List.take ((tail item).length + 1)
              (mark :: (tail item ++ spell mark tail items)) = mark :: tail item := by
            simp
          rw [taken] at cut
          rw [cut, List.take_append_drop]
        obtain ⟨taken, rfl, rfl⟩ := ih (by simpa using same)
        exact ⟨item :: taken, rfl, rfl⟩

end Spell

theorem append_mark_inj {before otherBefore rest otherRest : List Symbol}
    (absent : mark ∉ before) (otherAbsent : mark ∉ otherBefore)
    (same : before ++ mark :: rest = otherBefore ++ mark :: otherRest) :
    before = otherBefore ∧ rest = otherRest := by
  induction before generalizing otherBefore with
  | nil =>
    cases otherBefore with
    | nil => exact ⟨rfl, (List.cons.inj same).2⟩
    | cons first otherBefore =>
      obtain ⟨rfl, -⟩ := List.cons.inj same
      exact absurd (.head _) otherAbsent
  | cons first before ih =>
    cases otherBefore with
    | nil =>
      obtain ⟨rfl, -⟩ := List.cons.inj same
      exact absurd (.head _) absent
    | cons second otherBefore =>
      simp only [List.mem_cons, not_or] at absent otherAbsent
      obtain ⟨rfl, tails⟩ := List.cons.inj same
      obtain ⟨rfl, rests⟩ := ih absent.2 otherAbsent.2 tails
      exact ⟨rfl, rests⟩

@[irreducible] def decimal (number : Nat) : List Char := Nat.toDigits 10 number

theorem isDigit_of_mem_decimal {number : Nat} {char : Char} (member : char ∈ decimal number) : char.isDigit := by
  unfold decimal at member
  exact Nat.isDigit_of_mem_toDigits (by decide) (by decide) member

theorem decimal_injective : Function.Injective decimal := by
  intro _ _ same
  have values := congrArg (fun digits => Nat.ofDigitChars 10 digits 0) same
  unfold decimal at values
  simpa using values

theorem decimal_append_inj {number other : Nat} {rest otherRest : List Char}
    (ends : ∀ char ∈ rest.head?, char.isDigit = false)
    (otherEnds : ∀ char ∈ otherRest.head?, char.isDigit = false)
    (same : decimal number ++ rest = decimal other ++ otherRest) :
    number = other ∧ rest = otherRest := by
  have digits : ∀ (value : Nat) (tail : List Char), (∀ char ∈ tail.head?, char.isDigit = false) →
      (decimal value ++ tail).takeWhile Char.isDigit = decimal value := by
    intro value tail stops
    rw [List.takeWhile_append_of_pos fun char member => isDigit_of_mem_decimal member]
    cases tail with
    | nil => simp
    | cons first tail => simp [stops first rfl]
  have numbers := congrArg (List.takeWhile Char.isDigit) same
  rw [digits number rest ends, digits other otherRest otherEnds] at numbers
  rw [numbers] at same
  exact ⟨decimal_injective numbers, List.append_cancel_left same⟩

end Spelling
