import Mathlib.Data.List.Basic

/-!
Byte strings written one after the other, each behind its length.
-/

namespace Framing

variable {Byte : Type}

def frame (lengthPrefix : Nat → List Byte) (item : List Byte) : List Byte :=
  lengthPrefix item.length ++ item

def frames (lengthPrefix : Nat → List Byte) (items : List (List Byte)) : List Byte :=
  items.flatMap (frame lengthPrefix)

structure Prefixes (lengthPrefix : Nat → List Byte) (bound : Nat) : Prop where
  width : ∃ width, 0 < width ∧ ∀ length, (lengthPrefix length).length = width
  injective : ∀ {first second}, first < bound → second < bound →
    lengthPrefix first = lengthPrefix second → first = second

variable {lengthPrefix : Nat → List Byte} {bound : Nat}

theorem frame_append_inj (prefixes : Prefixes lengthPrefix bound)
    {first second firstRest secondRest : List Byte} (firstFits : first.length < bound)
    (secondFits : second.length < bound)
    (same : frame lengthPrefix first ++ firstRest = frame lengthPrefix second ++ secondRest) :
    first = second ∧ firstRest = secondRest := by
  obtain ⟨width, _, fixed⟩ := prefixes.width
  simp only [frame, List.append_assoc] at same
  obtain ⟨samePrefix, sameRest⟩ := List.append_inj same (by rw [fixed, fixed])
  have sameLength := prefixes.injective firstFits secondFits samePrefix
  exact List.append_inj sameRest sameLength

theorem frames_inj (prefixes : Prefixes lengthPrefix bound) {first second : List (List Byte)}
    (firstFits : ∀ item ∈ first, item.length < bound)
    (secondFits : ∀ item ∈ second, item.length < bound)
    (same : frames lengthPrefix first = frames lengthPrefix second) : first = second := by
  have notNil : ∀ item rest, frame lengthPrefix item ++ rest ≠ [] := by
    intro item rest empty
    obtain ⟨width, _, fixed⟩ := prefixes.width
    have noPrefix : lengthPrefix item.length = [] := by
      simp only [frame, List.append_eq_nil_iff] at empty
      exact empty.1.1
    have noWidth := fixed item.length
    rw [noPrefix] at noWidth
    simp only [List.length_nil] at noWidth
    omega
  induction first generalizing second with
  | nil =>
    cases second with
    | nil => rfl
    | cons item items => exact absurd same.symm (notNil item _)
  | cons item items ih =>
    cases second with
    | nil => exact absurd same (notNil item _)
    | cons other others =>
      obtain ⟨sameItem, sameRest⟩ := frame_append_inj prefixes
        (firstFits item (.head _)) (secondFits other (.head _)) same
      have sameItems := ih (fun each member => firstFits each (.tail _ member))
        (fun each member => secondFits each (.tail _ member)) sameRest
      rw [sameItem, sameItems]

end Framing
