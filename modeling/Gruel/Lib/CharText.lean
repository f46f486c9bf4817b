import Mathlib.Algebra.GroupWithZero.Nat
import Mathlib.Data.List.Basic

/-!
Texts as lists of characters, addressed by the byte offsets of their UTF-8
encoding: lengths, cuts at a byte, and the cuts that fall inside a character.
-/

namespace CharText

variable {text : List Char} {offset : Nat}

def bytes (text : List Char) : List UInt8 := text.flatMap String.utf8EncodeChar

def byteLength (text : List Char) : Nat := (bytes text).length

def splitAtByte : List Char → Nat → Option (List Char × List Char)
  | text, 0 => some ([], text)
  | [], _ + 1 => none
  | char :: text, offset + 1 =>
    if char.utf8Size ≤ offset + 1 then
      (splitAtByte text (offset + 1 - char.utf8Size)).map fun parts => (char :: parts.1, parts.2)
    else none

attribute [grind =] splitAtByte

def slice (text : List Char) (start stop : Nat) : Option (List Char) := do
  let (before, _) ← splitAtByte text stop
  let (_, middle) ← splitAtByte before start
  pure middle

def replaceRange (text : List Char) (start stop : Nat) (replacement : List Char) : Option (List Char) := do
  let (before, _) ← splitAtByte text start
  let (_, after) ← splitAtByte text stop
  if start ≤ stop then pure (before ++ replacement ++ after) else none

@[simp] theorem bytes_nil : bytes [] = [] := rfl

@[simp] theorem bytes_cons (char : Char) (text : List Char) :
    bytes (char :: text) = String.utf8EncodeChar char ++ bytes text := rfl

@[simp] theorem bytes_append (left right : List Char) : bytes (left ++ right) = bytes left ++ bytes right := by
  simp [bytes]

@[simp] theorem byteLength_nil : byteLength [] = 0 := rfl

@[simp] theorem byteLength_cons (char : Char) (text : List Char) :
    byteLength (char :: text) = char.utf8Size + byteLength text := by
  simp [byteLength]

@[simp] theorem byteLength_append (left right : List Char) :
    byteLength (left ++ right) = byteLength left + byteLength right := by
  simp [byteLength]

theorem toNat_ofNat_ge {value : Nat} (lower : 128 ≤ value) (upper : value < 256) :
    128 ≤ (UInt8.ofNat value).toNat := by
  rw [UInt8.toNat_ofNat']
  omega

theorem toNat_of_mem_utf8EncodeChar {char : Char} {byte : UInt8} (ascii : byte.toNat < 128)
    (member : byte ∈ String.utf8EncodeChar char) : char.toNat = byte.toNat := by
  simp only [String.utf8EncodeChar] at member
  by_cases single : char.val.toNat ≤ 0x7f
  · simp only [if_pos single, List.mem_singleton] at member
    rw [member, UInt8.toNat_ofNat', Nat.mod_eq_of_lt (by omega)]
    rfl
  -- The bytes of a longer encoding all have their highest bit set.
  rw [if_neg single] at member
  split at member <;> try split at member
  all_goals
    simp only [List.mem_cons, List.not_mem_nil, or_false] at member
  · rcases member with rfl | rfl
    all_goals exact absurd (toNat_ofNat_ge (by omega) (by omega)) (Nat.not_le.mpr ascii)
  · rcases member with rfl | rfl | rfl
    all_goals exact absurd (toNat_ofNat_ge (by omega) (by omega)) (Nat.not_le.mpr ascii)
  · rcases member with rfl | rfl | rfl | rfl
    all_goals exact absurd (toNat_ofNat_ge (by omega) (by omega)) (Nat.not_le.mpr ascii)

theorem length_bytes (text : List Char) : (bytes text).length = byteLength text := rfl

theorem byteLength_eq_zero (empty : byteLength text = 0) : text = [] := by
  cases text with
  | nil => rfl
  | cons char text =>
    have positive := char.utf8Size_pos
    simp only [byteLength_cons] at empty
    omega

theorem length_le_byteLength (text : List Char) : text.length ≤ byteLength text := by
  induction text with
  | nil => exact Nat.le_refl _
  | cons char text ih =>
    have positive := char.utf8Size_pos
    simp only [List.length_cons, byteLength_cons]
    omega

theorem splitAtByte_append (left right : List Char) :
    splitAtByte (left ++ right) (byteLength left) = some (left, right) := by
  induction left with
  | nil => simp [splitAtByte]
  | cons char left ih =>
    have positive := char.utf8Size_pos
    obtain ⟨offset, here⟩ : ∃ offset, char.utf8Size + byteLength left = offset + 1 :=
      ⟨char.utf8Size + byteLength left - 1, by omega⟩
    have inside : char.utf8Size ≤ offset + 1 := by omega
    have further : offset + 1 - char.utf8Size = byteLength left := by omega
    simp [List.cons_append, byteLength_cons, here, splitAtByte, if_pos inside, further, ih, Option.map_some]

theorem append_inj_of_byteLength {left right otherLeft otherRight : List Char}
    (same : left ++ right = otherLeft ++ otherRight)
    (lengths : byteLength left = byteLength otherLeft) : left = otherLeft ∧ right = otherRight := by
  have cut := splitAtByte_append left right
  rw [same, lengths, splitAtByte_append] at cut
  simp only [Option.some.injEq, Prod.mk.injEq] at cut
  exact ⟨cut.1.symm, cut.2.symm⟩

theorem splitAtByte_spec {left right : List Char} (cut : splitAtByte text offset = some (left, right)) :
    text = left ++ right ∧ byteLength left = offset := by
  induction text generalizing offset left with
  | nil =>
    cases offset with
    | zero =>
      simp only [splitAtByte, Option.some.injEq, Prod.mk.injEq] at cut
      simp [← cut.1, ← cut.2]
    | succ offset => simp [splitAtByte] at cut
  | cons char text ih =>
    cases offset with
    | zero =>
      simp only [splitAtByte, Option.some.injEq, Prod.mk.injEq] at cut
      simp [← cut.1, ← cut.2]
    | succ offset =>
      simp only [splitAtByte] at cut
      split at cut
      · simp only [Option.map_eq_some_iff, Prod.mk.injEq, Prod.exists] at cut
        obtain ⟨_, _, found, rfl, rfl⟩ := cut
        obtain ⟨joined, length⟩ := ih found
        refine ⟨by simp [joined], ?_⟩
        simp only [byteLength_cons, length]
        omega
      · simp at cut

theorem slice_reversed {start stop : Nat} (reversed : stop < start) : slice text start stop = none := by
  cases cut : splitAtByte text stop with
  | none => simp [slice, cut]
  | some parts =>
    cases again : splitAtByte parts.1 start with
    | none => simp [slice, cut, again]
    | some pieces =>
      have outer := (splitAtByte_spec cut).2
      obtain ⟨split, _⟩ := splitAtByte_spec again
      rw [split, byteLength_append] at outer
      omega

def InsideChar (text : List Char) (offset : Nat) : Prop :=
  ∃ left char right, text = left ++ char :: right ∧
    byteLength left < offset ∧ offset < byteLength left + char.utf8Size

theorem insideChar_or_boundary (within : offset ≤ byteLength text) :
    InsideChar text offset ∨ ∃ left right, text = left ++ right ∧ byteLength left = offset := by
  induction text generalizing offset with
  | nil =>
    refine .inr ⟨[], [], rfl, ?_⟩
    simp only [byteLength_nil] at within ⊢
    omega
  | cons char text ih =>
    simp only [byteLength_cons] at within
    by_cases start : offset = 0
    · exact .inr ⟨[], char :: text, rfl, by simp [start]⟩
    by_cases past : char.utf8Size ≤ offset
    · have remains : offset - char.utf8Size ≤ byteLength text := by omega
      rcases ih remains with inside | boundary
      · obtain ⟨left, other, right, rfl, _⟩ := inside
        refine .inl ⟨char :: left, other, right, rfl, ?_, ?_⟩ <;> simp <;> omega
      · obtain ⟨left, right, rfl, _⟩ := boundary
        refine .inr ⟨char :: left, right, rfl, ?_⟩
        simp only [byteLength_cons]
        omega
    · refine .inl ⟨[], char, text, rfl, ?_, ?_⟩ <;> simp <;> omega

theorem splitAtByte_insideChar (inside : InsideChar text offset) : splitAtByte text offset = none := by
  obtain ⟨left, _, _, rfl, lower, upper⟩ := inside
  induction left generalizing offset with
  | nil =>
    simp only [byteLength_nil, Nat.zero_add] at lower upper
    obtain ⟨offset, rfl⟩ : ∃ before, offset = before + 1 := ⟨offset - 1, by omega⟩
    simp only [List.nil_append, splitAtByte]
    rw [if_neg (by omega)]
  | cons first left ih =>
    simp only [byteLength_cons] at lower upper
    obtain ⟨offset, rfl⟩ : ∃ before, offset = before + 1 := ⟨offset - 1, by omega⟩
    simp only [List.cons_append, splitAtByte]
    rw [if_pos (by omega), ih (by omega) (by omega), Option.map_none]

theorem InsideChar.lt_byteLength (inside : InsideChar text offset) : offset < byteLength text := by
  obtain ⟨_, _, _, rfl, _⟩ := inside
  simp only [byteLength_append, byteLength_cons]
  omega

theorem InsideChar.append {middle : List Char} (inside : InsideChar middle offset)
    (left right : List Char) : InsideChar (left ++ middle ++ right) (byteLength left + offset) := by
  obtain ⟨before, char, after, rfl, _⟩ := inside
  refine ⟨left ++ before, char, after ++ right, by simp, ?_, ?_⟩ <;> simp <;> omega

theorem slice_middle (left middle right : List Char) :
    slice (left ++ middle ++ right) (byteLength left) (byteLength left + byteLength middle) = some middle := by
  have outer : splitAtByte (left ++ middle ++ right) (byteLength left + byteLength middle) =
      some (left ++ middle, right) := by
    have cut := splitAtByte_append (left ++ middle) right
    rwa [byteLength_append] at cut
  simp only [slice, outer, splitAtByte_append, Option.bind_eq_bind, Option.bind_some, Option.pure_def]

theorem replaceRange_middle (left middle right replacement : List Char) :
    replaceRange (left ++ middle ++ right) (byteLength left) (byteLength left + byteLength middle)
      replacement = some (left ++ replacement ++ right) := by
  have first : splitAtByte (left ++ middle ++ right) (byteLength left) = some (left, middle ++ right) := by
    rw [List.append_assoc]
    exact splitAtByte_append left (middle ++ right)
  have second : splitAtByte (left ++ middle ++ right) (byteLength left + byteLength middle) =
      some (left ++ middle, right) := by
    have cut := splitAtByte_append (left ++ middle) right
    rwa [byteLength_append] at cut
  simp only [replaceRange, first, second, Option.bind_eq_bind, Option.bind_some, Option.pure_def,
    if_pos (Nat.le_add_right _ _)]

end CharText
