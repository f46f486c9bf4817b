import Gruel.Types
import Mathlib.Algebra.Group.Nat.Defs

/-!
Type handles as 32-bit words: a tag in the low byte, and above it the id of what a composite type
names.
-/

namespace Gruel

namespace TypeEncoding

variable {tag : TypeWord} {id : Nat}

abbrev TypeWord := BitVec 32

def tagStruct : TypeWord := 100
def tagEnum : TypeWord := 101
def tagArray : TypeWord := 102
def tagModule : TypeWord := 103
def tagPtrConst : TypeWord := 104
def tagPtrMut : TypeWord := 105
def tagInterface : TypeWord := 106
def tagRef : TypeWord := 107
def tagMutRef : TypeWord := 108
def tagSlice : TypeWord := 109
def tagMutSlice : TypeWord := 110
def tagVec : TypeWord := 111

def composite (tag : TypeWord) (id : Nat) : TypeWord := tag ||| (BitVec.ofNat 32 id <<< 8)

def newStruct : StructId → TypeWord := composite tagStruct
def newEnum : EnumId → TypeWord := composite tagEnum
def newArray : ArrayTypeId → TypeWord := composite tagArray
def newPtrConst : PointeeId → TypeWord := composite tagPtrConst
def newPtrMut : PointeeId → TypeWord := composite tagPtrMut
def newRef : PointeeId → TypeWord := composite tagRef
def newMutRef : PointeeId → TypeWord := composite tagMutRef
def newSlice : PointeeId → TypeWord := composite tagSlice
def newMutSlice : PointeeId → TypeWord := composite tagMutSlice
def newVec : PointeeId → TypeWord := composite tagVec
def newModule : ModuleId → TypeWord := composite tagModule
def newInterface : InterfaceId → TypeWord := composite tagInterface

def typeWord : Ty → TypeWord
  | .i8 => 0
  | .i16 => 1
  | .i32 => 2
  | .i64 => 3
  | .u8 => 4
  | .u16 => 5
  | .u32 => 6
  | .u64 => 7
  | .isize => 8
  | .usize => 9
  | .f16 => 10
  | .f32 => 11
  | .f64 => 12
  | .bool => 13
  | .unit => 14
  | .error => 15
  | .never => 16
  | .comptimeType => 17
  | .comptimeStr => 18
  | .comptimeInt => 19
  | .char => 20
  | .cSchar => 21
  | .cShort => 22
  | .cInt => 23
  | .cLong => 24
  | .cLonglong => 25
  | .cUchar => 26
  | .cUshort => 27
  | .cUint => 28
  | .cUlong => 29
  | .cUlonglong => 30
  | .cFloat => 31
  | .cDouble => 32
  | .cVoid => 33
  | .struct id => newStruct id
  | .enum id => newEnum id
  | .array id => newArray id
  | .ptrConst id => newPtrConst id
  | .ptrMut id => newPtrMut id
  | .ref id => newRef id
  | .mutRef id => newMutRef id
  | .slice id => newSlice id
  | .mutSlice id => newMutSlice id
  | .vec id => newVec id
  | .module id => newModule id
  | .interface id => newInterface id

def payloadId : Ty → Option Nat
  | .struct id | .enum id | .array id | .ptrConst id | .ptrMut id | .ref id | .mutRef id
  | .slice id | .mutSlice id | .vec id | .module id | .interface id => some id
  | _ => none

def tagOf (word : TypeWord) : TypeWord := word &&& 0xFF

def primitiveKinds : List (TypeWord × Ty) :=
  [(0, .i8), (1, .i16), (2, .i32), (3, .i64), (4, .u8), (5, .u16), (6, .u32), (7, .u64),
    (8, .isize), (9, .usize), (10, .f16), (11, .f32), (12, .f64), (13, .bool), (14, .unit),
    (15, .error), (16, .never), (17, .comptimeType), (18, .comptimeStr), (19, .comptimeInt),
    (20, .char), (21, .cSchar), (22, .cShort), (23, .cInt), (24, .cLong), (25, .cLonglong),
    (26, .cUchar), (27, .cUshort), (28, .cUint), (29, .cUlong), (30, .cUlonglong),
    (31, .cFloat), (32, .cDouble), (33, .cVoid)]

def compositeKinds : List (TypeWord × (Nat → Ty)) :=
  [(tagStruct, .struct), (tagEnum, .enum), (tagArray, .array), (tagPtrConst, .ptrConst),
    (tagPtrMut, .ptrMut), (tagRef, .ref), (tagMutRef, .mutRef), (tagSlice, .slice),
    (tagMutSlice, .mutSlice), (tagVec, .vec), (tagModule, .module), (tagInterface, .interface)]

def tryKind (word : TypeWord) : Option Ty := match primitiveKinds.lookup (tagOf word) with
  | some kind => some kind
  | none => (compositeKinds.lookup (tagOf word)).map fun kind => kind (word >>> 8).toNat

def validComposites : List TypeWord :=
  [tagStruct, tagEnum, tagArray, tagPtrConst, tagPtrMut, tagModule, tagInterface, tagRef, tagMutRef]

def isValidEncoding (word : TypeWord) : Bool :=
  decide (tagOf word ≤ 19) || validComposites.contains (tagOf word)

theorem toNat_tagOf (word : TypeWord) : (tagOf word).toNat = word.toNat % 256 := by
  exact Nat.and_two_pow_sub_one_eq_mod word.toNat 8

theorem tagOf_lt (word : TypeWord) : (tagOf word).toNat < 256 := by
  rw [toNat_tagOf]
  omega

theorem toNat_composite (small : tag.toNat < 256) (fits : id < 2 ^ 24) :
    (composite tag id).toNat = id * 256 + tag.toNat := by
  have shifted : (BitVec.ofNat 32 id <<< 8).toNat = 2 ^ 8 * id := by
    rw [BitVec.toNat_shiftLeft, BitVec.toNat_ofNat, Nat.shiftLeft_eq]
    omega
  rw [composite, BitVec.toNat_or, shifted, Nat.or_comm, ← Nat.two_pow_add_eq_or_of_lt small]
  omega

theorem tagOf_composite (small : tag.toNat < 256) (fits : id < 2 ^ 24) : tagOf (composite tag id) = tag := by
  apply BitVec.eq_of_toNat_eq
  rw [toNat_tagOf, toNat_composite small fits]
  omega

theorem toNat_composite_shift (small : tag.toNat < 256) (fits : id < 2 ^ 24) :
    (composite tag id >>> 8).toNat = id := by
  rw [BitVec.toNat_ushiftRight, toNat_composite small fits, Nat.shiftRight_eq_div_pow]
  omega

theorem tryKind_composite {kind : Nat → Ty} (small : tag.toNat < 256)
    (unlisted : primitiveKinds.lookup tag = none) (listed : compositeKinds.lookup tag = some kind)
    (fits : id < 2 ^ 24) : tryKind (composite tag id) = some (kind id) := by
  simp [tryKind, tagOf_composite small fits, unlisted, listed, toNat_composite_shift small fits]

theorem tryKind_typeWord {kind : Ty} (fits : ∀ id ∈ payloadId kind, id < 2 ^ 24) :
    tryKind (typeWord kind) = some kind := by
  cases kind with
  | struct id | enum id | array id | ptrConst id | ptrMut id | ref id | mutRef id | slice id
  | mutSlice id | vec id | module id | interface id =>
    exact tryKind_composite (by decide) rfl rfl (fits id rfl)
  | _ => rfl

/-- Tags that `tryKind` decodes and `isValidEncoding` leaves out: `char` and the C types, slices
and vectors. -/
def Overlooked (tag : TypeWord) : Prop :=
  20 ≤ tag.toNat ∧ tag.toNat ≤ 33 ∨ tag = tagSlice ∨ tag = tagMutSlice ∨ tag = tagVec

instance (tag : TypeWord) : Decidable (Overlooked tag) :=
  inferInstanceAs (Decidable (_ ∨ _))

theorem isSome_tryKind (word : TypeWord) : (tryKind word).isSome =
    ((primitiveKinds.lookup (tagOf word)).isSome || (compositeKinds.lookup (tagOf word)).isSome) := by
  unfold tryKind
  cases primitiveKinds.lookup (tagOf word) with
  | none => simp
  | some kind => rfl

theorem valid_tags : ∀ tag < 256,
    ((decide (BitVec.ofNat 32 tag ≤ 19) || validComposites.contains (BitVec.ofNat 32 tag)) =
        ((primitiveKinds.lookup (BitVec.ofNat 32 tag)).isSome ||
          (compositeKinds.lookup (BitVec.ofNat 32 tag)).isSome) ↔
      ¬ Overlooked (BitVec.ofNat 32 tag)) := by
  decide +kernel

/-- Every kind comes back from its word and no two kinds share one, but the guard agrees with
the decoder only on words whose tag it does not overlook. -/
theorem typeEncoding_valid_iff (kind other : Ty) (word : TypeWord) :
    ((∀ id ∈ payloadId kind, id < 2 ^ 24) → tryKind (typeWord kind) = some kind) ∧
    ((∀ id ∈ payloadId kind, id < 2 ^ 24) → (∀ id ∈ payloadId other, id < 2 ^ 24) →
      kind ≠ other → typeWord kind ≠ typeWord other) ∧
    ((isValidEncoding word = true ↔ (tryKind word).isSome = true) ↔ ¬ Overlooked (tagOf word)) := by
  refine ⟨tryKind_typeWord, ?_, ?_⟩
  · intro fits otherFits differ same
    have decoded := tryKind_typeWord fits
    rw [same, tryKind_typeWord otherFits, Option.some.injEq] at decoded
    exact differ decoded.symm
  · have tags := valid_tags (tagOf word).toNat (tagOf_lt word)
    rw [BitVec.ofNat_toNat, BitVec.setWidth_eq] at tags
    rw [← Bool.eq_iff_iff, isSome_tryKind, isValidEncoding]
    exact tags

/-- The word of `char` decodes, and the guard refuses it. -/
theorem char_word_refused : tryKind (typeWord .char) = some .char ∧
      ¬ ∀ word, isValidEncoding word = true ↔ (tryKind word).isSome = true := by
  refine ⟨by decide, ?_⟩
  intro agree
  have accepted := (agree (typeWord .char)).mpr (by decide)
  exact absurd accepted (by decide)

end TypeEncoding

end Gruel
