import Gruel.PatternCore
import Gruel.RirCore

/-!
Match arms of the typed intermediate representation in its extra array: the body of an
arm, then its pattern as a tree that says its own extent.  A read past the end of the
array, an unknown tag and an invalid symbol panic in the source and are `none` here.
-/

namespace Gruel

open WordStream

namespace AirCodec

abbrev AirRef := Word

abbrev MatchArm := AirPattern × AirRef

inductive PatternTag
  | wildcard | int | bool | enumVariant | bind | tuple | struct | enumData | enumStruct | enumUnit
  deriving DecidableEq, Repr

def PatternTag.code : PatternTag → Word
  | wildcard => 0
  | int => 1
  | bool => 2
  | enumVariant => 3
  | bind => 4
  | tuple => 5
  | struct => 6
  | enumData => 7
  | enumStruct => 8
  | enumUnit => 9

def PatternTag.ofCode (word : Word) : Option PatternTag := match word.toNat with
  | 0 => some wildcard
  | 1 => some int
  | 2 => some bool
  | 3 => some enumVariant
  | 4 => some bind
  | 5 => some tuple
  | 6 => some struct
  | 7 => some enumData
  | 8 => some enumStruct
  | 9 => some enumUnit
  | _ => none

def idWord (id : Nat) : Word := BitVec.ofNat 32 id

def bindFlags (isMut hasInner : Bool) : Word :=
  (if isMut then 1 else 0) ||| (if hasInner then 2 else 0)

mutual

def encodePatternTree : AirPattern → List Word
  | .wildcard => [PatternTag.wildcard.code]
  | .int n => [PatternTag.int.code, lowWord (BitVec.ofInt 64 n), highWord (BitVec.ofInt 64 n)]
  | .bool b => [PatternTag.bool.code, boolWord b]
  | .enumVariant id index => [PatternTag.enumVariant.code, idWord id, idWord index]
  | .bind name isMut inner =>
    [PatternTag.bind.code, idWord name, bindFlags isMut inner.isSome] ++ encodeInner inner
  | .tuple elems => [PatternTag.tuple.code, lengthWord elems.length] ++ encodeElems elems
  | .struct id fields =>
    [PatternTag.struct.code, idWord id, lengthWord fields.length] ++ encodeFields fields
  | .enumDataVariant id index fields =>
    [PatternTag.enumData.code, idWord id, idWord index, lengthWord fields.length] ++ encodeElems fields
  | .enumStructVariant id index fields =>
    [PatternTag.enumStruct.code, idWord id, idWord index, lengthWord fields.length] ++ encodeFields fields
  | .enumUnitVariant id index => [PatternTag.enumUnit.code, idWord id, idWord index]

def encodeInner : Option AirPattern → List Word
  | none => []
  | some inner => encodePatternTree inner

def encodeElems : List AirPattern → List Word
  | [] => []
  | elem :: elems => encodePatternTree elem ++ encodeElems elems

def encodeFields : List (Nat × AirPattern) → List Word
  | [] => []
  | (index, pattern) :: fields => (idWord index :: encodePatternTree pattern) ++ encodeFields fields

end

def encode (arm : MatchArm) : List Word := arm.2 :: encodePatternTree arm.1

def encodeField (field : Nat × AirPattern) : List Word :=
  idWord field.1 :: encodePatternTree field.2

def decodeField (decodeTree : Decoder Word AirPattern) : Decoder Word (Nat × AirPattern) :=
  fun data => do
    let index ← data[0]?
    let (pattern, consumed) ← decodeTree (data.drop 1)
    some ((index.toNat, pattern), 1 + consumed)

def decodeTagged (decodeTree : Decoder Word AirPattern) : PatternTag → Decoder Word AirPattern
  | .wildcard, _ => some (.wildcard, 1)
  | .int, data => do
      let low ← data[1]?
      let high ← data[2]?
      some (.int (intOfWords low high).toInt, 3)
  | .bool, data => do some (.bool (boolOfWord (← data[1]?)), 2)
  | .enumVariant, data => do some (.enumVariant (← data[1]?).toNat (← data[2]?).toNat, 3)
  | .bind, data => do
      let name ← spurOfWord (← data[1]?)
      let flags ← data[2]?
      if flags &&& 2 ≠ 0 then
        let (inner, consumed) ← decodeTree (data.drop 3)
        some (.bind name.val (flags &&& 1 ≠ 0) (some inner), 3 + consumed)
      else some (.bind name.val (flags &&& 1 ≠ 0) none, 3)
  | .tuple, data => do
      let (elems, stop) ← decodeMany decodeTree data (← data[1]?).toNat 2
      some (.tuple elems, stop)
  | .struct, data => do
      let id ← data[1]?
      let (fields, stop) ← decodeMany (decodeField decodeTree) data (← data[2]?).toNat 3
      some (.struct id.toNat fields, stop)
  | .enumData, data => do
      let id ← data[1]?
      let index ← data[2]?
      let (fields, stop) ← decodeMany decodeTree data (← data[3]?).toNat 4
      some (.enumDataVariant id.toNat index.toNat fields, stop)
  | .enumStruct, data => do
      let id ← data[1]?
      let index ← data[2]?
      let (fields, stop) ← decodeMany (decodeField decodeTree) data (← data[3]?).toNat 4
      some (.enumStructVariant id.toNat index.toNat fields, stop)
  | .enumUnit, data => do some (.enumUnitVariant (← data[1]?).toNat (← data[2]?).toNat, 3)

-- Every level of nesting takes words of its own, so the length of the slice bounds
-- the depth of the recursion.
def decodePatternTree : Nat → Decoder Word AirPattern
  | 0, _ => none
  | depth + 1, data => do
      let tag ← PatternTag.ofCode (← data[0]?)
      decodeTagged (decodePatternTree depth) tag data

structure MatchArmIterator where
  data : List Word
  remaining : Nat

/-- `some none` is the end of the arms. -/
def MatchArmIterator.next (arms : MatchArmIterator) : Option (Option (MatchArm × MatchArmIterator)) :=
  match arms.remaining with
  | 0 => some none
  | remaining + 1 => do
      let body ← arms.data[0]?
      let (pattern, consumed) ← decodePatternTree arms.data.length (arms.data.drop 1)
      some (some ((pattern, body), { data := arms.data.drop (1 + consumed), remaining }))

def MatchArmIterator.take : Nat → MatchArmIterator → Option (List MatchArm × MatchArmIterator)
  | 0, arms => some ([], arms)
  | calls + 1, arms => do
      match ← arms.next with
      | none => some ([], arms)
      | some (arm, rest) => do
          let (others, last) ← take calls rest
          some (arm :: others, last)

/-- `none` where the assertions on the index space fail. -/
def addExtra (extra data : List Word) : Option (Word × List Word) :=
  if extra.length + data.length ≤ 2 ^ 32 - 1 then
    some (BitVec.ofNat 32 extra.length, extra ++ data)
  else none

def getMatchArms (extra : List Word) (start len : Word) : Option MatchArmIterator :=
  if start.toNat ≤ extra.length then
    some { data := extra.drop start.toNat, remaining := len.toNat }
  else none

end AirCodec

end Gruel
