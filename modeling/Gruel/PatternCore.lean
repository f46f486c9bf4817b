import Gruel.Types

/-!
Match-arm patterns after lowering, the run-time values they are tested against, and
the ordinary matching relation between the two.  Integer values are unbounded: a
finite list of literals never covers an integer type.
-/

namespace Gruel

inductive AirPattern
  | wildcard
  | int (value : Int)
  | bool (value : Bool)
  | enumVariant (enumId : EnumId) (variantIndex : Nat)
  | bind (name : Nat) (isMut : Bool) (inner : Option AirPattern)
  | tuple (elems : List AirPattern)
  | struct (structId : StructId) (fields : List (Nat × AirPattern))
  | enumDataVariant (enumId : EnumId) (variantIndex : Nat) (fields : List AirPattern)
  | enumStructVariant (enumId : EnumId) (variantIndex : Nat) (fields : List (Nat × AirPattern))
  | enumUnitVariant (enumId : EnumId) (variantIndex : Nat)

@[elab_as_elim]
theorem AirPattern.headInduction {motive : AirPattern → Prop} (wildcard : motive .wildcard)
    (bare : ∀ name isMut, motive (.bind name isMut none))
    (nested : ∀ name isMut pattern, motive pattern → motive (.bind name isMut (some pattern)))
    (int : ∀ n, motive (.int n)) (bool : ∀ b, motive (.bool b))
    (enumVariant : ∀ id index, motive (.enumVariant id index))
    (enumUnitVariant : ∀ id index, motive (.enumUnitVariant id index))
    (enumDataVariant : ∀ id index fields, motive (.enumDataVariant id index fields))
    (enumStructVariant : ∀ id index fields, motive (.enumStructVariant id index fields))
    (tuple : ∀ elems, motive (.tuple elems))
    (struct : ∀ id fields, motive (.struct id fields)) : ∀ pattern, motive pattern
  | .wildcard => wildcard
  | .bind name isMut none => bare name isMut
  | .bind name isMut (some pattern) => nested name isMut pattern
      (headInduction wildcard bare nested int bool enumVariant enumUnitVariant enumDataVariant
        enumStructVariant tuple struct pattern)
  | .int n => int n
  | .bool b => bool b
  | .enumVariant id index => enumVariant id index
  | .enumUnitVariant id index => enumUnitVariant id index
  | .enumDataVariant id index fields => enumDataVariant id index fields
  | .enumStructVariant id index fields => enumStructVariant id index fields
  | .tuple elems => tuple elems
  | .struct id fields => struct id fields

inductive Value
  | int (value : Int)
  | bool (value : Bool)
  | struct (structId : StructId) (fields : List Value)
  | enum (enumId : EnumId) (variantIndex : Nat) (fields : List Value)

mutual

def Value.HasType (pool : TypeInternPool) : Value → Ty → Prop
  | .int _, ty => ty.isInteger = true
  | .bool _, ty => ty = .bool
  | .struct id fields, ty => ty = .struct id ∧ Value.HaveTypes pool fields (pool.structDef id).fieldTypes
  | .enum id variantIndex fields, ty => ty = .enum id ∧
      ∃ variant, (pool.enumDef id).variants[variantIndex]? = some variant ∧ Value.HaveTypes pool fields variant.fields

def Value.HaveTypes (pool : TypeInternPool) : List Value → List Ty → Prop
  | [], [] => True
  | value :: values, ty :: tys => Value.HasType pool value ty ∧ Value.HaveTypes pool values tys
  | _, _ => False

end

mutual

def AirPattern.Matches : AirPattern → Value → Prop
  | .wildcard, _ => True
  | .int n, .int m => n = m
  | .bool b, .bool c => b = c
  | .enumVariant id index, .enum valueId valueIndex _ => id = valueId ∧ index = valueIndex
  | .enumUnitVariant id index, .enum valueId valueIndex _ => id = valueId ∧ index = valueIndex
  | .bind _ _ inner, value => AirPattern.MatchesInner inner value
  | .tuple elems, .struct _ values => AirPattern.MatchesAll elems values
  | .struct id fields, .struct valueId values =>
    id = valueId ∧ AirPattern.MatchesFields fields values
  | .enumDataVariant id index fields, .enum valueId valueIndex values =>
    id = valueId ∧ index = valueIndex ∧ AirPattern.MatchesAll fields values
  | .enumStructVariant id index fields, .enum valueId valueIndex values =>
    id = valueId ∧ index = valueIndex ∧ AirPattern.MatchesFields fields values
  | _, _ => False

def AirPattern.MatchesInner : Option AirPattern → Value → Prop
  | none, _ => True
  | some pattern, value => AirPattern.Matches pattern value

def AirPattern.MatchesAll : List AirPattern → List Value → Prop
  | [], [] => True
  | pattern :: patterns, value :: values =>
    AirPattern.Matches pattern value ∧ AirPattern.MatchesAll patterns values
  | _, _ => False

def AirPattern.MatchesFields : List (Nat × AirPattern) → List Value → Prop
  | [], _ => True
  | (index, pattern) :: fields, values =>
    (∃ value, values[index]? = some value ∧ AirPattern.Matches pattern value) ∧ AirPattern.MatchesFields fields values

end

mutual

def AirPattern.WellTyped (pool : TypeInternPool) : AirPattern → Ty → Prop
  | .wildcard, _ => True
  | .int _, ty => ty.isInteger = true
  | .bool _, ty => ty = .bool
  | .enumVariant id index, ty => ty = .enum id ∧ index < (pool.enumDef id).variants.length
  | .enumUnitVariant id index, ty => ty = .enum id ∧ index < (pool.enumDef id).variants.length
  | .bind _ _ inner, ty => AirPattern.WellTypedInner pool inner ty
  | .tuple elems, ty => ∃ id, ty = .struct id ∧ (pool.structDef id).isTupleShaped = true ∧
      AirPattern.WellTypedAll pool elems (pool.structDef id).fieldTypes
  | .struct id fields, ty => ty = .struct id ∧ (pool.structDef id).isTupleShaped = false ∧
      AirPattern.WellTypedFields pool 0 fields (pool.structDef id).fieldTypes
  | .enumDataVariant id index fields, ty => ty = .enum id ∧
      ∃ variant, (pool.enumDef id).variants[index]? = some variant ∧
        AirPattern.WellTypedAll pool fields variant.fields
  | .enumStructVariant id index fields, ty => ty = .enum id ∧
      ∃ variant, (pool.enumDef id).variants[index]? = some variant ∧
        AirPattern.WellTypedFields pool 0 fields variant.fields

def AirPattern.WellTypedInner (pool : TypeInternPool) : Option AirPattern → Ty → Prop
  | none, _ => True
  | some pattern, ty => AirPattern.WellTyped pool pattern ty

def AirPattern.WellTypedAll (pool : TypeInternPool) : List AirPattern → List Ty → Prop
  | [], [] => True
  | pattern :: patterns, ty :: tys =>
    AirPattern.WellTyped pool pattern ty ∧ AirPattern.WellTypedAll pool patterns tys
  | _, _ => False

def AirPattern.WellTypedFields (pool : TypeInternPool) : Nat → List (Nat × AirPattern) → List Ty → Prop
  | _, [], [] => True
  | position, (index, pattern) :: fields, ty :: tys => index = position ∧
      AirPattern.WellTyped pool pattern ty ∧ AirPattern.WellTypedFields pool (position + 1) fields tys
  | _, _, _ => False

end

end Gruel
