import Gruel.Source
import Gruel.Types

/-!
The mutable state behind the type pool: one vector of composite types, one
deduplication map for each structural constructor, and the two conversion tables
between type handles and pool indices.
-/

namespace Gruel

structure InternedType where
  index : Nat
  deriving DecidableEq, Repr

namespace InternedType

def primitiveCount : Nat := 34

def isPrimitive (ty : InternedType) : Bool := decide (ty.index < primitiveCount)

-- The index is a `u32`; an addition past its range panics.
def fromPoolIndex (poolIndex : Nat) : Option InternedType :=
  if poolIndex + primitiveCount < 2 ^ 32 then some ⟨poolIndex + primitiveCount⟩ else none

def poolIndex (ty : InternedType) : Option Nat :=
  if ty.isPrimitive then none else some (ty.index - primitiveCount)

end InternedType

inductive TypeData
  | struct (name : Spur) (definition : StructDef)
  | enum (name : Spur) (definition : EnumDef)
  | array (element : InternedType) (len : Nat)
  | ptrConst (pointee : InternedType)
  | ptrMut (pointee : InternedType)
  | ref (referent : InternedType)
  | mutRef (referent : InternedType)
  | slice (element : InternedType)
  | mutSlice (element : InternedType)
  | vec (element : InternedType)
  deriving DecidableEq

structure TypeInternPoolInner where
  types : List TypeData := []
  arrayMap : List ((InternedType × Nat) × InternedType) := []
  ptrConstMap : List (InternedType × InternedType) := []
  ptrMutMap : List (InternedType × InternedType) := []
  refMap : List (InternedType × InternedType) := []
  mutRefMap : List (InternedType × InternedType) := []
  sliceMap : List (InternedType × InternedType) := []
  mutSliceMap : List (InternedType × InternedType) := []
  vecMap : List (InternedType × InternedType) := []
  structByName : List (Spur × InternedType) := []
  enumByName : List (Spur × InternedType) := []
  deriving DecidableEq

namespace TypeInternPoolInner

def push (pool : TypeInternPoolInner) (data : TypeData) : TypeInternPoolInner :=
  { pool with types := pool.types ++ [data] }

def registerStruct (pool : TypeInternPoolInner) (name : Spur) (definition : StructDef) :
    Option (TypeInternPoolInner × StructId × Bool) :=
  match pool.structByName.lookup name with
  | some existing => existing.poolIndex.map fun index => (pool, index, false)
  | none => do
      let index := pool.types.length
      let interned ← InternedType.fromPoolIndex index
      let pushed := pool.push (.struct name definition)
      some ({ pushed with structByName := (name, interned) :: pool.structByName }, index, true)

def placeholder : TypeData := .struct 0 { name := "", fields := [] }

-- A slot past the last index an `InternedType` can name could be pushed, but its
-- registration could never be completed.
def reserveStructId (pool : TypeInternPoolInner) : Option (TypeInternPoolInner × StructId) :=
  if pool.types.length + InternedType.primitiveCount < 2 ^ 32 then
    some (pool.push placeholder, pool.types.length)
  else none

def completeStructRegistration (pool : TypeInternPoolInner) (id : StructId) (name : Spur)
    (definition : StructDef) : Option TypeInternPoolInner :=
  if pool.types.length ≤ id then none
  else if (pool.structByName.lookup name).isSome then none
  else do
    let interned ← InternedType.fromPoolIndex id
    some { pool with
      types := pool.types.set id (.struct name definition)
      structByName := (name, interned) :: pool.structByName }

def registerEnum (pool : TypeInternPoolInner) (name : Spur) (definition : EnumDef) :
    Option (TypeInternPoolInner × EnumId × Bool) :=
  match pool.enumByName.lookup name with
  | some existing => existing.poolIndex.map fun index => (pool, index, false)
  | none => do
      let index := pool.types.length
      let interned ← InternedType.fromPoolIndex index
      let pushed := pool.push (.enum name definition)
      some ({ pushed with enumByName := (name, interned) :: pool.enumByName }, index, true)

def updateStructDef (pool : TypeInternPoolInner) (id : StructId) (definition : StructDef) :
    Option TypeInternPoolInner :=
  match pool.types[id]? with
  | some (.struct name _) => some { pool with types := pool.types.set id (.struct name definition) }
  | _ => none

def updateEnumDef (pool : TypeInternPoolInner) (id : EnumId) (definition : EnumDef) : Option TypeInternPoolInner :=
  match pool.types[id]? with
  | some (.enum name _) => some { pool with types := pool.types.set id (.enum name definition) }
  | _ => none

/-- A hit in the constructor's map is returned as it is; only a miss appends an
entry and records it. -/
def internWith (pool : TypeInternPoolInner) (found : Option InternedType) (data : TypeData)
    (record : TypeInternPoolInner → InternedType → TypeInternPoolInner) :
    Option (TypeInternPoolInner × InternedType) :=
  match found with
  | some existing => some (pool, existing)
  | none => do
      let interned ← InternedType.fromPoolIndex pool.types.length
      some (record (pool.push data) interned, interned)

def internArray (pool : TypeInternPoolInner) (element : InternedType) (len : Nat) :=
  pool.internWith (pool.arrayMap.lookup (element, len)) (.array element len)
    fun pool interned => { pool with arrayMap := ((element, len), interned) :: pool.arrayMap }

def internPtrConst (pool : TypeInternPoolInner) (pointee : InternedType) :=
  pool.internWith (pool.ptrConstMap.lookup pointee) (.ptrConst pointee)
    fun pool interned => { pool with ptrConstMap := (pointee, interned) :: pool.ptrConstMap }

def internPtrMut (pool : TypeInternPoolInner) (pointee : InternedType) :=
  pool.internWith (pool.ptrMutMap.lookup pointee) (.ptrMut pointee)
    fun pool interned => { pool with ptrMutMap := (pointee, interned) :: pool.ptrMutMap }

def internRef (pool : TypeInternPoolInner) (referent : InternedType) :=
  pool.internWith (pool.refMap.lookup referent) (.ref referent)
    fun pool interned => { pool with refMap := (referent, interned) :: pool.refMap }

def internMutRef (pool : TypeInternPoolInner) (referent : InternedType) :=
  pool.internWith (pool.mutRefMap.lookup referent) (.mutRef referent)
    fun pool interned => { pool with mutRefMap := (referent, interned) :: pool.mutRefMap }

def internSlice (pool : TypeInternPoolInner) (element : InternedType) :=
  pool.internWith (pool.sliceMap.lookup element) (.slice element)
    fun pool interned => { pool with sliceMap := (element, interned) :: pool.sliceMap }

def internMutSlice (pool : TypeInternPoolInner) (element : InternedType) :=
  pool.internWith (pool.mutSliceMap.lookup element) (.mutSlice element)
    fun pool interned => { pool with mutSliceMap := (element, interned) :: pool.mutSliceMap }

def internVec (pool : TypeInternPoolInner) (element : InternedType) :=
  pool.internWith (pool.vecMap.lookup element) (.vec element)
    fun pool interned => { pool with vecMap := (element, interned) :: pool.vecMap }

-- A composite handle keeps its id in the upper 24 bits of a `u32`.
def packedId (id : Nat) : Nat := id % 2 ^ 24

def primitiveType : Nat → Option Ty
  | 0 => some .i8
  | 1 => some .i16
  | 2 => some .i32
  | 3 => some .i64
  | 4 => some .u8
  | 5 => some .u16
  | 6 => some .u32
  | 7 => some .u64
  | 8 => some .isize
  | 9 => some .usize
  | 10 => some .f16
  | 11 => some .f32
  | 12 => some .f64
  | 13 => some .bool
  | 14 => some .unit
  | 15 => some .never
  | 16 => some .error
  | _ => none

def compositeType (id : Nat) : TypeData → Ty
  | .struct _ _ => .struct (packedId id)
  | .enum _ _ => .enum (packedId id)
  | .array _ _ => .array (packedId id)
  | .ptrConst _ => .ptrConst (packedId id)
  | .ptrMut _ => .ptrMut (packedId id)
  | .ref _ => .ref (packedId id)
  | .mutRef _ => .mutRef (packedId id)
  | .slice _ => .slice (packedId id)
  | .mutSlice _ => .mutSlice (packedId id)
  | .vec _ => .vec (packedId id)

def internedToTypeRecursive (pool : TypeInternPoolInner) (ty : InternedType) : Option Ty :=
  match ty.poolIndex with
  | none => primitiveType ty.index
  | some id => pool.types[id]?.map (compositeType id)

def typeToInternedRecursive : Ty → Option InternedType
  | .i8 => some ⟨0⟩
  | .i16 => some ⟨1⟩
  | .i32 => some ⟨2⟩
  | .i64 => some ⟨3⟩
  | .u8 => some ⟨4⟩
  | .u16 => some ⟨5⟩
  | .u32 => some ⟨6⟩
  | .u64 => some ⟨7⟩
  | .isize => some ⟨8⟩
  | .usize => some ⟨9⟩
  | .f16 => some ⟨10⟩
  | .f32 => some ⟨11⟩
  | .f64 => some ⟨12⟩
  | .bool => some ⟨13⟩
  | .char => some ⟨20⟩
  | .unit => some ⟨14⟩
  | .never => some ⟨15⟩
  | .error => some ⟨16⟩
  | .cSchar => some ⟨21⟩
  | .cShort => some ⟨22⟩
  | .cInt => some ⟨23⟩
  | .cLong => some ⟨24⟩
  | .cLonglong => some ⟨25⟩
  | .cUchar => some ⟨26⟩
  | .cUshort => some ⟨27⟩
  | .cUint => some ⟨28⟩
  | .cUlong => some ⟨29⟩
  | .cUlonglong => some ⟨30⟩
  | .cFloat => some ⟨31⟩
  | .cDouble => some ⟨32⟩
  | .cVoid => some ⟨33⟩
  | .struct id | .enum id | .array id | .ptrConst id | .ptrMut id | .ref id | .mutRef id
  | .slice id | .mutSlice id | .vec id => InternedType.fromPoolIndex id
  | .module _ | .interface _ | .comptimeType | .comptimeStr | .comptimeInt => none

def internFromType (component : Ty) (intern : InternedType → Option (TypeInternPoolInner × InternedType)) :
    Option (TypeInternPoolInner × Nat) := do
  let componentInterned ← typeToInternedRecursive component
  let (pool, interned) ← intern componentInterned
  let id ← interned.poolIndex
  some (pool, id)

def internArrayFromType (pool : TypeInternPoolInner) (elementType : Ty) (len : Nat) :=
  internFromType elementType fun element => pool.internArray element len

def internPtrConstFromType (pool : TypeInternPoolInner) (pointeeType : Ty) :=
  internFromType pointeeType pool.internPtrConst

def internPtrMutFromType (pool : TypeInternPoolInner) (pointeeType : Ty) :=
  internFromType pointeeType pool.internPtrMut

def internRefFromType (pool : TypeInternPoolInner) (referentType : Ty) :=
  internFromType referentType pool.internRef

def internMutRefFromType (pool : TypeInternPoolInner) (referentType : Ty) :=
  internFromType referentType pool.internMutRef

def internSliceFromType (pool : TypeInternPoolInner) (elementType : Ty) :=
  internFromType elementType pool.internSlice

def internMutSliceFromType (pool : TypeInternPoolInner) (elementType : Ty) :=
  internFromType elementType pool.internMutSlice

def internVecFromType (pool : TypeInternPoolInner) (elementType : Ty) :=
  internFromType elementType pool.internVec

def arrayDef (pool : TypeInternPoolInner) (id : ArrayTypeId) : Option (Ty × Nat) :=
  match pool.types[id]? with
  | some (.array element len) => (pool.internedToTypeRecursive element).map fun ty => (ty, len)
  | _ => none

def ptrConstDef (pool : TypeInternPoolInner) (id : PointeeId) : Option Ty :=
  match pool.types[id]? with
  | some (.ptrConst pointee) => pool.internedToTypeRecursive pointee
  | _ => none

def ptrMutDef (pool : TypeInternPoolInner) (id : PointeeId) : Option Ty :=
  match pool.types[id]? with
  | some (.ptrMut pointee) => pool.internedToTypeRecursive pointee
  | _ => none

def refDef (pool : TypeInternPoolInner) (id : PointeeId) : Option Ty := match pool.types[id]? with
  | some (.ref referent) => pool.internedToTypeRecursive referent
  | _ => none

def mutRefDef (pool : TypeInternPoolInner) (id : PointeeId) : Option Ty :=
  match pool.types[id]? with
  | some (.mutRef referent) => pool.internedToTypeRecursive referent
  | _ => none

def sliceDef (pool : TypeInternPoolInner) (id : PointeeId) : Option Ty := match pool.types[id]? with
  | some (.slice element) => pool.internedToTypeRecursive element
  | _ => none

def mutSliceDef (pool : TypeInternPoolInner) (id : PointeeId) : Option Ty :=
  match pool.types[id]? with
  | some (.mutSlice element) => pool.internedToTypeRecursive element
  | _ => none

def vecDef (pool : TypeInternPoolInner) (id : PointeeId) : Option Ty := match pool.types[id]? with
  | some (.vec element) => pool.internedToTypeRecursive element
  | _ => none

end TypeInternPoolInner

end Gruel
