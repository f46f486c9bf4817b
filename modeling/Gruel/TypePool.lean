import Gruel.Lib.InternTable
import Gruel.TypePoolCore

/-!
The type pool over whole runs: every handle it returns keeps its meaning, a
structural type has one handle, and a component reads back unless its primitive is
missing from the table that converts pool indices to types.
-/

namespace Gruel

inductive StructuralKind
  | array (len : Nat)
  | ptrConst | ptrMut | ref | mutRef | slice | mutSlice | vec
  deriving DecidableEq, Repr

namespace StructuralKind

def build : StructuralKind × InternedType → TypeData
  | (.array len, component) => .array component len
  | (.ptrConst, component) => .ptrConst component
  | (.ptrMut, component) => .ptrMut component
  | (.ref, component) => .ref component
  | (.mutRef, component) => .mutRef component
  | (.slice, component) => .slice component
  | (.mutSlice, component) => .mutSlice component
  | (.vec, component) => .vec component

theorem build_injective : Function.Injective build := by
  rintro ⟨first, _⟩ ⟨second, _⟩ _
  cases first <;> cases second <;> simp_all [build]

end StructuralKind

namespace TypeInternPoolInner

def find (pool : TypeInternPoolInner) : StructuralKind × InternedType → Option InternedType
  | (.array len, component) => pool.arrayMap.lookup (component, len)
  | (.ptrConst, component) => pool.ptrConstMap.lookup component
  | (.ptrMut, component) => pool.ptrMutMap.lookup component
  | (.ref, component) => pool.refMap.lookup component
  | (.mutRef, component) => pool.mutRefMap.lookup component
  | (.slice, component) => pool.sliceMap.lookup component
  | (.mutSlice, component) => pool.mutSliceMap.lookup component
  | (.vec, component) => pool.vecMap.lookup component

def intern (pool : TypeInternPoolInner) : StructuralKind → InternedType → Option (TypeInternPoolInner × InternedType)
  | .array len, component => pool.internArray component len
  | .ptrConst, component => pool.internPtrConst component
  | .ptrMut, component => pool.internPtrMut component
  | .ref, component => pool.internRef component
  | .mutRef, component => pool.internMutRef component
  | .slice, component => pool.internSlice component
  | .mutSlice, component => pool.internMutSlice component
  | .vec, component => pool.internVec component

def internType (pool : TypeInternPoolInner) : StructuralKind → Ty → Option (TypeInternPoolInner × Nat)
  | .array len, component => pool.internArrayFromType component len
  | .ptrConst, component => pool.internPtrConstFromType component
  | .ptrMut, component => pool.internPtrMutFromType component
  | .ref, component => pool.internRefFromType component
  | .mutRef, component => pool.internMutRefFromType component
  | .slice, component => pool.internSliceFromType component
  | .mutSlice, component => pool.internMutSliceFromType component
  | .vec, component => pool.internVecFromType component

def readBack (pool : TypeInternPoolInner) (id : Nat) : StructuralKind → Option (StructuralKind × Ty)
  | .array _ => (pool.arrayDef id).map fun (ty, len) => (.array len, ty)
  | .ptrConst => (pool.ptrConstDef id).map fun ty => (.ptrConst, ty)
  | .ptrMut => (pool.ptrMutDef id).map fun ty => (.ptrMut, ty)
  | .ref => (pool.refDef id).map fun ty => (.ref, ty)
  | .mutRef => (pool.mutRefDef id).map fun ty => (.mutRef, ty)
  | .slice => (pool.sliceDef id).map fun ty => (.slice, ty)
  | .mutSlice => (pool.mutSliceDef id).map fun ty => (.mutSlice, ty)
  | .vec => (pool.vecDef id).map fun ty => (.vec, ty)

end TypeInternPoolInner

inductive PoolHandle
  | struct (id : StructId)
  | enum (id : EnumId)
  | structural (kind : StructuralKind) (component : InternedType) (id : Nat)
  deriving DecidableEq, Repr

inductive PoolCall
  | registerStruct (name : Spur) (definition : StructDef)
  | reserveStructId
  | completeStructRegistration (id : StructId) (name : Spur) (definition : StructDef)
  | registerEnum (name : Spur) (definition : EnumDef)
  | updateStructDef (id : StructId) (definition : StructDef)
  | updateEnumDef (id : EnumId) (definition : EnumDef)
  | intern (kind : StructuralKind) (component : InternedType)
  | internType (kind : StructuralKind) (component : Ty)

namespace TypeInternPoolInner

variable {first second : TypeInternPoolInner}

/-- One call on the pool: the new state and the handle the caller goes on with, or
`none` where the code panics. -/
def perform (pool : TypeInternPoolInner) : PoolCall → Option (TypeInternPoolInner × PoolHandle)
  | .registerStruct name definition =>
    (pool.registerStruct name definition).map fun (after, id, _) => (after, .struct id)
  | .reserveStructId => pool.reserveStructId.map fun (after, id) => (after, .struct id)
  | .completeStructRegistration id name definition =>
    (pool.completeStructRegistration id name definition).map fun after => (after, .struct id)
  | .registerEnum name definition =>
    (pool.registerEnum name definition).map fun (after, id, _) => (after, .enum id)
  | .updateStructDef id definition =>
    (pool.updateStructDef id definition).map fun after => (after, .struct id)
  | .updateEnumDef id definition =>
    (pool.updateEnumDef id definition).map fun after => (after, .enum id)
  | .intern kind component => do
      let (after, interned) ← pool.intern kind component
      let id ← interned.poolIndex
      some (after, .structural kind component id)
  | .internType kind component => do
      let interned ← typeToInternedRecursive component
      let (after, id) ← pool.internType kind component
      some (after, .structural kind interned id)

/-- A composite type handle names the slot it was made from. -/
def Holds (pool : TypeInternPoolInner) (ty : Ty) : Prop :=
  ∀ interned id, typeToInternedRecursive ty = some interned → interned.poolIndex = some id →
    pool.types[id]?.map (compositeType id) = some ty

def IsStruct (pool : TypeInternPoolInner) (id : StructId) : Prop :=
  ∃ name definition, pool.types[id]? = some (.struct name definition)

def IsEnum (pool : TypeInternPoolInner) (id : EnumId) : Prop :=
  ∃ name definition, pool.types[id]? = some (.enum name definition)

/-- The arguments of a call are handles this pool has given out. -/
def Accepts (pool : TypeInternPoolInner) : PoolCall → Prop
  | .completeStructRegistration id _ _ => pool.IsStruct id
  | .internType _ component => pool.Holds component
  | _ => True

inductive Reaches (first : TypeInternPoolInner) : TypeInternPoolInner → Prop
  | refl : Reaches first first
  | call {pool after : TypeInternPoolInner} {call : PoolCall} {handle : PoolHandle}
      (before : Reaches first pool) (accepted : pool.Accepts call)
      (performed : pool.perform call = some (after, handle)) : Reaches first after

def record (key : StructuralKind × InternedType) (pool : TypeInternPoolInner)
    (interned : InternedType) : TypeInternPoolInner :=
  match key with
  | (.array len, element) =>
    { pool with arrayMap := ((element, len), interned) :: pool.arrayMap }
  | (.ptrConst, pointee) => { pool with ptrConstMap := (pointee, interned) :: pool.ptrConstMap }
  | (.ptrMut, pointee) => { pool with ptrMutMap := (pointee, interned) :: pool.ptrMutMap }
  | (.ref, referent) => { pool with refMap := (referent, interned) :: pool.refMap }
  | (.mutRef, referent) => { pool with mutRefMap := (referent, interned) :: pool.mutRefMap }
  | (.slice, element) => { pool with sliceMap := (element, interned) :: pool.sliceMap }
  | (.mutSlice, element) => { pool with mutSliceMap := (element, interned) :: pool.mutSliceMap }
  | (.vec, element) => { pool with vecMap := (element, interned) :: pool.vecMap }

theorem intern_eq (pool : TypeInternPoolInner) (kind : StructuralKind) (component : InternedType) :
    pool.intern kind component = pool.internWith (pool.find (kind, component))
      (StructuralKind.build (kind, component)) (record (kind, component)) := by
  cases kind <;> rfl

theorem internType_eq (pool : TypeInternPoolInner) (kind : StructuralKind) (component : Ty) :
    pool.internType kind component = internFromType component (pool.intern kind) := by
  cases kind <;> rfl

@[simp] theorem record_types (key : StructuralKind × InternedType) (pool : TypeInternPoolInner)
    (interned : InternedType) : (record key pool interned).types = pool.types := by
  obtain ⟨kind, _⟩ := key
  cases kind <;> rfl

@[simp] theorem record_structByName (key : StructuralKind × InternedType)
    (pool : TypeInternPoolInner) (interned : InternedType) :
    (record key pool interned).structByName = pool.structByName := by
  obtain ⟨kind, _⟩ := key
  cases kind <;> rfl

@[simp] theorem record_enumByName (key : StructuralKind × InternedType)
    (pool : TypeInternPoolInner) (interned : InternedType) :
    (record key pool interned).enumByName = pool.enumByName := by
  obtain ⟨kind, _⟩ := key
  cases kind <;> rfl

theorem find_record (key other : StructuralKind × InternedType) (pool : TypeInternPoolInner)
    (interned : InternedType) :
    (record key pool interned).find other = if other = key then some interned else pool.find other := by
  obtain ⟨kind, component⟩ := key
  obtain ⟨otherKind, otherComponent⟩ := other
  cases kind <;> cases otherKind <;>
    simp [record, find, List.lookup_cons, Prod.mk.injEq, reduceCtorEq, false_and, if_false,
      true_and, StructuralKind.array.injEq]
  case array.array len otherLen =>
      by_cases same : otherLen = len ∧ otherComponent = component
      · obtain ⟨rfl, rfl⟩ := same
        simp
      · have differs : ((otherComponent, otherLen) == (component, len)) = false := by
          simp only [beq_eq_false_iff_ne, ne_eq, Prod.mk.injEq]
          rintro ⟨rfl, rfl⟩
          exact same ⟨rfl, rfl⟩
        rw [differs, if_neg same]
  all_goals
    by_cases same : otherComponent = component
    · subst same
      simp
    · have differs : (otherComponent == component) = false := by simpa using same
      rw [differs, if_neg same]

def nameOf (position : Nat) : InternedType := ⟨position + InternedType.primitiveCount⟩

theorem fromPoolIndex_eq_some {position : Nat} {interned : InternedType}
    (named : InternedType.fromPoolIndex position = some interned) :
    position + InternedType.primitiveCount < 2 ^ 32 ∧ interned = nameOf position := by
  unfold InternedType.fromPoolIndex at named
  split at named
  case isTrue room =>
      cases named
      exact ⟨room, rfl⟩
  case isFalse => cases named

@[simp] theorem poolIndex_nameOf (position : Nat) : (nameOf position).poolIndex = some position := by
  have composite : ¬position + InternedType.primitiveCount < InternedType.primitiveCount := by omega
  simp [nameOf, InternedType.poolIndex, InternedType.isPrimitive, composite]

structure Canonical (pool : TypeInternPoolInner) : Prop where
  room : pool.types.length + InternedType.primitiveCount ≤ 2 ^ 32
  exact : InternTable.Exact nameOf StructuralKind.build pool.find pool.types
  structs : ∀ name interned, pool.structByName.lookup name = some interned →
    ∃ id, interned = nameOf id ∧ pool.IsStruct id
  enums : ∀ name interned, pool.enumByName.lookup name = some interned → ∃ id, interned = nameOf id ∧ pool.IsEnum id

/-- Two entries with the same constructor and component; a nominal entry may carry
another definition. -/
inductive SameShape : TypeData → TypeData → Prop
  | struct (name otherName definition otherDefinition) :
      SameShape (.struct name definition) (.struct otherName otherDefinition)
  | enum (name otherName definition otherDefinition) :
      SameShape (.enum name definition) (.enum otherName otherDefinition)
  | structural (key) : SameShape (StructuralKind.build key) (StructuralKind.build key)

theorem SameShape.refl (data : TypeData) : SameShape data data := by
  cases data with
  | struct name definition => exact .struct _ _ _ _
  | enum name definition => exact .enum _ _ _ _
  | array element len => exact .structural (.array len, element)
  | ptrConst pointee => exact .structural (.ptrConst, pointee)
  | ptrMut pointee => exact .structural (.ptrMut, pointee)
  | ref referent => exact .structural (.ref, referent)
  | mutRef referent => exact .structural (.mutRef, referent)
  | slice element => exact .structural (.slice, element)
  | mutSlice element => exact .structural (.mutSlice, element)
  | vec element => exact .structural (.vec, element)

theorem struct_ne_build (name : Spur) (definition : StructDef) (key : StructuralKind × InternedType) :
    TypeData.struct name definition ≠ StructuralKind.build key := by
  obtain ⟨kind, _⟩ := key
  cases kind <;> simp [StructuralKind.build]

theorem enum_ne_build (name : Spur) (definition : EnumDef) (key : StructuralKind × InternedType) :
    TypeData.enum name definition ≠ StructuralKind.build key := by
  obtain ⟨kind, _⟩ := key
  cases kind <;> simp [StructuralKind.build]

theorem SameShape.trans {first second third : TypeData} (firstSame : SameShape first second)
    (secondSame : SameShape second third) : SameShape first third := by
  cases firstSame with
  | struct name otherName definition otherDefinition =>
    generalize shape : TypeData.struct otherName otherDefinition = middle at secondSame
    cases secondSame with
    | struct _ lastName _ lastDefinition => exact .struct _ _ _ _
    | enum _ _ _ _ => cases shape
    | structural key => exact absurd shape (struct_ne_build _ _ key)
  | enum name otherName definition otherDefinition =>
    generalize shape : TypeData.enum otherName otherDefinition = middle at secondSame
    cases secondSame with
    | struct _ _ _ _ => cases shape
    | enum _ lastName _ lastDefinition => exact .enum _ _ _ _
    | structural key => exact absurd shape (enum_ne_build _ _ key)
  | structural key => exact secondSame

theorem SameShape.compositeType_eq {first second : TypeData} (same : SameShape first second)
    (id : Nat) : compositeType id first = compositeType id second := by
  cases same <;> rfl

def Keeps (first second : TypeInternPoolInner) : Prop :=
  ∀ (id : Nat) data, first.types[id]? = some data → ∃ kept, second.types[id]? = some kept ∧ SameShape data kept

theorem Keeps.refl (pool : TypeInternPoolInner) : Keeps pool pool :=
  fun _ data present => ⟨data, present, SameShape.refl data⟩

theorem Keeps.trans {third : TypeInternPoolInner} (firstKeeps : Keeps first second)
    (secondKeeps : Keeps second third) : Keeps first third := by
  intro id data present
  obtain ⟨middle, middlePresent, firstSame⟩ := firstKeeps id data present
  obtain ⟨last, lastPresent, secondSame⟩ := secondKeeps id middle middlePresent
  exact ⟨last, lastPresent, firstSame.trans secondSame⟩

theorem Keeps.of_append {data : TypeData} (appended : second.types = first.types ++ [data]) : Keeps first second := by
  intro id kept present
  have inside : id < first.types.length := (List.getElem?_eq_some_iff.mp present).1
  refine ⟨kept, ?_, SameShape.refl kept⟩
  rw [appended, List.getElem?_append_left inside]
  exact present

theorem Keeps.of_set {position : Nat} {old new : TypeData} (was : first.types[position]? = some old)
    (same : SameShape old new) (replaced : second.types = first.types.set position new) :
    Keeps first second := by
  intro id data present
  rw [replaced]
  by_cases here : position = id
  · subst here
    rw [present] at was
    cases was
    have inside : position < first.types.length := (List.getElem?_eq_some_iff.mp present).1
    exact ⟨new, by rw [List.getElem?_set_self inside], same⟩
  · exact ⟨data, by rw [List.getElem?_set_ne here]; exact present, SameShape.refl data⟩

theorem Keeps.isStruct (keeps : Keeps first second) {id : StructId} (isStruct : first.IsStruct id) :
    second.IsStruct id := by
  obtain ⟨name, definition, present⟩ := isStruct
  obtain ⟨_, keptPresent, same⟩ := keeps id _ present
  generalize shape : TypeData.struct name definition = old at same
  cases same with
  | struct _ keptName _ keptDefinition => exact ⟨keptName, keptDefinition, keptPresent⟩
  | enum _ _ _ _ => cases shape
  | structural key => exact absurd shape (struct_ne_build _ _ key)

theorem Keeps.isEnum (keeps : Keeps first second) {id : EnumId} (isEnum : first.IsEnum id) : second.IsEnum id := by
  obtain ⟨name, definition, present⟩ := isEnum
  obtain ⟨_, keptPresent, same⟩ := keeps id _ present
  generalize shape : TypeData.enum name definition = old at same
  cases same with
  | struct _ _ _ _ => cases shape
  | enum _ keptName _ keptDefinition => exact ⟨keptName, keptDefinition, keptPresent⟩
  | structural key => exact absurd shape (enum_ne_build _ _ key)

theorem Keeps.structural (keeps : Keeps first second) {id : Nat} {key : StructuralKind × InternedType}
    (present : first.types[id]? = some (StructuralKind.build key)) :
    second.types[id]? = some (StructuralKind.build key) := by
  obtain ⟨_, keptPresent, same⟩ := keeps id _ present
  generalize shape : StructuralKind.build key = old at same
  cases same with
  | struct _ _ _ _ => exact absurd shape.symm (struct_ne_build _ _ key)
  | enum _ _ _ _ => exact absurd shape.symm (enum_ne_build _ _ key)
  | structural other => exact keptPresent

def withNominal (pool : TypeInternPoolInner) (types : List TypeData)
    (structByName enumByName : List (Spur × InternedType)) : TypeInternPoolInner :=
  { pool with types := types, structByName := structByName, enumByName := enumByName }

theorem find_withNominal (pool : TypeInternPoolInner) (types : List TypeData)
    (structByName enumByName : List (Spur × InternedType)) :
    (pool.withNominal types structByName enumByName).find = pool.find := by
  funext key
  obtain ⟨kind, _⟩ := key
  cases kind <;> rfl

theorem Canonical.nominal {pool : TypeInternPoolInner} (canonical : Canonical pool)
    {types : List TypeData} {structByName enumByName : List (Spur × InternedType)}
    (keeps : Keeps pool (pool.withNominal types structByName enumByName))
    (room : types.length + InternedType.primitiveCount ≤ 2 ^ 32)
    (exact : InternTable.Exact nameOf StructuralKind.build pool.find types)
    (structs : ∀ name interned, structByName.lookup name = some interned →
      pool.structByName.lookup name = some interned ∨
        ∃ id, interned = nameOf id ∧ (pool.withNominal types structByName enumByName).IsStruct id)
    (enums : ∀ name interned, enumByName.lookup name = some interned → pool.enumByName.lookup name = some interned ∨
        ∃ id, interned = nameOf id ∧ (pool.withNominal types structByName enumByName).IsEnum id) :
    Canonical (pool.withNominal types structByName enumByName) := by
  refine ⟨room, by rw [find_withNominal]; exact exact, ?_, ?_⟩
  · intro name interned found
    rcases structs name interned found with old | new
    · obtain ⟨id, named, isStruct⟩ := canonical.structs name interned old
      exact ⟨id, named, keeps.isStruct isStruct⟩
    · exact new
  · intro name interned found
    rcases enums name interned found with old | new
    · obtain ⟨id, named, isEnum⟩ := canonical.enums name interned old
      exact ⟨id, named, keeps.isEnum isEnum⟩
    · exact new

theorem lookup_cons_cases {name other : Spur} {interned found : InternedType} {rest : List (Spur × InternedType)}
    (present : ((name, interned) :: rest).lookup other = some found) :
    rest.lookup other = some found ∨ found = interned := by
  rw [List.lookup_cons] at present
  split at present
  · exact .inr (Option.some.inj present).symm
  · exact .inl present

/-- What a call leaves behind: the invariant, every old slot, and a handle that
names its own slot. -/
structure Performed (pool after : TypeInternPoolInner) (named : Prop) : Prop where
  canonical : Canonical after
  keeps : Keeps pool after
  named : named

section Calls

variable {pool after : TypeInternPoolInner} (canonical : Canonical pool)
variable {id : StructId} {name : Spur} {definition : StructDef}
variable {isNew : Bool} {kind : StructuralKind}

include canonical

theorem registerStruct_performed (called : pool.registerStruct name definition = some (after, id, isNew)) :
    Performed pool after (after.IsStruct id) := by
  unfold registerStruct at called
  split at called
  case h_1 existing found =>
      obtain ⟨_, rfl, isStruct⟩ := canonical.structs name existing found
      obtain ⟨rfl, rfl, -⟩ := called
      exact ⟨canonical, Keeps.refl pool, isStruct⟩
  case h_2 missed =>
      obtain ⟨_, fits, called⟩ := Option.bind_eq_some_iff.mp called
      obtain ⟨_, rfl⟩ := fromPoolIndex_eq_some fits
      obtain ⟨rfl, rfl, -⟩ := called
      have keeps : Keeps pool { pool.push (.struct name definition) with
          structByName := (name, nameOf pool.types.length) :: pool.structByName } :=
        Keeps.of_append rfl
      have isStruct : IsStruct { pool.push (.struct name definition) with
          structByName := (name, nameOf pool.types.length) :: pool.structByName }
          pool.types.length := ⟨name, definition, by simp [push]⟩
      refine ⟨canonical.nominal keeps ?_ ?_ ?_ ?_, keeps, isStruct⟩
      · simp only [push, List.length_append, List.length_singleton]
        omega
      · exact canonical.exact.append_other (struct_ne_build name definition)
      · intro other found present
        rcases lookup_cons_cases present with old | rfl
        · exact .inl old
        · exact .inr ⟨_, rfl, isStruct⟩
      · intro other found present
        exact .inl present

theorem reserveStructId_performed (called : pool.reserveStructId = some (after, id)) :
    Performed pool after (after.IsStruct id) := by
  unfold reserveStructId at called
  split at called
  case isFalse => cases called
  case isTrue room =>
      obtain ⟨rfl, rfl⟩ := called
      have keeps : Keeps pool (pool.push placeholder) := Keeps.of_append rfl
      refine ⟨canonical.nominal keeps ?_ ?_ ?_ ?_, keeps, ⟨_, _, List.getElem?_concat_length⟩⟩
      · simp only [push, List.length_append, List.length_singleton]
        omega
      · exact canonical.exact.append_other (struct_ne_build _ _)
      · exact fun _ _ present => .inl present
      · exact fun _ _ present => .inl present

theorem completeStructRegistration_performed (reserved : pool.IsStruct id)
    (called : pool.completeStructRegistration id name definition = some after) :
    Performed pool after (after.IsStruct id) := by
  obtain ⟨_, _, was⟩ := reserved
  have inside : id < pool.types.length := (List.getElem?_eq_some_iff.mp was).1
  unfold completeStructRegistration at called
  rw [if_neg (Nat.not_le.mpr inside)] at called
  split at called
  case isTrue => cases called
  case isFalse fresh =>
      obtain ⟨_, fits, called⟩ := Option.bind_eq_some_iff.mp called
      obtain ⟨-, rfl⟩ := fromPoolIndex_eq_some fits
      cases called
      have keeps : Keeps pool { pool with
          types := pool.types.set id (.struct name definition)
          structByName := (name, nameOf id) :: pool.structByName } :=
        Keeps.of_set was (.struct _ _ _ _) rfl
      have isStruct : IsStruct { pool with
          types := pool.types.set id (.struct name definition)
          structByName := (name, nameOf id) :: pool.structByName } id :=
        ⟨name, definition, by simp [inside]⟩
      refine ⟨canonical.nominal keeps ?_ ?_ ?_ ?_, keeps, isStruct⟩
      · simpa using canonical.room
      · refine canonical.exact.set_other ?_ (struct_ne_build name definition)
        intro key present
        rw [was] at present
        exact struct_ne_build _ _ key (Option.some.inj present)
      · intro _ _ present
        rcases lookup_cons_cases present with old | rfl
        · exact .inl old
        · exact .inr ⟨_, rfl, isStruct⟩
      · exact fun _ _ present => .inl present

theorem registerEnum_performed {definition : EnumDef} {id : EnumId}
    (called : pool.registerEnum name definition = some (after, id, isNew)) :
    Performed pool after (after.IsEnum id) := by
  unfold registerEnum at called
  split at called
  case h_1 existing found =>
      obtain ⟨_, rfl, isEnum⟩ := canonical.enums name existing found
      obtain ⟨rfl, rfl, -⟩ := called
      exact ⟨canonical, Keeps.refl pool, isEnum⟩
  case h_2 missed =>
      obtain ⟨_, fits, called⟩ := Option.bind_eq_some_iff.mp called
      obtain ⟨_, rfl⟩ := fromPoolIndex_eq_some fits
      obtain ⟨rfl, rfl, -⟩ := called
      have keeps : Keeps pool { pool.push (.enum name definition) with
          enumByName := (name, nameOf pool.types.length) :: pool.enumByName } :=
        Keeps.of_append rfl
      have isEnum : IsEnum { pool.push (.enum name definition) with
          enumByName := (name, nameOf pool.types.length) :: pool.enumByName }
          pool.types.length := ⟨name, definition, by simp [push]⟩
      refine ⟨canonical.nominal keeps ?_ ?_ ?_ ?_, keeps, isEnum⟩
      · simp only [push, List.length_append, List.length_singleton]
        omega
      · exact canonical.exact.append_other (enum_ne_build name definition)
      · exact fun _ _ present => .inl present
      · intro _ found present
        rcases lookup_cons_cases present with old | rfl
        · exact .inl old
        · exact .inr ⟨_, rfl, isEnum⟩

theorem updateStructDef_performed (called : pool.updateStructDef id definition = some after) :
    Performed pool after (after.IsStruct id) := by
  unfold updateStructDef at called
  split at called
  case h_2 => cases called
  case h_1 name oldDefinition was =>
      cases called
      have inside : id < pool.types.length := (List.getElem?_eq_some_iff.mp was).1
      have keeps : Keeps pool { pool with types := pool.types.set id (.struct name definition) } :=
        Keeps.of_set was (.struct _ _ _ _) rfl
      refine ⟨canonical.nominal keeps ?_ ?_ ?_ ?_, keeps, ⟨name, definition, by simp [inside]⟩⟩
      · simpa using canonical.room
      · refine canonical.exact.set_other ?_ (struct_ne_build name definition)
        intro key present
        rw [was] at present
        exact struct_ne_build _ _ key (Option.some.inj present)
      · exact fun _ _ present => .inl present
      · exact fun _ _ present => .inl present

theorem updateEnumDef_performed {id : EnumId} {definition : EnumDef}
    (called : pool.updateEnumDef id definition = some after) :
    Performed pool after (after.IsEnum id) := by
  unfold updateEnumDef at called
  split at called
  case h_2 => cases called
  case h_1 name oldDefinition was =>
      cases called
      have inside : id < pool.types.length := (List.getElem?_eq_some_iff.mp was).1
      have keeps : Keeps pool { pool with types := pool.types.set id (.enum name definition) } :=
        Keeps.of_set was (.enum _ _ _ _) rfl
      refine ⟨canonical.nominal keeps ?_ ?_ ?_ ?_, keeps, ⟨name, definition, by simp [inside]⟩⟩
      · simpa using canonical.room
      · refine canonical.exact.set_other ?_ (enum_ne_build name definition)
        intro key present
        rw [was] at present
        exact enum_ne_build _ _ key (Option.some.inj present)
      · exact fun _ _ present => .inl present
      · exact fun _ _ present => .inl present

theorem intern_performed {component interned : InternedType}
    (called : pool.intern kind component = some (after, interned)) :
    Performed pool after (∃ id, interned = nameOf id ∧
      after.types[id]? = some (StructuralKind.build (kind, component))) := by
  rw [intern_eq] at called
  unfold internWith at called
  split at called
  case h_1 existing found =>
      obtain ⟨rfl, rfl⟩ := called
      exact ⟨canonical, Keeps.refl pool, (canonical.exact _ _).mp found⟩
  case h_2 missed =>
      obtain ⟨name, fits, called⟩ := Option.bind_eq_some_iff.mp called
      obtain ⟨_, rfl⟩ := fromPoolIndex_eq_some fits
      simp only [Option.some.injEq, Prod.mk.injEq] at called
      obtain ⟨rfl, rfl⟩ := called
      have pushed : (record (kind, component) (pool.push (StructuralKind.build (kind, component)))
          (nameOf pool.types.length)).types =
          pool.types ++ [StructuralKind.build (kind, component)] := by
        rw [record_types]
        rfl
      have keeps := Keeps.of_append pushed
      refine ⟨⟨?_, ?_, ?_, ?_⟩, keeps, pool.types.length, rfl, by rw [pushed]; simp⟩
      · rw [pushed, List.length_append, List.length_singleton]
        omega
      · rw [pushed]
        refine canonical.exact.append_new StructuralKind.build_injective missed ?_
        intro other
        rw [find_record]
        obtain ⟨otherKind, _⟩ := other
        cases otherKind <;> rfl
      · intro name interned found
        rw [record_structByName] at found
        obtain ⟨id, named, isStruct⟩ := canonical.structs name interned found
        exact ⟨id, named, keeps.isStruct isStruct⟩
      · intro name interned found
        rw [record_enumByName] at found
        obtain ⟨id, named, isEnum⟩ := canonical.enums name interned found
        exact ⟨id, named, keeps.isEnum isEnum⟩

theorem internType_performed {component : Ty} {id : Nat}
    (called : pool.internType kind component = some (after, id)) :
    ∃ interned, typeToInternedRecursive component = some interned ∧
      Performed pool after (after.types[id]? = some (StructuralKind.build (kind, interned))) := by
  rw [internType_eq] at called
  obtain ⟨interned, converted, called⟩ := Option.bind_eq_some_iff.mp called
  obtain ⟨⟨_, _⟩, interns, called⟩ := Option.bind_eq_some_iff.mp called
  obtain ⟨_, indexed, called⟩ := Option.bind_eq_some_iff.mp called
  obtain ⟨rfl, rfl⟩ := called
  obtain ⟨reachedCanonical, keeps, _, rfl, present⟩ := intern_performed canonical interns
  cases indexed
  exact ⟨interned, converted, reachedCanonical, keeps, present⟩

end Calls

end TypeInternPoolInner

def PoolHandle.Names (pool : TypeInternPoolInner) : PoolHandle → Prop
  | .struct id => pool.IsStruct id
  | .enum id => pool.IsEnum id
  | .structural kind component id =>
    pool.types[id]? = some (StructuralKind.build (kind, component))

namespace TypeInternPoolInner

variable {first second pool : TypeInternPoolInner} {handle : PoolHandle}

theorem Keeps.names (keeps : Keeps first second) (named : handle.Names first) : handle.Names second := by
  cases handle with
  | struct id => exact keeps.isStruct named
  | enum id => exact keeps.isEnum named
  | structural kind component id => exact keeps.structural named

theorem Keeps.holds (keeps : Keeps first second) {ty : Ty} (held : first.Holds ty) : second.Holds ty := by
  intro interned id converted indexed
  have slot := held interned id converted indexed
  obtain ⟨data, present, made⟩ := Option.map_eq_some_iff.mp slot
  obtain ⟨_, keptPresent, same⟩ := keeps id data present
  rw [keptPresent, Option.map_some, ← same.compositeType_eq, made]

theorem perform_performed {after : TypeInternPoolInner} {call : PoolCall}
    (canonical : Canonical pool) (accepted : pool.Accepts call)
    (performed : pool.perform call = some (after, handle)) :
    Performed pool after (handle.Names after) := by
  cases call with
  | registerStruct name definition =>
    obtain ⟨⟨reached, id, isNew⟩, called, result⟩ := Option.map_eq_some_iff.mp performed
    cases result
    exact registerStruct_performed canonical called
  | reserveStructId =>
    obtain ⟨⟨reached, id⟩, called, result⟩ := Option.map_eq_some_iff.mp performed
    cases result
    exact reserveStructId_performed canonical called
  | completeStructRegistration id name definition =>
    obtain ⟨reached, called, result⟩ := Option.map_eq_some_iff.mp performed
    cases result
    exact completeStructRegistration_performed canonical accepted called
  | registerEnum name definition =>
    obtain ⟨⟨reached, id, isNew⟩, called, result⟩ := Option.map_eq_some_iff.mp performed
    cases result
    exact registerEnum_performed canonical called
  | updateStructDef id definition =>
    obtain ⟨reached, called, result⟩ := Option.map_eq_some_iff.mp performed
    cases result
    exact updateStructDef_performed canonical called
  | updateEnumDef id definition =>
    obtain ⟨reached, called, result⟩ := Option.map_eq_some_iff.mp performed
    cases result
    exact updateEnumDef_performed canonical called
  | intern kind component =>
    obtain ⟨⟨reached, interned⟩, called, rest⟩ := Option.bind_eq_some_iff.mp performed
    obtain ⟨id, indexed, result⟩ := Option.bind_eq_some_iff.mp rest
    cases result
    obtain ⟨reachedCanonical, keeps, _, rfl, present⟩ := intern_performed canonical called
    cases indexed
    exact ⟨reachedCanonical, keeps, present⟩
  | internType kind component =>
    obtain ⟨interned, converted, rest⟩ := Option.bind_eq_some_iff.mp performed
    obtain ⟨⟨reached, id⟩, called, result⟩ := Option.bind_eq_some_iff.mp rest
    cases result
    obtain ⟨_, otherConverted, done⟩ := internType_performed canonical called
    rw [converted] at otherConverted
    cases otherConverted
    exact done

theorem canonical_empty : Canonical {} := by
  refine ⟨by decide, ?_, ?_, ?_⟩
  · apply InternTable.exact_nil
    rintro ⟨kind, _⟩
    cases kind <;> rfl
  · intro name interned found
    cases found
  · intro name interned found
    cases found

theorem Reaches.performed {later : TypeInternPoolInner} (canonical : Canonical first)
    (reaches : Reaches first later) : Canonical later ∧ Keeps first later := by
  induction reaches with
  | refl => exact ⟨canonical, Keeps.refl first⟩
  | call before accepted performed ih =>
    obtain ⟨afterCanonical, keeps, -⟩ := perform_performed ih.1 accepted performed
    exact ⟨afterCanonical, ih.2.trans keeps⟩

theorem readBack_eq {id : Nat} {kind : StructuralKind} {component : InternedType}
    (present : pool.types[id]? = some (StructuralKind.build (kind, component))) :
    pool.readBack id kind = (pool.internedToTypeRecursive component).map fun ty => (kind, ty) := by
  cases kind <;> simp only [StructuralKind.build] at present <;>
    simp [readBack, arrayDef, ptrConstDef, ptrMutDef, refDef, mutRefDef, sliceDef, mutSliceDef,
      vecDef, present, Function.comp_def]

end TypeInternPoolInner

/-- The primitives `interned_to_type_recursive` has no row for. -/
def Ty.isCharOrCNamed : Ty → Bool
  | .char | .cSchar | .cShort | .cInt | .cLong | .cLonglong | .cUchar | .cUshort | .cUint
  | .cUlong | .cUlonglong | .cFloat | .cDouble | .cVoid => true
  | _ => false

namespace TypeInternPoolInner

variable {ty : Ty} {interned : InternedType} {kind : StructuralKind} {id : Nat}
variable {pool : TypeInternPoolInner}

theorem typeToInterned_cases (converted : typeToInternedRecursive ty = some interned) :
    (interned.poolIndex = none ∧ (ty.isCharOrCNamed = true ∧ primitiveType interned.index = none ∨
      ty.isCharOrCNamed = false ∧ primitiveType interned.index = some ty)) ∨
    (∃ id, interned = nameOf id ∧ ty.isCharOrCNamed = false) := by
  cases ty
  case struct id | enum id | array id | ptrConst id | ptrMut id | ref id | mutRef id | slice id |
      mutSlice id | vec id =>
    exact .inr ⟨id, (fromPoolIndex_eq_some converted).2, rfl⟩
  case interface | module | comptimeType | comptimeStr | comptimeInt => cases converted
  all_goals
    cases converted
    left
    simp [InternedType.poolIndex, InternedType.isPrimitive, InternedType.primitiveCount,
      Ty.isCharOrCNamed, primitiveType]

theorem internedToType_eq_iff (held : pool.Holds ty) (converted : typeToInternedRecursive ty = some interned) :
    pool.internedToTypeRecursive interned = some ty ↔ ty.isCharOrCNamed = false := by
  unfold internedToTypeRecursive
  rcases typeToInterned_cases converted with ⟨primitive, missing | present⟩ | ⟨id, rfl, composite⟩
  · rw [primitive]
    simp [missing.1, missing.2]
  · rw [primitive]
    simp [present.1, present.2]
  · have slot := held _ id converted (poolIndex_nameOf id)
    simp [slot, composite]

def everyPrimitive : Nat → Option Ty
  | 20 => some .char
  | 21 => some .cSchar
  | 22 => some .cShort
  | 23 => some .cInt
  | 24 => some .cLong
  | 25 => some .cLonglong
  | 26 => some .cUchar
  | 27 => some .cUshort
  | 28 => some .cUint
  | 29 => some .cUlong
  | 30 => some .cUlonglong
  | 31 => some .cFloat
  | 32 => some .cDouble
  | 33 => some .cVoid
  | index => primitiveType index

theorem everyPrimitive_of_converted (converted : typeToInternedRecursive ty = some interned)
    (primitive : interned.poolIndex = none) : everyPrimitive interned.index = some ty := by
  cases ty
  case struct id | enum id | array id | ptrConst id | ptrMut id | ref id | mutRef id | slice id |
      mutSlice id | vec id =>
    rw [(fromPoolIndex_eq_some converted).2, poolIndex_nameOf] at primitive
    cases primitive
  case interface | module | comptimeType | comptimeStr | comptimeInt => cases converted
  all_goals
    cases converted
    rfl

theorem typeToInterned_injective {first second : Ty} (firstHeld : pool.Holds first) (secondHeld : pool.Holds second)
    (firstConverted : typeToInternedRecursive first = some interned)
    (secondConverted : typeToInternedRecursive second = some interned) : first = second := by
  cases indexed : interned.poolIndex with
  | none =>
    have firstRow := everyPrimitive_of_converted firstConverted indexed
    have secondRow := everyPrimitive_of_converted secondConverted indexed
    rw [firstRow] at secondRow
    exact Option.some.inj secondRow
  | some id =>
    have firstSlot := firstHeld interned id firstConverted indexed
    have secondSlot := secondHeld interned id secondConverted indexed
    rw [firstSlot] at secondSlot
    exact Option.some.inj secondSlot

/-- In every later state the definition reads back as it was interned, interning it
again changes nothing and returns the same handle, and no other constructor or
component gets that handle. -/
def Recoverable (after : TypeInternPoolInner) (kind : StructuralKind) (ty : Ty) (id : Nat) : Prop :=
  ∀ later, Reaches after later → later.readBack id kind = some (kind, ty) ∧
    later.internType kind ty = some (later, id) ∧
    ∀ otherKind otherTy final, later.Holds otherTy →
      later.internType otherKind otherTy = some (final, id) → otherKind = kind ∧ otherTy = ty

theorem internType_again (canonical : Canonical pool) (converted : typeToInternedRecursive ty = some interned)
    (present : pool.types[id]? = some (StructuralKind.build (kind, interned))) :
    pool.internType kind ty = some (pool, id) := by
  have found : pool.find (kind, interned) = some (nameOf id) :=
    (canonical.exact _ _).mpr ⟨id, rfl, present⟩
  rw [internType_eq]
  simp [internFromType, converted, intern_eq, internWith, found]

theorem internType_same_id {final : TypeInternPoolInner} {otherKind : StructuralKind} {otherTy : Ty}
    (canonical : Canonical pool) (held : pool.Holds ty) (otherHeld : pool.Holds otherTy)
    (converted : typeToInternedRecursive ty = some interned)
    (present : pool.types[id]? = some (StructuralKind.build (kind, interned)))
    (again : pool.internType otherKind otherTy = some (final, id)) :
    otherKind = kind ∧ otherTy = ty := by
  obtain ⟨_, otherConverted, -, keeps, otherPresent⟩ :=
    internType_performed canonical again
  have kept := keeps.structural present
  rw [otherPresent] at kept
  have sameKey := StructuralKind.build_injective (Option.some.inj kept)
  obtain ⟨rfl, rfl⟩ := sameKey
  exact ⟨rfl, typeToInterned_injective otherHeld held otherConverted converted⟩

theorem recoverable_iff {after : TypeInternPoolInner} (canonical : Canonical pool)
    (held : pool.Holds ty) (called : pool.internType kind ty = some (after, id)) :
    Recoverable after kind ty id ↔ ty.isCharOrCNamed = false := by
  obtain ⟨_, converted, afterCanonical, keeps, present⟩ :=
    internType_performed canonical called
  have afterHeld := keeps.holds held
  constructor
  · intro recoverable
    have readsBack := (recoverable after .refl).1
    rw [readBack_eq present] at readsBack
    obtain ⟨_, converts, equal⟩ := Option.map_eq_some_iff.mp readsBack
    cases equal
    exact (internedToType_eq_iff afterHeld converted).mp converts
  · intro hasRow _ reaches
    obtain ⟨laterCanonical, laterKeeps⟩ := reaches.performed afterCanonical
    have laterHeld := laterKeeps.holds afterHeld
    have laterPresent := laterKeeps.structural present
    refine ⟨?_, internType_again laterCanonical converted laterPresent, ?_⟩
    · rw [readBack_eq laterPresent, (internedToType_eq_iff laterHeld converted).mpr hasRow, Option.map_some]
    · intro _ _ _ otherHeld again
      exact internType_same_id laterCanonical laterHeld otherHeld converted laterPresent again

end TypeInternPoolInner

open TypeInternPoolInner in
/-- After any run of calls, whatever handle a further call returns names the same
constructor and component in every later state; and a component interned by a
structural constructor is recoverable exactly when it is neither `char` nor one of
the C named types. -/
theorem typePool_canonical_and_recoverable_iff {pool after : TypeInternPoolInner}
    {call : PoolCall} {handle : PoolHandle} (reachable : Reaches {} pool)
    (accepted : pool.Accepts call) (performed : pool.perform call = some (after, handle)) :
    (∀ later, Reaches after later → handle.Names later) ∧
    ∀ kind ty id interned, call = .internType kind ty → handle = .structural kind interned id →
      (Recoverable after kind ty id ↔ ty.isCharOrCNamed = false) := by
  have canonical := (reachable.performed canonical_empty).1
  obtain ⟨afterCanonical, -, named⟩ := perform_performed canonical accepted performed
  refine ⟨fun later reaches => (reaches.performed afterCanonical).2.names named, ?_⟩
  rintro kind ty id interned rfl rfl
  obtain ⟨_, _, rest⟩ := Option.bind_eq_some_iff.mp performed
  obtain ⟨⟨_, _⟩, called, result⟩ := Option.bind_eq_some_iff.mp rest
  cases result
  exact recoverable_iff canonical accepted called

open TypeInternPoolInner in
theorem vecOfI32_recoverable : ∃ after, ({} : TypeInternPoolInner).perform (.internType .vec .i32) =
        some (after, .structural .vec ⟨2⟩ 0) ∧ Recoverable after .vec .i32 0 := by
  have accepted : ({} : TypeInternPoolInner).Accepts (.internType .vec .i32) := by
    intro _ _ converted indexed
    cases converted
    cases indexed
  refine ⟨_, rfl, ?_⟩
  have contract := typePool_canonical_and_recoverable_iff .refl accepted
    (rfl : ({} : TypeInternPoolInner).perform (.internType .vec .i32) = some (_, _))
  exact (contract.2 .vec .i32 0 ⟨2⟩ rfl rfl).mpr rfl

open TypeInternPoolInner in
/-- `[char; 3]` can be interned but its definition cannot be read: the conversion
back has no row for pool index 20. -/
theorem not_recoverable_charArray :
    ∃ after, ({} : TypeInternPoolInner).internArrayFromType .char 3 = some (after, 0) ∧
      after.arrayDef 0 = none ∧ ¬Recoverable after (.array 3) .char 0 := by
  refine ⟨_, rfl, rfl, fun recoverable => ?_⟩
  have readsBack := (recoverable _ .refl).1
  cases readsBack

end Gruel
