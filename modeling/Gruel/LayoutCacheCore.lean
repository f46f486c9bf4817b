import Gruel.LayoutCore
import Gruel.Lib.MemoTable
import Gruel.PoolSnapshotCore

/-!
The layout query as the pool answers it: a cache keyed by type handle beside
definitions that later calls replace.
-/

namespace Gruel

open MemoTable

abbrev LayoutCache := MemoTable.Table Ty Layout

abbrev LayoutQuery := MemoTable.Call Ty Layout Ty Layout

def tryNicheEncodedEnum (layoutOf : LayoutQuery) (definition : EnumDef) (cache : LayoutCache) :
    Option (Option Layout × LayoutCache) :=
  match definition.variants.map EnumVariantDef.fields with
  | [[], [payload]] => do
      let (layout, cache) ← layoutOf payload cache
      some (nicheEncoded 0 1 layout, cache)
  | [[payload], []] => do
      let (layout, cache) ← layoutOf payload cache
      some (nicheEncoded 1 0 layout, cache)
  | _ => some (none, cache)

def enumSeparate (layoutOf : LayoutQuery) (definition : EnumDef) (cache : LayoutCache) :
    Option (Layout × LayoutCache) := do
  let (_, cache) ← layoutOf definition.discriminantType cache
  let (variants, cache) ← each (each layoutOf) (definition.variants.map EnumVariantDef.fields) cache
  some (enumLayoutSeparate .machine definition variants, cache)

def computeLayout (pool : TypeInternPoolInner) (layoutOf : LayoutQuery) : LayoutQuery :=
  fun ty cache =>
    match ty with
    | .struct id => do
        let definition ← pool.structDef id
        let (fields, cache) ← each layoutOf definition.fieldTypes cache
        some (structLayout .machine fields, cache)
    | .array id => do
        let (elementType, len) ← pool.arrayDef id
        let (element, cache) ← layoutOf elementType cache
        some (arrayLayout .machine element len, cache)
    | .enum id => do
        let definition ← pool.enumDef id
        match ← tryNicheEncodedEnum layoutOf definition cache with
        | (some layout, cache) => some (layout, cache)
        | (none, cache) => enumSeparate layoutOf definition cache
    | leaf => some (scalarLayout leaf, cache)

/-- `layout_of`: the cached layout if there is one, otherwise the computed one, which is
cached.  Fuel bounds the depth of the recursion. -/
def TypeInternPoolInner.layoutOf (pool : TypeInternPoolInner) (fuel : Nat) : LayoutQuery :=
  through (computeLayout pool) fuel

structure CachingPool where
  inner : TypeInternPoolInner := {}
  layoutCache : LayoutCache := []

inductive LayoutEvent
  | call (call : PoolCall)
  | query (ty : Ty) (fuel : Nat)

namespace CachingPool

def perform (pool : CachingPool) : LayoutEvent → Option CachingPool
  | .call call => do
      let (inner, _) ← pool.inner.perform call
      some { pool with inner := inner }
  | .query ty fuel => do
      let (_, layoutCache) ← pool.inner.layoutOf fuel ty pool.layoutCache
      some { pool with layoutCache := layoutCache }

def Accepts (pool : CachingPool) : LayoutEvent → Prop
  | .call call => pool.inner.Accepts call
  | .query _ _ => True

/-- A state, with the states and events that led to it, latest first. -/
inductive Run : CachingPool → List (CachingPool × LayoutEvent) → Prop
  | start : Run {} []
  | step {pool after : CachingPool} {event : LayoutEvent}
      {earlier : List (CachingPool × LayoutEvent)} (before : Run pool earlier)
      (accepted : pool.Accepts event) (performed : pool.perform event = some after) :
      Run after ((pool, event) :: earlier)

/-- `layout_of` returns this layout. -/
def LayoutOf (pool : CachingPool) (ty : Ty) (layout : Layout) : Prop :=
  ∃ fuel after, pool.inner.layoutOf fuel ty pool.layoutCache = some (layout, after)

/-- The layout recomputed from scratch: `layout_of` with nothing cached. -/
def Recomputes (pool : TypeInternPoolInner) (ty : Ty) (layout : Layout) : Prop :=
  LayoutOf { inner := pool } ty layout

def NeverStale (pool : CachingPool) : Prop :=
  ∀ ty layout, pool.LayoutOf ty layout ↔ Recomputes pool.inner ty layout

end CachingPool

def PoolCall.redefines : PoolCall → Option Ty
  | .completeStructRegistration id _ _ => some (.struct id)
  | .updateStructDef id _ => some (.struct id)
  | .updateEnumDef id _ => some (.enum id)
  | _ => none

namespace TypeInternPoolInner

def components (pool : TypeInternPoolInner) : Ty → List Ty
  | .struct id => ((pool.structDef id).map StructDef.fieldTypes).getD []
  | .array id => ((pool.arrayDef id).map fun (element, _) => [element]).getD []
  | .enum id =>
    ((pool.enumDef id).map fun definition =>
      definition.variants.flatMap EnumVariantDef.fields).getD []
  | _ => []

/-- A value of the first type holds a value of the second one, or is one. -/
inductive Embeds (pool : TypeInternPoolInner) : Ty → Ty → Prop
  | self (ty : Ty) : Embeds pool ty ty
  | part {ty part target : Ty} (isPart : part ∈ pool.components ty)
      (inside : Embeds pool part target) : Embeds pool ty target

/-- The layout that the definitions give a type, if none of them is missing and no
type contains itself. -/
inductive LaidOut (pool : TypeInternPoolInner) : Ty → Layout → Prop
  | struct {id : StructId} {definition : StructDef} (layouts : Ty → Layout)
      (defined : pool.structDef id = some definition)
      (fields : ∀ ty ∈ definition.fieldTypes, LaidOut pool ty (layouts ty)) :
      LaidOut pool (.struct id) (structLayout .machine (definition.fieldTypes.map layouts))
  | array {id : ArrayTypeId} {elementType : Ty} {len : Nat} {element : Layout}
      (defined : pool.arrayDef id = some (elementType, len))
      (elements : LaidOut pool elementType element) :
      LaidOut pool (.array id) (arrayLayout .machine element len)
  | enum {id : EnumId} {definition : EnumDef} (layouts : Ty → Layout) (defined : pool.enumDef id = some definition)
      (payloads : ∀ variant ∈ definition.variants, ∀ ty ∈ variant.fields, LaidOut pool ty (layouts ty)) :
      LaidOut pool (.enum id) (enumLayout .machine definition
        (definition.variants.map fun variant => variant.fields.map layouts))
  | leaf {ty : Ty} (notStruct : ∀ id, ty ≠ .struct id) (notArray : ∀ id, ty ≠ .array id)
      (notEnum : ∀ id, ty ≠ .enum id) : LaidOut pool ty (scalarLayout ty)

end TypeInternPoolInner

namespace CachingPool

/-- A call that replaces a definition leaves the layout of every type that has been
cached and holds the redefined type by value. -/
def Spares (pool : CachingPool) : LayoutEvent → Prop
  | .query _ _ => True
  | .call call => ∀ redefined after handle, call.redefines = some redefined →
      pool.inner.perform call = some (after, handle) →
      ∀ ty layout, (pool.layoutCache.lookup ty).isSome → pool.inner.Embeds ty redefined →
        pool.inner.LaidOut ty layout → after.LaidOut ty layout

end CachingPool

end Gruel
