import Gruel.PoolSnapshotCore

/-!
A snapshot answers like its original: the maps rebuilt from the types agree with the
maps the pool built up, and every request depends on nothing else.
-/

namespace Gruel

open InternTable

namespace TypeData

def structuralKey : TypeData → Option (StructuralKind × InternedType)
  | .struct _ _ | .enum _ _ => none
  | .array element len => some (.array len, element)
  | .ptrConst pointee => some (.ptrConst, pointee)
  | .ptrMut pointee => some (.ptrMut, pointee)
  | .ref referent => some (.ref, referent)
  | .mutRef referent => some (.mutRef, referent)
  | .slice element => some (.slice, element)
  | .mutSlice element => some (.mutSlice, element)
  | .vec element => some (.vec, element)

def structName : TypeData → Option Spur
  | .struct name _ => some name
  | _ => none

def enumName : TypeData → Option Spur
  | .enum name _ => some name
  | _ => none

theorem structuralKey_eq_some {data : TypeData} {key : StructuralKind × InternedType} :
    data.structuralKey = some key ↔ data = StructuralKind.build key := by
  obtain ⟨kind, _⟩ := key
  cases data <;> cases kind <;> simp [structuralKey, StructuralKind.build]
  case array.array => exact and_comm

@[simp] theorem structuralKey_build (key : StructuralKind × InternedType) :
    (StructuralKind.build key).structuralKey = some key := structuralKey_eq_some.2 rfl

@[simp] theorem structName_build (key : StructuralKind × InternedType) :
    (StructuralKind.build key).structName = none := by
  obtain ⟨kind, _⟩ := key
  cases kind <;> rfl

@[simp] theorem enumName_build (key : StructuralKind × InternedType) :
    (StructuralKind.build key).enumName = none := by
  obtain ⟨kind, _⟩ := key
  cases kind <;> rfl

end TypeData

namespace TypeInternPoolInner

open TypeData

variable {pool : TypeInternPoolInner} {pending : List StructId}

/-- The name maps hold exactly the completed entries. -/
structure Registered (pool : TypeInternPoolInner) (pending : List StructId) : Prop where
  canonical : Canonical pool
  structs : Indexed nameOf structName (fun id => id ∉ pending) (fun name => pool.structByName.lookup name) pool.types
  enums : Indexed nameOf enumName (fun _ => True) (fun name => pool.enumByName.lookup name) pool.types
  pending : ∀ id ∈ pending, pool.IsStruct id

theorem lookup_cons_eq (name other : Spur) (interned : InternedType) (rest : List (Spur × InternedType)) :
    ((name, interned) :: rest).lookup other = if other = name then some interned else rest.lookup other := by
  by_cases same : other = name
  · subst same
    simp
  · have differs : (other == name) = false := by simpa using same
    rw [List.lookup_cons, differs, if_neg same]

theorem registered_empty : Registered {} [] :=
  ⟨canonical_empty, indexed_nil fun _ => rfl, indexed_nil fun _ => rfl, by simp⟩

theorem Registered.pending_lt (registered : Registered pool pending) {id : StructId}
    (isPending : id ∈ pending) : id < pool.types.length := by
  obtain ⟨_, _, present⟩ := registered.pending id isPending
  exact (List.getElem?_eq_some_iff.mp present).1

theorem Registered.length_not_pending (registered : Registered pool pending) : pool.types.length ∉ pending :=
  fun isPending => Nat.lt_irrefl _ (registered.pending_lt isPending)

section Calls

variable {pool after : TypeInternPoolInner} {pending : List StructId} (registered : Registered pool pending)

variable {id : StructId} {name : Spur} {definition : StructDef}
variable {isNew : Bool} {kind : StructuralKind}

include registered

theorem Registered.reserve (called : pool.reserveStructId = some (after, id)) : Registered after (id :: pending) := by
  obtain ⟨canonical, keeps, isStruct⟩ := reserveStructId_performed registered.canonical called
  unfold reserveStructId at called
  split at called
  case isFalse => cases called
  case isTrue room =>
      obtain ⟨rfl, rfl⟩ := called
      refine ⟨canonical, ?_, registered.enums.append_unnamed fun _ => rfl, ?_⟩
      · have others : ∀ id < pool.types.length, (id ∉ pending ↔ id ∉ pool.types.length :: pending) := by
          intro id inside
          simp [Nat.ne_of_lt inside]
        refine (registered.structs.active_congr others).append_unnamed ?_
        intro notPending
        exact absurd (List.mem_cons_self ..) notPending
      · intro id isPending
        rcases List.mem_cons.mp isPending with rfl | isPending
        · exact isStruct
        · exact keeps.isStruct (registered.pending id isPending)

theorem Registered.complete (isPending : id ∈ pending)
    (called : pool.completeStructRegistration id name definition = some after) :
    Registered after (pending.filter (· ≠ id)) := by
  have isStruct := registered.pending id isPending
  obtain ⟨canonical, keeps, -⟩ :=
    completeStructRegistration_performed registered.canonical isStruct called
  obtain ⟨_, _, was⟩ := isStruct
  have inside : id < pool.types.length := registered.pending_lt isPending
  unfold completeStructRegistration at called
  rw [if_neg (Nat.not_le.mpr inside)] at called
  split at called
  case isTrue => cases called
  case isFalse fresh =>
      obtain ⟨interned, fits, called⟩ := Option.bind_eq_some_iff.mp called
      obtain ⟨-, rfl⟩ := fromPoolIndex_eq_some fits
      cases called
      refine ⟨canonical, ?_, registered.enums.set_same was rfl, ?_⟩
      · have missed : pool.structByName.lookup name = none := by
          cases held : pool.structByName.lookup name with
          | none => rfl
          | some interned => simp [held] at fresh
        refine registered.structs.activate name id missed ?_ (by simp)
          (by simp [inside, structName]) ?_ ?_ fun other => lookup_cons_eq name other _ _
        · exact fun notPending => absurd isPending notPending
        · intro other differs
          simp [differs]
        · intro other differs
          exact List.getElem?_set_ne differs.symm
      · intro other otherPending
        exact keeps.isStruct (registered.pending other (List.mem_filter.mp otherPending).1)

theorem Registered.registerStruct (called : pool.registerStruct name definition = some (after, id, isNew)) :
    Registered after pending := by
  obtain ⟨canonical, keeps, -⟩ := registerStruct_performed registered.canonical called
  unfold TypeInternPoolInner.registerStruct at called
  split at called
  case h_1 existing found =>
      obtain ⟨_, -, result⟩ := Option.map_eq_some_iff.mp called
      cases result
      exact registered
  case h_2 missed =>
      obtain ⟨_, fits, called⟩ := Option.bind_eq_some_iff.mp called
      obtain ⟨-, rfl⟩ := fromPoolIndex_eq_some fits
      cases called
      refine ⟨canonical, ?_, registered.enums.append_unnamed fun _ => rfl,
        fun other isPending => keeps.isStruct (registered.pending other isPending)⟩
      exact registered.structs.append_keyed missed registered.length_not_pending rfl
        fun other => lookup_cons_eq name other _ _

theorem Registered.registerEnum {definition : EnumDef} {id : EnumId}
    (called : pool.registerEnum name definition = some (after, id, isNew)) :
    Registered after pending := by
  obtain ⟨canonical, keeps, -⟩ := registerEnum_performed registered.canonical called
  unfold TypeInternPoolInner.registerEnum at called
  split at called
  case h_1 existing found =>
      obtain ⟨_, -, result⟩ := Option.map_eq_some_iff.mp called
      cases result
      exact registered
  case h_2 missed =>
      obtain ⟨_, fits, called⟩ := Option.bind_eq_some_iff.mp called
      obtain ⟨-, rfl⟩ := fromPoolIndex_eq_some fits
      cases called
      refine ⟨canonical, registered.structs.append_unnamed fun _ => rfl, ?_,
        fun other isPending => keeps.isStruct (registered.pending other isPending)⟩
      exact registered.enums.append_keyed missed trivial rfl fun other => lookup_cons_eq name other _ _

theorem Registered.updateStructDef (called : pool.updateStructDef id definition = some after) :
    Registered after pending := by
  obtain ⟨canonical, keeps, -⟩ := updateStructDef_performed registered.canonical called
  unfold TypeInternPoolInner.updateStructDef at called
  split at called
  case h_2 => cases called
  case h_1 name oldDefinition was =>
      cases called
      exact ⟨canonical, registered.structs.set_same was rfl, registered.enums.set_same was rfl,
        fun other isPending => keeps.isStruct (registered.pending other isPending)⟩

theorem Registered.updateEnumDef {id : EnumId} {definition : EnumDef}
    (called : pool.updateEnumDef id definition = some after) : Registered after pending := by
  obtain ⟨canonical, keeps, -⟩ := updateEnumDef_performed registered.canonical called
  unfold TypeInternPoolInner.updateEnumDef at called
  split at called
  case h_2 => cases called
  case h_1 name oldDefinition was =>
      cases called
      exact ⟨canonical, registered.structs.set_same was rfl, registered.enums.set_same was rfl,
        fun other isPending => keeps.isStruct (registered.pending other isPending)⟩

theorem Registered.intern {component interned : InternedType}
    (called : pool.intern kind component = some (after, interned)) : Registered after pending := by
  obtain ⟨canonical, keeps, -⟩ := intern_performed registered.canonical called
  rw [intern_eq] at called
  unfold internWith at called
  split at called
  case h_1 existing found =>
      cases called
      exact registered
  case h_2 missed =>
      obtain ⟨_, _, called⟩ := Option.bind_eq_some_iff.mp called
      cases called
      refine ⟨canonical, ?_, ?_, fun other isPending => keeps.isStruct (registered.pending other isPending)⟩
      · rw [record_structByName, record_types]
        exact registered.structs.append_unnamed fun _ => structName_build _
      · rw [record_enumByName, record_types]
        exact registered.enums.append_unnamed fun _ => enumName_build _

theorem Registered.internType {component : Ty} {id : Nat}
    (called : pool.internType kind component = some (after, id)) : Registered after pending := by
  rw [internType_eq] at called
  obtain ⟨_, _, called⟩ := Option.bind_eq_some_iff.mp called
  obtain ⟨⟨_, _⟩, interns, called⟩ := Option.bind_eq_some_iff.mp called
  obtain ⟨_, _, result⟩ := Option.bind_eq_some_iff.mp called
  cases result
  exact registered.intern interns

theorem Registered.perform {call : PoolCall} {handle : PoolHandle}
    (other : call.isReservation = false) (performed : pool.perform call = some (after, handle)) :
    Registered after pending := by
  cases call with
  | registerStruct name definition =>
    obtain ⟨⟨reached, id, isNew⟩, called, result⟩ := Option.map_eq_some_iff.mp performed
    cases result
    exact registered.registerStruct called
  | reserveStructId => cases other
  | completeStructRegistration id name definition => cases other
  | registerEnum name definition =>
    obtain ⟨⟨reached, id, isNew⟩, called, result⟩ := Option.map_eq_some_iff.mp performed
    cases result
    exact registered.registerEnum called
  | updateStructDef id definition =>
    obtain ⟨reached, called, result⟩ := Option.map_eq_some_iff.mp performed
    cases result
    exact registered.updateStructDef called
  | updateEnumDef id definition =>
    obtain ⟨reached, called, result⟩ := Option.map_eq_some_iff.mp performed
    cases result
    exact registered.updateEnumDef called
  | intern kind component =>
    obtain ⟨⟨reached, interned⟩, called, rest⟩ := Option.bind_eq_some_iff.mp performed
    obtain ⟨id, -, result⟩ := Option.bind_eq_some_iff.mp rest
    cases result
    exact registered.intern called
  | internType kind component =>
    obtain ⟨interned, -, rest⟩ := Option.bind_eq_some_iff.mp performed
    obtain ⟨⟨reached, id⟩, called, result⟩ := Option.bind_eq_some_iff.mp rest
    cases result
    exact registered.internType called

end Calls

variable {pool : TypeInternPoolInner}

theorem Registers.registered {pending : List StructId} (registers : Registers pool pending) :
    Registered pool pending := by
  induction registers with
  | empty => exact registered_empty
  | reserve before reserved ih => exact ih.reserve reserved
  | complete before isPending completed ih => exact ih.complete isPending completed
  | call before other performed ih => exact ih.perform other performed

structure Rebuilt (pool : TypeInternPoolInner) (types : List TypeData) : Prop where
  sameTypes : pool.types = types
  find : pool.find = lastNamed nameOf structuralKey types
  structs : (fun name => pool.structByName.lookup name) = lastNamed nameOf structName types
  enums : (fun name => pool.enumByName.lookup name) = lastNamed nameOf enumName types

theorem rebuilt_nil : Rebuilt {} [] := by
  refine ⟨rfl, ?_, rfl, rfl⟩
  funext ⟨kind, component⟩
  cases kind <;> rfl

theorem fromPoolIndex_of_room {position : Nat} (room : position + InternedType.primitiveCount < 2 ^ 32) :
    InternedType.fromPoolIndex position = some (nameOf position) := if_pos room

theorem rebuildEntry_build (pool : TypeInternPoolInner) (key : StructuralKind × InternedType) :
    pool.rebuildEntry (StructuralKind.build key) = (InternedType.fromPoolIndex pool.types.length).map fun idx =>
        record key (pool.push (StructuralKind.build key)) idx := by
  obtain ⟨kind, _⟩ := key
  unfold rebuildEntry
  cases InternedType.fromPoolIndex pool.types.length <;> cases kind <;> rfl

theorem find_push (pool : TypeInternPoolInner) (data : TypeData) : (pool.push data).find = pool.find := by
  funext ⟨kind, component⟩
  cases kind <;> rfl

theorem Rebuilt.rebuildEntry {types : List TypeData} (rebuilt : Rebuilt pool types)
    (data : TypeData) (room : types.length + InternedType.primitiveCount < 2 ^ 32) :
    ∃ after, pool.rebuildEntry data = some after ∧ Rebuilt after (types ++ [data]) := by
  obtain ⟨rfl, find, structs, enums⟩ := rebuilt
  have fits := fromPoolIndex_of_room room
  cases keyed : data.structuralKey with
  | some key =>
    obtain rfl := structuralKey_eq_some.1 keyed
    refine ⟨_, by rw [rebuildEntry_build, fits, Option.map_some], ?_, ?_, ?_, ?_⟩
    · rw [record_types]
      rfl
    · funext other
      rw [find_record, find_push, lastNamed_concat, find]
      simp [eq_comm]
    · funext name
      rw [record_structByName, lastNamed_concat, ← structs]
      simp [push]
    · funext name
      rw [record_enumByName, lastNamed_concat, ← enums]
      simp [push]
  | none =>
    cases data with
    | struct name definition =>
      let named := { pool with
        structByName := (name, nameOf pool.types.length) :: pool.structByName }
      refine ⟨named.push (.struct name definition), ?_, rfl, ?_, ?_, ?_⟩
      · simp [TypeInternPoolInner.rebuildEntry, fits, named]
      · funext other
        rw [lastNamed_concat, ← find]
        obtain ⟨kind, component⟩ := other
        cases kind <;> rfl
      · funext other
        rw [lastNamed_concat, ← structs]
        simp [push, named, lookup_cons_eq, structName, eq_comm]
      · funext other
        rw [lastNamed_concat, ← enums]
        rfl
    | enum name definition =>
      let named := { pool with
        enumByName := (name, nameOf pool.types.length) :: pool.enumByName }
      refine ⟨named.push (.enum name definition), ?_, rfl, ?_, ?_, ?_⟩
      · simp [TypeInternPoolInner.rebuildEntry, fits, named]
      · funext other
        rw [lastNamed_concat, ← find]
        obtain ⟨kind, component⟩ := other
        cases kind <;> rfl
      · funext other
        rw [lastNamed_concat, ← structs]
        rfl
      · funext other
        rw [lastNamed_concat, ← enums]
        simp [push, named, lookup_cons_eq, enumName, eq_comm]
    | _ => cases keyed

theorem rebuilt_of_room (types : List TypeData) (room : types.length + InternedType.primitiveCount ≤ 2 ^ 32) :
    ∃ pool, types.foldlM TypeInternPoolInner.rebuildEntry {} = some pool ∧ Rebuilt pool types := by
  induction types using List.reverseRecOn with
  | nil => exact ⟨{}, rfl, rebuilt_nil⟩
  | append_singleton types data ih =>
    rw [List.length_append, List.length_singleton] at room
    obtain ⟨pool, folded, rebuilt⟩ := ih (by omega)
    obtain ⟨after, stepped, rebuilt⟩ := rebuilt.rebuildEntry data (by omega)
    refine ⟨after, ?_, rebuilt⟩
    simp [folded, stepped]

structure Alike (pool other : TypeInternPoolInner) : Prop where
  types : pool.types = other.types
  find : pool.find = other.find
  structs : ∀ name, pool.structByName.lookup name = other.structByName.lookup name
  enums : ∀ name, pool.enumByName.lookup name = other.enumByName.lookup name

inductive AlikeResult {α : Type} :
    Option (TypeInternPoolInner × α) → Option (TypeInternPoolInner × α) → Prop
  | panics : AlikeResult none none
  | returns {pool other : TypeInternPoolInner} (alike : Alike pool other) (answer : α) :
      AlikeResult (some (pool, answer)) (some (other, answer))

theorem AlikeResult.bind {α β : Type} {first second : Option (TypeInternPoolInner × α)}
    {next : TypeInternPoolInner × α → Option (TypeInternPoolInner × β)}
    (alike : AlikeResult first second)
    (goesOn : ∀ pool other answer, Alike pool other → AlikeResult (next (pool, answer)) (next (other, answer))) :
    AlikeResult (first.bind next) (second.bind next) := by
  cases alike with
  | panics => exact .panics
  | returns poolsAlike answer => exact goesOn _ _ answer poolsAlike

theorem AlikeResult.map {α β : Type} {first second : Option (TypeInternPoolInner × α)}
    (alike : AlikeResult first second) (answer : α → β) :
    AlikeResult (first.map fun result => (result.1, answer result.2))
      (second.map fun result => (result.1, answer result.2)) := by
  cases alike with
  | panics => exact .panics
  | returns poolsAlike _ => exact .returns poolsAlike _

theorem AlikeResult.of_eq {α β : Type} {first second : Option α} {other : TypeInternPoolInner}
    (alike : Alike pool other) (same : first = second) (answer : α → β) :
    AlikeResult (first.map fun value => (pool, answer value)) (second.map fun value => (other, answer value)) := by
  subst same
  cases first with
  | none => exact .panics
  | some value => exact .returns alike (answer value)

section Alike

variable {pool other : TypeInternPoolInner} (alike : Alike pool other)
include alike

theorem Alike.push (data : TypeData) : Alike (pool.push data) (other.push data) := by
  obtain ⟨types, find, structs, enums⟩ := alike
  refine ⟨?_, by rw [find_push, find_push, find], structs, enums⟩
  simp [TypeInternPoolInner.push, types]

theorem Alike.set (position : Nat) (data : TypeData) : Alike { pool with types := pool.types.set position data }
      { other with types := other.types.set position data } := by
  obtain ⟨types, find, structs, enums⟩ := alike
  refine ⟨by rw [types], ?_, structs, enums⟩
  exact (find_withNominal pool _ _ _).trans (find.trans (find_withNominal other _ _ _).symm)

theorem Alike.nameStruct (name : Spur) (interned : InternedType) :
    Alike { pool with structByName := (name, interned) :: pool.structByName }
      { other with structByName := (name, interned) :: other.structByName } := by
  obtain ⟨types, find, structs, enums⟩ := alike
  refine ⟨types, ?_, fun key => ?_, enums⟩
  · exact (find_withNominal pool _ _ _).trans (find.trans (find_withNominal other _ _ _).symm)
  · rw [lookup_cons_eq, lookup_cons_eq, structs key]

theorem Alike.nameEnum (name : Spur) (interned : InternedType) :
    Alike { pool with enumByName := (name, interned) :: pool.enumByName }
      { other with enumByName := (name, interned) :: other.enumByName } := by
  obtain ⟨types, find, structs, enums⟩ := alike
  refine ⟨types, ?_, structs, fun key => ?_⟩
  · exact (find_withNominal pool _ _ _).trans (find.trans (find_withNominal other _ _ _).symm)
  · rw [lookup_cons_eq, lookup_cons_eq, enums key]

theorem Alike.record (key : StructuralKind × InternedType) (interned : InternedType) :
    Alike (record key pool interned) (record key other interned) := by
  obtain ⟨types, find, structs, enums⟩ := alike
  refine ⟨by rw [record_types, record_types, types], ?_, ?_, ?_⟩
  · funext asked
    rw [find_record, find_record, find]
  · intro name
    rw [record_structByName, record_structByName, structs name]
  · intro name
    rw [record_enumByName, record_enumByName, enums name]

theorem Alike.registerStruct (name : Spur) (definition : StructDef) :
    AlikeResult (pool.registerStruct name definition) (other.registerStruct name definition) := by
  unfold TypeInternPoolInner.registerStruct
  rw [alike.structs name, alike.types]
  cases other.structByName.lookup name with
  | some existing =>
    dsimp only
    cases existing.poolIndex with
    | none => exact .panics
    | some index => exact .returns alike _
  | none =>
    dsimp only
    cases InternedType.fromPoolIndex other.types.length with
    | none => exact .panics
    | some interned => exact .returns ((alike.push _).nameStruct name interned) _

theorem Alike.registerEnum (name : Spur) (definition : EnumDef) :
    AlikeResult (pool.registerEnum name definition) (other.registerEnum name definition) := by
  unfold TypeInternPoolInner.registerEnum
  rw [alike.enums name, alike.types]
  cases other.enumByName.lookup name with
  | some existing =>
    dsimp only
    cases existing.poolIndex with
    | none => exact .panics
    | some index => exact .returns alike _
  | none =>
    dsimp only
    cases InternedType.fromPoolIndex other.types.length with
    | none => exact .panics
    | some interned => exact .returns ((alike.push _).nameEnum name interned) _

theorem Alike.reserveStructId : AlikeResult pool.reserveStructId other.reserveStructId := by
  unfold TypeInternPoolInner.reserveStructId
  rw [alike.types]
  split
  case isTrue => exact .returns (alike.push _) _
  case isFalse => exact .panics

theorem Alike.completeStructRegistration (id : StructId) (name : Spur) (definition : StructDef) :
    AlikeResult ((pool.completeStructRegistration id name definition).map fun after =>
        (after, PoolAnswer.done))
      ((other.completeStructRegistration id name definition).map fun after =>
        (after, PoolAnswer.done)) := by
  unfold TypeInternPoolInner.completeStructRegistration
  rw [alike.types, alike.structs name]
  split
  case isTrue => exact .panics
  case isFalse inside =>
      split
      case isTrue => exact .panics
      case isFalse fresh =>
          cases InternedType.fromPoolIndex id with
          | none => exact .panics
          | some interned =>
            have after := (alike.set id (.struct name definition)).nameStruct name interned
            rw [alike.types] at after
            exact .returns after _

theorem Alike.updateStructDef (id : StructId) (definition : StructDef) : AlikeResult
      ((pool.updateStructDef id definition).map fun after => (after, PoolAnswer.done))
      ((other.updateStructDef id definition).map fun after => (after, PoolAnswer.done)) := by
  unfold TypeInternPoolInner.updateStructDef
  have after := alike.set id
  rw [alike.types] at after ⊢
  split
  case h_1 name oldDefinition was => exact .returns (after _) _
  case h_2 => exact .panics

theorem Alike.updateEnumDef (id : EnumId) (definition : EnumDef) : AlikeResult
      ((pool.updateEnumDef id definition).map fun after => (after, PoolAnswer.done))
      ((other.updateEnumDef id definition).map fun after => (after, PoolAnswer.done)) := by
  unfold TypeInternPoolInner.updateEnumDef
  have after := alike.set id
  rw [alike.types] at after ⊢
  split
  case h_1 name oldDefinition was => exact .returns (after _) _
  case h_2 => exact .panics

theorem Alike.intern (kind : StructuralKind) (component : InternedType) :
    AlikeResult (pool.intern kind component) (other.intern kind component) := by
  rw [intern_eq, intern_eq, alike.find]
  unfold internWith
  rw [alike.types]
  cases other.find (kind, component) with
  | some existing => exact .returns alike _
  | none =>
    cases InternedType.fromPoolIndex other.types.length with
    | none => exact .panics
    | some interned => exact .returns ((alike.push _).record _ interned) _

theorem Alike.internType (kind : StructuralKind) (component : Ty) :
    AlikeResult (pool.internType kind component) (other.internType kind component) := by
  rw [internType_eq, internType_eq]
  unfold internFromType
  cases typeToInternedRecursive component with
  | none => exact .panics
  | some interned =>
    refine (alike.intern kind interned).bind fun reached otherReached name reachedAlike => ?_
    dsimp only
    cases name.poolIndex with
    | none => exact .panics
    | some id => exact .returns reachedAlike _

theorem Alike.internedToTypeRecursive (ty : InternedType) :
    pool.internedToTypeRecursive ty = other.internedToTypeRecursive ty := by
  simp [TypeInternPoolInner.internedToTypeRecursive, alike.types]

theorem Alike.arrayMap (element : InternedType) (len : Nat) :
    pool.arrayMap.lookup (element, len) = other.arrayMap.lookup (element, len) :=
  congrFun alike.find (.array len, element)

theorem Alike.readBack (id : Nat) (kind : StructuralKind) : pool.readBack id kind = other.readBack id kind := by
  cases kind <;> simp [TypeInternPoolInner.readBack, arrayDef, ptrConstDef, ptrMutDef, refDef, mutRefDef,
      sliceDef, mutSliceDef, vecDef, alike.types, alike.internedToTypeRecursive]

theorem Alike.answer {answer otherAnswer : PoolAnswer} (same : answer = otherAnswer) :
    AlikeResult (some (pool, answer)) (some (other, otherAnswer)) :=
  same ▸ .returns alike answer

end Alike

variable {pool other : TypeInternPoolInner}

theorem mapValues_congr {map other : List (Spur × InternedType)}
    (same : ∀ name, map.lookup name = other.lookup name) : mapValues map = mapValues other := by
  have sameKeys : ((map.map Prod.fst).dedup).Perm ((other.map Prod.fst).dedup) := by
    refine (List.perm_ext_iff_of_nodup (List.nodup_dedup _) (List.nodup_dedup _)).mpr ?_
    intro name
    have isKey : ∀ entries : List (Spur × InternedType),
        name ∈ entries.map Prod.fst ↔ entries.lookup name ≠ none := by
      intro entries
      rw [ne_eq, List.lookup_eq_none_iff]
      simp
    rw [List.mem_dedup, List.mem_dedup, isKey, isKey, same name]
  unfold mapValues
  simp only [same]
  exact Multiset.coe_eq_coe.mpr (sameKeys.filterMap _)

theorem Alike.ask (alike : Alike pool other) (request : PoolRequest) :
    AlikeResult (pool.ask request) (other.ask request) := by
  cases request with
  | registerStruct name definition =>
    exact (alike.registerStruct name definition).map fun (id, isNew) =>
      PoolAnswer.registered id isNew
  | reserveStructId => exact alike.reserveStructId.map PoolAnswer.reserved
  | completeStructRegistration id name definition =>
    exact alike.completeStructRegistration id name definition
  | registerEnum name definition =>
    exact (alike.registerEnum name definition).map fun (id, isNew) =>
      PoolAnswer.registered id isNew
  | updateStructDef id definition => exact alike.updateStructDef id definition
  | updateEnumDef id definition => exact alike.updateEnumDef id definition
  | intern kind component => exact (alike.intern kind component).map PoolAnswer.interned
  | internType kind component => exact (alike.internType kind component).map PoolAnswer.internedId
  | getStructByName name => exact alike.answer (congrArg _ (alike.structs name))
  | getEnumByName name => exact alike.answer (congrArg _ (alike.enums name))
  | getArray element len => exact alike.answer (congrArg _ (alike.arrayMap element len))
  | getArrayByType elementType len =>
    have same : pool.getArrayByType elementType len = other.getArrayByType elementType len := by
      simp [getArrayByType, alike.arrayMap]
    exact .of_eq alike same PoolAnswer.arrayId
  | get ty =>
    have same : pool.get ty = other.get ty := by
      simp [get, alike.types]
    exact .of_eq alike same PoolAnswer.data
  | structDef id =>
    have same : pool.structDef id = other.structDef id := by
      simp [structDef, alike.types]
    exact .of_eq alike same PoolAnswer.structDef
  | enumDef id =>
    have same : pool.enumDef id = other.enumDef id := by
      simp only [enumDef, alike.types]
    exact .of_eq alike same PoolAnswer.enumDef
  | readBack id kind => exact .of_eq alike (alike.readBack id kind) PoolAnswer.component
  | allStructIds =>
    refine alike.answer (congrArg _ ?_)
    rw [allStructIds, allStructIds, mapValues_congr alike.structs]
  | allEnumIds =>
    refine alike.answer (congrArg _ ?_)
    rw [allEnumIds, allEnumIds, mapValues_congr alike.enums]
  | allArrayIds => exact alike.answer (by rw [allArrayIds, allArrayIds, alike.types])
  | allVecIds => exact alike.answer (by rw [allVecIds, allVecIds, alike.types])
  | len => exact alike.answer (by rw [alike.types])

theorem Alike.answers (alike : Alike pool other) (requests : List PoolRequest) :
    pool.answers requests = other.answers requests := by
  induction requests generalizing pool other with
  | nil => rfl
  | cons request rest ih =>
    unfold TypeInternPoolInner.answers
    generalize asked : pool.ask request = result
    generalize otherAsked : other.ask request = otherResult
    have step := alike.ask request
    rw [asked, otherAsked] at step
    cases step with
    | panics => rfl
    | returns afterAlike answer => simp [ih afterAlike]

theorem Registered.alike_rebuilt {snapshot : TypeInternPoolInner} (registered : Registered pool [])
    (rebuilt : Rebuilt snapshot pool.types) : Alike snapshot pool := by
  have structs : Indexed nameOf structName (fun _ => True) (fun name => pool.structByName.lookup name) pool.types :=
    registered.structs.active_congr (by simp)
  have exact := registered.canonical.exact.indexed fun _ _ => structuralKey_eq_some
  refine ⟨rebuilt.sameTypes, rebuilt.find.trans exact.eq_lastNamed.symm, fun name => ?_, fun name => ?_⟩
  · exact congrFun (rebuilt.structs.trans structs.eq_lastNamed.symm) name
  · exact congrFun (rebuilt.enums.trans registered.enums.eq_lastNamed.symm) name

theorem Registers.alike_rebuilt (registers : Registers pool []) :
    ∃ snapshot, pool.types.foldlM rebuildEntry {} = some snapshot ∧ Alike snapshot pool := by
  have registered := registers.registered
  obtain ⟨snapshot, folded, rebuilt⟩ := rebuilt_of_room pool.types registered.canonical.room
  exact ⟨snapshot, folded, registered.alike_rebuilt rebuilt⟩

/-- A pool with no open reservation and its snapshot, whether cloned or written and read
back, answer every further sequence of requests alike. -/
theorem snapshot_answers {pool : TypeInternPoolInner} (registers : Registers pool [])
    (codec : Cache.Codec (List TypeData)) :
    (∃ snapshot, pool.cloneSnapshot = some snapshot ∧ ∀ requests, snapshot.answers requests = pool.answers requests) ∧
    ∀ bytes, pool.serialize codec = some bytes → ∃ snapshot, deserialize codec bytes = some snapshot ∧
        ∀ requests, snapshot.answers requests = pool.answers requests := by
  obtain ⟨snapshot, folded, alike⟩ := registers.alike_rebuilt
  refine ⟨⟨snapshot, folded, alike.answers⟩, fun bytes written => ⟨snapshot, ?_, alike.answers⟩⟩
  rw [deserialize, codec.decode_encode written]
  exact folded

/-- The wire form of the one-entry list `Vec(i32)`: its length, the variant's number
and the element's index. -/
def vecOfI32Codec : Cache.Codec (List TypeData) where
  encode types := if types = [.vec ⟨2⟩] then some [1, 9, 2] else none
  decode bytes := if bytes = [1, 9, 2] then some [.vec ⟨2⟩] else none
  decode_encode := by
    intro types bytes written
    split at written
    case isTrue same =>
        cases written
        rw [if_pos rfl, same]
    case isFalse => cases written

theorem vecOfI32_snapshot_answers : ∃ pool : TypeInternPoolInner, pool.types = [.vec ⟨2⟩] ∧
      (∃ snapshot, pool.cloneSnapshot = some snapshot ∧
        ∀ requests, snapshot.answers requests = pool.answers requests) ∧
      ∃ snapshot, deserialize vecOfI32Codec [1, 9, 2] = some snapshot ∧
        ∀ requests, snapshot.answers requests = pool.answers requests := by
  let pool : TypeInternPoolInner := { types := [.vec ⟨2⟩], vecMap := [(⟨2⟩, ⟨34⟩)] }
  have registers : Registers pool [] := by
    have interned : ({} : TypeInternPoolInner).perform (.intern .vec ⟨2⟩) = some (pool, .structural .vec ⟨2⟩ 0) := rfl
    exact .call .empty rfl interned
  have contract := snapshot_answers registers vecOfI32Codec
  exact ⟨pool, rfl, contract.1, contract.2 [1, 9, 2] rfl⟩

end TypeInternPoolInner

end Gruel
