import Gruel.AnonTypesCore

/-!
Anonymous types are structural in every run whose calls are told apart by what is written:
the type that is found is the one an earlier call made for the same structure.
-/

namespace Gruel

namespace AnonTypes

open Comptime (ConstValue)
open FindOrMake

section Registry

variable {Listed : Type}
variable {Stored : Type} {registry : Registry Listed} {other : Nat}

theorem lookup_none_of_fresh {entries : List (Nat × Stored)} {id : Nat}
    (fresh : ∀ entry ∈ entries, entry.1 < id) : entries.lookup id = none := by
  refine List.lookup_eq_none_iff.mpr fun entry member => ?_
  have below := fresh entry member
  simp only [bne_iff_ne, ne_eq]
  omega

theorem lookup_store (entries : List (Nat × List Stored)) (id : Nat) (stored : List Stored) (other : Nat) :
    ((if stored.isEmpty then entries else (id, stored) :: entries).lookup other).getD [] =
      if other = id ∧ stored.isEmpty = false then stored else (entries.lookup other).getD [] := by
  cases stored with
  | nil => simp
  | cons first rest =>
    by_cases same : other = id
    · subst same
      simp
    · have differs : (other == id) = false := by simpa using same
      simp [List.lookup_cons, differs, same]

theorem methodSigsOf_store_self {id : Nat} (fresh : ∀ entry ∈ registry.anonMethodSigs, entry.1 < id)
    (methodSigs : List AnonMethodSig) (capturedValues : CapturedValues) :
    (registry.store id methodSigs capturedValues).methodSigsOf id = methodSigs := by
  simp only [Registry.methodSigsOf, Registry.store, lookup_store, lookup_none_of_fresh fresh]
  cases methodSigs <;> rfl

theorem methodSigsOf_store_of_ne (registry : Registry Listed) {id : Nat} (ne : other ≠ id)
    (methodSigs : List AnonMethodSig) (capturedValues : CapturedValues) :
    (registry.store id methodSigs capturedValues).methodSigsOf other = registry.methodSigsOf other := by
  simp only [Registry.methodSigsOf, Registry.store, lookup_store, ne, false_and, if_false]

theorem capturedValuesOf_store_self {id : Nat}
    (fresh : ∀ entry ∈ registry.anonCapturedValues, entry.1 < id) (methodSigs : List AnonMethodSig)
    (capturedValues : CapturedValues) :
    (registry.store id methodSigs capturedValues).capturedValuesOf id = capturedValues := by
  simp only [Registry.capturedValuesOf, Registry.store, lookup_store, lookup_none_of_fresh fresh]
  cases capturedValues <;> rfl

theorem capturedValuesOf_store_of_ne (registry : Registry Listed) {id : Nat} (ne : other ≠ id)
    (methodSigs : List AnonMethodSig) (capturedValues : CapturedValues) :
    (registry.store id methodSigs capturedValues).capturedValuesOf other = registry.capturedValuesOf other := by
  simp only [Registry.capturedValuesOf, Registry.store, lookup_store, ne, false_and, if_false]

theorem mem_store {entries : List (Nat × List Stored)} {id : Nat} {stored : List Stored} {entry : Nat × List Stored}
    (member : entry ∈ if stored.isEmpty then entries else (id, stored) :: entries) :
    entry.1 = id ∨ entry ∈ entries := by
  split at member
  case isTrue => exact .inr member
  case isFalse =>
      rcases List.mem_cons.mp member with rfl | inside
      · exact .inl rfl
      · exact .inr inside

theorem matching_iff [DecidableEq Listed] {stem : List Char} {listed : Listed}
    {methodSigs : List AnonMethodSig} {capturedValues : CapturedValues}
    {entry : Registered Listed} :
    matching stem registry listed methodSigs capturedValues entry = true ↔
      stem <+: entry.name ∧ entry.listed = listed ∧ registry.methodSigsOf entry.id = methodSigs ∧
        capturesMatch (registry.capturedValuesOf entry.id) capturedValues = true := by
  simp [matching, Bool.and_eq_true, decide_eq_true_eq, and_assoc]

end Registry

variable {Content : Type}

structure Stores {Listed : Type} (shapeOf : Listed → Shape) (handleOf : Nat → Handle)
    (registry : Registry Listed) (made : Answered Content) (entry : Registered Listed) : Prop where
  handle : made.handle = handleOf entry.id
  shape : made.call.shape = shapeOf entry.listed
  methodSigs : registry.methodSigsOf entry.id = made.call.methodSigs
  captured : registry.capturedValuesOf entry.id = made.call.capturedValues

structure Covers {Listed : Type} (shapeOf : Listed → Shape) (handleOf : Nat → Handle)
    (stem : List Char) (poolLen : Nat) (history : List (Answered Content))
    (registry : Registry Listed) : Prop where
  ids : ∀ entry ∈ registry.byName, entry.id < poolLen
  sigIds : ∀ entry ∈ registry.anonMethodSigs, entry.1 < poolLen
  capturedIds : ∀ entry ∈ registry.anonCapturedValues, entry.1 < poolLen
  made : ∀ entry ∈ registry.byName, entry.declared = false →
    ∃ made ∈ history, made.isNew = true ∧ Stores shapeOf handleOf registry made entry
  kept : ∀ made ∈ history, made.isNew = true → ∀ id, made.handle = handleOf id →
    ∃ entry ∈ registry.byName, entry.declared = false ∧ stem <+: entry.name ∧
      Stores shapeOf handleOf registry made entry

section Covers

variable {Listed : Type} {shapeOf : Listed → Shape} {handleOf : Nat → Handle} {stem : List Char}
  {poolLen : Nat} {history : List (Answered Content)} {registry : Registry Listed}

variable {name : List Char} {listed : Listed}

theorem Covers.grow (covers : Covers shapeOf handleOf stem poolLen history registry) {more : Nat}
    (grown : poolLen ≤ more) : Covers shapeOf handleOf stem more history registry where
  ids := fun entry member => Nat.lt_of_lt_of_le (covers.ids entry member) grown
  sigIds := fun entry member => Nat.lt_of_lt_of_le (covers.sigIds entry member) grown
  capturedIds := fun entry member => Nat.lt_of_lt_of_le (covers.capturedIds entry member) grown
  made := covers.made
  kept := covers.kept

theorem Covers.answer (covers : Covers shapeOf handleOf stem poolLen history registry) {answer : Answered Content}
    (other : answer.isNew = true → ∀ id, answer.handle ≠ handleOf id) :
    Covers shapeOf handleOf stem poolLen (answer :: history) registry where
  ids := covers.ids
  sigIds := covers.sigIds
  capturedIds := covers.capturedIds
  made := by
    intro entry member anonymous
    obtain ⟨made, inside, rest⟩ := covers.made entry member anonymous
    exact ⟨made, List.mem_cons_of_mem _ inside, rest⟩
  kept := by
    intro made member isNew id handle
    rcases List.mem_cons.mp member with rfl | earlier
    · exact absurd handle (other isNew id)
    · exact covers.kept made earlier isNew id handle

theorem Covers.declare (covers : Covers shapeOf handleOf stem poolLen history registry) :
    Covers shapeOf handleOf stem (poolLen + 1) history (registry.register ⟨name, poolLen, listed, true⟩) where
  ids := by
    intro entry member
    rcases List.mem_cons.mp member with rfl | inside
    · exact Nat.lt_succ_self _
    · exact Nat.lt_succ_of_lt (covers.ids entry inside)
  sigIds := fun entry member => Nat.lt_succ_of_lt (covers.sigIds entry member)
  capturedIds := fun entry member => Nat.lt_succ_of_lt (covers.capturedIds entry member)
  made := by
    intro entry member anonymous
    rcases List.mem_cons.mp member with rfl | inside
    · cases anonymous
    · obtain ⟨made, answered, isNew, stores⟩ := covers.made entry inside anonymous
      exact ⟨made, answered, isNew, stores.handle, stores.shape, stores.methodSigs, stores.captured⟩
  kept := by
    intro made member isNew id handle
    obtain ⟨entry, inside, anonymous, named, stores⟩ := covers.kept made member isNew id handle
    exact ⟨entry, List.mem_cons_of_mem _ inside, anonymous, named, stores.handle, stores.shape,
      stores.methodSigs, stores.captured⟩

theorem Covers.create (covers : Covers shapeOf handleOf stem poolLen history registry)
    {answer : Answered Content} (named : stem <+: name) (handle : answer.handle = handleOf poolLen)
    (shape : answer.call.shape = shapeOf listed) (isNew : answer.isNew = true) :
    Covers shapeOf handleOf stem (poolLen + 1) (answer :: history)
      ((registry.register ⟨name, poolLen, listed, false⟩).store poolLen answer.call.methodSigs
        answer.call.capturedValues) := by
  have newStores : Stores shapeOf handleOf
      ((registry.register ⟨name, poolLen, listed, false⟩).store poolLen answer.call.methodSigs
        answer.call.capturedValues) answer ⟨name, poolLen, listed, false⟩ := by
    refine ⟨handle, shape, ?_, ?_⟩
    · exact methodSigsOf_store_self covers.sigIds _ answer.call.capturedValues
    · exact capturedValuesOf_store_self covers.capturedIds answer.call.methodSigs _
  have oldStores : ∀ (made : Answered Content) (entry : Registered Listed), entry ∈ registry.byName →
      Stores shapeOf handleOf registry made entry → Stores shapeOf handleOf
        ((registry.register ⟨name, poolLen, listed, false⟩).store poolLen answer.call.methodSigs
          answer.call.capturedValues) made entry := by
    intro made entry member stores
    have ne : entry.id ≠ poolLen := Nat.ne_of_lt (covers.ids entry member)
    refine ⟨stores.handle, stores.shape, ?_, ?_⟩
    · rw [methodSigsOf_store_of_ne _ ne]
      exact stores.methodSigs
    · rw [capturedValuesOf_store_of_ne _ ne]
      exact stores.captured
  constructor
  case ids =>
      intro entry member
      rcases List.mem_cons.mp member with rfl | inside
      · exact Nat.lt_succ_self _
      · exact Nat.lt_succ_of_lt (covers.ids entry inside)
  case sigIds =>
      intro entry member
      rcases mem_store member with own | inside
      · exact own ▸ Nat.lt_succ_self _
      · exact Nat.lt_succ_of_lt (covers.sigIds entry inside)
  case capturedIds =>
      intro entry member
      rcases mem_store member with own | inside
      · exact own ▸ Nat.lt_succ_self _
      · exact Nat.lt_succ_of_lt (covers.capturedIds entry inside)
  case made =>
      intro entry member anonymous
      rcases List.mem_cons.mp member with rfl | inside
      · exact ⟨answer, (.head _), isNew, newStores⟩
      · obtain ⟨made, answered, makes, stores⟩ := covers.made entry inside anonymous
        exact ⟨made, List.mem_cons_of_mem _ answered, makes, oldStores made entry inside stores⟩
  case kept =>
      intro made member makes id madeHandle
      rcases List.mem_cons.mp member with rfl | earlier
      · exact ⟨_, (.head _), rfl, named, newStores⟩
      · obtain ⟨entry, inside, anonymous, entryNamed, stores⟩ :=
          covers.kept made earlier makes id madeHandle
        exact ⟨entry, List.mem_cons_of_mem _ inside, anonymous, entryNamed, oldStores made entry inside stores⟩

end Covers

def Fits (made call : AnonCall Content) : Prop := made.shape = call.shape ∧ SameWritten made call

def Answered.answer (answered : Answered Content) : Answer (AnonCall Content) Handle :=
  ⟨answered.call, answered.handle, answered.isNew, answered.unique⟩

def Handle.id : Handle → Nat
  | .struct id => id
  | .enum id => id

def OfKind (answered : Answered Content) : Prop :=
  (∃ id fields, answered.handle = .struct id ∧ answered.call.shape = .struct fields) ∨
    ∃ id variants, answered.handle = .enum id ∧ answered.call.shape = .enum variants

structure Reflects (history : List (Answered Content)) (sema : Sema) : Prop where
  answers : Answers Fits (history.map Answered.answer)
  structs : Covers Shape.struct Handle.struct structStem sema.poolLen history sema.structs
  enums : Covers Shape.enum Handle.enum enumStem sema.poolLen history sema.enums
  -- Names of anonymous enums count the enums before them.
  enumNames : ∀ entry ∈ sema.enums.byName, entry.declared = false →
    ∃ count < sema.enums.byName.length, entry.name = enumStem ++ Spelling.decimal count
  kinds : ∀ answered ∈ history, OfKind answered
  below : ∀ answered ∈ history, answered.handle.id < sema.poolLen
  small : ∀ answered ∈ history, answered.handle.id < 2 ^ 24
  isNew_iff : ∀ answered ∈ history, answered.unique = false →
    (answered.isNew = true ↔ ¬ answered.before.Has answered.handle.ty)

theorem packedId_eq {id : Nat} (small : id < 2 ^ 24) : TypeInternPoolInner.packedId id = id :=
  Nat.mod_eq_of_lt small

theorem handle_eq_of_ty {first second : Handle} (small : first.id < 2 ^ 24)
    (otherSmall : second.id < 2 ^ 24) (same : first.ty = second.ty) : first = second := by
  cases first <;> cases second
  case struct.struct first second =>
      have ids : TypeInternPoolInner.packedId first = TypeInternPoolInner.packedId second :=
        Ty.struct.inj same
      rw [@packedId_eq first small, @packedId_eq second otherSmall] at ids
      rw [ids]
  case enum.enum first second =>
      have ids : TypeInternPoolInner.packedId first = TypeInternPoolInner.packedId second :=
        Ty.enum.inj same
      rw [@packedId_eq first small, @packedId_eq second otherSmall] at ids
      rw [ids]
  case struct.enum => cases same
  case enum.struct => cases same

section Search

variable {Listed : Type} [DecidableEq Listed] {shapeOf : Listed → Shape} {handleOf : Nat → Handle}
  {stem : List Char} {poolLen : Nat} {history : List (Answered Content)}
  {registry : Registry Listed} {call : AnonCall Content} {listed : Listed}
  (covers : Covers shapeOf handleOf stem poolLen history registry)
  {order : List (Registered Listed) → List (Registered Listed)}
  (walks : (order registry.byName).Perm registry.byName) (shape : call.shape = shapeOf listed)
include covers walks shape

theorem fits_of_found (undeclared : ∀ entry ∈ registry.byName, entry.declared = true →
      ¬ stem <+: entry.name) {entry : Registered Listed}
    (found : (order registry.byName).find?
      (matching stem registry listed call.methodSigs call.capturedValues) = some entry) :
    entry ∈ registry.byName ∧ ∃ made ∈ history, made.isNew = true ∧
      made.handle = handleOf entry.id ∧ Fits made.call call := by
  have member := walks.mem_iff.mp (List.mem_of_find?_eq_some found)
  obtain ⟨named, same, methodSigs, captured⟩ := matching_iff.1 (List.find?_some found)
  have anonymous : entry.declared = false := by
    by_contra declared
    exact undeclared entry member (by simpa using declared) named
  obtain ⟨made, answered, isNew, stores⟩ := covers.made entry member anonymous
  refine ⟨member, made, answered, isNew, stores.handle, ?_, ?_, ?_⟩
  · rw [stores.shape, same, shape]
  · rw [← stores.methodSigs, methodSigs]
  · rw [← stores.captured]
    exact captured

theorem unfit_of_missing (kind : ∀ made ∈ history, made.call.shape = call.shape →
      ∃ id, made.handle = handleOf id) (injective : Function.Injective shapeOf)
    (missing : (order registry.byName).find?
      (matching stem registry listed call.methodSigs call.capturedValues) = none) :
    ∀ made ∈ history, made.isNew = true → ¬ Fits made.call call := by
  rintro made member isNew ⟨sameShape, methodSigs, captured⟩
  obtain ⟨id, handle⟩ := kind made member sameShape
  obtain ⟨entry, inside, -, named, stores⟩ := covers.kept made member isNew id handle
  refine List.find?_eq_none.mp missing entry (walks.mem_iff.mpr inside) (matching_iff.2 ?_)
  refine ⟨named, injective ?_, ?_, ?_⟩
  · rw [← stores.shape, sameShape, shape]
  · rw [stores.methodSigs, methodSigs]
  · rw [stores.captured]
    exact captured

end Search

variable {sema after : Sema} {fields : List StructField}
variable {handle : Handle} {variants : List EnumVariantDef}
variable {history : List (Answered Content)} {call : AnonCall Content}

theorem Reflects.found {history : List (Answered Content)} {sema : Sema}
    (reflects : Reflects history sema) {made answered : Answered Content} (member : made ∈ history)
    (isMaker : made.isNew = true) (fits : Fits made.call answered.call)
    (handle : answered.handle = made.handle) (old : answered.isNew = false)
    (shared : answered.unique = false) (kind : OfKind answered)
    (has : answered.before.Has answered.handle.ty) : Reflects (answered :: history) sema where
  answers := by
    have found := Answers.found reflects.answers (List.mem_map_of_mem (f := Answered.answer) member) isMaker fits
    have same : answered.answer = ⟨answered.call, made.handle, false, false⟩ := by
      rw [Answered.answer, handle, old, shared]
    rw [List.map_cons, same]
    exact found
  structs := reflects.structs.answer fun isNew => by rw [old] at isNew; cases isNew
  enums := reflects.enums.answer fun isNew => by rw [old] at isNew; cases isNew
  enumNames := reflects.enumNames
  kinds := List.forall_mem_cons.mpr ⟨kind, reflects.kinds⟩
  below := List.forall_mem_cons.mpr ⟨handle ▸ reflects.below made member, reflects.below⟩
  small := List.forall_mem_cons.mpr ⟨handle ▸ reflects.small made member, reflects.small⟩
  isNew_iff := by
    refine List.forall_mem_cons.mpr ⟨fun _ => ?_, reflects.isNew_iff⟩
    rw [old]
    exact ⟨fun impossible => (Bool.false_ne_true impossible).elim, fun absent => absurd has absent⟩

theorem Reflects.fresh (reflects : Reflects history sema) (next : handle.id = sema.poolLen) :
    ∀ earlier ∈ history.map Answered.answer, earlier.id ≠ handle := by
  intro earlier member same
  obtain ⟨answered, inside, rfl⟩ := List.mem_map.mp member
  have below := reflects.below answered inside
  have equal : answered.handle = handle := same
  rw [equal, next] at below
  exact Nat.lt_irrefl _ below

theorem Reflects.not_has (reflects : Reflects history sema) (room : Room sema)
    (next : handle.id = sema.poolLen) : ¬ sema.Has handle.ty := by
  have small : handle.id < 2 ^ 24 := next ▸ room
  rintro (⟨entry, member, same⟩ | ⟨entry, member, same⟩)
  · have below := reflects.structs.ids entry member
    have equal := handle_eq_of_ty small (Nat.lt_trans below room) same
    rw [equal] at next
    exact absurd next (Nat.ne_of_lt below)
  · have below := reflects.enums.ids entry member
    have equal := handle_eq_of_ty small (Nat.lt_trans below room) same
    rw [equal] at next
    exact absurd next (Nat.ne_of_lt below)

theorem Reflects.made {history : List (Answered Content)} {sema after : Sema}
    (reflects : Reflects history sema) {answered : Answered Content} (room : Room sema)
    (before : answered.before = sema) (isNew : answered.isNew = true)
    (next : answered.handle.id = sema.poolLen) (grown : after.poolLen = sema.poolLen + 1)
    (unfit : answered.unique = false → ∀ made ∈ history, made.isNew = true → ¬ Fits made.call answered.call)
    (kind : OfKind answered)
    (structs : Covers Shape.struct Handle.struct structStem after.poolLen (answered :: history) after.structs)
    (enums : Covers Shape.enum Handle.enum enumStem after.poolLen (answered :: history) after.enums)
    (enumNames : ∀ entry ∈ after.enums.byName, entry.declared = false →
      ∃ count < after.enums.byName.length, entry.name = enumStem ++ Spelling.decimal count) :
    Reflects (answered :: history) after where
  answers := by
    have fresh := reflects.fresh next
    rw [List.map_cons]
    cases isUnique : answered.unique with
    | true =>
      have same : answered.answer = ⟨answered.call, answered.handle, true, true⟩ := by
        rw [Answered.answer, isNew, isUnique]
      rw [same]
      exact .unique reflects.answers fresh
    | false =>
      have same : answered.answer = ⟨answered.call, answered.handle, true, false⟩ := by
        rw [Answered.answer, isNew, isUnique]
      rw [same]
      refine .made reflects.answers ?_ fresh
      intro made member isMaker
      obtain ⟨earlier, inside, rfl⟩ := List.mem_map.mp member
      exact unfit isUnique earlier inside isMaker
  structs := structs
  enums := enums
  enumNames := enumNames
  kinds := List.forall_mem_cons.mpr ⟨kind, reflects.kinds⟩
  below := by
    rw [grown]
    refine List.forall_mem_cons.mpr ⟨next ▸ Nat.lt_succ_self _, fun earlier member => ?_⟩
    exact Nat.lt_succ_of_lt (reflects.below earlier member)
  small := List.forall_mem_cons.mpr ⟨next ▸ room, reflects.small⟩
  isNew_iff := by
    refine List.forall_mem_cons.mpr ⟨fun _ => ?_, reflects.isNew_iff⟩
    rw [before]
    exact ⟨fun _ => reflects.not_has room next, fun _ => isNew⟩

theorem Reflects.grow (reflects : Reflects history sema) (grown : sema.poolLen ≤ after.poolLen)
    (structs : Covers Shape.struct Handle.struct structStem after.poolLen history after.structs)
    (enums : Covers Shape.enum Handle.enum enumStem after.poolLen history after.enums)
    (enumNames : ∀ entry ∈ after.enums.byName, entry.declared = false →
      ∃ count < after.enums.byName.length, entry.name = enumStem ++ Spelling.decimal count) :
    Reflects history after where
  answers := reflects.answers
  structs := structs
  enums := enums
  enumNames := enumNames
  kinds := reflects.kinds
  below := fun answered member => Nat.lt_of_lt_of_le (reflects.below answered member) grown
  small := reflects.small
  isNew_iff := reflects.isNew_iff

theorem createUniqueAnonStruct_eq {methodSigs : List AnonMethodSig} {capturedValues : CapturedValues} {id : Nat}
    (returned : createUniqueAnonStruct sema fields methodSigs capturedValues = some (after, id)) :
    id = sema.poolLen ∧ after = { sema with
        poolLen := sema.poolLen + 1
        structs := (sema.structs.register
          ⟨structStem ++ Spelling.decimal sema.poolLen, sema.poolLen, fields, false⟩).store
            sema.poolLen methodSigs capturedValues } := by
  unfold createUniqueAnonStruct at returned
  dsimp only at returned
  split at returned
  case isTrue => cases returned
  case isFalse =>
      cases returned
      exact ⟨rfl, rfl⟩

theorem registerEnum_cases {name : List Char} {declared : Bool} {id : Nat}
    (returned : registerEnum sema name variants declared = some (after, id)) :
    (∃ existing ∈ sema.enums.byName, existing.name = name ∧ after = sema ∧ id = existing.id) ∨
      (id = sema.poolLen ∧ after = { sema with
        poolLen := sema.poolLen + 1
        enums := sema.enums.register ⟨name, sema.poolLen, variants, declared⟩ }) := by
  unfold registerEnum at returned
  split at returned
  case h_1 existing found =>
      cases returned
      exact .inl ⟨existing, List.mem_of_find?_eq_some found, by simpa using List.find?_some found, rfl, rfl⟩
  case h_2 =>
      split at returned
      case isTrue => cases returned
      case isFalse =>
          cases returned
          exact .inr ⟨rfl, rfl⟩

theorem Reflects.createStruct (reflects : Reflects history sema) (room : Room sema) {id : Nat}
    (shape : call.shape = .struct fields)
    (returned : createUniqueAnonStruct sema fields call.methodSigs call.capturedValues =
      some (after, id)) {unique : Bool}
    (unfit : unique = false → ∀ made ∈ history, made.isNew = true → ¬ Fits made.call call) :
    Reflects (⟨call, .struct id, true, unique, sema⟩ :: history) after := by
  obtain ⟨rfl, rfl⟩ := createUniqueAnonStruct_eq returned
  refine reflects.made room rfl rfl rfl rfl unfit (.inl ⟨_, fields, rfl, shape⟩) ?_ ?_ ?_
  · exact reflects.structs.create (List.prefix_append _ _) rfl shape rfl
  · exact (reflects.enums.answer fun _ _ => Handle.noConfusion).grow (Nat.le_succ _)
  · exact reflects.enumNames

theorem struct_of_shape (reflects : Reflects history sema) (shape : call.shape = .struct fields) :
    ∀ made ∈ history, made.call.shape = call.shape → ∃ id, made.handle = Handle.struct id := by
  intro made member same
  rcases reflects.kinds made member with ⟨id, _, handle, _⟩ | ⟨_, _, _, otherShape⟩
  · exact ⟨id, handle⟩
  · rw [same, shape] at otherShape
    cases otherShape

theorem enum_of_shape (reflects : Reflects history sema) (shape : call.shape = .enum variants) :
    ∀ made ∈ history, made.call.shape = call.shape → ∃ id, made.handle = Handle.enum id := by
  intro made member same
  rcases reflects.kinds made member with ⟨_, _, _, otherShape⟩ | ⟨id, _, handle, _⟩
  · rw [same, shape] at otherShape
    cases otherShape
  · exact ⟨id, handle⟩

section Steps

variable {order : MapOrder} (walks : order.Walks)
variable {history : List (Answered Content)} {sema after : Sema} {call : AnonCall Content} {isNew : Bool}

include walks

theorem Reflects.findStruct (reflects : Reflects history sema) (room : Room sema)
    {fields : List StructField} {id : Nat} (shape : call.shape = .struct fields)
    (clear : Clear history ⟨call, .struct id, isNew, false, sema⟩)
    (returned : findOrCreateAnonStruct order sema fields call.methodSigs call.capturedValues =
      some (after, id, isNew)) :
    Reflects (⟨call, .struct id, isNew, false, sema⟩ :: history) after := by
  unfold findOrCreateAnonStruct at returned
  split at returned
  case h_1 entry found =>
      cases returned
      obtain ⟨member, made, answered, isMaker, handle, fits⟩ :=
        fits_of_found reflects.structs (walks.structs _) shape clear.structNames found
      exact reflects.found answered isMaker fits handle.symm rfl rfl (.inl ⟨_, _, rfl, shape⟩)
        (.inl ⟨entry, member, rfl⟩)
  case h_2 missing =>
      obtain ⟨⟨_, _⟩, made, same⟩ := Option.map_eq_some_iff.mp returned
      cases same
      refine reflects.createStruct room shape made fun _ => ?_
      exact unfit_of_missing reflects.structs (walks.structs _) shape
        (struct_of_shape reflects shape) (fun _ _ => Shape.struct.inj) missing

theorem Reflects.findEnum (reflects : Reflects history sema) (room : Room sema)
    {variants : List EnumVariantDef} {id : Nat} (shape : call.shape = .enum variants)
    (clear : Clear history ⟨call, .enum id, isNew, false, sema⟩)
    (returned : findOrCreateAnonEnum order sema variants call.methodSigs call.capturedValues =
      some (after, id, isNew)) :
    Reflects (⟨call, .enum id, isNew, false, sema⟩ :: history) after := by
  unfold findOrCreateAnonEnum at returned
  split at returned
  case h_1 entry found =>
      cases returned
      obtain ⟨member, made, answered, isMaker, handle, fits⟩ :=
        fits_of_found reflects.enums (walks.enums _) shape clear.enumNames found
      exact reflects.found answered isMaker fits handle.symm rfl rfl (.inr ⟨_, _, rfl, shape⟩)
        (.inr ⟨entry, member, rfl⟩)
  case h_2 missing =>
      obtain ⟨⟨_, _⟩, registered, same⟩ := Option.map_eq_some_iff.mp returned
      cases same
      rcases registerEnum_cases registered with ⟨existing, member, named, -, -⟩ | ⟨rfl, rfl⟩
      · exfalso
        cases anonymous : existing.declared with
        | true => exact clear.enumNames existing member anonymous (named ▸ List.prefix_append _ _)
        | false =>
          obtain ⟨count, below, counted⟩ := reflects.enumNames existing member anonymous
          rw [named] at counted
          have same := Spelling.decimal_injective (List.append_cancel_left counted)
          omega
      · refine reflects.made room rfl rfl rfl rfl (fun _ => ?_) (.inr ⟨_, variants, rfl, shape⟩) ?_ ?_ ?_
        · exact unfit_of_missing reflects.enums (walks.enums _) shape
            (enum_of_shape reflects shape) (fun _ _ => Shape.enum.inj) missing
        · exact (reflects.structs.answer fun _ _ => Handle.noConfusion).grow (Nat.le_succ _)
        · exact reflects.enums.create (List.prefix_append _ _) rfl shape rfl
        · intro entry member anonymous
          rcases List.mem_cons.mp member with rfl | inside
          · exact ⟨sema.enums.byName.length, Nat.lt_succ_self _, rfl⟩
          · obtain ⟨count, below, counted⟩ := reflects.enumNames entry inside anonymous
            exact ⟨count, Nat.lt_succ_of_lt below, counted⟩

theorem Run.reflects (run : Run order history sema) (clear : AllClear history) : Reflects history sema := by
  induction run with
  | start =>
    refine ⟨.start, ?_, ?_, ?_, ?_, ?_, ?_, ?_⟩
    case refine_1 | refine_2 => constructor <;> exact fun _ absent => nomatch absent
    all_goals exact fun _ absent => nomatch absent
  | findStruct ran shape returned ih =>
    exact (ih clear.2.2).findStruct walks clear.1 shape (clear.2.1 rfl) returned
  | findEnum ran shape returned ih =>
    exact (ih clear.2.2).findEnum walks clear.1 shape (clear.2.1 rfl) returned
  | uniqueStruct ran shape returned ih =>
    exact (ih clear.2.2).createStruct clear.1 shape returned fun shared => by cases shared
  | @declareStruct history sema after name fields ran returned ih =>
    have reflects := ih clear
    unfold AnonTypes.declareStruct at returned
    split at returned
    case isTrue =>
        cases returned
        exact reflects
    case isFalse =>
        split at returned
        case isTrue => cases returned
        case isFalse =>
            cases returned
            exact reflects.grow (Nat.le_succ _) reflects.structs.declare
              (reflects.enums.grow (Nat.le_succ _)) reflects.enumNames
  | declareEnum ran returned ih =>
    have reflects := ih clear
    rcases registerEnum_cases returned with ⟨_, _, _, rfl, _⟩ | ⟨rfl, rfl⟩
    · exact reflects
    · refine reflects.grow (Nat.le_succ _) (reflects.structs.grow (Nat.le_succ _)) reflects.enums.declare ?_
      intro entry member anonymous
      rcases List.mem_cons.mp member with rfl | inside
      · cases anonymous
      · obtain ⟨count, below, counted⟩ := reflects.enumNames entry inside anonymous
        exact ⟨count, Nat.lt_succ_of_lt below, counted⟩
  | otherType ran ih =>
    have reflects := ih clear
    exact reflects.grow (Nat.le_succ _) (reflects.structs.grow (Nat.le_succ _))
      (reflects.enums.grow (Nat.le_succ _)) reflects.enumNames

end Steps

variable {history : List (Answered Content)}

theorem sameType_equivalence : Equivalence (@SameType Content) where
  refl _ := ⟨rfl, .refl _, fun _ => rfl⟩
  symm same := ⟨same.shape.symm, same.methods.symm, fun key => (same.captured key).symm⟩
  trans same again := ⟨same.shape.trans again.shape, same.methods.trans again.methods,
    fun key => (same.captured key).trans (again.captured key)⟩

theorem Clear.agrees {earlier : List (Answered Content)} {answer : Answered Content} (clear : Clear earlier answer) :
    Agrees Fits SameType (earlier.map Answered.answer) answer.call where
  shared := by
    intro answered member isNew shared
    obtain ⟨made, inside, rfl⟩ := List.mem_map.mp member
    constructor
    · rintro ⟨shape, written⟩
      obtain ⟨methods, captured⟩ := (clear.shared made inside isNew shared shape).mp written
      exact ⟨shape, methods, captured⟩
    · intro same
      exact ⟨same.shape, (clear.shared made inside isNew shared same.shape).mpr ⟨same.methods, same.captured⟩⟩
  apart := by
    intro answered member isUnique
    obtain ⟨made, inside, rfl⟩ := List.mem_map.mp member
    rintro ⟨shape, written⟩
    exact clear.lambdas made inside isUnique shape written

theorem AllClear.agree (clear : AllClear history) : AllAgree Fits SameType (history.map Answered.answer) := by
  induction history with
  | nil => trivial
  | cons answer earlier ih => exact ⟨fun shared => (clear.2.1 shared).agrees, ih clear.2.2⟩

theorem unique_position (identified : Identified SameType (history.map Answered.answer))
    {position other : Nat} {lambda answer : Answered Content}
    (held : history[position]? = some lambda) (isUnique : lambda.unique = true)
    (otherHeld : history[other]? = some answer) (same : answer.handle = lambda.handle) :
    other = position := by
  have member := List.mem_of_getElem? held
  have otherMember := List.mem_of_getElem? otherHeld
  cases shared : answer.unique with
  | false =>
    refine absurd same.symm (identified.unique_ne lambda.answer ?_ isUnique answer.answer ?_ shared)
    · exact List.mem_map_of_mem member
    · exact List.mem_map_of_mem otherMember
  | true =>
    have ordered := List.pairwise_map.mp identified.uniques
    by_contra apart
    obtain ⟨inBounds, rfl⟩ := List.getElem?_eq_some_iff.mp held
    obtain ⟨otherBounds, rfl⟩ := List.getElem?_eq_some_iff.mp otherHeld
    rcases Nat.lt_or_gt_of_ne apart with before | after
    · exact List.pairwise_iff_getElem.mp ordered other position otherBounds inBounds before shared isUnique same
    · exact List.pairwise_iff_getElem.mp ordered position other inBounds otherBounds after isUnique shared same.symm

/-- In every run whose calls are told apart by what is written, types are found exactly for
the same structure, a lambda's struct is no other call's, and new types did not exist. -/
theorem structural_of_allClear {order : MapOrder} (walks : order.Walks)
    {history : List (Answered Content)} {sema : Sema} (run : Run order history sema)
    (clear : AllClear history) : Structural history := by
  have reflects := run.reflects walks clear
  have identified := identified_of_agree sameType_equivalence reflects.answers clear.agree
  have handles : ∀ first ∈ history, ∀ second ∈ history,
      first.handle.ty = second.handle.ty → first.handle = second.handle := by
    intro first member second otherMember
    exact handle_eq_of_ty (reflects.small first member) (reflects.small second otherMember)
  constructor
  case equal_iff =>
      intro first member shared second otherMember otherShared
      have equal_iff := identified.equal_iff first.answer (List.mem_map_of_mem member) shared
        second.answer (List.mem_map_of_mem otherMember) otherShared
      constructor
      · exact fun same => equal_iff.mp (handles first member second otherMember same)
      · exact fun same => congrArg Handle.ty (equal_iff.mpr same)
  case unique =>
      intro _ lambda held isUnique _ answer otherHeld same
      exact unique_position identified held isUnique otherHeld (handles answer
        (List.mem_of_getElem? otherHeld) lambda (List.mem_of_getElem? held) same)
  case isNew_iff => exact reflects.isNew_iff

/-- `get(self, value: T) -> T` -/
def getSig : AnonMethodSig := ⟨1, true, [2], 2⟩

/-- `struct { n: i32, fn get(self, value: T) -> T { value } }` for a type `T`. -/
def holderOf (ty : Ty) : AnonCall Unit where
  shape := .struct [⟨"n", .i32⟩]
  methodSigs := [getSig]
  capturedValues := []
  resolve := fun _ => .ty ty
  content := fun _ => ()

def asWalked : MapOrder := ⟨id, id⟩

theorem asWalked_walks : asWalked.Walks := ⟨fun _ => .refl _, fun _ => .refl _⟩

def holderSema : Sema where
  poolLen := 1
  structs :=
    { byName := [⟨structStem ++ Spelling.decimal 0, 0, [⟨"n", .i32⟩], false⟩]
      anonMethodSigs := [(0, [getSig])] }

theorem holder_made : findOrCreateAnonStruct asWalked {} [⟨"n", .i32⟩] [getSig] [] =
    some (holderSema, 0, true) := rfl

theorem holder_found : findOrCreateAnonStruct asWalked holderSema [⟨"n", .i32⟩] [getSig] [] =
    some (holderSema, 0, false) := by
  have fits : matching structStem holderSema.structs [⟨"n", .i32⟩] [getSig] []
      ⟨structStem ++ Spelling.decimal 0, 0, [⟨"n", .i32⟩], false⟩ = true :=
    matching_iff.2 ⟨List.prefix_append _ _, rfl, rfl, rfl⟩
  have found : (asWalked.structs holderSema.structs.byName).find?
      (matching structStem holderSema.structs [⟨"n", .i32⟩] [getSig] []) =
        some ⟨structStem ++ Spelling.decimal 0, 0, [⟨"n", .i32⟩], false⟩ :=
    List.find?_cons_of_pos fits
  rw [findOrCreateAnonStruct, found]

theorem holder_run (first second : Ty) : Run asWalked [⟨holderOf second, .struct 0, false, false, holderSema⟩,
      ⟨holderOf first, .struct 0, true, false, {}⟩] holderSema :=
  .findStruct (.findStruct .start rfl holder_made) rfl holder_found

/-- Two requests for one type. -/
theorem holder_structural : Structural [⟨holderOf .i32, .struct 0, false, false, holderSema⟩,
      ⟨holderOf .i32, .struct 0, true, false, {}⟩] := by
  refine structural_of_allClear asWalked_walks (holder_run .i32 .i32)
    ⟨(by decide : 1 < 2 ^ 24), fun _ => ?_, (by decide : 0 < 2 ^ 24), fun _ => ?_, trivial⟩
  · constructor
    case structNames | enumNames => intro _ member _; simp_all [holderSema]
    case shared =>
        intro made member _ _ _
        rw [List.mem_singleton.mp member]
        exact ⟨fun _ => ⟨.refl _, fun _ => rfl⟩, fun _ => ⟨rfl, rfl⟩⟩
    case lambdas =>
        intro made member isUnique
        rw [List.mem_singleton.mp member] at isUnique
        cases isUnique
  · constructor <;> exact fun _ absent => nomatch absent

/-- The second request, for another type, is answered with the first one's struct. -/
theorem holder_conflated : ∃ history sema, Run asWalked history sema ∧ ¬ @Structural Unit history := by
  refine ⟨_, _, holder_run .i32 .bool, fun structural => ?_⟩
  have same := (structural.equal_iff _ (.head _) rfl _ (List.mem_cons_of_mem _ (.head _)) rfl).mp rfl
  have methods := List.perm_singleton.mp same.methods
  cases methods

end AnonTypes

end Gruel
