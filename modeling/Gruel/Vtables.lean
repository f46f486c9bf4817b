import Gruel.VtablesCore
import Gruel.ParamSlots

/-!
Dynamic against direct calls of a struct's method. They agree exactly when the table can be built
and has the method, the signature does not mention `Self` and has no zero-sized parameter, and a
receiver taken by value is of a copyable struct with slots.
-/

namespace Gruel

namespace Vtables

open Params (Param PassMode collectParamTypes paramSlots argTys Param.isByRef)
open ByteMemory (Memory)

variable {Result : Type}

/-- A call of the method in one slot through an interface reference to a struct, with the
functions of the module. The declared methods are those that conform to the interface, and an
argument has a value when its type has an LLVM type. -/
structure DynCall (pool : LayoutPool) (Result : Type) where
  structId : StructId
  interfaceId : InterfaceId
  selfRef : PointeeId
  methods : List InterfaceMethodReq
  witness : List (StructId × String)
  fnMap : String → Option (FnValue Result)
  declared : ∀ req ∈ methods, ∀ actual, fnMap (mangled (pool.structDef structId).name req.name) = some actual →
      actual.ty = declareMethod pool structId selfRef req
  slot : Nat
  req : InterfaceMethodReq
  atSlot : methods[slot]? = some req
  storage : Nat
  args : List (Option LlvmVal)
  valued : List.Forall₂ (fun value ty => value.isSome =
    (gruelTypeToLlvm pool (IfaceTy.substituteSelf (.interface interfaceId) ty)).isSome)
    args req.paramTypes

namespace DynCall

variable {pool : LayoutPool} (call : DynCall pool Result)

def method : Option (FnValue Result) :=
  call.fnMap (mangled (pool.structDef call.structId).name call.req.name)

/-- The table is built, its entry is a function with the type of the call, which is made with the
types of the direct call, does what the direct call does, and leaves the receiver no more owners. -/
structure AgreesWith (vtable : List (Option (FnValue Result))) (entry : FnValue Result)
    (operands : List LlvmVal) : Prop where
  built : buildVtable pool call.structId call.fnMap call.witness call.methods = some vtable
  nonNull : vtable[call.slot]? = some (some entry)
  gathered : dispatchArgs (dataPtr pool call.structId call.storage) call.args = some operands
  signature : entry.ty = dispatchType pool call.interfaceId call.req
  sameParams : call.req.paramTypes.map (IfaceTy.substituteSelf (.interface call.interfaceId)) =
    call.req.paramTypes.map (IfaceTy.substituteSelf (.struct call.structId))
  sameReturn : call.req.returnType.substituteSelf (.interface call.interfaceId) =
    call.req.returnType.substituteSelf (.struct call.structId)
  sameResult : ∃ actual, call.method = some actual ∧ ∀ memory, entry.run operands memory =
    actual.run (directArgs pool call.structId call.req.receiver
      (dataPtr pool call.structId call.storage) call.args memory) memory
  owned : (pool.structDef call.structId).posture = .copy ∨
    (dispatchOwners call.req.receiver).length ≤ (directOwners call.req.receiver).length

def Agrees : Prop := ∃ vtable entry operands, call.AgreesWith vtable entry operands

structure Bridged : Prop where
  witnessed : call.methods.length ≤ call.witness.length
  present : call.method.isSome = true
  lowers : ∀ other ∈ call.methods, ∀ actual,
    call.fnMap (mangled (pool.structDef call.structId).name other.name) = some actual →
      needsTrampoline pool call.structId actual.ty = true →
        (gruelTypeToLlvm pool (.struct call.structId)).isSome = true
  noSelf : (∀ ty ∈ call.req.paramTypes, ty.isSelf = false) ∧ call.req.returnType.isSelf = false
  sized : ∀ ty ∈ call.req.paramTypes.map (IfaceTy.substituteSelf (.struct call.structId)),
    (gruelTypeToLlvm pool ty).isSome = true ∧ 0 < Params.abiSlotCount pool ty
  receiver : call.req.receiver = .byValue → (pool.structDef call.structId).posture = .copy ∧
      0 < Params.abiSlotCount pool (.struct call.structId) ∧
        (gruelTypeToLlvm pool (.struct call.structId)).isSome = true

end DynCall

variable {pool : LayoutPool}

section Table

variable {structId : StructId} {fnMap : String → Option (FnValue Result)} {witness : List (StructId × String)}

theorem vtableSlot_isSome_iff (req : InterfaceMethodReq) :
    (vtableSlot pool structId fnMap req).isSome = true ↔ ∀ actual,
      fnMap (mangled (pool.structDef structId).name req.name) = some actual →
        needsTrampoline pool structId actual.ty = true → (gruelTypeToLlvm pool (.struct structId)).isSome = true := by
  unfold vtableSlot
  cases found : fnMap (mangled (pool.structDef structId).name req.name) with
  | none => simp
  | some actual =>
    by_cases needs : needsTrampoline pool structId actual.ty = true
    · simp [needs, emitVtableTrampoline]
    · simp [needs]

theorem vtableSlots_isSome_iff (methods : List InterfaceMethodReq) (start : Nat) :
    (vtableSlots pool structId fnMap witness methods start).isSome = true ↔
      (∀ index, index < methods.length → start + index < witness.length) ∧
        ∀ req ∈ methods, (vtableSlot pool structId fnMap req).isSome = true := by
  induction methods generalizing start with
  | nil => simp [vtableSlots]
  | cons req rest ih =>
    rw [vtableSlots, List.forall_mem_cons]
    cases own : witness[start]? with
    | none =>
      have short := List.getElem?_eq_none_iff.mp own
      constructor
      · intro isSome
        cases isSome
      · rintro ⟨long, _⟩
        have bound := long 0 (by simp)
        omega
    | some first =>
      have bound := (List.getElem?_eq_some_iff.mp own).1
      have shift : (∀ index, index < (req :: rest).length → start + index < witness.length) ↔
          ∀ index, index < rest.length → start + 1 + index < witness.length := by
        constructor
        · intro long index lower
          have bound := long (index + 1) (by simpa using lower)
          omega
        · intro long index lower
          cases index with
          | zero => omega
          | succ index =>
            have bound := long index (by simpa using lower)
            omega
      rw [shift]
      cases entry : vtableSlot pool structId fnMap req with
      | none => simp
      | some entry =>
        simp only [Option.bind_some, Option.isSome_map, Option.isSome_some, true_and]
        exact ih (start + 1)

theorem vtableSlots_getElem {methods : List InterfaceMethodReq} {start : Nat}
    {entries : List (Option (FnValue Result))}
    (built : vtableSlots pool structId fnMap witness methods start = some entries)
    {slot : Nat} {req : InterfaceMethodReq} (at_ : methods[slot]? = some req) :
    entries[slot]? = vtableSlot pool structId fnMap req := by
  induction methods generalizing start entries slot with
  | nil => simp at at_
  | cons first rest ih =>
    rw [vtableSlots] at built
    split at built
    · cases built
    · obtain ⟨_, isEntry, built⟩ := Option.bind_eq_some_iff.mp built
      obtain ⟨_, builtRest, isEntries⟩ := Option.map_eq_some_iff.mp built
      subst isEntries
      cases slot with
      | zero =>
        cases at_
        rw [isEntry]
        rfl
      | succ slot => exact ih builtRest at_

end Table

def byValueParam (ty : Ty) : Param := ⟨ty, .normal⟩

theorem isFat_byValueParam (ty : Ty) : (byValueParam ty).isFat = false := by
  unfold Param.isFat
  split <;> rfl

theorem llvmTy_byValueParam (ty : Ty) : (byValueParam ty).llvmTy pool = gruelTypeToLlvm pool ty := by
  unfold Param.llvmTy
  split
  · rename_i byRef
    unfold Param.isByRef at byRef
    split at byRef
    · cases byRef
    · rename_i id isRef
      have isTy : ty = .ref id := isRef
      rw [isTy, gruelTypeToLlvm_isLeaf pool rfl]
      rfl
    · rename_i id isMutRef
      have isTy : ty = .mutRef id := isMutRef
      rw [isTy, gruelTypeToLlvm_isLeaf pool rfl]
      rfl
    · cases byRef
  · rfl

theorem slotCount_byValueParam (ty : Ty) : (byValueParam ty).slotCount pool = Params.abiSlotCount pool ty := rfl

theorem argTys_byValueParams (tys : List Ty) :
    argTys pool (tys.map byValueParam) = tys.filterMap (gruelTypeToLlvm pool) := by
  unfold argTys
  rw [List.filterMap_map]
  congr 1
  funext ty
  exact llvmTy_byValueParam ty

theorem collectParamTypes_byValueParams_length_le (tys : List Ty) :
    (collectParamTypes pool (paramSlots pool (tys.map byValueParam))).length ≤ tys.length := by
  have bound := (@Params.collectParamTypes_length_le pool (tys.map byValueParam)).1
  have all := @List.countP_le_length _ (fun param : Param => decide (0 < param.slotCount pool)) (tys.map byValueParam)
  rw [List.length_map] at all
  omega

theorem filterMap_length_of_isSome {tys : List Ty} (lowered : ∀ ty ∈ tys, (gruelTypeToLlvm pool ty).isSome = true) :
    (tys.filterMap (gruelTypeToLlvm pool)).length = tys.length := by
  rw [List.length_filterMap_eq_countP]
  exact List.countP_eq_length.mpr lowered

theorem declared_iff {tys : List Ty} (lowered : ∀ ty ∈ tys, (gruelTypeToLlvm pool ty).isSome = true) :
    collectParamTypes pool (paramSlots pool (tys.map byValueParam)) = tys.filterMap (gruelTypeToLlvm pool) ↔
      ∀ ty ∈ tys, 0 < Params.abiSlotCount pool ty := by
  constructor
  · intro declared ty member
    have sized := @Params.sized_of_declared pool (tys.map byValueParam)
      ((argTys_byValueParams tys).trans declared.symm) (by
        intro param inParams _
        obtain ⟨other, inTys, isParam⟩ := List.mem_map.mp inParams
        rw [← isParam, llvmTy_byValueParam]
        exact lowered other inTys)
    have own := (sized (byValueParam ty) (List.mem_map.mpr ⟨ty, member, rfl⟩)).mpr (by
      rw [llvmTy_byValueParam]
      exact lowered ty member)
    exact own
  · intro slots
    have ok : Params.SlotsMatch pool (tys.map byValueParam) := by
      constructor
      · intro param inParams
        obtain ⟨ty, inTys, isParam⟩ := List.mem_map.mp inParams
        rw [← isParam, llvmTy_byValueParam, slotCount_byValueParam]
        simp [lowered ty inTys, slots ty inTys]
      · apply List.pairwise_of_forall_mem_list
        intro param inParams _ _ fat
        obtain ⟨ty, _, isParam⟩ := List.mem_map.mp inParams
        rw [← isParam, isFat_byValueParam] at fat
        cases fat
    rw [ok.collectParamTypes, argTys_byValueParams]

theorem declareMethod_byRef {structId : StructId} {selfRef : PointeeId} {req : InterfaceMethodReq}
    (byRef : req.receiver ≠ .byValue) : (declareMethod pool structId selfRef req).params =
      .ptr :: collectParamTypes pool (paramSlots pool
        ((req.paramTypes.map (IfaceTy.substituteSelf (.struct structId))).map byValueParam)) := by
  have isRef : (selfParam structId selfRef req.receiver).isByRef = true := by
    cases mode : req.receiver with
    | byValue => exact absurd mode byRef
    | mutRef => rfl
    | ref => rfl
  have one := @Params.slotCount_isByRef pool _ isRef
  have slim : (selfParam structId selfRef req.receiver).isFat = false := by
    cases req.receiver <;> rfl
  rw [declareMethod, Params.collectParamTypes_slots (by omega) slim, Param.llvmTy, if_pos isRef, List.map_map]
  rfl

theorem declareMethod_byValue {structId : StructId} {selfRef : PointeeId} {req : InterfaceMethodReq}
    (byValue : req.receiver = .byValue) : (declareMethod pool structId selfRef req).params =
      (if 0 < Params.abiSlotCount pool (.struct structId) then
          (gruelTypeToLlvm pool (.struct structId)).toList
        else []) ++ collectParamTypes pool (paramSlots pool
        ((req.paramTypes.map (IfaceTy.substituteSelf (.struct structId))).map byValueParam)) := by
  have isSelf : selfParam structId selfRef req.receiver = byValueParam (.struct structId) := by
    rw [byValue]
    rfl
  rw [declareMethod, isSelf, List.map_map]
  by_cases sized : 0 < Params.abiSlotCount pool (.struct structId)
  · have slots : 0 < (byValueParam (.struct structId)).slotCount pool := sized
    rw [Params.collectParamTypes_slots slots (isFat_byValueParam _), llvmTy_byValueParam, if_pos sized]
    rfl
  · rw [Params.paramSlots_unsized (by rw [slotCount_byValueParam]; omega), if_neg sized]
    rfl

theorem struct_not_pointer {structId : StructId} {ty : LlvmTy}
    (lowered : gruelTypeToLlvm pool (.struct structId) = some ty) : isPointerType ty = false := by
  rw [gruelTypeToLlvm_struct] at lowered
  unfold structToLlvm at lowered
  split at lowered
  · cases lowered
  · cases lowered
    rfl

theorem gatherArgs_eq_some_iff {args : List (Option LlvmVal)} {values : List LlvmVal} :
    gatherArgs args = some values ↔ (∀ arg ∈ args, arg.isSome = true) ∧ values = args.filterMap id := by
  induction args generalizing values with
  | nil =>
    simp only [gatherArgs, List.filterMap_nil, Option.some.injEq]
    constructor
    · intro same
      exact ⟨by simp, same.symm⟩
    · exact fun both => both.2.symm
  | cons arg rest ih =>
    rw [gatherArgs, List.forall_mem_cons]
    cases arg with
    | none => simp
    | some value =>
      simp only [Option.bind_some, Option.map_eq_some_iff, Option.isSome_some, true_and]
      constructor
      · rintro ⟨_, gathered, isValues⟩
        obtain ⟨all, isOthers⟩ := ih.mp gathered
        refine ⟨all, ?_⟩
        rw [← isValues, isOthers]
        rfl
      · rintro ⟨all, isValues⟩
        refine ⟨rest.filterMap id, ih.mpr ⟨all, rfl⟩, ?_⟩
        rw [isValues]
        rfl

namespace DynCall

variable {call : DynCall pool Result}
variable {entry : FnValue Result}

theorem args_isSome_iff : (∀ arg ∈ call.args, arg.isSome = true) ↔
    ∀ ty ∈ call.req.paramTypes.map (IfaceTy.substituteSelf (.interface call.interfaceId)),
      (gruelTypeToLlvm pool ty).isSome = true := by
  have each : ∀ {args : List (Option LlvmVal)} {tys : List IfaceTy},
      List.Forall₂ (fun value ty => value.isSome = (gruelTypeToLlvm pool (IfaceTy.substituteSelf
          (.interface call.interfaceId) ty)).isSome) args tys →
      ((∀ arg ∈ args, arg.isSome = true) ↔ ∀ ty ∈ tys.map (IfaceTy.substituteSelf (.interface call.interfaceId)),
          (gruelTypeToLlvm pool ty).isSome = true) := by
    intro args tys valued
    induction valued with
    | nil => simp
    | cons own _ ih => rw [List.forall_mem_cons, List.map_cons, List.forall_mem_cons, ih, own]
  exact each call.valued

theorem buildVtable_eq : buildVtable pool call.structId call.fnMap call.witness call.methods =
    vtableSlots pool call.structId call.fnMap call.witness call.methods 0 := by
  have nonempty : call.methods.isEmpty = false := by
    cases methods : call.methods with
    | nil =>
      have at_ := call.atSlot
      rw [methods] at at_
      simp at at_
    | cons => rfl
  rw [buildVtable, nonempty]
  rfl

theorem req_mem : call.req ∈ call.methods := List.mem_of_getElem? call.atSlot

theorem noSelf_iff : (call.req.paramTypes.map (IfaceTy.substituteSelf (.interface call.interfaceId)) =
        call.req.paramTypes.map (IfaceTy.substituteSelf (.struct call.structId)) ∧
      call.req.returnType.substituteSelf (.interface call.interfaceId) =
        call.req.returnType.substituteSelf (.struct call.structId)) ↔
      (∀ ty ∈ call.req.paramTypes, ty.isSelf = false) ∧ call.req.returnType.isSelf = false := by
  have one : ∀ ty : IfaceTy, ty.substituteSelf (.interface call.interfaceId) =
      ty.substituteSelf (.struct call.structId) ↔ ty.isSelf = false := by
    intro ty
    cases ty <;> simp [IfaceTy.substituteSelf, IfaceTy.isSelf]
  rw [List.map_inj_left, one]
  simp [one]

theorem owned_iff {receiver : ReceiverMode} :
    (dispatchOwners receiver).length ≤ (directOwners receiver).length ↔ receiver ≠ .byValue := by
  cases receiver <;> simp [dispatchOwners, directOwners, ownersAfter]

theorem entry_cases (isEntry : vtableSlot pool call.structId call.fnMap call.req = some (some entry)) :
    ∃ actual, call.method = some actual ∧ ((needsTrampoline pool call.structId actual.ty = true ∧
          emitVtableTrampoline pool call.structId actual = some entry) ∨
        (needsTrampoline pool call.structId actual.ty = false ∧ entry = actual)) := by
  unfold vtableSlot at isEntry
  unfold method
  cases found : call.fnMap (mangled (pool.structDef call.structId).name call.req.name) with
  | none => simp [found] at isEntry
  | some actual =>
    refine ⟨actual, rfl, ?_⟩
    rw [found] at isEntry
    by_cases needs : needsTrampoline pool call.structId actual.ty = true
    · left
      simp only [needs, if_true] at isEntry
      obtain ⟨_, isThunk, same⟩ := Option.map_eq_some_iff.mp isEntry
      cases same
      exact ⟨needs, isThunk⟩
    · right
      simp only [needs] at isEntry
      refine ⟨(Bool.not_eq_true _).mp needs, ?_⟩
      simpa [eq_comm] using isEntry

theorem method_ty {actual : FnValue Result} (isMethod : call.method = some actual) :
    actual.ty = declareMethod pool call.structId call.selfRef call.req :=
  call.declared call.req req_mem actual isMethod

theorem signature_facts (isEntry : vtableSlot pool call.structId call.fnMap call.req = some (some entry))
    (lowered : ∀ ty ∈ call.req.paramTypes.map (IfaceTy.substituteSelf (.struct call.structId)),
      (gruelTypeToLlvm pool ty).isSome = true) (signature : entry.ty.params = .ptr ::
      (call.req.paramTypes.map (IfaceTy.substituteSelf (.struct call.structId))).filterMap (gruelTypeToLlvm pool)) :
    (∀ ty ∈ call.req.paramTypes.map (IfaceTy.substituteSelf (.struct call.structId)),
        0 < Params.abiSlotCount pool ty) ∧
      (call.req.receiver = .byValue → 0 < Params.abiSlotCount pool (.struct call.structId) ∧
        (gruelTypeToLlvm pool (.struct call.structId)).isSome = true) := by
  obtain ⟨actual, isMethod, entryCases⟩ := entry_cases isEntry
  have actualTy := method_ty isMethod
  by_cases byValue : call.req.receiver = .byValue
  · have declared := @declareMethod_byValue pool call.structId call.selfRef call.req byValue
    rw [← actualTy] at declared
    rcases entryCases with ⟨needs, thunk⟩ | ⟨direct, isActual⟩
    · obtain ⟨selfTy, isSelfTy, isThunk⟩ := Option.map_eq_some_iff.mp thunk
      have slots : 0 < Params.abiSlotCount pool (.struct call.structId) := by
        unfold needsTrampoline at needs
        simp only [Bool.and_eq_true, decide_eq_true_eq] at needs
        exact needs.1
      refine ⟨(declared_iff lowered).mp ?_, fun _ => ⟨slots, Option.isSome_of_eq_some isSelfTy⟩⟩
      rw [if_pos slots, isSelfTy] at declared
      rw [← isThunk, declared] at signature
      simpa using signature
    · rw [isActual] at signature
      have length : actual.ty.params.length =
          (call.req.paramTypes.map (IfaceTy.substituteSelf (.struct call.structId))).length + 1 := by
        rw [signature, List.length_cons, filterMap_length_of_isSome lowered]
      have bound := @collectParamTypes_byValueParams_length_le pool
        (call.req.paramTypes.map (IfaceTy.substituteSelf (.struct call.structId)))
      by_cases slots : 0 < Params.abiSlotCount pool (.struct call.structId)
      · rw [if_pos slots] at declared
        cases isSelfTy : gruelTypeToLlvm pool (.struct call.structId) with
        | none =>
          rw [isSelfTy] at declared
          simp only [Option.toList_none, List.nil_append] at declared
          rw [declared] at length
          omega
        | some selfTy =>
          rw [isSelfTy] at declared
          have needs : needsTrampoline pool call.structId actual.ty = true := by
            simp [needsTrampoline, alreadyTakesPtrSelf, declared, slots, struct_not_pointer isSelfTy]
          rw [direct] at needs
          cases needs
      · rw [if_neg slots, List.nil_append] at declared
        rw [declared] at length
        omega
  · refine ⟨(declared_iff lowered).mp ?_, fun isValue => absurd isValue byValue⟩
    have declared := @declareMethod_byRef pool call.structId call.selfRef call.req byValue
    rw [← actualTy] at declared
    rcases entryCases with ⟨needs, _⟩ | ⟨_, isActual⟩
    · simp [needsTrampoline, alreadyTakesPtrSelf, declared, isPointerType] at needs
    · rw [isActual, declared] at signature
      simpa using signature

theorem AgreesWith.bridged {vtable : List (Option (FnValue Result))} {operands : List LlvmVal}
    (agrees : call.AgreesWith vtable entry operands) : call.Bridged := by
  have built := agrees.built
  rw [buildVtable_eq] at built
  obtain ⟨witnessed, lowers⟩ :=
    (vtableSlots_isSome_iff call.methods 0).mp (Option.isSome_of_eq_some built)
  have isEntry : vtableSlot pool call.structId call.fnMap call.req = some (some entry) := by
    rw [← vtableSlots_getElem built call.atSlot]
    exact agrees.nonNull
  obtain ⟨_, isMethod, _⟩ := entry_cases isEntry
  have noSelf := noSelf_iff.1 ⟨agrees.sameParams, agrees.sameReturn⟩
  obtain ⟨_, gathered, _⟩ := Option.map_eq_some_iff.mp agrees.gathered
  have lowered := args_isSome_iff.1 (gatherArgs_eq_some_iff.1 gathered).1
  have signature := congrArg FnType.params agrees.signature
  simp only [dispatchType] at signature
  rw [show (fun ty : IfaceTy => gruelTypeToLlvm pool (ty.substituteSelf (.interface call.interfaceId))) =
    gruelTypeToLlvm pool ∘ IfaceTy.substituteSelf (.interface call.interfaceId) from rfl,
    ← List.filterMap_map, agrees.sameParams] at signature
  rw [agrees.sameParams] at lowered
  obtain ⟨slots, receiver⟩ := signature_facts isEntry lowered signature
  refine ⟨?_, Option.isSome_of_eq_some isMethod, ?_, noSelf, ?_, ?_⟩
  · by_contra short
    have bound := witnessed call.witness.length (by omega)
    omega
  · intro other member
    exact (vtableSlot_isSome_iff other).mp (lowers other member)
  · exact fun ty member => ⟨lowered ty member, slots ty member⟩
  · intro byValue
    refine ⟨agrees.owned.resolve_right ?_, receiver byValue⟩
    rw [owned_iff]
    exact fun differs => differs byValue

theorem Bridged.agrees (bridged : call.Bridged) : call.Agrees := by
  obtain ⟨vtable, built⟩ := Option.isSome_iff_exists.mp
    ((@vtableSlots_isSome_iff Result pool call.structId call.fnMap call.witness call.methods 0).mpr
      ⟨fun index lower => by have bound := bridged.witnessed; omega,
        fun other member => (vtableSlot_isSome_iff other).mpr (bridged.lowers other member)⟩)
  obtain ⟨actual, isMethod⟩ := Option.isSome_iff_exists.mp bridged.present
  have actualTy := method_ty isMethod
  obtain ⟨sameParams, sameReturn⟩ := noSelf_iff.2 bridged.noSelf
  have lowered : ∀ ty ∈ call.req.paramTypes.map (IfaceTy.substituteSelf (.struct call.structId)),
      (gruelTypeToLlvm pool ty).isSome = true := fun ty member => (bridged.sized ty member).1
  have declaredParams := (declared_iff lowered).mpr fun ty member => (bridged.sized ty member).2
  have someArgs := (@args_isSome_iff Result pool call).mpr (by rw [sameParams]; exact lowered)
  have gathered : dispatchArgs (dataPtr pool call.structId call.storage) call.args =
      some (.scalar (dataPtr pool call.structId call.storage) :: call.args.filterMap id) := by
    rw [dispatchArgs, gatherArgs_eq_some_iff.2 ⟨someArgs, rfl⟩, Option.map_some]
  have dispatched : dispatchType pool call.interfaceId call.req =
      { params := .ptr :: (call.req.paramTypes.map (IfaceTy.substituteSelf (.struct call.structId))).filterMap
            (gruelTypeToLlvm pool)
        ret := gruelTypeToLlvm pool (call.req.returnType.substituteSelf (.struct call.structId)) } := by
    rw [dispatchType, sameReturn, ← sameParams, List.filterMap_map]
    rfl
  have retTy : actual.ty.ret = gruelTypeToLlvm pool (call.req.returnType.substituteSelf (.struct call.structId)) := by
    rw [actualTy]
    rfl
  have found : call.fnMap (mangled (pool.structDef call.structId).name call.req.name) = some actual := isMethod
  by_cases byValue : call.req.receiver = .byValue
  · obtain ⟨copy, slots, isSome⟩ := bridged.receiver byValue
    obtain ⟨_, isSelfTy⟩ := Option.isSome_iff_exists.mp isSome
    have declared := @declareMethod_byValue pool call.structId call.selfRef call.req byValue
    rw [← actualTy, if_pos slots, isSelfTy, declaredParams] at declared
    have needs : needsTrampoline pool call.structId actual.ty = true := by
      simp [needsTrampoline, alreadyTakesPtrSelf, declared, slots, struct_not_pointer isSelfTy]
    have isEntry : vtableSlot pool call.structId call.fnMap call.req =
        (emitVtableTrampoline pool call.structId actual).map some := by
      simp [vtableSlot, found, needs]
    rw [emitVtableTrampoline, isSelfTy, Option.map_some, Option.map_some] at isEntry
    refine ⟨vtable, _, _, ?_, (vtableSlots_getElem built call.atSlot).trans isEntry, gathered, ?_,
      sameParams, sameReturn, ⟨actual, isMethod, ?_⟩, Or.inl copy⟩
    · rw [buildVtable_eq]
      exact built
    · rw [dispatched, declared, retTy]
      rfl
    · simp [directArgs, byValue, isSelfTy]
  · have declared := @declareMethod_byRef pool call.structId call.selfRef call.req byValue
    rw [← actualTy, declaredParams] at declared
    have direct : needsTrampoline pool call.structId actual.ty = false := by
      simp [needsTrampoline, alreadyTakesPtrSelf, declared, isPointerType]
    have isEntry : vtableSlot pool call.structId call.fnMap call.req = some (some actual) := by
      simp [vtableSlot, found, direct]
    refine ⟨vtable, actual, _, ?_, (vtableSlots_getElem built call.atSlot).trans isEntry, gathered, ?_,
      sameParams, sameReturn, ⟨actual, isMethod, ?_⟩, Or.inr (owned_iff.2 byValue)⟩
    · rw [buildVtable_eq]
      exact built
    · rw [dispatched, ← retTy, ← declared]
    · intro _
      cases mode : call.req.receiver with
      | byValue => exact absurd mode byValue
      | mutRef => rfl
      | ref => rfl

variable (call)

/-- Dynamic and direct call agree if and only if the table has the method, neither signature
mentions `Self` or a type without slots, and a receiver taken by value is of a copyable struct
that has slots. -/
theorem agrees_iff : call.Agrees ↔ call.Bridged := by
  constructor
  · rintro ⟨_, _, _, agrees⟩
    exact agrees.bridged
  · exact Bridged.agrees

end DynCall

namespace VtablesSample

/-- `struct Foo {}` and the affine `struct Buffer { n: i32 }`. -/
def counterPool : LayoutPool where
  structDef id := if id = 0 then { name := "Foo", fields := [] } else { name := "Buffer", fields := [⟨"n", .i32⟩] }
  enumDef _ := { name := "E", variants := [] }
  arrayDef _ := (.i32, 1)
  rank
    | .struct _ | .array _ => 1
    | _ => 0
  rank_lt ty part member := by
    cases ty
    case struct id =>
      by_cases first : id = 0 <;> simp [TypeInternPool.components, StructDef.fieldTypes, first]
        at member
      simp [member]
    all_goals simp [TypeInternPool.components] at member <;> simp [member]

/-- `fn count(self) -> i32`. -/
def count : InterfaceMethodReq where
  name := "count"
  receiver := .byValue
  paramTypes := []
  returnType := .concrete .i32

def countMethod (structId : StructId) : FnValue LlvmVal where
  ty := declareMethod counterPool structId 0 count
  run _ _ := some (.scalar 1)

def counted (structId : StructId) : DynCall counterPool LlvmVal where
  structId := structId
  interfaceId := 0
  selfRef := 0
  methods := [count]
  witness := [(structId, "count")]
  fnMap _ := some (countMethod structId)
  declared := by
    intro req member _ found
    cases found
    rw [List.mem_singleton.mp member]
    rfl
  slot := 0
  req := count
  atSlot := rfl
  storage := 4096
  args := []
  valued := .nil

/-- The method of the empty struct is stored as it is and called with a pointer it has no
parameter for; that of the affine struct takes a copy of a receiver the caller still owns. -/
theorem receivers_mistreated : ¬ (counted 0).Agrees ∧ ¬ (counted 1).Agrees := by
  constructor
  · rintro ⟨vtable, entry, operands, agrees⟩
    have slots := (agrees.bridged.receiver rfl).2.1
    have none : Params.abiSlotCount counterPool (.struct 0) = 0 := by
      rw [Params.abiSlotCount, List.attach_map_val]
      simp [counterPool, StructDef.fieldTypes]
    simp only [counted] at slots
    omega
  · rintro ⟨vtable, entry, operands, agrees⟩
    have copy := (agrees.bridged.receiver rfl).1
    simp [counted, counterPool] at copy

end VtablesSample

end Vtables

end Gruel
