import Mathlib.Data.List.Nodup
import Gruel.ParamSlots

/-!
Calls. What the type checker promises about the arguments, when their lowering succeeds, and that
the operands are those of the parameters in order.
-/

namespace Gruel

namespace Params

def isReference : Ty → Bool
  | .ref _ | .mutRef _ => true
  | _ => false

def Param.isMutRef (param : Param) : Bool := match param.ty with
  | .mutRef _ => true
  | .ref _ | .interface _ => false
  | _ => decide (param.mode = .mutRef)

section Calls

variable (pool : LayoutPool) (signature : Signature) (caller : List Param)
variable {param : Param} {params : List Param} {index start : Nat} {arg : CallArg}
  {args : List CallArg} {operands : List (Nat × Operand)}

/-- What the type checker promises about the argument for a parameter. Interfaces are not types
of places, and `&` yields a reference. -/
structure Conforms (arg : CallArg) (param : Param) : Prop where
  reference : param.isByRef = true → (arg.mode.isByRef = true ∧ ((∃ base, arg.inst = .makeRef base) ∨
          arg.ty = signature.valueTy param ∧ ∀ id, arg.ty ≠ .interface id)) ∨
      (arg.mode.isByRef = false ∧ isReference arg.ty = true)
  interface : ∀ id, param.ty = .interface id → arg.ty = .interface id ∧
    (arg.inst = .other ∨ ∃ index, arg.inst = .param index ∧ isParamByRef caller[index]? = false)
  value : param.isByRef = false → (∀ id, param.ty ≠ .interface id) → arg.mode.isByRef = false ∧ arg.ty = param.ty
  makeRef : ∀ base, arg.inst = .makeRef base → isReference arg.ty = true

def CallArg.target (arg : CallArg) : Option Variable := match arg.inst with
  | .makeRef base => some base
  | .load slot => if arg.mode.isByRef then some (.localSlot slot) else none
  | .param index => if arg.mode.isByRef then some (.param index) else none
  | .placeRead base _ _ => if arg.mode.isByRef then some base else none
  | .other => none

def homes : Variable → List Storage
  | .localSlot slot => [.alloca slot]
  | .param index => if isParamByRef caller[index]? then [.received index] else [.pslot index, .argument index]

/-- An argument passed by address has a value or a place with an LLVM type, or is an explicit
reference. -/
def Addressed (arg : CallArg) : Prop := match arg.inst with
  | .load _ | .other => (gruelTypeToLlvm pool arg.ty).isSome = true
  | .param index =>
    isParamByRef caller[index]? = true ∨ (gruelTypeToLlvm pool arg.ty).isSome = true
  | .placeRead _ first rest => ∃ ty, gepWalk pool first.containerTy (first :: rest) = some (some ty)
  | .makeRef _ => True

def WriteVisible (operands : List (Nat × Operand)) (index : Nat) (arg : CallArg) : Prop :=
  ∀ variable_, arg.target = some variable_ → ∃ operand, (index, operand) ∈ operands ∧
      ∀ home ∈ homes caller variable_, operand = .address home

def origins : List Param → Nat → List Nat
  | [], _ => []
  | param :: rest, index =>
    (if (param.llvmTy pool).isSome then [index] else []) ++ origins rest (index + 1)

attribute [grind =] origins

variable {pool signature caller}

theorem origins_argPosition (at_ : params[index]? = some param)
    (lowered : (param.llvmTy pool).isSome = true) (start : Nat) :
    (origins pool params start)[argPosition pool params index]? = some (start + index) := by
  induction params generalizing index start with
  | nil => simp at at_
  | cons head rest ih =>
    rw [origins]
    cases index with
    | zero =>
      cases at_
      simp [lowered, argPosition_zero]
    | succ index =>
      have found := ih at_ (start + 1)
      rw [argPosition_succ]
      cases own : head.llvmTy pool with
      | none =>
        simp only [Option.isSome_none, Bool.false_eq_true, if_false, List.nil_append,
          Option.toList_none, List.length_nil, Nat.zero_add]
        rw [found]
        congr 1
        omega
      | some ty =>
        simp only [Option.isSome_some, if_true, Option.toList_some, List.length_singleton]
        rw [List.getElem?_append_right (by simp), List.length_singleton, Nat.add_sub_cancel_left, found]
        congr 1
        omega

theorem origins_ge (member : index ∈ origins pool params start) : start ≤ index := by
  induction params generalizing start with
  | nil => simp [origins] at member
  | cons head rest ih =>
    rw [origins, List.mem_append] at member
    rcases member with own | later
    · split at own
      · simp at own
        omega
      · simp at own
    · have bound := ih later
      omega

theorem origins_nodup (params : List Param) (start : Nat) : (origins pool params start).Nodup := by
  induction params generalizing start with
  | nil => simp [origins]
  | cons head rest ih =>
    rw [origins]
    split
    · apply List.nodup_cons.mpr
      refine ⟨fun member => ?_, ih (start + 1)⟩
      have bound := origins_ge member
      omega
    · exact ih (start + 1)

theorem origins_mem {params : List Param} {start index : Nat} (member : start + index ∈ origins pool params start) :
    ∃ param, params[index]? = some param ∧ (param.llvmTy pool).isSome = true := by
  induction params generalizing start index with
  | nil => simp [origins] at member
  | cons head rest ih =>
    rw [origins, List.mem_append] at member
    rcases member with own | later
    · split at own
      · rename_i lowered
        simp only [List.mem_singleton] at own
        have zero : index = 0 := by omega
        subst zero
        exact ⟨head, rfl, lowered⟩
      · simp at own
    · have bound := origins_ge later
      obtain ⟨before, isIndex⟩ := Nat.exists_eq_add_of_le (show 1 ≤ index by omega)
      subst isIndex
      obtain ⟨param, at_, lowered⟩ := ih (by rwa [show start + (1 + before) = start + 1 + before by omega] at later)
      exact ⟨param, by rw [Nat.add_comm, List.getElem?_cons_succ]; exact at_, lowered⟩

theorem origins_getElem_iff {position : Nat} (at_ : params[index]? = some param) :
    (origins pool params 0)[position]? = some index ↔
      (param.llvmTy pool).isSome = true ∧ position = argPosition pool params index := by
  constructor
  · intro found
    obtain ⟨_, otherAt, lowered⟩ := @origins_mem pool params 0 index
      (by rw [Nat.zero_add]; exact List.mem_of_getElem? found)
    rw [at_] at otherAt
    cases otherAt
    refine ⟨lowered, ?_⟩
    have same := origins_argPosition at_ lowered 0
    rw [Nat.zero_add] at same
    obtain ⟨_, isIndex⟩ := List.getElem?_eq_some_iff.mp found
    obtain ⟨_, isIndex'⟩ := List.getElem?_eq_some_iff.mp same
    exact (List.Nodup.getElem_inj_iff (origins_nodup params 0)).mp (isIndex.trans isIndex'.symm)
  · rintro ⟨lowered, isPosition⟩
    rw [isPosition, origins_argPosition at_ lowered 0, Nat.zero_add]

theorem borrowTmp_isSome (ty : Ty) : (borrowTmp pool ty).isSome = (gruelTypeToLlvm pool ty).isSome := by
  unfold borrowTmp getValue
  split <;> simp

theorem borrowTmp_other {ty : Ty} (other : ∀ id, ty ≠ .interface id) :
    borrowTmp pool ty = (gruelTypeToLlvm pool ty).map fun _ => .address .temporary := by
  unfold borrowTmp
  split
  · rename_i id
    exact absurd rfl (other id)
  · rfl

theorem lowerRefArg_isSome_iff (arg : CallArg) :
    (lowerRefArg pool caller arg).isSome = true ↔ Addressed pool caller arg := by
  unfold lowerRefArg Addressed
  cases arg.inst with
  | load slot => simp
  | param index =>
    by_cases byRef : isParamByRef caller[index]? = true
    · simp [byRef]
    · simp [byRef, borrowTmp_isSome]
  | placeRead base first rest =>
    cases reached : gepWalk pool first.containerTy (first :: rest) with
    | none => simp [reached]
    | some place =>
      cases place with
      | none => simp [reached]
      | some ty => simp [reached]
  | makeRef base => simp
  | other => simp [borrowTmp_isSome]

theorem gruelTypeToLlvm_isReference {ty : Ty} (reference : isReference ty = true) :
    gruelTypeToLlvm pool ty = some .ptr := by
  unfold isReference at reference
  split at reference
  · exact gruelTypeToLlvm_isLeaf pool rfl
  · exact gruelTypeToLlvm_isLeaf pool rfl
  · cases reference

theorem isByRef_of_isReference (reference : isReference param.ty = true) : param.isByRef = true := by
  unfold isReference at reference
  unfold Param.isByRef
  split at reference
  · rename_i id isRef
    simp [isRef]
  · rename_i id isMutRef
    simp [isMutRef]
  · cases reference

theorem Conforms.lowerRefArg {operand : Operand} (conforms : Conforms signature caller arg param)
    (isByRef : arg.mode.isByRef = true) (lowered : lowerRefArg pool caller arg = some operand) :
    param.llvmTy pool = some operand.llvmTy := by
  by_cases byRef : param.isByRef = true
  · rw [Param.llvmTy, if_pos byRef]
    have borrowed : (∀ base, arg.inst ≠ .makeRef base) → borrowTmp pool arg.ty = some operand →
        operand.llvmTy = .ptr := by
      intro notMakeRef tmp
      rcases conforms.reference byRef with ⟨_, isRef | ⟨_, other⟩⟩ | ⟨normal, _⟩
      · obtain ⟨base, isMakeRef⟩ := isRef
        exact absurd isMakeRef (notMakeRef base)
      · rw [borrowTmp_other other] at tmp
        obtain ⟨_, _, isOperand⟩ := Option.map_eq_some_iff.mp tmp
        rw [← isOperand]
        rfl
      · rw [isByRef] at normal
        cases normal
    unfold Params.lowerRefArg at lowered
    cases inst : arg.inst with
    | load slot =>
      rw [inst] at lowered
      obtain ⟨_, _, isOperand⟩ := Option.map_eq_some_iff.mp lowered
      rw [← isOperand]
      rfl
    | param index =>
      rw [inst] at lowered
      by_cases received : isParamByRef caller[index]? = true
      · simp only [received, if_true] at lowered
        cases lowered
        rfl
      · simp only [received] at lowered
        rw [borrowed (by simp [inst]) lowered]
    | placeRead base first rest =>
      rw [inst] at lowered
      simp only at lowered
      split at lowered
      · cases lowered
        rfl
      · cases lowered
    | makeRef base =>
      rw [inst] at lowered
      cases lowered
      rfl
    | other =>
      rw [inst] at lowered
      rw [borrowed (by simp [inst]) lowered]
  · have byValue : param.isByRef = false := (Bool.not_eq_true _).mp byRef
    by_cases isInterface : ∃ id, param.ty = .interface id
    · obtain ⟨id, isInterface⟩ := isInterface
      obtain ⟨argTy, inst⟩ := conforms.interface id isInterface
      have fetched : getValue pool arg.ty = some operand := by
        unfold Params.lowerRefArg at lowered
        rcases inst with inst | ⟨index, inst, notRef⟩
        · simpa [inst, argTy, borrowTmp] using lowered
        · simpa [inst, argTy, borrowTmp, notRef] using lowered
      obtain ⟨ty, isTy, isOperand⟩ := Option.map_eq_some_iff.mp fetched
      rw [llvmTy_byValue byValue, isInterface, ← argTy, isTy, ← isOperand]
      rfl
    · have normal := (conforms.value byValue (by simpa using isInterface)).1
      rw [isByRef] at normal
      cases normal

theorem Conforms.lowerValueArg (conforms : Conforms signature caller arg param) (normal : arg.mode.isByRef = false) :
    param.llvmTy pool = (gruelTypeToLlvm pool arg.ty).map fun ty => (lowerValueArg caller arg ty).llvmTy := by
  have value : (∀ base, arg.inst ≠ .makeRef base) → ∀ ty, (Params.lowerValueArg caller arg ty).llvmTy = ty := by
    intro notMakeRef ty
    unfold Params.lowerValueArg
    split
    · rename_i base isMakeRef
      exact absurd isMakeRef (notMakeRef base)
    · rfl
  by_cases byRef : param.isByRef = true
  · rcases conforms.reference byRef with ⟨isByRef, _⟩ | ⟨_, reference⟩
    · rw [normal] at isByRef
      cases isByRef
    · rw [Param.llvmTy, if_pos byRef, gruelTypeToLlvm_isReference reference, Option.map_some]
      unfold Params.lowerValueArg
      split <;> rfl
  · have byValue : param.isByRef = false := (Bool.not_eq_true _).mp byRef
    rw [llvmTy_byValue byValue]
    have same : arg.ty = param.ty := by
      by_cases isInterface : ∃ id, param.ty = .interface id
      · obtain ⟨id, isInterface⟩ := isInterface
        rw [isInterface]
        exact (conforms.interface id isInterface).1
      · exact (conforms.value byValue (by simpa using isInterface)).2
    have notMakeRef : ∀ base, arg.inst ≠ .makeRef base := by
      intro base isMakeRef
      have reference := conforms.makeRef base isMakeRef
      rw [same] at reference
      rw [isByRef_of_isReference reference] at byValue
      cases byValue
    rw [same]
    cases gruelTypeToLlvm pool param.ty with
    | none => rfl
    | some ty => simp [value notMakeRef]

theorem lowerArgs_isSome_iff (args : List CallArg) (start : Nat) : (lowerArgs pool caller args start).isSome = true ↔
      ∀ arg ∈ args, arg.mode.isByRef = true → Addressed pool caller arg := by
  induction args generalizing start with
  | nil => simp [lowerArgs]
  | cons arg rest ih =>
    rw [lowerArgs, List.forall_mem_cons, ← ih (start + 1)]
    by_cases byRef : arg.mode.isByRef = true
    · rw [if_pos byRef, ← lowerRefArg_isSome_iff]
      simp only [byRef, true_implies]
      cases lowerRefArg pool caller arg with
      | none => simp
      | some operand => simp
    · simp [byRef]

theorem lowerArgs_operands (conforms : List.Forall₂ (Conforms signature caller) args params)
    (lowered : lowerArgs pool caller args start = some operands) :
    operands.map (fun entry => entry.2.llvmTy) = argTys pool params ∧
      operands.map Prod.fst = origins pool params start := by
  induction conforms generalizing start operands with
  | nil =>
    cases lowered
    exact ⟨rfl, rfl⟩
  | @cons arg param args params first _ ih =>
    rw [lowerArgs] at lowered
    rw [argTys_cons, origins]
    by_cases byRef : arg.mode.isByRef = true
    · rw [if_pos byRef] at lowered
      obtain ⟨_, isOperand, lowered⟩ := Option.bind_eq_some_iff.mp lowered
      obtain ⟨others, lowersRest, isOperands⟩ := Option.map_eq_some_iff.mp lowered
      obtain ⟨tys, indices⟩ := ih lowersRest
      rw [← isOperands, first.lowerRefArg byRef isOperand]
      simp [tys, indices]
    · rw [if_neg byRef] at lowered
      have own : param.llvmTy pool = _ := first.lowerValueArg ((Bool.not_eq_true _).mp byRef)
      obtain ⟨others, lowersRest, isOperands⟩ := Option.map_eq_some_iff.mp lowered
      obtain ⟨tys, indices⟩ := ih lowersRest
      cases argTy : gruelTypeToLlvm pool arg.ty with
      | none =>
        rw [argTy, Option.map_none] at own
        rw [← isOperands, argTy, own]
        simp [tys, indices]
      | some ty =>
        rw [argTy, Option.map_some] at own
        rw [← isOperands, argTy, own]
        simp [tys, indices]

variable (pool caller) in
def argOperand (arg : CallArg) : Option Operand :=
  if arg.mode.isByRef then lowerRefArg pool caller arg
  else (gruelTypeToLlvm pool arg.ty).map (lowerValueArg caller arg)

theorem lowerArgs_ge (lowered : lowerArgs pool caller args start = some operands) {number : Nat}
    {operand : Operand} (member : (number, operand) ∈ operands) : start ≤ number := by
  induction args generalizing start operands with
  | nil =>
    cases lowered
    cases member
  | cons arg rest ih =>
    rw [lowerArgs] at lowered
    by_cases byRef : arg.mode.isByRef = true
    · rw [if_pos byRef] at lowered
      obtain ⟨_, _, lowered⟩ := Option.bind_eq_some_iff.mp lowered
      obtain ⟨others, lowersRest, isOperands⟩ := Option.map_eq_some_iff.mp lowered
      rw [← isOperands] at member
      rcases List.mem_cons.mp member with same | later
      · cases same
        omega
      · have bound := ih lowersRest later
        omega
    · rw [if_neg byRef] at lowered
      obtain ⟨others, lowersRest, isOperands⟩ := Option.map_eq_some_iff.mp lowered
      rw [← isOperands] at member
      split at member
      · have bound := ih lowersRest member
        omega
      · rcases List.mem_cons.mp member with same | later
        · cases same
          omega
        · have bound := ih lowersRest later
          omega

theorem mem_lowerArgs_iff (lowered : lowerArgs pool caller args start = some operands) (index : Nat)
    (operand : Operand) :
    (start + index, operand) ∈ operands ↔
      ∃ arg, args[index]? = some arg ∧ argOperand pool caller arg = some operand := by
  induction args generalizing start operands index with
  | nil =>
    cases lowered
    simp
  | cons arg rest ih =>
    have shift : ∀ position, start + (position + 1) = start + 1 + position := by
      omega
    rw [lowerArgs] at lowered
    by_cases byRef : arg.mode.isByRef = true
    · rw [if_pos byRef] at lowered
      obtain ⟨own, isOwn, lowered⟩ := Option.bind_eq_some_iff.mp lowered
      obtain ⟨others, lowersRest, isOperands⟩ := Option.map_eq_some_iff.mp lowered
      rw [← isOperands, List.mem_cons]
      cases index with
      | zero =>
        have absent : (start, operand) ∉ others := fun member => by
          have bound := lowerArgs_ge lowersRest member
          omega
        have ownOperand : argOperand pool caller arg = some own := by
          rw [argOperand, if_pos byRef, isOwn]
        simp [absent, ownOperand, eq_comm]
      | succ index =>
        rw [List.getElem?_cons_succ, shift, ← ih lowersRest index]
        simp [Nat.add_assoc]
    · rw [if_neg byRef] at lowered
      obtain ⟨others, lowersRest, isOperands⟩ := Option.map_eq_some_iff.mp lowered
      rw [← isOperands]
      have ownOperand : argOperand pool caller arg =
          (gruelTypeToLlvm pool arg.ty).map (lowerValueArg caller arg) := by
        rw [argOperand, if_neg byRef]
      cases index with
      | zero =>
        have absent : (start, operand) ∉ others := fun member => by
          have bound := lowerArgs_ge lowersRest member
          omega
        cases argTy : gruelTypeToLlvm pool arg.ty with
        | none => simpa [ownOperand, argTy] using absent
        | some ty => simp [absent, ownOperand, argTy, eq_comm]
      | succ index =>
        rw [List.getElem?_cons_succ, shift, ← ih lowersRest index]
        cases argTy : gruelTypeToLlvm pool arg.ty with
        | none => rfl
        | some ty =>
          simp [Nat.add_assoc]

theorem argOperand_target {variable_ : Variable} (conforms : Conforms signature caller arg param)
    (lowers : arg.mode.isByRef = true → Addressed pool caller arg)
    (target : arg.target = some variable_)
    (inMemory : ∀ index, variable_ = .param index → isParamByRef caller[index]? = true) :
    argOperand pool caller arg = some (.address (baseStorage caller variable_)) := by
  unfold CallArg.target at target
  unfold argOperand
  cases inst : arg.inst with
  | makeRef base =>
    rw [inst] at target
    cases target
    by_cases byRef : arg.mode.isByRef = true
    · simp [byRef, lowerRefArg, inst]
    · rw [gruelTypeToLlvm_isReference (conforms.makeRef _ inst)]
      simp [byRef, lowerValueArg, inst]
  | load slot =>
    rw [inst] at target
    by_cases byRef : arg.mode.isByRef = true
    · simp only [byRef, if_true, Option.some.injEq] at target
      subst target
      have sized := lowers byRef
      unfold Addressed at sized
      rw [inst] at sized
      obtain ⟨ty, isTy⟩ := Option.isSome_iff_exists.mp sized
      simp [byRef, lowerRefArg, inst, isTy, baseStorage]
    · simp [byRef] at target
  | param index =>
    rw [inst] at target
    by_cases byRef : arg.mode.isByRef = true
    · simp only [byRef, if_true, Option.some.injEq] at target
      have received := inMemory index target.symm
      subst target
      simp [byRef, lowerRefArg, inst, received, baseStorage]
    · simp [byRef] at target
  | placeRead base first rest =>
    rw [inst] at target
    by_cases byRef : arg.mode.isByRef = true
    · simp only [byRef, if_true, Option.some.injEq] at target
      subst target
      have reached := lowers byRef
      unfold Addressed at reached
      rw [inst] at reached
      obtain ⟨ty, isPlace⟩ := reached
      simp [byRef, lowerRefArg, inst, isPlace]
    · simp [byRef] at target
  | other => simp [inst] at target

theorem writeVisible_iff (lowered : lowerArgs pool caller args 0 = some operands)
    (at_ : args[index]? = some arg) (conforms : Conforms signature caller arg param) :
    WriteVisible caller operands index arg ↔
      ∀ number, arg.target = some (.param number) → isParamByRef caller[number]? = true := by
  have lowers := (lowerArgs_isSome_iff args 0).mp (Option.isSome_of_eq_some lowered) arg (List.mem_of_getElem? at_)
  constructor
  · intro visible number target
    by_contra byValue
    obtain ⟨_, _, inHomes⟩ := visible _ target
    have first := inHomes (.pslot number) (by simp [homes, byValue])
    have second := inHomes (.argument number) (by simp [homes, byValue])
    rw [first] at second
    cases second
  · intro inMemory variable_ target
    refine ⟨.address (baseStorage caller variable_), ?_, ?_⟩
    · have passed := (mem_lowerArgs_iff lowered index (.address (baseStorage caller variable_))).mpr
        ⟨arg, at_, argOperand_target conforms lowers target
          fun number isParam => inMemory number (by rw [target, isParam])⟩
      rwa [Nat.zero_add] at passed
    · intro _ inHomes
      cases variable_ with
      | localSlot slot =>
        rw [List.mem_singleton.mp inHomes]
        rfl
      | param number =>
        have received := inMemory number target
        simp only [homes, received, if_true, List.mem_singleton] at inHomes
        simp [inHomes, baseStorage, received]

end Calls

end Params

end Gruel
