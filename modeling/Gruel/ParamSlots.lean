import Gruel.ParamsCore

/-!
The numbering of parameters. The code generator's walk over the slots declares the arguments of
the call and gives each slot the number of its parameter's argument exactly when no parameter
with slots follows a reference to an interface and slots and LLVM types go together.
-/

namespace Gruel

namespace Params

section Numbering

variable (pool : LayoutPool)
variable {param : Param} {params rest : List Param}

def Param.llvmTy (param : Param) : Option LlvmTy :=
  if param.isByRef then some .ptr else gruelTypeToLlvm pool param.ty

def argTys (params : List Param) : List LlvmTy := params.filterMap (Param.llvmTy pool)

def argPosition (params : List Param) (index : Nat) : Nat := (argTys pool (params.take index)).length

structure SlotsMatch (params : List Param) : Prop where
  sized : ∀ param ∈ params, 0 < param.slotCount pool ↔ (param.llvmTy pool).isSome = true
  fatLast : params.Pairwise fun param later => param.isFat = true → later.slotCount pool = 0

def TableAgrees (params : List Param) (llvmIdx : Nat) : Prop :=
  ∀ index param, params[index]? = some param → 0 < param.slotCount pool →
    (slotTable pool (paramSlots pool params) llvmIdx)[abiSlot pool params index]? =
      some (llvmIdx + argPosition pool params index)

variable {pool}

theorem slotCount_isByRef (byRef : param.isByRef = true) : param.slotCount pool = 1 := by
  unfold Param.isByRef at byRef
  unfold Param.slotCount
  split at byRef
  · cases byRef
  · rename_i refers
    rw [refers]
    simp
  · rename_i refers
    rw [refers]
    simp
  · rw [if_pos byRef]

theorem isFat_iff : param.isFat = true ↔ (∃ id, param.ty = .interface id) ∧ param.mode.isByRef = true := by
  unfold Param.isFat
  split
  · rename_i isInterface
    simp [isInterface]
  · simp_all

theorem slotCount_isFat (fat : param.isFat = true) : param.slotCount pool = 1 := by
  rw [Param.slotCount, if_pos (isFat_iff.1 fat).2]

theorem isFat_abiSlotCount (fat : param.isFat = true) : abiSlotCount pool param.ty = 2 := by
  obtain ⟨⟨_, isInterface⟩, _⟩ := isFat_iff.1 fat
  rw [isInterface]
  simp

theorem isFat_isByRef (fat : param.isFat = true) : param.isByRef = false := by
  obtain ⟨⟨_, isInterface⟩, _⟩ := isFat_iff.1 fat
  simp [Param.isByRef, isInterface]

theorem isFat_llvmTy (fat : param.isFat = true) : (param.llvmTy pool).isSome = true := by
  rw [Param.llvmTy, isFat_isByRef fat]
  obtain ⟨⟨_, isInterface⟩, _⟩ := isFat_iff.1 fat
  rw [isInterface, gruelTypeToLlvm_isLeaf pool rfl]
  rfl

theorem slotCount_eq (byValue : param.isByRef = false) (slim : param.isFat = false) :
    param.slotCount pool = abiSlotCount pool param.ty := by
  have normal : param.mode.isByRef = false := by
    unfold Param.isByRef at byValue
    split at byValue
    · rename_i isInterface
      simpa [Param.isFat, isInterface] using slim
    · cases byValue
    · cases byValue
    · exact byValue
  rw [Param.slotCount, normal]
  rfl

theorem llvmTy_byValue (byValue : param.isByRef = false) : param.llvmTy pool = gruelTypeToLlvm pool param.ty := by
  rw [Param.llvmTy, byValue]
  rfl

theorem collectParamTypes_byRef (byRef : param.isByRef = true) (rest : List Param) :
    collectParamTypes pool (param :: rest) = .ptr :: collectParamTypes pool rest := by
  rw [collectParamTypes, if_pos byRef]

theorem collectParamTypes_byValue (byValue : param.isByRef = false) (rest : List Param) :
    collectParamTypes pool (param :: rest) =
      (if 0 < abiSlotCount pool param.ty then (gruelTypeToLlvm pool param.ty).toList else []) ++
        collectParamTypes pool (rest.drop (max (abiSlotCount pool param.ty) 1 - 1)) := by
  rw [collectParamTypes, byValue]
  rfl

theorem slotTable_byRef (byRef : param.isByRef = true) (rest : List Param) (llvmIdx : Nat) :
    slotTable pool (param :: rest) llvmIdx = llvmIdx :: slotTable pool rest (llvmIdx + 1) := by
  rw [slotTable, if_pos byRef]

theorem slotTable_byValue (byValue : param.isByRef = false) (rest : List Param) (llvmIdx : Nat) :
    slotTable pool (param :: rest) llvmIdx =
      llvmIdx :: (rest.take (max (abiSlotCount pool param.ty) 1 - 1)).map (fun _ => llvmIdx) ++
        slotTable pool (rest.drop (max (abiSlotCount pool param.ty) 1 - 1))
          (if 0 < abiSlotCount pool param.ty then llvmIdx + 1 else llvmIdx) := by
  rw [slotTable, byValue]
  rfl

@[simp]
theorem collectParamTypes_nil : collectParamTypes pool [] = [] := by
  rw [collectParamTypes]

@[simp]
theorem slotTable_nil (llvmIdx : Nat) : slotTable pool [] llvmIdx = [] := by
  rw [slotTable]

theorem paramSlots_unsized (zero : param.slotCount pool = 0) (rest : List Param) :
    paramSlots pool (param :: rest) = paramSlots pool rest := by
  simp [paramSlots, zero]

theorem paramSlots_sized (sized : 0 < param.slotCount pool) (rest : List Param) : paramSlots pool (param :: rest) =
      param :: (List.replicate (param.slotCount pool - 1) param ++ paramSlots pool rest) := by
  obtain ⟨_, isCount⟩ := Nat.exists_eq_add_of_lt sized
  rw [paramSlots, isCount]
  simp [List.replicate_succ]

theorem collectParamTypes_slots (sized : 0 < param.slotCount pool) (slim : param.isFat = false) (rest : List Param) :
    collectParamTypes pool (paramSlots pool (param :: rest)) =
      (param.llvmTy pool).toList ++ collectParamTypes pool (paramSlots pool rest) := by
  rw [paramSlots_sized sized]
  cases byRef : param.isByRef with
  | true =>
    rw [collectParamTypes_byRef byRef, slotCount_isByRef byRef, Param.llvmTy, if_pos byRef]
    rfl
  | false =>
    have same : param.slotCount pool = _ := slotCount_eq byRef slim
    rw [collectParamTypes_byValue byRef, ← same, if_pos sized, llvmTy_byValue byRef, Nat.max_eq_left sized]
    simp

theorem slotTable_slots (sized : 0 < param.slotCount pool) (slim : param.isFat = false)
    (rest : List Param) (llvmIdx : Nat) :
    slotTable pool (paramSlots pool (param :: rest)) llvmIdx = List.replicate (param.slotCount pool) llvmIdx ++
        slotTable pool (paramSlots pool rest) (llvmIdx + 1) := by
  rw [paramSlots_sized sized]
  cases byRef : param.isByRef with
  | true =>
    rw [slotTable_byRef byRef, slotCount_isByRef byRef]
    rfl
  | false =>
    have same : param.slotCount pool = _ := slotCount_eq byRef slim
    rw [slotTable_byValue byRef, ← same, if_pos sized, Nat.max_eq_left sized]
    obtain ⟨_, isCount⟩ := Nat.exists_eq_add_of_lt sized
    rw [isCount]
    simp [List.replicate_succ]

theorem SlotsMatch.tail (ok : SlotsMatch pool (param :: rest)) : SlotsMatch pool rest where
  sized other member := ok.sized other (.tail _ member)
  fatLast := (List.pairwise_cons.mp ok.fatLast).2

theorem SlotsMatch.unsized_llvmTy (ok : SlotsMatch pool (param :: rest))
    (zero : param.slotCount pool = 0) : param.llvmTy pool = none := by
  have notSome := mt (ok.sized param (List.mem_cons_self ..)).mpr (by omega)
  exact Option.not_isSome_iff_eq_none.mp notSome

theorem paramSlots_eq_nil_iff : paramSlots pool params = [] ↔ ∀ param ∈ params, param.slotCount pool = 0 := by
  induction params with
  | nil => simp [paramSlots]
  | cons param rest ih => simp [paramSlots, ih]

theorem SlotsMatch.fat_slots (ok : SlotsMatch pool (param :: rest)) (fat : param.isFat = true) :
    paramSlots pool rest = [] :=
  paramSlots_eq_nil_iff.2 fun later member =>
    (List.pairwise_cons.mp ok.fatLast).1 later member fat

theorem argTys_cons (param : Param) (rest : List Param) :
    argTys pool (param :: rest) = (param.llvmTy pool).toList ++ argTys pool rest := by
  unfold argTys
  cases lowered : param.llvmTy pool with
  | none => simp [lowered]
  | some ty => simp [lowered]

theorem argTys_unsized (ok : SlotsMatch pool params) (empty : paramSlots pool params = []) :
    argTys pool params = [] := by
  rw [paramSlots_eq_nil_iff] at empty
  apply List.filterMap_eq_nil_iff.mpr
  intro param member
  have notSome := mt (ok.sized param member).mpr (by rw [empty param member]; omega)
  exact Option.not_isSome_iff_eq_none.mp notSome

theorem collectParamTypes_fat (fat : param.isFat = true) (slots : List Param) :
    collectParamTypes pool (param :: slots) =
      (param.llvmTy pool).toList ++ collectParamTypes pool (slots.drop 1) := by
  rw [collectParamTypes_byValue (isFat_isByRef fat), isFat_abiSlotCount fat, llvmTy_byValue (isFat_isByRef fat)]
  rfl

theorem slotTable_fat (fat : param.isFat = true) (slots : List Param) (llvmIdx : Nat) :
    slotTable pool (param :: slots) llvmIdx = llvmIdx :: (slots.take 1).map (fun _ => llvmIdx) ++
        slotTable pool (slots.drop 1) (llvmIdx + 1) := by
  rw [slotTable_byValue (isFat_isByRef fat), isFat_abiSlotCount fat]
  rfl

theorem paramSlots_fat (fat : param.isFat = true) (rest : List Param) :
    paramSlots pool (param :: rest) = param :: paramSlots pool rest := by
  rw [paramSlots, slotCount_isFat fat]
  rfl

theorem SlotsMatch.collectParamTypes (ok : SlotsMatch pool params) :
    collectParamTypes pool (paramSlots pool params) = argTys pool params := by
  induction params with
  | nil => simp [paramSlots, argTys]
  | cons param rest ih =>
    rw [argTys_cons]
    rcases Nat.eq_zero_or_pos (param.slotCount pool) with zero | sized
    · rw [paramSlots_unsized zero, ih ok.tail, ok.unsized_llvmTy zero]
      rfl
    · cases fat : param.isFat with
      | false => rw [collectParamTypes_slots sized fat, ih ok.tail]
      | true =>
        have empty := ok.fat_slots fat
        rw [paramSlots_fat fat, collectParamTypes_fat fat, empty, argTys_unsized ok.tail empty]
        simp

theorem argPosition_zero (params : List Param) : argPosition pool params 0 = 0 := rfl

theorem argPosition_succ (param : Param) (rest : List Param) (index : Nat) :
    argPosition pool (param :: rest) (index + 1) =
      (param.llvmTy pool).toList.length + argPosition pool rest index := by
  simp [argPosition, argTys_cons]

theorem tableAgrees_cons_iff {llvmIdx : Nat} (slim : param.isFat = false)
    (sized : 0 < param.slotCount pool ↔ (param.llvmTy pool).isSome = true) :
    TableAgrees pool (param :: rest) llvmIdx ↔
      TableAgrees pool rest (llvmIdx + (param.llvmTy pool).toList.length) := by
  rcases Nat.eq_zero_or_pos (param.slotCount pool) with zero | positive
  · have unsized : param.llvmTy pool = none :=
      Option.not_isSome_iff_eq_none.mp (mt sized.mpr (by omega))
    constructor
    · intro agrees index later at_ laterSized
      have found := agrees (index + 1) later at_ laterSized
      rw [paramSlots_unsized zero, abiSlot, zero, argPosition_succ, unsized] at found
      rw [unsized]
      simpa using found
    · intro agrees index later at_ laterSized
      cases index with
      | zero =>
        cases at_
        omega
      | succ index =>
        have found := agrees index later at_ laterSized
        rw [unsized] at found
        rw [paramSlots_unsized zero, abiSlot, zero, argPosition_succ, unsized]
        simpa using found
  · obtain ⟨_, lowered⟩ := Option.isSome_iff_exists.mp (sized.mp positive)
    have one : (param.llvmTy pool).toList.length = 1 := by simp [lowered]
    constructor
    · intro agrees index later at_ laterSized
      have found := agrees (index + 1) later at_ laterSized
      rw [slotTable_slots positive slim, abiSlot, argPosition_succ, one,
        List.getElem?_append_right (by simp)] at found
      rw [one]
      simpa [Nat.add_assoc] using found
    · intro agrees index later at_ laterSized
      rw [slotTable_slots positive slim]
      cases index with
      | zero =>
        rw [abiSlot, argPosition_zero, List.getElem?_append_left (by simpa using positive)]
        simp [positive]
      | succ index =>
        have found := agrees index later at_ laterSized
        rw [abiSlot, argPosition_succ, one, List.getElem?_append_right (by simp)]
        rw [one] at found
        simpa [Nat.add_assoc] using found

theorem abiSlot_nil_slots (empty : paramSlots pool params = []) {index : Nat}
    (at_ : params[index]? = some param) : param.slotCount pool = 0 :=
  paramSlots_eq_nil_iff.1 empty param (List.mem_of_getElem? at_)

theorem SlotsMatch.tableAgrees (ok : SlotsMatch pool params) (llvmIdx : Nat) : TableAgrees pool params llvmIdx := by
  induction params generalizing llvmIdx with
  | nil =>
    intro index param at_
    simp at at_
  | cons param rest ih =>
    cases fat : param.isFat with
    | false =>
      exact (tableAgrees_cons_iff fat (ok.sized param (List.mem_cons_self ..))).mpr (ih ok.tail _)
    | true =>
      have empty := ok.fat_slots fat
      intro index _ at_ _
      cases index with
      | zero =>
        rw [paramSlots_fat fat, slotTable_fat fat, empty]
        simp [abiSlot, argPosition_zero]
      | succ index =>
        have none := abiSlot_nil_slots empty at_
        omega

theorem exists_first_sized (nonempty : paramSlots pool params ≠ []) :
    ∃ (index : Nat) (param : Param), params[index]? = some param ∧ 0 < param.slotCount pool ∧
      abiSlot pool params index = 0 := by
  induction params with
  | nil => exact absurd rfl nonempty
  | cons param rest ih =>
    rcases Nat.eq_zero_or_pos (param.slotCount pool) with zero | positive
    · rw [paramSlots_unsized zero] at nonempty
      obtain ⟨index, later, at_, sized, first⟩ := ih nonempty
      exact ⟨index + 1, later, at_, sized, by rw [abiSlot, zero, first]⟩
    · exact ⟨0, param, rfl, positive, rfl⟩

theorem fatLast_of_tableAgrees {llvmIdx : Nat}
    (sized : ∀ param ∈ params, 0 < param.slotCount pool ↔ (param.llvmTy pool).isSome = true)
    (agrees : TableAgrees pool params llvmIdx) :
    params.Pairwise fun param later => param.isFat = true → later.slotCount pool = 0 := by
  induction params generalizing llvmIdx with
  | nil => exact List.Pairwise.nil
  | cons param rest ih =>
    have sizedRest := fun other member => sized other (List.mem_cons_of_mem param member)
    cases fat : param.isFat with
    | false =>
      have agreesRest :=
        (tableAgrees_cons_iff fat (sized param (List.mem_cons_self ..))).mp agrees
      exact List.Pairwise.cons (fun _ _ isFat => absurd isFat (by simp [fat])) (ih sizedRest agreesRest)
    | true =>
      have empty : paramSlots pool rest = [] := by
        by_contra nonempty
        obtain ⟨index, later, at_, laterSized, first⟩ := exists_first_sized nonempty
        have found := agrees (index + 1) later at_ laterSized
        obtain ⟨_, lowered⟩ := Option.isSome_iff_exists.mp (@isFat_llvmTy pool param fat)
        obtain ⟨_, _, isCons⟩ := List.exists_cons_of_ne_nil nonempty
        rw [paramSlots_fat fat, slotTable_fat fat, abiSlot, first, slotCount_isFat fat,
          argPosition_succ, lowered, isCons] at found
        simp at found
      have zero := paramSlots_eq_nil_iff.1 empty
      refine List.Pairwise.cons (fun later member _ => zero later member) ?_
      exact List.pairwise_of_forall_mem_list fun _ _ later member _ => zero later member

theorem collectParamTypes_length_le (params : List Param) : (collectParamTypes pool (paramSlots pool params)).length ≤
        params.countP (fun param => 0 < param.slotCount pool) ∧
      (collectParamTypes pool ((paramSlots pool params).drop 1)).length ≤
        params.countP (fun param => 0 < param.slotCount pool) := by
  induction params with
  | nil => simp [paramSlots]
  | cons param rest ih =>
    obtain ⟨aligned, shifted⟩ := ih
    rcases Nat.eq_zero_or_pos (param.slotCount pool) with zero | positive
    · rw [paramSlots_unsized zero, List.countP_cons_of_neg (by simp [zero])]
      exact ⟨aligned, shifted⟩
    · rw [List.countP_cons_of_pos (by simpa using positive)]
      have own : (param.llvmTy pool).toList.length ≤ 1 := Option.length_toList_le
      cases fat : param.isFat with
      | true =>
        constructor
        · rw [paramSlots_fat fat, collectParamTypes_fat fat, List.length_append]
          omega
        · rw [paramSlots_fat fat, List.drop_one, List.tail_cons]
          omega
      | false =>
        constructor
        · rw [collectParamTypes_slots positive fat, List.length_append]
          omega
        · rw [paramSlots_sized positive, List.drop_one, List.tail_cons]
          rcases Nat.lt_or_ge (param.slotCount pool) 2 with _ | several
          · have one : param.slotCount pool - 1 = 0 := by omega
            rw [one]
            simpa using Nat.le_succ_of_le aligned
          · have byValue : param.isByRef = false := by
              by_contra byRef
              have one : param.slotCount pool = 1 :=
                slotCount_isByRef ((Bool.not_eq_false _).mp byRef)
              omega
            have same : param.slotCount pool = _ := slotCount_eq byValue fat
            obtain ⟨count, _⟩ := Nat.exists_eq_add_of_le several
            have more : param.slotCount pool - 1 = count + 1 := by omega
            rw [more, List.replicate_succ, List.cons_append, collectParamTypes_byValue byValue,
              ← same, if_pos positive, ← llvmTy_byValue byValue, List.length_append,
              Nat.max_eq_left positive, more, List.drop_append]
            simp only [List.length_replicate, List.drop_replicate]
            rw [show count - (count + 1) = 0 by omega, show count + 1 - count = 1 by omega]
            simp only [List.replicate_zero, List.nil_append]
            omega

theorem sized_of_declared (declared : argTys pool params = collectParamTypes pool (paramSlots pool params))
    (lowered : ∀ param ∈ params, 0 < param.slotCount pool → (param.llvmTy pool).isSome = true) :
    ∀ param ∈ params, 0 < param.slotCount pool ↔ (param.llvmTy pool).isSome = true := by
  have counted : (argTys pool params).length = params.countP fun param => (param.llvmTy pool).isSome :=
    List.length_filterMap_eq_countP
  have bound := (@collectParamTypes_length_le pool params).1
  rw [← declared, counted] at bound
  intro param member
  refine ⟨lowered param member, fun passed => ?_⟩
  by_contra unsized
  obtain ⟨before, after, split⟩ := List.append_of_mem member
  have monotone : ∀ part : List Param, (∀ other ∈ part, other ∈ params) →
      part.countP (fun param => 0 < param.slotCount pool) ≤ part.countP fun param => (param.llvmTy pool).isSome := by
    intro part inParams
    apply List.countP_mono_left
    intro other inPart positive
    exact lowered other (inParams other inPart) (by simpa using positive)
  have first := monotone before fun other inBefore => by simp [split, inBefore]
  have last := monotone after fun other inAfter => by simp [split, inAfter]
  simp only [split, List.countP_append, List.countP_cons, passed, unsized, decide_false, if_true,
    Bool.false_eq_true, if_false] at bound
  omega

theorem slotsMatch_iff (params : List Param) : SlotsMatch pool params ↔
      argTys pool params = collectParamTypes pool (paramSlots pool params) ∧ TableAgrees pool params 0 ∧
        ∀ param ∈ params, 0 < param.slotCount pool → (param.llvmTy pool).isSome = true := by
  constructor
  · intro ok
    exact ⟨ok.collectParamTypes.symm, ok.tableAgrees 0, fun param member => (ok.sized param member).mp⟩
  · rintro ⟨declared, agrees, lowered⟩
    have sized := sized_of_declared declared lowered
    exact ⟨sized, fatLast_of_tableAgrees sized agrees⟩

end Numbering

end Params

end Gruel
