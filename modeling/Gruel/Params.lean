import Gruel.ParamCalls
import Gruel.Lib.FirstUse

/-!
Parameters arrive intact. Every use in the called function finds what the call supplies for its
parameter, on every path, exactly when the two numberings match, nothing without an LLVM type is
loaded or pointed to, and every path reads a spilled parameter only after the block whose code
spills it.
-/

namespace Gruel

namespace Params

open FirstUse (see fill runPath firstBlock firstOf seenBefore)

attribute [local simp] PassMode.isByRef ParamUse.index

section Bodies

variable (pool : LayoutPool) (signature : Signature)
variable {seen seen' : List Nat} {index : Nat} {uses : List ParamUse} {param : Param}
  {use : ParamUse} {blocks : List ParamBlock}

variable {params : List Param} {projections : List Projection} {passedTy : Ty} {code : List Instr}

/-- What the type checker promises about a use: it names a parameter, a whole value is asked for
of parameters with slots only, and projections start at the type of the parameter. -/
def Typed : ParamUse → Prop
  | .param index => ∃ param, signature.params[index]? = some param ∧ 0 < param.slotCount pool
  | .place index projections _ => ∃ param, signature.params[index]? = some param ∧
      (projections = [] → 0 < param.slotCount pool) ∧
      ∀ first ∈ projections.head?, first.containerTy = signature.valueTy param
  | .store index _ => ∃ param, signature.params[index]? = some param ∧ param.isByRef = true

def slotOf (use : ParamUse) : Nat := abiSlot pool signature.params use.index

def slotByRef (use : ParamUse) : Bool :=
  isParamByRef (paramSlots pool signature.params)[slotOf pool signature use]?

def cellOf (use : ParamUse) : Option Nat := match use with
  | .place .. => if slotByRef pool signature use then none else some (slotOf pool signature use)
  | _ => none

def fits : ParamUse → Bool
  | .place index projections passedTy =>
    (((signature.params[index]?).map Param.ty).bind (gruelTypeToLlvm pool)).any fun stored =>
      (gruelTypeToLlvm pool (baseTy projections passedTy)).any fun slotTy => fitsIn stored slotTy
  | _ => false

def content (use : ParamUse) : Option Nat :=
  if fits pool signature use then some (argPosition pool signature.params use.index) else none

def isRead : ParamUse → Bool
  | .place _ projections passedTy =>
    (((gepWalk pool (baseTy projections passedTy) projections).bind id).bind (gruelTypeToLlvm pool)).isSome
  | _ => true

def UseLowers (seen : List Nat) (use : ParamUse) : Prop := match use with
  | .param index => slotByRef pool signature use = true →
      (((signature.params[index]?).map signature.valueTy).bind (gruelTypeToLlvm pool)).isSome = true
  | .place _ projections passedTy =>
    (gepWalk pool (baseTy projections passedTy) projections).isSome = true ∧
      ∀ slot, cellOf pool signature use = some slot → slot ∈ seen ∨
        (gruelTypeToLlvm pool (baseTy projections passedTy)).isSome = true
  | .store _ valueTy => (gruelTypeToLlvm pool valueTy).isSome = true

def spillOf (seen : List Nat) (use : ParamUse) : List Instr := match cellOf pool signature use with
  | some slot =>
    if slot ∈ seen then []
    else [.spill slot (argPosition pool signature.params use.index) (fits pool signature use)]
  | none => []

def readOf (use : ParamUse) : List Instr :=
  let position := argPosition pool signature.params use.index
  match use with
  | .param index =>
    [if slotByRef pool signature use then .throughArgument index position else .readArgument index position]
  | .place index .. =>
    if isRead pool use then
      [if slotByRef pool signature use then .throughArgument index position
        else .readSlot index (slotOf pool signature use)]
    else []
  | .store index _ => [.throughArgument index position]

variable {pool signature}

@[simp]
theorem abiSlot_zero (params : List Param) : abiSlot pool params 0 = 0 := by
  cases params <;> rfl

theorem exists_param_at_slot {entry : Param} (bound : index < params.length)
    (at_ : (paramSlots pool params)[abiSlot pool params index]? = some entry) :
    ∃ number, params[number]? = some entry ∧ 0 < entry.slotCount pool ∧
      abiSlot pool params number = abiSlot pool params index := by
  induction params generalizing index with
  | nil => simp [paramSlots] at at_
  | cons param rest ih =>
    cases index with
    | zero =>
      rw [abiSlot_zero] at at_ ⊢
      rcases Nat.eq_zero_or_pos (param.slotCount pool) with zero | positive
      · rw [paramSlots_unsized zero] at at_
        have restLength : 0 < rest.length := by
          cases rest with
          | nil => simp [paramSlots] at at_
          | cons => simp
        obtain ⟨number, isEntry, sized, first⟩ := ih restLength (by rwa [abiSlot_zero])
        refine ⟨number + 1, isEntry, sized, ?_⟩
        rw [abiSlot, zero, first, abiSlot_zero]
      · rw [paramSlots_sized positive] at at_
        cases at_
        exact ⟨0, rfl, positive, rfl⟩
    | succ index =>
      rw [abiSlot, paramSlots, List.getElem?_append_right (by simp)] at at_
      simp only [List.length_replicate, Nat.add_sub_cancel_left] at at_
      obtain ⟨number, isEntry, sized, same⟩ := ih (by simpa using bound) at_
      exact ⟨number + 1, isEntry, sized, by rw [abiSlot, abiSlot, same]⟩

theorem paramSlots_abiSlot (at_ : params[index]? = some param) (sized : 0 < param.slotCount pool) :
    (paramSlots pool params)[abiSlot pool params index]? = some param := by
  induction params generalizing index with
  | nil => simp at at_
  | cons head rest ih =>
    cases index with
    | zero =>
      cases at_
      rw [paramSlots_sized sized]
      rfl
    | succ index =>
      rw [abiSlot, paramSlots, List.getElem?_append_right (by simp)]
      simpa using ih at_

theorem nthParam_abiSlot (ok : SlotsMatch pool signature.params)
    (at_ : signature.params[index]? = some param) (sized : 0 < param.slotCount pool) :
    nthParam pool signature (abiSlot pool signature.params index) =
      some (argPosition pool signature.params index) := by
  have lowered := (ok.sized param (List.mem_of_getElem? at_)).mp sized
  have found := ok.tableAgrees 0 index param at_ sized
  rw [nthParam, buildSlotToLlvmParam, found, ok.collectParamTypes]
  have bound : argPosition pool signature.params index < (argTys pool signature.params).length := by
    obtain ⟨ty, isTy⟩ := Option.isSome_iff_exists.mp lowered
    have split := List.take_append_drop index signature.params
    obtain ⟨lower, isParam⟩ := List.getElem?_eq_some_iff.mp at_
    rw [List.drop_eq_getElem_cons lower, isParam] at split
    have total : argTys pool signature.params =
        argTys pool (signature.params.take index) ++ (ty :: argTys pool (signature.params.drop (index + 1))) := by
      conv_lhs => rw [← split]
      simp [argTys, isTy]
    rw [total, argPosition]
    simp
  simp [bound]

theorem unsized_facts (ok : SlotsMatch pool signature.params) (member : param ∈ signature.params)
    (zero : param.slotCount pool = 0) : gruelTypeToLlvm pool (signature.valueTy param) = none := by
  have byValue : param.isByRef = false := by
    by_contra byRef
    have one : param.slotCount pool = 1 := slotCount_isByRef ((Bool.not_eq_false _).mp byRef)
    omega
  have lowered : param.llvmTy pool = none :=
    Option.not_isSome_iff_eq_none.mp (mt (ok.sized param member).mpr (by omega))
  rw [llvmTy_byValue byValue] at lowered
  unfold Param.isByRef at byValue
  unfold Signature.valueTy
  split
  · rename_i isRef
    simp [isRef] at byValue
  · rename_i isMutRef
    simp [isMutRef] at byValue
  · exact lowered

theorem place_unsized (ok : SlotsMatch pool signature.params)
    (typed : Typed pool signature (.place index projections passedTy))
    (at_ : signature.params[index]? = some param) (zero : param.slotCount pool = 0) :
    gruelTypeToLlvm pool (baseTy projections passedTy) = none ∧
      isRead pool (.place index projections passedTy) = false := by
  obtain ⟨_, otherAt, bare, starts⟩ := typed
  rw [at_] at otherAt
  cases otherAt
  have none := unsized_facts ok (List.mem_of_getElem? at_) zero
  cases projections with
  | nil => exact absurd (bare rfl) (by omega)
  | cons first rest =>
    have isContainer := starts first rfl
    rw [← isContainer] at none
    refine ⟨none, ?_⟩
    cases first with
    | field structId fieldIndex =>
      simp only [Projection.containerTy] at none
      simp [isRead, baseTy, Projection.containerTy, gepWalk, none]
    | index arrayType =>
      simp only [Projection.containerTy] at none
      simp only [isRead, gepWalk]
      split <;> simp_all

theorem slotByRef_sized {use : ParamUse} {param : Param}
    (at_ : signature.params[use.index]? = some param) (sized : 0 < param.slotCount pool) :
    slotByRef pool signature use = param.isByRef := by
  rw [slotByRef, slotOf, paramSlots_abiSlot at_ sized]
  simp [isParamByRef]

theorem nthParam_byRef (ok : SlotsMatch pool signature.params) {use : ParamUse} {param : Param}
    (at_ : signature.params[use.index]? = some param)
    (byRef : slotByRef pool signature use = true) :
    ∃ llvmIdx, nthParam pool signature (slotOf pool signature use) = some llvmIdx := by
  unfold slotByRef isParamByRef at byRef
  obtain ⟨entry, isEntry⟩ : ∃ entry, (paramSlots pool signature.params)[slotOf pool signature use]? = some entry := by
    cases found : (paramSlots pool signature.params)[slotOf pool signature use]? with
    | none => simp [found] at byRef
    | some entry => exact ⟨entry, rfl⟩
  obtain ⟨number, numberAt, sized, same⟩ :=
    exists_param_at_slot (List.getElem?_eq_some_iff.mp at_).1 isEntry
  refine ⟨argPosition pool signature.params number, ?_⟩
  rw [slotOf, ← same]
  exact nthParam_abiSlot ok numberAt sized

theorem readPlace_eq {index : Nat} {projections : List Projection} {passedTy : Ty} (instr : Instr)
    (walks : (gepWalk pool (baseTy projections passedTy) projections).isSome = true) :
    readPlace pool (gepWalk pool (baseTy projections passedTy) projections) instr =
      some (if isRead pool (.place index projections passedTy) then [instr] else []) := by
  obtain ⟨_, walk⟩ := Option.isSome_iff_exists.mp walks
  simp [readPlace, isRead, walk]

theorem getOrCreateParamAlloca_eq (ok : SlotsMatch pool signature.params)
    (typed : Typed pool signature (.place index projections passedTy))
    (lowers : UseLowers pool signature seen (.place index projections passedTy))
    (byValue : slotByRef pool signature (.place index projections passedTy) = false) :
    getOrCreateParamAlloca pool signature seen
        (slotOf pool signature (.place index projections passedTy)) (baseTy projections passedTy) =
      some (spillOf pool signature seen (.place index projections passedTy),
        see (cellOf pool signature) seen (.place index projections passedTy)) := by
  have isCell : cellOf pool signature (.place index projections passedTy) =
      some (slotOf pool signature (.place index projections passedTy)) := by
    simp [cellOf, byValue]
  unfold getOrCreateParamAlloca spillOf see
  rw [isCell]
  by_cases member : slotOf pool signature (.place index projections passedTy) ∈ seen
  · simp [member]
  · obtain ⟨_, isSlotTy⟩ := Option.isSome_iff_exists.mp ((lowers.2 _ isCell).resolve_left member)
    have ⟨param, at_, _⟩ := typed
    have sized : 0 < param.slotCount pool := by
      by_contra unsized
      have none := (place_unsized ok typed at_ (by omega)).1
      rw [isSlotTy] at none
      cases none
    have entry : (paramSlots pool signature.params)[slotOf pool signature
        (.place index projections passedTy)]? = some param := paramSlots_abiSlot at_ sized
    have position : nthParam pool signature (slotOf pool signature
        (.place index projections passedTy)) = some (argPosition pool signature.params index) :=
      nthParam_abiSlot ok at_ sized
    simp [member, entry, position, isSlotTy, fits, at_]

theorem lowerUse_param (seen : List Nat) (index : Nat) : lowerUse pool signature seen (.param index) =
      (nthParam pool signature (abiSlot pool signature.params index)).bind fun llvmIdx =>
        if slotByRef pool signature (.param index) then
          (((signature.params[index]?).map signature.valueTy).bind (gruelTypeToLlvm pool)).map
            fun _ => ([.throughArgument index llvmIdx], seen)
        else some ([.readArgument index llvmIdx], seen) := rfl

theorem lowerUse_place (seen : List Nat) (index : Nat) (projections : List Projection)
    (passedTy : Ty) : lowerUse pool signature seen (.place index projections passedTy) =
      if slotByRef pool signature (.place index projections passedTy) then
        (nthParam pool signature (slotOf pool signature (.place index projections passedTy))).bind fun llvmIdx =>
            (readPlace pool (gepWalk pool (baseTy projections passedTy) projections)
              (.throughArgument index llvmIdx)).map fun read => (read, seen)
      else
        (getOrCreateParamAlloca pool signature seen (slotOf pool signature (.place index projections passedTy))
            (baseTy projections passedTy)).bind fun (spill, seen') =>
          (readPlace pool (gepWalk pool (baseTy projections passedTy) projections)
            (.readSlot index (slotOf pool signature (.place index projections passedTy)))).map
              fun read => (spill ++ read, seen') := rfl

theorem lowerUse_eq (ok : SlotsMatch pool signature.params) (typed : Typed pool signature use)
    (lowers : UseLowers pool signature seen use) :
    lowerUse pool signature seen use = some (spillOf pool signature seen use ++ readOf pool signature use,
        see (cellOf pool signature) seen use) := by
  cases use with
  | param index =>
    obtain ⟨param, at_, sized⟩ := typed
    rw [lowerUse_param, nthParam_abiSlot ok at_ sized, Option.bind_some]
    by_cases byRef : slotByRef pool signature (.param index) = true
    · obtain ⟨ty, isTy⟩ := Option.isSome_iff_exists.mp (lowers byRef)
      simp [isTy, spillOf, cellOf, readOf, see, byRef]
    · simp [spillOf, cellOf, readOf, see, byRef]
  | place index projections passedTy =>
    have walks := lowers.1
    obtain ⟨param, at_, _⟩ := id typed
    rw [lowerUse_place]
    by_cases byRef : slotByRef pool signature (.place index projections passedTy) = true
    · obtain ⟨llvmIdx, position⟩ := @nthParam_byRef pool signature ok
        (.place index projections passedTy) param at_ byRef
      have read : (if isRead pool (.place index projections passedTy) then
          [Instr.throughArgument index llvmIdx] else []) =
          readOf pool signature (.place index projections passedTy) := by
        by_cases reads : isRead pool (.place index projections passedTy) = true
        · have sized : 0 < param.slotCount pool := by
            by_contra unsized
            have unread := (place_unsized ok typed at_ (by omega)).2
            rw [reads] at unread
            cases unread
          have same : some llvmIdx = some (argPosition pool signature.params index) :=
            position.symm.trans (nthParam_abiSlot ok at_ sized)
          cases same
          simp [readOf, reads, byRef]
        · simp [readOf, reads]
      rw [if_pos byRef, position, Option.bind_some, @readPlace_eq pool index _ _ _ walks, read]
      simp [spillOf, cellOf, see, byRef]
    · have byValue := (Bool.not_eq_true _).mp byRef
      rw [if_neg byRef, getOrCreateParamAlloca_eq ok typed lowers byValue, Option.bind_some]
      rw [@readPlace_eq pool index _ _ _ walks]
      simp [readOf, byValue]
  | store index valueTy =>
    obtain ⟨param, at_, byRef⟩ := typed
    have one : param.slotCount pool = 1 := slotCount_isByRef byRef
    have position := nthParam_abiSlot ok at_ (by omega)
    obtain ⟨ty, isTy⟩ := Option.isSome_iff_exists.mp lowers
    simp [lowerUse, isTy, position, spillOf, cellOf, readOf, see]

theorem lowers_of_lowerUse (isSome : (lowerUse pool signature seen use).isSome = true) :
    UseLowers pool signature seen use := by
  obtain ⟨_, lowered⟩ := Option.isSome_iff_exists.mp isSome
  cases use with
  | param index =>
    intro byRef
    rw [lowerUse_param] at lowered
    obtain ⟨llvmIdx, _, lowered⟩ := Option.bind_eq_some_iff.mp lowered
    rw [if_pos byRef] at lowered
    obtain ⟨ty, isTy, _⟩ := Option.map_eq_some_iff.mp lowered
    exact Option.isSome_of_eq_some isTy
  | place index projections passedTy =>
    rw [lowerUse_place] at lowered
    have walked : ∀ {instr : Instr} {read : List Instr},
        readPlace pool (gepWalk pool (baseTy projections passedTy) projections) instr = some read →
          (gepWalk pool (baseTy projections passedTy) projections).isSome = true := by
      intro instr read isRead
      obtain ⟨_, walk, _⟩ := Option.map_eq_some_iff.mp isRead
      exact Option.isSome_of_eq_some walk
    by_cases byRef : slotByRef pool signature (.place index projections passedTy) = true
    · rw [if_pos byRef] at lowered
      obtain ⟨llvmIdx, _, lowered⟩ := Option.bind_eq_some_iff.mp lowered
      obtain ⟨read, isRead, _⟩ := Option.map_eq_some_iff.mp lowered
      refine ⟨walked isRead, fun slot isCell => ?_⟩
      simp [cellOf, byRef] at isCell
    · rw [if_neg byRef] at lowered
      obtain ⟨_, isCreated, lowered⟩ := Option.bind_eq_some_iff.mp lowered
      obtain ⟨read, isRead, _⟩ := Option.map_eq_some_iff.mp lowered
      refine ⟨walked isRead, fun slot isCell => ?_⟩
      simp only [cellOf, byRef, Bool.false_eq_true, if_false, Option.some.injEq] at isCell
      by_cases member : slot ∈ seen
      · exact Or.inl member
      · right
        unfold getOrCreateParamAlloca at isCreated
        rw [isCell, if_neg member] at isCreated
        obtain ⟨_, _, isCreated⟩ := Option.bind_eq_some_iff.mp isCreated
        obtain ⟨_, isSlotTy, _⟩ := Option.bind_eq_some_iff.mp isCreated
        exact Option.isSome_of_eq_some isSlotTy
  | store index valueTy =>
    obtain ⟨ty, isTy, _⟩ := Option.bind_eq_some_iff.mp lowered
    exact Option.isSome_of_eq_some isTy

variable (pool signature) in
def AllLower (seen : List Nat) : List ParamUse → Prop
  | [] => True
  | use :: rest =>
    UseLowers pool signature seen use ∧ AllLower (see (cellOf pool signature) seen use) rest

theorem allLower_append {later : List ParamUse} :
    AllLower pool signature seen (uses ++ later) ↔ AllLower pool signature seen uses ∧
      AllLower pool signature (uses.foldl (see (cellOf pool signature)) seen) later := by
  induction uses generalizing seen with
  | nil => simp [AllLower]
  | cons use rest ih => simp [AllLower, ih, and_assoc]

theorem mem_foldl_see {slot : Nat} : slot ∈ uses.foldl (see (cellOf pool signature)) seen ↔
      slot ∈ seen ∨ slot ∈ uses.filterMap (cellOf pool signature) := by
  induction uses generalizing seen with
  | nil => simp
  | cons use rest ih =>
    rw [List.foldl_cons, ih, FirstUse.mem_see_iff]
    cases isCell : cellOf pool signature use with
    | none => simp [isCell]
    | some cell => simp [isCell, or_assoc, eq_comm]

theorem useLowers_congr (same : ∀ slot, slot ∈ seen ↔ slot ∈ seen') (use : ParamUse) :
    UseLowers pool signature seen use ↔ UseLowers pool signature seen' use := by
  cases use <;> simp [UseLowers, same]

theorem allLower_iff : AllLower pool signature [] uses ↔ ∀ before use after, uses = before ++ use :: after →
      UseLowers pool signature (before.filterMap (cellOf pool signature)) use := by
  have known : ∀ before : List ParamUse, ∀ slot, slot ∈ before.foldl (see (cellOf pool signature)) [] ↔
        slot ∈ before.filterMap (cellOf pool signature) := by
    intro before slot
    rw [mem_foldl_see]
    simp
  constructor
  · intro all before use after split
    rw [split, allLower_append] at all
    exact (useLowers_congr (known before) use).mp all.2.1
  · intro each
    induction uses using List.reverseRecOn with
    | nil => trivial
    | append_singleton uses use ih =>
      rw [allLower_append]
      refine ⟨ih fun before other after split => ?_, ?_, trivial⟩
      · exact each before other (after ++ [use]) (by rw [split]; simp)
      · exact (useLowers_congr (known uses) use).mpr (each uses use [] rfl)

section

variable (ok : SlotsMatch pool signature.params)
include ok

theorem lowerUses_isSome_iff (typed : ∀ use ∈ uses, Typed pool signature use) :
    (lowerUses pool signature seen uses).isSome = true ↔ AllLower pool signature seen uses := by
  induction uses generalizing seen with
  | nil => simp [lowerUses, AllLower]
  | cons use rest ih =>
    obtain ⟨own, others⟩ := List.forall_mem_cons.mp typed
    rw [lowerUses, AllLower]
    constructor
    · intro lowered
      have lowers : UseLowers pool signature seen use := by
        apply lowers_of_lowerUse
        cases first : lowerUse pool signature seen use with
        | none => simp [first] at lowered
        | some code => rfl
      rw [lowerUse_eq ok own lowers, Option.bind_some] at lowered
      exact ⟨lowers, (ih others).mp (by simpa using lowered)⟩
    · rintro ⟨lowers, rest⟩
      rw [lowerUse_eq ok own lowers, Option.bind_some]
      simpa using (ih others).mpr rest

theorem lowerUses_seen (typed : ∀ use ∈ uses, Typed pool signature use)
    (lowered : lowerUses pool signature seen uses = some (code, seen')) :
    seen' = uses.foldl (see (cellOf pool signature)) seen := by
  induction uses generalizing seen code with
  | nil =>
    cases lowered
    rfl
  | cons use rest ih =>
    obtain ⟨own, others⟩ := List.forall_mem_cons.mp typed
    have lowers := ((lowerUses_isSome_iff ok typed).mp (Option.isSome_of_eq_some lowered)).1
    rw [lowerUses, lowerUse_eq ok own lowers, Option.bind_some] at lowered
    obtain ⟨_, lowersRest, isCode⟩ := Option.map_eq_some_iff.mp lowered
    cases isCode
    exact ih others lowersRest

theorem lowerBlocks_isSome_iff (typed : ∀ block ∈ blocks, ∀ use ∈ block.uses, Typed pool signature use) :
    (lowerBlocks pool signature seen blocks).isSome = true ↔
      AllLower pool signature seen (blocks.flatMap ParamBlock.uses) := by
  induction blocks generalizing seen with
  | nil => simp [lowerBlocks, AllLower]
  | cons block rest ih =>
    obtain ⟨own, others⟩ := List.forall_mem_cons.mp typed
    rw [lowerBlocks, List.flatMap_cons, allLower_append, ← lowerUses_isSome_iff ok own]
    cases lowered : lowerUses pool signature seen block.uses with
    | none => simp
    | some result =>
      rw [← lowerUses_seen ok own lowered, ← ih others]
      simp

theorem lowerBlocks_getElem (typed : ∀ block ∈ blocks, ∀ use ∈ block.uses, Typed pool signature use)
    {codes : List (List Instr)} (lowered : lowerBlocks pool signature seen blocks = some codes)
    {number : Nat} {block : ParamBlock} (at_ : blocks[number]? = some block) :
    ∃ seen' code seen'', codes[number]? = some code ∧
      lowerUses pool signature seen' block.uses = some (code, seen'') ∧
      ∀ slot, slot ∈ seen' ↔ slot ∈ seen ∨
        slot ∈ seenBefore (cellOf pool signature) (blocks.map ParamBlock.uses) number := by
  induction blocks generalizing seen number codes with
  | nil => simp at at_
  | cons first rest ih =>
    obtain ⟨own, others⟩ := List.forall_mem_cons.mp typed
    obtain ⟨result, lowersFirst, lowered⟩ := Option.bind_eq_some_iff.mp lowered
    obtain ⟨firstCode, afterFirst⟩ := result
    obtain ⟨_, lowersRest, isCodes⟩ := Option.map_eq_some_iff.mp lowered
    subst isCodes
    cases number with
    | zero =>
      cases at_
      exact ⟨seen, firstCode, afterFirst, rfl, lowersFirst, by simp [seenBefore]⟩
    | succ number =>
      obtain ⟨seen', code, seen'', isCode, lowers, same⟩ := ih others lowersRest at_
      refine ⟨seen', code, seen'', isCode, lowers, fun slot => ?_⟩
      rw [same, lowerUses_seen ok own lowersFirst, mem_foldl_see]
      simp [seenBefore, or_assoc]

end

variable (signature) in
/-- A use finds what the argument of its parameter brings: the storage it points to or the
argument itself. -/
def Supplied (passed : List Nat) (found : Nat × Found) : Prop :=
  ∃ param, signature.params[found.1]? = some param ∧ ∃ llvmIdx, passed[llvmIdx]? = some found.1 ∧
    found.2 = if param.isByRef then .storage llvmIdx else .value llvmIdx

theorem supplied_iff {found : Found} (at_ : signature.params[index]? = some param)
    (lowered : (param.llvmTy pool).isSome = true) :
    Supplied signature (origins pool signature.params 0) (index, found) ↔
      found = if param.isByRef then .storage (argPosition pool signature.params index)
        else .value (argPosition pool signature.params index) := by
  constructor
  · rintro ⟨_, otherAt, _, passed, isFound⟩
    rw [at_] at otherAt
    cases otherAt
    rw [((origins_getElem_iff at_).mp passed).2] at isFound
    exact isFound
  · intro isFound
    exact ⟨param, at_, _, (origins_getElem_iff at_).mpr ⟨lowered, rfl⟩, isFound⟩

theorem exec_append (cells : Cells) (code later : List Instr) : exec cells (code ++ later) =
      ((exec (exec cells code).1 later).1, (exec cells code).2 ++ (exec (exec cells code).1 later).2) := by
  induction code generalizing cells with
  | nil => rfl
  | cons instr rest ih => simp [exec, ih]

theorem exec_readOf (cells : Cells) (use : ParamUse) : (exec cells (readOf pool signature use)).1 = cells := by
  cases use with
  | param index =>
    simp only [readOf]
    split <;> rfl
  | place index projections passedTy =>
    simp only [readOf]
    split
    · split <;> rfl
    · rfl
  | store index valueTy => rfl

theorem exec_spillOf (cells : Cells) (seen : List Nat) (use : ParamUse) :
    exec cells (spillOf pool signature seen use) =
      (fill (cellOf pool signature) (content pool signature) seen [use] cells, []) := by
  unfold spillOf
  cases isCell : cellOf pool signature use with
  | none =>
    simp only [exec, Prod.mk.injEq, and_true]
    funext slot
    simp [fill, firstOf, isCell]
  | some own =>
    by_cases member : own ∈ seen
    · simp only [member, if_true, exec, Prod.mk.injEq, and_true]
      funext slot
      by_cases same : own = slot
      · subst same
        simp [fill, member]
      · simp [fill, firstOf, isCell, same]
    · simp only [member, if_false, exec, execInstr, List.append_nil, Prod.mk.injEq, and_true]
      funext slot
      by_cases same : slot = own
      · subst same
        simp [fill, firstOf, isCell, member, content]
      · simp [fill, firstOf, isCell, same, Ne.symm same]

theorem supplied_readOf_iff (ok : SlotsMatch pool signature.params)
    (typed : Typed pool signature use) (cells : Cells) :
    (∀ found ∈ (exec cells (readOf pool signature use)).2,
        Supplied signature (origins pool signature.params 0) found) ↔
      ∀ slot, cellOf pool signature use = some slot → isRead pool use = true →
        cells slot = some (argPosition pool signature.params use.index) := by
  have sizedSome : ∀ {param : Param}, param ∈ signature.params → 0 < param.slotCount pool →
      (param.llvmTy pool).isSome = true := fun member sized => (ok.sized _ member).mp sized
  cases use with
  | param index =>
    obtain ⟨param, at_, sized⟩ := typed
    have view := @slotByRef_sized pool signature (.param index) param at_ sized
    have lowered := sizedSome (List.mem_of_getElem? at_) sized
    constructor
    · intro _ slot isCell
      cases isCell
    · intro _ found member
      cases byRef : param.isByRef with
      | true =>
        simp only [readOf, view, byRef, if_true, exec, execInstr, List.append_nil, List.mem_singleton] at member
        rw [member]
        exact (supplied_iff at_ lowered).mpr (by rw [byRef]; rfl)
      | false =>
        simp only [readOf, view, byRef, Bool.false_eq_true, if_false, exec, execInstr,
          List.append_nil, List.mem_singleton] at member
        rw [member]
        exact (supplied_iff at_ lowered).mpr (by rw [byRef]; rfl)
  | place index projections passedTy =>
    obtain ⟨param, at_, _⟩ := id typed
    by_cases reads : isRead pool (.place index projections passedTy) = true
    · have sized : 0 < param.slotCount pool := by
        by_contra unsized
        have unread := (place_unsized ok typed at_ (by omega)).2
        rw [reads] at unread
        cases unread
      have view := @slotByRef_sized pool signature (.place index projections passedTy) param at_ sized
      have lowered := sizedSome (List.mem_of_getElem? at_) sized
      cases byRef : param.isByRef with
      | true =>
        constructor
        · intro _ slot isCell
          simp [cellOf, view, byRef] at isCell
        · intro _ found member
          simp only [readOf, reads, view, byRef, if_true, exec, execInstr, List.append_nil,
            List.mem_singleton] at member
          rw [member]
          exact (supplied_iff at_ lowered).mpr (by rw [byRef]; rfl)
      | false =>
        simp only [readOf, reads, view, byRef, Bool.false_eq_true, if_true, if_false, exec,
          execInstr, List.append_nil, List.mem_singleton, forall_eq, cellOf, Option.some.injEq,
          true_implies, forall_eq']
        rw [supplied_iff at_ lowered, byRef]
        cases cells (slotOf pool signature (.place index projections passedTy)) with
        | none => simp
        | some llvmIdx => simp
    · constructor
      · intro _ slot _ isRead
        exact absurd isRead reads
      · intro _ found member
        simp [readOf, reads, exec] at member
  | store index valueTy =>
    obtain ⟨param, at_, byRef⟩ := typed
    have one : param.slotCount pool = 1 := slotCount_isByRef byRef
    have lowered := sizedSome (List.mem_of_getElem? at_) (by omega)
    constructor
    · intro _ slot isCell
      cases isCell
    · intro _ found member
      simp only [readOf, exec, execInstr, List.append_nil, List.mem_singleton] at member
      rw [member]
      exact (supplied_iff at_ lowered).mpr (by rw [byRef]; rfl)

theorem exec_lowerUses (ok : SlotsMatch pool signature.params) (typed : ∀ use ∈ uses, Typed pool signature use)
    (lowered : lowerUses pool signature seen uses = some (code, seen')) (cells : Cells) :
    (exec cells code).1 = fill (cellOf pool signature) (content pool signature) seen uses cells ∧
      ((∀ found ∈ (exec cells code).2, Supplied signature (origins pool signature.params 0) found) ↔
        ∀ use ∈ uses, ∀ slot, cellOf pool signature use = some slot → isRead pool use = true →
          fill (cellOf pool signature) (content pool signature) seen uses cells slot =
            some (argPosition pool signature.params use.index)) := by
  induction uses generalizing seen code cells with
  | nil =>
    cases lowered
    refine ⟨FirstUse.fill_nil.symm, ?_⟩
    simp [exec]
  | cons use rest ih =>
    obtain ⟨own, others⟩ := List.forall_mem_cons.mp typed
    have lowers := ((lowerUses_isSome_iff ok typed).mp (Option.isSome_of_eq_some lowered)).1
    rw [lowerUses, lowerUse_eq ok own lowers, Option.bind_some] at lowered
    obtain ⟨_, lowersRest, isCode⟩ := Option.map_eq_some_iff.mp lowered
    cases isCode
    have first : exec cells (spillOf pool signature seen use ++ readOf pool signature use) =
        (fill (cellOf pool signature) (content pool signature) seen [use] cells,
          (exec (fill (cellOf pool signature) (content pool signature) seen [use] cells)
            (readOf pool signature use)).2) := by
      rw [exec_append, exec_spillOf, exec_readOf]
      rfl
    obtain ⟨restCells, restSupplied⟩ := ih others lowersRest
      (fill (cellOf pool signature) (content pool signature) seen [use] cells)
    have stepwise : fill (cellOf pool signature) (content pool signature) seen (use :: rest) cells =
        fill (cellOf pool signature) (content pool signature) (see (cellOf pool signature) seen use)
          rest (fill (cellOf pool signature) (content pool signature) seen [use] cells) :=
      FirstUse.fill_cons
    rw [exec_append, first, stepwise]
    refine ⟨restCells, ?_⟩
    simp only [List.forall_mem_append, List.forall_mem_cons]
    rw [restSupplied, supplied_readOf_iff ok own]
    apply and_congr_left'
    apply forall_congr'
    intro slot
    apply imp_congr_right
    intro isCell
    rw [FirstUse.fill_of_mem (FirstUse.mem_see_iff.mpr (Or.inr isCell))]

theorem exec_path (ok : SlotsMatch pool signature.params)
    (typed : ∀ block ∈ blocks, ∀ use ∈ block.uses, Typed pool signature use)
    {code : List (List Instr)} (lowered : lowerBody pool signature blocks = some code)
    {path : List Nat} (inRange : ∀ number ∈ path, number < blocks.length) :
    (exec (fun _ => none) (pathCode code path)).1 =
        runPath (cellOf pool signature) (content pool signature) (blocks.map ParamBlock.uses) path ∧
      ((∀ found ∈ (exec (fun _ => none) (pathCode code path)).2,
          Supplied signature (origins pool signature.params 0) found) ↔
        ∀ before number after, path = before ++ number :: after →
          ∀ block, blocks[number]? = some block → ∀ use ∈ block.uses, ∀ slot,
            cellOf pool signature use = some slot → isRead pool use = true →
              runPath (cellOf pool signature) (content pool signature)
                  (blocks.map ParamBlock.uses) (before ++ [number]) slot =
                some (argPosition pool signature.params use.index)) := by
  induction path using List.reverseRecOn with
  | nil => simp [pathCode, exec, runPath]
  | append_singleton path number ih =>
    obtain ⟨cells, supplied⟩ := ih fun other member => inRange other (by simp [member])
    have bound := inRange number (by simp)
    have at_ : blocks[number]? = some blocks[number] := List.getElem?_eq_getElem bound
    have inBlock := typed _ (List.getElem_mem bound)
    obtain ⟨seen, blockCode, _, isCode, lowers, same⟩ :=
      lowerBlocks_getElem ok typed lowered at_
    obtain ⟨left, found⟩ := exec_lowerUses ok inBlock lowers
      (runPath (cellOf pool signature) (content pool signature) (blocks.map ParamBlock.uses) path)
    have filled : fill (cellOf pool signature) (content pool signature) seen blocks[number].uses
          (runPath (cellOf pool signature) (content pool signature) (blocks.map ParamBlock.uses) path) =
        runPath (cellOf pool signature) (content pool signature) (blocks.map ParamBlock.uses) (path ++ [number]) := by
      have sameSeen : ∀ slot, slot ∈ seen ↔
          slot ∈ seenBefore (cellOf pool signature) (blocks.map ParamBlock.uses) number :=
        fun slot => (same slot).trans (by simp)
      rw [FirstUse.runPath_append_singleton, List.getElem?_map, at_, FirstUse.fill_congr sameSeen]
      rfl
    have split : pathCode code (path ++ [number]) = pathCode code path ++ blockCode := by
      simp [pathCode, isCode]
    rw [filled] at left found
    rw [split, exec_append, cells]
    refine ⟨left, ?_⟩
    simp only [List.forall_mem_append]
    rw [supplied, found]
    constructor
    · rintro ⟨earlier, last⟩ before other after isPath block otherAt use member
      rcases List.eq_nil_or_concat after with empty | ⟨init, _, isAfter⟩
      · subst empty
        obtain ⟨isBefore, isNumber⟩ := List.append_inj' isPath rfl
        cases isNumber
        rw [at_] at otherAt
        cases otherAt
        rw [← isBefore]
        exact last use member
      · subst isAfter
        have shorter : path = before ++ other :: init := by
          rw [List.concat_eq_append, ← List.cons_append, ← List.append_assoc] at isPath
          exact (List.append_inj' isPath rfl).1
        exact earlier before other init shorter block otherAt use member
    · intro each
      refine ⟨fun before other after isPath => ?_, each path number [] rfl _ at_⟩
      exact each before other (after ++ [number]) (by rw [isPath]; simp)

variable (pool) in
/-- A function and a call of it, as the type checker lets them pass. -/
structure Program where
  signature : Signature
  caller : List Param
  args : List CallArg
  blocks : List ParamBlock
  conforms : List.Forall₂ (Conforms signature caller) args signature.params
  typed : ∀ block ∈ blocks, ∀ use ∈ block.uses, Typed pool signature use

namespace Program

variable (program : Program pool)
variable {use : ParamUse} {operands : List (Nat × Operand)} {slot : Nat}
variable {param : Param} {code : List (List Instr)}

def writes (index : Nat) (param : Param) (arg : CallArg) : Prop :=
  program.signature.params[index]? = some param ∧ program.args[index]? = some arg ∧
    param.isMutRef = true ∧ (gruelTypeToLlvm pool (program.signature.valueTy param)).isSome = true

/-- The lowered call passes what the lowered function declares, each parameter's slot stands for
the parameter's argument, writes through mutable references reach the caller's variables, and on
every path every use finds what the call supplies. -/
structure IntactWith (operands : List (Nat × Operand)) (code : List (List Instr)) : Prop where
  argsLower : lowerArgs pool program.caller program.args 0 = some operands
  bodyLowers : lowerBody pool program.signature program.blocks = some code
  declared : operands.map (fun entry => entry.2.llvmTy) =
    Params.collectParamTypes pool (paramSlots pool program.signature.params)
  arrives : ∀ index param, program.signature.params[index]? = some param → 0 < param.slotCount pool →
      ∃ llvmIdx, (buildSlotToLlvmParam pool (paramSlots pool program.signature.params))[
          abiSlot pool program.signature.params index]? = some llvmIdx ∧
        (operands.map Prod.fst)[llvmIdx]? = some index
  visible : ∀ index param arg, program.writes index param arg → WriteVisible program.caller operands index arg
  supplied : ∀ path, IsPath program.blocks path → ∀ found ∈ (exec (fun _ => none) (pathCode code path)).2,
      Supplied program.signature (operands.map Prod.fst) found

def Intact : Prop := ∃ operands code, program.IntactWith operands code

/-- The path has been through the block whose code spills the parameter, into a slot that holds it. -/
def SpilledBy (path : List Nat) (slot : Nat) : Prop :=
  firstBlock (cellOf pool program.signature) (program.blocks.map ParamBlock.uses) slot ∈ path.map some ∧
    ∃ first, firstOf (cellOf pool program.signature) (program.blocks.map ParamBlock.uses).flatten slot = some first ∧
      fits pool program.signature first = true

structure Passing : Prop where
  slots : SlotsMatch pool program.signature.params
  addressed : ∀ arg ∈ program.args, arg.mode.isByRef = true → Addressed pool program.caller arg
  inMemory : ∀ index param arg, program.writes index param arg →
    ∀ number, arg.target = some (.param number) → isParamByRef program.caller[number]? = true
  lowers : ∀ before use after, program.blocks.flatMap ParamBlock.uses = before ++ use :: after →
      UseLowers pool program.signature (before.filterMap (cellOf pool program.signature)) use
  spilled : ∀ path, IsPath program.blocks path → ∀ before number after,
    path = before ++ number :: after → ∀ block, program.blocks[number]? = some block →
      ∀ use ∈ block.uses, ∀ slot, cellOf pool program.signature use = some slot →
        isRead pool use = true → program.SpilledBy (before ++ [number]) slot

variable {program}

theorem arrives_iff (origin : operands.map Prod.fst = origins pool program.signature.params 0) :
    (∀ index param, program.signature.params[index]? = some param → 0 < param.slotCount pool →
      ∃ llvmIdx, (buildSlotToLlvmParam pool (paramSlots pool program.signature.params))[
          abiSlot pool program.signature.params index]? = some llvmIdx ∧
        (operands.map Prod.fst)[llvmIdx]? = some index) ↔
      TableAgrees pool program.signature.params 0 ∧ ∀ param ∈ program.signature.params, 0 < param.slotCount pool →
          (param.llvmTy pool).isSome = true := by
  rw [origin]
  constructor
  · intro arrives
    constructor
    · intro index param at_ sized
      obtain ⟨llvmIdx, mapped, passed⟩ := arrives index param at_ sized
      rw [Nat.zero_add, ← ((origins_getElem_iff at_).mp passed).2]
      exact mapped
    · intro param member sized
      obtain ⟨index, at_⟩ := List.mem_iff_getElem?.mp member
      obtain ⟨llvmIdx, _, passed⟩ := arrives index param at_ sized
      exact ((origins_getElem_iff at_).mp passed).1
  · rintro ⟨agrees, lowered⟩ index param at_ sized
    refine ⟨argPosition pool program.signature.params index, ?_, ?_⟩
    · have mapped := agrees index param at_ sized
      rwa [Nat.zero_add] at mapped
    · exact (origins_getElem_iff at_).mpr ⟨lowered param (List.mem_of_getElem? at_) sized, rfl⟩

theorem argPosition_of_slot (ok : SlotsMatch pool signature.params) {other : ParamUse}
    {otherParam : Param} (at_ : signature.params[use.index]? = some param)
    (sized : 0 < param.slotCount pool) (otherAt : signature.params[other.index]? = some otherParam)
    (otherSized : 0 < otherParam.slotCount pool)
    (same : slotOf pool signature use = slotOf pool signature other) :
    argPosition pool signature.params use.index = argPosition pool signature.params other.index := by
  have own := nthParam_abiSlot ok at_ sized
  have others := nthParam_abiSlot ok otherAt otherSized
  unfold slotOf at same
  rw [same, others] at own
  exact (Option.some.inj own).symm

theorem cellOf_place (isCell : cellOf pool signature use = some slot) : slotOf pool signature use = slot ∧
      ∃ index projections passedTy, use = .place index projections passedTy := by
  cases use with
  | param index => cases isCell
  | place index projections passedTy =>
    refine ⟨?_, index, projections, passedTy, rfl⟩
    simp only [cellOf] at isCell
    split at isCell
    · cases isCell
    · exact Option.some.inj isCell
  | store index valueTy => cases isCell

theorem fits_sized (ok : SlotsMatch pool signature.params) (typed : Typed pool signature use)
    (isFit : fits pool signature use = true) :
    ∃ param, signature.params[use.index]? = some param ∧ 0 < param.slotCount pool := by
  cases use with
  | param index => cases isFit
  | place index projections passedTy =>
    have ⟨param, at_, _⟩ := typed
    refine ⟨param, at_, ?_⟩
    by_contra unsized
    have none := (place_unsized ok typed at_ (by omega)).1
    simp [fits, none] at isFit
  | store index valueTy => cases isFit

theorem isRead_sized (ok : SlotsMatch pool signature.params) (typed : Typed pool signature use)
    (isCell : cellOf pool signature use = some slot) (reads : isRead pool use = true) :
    ∃ param, signature.params[use.index]? = some param ∧ 0 < param.slotCount pool := by
  obtain ⟨_, index, _, _, isPlace⟩ := cellOf_place isCell
  subst isPlace
  have ⟨param, at_, _⟩ := typed
  refine ⟨param, at_, ?_⟩
  by_contra unsized
  have unread := (place_unsized ok typed at_ (by omega)).2
  rw [reads] at unread
  cases unread

theorem runPath_eq_some_iff (ok : SlotsMatch pool program.signature.params) (typed : Typed pool program.signature use)
    (isCell : cellOf pool program.signature use = some slot) (reads : isRead pool use = true)
    (path : List Nat) :
    runPath (cellOf pool program.signature) (content pool program.signature)
        (program.blocks.map ParamBlock.uses) path slot =
      some (argPosition pool program.signature.params use.index) ↔ program.SpilledBy path slot := by
  rw [FirstUse.runPath_apply]
  unfold SpilledBy
  by_cases visited : firstBlock (cellOf pool program.signature)
      (program.blocks.map ParamBlock.uses) slot ∈ path.map some
  · rw [if_pos visited, Option.bind_eq_some_iff]
    constructor
    · rintro ⟨first, isFirst, held⟩
      refine ⟨visited, first, isFirst, ?_⟩
      unfold content at held
      split at held
      · assumption
      · cases held
    · rintro ⟨_, first, isFirst, isFit⟩
      refine ⟨first, isFirst, ?_⟩
      obtain ⟨inFlat, firstCell⟩ := FirstUse.firstOf_key isFirst
      obtain ⟨uses, inBlocks, inUses⟩ := List.mem_flatten.mp inFlat
      obtain ⟨block, inProgram, isUses⟩ := List.mem_map.mp inBlocks
      rw [← isUses] at inUses
      obtain ⟨_, at_, sized⟩ := fits_sized ok (program.typed block inProgram first inUses) isFit
      obtain ⟨_, useAt, useSized⟩ := isRead_sized ok typed isCell reads
      rw [content, if_pos isFit, argPosition_of_slot ok at_ sized useAt useSized
        ((cellOf_place firstCell).1.trans (cellOf_place isCell).1.symm)]
  · simp [visited]

theorem writes_conforms {index : Nat} {arg : CallArg} (isWrite : program.writes index param arg) :
    Conforms program.signature program.caller arg param := by
  obtain ⟨paramAt, argAt, _⟩ := isWrite
  obtain ⟨_, each⟩ := List.forall₂_iff_get.mp program.conforms
  obtain ⟨argBound, isArg⟩ := List.getElem?_eq_some_iff.mp argAt
  obtain ⟨paramBound, isParam⟩ := List.getElem?_eq_some_iff.mp paramAt
  have own := each index argBound paramBound
  simpa [isArg, isParam] using own

theorem IntactWith.slotsMatch (intact : program.IntactWith operands code) :
    SlotsMatch pool program.signature.params := by
  obtain ⟨types, origin⟩ := lowerArgs_operands program.conforms intact.argsLower
  have declared := intact.declared
  rw [types] at declared
  exact (slotsMatch_iff _).mpr ⟨declared, (arrives_iff origin).mp intact.arrives⟩

theorem IntactWith.spilledBy {operands : List (Nat × Operand)} {code : List (List Instr)}
    (intact : program.IntactWith operands code) {path : List Nat} (isPath : IsPath program.blocks path)
    {before after : List Nat} {number : Nat} (split : path = before ++ number :: after)
    {block : ParamBlock} (at_ : program.blocks[number]? = some block) {use : ParamUse}
    (member : use ∈ block.uses) {slot : Nat} (isCell : cellOf pool program.signature use = some slot)
    (reads : isRead pool use = true) : program.SpilledBy (before ++ [number]) slot := by
  have ok := intact.slotsMatch
  have supplied := intact.supplied path isPath
  rw [(lowerArgs_operands program.conforms intact.argsLower).2] at supplied
  have typed := program.typed block (List.mem_of_getElem? at_) use member
  exact (runPath_eq_some_iff ok typed isCell reads _).mp
    ((exec_path ok program.typed intact.bodyLowers isPath.2.1).2.mp supplied before number after split
      block at_ use member slot isCell reads)

theorem IntactWith.passing (intact : program.IntactWith operands code) : program.Passing where
  slots := intact.slotsMatch
  addressed := (lowerArgs_isSome_iff program.args 0).mp (Option.isSome_of_eq_some intact.argsLower)
  inMemory index param arg isWrite :=
    (writeVisible_iff intact.argsLower isWrite.2.1 (writes_conforms isWrite)).mp
      (intact.visible index param arg isWrite)
  lowers := allLower_iff.1 ((lowerBlocks_isSome_iff intact.slotsMatch program.typed).mp
    (Option.isSome_of_eq_some intact.bodyLowers))
  spilled _ isPath _ _ _ split _ at_ _ member _ isCell reads :=
    intact.spilledBy isPath split at_ member isCell reads

theorem Passing.intact (passing : program.Passing) : program.Intact := by
  have ok := passing.slots
  obtain ⟨operands, argsLower⟩ := Option.isSome_iff_exists.mp
    ((lowerArgs_isSome_iff program.args 0).mpr passing.addressed)
  obtain ⟨code, bodyLowers⟩ := Option.isSome_iff_exists.mp
    ((lowerBlocks_isSome_iff ok program.typed).mpr (allLower_iff.2 passing.lowers))
  obtain ⟨types, origin⟩ := lowerArgs_operands program.conforms argsLower
  refine ⟨operands, code, argsLower, bodyLowers, ?_, ?_, ?_, ?_⟩
  · rw [types, ok.collectParamTypes]
  · exact (arrives_iff origin).mpr ((slotsMatch_iff _).mp ok).2
  · intro index param arg isWrite
    exact (writeVisible_iff argsLower isWrite.2.1 (writes_conforms isWrite)).mpr
      (passing.inMemory index param arg isWrite)
  · intro path isPath
    rw [origin]
    apply (exec_path ok program.typed bodyLowers isPath.2.1).2.mpr
    intro before number after split block at_ use member slot isCell reads
    have typed := program.typed block (List.mem_of_getElem? at_) use member
    exact (runPath_eq_some_iff ok typed isCell reads _).mpr
      (passing.spilled path isPath before number after split block at_ use member slot isCell reads)

variable (program)

end Program

end Bodies

namespace ParamsSample

def pool : LayoutPool where
  structDef _ := { name := "Point", fields := [⟨"x", .i32⟩, ⟨"y", .i32⟩] }
  enumDef _ := { name := "E", variants := [] }
  arrayDef _ := (.i32, 1)
  rank
    | .struct _ | .array _ => 1
    | _ => 0
  rank_lt ty part member := by
    cases ty
    all_goals simp [TypeInternPool.components, StructDef.fieldTypes] at member <;> simp [member]

attribute [local simp] Param.isByRef

end ParamsSample

end Params

end Gruel
