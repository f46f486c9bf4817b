import Gruel.EncodingCore
import Gruel.DropGlueCore

/-!
What a drop owes to a value, and for which values the synthesized glue pays it: every
part that needs drop is dropped once, in order, after the destructor of its host.
-/

namespace Gruel

namespace Val

mutual

def depth : Val → Nat
  | .scalar => 0
  | .struct fields => depthOf fields + 1
  | .array elems => depthOf elems + 1
  | .enum _ payload => depthOf payload + 1
  | .vec _ elems => depthOf elems + 1

def depthOf : List Val → Nat
  | [] => 0
  | value :: values => max value.depth (depthOf values)

end

theorem depth_le_depthOf {value : Val} {values : List Val} (member : value ∈ values) :
    value.depth ≤ depthOf values := by
  induction values with
  | nil => cases member
  | cons head tail ih =>
    rcases List.mem_cons.mp member with rfl | inTail
    · exact Nat.le_max_left _ _
    · exact Nat.le_trans (ih inTail) (Nat.le_max_right _ _)

end Val

inductive Inhabits (pool : OwnershipPool) : Val → Ty → Prop
  | scalar {ty : Ty} (leaf : ty.isLeaf = true) (notVec : ∀ id, ty ≠ .vec id) : Inhabits pool .scalar ty
  | struct {id : StructId} {fields : List Val} (count : fields.length = (pool.structDef id).fieldTypes.length)
      (each : ∀ part ∈ (pool.structDef id).fieldTypes.zip fields, Inhabits pool part.2 part.1) :
      Inhabits pool (.struct fields) (.struct id)
  | array {id : ArrayTypeId} {elems : List Val} (count : elems.length = (pool.arrayDef id).2)
      (each : ∀ value ∈ elems, Inhabits pool value (pool.arrayDef id).1) :
      Inhabits pool (.array elems) (.array id)
  | enum {id : EnumId} {variant : Nat} {definition : EnumVariantDef} {payload : List Val}
      (active : (pool.enumDef id).variants[variant]? = some definition)
      (count : payload.length = definition.fields.length)
      (each : ∀ part ∈ definition.fields.zip payload, Inhabits pool part.2 part.1) :
      Inhabits pool (.enum variant payload) (.enum id)
  -- Without a buffer of its own a vector holds nothing that needs drop.
  | vec {id : PointeeId} {capacity : Nat} {elems : List Val}
      (each : ∀ value ∈ elems, Inhabits pool value (pool.vecDef id))
      (unowned : capacity = 0 → typeNeedsDrop pool.toLayoutPool (pool.vecDef id) = true → elems = []) :
      Inhabits pool (.vec capacity elems) (.vec id)

def destructorEffects (destructor : Option String) : List DropEffect :=
  destructor.toList.map fun name => .destructor name []

mutual

def owed (pool : OwnershipPool) : Ty → Val → List DropEffect
  | .struct id, .struct fields =>
    destructorEffects (pool.structDef id).destructor ++ owedParts pool .field (pool.structDef id).fieldTypes fields 0
  | .enum id, .enum variant payload =>
    destructorEffects (pool.enumDef id).destructor ++ owedParts pool .payload
        (((pool.enumDef id).variants[variant]?.map EnumVariantDef.fields).getD []) payload 0
  | .array id, .array elems =>
    owedParts pool .element (List.replicate elems.length (pool.arrayDef id).1) elems 0
  | .vec id, .vec capacity elems =>
    if capacity = 0 then []
    else owedParts pool .element (List.replicate elems.length (pool.vecDef id)) elems 0 ++ [.free]
  | _, _ => []

def owedParts (pool : OwnershipPool) (step : Nat → PartStep) : List Ty → List Val → Nat → List DropEffect
  | ty :: tys, value :: values, index =>
    (if typeNeedsDrop pool.toLayoutPool ty then [.dropPart [step index] (owed pool ty value)]
      else []) ++ owedParts pool step tys values (index + 1)
  | [], _, _ | _, [], _ => []

end

attribute [grind =] owed owedParts

variable {tys : List Ty} {values : List Val}

def droppableParts (pool : OwnershipPool) (tys : List Ty) (values : List Val) (start : Nat) :
    List ((Ty × Val) × Nat) :=
  ((tys.zip values).zipIdx start).filter fun entry =>
    typeNeedsDrop pool.toLayoutPool entry.1.1

def owedPart (pool : OwnershipPool) (step : Nat → PartStep) (entry : (Ty × Val) × Nat) : DropEffect :=
  .dropPart [step entry.2] (owed pool entry.1.1 entry.1.2)

attribute [local simp] droppableParts

theorem owedParts_eq (pool : OwnershipPool) (step : Nat → PartStep) (tys : List Ty)
    (values : List Val) (start : Nat) :
    owedParts pool step tys values start = (droppableParts pool tys values start).map (owedPart pool step) := by
  induction tys generalizing values start with
  | nil => cases values <;> rfl
  | cons ty tys ih =>
    cases values with
    | nil => rfl
    | cons value values =>
      rw [owedParts, ih]
      by_cases needsDrop : typeNeedsDrop pool.toLayoutPool ty = true
      · simp [needsDrop, owedPart]
      · simp [needsDrop]

theorem mapM_eq_some_map_iff {α β : Type} {run : α → Option β} {expected : α → β}
    (items : List α) : items.mapM run = some (items.map expected) ↔
      ∀ item ∈ items, run item = some (expected item) := by
  induction items with
  | nil => simp
  | cons item items ih =>
    rw [List.mapM_cons, List.map_cons, List.forall_mem_cons, ← ih]
    cases run item <;> cases items.mapM run <;> simp

theorem mapM_congr_mem {α β : Type} {first second : α → Option β} {items : List α}
    (same : ∀ item ∈ items, first item = second item) : items.mapM first = items.mapM second := by
  induction items with
  | nil => rfl
  | cons item items ih =>
    rw [List.mapM_cons, List.mapM_cons, same item (.head _), ih fun other member => same other (.tail _ member)]

theorem mapM_singletons {α β : Type} (run : α → Option β) (items : List α) :
    (items.mapM fun item => (run item).map fun result => [result]).map List.flatten = items.mapM run := by
  induction items with
  | nil => rfl
  | cons item items ih =>
    rw [List.mapM_cons, List.mapM_cons, ← ih]
    cases run item <;> cases items.mapM fun item => (run item).map fun result => [result] <;> rfl

theorem mem_droppableParts {pool : OwnershipPool} {entry : (Ty × Val) × Nat}
    (member : entry ∈ droppableParts pool tys values 0) :
    tys[entry.2]? = some entry.1.1 ∧ values[entry.2]? = some entry.1.2 ∧
      entry.1 ∈ tys.zip values ∧ typeNeedsDrop pool.toLayoutPool entry.1.1 = true := by
  obtain ⟨inZip, needsDrop⟩ := List.mem_filter.mp member
  have here := List.mem_zipIdx_iff_getElem?.mp inZip
  obtain ⟨tyHere, valueHere⟩ := List.getElem?_zip_eq_some.mp here
  exact ⟨tyHere, valueHere, List.mem_of_getElem? here, needsDrop⟩

theorem mem_zip_droppable {pool : OwnershipPool} {part : Ty × Val} (member : part ∈ tys.zip values)
    (needsDrop : typeNeedsDrop pool.toLayoutPool part.1 = true) :
    ∃ index, (part, index) ∈ droppableParts pool tys values 0 := by
  obtain ⟨index, here⟩ := List.mem_iff_getElem?.mp member
  exact ⟨index, List.mem_filter.mpr ⟨List.mem_zipIdx_iff_getElem?.mpr here, needsDrop⟩⟩

theorem dropsOf_eq {pool : OwnershipPool} (part : Nat → GlueOperand) (count : values.length = tys.length) :
    dropsOf pool.toLayoutPool part tys =
      (droppableParts pool tys values 0).map fun entry => ⟨part entry.2, entry.1.1⟩ := by
  have general : ∀ start, (tys.zipIdx start).filter (fun entry => typeNeedsDrop pool.toLayoutPool entry.1) =
      (droppableParts pool tys values start).map fun entry => (entry.1.1, entry.2) := by
    induction tys generalizing values with
    | nil => simp
    | cons ty tys ih =>
      cases values with
      | nil => simp at count
      | cons value values =>
        intro start
        have rest := @ih values (by simpa using count) (start + 1)
        by_cases needsDrop : typeNeedsDrop pool.toLayoutPool ty = true
        · simpa [needsDrop] using rest
        · simpa [needsDrop] using rest
  rw [dropsOf, general, List.map_map]
  rfl

section Run

variable {pool : OwnershipPool} {dropChild : Ty → Val → Option (List DropEffect)} {frame : GlueFrame}

variable {step : Nat → PartStep}
variable {tys : List Ty} {values : List Val}

def dropPartOf (dropChild : Ty → Val → Option (List DropEffect)) (step : Nat → PartStep)
    (entry : (Ty × Val) × Nat) : Option DropEffect :=
  (dropChild entry.1.1 entry.1.2).map (.dropPart [step entry.2])

theorem runDrops_dropsOf {part : Nat → GlueOperand} (count : values.length = tys.length)
    (finds : ∀ index value, values[index]? = some value → frame.eval (part index) = some (value, [step index])) :
    runDrops pool dropChild frame (dropsOf pool.toLayoutPool part tys) =
      (droppableParts pool tys values 0).mapM (dropPartOf dropChild step) := by
  rw [runDrops, dropsOf_eq part count, List.mapM_map, ← mapM_singletons (dropPartOf dropChild step)]
  congr 1
  apply mapM_congr_mem
  intro entry member
  obtain ⟨_, valueHere, _, needsDrop⟩ := mem_droppableParts member
  simp only [Function.comp_apply, runDrop, finds _ _ valueHere, needsDrop, Option.bind_eq_bind,
    Option.bind_some, if_true, dropPartOf, Option.map_map]
  cases dropChild entry.1.1 entry.1.2 <;> rfl

theorem dropPartOf_eq_owedPart {entry : (Ty × Val) × Nat} :
    dropPartOf dropChild step entry = some (owedPart pool step entry) ↔
      dropChild entry.1.1 entry.1.2 = some (owed pool entry.1.1 entry.1.2) := by
  simp only [dropPartOf, owedPart]
  cases dropChild entry.1.1 entry.1.2 <;> simp

theorem mapM_droppableParts : (droppableParts pool tys values 0).mapM (dropPartOf dropChild step) =
        some (owedParts pool step tys values 0) ↔
      ∀ part ∈ tys.zip values, typeNeedsDrop pool.toLayoutPool part.1 = true →
        dropChild part.1 part.2 = some (owed pool part.1 part.2) := by
  rw [owedParts_eq, mapM_eq_some_map_iff]
  constructor
  · intro each part member needsDrop
    obtain ⟨_, inParts⟩ := mem_zip_droppable member needsDrop
    exact dropPartOf_eq_owedPart.1 (each _ inParts)
  · intro each _ member
    obtain ⟨_, _, inZip, needsDrop⟩ := mem_droppableParts member
    exact dropPartOf_eq_owedPart.2 (each _ inZip needsDrop)

end Run

theorem getElem?_slotTable (pool : LayoutPool) {ty : Ty} (passed : abiSlotCount pool ty ≠ 0)
    (slots next index : Nat) :
    (buildSlotToLlvmParam pool (List.replicate slots ty) next)[index]? =
      if index < slots then some (next + index / abiSlotCount pool ty) else none := by
  induction slots using Nat.strongRecOn generalizing next index with
  | ind slots ih =>
    cases slots with
    | zero => simp [buildSlotToLlvmParam]
    | succ slots =>
      generalize width : abiSlotCount pool ty = slotCount at *
      rw [List.replicate_succ, buildSlotToLlvmParam]
      simp only [width, List.length_replicate, List.drop_replicate]
      rw [Nat.max_eq_left (by omega), if_pos (by omega)]
      by_cases inFirst : index < min slotCount (slots + 1)
      · rw [List.getElem?_append_left (by rwa [List.length_replicate]), List.getElem?_replicate,
          if_pos inFirst, if_pos (by omega), Nat.div_eq_of_lt (by omega), Nat.add_zero]
      · rw [List.getElem?_append_right (by rw [List.length_replicate]; omega), List.length_replicate,
          ih (slots - (slotCount - 1)) (by omega)]
        by_cases inside : index < slots + 1
        · have size : min slotCount (slots + 1) = slotCount := by omega
          rw [size, if_pos (by omega), if_pos inside]
          have back : index / slotCount = (index - slotCount) / slotCount + 1 := by
            rw [← Nat.add_div_right _ (by omega), Nat.sub_add_cancel (by omega)]
          congr 1
          omega
        · rw [if_neg (by omega), if_neg inside]

theorem slotTable_empty (pool : LayoutPool) : buildSlotToLlvmParam pool [] 0 = [] := by
  rw [buildSlotToLlvmParam]

section Body

variable {pool : OwnershipPool} {dropChild : Ty → Val → Option (List DropEffect)} {frame : GlueFrame}

variable {value : Val} {base : GlueOperand} {index : Nat} {path : List PartStep}

def runBlock (pool : OwnershipPool) (dropChild : Ty → Val → Option (List DropEffect))
    (frame : GlueFrame) (stmts : List GlueStmt) : Option (List DropEffect) :=
  (stmts.mapM (runStmt pool dropChild frame)).map List.flatten

theorem runBlock_append (first second : List GlueStmt) : runBlock pool dropChild frame (first ++ second) =
      (runBlock pool dropChild frame first).bind fun before =>
        (runBlock pool dropChild frame second).map (before ++ ·) := by
  simp only [runBlock, List.mapM_append]
  cases first.mapM (runStmt pool dropChild frame) <;> cases second.mapM (runStmt pool dropChild frame) <;> simp

theorem runBlock_drops (parts : List GlueDrop) :
    runBlock pool dropChild frame (parts.map .drop) = runDrops pool dropChild frame parts := by
  rw [runBlock, runDrops, List.mapM_map]
  rfl

theorem runBlock_eq_none {stmts : List GlueStmt} {stmt : GlueStmt} (member : stmt ∈ stmts)
    (fails : runStmt pool dropChild frame stmt = none) :
    runBlock pool dropChild frame stmts = none := by
  have none : stmts.mapM (runStmt pool dropChild frame) = none := by
    induction stmts with
    | nil => cases member
    | cons head tail ih =>
      rcases List.mem_cons.mp member with rfl | inTail
      · simp [fails]
      · simp [ih inTail]
  rw [runBlock, none, Option.map_none]

theorem runBlock_callDestructor (whole : frame.eval (.param 0) = some (value, [])) (destructor : Option String) :
    runBlock pool dropChild frame (callDestructor destructor) = some (destructorEffects destructor) := by
  cases destructor <;> simp [runBlock, callDestructor, destructorEffects, runStmt, whole]

theorem eval_fieldGet {id : StructId} {fields : List Val}
    (found : frame.eval base = some (.struct fields, path)) (here : fields[index]? = some value) :
    frame.eval (.fieldGet base id index) = some (value, path ++ [.field index]) := by
  rw [GlueFrame.eval, found]
  simp [here]

theorem eval_enumPayloadGet {variant : Nat} {payload : List Val}
    (found : frame.eval base = some (.enum variant payload, path))
    (here : payload[index]? = some value) :
    frame.eval (.enumPayloadGet base variant index) = some (value, path ++ [.payload index]) := by
  rw [GlueFrame.eval, found]
  simp [here]

theorem map_append_eq_some_iff {before after : List DropEffect} {rest : Option (List DropEffect)} :
    rest.map (before ++ ·) = some (before ++ after) ↔ rest = some after := by
  cases rest <;> simp

end Body

def wholeFrame (pool : OwnershipPool) (slotTypes : List Ty) (value : Val) : GlueFrame :=
  { slotTable := buildSlotToLlvmParam pool.toLayoutPool slotTypes 0, params := [(value, [])] }

theorem eval_whole {pool : OwnershipPool} {ty : Ty} {slots : Nat} {value : Val}
    (passed : abiSlotCount pool.toLayoutPool ty ≠ 0) (some : slots ≠ 0) :
    (wholeFrame pool (List.replicate slots ty) value).eval (.param 0) = .some (value, []) := by
  have first : (buildSlotToLlvmParam pool.toLayoutPool (List.replicate slots ty) 0)[0]? = .some 0 := by
    rw [getElem?_slotTable _ passed, if_pos (by omega), Nat.zero_div]
  simp [GlueFrame.eval, wholeFrame, first]

def Ty.isStructOrArray : Ty → Bool
  | .struct _ | .array _ => true
  | _ => false

/-- The values the glue of their type pays in full: every droppable struct in them has a
glue function and a parameter slot to arrive in, and every array that is not empty has
elements of struct or array type that arrive in slots of their own. -/
inductive DropsSoundly (pool : OwnershipPool) : Ty → Val → Prop
  | struct {id : StructId} {fields : List Val} (synthesized : ¬((pool.structDef id).isBuiltin = true ∧
        (pool.structDef id).destructor.isSome = true))
      (passed : abiSlotCount pool.toLayoutPool (.struct id) ≠ 0)
      (parts : ∀ part ∈ (pool.structDef id).fieldTypes.zip fields,
        typeNeedsDrop pool.toLayoutPool part.1 = true → DropsSoundly pool part.1 part.2) :
      DropsSoundly pool (.struct id) (.struct fields)
  | enum {id : EnumId} {variant : Nat} {definition : EnumVariantDef} {payload : List Val}
      (active : (pool.enumDef id).variants[variant]? = some definition)
      (parts : ∀ part ∈ definition.fields.zip payload,
        typeNeedsDrop pool.toLayoutPool part.1 = true → DropsSoundly pool part.1 part.2) :
      DropsSoundly pool (.enum id) (.enum variant payload)
  | emptyArray {id : ArrayTypeId} : DropsSoundly pool (.array id) (.array [])
  | array {id : ArrayTypeId} {elems : List Val} (walked : (pool.arrayDef id).1.isStructOrArray = true)
      (passed : abiSlotCount pool.toLayoutPool (pool.arrayDef id).1 ≠ 0)
      (fits : abiSlotCount pool.toLayoutPool (pool.arrayDef id).1 * elems.length < 2 ^ 32)
      (parts : ∀ value ∈ elems, DropsSoundly pool (pool.arrayDef id).1 value) :
      DropsSoundly pool (.array id) (.array elems)
  | vec {id : PointeeId} {capacity : Nat} {elems : List Val}
      (parts : capacity ≠ 0 → typeNeedsDrop pool.toLayoutPool (pool.vecDef id) = true →
        ∀ value ∈ elems, DropsSoundly pool (pool.vecDef id) value) :
      DropsSoundly pool (.vec id) (.vec capacity elems)

section Kinds

variable {pool : OwnershipPool} {dropChild : Ty → Val → Option (List DropEffect)} {frame : GlueFrame}

variable {id : StructId} {fields : List Val}

theorem structBody_missing (needsDrop : typeNeedsDrop pool.toLayoutPool (.struct id) = true)
    (missing : frame.eval (.param 0) = none) :
    runBlock pool dropChild frame (createStructDropGlueFunction pool.toLayoutPool id).body = none := by
  rw [typeNeedsDrop_struct, Bool.or_eq_true, List.any_eq_true] at needsDrop
  rcases needsDrop with destructor | ⟨ty, member, fieldNeedsDrop⟩
  · obtain ⟨name, named⟩ := Option.isSome_iff_exists.mp destructor
    have called : GlueStmt.call name (.param 0) ∈ (createStructDropGlueFunction pool.toLayoutPool id).body := by
      simp [createStructDropGlueFunction, callDestructor, named]
    exact runBlock_eq_none called (by rw [runStmt, missing]; rfl)
  · obtain ⟨index, here⟩ := List.mem_iff_getElem?.mp member
    have dropped : GlueStmt.drop ⟨.fieldGet (.param 0) id index, ty⟩ ∈
        (createStructDropGlueFunction pool.toLayoutPool id).body := by
      refine List.mem_append_right _ (List.mem_map_of_mem (List.mem_map.mpr
        ⟨(ty, index), List.mem_filter.mpr ⟨?_, fieldNeedsDrop⟩, rfl⟩))
      exact List.mem_zipIdx_iff_getElem?.mpr here
    exact runBlock_eq_none dropped (by rw [runStmt, runDrop, GlueFrame.eval, missing]; rfl)

theorem structBody_whole (count : fields.length = (pool.structDef id).fieldTypes.length)
    (whole : frame.eval (.param 0) = some (.struct fields, [])) :
    runBlock pool dropChild frame (createStructDropGlueFunction pool.toLayoutPool id).body =
        some (owed pool (.struct id) (.struct fields)) ↔
      ∀ part ∈ (pool.structDef id).fieldTypes.zip fields, typeNeedsDrop pool.toLayoutPool part.1 = true →
          dropChild part.1 part.2 = some (owed pool part.1 part.2) := by
  have finds : ∀ index value, fields[index]? = some value →
      frame.eval (.fieldGet (.param 0) id index) = some (value, [.field index]) :=
    fun _ _ here => eval_fieldGet whole here
  rw [createStructDropGlueFunction, runBlock_append, runBlock_callDestructor whole,
    Option.bind_some, runBlock_drops, runDrops_dropsOf count finds, owed,
    map_append_eq_some_iff, mapM_droppableParts]

theorem runGlue_struct (needsDrop : typeNeedsDrop pool.toLayoutPool (.struct id) = true)
    (count : fields.length = (pool.structDef id).fieldTypes.length) :
    runGlue pool dropChild (createStructDropGlueFunction pool.toLayoutPool id)
        (glueArgs (.struct fields)) = some (owed pool (.struct id) (.struct fields)) ↔
      abiSlotCount pool.toLayoutPool (.struct id) ≠ 0 ∧ ∀ part ∈ (pool.structDef id).fieldTypes.zip fields,
          typeNeedsDrop pool.toLayoutPool part.1 = true →
            dropChild part.1 part.2 = some (owed pool part.1 part.2) := by
  have unfolded : runGlue pool dropChild (createStructDropGlueFunction pool.toLayoutPool id)
      (glueArgs (.struct fields)) = runBlock pool dropChild (wholeFrame pool (List.replicate
          (abiSlotCount pool.toLayoutPool (.struct id)) (.struct id)) (.struct fields))
          (createStructDropGlueFunction pool.toLayoutPool id).body := rfl
  rw [unfolded]
  by_cases passed : abiSlotCount pool.toLayoutPool (.struct id) = 0
  · rw [passed, structBody_missing needsDrop]
    · simp
    · simp [GlueFrame.eval, wholeFrame, slotTable_empty]
  · rw [structBody_whole count (eval_whole passed passed)]
    simp [passed]

theorem abiSlotCount_enum (pool : LayoutPool) (id : EnumId) : abiSlotCount pool (.enum id) = 1 := by
  simp [abiSlotCount]

theorem runGlue_enum {id : EnumId} {variant : Nat} {definition : EnumVariantDef}
    {payload : List Val} (active : (pool.enumDef id).variants[variant]? = some definition)
    (count : payload.length = definition.fields.length) :
    runGlue pool dropChild (createEnumDropGlueFunction pool.toLayoutPool id)
        (glueArgs (.enum variant payload)) = some (owed pool (.enum id) (.enum variant payload)) ↔
      ∀ part ∈ definition.fields.zip payload, typeNeedsDrop pool.toLayoutPool part.1 = true →
          dropChild part.1 part.2 = some (owed pool part.1 part.2) := by
  have unfolded : runGlue pool dropChild (createEnumDropGlueFunction pool.toLayoutPool id)
      (glueArgs (.enum variant payload)) = runBlock pool dropChild (wholeFrame pool (List.replicate 1 (.enum id))
          (.enum variant payload)) (createEnumDropGlueFunction pool.toLayoutPool id).body := rfl
  have whole := @eval_whole pool (.enum id) 1 (.enum variant payload) (by simp [abiSlotCount_enum]) (by simp)
  have finds : ∀ index value, payload[index]? = some value →
      (wholeFrame pool (List.replicate 1 (.enum id)) (.enum variant payload)).eval
        (.enumPayloadGet (.param 0) variant index) = some (value, [.payload index]) := by
    intro index value here
    exact eval_enumPayloadGet whole here
  have arm : ((pool.enumDef id).variants.zipIdx.map fun entry =>
      dropsOf pool.toLayoutPool (.enumPayloadGet (.param 0) entry.2) entry.1.fields)[variant]? =
        some (dropsOf pool.toLayoutPool (.enumPayloadGet (.param 0) variant) definition.fields) := by
    simp [List.getElem?_zipIdx, active]
  have matched : runBlock pool dropChild (wholeFrame pool (List.replicate 1 (.enum id)) (.enum variant payload))
      [.matchVariant (.param 0) ((pool.enumDef id).variants.zipIdx.map fun entry =>
        dropsOf pool.toLayoutPool (.enumPayloadGet (.param 0) entry.2) entry.1.fields)] =
      (droppableParts pool definition.fields payload 0).mapM (dropPartOf dropChild .payload) := by
    rw [← runDrops_dropsOf count finds, runBlock, List.mapM_cons, runStmt, whole]
    simp only [arm, List.mapM_nil, Option.bind_eq_bind, Option.bind_some]
    cases runDrops pool dropChild _ _ <;> simp
  rw [unfolded, createEnumDropGlueFunction, runBlock_append, runBlock_callDestructor whole,
    Option.bind_some, matched, owed, map_append_eq_some_iff, active, Option.map_some,
    Option.getD_some, mapM_droppableParts]

end Kinds

theorem droppableParts_replicate {pool : OwnershipPool} {ty : Ty} (elems : List Val)
    (needsDrop : typeNeedsDrop pool.toLayoutPool ty = true) (start : Nat) :
    droppableParts pool (List.replicate elems.length ty) elems start =
      (elems.zipIdx start).map fun entry => ((ty, entry.1), entry.2) := by
  induction elems generalizing start with
  | nil => rfl
  | cons value elems ih =>
    have rest := ih (start + 1)
    simp only [droppableParts] at rest
    simp [List.replicate_succ, needsDrop, rest]

theorem droppableParts_none {pool : OwnershipPool} {ty : Ty} (elems : List Val)
    (trivialDrop : typeNeedsDrop pool.toLayoutPool ty = false) (start : Nat) :
    droppableParts pool (List.replicate elems.length ty) elems start = [] := by
  rw [droppableParts, List.filter_eq_nil_iff]
  intro _ member
  have inZip := List.fst_mem_of_mem_zipIdx member
  have isElement := List.eq_of_mem_replicate (List.of_mem_zip inZip).1
  simp [isElement, trivialDrop]

theorem owedParts_elements {pool : OwnershipPool} {ty : Ty} (elems : List Val)
    (needsDrop : typeNeedsDrop pool.toLayoutPool ty = true) :
    owedParts pool .element (List.replicate elems.length ty) elems 0 =
      elems.zipIdx.map fun entry => .dropPart [.element entry.2] (owed pool ty entry.1) := by
  rw [owedParts_eq, droppableParts_replicate elems needsDrop, List.map_map]
  rfl

theorem abiSlotCount_lt (pool : LayoutPool) (ty : Ty) : abiSlotCount pool ty < 2 ^ 32 := by
  rw [abiSlotCount.eq_def]
  split <;> first | exact Nat.mod_lt _ (by decide) | decide

theorem slots_of_elements (pool : LayoutPool) {ty : Ty} {length : Nat} (nonempty : length ≠ 0) :
    (∀ index < length, (buildSlotToLlvmParam pool
        (List.replicate (asU32 (abiSlotCount pool ty * asU32 length)) ty) 0)[asU32
          (asU32 index * abiSlotCount pool ty)]? = some index) ↔
      abiSlotCount pool ty ≠ 0 ∧ abiSlotCount pool ty * length < 2 ^ 32 := by
  by_cases passed : abiSlotCount pool ty = 0
  · simp only [passed, Nat.zero_mul, Nat.mul_zero, ne_eq, not_true_eq_false, false_and, iff_false]
    intro found
    have first := found 0 (by omega)
    simp [asU32, slotTable_empty] at first
  · have bound := abiSlotCount_lt pool ty
    have count : asU32 (abiSlotCount pool ty * asU32 length) = abiSlotCount pool ty * length % 2 ^ 32 := by
      simp [asU32, Nat.mul_mod]
    have slot : ∀ index, asU32 (asU32 index * abiSlotCount pool ty) = index * abiSlotCount pool ty % 2 ^ 32 := by
      intro index
      simp [asU32, Nat.mul_mod]
    simp only [count, slot, getElem?_slotTable pool passed]
    generalize abiSlotCount pool ty = slotCount at *
    constructor
    · intro found
      -- The last element: its slot has wrapped around, or lies beyond the wrapped count.
      have last := found (length - 1) (by omega)
      have lastSlot : slotCount * length = (length - 1) * slotCount + slotCount := by
        obtain ⟨before, rfl⟩ : ∃ before, length = before + 1 := ⟨length - 1, by omega⟩
        rw [Nat.add_sub_cancel, Nat.mul_add, Nat.mul_one, Nat.mul_comm]
      split at last
      case isFalse => cases last
      case isTrue inside =>
          simp only [Nat.zero_add, Option.some.injEq] at last
          by_cases wrapped : (length - 1) * slotCount < 2 ^ 32
          · omega
          · have smaller : (length - 1) * slotCount % 2 ^ 32 < (length - 1) * slotCount := by
              omega
            have quotient : (length - 1) * slotCount % 2 ^ 32 / slotCount < length - 1 :=
              Nat.div_lt_of_lt_mul (by rw [Nat.mul_comm slotCount]; exact smaller)
            omega
    · rintro ⟨_, fits⟩ index inside
      have below : index * slotCount < slotCount * length := by
        rw [Nat.mul_comm]
        exact Nat.mul_lt_mul_of_pos_left inside (by omega)
      rw [Nat.mod_eq_of_lt (by omega), Nat.mod_eq_of_lt fits, if_pos below, Nat.zero_add,
        Nat.mul_div_cancel _ (by omega)]

section Kinds

variable {pool : OwnershipPool} {dropChild : Ty → Val → Option (List DropEffect)}
variable {id : ArrayTypeId} {elems : List Val}

theorem getElem?_glueArgs_array (elems : List Val) (index : Nat) : (glueArgs (.array elems))[index]? =
      elems[index]?.map fun value => (value, [.element index]) := by
  simp [glueArgs, List.getElem?_zipIdx, Function.comp_def]

theorem flatMap_elementDrop {ty : Ty} (walked : ty.isStructOrArray = true) (slot : Nat → Nat)
    (indices : List Nat) : (indices.flatMap fun index => elementDrop ty (slot index)) =
      (indices.map fun index => GlueDrop.mk (.param (slot index)) ty).map .drop := by
  have single : ∀ index, elementDrop ty (slot index) = [.drop ⟨.param (slot index), ty⟩] := by
    cases ty <;> simp_all [Ty.isStructOrArray, elementDrop]
  rw [List.map_map, List.map_eq_flatMap]
  simp [single]

def dropFound (dropChild : Ty → Val → Option (List DropEffect)) (frame : GlueFrame) (slot : Nat)
    (ty : Ty) : Option DropEffect :=
  (frame.eval (.param slot)).bind fun found => (dropChild ty found.1).map (.dropPart found.2)

theorem runDrops_params {frame : GlueFrame} {ty : Ty} {slot : Nat → Nat} {indices : List Nat}
    (needsDrop : typeNeedsDrop pool.toLayoutPool ty = true) :
    runDrops pool dropChild frame (indices.map fun index => ⟨.param (slot index), ty⟩) =
      indices.mapM fun index => dropFound dropChild frame (slot index) ty := by
  rw [runDrops, List.mapM_map, ← mapM_singletons fun index => dropFound dropChild frame (slot index) ty]
  congr 1
  apply mapM_congr_mem
  intro index _
  simp only [Function.comp_apply, runDrop, dropFound, needsDrop, if_true, Option.bind_eq_bind]
  cases frame.eval (.param (slot index)) with
  | none => rfl
  | some found =>
    simp only [Option.bind_some]
    cases dropChild ty found.1 <;> rfl

theorem runGlue_array (needsDrop : typeNeedsDrop pool.toLayoutPool (pool.arrayDef id).1 = true)
    (walked : (pool.arrayDef id).1.isStructOrArray = true)
    (count : elems.length = (pool.arrayDef id).2) (nonempty : elems ≠ []) :
    runGlue pool dropChild (createArrayDropGlueFunction pool.toLayoutPool id)
        (glueArgs (.array elems)) = some (owed pool (.array id) (.array elems)) ↔
      (abiSlotCount pool.toLayoutPool (pool.arrayDef id).1 ≠ 0 ∧
        abiSlotCount pool.toLayoutPool (pool.arrayDef id).1 * elems.length < 2 ^ 32) ∧
        ∀ value ∈ elems, dropChild (pool.arrayDef id).1 value = some (owed pool (pool.arrayDef id).1 value) := by
  let frame : GlueFrame :=
    { slotTable := buildSlotToLlvmParam pool.toLayoutPool
        (createArrayDropGlueFunction pool.toLayoutPool id).paramSlotTypes 0
      params := glueArgs (.array elems) }
  let slot := fun index =>
    asU32 (asU32 index * abiSlotCount pool.toLayoutPool (pool.arrayDef id).1)
  have body : (createArrayDropGlueFunction pool.toLayoutPool id).body = ((elems.zipIdx.map Prod.snd).map fun index =>
        GlueDrop.mk (.param (slot index)) (pool.arrayDef id).1).map .drop := by
    rw [List.zipIdx_map_snd, ← List.range_eq_range', count]
    exact flatMap_elementDrop walked slot _
  have unfolded : runGlue pool dropChild (createArrayDropGlueFunction pool.toLayoutPool id)
      (glueArgs (.array elems)) = elems.zipIdx.mapM fun entry =>
        dropFound dropChild frame (slot entry.2) (pool.arrayDef id).1 := by
    change runBlock pool dropChild frame _ = _
    rw [body, runBlock_drops, runDrops_params needsDrop, List.mapM_map]
    rfl
  rw [unfolded, owed, owedParts_elements elems needsDrop, mapM_eq_some_map_iff]
  have length_ne : (pool.arrayDef id).2 ≠ 0 := by
    rw [← count]
    simpa using nonempty
  rw [count, ← slots_of_elements pool.toLayoutPool length_ne]
  constructor
  · intro each
    have atIndex : ∀ index value, elems[index]? = some value → frame.slotTable[slot index]? = some index ∧
          dropChild (pool.arrayDef id).1 value = some (owed pool (pool.arrayDef id).1 value) := by
      intro index value here
      have dropped := each (value, index) (List.mem_zipIdx_iff_getElem?.mpr here)
      obtain ⟨_, looked, result⟩ := Option.bind_eq_some_iff.mp dropped
      obtain ⟨place, inTable, param⟩ := Option.bind_eq_some_iff.mp looked
      rw [getElem?_glueArgs_array] at param
      obtain ⟨_, otherHere, rfl⟩ := Option.map_eq_some_iff.mp param
      obtain ⟨_, ran, same⟩ := Option.map_eq_some_iff.mp result
      simp only [DropEffect.dropPart.injEq, List.cons.injEq, PartStep.element.injEq, and_true] at same
      obtain ⟨rfl, rfl⟩ := same
      rw [here, Option.some.injEq] at otherHere
      subst otherHere
      exact ⟨inTable, ran⟩
    constructor
    · intro index inside
      have present := List.getElem?_eq_getElem (count ▸ inside : index < elems.length)
      exact (atIndex index _ present).1
    · intro value member
      obtain ⟨index, here⟩ := List.mem_iff_getElem?.mp member
      exact (atIndex index value here).2
  · rintro ⟨inTable, each⟩ ⟨value, index⟩ member
    have here := List.mem_zipIdx_iff_getElem?.mp member
    have inside : index < (pool.arrayDef id).2 := by
      rw [← count]
      exact (List.getElem?_eq_some_iff.mp here).1
    have looked : frame.eval (.param (slot index)) = some (value, [.element index]) := by
      have place : frame.slotTable[slot index]? = some index := inTable index inside
      have param : frame.params[index]? = some (value, [.element index]) := by
        rw [show frame.params = glueArgs (.array elems) from rfl, getElem?_glueArgs_array]
        rw [here, Option.map_some]
      rw [GlueFrame.eval, place]
      exact param
    rw [dropFound, looked, Option.bind_some, each value (List.mem_of_getElem? here), Option.map_some]

theorem runGlue_array_empty (count : ([] : List Val).length = (pool.arrayDef id).2) :
    runGlue pool dropChild (createArrayDropGlueFunction pool.toLayoutPool id) (glueArgs (.array [])) = some [] := by
  have body : (createArrayDropGlueFunction pool.toLayoutPool id).body = [] := by
    simp [createArrayDropGlueFunction, ← count]
  rw [runGlue, body]
  rfl

theorem runGlue_array_skipped (needsDrop : typeNeedsDrop pool.toLayoutPool (pool.arrayDef id).1 = true)
    (skipped : (pool.arrayDef id).1.isStructOrArray = false) :
    runGlue pool dropChild (createArrayDropGlueFunction pool.toLayoutPool id)
        (glueArgs (.array elems)) = some (owed pool (.array id) (.array elems)) ↔ elems = [] := by
  have none : ∀ slot, elementDrop (pool.arrayDef id).1 slot = [] := by
    intro slot
    generalize (pool.arrayDef id).1 = ty at skipped ⊢
    cases ty <;> first | rfl | cases skipped
  have body : (createArrayDropGlueFunction pool.toLayoutPool id).body = [] := by
    simp [createArrayDropGlueFunction, none]
  have unfolded : runGlue pool dropChild (createArrayDropGlueFunction pool.toLayoutPool id)
      (glueArgs (.array elems)) = some [] := by
    rw [runGlue, body]
    rfl
  rw [unfolded, owed, owedParts_elements elems needsDrop, Option.some.injEq]
  cases elems <;> simp

theorem translateVecDrop_eq_owed {id : PointeeId} {capacity : Nat} :
    translateVecDrop pool dropChild (pool.vecDef id) capacity elems =
        some (owed pool (.vec id) (.vec capacity elems)) ↔
      (capacity ≠ 0 → typeNeedsDrop pool.toLayoutPool (pool.vecDef id) = true →
        ∀ value ∈ elems, dropChild (pool.vecDef id) value = some (owed pool (pool.vecDef id) value)) := by
  rw [translateVecDrop, owed]
  by_cases unowned : capacity = 0
  · simp [unowned]
  · by_cases needsDrop : typeNeedsDrop pool.toLayoutPool (pool.vecDef id) = true
    · rw [if_neg unowned, if_neg unowned, if_pos needsDrop, owedParts_elements elems needsDrop]
      have appended : ∀ dropped : Option (List DropEffect), ∀ expected : List DropEffect,
          (do let effects ← dropped
              some (effects ++ [DropEffect.free])) = some (expected ++ [.free]) ↔
            dropped = some expected := by
        intro dropped expected
        cases dropped <;> simp
      rw [appended, mapM_eq_some_map_iff]
      constructor
      · intro each _ _ value member
        obtain ⟨index, here⟩ := List.mem_iff_getElem?.mp member
        have dropped := each (value, index) (List.mem_zipIdx_iff_getElem?.mpr here)
        obtain ⟨effects, ran, same⟩ := Option.bind_eq_some_iff.mp dropped
        cases same
        exact ran
      · intro each entry member
        have ran := each unowned needsDrop entry.1 (List.fst_mem_of_mem_zipIdx member)
        simp [ran]
    · have trivialDrop : typeNeedsDrop pool.toLayoutPool (pool.vecDef id) = false := by
        simpa using needsDrop
      rw [if_neg unowned, if_neg unowned, if_neg needsDrop, owedParts_eq, droppableParts_none elems trivialDrop]
      simp [trivialDrop]

end Kinds

theorem dropValue_glue {pool : OwnershipPool} {fuel : Nat} {ty : Ty} {value : Val} (notVec : ∀ id, ty ≠ .vec id) :
    dropValue pool (fuel + 1) ty value = (synthesizeDropGlue pool.toLayoutPool ty).bind
      fun function => runGlue pool (dropValue pool fuel) function (glueArgs value) := by
  rw [dropValue]
  · rfl
  · rintro id _ _ rfl
    exact absurd rfl (notVec id)

theorem typeNeedsDrop_isLeaf (pool : LayoutPool) {ty : Ty} (leaf : ty.isLeaf = true)
    (notVec : ∀ id, ty ≠ .vec id) : typeNeedsDrop pool ty = false := by
  cases ty
  case struct id => cases leaf
  case array id => cases leaf
  case enum id => cases leaf
  case vec id => exact absurd rfl (notVec id)
  all_goals simp [typeNeedsDrop]

theorem mem_of_mem_zip {tys : List Ty} {values : List Val} {part : Ty × Val}
    (member : part ∈ tys.zip values) : part.2 ∈ values :=
  (List.of_mem_zip member).2

/-- Dropping a valid value does what is owed to it, exactly for the values above. -/
theorem dropValue_eq_owed_iff (pool : OwnershipPool) (ty : Ty) (value : Val)
    (needsDrop : typeNeedsDrop pool.toLayoutPool ty = true) (typed : Inhabits pool value ty)
    (fuel : Nat) (enough : value.depth < fuel) :
    dropValue pool fuel ty value = some (owed pool ty value) ↔ DropsSoundly pool ty value := by
  induction fuel generalizing ty value with
  | zero => omega
  | succ fuel ih =>
    cases typed with
    | scalar leaf notVec =>
      rw [typeNeedsDrop_isLeaf pool.toLayoutPool leaf notVec] at needsDrop
      cases needsDrop
    | @struct id fields count each =>
      rw [dropValue_glue (by simp), synthesizeDropGlue, if_pos needsDrop]
      have parts : ∀ part ∈ (pool.structDef id).fieldTypes.zip fields, typeNeedsDrop pool.toLayoutPool part.1 = true →
            (dropValue pool fuel part.1 part.2 = some (owed pool part.1 part.2) ↔
              DropsSoundly pool part.1 part.2) := by
        intro part member partNeedsDrop
        have below := Val.depth_le_depthOf (mem_of_mem_zip member)
        rw [Val.depth] at enough
        exact ih part.1 part.2 partNeedsDrop (each part member) (by omega)
      split
      case isTrue skipped =>
          constructor
          · intro impossible
            cases impossible
          · intro sound
            cases sound with
            | struct synthesized _ _ => exact absurd (by simpa using skipped) synthesized
      case isFalse synthesized =>
          rw [Option.bind_some, runGlue_struct needsDrop count]
          constructor
          · rintro ⟨passed, paid⟩
            exact .struct (by simpa using synthesized) passed fun part member partNeedsDrop =>
              (parts part member partNeedsDrop).mp (paid part member partNeedsDrop)
          · intro sound
            cases sound with
            | struct _ passed sound =>
              exact ⟨passed, fun part member partNeedsDrop =>
                (parts part member partNeedsDrop).mpr (sound part member partNeedsDrop)⟩
    | @enum id variant definition payload active count each =>
      rw [dropValue_glue (by simp), synthesizeDropGlue, if_pos needsDrop, Option.bind_some, runGlue_enum active count]
      have parts : ∀ part ∈ definition.fields.zip payload, typeNeedsDrop pool.toLayoutPool part.1 = true →
            (dropValue pool fuel part.1 part.2 = some (owed pool part.1 part.2) ↔
              DropsSoundly pool part.1 part.2) := by
        intro part member partNeedsDrop
        have below := Val.depth_le_depthOf (mem_of_mem_zip member)
        rw [Val.depth] at enough
        exact ih part.1 part.2 partNeedsDrop (each part member) (by omega)
      constructor
      · intro paid
        exact .enum active fun part member partNeedsDrop =>
          (parts part member partNeedsDrop).mp (paid part member partNeedsDrop)
      · intro sound
        cases sound with
        | enum otherActive sound =>
          rw [active, Option.some.injEq] at otherActive
          subst otherActive
          exact fun part member partNeedsDrop =>
            (parts part member partNeedsDrop).mpr (sound part member partNeedsDrop)
    | @array id elems count each =>
      rw [dropValue_glue (by simp), synthesizeDropGlue, if_pos needsDrop, Option.bind_some]
      rw [typeNeedsDrop_array] at needsDrop
      have elements : ∀ value ∈ elems, (dropValue pool fuel (pool.arrayDef id).1 value =
              some (owed pool (pool.arrayDef id).1 value) ↔
            DropsSoundly pool (pool.arrayDef id).1 value) := by
        intro value member
        have below := Val.depth_le_depthOf member
        rw [Val.depth] at enough
        exact ih _ value needsDrop (each value member) (by omega)
      by_cases walked : (pool.arrayDef id).1.isStructOrArray = true
      · by_cases empty : elems = []
        · subst empty
          rw [runGlue_array_empty count]
          exact ⟨fun _ => .emptyArray, fun _ => rfl⟩
        · rw [runGlue_array needsDrop walked count empty]
          constructor
          · rintro ⟨⟨passed, fits⟩, paid⟩
            exact .array walked passed fits fun value member =>
              (elements value member).mp (paid value member)
          · intro sound
            cases sound with
            | emptyArray => exact absurd rfl empty
            | array _ passed fits sound =>
              exact ⟨⟨passed, fits⟩, fun value member =>
                (elements value member).mpr (sound value member)⟩
      · rw [runGlue_array_skipped needsDrop (by simpa using walked)]
        constructor
        · rintro rfl
          exact .emptyArray
        · intro sound
          cases sound with
          | emptyArray => rfl
          | array isWalked _ _ _ => exact absurd isWalked walked
    | @vec id capacity elems each unowned =>
      rw [dropValue, translateVecDrop_eq_owed]
      have elements : typeNeedsDrop pool.toLayoutPool (pool.vecDef id) = true →
          ∀ value ∈ elems, (dropValue pool fuel (pool.vecDef id) value = some (owed pool (pool.vecDef id) value) ↔
            DropsSoundly pool (pool.vecDef id) value) := by
        intro elementNeedsDrop value member
        have below := Val.depth_le_depthOf member
        rw [Val.depth] at enough
        exact ih _ value elementNeedsDrop (each value member) (by omega)
      constructor
      · intro paid
        exact .vec fun owned elementNeedsDrop value member =>
          (elements elementNeedsDrop value member).mp (paid owned elementNeedsDrop value member)
      · intro sound
        cases sound with
        | vec sound =>
          exact fun owned elementNeedsDrop value member =>
            (elements elementNeedsDrop value member).mpr (sound owned elementNeedsDrop value member)

namespace DropSample

def pool : OwnershipPool where
  structDef
    | 0 =>
      { name := "Counter", fields := [⟨"value", .i32⟩], destructor := some "Counter.__drop" }
    | _ => { name := "Guard", fields := [], destructor := some "Guard.__drop" }
  enumDef _ := { name := "E", variants := [{ name := "A", fields := [.vec 0] }] }
  arrayDef
    | 0 => (.struct 0, 2)
    | 1 => (.enum 0, 1)
    | _ => (.vec 0, 1)
  vecDef _ := .u8
  rank
    | .struct _ | .enum _ => 1
    | .array _ => 2
    | _ => 0
  rank_lt ty part member := by
    cases ty
    case struct id =>
        rcases id with _ | id <;> simp_all [TypeInternPool.components, StructDef.fieldTypes]
    case array id =>
        rcases id with _ | _ | id <;> simp_all [TypeInternPool.components]
    all_goals simp_all [TypeInternPool.components]
  linearRank
    | .enum _ => 2
    | .vec _ => 1
    | .array _ => 3
    | _ => 0
  linearRank_lt ty part member := by
    cases ty
    case array id =>
        rcases id with _ | _ | id <;> simp_all [TypeInternPool.linearParts]
    all_goals simp_all [TypeInternPool.linearParts]

def counters : Val := .array [.struct [.scalar], .struct [.scalar]]

theorem counterNeedsDrop : typeNeedsDrop pool.toLayoutPool (.struct 0) = true := by
  simp [typeNeedsDrop_struct, pool]

theorem counters_dropped : dropValue pool 3 (.array 0) counters = some (owed pool (.array 0) counters) := by
  have counterSlots : abiSlotCount pool.toLayoutPool (.struct 0) = 1 := by
    rw [abiSlotCount_struct, show (pool.structDef 0).fieldTypes = [.i32] from rfl]
    simp [abiSlotCount, asU32]
  have scalarTyped : Inhabits pool .scalar .i32 := .scalar rfl (by simp)
  have counterTyped : Inhabits pool (.struct [.scalar]) (.struct 0) := by
    refine .struct rfl ?_
    intro part member
    rw [List.mem_singleton.mp (show part ∈ [(Ty.i32, Val.scalar)] from member)]
    exact scalarTyped
  have counterSound : DropsSoundly pool (.struct 0) (.struct [.scalar]) := by
    refine .struct (by simp [pool]) (by simp [counterSlots]) ?_
    intro part member needsDrop
    rw [List.mem_singleton.mp (show part ∈ [(Ty.i32, Val.scalar)] from member)] at needsDrop
    simp [typeNeedsDrop] at needsDrop
  refine (dropValue_eq_owed_iff pool (.array 0) counters ?_ ?_ 3 (by decide)).mpr ?_
  · rw [typeNeedsDrop_array]
    exact counterNeedsDrop
  · refine .array rfl ?_
    intro value member
    simp only [List.mem_cons, List.not_mem_nil, or_false, or_self] at member
    subst member
    exact counterTyped
  · have elementSlots : abiSlotCount pool.toLayoutPool (pool.arrayDef 0).1 = 1 := counterSlots
    refine .array rfl (by simp [elementSlots]) (by simp [elementSlots]) ?_
    intro value member
    simp only [List.mem_cons, List.not_mem_nil, or_false, or_self] at member
    subst member
    exact counterSound

/-- An array of an enum that holds a vector, and an array of a vector: nothing in them is
dropped.  A struct without slots: its glue cannot even reach its parameter. -/
theorem not_dropped : (typeNeedsDrop pool.toLayoutPool (.array 1) = true ∧
      Inhabits pool (.array [.enum 0 [.vec 1 []]]) (.array 1) ∧
      dropValue pool 4 (.array 1) (.array [.enum 0 [.vec 1 []]]) = some [] ∧
      owed pool (.array 1) (.array [.enum 0 [.vec 1 []]]) =
        [.dropPart [.element 0] [.dropPart [.payload 0] [.free]]]) ∧
    (typeNeedsDrop pool.toLayoutPool (.array 2) = true ∧ Inhabits pool (.array [.vec 1 []]) (.array 2) ∧
      dropValue pool 3 (.array 2) (.array [.vec 1 []]) = some [] ∧
      owed pool (.array 2) (.array [.vec 1 []]) = [.dropPart [.element 0] [.free]]) ∧
    (typeNeedsDrop pool.toLayoutPool (.struct 1) = true ∧ Inhabits pool (.struct []) (.struct 1) ∧
      dropValue pool 2 (.struct 1) (.struct []) = none ∧
      owed pool (.struct 1) (.struct []) = [.destructor "Guard.__drop" []]) := by
  have vecTyped : Inhabits pool (.vec 1 []) (.vec 0) := .vec (by simp) (by simp)
  have enumNeedsDrop : typeNeedsDrop pool.toLayoutPool (.enum 0) = true := by
    simp [typeNeedsDrop, pool]
  have guardNeedsDrop : typeNeedsDrop pool.toLayoutPool (.struct 1) = true := by
    simp [typeNeedsDrop, pool]
  have vecNeedsDrop := typeNeedsDrop_vec pool.toLayoutPool 0
  have vecOwed : owed pool (.vec 0) (.vec 1 []) = [.free] := by
    rfl
  have enumOwed : owed pool (.enum 0) (.enum 0 [.vec 1 []]) = [.dropPart [.payload 0] [.free]] := by
    change [] ++ owedParts pool .payload [.vec 0] [.vec 1 []] 0 = _
    rw [owedParts, if_pos vecNeedsDrop, vecOwed]
    rfl
  refine ⟨⟨?_, ?_, ?_, ?_⟩, ⟨?_, ?_, ?_, ?_⟩, ⟨?_, ?_, ?_, ?_⟩⟩
  · rw [typeNeedsDrop_array]
    exact enumNeedsDrop
  · refine .array rfl ?_
    intro value member
    rw [List.mem_singleton.mp member]
    refine .enum rfl rfl ?_
    intro part inZip
    rw [List.mem_singleton.mp (show part ∈ [(Ty.vec 0, Val.vec 1 [])] from inZip)]
    exact vecTyped
  · rw [dropValue_glue (by simp), synthesizeDropGlue,
      if_pos (typeNeedsDrop_array pool.toLayoutPool 1 ▸ enumNeedsDrop), Option.bind_some]
    rfl
  · change owedParts pool .element [.enum 0] [.enum 0 [.vec 1 []]] 0 = _
    rw [owedParts, if_pos enumNeedsDrop, enumOwed]
    rfl
  · rw [typeNeedsDrop_array]
    exact vecNeedsDrop
  · refine .array rfl ?_
    intro value member
    rw [List.mem_singleton.mp member]
    exact vecTyped
  · rw [dropValue_glue (by simp), synthesizeDropGlue,
      if_pos (typeNeedsDrop_array pool.toLayoutPool 2 ▸ vecNeedsDrop), Option.bind_some]
    rfl
  · rw [owed]
    change owedParts pool .element [.vec 0] [.vec 1 []] 0 = _
    rw [owedParts, if_pos vecNeedsDrop, vecOwed]
    rfl
  · exact guardNeedsDrop
  · exact .struct rfl (by simp)
  · have noSlots : abiSlotCount pool.toLayoutPool (.struct 1) = 0 := by
      rw [abiSlotCount_struct]
      rfl
    have missing : (wholeFrame pool (List.replicate (abiSlotCount pool.toLayoutPool (.struct 1))
        (.struct 1)) (.struct [])).eval (.param 0) = none := by
      simp [noSlots, GlueFrame.eval, wholeFrame, slotTable_empty]
    rw [dropValue_glue (by simp), synthesizeDropGlue, if_pos guardNeedsDrop]
    exact structBody_missing guardNeedsDrop missing
  · rw [owed]
    rfl

end DropSample

end Gruel
