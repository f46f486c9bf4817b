import Gruel.MatchDispatchCore

/-!
The blocks that test a pattern send a value of its type where the pattern sends it.
-/

namespace Gruel

namespace MatchDispatch

open BlockGraph
open Arith (wrap fits bits encode)

variable {state between final : State} {middle after builder before start : Builder}
  {graph : CfgGraph} {more : List CfgInst} {index active : Nat} {ty : Ty} {id : EnumId}
  {targets : BranchTargets} {value : Value} {subs : List SubTest}
  {outcome : List Value → Option Bool} {tys : List Ty}

variable {inner : Nat → Prop} {block skip later : Nat} {name : CfgValue} {slot : Slot}
  {fields : List Value} {total : Value → Option Bool} {variant : EnumVariantDef}

structure Writes (before after : Builder) (more : List CfgInst) : Prop where
  current : after.current = before.current
  blockCount : after.blockCount = before.blockCount
  insts : (after.blocks before.current).insts = (before.blocks before.current).insts ++ more
  terminator : (after.blocks before.current).terminator = (before.blocks before.current).terminator
  kept : ∀ block, block ≠ before.current → after.blocks block = before.blocks block
  values_le : before.valueCount ≤ after.valueCount
  slots_le : before.slotCount ≤ after.slotCount

theorem Writes.trans {first second : List CfgInst} (one : Writes before middle first)
    (two : Writes middle after second) :
    Writes before after (first ++ second) where
  current := two.current.trans one.current
  blockCount := two.blockCount.trans one.blockCount
  insts := by
    have extended := two.insts
    rw [one.current, one.insts, List.append_assoc] at extended
    exact extended
  terminator := by
    have same := two.terminator
    rw [one.current, one.terminator] at same
    exact same
  kept block differs := by
    rw [two.kept block (by rw [one.current]; exact differs), one.kept block differs]
  values_le := Nat.le_trans one.values_le two.values_le
  slots_le := Nat.le_trans one.slots_le two.slots_le

theorem emit_writes (builder : Builder) (data : CfgInstData) (ty : Ty) :
    Writes builder (builder.emit data ty).2 [{ value := builder.valueCount, data, ty }] where
  current := rfl
  blockCount := rfl
  insts := by simp [Builder.emit, Builder.setBlock, Builder.currentBlock]
  terminator := by simp [Builder.emit, Builder.setBlock, Builder.currentBlock]
  kept block differs := by simp [Builder.emit, Builder.setBlock, differs]
  values_le := Nat.le_succ _
  slots_le := Nat.le_refl _

theorem readProjected_writes (scrut : Scrutinee) (builder : Builder) : Writes builder (readProjected scrut builder).2
      [{ value := builder.valueCount, data := .placeRead scrut.slot scrut.projection, ty := scrut.ty }] :=
  emit_writes builder _ _

theorem allocTempLocal_writes (builder : Builder) : Writes builder builder.allocTempLocal.2 [] where
  current := rfl
  blockCount := rfl
  insts := (List.append_nil _).symm
  terminator := rfl
  kept _ _ := rfl
  values_le := Nat.le_refl _
  slots_le := Nat.le_succ _

structure Ready (builder : Builder) : Prop where
  current_lt : builder.current < builder.blockCount
  unclosed : (builder.blocks builder.current).terminator = none
  fresh : ∀ block, builder.blockCount ≤ block → builder.blocks block = {}

structure Grows (before after : Builder) : Prop where
  blocks_le : before.blockCount ≤ after.blockCount
  values_le : before.valueCount ≤ after.valueCount
  slots_le : before.slotCount ≤ after.slotCount
  kept : ∀ block, block < before.blockCount → block ≠ before.current → after.blocks block = before.blocks block
  extended : ∃ more, (after.blocks before.current).insts = (before.blocks before.current).insts ++ more
  fresh : ∀ block, after.blockCount ≤ block → after.blocks block = {}

theorem Writes.ready (ready : Ready before) (writes : Writes before after more) : Ready after where
  current_lt := by
    rw [writes.current, writes.blockCount]
    exact ready.current_lt
  unclosed := by
    rw [writes.current, writes.terminator]
    exact ready.unclosed
  fresh block above := by
    rw [writes.blockCount] at above
    have differs : block ≠ before.current := by
      rintro rfl
      exact absurd ready.current_lt (Nat.not_lt.mpr above)
    rw [writes.kept block differs, ready.fresh block above]

theorem Writes.grows (writes : Writes before middle more) (grows : Grows middle after) : Grows before after where
  blocks_le := by
    rw [← writes.blockCount]
    exact grows.blocks_le
  values_le := Nat.le_trans writes.values_le grows.values_le
  slots_le := Nat.le_trans writes.slots_le grows.slots_le
  kept block lt differs := by
    rw [grows.kept block (by rw [writes.blockCount]; exact lt)
      (by rw [writes.current]; exact differs), writes.kept block differs]
  extended := by
    obtain ⟨rest, grown⟩ := grows.extended
    rw [writes.current, writes.insts, List.append_assoc] at grown
    exact ⟨more ++ rest, grown⟩
  fresh := grows.fresh

theorem Writes.close (ready : Ready before) (writes : Writes before middle more) (terminator : Terminator) :
    Grows before (middle.setTerminator middle.current terminator) where
  blocks_le := Nat.le_of_eq writes.blockCount.symm
  values_le := writes.values_le
  slots_le := writes.slots_le
  kept block _ differs := by
    simp only [Builder.setTerminator, Builder.setBlock, writes.current, differs, if_false]
    exact writes.kept block differs
  extended := by
    refine ⟨more, ?_⟩
    simp only [Builder.setTerminator, Builder.setBlock, writes.current, if_true]
    exact writes.insts
  fresh block above := by
    have fresh := (writes.ready ready).fresh block above
    have current := (writes.ready ready).current_lt
    have differs : block ≠ middle.current := by
      rintro rfl
      exact absurd current (Nat.not_lt.mpr above)
    simp only [Builder.setTerminator, Builder.setBlock, differs, if_false]
    exact fresh

theorem newBlock_ready (ready : Ready builder) : Ready builder.newBlock.2 where
  current_lt := Nat.lt_succ_of_lt ready.current_lt
  unclosed := ready.unclosed
  fresh block above := ready.fresh block (Nat.le_of_succ_le above)

theorem Grows.next_empty (ready : Ready start) (grows : Grows start.newBlock.2 middle) :
    middle.blocks start.blockCount = {} := by
  rw [grows.kept start.blockCount (Nat.lt_succ_self _) (Nat.ne_of_gt ready.current_lt)]
  exact ready.fresh start.blockCount (Nat.le_refl _)

theorem Grows.ready_next (ready : Ready start) (grows : Grows start.newBlock.2 middle) :
    Ready (middle.moveTo start.blockCount) where
  current_lt := grows.blocks_le
  unclosed := by
    change (middle.blocks start.blockCount).terminator = none
    rw [grows.next_empty ready]
  fresh := grows.fresh

def Agrees (graph : CfgGraph) (before after : Builder) : Prop :=
  ∀ block, block = before.current ∨ before.blockCount ≤ block ∧ block < after.blockCount →
    graph block = after.blocks block

structure Frame (builder : Builder) (before after : State) : Prop where
  env : ∀ value, value < builder.valueCount → after.env value = before.env value
  slots : ∀ slot, slot < builder.slotCount → after.slots slot = before.slots slot

theorem Frame.refl (builder : Builder) (state : State) : Frame builder state state :=
  ⟨fun _ _ => rfl, fun _ _ => rfl⟩

theorem Frame.trans {later : Builder} {first second third : State}
    (one : Frame builder first second) (two : Frame later second third)
    (values_le : builder.valueCount ≤ later.valueCount)
    (slots_le : builder.slotCount ≤ later.slotCount) : Frame builder first third where
  env value lt := by rw [two.env value (Nat.lt_of_lt_of_le lt values_le), one.env value lt]
  slots slot lt := by rw [two.slots slot (Nat.lt_of_lt_of_le lt slots_le), one.slots slot lt]

def Within (before after : Builder) (block : Nat) : Prop :=
  before.blockCount ≤ block ∧ block < after.blockCount

def Ends (graph : CfgGraph) (before after : Builder) (state : State) (targets : BranchTargets) : Option Bool → Prop
  | some matched => ∃ final, Leads machine graph (Within before after) before.current
        (before.blocks before.current).insts.length state
        (if matched then targets.matched else targets.unmatched) final ∧
      Frame before state final
  | none =>
    Stops machine graph (Within before after) before.current (before.blocks before.current).insts.length state

def Emits (pool : TypeInternPool) (emission : Emission) (ty : Ty) (outcome : Value → Option Bool) : Prop :=
  ∀ slot projection targets builder, Ready builder → slot < builder.slotCount →
    ∃ after, emission { slot, ty, projection } targets builder = some after ∧ Grows builder after ∧
      ∀ graph, Agrees graph builder after → ∀ state value,
        state.place slot projection = some value → Holds pool value ty →
          Ends graph builder after state targets (outcome value)

theorem finish_writes {rest : List CfgInst} (writes : Writes before middle more)
    (same : graph before.current = after.blocks before.current)
    (grown : (after.blocks before.current).insts = (middle.blocks before.current).insts ++ rest)
    (ran : machine.runInsts more state = some between) :
    machine.finish (graph before.current) (before.blocks before.current).insts.length state =
      machine.finish (graph before.current) (middle.blocks before.current).insts.length between := by
  have position : (middle.blocks before.current).insts.length =
      (before.blocks before.current).insts.length + more.length := by
    rw [writes.insts, List.length_append]
  rw [position]
  apply finish_advance _ ran
  rw [same, grown, writes.insts, List.append_assoc, List.drop_left, ← List.append_assoc,
    ← List.length_append, List.drop_left]

theorem leads_of_finish {target : Nat}
    (same : machine.finish (graph block) skip state = machine.finish (graph block) later between)
    (leads : Leads machine graph inner block later between target final) :
    Leads machine graph inner block skip state target final := by
  cases leads with
  | arrive finished => exact .arrive (same.trans finished)
  | pass finished within rest => exact .pass (same.trans finished) within rest

theorem stops_of_finish (same : machine.finish (graph block) skip state = machine.finish (graph block) later between)
    (stops : Stops machine graph inner block later between) :
    Stops machine graph inner block skip state := by
  cases stops with
  | here stuck => exact .here (same.trans stuck)
  | pass finished within rest => exact .pass (same.trans finished) within rest

theorem Ends.of_writes {outcome : Option Bool} (writes : Writes before middle more)
    (grows : Grows middle after) (agrees : Agrees graph before after)
    (ran : machine.runInsts more state = some between) (frame : Frame before state between)
    (ends : Ends graph middle after between targets outcome) :
    Ends graph before after state targets outcome := by
  obtain ⟨_, grown⟩ := grows.extended
  rw [writes.current] at grown
  have same := finish_writes writes (agrees before.current (.inl rfl)) grown ran
  have within : ∀ block, Within middle after block → Within before after block := by
    rintro block ⟨lower, upper⟩
    exact ⟨by rw [← writes.blockCount]; exact lower, upper⟩
  unfold Ends at ends ⊢
  rw [writes.current] at ends
  cases outcome with
  | none => exact stops_of_finish same (ends.mono within)
  | some matched =>
    obtain ⟨final, leads, later⟩ := ends
    exact ⟨final, leads_of_finish same (leads.mono within), frame.trans later writes.values_le writes.slots_le⟩

theorem Agrees.of_writes (writes : Writes before middle more) (agrees : Agrees graph before after) :
    Agrees graph middle after := by
  rintro block (rfl | ⟨lower, upper⟩)
  · exact agrees _ (.inl writes.current)
  · exact agrees block (.inr ⟨by rw [← writes.blockCount]; exact lower, upper⟩)

theorem leads_of_close {terminator : Terminator} {block : BlockId}
    (writes : Writes before middle more) (same : graph before.current =
      (middle.setTerminator middle.current terminator).blocks before.current)
    (ran : machine.runInsts more state = some final) (goes : target terminator final = some block) :
    Leads machine graph (Within before after) before.current
      (before.blocks before.current).insts.length state block final := by
  apply Leads.arrive
  rw [same]
  simp only [Machine.finish, Builder.setTerminator, Builder.setBlock, writes.current, if_true,
    writes.insts, List.drop_left, ran, Option.bind_some, Machine.leave]
  change (target terminator final).map _ = _
  rw [goes]
  rfl

@[simp] theorem bind_env_self (state : State) (name : CfgValue) (value : Value) :
    (state.bind name value).env name = some value := by
  simp [State.bind]

theorem bind_env_of_ne {other : CfgValue} (value : Value) (differs : other ≠ name) :
    (state.bind name value).env other = state.env other := by
  simp [State.bind, differs]

theorem frame_bind {before : State} (frame : Frame builder before state) (fresh : builder.valueCount ≤ name) :
    Frame builder before (state.bind name value) where
  env other lt := by
    rw [bind_env_of_ne value (Nat.ne_of_lt (Nat.lt_of_lt_of_le lt fresh)), frame.env other lt]
  slots := frame.slots

def Steps (before after : Builder) (state final : State) : Prop :=
  ∃ more, Writes before after more ∧ machine.runInsts more state = some final ∧ Frame before state final

theorem Steps.trans (one : Steps before middle state between)
    (two : Steps middle after between final) : Steps before after state final := by
  obtain ⟨first, writes, ran, frame⟩ := one
  obtain ⟨second, later, ranLater, frameLater⟩ := two
  refine ⟨first ++ second, writes.trans later, ?_, frame.trans frameLater writes.values_le writes.slots_le⟩
  rw [runInsts_append, ran]
  exact ranLater

theorem runInsts_single {inst : CfgInst} (ran : exec inst state = some final) :
    machine.runInsts [inst] state = some final := by
  change (exec inst state).bind _ = some final
  rw [ran]
  rfl

theorem steps_emit {data : CfgInstData} (ran : exec ⟨builder.valueCount, data, ty⟩ state =
      some (state.bind builder.valueCount value)) :
    Steps builder (builder.emit data ty).2 state (state.bind builder.valueCount value) :=
  ⟨_, emit_writes builder data ty, runInsts_single ran, frame_bind (.refl builder state) (Nat.le_refl _)⟩

theorem steps_read {builder : Builder} {scrut : Scrutinee} {state : State} {value : Value}
    (here : state.place scrut.slot scrut.projection = some value) :
    Steps builder (readProjected scrut builder).2 state (state.bind builder.valueCount value) := by
  apply steps_emit
  simp [exec, CfgInst.eval, here]

theorem steps_eq {lhs rhs : CfgValue} {left right : Value} {equal : Bool}
    (hasLeft : state.env lhs = some left) (hasRight : state.env rhs = some right)
    (decided : valueEq left right = some equal) :
    Steps builder (builder.emit (.binEq lhs rhs) .bool).2 state (state.bind builder.valueCount (.bool equal)) := by
  apply steps_emit
  simp [exec, CfgInst.eval, hasLeft, hasRight, decided]

variable {pool : TypeInternPool}

theorem nothing_writes (builder : Builder) : Writes builder builder [] :=
  ⟨rfl, rfl, (List.append_nil _).symm, rfl, fun _ _ => rfl, Nat.le_refl _, Nat.le_refl _⟩

theorem ends_goto (agrees : Agrees graph builder (builder.setTerminator builder.current (.goto targets.matched)))
    (state : State) :
    Ends graph builder (builder.setTerminator builder.current (.goto targets.matched)) state targets (some true) :=
  ⟨state, leads_of_close (nothing_writes builder) (agrees _ (.inl rfl)) rfl rfl, .refl builder state⟩

theorem emits_gotoMatched (ty : Ty) : Emits pool gotoMatched ty fun _ => some true := by
  intro _ _ _ builder ready _
  refine ⟨_, rfl, (nothing_writes builder).close ready _, ?_⟩
  intro _ agrees state _ _ _
  exact ends_goto agrees state

theorem ends_branch {cond : CfgValue} {truth : Bool} (steps : Steps builder middle state final)
    (agrees : Agrees graph builder (middle.branchTo cond targets.matched targets.unmatched))
    (computed : final.env cond = some (.bool truth)) :
    Ends graph builder (middle.branchTo cond targets.matched targets.unmatched) state targets (some truth) := by
  obtain ⟨_, writes, ran, frame⟩ := steps
  refine ⟨final, leads_of_close writes (agrees _ (.inl rfl)) ran ?_, frame⟩
  simp [target, computed]

theorem emits_literalTest {literal : CfgInstData} {literalTy : Ty} {literalValue : Value}
    {outcome : Value → Bool} (evaluates : ∀ state name, exec ⟨name, literal, literalTy⟩ state =
      some (state.bind name literalValue)) (decides : ∀ value, Holds pool value ty →
      valueEq value literalValue = some (outcome value)) :
    Emits pool (emitLiteralTest literal literalTy) ty fun value => some (outcome value) := by
  intro slot projection _ builder ready _
  let scrut : Scrutinee := { slot, ty, projection }
  have writes := ((readProjected_writes scrut builder).trans (emit_writes _ literal literalTy)).trans
    (emit_writes _ (.binEq builder.valueCount (builder.valueCount + 1)) .bool)
  refine ⟨_, rfl, writes.close ready _, ?_⟩
  intro _ agrees state value here holds
  have read : Steps builder (readProjected scrut builder).2 state
      (state.bind builder.valueCount value) := steps_read here
  have loaded := read.trans (steps_emit (evaluates _ _))
  have kept : ((state.bind builder.valueCount value).bind (builder.valueCount + 1)
      literalValue).env builder.valueCount = some value := by
    rw [bind_env_of_ne _ (Nat.ne_of_lt (Nat.lt_succ_self _)), bind_env_self]
  have compared := loaded.trans (steps_eq kept (bind_env_self _ _ _) (decides value holds))
  exact ends_branch compared agrees (bind_env_self _ _ _)

theorem Frame.place {before after : State} (frame : Frame builder before after)
    (lt : slot < builder.slotCount) (projection : List FieldProjection) :
    after.place slot projection = before.place slot projection := by
  simp [State.place, frame.slots slot lt]

theorem wrap_inj_of_lt (width : Nat) (unsigned : ty.isSigned = false) (wide : bits ty = width)
    (index_lt : index < 2 ^ width) (active_lt : active < 2 ^ width)
    (same : wrap ty index = wrap ty active) : index = active := by
  have fitsBelow : ∀ number : Nat, number < 2 ^ width → fits ty number := by
    intro number lt
    unfold fits
    rw [unsigned, wide]
    exact ⟨Int.natCast_nonneg number, by exact_mod_cast lt⟩
  unfold wrap at same
  rw [Arith.read_encode (fitsBelow index index_lt), Arith.read_encode (fitsBelow active active_lt)] at same
  exact_mod_cast same

theorem wrap_discriminant_inj {definition : EnumDef} (index_lt : index < definition.variants.length)
    (active_lt : active < definition.variants.length) (index_small : index < 2 ^ 32)
    (active_small : active < 2 ^ 32)
    (same : wrap definition.discriminantType index = wrap definition.discriminantType active) :
    index = active := by
  simp only [EnumDef.discriminantType] at same
  split at same
  · have patterns := congrArg BitVec.toNat (BitVec.eq_of_toInt_eq same)
    simp only [encode, bits, BitVec.ofInt_natCast, BitVec.toNat_ofNat] at patterns
    rwa [Nat.mod_eq_of_lt index_small, Nat.mod_eq_of_lt active_small] at patterns
  · split at same
    · next empty => omega
    · split at same
      · exact wrap_inj_of_lt 8 rfl rfl (by omega) (by omega) same
      · split at same
        · exact wrap_inj_of_lt 16 rfl rfl (by omega) (by omega) same
        · split at same
          · exact wrap_inj_of_lt 32 rfl rfl index_small active_small same
          · exact wrap_inj_of_lt 64 rfl rfl (by omega) (by omega) same

theorem discriminantCheck_writes (pool : TypeInternPool) (variantIndex : Nat) (scrut : Scrutinee)
    (builder : Builder) :
    ∃ more, Writes builder (emitDiscriminantCheck pool variantIndex scrut builder).2 more :=
  ⟨_, (((readProjected_writes scrut builder).trans (emit_writes _ _ _)).trans
    (emit_writes _ _ _)).trans (emit_writes _ _ _)⟩

variable {base : CfgValue} {variantIndex : Nat}

theorem steps_tag (has : state.env base = some (.enum id active fields)) :
    Steps builder (builder.emit (.getDiscriminant base) ty).2 state
      (state.bind builder.valueCount (.int (wrap ty active))) := by
  apply steps_emit
  simp [exec, CfgInst.eval, has]

theorem steps_const {constant : BitVec 64} : Steps builder (builder.emit (.const constant) ty).2 state
      (state.bind builder.valueCount (.int (wrap ty constant.toNat))) :=
  steps_emit rfl

theorem discriminantCheck_steps {index active : Nat} {id : EnumId} {scrut : Scrutinee}
    {builder : Builder} {state : State} {fields : List Value} (typed : scrut.ty = .enum id)
    (here : state.place scrut.slot scrut.projection = some (.enum id active fields))
    (index_lt : index < (pool.enumDef id).variants.length)
    (active_lt : active < (pool.enumDef id).variants.length)
    (index_small : index < 2 ^ 32) (active_small : active < 2 ^ 32) :
    ∃ final, Steps builder (emitDiscriminantCheck pool index scrut builder).2 state final ∧
      final.env (emitDiscriminantCheck pool index scrut builder).1 = some (.bool (decide (index = active))) := by
  let ty := enumDiscriminantType pool scrut.ty
  have discriminant : ty = (pool.enumDef id).discriminantType := by
    change enumDiscriminantType pool scrut.ty = _
    rw [typed]
    rfl
  let name := builder.valueCount
  let loaded := state.bind name (.enum id active fields)
  let tagged := loaded.bind (name + 1) (.int (wrap ty active))
  let compared := tagged.bind (name + 2) (.int (wrap ty (BitVec.ofNat 64 index).toNat))
  have hasTag : compared.env (name + 1) = some (.int (wrap ty active)) := by
    rw [bind_env_of_ne _ (Nat.ne_of_lt (Nat.lt_succ_self _)), bind_env_self]
  have decided : valueEq (.int (wrap ty active)) (.int (wrap ty (BitVec.ofNat 64 index).toNat)) =
      some (decide (index = active)) := by
    have constant : (BitVec.ofNat 64 index).toNat = index := by
      rw [BitVec.toNat_ofNat]
      omega
    simp only [valueEq, constant, Option.some.injEq, decide_eq_decide]
    constructor
    · intro same
      rw [discriminant] at same
      exact (wrap_discriminant_inj active_lt index_lt active_small index_small same).symm
    · rintro rfl
      rfl
  have read : Steps builder (readProjected scrut builder).2 state loaded := steps_read here
  have ran := (read.trans ((steps_tag (bind_env_self _ _ _)).trans steps_const)).trans
    (steps_eq hasTag (bind_env_self _ _ _) decided)
  exact ⟨_, ran, bind_env_self _ _ _⟩

theorem holds_enum (holds : Holds pool value (.enum id)) :
    ∃ active fields variant, value = .enum id active fields ∧ active < 2 ^ 32 ∧
      (pool.enumDef id).variants[active]? = some variant ∧ HoldAll pool fields variant.fields := by
  cases value with
  | int _ => cases holds.1
  | bool _ => cases holds
  | struct _ _ => exact absurd holds.1 (by simp)
  | enum other active fields =>
    obtain ⟨same, small, variant, found, held⟩ := holds
    cases same
    exact ⟨active, fields, variant, rfl, small, found, held⟩

theorem lt_of_getElem? {α : Type} {list : List α} {element : α}
    (found : list[index]? = some element) : index < list.length :=
  (List.getElem?_eq_some_iff.mp found).1

theorem emits_discriminantTest {outcome : Value → Option Bool}
    (index_lt : index < (pool.enumDef id).variants.length) (index_small : index < 2 ^ 32)
    (decides : ∀ active fields, Holds pool (.enum id active fields) (.enum id) →
      outcome (.enum id active fields) = some (decide (index = active))) :
    Emits pool (fun scrut targets builder =>
      let (cond, builder) := emitDiscriminantCheck pool index scrut builder
      some (builder.branchTo cond targets.matched targets.unmatched)) (.enum id) outcome := by
  intro slot projection targets builder ready _
  let scrut : Scrutinee := { slot, ty := .enum id, projection }
  obtain ⟨_, writes⟩ := discriminantCheck_writes pool index scrut builder
  refine ⟨_, rfl, writes.close ready _, ?_⟩
  intro _ agrees state _ here holds
  obtain ⟨active, fields, _, rfl, active_small, found, _⟩ := holds_enum holds
  obtain ⟨_, steps, computed⟩ := @discriminantCheck_steps pool index active id scrut builder
    state fields rfl here index_lt (lt_of_getElem? found) index_small active_small
  rw [decides active fields holds]
  exact ends_branch steps agrees computed

def andThen : Option Bool → Option Bool → Option Bool
  | some true, second => second
  | first, _ => first

theorem Grows.sequence (ready : Ready start) (grows : Grows start.newBlock.2 middle)
    (later : Grows (middle.moveTo start.blockCount) after) :
    Grows start after where
  blocks_le := Nat.le_trans (Nat.le_of_succ_le grows.blocks_le) later.blocks_le
  values_le := Nat.le_trans grows.values_le later.values_le
  slots_le := Nat.le_trans grows.slots_le later.slots_le
  kept block lt differs := by
    have present : block < middle.blockCount := Nat.lt_of_lt_of_le (Nat.lt_succ_of_lt lt) grows.blocks_le
    rw [later.kept block present (Nat.ne_of_lt lt)]
    exact grows.kept block (Nat.lt_succ_of_lt lt) differs
  extended := by
    obtain ⟨more, grown⟩ := grows.extended
    refine ⟨more, ?_⟩
    have present : start.current < middle.blockCount :=
      Nat.lt_of_lt_of_le (Nat.lt_succ_of_lt ready.current_lt) grows.blocks_le
    rw [later.kept start.current present (Nat.ne_of_lt ready.current_lt)]
    exact grown
  fresh := later.fresh

theorem Ends.sequence {first second : Option Bool} (ready : Ready start)
    (grows : Grows start.newBlock.2 middle) (later : Grows (middle.moveTo start.blockCount) after)
    (agrees : Agrees graph start after) (one : Agrees graph start.newBlock.2 middle →
      Ends graph start.newBlock.2 middle state { targets with matched := start.blockCount } first)
    (two : first = some true → Agrees graph (middle.moveTo start.blockCount) after →
      ∀ final, Frame start state final → Ends graph (middle.moveTo start.blockCount) after final targets second) :
    Ends graph start after state targets (andThen first second) := by
  have next_lt : start.blockCount < middle.blockCount := grows.blocks_le
  have agreesFirst : Agrees graph start.newBlock.2 middle := by
    rintro block (rfl | ⟨lower, upper⟩)
    · have present : start.current < middle.blockCount :=
        Nat.lt_trans ready.current_lt next_lt
      change graph start.current = middle.blocks start.current
      rw [agrees start.current (.inl rfl), later.kept start.current present (Nat.ne_of_lt ready.current_lt)]
      rfl
    · have above : start.blockCount < block := lower
      rw [agrees block (.inr ⟨Nat.le_of_lt above, Nat.lt_of_lt_of_le upper later.blocks_le⟩),
        later.kept block upper (Nat.ne_of_gt above)]
      rfl
  have agreesSecond : Agrees graph (middle.moveTo start.blockCount) after := by
    rintro block (rfl | ⟨lower, upper⟩)
    · exact agrees start.blockCount (.inr ⟨Nat.le_refl _, Nat.lt_of_lt_of_le next_lt later.blocks_le⟩)
    · exact agrees block (.inr ⟨Nat.le_trans (Nat.le_of_lt next_lt) lower, upper⟩)
  have withinFirst : ∀ block, Within start.newBlock.2 middle block → Within start after block :=
    fun _ inside => ⟨Nat.le_of_succ_le inside.1, Nat.lt_of_lt_of_le inside.2 later.blocks_le⟩
  have withinSecond : ∀ block, Within (middle.moveTo start.blockCount) after block → Within start after block :=
    fun _ inside => ⟨Nat.le_trans (Nat.le_of_lt next_lt) inside.1, inside.2⟩
  have inside : Within start after start.blockCount :=
    ⟨Nat.le_refl _, Nat.lt_of_lt_of_le next_lt later.blocks_le⟩
  -- the next block is still empty when its test begins
  have empty : ((middle.moveTo start.blockCount).blocks start.blockCount).insts = [] := by
    change (middle.blocks start.blockCount).insts = []
    rw [grows.next_empty ready]
  have ran := one agreesFirst
  cases first with
  | none => exact Stops.mono ran withinFirst
  | some truth =>
    obtain ⟨final, leads, frame⟩ := ran
    have frameStart : Frame start state final := ⟨frame.env, frame.slots⟩
    cases truth with
    | false => exact ⟨final, leads.mono withinFirst, frameStart⟩
    | true =>
      have rest := two rfl agreesSecond final frameStart
      have reached := leads.mono withinFirst
      simp only [Builder.moveTo] at rest
      cases second with
      | none =>
        change Stops _ _ _ _ (List.length ((middle.moveTo start.blockCount).blocks _).insts) _ at rest
        rw [empty] at rest
        exact reached.stops inside (rest.mono withinSecond)
      | some matched =>
        obtain ⟨last, leads, frameLast⟩ := rest
        change Leads _ _ _ _ (List.length ((middle.moveTo start.blockCount).blocks _).insts)
          _ _ _ at leads
        rw [empty] at leads
        exact ⟨last, reached.trans inside (leads.mono withinSecond),
          frameStart.trans frameLast grows.values_le grows.slots_le⟩

@[simp] theorem andThen_true (outcome : Option Bool) : andThen outcome (some true) = outcome := by
  rcases outcome with _ | _ | _ <;> rfl

def Chain (pool : TypeInternPool) (tys : List Ty) : List SubTest → (List Value → Option Bool) → Prop
  | [], outcome => ∀ values, HoldAll pool values tys → outcome values = some true
  | sub :: rest, outcome => ∃ ty head tail, tys[sub.index]? = some ty ∧ Emits pool sub.emission ty head ∧
      (sub.trivial = true → ∀ value, Holds pool value ty → head value = some true) ∧
      Chain pool tys rest tail ∧
      ∀ values value, HoldAll pool values tys → values[sub.index]? = some value →
        outcome values = andThen (head value) (tail values)

theorem HoldAll.getElem? {values : List Value} (held : HoldAll pool values tys) (found : tys[index]? = some ty) :
    ∃ value, values[index]? = some value ∧ Holds pool value ty := by
  induction tys generalizing values index with
  | nil => simp at found
  | cons first rest ih =>
    cases values with
    | nil => exact held.elim
    | cons value others =>
      cases index with
      | zero =>
        cases found
        exact ⟨value, rfl, held.1⟩
      | succ index =>
        have later : rest[index]? = some ty := found
        have sub := ih held.2 later
        exact sub

theorem holds_struct {id : StructId} (holds : Holds pool value (.struct id)) :
    ∃ fields, value = .struct id fields ∧ HoldAll pool fields (pool.structDef id).fieldTypes := by
  cases value with
  | int _ => cases holds.1
  | bool _ => cases holds
  | struct other fields =>
    obtain ⟨same, held⟩ := holds
    cases same
    exact ⟨fields, rfl, held⟩
  | enum _ _ _ => exact absurd holds.1 (by simp)

theorem project_append (value : Value) (first second : List FieldProjection) :
    project value (first ++ second) = (project value first).bind fun inner => project inner second := by
  induction first generalizing value with
  | nil => rfl
  | cons step rest ih =>
    cases value with
    | struct id fields =>
      simp only [List.cons_append, project]
      split
      · cases fields[step.fieldIndex]? with
        | none => rfl
        | some field => exact ih field
      · rfl
    | int _ => rfl
    | bool _ => rfl
    | enum _ _ _ => rfl

theorem place_field {projection : List FieldProjection} {id : StructId} {field : Value}
    (here : state.place slot projection = some (.struct id fields))
    (has : fields[index]? = some field) :
    state.place slot (projection ++ [⟨id, index⟩]) = some field := by
  unfold State.place at here ⊢
  cases content : state.slots slot with
  | none =>
    rw [content] at here
    cases here
  | some value =>
    rw [content] at here
    change project value projection = some _ at here
    change project value (projection ++ [⟨id, index⟩]) = some field
    rw [project_append, here]
    simp [project, has]

theorem emits_fieldChain {id : StructId} (shape : (pool.structDef id).fieldTypes = tys)
    (chain : Chain pool tys subs outcome) (nonempty : subs ≠ [])
    (agree : ∀ fields, HoldAll pool fields tys → total (.struct id fields) = outcome fields) :
    Emits pool (emitFieldChain id tys subs) (.struct id) total := by
  induction subs generalizing outcome total with
  | nil => exact absurd rfl nonempty
  | cons sub rest ih =>
    obtain ⟨ty, _, tail, found, emits, -, chainRest, combine⟩ := chain
    intro slot projection targets builder ready lt
    by_cases last : rest = []
    · subst last
      obtain ⟨after, emitted, grows, runs⟩ :=
        emits slot (projection ++ [⟨id, sub.index⟩]) targets builder ready lt
      refine ⟨after, by simp [emitFieldChain, found, emitted], grows, ?_⟩
      intro graph agrees state value here holds
      obtain ⟨fields, rfl, held⟩ := holds_struct holds
      rw [shape] at held
      obtain ⟨field, has, holdsField⟩ := held.getElem? found
      rw [agree fields held, combine fields field held has, chainRest fields held, andThen_true]
      exact runs graph agrees state field (place_field here has) holdsField
    · obtain ⟨middle, emitted, grows, runs⟩ :=
        emits slot (projection ++ [⟨id, sub.index⟩]) { targets with matched := builder.blockCount }
          builder.newBlock.2 (newBlock_ready ready) lt
      have restReady : Ready (middle.moveTo builder.blockCount) := grows.ready_next ready
      have slot_lt : slot < (middle.moveTo builder.blockCount).slotCount :=
        Nat.lt_of_lt_of_le lt grows.slots_le
      have rests := @ih tail (Value.casesOn · (fun _ => none) (fun _ => none) (fun _ fields => tail fields)
        fun _ _ _ => none) chainRest last (fun _ _ => rfl)
      obtain ⟨after, emittedRest, later, runsRest⟩ :=
        rests slot projection targets (middle.moveTo builder.blockCount) restReady slot_lt
      refine ⟨after, ?_, Grows.sequence ready grows later, ?_⟩
      · simp only [emitFieldChain, List.isEmpty_iff, last, if_false, found]
        exact Option.bind_eq_some_iff.mpr ⟨ty, rfl, Option.bind_eq_some_iff.mpr ⟨middle, emitted, emittedRest⟩⟩
      · intro graph agrees state value here holds
        obtain ⟨fields, rfl, held⟩ := holds_struct holds
        rw [shape] at held
        obtain ⟨field, has, holdsField⟩ := held.getElem? found
        rw [agree fields held, combine fields field held has]
        apply Ends.sequence ready grows later agrees
        · intro agreesFirst
          exact runs graph agreesFirst state field (place_field here has) holdsField
        · intro _ agreesSecond final frame
          exact runsRest graph agreesSecond final (.struct id fields) ((frame.place lt projection).trans here) holds

def spill (base : CfgValue) (variantIndex index : Nat) (ty : Ty) (builder : Builder) : Builder :=
  let (fieldValue, builder) := builder.emit (.enumPayloadGet base variantIndex index) ty
  let (fieldSlot, builder) := builder.allocTempLocal
  let (_, builder) := builder.emit (.storageLive fieldSlot) .unit
  (builder.emit (.alloc fieldSlot fieldValue) .unit).2

theorem spill_writes (base : CfgValue) (variantIndex index : Nat) (ty : Ty) (builder : Builder) :
    Writes builder (spill base variantIndex index ty builder)
      [⟨builder.valueCount, .enumPayloadGet base variantIndex index, ty⟩,
        ⟨builder.valueCount + 1, .storageLive builder.slotCount, .unit⟩,
        ⟨builder.valueCount + 2, .alloc builder.slotCount builder.valueCount, .unit⟩] :=
  (((emit_writes builder _ ty).trans (allocTempLocal_writes _)).trans
    (emit_writes _ (.storageLive builder.slotCount) .unit)).trans
    (emit_writes _ (.alloc builder.slotCount builder.valueCount) .unit)

theorem spill_steps {index : Nat} {ty : Ty} {builder : Builder} {state : State} {id : EnumId}
    {fields : List Value} {field : Value}
    (has : state.env base = some (.enum id variantIndex fields))
    (found : fields[index]? = some field) :
    ∃ final, Steps builder (spill base variantIndex index ty builder) state final ∧
      final.place builder.slotCount [] = some field := by
  let slot := builder.slotCount
  let read := state.bind builder.valueCount field
  refine ⟨(read.store slot none).store slot (some field), ⟨_, spill_writes _ _ _ _ _, ?_, ?_⟩, ?_⟩
  · simp [Machine.runInsts, machine, exec, CfgInst.eval, has, found, State.store, State.bind, read, slot]
  · constructor
    · intro _ lt
      exact bind_env_of_ne field (Nat.ne_of_lt lt)
    · intro other lt
      have differs : other ≠ builder.slotCount := Nat.ne_of_lt lt
      simp [State.store, State.bind, read, slot, differs]
  · simp [State.place, State.store, project, slot]

theorem emits_payloadChain {tys : List Ty} {subs : List SubTest}
    {outcome : List Value → Option Bool} (chain : Chain pool tys subs outcome)
    (nonempty : subs ≠ []) (targets : BranchTargets) (builder : Builder) (ready : Ready builder)
    (lt : base < builder.valueCount) :
    ∃ after, emitPayloadChain base variantIndex tys subs targets builder = some after ∧ Grows builder after ∧
      ∀ graph, Agrees graph builder after → ∀ state id fields,
        state.env base = some (.enum id variantIndex fields) → HoldAll pool fields tys →
          Ends graph builder after state targets (outcome fields) := by
  induction subs generalizing outcome builder with
  | nil => exact absurd rfl nonempty
  | cons sub rest ih =>
    obtain ⟨ty, _, _, found, emits, -, chainRest, combine⟩ := chain
    by_cases last : rest = []
    · subst last
      have writes := spill_writes base variantIndex sub.index ty builder
      obtain ⟨after, emitted, grows, runs⟩ := emits builder.slotCount [] targets
        (spill base variantIndex sub.index ty builder) (writes.ready ready) (Nat.lt_succ_self _)
      refine ⟨after, ?_, writes.grows grows, ?_⟩
      · simp only [emitPayloadChain, List.isEmpty_nil, if_true, found]
        exact Option.bind_eq_some_iff.mpr ⟨ty, rfl, Option.bind_eq_some_iff.mpr ⟨after, emitted, rfl⟩⟩
      · intro graph agrees state id fields has held
        obtain ⟨field, hasField, holdsField⟩ := held.getElem? found
        obtain ⟨between, ⟨more, wrote, ran, frame⟩, here⟩ :=
          @spill_steps base variantIndex sub.index ty builder state id fields field has hasField
        rw [combine fields field held hasField, chainRest fields held, andThen_true]
        exact Ends.of_writes wrote grows agrees ran frame
          (runs graph (agrees.of_writes wrote) between field here holdsField)
    · have writes := spill_writes base variantIndex sub.index ty builder.newBlock.2
      obtain ⟨middle, emitted, grows, runs⟩ := emits builder.slotCount []
        { targets with matched := builder.blockCount }
        (spill base variantIndex sub.index ty builder.newBlock.2)
        (writes.ready (newBlock_ready ready)) (Nat.lt_succ_self _)
      have whole := writes.grows grows
      have restReady : Ready (middle.moveTo builder.blockCount) := whole.ready_next ready
      obtain ⟨after, emittedRest, later, runsRest⟩ :=
        ih chainRest last (middle.moveTo builder.blockCount) restReady (Nat.lt_of_lt_of_le lt whole.values_le)
      refine ⟨after, ?_, Grows.sequence ready whole later, ?_⟩
      · simp only [emitPayloadChain, List.isEmpty_iff, last, if_false, found]
        exact Option.bind_eq_some_iff.mpr ⟨ty, rfl, Option.bind_eq_some_iff.mpr ⟨middle, emitted, emittedRest⟩⟩
      · intro graph agrees state id fields has held
        obtain ⟨field, hasField, holdsField⟩ := held.getElem? found
        obtain ⟨between, ⟨more, wrote, ran, frame⟩, here⟩ :=
          @spill_steps base variantIndex sub.index ty builder.newBlock.2 state id fields field has hasField
        rw [combine fields field held hasField]
        apply Ends.sequence ready whole later agrees
        · intro agreesFirst
          exact Ends.of_writes wrote grows agreesFirst ran frame
            (runs graph (agreesFirst.of_writes wrote) between field here holdsField)
        · intro _ agreesSecond final kept
          exact runsRest graph agreesSecond final id fields ((kept.env base lt).trans has) held

theorem Chain.filter (chain : Chain pool tys subs outcome) :
    ∃ kept, Chain pool tys (subs.filter fun sub => !sub.trivial) kept ∧
      ∀ values, HoldAll pool values tys → outcome values = kept values := by
  induction subs generalizing outcome with
  | nil => exact ⟨outcome, chain, fun _ _ => rfl⟩
  | cons sub rest ih =>
    obtain ⟨ty, head, _, found, emits, trivially, chainRest, combine⟩ := chain
    obtain ⟨kept, chainKept, same⟩ := ih chainRest
    by_cases trivial : sub.trivial = true
    · refine ⟨kept, ?_, ?_⟩
      · simpa [List.filter, trivial] using chainKept
      · intro values held
        obtain ⟨value, has, holds⟩ := held.getElem? found
        rw [combine values value held has, trivially trivial value holds, ← same values held]
        rfl
    · refine ⟨outcome, ?_, fun _ _ => rfl⟩
      simp only [List.filter, trivial, Bool.not_false]
      refine ⟨ty, head, kept, found, emits, trivially, chainKept, ?_⟩
      intro values value held has
      rw [combine values value held has, same values held]

theorem emits_enumFieldTests (defined : (pool.enumDef id).variants[variantIndex]? = some variant)
    (chain : Chain pool variant.fields subs outcome) (slot : Slot)
    (projection : List FieldProjection) (targets : BranchTargets) (builder : Builder)
    (ready : Ready builder) :
    ∃ after, emitEnumFieldTests pool variantIndex subs { slot, ty := .enum id, projection } targets
        builder = some after ∧
      Grows builder after ∧
      ∀ graph, Agrees graph builder after → ∀ state fields,
        state.place slot projection = some (.enum id variantIndex fields) → HoldAll pool fields variant.fields →
            Ends graph builder after state targets (outcome fields) := by
  obtain ⟨_, chainKept, same⟩ := chain.filter
  unfold emitEnumFieldTests
  simp only [Ty.asEnum, defined, Option.bind_eq_bind, Option.bind_some]
  by_cases trivial : (subs.filter fun sub => !sub.trivial) = []
  · rw [trivial] at chainKept
    refine ⟨_, by simp only [trivial, List.isEmpty_nil, if_true]; rfl, (nothing_writes builder).close ready _, ?_⟩
    intro graph agrees state fields _ held
    rw [same fields held, chainKept fields held]
    exact ends_goto agrees state
  · let scrut : Scrutinee := { slot, ty := .enum id, projection }
    have writes := readProjected_writes scrut builder
    obtain ⟨after, emitted, grows, runs⟩ := @emits_payloadChain pool builder.valueCount
      variantIndex _ _ _ chainKept trivial targets (readProjected scrut builder).2 (writes.ready ready)
      (Nat.lt_succ_self builder.valueCount)
    refine ⟨after, ?_, writes.grows grows, ?_⟩
    · simp only [List.isEmpty_iff, trivial, if_false]
      exact emitted
    · intro graph agrees state fields here held
      obtain ⟨_, wrote, ran, frame⟩ := @steps_read builder scrut state _ here
      rw [same fields held]
      exact Ends.of_writes wrote grows agrees ran frame
        (runs graph (agrees.of_writes wrote) _ id fields (bind_env_self _ _ _) held)

theorem emits_variantTest (small : index < 2 ^ 32) (defined : (pool.enumDef id).variants[index]? = some variant)
    (chain : Chain pool variant.fields subs outcome)
    (agree : ∀ active fields, total (.enum id active fields) =
      if index = active then outcome fields else some false) :
    Emits pool (emitVariantTest pool index subs) (.enum id) total := by
  have index_lt := lt_of_getElem? defined
  by_cases trivial : subs.all SubTest.trivial = true
  · have untested : emitVariantTest pool index subs = fun scrut targets builder =>
        let (cond, builder) := emitDiscriminantCheck pool index scrut builder
        some (builder.branchTo cond targets.matched targets.unmatched) := by
      funext scrut targets builder
      simp [emitVariantTest, trivial]
    rw [untested]
    apply emits_discriminantTest index_lt small
    intro active fields holds
    obtain ⟨_, _, other, found, held⟩ := holds
    rw [agree]
    split
    · next same =>
        subst same
        rw [defined] at found
        cases found
        obtain ⟨kept, chainKept, same⟩ := chain.filter
        have none : (subs.filter fun sub => !sub.trivial) = [] := by
          simpa using trivial
        rw [none] at chainKept
        rw [same fields held, chainKept fields held]
        simp
    · next differs => simp [differs]
  · intro slot projection targets builder ready lt
    let scrut : Scrutinee := { slot, ty := .enum id, projection }
    let check := emitDiscriminantCheck pool index scrut builder
    obtain ⟨more, writes⟩ := discriminantCheck_writes pool index scrut builder
    have checkReady : Ready check.2 := writes.ready ready
    let checked := check.2.newBlock.2
    let middle := checked.branchTo check.1 check.2.blockCount targets.unmatched
    have grows : Grows checked middle :=
      (nothing_writes checked).close (newBlock_ready checkReady) _
    obtain ⟨after, emitted, later, runs⟩ := emits_enumFieldTests defined chain slot projection targets
      (middle.moveTo check.2.blockCount) (grows.ready_next checkReady)
    have whole := Grows.sequence checkReady grows later
    refine ⟨after, ?_, writes.grows whole, ?_⟩
    · simp only [emitVariantTest, trivial]
      exact emitted
    · intro graph agrees state _ here holds
      obtain ⟨active, fields, other, rfl, active_small, found, held⟩ := holds_enum holds
      obtain ⟨final, ⟨more, wrote, ran, frame⟩, computed⟩ := @discriminantCheck_steps pool index
        active id scrut builder state fields rfl here index_lt (lt_of_getElem? found) small
        active_small
      apply Ends.of_writes wrote whole agrees ran frame
      have combined : total (.enum id active fields) = andThen (some (decide (index = active))) (outcome fields) := by
        rw [agree]
        by_cases same : index = active <;> simp [same, andThen]
      rw [combined]
      apply Ends.sequence checkReady grows later (agrees.of_writes wrote)
      · intro agreesFirst
        exact ends_branch ⟨[], nothing_writes checked, rfl, .refl checked final⟩ agreesFirst computed
      · intro same agreesSecond last kept
        obtain rfl : index = active := by simpa using same
        rw [defined] at found
        cases found
        apply runs graph agreesSecond last fields _ held
        rw [kept.place (Nat.lt_of_lt_of_le lt writes.slots_le) projection, frame.place lt projection]
        exact here

theorem wrap_const (ty : Ty) (n : Int) : wrap ty (BitVec.ofInt 64 n).toNat = wrap ty n := by
  have narrow : ((2 ^ bits ty : Nat) : Int) ∣ ((2 ^ 64 : Nat) : Int) := by
    exact_mod_cast Nat.pow_dvd_pow 2 (Arith.bits_le ty)
  have patterns : encode ty (BitVec.ofInt 64 n).toNat = encode ty n := by
    apply BitVec.eq_of_toNat_eq
    have nonneg : 0 ≤ n % ((2 ^ 64 : Nat) : Int) := Int.emod_nonneg n (by decide)
    unfold encode
    rw [BitVec.toNat_ofInt, BitVec.toNat_ofInt, BitVec.toNat_ofInt, Int.toNat_of_nonneg nonneg,
      Int.emod_emod_of_dvd n narrow]
  unfold wrap
  rw [patterns]

mutual

theorem outcome_of_trivial : ∀ (pattern : AirPattern) (ty : Ty) (value : Value),
    isTrivialPattern pattern = true → testOutcome pool pattern ty value = some true
  | .wildcard, _, _, _ => by simp [testOutcome, matchesBy]
  | .bind _ _ inner, ty, value, trivial => by
      exact outcome_of_trivialInner inner ty value trivial
  | .int _, _, _, trivial | .bool _, _, _, trivial | .enumVariant _ _, _, _, trivial
  | .enumUnitVariant _ _, _, _, trivial | .enumDataVariant _ _ _, _, _, trivial
  | .enumStructVariant _ _ _, _, _, trivial | .tuple _, _, _, trivial
  | .struct _ _, _, _, trivial => by simp [isTrivialPattern] at trivial

theorem outcome_of_trivialInner : ∀ (inner : Option AirPattern) (ty : Ty) (value : Value),
    isTrivialInner inner = true → testInner pool inner ty value = some true
  | none, _, _, _ => rfl
  | some pattern, ty, value, trivial => by
      exact outcome_of_trivial pattern ty value trivial

end

theorem emits_nothing {emission : Emission} {ty : Ty}
    (untouched : ∀ scrut targets builder, emission scrut targets builder = some builder) :
    Emits pool emission ty fun _ => none := by
  intro _ _ targets builder ready _
  refine ⟨builder, untouched _ _ _, ⟨Nat.le_refl _, Nat.le_refl _, Nat.le_refl _,
    fun _ _ _ => rfl, ⟨[], (List.append_nil _).symm⟩, ready.fresh⟩, ?_⟩
  intro _ agrees _ _ _ _
  apply Stops.here
  rw [agrees builder.current (.inl rfl)]
  simp [Machine.finish, Machine.runInsts, Machine.leave, ready.unclosed]

theorem emits_int (ty : Ty) (n : Int) (integer : ty.isInteger = true) :
    Emits pool (emitPatternTest pool (.int n)) ty (testOutcome pool (.int n) ty) := by
  have evaluates : ∀ state name, exec ⟨name, .const (BitVec.ofInt 64 n), ty⟩ state =
        some (state.bind name (.int (wrap ty n))) := by
    intro state name
    simp only [exec, CfgInst.eval, wrap_const, Option.map_some]
  have decides : ∀ value, Holds pool value ty →
      valueEq value (.int (wrap ty n)) = some (matchesBy pool wrappedAgrees (.int n) ty value) := by
    intro value holds
    cases value with
    | int number => simp [valueEq, matchesBy, wrappedAgrees, eq_comm]
    | bool _ =>
      rw [show ty = .bool from holds] at integer
      cases integer
    | struct _ _ | enum _ _ _ =>
      rw [holds.1] at integer
      cases integer
  intro slot projection targets builder
  exact emits_literalTest evaluates decides slot projection targets builder

theorem emits_bool (ty : Ty) (b : Bool) (isBool : ty = .bool) :
    Emits pool (emitPatternTest pool (.bool b)) ty (testOutcome pool (.bool b) ty) := by
  have decides : ∀ value, Holds pool value ty →
      valueEq value (.bool b) = some (matchesBy pool wrappedAgrees (.bool b) ty value) := by
    intro value holds
    subst isBool
    cases value with
    | int _ => cases holds.1
    | bool truth => simp [valueEq, matchesBy, Bool.beq_comm]
    | struct _ _ => cases holds.1
    | enum _ _ _ => cases holds.1
  exact emits_literalTest (fun _ _ => rfl) decides

mutual

theorem emits_patternTest : ∀ (pattern : AirPattern) (ty : Ty), TypedAs pool pattern ty →
    Emits pool (emitPatternTest pool pattern) ty (testOutcome pool pattern ty)
  | .wildcard, ty, _ => by
      have always : testOutcome pool .wildcard ty = fun _ => some true := by
        funext value
        simp [testOutcome, matchesBy]
      rw [always, emitPatternTest]
      exact emits_gotoMatched ty
  | .int n, ty, typed => by
      rw [TypedAs] at typed
      exact emits_int ty n typed
  | .bool b, ty, typed => by
      rw [TypedAs] at typed
      exact emits_bool ty b typed
  | .enumVariant _ _, _, typed | .enumUnitVariant _ _, _, typed => by
      rw [TypedAs] at typed
      obtain ⟨rfl, small, lt⟩ := typed
      rw [emitPatternTest]
      apply emits_discriminantTest lt small
      intro active fields _
      simp [testOutcome, matchesBy]
  | .bind name isMut inner, ty, typed => by
      rw [TypedAs] at typed
      have inside : testOutcome pool (.bind name isMut inner) ty = testInner pool inner ty := by
        funext value
        rw [testOutcome]
      rw [inside, emitPatternTest]
      exact emits_innerTest inner ty typed
  | .tuple [], ty, typed => by
      rw [TypedAs] at typed
      obtain ⟨id, rfl, _⟩ := typed
      intro slot projection targets builder
      exact emits_nothing (fun _ _ _ => rfl) slot projection targets builder
  | .tuple (elem :: elems), ty, typed => by
      rw [TypedAs] at typed
      obtain ⟨id, rfl, typedElems⟩ := typed
      have chain := chain_elems 0 (elem :: elems) typedElems
      rw [emitPatternTest]
      intro slot projection targets builder
      refine emits_fieldChain rfl chain (by simp [elemTests]) ?_ slot projection targets builder
      intro fields _
      rw [testOutcome]
      rfl
  | .struct id [], ty, typed => by
      rw [TypedAs] at typed
      have outcome : testOutcome pool (.struct id []) ty = fun _ => none := by
        funext value
        rw [testOutcome]
      rw [outcome, emitPatternTest]
      exact emits_nothing fun _ _ _ => rfl
  | .struct id (field :: fields), ty, typed => by
      rw [TypedAs] at typed
      obtain ⟨rfl, typedFields⟩ := typed
      have chain := chain_fields (field :: fields) typedFields
      rw [emitPatternTest]
      refine emits_fieldChain rfl chain (by simp [fieldTests]) ?_
      intro values _
      rw [testOutcome]
  | .enumDataVariant id index fields, ty, typed => by
      rw [TypedAs] at typed
      obtain ⟨rfl, small, variant, defined, typedElems⟩ := typed
      have chain := chain_elems 0 fields typedElems
      rw [emitPatternTest]
      refine emits_variantTest small defined chain ?_
      intro active values
      rw [testOutcome, defined]
      rfl
  | .enumStructVariant id index fields, ty, typed => by
      rw [TypedAs] at typed
      obtain ⟨rfl, small, variant, defined, typedFields⟩ := typed
      have chain := chain_fields fields typedFields
      rw [emitPatternTest]
      refine emits_variantTest small defined chain ?_
      intro active values
      rw [testOutcome, defined]
      rfl

theorem emits_innerTest : ∀ (inner : Option AirPattern) (ty : Ty), TypedInner pool inner ty →
    Emits pool (emitInnerTest pool inner) ty (testInner pool inner ty)
  | none, ty, _ => by
      rw [emitInnerTest]
      exact emits_gotoMatched ty
  | some pattern, ty, typed => by
      rw [TypedInner] at typed
      have inside : testInner pool (some pattern) ty = testOutcome pool pattern ty := by
        funext value
        rw [testInner]
      rw [inside, emitInnerTest]
      exact emits_patternTest pattern ty typed

theorem chain_elems {tys : List Ty} : ∀ (index : Nat) (elems : List AirPattern),
    TypedElems pool elems (tys.drop index) → Chain pool tys (elemTests pool index elems)
        (fun values => testElems pool elems (tys.drop index) (values.drop index))
  | index, [], _ => fun values _ => by simp [testElems]
  | index, pattern :: rest, typed => by
      cases later : tys.drop index with
      | nil =>
        rw [later, TypedElems] at typed
        · exact typed.elim
        · simp
        · simp
      | cons ty others =>
        rw [later, TypedElems] at typed
        have found : tys[index]? = some ty := by
          rw [← List.head?_drop, later]
          rfl
        have tail : tys.drop (index + 1) = others := by
          rw [← List.drop_drop, later]
          rfl
        have chain := chain_elems (index + 1) rest (tail ▸ typed.2)
        rw [tail] at chain
        refine ⟨ty, _, _, found, emits_patternTest pattern ty typed.1, ?_, chain, ?_⟩
        · intro trivial value _
          exact outcome_of_trivial pattern ty value trivial
        · intro values value _ has
          have split : values.drop index = value :: values.drop (index + 1) := by
            rw [← List.drop_drop]
            cases rest : values.drop index with
            | nil =>
              rw [← List.head?_drop, rest] at has
              cases has
            | cons first others =>
              rw [← List.head?_drop, rest] at has
              cases has
              rfl
          change testElems pool (pattern :: rest) (ty :: others) (values.drop index) = _
          rw [split, testElems]
          rcases testOutcome pool pattern ty value with _ | _ | _ <;> rfl

theorem chain_fields {tys : List Ty} : ∀ (fields : List (Nat × AirPattern)), TypedFields pool fields tys →
      Chain pool tys (fieldTests pool fields) (testFields pool fields tys)
  | [], _ => fun values _ => by rw [testFields]
  | (index, pattern) :: rest, typed => by
      rw [TypedFields] at typed
      obtain ⟨⟨ty, found, typedField⟩, typedRest⟩ := typed
      refine ⟨ty, _, _, found, emits_patternTest pattern ty typedField, ?_, chain_fields rest typedRest, ?_⟩
      · intro trivial value _
        exact outcome_of_trivial pattern ty value trivial
      · intro values value _ has
        rw [testFields, found, has]
        simp only []
        rcases testOutcome pool pattern ty value with _ | _ | _ <;> rfl

end

end MatchDispatch

end Gruel
