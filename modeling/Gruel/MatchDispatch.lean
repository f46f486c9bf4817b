import Gruel.MatchTests

/-!
The dispatch of a `match` reaches the first arm that matches, unless a pattern without
sub-patterns stands in the way.
-/

namespace Gruel

namespace MatchDispatch

open BlockGraph
open Arith (wrap fits)

attribute [local simp] testOutcome caseMatches needsCascading

variable {pool : TypeInternPool}

def chosenArm : List (Option Bool) → Option Nat
  | some true :: _ => some 0
  | some false :: rest => (chosenArm rest).map Nat.succ
  | none :: _ => none
  | [] => none

abbrev Entry := AirPattern × BlockId × BlockId

def testBlocks (entries : List Entry) : List BlockId := entries.map fun entry => entry.2.2

structure Fills (tests : List BlockId) (before after : Builder) : Prop where
  blocks_le : before.blockCount ≤ after.blockCount
  slots_le : before.slotCount ≤ after.slotCount
  kept : ∀ block, block < before.blockCount → block ∉ tests → after.blocks block = before.blocks block
  fresh : ∀ block, after.blockCount ≤ block → after.blocks block = {}

structure Blank (tests : List BlockId) (builder : Builder) : Prop where
  nodup : tests.Nodup
  empty : ∀ test ∈ tests, test < builder.blockCount ∧ builder.blocks test = {}
  fresh : ∀ block, builder.blockCount ≤ block → builder.blocks block = {}

def Written (graph : CfgGraph) (tests : List BlockId) (before after : Builder) : Prop :=
  ∀ block, block ∈ tests ∨ Within before after block → graph block = after.blocks block

def InTests (tests : List BlockId) (fallback : BlockId) (before after : Builder) (block : Nat) : Prop :=
  block ∈ tests ∨ block = fallback ∨ Within before after block

def Sends (graph : CfgGraph) (fallback : BlockId) (entries : List Entry)
    (before after : Builder) (state : State) : Option Nat → Prop
  | some chosen => ∃ arm final, (entries[chosen]?).map (fun entry => entry.2.1) = some arm ∧
      Leads machine graph (InTests (testBlocks entries) fallback before after)
        ((testBlocks entries).headD fallback) 0 state arm final
  | none => Stops machine graph (InTests (testBlocks entries) fallback before after)
      ((testBlocks entries).headD fallback) 0 state

theorem emits_armTests {ty : Ty} {slot : Slot} {fallback : BlockId} (entries : List Entry)
    (typed : ∀ entry ∈ entries, TypedAs pool entry.1 ty) (builder : Builder)
    (blank : Blank (testBlocks entries) builder) (lt : slot < builder.slotCount) :
    ∃ after, emitArmTests pool { slot, ty, projection := [] } fallback entries builder = some after ∧
      Fills (testBlocks entries) builder after ∧
      ∀ graph, Written graph (testBlocks entries) builder after →
        (∀ state, machine.finish (graph fallback) 0 state = none) → ∀ state value,
        state.place slot [] = some value → Holds pool value ty → Sends graph fallback entries builder after state
            (chosenArm (entries.map fun entry => testOutcome pool entry.1 ty value)) := by
  induction entries generalizing builder with
  | nil =>
    refine ⟨builder, rfl, ⟨Nat.le_refl _, Nat.le_refl _, fun _ _ _ => rfl, blank.fresh⟩, ?_⟩
    intro graph _ unreachable state _ _ _
    exact .here (unreachable state)
  | cons entry rest ih =>
    obtain ⟨pattern, arm, test⟩ := entry
    have present := blank.empty test (by simp [testBlocks])
    have startReady : Ready (builder.moveTo test) := by
      refine ⟨present.1, ?_, blank.fresh⟩
      change (builder.blocks test).terminator = none
      rw [present.2]
    obtain ⟨middle, emitted, grows, runs⟩ := emits_patternTest pattern ty (typed _ (List.mem_cons_self ..)) slot []
      { matched := arm, unmatched := (testBlocks rest).headD fallback } (builder.moveTo test)
      startReady lt
    have distinct : test ∉ testBlocks rest := (List.nodup_cons.mp blank.nodup).1
    have restBlank : Blank (testBlocks rest) middle := by
      refine ⟨(List.nodup_cons.mp blank.nodup).2, ?_, grows.fresh⟩
      intro other member
      have empty := blank.empty other (.tail _ member)
      refine ⟨Nat.lt_of_lt_of_le empty.1 grows.blocks_le, ?_⟩
      rw [grows.kept other empty.1 (by
        rintro rfl
        exact distinct member)]
      exact empty.2
    obtain ⟨after, emittedRest, later, runsRest⟩ :=
      ih (fun other member => typed other (.tail _ member)) middle restBlank (Nat.lt_of_lt_of_le lt grows.slots_le)
    refine ⟨after, ?_, ?_, ?_⟩
    · have fallthrough : (rest.head?.map fun next => next.2.2).getD fallback = (testBlocks rest).headD fallback := by
        cases rest <;> rfl
      simp only [emitArmTests, fallthrough]
      exact Option.bind_eq_some_iff.mpr ⟨middle, emitted, emittedRest⟩
    · refine ⟨Nat.le_trans grows.blocks_le later.blocks_le,
        Nat.le_trans grows.slots_le later.slots_le, ?_, later.fresh⟩
      intro block below outside
      obtain ⟨differs, outsideRest⟩ := not_or.mp (mt List.mem_cons.mpr outside)
      rw [later.kept block (Nat.lt_of_lt_of_le below grows.blocks_le) outsideRest]
      exact grows.kept block below differs
    · intro graph written unreachable state value here holds
      have agreesFirst : Agrees graph (builder.moveTo test) middle := by
        intro block inside
        have below : block < middle.blockCount := by
          rcases inside with rfl | ⟨_, upper⟩
          · exact Nat.lt_of_lt_of_le present.1 grows.blocks_le
          · exact upper
        have outside : block ∉ testBlocks rest := by
          rcases inside with rfl | ⟨lower, _⟩
          · exact distinct
          · intro member
            exact absurd (blank.empty block (.tail _ member)).1 (Nat.not_lt.mpr lower)
        rw [← later.kept block below outside]
        apply written
        rcases inside with rfl | ⟨lower, upper⟩
        · exact .inl (List.mem_cons_self ..)
        · exact .inr ⟨lower, Nat.lt_of_lt_of_le upper later.blocks_le⟩
      have writtenRest : Written graph (testBlocks rest) middle after := by
        rintro block (member | ⟨lower, upper⟩)
        · exact written block (.inl (.tail _ member))
        · exact written block (.inr ⟨Nat.le_trans grows.blocks_le lower, upper⟩)
      have withinFirst : ∀ block, Within (builder.moveTo test) middle block →
          InTests (testBlocks ((pattern, arm, test) :: rest)) fallback builder after block :=
        fun _ inside => .inr (.inr ⟨inside.1, Nat.lt_of_lt_of_le inside.2 later.blocks_le⟩)
      have withinRest : ∀ block, InTests (testBlocks rest) fallback middle after block →
          InTests (testBlocks ((pattern, arm, test) :: rest)) fallback builder after block := by
        rintro block (member | isFallback | ⟨lower, upper⟩)
        · exact .inl (.tail _ member)
        · exact .inr (.inl isFallback)
        · exact .inr (.inr ⟨Nat.le_trans grows.blocks_le lower, upper⟩)
      have ends := runs graph agreesFirst state value here holds
      have atStart : ((builder.moveTo test).blocks test).insts.length = 0 := by
        change (builder.blocks test).insts.length = 0
        rw [present.2]
        rfl
      rw [List.map_cons]
      unfold Ends at ends
      simp only [show (builder.moveTo test).current = test from rfl, atStart] at ends
      cases outcome : testOutcome pool pattern ty value with
      | none =>
        rw [outcome] at ends
        exact Stops.mono ends withinFirst
      | some matched =>
        rw [outcome] at ends
        obtain ⟨final, leads, frame⟩ := ends
        have reached := leads.mono withinFirst
        cases matched with
        | true => exact ⟨arm, final, rfl, reached⟩
        | false =>
          have sent := runsRest graph writtenRest unreachable final value ((frame.place lt []).trans here) holds
          have passed : InTests (testBlocks ((pattern, arm, test) :: rest)) fallback builder
              after ((testBlocks rest).headD fallback) := by
            cases rest with
            | nil => exact .inr (.inl rfl)
            | cons next others =>
              exact .inl (List.mem_cons_of_mem _ (List.mem_cons_self ..))
          rw [chosenArm]
          cases chosen : chosenArm (rest.map fun entry => testOutcome pool entry.1 ty value) with
          | none =>
            rw [chosen] at sent
            exact reached.stops passed (Stops.mono sent withinRest)
          | some index =>
            rw [chosen] at sent
            obtain ⟨target, last, found, rests⟩ := sent
            exact ⟨target, last, found, reached.trans passed (rests.mono withinRest)⟩

section Entries

variable {arms : List AirPattern} {armBlocks tests : List BlockId}

theorem testBlocks_zip (armsLength : armBlocks.length = arms.length) (testsLength : tests.length = arms.length) :
    testBlocks (arms.zip (armBlocks.zip tests)) = tests := by
  have split : (fun entry : Entry => entry.2.2) = Prod.snd ∘ Prod.snd := rfl
  rw [testBlocks, split, ← List.map_map, List.map_snd_zip, List.map_snd_zip]
  · rw [armsLength, testsLength]
  · rw [List.length_zip, armsLength, testsLength, Nat.min_self]

theorem patterns_zip {α : Type} (outcome : AirPattern → α) (armsLength : armBlocks.length = arms.length)
    (testsLength : tests.length = arms.length) :
    ((arms.zip (armBlocks.zip tests)).map fun entry => outcome entry.1) = arms.map outcome := by
  have split : (fun entry : Entry => outcome entry.1) = outcome ∘ Prod.fst := rfl
  rw [split, ← List.map_map, List.map_fst_zip]
  rw [List.length_zip, armsLength, testsLength, Nat.min_self]

theorem arm_zip (armsLength : armBlocks.length = arms.length)
    (testsLength : tests.length = arms.length) (index : Nat) :
    ((arms.zip (armBlocks.zip tests))[index]?.map fun entry => entry.2.1) = armBlocks[index]? := by
  have blocks : ((arms.zip (armBlocks.zip tests)).map fun entry => entry.2.1) = armBlocks := by
    have split : (fun entry : Entry => entry.2.1) = Prod.fst ∘ Prod.snd := rfl
    rw [split, ← List.map_map, List.map_snd_zip, List.map_fst_zip]
    · rw [armsLength, testsLength]
    · rw [List.length_zip, armsLength, testsLength, Nat.min_self]
  rw [← List.getElem?_map, blocks]

end Entries

def Dispatches (graph : CfgGraph) (armBlocks : List BlockId)
    (before after : Builder) (state : State) : Option Nat → Prop
  | some chosen => ∃ arm final, armBlocks[chosen]? = some arm ∧
      Leads machine graph (Within before after) before.current
        (before.blocks before.current).insts.length state arm final
  | none => Stops machine graph (Within before after) before.current (before.blocks before.current).insts.length state

theorem cascade_dispatches {arms : List AirPattern} {armBlocks : List BlockId} {ty : Ty}
    {scrutinee : CfgValue} {builder : Builder} (typed : ∀ pattern ∈ arms, TypedAs pool pattern ty)
    (ready : Ready builder) (armsLength : armBlocks.length = arms.length) :
    ∃ after, lowerCascade pool arms armBlocks scrutinee ty builder = some after ∧
      builder.blockCount ≤ after.blockCount ∧
      ∀ graph, Agrees graph builder after → ∀ state value, state.env scrutinee = some value →
        Holds pool value ty → Dispatches graph armBlocks builder after state
          (chosenArm (arms.map fun pattern => testOutcome pool pattern ty value)) := by
  let slot := builder.slotCount
  let live := (builder.allocTempLocal.2.emit (.storageLive slot) .unit).2
  let stored := (live.emit (.alloc slot scrutinee) .unit).2
  have writes : Writes builder stored _ :=
    ((allocTempLocal_writes builder).trans (emit_writes _ (.storageLive slot) .unit)).trans
      (emit_writes live (.alloc slot scrutinee) .unit)
  let tests := List.range' builder.blockCount arms.length
  let fallback := builder.blockCount + arms.length
  let start := (((stored.newBlocks arms.length).2.newBlock.2.setTerminator fallback
    .unreachable).setTerminator builder.current (.goto (tests.headD fallback)))
  have testsLength : tests.length = arms.length := List.length_range'
  have untouched : ∀ block, builder.blockCount ≤ block → block ≠ fallback → start.blocks block = {} := by
    intro block above differs
    have other : block ≠ builder.current := Nat.ne_of_gt (Nat.lt_of_lt_of_le ready.current_lt above)
    change (if block = builder.current then _ else if block = fallback then _ else stored.blocks block) = _
    rw [if_neg other, if_neg differs, writes.kept block other, ready.fresh block above]
  have inTests : ∀ block, block ∈ tests ↔ builder.blockCount ≤ block ∧ block < fallback := by
    intro block
    exact List.mem_range'_1
  have blank : Blank tests start := by
    refine ⟨List.nodup_range', ?_, ?_⟩
    · intro test member
      obtain ⟨lower, upper⟩ := (inTests test).mp member
      exact ⟨Nat.lt_succ_of_lt upper, untouched test lower (Nat.ne_of_lt upper)⟩
    · intro block above
      have later : fallback < block := above
      exact untouched block (Nat.le_of_lt (Nat.lt_of_le_of_lt (Nat.le_add_right _ _) later)) (Nat.ne_of_gt later)
  obtain ⟨after, emitted, fills, runs⟩ := @emits_armTests pool ty slot fallback (arms.zip (armBlocks.zip tests)) (by
      rintro ⟨pattern, _⟩ member
      exact typed pattern (List.of_mem_zip member).1) start
    (by rwa [testBlocks_zip armsLength testsLength]) (Nat.lt_succ_self builder.slotCount)
  rw [testBlocks_zip armsLength testsLength] at fills
  have fallback_lt : fallback < start.blockCount := Nat.lt_succ_self _
  have fallback_le : builder.blockCount ≤ fallback := Nat.le_add_right _ _
  have after_le : fallback < after.blockCount := Nat.lt_of_lt_of_le fallback_lt fills.blocks_le
  refine ⟨after, emitted, Nat.le_trans fallback_le (Nat.le_of_lt after_le), ?_⟩
  intro graph agrees state value has holds
  have notTest : fallback ∉ tests := fun member => absurd ((inTests fallback).mp member).2 (Nat.lt_irrefl _)
  have unreachable : ∀ state, machine.finish (graph fallback) 0 state = none := by
    intro state
    rw [agrees fallback (.inr ⟨fallback_le, after_le⟩), fills.kept fallback fallback_lt notTest]
    have differs : fallback ≠ builder.current :=
      Nat.ne_of_gt (Nat.lt_of_lt_of_le ready.current_lt fallback_le)
    have content : start.blocks fallback = { insts := [], terminator := some .unreachable } := by
      simp [start, Builder.setTerminator, Builder.setBlock, Builder.newBlock, Builder.newBlocks,
        differs, writes.kept fallback differs, ready.fresh fallback fallback_le]
    rw [content]
    rfl
  have written : Written graph (testBlocks (arms.zip (armBlocks.zip tests))) start after := by
    rw [testBlocks_zip armsLength testsLength]
    rintro block (member | ⟨lower, upper⟩)
    · obtain ⟨lower, upper⟩ := (inTests block).mp member
      exact agrees block (.inr ⟨lower, Nat.lt_trans upper after_le⟩)
    · exact agrees block (.inr ⟨Nat.le_trans fallback_le (Nat.le_of_lt lower), upper⟩)
  have closed : graph builder.current = (stored.setTerminator stored.current
      (.goto (tests.headD fallback))).blocks builder.current := by
    have current_lt : builder.current < start.blockCount :=
      Nat.lt_trans (Nat.lt_of_lt_of_le ready.current_lt fallback_le) fallback_lt
    have outside : builder.current ∉ tests := fun member =>
      absurd ((inTests builder.current).mp member).1 (Nat.not_le.mpr ready.current_lt)
    rw [agrees builder.current (.inl rfl), fills.kept builder.current current_lt outside]
    have other : builder.current ≠ fallback :=
      Nat.ne_of_lt (Nat.lt_of_lt_of_le ready.current_lt fallback_le)
    simp [start, Builder.setTerminator, Builder.setBlock, writes.current, other, Builder.newBlock, Builder.newBlocks]
  let final := (state.store slot none).store slot (some value)
  have ran : machine.runInsts [⟨builder.valueCount, .storageLive slot, .unit⟩,
      ⟨builder.valueCount + 1, .alloc slot scrutinee, .unit⟩] state = some final := by
    simp [Machine.runInsts, machine, exec, State.store, has, final]
  have entered : Leads machine graph (Within builder after) builder.current
      (builder.blocks builder.current).insts.length state (tests.headD fallback) final :=
    leads_of_close writes closed ran rfl
  have sent := runs graph written unreachable final value (by simp [State.place, State.store, project, final]) holds
  rw [patterns_zip (fun pattern => testOutcome pool pattern ty value) armsLength testsLength] at sent
  have passed : Within builder after (tests.headD fallback) := by
    cases first : tests with
    | nil => exact ⟨fallback_le, after_le⟩
    | cons test rest =>
      obtain ⟨lower, upper⟩ := (inTests test).mp (by simp [first])
      exact ⟨lower, Nat.lt_trans upper after_le⟩
  have inside : ∀ block, InTests (testBlocks (arms.zip (armBlocks.zip tests))) fallback start after
      block → Within builder after block := by
    rw [testBlocks_zip armsLength testsLength]
    rintro block (member | rfl | ⟨lower, upper⟩)
    · obtain ⟨lower, upper⟩ := (inTests block).mp member
      exact ⟨lower, Nat.lt_trans upper after_le⟩
    · exact ⟨fallback_le, after_le⟩
    · exact ⟨Nat.le_trans fallback_le (Nat.le_of_lt lower), upper⟩
  unfold Sends at sent
  rw [testBlocks_zip armsLength testsLength] at sent inside
  cases chosen : chosenArm (arms.map fun pattern => testOutcome pool pattern ty value) with
  | none =>
    rw [chosen] at sent
    exact entered.stops passed (Stops.mono sent inside)
  | some index =>
    rw [chosen] at sent
    obtain ⟨arm, last, found, leads⟩ := sent
    rw [arm_zip armsLength testsLength] at found
    exact ⟨arm, last, found, entered.trans passed (leads.mono inside)⟩

mutual

theorem matches_of_outcome : ∀ {pattern : AirPattern} {ty : Ty} {value : Value} {matched : Bool},
    TypedAs pool pattern ty → Holds pool value ty → testOutcome pool pattern ty value = some matched →
        matchesBy pool wrappedAgrees pattern ty value = matched
  | .wildcard, _, _, _, _, _, outcome | .int _, _, _, _, _, _, outcome
  | .bool _, _, _, _, _, _, outcome | .enumVariant _ _, _, _, _, _, _, outcome
  | .enumUnitVariant _ _, _, _, _, _, _, outcome => by
      simpa using outcome
  | .bind _ _ inner, ty, value, _, typed, holds, outcome => by
      rw [TypedAs] at typed
      rw [matchesBy]
      exact matches_of_innerOutcome typed holds outcome
  | .tuple [], _, _, _, _, _, outcome | .struct _ [], _, _, _, _, _, outcome => by
      simp at outcome
  | .tuple (elem :: elems), ty, value, _, typed, holds, outcome => by
      rw [TypedAs] at typed
      obtain ⟨id, rfl, typedElems⟩ := typed
      obtain ⟨fields, rfl, held⟩ := holds_struct holds
      rw [testOutcome] at outcome
      rw [matchesBy]
      exact matches_of_elemsOutcome typedElems held outcome
  | .struct id (field :: fields), ty, value, _, typed, holds, outcome => by
      rw [TypedAs] at typed
      obtain ⟨rfl, typedFields⟩ := typed
      obtain ⟨values, rfl, held⟩ := holds_struct holds
      rw [testOutcome] at outcome
      simp only [matchesBy, decide_true, Bool.true_and]
      exact matches_of_fieldsOutcome typedFields held outcome
  | .enumDataVariant id index fields, ty, value, matched, typed, holds, outcome => by
      rw [TypedAs] at typed
      obtain ⟨rfl, _, variant, defined, typedElems⟩ := typed
      obtain ⟨active, values, other, rfl, _, found, held⟩ := holds_enum holds
      rw [testOutcome] at outcome
      rw [matchesBy]
      by_cases same : index = active
      · subst same
        rw [defined] at found
        cases found
        simp only [if_true, defined, Option.elim] at outcome
        simp only [and_self, decide_true, Bool.true_and, defined, Option.elim]
        exact matches_of_elemsOutcome typedElems held outcome
      · simpa [same] using outcome
  | .enumStructVariant id index fields, ty, value, matched, typed, holds, outcome => by
      rw [TypedAs] at typed
      obtain ⟨rfl, _, variant, defined, typedFields⟩ := typed
      obtain ⟨active, values, other, rfl, _, found, held⟩ := holds_enum holds
      rw [testOutcome] at outcome
      rw [matchesBy]
      by_cases same : index = active
      · subst same
        rw [defined] at found
        cases found
        simp only [if_true, defined, Option.elim] at outcome
        simp only [and_self, decide_true, Bool.true_and, defined, Option.elim]
        exact matches_of_fieldsOutcome typedFields held outcome
      · simpa [same] using outcome

theorem matches_of_innerOutcome : ∀ {inner : Option AirPattern} {ty : Ty} {value : Value}
    {matched : Bool}, TypedInner pool inner ty → Holds pool value ty → testInner pool inner ty value = some matched →
        matchesInner pool wrappedAgrees inner ty value = matched
  | none, _, _, _, _, _, outcome => by
      rw [testInner] at outcome
      rw [matchesInner]
      exact Option.some.inj outcome
  | some pattern, _, _, _, typed, holds, outcome => by
      rw [TypedInner] at typed
      rw [testInner] at outcome
      rw [matchesInner]
      exact matches_of_outcome typed holds outcome

theorem matches_of_elemsOutcome : ∀ {patterns : List AirPattern} {tys : List Ty}
    {values : List Value} {matched : Bool}, TypedElems pool patterns tys → HoldAll pool values tys →
      testElems pool patterns tys values = some matched →
        matchesElems pool wrappedAgrees patterns tys values = matched
  | [], _, _, _, _, _, outcome => by
      simpa [testElems, matchesElems] using outcome
  | _ :: _, [], _, _, typed, _, _ => typed.elim
  | _ :: _, _ :: _, [], _, _, held, _ => held.elim
  | pattern :: patterns, ty :: tys, value :: values, matched, typed, held, outcome => by
      rw [TypedElems] at typed
      rw [testElems] at outcome
      rw [matchesElems]
      cases first : testOutcome pool pattern ty value with
      | none => simp [first] at outcome
      | some truth =>
        rw [matches_of_outcome typed.1 held.1 first]
        cases truth with
        | false => simpa [first] using outcome
        | true =>
          rw [first] at outcome
          exact matches_of_elemsOutcome typed.2 held.2 outcome

theorem matches_of_fieldsOutcome : ∀ {fields : List (Nat × AirPattern)} {tys : List Ty}
    {values : List Value} {matched : Bool}, TypedFields pool fields tys → HoldAll pool values tys →
      testFields pool fields tys values = some matched → matchesFields pool wrappedAgrees fields tys values = matched
  | [], _, _, _, _, _, outcome => by
      simpa [testFields, matchesFields] using outcome
  | (index, pattern) :: fields, tys, values, matched, typed, held, outcome => by
      rw [TypedFields] at typed
      obtain ⟨⟨ty, found, typedField⟩, typedRest⟩ := typed
      obtain ⟨value, has, holds⟩ := held.getElem? found
      rw [testFields, found, has] at outcome
      rw [matchesFields, found, has]
      simp only [] at outcome ⊢
      cases first : testOutcome pool pattern ty value with
      | none => simp [first] at outcome
      | some truth =>
        rw [matches_of_outcome typedField holds first]
        cases truth with
        | false => simpa [first] using outcome
        | true =>
          rw [first] at outcome
          exact matches_of_fieldsOutcome typedRest held outcome

end

def Weaker (agrees wider : Ty → Int → Int → Bool) : Prop :=
  ∀ ty n number, fits ty number → agrees ty n number = true → wider ty n number = true

section Mono

variable {agrees wider : Ty → Int → Int → Bool}

mutual

theorem matchesBy_mono (weaker : Weaker agrees wider) :
    ∀ {pattern : AirPattern} {ty : Ty} {value : Value}, Holds pool value ty →
    matchesBy pool agrees pattern ty value = true → matchesBy pool wider pattern ty value = true
  | .wildcard, _, _, _, _ => by rw [matchesBy]
  | .int n, ty, .int number, holds, matched => by
      exact weaker ty n number holds.2 matched
  | .bool _, _, .bool _, _, matched | .enumVariant _ _, _, .enum _ _ _, _, matched
  | .enumUnitVariant _ _, _, .enum _ _ _, _, matched => by
      rw [matchesBy] at matched ⊢
      exact matched
  | .bind _ _ inner, ty, value, holds, matched => by
      rw [matchesBy] at matched ⊢
      exact matchesInner_mono weaker holds matched
  | .tuple elems, _, .struct id values, holds, matched => by
      rw [matchesBy] at matched ⊢
      rw [Holds] at holds
      exact matchesElems_mono weaker holds.2 matched
  | .struct id fields, _, .struct valueId values, holds, matched => by
      rw [matchesBy, Bool.and_eq_true] at matched ⊢
      rw [Holds] at holds
      obtain rfl : id = valueId := by simpa using matched.1
      exact ⟨matched.1, matchesFields_mono weaker holds.2 matched.2⟩
  | .enumDataVariant id index fields, _, .enum valueId active values, holds, matched => by
      rw [matchesBy, Bool.and_eq_true] at matched ⊢
      rw [Holds] at holds
      obtain ⟨rfl, rfl⟩ : id = valueId ∧ index = active := by simpa using matched.1
      obtain ⟨_, _, variant, found, held⟩ := holds
      rw [found] at matched ⊢
      exact ⟨matched.1, matchesElems_mono weaker held matched.2⟩
  | .enumStructVariant id index fields, _, .enum valueId active values, holds, matched => by
      rw [matchesBy, Bool.and_eq_true] at matched ⊢
      rw [Holds] at holds
      obtain ⟨rfl, rfl⟩ : id = valueId ∧ index = active := by simpa using matched.1
      obtain ⟨_, _, variant, found, held⟩ := holds
      rw [found] at matched ⊢
      exact ⟨matched.1, matchesFields_mono weaker held matched.2⟩

theorem matchesInner_mono (weaker : Weaker agrees wider) :
    ∀ {inner : Option AirPattern} {ty : Ty} {value : Value}, Holds pool value ty →
      matchesInner pool agrees inner ty value = true →
      matchesInner pool wider inner ty value = true
  | none, _, _, _, _ => by rw [matchesInner]
  | some pattern, _, _, holds, matched => by
      exact matchesBy_mono weaker holds matched

theorem matchesElems_mono (weaker : Weaker agrees wider) :
    ∀ {patterns : List AirPattern} {tys : List Ty} {values : List Value},
    HoldAll pool values tys → matchesElems pool agrees patterns tys values = true →
      matchesElems pool wider patterns tys values = true
  | [], _, _, _, _ => by simp [matchesElems]
  | _ :: _, [], _, _, matched | _ :: _, _ :: _, [], _, matched => by simp [matchesElems] at matched
  | pattern :: patterns, ty :: tys, value :: values, held, matched => by
      rw [matchesElems, Bool.and_eq_true] at matched ⊢
      exact ⟨matchesBy_mono weaker held.1 matched.1, matchesElems_mono weaker held.2 matched.2⟩

theorem matchesFields_mono (weaker : Weaker agrees wider) :
    ∀ {fields : List (Nat × AirPattern)} {tys : List Ty} {values : List Value}, HoldAll pool values tys →
      matchesFields pool agrees fields tys values = true → matchesFields pool wider fields tys values = true
  | [], _, _, _, _ => by simp [matchesFields]
  | (index, pattern) :: fields, tys, values, held, matched => by
      rw [matchesFields, Bool.and_eq_true] at matched ⊢
      refine ⟨?_, matchesFields_mono weaker held matched.2⟩
      cases found : tys[index]? with
      | none => simp [found] at matched
      | some ty =>
        obtain ⟨_, has, holds⟩ := held.getElem? found
        simp only [found, has] at matched ⊢
        exact matchesBy_mono weaker holds matched.1

end

end Mono

variable {ty : Ty} {value : Value} {count first : Nat} {after : Builder}
variable {chosen : Nat} {block : BlockId} {graph : CfgGraph}
variable {arms : List AirPattern}

theorem wrapped_of_literal : Weaker literalAgrees wrappedAgrees := by
  intro ty n number inRange agrees
  unfold literalAgrees literalNumber at agrees
  have same := of_decide_eq_true agrees
  apply decide_eq_true
  by_cases signed : ty.isSigned = true
  · rw [if_pos signed] at same
    subst same
    exact Arith.read_encode inRange
  · rw [if_neg signed] at same
    have constant : ((BitVec.ofInt 64 n).toNat : Int) = number := by
      rw [BitVec.toNat_ofInt, Int.toNat_of_nonneg (Int.emod_nonneg n (by decide))]
      exact same
    rw [← wrap_const, constant]
    exact Arith.read_encode inRange

theorem all_trivial_elems (index : Nat) (elems : List AirPattern)
    (trivial : ∀ elem ∈ elems, isTrivialPattern elem = true) :
    (elemTests pool index elems).filter (fun sub => !sub.trivial) = [] := by
  induction elems generalizing index with
  | nil => rfl
  | cons elem rest ih =>
    rw [elemTests]
    simp only [List.filter, trivial elem (List.mem_cons_self ..), Bool.not_true]
    exact ih (index + 1) fun other member => trivial other (.tail _ member)

theorem all_trivial_fields (fields : List (Nat × AirPattern))
    (trivial : ∀ field ∈ fields, isTrivialPattern field.2 = true) :
    (fieldTests pool fields).filter (fun sub => !sub.trivial) = [] := by
  induction fields with
  | nil => rfl
  | cons field rest ih =>
    rw [fieldTests]
    simp only [List.filter, trivial _ (List.mem_cons_self ..), Bool.not_true]
    exact ih fun other member => trivial other (.tail _ member)

theorem Chain.of_all_trivial {tys : List Ty} {subs : List SubTest}
    {outcome : List Value → Option Bool} (chain : Chain pool tys subs outcome)
    (trivial : subs.filter (fun sub => !sub.trivial) = []) {values : List Value}
    (held : HoldAll pool values tys) : outcome values = some true := by
  obtain ⟨_, chainKept, same⟩ := chain.filter
  rw [trivial] at chainKept
  rw [same values held, chainKept values held]

theorem outcome_of_switchCase {pattern : AirPattern} (flat : needsCascading [pattern] = false)
    (typed : TypedAs pool pattern ty) (holds : Holds pool value ty)
    (specific : pattern ≠ .wildcard) :
    ∃ case, switchCase pattern = some case ∧
      testOutcome pool pattern ty value = some (caseMatches ty value case) := by
  cases pattern with
  | wildcard => exact absurd rfl specific
  | bind _ _ _ => simp at flat
  | tuple _ => simp at flat
  | struct _ _ => simp at flat
  | int n =>
    refine ⟨n, rfl, ?_⟩
    cases value with
    | int number => simp [matchesBy, wrappedAgrees]
    | bool _ =>
      rw [show ty = .bool from holds] at typed
      cases typed
    | struct _ _ | enum _ _ _ =>
      rw [holds.1] at typed
      cases typed
  | bool b =>
    rw [TypedAs] at typed
    subst typed
    refine ⟨_, rfl, ?_⟩
    cases value with
    | int _ => cases holds.1
    | bool truth => cases b <;> cases truth <;> simp [matchesBy]
    | struct _ _ => cases holds.1
    | enum _ _ _ => cases holds.1
  | enumVariant id index | enumUnitVariant id index =>
    rw [TypedAs] at typed
    obtain ⟨rfl, -, -⟩ := typed
    obtain ⟨active, fields, _, rfl, -⟩ := holds_enum holds
    refine ⟨index, rfl, ?_⟩
    simp [matchesBy]
  | enumDataVariant id index fields =>
    rw [TypedAs] at typed
    obtain ⟨rfl, -, variant, defined, typedElems⟩ := typed
    obtain ⟨active, values, other, rfl, -, found, held⟩ := holds_enum holds
    refine ⟨index, rfl, ?_⟩
    by_cases same : index = active
    · subst same
      rw [defined] at found
      cases found
      have trivial := @all_trivial_elems pool 0 fields (by simpa using flat)
      have tested := (chain_elems 0 fields typedElems).of_all_trivial trivial held
      simpa [defined] using tested
    · simp [same]
  | enumStructVariant id index fields =>
    rw [TypedAs] at typed
    obtain ⟨rfl, -, variant, defined, typedFields⟩ := typed
    obtain ⟨active, values, other, rfl, -, found, held⟩ := holds_enum holds
    refine ⟨index, rfl, ?_⟩
    rw [testOutcome]
    by_cases same : index = active
    · subst same
      rw [defined] at found
      cases found
      have trivial := @all_trivial_fields pool fields (by simpa using flat)
      have tested := (chain_fields fields typedFields).of_all_trivial trivial held
      simpa [defined] using tested
    · simp [same]

theorem switchCases_choose (holds : Holds pool value ty) (entries : List (AirPattern × BlockId))
    (flat : ∀ entry ∈ entries, needsCascading [entry.1] = false)
    (typed : ∀ entry ∈ entries, TypedAs pool entry.1 ty) :
    ∃ cases default, switchCases entries = some (cases, default) ∧
      (((cases.find? fun case => caseMatches ty value case.1).map Prod.snd).or default) =
        (chosenArm (entries.map fun entry => testOutcome pool entry.1 ty value)).bind fun chosen =>
          entries[chosen]?.map Prod.snd := by
  induction entries with
  | nil => exact ⟨[], none, rfl, rfl⟩
  | cons entry rest ih =>
    obtain ⟨pattern, block⟩ := entry
    by_cases wild : pattern = .wildcard
    · subst wild
      refine ⟨[], some block, rfl, ?_⟩
      simp [matchesBy, chosenArm]
    · obtain ⟨case, isCase, outcome⟩ := outcome_of_switchCase (flat _ (List.mem_cons_self ..))
        (typed _ (List.mem_cons_self ..)) holds wild
      obtain ⟨cases, default, found, chosen⟩ :=
        ih (fun other member => flat other (.tail _ member)) (fun other member => typed other (.tail _ member))
      refine ⟨(case, block) :: cases, default, ?_, ?_⟩
      · rw [switchCases]
        · simp [isCase, found]
        · exact wild
      · simp only [List.map_cons, outcome, List.find?]
        cases matched : caseMatches ty value case with
        | true => rfl
        | false =>
          rw [chosenArm, chosen]
          cases chosenArm (rest.map fun entry => testOutcome pool entry.1 ty value) <;> rfl

theorem chosenArm_eq_some_iff {outcomes : List (Option Bool)} : chosenArm outcomes = some chosen ↔
      (∀ earlier < chosen, outcomes[earlier]? = some (some false)) ∧ outcomes[chosen]? = some (some true) := by
  induction outcomes generalizing chosen with
  | nil => simp [chosenArm]
  | cons outcome rest ih =>
    rcases outcome with _ | _ | _
    · simp only [chosenArm, reduceCtorEq, false_iff, not_and]
      intro all
      cases chosen with
      | zero => simp
      | succ chosen => simpa using all 0 (Nat.succ_pos _)
    · cases chosen with
      | zero => simp [chosenArm]
      | succ chosen =>
        simp only [chosenArm, Option.map_eq_some_iff, Nat.succ_eq_add_one, Nat.add_right_cancel_iff,
          exists_eq_right, List.getElem?_cons_succ, ih]
        constructor
        · rintro ⟨all, here⟩
          refine ⟨?_, here⟩
          intro earlier below
          cases earlier with
          | zero => rfl
          | succ earlier => exact all earlier (Nat.lt_of_succ_lt_succ below)
        · rintro ⟨all, here⟩
          exact ⟨fun earlier below => all (earlier + 1) (Nat.succ_lt_succ below), here⟩
    · cases chosen with
      | zero => simp [chosenArm]
      | succ chosen =>
        simp only [chosenArm, Option.some.injEq, Nat.zero_ne_add_one, false_iff, not_and]
        intro all
        simpa using all 0 (Nat.succ_pos _)

theorem switchTarget_dropLast {cases : List (Int × BlockId)}
    (chosen : (cases.find? fun case => caseMatches ty value case.1).map Prod.snd = some block) :
    ∃ last, cases.getLast? = some last ∧ switchTarget ty value cases.dropLast last.2 = block := by
  cases ends : cases.getLast? with
  | none =>
    rw [List.getLast?_eq_none_iff.mp ends] at chosen
    cases chosen
  | some last =>
    refine ⟨last, rfl, ?_⟩
    have split : cases = cases.dropLast ++ [last] := (List.dropLast_append_getLast? last ends).symm
    rw [split, List.find?_append] at chosen
    unfold switchTarget
    cases found : cases.dropLast.find? fun case => caseMatches ty value case.1 with
    | some case =>
      rw [found] at chosen
      exact Option.some.inj chosen
    | none =>
      rw [found, Option.none_or] at chosen
      obtain ⟨case, isLast, rfl⟩ := Option.map_eq_some_iff.mp chosen
      have member := List.mem_of_find?_eq_some isLast
      rw [List.mem_singleton.mp member]
      rfl

theorem switch_dispatches {arms : List AirPattern} {armBlocks : List BlockId} {ty : Ty}
    {scrutinee : CfgValue} {builder : Builder} {value : Value} {chosen : Nat}
    (typed : ∀ pattern ∈ arms, TypedAs pool pattern ty) (flat : needsCascading arms = false)
    (armsLength : armBlocks.length = arms.length)
    (holds : Holds pool value ty)
    (isChosen : chosenArm (arms.map fun pattern => testOutcome pool pattern ty value) = some chosen) :
    ∃ after, lowerSwitch arms armBlocks scrutinee ty builder = some after ∧ builder.blockCount ≤ after.blockCount ∧
      ∀ graph, Agrees graph builder after → ∀ state, state.env scrutinee = some value →
        Dispatches graph armBlocks builder after state (some chosen) := by
  have each : ∀ entry ∈ arms.zip armBlocks, entry.1 ∈ arms := fun entry member =>
    (List.of_mem_zip member).1
  have flatEach : ∀ entry ∈ arms.zip armBlocks, needsCascading [entry.1] = false := by
    intro entry member
    unfold needsCascading at flat ⊢
    simp only [List.any_cons, List.any_nil, Bool.or_false]
    exact Bool.eq_false_iff.mpr (List.any_eq_false.mp flat entry.1 (each entry member))
  obtain ⟨cases, default, found, chosenBlock⟩ := switchCases_choose holds (arms.zip armBlocks) flatEach
    fun entry member => typed entry.1 (each entry member)
  have outcomes : ((arms.zip armBlocks).map fun entry => testOutcome pool entry.1 ty value) =
      arms.map fun pattern => testOutcome pool pattern ty value := by
    have split : (fun entry : AirPattern × BlockId => testOutcome pool entry.1 ty value) =
        (fun pattern => testOutcome pool pattern ty value) ∘ Prod.fst := rfl
    rw [split, ← List.map_map, List.map_fst_zip (Nat.le_of_eq armsLength.symm)]
  have blocks : (arms.zip armBlocks).map Prod.snd = armBlocks :=
    List.map_snd_zip (Nat.le_of_eq armsLength)
  have chosen_lt : chosen < armBlocks.length := by
    have here := lt_of_getElem? (chosenArm_eq_some_iff.1 isChosen).2
    rwa [List.length_map, ← armsLength] at here
  obtain ⟨arm, isArm⟩ : ∃ arm, armBlocks[chosen]? = some arm :=
    ⟨_, List.getElem?_eq_getElem chosen_lt⟩
  rw [outcomes, isChosen, Option.bind_some, ← List.getElem?_map, blocks, isArm] at chosenBlock
  -- whichever of the two terminators is set, it goes to the arm's block
  have goesTo : ∀ terminator, (∀ state, state.env scrutinee = some value →
      target terminator state = some arm) → ∀ graph,
      Agrees graph builder (builder.setTerminator builder.current terminator) → ∀ state,
        state.env scrutinee = some value → Dispatches graph armBlocks builder
          (builder.setTerminator builder.current terminator) state (some chosen) := by
    intro terminator goes graph agrees state has
    exact ⟨arm, state, isArm, leads_of_close (nothing_writes builder) (agrees _ (.inl rfl)) rfl (goes state has)⟩
  unfold lowerSwitch
  rw [found]
  cases default with
  | some block =>
    refine ⟨_, rfl, Nat.le_refl _, goesTo _ ?_⟩
    intro state has
    rw [target, has]
    have picked : switchTarget ty value cases block = arm := by
      unfold switchTarget
      cases first : (cases.find? fun case => caseMatches ty value case.1).map Prod.snd with
      | none | some other =>
        rw [first] at chosenBlock
        exact Option.some.inj chosenBlock
    simp [picked]
  | none =>
    rw [Option.or_none] at chosenBlock
    obtain ⟨last, isLast, picked⟩ := switchTarget_dropLast chosenBlock
    refine ⟨builder.setTerminator builder.current (.switch scrutinee ty cases.dropLast last.2), ?_,
      Nat.le_refl _, goesTo _ ?_⟩
    · simp [isLast]
    · intro state has
      rw [target, has]
      simp [picked]

/-- Control comes to an arm's block before any other arm. -/
def Reaches (graph : CfgGraph) (dispatch : Dispatch) (builder : Builder) (state : State) (chosen : Nat) : Prop :=
  ∃ arm final, dispatch.armBlocks[chosen]? = some arm ∧
    Leads machine graph (fun block => block ∉ dispatch.armBlocks) builder.current
      (builder.blocks builder.current).insts.length state arm final

def Finished (graph : CfgGraph) (dispatch : Dispatch) (builder : Builder) : Prop :=
  ∀ block, block = builder.current ∨ Within builder dispatch.builder block →
    block ∉ dispatch.armBlocks → dispatch.joinBlock ≠ some block → graph block = dispatch.builder.blocks block

def withArms (count : Nat) (builder : Builder) : Builder := (builder.newBlocks count).2.newBlock.2

def armsDispatch (count : Nat) (builder after : Builder) : Dispatch where
  armBlocks := List.range' builder.blockCount count
  joinBlock := some (builder.blockCount + count)
  builder := after

theorem withArms_ready {builder : Builder} (ready : Ready builder) (count : Nat) :
    Ready (withArms count builder) where
  current_lt := Nat.lt_succ_of_lt (Nat.lt_of_lt_of_le ready.current_lt (Nat.le_add_right _ _))
  unclosed := ready.unclosed
  fresh block above :=
    ready.fresh block (Nat.le_trans (Nat.le_add_right _ count) (Nat.le_of_succ_le above))

theorem mem_arms {builder : Builder} : block ∈ (armsDispatch count builder after).armBlocks ↔
      builder.blockCount ≤ block ∧ block < builder.blockCount + count :=
  List.mem_range'_1

theorem Finished.agrees {builder : Builder} (ready : Ready builder)
    (finished : Finished graph (armsDispatch count builder after) builder) :
    Agrees graph (withArms count builder) after := by
  have current_lt := ready.current_lt
  rintro block (rfl | ⟨lower, upper⟩)
  · apply finished _ (.inl rfl)
    · intro member
      exact absurd (mem_arms.1 member).1 (Nat.not_le.mpr current_lt)
    · intro same
      have isJoin : builder.blockCount + count = builder.current := Option.some.inj same
      rw [← isJoin] at current_lt
      exact absurd current_lt (Nat.not_lt.mpr (Nat.le_add_right _ _))
  · have above : builder.blockCount + count < block := lower
    apply finished block (.inr ⟨by omega, upper⟩)
    · intro member
      exact absurd (mem_arms.1 member).2 (Nat.not_lt.mpr (Nat.le_of_lt above))
    · intro same
      have isJoin : builder.blockCount + count = block := Option.some.inj same
      omega

theorem reaches_iff {builder : Builder} {state : State} {choice : Option Nat}
    (dispatches : Dispatches graph (armsDispatch count builder after).armBlocks
      (withArms count builder) after state choice) :
    Reaches graph (armsDispatch count builder after) builder state chosen ↔ choice = some chosen := by
  have outside : ∀ block, Within (withArms count builder) after block →
      block ∉ (armsDispatch count builder after).armBlocks := by
    rintro block ⟨lower, _⟩ member
    have above : builder.blockCount + count < block := lower
    exact absurd (mem_arms.1 member).2 (Nat.not_lt.mpr (Nat.le_of_lt above))
  cases choice with
  | none =>
    refine ⟨?_, fun absurdity => nomatch absurdity⟩
    rintro ⟨arm, final, found, leads⟩
    have stops := Stops.mono dispatches outside
    exact absurd leads (stops.not_leads (not_not.mpr (List.mem_of_getElem? found)))
  | some sent =>
    obtain ⟨arm, final, found, leads⟩ := dispatches
    have reached := leads.mono outside
    constructor
    · rintro ⟨other, _, foundOther, leadsOther⟩
      have same : arm = other := reached.unique leadsOther
        (not_not.mpr (List.mem_of_getElem? found)) (not_not.mpr (List.mem_of_getElem? foundOther))
      rw [← same] at foundOther
      have nodup : (armsDispatch count builder after).armBlocks.Nodup := List.nodup_range'
      rw [(List.getElem?_inj (lt_of_getElem? found) nodup).mp (found.trans foundOther.symm)]
    · intro same
      cases same
      exact ⟨arm, final, found, reached⟩

/-- No test up to the first match comes to a struct or tuple pattern without sub-patterns, and
no literal before it matches only once it is cut to the width of its type. -/
def Undisturbed (pool : TypeInternPool) (arms : List AirPattern) (ty : Ty) (value : Value) (first : Nat) : Prop :=
  ∀ index pattern, arms[index]? = some pattern → index ≤ first → testOutcome pool pattern ty value ≠ none ∧
      (index < first → matchesBy pool wrappedAgrees pattern ty value = false)

theorem matches_first (holds : Holds pool value ty) (isFirst : firstMatch pool arms ty value = some first) :
    ∃ pattern, arms[first]? = some pattern ∧ matchesBy pool wrappedAgrees pattern ty value = true := by
  obtain ⟨lt, matched, _⟩ := List.findIdx?_eq_some_iff_getElem.mp isFirst
  exact ⟨arms[first], List.getElem?_eq_getElem lt, matchesBy_mono wrapped_of_literal holds matched⟩

theorem chosenArm_eq_first_iff (typed : ∀ pattern ∈ arms, TypedAs pool pattern ty)
    (holds : Holds pool value ty) (isFirst : firstMatch pool arms ty value = some first) :
    chosenArm (arms.map fun pattern => testOutcome pool pattern ty value) = some first ↔
      Undisturbed pool arms ty value first := by
  rw [chosenArm_eq_some_iff]
  obtain ⟨matching, isMatching, matched⟩ := matches_first holds isFirst
  constructor
  · rintro ⟨before, here⟩ index pattern found le
    rcases Nat.lt_or_eq_of_le le with lt | rfl
    · have outcome := before index lt
      rw [List.getElem?_map, found] at outcome
      have isFalse : testOutcome pool pattern ty value = some false := Option.some.inj outcome
      refine ⟨by simp [isFalse], fun _ => ?_⟩
      exact matches_of_outcome (typed pattern (List.mem_of_getElem? found)) holds isFalse
    · rw [List.getElem?_map, found] at here
      have isTrue : testOutcome pool pattern ty value = some true := Option.some.inj here
      exact ⟨by simp [isTrue], fun lt => absurd lt (Nat.lt_irrefl _)⟩
  · intro undisturbed
    constructor
    · intro index lt
      have index_lt : index < arms.length := Nat.lt_trans lt (lt_of_getElem? isMatching)
      have found := List.getElem?_eq_getElem index_lt
      obtain ⟨ends, differs⟩ := undisturbed index _ found (Nat.le_of_lt lt)
      obtain ⟨truth, outcome⟩ := Option.ne_none_iff_exists'.mp ends
      have said := matches_of_outcome (typed _ (List.getElem_mem index_lt)) holds outcome
      rw [differs lt] at said
      rw [List.getElem?_map, found, Option.map_some, outcome, ← said]
    · obtain ⟨ends, _⟩ := undisturbed first matching isMatching (Nat.le_refl _)
      obtain ⟨truth, outcome⟩ := Option.ne_none_iff_exists'.mp ends
      have said := matches_of_outcome (typed _ (List.mem_of_getElem? isMatching)) holds outcome
      rw [matched] at said
      rw [List.getElem?_map, isMatching, Option.map_some, outcome, ← said]

theorem chosenArm_of_flat (flat : needsCascading arms = false)
    (typed : ∀ pattern ∈ arms, TypedAs pool pattern ty) (holds : Holds pool value ty)
    (isFirst : firstMatch pool arms ty value = some first) :
    ∃ chosen, chosenArm (arms.map fun pattern => testOutcome pool pattern ty value) = some chosen := by
  obtain ⟨pattern, found, matched⟩ := matches_first holds isFirst
  clear isFirst
  have comes : ∀ pattern ∈ arms, ∃ truth, testOutcome pool pattern ty value = some truth := by
    intro pattern member
    have flatPattern : needsCascading [pattern] = false := by
      unfold needsCascading at flat ⊢
      simp only [List.any_cons, List.any_nil, Bool.or_false]
      exact Bool.eq_false_iff.mpr (List.any_eq_false.mp flat pattern member)
    by_cases wild : pattern = .wildcard
    · subst wild
      exact ⟨true, by simp [matchesBy]⟩
    · obtain ⟨_, _, outcome⟩ :=
        outcome_of_switchCase flatPattern (typed pattern member) holds wild
      exact ⟨_, outcome⟩
  induction arms generalizing first with
  | nil => simp at found
  | cons arm rest ih =>
    obtain ⟨truth, outcome⟩ := comes arm (List.mem_cons_self ..)
    rw [List.map_cons, outcome]
    cases truth with
    | true => exact ⟨0, rfl⟩
    | false =>
      cases first with
      | zero =>
        obtain rfl : arm = pattern := Option.some.inj found
        rw [matches_of_outcome (typed arm (List.mem_cons_self ..)) holds outcome] at matched
        cases matched
      | succ first =>
        have flatRest : needsCascading rest = false := by
          exact (Bool.or_eq_false_iff.mp flat).2
        obtain ⟨chosen, isChosen⟩ := ih flatRest (fun other member => typed other (.tail _ member)) found
          (fun other member => comes other (.tail _ member))
        exact ⟨chosen + 1, by rw [chosenArm, isChosen]; rfl⟩

theorem lowerMatchWith_reaches {cascading : Bool} {arms : List AirPattern} {ty : Ty} {value : Value}
    {first : Nat} {builder : Builder} {scrutinee : CfgValue}
    (applies : cascading = false → needsCascading arms = false)
    (typed : ∀ pattern ∈ arms, TypedAs pool pattern ty) (holds : Holds pool value ty)
    (isFirst : firstMatch pool arms ty value = some first) (ready : Ready builder) :
    ∃ dispatch, lowerMatchWith cascading pool arms scrutinee ty builder = some dispatch ∧
      ∀ graph, Finished graph dispatch builder → ∀ state, state.env scrutinee = some value →
        ∀ chosen, Reaches graph dispatch builder state chosen ↔
          chosenArm (arms.map fun pattern => testOutcome pool pattern ty value) = some chosen := by
  have nonempty : arms.isEmpty = false := by
    obtain ⟨pattern, found, _⟩ := matches_first holds isFirst
    cases arms with
    | nil => simp at found
    | cons _ _ => rfl
  have armsLength : (armsDispatch arms.length builder builder).armBlocks.length = arms.length :=
    List.length_range'
  have armsReady := withArms_ready ready arms.length
  cases cascading with
  | true =>
    obtain ⟨after, lowered, _, runs⟩ :=
      @cascade_dispatches pool arms _ ty scrutinee _ typed armsReady armsLength
    refine ⟨armsDispatch arms.length builder after, ?_, ?_⟩
    · simp only [lowerMatchWith, nonempty]
      exact Option.map_eq_some_iff.mpr ⟨after, lowered, rfl⟩
    · intro graph finished state has chosen
      exact reaches_iff (runs graph (finished.agrees ready) state value has holds)
  | false =>
    have flat := applies rfl
    obtain ⟨picked, isPicked⟩ := chosenArm_of_flat flat typed holds isFirst
    obtain ⟨after, lowered, _, runs⟩ := @switch_dispatches pool arms _ ty scrutinee
      (withArms arms.length builder) value picked typed flat armsLength holds isPicked
    refine ⟨armsDispatch arms.length builder after, ?_, ?_⟩
    · simp only [lowerMatchWith, nonempty]
      exact Option.map_eq_some_iff.mpr ⟨after, lowered, rfl⟩
    · intro graph finished state has chosen
      rw [isPicked]
      exact reaches_iff (runs graph (finished.agrees ready) state has)

/-- A match dispatches to the first arm that matches exactly when nothing stands in the way, and
where both lowerings apply they choose the same arm. -/
theorem lowerMatch_reaches_first_iff {arms : List AirPattern} {ty : Ty} {value : Value} {first : Nat}
    {builder : Builder} {scrutinee : CfgValue}
    (typed : ∀ pattern ∈ arms, TypedAs pool pattern ty) (holds : Holds pool value ty)
    (isFirst : firstMatch pool arms ty value = some first) (ready : Ready builder) :
    (∃ dispatch, lowerMatch pool arms scrutinee ty builder = some dispatch ∧
      ∀ graph, Finished graph dispatch builder → ∀ state, state.env scrutinee = some value →
        (Reaches graph dispatch builder state first ↔ Undisturbed pool arms ty value first)) ∧
    (needsCascading arms = false →
      ∃ flat cascade chosen, lowerMatchWith false pool arms scrutinee ty builder = some flat ∧
        lowerMatchWith true pool arms scrutinee ty builder = some cascade ∧
        ∀ graph other, Finished graph flat builder → Finished other cascade builder →
          ∀ state, state.env scrutinee = some value → Reaches graph flat builder state chosen ∧
              Reaches other cascade builder state chosen) := by
  constructor
  · obtain ⟨dispatch, lowered, runs⟩ := @lowerMatchWith_reaches pool (needsCascading arms) arms ty
      value first builder scrutinee id typed holds isFirst ready
    refine ⟨dispatch, lowered, ?_⟩
    intro graph finished state has
    rw [runs graph finished state has first]
    exact chosenArm_eq_first_iff typed holds isFirst
  · intro isFlat
    obtain ⟨flat, loweredFlat, runsFlat⟩ := @lowerMatchWith_reaches pool false arms ty value first
      builder scrutinee (fun _ => isFlat) typed holds isFirst ready
    obtain ⟨cascade, loweredCascade, runsCascade⟩ := @lowerMatchWith_reaches pool true arms ty value
      first builder scrutinee (fun absurdity => nomatch absurdity) typed holds isFirst ready
    obtain ⟨chosen, isChosen⟩ := chosenArm_of_flat isFlat typed holds isFirst
    refine ⟨flat, cascade, chosen, loweredFlat, loweredCascade, ?_⟩
    intro graph other finished finishedOther state has
    exact ⟨(runsFlat graph finished state has chosen).mpr isChosen,
      (runsCascade other finishedOther state has chosen).mpr isChosen⟩

namespace MatchSample

def pointPool : TypeInternPool where
  structDef _ := { name := "Point", fields := [⟨"x", .u8⟩] }
  enumDef _ := { name := "Never", variants := [] }
  arrayDef _ := (.unit, 0)

def builder : Builder where
  blocks _ := {}
  blockCount := 1
  valueCount := 1
  slotCount := 0
  current := 0

theorem builder_ready : Ready builder := ⟨Nat.zero_lt_one, rfl, fun _ _ => rfl⟩

/-- `match p { Point { .. } => a }`. -/
def rest : List AirPattern := [.struct 0 []]

/-- `match b { 300 => a, _ => b }`. -/
def wide : List AirPattern := [.int 300, .wildcard]

/-- `match p { Point { x: 3 } => a, q => b }`. -/
def nested : List AirPattern := [.struct 0 [(0, .int 3)], .bind 0 false none]

theorem holds_byte (number : Int) (nonneg : 0 ≤ number) (below : number < 2 ^ 8) :
    Holds pointPool (.int number) .u8 := by
  exact ⟨rfl, nonneg, below⟩

theorem holds_point (number : Int) (nonneg : 0 ≤ number) (below : number < 2 ^ 8) :
    Holds pointPool (.struct 0 [.int number]) (.struct 0) := by
  exact ⟨rfl, holds_byte number nonneg below, trivial⟩

/-- The only arm of the first match is never reached, and 44 goes to the arm for 300. -/
theorem first_arm_missed : (firstMatch pointPool rest (.struct 0) (.struct 0 [.int 5]) = some 0 ∧
      ∃ dispatch, lowerMatch pointPool rest 0 (.struct 0) builder = some dispatch ∧
        ∀ graph, Finished graph dispatch builder → ∀ state,
          state.env 0 = some (.struct 0 [.int 5]) → ¬ Reaches graph dispatch builder state 0) ∧
    (firstMatch pointPool wide .u8 (.int 44) = some 1 ∧
      ∃ dispatch, lowerMatch pointPool wide 0 .u8 builder = some dispatch ∧
        ∀ graph, Finished graph dispatch builder → ∀ state, state.env 0 = some (.int 44) →
          ¬ Reaches graph dispatch builder state 1 ∧ Reaches graph dispatch builder state 0) := by
  have typedRest : ∀ pattern ∈ rest, TypedAs pointPool pattern (.struct 0) := by
    simp [rest, TypedAs, TypedFields]
  have typedWide : ∀ pattern ∈ wide, TypedAs pointPool pattern .u8 := by
    simp [wide, TypedAs, Ty.isInteger, Ty.isSigned, Ty.isUnsigned]
  have firstRest : firstMatch pointPool rest (.struct 0) (.struct 0 [.int 5]) = some 0 := by decide
  have firstWide : firstMatch pointPool wide .u8 (.int 44) = some 1 := by decide
  refine ⟨⟨firstRest, ?_⟩, firstWide, ?_⟩
  · obtain ⟨dispatch, lowered, runs⟩ := @lowerMatchWith_reaches pointPool (needsCascading rest) rest _ _ 0
      builder 0 id typedRest (holds_point 5 (by decide) (by decide)) firstRest builder_ready
    refine ⟨dispatch, lowered, ?_⟩
    intro graph finished state has
    rw [runs graph finished state has]
    simp [rest, chosenArm]
  · obtain ⟨dispatch, lowered, runs⟩ := @lowerMatchWith_reaches pointPool (needsCascading wide) wide _ _ 1
      builder 0 id typedWide (holds_byte 44 (by decide) (by decide)) firstWide builder_ready
    refine ⟨dispatch, lowered, ?_⟩
    intro graph finished state has
    rw [runs graph finished state has, runs graph finished state has]
    have chosen : chosenArm (wide.map fun pattern => testOutcome pointPool pattern .u8 (.int 44)) =
        some 0 := by decide
    simp [chosen]

theorem nested_dispatched : (∃ dispatch, lowerMatch pointPool nested 0 (.struct 0) builder = some dispatch ∧
      ∀ graph, Finished graph dispatch builder → ∀ state, state.env 0 = some (.struct 0 [.int 5]) →
          (Reaches graph dispatch builder state 1 ↔
            Undisturbed pointPool nested (.struct 0) (.struct 0 [.int 5]) 1)) ∧
    (needsCascading nested = false →
      ∃ flat cascade chosen, lowerMatchWith false pointPool nested 0 (.struct 0) builder = some flat ∧
        lowerMatchWith true pointPool nested 0 (.struct 0) builder = some cascade ∧
        ∀ graph other, Finished graph flat builder → Finished other cascade builder →
          ∀ state, state.env 0 = some (.struct 0 [.int 5]) → Reaches graph flat builder state chosen ∧
              Reaches other cascade builder state chosen) := by
  apply lowerMatch_reaches_first_iff
  · simp [nested, TypedAs, TypedFields, TypedInner, pointPool, StructDef.fieldTypes, Ty.isInteger,
      Ty.isSigned, Ty.isUnsigned]
  · exact holds_point 5 (by decide) (by decide)
  · decide
  · exact builder_ready

end MatchSample

end MatchDispatch

end Gruel
