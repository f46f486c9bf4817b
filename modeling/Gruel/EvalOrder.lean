import Gruel.EvalOrderCore
import Gruel.Lib.Surviving

/-!
The order of evaluation: an analyzed body does the operations of the expression
it comes from, in the same order, with a counter in a hidden slot for every loop
that is desugared.
-/

namespace Gruel.EvalOrder

open Placing Simulations
open Surviving (bind_eq_ok bind_bind_eq_ok)
open Simulations.Action (inOrder whileRounds countedRounds beside readSlot writeSlot)

section Condition

variable (program : Program)

mutual

def listsInOrder : Expr → Bool
  | .const _ | .varRef _ | .breakLoop | .continueLoop => true
  | .alloc _ value | .assign _ value | .infiniteLoop value | .ret value => listsInOrder value
  | .operation _ exprs | .tupleInit exprs | .tupleVariant _ exprs | .placeRead _ _ exprs =>
    listInOrder exprs
  | .structInit _ inits => initsInOrder inits
  | .structVariant typeName variantName inits =>
    (match (program.enums typeName).bind (· variantName) with
      | none => true
      | some (_, declared) => decide (inits.map FieldInit.name = declared.names)) &&
      initsInOrder inits
  | .methodCall value _ exprs | .placeAssign _ _ exprs value | .block exprs value =>
    listsInOrder value && listInOrder exprs
  | .logical _ first second | .branchOnly first second | .whileLoop first second
  | .eachFor _ _ first second => listsInOrder first && listsInOrder second
  | .branch cond thenBlock elseBlock =>
    listsInOrder cond && listsInOrder thenBlock && listsInOrder elseBlock
  | .rangeFor _ args body => listInOrder args && listsInOrder body
  | .matchOn scrutinee arms => listsInOrder scrutinee && armsInOrder arms

def listInOrder : List Expr → Bool
  | [] => true
  | expr :: exprs => listsInOrder expr && listInOrder exprs

def initsInOrder : List FieldInit → Bool
  | [] => true
  | .mk _ value :: inits => listsInOrder value && initsInOrder inits

def armsInOrder : List Arm → Bool
  | [] => true
  | .mk _ body :: arms => listsInOrder body && armsInOrder arms

end

end Condition

variable {structName : String} {declared names : List String}

theorem nodup_of_checkFieldNames {seen result : List String}
    (checked : checkFieldNames structName declared seen names = .ok result) :
    names.Nodup ∧ names ⊆ declared ∧ ∀ name ∈ names, name ∉ seen := by
  induction names generalizing seen with
  | nil => simp
  | cons name names ih =>
    simp only [checkFieldNames] at checked
    split at checked
    · cases checked
    · rename_i known
      split at checked
      · cases checked
      · rename_i fresh
        obtain ⟨distinct, within, new⟩ := ih checked
        have absent : name ∉ names := fun member => new name member (.head _)
        refine ⟨List.nodup_cons.mpr ⟨absent, distinct⟩, ?_, ?_⟩
        · exact List.cons_subset.mpr ⟨not_not.mp known, within⟩
        · intro other member
          rcases List.mem_cons.mp member with rfl | later
          · exact fresh
          · exact fun old => new other later (.tail _ old)

theorem perm_of_checkFieldInits (checked : checkFieldInits structName declared names = .ok ()) :
    names.Perm declared := by
  obtain ⟨_, first, rest⟩ := bind_eq_ok.mp checked
  obtain ⟨distinct, within, -⟩ := nodup_of_checkFieldNames first
  split at rest
  · cases rest
  · exact (List.subperm_of_subset distinct within).perm_of_length_le (by omega)

section Fields

variable {α : Type} {declared names : List String} {items fields : List α}

theorem declarationOrder_eq_ok : declarationOrder declared names items = .ok fields ↔
      collected (placed declared.length (names.map declared.idxOf) items) = some fields := by
  unfold declarationOrder
  cases collected (placed declared.length (names.map declared.idxOf) items) <;> simp

theorem declarationOrder_self (distinct : declared.Nodup) (each : declared.length = items.length)
    (ordered : declarationOrder declared declared items = .ok fields) : fields = items := by
  rw [declarationOrder_eq_ok, map_idxOf_self distinct, each, collected_placed_range] at ordered
  exact (Option.some.inj ordered).symm

end Fields

variable {World : Type}

def Allots {α : Type} (next : Nat) (narrow : Action (State World) Exit α)
    (wide : Action (Machine World) Exit α) (next' : Nat) : Prop :=
  next ≤ next' ∧ Mirrors (Set.Ico next next') narrow wide

def AllotsEach {α : Type} (next : Nat) (narrows : List (Action (State World) Exit α))
    (wides : List (Action (Machine World) Exit α)) (next' : Nat) : Prop :=
  next ≤ next' ∧ List.Forall₂ (Mirrors (Set.Ico next next')) narrows wides

section Allotting

variable {α β : Type} {narrow : Action (State World) Exit α} {wide : Action (Machine World) Exit α}
  {first second third : Nat}

theorem Allots.mirrors (allots : Allots second narrow wide third) {from_ upTo : Nat}
    (lower : from_ ≤ second) (upper : third ≤ upTo) : Mirrors (Set.Ico from_ upTo) narrow wide :=
  Simulations.Simulates.mono allots.2 (Set.Ico_subset_Ico lower upper)

theorem AllotsEach.mirrors {narrows : List (Action (State World) Exit α)}
    {wides : List (Action (Machine World) Exit α)} (allots : AllotsEach second narrows wides third)
    {from_ upTo : Nat} (lower : from_ ≤ second) (upper : third ≤ upTo) :
    List.Forall₂ (Mirrors (Set.Ico from_ upTo)) narrows wides :=
  allots.2.imp fun _ _ mirrors =>
    Simulations.Simulates.mono mirrors (Set.Ico_subset_Ico lower upper)

theorem allots_of_mirrors (mirrors : Mirrors ∅ narrow wide) : Allots first narrow wide first :=
  ⟨le_refl first, Simulations.Simulates.mono mirrors (Set.empty_subset _)⟩

theorem allots_pure {value : α} : Allots first (pure value : Action (State World) Exit α) (pure value) first :=
  allots_of_mirrors mirrors_pure

theorem allots_throw {exit : Exit} :
    Allots first (Action.throw exit : Action (State World) Exit α) (Action.throw exit) first :=
  allots_of_mirrors mirrors_throw

theorem allots_beside {run : Action (State World) Exit α} : Allots first run (beside run) first :=
  allots_of_mirrors simulates_beside

theorem Allots.bind {next : α → Action (State World) Exit β}
    {onward : α → Action (Machine World) Exit β} (allots : Allots first narrow wide second)
    (then_ : ∀ value, Allots second (next value) (onward value) third) (room : second ≤ third) :
    Allots first (narrow >>= next) (wide >>= onward) third :=
  ⟨allots.1.trans room, Mirrors.bind (allots.mirrors le_rfl room) fun value =>
    (then_ value).mirrors allots.1 le_rfl⟩

theorem Allots.andThen {next : α → Action (State World) Exit β}
    {onward : α → Action (Machine World) Exit β} (allots : Allots first narrow wide second)
    (then_ : ∀ value, Mirrors ∅ (next value) (onward value)) :
    Allots first (narrow >>= next) (wide >>= onward) second :=
  allots.bind (fun value => allots_of_mirrors (then_ value)) le_rfl

theorem AllotsEach.andThen {narrows : List (Action (State World) Exit α)}
    {wides : List (Action (Machine World) Exit α)} {next : List α → Action (State World) Exit β}
    {onward : List α → Action (Machine World) Exit β}
    (allots : AllotsEach first narrows wides second)
    (then_ : ∀ values, values.length = narrows.length → Mirrors ∅ (next values) (onward values)) :
    Allots first (inOrder narrows >>= next) (inOrder wides >>= onward) second :=
  ⟨allots.1, Mirrors.bind_inOrder allots.2 fun values length =>
    Simulations.Simulates.mono (then_ values length) (Set.empty_subset _)⟩

theorem AllotsEach.inOrder {narrows : List (Action (State World) Exit α)}
    {wides : List (Action (Machine World) Exit α)}
    (allots : AllotsEach first narrows wides second) :
    Allots first (inOrder narrows) (inOrder wides) second :=
  ⟨allots.1, (simulates_inOrder allots.2).imp subset_rfl (fun _ holds => holds)
    (fun _ _ _ holds => holds.1) fun _ holds => holds⟩

theorem allotsEach_nil : AllotsEach first ([] : List (Action (State World) Exit α)) [] first :=
  ⟨le_rfl, .nil⟩

theorem AllotsEach.cons {narrows : List (Action (State World) Exit α)}
    {wides : List (Action (Machine World) Exit α)} (allots : Allots first narrow wide second)
    (rest : AllotsEach second narrows wides third) :
    AllotsEach first (narrow :: narrows) (wide :: wides) third :=
  ⟨allots.1.trans rest.1, .cons (allots.mirrors le_rfl rest.1) (rest.mirrors allots.1 le_rfl)⟩

end Allotting

variable {touched : Set Nat}

theorem mirrors_truth (value : Value) : Mirrors touched (truth value : Action (State World) Exit Bool)
      (truth value : Action (Machine World) Exit Bool) := by
  cases value
  case bool value => exact mirrors_pure
  all_goals exact mirrors_throw

theorem mirrors_logicallyThen {op : LogicOp} {lhs : Value} {rhs : Action (State World) Exit Value}
    {rhs' : Action (Machine World) Exit Value} (mirrors : Mirrors touched rhs rhs') :
    Mirrors touched (logicallyThen op lhs rhs) (logicallyThen op lhs rhs') := by
  refine Mirrors.bind (mirrors_truth lhs) fun goes => ?_
  cases op <;> cases goes
  · exact mirrors_pure
  · exact mirrors
  · exact mirrors
  · exact mirrors_pure

theorem mirrors_if {α : Type} {goes : Bool} {narrow narrow' : Action (State World) Exit α}
    {wide wide' : Action (Machine World) Exit α} (onTrue : Mirrors touched narrow wide)
    (onFalse : Mirrors touched narrow' wide') :
    Mirrors touched (if goes = true then narrow else narrow') (if goes = true then wide else wide') := by
  cases goes
  · exact onFalse
  · exact onTrue

section Literals

variable (semantics : Semantics World) (limit : Nat) {declared names : List String}

theorem executeEach_eq_map (airs : List Air) :
    executeEach semantics limit airs = airs.map (execute semantics limit) := by
  induction airs with
  | nil => rfl
  | cons air airs ih => rw [executeEach, ih, List.map_cons]

theorem map_executeEach (distinct : declared.Nodup) (same : names.Perm declared)
    {values fields : List Air} (each : names.length = values.length)
    (ordered : declarationOrder declared names values = .ok fields) :
    ((names.map declared.idxOf).map fun index =>
        (executeEach semantics limit fields)[index]?.getD (Action.throw .trapped)) =
      executeEach semantics limit values := by
  have within : ∀ index ∈ names.map declared.idxOf, index < declared.length := by
    intro index member
    obtain ⟨_, given, rfl⟩ := List.mem_map.mp member
    exact List.idxOf_lt_length_iff.mpr (same.mem_iff.mp given)
  have stored := map_getElem?_of_collected (map_idxOf_nodup distinct same) (by simpa using each)
    within (declarationOrder_eq_ok.1 ordered)
  have executed := congrArg (List.map fun field? : Option Air =>
    (field?.map (execute semantics limit)).getD (Action.throw .trapped)) stored
  simpa [executeEach_eq_map, Function.comp_def] using executed

theorem fieldValues_eq {S : Type} (distinct : declared.Nodup) (same : names.Perm declared) (values : List Value) :
    (fieldValues declared names values : Action S Exit (List Value)) =
      match collected (placed declared.length (names.map declared.idxOf) values) with
      | some fields => pure fields
      | none => Action.throw .trapped := by
  rw [collected_placed distinct same]
  rfl

theorem fieldValues_self {S : Type} (distinct : declared.Nodup) {values : List Value}
    (each : values.length = declared.length) :
    (fieldValues declared declared values : Action S Exit (List Value)) = pure values := by
  rw [fieldValues_eq distinct (List.Perm.refl declared), map_idxOf_self distinct, ← each, collected_placed_range]

end Literals

section Loops

variable (semantics : Semantics World) (limit : Nat)

theorem simulates_counterRounds {touched : Set Nat} {counter : Nat} (binding : Nat)
    (outside : counter ∉ touched) (kept : (Nat → Value) → Prop)
    (stable : ∀ slots slots' : Nat → Value,
      (∀ other, other ∉ insert counter touched → slots' other = slots other) → kept slots → kept slots')
    {stop stride body : Action (State World) Exit Value}
    {element : Value → Action (State World) Exit Value} {stop' element' stride' body' : Air}
    (stops : Simulations.Simulates touched kept stop (execute semantics limit stop')
      (fun value other _ => value = other) fun _ => True)
    (elements : ∀ count, Simulations.Simulates touched
      (fun slots => slots counter = count ∧ kept slots) (element count)
      (execute semantics limit element') (fun value other _ => value = other) fun _ => True)
    (strides : Mirrors touched stride (execute semantics limit stride'))
    (bodies : Mirrors touched body (execute semantics limit body')) (start : Value) :
    Simulations.Simulates (insert counter touched) (fun slots => slots counter = start ∧ kept slots)
      (counted semantics limit binding stop element stride body start)
      (execute semantics limit (counterRounds counter binding stop' element' stride' body'))
      (fun value other _ => value = other) fun _ => True := by
  have within := Set.subset_insert counter touched
  have tests : ∀ count, Simulations.Simulates touched (fun slots => slots counter = count ∧ kept slots) (do
        let last ← stop
        let goes ← carryOut semantics (.binary .lt) [count, last]
        truth goes)
      (execute semantics limit (.operation (.binary .lt) [.load (.hidden counter), stop']) >>= truth)
      (fun goes goes' _ => goes = goes') fun _ => True := by
    intro count
    simp only [execute, executeEach, inOrder, loadSlot, bind_assoc, pure_bind]
    refine simulates_readSlot (fun _ holds => holds.1) ?_
    refine (stops.imp subset_rfl (fun _ holds => holds.2) (fun _ _ _ holds => holds)
      fun _ holds => holds).bind_mirrors fun last => ?_
    exact Mirrors.bind simulates_beside fun goes => mirrors_truth goes
  have advances : ∀ count, Simulations.Simulates (insert counter touched)
      (fun slots => slots counter = count ∧ kept slots)
      (do
        let value ← element count
        writeLocal binding value
        let step ← stride
        carryOut semantics (.binary .add) [count, step])
      (do
        let value ← execute semantics limit element'
        beside (writeLocal binding value)
        let count ← readSlot counter
        let step ← execute semantics limit stride'
        let next ← beside (carryOut semantics (.binary .add) [count, step])
        writeSlot counter next)
      (fun next _ slots => slots counter = next) fun slots => slots counter = count := by
    intro count
    refine (elements count).bind_keeping outside within (fun _ holds => ⟨holds.1, holds⟩) fun value => ?_
    refine Simulations.Simulates.bind_keeping outside within simulates_beside
      (fun _ holds => ⟨holds, trivial⟩) fun _ => ?_
    refine simulates_readSlot (fun _ holds => holds) ?_
    refine Simulations.Simulates.bind_keeping outside within strides (fun _ holds => ⟨holds, trivial⟩) fun step => ?_
    nth_rewrite 1 [← bind_pure (carryOut semantics (.binary .add) [count, step])]
    exact Simulations.Simulates.bind_keeping outside within simulates_beside (fun _ holds => ⟨holds, trivial⟩)
      fun next => simulates_storing (Set.mem_insert counter touched)
  have bodily : execute semantics limit (.block [.alloc (.local binding) element',
          .store (.hidden counter) (.operation (.binary .add) [.load (.hidden counter), stride'])]
        body') = (do
      let value ← execute semantics limit element'
      beside (writeLocal binding value)
      let count ← readSlot counter
      let step ← execute semantics limit stride'
      let next ← beside (carryOut semantics (.binary .add) [count, step])
      writeSlot counter next) >>= fun _ => execute semantics limit body' := by
    simp [execute, executeEach, inOrder, loadSlot, storeSlot, bind_assoc]
  rw [counterRounds, execute, bodily]
  exact (simulates_countedRounds outside stable tests advances bodies limit start).bind_mirrors fun _ => mirrors_pure

section Ranges

variable {next counter next' : Nat} {start stop stride body : Action (State World) Exit Value}
  {start' stop' stride' body' : Air}

theorem exists_parts (room : next ≤ counter) (room' : counter < next') :
    ∃ parts : Set Nat, Set.Ico next counter ⊆ parts ∧ Set.Ico (counter + 1) next' ⊆ parts ∧
      counter ∉ parts ∧ insert counter parts ⊆ Set.Ico next next' := by
  refine ⟨_, Set.subset_union_left, Set.subset_union_right, by simp, ?_⟩
  intro _ member
  simp only [Set.mem_insert_iff, Set.mem_union, Set.mem_Ico] at member ⊢
  omega

theorem allots_rangeRounds (binding : Nat) (room : next ≤ counter)
    (starts : Mirrors (Set.Ico next counter) start (execute semantics limit start'))
    (stops : Mirrors (Set.Ico next counter) stop (execute semantics limit stop'))
    (strides : Mirrors (Set.Ico next counter) stride (execute semantics limit stride'))
    (bodies : Allots (counter + 1) body (execute semantics limit body') next') :
    Allots next (rangeRounds semantics .desugared limit binding start stop stride body) (execute semantics limit
        (counterLoop [] counter binding start' stop' (.load (.hidden counter)) stride' body'))
      next' := by
  have later := bodies.1
  obtain ⟨parts, below, above, outside, whole⟩ := exists_parts room later
  have elements : ∀ count, Simulations.Simulates parts (fun slots => slots counter = count ∧ True)
      (pure count : Action (State World) Exit Value)
      (execute semantics limit (.load (.hidden counter))) (fun value other _ => value = other)
      fun _ => True :=
    fun count => simulates_reading fun _ holds => holds.1
  have loops := fun first => (simulates_counterRounds semantics limit binding outside
    (fun _ => True) (fun _ _ _ _ => trivial) (stops.mono below) elements (strides.mono below)
    (bodies.2.mono above) first).mono whole
  refine ⟨by omega, ?_⟩
  simp only [counterLoop, List.nil_append, execute, executeEach, inOrder, storeSlot, bind_assoc, pure_bind]
  refine (starts.mono fun slot member => whole (.inr (below member))).bind_mirrors fun first => ?_
  refine simulates_writeSlot (whole (Set.mem_insert counter parts)) (loops first) ?_
  intro slots _
  exact ⟨Function.update_self counter first slots, trivial⟩

end Ranges

section Iterables

variable {next spilled next' : Nat} {iterable body : Action (State World) Exit Value}
  {stop : Value → Action (State World) Exit Value}
  {element : Value → Value → Action (State World) Exit Value} {iterable' stop' element' body' : Air}

variable {touched : Set Nat}

theorem allots_eachRounds (binding : Nat)
    (iterables : Allots next iterable (execute semantics limit iterable') spilled)
    (stops : ∀ whole, Simulations.Simulates ∅ (fun slots => slots spilled = whole) (stop whole)
      (execute semantics limit stop') (fun value other _ => value = other) fun _ => True)
    (elements : ∀ whole count, Simulations.Simulates ∅
      (fun slots => slots (spilled + 1) = count ∧ slots spilled = whole) (element whole count)
      (execute semantics limit element') (fun value other _ => value = other) fun _ => True)
    (bodies : Allots (spilled + 2) body (execute semantics limit body') next') :
    Allots next (do
        let whole ← iterable
        counted semantics limit binding (stop whole) (element whole) (pure (.int 1)) body (.int 0))
      (execute semantics limit
        (counterLoop [.alloc (.hidden spilled) iterable'] (spilled + 1) binding (.const (.int 0))
          stop' element' (.const (.int 1)) body')) next' := by
  have earlier := iterables.1
  have later := bodies.1
  have outside : spilled + 1 ∉ Set.Ico (spilled + 2) next' := by simp
  have within : insert (spilled + 1) (Set.Ico (spilled + 2) next') ⊆ Set.Ico next next' := by
    intro _ member
    simp only [Set.mem_insert_iff, Set.mem_Ico] at member ⊢
    omega
  have steps : Mirrors (Set.Ico (spilled + 2) next') (pure (.int 1) : Action (State World) Exit Value)
      (execute semantics limit (.const (.int 1))) :=
    mirrors_pure
  have spills : spilled ∉ insert (spilled + 1) (Set.Ico (spilled + 2) next') := by simp
  have loops := fun whole => (simulates_counterRounds semantics limit binding outside
    (fun slots => slots spilled = whole) (fun _ _ same holds => (same spilled spills).trans holds)
    ((stops whole).mono (Set.empty_subset _))
    (fun count => (elements whole count).mono (Set.empty_subset _)) steps bodies.2
    (.int 0)).mono within
  refine ⟨by omega, ?_⟩
  simp only [counterLoop, List.cons_append, List.nil_append, execute, executeEach, inOrder,
    storeSlot, bind_assoc, pure_bind]
  refine Simulations.Simulates.bind_mirrors (iterables.mirrors le_rfl (by omega)) fun whole => ?_
  have counting : Simulations.Simulates (Set.Ico next next') (fun slots => slots spilled = whole)
      (counted semantics limit binding (stop whole) (element whole) (pure (.int 1)) body (.int 0))
      (writeSlot (spilled + 1) (.int 0) >>= fun _ => execute semantics limit
        (counterRounds (spilled + 1) binding stop' element' (.const (.int 1)) body'))
      (fun value other _ => value = other) fun _ => True := by
    refine simulates_writeSlot (Set.mem_Ico.mpr ⟨by omega, by omega⟩) (loops whole) ?_
    intro slots holds
    refine ⟨Function.update_self (spilled + 1) (.int 0) slots, ?_⟩
    rwa [Function.update_of_ne (by omega)]
  exact simulates_writeSlot (Set.mem_Ico.mpr ⟨earlier, by omega⟩) counting
    fun slots _ => Function.update_self spilled whole slots

/-! The elements of an array and of a slice, read from the slots of a loop over it. -/

theorem simulates_elementRead (whole count : Value) :
    Simulations.Simulates touched (fun slots => slots (spilled + 1) = count ∧ slots spilled = whole)
      (carryOut semantics (.project [.index]) [whole, count])
      (execute semantics limit (.placeRead (.hidden spilled) [.index] [.load (.hidden (spilled + 1))]))
      (fun value other _ => value = other) fun _ => True := by
  simp only [execute, executeEach, inOrder, loadSlot, bind_assoc, pure_bind]
  refine simulates_readSlot (fun _ holds => holds.1) ?_
  refine simulates_readSlot (fun _ holds => holds.2) ?_
  exact Simulations.Simulates.imp simulates_beside subset_rfl (fun _ _ => trivial)
    (fun _ _ _ holds => holds) fun _ holds => holds

theorem simulates_sliceLen (whole : Value) : Simulations.Simulates touched (fun slots => slots spilled = whole)
      (carryOut semantics (.intrinsic "slice_len") [whole])
      (execute semantics limit (.operation (.intrinsic "slice_len") [.load (.hidden spilled)]))
      (fun value other _ => value = other) fun _ => True := by
  simp only [execute, executeEach, inOrder, loadSlot, bind_assoc, pure_bind]
  refine simulates_readSlot (fun _ holds => holds) ?_
  exact Simulations.Simulates.imp simulates_beside subset_rfl (fun _ _ => trivial)
    (fun _ _ _ holds => holds) fun _ holds => holds

theorem simulates_sliceRead (whole count : Value) :
    Simulations.Simulates touched (fun slots => slots (spilled + 1) = count ∧ slots spilled = whole)
      (carryOut semantics (.intrinsic "slice_index_read") [whole, count])
      (execute semantics limit (.operation (.intrinsic "slice_index_read")
        [.load (.hidden spilled), .load (.hidden (spilled + 1))]))
      (fun value other _ => value = other) fun _ => True := by
  simp only [execute, executeEach, inOrder, loadSlot, bind_assoc, pure_bind]
  refine simulates_readSlot (fun _ holds => holds.2) ?_
  refine simulates_readSlot (fun _ holds => holds.1) ?_
  exact Simulations.Simulates.imp simulates_beside subset_rfl (fun _ _ => trivial)
    (fun _ _ _ holds => holds) fun _ holds => holds

end Iterables

end Loops

theorem map_getElem?_range {α : Type} (items : List α) (default : α) :
    ((List.range items.length).map fun index => items[index]?.getD default) = items := by
  apply List.ext_getElem (by simp)
  intro index _ bound'
  simp [bound']

theorem allots_tupleInit (semantics : Semantics World) (limit : Nat)
    {runs : List (Action (State World) Exit Value)} {airs : List Air} {next next' : Nat}
    (allots : AllotsEach next runs (executeEach semantics limit airs) next') :
    Allots next (do
        let values ← inOrder runs
        return .aggregate values)
      (execute semantics limit (.structInit airs (List.range airs.length))) next' := by
  have each : airs.length = (executeEach semantics limit airs).length := by
    rw [executeEach_eq_map, List.length_map]
  rw [execute, each, map_getElem?_range]
  refine allots.andThen fun values length => ?_
  rw [← allots.2.length_eq, ← length, collected_placed_range]
  exact mirrors_pure

section Initializers

variable (program : Program) (semantics : Semantics World) (reading : Reading) (limit : Nat)

theorem length_evalInits (inits : List FieldInit) :
    (evalInits semantics program reading limit inits).length = inits.length := by
  induction inits with
  | nil => rfl
  | cons init inits ih =>
    cases init
    rw [evalInits, List.length_cons, ih, List.length_cons]

variable {declared : Fields} {inits : List FieldInit} {values fields : List Air} {next next' : Nat}

theorem length_of_allotsEach (allots : AllotsEach next
      (evalInits semantics program reading limit inits) (executeEach semantics limit values)
      next') : (inits.map FieldInit.name).length = values.length := by
  have lengths := allots.2.length_eq
  rw [executeEach_eq_map, List.length_map, length_evalInits] at lengths
  simpa using lengths

theorem allots_structInit {structName : String}
    (checked : checkFieldInits structName declared.names (inits.map FieldInit.name) = .ok ())
    (allots : AllotsEach next (evalInits semantics program reading limit inits)
      (executeEach semantics limit values) next')
    (ordered : declarationOrder declared.names (inits.map FieldInit.name) values = .ok fields) :
    Allots next (do
        let values ← inOrder (evalInits semantics program reading limit inits)
        let fields ← fieldValues declared.names (inits.map FieldInit.name) values
        return .aggregate fields)
      (execute semantics limit (.structInit fields ((inits.map FieldInit.name).map declared.names.idxOf))) next' := by
  have same := perm_of_checkFieldInits checked
  have each := length_of_allotsEach program semantics reading limit allots
  have count := length_of_collected (declarationOrder_eq_ok.1 ordered)
  rw [execute, map_executeEach semantics limit declared.distinct same each ordered, count]
  refine allots.andThen fun values _ => ?_
  rw [fieldValues_eq declared.distinct same]
  cases collected (placed declared.names.length ((inits.map FieldInit.name).map declared.names.idxOf) values) with
  | none => exact mirrors_throw
  | some fields => exact mirrors_pure

theorem allots_structVariant {tag : Nat} (lists : inits.map FieldInit.name = declared.names)
    (allots : AllotsEach next (evalInits semantics program reading limit inits)
      (executeEach semantics limit values) next')
    (ordered : declarationOrder declared.names (inits.map FieldInit.name) values = .ok fields) :
    Allots next (do
        let values ← inOrder (evalInits semantics program reading limit inits)
        let fields ← fieldValues declared.names (inits.map FieldInit.name) values
        return .variant tag fields)
      (execute semantics limit (.enumCreate tag fields)) next' := by
  have each := length_of_allotsEach program semantics reading limit allots
  rw [lists] at ordered each ⊢
  rw [declarationOrder_self declared.distinct each ordered, execute]
  refine allots.andThen fun values length => ?_
  have all : values.length = declared.names.length := by
    rw [length, length_evalInits, ← lists, List.length_map]
  rw [fieldValues_self declared.distinct all]
  exact mirrors_pure

end Initializers

theorem mirrors_replaceAt (semantics : Semantics World) {touched : Set Nat} (root : Nat)
    (path : List Projection) (value : Value) (indices : List Value) :
    Mirrors touched (replaceAt semantics root path value indices) (do
        let old ← loadSlot (.local root)
        let new ← beside (carryOut semantics (.update path) (old :: value :: indices))
        storeSlot (.local root) new
        return .unit) :=
  Mirrors.bind simulates_beside fun _ => Mirrors.bind simulates_beside fun _ =>
    Mirrors.bind simulates_beside fun _ => mirrors_pure

section Analyzed

variable (program : Program) (semantics : Semantics World) (limit : Nat)

mutual

theorem allots_of_analyzeInst (expr : Expr) (lists : listsInOrder program expr = true)
    {next next' : Nat} {air : Air} (analyzed : analyzeInst program expr next = .ok (air, next')) :
    Allots next (eval semantics program .desugared limit expr) (execute semantics limit air) next' := by
  match expr with
  | .const value =>
    cases analyzed
    exact allots_pure
  | .varRef id =>
    cases analyzed
    exact allots_beside
  | .alloc id init =>
    obtain ⟨_, first, result⟩ := bind_eq_ok.mp analyzed
    cases result
    exact (allots_of_analyzeInst init lists first).andThen fun value =>
      Mirrors.bind simulates_beside fun _ => mirrors_pure
  | .assign id value =>
    obtain ⟨_, first, result⟩ := bind_eq_ok.mp analyzed
    cases result
    exact (allots_of_analyzeInst value lists first).andThen fun value =>
      Mirrors.bind simulates_beside fun _ => mirrors_pure
  | .operation op operands =>
    obtain ⟨_, first, result⟩ := bind_eq_ok.mp analyzed
    cases result
    exact (allotsEach_of_analyzeInsts operands lists first).andThen fun values _ =>
      simulates_beside
  | .methodCall receiver method args =>
    simp only [listsInOrder, Bool.and_eq_true] at lists
    obtain ⟨_, first, _, second, result⟩ := bind_bind_eq_ok.mp analyzed
    cases result
    have receivers := allots_of_analyzeInst receiver lists.1 first
    have others := allotsEach_of_analyzeInsts args lists.2 second
    simp only [eval, execute, executeEach, inOrder, bind_assoc, pure_bind]
    exact receivers.bind (fun self => others.andThen fun values _ => simulates_beside) others.1
  | .tupleInit elems =>
    obtain ⟨_, first, result⟩ := bind_eq_ok.mp analyzed
    cases result
    exact allots_tupleInit semantics limit (allotsEach_of_analyzeInsts elems lists first)
  | .structInit typeName inits =>
    simp only [analyzeInst] at analyzed
    split at analyzed
    · cases analyzed
    · rename_i declared known
      obtain ⟨_, checked, _, first, rest⟩ := bind_bind_eq_ok.mp analyzed
      obtain ⟨_, ordered, result⟩ := bind_eq_ok.mp rest
      cases result
      simp only [eval, known]
      exact allots_structInit program semantics .desugared limit checked
        (allotsEach_of_analyzeFieldInits inits lists first) ordered
  | .tupleVariant tag args =>
    obtain ⟨_, first, result⟩ := bind_eq_ok.mp analyzed
    cases result
    exact (allotsEach_of_analyzeInsts args lists first).andThen fun values _ => mirrors_pure
  | .structVariant typeName variantName inits =>
    simp only [listsInOrder, Bool.and_eq_true] at lists
    simp only [analyzeInst] at analyzed
    split at analyzed
    · cases analyzed
    · rename_i findVariant known
      split at analyzed
      · cases analyzed
      · rename_i variantIndex declared found
        obtain ⟨_, checked, _, first, rest⟩ := bind_bind_eq_ok.mp analyzed
        obtain ⟨_, ordered, result⟩ := bind_eq_ok.mp rest
        cases result
        simp only [known, Option.bind_some, found, decide_eq_true_eq] at lists
        simp only [eval, known, Option.bind_some, found]
        exact allots_structVariant program semantics .desugared limit lists.1
          (allotsEach_of_analyzeFieldInits inits lists.2 first) ordered
  | .placeRead root path indices =>
    obtain ⟨_, first, result⟩ := bind_eq_ok.mp analyzed
    cases result
    exact (allotsEach_of_analyzeInsts indices lists first).andThen fun values _ =>
      Mirrors.bind simulates_beside fun _ => simulates_beside
  | .placeAssign root path indices value =>
    simp only [listsInOrder, Bool.and_eq_true] at lists
    obtain ⟨_, first, _, second, result⟩ := bind_bind_eq_ok.mp analyzed
    cases result
    have places := allotsEach_of_analyzeInsts indices lists.2 first
    have written := allots_of_analyzeInst value lists.1 second
    refine ⟨places.1.trans written.1, ?_⟩
    refine Mirrors.bind (written.mirrors places.1 le_rfl) fun value => ?_
    refine Mirrors.bind_inOrder (places.mirrors le_rfl written.1) fun indices _ => ?_
    exact mirrors_replaceAt semantics root path value indices
  | .logical op lhs rhs =>
    simp only [listsInOrder, Bool.and_eq_true] at lists
    obtain ⟨_, first, _, second, result⟩ := bind_bind_eq_ok.mp analyzed
    cases result
    have others := allots_of_analyzeInst rhs lists.2 second
    exact (allots_of_analyzeInst lhs lists.1 first).bind
      (fun value => ⟨others.1, mirrors_logicallyThen others.2⟩) others.1
  | .block statements value =>
    simp only [listsInOrder, Bool.and_eq_true] at lists
    obtain ⟨_, first, _, second, result⟩ := bind_bind_eq_ok.mp analyzed
    cases result
    have last := allots_of_analyzeInst value lists.1 second
    exact (allotsEach_of_analyzeInsts statements lists.2 first).inOrder.bind (fun _ => last) last.1
  | .branch cond thenBlock elseBlock =>
    simp only [listsInOrder, Bool.and_eq_true] at lists
    obtain ⟨_, first, _, second, rest⟩ := bind_bind_eq_ok.mp analyzed
    obtain ⟨_, third, result⟩ := bind_eq_ok.mp rest
    cases result
    have conds := allots_of_analyzeInst cond lists.1.1 first
    have thens := allots_of_analyzeInst thenBlock lists.1.2 second
    have elses := allots_of_analyzeInst elseBlock lists.2 third
    have room := thens.1.trans elses.1
    refine conds.bind (fun value => ⟨room, ?_⟩) room
    refine Mirrors.bind (mirrors_truth value) fun goes => ?_
    exact mirrors_if (thens.mirrors le_rfl elses.1) (elses.mirrors thens.1 le_rfl)
  | .branchOnly cond thenBlock =>
    simp only [listsInOrder, Bool.and_eq_true] at lists
    obtain ⟨_, first, _, second, result⟩ := bind_bind_eq_ok.mp analyzed
    cases result
    have thens := allots_of_analyzeInst thenBlock lists.2 second
    refine (allots_of_analyzeInst cond lists.1 first).bind (fun value => ⟨thens.1, ?_⟩) thens.1
    exact Mirrors.bind (mirrors_truth value) fun goes => mirrors_if thens.2 mirrors_pure
  | .whileLoop cond body =>
    simp only [listsInOrder, Bool.and_eq_true] at lists
    obtain ⟨_, first, _, second, result⟩ := bind_bind_eq_ok.mp analyzed
    cases result
    have conds := allots_of_analyzeInst cond lists.1 first
    have bodies := allots_of_analyzeInst body lists.2 second
    refine ⟨conds.1.trans bodies.1, ?_⟩
    have tests := Mirrors.bind (conds.mirrors le_rfl bodies.1) mirrors_truth
    exact Mirrors.bind (Mirrors.whileRounds tests (bodies.mirrors conds.1 le_rfl) limit) fun _ => mirrors_pure
  | .infiniteLoop body =>
    obtain ⟨_, first, result⟩ := bind_eq_ok.mp analyzed
    cases result
    have bodies := allots_of_analyzeInst body lists first
    refine ⟨bodies.1, ?_⟩
    exact Mirrors.bind (Mirrors.whileRounds mirrors_pure bodies.2 limit) fun _ => mirrors_pure
  | .rangeFor binding [stop] body =>
    simp only [listsInOrder, listInOrder, Bool.and_eq_true] at lists
    obtain ⟨_, first, _, second, result⟩ := bind_bind_eq_ok.mp analyzed
    cases result
    have stops := allots_of_analyzeInst stop lists.1.1 first
    exact allots_rangeRounds semantics limit binding stops.1 mirrors_pure stops.2 mirrors_pure
      (allots_of_analyzeInst body lists.2 second)
  | .rangeFor binding [start, stop] body =>
    simp only [listsInOrder, listInOrder, Bool.and_eq_true] at lists
    obtain ⟨_, first, _, second, rest⟩ := bind_bind_eq_ok.mp analyzed
    obtain ⟨_, third, result⟩ := bind_eq_ok.mp rest
    cases result
    have stops := allots_of_analyzeInst stop lists.1.2.1 first
    have starts := allots_of_analyzeInst start lists.1.1 second
    exact allots_rangeRounds semantics limit binding (stops.1.trans starts.1)
      (starts.mirrors stops.1 le_rfl) (stops.mirrors le_rfl starts.1) mirrors_pure
      (allots_of_analyzeInst body lists.2 third)
  | .rangeFor binding [start, stop, stride] body =>
    simp only [listsInOrder, listInOrder, Bool.and_eq_true] at lists
    obtain ⟨_, first, _, second, rest⟩ := bind_bind_eq_ok.mp analyzed
    obtain ⟨_, third, _, fourth, result⟩ := bind_bind_eq_ok.mp rest
    cases result
    have stops := allots_of_analyzeInst stop lists.1.2.1 first
    have starts := allots_of_analyzeInst start lists.1.1 second
    have strides := allots_of_analyzeInst stride lists.1.2.2.1 third
    exact allots_rangeRounds semantics limit binding
      (stops.1.trans (starts.1.trans strides.1)) (starts.mirrors stops.1 strides.1)
      (stops.mirrors le_rfl (starts.1.trans strides.1))
      (strides.mirrors (stops.1.trans starts.1) le_rfl)
      (allots_of_analyzeInst body lists.2 fourth)
  | .rangeFor _ [] _ => cases analyzed
  | .rangeFor _ (_ :: _ :: _ :: _ :: _) _ => cases analyzed
  | .eachFor binding (.array length) iterable body =>
    simp only [listsInOrder, Bool.and_eq_true] at lists
    obtain ⟨_, first, _, second, result⟩ := bind_bind_eq_ok.mp analyzed
    cases result
    exact allots_eachRounds semantics limit binding
      (allots_of_analyzeInst iterable lists.1 first) (fun _ => simulates_pure fun _ _ => rfl)
      (simulates_elementRead semantics limit) (allots_of_analyzeInst body lists.2 second)
  | .eachFor binding .slice iterable body =>
    simp only [listsInOrder, Bool.and_eq_true] at lists
    obtain ⟨_, first, _, second, result⟩ := bind_bind_eq_ok.mp analyzed
    cases result
    exact allots_eachRounds semantics limit binding
      (allots_of_analyzeInst iterable lists.1 first) (simulates_sliceLen semantics limit)
      (simulates_sliceRead semantics limit) (allots_of_analyzeInst body lists.2 second)
  | .matchOn scrutinee arms =>
    simp only [listsInOrder, Bool.and_eq_true] at lists
    obtain ⟨_, first, _, second, result⟩ := bind_bind_eq_ok.mp analyzed
    cases result
    have choices := allots_of_analyzeArms arms lists.2 second
    exact (allots_of_analyzeInst scrutinee lists.1 first).bind choices.2 choices.1
  | .breakLoop | .continueLoop =>
    cases analyzed
    exact allots_throw
  | .ret value =>
    obtain ⟨_, first, result⟩ := bind_eq_ok.mp analyzed
    cases result
    exact (allots_of_analyzeInst value lists first).andThen fun value => mirrors_throw

theorem allotsEach_of_analyzeInsts (exprs : List Expr) (lists : listInOrder program exprs = true)
    {next next' : Nat} {airs : List Air}
    (analyzed : analyzeInsts program exprs next = .ok (airs, next')) :
    AllotsEach next (evalEach semantics program .desugared limit exprs) (executeEach semantics limit airs) next' := by
  match exprs with
  | [] =>
    cases analyzed
    exact allotsEach_nil
  | expr :: exprs =>
    simp only [listInOrder, Bool.and_eq_true] at lists
    obtain ⟨_, first, _, later, result⟩ := bind_bind_eq_ok.mp analyzed
    cases result
    exact .cons (allots_of_analyzeInst expr lists.1 first) (allotsEach_of_analyzeInsts exprs lists.2 later)

theorem allotsEach_of_analyzeFieldInits (inits : List FieldInit)
    (lists : initsInOrder program inits = true) {next next' : Nat} {airs : List Air}
    (analyzed : analyzeFieldInits program inits next = .ok (airs, next')) :
    AllotsEach next (evalInits semantics program .desugared limit inits)
      (executeEach semantics limit airs) next' := by
  match inits with
  | [] =>
    cases analyzed
    exact allotsEach_nil
  | .mk _ value :: inits =>
    simp only [initsInOrder, Bool.and_eq_true] at lists
    obtain ⟨_, first, _, later, result⟩ := bind_bind_eq_ok.mp analyzed
    cases result
    exact .cons (allots_of_analyzeInst value lists.1 first) (allotsEach_of_analyzeFieldInits inits lists.2 later)

theorem allots_of_analyzeArms (arms : List Arm) (lists : armsInOrder program arms = true)
    {next next' : Nat} {airs : List AirArm}
    (analyzed : analyzeArms program arms next = .ok (airs, next')) :
    next ≤ next' ∧ ∀ value, Allots next (evalArms semantics program .desugared limit arms value)
      (executeArms semantics limit airs value) next' := by
  match arms with
  | [] =>
    cases analyzed
    exact ⟨le_rfl, fun _ => allots_throw⟩
  | .mk pattern body :: arms =>
    simp only [armsInOrder, Bool.and_eq_true] at lists
    obtain ⟨_, first, _, later, result⟩ := bind_bind_eq_ok.mp analyzed
    cases result
    have bodies := allots_of_analyzeInst body lists.1 first
    have others := allots_of_analyzeArms arms lists.2 later
    have room := bodies.1.trans others.1
    refine ⟨room, fun value => ⟨room, ?_⟩⟩
    simp only [evalArms, executeArms]
    cases pattern.matched value with
    | none => exact (others.2 value).mirrors bodies.1 le_rfl
    | some bindings =>
      exact Mirrors.bind simulates_beside fun _ => bodies.mirrors le_rfl others.1

end

/-- The AIR of a body carries out the operations of the expression, on the same operands and in the
same order, and ends like it. -/
theorem execute_eq_eval {body : Expr} {air : Air} (analyzed : analyzeBody program body = .ok air)
    (lists : listsInOrder program body = true) (state : State World) (slots : Nat → Value) :
    ∃ slots', execute semantics limit air (state, slots) = ((eval semantics program .desugared limit body state).1,
        (eval semantics program .desugared limit body state).2, slots') := by
  obtain ⟨⟨_, _⟩, first, result⟩ := bind_eq_ok.mp analyzed
  cases result
  obtain ⟨_, slots', runs, ends, -⟩ :=
    (allots_of_analyzeInst program semantics limit body lists first).2 state slots trivial
  refine ⟨slots', ?_⟩
  rw [runs, Ends.eq ends]

end Analyzed

namespace OrderSample

def program : Program where
  structs
    | "Pair" => some ⟨["a", "b"], by decide⟩
    | _ => none
  enums _ := none

def semantics : Semantics Unit where
  apply
    | .call _, _, store => (some (.int 1), store)
    | .binary .lt, [.int lhs, .int rhs], store => (some (.bool (decide (lhs < rhs))), store)
    | .binary .add, [.int lhs, .int rhs], store => (some (.int (lhs + rhs)), store)
    | _, _, store => (none, store)

def start : State Unit := ⟨⟨fun _ => .unit, ()⟩, []⟩

def call (name : String) : Expr := .operation (.call name) []

/-- `for i in @range(limit()) {}` -/
def overLimit : Expr := .rangeFor 0 [call "limit"] (.const .unit)

def isCall : Operation → Bool
  | .call _ => true
  | _ => false

def calls (effects : List Effect) : Nat := effects.countP fun effect => isCall effect.operation

/-- The end of the range is evaluated before every round, not once. -/
theorem not_all_once : ¬ ∀ (program : Program) (body : Expr) (air : Air), analyzeBody program body = .ok air →
      ∀ (semantics : Semantics Unit) (limit : Nat) (state : State Unit) (slots : Nat → Value),
        (execute semantics limit air (state, slots)).2.1.effects =
          (eval semantics program .asWritten limit body state).2.effects := by
  intro claim
  have same := congrArg calls (claim program overLimit _ rfl semantics 3 start fun _ => .unit)
  have twice : calls (execute semantics 3
      (counterLoop [] 0 0 (.const (.int 0)) (.operation (.call "limit") []) (.load (.hidden 0))
        (.const (.int 1)) (.const .unit)) (start, fun _ => .unit)).2.1.effects = 2 := by decide
  have once : calls (eval semantics program .asWritten 3 overLimit start).2.effects = 1 := by decide
  exact absurd (twice.symm.trans (same.trans once)) (by decide)

def pairs : Expr := .rangeFor 0 [call "limit"] (.structInit "Pair" [.mk "b" (call "second"), .mk "a" (call "first")])

theorem pairs_in_order : ∃ air slots', analyzeBody program pairs = .ok air ∧
    execute semantics 3 air (start, fun _ => .unit) = ((eval semantics program .desugared 3 pairs start).1,
        (eval semantics program .desugared 3 pairs start).2, slots') := by
  have analyzed : ∃ air, analyzeBody program pairs = .ok air := ⟨_, rfl⟩
  obtain ⟨air, analyzed⟩ := analyzed
  obtain ⟨slots', runs⟩ := execute_eq_eval program semantics 3 analyzed (by decide) start fun _ => .unit
  exact ⟨air, slots', analyzed, runs⟩

end OrderSample

end Gruel.EvalOrder
