import Mathlib.Data.List.Forall2
import Gruel.ComptimeScope
import Gruel.ComptimeValueCore

/-!
The interpreter's shared cells give the results of aggregates that are values in every run
that looks into no outdated cell.
-/

namespace Gruel

namespace Comptime

open Marked Versions

section Shows

variable {places : List Nat}
variable {longer : List Nat}
variable {value other : ConstValue} {values others : List ConstValue} {locals : List (Name × ConstValue)}

inductive Shows (places : List Nat) : ConstValue → ConstValue → Prop
  | scalar {value : ConstValue} : value.heapIdx = none → Shows places value value
  | struct {index place : Nat} : places[index]? = some place →
      Shows places (.data (.struct index)) (.data (.struct place))
  | array {index place : Nat} : places[index]? = some place →
      Shows places (.data (.array index)) (.data (.array place))
  | comptimeStr {index place : Nat} : places[index]? = some place →
      Shows places (.data (.comptimeStr index)) (.data (.comptimeStr place))
  | enumData (enumId : EnumId) (variantIdx : Nat) {index place : Nat} : places[index]? = some place →
      Shows places (.data (.enumData enumId variantIdx index)) (.data (.enumData enumId variantIdx place))
  | enumStruct (enumId : EnumId) (variantIdx : Nat) {index place : Nat} : places[index]? = some place →
      Shows places (.data (.enumStruct enumId variantIdx index)) (.data (.enumStruct enumId variantIdx place))

def ShowsAll (places : List Nat) : List ConstValue → List ConstValue → Prop :=
  List.Forall₂ (Shows places)

inductive ShowsItem (places : List Nat) : HeapItem ConstValue → HeapItem ConstValue → Prop
  | struct (structId : StructId) {fields others : List ConstValue} : ShowsAll places fields others →
      ShowsItem places (.struct structId fields) (.struct structId others)
  | array {elems others : List ConstValue} :
      ShowsAll places elems others → ShowsItem places (.array elems) (.array others)
  | enumData {fields others : List ConstValue} :
      ShowsAll places fields others → ShowsItem places (.enumData fields) (.enumData others)
  | enumStruct {fields others : List ConstValue} :
      ShowsAll places fields others → ShowsItem places (.enumStruct fields) (.enumStruct others)
  | string (text : String) : ShowsItem places (.string text) (.string text)

def ShowsLocals (places : List Nat) : List (Name × ConstValue) → List (Name × ConstValue) → Prop :=
  List.Forall₂ fun entry other => entry.1 = other.1 ∧ Shows places entry.2 other.2

structure Mirrors (valued : Valued) (interp : Interp) : Prop where
  locals : ShowsLocals valued.places valued.interp.scope.locals interp.scope.locals
  heap : Versions.Keeps ShowsItem valued.places valued.interp.scope.heap interp.scope.heap
  cells : interp.scope.heap.length = valued.cells
  steps : interp.steps = valued.interp.steps
  callDepth : interp.callDepth = valued.interp.callDepth
  typeOverrides : interp.typeOverrides = valued.interp.typeOverrides
  returnValue : Option.Rel (Shows valued.places) valued.interp.returnValue interp.returnValue

structure Grows (start after : Valued) : Prop where
  places : start.places <+: after.places
  heap : start.interp.scope.heap <+: after.interp.scope.heap

structure Keeping {α : Type} (shows : List Nat → α → α → Prop) (start : Valued)
    (ran : WithValue α) (result : α × Interp) : Prop where
  value : shows ran.2.places ran.1 result.1
  mirrors : Mirrors ran.2 result.2
  grows : Grows start ran.2

theorem Grows.refl (valued : Valued) : Grows valued valued := ⟨List.prefix_rfl, List.prefix_rfl⟩

theorem Grows.trans {start middle after : Valued} (first : Grows start middle)
    (second : Grows middle after) : Grows start after :=
  ⟨first.places.trans second.places, first.heap.trans second.heap⟩

def Valuates (run : ValuedStep) (interpret : Step) : Prop :=
  ∀ expr valued interp, Mirrors valued interp →
    Follows (Keeping Shows valued) (run expr valued) (interpret expr interp)

section

variable (grows : places <+: longer)
include grows

theorem getElem?_of_extends {index place : Nat} (written : places[index]? = some place) :
    longer[index]? = some place := by
  obtain ⟨_, rfl⟩ := grows
  rw [List.getElem?_append_left (List.getElem?_eq_some_iff.mp written).1, written]

theorem Shows.mono (same : Shows places value other) : Shows longer value other := by
  cases same with
  | scalar noCell => exact .scalar noCell
  | struct written => exact .struct (getElem?_of_extends grows written)
  | array written => exact .array (getElem?_of_extends grows written)
  | comptimeStr written => exact .comptimeStr (getElem?_of_extends grows written)
  | enumData enumId variantIdx written =>
    exact .enumData enumId variantIdx (getElem?_of_extends grows written)
  | enumStruct enumId variantIdx written =>
    exact .enumStruct enumId variantIdx (getElem?_of_extends grows written)

theorem ShowsAll.mono (same : ShowsAll places values others) : ShowsAll longer values others :=
  List.Forall₂.imp (fun _ _ => Shows.mono grows) same

theorem ShowsLocals.mono {others : List (Name × ConstValue)}
    (same : ShowsLocals places locals others) : ShowsLocals longer locals others :=
  List.Forall₂.imp (fun _ _ entry => ⟨entry.1, entry.2.mono grows⟩) same

theorem ShowsItem.mono {item other : HeapItem ConstValue} (same : ShowsItem places item other) :
    ShowsItem longer item other := by
  cases same with
  | struct structId fields => exact .struct structId (fields.mono grows)
  | array elems => exact .array (elems.mono grows)
  | enumData fields => exact .enumData (fields.mono grows)
  | enumStruct fields => exact .enumStruct (fields.mono grows)
  | string text => exact .string text

end

theorem Shows.asInteger_eq (same : Shows places value other) : asInteger other = asInteger value := by
  cases same <;> rfl

theorem Shows.asBool_eq (same : Shows places value other) : asBool other = asBool value := by
  cases same <;> rfl

theorem ShowsLocals.rel_lookup {others : List (Name × ConstValue)}
    (same : ShowsLocals places locals others) (name : Name) :
    Option.Rel (Shows places) (lookup locals name) (lookup others name) := by
  induction same with
  | nil => exact .none
  | cons entry rest ih =>
    rw [lookup_cons, lookup_cons, entry.1]
    split
    · exact .some entry.2
    · exact ih

theorem ShowsAll.getElem? (same : ShowsAll places values others) (index : Nat) :
    Option.Rel (Shows places) values[index]? others[index]? := by
  induction same generalizing index with
  | nil => exact .none
  | cons first rest ih =>
    cases index with
    | zero => exact .some first
    | succ index => exact ih index

theorem ShowsAll.set (same : ShowsAll places values others) (shown : Shows places value other)
    (index : Nat) : ShowsAll places (values.set index value) (others.set index other) := by
  induction same generalizing index with
  | nil => exact .nil
  | cons first rest ih =>
    cases index with
    | zero => exact .cons shown rest
    | succ index => exact .cons first (ih index)

theorem showsAll_placeFields (fieldCount : Nat) (fieldPlaces : List Nat) (same : ShowsAll places values others) :
    ShowsAll places (placeFields fieldCount fieldPlaces values) (placeFields fieldCount fieldPlaces others) := by
  unfold placeFields
  have units : ShowsAll places (List.replicate fieldCount (Operand.inject .unit))
      (List.replicate fieldCount (Operand.inject .unit)) :=
    List.forall₂_same.mpr fun value member => by
      obtain ⟨-, rfl⟩ := List.mem_replicate.mp member
      exact .scalar rfl
  generalize List.replicate fieldCount (Operand.inject Value.unit : ConstValue) = fields at units
  -- The two records are built up alike, so the first fields may already be there.
  suffices built : ∀ left right, ShowsAll places left right → ShowsAll places
        ((fieldPlaces.zip values).foldl (fun fields entry => fields.set entry.1 entry.2) left)
        ((fieldPlaces.zip others).foldl (fun fields entry => fields.set entry.1 entry.2) right) from
    built fields fields units
  induction same generalizing fieldPlaces with
  | nil =>
    simpa using shown
  | cons first rest ih =>
    intro left right shown
    cases fieldPlaces with
    | nil => exact shown
    | cons fieldPlace fieldPlaces => exact ih fieldPlaces _ _ (shown.set first fieldPlace)

section Cells

variable {heap store : List (HeapItem ConstValue)} {value other : ConstValue}

theorem follows_getStruct (keeps : Versions.Keeps ShowsItem places heap store)
    (same : Shows places value other) (current : value.heapIdx.any (outdated places) = false) :
    Follows (fun found plain => found.1 = plain.1 ∧ ShowsAll places found.2 plain.2)
      (Run.ofExcept (getStruct heap value)) (getStruct store other) := by
  cases same with
  | struct written =>
    obtain ⟨_, _, isItem, isCell, shown⟩ := keeps.holds _ _ written current
    simp only [getStruct, view_data, isItem, isCell]
    cases shown with
    | struct structId fields => exact follows_ok ⟨rfl, fields⟩
    | _ => exact follows_error _
  | scalar noCell =>
    cases value with
    | data value =>
      cases value with
      | struct heapIdx => cases noCell
      | _ => exact follows_error _
    | _ => exact follows_error _
  | _ => exact follows_error _

theorem follows_getArray (keeps : Versions.Keeps ShowsItem places heap store)
    (same : Shows places value other) (current : value.heapIdx.any (outdated places) = false) :
    Follows (ShowsAll places) (Run.ofExcept (getArray heap value)) (getArray store other) := by
  cases same with
  | array written =>
    obtain ⟨_, _, isItem, isCell, shown⟩ := keeps.holds _ _ written current
    simp only [getArray, view_data, isItem, isCell]
    cases shown with
    | array elems => exact follows_ok elems
    | _ => exact follows_error _
  | scalar noCell =>
    cases value with
    | data value =>
      cases value with
      | array heapIdx => cases noCell
      | _ => exact follows_error _
    | _ => exact follows_error _
  | _ => exact follows_error _

theorem resolveComptimeStr_eq (keeps : Versions.Keeps ShowsItem places heap store)
    {index place : Nat} (written : places[index]? = some place)
    (current : outdated places index = false) :
    resolveComptimeStr store place = resolveComptimeStr heap index := by
  obtain ⟨_, _, isItem, isCell, shown⟩ := keeps.holds _ _ written current
  simp only [resolveComptimeStr, isItem, isCell]
  cases shown <;> rfl

end Cells

section Operators

variable {heap store : List (HeapItem ConstValue)} {lhs rhs left right : ConstValue}

theorem Shows.compare_cases (same : Shows places lhs left) (same' : Shows places rhs right) :
    (∃ index place index' place', lhs = .data (.comptimeStr index) ∧
        left = .data (.comptimeStr place) ∧ rhs = .data (.comptimeStr index') ∧
        right = .data (.comptimeStr place') ∧ places[index]? = some place ∧
        places[index']? = some place') ∨
      ∀ heap store, evalEq store left right = evalEq heap lhs rhs ∧
        evalOrdering store left right = evalOrdering heap lhs rhs := by
  cases same with
  | comptimeStr written =>
    cases same' with
    | comptimeStr written' => exact .inl ⟨_, _, _, _, rfl, rfl, rfl, rfl, written, written'⟩
    | scalar noCell =>
      refine .inr fun heap store => ?_
      rcases rhs with value | _ | _ | _
      · cases value with
        | comptimeStr => cases noCell
        | _ => exact ⟨rfl, rfl⟩
      all_goals exact ⟨rfl, rfl⟩
    | _ => exact .inr fun heap store => ⟨rfl, rfl⟩
  | scalar noCell =>
    refine .inr fun heap store => ?_
    rcases lhs with value | _ | _ | _
    · cases value with
      | comptimeStr => cases noCell
      | _ =>
        cases same' with
        | scalar =>
          rcases rhs with value | _ | _ | _
          · cases value <;> exact ⟨rfl, rfl⟩
          all_goals exact ⟨rfl, rfl⟩
        | _ => exact ⟨rfl, rfl⟩
    all_goals exact ⟨rfl, rfl⟩
  | _ =>
    refine .inr fun heap store => ?_
    cases same' with
    | scalar =>
      rcases rhs with value | _ | _ | _
      · cases value <;> exact ⟨rfl, rfl⟩
      all_goals exact ⟨rfl, rfl⟩
    | _ => exact ⟨rfl, rfl⟩

theorem compare_eq (keeps : Versions.Keeps ShowsItem places heap store)
    (same : Shows places lhs left) (same' : Shows places rhs right)
    (current : lhs.heapIdx.any (outdated places) = false)
    (current' : rhs.heapIdx.any (outdated places) = false) :
    evalEq store left right = evalEq heap lhs rhs ∧ evalOrdering store left right = evalOrdering heap lhs rhs := by
  rcases same.compare_cases same' with ⟨_, _, _, _, rfl, rfl, rfl, rfl, written, written'⟩ | alike
  · simp [evalEq, evalOrdering, view_data, resolveComptimeStr_eq keeps written current,
      resolveComptimeStr_eq keeps written' current']
  · exact alike heap store

theorem evalUnary_eq (op : UnaryOp) (same : Shows places lhs left) : evalUnary op left = evalUnary op lhs := by
  cases op <;> simp [evalUnary, same.asInteger_eq, same.asBool_eq]

theorem evalLogic_eq (op : LogicOp) (same : Shows places lhs left)
    (same' : Shows places rhs right) : evalLogic op left right = evalLogic op lhs rhs := by
  cases op <;> simp [evalLogic, same.asBool_eq, same'.asBool_eq]

theorem evalBin_eq (op : BinOp) (keeps : Versions.Keeps ShowsItem places heap store)
    (same : Shows places lhs left) (same' : Shows places rhs right)
    (current : lhs.heapIdx.any (outdated places) = false)
    (current' : rhs.heapIdx.any (outdated places) = false) :
    evalBin store op left right = evalBin heap op lhs rhs := by
  have compared := compare_eq keeps same same' current current'
  cases op <;> simp only [evalBin, nonzero, shiftAmount, same.asInteger_eq, same'.asInteger_eq,
    compared.1, compared.2]

end Operators

section Binding

variable {scope other : Scope ConstValue}
variable {found plain : Scope ConstValue} {fields : List ConstValue}
variable {others : List ConstValue}

def SameScope (places : List Nat) (scope other : Scope ConstValue) (found plain : Scope ConstValue) : Prop :=
  ShowsLocals places found.locals plain.locals ∧ found.heap = scope.heap ∧ plain.heap = other.heap

theorem SameScope.bind (same : SameScope places scope other found plain) (name : Name)
    {value shown : ConstValue} (shows : Shows places value shown) :
    SameScope places scope other (bind found name value) (bind plain name shown) :=
  ⟨.cons ⟨rfl, shows⟩ same.1, same.2.1, same.2.2⟩

theorem follows_bindFields (fieldIndex : Name → Option Nat)
    (fieldsShown : ShowsAll places fields others) (bindings : List (Name × Name))
    (same : SameScope places scope other found plain) :
    Follows (SameScope places scope other) (Run.ofExcept (bindFields fieldIndex fields bindings found))
      (bindFields fieldIndex others bindings plain) := by
  induction bindings generalizing found plain with
  | nil => exact follows_ok same
  | cons binding bindings ih =>
    obtain ⟨field, name⟩ := binding
    simp only [bindFields]
    cases orNotConst (fieldIndex field) with
    | error err => exact follows_error err
    | ok index =>
      simp only [Except.ok_bind]
      have shown := fieldsShown.getElem? index
      generalize fields[index]? = field, others[index]? = plainField at shown ⊢
      cases shown with
      | none => exact follows_error _
      | some shows => exact ih (same.bind name shows)

theorem follows_some {found : Except CompileError (Scope ConstValue)} {plain : Except CompileError (Scope ConstValue)}
    (follows : Follows (SameScope places scope other) (Run.ofExcept found) plain) :
    Follows (Option.Rel (SameScope places scope other)) (Run.ofExcept (found >>= fun scope => .ok (some scope)))
      (plain >>= fun scope => .ok (some scope)) := by
  cases found with
  | error err =>
    rw [show plain = .error err from follows rfl]
    exact follows_error err
  | ok scope =>
    obtain ⟨_, rfl, same⟩ := follows rfl
    exact follows_ok (.some same)

theorem eq_data_of_view {scrutinee : ConstValue} {value : Value}
    (viewed : Operand.view scrutinee = some value) : scrutinee = .data value := by
  cases scrutinee <;> cases viewed
  rfl

theorem follows_matchPatternValue (pattern : Pattern) {scrutinee shown : ConstValue}
    (shows : Shows places scrutinee shown)
    (current : scrutinee.heapIdx.any (outdated places) = false)
    (keeps : Versions.Keeps ShowsItem places scope.heap other.heap)
    (locals : ShowsLocals places scope.locals other.locals) :
    Follows (Option.Rel (SameScope places scope other))
      (Run.ofExcept (matchPattern pattern scrutinee scope)) (matchPattern pattern shown other) := by
  have same : SameScope places scope other scope other := ⟨locals, rfl, rfl⟩
  have compared (condition : Prop) [Decidable condition] : Follows (Option.Rel (SameScope places scope other))
        (Run.ofExcept (.ok (if condition then some scope else none)) : ValuedRun _)
        (.ok (if condition then some other else none)) := by
    split
    · exact follows_ok (.some same)
    · exact follows_ok .none
  cases pattern with
  | wildcard => exact follows_ok (.some same)
  | notProduced => exact follows_error _
  | comptimeUnrollArm => exact follows_error _
  | unresolved => exact follows_ok .none
  | int _ | bool _ | path _ _ =>
    cases shows with
    | scalar =>
      simp only [matchPattern]
      cases Operand.view scrutinee with
      | none => exact follows_ok .none
      | some value => cases value <;> first | exact compared _ | exact follows_ok .none
    | _ => first | exact compared _ | exact follows_ok .none
  | dataVariant expectedId expectedIdx bindings =>
    cases shows with
    | enumData enumId variantIdx written =>
      obtain ⟨item, cell, isItem, isCell, shown⟩ := keeps.holds _ _ written current
      simp only [matchPattern, view_data, isItem, isCell]
      split
      · cases shown with
        | enumData fields =>
          simp only [bindPositions_eq]
          exact follows_some (follows_bindFields some fields (positioned bindings 0) same)
        | _ => exact follows_error _
      · exact follows_ok .none
    | scalar noCell =>
      simp only [matchPattern]
      cases viewed : Operand.view scrutinee with
      | none => exact follows_ok .none
      | some value =>
        rw [eq_data_of_view viewed] at noCell
        cases value with
        | enumData => cases noCell
        | _ => exact follows_ok .none
    | _ => exact follows_ok .none
  | structVariant expectedId expectedIdx bindings =>
    cases shows with
    | enumStruct enumId variantIdx written =>
      obtain ⟨item, cell, isItem, isCell, shown⟩ := keeps.holds _ _ written current
      simp only [matchPattern, view_data, isItem, isCell]
      split
      · cases shown with
        | enumStruct fields =>
          simp only [bindIndexed_eq]
          exact follows_some (follows_bindFields some fields bindings same)
        | _ => exact follows_error _
      · exact follows_ok .none
    | scalar noCell =>
      simp only [matchPattern]
      cases viewed : Operand.view scrutinee with
      | none => exact follows_ok .none
      | some value =>
        rw [eq_data_of_view viewed] at noCell
        cases value with
        | enumStruct => cases noCell
        | _ => exact follows_ok .none
    | _ => exact follows_ok .none

end Binding

end Shows

section States

variable {valued : Valued} {interp : Interp}
variable {target plain : Nat} {item cell : HeapItem ConstValue}
variable {value other lhs rhs index plainIndex plainBase : ConstValue} {places longer : List Nat}
  {locals others : List (Name × ConstValue)} {base : Name}

theorem prefix_concat {α : Type} (list : List α) (last : α) : list <+: list ++ [last] :=
  ⟨[last], rfl⟩

theorem showsOption_mono (grows : places <+: longer) {value other : Option ConstValue}
    (same : Option.Rel (Shows places) value other) : Option.Rel (Shows longer) value other := by
  cases same with
  | none => exact .none
  | some shown => exact .some (shown.mono grows)

theorem Mirrors.start {α : Type} {shows : List Nat → α → α → Prop} (mirrors : Mirrors valued interp)
    {value other : α} (shown : shows valued.places value other) :
    Keeping shows valued (value, valued) (other, interp) :=
  ⟨shown, mirrors, .refl valued⟩

theorem Mirrors.bound (mirrors : Mirrors valued interp) {found plain : Scope ConstValue}
    (same : SameScope valued.places valued.interp.scope interp.scope found plain) :
    Grows valued (valued.extend found) ∧ Mirrors (valued.extend found) { interp with scope := plain } := by
  obtain ⟨locals, sameHeap, samePlain⟩ := same
  rw [Valued.extend, if_pos (congrArg List.length sameHeap)]
  refine ⟨⟨List.prefix_rfl, sameHeap ▸ List.prefix_rfl⟩, locals, ?_, ?_, mirrors.steps,
    mirrors.callDepth, mirrors.typeOverrides, mirrors.returnValue⟩
  · rw [sameHeap, samePlain]
    exact mirrors.heap
  · rw [samePlain]
    exact mirrors.cells

theorem Mirrors.alloc (mirrors : Mirrors valued interp) (shown : ShowsItem valued.places item cell) :
    (valued.extend (alloc valued.interp.scope item)).places = valued.places ++ [interp.scope.heap.length] ∧
      Grows valued (valued.extend (Comptime.alloc valued.interp.scope item)) ∧
      Mirrors (valued.extend (alloc valued.interp.scope item))
        { interp with scope := Comptime.alloc interp.scope cell } := by
  have longer : (Comptime.alloc valued.interp.scope item).heap.length ≠ valued.interp.scope.heap.length := by
    simp [Comptime.alloc]
  have grows := prefix_concat valued.places interp.scope.heap.length
  rw [Valued.extend, if_neg longer, ← mirrors.cells]
  refine ⟨rfl, ⟨grows, prefix_concat _ item⟩, mirrors.locals.mono grows, ?_, ?_, mirrors.steps,
    mirrors.callDepth, mirrors.typeOverrides, ?_⟩
  · exact mirrors.heap.alloc (fun last _ _ => ShowsItem.mono (prefix_concat _ last)) (shown.mono grows)
  · simp [Comptime.alloc]
  · exact showsOption_mono grows mirrors.returnValue

theorem ShowsLocals.assign {changed : List (Name × ConstValue)} {shown : ConstValue}
    (same : ShowsLocals places locals others)
    (assigned : assignLocal base value locals = some changed)
    (found : lookup others base = some shown) (shows : Shows places value shown) :
    ShowsLocals places changed others := by
  induction same generalizing changed with
  | nil => cases assigned
  | @cons entry other locals others sameEntry sameRest ih =>
    rw [assignLocal] at assigned
    rw [lookup_cons, ← sameEntry.1] at found
    split at assigned
    · next isBase =>
        rw [if_pos isBase] at found
        obtain rfl := Option.some.inj found
        obtain rfl := Option.some.inj assigned
        exact .cons ⟨isBase.symm.trans sameEntry.1, shows⟩ sameRest
    · next differs =>
        rw [if_neg differs] at found
        obtain ⟨_, assignedRest, rfl⟩ := Option.map_eq_some_iff.mp assigned
        exact .cons sameEntry (ih assignedRest found)

theorem follows_renew (mirrors : Mirrors valued interp) {handle : Nat → Value}
    (inCell : ∀ {places index other}, Shows places (.data (handle index)) other →
      ∃ place, places[index]? = some place ∧ other = .data (handle place))
    (ofCell : ∀ {places : List Nat} {index place}, places[index]? = some place →
      Shows places (.data (handle index)) (.data (handle place))) {place : Nat}
    (written : valued.places[target]? = some place) {scope : Scope ConstValue}
    (isItem : scope.heap[target]? = some item) (shown : ShowsItem valued.places item cell) :
    Follows (Keeping Shows valued) (valued.renew base handle target scope) (.ok (.data .unit, { interp with
          scope := { interp.scope with heap := interp.scope.heap.set place cell } })) := by
  have grows := prefix_concat valued.places place
  simp only [Valued.renew, isItem, written]
  cases assigned : assignLocal base (.data (handle valued.interp.scope.heap.length)) valued.interp.scope.locals with
  | none => exact follows_of_marked rfl
  | some locals =>
    intro unmarked
    have isBase : lookup valued.interp.scope.locals base = some (.data (handle target)) := by
      simpa using unmarked
    have plainBase := mirrors.locals.rel_lookup base
    rw [isBase] at plainBase
    generalize isPlain : lookup interp.scope.locals base = plain at plainBase
    cases plainBase with
    | some shows =>
      obtain ⟨other, writtenOther, rfl⟩ := inCell shows
      obtain rfl : place = other := Option.some.inj (written.symm.trans writtenOther)
      have isLast : (valued.places ++ [place])[valued.interp.scope.heap.length]? = some place := by
        rw [← mirrors.heap.length_eq, List.getElem?_concat_length]
      refine ⟨_, rfl, .scalar rfl, ⟨?_, ?_, ?_, mirrors.steps, mirrors.callDepth,
        mirrors.typeOverrides, showsOption_mono grows mirrors.returnValue⟩,
        grows, prefix_concat _ item⟩
      · exact (mirrors.locals.mono grows).assign assigned isPlain (ofCell isLast)
      · exact mirrors.heap.update (fun last _ _ => ShowsItem.mono (prefix_concat _ last))
          (List.mem_of_getElem? written) (shown.mono grows)
      · simpa using mirrors.cells

def ShowsTarget (places : List Nat) (op : StrictOp) (target plain : Nat) : Prop := match op with
  | .fieldSet .. | .indexSet _ => places[target]? = some plain
  | _ => True

theorem ShowsTarget.mono (grows : places <+: longer) {op : StrictOp}
    (same : ShowsTarget places op target plain) : ShowsTarget longer op target plain := by
  cases op with
  | fieldSet base field | indexSet base => exact getElem?_of_extends grows same
  | _ => exact same

theorem follows_targetOf (same : ShowsLocals places locals others) (op : StrictOp) :
    Follows (ShowsTarget places op) (Run.ofExcept (targetOf op locals)) (targetOf op others) := by
  cases op with
  | fieldSet base field =>
    have found := same.rel_lookup base
    simp only [targetOf]
    generalize lookup locals base = value, lookup others base = other at found ⊢
    cases found with
    | none => exact follows_error _
    | some shown =>
      cases shown with
      | struct written => exact follows_ok written
      | scalar noCell =>
        rename_i value
        rcases value with value | _ | _ | _
        · cases value with
          | struct => cases noCell
          | _ => exact follows_error _
        all_goals exact follows_error _
      | _ => exact follows_error _
  | indexSet base =>
    have found := same.rel_lookup base
    simp only [targetOf]
    generalize lookup locals base = value, lookup others base = other at found ⊢
    cases found with
    | none => exact follows_error _
    | some shown =>
      cases shown with
      | array written => exact follows_ok written
      | scalar noCell =>
        rename_i value
        rcases value with value | _ | _ | _
        · cases value with
          | array => cases noCell
          | _ => exact follows_error _
        all_goals exact follows_error _
      | _ => exact follows_error _
  | _ => exact follows_ok trivial

theorem Mirrors.allocated (mirrors : Mirrors valued interp)
    (shown : ShowsItem valued.places item cell) (shows : ∀ {places : List Nat},
      places[valued.interp.scope.heap.length]? = some interp.scope.heap.length →
      Shows places value other) :
    Keeping Shows valued (value, valued.extend (Comptime.alloc valued.interp.scope item))
      (other, { interp with scope := Comptime.alloc interp.scope cell }) := by
  obtain ⟨placesEq, grows, mirrorsAfter⟩ := mirrors.alloc shown
  refine ⟨shows ?_, mirrorsAfter, grows⟩
  rw [placesEq, ← mirrors.heap.length_eq, List.getElem?_concat_length]

theorem Mirrors.unchanged (mirrors : Mirrors valued interp) (shows : Shows valued.places value other) :
    Keeping Shows valued (value, valued.extend valued.interp.scope) (other, interp) := by
  obtain ⟨grows, mirrorsAfter⟩ := mirrors.bound ⟨mirrors.locals, rfl, rfl⟩
  exact ⟨shows.mono grows.places, mirrorsAfter, grows⟩

theorem scalar_of_evalUnary {op : UnaryOp} {operand : ConstValue} {value : Value}
    (computed : evalUnary op operand = .ok value) : (ConstValue.data value).heapIdx = none := by
  cases op <;> simp only [evalUnary, Bind.bind, Except.bind] at computed <;> split at computed <;>
    cases computed <;> rfl

theorem scalar_of_evalLogic {op : LogicOp} {value : Value}
    (computed : evalLogic op lhs rhs = .ok value) : (ConstValue.data value).heapIdx = none := by
  cases op <;> simp only [evalLogic, Bind.bind, Except.bind] at computed <;> repeat' split at computed
  all_goals cases computed
  all_goals rfl

theorem scalar_of_evalBin {heap : List (HeapItem ConstValue)} {op : BinOp} {value : Value}
    (computed : evalBin heap op lhs rhs = .ok value) : (ConstValue.data value).heapIdx = none := by
  cases op <;> simp only [evalBin, Bind.bind, Except.bind] at computed <;> repeat' split at computed
  all_goals cases computed
  all_goals rfl

section

variable (mirrors : Mirrors valued interp)
include mirrors

theorem follows_computed {computed : Except CompileError Value}
    (scalar : ∀ value, computed = .ok value → (ConstValue.data value).heapIdx = none) :
    Follows (Keeping Shows valued) (do
        let (value, scope) ← Run.ofExcept (do
          .ok ((Operand.inject (← computed) : ConstValue), valued.interp.scope))
        pure (value, valued.extend scope))
      (do
        let (value, scope) ← (do
          Except.ok ((Operand.inject (← computed) : ConstValue), interp.scope))
        .ok (value, { interp with scope := scope })) := by
  cases computed with
  | error err => exact follows_error err
  | ok value => exact follows_ok (mirrors.unchanged (.scalar (scalar value rfl)))

theorem follows_structAt (shows : Shows valued.places value other)
    (current : value.heapIdx.any (outdated valued.places) = false)
    {next : StructId × List ConstValue → Except CompileError (ConstValue × Scope ConstValue)}
    {plainNext : StructId × List ConstValue → Except CompileError (ConstValue × Scope ConstValue)}
    (followsNext : ∀ structId fields others, ShowsAll valued.places fields others →
      Follows (Keeping Shows valued) (Run.ofExcept (next (structId, fields)) >>= fun result =>
          pure (result.1, valued.extend result.2))
        (plainNext (structId, others) >>= fun result =>
          .ok (result.1, { interp with scope := result.2 }))) :
    Follows (Keeping Shows valued) (Run.ofExcept (getStruct valued.interp.scope.heap value >>= next) >>= fun result =>
        pure (result.1, valued.extend result.2))
      ((getStruct interp.scope.heap other >>= plainNext) >>= fun result =>
        .ok (result.1, { interp with scope := result.2 })) := by
  have found := follows_getStruct mirrors.heap shows current
  generalize getStruct valued.interp.scope.heap value = cell, getStruct interp.scope.heap other = plainCell at found ⊢
  cases cell with
  | error err =>
    rw [show plainCell = .error err from found rfl]
    exact follows_error err
  | ok cell =>
    obtain ⟨⟨structId, others⟩, rfl, rfl, shown⟩ := found rfl
    exact followsNext _ _ _ shown

theorem follows_applyFieldSet (fieldIndex : FieldIndex) (base field : Name)
    (written : valued.places[target]? = some plain)
    (current : outdated valued.places target = false) (shows : Shows valued.places value other) :
    Follows (Keeping Shows valued) (do
        let (_, scope) ← Run.ofExcept (applyOp fieldIndex (.fieldSet base field) target valued.interp.scope [value])
        valued.renew base .struct target scope)
      (do
        let (value, scope) ← applyOp fieldIndex (.fieldSet base field) plain interp.scope [other]
        .ok (value, { interp with scope := scope })) := by
  obtain ⟨_, _, isItem, isCell, shown⟩ := mirrors.heap.holds _ _ written current
  simp only [applyOp, isItem, isCell]
  cases shown with
  | @struct structId fields others sameFields =>
    dsimp only
    cases fieldIndex structId field with
    | none => exact follows_error _
    | some index =>
      have inBounds := (List.getElem?_eq_some_iff.mp isItem).1
      refine follows_renew mirrors ?_ .struct written (List.getElem?_set_self inBounds)
        (.struct structId (sameFields.set shows index))
      intro places index other same
      cases same with
      | struct written => exact ⟨_, written, rfl⟩
      | scalar noCell => cases noCell
  | _ => exact follows_error _

theorem follows_applyIndexSet (fieldIndex : FieldIndex) (base : Name) (written : valued.places[target]? = some plain)
    (current : outdated valued.places target = false)
    (sameIndex : Shows valued.places index plainIndex) (shows : Shows valued.places value other) :
    Follows (Keeping Shows valued) (do
        let (_, scope) ← Run.ofExcept (applyOp fieldIndex (.indexSet base) target valued.interp.scope [index, value])
        valued.renew base .array target scope)
      (do
        let (value, scope) ←
          applyOp fieldIndex (.indexSet base) plain interp.scope [plainIndex, other]
        .ok (value, { interp with scope := scope })) := by
  obtain ⟨_, _, isItem, isCell, shown⟩ := mirrors.heap.holds _ _ written current
  simp only [applyOp, isItem, isCell]
  cases shown with
  | @array elems others sameElems =>
    simp only [sameIndex.asInteger_eq, ← sameElems.length_eq]
    cases asInteger index with
    | error err => exact follows_error err
    | ok number =>
      simp only [Except.ok_bind]
      cases indexInto number elems.length with
      | error err => exact follows_error err
      | ok place =>
        have inBounds := (List.getElem?_eq_some_iff.mp isItem).1
        refine follows_renew mirrors ?_ .array written (List.getElem?_set_self inBounds)
          (.array (sameElems.set shows place))
        intro places index other same
        cases same with
        | array written => exact ⟨_, written, rfl⟩
        | scalar noCell => cases noCell
  | _ => exact follows_error _

theorem follows_applyIndexGet (fieldIndex : FieldIndex) (target plain : Nat) {base : ConstValue}
    (sameBase : Shows valued.places base plainBase)
    (current : base.heapIdx.any (outdated valued.places) = false)
    (sameIndex : Shows valued.places index plainIndex) :
    Follows (Keeping Shows valued) (do
        let (value, scope) ← Run.ofExcept (applyOp fieldIndex .indexGet target valued.interp.scope [base, index])
        pure (value, valued.extend scope))
      (do
        let (value, scope) ← applyOp fieldIndex .indexGet plain interp.scope [plainBase, plainIndex]
        .ok (value, { interp with scope := scope })) := by
  have found := follows_getArray mirrors.heap sameBase current
  simp only [applyOp, sameIndex.asInteger_eq]
  generalize getArray valued.interp.scope.heap base = cell,
    getArray interp.scope.heap plainBase = plainCell at found ⊢
  cases cell with
  | error err =>
    rw [show plainCell = .error err from found rfl]
    exact follows_error err
  | ok elems =>
    obtain ⟨others, rfl, sameElems⟩ := found rfl
    simp only [Except.ok_bind, ← sameElems.length_eq]
    cases asInteger index with
    | error err => exact follows_error err
    | ok number =>
      simp only [Except.ok_bind]
      cases indexInto number elems.length with
      | error err => exact follows_error err
      | ok place =>
        have element := sameElems.getElem? place
        simp only [Except.ok_bind]
        generalize elems[place]? = value, others[place]? = other at element ⊢
        cases element with
        | none => exact follows_error _
        | some shows => exact follows_ok (mirrors.unchanged shows)

theorem follows_applyFieldGet (fieldIndex : FieldIndex) (field : Name) (target plain : Nat)
    {base : ConstValue} (sameBase : Shows valued.places base plainBase)
    (current : base.heapIdx.any (outdated valued.places) = false) :
    Follows (Keeping Shows valued) (do
        let (value, scope) ← Run.ofExcept (applyOp fieldIndex (.fieldGet field) target valued.interp.scope [base])
        pure (value, valued.extend scope))
      (do
        let (value, scope) ← applyOp fieldIndex (.fieldGet field) plain interp.scope [plainBase]
        .ok (value, { interp with scope := scope })) := by
  refine follows_structAt mirrors sameBase current ?_
  intro structId fields others sameFields
  dsimp only
  cases fieldIndex structId field with
  | none => exact follows_error _
  | some index =>
    have element := sameFields.getElem? index
    dsimp only
    generalize fields[index]? = value, others[index]? = other at element ⊢
    cases element with
    | none => exact follows_error _
    | some shows => exact follows_ok (mirrors.unchanged shows)

theorem follows_applyDestructure (fieldIndex : FieldIndex) (bindings : List (Name × Name))
    (target plain : Nat) {init plainInit : ConstValue}
    (sameInit : Shows valued.places init plainInit)
    (current : init.heapIdx.any (outdated valued.places) = false) :
    Follows (Keeping Shows valued) (do
        let (value, scope) ← Run.ofExcept
          (applyOp fieldIndex (.structDestructure bindings) target valued.interp.scope [init])
        pure (value, valued.extend scope))
      (do
        let (value, scope) ←
          applyOp fieldIndex (.structDestructure bindings) plain interp.scope [plainInit]
        .ok (value, { interp with scope := scope })) := by
  refine follows_structAt mirrors sameInit current ?_
  intro structId fields others sameFields
  have bound := follows_bindFields (fieldIndex structId) sameFields bindings
    (⟨mirrors.locals, rfl, rfl⟩ : SameScope valued.places valued.interp.scope interp.scope _ _)
  dsimp only
  generalize bindFields (fieldIndex structId) fields bindings valued.interp.scope = scope,
    bindFields (fieldIndex structId) others bindings interp.scope = plainScope at bound ⊢
  cases scope with
  | error err =>
    rw [show plainScope = .error err from bound rfl]
    exact follows_error err
  | ok scope =>
    obtain ⟨plainScope, rfl, same⟩ := bound rfl
    obtain ⟨grows, mirrorsAfter⟩ := mirrors.bound same
    exact follows_ok ⟨.scalar rfl, mirrorsAfter, grows⟩

theorem follows_apply (fieldIndex : FieldIndex) (op : StrictOp)
    (sameTarget : ShowsTarget valued.places op target plain) {values others : List ConstValue}
    (operands : ShowsAll valued.places values others) :
    Follows (Keeping Shows valued) (valued.apply fieldIndex op target values) (do
        let (value, scope) ← applyOp fieldIndex op plain interp.scope others
        .ok (value, { interp with scope := scope })) := by
  refine follows_markIf fun allCurrent => ?_
  have current : ∀ operand ∈ op.looksInto target values, operand.heapIdx.any (outdated valued.places) = false := by
    simpa using allCurrent
  -- A construct given another number of operands than it takes fails on both sides.
  cases op with
  | unary op =>
    rcases operands with _ | ⟨first, _ | _⟩
    case cons.nil value other =>
        simp only [applyOp, evalUnary_eq op first]
        exact follows_computed mirrors fun _ => scalar_of_evalUnary
    all_goals exact follows_error _
  | bin op =>
    rcases operands with _ | ⟨first, _ | ⟨second, _ | _⟩⟩
    case cons.cons.nil lhs left rhs right =>
        simp only [applyOp, evalBin_eq op mirrors.heap first second (current lhs (.head _))
          (current rhs (.tail _ (.head _)))]
        exact follows_computed mirrors fun _ => scalar_of_evalBin
    all_goals exact follows_error _
  | logic op =>
    rcases operands with _ | ⟨first, _ | ⟨second, _ | _⟩⟩
    case cons.cons.nil lhs left rhs right =>
        simp only [applyOp, evalLogic_eq op first second]
        exact follows_computed mirrors fun _ => scalar_of_evalLogic
    all_goals exact follows_error _
  | stringConst text =>
    cases operands with
    | nil => exact follows_ok (mirrors.allocated (.string text) .comptimeStr)
    | cons => exact follows_error _
  | arrayInit => exact follows_ok (mirrors.allocated (.array operands) .array)
  | structInit structId fieldCount fieldPlaces =>
    exact follows_ok (mirrors.allocated
      (.struct structId (showsAll_placeFields fieldCount fieldPlaces operands)) .struct)
  | enumData enumId variantIdx =>
    exact follows_ok (mirrors.allocated (.enumData operands) (.enumData enumId variantIdx))
  | enumStruct enumId variantIdx fieldCount fieldPlaces =>
    exact follows_ok (mirrors.allocated (.enumStruct (showsAll_placeFields fieldCount fieldPlaces operands))
      (.enumStruct enumId variantIdx))
  | indexGet =>
    rcases operands with _ | ⟨first, _ | ⟨second, _ | _⟩⟩
    case cons.cons.nil base plainBase index plainIndex =>
        exact follows_applyIndexGet mirrors fieldIndex target plain first
          (current base (.head _)) second
    all_goals exact follows_error _
  | indexSet base =>
    rcases operands with _ | ⟨first, _ | ⟨second, _ | _⟩⟩
    case cons.cons.nil index plainIndex value other =>
        exact follows_applyIndexSet mirrors fieldIndex base sameTarget (current _ (.head _)) first second
    all_goals exact follows_error _
  | fieldGet field =>
    rcases operands with _ | ⟨first, _ | _⟩
    case cons.nil base plainBase =>
        exact follows_applyFieldGet mirrors fieldIndex field target plain first
          (current base (.head _))
    all_goals exact follows_error _
  | fieldSet base field =>
    rcases operands with _ | ⟨first, _ | _⟩
    case cons.nil value other =>
        exact follows_applyFieldSet mirrors fieldIndex base field sameTarget (current _ (.head _)) first
    all_goals exact follows_error _
  | structDestructure bindings =>
    rcases operands with _ | ⟨first, _ | _⟩
    case cons.nil init plainInit =>
        exact follows_applyDestructure mirrors fieldIndex bindings target plain first
          (current init (.head _))
    all_goals exact follows_error _

end

end States

section Arguments

variable {places : List Nat} {values others : List ConstValue}

theorem ShowsAll.zip {κ : Type} (same : ShowsAll places values others) (params : List κ) : List.Forall₂
      (fun entry other : κ × ConstValue => entry.1 = other.1 ∧ Shows places entry.2 other.2)
      (params.zip values) (params.zip others) := by
  induction same generalizing params with
  | nil => simp
  | cons first rest ih =>
    cases params with
    | nil => exact .nil
    | cons param params => exact .cons ⟨rfl, first⟩ (ih params)

theorem showsLocals_callLocals (info : FnInfo) (same : ShowsAll places values others) :
    ShowsLocals places (callLocals info values) (callLocals info others) := by
  unfold callLocals ShowsLocals
  rw [List.forall₂_map_left_iff, List.forall₂_map_right_iff, List.forall₂_reverse_iff]
  have kept := List.rel_filter (p := fun entry : (Name × Bool) × ConstValue => !entry.1.2)
    (q := fun entry : (Name × Bool) × ConstValue => !entry.1.2) ?_ (same.zip info.params)
  · exact kept.imp fun entry other sameEntry => ⟨by rw [sameEntry.1], sameEntry.2⟩
  · intro entry other sameEntry
    dsimp only
    rw [sameEntry.1]

theorem typeOverridesOf_eq (info : FnInfo) (same : ShowsAll places values others) :
    typeOverridesOf info others = typeOverridesOf info values := by
  unfold typeOverridesOf
  split
  · have zipped := List.rel_reverse (same.zip info.params)
    generalize (info.params.zip values).reverse = entries, (info.params.zip others).reverse = plain at zipped ⊢
    induction zipped with
    | nil => rfl
    | @cons entry other _ _ sameEntry rest ih =>
      obtain ⟨⟨_, isType⟩, _⟩ := entry
      obtain ⟨_, _⟩ := other
      obtain ⟨rfl, shows⟩ := sameEntry
      simp only [List.filterMap_cons, ih]
      cases isType <;> cases shows <;> rfl
  · rfl

theorem acceptOperand_eq (op : StrictOp) (index : Nat) {value other : ConstValue} (shows : Shows places value other) :
    acceptOperand op index other = acceptOperand op index value := by
  cases op <;> cases index <;> simp [acceptOperand, shows.asInteger_eq]

end Arguments

section Constructs

variable {run : ValuedStep} {interpret : Step} {valued : Valued} {interp : Interp}
variable {params plainParams : List (Name × ConstValue)}
variable {value other : ConstValue}

theorem follows_grows {α : Type} {shows : List Nat → α → α → Prop} {start entered : Valued}
    {ran : ValuedRun (WithValue α)} {plain : Except CompileError (α × Interp)}
    (grows : Grows start entered) (follows : Follows (Keeping shows entered) ran plain) :
    Follows (Keeping shows start) ran plain :=
  follows_mono follows fun _ _ keeping =>
    ⟨keeping.value, keeping.mirrors, grows.trans keeping.grows⟩

theorem follows_keeping {α γ : Type} {shows : List Nat → α → α → Prop}
    {showsNext : List Nat → γ → γ → Prop} {start : Valued} {ran : ValuedRun (WithValue α)}
    {plain : Except CompileError (α × Interp)} {next : WithValue α → ValuedRun (WithValue γ)}
    {plainNext : α × Interp → Except CompileError (γ × Interp)}
    (follows : Follows (Keeping shows start) ran plain)
    (followsNext : ∀ value other valued interp, Grows start valued →
      shows valued.places value other → Mirrors valued interp →
      Follows (Keeping showsNext valued) (next (value, valued)) (plainNext (other, interp))) :
    Follows (Keeping showsNext start) (ran >>= next) (plain >>= plainNext) := by
  refine follows_bind follows ?_
  rintro ⟨value, valued⟩ ⟨other, interp⟩ ⟨shown, mirrors, grows⟩
  exact follows_grows grows (followsNext value other valued interp grows shown mirrors)

theorem follows_shown (mirrors : Mirrors valued interp) (shown : Shows valued.places value other) :
    Follows (Keeping Shows valued) (pure (value, valued) : ValuedRun (WithValue ConstValue)) (.ok (other, interp)) :=
  follows_ok (mirrors.start shown)

theorem Shows.data {places : List Nat} {value : Value} (shown : Shows places (.data value) other) :
    ∃ plain, other = .data plain := by
  cases shown <;> exact ⟨_, rfl⟩

theorem follows_scalar (mirrors : Mirrors valued interp) (scalar : value.heapIdx = none) :
    Follows (Keeping Shows valued) (pure (value, valued) : ValuedRun (WithValue ConstValue)) (.ok (value, interp)) :=
  follows_shown mirrors (.scalar scalar)

theorem follows_binding (mirrors : Mirrors valued interp) (name : Name) (shown : Shows valued.places value other) :
    Follows (Keeping Shows valued) (pure (.data .unit, valued.extend (bind valued.interp.scope name value)) :
        ValuedRun (WithValue ConstValue))
      (.ok (.data .unit, { interp with scope := bind interp.scope name other })) := by
  have same : SameScope valued.places valued.interp.scope interp.scope _ _ :=
    SameScope.bind ⟨mirrors.locals, rfl, rfl⟩ name shown
  obtain ⟨grows, mirrorsAfter⟩ := mirrors.bound same
  exact follows_ok ⟨.scalar rfl, mirrorsAfter, grows⟩

theorem follows_returning (mirrors : Mirrors valued interp) (shown : Shows valued.places value other) :
    Follows (Keeping Shows valued) (pure (.returnSignal, valued.returning value) : ValuedRun (WithValue ConstValue))
      (.ok (.returnSignal, { interp with returnValue := some other })) :=
  follows_ok ⟨.scalar rfl, ⟨mirrors.locals, mirrors.heap, mirrors.cells, mirrors.steps,
    mirrors.callDepth, mirrors.typeOverrides, .some shown⟩, List.prefix_rfl, List.prefix_rfl⟩

section

variable (valuates : Valuates run interpret)
include valuates

theorem follows_valuedOperands {accept : Nat → ConstValue → Except CompileError Unit}
    (acceptEq : ∀ index places value other, Shows places value other → accept index other = accept index value)
    (operands : List Expr) (index : Nat) {valued : Valued} {interp : Interp}
    (mirrors : Mirrors valued interp) :
    Follows (Keeping ShowsAll valued) (valuedOperands run accept index operands valued)
      (evalOperands interpret accept index operands interp) := by
  induction operands generalizing index valued interp with
  | nil => exact follows_ok (mirrors.start .nil)
  | cons operand operands ih =>
    refine follows_keeping (valuates operand valued interp mirrors) ?_
    intro value other valued interp _ shown mirrors
    change Follows _ (Run.ofExcept (accept index value) >>= _) (accept index other >>= _)
    rw [acceptEq index _ _ _ shown]
    refine follows_shared fun _ _ => ?_
    refine follows_keeping (ih (index + 1) mirrors) ?_
    intro _ _ valued interp grows shownRest mirrors
    exact follows_ok (mirrors.start (.cons (shown.mono grows.places) shownRest))

theorem follows_valuedArgs (args : List Expr) (mirrors : Mirrors valued interp) :
    Follows (Keeping ShowsAll valued) (valuedOperands run acceptAll 0 args valued)
      (evalOperands interpret acceptAll 0 args interp) :=
  follows_valuedOperands valuates (fun _ _ _ _ _ => rfl) args 0 mirrors

theorem follows_valuedStmts (stmts : List Expr) {last plainLast : ConstValue} {valued : Valued}
    {interp : Interp} (mirrors : Mirrors valued interp)
    (shown : Shows valued.places last plainLast) :
    Follows (Keeping Shows valued) (valuedStmts run stmts last valued)
      (evalStmts interpret stmts plainLast interp) := by
  induction stmts generalizing last plainLast valued interp with
  | nil => exact follows_shown mirrors shown
  | cons stmt stmts ih =>
    refine follows_keeping (valuates stmt valued interp mirrors) ?_
    intro value _ valued interp _ shown mirrors
    rcases value with value | _ | _ | _
    · obtain ⟨_, rfl⟩ := shown.data
      exact ih mirrors shown
    all_goals
      cases shown
      exact follows_scalar mirrors rfl

theorem follows_valuedArms {scrutinee shown : ConstValue} (shows : Shows valued.places scrutinee shown)
    (current : scrutinee.heapIdx.any (outdated valued.places) = false)
    (arms : List (Pattern × Expr)) (mirrors : Mirrors valued interp) :
    Follows (Keeping Shows valued) (valuedArms run scrutinee arms valued) (evalArms interpret shown arms interp) := by
  induction arms with
  | nil => exact follows_error _
  | cons arm arms ih =>
    obtain ⟨pattern, body⟩ := arm
    refine follows_bind (follows_matchPatternValue pattern shows current mirrors.heap mirrors.locals) ?_
    intro _ _ same
    cases same with
    | none => exact ih
    | some sameScope =>
      obtain ⟨grows, mirrorsArm⟩ := mirrors.bound sameScope
      exact follows_grows grows (valuates body _ _ mirrorsArm)

end

theorem follows_valuedIteration {body again : Valued → ValuedRun (WithValue ConstValue)}
    {plainBody plainAgain : Interp → Except CompileError (ConstValue × Interp)}
    (mirrors : Mirrors valued interp)
    (followsBody : ∀ valued interp, Mirrors valued interp →
      Follows (Keeping Shows valued) (body valued) (plainBody interp))
    (followsAgain : ∀ valued interp, Mirrors valued interp →
      Follows (Keeping Shows valued) (again valued) (plainAgain interp)) :
    Follows (Keeping Shows valued) (valuedIteration body again valued)
      (if maxSteps < interp.steps + 1 then .error stepBudgetExceeded
      else
        plainBody { interp with steps := interp.steps + 1 } >>= fun
          | (.breakSignal, interp) => .ok (.data .unit, interp)
          | (_, interp) => plainAgain interp) := by
  have stepped : Mirrors { valued with interp := { valued.interp with steps := valued.interp.steps + 1 } }
      { interp with steps := interp.steps + 1 } :=
    ⟨mirrors.locals, mirrors.heap, mirrors.cells, congrArg (· + 1) mirrors.steps,
      mirrors.callDepth, mirrors.typeOverrides, mirrors.returnValue⟩
  have sameSteps := mirrors.steps
  unfold valuedIteration
  dsimp only
  rw [sameSteps]
  split
  · exact follows_error _
  · have grows : Grows valued { valued with interp := { valued.interp with steps := valued.interp.steps + 1 } } :=
      ⟨List.prefix_rfl, List.prefix_rfl⟩
    refine follows_keeping (follows_grows grows (followsBody _ _ (sameSteps ▸ stepped))) ?_
    intro value _ valued interp _ shown mirrors
    rcases value with value | _ | _ | _
    · obtain ⟨_, rfl⟩ := shown.data
      exact followsAgain valued interp mirrors
    · cases shown
      exact follows_scalar mirrors rfl
    all_goals
      cases shown
      exact followsAgain valued interp mirrors

theorem follows_valuedBody (valuates : Valuates run interpret) (place : String) (body : Expr)
    (typeOverrides : List (Name × Ty)) (mirrors : Mirrors valued interp)
    (sameParams : ShowsLocals valued.places params plainParams) :
    Follows (Keeping Shows valued) (valuedBody run place body params typeOverrides valued)
      (runBody interpret place body plainParams typeOverrides interp) := by
  have entered : Mirrors { valued with
        interp := { valued.interp with
            scope := { valued.interp.scope with locals := params }
            typeOverrides := typeOverrides
            callDepth := valued.interp.callDepth + 1 } }
      { interp with
        scope := { interp.scope with locals := plainParams }
        typeOverrides := typeOverrides
        callDepth := interp.callDepth + 1 } :=
    ⟨sameParams, mirrors.heap, mirrors.cells, mirrors.steps, congrArg (· + 1) mirrors.callDepth,
      rfl, mirrors.returnValue⟩
  have ran := valuates body _ _ entered
  refine follows_keeping (follows_grows ?_ ran) ?_
  · exact ⟨List.prefix_rfl, List.prefix_rfl⟩
  intro value _ after interpAfter grows shown mirrorsAfter
  have locals := mirrors.locals.mono grows.places
  have left : Mirrors { after with
        interp := { after.interp with
            scope := { after.interp.scope with locals := valued.interp.scope.locals }
            typeOverrides := valued.interp.typeOverrides
            callDepth := valued.interp.callDepth } }
      { interpAfter with
        scope := { interpAfter.scope with locals := interp.scope.locals }
        typeOverrides := interp.typeOverrides
        callDepth := interp.callDepth } :=
    ⟨locals, mirrorsAfter.heap, mirrorsAfter.cells, mirrorsAfter.steps, mirrors.callDepth,
      mirrors.typeOverrides, mirrorsAfter.returnValue⟩
  rcases value with value | _ | _ | _
  · obtain ⟨_, rfl⟩ := shown.data
    exact follows_ok ⟨shown, left, List.prefix_rfl, List.prefix_rfl⟩
  · cases shown
    exact follows_error _
  · cases shown
    exact follows_error _
  · cases shown
    have returned := mirrorsAfter.returnValue
    simp only
    generalize isReturned : after.interp.returnValue = slot,
      isPlain : interpAfter.returnValue = plainSlot at returned ⊢
    cases returned with
    | none => exact follows_error _
    | some shownReturn =>
      exact follows_ok ⟨shownReturn, ⟨left.locals, left.heap, left.cells, left.steps,
        left.callDepth, left.typeOverrides, .none⟩, List.prefix_rfl, List.prefix_rfl⟩

theorem follows_valuedCall (valuates : Valuates run interpret) (mirrors : Mirrors valued interp)
    {tooDeep : CompileError} {place : String} {body : Expr} {typeOverrides : List (Name × Ty)}
    (sameParams : ShowsLocals valued.places params plainParams) :
    Follows (Keeping Shows valued) (if callDepthLimit ≤ valued.interp.callDepth then Run.ofExcept (.error tooDeep)
      else valuedBody run place body params typeOverrides valued)
      (if callDepthLimit ≤ interp.callDepth then .error tooDeep
      else runBody interpret place body plainParams typeOverrides interp) := by
  rw [mirrors.callDepth]
  split
  · exact follows_error _
  · exact follows_valuedBody valuates place body typeOverrides mirrors sameParams

end Constructs

theorem valuates_evaluateValued (program : Program) (fuel : Nat) :
    Valuates (evaluateValued program fuel) (evaluateComptimeInst program fuel) := by
  induction fuel with
  | zero => exact fun _ _ _ _ => follows_error _
  | succ fuel valuates =>
    intro expr valued interp mirrors
    cases expr with
    | literal value =>
      intro unmarked
      have scalar : (ConstValue.data value).heapIdx = none := by
        simpa [evaluateValued] using unmarked
      exact ⟨_, rfl, mirrors.start (.scalar scalar)⟩
    | strict op operands =>
      refine follows_bind (follows_targetOf mirrors.locals op) ?_
      intro _ plain sameTarget
      refine follows_keeping (follows_valuedOperands valuates (fun index _ _ _ => acceptOperand_eq op index)
          operands 0 mirrors) ?_
      intro values others valued interp grows shown mirrors
      exact follows_apply mirrors program.fieldIndex op (sameTarget.mono grows.places) shown
    | block stmts => exact follows_valuedStmts valuates stmts mirrors (.scalar rfl)
    | alloc name init =>
      refine follows_keeping (valuates init valued interp mirrors) ?_
      intro value other valued interp _ shown mirrors
      cases name with
      | none => exact follows_scalar mirrors rfl
      | some name => exact follows_binding mirrors name shown
    | varRef name =>
      have found := mirrors.locals.rel_lookup name
      simp only [evaluateValued, evaluateComptimeInst, mirrors.typeOverrides]
      generalize lookup valued.interp.scope.locals name = value, lookup interp.scope.locals name = other at found ⊢
      cases found with
      | some shown => exact follows_shown mirrors shown
      | none =>
        cases lookupType program valued.interp.typeOverrides name with
        | some ty => exact follows_scalar mirrors rfl
        | none => exact follows_error _
    | assign name value =>
      refine follows_keeping (valuates value valued interp mirrors) ?_
      intro value other valued interp _ shown mirrors
      exact follows_binding mirrors name shown
    | branch cond thenBlock elseBlock =>
      refine follows_keeping (valuates cond valued interp mirrors) ?_
      intro value other valued interp _ shown mirrors
      cases shown with
      | scalar noCell =>
        rcases value with value | _ | _ | _
        · cases value with
          | bool taken =>
            cases taken with
            | true => exact valuates thenBlock valued interp mirrors
            | false =>
              cases elseBlock with
              | none => exact follows_scalar mirrors rfl
              | some elseBlock => exact valuates elseBlock valued interp mirrors
          | _ => exact follows_error _
        all_goals exact follows_error _
      | _ => exact follows_error _
    | comptime expr => exact valuates expr valued interp mirrors
    | loop cond body =>
      refine follows_keeping (valuates cond valued interp mirrors) ?_
      intro value other valued interp _ shown mirrors
      simp only [shown.asBool_eq]
      refine follows_shared fun taken _ => ?_
      cases taken with
      | false => exact follows_scalar mirrors rfl
      | true =>
        exact follows_valuedIteration mirrors (valuates body) (valuates (.loop cond body))
    | infiniteLoop body =>
      exact follows_valuedIteration mirrors (valuates body) (valuates (.infiniteLoop body))
    | «break» | «continue» => exact follows_scalar mirrors rfl
    | ret value =>
      cases value with
      | none => exact follows_returning mirrors (.scalar rfl)
      | some value =>
        refine follows_keeping (valuates value valued interp mirrors) ?_
        intro value other valued interp _ shown mirrors
        exact follows_returning mirrors shown
    | call name args =>
      simp only [evaluateValued, evaluateComptimeInst]
      cases program.functions name with
      | none => exact follows_error _
      | some info =>
        refine follows_keeping (follows_valuedArgs valuates args mirrors) ?_
        intro values others valued interp _ shown mirrors
        rw [typeOverridesOf_eq info shown]
        exact follows_valuedCall valuates mirrors (showsLocals_callLocals info shown)
    | methodCall receiver method args =>
      refine follows_keeping (valuates receiver valued interp mirrors) ?_
      intro self _ valued interp _ shownSelf mirrors
      refine follows_markIf fun allCurrent => ?_
      have current : self.heapIdx.any (outdated valued.places) = false := by
        simpa using allCurrent
      refine follows_bind (follows_getStruct mirrors.heap shownSelf current) ?_
      rintro ⟨structId, _⟩ ⟨_, others⟩ ⟨rfl, _⟩
      dsimp only
      cases program.methods structId method with
      | none => exact follows_error _
      | some info =>
        refine follows_keeping (follows_valuedArgs valuates args mirrors) ?_
        intro values others valued interp grows shown mirrors
        simp only [mirrors.typeOverrides]
        refine follows_valuedCall valuates mirrors ?_
        exact List.rel_append (List.forall₂_reverse_iff.mpr (shown.zip info.paramNames))
          (.cons ⟨rfl, shownSelf.mono grows.places⟩ .nil)
    | matchOn scrutinee arms =>
      refine follows_keeping (valuates scrutinee valued interp mirrors) ?_
      intro scrutinee plain valued interp _ shown mirrors
      refine follows_markIf fun allCurrent => ?_
      have current : scrutinee.heapIdx.any (outdated valued.places) = false := by
        simpa using allCurrent
      exact follows_valuedArms valuates shown current arms mirrors
    | unsupported => exact follows_error _

/-- In every run that looks into no outdated cell, the interpreter fails where aggregates that
are values fail, and otherwise has their value and variables in its cells.  No cell of theirs
has changed. -/
theorem evaluateComptimeInst_values (program : Program) (fuel : Nat) (expr : Expr)
    (valued : Valued) (interp : Interp) (mirrors : Mirrors valued interp)
    (unmarked : (evaluateValued program fuel expr valued).marked = false) :
    (∀ err, (evaluateValued program fuel expr valued).result = .error err →
      evaluateComptimeInst program fuel expr interp = .error err) ∧
    (∀ value after, (evaluateValued program fuel expr valued).result = .ok (value, after) →
      ∃ other interpAfter, evaluateComptimeInst program fuel expr interp = .ok (other, interpAfter) ∧
          Shows after.places value other ∧ Mirrors after interpAfter ∧ Grows valued after) := by
  have follows := valuates_evaluateValued program fuel expr valued interp mirrors unmarked
  constructor
  · intro err failed
    rw [failed] at follows
    exact follows
  · intro value after returned
    rw [returned] at follows
    obtain ⟨⟨other, interpAfter⟩, interpreted, keeping⟩ := follows
    exact ⟨other, interpAfter, interpreted, keeping.value, keeping.mirrors, keeping.grows⟩

namespace ValueSample

def int (value : BitVec 64) : Expr := .literal (.integer value)

def single (expr : Expr) : Expr := .strict .arrayInit [expr]

def first (array : Name) : Expr := .strict .indexGet [.varRef array, int 0]

def setFirst (array : Name) (value : BitVec 64) : Expr :=
  .strict (.indexSet array) [int 0, int value]

/-- `fn f(a) { a[0] = 9; a }` -/
def program : Program where
  functions name :=
    if name = 0 then some ⟨[(1, false)], false, .block [setFirst 1 9, .varRef 1]⟩ else none
  methods _ _ := none
  fieldIndex _ _ := none
  typeNames _ := none
  selfName := 9

/-- `let a = [1]; let b = a; a[0] = 2; b[0]` -/
def copied : Expr :=
  .block [.alloc (some 1) (single (int 1)), .alloc (some 2) (.varRef 1), setFirst 1 2, first 2]

/-- `let a = [1]; f(a); a[0]` -/
def passed : Expr := .block [.alloc (some 1) (single (int 1)), .call 0 [.varRef 1], first 1]

def valueOf {α : Type} (result : Except CompileError (ConstValue × α)) : Except CompileError ConstValue :=
  result.map Prod.fst

/-- An update through the copy, or by a callee, is read through the original. -/
theorem copies_are_shared : (valueOf (evaluateComptimeInst program 12 copied {}) = .ok (.data (.integer 2)) ∧
      valueOf (evaluateValued program 12 copied {}).result = .ok (.data (.integer 1))) ∧
    (valueOf (evaluateComptimeInst program 12 passed {}) = .ok (.data (.integer 9)) ∧
      valueOf (evaluateValued program 12 passed {}).result = .ok (.data (.integer 1))) := by
  refine ⟨⟨?_, ?_⟩, ?_, ?_⟩ <;> rfl

/-- `let a = f([1]); let b = a; b[0] = 2; b[0]` -/
def handedOn : Expr := .block [ .alloc (some 1) (.call 0 [single (int 1)]), .alloc (some 2) (.varRef 1), setFirst 2 2,
    first 2]

theorem handedOn_values : Mirrors {} {} ∧ ∃ interpAfter, evaluateComptimeInst program 12 handedOn {} =
      .ok (.data (.integer 2), interpAfter) := by
  have initial : Mirrors {} {} := by
    refine ⟨.nil, ⟨rfl, ?_, ?_⟩, rfl, rfl, rfl, rfl, .none⟩
    · intro place member
      cases member
    · intro _ place written
      cases written
  refine ⟨initial, ?_⟩
  have sameRun := evaluateComptimeInst_values program 12 handedOn {} {} initial rfl
  obtain ⟨_, interpAfter, interpreted, shown, -⟩ := sameRun.2 (.data (.integer 2)) _ rfl
  cases shown
  exact ⟨interpAfter, interpreted⟩

end ValueSample

end Comptime

end Gruel
