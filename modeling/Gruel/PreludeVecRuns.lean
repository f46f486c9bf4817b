import Gruel.PreludeVec

/-!
Sequences of calls on the prelude's `Vec(T)` against the same calls on lists:
as long as every step is safe, both give the same results and stop for the same
panics, no access is out of place, and nothing is released twice.
-/

namespace Gruel.PreludeVec

open TotalRun Blocks Traces

variable {V : Type}

structure ListStore (V : Type) where
  released : List V
  vecs : List (Option (List V))

inductive ListResult (V : Type)
  | unit
  | made (v : Nat)
  | value (value : V)
  | bool (value : Bool)
  | ordering (value : Ordering)
  | pointee (elements : List V)

namespace ListStore

def empty : ListStore V := ⟨[], []⟩

def withVec (lists : ListStore V) (v : Nat) (next : List V → Except Stop (ListResult V × ListStore V)) :
    Except Stop (ListResult V × ListStore V) :=
  match held lists.vecs v with
  | some elements => next elements
  | none => .error .moved

def put (lists : ListStore V) (v : Nat) (elements : Option (List V)) : ListStore V :=
  { lists with vecs := lists.vecs.set v elements }

def bind (lists : ListStore V) (elements : List V) : ListResult V × ListStore V :=
  (.made lists.vecs.length, { lists with vecs := lists.vecs ++ [some elements] })

def release (lists : ListStore V) (elements : List V) : ListStore V :=
  { lists with released := lists.released ++ elements }

end ListStore

def listStep (ownership : Ownership) (eq lt : V → V → Bool) (op : Op V) (lists : ListStore V) :
    Except Stop (ListResult V × ListStore V) :=
  match op with
  | .new => .ok (lists.bind [])
  | .withCapacity _ => .ok (lists.bind [])
  | .literal bytes => .ok (lists.bind bytes.elements)
  | .push v value => lists.withVec v fun elements =>
    .ok (.unit, lists.put v (some (elements ++ [value])))
  | .pop v => lists.withVec v fun elements =>
    match elements.getLast? with
    | some last => .ok (.value last, lists.put v (some elements.dropLast))
    | none => .error (.panic "Vec::pop on empty Vec")
  | .reserve v _ => lists.withVec v fun _ => .ok (.unit, lists)
  | .clear v => lists.withVec v fun elements =>
    .ok (.unit, (lists.put v (some [])).release (droppedElements ownership elements))
  | .indexRead v i => lists.withVec v fun elements =>
    match elements[i.toNat]? with
    | some value => .ok (.value value, lists)
    | none => .error (.panic "Vec index out of bounds")
  | .indexWrite v i value => lists.withVec v fun elements =>
    match elements[i.toNat]? with
    | some displaced => .ok (.unit, (lists.put v (some (elements.set i.toNat value))).release
        (droppedElements ownership [displaced]))
    | none => .error (.panic "Vec index out of bounds")
  | .terminatedPtr v s => lists.withVec v fun elements => .ok (.pointee (elements ++ [s]), lists)
  | .clone v => lists.withVec v fun elements => .ok (lists.bind elements)
  | .concat v other => lists.withVec v fun elements =>
    .ok ((lists.put v none).bind (elements ++ other.elements))
  | .extendFromSlice v other => lists.withVec v fun elements =>
    .ok (.unit, lists.put v (some (elements ++ other.elements)))
  | .eq v other => lists.withVec v fun elements => lists.withVec other fun otherElements =>
    .ok (.bool (eqList eq elements otherElements), lists)
  | .cmp v other => lists.withVec v fun elements => lists.withVec other fun otherElements =>
    .ok (.ordering (cmpList lt elements otherElements), lists)
  | .contains v needle => lists.withVec v fun elements =>
    .ok (.bool (containsList eq elements needle.elements), lists)
  | .startsWith v start => lists.withVec v fun elements =>
    .ok (.bool (startsWithList eq start.elements elements), lists)
  | .endsWith v ending => lists.withVec v fun elements =>
    .ok (.bool (endsWithList eq ending.elements elements), lists)
  | .drop v => lists.withVec v fun elements =>
    .ok (.unit, (lists.put v none).release (droppedElements ownership elements))

def listOps (ownership : Ownership) (eq lt : V → V → Bool) (ops : List (Op V)) :
    List (ListResult V × ListStore V) × Option Stop :=
  trace (listStep ownership eq lt) ops ListStore.empty

/-- The methods that the struct of the element type's posture has; string literals are bytes. -/
def Op.Offered (size : Nat) (ownership : Ownership) : Op V → Prop
  | .literal _ => size = 1 ∧ ownership = .copy
  | .new | .withCapacity _ | .push _ _ | .pop _ | .reserve _ _ => True
  | .clear _ | .indexWrite _ _ _ | .drop _ => ownership ≠ .linear
  | _ => ownership = .copy

attribute [grind =] Op.Offered

/-- The condition under which a call keeps to its buffer. -/
def Op.Safe (size : Nat) (op : Op V) (store : VecStore V) : Prop := match op with
  | .withCapacity n => n.toNat * size < usizeLimit
  | .push v _ => ∀ rep, held store.vecs v = some rep → PushSafe size rep
  | .reserve v additional => ∀ rep, held store.vecs v = some rep → ReserveSafe size rep additional.toNat
  | .indexWrite v i _ => ∀ rep, held store.vecs v = some rep → i.toNat < rep.len → rep.cap ≠ 0
  | .terminatedPtr v _ => ∀ rep, held store.vecs v = some rep → TerminateSafe size rep
  | .concat v other => ∀ rep, held store.vecs v = some rep → ConcatSafe size rep other
  | .extendFromSlice v other => ∀ rep, held store.vecs v = some rep → ExtendSafe size rep other
  | _ => True

structure Refines (size : Nat) (store : VecStore V) (lists : ListStore V) : Prop where
  count : store.vecs.length = lists.vecs.length
  holds : ∀ v, Option.Rel (Represents size store.heap.memory) (held store.vecs v) (held lists.vecs v)
  apart : ∀ v w rep other, v ≠ w → held store.vecs v = some rep → held store.vecs w = some other →
    rep.ptr = other.ptr → rep.ptr = .null
  log : store.heap.released = lists.released

def ResultAgrees (size : Nat) (memory : Memory V) : OpResult V → ListResult V → Prop
  | .unit, .unit => True
  | .made v, .made w => v = w
  | .value value, .value expected => value = expected
  | .bool value, .bool expected => value = expected
  | .ordering value, .ordering expected => value = expected
  | .pointer pointer, .pointee elements => ∀ index value, elements[index]? = some value →
      read size memory pointer index = .ok value
  | _, _ => False

def Answers (size : Nat) (outcome : OpResult V × VecStore V) (expected : ListResult V × ListStore V) : Prop :=
  ResultAgrees size outcome.2.heap.memory outcome.1 expected.1 ∧ Refines size outcome.2 expected.2

section Held

variable {α : Type} {vecs : List (Option α)} {v w : Nat}

theorem lt_of_held {rep : α} (here : held vecs v = some rep) : v < vecs.length := by
  by_contra past
  rw [held, List.getElem?_eq_none (by omega)] at here
  cases here

theorem held_set_self (bound : v < vecs.length) (rep : Option α) : held (vecs.set v rep) v = rep := by
  rw [held, List.getElem?_set_self bound, Option.join_some]

theorem held_set_ne (other : v ≠ w) (rep : Option α) : held (vecs.set v rep) w = held vecs w := by
  rw [held, List.getElem?_set_ne other, held]

theorem set_held {rep : α} (here : held vecs v = some rep) : vecs.set v (some rep) = vecs := by
  have bound := lt_of_held here
  rw [held, List.getElem?_eq_getElem bound, Option.join_some] at here
  rw [← here, List.set_getElem_self]

theorem held_append_none : held (vecs ++ [none]) w = held vecs w := by
  rw [held, held]
  by_cases old : w < vecs.length
  · rw [List.getElem?_append_left old]
  · rw [List.getElem?_append_right (by omega), show vecs[w]? = none from List.getElem?_eq_none (by omega)]
    cases w - vecs.length <;> rfl

end Held

variable {after : VecHeap V} {elements : List V} {answer : ListResult V}

section Stores

variable {size : Nat} {store : VecStore V} {lists : ListStore V} {v : Nat}

theorem refines_empty (size : Nat) : Refines size (VecStore.empty : VecStore V) (ListStore.empty : ListStore V) :=
  ⟨rfl, fun _ => .none, (fun _ _ _ _ _ here => nomatch here), rfl⟩

namespace Refines

section

variable (refines : Refines size store lists)
include refines

theorem list_of_held {rep : VecRep} (here : held store.vecs v = some rep) :
    ∃ elements, held lists.vecs v = some elements ∧ Represents size store.heap.memory rep elements := by
  have holds := refines.holds v
  rw [here] at holds
  generalize held lists.vecs v = list at holds
  cases holds with
  | some represents => exact ⟨_, rfl, represents⟩

theorem forget (bound : v < store.vecs.length) : Refines size (store.put v none) (lists.put v none) := by
  have boundList : v < lists.vecs.length := by
    rw [← refines.count]
    exact bound
  refine ⟨?_, ?_, ?_, refines.log⟩
  · simp only [VecStore.put, ListStore.put, List.length_set]
    exact refines.count
  · intro w
    simp only [VecStore.put, ListStore.put]
    by_cases same : v = w
    · subst same
      rw [held_set_self bound, held_set_self boundList]
      exact .none
    · rw [held_set_ne same, held_set_ne same]
      exact refines.holds w
  · intro w x rep other different first second
    have keeps : ∀ w rep, held (store.put v none).vecs w = some rep → held store.vecs w = some rep := by
      intro w rep here
      by_cases same : v = w
      · subst same
        rw [VecStore.put, held_set_self bound] at here
        cases here
      · rwa [VecStore.put, held_set_ne same] at here
    exact refines.apart w x rep other different (keeps w rep first) (keeps x other second)

theorem frame {touched : Ptr} {after : VecHeap V} {released : List V}
    (frame : Frame touched store.heap.memory after.memory)
    (log : after.released = store.heap.released ++ released)
    (free : ∀ w rep, held store.vecs w = some rep → touched = rep.ptr → rep.ptr = .null) :
    Refines size { store with heap := after } (lists.release released) := by
  refine ⟨refines.count, ?_, refines.apart, ?_⟩
  · intro w
    have holds := refines.holds w
    have here := free w
    dsimp only [ListStore.release]
    generalize held store.vecs w = rep at holds here
    generalize held lists.vecs w = list at holds
    cases holds with
    | none => exact .none
    | some represents => exact .some (represents.frame frame (here _ rfl))
  · rw [log, refines.log]
    rfl

theorem insert (bound : v < store.vecs.length) {rep : VecRep} {elements : List V}
    (holds : Represents size store.heap.memory rep elements)
    (own : ∀ w other, held store.vecs w = some other → rep.ptr = other.ptr → rep.ptr = .null) :
    Refines size (store.put v (some rep)) (lists.put v (some elements)) := by
  have boundList : v < lists.vecs.length := by
    rw [← refines.count]
    exact bound
  refine ⟨?_, ?_, ?_, refines.log⟩
  · simp only [VecStore.put, ListStore.put, List.length_set]
    exact refines.count
  · intro w
    simp only [VecStore.put, ListStore.put]
    by_cases same : v = w
    · subst same
      rw [held_set_self bound, held_set_self boundList]
      exact .some holds
    · rw [held_set_ne same, held_set_ne same]
      exact refines.holds w
  · intro w x first second different heldFirst heldSecond shared
    simp only [VecStore.put] at heldFirst heldSecond
    by_cases isFirst : v = w
    · subst isFirst
      rw [held_set_self bound, Option.some.injEq] at heldFirst
      rw [held_set_ne different] at heldSecond
      subst heldFirst
      exact own x second heldSecond shared
    · rw [held_set_ne isFirst] at heldFirst
      by_cases isSecond : v = x
      · subst isSecond
        rw [held_set_self bound, Option.some.injEq] at heldSecond
        subst heldSecond
        rw [shared]
        exact own w first heldFirst shared.symm
      · rw [held_set_ne isSecond] at heldSecond
        exact refines.apart w x first second different heldFirst heldSecond shared

theorem declare : Refines size { store with vecs := store.vecs ++ [none] }
      { lists with vecs := lists.vecs ++ [none] } := by
  refine ⟨by simp [refines.count], ?_, ?_, refines.log⟩
  · intro w
    rw [held_append_none, held_append_none]
    exact refines.holds w
  · intro w x rep other
    rw [held_append_none, held_append_none]
    exact refines.apart w x rep other

end

end Refines

variable {rep : VecRep}

section

variable (refines : Refines size store lists)
include refines

theorem own_of_place {touched place : Ptr}
    (free : ∀ w rep, held store.vecs w = some rep → touched = rep.ptr → rep.ptr = .null)
    (placed : place = .null ∨ place = touched ∨ ∃ id, place = .block id ∧ store.heap.memory.length ≤ id) :
    ∀ w other, held store.vecs w = some other → place = other.ptr → place = .null := by
  intro w other here shared
  rcases placed with vacant | same | ⟨id, fresh, _⟩
  · exact vacant
  · rw [shared]
    exact free w other here (same.symm.trans shared)
  · obtain ⟨_, -, represents⟩ := refines.list_of_held here
    have old := represents.ptr_lt (shared.symm.trans fresh)
    omega

theorem free_of_forget (here : held store.vecs v = some rep) :
    ∀ w other, held (store.put v none).vecs w = some other → rep.ptr = other.ptr → other.ptr = .null := by
  intro w other there shared
  by_cases same : v = w
  · subst same
    rw [VecStore.put, held_set_self (lt_of_held here)] at there
    cases there
  · rw [VecStore.put, held_set_ne same] at there
    rw [← shared]
    exact refines.apart v w rep other same here there shared

theorem Refines.remove (here : held store.vecs v = some rep) {released : List V}
    (frame : Frame rep.ptr store.heap.memory after.memory)
    (log : after.released = store.heap.released ++ released) : Refines size
      ({ store with heap := after }.put v none) ((lists.put v none).release released) :=
  (refines.forget (lt_of_held here)).frame frame log (free_of_forget refines here)

theorem Refines.update {updated : VecRep} (here : held store.vecs v = some rep) {released : List V}
    (did : Updated size rep.ptr store.heap released elements updated after) :
    Refines size ({ store with heap := after }.put v (some updated))
      ((lists.put v (some elements)).release released) := by
  have bound := lt_of_held here
  have removed := refines.remove here did.frame did.log
  have own := own_of_place (refines.forget bound) (free_of_forget refines here) did.place
  have boundNow : v < ({ store with heap := after }.put v none).vecs.length := by
    simpa [VecStore.put] using bound
  have inserted := removed.insert boundNow did.represents own
  simpa [VecStore.put, ListStore.put, ListStore.release, List.set_set] using inserted

theorem Refines.append (holds : Represents size store.heap.memory rep elements)
    (own : ∀ w other, held store.vecs w = some other → rep.ptr = other.ptr → rep.ptr = .null) :
    Answers size (store.bind rep) (lists.bind elements) := by
  refine ⟨refines.count, ?_⟩
  have bound : store.vecs.length < (store.vecs ++ [none]).length := by simp
  have inserted := refines.declare.insert bound holds (by
    intro w other here
    rw [held_append_none] at here
    exact own w other here)
  have placed : (store.vecs ++ [none]).set store.vecs.length (some rep) = store.vecs ++ [some rep] := by simp
  have placedList : (lists.vecs ++ [none]).set store.vecs.length (some elements) =
      lists.vecs ++ [some elements] := by simp [refines.count]
  simp only [VecStore.put, ListStore.put, placed, placedList] at inserted
  exact inserted

theorem Refines.made (made : Made size store.heap elements rep after) :
    Answers size ({ store with heap := after }.bind rep) (lists.bind elements) := by
  have free : ∀ w rep, held store.vecs w = some rep → Ptr.null = rep.ptr → rep.ptr = .null :=
    fun _ _ _ same => same.symm
  have framed := refines.frame made.frame made.log free
  have own := own_of_place refines free made.place
  simpa [ListStore.release] using framed.append made.represents own

theorem withVec_agrees (v : Nat) {next : VecRep → StoreStep V}
    {listNext : List V → Except Stop (ListResult V × ListStore V)}
    (goes : ∀ rep elements, held store.vecs v = some rep → held lists.vecs v = some elements →
      Represents size store.heap.memory rep elements →
      OutcomesAgree (Answers size) (next rep) (listNext elements)) :
    OutcomesAgree (Answers size) (store.withVec v next) (lists.withVec v listNext) := by
  have holds := refines.holds v
  simp only [VecStore.withVec, ListStore.withVec]
  generalize held store.vecs v = rep at holds goes
  generalize held lists.vecs v = list at holds goes
  cases holds with
  | none => exact .stopped Stop.moved
  | some represents => exact goes _ _ rfl rfl represents

end

theorem after_agrees {α : Type} {action : VecRun V α} {post : α → VecHeap V → Prop}
    (yields : Yields action store.heap post) {next : α → VecStore V → OpResult V × VecStore V}
    {expected : ListResult V × ListStore V}
    (goes : ∀ result heap, post result heap → Answers size (next result { store with heap := heap }) expected) :
    OutcomesAgree (Answers size) (store.after action next) (.ok expected) := by
  obtain ⟨result, heap, ran, holds⟩ := yields
  simp only [VecStore.after, ran]
  exact .went (goes result heap holds)

theorem looks_agrees {α : Type} (refines : Refines size store lists) {action : VecRun V α}
    {seen : α} (yields : Yields action store.heap fun result after =>
      result = seen ∧ after = store.heap) {result : α → OpResult V} {expected : ListResult V}
    (agrees : ResultAgrees size store.heap.memory (result seen) expected) :
    OutcomesAgree (Answers size) (store.after action fun seen store => (result seen, store))
      (.ok (expected, lists)) := by
  refine after_agrees yields ?_
  rintro _ _ ⟨rfl, rfl⟩
  exact ⟨agrees, refines⟩

theorem after_stops {α : Type} {action : VecRun V α} {stop : Stop} (stops : action store.heap = .error stop)
    (next : α → VecStore V → OpResult V × VecStore V) :
    OutcomesAgree (Answers size) (store.after action next) (.error stop) := by
  simp only [VecStore.after, stops]
  exact .stopped stop

theorem ListStore.release_nil (lists : ListStore V) : lists.release [] = lists := by
  simp [ListStore.release]

theorem ListStore.put_held (here : held lists.vecs v = some elements) : lists.put v (some elements) = lists := by
  simp [ListStore.put, set_held here]

theorem updates_agrees {α : Type} (refines : Refines size store lists)
    (here : held store.vecs v = some rep) {action : VecRun V α} {vec : α → VecRep}
    {result : α → OpResult V} {expected : ListResult V}
    (yields : Yields action store.heap fun outcome after => Updated size rep.ptr store.heap []
      elements (vec outcome) after ∧ ResultAgrees size after.memory (result outcome) expected) :
    OutcomesAgree (Answers size)
      (store.after action fun outcome store => (result outcome, store.put v (some (vec outcome))))
      (.ok (expected, lists.put v (some elements))) := by
  refine after_agrees yields ?_
  rintro outcome after ⟨updated, agrees⟩
  have updates := refines.update here updated
  rw [ListStore.release_nil] at updates
  exact ⟨agrees, updates⟩

end Stores

section Steps

variable {size : Nat} {ownership : Ownership} {eq lt : V → V → Bool} {store : VecStore V} {lists : ListStore V}

theorem step_agrees (refines : Refines size store lists) {op : Op V}
    (offered : op.Offered size ownership) (safe : op.Safe size store) :
    OutcomesAgree (Answers size) (step size ownership eq lt op store) (listStep ownership eq lt op lists) := by
  cases op with
  | new => exact .went (refines.made (made_vecNew store.heap))
  | withCapacity n =>
    simp only [step, listStep]
    refine after_agrees (yields_vecWithCapacity store.heap n.toNat_lt safe) ?_
    exact fun rep heap made => refines.made made
  | literal bytes =>
    obtain ⟨rfl, -⟩ := offered
    simp only [step, listStep]
    refine after_agrees (yields_stringConst store.heap bytes) ?_
    exact fun rep heap made => refines.made made
  | push v value =>
    refine withVec_agrees refines v ?_
    intro rep elements here _ holds
    refine updates_agrees refines here ?_
    exact yields_mono (yields_vecPush holds (safe rep here) value) fun _ _ did => ⟨did, trivial⟩
  | pop v =>
    refine withVec_agrees refines v ?_
    intro rep elements here _ holds
    rcases List.eq_nil_or_concat elements with rfl | ⟨_, _, rfl⟩
    · exact after_stops (vecPop_empty holds) _
    · rw [List.concat_eq_append] at holds ⊢
      rw [List.getLast?_concat, List.dropLast_concat]
      refine updates_agrees refines here ?_
      exact yields_mono (yields_vecPop holds) fun _ _ did => ⟨did.2, did.1⟩
  | reserve v additional =>
    refine withVec_agrees refines v ?_
    intro rep elements here list holds
    rw [← ListStore.put_held list]
    refine updates_agrees refines here ?_
    exact yields_mono (yields_vecReserve holds (safe rep here)) fun _ _ did => ⟨did.1, trivial⟩
  | clear v =>
    refine withVec_agrees refines v ?_
    intro rep elements here _ holds
    exact after_agrees (yields_vecClear holds ownership) fun _ _ did =>
      ⟨trivial, refines.update here did⟩
  | indexRead v i =>
    refine withVec_agrees refines v ?_
    intro rep elements here _ holds
    generalize found : elements[i.toNat]? = element
    cases element with
    | none => exact after_stops (vecIndexRead_outside holds found) _
    | some value => exact looks_agrees refines (yields_vecIndexRead holds found) rfl
  | indexWrite v i value =>
    refine withVec_agrees refines v ?_
    intro rep elements here _ holds
    generalize found : elements[i.toNat]? = element
    cases element with
    | none => exact after_stops (vecIndexWrite_outside holds ownership found value) _
    | some displaced =>
      have inside : i.toNat < rep.len := by
        rw [holds.len_eq]
        exact (List.getElem?_eq_some_iff.mp found).1
      refine after_agrees (yields_vecIndexWrite holds (safe rep here inside) ownership found
        value) fun _ heap did => ⟨trivial, ?_⟩
      have updates := refines.update here did
      rwa [VecStore.put, set_held here] at updates
  | terminatedPtr v s =>
    refine withVec_agrees refines v ?_
    intro rep elements here list holds
    rw [← ListStore.put_held list]
    refine updates_agrees refines here ?_
    exact yields_vecTerminatedPtr holds (safe rep here) s
  | clone v =>
    refine withVec_agrees refines v ?_
    intro rep elements _ _ holds
    exact after_agrees (yields_vecClone holds) fun _ _ made => refines.made made
  | concat v other =>
    refine withVec_agrees refines v ?_
    intro rep elements here _ holds
    refine after_agrees (yields_vecConcat holds (safe rep here)) fun joined heap did => ?_
    have removed := refines.remove here did.frame did.log
    have own := own_of_place (refines.forget (lt_of_held here)) (free_of_forget refines here) did.place
    rw [ListStore.release_nil] at removed
    exact removed.append did.represents own
  | extendFromSlice v other =>
    refine withVec_agrees refines v ?_
    intro rep elements here _ holds
    refine updates_agrees refines here ?_
    exact yields_mono (yields_vecExtendFromSlice holds (safe rep here)) fun _ _ did =>
      ⟨did, trivial⟩
  | eq v other =>
    refine withVec_agrees refines v ?_
    intro rep elements _ _ holds
    refine withVec_agrees refines other ?_
    intro otherRep otherElements _ _ otherHolds
    exact looks_agrees refines (yields_vecEq holds otherHolds eq) rfl
  | cmp v other =>
    refine withVec_agrees refines v ?_
    intro rep elements _ _ holds
    refine withVec_agrees refines other ?_
    intro otherRep otherElements _ _ otherHolds
    exact looks_agrees refines (yields_vecCmp holds otherHolds lt) rfl
  | contains v needle =>
    refine withVec_agrees refines v ?_
    intro rep elements _ _ holds
    exact looks_agrees refines (yields_vecContains holds eq needle) rfl
  | startsWith v start =>
    refine withVec_agrees refines v ?_
    intro rep elements _ _ holds
    exact looks_agrees refines (yields_vecStartsWith holds eq start) rfl
  | endsWith v ending =>
    refine withVec_agrees refines v ?_
    intro rep elements _ _ holds
    exact looks_agrees refines (yields_vecEndsWith holds eq ending) rfl
  | drop v =>
    refine withVec_agrees refines v ?_
    intro rep elements here _ holds
    exact after_agrees (yields_vecDrop holds ownership) fun _ heap did =>
      ⟨trivial, refines.remove here did.1 did.2⟩

theorem listStep_ne_fault (fault : Fault) (op : Op V) (lists : ListStore V) :
    listStep ownership eq lt op lists ≠ .error (.fault fault) := by
  have uses : ∀ v (next : List V → Except Stop (ListResult V × ListStore V)),
      (∀ elements, next elements ≠ .error (.fault fault)) →
      lists.withVec v next ≠ .error (.fault fault) := by
    intro v next never
    rw [ListStore.withVec]
    cases held lists.vecs v with
    | none => exact nofun
    | some elements => exact never elements
  cases op with
  | new | withCapacity | literal => exact nofun
  | pop v =>
    refine uses v _ fun elements => ?_
    cases elements.getLast? <;> exact nofun
  | indexRead v i | indexWrite v i =>
    refine uses v _ fun elements => ?_
    cases elements[i.toNat]? <;> exact nofun
  | eq v other | cmp v other => exact uses v _ fun _ => uses other _ fun _ => nofun
  | push v | reserve v | clear v | terminatedPtr v | clone v | concat v | extendFromSlice v
  | contains v | startsWith v | endsWith v | drop v => exact uses v _ fun _ => nofun

end Steps

section Conservation

def Op.supplied : Op V → Multiset V
  | .push _ value | .indexWrite _ _ value => {value}
  | _ => 0

/-- The elements a call hands back. -/
def ListResult.returned : ListResult V → Multiset V
  | .value element => {element}
  | _ => 0

def OpResult.returned : OpResult V → Multiset V
  | .value element => {element}
  | _ => 0

def contents (vecs : List (Option (List V))) : Multiset V :=
  (vecs.map fun list => (list.getD [] : Multiset V)).sum

theorem contents_append (vecs : List (Option (List V))) (elements : List V) :
    contents (vecs ++ [some elements]) = contents vecs + elements := by
  simp [contents]

theorem contents_set {vecs : List (Option (List V))} {v : Nat} {old : List V}
    (here : held vecs v = some old) (list : Option (List V)) :
    contents (vecs.set v list) + old = contents vecs + (list.getD [] : Multiset V) := by
  induction vecs generalizing v with
  | nil => simp [held] at here
  | cons first vecs ih =>
    cases v with
    | zero =>
      have first : first = some old := by simpa [held] using here
      subst first
      simp only [contents, List.set_cons_zero, List.map_cons, List.sum_cons, Option.getD_some]
      abel
    | succ v =>
      have inside : held vecs v = some old := by simpa [held] using here
      have rest := ih inside
      simp only [contents, List.set_cons_succ, List.map_cons, List.sum_cons] at rest ⊢
      rw [add_assoc, rest, add_assoc]

def ListStore.accounted (lists : ListStore V) : Multiset V := contents lists.vecs + lists.released

variable {ownership : Ownership} {eq lt : V → V → Bool} {lists next : ListStore V}

theorem ListStore.accounted_release (elements : List V) :
    (lists.release elements).accounted = lists.accounted + elements := by
  simp only [ListStore.accounted, ListStore.release, ← Multiset.coe_add]
  abel

theorem ListStore.accounted_put {v : Nat} {old : List V} (here : held lists.vecs v = some old)
    (list : Option (List V)) :
    (lists.put v list).accounted + old = lists.accounted + (list.getD [] : Multiset V) := by
  have set := contents_set here list
  simp only [ListStore.accounted, ListStore.put]
  rw [add_right_comm, set, add_right_comm]

theorem ListStore.of_withVec {v : Nat} {body : List V → Except Stop (ListResult V × ListStore V)}
    (stepped : lists.withVec v body = .ok (answer, next)) :
    ∃ elements, held lists.vecs v = some elements ∧ body elements = .ok (answer, next) := by
  simp only [ListStore.withVec] at stepped
  generalize held lists.vecs v = list at stepped
  cases list with
  | none => cases stepped
  | some elements => exact ⟨elements, rfl, stepped⟩

theorem set_add_displaced {i : Nat} (bound : i < elements.length) (value : V) :
    (elements.set i value : Multiset V) + {elements[i]} = elements + {value} := by
  have replaced : (elements.set i value : Multiset V) = value ::ₘ (elements.eraseIdx i : List V) :=
    Multiset.coe_eq_coe.mpr (List.set_perm_cons_eraseIdx bound value)
  have whole : (elements : Multiset V) = elements[i] ::ₘ (elements.eraseIdx i : List V) :=
    Multiset.coe_eq_coe.mpr (List.getElem_cons_eraseIdx_perm bound).symm
  rw [replaced, whole, ← Multiset.singleton_add, ← Multiset.singleton_add]
  abel

theorem listStep_conserves {size : Nat} {op : Op V} (offered : op.Offered size ownership)
    (moves : ownership ≠ .copy) (stepped : listStep ownership eq lt op lists = .ok (answer, next)) :
    next.accounted + answer.returned = lists.accounted + op.supplied := by
  have affine : ownership ≠ .linear → ∀ elements : List V, droppedElements ownership elements = elements := by
    intro notLinear elements
    cases ownership with
    | copy => exact absurd rfl moves
    | affine => rfl
    | linear => exact absurd rfl notLinear
  cases op with
  | new | withCapacity =>
    cases stepped
    simp [ListStore.accounted, contents_append, ListResult.returned, Op.supplied]
  | push v value =>
    obtain ⟨elements, here, stepped⟩ := ListStore.of_withVec stepped
    cases stepped
    have put := ListStore.accounted_put here (some (elements ++ [value]))
    rw [Option.getD_some, ← Multiset.coe_add, add_comm (elements : Multiset V), ← add_assoc] at put
    simpa [ListResult.returned, Op.supplied] using add_right_cancel put
  | pop v =>
    obtain ⟨elements, here, stepped⟩ := ListStore.of_withVec stepped
    rcases List.eq_nil_or_concat elements with rfl | ⟨front, _, rfl⟩
    · cases stepped
    · rw [List.concat_eq_append] at here stepped
      rw [List.getLast?_concat, List.dropLast_concat] at stepped
      cases stepped
      have put := ListStore.accounted_put here (some front)
      rw [Option.getD_some, ← Multiset.coe_add, add_comm (front : Multiset V), ← add_assoc] at put
      simpa [ListResult.returned, Op.supplied] using add_right_cancel put
  | reserve v additional =>
    obtain ⟨elements, -, stepped⟩ := ListStore.of_withVec stepped
    cases stepped
    simp [ListResult.returned, Op.supplied]
  | clear v =>
    obtain ⟨elements, here, stepped⟩ := ListStore.of_withVec stepped
    cases stepped
    have put := ListStore.accounted_put here (some [])
    rw [ListStore.accounted_release, affine offered]
    simpa [ListResult.returned, Op.supplied] using put
  | indexWrite v i value =>
    obtain ⟨elements, here, stepped⟩ := ListStore.of_withVec stepped
    generalize found : elements[i.toNat]? = element at stepped
    cases element with
    | none => cases stepped
    | some displaced =>
      cases stepped
      have put := ListStore.accounted_put here (some (elements.set i.toNat value))
      obtain ⟨bound, rfl⟩ := List.getElem?_eq_some_iff.mp found
      rw [ListStore.accounted_release, affine offered]
      refine add_right_cancel (?_ : _ + (elements : Multiset V) = _)
      have moved := set_add_displaced bound value
      simp only [ListResult.returned, Op.supplied, add_zero, Multiset.coe_singleton]
      rw [add_right_comm, put, Option.getD_some, add_assoc, moved, add_assoc]
      abel
  | drop v =>
    obtain ⟨elements, here, stepped⟩ := ListStore.of_withVec stepped
    cases stepped
    have put := ListStore.accounted_put here none
    rw [ListStore.accounted_release, affine offered]
    simpa [ListResult.returned, Op.supplied] using put
  | literal bytes => exact absurd offered.2 moves
  | indexRead | terminatedPtr | clone | concat | extendFromSlice | eq | cmp | contains
  | startsWith | endsWith => exact absurd offered moves

theorem listStep_released (eq lt : V → V → Bool) (op : Op V)
    (stepped : listStep .copy eq lt op lists = .ok (answer, next)) :
    next.released = lists.released := by
  have none : ∀ elements : List V, droppedElements .copy elements = [] := fun _ => rfl
  cases op with
  | new | withCapacity | literal => cases stepped; rfl
  | pop v =>
    obtain ⟨elements, -, stepped⟩ := ListStore.of_withVec stepped
    generalize elements.getLast? = last at stepped
    cases last <;> cases stepped
    rfl
  | indexRead v i =>
    obtain ⟨elements, -, stepped⟩ := ListStore.of_withVec stepped
    generalize elements[i.toNat]? = element at stepped
    cases element <;> cases stepped
    rfl
  | indexWrite v i value =>
    obtain ⟨elements, -, stepped⟩ := ListStore.of_withVec stepped
    generalize elements[i.toNat]? = element at stepped
    cases element <;> cases stepped
    simp [none, ListStore.release_nil, ListStore.put]
  | eq v other | cmp v other =>
    obtain ⟨_, -, stepped⟩ := ListStore.of_withVec stepped
    obtain ⟨_, -, stepped⟩ := ListStore.of_withVec stepped
    cases stepped
    rfl
  | push v | reserve v | terminatedPtr v | clone v | concat v | extendFromSlice v
  | contains v | startsWith v | endsWith v =>
    obtain ⟨_, -, stepped⟩ := ListStore.of_withVec stepped
    cases stepped
    rfl
  | clear v | drop v =>
    obtain ⟨_, -, stepped⟩ := ListStore.of_withVec stepped
    cases stepped
    simp [none, ListStore.release_nil, ListStore.put]

end Conservation

/-- What a sequence of calls on vectors owes to the same calls on lists. -/
structure RunsAsLists (size : Nat) (ownership : Ownership) (eq lt : V → V → Bool)
    (ops : List (Op V)) : Prop where
  /-- The same results, the same panic if any, and after every call every variable holds its list:
  in an unmodified static buffer, or in an allocation with room for its capacity. -/
  agrees : TracesAgree (Answers size) (runOps size ownership eq lt ops) (listOps ownership eq lt ops)
  /-- No access outside a buffer, no write to static storage, no allocation released twice. -/
  inPlace : ∀ fault, (runOps size ownership eq lt ops).2 ≠ some (.fault fault)
  /-- What was released and what was handed back is no more than what was given. -/
  once : ownership ≠ .copy → ∀ before answer store after,
    (runOps size ownership eq lt ops).1 = before ++ (answer, store) :: after →
    (store.heap.released : Multiset V) + ((before ++ [(answer, store)]).map fun outcome => outcome.1.returned).sum ≤
        (ops.map Op.supplied).sum
  copied : ownership = .copy → ∀ outcome ∈ (runOps size ownership eq lt ops).1, outcome.2.heap.released = []

theorem Answers.returned_eq {size : Nat} {outcome : OpResult V × VecStore V}
    {expected : ListResult V × ListStore V} (answers : Answers size outcome expected) :
    outcome.1.returned = expected.1.returned := by
  have agrees := answers.1
  generalize outcome.1 = result at agrees
  generalize expected.1 = wanted at agrees
  cases result <;> cases wanted <;> first
    | exact agrees.elim
    | rfl
    | exact congrArg (fun element => ({element} : Multiset V)) agrees

theorem map_returned_eq {size : Nat} {outcomes : List (OpResult V × VecStore V)}
    {expected : List (ListResult V × ListStore V)}
    (answers : List.Forall₂ (Answers size) outcomes expected) :
    outcomes.map (fun outcome => outcome.1.returned) = expected.map fun outcome => outcome.1.returned := by
  induction answers with
  | nil => rfl
  | cons here later ih => rw [List.map_cons, List.map_cons, ih, Answers.returned_eq here]

/-- In every run whose steps are all safe, vectors do what lists do. -/
theorem safe_runs_refine_lists (size : Nat) (ownership : Ownership) (eq lt : V → V → Bool)
    (ops : List (Op V)) (offered : ∀ op ∈ ops, op.Offered size ownership)
    (safe : Throughout (step size ownership eq lt) (Op.Safe size) ops VecStore.empty) :
    RunsAsLists size ownership eq lt ops := by
  have agrees : TracesAgree (Answers size) (runOps size ownership eq lt ops) (listOps ownership eq lt ops) :=
    tracesAgree_of_steps (fun _ _ answers => answers.2)
      (fun op member _ _ refines safe => step_agrees refines (offered op member) safe)
      (refines_empty size) safe
  refine ⟨agrees, ?_, ?_, ?_⟩
  · intro fault
    rw [agrees.stop]
    exact trace_stop_ne (listStep_ne_fault fault) ops ListStore.empty
  · intro moves before answer store after split
    obtain ⟨before', outcome', after', splitList, earlier, here⟩ := agrees.split split
    have balances : ∀ op ∈ ops, ∀ (lists : ListStore V) answer next,
        listStep ownership eq lt op lists = .ok (answer, next) →
        next.accounted + answer.returned ≤ lists.accounted + op.supplied :=
      fun op member lists answer next stepped =>
        le_of_eq (listStep_conserves (offered op member) moves stepped)
    have accounts := trace_accounts balances splitList
    have same : (before ++ [(answer, store)]).map (fun outcome => outcome.1.returned) =
        (before' ++ [outcome']).map fun outcome => outcome.1.returned :=
      map_returned_eq (List.rel_append earlier (.cons here .nil))
    have log : store.heap.released = outcome'.2.released := here.2.log
    have released : (outcome'.2.released : Multiset V) ≤ outcome'.2.accounted :=
      le_add_left (le_refl _)
    rw [same, log]
    calc (outcome'.2.released : Multiset V) +
          ((before' ++ [outcome']).map fun outcome => outcome.1.returned).sum
        ≤ outcome'.2.accounted + ((before' ++ [outcome']).map fun outcome => outcome.1.returned).sum :=
            add_le_add_left released _
      _ ≤ ListStore.empty.accounted + (ops.map Op.supplied).sum := accounts
      _ = (ops.map Op.supplied).sum := by simp [ListStore.accounted, ListStore.empty, contents]
  · rintro rfl outcome member
    have keeps : ∀ op (lists : ListStore V) answer next, lists.released = [] →
        listStep .copy eq lt op lists = .ok (answer, next) → next.released = [] :=
      fun op lists answer next kept stepped => (listStep_released eq lt op stepped).trans kept
    have start : (ListStore.empty : ListStore V).released = [] := rfl
    have never : ∀ expected ∈ (listOps .copy eq lt ops).1, expected.2.released = [] :=
      trace_invariant keeps start
    obtain ⟨before, after, split⟩ := List.append_of_mem member
    obtain ⟨before', expected, after', splitList, -, here⟩ := agrees.split split
    rw [here.2.log]
    exact never expected (by rw [splitList]; simp)

namespace VecSample

/-- A byte vector that is made, filled past its first byte and popped. -/
def kept : List (Op UInt8) := [.withCapacity 2, .push 0 104, .push 0 105, .pop 0]

theorem kept_refines : RunsAsLists 1 .copy (· == ·) (· < ·) kept := by
  refine safe_runs_refine_lists 1 .copy (· == ·) (· < ·) kept ?_ ?_
  · simp [kept, Op.Offered]
  · refine ⟨(by decide : 2 * 1 < usizeLimit), fun _ _ made => ?_⟩
    cases made
    refine ⟨fun rep here => ?_, fun _ _ pushed => ?_⟩
    · cases here
      exact ⟨by decide, by decide⟩
    cases pushed
    refine ⟨fun rep here => ?_, fun _ _ pushed => ?_⟩
    · cases here
      exact ⟨by decide, by decide⟩
    exact ⟨trivial, fun _ _ _ => trivial⟩

/-- The bytes of a string literal, and one more byte after them. -/
def literalPush : List (Op UInt8) := [.literal ⟨[104], by decide⟩, .push 0 105]

/-- A capacity whose size in bytes wraps around to zero. -/
def wrappedCapacity : List (Op UInt64) := [.withCapacity 2305843009213693952, .push 0 7]

theorem not_all_runs_refine_lists : (∀ op ∈ literalPush, op.Offered 1 .copy) ∧
      ¬ RunsAsLists 1 .copy (· == ·) (· < ·) literalPush ∧
      (∀ op ∈ wrappedCapacity, op.Offered 8 .copy) ∧
      ¬ RunsAsLists 8 .copy (· == ·) (· < ·) wrappedCapacity := by
  refine ⟨by simp [literalPush, Op.Offered], ?_, by simp [wrappedCapacity, Op.Offered], ?_⟩
  · intro runs
    exact runs.inPlace .write rfl
  · intro runs
    exact runs.inPlace .write rfl

end VecSample

end Gruel.PreludeVec
