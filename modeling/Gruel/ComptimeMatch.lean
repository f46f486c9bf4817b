import Gruel.ComptimeMatchCore

/-!
When the interpreter's `match`, which reads only the outer level of a pattern, takes the
arm the run-time match takes.
-/

namespace Gruel

namespace Comptime

attribute [local simp] matchPatternTree

def stops (names : PatternNames) (scrutinee : ConstValue) (pattern : RirPattern) : Bool :=
  match pattern, scrutinee with
  | .wildcard _, _ => true
  | .int expected _, .data (.integer value) => value == expected
  | .bool expected _, .data (.bool value) => value == expected
  | .path _ typeName variant _, .data (.enumVariant enumId variantIdx)
  | .path _ typeName variant _, .data (.enumData enumId variantIdx _)
  | .path _ typeName variant _, .data (.enumStruct enumId variantIdx _)
  | .dataVariant _ typeName variant _ _, .data (.enumData enumId variantIdx _)
  | .structVariant _ typeName variant _ _, .data (.enumStruct enumId variantIdx _) =>
    sameVariant (names.variant typeName variant) enumId variantIdx
  | .ident .., _ | .tuple .., _ | .struct .., _ | .comptimeUnrollArm .., _ => true
  | _, _ => false

def isHandled : RirPattern → Bool
  | .ident .. | .tuple .. | .struct .. => false
  | _ => true

def Listed (fields : List ConstValue) : Nat → List RirPatternBinding → Prop
  | _, [] => True
  | index, binding :: bindings =>
    ((boundName binding).isSome → index < fields.length) ∧ Listed fields (index + 1) bindings

def StructListed (findField : Spur → Option Nat) (fields : List ConstValue) : List RirStructPatternBinding → Prop
  | [] => True
  | .mk fieldName binding :: bindings =>
    ((boundName binding).isSome → ((findField fieldName).bind (fields[·]?)).isSome) ∧
      StructListed findField fields bindings

def subPatternOf : RirPatternBinding → Option RirPattern
  | .mk _ _ _ subPattern => subPattern

section Conditions

variable (names : PatternNames) (heap : List (HeapItem ConstValue))

/-- Sub-patterns match and bind nothing, and a name stands at its field's place although the
interpreter counts `..` as one. -/
def Flat (fields : List ConstValue) : Nat → Nat → List RirPatternBinding → Prop
  | _, _, [] => True
  | index, position, binding :: bindings =>
    if isRest names binding then
      Flat fields (index + 1) (fields.length - bindings.length) bindings
    else
      ∃ value, fields[position]? = some value ∧ matchSubPattern names heap (subPatternOf binding) value = some [] ∧
        ((boundName binding).isSome → fields[index]? = some value) ∧
        Flat fields (index + 1) (position + 1) bindings

def StructFlat (findField : Spur → Option Nat) (fields : List ConstValue) : List RirStructPatternBinding → Prop
  | [] => True
  | .mk fieldName binding :: bindings =>
    if isRest names binding then StructFlat findField fields bindings
    else
      ∃ value, (findField fieldName).bind (fields[·]?) = some value ∧
        matchSubPattern names heap (subPatternOf binding) value = some [] ∧
        StructFlat findField fields bindings

def Rejected (pattern : RirPattern) (scrutinee : ConstValue) : Prop := match pattern, scrutinee with
  | .dataVariant _ _ _ bindings _, .data (.enumData _ _ heapIdx) =>
    ∀ fields, heap[heapIdx]? = some (.enumData fields) → ¬ Listed fields 0 bindings
  | .structVariant _ _ _ fieldBindings _, .data (.enumStruct enumId variantIdx heapIdx) =>
    ∀ fields, heap[heapIdx]? = some (.enumStruct fields) →
      ¬ StructListed (names.findField enumId variantIdx) fields fieldBindings
  | .comptimeUnrollArm .., _ => True
  | _, _ => False

/-- Below its outer level the pattern has nothing to test or to bind that the interpreter
misses. -/
def FlatPattern (pattern : RirPattern) (scrutinee : ConstValue) : Prop :=
  match pattern, scrutinee with
  | .dataVariant _ _ _ bindings _, .data (.enumData _ _ heapIdx) =>
    ∀ fields, heap[heapIdx]? = some (.enumData fields) → Flat names heap fields 0 0 bindings
  | .structVariant _ _ _ fieldBindings _, .data (.enumStruct enumId variantIdx heapIdx) =>
    ∀ fields, heap[heapIdx]? = some (.enumStruct fields) →
      StructFlat names heap (names.findField enumId variantIdx) fields fieldBindings
  | _, _ => True

/-- A pattern with positions, on a value whose variant has none: the interpreter passes it
over. -/
def Missed (pattern : RirPattern) (scrutinee : ConstValue) : Prop := match pattern with
  | .dataVariant .. => (matchPatternTree names heap pattern scrutinee).isSome
  | _ => False

def FollowsRuntime (scrutinee : ConstValue) (arms : List RirPattern) : Prop :=
  let passed := arms.takeWhile fun pattern => !stops names scrutinee pattern
  let noneMissed := ∀ pattern ∈ passed, ¬ Missed names heap pattern scrutinee
  match arms.find? (stops names scrutinee) with
  | none => noneMissed
  | some pattern =>
    isHandled pattern = true ∧ (Rejected names heap pattern scrutinee ∨
        noneMissed ∧ FlatPattern names heap pattern scrutinee)

end Conditions

/-- No unreachable branch, and where an arm is taken it is the first that matches, with its
components bound. -/
def ChoosesRuntimeArm (names : PatternNames) (scrutinee : ConstValue) (scope : Scope ConstValue)
    (arms : List RirPattern) : Prop :=
  selectArm names scrutinee scope 0 arms ≠ .error .unreachable ∧
    ∀ chosen, selectArm names scrutinee scope 0 arms = .ok chosen → chosen = firstMatch names scrutinee scope 0 arms

def namedFields (fields : List ConstValue) : Nat → List RirPatternBinding → List (Name × ConstValue)
  | _, [] => []
  | index, binding :: bindings =>
    ((boundName binding).bind fun name => fields[index]?.map (name, ·)).toList ++
      namedFields fields (index + 1) bindings

def namedStructFields (findField : Spur → Option Nat) (fields : List ConstValue) :
    List RirStructPatternBinding → List (Name × ConstValue)
  | [] => []
  | .mk fieldName binding :: bindings =>
    ((boundName binding).bind fun name =>
      ((findField fieldName).bind (fields[·]?)).map (name, ·)).toList ++
      namedStructFields findField fields bindings

attribute [grind =] stops bindData bindStruct Rejected FlatPattern

theorem bindAll_append (scope : Scope ConstValue) (first second : List (Name × ConstValue)) :
    bindAll scope (first ++ second) = bindAll (bindAll scope first) second := by
  simp [bindAll]

theorem locals_bindAll (scope : Scope ConstValue) (bound : List (Name × ConstValue)) :
    (bindAll scope bound).locals = bound.reverse ++ scope.locals := by
  induction bound generalizing scope with
  | nil => rfl
  | cons entry bound ih =>
    change (bindAll (bind scope entry.1 entry.2) bound).locals = _
    rw [ih]
    simp [bind]

theorem bindAll_injective {scope : Scope ConstValue} {first second : List (Name × ConstValue)}
    (same : bindAll scope first = bindAll scope second) : first = second := by
  have locals := congrArg Scope.locals same
  rw [locals_bindAll, locals_bindAll, List.append_left_inj] at locals
  exact List.reverse_injective locals

theorem bindData_of_listed (fields : List ConstValue) (bindings : List RirPatternBinding) :
    ∀ (index : Nat) (scope : Scope ConstValue), Listed fields index bindings →
      bindData fields index bindings scope = .ok (bindAll scope (namedFields fields index bindings)) := by
  induction bindings with
  | nil =>
    intro index scope _
    rfl
  | cons binding bindings ih =>
    intro index scope listed
    cases named : boundName binding with
    | none =>
      simp only [bindData, namedFields, named, Option.bind_none, Option.toList_none, List.nil_append]
      exact ih _ _ listed.2
    | some name =>
      have below : index < fields.length := listed.1 (by rw [named]; rfl)
      have found : fields[index]? = some fields[index] := List.getElem?_eq_getElem below
      simp only [bindData, namedFields, named, found, Option.bind_some, Option.map_some,
        Option.toList_some, bindAll_append]
      exact ih _ _ listed.2

theorem bindData_of_not_listed (fields : List ConstValue) (bindings : List RirPatternBinding) :
    ∀ (index : Nat) (scope : Scope ConstValue), ¬ Listed fields index bindings →
      ∃ error, bindData fields index bindings scope = .error (.failed error) := by
  induction bindings with
  | nil =>
    intro index scope unlisted
    exact absurd trivial unlisted
  | cons binding bindings ih =>
    intro index scope unlisted
    cases named : boundName binding with
    | none =>
      simp only [bindData, named]
      apply ih
      intro listed
      exact unlisted ⟨by simp [named], listed⟩
    | some name =>
      simp only [bindData, named]
      cases found : fields[index]? with
      | none => exact ⟨_, rfl⟩
      | some value =>
        apply ih
        intro listed
        refine unlisted ⟨fun _ => ?_, listed⟩
        exact (List.getElem?_eq_some_iff.mp found).1

theorem bindStruct_of_listed (findField : Spur → Option Nat) (fields : List ConstValue)
    (bindings : List RirStructPatternBinding) :
    ∀ scope : Scope ConstValue, StructListed findField fields bindings → bindStruct findField fields bindings scope =
        .ok (bindAll scope (namedStructFields findField fields bindings)) := by
  induction bindings with
  | nil =>
    intro scope _
    rfl
  | cons entry bindings ih =>
    obtain ⟨_, binding⟩ := entry
    intro scope listed
    cases named : boundName binding with
    | none =>
      simp only [bindStruct, namedStructFields, named, Option.bind_none, Option.toList_none, List.nil_append]
      exact ih _ listed.2
    | some name =>
      obtain ⟨_, found⟩ := Option.isSome_iff_exists.mp (listed.1 (by rw [named]; rfl))
      obtain ⟨_, isField, atIndex⟩ := Option.bind_eq_some_iff.mp found
      simp only [bindStruct, namedStructFields, named, isField, atIndex, Option.bind_some,
        Option.map_some, Option.toList_some, bindAll_append]
      exact ih _ listed.2

theorem bindStruct_of_not_listed (findField : Spur → Option Nat) (fields : List ConstValue)
    (bindings : List RirStructPatternBinding) :
    ∀ scope : Scope ConstValue, ¬ StructListed findField fields bindings →
      ∃ error, bindStruct findField fields bindings scope = .error (.failed error) := by
  induction bindings with
  | nil =>
    intro scope unlisted
    exact absurd trivial unlisted
  | cons entry bindings ih =>
    obtain ⟨fieldName, binding⟩ := entry
    intro scope unlisted
    cases named : boundName binding with
    | none =>
      simp only [bindStruct, named]
      apply ih
      intro listed
      exact unlisted ⟨by simp [named], listed⟩
    | some name =>
      simp only [bindStruct, named]
      cases isField : findField fieldName with
      | none => exact ⟨_, rfl⟩
      | some index =>
        cases found : fields[index]? with
        | none => exact ⟨.panic, by simp [found]⟩
        | some value =>
          simp only [found]
          apply ih
          intro listed
          exact unlisted ⟨by simp [isField, found], listed⟩

section Flatness

variable {names : PatternNames} {heap : List (HeapItem ConstValue)}
variable {fields : List ConstValue} {bindings : List RirPatternBinding}
variable {binding : RirPatternBinding} {findField : Spur → Option Nat}

theorem boundName_of_isRest (rest : isRest names binding = true) : boundName binding = none := by
  obtain ⟨isWildcard, _⟩ := binding
  cases isWildcard with
  | true => rfl
  | false => cases rest

theorem matchBinding_eq_some_iff {value : ConstValue} {bound : List (Name × ConstValue)} :
    matchBinding names heap binding value = some bound ↔
      ∃ nested, matchSubPattern names heap (subPatternOf binding) value = some nested ∧
        bound = ((boundName binding).map (·, value)).toList ++ nested := by
  obtain ⟨isWildcard, isMut, name, subPattern⟩ := binding
  have sameName : boundName (.mk isWildcard isMut name none) = boundName (.mk isWildcard isMut name subPattern) := by
    cases isWildcard <;> rfl
  simp only [matchBinding, subPatternOf, sameName]
  cases nested : matchSubPattern names heap subPattern value with
  | none => simp
  | some nested =>
    cases boundName (.mk isWildcard isMut name subPattern) <;> simp [eq_comm]

theorem namedCount_le_length : ∀ {position : Nat} {bound : List (Name × ConstValue)},
      matchBindings names heap fields position bindings = some bound →
      (bindings.filterMap boundName).length ≤ bound.length := by
  induction bindings with
  | nil =>
    simp
  | cons binding bindings ih =>
    intro position bound matched
    simp only [matchBindings] at matched
    split at matched
    · next rest =>
        rw [List.filterMap_cons_none (boundName_of_isRest rest)]
        exact ih matched
    · split at matched
      · cases matched
      · obtain ⟨_, headMatched, others⟩ := Option.bind_eq_some_iff.mp matched
        obtain ⟨_, tailMatched, isBound⟩ := Option.bind_eq_some_iff.mp others
        obtain ⟨_, _, rfl⟩ := matchBinding_eq_some_iff.1 headMatched
        cases isBound
        have counted := ih tailMatched
        cases named : boundName binding with
        | none => simp [List.filterMap_cons_none named]; omega
        | some name => simp [List.filterMap_cons_some named]; omega

theorem length_namedFields : ∀ {index : Nat}, Listed fields index bindings →
      (namedFields fields index bindings).length = (bindings.filterMap boundName).length := by
  induction bindings with
  | nil =>
    intro index _
    rfl
  | cons binding bindings ih =>
    intro index listed
    cases named : boundName binding with
    | none => simp [namedFields, named, List.filterMap_cons_none named, ih listed.2]
    | some name =>
      have below : index < fields.length := listed.1 (by rw [named]; rfl)
      simp [namedFields, named, List.filterMap_cons_some named, ih listed.2, below]

theorem head_eq_of_append_eq {α : Type} {first second nested others tail : List α}
    (sameHead : first.length = second.length) (longEnough : tail.length ≤ others.length)
    (same : first ++ nested ++ others = second ++ tail) :
    first = second ∧ nested = [] ∧ others = tail := by
  have lengths := congrArg List.length same
  simp only [List.length_append] at lengths
  have noNested : nested = [] := List.length_eq_zero_iff.mp (by omega)
  subst noNested
  rw [List.append_nil] at same
  obtain ⟨heads, tails⟩ := List.append_inj same sameHead
  exact ⟨heads, rfl, tails⟩

theorem matchBindings_eq_named_iff : ∀ {index position : Nat}, Listed fields index bindings →
      (matchBindings names heap fields position bindings = some (namedFields fields index bindings) ↔
        Flat names heap fields index position bindings) := by
  induction bindings with
  | nil =>
    simp [matchBindings, namedFields, Flat]
  | cons binding bindings ih =>
    intro index position listed
    simp only [matchBindings, Flat]
    by_cases rest : isRest names binding = true
    · simp only [rest, if_true, namedFields, boundName_of_isRest rest, Option.bind_none,
        Option.toList_none, List.nil_append]
      exact ih listed.2
    · rw [if_neg rest, if_neg rest]
      cases found : fields[position]? with
      | none => simp
      | some value =>
        have tails : matchBindings names heap fields (position + 1) bindings =
            some (namedFields fields (index + 1) bindings) ↔
            Flat names heap fields (index + 1) (position + 1) bindings := ih listed.2
        constructor
        · intro matched
          obtain ⟨head, headMatched, others⟩ := Option.bind_eq_some_iff.mp matched
          obtain ⟨_, tailMatched, isBound⟩ := Option.bind_eq_some_iff.mp others
          obtain ⟨_, nestedMatched, rfl⟩ := matchBinding_eq_some_iff.1 headMatched
          have counted := namedCount_le_length tailMatched
          rw [← length_namedFields listed.2] at counted
          have sameHead : ((boundName binding).map (·, value)).toList.length = ((boundName binding).bind fun name =>
              fields[index]?.map (name, ·)).toList.length := by
            cases named : boundName binding with
            | none => rfl
            | some name =>
              have below : index < fields.length := listed.1 (by rw [named]; rfl)
              simp [below]
          obtain ⟨heads, noNested, sameTail⟩ :=
            head_eq_of_append_eq sameHead counted (Option.some.inj isBound)
          refine ⟨value, rfl, noNested ▸ nestedMatched, ?_, tails.mp (sameTail ▸ tailMatched)⟩
          intro isNamed
          obtain ⟨name, named⟩ := Option.isSome_iff_exists.mp isNamed
          have below : index < fields.length := listed.1 isNamed
          simp [named, below] at heads
          simp [below, heads]
        · rintro ⟨_, isOther, nestedMatched, sameValue, flat⟩
          cases isOther
          have head := matchBinding_eq_some_iff.2 ⟨[], nestedMatched, rfl⟩
          simp only [head, tails.mpr flat, Option.bind_eq_bind, Option.bind_some, namedFields, List.append_nil]
          cases named : boundName binding with
          | none => rfl
          | some name =>
            have atIndex := sameValue (by rw [named]; rfl)
            simp [atIndex]

theorem namedStructCount_le_length {bindings : List RirStructPatternBinding} : ∀ {bound : List (Name × ConstValue)},
      matchStructBindings names heap findField fields bindings = some bound →
      (namedStructFields findField fields bindings).length ≤ bound.length := by
  induction bindings with
  | nil =>
    simp [namedStructFields]
  | cons entry bindings ih =>
    obtain ⟨_, binding⟩ := entry
    intro bound matched
    simp only [matchStructBindings] at matched
    split at matched
    · next rest =>
        simp only [namedStructFields, boundName_of_isRest rest, Option.bind_none, Option.toList_none, List.nil_append]
        exact ih matched
    · split at matched
      · cases matched
      · next found =>
          obtain ⟨_, headMatched, others⟩ := Option.bind_eq_some_iff.mp matched
          obtain ⟨_, tailMatched, isBound⟩ := Option.bind_eq_some_iff.mp others
          obtain ⟨_, _, rfl⟩ := matchBinding_eq_some_iff.1 headMatched
          cases isBound
          have counted := ih tailMatched
          cases named : boundName binding with
          | none => simp [namedStructFields, named]; omega
          | some name => simp [namedStructFields, named, found]; omega

theorem matchStructBindings_eq_named_iff {bindings : List RirStructPatternBinding} :
    matchStructBindings names heap findField fields bindings = some (namedStructFields findField fields bindings) ↔
      StructFlat names heap findField fields bindings := by
  induction bindings with
  | nil => simp [matchStructBindings, namedStructFields, StructFlat]
  | cons entry bindings ih =>
    obtain ⟨fieldName, binding⟩ := entry
    simp only [matchStructBindings, StructFlat]
    by_cases rest : isRest names binding = true
    · simp only [rest, if_true, namedStructFields, boundName_of_isRest rest, Option.bind_none,
        Option.toList_none, List.nil_append]
      exact ih
    · rw [if_neg rest, if_neg rest]
      cases found : (findField fieldName).bind (fields[·]?) with
      | none => simp
      | some value =>
        have sameHead : ((boundName binding).bind fun name =>
            ((findField fieldName).bind (fields[·]?)).map (name, ·)) =
            (boundName binding).map (·, value) := by
          rw [found]
          cases boundName binding <;> rfl
        constructor
        · intro matched
          obtain ⟨head, headMatched, others⟩ := Option.bind_eq_some_iff.mp matched
          obtain ⟨_, tailMatched, isBound⟩ := Option.bind_eq_some_iff.mp others
          obtain ⟨_, nestedMatched, rfl⟩ := matchBinding_eq_some_iff.1 headMatched
          have counted := namedStructCount_le_length tailMatched
          rw [namedStructFields, sameHead] at isBound
          obtain ⟨_, noNested, sameTail⟩ :=
            head_eq_of_append_eq rfl counted (Option.some.inj isBound)
          exact ⟨value, rfl, noNested ▸ nestedMatched, ih.mp (sameTail ▸ tailMatched)⟩
        · rintro ⟨_, isOther, nestedMatched, flat⟩
          cases isOther
          have head := matchBinding_eq_some_iff.2 ⟨[], nestedMatched, rfl⟩
          simp only [head, ih.mpr flat, Option.bind_eq_bind, Option.bind_some,
            namedStructFields, sameHead, List.append_nil]

end Flatness

section Arms

variable {names : PatternNames} {scope : Scope ConstValue} {scrutinee : ConstValue}
variable {pattern : RirPattern} {passed arms rest : List RirPattern}
variable {module : Option InstRef} {typeName variant : Spur} {enumId : EnumId}
  {variantIdx heapIdx : Nat} {after : Scope ConstValue}

variable {heap : List (HeapItem ConstValue)}

/-- What the interpreter binds before it runs the arm's body. -/
def boundByArm (names : PatternNames) (heap : List (HeapItem ConstValue)) (pattern : RirPattern)
    (scrutinee : ConstValue) : List (Name × ConstValue) :=
  match pattern, scrutinee with
  | .dataVariant _ _ _ bindings _, .data (.enumData _ _ heapIdx) =>
    match heap[heapIdx]? with
    | some (.enumData fields) => namedFields fields 0 bindings
    | _ => []
  | .structVariant _ _ _ fieldBindings _, .data (.enumStruct enumId variantIdx heapIdx) =>
    match heap[heapIdx]? with
    | some (.enumStruct fields) =>
      namedStructFields (names.findField enumId variantIdx) fields fieldBindings
    | _ => []
  | _, _ => []

theorem matchArm_of_not_stops (goesOn : stops names scrutinee pattern = false) :
    matchArm names pattern scrutinee scope = .ok none := by
  unfold stops at goesOn
  unfold matchArm
  split at goesOn <;> simp_all

theorem matchArm_of_not_handled (unhandled : isHandled pattern = false) :
    matchArm names pattern scrutinee scope = .error .unreachable := by
  cases pattern <;> first | rfl | cases unhandled

theorem matchArm_of_rejected (stopped : stops names scrutinee pattern = true)
    (rejected : Rejected names scope.heap pattern scrutinee) :
    ∃ error, matchArm names pattern scrutinee scope = .error (.failed error) := by
  unfold Rejected at rejected
  split at rejected
  · next typeName variant bindings _ enumId variantIdx heapIdx =>
      have same : sameVariant (names.variant typeName variant) enumId variantIdx = true := stopped
      simp only [matchArm, same, if_true]
      split
      · next fields isPayload =>
          obtain ⟨error, failed⟩ :=
            bindData_of_not_listed fields bindings 0 scope (rejected fields isPayload)
          exact ⟨error, by rw [failed]; rfl⟩
      · exact ⟨_, rfl⟩
      · exact ⟨_, rfl⟩
  · next typeName variant bindings _ enumId variantIdx heapIdx =>
      have same : sameVariant (names.variant typeName variant) enumId variantIdx = true := stopped
      simp only [matchArm, same, if_true]
      split
      · next fields isPayload =>
          obtain ⟨error, failed⟩ := bindStruct_of_not_listed _ fields bindings scope (rejected fields isPayload)
          exact ⟨error, by rw [failed]; rfl⟩
      · exact ⟨_, rfl⟩
      · exact ⟨_, rfl⟩
  · exact ⟨_, rfl⟩
  · cases rejected

theorem listed_of_not_rejected {bindings : List RirPatternBinding} {span : Span}
    (accepted : ¬ Rejected names heap (.dataVariant module typeName variant bindings span)
      (.data (.enumData enumId variantIdx heapIdx))) :
    ∃ fields, heap[heapIdx]? = some (.enumData fields) ∧ Listed fields 0 bindings := by
  simpa [Rejected, not_forall, not_not, exists_prop] using accepted

theorem structListed_of_not_rejected {bindings : List RirStructPatternBinding} {span : Span}
    (accepted : ¬ Rejected names heap (.structVariant module typeName variant bindings span)
      (.data (.enumStruct enumId variantIdx heapIdx))) :
    ∃ fields, heap[heapIdx]? = some (.enumStruct fields) ∧
      StructListed (names.findField enumId variantIdx) fields bindings := by
  simpa [Rejected, not_forall, not_not, exists_prop] using accepted

theorem matchArm_of_accepted (stopped : stops names scrutinee pattern = true) (handled : isHandled pattern = true)
    (accepted : ¬ Rejected names scope.heap pattern scrutinee) :
    matchArm names pattern scrutinee scope =
      .ok (some (bindAll scope (boundByArm names scope.heap pattern scrutinee))) := by
  unfold stops at stopped
  split at stopped
  · rfl
  · simp only [matchArm, boundByArm]
    rw [if_pos (by simpa using stopped)]
    rfl
  · simp only [matchArm, boundByArm]
    rw [if_pos (by simpa using stopped)]
    rfl
  · simp only [matchArm, stopped, if_true]
    rfl
  · simp only [matchArm, stopped, if_true]
    rfl
  · simp only [matchArm, stopped, if_true]
    rfl
  · obtain ⟨fields, isPayload, listed⟩ := listed_of_not_rejected accepted
    simp only [matchArm, stopped, if_true, isPayload, boundByArm, bindData_of_listed fields _ 0 scope listed]
    rfl
  · obtain ⟨fields, isPayload, listed⟩ := structListed_of_not_rejected accepted
    simp only [matchArm, stopped, if_true, isPayload, boundByArm, bindStruct_of_listed _ fields _ scope listed]
    rfl
  · cases handled
  · cases handled
  · cases handled
  · exact absurd trivial accepted
  · cases stopped

attribute [local simp] FlatPattern

theorem matchPatternTree_eq_bound_iff (stopped : stops names scrutinee pattern = true)
    (handled : isHandled pattern = true) (accepted : ¬ Rejected names heap pattern scrutinee) :
    matchPatternTree names heap pattern scrutinee = some (boundByArm names heap pattern scrutinee) ↔
      FlatPattern names heap pattern scrutinee := by
  unfold stops at stopped
  split at stopped
  · simp [boundByArm]
  · simp_all [boundByArm]
  · simp_all [boundByArm]
  · simp [boundByArm, stopped]
  · simp [boundByArm, stopped]
  · simp [boundByArm, stopped]
  · obtain ⟨fields, isPayload, listed⟩ := listed_of_not_rejected accepted
    simp only [matchPatternTree, payload, isPayload, stopped, if_true, boundByArm, FlatPattern]
    have payloads : matchBindings names heap fields 0 _ = some (namedFields fields 0 _) ↔
        Flat names heap fields 0 0 _ := matchBindings_eq_named_iff listed
    simpa using payloads
  · obtain ⟨fields, isPayload, listed⟩ := structListed_of_not_rejected accepted
    simp only [matchPatternTree, structPayload, isPayload, stopped, if_true, boundByArm, FlatPattern]
    simpa using matchStructBindings_eq_named_iff
  · cases handled
  · cases handled
  · cases handled
  · exact absurd trivial accepted
  · cases stopped

theorem matchPatternTree_of_not_stops (goesOn : stops names scrutinee pattern = false) :
    matchPatternTree names heap pattern scrutinee = none ↔ ¬ Missed names heap pattern scrutinee := by
  cases pattern with
  | wildcard span | ident name isMut span | tuple elems restPosition span
  | struct module typeName fields hasRest span | comptimeUnrollArm binding iterable span => cases goesOn
  | int expected span =>
    have differs : scrutinee ≠ .data (.integer expected) := by
      rintro rfl
      simp [stops] at goesOn
    simp [Missed, differs]
  | bool expected span =>
    have differs : scrutinee ≠ .data (.bool expected) := by
      rintro rfl
      simp [stops] at goesOn
    simp [Missed, differs]
  | path module typeName variant span =>
    simp only [matchPatternTree, Missed, not_false_eq_true, iff_true]
    split
    · exact if_neg (by simpa [stops] using goesOn)
    · exact if_neg (by simpa [stops] using goesOn)
    · exact if_neg (by simpa [stops] using goesOn)
    · rfl
  | dataVariant module typeName variant bindings span => simp [Missed]
  | structVariant module typeName variant bindings span =>
    have noPayload : structPayload heap (names.variant typeName variant) scrutinee = none := by
      unfold structPayload
      split
      · split
        · exact if_neg (by simpa [stops] using goesOn)
        · rfl
      · rfl
    simp [Missed, noPayload]

theorem selectArm_append (allPassed : ∀ pattern ∈ passed, stops names scrutinee pattern = false)
    (arms : List RirPattern) :
    ∀ index, selectArm names scrutinee scope index (passed ++ arms) =
      selectArm names scrutinee scope (index + passed.length) arms := by
  induction passed with
  | nil =>
    intro index
    rfl
  | cons pattern passed ih =>
    intro index
    have goesOn : matchArm names pattern scrutinee scope = .ok none :=
      matchArm_of_not_stops (allPassed pattern (.head _))
    have rest := ih (fun other member => allPassed other (List.mem_cons_of_mem pattern member))
    simp only [List.cons_append, selectArm, goesOn, List.length_cons]
    change selectArm names scrutinee scope (index + 1) (passed ++ arms) = _
    rw [rest, Nat.add_assoc, Nat.add_comm 1]

theorem firstMatch_append (noneMatches : ∀ pattern ∈ passed,
      matchPatternTree names scope.heap pattern scrutinee = none) (arms : List RirPattern) :
    ∀ index, firstMatch names scrutinee scope index (passed ++ arms) =
      firstMatch names scrutinee scope (index + passed.length) arms := by
  induction passed with
  | nil =>
    intro index
    rfl
  | cons pattern passed ih =>
    intro index
    have unmatched := noneMatches pattern (.head _)
    have rest := ih (fun other member => noneMatches other (List.mem_cons_of_mem pattern member))
    simp only [List.cons_append, firstMatch, unmatched, List.length_cons]
    rw [rest, Nat.add_assoc, Nat.add_comm 1]

theorem firstMatch_lt (member : pattern ∈ passed)
    (matched : (matchPatternTree names scope.heap pattern scrutinee).isSome)
    (arms : List RirPattern) :
    ∀ index, ∃ number after, firstMatch names scrutinee scope index (passed ++ arms) = some (number, after) ∧
        number < index + passed.length := by
  induction passed with
  | nil => cases member
  | cons first passed ih =>
    intro index
    simp only [List.cons_append, firstMatch, List.length_cons]
    cases outcome : matchPatternTree names scope.heap first scrutinee with
    | some bound => exact ⟨index, _, rfl, by omega⟩
    | none =>
      have later : pattern ∈ passed := by
        rcases List.mem_cons.mp member with rfl | later
        · rw [outcome] at matched
          cases matched
        · exact later
      obtain ⟨number, after, found, _⟩ := ih later (index + 1)
      exact ⟨number, after, found, by omega⟩

theorem chooses_of_all_passed (allPassed : ∀ pattern ∈ arms, stops names scrutinee pattern = false) :
    ChoosesRuntimeArm names scrutinee scope arms ↔ ∀ pattern ∈ arms, ¬ Missed names scope.heap pattern scrutinee := by
  have selected : selectArm names scrutinee scope 0 arms = .ok none := by
    rw [← List.append_nil arms, selectArm_append allPassed [] 0]
    rfl
  have unmatched : ∀ pattern ∈ arms, (matchPatternTree names scope.heap pattern scrutinee = none ↔
        ¬ Missed names scope.heap pattern scrutinee) :=
    fun pattern member => matchPatternTree_of_not_stops (allPassed pattern member)
  constructor
  · rintro ⟨_, chosen⟩ pattern member missed
    have noMatch := chosen none selected
    have matched : (matchPatternTree names scope.heap pattern scrutinee).isSome := by
      rw [← Option.ne_none_iff_isSome]
      exact fun none => (unmatched pattern member).mp none missed
    obtain ⟨_, _, found, _⟩ := firstMatch_lt member matched [] 0
    rw [List.append_nil, ← noMatch] at found
    cases found
  · intro noneMissed
    refine ⟨by simp [selected], ?_⟩
    intro chosen isChosen
    rw [selected] at isChosen
    cases isChosen
    rw [← List.append_nil arms, firstMatch_append
      (fun pattern member => (unmatched pattern member).mpr (noneMissed pattern member)) [] 0]
    rfl

theorem selectArm_cons_error {failure : ArmFailure}
    (failed : matchArm names pattern scrutinee scope = .error failure) (index : Nat)
    (rest : List RirPattern) :
    selectArm names scrutinee scope index (pattern :: rest) = .error failure := by
  simp only [selectArm, failed]
  rfl

theorem selectArm_cons_taken (taken : matchArm names pattern scrutinee scope = .ok (some after))
    (index : Nat) (rest : List RirPattern) :
    selectArm names scrutinee scope index (pattern :: rest) = .ok (some (index, after)) := by
  simp only [selectArm, taken]
  rfl

theorem firstMatch_ne_of_lt {number : Nat} : ∀ {index : Nat}, number < index →
      firstMatch names scrutinee scope index arms ≠ some (number, after) := by
  induction arms with
  | nil =>
    simp [firstMatch]
  | cons pattern arms ih =>
    intro index _
    simp only [firstMatch]
    split
    · intro same
      cases same
      omega
    · exact ih (by omega)

theorem firstMatch_eq_iff {bound : List (Name × ConstValue)} : some (passed.length, bindAll scope bound) =
        firstMatch names scrutinee scope 0 (passed ++ pattern :: rest) ↔
      (∀ other ∈ passed, matchPatternTree names scope.heap other scrutinee = none) ∧
        matchPatternTree names scope.heap pattern scrutinee = some bound := by
  constructor
  · intro same
    have noneMatches : ∀ other ∈ passed, matchPatternTree names scope.heap other scrutinee = none := by
      intro other member
      by_contra matched
      obtain ⟨number, _, found, _⟩ :=
        firstMatch_lt member (Option.ne_none_iff_isSome.mp matched) (pattern :: rest) 0
      rw [← same] at found
      cases found
      omega
    refine ⟨noneMatches, ?_⟩
    rw [firstMatch_append noneMatches, Nat.zero_add, firstMatch] at same
    cases outcome : matchPatternTree names scope.heap pattern scrutinee with
    | some actual =>
      simp only [outcome, Option.some.injEq, Prod.mk.injEq, true_and] at same
      rw [bindAll_injective same]
    | none =>
      -- A later arm has a larger number.
      simp only [outcome] at same
      exact absurd same.symm (firstMatch_ne_of_lt (by omega))
  · rintro ⟨noneMatches, matched⟩
    rw [firstMatch_append noneMatches, Nat.zero_add, firstMatch, matched]

theorem chooses_of_stopped (allPassed : ∀ other ∈ passed, stops names scrutinee other = false)
    (stopped : stops names scrutinee pattern = true) :
    ChoosesRuntimeArm names scrutinee scope (passed ++ pattern :: rest) ↔ isHandled pattern = true ∧
        (Rejected names scope.heap pattern scrutinee ∨ (∀ other ∈ passed, ¬ Missed names scope.heap other scrutinee) ∧
            FlatPattern names scope.heap pattern scrutinee) := by
  unfold ChoosesRuntimeArm
  rw [selectArm_append allPassed (pattern :: rest) 0, Nat.zero_add]
  cases handled : isHandled pattern with
  | false => simp [selectArm_cons_error (matchArm_of_not_handled handled)]
  | true =>
    by_cases rejected : Rejected names scope.heap pattern scrutinee
    · obtain ⟨_, failed⟩ := matchArm_of_rejected stopped rejected
      simp [selectArm_cons_error failed, rejected]
    · rw [selectArm_cons_taken (matchArm_of_accepted stopped handled rejected)]
      have flat := matchPatternTree_eq_bound_iff stopped handled rejected
      have passes : (∀ other ∈ passed, matchPatternTree names scope.heap other scrutinee = none) ↔
          ∀ other ∈ passed, ¬ Missed names scope.heap other scrutinee :=
        forall₂_congr fun other member => matchPatternTree_of_not_stops (allPassed other member)
      simp [rejected, firstMatch_eq_iff, flat, passes]

theorem followsRuntime_of_passed (allPassed : ∀ pattern ∈ arms, stops names scrutinee pattern = false) :
    FollowsRuntime names heap scrutinee arms ↔ ∀ pattern ∈ arms, ¬ Missed names heap pattern scrutinee := by
  have notFound : arms.find? (stops names scrutinee) = none :=
    List.find?_eq_none.mpr fun pattern member => by simp [allPassed pattern member]
  have whole : arms.takeWhile (fun pattern => !stops names scrutinee pattern) = arms := by
    have passes : ∀ pattern ∈ arms, (!stops names scrutinee pattern) = true :=
      fun pattern member => by simp [allPassed pattern member]
    have cut : (arms ++ []).takeWhile (fun pattern => !stops names scrutinee pattern) =
        arms ++ [].takeWhile _ := List.takeWhile_append_of_pos passes
    rwa [List.append_nil, List.takeWhile_nil, List.append_nil] at cut
  simp [FollowsRuntime, notFound, whole]

theorem followsRuntime_of_stopped (allPassed : ∀ other ∈ passed, stops names scrutinee other = false)
    (stopped : stops names scrutinee pattern = true) :
    FollowsRuntime names heap scrutinee (passed ++ pattern :: rest) ↔ isHandled pattern = true ∧
        (Rejected names heap pattern scrutinee ∨ (∀ other ∈ passed, ¬ Missed names heap other scrutinee) ∧
            FlatPattern names heap pattern scrutinee) := by
  have found : (passed ++ pattern :: rest).find? (stops names scrutinee) = some pattern :=
    List.find?_eq_some_iff_append.mpr
      ⟨stopped, passed, rest, rfl, fun other member => by simp [allPassed other member]⟩
  have cut : (passed ++ pattern :: rest).takeWhile (fun pattern => !stops names scrutinee pattern) = passed := by
    rw [List.takeWhile_append_of_pos (fun other member => by simp [allPassed other member]),
      List.takeWhile_cons_of_neg (by simp [stopped]), List.append_nil]
  simp only [FollowsRuntime, found, cut]

end Arms

end Comptime

/-- The interpreter takes the arm the run-time match takes exactly if the first arm whose outer
level fits is no name, tuple or struct pattern, its payload patterns match and bind nothing of
their own, and no arm before it matches a variant without payload. -/
theorem comptime_match_chooses_iff (names : Comptime.PatternNames) (scrutinee : Comptime.ConstValue)
    (scope : Comptime.Scope Comptime.ConstValue) (arms : List RirPattern) :
    Comptime.ChoosesRuntimeArm names scrutinee scope arms ↔
      Comptime.FollowsRuntime names scope.heap scrutinee arms := by
  cases found : arms.find? (Comptime.stops names scrutinee) with
  | none =>
    have allPassed : ∀ pattern ∈ arms, Comptime.stops names scrutinee pattern = false := by
      intro pattern member
      simpa using List.find?_eq_none.mp found pattern member
    rw [Comptime.followsRuntime_of_passed allPassed]
    exact Comptime.chooses_of_all_passed allPassed
  | some pattern =>
    obtain ⟨stopped, passed, _, rfl, notStopped⟩ := List.find?_eq_some_iff_append.mp found
    have allPassed : ∀ other ∈ passed, Comptime.stops names scrutinee other = false := by
      intro other member
      simpa using notStopped other member
    rw [Comptime.chooses_of_stopped allPassed stopped]
    exact (Comptime.followsRuntime_of_stopped allPassed stopped).symm

namespace ComptimeMatchSample

open Comptime

def names : PatternNames where
  resolveComptimeEnum typeName := if typeName = 10 then some 0 else none
  findVariant _ variant := if variant = 11 then some 0 else if variant = 12 then some 1 else none
  findField _ _ _ := none
  resolveComptimeStruct _ := none
  structField _ _ := none
  restMarker := 13

def span : Span := Span.new 0 0

/-- `Maybe::Some(2)` -/
def scope : Scope ConstValue := { heap := [.enumData [.data (.integer 2)]] }

def some2 : ConstValue := .data (.enumData 0 1 0)

/-- `Maybe::Some(1) => .., _ => ..` -/
def nested : List RirPattern :=
  [.dataVariant none 10 12 [.mk false false none (some (.int 1 span))] span, .wildcard span]

/-- `Maybe::None => .., other => ..` -/
def binder : List RirPattern := [.path none 10 11 span, .ident 14 false span]

theorem comptime_match_differs : (selectArm names some2 scope 0 nested = .ok (some (0, scope)) ∧
      firstMatch names some2 scope 0 nested = some (1, scope) ∧
      ¬ ChoosesRuntimeArm names some2 scope nested) ∧
    selectArm names some2 scope 0 binder = .error .unreachable ∧ ¬ ChoosesRuntimeArm names some2 scope binder := by
  have taken : selectArm names some2 scope 0 nested = .ok (some (0, scope)) := by decide
  have matched : firstMatch names some2 scope 0 nested = some (1, scope) := by decide
  have unreachable : selectArm names some2 scope 0 binder = .error .unreachable := by decide
  refine ⟨⟨taken, matched, ?_⟩, unreachable, ?_⟩
  · rintro ⟨_, chosen⟩
    have same := chosen _ taken
    cases same
  · rintro ⟨reached, _⟩
    exact reached unreachable

end ComptimeMatchSample

end Gruel
