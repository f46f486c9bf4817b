import Mathlib.Algebra.GroupWithZero.Nat
import Gruel.PatternCore

/-!
The usefulness recursion behind match exhaustiveness and arm reachability.  The rows
of a matrix all have the width of `columnTypes`; `isUseful` terminates because each
specialisation removes a constructor from the matrix or the query, and each default
step removes a column.
-/

namespace Gruel

inductive Ctor
  | wildcard
  | int (value : Int)
  | bool (value : Bool)
  | enumVariant (enumId : EnumId) (variantIndex : Nat)
  | tuple (arity : Nat)
  | struct (structId : StructId)
  deriving DecidableEq

mutual

def headCtor : AirPattern → Ctor
  | .wildcard => .wildcard
  | .bind _ _ inner => headCtorInner inner
  | .int n => .int n
  | .bool b => .bool b
  | .enumVariant id index => .enumVariant id index
  | .enumUnitVariant id index => .enumVariant id index
  | .enumDataVariant id index _ => .enumVariant id index
  | .enumStructVariant id index _ => .enumVariant id index
  | .tuple elems => .tuple elems.length
  | .struct id _ => .struct id

def headCtorInner : Option AirPattern → Ctor
  | none => .wildcard
  | some pattern => headCtor pattern

end

def variantFields (pool : TypeInternPool) (id : EnumId) (index : Nat) : List Ty :=
  (((pool.enumDef id).variants[index]?).map EnumVariantDef.fields).getD []

def ctorArity (pool : TypeInternPool) : Ctor → Nat
  | .wildcard | .int _ | .bool _ => 0
  | .enumVariant id index => (variantFields pool id index).length
  | .tuple arity => arity
  | .struct id => (pool.structDef id).fields.length

def ctorSubTypes (pool : TypeInternPool) (headTy : Ty) : Ctor → List Ty
  | .wildcard | .int _ | .bool _ => []
  | .enumVariant id index => variantFields pool id index
  | .tuple _ | .struct _ =>
    match headTy.asStruct with
    | some id => (pool.structDef id).fieldTypes
    | none => []

mutual

def specializePattern (ctor : Ctor) (arity : Nat) : AirPattern → Option (List AirPattern)
  | .wildcard => some (List.replicate arity .wildcard)
  | .bind _ _ inner => specializeInner ctor arity inner
  | .int n => if ctor = .int n then some [] else none
  | .bool b => if ctor = .bool b then some [] else none
  | .enumVariant _ index | .enumUnitVariant _ index =>
    match ctor with
    | .enumVariant _ variantIndex =>
      if index = variantIndex then some (List.replicate arity .wildcard) else none
    | _ => none
  | .enumDataVariant _ index fields =>
    match ctor with
    | .enumVariant _ variantIndex => if index = variantIndex then some fields else none
    | _ => none
  | .enumStructVariant _ index fields =>
    match ctor with
    | .enumVariant _ variantIndex =>
      if index = variantIndex then some (fields.map Prod.snd) else none
    | _ => none
  | .tuple elems => if ctor = .tuple elems.length then some elems else none
  | .struct id fields => if ctor = .struct id then some (fields.map Prod.snd) else none

def specializeInner (ctor : Ctor) (arity : Nat) : Option AirPattern → Option (List AirPattern)
  | none => some (List.replicate arity .wildcard)
  | some pattern => specializePattern ctor arity pattern

end

def specializeRow (ctor : Ctor) (arity : Nat) : List AirPattern → Option (List AirPattern)
  | [] => none
  | head :: tail => (specializePattern ctor arity head).map (· ++ tail)

def specializeRows (rows : List (List AirPattern)) (ctor : Ctor) (arity : Nat) : List (List AirPattern) :=
  rows.filterMap (specializeRow ctor arity)

def defaultRow : List AirPattern → Option (List AirPattern)
  | [] => none
  | head :: tail => if headCtor head = .wildcard then some tail else none

def defaultRows (rows : List (List AirPattern)) : List (List AirPattern) :=
  rows.filterMap defaultRow

def typeSignature (pool : TypeInternPool) (ty : Ty) : Option (List Ctor) :=
  if ty = .bool then some [.bool true, .bool false]
  else
    match ty.asEnum with
    | some id =>
      some ((List.range (pool.enumDef id).variants.length).map fun index => .enumVariant id index)
    | none =>
      match ty.asStruct with
      | some id =>
        if (pool.structDef id).isTupleShaped then
          some [.tuple (pool.structDef id).fields.length]
        else some [.struct id]
      | none => none

def buildWitness (pool : TypeInternPool) (ctor : Ctor) (subs : List AirPattern) : AirPattern :=
  match ctor with
  | .wildcard => .wildcard
  | .int n => .int n
  | .bool b => .bool b
  | .enumVariant id index =>
    if subs.isEmpty then .enumUnitVariant id index else .enumDataVariant id index subs
  | .tuple _ => .tuple subs
  | .struct id =>
    .struct id (((subs.zipIdx).take (pool.structDef id).fields.length).map fun (sub, index) =>
      (index, sub))

inductive Usefulness
  | notUseful
  | useful (witnesses : List (List AirPattern))

namespace Usefulness

def witnesses : Usefulness → List (List AirPattern)
  | notUseful => []
  | useful rows => rows

def ofWitnesses (rows : List (List AirPattern)) : Usefulness :=
  if rows.isEmpty then notUseful else useful rows

def map (transform : List AirPattern → List AirPattern) : Usefulness → Usefulness
  | notUseful => notUseful
  | useful rows => useful (rows.map transform)

end Usefulness

def foldWitness (pool : TypeInternPool) (ctor : Ctor) (arity : Nat) (witness : List AirPattern) :
    Option (List AirPattern) :=
  if witness.length < arity then none
  else some (buildWitness pool ctor (witness.take arity) :: witness.drop arity)

def usedCtors (rows : List (List AirPattern)) : List Ctor :=
  (rows.filterMap fun row => row.head?.map headCtor).filter (· ≠ .wildcard)

mutual

def AirPattern.weight : AirPattern → Nat
  | .wildcard => 0
  | .int _ | .bool _ | .enumVariant _ _ | .enumUnitVariant _ _ => 1
  | .bind _ _ inner => AirPattern.weightInner inner
  | .tuple elems => AirPattern.weightAll elems + 1
  | .struct _ fields => AirPattern.weightFields fields + 1
  | .enumDataVariant _ _ fields => AirPattern.weightAll fields + 1
  | .enumStructVariant _ _ fields => AirPattern.weightFields fields + 1

def AirPattern.weightInner : Option AirPattern → Nat
  | none => 0
  | some pattern => AirPattern.weight pattern

def AirPattern.weightAll : List AirPattern → Nat
  | [] => 0
  | pattern :: patterns => AirPattern.weight pattern + AirPattern.weightAll patterns

def AirPattern.weightFields : List (Nat × AirPattern) → Nat
  | [] => 0
  | (_, pattern) :: fields => AirPattern.weight pattern + AirPattern.weightFields fields

end

variable {ctor : Ctor}
variable {rows : List (List AirPattern)} {pattern : AirPattern}

def Ctor.weight : Ctor → Nat
  | .wildcard => 0
  | _ => 1

def rowsWeight (rows : List (List AirPattern)) : Nat := (rows.map AirPattern.weightAll).sum

attribute [grind =] AirPattern.weight AirPattern.weightAll AirPattern.weightFields specializePattern

theorem weightAll_append (left right : List AirPattern) : AirPattern.weightAll (left ++ right) =
      AirPattern.weightAll left + AirPattern.weightAll right := by
  induction left with
  | nil => simp [AirPattern.weightAll]
  | cons pattern patterns ih =>
    simp only [List.cons_append, AirPattern.weightAll, ih]
    omega

theorem weightAll_replicate_wildcard (count : Nat) : AirPattern.weightAll (List.replicate count .wildcard) = 0 := by
  induction count with
  | zero => rfl
  | succ count ih => simp [List.replicate_succ, AirPattern.weightAll, AirPattern.weight, ih]

theorem weightAll_map_snd (fields : List (Nat × AirPattern)) :
    AirPattern.weightAll (fields.map Prod.snd) = AirPattern.weightFields fields := by
  induction fields with
  | nil => rfl
  | cons field fields ih => simp [AirPattern.weightAll, AirPattern.weightFields, ih]

theorem specializePattern_weight (ctor : Ctor) (arity : Nat) (pattern : AirPattern) :
    ∀ subs, specializePattern ctor arity pattern = some subs →
      AirPattern.weightAll subs + (headCtor pattern).weight ≤ pattern.weight := by
  induction pattern using AirPattern.headInduction with
  | nested name isMut pattern ih =>
    simpa [specializePattern, specializeInner, headCtor, headCtorInner, AirPattern.weight,
      AirPattern.weightInner] using ih
  | wildcard | bare =>
    intro subs found
    simp only [specializePattern, specializeInner, Option.some.injEq] at found
    simp [← found, weightAll_replicate_wildcard, headCtor, headCtorInner, Ctor.weight]
  | int | bool | tuple | struct =>
    intro subs found
    simp only [specializePattern, Option.ite_none_right_eq_some, Option.some.injEq] at found
    simp [← found.2, headCtor, Ctor.weight, AirPattern.weight, AirPattern.weightAll, weightAll_map_snd]
  | enumVariant | enumUnitVariant | enumDataVariant | enumStructVariant =>
    intro subs found
    simp only [specializePattern] at found
    split at found
    · simp only [Option.ite_none_right_eq_some, Option.some.injEq] at found
      simp [← found.2, headCtor, Ctor.weight, AirPattern.weight, weightAll_replicate_wildcard, weightAll_map_snd]
    · simp at found

theorem specializeRow_weight {arity : Nat} {row specialized : List AirPattern}
    (found : specializeRow ctor arity row = some specialized) :
    AirPattern.weightAll specialized ≤ AirPattern.weightAll row := by
  cases row with
  | nil => simp [specializeRow] at found
  | cons head tail =>
    simp only [specializeRow, Option.map_eq_some_iff] at found
    obtain ⟨subs, headFound, rfl⟩ := found
    have headBound := specializePattern_weight ctor arity head subs headFound
    simp only [weightAll_append, AirPattern.weightAll]
    omega

theorem rowsWeight_filterMap_le (shrink : List AirPattern → Option (List AirPattern))
    (bound : ∀ row next, shrink row = some next → AirPattern.weightAll next ≤ AirPattern.weightAll row)
    (rows : List (List AirPattern)) :
    rowsWeight (rows.filterMap shrink) ≤ rowsWeight rows := by
  induction rows with
  | nil => simp
  | cons row rows ih =>
    cases found : shrink row with
    | none =>
      simp only [List.filterMap_cons, found]
      simp only [rowsWeight, List.map_cons, List.sum_cons] at ih ⊢
      omega
    | some next =>
      have rowBound := bound row next found
      simp only [List.filterMap_cons, found]
      simp only [rowsWeight, List.map_cons, List.sum_cons] at ih ⊢
      omega

theorem specializeRows_weight (rows : List (List AirPattern)) (ctor : Ctor) (arity : Nat) :
    rowsWeight (specializeRows rows ctor arity) ≤ rowsWeight rows :=
  rowsWeight_filterMap_le _ (fun _ _ => specializeRow_weight) rows

theorem defaultRows_weight (rows : List (List AirPattern)) : rowsWeight (defaultRows rows) ≤ rowsWeight rows := by
  refine rowsWeight_filterMap_le _ (fun row next found => ?_) rows
  cases row with
  | nil => simp [defaultRow] at found
  | cons head tail =>
    simp only [defaultRow, Option.ite_none_right_eq_some, Option.some.injEq] at found
    simp only [← found.2, AirPattern.weightAll]
    omega

theorem headCtor_weight_le (pattern : AirPattern) : (headCtor pattern).weight ≤ pattern.weight := by
  induction pattern using AirPattern.headInduction with
  | nested name isMut pattern ih =>
    simpa [headCtor, headCtorInner, AirPattern.weight, AirPattern.weightInner] using ih
  | _ => simp [headCtor, headCtorInner, Ctor.weight, AirPattern.weight]

theorem Ctor.weight_proper (proper : ctor ≠ .wildcard) : ctor.weight = 1 := by
  cases ctor <;> simp_all [Ctor.weight]

theorem mem_usedCtors : ctor ∈ usedCtors rows ↔
      ctor ≠ .wildcard ∧ ∃ head tail, head :: tail ∈ rows ∧ headCtor head = ctor := by
  simp only [usedCtors, List.mem_filter, List.mem_filterMap, decide_eq_true_eq]
  constructor
  · rintro ⟨⟨row, member, headEq⟩, proper⟩
    cases row with
    | nil => simp at headEq
    | cons head tail => exact ⟨proper, head, tail, member, by simpa using headEq⟩
  · rintro ⟨proper, head, tail, member, headEq⟩
    exact ⟨⟨head :: tail, member, by simp [headEq]⟩, proper⟩

theorem specializeRows_weight_lt (used : ctor ∈ usedCtors rows) (arity : Nat) :
    rowsWeight (specializeRows rows ctor arity) < rowsWeight rows := by
  obtain ⟨proper, head, tail, member, headEq⟩ := mem_usedCtors.1 used
  obtain ⟨before, after, rfl⟩ := List.append_of_mem member
  have beforeBound := specializeRows_weight before ctor arity
  have afterBound := specializeRows_weight after ctor arity
  have headBound := headCtor_weight_le head
  rw [headEq, Ctor.weight_proper proper] at headBound
  have rowBound : rowsWeight ((specializeRow ctor arity (head :: tail)).toList) <
      AirPattern.weightAll (head :: tail) := by
    cases found : specializePattern ctor arity head with
    | none =>
      simp only [specializeRow, found, Option.map_none, Option.toList_none, rowsWeight,
        List.map_nil, List.sum_nil, AirPattern.weightAll]
      omega
    | some subs =>
      have subsBound := specializePattern_weight ctor arity head subs found
      rw [headEq, Ctor.weight_proper proper] at subsBound
      simp only [specializeRow, found, Option.map_some, Option.toList_some, rowsWeight,
        List.map_cons, List.map_nil, List.sum_cons, List.sum_nil, weightAll_append,
        AirPattern.weightAll]
      omega
  have split : specializeRows (before ++ (head :: tail) :: after) ctor arity =
      specializeRows before ctor arity ++ ((specializeRow ctor arity (head :: tail)).toList ++
        specializeRows after ctor arity) := by
    simp only [specializeRows, List.filterMap_append, List.filterMap_cons]
    cases specializeRow ctor arity (head :: tail) <;> simp
  rw [split]
  simp only [rowsWeight, List.map_append, List.sum_append, List.map_cons, List.sum_cons] at *
  omega

theorem specializeQuery_weight_lt (proper : headCtor pattern ≠ .wildcard) (arity : Nat) :
    AirPattern.weightAll ((specializePattern (headCtor pattern) arity pattern).getD []) < pattern.weight := by
  have headBound := headCtor_weight_le pattern
  rw [Ctor.weight_proper proper] at headBound
  cases found : specializePattern (headCtor pattern) arity pattern with
  | none =>
    simp only [Option.getD_none, AirPattern.weightAll]
    omega
  | some subs =>
    have bound := specializePattern_weight _ arity pattern subs found
    rw [Ctor.weight_proper proper] at bound
    simp only [Option.getD_some]
    omega

theorem specializeQuery_wildcard_weight (blank : headCtor pattern = .wildcard) (ctor : Ctor) (arity : Nat) :
    AirPattern.weightAll ((specializePattern ctor arity pattern).getD []) ≤ pattern.weight := by
  cases found : specializePattern ctor arity pattern with
  | none => simp [AirPattern.weightAll]
  | some subs =>
    have bound := specializePattern_weight ctor arity pattern subs found
    rw [blank] at bound
    simpa [Ctor.weight] using bound

def matrixMeasure (rows : List (List AirPattern)) (query : List AirPattern) : Nat × Nat :=
  (rowsWeight rows + AirPattern.weightAll query, query.length)

abbrev Smaller : Nat × Nat → Nat × Nat → Prop := Prod.Lex (· < ·) (· < ·)

variable {pool : TypeInternPool} {qHead : AirPattern} {qTail : List AirPattern}

theorem default_smaller : Smaller (matrixMeasure (defaultRows rows) qTail) (matrixMeasure rows (qHead :: qTail)) := by
  have bound := defaultRows_weight rows
  simp only [Smaller, matrixMeasure, Prod.lex_def, AirPattern.weightAll, List.length_cons]
  omega

/-- A step on a constructor that a row or the query starts with takes that constructor away. -/
theorem specialized_smaller (present : headCtor qHead = ctor ∧ ctor ≠ .wildcard ∨
      headCtor qHead = .wildcard ∧ ctor ∈ usedCtors rows) (arity : Nat) :
    Smaller (matrixMeasure (specializeRows rows ctor arity) ((specializePattern ctor arity qHead).getD [] ++ qTail))
      (matrixMeasure rows (qHead :: qTail)) := by
  simp only [Smaller, matrixMeasure, Prod.lex_def, AirPattern.weightAll, weightAll_append]
  rcases present with ⟨rfl, proper⟩ | ⟨blank, used⟩
  · have rowsBound := specializeRows_weight rows (headCtor qHead) arity
    have queryBound := specializeQuery_weight_lt proper arity
    omega
  · have rowsBound := specializeRows_weight_lt used arity
    have queryBound := specializeQuery_wildcard_weight blank ctor arity
    omega

def isUseful (pool : TypeInternPool) (rows : List (List AirPattern)) (query : List AirPattern)
    (columnTypes : List Ty) : Usefulness :=
  match query, columnTypes with
  | [], _ => if rows.isEmpty then .useful [[]] else .notUseful
  | _ :: _, [] => .notUseful
  | qHead :: qTail, headTy :: restTys =>
    if blank : headCtor qHead = .wildcard then
      match typeSignature pool headTy with
      | none => (isUseful pool (defaultRows rows) qTail restTys).map (.wildcard :: ·)
      | some ctors =>
        let missing := ctors.filter fun ctor => !(usedCtors rows).contains ctor
        if complete : missing = [] then
          .ofWitnesses (ctors.attach.flatMap fun ⟨ctor, _⟩ =>
            let arity := ctorArity pool ctor
            let specializedQuery := (specializePattern ctor arity qHead).getD [] ++ qTail
            (isUseful pool (specializeRows rows ctor arity) specializedQuery
              (ctorSubTypes pool headTy ctor ++ restTys)).witnesses.filterMap (foldWitness pool ctor arity))
        else
          match isUseful pool (defaultRows rows) qTail restTys with
          | .notUseful => .notUseful
          | .useful witnesses =>
            .useful (missing.flatMap fun ctor => witnesses.map fun witness =>
              buildWitness pool ctor (List.replicate (ctorArity pool ctor) .wildcard) :: witness)
    else
      let ctor := headCtor qHead
      let arity := ctorArity pool ctor
      let specializedQuery := (specializePattern ctor arity qHead).getD [] ++ qTail
      .ofWitnesses ((isUseful pool (specializeRows rows ctor arity) specializedQuery
        (ctorSubTypes pool headTy ctor ++ restTys)).witnesses.filterMap (foldWitness pool ctor arity))
termination_by (rowsWeight rows + AirPattern.weightAll query, query.length)
decreasing_by
  · exact default_smaller
  · rename_i member
    have used : ctor ∈ usedCtors rows := by
      by_contra absent
      have unused : ctor ∈ missing := List.mem_filter.mpr ⟨member, by simpa using absent⟩
      simp [complete] at unused
    exact specialized_smaller (.inr ⟨blank, used⟩) _
  · exact default_smaller
  · exact specialized_smaller (.inl ⟨rfl, blank⟩) _

structure UsefulCall where
  rows : List (List AirPattern)
  query : List AirPattern
  columnTypes : List Ty

def UsefulCall.measure (call : UsefulCall) : Nat × Nat := matrixMeasure call.rows call.query

def recursiveCalls (pool : TypeInternPool) (call : UsefulCall) : List UsefulCall :=
  match call.query, call.columnTypes with
  | qHead :: qTail, headTy :: restTys =>
    let specialized (ctor : Ctor) : UsefulCall :=
      { rows := specializeRows call.rows ctor (ctorArity pool ctor)
        query := (specializePattern ctor (ctorArity pool ctor) qHead).getD [] ++ qTail
        columnTypes := ctorSubTypes pool headTy ctor ++ restTys }
    let default : UsefulCall := ⟨defaultRows call.rows, qTail, restTys⟩
    if headCtor qHead = .wildcard then
      match typeSignature pool headTy with
      | none => [default]
      | some ctors =>
        if ctors.all (usedCtors call.rows).contains then ctors.map specialized else [default]
    else [specialized (headCtor qHead)]
  | _, _ => []

/-- A run on the call makes so many calls, its own included. -/
inductive Makes (pool : TypeInternPool) : UsefulCall → Nat → Prop
  | of {call : UsefulCall} {counts : List Nat} :
      List.Forall₂ (Makes pool) (recursiveCalls pool call) counts → Makes pool call (counts.sum + 1)

theorem recursiveCalls_smaller {next call : UsefulCall} (member : next ∈ recursiveCalls pool call) :
    Smaller next.measure call.measure := by
  obtain ⟨rows, query, columnTypes⟩ := call
  cases query with
  | nil => cases member
  | cons qHead qTail =>
    cases columnTypes with
    | nil => cases member
    | cons headTy restTys =>
      simp only [recursiveCalls] at member
      split at member
      · next blank =>
        split at member
        · obtain rfl := List.mem_singleton.mp member
          exact default_smaller
        · split at member
          · next complete =>
            obtain ⟨ctor, listed, rfl⟩ := List.mem_map.mp member
            have used : ctor ∈ usedCtors rows := by
              simpa using List.all_eq_true.mp complete ctor listed
            exact specialized_smaller (.inr ⟨blank, used⟩) _
          · obtain rfl := List.mem_singleton.mp member
            exact default_smaller
      · next proper =>
        obtain rfl := List.mem_singleton.mp member
        exact specialized_smaller (.inl ⟨rfl, proper⟩) _

/-- Every recursive call takes a constructor or a column away, so a run makes finitely many. -/
theorem isUseful_finitelyManyCalls (pool : TypeInternPool) (call : UsefulCall) :
    (∀ next ∈ recursiveCalls pool call, Smaller next.measure call.measure) ∧ ∃ count, Makes pool call count := by
  refine ⟨fun next => recursiveCalls_smaller, ?_⟩
  have founded := InvImage.wf UsefulCall.measure (Prod.lex Nat.lt_wfRel Nat.lt_wfRel).wf
  induction call using founded.induction with
  | _ call ih =>
    have each : ∃ counts, List.Forall₂ (Makes pool) (recursiveCalls pool call) counts := by
      have finite := fun next (member : next ∈ recursiveCalls pool call) =>
        ih next (recursiveCalls_smaller member)
      generalize recursiveCalls pool call = calls at finite
      induction calls with
      | nil => exact ⟨[], .nil⟩
      | cons next calls rest =>
        obtain ⟨count, makes⟩ := finite next (.head _)
        obtain ⟨counts, others⟩ := rest fun next member => finite next (.tail _ member)
        exact ⟨count :: counts, .cons makes others⟩
    obtain ⟨counts, makes⟩ := each
    exact ⟨_, .of makes⟩

def exhaustivenessWitnesses (pool : TypeInternPool) (arms : List AirPattern) (scrutineeType : Ty) : List AirPattern :=
  (isUseful pool (arms.map ([·])) [.wildcard] [scrutineeType]).witnesses.filterMap List.getLast?

def armReachabilityFrom (pool : TypeInternPool) (scrutineeType : Ty) :
    List (List AirPattern) → List AirPattern → List Bool
  | _, [] => []
  | seen, arm :: arms =>
    (match isUseful pool seen [arm] [scrutineeType] with
      | .useful _ => true
      | .notUseful => false) :: armReachabilityFrom pool scrutineeType (seen ++ [[arm]]) arms

def armReachability (pool : TypeInternPool) (arms : List AirPattern) (scrutineeType : Ty) : List Bool :=
  armReachabilityFrom pool scrutineeType [] arms

end Gruel
