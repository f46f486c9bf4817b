import Gruel.SpecializeCore

/-!
What the specialization pass guarantees: it closes, and its names are those of one body
each unless a name followed by spelled-out values is itself a name.
-/

namespace Gruel

namespace Specialize

open Spelling TypeEncoding

variable {key : SpecializationKey} {number other variantIdx otherIdx : Nat} {rest : List Char}
  {nameMap : NameMap} {enumId otherId : EnumId}

variable {closing otherRest : List Char} {heapIdx index : Nat} {Entry : Type}
  {entries : List (SpecializationKey × Entry)}

variable {air given : Air Other} {seen : Seen} {row : AnalyzedRow Other}
  {keys pending : List SpecializationKey} {state after : PassState Other Sema Refs}
  {inst : AirInst Other} {analyzer : Analyzer Other Sema Base Refs Failure} {name : List Char}
  {spec : SpecializationKey × SpecializationInfo}

theorem notMem_decimal {char : Char} (notDigit : char.isDigit = false) : char ∉ decimal number := by
  intro member
  rw [isDigit_of_mem_decimal member] at notDigit
  cases notDigit

@[simp] theorem quiet_decimal_append : Spelling.Quiet '_' (decimal number ++ rest) ↔ Spelling.Quiet '_' rest :=
  quiet_append_of_notMem (notMem_decimal rfl)

@[simp] theorem quiet_decimal : Spelling.Quiet '_' (decimal number) := by
  rw [← List.append_nil (decimal number), quiet_decimal_append]
  trivial

theorem quiet_mangleValue (value : ConstValue) : Spelling.Quiet '_' ('_' :: mangleValue value) := by
  cases value with
  | integer value =>
    dsimp only [mangleValue]
    split <;> simp [quiet_cons_of_ne]
  | bool value =>
    dsimp only [mangleValue]
    cases value <;> simp
  | _ =>
    dsimp only [mangleValue, debugText]
    simp [quiet_cons_of_ne]

def shown : List Char → Nat
  | _ :: 'i' :: _ => 0
  | _ :: 'b' :: _ => 1
  | _ :: 't' :: _ => 2
  | _ :: 'u' :: _ => 3
  | _ :: 's' :: _ => 4
  | _ :: 'x' :: 'S' :: _ => 5
  | _ :: 'x' :: 'A' :: _ => 6
  | _ :: 'x' :: 'E' :: _ :: _ :: _ :: 'V' :: _ => 7
  | _ :: 'x' :: 'E' :: _ :: _ :: _ :: 'D' :: _ => 8
  | _ :: 'x' :: 'E' :: _ :: _ :: _ :: 'S' :: _ => 9
  | _ :: 'x' :: 'B' :: _ => 10
  | _ :: 'x' :: 'C' :: _ => 11
  | _ :: 'x' :: 'R' :: _ => 12
  | _ => 13

def constructorOf : ConstValue → Nat
  | .integer _ => 0
  | .bool _ => 1
  | .type _ => 2
  | .unit => 3
  | .comptimeStr _ => 4
  | .struct _ => 5
  | .array _ => 6
  | .enumVariant _ _ => 7
  | .enumData _ _ _ => 8
  | .enumStruct _ _ _ => 9
  | .breakSignal => 10
  | .continueSignal => 11
  | .returnSignal => 12

theorem shown_mangleValue (value : ConstValue) : shown (mangleValue value) = constructorOf value := by
  cases value with
  | integer value =>
    dsimp only [mangleValue]
    split <;> rfl
  | bool value => cases value <;> rfl
  | _ => rfl

theorem decimal_between_inj {opening : List Char}
    (same : opening ++ decimal number ++ closing = opening ++ decimal other ++ closing) :
    number = other :=
  decimal_injective (List.append_cancel_left (List.append_cancel_right same))

theorem decimal_then_inj (ends : ∀ char ∈ closing.head?, char.isDigit = false) (closes : closing ≠ [])
    (same : decimal number ++ (closing ++ rest) = decimal other ++ (closing ++ otherRest)) :
    number = other ∧ rest = otherRest := by
  have stops : ∀ rest, ∀ char ∈ (closing ++ rest).head?, char.isDigit = false := by
    intro rest
    rw [List.head?_append_of_ne_nil _ closes]
    exact ends
  obtain ⟨numbers, rests⟩ := decimal_append_inj (stops rest) (stops otherRest) same
  exact ⟨numbers, List.append_cancel_left rests⟩

theorem sign_ne_decimal : "vim".toList ++ decimal number ≠ "vi".toList ++ decimal other := by
  intro same
  have tails : 'm' :: decimal number = decimal other :=
    @List.append_cancel_left _ "vi".toList _ _ same
  exact notMem_decimal rfl (tails ▸ List.mem_cons_self)

theorem mangleInteger_injective {first second : BitVec 64}
    (same : mangleValue (.integer first) = mangleValue (.integer second)) : first = second := by
  dsimp only [mangleValue] at same
  apply BitVec.eq_of_toInt_eq
  split at same <;> split at same
  case isTrue.isTrue firstNegative secondNegative =>
      have magnitudes := decimal_injective (List.append_cancel_left same)
      omega
  case isTrue.isFalse => exact absurd same sign_ne_decimal
  case isFalse.isTrue => exact absurd same.symm sign_ne_decimal
  case isFalse.isFalse firstNonneg secondNonneg =>
      have magnitudes := decimal_injective (List.append_cancel_left same)
      omega

theorem mangleBool_injective {first second : Bool}
    (same : mangleValue (.bool first) = mangleValue (.bool second)) : first = second := by
  cases first <;> cases second <;> first | rfl | exact absurd same (by decide)

theorem mangleEnumVariant_injective (same : mangleValue (.enumVariant enumId variantIdx) =
      mangleValue (.enumVariant otherId otherIdx)) : enumId = otherId ∧ variantIdx = otherIdx := by
  dsimp only [mangleValue, debugText] at same
  have cut := List.append_cancel_left same
  simp only [List.append_assoc] at cut
  obtain ⟨ids, rests⟩ := decimal_then_inj (by simp) (by simp) (List.append_cancel_left cut)
  exact ⟨ids, decimal_injective (List.append_cancel_right rests)⟩

theorem composite_inj {opening : List Char} (same : opening ++ decimal enumId ++ "), variant_idx: ".toList ++
      decimal variantIdx ++ ", heap_idx: ".toList ++ decimal heapIdx ++ " \x7d".toList =
    opening ++ decimal otherId ++ "), variant_idx: ".toList ++ decimal otherIdx ++ ", heap_idx: ".toList ++
      decimal other ++ " \x7d".toList) : enumId = otherId ∧ variantIdx = otherIdx ∧ heapIdx = other := by
  simp only [List.append_assoc] at same
  obtain ⟨ids, rests⟩ := decimal_then_inj (by simp) (by simp) (List.append_cancel_left same)
  obtain ⟨variants, heaps⟩ := decimal_then_inj (by simp) (by simp) rests
  exact ⟨ids, variants, decimal_injective (List.append_cancel_right heaps)⟩

theorem mangleEnumData_injective (same : mangleValue (.enumData enumId variantIdx heapIdx) =
      mangleValue (.enumData otherId otherIdx other)) :
    enumId = otherId ∧ variantIdx = otherIdx ∧ heapIdx = other :=
  composite_inj (List.append_cancel_left same)

theorem mangleEnumStruct_injective (same : mangleValue (.enumStruct enumId variantIdx heapIdx) =
      mangleValue (.enumStruct otherId otherIdx other)) :
    enumId = otherId ∧ variantIdx = otherIdx ∧ heapIdx = other :=
  composite_inj (List.append_cancel_left same)

theorem mangleValue_injective : Function.Injective mangleValue := by
  intro first second same
  have sameConstructor := congrArg shown same
  rw [shown_mangleValue, shown_mangleValue] at sameConstructor
  cases first <;> cases second <;> first | (cases sameConstructor; done) | skip
  case integer.integer => rw [mangleInteger_injective same]
  case bool.bool => rw [mangleBool_injective same]
  case type.type => rw [BitVec.eq_of_toNat_eq (decimal_injective (List.append_cancel_left same))]
  case comptimeStr.comptimeStr => rw [decimal_injective (List.append_cancel_left same)]
  case struct.struct =>
      have texts := List.append_cancel_left same
      rw [decimal_between_inj texts]
  case array.array =>
      have texts := List.append_cancel_left same
      rw [decimal_between_inj texts]
  case enumVariant.enumVariant =>
      obtain ⟨rfl, rfl⟩ := mangleEnumVariant_injective same
      rfl
  case enumData.enumData =>
      obtain ⟨rfl, rfl, rfl⟩ := mangleEnumData_injective same
      rfl
  case enumStruct.enumStruct =>
      obtain ⟨rfl, rfl, rfl⟩ := mangleEnumStruct_injective same
      rfl
  all_goals rfl

theorem hash_notMem_typeName (word : TypeWord) : '#' ∉ typeName word := by
  unfold typeName
  cases tryKind word with
  | none => exact List.not_mem_nil
  | some ty =>
    change '#' ∉ ty.name.toList
    cases ty <;> (dsimp only [Ty.name]; decide)

theorem hash_notMem_mangleValue (value : ConstValue) : '#' ∉ mangleValue value := by
  have digits : ∀ number, '#' ∉ decimal number := fun number => notMem_decimal rfl
  cases value with
  | integer value =>
    dsimp only [mangleValue]
    split <;> simp [digits]
  | bool value => cases value <;> exact (by decide)
  | _ =>
    dsimp only [mangleValue, debugText]
    simp [digits]

theorem hash_notMem_mangleValueArgs (valueArgs : List ConstValue) : '#' ∉ mangleValueArgs valueArgs := by
  intro member
  obtain ⟨value, -, inside⟩ := List.mem_flatMap.mp member
  simp only [List.mem_cons] at inside
  rcases inside with mark | mark | inside
  · exact absurd mark (by decide)
  · exact absurd mark (by decide)
  · exact hash_notMem_mangleValue value inside

theorem mangleTypeArgs_cons (ty : TypeWord) (typeArgs : List TypeWord) : mangleTypeArgs (ty :: typeArgs) =
      '_' :: '_' :: typeName ty ++ '#' :: (decimal ty.toNat ++ mangleTypeArgs typeArgs) := by
  simp [mangleTypeArgs]

theorem mangleTypeArgs_stops {typeArgs : List TypeWord} (ends : ∀ char ∈ rest.head?, char.isDigit = false) :
    ∀ char ∈ (mangleTypeArgs typeArgs ++ rest).head?, char.isDigit = false := by
  cases typeArgs with
  | nil => exact ends
  | cons ty typeArgs =>
    intro char first
    cases first
    rfl

theorem mangleTypeArgs_inj {types others : List TypeWord} {before otherBefore : List Char}
    (plain : '#' ∉ before) (otherPlain : '#' ∉ otherBefore) (clean : '#' ∉ rest)
    (otherClean : '#' ∉ otherRest) (ends : ∀ char ∈ rest.head?, char.isDigit = false)
    (otherEnds : ∀ char ∈ otherRest.head?, char.isDigit = false)
    (same : before ++ (mangleTypeArgs types ++ rest) = otherBefore ++ (mangleTypeArgs others ++ otherRest)) :
    types = others ∧ (types ≠ [] → before = otherBefore ∧ rest = otherRest) := by
  have hash : ∀ (before rest : List Char) (ty : TypeWord) (types : List TypeWord),
      '#' ∈ before ++ (mangleTypeArgs (ty :: types) ++ rest) := by
    intro before rest ty types
    rw [mangleTypeArgs_cons]
    simp
  induction types generalizing others before otherBefore with
  | nil =>
    cases others with
    | nil => exact ⟨rfl, fun impossible => absurd rfl impossible⟩
    | cons other others =>
      have member := hash otherBefore otherRest other others
      rw [← same] at member
      exact absurd member (by simp [mangleTypeArgs, plain, clean])
  | cons ty types ih =>
    cases others with
    | nil =>
      have member := hash before rest ty types
      rw [same] at member
      exact absurd member (by simp [mangleTypeArgs, otherPlain, otherClean])
    | cons other others =>
      rw [mangleTypeArgs_cons, mangleTypeArgs_cons, List.append_assoc, List.append_assoc,
        ← List.append_assoc before, ← List.append_assoc otherBefore, List.cons_append,
        List.cons_append] at same
      obtain ⟨names, tails⟩ := append_mark_inj (by simp [plain, hash_notMem_typeName])
        (by simp [otherPlain, hash_notMem_typeName]) same
      rw [List.append_assoc, List.append_assoc] at tails
      obtain ⟨numbers, later⟩ := decimal_append_inj (mangleTypeArgs_stops ends) (mangleTypeArgs_stops otherEnds) tails
      obtain rfl := BitVec.eq_of_toNat_eq numbers
      obtain ⟨rfl, -⟩ := @ih others [] [] List.not_mem_nil List.not_mem_nil later
      refine ⟨rfl, fun _ => ⟨List.append_cancel_right names, ?_⟩⟩
      exact List.append_cancel_left later

theorem mangleValueArgs_stops (valueArgs : List ConstValue) :
    ∀ char ∈ (mangleValueArgs valueArgs).head?, char.isDigit = false := by
  cases valueArgs with
  | nil =>
    intro char first
    cases first
  | cons value valueArgs =>
    intro char first
    cases first
    rfl

theorem eq_or_extends_of_mangle_eq {other : SpecializationKey}
    (same : mangleSpecializedName key = mangleSpecializedName other) :
    key = other ∨ (key.typeArgs = [] ∧ other.typeArgs = [] ∧ (Extends key other ∨ Extends other key)) := by
  obtain ⟨⟨_, plain⟩, types, values⟩ := key
  obtain ⟨⟨_, otherPlain⟩, _, otherValues⟩ := other
  simp only [mangleSpecializedName, List.append_assoc] at same
  obtain ⟨rfl, rests⟩ := mangleTypeArgs_inj plain otherPlain (hash_notMem_mangleValueArgs values)
    (hash_notMem_mangleValueArgs otherValues) (mangleValueArgs_stops values)
    (mangleValueArgs_stops otherValues) same
  have injective := spell_injective quiet_mangleValue mangleValue_injective
  cases types with
  | cons ty types =>
    obtain ⟨rfl, valuesSame⟩ := rests (List.cons_ne_nil ty types)
    obtain rfl := injective valuesSame
    exact .inl rfl
  | nil =>
    rcases List.append_eq_append_iff.mp same with ⟨text, rfl, cut⟩ | ⟨text, rfl, cut⟩
    · obtain ⟨taken, rfl, rfl⟩ := exists_of_append_spell quiet_mangleValue mangleValue_injective cut
      cases taken with
      | nil => exact .inl (by simp)
      | cons value taken => exact .inr ⟨rfl, rfl, .inl ⟨_, List.cons_ne_nil _ _, rfl, rfl⟩⟩
    · obtain ⟨taken, rfl, rfl⟩ := exists_of_append_spell quiet_mangleValue mangleValue_injective cut
      cases taken with
      | nil => exact .inl (by simp)
      | cons value taken => exact .inr ⟨rfl, rfl, .inr ⟨_, List.cons_ne_nil _ _, rfl, rfl⟩⟩

theorem mangle_of_noTypes (noTypes : key.typeArgs = []) :
    mangleSpecializedName key = key.baseName.text ++ mangleValueArgs key.valueArgs := by
  simp [mangleSpecializedName, noTypes, mangleTypeArgs]

theorem noTypes_of_plain (plain : '#' ∉ mangleSpecializedName key) : key.typeArgs = [] := by
  cases types : key.typeArgs with
  | nil => rfl
  | cons ty rest =>
    refine absurd ?_ plain
    rw [mangleSpecializedName, types, mangleTypeArgs_cons]
    simp

theorem isSome_lookup_iff : (entries.lookup key).isSome ↔ key ∈ entries.map Prod.fst := by
  constructor
  · intro found
    obtain ⟨entry, found⟩ := Option.isSome_iff_exists.mp found
    obtain ⟨_, _, rfl, -⟩ := List.lookup_eq_some_iff.mp found
    rw [List.map_append]
    exact List.mem_append_right _ (.head _)
  · intro member
    by_contra absent
    rw [Option.isSome_iff_ne_none, not_not, List.lookup_eq_none_iff] at absent
    obtain ⟨entry, stored, rfl⟩ := List.mem_map.mp member
    exact absurd (absent entry stored) (by rw [bne_self_eq_false]; exact Bool.false_ne_true)

theorem mem_of_lookup {entry : Entry} (found : entries.lookup key = some entry) : (key, entry) ∈ entries := by
  obtain ⟨_, _, rfl, -⟩ := List.lookup_eq_some_iff.mp found
  simp

variable {Other : Type}

structure Collected (seen : Seen) : Prop where
  nodup : (seen.map Prod.fst).Nodup
  named : ∀ spec ∈ seen, spec.2.mangledName = mangleSpecializedName spec.1

theorem Collected.nil : Collected [] where
  nodup := List.nodup_nil
  named := fun _ member => nomatch member

theorem collectInst_cases (air : Air Other) (seen : Seen) (entry : AirInst Other × Nat) :
    collectInst air seen entry = seen ∨ ∃ key, air.keyAt entry.2 entry.1.data = some key ∧ key ∉ seen.map Prod.fst ∧
      collectInst air seen entry = seen ++ [(key, ⟨mangleSpecializedName key, entry.1.span⟩)] := by
  unfold collectInst
  split
  case h_1 key asked =>
      split
      case isTrue => exact .inl rfl
      case isFalse unseen => exact .inr ⟨key, asked, fun member =>
        unseen (isSome_lookup_iff.2 member), rfl⟩
  case h_2 => exact .inl rfl

theorem Collected.collectInst (collected : Collected seen) (air : Air Other)
    (entry : AirInst Other × Nat) : Collected (collectInst air seen entry) := by
  rcases collectInst_cases air seen entry with same | ⟨key, -, unseen, grown⟩
  · rwa [same]
  · rw [grown]
    constructor
    · rw [List.map_append, List.nodup_append]
      refine ⟨collected.nodup, List.nodup_cons.mpr ⟨List.not_mem_nil, List.nodup_nil⟩, ?_⟩
      intro other member _ own same
      obtain rfl : other = key := same.trans (List.mem_singleton.mp own)
      exact unseen member
    · intro spec member
      rcases List.mem_append.mp member with old | new
      · exact collected.named spec old
      · rw [List.mem_singleton.mp new]

theorem Collected.collectAll (collected : Collected seen) (rows : List (AnalyzedRow Other)) :
    Collected (rows.foldl collectSpecializations seen) := by
  induction rows generalizing seen with
  | nil => exact collected
  | cons row rows ih =>
    apply ih
    unfold collectSpecializations
    generalize row.air.instructions.zipIdx = entries
    induction entries generalizing seen with
    | nil => exact collected
    | cons entry entries ihEntries => exact ihEntries (collected.collectInst row.air entry)

theorem mem_collectInst {air : Air Other} {seen : Seen} {entry : AirInst Other × Nat} :
    key ∈ (collectInst air seen entry).map Prod.fst ↔
      key ∈ seen.map Prod.fst ∨ air.keyAt entry.2 entry.1.data = some key := by
  unfold collectInst
  split
  case h_1 asked found =>
      rw [found]
      split
      case isTrue seenBefore =>
          refine ⟨.inl, fun known => known.elim id fun own => ?_⟩
          exact Option.some.inj own ▸ isSome_lookup_iff.1 seenBefore
      case isFalse => simp [eq_comm]
  case h_2 unasked => simp [unasked]

theorem mem_collectSpecializations : key ∈ (collectSpecializations seen row).map Prod.fst ↔
      key ∈ seen.map Prod.fst ∨ ∃ index, row.air.AsksAt index key := by
  have entered : ∀ (entries : List (AirInst Other × Nat)) (seen : Seen),
      key ∈ (entries.foldl (collectInst row.air) seen).map Prod.fst ↔ key ∈ seen.map Prod.fst ∨
          ∃ entry ∈ entries, row.air.keyAt entry.2 entry.1.data = some key := by
    intro entries
    induction entries with
    | nil => simp
    | cons entry entries ih =>
      intro seen
      rw [List.foldl_cons, ih, mem_collectInst, or_assoc]
      simp
  rw [collectSpecializations, entered]
  simp only [Prod.exists, List.mk_mem_zipIdx_iff_getElem?]
  rw [exists_comm]
  rfl

theorem mem_collectAll {rows : List (AnalyzedRow Other)} :
    key ∈ (rows.foldl collectSpecializations seen).map Prod.fst ↔
      key ∈ seen.map Prod.fst ∨ ∃ row ∈ rows, ∃ index, row.air.AsksAt index key := by
  induction rows generalizing seen with
  | nil => simp
  | cons row rows ih =>
    rw [List.foldl_cons, ih, mem_collectSpecializations, or_assoc]
    simp

theorem rewriteInst_named (found : ((air.keyAt index inst.data).bind fun key => nameMap.lookup key) = some name) :
    ∃ argsStart argsLen, rewriteInst air nameMap inst index = ⟨.call name argsStart argsLen, inst.span⟩ := by
  obtain ⟨data, span⟩ := inst
  cases data with
  | callGeneric base typesAt types argsAt args =>
    refine ⟨argsAt, args, ?_⟩
    simp [rewriteInst, found]
  | call called argsAt args => cases found
  | other data => cases found

theorem rewriteInst_unnamed (unnamed : ((air.keyAt index inst.data).bind fun key => nameMap.lookup key) = none) :
    rewriteInst air nameMap inst index = inst := by
  obtain ⟨data, _⟩ := inst
  cases data with
  | callGeneric base typesAt types argsAt args => simp [rewriteInst, unnamed]
  | call called argsAt args => rfl
  | other data => rfl

theorem getElem?_rewriteCallGeneric (nameMap : NameMap) (row : AnalyzedRow Other) (index : Nat) :
    (rewriteCallGeneric nameMap row).air.instructions[index]? =
      row.air.instructions[index]?.map fun inst => rewriteInst row.air nameMap inst index := by
  simp [rewriteCallGeneric, List.getElem?_map, List.getElem?_zipIdx, Function.comp_def]

/-- What the pass has made of a given body: every instruction is as it was given, or was a
generic call for one of these keys and calls its mangled name. -/
structure Rewrites (keys : List SpecializationKey) (given air : Air Other) : Prop where
  extra : air.extra = given.extra
  values : air.comptimeValueArgs = given.comptimeValueArgs
  instruction : ∀ index, air.instructions[index]? = given.instructions[index]? ∨
    ∃ key ∈ keys, given.AsksAt index key ∧ ∃ argsStart argsLen span,
      air.instructions[index]? = some ⟨.call (mangleSpecializedName key) argsStart argsLen, span⟩

theorem Rewrites.refl (keys : List SpecializationKey) (given : Air Other) : Rewrites keys given given where
  extra := rfl
  values := rfl
  instruction := fun _ => .inl rfl

theorem keyAt_congr {air given : Air Other} (extra : air.extra = given.extra)
    (values : air.comptimeValueArgs = given.comptimeValueArgs) (index : Nat)
    (data : AirInstData Other) : air.keyAt index data = given.keyAt index data := by
  cases data with
  | callGeneric name typesAt types argsAt args =>
    simp [Air.keyAt, Air.getExtra, Air.valueArgs, extra, values]
  | call name argsAt args => rfl
  | other data => rfl

theorem Rewrites.asksAt (rewrites : Rewrites keys given air) {index : Nat} {key : SpecializationKey}
    (asks : air.AsksAt index key) : given.AsksAt index key := by
  obtain ⟨inst, held, asked⟩ := asks
  rcases rewrites.instruction index with same | ⟨_, -, -, _, _, _, called⟩
  · refine ⟨inst, same ▸ held, ?_⟩
    rwa [keyAt_congr rewrites.extra rewrites.values] at asked
  · rw [called] at held
    cases held
    cases asked

theorem Rewrites.again (rewrites : Rewrites keys row.given row.air) (grown : ∀ key ∈ keys, key ∈ nameMap.map Prod.fst)
    (named : ∀ entry ∈ nameMap, entry.2 = mangleSpecializedName entry.1) :
    Rewrites (nameMap.map Prod.fst) row.given (rewriteCallGeneric nameMap row).air where
  extra := rewrites.extra
  values := rewrites.values
  instruction := by
    intro index
    rw [getElem?_rewriteCallGeneric]
    rcases rewrites.instruction index with same | ⟨key, known, asks, argsStart, argsLen, span, held⟩
    · cases held : row.air.instructions[index]? with
      | none => exact .inl (by rw [← same, held]; rfl)
      | some inst =>
        cases found : (row.air.keyAt index inst.data).bind fun key => nameMap.lookup key with
        | none =>
          rw [Option.map_some, rewriteInst_unnamed found, ← held]
          exact .inl same
        | some name =>
          obtain ⟨argsStart, argsLen, called⟩ := rewriteInst_named found
          obtain ⟨key, asked, found⟩ := Option.bind_eq_some_iff.mp found
          have stored := mem_of_lookup found
          have mangled : name = mangleSpecializedName key := named _ stored
          refine .inr ⟨key, List.mem_map_of_mem stored,
            rewrites.asksAt ⟨inst, held, asked⟩, argsStart, argsLen, inst.span, ?_⟩
          rw [Option.map_some, called, mangled]
    · refine .inr ⟨key, grown key known, asks, argsStart, argsLen, span, ?_⟩
      rw [held]
      rfl

theorem Rewrites.call_of_closed (rewrites : Rewrites keys given air) {index : Nat}
    {key : SpecializationKey} (closed : ¬ air.AsksAt index key) (asks : given.AsksAt index key) :
    key ∈ keys ∧ ∃ argsStart argsLen span, air.instructions[index]? =
        some ⟨.call (mangleSpecializedName key) argsStart argsLen, span⟩ := by
  obtain ⟨inst, held, asked⟩ := asks
  rcases rewrites.instruction index with same | ⟨_, known, ⟨given, otherHeld, own⟩, called⟩
  · refine absurd ⟨inst, same ▸ held, ?_⟩ closed
    rwa [keyAt_congr rewrites.extra rewrites.values]
  · rw [held] at otherHeld
    obtain rfl := Option.some.inj otherHeld
    obtain rfl := Option.some.inj (asked.symm.trans own)
    exact ⟨known, called⟩

theorem Rewrites.name_of_call (rewrites : Rewrites keys given air) {index argsStart argsLen : Nat}
    {span : Span} {key : SpecializationKey} (asks : given.AsksAt index key)
    (called : air.instructions[index]? = some ⟨.call name argsStart argsLen, span⟩) :
    key ∈ keys ∧ name = mangleSpecializedName key := by
  have closed : ¬ air.AsksAt index key := by
    rintro ⟨_, held, asked⟩
    rw [called] at held
    cases held
    cases asked
  obtain ⟨known, _, _, _, own⟩ := rewrites.call_of_closed closed asks
  rw [called] at own
  cases own
  exact ⟨known, rfl⟩

def recordNames (newSpecs : Seen) (nameMap : NameMap) : NameMap :=
  newSpecs.foldl (fun names (key, info) => (key, info.mangledName) :: names) nameMap

theorem recordNames_perm (newSpecs : Seen) (nameMap : NameMap) : (recordNames newSpecs nameMap).Perm
      (newSpecs.map (fun spec => (spec.1, spec.2.mangledName)) ++ nameMap) := by
  induction newSpecs generalizing nameMap with
  | nil => exact .refl _
  | cons spec newSpecs ih => exact (ih _).trans List.perm_middle

theorem rewriteCallGeneric_closed (covered : ∀ index key, row.air.AsksAt index key → key ∈ nameMap.map Prod.fst)
    (member : inst ∈ (rewriteCallGeneric nameMap row).air.instructions) (name : FunctionName)
    (typesAt types argsAt args : Nat) :
    inst.data ≠ .callGeneric name typesAt types argsAt args := by
  obtain ⟨index, held⟩ := List.mem_iff_getElem?.mp member
  rw [getElem?_rewriteCallGeneric, Option.map_eq_some_iff] at held
  obtain ⟨before, held, rfl⟩ := held
  cases found : (row.air.keyAt index before.data).bind fun key => nameMap.lookup key with
  | some mangled =>
    obtain ⟨_, _, called⟩ := rewriteInst_named found
    rw [called]
    intro generic
    cases generic
  | none =>
    rw [rewriteInst_unnamed found]
    intro generic
    have asked : row.air.keyAt index before.data =
        some ⟨name, row.air.getExtra typesAt types, row.air.valueArgs index⟩ := by
      rw [generic]
      rfl
    have known := covered index _ ⟨before, held, asked⟩
    rw [asked, Option.bind_some] at found
    exact absurd (isSome_lookup_iff.2 known) (by rw [found]; exact Bool.false_ne_true)

variable {Sema Base Refs Failure : Type}

structure Tracked (pending : List SpecializationKey) (state : PassState Other Sema Refs) :
    Prop where
  named : ∀ entry ∈ state.nameMap, entry.2 = mangleSpecializedName entry.1
  nodup : (state.nameMap.map Prod.fst).Nodup
  requested : ∀ key ∈ state.nameMap.map Prod.fst, Requested state.rows key
  plain : ∀ row ∈ state.rows, row.origin = none → '#' ∉ row.name
  origin : ∀ row ∈ state.rows, ∀ key ∈ row.origin, row.name = mangleSpecializedName key
  bodies : (state.rows.filterMap AnalyzedRow.origin ++ pending).Perm (state.nameMap.map Prod.fst)
  rewrites : ∀ row ∈ state.rows, Rewrites (state.nameMap.map Prod.fst) row.given row.air

theorem Requested.append {rows : List (AnalyzedRow Other)} (requested : Requested rows key)
    (more : List (AnalyzedRow Other)) : Requested (rows ++ more) key := by
  obtain ⟨row, member, asked⟩ := requested
  exact ⟨row, List.mem_append_left _ member, asked⟩

theorem Tracked.append {rest : List SpecializationKey} (tracked : Tracked pending state)
    (fresh : row.air = row.given) (plain : row.origin = none → '#' ∉ row.name)
    (origin : ∀ key ∈ row.origin, row.name = mangleSpecializedName key)
    (owed : pending = row.origin.toList ++ rest) (sema : Sema) (refs : Refs) :
    Tracked rest { state with rows := state.rows ++ [row], sema, refs } where
  named := tracked.named
  nodup := tracked.nodup
  requested := fun key known => (tracked.requested key known).append [row]
  plain := by
    intro other member ordinary
    rcases List.mem_append.mp member with old | new
    · exact tracked.plain other old ordinary
    · obtain rfl := List.mem_singleton.mp new
      exact plain ordinary
  origin := by
    intro other member key made
    rcases List.mem_append.mp member with old | new
    · exact tracked.origin other old key made
    · obtain rfl := List.mem_singleton.mp new
      exact origin key made
  bodies := by
    have one : [row].filterMap AnalyzedRow.origin = row.origin.toList := by
      cases made : row.origin <;> simp [made]
    rw [List.filterMap_append, one, List.append_assoc, ← owed]
    exact tracked.bodies
  rewrites := by
    intro other member
    rcases List.mem_append.mp member with old | new
    · exact tracked.rewrites other old
    · obtain rfl := List.mem_singleton.mp new
      rw [fresh]
      exact .refl _ _

theorem synthesize_cases (returned : synthesize analyzer state spec = .ok after) :
    ∃ air sema refs, after = { state with
      rows := state.rows ++ [{ name := spec.2.mangledName, air, given := air, origin := some spec.1 }]
      sema, refs } := by
  unfold synthesize at returned
  dsimp only at returned
  split at returned
  case h_1 => cases returned
  case h_2 =>
      split at returned
      case h_1 => cases returned
      case h_2 air sema refs _ => exact ⟨air, sema, refs, (Except.ok.inj returned).symm⟩

theorem Tracked.synthesize (tracked : Tracked (spec.1 :: pending) state)
    (mangled : spec.2.mangledName = mangleSpecializedName spec.1)
    (returned : synthesize analyzer state spec = .ok after) : Tracked pending after := by
  obtain ⟨_, sema, refs, rfl⟩ := synthesize_cases returned
  refine tracked.append rfl (fun ordinary => by cases ordinary) ?_ rfl sema refs
  intro key made
  obtain rfl : spec.1 = key := Option.some.inj made
  exact mangled

theorem Tracked.synthesizeAll {specs : Seen} (tracked : Tracked (specs.map Prod.fst) state)
    (mangled : ∀ spec ∈ specs, spec.2.mangledName = mangleSpecializedName spec.1)
    (returned : specs.foldlM (Specialize.synthesize analyzer) state = .ok after) :
    Tracked [] after := by
  induction specs generalizing state with
  | nil =>
    obtain rfl := Except.ok.inj returned
    exact tracked
  | cons spec specs ih =>
    rw [List.foldlM_cons] at returned
    cases first : Specialize.synthesize analyzer state spec with
    | error error =>
      rw [first] at returned
      cases returned
    | ok next =>
      rw [first] at returned
      exact ih (tracked.synthesize (mangled spec (.head _)) first)
        (fun other member => mangled other (.tail _ member)) returned
theorem collectAndRewrite_state (order : Seen → Seen) (state : PassState Other Sema Refs) :
    (collectAndRewrite order state).2 = { state with
        nameMap := recordNames (collectAndRewrite order state).1 state.nameMap
        rows := state.rows.map (rewriteCallGeneric
          (recordNames (collectAndRewrite order state).1 state.nameMap)) } := rfl

section Round

variable {order : Seen → Seen} (permutes : ∀ seen, (order seen).Perm seen)
include permutes

theorem collectAndRewrite_nodup (state : PassState Other Sema Refs) :
    ((collectAndRewrite order state).1.map Prod.fst).Nodup := by
  have collected : Collected (state.rows.foldl collectSpecializations []) :=
    Collected.nil.collectAll _
  refine ((permutes _).map Prod.fst).nodup_iff.mpr ?_
  exact collected.nodup.sublist (List.filter_sublist.map Prod.fst)

theorem mem_collectAndRewrite {state : PassState Other Sema Refs} {spec : SpecializationKey × SpecializationInfo}
    (member : spec ∈ (collectAndRewrite order state).1) :
    spec.2.mangledName = mangleSpecializedName spec.1 ∧ spec.1 ∉ state.nameMap.map Prod.fst ∧
      ∃ row ∈ state.rows, ∃ index, row.air.AsksAt index spec.1 := by
  have collected : Collected (state.rows.foldl collectSpecializations []) :=
    Collected.nil.collectAll _
  obtain ⟨inside, unnamed⟩ := List.mem_filter.mp ((permutes _).mem_iff.mp member)
  refine ⟨collected.named spec inside, fun known => ?_, ?_⟩
  · have named := isSome_lookup_iff.2 known
    rw [Option.isNone_iff_eq_none.mp unnamed] at named
    cases named
  · exact (mem_collectAll.1 (List.mem_map_of_mem inside)).resolve_left List.not_mem_nil

theorem covered_of_asksAt {state : PassState Other Sema Refs} {row : AnalyzedRow Other}
    (member : row ∈ state.rows) {index : Nat} {key : SpecializationKey}
    (asks : row.air.AsksAt index key) :
    key ∈ state.nameMap.map Prod.fst ∨ key ∈ (collectAndRewrite order state).1.map Prod.fst := by
  obtain ⟨spec, inside, rfl⟩ := List.mem_map.mp (mem_collectAll.2 (.inr ⟨row, member, index, asks⟩) :
      key ∈ (state.rows.foldl collectSpecializations []).map Prod.fst)
  by_cases known : spec.1 ∈ state.nameMap.map Prod.fst
  · exact .inl known
  · refine .inr (List.mem_map_of_mem ((permutes _).mem_iff.mpr (List.mem_filter.mpr ⟨inside, ?_⟩)))
    rw [Option.isNone_iff_eq_none, ← Option.not_isSome_iff_eq_none, isSome_lookup_iff]
    exact known

theorem Tracked.collectAndRewrite {state : PassState Other Sema Refs} (tracked : Tracked [] state) :
    Tracked ((collectAndRewrite order state).1.map Prod.fst) (Specialize.collectAndRewrite order state).2 := by
  have specsNodup := collectAndRewrite_nodup permutes state
  have specsNamed := @mem_collectAndRewrite _ _ _ order permutes state
  rw [collectAndRewrite_state]
  generalize (Specialize.collectAndRewrite order state).1 = specs at specsNodup specsNamed
  have recorded := recordNames_perm specs state.nameMap
  have keys : ((recordNames specs state.nameMap).map Prod.fst).Perm
      (specs.map Prod.fst ++ state.nameMap.map Prod.fst) := by
    simpa [Function.comp_def] using recorded.map Prod.fst
  have named : ∀ entry ∈ recordNames specs state.nameMap, entry.2 = mangleSpecializedName entry.1 := by
    intro entry member
    rcases List.mem_append.mp (recorded.mem_iff.mp member) with new | old
    · obtain ⟨spec, inside, rfl⟩ := List.mem_map.mp new
      exact (specsNamed inside).1
    · exact tracked.named entry old
  constructor
  case named => exact named
  case nodup =>
      refine keys.nodup_iff.mpr (List.nodup_append.mpr ⟨specsNodup, tracked.nodup, ?_⟩)
      rintro key new _ old rfl
      obtain ⟨spec, inside, rfl⟩ := List.mem_map.mp new
      exact (specsNamed inside).2.1 old
  case requested =>
      intro key known
      have before : Requested state.rows key := by
        rcases List.mem_append.mp (keys.mem_iff.mp known) with new | old
        · obtain ⟨spec, inside, rfl⟩ := List.mem_map.mp new
          obtain ⟨row, member, index, asks⟩ := (specsNamed inside).2.2
          exact ⟨row, member, index, (tracked.rewrites row member).asksAt asks⟩
        · exact tracked.requested key old
      obtain ⟨row, member, index, asks⟩ := before
      exact ⟨_, List.mem_map_of_mem member, index, asks⟩
  case plain =>
      intro row member ordinary
      obtain ⟨before, inside, rfl⟩ := List.mem_map.mp member
      exact tracked.plain before inside ordinary
  case origin =>
      intro row member key made
      obtain ⟨before, inside, rfl⟩ := List.mem_map.mp member
      exact tracked.origin before inside key made
  case bodies =>
      have origins : (state.rows.map (rewriteCallGeneric
          (recordNames specs state.nameMap))).filterMap AnalyzedRow.origin =
            state.rows.filterMap AnalyzedRow.origin := by
        rw [List.filterMap_map]
        rfl
      have bodies : (state.rows.filterMap AnalyzedRow.origin).Perm (state.nameMap.map Prod.fst) := by
        simpa using tracked.bodies
      rw [origins]
      exact ((bodies.append_right _).trans List.perm_append_comm).trans keys.symm
  case rewrites =>
      intro row member
      obtain ⟨before, inside, rfl⟩ := List.mem_map.mp member
      exact (tracked.rewrites before inside).again
        (fun key known => keys.mem_iff.mpr (List.mem_append_right _ known)) named

theorem Tracked.specialize {analyzer : Analyzer Other Sema Base Refs Failure}
    {state after : PassState Other Sema Refs} {fuel : Nat} (tracked : Tracked [] state)
    (returned : specialize analyzer order fuel state = some (.ok after)) :
    Tracked [] after ∧ ∀ row ∈ after.rows, ∀ inst ∈ row.air.instructions,
      ∀ name typesAt types argsAt args, inst.data ≠ .callGeneric name typesAt types argsAt args := by
  induction fuel generalizing state with
  | zero => cases returned
  | succ fuel ih =>
    have round := tracked.collectAndRewrite permutes
    have specsNamed := @mem_collectAndRewrite _ _ _ order permutes state
    have covered := @covered_of_asksAt _ _ _ order permutes state
    have shape := collectAndRewrite_state order state
    unfold Specialize.specialize at returned
    generalize Specialize.collectAndRewrite order state = next at *
    obtain ⟨_, next⟩ := next
    dsimp only at *
    split at returned
    case isTrue empty =>
        obtain rfl := List.isEmpty_iff.mp empty
        obtain rfl : next = after := by simpa using returned
        refine ⟨round, ?_⟩
        rw [shape]
        intro row member inst inside
        obtain ⟨_, held, rfl⟩ := List.mem_map.mp member
        refine rewriteCallGeneric_closed (fun index key asks => ?_) inside
        exact (covered held asks).resolve_right List.not_mem_nil
    case isFalse =>
        split at returned
        case h_1 => cases returned
        case h_2 later synthesized =>
            exact ih (round.synthesizeAll (fun spec member => (specsNamed member).1) synthesized) returned

end Round

variable {rows : List (AnalyzedRow Other)} {key : SpecializationKey}

theorem Run.tracked {analyzer : Analyzer Other Sema Base Refs Failure} {order : Seen → Seen}
    (permutes : ∀ seen, (order seen).Perm seen) {state : PassState Other Sema Refs}
    (run : Run analyzer order state) : Tracked [] state := by
  induction run with
  | start sema refs =>
    constructor
    case nodup => exact List.nodup_nil
    case bodies => exact .refl _
    all_goals
      intro _ absent
      cases absent
  | analyze _ name air sema refs ih =>
    exact ih.append rfl (fun _ => name.plain) (fun _ made => by cases made) rfl sema refs
  | specialize _ returned ih => exact (ih.specialize permutes returned).1

theorem origin_position (nodup : (rows.filterMap AnalyzedRow.origin).Nodup) {first second : Nat}
    {row other : AnalyzedRow Other} (held : rows[first]? = some row)
    (otherHeld : rows[second]? = some other) (made : row.origin = some key)
    (otherMade : other.origin = some key) : first = second := by
  have ordered : rows.Pairwise fun row other => ∀ key ∈ row.origin, ∀ otherKey ∈ other.origin,
      key ≠ otherKey := List.pairwise_filterMap.mp nodup
  by_contra apart
  obtain ⟨inBounds, rfl⟩ := List.getElem?_eq_some_iff.mp held
  obtain ⟨otherBounds, rfl⟩ := List.getElem?_eq_some_iff.mp otherHeld
  rcases Nat.lt_or_gt_of_ne apart with earlier | later
  · exact List.pairwise_iff_getElem.mp ordered first second inBounds otherBounds earlier key made key otherMade rfl
  · exact List.pairwise_iff_getElem.mp ordered second first otherBounds inBounds later key otherMade key made rfl

theorem NoClash.mangle_injOn (apart : NoClash rows) {other : SpecializationKey}
    (asked : Requested rows key) (otherAsked : Requested rows other)
    (same : mangleSpecializedName key = mangleSpecializedName other) : key = other := by
  rcases eq_or_extends_of_mangle_eq same with equal | ⟨noTypes, otherNoTypes, extended⟩
  · exact equal
  · rcases extended with extended | extended
    · exact absurd extended (apart.requested key asked noTypes other otherAsked otherNoTypes)
    · exact absurd extended (apart.requested other otherAsked otherNoTypes key asked noTypes)

section Names

variable {state : PassState Other Sema Refs} (tracked : Tracked [] state)
variable {key : SpecializationKey}

include tracked

theorem Tracked.bodies_nodup : (state.rows.filterMap AnalyzedRow.origin).Nodup := by
  have bodies := tracked.bodies
  rw [List.append_nil] at bodies
  exact bodies.nodup_iff.mpr tracked.nodup

theorem Tracked.mem_keys {row : AnalyzedRow Other} (member : row ∈ state.rows)
    (made : row.origin = some key) : key ∈ state.nameMap.map Prod.fst := by
  have bodies := tracked.bodies
  rw [List.append_nil] at bodies
  exact bodies.mem_iff.mp (List.mem_filterMap.mpr ⟨row, member, made⟩)

theorem Tracked.exists_body (known : key ∈ state.nameMap.map Prod.fst) :
    ∃ (position : Nat) (row : AnalyzedRow Other), state.rows[position]? = some row ∧
      row.origin = some key ∧ row.name = mangleSpecializedName key := by
  have bodies := tracked.bodies
  rw [List.append_nil] at bodies
  obtain ⟨row, member, made⟩ := List.mem_filterMap.mp (bodies.mem_iff.mpr known)
  obtain ⟨position, held⟩ := List.mem_iff_getElem?.mp member
  exact ⟨position, row, held, made, tracked.origin row member key made⟩

theorem Tracked.distinct (apart : NoClash state.rows) {position other : Nat} {name : List Char}
    {row : AnalyzedRow Other} (synthesized : Synthesized state.rows position name)
    (held : state.rows[other]? = some row) (named : row.name = name) : other = position := by
  obtain ⟨body, bodyHeld, made, rfl⟩ := synthesized
  obtain ⟨key, made⟩ := Option.isSome_iff_exists.mp made
  have member := List.mem_of_getElem? bodyHeld
  have mangled := tracked.origin body member key made
  have asked := tracked.requested key (tracked.mem_keys member made)
  have otherMember := List.mem_of_getElem? held
  cases otherMade : row.origin with
  | none =>
    have plain := tracked.plain row otherMember otherMade
    rw [named, mangled] at plain
    have noTypes := noTypes_of_plain plain
    refine absurd ?_ (apart.ordinary key asked noTypes)
    rw [← mangle_of_noTypes noTypes, ← mangled, ← named]
    exact List.mem_map_of_mem (List.mem_filter.mpr ⟨otherMember, by simp [otherMade]⟩)
  | some otherKey =>
    have otherMangled := tracked.origin row otherMember otherKey otherMade
    have otherAsked := tracked.requested otherKey (tracked.mem_keys otherMember otherMade)
    obtain rfl : key = otherKey := apart.mangle_injOn asked otherAsked (by rw [← mangled, ← otherMangled, named])
    exact origin_position tracked.bodies_nodup held bodyHeld otherMade made

theorem Tracked.calls_key {name : List Char} (called : Calls state.rows key name) :
    Requested state.rows key ∧ name = mangleSpecializedName key := by
  obtain ⟨row, member, index, asks, _, _, _, held⟩ := called
  have named := ((tracked.rewrites row member).name_of_call asks held).2
  exact ⟨⟨row, member, index, asks⟩, named⟩

variable (closed : ∀ row ∈ state.rows, ∀ inst ∈ row.air.instructions,
  ∀ name typesAt types argsAt args, inst.data ≠ .callGeneric name typesAt types argsAt args)
include closed

theorem Tracked.call_of_asksAt {row : AnalyzedRow Other} (member : row ∈ state.rows) {index : Nat}
    (asks : row.given.AsksAt index key) :
    key ∈ state.nameMap.map Prod.fst ∧ ∃ argsStart argsLen span, row.air.instructions[index]? =
        some ⟨.call (mangleSpecializedName key) argsStart argsLen, span⟩ := by
  refine (tracked.rewrites row member).call_of_closed ?_ asks
  rintro ⟨⟨data, span⟩, held, asked⟩
  cases data with
  | callGeneric name typesAt types argsAt args =>
    exact closed row member _ (List.mem_of_getElem? held) name typesAt types argsAt args rfl
  | call name argsAt args => cases asked
  | other data => cases asked

theorem Tracked.specialized (apart : NoClash state.rows) : Specialized state.rows where
  closed := closed
  oneBody := by
    intro _ member _ key asks
    obtain ⟨known, argsStart, argsLen, span, held⟩ := tracked.call_of_asksAt closed member asks
    obtain ⟨position, body, bodyHeld, bodyMade, named⟩ := tracked.exists_body known
    have synthesized : Synthesized state.rows position (mangleSpecializedName key) :=
      ⟨body, bodyHeld, by rw [bodyMade]; rfl, named⟩
    refine ⟨_, argsStart, argsLen, span, held, position, synthesized, ?_⟩
    rintro other ⟨_, otherHeld, -, otherNamed⟩
    exact tracked.distinct apart synthesized otherHeld otherNamed
  sharing := by
    intro key _ called other _ otherCalled
    obtain ⟨asked, rfl⟩ := tracked.calls_key called
    obtain ⟨otherAsked, rfl⟩ := tracked.calls_key otherCalled
    exact ⟨apart.mangle_injOn asked otherAsked, congrArg _⟩
  distinct := fun _ _ synthesized _ _ held named =>
    tracked.distinct apart synthesized held named

end Names

end Specialize

end Gruel
