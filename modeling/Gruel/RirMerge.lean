import Gruel.RirMergeCore

/-!
`Rir::merge` keeps every file's program where its two renumbering passes agree: the
lists of different instructions do not share words, match arms use the four oldest
pattern kinds, and the three places one of the passes misses are not reached.
-/

namespace Gruel

open WordStream

theorem getElem?_of_take_eq {data other : List Word} {size index : Nat}
    (same : other.take size = data.take size) (inside : index < size) :
    other[index]? = data[index]? := by
  rw [← List.getElem?_take_of_lt inside, same, List.getElem?_take_of_lt inside]

theorem lt_length_of_getElem? {data : List Word} {index : Nat} {word : Word}
    (present : data[index]? = some word) : index < data.length :=
  (List.getElem?_eq_some_iff.mp present).1

theorem local_of_width {α : Type} {decode : Decoder Word α} (width : Nat)
    (front : ∀ data, decode data = decode (data.take width))
    (sized : ∀ {data value size}, decode data = some (value, size) → size = width ∧ width ≤ data.length) :
    Local decode fun _ => True where
  inside decoded _ := by
    obtain ⟨rfl, inside⟩ := sized decoded
    exact inside
  same decoded _ same := by
    obtain ⟨rfl, -⟩ := sized decoded
    rw [front, same, ← front]
    exact decoded

theorem decodeSpur_local : Local decodeSpur fun _ => True := by
  apply local_of_width 1
  · simp [decodeSpur]
  · intro _ _ _ decoded
    simp only [decodeSpur, Option.bind_eq_bind, Option.bind_eq_some_iff, Option.some.injEq, Prod.mk.injEq] at decoded
    obtain ⟨_, present, _, _, _, rfl⟩ := decoded
    exact ⟨rfl, lt_length_of_getElem? present⟩

theorem decodeInstRef_local : Local decodeInstRef fun _ => True := by
  apply local_of_width 1
  · simp [decodeInstRef]
  · intro _ _ _ decoded
    simp only [decodeInstRef, Option.bind_eq_bind, Option.bind_eq_some_iff, Option.some.injEq,
      Prod.mk.injEq] at decoded
    obtain ⟨_, present, _, rfl⟩ := decoded
    exact ⟨rfl, lt_length_of_getElem? present⟩

theorem decodeCallArg_local : Local decodeCallArg fun _ => True := by
  apply local_of_width 2
  · simp [decodeCallArg]
  · intro _ _ _ decoded
    simp only [decodeCallArg, Option.bind_eq_bind, Option.bind_eq_some_iff, Option.some.injEq,
      Prod.mk.injEq] at decoded
    obtain ⟨_, _, _, present, _, rfl⟩ := decoded
    exact ⟨rfl, lt_length_of_getElem? present⟩

theorem decodeFieldInit_local : Local decodeFieldInit fun _ => True := by
  apply local_of_width 2
  · simp [decodeFieldInit]
  · intro _ _ _ decoded
    simp only [decodeFieldInit, Option.bind_eq_bind, Option.bind_eq_some_iff, Option.some.injEq,
      Prod.mk.injEq] at decoded
    obtain ⟨_, _, _, _, _, present, _, rfl⟩ := decoded
    exact ⟨rfl, lt_length_of_getElem? present⟩

theorem decodeParam_local : Local decodeParam fun _ => True := by
  apply local_of_width 4
  · simp [decodeParam]
  · intro _ _ _ decoded
    simp only [decodeParam, Option.bind_eq_bind, Option.bind_eq_some_iff, Option.some.injEq, Prod.mk.injEq] at decoded
    obtain ⟨_, _, _, _, _, _, _, _, _, _, _, present, _, rfl⟩ := decoded
    exact ⟨rfl, lt_length_of_getElem? present⟩

theorem decodeFieldDecl_local : Local decodeFieldDecl fun _ => True := by
  apply local_of_width 3
  · simp [decodeFieldDecl]
  · intro _ _ _ decoded
    simp only [decodeFieldDecl, Option.bind_eq_bind, Option.bind_eq_some_iff, Option.some.injEq,
      Prod.mk.injEq] at decoded
    obtain ⟨_, _, _, _, _, _, _, _, _, present, _, rfl⟩ := decoded
    exact ⟨rfl, lt_length_of_getElem? present⟩

theorem decodeDestructureField_local : Local decodeDestructureField fun _ => True := by
  apply local_of_width 4
  · simp [decodeDestructureField]
  · intro _ _ _ decoded
    simp only [decodeDestructureField, Option.bind_eq_bind, Option.bind_eq_some_iff,
      Option.some.injEq, Prod.mk.injEq] at decoded
    obtain ⟨_, _, _, _, _, _, _, _, _, _, _, present, _, rfl⟩ := decoded
    exact ⟨rfl, lt_length_of_getElem? present⟩

theorem decodeDirective_local : Local decodeDirective fun _ => True where
  inside {data value size} decoded _ := by
    simp only [decodeDirective, Option.bind_eq_bind, Option.bind_eq_some_iff, Option.some.injEq,
      Prod.mk.injEq] at decoded
    obtain ⟨_, _, _, _, _, _, _, _, count, present, ⟨args, stop⟩, read, _, rfl⟩ := decoded
    exact stop_le_length_of_decodeMany decodeSpur_local read (fun _ _ => trivial) (lt_length_of_getElem? present)
  same {data value size other} decoded _ same := by
    simp only [decodeDirective, Option.bind_eq_bind, Option.bind_eq_some_iff, Option.some.injEq,
      Prod.mk.injEq] at decoded
    obtain ⟨_, namePresent, _, nameRead, _, startPresent, _, lenPresent, count,
      countPresent, ⟨args, stop⟩, read, rfl, rfl⟩ := decoded
    have inside := le_of_decodeMany read
    have again := decodeMany_same decodeSpur_local read (fun _ _ => trivial) (Nat.le_refl _) same
    simp [decodeDirective, getElem?_of_take_eq same (by omega : 0 < stop), namePresent, nameRead,
      getElem?_of_take_eq same (by omega : 1 < stop), startPresent,
      getElem?_of_take_eq same (by omega : 2 < stop), lenPresent,
      getElem?_of_take_eq same (by omega : 3 < stop), countPresent, again]

theorem decodeEnumVariantDecl_local : Local decodeEnumVariantDecl fun _ => True where
  inside {data value size} decoded _ := by
    simp only [decodeEnumVariantDecl, Option.bind_eq_bind, Option.bind_eq_some_iff] at decoded
    obtain ⟨_, _, _, _, count, countPresent, flag, flagPresent, ⟨types, typesStop⟩, read, rest⟩ :=
      decoded
    have typesInside := stop_le_length_of_decodeMany decodeSpur_local read (fun _ _ => trivial)
      (lt_length_of_getElem? flagPresent)
    split at rest
    · simp only [Option.bind_eq_some_iff, Option.some.injEq, Prod.mk.injEq] at rest
      obtain ⟨⟨names, stop⟩, namesRead, _, rfl⟩ := rest
      exact stop_le_length_of_decodeMany decodeSpur_local namesRead (fun _ _ => trivial) typesInside
    · obtain ⟨_, rfl⟩ := rest
      exact typesInside
  same {data value size other} decoded _ same := by
    simp only [decodeEnumVariantDecl, Option.bind_eq_bind, Option.bind_eq_some_iff] at decoded
    obtain ⟨_, namePresent, _, nameRead, count, countPresent, flag, flagPresent,
      ⟨types, typesStop⟩, read, rest⟩ := decoded
    have typesFrom := le_of_decodeMany read
    split at rest
    case isTrue isStruct =>
        simp only [Option.bind_eq_some_iff, Option.some.injEq, Prod.mk.injEq] at rest
        obtain ⟨⟨names, stop⟩, namesRead, rfl, rfl⟩ := rest
        have namesFrom := le_of_decodeMany namesRead
        have typesAgain := decodeMany_same decodeSpur_local read (fun _ _ => trivial) namesFrom same
        have namesAgain :=
          decodeMany_same decodeSpur_local namesRead (fun _ _ => trivial) (Nat.le_refl _) same
        simp [decodeEnumVariantDecl, getElem?_of_take_eq same (by omega : 0 < stop), namePresent,
          nameRead, getElem?_of_take_eq same (by omega : 1 < stop), countPresent,
          getElem?_of_take_eq same (by omega : 2 < stop), flagPresent, typesAgain, isStruct,
          namesAgain]
    case isFalse isTuple =>
        obtain ⟨rfl, rfl⟩ := rest
        have typesAgain :=
          decodeMany_same decodeSpur_local read (fun _ _ => trivial) (Nat.le_refl _) same
        simp [decodeEnumVariantDecl, getElem?_of_take_eq same (by omega : 0 < typesStop),
          namePresent, nameRead, getElem?_of_take_eq same (by omega : 1 < typesStop), countPresent,
          getElem?_of_take_eq same (by omega : 2 < typesStop), flagPresent, typesAgain, isTuple]

mutual

def RirPattern.mapRefs (onRef : InstRef → InstRef) : RirPattern → RirPattern
  | .wildcard span => .wildcard span
  | .int value span => .int value span
  | .bool value span => .bool value span
  | .path module typeName variant span => .path (module.map onRef) typeName variant span
  | .dataVariant module typeName variant bindings span =>
    .dataVariant (module.map onRef) typeName variant (mapRefsBindings onRef bindings) span
  | .structVariant module typeName variant fieldBindings span =>
    .structVariant (module.map onRef) typeName variant (mapRefsStructBindings onRef fieldBindings) span
  | .ident name isMut span => .ident name isMut span
  | .tuple elems restPosition span => .tuple (mapRefsPatterns onRef elems) restPosition span
  | .struct module typeName fields hasRest span =>
    .struct (module.map onRef) typeName (mapRefsStructFields onRef fields) hasRest span
  | .comptimeUnrollArm binding iterable span => .comptimeUnrollArm binding (onRef iterable) span

def mapRefsSubPattern (onRef : InstRef → InstRef) : Option RirPattern → Option RirPattern
  | none => none
  | some pattern => some (pattern.mapRefs onRef)

def mapRefsPatterns (onRef : InstRef → InstRef) : List RirPattern → List RirPattern
  | [] => []
  | pattern :: patterns => pattern.mapRefs onRef :: mapRefsPatterns onRef patterns

def mapRefsBindings (onRef : InstRef → InstRef) : List RirPatternBinding → List RirPatternBinding
  | [] => []
  | .mk isWildcard isMut name subPattern :: bindings =>
    .mk isWildcard isMut name (mapRefsSubPattern onRef subPattern) :: mapRefsBindings onRef bindings

def mapRefsStructBindings (onRef : InstRef → InstRef) : List RirStructPatternBinding → List RirStructPatternBinding
  | [] => []
  | .mk fieldName (.mk isWildcard isMut name subPattern) :: bindings =>
    .mk fieldName (.mk isWildcard isMut name (mapRefsSubPattern onRef subPattern)) ::
      mapRefsStructBindings onRef bindings

def mapRefsStructFields (onRef : InstRef → InstRef) : List RirStructField → List RirStructField
  | [] => []
  | .mk fieldName pattern :: fields =>
    .mk fieldName (pattern.mapRefs onRef) :: mapRefsStructFields onRef fields

end

mutual

theorem RirPattern.mapRefs_id : ∀ pattern : RirPattern, pattern.mapRefs id = pattern
  | .wildcard _ | .int _ _ | .bool _ _ | .ident _ _ _ => rfl
  | .path _ _ _ _ | .comptimeUnrollArm _ _ _ => by
      simp [RirPattern.mapRefs]
  | .dataVariant module _ _ bindings _ => by
      simp [RirPattern.mapRefs, mapRefsBindings_id bindings]
  | .structVariant module _ _ fieldBindings _ => by
      simp [RirPattern.mapRefs, mapRefsStructBindings_id fieldBindings]
  | .tuple elems _ _ => by
      simp [RirPattern.mapRefs, mapRefsPatterns_id elems]
  | .struct module _ fields _ _ => by
      simp [RirPattern.mapRefs, mapRefsStructFields_id fields]

theorem mapRefsSubPattern_id : ∀ pattern : Option RirPattern, mapRefsSubPattern id pattern = pattern
  | none => rfl
  | some pattern => by
      simp [mapRefsSubPattern, RirPattern.mapRefs_id pattern]

theorem mapRefsPatterns_id : ∀ patterns : List RirPattern, mapRefsPatterns id patterns = patterns
  | [] => rfl
  | pattern :: patterns => by
      simp [mapRefsPatterns, RirPattern.mapRefs_id pattern, mapRefsPatterns_id patterns]

theorem mapRefsBindings_id : ∀ bindings : List RirPatternBinding, mapRefsBindings id bindings = bindings
  | [] => rfl
  | .mk _ _ _ subPattern :: bindings => by
      simp [mapRefsBindings, mapRefsSubPattern_id subPattern, mapRefsBindings_id bindings]

theorem mapRefsStructBindings_id :
    ∀ bindings : List RirStructPatternBinding, mapRefsStructBindings id bindings = bindings
  | [] => rfl
  | .mk _ (.mk _ _ _ subPattern) :: bindings => by
      simp [mapRefsStructBindings, mapRefsSubPattern_id subPattern, mapRefsStructBindings_id bindings]

theorem mapRefsStructFields_id : ∀ fields : List RirStructField, mapRefsStructFields id fields = fields
  | [] => rfl
  | .mk _ pattern :: fields => by
      simp [mapRefsStructFields, RirPattern.mapRefs_id pattern, mapRefsStructFields_id fields]

end

variable {instOffset : Word} {data : List Word} {arm : RirMatchArm} {size : Nat}

def RirPattern.IsWalked (instOffset : Word) : RirPattern → Prop
  | .wildcard _ | .int _ _ | .bool _ _ => True
  | .path module _ _ _ => module = none ∨ instOffset = 0
  | _ => False

theorem ofCode_eq_some {word : Word} {kind : PatternKind}
    (read : PatternKind.ofCode word = some kind) : word = kind.code := by
  apply BitVec.eq_of_toNat_eq
  unfold PatternKind.ofCode at read
  split at read <;> cases read <;> assumption

inductive WalkedArm (instOffset : Word) (data : List Word) : RirMatchArm → Nat → Prop
  | wildcard {span : Span} {body : Word} (tag : data[0]? = some PatternKind.wildcard.code)
      (spanRead : decodeSpan data = some span) (bodyRead : data[3]? = some body) :
      WalkedArm instOffset data (.wildcard span, body) 4
  | int {span : Span} {low high body : Word} (tag : data[0]? = some PatternKind.int.code)
      (spanRead : decodeSpan data = some span) (lowRead : data[3]? = some low)
      (highRead : data[4]? = some high) (bodyRead : data[5]? = some body) :
      WalkedArm instOffset data (.int (intOfWords low high) span, body) 6
  | bool {span : Span} {value body : Word} (tag : data[0]? = some PatternKind.bool.code)
      (spanRead : decodeSpan data = some span) (valueRead : data[3]? = some value)
      (bodyRead : data[4]? = some body) :
      WalkedArm instOffset data (.bool (boolOfWord value) span, body) 5
  | path {span : Span} {module typeWord variantWord body : Word} {typeName variant : Spur}
      (tag : data[0]? = some PatternKind.path.code) (spanRead : decodeSpan data = some span)
      (moduleRead : data[3]? = some module) (typeRead : data[4]? = some typeWord)
      (typeValid : spurOfWord typeWord = some typeName)
      (variantRead : data[5]? = some variantWord)
      (variantValid : spurOfWord variantWord = some variant) (bodyRead : data[6]? = some body)
      (unmoved : optionOfWord module = none ∨ instOffset = 0) :
      WalkedArm instOffset data (.path (optionOfWord module) typeName variant span, body) 7

theorem walkedArm_of_decoded (decoded : decodeMatchArm data = some (arm, size))
    (walked : arm.1.IsWalked instOffset) : WalkedArm instOffset data arm size := by
  obtain ⟨_, tagPresent, tagged⟩ := Option.bind_eq_some_iff.mp decoded
  obtain ⟨kind, kindRead, kinded⟩ := Option.bind_eq_some_iff.mp tagged
  obtain ⟨_, spanRead, rest⟩ := Option.bind_eq_some_iff.mp kinded
  rw [ofCode_eq_some kindRead] at tagPresent
  cases kind <;> simp only [Option.bind_eq_bind, Option.bind_eq_some_iff, Option.some.injEq, Prod.mk.injEq,
      Prod.exists] at rest
  case wildcard =>
      obtain ⟨body, bodyRead, rfl, rfl⟩ := rest
      exact .wildcard tagPresent spanRead bodyRead
  case int =>
      obtain ⟨_, lowRead, _, highRead, body, bodyRead, rfl, rfl⟩ := rest
      exact .int tagPresent spanRead lowRead highRead bodyRead
  case bool =>
      obtain ⟨_, valueRead, body, bodyRead, rfl, rfl⟩ := rest
      exact .bool tagPresent spanRead valueRead bodyRead
  case path =>
      obtain ⟨_, moduleRead, _, typeRead, _, typeValid, _,
        variantRead, _, variantValid, body, bodyRead, rfl, rfl⟩ := rest
      exact .path tagPresent spanRead moduleRead typeRead typeValid variantRead variantValid bodyRead walked
  case dataVariant | structVariant =>
      obtain ⟨_, _, _, _, _, _, _, _, _, _, _, _, _, _, _, _, _, rfl, _⟩ := rest
      exact walked.elim
  case ident =>
      obtain ⟨_, _, _, _, _, _, _, _, rfl, _⟩ := rest
      exact walked.elim
  case tuple =>
      obtain ⟨_, _, _, _, _, _, _, _, _, rfl, _⟩ := rest
      exact walked.elim
  case struct =>
      obtain ⟨_, _, _, _, _, _, _, _, _, _, _, _, _, _, _, rfl, _⟩ := rest
      exact walked.elim
  case comptimeUnrollArm =>
      obtain ⟨_, _, _, _, _, _, _, _, rfl, _⟩ := rest
      exact walked.elim

theorem WalkedArm.decodes (walked : WalkedArm instOffset data arm size) : decodeMatchArm data = some (arm, size) := by
  cases walked with
  | wildcard tag spanRead bodyRead =>
    simp [decodeMatchArm, tag, ofCode_code, spanRead, bodyRead]
  | int tag spanRead lowRead highRead bodyRead =>
    simp [decodeMatchArm, tag, ofCode_code, spanRead, lowRead, highRead, bodyRead]
  | bool tag spanRead valueRead bodyRead =>
    simp [decodeMatchArm, tag, ofCode_code, spanRead, valueRead, bodyRead]
  | path tag spanRead moduleRead typeRead typeValid variantRead variantValid bodyRead unmoved =>
    simp [decodeMatchArm, tag, ofCode_code, spanRead, moduleRead, typeRead, typeValid,
      variantRead, variantValid, bodyRead]

theorem decodeSpan_congr {other : List Word} (start : other[1]? = data[1]?)
    (len : other[2]? = data[2]?) : decodeSpan other = decodeSpan data := by
  simp [decodeSpan, start, len]

theorem WalkedArm.congr {other : List Word} (walked : WalkedArm instOffset data arm size)
    (same : ∀ index, index < size → other[index]? = data[index]?) :
    WalkedArm instOffset other arm size := by
  cases walked with
  | wildcard tag spanRead bodyRead =>
    have sameSpan := decodeSpan_congr (same 1 (by omega)) (same 2 (by omega))
    exact .wildcard ((same 0 (by omega)).trans tag) (sameSpan.trans spanRead) ((same 3 (by omega)).trans bodyRead)
  | int tag spanRead lowRead highRead bodyRead =>
    have sameSpan := decodeSpan_congr (same 1 (by omega)) (same 2 (by omega))
    exact .int ((same 0 (by omega)).trans tag) (sameSpan.trans spanRead)
      ((same 3 (by omega)).trans lowRead) ((same 4 (by omega)).trans highRead)
      ((same 5 (by omega)).trans bodyRead)
  | bool tag spanRead valueRead bodyRead =>
    have sameSpan := decodeSpan_congr (same 1 (by omega)) (same 2 (by omega))
    exact .bool ((same 0 (by omega)).trans tag) (sameSpan.trans spanRead)
      ((same 3 (by omega)).trans valueRead) ((same 4 (by omega)).trans bodyRead)
  | path tag spanRead moduleRead typeRead typeValid variantRead variantValid bodyRead unmoved =>
    have sameSpan := decodeSpan_congr (same 1 (by omega)) (same 2 (by omega))
    exact .path ((same 0 (by omega)).trans tag) (sameSpan.trans spanRead)
      ((same 3 (by omega)).trans moduleRead) ((same 4 (by omega)).trans typeRead) typeValid
      ((same 5 (by omega)).trans variantRead) variantValid
      ((same 6 (by omega)).trans bodyRead) unmoved

def shiftArm (instOffset : Word) (arm : RirMatchArm) : RirMatchArm :=
  (arm.1.mapRefs (· + instOffset), arm.2 + instOffset)

theorem WalkedArm.patched (walked : WalkedArm instOffset data arm size) :
    ∃ place, Rir.locateArmBody data = some (place, size) ∧ place < size ∧
      WalkedArm instOffset (data.modify place (· + instOffset)) (shiftArm instOffset arm) size := by
  cases walked with
  | wildcard tag spanRead bodyRead =>
    refine ⟨3, by simp [Rir.locateArmBody, tag, PatternKind.code], by omega, ?_⟩
    have sameSpan : decodeSpan (data.modify 3 (· + instOffset)) = decodeSpan data :=
      decodeSpan_congr (by simp) (by simp)
    exact .wildcard (by simpa using tag) (sameSpan.trans spanRead) (by simp [bodyRead])
  | int tag spanRead lowRead highRead bodyRead =>
    refine ⟨5, by simp [Rir.locateArmBody, tag, PatternKind.code], by omega, ?_⟩
    have sameSpan : decodeSpan (data.modify 5 (· + instOffset)) = decodeSpan data :=
      decodeSpan_congr (by simp) (by simp)
    exact .int (by simpa using tag) (sameSpan.trans spanRead) (by simpa using lowRead)
      (by simpa using highRead) (by simp [bodyRead])
  | bool tag spanRead valueRead bodyRead =>
    refine ⟨4, by simp [Rir.locateArmBody, tag, PatternKind.code], by omega, ?_⟩
    have sameSpan : decodeSpan (data.modify 4 (· + instOffset)) = decodeSpan data :=
      decodeSpan_congr (by simp) (by simp)
    exact .bool (by simpa using tag) (sameSpan.trans spanRead) (by simpa using valueRead) (by simp [bodyRead])
  | @path span module typeWord variantWord body typeName variant tag spanRead moduleRead typeRead
      typeValid variantRead variantValid bodyRead unmoved =>
      refine ⟨6, by simp [Rir.locateArmBody, tag, PatternKind.code], by omega, ?_⟩
      have sameSpan : decodeSpan (data.modify 6 (· + instOffset)) = decodeSpan data :=
        decodeSpan_congr (by simp) (by simp)
      have sameModule : (optionOfWord module).map (· + instOffset) = optionOfWord module := by
        rcases unmoved with absent | rfl
        · simp [absent]
        · simp
      have kept : WalkedArm instOffset (data.modify 6 (· + instOffset))
          (.path (optionOfWord module) typeName variant span, body + instOffset) 7 :=
        .path (by simpa using tag) (sameSpan.trans spanRead) (by simpa using moduleRead)
          (by simpa using typeRead) typeValid (by simpa using variantRead) variantValid
          (by simp [bodyRead]) unmoved
      simpa [shiftArm, RirPattern.mapRefs, sameModule] using kept

theorem WalkedArm.size_le (walked : WalkedArm instOffset data arm size) : size ≤ data.length := by
  cases walked with
  | wildcard _ _ bodyRead | int _ _ _ _ bodyRead | bool _ _ _ bodyRead
  | path _ _ _ _ _ _ _ bodyRead _ => exact lt_length_of_getElem? bodyRead

theorem isWalked_shiftArm (walked : arm.1.IsWalked instOffset) : (shiftArm instOffset arm).1.IsWalked instOffset := by
  obtain ⟨pattern, _⟩ := arm
  cases pattern <;> simp_all [shiftArm, RirPattern.IsWalked, RirPattern.mapRefs]

theorem matchArm_patchable (instOffset : Word) :
    Patchable decodeMatchArm (fun arm => arm.1.IsWalked instOffset) (· + instOffset)
      Rir.locateArmBody (shiftArm instOffset) where
  inside decoded walked := (walkedArm_of_decoded decoded walked).size_le
  same decoded walked same := ((walkedArm_of_decoded decoded walked).congr fun _ inside =>
      getElem?_of_take_eq same inside).decodes
  patched decoded walked := by
    obtain ⟨place, located, inside, shifted⟩ := (walkedArm_of_decoded decoded walked).patched
    exact ⟨place, located, inside, shifted.decodes⟩
  admitted_shift := isWalked_shiftArm

theorem instRef_patchable (instOffset : Word) :
    Patchable decodeInstRef (fun _ => True) (· + instOffset) (fun _ => some (0, 1)) (· + instOffset) where
  toLocal := decodeInstRef_local
  patched {data value size} decoded _ := by
    simp only [decodeInstRef, Option.bind_eq_bind, Option.bind_eq_some_iff, Option.some.injEq,
      Prod.mk.injEq] at decoded
    obtain ⟨_, present, rfl, rfl⟩ := decoded
    exact ⟨0, rfl, by omega, by simp [decodeInstRef, present]⟩
  admitted_shift _ := trivial

theorem callArg_patchable (instOffset : Word) :
    Patchable decodeCallArg (fun _ => True) (· + instOffset) (fun _ => some (0, 2))
      (fun arg => { arg with value := arg.value + instOffset }) where
  toLocal := decodeCallArg_local
  patched {data value size} decoded _ := by
    simp only [decodeCallArg, Option.bind_eq_bind, Option.bind_eq_some_iff, Option.some.injEq,
      Prod.mk.injEq] at decoded
    obtain ⟨_, refPresent, _, modePresent, rfl, rfl⟩ := decoded
    exact ⟨0, rfl, by omega, by simp [decodeCallArg, refPresent, modePresent]⟩
  admitted_shift _ := trivial

theorem fieldInit_patchable (instOffset : Word) :
    Patchable decodeFieldInit (fun _ => True) (· + instOffset) (fun _ => some (1, 2))
      (fun field => (field.1, field.2 + instOffset)) where
  toLocal := decodeFieldInit_local
  patched {data value size} decoded _ := by
    simp only [decodeFieldInit, Option.bind_eq_bind, Option.bind_eq_some_iff, Option.some.injEq,
      Prod.mk.injEq] at decoded
    obtain ⟨_, namePresent, _, nameValid, _, refPresent, rfl, rfl⟩ := decoded
    exact ⟨1, rfl, by omega, by simp [decodeFieldInit, namePresent, nameValid, refPresent]⟩
  admitted_shift _ := trivial

inductive ListKind
  | matchArms | directives | params | callArgs | fieldInits | fieldDecls | enumVariantDecls
  | destructureFields | instRefs
  deriving DecidableEq, Repr

structure ListRef where
  kind : ListKind
  start : Word
  len : Word
  deriving DecidableEq

def ListRef.get (extra : List Word) (ref : ListRef) : Option RirPayload := match ref.kind with
  | .matchArms => (getMatchArms extra ref.start ref.len).map .matchArms
  | .directives => (getDirectives extra ref.start ref.len).map .directives
  | .params => (getParams extra ref.start ref.len).map .params
  | .callArgs => (getCallArgs extra ref.start ref.len).map .callArgs
  | .fieldInits => (getFieldInits extra ref.start ref.len).map .fieldInits
  | .fieldDecls => (getFieldDeclsWithVis extra ref.start ref.len).map .fieldDeclsWithVis
  | .enumVariantDecls => (getEnumVariantDecls extra ref.start ref.len).map .enumVariantDecls
  | .destructureFields => (getDestructureFields extra ref.start ref.len).map .destructureFields
  | .instRefs => (getInstRefs extra ref.start ref.len).map .instRefs

def RirPayload.mapRefs (onRef : InstRef → InstRef) : RirPayload → RirPayload
  | .matchArms arms => .matchArms (arms.map fun arm => (arm.1.mapRefs onRef, onRef arm.2))
  | .callArgs args => .callArgs (args.map fun arg => { arg with value := onRef arg.value })
  | .fieldInits fields => .fieldInits (fields.map fun field => (field.1, onRef field.2))
  | .instRefs refs => .instRefs (refs.map onRef)
  | payload => payload

theorem RirPayload.mapRefs_id (payload : RirPayload) : payload.mapRefs id = payload := by
  cases payload <;> simp [RirPayload.mapRefs, RirPattern.mapRefs_id]

namespace InstData

def lists : InstData → List ListRef
  | .matchOn _ armsStart armsLen => [⟨.matchArms, armsStart, armsLen⟩]
  | .fnDecl directivesStart directivesLen _ _ _ paramsStart paramsLen _ _ _ _ =>
    [⟨.directives, directivesStart, directivesLen⟩, ⟨.params, paramsStart, paramsLen⟩]
  | .constDecl directivesStart directivesLen _ _ _ _ =>
    [⟨.directives, directivesStart, directivesLen⟩]
  | .call _ argsStart argsLen => [⟨.callArgs, argsStart, argsLen⟩]
  | .intrinsic _ argsStart argsLen => [⟨.instRefs, argsStart, argsLen⟩]
  | .block extraStart len => [⟨.instRefs, extraStart, len⟩]
  | .alloc directivesStart directivesLen _ _ _ _ =>
    [⟨.directives, directivesStart, directivesLen⟩]
  | .structDestructure _ fieldsStart fieldsLen _ =>
    [⟨.destructureFields, fieldsStart, fieldsLen⟩]
  | .structDecl directivesStart directivesLen _ _ _ fieldsStart fieldsLen methodsStart methodsLen =>
      [⟨.directives, directivesStart, directivesLen⟩, ⟨.fieldDecls, fieldsStart, fieldsLen⟩,
        ⟨.instRefs, methodsStart, methodsLen⟩]
  | .structInit _ _ fieldsStart fieldsLen => [⟨.fieldInits, fieldsStart, fieldsLen⟩]
  | .enumDecl _ _ _ variantsStart variantsLen methodsStart methodsLen directivesStart directivesLen =>
      [⟨.enumVariantDecls, variantsStart, variantsLen⟩, ⟨.instRefs, methodsStart, methodsLen⟩,
        ⟨.directives, directivesStart, directivesLen⟩]
  | .enumStructVariant _ _ _ fieldsStart fieldsLen => [⟨.fieldInits, fieldsStart, fieldsLen⟩]
  | .arrayInit elemsStart elemsLen => [⟨.instRefs, elemsStart, elemsLen⟩]
  | .methodCall _ _ argsStart argsLen => [⟨.callArgs, argsStart, argsLen⟩]
  | .assocFnCall _ _ argsStart argsLen => [⟨.callArgs, argsStart, argsLen⟩]
  | .interfaceDecl _ _ methodsStart methodsLen directivesStart directivesLen =>
    [⟨.instRefs, methodsStart, methodsLen⟩, ⟨.directives, directivesStart, directivesLen⟩]
  | .interfaceMethodSig _ paramsStart paramsLen _ _ _ directivesStart directivesLen =>
    [⟨.params, paramsStart, paramsLen⟩, ⟨.directives, directivesStart, directivesLen⟩]
  | .deriveDecl _ methodsStart methodsLen => [⟨.instRefs, methodsStart, methodsLen⟩]
  | .anonStructType directivesStart directivesLen fieldsStart fieldsLen methodsStart methodsLen =>
      [⟨.directives, directivesStart, directivesLen⟩, ⟨.fieldDecls, fieldsStart, fieldsLen⟩,
        ⟨.instRefs, methodsStart, methodsLen⟩]
  | .anonEnumType directivesStart directivesLen variantsStart variantsLen methodsStart methodsLen =>
      [⟨.directives, directivesStart, directivesLen⟩,
        ⟨.enumVariantDecls, variantsStart, variantsLen⟩, ⟨.instRefs, methodsStart, methodsLen⟩]
  | .anonInterfaceType methodsStart methodsLen => [⟨.instRefs, methodsStart, methodsLen⟩]
  | .tupleInit elemsStart elemsLen => [⟨.instRefs, elemsStart, elemsLen⟩]
  | _ => []

def mapFields (onRef : InstRef → InstRef) (onStart : Word → Word) : InstData → InstData
  | .bin op lhs rhs => .bin op (onRef lhs) (onRef rhs)
  | .unary op operand => .unary op (onRef operand)
  | .makeRef operand isMut => .makeRef (onRef operand) isMut
  | .makeSlice base lo hi isMut => .makeSlice (onRef base) (lo.map onRef) (hi.map onRef) isMut
  | .branch cond thenBlock elseBlock isComptime =>
    .branch (onRef cond) (onRef thenBlock) (elseBlock.map onRef) isComptime
  | .loop cond body => .loop (onRef cond) (onRef body)
  | .forIn binding isMut iterable body => .forIn binding isMut (onRef iterable) (onRef body)
  | .infiniteLoop body => .infiniteLoop (onRef body)
  | .matchOn scrutinee armsStart armsLen =>
    .matchOn (onRef scrutinee) (onStart armsStart) armsLen
  | .fnDecl directivesStart directivesLen isPub isUnchecked name paramsStart paramsLen returnType
      body hasSelf receiverMode =>
      .fnDecl (onStart directivesStart) directivesLen isPub isUnchecked name
        (onStart paramsStart) paramsLen returnType (onRef body) hasSelf receiverMode
  | .constDecl directivesStart directivesLen isPub name ty init =>
    .constDecl (onStart directivesStart) directivesLen isPub name ty (onRef init)
  | .call name argsStart argsLen => .call name (onStart argsStart) argsLen
  | .intrinsic name argsStart argsLen => .intrinsic name (onStart argsStart) argsLen
  | .typeInterfaceIntrinsic name typeArg typeInst interfaceArg =>
    .typeInterfaceIntrinsic name typeArg (typeInst.map onRef) interfaceArg
  | .ret value => .ret (value.map onRef)
  | .block extraStart len => .block (onStart extraStart) len
  | .alloc directivesStart directivesLen name isMut ty init =>
    .alloc (onStart directivesStart) directivesLen name isMut ty (onRef init)
  | .structDestructure typeName fieldsStart fieldsLen init =>
    .structDestructure typeName (onStart fieldsStart) fieldsLen (onRef init)
  | .assign name value => .assign name (onRef value)
  | .structDecl directivesStart directivesLen isPub posture name fieldsStart fieldsLen methodsStart methodsLen =>
      .structDecl (onStart directivesStart) directivesLen isPub posture name
        (onStart fieldsStart) fieldsLen (onStart methodsStart) methodsLen
  | .structInit module typeName fieldsStart fieldsLen =>
    .structInit (module.map onRef) typeName (onStart fieldsStart) fieldsLen
  | .fieldGet base field => .fieldGet (onRef base) field
  | .fieldSet base field value => .fieldSet (onRef base) field (onRef value)
  | .enumDecl isPub posture name variantsStart variantsLen methodsStart methodsLen directivesStart directivesLen =>
      .enumDecl isPub posture name (onStart variantsStart) variantsLen (onStart methodsStart)
        methodsLen (onStart directivesStart) directivesLen
  | .enumVariant module typeName variant => .enumVariant (module.map onRef) typeName variant
  | .enumStructVariant module typeName variant fieldsStart fieldsLen =>
    .enumStructVariant (module.map onRef) typeName variant (onStart fieldsStart) fieldsLen
  | .arrayInit elemsStart elemsLen => .arrayInit (onStart elemsStart) elemsLen
  | .indexGet base index => .indexGet (onRef base) (onRef index)
  | .indexSet base index value => .indexSet (onRef base) (onRef index) (onRef value)
  | .methodCall receiver method argsStart argsLen =>
    .methodCall (onRef receiver) method (onStart argsStart) argsLen
  | .assocFnCall typeName function argsStart argsLen =>
    .assocFnCall typeName function (onStart argsStart) argsLen
  | .interfaceDecl isPub name methodsStart methodsLen directivesStart directivesLen =>
    .interfaceDecl isPub name (onStart methodsStart) methodsLen (onStart directivesStart) directivesLen
  | .interfaceMethodSig name paramsStart paramsLen returnType receiverMode isUnchecked
      directivesStart directivesLen =>
      .interfaceMethodSig name (onStart paramsStart) paramsLen returnType receiverMode isUnchecked
        (onStart directivesStart) directivesLen
  | .deriveDecl name methodsStart methodsLen => .deriveDecl name (onStart methodsStart) methodsLen
  | .comptime expr => .comptime (onRef expr)
  | .comptimeUnrollFor binding iterable body =>
    .comptimeUnrollFor binding (onRef iterable) (onRef body)
  | .checked expr => .checked (onRef expr)
  | .anonStructType directivesStart directivesLen fieldsStart fieldsLen methodsStart methodsLen =>
    .anonStructType (onStart directivesStart) directivesLen (onStart fieldsStart) fieldsLen
      (onStart methodsStart) methodsLen
  | .anonEnumType directivesStart directivesLen variantsStart variantsLen methodsStart methodsLen =>
      .anonEnumType (onStart directivesStart) directivesLen (onStart variantsStart) variantsLen
        (onStart methodsStart) methodsLen
  | .anonInterfaceType methodsStart methodsLen =>
    .anonInterfaceType (onStart methodsStart) methodsLen
  | .tupleInit elemsStart elemsLen => .tupleInit (onStart elemsStart) elemsLen
  | .anonFnValue method => .anonFnValue (onRef method)
  | data => data

end InstData

structure DecodedInst where
  data : InstData
  span : Span
  lists : List RirPayload

def DecodedInst.shift (instOffset : Word) (inst : DecodedInst) : DecodedInst where
  data := inst.data.mapFields (· + instOffset) fun _ => 0
  span := inst.span
  lists := inst.lists.map (RirPayload.mapRefs (· + instOffset))

def Inst.decode (extra : List Word) (inst : Inst) : Option DecodedInst := do
  let lists ← inst.data.lists.mapM (ListRef.get extra)
  some ⟨inst.data.mapFields id fun _ => 0, inst.span, lists⟩

def Rir.decodeInst (rir : Rir) (index : Nat) : Option DecodedInst :=
  rir.instructions[index]?.bind (Inst.decode rir.extra)

theorem mapFields_renumberInstruction (instOffset extraOffset : Word) (data : InstData) :
    (Rir.renumberInstruction instOffset extraOffset data).mapFields id (fun _ => 0) =
      (data.mapFields id fun _ => 0).mapFields (· + instOffset) fun _ => 0 := by
  cases data <;> simp [Rir.renumberInstruction, InstData.mapFields]

end Gruel
