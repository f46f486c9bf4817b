import Mathlib.Data.List.Forall2
import Gruel.RirMerge

/-!
A merge, list by list: renumbering a list rewrites its own words only, so the lists
of a file can be renumbered one after the other, and the files after each other.
-/

namespace Gruel

open WordStream

variable {stop start count : Nat} {payload : RirPayload} {data : List Word} {kind : ListKind}
variable {extra other : List Word} {instOffset len : Word}

def RirPayload.IsWalked (instOffset : Word) : RirPayload → Prop
  | .matchArms arms => ∀ arm ∈ arms, arm.1.IsWalked instOffset
  | _ => True

def readList {α : Type} (decode : Decoder Word α) (wrap : List α → RirPayload) (extra : List Word)
    (start count : Nat) : Option (RirPayload × Nat) :=
  (decodeMany decode extra count start).map fun read => (wrap read.1, read.2)

theorem readList_eq_some {α : Type} {decode : Decoder Word α} {wrap : List α → RirPayload}
    (read : readList decode wrap extra start count = some (payload, stop)) :
    ∃ values, decodeMany decode extra count start = some (values, stop) ∧ payload = wrap values := by
  obtain ⟨⟨values, _⟩, decoded, result⟩ := Option.map_eq_some_iff.mp read
  cases result
  exact ⟨values, decoded, rfl⟩

theorem readList_moved {α : Type} {decode : Decoder Word α} {Admitted : α → Prop}
    {wrap : List α → RirPayload} (isLocal : Local decode Admitted) {shift : Nat}
    (read : readList decode wrap data start count = some (payload, stop))
    (admitted : ∀ values, payload = wrap values → ∀ value ∈ values, Admitted value)
    (agree : ∀ index, start ≤ index → index < stop → other[shift + index]? = data[index]?) :
    readList decode wrap other (shift + start) count = some (payload, shift + stop) := by
  obtain ⟨values, decoded, rfl⟩ := readList_eq_some read
  rw [readList, decodeMany_moved isLocal decoded (admitted values rfl) agree, Option.map_some]

theorem readList_patched {α : Type} {decode : Decoder Word α} {Admitted : α → Prop}
    {patch : Word → Word} {locate : List Word → Option (Nat × Nat)} {shift : α → α}
    {wrap : List α → RirPayload} (patchable : Patchable decode Admitted patch locate shift)
    {shifted : RirPayload} (read : readList decode wrap data start count = some (payload, stop))
    (admitted : ∀ values, payload = wrap values → ∀ value ∈ values, Admitted value)
    (wraps : ∀ values, payload = wrap values → shifted = wrap (values.map shift)) :
    ∃ result, patchMany patch locate count start data = some result ∧ result.length = data.length ∧
      readList decode wrap result start count = some (shifted, stop) ∧
      ∀ index, index < start ∨ stop ≤ index → result[index]? = data[index]? := by
  obtain ⟨values, decoded, equal⟩ := readList_eq_some read
  obtain ⟨result, patched, sameLength, decodedAgain, outside⟩ :=
    patchMany_spec patchable decoded (admitted values equal)
  refine ⟨result, patched, sameLength, ?_, outside⟩
  rw [readList, decodedAgain, Option.map_some, wraps values equal]

def ListKind.readAt (extra : List Word) (start count : Nat) : ListKind → Option (RirPayload × Nat)
  | .matchArms => readList decodeMatchArm .matchArms extra start count
  | .directives => readList decodeDirective .directives extra start count
  | .params => readList decodeParam .params extra start count
  | .callArgs => readList decodeCallArg .callArgs extra start count
  | .fieldInits => readList decodeFieldInit .fieldInits extra start count
  | .fieldDecls => readList decodeFieldDecl .fieldDeclsWithVis extra start count
  | .enumVariantDecls => readList decodeEnumVariantDecl .enumVariantDecls extra start count
  | .destructureFields => readList decodeDestructureField .destructureFields extra start count
  | .instRefs => readList decodeInstRef .instRefs extra start count

theorem get_eq_readAt (extra : List Word) (ref : ListRef) :
    ref.get extra = (ref.kind.readAt extra ref.start.toNat ref.len.toNat).map Prod.fst := by
  obtain ⟨kind, start, len⟩ := ref
  cases kind <;> simp [ListRef.get, ListKind.readAt, readList, getMatchArms, getDirectives, getParams,
      getCallArgs, getFieldInits, getFieldDeclsWithVis, getEnumVariantDecls,
      getDestructureFields, getInstRefs, getExtra, Function.comp_def]

theorem readAt_moved {shift : Nat} (read : kind.readAt data start count = some (payload, stop))
    (walked : payload.IsWalked instOffset)
    (agree : ∀ index, start ≤ index → index < stop → other[shift + index]? = data[index]?) :
    kind.readAt other (shift + start) count = some (payload, shift + stop) := by
  cases kind with
  | matchArms =>
    refine readList_moved (matchArm_patchable instOffset).toLocal read ?_ agree
    rintro _ rfl
    exact walked
  | directives => exact readList_moved decodeDirective_local read (fun _ _ _ _ => trivial) agree
  | params => exact readList_moved decodeParam_local read (fun _ _ _ _ => trivial) agree
  | callArgs => exact readList_moved decodeCallArg_local read (fun _ _ _ _ => trivial) agree
  | fieldInits => exact readList_moved decodeFieldInit_local read (fun _ _ _ _ => trivial) agree
  | fieldDecls => exact readList_moved decodeFieldDecl_local read (fun _ _ _ _ => trivial) agree
  | enumVariantDecls =>
    exact readList_moved decodeEnumVariantDecl_local read (fun _ _ _ _ => trivial) agree
  | destructureFields =>
    exact readList_moved decodeDestructureField_local read (fun _ _ _ _ => trivial) agree
  | instRefs => exact readList_moved decodeInstRef_local read (fun _ _ _ _ => trivial) agree

def ListKind.holdsRefs : ListKind → Bool
  | .matchArms | .callArgs | .fieldInits | .instRefs => true
  | _ => false

def ListKind.renumber (instOffset len start : Word) (extra : List Word) : ListKind → Option (List Word)
  | .matchArms => Rir.renumberArms instOffset len start extra
  | .callArgs => Rir.renumberEvery instOffset 2 0 len start extra
  | .fieldInits => Rir.renumberEvery instOffset 2 1 len start extra
  | .instRefs => Rir.renumberEvery instOffset 1 0 len start extra
  | _ => some extra

theorem renumber_spec {start : Word} (read : kind.readAt data start.toNat len.toNat = some (payload, stop))
    (walked : payload.IsWalked instOffset) :
    ∃ result, kind.renumber instOffset len start data = some result ∧ result.length = data.length ∧
      kind.readAt result start.toNat len.toNat = some (payload.mapRefs (· + instOffset), stop) ∧
      ∀ index, index < start.toNat ∨ stop ≤ index → result[index]? = data[index]? := by
  cases kind with
  | matchArms =>
    refine readList_patched (matchArm_patchable instOffset) read ?_ ?_
    · rintro values rfl
      exact walked
    · rintro values rfl
      rfl
  | callArgs =>
    refine readList_patched (callArg_patchable instOffset) read (fun _ _ _ _ => trivial) ?_
    rintro values rfl
    rfl
  | fieldInits =>
    refine readList_patched (fieldInit_patchable instOffset) read (fun _ _ _ _ => trivial) ?_
    rintro values rfl
    rfl
  | instRefs =>
    refine readList_patched (instRef_patchable instOffset) read (fun _ _ _ _ => trivial) ?_
    rintro values rfl
    rfl
  | directives | params | fieldDecls | enumVariantDecls | destructureFields =>
    obtain ⟨values, _, rfl⟩ := readList_eq_some read
    exact ⟨data, rfl, rfl, read, fun _ _ => rfl⟩

theorem renumber_plain (plain : kind.holdsRefs = false) (instOffset len start : Word)
    (extra : List Word) : kind.renumber instOffset len start extra = some extra := by
  cases kind <;> cases plain <;> rfl

theorem renumber_zero {start : Word} {result : List Word}
    (renumbered : kind.renumber 0 len start extra = some result) : result = extra := by
  have unchanged : ∀ word : Word, word + 0 = word := by simp
  cases kind with
  | matchArms | callArgs | fieldInits | instRefs => exact patchMany_same unchanged renumbered
  | _ =>
    cases renumbered
    rfl

structure PlacedList where
  kind : ListKind
  start : Word
  len : Word
  payload : RirPayload
  stop : Nat

namespace PlacedList

def Reads (extra : List Word) (list : PlacedList) : Prop :=
  list.kind.readAt extra list.start.toNat list.len.toNat = some (list.payload, list.stop)

def Covers (list : PlacedList) (index : Nat) : Prop := list.start.toNat ≤ index ∧ index < list.stop

def Rewrites (instOffset : Word) (list : PlacedList) (index : Nat) : Prop :=
  instOffset ≠ 0 ∧ list.kind.holdsRefs = true ∧ list.Covers index

def Apart (instOffset : Word) (first second : PlacedList) : Prop :=
  ∀ index, ¬(first.Rewrites instOffset index ∧ second.Covers index) ∧
    ¬(first.Covers index ∧ second.Rewrites instOffset index)

def shift (instOffset : Word) (list : PlacedList) : PlacedList :=
  { list with payload := list.payload.mapRefs (· + instOffset) }

end PlacedList

variable {instOffset : Word} {list : PlacedList}

theorem mapRefs_isWalked {payload : RirPayload} (walked : payload.IsWalked instOffset) :
    (payload.mapRefs (· + instOffset)).IsWalked instOffset := by
  cases payload with
  | matchArms arms =>
    intro _ member
    obtain ⟨old, oldMember, rfl⟩ := List.mem_map.mp member
    exact isWalked_shiftArm (walked old oldMember)
  | _ => trivial

theorem PlacedList.Reads.congr {data other : List Word} (reads : list.Reads data)
    (walked : list.payload.IsWalked instOffset)
    (agree : ∀ index, list.Covers index → other[index]? = data[index]?) : list.Reads other := by
  have agreeMoved : ∀ index, list.start.toNat ≤ index → index < list.stop → other[0 + index]? = data[index]? := by
    intro index lower upper
    rw [Nat.zero_add]
    exact agree index ⟨lower, upper⟩
  have moved := readAt_moved reads walked agreeMoved
  rwa [Nat.zero_add, Nat.zero_add] at moved

def Renumbers (instOffset : Word) (step : List Word → Option (List Word)) (lists : List PlacedList) : Prop :=
  ∀ extra, (∀ list ∈ lists, list.Reads extra) → lists.Pairwise (PlacedList.Apart instOffset) →
    ∃ result, step extra = some result ∧ result.length = extra.length ∧
      (∀ list ∈ lists, (list.shift instOffset).Reads result) ∧
      ∀ index, (∀ list ∈ lists, ¬list.Rewrites instOffset index) → result[index]? = extra[index]?

theorem renumbers_none (instOffset : Word) : Renumbers instOffset some [] :=
  fun extra _ _ => ⟨extra, rfl, rfl, by simp, fun _ _ => rfl⟩

theorem renumbers_list (walked : list.payload.IsWalked instOffset) :
    Renumbers instOffset (fun extra => list.kind.renumber instOffset list.len list.start extra) [list] := by
  intro extra reads _
  obtain ⟨result, renumbered, sameLength, readAgain, outside⟩ :=
    renumber_spec (reads list (by simp)) walked
  refine ⟨result, renumbered, sameLength, ?_, ?_⟩
  · intro _ member
    rw [List.mem_singleton] at member
    subst member
    exact readAgain
  · intro index away
    by_cases zero : instOffset = 0
    · subst zero
      rw [renumber_zero renumbered]
    · by_cases holds : list.kind.holdsRefs = true
      · apply outside
        have notCovered : ¬list.Covers index := fun covered =>
          away list (by simp) ⟨zero, holds, covered⟩
        unfold PlacedList.Covers at notCovered
        omega
      · rw [renumber_plain (by simpa using holds)] at renumbered
        cases renumbered
        rfl

theorem Renumbers.append {first second : List Word → Option (List Word)}
    {before after : List PlacedList} (firstRenumbers : Renumbers instOffset first before)
    (secondRenumbers : Renumbers instOffset second after)
    (walked : ∀ list ∈ before ++ after, list.payload.IsWalked instOffset) :
    Renumbers instOffset (fun extra => (first extra).bind second) (before ++ after) := by
  intro extra reads apart
  obtain ⟨beforeApart, afterApart, across⟩ := List.pairwise_append.mp apart
  obtain ⟨middle, firstStep, middleLength, firstReads, firstOutside⟩ :=
    firstRenumbers extra (fun list member => reads list (List.mem_append_left _ member)) beforeApart
  have afterReads : ∀ list ∈ after, list.Reads middle := by
    intro list member
    refine (reads list (List.mem_append_right _ member)).congr (walked list (List.mem_append_right _ member)) ?_
    intro index covered
    apply firstOutside
    intro other otherMember rewritten
    exact (across other otherMember list member index).1 ⟨rewritten, covered⟩
  obtain ⟨result, secondStep, resultLength, secondReads, secondOutside⟩ :=
    secondRenumbers middle afterReads afterApart
  refine ⟨result, by simp [firstStep, secondStep], resultLength.trans middleLength, ?_, ?_⟩
  · intro list member
    rcases List.mem_append.mp member with inBefore | inAfter
    · have listWalked := mapRefs_isWalked (walked list member)
      refine (firstReads list inBefore).congr listWalked ?_
      intro index covered
      apply secondOutside
      intro other otherMember rewritten
      exact (across list inBefore other otherMember index).2 ⟨covered, rewritten⟩
    · exact secondReads list inAfter
  · intro index away
    rw [secondOutside index fun list member => away list (List.mem_append_right _ member),
      firstOutside index fun list member => away list (List.mem_append_left _ member)]

theorem renumbers_lists (lists : List PlacedList) (walked : ∀ list ∈ lists, list.payload.IsWalked instOffset) :
    Renumbers instOffset (fun extra => lists.foldlM (fun extra list =>
        list.kind.renumber instOffset list.len list.start extra) extra) lists := by
  induction lists with
  | nil => exact renumbers_none instOffset
  | cons list lists ih =>
    have both := (renumbers_list (walked list (.head _))).append
      (ih fun other member => walked other (.tail _ member)) walked
    exact both

theorem PlacedList.shift_zero (list : PlacedList) : list.shift 0 = list := by
  have unchanged : (fun ref : InstRef => ref + 0) = id := by
    funext ref
    simp
  unfold PlacedList.shift
  rw [unchanged, RirPayload.mapRefs_id]

theorem renumbers_zero (lists : List PlacedList) : Renumbers 0 some lists := by
  intro extra reads _
  refine ⟨extra, rfl, rfl, ?_, fun _ _ => rfl⟩
  intro list member
  rw [list.shift_zero]
  exact reads list member

def ListRef.moved (extraOffset : Word) (ref : ListRef) : ListRef :=
  { ref with start := ref.start + extraOffset }

def PlacedList.ref (list : PlacedList) : ListRef := ⟨list.kind, list.start, list.len⟩

namespace InstData

/-- The two kinds one of the passes misses a list of: the methods of an enum keep their
references, and the initialisers of a struct variant keep their position. -/
def IsRenumbered (instOffset extraOffset : Word) : InstData → Prop
  | .enumDecl _ _ _ _ _ _ methodsLen _ _ => methodsLen = 0 ∨ instOffset = 0
  | .enumStructVariant _ _ _ _ fieldsLen => fieldsLen = 0 ∨ extraOffset = 0
  | _ => True

end InstData

variable {extra : List Word}
variable {instOffset extraOffset : Word} {data : InstData} {list : PlacedList}

theorem renumberExtraInst_cases (renumbered : data.IsRenumbered instOffset extraOffset) :
    (∀ extra, Rir.renumberExtraInst instOffset extraOffset extra data =
      (data.lists.map (ListRef.moved extraOffset)).foldlM
        (fun extra ref => ref.kind.renumber instOffset ref.len ref.start extra) extra) ∨
    (instOffset = 0 ∧ ∀ extra, Rir.renumberExtraInst instOffset extraOffset extra data = some extra) := by
  cases data with
  | enumDecl _ _ _ variantsStart variantsLen methodsStart methodsLen directivesStart directivesLen =>
      rcases renumbered with rfl | zero
      · exact .inl fun _ => rfl
      · exact .inr ⟨zero, fun _ => rfl⟩
  | _ =>
    simp [Rir.renumberExtraInst, InstData.lists, ListRef.moved, ListKind.renumber]

theorem renumbers_inst {lists : List PlacedList}
    (placed : lists.map PlacedList.ref = data.lists.map (ListRef.moved extraOffset))
    (walked : ∀ list ∈ lists, list.payload.IsWalked instOffset)
    (renumbered : data.IsRenumbered instOffset extraOffset) :
    Renumbers instOffset (fun extra => Rir.renumberExtraInst instOffset extraOffset extra data) lists := by
  rcases renumberExtraInst_cases renumbered with byLists | ⟨rfl, unchanged⟩
  · simp only [byLists, ← placed, List.foldlM_map]
    exact renumbers_lists lists walked
  · simp only [unchanged]
    exact renumbers_zero lists

theorem renumbers_insts : ∀ {instructions : List Inst} {lists : List (List PlacedList)},
      List.Forall₂ (fun inst placed => placed.map PlacedList.ref =
        inst.data.lists.map (ListRef.moved extraOffset)) instructions lists →
      (∀ list ∈ lists.flatten, list.payload.IsWalked instOffset) →
      (∀ inst ∈ instructions, inst.data.IsRenumbered instOffset extraOffset) →
      Renumbers instOffset (fun extra =>
        Rir.renumberExtraInstRefs instOffset extraOffset extra instructions) lists.flatten
  | [], _, .nil, _, _ => renumbers_none instOffset
  | inst :: instructions, placed :: lists, .cons first others, walked, renumbered => by
      have firstStep := renumbers_inst first
        (fun list member => walked list (List.mem_append_left _ member))
        (renumbered inst (.head _))
      have otherSteps := renumbers_insts others (fun list member => walked list (List.mem_append_right _ member))
        (fun other member => renumbered other (.tail _ member))
      exact firstStep.append otherSteps walked

def ListRef.place (extra : List Word) (ref : ListRef) : Option PlacedList :=
  (ref.kind.readAt extra ref.start.toNat ref.len.toNat).map fun read =>
    ⟨ref.kind, ref.start, ref.len, read.1, read.2⟩

theorem place_eq_some {ref : ListRef} (placed : ref.place extra = some list) : list.ref = ref ∧ list.Reads extra := by
  obtain ⟨⟨_, _⟩, read, rfl⟩ := Option.map_eq_some_iff.mp placed
  exact ⟨rfl, read⟩

theorem PlacedList.Reads.get (reads : list.Reads extra) : list.ref.get extra = some list.payload := by
  rw [get_eq_readAt, PlacedList.ref, reads, Option.map_some]

theorem isSome_place {ref : ListRef} (decodes : (ref.get extra).isSome) : (ref.place extra).isSome := by
  rw [get_eq_readAt, Option.isSome_map] at decodes
  rw [ListRef.place, Option.isSome_map]
  exact decodes

theorem map_ref_filterMap_place {refs : List ListRef} (decodes : ∀ ref ∈ refs, (ref.get extra).isSome) :
    (refs.filterMap (ListRef.place extra)).map PlacedList.ref = refs := by
  induction refs with
  | nil => rfl
  | cons ref refs ih =>
    obtain ⟨_, placed⟩ := Option.isSome_iff_exists.mp (isSome_place (decodes ref (.head _)))
    rw [List.filterMap_cons_some placed, List.map_cons, (place_eq_some placed).1,
      ih fun other member => decodes other (.tail _ member)]

namespace Rir

/-- Every list lies in the extra array and decodes. -/
def WellFormed (rir : Rir) : Prop := ∀ inst ∈ rir.instructions, ∀ ref ∈ inst.data.lists,
    ref.start.toNat ≤ rir.extra.length ∧ (ref.get rir.extra).isSome

instance (rir : Rir) : Decidable rir.WellFormed :=
  inferInstanceAs (Decidable (∀ inst ∈ rir.instructions, ∀ ref ∈ inst.data.lists,
    ref.start.toNat ≤ rir.extra.length ∧ (ref.get rir.extra).isSome))

def placedLists (rir : Rir) : List (List PlacedList) :=
  rir.instructions.map fun inst => inst.data.lists.filterMap (ListRef.place rir.extra)

structure Renumberable (instOffset extraOffset : Word) (rir : Rir) : Prop where
  walked : ∀ list ∈ rir.placedLists.flatten, list.payload.IsWalked instOffset
  renumbered : ∀ inst ∈ rir.instructions, inst.data.IsRenumbered instOffset extraOffset
  apart : rir.placedLists.flatten.Pairwise (PlacedList.Apart instOffset)

end Rir

variable {data : List Word} {start count stop : Nat} {payload : RirPayload}

theorem mem_placedLists {rir : Rir} {list : PlacedList} (member : list ∈ rir.placedLists.flatten) :
    ∃ inst ∈ rir.instructions, list.ref ∈ inst.data.lists ∧ list.Reads rir.extra := by
  obtain ⟨lists, listsMember, inside⟩ := List.mem_flatten.mp member
  obtain ⟨inst, instMember, rfl⟩ := List.mem_map.mp listsMember
  obtain ⟨ref, refMember, placed⟩ := List.mem_filterMap.mp inside
  obtain ⟨sameRef, reads⟩ := place_eq_some placed
  exact ⟨inst, instMember, sameRef ▸ refMember, reads⟩

theorem readList_stop_le {α : Type} {decode : Decoder Word α} {Admitted : α → Prop}
    {wrap : List α → RirPayload} (isLocal : Local decode Admitted)
    (read : readList decode wrap data start count = some (payload, stop))
    (admitted : ∀ values, payload = wrap values → ∀ value ∈ values, Admitted value)
    (starts : start ≤ data.length) : stop ≤ data.length := by
  obtain ⟨values, decoded, rfl⟩ := readList_eq_some read
  exact stop_le_length_of_decodeMany isLocal decoded (admitted values rfl) starts

theorem readAt_stop_le {instOffset : Word} {kind : ListKind}
    (read : kind.readAt data start count = some (payload, stop))
    (walked : payload.IsWalked instOffset) (starts : start ≤ data.length) : stop ≤ data.length := by
  cases kind with
  | matchArms =>
    refine readList_stop_le (matchArm_patchable instOffset).toLocal read ?_ starts
    rintro _ rfl
    exact walked
  | directives => exact readList_stop_le decodeDirective_local read (fun _ _ _ _ => trivial) starts
  | params => exact readList_stop_le decodeParam_local read (fun _ _ _ _ => trivial) starts
  | callArgs => exact readList_stop_le decodeCallArg_local read (fun _ _ _ _ => trivial) starts
  | fieldInits => exact readList_stop_le decodeFieldInit_local read (fun _ _ _ _ => trivial) starts
  | fieldDecls => exact readList_stop_le decodeFieldDecl_local read (fun _ _ _ _ => trivial) starts
  | enumVariantDecls =>
    exact readList_stop_le decodeEnumVariantDecl_local read (fun _ _ _ _ => trivial) starts
  | destructureFields =>
    exact readList_stop_le decodeDestructureField_local read (fun _ _ _ _ => trivial) starts
  | instRefs => exact readList_stop_le decodeInstRef_local read (fun _ _ _ _ => trivial) starts

def PlacedList.moveBy (extraOffset : Word) (list : PlacedList) : PlacedList :=
  { list with start := list.start + extraOffset, stop := extraOffset.toNat + list.stop }

section Moved

variable {instOffset extraOffset : Word} {before words : List Word} {list : PlacedList}

theorem toNat_moved_start (starts : list.start.toNat ≤ words.length)
    (fits : extraOffset.toNat + words.length < 2 ^ 32) :
    (list.moveBy extraOffset).start.toNat = extraOffset.toNat + list.start.toNat := by
  rw [PlacedList.moveBy, BitVec.toNat_add, Nat.mod_eq_of_lt (by omega), Nat.add_comm]

theorem covers_moved {index : Nat} (starts : list.start.toNat ≤ words.length)
    (fits : extraOffset.toNat + words.length < 2 ^ 32)
    (covered : (list.moveBy extraOffset).Covers index) :
    extraOffset.toNat ≤ index ∧ list.Covers (index - extraOffset.toNat) := by
  obtain ⟨lower, upper⟩ := covered
  rw [toNat_moved_start starts fits] at lower
  have upper' : index < extraOffset.toNat + list.stop := upper
  exact ⟨by omega, by omega, by omega⟩

theorem reads_moved (reads : list.Reads words) (walked : list.payload.IsWalked instOffset)
    (starts : list.start.toNat ≤ words.length)
    (fits : extraOffset.toNat + words.length < 2 ^ 32)
    (placed : before.length = extraOffset.toNat) :
    (list.moveBy extraOffset).Reads (before ++ words) := by
  unfold PlacedList.Reads
  rw [toNat_moved_start starts fits]
  refine readAt_moved reads walked ?_
  intro _ _ _
  rw [List.getElem?_append_right (by omega)]
  congr 1
  omega

end Moved

theorem apart_moved {instOffset extraOffset : Word} {words : List Word} {first second : PlacedList}
    (firstStarts : first.start.toNat ≤ words.length)
    (secondStarts : second.start.toNat ≤ words.length)
    (fits : extraOffset.toNat + words.length < 2 ^ 32) (apart : first.Apart instOffset second) :
    (first.moveBy extraOffset).Apart instOffset (second.moveBy extraOffset) := by
  intro index
  have firstBack : (first.moveBy extraOffset).Covers index → first.Covers (index - extraOffset.toNat) :=
    fun covered => (covers_moved firstStarts fits covered).2
  have secondBack : (second.moveBy extraOffset).Covers index → second.Covers (index - extraOffset.toNat) :=
    fun covered => (covers_moved secondStarts fits covered).2
  constructor
  · rintro ⟨⟨moves, holds, covered⟩, otherCovered⟩
    exact (apart _).1 ⟨⟨moves, holds, firstBack covered⟩, secondBack otherCovered⟩
  · rintro ⟨covered, moves, holds, otherCovered⟩
    exact (apart _).2 ⟨firstBack covered, moves, holds, secondBack otherCovered⟩

section OneFile

variable {instOffset extraOffset : Word} {before : List Word} {rir : Rir}

theorem placedLists_moved (wellFormed : rir.WellFormed) : List.Forall₂ (fun inst placed => placed.map PlacedList.ref =
      inst.data.lists.map (ListRef.moved extraOffset)) rir.instructions
      (rir.placedLists.map (List.map (PlacedList.moveBy extraOffset))) := by
  rw [Rir.placedLists, List.map_map, List.forall₂_map_right_iff, List.forall₂_same]
  intro inst member
  have placed := map_ref_filterMap_place fun ref refMember => (wellFormed inst member ref refMember).2
  rw [Function.comp_apply, List.map_map]
  conv_rhs => rw [← placed]
  rw [List.map_map]
  rfl

theorem start_le_of_mem (wellFormed : rir.WellFormed) {list : PlacedList}
    (member : list ∈ rir.placedLists.flatten) : list.start.toNat ≤ rir.extra.length := by
  obtain ⟨inst, instMember, refMember, _⟩ := mem_placedLists member
  exact (wellFormed inst instMember _ refMember).1

theorem renumberExtraInstRefs_spec (wellFormed : rir.WellFormed)
    (renumberable : rir.Renumberable instOffset extraOffset)
    (placed : before.length = extraOffset.toNat)
    (fits : extraOffset.toNat + rir.extra.length < 2 ^ 32) :
    ∃ words, Rir.renumberExtraInstRefs instOffset extraOffset (before ++ rir.extra)
        rir.instructions = some (before ++ words) ∧
      words.length = rir.extra.length ∧
      ∀ list ∈ rir.placedLists.flatten, ((list.moveBy extraOffset).shift instOffset).Reads (before ++ words) := by
  have flat : (rir.placedLists.map (List.map (PlacedList.moveBy extraOffset))).flatten =
      rir.placedLists.flatten.map (PlacedList.moveBy extraOffset) := by
    rw [List.map_flatten]
  have starts := fun list member => @start_le_of_mem rir wellFormed list member
  have step := renumbers_insts (placedLists_moved wellFormed) (by
      rw [flat]
      intro list member
      obtain ⟨old, oldMember, rfl⟩ := List.mem_map.mp member
      exact renumberable.walked old oldMember)
    renumberable.renumbered
  rw [flat] at step
  obtain ⟨result, stepped, sameLength, reads, outside⟩ := step (before ++ rir.extra) (by
      intro list member
      obtain ⟨old, oldMember, rfl⟩ := List.mem_map.mp member
      obtain ⟨_, _, _, oldReads⟩ := mem_placedLists oldMember
      exact reads_moved oldReads (renumberable.walked old oldMember) (starts old oldMember) fits placed)
    (by
      rw [List.pairwise_map]
      refine renumberable.apart.imp_of_mem ?_
      intro first second firstMember secondMember apart
      exact apart_moved (starts first firstMember) (starts second secondMember) fits apart)
  have front : result.take before.length = before := by
    apply List.ext_getElem?
    intro index
    by_cases inside : index < before.length
    · rw [List.getElem?_take_of_lt inside, outside index, List.getElem?_append_left inside]
      rintro list member ⟨_, _, covered⟩
      obtain ⟨old, oldMember, rfl⟩ := List.mem_map.mp member
      have lower := (covers_moved (starts old oldMember) fits covered).1
      omega
    · rw [List.getElem?_take_eq_none (by omega), List.getElem?_eq_none (by omega)]
  have whole : result = before ++ result.drop before.length := by
    conv_lhs => rw [← List.take_append_drop before.length result, front]
  refine ⟨result.drop before.length, ?_, ?_, ?_⟩
  · rw [← whole]
    exact stepped
  · rw [List.length_drop, sameLength, List.length_append]
    omega
  · intro list member
    rw [← whole]
    exact reads _ (List.mem_map_of_mem member)

end OneFile

def ListRef.Follows (extraOffset : Word) (new old : ListRef) : Prop :=
  new = old.moved extraOffset ∨ (new.kind = old.kind ∧ new.len = 0 ∧ old.len = 0)

theorem follows_shiftUnlessEmpty (kind : ListKind) (start len extraOffset : Word) :
    ListRef.Follows extraOffset ⟨kind, Rir.shiftUnlessEmpty start len extraOffset, len⟩ ⟨kind, start, len⟩ := by
  unfold Rir.shiftUnlessEmpty
  split
  case isTrue isEmpty => exact .inr ⟨rfl, isEmpty, isEmpty⟩
  case isFalse => exact .inl rfl

theorem lists_renumberInstruction {instOffset extraOffset : Word} {data : InstData}
    (renumbered : data.IsRenumbered instOffset extraOffset) :
    List.Forall₂ (ListRef.Follows extraOffset)
      (Rir.renumberInstruction instOffset extraOffset data).lists data.lists := by
  have here : ∀ kind start len, ListRef.Follows extraOffset ⟨kind, start + extraOffset, len⟩ ⟨kind, start, len⟩ :=
    fun _ _ _ => .inl rfl
  cases data with
  | enumStructVariant module typeName variant fieldsStart fieldsLen =>
    refine .cons ?_ .nil
    rcases renumbered with noFields | rfl
    · exact .inr ⟨rfl, noFields, noFields⟩
    · exact .inl (by simp [ListRef.moved])
  | _ =>
    simp [Rir.renumberInstruction, InstData.lists, here, follows_shiftUnlessEmpty]

theorem get_len_zero {extra other : List Word} {new old : ListRef} (sameKind : new.kind = old.kind)
    (newEmpty : new.len = 0) (oldEmpty : old.len = 0) (onRef : InstRef → InstRef) :
    new.get other = (old.get extra).map (RirPayload.mapRefs onRef) := by
  obtain ⟨kind, _, len⟩ := old
  obtain ⟨_, _⟩ := new
  cases newEmpty
  cases oldEmpty
  cases sameKind
  cases kind <;> rfl

theorem mapM_forall₂ {α β γ δ : Type} {f : α → Option γ} {g : β → Option δ} {h : δ → γ}
    {news : List α} {olds : List β}
    (related : List.Forall₂ (fun new old => f new = (g old).map h) news olds) :
    news.mapM f = (olds.mapM g).map (List.map h) := by
  induction related with
  | nil => rfl
  | @cons new old news olds first _ ih =>
    rw [List.mapM_cons, List.mapM_cons, first, ih]
    cases g old <;> cases olds.mapM g <;> rfl

def Rir.renumberInst (instOffset extraOffset : Word) (inst : Inst) : Inst :=
  { inst with data := Rir.renumberInstruction instOffset extraOffset inst.data }

theorem getElem?_of_isPrefix {α : Type} {front whole : List α} (isFront : front <+: whole)
    {index : Nat} (inside : index < front.length) : whole[index]? = front[index]? := by
  obtain ⟨_, rfl⟩ := isFront
  exact List.getElem?_append_left inside

section OneFile

variable {instOffset extraOffset : Word} {before : List Word} {rir : Rir}
variable {words longer : List Word} {inst : Inst}

theorem get_follows {new old : ListRef} (wellFormed : rir.WellFormed)
    (renumberable : rir.Renumberable instOffset extraOffset)
    (fits : extraOffset.toNat + rir.extra.length < 2 ^ 32)
    (placed : before.length = extraOffset.toNat) (sameLength : words.length = rir.extra.length)
    (reads : ∀ list ∈ rir.placedLists.flatten, ((list.moveBy extraOffset).shift instOffset).Reads (before ++ words))
    (extended : before ++ words <+: longer) (member : inst ∈ rir.instructions)
    (listed : old ∈ inst.data.lists) (follows : new.Follows extraOffset old) :
    new.get longer = (old.get rir.extra).map (RirPayload.mapRefs (· + instOffset)) := by
  rcases follows with rfl | ⟨sameKind, newEmpty, oldEmpty⟩
  · obtain ⟨starts, decodes⟩ := wellFormed inst member old listed
    obtain ⟨list, placedList⟩ := Option.isSome_iff_exists.mp (isSome_place decodes)
    obtain ⟨rfl, oldReads⟩ := place_eq_some placedList
    have listMember : list ∈ rir.placedLists.flatten :=
      List.mem_flatten.mpr ⟨_, List.mem_map_of_mem member, List.mem_filterMap.mpr ⟨list.ref, listed, placedList⟩⟩
    have walked := renumberable.walked list listMember
    have stops := readAt_stop_le oldReads walked starts
    have newReads : ((list.moveBy extraOffset).shift instOffset).Reads longer := by
      refine (reads list listMember).congr (mapRefs_isWalked walked) ?_
      intro index covered
      have upper : index < extraOffset.toNat + list.stop := covered.2
      apply getElem?_of_isPrefix extended
      rw [List.length_append]
      omega
    rw [oldReads.get, Option.map_some]
    exact newReads.get
  · exact get_len_zero sameKind newEmpty oldEmpty _

theorem decode_renumberInst (wellFormed : rir.WellFormed) (renumberable : rir.Renumberable instOffset extraOffset)
    (fits : extraOffset.toNat + rir.extra.length < 2 ^ 32)
    (placed : before.length = extraOffset.toNat) (sameLength : words.length = rir.extra.length)
    (reads : ∀ list ∈ rir.placedLists.flatten, ((list.moveBy extraOffset).shift instOffset).Reads (before ++ words))
    (extended : before ++ words <+: longer) (member : inst ∈ rir.instructions) :
    (Rir.renumberInst instOffset extraOffset inst).decode longer =
      (inst.decode rir.extra).map (DecodedInst.shift instOffset) := by
  have follow := lists_renumberInstruction (renumberable.renumbered inst member)
  have related : List.Forall₂ (fun new old => ListRef.get longer new =
      (ListRef.get rir.extra old).map (RirPayload.mapRefs (· + instOffset)))
      (Rir.renumberInst instOffset extraOffset inst).data.lists inst.data.lists := by
    rw [List.forall₂_iff_get] at follow ⊢
    refine ⟨follow.1, fun index newBound oldBound => ?_⟩
    exact get_follows wellFormed renumberable fits placed sameLength reads extended member
      (List.get_mem _ _) (follow.2 index newBound oldBound)
  rw [Inst.decode, Inst.decode, mapM_forall₂ related]
  cases inst.data.lists.mapM (ListRef.get rir.extra) with
  | none => rfl
  | some lists =>
    have fields := mapFields_renumberInstruction instOffset extraOffset inst.data
    simp only [Option.map_some, Option.bind_eq_bind, Option.bind_some, DecodedInst.shift, Rir.renumberInst, fields]

end OneFile

variable {state : Rir.MergeState} {rir : Rir}

structure Rir.MergeState.Aligned (state : Rir.MergeState) : Prop where
  instructions : state.instOffset.toNat = state.merged.instructions.length
  extra : state.extraOffset.toNat = state.merged.extra.length

theorem toNat_add_lengthWord {offset : Word} {length : Nat} (fits : offset.toNat + length < 2 ^ 32) :
    (offset + lengthWord length).toNat = offset.toNat + length := by
  rw [BitVec.toNat_add, lengthWord, BitVec.toNat_ofNat]
  omega

theorem mergeOne_eq_some {extra : List Word}
    (renumbered : Rir.renumberExtraInstRefs state.instOffset state.extraOffset
      (state.merged.extra ++ rir.extra) rir.instructions = some extra) :
    ∃ next, Rir.mergeOne state rir = some next ∧
      next.instOffset = state.instOffset + lengthWord rir.instructions.length ∧
      next.extraOffset = state.extraOffset + lengthWord rir.extra.length ∧
      next.merged.instructions = state.merged.instructions ++
        rir.instructions.map (Rir.renumberInst state.instOffset state.extraOffset) ∧
      next.merged.extra = extra := by
  simp only [Rir.mergeOne, renumbered, Option.bind_eq_bind, Option.bind_some]
  exact ⟨_, rfl, rfl, rfl, rfl, rfl⟩

theorem mergeOne_spec (aligned : state.Aligned) (wellFormed : rir.WellFormed)
    (renumberable : rir.Renumberable state.instOffset state.extraOffset)
    (instFits : state.merged.instructions.length + rir.instructions.length < 2 ^ 32)
    (extraFits : state.merged.extra.length + rir.extra.length < 2 ^ 32) :
    ∃ next, Rir.mergeOne state rir = some next ∧ next.Aligned ∧
      next.instOffset = state.instOffset + lengthWord rir.instructions.length ∧
      next.extraOffset = state.extraOffset + lengthWord rir.extra.length ∧
      next.merged.instructions = state.merged.instructions ++
        rir.instructions.map (Rir.renumberInst state.instOffset state.extraOffset) ∧
      state.merged.extra <+: next.merged.extra ∧
      next.merged.extra.length = state.merged.extra.length + rir.extra.length ∧
      ∀ longer, next.merged.extra <+: longer → ∀ inst ∈ rir.instructions,
        (Rir.renumberInst state.instOffset state.extraOffset inst).decode longer =
          (inst.decode rir.extra).map (DecodedInst.shift state.instOffset) := by
  have fits : state.extraOffset.toNat + rir.extra.length < 2 ^ 32 := by
    rw [aligned.extra]
    exact extraFits
  obtain ⟨_, renumbered, sameLength, reads⟩ :=
    renumberExtraInstRefs_spec wellFormed renumberable aligned.extra.symm fits
  obtain ⟨next, merged, instOffsetNext, extraOffsetNext, instructions, extra⟩ :=
    mergeOne_eq_some renumbered
  have instFits' : state.instOffset.toNat + rir.instructions.length < 2 ^ 32 := by
    rw [aligned.instructions]
    exact instFits
  refine ⟨next, merged, ⟨?_, ?_⟩, instOffsetNext, extraOffsetNext, instructions, ?_, ?_, ?_⟩
  · rw [instOffsetNext, toNat_add_lengthWord instFits', aligned.instructions, instructions,
      List.length_append, List.length_map]
  · rw [extraOffsetNext, toNat_add_lengthWord fits, aligned.extra, extra, List.length_append, sameLength]
  · rw [extra]
    exact List.prefix_append _ _
  · rw [extra, List.length_append, sameLength]
  · intro longer extended inst member
    rw [extra] at extended
    exact decode_renumberInst wellFormed renumberable fits aligned.extra.symm sameLength reads extended member

def Rir.instCount (rirs : List Rir) : Nat := (rirs.map fun rir => rir.instructions.length).sum

def Rir.extraCount (rirs : List Rir) : Nat := (rirs.map fun rir => rir.extra.length).sum

/-- Every file meets what the passes get right, at the offsets it is merged at. -/
def Rir.RenumberableFrom (instOffset extraOffset : Word) : List Rir → Prop
  | [] => True
  | rir :: rirs =>
    rir.Renumberable instOffset extraOffset ∧ RenumberableFrom (instOffset + lengthWord rir.instructions.length)
        (extraOffset + lengthWord rir.extra.length) rirs

theorem foldlM_mergeOne_spec {rirs : List Rir} {state : Rir.MergeState} (aligned : state.Aligned)
    (wellFormed : ∀ rir ∈ rirs, rir.WellFormed)
    (renumberable : Rir.RenumberableFrom state.instOffset state.extraOffset rirs)
    (instFits : state.merged.instructions.length + Rir.instCount rirs < 2 ^ 32)
    (extraFits : state.merged.extra.length + Rir.extraCount rirs < 2 ^ 32) :
    ∃ final, rirs.foldlM Rir.mergeOne state = some final ∧ state.merged.instructions <+: final.merged.instructions ∧
      state.merged.extra <+: final.merged.extra ∧
      ∀ before rir after, rirs = before ++ rir :: after → ∀ index inst,
        rir.instructions[index]? = some inst → final.merged.decodeInst
              (state.merged.instructions.length + Rir.instCount before + index) =
            (inst.decode rir.extra).map
              (DecodedInst.shift (state.instOffset + lengthWord (Rir.instCount before))) := by
  induction rirs generalizing state with
  | nil => exact ⟨state, rfl, List.prefix_rfl, List.prefix_rfl, by simp⟩
  | cons rir rirs ih =>
    obtain ⟨firstRenumberable, othersRenumberable⟩ := renumberable
    have instCount_cons : Rir.instCount (rir :: rirs) = rir.instructions.length + Rir.instCount rirs := by
      simp [Rir.instCount]
    have extraCount_cons : Rir.extraCount (rir :: rirs) = rir.extra.length + Rir.extraCount rirs := by
      simp [Rir.extraCount]
    obtain ⟨next, merged, nextAligned, instOffsetNext, extraOffsetNext, instructions, extraFront,
      _, decodes⟩ := mergeOne_spec aligned (wellFormed rir (.head _)) firstRenumberable (by omega) (by omega)
    have instLength : next.merged.instructions.length =
        state.merged.instructions.length + rir.instructions.length := by
      rw [instructions, List.length_append, List.length_map]
    rw [← instOffsetNext, ← extraOffsetNext] at othersRenumberable
    obtain ⟨final, folded, instFront, finalFront, others⟩ := ih nextAligned
      (fun other member => wellFormed other (.tail _ member)) othersRenumberable
      (by omega) (by omega)
    refine ⟨final, by simp [merged, folded], ?_, extraFront.trans finalFront, ?_⟩
    · refine List.IsPrefix.trans ?_ instFront
      rw [instructions]
      exact List.prefix_append _ _
    · intro before file after split index inst present
      cases before with
      | nil =>
        cases split
        have here : final.merged.instructions[state.merged.instructions.length + index]? =
            some (Rir.renumberInst state.instOffset state.extraOffset inst) := by
          have bound := (List.getElem?_eq_some_iff.mp present).1
          rw [getElem?_of_isPrefix instFront (by omega), instructions,
            List.getElem?_append_right (by omega), Nat.add_sub_cancel_left, List.getElem?_map,
            present, Option.map_some]
        have decoded := decodes final.merged.extra finalFront inst (List.mem_of_getElem? present)
        simpa [Rir.decodeInst, Rir.instCount, lengthWord, here] using decoded
      | cons head before =>
        obtain ⟨rfl, rfl⟩ := List.cons.inj split
        have later := others before file after rfl index inst present
        have count : Rir.instCount (rir :: before) = rir.instructions.length + Rir.instCount before := by
          simp [Rir.instCount]
        have words : state.instOffset + lengthWord (Rir.instCount (rir :: before)) =
            next.instOffset + lengthWord (Rir.instCount before) := by
          rw [instOffsetNext, count, lengthWord, lengthWord, lengthWord, BitVec.ofNat_add, BitVec.add_assoc]
        rw [words, count, ← later, instLength]
        congr 1
        omega

def Rir.Preserved (rirs : List Rir) (merged : Rir) : Prop :=
  ∀ before rir after, rirs = before ++ rir :: after → ∀ index < rir.instructions.length,
      merged.decodeInst (Rir.instCount before + index) =
        (rir.decodeInst index).map (DecodedInst.shift (lengthWord (Rir.instCount before)))

def Rir.Merges (rirs : List Rir) : Prop :=
  ∃ merged, Rir.merge rirs = some merged ∧ Rir.Preserved rirs merged

theorem DecodedInst.shift_zero (rir : Rir) (index : Nat) :
    (rir.decodeInst index).map (DecodedInst.shift 0) = rir.decodeInst index := by
  have unchanged : (fun ref : InstRef => ref + 0) = id := by
    funext ref
    simp
  have twice : ∀ data : InstData, (data.mapFields id fun _ => 0).mapFields id (fun _ => 0) =
      data.mapFields id fun _ => 0 := by
    intro data
    cases data <;> simp [InstData.mapFields]
  unfold Rir.decodeInst
  cases rir.instructions[index]? with
  | none => rfl
  | some inst =>
    simp only [Option.bind_some, Inst.decode]
    cases inst.data.lists.mapM (ListRef.get rir.extra) with
    | none => rfl
    | some lists =>
      have sameLists : lists.map (RirPayload.mapRefs id) = lists := by
        rw [funext RirPayload.mapRefs_id]
        exact List.map_id' lists
      simp only [Option.bind_eq_bind, Option.bind_some, Option.map_some, DecodedInst.shift,
        unchanged, twice, sameLists]

/-- The merge keeps every file's program where the two passes agree on it: at most one
file, or arms of the four oldest pattern kinds, and beyond the first file no module
reference in a path pattern, no enum with methods, no initialised struct variant and
no list of references that shares words with another list. -/
theorem merge_preserves (rirs : List Rir) (wellFormed : ∀ rir ∈ rirs, rir.WellFormed)
    (instFits : Rir.instCount rirs < 2 ^ 32) (extraFits : Rir.extraCount rirs < 2 ^ 32)
    (renumberable : rirs.length ≤ 1 ∨ Rir.RenumberableFrom 0 0 rirs) : Rir.Merges rirs := by
  match rirs, wellFormed, instFits, extraFits, renumberable with
  | [], _, _, _, _ => exact ⟨{}, rfl, by simp [Rir.Preserved]⟩
  | [rir], _, _, _, _ =>
    refine ⟨rir, rfl, ?_⟩
    intro before _ after split index _
    cases before with
    | nil =>
      cases split
      rw [show Rir.instCount [] = 0 from rfl, Nat.zero_add]
      exact (DecodedInst.shift_zero rir index).symm
    | cons head before => simp at split
  | first :: second :: rirs, wellFormed, instFits, extraFits, renumberable =>
    have everyFile : Rir.RenumberableFrom 0 0 (first :: second :: rirs) := by
      rcases renumberable with short | everyFile
      · simp at short
      · exact everyFile
    obtain ⟨final, folded, _, _, decodes⟩ :=
      @foldlM_mergeOne_spec _ ⟨{}, 0, 0⟩ ⟨rfl, rfl⟩ wellFormed everyFile (by simpa using instFits)
        (by simpa using extraFits)
    refine ⟨final.merged, ?_, ?_⟩
    · rw [Rir.merge, folded, Option.map_some]
      all_goals simp
    · intro before rir after split index bound
      have present := List.getElem?_eq_getElem bound
      have decoded := decodes before rir after split index _ present
      have own : rir.decodeInst index = Inst.decode rir.extra (rir.instructions.get ⟨index, bound⟩) := by
        rw [Rir.decodeInst, present, Option.bind_some]
        rfl
      rw [own]
      simpa using decoded

namespace MergeSample

def blockFile : Rir where
  instructions := [⟨.unitConst, Span.new 0 2⟩, ⟨.block 0 1, Span.new 0 4⟩]
  extra := [0]

def matchFile (pattern : RirPattern) : Rir where
  instructions := [⟨.boolConst true, Span.new 0 4⟩, ⟨.unitConst, Span.new 5 7⟩, ⟨.matchOn 0 0 1, Span.new 0 9⟩]
  extra := encodeMatchArm (pattern, 1)

def enumFile : Rir where
  instructions := [⟨.unitConst, Span.new 0 2⟩, ⟨.enumDecl false .affine 0 0 0 0 1 1 0, Span.new 0 9⟩]
  extra := [0]

def variantFile : Rir where
  instructions := [⟨.unitConst, Span.new 0 2⟩, ⟨.enumStructVariant none 0 1 0 1, Span.new 0 9⟩]
  extra := [7, 0]

theorem boolMatch_merges : Rir.Merges [blockFile, matchFile (.bool true (Span.new 1 2))] := by
  have blockLists : blockFile.placedLists.flatten = [⟨.instRefs, 0, 1, .instRefs [0], 1⟩] := rfl
  have matchLists : (matchFile (.bool true (Span.new 1 2))).placedLists.flatten =
      [⟨.matchArms, 0, 1, .matchArms [(.bool true (Span.new 1 2), 1)], 5⟩] := rfl
  have everyFile : Rir.RenumberableFrom 0 0 [blockFile, matchFile (.bool true (Span.new 1 2))] := by
    refine ⟨⟨?_, ?_, ?_⟩, ⟨?_, ?_, ?_⟩, trivial⟩
    · simp [blockLists, RirPayload.IsWalked]
    · simp [blockFile, InstData.IsRenumbered]
    · simp [blockLists]
    · rw [matchLists]
      simp [RirPayload.IsWalked, RirPattern.IsWalked]
    · simp [matchFile, InstData.IsRenumbered]
    · exact List.pairwise_singleton _ _
  exact merge_preserves _ (by decide) (by decide) (by decide) (.inr everyFile)

/-- Each file is well-formed on its own, and none survives being merged behind another: a
binding pattern panics, an enum keeps its method references, a struct variant reads its
initialisers from the other file, and a path pattern keeps its module reference. -/
theorem not_merges_behind_another : (blockFile.WellFormed ∧ (matchFile (.ident 3 false (Span.new 1 2))).WellFormed ∧
      enumFile.WellFormed ∧ variantFile.WellFormed ∧
      (matchFile (.path (some 1) 3 4 (Span.new 1 2))).WellFormed) ∧
    ¬Rir.Merges [blockFile, matchFile (.ident 3 false (Span.new 1 2))] ∧
    ¬Rir.Merges [blockFile, enumFile] ∧
    ¬Rir.Merges [blockFile, variantFile] ∧
    ¬Rir.Merges [blockFile, matchFile (.path (some 1) 3 4 (Span.new 1 2))] := by
  refine ⟨by decide, ?_, ?_, ?_, ?_⟩
  · rintro ⟨merged, result, _⟩
    cases result
  · rintro ⟨merged, result, preserved⟩
    cases result
    have decoded := preserved [blockFile] enumFile [] rfl 1 (by decide)
    cases decoded
  · rintro ⟨merged, result, preserved⟩
    cases result
    have decoded := preserved [blockFile] variantFile [] rfl 1 (by decide)
    cases decoded
  · rintro ⟨merged, result, preserved⟩
    cases result
    have decoded := preserved [blockFile] (matchFile (.path (some 1) 3 4 (Span.new 1 2))) [] rfl 2 (by decide)
    cases decoded

end MergeSample

end Gruel
