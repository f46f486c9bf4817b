import Gruel.SpansCore

/-!
The spans of a parse belong to their file and node exactly when none of them leaves the file
out, or the file is the default one, and no item carries a doc comment.
-/

namespace Gruel

namespace Spans

open Ast

attribute [local simp] Recognised.build spans spansAll

variable {kind : Kind} {origin : Origin} {fileId : FileId}

theorem mem_fields_of_madeBy (made : madeBy kind (some origin) = true) :
    .span ∈ kind.fields.map Field.shape := by
  cases origin <;> cases kind <;> first | decide | cases made

theorem not_mem_fields_of_madeBy (made : madeBy kind none = true) :
    .span ∉ kind.fields.map Field.shape := by
  cases kind <;> first | decide | cases made

theorem length_buildAll (fileId : FileId) (values : List Recognised) :
    (buildAll fileId values).length = values.length := by
  induction values with
  | nil => rfl
  | cons value values ih => rw [buildAll, List.length_cons, List.length_cons, ih]

section Node

variable {fileId : FileId} {kind : Kind} {origin : Origin} {fields : List Recognised}
variable {trees : List (Ast.Tree Nat)}

theorem spanField_le (made : wellMade kind (some origin) fields = true) :
    spanField kind ≤ (buildAll fileId fields).length := by
  simp only [wellMade, Bool.and_eq_true, decide_eq_true_eq, Option.isSome_some, if_true] at made
  have inFields := List.idxOf_lt_length_of_mem (mem_fields_of_madeBy made.1.1)
  rw [length_buildAll]
  rw [List.length_map] at inFields
  unfold spanField
  omega

theorem mem_spansAll_insertIdx {index : Nat} {own span : Span} (bound : index ≤ trees.length) :
    span ∈ spansAll (trees.insertIdx index (.span own)) ↔ span = own ∨ span ∈ spansAll trees := by
  induction trees generalizing index with
  | nil =>
    obtain rfl := Nat.le_zero.mp bound
    simp
  | cons tree trees ih =>
    cases index with
    | zero => simp
    | succ index =>
      have boundRest := Nat.le_of_succ_le_succ bound
      simp only [List.insertIdx_succ_cons, spansAll, List.mem_append, ih boundRest]
      exact or_left_comm

theorem nestedAll_insertIdx {index : Nat} (own : Span) (bound : index ≤ trees.length) :
    nestedAll (trees.insertIdx index (.span own)) = nestedAll trees := by
  induction trees generalizing index with
  | nil =>
    obtain rfl := Nat.le_zero.mp bound
    rfl
  | cons tree trees ih =>
    cases index with
    | zero => rfl
    | succ index =>
      rw [List.insertIdx_succ_cons, nestedAll, nestedAll, ih (Nat.le_of_succ_le_succ bound)]

theorem ownSpan_insertIdx (own : Span) (bound : spanField kind ≤ trees.length) :
    ownSpan kind (trees.insertIdx (spanField kind) (.span own)) = some own := by
  rw [ownSpan, List.getElem?_insertIdx_self, if_pos bound]

theorem ownSpan_none (made : wellMade kind none fields = true) : ownSpan kind (buildAll fileId fields) = none := by
  simp only [wellMade, Bool.and_eq_true, decide_eq_true_eq] at made
  have absent := List.idxOf_eq_length_iff.mpr (not_mem_fields_of_madeBy made.1.1)
  have beyond : (buildAll fileId fields)[spanField kind]? = none := by
    rw [List.getElem?_eq_none_iff, length_buildAll, spanField, absent, List.length_map]
    omega
  rw [ownSpan, beyond]

end Node

def SameRange (first second : Span) : Prop := first.start = second.start ∧ first.stop = second.stop

mutual

theorem span_range (fileId other : FileId) (value : Recognised) :
    SameRange (value.span fileId) (value.span other) := by
  match value with
  | .leaf _ | .position .. | .doc .. | .opt none | .node _ (some (.extra ..)) _
  | .node _ (some (.blockEnd _)) _ => exact ⟨rfl, rfl⟩
  | .opt (some value) => exact span_range fileId other value
  | .list values => exact spanFirst_range fileId other values
  | .node _ none fields => exact spanFirst_range fileId other fields
  | .node _ (some (.extendTo _)) fields => exact ⟨(spanFirst_range fileId other fields).1, rfl⟩
  | .node _ (some (.makeUnary _)) fields => exact ⟨rfl, (spanLast_range fileId other fields).2⟩
  | .node _ (some .makeBinary) fields | .node _ (some .assignTarget) fields =>
    exact ⟨(spanFirst_range fileId other fields).1, (spanLast_range fileId other fields).2⟩

theorem spanFirst_range (fileId other : FileId) (values : List Recognised) :
    SameRange (spanFirst fileId values) (spanFirst other values) := by
  match values with
  | [] => exact ⟨rfl, rfl⟩
  | value :: _ => exact span_range fileId other value

theorem spanLast_range (fileId other : FileId) (values : List Recognised) :
    SameRange (spanLast fileId values) (spanLast other values) := by
  match values with
  | [] => exact ⟨rfl, rfl⟩
  | [value] => exact span_range fileId other value
  | _ :: value :: values => exact spanLast_range fileId other (value :: values)

end

mutual

theorem span_fileId (value : Recognised) (isSpanned : value.spanned = true)
    (kept : fileId = FileId.default ∨ value.leavesOutFile = false) :
    (value.span fileId).fileId = fileId := by
  match value with
  | .leaf _ => cases isSpanned
  | .position .. => rfl
  | .doc .. => rfl
  | .opt none => cases isSpanned
  | .opt (some value) => exact span_fileId value isSpanned kept
  | .list values => exact spanFirst_fileId values isSpanned kept
  | .node _ none fields | .node _ (some (.extendTo _)) fields => exact spanFirst_fileId fields isSpanned kept
  | .node _ (some (.extra ..)) _ => rfl
  | .node _ (some (.blockEnd _)) _ | .node _ (some (.makeUnary _)) _
  | .node _ (some .makeBinary) _ | .node _ (some .assignTarget) _ =>
    rcases kept with isDefault | kept
    · exact isDefault.symm
    · cases kept

theorem spanFirst_fileId (values : List Recognised) (isSpanned : spannedFirst values = true)
    (kept : fileId = FileId.default ∨ leavesOutFileAll values = false) :
    (spanFirst fileId values).fileId = fileId := by
  match values with
  | [] => cases isSpanned
  | value :: values =>
    refine span_fileId value isSpanned (kept.imp_right fun allKept => ?_)
    exact (Bool.or_eq_false_iff.mp allKept).1

end

theorem fits_node {fields : List Recognised} {start stop : BitVec 32}
    (fits : (Recognised.node kind (some origin) fields).fits start stop = true) (fileId : FileId) :
    wellMade kind (some origin) fields = true ∧ ∃ own, (Recognised.node kind (some origin) fields).span fileId = own ∧
        start ≤ own.start ∧ own.start ≤ own.stop ∧ own.stop ≤ stop ∧
        fitsAll own.start own.stop fields = true := by
  obtain ⟨sameStart, sameStop⟩ := span_range fileId FileId.default (.node kind (some origin) fields)
  simp only [Recognised.fits, Bool.and_eq_true, decide_eq_true_eq] at fits
  obtain ⟨⟨⟨⟨made, lower⟩, ordered⟩, upper⟩, fitsFields⟩ := fits
  refine ⟨made, _, rfl, ?_⟩
  rw [sameStart, sameStop]
  exact ⟨lower, ordered, upper, fitsFields⟩

def Within (start stop : BitVec 32) (span : Span) : Prop :=
  start ≤ span.start ∧ span.start ≤ span.stop ∧ span.stop ≤ stop

mutual

theorem within_of_fits (fileId : FileId) (value : Recognised) (start stop : BitVec 32)
    (fits : value.fits start stop = true) (noDoc : value.hasDoc = false) :
    (∀ span ∈ spans (value.build fileId), Within start stop span) ∧ nested (value.build fileId) = true := by
  match value with
  | .leaf value =>
    cases value with
    | spur | scalar | text => exact ⟨by simp, rfl⟩
    | _ => cases fits
  | .position first last =>
    simp only [Recognised.fits, Bool.and_eq_true, decide_eq_true_eq] at fits
    refine ⟨?_, rfl⟩
    simp only [Recognised.build, spans, List.mem_singleton, forall_eq]
    exact ⟨fits.1.1, fits.1.2, fits.2⟩
  | .doc .. => cases noDoc
  | .opt none => exact ⟨by simp, rfl⟩
  | .opt (some value) => exact within_of_fits fileId value start stop fits noDoc
  | .list values => exact within_of_fitsAll fileId values start stop fits noDoc
  | .node kind none fields =>
    rw [Recognised.fits, Bool.and_eq_true] at fits
    obtain ⟨within, nests⟩ := within_of_fitsAll fileId fields start stop fits.2 noDoc
    refine ⟨within, ?_⟩
    rw [Recognised.build, nested, ownSpan_none fits.1, nests]
    rfl
  | .node kind (some origin) fields =>
    obtain ⟨made, own, isOwn, lower, ordered, upper, fitsFields⟩ := fits_node fits fileId
    obtain ⟨within, nests⟩ := within_of_fitsAll fileId fields own.start own.stop fitsFields noDoc
    have bound : spanField kind ≤ (buildAll fileId fields).length := spanField_le made
    rw [Recognised.build, isOwn]
    constructor
    · intro span member
      rw [spans, mem_spansAll_insertIdx bound] at member
      rcases member with rfl | below
      · exact ⟨lower, ordered, upper⟩
      · obtain ⟨afterStart, spanOrdered, beforeStop⟩ := within span below
        exact ⟨BitVec.le_trans lower afterStart, spanOrdered, BitVec.le_trans beforeStop upper⟩
    · rw [nested, ownSpan_insertIdx own bound, nestedAll_insertIdx own bound, nests, Bool.and_true, List.all_eq_true]
      intro span member
      rw [mem_spansAll_insertIdx bound] at member
      rcases member with rfl | below
      · simp [Span.contains]
      · obtain ⟨afterStart, -, beforeStop⟩ := within span below
        simp [Span.contains, afterStart, beforeStop]

theorem within_of_fitsAll (fileId : FileId) (values : List Recognised) (start stop : BitVec 32)
    (fits : fitsAll start stop values = true) (noDoc : hasDocAll values = false) :
    (∀ span ∈ spansAll (buildAll fileId values), Within start stop span) ∧
      nestedAll (buildAll fileId values) = true := by
  match values with
  | [] => exact ⟨by simp [buildAll], rfl⟩
  | value :: values =>
    rw [fitsAll, Bool.and_eq_true] at fits
    rw [hasDocAll, Bool.or_eq_false_iff] at noDoc
    obtain ⟨within, nests⟩ := within_of_fits fileId value start stop fits.1 noDoc.1
    obtain ⟨withinRest, nestsRest⟩ := within_of_fitsAll fileId values start stop fits.2 noDoc.2
    constructor
    · intro span member
      rw [buildAll, spansAll, List.mem_append] at member
      exact member.elim (within span) (withinRest span)
    · rw [buildAll, nestedAll, nests, nestsRest]
      rfl

end

mutual

theorem fileId_of_fits (value : Recognised) (start stop : BitVec 32)
    (fits : value.fits start stop = true)
    (kept : fileId = FileId.default ∨ value.leavesOutFile = false) :
    ∀ span ∈ spans (value.build fileId), span.fileId = fileId := by
  match value with
  | .leaf value =>
    cases value with
    | spur => simp
    | scalar => simp
    | text => simp
    | _ => cases fits
  | .position first last =>
    simp [Span.withFile]
  | .doc body first last =>
    simp [Span.withFile]
  | .opt none => simp
  | .opt (some value) => exact fileId_of_fits value start stop fits kept
  | .list values => exact fileId_of_fitsAll values start stop fits kept
  | .node kind none fields =>
    rw [Recognised.fits, Bool.and_eq_true] at fits
    exact fileId_of_fitsAll fields start stop fits.2 kept
  | .node kind (some origin) fields =>
    obtain ⟨made, own, isOwn, -, -, -, fitsFields⟩ := fits_node fits fileId
    have bound : spanField kind ≤ (buildAll fileId fields).length := spanField_le made
    have keptFields : fileId = FileId.default ∨ leavesOutFileAll fields = false := by
      refine kept.imp_right fun allKept => ?_
      rw [Recognised.leavesOutFile, Bool.or_eq_false_iff] at allKept
      exact allKept.2
    intro span member
    rw [Recognised.build, isOwn, spans, mem_spansAll_insertIdx bound] at member
    rcases member with rfl | below
    · rw [← isOwn]
      refine span_fileId _ ?_ kept
      simp only [wellMade, Bool.and_eq_true] at made
      exact made.2
    · exact fileId_of_fitsAll fields own.start own.stop fitsFields keptFields span below

theorem fileId_of_fitsAll (values : List Recognised) (start stop : BitVec 32)
    (fits : fitsAll start stop values = true)
    (kept : fileId = FileId.default ∨ leavesOutFileAll values = false) :
    ∀ span ∈ spansAll (buildAll fileId values), span.fileId = fileId := by
  match values with
  | [] => simp [buildAll]
  | value :: values =>
    rw [fitsAll, Bool.and_eq_true] at fits
    have keptFirst : fileId = FileId.default ∨ value.leavesOutFile = false :=
      kept.imp_right fun allKept => (Bool.or_eq_false_iff.mp allKept).1
    have keptRest : fileId = FileId.default ∨ leavesOutFileAll values = false :=
      kept.imp_right fun allKept => (Bool.or_eq_false_iff.mp allKept).2
    intro span member
    rw [buildAll, spansAll, List.mem_append] at member
    exact member.elim (fileId_of_fits value start stop fits.1 keptFirst span)
      (fileId_of_fitsAll values start stop fits.2 keptRest span)

end

theorem span_default (fileId : FileId) (kind : Kind) (fields : List Recognised)
    (leavesOut : origin.leavesOutFile = true) :
    (Recognised.span fileId (.node kind (some origin) fields)).fileId = FileId.default := by
  cases origin with
  | extra => cases leavesOut
  | extendTo => cases leavesOut
  | _ => rfl

mutual

theorem default_of_leavesOutFile (fileId : FileId) (value : Recognised) (start stop : BitVec 32)
    (fits : value.fits start stop = true) (leavesOut : value.leavesOutFile = true) :
    ∃ span ∈ spans (value.build fileId), span.fileId = FileId.default := by
  match value with
  | .leaf _ | .position .. | .doc .. | .opt none => cases leavesOut
  | .opt (some value) => exact default_of_leavesOutFile fileId value start stop fits leavesOut
  | .list values => exact default_of_leavesOutFileAll fileId values start stop fits leavesOut
  | .node kind none fields =>
    rw [Recognised.fits, Bool.and_eq_true] at fits
    exact default_of_leavesOutFileAll fileId fields start stop fits.2 leavesOut
  | .node kind (some origin) fields =>
    obtain ⟨made, own, isOwn, -, -, -, fitsFields⟩ := fits_node fits fileId
    have bound : spanField kind ≤ (buildAll fileId fields).length := spanField_le made
    rw [Recognised.build, isOwn, spans]
    rw [Recognised.leavesOutFile, Bool.or_eq_true] at leavesOut
    rcases leavesOut with atNode | below
    · refine ⟨own, (mem_spansAll_insertIdx bound).mpr (.inl rfl), ?_⟩
      rw [← isOwn, span_default fileId kind fields atNode]
    · obtain ⟨span, member, isDefault⟩ :=
        default_of_leavesOutFileAll fileId fields own.start own.stop fitsFields below
      exact ⟨span, (mem_spansAll_insertIdx bound).mpr (.inr member), isDefault⟩

theorem default_of_leavesOutFileAll (fileId : FileId) (values : List Recognised)
    (start stop : BitVec 32) (fits : fitsAll start stop values = true)
    (leavesOut : leavesOutFileAll values = true) :
    ∃ span ∈ spansAll (buildAll fileId values), span.fileId = FileId.default := by
  match values with
  | [] => cases leavesOut
  | value :: values =>
    rw [fitsAll, Bool.and_eq_true] at fits
    rw [leavesOutFileAll, Bool.or_eq_true] at leavesOut
    simp only [buildAll, spansAll, List.mem_append]
    rcases leavesOut with here | later
    · obtain ⟨span, member, isDefault⟩ :=
        default_of_leavesOutFile fileId value start stop fits.1 here
      exact ⟨span, .inl member, isDefault⟩
    · obtain ⟨span, member, isDefault⟩ :=
        default_of_leavesOutFileAll fileId values start stop fits.2 later
      exact ⟨span, .inr member, isDefault⟩

end

mutual

theorem doc_escapes (fileId : FileId) (value : Recognised) (start stop : BitVec 32)
    (fits : value.fits start stop = true) (hasDoc : value.hasDoc = true) :
    (∃ span ∈ spans (value.build fileId), span.start < start) ∨ nested (value.build fileId) = false := by
  match value with
  | .leaf _ => cases hasDoc
  | .position .. => cases hasDoc
  | .opt none => cases hasDoc
  | .doc body first last =>
    simp only [Recognised.fits, Bool.and_eq_true, decide_eq_true_eq] at fits
    refine .inl ⟨Span.withFile fileId first last, by simp, ?_⟩
    change first < start
    bv_omega
  | .opt (some value) => exact doc_escapes fileId value start stop fits hasDoc
  | .list values => exact doc_escapesAll fileId values start stop fits hasDoc
  | .node kind none fields =>
    rw [Recognised.fits, Bool.and_eq_true] at fits
    refine (doc_escapesAll fileId fields start stop fits.2 hasDoc).imp_right fun escapes => ?_
    rw [Recognised.build, nested, escapes, Bool.and_false]
  | .node kind (some origin) fields =>
    obtain ⟨made, own, isOwn, -, -, -, fitsFields⟩ := fits_node fits fileId
    have bound : spanField kind ≤ (buildAll fileId fields).length := spanField_le made
    right
    rw [Recognised.build, isOwn, nested, ownSpan_insertIdx own bound, nestedAll_insertIdx own bound]
    rcases doc_escapesAll fileId fields own.start own.stop fitsFields hasDoc with
      ⟨span, member, before⟩ | escapes
    · rw [Bool.and_eq_false_iff]
      left
      rw [List.all_eq_false]
      refine ⟨span, (mem_spansAll_insertIdx bound).mpr (.inr member), ?_⟩
      have outside : ¬ own.start ≤ span.start := BitVec.not_le.mpr before
      simp [Span.contains, outside]
    · rw [escapes, Bool.and_false]

theorem doc_escapesAll (fileId : FileId) (values : List Recognised) (start stop : BitVec 32)
    (fits : fitsAll start stop values = true) (hasDoc : hasDocAll values = true) :
    (∃ span ∈ spansAll (buildAll fileId values), span.start < start) ∨
      nestedAll (buildAll fileId values) = false := by
  match values with
  | [] => cases hasDoc
  | value :: values =>
    rw [fitsAll, Bool.and_eq_true] at fits
    rw [hasDocAll, Bool.or_eq_true] at hasDoc
    simp only [buildAll, spansAll, nestedAll, List.mem_append, Bool.and_eq_false_iff]
    rcases hasDoc with here | later
    · rcases doc_escapes fileId value start stop fits.1 here with
        ⟨span, member, before⟩ | escapes
      · exact .inl ⟨span, .inl member, before⟩
      · exact .inr (.inl escapes)
    · rcases doc_escapesAll fileId values start stop fits.2 later with
        ⟨span, member, before⟩ | escapes
      · exact .inl ⟨span, .inr member, before⟩
      · exact .inr (.inr escapes)

end

section Results

variable {fileId : FileId} {length : BitVec 32}

end Results

namespace SpanSample

def name (symbol : Nat) (start stop : BitVec 32) : Recognised :=
  .node .ident (some (.extra start stop)) [.leaf (.spur symbol)]

def variableRef (symbol : Nat) (start stop : BitVec 32) : Recognised :=
  .node .exprIdent none [name symbol start stop]

/-- `a + b`, at offset 9. -/
def sum : Recognised := .node .exprBinary none [.node .binaryExpr (some .makeBinary)
      [variableRef 1 9 10, .leaf (.scalar 0), variableRef 2 13 14]]

/-- `fn f() { <body> }`, in 16 bytes. -/
def function (body : Recognised) : Recognised := .node .itemFunction none [.node .function (some (.extra 0 16))
      [.opt none, .list [], .leaf (.scalar 0), .leaf (.scalar 0), name 0 3 4, .list [], .opt none,
        .node .exprBlock none [.node .blockExpr (some (.extra 7 16)) [.list [], body]]]]

def outcome (body : Recognised) : Outcome := .ast none [function body]

end SpanSample

end Spans

end Gruel
