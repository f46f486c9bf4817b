import Gruel.LetPatternsCore

/-!
Instruction generation does not panic on a tree whose `let` patterns all match every value.
-/

namespace Gruel

namespace Ast

variable {Symbol : Type}

theorem isRefutable_of_letPanics (pattern : Tree Symbol) : letPanics pattern = true → isRefutable pattern = true := by
  refine letPanics.induct (fun pattern => letPanics pattern = true → isRefutable pattern = true)
    (fun elems => anyElemPanics elems = true → anyElemRefutable elems = true)
    (fun fields => anyFieldPanics fields = true → anyFieldRefutable fields = true)
    ?wildcard ?ident ?struct ?tuple ?other ?noElems ?elem ?rest ?noFields ?field ?restField pattern
  case wildcard =>
    intro fields panics
    cases panics
  case ident =>
    intro fields panics
    cases panics
  case struct =>
    intro name fields span ih
    exact ih
  case tuple =>
    intro elems span ih
    exact ih
  case other =>
    intro pattern _ _ _ _ _
    simp only [isRefutable]
  case noElems =>
    intro panics
    cases panics
  case elem =>
    intro pattern elems ihPattern ihElems panics
    simp only [anyElemPanics, Bool.or_eq_true] at panics
    simp only [anyElemRefutable, Bool.or_eq_true]
    exact panics.imp ihPattern ihElems
  case rest =>
    intro elem elems _ ih panics
    simp only [anyElemPanics] at panics
    simp only [anyElemRefutable]
    exact ih panics
  case noFields =>
    intro panics
    cases panics
  case field =>
    intro name _ _ span fields ihSub ihFields panics
    simp only [anyFieldPanics, Bool.or_eq_true] at panics
    simp only [anyFieldRefutable, Bool.or_eq_true]
    exact panics.imp ihSub ihFields
  case restField =>
    intro field fields _ ih panics
    simp only [anyFieldPanics] at panics
    have later := ih panics
    unfold anyFieldRefutable
    split
    · next isNil => cases isNil
    · next isCons =>
        cases isCons
        rw [later, Bool.or_true]
    · next isCons =>
        cases isCons
        exact later

theorem isRefutable_eq_false_of_destructure (pattern : Tree Symbol) :
    isIrrefutableDestructure pattern = true → isRefutable pattern = false := by
  refine isRefutable.induct (fun pattern => isIrrefutableDestructure pattern = true → isRefutable pattern = false)
    (fun elems => allElemsIrrefutable elems = true → anyElemRefutable elems = false)
    (fun fields => allFieldsIrrefutable fields = true → anyFieldRefutable fields = false)
    ?wildcard ?ident ?struct ?tuple ?other ?noElems ?elem ?rest ?noFields ?field ?restField pattern
  case wildcard =>
    intro fields _
    rfl
  case ident =>
    intro fields _
    rfl
  case struct =>
    intro name fields span ih
    exact ih
  case tuple =>
    intro elems span ih
    exact ih
  case other =>
    intro pattern _ _ _ _ irrefutable
    simp only [isIrrefutableDestructure] at irrefutable
    cases irrefutable
  case noElems =>
    intro _
    rfl
  case elem =>
    intro pattern elems ihPattern ihElems irrefutable
    simp only [allElemsIrrefutable, Bool.and_eq_true] at irrefutable
    simp only [anyElemRefutable, Bool.or_eq_false_iff]
    exact ⟨ihPattern irrefutable.1, ihElems irrefutable.2⟩
  case rest =>
    intro elem elems _ ih irrefutable
    simp only [allElemsIrrefutable] at irrefutable
    simp only [anyElemRefutable]
    exact ih irrefutable
  case noFields =>
    intro _
    rfl
  case field =>
    intro name _ _ span fields ihSub ihFields irrefutable
    simp only [allFieldsIrrefutable, Bool.and_eq_true] at irrefutable
    simp only [anyFieldRefutable, Bool.or_eq_false_iff]
    exact ⟨ihSub irrefutable.1, ihFields irrefutable.2⟩
  case restField =>
    intro field fields _ ih irrefutable
    simp only [allFieldsIrrefutable] at irrefutable
    simp only [anyFieldRefutable]
    exact ih irrefutable

@[elab_as_elim]
theorem Tree.induction {motive : Tree Symbol → Prop} (spur : ∀ symbol, motive (.spur symbol))
    (span : ∀ span, motive (.span span)) (scalar : ∀ value, motive (.scalar value))
    (text : ∀ text, motive (.text text))
    (node : ∀ kind fields, (∀ child ∈ fields, motive child) → motive (.node kind fields))
    (absent : motive (.opt none)) (present : ∀ value, motive value → motive (.opt (some value)))
    (list : ∀ values, (∀ value ∈ values, motive value) → motive (.list values)) :
    ∀ tree, motive tree
  | .spur symbol => spur symbol
  | .span value => span value
  | .scalar value => scalar value
  | .text value => text value
  | .node kind fields => node kind fields fun child _ =>
    Tree.induction spur span scalar text node absent present list child
  | .opt none => absent
  | .opt (some value) => present value (Tree.induction spur span scalar text node absent present list value)
  | .list values => list values fun value _ =>
    Tree.induction spur span scalar text node absent present list value

section Collect

variable {here : Kind → List (Tree Symbol) → List (Tree Symbol)} {follow : Follow Symbol}
  {borrowed : Bool} {pattern : Tree Symbol}

theorem collectEach_eq_map (trees : List (Tree Symbol)) :
    collectEach here follow borrowed trees = trees.map (collect here follow borrowed) := by
  induction trees with
  | nil => rfl
  | cons tree trees ih => rw [collectEach, ih, List.map_cons]

theorem mem_collect_node {kind : Kind} {fields : List (Tree Symbol)} :
    pattern ∈ collect here follow borrowed (.node kind fields) ↔ pattern ∈ here kind fields ∨
        ∃ index flag child, (index, flag) ∈ follow borrowed kind fields ∧
          fields[index]? = some child ∧ pattern ∈ collect here follow flag child := by
  simp only [collect, collectEach_eq_map, List.mem_append, List.mem_flatMap, List.getElem?_map, Prod.exists]
  refine or_congr_right ⟨?_, ?_⟩
  · rintro ⟨index, flag, followed, member⟩
    cases found : fields[index]? with
    | none => simp [found] at member
    | some child => exact ⟨index, flag, child, followed, found, by simpa [found] using member⟩
  · rintro ⟨index, flag, child, followed, found, member⟩
    exact ⟨index, flag, followed, by simpa [found] using member⟩

theorem mem_collect_list {values : List (Tree Symbol)} : pattern ∈ collect here follow borrowed (.list values) ↔
      ∃ value ∈ values, pattern ∈ collect here follow borrowed value := by
  simp [collect, collectEach_eq_map]

end Collect

variable {kind : Kind} {fields : List (Tree Symbol)} {index : Nat}

theorem mem_everywhere {borrowed flag : Bool} :
    (index, flag) ∈ everywhere borrowed kind fields ↔ index < fields.length ∧ flag = false := by
  simp [everywhere, eq_comm]

theorem mem_letPatterns_node {pattern child : Tree Symbol} (found : fields[index]? = some child)
    (inside : pattern ∈ letPatterns child) : pattern ∈ letPatterns (.node kind fields) := by
  refine mem_collect_node.2 (.inr ⟨index, false, child, ?_, found, inside⟩)
  exact mem_everywhere.2 ⟨(List.getElem?_eq_some_iff.mp found).1, rfl⟩

theorem mem_letPatterns_of_collect {here : Kind → List (Tree Symbol) → List (Tree Symbol)}
    {spared : Tree Symbol → Prop} {follow : Follow Symbol} (chosen : ∀ kind fields pattern,
      pattern ∈ here kind fields → pattern ∈ letPattern kind fields ∨ spared pattern)
    (tree : Tree Symbol) : ∀ {borrowed : Bool} {pattern : Tree Symbol},
      pattern ∈ collect here follow borrowed tree → pattern ∈ letPatterns tree ∨ spared pattern := by
  induction tree using Tree.induction with
  | spur symbol | span span | scalar value | text text | absent =>
    intro borrowed pattern member
    cases member
  | present value ih =>
    intro borrowed pattern member
    exact ih member
  | list values ih =>
    intro borrowed pattern member
    obtain ⟨value, isValue, inside⟩ := mem_collect_list.1 member
    refine (ih value isValue inside).imp_left fun below => ?_
    exact mem_collect_list.2 ⟨value, isValue, below⟩
  | node kind fields ih =>
    intro borrowed pattern member
    obtain here | ⟨_, _, child, _, found, inside⟩ := mem_collect_node.1 member
    · exact (chosen _ _ _ here).imp_left fun isLet => mem_collect_node.2 (.inl isLet)
    · exact (ih child (List.mem_of_getElem? found) inside).imp_left (mem_letPatterns_node found)

mutual

/-- The patterns of the `let` statements below a field the validator does not go into. -/
def skippedLets : Tree Symbol → List (Tree Symbol)
  | .node kind fields => skippedFields (validated kind) 0 fields
  | .opt (some value) => skippedLets value
  | .list values => skippedAll values
  | .spur _ | .span _ | .scalar _ | .text _ | .opt none => []

def skippedFields (visited : List Nat) : Nat → List (Tree Symbol) → List (Tree Symbol)
  | _, [] => []
  | index, field :: fields =>
    (if index ∈ visited then skippedLets field else letPatterns field) ++ skippedFields visited (index + 1) fields

def skippedAll : List (Tree Symbol) → List (Tree Symbol)
  | [] => []
  | value :: values => skippedLets value ++ skippedAll values

end

variable {fields : List (Tree Symbol)} {tree : Tree Symbol}
variable {pattern : Tree Symbol}

theorem mem_skippedAll {values : List (Tree Symbol)} :
    pattern ∈ skippedAll values ↔ ∃ value ∈ values, pattern ∈ skippedLets value := by
  induction values with
  | nil => simp [skippedAll]
  | cons value values ih => simp [skippedAll, ih]

theorem mem_skippedFields {visited : List Nat} : ∀ {start : Nat}, pattern ∈ skippedFields visited start fields ↔
      ∃ index child, fields[index]? = some child ∧ (start + index ∈ visited ∧ pattern ∈ skippedLets child ∨
          start + index ∉ visited ∧ pattern ∈ letPatterns child) := by
  induction fields with
  | nil =>
    simp [skippedFields]
  | cons field fields ih =>
    intro start
    rw [skippedFields, List.mem_append, ih]
    constructor
    · rintro (first | ⟨index, child, found, inside⟩)
      · refine ⟨0, field, rfl, ?_⟩
        split at first
        · next visits => exact .inl ⟨visits, first⟩
        · next skips => exact .inr ⟨skips, first⟩
      · refine ⟨index + 1, child, by simpa using found, ?_⟩
        rwa [← Nat.add_assoc, Nat.add_right_comm]
    · rintro ⟨index, child, found, inside⟩
      cases index with
      | zero =>
        left
        cases found
        rw [Nat.add_zero] at inside
        obtain ⟨visits, first⟩ | ⟨skips, first⟩ := inside
        · rwa [if_pos visits]
        · rwa [if_neg skips]
      | succ index =>
        right
        refine ⟨index, child, by simpa using found, ?_⟩
        rwa [Nat.add_right_comm, Nat.add_assoc]

theorem mem_letPatterns_iff (tree : Tree Symbol) : ∀ {pattern : Tree Symbol}, pattern ∈ letPatterns tree ↔
      pattern ∈ collect letPattern validatedFields false tree ∨ pattern ∈ skippedLets tree := by
  induction tree using Tree.induction with
  | spur symbol | span span | scalar value | text text | absent => simp [letPatterns, collect, skippedLets]
  | present value ih =>
    exact ih
  | list values ih =>
    intro pattern
    rw [letPatterns, mem_collect_list, mem_collect_list, skippedLets, mem_skippedAll]
    constructor
    · rintro ⟨value, isValue, inside⟩
      exact ((ih value isValue).mp inside).imp (⟨value, isValue, ·⟩) (⟨value, isValue, ·⟩)
    · rintro (⟨value, isValue, inside⟩ | ⟨value, isValue, inside⟩)
      · exact ⟨value, isValue, (ih value isValue).mpr (.inl inside)⟩
      · exact ⟨value, isValue, (ih value isValue).mpr (.inr inside)⟩
  | node kind fields ih =>
    intro pattern
    constructor
    · intro member
      obtain here | ⟨index, _, child, followed, found, inside⟩ := mem_collect_node.1 member
      · exact .inl (mem_collect_node.2 (.inl here))
      · obtain ⟨_, rfl⟩ := mem_everywhere.1 followed
        by_cases visits : index ∈ validated kind
        · obtain validates | skips := (ih child (List.mem_of_getElem? found)).mp inside
          · refine .inl (mem_collect_node.2 (.inr ⟨index, false, child, ?_, found, validates⟩))
            exact List.mem_map_of_mem visits
          · refine .inr (mem_skippedFields.2 ⟨index, child, found, ?_⟩)
            rw [Nat.zero_add]
            exact .inl ⟨visits, skips⟩
        · refine .inr (mem_skippedFields.2 ⟨index, child, found, ?_⟩)
          rw [Nat.zero_add]
          exact .inr ⟨visits, inside⟩
    · rintro (validates | skips)
      · have chosen : ∀ kind fields (pattern : Tree Symbol), pattern ∈ letPattern kind fields →
            pattern ∈ letPattern kind fields ∨ False := fun _ _ _ => .inl
        exact (mem_letPatterns_of_collect chosen _ validates).resolve_right id
      · obtain ⟨index, child, found, inside⟩ := mem_skippedFields.1 skips
        have isChild := List.mem_of_getElem? found
        obtain ⟨_, skipped⟩ | ⟨_, below⟩ := inside
        · exact mem_letPatterns_node found ((ih child isChild).mpr (.inr skipped))
        · exact mem_letPatterns_node found below

theorem mem_loweredAsLet {kind : Kind} (lowered : pattern ∈ loweredAsLet kind fields) :
    pattern ∈ letPattern kind fields ∨ isRefutable pattern = false := by
  unfold loweredAsLet at lowered
  split at lowered
  · exact .inl lowered
  · split at lowered
    · next irrefutable =>
        obtain rfl := List.mem_singleton.mp lowered
        rw [Bool.and_eq_true] at irrefutable
        exact .inr (isRefutable_eq_false_of_destructure _ irrefutable.2)
    · cases lowered
  · cases lowered

theorem generatePanics_eq_false (irrefutable : ∀ pattern ∈ letPatterns tree, isRefutable pattern = false) :
    generatePanics tree = false := by
  refine List.any_eq_false.mpr fun pattern member panics => ?_
  have refutable := isRefutable_of_letPanics pattern panics
  obtain isLet | always := mem_letPatterns_of_collect (fun _ _ _ => mem_loweredAsLet) tree member
  · rw [irrefutable pattern isLet] at refutable
    cases refutable
  · rw [always] at refutable
    cases refutable

theorem isRefutable_eq_false_of_walkAst (accepted : walkAst tree = [])
    (visited : pattern ∈ collect letPattern validatedFields false tree) :
    isRefutable pattern = false := by
  have noErrors := List.map_eq_nil_iff.mp accepted
  simpa using List.filter_eq_nil_iff.mp noErrors pattern visited

end Ast

/-- Of the trees the parser accepts, those without a refutable `let` below a field its validator
skips are the ones that keep the promise of instruction generation. -/
theorem accepted_lets_irrefutable_iff {Symbol : Type} {tree : Ast.Tree Symbol} (accepted : Ast.walkAst tree = []) :
    ((∀ pattern ∈ Ast.letPatterns tree, Ast.isRefutable pattern = false) ∧ Ast.generatePanics tree = false) ↔
      ∀ pattern ∈ Ast.skippedLets tree, Ast.isRefutable pattern = false := by
  constructor
  · rintro ⟨irrefutable, _⟩ pattern skipped
    exact irrefutable pattern ((Ast.mem_letPatterns_iff tree).mpr (.inr skipped))
  · intro skippedIrrefutable
    have irrefutable : ∀ pattern ∈ Ast.letPatterns tree, Ast.isRefutable pattern = false := by
      intro pattern member
      obtain visited | skipped := (Ast.mem_letPatterns_iff tree).mp member
      · exact Ast.isRefutable_eq_false_of_walkAst accepted visited
      · exact skippedIrrefutable pattern skipped
    exact ⟨irrefutable, Ast.generatePanics_eq_false irrefutable⟩

namespace LetSample

open Ast

def at0 : Ast.Tree Nat := .span (Span.new 0 0)

def name (symbol : Nat) : Ast.Tree Nat := .node .ident [.spur symbol, at0]

def two : Ast.Tree Nat := .node .exprInt [.node .intLit [.scalar 2, at0]]

def unit : Ast.Tree Nat := .node .exprUnit [.node .unitLit [at0]]

def letBlock (pattern : Ast.Tree Nat) : Ast.Tree Nat := .node .exprBlock [.node .blockExpr
    [.list [.node .statementLet [.node .letStatement
        [.list [], .scalar 0, pattern, .opt none, two, at0]]], unit, at0]]

/-- `fn main() { checked { let <pattern> = 2; } }` -/
def checkedLet (pattern : Ast.Tree Nat) : Ast.Tree Nat :=
  .node .ast [.opt none, .list [.node .itemFunction [.node .function
    [.opt none, .list [], .scalar 0, .scalar 0, name 0, .list [], .opt none, .node .exprBlock [.node .blockExpr
        [.list [], .node .exprChecked [.node .checkedBlockExpr [letBlock pattern, at0]], at0]],
      at0]]]]

def one : Ast.Tree Nat := .node .patternInt [.node .intLit [.scalar 1, at0]]

def x : Ast.Tree Nat := .node .patternIdent [.scalar 0, name 1, at0]

theorem named_let_generates : walkAst (checkedLet x) = [] ∧
      (∀ pattern ∈ letPatterns (checkedLet x), isRefutable pattern = false) ∧
        generatePanics (checkedLet x) = false := by
  have accepted : walkAst (checkedLet x) = [] := by rfl
  refine ⟨accepted, (accepted_lets_irrefutable_iff accepted).mpr ?_⟩
  intro pattern member
  obtain rfl := List.mem_singleton.mp member
  rfl

/-- The parser accepts the refutable `let` in a `checked` block, and generation panics on it. -/
theorem refutable_let_accepted : (checkedLet one).conforms (.node .ast) = true ∧ walkAst (checkedLet one) = [] ∧
      one ∈ letPatterns (checkedLet one) ∧ isRefutable one = true ∧
      generatePanics (checkedLet one) = true := by
  refine ⟨by decide, by rfl, ?_, by rfl, by decide⟩
  exact List.mem_singleton.mpr rfl

end LetSample

end Gruel
