import Gruel.AstCore

/-!
The walk visits every symbol: a field it skips holds none, so on a tree of the right shape
it renumbers all of them.
-/

namespace Gruel

namespace Ast

/-- Nodes without symbols anywhere in them. -/
def Kind.plain : Kind → Bool
  | .doc | .intLit | .floatLit | .charLit | .boolLit | .unitLit | .negIntLit | .selfExpr
  | .breakExpr | .continueExpr => true
  | _ => false

def Shape.plain : Shape → Bool
  | .spur => false
  | .span | .scalar | .text => true
  | .node kind => kind.plain
  | .oneOf kinds => kinds.all Kind.plain
  | .opt shape | .list shape => shape.plain

theorem skipped_plain (kind : Kind) : ∀ field ∈ kind.fields, field.visited = false → field.shape.plain = true := by
  cases kind <;> decide

theorem plain_fields (kind : Kind) : kind.plain = true → ∀ field ∈ kind.fields, field.shape.plain = true := by
  cases kind <;> decide

variable {Symbol Other Third : Type}

mutual

theorem spurs_of_plain (tree : Tree Symbol) (shape : Shape)
    (conforms : tree.conforms shape = true) (plain : shape.plain = true) : tree.spurs = [] := by
  match tree with
  | .spur _ => cases shape <;> simp [Tree.conforms, Shape.plain] at conforms plain
  | .span _ => rfl
  | .scalar _ => rfl
  | .text _ => rfl
  | .opt none => rfl
  | .opt (some value) =>
    cases shape with
    | opt shape => exact spurs_of_plain value shape conforms plain
    | _ => cases conforms
  | .list values =>
    cases shape with
    | list shape => exact spursAll_of_plain values shape conforms plain
    | _ => cases conforms
  | .node kind fields =>
    cases shape with
    | node expected =>
      simp only [Tree.conforms, Bool.and_eq_true, decide_eq_true_eq] at conforms
      obtain ⟨rfl, conforms⟩ := conforms
      exact spursFields_of_plain fields kind.fields conforms (plain_fields kind plain)
    | oneOf kinds =>
      simp only [Tree.conforms, Bool.and_eq_true, List.contains_iff_mem] at conforms
      simp only [Shape.plain, List.all_eq_true] at plain
      exact spursFields_of_plain fields kind.fields conforms.2 (plain_fields kind (plain kind conforms.1))
    | _ => cases conforms

theorem spursFields_of_plain (trees : List (Tree Symbol)) (fields : List Field)
    (conforms : conformsFields fields trees = true)
    (plain : ∀ field ∈ fields, field.shape.plain = true) : spursAll trees = [] := by
  match trees, fields with
  | [], _ => rfl
  | tree :: trees, field :: fields =>
    simp only [conformsFields, Bool.and_eq_true] at conforms
    rw [spursAll, spurs_of_plain tree field.shape conforms.1 (plain field (.head _)),
      spursFields_of_plain trees fields conforms.2 fun other member => plain other (.tail _ member)]
    rfl
  | _ :: _, [] => cases conforms

theorem spursAll_of_plain (trees : List (Tree Symbol)) (shape : Shape)
    (conforms : conformsAll shape trees = true) (plain : shape.plain = true) :
    spursAll trees = [] := by
  match trees with
  | [] => rfl
  | tree :: trees =>
    simp only [conformsAll, Bool.and_eq_true] at conforms
    rw [spursAll, spurs_of_plain tree shape conforms.1 plain, spursAll_of_plain trees shape conforms.2 plain]
    rfl

end

mutual

theorem Tree.map_congr {f g : Symbol → Other} (tree : Tree Symbol)
    (same : ∀ symbol ∈ tree.spurs, f symbol = g symbol) : tree.map f = tree.map g := by
  match tree with
  | .spur symbol => exact congrArg Tree.spur (same symbol (.head _))
  | .span _ => rfl
  | .scalar _ => rfl
  | .text _ => rfl
  | .opt none => rfl
  | .opt (some value) =>
    simp only [Tree.map]
    rw [Tree.map_congr value same]
  | .list values =>
    simp only [Tree.map]
    rw [mapAll_congr values same]
  | .node kind fields =>
    simp only [Tree.map]
    rw [mapAll_congr fields same]

theorem mapAll_congr {f g : Symbol → Other} (trees : List (Tree Symbol))
    (same : ∀ symbol ∈ spursAll trees, f symbol = g symbol) :
    mapAll f trees = mapAll g trees := by
  match trees with
  | [] => rfl
  | tree :: trees =>
    simp only [mapAll]
    rw [Tree.map_congr tree fun symbol member => same symbol (List.mem_append_left _ member),
      mapAll_congr trees fun symbol member => same symbol (List.mem_append_right _ member)]

end

mutual

theorem Tree.map_map (f : Symbol → Other) (g : Other → Third) (tree : Tree Symbol) :
    (tree.map f).map g = tree.map (g ∘ f) := by
  match tree with
  | .spur _ => rfl
  | .span _ => rfl
  | .scalar _ => rfl
  | .text _ => rfl
  | .opt none => rfl
  | .opt (some value) =>
    simp only [Tree.map]
    rw [Tree.map_map f g value]
  | .list values =>
    simp only [Tree.map]
    rw [mapAll_mapAll f g values]
  | .node kind fields =>
    simp only [Tree.map]
    rw [mapAll_mapAll f g fields]

theorem mapAll_mapAll (f : Symbol → Other) (g : Other → Third) (trees : List (Tree Symbol)) :
    mapAll g (mapAll f trees) = mapAll (g ∘ f) trees := by
  match trees with
  | [] => rfl
  | tree :: trees =>
    simp only [mapAll]
    rw [Tree.map_map f g tree, mapAll_mapAll f g trees]

end

mutual

theorem Tree.map_of_spurs_nil (f : Symbol → Symbol) (tree : Tree Symbol)
    (none : tree.spurs = []) : tree.map f = tree := by
  match tree with
  | .spur _ => cases none
  | .span _ => rfl
  | .scalar _ => rfl
  | .text _ => rfl
  | .opt Option.none => rfl
  | .opt (some value) =>
    simp only [Tree.map]
    rw [Tree.map_of_spurs_nil f value none]
  | .list values =>
    simp only [Tree.map]
    rw [mapAll_of_spurs_nil f values none]
  | .node kind fields =>
    simp only [Tree.map]
    rw [mapAll_of_spurs_nil f fields none]

theorem mapAll_of_spurs_nil (f : Symbol → Symbol) (trees : List (Tree Symbol))
    (none : spursAll trees = []) : mapAll f trees = trees := by
  match trees with
  | [] => rfl
  | tree :: trees =>
    simp only [spursAll, List.append_eq_nil_iff] at none
    simp only [mapAll]
    rw [Tree.map_of_spurs_nil f tree none.1, mapAll_of_spurs_nil f trees none.2]

end

section Remap

variable {table : List Nat} {rename : Nat → Nat}

mutual

theorem remapSpurs_eq_map (tree : Tree Nat) (shape : Shape) (conforms : tree.conforms shape = true)
    (entries : ∀ symbol ∈ tree.spurs, table[symbol]? = some (rename symbol)) :
    remapSpurs table tree = some (tree.map rename) := by
  match tree with
  | .spur symbol =>
    simp only [remapSpurs, entries symbol List.mem_cons_self]
    rfl
  | .span _ => rfl
  | .scalar _ => rfl
  | .text _ => rfl
  | .opt none => rfl
  | .opt (some value) =>
    cases shape with
    | opt shape =>
      simp only [remapSpurs, remapSpurs_eq_map value shape conforms entries]
      rfl
    | _ => cases conforms
  | .list values =>
    cases shape with
    | list shape =>
      simp only [remapSpurs, remapAll_eq_map values shape conforms entries]
      rfl
    | _ => cases conforms
  | .node kind fields =>
    have fieldsConform : conformsFields kind.fields fields = true := by
      cases shape with
      | node expected | oneOf kinds =>
        simp only [Tree.conforms, Bool.and_eq_true] at conforms
        exact conforms.2
      | _ => cases conforms
    simp only [remapSpurs, remapFields_eq_map fields kind.fields fieldsConform (skipped_plain kind) entries]
    rfl

theorem remapFields_eq_map (trees : List (Tree Nat)) (fields : List Field)
    (conforms : conformsFields fields trees = true)
    (skipped : ∀ field ∈ fields, field.visited = false → field.shape.plain = true)
    (entries : ∀ symbol ∈ spursAll trees, table[symbol]? = some (rename symbol)) :
    remapFields table fields trees = some (mapAll rename trees) := by
  match trees, fields with
  | [], [] => rfl
  | [], _ :: _ => rfl
  | _ :: _, [] => cases conforms
  | tree :: trees, field :: fields =>
    simp only [conformsFields, Bool.and_eq_true] at conforms
    have head : (if field.visited then remapSpurs table tree else some tree) = some (tree.map rename) := by
      cases visited : field.visited with
      | true =>
        exact remapSpurs_eq_map tree field.shape conforms.1
          fun symbol member => entries symbol (List.mem_append_left _ member)
      | false =>
        have plain := skipped field (.head _) visited
        rw [Tree.map_of_spurs_nil rename tree (spurs_of_plain tree field.shape conforms.1 plain)]
        rfl
    have tail := remapFields_eq_map trees fields conforms.2 (fun other member => skipped other (.tail _ member))
      fun symbol member => entries symbol (List.mem_append_right _ member)
    simp only [remapFields, head, tail]
    rfl

theorem remapAll_eq_map (trees : List (Tree Nat)) (shape : Shape) (conforms : conformsAll shape trees = true)
    (entries : ∀ symbol ∈ spursAll trees, table[symbol]? = some (rename symbol)) :
    remapAll table trees = some (mapAll rename trees) := by
  match trees with
  | [] => rfl
  | tree :: trees =>
    simp only [conformsAll, Bool.and_eq_true] at conforms
    have head := remapSpurs_eq_map tree shape conforms.1
      fun symbol member => entries symbol (List.mem_append_left _ member)
    have tail := remapAll_eq_map trees shape conforms.2
      fun symbol member => entries symbol (List.mem_append_right _ member)
    simp only [remapAll, head, tail]
    rfl

end

end Remap

end Ast

end Gruel
