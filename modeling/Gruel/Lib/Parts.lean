import Mathlib.Data.List.Basic

/-!
Nodes with parts: properties that hold of a node, of its parts, of their parts,
and so on.
-/

namespace Parts

variable {Node : Type*}

inductive Everywhere (parts : Node → List Node) (holds : Node → Prop) : Node → Prop
  | intro {node : Node} (_ : holds node)
      (below : ∀ part ∈ parts node, Everywhere parts holds part) : Everywhere parts holds node

variable {parts fewer : Node → List Node} {holds other : Node → Prop} {node : Node}

theorem everywhere_iff : Everywhere parts holds node ↔
    holds node ∧ ∀ part ∈ parts node, Everywhere parts holds part := by
  constructor
  · rintro ⟨here, below⟩
    exact ⟨here, below⟩
  · rintro ⟨here, below⟩
    exact .intro here below

theorem Everywhere.imp (everywhere : Everywhere parts holds node)
    (weaken : ∀ node, holds node → other node) : Everywhere parts other node := by
  induction everywhere with
  | intro here _ ih => exact .intro (weaken _ here) ih

theorem everywhere_congr (same : ∀ node, holds node ↔ other node) :
    Everywhere parts holds node ↔ Everywhere parts other node :=
  ⟨fun everywhere => everywhere.imp fun node => (same node).mp,
    fun everywhere => everywhere.imp fun node => (same node).mpr⟩

theorem Everywhere.decides {property : Node → Prop} (formed : Everywhere parts holds node)
    (among : ∀ node, ∀ part ∈ fewer node, part ∈ parts node)
    (unfolds : ∀ node, holds node → (property node ↔ other node ∧ ∀ part ∈ fewer node, property part)) :
    property node ↔ Everywhere fewer other node := by
  induction formed with
  | @intro node here _ ih =>
    rw [unfolds node here, everywhere_iff]
    refine and_congr_right fun _ => forall₂_congr ?_
    intro part member
    exact ih part (among node part member)

end Parts
