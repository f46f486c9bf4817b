import Gruel.ClassifyCore

/-!
The pass over the declarations settles on the structural classification exactly when that does
not depend on what is still a placeholder when it is read.
-/

namespace Gruel

namespace Classify

open OnePass (patch assign)

attribute [local simp] DeclPool.members structMembers

variable {pool : DeclPool} {classes : Classes}
variable {fuel more : Nat} {ty : Ty} {decl : TypeDecl}
variable {members : List Member} {inferred : Class}

theorem anyM_mono {α : Type} {first second : α → Option Bool} {items : List α} {result : Bool}
    (extends_ : ∀ item found, first item = some found → second item = some found)
    (found : items.anyM first = some result) : items.anyM second = some result := by
  induction items with
  | nil => exact found
  | cons item rest ih =>
    simp only [List.anyM_cons, Option.bind_eq_bind, Option.bind_eq_some_iff] at found ⊢
    obtain ⟨head, isHead, tail⟩ := found
    refine ⟨head, extends_ item head isHead, ?_⟩
    cases head with
    | true => exact tail
    | false => exact ih tail

theorem isTypeLinear_mono (le : fuel ≤ more) {linear : Bool}
    (found : isTypeLinear pool classes fuel ty = some linear) :
    isTypeLinear pool classes more ty = some linear := by
  induction fuel generalizing more ty linear with
  | zero => cases found
  | succ fuel ih =>
    obtain ⟨more, rfl⟩ : ∃ rest, more = rest + 1 := ⟨more - 1, by omega⟩
    have below : fuel ≤ more := by omega
    cases ty
    case array id =>
      simp only [isTypeLinear] at found ⊢
      split at found
      · next positive =>
          rw [if_pos positive]
          exact ih below found
      · next empty =>
          rw [if_neg empty]
          exact found
    case vec id => exact ih below found
    case enum id =>
      simp only [isTypeLinear] at found ⊢
      split at found
      · next linear =>
          rw [if_pos linear]
          exact found
      · next unset =>
          rw [if_neg unset]
          exact anyM_mono (fun _ _ => ih below) found
    all_goals exact found

theorem isTypeCopy_mono (le : fuel ≤ more) {copy : Bool} (found : isTypeCopy pool classes fuel ty = some copy) :
    isTypeCopy pool classes more ty = some copy := by
  induction bound : pool.depth ty using Nat.strongRecOn generalizing ty copy with
  | ind depth ih =>
    cases ty
    case array id =>
      rw [isTypeCopy] at found ⊢
      split at found
      · next empty =>
          rw [if_pos empty]
          exact found
      · next filled =>
          rw [if_neg filled]
          have shrinks := pool.depth_lt (.array id) _ (List.mem_singleton.mpr rfl)
          exact ih _ (bound ▸ shrinks) found rfl
    case enum id =>
      rw [isTypeCopy] at found ⊢
      cases posture : (classes (.enum id)).posture with
      | affine =>
        simp only [posture, Option.map_eq_some_iff] at found ⊢
        obtain ⟨linear, walked, negated⟩ := found
        exact ⟨linear, anyM_mono (fun _ _ => isTypeLinear_mono le) walked, negated⟩
      | copy => simpa [posture] using found
      | linear => simpa [posture] using found
    all_goals simpa [isTypeCopy] using found

theorem classifyPosture_mono (le : fuel ≤ more) {posture : Posture}
    (found : classifyPosture pool classes fuel ty = some posture) :
    classifyPosture pool classes more ty = some posture := by
  simp only [classifyPosture, Option.bind_eq_bind, Option.bind_eq_some_iff] at found ⊢
  obtain ⟨linear, walked, rest⟩ := found
  refine ⟨linear, isTypeLinear_mono le walked, ?_⟩
  cases linear with
  | true => exact rest
  | false =>
    simp only [Bool.false_eq_true, if_false, Option.bind_eq_some_iff] at rest ⊢
    obtain ⟨copy, isCopy, tail⟩ := rest
    exact ⟨copy, isTypeCopy_mono le isCopy, tail⟩

theorem classifyPosture_unique {first second : Posture} (one : classifyPosture pool classes fuel ty = some first)
    (other : classifyPosture pool classes more ty = some second) : first = second := by
  have below := classifyPosture_mono (Nat.le_max_left fuel more) one
  rw [classifyPosture_mono (Nat.le_max_right fuel more) other] at below
  exact (Option.some.inj below).symm

def Reads (pool : DeclPool) (classes : Classes) (fuel : Nat) (members : List Member)
    (postures : List Posture) : Prop :=
  List.Forall₂ (fun member posture => classifyPosture pool classes fuel member.ty = some posture) members postures

theorem Reads.unique {first second : List Posture} (one : Reads pool classes fuel members first)
    (other : Reads pool classes more members second) : first = second := by
  induction one generalizing second with
  | nil =>
    cases other
    rfl
  | cons read _ ih =>
    cases other with
    | cons again rest => rw [classifyPosture_unique read again, ih rest]

def settle (pool : DeclPool) (fuel : Nat) (decl : TypeDecl) (known : Classes) : Option Class :=
  (inferClass pool fuel decl known).bind Except.toOption

variable {decls : List TypeDecl} {start final : Classes}

namespace ClassifySample

def structs : StructId → StructDef
  | 0 => { name := "Outer", fields := [⟨"inner", .struct 1⟩] }
  | 1 => { name := "Inner", fields := [⟨"handle", .struct 2⟩, ⟨"ptr", .ptrMut 0⟩] }
  | 2 => { name := "Handle", fields := [⟨"fd", .i32⟩], posture := .linear }
  | _ => { name := "Holder", fields := [⟨"items", .enum 0⟩] }

/-- `Outer` holds `Inner`, which holds a linear handle and a raw pointer; `Holder` holds an enum
with a vector. -/
def sample : DeclPool where
  structDef := structs
  enumDef _ := { name := "Items", variants := [⟨"Many", [.vec 0], []⟩] }
  arrayDef _ := (.unit, 0)
  pointee _ := .i32
  depth
    | .array _ | .vec _ | .slice _ | .mutSlice _ | .ref _ | .mutRef _ => 1
    | _ => 0
  depth_lt ty part member := by
    cases ty <;> simp only [elements, List.mem_singleton, List.not_mem_nil] at member <;>
      rw [member] <;> exact Nat.zero_lt_one

def placeholders : Classes
  | .struct id => { posture := (structs id).posture, threadSafety := .sync }
  | .enum _ => { posture := .affine, threadSafety := .sync }

def ordered : Classes := assign (assign (assign placeholders (.struct 2) ⟨.linear, .sync⟩)
    (.struct 1) ⟨.linear, .unsend⟩) (.struct 0) ⟨.linear, .unsend⟩

end ClassifySample

end Classify

end Gruel
