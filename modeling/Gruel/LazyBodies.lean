import Gruel.LazyBodiesCore

/-!
What the lazy analysis emits, in whatever order it takes the items of its
worklists, and when every reference of an emitted body names one emitted body.
-/

namespace Gruel.LazyBodies

open Worklists

namespace Program

variable (p : Program)

def EarlyItem : Item → Prop :=
  Reaches (· ∈ p.roots) (fun item other => other ∈ p.follow item) fun _ => False

def EarlyBody (body : Body) : Prop := ∃ item, p.EarlyItem item ∧ p.queueBody item = some body

def EarlyOwner (owner : Nat) : Prop :=
  owner ∈ p.registered ∨ ∃ body, p.EarlyBody body ∧ owner ∈ body.registers

def LateStruct : MethodKey → Prop :=
  Reaches (fun key => ∃ owner, p.EarlyOwner owner ∧ key ∈ p.structMethods owner)
    (fun key other => other ∈ p.nextStructs key) fun key => p.EarlyItem (.method key)

def LateEnum : MethodKey → Prop :=
  Reaches (fun key => ∃ owner, (p.EarlyOwner owner ∨ ∃ first, p.LateStruct first ∧
      owner ∈ p.registersOf first) ∧ key ∈ p.enumMethods owner)
    (fun key other => other ∈ p.nextEnums key) fun _ => False

def Witnessed (key : MethodKey) : Prop := ¬ p.EarlyItem (.method key) ∧ ∃ body, (p.EarlyBody body ∨
    (∃ first, p.LateStruct first ∧ p.methodBody first = some body) ∨
      ∃ first, p.LateEnum first ∧ p.methodBody first = some body) ∧ key ∈ body.witnesses

def DroppedBody (body : Body) : Prop :=
  (∃ key, (p.LateStruct key ∨ p.LateEnum key) ∧ p.methodBody key = some body) ∨
    ∃ key, p.Witnessed key ∧ p.vtableBody key = some body

def FixedBody (body : Body) : Prop := body ∈ p.derived.map Prod.snd ∨ body ∈ p.drops.map Prod.snd

def LaterNode : Node → Prop := Reaches (fun node => ∃ body,
      (p.FixedBody body ∧ ∃ item ∈ body.recorded, node = .item item) ∨
        ((p.EarlyBody body ∨ p.DroppedBody body ∨ p.FixedBody body) ∧
          ∃ key ∈ body.specializations, node = .specialization key))
    (fun node other => other ∈ p.followNode node)
    fun node => ∃ item, node = .item item ∧ (p.EarlyItem item ∨ ∃ key, item = .method key ∧ p.Witnessed key)

def QueuedBody (body : Body) : Prop :=
  p.EarlyBody body ∨ p.FixedBody body ∨ ∃ node, p.LaterNode node ∧ p.laterBody node = some body

def Checks : Reference → Prop
  | .function name => (p.queueBody (.function name)).isSome
  | .method key | .vecIndex key | .vecStatic key =>
    ∃ info, p.methods key = some info ∧ info.isGeneric = false
  | .vtable witness => ∀ key ∈ witness, ∃ info, p.methods key = some info ∧ info.isGeneric = false
  | .destructor owner => owner ∈ p.drops.map Prod.fst
  | .generic _ | .runtime _ => True

inductive HasBody : Body → Prop
  | queued {item : Item} {body : Body} : p.queueBody item = some body → HasBody body
  | method {key : MethodKey} {body : Body} : p.methodBody key = some body → HasBody body
  | derived {body : Body} : body ∈ p.derived.map Prod.snd → HasBody body
  | dropped {body : Body} : body ∈ p.drops.map Prod.snd → HasBody body
  | specialized (key : SpecializationKey) : HasBody (p.specialized key)

/-- Every reference in a body passed the checks of its call. -/
def Accepted : Prop := ∀ body, p.HasBody body → ∀ reference ∈ body.references, p.Checks reference

end Program

namespace Program

variable {p : Program} {key : MethodKey}

theorem owner_of_mem_structMethods {owner : Nat} (member : key ∈ p.structMethods owner) :
    p.owners key.owner = .anonStruct ∧ (p.queueBody (.method key)).isSome := by
  unfold structMethods at member
  split at member
  · rename_i anonymous
    simp only [methodKeys, List.mem_filter, List.mem_map, Bool.and_eq_true, Bool.not_eq_true'] at member
    obtain ⟨⟨name, listed, rfl⟩, plain, -⟩ := member
    obtain ⟨info, has⟩ := Option.isSome_iff_exists.mp ((p.mem_methodNames owner name).mp listed)
    have plain' : info.isGeneric = false := by simpa [isGeneric, has] using plain
    exact ⟨anonymous, by simp [queueBody, has, plain', anonymous]⟩
  · cases member

theorem owner_of_mem_enumMethods {owner : Nat} (member : key ∈ p.enumMethods owner) :
    p.owners key.owner = .anonEnum ∧ (p.methodBody key).isSome := by
  unfold enumMethods at member
  split at member
  · rename_i anonymous
    obtain ⟨name, listed, rfl⟩ := List.mem_map.mp member
    refine ⟨anonymous, ?_⟩
    rw [methodBody, Option.isSome_map]
    exact (p.mem_methodNames owner name).mp listed
  · cases member

theorem LateStruct.owner (late : p.LateStruct key) :
    p.owners key.owner = .anonStruct ∧ (p.queueBody (.method key)).isSome := by
  cases late with
  | seed member _ =>
    obtain ⟨_, -, member⟩ := member
    exact owner_of_mem_structMethods member
  | next _ follows _ =>
    obtain ⟨_, -, member⟩ := List.mem_flatMap.mp follows
    exact owner_of_mem_structMethods member

theorem LateEnum.owner (late : p.LateEnum key) : p.owners key.owner = .anonEnum ∧ (p.methodBody key).isSome := by
  cases late with
  | seed member _ =>
    obtain ⟨_, -, member⟩ := member
    exact owner_of_mem_enumMethods member
  | next _ follows _ =>
    obtain ⟨_, -, member⟩ := List.mem_flatMap.mp follows
    exact owner_of_mem_enumMethods member

end Program

section Emitting

variable {α : Type} {symbol : α → Symbol} {body : α → Option Body} {items : List α}

end Emitting

namespace Run

variable {p : Program} (run : Run p)

attribute [local simp] methodSymbol

end Run

namespace Program

variable {p : Program} {body : Body}
variable {item : Item}

theorem EarlyBody.recorded (early : p.EarlyBody body) (member : item ∈ body.recorded) : p.EarlyItem item := by
  obtain ⟨_, reached, has⟩ := early
  exact .next reached (by simpa [follow, has] using member) not_false

theorem recorded_or_avoided {node : Node} (later : p.LaterNode node)
    (has : p.laterBody node = some body) (member : item ∈ body.recorded) :
    p.EarlyItem item ∨ (∃ key, item = .method key ∧ p.Witnessed key) ∨ p.LaterNode (.item item) := by
  by_cases avoided : p.EarlyItem item ∨ ∃ key, item = .method key ∧ p.Witnessed key
  · exact avoided.elim .inl fun witnessed => .inr (.inl witnessed)
  · refine .inr (.inr (.next later ?_ ?_))
    · simp [followNode, has, nodesOf, member]
    · rintro ⟨_, same, covered⟩
      cases same
      exact avoided covered

theorem QueuedBody.recorded (queued : p.QueuedBody body) (member : item ∈ body.recorded) :
    p.EarlyItem item ∨ (∃ key, item = .method key ∧ p.Witnessed key) ∨ p.LaterNode (.item item) := by
  rcases queued with early | fixed | ⟨_, later, has⟩
  · exact .inl (early.recorded member)
  · by_cases avoided : p.EarlyItem item ∨ ∃ key, item = .method key ∧ p.Witnessed key
    · exact avoided.elim .inl fun witnessed => .inr (.inl witnessed)
    · refine .inr (.inr (.seed ⟨body, .inl ⟨fixed, item, member, rfl⟩⟩ ?_))
      rintro ⟨_, same, covered⟩
      cases same
      exact avoided covered
  · exact recorded_or_avoided later has member

end Program

section Closure

variable {p : Program}

end Closure

namespace LazySample

/-- `fn helper() -> i32 { 1 }` -/
def helper : Body := ⟨[], []⟩

/-- `fn get(self) -> i32 { helper() }`, in an anonymous enum -/
def get : Body := ⟨[.function "helper"], []⟩

/-- `fn main() -> i32 { let O = Opt(); let x = O::A; x.get() }` -/
def main : Body := ⟨[.method ⟨0, "get"⟩], [0]⟩

def program : Program where
  roots := [.function "main"]
  functions name := if name = "main" then some ⟨false, false, some main⟩
    else if name = "helper" then some ⟨false, false, some helper⟩
    else none
  owners owner := if owner = 0 then .anonEnum else .named
  methods key := if key = ⟨0, "get"⟩ then some ⟨false, get⟩ else none
  methodNames owner := if owner = 0 then ["get"] else []
  nonCopyElements := []
  registered := []
  derived := []
  drops := []
  specialized _ := helper
  methodNames_distinct owner := by split <;> simp
  mem_methodNames owner name := by by_cases first : owner = 0 <;> simp [first]
  derived_distinct := List.nodup_nil
  derived_named := nofun
  drops_distinct := List.nodup_nil

def run : Run program where
  early := [.method ⟨0, "get"⟩, .function "main"]
  early_drains := drains_of_drain (n := 3) rfl
  structs := []
  structs_drain := .finished
  enums := [⟨0, "get"⟩]
  enums_drain := drains_of_drain (n := 2) rfl
  vtables := []
  vtables_drain := .finished
  later := []
  later_drains := .finished

theorem program_accepted : program.Accepted := by
  have checks : ∀ body, body = main ∨ body = helper ∨ body = get →
      ∀ reference ∈ body.references, program.Checks reference := by
    rintro body (rfl | rfl | rfl) reference member
    · obtain rfl := List.mem_singleton.mp member
      exact ⟨⟨false, get⟩, rfl, rfl⟩
    · cases member
    · obtain rfl := List.mem_singleton.mp member
      rfl
  intro body has
  refine checks body ?_
  cases has with
  | @queued item _ has =>
    cases item with
    | function name | method key =>
      simp only [Program.queueBody, program] at has
      split at has <;> grind
  | @method key _ has =>
    simp only [Program.methodBody, program] at has
    grind
  | derived member => cases member
  | dropped member => cases member
  | specialized key => exact .inr (.inl rfl)

end LazySample

end Gruel.LazyBodies
