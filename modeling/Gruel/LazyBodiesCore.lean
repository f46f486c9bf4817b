import Gruel.Lib.Worklists

/-!
The lazy analysis of bodies: a work queue that starts at the entry point, passes that are made once
after it, and specialization.
-/

namespace Gruel.LazyBodies

open Worklists

structure MethodKey where
  owner : Nat
  name : String
  deriving DecidableEq, Repr

inductive Item
  | function (name : String)
  | method (key : MethodKey)
  deriving DecidableEq, Repr

def Item.key? : Item → Option MethodKey
  | .function _ => none
  | .method key => some key

structure SpecializationKey where
  base : Item
  args : List Nat
  deriving DecidableEq, Repr

/-- A place of an AIR body that names other bodies. -/
inductive Reference
  | function (name : String)
  | method (key : MethodKey)
  /-- `v[i]`, `v[i] = x` -/
  | vecIndex (key : MethodKey)
  /-- `Vec(T)::new()` -/
  | vecStatic (key : MethodKey)
  | vtable (witness : List MethodKey)
  | destructor (owner : Nat)
  | generic (key : SpecializationKey)
  /-- An extern declaration, a symbol of the run-time library or one that is synthesized later. -/
  | runtime (symbol : String)

def Reference.items : Reference → List Item
  | .function name => [.function name]
  | .method key | .vecIndex key | .vecStatic key => [.method key]
  | .vtable witness => witness.map .method
  | .destructor _ | .generic _ | .runtime _ => []

/-- The items that are recorded as referenced; the calls on a Vec that are not written as method
calls record nothing. -/
def Reference.recorded : Reference → List Item
  | .function name => [.function name]
  | .method key => [.method key]
  | .generic key => [key.base]
  | .vecIndex _ | .vecStatic _ | .vtable _ | .destructor _ | .runtime _ => []

def Reference.witness : Reference → List MethodKey
  | .vtable witness => witness
  | _ => []

def Reference.specializations : Reference → List SpecializationKey
  | .generic key => [key]
  | _ => []

/-- A body: what it refers to, and the anonymous types whose methods its analysis registers. -/
structure Body where
  references : List Reference
  registers : List Nat

def Body.recorded (body : Body) : List Item := body.references.flatMap Reference.recorded

def Body.witnesses (body : Body) : List MethodKey := body.references.flatMap Reference.witness

def Body.specializations (body : Body) : List SpecializationKey :=
  body.references.flatMap Reference.specializations

structure FunctionInfo where
  isGeneric : Bool
  returnsType : Bool
  /-- Without a body, no declaration is found. -/
  body : Option Body

inductive OwnerKind
  | named
  | anonStruct
  | anonEnum
  deriving DecidableEq, Repr

structure MethodInfo where
  isGeneric : Bool
  body : Body

def copyOnly : List String :=
  ["clone", "eq", "cmp", "contains", "starts_with", "ends_with", "concat", "extend_from_slice"]

structure Program where
  roots : List Item
  functions : String → Option FunctionInfo
  owners : Nat → OwnerKind
  methods : MethodKey → Option MethodInfo
  methodNames : Nat → List String
  nonCopyElements : List Nat
  /-- The anonymous types registered before any body is analyzed. -/
  registered : List Nat
  /-- The methods that `@derive` splices onto named types. -/
  derived : List (MethodKey × Body)
  /-- The inline destructors. -/
  drops : List (Nat × Body)
  specialized : SpecializationKey → Body
  methodNames_distinct : ∀ owner, (methodNames owner).Nodup
  mem_methodNames : ∀ owner name, name ∈ methodNames owner ↔ (methods ⟨owner, name⟩).isSome
  derived_distinct : (derived.map Prod.fst).Nodup
  derived_named : ∀ entry ∈ derived, owners entry.1.owner = .named
  drops_distinct : (drops.map Prod.fst).Nodup

namespace Program

variable (p : Program)

def isDerived (key : MethodKey) : Bool := decide (key ∈ p.derived.map Prod.fst)

def queueBody : Item → Option Body
  | .function name =>
    match p.functions name with
    | none => none
    | some info => if info.isGeneric || info.returnsType then none else info.body
  | .method key =>
    match p.methods key with
    | none => none
    | some info =>
      if info.isGeneric then none
      else match p.owners key.owner with
        | .anonStruct => some info.body
        -- A derived method is not declared in the type, and an anonymous enum is not declared.
        | .named => if p.isDerived key then none else some info.body
        | .anonEnum => none

def vtableBody (key : MethodKey) : Option Body :=
  if p.owners key.owner = .named then p.queueBody (.method key) else none

def methodBody (key : MethodKey) : Option Body := (p.methods key).map MethodInfo.body

def isGeneric (key : MethodKey) : Bool := (p.methods key).any MethodInfo.isGeneric

def isCopyGated (key : MethodKey) : Bool :=
  decide (key.name ∈ copyOnly) && decide (key.owner ∈ p.nonCopyElements)

def methodKeys (owner : Nat) : List MethodKey := (p.methodNames owner).map (MethodKey.mk owner)

def structMethods (owner : Nat) : List MethodKey := if p.owners owner = .anonStruct then
    (p.methodKeys owner).filter fun key => !p.isGeneric key && !p.isCopyGated key
  else []

def enumMethods (owner : Nat) : List MethodKey :=
  if p.owners owner = .anonEnum then p.methodKeys owner else []

/-! What the worklists go on to. -/

def follow (item : Item) : List Item := ((p.queueBody item).map Body.recorded).getD []

def registersOf (key : MethodKey) : List Nat := ((p.methodBody key).map Body.registers).getD []

def nextStructs (key : MethodKey) : List MethodKey := (p.registersOf key).flatMap p.structMethods

def nextEnums (key : MethodKey) : List MethodKey := (p.registersOf key).flatMap p.enumMethods

inductive Node
  | item (item : Item)
  | specialization (key : SpecializationKey)
  deriving DecidableEq, Repr

def laterBody : Node → Option Body
  | .item item => p.queueBody item
  | .specialization key => some (p.specialized key)

def nodesOf (body : Body) : List Node :=
  body.recorded.map .item ++ body.specializations.map .specialization

def followNode (node : Node) : List Node := ((p.laterBody node).map nodesOf).getD []

end Program

inductive Symbol
  | item (item : Item)
  | destructor (owner : Nat)
  | specialized (key : SpecializationKey)
  deriving DecidableEq, Repr

def Reference.symbols (reference : Reference) : List Symbol := reference.items.map .item ++ match reference with
    | .destructor owner => [.destructor owner]
    | .generic key => [.specialized key]
    | _ => []

def Body.symbols (body : Body) : List Symbol := body.references.flatMap Reference.symbols

abbrev Emitted := List (Symbol × Body)

def emit {α : Type} (symbol : α → Symbol) (body : α → Option Body) (items : List α) : Emitted :=
  items.filterMap fun item => (body item).map (symbol item, ·)

def bodies (emitted : Emitted) : List Body := emitted.map Prod.snd

structure Run (p : Program) where
  early : List Item
  early_drains : Drains p.follow [] p.roots [] early
  /-- The catch-all pass over the methods of anonymous structs, whose references are dropped. -/
  structs : List MethodKey
  structs_drain : Drains p.nextStructs (early.filterMap Item.key?)
    ((p.registered ++ (bodies (emit .item p.queueBody early)).flatMap Body.registers).flatMap
      p.structMethods) [] structs
  /-- The pass over the methods of anonymous enums, whose references are dropped. -/
  enums : List MethodKey
  enums_drain : Drains p.nextEnums []
    ((p.registered ++ (bodies (emit .item p.queueBody early)).flatMap Body.registers ++
      structs.flatMap p.registersOf).flatMap p.enumMethods) [] enums
  vtables : List MethodKey
  vtables_drain : Drains (fun _ => []) (early.filterMap Item.key?)
    ((bodies (emit .item p.queueBody early) ++ structs.filterMap p.methodBody ++
      enums.filterMap p.methodBody).flatMap Body.witnesses) [] vtables
  /-- The work queue and specialization, which take turns, after the derived methods and the
  destructors. -/
  later : List Program.Node
  later_drains : Drains p.followNode
    (early.map Program.Node.item ++ vtables.map fun key => Program.Node.item (.method key))
    (((p.derived.map Prod.snd ++ p.drops.map Prod.snd).flatMap fun body =>
        body.recorded.map Program.Node.item) ++
      (bodies (emit .item p.queueBody early) ++ structs.filterMap p.methodBody ++
        enums.filterMap p.methodBody ++ vtables.filterMap p.vtableBody ++
        p.derived.map Prod.snd ++ p.drops.map Prod.snd).flatMap fun body =>
          body.specializations.map Program.Node.specialization) [] later

def Program.nodeSymbol : Program.Node → Symbol
  | .item item => .item item
  | .specialization key => .specialized key

def methodSymbol (key : MethodKey) : Symbol := .item (.method key)

namespace Run

variable {p : Program} (run : Run p)

def emitted : Emitted :=
  emit .item p.queueBody run.early ++ emit methodSymbol p.methodBody run.structs ++
    emit methodSymbol p.methodBody run.enums ++ emit methodSymbol p.vtableBody run.vtables ++
    p.derived.map (fun entry => (methodSymbol entry.1, entry.2)) ++
    p.drops.map (fun entry => (Symbol.destructor entry.1, entry.2)) ++
    emit Program.nodeSymbol p.laterBody run.later

def count (symbol : Symbol) : Nat := (run.emitted.map Prod.fst).count symbol

end Run

end Gruel.LazyBodies
