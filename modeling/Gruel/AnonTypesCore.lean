import Gruel.ComptimeCore
import Gruel.Lib.FindOrMake
import Gruel.Lib.Spelling
import Gruel.TypePoolCore

/-!
Anonymous structs and enums: a literal's type is found among the registered types by its
shape, its method signatures as written and its captured values, or it is registered under
a new name.  The order in which a hash map is walked is a parameter.
-/

namespace Gruel

namespace AnonTypes

open Comptime (ConstValue)

structure AnonMethodSig where
  name : Spur
  hasSelf : Bool
  -- Type symbols, not types.
  paramTypes : List Spur
  returnType : Spur
  deriving DecidableEq

abbrev CapturedValues := List (Spur × ConstValue)

/-- A type in `struct_by_name` or `enum_by_name`, with what its definition lists.  It is
marked when a declaration of the program made it. -/
structure Registered (Listed : Type) where
  name : List Char
  id : Nat
  listed : Listed
  declared : Bool := false

structure Registry (Listed : Type) where
  byName : List (Registered Listed) := []
  anonMethodSigs : List (Nat × List AnonMethodSig) := []
  anonCapturedValues : List (Nat × CapturedValues) := []

structure Sema where
  poolLen : Nat := 0
  structs : Registry (List StructField) := {}
  enums : Registry (List EnumVariantDef) := {}

section Registry

variable {Listed : Type}

namespace Registry

def methodSigsOf (registry : Registry Listed) (id : Nat) : List AnonMethodSig :=
  (registry.anonMethodSigs.lookup id).getD []

def capturedValuesOf (registry : Registry Listed) (id : Nat) : CapturedValues :=
  (registry.anonCapturedValues.lookup id).getD []

def store (registry : Registry Listed) (id : Nat) (methodSigs : List AnonMethodSig)
    (capturedValues : CapturedValues) : Registry Listed :=
  { registry with
    anonMethodSigs := if methodSigs.isEmpty then registry.anonMethodSigs
      else (id, methodSigs) :: registry.anonMethodSigs
    anonCapturedValues := if capturedValues.isEmpty then registry.anonCapturedValues
      else (id, capturedValues) :: registry.anonCapturedValues }

def register (registry : Registry Listed) (entry : Registered Listed) : Registry Listed :=
  { registry with byName := entry :: registry.byName }

def named (registry : Registry Listed) (name : List Char) : Option (Registered Listed) :=
  registry.byName.find? fun entry => entry.name == name

end Registry

def capturesMatch (existing new : CapturedValues) : Bool :=
  existing.length == new.length && new.all fun entry => existing.lookup entry.1 == some entry.2

def matching [DecidableEq Listed] (stem : List Char) (registry : Registry Listed) (listed : Listed)
    (methodSigs : List AnonMethodSig) (capturedValues : CapturedValues)
    (entry : Registered Listed) : Bool :=
  decide (stem <+: entry.name) && decide (entry.listed = listed) &&
    decide (registry.methodSigsOf entry.id = methodSigs) &&
    capturesMatch (registry.capturedValuesOf entry.id) capturedValues

end Registry

def structStem : List Char := "__anon_struct_".toList

def enumStem : List Char := "__anon_enum_".toList

structure MapOrder where
  structs : List (Registered (List StructField)) → List (Registered (List StructField))
  enums : List (Registered (List EnumVariantDef)) → List (Registered (List EnumVariantDef))

structure MapOrder.Walks (order : MapOrder) : Prop where
  structs : ∀ entries, (order.structs entries).Perm entries
  enums : ∀ entries, (order.enums entries).Perm entries

def createUniqueAnonStruct (sema : Sema) (fields : List StructField)
    (methodSigs : List AnonMethodSig) (capturedValues : CapturedValues) : Option (Sema × Nat) :=
  let id := sema.poolLen
  let name := structStem ++ Spelling.decimal id
  if (InternedType.fromPoolIndex id).isNone || (sema.structs.named name).isSome then none
  else
    some ({ sema with
        poolLen := id + 1
        structs := (sema.structs.register ⟨name, id, fields, false⟩).store id methodSigs capturedValues },
      id)

-- The part behind the search is the body of `create_unique_anon_struct` once more.
def findOrCreateAnonStruct (order : MapOrder) (sema : Sema) (fields : List StructField)
    (methodSigs : List AnonMethodSig) (capturedValues : CapturedValues) :
    Option (Sema × Nat × Bool) :=
  match (order.structs sema.structs.byName).find?
      (matching structStem sema.structs fields methodSigs capturedValues) with
  | some entry => some (sema, entry.id, false)
  | none =>
    (createUniqueAnonStruct sema fields methodSigs capturedValues).map fun (after, id) =>
      (after, id, true)

def registerEnum (sema : Sema) (name : List Char) (variants : List EnumVariantDef)
    (declared : Bool) : Option (Sema × Nat) :=
  match sema.enums.named name with
  | some existing => some (sema, existing.id)
  | none =>
    if (InternedType.fromPoolIndex sema.poolLen).isNone then none
    else
      some ({ sema with
          poolLen := sema.poolLen + 1
          enums := sema.enums.register ⟨name, sema.poolLen, variants, declared⟩ },
        sema.poolLen)

def findOrCreateAnonEnum (order : MapOrder) (sema : Sema) (variants : List EnumVariantDef)
    (methodSigs : List AnonMethodSig) (capturedValues : CapturedValues) :
    Option (Sema × Nat × Bool) :=
  match (order.enums sema.enums.byName).find? (matching enumStem sema.enums variants methodSigs capturedValues) with
  | some entry => some (sema, entry.id, false)
  | none =>
    let name := enumStem ++ Spelling.decimal sema.enums.byName.length
    (registerEnum sema name variants false).map fun (after, id) =>
      ({ after with enums := after.enums.store id methodSigs capturedValues }, id, true)

def declareStruct (sema : Sema) (name : List Char) (fields : List StructField) : Option Sema :=
  if (sema.structs.named name).isSome then some sema
  else if (InternedType.fromPoolIndex sema.poolLen).isNone then none
  else
    some { sema with
      poolLen := sema.poolLen + 1
      structs := sema.structs.register ⟨name, sema.poolLen, fields, true⟩ }

inductive Shape
  | struct (fields : List StructField)
  | enum (variants : List EnumVariantDef)
  deriving DecidableEq

inductive Handle
  | struct (id : Nat)
  | enum (id : Nat)
  deriving DecidableEq

-- A type handle keeps 24 bits of the id.
def Handle.ty : Handle → Ty
  | .struct id => .struct (packedId id)
  | .enum id => .enum (packedId id)
where packedId := TypeInternPoolInner.packedId

inductive SigTy
  | self
  | ty (ty : Ty)
  deriving DecidableEq

/-- The arguments of a call, and beside them what they stand for where the call is made: the
types of the symbols, under the enclosing substitution, and the contents of the values. -/
structure AnonCall (Content : Type) where
  shape : Shape
  methodSigs : List AnonMethodSig
  capturedValues : CapturedValues
  resolve : Spur → SigTy
  content : ConstValue → Content

section Runs

variable {Content : Type}

/-- A call with its answer and the state it was made in. -/
structure Answered (Content : Type) where
  call : AnonCall Content
  handle : Handle
  isNew : Bool
  unique : Bool
  before : Sema

/-- Calls in any order, the last first, among declarations and other types that enter the
pool. -/
inductive Run (order : MapOrder) : List (Answered Content) → Sema → Prop
  | start : Run order [] {}
  | findStruct {history : List (Answered Content)} {sema after : Sema} {call : AnonCall Content}
      {fields : List StructField} {id : Nat} {isNew : Bool} (ran : Run order history sema)
      (shape : call.shape = .struct fields)
      (returned : findOrCreateAnonStruct order sema fields call.methodSigs call.capturedValues =
        some (after, id, isNew)) :
      Run order (⟨call, .struct id, isNew, false, sema⟩ :: history) after
  | findEnum {history : List (Answered Content)} {sema after : Sema} {call : AnonCall Content}
      {variants : List EnumVariantDef} {id : Nat} {isNew : Bool} (ran : Run order history sema)
      (shape : call.shape = .enum variants)
      (returned : findOrCreateAnonEnum order sema variants call.methodSigs call.capturedValues =
        some (after, id, isNew)) :
      Run order (⟨call, .enum id, isNew, false, sema⟩ :: history) after
  | uniqueStruct {history : List (Answered Content)} {sema after : Sema}
      {call : AnonCall Content} {fields : List StructField} {id : Nat}
      (ran : Run order history sema) (shape : call.shape = .struct fields)
      (returned : createUniqueAnonStruct sema fields call.methodSigs call.capturedValues = some (after, id)) :
      Run order (⟨call, .struct id, true, true, sema⟩ :: history) after
  | declareStruct {history : List (Answered Content)} {sema after : Sema} {name : List Char}
      {fields : List StructField} (ran : Run order history sema)
      (returned : declareStruct sema name fields = some after) : Run order history after
  | declareEnum {history : List (Answered Content)} {sema after : Sema} {name : List Char}
      {variants : List EnumVariantDef} {id : Nat} (ran : Run order history sema)
      (returned : registerEnum sema name variants true = some (after, id)) :
      Run order history after
  | otherType {history : List (Answered Content)} {sema : Sema} (ran : Run order history sema) :
      Run order history { sema with poolLen := sema.poolLen + 1 }

def AnonCall.methods (call : AnonCall Content) : List (Spur × Bool × List SigTy × SigTy) :=
  call.methodSigs.map fun sig =>
    (sig.name, sig.hasSelf, sig.paramTypes.map call.resolve, call.resolve sig.returnType)

structure SameType (first second : AnonCall Content) : Prop where
  shape : first.shape = second.shape
  methods : first.methods.Perm second.methods
  captured : ∀ key, (first.capturedValues.lookup key).map first.content =
    (second.capturedValues.lookup key).map second.content

def Sema.Has (sema : Sema) (ty : Ty) : Prop :=
  (∃ entry ∈ sema.structs.byName, ty = Handle.ty (.struct entry.id)) ∨
    ∃ entry ∈ sema.enums.byName, ty = Handle.ty (.enum entry.id)

structure Structural (history : List (Answered Content)) : Prop where
  equal_iff : ∀ first ∈ history, first.unique = false → ∀ second ∈ history,
    second.unique = false → (first.handle.ty = second.handle.ty ↔ SameType first.call second.call)
  unique : ∀ (position : Nat) (lambda : Answered Content), history[position]? = some lambda →
    lambda.unique = true → ∀ (other : Nat) (answer : Answered Content),
      history[other]? = some answer → answer.handle.ty = lambda.handle.ty → other = position
  isNew_iff : ∀ answer ∈ history, answer.unique = false → (answer.isNew = true ↔ ¬ answer.before.Has answer.handle.ty)

def SameWritten (first second : AnonCall Content) : Prop := first.methodSigs = second.methodSigs ∧
    capturesMatch first.capturedValues second.capturedValues = true

def Room (sema : Sema) : Prop := sema.poolLen < 2 ^ 24

/-- Before a call that finds or creates a type: no declared name starts like an anonymous
type's; where an earlier call made a type of the same shape, what the two hand over is
written alike exactly when it means the same; and no lambda's struct is written alike. -/
structure Clear (earlier : List (Answered Content)) (answer : Answered Content) : Prop where
  structNames : ∀ entry ∈ answer.before.structs.byName, entry.declared = true → ¬ structStem <+: entry.name
  enumNames : ∀ entry ∈ answer.before.enums.byName, entry.declared = true → ¬ enumStem <+: entry.name
  shared : ∀ made ∈ earlier, made.isNew = true → made.unique = false →
    made.call.shape = answer.call.shape → (SameWritten made.call answer.call ↔
      made.call.methods.Perm answer.call.methods ∧
        ∀ key, (made.call.capturedValues.lookup key).map made.call.content =
          (answer.call.capturedValues.lookup key).map answer.call.content)
  lambdas : ∀ made ∈ earlier, made.unique = true → made.call.shape = answer.call.shape →
    ¬ SameWritten made.call answer.call

/-- Every call of the run had room, and its other conditions. -/
def AllClear : List (Answered Content) → Prop
  | [] => True
  | answer :: earlier =>
    Room answer.before ∧ (answer.unique = false → Clear earlier answer) ∧ AllClear earlier

end Runs

end AnonTypes

end Gruel
