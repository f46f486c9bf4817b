import Gruel.Lib.Spelling
import Gruel.Source
import Gruel.TypeEncoding

/-!
The specialization pass: generic calls are collected over all analyzed bodies, rewritten
to calls by mangled name, and the bodies they name are synthesized, until nothing new is
asked for.  The analyzer that synthesizes a body and the order in which a hash map is
walked are parameters.
-/

namespace Gruel

def Ty.name : Ty → String
  | .i8 => "i8"
  | .i16 => "i16"
  | .i32 => "i32"
  | .i64 => "i64"
  | .u8 => "u8"
  | .u16 => "u16"
  | .u32 => "u32"
  | .u64 => "u64"
  | .isize => "isize"
  | .usize => "usize"
  | .f16 => "f16"
  | .f32 => "f32"
  | .f64 => "f64"
  | .bool => "bool"
  | .char => "char"
  | .unit => "()"
  | .struct _ => "<struct>"
  | .enum _ => "<enum>"
  | .array _ => "<array>"
  | .ptrConst _ => "<ptr const>"
  | .ptrMut _ => "<ptr mut>"
  | .ref _ => "<ref>"
  | .mutRef _ => "<mut ref>"
  | .slice _ => "<slice>"
  | .mutSlice _ => "<mut slice>"
  | .vec _ => "<vec>"
  | .module _ => "<module>"
  | .interface _ => "<interface>"
  | .error => "<error>"
  | .never => "!"
  | .comptimeType => "type"
  | .comptimeStr => "comptime_str"
  | .comptimeInt => "comptime_int"
  | .cSchar => "c_schar"
  | .cShort => "c_short"
  | .cInt => "c_int"
  | .cLong => "c_long"
  | .cLonglong => "c_longlong"
  | .cUchar => "c_uchar"
  | .cUshort => "c_ushort"
  | .cUint => "c_uint"
  | .cUlong => "c_ulong"
  | .cUlonglong => "c_ulonglong"
  | .cFloat => "c_float"
  | .cDouble => "c_double"
  | .cVoid => "c_void"

namespace Specialize

open Spelling TypeEncoding

inductive ConstValue
  | integer (value : BitVec 64)
  | bool (value : Bool)
  | type (ty : TypeWord)
  | unit
  | struct (heapIdx : Nat)
  | array (heapIdx : Nat)
  | comptimeStr (heapIdx : Nat)
  | enumVariant (enumId : EnumId) (variantIdx : Nat)
  | enumData (enumId : EnumId) (variantIdx heapIdx : Nat)
  | enumStruct (enumId : EnumId) (variantIdx heapIdx : Nat)
  | breakSignal
  | continueSignal
  | returnSignal
  deriving DecidableEq, Repr

structure FunctionName where
  text : List Char
  plain : '#' ∉ text
  deriving DecidableEq

structure SpecializationKey where
  baseName : FunctionName
  typeArgs : List TypeWord
  valueArgs : List ConstValue
  deriving DecidableEq

-- A word that encodes no type panics here; the words of an analyzed body were types.
def typeName (word : TypeWord) : List Char := ((tryKind word).map fun ty => ty.name.toList).getD []

def mangleTypeArgs (typeArgs : List TypeWord) : List Char :=
  typeArgs.flatMap fun ty => '_' :: '_' :: typeName ty ++ '#' :: decimal ty.toNat

def debugText : ConstValue → List Char
  | .struct heapIdx => "Struct(".toList ++ decimal heapIdx ++ ")".toList
  | .array heapIdx => "Array(".toList ++ decimal heapIdx ++ ")".toList
  | .enumVariant enumId variantIdx =>
    "EnumVariant \x7b enum_id: EnumId(".toList ++ decimal enumId ++
      "), variant_idx: ".toList ++ decimal variantIdx ++ " \x7d".toList
  | .enumData enumId variantIdx heapIdx =>
    "EnumData \x7b enum_id: EnumId(".toList ++ decimal enumId ++ "), variant_idx: ".toList ++ decimal variantIdx ++
      ", heap_idx: ".toList ++ decimal heapIdx ++ " \x7d".toList
  | .enumStruct enumId variantIdx heapIdx =>
    "EnumStruct \x7b enum_id: EnumId(".toList ++ decimal enumId ++ "), variant_idx: ".toList ++ decimal variantIdx ++
      ", heap_idx: ".toList ++ decimal heapIdx ++ " \x7d".toList
  | .breakSignal => "BreakSignal".toList
  | .continueSignal => "ContinueSignal".toList
  | .returnSignal => "ReturnSignal".toList
  | _ => []

def mangleValue : ConstValue → List Char
  | .integer value =>
    if value.toInt < 0 then "vim".toList ++ decimal value.toInt.natAbs
    else "vi".toList ++ decimal value.toInt.natAbs
  | .bool value => if value then "vb1".toList else "vb0".toList
  | .type ty => "vt".toList ++ decimal ty.toNat
  | .comptimeStr heapIdx => "vs".toList ++ decimal heapIdx
  | .unit => "vu".toList
  | other => "vx".toList ++ debugText other

def mangleValueArgs (valueArgs : List ConstValue) : List Char := spell '_' mangleValue valueArgs

def mangleSpecializedName (key : SpecializationKey) : List Char :=
  key.baseName.text ++ mangleTypeArgs key.typeArgs ++ mangleValueArgs key.valueArgs

inductive AirInstData (Other : Type)
  | callGeneric (name : FunctionName) (typeArgsStart typeArgsLen argsStart argsLen : Nat)
  | call (name : List Char) (argsStart argsLen : Nat)
  | other (data : Other)

structure AirInst (Other : Type) where
  data : AirInstData Other
  span : Span

structure Air (Other : Type) where
  instructions : List (AirInst Other)
  extra : List TypeWord := []
  comptimeValueArgs : List (Nat × List ConstValue) := []

/-- A body with its name.  Two marks are kept beside it that the compiler does not have:
the body as the analyzer gave it, and the key a body was synthesized for. -/
structure AnalyzedRow (Other : Type) where
  name : List Char
  air : Air Other
  given : Air Other
  origin : Option SpecializationKey := none

section Pass

variable {Other : Type}

namespace Air

def getExtra (air : Air Other) (start len : Nat) : List TypeWord := (air.extra.drop start).take len

def valueArgs (air : Air Other) (index : Nat) : List ConstValue :=
  (air.comptimeValueArgs.lookup index).getD []

def keyAt (air : Air Other) (index : Nat) : AirInstData Other → Option SpecializationKey
  | .callGeneric name typeArgsStart typeArgsLen _ _ =>
    some ⟨name, air.getExtra typeArgsStart typeArgsLen, air.valueArgs index⟩
  | _ => none

def AsksAt (air : Air Other) (index : Nat) (key : SpecializationKey) : Prop :=
  ∃ inst, air.instructions[index]? = some inst ∧ air.keyAt index inst.data = some key

end Air

structure SpecializationInfo where
  mangledName : List Char
  callSiteSpan : Span

abbrev Seen := List (SpecializationKey × SpecializationInfo)

def collectInst (air : Air Other) (seen : Seen) (entry : AirInst Other × Nat) : Seen :=
  match air.keyAt entry.2 entry.1.data with
  | some key =>
    if (seen.lookup key).isSome then seen
    else seen ++ [(key, ⟨mangleSpecializedName key, entry.1.span⟩)]
  | none => seen

def collectSpecializations (seen : Seen) (row : AnalyzedRow Other) : Seen :=
  row.air.instructions.zipIdx.foldl (collectInst row.air) seen

abbrev NameMap := List (SpecializationKey × List Char)

def rewriteInst (air : Air Other) (nameMap : NameMap) (inst : AirInst Other) (index : Nat) : AirInst Other :=
  match inst.data with
  | .callGeneric _ _ _ argsStart argsLen =>
    match (air.keyAt index inst.data).bind fun key => nameMap.lookup key with
    | some name => { inst with data := .call name argsStart argsLen }
    | none => inst
  | _ => inst

def rewriteCallGeneric (nameMap : NameMap) (row : AnalyzedRow Other) : AnalyzedRow Other :=
  { row with
    air := { row.air with
      instructions := row.air.instructions.zipIdx.map fun (inst, index) =>
        rewriteInst row.air nameMap inst index } }

inductive SpecializeError (Failure : Type)
  | undefinedFunction (name : List Char) (span : Span)
  | failed (failure : Failure)

structure Analyzer (Other Sema Base Refs Failure : Type) where
  functions : Sema → FunctionName → Option Base
  methods : Sema → FunctionName → Option Base
  createSpecialized : Sema → Refs → SpecializationKey → Base → Except Failure (Air Other × Sema × Refs)

structure PassState (Other Sema Refs : Type) where
  rows : List (AnalyzedRow Other)
  nameMap : NameMap
  sema : Sema
  refs : Refs

variable {Sema Base Refs Failure : Type}

def synthesize (analyzer : Analyzer Other Sema Base Refs Failure)
    (state : PassState Other Sema Refs) (spec : SpecializationKey × SpecializationInfo) :
    Except (SpecializeError Failure) (PassState Other Sema Refs) :=
  let found := (analyzer.functions state.sema spec.1.baseName).or (analyzer.methods state.sema spec.1.baseName)
  match found with
  | none => .error (.undefinedFunction spec.1.baseName.text spec.2.callSiteSpan)
  | some base =>
    match analyzer.createSpecialized state.sema state.refs spec.1 base with
    | .error failure => .error (.failed failure)
    | .ok (air, sema, refs) =>
      .ok { state with
        rows := state.rows ++ [{ name := spec.2.mangledName, air, given := air, origin := some spec.1 }]
        sema, refs }

/-- One pass through the loop: the keys not seen before, in the hash map's order, and the
state with their names recorded and every body rewritten. -/
def collectAndRewrite (order : Seen → Seen) (state : PassState Other Sema Refs) : Seen × PassState Other Sema Refs :=
  let seen := state.rows.foldl collectSpecializations []
  let newSpecs := order (seen.filter fun (key, _) => (state.nameMap.lookup key).isNone)
  let nameMap := newSpecs.foldl (fun names (key, info) => (key, info.mangledName) :: names) state.nameMap
  (newSpecs, { state with nameMap, rows := state.rows.map (rewriteCallGeneric nameMap) })

/-- `specialize`; `none` when the fuel runs out before nothing new is asked for. -/
def specialize (analyzer : Analyzer Other Sema Base Refs Failure) (order : Seen → Seen) :
    Nat → PassState Other Sema Refs → Option (Except (SpecializeError Failure) (PassState Other Sema Refs))
  | 0, _ => none
  | fuel + 1, state =>
    let (newSpecs, state) := collectAndRewrite order state
    if newSpecs.isEmpty then some (.ok state)
    else
      match newSpecs.foldlM (synthesize analyzer) state with
      | .error error => some (.error error)
      | .ok state => specialize analyzer order fuel state

/-- The states between two steps of the work queue: ordinary bodies are analyzed, and
`specialize` is called, with the name map of its earlier calls.  An error ends the run. -/
inductive Run (analyzer : Analyzer Other Sema Base Refs Failure) (order : Seen → Seen) :
    PassState Other Sema Refs → Prop
  | start (sema : Sema) (refs : Refs) : Run analyzer order ⟨[], [], sema, refs⟩
  | analyze {state : PassState Other Sema Refs} (before : Run analyzer order state)
      (name : FunctionName) (air : Air Other) (sema : Sema) (refs : Refs) :
      Run analyzer order { state with
          rows := state.rows ++ [{ name := name.text, air, given := air }]
          sema, refs }
  | specialize {state after : PassState Other Sema Refs} {fuel : Nat} (before : Run analyzer order state)
      (returned : specialize analyzer order fuel state = some (.ok after)) :
      Run analyzer order after

def Synthesized (rows : List (AnalyzedRow Other)) (position : Nat) (name : List Char) : Prop :=
  ∃ row, rows[position]? = some row ∧ row.origin.isSome ∧ row.name = name

def Calls (rows : List (AnalyzedRow Other)) (key : SpecializationKey) (name : List Char) : Prop :=
  ∃ row ∈ rows, ∃ index, row.given.AsksAt index key ∧ ∃ argsStart argsLen span,
    row.air.instructions[index]? = some ⟨.call name argsStart argsLen, span⟩

structure Specialized (rows : List (AnalyzedRow Other)) : Prop where
  closed : ∀ row ∈ rows, ∀ inst ∈ row.air.instructions, ∀ name typesAt types argsAt args,
    inst.data ≠ .callGeneric name typesAt types argsAt args
  oneBody : ∀ row ∈ rows, ∀ index key, row.given.AsksAt index key → ∃ name argsStart argsLen span,
    row.air.instructions[index]? = some ⟨.call name argsStart argsLen, span⟩ ∧
      ∃! position, Synthesized rows position name
  sharing : ∀ key name, Calls rows key name → ∀ other otherName, Calls rows other otherName →
    (name = otherName ↔ key = other)
  distinct : ∀ position name, Synthesized rows position name → ∀ other row,
    rows[other]? = some row → row.name = name → other = position

def Requested (rows : List (AnalyzedRow Other)) (key : SpecializationKey) : Prop :=
  ∃ row ∈ rows, ∃ index, row.given.AsksAt index key

def Extends (key other : SpecializationKey) : Prop :=
  ∃ taken ≠ [], other.baseName.text = key.baseName.text ++ mangleValueArgs taken ∧
    key.valueArgs = taken ++ other.valueArgs

def ordinaryNames (rows : List (AnalyzedRow Other)) : List (List Char) :=
  (rows.filter fun row => row.origin.isNone).map AnalyzedRow.name

/-- The spelled-out values make no requested name equal to an ordinary function's or to
another requested one: without type arguments, a name followed by its values is no
function's name, and is not a longer requested name with fewer values. -/
structure NoClash (rows : List (AnalyzedRow Other)) : Prop where
  ordinary : ∀ key, Requested rows key → key.typeArgs = [] →
    key.baseName.text ++ mangleValueArgs key.valueArgs ∉ ordinaryNames rows
  requested : ∀ key, Requested rows key → key.typeArgs = [] →
    ∀ other, Requested rows other → other.typeArgs = [] → ¬ Extends key other

end Pass

end Specialize

end Gruel
