import Gruel.AnonTypesCore
import Gruel.ComptimeData

/-!
The constant folder beside the compile-time interpreter: `try_evaluate_const`, the same with
substitutions, and the two paths of `try_evaluate_comptime_arg`.
-/

namespace Gruel

namespace Folder

open AnonTypes (AnonMethodSig CapturedValues Handle MapOrder Sema)
open Comptime (CompileError ConstValue HeapItem Interp Name Program)

structure AnonStructLit where
  fields : List (String × Spur)
  methods : List AnonMethodSig

structure AnonVariantLit where
  name : String
  fieldTypes : List Spur
  fieldNames : List String

structure AnonEnumLit where
  variants : List AnonVariantLit
  methods : List AnonMethodSig

structure AnonInterfaceLit where
  methods : List AnonMethodSig

inductive Inst
  | intConst (value : UInt64)
  | boolConst (value : Bool)
  | unary (op : UnaryOp) (operand : Inst)
  | bin (op : BinOp) (lhs rhs : Inst)
  | logic (op : LogicOp) (lhs rhs : Inst)
  | comptime (expr : Inst)
  | block (stmts : List Inst)
  | typeConst (name : Name)
  | varRef (name : Name)
  | anonStructType (literal : AnonStructLit)
  | anonEnumType (literal : AnonEnumLit)
  | anonInterfaceType (literal : AnonInterfaceLit)
  -- Everything else requires runtime evaluation, or the interpreter.
  | other (expr : Comptime.Expr)

def basicType (text : String) : Option Ty := match text with
  | "i8" => some .i8
  | "i16" => some .i16
  | "i32" => some .i32
  | "i64" => some .i64
  | "u8" => some .u8
  | "u16" => some .u16
  | "u32" => some .u32
  | "u64" => some .u64
  | "isize" => some .isize
  | "usize" => some .usize
  | "f16" => some .f16
  | "f32" => some .f32
  | "f64" => some .f64
  | "bool" => some .bool
  | "char" => some .char
  | "()" => some .unit
  | "!" => some .never
  | _ => none

def cNamedType (text : String) : Option Ty := match text with
  | "c_schar" => some .cSchar
  | "c_short" => some .cShort
  | "c_int" => some .cInt
  | "c_long" => some .cLong
  | "c_longlong" => some .cLonglong
  | "c_uchar" => some .cUchar
  | "c_ushort" => some .cUshort
  | "c_uint" => some .cUint
  | "c_ulong" => some .cUlong
  | "c_ulonglong" => some .cUlonglong
  | "c_float" => some .cFloat
  | "c_double" => some .cDouble
  | "c_void" => some .cVoid
  | _ => none

attribute [grind =] cNamedType

abbrev TypeSubst := List (Name × Ty)

def TypeSubst.find (subst : TypeSubst) (name : Name) : Option Ty :=
  (subst.find? fun entry => entry.1 == name).map Prod.snd

structure Analyzer where
  text : Name → String
  structs : Name → Option StructId
  enums : Name → Option EnumId
  order : MapOrder
  -- The type of a symbol under the substitutions in force; compound types enter the pool.
  resolveSymbol : (Name → Option Ty) → Spur → Sema → Option (Ty × Sema)
  -- The methods, derives and marks of a literal are taken for its type, which may be new.
  completes : (substituted : Bool) → List AnonMethodSig → Handle → (isNew : Bool) →
    (Name → Option Ty) → CapturedValues → Bool
  internInterface : (Name → Option Ty) → AnonInterfaceLit → Sema → Option (InterfaceId × Sema)
  program : Program

structure Context where
  comptimeValueVars : List (Name × Comptime.Value) := []
  comptimeTypeVars : TypeSubst := []

namespace Analyzer

variable (analyzer : Analyzer)

def declaredType (name : Name) : Option Ty := match analyzer.structs name with
  | some id => some (.struct id)
  | none => (analyzer.enums name).map .enum

def typeNamed (name : Name) : Option Ty := match basicType (analyzer.text name) with
  | some ty => some ty
  | none =>
    match cNamedType (analyzer.text name) with
    | some ty => some ty
    | none => analyzer.declaredType name

def interpretedType (context : Context) (name : Name) : Option Ty :=
  match context.comptimeTypeVars.find name with
  | some ty => some ty
  | none =>
    match basicType (analyzer.text name) with
    | some ty => some ty
    | none => analyzer.declaredType name

end Analyzer

section Anonymous

variable (analyzer : Analyzer)

def inForce (subst overrides : TypeSubst) (name : Name) : Option Ty := match subst.find name with
  | some ty => some ty
  | none => overrides.find name

def resolveFields (types : Name → Option Ty) : List (String × Spur) → Sema → Option (List StructField × Sema)
  | [], sema => some ([], sema)
  | (name, symbol) :: fields, sema => do
      let (ty, sema) ← analyzer.resolveSymbol types symbol sema
      let (fields, sema) ← resolveFields types fields sema
      some (⟨name, ty⟩ :: fields, sema)

def resolveTypes (types : Name → Option Ty) : List Spur → Sema → Option (List Ty × Sema)
  | [], sema => some ([], sema)
  | symbol :: symbols, sema => do
      let (ty, sema) ← analyzer.resolveSymbol types symbol sema
      let (tys, sema) ← resolveTypes types symbols sema
      some (ty :: tys, sema)

def resolveVariants (types : Name → Option Ty) : List AnonVariantLit → Sema → Option (List EnumVariantDef × Sema)
  | [], sema => some ([], sema)
  | variant :: variants, sema => do
      let (fields, sema) ← resolveTypes analyzer types variant.fieldTypes sema
      let (variants, sema) ← resolveVariants types variants sema
      some (⟨variant.name, fields, variant.fieldNames⟩ :: variants, sema)

def anonStruct (substituted : Bool) (types : Name → Option Ty) (captured : CapturedValues)
    (literal : AnonStructLit) (sema : Sema) : Option (Ty × Sema) := do
  let (fields, sema) ← resolveFields analyzer types literal.fields sema
  let (sema, id, isNew) ←
    AnonTypes.findOrCreateAnonStruct analyzer.order sema fields literal.methods captured
  if analyzer.completes substituted literal.methods (.struct id) isNew types captured then
    some ((Handle.struct id).ty, sema)
  else none

def anonEnum (substituted : Bool) (types : Name → Option Ty) (captured : CapturedValues)
    (literal : AnonEnumLit) (sema : Sema) : Option (Ty × Sema) := do
  let (variants, sema) ← resolveVariants analyzer types literal.variants sema
  let (sema, id, isNew) ←
    AnonTypes.findOrCreateAnonEnum analyzer.order sema variants literal.methods captured
  if analyzer.completes substituted literal.methods (.enum id) isNew types captured then
    some ((Handle.enum id).ty, sema)
  else none

def anonInterface (types : Name → Option Ty) (literal : AnonInterfaceLit) (sema : Sema) : Option (Ty × Sema) :=
  (analyzer.internInterface types literal sema).map fun (id, sema) => (.interface id, sema)

/-- Only the folder with substitutions refuses empty literals and methods of one name. -/
def AnonStructLit.WellFormed (literal : AnonStructLit) : Prop :=
  ¬ (literal.fields = [] ∧ literal.methods = []) ∧ (literal.methods.map (·.name)).Nodup

instance (literal : AnonStructLit) : Decidable literal.WellFormed :=
  inferInstanceAs (Decidable (_ ∧ _))

def AnonEnumLit.WellFormed (literal : AnonEnumLit) : Prop :=
  literal.variants ≠ [] ∧ (literal.methods.map (·.name)).Nodup

instance (literal : AnonEnumLit) : Decidable literal.WellFormed :=
  inferInstanceAs (Decidable (_ ∧ _))

end Anonymous

def asInteger : ConstValue → Option (BitVec 64)
  | .data (.integer value) => some value
  | _ => none

def asBool : ConstValue → Option Bool
  | .data (.bool value) => some value
  | _ => none

def foldUnary (op : UnaryOp) (operand : ConstValue) : Option Comptime.Value := match op with
  | .neg => do some (.integer (-(← asInteger operand)))
  | .not => do some (.bool !(← asBool operand))
  | .bitNot => do some (.integer (~~~(← asInteger operand)))

def foldEq (lhs rhs : ConstValue) : Option Bool := match lhs, rhs with
  | .data (.integer left), .data (.integer right) => some (decide (left = right))
  | .data (.bool left), .data (.bool right) => some (decide (left = right))
  | _, _ => none

/-- `checked_div` and `checked_rem`. -/
def overflows (lhs divisor : BitVec 64) : Bool :=
  decide (lhs = BitVec.intMin 64) && decide (divisor = -1)

def foldShift (operand : ConstValue) : Option Nat := do
  let amount ← asInteger operand
  if 0 ≤ amount.toInt ∧ amount.toInt < 8 then some amount.toNat else none

def foldDivisor (lhs rhs : ConstValue) : Option (BitVec 64 × BitVec 64) := do
  let divisor ← asInteger rhs
  if divisor = 0 then none
  else
    let dividend ← asInteger lhs
    if overflows dividend divisor then none else some (dividend, divisor)

def foldBin (op : BinOp) (lhs rhs : ConstValue) : Option Comptime.Value := match op with
  | .add => do some (.integer ((← asInteger lhs) + (← asInteger rhs)))
  | .sub => do some (.integer ((← asInteger lhs) - (← asInteger rhs)))
  | .mul => do some (.integer ((← asInteger lhs) * (← asInteger rhs)))
  | .div => do
      let (dividend, divisor) ← foldDivisor lhs rhs
      some (.integer (dividend.sdiv divisor))
  | .mod => do
      let (dividend, divisor) ← foldDivisor lhs rhs
      some (.integer (dividend.srem divisor))
  | .eq => do some (.bool (← foldEq lhs rhs))
  | .ne => do some (.bool !(← foldEq lhs rhs))
  | .lt => do some (.bool (decide ((← asInteger lhs).toInt < (← asInteger rhs).toInt)))
  | .gt => do some (.bool (decide ((← asInteger lhs).toInt > (← asInteger rhs).toInt)))
  | .le => do some (.bool (decide ((← asInteger lhs).toInt ≤ (← asInteger rhs).toInt)))
  | .ge => do some (.bool (decide ((← asInteger lhs).toInt ≥ (← asInteger rhs).toInt)))
  | .bitAnd => do some (.integer ((← asInteger lhs) &&& (← asInteger rhs)))
  | .bitOr => do some (.integer ((← asInteger lhs) ||| (← asInteger rhs)))
  | .bitXor => do some (.integer ((← asInteger lhs) ^^^ (← asInteger rhs)))
  | .shl => do
      let amount ← foldShift rhs
      some (.integer ((← asInteger lhs) <<< amount))
  | .shr => do
      let amount ← foldShift rhs
      some (.integer ((← asInteger lhs).sshiftRight amount))

def foldLogic (op : LogicOp) (lhs rhs : ConstValue) : Option Comptime.Value := match op with
  | .and => do if ← asBool lhs then some (.bool (← asBool rhs)) else some (.bool false)
  | .or => do if ← asBool lhs then some (.bool true) else some (.bool (← asBool rhs))

/-- What the two folders do differently. -/
structure Leaves where
  varRef : Name → Option ConstValue
  typeConst : Name → Option Ty
  anonStruct : AnonStructLit → Sema → Option (Ty × Sema)
  anonEnum : AnonEnumLit → Sema → Option (Ty × Sema)
  anonInterface : AnonInterfaceLit → Sema → Option (Ty × Sema)

def typeValue (made : Ty × Sema) : ConstValue × Sema := (.data (.type made.1), made.2)

def fold (leaves : Leaves) : Inst → Sema → Option (ConstValue × Sema)
  | .intConst value, sema =>
    if value.toNat < 2 ^ 63 then some (.data (.integer value.toBitVec), sema) else none
  | .boolConst value, sema => some (.data (.bool value), sema)
  | .unary op operand, sema => do
      let (value, sema) ← fold leaves operand sema
      let result ← foldUnary op value
      some (.data result, sema)
  | .bin op lhs rhs, sema => do
      let (left, sema) ← fold leaves lhs sema
      let (right, sema) ← fold leaves rhs sema
      let result ← foldBin op left right
      some (.data result, sema)
  | .logic op lhs rhs, sema => do
      let (left, sema) ← fold leaves lhs sema
      let (right, sema) ← fold leaves rhs sema
      let result ← foldLogic op left right
      some (.data result, sema)
  | .comptime expr, sema => fold leaves expr sema
  | .block [result], sema => fold leaves result sema
  | .block _, _ => none
  | .typeConst name, sema => (leaves.typeConst name).map fun ty => (.data (.type ty), sema)
  | .varRef name, sema => (leaves.varRef name).map fun value => (value, sema)
  | .anonStructType literal, sema => (leaves.anonStruct literal sema).map typeValue
  | .anonEnumType literal, sema => (leaves.anonEnum literal sema).map typeValue
  | .anonInterfaceType literal, sema => (leaves.anonInterface literal sema).map typeValue
  | .other _, _ => none

section Evaluators

variable (analyzer : Analyzer)

def constLeaves (overrides : TypeSubst) : Leaves where
  varRef := fun name => (analyzer.typeNamed name).map fun ty => .data (.type ty)
  typeConst := analyzer.typeNamed
  anonStruct := anonStruct analyzer false (inForce [] overrides) []
  anonEnum := anonEnum analyzer false (inForce [] overrides) []
  anonInterface := anonInterface analyzer (inForce [] overrides)

def tryEvaluateConst (overrides : TypeSubst) (inst : Inst) (sema : Sema) : Option (ConstValue × Sema) :=
  fold (constLeaves analyzer overrides) inst sema

def asCaptured (locals : List (Name × ConstValue)) : CapturedValues :=
  locals.foldr (fun entry captured =>
    if symbol : entry.1 < 4294967295 then
      (⟨entry.1, symbol⟩, entry.2) :: captured.filter fun other => other.1 ≠ ⟨entry.1, symbol⟩
    else captured) []

def substLeaves (overrides typeSubst : TypeSubst) (valueSubst : List (Name × ConstValue)) : Leaves where
  varRef := fun name =>
    match typeSubst.find name with
    | some ty => some (.data (.type ty))
    | none =>
      match Comptime.lookup valueSubst name with
      | some value => some value
      | none => (analyzer.typeNamed name).map fun ty => .data (.type ty)
  typeConst := fun name =>
    match typeSubst.find name with
    | some ty => some ty
    | none => analyzer.typeNamed name
  anonStruct := fun literal sema =>
    if literal.WellFormed then
      anonStruct analyzer true (inForce typeSubst overrides) (asCaptured valueSubst) literal sema
    else none
  anonEnum := fun literal sema =>
    if literal.WellFormed then
      anonEnum analyzer true (inForce typeSubst overrides) (asCaptured valueSubst) literal sema
    else none
  anonInterface := anonInterface analyzer (inForce typeSubst overrides)

def tryEvaluateConstWithSubst (overrides typeSubst : TypeSubst)
    (valueSubst : List (Name × ConstValue)) (inst : Inst) (sema : Sema) :
    Option (ConstValue × Sema) :=
  fold (substLeaves analyzer overrides typeSubst valueSubst) inst sema

structure State where
  interp : Interp := {}
  sema : Sema := {}

abbrev Result := Except CompileError (ConstValue × State)

def delegate (inst : Inst) (state : State) : Result :=
  match tryEvaluateConstWithSubst analyzer state.interp.typeOverrides
      state.interp.typeOverrides state.interp.scope.locals inst state.sema with
  | some (value, sema) => .ok (value, { state with sema := sema })
  | none => .error Comptime.notConst

variable (context : Context)

def interpretedProgram : Program :=
  { analyzer.program with typeNames := analyzer.interpretedType context }

mutual

def evaluateInst (fuel : Nat) : Inst → State → Result
  | .intConst value, state =>
    if value.toNat < 2 ^ 63 then .ok (.data (.integer value.toBitVec), state)
    else .error (.failed "integer constant too large for comptime evaluation")
  | .boolConst value, state => .ok (.data (.bool value), state)
  | .unary op operand, state => do
      let (value, state) ← evaluateInst fuel operand state
      .ok (.data (← Comptime.evalUnary op value), state)
  | .bin op lhs rhs, state => do
      let (left, state) ← evaluateInst fuel lhs state
      let (right, state) ← evaluateInst fuel rhs state
      .ok (.data (← Comptime.evalBin state.interp.scope.heap op left right), state)
  | .logic op lhs rhs, state => do
      let (left, state) ← evaluateInst fuel lhs state
      let (right, state) ← evaluateInst fuel rhs state
      .ok (.data (← Comptime.evalLogic op left right), state)
  | .comptime expr, state => evaluateInst fuel expr state
  | .block stmts, state => evaluateInsts fuel stmts (.data .unit) state
  | .varRef name, state =>
    match Comptime.lookup state.interp.scope.locals name with
    | some value => .ok (value, state)
    | none =>
      match Comptime.lookupType (interpretedProgram analyzer context) state.interp.typeOverrides name with
      | some ty => .ok (.data (.type ty), state)
      | none => .error Comptime.notConst
  | .typeConst name, state => delegate analyzer (.typeConst name) state
  | .anonStructType literal, state => delegate analyzer (.anonStructType literal) state
  | .anonEnumType literal, state => delegate analyzer (.anonEnumType literal) state
  | .anonInterfaceType _, _ => .error Comptime.notConst
  | .other expr, state => do
      let (value, interp) ← Comptime.evaluateComptimeInst (interpretedProgram analyzer context) fuel expr state.interp
      .ok (value, { state with interp := interp })

def evaluateInsts (fuel : Nat) : List Inst → ConstValue → State → Result
  | [], last, state => .ok (last, state)
  | stmt :: stmts, _, state => do
      match ← evaluateInst fuel stmt state with
      | (.data value, state) => evaluateInsts fuel stmts (.data value) state
      | (signal, state) => .ok (signal, state)

end

attribute [grind =] fold evaluateInst

def fastPath (inst : Inst) (state : State) : Option (ConstValue × State) :=
  (tryEvaluateConst analyzer state.interp.typeOverrides inst state.sema).map
    fun (value, sema) => (value, { state with sema := sema })

def slowPath (fuel : Nat) (inst : Inst) (state : State) : Option (ConstValue × State) :=
  match evaluateInst analyzer context fuel inst { state with
      interp := { state.interp with
          scope := { state.interp.scope with
            locals := Comptime.injectLocals context.comptimeValueVars }
          steps := 0 } } with
  | .ok (.data value, after) =>
    some (.data value, { after with
      interp := { after.interp with
          scope := { after.interp.scope with locals := state.interp.scope.locals }
          steps := state.interp.steps } })
  -- Errors are dropped, and signals mean nothing here.
  | _ => none

def tryEvaluateComptimeArg (fuel : Nat) (inst : Inst) (state : State) : Option (ConstValue × State) :=
  match fastPath analyzer inst state with
  | some result => some result
  | none => slowPath analyzer context fuel inst state

/-- Under the same bindings the folder and the interpreter give no two different values. -/
def FoldsAlike (typeSubst : TypeSubst) (valueSubst : List (Name × ConstValue)) : Prop :=
  ∀ (inst : Inst) (fuel : Nat) (state : State) (value other : ConstValue) (after : Sema)
    (state' : State), state.interp.typeOverrides = typeSubst →
    state.interp.scope.locals = valueSubst →
    tryEvaluateConstWithSubst analyzer typeSubst typeSubst valueSubst inst state.sema = some (value, after) →
    evaluateInst analyzer context fuel inst state = .ok (other, state') → value = other

/-- The two paths of an argument give no two different values. -/
def PathsAgree (overrides : TypeSubst) (sema : Sema) : Prop :=
  ∀ (inst : Inst) (fuel : Nat) (state : State) (value other : ConstValue)
    (fast slow : State), state.interp.typeOverrides = overrides → state.sema = sema →
    fastPath analyzer inst state = some (value, fast) →
    slowPath analyzer context fuel inst state = some (other, slow) → value = other

/-- No name stands for two things that the two lookup orders tell apart. -/
structure Unambiguous (typeSubst : TypeSubst) (valueSubst : List (Name × ConstValue)) : Prop where
  both : ∀ name ty value, typeSubst.find name = some ty →
    Comptime.lookup valueSubst name = some value → value = .data (.type ty)
  typeVars : ∀ name ty other, typeSubst.find name = none →
    Comptime.lookup valueSubst name = none → analyzer.typeNamed name = some ty →
    context.comptimeTypeVars.find name = some other → ty = other
  cTypes : ∀ name, typeSubst.find name = none → Comptime.lookup valueSubst name = none →
    context.comptimeTypeVars.find name = none → (cNamedType (analyzer.text name)).isSome →
    analyzer.declaredType name = none

def structMet (sema : Sema) (fields : List StructField) (methods : List AnonMethodSig)
    (captured : CapturedValues) : Ty :=
  match (analyzer.order.structs sema.structs.byName).find?
      (AnonTypes.matching AnonTypes.structStem sema.structs fields methods captured) with
  | some entry => (Handle.struct entry.id).ty
  | none => (Handle.struct sema.poolLen).ty

def enumMet (sema : Sema) (variants : List EnumVariantDef) (methods : List AnonMethodSig)
    (captured : CapturedValues) : Ty :=
  match (analyzer.order.enums sema.enums.byName).find?
      (AnonTypes.matching AnonTypes.enumStem sema.enums variants methods captured) with
  | some entry => (Handle.enum entry.id).ty
  | none =>
    match sema.enums.named (AnonTypes.enumStem ++ Spelling.decimal sema.enums.byName.length) with
    | some entry => (Handle.enum entry.id).ty
    | none => (Handle.enum sema.poolLen).ty

def Context.captured : CapturedValues :=
  asCaptured (Comptime.injectLocals context.comptimeValueVars)

/-- No variable of the context and no override has the name of a type, unless it stands for
that type; and literals that both paths accept meet one type with the variables captured and
without. -/
structure Unshadowed (overrides : TypeSubst) (sema : Sema) : Prop where
  values : ∀ name ty value, analyzer.typeNamed name = some ty →
    Comptime.lookup context.comptimeValueVars name = some value → value = .type ty
  overridden : ∀ name ty other, analyzer.typeNamed name = some ty → overrides.find name = some other → ty = other
  typeVars : ∀ name ty other, Comptime.lookup context.comptimeValueVars name = none →
    overrides.find name = none → analyzer.typeNamed name = some ty →
    context.comptimeTypeVars.find name = some other → ty = other
  cTypes : ∀ name, Comptime.lookup context.comptimeValueVars name = none →
    overrides.find name = none → context.comptimeTypeVars.find name = none →
    (cNamedType (analyzer.text name)).isSome → analyzer.declaredType name = none
  structs : ∀ (literal : AnonStructLit) (fields : List StructField) (after : Sema), literal.WellFormed →
    resolveFields analyzer overrides.find literal.fields sema = some (fields, after) →
    (anonStruct analyzer false overrides.find [] literal sema).isSome →
    (anonStruct analyzer true overrides.find context.captured literal sema).isSome →
    structMet analyzer after fields literal.methods [] =
      structMet analyzer after fields literal.methods context.captured
  enums : ∀ (literal : AnonEnumLit) (variants : List EnumVariantDef) (after : Sema), literal.WellFormed →
    resolveVariants analyzer overrides.find literal.variants sema = some (variants, after) →
    (anonEnum analyzer false overrides.find [] literal sema).isSome →
    (anonEnum analyzer true overrides.find context.captured literal sema).isSome →
    enumMet analyzer after variants literal.methods [] =
      enumMet analyzer after variants literal.methods context.captured

end Evaluators

end Folder

end Gruel
