import Gruel.AirCore
import Gruel.Lib.Machine

/-!
The control flow graph: blocks with parameters, straight-line instructions and
one terminator each, and its execution.
-/

namespace Gruel

open Machine

abbrev CfgValue := Nat

abbrev BlockId := Nat

inductive CfgInstData
  | const (value : Int)
  | boolConst (value : Bool)
  | param (index : Nat)
  | bin (op : BinOp) (lhs rhs : CfgValue)
  | unary (op : UnaryOp) (operand : CfgValue)
  | alloc (slot : Nat) (init : CfgValue)
  | load (slot : Nat)
  | store (slot : Nat) (value : CfgValue)
  | call (name : String) (args : List CfgValue)
  | drop (value : CfgValue)
  | storageLive (slot : Nat)
  | storageDead (slot : Nat)
  deriving DecidableEq, Repr

structure CfgInst where
  value : CfgValue
  data : CfgInstData
  ty : Ty
  deriving DecidableEq, Repr

inductive Terminator
  | goto (target : BlockId) (args : List CfgValue)
  | branch (cond : CfgValue) (thenBlock : BlockId) (thenArgs : List CfgValue)
      (elseBlock : BlockId) (elseArgs : List CfgValue)
  | switch (scrutinee : CfgValue) (cases : List (Int × BlockId)) (default : BlockId)
  | return (value : Option CfgValue)
  | unreachable
  | none
  deriving DecidableEq, Repr

structure BasicBlock where
  params : List (CfgValue × Ty)
  insts : List CfgInst
  terminator : Terminator
  deriving DecidableEq, Repr

structure Cfg where
  entry : BlockId
  blocks : BlockId → BasicBlock
  blockCount : Nat
  valueCount : Nat

structure Config where
  block : BlockId
  pc : Nat
  env : CfgValue → Scalar
  locals : Nat → Scalar
  trace : List CallEvent

inductive CfgResult
  | returned (value : Scalar) (trace : List CallEvent)
  | panicked (trace : List CallEvent)
  | stuck
  deriving DecidableEq, Repr

def setValue (env : CfgValue → Scalar) (id : CfgValue) (value : Scalar) : CfgValue → Scalar :=
  fun other => if other = id then value else env other

def bindParams (env : CfgValue → Scalar) : List (CfgValue × Ty) → List Scalar → CfgValue → Scalar
  | (id, _) :: params, value :: values => bindParams (setValue env id value) params values
  | _, _ => env

namespace Config

def define (config : Config) (inst : CfgInst) (value : Scalar) : Config :=
  { config with pc := config.pc + 1, env := setValue config.env inst.value value }

def defineOr (config : Config) (inst : CfgInst) (result : Option Scalar) : Next Config CfgResult :=
  match result with
  | some value => .running (config.define inst value)
  | none => .halted (.panicked config.trace)

end Config

section Execution

variable (semantics : Semantics) (arguments : List Scalar)

def execInst (config : Config) (inst : CfgInst) : Next Config CfgResult := match inst.data with
  | .const value => .running (config.define inst (.ofConst value inst.ty))
  | .boolConst value => .running (config.define inst (.bool value))
  | .param index => .running (config.define inst (arguments.getD index .unit))
  | .bin op lhs rhs =>
    config.defineOr inst (semantics.bin op inst.ty (config.env lhs) (config.env rhs))
  | .unary op operand => config.defineOr inst (semantics.unary op inst.ty (config.env operand))
  | .alloc slot init =>
    .running { config.define inst .unit with
      locals := setLocal config.locals slot (config.env init) }
  | .load slot => .running (config.define inst (config.locals slot))
  | .store slot value =>
    .running { config.define inst .unit with
      locals := setLocal config.locals slot (config.env value) }
  | .call name args =>
    let values := args.map config.env
    let called : Config := { config with trace := config.trace ++ [⟨name, values⟩] }
    called.defineOr inst (semantics.callResult inst.ty config.trace name values)
  | .drop _ | .storageLive _ | .storageDead _ => .running (config.define inst .unit)

def jump (cfg : Cfg) (config : Config) (target : BlockId) (args : List CfgValue) : Next Config CfgResult :=
  let params := (cfg.blocks target).params
  if params.length ≤ args.length then
    .running { config with
      block := target
      pc := 0
      env := bindParams config.env params (args.map config.env) }
  else .halted .stuck

def execTerminator (cfg : Cfg) (config : Config) : Terminator → Next Config CfgResult
  | .goto target args => jump cfg config target args
  | .branch cond thenBlock thenArgs elseBlock elseArgs =>
    match (config.env cond).asBool with
    | some true => jump cfg config thenBlock thenArgs
    | some false => jump cfg config elseBlock elseArgs
    | none => .halted .stuck
  | .switch scrutinee cases default =>
    match (config.env scrutinee).switchKey with
    | some key =>
      let target := ((cases.find? fun entry => decide (entry.1 = key)).map (·.2)).getD default
      jump cfg config target []
    | none => .halted .stuck
  | .return (some value) => .halted (.returned (config.env value) config.trace)
  | .return none => .halted (.returned .unit config.trace)
  | .unreachable | .none => .halted .stuck

def step (cfg : Cfg) (config : Config) : Next Config CfgResult :=
  match (cfg.blocks config.block).insts[config.pc]? with
  | some inst => execInst semantics arguments config inst
  | none => execTerminator cfg config (cfg.blocks config.block).terminator

end Execution

def initialConfig (cfg : Cfg) : Config :=
  { block := cfg.entry, pc := 0, env := fun _ => .unit, locals := fun _ => .unit, trace := [] }

end Gruel
