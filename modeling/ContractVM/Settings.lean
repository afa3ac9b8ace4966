/-
Settings of a machine. They are read from text variables, every one of which
has a default; all variables are looked at before the faulty ones are reported
together.
-/
import ContractVM.Fault

namespace ContractVM

inductive LogLevel where
  | fatal | error | warn | info | debug | trace | silent
deriving Repr, DecidableEq

namespace LogLevel

def name : LogLevel → String
  | fatal => "fatal" | error => "error" | warn => "warn" | info => "info"
  | debug => "debug" | trace => "trace" | silent => "silent"

def all : List LogLevel := [fatal, error, warn, info, debug, trace, silent]

end LogLevel

structure Settings where
  logLevel : LogLevel := .info
  logPretty : Bool := false
  maxCallDepth : Number := .ofNat 256
  /-- Gas of a call that names none. -/
  defaultGas : Int := 30000000
  /-- Gas of a deployment that names none. -/
  deployGas : Int := 3000000

/-- Settings that win over the variables. -/
structure Overrides where
  logLevel : Option LogLevel := none
  logPretty : Option Bool := none
  maxCallDepth : Option Number := none
  defaultGas : Option Int := none
  deployGas : Option Int := none

namespace Settings

def standard : Settings := {}

instance : Inhabited Settings := ⟨standard⟩

/-- A variable that takes one of a few words. -/
def choice {α : Type} (key : String) (options : List (String × α)) (given : String) :
    Except String α :=
  match options.lookup given with
  | some v => .ok v
  | none =>
    let words := options.map fun o => "\"" ++ o.1 ++ "\""
    .error (key ++ ": Invalid type: Expected (" ++ " | ".intercalate words ++
      ") but received \"" ++ given ++ "\"")

/-- A variable that takes a number without sign, in decimal digits. -/
def digits (key given : String) : Except String Nat :=
  if given ≠ "" ∧ given.toList.all Char.isDigit then
    .ok (given.toList.foldl (fun n c => n * 10 + (c.toNat - 48)) 0)
  else .error (key ++ ": must be a non-negative integer")

/-- A variable's value: the override, else what its text says, else the
default. -/
def resolve {α : Type} (override : Option α) (given : Option String)
    (read : String → Except String α) (otherwise : α) : Except String α :=
  match override, given with
  | some v, _ => .ok v
  | none, some text => read text
  | none, none => .ok otherwise

def issue? {α : Type} : Except String α → Option String
  | .error e => some e
  | .ok _ => none

/-- Settings from variables; those that an override replaces are not looked
at. -/
def load (o : Overrides) (vars : Table String) : Except Fault Settings :=
  let level := resolve o.logLevel (vars.get? "LOG_LEVEL")
    (choice "LOG_LEVEL" (LogLevel.all.map fun l => (l.name, l))) standard.logLevel
  let pretty := resolve o.logPretty (vars.get? "LOG_PRETTY")
    (choice "LOG_PRETTY" [("true", true), ("false", false)]) standard.logPretty
  let depth := resolve o.maxCallDepth (vars.get? "ENGINE_MAX_CALL_DEPTH")
    (fun t => (digits "ENGINE_MAX_CALL_DEPTH" t).map fun n => Number.nearest n)
    standard.maxCallDepth
  let callGas := resolve o.defaultGas (vars.get? "ENGINE_DEFAULT_GAS")
    (fun t => (digits "ENGINE_DEFAULT_GAS" t).map fun n => (n : Int))
    standard.defaultGas
  let deployGas := resolve o.deployGas (vars.get? "ENGINE_DEPLOY_GAS")
    (fun t => (digits "ENGINE_DEPLOY_GAS" t).map fun n => (n : Int))
    standard.deployGas
  match level, pretty, depth, callGas, deployGas with
  | .ok l, .ok p, .ok d, .ok c, .ok g => .ok ⟨l, p, d, c, g⟩
  | l, p, d, c, g =>
    .error (.settings ([issue? l, issue? p, issue? d, issue? c, issue? g].filterMap id))

end Settings
end ContractVM
