/-
Contract code as JSON, both ways. A part that was left out stays left out.
Reading goes down one level of the text at a time, so its depth bounds the
recursion.
-/
import ContractVM.Code.Syntax
import ContractVM.Json.Basic

namespace ContractVM

open Json (Reading)

/-! ## Values -/

def Value.toJson : Value → Json
  | .int n => .ofInt n
  | .bool b => .bool b
  | .text s => .text s

def Value.ofJson : Json → Reading Value
  | .record [("int", .text s)] => .ok (.int (Json.intOfText s))
  | .bool b => .ok (.bool b)
  | .text s => .ok (.text s)
  | _ => .error "expected a value"

def ParamType.ofJson : Json → Reading ParamType := Json.byName all name

/-! ## Writing -/

mutual
def Expr.toJson : Expr → Json
  | .const v => .record [("op", .text "const"), ("value", v.toJson)]
  | .arg n => .record [("op", .text "arg"), ("name", .text n)]
  | .local n => .record [("op", .text "local"), ("name", .text n)]
  | .env f => .record [("op", .text "env"), ("field", .text f.name)]
  | .balance e => .record [("op", .text "balance"), ("of", e.toJson)]
  | .slot base keys =>
    .record [("op", .text "slot"), ("base", .text base), ("keys", .list (Expr.allToJson keys))]
  | .sload key => .record [("op", .text "sload"), ("key", key.toJson)]
  | .bin op l r =>
    .record [("op", .text "bin"), ("fn", .text op.name), ("left", l.toJson), ("right", r.toJson)]
  | .not e => .record [("op", .text "not"), ("arg", e.toJson)]

def Expr.allToJson : List Expr → List Json
  | [] => []
  | e :: rest => e.toJson :: Expr.allToJson rest
end

def Expr.tableToJson (t : Table Expr) : Json := .record (t.entries.map fun e => (e.1, e.2.toJson))

def CallKind.name : CallKind → String
  | .call => "call"
  | .delegate => "delegatecall"

def CallSpec.toJson (s : CallSpec) : Json :=
  .record ([("op", .text "call"), ("kind", .text s.kind.name), ("target", s.target.toJson),
      ("fn", .text s.fn)] ++
    Json.field? "args" Expr.tableToJson s.args ++ Json.field? "value" Expr.toJson s.value ++
    Json.field? "gas" Expr.toJson s.gas ++ Json.field? "try" .bool s.caught ++
    Json.field? "success" .text s.success ++ Json.field? "result" .text s.result)

mutual
def Instr.toJson : Instr → Json
  | .bind n e => .record [("op", .text "let"), ("name", .text n), ("value", e.toJson)]
  | .sstore k v => .record [("op", .text "sstore"), ("key", k.toJson), ("value", v.toJson)]
  | .require c r => .record [("op", .text "require"), ("cond", c.toJson), ("reason", .text r)]
  | .assert c => .record [("op", .text "assert"), ("cond", c.toJson)]
  | .revert r => .record [("op", .text "revert"), ("reason", .text r)]
  | .emit e args =>
    .record [("op", .text "emit"), ("event", .text e), ("args", Expr.tableToJson args)]
  | .call s => s.toJson
  | .invoke fn args result =>
    .record ([("op", .text "invoke"), ("fn", .text fn)] ++
      Json.field? "args" Expr.tableToJson args ++ Json.field? "result" .text result)
  | .branch c yes no =>
    .record ([("op", .text "if"), ("cond", c.toJson), ("then", .list (Instr.allToJson yes))] ++
      Instr.elseToJson no)
  | .ret e => .record [("op", .text "return"), ("value", e.toJson)]
  | .selfDestruct b => .record [("op", .text "selfdestruct"), ("beneficiary", b.toJson)]

def Instr.allToJson : List Instr → List Json
  | [] => []
  | i :: rest => i.toJson :: Instr.allToJson rest

def Instr.elseToJson : Option (List Instr) → List (String × Json)
  | none => []
  | some body => [("else", .list (Instr.allToJson body))]
end

/-! ## Reading -/

def Expr.readAt : Nat → Json → Reading Expr
  | 0, _ => .error "nested too deep"
  | n + 1, j => do
    match ← (← j.get "op").toText with
    | "const" => return .const (← Value.ofJson (← j.get "value"))
    | "arg" => return .arg (← (← j.get "name").toText)
    | "local" => return .local (← (← j.get "name").toText)
    | "env" => return .env (← Json.byName EnvField.all EnvField.name (← j.get "field"))
    | "balance" => return .balance (← readAt n (← j.get "of"))
    | "slot" =>
      return .slot (← (← j.get "base").toText) (← (← j.get "keys").toList (readAt n))
    | "sload" => return .sload (← readAt n (← j.get "key"))
    | "bin" =>
      let op ← Json.byName Operator.all Operator.name (← j.get "fn")
      return .bin op (← readAt n (← j.get "left")) (← readAt n (← j.get "right"))
    | "not" => return .not (← readAt n (← j.get "arg"))
    | op => throw ("unknown expression " ++ op)

def Expr.ofJson (j : Json) : Reading Expr := Expr.readAt j.depth j

def Expr.tableOfJson : Json → Reading (Table Expr) := Json.toTable Expr.ofJson

def CallSpec.ofJson (j : Json) : Reading CallSpec := do
  return {
    kind := ← Json.byName [.call, .delegate] CallKind.name (← j.get "kind")
    target := ← Expr.ofJson (← j.get "target")
    fn := ← (← j.get "fn").toText
    args := ← j.getOpt "args" Expr.tableOfJson
    value := ← j.getOpt "value" Expr.ofJson
    gas := ← j.getOpt "gas" Expr.ofJson
    caught := ← j.getOpt "try" Json.toBool
    success := ← j.getOpt "success" Json.toText
    result := ← j.getOpt "result" Json.toText }

def Instr.readAt : Nat → Json → Reading Instr
  | 0, _ => .error "nested too deep"
  | n + 1, j => do
    match ← (← j.get "op").toText with
    | "let" => return .bind (← (← j.get "name").toText) (← Expr.ofJson (← j.get "value"))
    | "sstore" => return .sstore (← Expr.ofJson (← j.get "key")) (← Expr.ofJson (← j.get "value"))
    | "require" =>
      return .require (← Expr.ofJson (← j.get "cond")) (← (← j.get "reason").toText)
    | "assert" => return .assert (← Expr.ofJson (← j.get "cond"))
    | "revert" => return .revert (← (← j.get "reason").toText)
    | "emit" => return .emit (← (← j.get "event").toText) (← Expr.tableOfJson (← j.get "args"))
    | "call" => return .call (← CallSpec.ofJson j)
    | "invoke" =>
      return .invoke (← (← j.get "fn").toText) (← j.getOpt "args" Expr.tableOfJson)
        (← j.getOpt "result" Json.toText)
    | "if" =>
      return .branch (← Expr.ofJson (← j.get "cond")) (← (← j.get "then").toList (readAt n))
        (← j.getOpt "else" (Json.toList (readAt n)))
    | "return" => return .ret (← Expr.ofJson (← j.get "value"))
    | "selfdestruct" => return .selfDestruct (← Expr.ofJson (← j.get "beneficiary"))
    | op => throw ("unknown instruction " ++ op)

def Instr.ofJson (j : Json) : Reading Instr := Instr.readAt j.depth j

def Instr.bodyOfJson (j : Json) : Reading (List Instr) := do (← j.get "body").toList Instr.ofJson

def Param.ofJson (j : Json) : Reading Param := do
  return ⟨← (← j.get "name").toText, ← ParamType.ofJson (← j.get "type")⟩

def Param.listOfJson (j : Json) : Reading (List Param) := do
  return (← j.getOpt "params" (Json.toList Param.ofJson)).getD []

def FunctionDef.ofJson (j : Json) : Reading FunctionDef := do
  return {
    name := ← (← j.get "name").toText
    params := ← Param.listOfJson j
    returns := ← j.getOpt "returns" ParamType.ofJson
    visibility := ← Json.byName Visibility.all Visibility.name (← j.get "visibility")
    mutability := ← Json.byName Mutability.all Mutability.name (← j.get "mutability")
    nonReentrant := ← j.flag "nonReentrant"
    isVirtual := ← j.flag "virtual"
    isOverride := ← j.flag "override"
    body := ← Instr.bodyOfJson j }

def ConstructorDef.ofJson (j : Json) : Reading ConstructorDef := do
  return {
    params := ← Param.listOfJson j
    payable := ← j.flag "payable"
    body := ← Instr.bodyOfJson j }

def FallbackDef.ofJson (j : Json) : Reading FallbackDef := do
  return {
    payable := ← j.flag "payable"
    nonReentrant := ← j.flag "nonReentrant"
    body := ← Instr.bodyOfJson j }

def EventField.ofJson (j : Json) : Reading EventField := do
  return {
    name := ← (← j.get "name").toText
    type := ← ParamType.ofJson (← j.get "type")
    indexed := ← j.getOpt "indexed" Json.toBool }

def EventDecl.ofJson (j : Json) : Reading EventDecl := do
  return ⟨← (← j.get "name").toText, ← (← j.get "fields").toList EventField.ofJson⟩

def ContractCode.readAt : Nat → Json → Reading ContractCode
  | 0, _ => .error "nested too deep"
  | n + 1, j => do
    return {
      name := ← (← j.get "name").toText
      bases := (← j.getOpt "bases" (Json.toList (readAt n))).getD []
      constr := ← j.getOpt "init" ConstructorDef.ofJson
      fallback := ← j.getOpt "fallback" FallbackDef.ofJson
      functions := ← (← j.get "functions").toList FunctionDef.ofJson
      events := (← j.getOpt "events" (Json.toList EventDecl.ofJson)).getD [] }

def ContractCode.ofJson (j : Json) : Reading ContractCode := ContractCode.readAt j.depth j

end ContractVM
