import PrefixCalls.Diagnostic
import PrefixCalls.Json.Basic
import PrefixCalls.Target.Basic

/-!
Tokens and trees as JSON values, where every object has its `type` first, and the one-line report of
a result: its output, or its error and the stage that refused.
-/
namespace PrefixCalls

def Token.toJson (t : Token) : Json :=
  .object [("type", .text t.kind.tag), ("text", .text t.text), ("loc", .count t.loc)]

def Token.listToJson (ts : List Token) : Json := .array (ts.map Token.toJson)

namespace Source

mutual

def Expr.toJson : Expr → Json
  | .number text => .object [("type", .text "NumberLiteral"), ("value", .text text)]
  | .call name args =>
    .object [("type", .text "CallExpression"), ("name", .text name),
      ("params", .array (Expr.listToJson args))]

def Expr.listToJson : List Expr → List Json
  | [] => []
  | e :: es => Expr.toJson e :: Expr.listToJson es

end

def Program.toJson (p : Program) : Json :=
  .object [("type", .text "Program"), ("body", .array (Expr.listToJson p.body))]

end Source

namespace Target

def identifierToJson (name : String) : Json :=
  .object [("type", .text "Identifier"), ("name", .text name)]

mutual

def Node.toJson : Node → Json
  | .statement expression =>
    .object [("type", .text "ExpressionStatement"), ("expression", Node.toJson expression)]
  | .call callee arguments =>
    .object [("type", .text "CallExpression"), ("callee", identifierToJson callee),
      ("arguments", .array (Node.listToJson arguments))]
  | .identifier name => identifierToJson name
  | .number text => .object [("type", .text "NumberLiteral"), ("value", .text text)]

def Node.listToJson : List Node → List Json
  | [] => []
  | n :: ns => Node.toJson n :: Node.listToJson ns

end

def Program.toJson (p : Program) : Json :=
  .object [("type", .text "Program"), ("body", .array (Node.listToJson p.body))]

end Target

inductive Report where
  | success (output : String)
  | failure (error : String) (stage : Stage)
  deriving DecidableEq, Repr

namespace Report

def ofResult : Except Diagnostic String → Report
  | .ok output => success output
  | .error d => failure d.message d.stage

def isError : Report → Bool
  | success _ => false
  | failure _ _ => true

def toJson : Report → Json
  | success output => .object [("output", .text output)]
  | failure error stage => .object [("error", .text error), ("stage", .text stage.name)]

def line (r : Report) : String := r.toJson.compact

end Report

end PrefixCalls
