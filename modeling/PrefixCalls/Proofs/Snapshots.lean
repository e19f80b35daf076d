import PrefixCalls.Json.Encode
import PrefixCalls.Proofs.JsonRoundTrip

/-!
Snapshots read back. Tokens and trees are recovered from the values that a JSON reader makes of their
texts, so different snapshots of one kind have different texts.
-/
namespace PrefixCalls

open Json (Value)

structure Json.ReadBack {α : Type} (toJson : α → Json) (ofValue? : Value → Option α) : Prop where
  recovered : ∀ a, (Json.read? (toJson a).compact).bind ofValue? = some a
  apart : ∀ a b, (toJson a).compact = (toJson b).compact ↔ a = b

theorem Json.readBack_of {α : Type} {toJson : α → Json} {ofValue? : Value → Option α}
    (decoded : ∀ a, ofValue? (toJson a).toValue = some a) : ReadBack toJson ofValue? := by
  have recovered : ∀ a, (Json.read? (toJson a).compact).bind ofValue? = some a := by
    intro a
    rw [read?_compact, Option.bind_some, decoded]
  refine ⟨recovered, fun a b => ⟨?_, congrArg fun c => (toJson c).compact⟩⟩
  intro same
  have first := recovered a
  rw [same, recovered] at first
  exact (Option.some.inj first).symm

theorem Json.decoded_elements {α : Type} {toJson : α → Json} {ofValue? : Value → Option α}
    (toJsons : List α → List Json) (ofValues? : List Value → Option (List α))
    (nil_encoded : toJsons [] = []) (nil_decoded : ofValues? [] = some [])
    (cons_encoded : ∀ a as, toJsons (a :: as) = toJson a :: toJsons as)
    (cons_decoded : ∀ v vs,
      ofValues? (v :: vs) = (ofValue? v).bind fun a => (ofValues? vs).map (a :: ·))
    {as : List α} (each : ∀ a ∈ as, ofValue? (toJson a).toValue = some a) :
    ofValues? (toValues (toJsons as)) = some as := by
  induction as with
  | nil => rw [nil_encoded, toValues, nil_decoded]
  | cons a as ih =>
    obtain ⟨first, others⟩ := List.forall_mem_cons.mp each
    rw [cons_encoded, toValues, cons_decoded, first, ih others]
    rfl

def Token.Kind.ofTag? : String → Option Kind
  | "LeftParen" => some .leftParen
  | "RightParen" => some .rightParen
  | "Name" => some .name
  | "Number" => some .number
  | _ => none

def Token.ofValue? : Value → Option Token
  | .object [("type", .text tag), ("text", .text text), ("loc", .number ⟨false, loc, [], 0⟩)] =>
    (Kind.ofTag? tag).map fun kind => ⟨kind, text, loc⟩
  | _ => none

def Token.ofValues? : List Value → Option (List Token)
  | [] => some []
  | v :: vs => (Token.ofValue? v).bind fun t => (Token.ofValues? vs).map (t :: ·)

def Token.listOfValue? : Value → Option (List Token)
  | .array vs => Token.ofValues? vs
  | _ => none

theorem Token.ofValue?_toJson (t : Token) : Token.ofValue? t.toJson.toValue = some t := by
  obtain ⟨kind, text, loc⟩ := t
  cases kind <;> rfl

theorem Token.listOfValue?_toJson (ts : List Token) :
    Token.listOfValue? (Token.listToJson ts).toValue = some ts :=
  Json.decoded_elements (List.map Token.toJson) Token.ofValues? rfl rfl (fun _ _ => rfl)
    (fun _ _ => rfl) fun t _ => t.ofValue?_toJson

namespace Source

mutual

def Expr.ofValue? : Value → Option Expr
  | .object [("type", .text "NumberLiteral"), ("value", .text text)] => some (.number text)
  | .object [("type", .text "CallExpression"), ("name", .text name), ("params", .array vs)] =>
    (Expr.ofValues? vs).map (.call name)
  | _ => none

def Expr.ofValues? : List Value → Option (List Expr)
  | [] => some []
  | v :: vs => (Expr.ofValue? v).bind fun e => (Expr.ofValues? vs).map (e :: ·)

end

theorem Expr.ofValues?_toJson {es : List Expr}
    (each : ∀ e ∈ es, Expr.ofValue? e.toJson.toValue = some e) :
    Expr.ofValues? (Json.toValues (Expr.listToJson es)) = some es :=
  Json.decoded_elements Expr.listToJson Expr.ofValues? rfl rfl (fun _ _ => rfl) (fun _ _ => rfl) each

theorem Expr.ofValue?_toJson (e : Expr) : Expr.ofValue? e.toJson.toValue = some e := by
  induction e using Expr.induction_args with
  | number text => rfl
  | call name args ih => exact congrArg (Option.map (Expr.call name)) (Expr.ofValues?_toJson ih)

def Program.ofValue? : Value → Option Program
  | .object [("type", .text "Program"), ("body", .array vs)] => (Expr.ofValues? vs).map Program.mk
  | _ => none

theorem Program.ofValue?_toJson (p : Program) : Program.ofValue? p.toJson.toValue = some p :=
  congrArg (Option.map Program.mk) (Expr.ofValues?_toJson fun e _ => e.ofValue?_toJson)

end Source

namespace Target

def identifierOf? : Value → Option String
  | .object [("type", .text "Identifier"), ("name", .text name)] => some name
  | _ => none

mutual

def Node.ofValue? : Value → Option Node
  | .object [("type", .text "ExpressionStatement"), ("expression", v)] =>
    (Node.ofValue? v).map .statement
  | .object [("type", .text "CallExpression"), ("callee", v), ("arguments", .array vs)] =>
    (identifierOf? v).bind fun callee => (Node.ofValues? vs).map (.call callee)
  | .object [("type", .text "Identifier"), ("name", .text name)] => some (.identifier name)
  | .object [("type", .text "NumberLiteral"), ("value", .text text)] => some (.number text)
  | _ => none

def Node.ofValues? : List Value → Option (List Node)
  | [] => some []
  | v :: vs => (Node.ofValue? v).bind fun n => (Node.ofValues? vs).map (n :: ·)

end

theorem Node.ofValues?_toJson {ns : List Node}
    (each : ∀ n ∈ ns, Node.ofValue? n.toJson.toValue = some n) :
    Node.ofValues? (Json.toValues (Node.listToJson ns)) = some ns :=
  Json.decoded_elements Node.listToJson Node.ofValues? rfl rfl (fun _ _ => rfl) (fun _ _ => rfl) each

theorem Node.ofValue?_toJson (n : Node) : Node.ofValue? n.toJson.toValue = some n := by
  induction n using Node.induction_parts with
  | statement n ih => exact congrArg (Option.map Node.statement) ih
  | call callee ns ih => exact congrArg (Option.map (Node.call callee)) (Node.ofValues?_toJson ih)
  | identifier name => rfl
  | number text => rfl

def Program.ofValue? : Value → Option Program
  | .object [("type", .text "Program"), ("body", .array vs)] => (Node.ofValues? vs).map Program.mk
  | _ => none

theorem Program.ofValue?_toJson (q : Program) : Program.ofValue? q.toJson.toValue = some q :=
  congrArg (Option.map Program.mk) (Node.ofValues?_toJson fun n _ => n.ofValue?_toJson)

end Target

/-- Token lists, source programs and target programs, of any strings, nesting and offsets, are
    recovered from their compact JSON texts, and two of one kind with one text are the same. -/
theorem snapshots_read_back :
    Json.ReadBack Token.listToJson Token.listOfValue? ∧
    Json.ReadBack Source.Program.toJson Source.Program.ofValue? ∧
    Json.ReadBack Target.Program.toJson Target.Program.ofValue? := by
  have tokens := Json.readBack_of Token.listOfValue?_toJson
  have source := Json.readBack_of Source.Program.ofValue?_toJson
  have target := Json.readBack_of Target.Program.ofValue?_toJson
  exact ⟨tokens, source, target⟩

end PrefixCalls
