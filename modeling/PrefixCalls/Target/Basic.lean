import PrefixCalls.Source.Basic

/-!
The target language: a program is a list of nodes. A statement holds an expression, a call names
its callee in front of its arguments, and the leaves are identifiers and numbers. The type admits
statements anywhere; a program that can be written has them at the top only.

Source programs are shaped as target programs: a call at the top of a program becomes a statement, a
call inside another stays bare, and numbers stay numbers. What comes out is canonical: at the top
numbers and statements of calls, in arguments numbers and bare calls, identifiers only as callees.
-/
namespace PrefixCalls.Target

inductive Node where
  | statement (expression : Node)
  | call (callee : String) (arguments : List Node)
  | identifier (name : String)
  | number (text : String)
  deriving Repr

theorem Node.induction_parts {P : Node → Prop} (statement : ∀ n, P n → P (.statement n))
    (call : ∀ callee ns, (∀ n ∈ ns, P n) → P (.call callee ns))
    (identifier : ∀ name, P (.identifier name)) (number : ∀ text, P (.number text)) : ∀ n, P n
  | .statement n => statement n (induction_parts statement call identifier number n)
  | .call callee ns => call callee ns fun n _ => induction_parts statement call identifier number n
  | .identifier name => identifier name
  | .number text => number text

structure Program where
  body : List Node
  deriving Repr

mutual

def Node.ofExpr : Source.Expr → Node
  | .number text => .number text
  | .call name args => .call name (Node.ofExprs args)

def Node.ofExprs : List Source.Expr → List Node
  | [] => []
  | e :: es => Node.ofExpr e :: Node.ofExprs es

end

@[simp] theorem Node.ofExprs_eq_map (es : List Source.Expr) :
    Node.ofExprs es = es.map Node.ofExpr := by
  induction es with
  | nil => rfl
  | cons e es ih => simp [Node.ofExprs, ih]

def Node.ofTop : Source.Expr → Node
  | .number text => .number text
  | .call name args => .statement (Node.ofExpr (.call name args))

def Program.ofSource (p : Source.Program) : Program := ⟨p.body.map Node.ofTop⟩

@[simp] theorem Program.length_ofSource (p : Source.Program) :
    (Program.ofSource p).body.length = p.body.length := by simp [Program.ofSource]

mutual

def Node.IsPlain : Node → Prop
  | .number _ => True
  | .call _ arguments => Node.AllPlain arguments
  | .statement _ => False
  | .identifier _ => False

def Node.AllPlain : List Node → Prop
  | [] => True
  | n :: ns => Node.IsPlain n ∧ Node.AllPlain ns

end

def Node.IsCanonicalTop : Node → Prop
  | .number _ => True
  | .statement (.call callee arguments) => Node.IsPlain (.call callee arguments)
  | _ => False

def Program.Canonical (p : Program) : Prop := ∀ n ∈ p.body, Node.IsCanonicalTop n

@[simp] theorem Node.allPlain_iff (ns : List Node) :
    Node.AllPlain ns ↔ ∀ n ∈ ns, Node.IsPlain n := by
  induction ns with
  | nil => simp [Node.AllPlain]
  | cons n ns ih => simp [Node.AllPlain, ih]

end PrefixCalls.Target
