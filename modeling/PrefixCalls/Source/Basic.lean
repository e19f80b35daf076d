import PrefixCalls.Token.Basic

/-!
The source language: a program is a sequence of expressions, and an expression is a number or a
call with its name in front of its arguments. Numbers keep their text and are never evaluated. A
program is described in three ways beside its tree: as a flat sequence of symbols, which are tokens
without their places; by the grammar, as a relation between token lists and expressions, where the
texts of parentheses do not matter; and by its code, written from the expressions alone.
-/
namespace PrefixCalls

structure Symbol where
  kind : Token.Kind
  text : String
  deriving DecidableEq, Repr

def Token.symbol (t : Token) : Symbol := ⟨t.kind, t.text⟩

namespace Source

inductive Expr where
  | number (text : String)
  | call (name : String) (args : List Expr)
  deriving Repr

theorem Expr.induction_args {P : Expr → Prop} (number : ∀ text, P (.number text))
    (call : ∀ name args, (∀ e ∈ args, P e) → P (.call name args)) : ∀ e, P e
  | .number text => number text
  | .call name args => call name args fun e _ => induction_args number call e

structure Program where
  body : List Expr
  deriving Repr

mutual

def Expr.symbols : Expr → List Symbol
  | .number text => [⟨.number, text⟩]
  | .call name args =>
    ⟨.leftParen, "("⟩ :: ⟨.name, name⟩ :: (Expr.symbolsOf args ++ [⟨.rightParen, ")"⟩])

def Expr.symbolsOf : List Expr → List Symbol
  | [] => []
  | e :: es => Expr.symbols e ++ Expr.symbolsOf es

end

def Program.symbols (p : Program) : List Symbol := Expr.symbolsOf p.body

@[simp] theorem Expr.symbolsOf_eq_flatMap (es : List Expr) :
    Expr.symbolsOf es = es.flatMap Expr.symbols := by
  induction es with
  | nil => rfl
  | cons e es ih => simp [Expr.symbolsOf, ih]

mutual

inductive Derives : List Token → Expr → Prop where
  | number {t : Token} (numeral : t.kind = .number) : Derives [t] (.number t.text)
  | call {l n r : Token} {ts : List Token} {es : List Expr} (opening : l.kind = .leftParen)
      (named : n.kind = .name) (args : DerivesAll ts es) (closing : r.kind = .rightParen) :
      Derives (l :: n :: (ts ++ [r])) (.call n.text es)

inductive DerivesAll : List Token → List Expr → Prop where
  | nil : DerivesAll [] []
  | cons {ts us : List Token} {e : Expr} {es : List Expr} (first : Derives ts e)
      (others : DerivesAll us es) : DerivesAll (ts ++ us) (e :: es)

end

def Program.Derives (ts : List Token) (p : Program) : Prop := DerivesAll ts p.body

mutual

def Expr.code : Expr → String
  | .number text => text
  | .call name args => name ++ "(" ++ ", ".intercalate (Expr.codes args) ++ ")"

def Expr.codes : List Expr → List String
  | [] => []
  | e :: es => Expr.code e :: Expr.codes es

end

@[simp] theorem Expr.codes_eq_map (es : List Expr) : Expr.codes es = es.map Expr.code := by
  induction es with
  | nil => rfl
  | cons e es ih => simp [Expr.codes, ih]

def Expr.topCode : Expr → String
  | .number text => text
  | .call name args => Expr.code (.call name args) ++ ";"

def Program.code (p : Program) : String := "\n".intercalate (p.body.map Expr.topCode)

end Source

end PrefixCalls
