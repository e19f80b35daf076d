import PrefixCalls.Grammar
import PrefixCalls.Text

/-!
Tokens of the call language: parentheses, names and numbers, each with its text and the byte
offset where the text starts. Which texts a kind has is said without scanning.
-/
namespace PrefixCalls

open Text

inductive Token.Kind where
  | leftParen
  | rightParen
  | name
  | number
  deriving DecidableEq, Repr

structure Token where
  kind : Token.Kind
  text : String
  loc : Nat
  deriving DecidableEq, Repr

namespace Token

def Kind.describe : Kind → String
  | leftParen => "left paren"
  | rightParen => "right paren"
  | name => "name"
  | number => "number"

def Kind.tag : Kind → String
  | leftParen => "LeftParen"
  | rightParen => "RightParen"
  | name => "Name"
  | number => "Number"

def stop (t : Token) : Nat := t.loc + t.text.utf8ByteSize

def stopOf (ts : List Token) : Nat := (ts.getLast?.map stop).getD 0

def IsWord (cs : List Char) : Prop := cs ≠ [] ∧ ∀ c ∈ cs, c.isAlpha

def IsDigits (cs : List Char) : Prop := cs ≠ [] ∧ ∀ c ∈ cs, c.isDigit

/-- The texts of a kind: each parenthesis is itself, a name is a word or, where the grammar has
    them, one operator, and a number is a run of digits or, where the grammar has them, two runs
    with a point between. -/
def Kind.Fits (g : Grammar) : Kind → List Char → Prop
  | leftParen, cs => cs = ['(']
  | rightParen, cs => cs = [')']
  | name, cs => IsWord cs ∨ (g.allowsOperators ∧ ∃ c, isOperator c ∧ cs = [c])
  | number, cs =>
    IsDigits cs ∨
      (g.allowsDecimals ∧ ∃ whole part, IsDigits whole ∧ IsDigits part ∧ cs = whole ++ '.' :: part)

end Token

end PrefixCalls
