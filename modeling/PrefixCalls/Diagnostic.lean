import PrefixCalls.Text
import PrefixCalls.Token.Basic

/-!
Why a text was refused. A diagnostic is a cause; its message, stage, offset and the display with a
caret are functions of it.
-/
namespace PrefixCalls

inductive Stage where
  | lex
  | parse
  | generate
  deriving DecidableEq, Repr

def Stage.name : Stage → String
  | lex => "lex"
  | parse => "parse"
  | generate => "generate"

inductive Expected where
  | expression
  | name
  | closingParen
  deriving DecidableEq, Repr

def Expected.describe : Expected → String
  | expression => "a number or \"(\""
  | name => "a call name"
  | closingParen => "\")\""

inductive Diagnostic where
  | invalidCharacter (character : Char) (position : Nat)
  | unexpectedToken (expected : Expected) (token : Token)
  /-- The tokens ran out inside a call; the offset is the end of the last one. -/
  | unexpectedEnd (expected : Expected) (position : Nat)
  /-- A statement below the top level of a tree, with words for what holds it. -/
  | nestedStatement (within : String)
  deriving DecidableEq, Repr

namespace Diagnostic

def stage : Diagnostic → Stage
  | invalidCharacter _ _ => .lex
  | unexpectedToken _ _ => .parse
  | unexpectedEnd _ _ => .parse
  | nestedStatement _ => .generate

def position? : Diagnostic → Option Nat
  | invalidCharacter _ position => some position
  | unexpectedToken _ token => some token.loc
  | unexpectedEnd _ position => some position
  | nestedStatement _ => none

def message : Diagnostic → String
  | invalidCharacter c position =>
    "invalid character '" ++ String.singleton c ++ "' at offset " ++ toString position
  | unexpectedToken expected token =>
    "expected " ++ expected.describe ++ ", but got " ++ token.kind.describe ++ " \"" ++ token.text
      ++ "\" at offset " ++ toString token.loc
  | unexpectedEnd expected position =>
    "expected " ++ expected.describe ++ ", but reached end of input at offset " ++ toString position
  | nestedStatement within =>
    "internal error: expression statement nested inside " ++ within

/-- The input in quotes with a caret and the message on the next line. The caret stands one column
    further than the offset's column, because of the opening quote. -/
def render (source : String) (d : Diagnostic) : String :=
  match d.position? with
  | none => d.message
  | some position =>
    "'" ++ source ++ "'\n"
      ++ String.ofList (List.replicate (Text.column position source.toList + 1) ' ')
      ++ "^ " ++ d.message

end Diagnostic

end PrefixCalls
