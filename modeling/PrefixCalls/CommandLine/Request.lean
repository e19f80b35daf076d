import PrefixCalls.Compilation
import PrefixCalls.Json.Encode

/-!
What the command line can ask of a compilation: a grammar, a format for the result, and snapshots
of what the stages made.
-/
namespace PrefixCalls.CommandLine

inductive Format where
  | text
  | json
  deriving DecidableEq, Repr

def Format.ofName? (s : String) : Option Format :=
  if s = "text" then some .text else if s = "json" then some .json else none

inductive Snapshot where
  | tokens
  | sourceTree
  | targetTree
  deriving DecidableEq, Repr

namespace Snapshot

def ofName? (s : String) : Option Snapshot :=
  if s = "tokens" then some tokens
  else if s = "source-ast" then some sourceTree
  else if s = "target-ast" then some targetTree
  else none

def label : Snapshot → String
  | tokens => "tokens:"
  | sourceTree => "source ast:"
  | targetTree => "target ast:"

def toJson (c : Compilation) : Snapshot → Json
  | tokens => Token.listToJson c.tokens
  | sourceTree => c.source.toJson
  | targetTree => c.target.toJson

def listing (c : Compilation) (s : Snapshot) : String :=
  s.label ++ "\n" ++ (s.toJson c).pretty ++ "\n"

end Snapshot

structure Request where
  expression : String
  grammar : Grammar
  format : Format
  snapshots : List Snapshot
  deriving DecidableEq, Repr

end PrefixCalls.CommandLine
