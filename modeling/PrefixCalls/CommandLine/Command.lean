import PrefixCalls.CommandLine.Request

/-!
From arguments to a command. Arguments are taken from left to right, and the first that is at fault
or asks for the version or the help decides. A missing expression is noticed at the end.
-/
namespace PrefixCalls.CommandLine

inductive Command where
  | compile (request : Request)
  | version
  | help
  deriving DecidableEq, Repr

inductive UsageError where
  | unknownOption (argument : String)
  | missingValue (option : String)
  | invalidValue (option value : String)
  | unexpectedValue (option : String)
  | repeatedOption (option : String)
  | extraArgument (argument : String)
  | missingExpression
  deriving DecidableEq, Repr

structure Draft where
  expression : Option String
  grammar : Option Grammar
  format : Option Format
  snapshots : List Snapshot
  deriving DecidableEq, Repr

namespace Draft

def empty : Draft := ⟨none, none, none, []⟩

def setExpression (d : Draft) (s : String) : Except UsageError Draft :=
  match d.expression with
  | some _ => .error (.extraArgument s)
  | none => .ok { d with expression := some s }

def finish (d : Draft) : Except UsageError Command :=
  match d.expression with
  | none => .error .missingExpression
  | some expression =>
    .ok (.compile ⟨expression, d.grammar.getD .extended, d.format.getD .text, d.snapshots⟩)

end Draft

inductive Argument where
  | positional (text : String)
  | terminator
  | long (name : String) (value : Option String)
  | short (letters : List Char)
  deriving DecidableEq, Repr

/-- Two dashes alone end the options; two dashes and more are a long option, whose value may follow
    an equals sign; one dash and more are short options. Anything else is positional, also a dash
    alone and the empty text. -/
def Argument.ofString (s : String) : Argument :=
  match s.toList with
  | ['-', '-'] => terminator
  | '-' :: '-' :: cs =>
    match cs.dropWhile (· != '=') with
    | _ :: value => long (String.ofList (cs.takeWhile (· != '='))) (some (String.ofList value))
    | [] => long (String.ofList cs) none
  | '-' :: c :: cs => short (c :: cs)
  | _ => positional s

inductive Setting where
  | grammar
  | format
  | snapshot
  deriving DecidableEq, Repr

namespace Setting

def name : Setting → String
  | grammar => "grammar"
  | format => "format"
  | snapshot => "emit"

def ofName? (s : String) : Option Setting :=
  if s = "grammar" then some grammar
  else if s = "format" then some format
  else if s = "emit" then some snapshot
  else none

end Setting

def Draft.set (d : Draft) (o : Setting) (value : String) : Except UsageError Draft :=
  match o with
  | .grammar =>
    match Grammar.ofName value, d.grammar with
    | .error _, _ => .error (.invalidValue o.name value)
    | .ok _, some _ => .error (.repeatedOption o.name)
    | .ok g, none => .ok { d with grammar := some g }
  | .format =>
    match Format.ofName? value, d.format with
    | none, _ => .error (.invalidValue o.name value)
    | some _, some _ => .error (.repeatedOption o.name)
    | some f, none => .ok { d with format := some f }
  | .snapshot =>
    match Snapshot.ofName? value with
    | none => .error (.invalidValue o.name value)
    | some s => .ok { d with snapshots := d.snapshots ++ [s] }

namespace Command

def ofLong (name : String) (value : Option String) : Except UsageError Command :=
  if name = "version" then if value.isSome then .error (.unexpectedValue name) else .ok version
  else if name = "help" then if value.isSome then .error (.unexpectedValue name) else .ok help
  else .error (.unknownOption ("--" ++ name))

/-- Short options may be joined; the first of them decides. -/
def ofShort : List Char → Except UsageError Command
  | 'V' :: _ => .ok version
  | 'h' :: _ => .ok help
  | cs => .error (.unknownOption (String.ofList ('-' :: cs)))

def readPositionals (d : Draft) : List String → Except UsageError Command
  | [] => d.finish
  | a :: as =>
    match d.setExpression a with
    | .error e => .error e
    | .ok d => readPositionals d as

def readFrom (d : Draft) : List String → Except UsageError Command
  | [] => d.finish
  | a :: as =>
    match Argument.ofString a with
    | .positional s =>
      match d.setExpression s with
      | .error e => .error e
      | .ok d => readFrom d as
    | .terminator => readPositionals d as
    | .short letters => ofShort letters
    | .long name value =>
      match Setting.ofName? name, value with
      | none, value => ofLong name value
      | some o, some v =>
        match d.set o v with
        | .error e => .error e
        | .ok d => readFrom d as
      | some o, none =>
        match as with
        | [] => .error (.missingValue o.name)
        | v :: as =>
          match Argument.ofString v with
          | .positional v =>
            match d.set o v with
            | .error e => .error e
            | .ok d => readFrom d as
          | _ => .error (.missingValue o.name)

def read (args : List String) : Except UsageError Command := readFrom .empty args

end Command

end PrefixCalls.CommandLine
