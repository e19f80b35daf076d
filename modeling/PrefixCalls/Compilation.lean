import PrefixCalls.Source.Read
import PrefixCalls.Target.Basic
import PrefixCalls.Target.Write
import PrefixCalls.Token.Scan

/-!
Compilation from text to text, with what each stage made and a record of the stages passed.
-/
namespace PrefixCalls

structure Compilation where
  tokens : List Token
  source : Source.Program
  target : Target.Program
  output : String
  deriving Repr

inductive Event where
  | tokenized (count : Nat)
  | parsed (statements : Nat)
  | transformed (statements : Nat)
  | generated (bytes : Nat)
  | failed (diagnostic : Diagnostic)
  deriving DecidableEq, Repr

namespace Event

def title : Event → String
  | tokenized _ => "tokenized"
  | parsed _ => "parsed"
  | transformed _ => "transformed"
  | generated _ => "generated"
  | failed _ => "compilation failed"

def fields : Event → List (String × String)
  | tokenized count => [("count", toString count)]
  | parsed statements => [("statements", toString statements)]
  | transformed statements => [("statements", toString statements)]
  | generated bytes => [("bytes", toString bytes)]
  | failed d => [("stage", d.stage.name), ("error", d.message)]

end Event

structure Run where
  events : List Event
  result : Except Diagnostic Compilation

namespace Run

def fail (d : Diagnostic) : Run := ⟨[.failed d], .error d⟩

def after (e : Event) (r : Run) : Run := ⟨e :: r.events, r.result⟩

def write (tokens : List Token) (source : Source.Program) (target : Target.Program) : Run :=
  match target.write with
  | .error d => fail d
  | .ok output => ⟨[.generated output.utf8ByteSize], .ok ⟨tokens, source, target, output⟩⟩

def read (tokens : List Token) : Run :=
  match Source.Program.read tokens with
  | .error d => fail d
  | .ok source =>
    let target := Target.Program.ofSource source
    after (.parsed source.body.length)
      (after (.transformed target.body.length) (write tokens source target))

def start (g : Grammar) (input : String) : Run :=
  match Token.scan g input with
  | .error d => fail d
  | .ok tokens => after (.tokenized tokens.length) (read tokens)

end Run

def Compilation.run (g : Grammar) (input : String) : Except Diagnostic Compilation :=
  (Run.start g input).result

def compile (g : Grammar) (input : String) : Except Diagnostic String :=
  (Compilation.run g input).map Compilation.output

inductive Level where
  | info
  | debug
  deriving DecidableEq, Repr

def Level.name : Level → String
  | info => "INFO"
  | debug => "DEBUG"

/-- A log record: the opening of a named span, or an event when it has no name. -/
structure Record where
  level : Level
  span : Option String
  fields : List (String × String)
  deriving DecidableEq, Repr

def Event.record (e : Event) : Record := ⟨.debug, none, ("message", e.title) :: e.fields⟩

def Compilation.trace (g : Grammar) (input : String) : List Record :=
  ⟨.info, some "compile", [("len", toString input.utf8ByteSize), ("grammar", g.name)]⟩
    :: (Run.start g input).events.map Event.record

end PrefixCalls
