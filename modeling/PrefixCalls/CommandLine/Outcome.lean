import PrefixCalls.CommandLine.Command
import PrefixCalls.Json.Encode

/-!
What a run of the command line leaves: a status and the texts of the two output channels.
-/
namespace PrefixCalls.CommandLine

inductive Status where
  | success
  | failure
  | usage
  deriving DecidableEq, Repr

def Status.code : Status → Nat
  | success => 0
  | failure => 1
  | usage => 2

structure Outcome where
  status : Status
  stdout : String
  stderr : String
  deriving DecidableEq, Repr

def Request.answer (r : Request) : Outcome :=
  match Compilation.run r.grammar r.expression with
  | .ok c =>
    let shown := String.join (r.snapshots.map (Snapshot.listing c))
    match r.format with
    | .text => ⟨.success, c.output ++ "\n", shown⟩
    | .json => ⟨.success, (Report.ofResult (.ok c.output)).line ++ "\n", shown⟩
  | .error d =>
    match r.format with
    | .text => ⟨.failure, "", d.render r.expression ++ "\n"⟩
    | .json => ⟨.failure, (Report.ofResult (.error d)).line ++ "\n", ""⟩

def versionText : String := "sexpc 0.1.0\n"

/-- What is said of the options themselves: the help, and a complaint about arguments at fault. No
    compilation depends on these words, so they are left open. -/
structure Wording where
  help : String
  complaint : UsageError → String

def Wording.answer (w : Wording) (args : List String) : Outcome :=
  match Command.read args with
  | .error e => ⟨.usage, "", w.complaint e⟩
  | .ok .version => ⟨.success, versionText, ""⟩
  | .ok .help => ⟨.success, w.help, ""⟩
  | .ok (.compile r) => r.answer

def synopsis : String :=
  "sexpc <EXPR> [--grammar basic|extended] [--format text|json]"
    ++ " [--emit tokens|source-ast|target-ast]...\n"

def Wording.brief : Wording := ⟨synopsis, fun _ => synopsis⟩

def answer (args : List String) : Outcome := Wording.brief.answer args

end PrefixCalls.CommandLine
