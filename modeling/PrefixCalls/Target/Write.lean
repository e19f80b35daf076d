import PrefixCalls.Diagnostic
import PrefixCalls.Target.Basic

/-!
Target programs as text, one entry a line. A statement ends with a semicolon and may stand at the
top only; the first one found elsewhere, from left to right, is refused.
-/
namespace PrefixCalls.Target

mutual

def Node.write : Node → Except Diagnostic String
  | .statement _ => .error (.nestedStatement "a call argument")
  | .call callee arguments =>
    match Node.writeAll arguments with
    | .error e => .error e
    | .ok texts => .ok (callee ++ "(" ++ ", ".intercalate texts ++ ")")
  | .identifier name => .ok name
  | .number text => .ok text

def Node.writeAll : List Node → Except Diagnostic (List String)
  | [] => .ok []
  | n :: ns =>
    match Node.write n with
    | .error e => .error e
    | .ok text => (Node.writeAll ns).map (text :: ·)

end

def Node.writeTop : Node → Except Diagnostic String
  | .statement (.statement _) => .error (.nestedStatement "another expression statement")
  | .statement n => (Node.write n).map (· ++ ";")
  | n => Node.write n

def Node.writeTops : List Node → Except Diagnostic (List String)
  | [] => .ok []
  | n :: ns =>
    match Node.writeTop n with
    | .error e => .error e
    | .ok text => (Node.writeTops ns).map (text :: ·)

def Program.write (p : Program) : Except Diagnostic String :=
  (Node.writeTops p.body).map "\n".intercalate

end PrefixCalls.Target
