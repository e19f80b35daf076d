import PrefixCalls.Compilation
import PrefixCalls.Proofs.Nesting
import PrefixCalls.Proofs.Results
import PrefixCalls.Proofs.Tiling
import PrefixCalls.Source.Basic

/-!
The stages of compilation in one equation. What is shaped from a source program is never refused by
the writer, and its text is the code of the program, so scanning and reading alone decide.
-/
namespace PrefixCalls

namespace Target

mutual

theorem Node.write_ofExpr (e : Source.Expr) : Node.write (Node.ofExpr e) = .ok e.code := by
  match e with
  | .number text => rfl
  | .call name args =>
    have inner := Node.writeAll_ofExprs args
    simp only [Node.ofExpr, Node.write, inner, Source.Expr.code]

theorem Node.writeAll_ofExprs (es : List Source.Expr) :
    Node.writeAll (Node.ofExprs es) = .ok (Source.Expr.codes es) := by
  match es with
  | [] => rfl
  | e :: es =>
    have first := Node.write_ofExpr e
    have others := Node.writeAll_ofExprs es
    simp only [Node.ofExprs, Node.writeAll, first, others, Source.Expr.codes, Except.map]

end

theorem Node.writeTop_ofTop (e : Source.Expr) : Node.writeTop (Node.ofTop e) = .ok e.topCode := by
  cases e with
  | number text => rfl
  | call name args =>
    have inner := Node.write_ofExpr (.call name args)
    simp only [Node.ofExpr] at inner
    simp only [Node.ofTop, Node.ofExpr, Node.writeTop, inner, Source.Expr.topCode, Except.map]

theorem Node.writeTops_ofTop (es : List Source.Expr) :
    Node.writeTops (es.map Node.ofTop) = .ok (es.map Source.Expr.topCode) := by
  induction es with
  | nil => rfl
  | cons e es ih =>
    simp only [List.map_cons, Node.writeTops, Node.writeTop_ofTop, ih, Except.map]

theorem Program.write_ofSource (p : Source.Program) : (Program.ofSource p).write = .ok p.code := by
  rw [Program.write, Program.ofSource, Node.writeTops_ofTop]
  rfl

end Target

theorem Compilation.run_eq_stages (g : Grammar) (input : String) :
    Compilation.run g input = (Token.scan g input).bind fun ts =>
      (Source.Program.read ts).map fun p => ⟨ts, p, Target.Program.ofSource p, p.code⟩ := by
  unfold Compilation.run Run.start
  cases Token.scan g input with
  | error d => rfl
  | ok ts =>
    simp only [Run.after, Run.read, Except.bind]
    cases Source.Program.read ts with
    | error d => rfl
    | ok p => simp only [Run.write, Target.Program.write_ofSource, Except.map]

theorem Compilation.run_ok_iff {g : Grammar} {input : String} {c : Compilation} :
    Compilation.run g input = .ok c ↔ Token.scan g input = .ok c.tokens ∧
      Source.Program.read c.tokens = .ok c.source ∧
      c.target = Target.Program.ofSource c.source ∧ c.output = c.source.code := by
  rw [run_eq_stages, bind_eq_ok_iff]
  constructor
  · rintro ⟨ts, scanned, read⟩
    obtain ⟨p, parsed, rfl⟩ := map_eq_ok_iff.mp read
    exact ⟨scanned, parsed, rfl, rfl⟩
  · rintro ⟨scanned, parsed, shaped, written⟩
    refine ⟨c.tokens, scanned, map_eq_ok_iff.mpr ⟨c.source, parsed, ?_⟩⟩
    rw [← shaped, ← written]

theorem compile_eq_stages (g : Grammar) (input : String) :
    compile g input =
      (Token.scan g input).bind fun ts => (Source.Program.read ts).map Source.Program.code := by
  rw [compile, Compilation.run_eq_stages]
  cases Token.scan g input with
  | error d => rfl
  | ok ts => cases read : Source.Program.read ts <;> simp [Except.bind, Except.map, read]

theorem compile_ok_iff {g : Grammar} {input output : String} :
    compile g input = .ok output ↔ ∃ ts p, Token.scan g input = .ok ts ∧
      Source.Program.read ts = .ok p ∧ p.code = output := by
  simp only [compile_eq_stages, bind_eq_ok_iff, map_eq_ok_iff, exists_and_left]

theorem Compilation.run_error_iff {g : Grammar} {input : String} {d : Diagnostic} :
    Compilation.run g input = .error d ↔ Token.scan g input = .error d ∨
      ∃ ts, Token.scan g input = .ok ts ∧ Source.Program.read ts = .error d := by
  simp only [run_eq_stages, bind_eq_error_iff, map_eq_error_iff]

theorem compile_error_iff {g : Grammar} {input : String} {d : Diagnostic} :
    compile g input = .error d ↔ Token.scan g input = .error d ∨
      ∃ ts, Token.scan g input = .ok ts ∧ Source.Program.read ts = .error d := by
  rw [compile, map_eq_error_iff, Compilation.run_error_iff]

theorem stage_of_refused {g : Grammar} {input : String} {d : Diagnostic}
    (refused : compile g input = .error d) : d.stage = .lex ∨ d.stage = .parse := by
  rcases compile_error_iff.mp refused with lexical | ⟨ts, _, unread⟩
  · exact .inl (Token.scanFrom_refused lexical)
  · exact .inr (Source.Program.read_refused unread)

/-- Every source program, shaped and written, gives its code, whatever its names and numbers are.
    So no compilation is refused by the writer. -/
theorem shaped_always_written :
    (∀ p : Source.Program, (Target.Program.ofSource p).write = .ok p.code) ∧
    ∀ g input d, compile g input = .error d → d.stage ≠ .generate := by
  refine ⟨Target.Program.write_ofSource, ?_⟩
  intro g input d refused generate
  rcases stage_of_refused refused with stage | stage
  · rw [generate] at stage
    cases stage
  · rw [generate] at stage
    cases stage

end PrefixCalls
