import Mathlib
import PrefixCalls.Proofs.Arguments
import PrefixCalls.Proofs.Stages

/-!
What goes where. The exit status tells whether the expression compiles, whatever else is asked for.
The first channel has the output or the report, and the second has the snapshots of a success in the
order asked for, or the display of a failure. So the format does not reach the snapshots, and the
snapshots reach neither the first channel nor a failure.
-/
namespace PrefixCalls.CommandLine

def Format.printed : Format → Except Diagnostic String → String
  | text, .ok output => output ++ "\n"
  | text, .error _ => ""
  | json, result => (Report.ofResult result).line ++ "\n"

def Format.complaint (e : String) : Format → Diagnostic → String
  | text, d => d.render e ++ "\n"
  | json, _ => ""

def Snapshot.shown (ts : List Token) (p : Source.Program) : Snapshot → String
  | tokens => "tokens:\n" ++ (Token.listToJson ts).pretty ++ "\n"
  | sourceTree => "source ast:\n" ++ p.toJson.pretty ++ "\n"
  | targetTree => "target ast:\n" ++ (Target.Program.ofSource p).toJson.pretty ++ "\n"

structure Outcome.Leaves (o : Outcome) (e : String) (g : Grammar) (f : Format)
    (snapshots : List Snapshot) : Prop where
  status : o.status.code = if (compile g e).isOk then 0 else 1
  stdout : o.stdout = f.printed (compile g e)
  shown : ∀ ts p, Token.scan g e = .ok ts → Source.Program.read ts = .ok p →
    o.stderr = String.join (snapshots.map (Snapshot.shown ts p))
  refused : ∀ d, compile g e = .error d → o.stderr = f.complaint e d

theorem Snapshot.listing_eq_shown {g : Grammar} {e : String} {c : Compilation}
    (compiled : Compilation.run g e = .ok c) (s : Snapshot) :
    s.listing c = s.shown c.tokens c.source := by
  obtain ⟨_, _, shaped, _⟩ := Compilation.run_ok_iff.mp compiled
  cases s with
  | tokens => rfl
  | sourceTree => rfl
  | targetTree =>
    have tree := congrArg Target.Program.toJson shaped
    exact congrArg (fun v => "target ast:\n" ++ Json.pretty v ++ "\n") tree

theorem Request.answer_of_compiled {r : Request} {c : Compilation}
    (compiled : Compilation.run r.grammar r.expression = .ok c) :
    r.answer = ⟨.success, r.format.printed (.ok c.output),
      String.join (r.snapshots.map (Snapshot.shown c.tokens c.source))⟩ := by
  have listings : r.snapshots.map (Snapshot.listing c) =
      r.snapshots.map (Snapshot.shown c.tokens c.source) :=
    List.map_congr_left fun s _ => Snapshot.listing_eq_shown compiled s
  unfold answer
  rw [compiled]
  cases format : r.format with
  | text => simp only [Format.printed, listings]
  | json => simp only [Format.printed, listings]

theorem Request.answer_of_refused {r : Request} {d : Diagnostic}
    (refused : Compilation.run r.grammar r.expression = .error d) :
    r.answer = ⟨.failure, r.format.printed (.error d), r.format.complaint r.expression d⟩ := by
  unfold answer
  rw [refused]
  cases format : r.format with
  | text => simp only [Format.printed, Format.complaint]
  | json => simp only [Format.printed, Format.complaint]

theorem Request.answer_leaves (r : Request) :
    r.answer.Leaves r.expression r.grammar r.format r.snapshots := by
  cases result : Compilation.run r.grammar r.expression with
  | ok c =>
    have compiled : compile r.grammar r.expression = .ok c.output :=
      map_eq_ok_iff.mpr ⟨c, result, rfl⟩
    obtain ⟨scanned, parsed, _⟩ := Compilation.run_ok_iff.mp result
    rw [answer_of_compiled result]
    refine ⟨by rw [compiled]; rfl, by rw [compiled], ?_, ?_⟩
    · intro ts p scan read
      rw [scanned] at scan
      cases scan
      rw [parsed] at read
      cases read
      rfl
    · intro d refused
      rw [compiled] at refused
      cases refused
  | error d =>
    have refused : compile r.grammar r.expression = .error d := map_eq_error_iff.mpr result
    rw [answer_of_refused result]
    refine ⟨by rw [refused]; rfl, by rw [refused], ?_, ?_⟩
    · intro ts p scan read
      have compiled := compile_ok_iff.mpr ⟨ts, p, scan, read, rfl⟩
      rw [refused] at compiled
      cases compiled
    · intro other same
      rw [refused] at same
      cases same
      rfl

/-- Every request can be asked for, and leaves in each channel what it is for. So the exit status
    depends on neither format nor snapshots, the first channel not on the snapshots, and the second
    not on the format of a success nor on the snapshots of a failure. -/
theorem channels_do_not_interfere (w : Wording) (e : String) (g : Grammar) :
    (∀ f snapshots, ∃ args, Command.read args = .ok (.compile ⟨e, g, f, snapshots⟩)) ∧
    (∀ f snapshots args, Command.read args = .ok (.compile ⟨e, g, f, snapshots⟩) →
      (w.answer args).Leaves e g f snapshots) ∧
    ∀ f f' snapshots snapshots' args args',
      Command.read args = .ok (.compile ⟨e, g, f, snapshots⟩) →
      Command.read args' = .ok (.compile ⟨e, g, f', snapshots'⟩) →
        (w.answer args).status.code = (w.answer args').status.code ∧
        (f = f' → (w.answer args).stdout = (w.answer args').stdout) ∧
        (∀ output, compile g e = .ok output → snapshots = snapshots' →
          (w.answer args).stderr = (w.answer args').stderr) ∧
        ∀ d, compile g e = .error d → f = f' →
          (w.answer args).stderr = (w.answer args').stderr := by
  have leaves : ∀ f snapshots args, Command.read args = .ok (.compile ⟨e, g, f, snapshots⟩) →
      (w.answer args).Leaves e g f snapshots := by
    intro f snapshots args asked
    rw [w.answer_of_read asked]
    exact Request.answer_leaves ⟨e, g, f, snapshots⟩
  refine ⟨fun f snapshots => Command.exists_read _, leaves, ?_⟩
  intro f f' snapshots snapshots' args args' asked asked'
  have first := leaves f snapshots args asked
  have second := leaves f' snapshots' args' asked'
  refine ⟨?_, ?_, ?_, ?_⟩
  · rw [first.status, second.status]
  · rintro rfl
    rw [first.stdout, second.stdout]
  · rintro output compiled rfl
    obtain ⟨ts, p, scanned, parsed, _⟩ := compile_ok_iff.mp compiled
    rw [first.shown ts p scanned parsed, second.shown ts p scanned parsed]
  · rintro d refused rfl
    rw [first.refused d refused, second.refused d refused]

theorem channels_do_not_interfere_closed_or_not :
    (Command.read ["(f 1", "--emit=tokens"] =
      .ok (.compile ⟨"(f 1", .extended, .text, [.tokens]⟩) ∧
    (answer ["(f 1", "--emit=tokens"]).status.code = 1 ∧
    (answer ["(f 1", "--emit=tokens"]).stderr =
      "'(f 1'\n     ^ expected \")\", but reached end of input at offset 4\n") ∧
    Command.read ["(f 1)", "--emit=tokens"] =
      .ok (.compile ⟨"(f 1)", .extended, .text, [.tokens]⟩) ∧
    Command.read ["--format", "json", "--emit", "tokens", "(f 1)"] =
      .ok (.compile ⟨"(f 1)", .extended, .json, [.tokens]⟩) ∧
    (answer ["(f 1)", "--emit=tokens"]).stderr =
      (answer ["--format", "json", "--emit", "tokens", "(f 1)"]).stderr := by
  refine ⟨?_, ?_⟩
  · have asked : Command.read ["(f 1", "--emit=tokens"] =
        .ok (.compile ⟨"(f 1", .extended, .text, [.tokens]⟩) := by decide
    have refused : compile .extended "(f 1" = .error (.unexpectedEnd .closingParen 4) := by cbv
    have leaves := (channels_do_not_interfere .brief "(f 1" .extended).2.1 _ _ _ asked
    refine ⟨asked, ?_, ?_⟩
    · exact leaves.status.trans (by rw [refused]; rfl)
    · exact (leaves.refused _ refused).trans rfl
  · have asked : Command.read ["(f 1)", "--emit=tokens"] =
        .ok (.compile ⟨"(f 1)", .extended, .text, [.tokens]⟩) := by decide
    have other : Command.read ["--format", "json", "--emit", "tokens", "(f 1)"] =
        .ok (.compile ⟨"(f 1)", .extended, .json, [.tokens]⟩) := by decide
    have compiled : compile .extended "(f 1)" = .ok "f(1);" := by cbv
    obtain ⟨_, _, same, _⟩ :=
      (channels_do_not_interfere .brief "(f 1)" .extended).2.2 _ _ _ _ _ _ asked other
    exact ⟨asked, other, same _ compiled rfl⟩

end PrefixCalls.CommandLine
