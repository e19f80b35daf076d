import Mathlib
import PrefixCalls.Proofs.Legality
import PrefixCalls.Proofs.Stages

/-!
What the log of a run tells. A run leaves one of three sequences of records behind the opening of its
span, one for each way it can go: the text is refused, the tokens are refused, or all stages are
passed. Counts and errors in the records are those of what the run returns.
-/
namespace PrefixCalls

open Text Token Source

namespace Record

def opening (g : Grammar) (input : String) : Record :=
  let grammar := match g with
    | .basic => "basic"
    | .extended => "extended"
  ⟨.info, some "compile", [("len", toString input.utf8ByteSize), ("grammar", grammar)]⟩

def passed (message field : String) (count : Nat) : Record :=
  ⟨.debug, none, [("message", message), (field, toString count)]⟩

def failed (stage : String) (d : Diagnostic) : Record :=
  ⟨.debug, none, [("message", "compilation failed"), ("stage", stage), ("error", d.message)]⟩

end Record

/-- A result with the records that a run with this result leaves. The expressions of the source
    program are those that the grammar derives from the tokens. -/
inductive Logged (g : Grammar) (input : String) :
    Except Diagnostic Compilation → List Record → Prop where
  | unscanned {d : Diagnostic} (refused : scan g input = .error d) (stage : d.stage = .lex) :
      Logged g input (.error d) [.opening g input, .failed "lex" d]
  | unread {ts : List Token} {d : Diagnostic} (scanned : scan g input = .ok ts)
      (refused : Program.read ts = .error d) (stage : d.stage = .parse) :
      Logged g input (.error d)
        [.opening g input, .passed "tokenized" "count" ts.length, .failed "parse" d]
  | compiled {c : Compilation} (scanned : scan g input = .ok c.tokens)
      (derived : Program.Derives c.tokens c.source)
      (shaped : c.target = Target.Program.ofSource c.source)
      (written : c.target.write = .ok c.output) :
      Logged g input (.ok c)
        [.opening g input, .passed "tokenized" "count" c.tokens.length,
          .passed "parsed" "statements" c.source.body.length,
          .passed "transformed" "statements" c.source.body.length,
          .passed "generated" "bytes" c.output.utf8ByteSize]

namespace Run

variable {g : Grammar} {input : String} {ts : List Token} {d : Diagnostic}

theorem start_unscanned (refused : scan g input = .error d) : start g input = fail d := by
  rw [start, refused]

theorem start_unread (scanned : scan g input = .ok ts) (refused : Program.read ts = .error d) :
    start g input = after (.tokenized ts.length) (fail d) := by
  simp only [start, scanned, read, refused]

theorem start_compiled {p : Program} (scanned : scan g input = .ok ts)
    (parsed : Program.read ts = .ok p) :
    start g input = ⟨[.tokenized ts.length, .parsed p.body.length, .transformed p.body.length,
      .generated p.code.utf8ByteSize], .ok ⟨ts, p, Target.Program.ofSource p, p.code⟩⟩ := by
  simp only [start, scanned, read, parsed, write, Target.Program.write_ofSource, after,
    Target.Program.length_ofSource]

end Run

theorem Compilation.trace_eq (g : Grammar) (input : String) :
    trace g input = .opening g input :: (Run.start g input).events.map Event.record := by
  cases g <;> rfl

theorem Event.record_failed {d : Diagnostic} {stage : Stage} (refused : d.stage = stage) :
    (Event.failed d).record = .failed stage.name d := by
  rw [← refused]
  rfl

theorem Logged.eq_run {g : Grammar} {input : String} {result : Except Diagnostic Compilation}
    {records : List Record} (logged : Logged g input result records) :
    result = Compilation.run g input ∧ records = Compilation.trace g input := by
  rw [Compilation.run, Compilation.trace_eq]
  cases logged with
  | unscanned refused stage =>
    rw [Run.start_unscanned refused]
    exact ⟨rfl, by simp [Run.fail, Event.record_failed stage, Stage.name]⟩
  | unread scanned refused stage =>
    rw [Run.start_unread scanned refused]
    exact ⟨rfl, by simp [Run.after, Run.fail, Event.record_failed stage, Stage.name]; rfl⟩
  | @compiled c scanned derived shaped written =>
    obtain ⟨tokens, source, target, output⟩ := c
    dsimp only at shaped written
    subst shaped
    -- The written text is the code of the program, which is what the run returns.
    rw [Target.Program.write_ofSource] at written
    cases written
    rw [Run.start_compiled scanned (Program.read_derived derived)]
    exact ⟨rfl, rfl⟩

theorem logged_run (g : Grammar) (input : String) :
    Logged g input (Compilation.run g input) (Compilation.trace g input) := by
  have logged : ∃ result records, Logged g input result records := by
    cases scanned : scan g input with
    | error d => exact ⟨_, _, .unscanned scanned (scanFrom_refused scanned)⟩
    | ok ts =>
      cases parsed : Program.read ts with
      | error d => exact ⟨_, _, .unread scanned parsed (Program.read_refused parsed)⟩
      | ok p =>
        have written := Target.Program.write_ofSource p
        exact ⟨_, _, .compiled (c := ⟨ts, p, _, p.code⟩) scanned (Program.read_sound parsed) rfl
          written⟩
  obtain ⟨result, records, logged⟩ := logged
  obtain ⟨rfl, rfl⟩ := logged.eq_run
  exact logged

/-- A run returns a result and leaves the records that go with it, and no others. An illegal
    character anywhere in the input is what the run reports, at the first one, whatever the tokens in
    front of it are. -/
theorem trace_tells_result (g : Grammar) (input : String) :
    (∀ result records, Logged g input result records ↔
      result = Compilation.run g input ∧ records = Compilation.trace g input) ∧
    ∀ before c after, input.toList = before ++ c :: after → ¬ Legal g before c after →
      ∃ left d right, FirstIllegal g input.toList left d right ∧
        Compilation.run g input = .error (.invalidCharacter d (byteSize left)) ∧
        Compilation.trace g input =
          [.opening g input, .failed "lex" (.invalidCharacter d (byteSize left))] := by
  refine ⟨fun result records => ⟨Logged.eq_run, ?_⟩, ?_⟩
  · rintro ⟨rfl, rfl⟩
    exact logged_run g input
  · intro before c after split illegal
    obtain ⟨e, refused⟩ := refused_of_illegal split illegal
    obtain ⟨left, d, right, first, rfl, _⟩ := firstIllegal_of_refused refused
    obtain ⟨result, records⟩ := Logged.eq_run (.unscanned refused rfl)
    exact ⟨left, d, right, first, result.symm, records.symm⟩

theorem trace_tells_character_behind_number :
    ¬ Legal .basic "(1 ".toList '@' [')'] ∧
      ∃ left d right, FirstIllegal .basic "(1 @)".toList left d right ∧
        Compilation.run .basic "(1 @)" = .error (.invalidCharacter d (byteSize left)) ∧
        Compilation.trace .basic "(1 @)" =
          [.opening .basic "(1 @)", .failed "lex" (.invalidCharacter d (byteSize left))] := by
  have illegal : ¬ Legal .basic "(1 ".toList '@' [')'] := by
    simp [Legal, isBlank, Grammar.allowsOperators, Grammar.allowsDecimals]
  exact ⟨illegal, (trace_tells_result .basic "(1 @)").2 _ _ _ rfl illegal⟩

end PrefixCalls
