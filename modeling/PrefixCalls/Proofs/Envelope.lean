import Mathlib
import PrefixCalls.Json.Encode
import PrefixCalls.Proofs.JsonRoundTrip
import PrefixCalls.Proofs.Messages

/-!
The report of a result is one line, whatever characters the output or the message has, and a JSON
reader finds in it the output, or the message and the stage. So the line tells the result.
-/
namespace PrefixCalls

namespace Json

def Printable (cs : List Char) : Prop := ∀ c ∈ cs, 0x20 ≤ c.toNat

@[simp] theorem printable_nil : Printable [] := by simp [Printable]

@[simp] theorem printable_cons (c : Char) (cs : List Char) :
    Printable (c :: cs) ↔ 0x20 ≤ c.toNat ∧ Printable cs := by
  simp [Printable]

@[simp] theorem printable_append (cs ds : List Char) :
    Printable (cs ++ ds) ↔ Printable cs ∧ Printable ds := by
  simp [Printable, or_imp, forall_and]

theorem printable_intercalate {sep : List Char} {texts : List (List Char)}
    (between : Printable sep) (each : ∀ text ∈ texts, Printable text) :
    Printable (sep.intercalate texts) := by
  induction texts with
  | nil => simp
  | cons text texts ih =>
    obtain ⟨first, others⟩ := List.forall_mem_cons.mp each
    cases texts with
    | nil => simpa using first
    | cons next texts =>
      rw [List.intercalate_cons_cons, printable_append, printable_append]
      exact ⟨⟨first, between⟩, ih others⟩

theorem printable_escape (c : Char) : Printable (escape c) := by
  rcases Reader.escape_cases c with ⟨e, short, shape⟩ | ⟨low, shape⟩ | ⟨_, _, high, shape⟩
  · have letter : 0x20 ≤ e.toNat := by
      unfold Reader.unescape? at short
      split at short
      case h_9 => cases short
      all_goals decide
    simp [shape, letter]
  · have digit : ∀ d < 16, 0x20 ≤ (Nat.digitChar d).toNat := by decide
    have first := digit (c.toNat / 16) (by omega)
    have second := digit (c.toNat % 16) (by omega)
    simp [shape, first, second]
  · simp [shape, high]

theorem printable_quote (s : String) : Printable (quote s).toList := by
  have inner : Printable (s.toList.flatMap escape) := by
    intro d member
    obtain ⟨c, _, escaped⟩ := List.mem_flatMap.mp member
    exact printable_escape c d escaped
  rw [toList_quote]
  simp [inner]

theorem printable_toString (n : Nat) : Printable (toString n).toList := by
  intro c member
  rw [Nat.toString_eq_repr, Nat.toList_repr] at member
  have digit := isDigit_of_toDigits member
  simp only [Char.isDigit, Bool.and_eq_true, decide_eq_true_eq, UInt32.le_iff_toNat_le, ge_iff_le]
    at digit
  exact Nat.le_trans (by decide) digit.1

theorem printable_compact (v : Json) : Printable v.compact.toList := by
  have comma : Printable [','] := by simp
  induction v using induction_parts with
  | text s => exact printable_quote s
  | count n => exact printable_toString n
  | array vs ih =>
    have inner := printable_intercalate comma (List.forall_mem_map.mpr ih)
    rw [toList_compact_array]
    simp [inner]
  | object ms ih =>
    have each : ∀ m ∈ ms, Printable ((quote m.1).toList ++ ':' :: m.2.compact.toList) := by
      intro m member
      simp [printable_quote, ih m member]
    have inner := printable_intercalate comma (List.forall_mem_map.mpr each)
    rw [toList_compact_object]
    simp [inner]

end Json

namespace Report

theorem read?_success (output : String) :
    Json.read? (ofResult (.ok output)).line = some (.object [("output", .text output)]) :=
  Json.read?_compact _

theorem read?_failure (d : Diagnostic) :
    Json.read? (ofResult (.error d)).line =
      some (.object [("error", .text d.message), ("stage", .text (match d.stage with
        | .lex => "lex"
        | .parse => "parse"
        | .generate => "generate"))]) := by
  have read := Json.read?_compact (ofResult (.error d)).toJson
  cases d <;> exact read

theorem eq_of_line {r s : Except Diagnostic String}
    (same : (ofResult r).line = (ofResult s).line) : r = s := by
  have read := congrArg Json.read? same
  cases r with
  | ok output =>
    cases s with
    | ok other =>
      rw [read?_success, read?_success] at read
      cases read
      rfl
    | error e =>
      rw [read?_success, read?_failure] at read
      simp at read
  | error d =>
    cases s with
    | ok other =>
      rw [read?_success, read?_failure] at read
      simp at read
    | error e =>
      rw [read?_failure, read?_failure] at read
      have message : d.message = e.message := by
        simp only [Option.some.injEq, Json.Value.object.injEq, List.cons.injEq, Prod.mk.injEq,
          Json.Value.text.injEq] at read
        exact read.1.2
      rw [Diagnostic.eq_of_message message]

end Report

/-- The report of a result has no control characters, so it is one line. A JSON reader finds in it
    the output of a success, or the message and the stage of a failure, and nothing else. Results
    with one report are the same. -/
theorem report_faithful :
    (∀ r, ∀ c ∈ (Report.ofResult r).line.toList, 0x20 ≤ c.toNat) ∧
    (∀ output, Json.read? (Report.ofResult (.ok output)).line =
      some (.object [("output", .text output)])) ∧
    (∀ d, Json.read? (Report.ofResult (.error d)).line =
      some (.object [("error", .text d.message), ("stage", .text (match d.stage with
        | .lex => "lex"
        | .parse => "parse"
        | .generate => "generate"))])) ∧
    ∀ r s, (Report.ofResult r).line = (Report.ofResult s).line ↔ r = s := by
  refine ⟨?_, Report.read?_success, Report.read?_failure, ?_⟩
  · intro r
    exact Json.printable_compact (Report.ofResult r).toJson
  · intro r s
    exact ⟨Report.eq_of_line, congrArg fun t => (Report.ofResult t).line⟩

theorem report_faithful_of_control_character :
    '\\' ∈ (Report.ofResult (.error (.invalidCharacter '\x07' 3))).line.toList ∧
      0x20 ≤ '\\'.toNat ∧
      Json.read? (Report.ofResult (.error (.invalidCharacter '\x07' 3))).line =
        some (.object [("error", .text "invalid character '\x07' at offset 3"),
          ("stage", .text "lex")]) := by
  have escaped : '\\' ∈ (Report.ofResult (.error (.invalidCharacter '\x07' 3))).line.toList := by
    decide
  exact ⟨escaped, report_faithful.1 _ _ escaped, report_faithful.2.2.1 _⟩

end PrefixCalls
