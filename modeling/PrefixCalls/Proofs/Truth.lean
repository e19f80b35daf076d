import Mathlib
import PrefixCalls.Proofs.Nesting
import PrefixCalls.Proofs.Stages
import PrefixCalls.Proofs.Tiling

/-!
What a diagnostic says is so. Its offset cuts the input between two characters, what it names stands
at the cut, and in its display the caret has as many columns in front of it as the cut has
characters, and one for the quote.
-/
namespace PrefixCalls

open Text Token Source

/-- What the diagnostic says of the input, cut in two at its offset: an invalid character comes
    next, or one of the tokens with its text, or nothing but blanks, with no blank in front. -/
def Diagnostic.Describes (g : Grammar) (input before after : String) : Diagnostic → Prop
  | .invalidCharacter c _ => ∃ rest, after = String.singleton c ++ rest
  | .unexpectedToken _ t =>
    (∃ ts, scan g input = .ok ts ∧ t ∈ ts) ∧ ∃ rest, after = t.text ++ rest
  | .unexpectedEnd _ position =>
    0 < position ∧ (∃ c ∈ before.toList.getLast?, isBlank c = false) ∧
      ∀ c ∈ after.toList, isBlank c
  | .nestedStatement _ => False

structure Diagnostic.Holds (g : Grammar) (input before after : String) (d : Diagnostic) : Prop where
  split : input = before ++ after
  place : d.position? = some before.utf8ByteSize
  truth : d.Describes g input before after

theorem holds_of_unscanned {g : Grammar} {input : String} {d : Diagnostic}
    (refused : scan g input = .error d) : ∃ before after, d.Holds g input before after := by
  obtain ⟨_, before, c, after, split, _, _, _, rfl⟩ := tiling_of_refused refused
  refine ⟨String.ofList before, String.ofList (c :: after), ?_, ?_, ?_⟩
  · rw [← String.ofList_append, ← split, String.ofList_toList]
  · simp [Diagnostic.position?, byteSize_eq_utf8ByteSize]
  · refine ⟨String.ofList after, ?_⟩
    rw [String.singleton_eq_ofList, ← String.ofList_append]
    rfl

theorem holds_at_token {g : Grammar} {input : String} {us vs : List Token} {t : Token}
    (expected : Expected) (scanned : scan g input = .ok (us ++ t :: vs)) :
    ∃ before after, (Diagnostic.unexpectedToken expected t).Holds g input before after := by
  obtain ⟨_, before, rest, _, _, whole, size, _⟩ := scan_cut scanned
  rw [String.append_assoc] at whole
  refine ⟨String.ofList before, t.text ++ String.ofList rest, whole, ?_, ?_, ?_⟩
  · rw [Diagnostic.position?, size]
  · exact ⟨us ++ t :: vs, scanned, by simp⟩
  · exact ⟨String.ofList rest, rfl⟩

theorem holds_at_end {g : Grammar} {input : String} {us : List Token} {t : Token}
    (expected : Expected) (scanned : scan g input = .ok (us ++ [t])) :
    ∃ before after, (Diagnostic.unexpectedEnd expected t.stop).Holds g input before after := by
  obtain ⟨x, before, rest, _, text, whole, size, fits, _, right⟩ := scan_cut scanned
  -- The last token is not empty and has no blank, so its last character is the last solid one.
  obtain ⟨_, _, some_char, _⟩ := Lexeme.fits_head fits
  obtain ⟨init, c, last⟩ := (List.eq_nil_or_concat' x.chars).resolve_left (by simp [some_char])
  have solid : isBlank c = false := Lexeme.fits_solid fits c (by simp [last])
  have chars : (String.ofList before ++ t.text).toList = before ++ init ++ [c] := by
    simp [text, last]
  have place : (String.ofList before ++ t.text).utf8ByteSize = t.stop := by
    rw [String.utf8ByteSize_append, size]
    rfl
  refine ⟨String.ofList before ++ t.text, String.ofList rest, whole, ?_, ?_, ?_, ?_⟩
  · rw [Diagnostic.position?, place]
  · have positive := c.utf8Size_pos
    rw [← place, ← byteSize_toList, chars, byteSize_append, byteSize_cons]
    omega
  · exact ⟨c, by simp [chars], solid⟩
  · cases right with
    | nil blank => simpa using blank

theorem refused_at {g : Grammar} {input : String} {d : Diagnostic}
    (refused : compile g input = .error d) :
    scan g input = .error d ∨
    (∃ us t vs expected, scan g input = .ok (us ++ t :: vs) ∧ d = .unexpectedToken expected t) ∨
    ∃ us t expected, scan g input = .ok (us ++ [t]) ∧ d = .unexpectedEnd expected t.stop := by
  rcases compile_error_iff.mp refused with lexical | ⟨ts, scanned, unread⟩
  · exact .inl lexical
  · rcases Program.refused_at unread with
      ⟨us, t, vs, expected, rfl, _, found⟩ | ⟨us, t, expected, rfl, _, ending⟩
    · exact .inr (.inl ⟨us, t, vs, expected, scanned, found⟩)
    · exact .inr (.inr ⟨us, t, expected, scanned, ending⟩)

theorem holds_of_refused {g : Grammar} {input : String} {d : Diagnostic}
    (refused : compile g input = .error d) : ∃ before after, d.Holds g input before after := by
  rcases refused_at refused with
    lexical | ⟨us, t, vs, expected, scanned, rfl⟩ | ⟨us, t, expected, scanned, rfl⟩
  · exact holds_of_unscanned lexical
  · exact holds_at_token expected scanned
  · exact holds_at_end expected scanned

theorem render_holds {g : Grammar} {input before after : String} {d : Diagnostic}
    (holds : d.Holds g input before after) :
    before.utf8ByteSize ≤ input.utf8ByteSize ∧
    column? before.utf8ByteSize input.toList = some before.length ∧
    d.render input = "'" ++ input ++ "'\n" ++
      String.ofList (List.replicate (before.length + 1) ' ') ++ "^ " ++ d.message := by
  have chars : input.toList = before.toList ++ after.toList := by
    rw [holds.split, String.toList_append]
  refine ⟨?_, ?_, ?_⟩
  · rw [holds.split, String.utf8ByteSize_append]
    omega
  · rw [chars, ← byteSize_toList, column?_append, String.length_toList]
  · rw [Diagnostic.render, holds.place, chars, ← byteSize_toList]
    simp only [column_append, String.length_toList]

/-- Every diagnostic of a compilation tells the truth about the two parts of the input that meet at
    its offset, and in the display the caret has the first part and the quote in front of it. -/
theorem diagnostics_truthful (g : Grammar) (input : String) (d : Diagnostic)
    (refused : compile g input = .error d) :
    ∃ before after, d.Holds g input before after ∧
      before.utf8ByteSize ≤ input.utf8ByteSize ∧
      column? before.utf8ByteSize input.toList = some before.length ∧
      d.render input = "'" ++ input ++ "'\n" ++
        String.ofList (List.replicate (before.length + 1) ' ') ++ "^ " ++ d.message := by
  obtain ⟨before, after, holds⟩ := holds_of_refused refused
  exact ⟨before, after, holds, render_holds holds⟩

theorem diagnostics_truthful_unclosed :
    compile .basic "1 (add (\t\n" = .error (.unexpectedEnd .name 8) ∧
    ∃ before after, (Diagnostic.unexpectedEnd .name 8).Holds .basic "1 (add (\t\n" before after ∧
      (Diagnostic.unexpectedEnd .name 8).render "1 (add (\t\n" = "'1 (add (\t\n'\n" ++
        "         ^ expected a call name, but reached end of input at offset 8" := by
  have refused : compile .basic "1 (add (\t\n" = .error (.unexpectedEnd .name 8) := by cbv
  obtain ⟨before, after, holds, _, column, display⟩ := diagnostics_truthful _ _ _ refused
  have eight : column? 8 "1 (add (\t\n".toList = some 8 := by cbv
  have place : 8 = before.utf8ByteSize := Option.some.inj holds.place
  rw [← place, eight, Option.some.injEq] at column
  rw [← column] at display
  exact ⟨refused, before, after, holds, display.trans rfl⟩

end PrefixCalls
