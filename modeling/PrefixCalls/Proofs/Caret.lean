import Mathlib
import PrefixCalls.Proofs.Bytes
import PrefixCalls.Proofs.Truth

/-!
Where the caret of a display stands. A display is read line by line, and a cursor that moves over
its characters knows the row and the column of the next one. The caret has the column of a character
in the whole input, so it stands under that character exactly when the input is a single line: a line
break in front puts the caret too far to the right, and one behind puts another line between.
-/
namespace PrefixCalls

namespace Text

def lines (cs : List Char) : List (List Char) := cs.splitOn '\n'

theorem lines_ne_nil (cs : List Char) : lines cs ≠ [] := List.splitOn_ne_nil _ _

theorem lines_break (cs : List Char) : lines ('\n' :: cs) = [] :: lines cs := by
  simp [lines, List.splitOn_cons_eq_if_modifyHead]

theorem lines_solid {c : Char} {cs first : List Char} {others : List (List Char)} (solid : c ≠ '\n')
    (start : lines cs = first :: others) : lines (c :: cs) = (c :: first) :: others := by
  rw [lines] at start ⊢
  simp [List.splitOn_cons_eq_if_modifyHead, solid, start]

structure Spot where
  row : Nat
  column : Nat
  deriving DecidableEq, Repr

namespace Spot

def next (s : Spot) (c : Char) : Spot :=
  if c = '\n' then ⟨s.row + 1, 0⟩ else ⟨s.row, s.column + 1⟩

/-- The spot of the character that comes behind the text. -/
def behind (past : List Char) : Spot := past.foldl next ⟨0, 0⟩

def below (s : Spot) : Spot := ⟨s.row + 1, s.column⟩

/-- The spot of the first caret in the last line. -/
def ofCaret (display : List Char) : Spot :=
  ⟨(lines display).length - 1, ((lines display).getLastD []).idxOf '^'⟩

def look (display : List Char) (s : Spot) : Option Char :=
  (lines display)[s.row]?.bind fun shown => shown[s.column]?

theorem behind_concat (past : List Char) (c : Char) :
    behind (past ++ [c]) = (behind past).next c := by
  simp [behind]

theorem row_behind (past : List Char) : (behind past).row = past.count '\n' := by
  induction past using List.reverseRecOn with
  | nil => rfl
  | append_singleton past c ih =>
    rw [behind_concat, next]
    by_cases ended : c = '\n'
    · simp [ended, ih]
    · simp [ended, ih]

theorem column_behind_iff (past : List Char) :
    (behind past).column = past.length ↔ '\n' ∉ past := by
  induction past using List.reverseRecOn with
  | nil => simp [behind]
  | append_singleton past c ih =>
    rw [behind_concat, next, List.length_append, List.length_singleton]
    by_cases ended : c = '\n'
    · simp [ended]
    · have other : '\n' ≠ c := fun same => ended same.symm
      simp [ended, other, ih]

/-- What the cursor knows: the lines above it are complete, and the line it is in has as many
    characters as its column and goes on with whatever comes next. -/
theorem lines_behind (past : List Char) :
    ∃ above shown, above.length = (behind past).row ∧ shown.length = (behind past).column ∧
      ∀ rest first others, lines rest = first :: others →
        lines (past ++ rest) = above ++ (shown ++ first) :: others := by
  -- The cursor stands behind the last character, so characters are taken off at the end.
  induction past using List.reverseRecOn with
  | nil => exact ⟨[], [], rfl, rfl, fun _ _ _ start => start⟩
  | append_singleton past c ih =>
    obtain ⟨above, shown, rows, columns, split⟩ := ih
    rw [behind_concat, next]
    by_cases ended : c = '\n'
    · refine ⟨above ++ [shown], [], by simp [ended, rows], by simp [ended], ?_⟩
      intro rest first others start
      rw [List.append_assoc, List.singleton_append, ended,
        split _ [] (first :: others) (by rw [lines_break, start])]
      simp
    · refine ⟨above, shown ++ [c], by simp [ended, rows], by simp [ended, columns], ?_⟩
      intro rest first others start
      rw [List.append_assoc, List.singleton_append,
        split _ (c :: first) others (lines_solid ended start)]
      simp

theorem look_behind (past rest : List Char) {c : Char} (solid : c ≠ '\n') :
    look (past ++ c :: rest) (behind past) = some c := by
  obtain ⟨above, shown, rows, columns, split⟩ := lines_behind past
  obtain ⟨first, others, start⟩ := List.exists_cons_of_ne_nil (lines_ne_nil rest)
  rw [look, split _ _ _ (lines_solid solid start), ← rows, ← columns]
  simp

theorem length_lines (cs : List Char) : (lines cs).length = cs.count '\n' + 1 := by
  obtain ⟨above, shown, rows, _, split⟩ := lines_behind cs
  have whole := split [] [] [] rfl
  rw [List.append_nil] at whole
  rw [whole, ← row_behind, ← rows]
  simp

theorem ofCaret_under (text message : List Char) (spaces : Nat) (unbroken : '\n' ∉ message) :
    ofCaret (text ++ '\n' :: (List.replicate spaces ' ' ++ '^' :: message)) =
      ⟨text.count '\n' + 1, spaces⟩ := by
  have last : lines (List.replicate spaces ' ' ++ '^' :: message) =
      [List.replicate spaces ' ' ++ '^' :: message] := by
    apply List.splitOn_eq_singleton
    simp [unbroken]
  have rows : lines (text ++ '\n' :: (List.replicate spaces ' ' ++ '^' :: message)) =
      lines text ++ [List.replicate spaces ' ' ++ '^' :: message] := by
    rw [← last]
    exact List.splitOn_append_cons_self _ _
  rw [ofCaret, rows]
  simp [length_lines, List.idxOf_append]

end Spot

theorem cut_unique {before after left right : String} (same : before ++ after = left ++ right)
    (size : before.utf8ByteSize = left.utf8ByteSize) : before = left := by
  have chars := congrArg String.toList same
  rw [String.toList_append, String.toList_append] at chars
  rw [← byteSize_toList, ← byteSize_toList] at size
  apply String.toList_injective
  rcases List.append_eq_append_iff.mp chars with ⟨more, longer, _⟩ | ⟨more, longer, _⟩
  all_goals
    rw [longer, byteSize_append] at size
    cases more with
    | nil => simp [longer]
    | cons c more =>
      have := byteSize_pos c more
      omega

end Text

open Text Token Source

def Diagnostic.cited : Diagnostic → List Char
  | .invalidCharacter c _ => [c]
  | .unexpectedToken _ t => t.text.toList
  | .unexpectedEnd _ _ => []
  | .nestedStatement within => within.toList

theorem Diagnostic.message_unbroken (d : Diagnostic) (unbroken : '\n' ∉ d.cited) :
    '\n' ∉ d.message.toList := by
  have expected : ∀ e : Expected, '\n' ∉ e.describe.toList := by
    intro e
    cases e <;> simp [Expected.describe]
  have kind : ∀ k : Kind, '\n' ∉ k.describe.toList := by
    intro k
    cases k <;> simp [Kind.describe]
  have number : ∀ n : Nat, '\n' ∉ Nat.toDigits 10 n := by
    intro n inside
    have digit := Nat.isDigit_of_mem_toDigits (by decide) (by decide) inside
    simp at digit
  unfold message
  cases d with
  | invalidCharacter c position => simpa [cited, number] using unbroken
  | unexpectedToken e t => simpa [cited, number, expected, kind] using unbroken
  | unexpectedEnd e position => simp [number, expected]
  | nestedStatement within => simpa [cited] using unbroken

theorem message_of_refused {g : Grammar} {input : String} {d : Diagnostic}
    (refused : compile g input = .error d) : '\n' ∉ d.message.toList := by
  have solid : ∀ {c : Char}, isBlank c = false → '\n' ≠ c := by
    rintro c solid rfl
    cases solid
  apply d.message_unbroken
  rcases refused_at refused with
    lexical | ⟨us, t, vs, expected, scanned, rfl⟩ | ⟨us, t, expected, scanned, rfl⟩
  · obtain ⟨_, _, c, _, _, _, other, _, rfl⟩ := tiling_of_refused lexical
    simpa [Diagnostic.cited] using solid other
  · obtain ⟨x, _, _, _, text, _, _, fits, _⟩ := scan_cut scanned
    intro inside
    rw [Diagnostic.cited, text, String.toList_ofList] at inside
    exact solid (Lexeme.fits_solid fits _ inside) rfl
  · simp [Diagnostic.cited]

theorem toList_render {g : Grammar} {input before after : String} {d : Diagnostic}
    (holds : d.Holds g input before after) :
    (d.render input).toList = '\'' :: (input.toList ++ ['\'']) ++
      '\n' :: (List.replicate (before.length + 1) ' ' ++ '^' :: ' ' :: d.message.toList) := by
  rw [(render_holds holds).2.2]
  simp

theorem caret_of_holds {g : Grammar} {input before after : String} {d : Diagnostic}
    (holds : d.Holds g input before after) (unbroken : '\n' ∉ d.message.toList) :
    Spot.ofCaret (d.render input).toList = ⟨input.toList.count '\n' + 1, before.length + 1⟩ := by
  rw [toList_render holds, Spot.ofCaret_under _ _ _ (by simpa using unbroken)]
  simp

/-- The spot of what comes behind the first part of a text that is shown in quotes. -/
def Text.Spot.quoted (before : String) : Spot := behind ('\'' :: before.toList)

theorem row_quoted (before : String) : (Spot.quoted before).row = before.toList.count '\n' := by
  rw [Spot.quoted, Spot.row_behind]
  simp

theorem column_quoted_iff (before : String) :
    before.length + 1 = (Spot.quoted before).column ↔ '\n' ∉ before.toList := by
  have column := Spot.column_behind_iff ('\'' :: before.toList)
  rw [List.length_cons, String.length_toList] at column
  rw [Spot.quoted, eq_comm, column]
  simp

/-- In the display the caret stands right under what the input has at the offset, which is the
    closing quote at the end of the input. -/
def Diagnostic.CaretUnder (input : String) (d : Diagnostic) : Prop :=
  ∃ before after, input = before ++ after ∧ d.position? = some before.utf8ByteSize ∧
    Spot.ofCaret (d.render input).toList = (Spot.quoted before).below

theorem caretUnder_iff {g : Grammar} {input before after : String} {d : Diagnostic}
    (holds : d.Holds g input before after) :
    d.CaretUnder input ↔
      Spot.ofCaret (d.render input).toList = (Spot.quoted before).below := by
  constructor
  · rintro ⟨left, right, split, place, under⟩
    have size : before.utf8ByteSize = left.utf8ByteSize := by
      rw [holds.place] at place
      exact Option.some.inj place
    rwa [cut_unique (holds.split.symm.trans split) size]
  · intro under
    exact ⟨before, after, holds.split, holds.place, under⟩

/-- The caret of a refused compilation stands right under the offending character exactly when the
    input is a single line: a line break in front of the offset gives it a wrong column, and one
    behind puts another line between them. -/
theorem caret_under_iff_unbroken (g : Grammar) (input : String) (d : Diagnostic)
    (refused : compile g input = .error d) :
    ∃ before after, d.Holds g input before after ∧
      (∀ c rest, after.toList ++ ['\''] = c :: rest → c ≠ '\n' →
        Spot.look (d.render input).toList (Spot.quoted before) = some c) ∧
      ((Spot.ofCaret (d.render input).toList).column = (Spot.quoted before).column ↔
        '\n' ∉ before.toList) ∧
      ((Spot.ofCaret (d.render input).toList).row = (Spot.quoted before).row + 1 ↔
        '\n' ∉ after.toList) ∧
      (d.CaretUnder input ↔ '\n' ∉ input.toList) := by
  obtain ⟨before, after, holds⟩ := holds_of_refused refused
  have caret := caret_of_holds holds (message_of_refused refused)
  have chars : input.toList = before.toList ++ after.toList := by
    rw [holds.split, String.toList_append]
  have column : (Spot.ofCaret (d.render input).toList).column = (Spot.quoted before).column ↔
      '\n' ∉ before.toList := by
    rw [caret]
    exact column_quoted_iff before
  have row : (Spot.ofCaret (d.render input).toList).row = (Spot.quoted before).row + 1 ↔
      '\n' ∉ after.toList := by
    rw [caret, row_quoted, chars, List.count_append, ← List.count_eq_zero]
    dsimp only
    omega
  refine ⟨before, after, holds, ?_, column, row, ?_⟩
  · intro c rest next solid
    have display : (d.render input).toList = '\'' :: before.toList ++ c :: (rest ++
        '\n' :: (List.replicate (before.length + 1) ' ' ++ '^' :: ' ' :: d.message.toList)) := by
      rw [toList_render holds, chars, List.append_assoc, next]
      simp
    rw [display]
    exact Spot.look_behind _ _ solid
  · rw [caretUnder_iff holds, chars, List.mem_append, not_or, ← column, ← row]
    rw [Spot.below, Spot.mk.injEq, and_comm]

theorem caret_beside_second_line :
    compile .basic "1\n@" = .error (.invalidCharacter '@' 2) ∧
    ¬ (Diagnostic.invalidCharacter '@' 2).CaretUnder "1\n@" ∧
    compile .extended "(λ 1)" = .error (.invalidCharacter 'λ' 1) ∧
    (Diagnostic.invalidCharacter 'λ' 1).CaretUnder "(λ 1)" := by
  have broken : compile .basic "1\n@" = .error (.invalidCharacter '@' 2) := by cbv
  have single : compile .extended "(λ 1)" = .error (.invalidCharacter 'λ' 1) := by cbv
  obtain ⟨_, _, _, _, _, _, beside⟩ := caret_under_iff_unbroken _ _ _ broken
  obtain ⟨_, _, _, _, _, _, under⟩ := caret_under_iff_unbroken _ _ _ single
  refine ⟨broken, ?_, single, under.mpr (by decide)⟩
  rw [beside]
  decide

end PrefixCalls
