import PrefixCalls.Diagnostic
import PrefixCalls.Grammar
import PrefixCalls.Text

/-!
From text to tokens. `Lexeme.split?` finds the longest lexeme at the front of a list of characters,
and `Token.scan` walks the input with it, passing over blanks and counting bytes.
-/
namespace PrefixCalls

open Text

structure Lexeme where
  kind : Token.Kind
  chars : List Char
  deriving DecidableEq, Repr

namespace Lexeme

/-- The longest number at the front of a text that starts with a digit, and the rest. A decimal
    point belongs to the number only if a digit follows it, and a number has one point at most. -/
def splitNumber (g : Grammar) (cs : List Char) : List Char × List Char :=
  let whole := cs.takeWhile Char.isDigit
  match cs.dropWhile Char.isDigit with
  | '.' :: d :: rest =>
    if g.allowsDecimals && d.isDigit then
      (whole ++ '.' :: (d :: rest).takeWhile Char.isDigit, (d :: rest).dropWhile Char.isDigit)
    else (whole, '.' :: d :: rest)
  | rest => (whole, rest)

def split? (g : Grammar) : List Char → Option (Lexeme × List Char)
  | [] => none
  | c :: cs =>
    if c = '(' then some (⟨.leftParen, [c]⟩, cs)
    else if c = ')' then some (⟨.rightParen, [c]⟩, cs)
    else if c.isAlpha then
      some (⟨.name, (c :: cs).takeWhile Char.isAlpha⟩, (c :: cs).dropWhile Char.isAlpha)
    else if c.isDigit then
      some (⟨.number, (splitNumber g (c :: cs)).1⟩, (splitNumber g (c :: cs)).2)
    else if g.allowsOperators && isOperator c then some (⟨.name, [c]⟩, cs)
    else none

theorem splitNumber_append (g : Grammar) (cs : List Char) :
    (splitNumber g cs).1 ++ (splitNumber g cs).2 = cs := by
  have whole := List.takeWhile_append_dropWhile (p := Char.isDigit) (l := cs)
  unfold splitNumber
  split
  · rename_i d rest point
    rw [point] at whole
    split
    · rw [List.append_assoc, List.cons_append, List.takeWhile_append_dropWhile]
      exact whole
    · exact whole
  · exact whole

theorem split?_append {g : Grammar} {cs rest : List Char} {x : Lexeme}
    (found : split? g cs = some (x, rest)) : x.chars ++ rest = cs := by
  cases cs with
  | nil => simp [split?] at found
  | cons c cs =>
    simp only [split?] at found
    repeat' split at found
    all_goals simp only [Option.some.injEq, Prod.mk.injEq, reduceCtorEq] at found
    all_goals obtain ⟨rfl, rfl⟩ := found
    · rfl
    · rfl
    · exact List.takeWhile_append_dropWhile
    · exact splitNumber_append g (c :: cs)
    · rfl

theorem split?_chars_ne_nil {g : Grammar} {cs rest : List Char} {x : Lexeme}
    (found : split? g cs = some (x, rest)) : x.chars ≠ [] := by
  cases cs with
  | nil => simp [split?] at found
  | cons c cs =>
    simp only [split?] at found
    repeat' split at found
    all_goals simp only [Option.some.injEq, Prod.mk.injEq, reduceCtorEq] at found
    all_goals obtain ⟨rfl, rfl⟩ := found
    · simp
    · simp
    · rename_i letter
      simp [letter]
    · rename_i digit
      unfold splitNumber
      split
      · split <;> simp [digit]
      · simp [digit]
    · simp

theorem split?_length_lt {g : Grammar} {cs rest : List Char} {x : Lexeme}
    (found : split? g cs = some (x, rest)) : rest.length < cs.length := by
  have whole := congrArg List.length (split?_append found)
  have some_char := List.length_pos_iff.mpr (split?_chars_ne_nil found)
  simp only [List.length_append] at whole
  omega

def token (x : Lexeme) (offset : Nat) : Token := ⟨x.kind, String.ofList x.chars, offset⟩

end Lexeme

namespace Token

def scanFrom (g : Grammar) (offset : Nat) : List Char → Except Diagnostic (List Token)
  | [] => .ok []
  | c :: cs =>
    if isBlank c then scanFrom g (offset + c.utf8Size) cs
    else
      match _found : Lexeme.split? g (c :: cs) with
      | none => .error (.invalidCharacter c offset)
      | some (x, rest) =>
        (scanFrom g (offset + byteSize x.chars) rest).map (x.token offset :: ·)
termination_by cs => cs.length
decreasing_by
  · simp
  · exact Lexeme.split?_length_lt _found

@[simp] theorem scanFrom_nil (g : Grammar) (offset : Nat) : scanFrom g offset [] = .ok [] := by
  rw [scanFrom]

theorem scanFrom_blank (g : Grammar) (offset : Nat) (c : Char) (cs : List Char)
    (blank : isBlank c) : scanFrom g offset (c :: cs) = scanFrom g (offset + c.utf8Size) cs := by
  rw [scanFrom]
  simp [blank]

theorem scanFrom_lexeme (g : Grammar) (offset : Nat) (c : Char) (cs rest : List Char) (x : Lexeme)
    (solid : isBlank c = false) (found : Lexeme.split? g (c :: cs) = some (x, rest)) :
    scanFrom g offset (c :: cs) =
      (scanFrom g (offset + byteSize x.chars) rest).map (x.token offset :: ·) := by
  rw [scanFrom]
  simp only [solid, Bool.false_eq_true, ↓reduceIte]
  split
  · rename_i missing
    rw [found] at missing
    cases missing
  · rename_i y ys other
    rw [found] at other
    cases other
    rfl

theorem scanFrom_invalid (g : Grammar) (offset : Nat) (c : Char) (cs : List Char)
    (solid : isBlank c = false) (missing : Lexeme.split? g (c :: cs) = none) :
    scanFrom g offset (c :: cs) = .error (.invalidCharacter c offset) := by
  rw [scanFrom]
  simp only [solid, Bool.false_eq_true, ↓reduceIte]
  split
  · rfl
  · rename_i y ys other
    rw [missing] at other
    cases other

def scan (g : Grammar) (source : String) : Except Diagnostic (List Token) :=
  scanFrom g 0 source.toList

end Token

end PrefixCalls
