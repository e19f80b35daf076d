import PrefixCalls.Diagnostic
import PrefixCalls.Source.Basic

/-!
From tokens to source programs, by the grammar

    Program := Expr*        Expr := number | '(' name Expr* ')'

Only the kinds of parentheses matter, not their texts. A refusal is at the first token that no
program can have there, or at the end of the tokens inside a call.
-/
namespace PrefixCalls.Source

/-- What was read from the front of a token list, and the tokens after it, which are fewer. -/
structure Reading (α : Type) (ts : List Token) where
  value : α
  rest : List Token
  shorter : rest.length < ts.length

mutual

/-- One expression from the front. Running out of tokens is reported at `stop`. -/
def readingExpr (stop : Nat) (ts : List Token) : Except Diagnostic (Reading Expr ts) :=
  match ts with
  | [] => .error (.unexpectedEnd .expression stop)
  | t :: ts =>
    match t.kind with
    | .number => .ok ⟨.number t.text, ts, by simp⟩
    | .leftParen =>
      match ts with
      | [] => .error (.unexpectedEnd .name stop)
      | n :: ts =>
        if n.kind = .name then
          match readingArgs stop ts with
          | .error e => .error e
          | .ok r => .ok ⟨.call n.text r.value, r.rest, by have := r.shorter; simp; omega⟩
        else .error (.unexpectedToken .name n)
    | .rightParen => .error (.unexpectedToken .expression t)
    | .name => .error (.unexpectedToken .expression t)
termination_by (ts.length, 0)

def readingArgs (stop : Nat) (ts : List Token) : Except Diagnostic (Reading (List Expr) ts) :=
  match ts with
  | [] => .error (.unexpectedEnd .closingParen stop)
  | t :: ts =>
    if t.kind = .rightParen then .ok ⟨[], ts, by simp⟩
    else
      match readingExpr stop (t :: ts) with
      | .error e => .error e
      | .ok r =>
        match readingArgs stop r.rest with
        | .error e => .error e
        | .ok s => .ok ⟨r.value :: s.value, s.rest, Nat.lt_trans s.shorter r.shorter⟩
termination_by (ts.length, 1)
decreasing_by
  · exact Prod.Lex.right _ (by decide)
  · exact Prod.Lex.left _ _ r.shorter

end

def Expr.read (stop : Nat) (ts : List Token) : Except Diagnostic (Expr × List Token) :=
  (readingExpr stop ts).map fun r => (r.value, r.rest)

def Expr.readArgs (stop : Nat) (ts : List Token) : Except Diagnostic (List Expr × List Token) :=
  (readingArgs stop ts).map fun r => (r.value, r.rest)

def Expr.readAll (stop : Nat) (ts : List Token) : Except Diagnostic (List Expr) :=
  match ts with
  | [] => .ok []
  | t :: ts =>
    match readingExpr stop (t :: ts) with
    | .error e => .error e
    | .ok r => (Expr.readAll stop r.rest).map (r.value :: ·)
termination_by ts.length
decreasing_by exact r.shorter

namespace Expr

@[simp] theorem read_nil (stop : Nat) :
    read stop [] = .error (.unexpectedEnd .expression stop) := by
  rw [read, readingExpr]
  rfl

theorem read_number (stop : Nat) (t : Token) (ts : List Token) (numeral : t.kind = .number) :
    read stop (t :: ts) = .ok (.number t.text, ts) := by
  rw [read, readingExpr.eq_def]
  simp [numeral, Except.map]

theorem read_open_nil (stop : Nat) (t : Token) (opening : t.kind = .leftParen) :
    read stop [t] = .error (.unexpectedEnd .name stop) := by
  rw [read, readingExpr]
  simp [opening, Except.map]

theorem read_open_unnamed (stop : Nat) (t n : Token) (ts : List Token)
    (opening : t.kind = .leftParen) (unnamed : n.kind ≠ .name) :
    read stop (t :: n :: ts) = .error (.unexpectedToken .name n) := by
  rw [read, readingExpr]
  simp [opening, unnamed, Except.map]

theorem read_call (stop : Nat) (t n : Token) (ts : List Token)
    (opening : t.kind = .leftParen) (named : n.kind = .name) :
    read stop (t :: n :: ts) = (readArgs stop ts).map fun r => (.call n.text r.1, r.2) := by
  rw [read, readArgs, readingExpr]
  simp only [opening, named]
  cases readingArgs stop ts <;> rfl

theorem read_misplaced (stop : Nat) (t : Token) (ts : List Token)
    (misplaced : t.kind = .name ∨ t.kind = .rightParen) :
    read stop (t :: ts) = .error (.unexpectedToken .expression t) := by
  rw [read, readingExpr.eq_def]
  rcases misplaced with kind | kind <;> simp [kind, Except.map]

@[simp] theorem readArgs_nil (stop : Nat) :
    readArgs stop [] = .error (.unexpectedEnd .closingParen stop) := by
  rw [readArgs, readingArgs]
  rfl

theorem readArgs_close (stop : Nat) (t : Token) (ts : List Token)
    (closing : t.kind = .rightParen) : readArgs stop (t :: ts) = .ok ([], ts) := by
  rw [readArgs, readingArgs]
  simp [closing, Except.map]

theorem readArgs_cons (stop : Nat) (t : Token) (ts : List Token)
    (more : t.kind ≠ .rightParen) :
    readArgs stop (t :: ts) =
      match read stop (t :: ts) with
      | .error e => .error e
      | .ok (e, rest) => (readArgs stop rest).map fun r => (e :: r.1, r.2) := by
  rw [readArgs, readingArgs, read]
  simp only [more, ↓reduceIte]
  cases readingExpr stop (t :: ts) with
  | error e => rfl
  | ok r =>
    simp only [readArgs, Except.map]
    cases readingArgs stop r.rest <;> rfl

@[simp] theorem readAll_nil (stop : Nat) : readAll stop [] = .ok [] := by
  rw [readAll]

theorem readAll_cons (stop : Nat) (t : Token) (ts : List Token) :
    readAll stop (t :: ts) =
      match read stop (t :: ts) with
      | .error e => .error e
      | .ok (e, rest) => (readAll stop rest).map (e :: ·) := by
  rw [readAll, read]
  cases readingExpr stop (t :: ts) <;> rfl

theorem read_length_lt {stop : Nat} {ts rest : List Token} {e : Expr}
    (run : read stop ts = .ok (e, rest)) : rest.length < ts.length := by
  rw [read] at run
  cases reading : readingExpr stop ts with
  | error d => simp [reading, Except.map] at run
  | ok r =>
    simp only [reading, Except.map, Except.ok.injEq, Prod.mk.injEq] at run
    rw [← run.2]
    exact r.shorter

end Expr

def Program.read (ts : List Token) : Except Diagnostic Program :=
  (Expr.readAll (Token.stopOf ts) ts).map Program.mk

end PrefixCalls.Source
