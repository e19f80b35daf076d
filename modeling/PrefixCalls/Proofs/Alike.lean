import Mathlib.Data.List.Forall2
import PrefixCalls.Proofs.Reading
import PrefixCalls.Source.Basic
import PrefixCalls.Token.Scan

/-!
Tokens and diagnostics that differ in their places only. Places may be compared by any relation
between offsets: reading looks at kinds and texts alone, so from alike tokens it makes the same
program or alike diagnostics.
-/
namespace PrefixCalls

variable {R : Nat → Nat → Prop}

structure Token.Alike (R : Nat → Nat → Prop) (t u : Token) : Prop where
  symbol : t.symbol = u.symbol
  starts : R t.loc u.loc
  stops : R t.stop u.stop

theorem Token.Alike.kind {t u : Token} (alike : t.Alike R u) : u.kind = t.kind :=
  congrArg Symbol.kind alike.symbol.symm

theorem Token.Alike.text {t u : Token} (alike : t.Alike R u) : u.text = t.text :=
  congrArg Symbol.text alike.symbol.symm

theorem Lexeme.token_alike (x : Lexeme) {n m : Nat} (starts : R n m)
    (stops : R (n + Text.byteSize x.chars) (m + Text.byteSize x.chars)) :
    (x.token n).Alike R (x.token m) := by
  rw [Text.byteSize_eq_utf8ByteSize] at stops
  exact ⟨rfl, starts, stops⟩

inductive Diagnostic.Alike (R : Nat → Nat → Prop) : Diagnostic → Diagnostic → Prop where
  | invalidCharacter {p q : Nat} (c : Char) (places : R p q) :
      Alike R (.invalidCharacter c p) (.invalidCharacter c q)
  | unexpectedToken {t u : Token} (expected : Expected) (tokens : t.Alike R u) :
      Alike R (.unexpectedToken expected t) (.unexpectedToken expected u)
  | unexpectedEnd {p q : Nat} (expected : Expected) (places : R p q) :
      Alike R (.unexpectedEnd expected p) (.unexpectedEnd expected q)

namespace Source

open List (Forall₂)

namespace Expr

def AlikeRest {α : Type} (R : Nat → Nat → Prop) (r s : α × List Token) : Prop :=
  r.1 = s.1 ∧ Forall₂ (Token.Alike R) r.2 s.2

theorem read_alike {stop stop' : Nat} (stops : R stop stop') :
    (∀ ts us, Forall₂ (Token.Alike R) ts us →
      Agree (Diagnostic.Alike R) (AlikeRest R) (read stop ts) (read stop' us)) ∧
    ∀ ts us, Forall₂ (Token.Alike R) ts us →
      Agree (Diagnostic.Alike R) (AlikeRest R) (readArgs stop ts) (readArgs stop' us) := by
  apply read_induction
    (P := fun ts result => ∀ us, Forall₂ (Token.Alike R) ts us →
      Agree (Diagnostic.Alike R) (AlikeRest R) result (read stop' us))
    (Q := fun ts result => ∀ us, Forall₂ (Token.Alike R) ts us →
      Agree (Diagnostic.Alike R) (AlikeRest R) result (readArgs stop' us))
  case nothing =>
    intro us alike
    cases alike
    rw [read_nil]
    exact .error (.unexpectedEnd _ stops)
  case number =>
    intro t ts numeral us alike
    cases alike with
    | cons first others =>
      rw [read_number stop' _ _ (first.kind.trans numeral), first.text]
      exact .ok ⟨rfl, others⟩
  case bare =>
    intro l opening us alike
    cases alike with
    | cons first others =>
      cases others
      rw [read_open_nil stop' _ (first.kind.trans opening)]
      exact .error (.unexpectedEnd _ stops)
  case unnamed =>
    intro l n ts opening unnamed us alike
    cases alike with
    | cons first others =>
      cases others with
      | cons second rest =>
        rw [read_open_unnamed stop' _ _ _ (first.kind.trans opening) (second.kind ▸ unnamed)]
        exact .error (.unexpectedToken _ second)
  case call =>
    intro l n ts opening named args us alike
    cases alike with
    | cons first others =>
      cases others with
      | cons second rest =>
        rw [read_call stop' _ _ _ (first.kind.trans opening) (second.kind.trans named), second.text]
        exact (args _ rest).map fun _ _ inner => ⟨by rw [inner.1], inner.2⟩
  case misplaced =>
    intro t ts misplaced us alike
    cases alike with
    | cons first others =>
      rw [read_misplaced stop' _ _ (first.kind ▸ misplaced)]
      exact .error (.unexpectedToken _ first)
  case unclosed =>
    intro us alike
    cases alike
    rw [readArgs_nil]
    exact .error (.unexpectedEnd _ stops)
  case close =>
    intro t ts closing us alike
    cases alike with
    | cons first others =>
      rw [readArgs_close stop' _ _ (first.kind.trans closing)]
      exact .ok ⟨rfl, others⟩
  case refused =>
    intro t ts d more expr us alike
    obtain ⟨e, run, refusals⟩ := (expr us alike).of_error
    cases alike with
    | cons first others =>
      rw [readArgs_cons stop' _ _ (first.kind ▸ more), run]
      exact .error refusals
  case more =>
    intro t ts e rest more expr args us alike
    obtain ⟨⟨e', rest'⟩, run, same, left⟩ := (expr us alike).of_ok
    cases same
    cases alike with
    | cons first others =>
      rw [readArgs_cons stop' _ _ (first.kind ▸ more), run]
      exact (args _ left).map fun _ _ inner => ⟨by rw [inner.1], inner.2⟩

theorem readAll_alike {stop stop' : Nat} (stops : R stop stop') {ts us : List Token}
    (alike : Forall₂ (Token.Alike R) ts us) :
    Agree (Diagnostic.Alike R) Eq (readAll stop ts) (readAll stop' us) := by
  induction size : ts.length using Nat.strongRecOn generalizing ts us with
  | ind k ih =>
    cases alike with
    | nil =>
      rw [readAll_nil, readAll_nil]
      exact .ok rfl
    | @cons t u ts us first others =>
      have front := (read_alike stops).1 _ _ (.cons first others)
      rw [readAll_cons, readAll_cons]
      cases run : read stop (t :: ts) with
      | error d =>
        obtain ⟨e, run', refusals⟩ := (run ▸ front).of_error
        rw [run']
        exact .error refusals
      | ok r =>
        obtain ⟨s, run', same, left⟩ := (run ▸ front).of_ok
        rw [run']
        exact (ih _ (size ▸ read_length_lt run) left rfl).map fun _ _ inner => by rw [same, inner]

end Expr

theorem stopOf_alike {ts us : List Token} (alike : Forall₂ (Token.Alike R) ts us)
    (some_token : ts ≠ []) : R (Token.stopOf ts) (Token.stopOf us) := by
  induction alike with
  | nil => contradiction
  | cons first others ih =>
    cases others with
    | nil => exact first.stops
    | cons second rest => simpa [Token.stopOf] using ih (by simp)

theorem Program.read_alike {ts us : List Token} (alike : Forall₂ (Token.Alike R) ts us) :
    Agree (Diagnostic.Alike R) Eq (Program.read ts) (Program.read us) := by
  by_cases empty : ts = []
  · cases empty
    cases alike
    rw [Program.read, Expr.readAll_nil]
    exact .ok rfl
  · have stops := stopOf_alike alike empty
    exact (Expr.readAll_alike stops alike).map fun _ _ same => by rw [same]

end Source

end PrefixCalls
