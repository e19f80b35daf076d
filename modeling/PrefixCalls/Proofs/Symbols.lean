import Mathlib.Data.List.Chain
import PrefixCalls.Source.Basic
import PrefixCalls.Token.Basic

/-!
Derivations and symbol sequences. Tokens that derive a program are its symbols in order, but for the
texts of parentheses. Tokens whose texts fit their kinds derive a program exactly when they are its
symbols, and in these no name follows another.
-/
namespace PrefixCalls

open Token

theorem Token.Kind.fits_extended {g : Grammar} {kind : Kind} {cs : List Char}
    (fits : kind.Fits g cs) : kind.Fits .extended cs := by
  cases kind with
  | leftParen => exact fits
  | rightParen => exact fits
  | name => exact fits.imp_right fun operator => ⟨rfl, operator.2⟩
  | number => exact fits.imp_right fun decimal => ⟨rfl, decimal.2⟩

def Symbol.Fits (g : Grammar) (x : Symbol) : Prop := x.kind.Fits g x.text.toList

/-- The symbol of a token, where a parenthesis has its proper text whatever the token says. -/
def Token.plain (t : Token) : Symbol :=
  match t.kind with
  | .leftParen => ⟨.leftParen, "("⟩
  | .rightParen => ⟨.rightParen, ")"⟩
  | .name => ⟨.name, t.text⟩
  | .number => ⟨.number, t.text⟩

theorem Token.plain_of_fits {g : Grammar} {t : Token} (fits : t.symbol.Fits g) :
    t.plain = t.symbol := by
  cases kind : t.kind <;>
    simp_all [plain, symbol, Symbol.Fits, Kind.Fits, ← String.toList_inj]

namespace Source

def Program.Fits (g : Grammar) (p : Program) : Prop := ∀ x ∈ p.symbols, x.Fits g

theorem Program.fits_body {g : Grammar} {p : Program} (fits : p.Fits g) :
    ∀ e ∈ p.body, ∀ x ∈ e.symbols, x.Fits g := by
  intro e member x inside
  apply fits
  rw [Program.symbols, Expr.symbolsOf_eq_flatMap]
  exact List.mem_flatMap.mpr ⟨e, member, inside⟩

mutual

theorem Derives.map_plain {ts : List Token} {e : Expr} (derived : Derives ts e) :
    ts.map Token.plain = e.symbols := by
  match derived with
  | .number numeral => simp [Expr.symbols, Token.plain, numeral]
  | .call opening named args closing =>
    have inner := DerivesAll.map_plain args
    simp [Expr.symbols, Token.plain, opening, named, closing, inner]

theorem DerivesAll.map_plain {ts : List Token} {es : List Expr} (derived : DerivesAll ts es) :
    ts.map Token.plain = Expr.symbolsOf es := by
  match derived with
  | .nil => rfl
  | .cons first others =>
    rw [List.map_append, Derives.map_plain first, DerivesAll.map_plain others, Expr.symbolsOf]

end

theorem DerivesAll.symbols {g : Grammar} {ts : List Token} {es : List Expr}
    (derived : DerivesAll ts es) (fits : ∀ t ∈ ts, t.symbol.Fits g) :
    ts.map Token.symbol = Expr.symbolsOf es := by
  rw [← derived.map_plain]
  apply List.map_congr_left
  intro t member
  exact (Token.plain_of_fits (fits t member)).symm

mutual

theorem Expr.derives_symbols (e : Expr) {ts : List Token} (same : ts.map Token.symbol = e.symbols) :
    Derives ts e := by
  match e with
  | .number text =>
    simp only [Expr.symbols, List.map_eq_cons_iff, List.map_eq_nil_iff] at same
    obtain ⟨t, _, rfl, single, rfl⟩ := same
    have content : t.text = text := congrArg Symbol.text single
    rw [← content]
    exact .number (congrArg Symbol.kind single)
  | .call name args =>
    simp only [Expr.symbols, List.map_eq_cons_iff, List.map_eq_append_iff,
      List.map_eq_nil_iff] at same
    obtain ⟨l, _, rfl, opening, n, _, rfl, named, us, _, rfl, inner, r, _, rfl, closing, rfl⟩ := same
    have content : n.text = name := congrArg Symbol.text named
    rw [← content]
    exact .call (congrArg Symbol.kind opening) (congrArg Symbol.kind named)
      (Expr.derivesAll_symbols args inner) (congrArg Symbol.kind closing)

theorem Expr.derivesAll_symbols (es : List Expr) {ts : List Token}
    (same : ts.map Token.symbol = Expr.symbolsOf es) : DerivesAll ts es := by
  match es with
  | [] =>
    rw [List.map_eq_nil_iff.mp same]
    exact .nil
  | e :: es =>
    obtain ⟨us, vs, rfl, first, others⟩ := List.map_eq_append_iff.mp same
    exact .cons (Expr.derives_symbols e first) (Expr.derivesAll_symbols es others)

end

def NamesApart (xs : List Symbol) : Prop :=
  xs.IsChain (fun x y => x.kind = .name → y.kind ≠ .name) ∧ ∀ x ∈ xs.head?, x.kind ≠ .name

theorem NamesApart.cons {x : Symbol} {xs : List Symbol} (apart : NamesApart xs)
    (other : x.kind ≠ .name) : NamesApart (x :: xs) := by
  refine ⟨List.isChain_cons.mpr ⟨?_, apart.1⟩, by simpa using other⟩
  intro y _ name
  contradiction

mutual

theorem Expr.symbols_apart (e : Expr) {rest : List Symbol} (apart : NamesApart rest) :
    NamesApart (e.symbols ++ rest) := by
  match e with
  | .number text => exact apart.cons (by simp)
  | .call name args =>
    have closed : NamesApart (⟨.rightParen, ")"⟩ :: rest) := apart.cons (by simp)
    have inner := Expr.symbolsOf_apart args closed
    simp only [Expr.symbols, List.cons_append, List.append_assoc, List.nil_append]
    refine ⟨?_, by simp⟩
    refine List.isChain_cons.mpr ⟨by simp, List.isChain_cons.mpr ⟨?_, inner.1⟩⟩
    intro y first _
    exact inner.2 y first

theorem Expr.symbolsOf_apart (es : List Expr) {rest : List Symbol} (apart : NamesApart rest) :
    NamesApart (Expr.symbolsOf es ++ rest) := by
  match es with
  | [] => exact apart
  | e :: es =>
    rw [Expr.symbolsOf, List.append_assoc]
    exact Expr.symbols_apart e (Expr.symbolsOf_apart es apart)

end

theorem Program.symbols_apart (p : Program) : NamesApart p.symbols := by
  have empty : NamesApart [] := ⟨by simp, by simp⟩
  have whole := Expr.symbolsOf_apart p.body empty
  rwa [List.append_nil] at whole

end Source

end PrefixCalls
