import PrefixCalls.Proofs.Reading
import PrefixCalls.Proofs.Stages
import PrefixCalls.Proofs.Symbols
import PrefixCalls.Proofs.Tiling

/-!
The texts that compile. They are the symbols of fitting programs written out in order with blanks
around them, and what comes out is the code of the program.
-/
namespace PrefixCalls

open Text Token

/-- The text is the symbols in order behind a symbol of the kind `last`, if there is one, with
    blanks in front of each and at the end. Between two numbers there is at least one blank. -/
inductive Spread : Option Kind → List Symbol → List Char → Prop where
  | nil {last : Option Kind} {gap : List Char} (blank : ∀ c ∈ gap, isBlank c) : Spread last [] gap
  | cons {last : Option Kind} {x : Symbol} {xs : List Symbol} {gap cs : List Char}
      (blank : ∀ c ∈ gap, isBlank c) (apart : last = some .number → x.kind = .number → gap ≠ [])
      (others : Spread (some x.kind) xs cs) : Spread last (x :: xs) (gap ++ (x.text.toList ++ cs))

def Symbol.lexeme (x : Symbol) : Lexeme := ⟨x.kind, x.text.toList⟩

theorem Symbol.symbol_token (x : Symbol) (offset : Nat) : (x.lexeme.token offset).symbol = x := by
  simp [lexeme, Lexeme.token, Token.symbol]

theorem Lexeme.text_token (x : Lexeme) (offset : Nat) :
    (x.token offset).symbol.text.toList = x.chars := String.toList_ofList

theorem spread_of_tiling {g : Grammar} {offset : Nat} {ts : List Token} {cs after : List Char}
    (tiling : Tiling g offset ts cs after) (last : Option Kind)
    (halts : last = some .number → Halts Char.isDigit cs) :
    Spread last (ts.map Token.symbol) cs ∧ ∀ t ∈ ts, t.symbol.Fits g := by
  induction tiling generalizing last with
  | nil blank => exact ⟨.nil blank, by simp⟩
  | @cons offset x ts gap cs after blank fits ends others ih =>
    have chars := x.text_token (offset + byteSize gap)
    have behind : some x.kind = some .number → Halts Char.isDigit cs := by
      intro number
      exact halts_left (Lexeme.ends_number (Option.some.inj number) ends)
    have apart : last = some .number → x.kind = .number → gap ≠ [] := by
      intro before number empty
      subst gap
      have numeral : Kind.Fits g .number x.chars := number ▸ fits
      obtain ⟨c, ds, same, digit⟩ := Lexeme.number_head numeral
      have outside := halts before c (by simp [same])
      rw [digit] at outside
      cases outside
    obtain ⟨spread, fitting⟩ := ih (some x.kind) behind
    constructor
    · rw [← chars, List.map_cons]
      exact .cons blank apart spread
    · intro t member
      rcases List.mem_cons.mp member with rfl | later
      · rw [Symbol.Fits, chars]
        exact fits
      · exact fitting t later

theorem spread_ends {g : Grammar} {x : Symbol} {xs : List Symbol} {cs : List Char}
    (spread : Spread (some x.kind) xs cs) (fits : ∀ y ∈ xs, y.Fits g)
    (apart : ∀ y ∈ xs.head?, x.kind = .name → y.kind ≠ .name) : x.lexeme.Ends g cs := by
  cases spread with
  | nil blank =>
    cases cs with
    | nil => exact Lexeme.ends_nil g _
    | cons c cs => exact Lexeme.ends_blank g _ cs (blank c (by simp))
  | @cons _ y ys gap ds blank separate others =>
    cases gap with
    | cons c gap => exact Lexeme.ends_blank g _ _ (blank c (by simp))
    | nil =>
      have yfits : y.lexeme.Fits g := fits y (by simp)
      refine (Lexeme.ends_iff_not_joins x.lexeme ds yfits).mpr ?_
      rintro (⟨name, _, other, _⟩ | ⟨number, other⟩)
      · exact apart y rfl name other
      · exact separate (congrArg some number) other rfl

theorem tiling_of_spread {g : Grammar} (offset : Nat) {last : Option Kind} {xs : List Symbol}
    {cs : List Char} (spread : Spread last xs cs) (fits : ∀ x ∈ xs, x.Fits g)
    (apart : xs.IsChain (fun x y => x.kind = .name → y.kind ≠ .name)) :
    ∃ ts, Tiling g offset ts cs [] ∧ ts.map Token.symbol = xs := by
  induction spread generalizing offset with
  | nil blank => exact ⟨[], .nil blank, rfl⟩
  | @cons _ x xs gap cs blank _ others ih =>
    obtain ⟨behind, chain⟩ := List.isChain_cons.mp apart
    have fitting : ∀ y ∈ xs, y.Fits g := fun y member => fits y (by simp [member])
    have ends : x.lexeme.Ends g (cs ++ []) := by
      rw [List.append_nil]
      exact spread_ends others fitting (fun y first name => behind y first name)
    obtain ⟨ts, tiling, rfl⟩ := ih (offset + byteSize gap + byteSize x.lexeme.chars) fitting chain
    refine ⟨x.lexeme.token (offset + byteSize gap) :: ts, ?_, ?_⟩
    · exact .cons blank (fits x (by simp)) ends tiling
    · rw [List.map_cons, Symbol.symbol_token]

theorem spread_of_read {g : Grammar} {input : String} {ts : List Token} {p : Source.Program}
    (scanned : scan g input = .ok ts) (read : Source.Program.read ts = .ok p) :
    ts.map Token.symbol = p.symbols ∧ p.Fits g ∧ Spread none p.symbols input.toList := by
  have derived := Source.Program.read_sound read
  obtain ⟨spread, fits⟩ := spread_of_tiling (tiling_of_scan scanned) none (by simp)
  have symbols : ts.map Token.symbol = p.symbols := derived.symbols fits
  rw [Source.Program.Fits, ← symbols]
  exact ⟨rfl, by simpa using fits, spread⟩

theorem read_of_spread {g : Grammar} {input : String} {p : Source.Program} (fits : p.Fits g)
    (spread : Spread none p.symbols input.toList) :
    ∃ ts, scan g input = .ok ts ∧ Source.Program.read ts = .ok p := by
  obtain ⟨ts, tiling, symbols⟩ := tiling_of_spread 0 spread fits p.symbols_apart.1
  have derived : Source.Program.Derives ts p := Source.Expr.derivesAll_symbols p.body symbols
  exact ⟨ts, scan_iff_tiling.mpr tiling, Source.Program.read_derived derived⟩

/-- A text compiles exactly when it is a fitting program spread out, and its output is the code of
    that program. -/
theorem compile_iff_spread (g : Grammar) (input output : String) :
    compile g input = .ok output ↔
      ∃ p : Source.Program, p.Fits g ∧ Spread none p.symbols input.toList ∧ output = p.code := by
  rw [compile_ok_iff]
  constructor
  · intro stages
    obtain ⟨ts, p, scanned, read, code⟩ := stages
    obtain ⟨_, fits, spread⟩ := spread_of_read scanned read
    exact ⟨p, fits, spread, code.symm⟩
  · intro program
    obtain ⟨p, fits, spread, code⟩ := program
    obtain ⟨ts, scanned, read⟩ := read_of_spread fits spread
    exact ⟨ts, p, scanned, read, code.symm⟩

end PrefixCalls
