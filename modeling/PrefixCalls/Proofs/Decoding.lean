import Mathlib
import PrefixCalls.Proofs.Layout

/-!
Written code read back. The symbols of a program are recovered from its code in one pass, in the
order of the source, and the reader turns them into the program again. So compilation forgets
nothing but blanks, and the same code comes from the same program under either grammar.
-/
namespace PrefixCalls

open Text Token

namespace Code

def isSeparator (c : Char) : Bool := c == ',' || c == ';' || c == ' ' || c == '\n'

/-- The symbols at the front of written code. The name of a call comes in front of its parenthesis
    in code and behind it in the source. -/
def leading? (cs : List Char) : Option (List Symbol × List Char) :=
  match Lexeme.split? .extended cs with
  | some (⟨.number, text⟩, rest) => some ([⟨.number, String.ofList text⟩], rest)
  | some (⟨.rightParen, text⟩, rest) => some ([⟨.rightParen, String.ofList text⟩], rest)
  | some (⟨.name, text⟩, '(' :: rest) =>
    some ([⟨.leftParen, "("⟩, ⟨.name, String.ofList text⟩], rest)
  | _ => none

theorem leading?_length_lt {cs rest : List Char} {xs : List Symbol}
    (found : leading? cs = some (xs, rest)) : rest.length < cs.length := by
  unfold leading? at found
  split at found
  · rename_i number
    cases found
    exact Lexeme.split?_length_lt number
  · rename_i closing
    cases found
    exact Lexeme.split?_length_lt closing
  · rename_i name
    cases found
    have shorter := Lexeme.split?_length_lt name
    simp only [List.length_cons] at shorter
    omega
  · cases found

def symbols? : List Char → Option (List Symbol)
  | [] => some []
  | c :: cs =>
    if isSeparator c then symbols? cs
    else
      match _found : leading? (c :: cs) with
      | none => none
      | some (xs, rest) => (symbols? rest).map (xs ++ ·)
termination_by cs => cs.length
decreasing_by
  · simp
  · exact leading?_length_lt _found

theorem symbols?_separator {c : Char} (cs : List Char) (separator : isSeparator c) :
    symbols? (c :: cs) = symbols? cs := by
  rw [symbols?]
  simp [separator]

theorem symbols?_separators {sep : List Char} (cs : List Char)
    (separators : ∀ c ∈ sep, isSeparator c) : symbols? (sep ++ cs) = symbols? cs := by
  induction sep with
  | nil => rfl
  | cons c sep ih =>
    obtain ⟨first, others⟩ := List.forall_mem_cons.mp separators
    rw [List.cons_append, symbols?_separator _ first, ih others]

theorem split?_separator {c : Char} (cs : List Char) (separator : isSeparator c) :
    Lexeme.split? .extended (c :: cs) = none := by
  simp only [isSeparator, Bool.or_eq_true, beq_iff_eq] at separator
  rcases separator with ((rfl | rfl) | rfl) | rfl <;> simp [Lexeme.split?, isOperator]

theorem symbols?_leading {cs rest : List Char} {xs : List Symbol}
    (found : leading? cs = some (xs, rest)) :
    symbols? cs = (symbols? rest).map (xs ++ ·) := by
  cases cs with
  | nil => simp [leading?, Lexeme.split?] at found
  | cons c cs =>
    have solid : ¬ isSeparator c := by
      intro separator
      simp [leading?, split?_separator cs separator] at found
    rw [symbols?]
    simp only [solid, Bool.false_eq_true, ↓reduceIte]
    split
    · rename_i missing
      rw [found] at missing
      cases missing
    · rename_i other
      rw [found] at other
      cases other
      rfl

def Closed (rest : List Char) : Prop := ∀ c ∈ rest.head?, c = ')' ∨ isSeparator c

theorem ends_closed {x : Lexeme} {rest : List Char} (closed : Closed rest) :
    x.Ends .extended rest := by
  cases rest with
  | nil => exact Lexeme.ends_nil _ x
  | cons c rest =>
    have apart : c ≠ '.' ∧ c.isAlpha = false ∧ c.isDigit = false := by
      rcases closed c rfl with rfl | separator
      · decide
      · simp only [isSeparator, Bool.or_eq_true, beq_iff_eq] at separator
        rcases separator with ((rfl | rfl) | rfl) | rfl <;> decide
    exact Lexeme.ends_of_head _ rest apart.1 (fun _ _ => apart.2.1) (fun _ => apart.2.2)

theorem leading?_number {text rest : List Char} (fits : Kind.Fits .extended .number text)
    (closed : Closed rest) :
    leading? (text ++ rest) = some ([⟨.number, String.ofList text⟩], rest) := by
  have found := Lexeme.split?_number fits (ends_closed closed)
  simp only [leading?, found]

theorem leading?_name {text : List Char} (rest : List Char)
    (fits : Kind.Fits .extended .name text) :
    leading? (text ++ '(' :: rest) =
      some ([⟨.leftParen, "("⟩, ⟨.name, String.ofList text⟩], rest) := by
  have name : Lexeme.Fits .extended ⟨.name, text⟩ := fits
  have ends : Lexeme.Ends .extended ⟨.name, text⟩ ('(' :: rest) :=
    Lexeme.ends_of_head _ rest (by decide) (fun _ _ => by decide) (fun _ => by decide)
  have found := Lexeme.split?_eq_some_iff.mpr ⟨name, ends, rfl⟩
  simp only [leading?, found]

theorem leading?_close (rest : List Char) :
    leading? (')' :: rest) = some ([⟨.rightParen, ")"⟩], rest) := by
  simp [leading?, Lexeme.split?]

/-- Where the text is closed, the symbols are recovered from it, and the rest on its own. -/
def Recovers (text : List Char) (xs : List Symbol) : Prop :=
  ∀ rest, Closed rest → symbols? (text ++ rest) = (symbols? rest).map (xs ++ ·)

theorem closed_separators {sep : List Char} (cs : List Char) (some_separator : sep ≠ [])
    (separators : ∀ c ∈ sep, isSeparator c) : Closed (sep ++ cs) := by
  obtain ⟨c, others, rfl⟩ := List.exists_cons_of_ne_nil some_separator
  intro d first
  cases first
  exact .inr (separators c (by simp))

theorem recovers_joined (text : Source.Expr → List Char) (sep : List Char) (es : List Source.Expr)
    (some_separator : sep ≠ []) (separators : ∀ c ∈ sep, isSeparator c)
    (each : ∀ e ∈ es, Recovers (text e) e.symbols) :
    Recovers (sep.intercalate (es.map text)) (es.flatMap Source.Expr.symbols) := by
  induction es with
  | nil =>
    intro rest _
    simp
  | cons e es ih =>
    obtain ⟨first, others⟩ := List.forall_mem_cons.mp each
    cases es with
    | nil => simpa using first
    | cons e' es =>
      intro rest closed
      have split : sep.intercalate ((e :: e' :: es).map text) ++ rest =
          text e ++ (sep ++ (sep.intercalate ((e' :: es).map text) ++ rest)) := by
        simp [List.intercalate_cons_cons]
      rw [split, first _ (closed_separators _ some_separator separators),
        symbols?_separators _ separators, ih others rest closed]
      cases symbols? rest <;> simp

end Code

namespace Source

open Code

def Program.decode? (code : String) : Option Program :=
  (Code.symbols? code.toList).bind fun xs =>
    (Program.read (xs.map fun x => ⟨x.kind, x.text, 0⟩)).toOption

theorem Expr.code_call (name : String) (args : List Expr) (rest : List Char) :
    (Expr.call name args).code.toList ++ rest =
      name.toList ++ '(' ::
        ([',', ' '].intercalate (args.map fun e => e.code.toList) ++ ')' :: rest) := by
  simp [Expr.code, String.toList_intercalate, Function.comp_def]

mutual

theorem Expr.recovers_code (e : Expr) (fits : ∀ x ∈ e.symbols, x.Fits .extended) :
    Recovers e.code.toList e.symbols := by
  match e with
  | .number text =>
    intro rest closed
    have numeral : Kind.Fits .extended .number text.toList :=
      fits ⟨.number, text⟩ (by simp [Expr.symbols])
    rw [Expr.code, symbols?_leading (leading?_number numeral closed), String.ofList_toList]
    rfl
  | .call name args =>
    intro rest closed
    have named : Kind.Fits .extended .name name.toList :=
      fits ⟨.name, name⟩ (by simp [Expr.symbols])
    have each := Expr.recovers_args args (fun x member => fits x (by
      simp only [Expr.symbols, List.mem_cons, List.mem_append, member, true_or, or_true]))
    have inner := recovers_joined _ [',', ' '] args (by simp) (by simp [isSeparator]) each
      (')' :: rest) (by simp [Closed])
    rw [Expr.code_call, symbols?_leading (leading?_name _ named), inner,
      symbols?_leading (leading?_close rest), String.ofList_toList]
    cases symbols? rest <;> simp [Expr.symbols]

theorem Expr.recovers_args (es : List Expr)
    (fits : ∀ x ∈ Expr.symbolsOf es, x.Fits .extended) :
    ∀ e ∈ es, Recovers e.code.toList e.symbols := by
  match es with
  | [] => simp
  | e :: es =>
    have first := Expr.recovers_code e (fun x member => fits x (by simp [Expr.symbolsOf, member]))
    have others := Expr.recovers_args es (fun x member => fits x (by
      simp only [Expr.symbolsOf, List.mem_append, member, or_true]))
    exact List.forall_mem_cons.mpr ⟨first, others⟩

end

theorem Expr.recovers_topCode (e : Expr) (fits : ∀ x ∈ e.symbols, x.Fits .extended) :
    Recovers e.topCode.toList e.symbols := by
  have plain := Expr.recovers_code e fits
  cases e with
  | number text => exact plain
  | call name args =>
    intro rest closed
    have semicolon : Closed (';' :: rest) := by simp [Closed, isSeparator]
    rw [Expr.topCode, String.toList_append, List.append_assoc]
    exact (plain (';' :: rest) semicolon).trans (by rw [symbols?_separator rest (by decide)])

theorem Program.symbols?_code (p : Program) (fits : p.Fits .extended) :
    symbols? p.code.toList = some p.symbols := by
  have each : ∀ e ∈ p.body, Recovers e.topCode.toList e.symbols := by
    intro e member
    exact Expr.recovers_topCode e (Program.fits_body fits e member)
  have whole := recovers_joined _ ['\n'] p.body (by simp) (by simp [isSeparator]) each []
    (by simp [Closed])
  simpa [Program.code, Program.symbols, String.toList_intercalate, Function.comp_def, Code.symbols?]
    using whole

theorem Program.decode?_code {g : Grammar} {p : Program} (fits : p.Fits g) :
    Program.decode? p.code = some p := by
  have symbols := Program.symbols?_code p (fun x member => Kind.fits_extended (fits x member))
  have derived : Program.Derives (p.symbols.map fun x => ⟨x.kind, x.text, 0⟩) p := by
    apply Expr.derivesAll_symbols
    simp [Function.comp_def, Token.symbol, Program.symbols]
  rw [Program.decode?, symbols, Option.bind_some, Program.read_derived derived]
  rfl

end Source

open Source

theorem run_readable {g : Grammar} {input : String} {c : Compilation}
    (run : Compilation.run g input = .ok c) :
    c.tokens.map Token.symbol = c.source.symbols ∧ Program.decode? c.output = some c.source := by
  obtain ⟨scanned, read, _, written⟩ := Compilation.run_ok_iff.mp run
  obtain ⟨symbols, fits, _⟩ := spread_of_read scanned read
  exact ⟨symbols, written ▸ Program.decode?_code fits⟩

/-- Code is uniquely readable: decoding inverts shaping and writing on every fitting program. So
    two compilations have the same output exactly when they have the same source program, and that
    exactly when they have the same symbols. -/
theorem output_uniquely_readable :
    (∀ g (p : Program), p.Fits g → ∃ output, (Target.Program.ofSource p).write = .ok output ∧
      Program.decode? output = some p) ∧
    ∀ g₁ g₂ s₁ s₂ c₁ c₂, Compilation.run g₁ s₁ = .ok c₁ → Compilation.run g₂ s₂ = .ok c₂ →
      (c₁.output = c₂.output ↔ c₁.source = c₂.source) ∧
      (c₁.source = c₂.source ↔ c₁.tokens.map Token.symbol = c₂.tokens.map Token.symbol) := by
  constructor
  · intro g p fits
    exact ⟨p.code, Target.Program.write_ofSource p, Program.decode?_code fits⟩
  · intro g₁ g₂ s₁ s₂ c₁ c₂ first second
    obtain ⟨symbols₁, decoded₁⟩ := run_readable first
    obtain ⟨symbols₂, decoded₂⟩ := run_readable second
    refine ⟨⟨?_, ?_⟩, ⟨?_, ?_⟩⟩
    · intro same
      rw [same, decoded₂] at decoded₁
      exact (Option.some.inj decoded₁).symm
    · intro same
      rw [(Compilation.run_ok_iff.mp first).2.2.2, (Compilation.run_ok_iff.mp second).2.2.2, same]
    · intro same
      rw [symbols₁, symbols₂, same]
    · intro same
      have derived : Program.Derives c₁.tokens c₂.source :=
        Expr.derivesAll_symbols _ (same.trans symbols₂)
      have read := (Compilation.run_ok_iff.mp first).2.1
      rw [Program.read_derived derived] at read
      exact (Except.ok.inj read).symm

theorem output_readable_in_two_layouts :
    ∃ c₁ c₂, Compilation.run .basic "(add 2 (sub 4 2))" = .ok c₁ ∧
      Compilation.run .extended "\t(add 2(sub 4\n2) )" = .ok c₂ ∧
      c₁.source = c₂.source ∧ c₁.tokens.map Token.symbol = c₂.tokens.map Token.symbol ∧
      c₂.source.Fits .extended ∧
      ∃ output, (Target.Program.ofSource c₂.source).write = .ok output ∧
        Program.decode? output = some c₂.source := by
  have first : compile .basic "(add 2 (sub 4 2))" = .ok "add(2, sub(4, 2));" := by cbv
  have second : compile .extended "\t(add 2(sub 4\n2) )" = .ok "add(2, sub(4, 2));" := by cbv
  obtain ⟨c₁, run₁, output₁⟩ := map_eq_ok_iff.mp first
  obtain ⟨c₂, run₂, output₂⟩ := map_eq_ok_iff.mp second
  obtain ⟨scanned, read, _⟩ := Compilation.run_ok_iff.mp run₂
  obtain ⟨_, fits, _⟩ := spread_of_read scanned read
  obtain ⟨sources, symbols⟩ := output_uniquely_readable.2 _ _ _ _ c₁ c₂ run₁ run₂
  have same := sources.mp (output₁.trans output₂.symm)
  exact ⟨c₁, c₂, run₁, run₂, same, symbols.mp same, fits, output_uniquely_readable.1 _ _ fits⟩

end PrefixCalls
