import Mathlib
import PrefixCalls.Proofs.Decoding

/-!
What compilation keeps. The words of the output, which are its names and numbers, are those of the
input in the same order, and its punctuation is counted: a pair of parentheses for each call, a
semicolon for each call at the top, and a line break between two expressions at the top.
-/
namespace PrefixCalls

open Text Token Source

def Token.Kind.isWord : Kind → Bool
  | name => true
  | number => true
  | leftParen => false
  | rightParen => false

namespace Code

def isMark (c : Char) : Bool := isSeparator c || c == '(' || c == ')'

def words (cs : List Char) : List (List Char) := (cs.splitOnP isMark).filter (· ≠ [])

theorem words_mark {m : Char} (cs ds : List Char) (mark : isMark m) :
    words (cs ++ m :: ds) = words cs ++ words ds := by
  rw [words, List.splitOnP_append_cons cs ds mark, List.filter_append]
  rfl

@[simp] theorem words_nil : words [] = [] := rfl

theorem words_single {cs : List Char} (some_char : cs ≠ []) (unmarked : ∀ c ∈ cs, isMark c = false) :
    words cs = [cs] := by
  rw [words, List.splitOnP_eq_singleton unmarked]
  simp [some_char]

theorem words_marks {sep : List Char} (cs ds : List Char) (some_mark : sep ≠ [])
    (marks : ∀ m ∈ sep, isMark m) : words (cs ++ (sep ++ ds)) = words cs ++ words ds := by
  induction sep generalizing cs with
  | nil => exact absurd rfl some_mark
  | cons m sep ih =>
    obtain ⟨first, others⟩ := List.forall_mem_cons.mp marks
    rw [List.cons_append, words_mark _ _ first]
    by_cases last : sep = []
    · simp [last]
    · rw [← List.nil_append (sep ++ ds), ih [] last others, words_nil, List.nil_append]

theorem words_intercalate {sep : List Char} (some_mark : sep ≠ []) (marks : ∀ m ∈ sep, isMark m)
    (texts : List (List Char)) : words (sep.intercalate texts) = texts.flatMap words := by
  induction texts with
  | nil => rfl
  | cons text texts ih =>
    cases texts with
    | nil => simp
    | cons next texts =>
      rw [List.intercalate_cons_cons, List.append_assoc, words_marks _ _ some_mark marks, ih]
      rfl

theorem flatten_words (cs : List Char) : (words cs).flatten = cs.filter (fun c => !isMark c) := by
  have pieces : (cs.splitOnP isMark).flatten = cs.filter (fun c => !isMark c) := by
    induction cs with
    | nil => rfl
    | cons c cs ih =>
      rw [List.splitOnP_cons_eq_if_modifyHead]
      by_cases mark : isMark c
      · simp [mark, ih]
      · obtain ⟨first, others, start⟩ := List.exists_cons_of_ne_nil (List.splitOnP_ne_nil isMark cs)
        rw [start, List.flatten_cons] at ih
        simp [mark, start, ← ih]
  rw [words, ← pieces]
  exact List.flatten_filter_ne_nil

theorem isMark_apart {m : Char} (mark : isMark m) :
    m.isAlpha = false ∧ m.isDigit = false ∧ isOperator m = false ∧ m ≠ '.' := by
  simp only [isMark, isSeparator, Bool.or_eq_true, beq_iff_eq] at mark
  rcases mark with (((((rfl | rfl) | rfl) | rfl) | rfl) | rfl) <;> decide

theorem unmarked {c : Char} (plain : c.isAlpha ∨ c.isDigit ∨ isOperator c ∨ c = '.') :
    isMark c = false := by
  by_contra mark
  obtain ⟨letter, digit, operator, point⟩ := isMark_apart (Bool.eq_true_of_not_eq_false mark)
  simp [letter, digit, operator, point] at plain

theorem fits_unmarked {g : Grammar} {kind : Kind} {cs : List Char} (word : kind.isWord)
    (fits : kind.Fits g cs) : cs ≠ [] ∧ ∀ c ∈ cs, isMark c = false := by
  cases kind with
  | leftParen => cases word
  | rightParen => cases word
  | name =>
    rcases fits with run | ⟨_, c, operator, rfl⟩
    · exact ⟨run.1, fun c member => unmarked (.inl (run.2 c member))⟩
    · exact ⟨by simp, by simpa using unmarked (.inr (.inr (.inl operator)))⟩
  | number =>
    rcases fits with run | ⟨_, whole, part, left, right, rfl⟩
    · exact ⟨run.1, fun c member => unmarked (.inr (.inl (run.2 c member)))⟩
    · refine ⟨by simp, ?_⟩
      intro c member
      rcases List.mem_append.mp member with before | behind
      · exact unmarked (.inr (.inl (left.2 c before)))
      · rcases List.mem_cons.mp behind with point | digit
        · exact unmarked (.inr (.inr (.inr point)))
        · exact unmarked (.inr (.inl (right.2 c digit)))

theorem count_intercalate (m : Char) (sep : List Char) (texts : List (List Char)) :
    (sep.intercalate texts).count m =
      (texts.map (List.count m)).sum + (texts.length - 1) * sep.count m := by
  induction texts with
  | nil => simp
  | cons text texts ih =>
    cases texts with
    | nil => simp
    | cons next texts =>
      rw [List.intercalate_cons_cons, List.append_assoc, List.count_append, List.count_append, ih]
      simp only [List.map_cons, List.sum_cons, List.length_cons, Nat.add_sub_cancel]
      ring

end Code

open Code

def wordsOf (xs : List Symbol) : List (List Char) :=
  (xs.filter fun x => x.kind.isWord).map fun x => x.text.toList

def opened (xs : List Symbol) : Nat := xs.countP fun x => x.kind = .leftParen

namespace Source

def Expr.isCall : Expr → Bool
  | .number _ => false
  | .call _ _ => true

theorem Expr.fits_args {g : Grammar} {name : String} {args : List Expr}
    (fits : ∀ x ∈ (Expr.call name args).symbols, x.Fits g) :
    Kind.Fits g .name name.toList ∧ ∀ e ∈ args, ∀ x ∈ e.symbols, x.Fits g := by
  refine ⟨fits ⟨.name, name⟩ (by simp [Expr.symbols]), ?_⟩
  intro e member x inside
  apply fits
  simp only [Expr.symbols, Expr.symbolsOf_eq_flatMap, List.mem_cons, List.mem_append,
    List.mem_flatMap]
  exact .inr (.inr (.inl ⟨e, member, inside⟩))

theorem Expr.wordsOf_call (name : String) (args : List Expr) :
    wordsOf (Expr.call name args).symbols =
      name.toList :: args.flatMap fun e => wordsOf e.symbols := by
  simp [wordsOf, Expr.symbols, Kind.isWord, List.filter_flatMap, List.map_flatMap]

theorem Expr.opened_call (name : String) (args : List Expr) :
    opened (Expr.call name args).symbols = (args.map fun e => opened e.symbols).sum + 1 := by
  simp [opened, Expr.symbols, List.countP_flatMap, Function.comp_def]

theorem Expr.words_code {g : Grammar} (e : Expr) (fits : ∀ x ∈ e.symbols, x.Fits g) :
    words e.code.toList = wordsOf e.symbols := by
  induction e using Expr.induction_args with
  | number text =>
    have numeral : Kind.Fits g .number text.toList := fits ⟨.number, text⟩ (by simp [Expr.symbols])
    obtain ⟨some_char, unmarked⟩ := fits_unmarked rfl numeral
    rw [Expr.code, words_single some_char unmarked]
    rfl
  | call name args ih =>
    obtain ⟨named, inner⟩ := Expr.fits_args fits
    obtain ⟨some_char, unmarked⟩ := fits_unmarked rfl named
    have shape := Expr.code_call name args []
    rw [List.append_nil] at shape
    have each : ∀ e ∈ args, words e.code.toList = wordsOf e.symbols :=
      fun e member => ih e member (inner e member)
    have opening : isMark '(' := by decide
    have closing : isMark ')' := by decide
    have commas : ∀ m ∈ [',', ' '], isMark m := by simp [isMark, isSeparator]
    rw [shape, words_mark _ _ opening, words_single some_char unmarked, words_mark _ _ closing,
      words_intercalate (by simp) commas, List.flatMap_map, List.flatMap_congr each,
      Expr.wordsOf_call]
    simp

theorem Expr.count_code {g : Grammar} {m : Char} (mark : isMark m) (inner : m ∉ [',', ' '])
    (e : Expr) (fits : ∀ x ∈ e.symbols, x.Fits g) :
    e.code.toList.count m = opened e.symbols * ['(', ')'].count m := by
  -- Names and numbers add nothing to the count, whatever the mark is.
  have absent : ∀ {cs : List Char}, (∀ c ∈ cs, isMark c = false) → cs.count m = 0 := by
    intro cs unmarked
    apply List.count_eq_zero_of_not_mem
    intro inside
    simp [unmarked m inside] at mark
  induction e using Expr.induction_args with
  | number text =>
    have numeral : Kind.Fits g .number text.toList := fits ⟨.number, text⟩ (by simp [Expr.symbols])
    rw [Expr.code, absent (fits_unmarked rfl numeral).2]
    simp [opened, Expr.symbols]
  | call name args ih =>
    obtain ⟨named, fitting⟩ := Expr.fits_args fits
    have shape := Expr.code_call name args []
    rw [List.append_nil] at shape
    have each : ∀ e ∈ args, e.code.toList.count m = opened e.symbols * ['(', ')'].count m :=
      fun e member => ih e member (fitting e member)
    have arguments : ([',', ' '].intercalate (args.map fun e => e.code.toList)).count m =
        (args.map fun e => opened e.symbols).sum * ['(', ')'].count m := by
      rw [count_intercalate, List.count_eq_zero_of_not_mem inner, List.map_map, Nat.mul_zero,
        Nat.add_zero, ← List.sum_map_mul_right]
      exact congrArg List.sum (List.map_congr_left each)
    rw [shape, List.count_append, absent (fits_unmarked rfl named).2, List.count_cons,
      List.count_append, arguments, Expr.opened_call]
    simp only [List.count_cons, List.count_nil]
    ring

theorem Expr.words_topCode {g : Grammar} (e : Expr) (fits : ∀ x ∈ e.symbols, x.Fits g) :
    words e.topCode.toList = wordsOf e.symbols := by
  have plain := Expr.words_code e fits
  cases e with
  | number text => exact plain
  | call name args =>
    have semicolon : isMark ';' := by decide
    rw [Expr.topCode, String.toList_append, ← plain]
    exact (words_mark _ [] semicolon).trans (List.append_nil _)

theorem Expr.count_topCode {g : Grammar} {m : Char} (mark : isMark m) (inner : m ∉ [',', ' '])
    (e : Expr) (fits : ∀ x ∈ e.symbols, x.Fits g) :
    e.topCode.toList.count m =
      opened e.symbols * ['(', ')'].count m + (if e.isCall then 1 else 0) * [';'].count m := by
  have plain := Expr.count_code mark inner e fits
  cases e with
  | number text => simpa [Expr.isCall, Expr.topCode, Expr.code] using plain
  | call name args =>
    rw [Expr.topCode, String.toList_append, List.count_append, plain]
    simp [Expr.isCall]

theorem Program.toList_code (p : Program) :
    p.code.toList = ['\n'].intercalate (p.body.map fun e => e.topCode.toList) := by
  simp [Program.code, String.toList_intercalate, Function.comp_def]

theorem Program.words_code {g : Grammar} {p : Program} (fits : p.Fits g) :
    words p.code.toList = wordsOf p.symbols := by
  have each : ∀ e ∈ p.body, words e.topCode.toList = wordsOf e.symbols :=
    fun e member => Expr.words_topCode e (Program.fits_body fits e member)
  have breaks : ∀ m ∈ ['\n'], isMark m := by simp [isMark, isSeparator]
  rw [Program.toList_code, words_intercalate (by simp) breaks, List.flatMap_map,
    List.flatMap_congr each]
  simp [wordsOf, Program.symbols, List.filter_flatMap, List.map_flatMap]

theorem Program.count_code {g : Grammar} {p : Program} (fits : p.Fits g) {m : Char}
    (mark : isMark m) (inner : m ∉ [',', ' ']) :
    p.code.toList.count m = opened p.symbols * ['(', ')'].count m +
      p.body.countP Expr.isCall * [';'].count m + (p.body.length - 1) * ['\n'].count m := by
  have entries : ∀ es : List Expr, (∀ e ∈ es, ∀ x ∈ e.symbols, x.Fits g) →
      (es.map fun e => e.topCode.toList.count m).sum = opened (es.flatMap Expr.symbols) *
        ['(', ')'].count m + es.countP Expr.isCall * [';'].count m := by
    intro es
    induction es with
    | nil => simp [opened]
    | cons e es ih =>
      intro fitting
      obtain ⟨first, others⟩ := List.forall_mem_cons.mp fitting
      have counted := Expr.count_topCode mark inner e first
      have calls : opened ((e :: es).flatMap Expr.symbols) =
          opened e.symbols + opened (es.flatMap Expr.symbols) := by
        simp [opened]
      rw [List.map_cons, List.sum_cons, counted, ih others, List.countP_cons, calls]
      ring
  rw [Program.toList_code, count_intercalate, List.map_map, List.length_map]
  rw [Program.symbols, Expr.symbolsOf_eq_flatMap, ← entries p.body (Program.fits_body fits)]
  rfl

end Source

def Text.isFrame (c : Char) : Bool := isBlank c || c == '(' || c == ')'

theorem filter_symbol {g : Grammar} {x : Symbol} (fits : x.Fits g) :
    x.text.toList.filter (fun c => !isFrame c) = (wordsOf [x]).flatten := by
  obtain ⟨kind, text⟩ := x
  have framed : kind.isWord → text.toList.filter (fun c => !isFrame c) = text.toList := by
    intro word
    apply List.filter_eq_self.mpr
    intro c member
    have solid : isBlank c = false := Lexeme.fits_solid (x := ⟨kind, text.toList⟩) fits c member
    have unmarked := (fits_unmarked word fits).2 c member
    simp only [isMark, Bool.or_eq_false_iff] at unmarked
    simp [isFrame, solid, unmarked]
  cases kind with
  | leftParen =>
    have paren : text.toList = ['('] := fits
    simp [paren, wordsOf, Kind.isWord, isFrame]
  | rightParen =>
    have paren : text.toList = [')'] := fits
    simp [paren, wordsOf, Kind.isWord, isFrame]
  | name => simpa [wordsOf, Kind.isWord] using framed rfl
  | number => simpa [wordsOf, Kind.isWord] using framed rfl

theorem filter_spread {g : Grammar} {last : Option Kind} {xs : List Symbol} {cs : List Char}
    (spread : Spread last xs cs) (fits : ∀ x ∈ xs, x.Fits g) :
    cs.filter (fun c => !isFrame c) = (wordsOf xs).flatten := by
  have none_left : ∀ {gap : List Char}, (∀ c ∈ gap, isBlank c) →
      gap.filter (fun c => !isFrame c) = [] := by
    intro gap blank
    apply List.filter_eq_nil_iff.mpr
    intro c member
    simp [isFrame, blank c member]
  induction spread with
  | nil blank => exact none_left blank
  | @cons _ x xs gap cs blank _ _ ih =>
    obtain ⟨first, others⟩ := List.forall_mem_cons.mp fits
    have parted : wordsOf (x :: xs) = wordsOf [x] ++ wordsOf xs := by
      rw [wordsOf, wordsOf, wordsOf, ← List.map_append, ← List.filter_append]
      rfl
    rw [List.filter_append, List.filter_append, none_left blank, filter_symbol first, ih others,
      parted, List.flatten_append, List.nil_append]

/-- Compilation loses, repeats, changes and moves no word, and its punctuation is counted. -/
theorem words_kept_in_order (g : Grammar) (input output : String)
    (compiled : compile g input = .ok output) :
    ∃ c, Compilation.run g input = .ok c ∧ c.output = output ∧
      output.toList.filter (fun x => !isMark x) = input.toList.filter (fun x => !isFrame x) ∧
      words output.toList =
        (c.tokens.filter fun t => t.kind.isWord).map (fun t => t.text.toList) ∧
      output.toList.count '(' = c.tokens.countP (fun t => t.kind = .leftParen) ∧
      output.toList.count ')' = c.tokens.countP (fun t => t.kind = .leftParen) ∧
      output.toList.count ';' = c.source.body.countP Expr.isCall ∧
      output.toList.count '\n' = c.source.body.length - 1 := by
  obtain ⟨c, run, rfl⟩ := map_eq_ok_iff.mp compiled
  obtain ⟨scanned, read, _, written⟩ := Compilation.run_ok_iff.mp run
  obtain ⟨symbols, fits, spread⟩ := spread_of_read scanned read
  have kept : words c.output.toList = wordsOf c.source.symbols := by
    rw [written, Program.words_code fits]
  have calls : opened c.source.symbols = c.tokens.countP (fun t => t.kind = .leftParen) := by
    rw [← symbols, opened, List.countP_map]
    rfl
  refine ⟨c, run, rfl, ?_, ?_, ?_, ?_, ?_, ?_⟩
  · rw [← flatten_words, kept, filter_spread spread fits]
  · rw [kept, ← symbols, wordsOf, List.filter_map, List.map_map]
    rfl
  all_goals
    rw [written, Program.count_code fits (by decide) (by decide)]
    simp [calls]

theorem words_kept_in_nested_call :
    compile .extended "(+ 1.5(f))\n7" = .ok "+(1.5, f());\n7" ∧
    ∃ c, Compilation.run .extended "(+ 1.5(f))\n7" = .ok c ∧
      [['+'], ['1', '.', '5'], ['f'], ['7']] =
        (c.tokens.filter fun t => t.kind.isWord).map (fun t => t.text.toList) ∧
      2 = c.tokens.countP (fun t => t.kind = .leftParen) ∧
      1 = c.source.body.countP Expr.isCall := by
  have compiled : compile .extended "(+ 1.5(f))\n7" = .ok "+(1.5, f());\n7" := by cbv
  obtain ⟨c, run, _, _, texts, opening, _, semicolons, _⟩ := words_kept_in_order _ _ _ compiled
  exact ⟨compiled, c, run, texts, opening, semicolons⟩

end PrefixCalls
