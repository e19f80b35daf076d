import Mathlib
import PrefixCalls.Proofs.Alike
import PrefixCalls.Proofs.Stages

/-!
Texts put one behind the other with blanks between. The first text is compiled as if it stood alone,
and then the second one, with all its places moved on by the size of what stands in front of it.
-/
namespace PrefixCalls

open Text Token
open List (Forall₂)

def Diagnostic.moved (bytes : Nat) : Diagnostic → Diagnostic
  | .invalidCharacter c position => .invalidCharacter c (bytes + position)
  | .unexpectedToken expected token =>
    .unexpectedToken expected { token with loc := bytes + token.loc }
  | .unexpectedEnd expected position => .unexpectedEnd expected (bytes + position)
  | .nestedStatement within => .nestedStatement within

def Behind (bytes p q : Nat) : Prop := q = bytes + p

theorem moved_of_alike {bytes : Nat} {d e : Diagnostic} (alike : d.Alike (Behind bytes) e) :
    e = d.moved bytes := by
  cases alike with
  | invalidCharacter c places => rw [Diagnostic.moved, places]
  | unexpectedEnd expected places => rw [Diagnostic.moved, places]
  | unexpectedToken expected tokens =>
    rw [Diagnostic.moved, ← tokens.starts, ← tokens.kind, ← tokens.text]

namespace Token

theorem scanFrom_behind (g : Grammar) (bytes offset : Nat) (cs : List Char) :
    Agree (Diagnostic.Alike (Behind bytes)) (Forall₂ (Token.Alike (Behind bytes)))
      (scanFrom g offset cs) (scanFrom g (bytes + offset) cs) := by
  apply scan_induction (P := fun n cs result =>
    Agree (Diagnostic.Alike (Behind bytes)) (Forall₂ (Token.Alike (Behind bytes)))
      result (scanFrom g (bytes + n) cs))
  case done =>
    intro n
    rw [scanFrom_nil]
    exact .ok .nil
  case blank =>
    intro n c cs blank others
    rw [scanFrom_blank g _ c cs blank, Nat.add_assoc]
    exact others
  case lexeme =>
    intro n x rest fits ends others
    rw [scanFrom_front g _ fits ends, Nat.add_assoc]
    have first : (x.token n).Alike (Behind bytes) (x.token (bytes + n)) :=
      x.token_alike rfl (Nat.add_assoc _ _ _)
    exact others.map fun _ _ alike => .cons first alike
  case invalid =>
    intro n c cs solid missing
    rw [scanFrom_invalid g _ c cs solid missing]
    exact .error (.invalidCharacter c rfl)

theorem scanFrom_append (g : Grammar) (offset : Nat) (cs : List Char) {c : Char}
    (rest : List Char) (blank : isBlank c) :
    scanFrom g offset (cs ++ c :: rest) = (scanFrom g offset cs).bind fun ts =>
      (scanFrom g (offset + byteSize cs) (c :: rest)).map (ts ++ ·) := by
  apply scan_induction (P := fun n cs result => scanFrom g n (cs ++ c :: rest) =
    result.bind fun ts => (scanFrom g (n + byteSize cs) (c :: rest)).map (ts ++ ·))
  case done =>
    intro n
    simp only [List.nil_append, byteSize_nil, Nat.add_zero, Except.bind]
    cases scanFrom g n (c :: rest) <;> rfl
  case blank =>
    intro n d cs first others
    rw [List.cons_append, scanFrom_blank g n d _ first, others, byteSize_cons, Nat.add_assoc]
  case lexeme =>
    intro n x cs fits ends others
    rw [List.append_assoc, scanFrom_front g n fits (Lexeme.ends_before_blank rest blank ends),
      others, byteSize_append, Nat.add_assoc]
    cases scanFrom g (n + byteSize x.chars) cs with
    | error d => rfl
    | ok ts =>
      simp only [Except.bind, Except.map]
      cases scanFrom g _ (c :: rest) <;> rfl
  case invalid =>
    intro n d cs solid missing
    have again := Lexeme.split?_none_head (cs ++ c :: rest) missing
    rw [List.cons_append, scanFrom_invalid g n d _ solid again]
    rfl

theorem scan_joined (g : Grammar) (a w b : String) (blank : ∀ c ∈ w.toList, isBlank c)
    (some_blank : w ≠ "") :
    scan g (a ++ w ++ b) = (scan g a).bind fun ts =>
      (scanFrom g (a.utf8ByteSize + w.utf8ByteSize) b.toList).map (ts ++ ·) := by
  have gap := scanFrom_gap g a.utf8ByteSize w.toList b.toList blank
  obtain ⟨c, others, chars⟩ : ∃ c others, w.toList = c :: others := by
    apply List.exists_cons_of_ne_nil
    simpa using some_blank
  rw [chars] at gap
  rw [scan, String.toList_append, String.toList_append, List.append_assoc, chars,
    List.cons_append, scanFrom_append g 0 _ _ (blank c (by simp [chars]))]
  rw [List.cons_append] at gap
  rw [Nat.zero_add, byteSize_toList, gap, ← chars, byteSize_toList]
  rfl

theorem scan_joined_behind {g : Grammar} {a w : String} (b : String)
    (blank : ∀ c ∈ w.toList, isBlank c) (some_blank : w ≠ "") {ts : List Token}
    (scanned : scan g a = .ok ts) :
    Agree (Diagnostic.Alike (Behind (a.utf8ByteSize + w.utf8ByteSize)))
      (fun us whole => ∃ vs, whole = ts ++ vs ∧
        Forall₂ (Token.Alike (Behind (a.utf8ByteSize + w.utf8ByteSize))) us vs)
      (scan g b) (scan g (a ++ w ++ b)) := by
  rw [scan_joined g a w b blank some_blank, scanned]
  exact (scanFrom_behind g _ 0 b.toList).map_right fun us vs alike => ⟨vs, rfl, alike⟩

end Token

namespace Source

theorem Program.read_append {ts : List Token} {p : Program} (read : Program.read ts = .ok p)
    (us : List Token) :
    Program.read (ts ++ us) = (Program.read us).map fun q => ⟨p.body ++ q.body⟩ := by
  have derived := Program.read_sound read
  cases us with
  | nil =>
    rw [List.append_nil, read, Program.read, Expr.readAll_nil]
    simp [Except.map]
  | cons u us =>
    have stop : Token.stopOf (ts ++ u :: us) = Token.stopOf (u :: us) := by
      simp [Token.stopOf, List.getLast?_append, List.getLast?_cons]
    rw [Program.read, Expr.readAll_append _ derived, stop, Program.read]
    cases Expr.readAll (Token.stopOf (u :: us)) (u :: us) <;> rfl

theorem Program.read_behind {R : Nat → Nat → Prop} {ts us vs : List Token} {p : Program}
    (read : Program.read ts = .ok p) (alike : Forall₂ (Token.Alike R) us vs) :
    Agree (Diagnostic.Alike R) (fun q whole => whole = ⟨p.body ++ q.body⟩)
      (Program.read us) (Program.read (ts ++ vs)) := by
  rw [Program.read_append read vs]
  exact (Program.read_alike alike).map_right fun q q' same => by rw [same]

theorem Program.read_stuck {ts : List Token} {expected : Expected} {t : Token}
    (refused : Program.read ts = .error (.unexpectedToken expected t)) (us : List Token) :
    Program.read (ts ++ us) = .error (.unexpectedToken expected t) := by
  rw [← Nesting.verdict_error_iff] at refused ⊢
  rcases Nesting.verdict_refused refused with
    ⟨before, u, after, s, rfl, walked, stuck⟩ | ⟨_, _, _, _, _, _, _, other⟩
  · simp [Nesting.verdict, Nesting.check, Nesting.walk_append, walked, Nesting.walk, stuck,
      Except.bind]
  · cases other

end Source

open Source

/-- The whole has the expressions of the first part and then those of the second. Its output has a
    line break between theirs, unless one of them has no expressions. -/
structure Compilation.MadeOf (first second whole : Compilation) : Prop where
  source : whole.source.body = first.source.body ++ second.source.body
  target : whole.target.body = first.target.body ++ second.target.body
  output : first.source.body ≠ [] → second.source.body ≠ [] →
    whole.output = first.output ++ "\n" ++ second.output
  behindNothing : first.source.body = [] → whole.output = second.output
  beforeNothing : second.source.body = [] → whole.output = first.output

theorem Compilation.madeOf_append (ts us vs : List Token) (p q : Program) :
    MadeOf ⟨ts, p, Target.Program.ofSource p, p.code⟩ ⟨us, q, Target.Program.ofSource q, q.code⟩
      ⟨vs, ⟨p.body ++ q.body⟩, Target.Program.ofSource ⟨p.body ++ q.body⟩,
        Program.code ⟨p.body ++ q.body⟩⟩ where
  source := rfl
  target := List.map_append
  output := by
    intro front back
    simp only [Program.code, List.map_append]
    exact String.intercalate_append_of_ne_nil (by simpa using front) (by simpa using back)
  behindNothing := by
    intro empty
    have nothing : p.body = [] := empty
    simp only [nothing, List.nil_append]
  beforeNothing := by
    intro empty
    have nothing : q.body = [] := empty
    simp only [nothing, List.append_nil]

theorem run_behind {g : Grammar} {a w : String} (b : String) (blank : ∀ c ∈ w.toList, isBlank c)
    (some_blank : w ≠ "") {first : Compilation} (compiled : Compilation.run g a = .ok first) :
    Agree (Diagnostic.Alike (Behind (a.utf8ByteSize + w.utf8ByteSize)))
      (Compilation.MadeOf first) (Compilation.run g b) (Compilation.run g (a ++ w ++ b)) := by
  rw [Compilation.run_eq_stages] at compiled
  obtain ⟨ts, scanned, later⟩ := bind_eq_ok_iff.mp compiled
  obtain ⟨p, read, rfl⟩ := map_eq_ok_iff.mp later
  rw [Compilation.run_eq_stages, Compilation.run_eq_stages]
  apply (scan_joined_behind b blank some_blank scanned).bind
  intro us whole split
  obtain ⟨vs, rfl, alike⟩ := split
  apply (Program.read_behind read alike).map
  intro q both same
  rw [same]
  exact Compilation.madeOf_append ..

/-- Compilation distributes over texts with blanks between them. Two texts that compile make a
    text that compiles to both; behind a text that compiles, a refusal is moved on; a refusal of the
    first text by the scanner stands, and one by the reader at a token if the second text is
    scanned. -/
theorem compilation_distributes (g : Grammar) (a w b : String)
    (blank : ∀ c ∈ w.toList, isBlank c) (some_blank : w ≠ "") :
    (∀ first second, Compilation.run g a = .ok first → Compilation.run g b = .ok second →
      ∃ whole, Compilation.run g (a ++ w ++ b) = .ok whole ∧
        Compilation.MadeOf first second whole) ∧
    (∀ first d, Compilation.run g a = .ok first → Compilation.run g b = .error d →
      Compilation.run g (a ++ w ++ b) = .error (d.moved (a.utf8ByteSize + w.utf8ByteSize))) ∧
    (∀ d, Compilation.run g a = .error d → d.stage = .lex →
      Compilation.run g (a ++ w ++ b) = .error d) ∧
    ∀ expected t us, Compilation.run g a = .error (.unexpectedToken expected t) →
      scan g b = .ok us →
      Compilation.run g (a ++ w ++ b) = .error (.unexpectedToken expected t) := by
  refine ⟨?_, ?_, ?_, ?_⟩
  · intro first second compiled compiledB
    exact (compiledB ▸ run_behind b blank some_blank compiled).of_ok
  · intro first d compiled refused
    obtain ⟨e, refusedB, alike⟩ := (refused ▸ run_behind b blank some_blank compiled).of_error
    rw [refusedB, moved_of_alike alike]
  · intro d refused lex
    rcases Compilation.run_error_iff.mp refused with scanned | ⟨ts, _, unread⟩
    · refine Compilation.run_error_iff.mpr (.inl ?_)
      rw [scan_joined g a w b blank some_blank, scanned]
      rfl
    · rw [Program.read_refused unread] at lex
      cases lex
  · intro expected t us refused scannedB
    rcases Compilation.run_error_iff.mp refused with scanned | ⟨ts, scanned, unread⟩
    · cases scanFrom_refused scanned
    · obtain ⟨_, whole, vs, rfl, _⟩ :=
        (scannedB ▸ scan_joined_behind b blank some_blank scanned).of_ok
      exact Compilation.run_error_iff.mpr (.inr ⟨_, whole, Program.read_stuck unread vs⟩)

theorem compilation_distributes_over_lines :
    (∃ whole, Compilation.run .extended ("(print 1)" ++ "\n" ++ "2.5") = .ok whole ∧
      whole.output = "print(1);\n2.5") ∧
    Compilation.run .extended ("(print 1)" ++ "\n" ++ "1 (g") =
      .error (.unexpectedEnd .closingParen 14) ∧
    Compilation.run .extended ("(λ" ++ "\n" ++ "2.5") = .error (.invalidCharacter 'λ' 1) ∧
    Compilation.run .extended ("1 )" ++ "\n" ++ "2.5") =
      .error (.unexpectedToken .expression ⟨.rightParen, ")", 2⟩) := by
  have call : Compilation.run .extended "(print 1)" =
      .ok ⟨[⟨.leftParen, "(", 0⟩, ⟨.name, "print", 1⟩, ⟨.number, "1", 7⟩, ⟨.rightParen, ")", 8⟩],
        ⟨[.call "print" [.number "1"]]⟩, ⟨[.statement (.call "print" [.number "1"])]⟩,
        "print(1);"⟩ := by cbv
  have number : Compilation.run .extended "2.5" =
      .ok ⟨[⟨.number, "2.5", 0⟩], ⟨[.number "2.5"]⟩, ⟨[.number "2.5"]⟩, "2.5"⟩ := by cbv
  have unclosed : Compilation.run .extended "1 (g" =
      .error (.unexpectedEnd .closingParen 4) := by cbv
  have illegal : Compilation.run .extended "(λ" = .error (.invalidCharacter 'λ' 1) := by cbv
  have misplaced : Compilation.run .extended "1 )" =
      .error (.unexpectedToken .expression ⟨.rightParen, ")", 2⟩) := by cbv
  have blank : ∀ c ∈ "\n".toList, isBlank c := by simp [isBlank]
  have law := fun a b => compilation_distributes .extended a "\n" b blank (by decide)
  obtain ⟨whole, compiled, made⟩ := (law _ _).1 _ _ call number
  refine ⟨⟨whole, compiled, made.output (by simp) (by simp)⟩, ?_, ?_, ?_⟩
  · exact (law _ _).2.1 _ _ call unclosed
  · exact (law _ _).2.2.1 _ illegal rfl
  · exact (law _ _).2.2.2 _ _ _ misplaced (Compilation.run_ok_iff.mp number).1

end PrefixCalls
