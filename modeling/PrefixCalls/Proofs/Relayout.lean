import Mathlib
import PrefixCalls.Proofs.Alike
import PrefixCalls.Proofs.Stages

/-!
Blanks replaced by other blanks. Where a text has some blanks any others will do as well: the
outcome stays the same, and a refusal stays at the same character.
-/
namespace PrefixCalls

open Text Token
open List (Forall₂)

/-- Each whole run of blanks of the first text has some run of blanks in its place in the second,
    and all other characters are the same. -/
inductive Relaid : List Char → List Char → Prop where
  | nil : Relaid [] []
  | solid {c : Char} {cs ds : List Char} (solid : isBlank c = false) (others : Relaid cs ds) :
      Relaid (c :: cs) (c :: ds)
  | gap {run other cs ds : List Char} (some_blank : run ≠ []) (blank : ∀ c ∈ run, isBlank c)
      (whole : Halts isBlank cs) (some_other : other ≠ []) (otherBlank : ∀ c ∈ other, isBlank c)
      (others : Relaid cs ds) : Relaid (run ++ cs) (other ++ ds)

def solids (cs : List Char) : List Char := cs.filter fun c => !isBlank c

/-- The offsets fall between characters of the two texts, with the same characters in front of
    them, blanks apart. -/
def Abreast (cs ds : List Char) (p q : Nat) : Prop :=
  ∃ front rest front' rest', cs = front ++ rest ∧ ds = front' ++ rest' ∧
    byteSize front = p ∧ byteSize front' = q ∧ solids front = solids front'

theorem solids_append (cs ds : List Char) : solids (cs ++ ds) = solids cs ++ solids ds :=
  List.filter_append cs ds

theorem solids_blank {gap : List Char} (blank : ∀ c ∈ gap, isBlank c) : solids gap = [] := by
  rw [solids, List.filter_eq_nil_iff]
  intro c member
  simp [blank c member]

namespace Relaid

variable {c : Char} {cs ds : List Char}

theorem nil_left (relaid : Relaid [] ds) : ds = [] := by
  generalize same : [] = cs at relaid
  cases relaid with
  | nil => rfl
  | solid => cases same
  | gap some_blank =>
    obtain ⟨empty, _⟩ := List.append_eq_nil_iff.mp same.symm
    contradiction

theorem solid_left (solid : isBlank c = false) (relaid : Relaid (c :: cs) ds) :
    ∃ rest, ds = c :: rest ∧ Relaid cs rest := by
  generalize same : c :: cs = text at relaid
  cases relaid with
  | nil => cases same
  | solid _ others =>
    cases same
    exact ⟨_, rfl, others⟩
  | @gap run _ _ _ some_blank blank =>
    obtain ⟨b, more, rfl⟩ := List.exists_cons_of_ne_nil some_blank
    cases same
    rw [blank c (by simp)] at solid
    cases solid

theorem blank_left (first : isBlank c) (relaid : Relaid (c :: cs) ds) :
    ∃ gap rest, ds = gap ++ rest ∧ (∀ d ∈ gap, isBlank d) ∧ Relaid cs rest := by
  generalize same : c :: cs = text at relaid
  cases relaid with
  | nil => cases same
  | solid solid =>
    cases same
    rw [solid] at first
    cases first
  | @gap run other cs' ds' some_blank blank whole some_other otherBlank others =>
    obtain ⟨b, more, rfl⟩ := List.exists_cons_of_ne_nil some_blank
    cases same
    -- The other run stays as long as blanks are left on this side, and goes with the last of them.
    by_cases last : more = []
    · subst last
      exact ⟨other, ds', rfl, otherBlank, others⟩
    · have shorter : ∀ d ∈ more, isBlank d := fun d member => blank d (by simp [member])
      exact ⟨[], other ++ ds', rfl, by simp, .gap last shorter whole some_other otherBlank others⟩

theorem word_left {word : List Char} (solid : ∀ c ∈ word, isBlank c = false)
    (relaid : Relaid (word ++ cs) ds) : ∃ rest, ds = word ++ rest ∧ Relaid cs rest := by
  induction word generalizing ds with
  | nil => exact ⟨ds, rfl, relaid⟩
  | cons c word ih =>
    obtain ⟨first, others⟩ := List.forall_mem_cons.mp solid
    obtain ⟨rest, rfl, later⟩ := solid_left first relaid
    obtain ⟨rest, rfl, last⟩ := ih others later
    exact ⟨rest, rfl, last⟩

theorem halts {p : Char → Bool} (apart : ∀ c, isBlank c → p c = false) (relaid : Relaid cs ds)
    (halts : Halts p cs) : Halts p ds := by
  cases relaid with
  | nil => exact halts
  | solid => exact halts
  | gap _ _ _ some_other otherBlank =>
    obtain ⟨b, more, rfl⟩ := List.exists_cons_of_ne_nil some_other
    intro c first
    cases first
    exact apart b (otherBlank b (by simp))

theorem ends {g : Grammar} {x : Lexeme} (relaid : Relaid cs ds) (ends : x.Ends g cs) :
    x.Ends g ds := by
  cases relaid with
  | nil => exact ends
  | gap _ _ _ some_other otherBlank others =>
    obtain ⟨b, more, rfl⟩ := List.exists_cons_of_ne_nil some_other
    exact Lexeme.ends_blank g x _ (otherBlank b (by simp))
  | @solid c cs ds solid others =>
    -- Only a point has a look at the character behind it.
    by_cases point : c = '.'
    · subst point
      rw [Lexeme.ends_point] at ends ⊢
      intro number decimals digits
      have apart : ∀ c, isBlank c → c.isDigit = false := fun c blank =>
        (isBlank_apart blank).2.2.2.2.1
      exact others.halts apart (ends number decimals digits)
    · exact Lexeme.ends_head ds point ends

end Relaid

/-- Two scans stand at the same character: the same has been passed, blanks apart, and what is left
    has blanks in the same places. -/
structure InStep (text other past cs past' ds : List Char) : Prop where
  first : text = past ++ cs
  second : other = past' ++ ds
  passed : solids past = solids past'
  left : Relaid cs ds

namespace InStep

variable {text other past cs past' ds : List Char}

theorem abreast (step : InStep text other past cs past' ds) :
    Abreast text other (byteSize past) (byteSize past') :=
  ⟨past, cs, past', ds, step.first, step.second, rfl, rfl, step.passed⟩

theorem blank {c : Char} (step : InStep text other past (c :: cs) past' ds) (blank : isBlank c) :
    ∃ gap rest, ds = gap ++ rest ∧ (∀ d ∈ gap, isBlank d) ∧
      InStep text other (past ++ [c]) cs (past' ++ gap) rest := by
  obtain ⟨gap, rest, rfl, gapBlank, left⟩ := step.left.blank_left blank
  refine ⟨gap, rest, rfl, gapBlank, by simp [step.first], by simp [step.second], ?_, left⟩
  have single : ∀ d ∈ [c], isBlank d := by simpa using blank
  rw [solids_append, solids_append, solids_blank single, solids_blank gapBlank, step.passed]

theorem word {word : List Char} (step : InStep text other past (word ++ cs) past' ds)
    (solid : ∀ c ∈ word, isBlank c = false) :
    ∃ rest, ds = word ++ rest ∧ InStep text other (past ++ word) cs (past' ++ word) rest := by
  obtain ⟨rest, rfl, left⟩ := step.left.word_left solid
  refine ⟨rest, rfl, by simp [step.first], by simp [step.second], ?_, left⟩
  rw [solids_append, solids_append, step.passed]

end InStep

theorem scanFrom_inStep {g : Grammar} {text other past cs past' ds : List Char}
    (step : InStep text other past cs past' ds) :
    Agree (Diagnostic.Alike (Abreast text other)) (Forall₂ (Token.Alike (Abreast text other)))
      (scanFrom g (byteSize past) cs) (scanFrom g (byteSize past') ds) := by
  -- The induction is along the first scan; the invariant says where the second one stands.
  have run := scan_induction (g := g) (P := fun n cs result =>
    ∀ past past' ds, byteSize past = n → InStep text other past cs past' ds →
      Agree (Diagnostic.Alike (Abreast text other)) (Forall₂ (Token.Alike (Abreast text other)))
        result (scanFrom g (byteSize past') ds)) ?done ?blank ?lexeme ?invalid
  · exact run _ cs past past' ds rfl step
  case done =>
    intro n past past' ds size step
    rw [step.left.nil_left, scanFrom_nil]
    exact .ok .nil
  case blank =>
    intro n c cs blank others past past' ds size step
    obtain ⟨gap, rest, rfl, gapBlank, next⟩ := step.blank blank
    have passed := others (past ++ [c]) (past' ++ gap) rest (by simp [size]) next
    rw [byteSize_append] at passed
    rwa [scanFrom_gap g _ gap rest gapBlank]
  case lexeme =>
    intro n x cs fits ends others past past' ds size step
    obtain ⟨rest, rfl, next⟩ := step.word (Lexeme.fits_solid fits)
    have passed := others (past ++ x.chars) (past' ++ x.chars) rest (by simp [size]) next
    have stops := next.abreast
    rw [byteSize_append] at passed
    rw [byteSize_append, byteSize_append, size] at stops
    rw [scanFrom_front g _ fits (next.left.ends ends)]
    exact passed.map fun _ _ alike => .cons (x.token_alike (size ▸ step.abreast) stops) alike
  case invalid =>
    intro n c cs solid missing past past' ds size step
    obtain ⟨rest, rfl, next⟩ := step.left.solid_left solid
    rw [scanFrom_invalid g _ c rest solid (Lexeme.split?_none_head rest missing)]
    exact .error (.invalidCharacter c (size ▸ step.abreast))

theorem symbols_alike {R : Nat → Nat → Prop} {ts us : List Token}
    (alike : Forall₂ (Token.Alike R) ts us) : ts.map Token.symbol = us.map Token.symbol := by
  induction alike with
  | nil => rfl
  | cons first others ih => rw [List.map_cons, List.map_cons, first.symbol, ih]

/-- Other blanks in the places of blanks change nothing: both texts compile, to the same programs
    and the same output from the same symbols, or both are refused with the same diagnostic but for
    its place, and the places have the same characters in front of them, blanks apart. -/
theorem layout_immaterial (g : Grammar) (text other : String)
    (relaid : Relaid text.toList other.toList) :
    Agree (Diagnostic.Alike (Abreast text.toList other.toList))
      (fun c c' => c.source = c'.source ∧ c.target = c'.target ∧ c.output = c'.output ∧
        c.tokens.map Token.symbol = c'.tokens.map Token.symbol)
      (Compilation.run g text) (Compilation.run g other) := by
  have step : InStep text.toList other.toList [] text.toList [] other.toList :=
    ⟨rfl, rfl, rfl, relaid⟩
  rw [Compilation.run_eq_stages, Compilation.run_eq_stages]
  apply (scanFrom_inStep step).bind
  intro ts us alike
  apply (Source.Program.read_alike alike).map
  intro p q same
  rw [same]
  exact ⟨rfl, rfl, rfl, symbols_alike alike⟩

theorem layout_immaterial_unclosed :
    Compilation.run .basic "(f \t1" = .error (.unexpectedEnd .closingParen 5) ∧
    Compilation.run .basic "(f\n1" = .error (.unexpectedEnd .closingParen 4) ∧
    Abreast "(f \t1".toList "(f\n1".toList 5 4 := by
  have spaced : Compilation.run .basic "(f \t1" = .error (.unexpectedEnd .closingParen 5) := by cbv
  have broken : Compilation.run .basic "(f\n1" = .error (.unexpectedEnd .closingParen 4) := by cbv
  have number : Relaid ['1'] ['1'] := .solid (by decide) .nil
  have gap : Relaid ([' ', '\t'] ++ ['1']) (['\n'] ++ ['1']) :=
    .gap (by simp) (by simp [isBlank]) (by simp [Halts, isBlank]) (by simp) (by simp [isBlank])
      number
  have relaid : Relaid "(f \t1".toList "(f\n1".toList := .solid (by decide) (.solid (by decide) gap)
  have alike := layout_immaterial .basic _ _ relaid
  rw [spaced, broken] at alike
  cases alike with
  | error refusals =>
    cases refusals with
    | unexpectedEnd _ places => exact ⟨spaced, broken, places⟩

end PrefixCalls
