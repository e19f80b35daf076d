import Mathlib
import PrefixCalls.Proofs.Legality
import PrefixCalls.Proofs.Stages
import PrefixCalls.Proofs.Symbols

/-!
The extended grammar over the basic one. It takes nothing away: what the basic grammar scans it
scans the same, it refuses no earlier, and what no extension is about it refuses at the same place.
-/
namespace PrefixCalls

open Text Token

theorem legal_extended {g : Grammar} {before after : List Char} {c : Char}
    (legal : Legal g before c after) : Legal .extended before c after := by
  unfold Legal at legal ⊢
  grind [Grammar.allowsOperators, Grammar.allowsDecimals]

theorem legal_of_plain {g : Grammar} (other : Grammar) {before after : List Char} {c : Char}
    (plain : isOperator c = false) (solid : c ≠ '.') (legal : Legal g before c after) :
    Legal other before c after := by
  unfold Legal at legal ⊢
  grind

theorem FirstIllegal.extended {before after text : List Char} {c : Char}
    (first : FirstIllegal .basic text before c after) (plain : isOperator c = false)
    (solid : c ≠ '.') : FirstIllegal .extended text before c after where
  split := first.split
  illegal := fun legal => first.illegal (legal_of_plain .basic plain solid legal)
  earlier := fun left d right split => legal_extended (first.earlier left d right split)

theorem ends_extended {g : Grammar} {x : Lexeme} {rest : List Char}
    (solid : ∀ c ∈ rest.head?, c ≠ '.') (ends : x.Ends g rest) : x.Ends .extended rest := by
  obtain ⟨kind, chars⟩ := x
  cases kind with
  | leftParen => trivial
  | rightParen => trivial
  | name => exact ends
  | number =>
    constructor
    · exact ends.1
    · intro _ _ d more point
      have first : '.' ∈ rest.head? := by simp [point]
      exact absurd rfl (solid '.' first)

theorem tiling_extended {g : Grammar} {offset : Nat} {ts : List Token} {cs after : List Char}
    (tiling : Tiling g offset ts cs after) (solid : ∀ c ∈ after.head?, c ≠ '.') :
    Tiling .extended offset ts cs after := by
  induction tiling with
  | nil blank => exact .nil blank
  | @cons _ x _ _ cs after blank fits ends others ih =>
    -- What comes behind a token is tiled too, so it does not start with a point.
    have front : ∀ c ∈ (cs ++ after).head?, c ≠ '.' := by
      cases cs with
      | nil => exact solid
      | cons c cs =>
        intro d first
        cases first
        exact tiling_front others
    exact .cons blank (Kind.fits_extended fits) (ends_extended front ends) (ih solid)

theorem scan_extended {input : String} {ts : List Token} (scanned : scan .basic input = .ok ts) :
    scan .extended input = .ok ts :=
  scan_iff_tiling.mpr (tiling_extended (tiling_of_scan scanned) (by simp))

theorem refused_earlier {input : String} {d : Diagnostic}
    (refused : scan .extended input = .error d) :
    ∃ c p b q, d = .invalidCharacter c p ∧ scan .basic input = .error (.invalidCharacter b q) ∧
      q ≤ p := by
  obtain ⟨before, c, after, first, rfl, _⟩ := firstIllegal_of_refused refused
  cases scanned : scan .basic input with
  | ok ts =>
    rw [scan_extended scanned] at refused
    cases refused
  | error e =>
    obtain ⟨left, b, right, other, rfl, _⟩ := firstIllegal_of_refused scanned
    have illegal : ¬ Legal .basic before c after := fun legal =>
      first.illegal (legal_extended legal)
    obtain ⟨more, rfl⟩ := other.le first.split illegal
    refine ⟨c, _, b, _, rfl, rfl, ?_⟩
    rw [byteSize_append]
    omega

/-- The extended grammar is conservative over the basic one. What the basic grammar scans compiles
    the same, refused by the reader or not; a text that the extended grammar does not scan is
    refused by the basic one no later; and a character that is neither an operator nor a point is
    refused by both at the same place. -/
theorem extended_conservative (input : String) :
    (∀ ts, scan .basic input = .ok ts → scan .extended input = .ok ts ∧
      Compilation.run .extended input = Compilation.run .basic input) ∧
    (∀ d, scan .extended input = .error d → ∃ c p b q, d = .invalidCharacter c p ∧
      scan .basic input = .error (.invalidCharacter b q) ∧ q ≤ p) ∧
    ∀ c q, scan .basic input = .error (.invalidCharacter c q) → isOperator c = false → c ≠ '.' →
      scan .extended input = .error (.invalidCharacter c q) := by
  refine ⟨?_, fun d => refused_earlier, ?_⟩
  · intro ts scanned
    have again := scan_extended scanned
    exact ⟨again, by rw [Compilation.run_eq_stages, Compilation.run_eq_stages, again, scanned]⟩
  · intro c q refused plain solid
    obtain ⟨before, d, after, first, same, _⟩ := firstIllegal_of_refused refused
    cases same
    exact scan_of_firstIllegal (first.extended plain solid)

theorem extended_conservative_cases :
    Compilation.run .extended "(f 12" = Compilation.run .basic "(f 12" ∧
    (∃ b q, scan .basic "(+ 1.5 λ)" = .error (.invalidCharacter b q) ∧ q ≤ 7) ∧
    scan .extended "(f λ 1.5)" = .error (.invalidCharacter 'λ' 3) := by
  have scanned : scan .basic "(f 12" =
      .ok [⟨.leftParen, "(", 0⟩, ⟨.name, "f", 1⟩, ⟨.number, "12", 3⟩] := by cbv
  have later : scan .extended "(+ 1.5 λ)" = .error (.invalidCharacter 'λ' 7) := by cbv
  have plain : scan .basic "(f λ 1.5)" = .error (.invalidCharacter 'λ' 3) := by cbv
  refine ⟨((extended_conservative _).1 _ scanned).2, ?_, ?_⟩
  · obtain ⟨c, p, b, q, same, earlier, le⟩ := (extended_conservative _).2.1 _ later
    cases same
    exact ⟨b, q, earlier, le⟩
  · exact (extended_conservative _).2.2 _ _ plain (by decide) (by decide)

end PrefixCalls
