import PrefixCalls.Token.Basic
import PrefixCalls.Token.Scan

/-!
The lexeme at the front of a text, said without cutting. A lexeme is found exactly when its
characters fit its kind and the text behind it does not carry it on.
-/
namespace PrefixCalls

namespace Text

def Halts (p : Char → Bool) (cs : List Char) : Prop := ∀ c ∈ cs.head?, p c = false

theorem halts_dropWhile (p : Char → Bool) (cs : List Char) : Halts p (cs.dropWhile p) := by
  intro c first
  have outside := List.head?_dropWhile_not p cs
  rw [Option.mem_def] at first
  simpa only [first] using outside

theorem halts_left {p : Char → Bool} {cs ds : List Char} (halts : Halts p (cs ++ ds)) :
    Halts p cs := by
  cases cs with
  | nil => simp [Halts]
  | cons c cs => exact halts

theorem takeWhile_run {p : Char → Bool} {run rest : List Char} (inside : ∀ c ∈ run, p c)
    (halts : Halts p rest) : (run ++ rest).takeWhile p = run := by
  rw [List.takeWhile_append_of_pos inside]
  cases rest with
  | nil => simp
  | cons c rest => simp [halts c rfl]

theorem dropWhile_run {p : Char → Bool} {run rest : List Char} (inside : ∀ c ∈ run, p c)
    (halts : Halts p rest) : (run ++ rest).dropWhile p = rest := by
  rw [List.dropWhile_append_of_pos inside]
  cases rest with
  | nil => rfl
  | cons c rest => simp [halts c rfl]

theorem run_takeWhile {p : Char → Bool} {c : Char} (cs : List Char) (first : p c) :
    (c :: cs).takeWhile p ≠ [] ∧ ∀ d ∈ (c :: cs).takeWhile p, p d := by
  refine ⟨by simp [first], ?_⟩
  intro d member
  exact List.all_eq_true.mp List.all_takeWhile d member

theorem isAlpha_of_isDigit {c : Char} (digit : c.isDigit) : c.isAlpha = false := by
  have range : 48 ≤ c.toNat ∧ c.toNat ≤ 57 := Char.isDigit_iff_toNat.mp digit
  have upper : ¬ 'A'.val ≤ c.val := by
    intro high
    have : 65 ≤ c.toNat := UInt32.le_iff_toNat_le.mp high
    omega
  have lower : ¬ 'a'.val ≤ c.val := by
    intro high
    have : 97 ≤ c.toNat := UInt32.le_iff_toNat_le.mp high
    omega
  have notUpper : c.isUpper = false := decide_eq_false (fun both => upper both.1)
  have notLower : c.isLower = false := Bool.and_eq_false_iff.mpr (.inl (decide_eq_false lower))
  exact Bool.or_eq_false_iff.mpr ⟨notUpper, notLower⟩

theorem isAlpha_apart {c : Char} (letter : c.isAlpha) : c ≠ '.' ∧ c.isDigit = false := by
  refine ⟨by rintro rfl; simp at letter, ?_⟩
  cases digit : c.isDigit with
  | false => rfl
  | true =>
    rw [isAlpha_of_isDigit digit] at letter
    cases letter

theorem isOperator_apart {c : Char} (operator : isOperator c) :
    c ≠ '(' ∧ c ≠ ')' ∧ c.isAlpha = false ∧ c.isDigit = false := by
  simp only [isOperator, Bool.or_eq_true, beq_iff_eq] at operator
  rcases operator with (((rfl | rfl) | rfl) | rfl) | rfl <;> decide

theorem isBlank_apart {c : Char} (blank : isBlank c) :
    c ≠ '(' ∧ c ≠ ')' ∧ c ≠ '.' ∧ c.isAlpha = false ∧ c.isDigit = false ∧ isOperator c = false := by
  simp only [isBlank, Bool.or_eq_true, beq_iff_eq] at blank
  rcases blank with (((rfl | rfl) | rfl) | rfl) | rfl <;> decide

end Text

namespace Lexeme

open Text Token

def Fits (g : Grammar) (x : Lexeme) : Prop := x.kind.Fits g x.chars

/-- The text behind the lexeme does not carry it on: no letter behind a word, no digit behind a
    number, and behind a run of digits no point with a digit where the grammar has decimals. -/
def Ends (g : Grammar) (x : Lexeme) (rest : List Char) : Prop :=
  match x.kind with
  | .leftParen => True
  | .rightParen => True
  | .name => IsWord x.chars → Halts Char.isAlpha rest
  | .number => Halts Char.isDigit rest ∧
      (g.allowsDecimals → IsDigits x.chars → ∀ d more, rest = '.' :: d :: more → d.isDigit = false)

theorem splitNumber_digits {g : Grammar} {digits rest : List Char} (run : IsDigits digits)
    (ends : Ends g ⟨.number, digits⟩ rest) : splitNumber g (digits ++ rest) = (digits, rest) := by
  simp only [splitNumber, takeWhile_run run.2 ends.1, dropWhile_run run.2 ends.1]
  split
  · rename_i d more
    split
    · rename_i decimal
      simp only [Bool.and_eq_true] at decimal
      have outside := ends.2 decimal.1 run d more rfl
      rw [outside] at decimal
      simp at decimal
    · rfl
  · rfl

theorem splitNumber_decimal {g : Grammar} {whole part rest : List Char} (decimals : g.allowsDecimals)
    (left : IsDigits whole) (right : IsDigits part) (halts : Halts Char.isDigit rest) :
    splitNumber g (whole ++ '.' :: part ++ rest) = (whole ++ '.' :: part, rest) := by
  obtain ⟨d, more, rfl⟩ := List.exists_cons_of_ne_nil right.1
  have digit : d.isDigit := right.2 d (by simp)
  have point : Halts Char.isDigit ('.' :: d :: (more ++ rest)) := by
    intro c first
    cases first
    decide
  have taken := takeWhile_run right.2 halts
  have dropped := dropWhile_run right.2 halts
  simp only [List.append_assoc, List.cons_append] at taken dropped ⊢
  simp only [splitNumber, takeWhile_run left.2 point, dropWhile_run left.2 point, decimals, digit,
    Bool.and_self, ↓reduceIte, taken, dropped]

theorem point_not_digits (whole part : List Char) : ¬ IsDigits (whole ++ '.' :: part) := by
  intro digits
  have point := digits.2 '.' (by simp)
  simp at point

theorem splitNumber_spec (g : Grammar) (c : Char) (cs : List Char) (digit : c.isDigit) :
    Kind.Fits g .number (splitNumber g (c :: cs)).1 ∧
    Ends g ⟨.number, (splitNumber g (c :: cs)).1⟩ (splitNumber g (c :: cs)).2 := by
  have whole : IsDigits ((c :: cs).takeWhile Char.isDigit) := run_takeWhile cs digit
  have halts := halts_dropWhile Char.isDigit (c :: cs)
  unfold splitNumber
  split
  · rename_i d rest point
    rw [point] at halts
    split
    · rename_i decimal
      simp only [Bool.and_eq_true] at decimal
      have part : IsDigits ((d :: rest).takeWhile Char.isDigit) := run_takeWhile rest decimal.2
      refine ⟨.inr ⟨decimal.1, _, _, whole, part, rfl⟩, halts_dropWhile _ _, ?_⟩
      intro _ digits
      exact absurd digits (point_not_digits _ _)
    · rename_i other
      refine ⟨.inl whole, halts, ?_⟩
      intro decimals _ e more same
      cases same
      simpa [decimals] using other
  · rename_i other
    refine ⟨.inl whole, halts, ?_⟩
    intro _ _ d more same
    exact absurd same (other d more)

theorem split?_spec {g : Grammar} {cs rest : List Char} {x : Lexeme}
    (found : split? g cs = some (x, rest)) : x.Fits g ∧ x.Ends g rest := by
  cases cs with
  | nil => simp [split?] at found
  | cons c cs =>
    simp only [split?] at found
    repeat' split at found
    all_goals simp only [Option.some.injEq, Prod.mk.injEq, reduceCtorEq] at found
    all_goals obtain ⟨rfl, rfl⟩ := found
    · rename_i opening
      exact ⟨by rw [opening]; rfl, trivial⟩
    · rename_i closing
      exact ⟨by rw [closing]; rfl, trivial⟩
    · rename_i letter
      exact ⟨.inl (run_takeWhile cs letter), fun _ => halts_dropWhile _ _⟩
    · rename_i digit
      exact splitNumber_spec g c cs digit
    · rename_i letter _ operator
      simp only [Bool.and_eq_true] at operator
      refine ⟨.inr ⟨operator.1, c, operator.2, rfl⟩, ?_⟩
      intro word
      exact absurd (word.2 c (by simp)) letter

theorem split?_word {g : Grammar} {word rest : List Char} (run : IsWord word)
    (halts : Halts Char.isAlpha rest) : split? g (word ++ rest) = some (⟨.name, word⟩, rest) := by
  obtain ⟨c, cs, rfl⟩ := List.exists_cons_of_ne_nil run.1
  have letter : c.isAlpha := run.2 c (by simp)
  have notOpening : c ≠ '(' := by rintro rfl; simp at letter
  have notClosing : c ≠ ')' := by rintro rfl; simp at letter
  have taken := takeWhile_run run.2 halts
  have dropped := dropWhile_run run.2 halts
  rw [List.cons_append] at taken dropped ⊢
  simp only [split?, notOpening, notClosing, letter, ↓reduceIte, taken, dropped]

theorem number_head {g : Grammar} {number : List Char} (fits : Kind.Fits g .number number) :
    ∃ c cs, number = c :: cs ∧ c.isDigit := by
  rcases fits with run | ⟨_, whole, part, left, _, rfl⟩
  · obtain ⟨c, cs, rfl⟩ := List.exists_cons_of_ne_nil run.1
    exact ⟨c, cs, rfl, run.2 c (by simp)⟩
  · obtain ⟨c, cs, rfl⟩ := List.exists_cons_of_ne_nil left.1
    exact ⟨c, cs ++ '.' :: part, rfl, left.2 c (by simp)⟩

theorem split?_number {g : Grammar} {number rest : List Char}
    (fits : Kind.Fits g .number number) (ends : Ends g ⟨.number, number⟩ rest) :
    split? g (number ++ rest) = some (⟨.number, number⟩, rest) := by
  have cut : splitNumber g (number ++ rest) = (number, rest) := by
    rcases fits with run | ⟨decimals, whole, part, left, right, rfl⟩
    · exact splitNumber_digits run ends
    · exact splitNumber_decimal decimals left right ends.1
  obtain ⟨c, cs, rfl, digit⟩ := number_head fits
  have notOpening : c ≠ '(' := by rintro rfl; simp at digit
  have notClosing : c ≠ ')' := by rintro rfl; simp at digit
  have notLetter := isAlpha_of_isDigit digit
  rw [List.cons_append] at cut ⊢
  simp only [split?, notOpening, notClosing, notLetter, digit, Bool.false_eq_true, ↓reduceIte, cut]

theorem split?_eq_some_iff {g : Grammar} {cs rest : List Char} {x : Lexeme} :
    split? g cs = some (x, rest) ↔ x.Fits g ∧ x.Ends g rest ∧ cs = x.chars ++ rest := by
  constructor
  · intro found
    have spec := split?_spec found
    exact ⟨spec.1, spec.2, (split?_append found).symm⟩
  · intro spec
    obtain ⟨fits, ends, rfl⟩ := spec
    obtain ⟨kind, chars⟩ := x
    cases kind with
    | leftParen => cases fits; simp [split?]
    | rightParen => cases fits; simp [split?]
    | name =>
      rcases fits with word | ⟨operators, c, operator, same⟩
      · exact split?_word word (ends word)
      · cases same
        have apart := isOperator_apart operator
        simp [split?, apart, operators, operator]
    | number => exact split?_number fits ends

theorem split?_kind (g : Grammar) (c : Char) (cs ds : List Char) :
    (split? g (c :: cs)).map (·.1.kind) = (split? g (c :: ds)).map (·.1.kind) := by
  simp only [split?]
  repeat' split
  all_goals rfl

theorem ends_nil (g : Grammar) (x : Lexeme) : x.Ends g [] := by
  unfold Ends
  split <;> simp [Halts]

theorem ends_blank (g : Grammar) (x : Lexeme) {c : Char} (rest : List Char) (blank : isBlank c) :
    x.Ends g (c :: rest) := by
  have apart := isBlank_apart blank
  unfold Ends
  split <;> simp [Halts, apart]

theorem ends_number {g : Grammar} {x : Lexeme} {rest : List Char} (number : x.kind = .number)
    (ends : x.Ends g rest) : Halts Char.isDigit rest := by
  simp only [Ends, number] at ends
  exact ends.1

theorem ends_of_head (g : Grammar) {x : Lexeme} {c : Char} (rest : List Char) (solid : c ≠ '.')
    (letter : x.kind = .name → IsWord x.chars → c.isAlpha = false)
    (digit : x.kind = .number → c.isDigit = false) : x.Ends g (c :: rest) := by
  unfold Ends
  split <;> simp_all [Halts]

theorem ends_head {g : Grammar} {x : Lexeme} {c : Char} {cs : List Char} (ds : List Char)
    (solid : c ≠ '.') (ends : x.Ends g (c :: cs)) : x.Ends g (c :: ds) := by
  unfold Ends at ends ⊢
  split <;> simp_all [Halts]

theorem ends_point {g : Grammar} {x : Lexeme} {rest : List Char} :
    x.Ends g ('.' :: rest) ↔
      (x.kind = .number → g.allowsDecimals → IsDigits x.chars → Halts Char.isDigit rest) := by
  unfold Ends
  cases rest <;> split <;> simp_all [Halts]

theorem ends_before_blank {g : Grammar} {x : Lexeme} {cs : List Char} {c : Char} (rest : List Char)
    (blank : isBlank c) (ends : x.Ends g cs) : x.Ends g (cs ++ c :: rest) := by
  cases cs with
  | nil => exact ends_blank g x rest blank
  | cons d cs =>
    -- Behind a point one more character is looked at, and only there can the blank matter.
    by_cases point : d = '.'
    · subst point
      rw [ends_point] at ends
      rw [List.cons_append, ends_point]
      intro number decimals digits
      cases cs with
      | nil => simp [Halts, isBlank_apart blank]
      | cons e cs => exact ends number decimals digits
    · exact ends_head _ point ends

theorem split?_eq_none_iff {g : Grammar} {c : Char} {cs : List Char} :
    split? g (c :: cs) = none ↔
      c ≠ '(' ∧ c ≠ ')' ∧ c.isAlpha = false ∧ c.isDigit = false ∧
        (g.allowsOperators && isOperator c) = false := by
  simp only [split?]
  repeat' split
  all_goals simp_all

theorem split?_none_head {g : Grammar} {c : Char} {cs : List Char} (ds : List Char)
    (missing : split? g (c :: cs) = none) : split? g (c :: ds) = none :=
  split?_eq_none_iff.mpr (split?_eq_none_iff.mp missing)

theorem split?_blank (g : Grammar) {c : Char} (cs : List Char) (blank : isBlank c) :
    split? g (c :: cs) = none := by
  simp [split?, isBlank_apart blank]

theorem split?_point (g : Grammar) (cs : List Char) : split? g ('.' :: cs) = none := by
  simp [split?, isOperator]

theorem fits_found {g : Grammar} {x : Lexeme} (fits : x.Fits g) :
    split? g x.chars = some (x, []) :=
  split?_eq_some_iff.mpr ⟨fits, ends_nil g x, by simp⟩

theorem fits_head {g : Grammar} {x : Lexeme} (fits : x.Fits g) :
    ∃ c cs, x.chars = c :: cs ∧ isBlank c = false ∧ c ≠ '.' := by
  have found := fits_found fits
  obtain ⟨c, cs, same⟩ := List.exists_cons_of_ne_nil (split?_chars_ne_nil found)
  rw [same] at found
  refine ⟨c, cs, same, ?_, ?_⟩
  · cases blank : isBlank c with
    | false => rfl
    | true => rw [split?_blank g cs blank] at found; cases found
  · rintro rfl
    rw [split?_point] at found
    cases found

theorem fits_solid {g : Grammar} {x : Lexeme} (fits : x.Fits g) :
    ∀ c ∈ x.chars, isBlank c = false := by
  intro c member
  rw [Bool.eq_false_iff]
  intro blank
  obtain ⟨opening, closing, point, letter, digit, operator⟩ := isBlank_apart blank
  obtain ⟨kind, chars⟩ := x
  cases kind with
  | leftParen =>
    cases fits
    exact opening (List.mem_singleton.mp member)
  | rightParen =>
    cases fits
    exact closing (List.mem_singleton.mp member)
  | name =>
    rcases fits with word | ⟨_, d, sign, same⟩
    · simp [word.2 c member] at letter
    · cases same
      simp [List.mem_singleton.mp member, sign] at operator
  | number =>
    rcases fits with digits | ⟨_, whole, part, left, right, same⟩
    · simp [digits.2 c member] at digit
    · cases same
      rcases List.mem_append.mp member with front | behind
      · simp [left.2 c front] at digit
      · rcases List.mem_cons.mp behind with same | inside
        · exact point same
        · simp [right.2 c inside] at digit

theorem fits_kind {g : Grammar} {x : Lexeme} {c : Char} {cs : List Char} (fits : x.Fits g)
    (chars : x.chars = c :: cs) :
    (c.isAlpha → x.kind = .name) ∧ (c.isDigit → x.kind = .number) := by
  have found := fits_found fits
  rw [chars] at found
  -- The kind is that of the first character standing alone.
  have kinds := split?_kind g c cs []
  rw [found] at kinds
  constructor
  · intro letter
    have word : Fits g ⟨.name, [c]⟩ := .inl ⟨by simp, by simp [letter]⟩
    simpa [fits_found word] using kinds
  · intro digit
    have number : Fits g ⟨.number, [c]⟩ := .inl ⟨by simp, by simp [digit]⟩
    simpa [fits_found number] using kinds

/-- Next to each other the two would be read as one: they are both words or both numbers. -/
def Joins (x y : Lexeme) : Prop :=
  (x.kind = .name ∧ IsWord x.chars ∧ y.kind = .name ∧ IsWord y.chars) ∨
    (x.kind = .number ∧ y.kind = .number)

theorem word_of_letter {g : Grammar} {x : Lexeme} {c : Char} {cs : List Char} (fits : x.Fits g)
    (chars : x.chars = c :: cs) (letter : c.isAlpha) : x.kind = .name ∧ IsWord x.chars := by
  have name := (fits_kind fits chars).1 letter
  have text : Kind.Fits g .name x.chars := name ▸ fits
  refine ⟨name, ?_⟩
  rcases text with word | ⟨_, d, operator, single⟩
  · exact word
  · rw [chars, List.cons.injEq] at single
    have apart := (isOperator_apart operator).2.2.1
    rw [← single.1, letter] at apart
    cases apart

theorem ends_iff_not_joins {g : Grammar} (x : Lexeme) {y : Lexeme} (rest : List Char)
    (fits : y.Fits g) : x.Ends g (y.chars ++ rest) ↔ ¬ Joins x y := by
  obtain ⟨c, cs, chars, _, solid⟩ := fits_head fits
  constructor
  · rintro ends (⟨name, word, _, other⟩ | ⟨number, other⟩)
    · simp only [Ends, name] at ends
      have outside := ends word c (by simp [chars])
      rw [other.2 c (by simp [chars])] at outside
      cases outside
    · have numeral : Kind.Fits g .number y.chars := other ▸ fits
      obtain ⟨d, ds, same, digit⟩ := number_head numeral
      have outside := ends_number number ends d (by simp [same])
      rw [digit] at outside
      cases outside
  · intro apart
    rw [chars, List.cons_append]
    apply ends_of_head g _ solid
    · intro name word
      cases letter : c.isAlpha with
      | false => rfl
      | true =>
        obtain ⟨other, otherWord⟩ := word_of_letter fits chars letter
        exact absurd (.inl ⟨name, word, other, otherWord⟩) apart
    · intro number
      cases digit : c.isDigit with
      | false => rfl
      | true => exact absurd (.inr ⟨number, (fits_kind fits chars).2 digit⟩) apart

end Lexeme

end PrefixCalls
