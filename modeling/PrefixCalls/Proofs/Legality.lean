import Mathlib
import PrefixCalls.Proofs.Tiling

/-!
Characters that may stand where they stand. Whether one may is decided by its neighbourhood: only a
decimal point needs a look around, at the digit behind it and the run of digits in front of it. A
scan is refused exactly when some character may not stand where it stands, and at the first one.
-/
namespace PrefixCalls

open Text Token

/-- A point between the two texts is inside a number: a digit comes right behind it, and right in
    front of it comes a whole run of digits that does not itself stand behind a point. -/
def Interior (before after : List Char) : Prop :=
  (∃ d ∈ after.head?, d.isDigit) ∧
    ∃ front run, before = front ++ run ∧ IsDigits run ∧
      ∀ c ∈ front.getLast?, c.isDigit = false ∧ c ≠ '.'

def Legal (g : Grammar) (before : List Char) (c : Char) (after : List Char) : Prop :=
  isBlank c ∨ c = '(' ∨ c = ')' ∨ c.isAlpha ∨ c.isDigit ∨ (g.allowsOperators ∧ isOperator c) ∨
    (g.allowsDecimals ∧ c = '.' ∧ Interior before after)

def AllLegal (g : Grammar) (before cs after : List Char) : Prop :=
  ∀ left c right, cs = left ++ c :: right → Legal g (before ++ left) c (right ++ after)

structure FirstIllegal (g : Grammar) (text before : List Char) (c : Char) (after : List Char) :
    Prop where
  split : text = before ++ c :: after
  illegal : ¬ Legal g before c after
  earlier : AllLegal g [] before (c :: after)

theorem FirstIllegal.le {g : Grammar} {text before after left right : List Char} {c d : Char}
    (first : FirstIllegal g text before c after) (split : text = left ++ d :: right)
    (illegal : ¬ Legal g left d right) : ∃ more, left = before ++ more := by
  rw [first.split] at split
  rcases List.append_eq_append_iff.mp split with ⟨more, longer, _⟩ | ⟨inner, shorter, same⟩
  · exact ⟨more, longer⟩
  · cases inner with
    | nil => exact ⟨[], by simpa using shorter.symm⟩
    | cons e inner =>
      simp only [List.cons_append, List.cons.injEq] at same
      obtain ⟨rfl, rfl⟩ := same
      exact absurd (first.earlier left d inner shorter) illegal

theorem FirstIllegal.unique {g : Grammar} {text before after left right : List Char} {c d : Char}
    (first : FirstIllegal g text before c after) (other : FirstIllegal g text left d right) :
    left = before ∧ d = c := by
  obtain ⟨more, longer⟩ := first.le other.split other.illegal
  obtain ⟨less, shorter⟩ := other.le first.split first.illegal
  have same : left = before := by
    rw [longer, List.append_assoc] at shorter
    have nothing := List.append_eq_nil_iff.mp (List.self_eq_append_right.mp shorter)
    rw [longer, nothing.1, List.append_nil]
  have splits := first.split.symm.trans other.split
  rw [same] at splits
  exact ⟨same, (List.cons.inj (List.append_cancel_left splits)).1.symm⟩

/-- No lexeme crosses from the first text into the second: the first does not end with a point or
    with a digit that the second carries on, and a point at the front of the second is not inside a
    number. -/
structure Seam (g : Grammar) (before rest : List Char) : Prop where
  solid : ∀ c ∈ before.getLast?, c ≠ '.' ∧ (c.isDigit → Halts Char.isDigit rest)
  outside : g.allowsDecimals → ∀ more, rest = '.' :: more → ¬ Interior before more

theorem interior_last {before after : List Char} (interior : Interior before after) :
    ∃ c ∈ before.getLast?, c.isDigit := by
  obtain ⟨_, front, run, rfl, digits, _⟩ := interior
  obtain ⟨init, c, rfl⟩ := (List.eq_nil_or_concat' run).resolve_left digits.1
  exact ⟨c, by simp, digits.2 c (by simp)⟩

theorem seam_nil (g : Grammar) (rest : List Char) : Seam g [] rest := by
  refine ⟨by simp, fun _ more _ interior => ?_⟩
  obtain ⟨c, last, _⟩ := interior_last interior
  simp at last

theorem seam_last {g : Grammar} (before : List Char) {c : Char} (rest : List Char) (solid : c ≠ '.')
    (other : c.isDigit = false) : Seam g (before ++ [c]) rest := by
  refine ⟨by simp [solid, other], fun _ more _ interior => ?_⟩
  obtain ⟨d, last, digit⟩ := interior_last interior
  rw [List.getLast?_concat, Option.mem_some] at last
  rw [← last, other] at digit
  cases digit

theorem seam_blank {g : Grammar} {before gap rest : List Char} (blank : ∀ c ∈ gap, isBlank c)
    (seam : Seam g before (gap ++ rest)) : Seam g (before ++ gap) rest := by
  rcases List.eq_nil_or_concat' gap with rfl | ⟨init, c, rfl⟩
  · rwa [List.append_nil]
  · have apart := isBlank_apart (blank c (by simp))
    rw [← List.append_assoc]
    exact seam_last _ _ apart.2.2.1 apart.2.2.2.2.1

theorem not_interior_decimal (front : List Char) {part more : List Char} (digits : IsDigits part) :
    ¬ Interior (front ++ '.' :: part) more := by
  rintro ⟨_, left, run, split, others, apart⟩
  rcases List.append_eq_append_iff.mp split with ⟨inner, rfl, same⟩ | ⟨inner, rfl, same⟩
  · -- The run lies behind the point, so in front of it is the point or a digit.
    cases inner with
    | nil =>
      have start : run = '.' :: part := same.symm
      have point := others.2 '.' (by simp [start])
      simp at point
    | cons c inner =>
      simp only [List.cons_append, List.cons.injEq] at same
      obtain ⟨rfl, rfl⟩ := same
      rcases List.eq_nil_or_concat' inner with rfl | ⟨init, d, rfl⟩
      · exact (apart '.' (by simp)).2 rfl
      · have last : d ∈ (front ++ '.' :: (init ++ [d])).getLast? := by
          rw [← List.cons_append, ← List.append_assoc, List.getLast?_concat]
          rfl
        have outside := (apart d last).1
        rw [digits.2 d (by simp)] at outside
        cases outside
  · have point := others.2 '.' (by simp [same])
    simp at point

theorem number_last {g : Grammar} {number : List Char} (fits : Kind.Fits g .number number) :
    ∃ init c, number = init ++ [c] ∧ c.isDigit := by
  rcases fits with digits | ⟨_, whole, part, _, digits, rfl⟩
  · obtain ⟨init, c, rfl⟩ := (List.eq_nil_or_concat' number).resolve_left digits.1
    exact ⟨init, c, rfl, digits.2 c (by simp)⟩
  · obtain ⟨init, c, rfl⟩ := (List.eq_nil_or_concat' part).resolve_left digits.1
    exact ⟨whole ++ '.' :: init, c, by simp, digits.2 c (by simp)⟩

theorem seam_number {g : Grammar} {number : List Char} (before : List Char) {rest : List Char}
    (fits : Kind.Fits g .number number) (ends : Lexeme.Ends g ⟨.number, number⟩ rest) :
    Seam g (before ++ number) rest := by
  constructor
  · obtain ⟨init, c, rfl, digit⟩ := number_last fits
    intro d last
    rw [← List.append_assoc, List.getLast?_concat, Option.mem_some] at last
    subst last
    exact ⟨by rintro rfl; simp at digit, fun _ => ends.1⟩
  · rintro decimals more rfl interior
    rcases fits with digits | ⟨_, whole, part, _, digits, rfl⟩
    · obtain ⟨⟨d, first, digit⟩, _⟩ := interior
      obtain ⟨tail, rfl⟩ := List.head?_eq_some_iff.mp first
      rw [ends.2 decimals digits d tail rfl] at digit
      cases digit
    · rw [← List.append_assoc] at interior
      exact not_interior_decimal _ digits interior

theorem seam_lexeme {g : Grammar} {x : Lexeme} (before : List Char) {rest : List Char}
    (fits : x.Fits g) (ends : x.Ends g rest) : Seam g (before ++ x.chars) rest := by
  obtain ⟨kind, chars⟩ := x
  cases kind with
  | leftParen => cases fits; exact seam_last before rest (by decide) (by decide)
  | rightParen => cases fits; exact seam_last before rest (by decide) (by decide)
  | number => exact seam_number before fits ends
  | name =>
    rcases fits with word | ⟨_, c, operator, same⟩
    · obtain ⟨init, c, rfl⟩ := (List.eq_nil_or_concat' chars).resolve_left word.1
      have apart := isAlpha_apart (word.2 c (by simp))
      rw [← List.append_assoc]
      exact seam_last _ _ apart.1 apart.2
    · cases same
      have solid : c ≠ '.' := by rintro rfl; simp [isOperator] at operator
      exact seam_last _ _ solid (isOperator_apart operator).2.2.2

theorem allLegal_append {g : Grammar} {before cs ds after : List Char}
    (first : AllLegal g before cs (ds ++ after)) (second : AllLegal g (before ++ cs) ds after) :
    AllLegal g before (cs ++ ds) after := by
  intro left c right split
  rcases List.append_eq_append_iff.mp split with ⟨inner, rfl, same⟩ | ⟨inner, rfl, same⟩
  · have legal := second inner c right same
    rwa [List.append_assoc] at legal
  · cases inner with
    | nil => simpa using second [] c right same.symm
    | cons d inner =>
      simp only [List.cons_append, List.cons.injEq] at same
      obtain ⟨rfl, rfl⟩ := same
      have legal := first left c inner rfl
      rwa [← List.append_assoc] at legal

theorem allLegal_single {g : Grammar} {before : List Char} {c : Char} {after : List Char}
    (legal : Legal g before c after) : AllLegal g before [c] after := by
  intro left d right split
  obtain ⟨rfl, rfl, rfl⟩ : left = [] ∧ d = c ∧ right = [] := by
    cases left <;> simp_all
  simpa using legal

theorem allLegal_plain {g : Grammar} {cs : List Char} (before after : List Char)
    (plain : ∀ c ∈ cs, ∀ left right, Legal g left c right) : AllLegal g before cs after := by
  rintro left c right rfl
  exact plain c (by simp) _ _

theorem allLegal_digits (g : Grammar) (before : List Char) {digits : List Char}
    (after : List Char) (run : IsDigits digits) : AllLegal g before digits after :=
  allLegal_plain _ _ fun c member _ _ => by simp [Legal, run.2 c member]

theorem interior_of_seam {g : Grammar} {before whole part after rest : List Char}
    (left : IsDigits whole) (right : IsDigits part) (seam : Seam g before (whole ++ rest)) :
    Interior (before ++ whole) (part ++ after) := by
  obtain ⟨d, tail, rfl⟩ := List.exists_cons_of_ne_nil right.1
  obtain ⟨e, others, rfl⟩ := List.exists_cons_of_ne_nil left.1
  refine ⟨⟨d, rfl, right.2 d (by simp)⟩, before, e :: others, rfl, left, ?_⟩
  intro c last
  obtain ⟨solid, halts⟩ := seam.solid c last
  refine ⟨?_, solid⟩
  cases digit : c.isDigit with
  | false => rfl
  | true =>
    have outside := halts digit e rfl
    rw [left.2 e (by simp)] at outside
    cases outside

theorem allLegal_number {g : Grammar} {before number after : List Char}
    (fits : Kind.Fits g .number number) (seam : Seam g before (number ++ after)) :
    AllLegal g before number after := by
  rcases fits with digits | ⟨decimals, whole, part, left, right, rfl⟩
  · exact allLegal_digits g before after digits
  · rw [List.append_assoc] at seam
    have interior : Interior (before ++ whole) (part ++ after) := interior_of_seam left right seam
    have point : Legal g (before ++ whole) '.' (part ++ after) := by simp [Legal, decimals, interior]
    have behind := allLegal_append (allLegal_single point) (allLegal_digits g _ after right)
    exact allLegal_append (allLegal_digits g before _ left) behind

theorem allLegal_lexeme {g : Grammar} {x : Lexeme} {before after : List Char} (fits : x.Fits g)
    (seam : Seam g before (x.chars ++ after)) : AllLegal g before x.chars after := by
  obtain ⟨kind, chars⟩ := x
  cases kind with
  | leftParen => cases fits; exact allLegal_single (by simp [Legal])
  | rightParen => cases fits; exact allLegal_single (by simp [Legal])
  | number => exact allLegal_number fits seam
  | name =>
    rcases fits with word | ⟨operators, c, operator, same⟩
    · exact allLegal_plain _ _ fun c member _ _ => by simp [Legal, word.2 c member]
    · cases same
      exact allLegal_single (by simp [Legal, operators, operator])

theorem allLegal_of_tiling {g : Grammar} {offset : Nat} {ts : List Token} {cs after : List Char}
    (tiling : Tiling g offset ts cs after) (before : List Char) (seam : Seam g before (cs ++ after)) :
    AllLegal g before cs after ∧ Seam g (before ++ cs) after := by
  have blanks : ∀ {gap : List Char}, (∀ c ∈ gap, isBlank c) → ∀ xs ys, AllLegal g xs gap ys :=
    fun blank xs ys => allLegal_plain xs ys fun c member _ _ => by simp [Legal, blank c member]
  induction tiling generalizing before with
  | nil blank => exact ⟨blanks blank _ _, seam_blank blank seam⟩
  | @cons _ x _ gap cs after blank fits ends others ih =>
    simp only [List.append_assoc] at seam
    have front := seam_blank blank seam
    have lexeme := allLegal_lexeme fits front
    obtain ⟨rest, last⟩ := ih _ (seam_lexeme (before ++ gap) fits ends)
    refine ⟨allLegal_append (blanks blank _ _) (allLegal_append lexeme rest), ?_⟩
    simpa only [List.append_assoc] using last

theorem illegal_of_seam {g : Grammar} {before after : List Char} {c : Char}
    (solid : isBlank c = false) (missing : Lexeme.split? g (c :: after) = none)
    (seam : Seam g before (c :: after)) : ¬ Legal g before c after := by
  obtain ⟨opening, closing, letter, digit, operator⟩ := Lexeme.split?_eq_none_iff.mp missing
  rintro (blank | rfl | rfl | alpha | numeral | ⟨operators, sign⟩ | ⟨decimals, rfl, interior⟩)
  · simp [solid] at blank
  · exact opening rfl
  · exact closing rfl
  · simp [letter] at alpha
  · simp [digit] at numeral
  · simp [operators, sign] at operator
  · exact seam.outside decimals after rfl interior

theorem firstIllegal_of_refused {g : Grammar} {input : String} {d : Diagnostic}
    (refused : scan g input = .error d) :
    ∃ before c after, FirstIllegal g input.toList before c after ∧
      d = .invalidCharacter c (byteSize before) ∧ ∃ ts, scan g (String.ofList before) = .ok ts := by
  obtain ⟨ts, before, c, after, split, tiling, solid, missing, rfl⟩ := tiling_of_refused refused
  obtain ⟨legal, seam⟩ := allLegal_of_tiling tiling [] (seam_nil g _)
  have illegal : ¬ Legal g before c after := illegal_of_seam solid missing seam
  have alone := tiling_before tiling [] (fun x _ => Lexeme.ends_nil g x)
  refine ⟨before, c, after, ⟨split, illegal, legal⟩, by simp, ts, ?_⟩
  rwa [scan_iff_tiling, String.toList_ofList]

theorem allLegal_of_scan {g : Grammar} {input : String} {ts : List Token}
    (scanned : scan g input = .ok ts) : AllLegal g [] input.toList [] :=
  (allLegal_of_tiling (tiling_of_scan scanned) [] (seam_nil g _)).1

theorem refused_of_illegal {g : Grammar} {input : String} {before after : List Char} {c : Char}
    (split : input.toList = before ++ c :: after) (illegal : ¬ Legal g before c after) :
    ∃ d, scan g input = .error d := by
  cases scanned : scan g input with
  | error d => exact ⟨d, rfl⟩
  | ok ts =>
    have legal := allLegal_of_scan scanned before c after split
    rw [List.append_nil] at legal
    exact absurd legal illegal

theorem scan_of_firstIllegal {g : Grammar} {input : String} {before after : List Char} {c : Char}
    (first : FirstIllegal g input.toList before c after) :
    scan g input = .error (.invalidCharacter c (byteSize before)) := by
  obtain ⟨d, refused⟩ := refused_of_illegal first.split first.illegal
  obtain ⟨left, e, right, other, rfl, _⟩ := firstIllegal_of_refused refused
  obtain ⟨rfl, rfl⟩ := first.unique other
  exact refused

/-- A scan is refused exactly when some character is illegal. The diagnostic then has the first
    illegal character and its byte offset, and the text in front of it is scanned. -/
theorem scan_refuses_first_illegal (g : Grammar) (input : String) :
    ((∃ d, scan g input = .error d) ↔
      ∃ before c after, input.toList = before ++ c :: after ∧ ¬ Legal g before c after) ∧
    ∀ d, scan g input = .error d → ∃ before c after,
      FirstIllegal g input.toList before c after ∧ d = .invalidCharacter c (byteSize before) ∧
        ∃ ts, scan g (String.ofList before) = .ok ts := by
  refine ⟨⟨?_, ?_⟩, fun d refused => firstIllegal_of_refused refused⟩
  · rintro ⟨d, refused⟩
    obtain ⟨before, c, after, first, _⟩ := firstIllegal_of_refused refused
    exact ⟨before, c, after, first.split, first.illegal⟩
  · rintro ⟨before, c, after, split, illegal⟩
    exact refused_of_illegal split illegal

theorem scan_refuses_second_point :
    scan .extended "(f 1.2.3λ" = .error (.invalidCharacter '.' 6) ∧
      ∃ before c after, FirstIllegal .extended "(f 1.2.3λ".toList before c after ∧
        Diagnostic.invalidCharacter '.' 6 = .invalidCharacter c (byteSize before) ∧
        ∃ ts, scan .extended (String.ofList before) = .ok ts := by
  have refused : scan .extended "(f 1.2.3λ" = .error (.invalidCharacter '.' 6) := by cbv
  exact ⟨refused, (scan_refuses_first_illegal .extended "(f 1.2.3λ").2 _ refused⟩

end PrefixCalls
