import Mathlib
import PrefixCalls.Proofs.Nesting
import PrefixCalls.Proofs.Stages
import PrefixCalls.Proofs.Tiling

/-!
Refusals by the reader come as early as they can. The text in front of the refused token can still
be completed to one that compiles, and with the token it no longer can, whatever follows.
-/
namespace PrefixCalls

open Text Token Source

def Completable (g : Grammar) (text : String) : Prop :=
  ∃ more output, compile g (text ++ more) = .ok output

/-- A closing text for what is open: a name where one is due, then the parentheses. -/
def Source.Nesting.closing (s : Nesting) : List Char :=
  ' ' :: ((if s.opened then ['a'] else []) ++ List.replicate s.depth ')')

theorem scan_parens (g : Grammar) (offset depth : Nat) :
    ∃ ts, scanFrom g offset (List.replicate depth ')') = .ok ts ∧
      Nesting.walk ⟨depth, false⟩ ts = .ok .start := by
  induction depth generalizing offset with
  | zero => exact ⟨[], by simp, rfl⟩
  | succ depth ih =>
    obtain ⟨ts, run, walked⟩ := ih (offset + byteSize [')'])
    have fits : Lexeme.Fits g ⟨.rightParen, [')']⟩ := rfl
    have ends : Lexeme.Ends g ⟨.rightParen, [')']⟩ (List.replicate depth ')') := trivial
    have front := scanFrom_front g offset fits ends
    refine ⟨Lexeme.token ⟨.rightParen, [')']⟩ offset :: ts, ?_, ?_⟩
    · rw [run] at front
      exact front
    · rw [Nesting.walk, Nesting.step_close depth _ rfl]
      exact walked

theorem scan_closing (g : Grammar) (offset : Nat) (s : Nesting) :
    ∃ ts, scanFrom g offset s.closing = .ok ts ∧ Nesting.walk s ts = .ok .start := by
  obtain ⟨depth, opened⟩ := s
  unfold Nesting.closing
  rw [scanFrom_blank g offset ' ' _ (by decide)]
  cases opened with
  | false => exact scan_parens g _ depth
  | true =>
    obtain ⟨ts, run, walked⟩ := scan_parens g (offset + ' '.utf8Size + byteSize ['a']) depth
    have fits : Lexeme.Fits g ⟨.name, ['a']⟩ := .inl ⟨by simp, by simp⟩
    have ends : Lexeme.Ends g ⟨.name, ['a']⟩ (List.replicate depth ')') := by
      intro _
      cases depth <;> simp [Halts, List.replicate_succ]
    have front := scanFrom_front g (offset + ' '.utf8Size) fits ends
    refine ⟨Lexeme.token ⟨.name, ['a']⟩ (offset + ' '.utf8Size) :: ts, ?_, ?_⟩
    · rw [run] at front
      exact front
    · rw [Nesting.walk, Nesting.step_name depth _ rfl]
      exact walked

theorem completable_of_walk {g : Grammar} {us : List Token} {before after : List Char}
    {s : Nesting} (tiling : Tiling g 0 us before after) (walked : Nesting.walk .start us = .ok s) :
    Completable g (String.ofList before) := by
  obtain ⟨ts, run, closed⟩ := scan_closing g (0 + byteSize before) s
  have blank : ∀ x : Lexeme, x.Ends g after → x.Ends g s.closing :=
    fun x _ => Lexeme.ends_blank g x _ (by decide)
  have scanned := scanFrom_tiling (tiling_before tiling s.closing blank)
  have accepted : Nesting.verdict (us ++ ts) = .ok () := by
    rw [Nesting.verdict, Nesting.check, Nesting.walk_append, walked]
    simp only [Except.bind, closed]
    rfl
  obtain ⟨p, read⟩ := Nesting.verdict_ok_iff.mp accepted
  refine ⟨String.ofList s.closing, p.code, compile_ok_iff.mpr ⟨us ++ ts, p, ?_, read, rfl⟩⟩
  rw [scan, String.toList_append, String.toList_ofList, String.toList_ofList, scanned, run]
  rfl

theorem scanFrom_kind {g : Grammar} {offset : Nat} {x : Lexeme} {more : List Char}
    {ts : List Token} (fits : x.Fits g) (run : scanFrom g offset (x.chars ++ more) = .ok ts) :
    ∃ t us, ts = t :: us ∧ t.kind = x.kind := by
  obtain ⟨c, cs, chars, solid, _⟩ := Lexeme.fits_head fits
  have found := Lexeme.fits_found fits
  have kinds := Lexeme.split?_kind g c cs (cs ++ more)
  rw [chars] at found run
  rw [List.cons_append] at run
  rw [found] at kinds
  cases again : Lexeme.split? g (c :: (cs ++ more)) with
  | none => simp [again] at kinds
  | some r =>
    simp only [again, Option.map_some, Option.some.injEq] at kinds
    rw [scanFrom_lexeme g offset c _ r.2 r.1 solid again] at run
    obtain ⟨us, _, rfl⟩ := map_eq_ok_iff.mp run
    exact ⟨r.1.token offset, us, rfl, kinds.symm⟩

theorem not_completable_of_refused {g : Grammar} {us : List Token} {before rest : List Char}
    {x : Lexeme} {t : Token} {s : Nesting} {d : Diagnostic}
    (tiling : Tiling g 0 us before (x.chars ++ rest)) (fits : x.Fits g) (kind : t.kind = x.kind)
    (walked : Nesting.walk .start us = .ok s) (refused : s.step t = .error d) :
    ¬ Completable g (String.ofList before ++ String.ofList x.chars) := by
  intro completable
  obtain ⟨more, output, compiled⟩ := completable
  obtain ⟨ts, p, scanned, read, _⟩ := compile_ok_iff.mp compiled
  have accepted := Nesting.verdict_ok_iff.mpr ⟨p, read⟩
  have same : ∀ y : Lexeme, y.Ends g (x.chars ++ rest) → y.Ends g (x.chars ++ more.toList) := by
    intro y ends
    obtain ⟨c, cs, chars, _, solid⟩ := Lexeme.fits_head fits
    rw [chars, List.cons_append] at ends ⊢
    exact Lexeme.ends_head _ solid ends
  have split := scanFrom_tiling (tiling_before tiling _ same)
  simp only [scan, String.toList_append, String.toList_ofList, List.append_assoc, split] at scanned
  obtain ⟨ws, inner, rfl⟩ := map_eq_ok_iff.mp scanned
  obtain ⟨u, vs, rfl, again⟩ := scanFrom_kind fits inner
  -- The token grown out of `x` need not be `t`, but it has the kind for which `t` was refused.
  obtain ⟨e, stuck⟩ := (Nesting.step_refused refused).2 u (again.trans kind.symm)
  simp [Nesting.verdict, Nesting.check, Nesting.walk_append, walked, Nesting.walk, stuck,
    Except.bind] at accepted

/-- A refusal by the reader at a token leaves in front of it a text that can be completed, and with
    the token one that cannot. A refusal at the end has only blanks behind it, and the whole input
    can be completed. -/
theorem refused_at_earliest (g : Grammar) (input : String) (d : Diagnostic) (position : Nat)
    (refused : compile g input = .error d) (parse : d.stage = .parse)
    (place : d.position? = some position) :
    (∃ expected t before after, d = .unexpectedToken expected t ∧
      input = before ++ t.text ++ after ∧ before.utf8ByteSize = position ∧
      Completable g before ∧ ¬ Completable g (before ++ t.text)) ∨
    ∃ expected before after, d = .unexpectedEnd expected position ∧
      input = before ++ after ∧ before.utf8ByteSize = position ∧
      (∀ c ∈ after.toList, isBlank c) ∧ Completable g input := by
  rcases compile_error_iff.mp refused with lexical | ⟨ts, scanned, unread⟩
  · rw [scanFrom_refused lexical] at parse
    cases parse
  rcases Nesting.verdict_refused (Nesting.verdict_error_iff.mpr unread) with
    ⟨us, t, vs, s, rfl, walked, stuck⟩ | ⟨us, t, s, expected, rfl, walked, _, rfl⟩
  · obtain ⟨⟨expected, _, rfl⟩, _⟩ := Nesting.step_refused stuck
    obtain ⟨x, before, rest, kind, text, whole, size, fits, left, _⟩ := scan_cut scanned
    cases place
    refine .inl ⟨expected, t, String.ofList before, String.ofList rest, rfl, whole, size, ?_, ?_⟩
    · exact completable_of_walk left walked
    · rw [text]
      exact not_completable_of_refused left fits kind walked stuck
  · obtain ⟨x, before, rest, _, _, whole, size, _, _, right⟩ := scan_cut scanned
    cases place
    refine .inr ⟨expected, String.ofList before ++ t.text, String.ofList rest, rfl, whole, ?_, ?_, ?_⟩
    · rw [String.utf8ByteSize_append, size]
      rfl
    · cases right with
      | nil blank => simpa using blank
    · have completable := completable_of_walk (tiling_of_scan scanned) walked
      rwa [String.ofList_toList] at completable

theorem refused_at_earliest_cases :
    (compile .extended "(add 1.5foo)" =
        .error (.unexpectedToken .expression ⟨.name, "foo", 8⟩) ∧
      ∃ before after, "(add 1.5foo)" = before ++ "foo" ++ after ∧ before.utf8ByteSize = 8 ∧
        Completable .extended before ∧ ¬ Completable .extended (before ++ "foo")) ∧
    compile .basic "1 (add (\t\n" = .error (.unexpectedEnd .name 8) ∧
      ∃ before after, "1 (add (\t\n" = before ++ after ∧ before.utf8ByteSize = 8 ∧
        (∀ c ∈ after.toList, isBlank c) ∧ Completable .basic "1 (add (\t\n" := by
  have token : compile .extended "(add 1.5foo)" =
      .error (.unexpectedToken .expression ⟨.name, "foo", 8⟩) := by cbv
  have ending : compile .basic "1 (add (\t\n" = .error (.unexpectedEnd .name 8) := by cbv
  refine ⟨⟨token, ?_⟩, ending, ?_⟩
  · rcases refused_at_earliest _ _ _ 8 token rfl rfl with
      ⟨_, _, before, after, same, found⟩ | ⟨_, _, _, other, _⟩
    · cases same
      exact ⟨before, after, found⟩
    · cases other
  · rcases refused_at_earliest _ _ _ 8 ending rfl rfl with
      ⟨_, _, _, _, other, _⟩ | ⟨_, before, after, _, found⟩
    · cases other
    · exact ⟨before, after, found⟩

end PrefixCalls
