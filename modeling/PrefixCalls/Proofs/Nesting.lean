import PrefixCalls.Proofs.Reading

/-!
A flat walk over tokens that keeps no tree and no stack. It counts the calls not yet closed and
remembers whether the last token opened one. Its verdict is that of reading: the same token lists
pass, and the others are refused with the same diagnostic.
-/
namespace PrefixCalls.Source

/-- The calls not yet closed, and whether the innermost one still lacks its name. -/
structure Nesting where
  depth : Nat
  opened : Bool
  deriving DecidableEq, Repr

namespace Nesting

def start : Nesting := ⟨0, false⟩

/-- One token further. Right after an opening parenthesis only a name may stand; elsewhere a name
    may not, nor a closing parenthesis with no call to close. -/
def step (s : Nesting) (t : Token) : Except Diagnostic Nesting :=
  if s.opened then
    if t.kind = .name then .ok ⟨s.depth, false⟩
    else .error (.unexpectedToken .name t)
  else
    match t.kind, s.depth with
    | .number, depth => .ok ⟨depth, false⟩
    | .leftParen, depth => .ok ⟨depth + 1, true⟩
    | .rightParen, depth + 1 => .ok ⟨depth, false⟩
    | .rightParen, 0 => .error (.unexpectedToken .expression t)
    | .name, _ => .error (.unexpectedToken .expression t)

def walk : Nesting → List Token → Except Diagnostic Nesting
  | s, [] => .ok s
  | s, t :: ts => (step s t).bind fun s => walk s ts

def finish (stop : Nat) (s : Nesting) : Except Diagnostic Unit :=
  if s.opened then .error (.unexpectedEnd .name stop)
  else if 0 < s.depth then .error (.unexpectedEnd .closingParen stop)
  else .ok ()

def check (stop : Nat) (s : Nesting) (ts : List Token) : Except Diagnostic Unit :=
  (walk s ts).bind (finish stop)

def verdict (ts : List Token) : Except Diagnostic Unit := check (Token.stopOf ts) start ts

theorem step_number (depth : Nat) (t : Token) (numeral : t.kind = .number) :
    step ⟨depth, false⟩ t = .ok ⟨depth, false⟩ := by simp [step, numeral]

theorem step_open (depth : Nat) (t : Token) (opening : t.kind = .leftParen) :
    step ⟨depth, false⟩ t = .ok ⟨depth + 1, true⟩ := by simp [step, opening]

theorem step_close (depth : Nat) (t : Token) (closing : t.kind = .rightParen) :
    step ⟨depth + 1, false⟩ t = .ok ⟨depth, false⟩ := by simp [step, closing]

theorem step_name (depth : Nat) (t : Token) (named : t.kind = .name) :
    step ⟨depth, true⟩ t = .ok ⟨depth, false⟩ := by simp [step, named]

theorem step_unnamed (depth : Nat) (t : Token) (unnamed : t.kind ≠ .name) :
    step ⟨depth, true⟩ t = .error (.unexpectedToken .name t) := by simp [step, unnamed]

theorem step_misplaced (depth : Nat) (t : Token)
    (misplaced : t.kind = .name ∨ t.kind = .rightParen ∧ depth = 0) :
    step ⟨depth, false⟩ t = .error (.unexpectedToken .expression t) := by
  rcases misplaced with kind | ⟨kind, rfl⟩ <;> simp [step, kind]

theorem step_refused {s : Nesting} {t : Token} {d : Diagnostic} (refused : step s t = .error d) :
    (∃ expected, expected ≠ .closingParen ∧ d = .unexpectedToken expected t) ∧
    ∀ u : Token, u.kind = t.kind → ∃ e, step s u = .error e := by
  obtain ⟨depth, opened⟩ := s
  cases opened with
  | true =>
    by_cases named : t.kind = .name
    · rw [step_name depth t named] at refused
      cases refused
    · rw [step_unnamed depth t named] at refused
      cases refused
      refine ⟨⟨.name, by simp, rfl⟩, ?_⟩
      intro u same
      exact ⟨_, step_unnamed depth u (same ▸ named)⟩
  | false =>
    have misplaced : t.kind = .name ∨ t.kind = .rightParen ∧ depth = 0 := by
      cases kind : t.kind with
      | number => rw [step_number depth t kind] at refused; cases refused
      | leftParen => rw [step_open depth t kind] at refused; cases refused
      | name => exact .inl rfl
      | rightParen =>
        cases depth with
        | zero => exact .inr ⟨rfl, rfl⟩
        | succ depth => rw [step_close depth t kind] at refused; cases refused
    rw [step_misplaced depth t misplaced] at refused
    cases refused
    refine ⟨⟨.expression, by simp, rfl⟩, ?_⟩
    intro u same
    exact ⟨_, step_misplaced depth u (same ▸ misplaced)⟩

theorem walk_append (s : Nesting) (ts us : List Token) :
    walk s (ts ++ us) = (walk s ts).bind fun s => walk s us := by
  induction ts generalizing s with
  | nil => rfl
  | cons t ts ih =>
    simp only [List.cons_append, walk]
    cases step s t with
    | error d => rfl
    | ok s => exact ih s

theorem walk_refused {s : Nesting} {ts : List Token} {d : Diagnostic}
    (refused : walk s ts = .error d) :
    ∃ us t vs s', ts = us ++ t :: vs ∧ walk s us = .ok s' ∧ step s' t = .error d := by
  induction ts generalizing s with
  | nil => cases refused
  | cons t ts ih =>
    rcases bind_eq_error_iff.mp refused with stuck | ⟨next, first, later⟩
    · exact ⟨[], t, ts, s, rfl, rfl, stuck⟩
    · obtain ⟨us, u, vs, s', rfl, passed, last⟩ := ih later
      refine ⟨t :: us, u, vs, s', rfl, ?_, last⟩
      rw [walk, first]
      exact passed

theorem check_nil (stop : Nat) (s : Nesting) : check stop s [] = finish stop s := rfl

theorem check_cons (stop : Nat) (s : Nesting) (t : Token) (ts : List Token) :
    check stop s (t :: ts) = (step s t).bind fun s => check stop s ts := by
  rw [check, walk]
  cases step s t <;> rfl

/-- A walk that meets an expression goes on behind it at the same depth, or is refused as the
    expression is. The depth is arbitrary: an open call never changes what is wrong inside it. -/
theorem check_read (stop : Nat) :
    (∀ ts, ts ≠ [] → ∀ depth, (∀ t ∈ ts.head?, t.kind = .rightParen → depth = 0) →
      check stop ⟨depth, false⟩ ts =
        (Expr.read stop ts).bind fun r => check stop ⟨depth, false⟩ r.2) ∧
    ∀ ts depth, check stop ⟨depth + 1, false⟩ ts =
      (Expr.readArgs stop ts).bind fun r => check stop ⟨depth, false⟩ r.2 := by
  apply Expr.read_induction
    (P := fun ts result => ts ≠ [] → ∀ depth, (∀ t ∈ ts.head?, t.kind = .rightParen → depth = 0) →
      check stop ⟨depth, false⟩ ts = result.bind fun r => check stop ⟨depth, false⟩ r.2)
    (Q := fun ts result => ∀ depth, check stop ⟨depth + 1, false⟩ ts =
      result.bind fun r => check stop ⟨depth, false⟩ r.2)
  case nothing => intro empty; contradiction
  case number =>
    intro t ts numeral _ depth _
    rw [check_cons, step_number depth t numeral]
    rfl
  case bare =>
    intro l opening _ depth _
    rw [check_cons, step_open depth l opening]
    rfl
  case unnamed =>
    intro l n ts opening unnamed _ depth _
    rw [check_cons, step_open depth l opening]
    change check stop ⟨depth + 1, true⟩ (n :: ts) = _
    rw [check_cons, step_unnamed _ n unnamed]
    rfl
  case call =>
    intro l n ts opening named args _ depth _
    rw [check_cons, step_open depth l opening]
    change check stop ⟨depth + 1, true⟩ (n :: ts) = _
    rw [check_cons, step_name _ n named]
    change check stop ⟨depth + 1, false⟩ ts = _
    rw [args depth]
    cases Expr.readArgs stop ts <;> rfl
  case misplaced =>
    -- Inside a call a closing parenthesis never gets here: it has ended the arguments before.
    intro t ts misplaced _ depth outside
    have refused : t.kind = .name ∨ t.kind = .rightParen ∧ depth = 0 := by
      rcases misplaced with kind | kind
      · exact .inl kind
      · exact .inr ⟨kind, outside t rfl kind⟩
    rw [check_cons, step_misplaced depth t refused]
    rfl
  case unclosed => intro depth; simp [check_nil, finish, Except.bind]
  case close =>
    intro t ts closing depth
    rw [check_cons, step_close depth t closing]
    rfl
  case refused =>
    intro t ts d more first depth
    exact first (by simp) (depth + 1) (by simp [more])
  case more =>
    intro t ts e rest more first others depth
    rw [first (by simp) (depth + 1) (by simp [more])]
    change check stop ⟨depth + 1, false⟩ rest = _
    rw [others depth]
    cases Expr.readArgs stop rest <;> rfl

theorem check_readAll (stop : Nat) (ts : List Token) :
    check stop start ts = (Expr.readAll stop ts).map fun _ => () := by
  induction size : ts.length using Nat.strongRecOn generalizing ts with
  | ind k ih =>
    cases ts with
    | nil => rw [Expr.readAll_nil]; rfl
    | cons t ts =>
      have first := (check_read stop).1 (t :: ts) (by simp) 0 (by simp)
      rw [start, first, Expr.readAll_cons]
      cases run : Expr.read stop (t :: ts) with
      | error d => rfl
      | ok r =>
        have shorter := Expr.read_length_lt run
        have others := ih _ (size ▸ shorter) r.2 rfl
        change check stop start r.2 = _
        rw [others]
        cases inner : Expr.readAll stop r.2 <;> simp [inner, Except.map]

theorem verdict_read (ts : List Token) :
    verdict ts = (Program.read ts).map fun _ => () := by
  rw [verdict, check_readAll, Program.read]
  cases Expr.readAll (Token.stopOf ts) ts <;> rfl

theorem verdict_ok_iff {ts : List Token} : verdict ts = .ok () ↔ ∃ p, Program.read ts = .ok p := by
  rw [verdict_read, map_eq_ok_iff]
  simp

theorem verdict_error_iff {ts : List Token} {d : Diagnostic} :
    verdict ts = .error d ↔ Program.read ts = .error d := by
  rw [verdict_read, map_eq_error_iff]

theorem finish_refused {stop : Nat} {s : Nesting} {d : Diagnostic}
    (refused : finish stop s = .error d) :
    s ≠ start ∧ ∃ expected, expected ≠ .expression ∧ d = .unexpectedEnd expected stop := by
  unfold finish at refused
  split at refused
  · rename_i opened
    cases refused
    exact ⟨by rintro rfl; simp [start] at opened, .name, by simp, rfl⟩
  · split at refused
    · rename_i deep
      cases refused
      exact ⟨by rintro rfl; simp [start] at deep, .closingParen, by simp, rfl⟩
    · cases refused

theorem verdict_refused {ts : List Token} {d : Diagnostic} (refused : verdict ts = .error d) :
    (∃ us t vs s, ts = us ++ t :: vs ∧ walk start us = .ok s ∧ step s t = .error d) ∨
    ∃ us t s expected, ts = us ++ [t] ∧ walk start ts = .ok s ∧ expected ≠ .expression ∧
      d = .unexpectedEnd expected t.stop := by
  unfold verdict check at refused
  rcases bind_eq_error_iff.mp refused with stuck | ⟨s, walked, unfinished⟩
  · exact .inl (walk_refused stuck)
  · obtain ⟨moved, expected, other, rfl⟩ := finish_refused unfinished
    rcases List.eq_nil_or_concat ts with rfl | ⟨us, t, rfl⟩
    · cases walked
      contradiction
    · refine .inr ⟨us, t, s, expected, by simp, walked, other, ?_⟩
      simp [Token.stopOf]

end Nesting

theorem Program.refused_at {ts : List Token} {d : Diagnostic}
    (refused : Program.read ts = .error d) :
    (∃ us t vs expected, ts = us ++ t :: vs ∧ expected ≠ .closingParen ∧
      d = .unexpectedToken expected t) ∨
    ∃ us t expected, ts = us ++ [t] ∧ expected ≠ .expression ∧
      d = .unexpectedEnd expected t.stop := by
  rcases Nesting.verdict_refused (Nesting.verdict_error_iff.mpr refused) with
    ⟨us, t, vs, s, split, _, stuck⟩ | ⟨us, t, s, expected, split, _, other, ending⟩
  · obtain ⟨⟨expected, other, found⟩, _⟩ := Nesting.step_refused stuck
    exact .inl ⟨us, t, vs, expected, split, other, found⟩
  · exact .inr ⟨us, t, expected, split, other, ending⟩

theorem Program.read_refused {ts : List Token} {d : Diagnostic}
    (refused : Program.read ts = .error d) : d.stage = .parse := by
  rcases Program.refused_at refused with ⟨_, _, _, _, _, _, rfl⟩ | ⟨_, _, _, _, _, rfl⟩
  · rfl
  · rfl

end PrefixCalls.Source
