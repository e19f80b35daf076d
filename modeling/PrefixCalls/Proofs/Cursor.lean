import Mathlib
import PrefixCalls.Proofs.Reading
import PrefixCalls.Proofs.Symbols

/-!
Reading with a cursor. The tokens stay in their list and a cursor moves over them, which also tells
how far a refused reading came. Apart from that it is reading from the front, done on the tokens
from the cursor on. An expression is read forward, within the list, and from its own tokens alone.
-/
namespace PrefixCalls.Source

/-- What reading at `pos` came to, and where it left the cursor. A failure is what was expected at
    the cursor; what it found is still there. -/
structure Advance (α : Type) (pos : Nat) where
  result : Except Expected α
  cursor : Nat
  forward : ∀ a, result = .ok a → pos < cursor

def Advance.map {α β : Type} {pos next : Nat} (f : α → β) (onward : pos ≤ next)
    (a : Advance α next) : Advance β pos where
  result := a.result.map f
  cursor := a.cursor
  forward b made := by
    obtain ⟨x, read, _⟩ := map_eq_ok_iff.mp made
    exact Nat.lt_of_le_of_lt onward (a.forward x read)

mutual

def advancingExpr (ts : List Token) (pos : Nat) : Advance Expr pos :=
  match here : ts[pos]? with
  | some ⟨.number, text, _⟩ => ⟨.ok (.number text), pos + 1, by simp⟩
  | some ⟨.leftParen, _, _⟩ =>
    match ts[pos + 1]? with
    | some ⟨.name, name, _⟩ => (advancingArgs ts (pos + 2)).map (.call name) (by omega)
    | _ => ⟨.error .name, pos + 1, by simp⟩
  | _ => ⟨.error .expression, pos, by simp⟩
termination_by (ts.length - pos, 0)
decreasing_by
  have inside := (List.getElem?_eq_some_iff.mp here).1
  exact Prod.Lex.left _ _ (by omega)

def advancingArgs (ts : List Token) (pos : Nat) : Advance (List Expr) pos :=
  match here : ts[pos]? with
  | none => ⟨.error .closingParen, pos, by simp⟩
  | some t =>
    if t.kind = .rightParen then ⟨.ok [], pos + 1, by simp⟩
    else
      match advancingExpr ts pos with
      | ⟨.error x, cursor, _⟩ => ⟨.error x, cursor, by simp⟩
      | ⟨.ok e, next, forward⟩ =>
        (advancingArgs ts next).map (e :: ·) (Nat.le_of_lt (forward e rfl))
termination_by (ts.length - pos, 1)
decreasing_by
  · exact Prod.Lex.right _ (by decide)
  · have inside := (List.getElem?_eq_some_iff.mp here).1
    have further := forward e rfl
    exact Prod.Lex.left _ _ (by omega)

end

namespace Expr

def advance (ts : List Token) (pos : Nat) : Except Expected Expr × Nat :=
  ((advancingExpr ts pos).result, (advancingExpr ts pos).cursor)

def advanceArgs (ts : List Token) (pos : Nat) : Except Expected (List Expr) × Nat :=
  ((advancingArgs ts pos).result, (advancingArgs ts pos).cursor)

section Cases

variable {ts : List Token} {pos : Nat}

theorem advance_number {t : Token} (here : ts[pos]? = some t) (numeral : t.kind = .number) :
    advance ts pos = (.ok (.number t.text), pos + 1) := by
  obtain ⟨kind, text, loc⟩ := t
  cases numeral
  rw [advance, advancingExpr]
  split <;> simp_all

theorem advance_call {l n : Token} (here : ts[pos]? = some l) (opening : l.kind = .leftParen)
    (next : ts[pos + 1]? = some n) (named : n.kind = .name) :
    advance ts pos =
      ((advanceArgs ts (pos + 2)).1.map (.call n.text), (advanceArgs ts (pos + 2)).2) := by
  obtain ⟨kind, text, loc⟩ := l
  obtain ⟨kind, name, loc⟩ := n
  cases opening
  cases named
  rw [advance, advancingExpr]
  split <;> simp_all [advanceArgs, Advance.map]

theorem advance_unnamed {l : Token} (here : ts[pos]? = some l) (opening : l.kind = .leftParen)
    (unnamed : ∀ n ∈ ts[pos + 1]?, n.kind ≠ .name) : advance ts pos = (.error .name, pos + 1) := by
  obtain ⟨kind, text, loc⟩ := l
  cases opening
  rw [advance, advancingExpr]
  split
  · simp_all
  · split
    · rename_i next
      exact absurd rfl (unnamed _ next)
    · rfl
  · simp_all

theorem advance_misplaced (misplaced : ∀ t ∈ ts[pos]?, t.kind = .name ∨ t.kind = .rightParen) :
    advance ts pos = (.error .expression, pos) := by
  rw [advance, advancingExpr]
  split
  · rename_i here
    simpa using misplaced _ here
  · rename_i here
    simpa using misplaced _ here
  · rfl

theorem advanceArgs_unclosed (nothing : ts[pos]? = none) :
    advanceArgs ts pos = (.error .closingParen, pos) := by
  rw [advanceArgs, advancingArgs]
  split <;> simp_all

theorem advanceArgs_close {t : Token} (here : ts[pos]? = some t) (closing : t.kind = .rightParen) :
    advanceArgs ts pos = (.ok [], pos + 1) := by
  rw [advanceArgs, advancingArgs]
  split <;> simp_all

theorem advanceArgs_cons {t : Token} (here : ts[pos]? = some t) (more : t.kind ≠ .rightParen) :
    advanceArgs ts pos =
      match advance ts pos with
      | (.error x, after) => (.error x, after)
      | (.ok e, next) => ((advanceArgs ts next).1.map (e :: ·), (advanceArgs ts next).2) := by
  rw [advanceArgs, advancingArgs, advance]
  split
  · simp_all
  · rename_i found
    cases here.symm.trans found
    rw [if_neg more]
    rcases advancingExpr ts pos with ⟨result | e, cursor, forward⟩ <;> rfl

theorem advance_forward {e : Expr} {after : Nat} (read : advance ts pos = (.ok e, after)) :
    pos < after := by
  obtain ⟨result, moved⟩ := Prod.mk.inj read
  rw [← moved]
  exact (advancingExpr ts pos).forward e result

end Cases

/-- Induction along the way of the cursor: one case for each way in which it can come to a stop. -/
theorem advance_induction {ts : List Token} {P : Nat → Except Expected Expr → Nat → Prop}
    {Q : Nat → Except Expected (List Expr) → Nat → Prop}
    (number : ∀ pos t, ts[pos]? = some t → t.kind = .number →
      P pos (.ok (.number t.text)) (pos + 1))
    (call : ∀ pos l n args after, ts[pos]? = some l → l.kind = .leftParen →
      ts[pos + 1]? = some n → n.kind = .name → Q (pos + 2) args after →
      P pos (args.map (.call n.text)) after)
    (unnamed : ∀ pos l, ts[pos]? = some l → l.kind = .leftParen →
      (∀ n ∈ ts[pos + 1]?, n.kind ≠ .name) → P pos (.error .name) (pos + 1))
    (misplaced : ∀ pos, (∀ t ∈ ts[pos]?, t.kind = .name ∨ t.kind = .rightParen) →
      P pos (.error .expression) pos)
    (unclosed : ∀ pos, ts[pos]? = none → Q pos (.error .closingParen) pos)
    (close : ∀ pos t, ts[pos]? = some t → t.kind = .rightParen → Q pos (.ok []) (pos + 1))
    (refused : ∀ pos t x after, ts[pos]? = some t → t.kind ≠ .rightParen →
      P pos (.error x) after → Q pos (.error x) after)
    (more : ∀ pos t e next others after, ts[pos]? = some t → t.kind ≠ .rightParen →
      P pos (.ok e) next → Q next others after → Q pos (others.map (e :: ·)) after) :
    (∀ pos, P pos (advance ts pos).1 (advance ts pos).2) ∧
    ∀ pos, Q pos (advanceArgs ts pos).1 (advanceArgs ts pos).2 := by
  suffices both : ∀ k pos, ts.length - pos = k →
      P pos (advance ts pos).1 (advance ts pos).2 ∧
      Q pos (advanceArgs ts pos).1 (advanceArgs ts pos).2 from
    ⟨fun pos => (both _ pos rfl).1, fun pos => (both _ pos rfl).2⟩
  intro k
  induction k using Nat.strongRecOn with
  | ind k ih =>
    intro pos left
    have expr : P pos (advance ts pos).1 (advance ts pos).2 := by
      by_cases wrong : ∀ t ∈ ts[pos]?, t.kind = .name ∨ t.kind = .rightParen
      · rw [advance_misplaced wrong]
        exact misplaced pos wrong
      · push Not at wrong
        obtain ⟨t, here, notName, notClosing⟩ := wrong
        have inside := (List.getElem?_eq_some_iff.mp here).1
        cases kind : t.kind with
        | name => contradiction
        | rightParen => contradiction
        | number =>
          rw [advance_number here kind]
          exact number pos t here kind
        | leftParen =>
          by_cases nameless : ∀ n ∈ ts[pos + 1]?, n.kind ≠ .name
          · rw [advance_unnamed here kind nameless]
            exact unnamed pos t here kind nameless
          · push Not at nameless
            obtain ⟨n, next, named⟩ := nameless
            rw [advance_call here kind next named]
            exact call pos t n _ _ here kind next named (ih _ (by omega) (pos + 2) rfl).2
    refine ⟨expr, ?_⟩
    -- The first argument is read at the same place; `forward` makes the others start further on.
    cases here : ts[pos]? with
    | none =>
      rw [advanceArgs_unclosed here]
      exact unclosed pos here
    | some t =>
      have inside := (List.getElem?_eq_some_iff.mp here).1
      by_cases closing : t.kind = .rightParen
      · rw [advanceArgs_close here closing]
        exact close pos t here closing
      · rcases first : advance ts pos with ⟨result, next⟩
        rw [first] at expr
        cases result with
        | error x =>
          rw [advanceArgs_cons here closing, first]
          exact refused pos t x next here closing expr
        | ok e =>
          have onward := advance_forward first
          rw [advanceArgs_cons here closing, first]
          exact more pos t e next _ _ here closing expr (ih _ (by omega) next rfl).2

/-- Behind the last place that was looked at. An expression ends with its last token; a refusal
    needs a look at what is at the cursor. -/
def reach {α : Type} (result : Except Expected α) (cursor : Nat) : Nat :=
  match result with
  | .ok _ => cursor
  | .error _ => cursor + 1

@[simp] theorem reach_ok {α : Type} (a : α) (cursor : Nat) : reach (.ok a) cursor = cursor := rfl

@[simp] theorem reach_error {α : Type} (x : Expected) (cursor : Nat) :
    reach (.error x : Except Expected α) cursor = cursor + 1 := rfl

@[simp] theorem reach_map {α β : Type} (f : α → β) (result : Except Expected α) (cursor : Nat) :
    reach (result.map f) cursor = reach result cursor := by
  cases result <;> rfl

def SameOn (first last : Nat) (ts us : List Token) : Prop :=
  ∀ i, first ≤ i → i < last → us[i]? = ts[i]?

theorem SameOn.narrow {first last low high : Nat} {ts us : List Token}
    (same : SameOn first last ts us) (above : first ≤ low) (below : high ≤ last) :
    SameOn low high ts us := by
  intro i lower upper
  exact same i (by omega) (by omega)

theorem SameOn.token {first last i : Nat} {ts us : List Token} {t : Token}
    (same : SameOn first last ts us) (here : ts[i]? = some t) (low : first ≤ i) (high : i < last) :
    us[i]? = some t := by
  rw [same i low high, here]

/-- Reading at `pos` moves the cursor forward, keeps it in the list, and comes to the same in every
    list that has the same tokens where it looked. -/
structure Confined {α : Type} (ts : List Token)
    (read : List Token → Nat → Except Expected α × Nat) (pos : Nat)
    (result : Except Expected α) (cursor : Nat) : Prop where
  onward : pos < reach result cursor
  inside : cursor ≤ max pos ts.length
  alone : ∀ us, SameOn pos (reach result cursor) ts us → read us pos = (result, cursor)

theorem advance_confined (ts : List Token) :
    (∀ pos, Confined ts advance pos (advance ts pos).1 (advance ts pos).2) ∧
    ∀ pos, Confined ts advanceArgs pos (advanceArgs ts pos).1 (advanceArgs ts pos).2 := by
  apply advance_induction (P := Confined ts advance) (Q := Confined ts advanceArgs)
  case number =>
    intro pos t here numeral
    have inside := (List.getElem?_eq_some_iff.mp here).1
    refine ⟨by simp, by omega, ?_⟩
    intro us same
    exact advance_number (same.token here (by simp) (by simp)) numeral
  case call =>
    intro pos l n args after here opening next named inner
    have inside := (List.getElem?_eq_some_iff.mp next).1
    have onward := inner.onward
    have within := inner.inside
    refine ⟨by rw [reach_map]; omega, by omega, ?_⟩
    intro us same
    rw [reach_map] at same
    have left := same.token here (by omega) (by omega)
    have name := same.token next (by omega) (by omega)
    rw [advance_call left opening name named, inner.alone us (same.narrow (by omega) (by omega))]
  case unnamed =>
    intro pos l here opening unlike
    have inside := (List.getElem?_eq_some_iff.mp here).1
    refine ⟨by simp, by omega, ?_⟩
    intro us same
    refine advance_unnamed (same.token here (by simp) (by simp)) opening ?_
    rwa [same (pos + 1) (by omega) (by simp)]
  case misplaced =>
    intro pos wrong
    refine ⟨by simp, by omega, ?_⟩
    intro us same
    apply advance_misplaced
    rwa [same pos (by omega) (by simp)]
  case unclosed =>
    intro pos nothing
    refine ⟨by simp, by omega, ?_⟩
    intro us same
    apply advanceArgs_unclosed
    rw [same pos (by omega) (by simp), nothing]
  case close =>
    intro pos t here closing
    have inside := (List.getElem?_eq_some_iff.mp here).1
    refine ⟨by simp, by omega, ?_⟩
    intro us same
    exact advanceArgs_close (same.token here (by simp) (by simp)) closing
  case refused =>
    intro pos t x after here more first
    refine ⟨first.onward, first.inside, ?_⟩
    intro us same
    have start := same.token here (by simp) first.onward
    rw [advanceArgs_cons start more, first.alone us same]
  case more =>
    -- The first argument ends before the others begin, so the tokens of both are among the same.
    intro pos t e next others after here more first later
    have onward : pos < next := first.onward
    have further := later.onward
    have within := first.inside
    have inside := later.inside
    refine ⟨by rw [reach_map]; omega, by omega, ?_⟩
    intro us same
    rw [reach_map] at same
    have start := same.token here (by omega) (by omega)
    have head := first.alone us (same.narrow (by omega) (by rw [reach_ok]; omega))
    have tail := later.alone us (same.narrow (by omega) (by omega))
    rw [advanceArgs_cons start more, head]
    simp only [tail]

def refusalAt (ts : List Token) (pos : Nat) (expected : Expected) : Diagnostic :=
  match ts[pos]? with
  | some t => .unexpectedToken expected t
  | none => .unexpectedEnd expected (Token.stopOf ts)

theorem refusalAt_some {ts : List Token} {pos : Nat} {t : Token} (here : ts[pos]? = some t)
    (x : Expected) : refusalAt ts pos x = .unexpectedToken x t := by
  rw [refusalAt, here]

theorem refusalAt_none {ts : List Token} {pos : Nat} (nothing : ts[pos]? = none) (x : Expected) :
    refusalAt ts pos x = .unexpectedEnd x (Token.stopOf ts) := by
  rw [refusalAt, nothing]

/-- What a reader from the front gives for a result with its cursor. -/
def observed {α : Type} (ts : List Token) (result : Except Expected α) (cursor : Nat) :
    Except Diagnostic (α × List Token) :=
  (result.mapError (refusalAt ts cursor)).map fun a => (a, ts.drop cursor)

theorem drop_some {ts : List Token} {pos : Nat} {t : Token} (here : ts[pos]? = some t) :
    ts.drop pos = t :: ts.drop (pos + 1) := by
  obtain ⟨inside, rfl⟩ := List.getElem?_eq_some_iff.mp here
  exact List.drop_eq_getElem_cons inside

theorem drop_none {ts : List Token} {pos : Nat} (nothing : ts[pos]? = none) : ts.drop pos = [] :=
  List.drop_eq_nil_of_le (List.getElem?_eq_none_iff.mp nothing)

theorem read_drop (ts : List Token) :
    (∀ pos, read (Token.stopOf ts) (ts.drop pos) =
      observed ts (advance ts pos).1 (advance ts pos).2) ∧
    ∀ pos, readArgs (Token.stopOf ts) (ts.drop pos) =
      observed ts (advanceArgs ts pos).1 (advanceArgs ts pos).2 := by
  apply advance_induction
    (P := fun pos result cursor => read (Token.stopOf ts) (ts.drop pos) = observed ts result cursor)
    (Q := fun pos result cursor =>
      readArgs (Token.stopOf ts) (ts.drop pos) = observed ts result cursor)
  case number =>
    intro pos t here numeral
    rw [drop_some here, read_number _ t _ numeral]
    rfl
  case call =>
    intro pos l n args after here opening next named inner
    rw [drop_some here, drop_some next, read_call _ l n _ opening named, inner]
    cases args <;> rfl
  case unnamed =>
    intro pos l here opening unlike
    rw [drop_some here]
    cases next : ts[pos + 1]? with
    | none =>
      rw [drop_none next, read_open_nil _ l opening, ← refusalAt_none next]
      rfl
    | some n =>
      rw [drop_some next, read_open_unnamed _ l n _ opening (unlike n next), ← refusalAt_some next]
      rfl
  case misplaced =>
    intro pos wrong
    cases here : ts[pos]? with
    | none =>
      rw [drop_none here, read_nil, ← refusalAt_none here]
      rfl
    | some t =>
      rw [drop_some here, read_misplaced _ t _ (wrong t here), ← refusalAt_some here]
      rfl
  case unclosed =>
    intro pos nothing
    rw [drop_none nothing, readArgs_nil, ← refusalAt_none nothing]
    rfl
  case close =>
    intro pos t here closing
    rw [drop_some here, readArgs_close _ t _ closing]
    rfl
  case refused =>
    intro pos t x after here more first
    rw [drop_some here] at first ⊢
    rw [readArgs_cons _ t _ more, first]
    rfl
  case more =>
    intro pos t e next others after here more first later
    rw [drop_some here] at first ⊢
    rw [readArgs_cons _ t _ more, first]
    change (readArgs _ (ts.drop next)).map _ = _
    rw [later]
    cases others <;> rfl

/-- One expression read at the cursor, or the refusal of what is where the cursor was left; and that
    place. -/
def readAt (ts : List Token) (pos : Nat) : Except Diagnostic Expr × Nat :=
  ((advance ts pos).1.mapError (refusalAt ts (advance ts pos).2), (advance ts pos).2)

section Results

variable {ts : List Token} {pos cursor : Nat}

theorem readAt_ok_iff {e : Expr} :
    readAt ts pos = (.ok e, cursor) ↔ advance ts pos = (.ok e, cursor) := by
  rw [readAt]
  rcases advance ts pos with ⟨_ | _, _⟩ <;> simp [Except.mapError]

theorem readAt_error_iff {d : Diagnostic} :
    readAt ts pos = (.error d, cursor) ↔
      ∃ x, advance ts pos = (.error x, cursor) ∧ refusalAt ts cursor x = d := by
  rw [readAt]
  rcases advance ts pos with ⟨x | e, after⟩
  · constructor
    · intro refused
      cases refused
      exact ⟨x, rfl, rfl⟩
    · rintro ⟨y, run, rfl⟩
      cases run
      rfl
  · simp [Except.mapError]

theorem readAt_token_iff {x : Expected} {t : Token} :
    readAt ts pos = (.error (.unexpectedToken x t), cursor) ↔
      advance ts pos = (.error x, cursor) ∧ ts[cursor]? = some t := by
  rw [readAt_error_iff]
  cases here : ts[cursor]? <;> simp [refusalAt, here]

theorem readAt_end_iff {x : Expected} {stop : Nat} :
    readAt ts pos = (.error (.unexpectedEnd x stop), cursor) ↔
      advance ts pos = (.error x, cursor) ∧ ts[cursor]? = none ∧ Token.stopOf ts = stop := by
  rw [readAt_error_iff]
  cases here : ts[cursor]? <;> simp [refusalAt, here]

theorem confined_of_advance {result : Except Expected Expr}
    (run : advance ts pos = (result, cursor)) : Confined ts advance pos result cursor := by
  have confined := (advance_confined ts).1 pos
  rwa [run] at confined

theorem symbols_of_advance {e : Expr} {after : Nat} (run : advance ts pos = (.ok e, after))
    (inside : after ≤ ts.length) : (ts.extract pos after).map Token.plain = e.symbols := by
  have front := (read_drop ts).1 pos
  rw [run] at front
  obtain ⟨us, derived, split⟩ := read_sound.1 _ _ _ front
  have onward := advance_forward run
  have size : us.length = after - pos := by
    have whole := congrArg List.length split
    simp only [List.length_drop, List.length_append] at whole
    omega
  rw [List.extract_eq_take_drop, split, List.take_left' size, derived.map_plain]

end Results

theorem turns_wellFounded (ts : List Token) :
    WellFounded fun after before => ∃ e, readAt ts before = (.ok e, after) := by
  refine Subrelation.wf ?_ (measure fun pos => ts.length - pos).wf
  intro after before turn
  obtain ⟨e, read⟩ := turn
  have confined := confined_of_advance (readAt_ok_iff.mp read)
  have onward : before < after := confined.onward
  have inside := confined.inside
  change ts.length - after < ts.length - before
  omega

/-- Reading at a cursor is reading from the front of the tokens from there on, with the cursor kept.
    It moves forward within the list, over the expression written out, and depends on no other
    tokens than those taken and the one refused. So loops of readings come to an end. -/
theorem readAt_forward_and_local (ts : List Token) (pos : Nat) (inside : pos ≤ ts.length) :
    read (Token.stopOf ts) (ts.drop pos) =
      (readAt ts pos).1.map (fun e => (e, ts.drop (readAt ts pos).2)) ∧
    (∀ e after, readAt ts pos = (.ok e, after) →
      pos < after ∧ after ≤ ts.length ∧
      (ts.extract pos after).map Token.plain = e.symbols ∧
      ∀ us, SameOn pos after ts us → readAt us pos = (.ok e, after)) ∧
    (∀ expected t k, readAt ts pos = (.error (.unexpectedToken expected t), k) →
      pos ≤ k ∧ k < ts.length ∧ ts[k]? = some t ∧
      ∀ us, SameOn pos (k + 1) ts us →
        readAt us pos = (.error (.unexpectedToken expected t), k)) ∧
    (∀ expected stop after, readAt ts pos = (.error (.unexpectedEnd expected stop), after) →
      after = ts.length) ∧
    WellFounded fun after before => ∃ e, readAt ts before = (.ok e, after) := by
  refine ⟨(read_drop ts).1 pos, ?_, ?_, ?_, turns_wellFounded ts⟩
  · intro e after read
    have run := readAt_ok_iff.mp read
    have confined := confined_of_advance run
    have within := confined.inside
    rw [Nat.max_eq_right inside] at within
    refine ⟨confined.onward, within, symbols_of_advance run within, ?_⟩
    intro us same
    exact readAt_ok_iff.mpr (confined.alone us same)
  · intro expected t k refused
    obtain ⟨run, here⟩ := readAt_token_iff.mp refused
    have confined := confined_of_advance run
    have onward : pos < k + 1 := confined.onward
    refine ⟨by omega, (List.getElem?_eq_some_iff.mp here).1, here, ?_⟩
    intro us same
    exact readAt_token_iff.mpr
      ⟨confined.alone us same, same.token here (by omega) (by omega)⟩
  · intro expected stop after refused
    obtain ⟨run, nothing, _⟩ := readAt_end_iff.mp refused
    have within := (confined_of_advance run).inside
    have beyond := List.getElem?_eq_none_iff.mp nothing
    omega

theorem readAt_between_other_tokens :
    (readAt [⟨.number, "1", 0⟩, ⟨.leftParen, "(", 2⟩, ⟨.name, "f", 3⟩, ⟨.number, "7", 5⟩,
        ⟨.rightParen, ")", 6⟩, ⟨.rightParen, ")", 7⟩] 1 = (.ok (.call "f" [.number "7"]), 5) ∧
      readAt [⟨.name, "g", 0⟩, ⟨.leftParen, "(", 2⟩, ⟨.name, "f", 3⟩, ⟨.number, "7", 5⟩,
        ⟨.rightParen, ")", 6⟩] 1 = (.ok (.call "f" [.number "7"]), 5)) ∧
    (readAt [⟨.number, "1", 0⟩, ⟨.leftParen, "(", 2⟩, ⟨.name, "f", 3⟩, ⟨.name, "x", 5⟩,
        ⟨.rightParen, ")", 6⟩] 1 = (.error (.unexpectedToken .expression ⟨.name, "x", 5⟩), 3) ∧
      readAt [⟨.name, "g", 0⟩, ⟨.leftParen, "(", 2⟩, ⟨.name, "f", 3⟩, ⟨.name, "x", 5⟩] 1 =
        (.error (.unexpectedToken .expression ⟨.name, "x", 5⟩), 3)) ∧
    ∃ after, readAt [⟨.number, "1", 0⟩, ⟨.leftParen, "(", 2⟩, ⟨.name, "f", 3⟩] 1 =
      (.error (.unexpectedEnd .closingParen 4), after) ∧ after = 3 := by
  have call : readAt [⟨.number, "1", 0⟩, ⟨.leftParen, "(", 2⟩, ⟨.name, "f", 3⟩, ⟨.number, "7", 5⟩,
      ⟨.rightParen, ")", 6⟩, ⟨.rightParen, ")", 7⟩] 1 = (.ok (.call "f" [.number "7"]), 5) := by cbv
  have stuck : readAt [⟨.number, "1", 0⟩, ⟨.leftParen, "(", 2⟩, ⟨.name, "f", 3⟩, ⟨.name, "x", 5⟩,
      ⟨.rightParen, ")", 6⟩] 1 = (.error (.unexpectedToken .expression ⟨.name, "x", 5⟩), 3) := by cbv
  have unclosed : readAt [⟨.number, "1", 0⟩, ⟨.leftParen, "(", 2⟩, ⟨.name, "f", 3⟩] 1 =
      (.error (.unexpectedEnd .closingParen 4), 3) := by cbv
  refine ⟨⟨call, ?_⟩, ⟨stuck, ?_⟩, 3, unclosed, ?_⟩
  · refine ((readAt_forward_and_local _ 1 (by decide)).2.1 _ _ call).2.2.2 _ ?_
    intro i low high
    interval_cases i <;> rfl
  · refine ((readAt_forward_and_local _ 1 (by decide)).2.2.1 _ _ _ stuck).2.2.2 _ ?_
    intro i low high
    interval_cases i <;> rfl
  · exact (readAt_forward_and_local _ 1 (by decide)).2.2.2.1 _ _ _ unclosed

end Expr

end PrefixCalls.Source
