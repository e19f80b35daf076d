import PrefixCalls.Proofs.Results
import PrefixCalls.Source.Basic
import PrefixCalls.Source.Read

/-!
Reading and the grammar agree. A token list is read as a program exactly when the grammar derives
the program from it, and since reading is a function, the grammar is unambiguous.
-/
namespace PrefixCalls.Source

namespace Expr

/-- Induction along a reading: one case for each way in which an expression or the arguments of a
    call can be read or refused. -/
theorem read_induction {stop : Nat}
    {P : List Token → Except Diagnostic (Expr × List Token) → Prop}
    {Q : List Token → Except Diagnostic (List Expr × List Token) → Prop}
    (nothing : P [] (.error (.unexpectedEnd .expression stop)))
    (number : ∀ t ts, t.kind = .number → P (t :: ts) (.ok (.number t.text, ts)))
    (bare : ∀ l, l.kind = .leftParen → P [l] (.error (.unexpectedEnd .name stop)))
    (unnamed : ∀ l n ts, l.kind = .leftParen → n.kind ≠ .name →
      P (l :: n :: ts) (.error (.unexpectedToken .name n)))
    (call : ∀ l n ts, l.kind = .leftParen → n.kind = .name → Q ts (readArgs stop ts) →
      P (l :: n :: ts) ((readArgs stop ts).map fun r => (.call n.text r.1, r.2)))
    (misplaced : ∀ t ts, t.kind = .name ∨ t.kind = .rightParen →
      P (t :: ts) (.error (.unexpectedToken .expression t)))
    (unclosed : Q [] (.error (.unexpectedEnd .closingParen stop)))
    (close : ∀ t ts, t.kind = .rightParen → Q (t :: ts) (.ok ([], ts)))
    (refused : ∀ t ts d, t.kind ≠ .rightParen → P (t :: ts) (.error d) → Q (t :: ts) (.error d))
    (more : ∀ t ts e rest, t.kind ≠ .rightParen → P (t :: ts) (.ok (e, rest)) →
      Q rest (readArgs stop rest) →
      Q (t :: ts) ((readArgs stop rest).map fun r => (e :: r.1, r.2))) :
    (∀ ts, P ts (read stop ts)) ∧ ∀ ts, Q ts (readArgs stop ts) := by
  suffices both : ∀ k ts, ts.length = k → P ts (read stop ts) ∧ Q ts (readArgs stop ts) from
    ⟨fun ts => (both _ ts rfl).1, fun ts => (both _ ts rfl).2⟩
  intro k
  induction k using Nat.strongRecOn with
  | ind k ih =>
    intro ts size
    have expr : P ts (read stop ts) := by
      match ts with
      | [] => rw [read_nil]; exact nothing
      | t :: ts =>
        cases kind : t.kind with
        | number => rw [read_number stop t ts kind]; exact number t ts kind
        | name => rw [read_misplaced stop t ts (.inl kind)]; exact misplaced t ts (.inl kind)
        | rightParen => rw [read_misplaced stop t ts (.inr kind)]; exact misplaced t ts (.inr kind)
        | leftParen =>
          match ts with
          | [] => rw [read_open_nil stop t kind]; exact bare t kind
          | n :: ts =>
            by_cases named : n.kind = .name
            · rw [read_call stop t n ts kind named]
              have shorter : ts.length < k := by simp only [List.length_cons] at size; omega
              exact call t n ts kind named (ih _ shorter ts rfl).2
            · rw [read_open_unnamed stop t n ts kind named]
              exact unnamed t n ts kind named
    refine ⟨expr, ?_⟩
    -- The arguments start with an expression at the very same place, so `expr` is used here.
    match ts with
    | [] => rw [readArgs_nil]; exact unclosed
    | t :: ts =>
      by_cases closing : t.kind = .rightParen
      · rw [readArgs_close stop t ts closing]; exact close t ts closing
      · rw [readArgs_cons stop t ts closing]
        cases run : read stop (t :: ts) with
        | error d => exact refused t ts d closing (run ▸ expr)
        | ok r =>
          obtain ⟨e, rest⟩ := r
          have shorter := read_length_lt run
          exact more t ts e rest closing (run ▸ expr) (ih _ (size ▸ shorter) rest rfl).2

theorem read_sound {stop : Nat} :
    (∀ ts e rest, read stop ts = .ok (e, rest) → ∃ us, Derives us e ∧ ts = us ++ rest) ∧
    ∀ ts es rest, readArgs stop ts = .ok (es, rest) →
      ∃ us r, DerivesAll us es ∧ r.kind = .rightParen ∧ ts = us ++ r :: rest := by
  apply read_induction
    (P := fun ts result => ∀ e rest, result = .ok (e, rest) → ∃ us, Derives us e ∧ ts = us ++ rest)
    (Q := fun ts result => ∀ es rest, result = .ok (es, rest) →
      ∃ us r, DerivesAll us es ∧ r.kind = .rightParen ∧ ts = us ++ r :: rest)
  case nothing | bare | unnamed | misplaced | unclosed | refused => simp
  case number =>
    intro t ts numeral e rest run
    cases run
    exact ⟨[t], .number numeral, rfl⟩
  case call =>
    intro l n ts opening named args e rest run
    obtain ⟨⟨es, after⟩, inner, same⟩ := map_eq_ok_iff.mp run
    cases same
    obtain ⟨us, r, derived, closing, rfl⟩ := args es after inner
    exact ⟨l :: n :: (us ++ [r]), .call opening named derived closing, by simp⟩
  case close =>
    intro t ts closing es rest run
    cases run
    exact ⟨[], t, .nil, closing, rfl⟩
  case more =>
    intro t ts e rest _ first others es after run
    obtain ⟨⟨fs, last⟩, inner, same⟩ := map_eq_ok_iff.mp run
    cases same
    obtain ⟨us, derived, split⟩ := first e rest rfl
    obtain ⟨vs, r, derivedAll, closing, rfl⟩ := others fs last inner
    exact ⟨us ++ vs, r, .cons derived derivedAll, closing, by simp [split]⟩

theorem derives_head {ts : List Token} {e : Expr} (derived : Derives ts e) :
    ∃ t us, ts = t :: us ∧ t.kind ≠ .rightParen := by
  cases derived with
  | number numeral => exact ⟨_, [], rfl, by simp [numeral]⟩
  | call opening _ _ _ => exact ⟨_, _, rfl, by simp [opening]⟩

mutual

theorem read_derived (stop : Nat) {ts : List Token} {e : Expr} (derived : Derives ts e)
    (rest : List Token) : read stop (ts ++ rest) = .ok (e, rest) := by
  match derived with
  | .number numeral => exact read_number stop _ rest numeral
  | .call opening named args closing =>
    have inner := readArgs_derived stop args _ closing rest
    simp only [List.cons_append, List.append_assoc, List.nil_append]
    rw [read_call stop _ _ _ opening named, inner]
    rfl

theorem readArgs_derived (stop : Nat) {ts : List Token} {es : List Expr}
    (derived : DerivesAll ts es) (r : Token) (closing : r.kind = .rightParen)
    (rest : List Token) : readArgs stop (ts ++ r :: rest) = .ok (es, rest) := by
  match derived with
  | .nil => exact readArgs_close stop r rest closing
  | @DerivesAll.cons us vs _ _ first others =>
    have head := read_derived stop first (vs ++ r :: rest)
    have tail := readArgs_derived stop others r closing rest
    obtain ⟨t, us', rfl, start⟩ := derives_head first
    rw [List.append_assoc]
    rw [List.cons_append] at head ⊢
    rw [readArgs_cons stop t _ start, head]
    simp only [tail]
    rfl

end

theorem readAll_sound {stop : Nat} (ts : List Token) (es : List Expr)
    (run : readAll stop ts = .ok es) : DerivesAll ts es := by
  induction size : ts.length using Nat.strongRecOn generalizing ts es with
  | ind k ih =>
    cases ts with
    | nil =>
      rw [readAll_nil] at run
      cases run
      exact .nil
    | cons t ts =>
      rw [readAll_cons] at run
      cases first : read stop (t :: ts) with
      | error d => simp [first] at run
      | ok r =>
        obtain ⟨e, rest⟩ := r
        have shorter := read_length_lt first
        obtain ⟨us, derived, split⟩ := read_sound.1 _ _ _ first
        simp only [first] at run
        obtain ⟨fs, others, same⟩ := map_eq_ok_iff.mp run
        have derivedAll := ih _ (size ▸ shorter) rest fs others rfl
        rw [← same, split]
        exact .cons derived derivedAll

theorem readAll_append (stop : Nat) {ts : List Token} {es : List Expr}
    (derived : DerivesAll ts es) (rest : List Token) :
    readAll stop (ts ++ rest) = (readAll stop rest).map (es ++ ·) := by
  match derived with
  | .nil => cases same : readAll stop rest <;> simp [same, Except.map]
  | @DerivesAll.cons us vs _ _ first others =>
    have head := read_derived stop first (vs ++ rest)
    have tail := readAll_append stop others rest
    obtain ⟨t, us', rfl, _⟩ := derives_head first
    rw [List.append_assoc]
    rw [List.cons_append] at head ⊢
    rw [readAll_cons, head]
    simp only [tail]
    cases readAll stop rest <;> rfl

theorem readAll_derived (stop : Nat) {ts : List Token} {es : List Expr}
    (derived : DerivesAll ts es) : readAll stop ts = .ok es := by
  have whole := readAll_append stop derived []
  rw [List.append_nil, readAll_nil] at whole
  rw [whole, Except.map, List.append_nil]

end Expr

namespace Program

theorem read_sound {ts : List Token} {p : Program} (run : Program.read ts = .ok p) :
    Program.Derives ts p := by
  obtain ⟨es, inner, same⟩ := map_eq_ok_iff.mp run
  rw [← same]
  exact Expr.readAll_sound ts es inner

theorem read_derived {ts : List Token} {p : Program} (derived : Program.Derives ts p) :
    Program.read ts = .ok p := by
  rw [Program.read, Expr.readAll_derived _ derived]
  rfl

/-- Reading accepts exactly what the grammar derives and returns the derived program. No token list
    derives two programs. -/
theorem read_exactly_derived (ts : List Token) :
    (∀ p, Program.read ts = .ok p ↔ Program.Derives ts p) ∧
    ∀ p q, Program.Derives ts p → Program.Derives ts q → p = q := by
  refine ⟨fun p => ⟨read_sound, read_derived⟩, ?_⟩
  intro p q first second
  have same : Except.ok p = Except.ok q := (read_derived first).symm.trans (read_derived second)
  exact Except.ok.inj same

end Program

end PrefixCalls.Source
