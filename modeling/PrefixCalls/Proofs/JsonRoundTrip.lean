import Mathlib.Data.List.Basic
import Mathlib.Data.List.TakeWhile
import PrefixCalls.Proofs.JsonReader

/-!
Reading what was written. Wherever a value may come, the reader takes the compact text of a value to a
state in which this value has just ended. So the whole text is read as the value.
-/
namespace PrefixCalls.Json

theorem induction_parts {P : Json → Prop} (text : ∀ s, P (.text s)) (count : ∀ n, P (.count n))
    (array : ∀ vs, (∀ v ∈ vs, P v) → P (.array vs))
    (object : ∀ ms, (∀ m ∈ ms, P m.2) → P (.object ms)) : ∀ v, P v
  | .text s => text s
  | .count n => count n
  | .array vs => array vs fun v _ => induction_parts text count array object v
  | .object ms => object ms fun m _member => induction_parts text count array object m.2
decreasing_by
  · decreasing_tactic
  · obtain ⟨k, v⟩ := m
    have smaller := List.sizeOf_lt_of_mem _member
    simp only [Prod.mk.sizeOf_spec, Json.object.sizeOf_spec] at smaller ⊢
    omega

mutual

def toValue : Json → Value
  | text s => .text s
  | count n => .number ⟨false, n, [], 0⟩
  | array vs => .array (toValues vs)
  | object ms => .object (toMembers ms)

def toValues : List Json → List Value
  | [] => []
  | v :: vs => toValue v :: toValues vs

def toMembers : List (String × Json) → List (String × Value)
  | [] => []
  | (k, v) :: ms => (k, toValue v) :: toMembers ms

end

theorem toValues_eq_map (vs : List Json) : toValues vs = vs.map toValue := by
  induction vs with
  | nil => rfl
  | cons v vs ih => simp [toValues, ih]

theorem toMembers_eq_map (ms : List (String × Json)) :
    toMembers ms = ms.map fun m => (m.1, toValue m.2) := by
  induction ms with
  | nil => rfl
  | cons m ms ih => simp [toMembers, ih]

theorem compactElements_eq_map (vs : List Json) : compactElements vs = vs.map compact := by
  induction vs with
  | nil => rfl
  | cons v vs ih => simp [compactElements, ih]

theorem compactMembers_eq_map (ms : List (String × Json)) :
    compactMembers ms = ms.map fun m => quote m.1 ++ ":" ++ compact m.2 := by
  induction ms with
  | nil => rfl
  | cons m ms ih => simp [compactMembers, ih]

theorem toList_quote (s : String) :
    (quote s).toList = '"' :: (s.toList.flatMap escape ++ ['"']) := by
  simp [quote]

theorem toList_compact_array (vs : List Json) :
    (array vs).compact.toList =
      '[' :: ([','].intercalate (vs.map fun v => v.compact.toList) ++ [']']) := by
  simp [compact, compactElements_eq_map, String.toList_intercalate, Function.comp_def]

theorem toList_compact_object (ms : List (String × Json)) :
    (object ms).compact.toList = '\x7b' :: ([','].intercalate (ms.map fun m =>
      (quote m.1).toList ++ ':' :: m.2.compact.toList) ++ ['\x7d']) := by
  simp [compact, compactMembers_eq_map, String.toList_intercalate, Function.comp_def]

theorem isDigit_of_toDigits {n : Nat} {c : Char} (member : c ∈ Nat.toDigits 10 n) : c.isDigit :=
  Nat.isDigit_of_mem_toDigits (by decide) (by decide) member

namespace Reader

/-! ### Strings -/

theorem escape_cases (c : Char) :
    (∃ e, unescape? e = some c ∧ escape c = ['\\', e]) ∨
    (c.toNat < 0x20 ∧ escape c =
      ['\\', 'u', '0', '0', Nat.digitChar (c.toNat / 16), Nat.digitChar (c.toNat % 16)]) ∨
    (c ≠ '"' ∧ c ≠ '\\' ∧ 0x20 ≤ c.toNat ∧ escape c = [c]) := by
  by_cases quote : c = '"'
  · subst quote
    exact .inl ⟨'"', rfl, rfl⟩
  by_cases backslash : c = '\\'
  · subst backslash
    exact .inl ⟨'\\', rfl, rfl⟩
  by_cases backspace : c = '\x08'
  · subst backspace
    exact .inl ⟨'b', rfl, rfl⟩
  by_cases feed : c = '\x0c'
  · subst feed
    exact .inl ⟨'f', rfl, rfl⟩
  by_cases newline : c = '\n'
  · subst newline
    exact .inl ⟨'n', rfl, rfl⟩
  by_cases carriage : c = '\r'
  · subst carriage
    exact .inl ⟨'r', rfl, rfl⟩
  by_cases tab : c = '\t'
  · subst tab
    exact .inl ⟨'t', rfl, rfl⟩
  rw [escape, if_neg quote, if_neg backslash, if_neg backspace, if_neg feed, if_neg newline,
    if_neg carriage, if_neg tab]
  by_cases low : c.toNat < 0x20
  · exact .inr (.inl ⟨low, if_pos low⟩)
  · exact .inr (.inr ⟨quote, backslash, Nat.le_of_not_lt low, if_neg low⟩)

theorem hexDigit?_digitChar : ∀ d < 16, hexDigit? (Nat.digitChar d) = some d := by decide

theorem putUnit_toNat (l : Literal) {c : Char} (low : c.toNat < 0x20) :
    l.putUnit none c.toNat = some (l.put c) := by
  have single : Literal.isFirstHalf c.toNat = false ∧ Literal.isSecondHalf c.toNat = false := by
    simp only [Literal.isFirstHalf, Literal.isSecondHalf, Bool.and_eq_false_iff,
      decide_eq_false_iff_not]
    omega
  simp [Literal.putUnit, single]

theorem step_literal {role : Role} {l m : Literal} {c : Char} (inside : l.phase ≠ .plain)
    (next : l.step c = some m) : step (.literal role l) c = some (.literal role m) := by
  simp [step, inside, next]

theorem run_short (role : Role) (before : List Char) {c e : Char} (short : unescape? e = some c) :
    run (.literal role ⟨before, .plain⟩) ['\\', e] =
      some (.literal role ⟨before ++ [c], .plain⟩) := by
  have backslash : step (.literal role ⟨before, .plain⟩) '\\' =
      some (.literal role ⟨before, .escape⟩) := rfl
  have other : e ≠ 'u' := by
    rintro rfl
    cases short
  have letter : Literal.step ⟨before, .escape⟩ e = some ⟨before ++ [c], .plain⟩ := by
    simp only [Literal.step, other, ↓reduceIte, short]
    rfl
  rw [run, backslash, Option.bind_some, run, step_literal (by simp) letter]
  rfl

theorem run_unit (role : Role) (before : List Char) {c : Char} (low : c.toNat < 0x20) :
    run (.literal role ⟨before, .plain⟩)
      ['\\', 'u', '0', '0', Nat.digitChar (c.toNat / 16), Nat.digitChar (c.toNat % 16)] =
        some (.literal role ⟨before ++ [c], .plain⟩) := by
  have zeros : run (.literal role ⟨before, .plain⟩) ['\\', 'u', '0', '0'] =
      some (.literal role ⟨before, .unit none [0, 0]⟩) := rfl
  have third : Literal.step ⟨before, .unit none [0, 0]⟩ (Nat.digitChar (c.toNat / 16)) =
      some ⟨before, .unit none [0, 0, c.toNat / 16]⟩ := by
    simp only [Literal.step, hexDigit?_digitChar (c.toNat / 16) (by omega)]
    rfl
  have fourth : Literal.step ⟨before, .unit none [0, 0, c.toNat / 16]⟩
      (Nat.digitChar (c.toNat % 16)) = some ⟨before ++ [c], .plain⟩ := by
    have number : ((0 * 16 + 0) * 16 + c.toNat / 16) * 16 + c.toNat % 16 = c.toNat := by omega
    simp only [Literal.step, hexDigit?_digitChar (c.toNat % 16) (by omega), Option.bind_some, number,
      putUnit_toNat _ low]
    rfl
  have split := run_append (.literal role ⟨before, .plain⟩) ['\\', 'u', '0', '0']
    [Nat.digitChar (c.toNat / 16), Nat.digitChar (c.toNat % 16)]
  rw [zeros, Option.bind_some, run, step_literal (by simp) third, Option.bind_some, run,
    step_literal (by simp) fourth] at split
  exact split

theorem run_escape (role : Role) (before : List Char) (c : Char) :
    run (.literal role ⟨before, .plain⟩) (escape c) =
      some (.literal role ⟨before ++ [c], .plain⟩) := by
  rcases escape_cases c with ⟨e, short, shape⟩ | ⟨low, shape⟩ | ⟨quote, backslash, high, shape⟩
  · rw [shape]
    exact run_short role before short
  · rw [shape]
    exact run_unit role before low
  · have raw : Literal.step ⟨before, .plain⟩ c = some ⟨before ++ [c], .plain⟩ := by
      simp only [Literal.step, backslash, ↓reduceIte, Nat.not_lt.mpr high]
      rfl
    simp [shape, run, step, quote, raw]

theorem run_escapes (role : Role) (before cs : List Char) :
    run (.literal role ⟨before, .plain⟩) (cs.flatMap escape) =
      some (.literal role ⟨before ++ cs, .plain⟩) := by
  induction cs generalizing before with
  | nil => simp [run]
  | cons c cs ih =>
    rw [List.flatMap_cons, run_append, run_escape, Option.bind_some, ih, List.append_assoc]
    rfl

theorem run_quote {st : State} {role : Role} (opens : step st '"' = some (.literal role .start))
    (s : String) : run st (quote s).toList = some (role.fill s) := by
  rw [toList_quote, run, opens, Option.bind_some, Literal.start, run_append, run_escapes,
    Option.bind_some, run, step]
  simp [run]

/-! ### Numbers -/

theorem head_toDigits {n : Nat} (zero : (Nat.toDigits 10 n).head? = some '0') : n = 0 := by
  induction n using Nat.strongRecOn with
  | ind n ih =>
    rw [Nat.toDigits_eq_if (by decide)] at zero
    split at zero
    · simpa using zero
    · rw [List.head?_append_of_ne_nil _ Nat.toDigits_ne_nil] at zero
      have := ih (n / 10) (by omega) zero
      omega

theorem whole?_toDigits (n : Nat) : whole? (Nat.toDigits 10 n) = some n := by
  unfold whole?
  split
  · rename_i d cs spelled
    have zero : n = 0 := head_toDigits (by rw [spelled]; rfl)
    rw [zero, Nat.toDigits_zero] at spelled
    cases spelled
  · have digits : (Nat.toDigits 10 n).all Char.isDigit :=
      List.all_eq_true.mpr fun c member => isDigit_of_toDigits member
    simp [digits?, Nat.toDigits_ne_nil, digits]

theorem numeral?_toDigits (n : Nat) : numeral? (Nat.toDigits 10 n) = some ⟨false, n, [], 0⟩ := by
  have digits : ∀ c ∈ Nat.toDigits 10 n, c.isDigit := fun c member => isDigit_of_toDigits member
  unfold numeral?
  split
  · rename_i cs spelled
    have sign := digits '-' (by simp [spelled])
    cases sign
  · rw [unsigned?, List.takeWhile_eq_self_iff.mpr digits, List.dropWhile_eq_nil_iff.mpr digits,
      whole?_toDigits]
    rfl

theorem ofWord?_toDigits (n : Nat) :
    ofWord? (Nat.toDigits 10 n) = some (.number ⟨false, n, [], 0⟩) := by
  have other : ∀ {word : List Char} (c : Char), c ∈ word → c.isDigit = false →
      Nat.toDigits 10 n ≠ word := by
    rintro word c member letter rfl
    rw [isDigit_of_toDigits member] at letter
    cases letter
  unfold ofWord?
  rw [if_neg (other 'n' (by simp) rfl), if_neg (other 't' (by simp) rfl),
    if_neg (other 'f' (by simp) rfl), numeral?_toDigits]
  rfl

theorem step_digit {c : Char} (digit : c.isDigit) (outer : List Frame) :
    step (.value outer) c = some (.word outer [c]) := by
  have other : ∀ d : Char, d.isDigit = false → c ≠ d := by
    rintro d letter rfl
    simp [digit] at letter
  have solid : isBlank c = false := by simp [isBlank, other]
  simp [step, solid, other, isWordChar, Char.isAlphanum, digit]

theorem run_digits {cs : List Char} (digits : ∀ c ∈ cs, c.isDigit) (outer : List Frame)
    (before : List Char) : run (.word outer before) cs = some (.word outer (before ++ cs)) := by
  induction cs generalizing before with
  | nil => simp [run]
  | cons c cs ih =>
    obtain ⟨first, others⟩ := List.forall_mem_cons.mp digits
    simp [run, step, isWordChar, Char.isAlphanum, first, ih others]

theorem run_toDigits (n : Nat) (outer : List Frame) :
    run (.value outer) (Nat.toDigits 10 n) = some (.word outer (Nat.toDigits 10 n)) := by
  have digits : ∀ c ∈ Nat.toDigits 10 n, c.isDigit := fun c member => isDigit_of_toDigits member
  obtain ⟨c, cs, spelled⟩ := List.exists_cons_of_ne_nil (Nat.toDigits_ne_nil (n := n) (b := 10))
  rw [spelled] at digits ⊢
  obtain ⟨first, others⟩ := List.forall_mem_cons.mp digits
  rw [run, step_digit first, Option.bind_some, run_digits others]
  rfl

/-! ### Values -/

/-- A state that goes on like the one in which the value has just ended. The last character of a word
    leads to such a state, since only the character behind it ends the word. -/
structure Settled (outer : List Frame) (v : Value) (st : State) : Prop where
  next : ∀ c, isWordChar c = false → step st c = after v c outer
  last : st.value? = (State.done outer v).value?

theorem settled_done (outer : List Frame) (v : Value) : Settled outer v (.done outer v) :=
  ⟨fun _ _ => rfl, rfl⟩

theorem settled_word {outer : List Frame} {word : List Char} {v : Value}
    (spelled : ofWord? word = some v) : Settled outer v (.word outer word) := by
  constructor
  · intro c other
    simp [step, other, spelled]
  · cases outer with
    | nil => exact spelled
    | cons frame outer => rfl

def Reads (text : List Char) (v : Value) : Prop :=
  ∀ outer, ∃ st, run (.value outer) text = some st ∧ Settled outer v st

/-- Behind the items in front of it an item is read, and then a comma leads to the next item and the
    bracket to the end. -/
def ReadsItem {β : Type} (here done : List β → State) (close : Char) (text : List Char) (x : β) :
    Prop :=
  ∀ before, ∃ st, run (here before) text = some st ∧ step st ',' = some (here (before ++ [x])) ∧
    step st close = some (done (before ++ [x]))

section

variable {α β : Type} {here done : List β → State} {close : Char} {text : α → List Char}
  {item : α → β}

theorem run_items {x : α} {xs : List α}
    (each : ∀ y ∈ x :: xs, ReadsItem here done close (text y) (item y)) (before : List β) :
    run (here before) ([','].intercalate ((x :: xs).map text) ++ [close]) =
      some (done (before ++ (x :: xs).map item)) := by
  -- The first item is kept apart, because only items behind another have a comma in front.
  induction xs generalizing x before with
  | nil =>
    obtain ⟨st, reached, _, closed⟩ := each x (by simp) before
    simp [run_append, reached, run, closed]
  | cons y xs ih =>
    obtain ⟨first, others⟩ := List.forall_mem_cons.mp each
    obtain ⟨st, reached, next, _⟩ := first before
    have rest := ih others (before ++ [item x])
    simp only [List.map_cons, List.intercalate_cons_cons, List.append_assoc] at rest ⊢
    rw [run_append, reached, Option.bind_some, List.singleton_append, run, next, Option.bind_some,
      rest, List.singleton_append]

theorem run_joined {xs : List α} (empty : step (here []) close = some (done []))
    (each : ∀ x ∈ xs, ReadsItem here done close (text x) (item x)) :
    run (here []) ([','].intercalate (xs.map text) ++ [close]) = some (done (xs.map item)) := by
  cases xs with
  | nil => simp [run, empty]
  | cons x xs => simpa using run_items each []

end

theorem readsItem_element {text : List Char} {v : Value} (reads : Reads text v)
    (outer : List Frame) :
    ReadsItem (fun before => .value (.element before :: outer))
      (fun vs => .done outer (.array vs)) ']' text v := by
  intro before
  obtain ⟨st, reached, settled⟩ := reads (.element before :: outer)
  refine ⟨st, reached, ?_, ?_⟩
  · rw [settled.next ',' rfl]
    rfl
  · rw [settled.next ']' rfl]
    rfl

theorem readsItem_member {text : List Char} {v : Value} (reads : Reads text v) (key : String)
    (outer : List Frame) :
    ReadsItem (fun before => .key before outer) (fun ms => .done outer (.object ms)) '\x7d'
      ((quote key).toList ++ ':' :: text) (key, v) := by
  intro before
  obtain ⟨st, reached, settled⟩ := reads (.member before key :: outer)
  have opens : step (.key before outer) '"' = some (.literal (.key before outer) .start) := rfl
  refine ⟨st, ?_, ?_, ?_⟩
  · rw [run_append, run_quote opens]
    exact reached
  · rw [settled.next ',' rfl]
    rfl
  · rw [settled.next '\x7d' rfl]
    rfl

theorem reads_compact (v : Json) : Reads v.compact.toList v.toValue := by
  intro outer
  induction v using induction_parts generalizing outer with
  | text s =>
    have opens : step (.value outer) '"' = some (.literal (.value outer) .start) := rfl
    exact ⟨.done outer (.text s), run_quote opens s, settled_done _ _⟩
  | count n =>
    have digits : (count n).compact.toList = Nat.toDigits 10 n := by
      rw [compact, Nat.toString_eq_repr, Nat.toList_repr]
    rw [digits]
    exact ⟨_, run_toDigits n outer, settled_word (ofWord?_toDigits n)⟩
  | array vs ih =>
    refine ⟨.done outer (array vs).toValue, ?_, settled_done _ _⟩
    have elements := fun v member => readsItem_element (ih v member) outer
    rw [toList_compact_array, toValue, toValues_eq_map]
    exact run_joined rfl elements
  | object ms ih =>
    refine ⟨.done outer (object ms).toValue, ?_, settled_done _ _⟩
    have members := fun m member => readsItem_member (ih m member) m.1 outer
    rw [toList_compact_object, toValue, toMembers_eq_map]
    exact run_joined rfl members

end Reader

theorem read?_compact (v : Json) : read? v.compact = some v.toValue := by
  obtain ⟨st, reached, settled⟩ := Reader.reads_compact v []
  rw [read?, reached, Option.bind_some, settled.last]
  rfl

-- Texts in other layouts and spellings are read too, and texts that only look like JSON are not.
example : read? "[ -1.50e+3, null ,\n\x7b \"\\ud83d\\uDE00\" : [] \x7d ]" =
    some (.array [.number ⟨true, 1, ['5', '0'], 3⟩, .null, .object [("😀", .array [])]]) := rfl

example : ["[1,]", "01", "\"\\ud83d\"", "1 2"].map read? = [none, none, none, none] := rfl

end PrefixCalls.Json
