import PrefixCalls.Json.Encode
import PrefixCalls.Proofs.JsonRoundTrip

/-!
The two texts of a value differ in their layout only. A cursor that moves over a JSON text knows
whether the next character is in a string literal. The indented text, without the spaces and line
breaks that the cursor meets outside of literals, is the compact text.
-/
namespace PrefixCalls

namespace Json

inductive Place where
  | outside
  | inside
  | escaped
  deriving DecidableEq, Repr

/-- Moving over one character. A quote opens and closes a literal; behind a backslash it is one of
    the characters of the literal. -/
def Place.next : Place → Char → Place
  | outside, c => if c = '"' then inside else outside
  | inside, c => if c = '"' then outside else if c = '\\' then escaped else inside
  | escaped, _ => inside

def Place.behind (p : Place) : List Char → Place
  | [] => p
  | c :: cs => (p.next c).behind cs

def Place.squeeze (p : Place) : List Char → List Char
  | [] => []
  | c :: cs =>
    if p = outside ∧ (c = ' ' ∨ c = '\n') then (p.next c).squeeze cs else c :: (p.next c).squeeze cs

def unspaced (text : String) : String := String.ofList (Place.outside.squeeze text.toList)

theorem behind_append (p : Place) (cs ds : List Char) :
    p.behind (cs ++ ds) = (p.behind cs).behind ds := by
  induction cs generalizing p with
  | nil => rfl
  | cons c cs ih => simp only [List.cons_append, Place.behind, ih]

theorem squeeze_append (p : Place) (cs ds : List Char) :
    p.squeeze (cs ++ ds) = p.squeeze cs ++ (p.behind cs).squeeze ds := by
  induction cs generalizing p with
  | nil => rfl
  | cons c cs ih =>
    simp only [List.cons_append, Place.squeeze, Place.behind, ih]
    split
    · rfl
    · rfl

/-- The text leads from a place to a place, and squeezing leaves the short text of it. -/
structure Squeezes (p : Place) (text short : List Char) (q : Place) : Prop where
  leads : p.behind text = q
  leaves : p.squeeze text = short

namespace Squeezes

variable {p q r : Place} {cs ds short rest : List Char}

theorem nil (p : Place) : Squeezes p [] [] p := ⟨rfl, rfl⟩

theorem append (first : Squeezes p cs short q) (second : Squeezes q ds rest r) :
    Squeezes p (cs ++ ds) (short ++ rest) r := by
  constructor
  · rw [behind_append, first.leads, second.leads]
  · rw [squeeze_append, first.leads, first.leaves, second.leaves]

theorem inLiteral (inside : p ≠ .outside) (c : Char) : Squeezes p [c] [c] (p.next c) :=
  ⟨rfl, by simp [Place.squeeze, inside]⟩

theorem solid {c : Char} (space : c ≠ ' ') (newline : c ≠ '\n') :
    Squeezes p [c] [c] (p.next c) :=
  ⟨rfl, by simp [Place.squeeze, space, newline]⟩

theorem mark {c : Char} (space : c ≠ ' ') (newline : c ≠ '\n') (quote : c ≠ '"') :
    Squeezes .outside [c] [c] .outside := by
  have moved : Place.outside.next c = .outside := by simp [Place.next, quote]
  have step := solid (p := .outside) space newline
  rwa [moved] at step

theorem marks (each : ∀ c ∈ cs, c ≠ ' ' ∧ c ≠ '\n' ∧ c ≠ '"') :
    Squeezes .outside cs cs .outside := by
  induction cs with
  | nil => exact nil _
  | cons c cs ih =>
    obtain ⟨⟨space, newline, quote⟩, others⟩ := List.forall_mem_cons.mp each
    exact (mark space newline quote).append (ih others)

theorem intercalate {α : Type} {sep between : List Char} {xs : List α} {text short : α → List Char}
    (separator : Squeezes .outside sep between .outside)
    (each : ∀ x ∈ xs, Squeezes .outside (text x) (short x) .outside) :
    Squeezes .outside (sep.intercalate (xs.map text)) (between.intercalate (xs.map short))
      .outside := by
  induction xs with
  | nil => exact nil _
  | cons x xs ih =>
    obtain ⟨first, others⟩ := List.forall_mem_cons.mp each
    cases xs with
    | nil => simpa using first
    | cons y xs =>
      simp only [List.map_cons, List.intercalate_cons_cons] at ih ⊢
      exact (first.append separator).append (ih others)

/-! ### String literals -/

theorem plain {c : Char} (quote : c ≠ '"') (backslash : c ≠ '\\') :
    Squeezes .inside [c] [c] .inside := by
  have moved : Place.inside.next c = .inside := by simp [Place.next, quote, backslash]
  have step := inLiteral (p := .inside) (by decide) c
  rwa [moved] at step

theorem pair (e : Char) : Squeezes .inside ['\\', e] ['\\', e] .inside :=
  (inLiteral (by decide) '\\').append (inLiteral (by decide) e)

theorem hexDigit {d : Nat} (low : d < 16) :
    Squeezes .inside [Nat.digitChar d] [Nat.digitChar d] .inside := by
  have other : ∀ d < 16, Nat.digitChar d ≠ '"' ∧ Nat.digitChar d ≠ '\\' := by decide
  exact plain (other d low).1 (other d low).2

theorem escape (c : Char) : Squeezes .inside (escape c) (escape c) .inside := by
  -- However it is escaped, no quote of its own ends the literal.
  rcases Reader.escape_cases c with ⟨e, _, shape⟩ | ⟨low, shape⟩ | ⟨quote, backslash, _, shape⟩
  · rw [shape]
    exact pair e
  · have zeros : Squeezes .inside ['\\', 'u', '0', '0'] ['\\', 'u', '0', '0'] .inside :=
      ⟨rfl, rfl⟩
    have high := hexDigit (d := c.toNat / 16) (by omega)
    have low := hexDigit (d := c.toNat % 16) (by omega)
    rw [shape]
    exact zeros.append (high.append low)
  · rw [shape]
    exact plain quote backslash

theorem escapes (cs : List Char) :
    Squeezes .inside (cs.flatMap Json.escape) (cs.flatMap Json.escape) .inside := by
  induction cs with
  | nil => exact nil _
  | cons c cs ih =>
    rw [List.flatMap_cons]
    exact (escape c).append ih

theorem quote (s : String) : Squeezes .outside (quote s).toList (quote s).toList .outside := by
  have opening : Squeezes .outside ['"'] ['"'] .inside := ⟨rfl, rfl⟩
  have closing : Squeezes .inside ['"'] ['"'] .outside := ⟨rfl, rfl⟩
  rw [toList_quote]
  exact opening.append ((escapes s.toList).append closing)

/-! ### Values -/

theorem count (n : Nat) :
    Squeezes .outside (toString n).toList (toString n).toList .outside := by
  apply marks
  intro c member
  rw [Nat.toString_eq_repr, Nat.toList_repr] at member
  have digit := isDigit_of_toDigits member
  refine ⟨?_, ?_, ?_⟩
  all_goals
    rintro rfl
    cases digit

theorem newline (depth : Nat) : Squeezes .outside (newline depth).toList [] .outside := by
  have spaces : ∀ n, Squeezes .outside (List.replicate n ' ') [] .outside := by
    intro n
    induction n with
    | zero => exact nil _
    | succ n ih => exact ⟨ih.leads, ih.leaves⟩
  have broken : Squeezes .outside ['\n'] [] .outside := ⟨rfl, rfl⟩
  have line := broken.append (spaces (2 * depth))
  simpa [Json.newline] using line

theorem block {α : Type} {left right : String} {xs : List α} {text : α → String}
    {short : α → List Char} (opens : Squeezes .outside left.toList left.toList .outside)
    (closes : Squeezes .outside right.toList right.toList .outside) (depth : Nat)
    (each : ∀ x ∈ xs, Squeezes .outside (text x).toList (short x) .outside) :
    Squeezes .outside (block left right depth (xs.map text)).toList
      (left.toList ++ ([','].intercalate (xs.map short) ++ right.toList)) .outside := by
  cases xs with
  | nil => simpa [Json.block] using opens.append closes
  | cons x xs =>
    have comma : Squeezes .outside [','] [','] .outside := ⟨rfl, rfl⟩
    have items := intercalate (comma.append (newline (depth + 1))) each
    have laid := opens.append
      ((newline (depth + 1)).append (items.append ((newline depth).append closes)))
    simpa [Json.block, String.toList_intercalate, Function.comp_def] using laid

end Squeezes

theorem prettyElements_eq_map (depth : Nat) (vs : List Json) :
    prettyElements depth vs = vs.map (prettyAt depth) := by
  induction vs with
  | nil => rfl
  | cons v vs ih => simp [prettyElements, ih]

theorem prettyMembers_eq_map (depth : Nat) (ms : List (String × Json)) :
    prettyMembers depth ms = ms.map fun m => quote m.1 ++ ": " ++ prettyAt depth m.2 := by
  induction ms with
  | nil => rfl
  | cons m ms ih => simp [prettyMembers, ih]

theorem squeezes_prettyAt (v : Json) (depth : Nat) :
    Squeezes .outside (v.prettyAt depth).toList v.compact.toList .outside := by
  induction v using induction_parts generalizing depth with
  | text s => exact Squeezes.quote s
  | count n => exact Squeezes.count n
  | array vs ih =>
    rw [prettyAt, prettyElements_eq_map, toList_compact_array]
    exact Squeezes.block ⟨rfl, rfl⟩ ⟨rfl, rfl⟩ depth fun v member => ih v member (depth + 1)
  | object ms ih =>
    rw [prettyAt, prettyMembers_eq_map, toList_compact_object]
    apply Squeezes.block ⟨rfl, rfl⟩ ⟨rfl, rfl⟩ depth
    intro m member
    have colon : Squeezes .outside [':', ' '] [':'] .outside := ⟨rfl, rfl⟩
    have keyed := (Squeezes.quote m.1).append (colon.append (ih m member (depth + 1)))
    simpa using keyed

theorem unspaced_pretty (v : Json) : unspaced v.pretty = v.compact := by
  rw [unspaced, pretty, (squeezes_prettyAt v 0).leaves, String.ofList_toList]

-- The quote behind a backslash does not end the literal, and the second of two backslashes escapes
-- nothing, so the blank in between stays.
example : pretty (.array [.text "a\" \\", .array [], .object [("k", .count 1)]]) =
    "[\n  \"a\\\" \\\\\",\n  [],\n  \x7b\n    \"k\": 1\n  \x7d\n]" := rfl

example : unspaced "[\n  \"a\\\" \\\\\",\n  [],\n  \x7b\n    \"k\": 1\n  \x7d\n]" =
    "[\"a\\\" \\\\\",[],\x7b\"k\":1\x7d]" := rfl

end Json

/-- The indented texts of token lists, source programs and target programs, of any strings and
    nesting, are their compact texts with spaces and line breaks put in outside of string literals. -/
theorem pretty_texts_unspaced :
    (∀ ts, Json.unspaced (Token.listToJson ts).pretty = (Token.listToJson ts).compact) ∧
    (∀ p : Source.Program, Json.unspaced p.toJson.pretty = p.toJson.compact) ∧
    ∀ q : Target.Program, Json.unspaced q.toJson.pretty = q.toJson.compact := by
  refine ⟨?_, ?_, ?_⟩
  · intro ts
    exact Json.unspaced_pretty (Token.listToJson ts)
  · intro p
    exact Json.unspaced_pretty p.toJson
  · intro q
    exact Json.unspaced_pretty q.toJson

end PrefixCalls
