import Mathlib
import PrefixCalls.Diagnostic

/-!
Messages tell diagnostics apart. A message begins with a phrase for its stage and may go on with
phrases for what was expected and found; no phrase is the beginning of another, so they are told
apart from the front. What a message cites may look like anything, also like the rest of a message,
but the offset is all that comes behind the last space, so it is told from the end.
-/
namespace PrefixCalls

namespace Text

def PrefixFree {α : Type} (phrase : α → String) : Prop :=
  ∀ a b, (phrase a).toList <+: (phrase b).toList → a = b

theorem PrefixFree.split {α : Type} {phrase : α → String} (apart : PrefixFree phrase) {a b : α}
    {x y : String} (same : phrase a ++ x = phrase b ++ y) : a = b ∧ x = y := by
  have chars := congrArg String.toList same
  rw [String.toList_append, String.toList_append] at chars
  have found : a = b := by
    rcases List.append_eq_append_iff.mp chars with ⟨more, longer, _⟩ | ⟨more, longer, _⟩
    · exact apart a b ⟨more, longer.symm⟩
    · exact (apart b a ⟨more, longer.symm⟩).symm
  subst found
  exact ⟨rfl, String.append_right_inj _ |>.mp same⟩

theorem rdropWhile_digits (x : String) (n : Nat) :
    (x ++ " at offset " ++ toString n).toList.rdropWhile Char.isDigit =
      (x ++ " at offset ").toList := by
  have digits : ∀ c ∈ (Nat.toDigits 10 n).reverse, c.isDigit := by
    intro c member
    exact Nat.isDigit_of_mem_toDigits (by decide) (by decide) (List.mem_reverse.mp member)
  rw [String.toList_append, Nat.toString_eq_repr, Nat.toList_repr, List.rdropWhile,
    List.reverse_append, List.dropWhile_append_of_pos digits]
  simp

theorem split_offset {x y : String} {m n : Nat}
    (same : x ++ " at offset " ++ toString m = y ++ " at offset " ++ toString n) :
    x = y ∧ m = n := by
  -- The texts may cite " at offset " themselves, so the digits are taken off from the end.
  have fronts : (x ++ " at offset ").toList = (y ++ " at offset ").toList := by
    rw [← rdropWhile_digits x m, ← rdropWhile_digits y n, same]
  have texts : x = y := (String.append_left_inj _).mp (String.toList_injective fronts)
  rw [texts] at same
  exact ⟨texts, Nat.repr_injective ((String.append_right_inj _).mp same)⟩

end Text

open Text

def Stage.lead : Stage → String
  | lex => "invalid character '"
  | parse => "expected "
  | generate => "internal error: expression statement nested inside "

theorem Stage.lead_prefixFree : PrefixFree Stage.lead := by
  intro s t
  cases s <;> cases t <;> simp [Stage.lead]

theorem Expected.describe_prefixFree : PrefixFree Expected.describe := by
  intro e f
  cases e <;> cases f <;> simp [Expected.describe]

theorem Token.Kind.describe_prefixFree : PrefixFree Token.Kind.describe := by
  intro k l
  cases k <;> cases l <;> simp [Token.Kind.describe]

namespace Diagnostic

/-- What a message says between the words for the stage and the offset. -/
def subject : Diagnostic → String
  | invalidCharacter c _ => String.singleton c ++ "'"
  | unexpectedToken expected token =>
    expected.describe ++ (", but got " ++ (token.kind.describe ++ (" \"" ++ (token.text ++ "\""))))
  | unexpectedEnd expected _ => expected.describe ++ ", but reached end of input"
  | nestedStatement within => within

def located (d : Diagnostic) : String :=
  match d.position? with
  | none => d.subject
  | some position => d.subject ++ " at offset " ++ toString position

theorem message_eq_located (d : Diagnostic) : d.message = d.stage.lead ++ d.located := by
  unfold message
  apply String.toList_injective
  cases d <;> simp [Stage.lead, stage, located, position?, subject]

/-- Diagnostics of one stage have offsets or have none, so the offset is where the text ends. -/
theorem split_located {d e : Diagnostic} (stage : d.stage = e.stage)
    (same : d.located = e.located) : d.subject = e.subject ∧ d.position? = e.position? := by
  have both : d.position? = none ↔ e.position? = none := by
    cases d <;> cases e <;> simp_all [Diagnostic.stage, position?]
  unfold located at same
  cases left : d.position? with
  | none =>
    have right := both.mp left
    rw [left, right] at same
    exact ⟨same, right.symm⟩
  | some m =>
    cases right : e.position? with
    | none =>
      rw [both.mpr right] at left
      cases left
    | some n =>
      rw [left, right] at same
      obtain ⟨subject, position⟩ := split_offset same
      exact ⟨subject, congrArg some position⟩

theorem got_ne_reached (e f : Expected) (found : String) :
    e.describe ++ (", but got " ++ found) ≠ f.describe ++ ", but reached end of input" := by
  intro same
  have chars := congrArg String.toList (Expected.describe_prefixFree.split same).2
  simp at chars

theorem token_eq_of_subject {e f : Expected} {t u : Token}
    (subject : (unexpectedToken e t).subject = (unexpectedToken f u).subject)
    (loc : t.loc = u.loc) : e = f ∧ t = u := by
  obtain ⟨expected, got⟩ := Expected.describe_prefixFree.split subject
  have found := (String.append_right_inj _).mp got
  obtain ⟨kind, quoted⟩ := Token.Kind.describe_prefixFree.split found
  have text : t.text = u.text :=
    (String.append_left_inj _).mp ((String.append_right_inj _).mp quoted)
  cases t
  cases u
  exact ⟨expected, by simp_all⟩

theorem eq_of_subject {d e : Diagnostic} (stage : d.stage = e.stage)
    (subject : d.subject = e.subject) (position : d.position? = e.position?) : d = e := by
  cases d with
  | invalidCharacter c m =>
    cases e with
    | invalidCharacter f n =>
      have chars := congrArg String.toList ((String.append_left_inj _).mp subject)
      rw [String.toList_singleton, String.toList_singleton] at chars
      rw [List.singleton_inj.mp chars, Option.some.inj position]
    | _ => cases stage
  | unexpectedToken expected t =>
    cases e with
    | unexpectedToken other u =>
      obtain ⟨rfl, rfl⟩ := token_eq_of_subject subject (Option.some.inj position)
      rfl
    | unexpectedEnd other n => exact absurd subject (got_ne_reached _ _ _)
    | _ => cases stage
  | unexpectedEnd expected m =>
    cases e with
    | unexpectedToken other u => exact absurd subject.symm (got_ne_reached _ _ _)
    | unexpectedEnd other n =>
      rw [(Expected.describe_prefixFree.split subject).1, Option.some.inj position]
    | _ => cases stage
  | nestedStatement within =>
    cases e with
    | nestedStatement other => exact congrArg nestedStatement subject
    | _ => cases stage

theorem eq_of_message {d e : Diagnostic} (same : d.message = e.message) : d = e := by
  rw [message_eq_located, message_eq_located] at same
  obtain ⟨stage, located⟩ := Stage.lead_prefixFree.split same
  obtain ⟨subject, position⟩ := split_located stage located
  exact eq_of_subject stage subject position

theorem lead_prefix_iff (d : Diagnostic) (s : Stage) :
    s.lead.toList <+: d.message.toList ↔ d.stage = s := by
  rw [message_eq_located]
  constructor
  · rintro ⟨rest, split⟩
    have same : s.lead ++ String.ofList rest = d.stage.lead ++ d.located := by
      apply String.toList_injective
      rw [← split, String.toList_append, String.toList_ofList]
    exact (Stage.lead_prefixFree.split same).1.symm
  · rintro rfl
    rw [String.toList_append]
    exact List.prefix_append _ _

end Diagnostic

/-- Two diagnostics with one message are one diagnostic, whatever character, text, holder and offset
    the message cites. Its first words alone tell the stage. -/
theorem message_identifies_diagnostic :
    (∀ d e : Diagnostic, d.message = e.message ↔ d = e) ∧
    ∀ (d : Diagnostic) (s : Stage), d.stage = s ↔ s.lead.toList <+: d.message.toList := by
  refine ⟨fun d e => ⟨Diagnostic.eq_of_message, congrArg Diagnostic.message⟩, ?_⟩
  intro d s
  exact (d.lead_prefix_iff s).symm

end PrefixCalls
