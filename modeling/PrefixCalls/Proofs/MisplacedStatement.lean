import PrefixCalls.Target.Write

/-!
Which target programs can be written. All nodes of a program are visited from left to right, each
before its parts, and each with what holds it. A program is written exactly when no statement is
visited outside the body, and else the first such statement decides what is refused.
-/
namespace PrefixCalls.Target

/-- What directly holds a node: the body of the program, a statement of the body, or anything
    deeper. -/
inductive Holder where
  | body
  | statement
  | deeper
  deriving DecidableEq, Repr

namespace Holder

def inStatement : Holder → Holder
  | body => statement
  | statement => deeper
  | deeper => deeper

def words (h : Holder) : String :=
  if h = statement then "another expression statement" else "a call argument"

end Holder

structure Visit where
  holder : Holder
  node : Node

def Node.isStatement : Node → Bool
  | .statement _ => true
  | _ => false

def Visit.misplaced (v : Visit) : Bool := v.node.isStatement && v.holder != .body

mutual

/-- A node and all nodes in it, each in front of its parts. -/
def Node.visits (holder : Holder) : Node → List Visit
  | .statement n => ⟨holder, .statement n⟩ :: Node.visits holder.inStatement n
  | .call callee arguments => ⟨holder, .call callee arguments⟩ :: Node.visitsAll arguments
  | .identifier name => [⟨holder, .identifier name⟩]
  | .number text => [⟨holder, .number text⟩]

def Node.visitsAll : List Node → List Visit
  | [] => []
  | n :: ns => Node.visits .deeper n ++ Node.visitsAll ns

end

def Program.visits (p : Program) : List Visit := p.body.flatMap (Node.visits .body)

mutual

/-- The text of a node, with a semicolon behind each statement wherever it stands. -/
def Node.text : Node → String
  | .statement n => n.text ++ ";"
  | .call callee arguments => callee ++ "(" ++ ", ".intercalate (Node.texts arguments) ++ ")"
  | .identifier name => name
  | .number text => text

def Node.texts : List Node → List String
  | [] => []
  | n :: ns => n.text :: Node.texts ns

end

def Program.text (p : Program) : String := "\n".intercalate (p.body.map Node.text)

def judge {α : Type} (vs : List Visit) (value : α) : Except Diagnostic α :=
  match vs.find? Visit.misplaced with
  | none => .ok value
  | some v => .error (.nestedStatement v.holder.words)

section

variable {α β : Type} (us vs : List Visit) (value : α)

theorem judge_placed {v : Visit} (placed : v.misplaced = false) :
    judge (v :: vs) value = judge vs value := by
  simp [judge, placed]

theorem map_judge (f : α → β) : (judge vs value).map f = judge vs (f value) := by
  unfold judge
  cases vs.find? Visit.misplaced <;> rfl

theorem judge_append (values : List α) :
    (judge us value).bind (fun a => (judge vs values).map (a :: ·)) =
      judge (us ++ vs) (value :: values) := by
  rw [judge.eq_def us, judge.eq_def (us ++ vs), List.find?_append]
  cases us.find? Visit.misplaced with
  | none => exact map_judge vs values (value :: ·)
  | some v => rfl

theorem judge_eq_ok_iff (result : α) :
    judge vs value = .ok result ↔ (∀ v ∈ vs, v.misplaced = false) ∧ result = value := by
  have none_found : vs.find? Visit.misplaced = none ↔ ∀ v ∈ vs, v.misplaced = false := by simp
  rw [← none_found, judge]
  cases vs.find? Visit.misplaced with
  | none => simp [eq_comm]
  | some v => simp

theorem judge_eq_error_iff (d : Diagnostic) :
    judge vs value = .error d ↔ ∃ before v after, vs = before ++ v :: after ∧ v.misplaced ∧
      (∀ u ∈ before, u.misplaced = false) ∧ d = .nestedStatement v.holder.words := by
  have first : ∀ v, vs.find? Visit.misplaced = some v ↔ ∃ before after,
      vs = before ++ v :: after ∧ v.misplaced ∧ ∀ u ∈ before, u.misplaced = false := by
    intro v
    rw [List.find?_eq_some_iff_append]
    simp only [Bool.not_eq_true']
    constructor
    · rintro ⟨misplaced, before, after, split, placed⟩
      exact ⟨before, after, split, misplaced, placed⟩
    · rintro ⟨before, after, split, misplaced, placed⟩
      exact ⟨misplaced, before, after, split, placed⟩
  rw [judge]
  constructor
  · intro refused
    cases found : vs.find? Visit.misplaced with
    | none =>
      rw [found] at refused
      cases refused
    | some v =>
      rw [found] at refused
      cases refused
      obtain ⟨before, after, split, misplaced, placed⟩ := (first v).mp found
      exact ⟨before, v, after, split, misplaced, placed, rfl⟩
  · rintro ⟨before, v, after, split, misplaced, placed, rfl⟩
    rw [(first v).mpr ⟨before, after, split, misplaced, placed⟩]

end

theorem Node.judge_visits {α : Type} {n : Node} (other : n.isStatement = false) (h k : Holder)
    (value : α) : judge (n.visits h) value = judge (n.visits k) value := by
  cases n with
  | statement n => cases other
  | call callee ns => rw [Node.visits, Node.visits, judge_placed _ _ rfl, judge_placed _ _ rfl]
  | identifier name => rfl
  | number text => rfl

theorem Node.writeAll_cons (n : Node) (ns : List Node) :
    Node.writeAll (n :: ns) = n.write.bind fun text => (Node.writeAll ns).map (text :: ·) := by
  rw [Node.writeAll]
  cases n.write <;> rfl

theorem Node.writeTops_cons (n : Node) (ns : List Node) :
    Node.writeTops (n :: ns) = n.writeTop.bind fun text => (Node.writeTops ns).map (text :: ·) := by
  rw [Node.writeTops]
  cases n.writeTop <;> rfl

theorem Node.writeAll_eq_judge {ns : List Node}
    (each : ∀ n ∈ ns, n.write = judge (n.visits .deeper) n.text) :
    Node.writeAll ns = judge (Node.visitsAll ns) (Node.texts ns) := by
  induction ns with
  | nil => rfl
  | cons n ns ih =>
    obtain ⟨first, others⟩ := List.forall_mem_cons.mp each
    rw [Node.writeAll_cons, first, ih others, judge_append, Node.visitsAll, Node.texts]

theorem Node.write_eq_judge (n : Node) : n.write = judge (n.visits .deeper) n.text := by
  induction n using Node.induction_parts with
  | statement n ih => rfl
  | call callee ns ih =>
    have inner := map_judge (Node.visitsAll ns) (Node.texts ns)
      fun texts => callee ++ "(" ++ ", ".intercalate texts ++ ")"
    rw [Node.write, Node.writeAll_eq_judge ih, Node.visits, judge_placed _ _ rfl, Node.text, ← inner]
    cases judge (Node.visitsAll ns) (Node.texts ns) <;> rfl
  | identifier name => rfl
  | number text => rfl

theorem Node.writeTop_eq_judge (n : Node) : n.writeTop = judge (n.visits .body) n.text := by
  by_cases top : n.isStatement
  · cases n with
    | statement n =>
      rw [Node.visits, judge_placed _ _ rfl, Node.text]
      -- A statement in a statement of the body is refused here already, in words of its own.
      by_cases nested : n.isStatement
      · cases n with
        | statement n => rfl
        | _ => cases nested
      · have written : Node.writeTop (.statement n) = n.write.map (· ++ ";") := by
          cases n with
          | statement n => exact absurd rfl nested
          | _ => rfl
        rw [written, n.write_eq_judge, map_judge]
        exact Node.judge_visits (by simpa using nested) _ _ _
    | _ => cases top
  · have written : n.writeTop = n.write := by
      cases n with
      | statement n => exact absurd rfl top
      | _ => rfl
    rw [written, n.write_eq_judge]
    exact Node.judge_visits (by simpa using top) _ _ _

theorem Node.writeTops_eq_judge (ns : List Node) :
    Node.writeTops ns = judge (ns.flatMap (Node.visits .body)) (ns.map Node.text) := by
  induction ns with
  | nil => rfl
  | cons n ns ih =>
    rw [Node.writeTops_cons, n.writeTop_eq_judge, ih, judge_append, List.flatMap_cons, List.map_cons]

theorem Program.write_eq_judge (p : Program) : p.write = judge p.visits p.text := by
  rw [Program.write, Node.writeTops_eq_judge, map_judge]
  rfl

/-- A program is written exactly when every statement in it stands directly in the body, and it is
    written as its text. Any other program is refused for the first statement, from left to right
    and each node before its parts, that stands elsewhere. -/
theorem written_iff_none_misplaced (p : Program) :
    (∀ text, p.write = .ok text ↔
      (∀ v ∈ p.visits, v.node.isStatement → v.holder = .body) ∧ text = p.text) ∧
    ∀ d, p.write = .error d ↔ ∃ before v after, p.visits = before ++ v :: after ∧
      (v.node.isStatement ∧ v.holder ≠ .body) ∧
      (∀ u ∈ before, u.node.isStatement → u.holder = .body) ∧
      d = .nestedStatement (if v.holder = .statement then "another expression statement"
        else "a call argument") := by
  have placed : ∀ v : Visit, v.misplaced = false ↔ (v.node.isStatement → v.holder = .body) := by
    intro v
    simp [Visit.misplaced]
  have misplaced : ∀ v : Visit, v.misplaced = true ↔ v.node.isStatement ∧ v.holder ≠ .body := by
    intro v
    simp [Visit.misplaced]
  constructor
  · intro text
    rw [p.write_eq_judge, judge_eq_ok_iff]
    simp only [placed]
  · intro d
    rw [p.write_eq_judge, judge_eq_error_iff]
    simp only [placed, misplaced, Holder.words]

example : Program.write ⟨[.statement (.call "f" [.call "g" [.statement (.number "1")]]),
    .statement (.statement (.number "2"))]⟩ = .error (.nestedStatement "a call argument") := rfl

end PrefixCalls.Target
