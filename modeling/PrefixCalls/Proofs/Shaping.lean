import Mathlib.Data.List.Forall2
import Mathlib.Data.Set.List
import Mathlib.Logic.ExistsUnique
import PrefixCalls.Target.Basic

/-!
Shaping undone. A canonical target program is shaped from one source program and no other, and that
program is read back from it node by node, with the same names and numbers in the same order.
-/
namespace PrefixCalls.Target

open Source (Expr)

theorem mapM_eq_some_iff {α β : Type} {back : α → Option β} {f : β → α} {as : List α}
    (each : ∀ a ∈ as, ∀ b, back a = some b ↔ f b = a) (bs : List β) :
    as.mapM back = some bs ↔ bs.map f = as := by
  induction as generalizing bs with
  | nil => simp [eq_comm]
  | cons a as ih =>
    obtain ⟨first, others⟩ := List.forall_mem_cons.mp each
    cases bs with
    | nil => simp [List.mapM_cons, Option.bind_eq_some_iff]
    | cons b bs => simp [List.mapM_cons, Option.bind_eq_some_iff, first, ih others]

mutual

def Node.toExpr? : Node → Option Expr
  | .number text => some (.number text)
  | .call callee arguments => (Node.toExprs? arguments).map (.call callee)
  | .statement _ => none
  | .identifier _ => none

def Node.toExprs? : List Node → Option (List Expr)
  | [] => some []
  | n :: ns => (Node.toExpr? n).bind fun e => (Node.toExprs? ns).map (e :: ·)

end

theorem Node.toExprs?_eq_mapM (ns : List Node) : Node.toExprs? ns = ns.mapM Node.toExpr? := by
  induction ns with
  | nil => rfl
  | cons n ns ih => simp [Node.toExprs?, ih, List.mapM_cons, Option.map_eq_bind]

def Node.toTop? : Node → Option Expr
  | .number text => some (.number text)
  | .statement (.call callee arguments) => Node.toExpr? (.call callee arguments)
  | _ => none

def Program.toSource? (q : Program) : Option Source.Program :=
  (q.body.mapM Node.toTop?).map Source.Program.mk

theorem Node.toExpr?_eq_some_iff (n : Node) (e : Expr) :
    n.toExpr? = some e ↔ Node.ofExpr e = n := by
  induction n using Node.induction_parts generalizing e with
  | statement n ih => cases e <;> simp [Node.toExpr?, Node.ofExpr]
  | identifier name => cases e <;> simp [Node.toExpr?, Node.ofExpr]
  | number text => cases e <;> simp [Node.toExpr?, Node.ofExpr, eq_comm]
  | call callee ns ih =>
    have inner := mapM_eq_some_iff ih
    cases e with
    | number text => simp [Node.toExpr?, Node.ofExpr]
    | call name args =>
      simp only [Node.toExpr?, Node.ofExpr, Node.toExprs?_eq_mapM, Node.ofExprs_eq_map,
        Option.map_eq_some_iff, inner, Source.Expr.call.injEq, Node.call.injEq]
      constructor
      · rintro ⟨args, shaped, rfl, rfl⟩
        exact ⟨rfl, shaped⟩
      · rintro ⟨rfl, shaped⟩
        exact ⟨args, shaped, rfl, rfl⟩

theorem Node.toTop?_eq_some_iff (n : Node) (e : Expr) :
    n.toTop? = some e ↔ Node.ofTop e = n := by
  unfold Node.toTop?
  split
  · cases e <;> simp [Node.ofTop, eq_comm]
  · rw [Node.toExpr?_eq_some_iff]
    cases e <;> simp [Node.ofTop, Node.ofExpr]
  · -- Neither a number nor a statement of a call, so nothing is shaped into it.
    rename_i other_number other_call
    constructor
    · intro read
      cases read
    · intro shaped
      cases e with
      | number text => exact absurd shaped.symm (other_number text)
      | call name args => exact absurd shaped.symm (other_call name (Node.ofExprs args))

theorem Program.toSource?_eq_some_iff (q : Program) (p : Source.Program) :
    q.toSource? = some p ↔ Program.ofSource p = q := by
  have body : ∀ es, q.body.mapM Node.toTop? = some es ↔ es.map Node.ofTop = q.body :=
    mapM_eq_some_iff fun n _ => n.toTop?_eq_some_iff
  rw [Program.toSource?, Option.map_eq_some_iff]
  constructor
  · rintro ⟨es, read, rfl⟩
    rw [Program.ofSource, (body es).mp read]
  · rintro rfl
    exact ⟨p.body, (body p.body).mpr rfl, rfl⟩

theorem Node.isPlain_ofExpr (e : Expr) : (Node.ofExpr e).IsPlain := by
  induction e using Source.Expr.induction_args with
  | number text => trivial
  | call name args ih => simpa [Node.ofExpr, Node.IsPlain] using ih

theorem Program.canonical_ofSource (p : Source.Program) : (Program.ofSource p).Canonical := by
  intro n member
  obtain ⟨e, _, rfl⟩ := List.mem_map.mp member
  cases e with
  | number text => trivial
  | call name args => exact Node.isPlain_ofExpr (.call name args)

theorem Node.exists_ofExpr (n : Node) (plain : n.IsPlain) : ∃ e, Node.ofExpr e = n := by
  induction n using Node.induction_parts with
  | statement n ih => exact plain.elim
  | identifier name => exact plain.elim
  | number text => exact ⟨.number text, rfl⟩
  | call callee ns ih =>
    rw [Node.IsPlain, Node.allPlain_iff] at plain
    have inside : ns ∈ Set.range (List.map Node.ofExpr) := by
      rw [Set.range_list_map]
      intro n member
      exact ih n member (plain n member)
    obtain ⟨args, rfl⟩ := inside
    exact ⟨.call callee args, by simp [Node.ofExpr]⟩

theorem Node.exists_ofTop (n : Node) (canonical : n.IsCanonicalTop) : ∃ e, Node.ofTop e = n := by
  unfold Node.IsCanonicalTop at canonical
  split at canonical
  · rename_i text
    exact ⟨.number text, rfl⟩
  · rename_i callee ns
    obtain ⟨e, same⟩ := Node.exists_ofExpr (.call callee ns) canonical
    cases e with
    | number text => cases same
    | call name args => exact ⟨.call name args, congrArg Node.statement same⟩
  · exact canonical.elim

theorem Program.exists_ofSource (q : Program) (canonical : q.Canonical) :
    ∃ p, Program.ofSource p = q := by
  have inside : q.body ∈ Set.range (List.map Node.ofTop) := by
    rw [Set.range_list_map]
    intro n member
    exact Node.exists_ofTop n (canonical n member)
  obtain ⟨es, body⟩ := inside
  exact ⟨⟨es⟩, by rw [Program.ofSource, body]⟩

inductive Node.Mirrors : Node → Expr → Prop where
  | number (text : String) : Mirrors (.number text) (.number text)
  | call (name : String) {ns : List Node} {es : List Expr} (arguments : List.Forall₂ Mirrors ns es) :
      Mirrors (.call name ns) (.call name es)

inductive Node.MirrorsTop : Node → Expr → Prop where
  | number (text : String) : MirrorsTop (.number text) (.number text)
  | call (name : String) {ns : List Node} {es : List Expr}
      (arguments : List.Forall₂ Node.Mirrors ns es) :
      MirrorsTop (.statement (.call name ns)) (.call name es)

theorem Node.mirrors_ofExpr (e : Expr) : Node.Mirrors (Node.ofExpr e) e := by
  induction e using Source.Expr.induction_args with
  | number text => exact .number text
  | call name args ih =>
    rw [Node.ofExpr, Node.ofExprs_eq_map]
    exact .call name (List.forall₂_map_left_iff.mpr (List.forall₂_same.mpr ih))

theorem Node.mirrorsTop_ofTop (e : Expr) : Node.MirrorsTop (Node.ofTop e) e := by
  cases e with
  | number text => exact .number text
  | call name args =>
    have inner := Node.mirrors_ofExpr (.call name args)
    rw [Node.ofTop]
    rw [Node.ofExpr] at inner ⊢
    cases inner with
    | call _ arguments => exact .call name arguments

/-- Shaping is a bijection onto the canonical programs. Each of them is read back as the one program
    that it is shaped from, with the same names and numbers, body and arguments in the same order. -/
theorem shaping_onto_canonical :
    (∀ p, (Program.ofSource p).Canonical) ∧
    ∀ q : Program, q.Canonical → (∃! p, Program.ofSource p = q) ∧
      ∃ p, q.toSource? = some p ∧ Program.ofSource p = q ∧
        List.Forall₂ Node.MirrorsTop q.body p.body := by
  refine ⟨Program.canonical_ofSource, ?_⟩
  intro q canonical
  obtain ⟨p, rfl⟩ := Program.exists_ofSource q canonical
  have read := (Program.toSource?_eq_some_iff _ p).mpr rfl
  constructor
  · refine ⟨p, rfl, ?_⟩
    intro other same
    rw [(Program.toSource?_eq_some_iff _ other).mpr same] at read
    exact Option.some.inj read
  · refine ⟨p, read, rfl, ?_⟩
    rw [Program.ofSource]
    exact List.forall₂_map_left_iff.mpr (List.forall₂_same.mpr fun e _ => Node.mirrorsTop_ofTop e)

theorem shaping_onto_nested_calls :
    ∃ q : Program, q.body = [.statement (.call "f" [.number "1", .call "g" []]), .number "2"] ∧
      q.Canonical ∧ (∃! p, Program.ofSource p = q) ∧
      ∃ p, q.toSource? = some p ∧ Program.ofSource p = q ∧
        List.Forall₂ Node.MirrorsTop q.body p.body := by
  have canonical : Program.Canonical
      ⟨[.statement (.call "f" [.number "1", .call "g" []]), .number "2"]⟩ := by
    simp [Program.Canonical, Node.IsCanonicalTop, Node.IsPlain]
  exact ⟨_, rfl, canonical, shaping_onto_canonical.2 _ canonical⟩

end PrefixCalls.Target
