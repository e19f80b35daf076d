import Mathlib.Data.List.Basic
import Mathlib.Data.List.TakeWhile
import PrefixCalls.CommandLine.Outcome

/-!
The order of arguments. An option may be spelled in two ways and stand in front of the expression or
behind it. While arguments are read, the draft holds what the options so far have chosen, so every
arrangement of the same options around the same expression is read as the same request.
-/
namespace PrefixCalls.CommandLine

inductive Item where
  | grammar (g : Grammar)
  | format (f : Format)
  | snapshot (s : Snapshot)
  deriving DecidableEq, Repr

namespace Item

def option : Item → String
  | grammar _ => "--grammar"
  | format _ => "--format"
  | snapshot _ => "--emit"

def value : Item → String
  | grammar .basic => "basic"
  | grammar .extended => "extended"
  | format .text => "text"
  | format .json => "json"
  | snapshot .tokens => "tokens"
  | snapshot .sourceTree => "source-ast"
  | snapshot .targetTree => "target-ast"

def setting : Item → Setting
  | grammar _ => .grammar
  | format _ => .format
  | snapshot _ => .snapshot

def grammar? : Item → Option Grammar
  | grammar g => some g
  | _ => none

def format? : Item → Option Format
  | format f => some f
  | _ => none

def snapshot? : Item → Option Snapshot
  | snapshot s => some s
  | _ => none

inductive Spelled (i : Item) : List String → Prop where
  | apart : Spelled i [i.option, i.value]
  | joined : Spelled i [i.option ++ "=" ++ i.value]

inductive SpelledAll : List Item → List String → Prop where
  | nil : SpelledAll [] []
  | cons {i : Item} {items : List Item} {own rest : List String} :
      i.Spelled own → SpelledAll items rest → SpelledAll (i :: items) (own ++ rest)

end Item

/-- An expression that is not taken for an option: it has no dash in front, or is a dash alone. -/
def Undashed (e : String) : Prop := e.toList.head? ≠ some '-' ∨ e = "-"

/-- The arguments have the items in their order, and the expression between two of them or at an end,
    or last behind two dashes. -/
inductive Placed (e : String) : List Item → List String → Prop where
  | between {before after : List Item} {front back : List String} :
      Item.SpelledAll before front → Undashed e → Item.SpelledAll after back →
      Placed e (before ++ after) (front ++ e :: back)
  | last {items : List Item} {front : List String} :
      Item.SpelledAll items front → Placed e items (front ++ ["--", e])

/-- The items of a grammar, a format and snapshots in any order that keeps the order of the
    snapshots. -/
structure Ordered (g : Option Grammar) (f : Option Format) (snapshots : List Snapshot)
    (items : List Item) : Prop where
  same : items.Perm
    (g.toList.map Item.grammar ++ f.toList.map Item.format ++ snapshots.map Item.snapshot)
  kept : items.filterMap Item.snapshot? = snapshots

def Arranged (e : String) (g : Option Grammar) (f : Option Format) (snapshots : List Snapshot)
    (args : List String) : Prop :=
  ∃ items, Ordered g f snapshots items ∧ Placed e items args

/-! ### The forms of arguments -/

namespace Argument

theorem ofString_undashed {e : String} (undashed : Undashed e) : ofString e = .positional e := by
  rcases undashed with other | rfl
  · unfold ofString
    cases chars : e.toList with
    | nil => rfl
    | cons c cs =>
      have solid : c ≠ '-' := by simpa [chars] using other
      simp [solid]
  · rfl

theorem unequal {name : List Char} (plain : '=' ∉ name) : ∀ c ∈ name, (c != '=') = true := by
  intro c member
  simp only [bne_iff_ne]
  rintro rfl
  exact plain member

theorem ofString_long {name : String} (named : name ≠ "") (plain : '=' ∉ name.toList) :
    ofString ("--" ++ name) = .long name none := by
  have dashed : ("--" ++ name).toList = '-' :: '-' :: name.toList := by simp
  have whole : name.toList.dropWhile (· != '=') = [] :=
    List.dropWhile_eq_nil_iff.mpr (unequal plain)
  obtain ⟨c, cs, chars⟩ := List.exists_cons_of_ne_nil (String.toList_eq_nil_iff.not.mpr named)
  rw [chars] at dashed whole
  unfold ofString
  rw [dashed]
  simp only [whole]
  rw [← chars, String.ofList_toList]

theorem ofString_joined {name : String} (plain : '=' ∉ name.toList) (value : String) :
    ofString ("--" ++ name ++ "=" ++ value) = .long name (some value) := by
  have dashed : ("--" ++ name ++ "=" ++ value).toList =
      '-' :: '-' :: (name.toList ++ '=' :: value.toList) := by simp
  have front : (name.toList ++ '=' :: value.toList).takeWhile (· != '=') = name.toList := by
    rw [List.takeWhile_append_of_pos (unequal plain)]
    simp
  have back : (name.toList ++ '=' :: value.toList).dropWhile (· != '=') = '=' :: value.toList := by
    rw [List.dropWhile_append_of_pos (unequal plain)]
    simp
  obtain ⟨c, cs, chars⟩ := List.exists_cons_of_ne_nil
    (List.append_ne_nil_of_right_ne_nil name.toList (List.cons_ne_nil '=' value.toList))
  rw [chars] at dashed front back
  unfold ofString
  rw [dashed]
  simp only [front, back, String.ofList_toList]

end Argument

/-! ### What the draft holds -/

namespace Setting

theorem ofName?_name (o : Setting) : ofName? o.name = some o := by
  cases o <;> rfl

theorem name_ne_empty (o : Setting) : o.name ≠ "" := by
  cases o <;> decide

theorem name_plain (o : Setting) : '=' ∉ o.name.toList := by
  cases o <;> decide

end Setting

namespace Item

theorem option_eq (i : Item) : i.option = "--" ++ i.setting.name := by
  cases i <;> rfl

theorem value_undashed (i : Item) : Undashed i.value := by
  left
  rcases i with (g | f | s)
  · cases g <;> decide
  · cases f <;> decide
  · cases s <;> decide

end Item

namespace Command

theorem readFrom_spelled {i : Item} {own : List String} (spelled : i.Spelled own) {d next : Draft}
    (taken : d.set i.setting i.value = .ok next) (rest : List String) :
    readFrom d (own ++ rest) = readFrom next rest := by
  have known := i.setting.ofName?_name
  -- An argument behind an option is its value only if it has no dash, as all these values have none.
  cases spelled with
  | apart =>
    have option := Argument.ofString_long i.setting.name_ne_empty i.setting.name_plain
    have value := Argument.ofString_undashed i.value_undashed
    rw [← i.option_eq] at option
    simp only [List.cons_append, List.nil_append, readFrom, option, known, value, taken]
  | joined =>
    have option := Argument.ofString_joined i.setting.name_plain i.value
    rw [← i.option_eq] at option
    simp only [List.cons_append, List.nil_append, readFrom, option, known, taken]

end Command

structure Item.Once (items : List Item) : Prop where
  grammar : (items.filterMap Item.grammar?).length ≤ 1
  format : (items.filterMap Item.format?).length ≤ 1

structure Draft.Holds (d : Draft) (items : List Item) : Prop where
  grammar : items.filterMap Item.grammar? = d.grammar.toList
  format : items.filterMap Item.format? = d.format.toList
  snapshots : items.filterMap Item.snapshot? = d.snapshots

theorem Draft.set_holds {d : Draft} {before after : List Item} {i : Item} (holds : d.Holds before)
    (once : Item.Once (before ++ i :: after)) :
    ∃ next, d.set i.setting i.value = .ok next ∧ next.Holds (before ++ [i]) ∧
      next.expression = d.expression := by
  obtain ⟨grammars, formats, snapshots⟩ := holds
  obtain ⟨oneGrammar, oneFormat⟩ := once
  cases i with
  | grammar g =>
    have unset : d.grammar = none := by
      cases chosen : d.grammar with
      | none => rfl
      | some other => simp [grammars, chosen, Item.grammar?] at oneGrammar
    have known : Grammar.ofName (Item.grammar g).value = .ok g := by cases g <;> rfl
    refine ⟨{ d with grammar := some g }, ?_, ⟨?_, ?_, ?_⟩, rfl⟩
    · simp only [Draft.set, Item.setting, known, unset]
    · simp [grammars, unset, Item.grammar?]
    · simp [formats, Item.format?]
    · simp [snapshots, Item.snapshot?]
  | format f =>
    have unset : d.format = none := by
      cases chosen : d.format with
      | none => rfl
      | some other => simp [formats, chosen, Item.format?] at oneFormat
    have known : Format.ofName? (Item.format f).value = some f := by cases f <;> rfl
    refine ⟨{ d with format := some f }, ?_, ⟨?_, ?_, ?_⟩, rfl⟩
    · simp only [Draft.set, Item.setting, known, unset]
    · simp [grammars, Item.grammar?]
    · simp [formats, unset, Item.format?]
    · simp [snapshots, Item.snapshot?]
  | snapshot s =>
    have known : Snapshot.ofName? (Item.snapshot s).value = some s := by cases s <;> rfl
    refine ⟨{ d with snapshots := d.snapshots ++ [s] }, ?_, ⟨?_, ?_, ?_⟩, rfl⟩
    · simp only [Draft.set, Item.setting, known]
    · simp [grammars, Item.grammar?]
    · simp [formats, Item.format?]
    · simp [snapshots, Item.snapshot?]

theorem Command.readFrom_items {items : List Item} {args : List String}
    (spelled : Item.SpelledAll items args) {before after : List Item} {d : Draft}
    (holds : d.Holds before) (once : Item.Once (before ++ items ++ after)) (rest : List String) :
    ∃ next, readFrom d (args ++ rest) = readFrom next rest ∧ next.Holds (before ++ items) ∧
      next.expression = d.expression := by
  induction spelled generalizing before d with
  | nil => exact ⟨d, rfl, by simpa using holds, rfl⟩
  | @cons i items own more first others ih =>
    have room : Item.Once (before ++ i :: (items ++ after)) := by simpa using once
    obtain ⟨middle, taken, held, same⟩ := Draft.set_holds holds room
    obtain ⟨next, read, final, kept⟩ := ih held (by simpa using once)
    refine ⟨next, ?_, by simpa using final, kept.trans same⟩
    rw [List.append_assoc, readFrom_spelled first taken, read]

theorem eq_toList_of_perm {α : Type} {x : Option α} {xs : List α} (same : xs.Perm x.toList) :
    xs = x.toList := by
  cases x with
  | none => exact List.perm_nil.mp same
  | some a => exact List.perm_singleton.mp same

namespace Ordered

variable {g : Option Grammar} {f : Option Format} {snapshots : List Snapshot} {items : List Item}

theorem grammars (ordered : Ordered g f snapshots items) :
    items.filterMap Item.grammar? = g.toList := by
  apply eq_toList_of_perm
  have chosen := ordered.same.filterMap Item.grammar?
  simpa [Item.grammar?, Function.comp_def] using chosen

theorem formats (ordered : Ordered g f snapshots items) :
    items.filterMap Item.format? = f.toList := by
  apply eq_toList_of_perm
  have chosen := ordered.same.filterMap Item.format?
  simpa [Item.format?, Function.comp_def] using chosen

theorem once (ordered : Ordered g f snapshots items) : Item.Once items := by
  constructor
  · rw [ordered.grammars]
    cases g <;> simp
  · rw [ordered.formats]
    cases f <;> simp

theorem finish (ordered : Ordered g f snapshots items) {d : Draft} {e : String}
    (holds : d.Holds items) (given : d.expression = some e) :
    d.finish = .ok (.compile ⟨e, g.getD .extended, f.getD .text, snapshots⟩) := by
  have grammar : d.grammar = g := by
    have same := congrArg List.head? (holds.grammar.symm.trans ordered.grammars)
    simpa using same
  have format : d.format = f := by
    have same := congrArg List.head? (holds.format.symm.trans ordered.formats)
    simpa using same
  have shown : d.snapshots = snapshots := by rw [← holds.snapshots, ordered.kept]
  simp only [Draft.finish, given, grammar, format, shown]

end Ordered

theorem Draft.setExpression_holds {d : Draft} {items : List Item} (holds : d.Holds items)
    (missing : d.expression = none) (e : String) :
    ∃ next, d.setExpression e = .ok next ∧ next.Holds items ∧ next.expression = some e := by
  refine ⟨{ d with expression := some e }, ?_, ⟨holds.grammar, holds.format, holds.snapshots⟩, rfl⟩
  simp only [setExpression, missing]

theorem Draft.empty_holds : Draft.empty.Holds [] := ⟨rfl, rfl, rfl⟩

theorem Command.read_arranged {e : String} {g : Option Grammar} {f : Option Format}
    {snapshots : List Snapshot} {args : List String} (arranged : Arranged e g f snapshots args) :
    read args = .ok (.compile ⟨e, g.getD .extended, f.getD .text, snapshots⟩) := by
  obtain ⟨items, ordered, placed⟩ := arranged
  have once := ordered.once
  unfold read
  cases placed with
  | @between before after front back spelled undashed others =>
    have onceBehind : Item.Once (before ++ after ++ []) := by simpa using once
    obtain ⟨first, readFront, held, missing⟩ :=
      readFrom_items spelled Draft.empty_holds once (e :: back)
    obtain ⟨second, taken, still, given⟩ := Draft.setExpression_holds held missing e
    obtain ⟨last, readBack, final, same⟩ := readFrom_items others still onceBehind []
    have expression := Argument.ofString_undashed undashed
    rw [List.append_nil] at readBack
    rw [readFront]
    simp only [readFrom, expression, taken, readBack]
    exact ordered.finish final (same.trans given)
  | @last _ front spelled =>
    have onceBehind : Item.Once ([] ++ items ++ []) := by simpa using once
    obtain ⟨first, readFront, held, missing⟩ :=
      readFrom_items spelled Draft.empty_holds onceBehind ["--", e]
    obtain ⟨second, taken, still, given⟩ := Draft.setExpression_holds held missing e
    have terminator : Argument.ofString "--" = .terminator := rfl
    rw [readFront]
    simp only [readFrom, terminator, readPositionals, taken]
    exact ordered.finish still given

theorem Item.exists_spelledAll (items : List Item) : ∃ args, SpelledAll items args := by
  induction items with
  | nil => exact ⟨[], .nil⟩
  | cons i items ih =>
    obtain ⟨args, spelled⟩ := ih
    exact ⟨_, .cons .joined spelled⟩

theorem Command.exists_read (r : Request) : ∃ args, read args = .ok (.compile r) := by
  obtain ⟨e, g, f, snapshots⟩ := r
  obtain ⟨args, spelled⟩ :=
    Item.exists_spelledAll (.grammar g :: .format f :: snapshots.map Item.snapshot)
  have kept : (snapshots.map Item.snapshot).filterMap Item.snapshot? = snapshots := by
    simp [Item.snapshot?, Function.comp_def]
  have ordered : Ordered (some g) (some f) snapshots
      (.grammar g :: .format f :: snapshots.map Item.snapshot) := ⟨.refl _, kept⟩
  exact ⟨_, read_arranged ⟨_, ordered, .last spelled⟩⟩

theorem Wording.answer_of_read (w : Wording) {args : List String} {r : Request}
    (asked : Command.read args = .ok (.compile r)) : w.answer args = r.answer := by
  simp only [answer, asked]

/-- All arrangements of the same options around the same expression have the outcome of one request,
    with the extended grammar and the text format where none is chosen. -/
theorem argument_order_immaterial (w : Wording) (e : String) (g : Option Grammar)
    (f : Option Format) (snapshots : List Snapshot) (args others : List String)
    (first : Arranged e g f snapshots args) (second : Arranged e g f snapshots others) :
    w.answer args = w.answer others ∧
      w.answer args = (Request.mk e (g.getD .extended) (f.getD .text) snapshots).answer := by
  have whole : ∀ args, Arranged e g f snapshots args →
      w.answer args = (Request.mk e (g.getD .extended) (f.getD .text) snapshots).answer := by
    intro args arranged
    exact w.answer_of_read (Command.read_arranged arranged)
  exact ⟨(whole args first).trans (whole others second).symm, whole args first⟩

theorem argument_order_immaterial_around_dash :
    Arranged "-" (some .basic) none [.tokens, .targetTree]
      ["--emit=tokens", "-", "--grammar", "basic", "--emit", "target-ast"] ∧
    Arranged "-" (some .basic) none [.tokens, .targetTree]
      ["--emit", "tokens", "--grammar=basic", "--emit=target-ast", "--", "-"] ∧
    answer ["--emit=tokens", "-", "--grammar", "basic", "--emit", "target-ast"] =
      answer ["--emit", "tokens", "--grammar=basic", "--emit=target-ast", "--", "-"] := by
  have first : Arranged "-" (some .basic) none [.tokens, .targetTree]
      ["--emit=tokens", "-", "--grammar", "basic", "--emit", "target-ast"] := by
    have front : Item.SpelledAll [.snapshot .tokens] ["--emit=tokens"] := .cons .joined .nil
    have back : Item.SpelledAll [.grammar .basic, .snapshot .targetTree]
        ["--grammar", "basic", "--emit", "target-ast"] := .cons .apart (.cons .apart .nil)
    exact ⟨_, ⟨by decide, rfl⟩, .between front (.inr rfl) back⟩
  have second : Arranged "-" (some .basic) none [.tokens, .targetTree]
      ["--emit", "tokens", "--grammar=basic", "--emit=target-ast", "--", "-"] := by
    have front : Item.SpelledAll [.snapshot .tokens, .grammar .basic, .snapshot .targetTree]
        ["--emit", "tokens", "--grammar=basic", "--emit=target-ast"] :=
      .cons .apart (.cons .joined (.cons .joined .nil))
    exact ⟨_, ⟨by decide, rfl⟩, .last front⟩
  exact ⟨first, second, (argument_order_immaterial _ _ _ _ _ _ _ first second).1⟩

end PrefixCalls.CommandLine
