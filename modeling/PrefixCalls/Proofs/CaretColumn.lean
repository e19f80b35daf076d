import PrefixCalls.Diagnostic

/-!
Carets for any offset. The offset of a diagnostic may have come from another text: it may lie beyond
the source or inside one of its characters. The caret never stands beyond the closing quote, and of
two offsets between characters the later one has its caret further to the right.
-/
namespace PrefixCalls

namespace Text

theorem column?_eq_some_iff {n k : Nat} {cs : List Char} :
    column? n cs = some k ↔
      ∃ before after, cs = before ++ after ∧ byteSize before = n ∧ before.length = k := by
  constructor
  · intro found
    -- The recursion takes the first character off the text and its bytes off the offset.
    induction n, cs using column?.induct generalizing k with
    | case1 cs =>
      rw [column?, Option.some.injEq] at found
      exact ⟨[], cs, rfl, rfl, found⟩
    | case2 n => simp [column?] at found
    | case3 n c cs fits ih =>
      rw [column?, if_pos fits] at found
      obtain ⟨j, rest, rfl⟩ := Option.map_eq_some_iff.mp found
      obtain ⟨before, after, rfl, size, rfl⟩ := ih rest
      refine ⟨c :: before, after, rfl, ?_, rfl⟩
      rw [byteSize_cons, size]
      omega
    | case4 n c cs beyond => simp [column?, beyond] at found
  · rintro ⟨before, after, rfl, rfl, rfl⟩
    exact column?_append before after

theorem isValid_iff_column? {s : String} {n : Nat} :
    String.Pos.Raw.IsValid s ⟨n⟩ ↔ ∃ k, column? n s.toList = some k := by
  simp only [column?_eq_some_iff, String.Pos.Raw.isValid_iff_exists_append]
  constructor
  · rintro ⟨before, after, rfl, place⟩
    refine ⟨before.length, before.toList, after.toList, String.toList_append, ?_,
      String.length_toList⟩
    rw [byteSize_toList]
    exact (congrArg String.Pos.Raw.byteIdx place).symm
  · rintro ⟨_, before, after, split, rfl, _⟩
    refine ⟨String.ofList before, String.ofList after, ?_, ?_⟩
    · rw [← String.ofList_append, ← split, String.ofList_toList]
    · rw [byteSize_eq_utf8ByteSize]
      rfl

theorem length_lt_of_byteSize_lt {before after left right : List Char}
    (same : before ++ after = left ++ right) (smaller : byteSize before < byteSize left) :
    before.length < left.length := by
  rcases List.append_eq_append_iff.mp same with ⟨more, longer, _⟩ | ⟨more, longer, _⟩
  · cases more with
    | nil =>
      rw [longer, List.append_nil] at smaller
      omega
    | cons c more =>
      rw [longer, List.length_append, List.length_cons]
      omega
  · rw [longer, byteSize_append] at smaller
    omega

theorem column_of_column? {n k : Nat} {cs : List Char} (found : column? n cs = some k) :
    column n cs = k := by
  obtain ⟨before, after, rfl, rfl, rfl⟩ := column?_eq_some_iff.mp found
  exact column_append before after

theorem column_lt {p q j k : Nat} {cs : List Char} (first : column? p cs = some j)
    (second : column? q cs = some k) (smaller : p < q) : column p cs < column q cs := by
  rw [column_of_column? first, column_of_column? second]
  obtain ⟨before, after, split, rfl, rfl⟩ := column?_eq_some_iff.mp first
  obtain ⟨left, right, same, rfl, rfl⟩ := column?_eq_some_iff.mp second
  exact length_lt_of_byteSize_lt (split.symm.trans same) smaller

theorem column_beyond {n : Nat} {cs : List Char} (beyond : byteSize cs ≤ n) :
    column n cs = cs.length := by
  have whole := column?_append cs []
  rw [List.append_nil] at whole
  rw [column, Nat.min_eq_right beyond, whole]
  rfl

theorem column_inside {n : Nat} {cs : List Char} (within : n ≤ byteSize cs)
    (inside : column? n cs = none) : column n cs = 0 := by
  rw [column, Nat.min_eq_left within, inside]
  rfl

theorem column_le_length (n : Nat) (cs : List Char) : column n cs ≤ cs.length := by
  unfold column
  cases found : column? (min n (byteSize cs)) cs with
  | none => exact Nat.zero_le _
  | some k =>
    obtain ⟨before, after, rfl, _, rfl⟩ := column?_eq_some_iff.mp found
    rw [Option.getD_some, List.length_append]
    omega

end Text

namespace Diagnostic

/-- The diagnostic has the offset, and its display has `k` characters between the column of the
    opening quote and the caret. -/
structure PointsAt (source : String) (d : Diagnostic) (offset k : Nat) : Prop where
  place : d.position? = some offset
  display : d.render source = "'" ++ source ++ "'\n" ++
    String.ofList (List.replicate (k + 1) ' ') ++ "^ " ++ d.message

theorem pointsAt_column {source : String} {d : Diagnostic} {offset : Nat}
    (place : d.position? = some offset) :
    d.PointsAt source offset (Text.column offset source.toList) := by
  refine ⟨place, ?_⟩
  rw [render, place]

theorem PointsAt.eq_column {source : String} {d : Diagnostic} {offset k : Nat}
    (points : d.PointsAt source offset k) : k = Text.column offset source.toList := by
  have displays := points.display.symm.trans (pointsAt_column points.place).display
  have lengths := congrArg String.length displays
  simp only [String.length_append, String.length_ofList, List.length_replicate] at lengths
  omega

end Diagnostic

/-- A diagnostic with an offset, whatever text it came from, is displayed with the caret at one of
    the characters of the source or at the closing quote. Offsets between characters keep their
    order; offsets at the end and beyond have the caret at the closing quote; and offsets inside a
    character have it at the first character. -/
theorem caret_columns_ordered (source : String) :
    (∀ (d : Diagnostic) offset, d.position? = some offset →
      ∃ k ≤ source.length, d.PointsAt source offset k) ∧
    (∀ (d e : Diagnostic) p q j k, d.PointsAt source p j → e.PointsAt source q k →
      String.Pos.Raw.IsValid source ⟨p⟩ → String.Pos.Raw.IsValid source ⟨q⟩ → p < q → j < k) ∧
    ∀ (d : Diagnostic) offset k, d.PointsAt source offset k → k ≤ source.length ∧
      (source.utf8ByteSize ≤ offset → k = source.length) ∧
      (offset < source.utf8ByteSize → ¬ String.Pos.Raw.IsValid source ⟨offset⟩ → k = 0) := by
  have bounded : ∀ offset, Text.column offset source.toList ≤ source.length := by
    intro offset
    rw [← String.length_toList]
    exact Text.column_le_length offset source.toList
  refine ⟨?_, ?_, ?_⟩
  · intro d offset place
    exact ⟨_, bounded offset, Diagnostic.pointsAt_column place⟩
  · intro d e p q j k first second validFirst validSecond smaller
    obtain ⟨_, left⟩ := Text.isValid_iff_column?.mp validFirst
    obtain ⟨_, right⟩ := Text.isValid_iff_column?.mp validSecond
    rw [first.eq_column, second.eq_column]
    exact Text.column_lt left right smaller
  · intro d offset k points
    rw [points.eq_column]
    refine ⟨bounded offset, ?_, ?_⟩
    · intro beyond
      rw [← Text.byteSize_toList] at beyond
      rw [Text.column_beyond beyond, String.length_toList]
    · intro within inside
      rw [← Text.byteSize_toList] at within
      apply Text.column_inside (Nat.le_of_lt within)
      cases found : Text.column? offset source.toList with
      | none => rfl
      | some k => exact absurd (Text.isValid_iff_column?.mpr ⟨k, found⟩) inside

theorem caret_columns_around_long_character :
    (∃ j k, (Diagnostic.invalidCharacter '@' 1).PointsAt "aλb" 1 j ∧
      (Diagnostic.unexpectedEnd .closingParen 3).PointsAt "aλb" 3 k ∧ j < k) ∧
    (Diagnostic.unexpectedEnd .name 2).PointsAt "aλb" 2 0 ∧
    (Diagnostic.unexpectedEnd .name 0xffffffffffffffff).PointsAt "aλb" 0xffffffffffffffff 3 := by
  have first : String.Pos.Raw.IsValid "aλb" ⟨1⟩ := Text.isValid_iff_column?.mpr ⟨1, rfl⟩
  have second : String.Pos.Raw.IsValid "aλb" ⟨3⟩ := Text.isValid_iff_column?.mpr ⟨2, rfl⟩
  have inside : ¬ String.Pos.Raw.IsValid "aλb" ⟨2⟩ := by
    rw [Text.isValid_iff_column?]
    rintro ⟨k, found⟩
    cases found
  obtain ⟨shown, ordered, bounds⟩ := caret_columns_ordered "aλb"
  refine ⟨?_, ?_, ?_⟩
  · obtain ⟨j, _, left⟩ := shown (.invalidCharacter '@' 1) 1 rfl
    obtain ⟨k, _, right⟩ := shown (.unexpectedEnd .closingParen 3) 3 rfl
    exact ⟨j, k, left, right, ordered _ _ _ _ _ _ left right first second (by decide)⟩
  · obtain ⟨k, _, points⟩ := shown (.unexpectedEnd .name 2) 2 rfl
    obtain ⟨_, _, front⟩ := bounds _ _ _ points
    rwa [front (by decide) inside] at points
  · obtain ⟨k, _, points⟩ := shown (.unexpectedEnd .name 0xffffffffffffffff) 0xffffffffffffffff rfl
    obtain ⟨_, last, _⟩ := bounds _ _ _ points
    rwa [last (by decide)] at points

end PrefixCalls
