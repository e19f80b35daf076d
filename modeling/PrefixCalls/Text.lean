/-!
Characters and places of a text. The character classes of the call language are all ASCII: letters
and digits are `Char.isAlpha` and `Char.isDigit`, which have no member outside ASCII either. Offsets
into a text count UTF-8 bytes; columns count characters.
-/
namespace PrefixCalls.Text

/-- Space, tab, line feed, form feed and carriage return. The vertical tab is not among them. -/
def isBlank (c : Char) : Bool :=
  c == ' ' || c == '\t' || c == '\n' || c == '\x0c' || c == '\r'

def isOperator (c : Char) : Bool :=
  c == '+' || c == '-' || c == '*' || c == '/' || c == '%'

def byteSize : List Char → Nat
  | [] => 0
  | c :: cs => c.utf8Size + byteSize cs

@[simp] theorem byteSize_nil : byteSize [] = 0 := rfl

@[simp] theorem byteSize_cons (c : Char) (cs : List Char) :
    byteSize (c :: cs) = c.utf8Size + byteSize cs := rfl

@[simp] theorem byteSize_append (cs ds : List Char) :
    byteSize (cs ++ ds) = byteSize cs + byteSize ds := by
  induction cs with
  | nil => simp
  | cons c cs ih => simp [ih, Nat.add_assoc]

theorem byteSize_eq_utf8ByteSize (cs : List Char) :
    byteSize cs = (String.ofList cs).utf8ByteSize := by
  induction cs with
  | nil => simp
  | cons c cs ih =>
    have parted : String.ofList (c :: cs) = String.singleton c ++ String.ofList cs := by
      rw [String.singleton_eq_ofList, ← String.ofList_append]
      rfl
    rw [byteSize_cons, ih, parted, String.utf8ByteSize_append, String.utf8ByteSize_singleton]

@[simp] theorem byteSize_toList (s : String) : byteSize s.toList = s.utf8ByteSize := by
  rw [byteSize_eq_utf8ByteSize, String.ofList_toList]

/-- The number of characters that end at or before the offset, when the offset falls between two
    characters or at either end of the text, and none when it falls inside a character or beyond. -/
def column? : Nat → List Char → Option Nat
  | 0, _ => some 0
  | _ + 1, [] => none
  | n + 1, c :: cs =>
    if c.utf8Size ≤ n + 1 then (column? (n + 1 - c.utf8Size) cs).map (· + 1) else none

theorem column?_append (before after : List Char) :
    column? (byteSize before) (before ++ after) = some before.length := by
  induction before with
  | nil => simp [column?]
  | cons c before ih =>
    have positive := c.utf8Size_pos
    obtain ⟨n, size⟩ : ∃ n, c.utf8Size + byteSize before = n + 1 :=
      Nat.exists_eq_add_one.mpr (by omega)
    have fits : c.utf8Size ≤ n + 1 := by omega
    have rest : n + 1 - c.utf8Size = byteSize before := by omega
    rw [byteSize_cons, size, List.cons_append, column?, if_pos fits, rest, ih]
    rfl

/-- The column of an offset: offsets beyond the text count as its end, and an offset inside a
    character has column zero. -/
def column (offset : Nat) (cs : List Char) : Nat :=
  (column? (min offset (byteSize cs)) cs).getD 0

theorem column_append (before after : List Char) :
    column (byteSize before) (before ++ after) = before.length := by
  have inside : min (byteSize before) (byteSize (before ++ after)) = byteSize before := by
    rw [byteSize_append]
    omega
  rw [column, inside, column?_append]
  rfl

end PrefixCalls.Text
