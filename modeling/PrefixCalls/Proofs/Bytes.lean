import PrefixCalls.Text

/-!
Texts as UTF-8 bytes. A text that starts with the bytes of another starts with that other, and
blank bytes are blanks: no longer character begins with one.
-/
namespace PrefixCalls.Text

def bytes (cs : List Char) : List UInt8 := cs.flatMap String.utf8EncodeChar

theorem bytes_toList (s : String) : (bytes s.toList).toByteArray = s.toByteArray :=
  String.utf8Encode_toList

@[simp] theorem bytes_nil : bytes [] = [] := rfl

@[simp] theorem bytes_cons (c : Char) (cs : List Char) :
    bytes (c :: cs) = String.utf8EncodeChar c ++ bytes cs := rfl

@[simp] theorem bytes_append (cs ds : List Char) : bytes (cs ++ ds) = bytes cs ++ bytes ds :=
  List.flatMap_append

@[simp] theorem length_bytes (cs : List Char) : (bytes cs).length = byteSize cs := by
  induction cs with
  | nil => rfl
  | cons c cs ih => simp [ih, String.length_utf8EncodeChar]

theorem byteSize_pos (c : Char) (cs : List Char) : 0 < byteSize (c :: cs) := by
  have := c.utf8Size_pos
  rw [byteSize_cons]
  omega

theorem append_of_bytes {cs ds : List Char} {more : List UInt8}
    (same : bytes cs ++ more = bytes ds) : ∃ rest, ds = cs ++ rest := by
  have encoded : cs.utf8Encode ++ more.toByteArray = ds.utf8Encode := by
    rw [List.utf8Encode, List.utf8Encode, ← List.toByteArray_append]
    exact congrArg List.toByteArray same
  obtain ⟨rest, whole⟩ := List.isPrefix_of_utf8Encode_append_eq_utf8Encode _ encoded
  exact ⟨rest, whole.symm⟩

def isBlankByte (b : UInt8) : Bool :=
  b == 0x20 || b == 0x09 || b == 0x0a || b == 0x0c || b == 0x0d

theorem encode_blank {c : Char} (blank : isBlank c) :
    ∃ b, String.utf8EncodeChar c = [b] ∧ isBlankByte b := by
  simp only [isBlank, Bool.or_eq_true, beq_iff_eq] at blank
  rcases blank with (((rfl | rfl) | rfl) | rfl) | rfl <;> exact ⟨_, rfl, by decide⟩

/-- A first byte below 128 is the whole character: longer characters start higher. -/
theorem toNat_of_byte {c : Char} {b : UInt8} {bs : List UInt8}
    (code : String.utf8EncodeChar c = b :: bs) (low : b.toNat < 128) : c.toNat = b.toNat := by
  unfold String.utf8EncodeChar at code
  simp only at code
  have number : c.toNat = c.val.toNat := rfl
  repeat' split at code
  all_goals
    obtain ⟨rfl, -⟩ := List.cons.inj code
    rw [UInt8.toNat_ofNat'] at low ⊢
    omega

theorem isBlank_of_byte {c : Char} {b : UInt8} {bs : List UInt8}
    (code : String.utf8EncodeChar c = b :: bs) (blank : isBlankByte b) : isBlank c := by
  have whole : b.toNat < 128 → c.toNat = b.toNat := toNat_of_byte code
  have named : ∀ d : Char, c.toNat = d.toNat → c = d := fun d same => Char.toNat_inj.mp same
  simp only [isBlankByte, Bool.or_eq_true, beq_iff_eq] at blank
  rcases blank with (((rfl | rfl) | rfl) | rfl) | rfl
  · rw [named ' ' (whole (by decide))]; decide
  · rw [named '\t' (whole (by decide))]; decide
  · rw [named '\n' (whole (by decide))]; decide
  · rw [named '\x0c' (whole (by decide))]; decide
  · rw [named '\r' (whole (by decide))]; decide

theorem bytes_blank {gap : List Char} (blank : ∀ c ∈ gap, isBlank c) :
    ∀ b ∈ bytes gap, isBlankByte b := by
  intro b member
  obtain ⟨c, inside, code⟩ := List.mem_flatMap.mp member
  obtain ⟨d, single, blankByte⟩ := encode_blank (blank c inside)
  rw [single, List.mem_singleton] at code
  rw [code]
  exact blankByte

theorem blanks_of_bytes {cs : List Char} {n : Nat} (enough : n ≤ byteSize cs)
    (blank : ∀ b ∈ (bytes cs).take n, isBlankByte b) :
    ∃ gap rest, cs = gap ++ rest ∧ (∀ c ∈ gap, isBlank c) ∧ byteSize gap = n := by
  induction cs generalizing n with
  | nil => exact ⟨[], [], rfl, by simp, (Nat.le_zero.mp enough).symm⟩
  | cons c cs ih =>
    cases n with
    | zero => exact ⟨[], c :: cs, rfl, by simp, rfl⟩
    | succ n =>
      obtain ⟨b, bs, code⟩ := List.exists_cons_of_ne_nil (String.utf8EncodeChar_ne_nil (c := c))
      have first : isBlank c := isBlank_of_byte code (blank b (by simp [code]))
      obtain ⟨d, single, _⟩ := encode_blank first
      have one : c.utf8Size = 1 := by
        rw [← String.length_utf8EncodeChar, single]
        rfl
      rw [byteSize_cons, one] at enough
      rw [bytes_cons, single] at blank
      have behind : ∀ e ∈ (bytes cs).take n, isBlankByte e :=
        fun e member => blank e (by simp [member])
      obtain ⟨gap, rest, rfl, others, size⟩ := ih (by omega) behind
      refine ⟨c :: gap, rest, rfl, List.forall_mem_cons.mpr ⟨first, others⟩, ?_⟩
      rw [byteSize_cons, one, size, Nat.add_comm]

end PrefixCalls.Text
