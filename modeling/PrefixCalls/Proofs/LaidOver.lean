import Mathlib.Data.List.Chain
import PrefixCalls.Proofs.Bytes
import PrefixCalls.Proofs.Tiling

/-!
Tokens laid over the bytes of a text. What a scan returns is said here by places and texts alone:
where each token lies, that it has the bytes found there, that the bytes between are blank, and
which tokens may not touch. Nothing refers to an order of scanning or to a longest match.
-/
namespace PrefixCalls.Token

open Text

def lexeme (t : Token) : Lexeme := ⟨t.kind, t.text.toList⟩

@[simp] theorem lexeme_token (x : Lexeme) (offset : Nat) : (x.token offset).lexeme = x := by
  simp [lexeme, Lexeme.token]

@[simp] theorem token_lexeme (t : Token) : t.lexeme.token t.loc = t := by
  simp [lexeme, Lexeme.token]

@[simp] theorem loc_token (x : Lexeme) (offset : Nat) : (x.token offset).loc = offset := rfl

theorem stop_eq (t : Token) : t.stop = t.loc + byteSize t.lexeme.chars := by
  simp [stop, lexeme]

theorem loc_le_stop (t : Token) : t.loc ≤ t.stop := Nat.le_add_right _ _

/-- The tokens lie over the bytes from `start` on: in order and without overlap, each with the
    bytes of its text and a text that fits, blanks wherever no token lies, and no two that would
    join touch. -/
structure LaidOver (g : Grammar) (input : List UInt8) (start : Nat) (ts : List Token) : Prop where
  starts : ∀ t ∈ ts.head?, start ≤ t.loc
  ordered : ts.IsChain (fun t u => t.stop ≤ u.loc)
  inside : ∀ t ∈ ts.getLast?, t.stop ≤ input.length
  cut : ∀ t ∈ ts, input.extract t.loc t.stop = bytes t.text.toList
  blank : ∀ i b, start ≤ i → input[i]? = some b → (∀ t ∈ ts, i < t.loc ∨ t.stop ≤ i) →
    isBlankByte b
  fits : ∀ t ∈ ts, t.lexeme.Fits g
  apart : ts.IsChain (fun t u => t.stop = u.loc → ¬ Lexeme.Joins t.lexeme u.lexeme)

namespace LaidOver

variable {g : Grammar} {input : List UInt8} {start : Nat} {t : Token} {ts : List Token}

theorem beyond (laid : LaidOver g input start ts) : ∀ u ∈ ts, start ≤ u.loc := by
  have starts := laid.starts
  have ordered := laid.ordered
  clear laid
  induction ts generalizing start with
  | nil => simp
  | cons t ts ih =>
    obtain ⟨next, chain⟩ := List.isChain_cons.mp ordered
    have first : start ≤ t.loc := starts t rfl
    have later : ∀ u ∈ ts, t.stop ≤ u.loc := ih next chain
    refine List.forall_mem_cons.mpr ⟨first, fun u member => ?_⟩
    have := later u member
    have := t.loc_le_stop
    omega

theorem tail (laid : LaidOver g input start (t :: ts)) : LaidOver g input t.stop ts where
  starts := (List.isChain_cons.mp laid.ordered).1
  ordered := (List.isChain_cons.mp laid.ordered).2
  inside := by
    intro u last
    apply laid.inside
    rw [Option.mem_def] at last
    simp [List.getLast?_cons, last]
  cut := fun u member => laid.cut u (by simp [member])
  blank := by
    intro i b low found outside
    have first : start ≤ t.loc := laid.starts t rfl
    have := t.loc_le_stop
    exact laid.blank i b (by omega) found (List.forall_mem_cons.mpr ⟨.inr low, outside⟩)
  fits := fun u member => laid.fits u (by simp [member])
  apart := (List.isChain_cons.mp laid.apart).2

theorem gap (laid : LaidOver g input start (t :: ts)) :
    ∀ i b, start ≤ i → i < t.loc → input[i]? = some b → isBlankByte b := by
  intro i b low high found
  apply laid.blank i b low found
  refine List.forall_mem_cons.mpr ⟨.inl high, fun u member => .inl ?_⟩
  have := laid.tail.beyond u member
  have := t.loc_le_stop
  omega

theorem cons (first : start ≤ t.loc) (inside : t.stop ≤ input.length)
    (cut : input.extract t.loc t.stop = bytes t.text.toList)
    (gap : ∀ i b, start ≤ i → i < t.loc → input[i]? = some b → isBlankByte b)
    (fits : t.lexeme.Fits g)
    (apart : ∀ u ∈ ts.head?, t.stop = u.loc → ¬ Lexeme.Joins t.lexeme u.lexeme)
    (others : LaidOver g input t.stop ts) : LaidOver g input start (t :: ts) where
  starts := by simpa using first
  ordered := List.isChain_cons.mpr ⟨others.starts, others.ordered⟩
  inside := by
    intro u last
    rw [List.getLast?_cons, Option.mem_some] at last
    cases final : ts.getLast? with
    | none =>
      rw [final] at last
      exact last ▸ inside
    | some v =>
      rw [final] at last
      exact last ▸ others.inside v final
  cut := List.forall_mem_cons.mpr ⟨cut, others.cut⟩
  blank := by
    intro i b low found outside
    obtain ⟨here, later⟩ := List.forall_mem_cons.mp outside
    rcases here with before | behind
    · exact gap i b low before found
    · exact others.blank i b behind found later
  fits := List.forall_mem_cons.mpr ⟨fits, others.fits⟩
  apart := List.isChain_cons.mpr ⟨apart, others.apart⟩

end LaidOver

theorem ends_iff_apart {g : Grammar} {offset : Nat} {ts : List Token} {cs : List Char} (x : Lexeme)
    (tiling : Tiling g offset ts cs []) :
    x.Ends g cs ↔ ∀ u ∈ ts.head?, offset = u.loc → ¬ Lexeme.Joins x u.lexeme := by
  cases tiling with
  | nil blank =>
    refine ⟨fun _ => by simp, fun _ => ?_⟩
    cases cs with
    | nil => exact Lexeme.ends_nil g x
    | cons c cs => exact Lexeme.ends_blank g x cs (blank c (by simp))
  | @cons _ y ts gap ds _ blank fits ends others =>
    cases gap with
    | cons c gap =>
      refine ⟨fun _ => ?_, fun _ => Lexeme.ends_blank g x _ (blank c (by simp))⟩
      intro u first next
      cases first
      have away := byteSize_pos c gap
      rw [loc_token] at next
      omega
    | nil => simpa using Lexeme.ends_iff_not_joins x ds fits

theorem extract_behind (front bs : List UInt8) (n : Nat) :
    (front ++ bs).extract front.length (front.length + n) = bs.take n := by
  simp [List.extract_eq_take_drop]

theorem place_of_mem (front : List UInt8) {bs : List UInt8} {n : Nat} {b : UInt8}
    (member : b ∈ bs.take n) : ∃ i, i < n ∧ (front ++ bs)[front.length + i]? = some b := by
  obtain ⟨i, low, found⟩ := List.mem_take_iff_getElem.mp member
  refine ⟨i, by omega, ?_⟩
  rw [List.getElem?_append_right (by omega), Nat.add_sub_cancel_left]
  exact List.getElem?_eq_some_iff.mpr ⟨by omega, found⟩

theorem blank_at {front more : List UInt8} {gap : List Char} {i : Nat} {b : UInt8}
    (blank : ∀ c ∈ gap, isBlank c) (low : front.length ≤ i) (high : i < front.length + byteSize gap)
    (found : (front ++ (bytes gap ++ more))[i]? = some b) : isBlankByte b := by
  have short : i - front.length < (bytes gap).length := by
    rw [length_bytes]
    omega
  rw [List.getElem?_append_right low, List.getElem?_append_left short] at found
  exact bytes_blank blank b (List.mem_of_getElem? found)

theorem LaidOver.front {g : Grammar} {start : Nat} {t : Token} {ts : List Token}
    {past : List UInt8} {cs : List Char} (size : past.length = start)
    (laid : LaidOver g (past ++ bytes cs) start (t :: ts)) :
    ∃ gap rest, cs = gap ++ (t.lexeme.chars ++ rest) ∧ (∀ c ∈ gap, isBlank c) ∧
      start + byteSize gap = t.loc := by
  have first : start ≤ t.loc := laid.starts t rfl
  have cut : (past ++ bytes cs).extract t.loc t.stop = bytes t.lexeme.chars := laid.cut t (by simp)
  have blank : ∀ b ∈ (bytes cs).take (t.loc - start), isBlankByte b := by
    intro b member
    obtain ⟨i, low, found⟩ := place_of_mem past member
    exact laid.gap (past.length + i) b (by omega) (by omega) found
  -- The text of the token is not empty, so its place lies inside the input.
  have enough : t.loc - start ≤ byteSize cs := by
    obtain ⟨c, text, chars, _⟩ := Lexeme.fits_head (laid.fits t (by simp))
    have some_byte := byteSize_pos c text
    have lengths := congrArg List.length cut
    simp only [List.extract_eq_take_drop, List.length_take, List.length_drop, List.length_append,
      length_bytes, chars] at lengths
    omega
  obtain ⟨gap, rest, rfl, others, wide⟩ := blanks_of_bytes enough blank
  have place : start + byteSize gap = t.loc := by omega
  have before : (past ++ bytes gap).length = t.loc := by
    rw [List.length_append, length_bytes, size, place]
  rw [bytes_append, ← List.append_assoc, stop_eq, ← before, extract_behind] at cut
  have text : bytes t.lexeme.chars ++ (bytes rest).drop (byteSize t.lexeme.chars) = bytes rest := by
    rw [← cut, List.take_append_drop]
  obtain ⟨behind, rfl⟩ := append_of_bytes text
  exact ⟨gap, behind, rfl, others, place⟩

theorem tiling_of_laid {g : Grammar} {start : Nat} {ts : List Token} {past : List UInt8}
    {cs : List Char} (size : past.length = start) (laid : LaidOver g (past ++ bytes cs) start ts) :
    Tiling g start ts cs [] := by
  induction ts generalizing start past cs with
  | nil =>
    have blank : ∀ b ∈ (bytes cs).take (byteSize cs), isBlankByte b := by
      intro b member
      obtain ⟨i, _, found⟩ := place_of_mem past member
      exact laid.blank (past.length + i) b (by omega) found (by simp)
    obtain ⟨gap, rest, rfl, others, all⟩ := blanks_of_bytes (Nat.le_refl _) blank
    cases rest with
    | nil =>
      rw [List.append_nil]
      exact .nil others
    | cons c rest =>
      have more := byteSize_pos c rest
      rw [byteSize_append] at all
      omega
  | cons t ts ih =>
    obtain ⟨gap, rest, rfl, blank, place⟩ := laid.front size
    have later : LaidOver g (past ++ bytes gap ++ bytes t.lexeme.chars ++ bytes rest) t.stop ts := by
      simpa only [bytes_append, List.append_assoc] using laid.tail
    have upTo : (past ++ bytes gap ++ bytes t.lexeme.chars).length = t.stop := by
      rw [List.length_append, List.length_append, length_bytes, length_bytes, size, place, stop_eq]
    have tiling := ih upTo later
    have ends := (ends_iff_apart t.lexeme tiling).mpr (List.isChain_cons.mp laid.apart).1
    rw [← List.append_nil rest] at ends
    rw [stop_eq, ← place] at tiling
    have whole := Tiling.cons blank (laid.fits t (by simp)) ends tiling
    rwa [place, token_lexeme] at whole

theorem laid_of_tiling {g : Grammar} {start : Nat} {ts : List Token} {past : List UInt8}
    {cs : List Char} (size : past.length = start) (tiling : Tiling g start ts cs []) :
    LaidOver g (past ++ bytes cs) start ts := by
  generalize finished : [] = after at tiling
  induction tiling generalizing past with
  | @nil start gap _ blank =>
    refine ⟨by simp, by simp, by simp, by simp, ?_, by simp, by simp⟩
    intro i b low found _
    have high := (List.getElem?_eq_some_iff.mp found).1
    rw [List.length_append, length_bytes] at high
    rw [← List.append_nil (bytes gap)] at found
    exact blank_at blank (size ▸ low) high found
  | @cons start x ts gap cs _ blank fits ends others ih =>
    subst finished
    rw [List.append_nil] at ends
    have before : (past ++ bytes gap).length = start + byteSize gap := by
      rw [List.length_append, length_bytes, size]
    have stop : (x.token (start + byteSize gap)).stop = start + byteSize gap + byteSize x.chars := by
      rw [stop_eq, lexeme_token, loc_token]
    have upTo : (past ++ bytes gap ++ bytes x.chars).length =
        (x.token (start + byteSize gap)).stop := by
      rw [List.length_append, length_bytes, before, stop]
    have text : bytes (x.token (start + byteSize gap)).text.toList = bytes x.chars :=
      congrArg bytes String.toList_ofList
    have behind := ih (upTo.trans stop) rfl
    rw [← stop, List.append_assoc _ _ (bytes cs)] at behind
    rw [bytes_append, bytes_append, ← List.append_assoc]
    refine LaidOver.cons ?_ ?_ ?_ ?_ ?_ ?_ behind
    · exact Nat.le_add_right _ _
    · rw [← upTo]
      simp only [List.length_append]
      omega
    · rw [text, stop, loc_token, ← before, extract_behind]
      simp
    · intro i b low high found
      rw [List.append_assoc] at found
      exact blank_at blank (size ▸ low) (size ▸ high) found
    · rwa [lexeme_token]
    · rw [stop, lexeme_token]
      exact (ends_iff_apart x others).mp ends

/-- A text is scanned as these tokens exactly when they lie over its bytes. So there is at most one
    way to lay tokens over a text, and scanning finds it. -/
theorem scan_exactly_laid (g : Grammar) (input : String) (ts : List Token) :
    scan g input = .ok ts ↔ LaidOver g (bytes input.toList) 0 ts := by
  rw [scan_iff_tiling]
  constructor
  · intro tiling
    have laid := laid_of_tiling (List.length_nil (α := UInt8)) tiling
    rwa [List.nil_append] at laid
  · intro laid
    rw [← List.nil_append (bytes input.toList)] at laid
    exact tiling_of_laid List.length_nil laid

end PrefixCalls.Token
