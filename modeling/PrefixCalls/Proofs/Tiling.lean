import PrefixCalls.Proofs.LongestLexeme
import PrefixCalls.Proofs.Results

/-!
Tokens laid over a text. A stretch of text is tiled by tokens when they stand in it in order, with
blanks around them and each as long as it can be in view of what comes behind, the text after the
stretch included. Scanning finds the tiling, and a tiled stretch can be scanned on its own.
-/
namespace PrefixCalls.Token

open Text

/-- The tokens tile the text that starts at the offset and has the last list behind it. -/
inductive Tiling (g : Grammar) : Nat → List Token → List Char → List Char → Prop where
  | nil {offset : Nat} {gap after : List Char} (blank : ∀ c ∈ gap, isBlank c) :
      Tiling g offset [] gap after
  | cons {offset : Nat} {x : Lexeme} {ts : List Token} {gap cs after : List Char}
      (blank : ∀ c ∈ gap, isBlank c) (fits : x.Fits g) (ends : x.Ends g (cs ++ after))
      (others : Tiling g (offset + byteSize gap + byteSize x.chars) ts cs after) :
      Tiling g offset (x.token (offset + byteSize gap) :: ts) (gap ++ (x.chars ++ cs)) after

theorem scanFrom_gap (g : Grammar) (offset : Nat) (gap cs : List Char)
    (blank : ∀ c ∈ gap, isBlank c) :
    scanFrom g offset (gap ++ cs) = scanFrom g (offset + byteSize gap) cs := by
  induction gap generalizing offset with
  | nil => rfl
  | cons c gap ih =>
    rw [List.cons_append, scanFrom_blank g offset c _ (blank c (by simp))]
    rw [ih _ (fun d member => blank d (by simp [member])), byteSize_cons, Nat.add_assoc]

theorem scanFrom_front (g : Grammar) (offset : Nat) {x : Lexeme} {rest : List Char}
    (fits : x.Fits g) (ends : x.Ends g rest) :
    scanFrom g offset (x.chars ++ rest) =
      (scanFrom g (offset + byteSize x.chars) rest).map (x.token offset :: ·) := by
  have found := Lexeme.split?_eq_some_iff.mpr ⟨fits, ends, rfl⟩
  obtain ⟨c, cs, same, solid, _⟩ := Lexeme.fits_head fits
  rw [same, List.cons_append] at found ⊢
  rw [scanFrom_lexeme g offset c _ _ x solid found, same]

theorem scanFrom_tiling {g : Grammar} {offset : Nat} {ts : List Token} {cs after : List Char}
    (tiling : Tiling g offset ts cs after) :
    scanFrom g offset (cs ++ after) =
      (scanFrom g (offset + byteSize cs) after).map (ts ++ ·) := by
  induction tiling with
  | nil blank =>
    rw [scanFrom_gap g _ _ _ blank]
    cases scanFrom g _ _ <;> rfl
  | cons blank fits ends others ih =>
    rw [List.append_assoc, List.append_assoc, scanFrom_gap g _ _ _ blank]
    rw [scanFrom_front g _ fits ends, ih]
    simp only [byteSize_append, Nat.add_assoc]
    cases scanFrom g _ _ <;> rfl

theorem tiling_blank {g : Grammar} {offset : Nat} {c : Char} {ts : List Token}
    {cs after : List Char} (blank : isBlank c)
    (tiling : Tiling g (offset + c.utf8Size) ts cs after) : Tiling g offset ts (c :: cs) after := by
  cases tiling with
  | nil others => exact .nil (List.forall_mem_cons.mpr ⟨blank, others⟩)
  | cons others fits ends rest =>
    rename_i x ts gap cs
    have wider : ∀ d ∈ c :: gap, isBlank d := List.forall_mem_cons.mpr ⟨blank, others⟩
    have moved : offset + c.utf8Size + byteSize gap = offset + byteSize (c :: gap) := by
      rw [byteSize_cons]; omega
    rw [moved] at rest ⊢
    exact Tiling.cons wider fits ends rest

theorem tiling_lexeme {g : Grammar} {offset : Nat} {x : Lexeme} {ts : List Token}
    {cs after : List Char} (fits : x.Fits g) (ends : x.Ends g (cs ++ after))
    (tiling : Tiling g (offset + byteSize x.chars) ts cs after) :
    Tiling g offset (x.token offset :: ts) (x.chars ++ cs) after := by
  change Tiling g offset (x.token (offset + byteSize []) :: ts) ([] ++ (x.chars ++ cs)) after
  exact .cons (by simp) fits ends tiling

theorem scan_induction {g : Grammar} {P : Nat → List Char → Except Diagnostic (List Token) → Prop}
    (done : ∀ n, P n [] (.ok []))
    (blank : ∀ n c cs, isBlank c → P (n + c.utf8Size) cs (scanFrom g (n + c.utf8Size) cs) →
      P n (c :: cs) (scanFrom g (n + c.utf8Size) cs))
    (lexeme : ∀ n (x : Lexeme) rest, x.Fits g → x.Ends g rest →
      P (n + byteSize x.chars) rest (scanFrom g (n + byteSize x.chars) rest) →
      P n (x.chars ++ rest) ((scanFrom g (n + byteSize x.chars) rest).map (x.token n :: ·)))
    (invalid : ∀ n c cs, isBlank c = false → Lexeme.split? g (c :: cs) = none →
      P n (c :: cs) (.error (.invalidCharacter c n))) :
    ∀ n cs, P n cs (scanFrom g n cs) := by
  intro n cs
  induction size : cs.length using Nat.strongRecOn generalizing n cs with
  | ind k ih =>
    cases cs with
    | nil => rw [scanFrom_nil]; exact done n
    | cons c cs =>
      cases solid : isBlank c with
      | true =>
        have shorter : cs.length < k := by simp only [List.length_cons] at size; omega
        rw [scanFrom_blank g n c cs solid]
        exact blank n c cs solid (ih _ shorter _ cs rfl)
      | false =>
        cases found : Lexeme.split? g (c :: cs) with
        | none => rw [scanFrom_invalid g n c cs solid found]; exact invalid n c cs solid found
        | some r =>
          obtain ⟨x, rest⟩ := r
          have shorter := Lexeme.split?_length_lt found
          rw [scanFrom_lexeme g n c cs rest x solid found]
          obtain ⟨fits, ends, same⟩ := Lexeme.split?_eq_some_iff.mp found
          rw [same]
          exact lexeme n x rest fits ends (ih _ (size ▸ shorter) _ rest rfl)

theorem tiling_of_scan {g : Grammar} {offset : Nat} {cs : List Char} {ts : List Token}
    (run : scanFrom g offset cs = .ok ts) : Tiling g offset ts cs [] := by
  revert ts
  apply scan_induction (P := fun n cs result => ∀ {ts}, result = .ok ts → Tiling g n ts cs [])
  case done =>
    intro n ts run
    cases run
    exact .nil (by simp)
  case blank =>
    intro n c cs solid others ts run
    exact tiling_blank solid (others run)
  case lexeme =>
    intro n x rest fits ends others ts run
    obtain ⟨us, inner, rfl⟩ := map_eq_ok_iff.mp run
    exact tiling_lexeme fits (by simpa using ends) (others inner)
  case invalid => simp

theorem scan_iff_tiling {g : Grammar} {input : String} {ts : List Token} :
    scan g input = .ok ts ↔ Tiling g 0 ts input.toList [] := by
  refine ⟨tiling_of_scan, fun tiling => ?_⟩
  have scanned := scanFrom_tiling tiling
  simp only [List.append_nil, scanFrom_nil, Except.map] at scanned
  exact scanned

theorem tiling_of_refused {g : Grammar} {offset : Nat} {cs : List Char} {d : Diagnostic}
    (refused : scanFrom g offset cs = .error d) :
    ∃ ts before c after, cs = before ++ c :: after ∧ Tiling g offset ts before (c :: after) ∧
      isBlank c = false ∧ Lexeme.split? g (c :: after) = none ∧
      d = .invalidCharacter c (offset + byteSize before) := by
  revert d
  apply scan_induction (P := fun n cs result => ∀ {d}, result = .error d →
    ∃ ts before c after, cs = before ++ c :: after ∧ Tiling g n ts before (c :: after) ∧
      isBlank c = false ∧ Lexeme.split? g (c :: after) = none ∧
      d = .invalidCharacter c (n + byteSize before))
  case done => simp
  case blank =>
    intro n b cs blank others d refused
    obtain ⟨ts, before, c, after, rfl, tiling, solid, missing, rfl⟩ := others refused
    refine ⟨ts, b :: before, c, after, rfl, tiling_blank blank tiling, solid, missing, ?_⟩
    rw [byteSize_cons, Nat.add_assoc]
  case lexeme =>
    intro n x rest fits ends others d refused
    obtain ⟨ts, before, c, after, rfl, tiling, solid, missing, rfl⟩ :=
      others (map_eq_error_iff.mp refused)
    refine ⟨x.token n :: ts, x.chars ++ before, c, after, by simp, ?_, solid, missing, ?_⟩
    · exact tiling_lexeme fits ends tiling
    · rw [byteSize_append, Nat.add_assoc]
  case invalid =>
    intro n c cs solid missing d refused
    cases refused
    exact ⟨[], [], c, cs, rfl, .nil (by simp), solid, missing, rfl⟩

theorem scanFrom_refused {g : Grammar} {offset : Nat} {cs : List Char} {d : Diagnostic}
    (refused : scanFrom g offset cs = .error d) : d.stage = .lex := by
  obtain ⟨_, _, _, _, _, _, _, _, rfl⟩ := tiling_of_refused refused
  rfl

/-- A tiling cut in front of one of its tokens. The blanks in front of the token go to the left. -/
theorem tiling_cut {g : Grammar} {offset : Nat} {us vs : List Token} {t : Token}
    {cs after : List Char} (tiling : Tiling g offset (us ++ t :: vs) cs after) :
    ∃ (x : Lexeme) (before rest : List Char), cs = before ++ (x.chars ++ rest) ∧
      t = x.token (offset + byteSize before) ∧ x.Fits g ∧ x.Ends g (rest ++ after) ∧
      Tiling g offset us before (x.chars ++ (rest ++ after)) ∧
      Tiling g (offset + byteSize before + byteSize x.chars) vs rest after := by
  induction us generalizing offset cs with
  | nil =>
    cases tiling with
    | cons blank fits ends others => exact ⟨_, _, _, rfl, rfl, fits, ends, .nil blank, others⟩
  | cons u us ih =>
    cases tiling with
    | cons blank fits ends others =>
      rename_i y gap ds
      obtain ⟨x, before, rest, rfl, rfl, xfits, xends, left, right⟩ := ih others
      refine ⟨x, gap ++ (y.chars ++ before), rest, by simp, ?_, xfits, xends, ?_, ?_⟩
      · simp only [byteSize_append, Nat.add_assoc]
      · exact .cons blank fits (by simpa using ends) left
      · simpa only [byteSize_append, Nat.add_assoc] using right

theorem scan_cut {g : Grammar} {input : String} {us vs : List Token} {t : Token}
    (scanned : scan g input = .ok (us ++ t :: vs)) :
    ∃ (x : Lexeme) (before rest : List Char), t.kind = x.kind ∧ t.text = String.ofList x.chars ∧
      input = String.ofList before ++ t.text ++ String.ofList rest ∧
      (String.ofList before).utf8ByteSize = t.loc ∧ x.Fits g ∧
      Tiling g 0 us before (x.chars ++ rest) ∧ Tiling g t.stop vs rest [] := by
  obtain ⟨x, before, rest, whole, rfl, fits, _, left, right⟩ := tiling_cut (tiling_of_scan scanned)
  rw [List.append_nil] at left
  refine ⟨x, before, rest, rfl, rfl, ?_, ?_, fits, left, ?_⟩
  · apply String.toList_injective
    simp [whole, Lexeme.token]
  · simp [← byteSize_eq_utf8ByteSize, Lexeme.token]
  · rwa [byteSize_eq_utf8ByteSize x.chars] at right

theorem tiling_front {g : Grammar} {offset : Nat} {ts : List Token} {c : Char}
    {cs after : List Char} (tiling : Tiling g offset ts (c :: cs) after) : c ≠ '.' := by
  generalize same : c :: cs = text at tiling
  cases tiling with
  | nil blank =>
    rw [← same] at blank
    exact (isBlank_apart (blank c (by simp))).2.2.1
  | cons blank fits ends others =>
    rename_i x _ gap _
    cases gap with
    | nil =>
      obtain ⟨d, ds, chars, _, solid⟩ := Lexeme.fits_head fits
      simp only [chars, List.nil_append, List.cons_append, List.cons.injEq] at same
      rw [same.1]
      exact solid
    | cons b gap =>
      cases same
      exact (isBlank_apart (blank c (by simp))).2.2.1

theorem tiling_before {g : Grammar} {offset : Nat} {ts : List Token} {cs after : List Char}
    (tiling : Tiling g offset ts cs after) (other : List Char)
    (ends : ∀ x : Lexeme, x.Ends g after → x.Ends g other) : Tiling g offset ts cs other := by
  induction tiling with
  | nil blank => exact .nil blank
  | cons blank fits last others ih =>
    rename_i ds _
    refine .cons blank fits ?_ (ih ends)
    -- Only the last lexeme touches the text behind; the others have tokens or blanks behind them.
    cases ds with
    | nil => exact ends _ last
    | cons c ds => exact Lexeme.ends_head _ (tiling_front others) last

end PrefixCalls.Token
