/-!
Results taken apart and compared. What a mapped or chained result is says what it was made from, and
results made in the same way from related ones are related.
-/
namespace PrefixCalls

variable {ε α β γ δ : Type}

theorem map_eq_ok_iff {f : α → β} {x : Except ε α} {b : β} :
    x.map f = .ok b ↔ ∃ a, x = .ok a ∧ f a = b := by
  cases x <;> simp [Except.map]

theorem map_eq_error_iff {f : α → β} {x : Except ε α} {e : ε} :
    x.map f = .error e ↔ x = .error e := by
  cases x <;> simp [Except.map]

theorem bind_eq_ok_iff {f : α → Except ε β} {x : Except ε α} {b : β} :
    x.bind f = .ok b ↔ ∃ a, x = .ok a ∧ f a = .ok b := by
  cases x <;> simp [Except.bind]

theorem bind_eq_error_iff {f : α → Except ε β} {x : Except ε α} {e : ε} :
    x.bind f = .error e ↔ x = .error e ∨ ∃ a, x = .ok a ∧ f a = .error e := by
  cases x <;> simp [Except.bind]

variable {E : ε → ε → Prop}

inductive Agree (E : ε → ε → Prop) (V : α → β → Prop) : Except ε α → Except ε β → Prop where
  | ok {a : α} {b : β} (values : V a b) : Agree E V (.ok a) (.ok b)
  | error {d e : ε} (refusals : E d e) : Agree E V (.error d) (.error e)

theorem Agree.bind {V : α → β → Prop} {W : γ → δ → Prop} {x : Except ε α} {y : Except ε β}
    {f : α → Except ε γ} {h : β → Except ε δ} (first : Agree E V x y)
    (next : ∀ a b, V a b → Agree E W (f a) (h b)) : Agree E W (x.bind f) (y.bind h) := by
  cases first with
  | ok values => exact next _ _ values
  | error refusals => exact .error refusals

theorem Agree.map {V : α → β → Prop} {W : γ → δ → Prop} {x : Except ε α} {y : Except ε β}
    {f : α → γ} {h : β → δ} (first : Agree E V x y) (next : ∀ a b, V a b → W (f a) (h b)) :
    Agree E W (x.map f) (y.map h) := by
  cases first with
  | ok values => exact .ok (next _ _ values)
  | error refusals => exact .error refusals

theorem Agree.map_right {V : α → β → Prop} {W : α → δ → Prop} {x : Except ε α} {y : Except ε β}
    {h : β → δ} (first : Agree E V x y) (next : ∀ a b, V a b → W a (h b)) :
    Agree E W x (y.map h) := by
  cases first with
  | ok values => exact .ok (next _ _ values)
  | error refusals => exact .error refusals

theorem Agree.of_ok {V : α → β → Prop} {a : α} {y : Except ε β} (agree : Agree E V (.ok a) y) :
    ∃ b, y = .ok b ∧ V a b := by
  cases agree with
  | ok values => exact ⟨_, rfl, values⟩

theorem Agree.of_error {V : α → β → Prop} {d : ε} {y : Except ε β}
    (agree : Agree E V (.error d) y) : ∃ e, y = .error e ∧ E d e := by
  cases agree with
  | error refusals => exact ⟨_, rfl, refusals⟩

end PrefixCalls
