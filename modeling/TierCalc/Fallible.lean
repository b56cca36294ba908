/-!
# Computations that can fail

How a computation that succeeded or failed is taken apart, and how one is put together from parts that succeed.
-/

namespace TierCalc

theorem ok_of_bind {ε α β : Type} {x : Except ε α} {f : α → Except ε β} {b : β} (h : (x >>= f) = .ok b) :
    ∃ a, x = .ok a ∧ f a = .ok b := by
  cases x with
  | error e => cases h
  | ok a => exact ⟨a, rfl, h⟩

theorem error_of_bind {ε α β : Type} {x : Except ε α} {f : α → Except ε β} {e : ε} (h : (x >>= f) = .error e) :
    x = .error e ∨ ∃ a, x = .ok a ∧ f a = .error e := by
  cases x with
  | error e' => exact .inl (congrArg Except.error (Except.error.inj h))
  | ok a => exact .inr ⟨a, rfl, h⟩

theorem bind_of_ok {ε α β : Type} {x : Except ε α} {a : α} (h : x = .ok a) (f : α → Except ε β) :
    (x >>= f) = f a := by
  rw [h]
  rfl

theorem toOption_bind {ε α β : Type} (x : Except ε α) (f : α → Except ε β) :
    (x >>= f).toOption = x.toOption.bind fun a => (f a).toOption := by
  cases x <;> rfl

theorem bind_map_eq_map_bind {ε α β γ δ : Type} {x : Except ε α} {f : α → β} {next : β → Except ε γ}
    {next' : α → Except ε δ} {k : δ → γ} (h : ∀ a, next (f a) = k <$> next' a) :
    (f <$> x >>= next) = k <$> (x >>= next') := by
  rw [bind_map_left, map_bind]
  exact congrArg (x >>= ·) (funext h)

theorem ok_of_toOption {ε α : Type} {x : Except ε α} {a : α} (h : x.toOption = some a) : x = .ok a := by
  cases x with
  | error e => cases h
  | ok b => exact congrArg Except.ok (Option.some.inj h)

theorem pure_ok {ε α : Type} (a : α) : (pure a : Except ε α) = .ok a := rfl
theorem throw_error {ε α : Type} (e : ε) : (throw e : Except ε α) = .error e := rfl

end TierCalc
