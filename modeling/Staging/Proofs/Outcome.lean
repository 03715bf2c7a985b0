/-!
Computations with a state, and how they end.

A computation made of two succeeds exactly when both do, the second from where the first ended. With this
a successful run is taken apart step by step, whatever its state is. What a computation does to the state is
also done when it fails: `Along R` says that it only moves the state along the relation `R`, however it ends.
-/

namespace Staging

section

variable {ε σ α β : Type} {s s' : σ}

theorem bind_eq_ok {x : EStateM ε σ α} {f : α → EStateM ε σ β} {b : β} :
    (x >>= f) s = .ok b s' ↔ ∃ a t, x s = .ok a t ∧ f a t = .ok b s' := by
  simp only [bind, EStateM.bind]
  cases x s <;> simp [and_assoc]

theorem bind_eq_error {x : EStateM ε σ α} {f : α → EStateM ε σ β} {e : ε} :
    (x >>= f) s = .error e s' ↔ x s = .error e s' ∨ ∃ a t, x s = .ok a t ∧ f a t = .error e s' := by
  simp only [bind, EStateM.bind]
  cases x s <;> simp [and_assoc]

theorem bind_of_ok {x : EStateM ε σ α} {f : α → EStateM ε σ β} {a : α} (run : x s = .ok a s') :
    (x >>= f) s = f a s' := by
  simp only [bind, EStateM.bind, run]

theorem forM_eq_error {f : α → EStateM ε σ PUnit} {e : ε} : ∀ {as : List α} {s : σ},
    as.forM f s = .error e s' ↔
      ∃ before a after t, as = before ++ a :: after ∧ before.forM f s = .ok () t ∧ f a t = .error e s'
  | [], s => by
    constructor
    · nofun
    · rintro ⟨before, a, after, _, split, _⟩
      simp at split
  | a :: as, s => by
    have step : (a :: as).forM f = f a >>= fun _ => as.forM f := rfl
    rw [step, bind_eq_error]
    constructor
    · rintro (fails | ⟨_, t, run, fails⟩)
      · exact ⟨[], a, as, s, rfl, rfl, fails⟩
      · obtain ⟨before, b, after, u, rfl, done, fails⟩ := forM_eq_error.1 fails
        exact ⟨a :: before, b, after, u, rfl, (bind_of_ok run).trans done, fails⟩
    · rintro ⟨before, b, after, u, same, done, fails⟩
      cases before with
      | nil =>
        obtain ⟨rfl, rfl⟩ := List.cons.inj same
        cases done
        exact .inl fails
      | cons b before =>
        obtain ⟨rfl, rfl⟩ := List.cons.inj same
        obtain ⟨_, t, run, done⟩ := bind_eq_ok.1 done
        exact .inr ⟨_, t, run, forM_eq_error.2 ⟨before, _, after, u, rfl, done, fails⟩⟩

@[simp] theorem pure_eq_ok {a b : α} :
    (pure a : EStateM ε σ α) s = .ok b s' ↔ a = b ∧ s = s' := by
  simp [pure, EStateM.pure]

end

/-- Without a state, what succeeds is made of two steps that succeed. -/
theorem ok_of_bind {ε α β : Type} {x : Except ε α} {f : α → Except ε β} {b : β} (h : x >>= f = .ok b) :
    ∃ a, x = .ok a ∧ f a = .ok b := by
  cases x with
  | error e => cases h
  | ok a => exact ⟨a, rfl, h⟩

/-! ### However a computation ends -/

/-- The state in which a computation ends, with a result or with a failure. -/
def endOf {ε σ α : Type} : EStateM.Result ε σ α → σ
  | .ok _ s => s
  | .error _ s => s

/-- However the computation ends, its last state is related to its first. -/
def Along {ε σ α : Type} (R : σ → σ → Prop) (act : EStateM ε σ α) : Prop := ∀ s, R s (endOf (act s))

/-- A relation that nothing leaves and that steps can be put together along. -/
structure Connected {σ : Type} (R : σ → σ → Prop) : Prop where
  refl : ∀ s, R s s
  trans : ∀ {s t u}, R s t → R t u → R s u

namespace Along

variable {ε σ α β : Type} {R : σ → σ → Prop}

theorem mono {R' : σ → σ → Prop} {act : EStateM ε σ α} (h : Along R act) (sub : ∀ s t, R s t → R' s t) :
    Along R' act := fun s => sub _ _ (h s)

theorem ok {act : EStateM ε σ α} (h : Along R act) {s t : σ} {a : α} (run : act s = .ok a t) : R s t := by
  have along := h s
  rwa [run] at along

theorem pure (c : Connected R) (a : α) : Along R (Pure.pure a : EStateM ε σ α) := c.refl

theorem throw (c : Connected R) (e : ε) : Along R (MonadExcept.throw e : EStateM ε σ α) := c.refl

theorem get (c : Connected R) : Along R (MonadState.get : EStateM ε σ σ) := c.refl

theorem modify {f : σ → σ} (h : ∀ s, R s (f s)) : Along R (modify f : EStateM ε σ Unit) := h

theorem bind (c : Connected R) {x : EStateM ε σ α} {f : α → EStateM ε σ β} (hx : Along R x)
    (hf : ∀ a, Along R (f a)) : Along R (x >>= f) := by
  intro s
  have first := hx s
  simp only [Bind.bind, EStateM.bind]
  cases h : x s with
  | ok a t =>
    rw [h] at first
    exact c.trans first (hf a t)
  | error e t =>
    rw [h] at first
    exact first

theorem forM (c : Connected R) {f : α → EStateM ε σ PUnit} : ∀ as : List α, (∀ a ∈ as, Along R (f a)) →
    Along R (as.forM f)
  | [], _ => pure c _
  | a :: as, h => bind c (h a (by simp)) fun _ => forM c as fun b hb => h b (by simp [hb])

end Along

end Staging
