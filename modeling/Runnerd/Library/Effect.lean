import Mathlib.Logic.Basic

/-!
# Stateful computations with exceptions and a history

`Prog ω ε σ α` is a computation over a state `σ` that appends events `ω` to a history, and either
returns an `α` or throws an `ε`. A throw keeps the changes made before it, as it does in a language
with mutable objects, so a handler that catches the exception goes on in the state left behind.

The rules below follow one computation through its steps: `bind_of_ok` and `bind_of_error` run a
sequence, and the `wp` rules carry a postcondition on the result and the world it leaves, whether
the computation returns or throws, from the parts of a computation to the whole.
-/

namespace Effect

/-- The state of a component, and the events of the run so far, oldest first. -/
structure World (ω σ : Type) where
  st : σ
  log : List ω

/-- A computation over `σ` that may throw an `ε` and appends events `ω`. -/
def Prog (ω ε σ α : Type) : Type := World ω σ → Except ε α × World ω σ

variable {ω ε σ τ α β : Type}

namespace World

/-- The world after one more event. -/
def emit (w : World ω σ) (e : ω) : World ω σ := { w with log := w.log ++ [e] }

/-- The world with another state. -/
def put (w : World ω σ) (s : σ) : World ω σ := { w with st := s }

@[simp] theorem emit_st (w : World ω σ) (e : ω) : (w.emit e).st = w.st := rfl
@[simp] theorem emit_log (w : World ω σ) (e : ω) : (w.emit e).log = w.log ++ [e] := rfl
@[simp] theorem put_st (w : World ω σ) (s : σ) : (w.put s).st = s := rfl
@[simp] theorem put_log (w : World ω σ) (s : σ) : (w.put s).log = w.log := rfl

end World

namespace Prog

instance : Monad (Prog ω ε σ) where
  pure a := fun w => (.ok a, w)
  bind m f := fun w =>
    match m w with
    | (.ok a, w') => f a w'
    | (.error e, w') => (.error e, w')

instance : MonadExceptOf ε (Prog ω ε σ) where
  throw e := fun w => (.error e, w)
  tryCatch m h := fun w =>
    match m w with
    | (.ok a, w') => (.ok a, w')
    | (.error e, w') => h e w'

/-- The current state. -/
def state : Prog ω ε σ σ := fun w => (.ok w.st, w)

/-- The events so far. -/
def history : Prog ω ε σ (List ω) := fun w => (.ok w.log, w)

/-- Change the state. -/
def update (f : σ → σ) : Prog ω ε σ Unit := fun w => (.ok (), w.put (f w.st))

/-- Append an event. -/
def emit (e : ω) : Prog ω ε σ Unit := fun w => (.ok (), w.emit e)

/-- A computation over a part `τ` of the state, run in place. -/
def within (get : σ → τ) (set : τ → σ → σ) (m : Prog ω ε τ α) : Prog ω ε σ α := fun w =>
  ((m ⟨get w.st, w.log⟩).1,
    ⟨set (m ⟨get w.st, w.log⟩).2.st w.st, (m ⟨get w.st, w.log⟩).2.log⟩)

section Run

variable (w : World ω σ)

@[simp] theorem pure_run (a : α) : (pure a : Prog ω ε σ α) w = (.ok a, w) := rfl
@[simp] theorem throw_run (e : ε) : (throw e : Prog ω ε σ α) w = (.error e, w) := rfl
@[simp] theorem state_run : (state : Prog ω ε σ σ) w = (.ok w.st, w) := rfl
@[simp] theorem history_run : (history : Prog ω ε σ (List ω)) w = (.ok w.log, w) := rfl
@[simp] theorem update_run (f : σ → σ) :
    (update f : Prog ω ε σ Unit) w = (.ok (), w.put (f w.st)) := rfl
@[simp] theorem emit_run (e : ω) : (emit e : Prog ω ε σ Unit) w = (.ok (), w.emit e) := rfl
@[simp] theorem ofExcept_run (x : Except ε α) : (ofExcept x : Prog ω ε σ α) w = (x, w) := by
  cases x <;> rfl

variable {w}

theorem bind_of_ok {m : Prog ω ε σ α} {f : α → Prog ω ε σ β} {a : α} {w' : World ω σ}
    (h : m w = (.ok a, w')) : (m >>= f) w = f a w' := by
  show (match m w with
    | (.ok a, w') => f a w'
    | (.error e, w') => (.error e, w')) = _
  rw [h]

theorem bind_of_error {m : Prog ω ε σ α} {f : α → Prog ω ε σ β} {e : ε} {w' : World ω σ}
    (h : m w = (.error e, w')) : (m >>= f) w = (.error e, w') := by
  show (match m w with
    | (.ok a, w') => f a w'
    | (.error e, w') => (.error e, w')) = _
  rw [h]

theorem tryCatch_of_ok {m : Prog ω ε σ α} {h : ε → Prog ω ε σ α} {a : α} {w' : World ω σ}
    (hm : m w = (.ok a, w')) : (tryCatch m h) w = (.ok a, w') := by
  show (match m w with
    | (Except.ok a, w') => (Except.ok a, w')
    | (Except.error e, w') => h e w') = _
  rw [hm]

theorem tryCatch_of_error {m : Prog ω ε σ α} {h : ε → Prog ω ε σ α} {e : ε} {w' : World ω σ}
    (hm : m w = (.error e, w')) : (tryCatch m h) w = h e w' := by
  show (match m w with
    | (Except.ok a, w') => (Except.ok a, w')
    | (Except.error e, w') => h e w') = _
  rw [hm]

/-- A sequence of three can be split at either place. -/
theorem bind_bind {γ : Type} (m : Prog ω ε σ α) (f : α → Prog ω ε σ β) (g : β → Prog ω ε σ γ) :
    (m >>= f) >>= g = m >>= fun a => f a >>= g := by
  funext w
  rcases hm : m w with ⟨_ | a, w₁⟩
  · rw [bind_of_error (bind_of_error hm), bind_of_error hm]
  · rw [bind_of_ok hm]
    rcases hf : f a w₁ with ⟨_ | b, w₂⟩
    · rw [bind_of_error ((bind_of_ok hm).trans hf), bind_of_error hf]
    · rw [bind_of_ok ((bind_of_ok hm).trans hf), bind_of_ok hf]

/-- A sequence returns only if its first part does, and then its second part. -/
theorem bind_ok_inv {m : Prog ω ε σ α} {f : α → Prog ω ε σ β} {b : β} {w' : World ω σ}
    (h : (m >>= f) w = (.ok b, w')) :
    ∃ a w₁, m w = (.ok a, w₁) ∧ f a w₁ = (.ok b, w') := by
  rcases hm : m w with ⟨_ | a, w₁⟩
  · rw [bind_of_error hm] at h
    cases h
  · exact ⟨a, w₁, rfl, by rw [bind_of_ok hm] at h; exact h⟩

/-- A sequence throws if its first part does, or its second part after the first. -/
theorem bind_error_inv {m : Prog ω ε σ α} {f : α → Prog ω ε σ β} {e : ε} {w' : World ω σ}
    (h : (m >>= f) w = (.error e, w')) :
    m w = (.error e, w') ∨ ∃ a w₁, m w = (.ok a, w₁) ∧ f a w₁ = (.error e, w') := by
  rcases hm : m w with ⟨e₁ | a, w₁⟩
  · rw [bind_of_error hm] at h
    obtain ⟨he, rfl⟩ := Prod.mk.inj h
    exact Or.inl (by rw [Except.error.inj he])
  · exact Or.inr ⟨a, w₁, rfl, by rw [bind_of_ok hm] at h; exact h⟩

end Run

/-! ## Preconditions and postconditions -/

/-- What must hold of a world so that `m`, run from it, ends with a result and in a world that
satisfy `Q`. -/
def wp (m : Prog ω ε σ α) (Q : Except ε α → World ω σ → Prop) (w : World ω σ) : Prop :=
  Q (m w).1 (m w).2

section Rules

variable {Q Q' : Except ε α → World ω σ → Prop} {w w' : World ω σ}

theorem wp_of_run {m : Prog ω ε σ α} {r : Except ε α} (h : m w = (r, w')) (hQ : Q r w') :
    wp m Q w := by
  unfold wp
  rw [h]
  exact hQ

theorem wp_run {m : Prog ω ε σ α} {r : Except ε α} (hwp : wp m Q w) (h : m w = (r, w')) :
    Q r w' := by
  unfold wp at hwp
  rw [h] at hwp
  exact hwp

theorem wp_mono {m : Prog ω ε σ α} (h : wp m Q' w) (himp : ∀ r w', Q' r w' → Q r w') :
    wp m Q w := himp _ _ h

theorem wp_pure {a : α} (h : Q (.ok a) w) : wp (pure a) Q w := h

theorem wp_throw {e : ε} (h : Q (.error e) w) : wp (throw e) Q w := h

theorem wp_update {Q : Except ε Unit → World ω σ → Prop} {f : σ → σ}
    (h : Q (.ok ()) (w.put (f w.st))) : wp (update f) Q w := h

theorem wp_ofExcept {x : Except ε α} (h : Q x w) : wp (ofExcept x) Q w :=
  wp_of_run (ofExcept_run w x) h

/-- A sequence: its second part runs where the first one returns. -/
theorem wp_bind {m : Prog ω ε σ β} {f : β → Prog ω ε σ α} {R : Except ε β → World ω σ → Prop}
    (hm : wp m R w) (hok : ∀ b w', R (.ok b) w' → wp (f b) Q w')
    (herror : ∀ e w', R (.error e) w' → Q (.error e) w') : wp (m >>= f) Q w := by
  rcases h : m w with ⟨e | b, w'⟩
  · exact wp_of_run (bind_of_error h) (herror e w' (wp_run hm h))
  · have hf := hok b w' (wp_run hm h)
    unfold wp at hf ⊢
    rw [bind_of_ok h]
    exact hf

/-- A sequence whose first part returns. -/
theorem wp_bind_ok {m : Prog ω ε σ β} {f : β → Prog ω ε σ α} {b : β} (hm : m w = (.ok b, w'))
    (hf : wp (f b) Q w') : wp (m >>= f) Q w := by
  unfold wp at hf ⊢
  rw [bind_of_ok hm]
  exact hf

/-- A handler runs where the computation throws. -/
theorem wp_tryCatch {m : Prog ω ε σ α} {h : ε → Prog ω ε σ α}
    {R : Except ε α → World ω σ → Prop} (hm : wp m R w)
    (hok : ∀ a w', R (.ok a) w' → Q (.ok a) w')
    (herror : ∀ e w', R (.error e) w' → wp (h e) Q w') : wp (tryCatch m h) Q w := by
  rcases hw : m w with ⟨e | a, w'⟩
  · have hh := herror e w' (wp_run hm hw)
    unfold wp at hh ⊢
    rw [tryCatch_of_error hw]
    exact hh
  · exact wp_of_run (tryCatch_of_ok hw) (hok a w' (wp_run hm hw))

/-- A handler of a computation that throws. -/
theorem wp_tryCatch_error {m : Prog ω ε σ α} {h : ε → Prog ω ε σ α} {e : ε}
    (hm : m w = (.error e, w')) (hh : wp (h e) Q w') : wp (tryCatch m h) Q w := by
  unfold wp at hh ⊢
  rw [tryCatch_of_error hm]
  exact hh

/-- A computation over a part of the state. -/
theorem wp_within {get : σ → τ} {set : τ → σ → σ} {m : Prog ω ε τ α}
    (h : wp m (fun r v => Q r ⟨set v.st w.st, v.log⟩) ⟨get w.st, w.log⟩) :
    wp (within get set m) Q w := h

end Rules

end Prog

end Effect
