import Mathlib.Logic.Relation

/-!
# Labelled steps

A labelled transition relation `step l a b`, and its runs whose labels all lie in a set. What every
step of such a run preserves holds at its end.
-/

namespace Steps

variable {σ ι : Type}

/-- A run of steps whose labels are allowed. -/
def Walk (step : ι → σ → σ → Prop) (allowed : Set ι) : σ → σ → Prop :=
  Relation.ReflTransGen fun a b => ∃ l ∈ allowed, step l a b

variable {step : ι → σ → σ → Prop} {A B : Set ι} {a b c : σ}

theorem Walk.refl : Walk step A a a := Relation.ReflTransGen.refl

theorem Walk.trans (h : Walk step A a b) (h' : Walk step A b c) : Walk step A a c :=
  Relation.ReflTransGen.trans h h'

theorem Walk.single {l : ι} (hl : l ∈ A) (h : step l a b) : Walk step A a b :=
  Relation.ReflTransGen.single ⟨l, hl, h⟩

theorem Walk.tail {l : ι} (h : Walk step A a b) (hl : l ∈ A) (h' : step l b c) :
    Walk step A a c := Relation.ReflTransGen.tail h ⟨l, hl, h'⟩

theorem Walk.head {l : ι} (h : step l a b) (h' : Walk step A b c) (hl : l ∈ A) :
    Walk step A a c := Relation.ReflTransGen.head ⟨l, hl, h⟩ h'

theorem Walk.mono (hAB : A ⊆ B) (h : Walk step A a b) : Walk step B a b :=
  Relation.ReflTransGen.mono (fun _ _ ⟨l, hl, hs⟩ => ⟨l, hAB hl, hs⟩) _ _ h

/-- What each allowed step preserves, a run preserves. -/
theorem Walk.invariant {P : σ → Prop} (hstep : ∀ l ∈ A, ∀ a b, step l a b → P a → P b)
    (h : Walk step A a b) (ha : P a) : P b := by
  induction h with
  | refl => exact ha
  | tail _ hlast ih =>
    obtain ⟨l, hl, hs⟩ := hlast
    exact hstep l hl _ _ hs ih

/-- A reflexive and transitive relation that each allowed step respects holds across a run. -/
theorem Walk.relates {R : σ → σ → Prop} (refl : ∀ a, R a a)
    (trans : ∀ a b c, R a b → R b c → R a c) (hstep : ∀ l ∈ A, ∀ a b, step l a b → R a b)
    (h : Walk step A a b) : R a b := by
  induction h with
  | refl => exact refl _
  | tail _ hlast ih =>
    obtain ⟨l, hl, hs⟩ := hlast
    exact trans _ _ _ ih (hstep l hl _ _ hs)

end Steps
