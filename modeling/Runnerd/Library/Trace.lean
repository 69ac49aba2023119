import Mathlib.Data.List.Basic

/-!
# Properties of every event of a history

`Throughout P before events` holds when `P` does at each of the `events`, given all that came before
it and what follows it. A property that more events cannot spoil is extended piece by piece.
-/

namespace Trace

variable {α : Type} {P Q : List α → α → List α → Prop} {before events more : List α} {e : α}

/-- `P` at every event, with what came before it and what follows. -/
def Throughout (P : List α → α → List α → Prop) (before events : List α) : Prop :=
  ∀ pre e post, events = pre ++ e :: post → P (before ++ pre) e post

@[simp] theorem throughout_nil : Throughout P before [] := by
  intro pre e post h
  cases pre <;> cases h

@[simp] theorem throughout_cons : Throughout P before (e :: events) ↔
    P before e events ∧ Throughout P (before ++ [e]) events := by
  constructor
  · refine fun h => ⟨?_, fun pre e' post heq => ?_⟩
    · simpa using h [] e events rfl
    · simpa using h (e :: pre) e' post (by rw [heq, List.cons_append])
  · rintro ⟨hhead, htail⟩ pre e' post heq
    cases pre with
    | nil =>
      obtain ⟨rfl, rfl⟩ := List.cons.inj heq
      simpa using hhead
    | cons a pre =>
      obtain ⟨rfl, rfl⟩ := List.cons.inj heq
      simpa using htail pre e' post rfl

theorem Throughout.append
    (hmore : ∀ before e post more, P before e post → P before e (post ++ more))
    (h : Throughout P before events) (h' : Throughout P (before ++ events) more) :
    Throughout P before (events ++ more) := by
  induction events generalizing before with
  | nil => simpa using h'
  | cons e events ih =>
    obtain ⟨hhead, htail⟩ := throughout_cons.mp h
    refine throughout_cons.mpr ⟨hmore _ _ _ _ hhead, ih htail ?_⟩
    simpa using h'

theorem Throughout.left (hless : ∀ before e post more, P before e (post ++ more) → P before e post)
    (h : Throughout P before (events ++ more)) : Throughout P before events := by
  intro pre e post heq
  exact hless _ _ _ more (h pre e (post ++ more) (by rw [heq, List.append_assoc, List.cons_append]))

theorem Throughout.right (h : Throughout P before (events ++ more)) :
    Throughout P (before ++ events) more := by
  intro pre e post heq
  rw [List.append_assoc]
  exact h (events ++ pre) e post (by rw [heq, List.append_assoc])

/-- `P` at each event wherever it stands. -/
theorem throughout_of_forall (h : ∀ e ∈ events, ∀ pre post, P pre e post) :
    Throughout P before events := by
  rintro pre e post rfl
  exact h e (by simp) _ _

/-- A property of single events that can be decided can be decided throughout. -/
instance decidableThroughout [∀ before e after, Decidable (P before e after)] :
    ∀ before events, Decidable (Throughout P before events)
  | _, [] => isTrue throughout_nil
  | before, e :: events =>
    haveI := decidableThroughout (before ++ [e]) events
    decidable_of_iff (P before e events ∧ Throughout P (before ++ [e]) events) throughout_cons.symm

end Trace
