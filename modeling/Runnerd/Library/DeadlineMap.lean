import Mathlib.Order.Lattice
import Mathlib.Data.Option.Basic
import Mathlib.Logic.Function.Basic
import Mathlib.Data.List.Pairwise

/-!
# Deadlines

What a timer is for: at most one deadline for each key. Scheduling overwrites, cancelling deletes,
and expiry takes away the keys whose deadline has come, earliest first and by key among equals.
-/

/-- At most one deadline for each key. -/
abbrev DeadlineMap (κ τ : Type) : Type := κ → Option τ

namespace DeadlineMap

variable {κ τ : Type}

section Keys

variable [LinearOrder κ]

/-- A new deadline for `k`. -/
def schedule (m : DeadlineMap κ τ) (k : κ) (d : τ) : DeadlineMap κ τ := Function.update m k (some d)

/-- No deadline for `k`. -/
def cancel (m : DeadlineMap κ τ) (k : κ) : DeadlineMap κ τ := Function.update m k none

variable {m : DeadlineMap κ τ} {k : κ}

@[simp] theorem schedule_self {d : τ} : schedule m k d k = some d := by
  unfold schedule
  rw [Function.update_self]

theorem schedule_of_ne {d : τ} {k' : κ} (h : k' ≠ k) : schedule m k d k' = m k' := by
  unfold schedule
  rw [Function.update_of_ne h]

@[simp] theorem cancel_self : cancel m k k = none := by
  unfold cancel
  rw [Function.update_self]

theorem cancel_of_ne {k' : κ} (h : k' ≠ k) : cancel m k k' = m k' := by
  unfold cancel
  rw [Function.update_of_ne h]

end Keys

variable [LinearOrder τ]

/-- The deadlines still to come. -/
def expire (m : DeadlineMap κ τ) (now : τ) : DeadlineMap κ τ := fun k => (m k).filter (now < ·)

/-- The deadline of `k` has come. -/
def IsDue (m : DeadlineMap κ τ) (now : τ) (k : κ) : Prop := ∃ d, m k = some d ∧ d ≤ now

variable {m : DeadlineMap κ τ} {now : τ} {k : κ}

theorem expire_of_not_isDue (h : ¬ IsDue m now k) : expire m now k = m k := by
  unfold expire
  cases hk : m k with
  | none => rfl
  | some d =>
    have hlt : now < d := not_le.mp fun hle => h ⟨d, hk, hle⟩
    exact Option.filter_some_pos (decide_eq_true hlt)

theorem expire_of_forall_not_isDue (h : ∀ k, ¬ IsDue m now k) : expire m now = m :=
  funext fun k => expire_of_not_isDue (h k)

/-- A key is left after an expiry if it was there and not due. -/
theorem expire_eq_some_iff {d : τ} : expire m now k = some d ↔ m k = some d ∧ ¬ IsDue m now k := by
  unfold expire IsDue
  rw [Option.filter_eq_some_iff, decide_eq_true_iff]
  constructor
  · rintro ⟨hk, hlt⟩
    refine ⟨hk, ?_⟩
    rintro ⟨d', hd', hle⟩
    rw [hk] at hd'
    obtain rfl := Option.some.inj hd'
    exact absurd hle (not_le.mpr hlt)
  · rintro ⟨hk, hdue⟩
    exact ⟨hk, not_le.mp fun hle => hdue ⟨d, hk, hle⟩⟩

variable [LinearOrder κ]

/-- `a` expires before `b`: by deadline, then by key. -/
def Before (m : DeadlineMap κ τ) (a b : κ) : Prop :=
  ∃ da db, m a = some da ∧ m b = some db ∧ (da < db ∨ da = db ∧ a < b)

/-- `ks` are the keys that are due, in the order of their expiry. -/
structure DueInOrder (m : DeadlineMap κ τ) (now : τ) (ks : List κ) : Prop where
  mem_iff : ∀ k, k ∈ ks ↔ IsDue m now k
  ordered : ks.Pairwise (Before m)

theorem Before.ne {a b : κ} (h : Before m a b) : a ≠ b := by
  rintro rfl
  obtain ⟨da, db, ha, hb, hlt | ⟨-, hlt⟩⟩ := h
  · rw [ha] at hb
    exact absurd (Option.some.inj hb) hlt.ne
  · exact lt_irrefl _ hlt

/-- Each key expires once. -/
theorem DueInOrder.nodup {ks : List κ} (h : DueInOrder m now ks) : ks.Nodup :=
  h.ordered.imp Before.ne

theorem isDue_cancel {k' : κ} : IsDue (cancel m k) now k' ↔ k' ≠ k ∧ IsDue m now k' := by
  unfold IsDue
  by_cases h : k' = k
  · subst h
    simp [cancel_self]
  · simp [cancel_of_ne h, h]

theorem expire_cancel (h : IsDue m now k) : expire (cancel m k) now = expire m now := by
  obtain ⟨d, hk, hle⟩ := h
  funext k'
  unfold expire
  by_cases hne : k' = k
  · subst hne
    rw [cancel_self, hk, Option.filter_none,
      Option.filter_some_neg (by simpa using hle)]
  · rw [cancel_of_ne hne]

theorem dueInOrder_nil (h : ∀ k, ¬ IsDue m now k) : DueInOrder m now [] where
  mem_iff k := iff_of_false (List.not_mem_nil) (h k)
  ordered := List.Pairwise.nil

/-- The earliest key, then the due keys of the map without it. -/
theorem DueInOrder.cons {ks : List κ} {d : τ} (hk : m k = some d) (hle : d ≤ now)
    (hfirst : ∀ k' d', m k' = some d' → k' ≠ k → d < d' ∨ d = d' ∧ k < k')
    (h : DueInOrder (cancel m k) now ks) : DueInOrder m now (k :: ks) := by
  have hdue : ∀ k' ∈ ks, k' ≠ k ∧ IsDue m now k' := fun k' hk' =>
    isDue_cancel.mp ((h.mem_iff k').mp hk')
  refine ⟨fun k' => ?_, List.pairwise_cons.mpr ⟨fun k' hk' => ?_, ?_⟩⟩
  · rw [List.mem_cons, h.mem_iff, isDue_cancel]
    constructor
    · rintro (rfl | ⟨-, h'⟩)
      · exact ⟨d, hk, hle⟩
      · exact h'
    · intro h'
      by_cases hne : k' = k
      · exact Or.inl hne
      · exact Or.inr ⟨hne, h'⟩
  · obtain ⟨hne, d', hd', -⟩ := hdue k' hk'
    exact ⟨d, d', hk, hd', hfirst k' d' hd' hne⟩
  · refine h.ordered.imp_of_mem fun {a b} ha hb hab => ?_
    obtain ⟨da, db, hda, hdb, hlt⟩ := hab
    rw [cancel_of_ne (hdue a ha).1] at hda
    rw [cancel_of_ne (hdue b hb).1] at hdb
    exact ⟨da, db, hda, hdb, hlt⟩

end DeadlineMap
