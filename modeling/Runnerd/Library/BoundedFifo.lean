import Mathlib.Data.List.Perm.Basic
import Mathlib.Data.List.Range
import Mathlib.Logic.Function.Basic
import Mathlib.Data.Set.Card

/-!
# A bounded queue

What a queue in front of a bounded number of slots is for. Each item that is put in gets the next
ticket. It waits until it is taken, which needs a free slot and that no waiting item has a smaller
ticket, or until it is cancelled. What was taken occupies its slot until that is released. An item that
neither waits nor occupies a slot may be put in again, with a new ticket.
-/

namespace BoundedFifo

open Function

variable {α : Type}

/-- Where an item is. -/
inductive Place where
  | waiting
  | active
  | cancelled
  | released
  deriving DecidableEq, Repr

inductive Event (α : Type) where
  | enqueued (a : α)
  | taken (a : α)
  | cancelled (a : α)
  | released (a : α)
  deriving DecidableEq, Repr

/-- What the events so far say. -/
structure Register (α : Type) where
  /-- Where each item is that was ever put in. -/
  place : α → Option Place := fun _ => none
  /-- The ticket an item got last. -/
  ticket : α → ℕ := fun _ => 0
  /-- The number of tickets issued. -/
  issued : ℕ := 0
  /-- The tickets of the items taken, oldest first. -/
  taken : List ℕ := []
  /-- The tickets of the items cancelled. -/
  dropped : List ℕ := []

namespace Register

def step [DecidableEq α] (r : Register α) : Event α → Register α
  | .enqueued a =>
    { r with
      place := update r.place a (some .waiting)
      ticket := update r.ticket a r.issued
      issued := r.issued + 1 }
  | .taken a =>
    { r with place := update r.place a (some .active), taken := r.taken ++ [r.ticket a] }
  | .cancelled a =>
    { r with place := update r.place a (some .cancelled), dropped := r.dropped ++ [r.ticket a] }
  | .released a => { r with place := update r.place a (some .released) }

/-- The item occupies neither a slot nor a place in the queue. -/
def Outside (r : Register α) (a : α) : Prop := r.place a ≠ some .waiting ∧ r.place a ≠ some .active

/-- There is a free slot. -/
def Free (capacity : ℕ) (r : Register α) : Prop :=
  {a | r.place a = some .active}.ncard < capacity

/-- The item is the next one. -/
def Next (r : Register α) (a : α) : Prop :=
  r.place a = some .waiting ∧ ∀ b, r.place b = some .waiting → r.ticket a ≤ r.ticket b

/-- The events that a queue with this many slots allows. -/
def Allowed (capacity : ℕ) (r : Register α) : Event α → Prop
  | .enqueued a => r.Outside a
  | .taken a => Free capacity r ∧ r.Next a
  | .cancelled a => r.place a = some .waiting
  | .released a => r.place a = some .active

/-- These items wait, in the order of their tickets, behind all that were taken; and every ticket
belongs to one item taken, waiting or cancelled. -/
structure Line (r : Register α) (line : List α) : Prop where
  mem : ∀ a, a ∈ line ↔ r.place a = some .waiting
  sorted : (r.taken ++ line.map r.ticket).Pairwise (· < ·)
  tickets : (r.taken ++ line.map r.ticket ++ r.dropped).Perm (List.range r.issued)

variable {r : Register α} {a : α} {line : List α}

theorem line_nil : Line ({} : Register α) [] := ⟨fun a => by simp, List.Pairwise.nil, List.Perm.nil⟩

theorem Line.nodup (h : Line r line) : line.Nodup := by
  have hmap : (line.map r.ticket).Nodup :=
    (List.pairwise_append.mp h.sorted).2.1.imp Nat.ne_of_lt
  exact hmap.of_map r.ticket

/-- An item in the line has got a ticket. -/
theorem Line.ticket_lt (h : Line r line) {t : ℕ} (ht : t ∈ r.taken ++ line.map r.ticket) :
    t < r.issued :=
  List.mem_range.mp (h.tickets.subset (List.mem_append_left r.dropped ht))

/-- The first in the line is the next one. -/
theorem Line.next (h : Line r (a :: line)) : r.Next a := by
  refine ⟨(h.mem a).mp List.mem_cons_self, fun b hb => ?_⟩
  obtain rfl | hb := List.mem_cons.mp ((h.mem b).mpr hb)
  · exact le_refl _
  · have hsorted := (List.pairwise_append.mp h.sorted).2.1
    exact ((List.pairwise_cons.mp hsorted).1 _ (List.mem_map_of_mem hb)).le

/-- The next one is the first in the line. -/
theorem Line.eq_head {b : α} (h : Line r (a :: line)) (hb : r.Next b) : b = a := by
  obtain heq | hmem := List.mem_cons.mp ((h.mem b).mpr hb.1)
  · exact heq
  · have hsorted := (List.pairwise_append.mp h.sorted).2.1
    have hlt := (List.pairwise_cons.mp hsorted).1 _ (List.mem_map_of_mem hmem)
    exact absurd (hb.2 a h.next.1) (not_le.mpr hlt)

variable [DecidableEq α]

/-- An item that is not in the line may get another ticket. -/
theorem map_update {t : ℕ} (h : a ∉ line) :
    line.map (update r.ticket a t) = line.map r.ticket := by
  refine List.map_congr_left fun b hb => update_of_ne ?_ _ _
  rintro rfl
  exact h hb

theorem Line.enqueued (h : Line r line) (ha : r.Outside a) :
    Line (r.step (.enqueued a)) (line ++ [a]) := by
  have hnot : a ∉ line := fun hmem => ha.1 ((h.mem a).mp hmem)
  have hmap : (line ++ [a]).map (update r.ticket a r.issued) = line.map r.ticket ++ [r.issued] := by
    rw [List.map_append, map_update hnot, List.map_singleton, update_self]
  refine ⟨fun b => ?_, ?_, ?_⟩
  · show b ∈ line ++ [a] ↔ update r.place a (some .waiting) b = some .waiting
    by_cases hb : b = a
    · subst hb
      simp
    · rw [update_of_ne hb, ← h.mem b]
      simp [hb]
  · show (r.taken ++ (line ++ [a]).map (update r.ticket a r.issued)).Pairwise (· < ·)
    rw [hmap, ← List.append_assoc]
    refine List.pairwise_append.mpr ⟨h.sorted, List.pairwise_singleton _ _, fun t ht u hu => ?_⟩
    rw [List.mem_singleton.mp hu]
    exact h.ticket_lt ht
  · show (r.taken ++ (line ++ [a]).map (update r.ticket a r.issued) ++ r.dropped).Perm
      (List.range (r.issued + 1))
    rw [hmap, List.range_succ, ← List.append_assoc, List.append_assoc _ _ r.dropped]
    refine (List.Perm.append_left _ List.perm_append_comm).trans ?_
    rw [← List.append_assoc]
    exact h.tickets.append_right [r.issued]

theorem Line.taken (h : Line r (a :: line)) : Line (r.step (.taken a)) line := by
  obtain ⟨hnot, -⟩ := List.nodup_cons.mp h.nodup
  have hqueue : r.taken ++ [r.ticket a] ++ line.map r.ticket =
      r.taken ++ (a :: line).map r.ticket := by
    rw [List.append_assoc, List.map_cons, List.singleton_append]
  refine ⟨fun b => ?_, ?_, ?_⟩
  · show b ∈ line ↔ update r.place a (some .active) b = some .waiting
    by_cases hb : b = a
    · subst hb
      simp [hnot]
    · rw [update_of_ne hb, ← h.mem b, List.mem_cons, or_iff_right hb]
  · show (r.taken ++ [r.ticket a] ++ line.map r.ticket).Pairwise (· < ·)
    rw [hqueue]
    exact h.sorted
  · show (r.taken ++ [r.ticket a] ++ line.map r.ticket ++ r.dropped).Perm (List.range r.issued)
    rw [hqueue]
    exact h.tickets

/-- The line keeps its order when an item leaves it. -/
theorem Line.cancelled (h : Line r line) (ha : r.place a = some .waiting) :
    Line (r.step (.cancelled a)) (line.erase a) := by
  have hmem : a ∈ line := (h.mem a).mpr ha
  refine ⟨fun b => ?_, ?_, ?_⟩
  · show b ∈ line.erase a ↔ update r.place a (some .cancelled) b = some .waiting
    rw [h.nodup.mem_erase_iff]
    by_cases hb : b = a
    · subst hb
      simp
    · rw [update_of_ne hb, ← h.mem b, and_iff_right hb]
  · refine h.sorted.sublist (List.Sublist.append_left ?_ r.taken)
    exact (List.erase_sublist (a := a) (l := line)).map r.ticket
  · show (r.taken ++ (line.erase a).map r.ticket ++ (r.dropped ++ [r.ticket a])).Perm
      (List.range r.issued)
    refine List.Perm.trans ?_ h.tickets
    have hline : (line.map r.ticket).Perm (r.ticket a :: (line.erase a).map r.ticket) :=
      (List.perm_cons_erase hmem).map r.ticket
    refine List.Perm.trans ?_ ((hline.symm.append_left r.taken).append_right r.dropped)
    simp only [List.append_assoc, List.cons_append]
    refine List.Perm.append_left r.taken ?_
    rw [← List.append_assoc]
    exact (List.perm_append_singleton _ _)

theorem Line.released (h : Line r line) (ha : r.place a = some .active) :
    Line (r.step (.released a)) line := by
  refine ⟨fun b => ?_, h.sorted, h.tickets⟩
  show b ∈ line ↔ update r.place a (some .released) b = some .waiting
  by_cases hb : b = a
  · subst hb
    rw [update_self, h.mem b, ha]
    simp
  · rw [update_of_ne hb, ← h.mem b]

end Register

end BoundedFifo
