import Mathlib.Data.List.Sort

/-!
# Priority queues

A `PriorityQueue less` holds elements under a comparison `less`, as `std::priority_queue` does: the
top is an element below no other. The elements are kept as a list, top first, and the list's order
is part of the type. Which of two equivalent elements comes first is a choice of this list alone.
-/

/-- `a` may stand nearer to the top than `b`. -/
abbrev NotBelow {α : Type} (less : α → α → Bool) (a b : α) : Prop := less a b = false

/-- A queue under `less`: its elements, each not below the ones after it. -/
structure PriorityQueue {α : Type} (less : α → α → Bool) where
  entries : List α
  ordered : entries.Pairwise (NotBelow less)

namespace PriorityQueue

variable {α : Type} {less : α → α → Bool}

/-- The queue without elements. -/
def empty : PriorityQueue less := ⟨[], List.Pairwise.nil⟩

/-- The element at the top. -/
def top (q : PriorityQueue less) : Option α := q.entries.head?

/-- The queue without its top. -/
def pop (q : PriorityQueue less) : PriorityQueue less :=
  ⟨q.entries.tail, q.ordered.sublist (List.tail_sublist _)⟩

/-- The queue with one more element. -/
def push [Std.Total (NotBelow less)] [IsTrans α (NotBelow less)] (q : PriorityQueue less) (a : α) :
    PriorityQueue less :=
  ⟨q.entries.orderedInsert (NotBelow less) a, List.Pairwise.orderedInsert a _ q.ordered⟩

theorem mem_push [Std.Total (NotBelow less)] [IsTrans α (NotBelow less)]
    {q : PriorityQueue less} {a b : α} : b ∈ (q.push a).entries ↔ b = a ∨ b ∈ q.entries :=
  List.mem_orderedInsert (NotBelow less)

theorem perm_push [Std.Total (NotBelow less)] [IsTrans α (NotBelow less)]
    (q : PriorityQueue less) (a : α) : (q.push a).entries.Perm (a :: q.entries) :=
  List.perm_orderedInsert (NotBelow less) a q.entries

theorem entries_of_top {q : PriorityQueue less} {a : α} (h : q.top = some a) :
    q.entries = a :: q.pop.entries := by
  show q.entries = a :: q.entries.tail
  unfold top at h
  cases hq : q.entries with
  | nil => simp [hq] at h
  | cons b rest =>
    rw [hq] at h
    obtain rfl := Option.some.inj h
    rfl

theorem entries_of_top_eq_none {q : PriorityQueue less} (h : q.top = none) : q.entries = [] :=
  List.head?_eq_none_iff.mp h

/-- Nothing in the queue stands above the top. -/
theorem notBelow_of_top {q : PriorityQueue less} {a : α} (h : q.top = some a) :
    ∀ b ∈ q.pop.entries, NotBelow less a b := by
  have hq := q.ordered
  rw [entries_of_top h] at hq
  exact fun b hb => List.rel_of_pairwise_cons hq hb

end PriorityQueue
