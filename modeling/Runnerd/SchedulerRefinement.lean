import Runnerd.JobScheduler
import Runnerd.Library.BoundedFifo
import Mathlib.Data.Set.Card

/-!
# The scheduler as a bounded queue

The scheduler keeps its queue in a deque and in a set, and the slots in a second set, and its calls
change these one after the other. Any sequence of calls, misuse included, is answered as a bounded
queue answers it, and leaves the containers in step.
-/

namespace Runnerd

open Function BoundedFifo

namespace JobScheduler

/-! ## The calls in place -/

/-- A call on the scheduler itself, which a throw leaves as it then is. -/
abbrev InPlace (α : Type) : Type := ExceptT Exception (StateM JobScheduler) α

namespace InPlace

def enqueue (jobId : JobId) : InPlace Unit := do
  if jobId = 0 then throw (.invalidArgument (text "job id must be greater than zero"))
  let s ← get
  if jobId ∈ s.waitingJobIds ∨ jobId ∈ s.activeJobIds then
    throw (.logicError (text "job is already scheduled"))
  modify fun s => { s with waitingJobIds := insert jobId s.waitingJobIds }
  if jobId ∈ s.waitingJobIds then throw (.logicError (text "duplicate waiting job id"))
  modify fun s => { s with waitingJobs := s.waitingJobs ++ [jobId] }

def takeNextJobToStart : InPlace (Option JobId) := do
  let s ← get
  if s.activeJobIds.card ≥ s.maxRunning then return none
  match s.waitingJobs with
  | [] => return none
  | jobId :: rest =>
    modify fun s => { s with activeJobIds := insert jobId s.activeJobIds }
    if jobId ∈ s.activeJobIds then
      throw (.logicError (text "waiting job already occupies a running slot"))
    modify fun s => { s with waitingJobs := rest }
    modify fun s => { s with waitingJobIds := s.waitingJobIds.erase jobId }
    return some jobId

def onJobReachedTerminalState (jobId : JobId) : InPlace Unit := do
  let s ← get
  modify fun s => { s with activeJobIds := s.activeJobIds.erase jobId }
  if jobId ∉ s.activeJobIds then
    throw (.logicError (text "terminal job does not occupy a running slot"))

def cancelQueuedJob (jobId : JobId) : InPlace Bool := do
  let s ← get
  if jobId ∉ s.waitingJobIds then return false
  if jobId ∉ s.waitingJobs then
    throw (.logicError (text "waiting job id is missing from FIFO queue"))
  modify fun s => { s with waitingJobs := s.waitingJobs.erase jobId }
  modify fun s => { s with waitingJobIds := s.waitingJobIds.erase jobId }
  return true

end InPlace

/-- A call that throws has changed nothing. -/
def leaving {α β : Type} (s : JobScheduler) (f : α → β × JobScheduler) :
    Except Exception α → Except Exception β × JobScheduler
  | .ok a => (.ok (f a).1, (f a).2)
  | .error e => (.error e, s)

variable (s : JobScheduler) (jobId : JobId)

theorem inPlace_enqueue :
    (InPlace.enqueue jobId).run s = leaving s (fun s' => ((), s')) (s.enqueue jobId) := by
  unfold InPlace.enqueue enqueue
  by_cases hzero : jobId = 0
  · simp only [if_pos hzero]
    rfl
  simp only [if_neg hzero]
  by_cases hknown : jobId ∈ s.waitingJobIds ∨ jobId ∈ s.activeJobIds
  · simp only [if_pos hknown]
    show (if jobId ∈ s.waitingJobIds ∨ jobId ∈ s.activeJobIds then _ else _ : InPlace Unit).run s = _
    rw [if_pos hknown]
    rfl
  · simp only [if_neg hknown]
    have hnew : jobId ∉ s.waitingJobIds := fun h => hknown (Or.inl h)
    show (if jobId ∈ s.waitingJobIds ∨ jobId ∈ s.activeJobIds then _ else _ : InPlace Unit).run s = _
    rw [if_neg hknown]
    show (if jobId ∈ s.waitingJobIds then _ else _ : InPlace Unit).run
      { s with waitingJobIds := insert jobId s.waitingJobIds } = _
    rw [if_neg hnew]
    rfl

theorem inPlace_takeNextJobToStart :
    InPlace.takeNextJobToStart.run s = leaving s id s.takeNextJobToStart := by
  unfold InPlace.takeNextJobToStart takeNextJobToStart
  show (if s.activeJobIds.card ≥ s.maxRunning then _ else _ : InPlace (Option JobId)).run s = _
  by_cases hfull : s.activeJobIds.card ≥ s.maxRunning
  · rw [if_pos hfull, if_pos hfull]
    rfl
  rw [if_neg hfull, if_neg hfull]
  cases hjobs : s.waitingJobs with
  | nil => rfl
  | cons jobId rest =>
    show (if jobId ∈ s.activeJobIds then _ else _ : InPlace (Option JobId)).run
      { s with activeJobIds := insert jobId s.activeJobIds } = _
    by_cases hactive : jobId ∈ s.activeJobIds
    · simp only [if_pos hactive, Finset.insert_eq_of_mem hactive]
      rfl
    · simp only [if_neg hactive]
      rfl

theorem inPlace_onJobReachedTerminalState :
    (InPlace.onJobReachedTerminalState jobId).run s =
      leaving s (fun s' => ((), s')) (s.onJobReachedTerminalState jobId) := by
  unfold InPlace.onJobReachedTerminalState onJobReachedTerminalState
  show (if jobId ∉ s.activeJobIds then _ else _ : InPlace Unit).run
    { s with activeJobIds := s.activeJobIds.erase jobId } = _
  by_cases hactive : jobId ∈ s.activeJobIds
  · rw [if_neg (not_not.mpr hactive), if_pos hactive]
    rfl
  · rw [if_pos hactive, if_neg hactive]
    simp only [Finset.erase_eq_of_notMem hactive]
    rfl

theorem inPlace_cancelQueuedJob :
    (InPlace.cancelQueuedJob jobId).run s = leaving s id (s.cancelQueuedJob jobId) := by
  unfold InPlace.cancelQueuedJob cancelQueuedJob
  show (if jobId ∉ s.waitingJobIds then _ else _ : InPlace Bool).run s = _
  by_cases hid : jobId ∈ s.waitingJobIds
  · rw [if_neg (not_not.mpr hid), if_pos hid]
    by_cases hjob : jobId ∈ s.waitingJobs
    · simp only [if_neg (not_not.mpr hjob), if_pos hjob]
      rfl
    · simp only [if_pos hjob, if_neg hjob]
      rfl
  · rw [if_pos hid, if_neg hid]
    rfl

/-! ## Sequences of calls -/

inductive Call where
  | enqueue (jobId : JobId)
  | takeNextJobToStart
  | onJobReachedTerminalState (jobId : JobId)
  | cancelQueuedJob (jobId : JobId)
  deriving DecidableEq, Repr

/-- What a call returns or throws. -/
inductive Reply where
  | done
  | job (jobId : Option JobId)
  | found (cancelled : Bool)
  | threw (e : Exception)
  deriving DecidableEq, Repr

def reply {α : Type} (f : α → Reply) : Except Exception α → Reply
  | .ok a => f a
  | .error e => .threw e

/-- One call: its reply, and the scheduler after it. -/
def call : Call → Reply × JobScheduler
  | .enqueue jobId => ((InPlace.enqueue jobId).run s).map (reply fun _ => .done) id
  | .takeNextJobToStart => (InPlace.takeNextJobToStart.run s).map (reply .job) id
  | .onJobReachedTerminalState jobId =>
    ((InPlace.onJobReachedTerminalState jobId).run s).map (reply fun _ => .done) id
  | .cancelQueuedJob jobId => ((InPlace.cancelQueuedJob jobId).run s).map (reply .found) id

/-- Calls one after the other, each with its reply, and the scheduler after them. -/
def serve : JobScheduler → List Call → List (Call × Reply) × JobScheduler
  | s, [] => ([], s)
  | s, c :: calls =>
    ((c, (s.call c).1) :: (serve (s.call c).2 calls).1, (serve (s.call c).2 calls).2)

/-- What a reply says has happened to the queue. -/
def event : Call × Reply → Option (BoundedFifo.Event JobId)
  | (.enqueue jobId, .done) => some (.enqueued jobId)
  | (.takeNextJobToStart, .job (some jobId)) => some (.taken jobId)
  | (.onJobReachedTerminalState jobId, .done) => some (.released jobId)
  | (.cancelQueuedJob jobId, .found true) => some (.cancelled jobId)
  | _ => none

/-- What the replies so far say of the queue. -/
def register (history : List (Call × Reply)) : Register JobId :=
  (history.filterMap event).foldl Register.step {}

theorem takeNextJobToStart_none {s s' : JobScheduler}
    (h : s.takeNextJobToStart = .ok (none, s')) : s' = s := by
  unfold takeNextJobToStart at h
  split_ifs at h with hfull
  · exact (Prod.mk.inj (Except.ok.inj h)).2.symm
  · cases hjobs : s.waitingJobs with
    | nil =>
      rw [hjobs] at h
      exact (Prod.mk.inj (Except.ok.inj h)).2.symm
    | cons jobId rest =>
      rw [hjobs] at h
      simp only at h
      split_ifs at h
      cases h

theorem cancelQueuedJob_false {s s' : JobScheduler} {jobId : JobId}
    (h : s.cancelQueuedJob jobId = .ok (false, s')) : s' = s := by
  unfold cancelQueuedJob at h
  split_ifs at h
  · cases h
  · exact (Prod.mk.inj (Except.ok.inj h)).2.symm

/-! ## Refinement -/

/-- The scheduler stands for the queue that the replies so far describe. -/
structure Refines (capacity : ℕ) (s : JobScheduler) (r : Register JobId) : Prop where
  slots : s.maxRunning = capacity
  line : r.Line s.waitingJobs
  ids : ∀ j, j ∈ s.waitingJobIds ↔ j ∈ s.waitingJobs
  active : ∀ j, j ∈ s.activeJobIds ↔ r.place j = some .active
  positive : 0 ∉ s.waitingJobs
  bounded : s.activeJobIds.card ≤ capacity

variable {s : JobScheduler} {jobId : JobId} {capacity : ℕ} {r : Register JobId}

theorem Refines.waiting (h : Refines capacity s r) (j : JobId) :
    j ∈ s.waitingJobIds ↔ r.place j = some .waiting := (h.ids j).trans (h.line.mem j)

theorem Refines.free_iff (h : Refines capacity s r) :
    r.Free capacity ↔ s.activeJobIds.card < capacity := by
  have hset : {j | r.place j = some .active} = (s.activeJobIds : Set JobId) := by
    ext j
    exact (h.active j).symm
  unfold Register.Free
  rw [hset, Set.ncard_coe_finset]

/-- The slots when an item that is not in one gets another place. -/
theorem Refines.active_update (h : Refines capacity s r) {place : Place} (hplace : place ≠ .active)
    (hjob : r.place jobId ≠ some .active) (j : JobId) :
    j ∈ s.activeJobIds ↔ update r.place jobId (some place) j = some .active := by
  rw [h.active]
  by_cases hj : j = jobId
  · subst hj
    rw [update_self]
    exact iff_of_false hjob fun heq => hplace (Option.some.inj heq)
  · rw [update_of_ne hj]

theorem refines_create (hcreate : create capacity = .ok s) : Refines capacity s {} := by
  unfold create at hcreate
  split_ifs at hcreate
  obtain rfl := Except.ok.inj hcreate
  exact ⟨rfl, Register.line_nil, fun j => by simp, fun j => by simp, by simp, Nat.zero_le _⟩

theorem Refines.enqueue (h : Refines capacity s r) {s' : JobScheduler}
    (hcall : s.enqueue jobId = .ok s') :
    r.Outside jobId ∧ Refines capacity s' (r.step (.enqueued jobId)) := by
  unfold JobScheduler.enqueue at hcall
  split_ifs at hcall with hzero hknown
  obtain rfl := Except.ok.inj hcall
  obtain ⟨hwaiting, hactive⟩ := not_or.mp hknown
  have houtside : r.Outside jobId :=
    ⟨(h.waiting jobId).not.mp hwaiting, (h.active jobId).not.mp hactive⟩
  refine ⟨houtside, h.slots, h.line.enqueued houtside, fun j => ?_, ?_, ?_, h.bounded⟩
  · simp only [Finset.mem_insert, List.mem_append, List.mem_singleton, h.ids]
    exact or_comm
  · exact h.active_update (by simp) houtside.2
  · intro hmem
    obtain hmem | hmem := List.mem_append.mp hmem
    · exact h.positive hmem
    · exact hzero (List.mem_singleton.mp hmem).symm

/-- Nothing is taken exactly when nothing waits or no slot is free. -/
theorem Refines.take_none_iff (h : Refines capacity s r) :
    (∃ s', s.takeNextJobToStart = .ok (none, s')) ↔
      s.waitingJobs = [] ∨ s.activeJobIds.card = capacity := by
  unfold JobScheduler.takeNextJobToStart
  by_cases hfull : s.activeJobIds.card ≥ s.maxRunning
  · rw [if_pos hfull]
    refine iff_of_true ⟨s, rfl⟩ (Or.inr (le_antisymm h.bounded ?_))
    rw [← h.slots]
    exact hfull
  · rw [if_neg hfull]
    rw [h.slots] at hfull
    cases hjobs : s.waitingJobs with
    | nil => exact iff_of_true ⟨s, rfl⟩ (Or.inl rfl)
    | cons jobId rest =>
      refine iff_of_false ?_ ?_
      · rintro ⟨s', hcall⟩
        simp only at hcall
        split_ifs at hcall
        cases hcall
      · rintro (hnil | hcard)
        · cases hnil
        · omega

theorem Refines.take (h : Refines capacity s r) {s' : JobScheduler}
    (hcall : s.takeNextJobToStart = .ok (some jobId, s')) :
    r.Free capacity ∧ r.Next jobId ∧ Refines capacity s' (r.step (.taken jobId)) := by
  unfold JobScheduler.takeNextJobToStart at hcall
  by_cases hfull : s.activeJobIds.card ≥ s.maxRunning
  · rw [if_pos hfull] at hcall
    cases hcall
  rw [if_neg hfull] at hcall
  rw [h.slots] at hfull
  have hline := h.line
  have hids := h.ids
  have hpositive := h.positive
  cases hjobs : s.waitingJobs with
  | nil =>
    rw [hjobs] at hcall
    cases hcall
  | cons j rest =>
    rw [hjobs] at hcall hline hids hpositive
    simp only at hcall
    split_ifs at hcall with hactive
    obtain ⟨hj, rfl⟩ := Prod.mk.inj (Except.ok.inj hcall)
    obtain rfl := Option.some.inj hj
    obtain ⟨hnot, -⟩ := List.nodup_cons.mp hline.nodup
    refine ⟨h.free_iff.mpr (by omega), hline.next, h.slots, hline.taken, fun k => ?_, fun k => ?_,
      fun hmem => hpositive (List.mem_cons_of_mem j hmem), ?_⟩
    · simp only [Finset.mem_erase, hids, List.mem_cons]
      constructor
      · rintro ⟨hne, heq | hmem⟩
        · exact absurd heq hne
        · exact hmem
      · exact fun hmem => ⟨fun heq => hnot (heq ▸ hmem), Or.inr hmem⟩
    · show k ∈ insert j s.activeJobIds ↔ update r.place j (some .active) k = some .active
      by_cases hk : k = j
      · subst hk
        simp
      · rw [update_of_ne hk, ← h.active k, Finset.mem_insert, or_iff_right hk]
    · show (insert j s.activeJobIds).card ≤ capacity
      rw [Finset.card_insert_of_notMem hactive]
      omega

theorem Refines.release (h : Refines capacity s r) {s' : JobScheduler}
    (hcall : s.onJobReachedTerminalState jobId = .ok s') :
    r.place jobId = some .active ∧ Refines capacity s' (r.step (.released jobId)) := by
  unfold JobScheduler.onJobReachedTerminalState at hcall
  split_ifs at hcall with hactive
  obtain rfl := Except.ok.inj hcall
  have hplace := (h.active jobId).mp hactive
  refine ⟨hplace, h.slots, h.line.released hplace, h.ids, fun k => ?_, h.positive, ?_⟩
  · show k ∈ s.activeJobIds.erase jobId ↔ update r.place jobId (some .released) k = some .active
    by_cases hk : k = jobId
    · subst hk
      simp
    · rw [update_of_ne hk, ← h.active k, Finset.mem_erase, and_iff_right hk]
  · exact (Finset.card_erase_le).trans h.bounded

theorem Refines.cancel (h : Refines capacity s r) {s' : JobScheduler}
    (hcall : s.cancelQueuedJob jobId = .ok (true, s')) :
    r.place jobId = some .waiting ∧ s'.waitingJobs = s.waitingJobs.erase jobId ∧
      Refines capacity s' (r.step (.cancelled jobId)) := by
  unfold JobScheduler.cancelQueuedJob at hcall
  split_ifs at hcall with hid hjob
  · obtain ⟨-, rfl⟩ := Prod.mk.inj (Except.ok.inj hcall)
    have hplace := (h.waiting jobId).mp hid
    refine ⟨hplace, rfl, h.slots, h.line.cancelled hplace, fun k => ?_, ?_, ?_, h.bounded⟩
    · show k ∈ s.waitingJobIds.erase jobId ↔ k ∈ s.waitingJobs.erase jobId
      rw [Finset.mem_erase, h.line.nodup.mem_erase_iff, h.ids]
    · exact h.active_update (by simp) (by rw [hplace]; simp)
    · exact fun hmem => h.positive (List.mem_of_mem_erase hmem)
  · cases hcall

/-- The queue after a reply. -/
def stepReply (r : Register JobId) (answered : Call × Reply) : Register JobId :=
  match event answered with
  | some e => r.step e
  | none => r

/-- A reply is one that the queue allows, and the scheduler then stands for the queue after it. -/
structure Answered (capacity : ℕ) (s : JobScheduler) (r : Register JobId) (c : Call) : Prop where
  allowed : ∀ e ∈ event (c, (s.call c).1), r.Allowed capacity e
  refines : Refines capacity (s.call c).2 (stepReply r (c, (s.call c).1))
  refused : ((∃ e, (s.call c).1 = .threw e) ∨ (s.call c).1 = .found false) → (s.call c).2 = s

/-- A reply that changes nothing. -/
theorem Refines.unchanged (h : Refines capacity s r) {c : Call} {answer : Reply}
    (hcall : s.call c = (answer, s)) (hevent : event (c, answer) = none) :
    Answered capacity s r c where
  allowed e he := by
    rw [hcall, hevent] at he
    cases he
  refines := by
    unfold stepReply
    rw [hcall]
    simp only [hevent]
    exact h
  refused _ := by rw [hcall]

/-- A reply that moves a job. -/
theorem answered_of_event {s' : JobScheduler} {c : Call} {answer : Reply}
    {e : BoundedFifo.Event JobId} (hcall : s.call c = (answer, s'))
    (hevent : event (c, answer) = some e) (hallowed : r.Allowed capacity e)
    (hrefines : Refines capacity s' (r.step e)) : Answered capacity s r c where
  allowed e' he := by
    rw [hcall, hevent] at he
    rwa [← Option.some.inj he]
  refines := by
    unfold stepReply
    rw [hcall]
    simp only [hevent]
    exact hrefines
  refused hrefused := by
    rw [hcall] at hrefused
    obtain ⟨e', rfl⟩ | rfl := hrefused <;> cases c <;> cases hevent

theorem Refines.answered (h : Refines capacity s r) (c : Call) : Answered capacity s r c := by
  cases c with
  | enqueue jobId =>
    have hcall : s.call (.enqueue jobId) = _ :=
      congrArg (Prod.map (reply fun _ => Reply.done) id) (inPlace_enqueue s jobId)
    cases hresult : s.enqueue jobId with
    | error e =>
      rw [hresult] at hcall
      exact h.unchanged hcall rfl
    | ok s' =>
      rw [hresult] at hcall
      obtain ⟨houtside, hrefines⟩ := h.enqueue hresult
      exact answered_of_event hcall rfl houtside hrefines
  | takeNextJobToStart =>
    have hcall : s.call .takeNextJobToStart = _ :=
      congrArg (Prod.map (reply Reply.job) id) (inPlace_takeNextJobToStart s)
    rcases hresult : s.takeNextJobToStart with e | ⟨_ | jobId, s'⟩
    · rw [hresult] at hcall
      exact h.unchanged hcall rfl
    · obtain rfl := takeNextJobToStart_none hresult
      rw [hresult] at hcall
      exact h.unchanged hcall rfl
    · rw [hresult] at hcall
      obtain ⟨hfree, hnext, hrefines⟩ := h.take hresult
      exact answered_of_event hcall rfl ⟨hfree, hnext⟩ hrefines
  | onJobReachedTerminalState jobId =>
    have hcall : s.call (.onJobReachedTerminalState jobId) = _ :=
      congrArg (Prod.map (reply fun _ => Reply.done) id) (inPlace_onJobReachedTerminalState s jobId)
    cases hresult : s.onJobReachedTerminalState jobId with
    | error e =>
      rw [hresult] at hcall
      exact h.unchanged hcall rfl
    | ok s' =>
      rw [hresult] at hcall
      obtain ⟨hactive, hrefines⟩ := h.release hresult
      exact answered_of_event hcall rfl hactive hrefines
  | cancelQueuedJob jobId =>
    have hcall : s.call (.cancelQueuedJob jobId) = _ :=
      congrArg (Prod.map (reply Reply.found) id) (inPlace_cancelQueuedJob s jobId)
    rcases hresult : s.cancelQueuedJob jobId with e | ⟨_ | _, s'⟩
    · rw [hresult] at hcall
      exact h.unchanged hcall rfl
    · obtain rfl := cancelQueuedJob_false hresult
      rw [hresult] at hcall
      exact h.unchanged hcall rfl
    · rw [hresult] at hcall
      obtain ⟨hwaiting, -, hrefines⟩ := h.cancel hresult
      exact answered_of_event hcall rfl hwaiting hrefines

/-! ## When a call is granted -/

/-- The scheduler grants what the queue allows: a job that is neither waiting nor in a slot is put in,
unless its id is 0; a job is taken, released or cancelled wherever that is possible. -/
structure Grants (capacity : ℕ) (s : JobScheduler) (r : Register JobId) : Prop where
  enqueues : ∀ j, (s.call (.enqueue j)).1 = .done ↔ j ≠ 0 ∧ r.Allowed capacity (.enqueued j)
  takes : ∀ j, (s.call .takeNextJobToStart).1 = .job (some j) ↔ r.Allowed capacity (.taken j)
  releases : ∀ j, (s.call (.onJobReachedTerminalState j)).1 = .done ↔
    r.Allowed capacity (.released j)
  cancels : ∀ j, (s.call (.cancelQueuedJob j)).1 = .found true ↔ r.Allowed capacity (.cancelled j)

theorem reply_done_iff {α : Type} {x : Except Exception α} :
    reply (fun _ => Reply.done) x = .done ↔ ∃ a, x = .ok a := by
  cases x with
  | ok a => exact iff_of_true rfl ⟨a, rfl⟩
  | error e =>
    refine iff_of_false (fun h => ?_) fun ⟨a, h⟩ => ?_
    · cases h
    · cases h

theorem Refines.enqueues (h : Refines capacity s r) (j : JobId) :
    (s.call (.enqueue j)).1 = .done ↔ j ≠ 0 ∧ r.Outside j := by
  have hcall : s.call (.enqueue j) = _ :=
    congrArg (Prod.map (reply fun _ => Reply.done) id) (inPlace_enqueue s j)
  have hreply : (s.call (.enqueue j)).1 = reply (fun _ => Reply.done) (s.enqueue j) := by
    rw [hcall]
    cases s.enqueue j <;> rfl
  have houtside : r.Outside j ↔ ¬ (j ∈ s.waitingJobIds ∨ j ∈ s.activeJobIds) := by
    rw [not_or, h.waiting, h.active]
    rfl
  rw [hreply, reply_done_iff, houtside]
  unfold JobScheduler.enqueue
  split_ifs with hzero hknown
  · exact iff_of_false (fun ⟨_, h⟩ => by cases h) fun h => h.1 hzero
  · exact iff_of_false (fun ⟨_, h⟩ => by cases h) fun h => h.2 hknown
  · exact iff_of_true ⟨_, rfl⟩ ⟨hzero, hknown⟩

theorem Refines.takes (h : Refines capacity s r) (j : JobId) :
    (s.call .takeNextJobToStart).1 = .job (some j) ↔ Register.Free capacity r ∧ r.Next j := by
  have hcall : s.call .takeNextJobToStart = _ :=
    congrArg (Prod.map (reply Reply.job) id) (inPlace_takeNextJobToStart s)
  rw [hcall]
  constructor
  · rcases hresult : s.takeNextJobToStart with e | ⟨jobId, s'⟩
    · intro hreply
      cases hreply
    · intro hreply
      have hreply : Reply.job jobId = .job (some j) := hreply
      obtain rfl := Reply.job.inj hreply
      obtain ⟨hfree, hnext, -⟩ := h.take hresult
      exact ⟨hfree, hnext⟩
  · rintro ⟨hfree, hnext⟩
    have hslot : ¬ s.activeJobIds.card ≥ s.maxRunning := by
      rw [h.slots]
      exact not_le.mpr (h.free_iff.mp hfree)
    have hline := h.line
    unfold JobScheduler.takeNextJobToStart
    rw [if_neg hslot]
    cases hjobs : s.waitingJobs with
    | nil =>
      have hmem := (hline.mem j).mpr hnext.1
      rw [hjobs] at hmem
      cases hmem
    | cons k rest =>
      rw [hjobs] at hline
      obtain rfl := hline.eq_head hnext
      have hactive : j ∉ s.activeJobIds := by
        rw [h.active, hnext.1]
        simp
      simp only [if_neg hactive]
      rfl

theorem Refines.releases (h : Refines capacity s r) (j : JobId) :
    (s.call (.onJobReachedTerminalState j)).1 = .done ↔ r.place j = some .active := by
  have hcall : s.call (.onJobReachedTerminalState j) = _ :=
    congrArg (Prod.map (reply fun _ => Reply.done) id) (inPlace_onJobReachedTerminalState s j)
  have hreply : (s.call (.onJobReachedTerminalState j)).1 =
      reply (fun _ => Reply.done) (s.onJobReachedTerminalState j) := by
    rw [hcall]
    cases s.onJobReachedTerminalState j <;> rfl
  rw [hreply, reply_done_iff, ← h.active]
  unfold JobScheduler.onJobReachedTerminalState
  split_ifs with hactive
  · exact iff_of_true ⟨_, rfl⟩ hactive
  · exact iff_of_false (fun ⟨_, h⟩ => by cases h) hactive

/-- A queued job is found in the queue, and only a queued one. -/
theorem Refines.call_cancel (h : Refines capacity s r) (j : JobId) :
    (s.call (.cancelQueuedJob j)).1 = .found (decide (r.place j = some .waiting)) := by
  have hcall : s.call (.cancelQueuedJob j) = _ :=
    congrArg (Prod.map (reply Reply.found) id) (inPlace_cancelQueuedJob s j)
  rw [hcall]
  unfold JobScheduler.cancelQueuedJob
  by_cases hid : j ∈ s.waitingJobIds
  · rw [if_pos hid, if_pos ((h.ids j).mp hid), decide_eq_true ((h.waiting j).mp hid)]
    rfl
  · rw [if_neg hid, decide_eq_false ((h.waiting j).not.mp hid)]
    rfl

theorem Refines.grants (h : Refines capacity s r) : Grants capacity s r where
  enqueues := h.enqueues
  takes := h.takes
  releases := h.releases
  cancels j := by
    rw [h.call_cancel, Reply.found.injEq, decide_eq_true_iff]
    rfl

/-! ## Whole runs -/

theorem register_concat (before : List (Call × Reply)) (answered : Call × Reply) :
    register (before ++ [answered]) = stepReply (register before) answered := by
  unfold register stepReply
  rw [List.filterMap_append, List.foldl_append, List.filterMap_cons, List.filterMap_nil]
  cases event answered <;> rfl

theorem event_eq_enqueued {answered : Call × Reply} :
    event answered = some (.enqueued jobId) ↔ answered = (.enqueue jobId, .done) := by
  constructor
  · rcases answered with ⟨c, answer⟩
    intro h
    cases c with
    | enqueue =>
      cases answer <;> cases h
      rfl
    | takeNextJobToStart => rcases answer with _ | (_ | _) | (_ | _) | _ <;> cases h
    | onJobReachedTerminalState => cases answer <;> cases h
    | cancelQueuedJob => rcases answer with _ | (_ | _) | (_ | _) | _ <;> cases h
  · rintro rfl
    rfl

/-- A job has a place once it was put in. -/
theorem place_stepReply {answered : Call × Reply}
    (hallowed : ∀ e ∈ event answered, r.Allowed capacity e) :
    (stepReply r answered).place jobId ≠ none ↔
      r.place jobId ≠ none ∨ answered = (.enqueue jobId, .done) := by
  rw [← event_eq_enqueued]
  unfold stepReply
  cases hevent : event answered with
  | none => simp
  | some e =>
    have hallowed := hallowed e hevent
    -- an event moves a job that has a place, unless it gives it one
    have hupdate : ∀ {k : JobId} {place : Place}, r.place k ≠ none →
        (update r.place k (some place) jobId ≠ none ↔ r.place jobId ≠ none) := by
      intro k place hk
      by_cases heq : jobId = k
      · subst heq
        rw [update_self]
        exact iff_of_true (by simp) hk
      · rw [update_of_ne heq]
    cases e with
    | enqueued k =>
      show update r.place k (some .waiting) jobId ≠ none ↔ _
      by_cases heq : jobId = k
      · subst heq
        simp
      · rw [update_of_ne heq, or_iff_left]
        simp [Ne.symm heq]
    | taken k =>
      show update r.place k (some .active) jobId ≠ none ↔ _
      rw [hupdate (by rw [hallowed.2.1]; simp), or_iff_left (by simp)]
    | cancelled k =>
      show update r.place k (some .cancelled) jobId ≠ none ↔ _
      rw [hupdate (by rw [show r.place k = some .waiting from hallowed]; simp),
        or_iff_left (by simp)]
    | released k =>
      show update r.place k (some .released) jobId ≠ none ↔ _
      rw [hupdate (by rw [show r.place k = some .active from hallowed]; simp),
        or_iff_left (by simp)]

/-- What any calls keep. -/
theorem Refines.serve (calls : List Call) {before : List (Call × Reply)}
    (h : Refines capacity s (register before))
    (hknown : ∀ j, (register before).place j ≠ none ↔ (.enqueue j, .done) ∈ before) :
    Refines capacity (s.serve calls).2 (register (before ++ (s.serve calls).1)) ∧
      ∀ j, (register (before ++ (s.serve calls).1)).place j ≠ none ↔
        (.enqueue j, .done) ∈ before ++ (s.serve calls).1 := by
  induction calls generalizing s before with
  | nil =>
    rw [JobScheduler.serve, List.append_nil]
    exact ⟨h, hknown⟩
  | cons c calls ih =>
    have hanswered := h.answered c
    have hnext := hanswered.refines
    rw [← register_concat] at hnext
    have htail := ih hnext fun j => by
      rw [register_concat, place_stepReply hanswered.allowed, hknown j, List.mem_append,
        List.mem_singleton, @eq_comm _ (c, _)]
    rwa [List.append_assoc, List.singleton_append] at htail

/-- The scheduler after any calls is the bounded queue that its replies describe. It answers the next
call as that queue allows, and grants it wherever that queue does. -/
structure Faithful (capacity : ℕ) (history : List (Call × Reply)) (s : JobScheduler) : Prop where
  nodup : s.waitingJobs.Nodup
  positive : 0 ∉ s.waitingJobs
  ids : s.waitingJobIds = s.waitingJobs.toFinset
  disjoint : Disjoint s.waitingJobIds s.activeJobIds
  bounded : s.activeJobIds.card ≤ capacity
  /-- The tickets of the jobs taken and of those waiting increase, and each ticket issued belongs to
  one job taken, waiting or cancelled. -/
  line : (register history).Line s.waitingJobs
  /-- Each job once put in is in one place, and the containers show it. -/
  known : ∀ j, (register history).place j ≠ none ↔ (Call.enqueue j, Reply.done) ∈ history
  waiting : ∀ j, j ∈ s.waitingJobIds ↔ (register history).place j = some .waiting
  active : ∀ j, j ∈ s.activeJobIds ↔ (register history).place j = some .active
  answered : ∀ c, ∀ e ∈ event (c, (s.call c).1), (register history).Allowed capacity e
  full : (s.call .takeNextJobToStart).1 = .job none ↔
    s.waitingJobs = [] ∨ s.activeJobIds.card = capacity
  granted : Grants capacity s (register history)
  calm : ∀ e, (s.call .takeNextJobToStart).1 ≠ .threw e ∧
    ∀ j, (s.call (.cancelQueuedJob j)).1 ≠ .threw e
  refused : ∀ c, ((∃ e, (s.call c).1 = .threw e) ∨ (s.call c).1 = .found false) → (s.call c).2 = s

theorem Refines.call_take (h : Refines capacity s r) :
    ((s.call .takeNextJobToStart).1 = .job none ↔
      s.waitingJobs = [] ∨ s.activeJobIds.card = capacity) ∧
    ∀ e, (s.call .takeNextJobToStart).1 ≠ .threw e := by
  have hcall : s.call .takeNextJobToStart = _ :=
    congrArg (Prod.map (reply Reply.job) id) (inPlace_takeNextJobToStart s)
  rw [hcall, ← h.take_none_iff]
  rcases hresult : s.takeNextJobToStart with e | ⟨jobId, s'⟩
  · -- the first that waits has no slot
    unfold JobScheduler.takeNextJobToStart at hresult
    split_ifs at hresult
    cases hjobs : s.waitingJobs with
    | nil =>
      rw [hjobs] at hresult
      cases hresult
    | cons j rest =>
      rw [hjobs] at hresult
      simp only at hresult
      split_ifs at hresult with hactive
      have hwaiting := (h.line.mem j).mp (by rw [hjobs]; exact List.mem_cons_self)
      rw [(h.active j).mp hactive] at hwaiting
      cases hwaiting
  · refine ⟨⟨fun hnone => ⟨s', ?_⟩, ?_⟩, fun e he => by cases he⟩
    · have hnone : Reply.job jobId = .job none := hnone
      rw [Reply.job.inj hnone]
    · rintro ⟨s'', hnone⟩
      rw [(Prod.mk.inj (Except.ok.inj hnone)).1]
      rfl

/-- Whatever is called, in whatever order, the scheduler is a queue in front of `maxRunning` slots. -/
theorem refinesBoundedFifo (hcreate : create capacity = .ok s) (calls : List Call) :
    Faithful capacity (s.serve calls).1 (s.serve calls).2 := by
  obtain ⟨h, hknown⟩ := @Refines.serve s capacity calls [] (refines_create hcreate) fun j => by
    simp [register]
  rw [List.nil_append] at h hknown
  refine ⟨h.line.nodup, h.positive, ?_, ?_, h.bounded, h.line, hknown, h.waiting, h.active,
    fun c => (h.answered c).allowed, h.call_take.1, h.grants,
    fun e => ⟨h.call_take.2 e, fun j => ?_⟩, fun c => (h.answered c).refused⟩
  · ext j
    rw [h.ids, List.mem_toFinset]
  · refine Finset.disjoint_left.mpr fun j hwaiting hactive => ?_
    have hplace := (h.waiting j).mp hwaiting
    rw [(h.active j).mp hactive] at hplace
    cases hplace
  · rw [h.call_cancel]
    simp

/-- Two slots; a job is cancelled while it waits, and put in again. -/
theorem refinesBoundedFifo_two : ∃ s, create 2 = .ok s ∧ Faithful 2
    (s.serve [.enqueue 3, .enqueue 1, .enqueue 2, .cancelQueuedJob 1, .takeNextJobToStart,
      .enqueue 1, .enqueue 0, .takeNextJobToStart, .takeNextJobToStart]).1
    (s.serve [.enqueue 3, .enqueue 1, .enqueue 2, .cancelQueuedJob 1, .takeNextJobToStart,
      .enqueue 1, .enqueue 0, .takeNextJobToStart, .takeNextJobToStart]).2 :=
  ⟨_, rfl, refinesBoundedFifo rfl _⟩

end JobScheduler

end Runnerd
