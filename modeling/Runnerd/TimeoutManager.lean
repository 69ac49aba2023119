import Runnerd.Library.PriorityQueue
import Runnerd.Library.Table
import Runnerd.Kernel

/-!
# The timeout manager

`timeout_manager.h` and `timeout_manager.cpp`: one deadline for each job, kept in a heap that is
cleaned lazily, and a timerfd set for the earliest one. Time points are nanoseconds of the steady
clock.
-/

namespace Runnerd

open Effect Effect.Prog

/-- A record of the heap. -/
structure DeadlineEntry where
  deadline : ℤ
  jobId : JobId
  generation : ℕ
  deriving DecidableEq, Repr

/-- The comparison `EarlierDeadline` of the heap: `left` stands below `right`. -/
def earlierDeadline (left right : DeadlineEntry) : Bool :=
  if left.deadline ≠ right.deadline then left.deadline > right.deadline
  else left.jobId > right.jobId

theorem notBelow_iff (a b : DeadlineEntry) :
    NotBelow earlierDeadline a b ↔
      a.deadline < b.deadline ∨ a.deadline = b.deadline ∧ a.jobId ≤ b.jobId := by
  unfold NotBelow earlierDeadline
  split_ifs with h
  · simp only [decide_eq_false_iff_not, gt_iff_lt, not_lt, h, false_and, or_false]
    exact ⟨fun hle => lt_of_le_of_ne hle h, le_of_lt⟩
  · rw [not_not] at h
    simp only [decide_eq_false_iff_not, gt_iff_lt, not_lt, h, lt_irrefl, true_and, false_or]

instance : Std.Total (NotBelow earlierDeadline) where
  total a b := by
    simp only [notBelow_iff]
    rcases lt_trichotomy a.deadline b.deadline with h | h | h
    · exact Or.inl (Or.inl h)
    · rcases le_total a.jobId b.jobId with h' | h'
      · exact Or.inl (Or.inr ⟨h, h'⟩)
      · exact Or.inr (Or.inr ⟨h.symm, h'⟩)
    · exact Or.inr (Or.inl h)

instance : IsTrans DeadlineEntry (NotBelow earlierDeadline) where
  trans a b c := by
    simp only [notBelow_iff]
    rintro (h | ⟨h, h'⟩) (g | ⟨g, g'⟩)
    · exact Or.inl (h.trans g)
    · exact Or.inl (g ▸ h)
    · exact Or.inl (h ▸ g)
    · exact Or.inr ⟨h.trans g, h'.trans g'⟩

structure TimeoutManager where
  /-- A `uint64_t`: 0 once the space is used up. -/
  nextGeneration : ℕ := 1
  deadlines : PriorityQueue earlierDeadline := PriorityQueue.empty
  activeGenerations : Table JobId ℕ := ∅

def nanosecondsPerSecond : ℤ := 1000000000

namespace TimeoutManager

variable (K : Kernel)

def isCurrent (t : TimeoutManager) (entry : DeadlineEntry) : Bool :=
  match t.activeGenerations.find entry.jobId with
  | none => false
  | some generation => generation == entry.generation

/-- The loop of `discardStaleEntries`, with fuel for every record of the heap. -/
def discardLoop : ℕ → TimeoutManager → TimeoutManager
  | 0, t => t
  | fuel + 1, t =>
    match t.deadlines.top with
    | none => t
    | some entry =>
      if t.isCurrent entry then t else discardLoop fuel { t with deadlines := t.deadlines.pop }

def discardStaleEntries (t : TimeoutManager) : TimeoutManager :=
  discardLoop t.deadlines.entries.length t

def cancel (t : TimeoutManager) (jobId : JobId) : TimeoutManager :=
  { t with activeGenerations := t.activeGenerations.del jobId }

/-- `timerfd_settime`, repeated while it is interrupted. -/
def setTimer (seconds nanoseconds : ℤ) : Prog TimeoutManager Unit := fun w =>
  match (K.settime w.log).last with
  | .ok _ => (.ok (), w.emit (.armed seconds nanoseconds))
  | .error e => (.error (.systemError e (text "timerfd_settime")), w.emit (.called .settime))

def armToNextDeadline : Prog TimeoutManager Unit := do
  update discardStaleEntries
  let t ← state
  match t.deadlines.top with
  | none => setTimer K 0 0
  | some entry =>
    let now ← K.clockNow
    let remaining := if entry.deadline - now ≤ 0 then 1 else entry.deadline - now
    setTimer K (remaining / nanosecondsPerSecond) (remaining % nanosecondsPerSecond)

def schedule (jobId : JobId) (timeout : JobTimeout) : Prog TimeoutManager Unit := do
  if timeout ≤ 0 then
    throw (.invalidArgument (text "execution timeout must be positive"))
  else
    let t ← state
    if t.nextGeneration = 0 then
      throw (.overflowError (text "timeout generation space exhausted"))
    else
      let generation := t.nextGeneration
      update fun t => { t with nextGeneration := (t.nextGeneration + 1) % 2 ^ 64 }
      let now ← K.clockNow
      let deadline := now + timeout * 1000000
      update fun t => { t with deadlines := t.deadlines.push { deadline, jobId, generation } }
      update fun t => { t with activeGenerations := t.activeGenerations.set jobId generation }
      armToNextDeadline K

/-- The loop that reads the timerfd until it would block. -/
def readTimerLoop : TimerReads → Prog TimeoutManager Unit
  | .expirations rest => readTimerLoop rest
  | .interrupted rest => readTimerLoop rest
  | .again => emit (.called .readTimer)
  | .failed e => do
    emit (.called .readTimer)
    throw (.systemError e (text "read timerfd"))
  | .partialCount => do
    emit (.called .readTimer)
    throw (.runtimeError (text "timerfd returned an unexpected read size"))

/-- The loop of `handleReadable` that takes the due records off the heap, with fuel for every
record. -/
def expireLoop (now : ℤ) : ℕ → TimeoutManager → TimeoutManager × List JobId
  | 0, t => (t, [])
  | fuel + 1, t =>
    match t.deadlines.top with
    | none => (t, [])
    | some entry =>
      if entry.deadline > now then (t, [])
      else
        let t := { t with deadlines := t.deadlines.pop }
        match t.activeGenerations.find entry.jobId with
        | none => expireLoop now fuel t
        | some generation =>
          if generation ≠ entry.generation then expireLoop now fuel t
          else
            let t := { t with activeGenerations := t.activeGenerations.del entry.jobId }
            let (t, expiredJobs) := expireLoop now fuel t.discardStaleEntries
            (t, entry.jobId :: expiredJobs)

def handleReadable : Prog TimeoutManager (List JobId) := do
  let log ← history
  readTimerLoop (K.readTimer log)
  let now ← K.clockNow
  update discardStaleEntries
  let t ← state
  let (t, expiredJobs) := expireLoop now t.deadlines.entries.length t
  update fun _ => t
  armToNextDeadline K
  emit (.expired expiredJobs)
  return expiredJobs

end TimeoutManager

end Runnerd
