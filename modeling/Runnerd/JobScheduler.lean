import Runnerd.Job
import Mathlib.Data.Finset.Card

/-!
# The scheduler

`job_scheduler.h` and `job_scheduler.cpp`: the queue of waiting jobs and the running slots. A call
that throws has changed nothing.
-/

namespace Runnerd

/-- The queue of waiting jobs and the jobs that occupy a slot. -/
structure JobScheduler where
  maxRunning : ℕ
  waitingJobs : List JobId := []
  waitingJobIds : Finset JobId := ∅
  activeJobIds : Finset JobId := ∅
  deriving DecidableEq

namespace JobScheduler

/-- The constructor. -/
def create (maxRunning : ℕ) : Except Exception JobScheduler :=
  if maxRunning = 0 then .error (.invalidArgument (text "max_running must be greater than zero"))
  else .ok { maxRunning }

/-- The insertion into `waiting_job_ids_` finds no duplicate: the guard before it has just
looked. -/
def enqueue (s : JobScheduler) (jobId : JobId) : Except Exception JobScheduler :=
  if jobId = 0 then .error (.invalidArgument (text "job id must be greater than zero"))
  else if jobId ∈ s.waitingJobIds ∨ jobId ∈ s.activeJobIds then
    .error (.logicError (text "job is already scheduled"))
  else
    .ok { s with
      waitingJobIds := insert jobId s.waitingJobIds
      waitingJobs := s.waitingJobs ++ [jobId] }

def takeNextJobToStart (s : JobScheduler) : Except Exception (Option JobId × JobScheduler) :=
  if s.activeJobIds.card ≥ s.maxRunning then .ok (none, s)
  else
    match s.waitingJobs with
    | [] => .ok (none, s)
    | jobId :: rest =>
      if jobId ∈ s.activeJobIds then
        .error (.logicError (text "waiting job already occupies a running slot"))
      else
        .ok (some jobId, { s with
          activeJobIds := insert jobId s.activeJobIds
          waitingJobs := rest
          waitingJobIds := s.waitingJobIds.erase jobId })

def onJobReachedTerminalState (s : JobScheduler) (jobId : JobId) : Except Exception JobScheduler :=
  if jobId ∈ s.activeJobIds then .ok { s with activeJobIds := s.activeJobIds.erase jobId }
  else .error (.logicError (text "terminal job does not occupy a running slot"))

def cancelQueuedJob (s : JobScheduler) (jobId : JobId) : Except Exception (Bool × JobScheduler) :=
  if jobId ∈ s.waitingJobIds then
    if jobId ∈ s.waitingJobs then
      .ok (true, { s with
        waitingJobs := s.waitingJobs.erase jobId
        waitingJobIds := s.waitingJobIds.erase jobId })
    else .error (.logicError (text "waiting job id is missing from FIFO queue"))
  else .ok (false, s)

end JobScheduler

end Runnerd
