import Runnerd.Library.Table
import Runnerd.ProcessLauncher

/-!
# The process monitor

`process_monitor.h` and `process_monitor.cpp`: the daemon's children, their pipes, and the
settlement of a job once its child has exited and its three pipes have reached the end.

The monitor holds a reference to the daemon's job table and a callback that appends a job id to the
daemon's queue of terminal jobs; both are fields of its state here. The nine members of the source's
`ActiveProcess` that come once for each pipe are one `PipeEnd` for each kind.
-/

namespace Runnerd

open Effect Effect.Prog

abbrev JobTable := Table JobId Job

/-- The daemon's end of one pipe of a job: its descriptor (-1 is `none`), whether it has reached
the end, and what was read. -/
structure PipeEnd where
  fd : Option Fd
  eof : Bool := false
  bytes : Bytes := []
  deriving DecidableEq, Repr

structure TrackedFd where
  jobId : JobId
  kind : ProcessFdKind
  deriving DecidableEq, Repr

structure ActiveProcess where
  pid : Pid
  processGroupId : Pid
  pipe : ProcessFdKind → PipeEnd
  childExited : Bool := false
  waitStatus : WaitStatus := .exited 0

/-- The `JobTable` is the daemon's own; `terminalJobNotifications` is what the callback fills. -/
structure ProcessMonitor where
  sigchldFd : Fd
  jobs : JobTable := ∅
  activeJobs : Table JobId ActiveProcess := ∅
  pidToJob : Table Pid JobId := ∅
  trackedFds : Table Fd TrackedFd := ∅
  terminalJobNotifications : List JobId := []

/-! ## Processes -/

def LaunchedProcess.fd (launched : LaunchedProcess) : ProcessFdKind → Fd
  | .stdout => launched.stdoutFd
  | .stderr => launched.stderrFd
  | .startupError => launched.startupErrorFd

namespace ActiveProcess

/-- The constructor of the source's `ActiveProcess`. -/
def create (launched : LaunchedProcess) : ActiveProcess where
  pid := launched.pid
  processGroupId := launched.processGroupId
  pipe kind := { fd := some (launched.fd kind) }

/-- `append` to the buffer of one pipe. -/
def receive (process : ActiveProcess) (kind : ProcessFdKind) (bytes : Bytes) : ActiveProcess :=
  { process with
    pipe := Function.update process.pipe kind
      { process.pipe kind with bytes := (process.pipe kind).bytes ++ bytes } }

/-- The switch of `closeTrackedFd`. -/
def closePipe (process : ActiveProcess) (kind : ProcessFdKind) : ActiveProcess :=
  { process with
    pipe := Function.update process.pipe kind { process.pipe kind with fd := none, eof := true } }

/-- The child's exit status is known. -/
def exit (process : ActiveProcess) (status : WaitStatus) : ActiveProcess :=
  { process with childExited := true, waitStatus := status }

/-- `standard_output` and `standard_error` replaced. -/
def swapOutput (process : ActiveProcess) (output error : Bytes) : ActiveProcess :=
  { process with
    pipe := fun
      | .stdout => { process.pipe .stdout with bytes := output }
      | .stderr => { process.pipe .stderr with bytes := error }
      | .startupError => process.pipe .startupError }

/-- All that a settlement waits for. -/
def complete (process : ActiveProcess) : Bool :=
  process.childExited && (process.pipe .stdout).eof && (process.pipe .stderr).eof &&
    (process.pipe .startupError).eof

/-- The descriptors still open, in the order of the source's arrays. -/
def openFds (process : ActiveProcess) : List Fd :=
  [(process.pipe .stdout).fd, (process.pipe .stderr).fd,
    (process.pipe .startupError).fd].reduceOption

section Fields

variable (process : ActiveProcess) (kind : ProcessFdKind) (bytes : Bytes) (status : WaitStatus)

@[simp] theorem receive_pid : (process.receive kind bytes).pid = process.pid := rfl
@[simp] theorem receive_processGroupId :
    (process.receive kind bytes).processGroupId = process.processGroupId := rfl
@[simp] theorem receive_childExited :
    (process.receive kind bytes).childExited = process.childExited := rfl
@[simp] theorem receive_waitStatus :
    (process.receive kind bytes).waitStatus = process.waitStatus := rfl
@[simp] theorem closePipe_pid : (process.closePipe kind).pid = process.pid := rfl
@[simp] theorem closePipe_processGroupId :
    (process.closePipe kind).processGroupId = process.processGroupId := rfl
@[simp] theorem closePipe_childExited :
    (process.closePipe kind).childExited = process.childExited := rfl
@[simp] theorem closePipe_waitStatus :
    (process.closePipe kind).waitStatus = process.waitStatus := rfl
@[simp] theorem exit_pid : (process.exit status).pid = process.pid := rfl
@[simp] theorem exit_processGroupId :
    (process.exit status).processGroupId = process.processGroupId := rfl
@[simp] theorem exit_pipe : (process.exit status).pipe = process.pipe := rfl
@[simp] theorem exit_childExited : (process.exit status).childExited = true := rfl
@[simp] theorem exit_waitStatus : (process.exit status).waitStatus = status := rfl

@[simp] theorem receive_fd (k : ProcessFdKind) :
    ((process.receive kind bytes).pipe k).fd = (process.pipe k).fd := by
  unfold receive
  by_cases h : k = kind
  · subst h
    simp
  · simp [h]

@[simp] theorem receive_eof (k : ProcessFdKind) :
    ((process.receive kind bytes).pipe k).eof = (process.pipe k).eof := by
  unfold receive
  by_cases h : k = kind
  · subst h
    simp
  · simp [h]

theorem receive_bytes (k : ProcessFdKind) : ((process.receive kind bytes).pipe k).bytes =
    if k = kind then (process.pipe k).bytes ++ bytes else (process.pipe k).bytes := by
  unfold receive
  by_cases h : k = kind
  · subst h
    simp
  · simp [h]

theorem closePipe_pipe (k : ProcessFdKind) : (process.closePipe kind).pipe k =
    if k = kind then { process.pipe k with fd := none, eof := true } else process.pipe k := by
  unfold closePipe
  by_cases h : k = kind
  · subst h
    simp
  · simp [h]

@[simp] theorem closePipe_bytes (k : ProcessFdKind) :
    ((process.closePipe kind).pipe k).bytes = (process.pipe k).bytes := by
  rw [closePipe_pipe]
  split_ifs <;> rfl

@[simp] theorem swapOutput_fd (output error : Bytes) (k : ProcessFdKind) :
    ((process.swapOutput output error).pipe k).fd = (process.pipe k).fd := by
  cases k <;> rfl

@[simp] theorem swapOutput_eof (output error : Bytes) (k : ProcessFdKind) :
    ((process.swapOutput output error).pipe k).eof = (process.pipe k).eof := by
  cases k <;> rfl

theorem complete_iff : process.complete ↔
    process.childExited ∧ ∀ kind, (process.pipe kind).eof := by
  unfold complete
  simp only [Bool.and_eq_true]
  constructor
  · rintro ⟨⟨⟨hexit, hout⟩, herr⟩, hstart⟩
    refine ⟨hexit, fun kind => ?_⟩
    cases kind <;> assumption
  · rintro ⟨hexit, heof⟩
    exact ⟨⟨⟨hexit, heof _⟩, heof _⟩, heof _⟩

theorem mem_openFds (fd : Fd) : fd ∈ process.openFds ↔ ∃ kind, (process.pipe kind).fd = some fd := by
  unfold openFds List.reduceOption
  simp only [List.mem_filterMap, id_eq, exists_eq_right, List.mem_cons, List.not_mem_nil, or_false]
  constructor
  · rintro (h | h | h)
    · exact ⟨.stdout, h.symm⟩
    · exact ⟨.stderr, h.symm⟩
    · exact ⟨.startupError, h.symm⟩
  · rintro ⟨kind, h⟩
    cases kind with
    | stdout => exact Or.inl h.symm
    | stderr => exact Or.inr (Or.inl h.symm)
    | startupError => exact Or.inr (Or.inr h.symm)

end Fields

end ActiveProcess

namespace ProcessMonitor

variable (K : Kernel)

/-- A computation on the job of this id, found with `jobs_.at`. -/
def withJob {α : Type} (jobId : JobId) (m : Prog Job α) : Prog ProcessMonitor α := fun w =>
  match w.st.jobs.find jobId with
  | none => raise .outOfRange w
  | some job =>
    within (fun _ => job) (fun job t => { t with jobs := t.jobs.set jobId job }) m w

/-- `jobs_.at`, to read. -/
def jobAt (jobId : JobId) : Prog ProcessMonitor Job := fun w =>
  match w.st.jobs.find jobId with
  | none => raise .outOfRange w
  | some job => (.ok job, w)

/-- A change of an entry of `active_jobs_`. -/
def modifyProcess (jobId : JobId) (f : ActiveProcess → ActiveProcess) :
    Prog ProcessMonitor Unit :=
  update fun t =>
    match t.activeJobs.find jobId with
    | none => t
    | some process => { t with activeJobs := t.activeJobs.set jobId (f process) }

/-- `transitionJob` on the job at hand. -/
def enter (target : JobState) : Prog Job Unit := do
  let job ← state
  let job' ← raising (transitionJob job target)
  update fun _ => job'
  emit (.entered job.id target)

/-- Both ids come from `fork` and are positive, so the source's branches for others are left out. -/
def killAndReapProcess (pid processGroupId : Pid) : Prog ProcessMonitor Unit := do
  killDiscarded (.group processGroupId) .SIGKILL
  K.waitForChild pid

def ownsFileDescriptor (t : ProcessMonitor) (fd : Fd) : Bool :=
  fd == t.sigchldFd || (t.trackedFds.find fd).isSome

/-! ## Starting a job -/

def failQueuedJob (message : Bytes) : Prog Job Unit := do
  enter .failed
  update fun job => { job with failureMessage := message }

def registerProcessFd (fd : Fd) (jobId : JobId) (kind : ProcessFdKind) :
    Prog ProcessMonitor Unit := do
  let t ← state
  match t.trackedFds.find fd with
  | some _ => throw (.logicError (text "process fd is already registered"))
  | none =>
    update fun t => { t with trackedFds := t.trackedFds.set fd { jobId, kind } }
    match ← K.epollAdd fd .readable with
    | .ok _ => pure ()
    | .error e =>
      update fun t => { t with trackedFds := t.trackedFds.del fd }
      throw (.systemError e (text "add process pipe to epoll"))

/-- The loop of `abandonStartedJob` over the pipes. -/
def abandonFds : List Fd → Prog ProcessMonitor Unit
  | [] => pure ()
  | fd :: rest => do
    epollDel fd
    update fun t => { t with trackedFds := t.trackedFds.del fd }
    close fd
    abandonFds rest

def abandonStartedJob (jobId : JobId) (message : Bytes) : Prog ProcessMonitor Unit := do
  let t ← state
  match t.activeJobs.find jobId with
  | none => pure ()
  | some process =>
    abandonFds process.openFds
    killAndReapProcess K process.pid process.processGroupId
    update fun t => { t with pidToJob := t.pidToJob.del process.pid }
    update fun t => { t with activeJobs := t.activeJobs.del jobId }
    withJob jobId (do
      enter .failed
      update fun job => { job with failureMessage := message })

/-- The first `try` block of `startJob`: launch a process and hand it to `active_jobs_`. A process
that finds the place taken is closed and reaped by its guard. -/
def launchJob (jobId : JobId) (spec : JobSpec) : Prog ProcessMonitor LaunchedProcess := do
  let launched ← launchProcess K spec
  let t ← state
  match t.activeJobs.find jobId with
  | some _ => do
    closeFds [launched.stdoutFd, launched.stderrFd, launched.startupErrorFd]
    killAndReapProcess K launched.pid launched.processGroupId
    throw (.logicError (text "job already has an active process"))
  | none => do
    update fun t =>
      { t with activeJobs := t.activeJobs.set jobId (ActiveProcess.create launched) }
    emit (.adopted jobId launched.pid launched.stdoutFd launched.stderrFd launched.startupErrorFd)
    return launched

/-- The second `try` block of `startJob`: register the child and its pipes. -/
def monitorJob (jobId : JobId) (launched : LaunchedProcess) : Prog ProcessMonitor Unit := do
  let t ← state
  match t.pidToJob.find launched.pid with
  | some _ => throw (.logicError (text "child pid is already registered"))
  | none =>
    update fun t => { t with pidToJob := t.pidToJob.set launched.pid jobId }
    registerProcessFd K launched.stdoutFd jobId .stdout
    registerProcessFd K launched.stderrFd jobId .stderr
    registerProcessFd K launched.startupErrorFd jobId .startupError
    withJob jobId (enter .running)

def startJob (jobId : JobId) : Prog ProcessMonitor Unit := do
  emit (.starting jobId)
  let job ← jobAt jobId
  if job.state ≠ .queued then raise (.logicError (text "only QUEUED jobs can be started"))
  else
    let launched ← tryCatch (do
        let launched ← launchJob K jobId job.spec
        return some launched)
      fun e => do
        withJob jobId (failQueuedJob (text "launchProcess failed: " ++ e.what K.strerror))
        return none
    match launched with
    | none => pure ()
    | some launched =>
      withJob jobId (update fun job =>
        { job with
          pid := some launched.pid
          processGroupId := some launched.processGroupId })
      tryCatch (monitorJob K jobId launched) fun e =>
        abandonStartedJob K jobId
          (text "failed to monitor child process: " ++ e.what K.strerror)

/-! ## Settlement -/

def startupStageName : ℕ → Bytes
  | 1 => text "parent-death check"
  | 2 => text "PR_SET_PDEATHSIG"
  | 3 => text "setpgid"
  | 4 => text "dup2 stdin"
  | 5 => text "dup2 stdout"
  | 6 => text "dup2 stderr"
  | 7 => text "execve"
  | _ => text "unknown startup stage"

/-- A little-endian `uint32_t`. -/
def readNative32 : Bytes → ℕ
  | [] => 0
  | b :: rest => b.toNat + 256 * readNative32 rest

/-- The message for a `ChildStartupError` read from the pipe: a stage and an `int32_t`. -/
def startupErrorMessage (record : Bytes) : Bytes :=
  let stage := readNative32 (record.take 4)
  let raw := readNative32 (record.drop 4)
  let errorNumber : ℤ := if raw < 2 ^ 31 then raw else raw - 2 ^ 32
  text "child startup failed at " ++ startupStageName stage ++ text ": " ++
    K.strerror errorNumber

/-- `sizeof(ChildStartupError)`. -/
def childStartupErrorSize : ℕ := 8

/-- The wait result of a terminating job. -/
def storeWaitResult : WaitStatus → Prog Job Unit
  | .exited code => update fun job => { job with exitCode := some code }
  | .signaled signal => update fun job => { job with exitSignal := some signal }
  | .other => throw (.logicError (text "terminating job has unexpected waitpid status"))

/-- The switch over the cause of a terminating job. -/
def finalState : TerminationCause → JobState
  | .cancelled => .cancelled
  | .timedOut => .timedOut

/-- The branches of `tryFinalizeJob`, on the job whose process is complete. -/
def settle (process : ActiveProcess) : Prog Job Unit := do
  let job ← state
  if job.state = .terminating then
    match job.terminationCause with
    | none => raise (.logicError (text "terminating job has no termination cause"))
    | some cause => do
      storeWaitResult process.waitStatus
      enter (finalState cause)
  else if (process.pipe .startupError).bytes = [] then
    match process.waitStatus with
    | .exited code =>
      update fun job => { job with exitCode := some code }
      if code = 0 then enter .succeeded
      else
        enter .failed
        update fun job =>
          { job with failureMessage := text "process exited with code " ++ decimal code }
    | .signaled signal =>
      update fun job => { job with exitSignal := some signal }
      enter .failed
      update fun job =>
        { job with failureMessage := text "process terminated by signal " ++ decimal signal }
    | .other =>
      enter .failed
      update fun job => { job with failureMessage := text "unexpected waitpid status" }
  else if (process.pipe .startupError).bytes.length = childStartupErrorSize then
    enter .failed
    update fun job =>
      { job with failureMessage := startupErrorMessage K (process.pipe .startupError).bytes }
  else
    enter .failed
    update fun job => { job with failureMessage := text "malformed child startup error record" }

def tryFinalizeJob (jobId : JobId) : Prog ProcessMonitor Unit := do
  let t ← state
  match t.activeJobs.find jobId with
  | none => pure ()
  | some process =>
    if process.complete = false then pure ()
    else
      let before ← jobAt jobId
      withJob jobId (update fun job =>
        { job with
          standardOutput := (process.pipe .stdout).bytes
          standardError := (process.pipe .stderr).bytes })
      modifyProcess jobId fun process =>
        process.swapOutput before.standardOutput before.standardError
      withJob jobId (settle K process)
      update fun t =>
        { t with
          pidToJob := t.pidToJob.del process.pid
          activeJobs := t.activeJobs.del jobId
          terminalJobNotifications := t.terminalJobNotifications ++ [before.id] }

/-! ## Pipes and children -/

def closeTrackedFd (fd : Fd) : Prog ProcessMonitor Unit := do
  let t ← state
  match t.trackedFds.find fd with
  | none => pure ()
  | some tracked =>
    modifyProcess tracked.jobId fun process => process.closePipe tracked.kind
    epollDel fd
    close fd
    update fun t => { t with trackedFds := t.trackedFds.del fd }

/-- The loop of `drainProcessFd`. -/
def drainLoop (fd : Fd) (tracked : TrackedFd) : Reads → Prog ProcessMonitor Unit
  | .data bytes rest => do
    emit (.received fd bytes)
    modifyProcess tracked.jobId fun process => process.receive tracked.kind bytes
    drainLoop fd tracked rest
  | .interrupted rest => drainLoop fd tracked rest
  | .eof => do
    emit (.reachedEof fd)
    closeTrackedFd fd
  | .again => emit (.called .read)
  | .failed e => do
    emit (.called .read)
    throw (.systemError e (text "read child process pipe"))

def drainProcessFd (fd : Fd) : Prog ProcessMonitor Unit := do
  let t ← state
  match t.trackedFds.find fd with
  | none => pure ()
  | some tracked =>
    match t.activeJobs.find tracked.jobId with
    | none => raise .outOfRange
    | some _ =>
      let log ← history
      drainLoop fd tracked (K.read log fd)

/-- The loop of `finishExitedChildBeforeSignal` over the pipes. -/
def drainFds : List Fd → Prog ProcessMonitor Unit
  | [] => pure ()
  | fd :: rest => do
    drainProcessFd K fd
    drainFds rest

/-- The loop of `reapExitedChildren`. -/
def reapLoop : Reaps → Prog ProcessMonitor Unit
  | .child pid status rest => do
    emit (.reaped pid status)
    let t ← state
    match t.pidToJob.find pid with
    | none => reapLoop rest
    | some jobId =>
      match t.activeJobs.find jobId with
      | none => raise .outOfRange
      | some _ =>
        modifyProcess jobId fun process => process.exit status
        emit (.recorded jobId status)
        tryFinalizeJob K jobId
        reapLoop rest
  | .interrupted rest => reapLoop rest
  | .none => emit (.called .waitpid)
  | .failed e => do
    emit (.called .waitpid)
    if e = .ECHILD then pure () else throw (.systemError e (text "waitpid"))

def reapExitedChildren : Prog ProcessMonitor Unit := do
  let log ← history
  reapLoop K (K.waitAny log)

/-- The loop of `handleSigchld` over the signalfd. -/
def readSignalsLoop : SignalReads → Prog ProcessMonitor Unit
  | .records rest => readSignalsLoop rest
  | .partialRecord => do
    emit (.called .readSignals)
    throw (.runtimeError (text "signalfd returned a partial record"))
  | .interrupted rest => readSignalsLoop rest
  | .eof => do
    emit (.called .readSignals)
    throw (.runtimeError (text "unexpected EOF from signalfd"))
  | .again => emit (.called .readSignals)
  | .failed e => do
    emit (.called .readSignals)
    throw (.systemError e (text "read signalfd"))

def handleSigchld : Prog ProcessMonitor Unit := do
  let log ← history
  readSignalsLoop (K.readSignals log)
  reapExitedChildren K

def handleFileDescriptorEvent (fd : Fd) (eventMask : EventMask) : Prog ProcessMonitor Unit := do
  let t ← state
  if fd = t.sigchldFd then handleSigchld K
  else if ¬ (eventMask.epollin ∨ eventMask.epollhup ∨ eventMask.epollerr) then pure ()
  else
    match t.trackedFds.find fd with
    | none => pure ()
    | some tracked =>
      drainProcessFd K fd
      tryFinalizeJob K tracked.jobId

/-! ## Signals -/

/-- The `waitpid(WNOHANG)` of `finishExitedChildBeforeSignal`, with the process as it leaves
it. -/
def pollChild (jobId : JobId) : Prog ProcessMonitor ActiveProcess := do
  let t ← state
  match t.activeJobs.find jobId with
  | none => raise (.logicError (text "job has no active process before signal"))
  | some process =>
    if process.childExited then return process
    else
      let log ← history
      match (K.waitpid log process.pid).last with
      | .exited status =>
        emit (.reaped process.pid status)
        modifyProcess jobId fun process => process.exit status
        emit (.recorded jobId status)
        return process.exit status
      | .running =>
        emit (.called .waitpid)
        return process
      | .failed e =>
        emit (.called .waitpid)
        if e = .ECHILD then
          raise (.logicError (text "active child was reaped without being recorded"))
        else throw (.systemError e (text "check child before sending signal"))

def finishExitedChildBeforeSignal (jobId : JobId) : Prog ProcessMonitor Bool := do
  let process ← pollChild K jobId
  if process.childExited = false then return false
  else
    drainFds K process.openFds
    tryFinalizeJob K jobId
    let job ← jobAt jobId
    return isTerminal job.state

/-- The guard `process_group_id <= 0` of the source cannot hold of a `Pid`. -/
def sendSignalToProcessGroup (jobId : JobId) (signal : Signal) (operation : Bytes) :
    Prog ProcessMonitor Bool := do
  let t ← state
  match t.activeJobs.find jobId with
  | none => raise (.logicError (text "job has no active process for signal"))
  | some process =>
    let log ← history
    match (K.kill log process.processGroupId signal).last with
    | .ok _ =>
      emit (.signalled jobId process.processGroupId signal)
      return true
    | .error e =>
      if e = .ESRCH then
        emit (.groupGone jobId process.processGroupId signal)
        return false
      else
        emit (.called .kill)
        throw (.systemError e operation)

def requestTerminate (jobId : JobId) (cause : TerminationCause) : Prog ProcessMonitor Bool := do
  let job ← jobAt jobId
  if job.state ≠ .running then raise (.logicError (text "only RUNNING jobs can be terminated"))
  else
    let finished ← finishExitedChildBeforeSignal K jobId
    if finished then return false
    else
      let delivered ← sendSignalToProcessGroup K jobId .SIGTERM
        (text "send SIGTERM to job process group")
      if delivered = false then return false
      else
        withJob jobId (enter .terminating)
        withJob jobId (update fun job => { job with terminationCause := some cause })
        emit (.blamed jobId cause)
        return true

def forceKill (jobId : JobId) : Prog ProcessMonitor Bool := do
  let job ← jobAt jobId
  if job.state ≠ .terminating then
    raise (.logicError (text "only TERMINATING jobs can be force killed"))
  else if job.terminationCause = none then
    raise (.logicError (text "terminating job has no termination cause"))
  else
    let finished ← finishExitedChildBeforeSignal K jobId
    if finished then return false
    else
      sendSignalToProcessGroup K jobId .SIGKILL (text "send SIGKILL to job process group")

end ProcessMonitor

end Runnerd
