import Runnerd.Library.Effect
import Runnerd.Job

/-!
# The kernel and the history of a run

The daemon's environment is a `Kernel`: an arbitrary function from the history of the run to the
results of the next system call. Every outcome of every call, in every order, is the outcome under
some kernel, so a theorem about all kernels is a theorem about all behaviours of clients, children
and clock.

A call that the source repeats in a loop is asked for once: its answer lists the results of the
repetitions up to the one that ends the loop (`Reads`, `Reaps` and so on), and the model's loop
recurses over that list.

The history (`Event`) records what a call did to descriptors and processes, and marks of what the
daemon itself does (a job started, a transition, a cause recorded). No function reads a mark.
-/

namespace Runnerd

open Effect Effect.Prog

/-! ## Results of system calls -/

/-- The results of a call repeated while it fails with `EINTR`. -/
inductive Retried (α : Type) where
  | interrupted (rest : Retried α)
  | done (result : α)
  deriving DecidableEq, Repr

/-- The result the repetition ends with. -/
def Retried.last {α : Type} : Retried α → α
  | .interrupted rest => rest.last
  | .done result => result

/-- The results of `read` on a pipe or a socket, up to the one that ends the loop. -/
inductive Reads where
  | data (bytes : Bytes) (rest : Reads)
  | interrupted (rest : Reads)
  | eof
  | again
  | failed (errno : Errno)
  deriving DecidableEq, Repr

/-- The results of `write` on a socket. -/
inductive Writes where
  | wrote (count : ℕ) (rest : Writes)
  | interrupted (rest : Writes)
  | again
  | failed
  deriving DecidableEq, Repr

/-- The results of `read` on the timerfd. -/
inductive TimerReads where
  | expirations (rest : TimerReads)
  | interrupted (rest : TimerReads)
  | again
  | failed (errno : Errno)
  | partialCount
  deriving DecidableEq, Repr

/-- The results of `read` on the signalfd. -/
inductive SignalReads where
  | records (rest : SignalReads)
  | partialRecord
  | interrupted (rest : SignalReads)
  | eof
  | again
  | failed (errno : Errno)
  deriving DecidableEq, Repr

/-- The result of `waitpid(pid, WNOHANG)`. -/
inductive Waited where
  | exited (status : WaitStatus)
  | running
  | failed (errno : Errno)
  deriving DecidableEq, Repr

/-- The results of `waitpid(-1, WNOHANG)`. -/
inductive Reaps where
  | child (pid : Pid) (status : WaitStatus) (rest : Reaps)
  | interrupted (rest : Reaps)
  | none
  | failed (errno : Errno)
  deriving DecidableEq, Repr

/-- The results of `accept4`. -/
inductive Accepts where
  | client (fd : Fd) (rest : Accepts)
  | interrupted (rest : Accepts)
  | again
  | failed (errno : Errno)
  deriving DecidableEq, Repr

/-- The event mask of an `epoll_event`. -/
structure EventMask where
  epollin : Bool := false
  epollout : Bool := false
  epollrdhup : Bool := false
  epollhup : Bool := false
  epollerr : Bool := false
  deriving DecidableEq, Repr

/-- `EPOLLIN` alone. -/
def EventMask.readable : EventMask := { epollin := true }

/-- The result of `epoll_wait`. -/
inductive EpollWaits where
  | interrupted
  | failed
  | ready (events : List (Fd × EventMask))
  deriving DecidableEq, Repr

/-- The three pipes of a job, as `ProcessMonitor::ProcessFdKind` names them. -/
inductive ProcessFdKind where
  | stdout
  | stderr
  | startupError
  deriving DecidableEq, Repr

/-! ## The history -/

/-- The calls whose result concerns neither descriptors, processes, time nor jobs. -/
inductive Call where
  | accept4 | dup2 | epollCtl | fcntl | fork | kill | openNull | pipe2 | read | readSignals
  | readTimer | setpgid | settime | waitpid | write
  deriving DecidableEq, Repr

/-- Whom `kill` signals: one process, or with a negative argument a process group. -/
inductive KillTarget where
  | process (pid : Pid)
  | group (pgid : Pid)
  deriving DecidableEq, Repr

/-- The id that `kill` is given, without its sign. -/
def KillTarget.id : KillTarget → Pid
  | .process pid | .group pid => pid

/-- What has happened in a run. -/
inductive Event where
  /-- A call that only returned: a failure, `EAGAIN`, or a success without further effect. -/
  | called (call : Call)
  /-- `accept4`, `open` or `pipe2` returned this descriptor. -/
  | opened (fd : Fd)
  | closed (fd : Fd)
  /-- `epoll_ctl(EPOLL_CTL_ADD)` succeeded, for these events. -/
  | registered (fd : Fd) (events : EventMask)
  /-- `epoll_ctl(EPOLL_CTL_MOD)` succeeded. -/
  | modified (fd : Fd) (events : EventMask)
  | unregistered (fd : Fd)
  | received (fd : Fd) (bytes : Bytes)
  | reachedEof (fd : Fd)
  /-- `write` took these bytes. -/
  | sent (fd : Fd) (bytes : Bytes)
  | forked (pid : Pid)
  | reaped (pid : Pid) (status : WaitStatus)
  /-- A blocking `waitpid` failed. -/
  | waitFailed (pid : Pid)
  /-- `kill` delivered a signal to the process group of a job. -/
  | signalled (job : JobId) (group : Pid) (signal : Signal)
  /-- `kill` found no process in the process group of a job. -/
  | groupGone (job : JobId) (group : Pid) (signal : Signal)
  /-- `kill` was called where the source discards its result. -/
  | killSent (target : KillTarget) (signal : Signal)
  | clock (now : ℤ)
  /-- `timerfd_settime` with this `it_value` succeeded. -/
  | armed (seconds nanoseconds : ℤ)
  /-- `epoll_wait` returned. -/
  | woke
  /-- The main loop takes up one event of the batch. -/
  | dispatching (fd : Fd)
  /-- A new job stands in the job table. -/
  | submitted (job : JobId)
  /-- `ProcessMonitor::startJob` is called. -/
  | starting (job : JobId)
  /-- The monitor holds a process for the job, with these pipes. -/
  | adopted (job : JobId) (pid : Pid) (stdoutFd stderrFd startupErrorFd : Fd)
  /-- The exit status of the job's child is stored. -/
  | recorded (job : JobId) (status : WaitStatus)
  /-- `transitionJob` moved the job to this state. -/
  | entered (job : JobId) (state : JobState)
  /-- `termination_cause` is written. -/
  | blamed (job : JobId) (cause : TerminationCause)
  /-- `handleReadable` returned these jobs. -/
  | expired (jobs : List JobId)
  /-- A new connection stands in the table of connections, registered for these events. -/
  | connected (fd : Fd) (events : EventMask)
  /-- A complete request was taken from a connection. -/
  | asked (fd : Fd) (request : Bytes)
  /-- `handleRequest` returned a response. -/
  | answered (fd : Fd) (request response : Bytes)
  /-- An exception was thrown that says two modules disagree. -/
  | raised (exception : Exception)
  deriving DecidableEq, Repr

/-- The environment of the daemon. -/
structure Kernel where
  strerror : ℤ → Bytes
  now : List Event → ℤ
  settime : List Event → Retried (Except Errno Unit)
  readTimer : List Event → TimerReads
  readSignals : List Event → SignalReads
  read : List Event → Fd → Reads
  write : List Event → Fd → Writes
  kill : List Event → Pid → Signal → Retried (Except Errno Unit)
  waitpid : List Event → Pid → Retried Waited
  waitAny : List Event → Reaps
  waitBlocking : List Event → Pid → Retried (Except Errno WaitStatus)
  epollCtl : List Event → Fd → Except Errno Unit
  epollWait : List Event → EpollWaits
  accept4 : List Event → Accepts
  fcntl : List Event → Fd → Except Errno Unit
  openNull : List Event → Except Errno Fd
  pipe2 : List Event → Except Errno (Fd × Fd)
  dup2 : List Event → Fd → Except Errno Unit
  fork : List Event → Except Errno Pid
  setpgid : List Event → Except Errno Unit

/-- The open descriptors of a history. -/
def openFds : List Event → List Fd :=
  List.foldl (fun fds e =>
    match e with
    | .opened fd => fd :: fds
    | .closed fd => fds.filter (· ≠ fd)
    | _ => fds) []

/-- The lowest descriptor that is not open, but for the standard ones. -/
def lowestFd (log : List Event) : Fd :=
  ((List.range' 3 (log.length + 1)).find? fun fd => fd ∉ openFds log).getD 3

/-- A quiet machine: every call succeeds at once, nothing arrives, and a millisecond passes with
every event. Descriptors are the lowest free ones, process ids count up. -/
def Kernel.quiet : Kernel where
  strerror _ := []
  now log := 1000000 * log.length
  settime _ := .done (.ok ())
  readTimer _ := .again
  readSignals _ := .again
  read _ _ := .again
  write _ _ := .again
  kill _ _ _ := .done (.ok ())
  waitpid _ _ := .done .running
  waitAny _ := .none
  waitBlocking _ _ := .done (.ok (.signaled 9))
  epollCtl _ _ := .ok ()
  epollWait _ := .ready []
  accept4 _ := .again
  fcntl _ _ := .ok ()
  openNull log := .ok (lowestFd log)
  pipe2 log := .ok (lowestFd log, lowestFd (log ++ [.opened (lowestFd log)]))
  dup2 _ _ := .ok ()
  fork log := .ok ⟨100 + log.length, by omega⟩
  setpgid _ := .ok ()

/-- A computation of the daemon over a component `σ`. -/
abbrev Prog (σ α : Type) := Effect.Prog Event Exception σ α

/-- A component together with the history. -/
abbrev World (σ : Type) := Effect.World Event σ

/-- Throw an exception that says two modules disagree. -/
def raise {σ α : Type} (e : Exception) : Prog σ α := do
  emit (.raised e)
  throw e

/-- A result, or the exception of a module that finds another at odds with it. -/
def raising {σ α : Type} : Except Exception α → Prog σ α
  | .ok a => pure a
  | .error e => raise e

@[simp] theorem raise_run {σ α : Type} (e : Exception) (w : World σ) :
    (raise e : Prog σ α) w = (.error e, w.emit (.raised e)) := rfl

theorem raising_run_ok {σ α : Type} {x : Except Exception α} {a : α} (h : x = .ok a)
    (w : World σ) : (raising x : Prog σ α) w = (.ok a, w) := by
  rw [h]
  rfl

variable {σ : Type} (K : Kernel)

/-! ## Calls without a loop -/

/-- `epoll_ctl` with `EPOLL_CTL_ADD`. -/
def Kernel.epollAdd (fd : Fd) (events : EventMask) : Prog σ (Except Errno Unit) := fun w =>
  match K.epollCtl w.log fd with
  | .ok _ => (.ok (.ok ()), w.emit (.registered fd events))
  | .error e => (.ok (.error e), w.emit (.called .epollCtl))

/-- `epoll_ctl` with `EPOLL_CTL_MOD`. -/
def Kernel.epollMod (fd : Fd) (events : EventMask) : Prog σ (Except Errno Unit) := fun w =>
  match K.epollCtl w.log fd with
  | .ok _ => (.ok (.ok ()), w.emit (.modified fd events))
  | .error e => (.ok (.error e), w.emit (.called .epollCtl))

/-- `epoll_ctl` with `EPOLL_CTL_DEL`, whose result the source discards. -/
def epollDel (fd : Fd) : Prog σ Unit := Effect.Prog.emit (.unregistered fd)

/-- `close`, whose result the source discards. -/
def close (fd : Fd) : Prog σ Unit := Effect.Prog.emit (.closed fd)

/-- `Clock::now()`. -/
def Kernel.clockNow : Prog σ ℤ := fun w => (.ok (K.now w.log), w.emit (.clock (K.now w.log)))

/-- `fcntl` with `F_GETFD`, `F_GETFL` or `F_SETFL`. -/
def Kernel.fcntlOn (fd : Fd) : Prog σ (Except Errno Unit) := fun w =>
  (.ok (K.fcntl w.log fd), w.emit (.called .fcntl))

/-- `kill` where the source discards the result. -/
def killDiscarded (target : KillTarget) (signal : Signal) : Prog σ Unit :=
  Effect.Prog.emit (.killSent target signal)

/-- `open("/dev/null")`. -/
def Kernel.openNullFd : Prog σ (Except Errno Fd) := fun w =>
  match K.openNull w.log with
  | .ok fd => (.ok (.ok fd), w.emit (.opened fd))
  | .error e => (.ok (.error e), w.emit (.called .openNull))

/-- `pipe2`, with the read end first. -/
def Kernel.pipe2Fds : Prog σ (Except Errno (Fd × Fd)) := fun w =>
  match K.pipe2 w.log with
  | .ok (r, s) => (.ok (.ok (r, s)), (w.emit (.opened r)).emit (.opened s))
  | .error e => (.ok (.error e), w.emit (.called .pipe2))

/-- `dup2` onto a descriptor that is not open. -/
def Kernel.dup2Onto (target : Fd) : Prog σ (Except Errno Unit) := fun w =>
  match K.dup2 w.log target with
  | .ok _ => (.ok (.ok ()), w.emit (.opened target))
  | .error e => (.ok (.error e), w.emit (.called .dup2))

/-- `fork`, in the parent. -/
def Kernel.forkChild : Prog σ (Except Errno Pid) := fun w =>
  match K.fork w.log with
  | .ok pid => (.ok (.ok pid), w.emit (.forked pid))
  | .error e => (.ok (.error e), w.emit (.called .fork))

/-- `setpgid`, in the parent. -/
def Kernel.setpgidChild : Prog σ (Except Errno Unit) := fun w =>
  (.ok (K.setpgid w.log), w.emit (.called .setpgid))

/-- `fd_utils.cpp`: `setNonBlocking`. -/
def setNonBlocking (fd : Fd) : Prog σ Unit := do
  match ← K.fcntlOn fd with
  | .error e => throw (.systemError e (text "fcntl(F_GETFL)"))
  | .ok _ =>
    match ← K.fcntlOn fd with
    | .error e => throw (.systemError e (text "fcntl(F_SETFL)"))
    | .ok _ => pure ()

/-- The loop `while (waitpid(pid, &status, 0) == -1 && errno == EINTR)`. -/
def Kernel.waitForChild (pid : Pid) : Prog σ Unit := fun w =>
  match (K.waitBlocking w.log pid).last with
  | .ok status => (.ok (), w.emit (.reaped pid status))
  | .error _ => (.ok (), w.emit (.waitFailed pid))

/-! ## What the calls do -/

section Run

variable (w : World σ)

@[simp] theorem epollDel_run (fd : Fd) :
    (epollDel fd : Prog σ Unit) w = (.ok (), w.emit (.unregistered fd)) := rfl

@[simp] theorem close_run (fd : Fd) : (close fd : Prog σ Unit) w = (.ok (), w.emit (.closed fd)) :=
  rfl

@[simp] theorem clockNow_run :
    (K.clockNow : Prog σ ℤ) w = (.ok (K.now w.log), w.emit (.clock (K.now w.log))) := rfl

@[simp] theorem fcntlOn_run (fd : Fd) : (K.fcntlOn fd : Prog σ (Except Errno Unit)) w =
    (.ok (K.fcntl w.log fd), w.emit (.called .fcntl)) := rfl

@[simp] theorem killDiscarded_run (target : KillTarget) (signal : Signal) :
    (killDiscarded target signal : Prog σ Unit) w = (.ok (), w.emit (.killSent target signal)) :=
  rfl

@[simp] theorem setpgidChild_run : (K.setpgidChild : Prog σ (Except Errno Unit)) w =
    (.ok (K.setpgid w.log), w.emit (.called .setpgid)) := rfl

theorem epollAdd_run (fd : Fd) (events : EventMask) :
    (∃ e, (K.epollAdd fd events : Prog σ _) w = (.ok (.error e), w.emit (.called .epollCtl))) ∨
      (K.epollAdd fd events : Prog σ _) w = (.ok (.ok ()), w.emit (.registered fd events)) := by
  unfold Kernel.epollAdd
  cases K.epollCtl w.log fd with
  | error e => exact Or.inl ⟨e, rfl⟩
  | ok _ => exact Or.inr rfl

theorem epollMod_run (fd : Fd) (events : EventMask) :
    (∃ e, K.epollCtl w.log fd = .error e ∧
      (K.epollMod fd events : Prog σ _) w = (.ok (.error e), w.emit (.called .epollCtl))) ∨
      (K.epollMod fd events : Prog σ _) w = (.ok (.ok ()), w.emit (.modified fd events)) := by
  unfold Kernel.epollMod
  cases K.epollCtl w.log fd with
  | error e => exact Or.inl ⟨e, rfl, rfl⟩
  | ok _ => exact Or.inr rfl

theorem openNullFd_run :
    (∃ e, (K.openNullFd : Prog σ _) w = (.ok (.error e), w.emit (.called .openNull))) ∨
      ∃ fd, (K.openNullFd : Prog σ _) w = (.ok (.ok fd), w.emit (.opened fd)) := by
  unfold Kernel.openNullFd
  cases K.openNull w.log with
  | error e => exact Or.inl ⟨e, rfl⟩
  | ok fd => exact Or.inr ⟨fd, rfl⟩

theorem pipe2Fds_run :
    (∃ e, (K.pipe2Fds : Prog σ _) w = (.ok (.error e), w.emit (.called .pipe2))) ∨
      ∃ r s, (K.pipe2Fds : Prog σ _) w =
        (.ok (.ok (r, s)), (w.emit (.opened r)).emit (.opened s)) := by
  unfold Kernel.pipe2Fds
  rcases K.pipe2 w.log with e | ⟨r, s⟩
  · exact Or.inl ⟨e, rfl⟩
  · exact Or.inr ⟨r, s, rfl⟩

theorem dup2Onto_run (target : Fd) :
    (∃ e, (K.dup2Onto target : Prog σ _) w = (.ok (.error e), w.emit (.called .dup2))) ∨
      (K.dup2Onto target : Prog σ _) w = (.ok (.ok ()), w.emit (.opened target)) := by
  unfold Kernel.dup2Onto
  cases K.dup2 w.log target with
  | error e => exact Or.inl ⟨e, rfl⟩
  | ok _ => exact Or.inr rfl

theorem forkChild_run :
    (∃ e, (K.forkChild : Prog σ _) w = (.ok (.error e), w.emit (.called .fork))) ∨
      ∃ pid, (K.forkChild : Prog σ _) w = (.ok (.ok pid), w.emit (.forked pid)) := by
  unfold Kernel.forkChild
  cases K.fork w.log with
  | error e => exact Or.inl ⟨e, rfl⟩
  | ok pid => exact Or.inr ⟨pid, rfl⟩

theorem waitForChild_run (pid : Pid) :
    (K.waitForChild pid : Prog σ _) w = (.ok (), w.emit (.waitFailed pid)) ∨
      ∃ status, (K.waitForChild pid : Prog σ _) w = (.ok (), w.emit (.reaped pid status)) := by
  unfold Kernel.waitForChild
  cases (K.waitBlocking w.log pid).last with
  | error e => exact Or.inl rfl
  | ok status => exact Or.inr ⟨status, rfl⟩

end Run

end Runnerd
