import Runnerd.Kernel

/-!
# The process launcher

The parent's side of `process_launcher.cpp`. What the forked child does before and after `execve`
happens in another process: the daemon sees of it what the pipes and `waitpid` report.
-/

namespace Runnerd

open Effect Effect.Prog

/-- A child process, and the read ends of its pipes. -/
structure LaunchedProcess where
  pid : Pid
  processGroupId : Pid
  stdoutFd : Fd
  stderrFd : Fd
  startupErrorFd : Fd
  deriving DecidableEq, Repr

structure Pipe where
  readFd : Fd
  writeFd : Fd

variable {σ : Type} (K : Kernel)

/-- Close these descriptors in order. -/
def closeFds : List Fd → Prog σ Unit
  | [] => pure ()
  | fd :: rest => do
    close fd
    closeFds rest

/-- Run `m`, and on an exception `cleanup` before rethrowing it. -/
def onFailure {α : Type} (m : Prog σ α) (cleanup : Prog σ Unit) : Prog σ α :=
  tryCatch m fun e => do
    cleanup
    throw e

/-- One round of the loop of `ensureStandardDescriptors`. -/
def ensureStandardDescriptor (standardFd : Fd) : Prog σ Unit := do
  match ← K.fcntlOn standardFd with
  | .ok _ => pure ()
  | .error e =>
    if e ≠ .EBADF then
      throw (.systemError e (text "fcntl(F_GETFD) for standard descriptor"))
    else
      match ← K.openNullFd with
      | .error e => throw (.systemError e (text "open(/dev/null) for standard descriptor"))
      | .ok replacementFd =>
        if replacementFd = standardFd then pure ()
        else
          match ← K.dup2Onto standardFd with
          | .error e => do
            close replacementFd
            throw (.systemError e (text "dup2(/dev/null) for standard descriptor"))
          | .ok _ => close replacementFd

def ensureStandardDescriptors : Prog σ Unit := do
  ensureStandardDescriptor K 0
  ensureStandardDescriptor K 1
  ensureStandardDescriptor K 2

def openDevNull : Prog σ Fd := do
  match ← K.openNullFd with
  | .error e => throw (.systemError e (text "open(/dev/null)"))
  | .ok fd => pure fd

def createPipe : Prog σ Pipe := do
  match ← K.pipe2Fds with
  | .error e => throw (.systemError e (text "pipe2"))
  | .ok (r, s) => pure { readFd := r, writeFd := s }

/-- The descriptors a launch opens before `fork`. -/
structure LaunchFds where
  devNullFd : Fd
  stdoutPipe : Pipe
  stderrPipe : Pipe
  startupErrorPipe : Pipe

/-- The first `try` block of `launchProcess`: `/dev/null` and the three pipes, or none of them. -/
def openLaunchFds : Prog σ LaunchFds := do
  let devNullFd ← openDevNull K
  let stdoutPipe ← onFailure (createPipe K) (closeFds [devNullFd])
  let stderrPipe ← onFailure (createPipe K)
    (closeFds [devNullFd, stdoutPipe.readFd, stdoutPipe.writeFd])
  let startupErrorPipe ← onFailure (createPipe K)
    (closeFds [devNullFd, stdoutPipe.readFd, stdoutPipe.writeFd, stderrPipe.readFd,
      stderrPipe.writeFd])
  return { devNullFd, stdoutPipe, stderrPipe, startupErrorPipe }

def setParentProcessGroup : Prog σ Unit := do
  match ← K.setpgidChild with
  | .ok _ => pure ()
  | .error e =>
    if e = .EACCES ∨ e = .ESRCH then pure ()
    else throw (.systemError e (text "setpgid in parent"))

def killAndReapChild (childPid : Pid) : Prog σ Unit := do
  killDiscarded (.process childPid) .SIGKILL
  K.waitForChild childPid

/-- The second `try` block of `launchProcess`, in the parent after `fork`. -/
def configureChild (fds : LaunchFds) (childPid : Pid) : Prog σ LaunchedProcess := do
  setParentProcessGroup K
  setNonBlocking K fds.stdoutPipe.readFd
  setNonBlocking K fds.stderrPipe.readFd
  setNonBlocking K fds.startupErrorPipe.readFd
  return {
    pid := childPid
    processGroupId := childPid
    stdoutFd := fds.stdoutPipe.readFd
    stderrFd := fds.stderrPipe.readFd
    startupErrorFd := fds.startupErrorPipe.readFd }

def launchProcess (spec : JobSpec) : Prog σ LaunchedProcess := do
  ofExcept (validateJobSpec spec)
  ensureStandardDescriptors K
  let fds ← openLaunchFds K
  match ← K.forkChild with
  | .error e => do
    closeFds [fds.devNullFd, fds.stdoutPipe.readFd, fds.stdoutPipe.writeFd, fds.stderrPipe.readFd,
      fds.stderrPipe.writeFd, fds.startupErrorPipe.readFd, fds.startupErrorPipe.writeFd]
    throw (.systemError e (text "fork"))
  | .ok childPid => do
    closeFds [fds.devNullFd, fds.stdoutPipe.writeFd, fds.stderrPipe.writeFd,
      fds.startupErrorPipe.writeFd]
    onFailure (configureChild K fds childPid) (do
      closeFds [fds.stdoutPipe.readFd, fds.stderrPipe.readFd, fds.startupErrorPipe.readFd]
      killAndReapChild K childPid)

end Runnerd
