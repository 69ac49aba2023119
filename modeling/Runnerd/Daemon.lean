import Runnerd.JobScheduler
import Runnerd.TimeoutManager
import Runnerd.ProcessMonitor
import Runnerd.Protocol

/-!
# The daemon

`runnerd_main.cpp`: the modules put together, the answers to requests, the connections, and the main
loop over the events `epoll_wait` returns. Log output is left out.
-/

namespace Runnerd

open Effect Effect.Prog

/-- `kTerminationGracePeriod`, in milliseconds. -/
def kTerminationGracePeriod : JobTimeout := 1000

structure Connection where
  decoder : FrameDecoder := {}
  writeBuffer : Bytes := []
  writeOffset : ℕ := 0
  readClosed : Bool := false
  deriving DecidableEq, Repr

/-- The variables of `main`. The job table and the queue of terminal jobs are those of the
monitor. -/
structure Daemon where
  listenFd : Fd
  timerFd : Fd
  monitor : ProcessMonitor
  scheduler : JobScheduler
  timeouts : TimeoutManager := {}
  nextJobId : JobId := 1
  connections : Table Fd Connection := ∅

namespace Daemon

/-- The job table. -/
abbrev jobs (d : Daemon) : JobTable := d.monitor.jobs

variable (K : Kernel)

/-! ## The modules in place -/

/-- A call of the process monitor. -/
def inMonitor {α : Type} (m : Prog ProcessMonitor α) : Prog Daemon α :=
  within Daemon.monitor (fun t d => { d with monitor := t }) m

/-- A call of the timeout manager. -/
def inTimeouts {α : Type} (m : Prog TimeoutManager α) : Prog Daemon α :=
  within Daemon.timeouts (fun t d => { d with timeouts := t }) m

/-- A call of the scheduler, which throws before it changes anything. -/
def inScheduler {α : Type} (f : JobScheduler → Except Exception (α × JobScheduler)) :
    Prog Daemon α := fun w =>
  match f w.st.scheduler with
  | .error e => raise e w
  | .ok (a, s) => (.ok a, w.put { w.st with scheduler := s })

/-- `jobs.at`. -/
def jobAt (jobId : JobId) : Prog Daemon Job := inMonitor (ProcessMonitor.jobAt jobId)

def takeNextJobToStart : Prog Daemon (Option JobId) := inScheduler JobScheduler.takeNextJobToStart

def onJobReachedTerminalState (jobId : JobId) : Prog Daemon Unit :=
  inScheduler fun s => do return ((), ← s.onJobReachedTerminalState jobId)

/-! ## Deadlines and slots -/

def scheduleForceKillDeadline (jobId : JobId) : Prog Daemon Unit := do
  inTimeouts (update fun t => t.cancel jobId)
  tryCatch (inTimeouts (TimeoutManager.schedule K jobId kTerminationGracePeriod)) fun _ => do
    inTimeouts (update fun t => t.cancel jobId)
    let _ ← inMonitor (ProcessMonitor.forceKill K jobId)

/-- The loop of `pumpScheduler`. A round that does not return takes a job off the queue. -/
def pumpLoop : ℕ → Prog Daemon Unit
  | 0 => pure ()
  | fuel + 1 => do
    let nextJobId ← takeNextJobToStart
    match nextJobId with
    | none => pure ()
    | some jobId => do
      inMonitor (ProcessMonitor.startJob K jobId)
      let job ← jobAt jobId
      if isTerminal job.state then do
        onJobReachedTerminalState jobId
        pumpLoop fuel
      else if job.state ≠ .running then
        raise (.logicError (text "started job is neither RUNNING nor terminal"))
      else
        match job.spec.executionTimeout with
        | none => pumpLoop fuel
        | some timeout => do
          inTimeouts (TimeoutManager.schedule K jobId timeout)
          pumpLoop fuel

def pumpScheduler : Prog Daemon Unit := do
  let d ← state
  pumpLoop K (d.scheduler.waitingJobs.length + 1)

/-- The loop of `processTerminalJobNotifications`. Starting jobs adds no notification. -/
def notificationLoop : ℕ → Prog Daemon Unit
  | 0 => pure ()
  | fuel + 1 => do
    let d ← state
    match d.monitor.terminalJobNotifications with
    | [] => pure ()
    | jobId :: rest => do
      inMonitor (update fun t => { t with terminalJobNotifications := rest })
      match d.jobs.find jobId with
      | none => raise (.logicError (text "terminal notification refers to an unknown job"))
      | some job =>
        if isTerminal job.state = false then
          raise (.logicError (text "terminal notification refers to a non-terminal job"))
        else do
          inTimeouts (update fun t => t.cancel jobId)
          onJobReachedTerminalState jobId
          pumpScheduler K
          notificationLoop fuel

def processTerminalJobNotifications : Prog Daemon Unit := do
  let d ← state
  notificationLoop K d.monitor.terminalJobNotifications.length

/-! ## Requests -/

/-- ` name=value`, when there is a value. -/
def statusField (name : Bytes) (value : Option Bytes) : Bytes :=
  match value with
  | none => []
  | some value => text " " ++ name ++ text "=" ++ value

def formatJobStatus (job : Job) : Bytes :=
  text "id=" ++ decimal job.id ++ text " state=" ++ jobStateName job.state ++
    statusField (text "timeout_ms") (job.spec.executionTimeout.map fun t => decimal t.toNat) ++
    statusField (text "pid") (job.pid.map fun pid => decimal pid) ++
    statusField (text "exit_code") (job.exitCode.map decimal) ++
    statusField (text "exit_signal") (job.exitSignal.map decimal) ++
    (if isTerminal job.state then
      statusField (text "stdout_bytes") (some (decimal job.standardOutput.length)) ++
        statusField (text "stderr_bytes") (some (decimal job.standardError.length))
    else []) ++
    (if job.failureMessage ≠ [] then statusField (text "error") (some job.failureMessage) else [])

def makeStatusResponse (job : Job) : Bytes :=
  let response := text "OK " ++ formatJobStatus job
  if response.length > kMaxFrameSize then text "ERR status response exceeds maximum frame size"
  else response

/-- One line of a LIST response. -/
def listLine (job : Job) : Bytes :=
  text "\nid=" ++ decimal job.id ++ text " state=" ++ jobStateName job.state

/-- The loop of `makeListResponse`. -/
def listLoop (jobs : JobTable) : Bytes → List JobId → Except Exception Bytes
  | response, [] => .ok response
  | response, jobId :: rest =>
    match jobs.find jobId with
    | none => .error .outOfRange
    | some job => do
      let room ← subSize kMaxFrameSize response.length
      if (listLine job).length > room then return text "ERR too many jobs to list"
      else listLoop jobs (response ++ listLine job) rest

def makeListResponse (jobs : JobTable) : Except Exception Bytes :=
  listLoop jobs (text "OK") (jobs.keys.insertionSort (· ≤ ·))

/-- The part of `cancelJob` for a running job. -/
def cancelRunningJob (jobId : JobId) : Prog Daemon Bytes := do
  let requested ← tryCatch (do
      let requested ← inMonitor (ProcessMonitor.requestTerminate K jobId .cancelled)
      return Except.ok requested)
    fun
      | .systemError e _ => return Except.error (text "ERR failed to send SIGTERM: " ++
          K.strerror e.number)
      | e => throw e
  match requested with
  | .error response => return response
  | .ok requested =>
    if requested = false then return text "ERR job process already exited; retry status"
    else do
      scheduleForceKillDeadline K jobId
      return text "OK terminating"

/-- The last `throw` of the source is unreachable: the states are all covered. -/
def cancelJob (jobId : JobId) : Prog Daemon Bytes := do
  let d ← state
  match d.jobs.find jobId with
  | none => return text "ERR job not found"
  | some job =>
    match job.state with
    | .queued => do
      let removed ← inScheduler fun s => s.cancelQueuedJob jobId
      if removed = false then raise (.logicError (text "queued job is missing from scheduler"))
      else do
        inMonitor (ProcessMonitor.withJob jobId (ProcessMonitor.enter .cancelled))
        return text "OK cancelled"
    | .running => cancelRunningJob K jobId
    | .terminating => return text "ERR job is already terminating"
    | .succeeded | .failed | .cancelled | .timedOut | .interrupted =>
      return text "ERR job is already terminal"

/-- `catch (const std::invalid_argument& exception)`, answered with `ERR` and its text. -/
def answeringInvalidArgument (m : Prog Daemon Bytes) : Prog Daemon Bytes :=
  tryCatch m fun
    | .invalidArgument what => return text "ERR " ++ what
    | e => throw e

/-- The `try` block of `handleRequest` for SUBMIT. -/
def submitJob (request : Bytes) : Prog Daemon Bytes := do
  let spec ← ofExcept (decodeSubmitRequest request)
  ofExcept (validateJobSpec spec)
  let d ← state
  let jobId := d.nextJobId
  if jobId = 0 then throw (.overflowError (text "job id space exhausted"))
  else
    match d.jobs.find jobId with
    | some _ => raise (.logicError (text "duplicate job id"))
    | none => do
      inMonitor (update fun t => { t with jobs := t.jobs.set jobId { id := jobId, spec } })
      emit (.submitted jobId)
      tryCatch (inScheduler fun s => do return ((), ← s.enqueue jobId)) fun e => do
        inMonitor (update fun t => { t with jobs := t.jobs.del jobId })
        throw e
      update fun d => { d with nextJobId := (d.nextJobId + 1) % 2 ^ 64 }
      pumpScheduler K
      return text "OK " ++ decimal jobId

def handleRequest (request : Bytes) : Prog Daemon Bytes := do
  if request = text "PING" then return text "PONG"
  else if request = text "LIST" then do
    let d ← state
    raising (makeListResponse d.jobs)
  else if isStatusRequest request then
    answeringInvalidArgument do
      let jobId ← ofExcept (decodeStatusRequest request)
      let d ← state
      match d.jobs.find jobId with
      | none => return text "ERR job not found"
      | some job => return makeStatusResponse job
  else if isCancelRequest request then
    answeringInvalidArgument do
      let jobId ← ofExcept (decodeCancelRequest request)
      cancelJob K jobId
  else if isSubmitRequest request = false then return text "ERR unknown request"
  else answeringInvalidArgument (submitJob K request)

/-! ## Connections -/

def hasPendingWrite (connection : Connection) : Bool :=
  decide (connection.writeOffset < connection.writeBuffer.length)

/-- A change of the connection at this descriptor. -/
def modifyConnection (fd : Fd) (f : Connection → Connection) : Prog Daemon Unit :=
  update fun d =>
    match d.connections.find fd with
    | none => d
    | some connection => { d with connections := d.connections.set fd (f connection) }

/-- The connection at this descriptor, which the caller has looked up. -/
def connectionAt (fd : Fd) : Prog Daemon Connection := do
  let d ← state
  return (d.connections.find fd).getD {}

/-- What `write` takes of these bytes where it takes this many: never more than there are, and never
none. -/
def accepted (count : ℕ) (bytes : Bytes) : Bytes := bytes.take (max count 1)

/-- The end of `handleClientWrite`: all is sent. -/
def clearWriteBuffer (fd : Fd) : Prog Daemon Bool := do
  modifyConnection fd fun connection => { connection with writeBuffer := [], writeOffset := 0 }
  return true

/-- The loop of `handleClientWrite`. -/
def writeLoop (fd : Fd) : Writes → Prog Daemon Bool
  | .wrote count rest => do
    let connection ← connectionAt fd
    if hasPendingWrite connection = false then clearWriteBuffer fd
    else do
      let bytes := accepted count (connection.writeBuffer.drop connection.writeOffset)
      emit (.sent fd bytes)
      modifyConnection fd fun connection =>
        { connection with writeOffset := connection.writeOffset + bytes.length }
      writeLoop fd rest
  | .interrupted rest => do
    let connection ← connectionAt fd
    if hasPendingWrite connection = false then clearWriteBuffer fd else writeLoop fd rest
  | .again => do
    let connection ← connectionAt fd
    if hasPendingWrite connection = false then clearWriteBuffer fd
    else do
      emit (.called .write)
      return true
  | .failed => do
    let connection ← connectionAt fd
    if hasPendingWrite connection = false then clearWriteBuffer fd
    else do
      emit (.called .write)
      return false

def handleClientWrite (fd : Fd) : Prog Daemon Bool := do
  let log ← history
  writeLoop fd (K.write log fd)

/-- The events of a connection: reading until the peer has finished, writing while there is
something to write. -/
def clientEvents (connection : Connection) : EventMask where
  epollin := !connection.readClosed
  epollrdhup := !connection.readClosed
  epollout := hasPendingWrite connection

/-- Whether `epoll_ctl` took the new event set. -/
def updateClientEvents (fd : Fd) : Prog Daemon Bool := do
  let connection ← connectionAt fd
  match ← K.epollMod fd (clientEvents connection) with
  | .ok _ => return true
  | .error _ => return false

def closeClient (fd : Fd) : Prog Daemon Unit := do
  epollDel fd
  close fd
  update fun d => { d with connections := d.connections.del fd }

/-- The loop of `acceptClients`. -/
def acceptLoop : Accepts → Prog Daemon Unit
  | .client clientFd rest => do
    emit (.opened clientFd)
    onFailure (do
        setNonBlocking K clientFd
        let d ← state
        match d.connections.find clientFd with
        | some _ => throw (.runtimeError (text "client fd already exists"))
        | none => do
          update fun d => { d with connections := d.connections.set clientFd {} }
          let events : EventMask := { epollin := true, epollrdhup := true }
          match ← K.epollAdd clientFd events with
          | .ok _ => emit (.connected clientFd events)
          | .error _ => throw (.runtimeError (text "add client to epoll failed")))
      (do
        update fun d => { d with connections := d.connections.del clientFd }
        close clientFd)
    acceptLoop rest
  | .interrupted rest => acceptLoop rest
  | .again => emit (.called .accept4)
  | .failed _ => do
    emit (.called .accept4)
    throw (.runtimeError (text "accept4 failed"))

def acceptClients : Prog Daemon Unit := do
  let log ← history
  acceptLoop K (K.accept4 log)

/-- The inner loop of `handleClientRead`. A round that does not return pops a frame. -/
def frameLoop (fd : Fd) : ℕ → Prog Daemon Unit
  | 0 => pure ()
  | fuel + 1 => do
    let connection ← connectionAt fd
    let more ← ofExcept connection.decoder.hasFrame
    if more = false then pure ()
    else do
      let popped ← ofExcept connection.decoder.popFrame
      modifyConnection fd fun connection => { connection with decoder := popped.2 }
      emit (.asked fd popped.1)
      let response ← handleRequest K popped.1
      emit (.answered fd popped.1 response)
      let frame ← ofExcept (encodeFrame response)
      modifyConnection fd fun connection =>
        { connection with writeBuffer := connection.writeBuffer ++ frame }
      frameLoop fd fuel

/-- `decoder.feed` on the connection's decoder. -/
def feedConnection (fd : Fd) (data : Bytes) : Prog Daemon Unit := do
  let connection ← connectionAt fd
  modifyConnection fd fun connection =>
    { connection with decoder := (connection.decoder.feed data).2 }
  ofExcept (connection.decoder.feed data).1

/-- The loop of `handleClientRead`. -/
def readLoop (fd : Fd) : Reads → Prog Daemon Bool
  | .data bytes rest => do
    emit (.received fd bytes)
    feedConnection fd bytes
    let connection ← connectionAt fd
    frameLoop K fd (connection.decoder.buffer.length + 1)
    readLoop fd rest
  | .interrupted rest => readLoop fd rest
  | .eof => do
    emit (.reachedEof fd)
    modifyConnection fd fun connection => { connection with readClosed := true }
    return true
  | .again => do
    emit (.called .read)
    return true
  | .failed _ => do
    emit (.called .read)
    return false

def handleClientRead (fd : Fd) : Prog Daemon Bool := do
  let log ← history
  readLoop K fd (K.read log fd)

/-! ## The main loop -/

/-- The loop of `handleDeadlineEvent` over the expired jobs. -/
def deadlineLoop : List JobId → Prog Daemon Unit
  | [] => pure ()
  | jobId :: rest => do
    let d ← state
    match d.jobs.find jobId with
    | none => raise (.logicError (text "deadline refers to an unknown job"))
    | some job =>
      match job.state with
      | .running => do
        let requested ← inMonitor (ProcessMonitor.requestTerminate K jobId .timedOut)
        if requested = false then deadlineLoop rest
        else do
          scheduleForceKillDeadline K jobId
          deadlineLoop rest
      | .terminating => do
        let _ ← inMonitor (ProcessMonitor.forceKill K jobId)
        deadlineLoop rest
      | .succeeded | .failed | .cancelled | .timedOut | .interrupted => deadlineLoop rest
      | .queued => raise (.logicError (text "queued job unexpectedly has an active deadline"))

def handleDeadlineEvent (eventMask : EventMask) : Prog Daemon Unit := do
  if eventMask.epollerr ∨ eventMask.epollhup then
    throw (.runtimeError (text "timerfd reported EPOLLERR or EPOLLHUP"))
  else do
    let expiredJobs ← inTimeouts (TimeoutManager.handleReadable K)
    deadlineLoop K expiredJobs

/-- The reading, in the `try` block of the main loop for a client's event. -/
def readClient (fd : Fd) (eventMask : EventMask) : Prog Daemon Bool :=
  if eventMask.epollin ∨ eventMask.epollrdhup then handleClientRead K fd else pure true

/-- The writing. -/
def writeClient (fd : Fd) (eventMask : EventMask) (alive : Bool) : Prog Daemon Bool :=
  if alive ∧ eventMask.epollout then handleClientWrite K fd else pure alive

/-- Whether the connection stays. -/
def keepClient (fd : Fd) (eventMask : EventMask) (alive : Bool) : Prog Daemon Bool :=
  if alive = false ∨ eventMask.epollhup then return false
  else do
    let connection ← connectionAt fd
    if connection.readClosed ∧ hasPendingWrite connection = false then return false
    else updateClientEvents K fd

/-- The whole block. -/
def serveClient (fd : Fd) (eventMask : EventMask) : Prog Daemon Bool :=
  if eventMask.epollerr then return false
  else do
    let alive ← readClient K fd eventMask
    let alive ← writeClient K fd eventMask alive
    keepClient K fd eventMask alive

/-- The body of the main loop for one event. -/
def dispatch (fd : Fd) (eventMask : EventMask) : Prog Daemon Unit := do
  emit (.dispatching fd)
  let d ← state
  if fd = d.listenFd then acceptClients K
  else if fd = d.timerFd then do
    handleDeadlineEvent K eventMask
    processTerminalJobNotifications K
  else if d.monitor.ownsFileDescriptor fd then do
    inMonitor (ProcessMonitor.handleFileDescriptorEvent K fd eventMask)
    processTerminalJobNotifications K
  else
    match d.connections.find fd with
    | none => pure ()
    | some _ => do
      let alive ← tryCatch (serveClient K fd eventMask) fun _ => return false
      if alive then pure () else closeClient fd

/-- The events of one `epoll_wait`, in order. -/
def dispatchAll : List (Fd × EventMask) → Prog Daemon Unit
  | [] => pure ()
  | (fd, eventMask) :: rest => do
    dispatch K fd eventMask
    dispatchAll rest

/-- `epoll_wait`. -/
def epollWait : Prog Daemon EpollWaits := fun w => (.ok (K.epollWait w.log), w.emit .woke)

/-- One round of the main loop. -/
def iterate : Prog Daemon Unit := do
  match ← epollWait K with
  | .interrupted => pure ()
  | .failed => throw (.runtimeError (text "epoll_wait failed"))
  | .ready events => dispatchAll K events

end Daemon

/-! ## Runs -/

/-- What `main` has set up when it enters its loop. -/
structure Setup where
  maxRunning : ℕ
  listenFd : Fd
  epollFd : Fd
  sigchldFd : Fd
  timerFd : Fd
  maxRunning_pos : 0 < maxRunning
  distinct : [listenFd, epollFd, sigchldFd, timerFd].Nodup

/-- The daemon as it first calls `epoll_wait`. -/
def Setup.initial (s : Setup) : World Daemon where
  st := {
    listenFd := s.listenFd
    timerFd := s.timerFd
    monitor := { sigchldFd := s.sigchldFd }
    scheduler := { maxRunning := s.maxRunning } }
  log := [.opened s.listenFd, .opened s.epollFd, .opened s.sigchldFd,
    .registered s.sigchldFd .readable, .opened s.timerFd, .registered s.timerFd .readable,
    .registered s.listenFd .readable]

/-- The daemon at a call of `epoll_wait`. -/
inductive Reachable (K : Kernel) (s : Setup) : World Daemon → Prop where
  | start : Reachable K s s.initial
  | step {w w' : World Daemon} :
      Reachable K s w → Daemon.iterate K w = (.ok (), w') → Reachable K s w'

end Runnerd
