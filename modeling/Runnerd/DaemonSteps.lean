import Runnerd.Ledger
import Runnerd.TimeoutRefinement
import Runnerd.Daemon

/-!
# The steps of the daemon

What the daemon does in one round of its loop it does in the steps of `Step`: the monitor looks after
its processes, a job enters the queue, a job is taken off it and started, a slot is given back, a
deadline comes and is acted upon. `Sound` says what every step keeps of the job table, the scheduler,
the monitor and the timeout manager together.

Between the call of `handleReadable` and the end of `handleDeadlineEvent`, and between SIGTERM and the
new deadline, a job stands in no structure of the program as one to be seen to. A `Moment` adds the
list of these jobs to the world.
-/

namespace Runnerd

open Effect Effect.Prog Steps
open ProcessMonitor (Wf Recorded Rewrites settles_of_settledJob)

namespace Daemon

/-- A world of the daemon, and the jobs whose deadline has been taken off the timeout manager but not
acted upon yet. -/
structure Moment where
  world : World Daemon
  due : List JobId

/-- The monitor's part of a world. -/
def monitorWorld (w : World Daemon) : World ProcessMonitor := ⟨w.st.monitor, w.log⟩

/-- The world with another world of the monitor in place. -/
def withMonitor (w : World Daemon) (v : World ProcessMonitor) : World Daemon :=
  ⟨{ w.st with monitor := v.st }, v.log⟩

/-! ## The steps -/

/-- What a step is about. -/
inductive Label where
  | attend
  | take (fd : Fd)
  | accept (fd : Fd)
  | refuse (fd : Fd)
  | hangUp (fd : Fd)
  | tend (fd : Fd)
  | answer (fd : Fd)
  | watch
  | submit (jobId : JobId)
  | dequeue (jobId : JobId)
  | misfire (jobId : JobId)
  | run (jobId : JobId)
  | release (jobId : JobId)
  | expire
  | skip
  | spare
  | terminate (jobId : JobId)
  | arm (jobId : JobId)
  | fumble (jobId : JobId)
  | kill (jobId : JobId)
  deriving DecidableEq

/-- Events that concern neither jobs, children nor connections, and open and close nothing. -/
def choreEvent : Event → Bool
  | .called _ | .registered _ _ | .unregistered _ | .clock _ | .armed _ _ | .woke
  | .expired _ => true
  | _ => false

theorem choreEvent_of_armingEvent {e : Event} (h : TimeoutManager.armingEvent e) :
    choreEvent e := by
  cases e with
  | called | clock | armed => rfl
  | _ => cases h

/-- What is done to the connection at a descriptor, and the events of it. -/
inductive Tending (fd : Fd) (c : Connection) : Connection → List Event → Prop where
  | feed {bytes decoder} (hfeed : c.decoder.feed bytes = (.ok (), decoder)) :
      Tending fd c { c with decoder } [.received fd bytes]
  /-- The decoder throws. -/
  | choke {bytes decoder e} (hfeed : c.decoder.feed bytes = (.error e, decoder)) :
      Tending fd c { c with decoder } [.received fd bytes]
  | pop {request decoder} (hpop : c.decoder.popFrame = .ok (request, decoder)) :
      Tending fd c { c with decoder } [.asked fd request]
  | write {count bytes} (hpending : hasPendingWrite c)
      (hbytes : bytes = accepted count (c.writeBuffer.drop c.writeOffset)) :
      Tending fd c { c with writeOffset := c.writeOffset + bytes.length } [.sent fd bytes]
  | clear (hdone : hasPendingWrite c = false) :
      Tending fd c { c with writeBuffer := [], writeOffset := 0 } []
  | finish : Tending fd c { c with readClosed := true } [.reachedEof fd]

/-- What becomes of the connections when a response is to be sent: nothing if it does not fit into a
frame. -/
def Responding (connections : Table Fd Connection) (fd : Fd) (c : Connection) (response : Bytes)
    (connections' : Table Fd Connection) : Prop :=
  (∃ frame, encodeFrame response = .ok frame ∧
      connections' = connections.set fd { c with writeBuffer := c.writeBuffer ++ frame }) ∨
    (∃ e, encodeFrame response = .error e) ∧ connections' = connections

/-- The job was cancelled before it was ever started. -/
def CancelledWhileQueued (log : List Event) (j : JobId) : Prop :=
  ∃ pre post, log = pre ++ .entered j .cancelled :: post ∧
    (ledger pre).state j = some .queued

/-- The response to a SUBMIT that added a job. -/
def acknowledgement (j : JobId) : Bytes := text "OK " ++ decimal j

/-- The job submitted since the last request was taken up, if there is one. -/
def submission : List Event → Option JobId :=
  List.foldl (fun last e =>
    match e with
    | .asked _ _ | .answered _ _ _ => none
    | .submitted j => some j
    | _ => last) none

/-- What a response says is so when it is given. -/
structure Truthful (log : List Event) (request response : Bytes) : Prop where
  cancelled : response = text "OK cancelled" → ∀ j, decodeCancelRequest request = .ok j →
    CancelledWhileQueued log j
  submitted : isSubmitRequest request → ∀ j, response = acknowledgement j →
    submission log = some j

/-- What `schedule` makes of the deadlines when a job is started at this time: a job without a timeout
gets none, nor does any once the generations are used up. -/
def TimedStart (t : TimeoutManager) (job : Job) (now : ℤ) (t' : TimeoutManager) : Prop :=
  (t' = t ∧ (job.spec.executionTimeout = none ∨ t.nextGeneration = 0)) ∨
    ∃ timeout, job.spec.executionTimeout = some timeout ∧ t.nextGeneration ≠ 0 ∧
      t' = (t.insert job.id (now + timeout * 1000000)).discardStaleEntries

/-- One step of the daemon. -/
inductive Step (K : Kernel) : Label → Moment → Moment → Prop where
  | attend {w due events} (hevents : ∀ e ∈ events, choreEvent e) :
      Step K .attend ⟨w, due⟩ ⟨⟨w.st, w.log ++ events⟩, due⟩
  /-- An event of the batch is taken up. -/
  | take {w fd} : Step K (.take fd) ⟨w, []⟩ ⟨w.emit (.dispatching fd), []⟩
  | accept {w due fd events} (hnew : w.st.connections.find fd = none)
      (hevents : ∀ e ∈ events, choreEvent e) :
      Step K (.accept fd) ⟨w, due⟩
        ⟨⟨{ w.st with connections := w.st.connections.set fd {} },
          w.log ++ .opened fd ::
            (events ++ [.connected fd { epollin := true, epollrdhup := true }])⟩, due⟩
  /-- A client is turned away. -/
  | refuse {w due fd events} (hevents : ∀ e ∈ events, choreEvent e) :
      Step K (.refuse fd) ⟨w, due⟩
        ⟨⟨{ w.st with connections := w.st.connections.del fd },
          w.log ++ .opened fd :: (events ++ [.closed fd])⟩, due⟩
  | hangUp {w due fd} (hfind : (w.st.connections.find fd).isSome) :
      Step K (.hangUp fd) ⟨w, due⟩
        ⟨⟨{ w.st with connections := w.st.connections.del fd },
          w.log ++ [.unregistered fd, .closed fd]⟩, due⟩
  /-- Reading and writing. -/
  | tend {w due fd c c' events} (hfind : w.st.connections.find fd = some c)
      (htending : Tending fd c c' events) :
      Step K (.tend fd) ⟨w, due⟩
        ⟨⟨{ w.st with connections := w.st.connections.set fd c' }, w.log ++ events⟩, due⟩
  /-- `epoll` watches for the events that the connection waits for. -/
  | rearm {w due fd c} (hfind : w.st.connections.find fd = some c) :
      Step K (.tend fd) ⟨w, due⟩ ⟨w.emit (.modified fd (clientEvents c)), due⟩
  | answer {w due fd c connections request response}
      (hfind : w.st.connections.find fd = some c)
      (hresponding : Responding w.st.connections fd c response connections)
      (htruthful : Truthful w.log request response) :
      Step K (.answer fd) ⟨w, due⟩
        ⟨⟨{ w.st with connections }, w.log ++ [.answered fd request response]⟩, due⟩
  /-- The monitor looks after its processes. -/
  | watch {w due v l} (hl : l.watches) (hstep : ProcessMonitor.Step K l (monitorWorld w) v) :
      Step K .watch ⟨w, due⟩ ⟨withMonitor w v, due⟩
  | submit {w due} {spec : JobSpec} (hid : w.st.nextJobId ≠ 0)
      (hjob : w.st.jobs.find w.st.nextJobId = none)
      (htimeout : ∀ timeout, spec.executionTimeout = some timeout → 0 < timeout) :
      Step K (.submit w.st.nextJobId) ⟨w, due⟩
        ⟨⟨{ w.st with
          monitor := { w.st.monitor with
            jobs := w.st.monitor.jobs.set w.st.nextJobId { id := w.st.nextJobId, spec } }
          scheduler := { w.st.scheduler with
            waitingJobIds := insert w.st.nextJobId w.st.scheduler.waitingJobIds
            waitingJobs := w.st.scheduler.waitingJobs ++ [w.st.nextJobId] }
          nextJobId := (w.st.nextJobId + 1) % 2 ^ 64 },
          w.log ++ [.submitted w.st.nextJobId]⟩, due⟩
  /-- A queued job is cancelled. -/
  | dequeue {w due v j} (hstep : ProcessMonitor.Step K (.dequeue j) (monitorWorld w) v) :
      Step K (.dequeue j) ⟨w, due⟩
        ⟨⟨{ w.st with
          monitor := v.st
          scheduler := { w.st.scheduler with
            waitingJobs := w.st.scheduler.waitingJobs.erase j
            waitingJobIds := w.st.scheduler.waitingJobIds.erase j } }, v.log⟩, due⟩
  /-- The next job is taken off the queue and fails to start. -/
  | misfire {w due v j rest l} (hl : l = .launchFailed j ∨ l = .abandoned j)
      (hslot : w.st.scheduler.activeJobIds.card < w.st.scheduler.maxRunning)
      (hwaiting : w.st.scheduler.waitingJobs = j :: rest)
      (hstep : ProcessMonitor.Step K l (monitorWorld w) v) :
      Step K (.misfire j) ⟨w, due⟩
        ⟨⟨{ w.st with
          monitor := v.st
          scheduler := { w.st.scheduler with
            activeJobIds := (insert j w.st.scheduler.activeJobIds).erase j
            waitingJobs := rest
            waitingJobIds := w.st.scheduler.waitingJobIds.erase j } }, v.log⟩, due⟩
  /-- The next job is taken off the queue and runs. -/
  | run {w v j rest job timeouts events}
      (hslot : w.st.scheduler.activeJobIds.card < w.st.scheduler.maxRunning)
      (hwaiting : w.st.scheduler.waitingJobs = j :: rest)
      (hstep : ProcessMonitor.Step K (.started j) (monitorWorld w) v)
      (hjob : w.st.jobs.find j = some job)
      (htimed : TimedStart w.st.timeouts job (K.now v.log) timeouts)
      (hevents : ∀ e ∈ events, choreEvent e) :
      Step K (.run j) ⟨w, []⟩
        ⟨⟨{ w.st with
          monitor := v.st
          timeouts
          scheduler := { w.st.scheduler with
            activeJobIds := insert j w.st.scheduler.activeJobIds
            waitingJobs := rest
            waitingJobIds := w.st.scheduler.waitingJobIds.erase j } }, v.log ++ events⟩, []⟩
  /-- A terminal job gives its slot back. -/
  | release {w due j rest} (hnotified : w.st.monitor.terminalJobNotifications = j :: rest) :
      Step K (.release j) ⟨w, due⟩
        ⟨⟨{ w.st with
          monitor := { w.st.monitor with terminalJobNotifications := rest }
          timeouts := w.st.timeouts.cancel j
          scheduler := { w.st.scheduler with
            activeJobIds := w.st.scheduler.activeJobIds.erase j } }, w.log⟩, due⟩
  /-- `handleReadable` takes the deadlines that have come. -/
  | expire {w now events} (hnow : now = K.now (w.log ++ [.called .readTimer]))
      (hread : ∃ more, events = .called .readTimer :: more) (hevents : ∀ e ∈ events, choreEvent e) :
      Step K .expire ⟨w, []⟩
        ⟨⟨{ w.st with timeouts := (w.st.timeouts.expireAt now).1.discardStaleEntries },
          w.log ++ events⟩, (w.st.timeouts.expireAt now).2⟩
  /-- Nothing is to be done about a job that does not run. -/
  | skip {w j rest} (hjob : ∀ job, w.st.jobs.find j = some job → job.state ≠ .running) :
      Step K .skip ⟨w, j :: rest⟩ ⟨w, rest⟩
  /-- The deadline of a running job is dropped because no process of its group is left. -/
  | spare {w j rest group} :
      Step K .spare ⟨w, j :: rest⟩ ⟨w.emit (.groupGone j group .SIGTERM), rest⟩
  /-- SIGTERM is delivered, and the old deadline cancelled. -/
  | terminate {w v j cause due rest}
      (hdue : due = j :: rest ∧ cause = .timedOut ∨ due = [] ∧ rest = [] ∧ cause = .cancelled)
      (hstep : ProcessMonitor.Step K (.terminate j cause) (monitorWorld w) v) :
      Step K (.terminate j) ⟨w, due⟩
        ⟨⟨{ w.st with monitor := v.st, timeouts := w.st.timeouts.cancel j }, v.log⟩, j :: rest⟩
  /-- A terminating job gets its grace deadline. -/
  | arm {w j rest job deadline events} (hjob : w.st.jobs.find j = some job)
      (hterminating : job.state = .terminating)
      (hdeadline : deadline = K.now w.log + kTerminationGracePeriod * 1000000)
      (hgen : w.st.timeouts.nextGeneration ≠ 0)
      (hevents : ∀ e ∈ events, choreEvent e) :
      Step K (.arm j) ⟨w, j :: rest⟩
        ⟨⟨{ w.st with timeouts := (w.st.timeouts.insert j deadline).discardStaleEntries },
          w.log ++ events⟩, rest⟩
  /-- The grace deadline is taken back because the timer could not be set. -/
  | fumble {w j rest deadline events} (hgen : w.st.timeouts.nextGeneration ≠ 0)
      (hevents : ∀ e ∈ events, choreEvent e) :
      Step K (.fumble j) ⟨w, j :: rest⟩
        ⟨⟨{ w.st with
          timeouts := (w.st.timeouts.insert j deadline).discardStaleEntries.cancel j },
          w.log ++ events⟩, j :: rest⟩
  /-- SIGKILL is delivered. -/
  | kill {w v j rest} (hstep : ProcessMonitor.Step K (.kill j) (monitorWorld w) v) :
      Step K (.kill j) ⟨w, j :: rest⟩ ⟨withMonitor w v, rest⟩

/-! ## What a step does to the monitor -/

/-- Events that say nothing of jobs and children. -/
def deskEvent : Event → Bool
  | .opened _ | .closed _ | .groupGone _ _ _ | .dispatching _ | .connected _ _ | .modified _ _
  | .received _ _ | .reachedEof _ | .sent _ _ | .asked _ _ | .answered _ _ _ => true
  | e => choreEvent e

theorem deskEvent_of_choreEvent {e : Event} (h : choreEvent e) : deskEvent e := by
  cases e <;> first | rfl | cases h

theorem Tending.deskEvents {fd : Fd} {c c' : Connection} {events : List Event}
    (h : Tending fd c c' events) : ∀ e ∈ events, deskEvent e := by
  cases h <;> simp [deskEvent]

theorem deskEvents_of_choreEvents {events : List Event} (h : ∀ e ∈ events, choreEvent e) :
    ∀ e ∈ events, deskEvent e := fun e he => deskEvent_of_choreEvent (h e he)

theorem ledger_deskEvent (l : Ledger) {e : Event} (h : deskEvent e) :
    (l.step e).state = l.state ∧ (l.step e).cause = l.cause ∧ (l.step e).signals = l.signals ∧
      Ledger.SameJobs l (l.step e) := by
  cases e <;> first | exact ⟨rfl, rfl, rfl, rfl, rfl, rfl, rfl, id⟩ | cases h

variable {K : Kernel} {l : Label} {m m' : Moment}

/-- The monitor's part of a moment. -/
abbrev Moment.monitorWorld (m : Moment) : World ProcessMonitor := Daemon.monitorWorld m.world

/-- The monitor's part in a step of the daemon. -/
def Label.Invokes : Label → ProcessMonitor.Label → Prop
  | .watch, l => l.watches
  | .submit j, l => l = .submit j
  | .dequeue j, l => l = .dequeue j
  | .misfire j, l => l = .launchFailed j ∨ l = .abandoned j
  | .run j, l => l = .started j
  | .release _, l => l = .collect
  | .terminate j, l => ∃ cause, l = .terminate j cause
  | .kill j, l => l = .kill j
  | _, _ => False

theorem Label.eq_of_invokes_submit {j : JobId} (h : l.Invokes (.submit j)) : l = .submit j := by
  cases l with
  | submit k =>
    obtain rfl := ProcessMonitor.Label.submit.inj h
    rfl
  | misfire => obtain h | h := h <;> cases h
  | terminate =>
    obtain ⟨cause, h⟩ := h
    cases h
  | _ => cases h

/-- A step is the step of the monitor that its label asks for, if any, and events that say nothing of
jobs. -/
theorem Step.invokes (h : Step K l m m') :
    ∃ v events, (v = m.monitorWorld ∧ (∀ l', ¬ l.Invokes l') ∨ ∃ l', l.Invokes l' ∧
        ProcessMonitor.Step K l' m.monitorWorld v) ∧
      m'.monitorWorld = ⟨v.st, v.log ++ events⟩ ∧ ∀ e ∈ events, deskEvent e := by
  have hself : ∀ v : World ProcessMonitor, v = ⟨v.st, v.log ++ []⟩ := fun v => by
    rw [List.append_nil]
  cases h with
  | attend hevents => exact ⟨_, _, Or.inl ⟨rfl, fun _ => id⟩, rfl, deskEvents_of_choreEvents hevents⟩
  | take => exact ⟨_, _, Or.inl ⟨rfl, fun _ => id⟩, rfl, by simp [deskEvent]⟩
  | accept hnew hevents =>
    refine ⟨_, _, Or.inl ⟨rfl, fun _ => id⟩, rfl, List.forall_mem_cons.mpr ⟨rfl, ?_⟩⟩
    exact List.forall_mem_append.mpr ⟨deskEvents_of_choreEvents hevents, by simp [deskEvent]⟩
  | refuse hevents =>
    refine ⟨_, _, Or.inl ⟨rfl, fun _ => id⟩, rfl, List.forall_mem_cons.mpr ⟨rfl, ?_⟩⟩
    exact List.forall_mem_append.mpr ⟨deskEvents_of_choreEvents hevents, by simp [deskEvent]⟩
  | hangUp hfind => exact ⟨_, _, Or.inl ⟨rfl, fun _ => id⟩, rfl, by simp [deskEvent, choreEvent]⟩
  | tend hfind htending => exact ⟨_, _, Or.inl ⟨rfl, fun _ => id⟩, rfl, htending.deskEvents⟩
  | rearm hfind => exact ⟨_, _, Or.inl ⟨rfl, fun _ => id⟩, rfl, by simp [deskEvent]⟩
  | answer hfind hresponding htruthful =>
    exact ⟨_, _, Or.inl ⟨rfl, fun _ => id⟩, rfl, by simp [deskEvent]⟩
  | watch hl hstep => exact ⟨_, [], Or.inr ⟨_, hl, hstep⟩, hself _, by simp⟩
  | submit hid hjob htimeout =>
    exact ⟨_, [], Or.inr ⟨_, rfl, .submit hjob⟩, hself _, by simp⟩
  | dequeue hstep => exact ⟨_, [], Or.inr ⟨_, rfl, hstep⟩, hself _, by simp⟩
  | misfire hl hslot hwaiting hstep => exact ⟨_, [], Or.inr ⟨_, hl, hstep⟩, hself _, by simp⟩
  | run hslot hwaiting hstep hjob htimed hevents =>
    exact ⟨_, _, Or.inr ⟨_, rfl, hstep⟩, rfl, deskEvents_of_choreEvents hevents⟩
  | release hnotified => exact ⟨_, [], Or.inr ⟨_, rfl, .collect hnotified⟩, hself _, by simp⟩
  | expire hnow hread hevents =>
    exact ⟨_, _, Or.inl ⟨rfl, fun _ => id⟩, rfl, deskEvents_of_choreEvents hevents⟩
  | skip hjob => exact ⟨_, [], Or.inl ⟨rfl, fun _ => id⟩, hself _, by simp⟩
  | spare => exact ⟨_, _, Or.inl ⟨rfl, fun _ => id⟩, rfl, by simp [deskEvent]⟩
  | terminate hdue hstep => exact ⟨_, [], Or.inr ⟨_, ⟨_, rfl⟩, hstep⟩, hself _, by simp⟩
  | arm hjob hterminating hdeadline hgen hevents =>
    exact ⟨_, _, Or.inl ⟨rfl, fun _ => id⟩, rfl, deskEvents_of_choreEvents hevents⟩
  | fumble hgen hevents =>
    exact ⟨_, _, Or.inl ⟨rfl, fun _ => id⟩, rfl, deskEvents_of_choreEvents hevents⟩
  | kill hstep => exact ⟨_, [], Or.inr ⟨_, rfl, hstep⟩, hself _, by simp⟩

/-- A step is at most one step of the monitor, and events that say nothing of jobs. -/
theorem Step.monitor (h : Step K l m m') :
    ∃ v events, (v = m.monitorWorld ∨ ∃ l', l.Invokes l' ∧
        ProcessMonitor.Step K l' m.monitorWorld v) ∧
      m'.monitorWorld = ⟨v.st, v.log ++ events⟩ ∧ ∀ e ∈ events, deskEvent e := by
  obtain ⟨v, events, hv, hend⟩ := h.invokes
  exact ⟨v, events, hv.imp_left And.left, hend⟩

theorem Step.log_prefix (h : Step K l m m') :
    ∃ events, m'.world.log = m.world.log ++ events := by
  obtain ⟨v, events, hv, hm', -⟩ := h.monitor
  have hlog : m'.world.log = v.log ++ events := congrArg World.log hm'
  rw [hlog]
  obtain rfl | ⟨_, _, hstep⟩ := hv
  · exact ⟨events, rfl⟩
  · obtain ⟨more, hmore⟩ := hstep.log_prefix
    exact ⟨more ++ events, by rw [hmore, List.append_assoc]; rfl⟩

theorem Step.wf (h : Step K l m m') (hwf : Wf m.world.st.monitor) : Wf m'.world.st.monitor := by
  obtain ⟨v, events, hv, hm', -⟩ := h.monitor
  have hst : m'.world.st.monitor = v.st := congrArg World.st hm'
  rw [hst]
  obtain rfl | ⟨_, _, hstep⟩ := hv
  · exact hwf
  · exact hstep.wf hwf

theorem recorded_deskEvents {v : World ProcessMonitor} {events : List Event}
    (hevents : ∀ e ∈ events, deskEvent e) (h : Recorded v) :
    Recorded ⟨v.st, v.log ++ events⟩ := by
  induction events generalizing v with
  | nil => simpa using h
  | cons e events ih =>
    obtain ⟨he, hrest⟩ := List.forall_mem_cons.mp hevents
    have hconcat : Recorded ⟨v.st, v.log ++ [e]⟩ := by
      refine h.keep ?_ rfl rfl
      rw [ledger_concat]
      exact (ledger_deskEvent _ he).2.2.2
    simpa using ih hrest hconcat

theorem Step.recorded (h : Step K l m m') (hwf : Wf m.world.st.monitor)
    (hr : Recorded m.monitorWorld) : Recorded m'.monitorWorld := by
  obtain ⟨v, events, hv, hm', hevents⟩ := h.monitor
  rw [hm']
  refine recorded_deskEvents hevents ?_
  obtain rfl | ⟨_, _, hstep⟩ := hv
  · exact hr
  · exact hstep.recorded hwf hr

/-- What a step does to the record of a job: nothing, or it rewrites it, or the job is new. -/
theorem Step.rewrites (h : Step K l m m') (hwf : Wf m.world.st.monitor) (k : JobId) :
    m'.world.st.jobs.find k = m.world.st.jobs.find k ∨
      (∃ job job', m.world.st.jobs.find k = some job ∧ m'.world.st.jobs.find k = some job' ∧
        Rewrites K (m.world.st.monitor.activeJobs.find k) job job') ∨
      ∃ spec, l = .submit k ∧ m.world.st.jobs.find k = none ∧
        m'.world.st.jobs.find k = some { id := k, spec } := by
  obtain ⟨v, events, hv, hm', -⟩ := h.monitor
  have hjobs : m'.world.st.jobs = v.st.jobs := congrArg (fun t => t.st.jobs) hm'
  rw [hjobs]
  obtain rfl | ⟨l', hinvokes, hstep⟩ := hv
  · exact Or.inl rfl
  · refine (hstep.rewrites hwf k).imp_right (Or.imp_right ?_)
    rintro ⟨spec, rfl, hnone, hnew⟩
    exact ⟨spec, Label.eq_of_invokes_submit hinvokes, hnone, hnew⟩

/-! ## Slots and the queue -/

/-- The state of a job, as the job table has it. -/
def stateOf (d : Daemon) (j : JobId) : Option JobState := (d.jobs.find j).map Job.state

theorem stateOf_of_find {d : Daemon} {j : JobId} {job : Job} (h : d.jobs.find j = some job) :
    d.stateOf j = some job.state := by
  unfold stateOf
  rw [h]
  rfl

/-- What the monitor does by itself changes no job's state, or settles one job and notes it. -/
theorem states_of_watches {v w : World ProcessMonitor} {l : ProcessMonitor.Label}
    (hl : l.watches) (hstep : ProcessMonitor.Step K l w v) (hwf : Wf w.st) :
    ((∀ k, (v.st.jobs.find k).map Job.state = (w.st.jobs.find k).map Job.state) ∧
        v.st.terminalJobNotifications = w.st.terminalJobNotifications) ∨
      ∃ j s s', (w.st.jobs.find j).map Job.state = some s ∧ s.isActive ∧ isTerminal s' ∧
        (∀ k, (v.st.jobs.find k).map Job.state =
          if k = j then some s' else (w.st.jobs.find k).map Job.state) ∧
        v.st.terminalJobNotifications = w.st.terminalJobNotifications ++ [j] := by
  cases hstep with
  | idle | receive | finish | exited | stray | lost => exact Or.inl ⟨fun _ => rfl, rfl⟩
  | @settle _ j p job job' hactive hcomplete hjob hsettled =>
    refine Or.inr ⟨j, job.state, job'.state, by rw [hjob]; rfl, hwf.isActive hjob hactive,
      (settles_of_settledJob hsettled).terminal, fun k => ?_, rfl⟩
    simp only [Table.find_set]
    split_ifs <;> rfl
  | @garble _ j p job hactive hcomplete hjob hsettled =>
    refine Or.inl ⟨fun k => ?_, rfl⟩
    simp only [Table.find_set]
    split_ifs with hk
    · rw [hk, hjob]
      rfl
    · rfl
  | misuse | misstart | launchFailed | abandoned | started | terminate | kill | submit | dequeue
    | collect => cases hl

/-- The ids handed out before this one are those below the limit. -/
def idLimit (nextJobId : ℕ) : ℕ := if nextJobId = 0 then 2 ^ 64 else nextJobId

theorem idLimit_succ {n : ℕ} (h : n < 2 ^ 64) : idLimit ((n + 1) % 2 ^ 64) = n + 1 := by
  unfold idLimit
  split_ifs <;> omega

/-- The job table, the scheduler and the notifications agree. A slot is held by a job that runs or
terminates, and by a terminal one until its notification is dealt with. -/
structure Slots (n : ℕ) (d : Daemon) : Prop where
  maxRunning : d.scheduler.maxRunning = n
  bounded : d.nextJobId < 2 ^ 64
  known : ∀ j, (d.stateOf j).isSome ↔ 0 < j ∧ j < idLimit d.nextJobId
  sorted : d.scheduler.waitingJobs.Pairwise (· < ·)
  waitingIds : ∀ j, j ∈ d.scheduler.waitingJobIds ↔ j ∈ d.scheduler.waitingJobs
  waiting : ∀ j, j ∈ d.scheduler.waitingJobs ↔ d.stateOf j = some .queued
  slots : ∀ j, j ∈ d.scheduler.activeJobIds ↔
    (∃ s, d.stateOf j = some s ∧ s.isActive) ∨ j ∈ d.monitor.terminalJobNotifications
  card : d.scheduler.activeJobIds.card ≤ n

section Slots

variable {n : ℕ} {d d' : Daemon} {j : JobId}

theorem stateOf_initial (s : Setup) (j : JobId) : s.initial.st.stateOf j = none := rfl

theorem slots_initial (s : Setup) : Slots s.maxRunning s.initial.st where
  maxRunning := rfl
  bounded := show 1 < 2 ^ 64 by decide
  known j := by
    rw [stateOf_initial]
    show false = true ↔ 0 < j ∧ j < 1
    simp only [Bool.false_eq_true, false_iff]
    exact fun hj => hj.1.ne' (Nat.lt_one_iff.mp hj.2)
  sorted := List.Pairwise.nil
  waitingIds j := by simp [Setup.initial]
  waiting j := by
    rw [stateOf_initial]
    simp [Setup.initial]
  slots j := by
    rw [stateOf_initial]
    simp [Setup.initial]
  card := by simp [Setup.initial]

/-- Nothing that concerns the slots has changed. -/
theorem Slots.keep (h : Slots n d) (hscheduler : d'.scheduler = d.scheduler)
    (hstate : ∀ k, d'.stateOf k = d.stateOf k)
    (hnotified : d'.monitor.terminalJobNotifications = d.monitor.terminalJobNotifications)
    (hid : d'.nextJobId = d.nextJobId) : Slots n d' where
  maxRunning := by rw [hscheduler, h.maxRunning]
  bounded := by rw [hid]; exact h.bounded
  known j := by
    rw [hid, hstate]
    exact h.known j
  sorted := by rw [hscheduler]; exact h.sorted
  waitingIds := by rw [hscheduler]; exact h.waitingIds
  waiting j := by rw [hscheduler, hstate]; exact h.waiting j
  slots j := by rw [hscheduler, hstate, hnotified]; exact h.slots j
  card := by rw [hscheduler]; exact h.card

/-- One job goes from one state to another, and the scheduler follows. -/
theorem Slots.setState (h : Slots n d) {s s' : JobState} (hs : d.stateOf j = some s)
    (hstate : ∀ k, d'.stateOf k = if k = j then some s' else d.stateOf k)
    (hid : d'.nextJobId = d.nextJobId)
    (hmax : d'.scheduler.maxRunning = d.scheduler.maxRunning)
    (hsorted : d'.scheduler.waitingJobs.Pairwise (· < ·))
    (hids : ∀ k, k ∈ d'.scheduler.waitingJobIds ↔ k ∈ d'.scheduler.waitingJobs)
    (hwaiting : ∀ k, k ∈ d'.scheduler.waitingJobs ↔
      if k = j then s' = .queued else k ∈ d.scheduler.waitingJobs)
    (hslots : ∀ k, (k ∈ d'.scheduler.activeJobIds ↔ if k = j then
        s'.isActive ∨ j ∈ d'.monitor.terminalJobNotifications else k ∈ d.scheduler.activeJobIds) ∧
      (k ≠ j → (k ∈ d'.monitor.terminalJobNotifications ↔
        k ∈ d.monitor.terminalJobNotifications)))
    (hcard : d'.scheduler.activeJobIds.card ≤ n) : Slots n d' where
  maxRunning := by rw [hmax, h.maxRunning]
  bounded := by rw [hid]; exact h.bounded
  known k := by
    rw [hid]
    refine Iff.trans ?_ (h.known k)
    rw [hstate]
    split_ifs with hk
    · rw [hk, hs]
      simp
    · rfl
  sorted := hsorted
  waitingIds := hids
  waiting k := by
    rw [hwaiting, hstate]
    split_ifs with hk
    · simp
    · exact h.waiting k
  slots k := by
    obtain ⟨hslot, hnotified⟩ := hslots k
    rw [hslot, hstate]
    split_ifs with hk
    · simp [hk]
    · rw [hnotified hk]
      exact h.slots k
  card := hcard

/-- A job that holds a slot is not in the queue. -/
theorem Slots.not_waiting (h : Slots n d) (hwf : Wf d.monitor)
    (hj : j ∈ d.scheduler.activeJobIds) : j ∉ d.scheduler.waitingJobs := by
  rw [h.waiting]
  intro hqueued
  obtain ⟨s, hs, hactive⟩ | hnotified := (h.slots j).mp hj
  · rw [hs] at hqueued
    obtain rfl := Option.some.inj hqueued
    cases hactive
  · obtain ⟨job, hjob, hterm⟩ := hwf.notified j hnotified
    rw [stateOf_of_find hjob] at hqueued
    exact ne_of_isTerminal hterm rfl (Option.some.inj hqueued)

theorem stateOf_set {jobs : JobTable} {job : Job} (k : JobId) :
    ((jobs.set j job).find k).map Job.state =
      if k = j then some job.state else (jobs.find k).map Job.state := by
  rw [Table.find_set]
  split_ifs <;> rfl

/-- A failed start fails the job. -/
theorem states_of_misfire {v w : World ProcessMonitor} {l : ProcessMonitor.Label}
    (hl : l = .launchFailed j ∨ l = .abandoned j) (hstep : ProcessMonitor.Step K l w v) :
    (∀ k, (v.st.jobs.find k).map Job.state =
        if k = j then some .failed else (w.st.jobs.find k).map Job.state) ∧
      v.st.terminalJobNotifications = w.st.terminalJobNotifications := by
  obtain rfl | rfl := hl
  · cases hstep
    exact ⟨stateOf_set, rfl⟩
  · cases hstep
    exact ⟨stateOf_set, rfl⟩

/-- What the scheduler finds when it takes the next job off the queue. -/
theorem Slots.takeNext (h : Slots n d) (hwf : Wf d.monitor) {rest : List JobId}
    (hwaiting : d.scheduler.waitingJobs = j :: rest) :
    rest.Pairwise (· < ·) ∧ (∀ k, k ∈ rest ↔ k ≠ j ∧ k ∈ d.scheduler.waitingJobs) ∧
      (∀ k, k ∈ d.scheduler.waitingJobIds.erase j ↔ k ∈ rest) ∧ d.stateOf j = some .queued ∧
      j ∉ d.scheduler.activeJobIds := by
  have hsorted : (j :: rest).Pairwise (· < ·) := hwaiting ▸ h.sorted
  have hj : j ∈ d.scheduler.waitingJobs := by
    rw [hwaiting]
    exact List.mem_cons_self
  have hmem : ∀ k, k ∈ rest ↔ k ≠ j ∧ k ∈ d.scheduler.waitingJobs := fun k => by
    rw [hwaiting, List.mem_cons]
    constructor
    · exact fun hk => ⟨(List.rel_of_pairwise_cons hsorted hk).ne', Or.inr hk⟩
    · exact fun hk => hk.2.resolve_left hk.1
  refine ⟨hsorted.of_cons, hmem, fun k => ?_, (h.waiting j).mp hj, fun hfree => ?_⟩
  · rw [Finset.mem_erase, h.waitingIds, hmem]
  · exact h.not_waiting hwf hfree hj

theorem Step.slots (hstep : Step K l m m') (hwf : Wf m.world.st.monitor)
    (h : Slots n m.world.st) : Slots n m'.world.st := by
  cases hstep with
  | attend | take | accept | refuse | hangUp | tend | rearm | answer | expire | skip | spare | arm
    | fumble => exact h.keep rfl (fun _ => rfl) rfl rfl
  | @watch w due v l hl hstep =>
    obtain ⟨hstate, hnotified⟩ | ⟨j, s, s', hs, hactive, hterm, hstate, hnotified⟩ :=
      states_of_watches hl hstep hwf
    · exact h.keep rfl hstate hnotified rfl
    · have hslot : j ∈ w.st.scheduler.activeJobIds := (h.slots j).mpr (Or.inl ⟨s, hs, hactive⟩)
      refine h.setState hs hstate rfl rfl h.sorted h.waitingIds (fun k => ?_) (fun k => ?_) h.card
      · show k ∈ w.st.scheduler.waitingJobs ↔ _
        split_ifs with hk
        · rw [hk]
          exact iff_of_false (h.not_waiting hwf hslot) (ne_of_isTerminal hterm rfl)
        · rfl
      · have hnotified : (withMonitor w v).st.monitor.terminalJobNotifications =
          w.st.monitor.terminalJobNotifications ++ [j] := hnotified
        rw [hnotified]
        refine ⟨?_, fun hk => by simp [hk]⟩
        show k ∈ w.st.scheduler.activeJobIds ↔ _
        split_ifs with hk
        · rw [hk]
          exact iff_of_true hslot (Or.inr (by simp))
        · rfl
  | @submit w due spec hid hjob htimeout =>
    have hlimit : idLimit w.st.nextJobId = w.st.nextJobId := if_neg hid
    have hnone : w.st.stateOf w.st.nextJobId = none := by
      unfold stateOf
      rw [hjob]
      rfl
    have hbelow : ∀ k, (w.st.stateOf k).isSome → k < w.st.nextJobId := fun k hk => by
      rw [h.known, hlimit] at hk
      exact hk.2
    have hnew : w.st.nextJobId ∉ w.st.scheduler.waitingJobs := by
      rw [h.waiting, hnone]
      simp
    constructor
    · exact h.maxRunning
    · exact Nat.mod_lt _ (by decide)
    · intro k
      have hknown := h.known k
      rw [hlimit] at hknown
      rw [idLimit_succ h.bounded, Nat.lt_succ_iff_lt_or_eq]
      unfold stateOf at hknown ⊢
      rw [stateOf_set]
      split_ifs with hk
      · rw [hk]
        simpa using Nat.pos_of_ne_zero hid
      · rw [hknown]
        exact and_congr_right fun _ => ⟨Or.inl, fun hlt => hlt.resolve_right hk⟩
    · refine List.pairwise_append.mpr ⟨h.sorted, List.pairwise_singleton _ _, fun k hk k' hk' => ?_⟩
      rw [List.mem_singleton] at hk'
      rw [hk']
      refine hbelow k ?_
      rw [(h.waiting k).mp hk]
      rfl
    · intro k
      simp only [Finset.mem_insert, h.waitingIds, List.mem_append, List.mem_singleton]
      exact or_comm
    · intro k
      have hwaiting := h.waiting k
      unfold stateOf at hwaiting ⊢
      simp only [List.mem_append, List.mem_singleton]
      rw [stateOf_set, hwaiting]
      split_ifs with hk
      · simp [hk]
      · simp [hk]
    · intro k
      have hslots := h.slots k
      unfold stateOf at hslots ⊢
      rw [stateOf_set]
      refine hslots.trans ?_
      split_ifs with hk
      · rw [hk, hjob]
        simp [JobState.isActive]
      · rfl
    · exact h.card
  | @dequeue w due v j hstep =>
    cases hstep with
    | @dequeue _ _ job hjob hqueued =>
    have hs : w.st.stateOf j = some job.state := stateOf_of_find hjob
    have hsorted : (w.st.scheduler.waitingJobs.erase j).Pairwise (· < ·) :=
      h.sorted.sublist List.erase_sublist
    have hnodup : w.st.scheduler.waitingJobs.Nodup := h.sorted.imp ne_of_lt
    have hfree : j ∉ w.st.scheduler.activeJobIds := fun hj => by
      refine h.not_waiting hwf hj ((h.waiting j).mpr ?_)
      rw [hs, hqueued]
    have hmem : ∀ k, k ∈ w.st.scheduler.waitingJobs.erase j ↔
        k ≠ j ∧ k ∈ w.st.scheduler.waitingJobs := fun k => hnodup.mem_erase_iff
    refine h.setState hs (fun k => stateOf_set k) rfl rfl hsorted (fun k => ?_) (fun k => ?_)
      (fun k => ⟨?_, fun _ => Iff.rfl⟩) h.card
    · rw [hmem, Finset.mem_erase, h.waitingIds]
    · show k ∈ w.st.scheduler.waitingJobs.erase j ↔ _
      rw [hmem]
      split_ifs with hk
      · simp [hk]
      · simp [hk]
    · show k ∈ w.st.scheduler.activeJobIds ↔ _
      split_ifs with hk
      · rw [hk]
        refine iff_of_false hfree ?_
        simp only [JobState.isActive, Bool.false_eq_true, false_or]
        exact fun hnotified => hfree ((h.slots j).mpr (Or.inr hnotified))
      · rfl
  | @misfire w due v j rest l hl hslot hwaiting hstep =>
    obtain ⟨hstate, hnotified⟩ := states_of_misfire hl hstep
    obtain ⟨hsorted, hmem, hids, hs, hfree⟩ := h.takeNext hwf hwaiting
    have herase : (insert j w.st.scheduler.activeJobIds).erase j = w.st.scheduler.activeJobIds :=
      Finset.erase_insert hfree
    refine h.setState hs hstate rfl rfl hsorted hids (fun k => ?_) (fun k => ⟨?_, fun _ => ?_⟩) ?_
    · show k ∈ rest ↔ _
      rw [hmem]
      split_ifs with hk
      · simp [hk]
      · simp [hk]
    · show k ∈ (insert j w.st.scheduler.activeJobIds).erase j ↔
        if k = j then _ ∨ j ∈ v.st.terminalJobNotifications else _
      rw [herase, hnotified]
      split_ifs with hk
      · rw [hk]
        refine iff_of_false hfree ?_
        simp only [JobState.isActive, Bool.false_eq_true, false_or]
        exact fun hj => hfree ((h.slots j).mpr (Or.inr hj))
      · rfl
    · show k ∈ v.st.terminalJobNotifications ↔ _
      rw [hnotified]
      rfl
    · show ((insert j w.st.scheduler.activeJobIds).erase j).card ≤ n
      rw [herase]
      exact h.card
  | @run w v j rest job timeouts events hslot hwaiting hstep hjob htimed hevents =>
    obtain ⟨hsorted, hmem, hids, hs, hfree⟩ := h.takeNext hwf hwaiting
    cases hstep with
    | started hjob' hqueued hlaunch hgroup hpid hfresh hdistinct =>
    refine h.setState hs (fun k => stateOf_set k) rfl rfl hsorted hids (fun k => ?_)
      (fun k => ⟨?_, fun _ => Iff.rfl⟩) ?_
    · show k ∈ rest ↔ _
      rw [hmem]
      split_ifs with hk
      · simp [hk]
      · simp [hk]
    · show k ∈ insert j w.st.scheduler.activeJobIds ↔ _
      rw [Finset.mem_insert]
      split_ifs with hk
      · exact iff_of_true (Or.inl hk) (Or.inl rfl)
      · simp [hk]
    · show (insert j w.st.scheduler.activeJobIds).card ≤ n
      rw [Finset.card_insert_of_notMem hfree]
      have hmax : w.st.scheduler.maxRunning = n := h.maxRunning
      exact Nat.succ_le_of_lt (hmax ▸ hslot)
  | @release w due j rest hnotified =>
    have hnodup : (j :: rest).Nodup := hnotified ▸ hwf.notified_nodup
    obtain ⟨job, hjob, hterm⟩ := hwf.notified j (by rw [hnotified]; exact List.mem_cons_self)
    have hs : w.st.stateOf j = some job.state := stateOf_of_find hjob
    have hinactive := isActive_of_isTerminal hterm
    have hslot : j ∈ w.st.scheduler.activeJobIds :=
      (h.slots j).mpr (Or.inr (by rw [hnotified]; exact List.mem_cons_self))
    refine @Slots.setState _ _ _ _ h _ job.state hs (fun k => ?_) rfl rfl h.sorted h.waitingIds
      (fun k => ?_) (fun k => ⟨?_, fun hk => ?_⟩) ?_
    · show w.st.stateOf k = _
      split_ifs with hk
      · rw [hk, hs]
      · rfl
    · show k ∈ w.st.scheduler.waitingJobs ↔ _
      split_ifs with hk
      · rw [hk]
        exact iff_of_false (h.not_waiting hwf hslot) (ne_of_isTerminal hterm rfl)
      · rfl
    · show k ∈ w.st.scheduler.activeJobIds.erase j ↔ if k = j then _ ∨ j ∈ rest else _
      rw [Finset.mem_erase]
      split_ifs with hk
      · simp [hk, hinactive, (List.nodup_cons.mp hnodup).1]
      · simp [hk]
    · show k ∈ rest ↔ k ∈ w.st.monitor.terminalJobNotifications
      rw [hnotified, List.mem_cons]
      exact ⟨Or.inr, fun h => h.resolve_left hk⟩
    · exact (Finset.card_erase_le).trans h.card
  | @terminate w v j cause due rest hdue hstep =>
    cases hstep with
    | @terminate _ _ p job _ hactive hjob hrunning =>
    have hs : w.st.stateOf j = some job.state := stateOf_of_find hjob
    have hslot : j ∈ w.st.scheduler.activeJobIds :=
      (h.slots j).mpr (Or.inl ⟨_, hs, by rw [hrunning]; rfl⟩)
    refine h.setState hs (fun k => stateOf_set k) rfl rfl h.sorted h.waitingIds (fun k => ?_)
      (fun k => ⟨?_, fun _ => Iff.rfl⟩) h.card
    · show k ∈ w.st.scheduler.waitingJobs ↔ _
      split_ifs with hk
      · rw [hk]
        exact iff_of_false (h.not_waiting hwf hslot) (by simp)
      · rfl
    · show k ∈ w.st.scheduler.activeJobIds ↔ _
      split_ifs with hk
      · rw [hk]
        exact iff_of_true hslot (Or.inl rfl)
      · rfl
  | @kill w v j rest hstep =>
    cases hstep with
    | kill => exact h.keep rfl (fun _ => rfl) rfl rfl

end Slots

/-! ## Deadlines -/

/-- The job has left the queue. -/
def OffQueue (d : Daemon) (j : JobId) : Prop :=
  ∃ job, d.jobs.find j = some job ∧ job.state ≠ .queued

theorem Step.offQueue (hstep : Step K l m m') (hwf : Wf m.world.st.monitor) {j : JobId}
    (h : OffQueue m.world.st j) : OffQueue m'.world.st j := by
  obtain ⟨job, hjob, hstate⟩ := h
  obtain heq | ⟨_, job', _, hjob', hrewrites⟩ | ⟨_, _, hnone, _⟩ := hstep.rewrites hwf j
  · exact ⟨job, heq.trans hjob, hstate⟩
  · exact ⟨job', hjob', hrewrites.ne_queued⟩
  · rw [hjob] at hnone
    cases hnone

/-- The job has a deadline, or one that is being acted upon. -/
def Moment.Owed (m : Moment) (j : JobId) : Prop :=
  (m.world.st.timeouts.activeGenerations.find j).isSome ∨ j ∈ m.due

/-- The timeout manager stands for a map of deadlines, and a job whose deadline is being acted upon
has none there. -/
structure Timed (m : Moment) : Prop where
  refines : ∃ f, m.world.st.timeouts.Refines f
  due_nodup : m.due.Nodup
  due_off : ∀ j ∈ m.due, m.world.st.timeouts.activeGenerations.find j = none
  positive : ∀ {j job timeout}, m.world.st.jobs.find j = some job →
    job.spec.executionTimeout = some timeout → 0 < timeout
  offQueue : ∀ j, m.Owed j → OffQueue m.world.st j

theorem timed_initial (s : Setup) : Timed ⟨s.initial, []⟩ where
  refines := ⟨_, TimeoutManager.refines_initial⟩
  due_nodup := List.nodup_nil
  due_off j hj := by cases hj
  positive h := by cases h
  offQueue j hj := by
    obtain hj | hj := hj
    · cases hj
    · cases hj

/-- The deadlines after a new one. -/
theorem activeGenerations_insert (t : TimeoutManager) (j : JobId) (deadline : ℤ) :
    (t.insert j deadline).discardStaleEntries.activeGenerations =
      t.activeGenerations.set j t.nextGeneration :=
  (TimeoutManager.discardStaleEntries_spec _).active

theorem find_cancel (t : TimeoutManager) (j k : JobId) :
    (t.cancel j).activeGenerations.find k = if k = j then none else t.activeGenerations.find k :=
  Table.find_del _ _ _

/-- A job that has come due has no deadline left. -/
theorem due_of_expireAt {t : TimeoutManager} {f : DeadlineMap JobId ℤ} (h : t.Refines f) (now : ℤ) :
    (t.expireAt now).2.Nodup ∧ ∀ j ∈ (t.expireAt now).2,
      (t.expireAt now).1.discardStaleEntries.activeGenerations.find j = none := by
  obtain ⟨hrefines, hdue⟩ := h.expireAt now
  refine ⟨hdue.nodup, fun j hj => ?_⟩
  rw [← Option.not_isSome_iff_eq_none, hrefines.discardStaleEntries.isSome_iff]
  rw [Option.isSome_iff_exists]
  rintro ⟨d, hd⟩
  exact (DeadlineMap.expire_eq_some_iff.mp hd).2 ((hdue.mem_iff j).mp hj)

theorem Step.positive (hstep : Step K l m m') (hwf : Wf m.world.st.monitor) (h : Timed m)
    {j : JobId} {job : Job} {timeout : JobTimeout} (hjob : m'.world.st.jobs.find j = some job)
    (htimeout : job.spec.executionTimeout = some timeout) : 0 < timeout := by
  obtain heq | ⟨job₀, job', hjob₀, hjob', hrewrites⟩ | ⟨spec, rfl, hnone, hnew⟩ := hstep.rewrites hwf j
  · exact h.positive (heq.symm.trans hjob) htimeout
  · rw [hjob'] at hjob
    obtain rfl := Option.some.inj hjob
    exact h.positive hjob₀ (hrewrites.spec_eq ▸ htimeout)
  · cases hstep with
    | submit hid hnone hpos =>
      obtain rfl := Option.some.inj ((Table.find_set_self _ _ _).symm.trans hjob)
      exact hpos _ htimeout

/-- A job gets a deadline when it starts or is terminated. -/
theorem Step.owed (hstep : Step K l m m') (hwf : Wf m.world.st.monitor) (h : Timed m) {j : JobId}
    (hj : m'.Owed j) : m.Owed j ∨ OffQueue m'.world.st j := by
  cases hstep with
  | attend | take | accept | refuse | hangUp | tend | rearm | answer | watch | submit | dequeue
    | misfire => exact Or.inl hj
  | @run w v k rest job timeouts events hslot hwaiting hstep hjob htimed hevents =>
    obtain ⟨rfl, -⟩ | ⟨timeout, -, -, rfl⟩ := htimed
    · exact Or.inl hj
    · obtain hj | hj := hj
      · simp only [activeGenerations_insert, Table.find_set] at hj
        split_ifs at hj with hjk
        · right
          rw [hjk, hwf.id_eq hjob]
          cases hstep with
          | started => exact ⟨_, Table.find_set_self _ _ _, by simp⟩
        · exact Or.inl (Or.inl hj)
      · cases hj
  | release hnotified =>
    obtain hj | hj := hj
    · simp only [find_cancel] at hj
      split_ifs at hj
      · cases hj
      · exact Or.inl (Or.inl hj)
    · exact Or.inl (Or.inr hj)
  | @expire w now events hnow hread hevents =>
    obtain ⟨f, hf⟩ := h.refines
    obtain ⟨hrefines, hdue⟩ := hf.expireAt now
    refine Or.inl (Or.inl ((hf.isSome_iff j).mpr ?_))
    obtain hj | hj := hj
    · obtain ⟨d, hd⟩ := Option.isSome_iff_exists.mp
        ((hrefines.discardStaleEntries.isSome_iff j).mp hj)
      rw [(DeadlineMap.expire_eq_some_iff.mp hd).1]
      rfl
    · obtain ⟨d, hd, -⟩ := (hdue.mem_iff j).mp hj
      rw [hd]
      rfl
  | skip | spare | kill =>
    obtain hj | hj := hj
    · exact Or.inl (Or.inl hj)
    · exact Or.inl (Or.inr (List.mem_cons_of_mem _ hj))
  | @terminate w v k cause due rest hdue hstep =>
    by_cases hjk : j = k
    · subst hjk
      cases hstep with
      | terminate => exact Or.inr ⟨_, Table.find_set_self _ _ _, by simp⟩
    · obtain hj | hj := hj
      · simp only [find_cancel, if_neg hjk] at hj
        exact Or.inl (Or.inl hj)
      · have hj := (List.mem_cons.mp hj).resolve_left hjk
        obtain ⟨rfl, -⟩ | ⟨-, rfl, -⟩ := hdue
        · exact Or.inl (Or.inr (List.mem_cons_of_mem _ hj))
        · cases hj
  | @arm w k rest job deadline events hjob hterminating hdeadline hgen hevents =>
    obtain hj | hj := hj
    · simp only [activeGenerations_insert, Table.find_set] at hj
      split_ifs at hj with hjk
      · exact Or.inl (Or.inr (hjk ▸ List.mem_cons_self))
      · exact Or.inl (Or.inl hj)
    · exact Or.inl (Or.inr (List.mem_cons_of_mem _ hj))
  | @fumble w k rest deadline events hgen hevents =>
    obtain hj | hj := hj
    · simp only [find_cancel, activeGenerations_insert, Table.find_set] at hj
      split_ifs at hj
      · cases hj
      · exact Or.inl (Or.inl hj)
    · exact Or.inl (Or.inr hj)

theorem Step.timed (hstep : Step K l m m') (hwf : Wf m.world.st.monitor) (h : Timed m) :
    Timed m' := by
  obtain ⟨f, hf⟩ := h.refines
  have hpositive : ∀ {j job timeout}, m'.world.st.jobs.find j = some job →
      job.spec.executionTimeout = some timeout → 0 < timeout := hstep.positive hwf h
  have hoffQueue : ∀ j, m'.Owed j → OffQueue m'.world.st j := fun j hj =>
    (hstep.owed hwf h hj).elim (fun hold => hstep.offQueue hwf (h.offQueue j hold)) id
  cases hstep with
  | attend | take | accept | refuse | hangUp | tend | rearm | answer | watch | submit | dequeue
    | misfire => exact ⟨h.refines, h.due_nodup, h.due_off, hpositive, hoffQueue⟩
  | run hslot hwaiting hstep hjob htimed hevents =>
    refine ⟨?_, h.due_nodup, (fun j hj => by cases hj), hpositive, hoffQueue⟩
    obtain ⟨rfl, -⟩ | ⟨timeout, -, hgen, rfl⟩ := htimed
    · exact h.refines
    · exact ⟨_, (hf.insert hgen _ _).discardStaleEntries⟩
  | release hnotified =>
    refine ⟨⟨_, hf.cancel _⟩, h.due_nodup, fun k hk => ?_, hpositive, hoffQueue⟩
    simp only [find_cancel, h.due_off k hk, ite_self]
  | @expire w now events hnow hread hevents =>
    obtain ⟨hnodup, hoff⟩ := due_of_expireAt hf now
    exact ⟨⟨_, (hf.expireAt now).1.discardStaleEntries⟩, hnodup, hoff, hpositive, hoffQueue⟩
  | skip | spare | kill =>
    exact ⟨h.refines, h.due_nodup.of_cons, fun k hk => h.due_off k (List.mem_cons_of_mem _ hk),
      hpositive, hoffQueue⟩
  | @terminate w v j cause due rest hdue hstep =>
    refine ⟨⟨_, hf.cancel j⟩, ?_, fun k hk => ?_, hpositive, hoffQueue⟩
    · obtain ⟨rfl, -⟩ | ⟨-, rfl, -⟩ := hdue
      · exact h.due_nodup
      · exact List.nodup_singleton j
    · simp only [find_cancel]
      split_ifs with hkj
      · rfl
      · obtain ⟨rfl, -⟩ | ⟨-, rfl, -⟩ := hdue
        · exact h.due_off k hk
        · exact absurd (List.mem_singleton.mp hk) hkj
  | @arm w j rest job deadline events hjob hterminating hdeadline hgen hevents =>
    refine ⟨⟨_, (hf.insert hgen j deadline).discardStaleEntries⟩, h.due_nodup.of_cons,
      fun k hk => ?_, hpositive, hoffQueue⟩
    have hkj : k ≠ j := fun heq => (List.nodup_cons.mp h.due_nodup).1 (heq ▸ hk)
    simp only [activeGenerations_insert, Table.find_set_of_ne _ _ hkj]
    exact h.due_off k (List.mem_cons_of_mem _ hk)
  | @fumble w j rest deadline events hgen hevents =>
    refine ⟨⟨_, ((hf.insert hgen j deadline).discardStaleEntries).cancel j⟩, h.due_nodup,
      fun k hk => ?_, hpositive, hoffQueue⟩
    simp only [find_cancel, activeGenerations_insert]
    split_ifs with hkj
    · rfl
    · rw [Table.find_set_of_ne _ _ hkj]
      exact h.due_off k hk

/-! ## Sound moments -/

/-- What holds of the daemon after every step. -/
structure Sound (n : ℕ) (m : Moment) : Prop where
  wf : Wf m.world.st.monitor
  recorded : Recorded m.monitorWorld
  slots : Slots n m.world.st
  timed : Timed m

theorem sound_initial (s : Setup) : Sound s.maxRunning ⟨s.initial, []⟩ where
  wf := ProcessMonitor.wf_initial s.sigchldFd
  recorded := recorded_deskEvents (v := ⟨{ sigchldFd := s.sigchldFd }, []⟩)
    (by simp [deskEvent, choreEvent]) (ProcessMonitor.recorded_initial s.sigchldFd)
  slots := slots_initial s
  timed := timed_initial s

variable {n : ℕ}

theorem Step.sound (hstep : Step K l m m') (h : Sound n m) : Sound n m' where
  wf := hstep.wf h.wf
  recorded := hstep.recorded h.wf h.recorded
  slots := hstep.slots h.wf h.slots
  timed := hstep.timed h.wf h.timed

theorem sound_of_walk {A : Set Label} (hwalk : Walk (Step K) A m m') (h : Sound n m) :
    Sound n m' := hwalk.invariant (fun _ _ _ _ hstep => hstep.sound) h

end Daemon

end Runnerd
