import Runnerd.MonitorRuns
import Mathlib.Data.List.Induction

/-!
# How a start ends

`startJob` hands the child and its three pipes to the monitor in several steps, any of which may fail.
It ends with the job running and all of it registered, or with the job failed and all of it given
back.
-/

namespace Runnerd

open Effect Effect.Prog Steps Function

/-- The descriptors of a launched process. -/
def LaunchedProcess.fds (launched : LaunchedProcess) : List Fd :=
  [launched.stdoutFd, launched.stderrFd, launched.startupErrorFd]

theorem LaunchedProcess.fd_mem (launched : LaunchedProcess) (kind : ProcessFdKind) :
    launched.fd kind ∈ launched.fds := by
  cases kind <;> simp [LaunchedProcess.fd, LaunchedProcess.fds]

namespace ProcessMonitor

variable {K : Kernel} {w w' v : World ProcessMonitor} {j : JobId} {job : Job}
  {launched : LaunchedProcess}

/-! ## What a history says of `epoll` -/

/-- Whether a descriptor is in the interest list of `epoll`. Closing one takes it off. -/
def watchedStep (watched : Fd → Bool) : Event → Fd → Bool
  | .registered fd _ => update watched fd true
  | .unregistered fd | .closed fd => update watched fd false
  | _ => watched

def watched (log : List Event) : Fd → Bool := log.foldl watchedStep fun _ => false

/-- The descriptor that an event closes. -/
def closedFd : Event → Option Fd
  | .closed fd => some fd
  | _ => none

/-- The descriptors closed by these events, one after the other. -/
def closes (events : List Event) : List Fd := events.filterMap closedFd

theorem closes_append (events events' : List Event) :
    closes (events ++ events') = closes events ++ closes events' := List.filterMap_append

theorem watched_append (log events : List Event) :
    watched (log ++ events) = events.foldl watchedStep (watched log) := List.foldl_append

/-- What was closed last and not registered again is not watched. -/
theorem not_watched_abandonEvents (log : List Event) {fds : List Fd} {fd : Fd} (hfd : fd ∈ fds) :
    watched (log ++ abandonEvents fds) fd = false := by
  induction fds using List.reverseRecOn with
  | nil => cases hfd
  | append_singleton fds fd' ih =>
    have hsplit : log ++ abandonEvents (fds ++ [fd']) =
        log ++ abandonEvents fds ++ [.unregistered fd', .closed fd'] := by
      simp [abandonEvents]
    rw [hsplit, watched_append]
    show update (update (watched (log ++ abandonEvents fds)) fd' false) fd' false fd = false
    by_cases heq : fd = fd'
    · subst heq
      rw [update_self]
    · rw [update_of_ne heq, update_of_ne heq]
      exact ih ((List.mem_append.mp hfd).resolve_right fun h => heq (List.mem_singleton.mp h))

theorem closes_abandonEvents (fds : List Fd) : closes (abandonEvents fds) = fds := by
  induction fds with
  | nil => rfl
  | cons fd fds ih =>
    show fd :: closes (abandonEvents fds) = fd :: fds
    rw [ih]

/-! ## Registering -/

/-- The events of registering a child's pipes. -/
def registeringEvent : Event → Bool
  | .registered _ _ | .called .epollCtl => true
  | _ => false

theorem closes_registering {events : List Event} (h : ∀ e ∈ events, registeringEvent e) :
    closes events = [] :=
  List.filterMap_eq_nil_iff.mpr fun e he => by
    have := h e he
    cases e <;> first | rfl | cases this

/-- What registering some of the pipes of a launched process changes and appends. -/
structure Registers (launched : LaunchedProcess) (w w' : World ProcessMonitor) : Prop where
  jobs : w'.st.jobs = w.st.jobs
  active : w'.st.activeJobs = w.st.activeJobs
  notifications : w'.st.terminalJobNotifications = w.st.terminalJobNotifications
  tracked : ∀ fd ∉ launched.fds, w'.st.trackedFds.find fd = w.st.trackedFds.find fd
  log : ∃ events, w'.log = w.log ++ events ∧ ∀ e ∈ events, registeringEvent e

theorem Registers.put {st : ProcessMonitor} (hjobs : st.jobs = w.st.jobs)
    (hactive : st.activeJobs = w.st.activeJobs)
    (hnotified : st.terminalJobNotifications = w.st.terminalJobNotifications)
    (htracked : st.trackedFds = w.st.trackedFds) : Registers launched w (w.put st) :=
  ⟨hjobs, hactive, hnotified, fun fd _ => congrArg (fun t => Table.find t fd) htracked,
    [], (List.append_nil _).symm, List.forall_mem_nil _⟩

theorem Registers.refl (w : World ProcessMonitor) : Registers launched w w := .put rfl rfl rfl rfl

theorem Registers.trans {w'' : World ProcessMonitor} (h : Registers launched w w')
    (h' : Registers launched w' w'') : Registers launched w w'' := by
  obtain ⟨events, hlog, hall⟩ := h.log
  obtain ⟨events', hlog', hall'⟩ := h'.log
  refine ⟨h'.jobs.trans h.jobs, h'.active.trans h.active, h'.notifications.trans h.notifications,
    fun fd hfd => (h'.tracked fd hfd).trans (h.tracked fd hfd), events ++ events', ?_, ?_⟩
  · rw [hlog', hlog, List.append_assoc]
  · exact List.forall_mem_append.mpr ⟨hall, hall'⟩

theorem registerProcessFd_registers (kind : ProcessFdKind) :
    wp (registerProcessFd K (launched.fd kind) j kind) (fun _ w' => Registers launched w w') w := by
  obtain ⟨e, hrun⟩ | ⟨e, hrun⟩ | ⟨-, hrun⟩ :=
    registerProcessFd_run (K := K) (launched.fd kind) j kind w
  · exact wp_of_run hrun (.refl w)
  · exact wp_of_run hrun ⟨rfl, rfl, rfl, fun _ _ => rfl, _, rfl, by simp [registeringEvent]⟩
  · refine wp_of_run hrun ⟨rfl, rfl, rfl, fun fd hfd => ?_, _, rfl, by simp [registeringEvent]⟩
    have hne : fd ≠ launched.fd kind := by
      rintro rfl
      exact hfd (launched.fd_mem kind)
    exact Table.find_set_of_ne _ _ hne

/-- Where monitoring a child fails, nothing but registering has happened. -/
theorem monitorJob_registers (hjob : w.st.jobs.find j = some job) (hid : job.id = j)
    (hqueued : job.state = .queued) :
    wp (monitorJob K j launched) (fun r w' =>
      w'.st.activeJobs = w.st.activeJobs ∧
        w'.st.terminalJobNotifications = w.st.terminalJobNotifications ∧
        ∀ e, r = .error e → Registers launched w w') w := by
  unfold monitorJob
  refine wp_bind_ok (state_run _) ?_
  cases hpid : w.st.pidToJob.find launched.pid with
  | some k => exact wp_throw ⟨rfl, rfl, fun e _ => .refl w⟩
  | none =>
  simp only
  refine wp_bind_ok (update_run _ _) ?_
  set w1 := w.put { w.st with pidToJob := w.st.pidToJob.set launched.pid j } with hw1
  have h1 : Registers launched w w1 := .put rfl rfl rfl rfl
  have hfail : ∀ {w2}, Registers launched w w2 → ∀ e : Exception,
      w2.st.activeJobs = w.st.activeJobs ∧
        w2.st.terminalJobNotifications = w.st.terminalJobNotifications ∧
        ∀ e', (Except.error e : Except Exception Unit) = .error e' → Registers launched w w2 :=
    fun h2 e => ⟨h2.active, h2.notifications, fun _ _ => h2⟩
  refine wp_bind (registerProcessFd_registers (K := K) .stdout) (fun _ w2 h2 => ?_)
    fun e w2 h2 => hfail (h1.trans h2) e
  replace h2 := h1.trans h2
  refine wp_bind (registerProcessFd_registers (K := K) .stderr) (fun _ w3 h3 => ?_)
    fun e w3 h3 => hfail (h2.trans h3) e
  replace h3 := h2.trans h3
  refine wp_bind (registerProcessFd_registers (K := K) .startupError) (fun _ w4 h4 => ?_)
    fun e w4 h4 => hfail (h3.trans h4) e
  replace h4 := h3.trans h4
  have hjob4 : w4.st.jobs.find j = some job := by
    rw [h4.jobs]
    exact hjob
  have htrans : canTransition job.state .running := by
    rw [hqueued]
    rfl
  exact wp_of_run (withJob_enter hjob4 hid htrans)
    ⟨h4.active, h4.notifications, fun e he => by cases he⟩

/-! ## Giving up -/

/-- What giving up a child comes to. -/
theorem abandonStartedJob_run
    (hactive : w.st.activeJobs.find j = some (ActiveProcess.create launched))
    (hjob : w.st.jobs.find j = some job) (hid : job.id = j) (hqueued : job.state = .queued)
    (message : Bytes) : ∃ (e : Event) (trackedFds : Table Fd TrackedFd),
      (e = .waitFailed launched.pid ∨ ∃ status, e = .reaped launched.pid status) ∧
      (∀ fd, trackedFds.find fd = if fd ∈ launched.fds then none else w.st.trackedFds.find fd) ∧
      abandonStartedJob K j message w = (.ok (), ⟨{ w.st with
        jobs := w.st.jobs.set j { job with state := .failed, failureMessage := message }
        activeJobs := w.st.activeJobs.del j
        pidToJob := w.st.pidToJob.del launched.pid
        trackedFds },
        w.log ++ (abandonEvents launched.fds ++ [.killSent (.group launched.processGroupId) .SIGKILL, e,
          .entered j .failed])⟩) := by
  obtain ⟨trackedFds, habandon, hfind⟩ := abandonFds_run launched.fds w
  obtain ⟨e, he, hkill⟩ := killAndReapProcess_run (K := K) launched.pid launched.processGroupId
    ⟨{ w.st with trackedFds }, w.log ++ abandonEvents launched.fds⟩
  refine ⟨e, trackedFds, he, hfind, ?_⟩
  unfold abandonStartedJob
  rw [bind_of_ok (state_run _), hactive]
  refine (bind_of_ok habandon).trans ((bind_of_ok hkill).trans
    ((bind_of_ok (update_run _ _)).trans ((bind_of_ok (update_run _ _)).trans ?_)))
  refine (@failQueuedJob_run _ j job ?_ hqueued hid message).trans ?_
  · exact hjob
  · simp [World.emit, World.put, ActiveProcess.create]

/-! ## Ends -/

/-- The job runs, and its child and its pipes are registered. -/
structure RunsWith (w w' : World ProcessMonitor) (j : JobId) (job : Job)
    (launched : LaunchedProcess) : Prop where
  jobs : w'.st.jobs = w.st.jobs.set j { job with
    pid := some launched.pid
    processGroupId := some launched.processGroupId
    state := .running }
  active : w'.st.activeJobs = w.st.activeJobs.set j (ActiveProcess.create launched)
  tracked : w'.st.trackedFds = ((w.st.trackedFds.set launched.stdoutFd ⟨j, .stdout⟩).set
    launched.stderrFd ⟨j, .stderr⟩).set launched.startupErrorFd ⟨j, .startupError⟩
  new : launched.fds.Nodup ∧ ∀ fd ∈ launched.fds, w.st.trackedFds.find fd = none
  watched : ∀ fd ∈ launched.fds, watched w'.log fd

/-- The job has failed with a message, and nothing is registered for it. -/
structure Failed (w w' : World ProcessMonitor) (j : JobId) (job : Job) : Prop where
  jobs : ∃ message ≠ [], w'.st.jobs =
    w.st.jobs.set j { job with state := .failed, failureMessage := message }
  active : w'.st.activeJobs = w.st.activeJobs
  inactive : w'.st.activeJobs.find j = none
  untracked : ∀ fd kind, w'.st.trackedFds.find fd ≠ some ⟨j, kind⟩

/-- `launchProcess` threw, in `v`, and has left nothing behind but standard descriptors: what it
opened is closed, and a child it forked was sent SIGKILL and waited for. -/
structure NotLaunched (w v w' : World ProcessMonitor) (j : JobId) (job : Job) : Prop
    extends Failed w w' j job where
  tracked : w'.st.trackedFds = w.st.trackedFds
  log : w'.log = v.log ++ [.entered j .failed]
  back : ∃ events, v.log = w.log ++ .starting j :: events ∧ Launching events [] [] ∧
    ∀ pid, .forked pid ∈ events →
      .killSent (.process pid) .SIGKILL ∈ events ∧ WaitedFor events pid

/-- What `launchProcess` returned, in `v`, is given back: its descriptors are closed one after the
other, the child's process group is sent SIGKILL, and the child is waited for. -/
structure GivenUp (w v w' : World ProcessMonitor) (j : JobId) (job : Job)
    (launched : LaunchedProcess) : Prop extends
    Failed w w' j { job with
      pid := some launched.pid
      processGroupId := some launched.processGroupId } where
  tracked : ∀ fd, w'.st.trackedFds.find fd =
    if fd ∈ launched.fds then none else w.st.trackedFds.find fd
  unwatched : ∀ fd ∈ launched.fds, watched w'.log fd = false
  leader : launched.processGroupId = launched.pid
  log : ∃ events e, w'.log = v.log ++ (events ++
      [.killSent (.group launched.processGroupId) .SIGKILL, e, .entered j .failed]) ∧
    closes events = launched.fds ∧
    (e = .waitFailed launched.pid ∨ ∃ status, e = .reaped launched.pid status)

/-- A queued job has no tracked pipe. -/
theorem Wf.untracked (h : Wf w.st) (hjob : w.st.jobs.find j = some job)
    (hqueued : job.state = .queued) (fd : Fd) (kind : ProcessFdKind) :
    w.st.trackedFds.find fd ≠ some ⟨j, kind⟩ := by
  intro htracked
  obtain ⟨p, hactive, -⟩ := h.fd_owner htracked
  have hinactive := h.not_active hjob (by rw [hqueued]; rfl)
  rw [hinactive] at hactive
  cases hactive

theorem launched_of_create {l l' : LaunchedProcess}
    (h : ActiveProcess.create l = ActiveProcess.create l') : l = l' := by
  have hpid : l.pid = l'.pid := congrArg ActiveProcess.pid h
  have hgroup : l.processGroupId = l'.processGroupId := congrArg ActiveProcess.processGroupId h
  have hfd : ∀ kind, l.fd kind = l'.fd kind := fun kind =>
    Option.some.inj (congrArg (fun p => (p.pipe kind).fd) h)
  cases l
  cases l'
  obtain rfl := hpid
  obtain rfl := hgroup
  obtain rfl := hfd .stdout
  obtain rfl := hfd .stderr
  obtain rfl := hfd .startupError
  rfl

/-- The step in which a job starts, of which the process is known. -/
theorem runsWith_of_step (hstep : Step K (.started j) w w') (hjob : w.st.jobs.find j = some job)
    (hactive : w'.st.activeJobs = w.st.activeJobs.set j (ActiveProcess.create launched)) :
    RunsWith w w' j job launched := by
  cases hstep with
  | @started _ _ job' events launched' hjob' hqueued hlaunch hgroup hpid hfresh hdistinct =>
    have hcreate : ActiveProcess.create launched' = ActiveProcess.create launched := by
      have := congrArg (fun t => Table.find t j) hactive
      simpa only [Table.find_set_self, Option.some.injEq] using this
    obtain rfl := launched_of_create hcreate
    obtain rfl : job' = job := Option.some.inj (hjob'.symm.trans hjob)
    refine ⟨by rw [hgroup], rfl, rfl, ⟨hdistinct, hfresh⟩, fun fd hfd => ?_⟩
    have hlog : w.log ++ .starting j :: (events ++ [.adopted j launched'.pid launched'.stdoutFd
          launched'.stderrFd launched'.startupErrorFd, .registered launched'.stdoutFd .readable,
          .registered launched'.stderrFd .readable,
          .registered launched'.startupErrorFd .readable, .entered j .running]) =
        w.log ++ .starting j :: (events ++ [.adopted j launched'.pid launched'.stdoutFd
          launched'.stderrFd launched'.startupErrorFd]) ++
        [.registered launched'.stdoutFd .readable, .registered launched'.stderrFd .readable,
          .registered launched'.startupErrorFd .readable, .entered j .running] := by simp
    rw [hlog, watched_append]
    simp only [LaunchedProcess.fds, List.mem_cons, List.not_mem_nil, or_false] at hfd
    obtain rfl | rfl | rfl := hfd <;> simp [watchedStep, Function.update_apply]

/-- A process that `launchProcess` returns is handed to `active_jobs_`. -/
theorem launchJob_of_launched {spec : JobSpec} {events : List Event}
    (hlaunch : launchProcess K spec w = (.ok launched, ⟨w.st, w.log ++ events⟩))
    (hinactive : w.st.activeJobs.find j = none) :
    launchJob K j spec w = (.ok launched, launchedWorld w j launched events) := by
  unfold launchJob
  rw [bind_of_ok hlaunch, bind_of_ok (state_run _)]
  simp only [hinactive]
  rw [bind_of_ok (update_run _ _), bind_of_ok (emit_run _ _)]
  simp [launchedWorld, World.put, World.emit]

/-- A child that is given up after some of its pipes were registered. -/
theorem givenUp_of_registers (h : Wf w.st) (hjob : w.st.jobs.find j = some job)
    (hqueued : job.state = .queued) {w1 : World ProcessMonitor} {events : List Event}
    (hregistered : Registers launched (adoptedWorld w j job launched events) w1)
    {reaped : Event} {trackedFds : Table Fd TrackedFd} {pidToJob : Table Pid JobId}
    {message : Bytes}
    (hreaped : reaped = .waitFailed launched.pid ∨ ∃ status, reaped = .reaped launched.pid status)
    (htracked : ∀ fd, trackedFds.find fd =
      if fd ∈ launched.fds then none else w1.st.trackedFds.find fd)
    (hmessage : message ≠ []) (hgroup : launched.processGroupId = launched.pid) :
    GivenUp w ⟨w.st, (w.emit (.starting j)).log ++ events⟩
      ⟨{ w1.st with
        jobs := w.st.jobs.set j { job with
          pid := some launched.pid
          processGroupId := some launched.processGroupId
          state := .failed
          failureMessage := message }
        activeJobs := w.st.activeJobs
        pidToJob
        trackedFds },
        w1.log ++ (abandonEvents launched.fds ++ [.killSent (.group launched.processGroupId) .SIGKILL,
          reaped, .entered j .failed])⟩
      j job launched := by
  have hfind : ∀ fd, trackedFds.find fd =
      if fd ∈ launched.fds then none else w.st.trackedFds.find fd := by
    intro fd
    rw [htracked]
    split_ifs with hfd
    · rfl
    · exact hregistered.tracked fd hfd
  obtain ⟨registering, hlog, hall⟩ := hregistered.log
  refine ⟨⟨⟨message, hmessage, rfl⟩, rfl, h.not_active hjob (by rw [hqueued]; rfl), ?_⟩,
    hfind, ?_, hgroup, ?_⟩
  · intro fd kind
    show trackedFds.find fd ≠ some ⟨j, kind⟩
    rw [hfind]
    split_ifs with hfd
    · simp
    · exact h.untracked hjob hqueued fd kind
  · intro fd hfd
    have hunwatched := not_watched_abandonEvents w1.log hfd
    show watched (w1.log ++ (abandonEvents launched.fds ++ _)) fd = false
    rw [← List.append_assoc, watched_append]
    obtain rfl | ⟨status, rfl⟩ := hreaped <;> exact hunwatched
  · refine ⟨.adopted j launched.pid launched.stdoutFd launched.stderrFd launched.startupErrorFd ::
      (registering ++ abandonEvents launched.fds), reaped, ?_, ?_, hreaped⟩
    · show w1.log ++ _ = _
      rw [hlog]
      simp [adoptedWorld, World.emit]
    · show closes (registering ++ abandonEvents launched.fds) = launched.fds
      rw [closes_append, closes_registering hall, closes_abandonEvents, List.nil_append]

/-- A start of a queued job is all or nothing: the job runs, and its child and its pipes are
registered, or it has failed, and whatever was launched for it is given back. -/
theorem startJob_allOrNothing (h : Wf w.st) (hjob : w.st.jobs.find j = some job)
    (hqueued : job.state = .queued) :
    wp (startJob K j) (fun r w' => r = .ok () ∧
      w'.st.terminalJobNotifications = w.st.terminalJobNotifications ∧
      match launchProcess K job.spec (w.emit (.starting j)) with
      | (.error _, v) => NotLaunched w v w' j job
      | (.ok launched, v) => RunsWith w w' j job launched ∨ GivenUp w v w' j job launched) w := by
  have hid := h.id_eq hjob
  have hinactive := h.not_active hjob (by rw [hqueued]; rfl)
  have huntracked := h.untracked hjob hqueued
  have hspec := launchProcess_spec (w := w.emit (.starting j)) K job.spec
  unfold startJob
  refine wp_bind_ok (emit_run w _) (wp_bind_ok (jobAt_run hjob) ?_)
  rw [if_neg (not_not.mpr hqueued)]
  rcases hlaunch : launchProcess K job.spec (w.emit (.starting j)) with ⟨e | launched, v⟩
  · obtain ⟨hst, events, hlog, hback⟩ := launching_of_moreStandard (wp_run hspec hlaunch)
    obtain ⟨events', hlog', hkilled⟩ := MoreStandard.killed (wp_run hspec hlaunch)
    obtain rfl : events = events' := List.append_cancel_left (hlog.symm.trans hlog')
    have hthrow : (do let launched ← launchJob K j job.spec; return some launched :
        Prog ProcessMonitor (Option LaunchedProcess)) (w.emit (.starting j)) = (.error e, v) :=
      bind_of_error (bind_of_error hlaunch)
    have hjobv : v.st.jobs.find j = some job := by
      rw [hst]
      exact hjob
    refine wp_bind_ok ((tryCatch_of_error hthrow).trans
      (bind_of_ok (failQueuedJob_run hjobv hqueued hid _))) (wp_pure ⟨rfl, ?_, ?_⟩)
    · rw [hst]
      rfl
    · have hstate : v.st = w.st := hst
      refine ⟨⟨⟨text "launchProcess failed: " ++ e.what K.strerror,
        text_append_ne_nil (by decide) _, ?_⟩, ?_, ?_, ?_⟩, ?_, rfl, events, ?_, hback, hkilled⟩
      · rw [hstate]
      · rw [hstate]
      · rw [hstate]
        exact hinactive
      · rw [hstate]
        exact huntracked
      · rw [hstate]
      · rw [hlog]
        simp [World.emit]
  · have hreturned := wp_run hspec hlaunch
    simp only at hreturned
    obtain ⟨hgroup, hmore⟩ := hreturned
    obtain ⟨hst, events, hlog, hback⟩ := launching_of_moreStandard hmore
    obtain ⟨st, log⟩ := v
    obtain rfl : st = w.st := hst
    obtain rfl : log = (w.emit (.starting j)).log ++ events := hlog
    have hlaunched : (do let launched ← launchJob K j job.spec; return some launched :
        Prog ProcessMonitor (Option LaunchedProcess)) (w.emit (.starting j)) =
          (.ok (some launched), launchedWorld (w.emit (.starting j)) j launched events) :=
      bind_of_ok (launchJob_of_launched hlaunch hinactive)
    refine wp_bind_ok (tryCatch_of_ok hlaunched) ?_
    have hjob1 : (launchedWorld (w.emit (.starting j)) j launched events).st.jobs.find j =
        some job := hjob
    refine wp_bind_ok (withJob_update hjob1 _) ?_
    have hworld : (launchedWorld (w.emit (.starting j)) j launched events).put
        { (launchedWorld (w.emit (.starting j)) j launched events).st with
          jobs := w.st.jobs.set j { job with
            pid := some launched.pid
            processGroupId := some launched.processGroupId } } =
        adoptedWorld w j job launched events := by
      rw [hgroup]
      simp [launchedWorld, adoptedWorld, World.put]
    rw [show (launchedWorld (w.emit (.starting j)) j launched events).st.jobs = w.st.jobs from rfl,
      hworld]
    refine wp_tryCatch (R := fun r w' =>
      ((r = .ok () ∧ Step K (.started j) w w') ∨
        ∃ e rest, r = .error e ∧ Started j job launched events rest w w') ∧
      w'.st.activeJobs = w.st.activeJobs.set j (ActiveProcess.create launched) ∧
      w'.st.terminalJobNotifications = w.st.terminalJobNotifications ∧
      ∀ e, r = .error e → Registers launched (adoptedWorld w j job launched events) w')
      ⟨monitorJob_spec h hjob hqueued hback hgroup,
        monitorJob_registers (Table.find_set_self _ _ _) hid hqueued⟩ (fun _ w2 h2 => ?_)
      fun e w2 h2 => ?_
    · obtain ⟨⟨-, hstep⟩ | ⟨e, rest, hr, -⟩, hactive, hnotified, -⟩ := h2
      · exact ⟨rfl, hnotified, Or.inl (runsWith_of_step hstep hjob hactive)⟩
      · cases hr
    · obtain ⟨-, hactive, hnotified, hregisters⟩ := h2
      have hregistered := hregisters e rfl
      set job1 := { job with
        pid := some launched.pid
        processGroupId := some launched.processGroupId } with hjob1
      have hjobs : w2.st.jobs = w.st.jobs.set j job1 := by
        rw [hregistered.jobs, hjob1, hgroup]
        rfl
      have hfind : w2.st.jobs.find j = some job1 := by
        rw [hjobs]
        exact Table.find_set_self _ _ _
      have hprocess : w2.st.activeJobs.find j = some (ActiveProcess.create launched) := by
        rw [hactive]
        exact Table.find_set_self _ _ _
      obtain ⟨reaped, trackedFds, hreaped, htracked, hrun⟩ :=
        abandonStartedJob_run (K := K) hprocess hfind hid hqueued
          (text "failed to monitor child process: " ++ e.what K.strerror)
      rw [hjobs, hactive, Table.set_set, Table.del_set, Table.del_of_find_eq_none hinactive] at hrun
      exact wp_of_run hrun ⟨rfl, hnotified, Or.inr (givenUp_of_registers h hjob hqueued hregistered
        hreaped htracked (text_append_ne_nil (by decide) _) hgroup)⟩

/-- One job runs on the descriptors 4, 6 and 8, and one is queued. -/
def oneRunning : World ProcessMonitor :=
  operations Kernel.quiet ⟨{ sigchldFd := 1000 }, []⟩
    [.submit 1 { argv := [text "/a"] }, .submit 2 { argv := [text "/b"] }, .startJob 1]

theorem operated_oneRunning : Operated Kernel.quiet (fun _ _ => True) oneRunning := by
  refine .operate (.startJob 1) (.operate (.submit 2 _) (.operate (.submit 1 _) (.start 1000)
    ?_ ?_) ?_ ?_) ?_ ?_
  · exact rfl
  · trivial
  · show Table.find _ _ = none
    decide +kernel
  all_goals trivial

theorem wf_oneRunning : Wf oneRunning.st :=
  (operated_oneRunning.invariant (P := fun _ => True) (fun _ => trivial)
    fun _ _ _ _ _ _ _ => trivial).1

/-- Job 2 is given descriptors that job 1 holds. Its start fails, and closes them. -/
theorem startJob_takesDescriptor :
    Wf oneRunning.st ∧
      (oneRunning.st.jobs.find 2).map Job.state = some .queued ∧
      oneRunning.st.trackedFds.find 4 = some ⟨1, .stdout⟩ ∧
      ((startJob Kernel.quiet 2 ⟨oneRunning.st, []⟩).2.st.jobs.find 2).map Job.state =
        some .failed ∧
      (startJob Kernel.quiet 2 ⟨oneRunning.st, []⟩).2.st.trackedFds.find 4 = none :=
  ⟨wf_oneRunning, by decide +kernel, by decide +kernel, by decide +kernel, by decide +kernel⟩

theorem startJob_allOrNothing_second : ∃ job, oneRunning.st.jobs.find 2 = some job ∧
    wp (startJob Kernel.quiet 2) (fun r w' => r = .ok () ∧
      w'.st.terminalJobNotifications = oneRunning.st.terminalJobNotifications ∧
      match launchProcess Kernel.quiet job.spec (oneRunning.emit (.starting 2)) with
      | (.error _, v) => NotLaunched oneRunning v w' 2 job
      | (.ok launched, v) =>
        RunsWith oneRunning w' 2 job launched ∨ GivenUp oneRunning v w' 2 job launched)
      oneRunning := by
  have hstate : (oneRunning.st.jobs.find 2).map Job.state = some .queued := by decide +kernel
  obtain ⟨job, hjob, hqueued⟩ := Option.map_eq_some_iff.mp hstate
  exact ⟨job, hjob, startJob_allOrNothing wf_oneRunning hjob hqueued⟩

end ProcessMonitor

end Runnerd
