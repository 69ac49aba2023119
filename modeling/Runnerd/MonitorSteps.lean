import Runnerd.Library.Steps
import Runnerd.LaunchResources
import Runnerd.ProcessMonitor

/-!
# The steps of the process monitor

Whatever the monitor's operations do, they do it in the steps of `Step`: a chunk read, a pipe ended,
an exit recorded, a job settled, a start in one of its outcomes, a signal sent. Each step says what
it presupposes, how it changes the state and what it appends to the history. A fact about all runs of
the monitor is then one case for each step, and `Wf` is the first.

The last three steps are the daemon's own: it adds a job to the table, cancels a queued one, and
takes a notification from the queue.
-/

namespace Runnerd

open Effect Effect.Prog Steps

namespace ProcessMonitor

variable (K : Kernel)

/-! ## What a settlement makes of a job -/

/-- The job with the output of its process. -/
def withOutput (process : ActiveProcess) (job : Job) : Job :=
  { job with
    standardOutput := (process.pipe .stdout).bytes
    standardError := (process.pipe .stderr).bytes }

/-- The job as `settle` leaves it, or `none` where it throws. -/
def settledJob (process : ActiveProcess) (job : Job) : Option Job :=
  if job.state = .terminating then
    match job.terminationCause, process.waitStatus with
    | some cause, .exited code => some { job with exitCode := some code, state := finalState cause }
    | some cause, .signaled signal =>
      some { job with exitSignal := some signal, state := finalState cause }
    | _, _ => none
  else if (process.pipe .startupError).bytes = [] then
    match process.waitStatus with
    | .exited code =>
      if code = 0 then some { job with exitCode := some code, state := .succeeded }
      else
        some { job with
          exitCode := some code
          state := .failed
          failureMessage := text "process exited with code " ++ decimal code }
    | .signaled signal =>
      some { job with
        exitSignal := some signal
        state := .failed
        failureMessage := text "process terminated by signal " ++ decimal signal }
    | .other =>
      some { job with state := .failed, failureMessage := text "unexpected waitpid status" }
  else if (process.pipe .startupError).bytes.length = childStartupErrorSize then
    some { job with
      state := .failed
      failureMessage := startupErrorMessage K (process.pipe .startupError).bytes }
  else
    some { job with
      state := .failed
      failureMessage := text "malformed child startup error record" }

/-! ## The steps -/

/-- What a step is about. -/
inductive Label where
  | idle
  | receive (jobId : JobId)
  | finish (jobId : JobId)
  | exited (jobId : JobId)
  | stray
  | lost (jobId : JobId)
  | settle (jobId : JobId)
  | garble (jobId : JobId)
  | misuse
  | misstart (jobId : JobId)
  | launchFailed (jobId : JobId)
  | abandoned (jobId : JobId)
  | started (jobId : JobId)
  | terminate (jobId : JobId) (cause : TerminationCause)
  | kill (jobId : JobId)
  | submit (jobId : JobId)
  | dequeue (jobId : JobId)
  | collect

/-- Reading pipes. -/
def Label.drains : Label → Bool
  | .idle | .receive _ | .finish _ => true
  | _ => false

/-- Reading the pipes of one job. -/
def Label.drainsOf (jobId : JobId) : Label → Bool
  | .idle => true
  | .receive k | .finish k => k == jobId
  | _ => false

/-- Looking after one job: its child's exit, the pipes, its settlement. -/
def Label.polls (jobId : JobId) : Label → Bool
  | .idle | .receive _ | .finish _ => true
  | .exited k | .lost k | .settle k | .garble k => k == jobId
  | _ => false

/-- What events from the kernel bring about. -/
def Label.watches : Label → Bool
  | .idle | .receive _ | .finish _ | .exited _ | .stray | .lost _ | .settle _ | .garble _ => true
  | _ => false

/-- The events of an idle step. -/
def idleEvent : Event → Bool
  | .called _ | .groupGone _ _ _ => true
  | _ => false

/-- The events of a launch that leaves these descriptors and children behind, besides standard
descriptors. -/
def Launching (events : List Event) (fds : List Fd) (children : List Pid) : Prop :=
  ∃ std h, Standard std ∧ Holdings.run {} events = some h ∧ h.fds.Perm (fds ++ std) ∧
    h.children = children

/-- One step of the monitor. -/
inductive Step : Label → World ProcessMonitor → World ProcessMonitor → Prop where
  | idle {w} {e : Event} (he : idleEvent e) : Step .idle w (w.emit e)
  /-- A chunk of a pipe. -/
  | receive {w fd j kind p} {bytes : Bytes}
      (htracked : w.st.trackedFds.find fd = some ⟨j, kind⟩)
      (hactive : w.st.activeJobs.find j = some p) :
      Step (.receive j) w
        ⟨{ w.st with activeJobs := w.st.activeJobs.set j (p.receive kind bytes) },
          w.log ++ [.received fd bytes]⟩
  /-- The end of a pipe. -/
  | finish {w fd j kind p}
      (htracked : w.st.trackedFds.find fd = some ⟨j, kind⟩)
      (hactive : w.st.activeJobs.find j = some p) :
      Step (.finish j) w
        ⟨{ w.st with
          activeJobs := w.st.activeJobs.set j (p.closePipe kind)
          trackedFds := w.st.trackedFds.del fd },
          w.log ++ [.reachedEof fd, .unregistered fd, .closed fd]⟩
  /-- The exit of a job's child, found by `waitpid(-1)` or by asking for this child. -/
  | exited {w j p} {status : WaitStatus}
      (hactive : w.st.activeJobs.find j = some p)
      (hpid : w.st.pidToJob.find p.pid = some j ∨ p.childExited = false) :
      Step (.exited j) w
        ⟨{ w.st with activeJobs := w.st.activeJobs.set j (p.exit status) },
          w.log ++ [.reaped p.pid status, .recorded j status]⟩
  /-- The exit of a child that belongs to no job. -/
  | stray {w pid} {status : WaitStatus} (hpid : w.st.pidToJob.find pid = none) :
      Step .stray w (w.emit (.reaped pid status))
  /-- The child of a job is gone without having been waited for. -/
  | lost {w j p} (hactive : w.st.activeJobs.find j = some p) (hexited : p.childExited = false)
      (hwait : (K.waitpid w.log p.pid).last = .failed .ECHILD) :
      Step (.lost j) w ⟨w.st, w.log ++ [.called .waitpid,
        .raised (.logicError (text "active child was reaped without being recorded"))]⟩
  /-- A job whose process is complete is settled. -/
  | settle {w j p job job'}
      (hactive : w.st.activeJobs.find j = some p) (hcomplete : p.complete)
      (hjob : w.st.jobs.find j = some job)
      (hsettled : settledJob K p (withOutput p job) = some job') :
      Step (.settle j) w
        ⟨{ w.st with
          jobs := w.st.jobs.set j job'
          pidToJob := w.st.pidToJob.del p.pid
          activeJobs := w.st.activeJobs.del j
          terminalJobNotifications := w.st.terminalJobNotifications ++ [j] },
          w.log ++ [.entered j job'.state]⟩
  /-- The settlement of a terminating job throws after it has moved the output. -/
  | garble {w j p job}
      (hactive : w.st.activeJobs.find j = some p) (hcomplete : p.complete)
      (hjob : w.st.jobs.find j = some job)
      (hsettled : settledJob K p (withOutput p job) = none) :
      Step (.garble j) w
        ⟨{ w.st with
          jobs := w.st.jobs.set j (withOutput p job)
          activeJobs := w.st.activeJobs.set j
            (p.swapOutput job.standardOutput job.standardError) }, w.log⟩
  /-- An operation finds no job, or one in another state than it is for. -/
  | misuse {w e} : Step .misuse w (w.emit (.raised e))
  /-- `startJob` finds no queued job. -/
  | misstart {w j e} (hjob : ∀ job, w.st.jobs.find j = some job → job.state ≠ .queued) :
      Step (.misstart j) w ⟨w.st, w.log ++ [.starting j, .raised e]⟩
  /-- `launchProcess` throws. -/
  | launchFailed {w j job events} {message : Bytes}
      (hjob : w.st.jobs.find j = some job) (hqueued : job.state = .queued)
      (hlaunch : Launching events [] []) (hmessage : message ≠ []) :
      Step (.launchFailed j) w
        ⟨{ w.st with
          jobs := w.st.jobs.set j { job with state := .failed, failureMessage := message } },
          w.log ++ .starting j :: (events ++ [.entered j .failed])⟩
  /-- The child is launched but not monitored, and given up. -/
  | abandoned {w j job events rest trackedFds} {launched : LaunchedProcess} {message : Bytes}
      (hjob : w.st.jobs.find j = some job) (hqueued : job.state = .queued)
      (hlaunch : Launching events
        [launched.stdoutFd, launched.stderrFd, launched.startupErrorFd] [launched.pid])
      (hrest : Launching (events ++ rest) [] [])
      (htracked : ∀ fd, trackedFds.find fd =
        if fd ∈ [launched.stdoutFd, launched.stderrFd, launched.startupErrorFd] then none
        else w.st.trackedFds.find fd)
      (hmessage : message ≠ []) :
      Step (.abandoned j) w
        ⟨{ w.st with
          jobs := w.st.jobs.set j { job with
            pid := some launched.pid
            processGroupId := some launched.pid
            state := .failed
            failureMessage := message }
          pidToJob := w.st.pidToJob.del launched.pid
          trackedFds },
          w.log ++ .starting j :: (events ++ .adopted j launched.pid launched.stdoutFd
            launched.stderrFd launched.startupErrorFd :: (rest ++ [.entered j .failed]))⟩
  /-- The job runs. -/
  | started {w j job events} {launched : LaunchedProcess}
      (hjob : w.st.jobs.find j = some job) (hqueued : job.state = .queued)
      (hlaunch : Launching events
        [launched.stdoutFd, launched.stderrFd, launched.startupErrorFd] [launched.pid])
      (hgroup : launched.processGroupId = launched.pid)
      (hpid : w.st.pidToJob.find launched.pid = none)
      (hfresh : ∀ fd ∈ [launched.stdoutFd, launched.stderrFd, launched.startupErrorFd],
        w.st.trackedFds.find fd = none)
      (hdistinct : [launched.stdoutFd, launched.stderrFd, launched.startupErrorFd].Nodup) :
      Step (.started j) w
        ⟨{ w.st with
          jobs := w.st.jobs.set j { job with
            pid := some launched.pid
            processGroupId := some launched.pid
            state := .running }
          activeJobs := w.st.activeJobs.set j (ActiveProcess.create launched)
          pidToJob := w.st.pidToJob.set launched.pid j
          trackedFds := ((w.st.trackedFds.set launched.stdoutFd ⟨j, .stdout⟩).set
            launched.stderrFd ⟨j, .stderr⟩).set launched.startupErrorFd ⟨j, .startupError⟩ },
          w.log ++ .starting j :: (events ++ [.adopted j launched.pid launched.stdoutFd
            launched.stderrFd launched.startupErrorFd, .registered launched.stdoutFd .readable,
            .registered launched.stderrFd .readable,
            .registered launched.startupErrorFd .readable, .entered j .running])⟩
  /-- SIGTERM is delivered to a job that is not complete, and the cause recorded. -/
  | terminate {w j p job} {cause : TerminationCause}
      (hactive : w.st.activeJobs.find j = some p)
      (hjob : w.st.jobs.find j = some job) (hrunning : job.state = .running)
      (hincomplete : p.complete = false) :
      Step (.terminate j cause) w
        ⟨{ w.st with
          jobs := w.st.jobs.set j { job with
            state := .terminating
            terminationCause := some cause } },
          w.log ++ [.signalled j p.processGroupId .SIGTERM, .entered j .terminating,
            .blamed j cause]⟩
  /-- SIGKILL is delivered. -/
  | kill {w j p job}
      (hactive : w.st.activeJobs.find j = some p)
      (hjob : w.st.jobs.find j = some job) (hterminating : job.state = .terminating) :
      Step (.kill j) w (w.emit (.signalled j p.processGroupId .SIGKILL))
  /-- The daemon adds a job. -/
  | submit {w j} {spec : JobSpec} (hjob : w.st.jobs.find j = none) :
      Step (.submit j) w
        ⟨{ w.st with jobs := w.st.jobs.set j { id := j, spec } }, w.log ++ [.submitted j]⟩
  /-- The daemon cancels a queued job. -/
  | dequeue {w j job} (hjob : w.st.jobs.find j = some job) (hqueued : job.state = .queued) :
      Step (.dequeue j) w
        ⟨{ w.st with jobs := w.st.jobs.set j { job with state := .cancelled } },
          w.log ++ [.entered j .cancelled]⟩
  /-- The daemon takes a notification. -/
  | collect {w j rest} (hnotified : w.st.terminalJobNotifications = j :: rest) :
      Step .collect w ⟨{ w.st with terminalJobNotifications := rest }, w.log⟩

/-- The history only grows. -/
theorem Step.log_prefix {K : Kernel} {l : Label} {w w' : World ProcessMonitor}
    (hstep : Step K l w w') : ∃ events, w'.log = w.log ++ events := by
  cases hstep <;> first | exact ⟨_, rfl⟩ | exact ⟨[], (List.append_nil _).symm⟩

/-! ## Settled jobs -/

/-- What a settlement keeps of a job. -/
structure Settles (job job' : Job) : Prop where
  id : job'.id = job.id
  spec : job'.spec = job.spec
  pid : job'.pid = job.pid
  processGroupId : job'.processGroupId = job.processGroupId
  cause : job'.terminationCause = job.terminationCause
  output : job'.standardOutput = job.standardOutput
  error : job'.standardError = job.standardError
  terminal : isTerminal job'.state
  terminating : job.state = .terminating →
    ∃ cause, job.terminationCause = some cause ∧ job'.state = finalState cause
  running : job.state ≠ .terminating → job'.state = .succeeded ∨ job'.state = .failed

theorem isTerminal_finalState (cause : TerminationCause) : isTerminal (finalState cause) := by
  cases cause <;> rfl

variable {K}

theorem settles_of_settledJob {process : ActiveProcess} {job job' : Job}
    (h : settledJob K process job = some job') : Settles job job' := by
  unfold settledJob at h
  by_cases hterm : job.state = .terminating
  · rw [if_pos hterm] at h
    have hstate : ∀ cause, job.terminationCause = some cause →
        ∀ job'' : Job, job''.state = finalState cause → isTerminal job''.state := by
      intro cause _ job'' hs
      rw [hs]
      exact isTerminal_finalState cause
    split at h
    · rename_i cause code hcause hstatus
      obtain rfl := Option.some.inj h
      exact ⟨rfl, rfl, rfl, rfl, rfl, rfl, rfl, hstate cause hcause _ rfl,
        fun _ => ⟨cause, hcause, rfl⟩, fun hne => absurd hterm hne⟩
    · rename_i cause signal hcause hstatus
      obtain rfl := Option.some.inj h
      exact ⟨rfl, rfl, rfl, rfl, rfl, rfl, rfl, hstate cause hcause _ rfl,
        fun _ => ⟨cause, hcause, rfl⟩, fun hne => absurd hterm hne⟩
    · cases h
  · rw [if_neg hterm] at h
    split_ifs at h
    · split at h
      · split_ifs at h <;> obtain rfl := Option.some.inj h
        · exact ⟨rfl, rfl, rfl, rfl, rfl, rfl, rfl, rfl, fun ht => absurd ht hterm,
            fun _ => Or.inl rfl⟩
        · exact ⟨rfl, rfl, rfl, rfl, rfl, rfl, rfl, rfl, fun ht => absurd ht hterm,
            fun _ => Or.inr rfl⟩
      · obtain rfl := Option.some.inj h
        exact ⟨rfl, rfl, rfl, rfl, rfl, rfl, rfl, rfl, fun ht => absurd ht hterm,
          fun _ => Or.inr rfl⟩
      · obtain rfl := Option.some.inj h
        exact ⟨rfl, rfl, rfl, rfl, rfl, rfl, rfl, rfl, fun ht => absurd ht hterm,
          fun _ => Or.inr rfl⟩
    · obtain rfl := Option.some.inj h
      exact ⟨rfl, rfl, rfl, rfl, rfl, rfl, rfl, rfl, fun ht => absurd ht hterm,
        fun _ => Or.inr rfl⟩
    · obtain rfl := Option.some.inj h
      exact ⟨rfl, rfl, rfl, rfl, rfl, rfl, rfl, rfl, fun ht => absurd ht hterm,
        fun _ => Or.inr rfl⟩

/-! ## Well-formed states -/

/-- What holds of the monitor after every step. -/
structure Wf (t : ProcessMonitor) : Prop where
  id_eq : ∀ {j job}, t.jobs.find j = some job → job.id = j
  active_iff : ∀ {j job}, t.jobs.find j = some job →
    ((∃ p, t.activeJobs.find j = some p) ↔ job.state.isActive)
  job_of_active : ∀ {j p}, t.activeJobs.find j = some p → ∃ job, t.jobs.find j = some job
  group_eq : ∀ {j p}, t.activeJobs.find j = some p → p.processGroupId = p.pid
  eof_iff : ∀ {j p}, t.activeJobs.find j = some p →
    ∀ kind, (p.pipe kind).eof ↔ (p.pipe kind).fd = none
  pid_owner : ∀ {pid j}, t.pidToJob.find pid = some j →
    ∃ p, t.activeJobs.find j = some p ∧ p.pid = pid
  fd_owner : ∀ {fd j kind}, t.trackedFds.find fd = some ⟨j, kind⟩ →
    ∃ p, t.activeJobs.find j = some p ∧ (p.pipe kind).fd = some fd
  cause : ∀ {j job}, t.jobs.find j = some job → job.state = .terminating →
    job.terminationCause ≠ none
  no_cause : ∀ {j job}, t.jobs.find j = some job → job.state = .queued ∨ job.state = .running →
    job.terminationCause = none
  notified : ∀ j ∈ t.terminalJobNotifications,
    ∃ job, t.jobs.find j = some job ∧ isTerminal job.state
  notified_nodup : t.terminalJobNotifications.Nodup

theorem wf_initial (fd : Fd) : Wf { sigchldFd := fd } where
  id_eq h := by simp at h
  active_iff h := by simp at h
  job_of_active h := by simp at h
  group_eq h := by simp at h
  eof_iff h := by simp at h
  pid_owner h := by simp at h
  fd_owner h := by simp at h
  cause h := by simp at h
  no_cause h := by simp at h
  notified j h := by cases h
  notified_nodup := List.nodup_nil

section Wf

variable {t : ProcessMonitor} {j : JobId} {p : ActiveProcess} {job job' : Job}

theorem Wf.isActive (h : Wf t) (hjob : t.jobs.find j = some job)
    (hactive : t.activeJobs.find j = some p) : job.state.isActive :=
  (h.active_iff hjob).mp ⟨p, hactive⟩

theorem Wf.not_active (h : Wf t) (hjob : t.jobs.find j = some job)
    (hstate : job.state.isActive = false) : t.activeJobs.find j = none := by
  rw [← Option.not_isSome_iff_eq_none, Option.isSome_iff_exists, h.active_iff hjob, hstate]
  simp

/-- A complete process has no tracked pipe left. -/
theorem Wf.kind_of_complete (h : Wf t) (hactive : t.activeJobs.find j = some p)
    (hcomplete : p.complete) (kind : ProcessFdKind) : (p.pipe kind).fd = none := by
  exact (h.eof_iff hactive kind).mp ((ActiveProcess.complete_iff p).mp hcomplete |>.2 kind)

/-- A process changes but for its identity. -/
theorem Wf.setProcess (h : Wf t) (hactive : t.activeJobs.find j = some p) (p' : ActiveProcess)
    (trackedFds : Table Fd TrackedFd) (hpid : p'.pid = p.pid)
    (hgroup : p'.processGroupId = p.processGroupId)
    (heof : ∀ kind, (p'.pipe kind).eof ↔ (p'.pipe kind).fd = none)
    (hfds : ∀ fd k kind, trackedFds.find fd = some ⟨k, kind⟩ →
      t.trackedFds.find fd = some ⟨k, kind⟩ ∧ (k = j → (p'.pipe kind).fd = some fd)) :
    Wf { t with activeJobs := t.activeJobs.set j p', trackedFds } where
  id_eq := h.id_eq
  active_iff {k job} hjob := by
    rw [← h.active_iff hjob]
    by_cases hk : k = j
    · subst hk
      simp [hactive]
    · simp only [Table.find_set_of_ne _ _ hk]
  job_of_active {k q} hq := by
    by_cases hk : k = j
    · subst hk
      exact h.job_of_active hactive
    · exact h.job_of_active (by simpa only [Table.find_set_of_ne _ _ hk] using hq)
  group_eq {k q} hq := by
    by_cases hk : k = j
    · subst hk
      rw [Table.find_set_self] at hq
      obtain rfl := Option.some.inj hq
      rw [hgroup, hpid]
      exact h.group_eq hactive
    · exact h.group_eq (by simpa only [Table.find_set_of_ne _ _ hk] using hq)
  eof_iff {k q} hq := by
    by_cases hk : k = j
    · subst hk
      rw [Table.find_set_self] at hq
      obtain rfl := Option.some.inj hq
      exact heof
    · exact h.eof_iff (by simpa only [Table.find_set_of_ne _ _ hk] using hq)
  pid_owner {pid k} hk := by
    obtain ⟨q, hq, hpid'⟩ := h.pid_owner hk
    by_cases hkj : k = j
    · subst hkj
      rw [hactive] at hq
      obtain rfl := Option.some.inj hq
      exact ⟨p', Table.find_set_self _ _ _, hpid.trans hpid'⟩
    · exact ⟨q, by rw [Table.find_set_of_ne _ _ hkj, hq], hpid'⟩
  fd_owner {fd k kind} hfd := by
    obtain ⟨hold, hnew⟩ := hfds fd k kind hfd
    by_cases hkj : k = j
    · subst hkj
      exact ⟨p', Table.find_set_self _ _ _, hnew rfl⟩
    · obtain ⟨q, hq, hpipe⟩ := h.fd_owner hold
      exact ⟨q, by rw [Table.find_set_of_ne _ _ hkj, hq], hpipe⟩
  cause := h.cause
  no_cause := h.no_cause
  notified := h.notified
  notified_nodup := h.notified_nodup

/-- A job's record changes but for its id and for whether it occupies a process. -/
theorem Wf.setJob (h : Wf t) (job' : Job) (hid : job'.id = j)
    (hactive : (∃ p, t.activeJobs.find j = some p) ↔ job'.state.isActive)
    (hcause : job'.state = .terminating → job'.terminationCause ≠ none)
    (hno : job'.state = .queued ∨ job'.state = .running → job'.terminationCause = none)
    (hterm : j ∈ t.terminalJobNotifications → isTerminal job'.state) :
    Wf { t with jobs := t.jobs.set j job' } where
  id_eq {k job} hjob := by
    by_cases hk : k = j
    · subst hk
      rw [Table.find_set_self] at hjob
      obtain rfl := Option.some.inj hjob
      exact hid
    · exact h.id_eq (by simpa only [Table.find_set_of_ne _ _ hk] using hjob)
  active_iff {k job} hjob := by
    by_cases hk : k = j
    · subst hk
      rw [Table.find_set_self] at hjob
      obtain rfl := Option.some.inj hjob
      exact hactive
    · exact h.active_iff (by simpa only [Table.find_set_of_ne _ _ hk] using hjob)
  job_of_active {k q} hq := by
    by_cases hk : k = j
    · subst hk
      exact ⟨job', Table.find_set_self _ _ _⟩
    · obtain ⟨job, hjob⟩ := h.job_of_active hq
      exact ⟨job, by rw [Table.find_set_of_ne _ _ hk, hjob]⟩
  group_eq := h.group_eq
  eof_iff := h.eof_iff
  pid_owner := h.pid_owner
  fd_owner := h.fd_owner
  cause {k job} hjob := by
    by_cases hk : k = j
    · subst hk
      rw [Table.find_set_self] at hjob
      obtain rfl := Option.some.inj hjob
      exact hcause
    · exact h.cause (by simpa only [Table.find_set_of_ne _ _ hk] using hjob)
  no_cause {k job} hjob := by
    by_cases hk : k = j
    · subst hk
      rw [Table.find_set_self] at hjob
      obtain rfl := Option.some.inj hjob
      exact hno
    · exact h.no_cause (by simpa only [Table.find_set_of_ne _ _ hk] using hjob)
  notified k hk := by
    by_cases hkj : k = j
    · subst hkj
      exact ⟨job', Table.find_set_self _ _ _, hterm hk⟩
    · obtain ⟨job, hjob, hstate⟩ := h.notified k hk
      exact ⟨job, by rw [Table.find_set_of_ne _ _ hkj, hjob], hstate⟩
  notified_nodup := h.notified_nodup

/-- A job that is not terminal has no pending notification. -/
theorem Wf.not_notified (h : Wf t) (hjob : t.jobs.find j = some job)
    (hstate : isTerminal job.state = false) : j ∉ t.terminalJobNotifications := by
  intro hj
  obtain ⟨job₂, hjob₂, hterm⟩ := h.notified j hj
  rw [hjob] at hjob₂
  obtain rfl := Option.some.inj hjob₂
  rw [hstate] at hterm
  cases hterm

/-- A job is settled and its process forgotten. -/
theorem Wf.settle (h : Wf t) (hactive : t.activeJobs.find j = some p) (hcomplete : p.complete)
    (hjob : t.jobs.find j = some job) (hid : job'.id = j) (hterm : isTerminal job'.state) :
    Wf { t with
      jobs := t.jobs.set j job'
      pidToJob := t.pidToJob.del p.pid
      activeJobs := t.activeJobs.del j
      terminalJobNotifications := t.terminalJobNotifications ++ [j] } := by
  have hnew : j ∉ t.terminalJobNotifications := by
    refine h.not_notified hjob (isTerminal_of_isActive (h.isActive hjob hactive))
  constructor
  · intro k job hk
    by_cases hkj : k = j
    · subst hkj
      rw [Table.find_set_self] at hk
      obtain rfl := Option.some.inj hk
      exact hid
    · exact h.id_eq (by simpa only [Table.find_set_of_ne _ _ hkj] using hk)
  · intro k job hk
    by_cases hkj : k = j
    · subst hkj
      rw [Table.find_set_self] at hk
      obtain rfl := Option.some.inj hk
      simp [isActive_of_isTerminal hterm]
    · rw [Table.find_set_of_ne _ _ hkj] at hk
      simp only [Table.find_del_of_ne _ hkj]
      exact h.active_iff hk
  · intro k q hq
    by_cases hkj : k = j
    · subst hkj
      exact ⟨job', Table.find_set_self _ _ _⟩
    · rw [Table.find_del_of_ne _ hkj] at hq
      simp only [Table.find_set_of_ne _ _ hkj]
      exact h.job_of_active hq
  · intro k q hq
    rw [Table.find_del] at hq
    split_ifs at hq
    exact h.group_eq hq
  · intro k q hq
    rw [Table.find_del] at hq
    split_ifs at hq
    exact h.eof_iff hq
  · intro pid k hk
    rw [Table.find_del] at hk
    split_ifs at hk with hpid
    obtain ⟨q, hq, hqpid⟩ := h.pid_owner hk
    refine ⟨q, ?_, hqpid⟩
    have hkj : k ≠ j := by
      rintro rfl
      rw [hactive] at hq
      obtain rfl := Option.some.inj hq
      exact hpid hqpid.symm
    rw [Table.find_del_of_ne _ hkj, hq]
  · intro fd k kind hk
    obtain ⟨q, hq, hpipe⟩ := h.fd_owner hk
    refine ⟨q, ?_, hpipe⟩
    have hkj : k ≠ j := by
      rintro rfl
      rw [hactive] at hq
      obtain rfl := Option.some.inj hq
      rw [h.kind_of_complete hactive hcomplete kind] at hpipe
      cases hpipe
    rw [Table.find_del_of_ne _ hkj, hq]
  · intro k job hk
    by_cases hkj : k = j
    · subst hkj
      rw [Table.find_set_self] at hk
      obtain rfl := Option.some.inj hk
      exact fun ht => absurd ht (ne_of_isTerminal hterm rfl)
    · exact h.cause (by simpa only [Table.find_set_of_ne _ _ hkj] using hk)
  · intro k job hk
    by_cases hkj : k = j
    · subst hkj
      rw [Table.find_set_self] at hk
      obtain rfl := Option.some.inj hk
      rintro (ht | ht) <;> exact absurd ht (ne_of_isTerminal hterm rfl)
    · exact h.no_cause (by simpa only [Table.find_set_of_ne _ _ hkj] using hk)
  · intro k hk
    obtain hk | hk := List.mem_append.mp hk
    · have hkj : k ≠ j := fun heq => hnew (heq ▸ hk)
      obtain ⟨job, hjob, hs⟩ := h.notified k hk
      exact ⟨job, by rw [Table.find_set_of_ne _ _ hkj, hjob], hs⟩
    · obtain rfl := List.mem_singleton.mp hk
      exact ⟨job', Table.find_set_self _ _ _, hterm⟩
  · exact List.nodup_append.mpr ⟨h.notified_nodup, List.nodup_singleton j, by
      intro a ha b hb
      obtain rfl := List.mem_singleton.mp hb
      exact fun heq => hnew (heq ▸ ha)⟩

/-- A job runs in a new process. -/
theorem Wf.start (h : Wf t) {launched : LaunchedProcess}
    (hjob : t.jobs.find j = some job) (hqueued : job.state = .queued)
    (hgroup : launched.processGroupId = launched.pid)
    (hid : job'.id = j) (hrunning : job'.state = .running) (hcause : job'.terminationCause = none) :
    Wf { t with
      jobs := t.jobs.set j job'
      activeJobs := t.activeJobs.set j (ActiveProcess.create launched)
      pidToJob := t.pidToJob.set launched.pid j
      trackedFds := ((t.trackedFds.set launched.stdoutFd ⟨j, .stdout⟩).set
        launched.stderrFd ⟨j, .stderr⟩).set launched.startupErrorFd ⟨j, .startupError⟩ } := by
  have hinactive : t.activeJobs.find j = none := h.not_active hjob (by rw [hqueued]; rfl)
  have hother : ∀ {k q}, t.activeJobs.find k = some q → k ≠ j := by
    rintro k q hq rfl
    rw [hinactive] at hq
    cases hq
  have hnew : j ∉ t.terminalJobNotifications := h.not_notified hjob (by rw [hqueued]; rfl)
  constructor
  · intro k job hk
    by_cases hkj : k = j
    · subst hkj
      rw [Table.find_set_self] at hk
      obtain rfl := Option.some.inj hk
      exact hid
    · exact h.id_eq (by simpa only [Table.find_set_of_ne _ _ hkj] using hk)
  · intro k job hk
    by_cases hkj : k = j
    · subst hkj
      rw [Table.find_set_self] at hk
      obtain rfl := Option.some.inj hk
      simp [hrunning, JobState.isActive]
    · rw [Table.find_set_of_ne _ _ hkj] at hk
      simp only [Table.find_set_of_ne _ _ hkj]
      exact h.active_iff hk
  · intro k q hq
    by_cases hkj : k = j
    · subst hkj
      exact ⟨job', Table.find_set_self _ _ _⟩
    · rw [Table.find_set_of_ne _ _ hkj] at hq
      simp only [Table.find_set_of_ne _ _ hkj]
      exact h.job_of_active hq
  · intro k q hq
    rw [Table.find_set] at hq
    split_ifs at hq
    · obtain rfl := Option.some.inj hq
      exact hgroup
    · exact h.group_eq hq
  · intro k q hq
    rw [Table.find_set] at hq
    split_ifs at hq
    · obtain rfl := Option.some.inj hq
      intro kind
      simp [ActiveProcess.create]
    · exact h.eof_iff hq
  · intro pid k hk
    rw [Table.find_set] at hk
    split_ifs at hk with hp
    · obtain rfl := Option.some.inj hk
      exact ⟨_, Table.find_set_self _ _ _, hp.symm⟩
    · obtain ⟨q, hq, hqpid⟩ := h.pid_owner hk
      exact ⟨q, by rw [Table.find_set_of_ne _ _ (hother hq), hq], hqpid⟩
  · intro fd k kind hk
    have hcreate : ∀ kind, launched.fd kind = fd →
        ∃ p, (t.activeJobs.set j (ActiveProcess.create launched)).find j = some p ∧
          (p.pipe kind).fd = some fd :=
      fun kind hfd => ⟨_, Table.find_set_self _ _ _, congrArg some hfd⟩
    simp only [Table.find_set] at hk
    split_ifs at hk with h1 h2 h3
    · obtain ⟨rfl, rfl⟩ := TrackedFd.mk.inj (Option.some.inj hk)
      exact hcreate .startupError h1.symm
    · obtain ⟨rfl, rfl⟩ := TrackedFd.mk.inj (Option.some.inj hk)
      exact hcreate .stderr h2.symm
    · obtain ⟨rfl, rfl⟩ := TrackedFd.mk.inj (Option.some.inj hk)
      exact hcreate .stdout h3.symm
    · obtain ⟨q, hq, hpipe⟩ := h.fd_owner hk
      exact ⟨q, by rw [Table.find_set_of_ne _ _ (hother hq), hq], hpipe⟩
  · intro k job hk
    by_cases hkj : k = j
    · subst hkj
      rw [Table.find_set_self] at hk
      obtain rfl := Option.some.inj hk
      rw [hrunning]
      exact fun ht => by cases ht
    · exact h.cause (by simpa only [Table.find_set_of_ne _ _ hkj] using hk)
  · intro k job hk
    by_cases hkj : k = j
    · subst hkj
      rw [Table.find_set_self] at hk
      obtain rfl := Option.some.inj hk
      exact fun _ => hcause
    · exact h.no_cause (by simpa only [Table.find_set_of_ne _ _ hkj] using hk)
  · intro k hk
    obtain ⟨job, hjob, hs⟩ := h.notified k hk
    have hkj : k ≠ j := fun heq => hnew (heq ▸ hk)
    exact ⟨job, by rw [Table.find_set_of_ne _ _ hkj, hjob], hs⟩
  · exact h.notified_nodup

end Wf

/-- Every step keeps the state well-formed. -/
theorem Step.wf {l : Label} {w w' : World ProcessMonitor} (hstep : Step K l w w')
    (h : Wf w.st) : Wf w'.st := by
  cases hstep with
  | idle he => exact h
  | @receive w fd j kind p bytes htracked hactive =>
    refine h.setProcess hactive (p.receive kind bytes) w.st.trackedFds rfl rfl (fun k => ?_)
      fun fd' k kind' hfd => ⟨hfd, fun hk => ?_⟩
    · rw [ActiveProcess.receive_eof, ActiveProcess.receive_fd]
      exact h.eof_iff hactive k
    · obtain ⟨q, hq, hpipe⟩ := h.fd_owner hfd
      rw [hk, hactive] at hq
      obtain rfl := Option.some.inj hq
      rw [ActiveProcess.receive_fd, hpipe]
  | @finish w fd j kind p htracked hactive =>
    obtain ⟨q, hq, hpipe⟩ := h.fd_owner htracked
    rw [hactive] at hq
    obtain rfl := Option.some.inj hq
    refine h.setProcess hactive (p.closePipe kind) (w.st.trackedFds.del fd) rfl rfl (fun k => ?_)
      fun fd' k kind' hfd => ?_
    · rw [ActiveProcess.closePipe_pipe]
      split_ifs
      · simp
      · exact h.eof_iff hactive k
    · rw [Table.find_del] at hfd
      split_ifs at hfd with hne
      refine ⟨hfd, fun hk => ?_⟩
      obtain ⟨q, hq, hpipe'⟩ := h.fd_owner hfd
      rw [hk, hactive] at hq
      obtain rfl := Option.some.inj hq
      rw [ActiveProcess.closePipe_pipe, if_neg, hpipe']
      rintro rfl
      rw [hpipe] at hpipe'
      exact hne (Option.some.inj hpipe').symm
  | @exited w j p status hactive hpid =>
    have heof := h.eof_iff hactive
    refine h.setProcess hactive (p.exit status) w.st.trackedFds rfl rfl heof
      fun fd' k kind' hfd => ⟨hfd, fun hk => ?_⟩
    obtain ⟨q, hq, hpipe⟩ := h.fd_owner hfd
    rw [hk, hactive] at hq
    obtain rfl := Option.some.inj hq
    exact hpipe
  | stray | lost | misuse => exact h
  | @settle w j p job job' hactive hcomplete hjob hsettled =>
    have hs := settles_of_settledJob hsettled
    have hid : (withOutput p job).id = j := (h.id_eq hjob :)
    exact h.settle hactive hcomplete hjob (hs.id.trans hid) hs.terminal
  | @garble w j p job hactive hcomplete hjob hsettled =>
    have hprocess := h.setProcess hactive (p.swapOutput job.standardOutput job.standardError)
      w.st.trackedFds rfl rfl (fun k => by simpa using h.eof_iff hactive k)
      fun fd' k kind' hfd => ⟨hfd, fun hk => by
        obtain ⟨q, hq, hpipe⟩ := h.fd_owner hfd
        rw [hk, hactive] at hq
        obtain rfl := Option.some.inj hq
        rw [ActiveProcess.swapOutput_fd, hpipe]⟩
    have hid := h.id_eq hjob
    have hcause := h.cause hjob
    have hno := h.no_cause hjob
    have hstate := h.isActive hjob hactive
    exact hprocess.setJob (withOutput p job) hid (iff_of_true ⟨_, Table.find_set_self _ _ _⟩ hstate)
      hcause hno (fun hj => absurd hj (h.not_notified hjob (isTerminal_of_isActive hstate)))
  | misstart hjob => exact h
  | @launchFailed w j job events message hjob hqueued =>
    have hid := h.id_eq hjob
    have hinactive := h.not_active hjob (by rw [hqueued]; rfl)
    refine h.setJob _ hid ?_ (fun ht => by cases ht)
      (fun ht => by obtain ht | ht := ht <;> cases ht) (fun _ => rfl)
    simp [hinactive, JobState.isActive]
  | @abandoned w j job events rest trackedFds launched message hjob hqueued _ _ htracked _ =>
    have hid := h.id_eq hjob
    have hinactive := h.not_active hjob (by rw [hqueued]; rfl)
    have hset := h.setJob { job with
        pid := some launched.pid
        processGroupId := some launched.pid
        state := .failed
        failureMessage := message } hid
      (by simp [hinactive, JobState.isActive]) (fun ht => by cases ht)
      (fun ht => by obtain ht | ht := ht <;> cases ht) (fun _ => rfl)
    refine { hset with pid_owner := fun {pid k} hk => ?_, fd_owner := fun {fd k kind} hk => ?_ }
    · rw [Table.find_del] at hk
      split_ifs at hk
      exact h.pid_owner hk
    · rw [htracked] at hk
      split_ifs at hk
      exact h.fd_owner hk
  | started hjob hqueued hlaunch hgroup hpid hfresh hdistinct =>
    have hid := h.id_eq hjob
    have hno := h.no_cause hjob (Or.inl hqueued)
    exact h.start hjob hqueued hgroup hid rfl hno
  | @terminate w j p job cause hactive hjob hrunning =>
    have hid := h.id_eq hjob
    exact h.setJob _ hid (iff_of_true ⟨p, hactive⟩ rfl) (fun _ => Option.some_ne_none _)
      (fun ht => by obtain ht | ht := ht <;> cases ht)
      (fun hj => absurd hj (h.not_notified hjob (by rw [hrunning]; rfl)))
  | kill hactive hjob hterminating => exact h
  | @submit w j spec hjob =>
    have hinactive : w.st.activeJobs.find j = none := by
      rw [← Option.not_isSome_iff_eq_none, Option.isSome_iff_exists]
      rintro ⟨p, hp⟩
      obtain ⟨job, hjob'⟩ := h.job_of_active hp
      rw [hjob] at hjob'
      cases hjob'
    refine h.setJob _ rfl (by simp [hinactive, JobState.isActive]) (fun ht => by cases ht)
      (fun _ => rfl) (fun hj => ?_)
    obtain ⟨job, hjob', -⟩ := h.notified j hj
    rw [hjob] at hjob'
    cases hjob'
  | @dequeue w j job hjob hqueued =>
    have hid := h.id_eq hjob
    have hinactive := h.not_active hjob (by rw [hqueued]; rfl)
    exact h.setJob _ hid (by simp [hinactive, JobState.isActive]) (fun ht => by cases ht)
      (fun ht => by obtain ht | ht := ht <;> cases ht) (fun _ => rfl)
  | @collect w j rest hnotified =>
    have hnodup := h.notified_nodup
    rw [hnotified] at hnodup
    exact { h with
      notified := fun k hk => h.notified k (by rw [hnotified]; exact List.mem_cons_of_mem j hk)
      notified_nodup := (List.nodup_cons.mp hnodup).2 }

/-! ## Job records -/

/-- What a step makes of the record of a job that has this process. -/
inductive Rewrites (K : Kernel) (process : Option ActiveProcess) (job : Job) : Job → Prop where
  | settle {p job'} (hprocess : process = some p) (hactive : job.state.isActive)
      (hcomplete : p.complete) (hsettled : settledJob K p (withOutput p job) = some job') :
      Rewrites K process job job'
  | garble {p} (hprocess : process = some p) (hactive : job.state.isActive)
      (hcomplete : p.complete) (hsettled : settledJob K p (withOutput p job) = none) :
      Rewrites K process job (withOutput p job)
  | launchFailed {message : Bytes} (hqueued : job.state = .queued) (hmessage : message ≠ []) :
      Rewrites K process job { job with state := .failed, failureMessage := message }
  | abandoned {pid : Pid} {message : Bytes} (hqueued : job.state = .queued)
      (hmessage : message ≠ []) :
      Rewrites K process job { job with
        pid := some pid
        processGroupId := some pid
        state := .failed
        failureMessage := message }
  | started {pid : Pid} (hqueued : job.state = .queued) :
      Rewrites K process job { job with
        pid := some pid
        processGroupId := some pid
        state := .running }
  | terminate {p} {cause : TerminationCause} (hprocess : process = some p)
      (hrunning : job.state = .running) :
      Rewrites K process job { job with state := .terminating, terminationCause := some cause }
  | dequeue (hqueued : job.state = .queued) :
      Rewrites K process job { job with state := .cancelled }

section Rewrites

variable {process : Option ActiveProcess} {job job' : Job}

theorem Rewrites.id_eq (h : Rewrites K process job job') : job'.id = job.id := by
  cases h with
  | settle hprocess hactive hcomplete hsettled => exact (settles_of_settledJob hsettled).id
  | _ => rfl

theorem Rewrites.spec_eq (h : Rewrites K process job job') : job'.spec = job.spec := by
  cases h with
  | settle hprocess hactive hcomplete hsettled => exact (settles_of_settledJob hsettled).spec
  | _ => rfl

/-- No step puts a job into the queue. -/
theorem Rewrites.ne_queued (h : Rewrites K process job job') : job'.state ≠ .queued := by
  cases h with
  | settle hprocess hactive hcomplete hsettled =>
    exact ne_of_isTerminal (settles_of_settledJob hsettled).terminal rfl
  | garble hprocess hactive =>
    rintro (hqueued : job.state = .queued)
    rw [hqueued] at hactive
    cases hactive
  | _ => simp

/-- The record of a terminal job is final. -/
theorem Rewrites.not_terminal (h : Rewrites K process job job') : isTerminal job.state = false := by
  cases h with
  | settle hprocess hactive | garble hprocess hactive => exact isTerminal_of_isActive hactive
  | launchFailed hqueued | abandoned hqueued | started hqueued | dequeue hqueued =>
    rw [hqueued]
    rfl
  | terminate hprocess hrunning =>
    rw [hrunning]
    rfl

/-- What a step does to the record of a job: nothing, or it rewrites it, or the job is new. -/
theorem Step.rewrites {l : Label} {w v : World ProcessMonitor} (hstep : Step K l w v) (h : Wf w.st)
    (k : JobId) :
    v.st.jobs.find k = w.st.jobs.find k ∨
      (∃ job job', w.st.jobs.find k = some job ∧ v.st.jobs.find k = some job' ∧
        Rewrites K (w.st.activeJobs.find k) job job') ∨
      ∃ spec, l = .submit k ∧ w.st.jobs.find k = none ∧
        v.st.jobs.find k = some { id := k, spec } := by
  have hset : ∀ {j : JobId} {job job' : Job}, w.st.jobs.find j = some job →
      Rewrites K (w.st.activeJobs.find j) job job' →
      (w.st.jobs.set j job').find k = w.st.jobs.find k ∨
        (∃ job job'', w.st.jobs.find k = some job ∧ (w.st.jobs.set j job').find k = some job'' ∧
          Rewrites K (w.st.activeJobs.find k) job job'') := by
    intro j job job' hjob hrewrites
    by_cases hk : k = j
    · subst hk
      exact Or.inr ⟨job, job', hjob, Table.find_set_self _ _ _, hrewrites⟩
    · exact Or.inl (Table.find_set_of_ne _ _ hk)
  cases hstep with
  | idle | receive | finish | exited | stray | lost | misuse | misstart | kill | collect =>
    exact Or.inl rfl
  | settle hactive hcomplete hjob hsettled =>
    exact (hset hjob (.settle hactive (h.isActive hjob hactive) hcomplete hsettled)).imp_right Or.inl
  | garble hactive hcomplete hjob hsettled =>
    exact (hset hjob (.garble hactive (h.isActive hjob hactive) hcomplete hsettled)).imp_right Or.inl
  | launchFailed hjob hqueued hlaunch hmessage =>
    exact (hset hjob (.launchFailed hqueued hmessage)).imp_right Or.inl
  | abandoned hjob hqueued hlaunch hrest htracked hmessage =>
    exact (hset hjob (.abandoned hqueued hmessage)).imp_right Or.inl
  | started hjob hqueued => exact (hset hjob (.started hqueued)).imp_right Or.inl
  | terminate hactive hjob hrunning => exact (hset hjob (.terminate hactive hrunning)).imp_right Or.inl
  | @submit w j spec hjob =>
    by_cases hk : k = j
    · subst hk
      exact Or.inr (Or.inr ⟨spec, rfl, hjob, Table.find_set_self _ _ _⟩)
    · exact Or.inl (Table.find_set_of_ne _ _ hk)
  | dequeue hjob hqueued => exact (hset hjob (.dequeue hqueued)).imp_right Or.inl

end Rewrites

end ProcessMonitor

end Runnerd
