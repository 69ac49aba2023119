import Runnerd.CancelAnswers
import Runnerd.Consistency
import Runnerd.Descriptors

/-!
# Jobs do not disturb each other

All jobs share the maps of the monitor, the deadlines and the queue. As long as active jobs have
distinct process ids and descriptors, what is done about one job leaves every other job as it is,
through the whole chain of reading, settling, releasing the slot and starting the next job. The one
exception is a job whose terminal notification a CANCEL has left pending: the next step that deals
with notifications takes its deadline away.
-/

namespace Runnerd

open Effect Effect.Prog Steps Trace

namespace ProcessMonitor

variable {K : Kernel} {w w' w'' : World ProcessMonitor} {l : Label} {j k : JobId} {job : Job}
  {p q : ActiveProcess} {active : Table JobId ActiveProcess}

/-! ## The frame of a job -/

/-- The job that a step is about. -/
def Label.concern : Label → Option JobId
  | .idle | .stray | .misuse | .collect => none
  | .receive j | .finish j | .exited j | .lost j | .settle j | .garble j | .misstart j
    | .launchFailed j | .abandoned j | .started j | .terminate j _ | .kill j | .submit j
    | .dequeue j => some j

/-- No other active job has the process id or a descriptor of this one. -/
def Alone (k : JobId) (active : Table JobId ActiveProcess) : Prop :=
  ∀ q, active.find k = some q → ∀ j ≠ k, ∀ p, active.find j = some p →
    p.pid ≠ q.pid ∧ ∀ fd ∈ p.openFds, fd ∉ q.openFds

/-- The children forked in these events have other process ids, and the pipes adopted in them are
other descriptors. -/
structure Elsewhere (q : ActiveProcess) (events : List Event) : Prop where
  pids : ∀ pid, .forked pid ∈ events → pid ≠ q.pid
  fds : ∀ j pid stdoutFd stderrFd startupErrorFd,
    .adopted j pid stdoutFd stderrFd startupErrorFd ∈ events →
      ∀ fd ∈ [stdoutFd, stderrFd, startupErrorFd], fd ∉ q.openFds

/-- Whom an event signals. -/
def target : Event → Option KillTarget
  | .signalled _ group _ => some (.group group)
  | .killSent target _ => some target
  | _ => none

/-- These signals are for other jobs, and go neither to the job's process nor to its group. -/
def Aside (k : JobId) (w : World ProcessMonitor) (events : List Event) : Prop :=
  ∀ e ∈ events, (∀ group signal, e ≠ .signalled k group signal) ∧
    ∀ q, w.st.activeJobs.find k = some q →
      target e ≠ some (.process q.pid) ∧ target e ≠ some (.group q.processGroupId)

/-- A job keeps its record, its process, its process id and its pipes, and no signal goes to its
process group. -/
structure Undisturbed (k : JobId) (w w' : World ProcessMonitor) : Prop where
  job : w'.st.jobs.find k = w.st.jobs.find k
  process : w'.st.activeJobs.find k = w.st.activeJobs.find k
  pids : ∀ pid, w'.st.pidToJob.find pid = some k ↔ w.st.pidToJob.find pid = some k
  fds : ∀ fd kind, w'.st.trackedFds.find fd = some ⟨k, kind⟩ ↔
    w.st.trackedFds.find fd = some ⟨k, kind⟩
  notified : k ∈ w'.st.terminalJobNotifications → k ∈ w.st.terminalJobNotifications
  signals : ∃ events, w'.log = w.log ++ events ∧ Aside k w events

theorem Undisturbed.refl (w : World ProcessMonitor) : Undisturbed k w w :=
  ⟨rfl, rfl, fun _ => Iff.rfl, fun _ _ => Iff.rfl, id, [], (List.append_nil _).symm,
    List.forall_mem_nil _⟩

theorem Undisturbed.trans (h : Undisturbed k w w') (h' : Undisturbed k w' w'') :
    Undisturbed k w w'' := by
  obtain ⟨events, hlog, hsignals⟩ := h.signals
  obtain ⟨events', hlog', hsignals'⟩ := h'.signals
  refine ⟨h'.job.trans h.job, h'.process.trans h.process,
    fun pid => (h'.pids pid).trans (h.pids pid),
    fun fd kind => (h'.fds fd kind).trans (h.fds fd kind), fun hk => h.notified (h'.notified hk),
    events ++ events', by rw [hlog', hlog, List.append_assoc],
    List.forall_mem_append.mpr ⟨hsignals, fun e he => ?_⟩⟩
  rw [← h.process]
  exact hsignals' e he

theorem Alone.set (h : Alone k active) (hj : j ≠ k) {p' : ActiveProcess}
    (hnew : ∀ q, active.find k = some q → p'.pid ≠ q.pid ∧ ∀ fd ∈ p'.openFds, fd ∉ q.openFds) :
    Alone k (active.set j p') := by
  intro q hq i hi p hp
  rw [Table.find_set_of_ne _ _ hj.symm] at hq
  by_cases hij : i = j
  · subst hij
    rw [Table.find_set_self] at hp
    obtain rfl := Option.some.inj hp
    exact hnew q hq
  · rw [Table.find_set_of_ne _ _ hij] at hp
    exact h q hq i hi p hp

/-- A process changes but for its id, and opens no pipe. -/
theorem Alone.update (h : Alone k active) (hj : j ≠ k) (hactive : active.find j = some p)
    {p' : ActiveProcess} (hpid : p'.pid = p.pid) (hfds : ∀ fd ∈ p'.openFds, fd ∈ p.openFds) :
    Alone k (active.set j p') := by
  refine h.set hj fun q hq => ?_
  obtain ⟨hne, hdisjoint⟩ := h q hq j hj p hactive
  exact ⟨hpid ▸ hne, fun fd hfd => hdisjoint fd (hfds fd hfd)⟩

theorem Alone.del (h : Alone k active) (hj : j ≠ k) : Alone k (active.del j) := by
  intro q hq i hi p hp
  rw [Table.find_del_of_ne _ hj.symm] at hq
  by_cases hij : i = j
  · subst hij
    rw [Table.find_del_self] at hp
    cases hp
  · rw [Table.find_del_of_ne _ hij] at hp
    exact h q hq i hi p hp

/-! ## Steps -/

theorem mem_openFds_of_tracked (h : Wf w.st) (hactive : w.st.activeJobs.find k = some q) {fd : Fd}
    {kind : ProcessFdKind} (htracked : w.st.trackedFds.find fd = some ⟨k, kind⟩) :
    fd ∈ q.openFds := by
  obtain ⟨q', hq', hpipe⟩ := h.fd_owner htracked
  obtain rfl := Option.some.inj (hactive.symm.trans hq')
  exact (ActiveProcess.mem_openFds q fd).mpr ⟨kind, hpipe⟩

/-- A process id that is not the job's own is taken off the map. -/
theorem pids_of_del (h : Wf w.st) {pid : Pid}
    (hother : ∀ q, w.st.activeJobs.find k = some q → pid ≠ q.pid) (pid' : Pid) :
    (w.st.pidToJob.del pid).find pid' = some k ↔ w.st.pidToJob.find pid' = some k := by
  simp only [Table.find_del]
  split_ifs with hpid
  · refine iff_of_false (by simp) fun hk => ?_
    obtain ⟨q, hq, hqpid⟩ := h.pid_owner hk
    exact hother q hq (hpid.symm.trans hqpid.symm)
  · rfl

theorem aside_of_quiet {events : List Event} (h : ∀ e ∈ events, target e = none) :
    Aside k w events := by
  refine fun e he => ⟨fun group signal heq => ?_, fun q _ => by simp [h e he]⟩
  have hnone := h e he
  rw [heq] at hnone
  cases hnone

theorem aside_between {e : Event} {events more : List Event} (he : target e = none)
    (hevents : Aside k w events) (hmore : Aside k w more) : Aside k w (e :: (events ++ more)) :=
  List.forall_mem_cons.mpr ⟨aside_of_quiet (List.forall_mem_singleton.mpr he) e List.mem_cons_self,
    List.forall_mem_append.mpr ⟨hevents, hmore⟩⟩

/-- A signal to the process group of another job. -/
theorem aside_signalled (h : Wf w.st) (halone : Alone k w.st.activeJobs) (hj : j ≠ k)
    (hactive : w.st.activeJobs.find j = some p) (signal : Signal) :
    Aside k w [.signalled j p.processGroupId signal] := by
  refine List.forall_mem_singleton.mpr ⟨fun group other heq => ?_, fun q hq => ?_⟩
  · exact hj (Event.signalled.inj heq).1
  · have hne := (halone q hq j hj p hactive).1
    simp [target, h.group_eq hactive, h.group_eq hq, hne]

/-- A launch signals children of its own only. -/
theorem aside_launch (h : Wf w.st) {events : List Event} {held : Holdings}
    (hrun : Holdings.run {} events = some held)
    (helse : ∀ q, w.st.activeJobs.find k = some q → ∀ pid, .forked pid ∈ events → pid ≠ q.pid) :
    Aside k w events := by
  intro e he
  have hlaunch := Holdings.isLaunch_of_run hrun e he
  cases e with
  | killSent sent signal =>
    refine ⟨fun _ _ => Event.noConfusion, fun q hq => ?_⟩
    have hforked := (forked_of_killSent hrun he).resolve_left (List.not_mem_nil)
    have hne := helse q hq sent.id hforked
    rw [h.group_eq hq]
    constructor <;> intro heq <;> obtain rfl := Option.some.inj heq <;> exact hne rfl
  | signalled => cases hlaunch
  | _ => exact aside_of_quiet (by simp [target]) _ (List.mem_singleton_self _)

/-- A step about another job spares this one. -/
theorem Step.undisturbed (hstep : Step K l w w') (h : Wf w.st) (halone : Alone k w.st.activeJobs)
    (hl : l.concern ≠ some k) {events : List Event} (hlog : w'.log = w.log ++ events)
    (helse : ∀ q, w.st.activeJobs.find k = some q → Elsewhere q events) :
    Undisturbed k w w' ∧ Alone k w'.st.activeJobs := by
  have hcancel : ∀ {more : List Event}, w.log ++ more = w.log ++ events → events = more :=
    fun heq => (List.append_cancel_left heq).symm
  have hnil : w.log = w.log ++ events → events = [] := fun heq => by simpa using heq.symm
  have hne : ∀ {j}, some j ≠ some k → j ≠ k := fun hj heq => hj (congrArg some heq)
  cases hstep with
  | @idle _ e he =>
    obtain rfl := hcancel hlog
    have hquiet : ∀ e' ∈ [e], target e' = none := by
      refine List.forall_mem_singleton.mpr ?_
      cases e <;> first | rfl | cases he
    exact ⟨⟨rfl, rfl, fun _ => Iff.rfl, fun _ _ => Iff.rfl, id, _, hlog, aside_of_quiet hquiet⟩,
      halone⟩
  | stray | lost | misuse | misstart =>
    obtain rfl := hcancel hlog
    exact ⟨⟨rfl, rfl, fun _ => Iff.rfl, fun _ _ => Iff.rfl, id, _, hlog,
      aside_of_quiet (by simp [target])⟩, halone⟩
  | @receive _ fd j kind p bytes htracked hactive =>
    have hj := hne hl
    obtain rfl := hcancel hlog
    refine ⟨⟨rfl, Table.find_set_of_ne _ _ hj.symm, fun _ => Iff.rfl, fun _ _ => Iff.rfl, id, _, hlog,
      aside_of_quiet (by simp [target])⟩, halone.update hj hactive rfl fun fd' hfd => ?_⟩
    simpa only [ActiveProcess.mem_openFds, ActiveProcess.receive_fd] using hfd
  | @finish _ fd j kind p htracked hactive =>
    have hj := hne hl
    obtain rfl := hcancel hlog
    refine ⟨⟨rfl, Table.find_set_of_ne _ _ hj.symm, fun _ => Iff.rfl, fun fd' kind' => ?_, id, _,
      hlog, aside_of_quiet (by simp [target])⟩, halone.update hj hactive rfl fun fd' hfd => ?_⟩
    · simp only [Table.find_del]
      split_ifs with hfd
      · rw [hfd, htracked]
        simp [hj]
      · rfl
    · obtain ⟨kind', hpipe⟩ := (ActiveProcess.mem_openFds _ _).mp hfd
      rw [ActiveProcess.closePipe_pipe] at hpipe
      split_ifs at hpipe
      exact (ActiveProcess.mem_openFds _ _).mpr ⟨kind', hpipe⟩
  | @exited _ j p status hactive hpid =>
    have hj := hne hl
    obtain rfl := hcancel hlog
    exact ⟨⟨rfl, Table.find_set_of_ne _ _ hj.symm, fun _ => Iff.rfl, fun _ _ => Iff.rfl, id, _, hlog,
      aside_of_quiet (by simp [target])⟩, halone.update hj hactive rfl fun _ hfd => hfd⟩
  | @settle _ j p job job' hactive hcomplete hjob hsettled =>
    have hj := hne hl
    obtain rfl := hcancel hlog
    have hpids := pids_of_del h fun q hq => (halone q hq j hj p hactive).1
    refine ⟨⟨Table.find_set_of_ne _ _ hj.symm, Table.find_del_of_ne _ hj.symm, hpids,
      fun _ _ => Iff.rfl, fun hk => ?_, _, hlog, aside_of_quiet (by simp [target])⟩, halone.del hj⟩
    exact (List.mem_append.mp hk).resolve_right fun hk => hj (List.mem_singleton.mp hk).symm
  | @garble _ j p job hactive hcomplete hjob hsettled =>
    have hj := hne hl
    obtain rfl := hnil hlog
    refine ⟨⟨Table.find_set_of_ne _ _ hj.symm, Table.find_set_of_ne _ _ hj.symm, fun _ => Iff.rfl,
      fun _ _ => Iff.rfl, id, _, hlog, aside_of_quiet (by simp [target])⟩,
      halone.update hj hactive rfl fun fd' hfd => ?_⟩
    simpa only [ActiveProcess.mem_openFds, ActiveProcess.swapOutput_fd] using hfd
  | @launchFailed _ j job events' message hjob hqueued hlaunch =>
    have hj := hne hl
    obtain rfl := hcancel hlog
    obtain ⟨std, held, hstd, hrun, -, -⟩ := hlaunch
    have haside : Aside k w events' := aside_launch h hrun fun q hq pid hpid =>
      (helse q hq).pids pid (by simp [hpid])
    have hsignals : Aside k w (.starting j :: (events' ++ [.entered j .failed])) :=
      aside_between rfl haside (aside_of_quiet (by simp [target]))
    exact ⟨⟨Table.find_set_of_ne _ _ hj.symm, rfl, fun _ => Iff.rfl, fun _ _ => Iff.rfl, id, _, hlog,
      hsignals⟩, halone⟩
  | @abandoned _ j job events' rest tracked launched message hjob hqueued hlaunch hrest htracked =>
    have hj := hne hl
    obtain rfl := hcancel hlog
    have hforked := hlaunch.forked
    have hchild : ∀ q, w.st.activeJobs.find k = some q → launched.pid ≠ q.pid ∧
        ∀ fd ∈ [launched.stdoutFd, launched.stderrFd, launched.startupErrorFd], fd ∉ q.openFds :=
      fun q hq => ⟨(helse q hq).pids launched.pid (by simp [hforked]),
        (helse q hq).fds j launched.pid _ _ _ (by simp)⟩
    obtain ⟨std, held, hstd, hrun, -, -⟩ := hrest
    have haside : Aside k w (events' ++ rest) := aside_launch h hrun fun q hq pid hpid =>
      (helse q hq).pids pid (by
        obtain hpid | hpid := List.mem_append.mp hpid <;> simp [hpid])
    have hsignals : Aside k w (.starting j :: (events' ++ .adopted j launched.pid launched.stdoutFd
        launched.stderrFd launched.startupErrorFd :: (rest ++ [.entered j .failed]))) :=
      aside_between rfl (fun e he => haside e (List.mem_append_left _ he))
        (aside_between rfl (fun e he => haside e (List.mem_append_right _ he))
          (aside_of_quiet (by simp [target])))
    have hpids := pids_of_del h fun q hq => (hchild q hq).1
    refine ⟨⟨Table.find_set_of_ne _ _ hj.symm, rfl, hpids, fun fd kind => ?_, id, _, hlog,
      hsignals⟩, halone⟩
    simp only [htracked]
    split_ifs with hfd
    · refine iff_of_false (by simp) fun hk => ?_
      obtain ⟨q, hq, -⟩ := h.fd_owner hk
      exact (hchild q hq).2 fd hfd (mem_openFds_of_tracked h hq hk)
    · rfl
  | @started _ j job events' launched hjob hqueued hlaunch hgroup hpid hfresh hdistinct =>
    have hj := hne hl
    obtain rfl := hcancel hlog
    have hforked := hlaunch.forked
    obtain ⟨std, held, hstd, hrun, -, -⟩ := hlaunch
    have haside : Aside k w events' := aside_launch h hrun fun q hq pid hpid =>
      (helse q hq).pids pid (by simp [hpid])
    have hsignals : Aside k w (.starting j :: (events' ++ [.adopted j launched.pid
        launched.stdoutFd launched.stderrFd launched.startupErrorFd,
        .registered launched.stdoutFd .readable, .registered launched.stderrFd .readable,
        .registered launched.startupErrorFd .readable, .entered j .running])) :=
      aside_between rfl haside (aside_of_quiet (by simp [target]))
    refine ⟨⟨Table.find_set_of_ne _ _ hj.symm, Table.find_set_of_ne _ _ hj.symm, fun pid => ?_,
      fun fd kind => ?_, id, _, hlog, hsignals⟩, halone.set hj fun q hq => ?_⟩
    · simp only [Table.find_set]
      split_ifs with heq
      · rw [heq, hpid]
        simp [hj]
      · rfl
    · have hfresh' : ∀ kind', w.st.trackedFds.find (launched.fd kind') = none := fun kind' =>
        hfresh _ (by cases kind' <;> simp [LaunchedProcess.fd])
      simp only [Table.find_set]
      split_ifs with h3 h2 h1
      · rw [h3, show w.st.trackedFds.find launched.startupErrorFd = none from hfresh' .startupError]
        simp [hj]
      · rw [h2, show w.st.trackedFds.find launched.stderrFd = none from hfresh' .stderr]
        simp [hj]
      · rw [h1, show w.st.trackedFds.find launched.stdoutFd = none from hfresh' .stdout]
        simp [hj]
      · rfl
    · have hfds := (helse q hq).fds j launched.pid launched.stdoutFd launched.stderrFd
        launched.startupErrorFd (by simp)
      refine ⟨(helse q hq).pids launched.pid (by simp [hforked]), fun fd hfd => hfds fd ?_⟩
      obtain ⟨kind, hpipe⟩ := (ActiveProcess.mem_openFds _ _).mp hfd
      obtain rfl : launched.fd kind = fd := Option.some.inj hpipe
      cases kind <;> simp [LaunchedProcess.fd]
  | @terminate _ j p job cause hactive hjob hrunning =>
    have hj := hne hl
    obtain rfl := hcancel hlog
    exact ⟨⟨Table.find_set_of_ne _ _ hj.symm, rfl, fun _ => Iff.rfl, fun _ _ => Iff.rfl, id, _, hlog,
      List.forall_mem_append.mpr ⟨aside_signalled h halone hj hactive .SIGTERM,
        aside_of_quiet (by simp [target])⟩⟩, halone⟩
  | @kill _ j p job hactive hjob hterminating =>
    have hj := hne hl
    obtain rfl := hcancel hlog
    exact ⟨⟨rfl, rfl, fun _ => Iff.rfl, fun _ _ => Iff.rfl, id, _, hlog,
      aside_signalled h halone hj hactive .SIGKILL⟩, halone⟩
  | submit hjob =>
    have hj := hne hl
    obtain rfl := hcancel hlog
    exact ⟨⟨Table.find_set_of_ne _ _ hj.symm, rfl, fun _ => Iff.rfl, fun _ _ => Iff.rfl, id, _, hlog,
      aside_of_quiet (by simp [target])⟩, halone⟩
  | dequeue hjob =>
    have hj := hne hl
    obtain rfl := hcancel hlog
    exact ⟨⟨Table.find_set_of_ne _ _ hj.symm, rfl, fun _ => Iff.rfl, fun _ _ => Iff.rfl, id, _, hlog,
      aside_of_quiet (by simp [target])⟩, halone⟩
  | collect hnotified =>
    obtain rfl := hnil hlog
    exact ⟨⟨rfl, rfl, fun _ => Iff.rfl, fun _ _ => Iff.rfl,
      fun hk => hnotified ▸ List.mem_cons_of_mem _ hk, _, hlog, aside_of_quiet (by simp [target])⟩,
      halone⟩

/-! ## Operations -/

/-- A launch. -/
def Label.launches : Label → Bool
  | .launchFailed _ | .abandoned _ | .started _ => true
  | _ => false

/-- What is done about other jobs than this one, but for starting them. -/
def Label.Apart (k : JobId) (l : Label) : Prop := l.concern ≠ some k ∧ l.launches = false

theorem Label.apart_of_none (h : l.concern = none) (hl : l.launches = false) : l.Apart k := by
  refine ⟨?_, hl⟩
  rw [h]
  simp

/-- Only launches fork and adopt. -/
theorem Step.elsewhere (hstep : Step K l w w') (hl : l.launches = false) {events : List Event}
    (hlog : w'.log = w.log ++ events) (q : ActiveProcess) : Elsewhere q events := by
  have hcancel : ∀ {more : List Event}, w.log ++ more = w.log ++ events → events = more :=
    fun heq => (List.append_cancel_left heq).symm
  have hnil : w.log = w.log ++ events → events = [] := fun heq => by simpa using heq.symm
  cases hstep with
  | @idle _ e he =>
    obtain rfl := hcancel hlog
    refine ⟨fun pid hmem => ?_, fun i pid a b c hmem => ?_⟩
    all_goals
      obtain rfl := List.mem_singleton.mp hmem
      cases he
  | garble | collect =>
    rw [hnil hlog]
    exact ⟨by simp, by simp⟩
  | launchFailed | abandoned | started => cases hl
  | _ =>
    obtain rfl := hcancel hlog
    exact ⟨by simp, by simp⟩

/-- The state of a job that these events say nothing of. -/
theorem state_of_others {events : List Event}
    (h : ∀ e ∈ events, e ≠ .submitted k ∧ ∀ s, e ≠ .entered k s) (log : List Event) :
    (ledger (log ++ events)).state k = (ledger log).state k := by
  induction events generalizing log with
  | nil => rw [List.append_nil]
  | cons e events ih =>
    obtain ⟨⟨hsubmitted, hentered⟩, hrest⟩ := List.forall_mem_cons.mp h
    have htail := ih hrest (log ++ [e])
    rw [List.append_assoc, List.singleton_append, ledger_concat] at htail
    rw [htail]
    cases e with
    | submitted j =>
      exact Function.update_of_ne (fun heq : k = j => hsubmitted (by rw [heq])) _ _
    | entered j s =>
      exact Function.update_of_ne (fun heq : k = j => hentered s (by rw [heq])) _ _
    | _ => rfl

/-- A launch has the process ids and the descriptors of no job that runs or terminates. -/
theorem Step.launch_elsewhere (hstep : Step K l w w') (hl : l.launches) (h : Wf w.st)
    (hrec : Recorded w) (htracks : Tracks w) (hheld : Held w.st) (hfresh : FreshFds w'.log)
    (haside : ForksAside w'.log) {events : List Event} (hlog : w'.log = w.log ++ events)
    (hactive : w.st.activeJobs.find k = some q) : Elsewhere q events := by
  have hcancel : ∀ {more : List Event}, w.log ++ more = w.log ++ events → events = more :=
    fun heq => (List.append_cancel_left heq).symm
  have hpids : (∀ e ∈ events, e ≠ .submitted k ∧ ∀ s, e ≠ .entered k s) →
      ∀ pid, .forked pid ∈ events → pid ≠ q.pid := by
    rintro hothers pid hmem rfl
    obtain ⟨pre, post, rfl⟩ := List.append_of_mem hmem
    rw [hlog] at haside
    refine haside (w.log ++ pre) (.forked q.pid) post (by simp) q.pid rfl ?_
    rw [List.nil_append]
    refine mem_activePids_of_active h hrec hactive (state_of_others (fun e he => ?_) w.log)
    exact hothers e (List.mem_append_left _ he)
  have hfds : ∀ {fds : List Fd}, (∀ fd ∈ fds, fd ∉ openFds w.log) → ∀ fd ∈ fds, fd ∉ q.openFds := by
    intro fds hnew fd hfd hopen
    obtain ⟨kind, hpipe⟩ := (ActiveProcess.mem_openFds _ _).mp hopen
    exact hnew fd hfd (htracks fd _ (hheld k q kind fd hactive hpipe)).2
  have hlaunches : ∀ {events : List Event}, (∀ e ∈ events, e.isLaunch) →
      ∀ e ∈ events, e ≠ .submitted k ∧ ∀ s, e ≠ .entered k s := by
    intro events hevents e he
    have := hevents e he
    refine ⟨?_, fun s => ?_⟩ <;> rintro rfl <;> cases this
  have hother : ∀ {j job}, w.st.jobs.find j = some job → job.state = .queued → j ≠ k := by
    rintro j job hjob hqueued rfl
    rw [h.not_active hjob (by rw [hqueued]; rfl)] at hactive
    cases hactive
  cases hstep with
  | @launchFailed _ j job events' message hjob hqueued hlaunch =>
    have hj := hother hjob hqueued
    have hall := hlaunch.isLaunch
    obtain rfl := hcancel hlog
    refine ⟨hpids ?_, fun i pid a b c hmem => ?_⟩
    · simp only [List.forall_mem_cons, List.forall_mem_append]
      exact ⟨by simp, hlaunches hall, by simp [hj]⟩
    · simp only [List.mem_cons, List.mem_append, reduceCtorEq, List.not_mem_nil, or_false,
        false_or] at hmem
      cases adoptedPid_of_isLaunch (hall _ hmem)
  | @abandoned _ j job events' rest tracked launched message hjob hqueued hlaunch hrest =>
    have hj := hother hjob hqueued
    have hall := hrest.isLaunch
    have hnew := hlaunch.fresh hfresh
    obtain rfl := hcancel hlog
    refine ⟨hpids ?_, fun i pid a b c hmem => ?_⟩
    · have hevents := List.forall_mem_append.mp (hlaunches hall)
      simp only [List.forall_mem_cons, List.forall_mem_append]
      exact ⟨by simp, hevents.1, by simp, hevents.2, by simp [hj]⟩
    · have hnone : ∀ e ∈ events' ++ rest, adoptedPid e = none :=
        fun e he => adoptedPid_of_isLaunch (hall e he)
      simp only [List.mem_cons, List.mem_append, reduceCtorEq, List.not_mem_nil, or_false,
        false_or] at hmem
      obtain hmem | heq | hmem := hmem
      · cases hnone _ (List.mem_append_left _ hmem)
      · obtain ⟨rfl, rfl, rfl, rfl, rfl⟩ := Event.adopted.inj heq
        exact hfds hnew
      · cases hnone _ (List.mem_append_right _ hmem)
  | @started _ j job events' launched hjob hqueued hlaunch =>
    have hj := hother hjob hqueued
    have hall := hlaunch.isLaunch
    have hnew := hlaunch.fresh hfresh
    obtain rfl := hcancel hlog
    refine ⟨hpids ?_, fun i pid a b c hmem => ?_⟩
    · simp only [List.forall_mem_cons, List.forall_mem_append]
      exact ⟨by simp, hlaunches hall, by simp, by simp, by simp, by simp, by simp [hj]⟩
    · simp only [List.mem_cons, List.mem_append, reduceCtorEq, List.not_mem_nil, or_false,
        false_or] at hmem
      obtain hmem | heq := hmem
      · cases adoptedPid_of_isLaunch (hall _ hmem)
      · obtain ⟨rfl, rfl, rfl, rfl, rfl⟩ := Event.adopted.inj heq
        exact hfds hnew
  | _ => cases hl

theorem undisturbed_of_walk (hwalk : Walk (Step K) {l | l.Apart k} w w') (h : Wf w.st)
    (halone : Alone k w.st.activeJobs) : Undisturbed k w w' ∧ Alone k w'.st.activeJobs := by
  have key : Wf w'.st ∧ Undisturbed k w w' ∧ Alone k w'.st.activeJobs := by
    refine hwalk.invariant (P := fun w' => Wf w'.st ∧ Undisturbed k w w' ∧ Alone k w'.st.activeJobs)
      ?_ ⟨h, .refl w, halone⟩
    rintro l hl a b hstep ⟨hwf, hkept, halone⟩
    obtain ⟨events, hlog⟩ := hstep.log_prefix
    obtain ⟨hnext, halone'⟩ := hstep.undisturbed hwf halone hl.1 hlog fun q _ =>
      hstep.elsewhere hl.2 hlog q
    exact ⟨hstep.wf hwf, hkept.trans hnext, halone'⟩
  exact key.2

/-- This descriptor is not one of the job's pipes. -/
def NotOf (k : JobId) (w : World ProcessMonitor) (fd : Fd) : Prop :=
  ∀ kind, w.st.trackedFds.find fd ≠ some ⟨k, kind⟩

theorem drainProcessFd_apart {fd : Fd} (h : Wf w.st) (hfd : NotOf k w fd) :
    wp (drainProcessFd K fd) (fun _ w' => Walk (Step K) {l | l.Apart k} w w') w := by
  unfold drainProcessFd
  refine wp_bind_ok (state_run w) ?_
  cases htracked : w.st.trackedFds.find fd with
  | none => exact wp_pure Walk.refl
  | some tracked =>
    have hj : tracked.jobId ≠ k := fun heq => hfd tracked.kind (heq ▸ htracked)
    obtain ⟨p, hactive, -⟩ := @Wf.fd_owner _ h fd tracked.jobId tracked.kind htracked
    simp only [hactive]
    refine wp_bind_ok (history_run w) (wp_mono (drainLoop_spec (K := K) _ htracked hactive)
      fun _ _ hwalk => hwalk.1.mono fun l hl => ?_)
    cases l with
    | idle => exact Label.apart_of_none rfl rfl
    | receive i | finish i =>
      obtain rfl : i = tracked.jobId := by simpa [Label.drainsOf] using hl
      exact ⟨fun heq => hj (Option.some.inj heq), rfl⟩
    | _ => cases hl

theorem drainFds_apart {fds : List Fd} (h : Wf w.st) (halone : Alone k w.st.activeJobs)
    (hfds : ∀ fd ∈ fds, NotOf k w fd) :
    wp (drainFds K fds) (fun _ w' => Walk (Step K) {l | l.Apart k} w w') w := by
  induction fds generalizing w with
  | nil => exact wp_pure Walk.refl
  | cons fd rest ih =>
    refine wp_bind (drainProcessFd_apart h (hfds fd List.mem_cons_self)) (fun _ w1 h1 => ?_)
      fun _ _ h => h
    obtain ⟨hkept, halone1⟩ := undisturbed_of_walk h1 h halone
    refine wp_mono (ih (wf_of_walk h1 h) halone1 fun fd' hfd' kind hkind => ?_)
      fun _ _ h2 => h1.trans h2
    exact hfds fd' (List.mem_cons_of_mem _ hfd') kind ((hkept.fds fd' kind).mp hkind)

theorem tryFinalizeJob_apart (h : Wf w.st) (hj : j ≠ k) :
    wp (tryFinalizeJob K j) (fun _ w' => Walk (Step K) {l | l.Apart k} w w') w := by
  have hconcern : some j ≠ some k := fun heq => hj (Option.some.inj heq)
  refine wp_mono (tryFinalizeJob_spec h j) fun r w' hr => ?_
  obtain ⟨-, rfl, -⟩ | ⟨-, hstep⟩ | ⟨e, -, hstep⟩ := hr
  · exact Walk.refl
  · exact Walk.single (by exact ⟨hconcern, rfl⟩) hstep
  · exact Walk.single (by exact ⟨hconcern, rfl⟩) hstep

/-- The pipes of another job. -/
theorem notOf_openFds (h : Wf w.st) (halone : Alone k w.st.activeJobs) (hj : j ≠ k)
    (hactive : w.st.activeJobs.find j = some p) : ∀ fd ∈ p.openFds, NotOf k w fd := by
  intro fd hfd kind htracked
  obtain ⟨q, hq, -⟩ := h.fd_owner htracked
  exact (halone q hq j hj p hactive).2 fd hfd (mem_openFds_of_tracked h hq htracked)

theorem looked_apart (h : Wf w.st) (halone : Alone k w.st.activeJobs) (hj : j ≠ k)
    (hactive : w.st.activeJobs.find j = some p) :
    Walk (Step K) {l | l.Apart k} w (looked K j w) := by
  have hconcern : some j ≠ some k := fun heq => hj (Option.some.inj heq)
  have key : wp (finishExitedChildBeforeSignal K j)
      (fun _ w' => Walk (Step K) {l | l.Apart k} w w') w := by
    unfold finishExitedChildBeforeSignal
    refine wp_bind (R := fun r w1 => Walk (Step K) {l | l.Apart k} w w1 ∧
        ∀ q, r = .ok q → w1.st.activeJobs.find j = some q)
      ⟨?_, (pollChild_spec hactive).2⟩ (fun q w1 h1 => ?_) fun _ _ h1 => h1.1
    · show wp (pollChild K j) (fun _ w1 => Walk (Step K) {l | l.Apart k} w w1) w
      refine wp_mono (pollChild_polled hactive) fun r w1 h1 => ?_
      cases h1 with
      | known hexited heq => exact heq ▸ Walk.refl
      | exited hexited hwait hstep => exact Walk.single (by exact ⟨hconcern, rfl⟩) hstep
      | running hexited hwait heq =>
        exact heq ▸ Walk.single (by exact Label.apart_of_none rfl rfl) (Step.idle rfl)
      | failed hl hstep =>
        refine Walk.single ?_ hstep
        obtain rfl | rfl := hl
        · exact Label.apart_of_none rfl rfl
        · exact ⟨hconcern, rfl⟩
    have hwf1 := wf_of_walk h1.1 h
    obtain ⟨-, halone1⟩ := undisturbed_of_walk h1.1 h halone
    split_ifs
    · exact wp_pure h1.1
    refine wp_bind (drainFds_apart hwf1 halone1 (notOf_openFds hwf1 halone1 hj (h1.2 q rfl)))
      (fun _ w2 h2 => ?_) fun _ _ h2 => h1.1.trans h2
    refine wp_bind (tryFinalizeJob_apart (wf_of_walk h2 hwf1) hj) (fun _ w3 h3 => ?_)
      fun _ _ h3 => (h1.1.trans h2).trans h3
    have hwalk3 := (h1.1.trans h2).trans h3
    obtain ⟨job, hjob⟩ | hjob := Option.eq_none_or_eq_some (w3.st.jobs.find j) |>.symm
    · exact wp_bind_ok (jobAt_run hjob) (wp_pure hwalk3)
    · exact wp_of_run (bind_of_error (jobAt_of_none hjob))
        (hwalk3.tail (by exact Label.apart_of_none rfl rfl) Step.misuse)
  exact key

theorem requestTerminate_apart (h : Wf w.st) (halone : Alone k w.st.activeJobs) (hj : j ≠ k)
    (hjob : w.st.jobs.find j = some job) (hrunning : job.state = .running)
    (cause : TerminationCause) :
    wp (requestTerminate K j cause) (fun _ w' => Walk (Step K) {l | l.Apart k} w w') w := by
  obtain ⟨p, hactive⟩ := (h.active_iff hjob).mpr (by rw [hrunning]; rfl)
  have hwalk := looked_apart (K := K) h halone hj hactive
  refine wp_mono (requestTerminate_spec h hjob hrunning cause) fun _ w' hr => ?_
  obtain hstep | rfl | hstep := hr.idle
  · exact hwalk.tail (by exact ⟨fun heq => hj (Option.some.inj heq), rfl⟩) hstep
  · exact hwalk
  · exact hwalk.tail (by exact Label.apart_of_none rfl rfl) hstep

theorem forceKill_apart (h : Wf w.st) (halone : Alone k w.st.activeJobs) (hj : j ≠ k)
    (hjob : w.st.jobs.find j = some job) (hterminating : job.state = .terminating) :
    wp (forceKill K j) (fun _ w' => Walk (Step K) {l | l.Apart k} w w') w := by
  obtain ⟨p, hactive⟩ := (h.active_iff hjob).mpr (by rw [hterminating]; rfl)
  have hwalk := looked_apart (K := K) h halone hj hactive
  refine wp_mono (forceKill_spec h hjob hterminating) fun _ w' hr => ?_
  obtain hstep | rfl | hstep := hr
  · exact hwalk.tail (by exact ⟨fun heq => hj (Option.some.inj heq), rfl⟩) hstep
  · exact hwalk
  · exact hwalk.tail (by exact Label.apart_of_none rfl rfl) hstep

/-- The children that `waitpid(-1)` reports. -/
def reported : Reaps → List Pid
  | .child pid _ rest => pid :: reported rest
  | .interrupted rest => reported rest
  | .none | .failed _ => []

theorem reapLoop_apart (h : Wf w.st) (halone : Alone k w.st.activeJobs) (reaps : Reaps)
    (hpids : ∀ pid ∈ reported reaps, w.st.pidToJob.find pid ≠ some k) :
    wp (reapLoop K reaps) (fun _ w' => Walk (Step K) {l | l.Apart k} w w') w := by
  induction reaps generalizing w with
  | child pid status rest ih =>
    have hrest : ∀ pid ∈ reported rest, w.st.pidToJob.find pid ≠ some k :=
      fun pid' hpid' => hpids pid' (List.mem_cons_of_mem _ hpid')
    unfold reapLoop
    refine wp_bind_ok (emit_run w _) (wp_bind_ok (state_run _) ?_)
    simp only [World.emit_st]
    cases hpid : w.st.pidToJob.find pid with
    | none =>
      have hstep := @Step.stray K w pid status hpid
      exact wp_mono (ih h halone hrest) fun _ _ hwalk =>
        hwalk.head hstep (by exact Label.apart_of_none rfl rfl)
    | some j =>
      have hj : j ≠ k := fun heq => hpids pid List.mem_cons_self (heq ▸ hpid)
      obtain ⟨p, hactive, rfl⟩ := h.pid_owner hpid
      have hstep := @Step.exited K w j p status hactive (Or.inl hpid)
      have hwf := hstep.wf h
      simp only [hactive]
      have hactive' : (w.emit (.reaped p.pid status)).st.activeJobs.find j = some p := hactive
      refine wp_bind_ok (modifyProcess_run hactive' _) (wp_bind_ok (emit_run _ _) ?_)
      refine wp_bind (R := fun _ w' => Walk (Step K) {l | l.Apart k} w w') ?_ (fun _ w1 h1 => ?_)
        fun _ _ h => h
      · simp only [World.emit, World.put, List.append_assoc, List.cons_append, List.nil_append]
        refine wp_mono (tryFinalizeJob_apart hwf hj) fun _ w' hwalk => hwalk.head hstep ?_
        exact ⟨fun heq => hj (Option.some.inj heq), rfl⟩
      · obtain ⟨hkept, halone1⟩ := undisturbed_of_walk h1 h halone
        refine wp_mono (ih (wf_of_walk h1 h) halone1 fun pid' hpid' heq => ?_)
          fun _ _ h2 => h1.trans h2
        exact hrest pid' hpid' ((hkept.pids pid').mp heq)
  | interrupted rest ih => exact ih h halone hpids
  | none => exact Walk.single (by exact Label.apart_of_none rfl rfl) (Step.idle rfl)
  | failed e =>
    unfold reapLoop
    refine wp_bind_ok (emit_run w _) ?_
    split_ifs
    · exact wp_pure (Walk.single (by exact Label.apart_of_none rfl rfl) (Step.idle rfl))
    · exact wp_throw (Walk.single (by exact Label.apart_of_none rfl rfl) (Step.idle rfl))

/-- Serving an event of a pipe of another job. -/
theorem handleFileDescriptorEvent_apart {fd : Fd} {kind : ProcessFdKind} (h : Wf w.st) (hj : j ≠ k)
    (hfd : fd ≠ w.st.sigchldFd) (htracked : w.st.trackedFds.find fd = some ⟨j, kind⟩)
    (eventMask : EventMask) : wp (handleFileDescriptorEvent K fd eventMask)
      (fun _ w' => Walk (Step K) {l | l.Apart k} w w') w := by
  have hnot : NotOf k w fd := fun kind' heq => by
    rw [htracked] at heq
    exact hj (TrackedFd.mk.inj (Option.some.inj heq)).1
  unfold handleFileDescriptorEvent
  refine wp_bind_ok (state_run w) ?_
  rw [if_neg hfd]
  split_ifs
  · rw [htracked]
    refine wp_bind (drainProcessFd_apart h hnot) (fun _ w1 h1 => ?_) fun _ _ h => h
    exact wp_mono (tryFinalizeJob_apart (wf_of_walk h1 h) hj) fun _ _ h2 => h1.trans h2
  · exact wp_pure Walk.refl

end ProcessMonitor

/-! ## The daemon -/

namespace Daemon

open ProcessMonitor (Alone Elsewhere ForksAside PidRouting Undisturbed Wf delivered reported)

variable {K : Kernel} {s : Setup} {n : ℕ} {l : Label} {m m' : Moment} {w w' w'' : World Daemon}
  {due rest : List JobId} {j k : JobId} {job : Job}

/-! ## What keeps jobs apart -/

/-- No call returns a descriptor that is open, and `fork` returns the process id of no job that runs
or terminates. -/
def Distinct (log : List Event) : Prop := FreshFds log ∧ ForksAside log

instance (log : List Event) : Decidable (Distinct log) :=
  inferInstanceAs (Decidable (_ ∧ _))

theorem Distinct.left (log events : List Event) (h : Distinct (log ++ events)) : Distinct log :=
  ⟨h.1.left, ForksAside.left _ _ h.2⟩

theorem Distinct.before {log log' : List Event} (h : Distinct log') (hbegins : log <+: log') :
    Distinct log := by
  obtain ⟨events, rfl⟩ := hbegins
  exact Distinct.left log events h

/-- What holds of the daemon as long as it is handed out distinct process ids and descriptors. -/
structure Parted (K : Kernel) (n : ℕ) (m : Moment) : Prop where
  sound : Sound n m
  separate : m.Separate K
  routing : PidRouting m.monitorWorld

theorem Step.parted (hstep : Step K l m m') (hdistinct : Distinct m'.world.log)
    (h : Parted K n m) : Parted K n m' where
  sound := hstep.sound h.sound
  separate := hstep.separate h.sound hdistinct.1 h.separate
  routing := hstep.pidRouting h.sound hdistinct.2 h.routing

theorem parted_of_walk (hwalk : Walk (Step K) Set.univ ⟨s.initial, []⟩ m)
    (hdistinct : Distinct m.world.log) : Parted K s.maxRunning m := by
  have hstart : Parted K s.maxRunning ⟨s.initial, []⟩ :=
    ⟨sound_initial s, separate_initial s, pidRouting_initial s⟩
  exact (sound_invariant_under Distinct.left
    (fun _ _ _ _ hstep hdistinct ih => hstep.parted hdistinct ih) hwalk (sound_initial s) hstart
    hdistinct).2

theorem Parted.alone (h : Parted K n m) (k : JobId) : Alone k m.world.st.monitor.activeJobs := by
  intro q hq j hj p hp
  refine ⟨fun hpid => hj (h.routing.pid_inj hp hq hpid), fun fd hfd hopen => hj ?_⟩
  obtain ⟨kind, hpipe⟩ := (ActiveProcess.mem_openFds p fd).mp hfd
  obtain ⟨kind', hpipe'⟩ := (ActiveProcess.mem_openFds q fd).mp hopen
  have htracked := h.separate.held j p kind fd hp hpipe
  rw [h.separate.held k q kind' fd hq hpipe'] at htracked
  exact (TrackedFd.mk.inj (Option.some.inj htracked)).1.symm

/-! ## The frame of a job -/

/-- What a chain of calls leaves of another job: all that the monitor holds of it, and its deadline. -/
structure Spares (k : JobId) (w w' : World Daemon) : Prop where
  monitor : Undisturbed k (monitorWorld w) (monitorWorld w')
  deadline : ∀ f, w.st.timeouts.Refines f → ∃ f', w'.st.timeouts.Refines f' ∧ f' k = f k
  alone : Alone k w'.st.monitor.activeJobs

theorem Spares.refl (halone : Alone k w.st.monitor.activeJobs) : Spares k w w :=
  ⟨.refl _, fun f hf => ⟨f, hf, rfl⟩, halone⟩

theorem Spares.trans (h : Spares k w w') (h' : Spares k w' w'') : Spares k w w'' := by
  refine ⟨h.monitor.trans h'.monitor, fun f hf => ?_, h'.alone⟩
  obtain ⟨f', hf', hsame⟩ := h.deadline f hf
  obtain ⟨f'', hf'', hsame'⟩ := h'.deadline f' hf'
  exact ⟨f'', hf'', hsame'.trans hsame⟩

theorem Spares.sameJob (h : Spares k w w') : w'.st.jobs.find k = w.st.jobs.find k := h.monitor.job

/-- The job is taken off the queue for a free slot, and left as it is before that step, which starts
it, or gives it up, and after it. -/
def Begun (K : Kernel) (k : JobId) (w w' : World Daemon) : Prop :=
  ∃ l v v', (l = .run k ∨ l = .misfire k) ∧
    Spares k w v ∧ Step K l ⟨v, []⟩ ⟨v', []⟩ ∧ Spares k v' w'

/-- A job that is started was queued, and is not any more. -/
theorem Step.begins (hstep : Step K l m m') (hl : l = .run k ∨ l = .misfire k) :
    (∃ job, m.world.st.jobs.find k = some job ∧ job.state = .queued) ∧
      ∃ job, m'.world.st.jobs.find k = some job ∧ job.state ≠ .queued := by
  obtain rfl | rfl := hl
  · cases hstep with
    | run hslot hwaiting hstep =>
      cases hstep with
      | started hjob hqueued =>
        exact ⟨⟨_, hjob, hqueued⟩, _, Table.find_set_self _ _ _, by simp⟩
  · cases hstep with
    | misfire hlabel hslot hwaiting hstep =>
      obtain rfl | rfl := hlabel
      · cases hstep with
        | launchFailed hjob hqueued =>
          exact ⟨⟨_, hjob, hqueued⟩, _, Table.find_set_self _ _ _, by simp⟩
      · cases hstep with
        | abandoned hjob hqueued =>
          exact ⟨⟨_, hjob, hqueued⟩, _, Table.find_set_self _ _ _, by simp⟩

theorem Begun.queued (h : Begun K k w w') :
    (∃ job, w.st.jobs.find k = some job ∧ job.state = .queued) ∧
      ∃ job, w'.st.jobs.find k = some job ∧ job.state ≠ .queued := by
  obtain ⟨l, v, v', hl, hbefore, hstep, hafter⟩ := h
  rw [← hbefore.sameJob, hafter.sameJob]
  exact hstep.begins hl

/-- A job is left as it is, unless it is started from the queue, as long as jobs are handed out
distinct process ids and descriptors. -/
def Isolated (K : Kernel) (k : JobId) (w w' : World Daemon) : Prop :=
  Distinct w'.log → Spares k w w' ∨ Begun K k w w'

theorem Spares.isolated (h : Spares k w w') (h' : Isolated K k w' w'') : Isolated K k w w'' :=
  fun hdistinct => (h' hdistinct).imp h.trans
    fun ⟨l, v, v', hl, hbefore, hrest⟩ => ⟨l, v, v', hl, h.trans hbefore, hrest⟩

/-- The job has no deadline left if its terminal notification is pending. -/
def Cleared (k : JobId) (w : World Daemon) : Prop :=
  k ∈ w.st.monitor.terminalJobNotifications → w.st.timeouts.activeGenerations.find k = none

theorem Spares.cleared (h : Spares k w w') (hrefines : ∃ f, w.st.timeouts.Refines f)
    (hcleared : Cleared k w) : Cleared k w' := by
  intro hnotified
  have hnone := hcleared (h.monitor.notified hnotified)
  obtain ⟨f, hf⟩ := hrefines
  obtain ⟨f', hf', hsame⟩ := h.deadline f hf
  rwa [← hf'.none_iff, hsame, hf.none_iff]

/-! ## Parts of the daemon -/

/-- The monitor's part, about other jobs. -/
theorem spares_of_monitor {v : World ProcessMonitor} (h : Wf w.st.monitor)
    (halone : Alone k w.st.monitor.activeJobs)
    (hwalk : Walk (ProcessMonitor.Step K) {l | l.Apart k} (monitorWorld w) v) :
    Spares k w (withMonitor w v) := by
  obtain ⟨hkept, halone'⟩ := ProcessMonitor.undisturbed_of_walk hwalk h halone
  exact ⟨hkept, fun f hf => ⟨f, hf, rfl⟩, halone'⟩

theorem delivered_chores {events : List Event} (h : ∀ e ∈ events, choreEvent e) :
    delivered events = [] := by
  refine List.filterMap_eq_nil_iff.mpr fun e he => ?_
  have := h e he
  cases e <;> first | rfl | cases this

theorem aside_chores {w : World ProcessMonitor} {events : List Event}
    (h : ∀ e ∈ events, choreEvent e) : ProcessMonitor.Aside k w events := by
  refine ProcessMonitor.aside_of_quiet fun e he => ?_
  have := h e he
  cases e <;> first | rfl | cases this

/-- The timeout manager's part. -/
theorem spares_of_timeouts {timeouts : TimeoutManager} {events : List Event}
    (halone : Alone k w.st.monitor.activeJobs) (hevents : ∀ e ∈ events, choreEvent e)
    (hkept : ∀ f, w.st.timeouts.Refines f → ∃ f', timeouts.Refines f' ∧ f' k = f k) :
    Spares k w ⟨{ w.st with timeouts }, w.log ++ events⟩ :=
  ⟨⟨rfl, rfl, fun _ => Iff.rfl, fun _ _ => Iff.rfl, id, events, rfl, aside_chores hevents⟩,
    hkept, halone⟩

/-! ## Starting jobs and giving slots back -/

/-- The launch of another job. -/
theorem Parted.launch_spares {v : World ProcessMonitor} {l : ProcessMonitor.Label}
    (h : Parted K n ⟨w, due⟩) (hstep : ProcessMonitor.Step K l (monitorWorld w) v)
    (hlaunches : l.launches) (hl : l.concern ≠ some k) (hdistinct : Distinct v.log) :
    Undisturbed k (monitorWorld w) v ∧ Alone k v.st.activeJobs := by
  obtain ⟨events, hlog⟩ := hstep.log_prefix
  refine hstep.undisturbed h.sound.wf (h.alone k) hl hlog fun q hq => ?_
  exact hstep.launch_elsewhere hlaunches h.sound.wf h.sound.recorded h.separate.kept.tracks
    h.separate.held hdistinct.1 hdistinct.2 hlog hq

/-- A step of starting jobs or giving slots back spares every job but one that it starts. -/
theorem Step.pumped (hstep : Step K l ⟨w, due⟩ ⟨w', rest⟩) (hl : l.pumps)
    (h : Parted K n ⟨w, due⟩) (hdistinct : Distinct w'.log) (hcleared : Cleared k w) :
    Spares k w w' ∨ l = .run k ∨ l = .misfire k := by
  cases hstep with
  | @misfire _ _ v i more label hlabel hslot hwaiting hstep =>
    by_cases hi : i = k
    · exact Or.inr (Or.inr (by rw [hi]))
    have hconcern : label.concern ≠ some k := by
      obtain rfl | rfl := hlabel <;> exact fun heq => hi (Option.some.inj heq)
    obtain ⟨hkept, halone⟩ := h.launch_spares hstep (by obtain rfl | rfl := hlabel <;> rfl)
      hconcern hdistinct
    exact Or.inl ⟨hkept, fun f hf => ⟨f, hf, rfl⟩, halone⟩
  | @run _ v i more job timeouts events hslot hwaiting hstep hjob htimed hevents =>
    by_cases hi : i = k
    · exact Or.inr (Or.inl (by rw [hi]))
    obtain ⟨hkept, halone⟩ := h.launch_spares hstep rfl (fun heq => hi (Option.some.inj heq))
      (Distinct.left _ events hdistinct)
    have hmonitor : Spares k w (withMonitor w v) := ⟨hkept, fun f hf => ⟨f, hf, rfl⟩, halone⟩
    refine Or.inl (hmonitor.trans ⟨⟨rfl, rfl, fun _ => Iff.rfl, fun _ _ => Iff.rfl, id, events, rfl,
      aside_chores hevents⟩, fun f hf => ?_, halone⟩)
    obtain ⟨rfl, -⟩ | ⟨timeout, -, hgen, rfl⟩ := htimed
    · exact ⟨f, hf, rfl⟩
    · refine ⟨_, (hf.insert hgen _ _).discardStaleEntries, ?_⟩
      have hid : job.id = i := h.sound.wf.id_eq hjob
      rw [hid, DeadlineMap.schedule_of_ne (Ne.symm hi)]
  | @release _ _ i more hnotified =>
    refine Or.inl ⟨⟨rfl, rfl, fun _ => Iff.rfl, fun _ _ => Iff.rfl, fun hk => ?_, [],
      (List.append_nil _).symm, List.forall_mem_nil _⟩, fun f hf => ⟨_, hf.cancel i, ?_⟩, h.alone k⟩
    · show k ∈ w.st.monitor.terminalJobNotifications
      rw [hnotified]
      exact List.mem_cons_of_mem _ hk
    · by_cases hi : k = i
      · -- its own notification is dealt with: there was no deadline to lose
        subst hi
        have hnone := hcleared (by rw [hnotified]; exact List.mem_cons_self)
        rw [DeadlineMap.cancel_self, (hf.none_iff k).mpr hnone]
      · exact DeadlineMap.cancel_of_ne hi
  | _ => cases hl

theorem Step.pumps_due (hstep : Step K l m m') (hl : l.pumps) : m'.due = m.due := by
  cases hstep <;> first | rfl | cases hl

/-- A job that is started was not waiting for its notification to be dealt with. -/
theorem Step.begun_cleared (hstep : Step K l m m') (hl : l = .run k ∨ l = .misfire k)
    (h : Sound n m) : Cleared k m'.world := by
  intro hnotified
  have hsame : m'.world.st.monitor.terminalJobNotifications =
      m.world.st.monitor.terminalJobNotifications := by
    obtain rfl | rfl := hl
    · cases hstep with
      | run hslot hwaiting hstep =>
        cases hstep
        rfl
    · cases hstep with
      | misfire hlabel hslot hwaiting hstep =>
        obtain rfl | rfl := hlabel <;> cases hstep <;> rfl
  rw [hsame] at hnotified
  obtain ⟨⟨job, hjob, hqueued⟩, -⟩ := hstep.begins hl
  obtain ⟨job', hjob', hterminal⟩ := h.wf.notified k hnotified
  obtain rfl := Option.some.inj (hjob.symm.trans hjob')
  rw [hqueued] at hterminal
  cases hterminal

/-- Starting jobs and giving slots back. -/
theorem isolated_of_pumps (hwalk : Walk (Step K) {l | l.pumps} ⟨w, []⟩ ⟨w', []⟩)
    (hparted : Distinct w.log → Parted K n ⟨w, []⟩) (hcleared : Cleared k w) : Isolated K k w w' := by
  have key := hwalk.invariant (P := fun m => m.due = [] ∧ (Distinct m.world.log →
    Parted K n m ∧ Cleared k m.world ∧ (Spares k w m.world ∨ Begun K k w m.world))) ?_
    ⟨rfl, fun hdistinct =>
      ⟨hparted hdistinct, hcleared, Or.inl (.refl ((hparted hdistinct).alone k))⟩⟩
  · exact fun hdistinct => (key.2 hdistinct).2.2
  rintro l hl ⟨a, due₁⟩ ⟨b, due₂⟩ hstep ⟨rfl, ih⟩
  obtain rfl : due₂ = [] := hstep.pumps_due hl
  refine ⟨rfl, fun hdistinct => ?_⟩
  obtain ⟨events, hlog⟩ := hstep.log_prefix
  have hlog : b.log = a.log ++ events := hlog
  obtain ⟨hparted, hcleared, hbefore⟩ := ih (Distinct.left _ events (hlog ▸ hdistinct))
  have hparted' := hstep.parted hdistinct hparted
  obtain hspares | hbegins := hstep.pumped hl hparted hdistinct hcleared
  · refine ⟨hparted', hspares.cleared hparted.sound.timed.refines hcleared, ?_⟩
    obtain hbefore | ⟨l', v, v', hl', hspared, hbegun, hafter⟩ := hbefore
    · exact Or.inl (hbefore.trans hspares)
    · exact Or.inr ⟨l', v, v', hl', hspared, hbegun, hafter.trans hspares⟩
  · refine ⟨hparted', hstep.begun_cleared hbegins hparted.sound, ?_⟩
    obtain hbefore | hbegun := hbefore
    · exact Or.inr ⟨l, a, b, hbegins, hbefore, hstep, .refl (hparted'.alone k)⟩
    · -- a job is started once
      obtain ⟨job, hjob, hqueued⟩ := (hstep.begins hbegins).1
      obtain ⟨-, job', hjob', hqueued'⟩ := hbegun.queued
      rw [show a.st.jobs.find k = some job from hjob] at hjob'
      exact absurd (Option.some.inj hjob' ▸ hqueued) hqueued'

/-- Terminal notifications are dealt with after the monitor has done something about other jobs. -/
theorem notified_isolated (hspares : Spares k w w')
    (hreached : Walk (Step K) Set.univ ⟨s.initial, []⟩ ⟨w', []⟩) (hcleared : Cleared k w') :
    wp (processTerminalJobNotifications K) (fun _ w'' => Isolated K k w w'') w' :=
  wp_mono (processTerminalJobNotifications_spec (sound_of_walk hreached (sound_initial s)))
    fun _ _ hwalk =>
      hspares.isolated (isolated_of_pumps hwalk.1 (parted_of_walk hreached) hcleared)

theorem forceKill_spares (h : Wf w.st.monitor) (halone : Alone k w.st.monitor.activeJobs)
    (hj : j ≠ k) (hjob : w.st.jobs.find j = some job) (hterminating : job.state = .terminating) :
    wp (inMonitor (ProcessMonitor.forceKill K j)) (fun _ w' => Spares k w w') w :=
  wp_inMonitor (wp_mono (ProcessMonitor.forceKill_apart (w := monitorWorld w) h halone hj hjob
    hterminating) fun _ _ hwalk => spares_of_monitor h halone hwalk)

theorem scheduleForceKillDeadline_spares (h : Wf w.st.monitor)
    (halone : Alone k w.st.monitor.activeJobs) (hj : j ≠ k) (hjob : w.st.jobs.find j = some job)
    (hterminating : job.state = .terminating) :
    wp (scheduleForceKillDeadline K j) (fun _ w' => Spares k w w') w := by
  have hcancel : ∀ {w : World Daemon}, Alone k w.st.monitor.activeJobs →
      Spares k w (withoutDeadline w j) := by
    intro w halone
    have hspares : Spares k w ⟨{ w.st with timeouts := w.st.timeouts.cancel j }, w.log ++ []⟩ :=
      spares_of_timeouts halone nofun fun f hf => ⟨_, hf.cancel j, DeadlineMap.cancel_of_ne hj.symm⟩
    rwa [List.append_nil] at hspares
  unfold scheduleForceKillDeadline
  have hupdate : ∀ w : World Daemon,
      inTimeouts (update fun t => t.cancel j) w = (.ok (), withoutDeadline w j) := fun _ => rfl
  refine wp_bind_ok (hupdate w) ?_
  have hspares := hcancel (w := w) halone
  set w1 := withoutDeadline w j with hw1
  have hkill : ∀ w2 : World Daemon, Spares k w w2 → w2.st.monitor = w.st.monitor →
      wp (do
          inTimeouts (update fun t => t.cancel j)
          let _ ← inMonitor (ProcessMonitor.forceKill K j))
        (fun _ w' => Spares k w w') w2 := by
    intro w2 h2 hmonitor
    refine wp_bind_ok (hupdate w2) ?_
    have h3 := h2.trans (hcancel h2.alone)
    have hwf : Wf (withoutDeadline w2 j).st.monitor := by
      show Wf w2.st.monitor
      rw [hmonitor]
      exact h
    have hjob2 : (withoutDeadline w2 j).st.jobs.find j = some job := by
      show w2.st.monitor.jobs.find j = some job
      rw [hmonitor]
      exact hjob
    exact wp_bind (wp_mono (forceKill_spares hwf h3.alone hj hjob2 hterminating)
      fun _ _ h4 => h3.trans h4) (fun _ _ h4 => wp_pure h4) fun _ _ h4 => h4
  obtain hbad | ⟨hgen, e, hrun, -⟩ | ⟨hgen, r, events, hrun, hevents, -⟩ :=
    TimeoutManager.schedule_run K ⟨w1.st.timeouts, w1.log⟩ j kTerminationGracePeriod
  · exact absurd hbad (not_le.mpr kTerminationGracePeriod_pos)
  · have hself : (⟨{ w1.st with timeouts := w1.st.timeouts }, w1.log⟩ : World Daemon) = w1 := rfl
    have hthrow := inTimeouts_run hrun
    rw [hself] at hthrow
    exact wp_tryCatch_error hthrow (hkill w1 hspares rfl)
  · have hscheduled := hspares.trans (spares_of_timeouts hspares.alone
      (choreEvents_of_armingEvents (K.now w1.log) hevents) fun f hf =>
        ⟨_, (hf.insert hgen j (K.now w1.log + kTerminationGracePeriod * 1000000)).discardStaleEntries,
          DeadlineMap.schedule_of_ne hj.symm⟩)
    cases r with
    | ok _ => exact wp_of_run (tryCatch_of_ok (inTimeouts_run hrun)) hscheduled
    | error e => exact wp_tryCatch_error (inTimeouts_run hrun) (hkill _ hscheduled rfl)

/-- A request to terminate another job, and its deadline if SIGTERM was sent. -/
theorem requestTerminate_spares (h : Wf w.st.monitor) (halone : Alone k w.st.monitor.activeJobs)
    (hj : j ≠ k) (hjob : w.st.jobs.find j = some job) (hrunning : job.state = .running)
    (cause : TerminationCause) :
    wp (inMonitor (ProcessMonitor.requestTerminate K j cause)) (fun r w' => Spares k w w' ∧
      Wf w'.st.monitor ∧ (r = .ok true →
        ∃ job', w'.st.jobs.find j = some job' ∧ job'.state = .terminating)) w := by
  have hasked : wp (ProcessMonitor.requestTerminate K j cause) (fun r v =>
      ProcessMonitor.Requested K j cause (ProcessMonitor.looked K j (monitorWorld w)) v r ∧
        Walk (ProcessMonitor.Step K) {l | l.Apart k} (monitorWorld w) v) (monitorWorld w) :=
    ⟨ProcessMonitor.requestTerminate_spec (w := monitorWorld w) h hjob hrunning cause,
      ProcessMonitor.requestTerminate_apart (w := monitorWorld w) h halone hj hjob hrunning cause⟩
  refine wp_inMonitor (wp_mono hasked fun r v ⟨hrequested, hwalk⟩ => ?_)
  refine ⟨spares_of_monitor h halone hwalk, ProcessMonitor.wf_of_walk hwalk h, ?_⟩
  rintro rfl
  cases hrequested with
  | terminated hstep =>
    cases hstep with
    | terminate => exact ⟨_, Table.find_set_self _ _ _, rfl⟩

/-! ## CANCEL -/

theorem cancelRunningJob_spares (h : Wf w.st.monitor) (halone : Alone k w.st.monitor.activeJobs)
    (hj : j ≠ k) (hjob : w.st.jobs.find j = some job) (hrunning : job.state = .running) :
    wp (cancelRunningJob K j) (fun _ w' => Spares k w w') w := by
  unfold cancelRunningJob
  refine wp_bind (R := fun r w1 => Spares k w w1 ∧ Wf w1.st.monitor ∧ (r = .ok (.ok true) →
    ∃ job', w1.st.jobs.find j = some job' ∧ job'.state = .terminating)) ?_
    (fun requested w1 h1 => ?_) fun e w1 h1 => h1.1
  · refine wp_tryCatch (R := fun r w1 => Spares k w w1 ∧ Wf w1.st.monitor ∧ (r = .ok (.ok true) →
      ∃ job', w1.st.jobs.find j = some job' ∧ job'.state = .terminating)) ?_ (fun _ _ h1 => h1) ?_
    · refine wp_bind (requestTerminate_spares h halone hj hjob hrunning .cancelled)
        (fun requested w1 h1 => wp_pure ⟨h1.1, h1.2.1, fun hr => h1.2.2 ?_⟩)
        fun e w1 h1 => ⟨h1.1, h1.2.1, nofun⟩
      rw [Except.ok.inj (Except.ok.inj hr)]
    · intro e w1 h1
      cases e with
      | systemError e what => exact wp_pure ⟨h1.1, h1.2.1, nofun⟩
      | _ => exact wp_throw ⟨h1.1, h1.2.1, nofun⟩
  obtain ⟨hspares, hwf, hterminating⟩ := h1
  cases requested with
  | error response => exact wp_pure hspares
  | ok requested =>
    cases requested with
    | false => exact wp_pure hspares
    | true =>
      obtain ⟨job', hjob', hstate⟩ := hterminating rfl
      refine wp_bind (wp_mono (scheduleForceKillDeadline_spares hwf hspares.alone hj hjob' hstate)
        fun _ _ h2 => hspares.trans h2) (fun _ _ h2 => wp_pure h2) fun _ _ h2 => h2

theorem cancelJob_spares (h : Sound n ⟨w, []⟩) (halone : Alone k w.st.monitor.activeJobs)
    (hj : j ≠ k) : wp (cancelJob K j) (fun _ w' => Spares k w w') w := by
  have hrefl := Spares.refl (w := w) halone
  unfold cancelJob
  refine wp_bind_ok (state_run w) ?_
  cases hjob : w.st.jobs.find j with
  | none => exact wp_pure hrefl
  | some job =>
  simp only
  cases hstate : job.state with
  | queued =>
    have hs : w.st.stateOf j = some .queued := by rw [stateOf_of_find hjob, hstate]
    have hwaiting : j ∈ w.st.scheduler.waitingJobs := (h.slots.waiting j).mpr hs
    have hremove : w.st.scheduler.cancelQueuedJob j = .ok (true, { w.st.scheduler with
        waitingJobs := w.st.scheduler.waitingJobs.erase j
        waitingJobIds := w.st.scheduler.waitingJobIds.erase j }) := by
      unfold JobScheduler.cancelQueuedJob
      rw [if_pos ((h.slots.waitingIds j).mpr hwaiting), if_pos hwaiting]
    refine wp_bind_ok (inScheduler_run hremove) ?_
    simp only [Bool.true_eq_false, if_false]
    have htrans : canTransition job.state .cancelled := by
      rw [hstate]
      rfl
    have henter := ProcessMonitor.withJob_enter (w := monitorWorld w) hjob (h.wf.id_eq hjob) htrans
    have hstep := ProcessMonitor.Step.dequeue (K := K) (w := monitorWorld w) hjob hstate
    refine wp_bind_ok (inMonitor_run henter) (wp_pure ?_)
    have hwalk := Walk.single (A := {l : ProcessMonitor.Label | l.Apart k})
      (by exact ⟨fun heq => hj (Option.some.inj heq), rfl⟩) hstep
    obtain ⟨hkept, halone'⟩ := ProcessMonitor.undisturbed_of_walk hwalk h.wf halone
    exact ⟨hkept, fun f hf => ⟨f, hf, rfl⟩, halone'⟩
  | running => exact cancelRunningJob_spares h.wf halone hj hjob hstate
  | terminating => exact wp_pure hrefl
  | succeeded => exact wp_pure hrefl
  | failed => exact wp_pure hrefl
  | cancelled => exact wp_pure hrefl
  | timedOut => exact wp_pure hrefl
  | interrupted => exact wp_pure hrefl

/-! ## Deadlines -/

/-- One round of the loop of `handleDeadlineEvent`. -/
theorem deadlineLoop_spares (h : Sound n ⟨w, j :: rest⟩) (halone : Alone k w.st.monitor.activeJobs)
    (hj : j ≠ k) : wp (deadlineLoop K [j]) (fun _ w' => Spares k w w') w := by
  have hrefl := Spares.refl (w := w) halone
  have hdone : ∀ w1, Spares k w w1 → wp (deadlineLoop K []) (fun _ w' => Spares k w w') w1 :=
    fun _ h1 => wp_pure h1
  unfold deadlineLoop
  refine wp_bind_ok (state_run w) ?_
  obtain ⟨job, hjob, hqueued⟩ := h.timed.offQueue j (Or.inr List.mem_cons_self)
  rw [hjob]
  simp only
  cases hstate : job.state with
  | running =>
    refine wp_bind (requestTerminate_spares h.wf halone hj hjob hstate .timedOut)
      (fun requested w1 h1 => ?_) fun e w1 h1 => h1.1
    obtain ⟨hspares, hwf, hterminating⟩ := h1
    cases requested with
    | false => exact hdone w1 hspares
    | true =>
      obtain ⟨job', hjob', hstate'⟩ := hterminating rfl
      exact wp_bind (wp_mono (scheduleForceKillDeadline_spares hwf hspares.alone hj hjob' hstate')
        fun _ _ h2 => hspares.trans h2) (fun _ w2 h2 => hdone w2 h2) fun _ _ h2 => h2
  | terminating =>
    exact wp_bind (forceKill_spares h.wf halone hj hjob hstate) (fun _ w1 h1 => hdone w1 h1)
      fun _ _ h1 => h1
  | queued => exact absurd hstate hqueued
  | succeeded => exact hdone w hrefl
  | failed => exact hdone w hrefl
  | cancelled => exact hdone w hrefl
  | timedOut => exact hdone w hrefl
  | interrupted => exact hdone w hrefl

/-- The loop, where no other job is due. -/
theorem deadlineLoop_own (h : Sound n ⟨w, due⟩) (halone : Alone k w.st.monitor.activeJobs)
    (hj : j ≠ k) (hdue : ∀ i ∈ due, i = j) :
    wp (deadlineLoop K due) (fun _ w' => Spares k w w') w := by
  match due with
  | [] => exact wp_pure (.refl halone)
  | [i] =>
    obtain rfl := hdue i List.mem_cons_self
    exact deadlineLoop_spares h halone hj
  | i :: i' :: more =>
    -- a job comes due once
    obtain rfl := hdue i List.mem_cons_self
    obtain rfl := hdue i' (List.mem_cons_of_mem _ List.mem_cons_self)
    exact absurd List.mem_cons_self (List.nodup_cons.mp h.timed.due_nodup).1

/-- The jobs that `handleReadable` would find due. -/
def dueJobs (K : Kernel) (w : World Daemon) : List JobId :=
  (w.st.timeouts.expireAt (K.now (w.log ++ [.called .readTimer]))).2

theorem handleDeadlineEvent_spares (h : Sound n ⟨w, []⟩) (halone : Alone k w.st.monitor.activeJobs)
    (hj : j ≠ k) (hdue : ∀ i ∈ dueJobs K w, i = j) (eventMask : EventMask) :
    wp (handleDeadlineEvent K eventMask) (fun _ w' => Spares k w w') w := by
  have hrefl := Spares.refl (w := w) halone
  obtain ⟨g, hg⟩ := h.timed.refines
  have hkept : ∀ f, w.st.timeouts.Refines f → ∃ f', (w.st.timeouts.expireAt
      (K.now (w.log ++ [.called .readTimer]))).1.discardStaleEntries.Refines f' ∧ f' k = f k := by
    intro f hf
    obtain ⟨hexpired, hinorder⟩ := hf.expireAt (K.now (w.log ++ [.called .readTimer]))
    refine ⟨_, hexpired.discardStaleEntries, DeadlineMap.expire_of_not_isDue fun hk => ?_⟩
    exact hj (hdue k ((hinorder.mem_iff k).mpr hk)).symm
  unfold handleDeadlineEvent
  split_ifs
  · exact wp_throw hrefl
  obtain ⟨e, hrun⟩ | ⟨now, events, rfl, hevents, ⟨e, hrun⟩ | hrun⟩ :=
    TimeoutManager.handleReadable_run K ⟨w.st.timeouts, w.log⟩
  · refine wp_of_run (bind_of_error (inTimeouts_run hrun)) ?_
    exact spares_of_timeouts halone (by simp [choreEvent]) fun f hf => ⟨f, hf, rfl⟩
  · refine wp_of_run (bind_of_error (inTimeouts_run hrun)) (spares_of_timeouts halone ?_ hkept)
    exact List.forall_mem_cons.mpr ⟨rfl, choreEvents_of_armingEvents _ hevents⟩
  · refine wp_bind_ok (inTimeouts_run hrun) ?_
    have hchores : ∀ e ∈ .called .readTimer :: .clock (K.now (w.log ++ [.called .readTimer])) ::
        (events ++ [.expired (dueJobs K w)]), choreEvent e := by
      refine List.forall_mem_cons.mpr ⟨rfl, List.forall_mem_cons.mpr ⟨rfl, ?_⟩⟩
      refine List.forall_mem_append.mpr ⟨fun e he => choreEvent_of_armingEvent (hevents e he), ?_⟩
      simp [choreEvent]
    have hexpire := Step.expire (K := K) (w := w) rfl ⟨_, rfl⟩ hchores
    have hspares := spares_of_timeouts (w := w) halone hchores hkept
    exact wp_mono (deadlineLoop_own (hexpire.sound h) hspares.alone hj hdue)
      fun _ _ h1 => hspares.trans h1

/-! ## Steps about one job -/

/-- A step that concerns one job, with the world it ends in: an event of one of its pipes, its
deadline (a round of the loop over the jobs that are due, or an event of the timer where it alone is
due), a CANCEL of it, its settlement, or the exit of its child. The flag says whether terminal
notifications are dealt with at the end of the step. -/
inductive About (K : Kernel) (j : JobId) : Bool → Moment → World Daemon → Prop where
  | pipe {w : World Daemon} {fd : Fd} {kind : ProcessFdKind} {eventMask : EventMask}
      (hroute : w.st.route fd = .monitor)
      (hfd : fd ≠ w.st.monitor.sigchldFd)
      (htracked : w.st.monitor.trackedFds.find fd = some ⟨j, kind⟩) :
      About K j true ⟨w, []⟩ (dispatch K fd eventMask w).2
  | deadline {w : World Daemon} {rest : List JobId} :
      About K j false ⟨w, j :: rest⟩ (deadlineLoop K [j] w).2
  | timer {w : World Daemon} {fd : Fd} {eventMask : EventMask} (hroute : w.st.route fd = .timer)
      (hdue : ∀ i ∈ dueJobs K (dispatching w fd), i = j) :
      About K j true ⟨w, []⟩ (dispatch K fd eventMask w).2
  | cancel {w : World Daemon} : About K j false ⟨w, []⟩ (cancelJob K j w).2
  | settle {w : World Daemon} : About K j true ⟨w, []⟩ ((do
      inMonitor (ProcessMonitor.tryFinalizeJob K j)
      processTerminalJobNotifications K : Prog Daemon Unit) w).2
  | exit {w : World Daemon} {reaps : Reaps} (hreaps : ∀ pid ∈ reported reaps, ∀ i,
        w.st.monitor.pidToJob.find pid = some i → i = j) :
      About K j true ⟨w, []⟩ ((do
        inMonitor (ProcessMonitor.reapLoop K reaps)
        processTerminalJobNotifications K : Prog Daemon Unit) w).2

theorem chain_walk {m : Prog ProcessMonitor Unit} (h : Sound n ⟨w, []⟩)
    (hwatches : wp m (fun _ v => Walk (ProcessMonitor.Step K) {l | l.watches} (monitorWorld w) v)
      (monitorWorld w)) :
    wp (do inMonitor m; processTerminalJobNotifications K)
      (fun _ w' => Walk (Step K) Set.univ ⟨w, []⟩ ⟨w', []⟩) w := by
  refine wp_bind (R := fun _ w1 => Walk (Step K) Set.univ ⟨w, []⟩ ⟨w1, []⟩) (wp_inMonitor ?_)
    (fun _ w1 h1 => ?_) fun _ _ h1 => h1
  · exact wp_mono hwatches fun _ _ hwalk =>
      (walk_watch (A := {l | l.watches}) (fun _ hl => hl) hwalk).mono (Set.subset_univ _)
  · exact wp_mono (processTerminalJobNotifications_spec (sound_of_walk h1 h)) fun _ _ h2 =>
      h1.trans (h2.1.mono (Set.subset_univ _))

/-- A step about one job consists of steps of the daemon. -/
theorem About.walk {notifies : Bool} (habout : About K j notifies m w') (h : Sound n m) :
    ∃ due, Walk (Step K) Set.univ m ⟨w', due⟩ := by
  cases habout with
  | @pipe w fd kind eventMask =>
    obtain ⟨due, hwalk, -⟩ := dispatch_spec h fd eventMask
    exact ⟨due, hwalk⟩
  | deadline =>
    obtain ⟨due, hwalk, -⟩ := deadlineRound_spec (K := K) h
    exact ⟨due, hwalk.mono (Set.subset_univ _)⟩
  | @timer w fd eventMask =>
    obtain ⟨due, hwalk, -⟩ := dispatch_spec h fd eventMask
    exact ⟨due, hwalk⟩
  | cancel => exact ⟨[], (cancelJob_spec h j).1.mono (Set.subset_univ _)⟩
  | @settle w =>
    refine ⟨[], chain_walk h (wp_mono (ProcessMonitor.tryFinalizeJob_walk (w := monitorWorld w)
      h.wf j) fun _ _ hwalk => hwalk.mono (ProcessMonitor.polls_le_watches j))⟩
  | @exit w reaps =>
    exact ⟨[], chain_walk h (ProcessMonitor.reapLoop_spec (w := monitorWorld w) h.wf reaps)⟩

/-- What the monitor does about other jobs, and the chain that follows it. -/
theorem chain_isolated {m : Prog ProcessMonitor Unit}
    (hreached : Walk (Step K) Set.univ ⟨s.initial, []⟩ ⟨w, []⟩)
    (halone : Alone k w.st.monitor.activeJobs) (hcleared : Cleared k w)
    (hapart : wp m (fun _ v => Walk (ProcessMonitor.Step K) {l | l.Apart k} (monitorWorld w) v)
      (monitorWorld w))
    (hwatches : wp m (fun _ v => Walk (ProcessMonitor.Step K) {l | l.watches} (monitorWorld w) v)
      (monitorWorld w)) :
    wp (do inMonitor m; processTerminalJobNotifications K) (fun _ w' => Isolated K k w w') w := by
  have hsound := sound_of_walk hreached (sound_initial s)
  refine wp_bind (R := fun _ w1 => Spares k w w1 ∧
    Walk (Step K) Set.univ ⟨s.initial, []⟩ ⟨w1, []⟩) (wp_inMonitor
      ⟨spares_of_monitor hsound.wf halone hapart, ?_⟩) (fun _ w1 h1 => ?_)
    fun _ _ h1 _ => Or.inl h1.1
  · exact hreached.trans ((walk_watch (fun _ hl => hl) hwatches).mono (Set.subset_univ _))
  · exact notified_isolated h1.1 h1.2 (h1.1.cleared hsound.timed.refines hcleared)

theorem dispatching_spares (halone : Alone k w.st.monitor.activeJobs) (fd : Fd) :
    Spares k w (dispatching w fd) :=
  ⟨⟨rfl, rfl, fun _ => Iff.rfl, fun _ _ => Iff.rfl, id, _, rfl,
    ProcessMonitor.aside_of_quiet (by simp [ProcessMonitor.target])⟩, fun f hf => ⟨f, hf, rfl⟩,
    halone⟩

/-- A pipe of another job. -/
theorem pipe_isolated {fd : Fd} {kind : ProcessFdKind} (eventMask : EventMask)
    (hreached : Walk (Step K) Set.univ ⟨s.initial, []⟩ ⟨w, []⟩)
    (halone : Alone k w.st.monitor.activeJobs) (hcleared : Cleared k w) (hj : j ≠ k)
    (hroute : w.st.route fd = .monitor) (hfd : fd ≠ w.st.monitor.sigchldFd)
    (htracked : w.st.monitor.trackedFds.find fd = some ⟨j, kind⟩) :
    Isolated K k w (dispatch K fd eventMask w).2 := by
  refine (dispatching_spares halone fd).isolated ?_
  have htaken := hreached.trans (@walk_dispatching K Set.univ fd trivial w)
  have hwf := (sound_of_walk htaken (sound_initial s)).wf
  have hchain := chain_isolated htaken halone hcleared
    (ProcessMonitor.handleFileDescriptorEvent_apart (K := K) (w := monitorWorld (dispatching w fd))
      hwf hj hfd htracked eventMask)
    (ProcessMonitor.handleFileDescriptorEvent_spec (K := K) hwf fd eventMask)
  unfold route at hroute
  split_ifs at hroute with h1 h2 h3
  have hdispatch : dispatch K fd eventMask w = (do
      inMonitor (ProcessMonitor.handleFileDescriptorEvent K fd eventMask)
      processTerminalJobNotifications K : Prog Daemon Unit) (dispatching w fd) := by
    unfold dispatch
    rw [bind_of_ok (emit_run w _), bind_of_ok (state_run _), if_neg (by exact h1),
      if_neg (by exact h2), if_pos (by exact h3)]
  rw [hdispatch]
  exact hchain

/-- The timer, where no deadline but another job's has come. -/
theorem timer_isolated {fd : Fd} (eventMask : EventMask)
    (hreached : Walk (Step K) Set.univ ⟨s.initial, []⟩ ⟨w, []⟩)
    (halone : Alone k w.st.monitor.activeJobs) (hcleared : Cleared k w) (hj : j ≠ k)
    (hroute : w.st.route fd = .timer) (hdue : ∀ i ∈ dueJobs K (dispatching w fd), i = j) :
    Isolated K k w (dispatch K fd eventMask w).2 := by
  refine (dispatching_spares halone fd).isolated ?_
  have htaken := hreached.trans (@walk_dispatching K Set.univ fd trivial w)
  have hsound := sound_of_walk htaken (sound_initial s)
  have hchain : wp (do handleDeadlineEvent K eventMask; processTerminalJobNotifications K)
      (fun _ w' => Isolated K k (dispatching w fd) w') (dispatching w fd) := by
    refine wp_bind (R := fun r w1 => Spares k (dispatching w fd) w1 ∧ ∃ due,
      Walk (Step K) {l | l.times} ⟨dispatching w fd, []⟩ ⟨w1, due⟩ ∧ (r = .ok () → due = []))
      ⟨handleDeadlineEvent_spares hsound halone hj hdue eventMask,
        handleDeadlineEvent_spec hsound eventMask⟩ (fun _ w1 h1 => ?_) fun _ _ h1 _ => Or.inl h1.1
    obtain ⟨hspares, due, hwalk, hdone⟩ := h1
    obtain rfl := hdone rfl
    exact notified_isolated hspares (htaken.trans (hwalk.mono (Set.subset_univ _)))
      (hspares.cleared hsound.timed.refines hcleared)
  unfold route at hroute
  split_ifs at hroute with h1 h2
  have hdispatch : dispatch K fd eventMask w = (do
      handleDeadlineEvent K eventMask
      processTerminalJobNotifications K : Prog Daemon Unit) (dispatching w fd) := by
    unfold dispatch
    rw [bind_of_ok (emit_run w _), bind_of_ok (state_run _), if_neg (by exact h1),
      if_pos (by exact h2)]
  rw [hdispatch]
  exact hchain

/-- A step about one job leaves every other job as it is: its record, its process with the output read
so far, its process id, its pipes and its deadline, and no signal goes to its process or its process
group. A queued job may be started instead. All this as long as the other job has no deadline left
while its terminal notification is pending, or the step deals with no notifications. -/
theorem jobs_isolated {notifies : Bool}
    (hreached : Walk (Step K) Set.univ ⟨s.initial, []⟩ m) (habout : About K j notifies m w')
    (hk : k ≠ j) (hdistinct : Distinct w'.log) (hcleared : notifies → Cleared k m.world) :
    Spares k m.world w' ∨ Begun K k m.world w' := by
  have hsound := sound_of_walk hreached (sound_initial s)
  obtain ⟨due, hwalk⟩ := habout.walk hsound
  have halone := (parted_of_walk hreached (hdistinct.before (prefix_of_walk hwalk))).alone k
  cases habout with
  | pipe hroute hfd htracked =>
    exact pipe_isolated _ hreached halone (hcleared rfl) hk.symm hroute hfd htracked hdistinct
  | deadline => exact Or.inl (deadlineLoop_spares hsound halone hk.symm)
  | timer hroute hdue =>
    exact timer_isolated _ hreached halone (hcleared rfl) hk.symm hroute hdue hdistinct
  | cancel => exact Or.inl (cancelJob_spares hsound halone hk.symm)
  | @settle w =>
    exact chain_isolated hreached halone (hcleared rfl)
      (ProcessMonitor.tryFinalizeJob_apart (w := monitorWorld w) hsound.wf hk.symm)
      (wp_mono (ProcessMonitor.tryFinalizeJob_walk (w := monitorWorld w) hsound.wf j)
        fun _ _ hwalk => hwalk.mono (ProcessMonitor.polls_le_watches j)) hdistinct
  | @exit w reaps hreaps =>
    exact chain_isolated hreached halone (hcleared rfl)
      (ProcessMonitor.reapLoop_apart (w := monitorWorld w) hsound.wf halone reaps
        fun pid hpid heq => hk (hreaps pid hpid k heq))
      (ProcessMonitor.reapLoop_spec (w := monitorWorld w) hsound.wf reaps) hdistinct

/-- A daemon with two slots. -/
def twoSlots : Setup := { oneSlot with maxRunning := 2, maxRunning_pos := by decide }

/-- A client submits three jobs, the second with a timeout, and the pipes of the first end. -/
def sharedScript : Kernel := { Kernel.quiet with read := fun _ _ => .eof }.withClient
  [[(3, { epollin := true })], [(7, { epollin := true })], [(7, { epollin := true })],
    [(7, { epollin := true })], [(9, .readable), (11, .readable), (13, .readable)]]
  [[], submitPayload 0 [text "/a"], submitPayload 60000 [text "/b"], submitPayload 0 [text "/c"]]

def sharedWorld : World Daemon := after sharedScript twoSlots 5

/-- The child of the first job exits. -/
def freedWorld : World Daemon := ((do
  inMonitor (ProcessMonitor.reapLoop sharedScript (.child 131 (.exited 0) .none))
  processTerminalJobNotifications sharedScript : Prog Daemon Unit) sharedWorld).2

/-- The first job is settled, the second left as it is, and the third started in the slot that is
free. -/
theorem jobs_isolated_run : freedWorld.st.stateOf 1 = some .succeeded ∧
    Spares 2 sharedWorld freedWorld ∧ Begun sharedScript 3 sharedWorld freedWorld := by
  have hok : ∀ i < 5, (iterate sharedScript (after sharedScript twoSlots i)).1 = .ok () := by
    decide +kernel
  obtain ⟨howner, hnotified, hbefore, hqueuedAt, hafter, hstarted, hdistinct⟩ :
      sharedWorld.st.monitor.pidToJob.find 131 = some 1 ∧
        sharedWorld.st.monitor.terminalJobNotifications = [] ∧
        sharedWorld.st.stateOf 2 = some .running ∧ sharedWorld.st.stateOf 3 = some .queued ∧
        freedWorld.st.stateOf 1 = some .succeeded ∧ freedWorld.st.stateOf 3 = some .running ∧
        Distinct freedWorld.log := by
    decide +kernel
  have hreached : Walk (Step sharedScript) Set.univ ⟨twoSlots.initial, []⟩ ⟨sharedWorld, []⟩ :=
    (reachable_after hok).between
  have hpid : ∀ i, sharedWorld.st.monitor.pidToJob.find 131 = some i → i = 1 := by
    rw [howner]
    exact fun i hi => (Option.some.inj hi).symm
  have habout : About sharedScript 1 true ⟨sharedWorld, []⟩ freedWorld := by
    refine .exit fun pid hmem => ?_
    obtain rfl : pid = 131 := List.mem_singleton.mp hmem
    exact hpid
  have hcleared : ∀ k, Cleared k sharedWorld := fun k hmem => by
    rw [hnotified] at hmem
    cases hmem
  -- for any worlds, so that no run is unfolded to see that two worlds are the same
  have hspared : ∀ (w w' : World Daemon) (k : JobId),
      Walk (Step sharedScript) Set.univ ⟨twoSlots.initial, []⟩ ⟨w, []⟩ →
      About sharedScript 1 true ⟨w, []⟩ w' → k ≠ 1 → Distinct w'.log → Cleared k w →
      Spares k w w' ∨ Begun sharedScript k w w' :=
    fun w w' k hreached habout hk hdistinct hcleared =>
      jobs_isolated hreached habout hk hdistinct fun _ => hcleared
  refine ⟨hafter, ?_, ?_⟩
  · -- the second job was not queued
    refine (hspared sharedWorld freedWorld 2 hreached habout (by decide) hdistinct
      (hcleared 2)).resolve_right fun hbegun => ?_
    obtain ⟨job, hjob, hqueued⟩ := hbegun.queued.1
    rw [stateOf_of_find hjob, hqueued] at hbefore
    cases hbefore
  · -- the third job does not stay queued
    refine (hspared sharedWorld freedWorld 3 hreached habout (by decide) hdistinct
      (hcleared 3)).resolve_left fun hspares => ?_
    have hsame : freedWorld.st.stateOf 3 = sharedWorld.st.stateOf 3 := by
      unfold stateOf
      rw [hspares.sameJob]
    rw [hqueuedAt, hstarted] at hsame
    cases hsame

/-- A client submits two jobs, the second with a timeout, and cancels the second, whose child has just
exited. -/
def settledScript : Kernel := { Kernel.quiet with
    waitpid := fun _ _ => .done (.exited (.exited 0))
    read := fun _ _ => .eof }.withClient
  [[(3, { epollin := true })], [(7, { epollin := true })], [(7, { epollin := true })],
    [(7, { epollin := true })]]
  [[], submitPayload 0 [text "/a"], submitPayload 60000 [text "/b"], appendJobId kCancelCommand 2]

def settledWorld : World Daemon := after settledScript twoSlots 4

/-- An event of a pipe of the first job. -/
def lostWorld : World Daemon := (dispatch settledScript 9 .readable settledWorld).2

/-- The second job has been settled by its CANCEL. An event of a pipe of the first one then takes its
deadline away. -/
theorem dispatch_takesDeadline :
    Reachable settledScript twoSlots settledWorld ∧
      About settledScript 1 true ⟨settledWorld, []⟩ lostWorld ∧
      (∀ k, Alone k settledWorld.st.monitor.activeJobs) ∧ Distinct lostWorld.log ∧
      ¬ (Spares 2 settledWorld lostWorld ∨ Begun settledScript 2 settledWorld lostWorld) ∧
      (settledWorld.st.timeouts.activeGenerations.find 2).isSome ∧
      lostWorld.st.timeouts.activeGenerations.find 2 = none := by
  have hok : ∀ i < 4, (iterate settledScript (after settledScript twoSlots i)).1 = .ok () := by
    decide +kernel
  have hreached : Reachable settledScript twoSlots settledWorld := reachable_after hok
  obtain ⟨hroute, hfd, htracked, hsome, hnone, hstate, hdistinct⟩ :
      settledWorld.st.route 9 = .monitor ∧ (9 : Fd) ≠ settledWorld.st.monitor.sigchldFd ∧
        settledWorld.st.monitor.trackedFds.find 9 = some ⟨1, .stdout⟩ ∧
        (settledWorld.st.timeouts.activeGenerations.find 2).isSome ∧
        lostWorld.st.timeouts.activeGenerations.find 2 = none ∧
        settledWorld.st.stateOf 2 = some .succeeded ∧ Distinct lostWorld.log := by
    decide +kernel
  have habout : About settledScript 1 true ⟨settledWorld, []⟩ lostWorld :=
    .pipe hroute hfd htracked
  -- for any worlds, so that no run is unfolded to see that two worlds are the same
  have hkeeps : ∀ w w' : World Daemon, Walk (Step settledScript) Set.univ ⟨twoSlots.initial, []⟩
      ⟨w, []⟩ → About settledScript 1 true ⟨w, []⟩ w' → Distinct w'.log →
      (∀ k, Alone k w.st.monitor.activeJobs) ∧ ∃ f, w.st.timeouts.Refines f := by
    intro w w' hreached habout hdistinct
    have hsound := sound_of_walk hreached (sound_initial twoSlots)
    obtain ⟨due, hwalk⟩ := habout.walk hsound
    have hbefore := hdistinct.before (prefix_of_walk hwalk)
    exact ⟨(parted_of_walk hreached hbefore).alone, hsound.timed.refines⟩
  obtain ⟨halone, f, hf⟩ := hkeeps settledWorld lostWorld hreached.between habout hdistinct
  refine ⟨hreached, habout, halone, hdistinct, ?_, hsome, hnone⟩
  rintro (hspares | hbegun)
  · obtain ⟨f', hf', hsame⟩ := hspares.deadline f hf
    rw [hf.isSome_iff, ← hsame, ← hf'.isSome_iff, hnone] at hsome
    cases hsome
  · obtain ⟨job, hjob, hqueued⟩ := hbegun.queued.1
    rw [stateOf_of_find hjob, hqueued] at hstate
    cases hstate

end Daemon

end Runnerd
