import Runnerd.DaemonSteps
import Runnerd.JobIdCodec
import Runnerd.Listing
import Runnerd.MonitorOperations

/-!
# The operations of the daemon

Each function of the daemon, run from a sound moment, is a walk of steps, whether it returns or
throws. The functions that serve a client leave no deadline unattended, even where they throw: the
main loop catches the exception and goes on.
-/

namespace Runnerd

open Effect Effect.Prog Steps
open ProcessMonitor (Wf Recorded)

namespace Daemon

variable {K : Kernel} {n : ℕ} {w w' : World Daemon} {due rest : List JobId} {j : JobId} {job : Job}

/-! ## Labels -/

/-- What a CANCEL can bring about. -/
def Label.cancels : Label → Bool
  | .watch | .dequeue _ | .skip | .terminate _ | .arm _ | .fumble _ | .kill _ => true
  | _ => false

/-- Starting jobs. -/
def Label.starts : Label → Bool
  | .misfire _ | .run _ => true
  | _ => false

/-- What a request can bring about. -/
def Label.requests (l : Label) : Bool :=
  l.cancels || l.starts || match l with
    | .submit _ => true
    | _ => false

/-- What an event of the client at this descriptor can bring about. -/
def Label.serves (fd : Fd) (l : Label) : Bool :=
  l.requests || match l with
    | .attend => true
    | .take fd' | .tend fd' | .answer fd' => fd' == fd
    | _ => false

/-- Giving slots back, and starting jobs. -/
def Label.pumps (l : Label) : Bool :=
  l.starts || match l with
    | .release _ => true
    | _ => false

/-- Acting upon deadlines. -/
def Label.strikes : Label → Bool
  | .watch | .skip | .spare | .terminate _ | .arm _ | .fumble _ | .kill _ => true
  | _ => false

theorem cancels_le_requests : {l : Label | l.cancels} ⊆ {l | l.requests} := by
  intro l hl
  have hl : l.cancels = true := hl
  show l.requests = true
  simp [Label.requests, hl]

theorem starts_le_requests : {l : Label | l.starts} ⊆ {l | l.requests} := by
  intro l hl
  have hl : l.starts = true := hl
  show l.requests = true
  simp [Label.requests, hl]

theorem requests_le_serves (fd : Fd) : {l : Label | l.requests} ⊆ {l | l.serves fd} := by
  intro l hl
  have hl : l.requests = true := hl
  show l.serves fd = true
  simp [Label.serves, hl]

theorem starts_le_pumps : {l : Label | l.starts} ⊆ {l | l.pumps} := by
  intro l hl
  have hl : l.starts = true := hl
  show l.pumps = true
  simp [Label.pumps, hl]

/-! ## The modules in place -/

theorem wp_inMonitor {α : Type} {m : Prog ProcessMonitor α}
    {Q : Except Exception α → World Daemon → Prop}
    (h : wp m (fun r v => Q r (withMonitor w v)) (monitorWorld w)) : wp (inMonitor m) Q w :=
  wp_within h

theorem inMonitor_run {α : Type} {m : Prog ProcessMonitor α} {r : Except Exception α}
    {v : World ProcessMonitor} (h : m (monitorWorld w) = (r, v)) :
    inMonitor m w = (r, withMonitor w v) := by
  unfold monitorWorld at h
  show (_, _) = _
  rw [h]
  rfl

theorem inTimeouts_run {α : Type} {m : Prog TimeoutManager α} {r : Except Exception α}
    {v : World TimeoutManager} (h : m ⟨w.st.timeouts, w.log⟩ = (r, v)) :
    inTimeouts m w = (r, ⟨{ w.st with timeouts := v.st }, v.log⟩) := by
  show (_, _) = _
  rw [h]

theorem inScheduler_run {α : Type} {f : JobScheduler → Except Exception (α × JobScheduler)}
    {a : α} {s : JobScheduler} (h : f w.st.scheduler = .ok (a, s)) :
    inScheduler f w = (.ok a, w.put { w.st with scheduler := s }) := by
  unfold inScheduler
  rw [h]

theorem jobAt_run (hjob : w.st.jobs.find j = some job) : jobAt j w = (.ok job, w) := by
  have h := ProcessMonitor.jobAt_run (w := monitorWorld w) hjob
  show (_, _) = _
  rw [show ProcessMonitor.jobAt j ⟨w.st.monitor, w.log⟩ = _ from h]
  rfl

/-- A walk of the monitor that looks after processes is one of the daemon. -/
theorem walk_watch {v : World ProcessMonitor} {A : Set ProcessMonitor.Label}
    (hA : A ⊆ {l | l.watches}) (h : Walk (ProcessMonitor.Step K) A (monitorWorld w) v) :
    Walk (Step K) {.watch} ⟨w, due⟩ ⟨withMonitor w v, due⟩ := by
  induction h with
  | refl => exact Walk.refl
  | tail _ hlast ih =>
    obtain ⟨l, hl, hstep⟩ := hlast
    exact ih.tail rfl (Step.watch (w := withMonitor w _) (hA hl) hstep)

theorem watch_le_cancels : ({.watch} : Set Label) ⊆ {l | l.cancels} := by
  rintro l rfl
  rfl

theorem watch_le_strikes : ({.watch} : Set Label) ⊆ {l | l.strikes} := by
  rintro l rfl
  rfl

/-! ## Deadlines -/

/-- The labels common to acting upon a deadline and answering a CANCEL. -/
def Label.escalates : Label → Bool
  | .watch | .skip | .arm _ | .fumble _ | .kill _ => true
  | _ => false

theorem escalates_le_cancels : {l : Label | l.escalates} ⊆ {l | l.cancels} := by
  intro l hl
  cases l <;> first | rfl | cases hl

theorem escalates_le_strikes : {l : Label | l.escalates} ⊆ {l | l.strikes} := by
  intro l hl
  cases l <;> first | rfl | cases hl

theorem watch_le_escalates : ({.watch} : Set Label) ⊆ {l | l.escalates} := by
  rintro l rfl
  rfl

/-- A terminating job whose grace is over: it is killed, or nothing is left to be done. -/
theorem forceKill_due (h : Sound n ⟨w, j :: rest⟩) (hjob : w.st.jobs.find j = some job)
    (hterminating : job.state = .terminating) :
    wp (inMonitor (ProcessMonitor.forceKill K j))
      (fun _ w' => Walk (Step K) {l | l.escalates} ⟨w, j :: rest⟩ ⟨w', rest⟩) w := by
  obtain ⟨p, hactive⟩ := (h.wf.active_iff hjob).mpr (by rw [hterminating]; rfl)
  refine wp_inMonitor (wp_mono (ProcessMonitor.forceKill_spec h.wf hjob hterminating) ?_)
  intro _ v hv
  have hwalk := ProcessMonitor.looked_walk (K := K) (w := monitorWorld w) h.wf hactive
  set v1 := ProcessMonitor.looked K j (monitorWorld w)
  have hwatch : Walk (Step K) {l | l.escalates} ⟨w, j :: rest⟩ ⟨withMonitor w v1, j :: rest⟩ :=
    (walk_watch (ProcessMonitor.polls_le_watches j) hwalk).mono watch_le_escalates
  have hskip : ∀ v : World ProcessMonitor, Walk (ProcessMonitor.Step K) {l | l.polls j}
      (monitorWorld w) v → Step K .skip ⟨withMonitor w v, j :: rest⟩ ⟨withMonitor w v, rest⟩ := by
    refine fun v hwalk => Step.skip fun job' hjob' => ?_
    obtain ⟨job'', hjob'', hstate⟩ := ProcessMonitor.job_of_polls hwalk h.wf hjob
    have hjob' : v.st.jobs.find j = some job' := hjob'
    rw [hjob''] at hjob'
    obtain rfl := Option.some.inj hjob'
    obtain ⟨hstate, -⟩ | hterm := hstate
    · rw [hstate, hterminating]
      simp
    · exact ne_of_isTerminal hterm rfl
  obtain hstep | rfl | hstep := hv
  · exact hwatch.tail rfl (Step.kill (w := withMonitor w v1) hstep)
  · exact hwatch.tail rfl (hskip _ hwalk)
  · have hidle : Step K .watch ⟨withMonitor w v1, j :: rest⟩ ⟨withMonitor w v, j :: rest⟩ :=
      Step.watch (w := withMonitor w v1) rfl hstep
    exact (hwatch.tail rfl hidle).tail rfl (hskip v (hwalk.tail rfl hstep))

/-- The world in which a job's deadline is cancelled. -/
def withoutDeadline (w : World Daemon) (j : JobId) : World Daemon :=
  w.put { w.st with timeouts := w.st.timeouts.cancel j }

/-- A job without a deadline is not changed by another `cancel`. -/
theorem withoutDeadline_of_none (h : w.st.timeouts.activeGenerations.find j = none) :
    withoutDeadline w j = w := by
  have hcancel : w.st.timeouts.cancel j = w.st.timeouts := by
    unfold TimeoutManager.cancel
    rw [Table.del_of_find_eq_none h]
  unfold withoutDeadline
  rw [hcancel]
  rfl

theorem kTerminationGracePeriod_pos : 0 < kTerminationGracePeriod := by decide

theorem choreEvents_of_armingEvents (now : ℤ) {events : List Event}
    (h : ∀ e ∈ events, TimeoutManager.armingEvent e) :
    ∀ e ∈ Event.clock now :: events, choreEvent e :=
  List.forall_mem_cons.mpr ⟨rfl, fun e he => choreEvent_of_armingEvent (h e he)⟩

/-- A job that has just been sent SIGTERM gets its grace deadline, or is killed at once. -/
theorem scheduleForceKillDeadline_spec (h : Sound n ⟨withoutDeadline w j, j :: rest⟩)
    (hjob : w.st.jobs.find j = some job) (hterminating : job.state = .terminating) :
    wp (scheduleForceKillDeadline K j) (fun _ w' =>
      Walk (Step K) {l | l.escalates} ⟨withoutDeadline w j, j :: rest⟩ ⟨w', rest⟩) w := by
  unfold scheduleForceKillDeadline
  have hupdate : inTimeouts (update fun t => t.cancel j) w = (.ok (), withoutDeadline w j) := rfl
  refine wp_bind_ok hupdate ?_
  set w1 := withoutDeadline w j with hw1
  have hjob1 : w1.st.jobs.find j = some job := hjob
  obtain hbad | ⟨hgen, e, hrun, -⟩ | ⟨hgen, r, events, hrun, hevents, -⟩ :=
    TimeoutManager.schedule_run K ⟨w1.st.timeouts, w1.log⟩ j kTerminationGracePeriod
  · exact absurd hbad (not_le.mpr kTerminationGracePeriod_pos)
  · -- the generations are used up: kill at once
    have hnone : w1.st.timeouts.activeGenerations.find j = none :=
      h.timed.due_off j List.mem_cons_self
    have hself : (⟨{ w1.st with timeouts := w1.st.timeouts }, w1.log⟩ : World Daemon) = w1 := rfl
    have hthrow := inTimeouts_run hrun
    rw [hself] at hthrow
    refine wp_tryCatch_error hthrow ?_
    have hcancel : inTimeouts (update fun t => t.cancel j) w1 = (.ok (), w1) :=
      congrArg (Prod.mk _) (withoutDeadline_of_none hnone)
    refine wp_bind_ok hcancel ?_
    exact wp_bind (forceKill_due h hjob1 hterminating) (fun _ _ h => wp_pure h) fun _ _ h => h
  · have hevents := choreEvents_of_armingEvents (K.now w1.log) hevents
    cases r with
    | ok _ =>
      refine wp_of_run (tryCatch_of_ok (inTimeouts_run hrun)) ?_
      exact Walk.single rfl (Step.arm hjob1 hterminating rfl hgen hevents)
    | error e =>
      -- the timer could not be set: the deadline is taken back, and the job killed at once
      refine wp_tryCatch_error (inTimeouts_run hrun) ?_
      refine wp_bind_ok rfl ?_
      have hfumble : Step K (.fumble j) ⟨w1, j :: rest⟩ ⟨⟨{ w1.st with
          timeouts := (w1.st.timeouts.insert j
            (K.now w1.log + kTerminationGracePeriod * 1000000)).discardStaleEntries.cancel j },
          w1.log ++ .clock (K.now w1.log) :: events⟩, j :: rest⟩ := Step.fumble hgen hevents
      have hkill := forceKill_due (K := K) (hfumble.sound h) hjob1 hterminating
      refine wp_bind hkill (fun _ _ hwalk => wp_pure ?_) fun _ _ hwalk => ?_
      · exact hwalk.head hfumble rfl
      · exact hwalk.head hfumble rfl

/-! ## CANCEL -/

/-- The response to a CANCEL of a queued job. -/
def cancelledResponse : Bytes := text "OK cancelled"

theorem sigtermFailure_ne (s : Bytes) :
    text "ERR failed to send SIGTERM: " ++ s ≠ cancelledResponse := by
  intro h
  have hhead := congrArg List.head? h
  simp [text, cancelledResponse] at hhead

/-- The world of a running job that has been sent SIGTERM, its deadline cancelled. -/
theorem terminated_due {v : World ProcessMonitor} {cause : TerminationCause} (h : Sound n ⟨w, due⟩)
    (hdue : due = j :: rest ∧ cause = .timedOut ∨ due = [] ∧ rest = [] ∧ cause = .cancelled)
    (hstep : ProcessMonitor.Step K (.terminate j cause) (monitorWorld w) v) :
    Step K (.terminate j) ⟨w, due⟩ ⟨withoutDeadline (withMonitor w v) j, j :: rest⟩ ∧
      wp (scheduleForceKillDeadline K j) (fun _ w' => Walk (Step K) {l | l.escalates}
        ⟨withoutDeadline (withMonitor w v) j, j :: rest⟩ ⟨w', rest⟩) (withMonitor w v) := by
  have hterminate : Step K (.terminate j) ⟨w, due⟩
      ⟨withoutDeadline (withMonitor w v) j, j :: rest⟩ := Step.terminate hdue hstep
  refine ⟨hterminate, ?_⟩
  have hsound := hterminate.sound h
  cases hstep with
  | terminate hactive hjob hrunning =>
    exact scheduleForceKillDeadline_spec hsound (Table.find_set_self _ _ _) (by rfl)

theorem cancelRunningJob_spec (h : Sound n ⟨w, []⟩) (hjob : w.st.jobs.find j = some job)
    (hrunning : job.state = .running) :
    wp (cancelRunningJob K j) (fun r w' => Walk (Step K) {l | l.cancels} ⟨w, []⟩ ⟨w', []⟩ ∧
      r ≠ .ok cancelledResponse) w := by
  unfold cancelRunningJob
  have hrequest := ProcessMonitor.requestTerminate_spec (K := K) (w := monitorWorld w) h.wf hjob
    hrunning .cancelled
  rcases hrun : ProcessMonitor.requestTerminate K j .cancelled (monitorWorld w) with ⟨r, v⟩
  have hrequested := wp_run hrequest hrun
  obtain ⟨p, hactive⟩ := (h.wf.active_iff hjob).mpr (by rw [hrunning]; rfl)
  have hwalk := ProcessMonitor.looked_walk (K := K) (w := monitorWorld w) h.wf hactive
  set v1 := ProcessMonitor.looked K j (monitorWorld w)
  have hwatch : Walk (Step K) {l | l.cancels} ⟨w, []⟩ ⟨withMonitor w v1, []⟩ :=
    (walk_watch (ProcessMonitor.polls_le_watches j) hwalk).mono watch_le_cancels
  have hrun := inMonitor_run hrun
  cases r with
  | error e =>
    have hwatch : Walk (Step K) {l | l.cancels} ⟨w, []⟩ ⟨withMonitor w v, []⟩ := by
      cases hrequested with
      | failed heq => exact heq ▸ hwatch
      | refused heq => exact heq ▸ hwatch.tail rfl (Step.watch (w := withMonitor w v1) rfl (.idle rfl))
    have hthrow := bind_of_error (f := fun requested =>
      (pure (Except.ok requested) : Prog Daemon (Except Bytes Bool))) hrun
    cases e with
    | systemError e what =>
      refine wp_bind_ok (tryCatch_of_error hthrow) (wp_pure ⟨hwatch, fun hr => ?_⟩)
      exact sigtermFailure_ne _ (Except.ok.inj hr)
    | _ => exact wp_of_run (bind_of_error (tryCatch_of_error hthrow)) ⟨hwatch, fun hr => by cases hr⟩
  | ok requested =>
    have hreturn := bind_of_ok (f := fun requested =>
      (pure (Except.ok requested) : Prog Daemon (Except Bytes Bool))) hrun
    refine wp_bind_ok (tryCatch_of_ok hreturn) ?_
    cases hrequested with
    | terminated hstep =>
      obtain ⟨hterminate, hdeadline⟩ := terminated_due (sound_of_walk hwatch h)
        (Or.inr ⟨rfl, rfl, rfl⟩) (w := withMonitor w v1) hstep
      refine wp_bind hdeadline (fun _ w' hwalk => ?_) fun e w' hwalk => ?_
      · refine wp_pure ⟨?_, fun hr => absurd (Except.ok.inj hr) (by decide)⟩
        exact (hwatch.tail rfl hterminate).trans (hwalk.mono escalates_le_cancels)
      · refine ⟨?_, fun hr => by cases hr⟩
        exact (hwatch.tail rfl hterminate).trans (hwalk.mono escalates_le_cancels)
    | settled heq hjob hterm =>
      subst heq
      exact wp_pure ⟨hwatch, fun hr => absurd (Except.ok.inj hr) (by decide)⟩
    | groupGone heq hactive hjob hrunning =>
      subst heq
      refine wp_pure ⟨?_, fun hr => absurd (Except.ok.inj hr) (by decide)⟩
      exact hwatch.tail rfl (Step.watch (w := withMonitor w v1) rfl (.idle rfl))

/-- A CANCEL leaves no deadline unattended; the job of one that is answered with `OK cancelled` was
in the queue. -/
theorem cancelJob_spec (h : Sound n ⟨w, []⟩) (j : JobId) :
    wp (cancelJob K j) (fun r w' => Walk (Step K) {l | l.cancels} ⟨w, []⟩ ⟨w', []⟩ ∧
      (r = .ok cancelledResponse → CancelledWhileQueued w'.log j)) w := by
  unfold cancelJob
  refine wp_bind_ok (state_run w) ?_
  cases hjob : w.st.jobs.find j with
  | none => exact wp_pure ⟨Walk.refl, fun hr => absurd (Except.ok.inj hr) (by decide)⟩
  | some job =>
  simp only
  cases hstate : job.state with
  | queued =>
    have hs : w.st.stateOf j = some .queued := by rw [stateOf_of_find hjob, hstate]
    have hwaiting : j ∈ w.st.scheduler.waitingJobs := (h.slots.waiting j).mpr hs
    have hid := (h.slots.waitingIds j).mpr hwaiting
    have hremove : w.st.scheduler.cancelQueuedJob j = .ok (true, { w.st.scheduler with
        waitingJobs := w.st.scheduler.waitingJobs.erase j
        waitingJobIds := w.st.scheduler.waitingJobIds.erase j }) := by
      unfold JobScheduler.cancelQueuedJob
      rw [if_pos hid, if_pos hwaiting]
    refine wp_bind_ok (inScheduler_run hremove) ?_
    simp only [Bool.true_eq_false, if_false]
    have htrans : canTransition job.state .cancelled := by
      rw [hstate]
      rfl
    have henter := ProcessMonitor.withJob_enter (w := monitorWorld w) hjob (h.wf.id_eq hjob) htrans
    have hdequeue : Step K (.dequeue j) ⟨w, []⟩ _ := Step.dequeue
      (ProcessMonitor.Step.dequeue (w := monitorWorld w) hjob hstate)
    refine wp_bind_ok (inMonitor_run henter) (wp_pure ⟨Walk.single rfl hdequeue, fun _ => ?_⟩)
    refine ⟨w.log, [], rfl, ?_⟩
    have hrecorded := h.recorded.state j
    exact hrecorded.trans hs
  | running =>
    exact wp_mono (cancelRunningJob_spec h hjob hstate) fun r w' hr =>
      ⟨hr.1, fun heq => absurd heq hr.2⟩
  | terminating => exact wp_pure ⟨Walk.refl, fun hr => absurd (Except.ok.inj hr) (by decide)⟩
  | succeeded => exact wp_pure ⟨Walk.refl, fun hr => absurd (Except.ok.inj hr) (by decide)⟩
  | failed => exact wp_pure ⟨Walk.refl, fun hr => absurd (Except.ok.inj hr) (by decide)⟩
  | cancelled => exact wp_pure ⟨Walk.refl, fun hr => absurd (Except.ok.inj hr) (by decide)⟩
  | timedOut => exact wp_pure ⟨Walk.refl, fun hr => absurd (Except.ok.inj hr) (by decide)⟩
  | interrupted => exact wp_pure ⟨Walk.refl, fun hr => absurd (Except.ok.inj hr) (by decide)⟩

/-! ## Starting jobs -/

/-- No job waits while a slot is free. -/
def NoIdle (d : Daemon) : Prop :=
  d.scheduler.waitingJobs = [] ∨ d.scheduler.maxRunning ≤ d.scheduler.activeJobIds.card

theorem takeNextJobToStart_of_noIdle (h : NoIdle w.st) : takeNextJobToStart w = (.ok none, w) := by
  have htake : w.st.scheduler.takeNextJobToStart = .ok (none, w.st.scheduler) := by
    unfold JobScheduler.takeNextJobToStart
    split_ifs with hslot
    · rfl
    · rw [h.resolve_right hslot]
  exact inScheduler_run htake

/-- The world in which a job is taken off the queue. -/
def takenWorld (w : World Daemon) (j : JobId) (rest : List JobId) : World Daemon :=
  w.put { w.st with scheduler := { w.st.scheduler with
    activeJobIds := insert j w.st.scheduler.activeJobIds
    waitingJobs := rest
    waitingJobIds := w.st.scheduler.waitingJobIds.erase j } }

theorem takeNextJobToStart_run (hslot : w.st.scheduler.activeJobIds.card < w.st.scheduler.maxRunning)
    (hwaiting : w.st.scheduler.waitingJobs = j :: rest) (hfree : j ∉ w.st.scheduler.activeJobIds) :
    takeNextJobToStart w = (.ok (some j), takenWorld w j rest) := by
  refine inScheduler_run ?_
  unfold JobScheduler.takeNextJobToStart
  rw [if_neg (not_le.mpr hslot), hwaiting]
  simp only
  rw [if_neg hfree]

theorem onJobReachedTerminalState_run (hslot : j ∈ w.st.scheduler.activeJobIds) :
    onJobReachedTerminalState j w = (.ok (), w.put { w.st with scheduler := { w.st.scheduler with
      activeJobIds := w.st.scheduler.activeJobIds.erase j } }) := by
  refine inScheduler_run ?_
  unfold JobScheduler.onJobReachedTerminalState
  rw [if_pos hslot]
  rfl

/-- A start of a queued job fails it, or has it running. -/
theorem state_of_starts {l : ProcessMonitor.Label} {v v' : World ProcessMonitor}
    (hl : l.starts j) (hstep : ProcessMonitor.Step K l v v') :
    ∃ job, v'.st.jobs.find j = some job ∧
      (job.state = .failed ∧ (l = .launchFailed j ∨ l = .abandoned j) ∨
        job.state = .running ∧ l = .started j ∧
          ∃ job₀, v.st.jobs.find j = some job₀ ∧ job.spec = job₀.spec) := by
  cases hstep with
  | @launchFailed _ k =>
    obtain rfl : k = j := by simpa [ProcessMonitor.Label.starts] using hl
    exact ⟨_, Table.find_set_self _ _ _, Or.inl ⟨rfl, Or.inl rfl⟩⟩
  | @abandoned _ k =>
    obtain rfl : k = j := by simpa [ProcessMonitor.Label.starts] using hl
    exact ⟨_, Table.find_set_self _ _ _, Or.inl ⟨rfl, Or.inr rfl⟩⟩
  | @started _ k job₀ events launched hjob =>
    obtain rfl : k = j := by simpa [ProcessMonitor.Label.starts] using hl
    exact ⟨_, Table.find_set_self _ _ _, Or.inr ⟨rfl, rfl, job₀, hjob, rfl⟩⟩
  | _ => cases hl

/-- What starting jobs comes to: where it throws it has taken a job off the queue. -/
structure Pumped (K : Kernel) (w w' : World Daemon) (r : Except Exception Unit) : Prop where
  walk : Walk (Step K) {l | l.starts} ⟨w, []⟩ ⟨w', []⟩
  noIdle : r = .ok () → NoIdle w'.st
  shorter : ∀ e, r = .error e → ¬ NoIdle w.st ∧
    w'.st.scheduler.waitingJobs.length < w.st.scheduler.waitingJobs.length
  notInvalid : NotInvalid r

/-- The loop of `pumpScheduler`, given fuel for every waiting job. -/
theorem pumpLoop_spec (fuel : ℕ) (h : Sound n ⟨w, []⟩)
    (hfuel : w.st.scheduler.waitingJobs.length < fuel) :
    wp (pumpLoop K fuel) (fun r w' => Pumped K w w' r) w := by
  induction fuel generalizing w with
  | zero => exact absurd hfuel (Nat.not_lt_zero _)
  | succ fuel ih =>
  unfold pumpLoop
  by_cases hidle : NoIdle w.st
  · exact wp_bind_ok (takeNextJobToStart_of_noIdle hidle) (wp_pure
      ⟨Walk.refl, fun _ => hidle, (fun e hr => by cases hr), fun _ hr => by cases hr⟩)
  obtain ⟨hne, hslot⟩ := not_or.mp hidle
  rw [not_le] at hslot
  obtain ⟨j, rest, hwaiting⟩ := List.exists_cons_of_ne_nil hne
  obtain ⟨-, -, -, hs, hfree⟩ := h.slots.takeNext h.wf hwaiting
  refine wp_bind_ok (takeNextJobToStart_run hslot hwaiting hfree) ?_
  simp only
  have hlength : rest.length < w.st.scheduler.waitingJobs.length := by
    rw [hwaiting]
    exact Nat.lt_succ_self _
  have hrest : rest.length < fuel := by omega
  -- what follows a start, from the world it leaves
  have hnext : ∀ l w1, l.starts → Step K l ⟨w, []⟩ ⟨w1, []⟩ →
      w1.st.scheduler.waitingJobs = rest →
      wp (pumpLoop K fuel) (fun r w' => Pumped K w w' r) w1 := by
    intro l w1 hl hstep hw1
    refine wp_mono (ih (hstep.sound h) (hw1 ▸ hrest)) fun r w' hpumped => ?_
    refine ⟨hpumped.walk.head hstep hl, hpumped.noIdle, fun e hr => ⟨hidle, ?_⟩,
      hpumped.notInvalid⟩
    have hless := (hpumped.shorter e hr).2
    rw [hw1] at hless
    exact hless.trans hlength
  have hthrow : ∀ {e : Exception} {w1 : World Daemon}, Step K (.run j) ⟨w, []⟩ ⟨w1, []⟩ →
      w1.st.scheduler.waitingJobs = rest → NotInvalid (.error e : Except Exception Unit) →
      Pumped K w w1 (.error e) := fun hstep hw1 he =>
    ⟨Walk.single rfl hstep, (fun hr => by cases hr), fun _ _ => ⟨hidle, hw1 ▸ hlength⟩, he⟩
  have hstart := ProcessMonitor.startJob_spec (K := K) (w := monitorWorld w) h.wf j
  rcases hrun : ProcessMonitor.startJob K j (monitorWorld w) with ⟨r, v⟩
  obtain ⟨e, -, hmiss⟩ | ⟨hr, l, hl, hstep⟩ := wp_run hstart hrun
  · -- the job is queued
    obtain ⟨job, hjob, hstate⟩ := Option.map_eq_some_iff.mp hs
    cases hmiss with
    | misstart hnot => exact absurd hstate (hnot job hjob)
  subst hr
  refine wp_bind_ok (inMonitor_run (w := takenWorld w j rest) hrun) ?_
  obtain ⟨job, hjob, ⟨hfailed, hlabel⟩ | ⟨hrunning, rfl, job₀, hjob₀, hspec⟩⟩ :=
    state_of_starts hl hstep
  · refine wp_bind_ok (jobAt_run hjob) ?_
    rw [hfailed]
    simp only [isTerminal, if_true]
    have hslot' : j ∈ (withMonitor (takenWorld w j rest) v).st.scheduler.activeJobIds :=
      Finset.mem_insert_self _ _
    refine wp_bind_ok (onJobReachedTerminalState_run hslot') (hnext (.misfire j) _ rfl ?_ rfl)
    exact Step.misfire hlabel hslot hwaiting hstep
  · refine wp_bind_ok (jobAt_run hjob) ?_
    rw [hrunning]
    simp only [isTerminal, Bool.false_eq_true, if_false, ne_eq, not_true_eq_false]
    have hid := h.wf.id_eq hjob₀
    cases htimeout : job.spec.executionTimeout with
    | none =>
      have hstep' := Step.run hslot hwaiting hstep hjob₀
        (Or.inl ⟨rfl, Or.inl (hspec ▸ htimeout)⟩) (List.forall_mem_nil _)
      rw [List.append_nil] at hstep'
      exact hnext _ _ rfl hstep' rfl
    | some timeout =>
      simp only
      have hpos : 0 < timeout := h.timed.positive hjob₀ (hspec ▸ htimeout)
      obtain hbad | ⟨hgen, e, hrun', he⟩ | ⟨hgen, r, events, hrun', hevents, hr⟩ :=
        TimeoutManager.schedule_run K ⟨w.st.timeouts, v.log⟩ j timeout
      · exact absurd hbad (not_le.mpr hpos)
      · have hstep' := Step.run hslot hwaiting hstep hjob₀
          (Or.inl ⟨rfl, Or.inr hgen⟩) (List.forall_mem_nil _)
        rw [List.append_nil] at hstep'
        have hthrow' := inTimeouts_run (w := withMonitor (takenWorld w j rest) v) hrun'
        exact wp_of_run (bind_of_error hthrow') (hthrow hstep' rfl he)
      · have hstep' := Step.run hslot hwaiting hstep hjob₀
          (Or.inr ⟨timeout, hspec ▸ htimeout, hgen, rfl⟩)
          (choreEvents_of_armingEvents (K.now v.log) hevents)
        rw [hid] at hstep'
        have hrun' := inTimeouts_run (w := withMonitor (takenWorld w j rest) v) hrun'
        cases r with
        | ok _ => exact wp_bind_ok hrun' (hnext _ _ rfl hstep' rfl)
        | error e => exact wp_of_run (bind_of_error hrun') (hthrow hstep' rfl hr)

theorem pumpScheduler_spec (h : Sound n ⟨w, []⟩) :
    wp (pumpScheduler K) (fun r w' => Pumped K w w' r) w :=
  wp_bind_ok (state_run w) (pumpLoop_spec _ h (Nat.lt_succ_self _))

/-! ## Notifications -/

/-- Starting jobs adds no notification. -/
theorem notifications_of_starts (hwalk : Walk (Step K) {l | l.starts} ⟨w, due⟩ ⟨w', rest⟩) :
    w'.st.monitor.terminalJobNotifications = w.st.monitor.terminalJobNotifications := by
  have key := hwalk.invariant (P := fun m => m.world.st.monitor.terminalJobNotifications =
    w.st.monitor.terminalJobNotifications) ?_ rfl
  · exact key
  · intro l hl a b hstep ha
    cases hstep with
    | misfire hlabel hslot hwaiting hstep => exact (states_of_misfire hlabel hstep).2.trans ha
    | run hslot hwaiting hstep =>
      cases hstep
      exact ha
    | _ => cases hl

/-- The loop of `processTerminalJobNotifications`: every slot to be given back is. -/
theorem notificationLoop_spec (fuel : ℕ) (h : Sound n ⟨w, []⟩)
    (hfuel : w.st.monitor.terminalJobNotifications.length ≤ fuel) :
    wp (notificationLoop K fuel) (fun r w' => Walk (Step K) {l | l.pumps} ⟨w, []⟩ ⟨w', []⟩ ∧
      (r = .ok () → w'.st.monitor.terminalJobNotifications = [] ∧
        (NoIdle w.st → NoIdle w'.st))) w := by
  induction fuel generalizing w with
  | zero =>
    have hnil := List.length_eq_zero_iff.mp (Nat.le_zero.mp hfuel)
    exact wp_pure ⟨Walk.refl, fun _ => ⟨hnil, id⟩⟩
  | succ fuel ih =>
  unfold notificationLoop
  refine wp_bind_ok (state_run w) ?_
  cases hnotified : w.st.monitor.terminalJobNotifications with
  | nil => exact wp_pure ⟨Walk.refl, fun _ => ⟨hnotified, id⟩⟩
  | cons j rest =>
  simp only
  have hmem : j ∈ w.st.monitor.terminalJobNotifications := by
    rw [hnotified]
    exact List.mem_cons_self
  obtain ⟨job, hjob, hterm⟩ := h.wf.notified j hmem
  refine wp_bind_ok (inMonitor_run (update_run _ _)) ?_
  rw [show w.st.jobs.find j = some job from hjob]
  simp only [hterm, Bool.true_eq_false, if_false]
  refine wp_bind_ok (inTimeouts_run (update_run _ _)) ?_
  have hslot : j ∈ w.st.scheduler.activeJobIds := (h.slots.slots j).mpr (Or.inr hmem)
  refine wp_bind_ok (onJobReachedTerminalState_run (by exact hslot)) ?_
  have hstep : Step K (.release j) ⟨w, []⟩ _ := Step.release hnotified
  have hsound := hstep.sound h
  refine wp_bind (pumpScheduler_spec hsound) (fun _ w1 h1 => ?_) fun e w1 h1 => ?_
  · have hwalk := h1.walk
    have hkeep : w1.st.monitor.terminalJobNotifications = rest := notifications_of_starts hwalk
    have hlength : w1.st.monitor.terminalJobNotifications.length ≤ fuel := by
      rw [hnotified] at hfuel
      rw [hkeep]
      exact Nat.le_of_succ_le_succ hfuel
    refine wp_mono (ih (sound_of_walk hwalk hsound) hlength) fun r w2 ⟨hwalk2, h2⟩ => ?_
    refine ⟨((hwalk.mono starts_le_pumps).head hstep rfl).trans hwalk2, fun hr => ?_⟩
    exact ⟨(h2 hr).1, fun _ => (h2 hr).2 (h1.noIdle rfl)⟩
  · exact ⟨(h1.walk.mono starts_le_pumps).head hstep rfl, fun hr => by cases hr⟩

theorem processTerminalJobNotifications_spec (h : Sound n ⟨w, []⟩) :
    wp (processTerminalJobNotifications K) (fun r w' =>
      Walk (Step K) {l | l.pumps} ⟨w, []⟩ ⟨w', []⟩ ∧
      (r = .ok () → w'.st.monitor.terminalJobNotifications = [] ∧
        (NoIdle w.st → NoIdle w'.st))) w :=
  wp_bind_ok (state_run w) (notificationLoop_spec _ h le_rfl)

/-! ## Requests -/

/-- What is done without leaving a deadline unattended or a slot idle. -/
def Served (K : Kernel) (A : Set Label) (w w' : World Daemon) : Prop :=
  Walk (Step K) A ⟨w, []⟩ ⟨w', []⟩ ∧ (NoIdle w.st → NoIdle w'.st)

variable {A : Set Label}

theorem Served.refl (K : Kernel) (A : Set Label) (w : World Daemon) : Served K A w w :=
  ⟨Walk.refl, id⟩

theorem Served.trans {w'' : World Daemon} (h : Served K A w w') (h' : Served K A w' w'') :
    Served K A w w'' := ⟨h.1.trans h'.1, h'.2 ∘ h.2⟩

theorem Served.mono {B : Set Label} (hAB : A ⊆ B) (h : Served K A w w') : Served K B w w' :=
  ⟨h.1.mono hAB, h.2⟩

theorem Served.sound (h : Served K A w w') (hs : Sound n ⟨w, []⟩) : Sound n ⟨w', []⟩ :=
  sound_of_walk h.1 hs

/-- What a request does. -/
abbrev Requested (K : Kernel) (w w' : World Daemon) : Prop := Served K {l | l.requests} w w'

/-- Only a new job and a slot given back can leave a slot idle. -/
theorem noIdle_of_cancels (hwalk : Walk (Step K) {l | l.cancels} ⟨w, due⟩ ⟨w', rest⟩)
    (h : NoIdle w.st) : NoIdle w'.st := by
  have key := hwalk.invariant (P := fun m => NoIdle m.world.st) ?_ h
  · exact key
  · intro l hl a b hstep ha
    cases hstep with
    | watch | skip | terminate | arm | fumble | kill => exact ha
    | @dequeue w due v j =>
      obtain hnil | hfull := ha
      · exact Or.inl (by rw [hnil]; rfl)
      · exact Or.inr hfull
    | _ => cases hl

theorem Requested.refl (K : Kernel) (w : World Daemon) : Requested K w w := Served.refl K _ w

theorem Requested.of_cancels (hwalk : Walk (Step K) {l | l.cancels} ⟨w, []⟩ ⟨w', []⟩) :
    Requested K w w' := ⟨hwalk.mono cancels_le_requests, noIdle_of_cancels hwalk⟩

/-- An invalid argument is answered. -/
theorem answeringInvalidArgument_spec {m : Prog Daemon Bytes}
    {Q : Except Exception Bytes → World Daemon → Prop}
    (h : wp m (fun r w' => Q r w' ∧ ∀ what, r = .error (.invalidArgument what) →
      Q (.ok (text "ERR " ++ what)) w') w) : wp (answeringInvalidArgument m) Q w := by
  refine wp_tryCatch h (fun _ _ hQ => hQ.1) fun e w' hQ => ?_
  cases e with
  | invalidArgument what => exact wp_pure (hQ.2 what rfl)
  | _ => exact wp_throw hQ.1

/-- The world with a new job in the queue. -/
def submittedWorld (w : World Daemon) (spec : JobSpec) : World Daemon :=
  ⟨{ w.st with
    monitor := { w.st.monitor with
      jobs := w.st.monitor.jobs.set w.st.nextJobId { id := w.st.nextJobId, spec } }
    scheduler := { w.st.scheduler with
      waitingJobIds := insert w.st.nextJobId w.st.scheduler.waitingJobIds
      waitingJobs := w.st.scheduler.waitingJobs ++ [w.st.nextJobId] }
    nextJobId := (w.st.nextJobId + 1) % 2 ^ 64 },
    w.log ++ [.submitted w.st.nextJobId]⟩

/-- What a SUBMIT comes to: it is refused, or a job is added, and started if there is a slot. -/
inductive Submitted (K : Kernel) (request : Bytes) (w : World Daemon) :
    Except Exception Bytes → World Daemon → Prop where
  | refused {e} : Submitted K request w (.error e) w
  | added {spec r w'} (hdecode : decodeSubmitRequest request = .ok spec)
      (hid : w.st.nextJobId ≠ 0)
      (hstep : Step K (.submit w.st.nextJobId) ⟨w, []⟩ ⟨submittedWorld w spec, []⟩)
      (hwalk : Walk (Step K) {l | l.starts} ⟨submittedWorld w spec, []⟩ ⟨w', []⟩)
      (hresponse : ∀ response, r = .ok response → response = acknowledgement w.st.nextJobId)
      (hinvalid : NotInvalid r) (hidle : NoIdle w.st → NoIdle w'.st) :
      Submitted K request w r w'

theorem Submitted.requested {request : Bytes} {r : Except Exception Bytes}
    (h : Submitted K request w r w') : Requested K w w' := by
  cases h with
  | refused => exact Requested.refl K w
  | added hdecode hid hstep hwalk hresponse hinvalid hidle =>
    exact ⟨(hwalk.mono starts_le_requests).head hstep rfl, hidle⟩

/-- Where a scheduler that holds no such job takes a new one. -/
theorem enqueue_run {w' : World Daemon} (hscheduler : w'.st.scheduler = w.st.scheduler)
    (hid : j ≠ 0) (hwaiting : j ∉ w.st.scheduler.waitingJobIds)
    (hslot : j ∉ w.st.scheduler.activeJobIds) :
    inScheduler (fun s => do return ((), ← s.enqueue j)) w' =
      (.ok (), w'.put { w'.st with scheduler := { w.st.scheduler with
        waitingJobIds := insert j w.st.scheduler.waitingJobIds
        waitingJobs := w.st.scheduler.waitingJobs ++ [j] } }) := by
  have henqueue : w.st.scheduler.enqueue j = .ok { w.st.scheduler with
      waitingJobIds := insert j w.st.scheduler.waitingJobIds
      waitingJobs := w.st.scheduler.waitingJobs ++ [j] } := by
    unfold JobScheduler.enqueue
    rw [if_neg hid, if_neg (by rw [not_or]; exact ⟨hwaiting, hslot⟩)]
  refine inScheduler_run ?_
  rw [hscheduler, henqueue]
  rfl

/-- The next id belongs to no job, and so neither waits nor holds a slot. -/
theorem Sound.fresh (h : Sound n ⟨w, due⟩) (hid : w.st.nextJobId ≠ 0) :
    w.st.jobs.find w.st.nextJobId = none ∧
      w.st.nextJobId ∉ w.st.scheduler.waitingJobIds ∧
      w.st.nextJobId ∉ w.st.scheduler.activeJobIds := by
  have hunknown : w.st.stateOf w.st.nextJobId = none := by
    rw [← Option.not_isSome_iff_eq_none, h.slots.known]
    unfold idLimit
    rw [if_neg hid]
    exact fun hlt => lt_irrefl _ hlt.2
  have hnew : w.st.jobs.find w.st.nextJobId = none := Option.map_eq_none_iff.mp hunknown
  refine ⟨hnew, ?_, ?_⟩
  · rw [h.slots.waitingIds, h.slots.waiting, hunknown]
    simp
  · rw [h.slots.slots, hunknown]
    rintro (⟨s, hs, -⟩ | hnotified)
    · cases hs
    · obtain ⟨job, hjob, -⟩ := h.wf.notified _ hnotified
      rw [show w.st.monitor.jobs.find w.st.nextJobId = none from hnew] at hjob
      cases hjob

theorem submitJob_spec (h : Sound n ⟨w, []⟩) (request : Bytes) :
    wp (submitJob K request) (Submitted K request w) w := by
  unfold submitJob
  refine wp_bind (wp_ofExcept (Q := fun r w' => r = decodeSubmitRequest request ∧ w' = w)
    ⟨rfl, rfl⟩) (fun spec w1 hw1 => ?_) fun e w1 hw1 => hw1.2 ▸ .refused
  obtain ⟨hdecode, rfl⟩ := hw1
  refine wp_bind (wp_ofExcept (Q := fun r w' => r = validateJobSpec spec ∧ w' = w1) ⟨rfl, rfl⟩)
    (fun _ w2 hw2 => ?_) fun e w2 hw2 => hw2.2 ▸ .refused
  obtain ⟨hvalid, rfl⟩ := hw2
  have htimeout := ((validateJobSpec_ok_iff spec).mp hvalid.symm).2.2
  refine wp_bind_ok (state_run w2) ?_
  by_cases hid : w2.st.nextJobId = 0
  · simp only [hid, if_true]
    exact wp_throw .refused
  simp only [hid, if_false]
  obtain ⟨hnew, hwaiting, hslot⟩ := h.fresh hid
  rw [hnew]
  simp only
  refine wp_bind_ok (inMonitor_run (update_run _ _)) (wp_bind_ok (emit_run _ _) ?_)
  have henqueue := fun (w3 : World Daemon) (hw3 : w3.st.scheduler = w2.st.scheduler) =>
    enqueue_run hw3 hid hwaiting hslot
  refine wp_bind_ok (tryCatch_of_ok (henqueue _ rfl)) (wp_bind_ok (update_run _ _) ?_)
  have hstep : Step K (.submit w2.st.nextJobId) ⟨w2, []⟩ ⟨submittedWorld w2 spec, []⟩ :=
    Step.submit hid hnew htimeout
  change wp _ _ (submittedWorld w2 spec)
  refine wp_bind (pumpScheduler_spec (hstep.sound h)) (fun _ w3 h3 => wp_pure ?_) fun e w3 h3 => ?_
  · refine .added hdecode.symm hid hstep h3.walk (fun response hr => ?_) (fun _ hr => by cases hr)
      fun _ => h3.noIdle rfl
    exact (Except.ok.inj hr).symm
  · -- the pump had a slot to fill, so the queue held the new job only
    refine .added hdecode.symm hid hstep h3.walk (fun _ hr => by cases hr)
      (fun what hr => h3.notInvalid what (by cases hr; rfl)) fun hidle => ?_
    obtain ⟨hfree, hless⟩ := h3.shorter e rfl
    have hempty : w2.st.scheduler.waitingJobs = [] :=
      hidle.resolve_right fun hfull => hfree (Or.inr hfull)
    left
    have hlength : w3.st.scheduler.waitingJobs.length <
        (w2.st.scheduler.waitingJobs ++ [w2.st.nextJobId]).length := hless
    rw [hempty] at hlength
    exact List.length_eq_zero_iff.mp (Nat.lt_one_iff.mp hlength)

/-- Events of the client protocol. -/
def parleyEvent : Event → Bool
  | .submitted _ | .asked _ _ | .answered _ _ _ => true
  | _ => false

theorem submission_append {log events : List Event} (h : ∀ e ∈ events, parleyEvent e = false) :
    submission (log ++ events) = submission log := by
  induction events generalizing log with
  | nil => rw [List.append_nil]
  | cons e events ih =>
    obtain ⟨he, hrest⟩ := List.forall_mem_cons.mp h
    have hone : submission (log ++ [e]) = submission log := by
      unfold submission
      rw [List.foldl_append]
      cases e <;> first | rfl | cases he
    have htail := @ih (log ++ [e]) hrest
    rwa [List.append_assoc, List.singleton_append, hone] at htail

/-- Events that only the main loop writes. -/
def loopEvent : Event → Bool
  | .dispatching _ | .connected _ _ | .modified _ _ | .sent _ _ | .asked _ _
  | .answered _ _ _ => true
  | _ => false

theorem loopEvent_of_isLaunch {e : Event} (h : e.isLaunch) : loopEvent e = false := by
  cases e <;> first | rfl | cases h

theorem loopEvent_of_choreEvent {e : Event} (h : choreEvent e) : loopEvent e = false := by
  cases e <;> first | rfl | cases h

/-- The monitor writes nothing of what the main loop writes, and notes a new job where one is
submitted to it. -/
theorem loopEvent_of_monitorStep {v v' : World ProcessMonitor} {l : ProcessMonitor.Label}
    (hstep : ProcessMonitor.Step K l v v') :
    ∃ events, v'.log = v.log ++ events ∧
      ∀ e ∈ events, loopEvent e = false ∧ ∀ j, e = .submitted j → l = .submit j := by
  have hlaunch : ∀ {events : List Event}, (∀ e ∈ events, e.isLaunch) →
      ∀ e ∈ events, loopEvent e = false ∧ ∀ j, e = .submitted j → l = .submit j := fun h e he =>
    ⟨loopEvent_of_isLaunch (h e he), fun j hj => by
      have hlaunched := h e he
      rw [hj] at hlaunched
      cases hlaunched⟩
  cases hstep with
  | @idle _ e he =>
    refine ⟨[e], rfl, List.forall_mem_singleton.mpr ?_⟩
    cases e with
    | called | groupGone => exact ⟨rfl, by simp⟩
    | _ => cases he
  | receive | finish | exited | stray | lost | settle | misuse | misstart | terminate | kill
    | dequeue | submit => exact ⟨_, rfl, by simp [loopEvent]⟩
  | garble | collect => exact ⟨[], (List.append_nil _).symm, by simp⟩
  | launchFailed hjob hqueued hevents =>
    refine ⟨_, rfl, List.forall_mem_cons.mpr ⟨⟨rfl, by simp⟩, List.forall_mem_append.mpr ⟨?_, ?_⟩⟩⟩
    · exact hlaunch hevents.isLaunch
    · simp [loopEvent]
  | @abandoned _ j job events rest tracked launched message hjob hqueued hevents hrest =>
    refine ⟨_, rfl, List.forall_mem_cons.mpr ⟨⟨rfl, by simp⟩, List.forall_mem_append.mpr ⟨?_, ?_⟩⟩⟩
    · exact hlaunch hevents.isLaunch
    · refine List.forall_mem_cons.mpr ⟨⟨rfl, by simp⟩, List.forall_mem_append.mpr ⟨?_, ?_⟩⟩
      · exact fun e he => hlaunch hrest.isLaunch e (List.mem_append_right events he)
      · simp [loopEvent]
  | started hjob hqueued hevents =>
    refine ⟨_, rfl, List.forall_mem_cons.mpr ⟨⟨rfl, by simp⟩, List.forall_mem_append.mpr ⟨?_, ?_⟩⟩⟩
    · exact hlaunch hevents.isLaunch
    · simp [loopEvent]

/-- The monitor has no part in the client protocol. -/
theorem parley_of_monitorStep {v v' : World ProcessMonitor} {l : ProcessMonitor.Label}
    (hstep : ProcessMonitor.Step K l v v') (hl : ∀ j, l ≠ .submit j) :
    ∃ events, v'.log = v.log ++ events ∧ ∀ e ∈ events, parleyEvent e = false := by
  obtain ⟨events, hlog, hquiet⟩ := loopEvent_of_monitorStep hstep
  refine ⟨events, hlog, fun e he => ?_⟩
  obtain ⟨hloop, hsubmitted⟩ := hquiet e he
  cases e with
  | submitted j => exact absurd (hsubmitted j rfl) (hl j)
  | asked | answered => cases hloop
  | _ => rfl

/-- Starting jobs submits none. -/
theorem submission_of_starts (hwalk : Walk (Step K) {l | l.starts} ⟨w, due⟩ ⟨w', rest⟩) :
    submission w'.log = submission w.log := by
  have key := hwalk.invariant (P := fun m => submission m.world.log = submission w.log) ?_ rfl
  · exact key
  · intro l hl a b hstep ha
    cases hstep with
    | @misfire w due v j rest l hlabel hslot hwaiting hstep =>
      obtain ⟨events, hlog, hquiet⟩ := parley_of_monitorStep hstep fun k hk => by
        obtain rfl | rfl := hlabel <;> cases hk
      refine Eq.trans ?_ ha
      show submission v.log = _
      rw [hlog]
      exact submission_append hquiet
    | @run w v j rest job timeouts events hslot hwaiting hstep hjob htimed hevents =>
      obtain ⟨more, hlog, hquiet⟩ := parley_of_monitorStep hstep (by simp)
      refine Eq.trans ?_ ha
      show submission (v.log ++ events) = _
      have hchores : ∀ e ∈ events, parleyEvent e = false := fun e he => by
        have hchore := hevents e he
        cases e <;> first | rfl | cases hchore
      rw [submission_append hchores, hlog]
      exact submission_append hquiet
    | _ => cases hl

/-- A request that is neither a CANCEL nor a SUBMIT is promised nothing. -/
theorem truthful_of_not {log : List Event} {request : Bytes}
    (hcancel : ¬ isCancelRequest request) (hsubmit : ¬ isSubmitRequest request)
    (response : Bytes) : Truthful log request response where
  cancelled _ _ hj := absurd (isCancelRequest_of_decode hj) hcancel
  submitted hs := absurd hs hsubmit

/-- What a request does, and that the response is truthful. -/
def Responded (K : Kernel) (request : Bytes) (w w' : World Daemon)
    (r : Except Exception Bytes) : Prop :=
  Requested K w w' ∧ ∀ response, r = .ok response → Truthful w'.log request response

theorem cancelRequest_spec (h : Sound n ⟨w, []⟩) {request : Bytes}
    (hcancel : isCancelRequest request) :
    wp (answeringInvalidArgument do
        let jobId ← ofExcept (decodeCancelRequest request)
        cancelJob K jobId) (fun r w' => Responded K request w w' r) w := by
  have hnot : ¬ isSubmitRequest request := fun hsubmit =>
    absurd (startsWith_inj hcancel hsubmit (by decide)) (by decide)
  refine answeringInvalidArgument_spec ?_
  refine wp_bind (wp_ofExcept (Q := fun r w' => r = decodeCancelRequest request ∧ w' = w)
    ⟨rfl, rfl⟩) (fun k w1 hw1 => ?_) fun e w1 hw1 => ?_
  · obtain ⟨hk, rfl⟩ := hw1
    refine wp_mono (cancelJob_spec h k) fun r w' ⟨hwalk, hcancelled⟩ => ?_
    refine ⟨⟨Requested.of_cancels hwalk, fun response hr => ?_⟩,
      fun what _ => ⟨Requested.of_cancels hwalk, fun response hr => ?_⟩⟩
    · refine ⟨fun heq j hj => ?_, fun hsubmit => absurd hsubmit hnot⟩
      rw [← hk] at hj
      obtain rfl := Except.ok.inj hj
      exact hcancelled (hr.trans (congrArg _ heq))
    · refine ⟨fun heq => ?_, fun hsubmit => absurd hsubmit hnot⟩
      have hhead := congrArg List.head? ((Except.ok.inj hr).trans heq)
      simp [text] at hhead
  · obtain ⟨he, rfl⟩ := hw1
    have hnone : ∀ response, Truthful w1.log request response := by
      refine fun response => ⟨fun _ j hj => ?_, fun hsubmit => absurd hsubmit hnot⟩
      rw [hj] at he
      cases he
    exact ⟨⟨Requested.refl K w1, fun response _ => hnone response⟩,
      fun _ _ => ⟨Requested.refl K w1, fun response _ => hnone response⟩⟩

theorem submitRequest_spec (h : Sound n ⟨w, []⟩) {request : Bytes}
    (hcancel : ¬ isCancelRequest request) :
    wp (answeringInvalidArgument (submitJob K request))
      (fun r w' => Responded K request w w' r) w := by
  have hnone : ∀ {log j}, decodeCancelRequest request = .ok j → CancelledWhileQueued log j :=
    fun hj => absurd (isCancelRequest_of_decode hj) hcancel
  refine answeringInvalidArgument_spec (wp_mono (submitJob_spec h request) fun r w' hs => ?_)
  refine ⟨⟨hs.requested, fun response hr => ⟨fun _ _ hj => hnone hj, fun _ j hj => ?_⟩⟩,
    fun what hr => ⟨hs.requested, fun response hr' => ⟨fun _ _ hj => hnone hj, fun _ j hj => ?_⟩⟩⟩
  · cases hs with
    | refused => cases hr
    | added hdecode hid hstep hwalk hresponse hinvalid hidle =>
      rw [submission_of_starts hwalk]
      have hsame := List.append_cancel_left ((hresponse response hr).symm.trans hj)
      rw [← decimal_injective hsame]
      exact List.foldl_append
  · have hhead := congrArg List.head? ((Except.ok.inj hr').trans hj)
    simp [text, acknowledgement] at hhead

theorem handleRequest_spec (h : Sound n ⟨w, []⟩) (request : Bytes) :
    wp (handleRequest K request) (fun r w' => Responded K request w w' r) w := by
  have hsame : (∀ response, Truthful w.log request response) →
      ∀ r, Responded K request w w r := fun htruthful r =>
    ⟨Requested.refl K w, fun response _ => htruthful response⟩
  unfold handleRequest
  split_ifs with hping hlist hstatus hcancel hsubmit
  · exact wp_pure (hsame (truthful_of_not (by rw [hping]; decide) (by rw [hping]; decide)) _)
  · obtain ⟨response, hresponse⟩ := makeListResponse_ok w.st.jobs
    refine wp_bind_ok (state_run w) (wp_of_run (raising_run_ok hresponse w) ?_)
    exact hsame (truthful_of_not (by rw [hlist]; decide) (by rw [hlist]; decide)) _
  · have hall := hsame (truthful_of_not
      (fun hcancel => absurd (startsWith_inj hstatus hcancel (by decide)) (by decide))
      fun hsubmit => absurd (startsWith_inj hstatus hsubmit (by decide)) (by decide))
    refine answeringInvalidArgument_spec ?_
    refine wp_bind (wp_ofExcept (Q := fun _ w' => w' = w) rfl) (fun k w1 hw1 => ?_)
      fun e w1 hw1 => ?_
    · subst hw1
      refine wp_bind_ok (state_run w1) ?_
      cases w1.st.jobs.find k with
      | none => exact wp_pure ⟨hall _, fun _ hr => by cases hr⟩
      | some job => exact wp_pure ⟨hall _, fun _ hr => by cases hr⟩
    · subst hw1
      exact ⟨hall _, fun _ _ => hall _⟩
  · exact cancelRequest_spec h hcancel
  · exact wp_pure (hsame (truthful_of_not hcancel (by rw [hsubmit]; simp)) _)
  · exact submitRequest_spec h hcancel

/-! ## The listener -/

/-- What accepting clients can bring about. -/
def Label.admits : Label → Bool
  | .attend | .take _ | .accept _ | .refuse _ => true
  | _ => false

theorem setNonBlocking_run (fd : Fd) (w : World Daemon) :
    ∃ r events, setNonBlocking K fd w = (r, ⟨w.st, w.log ++ events⟩) ∧
      ∀ e ∈ events, choreEvent e := by
  have htwice : (w.emit (.called .fcntl)).emit (.called .fcntl) =
      ⟨w.st, w.log ++ [.called .fcntl, .called .fcntl]⟩ := by simp [World.emit]
  unfold setNonBlocking
  rw [bind_of_ok (fcntlOn_run K w fd)]
  cases K.fcntl w.log fd with
  | error e => exact ⟨_, [.called .fcntl], rfl, by simp [choreEvent]⟩
  | ok _ =>
    simp only
    rw [bind_of_ok (fcntlOn_run K _ fd), htwice]
    cases K.fcntl (w.emit (.called .fcntl)).log fd with
    | error e => exact ⟨_, [.called .fcntl, .called .fcntl], rfl, by simp [choreEvent]⟩
    | ok _ => exact ⟨_, [.called .fcntl, .called .fcntl], rfl, by simp [choreEvent]⟩

/-- One client, taken in or turned away. -/
theorem acceptClient_spec {m : Prog Daemon Unit} {clientFd : Fd}
    (hm : (∃ events, m (w.emit (.opened clientFd)) =
        (.ok (), ⟨{ w.st with connections := w.st.connections.set clientFd {} },
          w.log ++ .opened clientFd ::
            (events ++ [.connected clientFd { epollin := true, epollrdhup := true }])⟩) ∧
        w.st.connections.find clientFd = none ∧ ∀ e ∈ events, choreEvent e) ∨
      ∃ e events connections, m (w.emit (.opened clientFd)) =
        (.error e, ⟨{ w.st with connections }, w.log ++ .opened clientFd :: events⟩) ∧
        (∀ e ∈ events, choreEvent e) ∧
        connections.del clientFd = w.st.connections.del clientFd) :
    wp (onFailure m (do
        update fun d => { d with connections := d.connections.del clientFd }
        close clientFd))
      (fun _ w' => Walk (Step K) {l | l.admits} ⟨w, []⟩ ⟨w', []⟩) (w.emit (.opened clientFd)) := by
  obtain ⟨events, hrun, hnew, hevents⟩ | ⟨e, events, connections, hrun, hevents, herror⟩ := hm
  · exact wp_of_run (tryCatch_of_ok hrun) (Walk.single rfl (Step.accept hnew hevents))
  · refine wp_tryCatch_error hrun ?_
    refine wp_bind_ok (bind_of_ok (update_run _ _)) (wp_throw ?_)
    have hrefuse : Step K (.refuse clientFd) ⟨w, []⟩ _ := Step.refuse hevents
    rw [← herror] at hrefuse
    refine Walk.single (by rfl) (?_ : Step K (.refuse clientFd) _ _)
    convert hrefuse using 2
    simp [World.emit, World.put]

theorem acceptLoop_spec (accepts : Accepts) (h : Sound n ⟨w, []⟩) :
    wp (acceptLoop K accepts)
      (fun _ w' => Walk (Step K) {l | l.admits} ⟨w, []⟩ ⟨w', []⟩) w := by
  induction accepts generalizing w with
  | client clientFd rest ih =>
    refine wp_bind_ok (emit_run w _) ?_
    refine wp_bind (acceptClient_spec (K := K) ?_) (fun _ w1 h1 => ?_) fun _ _ h => h
    · obtain ⟨r, events, hrun, hevents⟩ := setNonBlocking_run (K := K) clientFd
        (w.emit (.opened clientFd))
      have hlog : (w.emit (.opened clientFd)).log ++ events =
          w.log ++ .opened clientFd :: events := by simp
      rw [hlog] at hrun
      cases r with
      | error e => exact Or.inr ⟨e, events, w.st.connections, bind_of_error hrun, hevents, rfl⟩
      | ok _ =>
      rw [bind_of_ok hrun, bind_of_ok (state_run _)]
      simp only
      cases hfind : w.st.connections.find clientFd with
      | some connection =>
        rw [show (w.emit (.opened clientFd)).st.connections.find clientFd = some connection
          from hfind]
        exact Or.inr ⟨.runtimeError (text "client fd already exists"), events, w.st.connections, rfl,
          hevents, rfl⟩
      | none =>
        rw [show (w.emit (.opened clientFd)).st.connections.find clientFd = none from hfind]
        simp only
        rw [bind_of_ok (update_run _ _)]
        obtain ⟨e, hadd⟩ | hadd := epollAdd_run K (World.put
          (⟨(w.emit (.opened clientFd)).st, w.log ++ .opened clientFd :: events⟩ : World Daemon)
          { w.st with connections := w.st.connections.set clientFd {} }) clientFd
          { epollin := true, epollrdhup := true }
        · refine Or.inr ⟨.runtimeError (text "add client to epoll failed"),
            events ++ [.called .epollCtl], w.st.connections.set clientFd {}, ?_, ?_,
            Table.del_set _ _ _⟩
          · refine (bind_of_ok hadd).trans ?_
            simp [World.emit, World.put]
          · exact List.forall_mem_append.mpr ⟨hevents, by simp [choreEvent]⟩
        · refine Or.inl ⟨events ++ [.registered clientFd { epollin := true, epollrdhup := true }], ?_,
            trivial, ?_⟩
          · refine (bind_of_ok hadd).trans ?_
            simp [World.emit, World.put]
          · exact List.forall_mem_append.mpr ⟨hevents, by simp [choreEvent]⟩
    · exact wp_mono (ih (sound_of_walk h1 h)) fun _ _ h2 => h1.trans h2
  | interrupted rest ih => exact ih h
  | again => exact Walk.single rfl (Step.attend (by simp [choreEvent]))
  | failed e => exact Walk.single rfl (Step.attend (by simp [choreEvent]))

/-- What a new client is watched for. -/
def clientMask : EventMask := { epollin := true, epollrdhup := true }

/-- The `try` block of `acceptClients`. -/
def acceptClient (K : Kernel) (clientFd : Fd) : Prog Daemon Unit := do
  setNonBlocking K clientFd
  let d ← state
  match d.connections.find clientFd with
  | some _ => throw (.runtimeError (text "client fd already exists"))
  | none => do
    update fun d => { d with connections := d.connections.set clientFd {} }
    match ← K.epollAdd clientFd clientMask with
    | .ok _ => emit (.connected clientFd clientMask)
    | .error _ => throw (.runtimeError (text "add client to epoll failed"))

theorem acceptLoop_cons (K : Kernel) (clientFd : Fd) (rest : Accepts) :
    acceptLoop K (.client clientFd rest) = (do
      emit (.opened clientFd)
      onFailure (acceptClient K clientFd) (do
        update fun d => { d with connections := d.connections.del clientFd }
        close clientFd)
      acceptLoop K rest) := rfl

/-- The world in which a client has been taken in. -/
def acceptedWorld (w : World Daemon) (fd : Fd) : World Daemon :=
  ⟨{ w.st with connections := w.st.connections.set fd {} },
    w.log ++ [.opened fd, .called .fcntl, .called .fcntl, .registered fd clientMask,
      .connected fd clientMask]⟩

/-- The answers of the kernel with which a client is taken in. -/
structure Admits (K : Kernel) (w : World Daemon) (fd : Fd) : Prop where
  getFlags : K.fcntl (w.log ++ [.opened fd]) fd = .ok ()
  setFlags : K.fcntl (w.log ++ [.opened fd, .called .fcntl]) fd = .ok ()
  free : w.st.connections.find fd = none
  watched : K.epollCtl (w.log ++ [.opened fd, .called .fcntl, .called .fcntl]) fd = .ok ()

theorem acceptClient_run (K : Kernel) (w : World Daemon) (fd : Fd) :
    Admits K w fd ∧ acceptClient K fd (w.emit (.opened fd)) = (.ok (), acceptedWorld w fd) ∨
      ¬ Admits K w fd ∧ ∃ e v, acceptClient K fd (w.emit (.opened fd)) = (.error e, v) := by
  have hlog : (w.emit (.opened fd)).log = w.log ++ [.opened fd] := rfl
  have htwice : ((w.emit (.opened fd)).emit (.called .fcntl)).log =
      w.log ++ [.opened fd, .called .fcntl] := by simp
  have hthrice : (((w.emit (.opened fd)).emit (.called .fcntl)).emit (.called .fcntl)).log =
      w.log ++ [.opened fd, .called .fcntl, .called .fcntl] := by simp
  have hget := @fcntlOn_run Daemon K (w.emit (.opened fd)) fd
  have hset := @fcntlOn_run Daemon K ((w.emit (.opened fd)).emit (.called .fcntl)) fd
  unfold acceptClient setNonBlocking
  cases hflags : K.fcntl (w.log ++ [.opened fd]) fd with
  | error e =>
    rw [hlog, hflags] at hget
    refine Or.inr ⟨fun h => ?_, _, _, bind_of_error (bind_of_ok hget)⟩
    exact absurd (hflags.symm.trans h.getFlags) (by simp)
  | ok _ =>
  rw [hlog, hflags] at hget
  cases hflags' : K.fcntl (w.log ++ [.opened fd, .called .fcntl]) fd with
  | error e =>
    rw [htwice, hflags'] at hset
    refine Or.inr ⟨fun h => ?_, _, _, bind_of_error ((bind_of_ok hget).trans (bind_of_ok hset))⟩
    exact absurd (hflags'.symm.trans h.setFlags) (by simp)
  | ok _ =>
  rw [htwice, hflags'] at hset
  rw [bind_of_ok ((bind_of_ok hget).trans (bind_of_ok hset)), bind_of_ok (state_run _)]
  set w1 := ((w.emit (.opened fd)).emit (.called .fcntl)).emit (.called .fcntl) with hw1
  cases hfree : w.st.connections.find fd with
  | some c =>
    have hfree1 : w1.st.connections.find fd = some c := hfree
    rw [hfree1]
    exact Or.inr ⟨fun h => absurd (hfree.symm.trans h.free) (by simp), _, w1, rfl⟩
  | none =>
  have hfree1 : w1.st.connections.find fd = none := hfree
  rw [hfree1]
  simp only
  rw [bind_of_ok (update_run _ _)]
  set w2 := w1.put { w1.st with connections := w1.st.connections.set fd {} } with hw2
  have hlog2 : w2.log = w.log ++ [.opened fd, .called .fcntl, .called .fcntl] := hthrice
  have hadd : K.epollAdd fd clientMask w2 = match K.epollCtl w2.log fd with
    | .ok _ => (.ok (.ok ()), w2.emit (.registered fd clientMask))
    | .error e => (.ok (.error e), w2.emit (.called .epollCtl)) := rfl
  rw [hlog2] at hadd
  cases hctl : K.epollCtl (w.log ++ [.opened fd, .called .fcntl, .called .fcntl]) fd with
  | error e =>
    rw [hctl] at hadd
    refine Or.inr ⟨fun h => absurd (hctl.symm.trans h.watched) (by simp),
      .runtimeError (text "add client to epoll failed"), w2.emit (.called .epollCtl), ?_⟩
    exact bind_of_ok hadd
  | ok _ =>
    rw [hctl] at hadd
    refine Or.inl ⟨⟨hflags, hflags', hfree, hctl⟩, (bind_of_ok hadd).trans ?_⟩
    simp [acceptedWorld, World.emit, World.put, hw1, hw2]

/-- A client is taken in where the kernel goes along; otherwise an exception leaves the loop. -/
theorem acceptLoop_client (K : Kernel) (fd : Fd) (rest : Accepts) (w : World Daemon) :
    Admits K w fd ∧ acceptLoop K (.client fd rest) w = acceptLoop K rest (acceptedWorld w fd) ∨
      ¬ Admits K w fd ∧ ∃ e w', acceptLoop K (.client fd rest) w = (.error e, w') := by
  rw [acceptLoop_cons]
  apply (acceptClient_run K w fd).imp
  · rintro ⟨hadmits, hrun⟩
    exact ⟨hadmits, (bind_of_ok (emit_run w _)).trans (bind_of_ok (tryCatch_of_ok hrun))⟩
  · rintro ⟨hnot, e, v, hrun⟩
    have hcatch := (tryCatch_of_error (h := fun e => do
      (do
        update fun d => { d with connections := d.connections.del fd }
        close fd)
      throw e) hrun).trans (bind_of_ok (bind_of_ok (update_run v _)))
    exact ⟨hnot, e, _, (bind_of_ok (emit_run w _)).trans (bind_of_error hcatch)⟩

/-- Where the loop returns, the connections there were are there still. -/
theorem acceptLoop_keeps (accepts : Accepts) (hrun : acceptLoop K accepts w = (.ok (), w')) {fd : Fd}
    {c : Connection} (hfind : w.st.connections.find fd = some c) :
    w'.st.connections.find fd = some c := by
  induction accepts generalizing w with
  | client clientFd rest ih =>
    rcases acceptLoop_client K clientFd rest w with ⟨hadmits, hnext⟩ | ⟨-, e, v, hthrow⟩
    · have hne : fd ≠ clientFd := by
        rintro rfl
        exact absurd (hadmits.free.symm.trans hfind) (by simp)
      exact ih (hnext.symm.trans hrun) ((Table.find_set_of_ne _ _ hne).trans hfind)
    · exact absurd (hthrow.symm.trans hrun) (by simp)
  | interrupted rest ih => exact ih hrun hfind
  | again =>
    obtain rfl : w.emit (.called .accept4) = w' := congrArg Prod.snd hrun
    exact hfind
  | failed e => cases hrun

/-! ## Deadlines that have come -/

/-- A round of the loop of `handleDeadlineEvent`, and the rest of it. -/
theorem deadlineLoop_cons (j : JobId) (rest : List JobId) :
    deadlineLoop K (j :: rest) = (do deadlineLoop K [j]; deadlineLoop K rest) := by
  have hnil : deadlineLoop K [] = pure () := rfl
  rw [deadlineLoop.eq_2 K j rest, deadlineLoop.eq_2 K j [], bind_bind, hnil]
  apply congrArg
  funext d
  cases d.jobs.find j with
  | none => rfl
  | some job =>
    simp only
    cases job.state with
    | running =>
      simp only
      rw [bind_bind]
      apply congrArg
      funext requested
      cases requested with
      | false => rfl
      | true =>
        simp only [Bool.true_eq_false, if_false]
        rw [bind_bind]
        rfl
    | terminating =>
      simp only
      rw [bind_bind]
      rfl
    | _ => rfl

/-- One round: the job that is due is seen to, unless a call throws. -/
theorem deadlineRound_spec (h : Sound n ⟨w, j :: rest⟩) :
    wp (deadlineLoop K [j]) (fun r w' => ∃ due',
      Walk (Step K) {l | l.strikes} ⟨w, j :: rest⟩ ⟨w', due'⟩ ∧ (r = .ok () → due' = rest)) w := by
  have hstop : ∀ {w' due'} (e : Exception), Walk (Step K) {l | l.strikes} ⟨w, j :: rest⟩ ⟨w', due'⟩ →
      ∃ due', Walk (Step K) {l | l.strikes} ⟨w, j :: rest⟩ ⟨w', due'⟩ ∧
        ((.error e : Except Exception Unit) = .ok () → due' = rest) :=
    fun e hwalk => ⟨_, hwalk, fun hr => by cases hr⟩
  have hnext : ∀ w1, Walk (Step K) {l | l.strikes} ⟨w, j :: rest⟩ ⟨w1, rest⟩ →
      wp (deadlineLoop K []) (fun r w' => ∃ due',
        Walk (Step K) {l | l.strikes} ⟨w, j :: rest⟩ ⟨w', due'⟩ ∧ (r = .ok () → due' = rest)) w1 :=
    fun _ hwalk => wp_pure ⟨rest, hwalk, fun _ => rfl⟩
  unfold deadlineLoop
  refine wp_bind_ok (state_run w) ?_
  obtain ⟨job, hjob, hqueued⟩ := h.timed.offQueue j (Or.inr List.mem_cons_self)
  rw [hjob]
  have hskip : job.state ≠ .running → wp (deadlineLoop K []) (fun r w' => ∃ due',
      Walk (Step K) {l | l.strikes} ⟨w, j :: rest⟩ ⟨w', due'⟩ ∧ (r = .ok () → due' = rest)) w := by
    intro hnot
    refine hnext w (Walk.single rfl (Step.skip fun job' hjob' => ?_))
    rw [hjob] at hjob'
    exact Option.some.inj hjob' ▸ hnot
  simp only
  cases hstate : job.state with
  | running =>
    have hrequest := ProcessMonitor.requestTerminate_spec (K := K) (w := monitorWorld w) h.wf hjob
      hstate .timedOut
    rcases hrun : ProcessMonitor.requestTerminate K j .timedOut (monitorWorld w) with ⟨r, v⟩
    have hrequested := wp_run hrequest hrun
    obtain ⟨p, hactive⟩ := (h.wf.active_iff hjob).mpr (by rw [hstate]; rfl)
    have hwalk := ProcessMonitor.looked_walk (K := K) (w := monitorWorld w) h.wf hactive
    set v1 := ProcessMonitor.looked K j (monitorWorld w)
    have hwatch : Walk (Step K) {l | l.strikes} ⟨w, j :: rest⟩ ⟨withMonitor w v1, j :: rest⟩ :=
      (walk_watch (ProcessMonitor.polls_le_watches j) hwalk).mono watch_le_strikes
    have hrun := inMonitor_run hrun
    cases hrequested with
    | terminated hstep =>
      obtain ⟨hterminate, hdeadline⟩ := terminated_due (sound_of_walk hwatch h)
        (Or.inl ⟨rfl, rfl⟩) (w := withMonitor w v1) hstep
      refine wp_bind_ok hrun (wp_bind hdeadline (fun _ w' hwalk => ?_) fun e w' hwalk => ?_)
      · exact hnext w' ((hwatch.tail rfl hterminate).trans (hwalk.mono escalates_le_strikes))
      · exact hstop e ((hwatch.tail rfl hterminate).trans (hwalk.mono escalates_le_strikes))
    | settled heq hjob' hterm =>
      subst heq
      refine wp_bind_ok hrun (hnext _ (hwatch.tail rfl (Step.skip fun job'' hjob'' => ?_)))
      have hjob'' : v1.st.jobs.find j = some job'' := hjob''
      rw [hjob'] at hjob''
      exact Option.some.inj hjob'' ▸ ne_of_isTerminal hterm rfl
    | groupGone heq hactive hjob' hrunning =>
      subst heq
      exact wp_bind_ok hrun (hnext _ (hwatch.tail rfl (Step.spare (w := withMonitor w v1))))
    | failed heq =>
      subst heq
      exact wp_of_run (bind_of_error hrun) (hstop _ hwatch)
    | refused heq =>
      subst heq
      have hidle : Step K .watch ⟨withMonitor w v1, j :: rest⟩ _ :=
        Step.watch (w := withMonitor w v1) rfl (.idle (e := .called .kill) rfl)
      exact wp_of_run (bind_of_error hrun) (hstop _ (hwatch.tail rfl hidle))
  | terminating =>
    refine wp_bind (forceKill_due h hjob hstate) (fun _ w1 hwalk => ?_) fun e w1 hwalk => ?_
    · exact hnext w1 (hwalk.mono escalates_le_strikes)
    · exact hstop e (hwalk.mono escalates_le_strikes)
  | queued => exact absurd hstate hqueued
  | succeeded => exact hskip (by rw [hstate]; simp)
  | failed => exact hskip (by rw [hstate]; simp)
  | cancelled => exact hskip (by rw [hstate]; simp)
  | timedOut => exact hskip (by rw [hstate]; simp)
  | interrupted => exact hskip (by rw [hstate]; simp)

/-- The loop of `handleDeadlineEvent`: every job that is due is seen to, unless a call throws. -/
theorem deadlineLoop_spec (due : List JobId) (h : Sound n ⟨w, due⟩) :
    wp (deadlineLoop K due) (fun r w' => ∃ due',
      Walk (Step K) {l | l.strikes} ⟨w, due⟩ ⟨w', due'⟩ ∧ (r = .ok () → due' = [])) w := by
  induction due generalizing w with
  | nil => exact wp_pure ⟨[], Walk.refl, fun _ => rfl⟩
  | cons j rest ih =>
    rw [deadlineLoop_cons]
    refine wp_bind (deadlineRound_spec h) (fun _ w1 h1 => ?_) fun e w1 h1 => ?_
    · obtain ⟨due1, hwalk, hok⟩ := h1
      obtain rfl := hok rfl
      refine wp_mono (ih (sound_of_walk hwalk h)) fun r w' h' => ?_
      obtain ⟨due', hwalk', hok'⟩ := h'
      exact ⟨due', hwalk.trans hwalk', hok'⟩
    · obtain ⟨due1, hwalk, -⟩ := h1
      exact ⟨due1, hwalk, fun hr => by cases hr⟩

end Daemon

end Runnerd
