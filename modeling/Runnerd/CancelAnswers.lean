import Runnerd.JobRecords
import Runnerd.SignalAtomicity
import Runnerd.StartOrder

/-!
# What the answers to CANCEL say

An answer to CANCEL says what has been done and, where it is `OK`, what will become of the job: a
queued job is never started, a running one can only end as cancelled.
-/

namespace Runnerd

open Effect Effect.Prog Steps

namespace Daemon

open ProcessMonitor (KillEnds TerminateEnds delivered delivered_append finalState forceKill_ends
  requestTerminate_ends requestTerminate_wf seen settledJob settles_of_settledJob withOutput)

variable {K : Kernel} {s : Setup} {n : ℕ} {w w' v : World Daemon} {j : JobId} {job : Job}

/-! ## The grace period -/

/-- The response to a CANCEL of a running job. -/
def terminatingResponse : Bytes := text "OK terminating"

/-- The job's deadline, if it had one, is replaced by the end of its grace period. -/
def Graced (K : Kernel) (j : JobId) (w w' : World Daemon) : Prop :=
  w.log <+: w'.log ∧ w'.st.monitor = w.st.monitor ∧ ∀ m, w.st.timeouts.Refines m →
    w'.st.timeouts.Refines (m.schedule j (K.now w.log + kTerminationGracePeriod * 1000000))

/-- The grace period could not be scheduled: the job's deadline is cancelled, and SIGKILL is tried at
once. -/
def Escalated (K : Kernel) (j : JobId) (w w' : World Daemon) : Prop :=
  (∃ log b, w.log <+: log ∧
    ProcessMonitor.forceKill K j ⟨w.st.monitor, log⟩ = (.ok b, monitorWorld w')) ∧
  ∀ m, w.st.timeouts.Refines m → w'.st.timeouts.Refines (m.cancel j)

theorem cancel_schedule (m : DeadlineMap JobId ℤ) (d : ℤ) :
    (m.cancel j).schedule j d = m.schedule j d := Function.update_idem _ _ _

/-- The attempt to kill at once, which returned. -/
theorem escalated_of_run {timeouts : TimeoutManager} {log : List Event} (hlog : w.log <+: log)
    (htimeouts : ∀ m, w.st.timeouts.Refines m → timeouts.Refines (m.cancel j)) :
    wp (do let _ ← inMonitor (ProcessMonitor.forceKill K j))
      (fun r w' => r = .ok () → w'.st.scheduler = w.st.scheduler ∧ Escalated K j w w')
      ⟨{ w.st with timeouts }, log⟩ := by
  rcases hrun : ProcessMonitor.forceKill K j ⟨w.st.monitor, log⟩ with ⟨r, u⟩
  have hkill := inMonitor_run (w := ⟨{ w.st with timeouts }, log⟩) hrun
  cases r with
  | error e => exact wp_of_run (bind_of_error hkill) nofun
  | ok b =>
    refine wp_bind_ok hkill (wp_pure fun _ => ⟨rfl, ⟨log, b, hlog, hrun⟩, htimeouts⟩)

/-- A job that has been sent SIGTERM gets a grace period, or SIGKILL at once. -/
theorem scheduleForceKillDeadline_ends :
    wp (scheduleForceKillDeadline K j) (fun r w' => r = .ok () →
      w'.st.scheduler = w.st.scheduler ∧ (Graced K j w w' ∨ Escalated K j w w')) w := by
  unfold scheduleForceKillDeadline
  refine wp_bind_ok (inTimeouts_run (update_run _ _)) ?_
  obtain hbad | ⟨hgen, e, hrun, -⟩ | ⟨hgen, r, events, hrun, -⟩ :=
    TimeoutManager.schedule_run K ⟨w.st.timeouts.cancel j, w.log⟩ j kTerminationGracePeriod
  · exact absurd hbad (not_le.mpr kTerminationGracePeriod_pos)
  · refine wp_tryCatch_error (inTimeouts_run hrun) ?_
    refine wp_bind_ok (inTimeouts_run (update_run _ _)) ?_
    refine wp_mono (escalated_of_run (w := w) (List.prefix_refl _) fun m hm => ?_)
      fun r w' h hr => (h hr).imp id Or.inr
    have hcancel := (hm.cancel j).cancel j
    rwa [show (m.cancel j).cancel j = m.cancel j from Function.update_idem _ _ _] at hcancel
  · have hinsert : ∀ m, w.st.timeouts.Refines m → ((w.st.timeouts.cancel j).insert j
        (K.now w.log + kTerminationGracePeriod * 1000000)).discardStaleEntries.Refines
          (m.schedule j (K.now w.log + kTerminationGracePeriod * 1000000)) := fun m hm => by
      have hrefines := ((hm.cancel j).insert hgen j
        (K.now w.log + kTerminationGracePeriod * 1000000)).discardStaleEntries
      rwa [cancel_schedule] at hrefines
    cases r with
    | ok _ =>
      exact wp_of_run (tryCatch_of_ok (inTimeouts_run hrun)) fun _ =>
        ⟨rfl, Or.inl ⟨List.prefix_append _ _, rfl, hinsert⟩⟩
    | error e =>
      refine wp_tryCatch_error (inTimeouts_run hrun) ?_
      refine wp_bind_ok (inTimeouts_run (update_run _ _)) ?_
      refine wp_mono (escalated_of_run (w := w) (List.prefix_append _ _) fun m hm => ?_)
        fun r w' h hr => (h hr).imp id Or.inr
      have hcancel := (hinsert m hm).cancel j
      rwa [show (m.schedule j _).cancel j = m.cancel j from Function.update_idem _ _ _] at hcancel

/-! ## Answers -/

/-- SIGTERM was delivered to the process group of the job. -/
def SentTerm (j : JobId) (w w' : World Daemon) : Prop :=
  ∃ events group, w'.log = w.log ++ events ∧ (j, group, .SIGTERM) ∈ delivered events

theorem not_sentTerm {events : List Event} (hlog : w'.log = w.log ++ events)
    (hquiet : delivered events = []) : ¬ SentTerm j w w' := by
  rintro ⟨events', group, hlog', hmem⟩
  obtain rfl : events = events' := List.append_cancel_left (hlog.symm.trans hlog')
  rw [hquiet] at hmem
  cases hmem

/-- Nothing was cancelled. The job is as it was, or settled by what was seen of its process. -/
structure Declined (K : Kernel) (j : JobId) (w w' : World Daemon) : Prop where
  scheduler : w'.st.scheduler = w.st.scheduler
  timeouts : w'.st.timeouts = w.st.timeouts
  unknown : w.st.jobs.find j = none → w'.st.jobs.find j = none
  job : ∀ job, w.st.jobs.find j = some job → ∃ job', w'.st.jobs.find j = some job' ∧
    job'.terminationCause = job.terminationCause ∧
    (job' = job ∨ ∃ p events, w.st.monitor.activeJobs.find j = some p ∧
      w'.log = w.log ++ events ∧
      settledJob K (seen w.st.monitor.trackedFds j p events)
        (withOutput (seen w.st.monitor.trackedFds j p events) job) = some job')

theorem Declined.refl (w : World Daemon) : Declined K j w w :=
  ⟨rfl, rfl, id, fun job hjob => ⟨job, hjob, rfl, Or.inl rfl⟩⟩

/-- What an answer to CANCEL stands for. -/
inductive Cancels (K : Kernel) (j : JobId) (w w' : World Daemon) : Bytes → Prop where
  | cancelled (hqueued : w.st.stateOf j = some .queued) (hstate : w'.st.stateOf j = some .cancelled)
      (hwaiting : w'.st.scheduler.waitingJobs = w.st.scheduler.waitingJobs.erase j)
      (hgone : j ∉ w'.st.scheduler.waitingJobs) : Cancels K j w w' cancelledResponse
  | terminating {u : World Daemon} {job : Job} (hrunning : w.st.stateOf j = some .running)
      (hsent : SentTerm j w w') (hscheduler : w'.st.scheduler = w.st.scheduler)
      (htimeouts : u.st.timeouts = w.st.timeouts) (hlog : w.log <+: u.log)
      (hdeadline : Graced K j u w' ∨ Escalated K j u w')
      (hjob : w'.st.jobs.find j = some job) (hcause : job.terminationCause = some .cancelled)
      (hstate : job.state = .terminating ∨ job.state = .cancelled) :
      Cancels K j w w' terminatingResponse
  | declined {answer : Bytes} (herr : text "ERR " <+: answer)
      (hnot : w.st.stateOf j ≠ some .queued) (hunsent : ¬ SentTerm j w w')
      (hdeclined : Declined K j w w') : Cancels K j w w' answer

theorem sentTerm_append {events more : List Event} {group : Pid} (hlog : w'.log = w.log ++ events)
    (hdelivered : delivered events = [(j, group, .SIGTERM)]) (hmore : v.log = w'.log ++ more) :
    SentTerm j w v := by
  refine ⟨events ++ more, group, by rw [hmore, hlog, List.append_assoc], ?_⟩
  rw [delivered_append, hdelivered]
  exact List.mem_cons_self

/-- The job of a grace period, or of an attempt to kill it, is terminating or has been settled as
cancelled. -/
theorem terminating_of_deadline (hwf : ProcessMonitor.Wf w.st.monitor)
    (hjob : w.st.jobs.find j = some job) (hcause : job.terminationCause = some .cancelled)
    (hterminating : job.state = .terminating)
    (hdeadline : Graced K j w w' ∨ Escalated K j w w') :
    w.log <+: w'.log ∧ ∃ job', w'.st.jobs.find j = some job' ∧
      job'.terminationCause = some .cancelled ∧
      (job'.state = .terminating ∨ job'.state = .cancelled) := by
  obtain ⟨hlog, hmonitor, -⟩ | ⟨⟨log, b, hlog, hrun⟩, -⟩ := hdeadline
  · have hjobs : w'.st.jobs = w.st.jobs := congrArg ProcessMonitor.jobs hmonitor
    exact ⟨hlog, job, hjobs ▸ hjob, hcause, Or.inl hterminating⟩
  · obtain ⟨p, hactive⟩ := (hwf.active_iff hjob).mpr (by rw [hterminating]; rfl)
    obtain ⟨events, hends⟩ := wp_run (forceKill_ends (K := K) (w := ⟨w.st.monitor, log⟩) hwf hactive
      hjob hterminating) hrun
    obtain ⟨job', cause, hjob', hsome, hcause', hstate⟩ := hends.cause
    obtain rfl : cause = .cancelled := Option.some.inj (hsome.symm.trans hcause)
    have hgrown : (monitorWorld w').log = log ++ events := hends.log
    exact ⟨hlog.trans ⟨events, hgrown.symm⟩, job', hjob', hcause', hstate⟩

theorem Cancels.eq_cancelled (h : Cancels K j w w' cancelledResponse) :
    w.st.stateOf j = some .queued ∧ w'.st.stateOf j = some .cancelled := by
  generalize hanswer : cancelledResponse = answer at h
  cases h with
  | cancelled hqueued hstate => exact ⟨hqueued, hstate⟩
  | terminating => exact absurd hanswer (by decide)
  | declined herr =>
    subst hanswer
    exact absurd herr (by decide)

theorem Cancels.eq_terminating (h : Cancels K j w w' terminatingResponse) :
    w.st.stateOf j = some .running ∧ SentTerm j w w' ∧ ∃ job, w'.st.jobs.find j = some job ∧
      job.terminationCause = some .cancelled ∧
      (job.state = .terminating ∨ job.state = .cancelled) := by
  generalize hanswer : terminatingResponse = answer at h
  cases h with
  | cancelled => exact absurd hanswer (by decide)
  | terminating hrunning hsent _ _ _ _ hjob hcause hstate =>
    exact ⟨hrunning, hsent, _, hjob, hcause, hstate⟩
  | declined herr =>
    subst hanswer
    exact absurd herr (by decide)

/-- How a CANCEL of a running job ends. -/
theorem cancelRunningJob_ends (h : Sound n ⟨w, []⟩) (hjob : w.st.jobs.find j = some job)
    (hrunning : job.state = .running) :
    wp (cancelRunningJob K j) (fun r w' => ∀ answer, r = .ok answer → Cancels K j w w' answer) w := by
  obtain ⟨p, hactive⟩ := (h.wf.active_iff hjob).mpr (by rw [hrunning]; rfl)
  have hnot : w.st.stateOf j ≠ some .queued := by
    rw [stateOf_of_find hjob, hrunning]
    exact nofun
  have hcause : job.terminationCause = none := h.wf.no_cause hjob (Or.inr hrunning)
  unfold cancelRunningJob
  have hrequest := requestTerminate_ends (K := K) (w := monitorWorld w) h.wf hactive hjob hrunning
    .cancelled
  rcases hrun : ProcessMonitor.requestTerminate K j .cancelled (monitorWorld w) with ⟨r, v⟩
  obtain ⟨events, hends⟩ := wp_run hrequest hrun
  have hinner := inMonitor_run hrun
  cases r with
  | error e =>
    have hthrow := bind_of_error (f := fun requested =>
      (pure (Except.ok requested) : Prog Daemon (Except Bytes Bool))) hinner
    cases e with
    | systemError e what =>
      refine wp_bind_ok (tryCatch_of_error hthrow) (wp_pure fun answer hr => ?_)
      obtain rfl := Except.ok.inj hr
      have herr : text "ERR " <+: text "ERR failed to send SIGTERM: " := by decide
      have hjobs : (withMonitor w v).st.jobs = w.st.jobs := hends.threw _ rfl
      refine .declined (herr.trans (List.prefix_append _ _)) hnot
        (not_sentTerm hends.log hends.signals)
        ⟨rfl, rfl, fun hnone => ?_, fun job' hjob' => ⟨job', ?_, rfl, Or.inl rfl⟩⟩
      · rw [hjobs]
        exact hnone
      · rw [hjobs]
        exact hjob'
    | _ => exact wp_of_run (bind_of_error (tryCatch_of_error hthrow)) nofun
  | ok requested =>
    have hreturn := bind_of_ok (f := fun requested =>
      (pure (Except.ok requested) : Prog Daemon (Except Bytes Bool))) hinner
    refine wp_bind_ok (tryCatch_of_ok hreturn) ?_
    cases requested with
    | false =>
      refine wp_pure fun answer hr => ?_
      obtain rfl := Except.ok.inj hr
      have herr : text "ERR " <+: text "ERR job process already exited; retry status" := by decide
      refine .declined herr hnot (not_sentTerm hends.log hends.signals)
        ⟨rfl, rfl, fun hnone => ?_, fun job' hjob' => ?_⟩
      · rw [hjob] at hnone
        cases hnone
      obtain rfl : job = job' := Option.some.inj (hjob.symm.trans hjob')
      obtain hjobs | ⟨job', hsettled, hcause', hjobs⟩ := hends.declined rfl
      · have hjobs : (withMonitor w v).st.jobs = w.st.jobs := hjobs
        exact ⟨job, by rw [hjobs]; exact hjob, rfl, Or.inl rfl⟩
      · have hjobs : (withMonitor w v).st.jobs = w.st.jobs.set j job' := hjobs
        refine ⟨job', by rw [hjobs]; exact Table.find_set_self _ _ _, hcause'.trans hcause.symm,
          Or.inr ⟨p, events, hactive, hends.log, hsettled⟩⟩
    | true =>
      have hjobs : (withMonitor w v).st.jobs = w.st.jobs.set j
          { job with state := .terminating, terminationCause := some .cancelled } :=
        hends.terminated rfl
      have hlog : (withMonitor w v).log = w.log ++ events := hends.log
      have hwf1 : ProcessMonitor.Wf v.st :=
        wp_run (requestTerminate_wf (K := K) (w := monitorWorld w) h.wf hjob hrunning .cancelled) hrun
      set w1 := withMonitor w v with hw1
      set job1 := { job with state := .terminating, terminationCause := some .cancelled } with hjob1
      have hfind : w1.st.jobs.find j = some job1 := by
        rw [hjobs]
        exact Table.find_set_self _ _ _
      have hqueue : w.st.stateOf j = some .running := by rw [stateOf_of_find hjob, hrunning]
      refine wp_bind scheduleForceKillDeadline_ends (fun _ w' hdeadline => ?_) fun e w' _ => nofun
      obtain ⟨hscheduler, hdeadline⟩ := hdeadline rfl
      refine wp_pure fun answer hr => ?_
      obtain rfl := Except.ok.inj hr
      obtain ⟨⟨more, hmore⟩, job', hjob', hcause', hstate'⟩ :=
        terminating_of_deadline hwf1 hfind rfl rfl hdeadline
      exact .terminating (u := w1) hqueue (sentTerm_append hlog hends.signals hmore.symm) hscheduler
        rfl ⟨events, hlog.symm⟩ hdeadline hjob' hcause' hstate'

theorem cancelJob_cancels (h : Sound n ⟨w, []⟩) (j : JobId) :
    wp (cancelJob K j) (fun r w' => ∀ answer, r = .ok answer → Cancels K j w w' answer) w := by
  -- an answer that changes nothing
  have hdeclined : ∀ {answer : Bytes}, text "ERR " <+: answer → w.st.stateOf j ≠ some .queued →
      ∀ answer', (Except.ok answer : Except Exception Bytes) = .ok answer' →
        Cancels K j w w answer' := fun herr hnot answer' hr =>
    Except.ok.inj hr ▸ .declined herr hnot (not_sentTerm (List.append_nil _).symm rfl) (.refl w)
  unfold cancelJob
  refine wp_bind_ok (state_run w) ?_
  cases hjob : w.st.jobs.find j with
  | none =>
    refine wp_pure (hdeclined (by decide) ?_)
    unfold stateOf
    rw [hjob]
    exact nofun
  | some job =>
  simp only
  have hs : w.st.stateOf j = some job.state := stateOf_of_find hjob
  cases hstate : job.state with
  | queued =>
    rw [hstate] at hs
    have hwaiting : j ∈ w.st.scheduler.waitingJobs := (h.slots.waiting j).mpr hs
    have hid := (h.slots.waitingIds j).mpr hwaiting
    have hremove : w.st.scheduler.cancelQueuedJob j = .ok (true, { w.st.scheduler with
        waitingJobs := w.st.scheduler.waitingJobs.erase j
        waitingJobIds := w.st.scheduler.waitingJobIds.erase j }) := by
      unfold JobScheduler.cancelQueuedJob
      rw [if_pos hid, if_pos hwaiting]
    have htrans : canTransition job.state .cancelled := by
      rw [hstate]
      rfl
    have henter := ProcessMonitor.withJob_enter (w := monitorWorld w) hjob (h.wf.id_eq hjob) htrans
    have hnodup : w.st.scheduler.waitingJobs.Nodup := h.slots.sorted.imp fun hlt => hlt.ne
    refine wp_bind_ok (inScheduler_run hremove) ?_
    simp only [Bool.true_eq_false, if_false]
    refine wp_bind_ok (inMonitor_run henter) (wp_pure fun answer hr => ?_)
    obtain rfl := Except.ok.inj hr
    refine .cancelled hs ?_ rfl hnodup.not_mem_erase
    show ((w.st.jobs.set j { job with state := .cancelled }).find j).map Job.state = some .cancelled
    rw [Table.find_set_self]
    rfl
  | running => exact cancelRunningJob_ends h hjob hstate
  | terminating | succeeded | failed | cancelled | timedOut | interrupted =>
    rw [hstate] at hs
    exact wp_pure (hdeclined (by decide) (by rw [hs]; exact nofun))

/-! ## What becomes of the job -/

/-- In every continuation of a run. -/
def Ever (K : Kernel) (w : World Daemon) (P : World Daemon → Prop) : Prop :=
  ∀ u due, Walk (Step K) Set.univ ⟨w, []⟩ ⟨u, due⟩ → P u

/-- A job that is terminating because it was cancelled can only end as cancelled. -/
theorem Step.cancelling {l : Label} {m m' : Moment} (hstep : Step K l m m')
    (hwf : ProcessMonitor.Wf m.world.st.monitor)
    (h : ∃ job, m.world.st.jobs.find j = some job ∧ job.terminationCause = some .cancelled ∧
      (job.state = .terminating ∨ job.state = .cancelled)) :
    ∃ job, m'.world.st.jobs.find j = some job ∧ job.terminationCause = some .cancelled ∧
      (job.state = .terminating ∨ job.state = .cancelled) := by
  obtain ⟨job, hjob, hcause, hstate⟩ := h
  obtain heq | ⟨job₀, job', hjob₀, hjob', hrewrites⟩ | ⟨_, _, hnone, _⟩ := hstep.rewrites hwf j
  · exact ⟨job, heq.trans hjob, hcause, hstate⟩
  · obtain rfl := Option.some.inj (hjob₀.symm.trans hjob)
    have hlive := hrewrites.not_terminal
    have hterminating : job₀.state = .terminating := hstate.resolve_right fun hcancelled => by
      rw [hcancelled] at hlive
      cases hlive
    cases hrewrites with
    | settle hprocess hactive hcomplete hsettled =>
      have hsettles := settles_of_settledJob hsettled
      obtain ⟨cause, hsome, hfinal⟩ := hsettles.terminating hterminating
      obtain rfl : cause = .cancelled := Option.some.inj (hsome.symm.trans hcause)
      exact ⟨job', hjob', hsettles.cause.trans hcause, Or.inr hfinal⟩
    | garble => exact ⟨_, hjob', hcause, Or.inl hterminating⟩
    | launchFailed hqueued | abandoned hqueued | started hqueued | dequeue hqueued =>
      rw [hterminating] at hqueued
      cases hqueued
    | terminate hprocess hrunning =>
      rw [hterminating] at hrunning
      cases hrunning
  · rw [hjob] at hnone
    cases hnone

/-- A job that was cancelled in the queue stays cancelled and is never started. -/
theorem never_started (h : Between K s w) (hstate : w.st.stateOf j = some .cancelled)
    (hcancelled : CancelledWhileQueued w.log j) :
    Ever K w fun u => u.st.stateOf j = some .cancelled ∧ .starting j ∉ u.log := by
  intro u due hwalk
  obtain ⟨hsound, hfair⟩ := sound_invariant (P := fun m => Fair m.world)
    (fun _ _ _ hs hstep hfair => hstep.fair hs hfair) (h.trans hwalk) (sound_initial s)
    (fair_initial s)
  obtain ⟨job, hjob, hjobstate⟩ := Option.map_eq_some_iff.mp hstate
  obtain ⟨-, hkept, hgrown⟩ := sound_invariant
    (P := fun m => m.world.st.jobs.find j = some job ∧ w.log <+: m.world.log)
    (fun _ _ _ hs hstep ⟨hjob, hlog⟩ => ⟨hstep.final hs.wf hjob (by rw [hjobstate]; rfl),
      hlog.trans (by obtain ⟨events, hevents⟩ := hstep.log_prefix; exact ⟨events, hevents.symm⟩)⟩)
    hwalk h.sound ⟨hjob, List.prefix_refl _⟩
  refine ⟨by rw [stateOf_of_find hkept, hjobstate], fun hstart => ?_⟩
  obtain ⟨pre, post, hlog, hqueued⟩ := hcancelled
  obtain ⟨events, hevents⟩ := hgrown
  have hlater : CancelledWhileQueued u.log j :=
    ⟨pre, post ++ events, by rw [← hevents, hlog]; simp, hqueued⟩
  exact (hfair.kept j hlater).2 (mem_startsOf.mpr hstart)

/-- The answers to CANCEL say what was done, and what will become of the job. -/
theorem cancelTruthful (h : Between K s w) (j : JobId) :
    wp (cancelJob K j) (fun r w' => ∀ answer, r = .ok answer →
      (answer = cancelledResponse ↔ w.st.stateOf j = some .queued) ∧
      (answer = terminatingResponse ↔ w.st.stateOf j = some .running ∧ SentTerm j w w') ∧
      Cancels K j w w' answer ∧
      (answer = cancelledResponse →
        Ever K w' fun u => u.st.stateOf j = some .cancelled ∧ .starting j ∉ u.log) ∧
      (answer = terminatingResponse → Ever K w' fun u => ∀ state, u.st.stateOf j = some state →
        isTerminal state → state = .cancelled)) w := by
  rcases hrun : cancelJob K j w with ⟨r, w'⟩
  obtain ⟨hwalk, hqueue⟩ := wp_run (cancelJob_spec (K := K) h.sound j) hrun
  have hcancels := wp_run (cancelJob_cancels (K := K) h.sound j) hrun
  refine wp_of_run hrun fun answer hr => ?_
  have hbetween : Between K s w' := h.trans (hwalk.mono (Set.subset_univ _))
  have hanswer := hcancels answer hr
  refine ⟨⟨?_, ?_⟩, ⟨?_, ?_⟩, hanswer, fun heq => ?_, fun heq => ?_⟩
  · rintro rfl
    exact (hanswer.eq_cancelled).1
  · intro hs
    cases hanswer with
    | cancelled => rfl
    | terminating hrunning =>
      rw [hs] at hrunning
      cases hrunning
    | declined herr hnot => exact absurd hs hnot
  · rintro rfl
    obtain ⟨hrunning, hsent, -⟩ := hanswer.eq_terminating
    exact ⟨hrunning, hsent⟩
  · rintro ⟨hs, hsent⟩
    cases hanswer with
    | cancelled hqueued =>
      rw [hs] at hqueued
      cases hqueued
    | terminating => rfl
    | declined herr hnot hunsent => exact absurd hsent hunsent
  · subst heq
    exact never_started hbetween hanswer.eq_cancelled.2 (hqueue hr)
  · subst heq
    intro u due hlater state hstate hterm
    obtain ⟨-, job, hjob, -, hjobstate⟩ := sound_invariant
      (fun _ _ _ hs hstep ih => hstep.cancelling hs.wf ih) hlater hbetween.sound
      hanswer.eq_terminating.2.2
    rw [stateOf_of_find hjob] at hstate
    obtain rfl := Option.some.inj hstate
    refine hjobstate.resolve_left fun hterminating => ?_
    rw [hterminating] at hterm
    cases hterm

/-- One job runs in the only slot, and a second one waits for it. Both are cancelled. -/
theorem cancelTruthful_run :
    (Ever queueScript (cancelJob queueScript 1 (after queueScript oneSlot 3)).2 fun u =>
      ∀ state, u.st.stateOf 1 = some state → isTerminal state → state = .cancelled) ∧
    Ever queueScript (cancelJob queueScript 2 (after queueScript oneSlot 3)).2 fun u =>
      u.st.stateOf 2 = some .cancelled ∧ .starting 2 ∉ u.log := by
  have hok : ∀ i < 3, (Daemon.iterate queueScript (after queueScript oneSlot i)).1 = .ok () := by
    decide +kernel
  have hbetween : Between queueScript oneSlot (after queueScript oneSlot 3) :=
    (reachable_after hok).between
  have hfirst : (cancelJob queueScript 1 (after queueScript oneSlot 3)).1 =
      .ok terminatingResponse := by decide +kernel
  have hsecond : (cancelJob queueScript 2 (after queueScript oneSlot 3)).1 =
      .ok cancelledResponse := by decide +kernel
  exact ⟨(cancelTruthful hbetween 1 _ hfirst).2.2.2.2 rfl,
    (cancelTruthful hbetween 2 _ hsecond).2.2.2.1 rfl⟩

end Daemon

end Runnerd
