import Runnerd.StartOutcome

/-!
# Termination requests are atomic

`requestTerminate` and `forceKill` first look after the job: a wait that does not block, up to three
pipes, perhaps a settlement. Whatever happens on the way, the job changes as a whole or not at all,
and nothing seen of its child and its pipes is lost.
-/

namespace Runnerd

open Effect Effect.Prog Steps

namespace ProcessMonitor

variable {K : Kernel} {w w' : World ProcessMonitor} {j : JobId} {job : Job} {p q : ActiveProcess}
  {tracked : Table Fd TrackedFd}

/-! ## What is seen of a process -/

/-- What an event says of the process of a job, whose pipes are those tracked for it. -/
def seenStep (tracked : Table Fd TrackedFd) (j : JobId) (p : ActiveProcess) :
    Event → ActiveProcess
  | .received fd bytes =>
    match tracked.find fd with
    | some ⟨k, kind⟩ => if k = j then p.receive kind bytes else p
    | none => p
  | .reachedEof fd =>
    match tracked.find fd with
    | some ⟨k, kind⟩ => if k = j then p.closePipe kind else p
    | none => p
  | .reaped pid status => if pid = p.pid then p.exit status else p
  | _ => p

/-- A process after what these events say of it. -/
def seen (tracked : Table Fd TrackedFd) (j : JobId) (p : ActiveProcess) (events : List Event) :
    ActiveProcess := events.foldl (seenStep tracked j) p

theorem seen_append (events more : List Event) : seen tracked j p (events ++ more) =
    seen tracked j (seen tracked j p events) more := List.foldl_append

theorem seenStep_processGroupId (e : Event) :
    (seenStep tracked j p e).processGroupId = p.processGroupId := by
  unfold seenStep
  split
  · split
    · split_ifs <;> rfl
    · rfl
  · split
    · split_ifs <;> rfl
    · rfl
  · split_ifs <;> rfl
  · rfl

theorem seen_processGroupId (events : List Event) :
    (seen tracked j p events).processGroupId = p.processGroupId := by
  induction events generalizing p with
  | nil => rfl
  | cons e events ih => exact ih.trans (seenStep_processGroupId e)

/-- A signal that was delivered. -/
def deliveredSignal : Event → Option (JobId × Pid × Signal)
  | .signalled j group signal => some (j, group, signal)
  | _ => none

/-- The signals delivered, in order. -/
def delivered (events : List Event) : List (JobId × Pid × Signal) :=
  events.filterMap deliveredSignal

theorem delivered_append (events more : List Event) :
    delivered (events ++ more) = delivered events ++ delivered more := List.filterMap_append

/-! ## Looking after a job -/

/-- The steps of looking after a job but for its settlement. -/
def Label.observes (j : JobId) : Label → Bool
  | .idle | .receive _ | .finish _ => true
  | .exited k | .lost k => k == j
  | _ => false

theorem drains_le_observes (j : JobId) : {l : Label | l.drains} ⊆ {l | l.observes j} := by
  intro l hl
  cases l <;> first | rfl | cases hl

/-- From one world to the other a process has been observed: its entry says what was seen, and no job
has changed. -/
structure Observes (j : JobId) (p : ActiveProcess) (events : List Event)
    (w w' : World ProcessMonitor) : Prop where
  log : w'.log = w.log ++ events
  quiet : delivered events = []
  jobs : w'.st.jobs = w.st.jobs
  tracked : ∀ fd t, w'.st.trackedFds.find fd = some t → w.st.trackedFds.find fd = some t
  active : w'.st.activeJobs.find j = some (seen w.st.trackedFds j p events)

theorem Observes.refl (hactive : w.st.activeJobs.find j = some p) : Observes j p [] w w :=
  ⟨(List.append_nil _).symm, rfl, rfl, fun _ _ => id, hactive⟩

/-- One step of looking after a job. -/
theorem Step.observes {l : Label} {w w₁ w₂ : World ProcessMonitor} {events : List Event}
    (hstep : Step K l w₁ w₂) (hl : l.observes j) (h : Observes j p events w w₁) :
    ∃ events', Observes j p events' w w₂ := by
  obtain ⟨hlog, hquiet, hjobs, htracked, hactive⟩ := h
  have hnext : ∀ {more : List Event} {q : ActiveProcess}, w₂.log = w₁.log ++ more →
      delivered more = [] → w₂.st.jobs = w₁.st.jobs →
      (∀ fd t, w₂.st.trackedFds.find fd = some t → w₁.st.trackedFds.find fd = some t) →
      w₂.st.activeJobs.find j = some q →
      seen w.st.trackedFds j (seen w.st.trackedFds j p events) more = q →
      ∃ events', Observes j p events' w w₂ := by
    intro more q hlog' hquiet' hjobs' htracked' hactive' hseen
    refine ⟨events ++ more, ?_, ?_, hjobs'.trans hjobs,
      fun fd t hfd => htracked fd t (htracked' fd t hfd), ?_⟩
    · rw [hlog', hlog, List.append_assoc]
    · rw [delivered_append, hquiet, hquiet', List.append_nil]
    · rw [hactive', seen_append, hseen]
  cases hstep with
  | @idle _ e he =>
    refine hnext rfl ?_ rfl (fun _ _ => id) hactive ?_
    · cases e <;> first | rfl | cases he
    · cases e <;> first | rfl | cases he
  | @receive _ fd k kind q bytes htr hq =>
    have htr' : w.st.trackedFds.find fd = some ⟨k, kind⟩ := htracked fd _ htr
    by_cases hk : k = j
    · subst hk
      obtain rfl := Option.some.inj (hq.symm.trans hactive)
      refine hnext rfl rfl rfl (fun _ _ => id) (Table.find_set_self _ _ _) ?_
      simp [seen, seenStep, htr']
    · refine hnext rfl rfl rfl (fun _ _ => id)
        ((Table.find_set_of_ne _ _ (Ne.symm hk)).trans hactive) ?_
      simp [seen, seenStep, htr', hk]
  | @finish _ fd k kind q htr hq =>
    have htr' : w.st.trackedFds.find fd = some ⟨k, kind⟩ := htracked fd _ htr
    have hdel : ∀ fd' t, (w₁.st.trackedFds.del fd).find fd' = some t →
        w₁.st.trackedFds.find fd' = some t := fun fd' t ht => by
      by_cases heq : fd' = fd
      · subst heq
        rw [Table.find_del_self] at ht
        cases ht
      · rwa [Table.find_del_of_ne _ heq] at ht
    by_cases hk : k = j
    · subst hk
      obtain rfl := Option.some.inj (hq.symm.trans hactive)
      refine hnext rfl rfl rfl hdel (Table.find_set_self _ _ _) ?_
      simp [seen, seenStep, htr']
    · refine hnext rfl rfl rfl hdel ((Table.find_set_of_ne _ _ (Ne.symm hk)).trans hactive) ?_
      simp [seen, seenStep, htr', hk]
  | @exited _ k q status hq =>
    obtain rfl : k = j := by simpa [Label.observes] using hl
    obtain rfl := Option.some.inj (hq.symm.trans hactive)
    refine hnext rfl rfl rfl (fun _ _ => id) (Table.find_set_self _ _ _) ?_
    simp [seen, seenStep]
  | @lost _ k q hq =>
    exact hnext rfl rfl rfl (fun _ _ => id) hactive rfl
  | _ => cases hl

theorem observes_of_walk (hwalk : Walk (Step K) {l | l.observes j} w w')
    (hactive : w.st.activeJobs.find j = some p) : ∃ events, Observes j p events w w' :=
  hwalk.invariant (P := fun w' => ∃ events, Observes j p events w w')
    (fun _ hl _ _ hstep ⟨_, h⟩ => hstep.observes hl h) ⟨[], .refl hactive⟩

/-- How looking after a job ends, `q` being its process as it was seen: the job is as it was and its
entry says what was seen, it is settled by just that, or its settlement has thrown. -/
inductive Looked (K : Kernel) (j : JobId) (job : Job) (q : ActiveProcess)
    (w w' : World ProcessMonitor) : Except Exception Bool → Prop where
  | kept {r : Except Exception Bool} (hr : r ≠ .ok true) (hjobs : w'.st.jobs = w.st.jobs)
      (hactive : w'.st.activeJobs.find j = some q) : Looked K j job q w w' r
  | settled {job' : Job} (hcomplete : q.complete)
      (hsettled : settledJob K q (withOutput q job) = some job')
      (hjobs : w'.st.jobs = w.st.jobs.set j job') : Looked K j job q w w' (.ok true)
  | garbled {e : Exception} (hcomplete : q.complete)
      (hsettled : settledJob K q (withOutput q job) = none)
      (hjobs : w'.st.jobs = w.st.jobs.set j (withOutput q job))
      (hactive : w'.st.activeJobs.find j =
        some (q.swapOutput job.standardOutput job.standardError)) :
      Looked K j job q w w' (.error e)

theorem finishExitedChildBeforeSignal_looked (h : Wf w.st)
    (hactive : w.st.activeJobs.find j = some p) (hjob : w.st.jobs.find j = some job) :
    wp (finishExitedChildBeforeSignal K j) (fun r w' => ∃ events, w'.log = w.log ++ events ∧
      delivered events = [] ∧ Looked K j job (seen w.st.trackedFds j p events) w w' r) w := by
  have hkept : ∀ {r : Except Exception Bool} {w'}, r ≠ .ok true →
      Walk (Step K) {l | l.observes j} w w' → ∃ events, w'.log = w.log ++ events ∧
        delivered events = [] ∧ Looked K j job (seen w.st.trackedFds j p events) w w' r := by
    intro r w' hr hwalk
    obtain ⟨events, hobserved⟩ := observes_of_walk hwalk hactive
    exact ⟨events, hobserved.log, hobserved.quiet, .kept hr hobserved.jobs hobserved.active⟩
  unfold finishExitedChildBeforeSignal
  refine wp_bind (R := fun _ w' => Walk (Step K) {l | l.observes j} w w')
    (wp_mono (pollChild_polled hactive) fun r w1 h1 => ?_) (fun q w1 hwalk1 => ?_)
    fun e w1 h1 => hkept nofun h1
  · cases h1 with
    | known hexited heq => exact heq ▸ Walk.refl
    | exited hexited hwait hstep => exact Walk.single (by simp [Label.observes]) hstep
    | running hexited hwait heq => exact heq ▸ Walk.single rfl (Step.idle rfl)
    | failed hl hstep =>
      refine Walk.single ?_ hstep
      obtain rfl | rfl := hl <;> simp [Label.observes]
  split_ifs with hexited
  · exact wp_pure (hkept nofun hwalk1)
  have hwf1 := wf_of_walk hwalk1 h
  refine wp_bind (wp_mono (drainFds_spec hwf1 _) fun r w2 h2 =>
    hwalk1.trans (h2.mono (drains_le_observes j))) (fun _ w2 hwalk2 => ?_) fun e w2 h2 => hkept nofun h2
  have hwf2 := wf_of_walk hwalk2 h
  obtain ⟨events, hobserved⟩ := observes_of_walk hwalk2 hactive
  have hjob2 : w2.st.jobs.find j = some job := by
    rw [hobserved.jobs]
    exact hjob
  refine wp_bind (tryFinalizeJob_spec hwf2 j) (fun _ w3 h3 => ?_) fun e w3 h3 => ?_
  · obtain ⟨-, rfl, -⟩ | ⟨-, hstep⟩ | ⟨e, hr, -⟩ := h3
    · have hterm : isTerminal job.state = false :=
        isTerminal_of_isActive (hwf2.isActive hjob2 hobserved.active)
      refine wp_bind_ok (jobAt_run hjob2) (wp_pure ?_)
      rw [hterm]
      exact hkept nofun hwalk2
    · cases hstep with
      | @settle _ _ p' job₀ job' hactive' hcomplete hjob' hsettled =>
        obtain rfl := Option.some.inj (hactive'.symm.trans hobserved.active)
        obtain rfl := Option.some.inj (hjob'.symm.trans hjob2)
        refine wp_bind_ok (jobAt_run (Table.find_set_self _ _ _)) (wp_pure ?_)
        rw [(settles_of_settledJob hsettled).terminal]
        refine ⟨events ++ [.entered j job'.state], ?_, ?_, ?_⟩
        · rw [hobserved.log, List.append_assoc]
        · rw [delivered_append, hobserved.quiet]
          rfl
        · rw [seen_append]
          exact .settled hcomplete hsettled (congrArg (fun t => Table.set t j job') hobserved.jobs)
    · cases hr
  · obtain ⟨hr, -⟩ | ⟨hr, -⟩ | ⟨e', -, hstep⟩ := h3
    · cases hr
    · cases hr
    · cases hstep with
      | @garble _ _ p' job₀ hactive' hcomplete hjob' hsettled =>
        obtain rfl := Option.some.inj (hactive'.symm.trans hobserved.active)
        obtain rfl := Option.some.inj (hjob'.symm.trans hjob2)
        exact ⟨events, hobserved.log, hobserved.quiet, .garbled hcomplete hsettled
          (congrArg (fun t => Table.set t j _) hobserved.jobs) (Table.find_set_self _ _ _)⟩

/-- Events of looking after a job without settling it: asking for its child, reading its pipes, closing
those that have ended. -/
def lookEvent : Event → Bool
  | .called _ | .groupGone _ _ _ | .received _ _ | .reachedEof _ | .unregistered _ | .closed _
  | .reaped _ _ | .recorded _ _ => true
  | _ => false

/-- The steps that write such events. -/
def Label.looks : Label → Bool
  | .idle | .receive _ | .finish _ | .exited _ => true
  | _ => false

theorem drains_le_looks : {l : Label | l.drains} ⊆ {l | l.looks} := by
  intro l hl
  cases l <;> first | rfl | cases hl

theorem looks_of_walk (hwalk : Walk (Step K) {l | l.looks} w w') :
    ∃ looks, w'.log = w.log ++ looks ∧ ∀ e ∈ looks, lookEvent e := by
  apply hwalk.invariant (P := fun w' => ∃ looks, w'.log = w.log ++ looks ∧ ∀ e ∈ looks, lookEvent e)
    _ ⟨[], (List.append_nil _).symm, by simp⟩
  rintro l hl w1 w2 hstep ⟨looks, hlog, hlooks⟩
  have hmore : ∃ more, w2.log = w1.log ++ more ∧ ∀ e ∈ more, lookEvent e := by
    cases hstep with
    | @idle _ e he =>
      refine ⟨[e], rfl, List.forall_mem_singleton.mpr ?_⟩
      cases e <;> first | rfl | cases he
    | receive | finish | exited => exact ⟨_, rfl, by simp [lookEvent]⟩
    | _ => cases hl
  obtain ⟨more, hlog', hmore⟩ := hmore
  exact ⟨looks ++ more, by rw [hlog', hlog, List.append_assoc],
    List.forall_mem_append.mpr ⟨hlooks, hmore⟩⟩

/-- Where a job has been looked after and is to be signalled, nothing else has been done. -/
theorem finishExitedChildBeforeSignal_looks (h : Wf w.st)
    (hactive : w.st.activeJobs.find j = some p) :
    wp (finishExitedChildBeforeSignal K j) (fun r w' => r = .ok false →
      ∃ looks, w'.log = w.log ++ looks ∧ ∀ e ∈ looks, lookEvent e) w := by
  unfold finishExitedChildBeforeSignal
  refine wp_bind (R := fun r w1 => (∃ q, r = .ok q) →
      Walk (Step K) {l | l.looks} w w1 ∧ Wf w1.st)
    (wp_mono (pollChild_polled hactive) fun r w1 h1 => ?_) (fun q w1 h1 => ?_)
    fun e w1 _ hr => by cases hr
  · rintro ⟨q, rfl⟩
    cases h1 with
    | known hexited heq =>
      subst heq
      exact ⟨Walk.refl, h⟩
    | exited hexited hwait hstep => exact ⟨Walk.single rfl hstep, hstep.wf h⟩
    | running hexited hwait heq =>
      subst heq
      exact ⟨Walk.single rfl (Step.idle rfl), h⟩
  obtain ⟨hwalk1, hwf1⟩ := h1 ⟨q, rfl⟩
  split_ifs
  · exact wp_pure fun _ => looks_of_walk hwalk1
  refine wp_bind (drainFds_spec hwf1 _) (fun _ w2 hwalk2 => ?_) fun e w2 _ hr => by cases hr
  have hwalk := hwalk1.trans (hwalk2.mono drains_le_looks)
  refine wp_bind (tryFinalizeJob_spec (wf_of_walk hwalk2 hwf1) j) (fun _ w3 h3 => ?_)
    fun e w3 _ hr => by cases hr
  obtain ⟨-, rfl, -⟩ | ⟨-, hstep⟩ | ⟨e, hr, -⟩ := h3
  · obtain ⟨job, hjob⟩ | hjob := Option.eq_none_or_eq_some (w3.st.jobs.find j) |>.symm
    · exact wp_bind_ok (jobAt_run hjob) (wp_pure fun _ => looks_of_walk hwalk)
    · exact wp_of_run (bind_of_error (jobAt_of_none hjob)) fun hr => by cases hr
  · -- the job has been settled
    cases hstep with
    | settle hactive' hcomplete hjob hsettled =>
      refine wp_bind_ok (jobAt_run (Table.find_set_self _ _ _)) (wp_pure fun hr => ?_)
      rw [(settles_of_settledJob hsettled).terminal] at hr
      cases hr
  · cases hr

/-! ## Requests -/

/-- A settlement throws only for a terminating job, and a child that has neither exited nor been
killed. -/
theorem settledJob_eq_none (hcause : job.state = .terminating → job.terminationCause ≠ none)
    (hsettled : settledJob K q job = none) : job.state = .terminating ∧ q.waitStatus = .other := by
  by_cases hterm : job.state = .terminating
  · refine ⟨hterm, ?_⟩
    unfold settledJob at hsettled
    rw [if_pos hterm] at hsettled
    obtain ⟨cause, hcause⟩ := Option.ne_none_iff_exists'.mp (hcause hterm)
    rw [hcause] at hsettled
    cases hstatus : q.waitStatus with
    | exited code =>
      rw [hstatus] at hsettled
      cases hsettled
    | signaled signal =>
      rw [hstatus] at hsettled
      cases hsettled
    | other => rfl
  · unfold settledJob at hsettled
    rw [if_neg hterm] at hsettled
    split_ifs at hsettled
    cases hstatus : q.waitStatus with
    | exited code =>
      rw [hstatus] at hsettled
      simp only at hsettled
      split_ifs at hsettled
    | signaled signal =>
      rw [hstatus] at hsettled
      cases hsettled
    | other =>
      rw [hstatus] at hsettled
      cases hsettled

/-- What was seen of a process is kept: in its entry, in its settled job, or in both, which have
exchanged their output, where the settlement threw. -/
inductive Retained (K : Kernel) (j : JobId) (job : Job) (q : ActiveProcess)
    (w' : World ProcessMonitor) : Prop where
  | entry (hactive : w'.st.activeJobs.find j = some q)
  | settled {job' : Job} (hcomplete : q.complete)
      (hsettled : settledJob K q (withOutput q job) = some job')
      (hjob : w'.st.jobs.find j = some job')
  | exchanged (hcomplete : q.complete) (hterminating : job.state = .terminating)
      (hstatus : q.waitStatus = .other) (hjob : w'.st.jobs.find j = some (withOutput q job))
      (hactive : w'.st.activeJobs.find j =
        some (q.swapOutput job.standardOutput job.standardError))

theorem Looked.toRetained {r : Except Exception Bool} (h : Looked K j job q w w' r)
    (hcause : job.state = .terminating → job.terminationCause ≠ none) : Retained K j job q w' := by
  cases h with
  | kept hr hjobs hactive => exact .entry hactive
  | settled hcomplete hsettled hjobs =>
    exact .settled hcomplete hsettled (hjobs ▸ Table.find_set_self _ _ _)
  | garbled hcomplete hsettled hjobs hactive =>
    have hother : (withOutput q job).state = .terminating ∧ q.waitStatus = .other :=
      settledJob_eq_none hcause hsettled
    exact .exchanged hcomplete hother.1 hother.2 (hjobs ▸ Table.find_set_self _ _ _) hactive

/-- How `requestTerminate` ends for a running job: it has delivered SIGTERM exactly where it returns
`true`, and then changed the state and the cause; otherwise the job is as it was, or settled by what
was seen. -/
structure TerminateEnds (K : Kernel) (j : JobId) (p : ActiveProcess) (job : Job)
    (cause : TerminationCause) (w : World ProcessMonitor) (r : Except Exception Bool)
    (w' : World ProcessMonitor) (events : List Event) : Prop where
  log : w'.log = w.log ++ events
  signals : delivered events =
    match r with
    | .ok true => [(j, p.processGroupId, .SIGTERM)]
    | _ => []
  terminated : r = .ok true → w'.st.jobs =
    w.st.jobs.set j { job with state := .terminating, terminationCause := some cause }
  declined : r = .ok false → w'.st.jobs = w.st.jobs ∨ ∃ job' : Job,
    settledJob K (seen w.st.trackedFds j p events)
        (withOutput (seen w.st.trackedFds j p events) job) = some job' ∧
      job'.terminationCause = none ∧ w'.st.jobs = w.st.jobs.set j job'
  threw : ∀ e, r = .error e → w'.st.jobs = w.st.jobs
  kept : Retained K j job (seen w.st.trackedFds j p events) w'

/-- How `forceKill` ends for a terminating job. -/
structure KillEnds (K : Kernel) (j : JobId) (p : ActiveProcess) (job : Job)
    (w : World ProcessMonitor) (r : Except Exception Bool) (w' : World ProcessMonitor)
    (events : List Event) : Prop where
  log : w'.log = w.log ++ events
  signals : delivered events =
    match r with
    | .ok true => [(j, p.processGroupId, .SIGKILL)]
    | _ => []
  cause : ∃ job' cause, w'.st.jobs.find j = some job' ∧ job.terminationCause = some cause ∧
    job'.terminationCause = some cause ∧
    (job'.state = .terminating ∨ job'.state = finalState cause)
  kept : Retained K j job (seen w.st.trackedFds j p events) w'

/-- A signal, after a process was seen. -/
theorem sendSignalToProcessGroup_seen {w1 : World ProcessMonitor} {events : List Event}
    (hactive : w1.st.activeJobs.find j = some (seen tracked j p events))
    (hlog : w1.log = w.log ++ events) (signal : Signal) (operation : Bytes) :
    wp (sendSignalToProcessGroup K j signal operation) (fun r w2 => ∃ more,
      w2.log = w.log ++ (events ++ more) ∧ w2.st = w1.st ∧
      (delivered more =
        match r with
        | .ok true => [(j, p.processGroupId, signal)]
        | _ => []) ∧
      seen tracked j p (events ++ more) = seen tracked j p events) w1 := by
  have hgroup : (seen tracked j p events).processGroupId = p.processGroupId :=
    seen_processGroupId events
  refine wp_mono (sendSignalToProcessGroup_spec hactive signal operation) fun r w2 h2 => ?_
  obtain ⟨rfl, rfl⟩ | ⟨rfl, rfl⟩ | ⟨e, rfl, rfl⟩ := h2
  · refine ⟨[.signalled j p.processGroupId signal], ?_, rfl, rfl, ?_⟩
    · rw [hgroup, World.emit_log, hlog, List.append_assoc]
    · rw [seen_append]
      rfl
  · refine ⟨[.groupGone j p.processGroupId signal], ?_, rfl, rfl, ?_⟩
    · rw [hgroup, World.emit_log, hlog, List.append_assoc]
    · rw [seen_append]
      rfl
  · refine ⟨[.called .kill], ?_, rfl, rfl, ?_⟩
    · rw [World.emit_log, hlog, List.append_assoc]
    · rw [seen_append]
      rfl

theorem requestTerminate_ends (h : Wf w.st) (hactive : w.st.activeJobs.find j = some p)
    (hjob : w.st.jobs.find j = some job) (hrunning : job.state = .running)
    (cause : TerminationCause) :
    wp (requestTerminate K j cause)
      (fun r w' => ∃ events, TerminateEnds K j p job cause w r w' events) w := by
  have hcause : job.state = .terminating → job.terminationCause ≠ none := h.cause hjob
  unfold requestTerminate
  refine wp_bind_ok (jobAt_run hjob) ?_
  rw [if_neg (not_not.mpr hrunning)]
  refine wp_bind (finishExitedChildBeforeSignal_looked h hactive hjob) (fun finished w1 h1 => ?_)
    fun e w1 h1 => ?_
  · obtain ⟨events, hlog, hquiet, hlooked⟩ := h1
    cases finished with
    | true =>
      refine wp_pure ⟨events, hlog, hquiet, by simp, fun _ => Or.inr ?_,
        by simp, hlooked.toRetained hcause⟩
      cases hlooked with
      | kept hr => exact absurd rfl hr
      | settled hcomplete hsettled hjobs =>
        refine ⟨_, hsettled, ?_, hjobs⟩
        rw [(settles_of_settledJob hsettled).cause]
        exact (h.no_cause hjob (Or.inr hrunning) :)
    | false =>
      cases hlooked with
      | kept hr hjobs hactive1 =>
      simp only [Bool.false_eq_true, if_false]
      have hjob1 : w1.st.jobs.find j = some job := by
        rw [hjobs]
        exact hjob
      have hid := h.id_eq hjob
      have htrans : canTransition job.state .terminating := by
        rw [hrunning]
        rfl
      refine wp_bind (sendSignalToProcessGroup_seen hactive1 hlog _ _) (fun delivers w2 h2 => ?_)
        fun e w2 h2 => ?_
      · obtain ⟨more, hlog2, hst2, hsignals2, hseen2⟩ := h2
        have hjob2 : w2.st.jobs.find j = some job := hst2 ▸ hjob1
        cases delivers with
        | false =>
          refine wp_pure ⟨events ++ more, hlog2, ?_, by simp, fun _ => Or.inl ?_,
            by simp, .entry ?_⟩
          · rw [delivered_append, hquiet, hsignals2]
            rfl
          · rw [hst2, hjobs]
          · rw [hst2, hseen2]
            exact hactive1
        | true =>
          simp only [Bool.true_eq_false, if_false]
          refine wp_bind_ok (withJob_enter hjob2 hid htrans) (wp_bind_ok
            (withJob_update (Table.find_set_self _ _ _) _) (wp_bind_ok (emit_run _ _) (wp_pure ?_)))
          refine ⟨events ++ (more ++ [.entered j .terminating, .blamed j cause]), ?_, ?_, fun _ => ?_,
            by simp, by simp, .entry ?_⟩
          · simp [hlog2, World.emit]
          · rw [delivered_append, hquiet, delivered_append, hsignals2]
            rfl
          · show (w2.st.jobs.set j { job with state := .terminating }).set j
              { job with state := .terminating, terminationCause := some cause } = _
            rw [Table.set_set, hst2, hjobs]
          · rw [← List.append_assoc, seen_append, hseen2]
            exact hst2 ▸ hactive1
      · obtain ⟨more, hlog2, hst2, hsignals2, hseen2⟩ := h2
        refine ⟨events ++ more, hlog2, ?_, by simp, by simp,
          fun _ _ => ?_, .entry ?_⟩
        · rw [delivered_append, hquiet, hsignals2]
          rfl
        · rw [hst2, hjobs]
        · rw [hst2, hseen2]
          exact hactive1
  · obtain ⟨events, hlog, hquiet, hlooked⟩ := h1
    refine ⟨events, hlog, hquiet, by simp, by simp, fun _ _ => ?_,
      hlooked.toRetained hcause⟩
    cases hlooked with
    | kept hr hjobs => exact hjobs
    | garbled hcomplete hsettled =>
      have hterm : job.state = .terminating :=
        (@settledJob_eq_none _ (withOutput _ job) _ hcause hsettled).1
      rw [hrunning] at hterm
      cases hterm

theorem requestTerminate_wf (h : Wf w.st) (hjob : w.st.jobs.find j = some job)
    (hrunning : job.state = .running) (cause : TerminationCause) :
    wp (requestTerminate K j cause) (fun _ w' => Wf w'.st) w := by
  obtain ⟨p, hactive⟩ := (h.active_iff hjob).mpr (by rw [hrunning]; rfl)
  have hwf := wf_of_walk (looked_walk (K := K) h hactive) h
  refine wp_mono (requestTerminate_spec h hjob hrunning cause) fun _ w' hr => ?_
  obtain hstep | rfl | hstep := hr.idle
  · exact hstep.wf hwf
  · exact hwf
  · exact hstep.wf hwf

theorem forceKill_ends (h : Wf w.st) (hactive : w.st.activeJobs.find j = some p)
    (hjob : w.st.jobs.find j = some job) (hterminating : job.state = .terminating) :
    wp (forceKill K j) (fun r w' => ∃ events, KillEnds K j p job w r w' events) w := by
  have hcause := h.cause hjob hterminating
  obtain ⟨cause, hsome⟩ := Option.ne_none_iff_exists'.mp hcause
  unfold forceKill
  refine wp_bind_ok (jobAt_run hjob) ?_
  rw [if_neg (not_not.mpr hterminating), if_neg hcause]
  refine wp_bind (finishExitedChildBeforeSignal_looked h hactive hjob) (fun finished w1 h1 => ?_)
    fun e w1 h1 => ?_
  · obtain ⟨events, hlog, hquiet, hlooked⟩ := h1
    cases finished with
    | true =>
      refine wp_pure ⟨events, hlog, hquiet, ?_, hlooked.toRetained fun _ => hcause⟩
      cases hlooked with
      | kept hr => exact absurd rfl hr
      | settled hcomplete hsettled hjobs =>
        have hsettles := settles_of_settledJob hsettled
        obtain ⟨cause', hsome', hstate⟩ := hsettles.terminating hterminating
        obtain rfl : cause' = cause := Option.some.inj (hsome'.symm.trans hsome)
        refine ⟨_, cause', ?_, hsome, hsettles.cause.trans hsome, Or.inr hstate⟩
        rw [hjobs]
        exact Table.find_set_self _ _ _
    | false =>
      cases hlooked with
      | kept hr hjobs hactive1 =>
      refine wp_mono (sendSignalToProcessGroup_seen hactive1 hlog _ _) fun r w2 h2 => ?_
      obtain ⟨more, hlog2, hst2, hsignals2, hseen2⟩ := h2
      refine ⟨events ++ more, hlog2, ?_, ⟨job, cause, ?_, hsome, hsome, Or.inl hterminating⟩,
        .entry ?_⟩
      · rw [delivered_append, hquiet, hsignals2]
        rfl
      · rw [hst2, hjobs]
        exact hjob
      · rw [hst2, hseen2]
        exact hactive1
  · obtain ⟨events, hlog, hquiet, hlooked⟩ := h1
    refine ⟨events, hlog, hquiet, ?_, hlooked.toRetained fun _ => hcause⟩
    cases hlooked with
    | kept hr hjobs => exact ⟨job, cause, hjobs ▸ hjob, hsome, hsome, Or.inl hterminating⟩
    | garbled hcomplete hsettled hjobs =>
      refine ⟨withOutput (seen w.st.trackedFds j p events) job, cause, ?_, hsome, hsome,
        Or.inl hterminating⟩
      rw [hjobs]
      exact Table.find_set_self _ _ _

/-- Where SIGKILL is delivered, the daemon has only looked after the job before. -/
theorem forceKill_looks (h : Wf w.st) (hactive : w.st.activeJobs.find j = some p)
    (hjob : w.st.jobs.find j = some job) (hterminating : job.state = .terminating) :
    wp (forceKill K j) (fun r w' => r = .ok true → ∃ looks,
      w'.log = w.log ++ (looks ++ [.signalled j p.processGroupId .SIGKILL]) ∧
        ∀ e ∈ looks, lookEvent e) w := by
  unfold forceKill
  refine wp_bind_ok (jobAt_run hjob) ?_
  rw [if_neg (not_not.mpr hterminating), if_neg (h.cause hjob hterminating)]
  have hlook : wp (finishExitedChildBeforeSignal K j) (fun r w' => (r = .ok false →
      ∃ looks, w'.log = w.log ++ looks ∧ ∀ e ∈ looks, lookEvent e) ∧
      ∃ events, w'.log = w.log ++ events ∧ delivered events = [] ∧
        Looked K j job (seen w.st.trackedFds j p events) w w' r) w :=
    ⟨finishExitedChildBeforeSignal_looks h hactive,
      finishExitedChildBeforeSignal_looked h hactive hjob⟩
  refine wp_bind hlook (fun finished w1 h1 => ?_) fun e w1 _ hr => by cases hr
  obtain ⟨hlooks, events, -, -, hlooked⟩ := h1
  cases finished with
  | true => exact wp_pure fun hr => by cases hr
  | false =>
    obtain ⟨looks, hlog, hlooks⟩ := hlooks rfl
    cases hlooked with
    | kept hr hjobs hactive1 =>
    refine wp_mono (sendSignalToProcessGroup_spec hactive1 _ _) fun r w2 h2 hr => ?_
    subst hr
    obtain ⟨-, rfl⟩ | ⟨hr, -⟩ | ⟨e, hr, -⟩ := h2
    · refine ⟨looks, ?_, hlooks⟩
      rw [seen_processGroupId, World.emit_log, hlog, List.append_assoc]
    · cases hr
    · cases hr

/-- Both requests are atomic on the job, whatever `waitpid`, the pipes and `kill` answer. -/
theorem signals_atomic (h : Wf w.st) (hactive : w.st.activeJobs.find j = some p)
    (hjob : w.st.jobs.find j = some job) :
    (job.state = .running → ∀ cause, wp (requestTerminate K j cause)
      (fun r w' => ∃ events, TerminateEnds K j p job cause w r w' events) w) ∧
    (job.state = .terminating → wp (forceKill K j)
      (fun r w' => ∃ events, KillEnds K j p job w r w' events) w) :=
  ⟨fun hrunning cause => requestTerminate_ends h hactive hjob hrunning cause,
    fun hterminating => forceKill_ends h hactive hjob hterminating⟩

theorem signals_atomic_oneRunning :
    (requestTerminate Kernel.quiet 1 .cancelled oneRunning).1.toOption = some true ∧
      ∃ p job, oneRunning.st.activeJobs.find 1 = some p ∧ oneRunning.st.jobs.find 1 = some job ∧
        wp (requestTerminate Kernel.quiet 1 .cancelled) (fun r w' => ∃ events,
          TerminateEnds Kernel.quiet 1 p job .cancelled oneRunning r w' events) oneRunning := by
  have hstate : (oneRunning.st.jobs.find 1).map Job.state = some .running := by decide +kernel
  obtain ⟨job, hjob, hrunning⟩ := Option.map_eq_some_iff.mp hstate
  obtain ⟨p, hactive⟩ := (wf_oneRunning.active_iff hjob).mpr (by rw [hrunning]; rfl)
  exact ⟨by decide +kernel, p, job, hactive, hjob,
    (signals_atomic wf_oneRunning hactive hjob).1 hrunning .cancelled⟩

end ProcessMonitor

end Runnerd
