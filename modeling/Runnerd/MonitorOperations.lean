import Runnerd.MonitorSteps

/-!
# The operations of the process monitor

Each operation of the monitor, run from a well-formed state, is a walk of steps, whether it returns
or throws. The labels of the walk say which jobs the operation can touch, and the result says which
step it ended with.
-/

namespace Runnerd

open Effect Effect.Prog Steps

namespace ProcessMonitor

variable {K : Kernel} {w w' : World ProcessMonitor} {j : JobId} {job : Job} {p : ActiveProcess}

/-! ## Jobs and processes -/

theorem wp_withJob {α : Type} {m : Prog Job α}
    {Q : Except Exception α → World ProcessMonitor → Prop}
    (hjob : w.st.jobs.find j = some job)
    (hm : wp m (fun r v => Q r ⟨{ w.st with jobs := w.st.jobs.set j v.st }, v.log⟩) ⟨job, w.log⟩) :
    wp (withJob j m) Q w := by
  unfold wp withJob
  rw [hjob]
  exact hm

theorem withJob_update (hjob : w.st.jobs.find j = some job) (f : Job → Job) :
    withJob j (update f) w = (.ok (), w.put { w.st with jobs := w.st.jobs.set j (f job) }) := by
  unfold withJob
  rw [hjob]
  rfl

theorem jobAt_run (hjob : w.st.jobs.find j = some job) : jobAt j w = (.ok job, w) := by
  unfold jobAt
  rw [hjob]

theorem jobAt_of_none (hjob : w.st.jobs.find j = none) :
    jobAt j w = (.error .outOfRange, w.emit (.raised .outOfRange)) := by
  unfold jobAt
  rw [hjob]
  rfl

theorem modifyProcess_run (hactive : w.st.activeJobs.find j = some p)
    (f : ActiveProcess → ActiveProcess) : modifyProcess j f w =
      (.ok (), w.put { w.st with activeJobs := w.st.activeJobs.set j (f p) }) := by
  unfold modifyProcess
  rw [update_run, hactive]

theorem enter_run {target : JobState} (h : canTransition job.state target) (log : List Event) :
    enter target ⟨job, log⟩ =
      (.ok (), ⟨{ job with state := target }, log ++ [.entered job.id target]⟩) := by
  unfold enter
  rw [bind_of_ok (state_run _), bind_of_ok (raising_run_ok (transitionJob_eq h) _)]
  rfl

theorem withJob_enter {target : JobState} (hjob : w.st.jobs.find j = some job) (hid : job.id = j)
    (h : canTransition job.state target) : withJob j (enter target) w =
      (.ok (), ⟨{ w.st with jobs := w.st.jobs.set j { job with state := target } },
        w.log ++ [.entered j target]⟩) := by
  unfold withJob
  rw [hjob]
  show ((enter target ⟨job, w.log⟩).1, (⟨{ w.st with
    jobs := w.st.jobs.set j (enter target ⟨job, w.log⟩).2.st }, (enter target ⟨job, w.log⟩).2.log⟩ :
      World ProcessMonitor)) = _
  rw [enter_run h, hid]

/-! ## Settlement -/

/-- `settle` is `settledJob`, and throws before it changes anything. -/
theorem settle_run (hstate : job.state.isActive)
    (hcause : job.state = .terminating → job.terminationCause ≠ none) (log : List Event) :
    (∃ job', settledJob K p job = some job' ∧
        settle K p ⟨job, log⟩ = (.ok (), ⟨job', log ++ [.entered job.id job'.state]⟩)) ∨
      (settledJob K p job = none ∧ ∃ e, settle K p ⟨job, log⟩ = (.error e, ⟨job, log⟩)) := by
  obtain ⟨id, spec, state, pid, group, cause, code, signal, message, out, err⟩ := job
  unfold settle settledJob
  rw [bind_of_ok (state_run _)]
  cases state with
  | terminating =>
    simp only [if_true]
    rcases cause with _ | cause
    · exact absurd rfl (hcause rfl)
    cases p.waitStatus with
    | exited code =>
      refine Or.inl ⟨_, rfl, ?_⟩
      cases cause <;> rfl
    | signaled signal =>
      refine Or.inl ⟨_, rfl, ?_⟩
      cases cause <;> rfl
    | other => exact Or.inr ⟨rfl, _, rfl⟩
  | running =>
    simp only [reduceCtorEq, if_false]
    refine Or.inl ?_
    split_ifs with hempty hlength
    · cases p.waitStatus with
      | exited code =>
        simp only
        by_cases hcode : code = 0
        · simp only [if_pos hcode]
          exact ⟨_, rfl, rfl⟩
        · simp only [if_neg hcode]
          exact ⟨_, rfl, rfl⟩
      | signaled signal => exact ⟨_, rfl, rfl⟩
      | other => exact ⟨_, rfl, rfl⟩
    · exact ⟨_, rfl, rfl⟩
    · exact ⟨_, rfl, rfl⟩
  | queued | succeeded | failed | cancelled | timedOut | interrupted => cases hstate

/-- What `tryFinalizeJob` can do: nothing, as long as the process is not complete; settle the job; or
throw halfway through a settlement. -/
theorem tryFinalizeJob_spec (h : Wf w.st) (j : JobId) :
    wp (tryFinalizeJob K j) (fun r w' =>
      (r = .ok () ∧ w' = w ∧ ∀ p, w.st.activeJobs.find j = some p → p.complete = false) ∨
        (r = .ok () ∧ Step K (.settle j) w w') ∨ ∃ e, r = .error e ∧ Step K (.garble j) w w') w := by
  unfold tryFinalizeJob
  refine wp_bind_ok (state_run w) ?_
  cases hactive : w.st.activeJobs.find j with
  | none => exact wp_pure (Or.inl ⟨rfl, rfl, fun p hp => by cases hp⟩)
  | some p =>
    simp only
    by_cases hcomplete : p.complete = false
    · rw [if_pos hcomplete]
      refine wp_pure (Or.inl ⟨rfl, rfl, fun p' hp => ?_⟩)
      obtain rfl := Option.some.inj hp
      exact hcomplete
    rw [if_neg hcomplete]
    rw [Bool.not_eq_false] at hcomplete
    obtain ⟨job, hjob⟩ := h.job_of_active hactive
    have hid := h.id_eq hjob
    refine wp_bind_ok (jobAt_run hjob) (wp_bind_ok (withJob_update hjob _) ?_)
    set w1 : World ProcessMonitor :=
      w.put { w.st with jobs := w.st.jobs.set j (withOutput p job) } with hw1
    have hactive1 : w1.st.activeJobs.find j = some p := hactive
    refine wp_bind_ok (modifyProcess_run hactive1 _) ?_
    set w2 : World ProcessMonitor := w1.put { w1.st with
      activeJobs := w1.st.activeJobs.set j
        (p.swapOutput job.standardOutput job.standardError) } with hw2
    have hjob2 : w2.st.jobs.find j = some (withOutput p job) := Table.find_set_self _ _ _
    have hstate : (withOutput p job).state.isActive := (h.isActive hjob hactive :)
    have hcause : (withOutput p job).state = .terminating →
        (withOutput p job).terminationCause ≠ none := (h.cause hjob :)
    obtain ⟨job', hsettled, hrun⟩ | ⟨hsettled, e, hrun⟩ :=
      settle_run (K := K) (p := p) hstate hcause w.log
    · have hstep := Step.settle (K := K) hactive hcomplete hjob hsettled
      refine wp_bind (R := fun r w' => r = .ok () ∧ w' =
        ⟨{ w2.st with jobs := w.st.jobs.set j job' }, w.log ++ [.entered j job'.state]⟩)
        (wp_withJob hjob2 (wp_of_run hrun ⟨rfl, ?_⟩)) (fun _ w3 hw3 => ?_) fun _ _ hr => by cases hr.1
      · rw [show w2.st.jobs = w.st.jobs.set j (withOutput p job) from rfl, Table.set_set,
          show (withOutput p job).id = j from hid]
      · obtain rfl := hw3.2
        refine wp_update (Or.inr (Or.inl ⟨rfl, ?_⟩))
        rw [← Table.del_set w.st.activeJobs j
          (p.swapOutput job.standardOutput job.standardError)] at hstep
        simp only [hid]
        exact hstep
    · have hstep := Step.garble (K := K) hactive hcomplete hjob hsettled
      refine wp_bind (R := fun r w' => (∃ e, r = .error e) ∧ w' = w2)
        (wp_withJob hjob2 (wp_of_run hrun ⟨⟨e, rfl⟩, ?_⟩)) (fun _ w3 hw3 => ?_) fun e w3 hw3 => ?_
      · rw [show w2.st.jobs = w.st.jobs.set j (withOutput p job) from rfl, Table.set_set]
        rfl
      · obtain ⟨e, hr⟩ := hw3.1
        cases hr
      · obtain rfl := hw3.2
        exact Or.inr (Or.inr ⟨e, rfl, hstep⟩)

/-! ## Pipes and children -/

theorem drainsOf_le_drains (j : JobId) : {l : Label | l.drainsOf j} ⊆ {l | l.drains} := by
  intro l hl
  cases l <;> first | rfl | cases hl

theorem drains_le_polls (j : JobId) : {l : Label | l.drains} ⊆ {l | l.polls j} := by
  intro l hl
  cases l <;> first | rfl | cases hl

theorem polls_le_watches (j : JobId) : {l : Label | l.polls j} ⊆ {l | l.watches} := by
  intro l hl
  cases l <;> first | rfl | cases hl

theorem closeTrackedFd_run {fd : Fd} {kind : ProcessFdKind}
    (htracked : w.st.trackedFds.find fd = some ⟨j, kind⟩)
    (hactive : w.st.activeJobs.find j = some p) :
    closeTrackedFd fd w = (.ok (), ⟨{ w.st with
      activeJobs := w.st.activeJobs.set j (p.closePipe kind)
      trackedFds := w.st.trackedFds.del fd }, w.log ++ [.unregistered fd] ++ [.closed fd]⟩) := by
  unfold closeTrackedFd
  rw [bind_of_ok (state_run w), htracked]
  exact (bind_of_ok (modifyProcess_run hactive _)).trans rfl

/-- Reading a pipe to what it has got. It stays tracked if the reading fails. -/
theorem drainLoop_spec {fd : Fd} {kind : ProcessFdKind} (reads : Reads)
    (htracked : w.st.trackedFds.find fd = some ⟨j, kind⟩)
    (hactive : w.st.activeJobs.find j = some p) :
    wp (drainLoop fd ⟨j, kind⟩ reads) (fun r w' => Walk (Step K) {l | l.drainsOf j} w w' ∧
      ((∃ e, r = .error e) → w'.st.trackedFds.find fd = some ⟨j, kind⟩)) w := by
  induction reads generalizing w p with
  | data bytes rest ih =>
    have hstep := @Step.receive K w fd j kind p bytes htracked hactive
    unfold drainLoop
    have hactive' : (w.emit (.received fd bytes)).st.activeJobs.find j = some p := hactive
    refine wp_bind_ok (emit_run w _) (wp_bind_ok (modifyProcess_run hactive' _) ?_)
    refine wp_mono (ih htracked (Table.find_set_self _ _ _)) fun r w' h' => ?_
    obtain ⟨hwalk, herror⟩ := h'
    exact ⟨hwalk.head hstep (by simp [Label.drainsOf]), herror⟩
  | interrupted rest ih => exact ih htracked hactive
  | eof =>
    have hstep := Step.finish (K := K) htracked hactive
    unfold drainLoop
    have hactive' : (w.emit (.reachedEof fd)).st.activeJobs.find j = some p := hactive
    refine wp_bind_ok (emit_run w _) (wp_of_run (closeTrackedFd_run htracked hactive') ?_)
    simp only [World.emit, List.append_assoc, List.cons_append, List.nil_append]
    refine ⟨Walk.single (by simp [Label.drainsOf]) hstep, ?_⟩
    rintro ⟨_, hr⟩
    cases hr
  | again =>
    refine ⟨Walk.single rfl (Step.idle rfl), ?_⟩
    rintro ⟨_, hr⟩
    cases hr
  | failed e => exact ⟨Walk.single rfl (Step.idle rfl), fun _ => htracked⟩

theorem drainProcessFd_spec (h : Wf w.st) (fd : Fd) :
    wp (drainProcessFd K fd) (fun _ w' => Walk (Step K) {l | l.drains} w w') w := by
  unfold drainProcessFd
  refine wp_bind_ok (state_run w) ?_
  cases htracked : w.st.trackedFds.find fd with
  | none => exact wp_pure Walk.refl
  | some tracked =>
    obtain ⟨p, hactive, -⟩ := @Wf.fd_owner _ h fd tracked.jobId tracked.kind htracked
    simp only [hactive]
    refine wp_bind_ok (history_run w) (wp_mono (drainLoop_spec (K := K) _ htracked hactive)
      fun _ _ hwalk => ?_)
    exact hwalk.1.mono (drainsOf_le_drains tracked.jobId)

/-- A walk of steps ends in a well-formed state. -/
theorem wf_of_walk {A : Set Label} (hwalk : Walk (Step K) A w w') (h : Wf w.st) : Wf w'.st :=
  hwalk.invariant (P := fun w => Wf w.st) (fun _ _ _ _ hstep h => hstep.wf h) h

theorem drainFds_spec (h : Wf w.st) (fds : List Fd) :
    wp (drainFds K fds) (fun _ w' => Walk (Step K) {l | l.drains} w w') w := by
  induction fds generalizing w with
  | nil => exact wp_pure Walk.refl
  | cons fd rest ih =>
    refine wp_bind (drainProcessFd_spec h fd) (fun _ w1 h1 => ?_) fun _ _ h => h
    exact wp_mono (ih (wf_of_walk h1 h)) fun _ _ h2 => h1.trans h2

/-- `tryFinalizeJob` as a walk. -/
theorem tryFinalizeJob_walk (h : Wf w.st) (j : JobId) :
    wp (tryFinalizeJob K j) (fun _ w' => Walk (Step K) {l | l.polls j} w w') w := by
  refine wp_mono (tryFinalizeJob_spec h j) fun r w' hr => ?_
  obtain ⟨-, rfl, -⟩ | ⟨-, hstep⟩ | ⟨e, -, hstep⟩ := hr
  · exact Walk.refl
  · exact Walk.single (by simp [Label.polls]) hstep
  · exact Walk.single (by simp [Label.polls]) hstep

/-- What `tryFinalizeJob` does not settle, something is still missing of. -/
theorem tryFinalizeJob_incomplete (h : Wf w.st) (j : JobId) :
    wp (tryFinalizeJob K j) (fun r w' => r = .ok () →
      ∀ p, w'.st.activeJobs.find j = some p → p.complete = false) w := by
  refine wp_mono (tryFinalizeJob_spec h j) fun r w' hr hok p hp => ?_
  obtain ⟨-, rfl, hincomplete⟩ | ⟨-, hstep⟩ | ⟨e, rfl, -⟩ := hr
  · exact hincomplete p hp
  · cases hstep with
    | settle => exact absurd ((Table.find_del_self _ _).symm.trans hp) (by simp)
  · cases hok

theorem reapLoop_spec (h : Wf w.st) (reaps : Reaps) :
    wp (reapLoop K reaps) (fun _ w' => Walk (Step K) {l | l.watches} w w') w := by
  induction reaps generalizing w with
  | child pid status rest ih =>
    unfold reapLoop
    refine wp_bind_ok (emit_run w _) (wp_bind_ok (state_run _) ?_)
    simp only [World.emit_st]
    cases hpid : w.st.pidToJob.find pid with
    | none =>
      have hstep := @Step.stray K w pid status hpid
      exact wp_mono (ih h) fun _ _ hwalk => hwalk.head hstep rfl
    | some j =>
      obtain ⟨p, hactive, rfl⟩ := h.pid_owner hpid
      have hstep := @Step.exited K w j p status hactive (Or.inl hpid)
      have hwf := hstep.wf h
      simp only [hactive]
      have hactive' : (w.emit (.reaped p.pid status)).st.activeJobs.find j = some p := hactive
      refine wp_bind_ok (modifyProcess_run hactive' _) (wp_bind_ok (emit_run _ _) ?_)
      refine wp_bind (R := fun _ w' => Walk (Step K) {l | l.watches} w w') ?_ (fun _ w1 h1 => ?_)
        fun _ _ h => h
      · simp only [World.emit, World.put, List.append_assoc, List.cons_append, List.nil_append]
        refine wp_mono (tryFinalizeJob_walk hwf j) fun _ w' hwalk => ?_
        exact (hwalk.mono (polls_le_watches j)).head hstep rfl
      · exact wp_mono (ih (wf_of_walk h1 h)) fun _ _ h2 => h1.trans h2
  | interrupted rest ih => exact ih h
  | none => exact Walk.single rfl (Step.idle rfl)
  | failed e =>
    unfold reapLoop
    refine wp_bind_ok (emit_run w _) ?_
    split_ifs
    · exact wp_pure (Walk.single rfl (Step.idle rfl))
    · exact wp_throw (Walk.single rfl (Step.idle rfl))

theorem readSignalsLoop_spec (reads : SignalReads) :
    wp (readSignalsLoop reads) (fun _ w' => Walk (Step K) {l | l.watches} w w') w := by
  induction reads with
  | records rest ih => exact ih
  | interrupted rest ih => exact ih
  | partialRecord => exact Walk.single rfl (Step.idle rfl)
  | eof => exact Walk.single rfl (Step.idle rfl)
  | again => exact Walk.single rfl (Step.idle rfl)
  | failed e => exact Walk.single rfl (Step.idle rfl)

theorem handleSigchld_spec (h : Wf w.st) :
    wp (handleSigchld K) (fun _ w' => Walk (Step K) {l | l.watches} w w') w := by
  unfold handleSigchld reapExitedChildren
  refine wp_bind_ok (history_run w) ?_
  refine wp_bind (readSignalsLoop_spec (K := K) _) (fun _ w1 h1 => ?_) fun _ _ h => h
  refine wp_bind_ok (history_run w1) ?_
  exact wp_mono (reapLoop_spec (wf_of_walk h1 h) _) fun _ _ h2 => h1.trans h2

/-- Serving an event of the signalfd or of a pipe. -/
theorem handleFileDescriptorEvent_spec (h : Wf w.st) (fd : Fd) (eventMask : EventMask) :
    wp (handleFileDescriptorEvent K fd eventMask)
      (fun _ w' => Walk (Step K) {l | l.watches} w w') w := by
  unfold handleFileDescriptorEvent
  refine wp_bind_ok (state_run w) ?_
  split_ifs
  · exact handleSigchld_spec h
  · cases htracked : w.st.trackedFds.find fd with
    | none => exact wp_pure Walk.refl
    | some tracked =>
      have hsub : {l : Label | l.drains} ⊆ {l | l.watches} :=
        (drains_le_polls tracked.jobId).trans (polls_le_watches tracked.jobId)
      refine wp_bind (wp_mono (drainProcessFd_spec h fd) fun _ _ h1 => h1.mono hsub)
        (fun _ w1 h1 => ?_) fun _ _ h => h
      refine wp_mono (tryFinalizeJob_walk (wf_of_walk h1 h) tracked.jobId) fun _ _ h2 => ?_
      exact h1.trans (h2.mono (polls_le_watches _))
  · exact wp_pure Walk.refl

/-! ## Signals -/

/-- A job that is looked after keeps its state and its cause, or is settled. -/
theorem job_of_polls (hwalk : Walk (Step K) {l | l.polls j} w w') (h : Wf w.st)
    (hjob : w.st.jobs.find j = some job) :
    ∃ job', w'.st.jobs.find j = some job' ∧
      (job'.state = job.state ∧ job'.terminationCause = job.terminationCause ∨
        isTerminal job'.state) := by
  have key : Wf w'.st ∧ ∃ job', w'.st.jobs.find j = some job' ∧
      (job'.state = job.state ∧ job'.terminationCause = job.terminationCause ∨
        isTerminal job'.state) := by
    refine hwalk.invariant (P := fun w => Wf w.st ∧ ∃ job', w.st.jobs.find j = some job' ∧
      (job'.state = job.state ∧ job'.terminationCause = job.terminationCause ∨
        isTerminal job'.state)) ?_ ⟨h, job, hjob, Or.inl ⟨rfl, rfl⟩⟩
    rintro l hl a b hstep ⟨hwf, job', hjob', hstate⟩
    refine ⟨hstep.wf hwf, ?_⟩
    cases hstep with
    | idle | receive | finish | exited | lost => exact ⟨job', hjob', hstate⟩
    | @settle _ k p job₀ job₁ hactive hcomplete hjob₀ hsettled =>
      obtain rfl : k = j := by simpa [Label.polls] using hl
      exact ⟨job₁, Table.find_set_self _ _ _, Or.inr (settles_of_settledJob hsettled).terminal⟩
    | @garble _ k p job₀ hactive hcomplete hjob₀ hsettled =>
      obtain rfl : k = j := by simpa [Label.polls] using hl
      rw [hjob'] at hjob₀
      obtain rfl := Option.some.inj hjob₀
      exact ⟨_, Table.find_set_self _ _ _, hstate⟩
    | stray | misuse | misstart | launchFailed | abandoned | started | terminate | kill | submit
      | dequeue | collect => simp [Label.polls] at hl
  exact key.2

/-- What asking for the child of a job comes to: its exit is known, found out, or still to come; or
the call throws. -/
inductive Polled (K : Kernel) (j : JobId) (p : ActiveProcess) (w w' : World ProcessMonitor) :
    Except Exception ActiveProcess → Prop where
  | known (hexited : p.childExited) (heq : w' = w) : Polled K j p w w' (.ok p)
  | exited {status : WaitStatus} (hexited : p.childExited = false)
      (hwait : (K.waitpid w.log p.pid).last = .exited status) (hstep : Step K (.exited j) w w')
      (hactive : w'.st.activeJobs.find j = some (p.exit status)) :
      Polled K j p w w' (.ok (p.exit status))
  | running (hexited : p.childExited = false)
      (hwait : (K.waitpid w.log p.pid).last = .running) (heq : w' = w.emit (.called .waitpid)) :
      Polled K j p w w' (.ok p)
  | failed {e : Exception} {l : Label} (hl : l = .idle ∨ l = .lost j) (hstep : Step K l w w') :
      Polled K j p w w' (.error e)

theorem pollChild_polled (hactive : w.st.activeJobs.find j = some p) :
    wp (pollChild K j) (fun r w' => Polled K j p w w' r) w := by
  unfold pollChild
  refine wp_bind_ok (state_run w) ?_
  simp only [hactive]
  split_ifs with hexited
  · exact wp_pure (.known hexited rfl)
  have hexited := Bool.eq_false_iff.mpr hexited
  refine wp_bind_ok (history_run w) ?_
  cases hwait : (K.waitpid w.log p.pid).last with
  | exited status =>
    have hstep := @Step.exited K w j p status hactive (Or.inr hexited)
    have hactive' : (w.emit (.reaped p.pid status)).st.activeJobs.find j = some p := hactive
    refine wp_bind_ok (emit_run w _) (wp_bind_ok (modifyProcess_run hactive' _)
      (wp_bind_ok (emit_run _ _) ?_))
    simp only [World.emit, World.put, List.append_assoc, List.cons_append, List.nil_append]
    exact wp_pure (.exited hexited hwait hstep (Table.find_set_self _ _ _))
  | running => exact wp_bind_ok (emit_run w _) (wp_pure (.running hexited hwait rfl))
  | failed e =>
    refine wp_bind_ok (emit_run w _) ?_
    split_ifs with he
    · have hlost := Step.lost hactive hexited (he ▸ hwait)
      refine wp_of_run (raise_run _ _) (.failed (Or.inr rfl) ?_)
      simp only [World.emit, List.append_assoc, List.cons_append, List.nil_append]
      exact hlost
    · exact wp_throw (.failed (Or.inl rfl) (Step.idle rfl))

theorem pollChild_spec (hactive : w.st.activeJobs.find j = some p) :
    wp (pollChild K j) (fun r w' => Walk (Step K) {l | l.polls j} w w' ∧
      ∀ q, r = .ok q → w'.st.activeJobs.find j = some q) w := by
  refine wp_mono (pollChild_polled hactive) fun r w' hr => ?_
  cases hr with
  | known hexited heq =>
    subst heq
    exact ⟨Walk.refl, fun q hq => Except.ok.inj hq ▸ hactive⟩
  | exited hexited hwait hstep hactive' =>
    exact ⟨Walk.single (by simp [Label.polls]) hstep, fun q hq => Except.ok.inj hq ▸ hactive'⟩
  | running hexited hwait heq =>
    subst heq
    exact ⟨Walk.single rfl (Step.idle rfl), fun q hq => Except.ok.inj hq ▸ hactive⟩
  | failed hl hstep =>
    refine ⟨Walk.single ?_ hstep, fun q hq => by cases hq⟩
    obtain rfl | rfl := hl <;> simp [Label.polls]

/-- `finishExitedChildBeforeSignal` returns whether the job is settled; otherwise its child runs or a
pipe of it is open. -/
theorem finishExitedChildBeforeSignal_spec (h : Wf w.st)
    (hactive : w.st.activeJobs.find j = some p) :
    wp (finishExitedChildBeforeSignal K j) (fun r w' => Walk (Step K) {l | l.polls j} w w' ∧
      ∀ b, r = .ok b → ∃ job, w'.st.jobs.find j = some job ∧ isTerminal job.state = b ∧
        ∀ q, w'.st.activeJobs.find j = some q → q.complete = false) w := by
  unfold finishExitedChildBeforeSignal
  refine wp_bind (pollChild_spec hactive) (fun q w1 h1 => ?_) fun e w1 h1 =>
    ⟨h1.1, fun b hb => by cases hb⟩
  have hwf1 := wf_of_walk h1.1 h
  have hactive1 := h1.2 q rfl
  split_ifs with hexited
  · refine wp_pure ⟨h1.1, fun b hb => ?_⟩
    obtain rfl := Except.ok.inj hb
    obtain ⟨job, hjob⟩ := hwf1.job_of_active hactive1
    refine ⟨job, hjob, isTerminal_of_isActive (hwf1.isActive hjob hactive1), fun q' hq' => ?_⟩
    obtain rfl := Option.some.inj (hactive1.symm.trans hq')
    simp [ActiveProcess.complete, hexited]
  refine wp_bind (drainFds_spec hwf1 _) (fun _ w2 h2 => ?_) fun e w2 h2 =>
    ⟨h1.1.trans (h2.mono (drains_le_polls j)), fun b hb => by cases hb⟩
  have hwalk2 := h1.1.trans (h2.mono (drains_le_polls j))
  have hwf2 := wf_of_walk hwalk2 h
  have hfinal : wp (tryFinalizeJob K j) (fun r w3 => Walk (Step K) {l | l.polls j} w2 w3 ∧
      (r = .ok () → ∀ q, w3.st.activeJobs.find j = some q → q.complete = false)) w2 :=
    ⟨tryFinalizeJob_walk hwf2 j, tryFinalizeJob_incomplete hwf2 j⟩
  refine wp_bind hfinal (fun _ w3 h3 => ?_) fun e w3 h3 =>
    ⟨hwalk2.trans h3.1, fun b hb => by cases hb⟩
  have hwalk3 := hwalk2.trans h3.1
  obtain ⟨job, hjob⟩ := h.job_of_active hactive
  obtain ⟨job', hjob', -⟩ := job_of_polls hwalk3 h hjob
  refine wp_bind_ok (jobAt_run hjob') (wp_pure ⟨hwalk3, fun b hb => ⟨job', hjob', ?_, h3.2 rfl⟩⟩)
  exact Except.ok.inj hb

/-- `finishExitedChildBeforeSignal` finds no process of the job. -/
theorem finishExitedChildBeforeSignal_of_none (hactive : w.st.activeJobs.find j = none) :
    ∃ e, finishExitedChildBeforeSignal K j w = (.error e, w.emit (.raised e)) := by
  have hpoll : pollChild K j w = (.error (.logicError (text
      "job has no active process before signal")), w.emit (.raised (.logicError (text
      "job has no active process before signal")))) := by
    unfold pollChild
    rw [bind_of_ok (state_run w), hactive]
    rfl
  exact ⟨_, bind_of_error hpoll⟩

/-- What `sendSignalToProcessGroup` reports of `kill`. -/
theorem sendSignalToProcessGroup_spec (hactive : w.st.activeJobs.find j = some p)
    (signal : Signal) (operation : Bytes) :
    wp (sendSignalToProcessGroup K j signal operation) (fun r w' =>
      (r = .ok true ∧ w' = w.emit (.signalled j p.processGroupId signal)) ∨
        (r = .ok false ∧ w' = w.emit (.groupGone j p.processGroupId signal)) ∨
        ∃ e, r = .error e ∧ w' = w.emit (.called .kill)) w := by
  unfold sendSignalToProcessGroup
  refine wp_bind_ok (state_run w) ?_
  simp only [hactive]
  refine wp_bind_ok (history_run w) ?_
  cases (K.kill w.log p.processGroupId signal).last with
  | ok _ => exact wp_bind_ok (emit_run w _) (wp_pure (Or.inl ⟨rfl, rfl⟩))
  | error e =>
    simp only
    split_ifs
    · exact wp_bind_ok (emit_run w _) (wp_pure (Or.inr (Or.inl ⟨rfl, rfl⟩)))
    · exact wp_bind_ok (emit_run w _) (wp_throw (Or.inr (Or.inr ⟨_, rfl, rfl⟩)))

/-- The world in which a signal is sent: after the job was looked after. -/
def looked (K : Kernel) (j : JobId) (w : World ProcessMonitor) : World ProcessMonitor :=
  (finishExitedChildBeforeSignal K j w).2

theorem looked_walk (h : Wf w.st) (hactive : w.st.activeJobs.find j = some p) :
    Walk (Step K) {l | l.polls j} w (looked K j w) :=
  (finishExitedChildBeforeSignal_spec (K := K) h hactive).1

/-- What a request to terminate can end with, after it has looked after the job: SIGTERM delivered
and the job terminating, the job settled, or no process group found; or it throws, before or at the
signal. -/
inductive Requested (K : Kernel) (j : JobId) (cause : TerminationCause)
    (w w' : World ProcessMonitor) : Except Exception Bool → Prop where
  | terminated (hstep : Step K (.terminate j cause) w w') : Requested K j cause w w' (.ok true)
  | settled {job : Job} (heq : w' = w) (hjob : w'.st.jobs.find j = some job)
      (hterm : isTerminal job.state) : Requested K j cause w w' (.ok false)
  | groupGone {p : ActiveProcess} {job : Job}
      (heq : w' = w.emit (.groupGone j p.processGroupId .SIGTERM))
      (hactive : w.st.activeJobs.find j = some p) (hjob : w'.st.jobs.find j = some job)
      (hrunning : job.state = .running) : Requested K j cause w w' (.ok false)
  | failed {e : Exception} (heq : w' = w) : Requested K j cause w w' (.error e)
  | refused {p : ActiveProcess} {job : Job} {e : Exception}
      (heq : w' = w.emit (.called .kill)) (hactive : w.st.activeJobs.find j = some p)
      (hjob : w'.st.jobs.find j = some job) (hrunning : job.state = .running) :
      Requested K j cause w w' (.error e)

/-- A request that delivers no signal only looks after the job. -/
theorem Requested.idle {cause : TerminationCause} {r : Except Exception Bool}
    (h : Requested K j cause w w' r) :
    Step K (.terminate j cause) w w' ∨ w' = w ∨ Step K .idle w w' := by
  cases h with
  | terminated hstep => exact Or.inl hstep
  | settled heq => exact Or.inr (Or.inl heq)
  | failed heq => exact Or.inr (Or.inl heq)
  | groupGone heq => exact Or.inr (Or.inr (heq ▸ .idle rfl))
  | refused heq => exact Or.inr (Or.inr (heq ▸ .idle rfl))

/-- A job that was looked after and is not settled is in the state it was in. -/
theorem state_of_looked {job' : Job} (hwalk : Walk (Step K) {l | l.polls j} w w') (h : Wf w.st)
    (hjob : w.st.jobs.find j = some job) (hjob' : w'.st.jobs.find j = some job')
    (hterm : isTerminal job'.state = false) : job'.state = job.state := by
  obtain ⟨job'', hjob'', hstate⟩ := job_of_polls hwalk h hjob
  rw [hjob'] at hjob''
  obtain rfl := Option.some.inj hjob''
  obtain ⟨hstate, -⟩ | hstate := hstate
  · exact hstate
  · rw [hterm] at hstate
    cases hstate

theorem requestTerminate_spec (h : Wf w.st) (hjob : w.st.jobs.find j = some job)
    (hrunning : job.state = .running) (cause : TerminationCause) :
    wp (requestTerminate K j cause) (fun r w' => Requested K j cause (looked K j w) w' r) w := by
  unfold requestTerminate
  refine wp_bind_ok (jobAt_run hjob) ?_
  rw [if_neg (not_not.mpr hrunning)]
  obtain ⟨p, hactive⟩ := (h.active_iff hjob).mpr (by rw [hrunning]; rfl)
  have hlook := finishExitedChildBeforeSignal_spec (K := K) h hactive
  rcases hrun : finishExitedChildBeforeSignal K j w with ⟨r, w1⟩
  obtain ⟨hwalk, hfinished⟩ := wp_run hlook hrun
  obtain rfl : looked K j w = w1 := congrArg Prod.snd hrun
  cases r with
  | error e => exact wp_of_run (bind_of_error hrun) (.failed rfl)
  | ok finished =>
  refine wp_bind_ok hrun ?_
  set w1 := looked K j w
  obtain ⟨job1, hjob1, hterm1, hincomplete⟩ := hfinished finished rfl
  cases finished with
  | true => exact wp_pure (.settled rfl hjob1 hterm1)
  | false =>
  simp only [Bool.false_eq_true, if_false]
  have hwf1 := wf_of_walk hwalk h
  have hrunning1 : job1.state = .running := by
    rw [state_of_looked hwalk h hjob hjob1 hterm1, hrunning]
  obtain ⟨q, hactive1⟩ := (hwf1.active_iff hjob1).mpr (by rw [hrunning1]; rfl)
  refine wp_bind (sendSignalToProcessGroup_spec hactive1 _ _) (fun delivered w2 h2 => ?_)
    fun e w2 h2 => ?_
  · obtain ⟨hr, rfl⟩ | ⟨hr, rfl⟩ | ⟨e, hr, -⟩ := h2
    · obtain rfl := Except.ok.inj hr
      simp only [Bool.true_eq_false, if_false]
      have hid := hwf1.id_eq hjob1
      have htrans : canTransition job1.state .terminating := by
        rw [hrunning1]
        rfl
      set w2 := w1.emit (.signalled j q.processGroupId .SIGTERM) with hw2
      set w3 : World ProcessMonitor := ⟨{ w1.st with
        jobs := w1.st.jobs.set j { job1 with state := .terminating } },
        w2.log ++ [.entered j .terminating]⟩ with hw3
      have hjob2 : w2.st.jobs.find j = some job1 := hjob1
      have henter : withJob j (enter .terminating) w2 = (.ok (), w3) :=
        withJob_enter hjob2 hid htrans
      have hjob3 : w3.st.jobs.find j = some { job1 with state := .terminating } :=
        Table.find_set_self _ _ _
      refine wp_bind_ok henter (wp_bind_ok (withJob_update hjob3 _) (wp_bind_ok (emit_run _ _) ?_))
      refine wp_pure (.terminated ?_)
      have hstep : Step K (.terminate j cause) w1 _ :=
        .terminate hactive1 hjob1 hrunning1 (hincomplete q hactive1)
      rw [← Table.set_set w1.st.jobs j { job1 with state := .terminating }] at hstep
      simp only [World.emit, World.put, hw3, hw2, List.append_assoc, List.cons_append,
        List.nil_append]
      exact hstep
    · obtain rfl := Except.ok.inj hr
      exact wp_pure (.groupGone rfl hactive1 hjob1 hrunning1)
    · cases hr
  · obtain ⟨hr, -⟩ | ⟨hr, -⟩ | ⟨e, hr, rfl⟩ := h2
    · cases hr
    · cases hr
    · exact .refused rfl hactive1 hjob1 hrunning1

/-- `requestTerminate` finds no running job. -/
theorem requestTerminate_of_not (hnot : ∀ job, w.st.jobs.find j = some job → job.state ≠ .running)
    (cause : TerminationCause) :
    ∃ e, requestTerminate K j cause w = (.error e, w.emit (.raised e)) := by
  cases hjob : w.st.jobs.find j with
  | none => exact ⟨_, bind_of_error (jobAt_of_none hjob)⟩
  | some job =>
    refine ⟨.logicError (text "only RUNNING jobs can be terminated"), ?_⟩
    unfold requestTerminate
    rw [bind_of_ok (jobAt_run hjob), if_pos (hnot job hjob)]
    rfl

/-- `forceKill` looks after the job and may then deliver SIGKILL. -/
theorem forceKill_spec (h : Wf w.st) (hjob : w.st.jobs.find j = some job)
    (hterminating : job.state = .terminating) :
    wp (forceKill K j) (fun _ w' => Step K (.kill j) (looked K j w) w' ∨ w' = looked K j w ∨
      Step K .idle (looked K j w) w') w := by
  unfold forceKill
  refine wp_bind_ok (jobAt_run hjob) ?_
  rw [if_neg (not_not.mpr hterminating), if_neg (h.cause hjob hterminating)]
  obtain ⟨p, hactive⟩ := (h.active_iff hjob).mpr (by rw [hterminating]; rfl)
  have hlook := finishExitedChildBeforeSignal_spec (K := K) h hactive
  rcases hrun : finishExitedChildBeforeSignal K j w with ⟨r, w1⟩
  obtain ⟨hwalk, hfinished⟩ := wp_run hlook hrun
  obtain rfl : looked K j w = w1 := congrArg Prod.snd hrun
  cases r with
  | error e => exact wp_of_run (bind_of_error hrun) (Or.inr (Or.inl rfl))
  | ok finished =>
  refine wp_bind_ok hrun ?_
  obtain ⟨job1, hjob1, hterm1, -⟩ := hfinished finished rfl
  cases finished with
  | true => exact wp_pure (Or.inr (Or.inl rfl))
  | false =>
  simp only [Bool.false_eq_true, if_false]
  have hterminating1 : job1.state = .terminating := by
    rw [state_of_looked hwalk h hjob hjob1 hterm1, hterminating]
  obtain ⟨q, hactive1⟩ := ((wf_of_walk hwalk h).active_iff hjob1).mpr (by rw [hterminating1]; rfl)
  refine wp_mono (sendSignalToProcessGroup_spec hactive1 _ _) fun r w2 h2 => ?_
  obtain ⟨-, rfl⟩ | ⟨-, rfl⟩ | ⟨e, -, rfl⟩ := h2
  · exact Or.inl (.kill hactive1 hjob1 hterminating1)
  · exact Or.inr (Or.inr (.idle rfl))
  · exact Or.inr (Or.inr (.idle rfl))

/-- `forceKill` finds no terminating job. -/
theorem forceKill_of_not
    (hnot : ∀ job, w.st.jobs.find j = some job → job.state ≠ .terminating) :
    ∃ e, forceKill K j w = (.error e, w.emit (.raised e)) := by
  cases hjob : w.st.jobs.find j with
  | none => exact ⟨_, bind_of_error (jobAt_of_none hjob)⟩
  | some job =>
    refine ⟨.logicError (text "only TERMINATING jobs can be force killed"), ?_⟩
    unfold forceKill
    rw [bind_of_ok (jobAt_run hjob), if_pos (hnot job hjob)]
    rfl

/-! ## Starting a job -/

theorem launching_of_moreStandard {w₀ w : World ProcessMonitor} {fds : List Fd}
    {children : List Pid} (h : MoreStandard w₀ w fds children) :
    w.st = w₀.st ∧ ∃ events, w.log = w₀.log ++ events ∧ Launching events fds children := by
  obtain ⟨std, hstd, hst, killed, events, h, hlog, hrun, hfds, hchildren, -⟩ := h
  exact ⟨hst, events, hlog, std, h, hstd, hrun, hfds, hchildren⟩

/-- A launch goes on. -/
theorem Launching.append {events rest : List Event} {fds fds' : List Fd}
    {children children' : List Pid} (h : Launching events fds children)
    (hrest : ∀ std killed, Holds [] events (fds ++ std) children killed →
      ∃ killed', Holds [] (events ++ rest) (fds' ++ std) children' killed') :
    Launching (events ++ rest) fds' children' := by
  obtain ⟨std, h, hstd, hrun, hfds, hchildren⟩ := h
  obtain ⟨killed', events', h', hlog, hrun', hfds', hchildren', -⟩ :=
    hrest std h.killed ⟨events, h, rfl, hrun, hfds, hchildren, rfl⟩
  rw [List.nil_append] at hlog
  exact ⟨std, h', hstd, hlog ▸ hrun', hfds', hchildren'⟩

/-- The events of giving up these descriptors. -/
def abandonEvents (fds : List Fd) : List Event :=
  fds.flatMap fun fd => [.unregistered fd, .closed fd]

theorem abandonFds_run (fds : List Fd) (w : World ProcessMonitor) :
    ∃ trackedFds : Table Fd TrackedFd, abandonFds fds w =
        (.ok (), ⟨{ w.st with trackedFds }, w.log ++ abandonEvents fds⟩) ∧
      ∀ fd, trackedFds.find fd = if fd ∈ fds then none else w.st.trackedFds.find fd := by
  induction fds generalizing w with
  | nil => exact ⟨w.st.trackedFds, by simp [abandonFds, abandonEvents], by simp⟩
  | cons fd rest ih =>
    obtain ⟨trackedFds, hrun, hfind⟩ := ih
      ⟨{ w.st with trackedFds := w.st.trackedFds.del fd },
        w.log ++ [.unregistered fd] ++ [.closed fd]⟩
    refine ⟨trackedFds, ?_, fun fd' => ?_⟩
    · unfold abandonFds
      rw [bind_of_ok (epollDel_run w fd), bind_of_ok (update_run _ _), bind_of_ok (close_run _ fd)]
      refine Eq.trans hrun ?_
      simp [abandonEvents]
    · rw [hfind]
      simp only [Table.find_del, List.mem_cons]
      by_cases h1 : fd' ∈ rest <;> by_cases h2 : fd' = fd <;> simp [h1, h2]

theorem holds_abandonEvents {log₀ log : List Event} {fds std : List Fd} {children : List Pid}
    {killed : List KillTarget} (h : Holds log₀ log (fds ++ std) children killed) :
    Holds log₀ (log ++ abandonEvents fds) std children killed := by
  induction fds generalizing log with
  | nil => simpa [abandonEvents] using h
  | cons fd rest ih =>
    have h1 := ((h.skip (e := .unregistered fd) fun _ => rfl).closed :
      Holds log₀ (log ++ [.unregistered fd] ++ [.closed fd]) (rest ++ std) children killed)
    simpa [abandonEvents] using ih h1

theorem killAndReapProcess_run (pid pgid : Pid) (w : World ProcessMonitor) :
    ∃ e, (e = .waitFailed pid ∨ ∃ status, e = .reaped pid status) ∧
      killAndReapProcess K pid pgid w =
        (.ok (), (w.emit (.killSent (.group pgid) .SIGKILL)).emit e) := by
  unfold killAndReapProcess
  rw [bind_of_ok (killDiscarded_run w _ _)]
  obtain hrun | ⟨status, hrun⟩ :=
    waitForChild_run K (w.emit (.killSent (.group pgid) .SIGKILL)) pid
  · exact ⟨_, Or.inl rfl, hrun⟩
  · exact ⟨_, Or.inr ⟨status, rfl⟩, hrun⟩

theorem failQueuedJob_run (hjob : w.st.jobs.find j = some job) (hqueued : job.state = .queued)
    (hid : job.id = j) (message : Bytes) : withJob j (failQueuedJob message) w =
      (.ok (), ⟨{ w.st with
        jobs := w.st.jobs.set j { job with state := .failed, failureMessage := message } },
        w.log ++ [.entered j .failed]⟩) := by
  have htrans : canTransition job.state .failed := by
    rw [hqueued]
    rfl
  have hrun : failQueuedJob message ⟨job, w.log⟩ =
      (.ok (), ⟨{ job with state := .failed, failureMessage := message },
        w.log ++ [.entered j .failed]⟩) := by
    unfold failQueuedJob
    rw [bind_of_ok (enter_run htrans w.log), hid]
    rfl
  unfold withJob
  rw [hjob]
  show ((failQueuedJob message ⟨job, w.log⟩).1, (⟨{ w.st with
    jobs := w.st.jobs.set j (failQueuedJob message ⟨job, w.log⟩).2.st },
      (failQueuedJob message ⟨job, w.log⟩).2.log⟩ : World ProcessMonitor)) = _
  rw [hrun]

/-- The world in which `startJob` monitors a launched child, or fails to. -/
structure Started (j : JobId) (job : Job) (launched : LaunchedProcess) (events rest : List Event)
    (w w' : World ProcessMonitor) : Prop where
  launching : Launching events
    [launched.stdoutFd, launched.stderrFd, launched.startupErrorFd] [launched.pid]
  group : launched.processGroupId = launched.pid
  after : Launching (events ++ rest)
    [launched.stdoutFd, launched.stderrFd, launched.startupErrorFd] [launched.pid]
  log : w'.log = w.log ++ .starting j :: (events ++ .adopted j launched.pid launched.stdoutFd
    launched.stderrFd launched.startupErrorFd :: rest)
  sigchldFd : w'.st.sigchldFd = w.st.sigchldFd
  jobs : w'.st.jobs = w.st.jobs.set j { job with
    pid := some launched.pid
    processGroupId := some launched.pid }
  activeJobs : w'.st.activeJobs = w.st.activeJobs.set j (ActiveProcess.create launched)
  pidToJob : w'.st.pidToJob.del launched.pid = w.st.pidToJob.del launched.pid
  trackedFds : ∀ fd ∉ [launched.stdoutFd, launched.stderrFd, launched.startupErrorFd],
    w'.st.trackedFds.find fd = w.st.trackedFds.find fd
  notifications : w'.st.terminalJobNotifications = w.st.terminalJobNotifications

theorem abandonStartedJob_spec {launched : LaunchedProcess} {events rest : List Event}
    (h : Wf w.st) (hjob : w.st.jobs.find j = some job) (hqueued : job.state = .queued)
    {w1 : World ProcessMonitor} (hs : Started j job launched events rest w w1) {message : Bytes}
    (hmessage : message ≠ []) :
    wp (abandonStartedJob K j message)
      (fun r w' => r = .ok () ∧ Step K (.abandoned j) w w') w1 := by
  have hid := h.id_eq hjob
  have hinactive := h.not_active hjob (by rw [hqueued]; rfl)
  obtain ⟨⟨sigchldFd, jobs, activeJobs, pidToJob, trackedFds, notifications⟩, log⟩ := w1
  obtain ⟨hlaunch, hgroup, hafter, hlog, hsigchld, hjobs, hactives, hpids, htracked, hnotified⟩ := hs
  simp only at hlog hsigchld hjobs hactives hpids htracked hnotified
  subst hlog hsigchld hjobs hactives hnotified
  set fds := [launched.stdoutFd, launched.stderrFd, launched.startupErrorFd] with hfds
  unfold abandonStartedJob
  refine wp_bind_ok (state_run _) ?_
  simp only [Table.find_set_self]
  obtain ⟨trackedFds', habandon, hfind⟩ := abandonFds_run fds
    ⟨⟨w.st.sigchldFd, w.st.jobs.set j { job with
        pid := some launched.pid
        processGroupId := some launched.pid },
      w.st.activeJobs.set j (ActiveProcess.create launched), pidToJob, trackedFds,
      w.st.terminalJobNotifications⟩, _⟩
  refine wp_bind_ok habandon ?_
  obtain ⟨e, he, hkill⟩ := killAndReapProcess_run (K := K) launched.pid launched.processGroupId
    ⟨⟨w.st.sigchldFd, w.st.jobs.set j { job with
        pid := some launched.pid
        processGroupId := some launched.pid },
      w.st.activeJobs.set j (ActiveProcess.create launched), pidToJob, trackedFds',
      w.st.terminalJobNotifications⟩, _⟩
  refine wp_bind_ok hkill (wp_bind_ok (update_run _ _) (wp_bind_ok (update_run _ _) ?_))
  have hrest : Launching (events ++ (rest ++ (abandonEvents fds ++
      [.killSent (.group launched.processGroupId) .SIGKILL, e]))) [] [] := by
    rw [← List.append_assoc]
    refine hafter.append fun std killed hholds => ⟨.group launched.processGroupId :: killed, ?_⟩
    rw [hgroup]
    have hholds := (holds_abandonEvents hholds).reaped (.group launched.pid) he
    simpa only [List.append_assoc, List.cons_append, List.nil_append] using hholds
  have hstep := @Step.abandoned K w j job events _ trackedFds' launched message hjob hqueued
    hlaunch hrest (fun fd => by
      rw [hfind]
      split_ifs with hfd
      · rfl
      · exact htracked fd hfd) hmessage
  set job1 := { job with pid := some launched.pid, processGroupId := some launched.pid } with hjob1
  have hfind1 : (w.st.jobs.set j job1).find j = some job1 := Table.find_set_self _ _ _
  refine wp_of_run (@failQueuedJob_run _ j job1 hfind1 hqueued hid message) ⟨rfl, ?_⟩
  rw [← hpids] at hstep
  simp only [World.emit, World.put, Table.set_set, Table.del_set,
    Table.del_of_find_eq_none hinactive]
  simp only [List.append_assoc, List.cons_append, List.nil_append] at hstep ⊢
  exact hstep

theorem registerProcessFd_run (fd : Fd) (j : JobId) (kind : ProcessFdKind)
    (w : World ProcessMonitor) :
    (∃ e, registerProcessFd K fd j kind w = (.error e, w)) ∨
      (∃ e, registerProcessFd K fd j kind w = (.error e, w.emit (.called .epollCtl))) ∨
      (w.st.trackedFds.find fd = none ∧ registerProcessFd K fd j kind w =
        (.ok (), ⟨{ w.st with trackedFds := w.st.trackedFds.set fd ⟨j, kind⟩ },
          w.log ++ [.registered fd .readable]⟩)) := by
  unfold registerProcessFd
  rw [bind_of_ok (state_run w)]
  cases htracked : w.st.trackedFds.find fd with
  | some tracked => exact Or.inl ⟨_, rfl⟩
  | none =>
    refine Or.inr ?_
    set w1 := w.put { w.st with trackedFds := w.st.trackedFds.set fd ⟨j, kind⟩ } with hw1
    simp only
    rw [bind_of_ok (update_run w _)]
    obtain ⟨e, hadd⟩ | hadd := epollAdd_run K w1 fd .readable
    · refine Or.inl ⟨.systemError e (text "add process pipe to epoll"), ?_⟩
      rw [bind_of_ok hadd]
      refine (bind_of_ok (update_run _ _)).trans ?_
      simp only [throw_run, World.emit, World.put, hw1, Table.del_set,
        Table.del_of_find_eq_none htracked]
    · refine Or.inr ⟨trivial, ?_⟩
      rw [bind_of_ok hadd]
      rfl

/-- A child that is being monitored: nothing so far, or the first pipes registered. -/
theorem Started.snoc {launched : LaunchedProcess} {events rest : List Event}
    {w1 w2 : World ProcessMonitor} {e : Event} (hs : Started j job launched events rest w w1)
    (hlog : w2.log = w1.log ++ [e]) (he : ∀ h : Holdings, h.step e = some h)
    (hst : w2.st = { w1.st with trackedFds := w2.st.trackedFds })
    (htracked : ∀ fd ∉ [launched.stdoutFd, launched.stderrFd, launched.startupErrorFd],
      w2.st.trackedFds.find fd = w1.st.trackedFds.find fd) :
    Started j job launched events (rest ++ [e]) w w2 where
  launching := hs.launching
  group := hs.group
  after := by
    rw [← List.append_assoc]
    exact hs.after.append fun std killed hholds => ⟨killed, hholds.skip he⟩
  log := by
    rw [hlog, hs.log]
    simp
  sigchldFd := by rw [hst, hs.sigchldFd]
  jobs := by rw [hst, hs.jobs]
  activeJobs := by rw [hst, hs.activeJobs]
  pidToJob := by rw [hst, hs.pidToJob]
  trackedFds fd hfd := by rw [htracked fd hfd, hs.trackedFds fd hfd]
  notifications := by rw [hst, hs.notifications]

/-- The world in which `startJob` begins to monitor a child. -/
def adoptedWorld (w : World ProcessMonitor) (j : JobId) (job : Job) (launched : LaunchedProcess)
    (events : List Event) : World ProcessMonitor :=
  ⟨{ w.st with
    jobs := w.st.jobs.set j { job with
      pid := some launched.pid
      processGroupId := some launched.pid }
    activeJobs := w.st.activeJobs.set j (ActiveProcess.create launched) },
    w.log ++ .starting j :: (events ++ [.adopted j launched.pid launched.stdoutFd
      launched.stderrFd launched.startupErrorFd])⟩

theorem started_adoptedWorld {launched : LaunchedProcess} {events : List Event}
    (hlaunch : Launching events
      [launched.stdoutFd, launched.stderrFd, launched.startupErrorFd] [launched.pid])
    (hgroup : launched.processGroupId = launched.pid) :
    Started j job launched events [] w (adoptedWorld w j job launched events) where
  launching := hlaunch
  group := hgroup
  after := (List.append_nil events).symm ▸ hlaunch
  log := rfl
  sigchldFd := rfl
  jobs := rfl
  activeJobs := rfl
  pidToJob := rfl
  trackedFds _ _ := rfl
  notifications := rfl

/-- A pipe is registered, or monitoring the child fails. -/
theorem registerProcessFd_started {launched : LaunchedProcess} {events rest : List Event}
    {w1 : World ProcessMonitor} (hs : Started j job launched events rest w w1)
    (kind : ProcessFdKind) :
    wp (registerProcessFd K (launched.fd kind) j kind) (fun r w' =>
      (r = .ok () ∧
        Started j job launched events (rest ++ [.registered (launched.fd kind) .readable]) w w' ∧
        w1.st.trackedFds.find (launched.fd kind) = none ∧
        w'.st = { w1.st with
          trackedFds := w1.st.trackedFds.set (launched.fd kind) ⟨j, kind⟩ }) ∨
        ∃ e rest', r = .error e ∧ Started j job launched events rest' w w') w1 := by
  have hmem : launched.fd kind ∈
      [launched.stdoutFd, launched.stderrFd, launched.startupErrorFd] := by
    cases kind <;> simp [LaunchedProcess.fd]
  obtain ⟨e, hrun⟩ | ⟨e, hrun⟩ | ⟨hnone, hrun⟩ :=
    registerProcessFd_run (K := K) (launched.fd kind) j kind w1
  · exact wp_of_run hrun (Or.inr ⟨e, rest, rfl, hs⟩)
  · refine wp_of_run hrun (Or.inr ⟨e, rest ++ [.called .epollCtl], rfl, ?_⟩)
    exact hs.snoc rfl (fun _ => rfl) rfl fun _ _ => rfl
  · refine wp_of_run hrun (Or.inl ⟨rfl, ?_, hnone, rfl⟩)
    refine hs.snoc rfl (fun _ => rfl) rfl fun fd hfd => ?_
    exact Table.find_set_of_ne _ _ fun heq => hfd (heq ▸ hmem)

theorem monitorJob_spec {launched : LaunchedProcess} {events : List Event} (h : Wf w.st)
    (hjob : w.st.jobs.find j = some job) (hqueued : job.state = .queued)
    (hlaunch : Launching events
      [launched.stdoutFd, launched.stderrFd, launched.startupErrorFd] [launched.pid])
    (hgroup : launched.processGroupId = launched.pid) :
    wp (monitorJob K j launched) (fun r w' =>
      (r = .ok () ∧ Step K (.started j) w w') ∨
        ∃ e rest, r = .error e ∧ Started j job launched events rest w w')
      (adoptedWorld w j job launched events) := by
  have hid := h.id_eq hjob
  have hs : Started j job launched events [] w (adoptedWorld w j job launched events) :=
    started_adoptedWorld hlaunch hgroup
  set w1 := adoptedWorld w j job launched events with hw1
  unfold monitorJob
  refine wp_bind_ok (state_run _) ?_
  cases hpid : w1.st.pidToJob.find launched.pid with
  | some k => exact wp_throw (Or.inr ⟨_, [], rfl, hs⟩)
  | none =>
  simp only
  refine wp_bind_ok (update_run _ _) ?_
  set w2 := w1.put { w1.st with pidToJob := w1.st.pidToJob.set launched.pid j } with hw2
  have hs2 : Started j job launched events [] w w2 :=
    { hs with pidToJob := by rw [← hs.pidToJob]; exact Table.del_set _ _ _ }
  refine wp_bind (registerProcessFd_started (K := K) hs2 .stdout) (fun _ w3 h3 => ?_)
    fun e w3 h3 => ?_
  swap
  · obtain ⟨hr, -⟩ | ⟨e, rest, hr, hs3⟩ := h3
    · cases hr
    · exact Or.inr ⟨e, rest, hr, hs3⟩
  obtain ⟨-, hs3, hout, hst3⟩ | ⟨e, rest, hr, -⟩ := h3
  swap
  · cases hr
  refine wp_bind (registerProcessFd_started (K := K) hs3 .stderr) (fun _ w4 h4 => ?_)
    fun e w4 h4 => ?_
  swap
  · obtain ⟨hr, -⟩ | ⟨e, rest, hr, hs4⟩ := h4
    · cases hr
    · exact Or.inr ⟨e, rest, hr, hs4⟩
  obtain ⟨-, hs4, herr, hst4⟩ | ⟨e, rest, hr, -⟩ := h4
  swap
  · cases hr
  refine wp_bind (registerProcessFd_started (K := K) hs4 .startupError) (fun _ w5 h5 => ?_)
    fun e w5 h5 => ?_
  swap
  · obtain ⟨hr, -⟩ | ⟨e, rest, hr, hs5⟩ := h5
    · cases hr
    · exact Or.inr ⟨e, rest, hr, hs5⟩
  obtain ⟨-, hs5, hstart, hst5⟩ | ⟨e, rest, hr, -⟩ := h5
  swap
  · cases hr
  have hlog := hs5.log
  obtain ⟨st5, log5⟩ := w5
  simp only [LaunchedProcess.fd] at hout hst3 herr hst4 hstart hst5 hlog
  subst hst5 hlog
  simp only [hst4, hst3, hw2, hw1, adoptedWorld, World.put] at hout herr hstart ⊢
  rw [Table.find_set] at herr hstart
  rw [Table.find_set] at hstart
  split_ifs at herr hstart with h1 h2 h3
  have htrans : canTransition job.state .running := by
    rw [hqueued]
    rfl
  set job1 := { job with pid := some launched.pid, processGroupId := some launched.pid } with hjob1
  have hfind1 : (w.st.jobs.set j job1).find j = some job1 := Table.find_set_self _ _ _
  refine wp_of_run (withJob_enter hfind1 hid htrans) (Or.inl ⟨rfl, ?_⟩)
  have hstep := Step.started (K := K) hjob hqueued hlaunch hgroup hpid
    (by simp [hout, herr, hstart]) (by simp [Ne.symm h1, Ne.symm h2, Ne.symm h3])
  simp only [Table.set_set, List.append_assoc, List.cons_append, List.nil_append]
  exact hstep

/-- The world in which a launched child has become an entry of `active_jobs_`. -/
def launchedWorld (w : World ProcessMonitor) (j : JobId) (launched : LaunchedProcess)
    (events : List Event) : World ProcessMonitor :=
  ⟨{ w.st with activeJobs := w.st.activeJobs.set j (ActiveProcess.create launched) },
    w.log ++ (events ++ [.adopted j launched.pid launched.stdoutFd launched.stderrFd
      launched.startupErrorFd])⟩

theorem launchJob_spec (hactive : w.st.activeJobs.find j = none) (spec : JobSpec) :
    wp (launchJob K j spec) (fun r w' =>
      (∃ e events, r = .error e ∧ Launching events [] [] ∧
        w' = ⟨w.st, w.log ++ events⟩) ∨
      ∃ launched events, r = .ok launched ∧ launched.processGroupId = launched.pid ∧
        Launching events [launched.stdoutFd, launched.stderrFd, launched.startupErrorFd]
          [launched.pid] ∧
        w' = launchedWorld w j launched events) w := by
  unfold launchJob
  refine wp_bind (launchProcess_spec K spec) (fun launched w1 h1 => ?_) fun e w1 h1 => ?_
  · obtain ⟨hgroup, h1⟩ := h1
    obtain ⟨hst, events, hlog, hlaunch⟩ := launching_of_moreStandard h1
    obtain ⟨st1, log1⟩ := w1
    simp only at hst hlog
    subst hst hlog
    refine wp_bind_ok (state_run _) ?_
    simp only [hactive]
    refine wp_bind_ok (update_run _ _) (wp_bind_ok (emit_run _ _) (wp_pure (Or.inr ?_)))
    refine ⟨launched, events, rfl, hgroup, hlaunch, ?_⟩
    simp only [World.emit, World.put, launchedWorld, List.append_assoc]
  · obtain ⟨hst, events, hlog, hlaunch⟩ := launching_of_moreStandard h1
    obtain ⟨st1, log1⟩ := w1
    simp only at hst hlog
    subst hst hlog
    exact Or.inl ⟨e, events, rfl, hlaunch, rfl⟩

theorem text_append_ne_nil {s : String} (hs : text s ≠ []) (rest : Bytes) : text s ++ rest ≠ [] :=
  fun h => hs (List.append_eq_nil_iff.mp h).1

/-- How a start of a queued job can end. -/
def Label.starts (j : JobId) : Label → Bool
  | .launchFailed k | .abandoned k | .started k => k == j
  | _ => false

/-- `startJob` throws where it finds no queued job, and is one step otherwise. -/
theorem startJob_spec (h : Wf w.st) (j : JobId) :
    wp (startJob K j) (fun r w' =>
      (∃ e, r = .error e ∧ Step K (.misstart j) w w') ∨
        (r = .ok () ∧ ∃ l, l.starts j ∧ Step K l w w')) w := by
  unfold startJob
  refine wp_bind_ok (emit_run w _) ?_
  cases hjob : w.st.jobs.find j with
  | none =>
    have hat : jobAt j (w.emit (.starting j)) =
        (.error .outOfRange, (w.emit (.starting j)).emit (.raised .outOfRange)) := jobAt_of_none hjob
    refine wp_of_run (bind_of_error hat) (Or.inl ⟨_, rfl, ?_⟩)
    have hstep := Step.misstart (K := K) (e := .outOfRange) (w := w) (j := j) fun job hjob' => by
      rw [hjob] at hjob'
      cases hjob'
    simpa [World.emit] using hstep
  | some job =>
  refine wp_bind_ok (jobAt_run hjob) ?_
  split_ifs with hqueued
  · refine wp_of_run (raise_run _ _) (Or.inl ⟨_, rfl, ?_⟩)
    have hstep := Step.misstart (K := K) (e := .logicError (text "only QUEUED jobs can be started"))
      (w := w) (j := j) fun job' hjob' => by
        rw [hjob] at hjob'
        exact Option.some.inj hjob' ▸ hqueued
    simpa [World.emit] using hstep
  rw [not_not] at hqueued
  have hid := h.id_eq hjob
  have hinactive : (w.emit (.starting j)).st.activeJobs.find j = none :=
    h.not_active hjob (by rw [hqueued]; rfl)
  refine wp_bind (R := fun r w' =>
      (∃ events message, r = .ok none ∧ Launching events [] [] ∧ message ≠ [] ∧ w' = ⟨{ w.st with
        jobs := w.st.jobs.set j { job with state := .failed, failureMessage := message } },
        w.log ++ .starting j :: (events ++ [.entered j .failed])⟩) ∨
      ∃ launched events, r = .ok (some launched) ∧ launched.processGroupId = launched.pid ∧
        Launching events [launched.stdoutFd, launched.stderrFd, launched.startupErrorFd]
          [launched.pid] ∧
        w' = launchedWorld (w.emit (.starting j)) j launched events) ?_ (fun launched w1 h1 => ?_)
    fun e w1 h1 => ?_
  · refine wp_tryCatch (R := fun r w' =>
      (∃ e events, r = .error e ∧ Launching events [] [] ∧
        w' = ⟨w.st, (w.emit (.starting j)).log ++ events⟩) ∨
      ∃ launched events, r = .ok (some launched) ∧ launched.processGroupId = launched.pid ∧
        Launching events [launched.stdoutFd, launched.stderrFd, launched.startupErrorFd]
          [launched.pid] ∧
        w' = launchedWorld (w.emit (.starting j)) j launched events) ?_ (fun a w1 h1 => ?_)
      fun e w1 h1 => ?_
    · refine wp_bind (launchJob_spec (K := K) hinactive job.spec) (fun launched w1 h1 => ?_)
        fun e w1 h1 => ?_
      · obtain ⟨e, events, hr, -⟩ | ⟨launched, events, hr, hgroup, hlaunch, rfl⟩ := h1
        · cases hr
        · cases hr
          exact wp_pure (Or.inr ⟨launched, events, rfl, hgroup, hlaunch, rfl⟩)
      · obtain ⟨e, events, hr, hlaunch, rfl⟩ | ⟨launched, events, hr, -⟩ := h1
        · exact Or.inl ⟨_, events, rfl, hlaunch, rfl⟩
        · cases hr
    · obtain ⟨e, events, hr, -⟩ | h1 := h1
      · cases hr
      · exact Or.inr h1
    · obtain ⟨-, events, -, hlaunch, rfl⟩ | ⟨launched, events, hr, -⟩ := h1
      · have hjob1 : (⟨w.st, (w.emit (.starting j)).log ++ events⟩ :
            World ProcessMonitor).st.jobs.find j = some job := hjob
        refine wp_bind_ok (failQueuedJob_run hjob1 hqueued hid _) (wp_pure (Or.inl ?_))
        refine ⟨events, text "launchProcess failed: " ++ e.what K.strerror, rfl, hlaunch,
          text_append_ne_nil (by decide) _, ?_⟩
        simp
      · cases hr
  · obtain ⟨events, message, hr, hlaunch, hmessage, rfl⟩ |
      ⟨launched, events, hr, hgroup, hlaunch, rfl⟩ := h1
    · cases hr
      exact wp_pure (Or.inr ⟨rfl, _, by simp [Label.starts],
        .launchFailed hjob hqueued hlaunch hmessage⟩)
    · cases hr
      have hjob1 : (launchedWorld (w.emit (.starting j)) j launched events).st.jobs.find j =
          some job := hjob
      refine wp_bind_ok (withJob_update hjob1 _) ?_
      have hworld : (launchedWorld (w.emit (.starting j)) j launched events).put
          { (launchedWorld (w.emit (.starting j)) j launched events).st with
            jobs := w.st.jobs.set j { job with
              pid := some launched.pid
              processGroupId := some launched.processGroupId } } =
          adoptedWorld w j job launched events := by
        rw [hgroup]
        simp [launchedWorld, adoptedWorld, World.put]
      rw [show (launchedWorld (w.emit (.starting j)) j launched events).st.jobs = w.st.jobs from rfl,
        hworld]
      refine wp_tryCatch (monitorJob_spec (K := K) h hjob hqueued hlaunch hgroup) (fun _ w2 h2 => ?_)
        fun e w2 h2 => ?_
      · obtain ⟨-, hstep⟩ | ⟨e, rest, hr, -⟩ := h2
        · exact Or.inr ⟨rfl, _, by simp [Label.starts], hstep⟩
        · cases hr
      · obtain ⟨hr, -⟩ | ⟨e, rest, hr, hs⟩ := h2
        · cases hr
        · refine wp_mono (abandonStartedJob_spec h hjob hqueued hs
            (text_append_ne_nil (by decide) _)) fun r w3 h3 => ?_
          exact Or.inr ⟨h3.1, _, by simp [Label.starts], h3.2⟩
  · obtain ⟨events, message, hr, -⟩ | ⟨launched, events, hr, -⟩ := h1
    · cases hr
    · cases hr

end ProcessMonitor

end Runnerd
