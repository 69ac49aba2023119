import Runnerd.DaemonOperations

/-!
# No slot stays free while a job waits

`pumpScheduler` takes and gives back slots in its loop, and `processTerminalJobNotifications` runs it
once for every notification. Both end, in any state whose queue holds queued jobs, with the queue
empty or every slot taken.
-/

namespace Runnerd

open Effect Effect.Prog Steps

namespace Daemon

variable {K : Kernel} {w w' : World Daemon} {j : JobId} {notified taken : List JobId}

/-! ## What the loops rely on -/

/-- The queue holds distinct queued jobs without a slot or a deadline. -/
structure Ready (d : Daemon) : Prop where
  wf : ProcessMonitor.Wf d.monitor
  nodup : d.scheduler.waitingJobs.Nodup
  apart : ∀ j ∈ d.scheduler.waitingJobs, j ∉ d.scheduler.activeJobIds
  queued : ∀ j ∈ d.scheduler.waitingJobs, ∃ job, d.jobs.find j = some job ∧ job.state = .queued ∧
    ∀ timeout, job.spec.executionTimeout = some timeout → 0 < timeout
  noDeadline : ∀ j ∈ d.scheduler.waitingJobs, d.timeouts.activeGenerations.find j = none

/-- The jobs that are notified as settled hold slots. -/
def Slotted (d : Daemon) : Prop :=
  ∀ j ∈ d.monitor.terminalJobNotifications, j ∈ d.scheduler.activeJobIds

/-- A job that was taken off the queue runs in a slot and has the deadline it asked for, or has failed
and has neither. -/
def Placed (d : Daemon) (j : JobId) : Prop := ∃ job, d.jobs.find j = some job ∧
  (job.state = .running ∧ j ∈ d.scheduler.activeJobIds ∧
      ((d.timeouts.activeGenerations.find j).isSome ↔ job.spec.executionTimeout.isSome) ∨
    job.state = .failed ∧ j ∉ d.scheduler.activeJobIds ∧
      d.timeouts.activeGenerations.find j = none)

/-- From one world to the other these jobs were taken off the notifications and the queue. -/
structure Pumps (notified taken : List JobId) (w w' : World Daemon) : Prop where
  wf : ProcessMonitor.Wf w'.st.monitor
  maxRunning : w'.st.scheduler.maxRunning = w.st.scheduler.maxRunning
  waiting : w.st.scheduler.waitingJobs = taken ++ w'.st.scheduler.waitingJobs
  notifications : w.st.monitor.terminalJobNotifications =
    notified ++ w'.st.monitor.terminalJobNotifications
  placed : ∀ j ∈ taken, Placed w'.st j
  released : ∀ j ∈ notified, j ∉ w'.st.scheduler.activeJobIds ∧
    w'.st.timeouts.activeGenerations.find j = none
  jobs : ∀ j ∉ taken, w'.st.jobs.find j = w.st.jobs.find j
  slots : ∀ j ∉ taken, j ∉ notified →
    (j ∈ w'.st.scheduler.activeJobIds ↔ j ∈ w.st.scheduler.activeJobIds)
  deadlines : ∀ j ∉ taken, j ∉ notified →
    w'.st.timeouts.activeGenerations.find j = w.st.timeouts.activeGenerations.find j
  /-- Every notification gives back one slot, every job that runs takes one. -/
  card : w'.st.scheduler.activeJobIds.card + notified.length = w.st.scheduler.activeJobIds.card +
    (taken.filter fun j => j ∈ w'.st.scheduler.activeJobIds).length

theorem Pumps.refl (h : ProcessMonitor.Wf w.st.monitor) : Pumps [] [] w w where
  wf := h
  maxRunning := rfl
  waiting := rfl
  notifications := rfl
  placed := List.forall_mem_nil _
  released := List.forall_mem_nil _
  jobs _ _ := rfl
  slots _ _ _ := Iff.rfl
  deadlines _ _ _ := rfl
  card := rfl

/-- A waiting job is not notified. -/
theorem Ready.not_notified (h : Ready w.st) (hj : j ∈ w.st.scheduler.waitingJobs) :
    j ∉ w.st.monitor.terminalJobNotifications := by
  intro hnotified
  obtain ⟨job, hjob, hqueued, -⟩ := h.queued j hj
  obtain ⟨job', hjob', hterm⟩ := h.wf.notified j hnotified
  obtain rfl : job = job' := Option.some.inj (hjob.symm.trans hjob')
  rw [hqueued] at hterm
  cases hterm

section Pumps

variable (h : Ready w.st) (hp : Pumps notified taken w w')

include hp

theorem Pumps.mem_waiting (hj : j ∈ taken) : j ∈ w.st.scheduler.waitingJobs := by
  rw [hp.waiting]
  exact List.mem_append_left _ hj

theorem Pumps.mem_notifications (hj : j ∈ notified) :
    j ∈ w.st.monitor.terminalJobNotifications := by
  rw [hp.notifications]
  exact List.mem_append_left _ hj

include h

/-- What still waits was not taken. -/
theorem Pumps.not_taken (hj : j ∈ w'.st.scheduler.waitingJobs) :
    j ∈ w.st.scheduler.waitingJobs ∧ j ∉ taken ∧ j ∉ notified := by
  have hnodup := h.nodup
  rw [hp.waiting] at hnodup
  have hmem : j ∈ w.st.scheduler.waitingJobs := by
    rw [hp.waiting]
    exact List.mem_append_right _ hj
  exact ⟨hmem, fun hj' => (List.disjoint_of_nodup_append hnodup) hj' hj,
    fun hj' => h.not_notified hmem (hp.mem_notifications hj')⟩

theorem Pumps.ready : Ready w'.st where
  wf := hp.wf
  nodup := by
    have hnodup := h.nodup
    rw [hp.waiting] at hnodup
    exact hnodup.of_append_right
  apart j hj := by
    obtain ⟨hmem, htaken, hnotified⟩ := hp.not_taken h hj
    rw [hp.slots j htaken hnotified]
    exact h.apart j hmem
  queued j hj := by
    obtain ⟨hmem, htaken, -⟩ := hp.not_taken h hj
    rw [hp.jobs j htaken]
    exact h.queued j hmem
  noDeadline j hj := by
    obtain ⟨hmem, htaken, hnotified⟩ := hp.not_taken h hj
    rw [hp.deadlines j htaken hnotified]
    exact h.noDeadline j hmem

theorem Pumps.slotted (hs : Slotted w.st) : Slotted w'.st := by
  intro j hj
  have hmem : j ∈ w.st.monitor.terminalJobNotifications := by
    rw [hp.notifications]
    exact List.mem_append_right _ hj
  have hnodup := h.wf.notified_nodup
  rw [hp.notifications] at hnodup
  have hnotified : j ∉ notified := fun hj' => (List.disjoint_of_nodup_append hnodup) hj' hj
  have htaken : j ∉ taken := fun hj' => h.not_notified (hp.mem_waiting hj') hmem
  rw [hp.slots j htaken hnotified]
  exact hs j hmem

theorem Pumps.trans {notified' taken' : List JobId} {w'' : World Daemon}
    (hp' : Pumps notified' taken' w' w'') :
    Pumps (notified ++ notified') (taken ++ taken') w w'' := by
  have hready := hp.ready h
  have htaken : ∀ j ∈ taken, j ∉ taken' ∧ j ∉ notified' := fun j hj => by
    have hmem := hp.mem_waiting hj
    refine ⟨fun hj' => (hp.not_taken h (hp'.mem_waiting hj')).2.1 hj, fun hj' => ?_⟩
    have hnotified := hp'.mem_notifications hj'
    refine h.not_notified hmem ?_
    rw [hp.notifications]
    exact List.mem_append_right _ hnotified
  have hnotified : ∀ j ∈ notified, j ∉ taken' ∧ j ∉ notified' := fun j hj => by
    refine ⟨fun hj' => (hp.not_taken h (hp'.mem_waiting hj')).2.2 hj, fun hj' => ?_⟩
    have hnodup := h.wf.notified_nodup
    rw [hp.notifications] at hnodup
    exact (List.disjoint_of_nodup_append hnodup) hj (hp'.mem_notifications hj')
  refine ⟨hp'.wf, hp'.maxRunning.trans hp.maxRunning, ?_, ?_, ?_, ?_, fun j hj => ?_,
    fun j hj hj' => ?_, fun j hj hj' => ?_, ?_⟩
  · rw [hp.waiting, hp'.waiting, List.append_assoc]
  · rw [hp.notifications, hp'.notifications, List.append_assoc]
  · refine List.forall_mem_append.mpr ⟨fun j hj => ?_, hp'.placed⟩
    obtain ⟨htaken', hnotified'⟩ := htaken j hj
    have hplaced := hp.placed j hj
    unfold Placed at hplaced ⊢
    rw [hp'.jobs j htaken', hp'.slots j htaken' hnotified', hp'.deadlines j htaken' hnotified']
    exact hplaced
  · refine List.forall_mem_append.mpr ⟨fun j hj => ?_, hp'.released⟩
    obtain ⟨htaken', hnotified'⟩ := hnotified j hj
    rw [hp'.slots j htaken' hnotified', hp'.deadlines j htaken' hnotified']
    exact hp.released j hj
  · simp only [List.mem_append, not_or] at hj
    rw [hp'.jobs j hj.2, hp.jobs j hj.1]
  · simp only [List.mem_append, not_or] at hj hj'
    rw [hp'.slots j hj.2 hj'.2, hp.slots j hj.1 hj'.1]
  · simp only [List.mem_append, not_or] at hj hj'
    rw [hp'.deadlines j hj.2 hj'.2, hp.deadlines j hj.1 hj'.1]
  · have hfilter : (taken.filter fun j => j ∈ w''.st.scheduler.activeJobIds) =
        taken.filter fun j => j ∈ w'.st.scheduler.activeJobIds :=
      List.filter_congr fun j hj => by simp only [hp'.slots j (htaken j hj).1 (htaken j hj).2]
    have hcard := hp.card
    have hcard' := hp'.card
    rw [List.filter_append, hfilter, List.length_append, List.length_append]
    omega

end Pumps

/-! ## Starting jobs -/

/-- The exception is that of `schedule` for the timeout of a job that was taken off the queue of `w`
and has just been started; nothing was done after that call. -/
def ScheduleThrew (K : Kernel) (w w' : World Daemon) (e : Exception) : Prop :=
  ∃ j job timeout v, j ∈ w.st.scheduler.waitingJobs ∧ w'.st.jobs.find j = some job ∧
    job.state = .running ∧ job.spec.executionTimeout = some timeout ∧ 0 < timeout ∧
    v.log.getLast? = some (.entered j .running) ∧
    TimeoutManager.schedule K j timeout v = (.error e, ⟨w'.st.timeouts, w'.log⟩)

theorem ScheduleThrew.of_subset {e : Exception} {w₁ : World Daemon}
    (h : ScheduleThrew K w₁ w' e)
    (hsub : w₁.st.scheduler.waitingJobs ⊆ w.st.scheduler.waitingJobs) :
    ScheduleThrew K w w' e := by
  obtain ⟨j, job, timeout, v, hj, hrest⟩ := h
  exact ⟨j, job, timeout, v, hsub hj, hrest⟩

/-- What a start does to the job table. -/
theorem jobs_of_starts {l : ProcessMonitor.Label} {v v' : World ProcessMonitor} {job : Job}
    (hl : l.starts j) (hstep : ProcessMonitor.Step K l v v') (hjob : v.st.jobs.find j = some job) :
    ∃ job' : Job, v'.st.jobs = v.st.jobs.set j job' ∧ job'.spec = job.spec ∧
      (job'.state = .failed ∨ job'.state = .running) ∧
      v'.st.terminalJobNotifications = v.st.terminalJobNotifications := by
  cases hstep with
  | @launchFailed _ k _ _ _ hjob' =>
    obtain rfl : k = j := by simpa [ProcessMonitor.Label.starts] using hl
    obtain rfl := Option.some.inj (hjob'.symm.trans hjob)
    exact ⟨_, rfl, rfl, Or.inl rfl, rfl⟩
  | @abandoned _ k _ _ _ _ _ _ hjob' =>
    obtain rfl : k = j := by simpa [ProcessMonitor.Label.starts] using hl
    obtain rfl := Option.some.inj (hjob'.symm.trans hjob)
    exact ⟨_, rfl, rfl, Or.inl rfl, rfl⟩
  | @started _ k _ _ _ hjob' =>
    obtain rfl : k = j := by simpa [ProcessMonitor.Label.starts] using hl
    obtain rfl := Option.some.inj (hjob'.symm.trans hjob)
    exact ⟨_, rfl, rfl, Or.inr rfl, rfl⟩
  | _ => cases hl

/-- The start of a job that then runs ends with its entering RUNNING. -/
theorem last_of_starts {l : ProcessMonitor.Label} {v v' : World ProcessMonitor} {job : Job}
    (hl : l.starts j) (hstep : ProcessMonitor.Step K l v v') (hjob : v'.st.jobs.find j = some job)
    (hrunning : job.state = .running) : v'.log.getLast? = some (.entered j .running) := by
  cases hstep with
  | @launchFailed _ k =>
    obtain rfl : k = j := by simpa [ProcessMonitor.Label.starts] using hl
    obtain rfl := Option.some.inj ((Table.find_set_self _ _ _).symm.trans hjob)
    cases hrunning
  | @abandoned _ k =>
    obtain rfl : k = j := by simpa [ProcessMonitor.Label.starts] using hl
    obtain rfl := Option.some.inj ((Table.find_set_self _ _ _).symm.trans hjob)
    cases hrunning
  | @started _ k =>
    obtain rfl : k = j := by simpa [ProcessMonitor.Label.starts] using hl
    simp [List.getLast?_append, List.getLast?_cons]
  | _ => cases hl

/-- A round of `pumpScheduler`: the job at the head of the queue is taken and placed. -/
theorem pumps_of_starts {rest : List JobId} {v : World ProcessMonitor}
    {l : ProcessMonitor.Label} {job : Job} {slots : Finset JobId} {timeouts : TimeoutManager}
    {log : List Event} (h : Ready w.st) (hwaiting : w.st.scheduler.waitingJobs = j :: rest)
    (hl : l.starts j) (hstep : ProcessMonitor.Step K l (monitorWorld w) v)
    (hslots : ∀ k ≠ j, (k ∈ slots ↔ k ∈ w.st.scheduler.activeJobIds))
    (hcard : slots.card = w.st.scheduler.activeJobIds.card + if j ∈ slots then 1 else 0)
    (hdeadlines : ∀ k ≠ j, timeouts.activeGenerations.find k =
      w.st.timeouts.activeGenerations.find k)
    (hjob : v.st.jobs.find j = some job)
    (hplaced : job.state = .running ∧ j ∈ slots ∧
        ((timeouts.activeGenerations.find j).isSome ↔ job.spec.executionTimeout.isSome) ∨
      job.state = .failed ∧ j ∉ slots ∧ timeouts.activeGenerations.find j = none) :
    Pumps [] [j] w ⟨{ w.st with
      monitor := v.st
      scheduler := { w.st.scheduler with
        activeJobIds := slots
        waitingJobs := rest
        waitingJobIds := w.st.scheduler.waitingJobIds.erase j }
      timeouts }, log⟩ := by
  obtain ⟨job₀, hjob₀, -⟩ := h.queued j (hwaiting ▸ List.mem_cons_self)
  obtain ⟨job', hset, -, -, hnotified⟩ := jobs_of_starts hl hstep hjob₀
  refine ⟨hstep.wf h.wf, rfl, hwaiting, hnotified.symm, ?_, List.forall_mem_nil _, fun k hk => ?_,
    fun k hk _ => hslots k (List.mem_singleton.not.mp hk),
    fun k hk _ => hdeadlines k (List.mem_singleton.not.mp hk), ?_⟩
  · rintro k hk
    obtain rfl := List.mem_singleton.mp hk
    exact ⟨job, hjob, hplaced⟩
  · show v.st.jobs.find k = w.st.monitor.jobs.find k
    rw [hset]
    exact Table.find_set_of_ne _ _ (List.mem_singleton.not.mp hk)
  · show slots.card + 0 = _
    rw [hcard, List.filter_singleton]
    split_ifs <;> simp_all

/-- The loop of `pumpScheduler`, given fuel for every waiting job. -/
theorem pumpLoop_pumps (fuel : ℕ) (h : Ready w.st)
    (hfuel : w.st.scheduler.waitingJobs.length < fuel) :
    wp (pumpLoop K fuel) (fun r w' => (∃ e, r = .error e ∧ ScheduleThrew K w w' e) ∨
      (r = .ok () ∧ NoIdle w'.st ∧ ∃ taken, Pumps [] taken w w')) w := by
  induction fuel generalizing w with
  | zero => exact absurd hfuel (Nat.not_lt_zero _)
  | succ fuel ih =>
  unfold pumpLoop
  by_cases hidle : NoIdle w.st
  · exact wp_bind_ok (takeNextJobToStart_of_noIdle hidle)
      (wp_pure (Or.inr ⟨rfl, hidle, [], .refl h.wf⟩))
  obtain ⟨hne, hslot⟩ := not_or.mp hidle
  rw [not_le] at hslot
  obtain ⟨j, rest, hwaiting⟩ := List.exists_cons_of_ne_nil hne
  have hmem : j ∈ w.st.scheduler.waitingJobs := hwaiting ▸ List.mem_cons_self
  have hfree := h.apart j hmem
  obtain ⟨job₀, hjob₀, hqueued, hpositive⟩ := h.queued j hmem
  refine wp_bind_ok (takeNextJobToStart_run hslot hwaiting hfree) ?_
  simp only
  -- what follows a round, from the world it leaves
  have hnext : ∀ w1, Pumps [] [j] w w1 → w1.st.scheduler.waitingJobs = rest →
      wp (pumpLoop K fuel) (fun r w' => (∃ e, r = .error e ∧ ScheduleThrew K w w' e) ∨
        (r = .ok () ∧ NoIdle w'.st ∧ ∃ taken, Pumps [] taken w w')) w1 := by
    intro w1 hp hw1
    have hless : w1.st.scheduler.waitingJobs.length < fuel := by
      rw [hw1]
      rw [hwaiting, List.length_cons] at hfuel
      omega
    have hsub : w1.st.scheduler.waitingJobs ⊆ w.st.scheduler.waitingJobs := by
      rw [hw1, hwaiting]
      exact List.subset_cons_self j rest
    refine wp_mono (ih (hp.ready h) hless) fun r w' hr => hr.imp ?_ ?_
    · rintro ⟨e, hr, hthrew⟩
      exact ⟨e, hr, hthrew.of_subset hsub⟩
    · rintro ⟨hr, hnoIdle, taken, hp'⟩
      exact ⟨hr, hnoIdle, _, hp.trans h hp'⟩
  have hstart := ProcessMonitor.startJob_spec (K := K) (w := monitorWorld w) h.wf j
  rcases hrun : ProcessMonitor.startJob K j (monitorWorld w) with ⟨r, v⟩
  obtain ⟨e, -, hmiss⟩ | ⟨rfl, l, hl, hstep⟩ := wp_run hstart hrun
  · -- the job is queued
    cases hmiss with
    | misstart hnot => exact absurd hqueued (hnot job₀ hjob₀)
  refine wp_bind_ok (inMonitor_run (w := takenWorld w j rest) hrun) ?_
  obtain ⟨job, hset, hspec, hstate, -⟩ := jobs_of_starts hl hstep hjob₀
  have hjob : v.st.jobs.find j = some job := by
    rw [hset]
    exact Table.find_set_self _ _ _
  have hinsert : ∀ k ≠ j, (k ∈ insert j w.st.scheduler.activeJobIds ↔
      k ∈ w.st.scheduler.activeJobIds) := fun k hk => by
    rw [Finset.mem_insert, or_iff_right hk]
  have hcard : (insert j w.st.scheduler.activeJobIds).card = w.st.scheduler.activeJobIds.card +
      if j ∈ insert j w.st.scheduler.activeJobIds then 1 else 0 := by
    rw [if_pos (Finset.mem_insert_self _ _), Finset.card_insert_of_notMem hfree]
  refine wp_bind_ok (jobAt_run hjob) ?_
  obtain hfailed | hrunning := hstate
  · rw [hfailed]
    simp only [isTerminal, if_true]
    have hslot' : j ∈ (withMonitor (takenWorld w j rest) v).st.scheduler.activeJobIds :=
      Finset.mem_insert_self _ _
    refine wp_bind_ok (onJobReachedTerminalState_run hslot') (hnext _ ?_ rfl)
    refine pumps_of_starts h hwaiting hl hstep (fun k hk => ?_) ?_ (fun _ _ => rfl) hjob
      (Or.inr ⟨hfailed, Finset.notMem_erase _ _, h.noDeadline j hmem⟩)
    · rw [Finset.mem_erase, and_iff_right hk]
      exact hinsert k hk
    · show ((insert j w.st.scheduler.activeJobIds).erase j).card = _
      rw [if_neg (Finset.notMem_erase _ _), Finset.erase_insert hfree]
      rfl
  · rw [hrunning]
    simp only [isTerminal, Bool.false_eq_true, if_false, ne_eq, not_true_eq_false]
    cases htimeout : job.spec.executionTimeout with
    | none =>
      refine hnext _ (pumps_of_starts h hwaiting hl hstep hinsert hcard (fun _ _ => rfl) hjob
        (Or.inl ⟨hrunning, Finset.mem_insert_self _ _, ?_⟩)) rfl
      show (w.st.timeouts.activeGenerations.find j).isSome = true ↔ _
      rw [h.noDeadline j hmem, htimeout]
      exact Iff.rfl
    | some timeout =>
      simp only
      have hpos : 0 < timeout := hpositive timeout (hspec ▸ htimeout)
      rcases hrun' : TimeoutManager.schedule K j timeout ⟨w.st.timeouts, v.log⟩ with ⟨r, u⟩
      have hschedule := inTimeouts_run (w := withMonitor (takenWorld w j rest) v) hrun'
      cases r with
      | error e =>
        exact wp_of_run (bind_of_error hschedule) (Or.inl ⟨e, rfl, j, job, timeout, _, hmem, hjob,
          hrunning, htimeout, hpos, last_of_starts hl hstep hjob hrunning, hrun'⟩)
      | ok _ =>
        refine wp_bind_ok hschedule (hnext _ ?_ rfl)
        obtain hbad | ⟨hgen, e, hrun'', -⟩ | ⟨hgen, r, events, hrun'', -⟩ :=
          TimeoutManager.schedule_run K ⟨w.st.timeouts, v.log⟩ j timeout
        · exact absurd hbad (not_le.mpr hpos)
        · rw [hrun''] at hrun'
          cases hrun'
        rw [hrun''] at hrun'
        obtain ⟨rfl, rfl⟩ := Prod.mk.inj hrun'
        refine pumps_of_starts h hwaiting hl hstep hinsert hcard (fun k hk => ?_) hjob
          (Or.inl ⟨hrunning, Finset.mem_insert_self _ _, ?_⟩)
        · rw [activeGenerations_insert]
          exact Table.find_set_of_ne _ _ hk
        · rw [activeGenerations_insert, Table.find_set_self, htimeout]
          simp

/-! ## Any more fuel -/

theorem bind_congr_run {α β : Type} {m : Prog Daemon α} {f g : α → Prog Daemon β}
    (h : ∀ a w', m w = (.ok a, w') → f a w' = g a w') : (m >>= f) w = (m >>= g) w := by
  rcases hm : m w with ⟨e | a, w'⟩
  · rw [bind_of_error hm, bind_of_error hm]
  · rw [bind_of_ok hm, bind_of_ok hm]
    exact h a w' hm

/-- A job that is taken leaves a shorter queue. -/
theorem waiting_of_take (h : takeNextJobToStart w = (.ok (some j), w')) :
    w'.st.scheduler.waitingJobs.length < w.st.scheduler.waitingJobs.length := by
  unfold takeNextJobToStart inScheduler at h
  cases htake : w.st.scheduler.takeNextJobToStart with
  | error e =>
    rw [htake] at h
    cases h
  | ok taken =>
    rw [htake] at h
    obtain ⟨next, s⟩ := taken
    simp only [Prod.mk.injEq, Except.ok.injEq] at h
    obtain ⟨rfl, rfl⟩ := h
    unfold JobScheduler.takeNextJobToStart at htake
    split_ifs at htake
    · cases htake
    · split at htake
      · cases htake
      · rename_i k rest hwaiting
        split_ifs at htake
        cases htake
        show rest.length < w.st.scheduler.waitingJobs.length
        rw [hwaiting]
        exact Nat.lt_succ_self _

theorem waiting_of_release {r : Except Exception Unit}
    (h : onJobReachedTerminalState j w = (r, w')) :
    w'.st.scheduler.waitingJobs = w.st.scheduler.waitingJobs := by
  by_cases hj : j ∈ w.st.scheduler.activeJobIds
  · rw [onJobReachedTerminalState_run hj] at h
    cases h
    rfl
  · have hraise : onJobReachedTerminalState j w = raise (.logicError
        (text "terminal job does not occupy a running slot")) w := by
      unfold onJobReachedTerminalState inScheduler JobScheduler.onJobReachedTerminalState
      simp only [if_neg hj]
      rfl
    rw [hraise, raise_run] at h
    cases h
    rfl

/-- One round of fuel more changes nothing, where there is one for every waiting job and one more. -/
theorem pumpLoop_succ (fuel : ℕ) (hfuel : w.st.scheduler.waitingJobs.length < fuel) :
    pumpLoop K (fuel + 1) w = pumpLoop K fuel w := by
  induction fuel generalizing w with
  | zero => exact absurd hfuel (Nat.not_lt_zero _)
  | succ fuel ih =>
  conv_lhs => rw [pumpLoop]
  conv_rhs => rw [pumpLoop]
  refine bind_congr_run fun next w1 h1 => ?_
  cases next with
  | none => rfl
  | some j =>
  have hless : w1.st.scheduler.waitingJobs.length < fuel :=
    (waiting_of_take h1).trans_le (Nat.le_of_lt_succ hfuel)
  refine bind_congr_run fun _ w2 h2 => ?_
  have hless2 : w2.st.scheduler.waitingJobs.length < fuel := by
    rw [← (Prod.mk.inj h2).2]
    exact hless
  refine bind_congr_run fun job w3 h3 => ?_
  have hless3 : w3.st.scheduler.waitingJobs.length < fuel := by
    rw [← (Prod.mk.inj h3).2]
    exact hless2
  split_ifs
  · refine bind_congr_run fun _ w4 h4 => ih ?_
    rw [waiting_of_release h4]
    exact hless3
  · rfl
  · cases job.spec.executionTimeout with
    | none => exact ih hless3
    | some timeout =>
      refine bind_congr_run fun _ w4 h4 => ih ?_
      rw [← (Prod.mk.inj h4).2]
      exact hless3

/-- With fuel for every waiting job the loop never ends for want of it. -/
theorem pumpLoop_fuel {fuel : ℕ} (hfuel : w.st.scheduler.waitingJobs.length < fuel) :
    pumpLoop K fuel w = pumpScheduler K w := by
  induction fuel, hfuel using Nat.le_induction with
  | base => rfl
  | succ fuel hle ih => rw [pumpLoop_succ fuel hle, ih]

/-! ## Notifications -/

/-- The loop of `processTerminalJobNotifications`, given fuel for every notification. -/
theorem notificationLoop_pumps (fuel : ℕ) (h : Ready w.st) (hs : Slotted w.st)
    (hfuel : w.st.monitor.terminalJobNotifications.length ≤ fuel) :
    wp (notificationLoop K fuel) (fun r w' => (∃ e, r = .error e ∧ ScheduleThrew K w w' e) ∨
      (r = .ok () ∧ w'.st.monitor.terminalJobNotifications = [] ∧
        (w.st.monitor.terminalJobNotifications = [] → w' = w) ∧
        (w.st.monitor.terminalJobNotifications ≠ [] → NoIdle w'.st) ∧
        ∃ taken, Pumps w.st.monitor.terminalJobNotifications taken w w')) w := by
  induction fuel generalizing w with
  | zero =>
    have hnil := List.length_eq_zero_iff.mp (Nat.le_zero.mp hfuel)
    exact wp_pure (Or.inr ⟨rfl, hnil, fun _ => rfl, fun hne => absurd hnil hne, [],
      hnil.symm ▸ .refl h.wf⟩)
  | succ fuel ih =>
  unfold notificationLoop
  refine wp_bind_ok (state_run w) ?_
  cases hnotified : w.st.monitor.terminalJobNotifications with
  | nil => exact wp_pure (Or.inr ⟨rfl, hnotified, fun _ => rfl, fun hne => absurd rfl hne, [],
      .refl h.wf⟩)
  | cons j rest =>
  simp only
  have hmem : j ∈ w.st.monitor.terminalJobNotifications := by
    rw [hnotified]
    exact List.mem_cons_self
  obtain ⟨job, hjob, hterm⟩ := h.wf.notified j hmem
  refine wp_bind_ok (inMonitor_run (update_run _ _)) ?_
  rw [show w.st.jobs.find j = some job from hjob]
  simp only [hterm, Bool.true_eq_false, if_false]
  refine wp_bind_ok (inTimeouts_run (update_run _ _)) ?_
  refine wp_bind_ok (onJobReachedTerminalState_run (by exact hs j hmem)) ?_
  set w1 : World Daemon := ⟨{ w.st with
    monitor := { w.st.monitor with terminalJobNotifications := rest }
    scheduler := { w.st.scheduler with activeJobIds := w.st.scheduler.activeJobIds.erase j }
    timeouts := w.st.timeouts.cancel j }, w.log⟩ with hw1
  have hp : Pumps [j] [] w w1 := by
    have hstep := ProcessMonitor.Step.collect (K := K) (w := monitorWorld w) hnotified
    refine ⟨hstep.wf h.wf, rfl, rfl, hnotified, List.forall_mem_nil _, ?_, fun _ _ => rfl,
      fun k _ hk => ?_, fun k _ hk => ?_, ?_⟩
    · rintro k hk
      obtain rfl := List.mem_singleton.mp hk
      exact ⟨Finset.notMem_erase _ _, Table.find_del_self _ _⟩
    · exact Finset.mem_erase.trans (and_iff_right (List.mem_singleton.not.mp hk))
    · exact Table.find_del_of_ne _ (List.mem_singleton.not.mp hk)
    · exact Finset.card_erase_add_one (hs j hmem)
  have hready := hp.ready h
  refine wp_bind (R := fun r w' => (∃ e, r = .error e ∧ ScheduleThrew K w1 w' e) ∨
    (r = .ok () ∧ NoIdle w'.st ∧ ∃ taken, Pumps [] taken w1 w'))
    (wp_bind_ok (state_run w1) (pumpLoop_pumps _ hready (Nat.lt_succ_self _)))
    (fun _ w2 h2 => ?_) fun e w2 h2 => ?_
  swap
  · obtain ⟨e, hr, hthrew⟩ | ⟨hr, -⟩ := h2
    · exact Or.inl ⟨e, hr, hthrew.of_subset (List.Subset.refl _)⟩
    · cases hr
  obtain ⟨e, hr, -⟩ | ⟨-, hidle, taken, hp2⟩ := h2
  · cases hr
  have hp2' := hp.trans h hp2
  have hkeep : w2.st.monitor.terminalJobNotifications = rest := hp2.notifications.symm
  have hlength : w2.st.monitor.terminalJobNotifications.length ≤ fuel := by
    rw [hnotified] at hfuel
    rw [hkeep]
    exact Nat.le_of_succ_le_succ hfuel
  refine wp_mono (ih (hp2'.ready h) (hp2'.slotted h hs) hlength) fun r w3 h3 => h3.imp ?_ ?_
  · rintro ⟨e, hr, hthrew⟩
    refine ⟨e, hr, hthrew.of_subset fun k hk => ?_⟩
    rw [hp2'.waiting]
    exact List.mem_append_right _ hk
  rintro ⟨hr, hempty, hnil, hcons, taken', hp3⟩
  refine ⟨hr, hempty, (fun hne => by cases hne), fun _ => ?_, taken ++ taken', ?_⟩
  · by_cases hrest : w2.st.monitor.terminalJobNotifications = []
    · rw [hnil hrest]
      exact hidle
    · exact hcons hrest
  · have hp3' := hp2'.trans h hp3
    rw [hkeep] at hp3'
    exact hp3'

/-! ## Both loops -/

/-- How `pumpScheduler` ends: it has taken the first of the waiting jobs, and leaves no slot free while
one waits. -/
def PumpEnds (K : Kernel) (w : World Daemon) (r : Except Exception Unit) (w' : World Daemon) : Prop :=
  (∃ e, r = .error e ∧ ScheduleThrew K w w' e) ∨
    (r = .ok () ∧ NoIdle w'.st ∧ ∃ taken, Pumps [] taken w w')

/-- How `processTerminalJobNotifications` ends: every notification is taken, and the same holds. -/
def NotificationsEnd (K : Kernel) (w : World Daemon) (r : Except Exception Unit)
    (w' : World Daemon) : Prop :=
  (∃ e, r = .error e ∧ ScheduleThrew K w w' e) ∨
    (r = .ok () ∧ w'.st.monitor.terminalJobNotifications = [] ∧
      (w.st.monitor.terminalJobNotifications = [] → w' = w) ∧
      (w.st.monitor.terminalJobNotifications ≠ [] → NoIdle w'.st) ∧
      ∃ taken, Pumps w.st.monitor.terminalJobNotifications taken w w')

/-- Unless `schedule` throws, both loops end, after as many rounds as there are waiting jobs and
notifications, and conserve work. -/
theorem workConserving (h : Ready w.st) :
    (∀ fuel, w.st.scheduler.waitingJobs.length < fuel → pumpLoop K fuel w = pumpScheduler K w) ∧
      wp (pumpScheduler K) (PumpEnds K w) w ∧
      (Slotted w.st →
        (∀ fuel, w.st.monitor.terminalJobNotifications.length ≤ fuel →
          wp (notificationLoop K fuel) (NotificationsEnd K w) w) ∧
        wp (processTerminalJobNotifications K) (NotificationsEnd K w) w) :=
  ⟨fun _ hfuel => pumpLoop_fuel hfuel,
    wp_bind_ok (state_run w) (pumpLoop_pumps _ h (Nat.lt_succ_self _)),
    fun hs => ⟨fun fuel hfuel => notificationLoop_pumps fuel h hs hfuel,
      wp_bind_ok (state_run w) (notificationLoop_pumps _ h hs le_rfl)⟩⟩

/-- The daemon comes to both loops in such a state. -/
theorem ready_of_sound {n : ℕ} (h : Sound n ⟨w, []⟩) : Ready w.st ∧ Slotted w.st := by
  have hqueued : ∀ j ∈ w.st.scheduler.waitingJobs,
      ∃ job, w.st.jobs.find j = some job ∧ job.state = .queued := fun j hj =>
    Option.map_eq_some_iff.mp ((h.slots.waiting j).mp hj)
  refine ⟨⟨h.wf, h.slots.sorted.imp fun hlt => hlt.ne, fun j hj hslot => ?_, fun j hj => ?_,
    fun j hj => ?_⟩, fun j hj => (h.slots.slots j).mpr (Or.inr hj)⟩
  · exact h.slots.not_waiting h.wf hslot hj
  · obtain ⟨job, hjob, hstate⟩ := hqueued j hj
    exact ⟨job, hjob, hstate, fun timeout htimeout => h.timed.positive hjob htimeout⟩
  · obtain ⟨job, hjob, hstate⟩ := hqueued j hj
    by_contra hsome
    obtain ⟨job', hjob', hne⟩ := h.timed.offQueue j (Or.inl (Option.isSome_iff_ne_none.mpr hsome))
    obtain rfl : job = job' := Option.some.inj (hjob.symm.trans hjob')
    exact hne hstate

/-- Two jobs wait, one of them with a timeout, and the only slot is free. -/
def twoWaiting : World Daemon where
  st := {
    listenFd := 3
    timerFd := 6
    monitor := {
      sigchldFd := 5
      jobs := ((∅ : JobTable).set 1
        { id := 1, spec := { argv := [text "/a"], executionTimeout := some 5 } }).set 2
          { id := 2, spec := { argv := [text "/b"] } } }
    scheduler := { maxRunning := 1, waitingJobs := [1, 2], waitingJobIds := {1, 2} } }
  log := []

theorem ready_twoWaiting : Ready twoWaiting.st where
  wf := by
    have hstep := @ProcessMonitor.Step.submit Kernel.quiet ⟨{ sigchldFd := 5 }, []⟩ 1
      { argv := [text "/a"], executionTimeout := some 5 } rfl
    have hwf := hstep.wf (ProcessMonitor.wf_initial 5)
    have hstep' := @ProcessMonitor.Step.submit Kernel.quiet
      ⟨{ sigchldFd := 5, jobs := ((∅ : JobTable).set 1
        { id := 1, spec := { argv := [text "/a"], executionTimeout := some 5 } }) }, []⟩ 2
      { argv := [text "/b"] } (Table.find_set_of_ne _ _ (show (2 : JobId) ≠ 1 by decide))
    exact hstep'.wf hwf
  nodup := by decide
  apart j _ := Finset.notMem_empty j
  queued j hj := by
    have hj : j = 1 ∨ j = 2 := by simpa [twoWaiting] using hj
    obtain rfl | rfl := hj
    · exact ⟨_, (Table.find_set_of_ne _ _ (by decide)).trans (Table.find_set_self _ _ _), rfl,
        fun timeout htimeout => by cases htimeout; decide⟩
    · exact ⟨_, Table.find_set_self _ _ _, rfl, fun timeout htimeout => by cases htimeout⟩
  noDeadline _ _ := rfl

theorem slotted_twoWaiting : Slotted twoWaiting.st := fun j hj => by cases hj

/-- Without a notification nothing is started. -/
theorem processTerminalJobNotifications_idle : Ready twoWaiting.st ∧ Slotted twoWaiting.st ∧
    twoWaiting.st.monitor.terminalJobNotifications = [] ∧
    (processTerminalJobNotifications Kernel.quiet twoWaiting).1 = .ok () ∧
    ¬ NoIdle (processTerminalJobNotifications Kernel.quiet twoWaiting).2.st :=
  ⟨ready_twoWaiting, slotted_twoWaiting, rfl, rfl, by
    rintro (h | h)
    · cases h
    · exact absurd h (by decide)⟩

theorem workConserving_twoWaiting :
    pumpLoop Kernel.quiet 5 twoWaiting = pumpScheduler Kernel.quiet twoWaiting ∧
      (pumpScheduler Kernel.quiet twoWaiting).1 = .ok () ∧
      wp (pumpScheduler Kernel.quiet) (PumpEnds Kernel.quiet twoWaiting) twoWaiting ∧
      wp (processTerminalJobNotifications Kernel.quiet)
        (NotificationsEnd Kernel.quiet twoWaiting) twoWaiting := by
  obtain ⟨hfuel, hpump, hnotify⟩ := workConserving (K := Kernel.quiet) ready_twoWaiting
  exact ⟨hfuel 5 (by decide), by decide +kernel, hpump, (hnotify slotted_twoWaiting).2⟩

end Daemon

end Runnerd
