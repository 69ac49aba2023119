import Runnerd.JobRecords

/-!
# The bookkeeping of the monitor

Between two operations of the monitor every pipe of an active job is tracked for this job and this
pipe, and no active job is complete: whatever completes a job settles it in the same operation. The
callback has fired once for each job that has run and is terminal now.

A step that ends a pipe or records an exit can leave its job complete; all others keep jobs
incomplete. An operation that takes such a step looks whether it can settle that job before it
returns or throws.
-/

namespace Runnerd

open Effect Effect.Prog Steps Trace

namespace ProcessMonitor

variable {K : Kernel} {w w' w'' : World ProcessMonitor} {l : Label} {j k : JobId}
  {p : ActiveProcess} {job : Job}

/-! ## Pipes -/

/-- The pipes of the active jobs are tracked as theirs. -/
def Held (t : ProcessMonitor) : Prop :=
  ∀ j p kind fd, t.activeJobs.find j = some p → (p.pipe kind).fd = some fd →
    t.trackedFds.find fd = some ⟨j, kind⟩

/-- A process changes, but for its pipes. -/
theorem Held.setProcess {t : ProcessMonitor} (h : Held t) {p' : ActiveProcess}
    (hactive : t.activeJobs.find j = some p) (hfds : ∀ kind, (p'.pipe kind).fd = (p.pipe kind).fd) :
    Held { t with activeJobs := t.activeJobs.set j p' } := fun k q kind fd hq hfd => by
  simp only [Table.find_set] at hq
  split_ifs at hq with hk
  · obtain rfl := Option.some.inj hq
    subst hk
    exact h k p kind fd hactive ((hfds kind).symm.trans hfd)
  · exact h k q kind fd hq hfd

/-- The pipe that ended is nobody's any more. -/
theorem Held.closePipe {t : ProcessMonitor} (h : Held t) {fd : Fd} {kind : ProcessFdKind}
    (htracked : t.trackedFds.find fd = some ⟨j, kind⟩) (hactive : t.activeJobs.find j = some p) :
    Held { t with
      activeJobs := t.activeJobs.set j (p.closePipe kind)
      trackedFds := t.trackedFds.del fd } := by
  intro k q kind' fd' hq hfd'
  have hold : t.trackedFds.find fd' = some ⟨k, kind'⟩ ∧ ¬ (k = j ∧ kind' = kind) := by
    simp only [Table.find_set] at hq
    split_ifs at hq with hk
    · obtain rfl := Option.some.inj hq
      rw [ActiveProcess.closePipe_pipe] at hfd'
      split_ifs at hfd' with hkind
      exact ⟨h k p kind' fd' (hk ▸ hactive) hfd', fun heq => hkind heq.2⟩
    · exact ⟨h k q kind' fd' hq hfd', fun heq => hk heq.1⟩
  simp only [Table.find_del]
  rw [if_neg, hold.1]
  rintro rfl
  rw [htracked] at hold
  obtain ⟨rfl, rfl⟩ := TrackedFd.mk.inj (Option.some.inj hold.1)
  exact hold.2 ⟨rfl, rfl⟩

theorem Held.settle {t : ProcessMonitor} (h : Held t) {jobs : JobTable} {pidToJob : Table Pid JobId}
    {notifications : List JobId} :
    Held { t with
      jobs
      pidToJob
      activeJobs := t.activeJobs.del j
      terminalJobNotifications := notifications } := by
  intro k q kind fd hq hfd
  simp only [Table.find_del] at hq
  split_ifs at hq
  exact h k q kind fd hq hfd

/-- The descriptors of a launch are none that were open before it. -/
theorem Launching.fresh {events more : List Event} {fds : List Fd} {children : List Pid}
    (hlaunch : Launching events fds children)
    (hfresh : FreshFds (w.log ++ .starting j :: (events ++ more))) :
    ∀ fd ∈ fds, fd ∉ openFds w.log := by
  obtain ⟨std, held, hstd, hrun, hfds, -⟩ := hlaunch
  have hlog : w.log ++ .starting j :: (events ++ more) =
      w.log ++ [.starting j] ++ events ++ more := by simp
  rw [hlog] at hfresh
  have habove := above_starting hrun hfresh.left.right
  exact fun fd hfd => habove.disjoint fd (hfds.mem_iff.mpr (List.mem_append_left std hfd))

theorem Step.held (hstep : Step K l w w') (htracks : Tracks w) (hfresh : FreshFds w'.log)
    (h : Held w.st) : Held w'.st := by
  cases hstep with
  | receive htracked hactive => exact h.setProcess hactive (by simp)
  | exited hactive hpid => exact h.setProcess hactive (by simp)
  | garble hactive hcomplete hjob hsettled => exact h.setProcess hactive (by simp)
  | finish htracked hactive => exact h.closePipe htracked hactive
  | settle => exact h.settle
  | @abandoned _ j job events rest tracked launched message hjob hqueued hlaunch hrest htracked =>
    intro k q kind fd hq hfd
    have hold := h k q kind fd hq hfd
    simp only [htracked]
    rw [if_neg, hold]
    exact fun hmem => hlaunch.fresh hfresh fd hmem (htracks fd _ hold).2
  | @started _ j job events launched hjob hqueued hlaunch hgroup hpid hnew hdistinct =>
    intro k q kind fd hq hfd
    simp only [Table.find_set] at hq ⊢
    simp only [List.mem_cons, List.not_mem_nil, or_false, forall_eq_or_imp, forall_eq] at hnew
    simp only [List.nodup_cons, List.mem_cons, List.not_mem_nil, or_false, not_or,
      List.nodup_nil, not_false_eq_true, and_true] at hdistinct
    obtain ⟨⟨h12, h13⟩, h23⟩ := hdistinct
    split_ifs at hq with hk
    · obtain rfl := Option.some.inj hq
      subst hk
      cases kind <;> obtain rfl := Option.some.inj hfd
      · simp [LaunchedProcess.fd, h12, h13]
      · simp [LaunchedProcess.fd, h23]
      · simp [LaunchedProcess.fd]
    · have hold := h k q kind fd hq hfd
      have hne : ∀ fd', w.st.trackedFds.find fd' = none → fd ≠ fd' := by
        rintro fd' hnone rfl
        rw [hold] at hnone
        cases hnone
      rw [if_neg (hne _ hnew.2.2), if_neg (hne _ hnew.2.1), if_neg (hne _ hnew.1), hold]
  | _ => exact h

/-! ## What holds at every step -/

/-- What holds of the monitor as long as the kernel keeps its promises. -/
structure Booked (w : World ProcessMonitor) : Prop where
  wf : Wf w.st
  exits : Exits w.st
  tracks : Tracks w
  held : Held w.st

/-- The kernel returns no descriptor that is open, and reports exits and signals only. -/
def Promised (log : List Event) : Prop := FreshFds log ∧ OnlyExits log

theorem Promised.left {log events : List Event} (h : Promised (log ++ events)) : Promised log :=
  ⟨h.1.left, OnlyExits.left log events h.2⟩

theorem Step.booked (hstep : Step K l w w') (hpromised : Promised w'.log) (h : Booked w) :
    Booked w' where
  wf := hstep.wf h.wf
  exits := hstep.exits hpromised.2 h.exits
  tracks := hstep.tracks h.tracks hpromised.1
  held := hstep.held h.tracks hpromised.1 h.held

theorem log_prefix_of_walk {A : Set Label} (hwalk : Walk (Step K) A w w') :
    ∃ events, w'.log = w.log ++ events := by
  refine Walk.relates (R := fun w w' => ∃ events, w'.log = w.log ++ events)
    (fun w => ⟨[], (List.append_nil _).symm⟩) ?_ (fun _ _ _ _ hstep => hstep.log_prefix) hwalk
  rintro a b c ⟨events, hb⟩ ⟨more, hc⟩
  exact ⟨events ++ more, by rw [hc, hb, List.append_assoc]⟩

theorem promised_of_walk {A : Set Label} (hwalk : Walk (Step K) A w w') (h : Promised w'.log) :
    Promised w.log := by
  obtain ⟨events, hlog⟩ := log_prefix_of_walk hwalk
  rw [hlog] at h
  exact h.left

theorem booked_of_walk {A : Set Label} (hwalk : Walk (Step K) A w w') (hpromised : Promised w'.log)
    (h : Booked w) : Booked w' := by
  refine hwalk.invariant (P := fun w => Promised w.log → Booked w) ?_ (fun _ => h) hpromised
  rintro l hl a b hstep ih hb
  obtain ⟨events, hlog⟩ := hstep.log_prefix
  exact hstep.booked hb (ih (hlog ▸ hb).left)

/-! ## Incomplete jobs -/

/-- No active job is complete, but for those that are excepted. -/
def Eager (excepted : JobId → Prop) (t : ProcessMonitor) : Prop :=
  ∀ j p, t.activeJobs.find j = some p → excepted j ∨ p.complete = false

/-- All jobs are incomplete. -/
abbrev nobody : JobId → Prop := fun _ => False

variable {excepted : JobId → Prop}

theorem Eager.mono {t : ProcessMonitor} (h : Eager nobody t) : Eager excepted t :=
  fun j p hactive => Or.inr ((h j p hactive).resolve_left id)

/-- The last exception is found incomplete. -/
theorem Eager.close {t : ProcessMonitor} (h : Eager (· = j) t)
    (hj : ∀ p, t.activeJobs.find j = some p → p.complete = false) : Eager nobody t :=
  fun k p hactive => by
    obtain rfl | hp := h k p hactive
    · exact Or.inr (hj p hactive)
    · exact Or.inr hp

/-- A job with an open pipe is incomplete. -/
theorem Wf.incomplete {t : ProcessMonitor} (h : Wf t) {fd : Fd} {kind : ProcessFdKind}
    (htracked : t.trackedFds.find fd = some ⟨j, kind⟩) (hactive : t.activeJobs.find j = some p) :
    p.complete = false := by
  obtain ⟨q, hq, hfd⟩ := h.fd_owner htracked
  rw [hactive] at hq
  obtain rfl := Option.some.inj hq
  rw [← Bool.not_eq_true]
  intro hcomplete
  rw [h.kind_of_complete hactive hcomplete kind] at hfd
  cases hfd

/-- The job that a step can leave complete. -/
def Label.completes : Label → Option JobId
  | .finish j | .exited j => some j
  | _ => none

theorem Eager.setProcess {t : ProcessMonitor} (h : Eager excepted t) {p' : ActiveProcess}
    (hp : excepted j ∨ p'.complete = false) :
    Eager excepted { t with activeJobs := t.activeJobs.set j p' } := fun k q hq => by
  simp only [Table.find_set] at hq
  split_ifs at hq with hk
  · obtain rfl := Option.some.inj hq
    exact hk ▸ hp
  · exact h k q hq

theorem complete_congr {p p' : ActiveProcess} (hexited : p'.childExited = p.childExited)
    (heof : ∀ kind, (p'.pipe kind).eof = (p.pipe kind).eof) : p'.complete = p.complete := by
  unfold ActiveProcess.complete
  rw [hexited, heof, heof, heof]

/-- A step leaves no other job complete than the one whose pipe it ends or whose exit it
records. -/
theorem Step.eager (hstep : Step K l w w') (hl : ∀ j ∈ l.completes, excepted j)
    (h : Eager excepted w.st) : Eager excepted w'.st := by
  cases hstep with
  | @receive _ fd j kind p bytes htracked hactive =>
    refine h.setProcess ?_
    rw [show (p.receive kind bytes).complete = p.complete from complete_congr rfl (by simp)]
    exact h j p hactive
  | finish htracked hactive => exact h.setProcess (Or.inl (hl _ rfl))
  | exited hactive hpid => exact h.setProcess (Or.inl (hl _ rfl))
  | settle hactive hcomplete hjob hsettled =>
    intro k q hq
    simp only [Table.find_del] at hq
    split_ifs at hq
    exact h k q hq
  | @garble _ j p job hactive hcomplete hjob hsettled =>
    refine h.setProcess ?_
    rw [show (p.swapOutput job.standardOutput job.standardError).complete = p.complete from
      complete_congr rfl (by simp)]
    exact h j p hactive
  | started hjob hqueued hlaunch => exact h.setProcess (Or.inr rfl)
  | _ => exact h

/-! ## Operations -/

/-- The steps that leave no other jobs complete, and the notifications in the queue. -/
def Label.Spares (excepted : JobId → Prop) (l : Label) : Prop :=
  l ≠ .collect ∧ ∀ j ∈ l.completes, excepted j

/-- What an operation does: steps at whose end jobs are incomplete that were so before, but for
those that are excepted. -/
def Tidies (K : Kernel) (excepted : JobId → Prop) (w w' : World ProcessMonitor) : Prop :=
  Walk (Step K) {l | l ≠ .collect} w w' ∧
    (Booked w → Promised w'.log → Eager nobody w.st → Eager excepted w'.st)

theorem Tidies.refl (w : World ProcessMonitor) : Tidies K excepted w w :=
  ⟨Walk.refl, fun _ _ h => h.mono⟩

theorem Tidies.trans (h : Tidies K nobody w w') (h' : Tidies K excepted w' w'') :
    Tidies K excepted w w'' :=
  ⟨h.1.trans h'.1, fun hbooked hpromised heager =>
    have hpromised' := promised_of_walk h'.1 hpromised
    h'.2 (booked_of_walk h.1 hpromised' hbooked) hpromised (h.2 hbooked hpromised' heager)⟩

/-- Further steps that leave only excepted jobs complete. -/
theorem Tidies.walk {A : Set Label} (h : Tidies K excepted w w') (hwalk : Walk (Step K) A w' w'')
    (hA : ∀ l ∈ A, l.Spares excepted) : Tidies K excepted w w'' := by
  refine ⟨h.1.trans (hwalk.mono fun l hl => (hA l hl).1), fun hbooked hpromised heager => ?_⟩
  have hstart := h.2 hbooked (promised_of_walk hwalk hpromised) heager
  exact hwalk.invariant (P := fun w => Eager excepted w.st)
    (fun l hl a b hstep ih => hstep.eager (hA l hl).2 ih) hstart

theorem Tidies.step (h : Tidies K excepted w w') (hstep : Step K l w' w'')
    (hl : l.Spares excepted) : Tidies K excepted w w'' :=
  h.walk (A := {l}) (Walk.single rfl hstep) fun _ hk => hk ▸ hl

theorem Tidies.start (hstep : Step K l w w') (hl : l.Spares excepted) :
    Tidies K excepted w w' := (Tidies.refl w).step hstep hl

/-- The last exception turns out to be incomplete. -/
theorem Tidies.close (h : Tidies K (· = j) w w')
    (hj : Booked w' → ∀ p, w'.st.activeJobs.find j = some p → p.complete = false) :
    Tidies K nobody w w' :=
  ⟨h.1, fun hbooked hpromised heager =>
    (h.2 hbooked hpromised heager).close (hj (booked_of_walk h.1 hpromised hbooked))⟩

/-- `tryFinalizeJob` settles the job if it is complete. -/
theorem tryFinalizeJob_tidies (hwf : Wf w'.st) (h : Tidies K (· = j) w w') :
    wp (tryFinalizeJob K j) (fun _ w'' => Tidies K nobody w w'') w' := by
  refine wp_mono (tryFinalizeJob_spec hwf j) fun r w'' hr => ?_
  obtain ⟨-, rfl, hincomplete⟩ | ⟨-, hstep⟩ | ⟨e, -, hstep⟩ := hr
  · exact h.close fun _ => hincomplete
  · refine (h.step hstep (by simp [Label.Spares, Label.completes])).close fun _ p hactive => ?_
    cases hstep with
    | settle hactive' hcomplete hjob hsettled =>
      simp only [Table.find_del_self] at hactive
      cases hactive
  · refine ⟨h.1.tail (by simp) hstep, fun hbooked hpromised heager => ?_⟩
    -- a settlement throws only where `waitpid` reports something else than an end
    have hpromised' := promised_of_walk (Walk.single (A := {l | True}) trivial hstep) hpromised
    have hbooked' := booked_of_walk h.1 hpromised' hbooked
    cases hstep with
    | @garble _ _ p job hactive hcomplete hjob hsettled =>
      obtain ⟨job', hsettled'⟩ := settledJob_of_status (K := K) (hbooked'.exits j p hactive)
        (hwf.cause hjob)
      rw [hsettled] at hsettled'
      cases hsettled'

/-- Reading a pipe of the job, if it is one: where that fails, the job is still incomplete. -/
theorem drainProcessFd_tidies (h : Wf w.st) {fd : Fd}
    (hown : ∀ t, w.st.trackedFds.find fd = some t → t.jobId = j) :
    wp (drainProcessFd K fd) (fun r w' => Walk (Step K) {l | l.drainsOf j} w w' ∧
      ((∃ e, r = .error e) → Booked w' → ∀ p, w'.st.activeJobs.find j = some p →
        p.complete = false)) w := by
  unfold drainProcessFd
  refine wp_bind_ok (state_run w) ?_
  cases htracked : w.st.trackedFds.find fd with
  | none =>
    refine wp_pure ⟨Walk.refl, ?_⟩
    rintro ⟨_, hr⟩
    cases hr
  | some tracked =>
    obtain ⟨k, kind⟩ := tracked
    obtain rfl : k = j := hown _ htracked
    obtain ⟨p, hactive, -⟩ := h.fd_owner htracked
    simp only [hactive]
    refine wp_bind_ok (history_run w) ?_
    refine wp_mono (drainLoop_spec (K := K) _ htracked hactive) fun r w' h' => ?_
    obtain ⟨hwalk, herror⟩ := h'
    exact ⟨hwalk, fun hr hbooked p hp => hbooked.wf.incomplete (herror hr) hp⟩

/-- A step that reads pipes tracks nothing new. -/
theorem tracked_of_drains (hwalk : Walk (Step K) {l | l.drainsOf j} w w') {fd : Fd} {t : TrackedFd}
    (h : w'.st.trackedFds.find fd = some t) : w.st.trackedFds.find fd = some t := by
  refine Walk.relates (R := fun w w' : World ProcessMonitor => ∀ fd t,
    w'.st.trackedFds.find fd = some t → w.st.trackedFds.find fd = some t)
    (fun _ _ _ => id) (fun _ _ _ hab hbc fd t h => hab fd t (hbc fd t h)) ?_ hwalk fd t h
  intro l hl a b hstep fd t h
  cases hstep with
  | idle | receive => exact h
  | finish =>
    simp only [Table.find_del] at h
    split_ifs at h
    exact h
  | _ => cases hl

theorem drainFds_tidies {fds : List Fd} (h : Wf w.st)
    (hown : ∀ fd ∈ fds, ∀ t, w.st.trackedFds.find fd = some t → t.jobId = j) :
    wp (drainFds K fds) (fun r w' => Walk (Step K) {l | l.drainsOf j} w w' ∧
      ((∃ e, r = .error e) → Booked w' → ∀ p, w'.st.activeJobs.find j = some p →
        p.complete = false)) w := by
  induction fds generalizing w with
  | nil => exact wp_pure ⟨Walk.refl, fun ⟨_, hr⟩ => by cases hr⟩
  | cons fd rest ih =>
    obtain ⟨hfd, hrest⟩ := List.forall_mem_cons.mp hown
    refine wp_bind (drainProcessFd_tidies h hfd) (fun _ w1 h1 => ?_) fun _ _ h1 =>
      ⟨h1.1, fun _ => h1.2 ⟨_, rfl⟩⟩
    refine wp_mono (ih (wf_of_walk h1.1 h) fun fd hfd t ht =>
      hrest fd hfd t (tracked_of_drains h1.1 ht)) fun _ _ h2 => ⟨h1.1.trans h2.1, h2.2⟩

theorem spares_of_drainsOf : ∀ l ∈ {l : Label | l.drainsOf j}, l.Spares (· = j) := by
  intro l hl
  have hcollect : l ≠ .collect := by
    rintro rfl
    cases hl
  refine ⟨hcollect, fun k hk => ?_⟩
  cases l with
  | finish i =>
    obtain rfl : i = k := Option.some.inj hk
    simpa [Label.drainsOf] using hl
  | exited => cases hl
  | _ => cases hk

/-- Looking whether the child has exited: only if it has, the job may be complete then. -/
theorem Polled.tidies {r : Except Exception ActiveProcess} (h : Polled K j p w w' r) :
    Tidies K (· = j) w w' ∧ ((∀ q, r = .ok q → q.childExited = false) → Tidies K nobody w w') := by
  cases h with
  | known hexited heq =>
    subst heq
    exact ⟨Tidies.refl w', fun _ => Tidies.refl w'⟩
  | exited hexited hwait hstep hactive =>
    refine ⟨Tidies.start hstep (by simp [Label.Spares, Label.completes]), fun hq => ?_⟩
    cases hq _ rfl
  | running hexited hwait heq =>
    subst heq
    exact ⟨Tidies.start (Step.idle rfl) (by simp [Label.Spares, Label.completes]), fun _ =>
      Tidies.start (Step.idle rfl) (by simp [Label.Spares, Label.completes])⟩
  | @failed _ l hl hstep =>
    have hspares : ∀ excepted, l.Spares excepted := by
      obtain rfl | rfl := hl <;> simp [Label.Spares, Label.completes]
    exact ⟨Tidies.start hstep (hspares _), fun _ => Tidies.start hstep (hspares _)⟩

/-- Looking for an exit leaves the pipes alone. -/
theorem Polled.pipes {q : ActiveProcess} (h : Polled K j p w w' (.ok q)) :
    q.openFds = p.openFds ∧ w'.st.trackedFds = w.st.trackedFds := by
  cases h with
  | known hexited heq => exact ⟨rfl, by rw [heq]⟩
  | exited hexited hwait hstep hactive =>
    cases hstep
    exact ⟨rfl, rfl⟩
  | running hexited hwait heq => exact ⟨rfl, by rw [heq]; rfl⟩

theorem finishExitedChildBeforeSignal_tidies (h : Wf w.st)
    (hactive : w.st.activeJobs.find j = some p) :
    wp (finishExitedChildBeforeSignal K j) (fun _ w' => Tidies K nobody w w') w := by
  by_cases hown : ∀ fd ∈ p.openFds, ∀ t, w.st.trackedFds.find fd = some t → t.jobId = j
  swap
  · -- the pipes of the job are its own
    refine wp_mono (finishExitedChildBeforeSignal_spec h hactive) fun _ w' ⟨hwalk, _⟩ => ?_
    have hA : {l : Label | l.polls j} ⊆ {l | l ≠ .collect} := by
      rintro l hl rfl
      cases hl
    refine ⟨hwalk.mono hA, fun hbooked _ _ => absurd (fun fd hfd t ht => ?_) hown⟩
    obtain ⟨kind, hkind⟩ := (ActiveProcess.mem_openFds p fd).mp hfd
    rw [hbooked.held j p kind fd hactive hkind] at ht
    exact (congrArg TrackedFd.jobId (Option.some.inj ht)).symm
  unfold finishExitedChildBeforeSignal
  refine wp_bind (pollChild_polled hactive) (fun q w1 h1 => ?_) fun e w1 h1 =>
    h1.tidies.2 fun q hq => by cases hq
  obtain ⟨hbut, hall⟩ := h1.tidies
  obtain ⟨hfds, htracked⟩ := h1.pipes
  have hwf1 := wf_of_walk hbut.1 h
  split_ifs with hexited
  · refine wp_pure (hall fun q' hq' => ?_)
    obtain rfl := Except.ok.inj hq'
    exact hexited
  refine wp_bind (drainFds_tidies hwf1 (by rwa [hfds, htracked])) (fun _ w2 h2 => ?_)
    fun e w2 h2 => (hbut.walk h2.1 spares_of_drainsOf).close (h2.2 ⟨_, rfl⟩)
  have hbut2 := hbut.walk h2.1 spares_of_drainsOf
  refine wp_bind (tryFinalizeJob_tidies (wf_of_walk hbut2.1 h) hbut2) (fun _ w3 h3 => ?_)
    fun _ _ h3 => h3
  refine wp_bind (R := fun _ w' => Tidies K nobody w w') ?_ (fun _ _ h4 => wp_pure h4)
    fun _ _ h4 => h4
  cases hjob : w3.st.jobs.find j with
  | some job => exact wp_of_run (jobAt_run hjob) h3
  | none =>
    exact wp_of_run (jobAt_of_none hjob)
      (h3.step Step.misuse (by simp [Label.Spares, Label.completes]))

theorem looked_tidies (h : Wf w.st) (hactive : w.st.activeJobs.find j = some p) :
    Tidies K nobody w (looked K j w) := finishExitedChildBeforeSignal_tidies h hactive

theorem requestTerminate_tidies (h : Wf w.st) (j : JobId) (cause : TerminationCause) :
    wp (requestTerminate K j cause) (fun _ w' => Tidies K nobody w w') w := by
  by_cases hrunning : ∃ job, w.st.jobs.find j = some job ∧ job.state = .running
  swap
  · obtain ⟨e, hrun⟩ := requestTerminate_of_not (K := K)
      (fun job hjob hstate => hrunning ⟨job, hjob, hstate⟩) cause
    exact wp_of_run hrun (Tidies.start Step.misuse (by simp [Label.Spares, Label.completes]))
  obtain ⟨job, hjob, hrunning⟩ := hrunning
  obtain ⟨p, hactive⟩ := (h.active_iff hjob).mpr (by rw [hrunning]; rfl)
  have hlooked := looked_tidies (K := K) h hactive
  refine wp_mono (requestTerminate_spec h hjob hrunning cause) fun _ w' hr => ?_
  obtain hstep | rfl | hstep := hr.idle
  · exact hlooked.step hstep (by simp [Label.Spares, Label.completes])
  · exact hlooked
  · exact hlooked.step hstep (by simp [Label.Spares, Label.completes])

theorem forceKill_tidies (h : Wf w.st) (j : JobId) :
    wp (forceKill K j) (fun _ w' => Tidies K nobody w w') w := by
  by_cases hterminating : ∃ job, w.st.jobs.find j = some job ∧ job.state = .terminating
  swap
  · obtain ⟨e, hrun⟩ := forceKill_of_not (K := K)
      fun job hjob hstate => hterminating ⟨job, hjob, hstate⟩
    exact wp_of_run hrun (Tidies.start Step.misuse (by simp [Label.Spares, Label.completes]))
  obtain ⟨job, hjob, hterminating⟩ := hterminating
  obtain ⟨p, hactive⟩ := (h.active_iff hjob).mpr (by rw [hterminating]; rfl)
  have hlooked := looked_tidies (K := K) h hactive
  refine wp_mono (forceKill_spec h hjob hterminating) fun _ w' hr => ?_
  obtain hstep | rfl | hstep := hr
  · exact hlooked.step hstep (by simp [Label.Spares, Label.completes])
  · exact hlooked
  · exact hlooked.step hstep (by simp [Label.Spares, Label.completes])

/-- Every child that has ended is looked after at once. -/
theorem reapLoop_tidies (h : Wf w.st) (reaps : Reaps) :
    wp (reapLoop K reaps) (fun _ w' => Tidies K nobody w w') w := by
  have hidle : ∀ w : World ProcessMonitor, Tidies K nobody w (w.emit (.called .waitpid)) :=
    fun _ => Tidies.start (Step.idle rfl) (by simp [Label.Spares, Label.completes])
  induction reaps generalizing w with
  | child pid status rest ih =>
    unfold reapLoop
    refine wp_bind_ok (emit_run w _) (wp_bind_ok (state_run _) ?_)
    simp only [World.emit_st]
    cases hpid : w.st.pidToJob.find pid with
    | none =>
      have hstray : Tidies K nobody w (w.emit (.reaped pid status)) :=
        Tidies.start (Step.stray hpid) (by simp [Label.Spares, Label.completes])
      exact wp_mono (ih h) fun _ _ h' => hstray.trans h'
    | some j =>
      obtain ⟨p, hactive, rfl⟩ := h.pid_owner hpid
      have hstep := @Step.exited K w j p status hactive (Or.inl hpid)
      simp only [hactive]
      have hactive' : (w.emit (.reaped p.pid status)).st.activeJobs.find j = some p := hactive
      refine wp_bind_ok (modifyProcess_run hactive' _) (wp_bind_ok (emit_run _ _) ?_)
      refine wp_bind (R := fun _ w' => Tidies K nobody w w') ?_ (fun _ w1 h1 => ?_) fun _ _ h => h
      · simp only [World.emit, World.put, List.append_assoc, List.cons_append, List.nil_append]
        exact tryFinalizeJob_tidies (hstep.wf h)
          (Tidies.start hstep (by simp [Label.Spares, Label.completes]))
      · exact wp_mono (ih (wf_of_walk h1.1 h)) fun _ _ h2 => h1.trans h2
  | interrupted rest ih => exact ih h
  | none => exact hidle w
  | failed e =>
    unfold reapLoop
    refine wp_bind_ok (emit_run w _) ?_
    split_ifs
    · exact wp_pure (hidle w)
    · exact wp_throw (hidle w)

theorem readSignalsLoop_tidies (reads : SignalReads) :
    wp (readSignalsLoop reads) (fun _ w' => Tidies K nobody w w') w := by
  have hidle : Tidies K nobody w (w.emit (.called .readSignals)) :=
    Tidies.start (Step.idle rfl) (by simp [Label.Spares, Label.completes])
  induction reads with
  | records rest ih => exact ih
  | interrupted rest ih => exact ih
  | _ => exact hidle

theorem handleFileDescriptorEvent_tidies (h : Wf w.st) (fd : Fd) (eventMask : EventMask) :
    wp (handleFileDescriptorEvent K fd eventMask) (fun _ w' => Tidies K nobody w w') w := by
  unfold handleFileDescriptorEvent
  refine wp_bind_ok (state_run w) ?_
  split_ifs
  · unfold handleSigchld reapExitedChildren
    refine wp_bind_ok (history_run w) ?_
    refine wp_bind (readSignalsLoop_tidies (K := K) _) (fun _ w1 h1 => ?_) fun _ _ h => h
    refine wp_bind_ok (history_run w1) ?_
    exact wp_mono (reapLoop_tidies (wf_of_walk h1.1 h) _) fun _ _ h2 => h1.trans h2
  · cases htracked : w.st.trackedFds.find fd with
    | none => exact wp_pure (Tidies.refl w)
    | some tracked =>
      have hown : ∀ t, w.st.trackedFds.find fd = some t → t.jobId = tracked.jobId := by
        intro t ht
        rw [htracked] at ht
        rw [Option.some.inj ht]
      refine wp_bind (drainProcessFd_tidies h hown) (fun _ w1 h1 => ?_) fun e w1 h1 => ?_
      · exact tryFinalizeJob_tidies (wf_of_walk h1.1 h)
          ((Tidies.refl w).walk h1.1 spares_of_drainsOf)
      · exact ((Tidies.refl w).walk h1.1 spares_of_drainsOf).close (h1.2 ⟨_, rfl⟩)
  · exact wp_pure (Tidies.refl w)

/-- Every operation leaves the active jobs incomplete. -/
theorem Operation.tidies (op : Operation) (h : Wf w.st) (hallowed : op.Allowed w.st)
    (hop : op ≠ .takeNotification) : Tidies K nobody w (op.run K w).2 := by
  have hreturn : ∀ {α : Type} {m : Prog ProcessMonitor α},
      wp m (fun _ w' => Tidies K nobody w w') w →
        Tidies K nobody w ((do let _ ← m; pure ()) w : _ × _).2 := fun hm =>
    wp_bind (Q := fun _ w' => Tidies K nobody w w') hm (fun _ _ h => wp_pure h) fun _ _ h => h
  cases op with
  | submit jobId spec =>
    have hsubmit := @Step.submit K w jobId spec hallowed
    exact Tidies.start hsubmit (by simp [Label.Spares, Label.completes])
  | cancelQueued jobId =>
    obtain ⟨job, hjob, hqueued⟩ := hallowed
    have htrans : canTransition job.state .cancelled := by
      rw [hqueued]
      rfl
    have hrun : Operation.run K (.cancelQueued jobId) w = _ :=
      withJob_enter hjob (h.id_eq hjob) htrans
    rw [hrun]
    exact Tidies.start (.dequeue hjob hqueued) (by simp [Label.Spares, Label.completes])
  | takeNotification => exact absurd rfl hop
  | startJob jobId =>
    obtain ⟨e, -, hstart⟩ | ⟨-, l, hl, hstart⟩ := startJob_spec (K := K) h jobId
    · exact Tidies.start hstart (by simp [Label.Spares, Label.completes])
    · refine Tidies.start hstart ?_
      cases l <;> first | (cases hl) | simp [Label.Spares, Label.completes]
  | finishExitedChildBeforeSignal jobId =>
    refine hreturn ?_
    cases hactive : w.st.activeJobs.find jobId with
    | none =>
      obtain ⟨e, hrun⟩ := finishExitedChildBeforeSignal_of_none (K := K) hactive
      exact wp_of_run hrun (Tidies.start Step.misuse (by simp [Label.Spares, Label.completes]))
    | some p => exact finishExitedChildBeforeSignal_tidies h hactive
  | requestTerminate jobId cause => exact hreturn (requestTerminate_tidies h jobId cause)
  | forceKill jobId => exact hreturn (forceKill_tidies h jobId)
  | handleFileDescriptorEvent fd eventMask => exact handleFileDescriptorEvent_tidies h fd eventMask

/-! ## Callbacks -/

/-- The jobs that a step calls the callback for. -/
def Label.calls : Label → List JobId
  | .settle j => [j]
  | _ => []

theorem Step.notifications (hstep : Step K l w w') (hl : l ≠ .collect) :
    w'.st.terminalJobNotifications = w.st.terminalJobNotifications ++ l.calls := by
  cases hstep with
  | settle => rfl
  | collect => exact absurd rfl hl
  | _ => exact (List.append_nil _).symm

/-- The callback has been called for a job that has run once it is terminal, and only then. -/
structure Called (called : List JobId) (w : World ProcessMonitor) (j : JobId) : Prop where
  started : ∀ job, w.st.jobs.find j = some job → job.state.isActive → .entered j .running ∈ w.log
  known : .entered j .running ∈ w.log → ∃ job, w.st.jobs.find j = some job ∧ job.state ≠ .queued
  once : called.count j = if .entered j .running ∈ w.log ∧
    ∃ job, w.st.jobs.find j = some job ∧ isTerminal job.state then 1 else 0

variable {called calls : List JobId}

/-- Nothing happens to the job. -/
theorem Called.same (h : Called called w j) (hjob : w'.st.jobs.find j = w.st.jobs.find j)
    (hlog : .entered j .running ∈ w'.log ↔ .entered j .running ∈ w.log)
    (hcalls : calls.count j = 0) : Called (called ++ calls) w' j where
  started := by
    rw [hjob, hlog]
    exact h.started
  known := by
    rw [hjob, hlog]
    exact h.known
  once := by
    rw [List.count_append, hcalls, Nat.add_zero, h.once]
    simp only [hjob, hlog]

theorem Called.uncalled (h : Called called w j) (hjob : w.st.jobs.find j = some job)
    (hterm : isTerminal job.state = false) : called.count j = 0 := by
  rw [h.once, if_neg]
  rintro ⟨-, job', hjob', hterm'⟩
  rw [hjob] at hjob'
  rw [← Option.some.inj hjob', hterm] at hterm'
  cases hterm'

/-- The job is new, or is rewritten before it is terminal. -/
theorem called_of_uncalled (h : called.count j = 0) (hjob : w'.st.jobs.find j = some job)
    (hstarted : job.state.isActive → .entered j .running ∈ w'.log)
    (hknown : .entered j .running ∈ w'.log → job.state ≠ .queued)
    (hcalls : calls.count j =
      if .entered j .running ∈ w'.log ∧ isTerminal job.state then 1 else 0) :
    Called (called ++ calls) w' j where
  started job' hjob' hactive := by
    rw [hjob] at hjob'
    exact hstarted (Option.some.inj hjob' ▸ hactive)
  known hlog := ⟨job, hjob, hknown hlog⟩
  once := by
    rw [List.count_append, h, Nat.zero_add, hcalls]
    simp only [hjob, Option.some.injEq, exists_eq_left']

/-- A queued job has not run. -/
theorem Called.not_run (h : Called called w j) (hjob : w.st.jobs.find j = some job)
    (hqueued : job.state = .queued) : .entered j .running ∉ w.log := fun hmem => by
  obtain ⟨job', hjob', hne⟩ := h.known hmem
  rw [hjob] at hjob'
  exact hne (Option.some.inj hjob' ▸ hqueued)

theorem Step.callbacks (hstep : Step K l w w') (hwf : Wf w.st) (h : ∀ k, Called called w k)
    (k : JobId) : Called (called ++ l.calls) w' k := by
  cases hstep with
  | @idle _ e he =>
    refine (h k).same rfl ?_ rfl
    cases e <;> first | (cases he; done) | simp
  | receive | finish | exited | stray | lost | misuse | misstart | kill | collect =>
    exact (h k).same rfl (by simp) rfl
  | @settle _ j p job job' hactive hcomplete hjob hsettled =>
    have hs := settles_of_settledJob hsettled
    by_cases hk : k = j
    · subst hk
      have hrun := (h k).started job hjob (hwf.isActive hjob hactive)
      have hlog : Event.entered k .running ∈ w.log ++ [.entered k job'.state] :=
        List.mem_append_left _ hrun
      have huncalled := (h k).uncalled hjob (isTerminal_of_isActive (hwf.isActive hjob hactive))
      refine called_of_uncalled huncalled (Table.find_set_self _ _ _) (fun _ => hlog)
        (fun _ hqueued => ?_) ?_
      · have hterm := hs.terminal
        rw [hqueued] at hterm
        cases hterm
      · rw [if_pos ⟨hlog, hs.terminal⟩]
        simp [Label.calls]
    · refine (h k).same (Table.find_set_of_ne _ _ hk) ?_ ?_
      · simp [hk]
      · simp [Label.calls, Ne.symm hk]
  | @garble _ j p job hactive hcomplete hjob hsettled =>
    have hstate := hwf.isActive hjob hactive
    by_cases hk : k = j
    · subst hk
      have hrun := (h k).started job hjob hstate
      refine called_of_uncalled ((h k).uncalled hjob (isTerminal_of_isActive hstate))
        (Table.find_set_self _ _ _) (fun _ => hrun) (fun _ (hqueued : job.state = .queued) => ?_) ?_
      · rw [hqueued] at hstate
        cases hstate
      · rw [if_neg]
        · rfl
        · rintro ⟨-, hterm : isTerminal job.state⟩
          rw [isTerminal_of_isActive hstate] at hterm
          cases hterm
    · exact (h k).same (Table.find_set_of_ne _ _ hk) Iff.rfl rfl
  | @launchFailed _ j job events message hjob hqueued hlaunch hmessage =>
    have hevents := entered_not_launch hlaunch.isLaunch
    by_cases hk : k = j
    · subst hk
      have hrun : Event.entered k .running ∉
          w.log ++ .starting k :: (events ++ [.entered k .failed]) := by
        simp [(h k).not_run hjob hqueued, hevents]
      refine called_of_uncalled ((h k).uncalled hjob (by rw [hqueued]; rfl)) (Table.find_set_self _ _ _)
        (fun hactive => by cases hactive) (fun hmem => absurd hmem hrun) ?_
      rw [if_neg fun hmem => hrun hmem.1]
      rfl
    · exact (h k).same (Table.find_set_of_ne _ _ hk) (by simp [hevents]) rfl
  | @abandoned _ j job events rest tracked launched message hjob hqueued hlaunch hrest htracked =>
    have hevents := entered_not_launch hrest.isLaunch
    simp only [List.mem_append, not_or] at hevents
    by_cases hk : k = j
    · subst hk
      have hrun : Event.entered k .running ∉ w.log ++ .starting k :: (events ++ .adopted k
          launched.pid launched.stdoutFd launched.stderrFd launched.startupErrorFd ::
            (rest ++ [.entered k .failed])) := by
        simp [(h k).not_run hjob hqueued, hevents]
      refine called_of_uncalled ((h k).uncalled hjob (by rw [hqueued]; rfl)) (Table.find_set_self _ _ _)
        (fun hactive => by cases hactive) (fun hmem => absurd hmem hrun) ?_
      rw [if_neg fun hmem => hrun hmem.1]
      rfl
    · exact (h k).same (Table.find_set_of_ne _ _ hk) (by simp [hevents]) rfl
  | @started _ j job events launched hjob hqueued hlaunch hgroup hnone hfresh hdistinct =>
    have hevents := entered_not_launch hlaunch.isLaunch
    by_cases hk : k = j
    · subst hk
      refine called_of_uncalled ((h k).uncalled hjob (by rw [hqueued]; rfl)) (Table.find_set_self _ _ _)
        (fun _ => by simp) (fun _ => by simp) ?_
      rw [if_neg]
      · rfl
      · rintro ⟨-, hterm⟩
        cases hterm
    · exact (h k).same (Table.find_set_of_ne _ _ hk) (by simp [hevents, hk]) rfl
  | @terminate _ j p job cause hactive hjob hrunning =>
    by_cases hk : k = j
    · subst hk
      have hrun := (h k).started job hjob (by rw [hrunning]; rfl)
      refine called_of_uncalled ((h k).uncalled hjob (by rw [hrunning]; rfl))
        (Table.find_set_self _ _ _)
        (fun _ => List.mem_append_left _ hrun) (fun _ => by simp) ?_
      rw [if_neg]
      · rfl
      · rintro ⟨-, hterm⟩
        cases hterm
    · exact (h k).same (Table.find_set_of_ne _ _ hk) (by simp) rfl
  | @submit _ j spec hjob =>
    by_cases hk : k = j
    · subst hk
      have hrun : Event.entered k .running ∉ w.log := fun hmem => by
        obtain ⟨job, hjob', -⟩ := (h k).known hmem
        rw [hjob] at hjob'
        cases hjob'
      have huncalled : called.count k = 0 := by
        rw [(h k).once, if_neg fun hmem => hrun hmem.1]
      refine called_of_uncalled huncalled (Table.find_set_self _ _ _) (fun hactive => by cases hactive)
        (fun hmem => absurd hmem (by simpa using hrun)) ?_
      rw [if_neg]
      · rfl
      · rintro ⟨-, hterm⟩
        cases hterm
    · exact (h k).same (Table.find_set_of_ne _ _ hk) (by simp) rfl
  | @dequeue _ j job hjob hqueued =>
    by_cases hk : k = j
    · subst hk
      have hrun : Event.entered k .running ∉ w.log ++ [.entered k .cancelled] := by
        simp [(h k).not_run hjob hqueued]
      refine called_of_uncalled ((h k).uncalled hjob (by rw [hqueued]; rfl)) (Table.find_set_self _ _ _)
        (fun hactive => by cases hactive) (fun hmem => absurd hmem hrun) ?_
      rw [if_neg fun hmem => hrun hmem.1]
      rfl
    · exact (h k).same (Table.find_set_of_ne _ _ hk) (by simp) rfl

/-! ## Runs -/

/-- The notification that an operation takes off the queue. -/
def Operation.takes (t : ProcessMonitor) : Operation → List JobId
  | .takeNotification => t.terminalJobNotifications.take 1
  | _ => []

/-- The monitor after any operations, whether they return or throw, and the notifications that were
taken off the queue. The callback puts them there. -/
inductive Observed (K : Kernel) : List JobId → World ProcessMonitor → Prop where
  | start (sigchldFd : Fd) : Observed K [] ⟨{ sigchldFd }, []⟩
  | operate {taken taken' : List JobId} {w : World ProcessMonitor} (op : Operation)
      (h : Observed K taken w) (hallowed : op.Allowed w.st)
      (htaken : taken' = taken ++ op.takes w.st) : Observed K taken' (op.run K w).2

/-- What the monitor has recorded agrees with what it does. -/
structure Bookkeeping (taken : List JobId) (w : World ProcessMonitor) : Prop where
  /-- A descriptor is tracked for a job's pipe while it is this pipe's. -/
  tracked : ∀ fd j kind, w.st.trackedFds.find fd = some ⟨j, kind⟩ ↔
    ∃ p, w.st.activeJobs.find j = some p ∧ (p.pipe kind).fd = some fd
  closed : ∀ j p, w.st.activeJobs.find j = some p →
    ∀ kind, (p.pipe kind).fd = none ↔ (p.pipe kind).eof
  active : ∀ j, (∃ p, w.st.activeJobs.find j = some p) ↔
    ∃ job, w.st.jobs.find j = some job ∧ (job.state = .running ∨ job.state = .terminating)
  incomplete : ∀ j p, w.st.activeJobs.find j = some p →
    ¬ (p.childExited ∧ ∀ kind, (p.pipe kind).eof)
  /-- The callback has been called once for each job that has run and is terminal, and for no
  other. -/
  called : ∀ j, (taken ++ w.st.terminalJobNotifications).count j =
    if .entered j .running ∈ w.log ∧ ∃ job, w.st.jobs.find j = some job ∧ isTerminal job.state
    then 1 else 0

theorem called_of_walk {taken : List JobId} (hwf : Wf w.st)
    (hwalk : Walk (Step K) {l | l ≠ .collect} w w')
    (h : ∀ j, Called (taken ++ w.st.terminalJobNotifications) w j) :
    ∀ j, Called (taken ++ w'.st.terminalJobNotifications) w' j := by
  have key := hwalk.invariant (P := fun w => Wf w.st ∧
    ∀ j, Called (taken ++ w.st.terminalJobNotifications) w j) ?_ ⟨hwf, h⟩
  · exact key.2
  · rintro l hl a b hstep ⟨hwf, ih⟩
    refine ⟨hstep.wf hwf, fun j => ?_⟩
    rw [hstep.notifications hl, ← List.append_assoc]
    exact hstep.callbacks hwf ih j

/-- What the operations keep. -/
theorem Observed.kept {taken : List JobId} (h : Observed K taken w) : Wf w.st ∧
    (∀ j, Called (taken ++ w.st.terminalJobNotifications) w j) ∧
    (Promised w.log → Booked w ∧ Eager nobody w.st) := by
  induction h with
  | start sigchldFd =>
    refine ⟨wf_initial sigchldFd, fun j => ⟨?_, ?_, ?_⟩,
      fun _ => ⟨⟨wf_initial sigchldFd, ?_, ?_, ?_⟩, ?_⟩⟩
    · simp
    · simp
    · simp
    · exact fun j p h => by simp at h
    · exact fun fd t h => by simp at h
    · exact fun j p kind fd h => by simp at h
    · exact fun j p h => by simp at h
  | @operate taken taken' w op h hallowed htaken ih =>
    subst htaken
    obtain ⟨hwf, hcalled, hbooked⟩ := ih
    by_cases hop : op = .takeNotification
    · subst hop
      -- what is taken off the queue has been in it
      obtain ⟨j, rest, hnotified⟩ := List.exists_cons_of_ne_nil hallowed
      have hcollect := Step.collect (K := K) hnotified
      have hrun : (Operation.run K .takeNotification w).2 =
          ⟨{ w.st with terminalJobNotifications := rest }, w.log⟩ := by
        show (⟨{ w.st with terminalJobNotifications := w.st.terminalJobNotifications.tail },
          w.log⟩ : World ProcessMonitor) = _
        rw [hnotified]
        rfl
      rw [hrun]
      refine ⟨hcollect.wf hwf, fun k => ?_, fun hpromised => ?_⟩
      · have hsame : taken ++ Operation.takes w.st .takeNotification ++ rest =
            taken ++ w.st.terminalJobNotifications := by
          simp [Operation.takes, hnotified]
        rw [hsame]
        exact ⟨(hcalled k).started, (hcalled k).known, (hcalled k).once⟩
      · exact ⟨hcollect.booked hpromised (hbooked hpromised).1, (hbooked hpromised).2⟩
    · have htidies := op.tidies (K := K) hwf hallowed hop
      have htakes : op.takes w.st = [] := by
        cases op <;> first | rfl | exact absurd rfl hop
      refine ⟨wf_of_walk htidies.1 hwf, ?_, fun hpromised => ?_⟩
      · rw [htakes, List.append_nil]
        exact called_of_walk hwf htidies.1 hcalled
      · obtain ⟨hold, heager⟩ := hbooked (promised_of_walk htidies.1 hpromised)
        exact ⟨booked_of_walk htidies.1 hpromised hold, htidies.2 hold hpromised heager⟩

/-- After every operation, the pipes that are tracked are the open pipes of the active jobs, the
active jobs are those that run or terminate, none of them is complete, and the callback has been
called once for every job that has run and is terminal. -/
theorem bookkeeping {taken : List JobId} (h : Observed K taken w) (hfresh : FreshFds w.log)
    (hexits : OnlyExits w.log) : Bookkeeping taken w := by
  obtain ⟨hwf, hcalled, hbooked⟩ := h.kept
  obtain ⟨hbooked, heager⟩ := hbooked ⟨hfresh, hexits⟩
  refine ⟨fun fd j kind => ⟨fun htracked => hwf.fd_owner htracked, ?_⟩,
    fun j p hactive kind => (hwf.eof_iff hactive kind).symm, fun j => ⟨?_, ?_⟩, fun j p hactive => ?_,
    fun j => (hcalled j).once⟩
  · rintro ⟨p, hactive, hfd⟩
    exact hbooked.held j p kind fd hactive hfd
  · rintro ⟨p, hactive⟩
    obtain ⟨job, hjob⟩ := hwf.job_of_active hactive
    refine ⟨job, hjob, ?_⟩
    have hstate := hwf.isActive hjob hactive
    cases hs : job.state <;> rw [hs] at hstate <;> first | (cases hstate; done) | simp
  · rintro ⟨job, hjob, hstate⟩
    refine (hwf.active_iff hjob).mpr ?_
    obtain hstate | hstate := hstate <;> rw [hstate] <;> rfl
  · rw [← ActiveProcess.complete_iff, (heager j p hactive).resolve_left id]
    simp

theorem bookkeeping_run : Bookkeeping [1]
    (operations writingKernel ⟨{ sigchldFd := 1000 }, []⟩
      (writingOperations ++ [.takeNotification])) := by
  set w := operations writingKernel ⟨{ sigchldFd := 1000 }, []⟩
    (writingOperations ++ [.takeNotification]) with hw
  have hrun : Observed writingKernel [1] w := by
    refine .operate .takeNotification (.operate (.handleFileDescriptorEvent 8 _)
      (.operate (.handleFileDescriptorEvent 6 _) (.operate (.handleFileDescriptorEvent 1000 _)
        (.operate (.handleFileDescriptorEvent 4 _) (.operate (.startJob 1)
          (.operate (.submit 1 _) (.start 1000) ?_ rfl) ?_ rfl) ?_ rfl) ?_ rfl) ?_ rfl) ?_ rfl)
            ?_ ?_
    · exact rfl
    · trivial
    · trivial
    · trivial
    · trivial
    · trivial
    · show ProcessMonitor.terminalJobNotifications _ ≠ []
      decide +kernel
    · decide +kernel
  have hfresh : FreshFds w.log := by decide +kernel
  have hexits : OnlyExits w.log := by decide +kernel
  exact bookkeeping hrun hfresh hexits

end ProcessMonitor

end Runnerd
