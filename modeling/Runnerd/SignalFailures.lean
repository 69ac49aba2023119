import Runnerd.KernelAnswers
import Runnerd.Punctuality

/-!
# Failed signals

The loop of `handleDeadlineEvent` sees to one job after the other, each as if it were the only one: it is
the sequence of the loops over the single jobs. But `requestTerminate` and `forceKill` throw when `kill`
fails with anything but `ESRCH`, and nothing between them and the end of the program catches that,
whereas `cancelJob` answers the client. So the jobs that are due are all seen to exactly where nothing
fails that one of them needs at its turn. In any case a job that could not be sent SIGTERM is left
running.
-/

namespace Runnerd

open Effect Effect.Prog Steps

namespace Daemon

open ProcessMonitor (Wf Held Alone KeepsOthers lookAnswer signalAnswer)

variable {K : Kernel} {n : ℕ} {w w' : World Daemon} {due rest : List JobId} {j k : JobId} {job : Job}
  {p q : ActiveProcess} {log : List Event}

/-! ## One job -/

/-- What seeing to a job comes to whose deadline has come: a running one is asked to terminate, a
terminating one is sent SIGKILL. -/
def deadlineTurn (K : Kernel) (j : JobId) (job : Job) (p : ActiveProcess) (log : List Event)
    (t : TimeoutManager) : Turn :=
  match job.state with
  | .running => terminateTurn K j .timedOut job log p t
  | .terminating => signalTurn t (signalAnswer K j .SIGKILL job log p)
  | _ => .done log t

/-- A round of the loop is the turn of its job. -/
theorem deadlineRound_turn (h : Sound n ⟨w, j :: rest⟩) (hheld : Held w.st.monitor)
    (hjob : w.st.jobs.find j = some job) (hactive : w.st.monitor.activeJobs.find j = some p) :
    wp (deadlineLoop K [j])
      (fun r w' => Turns j w w' (deadlineTurn K j job p w.log w.st.timeouts) r) w := by
  have hwf : Wf w.st.monitor := h.wf
  have hstate : job.state.isActive := hwf.isActive hjob hactive
  unfold deadlineLoop deadlineTurn
  refine wp_bind_ok (state_run w) ?_
  rw [hjob]
  simp only
  cases hs : job.state with
  | running =>
    simp only
    rcases hrun : ProcessMonitor.requestTerminate K j .timedOut (monitorWorld w) with ⟨r, v⟩
    by_cases hr : r = .ok true
    · -- SIGTERM was delivered
      subst hr
      refine wp_bind_ok (inMonitor_run hrun) ?_
      simp only [Bool.true_eq_false, if_false]
      have hturn := scheduleForceKillDeadline_turn hwf hheld h.timed.refines hjob hactive hs hrun
      refine wp_bind hturn (fun _ w1 h1 => ?_) fun _ _ h1 => h1
      exact wp_pure h1
    · have hturn := requestTerminate_turn hwf hheld hjob hactive hs hrun hr
      cases r with
      | error e => exact wp_of_run (bind_of_error (inMonitor_run hrun)) hturn
      | ok delivered =>
        obtain rfl : delivered = false := Bool.eq_false_iff.mpr fun h => hr (by rw [h])
        refine wp_bind_ok (inMonitor_run hrun) ?_
        simp only [if_true]
        exact wp_pure hturn
  | terminating =>
    simp only
    have hturn := forceKill_turn (K := K) hwf hheld hjob hactive hs
    rcases hrun : inMonitor (ProcessMonitor.forceKill K j) w with ⟨r, w1⟩
    cases r with
    | error e => exact wp_of_run (bind_of_error hrun) (wp_run hturn (bind_of_error hrun))
    | ok b => exact wp_bind_ok hrun (wp_pure (wp_run hturn (bind_of_ok hrun)))
  | queued | succeeded | failed | cancelled | timedOut | interrupted =>
    rw [hs] at hstate
    cases hstate

/-- Nothing is done about a job without a process: it has ended. -/
theorem deadlineRound_ended (h : Sound n ⟨w, j :: rest⟩)
    (hactive : w.st.monitor.activeJobs.find j = none) : deadlineLoop K [j] w = (.ok (), w) := by
  have hwf : Wf w.st.monitor := h.wf
  obtain ⟨job, hjob, hqueued⟩ := h.timed.offQueue j (Or.inr List.mem_cons_self)
  have hended : job.state.isActive ≠ true := fun hstate => by
    obtain ⟨p, hp⟩ := (hwf.active_iff hjob).mpr hstate
    rw [hactive] at hp
    cases hp
  unfold deadlineLoop
  rw [bind_of_ok (state_run w), hjob]
  simp only
  cases hs : job.state with
  | queued => exact absurd hs hqueued
  | running => exact absurd (by rw [hs]; rfl) hended
  | terminating => exact absurd (by rw [hs]; rfl) hended
  | succeeded | failed | cancelled | timedOut | interrupted => rfl

/-! ## All of them -/

/-- Nothing fails that these jobs need, one after the other. The history and the deadlines go from turn
to turn; the tables are those at the start. -/
def manageable (K : Kernel) (jobs : JobTable) (processes : Table JobId ActiveProcess) :
    List JobId → List Event → TimeoutManager → Bool
  | [], _, _ => true
  | j :: rest, log, t =>
    match jobs.find j, processes.find j with
    | some job, some p =>
      match deadlineTurn K j job p log t with
      | .failed => false
      | .settled log t | .done log t => manageable K jobs processes rest log t
    | _, _ => manageable K jobs processes rest log t

theorem manageable_congr {jobs jobs' : JobTable} {processes processes' : Table JobId ActiveProcess}
    {due : List JobId} (hjobs : ∀ j ∈ due, jobs'.find j = jobs.find j)
    (hprocesses : ∀ j ∈ due, processes'.find j = processes.find j) (log : List Event)
    (t : TimeoutManager) :
    manageable K jobs' processes' due log t = manageable K jobs processes due log t := by
  induction due generalizing log t with
  | nil => rfl
  | cons j rest ih =>
    obtain ⟨hj, hjobs⟩ := List.forall_mem_cons.mp hjobs
    obtain ⟨hp, hprocesses⟩ := List.forall_mem_cons.mp hprocesses
    unfold manageable
    simp only [hj, hp, ih hjobs hprocesses]

/-- The loop returns exactly where nothing fails that one of the jobs needs. -/
theorem deadlineLoop_returns (due : List JobId) (h : Sound n ⟨w, due⟩) (hheld : Held w.st.monitor) :
    (deadlineLoop K due w).1 = .ok () ↔
      manageable K w.st.jobs w.st.monitor.activeJobs due w.log w.st.timeouts := by
  induction due generalizing w with
  | nil => exact iff_of_true rfl rfl
  | cons j rest ih =>
    obtain ⟨hnot, -⟩ := List.nodup_cons.mp h.timed.due_nodup
    obtain ⟨job, hjob, -⟩ := h.timed.offQueue j (Or.inr List.mem_cons_self)
    have hjob : w.st.jobs.find j = some job := hjob
    have hwalk := deadlineRound_spec (K := K) h
    unfold manageable
    rw [deadlineLoop_cons, hjob]
    cases hactive : w.st.monitor.activeJobs.find j with
    | none =>
      have hrun := deadlineRound_ended (K := K) h hactive
      obtain ⟨due', hwalk, hdue'⟩ := wp_run hwalk hrun
      obtain rfl := hdue' rfl
      rw [bind_of_ok hrun]
      exact ih (sound_of_walk hwalk h) hheld
    | some p =>
      rcases hrun : deadlineLoop K [j] w with ⟨r, w1⟩
      have hturns := wp_run (deadlineRound_turn (K := K) h hheld hjob hactive) hrun
      obtain ⟨due', hwalk, hdue'⟩ := wp_run hwalk hrun
      simp only
      generalize deadlineTurn K j job p w.log w.st.timeouts = turn at hturns ⊢
      -- the entries of the jobs that remain are those at the start
      have hrest : ∀ w1, KeepsOthers j (monitorWorld w) (monitorWorld w1) → Sound n ⟨w1, rest⟩ →
          ((deadlineLoop K rest w1).1 = .ok () ↔
            manageable K w.st.jobs w.st.monitor.activeJobs rest w1.log w1.st.timeouts) := by
        intro w1 hconfined hsound
        have hne : ∀ k ∈ rest, k ≠ j := fun k hk heq => hnot (heq ▸ hk)
        have hcongr : manageable K w1.st.jobs w1.st.monitor.activeJobs rest w1.log w1.st.timeouts =
            manageable K w.st.jobs w.st.monitor.activeJobs rest w1.log w1.st.timeouts :=
          manageable_congr (fun k hk => hconfined.jobs k (hne k hk))
            (fun k hk => hconfined.processes k (hne k hk)) _ _
        rw [ih hsound hconfined.held, hcongr]
      cases hturns with
      | failed hnotified hconfined =>
        rw [bind_of_error hrun]
        exact iff_of_false (fun hr => by cases hr) Bool.false_ne_true
      | settled hlog htimeouts hconfined =>
        obtain rfl := hdue' rfl
        rw [bind_of_ok hrun, hrest w1 hconfined (sound_of_walk hwalk h), hlog, htimeouts]
      | done hlog htimeouts hnotified hconfined =>
        obtain rfl := hdue' rfl
        rw [bind_of_ok hrun, hrest w1 hconfined (sound_of_walk hwalk h), hlog, htimeouts]

/-- The loop up to a job that is due, and from it on. -/
theorem deadlineLoop_append (pre : List JobId) (hok : (deadlineLoop K pre w).1 = .ok ()) :
    deadlineLoop K (pre ++ rest) w = deadlineLoop K rest (deadlineLoop K pre w).2 := by
  induction pre generalizing w with
  | nil => rfl
  | cons i pre ih =>
    rw [List.cons_append, deadlineLoop_cons i (pre ++ rest), deadlineLoop_cons i pre]
    rw [deadlineLoop_cons i pre] at hok
    rcases hrun : deadlineLoop K [i] w with ⟨r, w1⟩
    cases r with
    | ok _ =>
      rw [bind_of_ok hrun] at hok
      rw [bind_of_ok hrun, bind_of_ok hrun]
      exact ih hok
    | error e =>
      rw [bind_of_error hrun] at hok
      cases hok

/-- Where the whole loop returns, so does its first part. -/
theorem deadlineLoop_before (pre post : List JobId)
    (hok : (deadlineLoop K (pre ++ post) w).1 = .ok ()) :
    (deadlineLoop K pre w).1 = .ok () := by
  induction pre generalizing w with
  | nil => rfl
  | cons i pre ih =>
    rw [List.cons_append, deadlineLoop_cons i (pre ++ post)] at hok
    rw [deadlineLoop_cons i pre]
    rcases hrun : deadlineLoop K [i] w with ⟨r, w1⟩
    cases r with
    | ok _ =>
      rw [bind_of_ok hrun] at hok ⊢
      exact ih hok
    | error e =>
      rw [bind_of_error hrun] at hok
      cases hok

/-- What the loop over a first part of the list leaves: the entries of the jobs that remain. -/
structure Partway (n : ℕ) (w w' : World Daemon) (pre post : List JobId) (r : Except Exception Unit) :
    Prop where
  jobs : ∀ k ∉ pre, w'.st.jobs.find k = w.st.jobs.find k
  processes : ∀ k ∉ pre, w'.st.monitor.activeJobs.find k = w.st.monitor.activeJobs.find k
  held : Held w'.st.monitor
  sound : r = .ok () → Sound n ⟨w', post⟩

theorem deadlineRound_confined (h : Sound n ⟨w, j :: rest⟩) (hheld : Held w.st.monitor) :
    wp (deadlineLoop K [j]) (fun _ w' => KeepsOthers j (monitorWorld w) (monitorWorld w')) w := by
  cases hactive : w.st.monitor.activeJobs.find j with
  | none =>
    exact wp_of_run (deadlineRound_ended h hactive) (.of_state j rfl hheld)
  | some p =>
    obtain ⟨job, hjob, -⟩ := h.timed.offQueue j (Or.inr List.mem_cons_self)
    refine wp_mono (deadlineRound_turn (K := K) h hheld hjob hactive) fun r w' hturns => ?_
    generalize deadlineTurn K j job p w.log w.st.timeouts = turn at hturns
    cases hturns with
    | failed _ hconfined => exact hconfined
    | settled _ _ hconfined => exact hconfined
    | done _ _ _ hconfined => exact hconfined

theorem deadlineLoop_partway (pre post : List JobId) (h : Sound n ⟨w, pre ++ post⟩)
    (hheld : Held w.st.monitor) :
    wp (deadlineLoop K pre) (fun r w' => Partway n w w' pre post r) w := by
  induction pre generalizing w with
  | nil => exact wp_pure ⟨fun _ _ => rfl, fun _ _ => rfl, hheld, fun _ => h⟩
  | cons i pre ih =>
    rw [deadlineLoop_cons]
    have hround : wp (deadlineLoop K [i]) (fun r w1 =>
        KeepsOthers i (monitorWorld w) (monitorWorld w1) ∧ (r = .ok () → Sound n ⟨w1, pre ++ post⟩))
        w := by
      refine ⟨deadlineRound_confined h hheld, fun hr => ?_⟩
      obtain ⟨due', hwalk, hdue'⟩ := deadlineRound_spec (K := K) h
      obtain rfl := hdue' hr
      exact sound_of_walk hwalk h
    refine wp_bind hround (fun _ w1 h1 => ?_) fun e w1 h1 => ?_
    · obtain ⟨hconfined, hsound⟩ := h1
      refine wp_mono (ih (hsound rfl) hconfined.held) fun r w' h' =>
        ⟨fun k hk => ?_, fun k hk => ?_, h'.held, h'.sound⟩
      · exact (h'.jobs k (List.not_mem_of_not_mem_cons hk)).trans
          (hconfined.jobs k (List.ne_of_not_mem_cons hk))
      · exact (h'.processes k (List.not_mem_of_not_mem_cons hk)).trans
          (hconfined.processes k (List.ne_of_not_mem_cons hk))
    · exact ⟨fun k hk => h1.1.jobs k (List.ne_of_not_mem_cons hk),
        fun k hk => h1.1.processes k (List.ne_of_not_mem_cons hk), h1.1.held, fun hr => by cases hr⟩

/-- What the loop does about other jobs, while it sees to the first ones of the list. -/
theorem deadlineLoop_others (pre post : List JobId) (h : Sound n ⟨w, pre ++ post⟩)
    (halone : Alone k w.st.monitor.activeJobs) (hpre : k ∉ pre) :
    wp (deadlineLoop K pre) (fun _ w' => Spares k w w') w := by
  induction pre generalizing w with
  | nil => exact wp_pure (.refl halone)
  | cons i pre ih =>
    have hi : i ≠ k := by
      rintro rfl
      exact hpre List.mem_cons_self
    rw [deadlineLoop_cons]
    have hround : wp (deadlineLoop K [i]) (fun r w1 => Spares k w w1 ∧ ∃ due',
        Walk (Step K) {l | l.strikes} ⟨w, i :: (pre ++ post)⟩ ⟨w1, due'⟩ ∧
          (r = .ok () → due' = pre ++ post)) w :=
      ⟨deadlineLoop_spares h halone hi, deadlineRound_spec h⟩
    refine wp_bind hround (fun _ w1 h1 => ?_) fun e w1 h1 => h1.1
    obtain ⟨hspares, due', hwalk, hok⟩ := h1
    obtain rfl := hok rfl
    have hrest := ih (sound_of_walk hwalk h) hspares.alone fun hk => hpre (List.mem_cons_of_mem _ hk)
    exact wp_mono hrest fun _ _ h' => hspares.trans h'

/-- The job is the running one that it was, without a cause. -/
def LeftAlone (w' : World Daemon) (j : JobId) (job : Job) : Prop :=
  w'.st.jobs.find j = some job ∧ job.state = .running ∧ job.terminationCause = none

/-- The turn of a running job that is still there and that `kill` cannot send SIGTERM. -/
theorem deadlineRound_unsent (h : Sound n ⟨w, j :: rest⟩) (hheld : Held w.st.monitor)
    (hjob : w.st.jobs.find j = some job) (hrunning : job.state = .running)
    (hactive : w.st.monitor.activeJobs.find j = some p)
    (hlook : lookAnswer K j job w.log p = .kept log q)
    (hkill : (K.kill log q.processGroupId .SIGTERM).last ≠ .ok ()) :
    LeftAlone (deadlineLoop K [j] w).2 j job := by
  have hwf : Wf w.st.monitor := h.wf
  have hends := ProcessMonitor.requestTerminate_ends (K := K) (w := monitorWorld w) hwf hactive hjob
    hrunning .timedOut
  rcases hrun : ProcessMonitor.requestTerminate K j .timedOut (monitorWorld w) with ⟨r, v⟩
  obtain ⟨events, hends⟩ := wp_run hends hrun
  have hrequests := wp_run (ProcessMonitor.requestTerminate_foretold (K := K) (w := monitorWorld w) hwf
    hheld hjob hactive hrunning .timedOut) hrun
  have hanswer : (∃ log' q', signalAnswer K j .SIGTERM job w.log p = .gone log' q') ∨
      signalAnswer K j .SIGTERM job w.log p = .failed := by
    unfold signalAnswer
    rw [hlook]
    simp only
    cases hlast : (K.kill log q.processGroupId .SIGTERM).last with
    | ok _ => exact absurd hlast hkill
    | error e =>
      simp only
      split_ifs
      · exact Or.inl ⟨_, _, rfl⟩
      · exact Or.inr rfl
  have hsame : r ≠ .ok true ∧ v.st.jobs = w.st.monitor.jobs := by
    have hrequests : ProcessMonitor.Requests j job .timedOut (monitorWorld w) v
      (signalAnswer K j .SIGTERM job w.log p) r := hrequests
    obtain ⟨log', q', hgone⟩ | hfailed := hanswer
    · rw [hgone] at hrequests
      cases hrequests with
      | unsent hsignals =>
        cases hsignals with
        | gone hseen => exact ⟨by simp, hseen.jobs⟩
    · rw [hfailed] at hrequests
      cases hrequests with
      | unsent hsignals =>
        cases hsignals with
        | @failed e => exact ⟨by simp, hends.threw e rfl⟩
  obtain ⟨hr, hjobs⟩ := hsame
  have hend : (deadlineLoop K [j] w).2 = withMonitor w v := by
    unfold deadlineLoop
    rw [bind_of_ok (state_run w), hjob]
    simp only [hrunning]
    cases r with
    | error e => rw [bind_of_error (inMonitor_run hrun)]
    | ok delivered =>
      obtain rfl : delivered = false := Bool.eq_false_iff.mpr fun h => hr (by rw [h])
      rw [bind_of_ok (inMonitor_run hrun)]
      rfl
  refine ⟨?_, hrunning, hwf.no_cause hjob (Or.inr hrunning)⟩
  rw [hend]
  exact (congrArg (·.find j) hjobs).trans hjob

/-- The turn of one of the jobs that are due: it comes, and is the loop over this job alone; the job is
as it was before the others had their turns, and stays as it is in the turns that follow, as far as no
other job shares its process id or a descriptor. -/
structure HasTurn (K : Kernel) (w : World Daemon) (pre : List JobId) (j : JobId)
    (post : List JobId) : Prop where
  comes : deadlineLoop K (pre ++ j :: post) w =
    (do deadlineLoop K [j]; deadlineLoop K post : Prog Daemon Unit) (deadlineLoop K pre w).2
  before : Alone j w.st.monitor.activeJobs → Spares j w (deadlineLoop K pre w).2
  after : Alone j (deadlineLoop K (pre ++ [j]) w).2.st.monitor.activeJobs →
    Spares j (deadlineLoop K (pre ++ [j]) w).2 (deadlineLoop K (pre ++ j :: post) w).2

/-- All jobs that are due are seen to, and the handler returns to the main loop. A job that `kill` could
not send SIGTERM is left alone. -/
structure SeenTo (K : Kernel) (w : World Daemon) (due : List JobId) : Prop where
  returns : (deadlineLoop K due w).1 = .ok ()
  turns : ∀ pre j post, due = pre ++ j :: post → HasTurn K w pre j post
  unsent : ∀ pre j post job p log q, due = pre ++ j :: post → w.st.jobs.find j = some job →
    job.state = .running → w.st.monitor.activeJobs.find j = some p →
    lookAnswer K j job (deadlineLoop K pre w).2.log p = .kept log q →
    (K.kill log q.processGroupId .SIGTERM).last ≠ .ok () →
    LeftAlone (deadlineLoop K [j] (deadlineLoop K pre w).2).2 j job

/-- The jobs that are due, at any moment of a run: they are all seen to if and only if nothing fails that
one of them needs. -/
theorem seenTo_iff (h : Sound n ⟨w, due⟩) (hheld : Held w.st.monitor) :
    SeenTo K w due ↔ manageable K w.st.jobs w.st.monitor.activeJobs due w.log w.st.timeouts := by
  rw [← deadlineLoop_returns due h hheld]
  refine ⟨fun hseen => hseen.returns, fun hok => ?_⟩
  have hnodup := h.timed.due_nodup
  refine ⟨hok, ?_, ?_⟩
  · rintro pre j post rfl
    have hreturned := deadlineLoop_before pre (j :: post) hok
    have hwhole : pre ++ j :: post = (pre ++ [j]) ++ post := by simp
    have hreturned' := deadlineLoop_before (pre ++ [j]) post (hwhole ▸ hok)
    have hsound' := (deadlineLoop_partway (K := K) (pre ++ [j]) post (hwhole ▸ h) hheld).sound
      hreturned'
    have hpre : j ∉ pre := fun hmem =>
      (List.nodup_append.mp hnodup).2.2 j hmem j List.mem_cons_self rfl
    have hpost : j ∉ post := (List.nodup_cons.mp (List.nodup_append.mp hnodup).2.1).1
    constructor
    · rw [deadlineLoop_append pre hreturned, deadlineLoop_cons]
    · intro halone
      exact deadlineLoop_others (K := K) pre (j :: post) h halone hpre
    · intro halone
      have heq : deadlineLoop K (pre ++ j :: post) w =
          deadlineLoop K post (deadlineLoop K (pre ++ [j]) w).2 := by
        rw [← deadlineLoop_append (pre ++ [j]) hreturned', ← hwhole]
      rw [heq]
      exact deadlineLoop_others (K := K) post [] (by rwa [List.append_nil]) halone hpost
  · rintro pre j post job p log q rfl hjob hrunning hactive hlook hkill
    have hpre : j ∉ pre := fun hmem =>
      (List.nodup_append.mp hnodup).2.2 j hmem j List.mem_cons_self rfl
    have hpart := deadlineLoop_partway (K := K) pre (j :: post) h hheld
    exact deadlineRound_unsent (hpart.sound (deadlineLoop_before pre (j :: post) hok)) hpart.held
      ((hpart.jobs j hpre).trans hjob) hrunning ((hpart.processes j hpre).trans hactive) hlook hkill

end Daemon

/-! ## Runs -/

section Runs

open Daemon

variable {K : Kernel} {s : Setup} {w w' : World Daemon} {due : List JobId} {eventMask : EventMask}

/-- The jobs that `handleReadable` returns in a wake-up are all seen to, each as if it were alone, and
the daemon goes on, if and only if nothing fails that one of them needs at its turn. -/
theorem failedSignals_confined (hbetween : Between K s w) (hfresh : FreshFds w.log)
    (hmask : ¬ (eventMask.epollerr ∨ eventMask.epollhup))
    (hread : inTimeouts (TimeoutManager.handleReadable K) w = (.ok due, w')) :
    handleDeadlineEvent K eventMask w = deadlineLoop K due w' ∧
      (SeenTo K w' due ↔
        manageable K w'.st.jobs w'.st.monitor.activeJobs due w'.log w'.st.timeouts) := by
  constructor
  · unfold handleDeadlineEvent
    rw [if_neg hmask, bind_of_ok hread]
  · have hheld : ProcessMonitor.Held w.st.monitor := (hbetween.during.separate hfresh).held
    obtain ⟨e, hrun⟩ | ⟨now, events, hnow, hevents, ⟨e, hrun⟩ | hrun⟩ :=
      TimeoutManager.handleReadable_run K ⟨w.st.timeouts, w.log⟩
    · rw [inTimeouts_run hrun] at hread
      cases hread
    · rw [inTimeouts_run hrun] at hread
      cases hread
    · have hchores : ∀ e ∈ .called .readTimer :: .clock now ::
          (events ++ [.expired (w.st.timeouts.expireAt now).2]), choreEvent e := by
        refine List.forall_mem_cons.mpr ⟨rfl, List.forall_mem_cons.mpr ⟨rfl, ?_⟩⟩
        refine List.forall_mem_append.mpr ⟨fun e he => choreEvent_of_armingEvent (hevents e he), ?_⟩
        simp [choreEvent]
      have hexpire := Step.expire (K := K) (w := w) hnow ⟨_, rfl⟩ hchores
      rw [inTimeouts_run hrun] at hread
      obtain ⟨hdue, rfl⟩ := Prod.mk.inj hread
      obtain rfl := Except.ok.inj hdue
      exact seenTo_iff (hexpire.sound hbetween.sound) hheld

/-- A client submits two jobs with timeouts of a millisecond, and the timer expires. -/
def dueKernel (kill : List Event → Pid → Signal → Retried (Except Errno Unit)) : Kernel :=
  { Kernel.quiet with
    now := fun log => 1000000000 * rounds log
    kill }.withClient
  [[(3, { epollin := true })], [(7, { epollin := true })], [(7, { epollin := true })],
    [(6, { epollin := true })]]
  [[], submitPayload 1 [text "/a"], submitPayload 1 [text "/b"]]

/-- The moment in which the timer event is taken up, and the one in which the jobs that are due are
known. -/
def dueMoment (K : Kernel) : World Daemon := dispatching ((after K twoSlots 3).emit .woke) 6

def dueWorld (K : Kernel) : World Daemon :=
  (inTimeouts (TimeoutManager.handleReadable K) (dueMoment K)).2

/-- The first process group to be sent a signal is empty. -/
def emptiedKernel : Kernel := dueKernel fun log _ _ =>
  if log.any fun e => e matches .groupGone _ _ _ then .done (.ok ()) else .done (.error .ESRCH)

/-- `kill` is not permitted. -/
def forbiddenKernel : Kernel := dueKernel fun _ _ _ => .done (.error (.other 1))

theorem between_dueMoment (kernel : Kernel)
    (hok : ∀ i < 3, (Daemon.iterate kernel (after kernel twoSlots i)).1 = .ok ()) :
    Between kernel twoSlots (dueMoment kernel) :=
  ((reachable_after hok).between.trans (walk_woke _)).trans (walk_dispatching (Set.mem_univ _) _)

theorem handleReadable_dueMoment (kernel : Kernel) {jobs : List JobId}
    (h : (inTimeouts (TimeoutManager.handleReadable kernel) (dueMoment kernel)).1 = .ok jobs) :
    inTimeouts (TimeoutManager.handleReadable kernel) (dueMoment kernel) =
      (.ok jobs, dueWorld kernel) :=
  Prod.ext h rfl

/-- Where the group of the first job is empty, the first job runs on and the second one is sent SIGTERM.
Where `kill` is not permitted, not all are seen to. -/
theorem failedSignals_confined_run :
    SeenTo emptiedKernel (dueWorld emptiedKernel) [1, 2] ∧
      (deadlineLoop emptiedKernel [1, 2] (dueWorld emptiedKernel)).2.st.stateOf 1 = some .running ∧
      (deadlineLoop emptiedKernel [1, 2] (dueWorld emptiedKernel)).2.st.stateOf 2 =
        some .terminating ∧
      ¬ SeenTo forbiddenKernel (dueWorld forbiddenKernel) [1, 2] := by
  have hmask : ¬ (EventMask.readable.epollerr ∨ EventMask.readable.epollhup) := by decide
  -- all of a run's facts at once, so that the run is evaluated once
  obtain ⟨hok, hfresh, hexpired, hmanageable, hfirst, hsecond⟩ :
      (∀ i < 3, (Daemon.iterate emptiedKernel (after emptiedKernel twoSlots i)).1 = .ok ()) ∧
        FreshFds (dueMoment emptiedKernel).log ∧
        (inTimeouts (TimeoutManager.handleReadable emptiedKernel) (dueMoment emptiedKernel)).1 =
          .ok [1, 2] ∧
        manageable emptiedKernel (dueWorld emptiedKernel).st.jobs
          (dueWorld emptiedKernel).st.monitor.activeJobs [1, 2] (dueWorld emptiedKernel).log
          (dueWorld emptiedKernel).st.timeouts ∧
        (deadlineLoop emptiedKernel [1, 2] (dueWorld emptiedKernel)).2.st.stateOf 1 =
          some .running ∧
        (deadlineLoop emptiedKernel [1, 2] (dueWorld emptiedKernel)).2.st.stateOf 2 =
          some .terminating := by
    decide +kernel
  obtain ⟨hok', hfresh', hexpired', hunmanageable⟩ :
      (∀ i < 3, (Daemon.iterate forbiddenKernel (after forbiddenKernel twoSlots i)).1 = .ok ()) ∧
        FreshFds (dueMoment forbiddenKernel).log ∧
        (inTimeouts (TimeoutManager.handleReadable forbiddenKernel)
          (dueMoment forbiddenKernel)).1 = .ok [1, 2] ∧
        ¬ manageable forbiddenKernel (dueWorld forbiddenKernel).st.jobs
          (dueWorld forbiddenKernel).st.monitor.activeJobs [1, 2] (dueWorld forbiddenKernel).log
          (dueWorld forbiddenKernel).st.timeouts := by
    decide +kernel
  have hseen := (failedSignals_confined (between_dueMoment emptiedKernel hok) hfresh hmask
    (handleReadable_dueMoment emptiedKernel hexpired)).2
  have hunseen := (failedSignals_confined (between_dueMoment forbiddenKernel hok') hfresh' hmask
    (handleReadable_dueMoment forbiddenKernel hexpired')).2
  exact ⟨hseen.mpr hmanageable, hfirst, hsecond, fun h => hunmanageable (hunseen.mp h)⟩

/-- Both jobs were due; `kill` failed for the first; the second runs on without a deadline, and the
main loop has ended. -/
theorem deadlineLoop_abandons : Reachable forbiddenKernel twoSlots (after forbiddenKernel twoSlots 3) ∧
    (Daemon.iterate forbiddenKernel (after forbiddenKernel twoSlots 3)).1 ≠ .ok () ∧
    .expired [1, 2] ∈ (after forbiddenKernel twoSlots 4).log ∧
    (after forbiddenKernel twoSlots 4).st.stateOf 2 = some .running ∧
    (after forbiddenKernel twoSlots 4).st.timeouts.activeGenerations.find 2 = none ∧
    (ledger (after forbiddenKernel twoSlots 4).log).signals 2 = [] :=
  ⟨reachable_after (by decide +kernel), by decide +kernel⟩

end Runs

end Runnerd
