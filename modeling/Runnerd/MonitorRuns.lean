import Runnerd.MonitorOperations

/-!
# Runs of the process monitor

Any sequence of the monitor's operations, each of which returns or throws. An operation is one step
or a walk of steps, so what every step preserves holds after every sequence.
-/

namespace Runnerd

open Effect Effect.Prog Steps

namespace ProcessMonitor

/-! ## Operations and runs -/

/-- What the daemon does with its monitor. -/
inductive Operation where
  | submit (jobId : JobId) (spec : JobSpec)
  | cancelQueued (jobId : JobId)
  | takeNotification
  | startJob (jobId : JobId)
  | finishExitedChildBeforeSignal (jobId : JobId)
  | requestTerminate (jobId : JobId) (cause : TerminationCause)
  | forceKill (jobId : JobId)
  | handleFileDescriptorEvent (fd : Fd) (eventMask : EventMask)

namespace Operation

/-- What the daemon has checked before. -/
def Allowed (t : ProcessMonitor) : Operation → Prop
  | .submit jobId _ => t.jobs.find jobId = none
  | .cancelQueued jobId => ∃ job, t.jobs.find jobId = some job ∧ job.state = .queued
  | .takeNotification => t.terminalJobNotifications ≠ []
  | _ => True

def run (K : Kernel) : Operation → Prog ProcessMonitor Unit
  | .submit jobId spec => do
    update fun t => { t with jobs := t.jobs.set jobId { id := jobId, spec } }
    emit (.submitted jobId)
  | .cancelQueued jobId => withJob jobId (enter .cancelled)
  | .takeNotification =>
    update fun t => { t with terminalJobNotifications := t.terminalJobNotifications.tail }
  | .startJob jobId => ProcessMonitor.startJob K jobId
  | .finishExitedChildBeforeSignal jobId => do
    let _ ← ProcessMonitor.finishExitedChildBeforeSignal K jobId
  | .requestTerminate jobId cause => do
    let _ ← ProcessMonitor.requestTerminate K jobId cause
  | .forceKill jobId => do
    let _ ← ProcessMonitor.forceKill K jobId
  | .handleFileDescriptorEvent fd eventMask =>
    ProcessMonitor.handleFileDescriptorEvent K fd eventMask

end Operation

/-- The world after these operations. -/
def operations (K : Kernel) (w : World ProcessMonitor) (ops : List Operation) :
    World ProcessMonitor := ops.foldl (fun w op => (op.run K w).2) w

/-- The monitor after any operations, whether they return or throw, each of which meets `ok`. -/
inductive Operated (K : Kernel) (ok : World ProcessMonitor → World ProcessMonitor → Prop) :
    World ProcessMonitor → Prop where
  | start (sigchldFd : Fd) : Operated K ok ⟨{ sigchldFd }, []⟩
  | operate {w : World ProcessMonitor} (op : Operation) (h : Operated K ok w)
      (hallowed : op.Allowed w.st) (hok : ok w (op.run K w).2) : Operated K ok (op.run K w).2

variable {K : Kernel} {w : World ProcessMonitor}

/-- The steps that give a job a child. -/
def Label.adopts : Label → Bool
  | .abandoned _ | .started _ => true
  | _ => false

theorem watches_le_keeps : {l : Label | l.watches} ⊆ {l | l.adopts = false} := by
  intro l hl
  cases l <;> first | rfl | cases hl

theorem polls_le_keeps (j : JobId) : {l : Label | l.polls j} ⊆ {l | l.adopts = false} :=
  (polls_le_watches j).trans watches_le_keeps

/-- An operation is one step, or steps that give no job a child. -/
theorem Operation.run_spec (op : Operation) (h : Wf w.st) (hallowed : op.Allowed w.st) :
    (∃ l, Step K l w (op.run K w).2) ∨
      Walk (Step K) {l | l.adopts = false} w (op.run K w).2 := by
  cases op with
  | submit jobId spec => exact Or.inl ⟨.submit jobId, .submit hallowed⟩
  | cancelQueued jobId =>
    obtain ⟨job, hjob, hqueued⟩ := hallowed
    have hid := h.id_eq hjob
    have htrans : canTransition job.state .cancelled := by
      rw [hqueued]
      rfl
    have hrun : Operation.run K (.cancelQueued jobId) w = _ := withJob_enter hjob hid htrans
    refine Or.inl ⟨.dequeue jobId, ?_⟩
    rw [hrun]
    exact .dequeue hjob hqueued
  | takeNotification =>
    obtain ⟨jobId, rest, hnotified⟩ := List.exists_cons_of_ne_nil hallowed
    have hstep := Step.collect (K := K) hnotified
    refine Or.inl ⟨.collect, ?_⟩
    show Step K .collect w ⟨{ w.st with
      terminalJobNotifications := w.st.terminalJobNotifications.tail }, w.log⟩
    rw [hnotified]
    exact hstep
  | startJob jobId =>
    obtain ⟨e, -, hstep⟩ | ⟨-, l, -, hstep⟩ := startJob_spec (K := K) h jobId
    · exact Or.inl ⟨_, hstep⟩
    · exact Or.inl ⟨l, hstep⟩
  | finishExitedChildBeforeSignal jobId =>
    right
    show wp (Operation.run K (.finishExitedChildBeforeSignal jobId))
      (fun _ w' => Walk (Step K) {l | l.adopts = false} w w') w
    cases hactive : w.st.activeJobs.find jobId with
    | none =>
      obtain ⟨e, hrun⟩ := finishExitedChildBeforeSignal_of_none (K := K) hactive
      exact wp_of_run (bind_of_error hrun) (Walk.single rfl Step.misuse)
    | some p =>
      refine wp_bind (finishExitedChildBeforeSignal_spec h hactive) (fun _ w' hwalk => ?_)
        fun _ w' hwalk => hwalk.1.mono (polls_le_keeps jobId)
      exact wp_pure (hwalk.1.mono (polls_le_keeps jobId))
  | requestTerminate jobId cause =>
    right
    show wp (Operation.run K (.requestTerminate jobId cause))
      (fun _ w' => Walk (Step K) {l | l.adopts = false} w w') w
    by_cases hrunning : ∃ job, w.st.jobs.find jobId = some job ∧ job.state = .running
    swap
    · obtain ⟨e, hrun⟩ := requestTerminate_of_not (K := K)
        (fun job hjob hstate => hrunning ⟨job, hjob, hstate⟩) cause
      exact wp_of_run (bind_of_error hrun) (Walk.single rfl Step.misuse)
    obtain ⟨job, hjob, hrunning⟩ := hrunning
    obtain ⟨p, hactive⟩ := (h.active_iff hjob).mpr (by rw [hrunning]; rfl)
    have hlook := (looked_walk (K := K) h hactive).mono (polls_le_keeps jobId)
    have hdone : ∀ {r w'}, Requested K jobId cause (looked K jobId w) w' r →
        Walk (Step K) {l | l.adopts = false} w w' := fun hr => by
      obtain hstep | rfl | hstep := hr.idle
      · exact hlook.tail rfl hstep
      · exact hlook
      · exact hlook.tail rfl hstep
    exact wp_bind (requestTerminate_spec h hjob hrunning cause) (fun _ _ hr => wp_pure (hdone hr))
      fun _ _ hr => hdone hr
  | forceKill jobId =>
    have hspec : wp (ProcessMonitor.forceKill K jobId)
        (fun _ w' => Walk (Step K) {l | l.adopts = false} w w') w := by
      by_cases hterminating : ∃ job, w.st.jobs.find jobId = some job ∧ job.state = .terminating
      swap
      · obtain ⟨e, hrun⟩ := forceKill_of_not (K := K)
          fun job hjob hstate => hterminating ⟨job, hjob, hstate⟩
        exact wp_of_run hrun (Walk.single rfl Step.misuse)
      obtain ⟨job, hjob, hterminating⟩ := hterminating
      obtain ⟨p, hactive⟩ := (h.active_iff hjob).mpr (by rw [hterminating]; rfl)
      have hlook := (looked_walk (K := K) h hactive).mono (polls_le_keeps jobId)
      refine wp_mono (forceKill_spec h hjob hterminating) fun _ w' hw' => ?_
      obtain hstep | rfl | hstep := hw'
      · exact hlook.tail rfl hstep
      · exact hlook
      · exact hlook.tail rfl hstep
    right
    show wp (Operation.run K (.forceKill jobId))
      (fun _ w' => Walk (Step K) {l | l.adopts = false} w w') w
    exact wp_bind hspec (fun _ _ hwalk => wp_pure hwalk) fun _ _ hwalk => hwalk
  | handleFileDescriptorEvent fd eventMask =>
    have hspec := handleFileDescriptorEvent_spec (K := K) h fd eventMask
    exact Or.inr (Walk.mono watches_le_keeps hspec)

/-- What every step keeps, in an operation that meets `ok`, holds after every run. -/
theorem Operated.invariant {ok : World ProcessMonitor → World ProcessMonitor → Prop}
    {P : World ProcessMonitor → Prop} (hstart : ∀ sigchldFd : Fd, P ⟨{ sigchldFd }, []⟩)
    (hstep : ∀ l w w', Wf w.st → Step K l w w' → (l.adopts → ok w w') → P w → P w')
    (h : Operated K ok w) : Wf w.st ∧ P w := by
  induction h with
  | start sigchldFd => exact ⟨wf_initial sigchldFd, hstart sigchldFd⟩
  | @operate w op h hallowed hok ih =>
    obtain ⟨hwf, hP⟩ := ih
    obtain ⟨l, hl⟩ | hwalk := op.run_spec (K := K) hwf hallowed
    · exact ⟨hl.wf hwf, hstep l _ _ hwf hl (fun _ => hok) hP⟩
    · refine hwalk.invariant (P := fun w => Wf w.st ∧ P w) ?_ ⟨hwf, hP⟩
      rintro l hl a b hab ⟨hwf, hP⟩
      refine ⟨hab.wf hwf, hstep l a b hwf hab (fun ha => ?_) hP⟩
      rw [show l.adopts = false from hl] at ha
      cases ha

end ProcessMonitor

end Runnerd
