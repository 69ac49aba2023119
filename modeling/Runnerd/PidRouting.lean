import Runnerd.Ledger
import Runnerd.MonitorRuns

/-!
# Which job a pid stands for

The monitor finds the job of an exited child in `pid_to_job_`, and erases entries of that map by pid.
As long as no job is given a child whose pid another job still holds, the map is exact, so that an
exit status reaches the job whose child it was and a signal the group of the job it is meant for.

A pid may be recycled once its child has been waited for, and the job may hold on to it until its
pipes end. `startJob` then gives up the second job and erases the entry of the first.
-/

namespace Runnerd

open Effect Effect.Prog Steps Trace

namespace ProcessMonitor

variable {K : Kernel} {w w' : World ProcessMonitor} {l : Label} {j k : JobId} {p q : ActiveProcess}

/-! ## Routing -/

/-- What an event of the history must go with: an exit status reported for the child of a job that
runs or terminates is stored in that job, and a signal goes to the group of the job it is for, which
is no other such job's. -/
def Routed (before : List Event) (e : Event) (after : List Event) : Prop :=
  match e with
  | .reaped pid status => ∀ j s, (ledger before).child pid = some j →
      (ledger before).state j = some s → s.isActive → after.head? = some (.recorded j status)
  | .signalled j group _ => (ledger before).group j = some group ∧
      ∀ k s, k ≠ j → (ledger before).state k = some s → s.isActive →
        (ledger before).group k ≠ some group
  | _ => True

/-- Pids stand for jobs as they should, now and at every event so far. -/
structure PidRouting (w : World ProcessMonitor) : Prop where
  pid_iff : ∀ pid j, w.st.pidToJob.find pid = some j ↔
    ∃ p, w.st.activeJobs.find j = some p ∧ p.pid = pid
  pid_inj : ∀ {j k p q}, w.st.activeJobs.find j = some p → w.st.activeJobs.find k = some q →
    p.pid = q.pid → j = k
  group_inj : ∀ {j k p q}, w.st.activeJobs.find j = some p → w.st.activeJobs.find k = some q →
    p.processGroupId = q.processGroupId → j = k
  routed : Throughout Routed [] w.log

/-- The pids of the processes that jobs hold, their children waited for or not. -/
def heldPids (t : ProcessMonitor) : List Pid := t.activeJobs.entries.map fun entry => entry.2.pid

theorem mem_heldPids {t : ProcessMonitor} {pid : Pid} :
    pid ∈ t.heldPids ↔ ∃ j p, t.activeJobs.find j = some p ∧ p.pid = pid := by
  unfold heldPids
  rw [List.mem_map]
  constructor
  · rintro ⟨⟨j, p⟩, hmem, hpid⟩
    exact ⟨j, p, (Table.mem_entries_iff _ j p).mp hmem, hpid⟩
  · rintro ⟨j, p, hactive, hpid⟩
    exact ⟨⟨j, p⟩, (Table.mem_entries_iff _ j p).mpr hactive, hpid⟩

/-- The child that a job is given. -/
def adoptedPid : Event → Option Pid
  | .adopted _ pid _ _ _ => some pid
  | _ => none

/-- No child that is given to a job between `w` and `w'` has a pid that a job holds in `w`. -/
def NoRecycledPid (w w' : World ProcessMonitor) : Prop :=
  ∀ e ∈ w'.log.drop w.log.length, ∀ pid ∈ adoptedPid e, pid ∉ w.st.heldPids

theorem routed_more (before : List Event) (e : Event) (after more : List Event)
    (h : Routed before e after) : Routed before e (after ++ more) := by
  cases e with
  | reaped pid status =>
    intro j s hchild hstate hactive
    rw [List.head?_append, h j s hchild hstate hactive]
    rfl
  | _ => exact h

/-- The map is exact where the pids are distinct. -/
theorem PidRouting.of_pid_iff (hwf : Wf w.st)
    (hiff : ∀ pid j, w.st.pidToJob.find pid = some j ↔
      ∃ p, w.st.activeJobs.find j = some p ∧ p.pid = pid)
    (hrouted : Throughout Routed [] w.log) : PidRouting w := by
  have hinj : ∀ {j k p q}, w.st.activeJobs.find j = some p → w.st.activeJobs.find k = some q →
      p.pid = q.pid → j = k := by
    intro j k p q hj hk hpid
    have hj' := (hiff q.pid j).mpr ⟨p, hj, hpid⟩
    have hk' := (hiff q.pid k).mpr ⟨q, hk, rfl⟩
    rw [hj'] at hk'
    exact Option.some.inj hk'
  refine ⟨hiff, hinj, fun hj hk hgroup => hinj hj hk ?_, hrouted⟩
  rw [← hwf.group_eq hj, ← hwf.group_eq hk, hgroup]

section Steps

/-- Some process changes but for its pid. -/
theorem PidRouting.setProcess (h : PidRouting w) {p p' : ActiveProcess}
    (hactive : w.st.activeJobs.find j = some p) (hpid : p'.pid = p.pid) (pid : Pid) (k : JobId) :
    w.st.pidToJob.find pid = some k ↔
      ∃ q, (w.st.activeJobs.set j p').find k = some q ∧ q.pid = pid := by
  rw [h.pid_iff, Table.find_set]
  split_ifs with hk
  · subst hk
    simp [hactive, hpid]
  · rfl

/-- The piece of history that a step adds. -/
theorem PidRouting.extend (h : PidRouting w) {events : List Event}
    (hevents : Throughout Routed w.log events) : Throughout Routed [] (w.log ++ events) :=
  h.routed.append routed_more (by simpa using hevents)

/-- A launch waits only for its own child, which no running or terminating job has. -/
theorem routed_launch {log events : List Event} {h h' : Holdings} (hrun : h.run events = some h')
    (hchildren : ∀ pid ∈ h.children, ∀ k s, (ledger log).child pid = some k →
      (ledger log).state k = some s → s.isActive = false) : Throughout Routed log events := by
  induction events generalizing log h with
  | nil => exact throughout_nil
  | cons e events ih =>
    obtain ⟨h₁, hstep, hrest⟩ := Holdings.run_cons hrun
    have hkeeps := (ledger log).keeps_step (Holdings.isLaunch_of_step hstep)
    rw [← ledger_concat] at hkeeps
    have hold : ∀ pid ∈ h.children, ∀ k s, (ledger (log ++ [e])).child pid = some k →
        (ledger (log ++ [e])).state k = some s → s.isActive = false := by
      intro pid hpid k s hchild hstate
      rw [hkeeps.state] at hstate
      exact hchildren pid hpid k s (hkeeps.child hchild) hstate
    refine throughout_cons.mpr ⟨?_, ih hrest fun pid hpid => ?_⟩
    · cases e with
      | reaped pid status =>
        intro k s hchild hstate hactive
        rw [hchildren pid (Holdings.mem_of_reaped hstep) k s hchild hstate] at hactive
        cases hactive
      | signalled => cases hstep
      | _ => trivial
    · obtain hpid | rfl := Holdings.children_of_step hstep hpid
      · exact hold pid hpid
      · intro k s hchild
        rw [ledger_concat] at hchild
        have hchild : Function.update (ledger log).child pid none pid = some k := hchild
        rw [Function.update_self] at hchild
        cases hchild

/-- The group of a job's process is the job's, and no other job's. -/
theorem routed_signal (hwf : Wf w.st) (hrec : Recorded w) (h : PidRouting w)
    (hactive : w.st.activeJobs.find j = some p) (signal : Signal) (after : List Event) :
    Routed w.log (.signalled j p.processGroupId signal) after := by
  refine ⟨by rw [hrec.group hactive, hwf.group_eq hactive], fun k s hk hstate hact hgroup => hk ?_⟩
  rw [hrec.state, Option.map_eq_some_iff] at hstate
  obtain ⟨job, hjob, rfl⟩ := hstate
  obtain ⟨q, hq⟩ := (hwf.active_iff hjob).mpr hact
  rw [hrec.group hq, hwf.group_eq hactive] at hgroup
  exact h.pid_inj hq hactive (Option.some.inj hgroup)

/-- A step keeps pids standing for jobs as they should. -/
theorem Step.pidRouting (hstep : Step K l w w') (hwf : Wf w.st) (hrec : Recorded w)
    (h : PidRouting w) (hpid : l.adopts → NoRecycledPid w w') : PidRouting w' := by
  have hwf' := hstep.wf hwf
  cases hstep with
  | @idle _ e he =>
    refine .of_pid_iff hwf' h.pid_iff (h.extend (throughout_cons.mpr ⟨?_, throughout_nil⟩))
    cases e <;> trivial
  | @receive _ fd j kind p bytes htracked hactive =>
    refine .of_pid_iff hwf' (h.setProcess hactive rfl) (h.extend ?_)
    exact throughout_cons.mpr ⟨trivial, throughout_nil⟩
  | @finish _ fd j kind p htracked hactive =>
    refine .of_pid_iff hwf' (h.setProcess hactive rfl) (h.extend ?_)
    simp [Routed]
  | @exited _ j p status hactive hpid =>
    refine .of_pid_iff hwf' (h.setProcess hactive rfl) (h.extend ?_)
    refine throughout_cons.mpr ⟨fun k s hchild hstate hact => ?_,
      throughout_cons.mpr ⟨trivial, throughout_nil⟩⟩
    obtain ⟨q, hq, hqpid⟩ := hrec.child hchild hstate hact
    rw [h.pid_inj hq hactive hqpid]
    rfl
  | @stray _ pid status hstray =>
    refine .of_pid_iff hwf' h.pid_iff (h.extend (throughout_cons.mpr
      ⟨fun k s hchild hstate hact => ?_, throughout_nil⟩))
    obtain ⟨q, hq, hqpid⟩ := hrec.child hchild hstate hact
    rw [(h.pid_iff pid k).mpr ⟨q, hq, hqpid⟩] at hstray
    cases hstray
  | @settle _ j p job job' hactive hcomplete hjob hsettled =>
    refine .of_pid_iff hwf' (fun pid k => ?_) (h.extend ?_)
    · rw [Table.find_del, Table.find_del]
      by_cases hp : pid = p.pid
      · rw [if_pos hp]
        simp only [reduceCtorEq, false_iff]
        rintro ⟨q, hq, hqpid⟩
        split_ifs at hq with hk
        exact hk (h.pid_inj hq hactive (hqpid.trans hp))
      · rw [if_neg hp, h.pid_iff]
        by_cases hk : k = j
        · subst hk
          simp [hactive, Ne.symm hp]
        · rw [if_neg hk]
    · exact throughout_cons.mpr ⟨trivial, throughout_nil⟩
  | @garble _ j p job hactive hcomplete hjob hsettled =>
    exact .of_pid_iff hwf' (h.setProcess hactive rfl) h.routed
  | misuse =>
    exact .of_pid_iff hwf' h.pid_iff (h.extend (throughout_cons.mpr ⟨trivial, throughout_nil⟩))
  | lost | misstart =>
    exact .of_pid_iff hwf' h.pid_iff (h.extend (throughout_cons.mpr
      ⟨trivial, throughout_cons.mpr ⟨trivial, throughout_nil⟩⟩))
  | @launchFailed _ j job events message hjob hqueued hlaunch =>
    refine .of_pid_iff hwf' h.pid_iff (h.extend (throughout_cons.mpr ⟨trivial, ?_⟩))
    obtain ⟨std, held, hstd, hrun, -, -⟩ := hlaunch
    refine Throughout.append routed_more (routed_launch hrun (List.forall_mem_nil _)) ?_
    exact throughout_cons.mpr ⟨trivial, throughout_nil⟩
  | @abandoned _ j job events rest tracked launched message hjob hqueued hlaunch hrest htracked =>
    have hheldPids : launched.pid ∉ w.st.heldPids :=
      hpid rfl (.adopted j launched.pid launched.stdoutFd launched.stderrFd launched.startupErrorFd)
        (by simp) launched.pid rfl
    have hnone : w.st.pidToJob.find launched.pid = none := by
      rw [← Option.not_isSome_iff_eq_none, Option.isSome_iff_exists]
      rintro ⟨k, hk⟩
      obtain ⟨q, hq, hqpid⟩ := (h.pid_iff _ k).mp hk
      exact hheldPids (mem_heldPids.mpr ⟨k, q, hq, hqpid⟩)
    refine .of_pid_iff hwf' ?_ (h.extend (throughout_cons.mpr ⟨trivial, ?_⟩))
    · rw [Table.del_of_find_eq_none hnone]
      exact h.pid_iff
    obtain ⟨std, held, hstd, hrun, -, hheld⟩ := hlaunch
    obtain ⟨std', held', hstd', hrun', -, -⟩ := hrest
    have hrest := Holdings.run_rest hrun hrun'
    have hkeeps := ledger_starting (Holdings.isLaunch_of_run hrun) w.log j
    refine Throughout.append routed_more (routed_launch hrun (List.forall_mem_nil _))
      (throughout_cons.mpr ⟨trivial, Throughout.append routed_more (routed_launch hrest ?_)
        (throughout_cons.mpr ⟨trivial, throughout_nil⟩)⟩)
    -- the only child the launch still holds is the one of the job, which is not running yet
    intro pid hmem k s hchild hstate
    rw [hheld, List.mem_singleton] at hmem
    subst hmem
    rw [ledger_concat] at hchild hstate
    have hchild : Function.update (ledger (w.log ++ [.starting j] ++ events)).child launched.pid
        (some j) launched.pid = some k := hchild
    have hstate : (ledger (w.log ++ [.starting j] ++ events)).state k = some s := hstate
    rw [Function.update_self] at hchild
    obtain rfl := Option.some.inj hchild
    rw [hkeeps.state, hrec.state, hjob, Option.map_some, hqueued] at hstate
    obtain rfl := Option.some.inj hstate
    rfl
  | @started _ j job events launched hjob hqueued hlaunch hgroup hnone hfresh hdistinct =>
    have hinactive := hwf.not_active hjob (by rw [hqueued]; rfl)
    refine .of_pid_iff hwf' (fun pid k => ?_) (h.extend (throughout_cons.mpr ⟨trivial, ?_⟩))
    · rw [Table.find_set, Table.find_set]
      by_cases hp : pid = launched.pid
      · rw [if_pos hp]
        constructor
        · intro hk
          obtain rfl := Option.some.inj hk
          exact ⟨_, if_pos rfl, hp.symm⟩
        · rintro ⟨q, hq, hqpid⟩
          split_ifs at hq with hk
          · rw [hk]
          · rw [← hp, (h.pid_iff pid k).mpr ⟨q, hq, hqpid⟩] at hnone
            cases hnone
      · rw [if_neg hp, h.pid_iff]
        by_cases hk : k = j
        · subst hk
          rw [if_pos rfl, hinactive]
          simp [ActiveProcess.create, Ne.symm hp]
        · rw [if_neg hk]
    · obtain ⟨std, held, hstd, hrun, -, -⟩ := hlaunch
      refine Throughout.append routed_more (routed_launch hrun (List.forall_mem_nil _)) ?_
      simp [Routed]
  | @terminate _ j p job cause hactive hjob hrunning =>
    refine .of_pid_iff hwf' h.pid_iff (h.extend ?_)
    exact throughout_cons.mpr ⟨routed_signal hwf hrec h hactive _ _, by simp [Routed]⟩
  | kill hactive hjob hterminating =>
    refine .of_pid_iff hwf' h.pid_iff (h.extend ?_)
    exact throughout_cons.mpr ⟨routed_signal hwf hrec h hactive _ _, throughout_nil⟩
  | submit hjob =>
    exact .of_pid_iff hwf' h.pid_iff (h.extend (throughout_cons.mpr ⟨trivial, throughout_nil⟩))
  | dequeue hjob hqueued =>
    exact .of_pid_iff hwf' h.pid_iff (h.extend (throughout_cons.mpr ⟨trivial, throughout_nil⟩))
  | collect hnotified => exact .of_pid_iff hwf' h.pid_iff h.routed

end Steps

/-! ## Recycled pids -/

/-- The children of a history that nobody has waited for. -/
def liveChildren : List Event → List Pid :=
  List.foldl (fun pids e =>
    match e with
    | .forked pid => pid :: pids
    | .reaped pid _ => pids.filter (· ≠ pid)
    | _ => pids) []

/-- The child that a `fork` returned. -/
def forkedPid : Event → Option Pid
  | .forked pid => some pid
  | _ => none

/-- `fork` never returns the pid of a child that is not waited for. -/
def ForksFresh (log : List Event) : Prop :=
  Throughout (fun before e _ => ∀ pid ∈ forkedPid e, pid ∉ liveChildren before) [] log

instance (log : List Event) : Decidable (ForksFresh log) :=
  inferInstanceAs (Decidable (Throughout _ [] log))

instance (w w' : World ProcessMonitor) : Decidable (NoRecycledPid w w') :=
  inferInstanceAs (Decidable (∀ e ∈ _, _))

/-! ## Runs -/

theorem pidRouting_initial (sigchldFd : Fd) : PidRouting ⟨{ sigchldFd }, []⟩ :=
  .of_pid_iff (wf_initial sigchldFd) (by simp) throughout_nil

/-- Operations whose starts give no job a pid that is still held keep pids standing for jobs as
they should. -/
theorem Operated.pidRouting (h : Operated K NoRecycledPid w) :
    Wf w.st ∧ Recorded w ∧ PidRouting w := by
  refine h.invariant (P := fun w => Recorded w ∧ PidRouting w)
    (fun sigchldFd => ⟨recorded_initial sigchldFd, pidRouting_initial sigchldFd⟩) ?_
  rintro l a b hwf hstep hok ⟨hrec, hrouting⟩
  exact ⟨hstep.recorded hwf hrec, hstep.pidRouting hwf hrec hrouting hok⟩

/-- In every run whose starts give no job a pid that is still held, the map from pids to jobs is
exact, no two jobs share a pid or a process group, exit statuses reach the jobs whose children they
were, and signals the groups of the jobs they are meant for. -/
theorem pidRouting_of_noRecycledPid (h : Operated K NoRecycledPid w) : PidRouting w :=
  h.pidRouting.2.2

/-- A machine with one pid for children, whose first child exits at once and leaves its pipes
open. -/
def recyclingKernel : Kernel :=
  { Kernel.quiet with
    fork := fun _ => .ok 100
    waitAny := fun _ => .child 100 (.exited 0) .none }

/-- A job is started, its child exits, and another job is submitted. -/
def recycledOperations : List Operation :=
  [.submit 1 { argv := [text "/first"] }, .startJob 1, .handleFileDescriptorEvent 1000 {},
    .submit 2 { argv := [text "/second"] }]

theorem pidRouting_of_noRecycledPid_run :
    PidRouting (operations recyclingKernel ⟨{ sigchldFd := 1000 }, []⟩ recycledOperations) := by
  refine pidRouting_of_noRecycledPid (K := recyclingKernel) ?_
  refine .operate (.submit 2 _) (.operate (.handleFileDescriptorEvent 1000 {})
    (.operate (.startJob 1) (.operate (.submit 1 _) (.start 1000) ?_ ?_) ?_ ?_) ?_ ?_) ?_ ?_
  · exact rfl
  · decide +kernel
  · trivial
  · decide +kernel
  · trivial
  · decide +kernel
  · show Table.find _ 2 = none
    decide +kernel
  · decide +kernel

/-- The start of the second job, whose child gets the pid of the first, takes the first job's entry
off the map. -/
theorem pidRouting_recycled : ¬ ∀ (K : Kernel) (w : World ProcessMonitor),
    Operated K (fun _ _ => True) w → ForksFresh w.log → PidRouting w := by
  intro h
  set w := operations recyclingKernel ⟨{ sigchldFd := 1000 }, []⟩
    (recycledOperations ++ [.startJob 2]) with hw
  have hrun : Operated recyclingKernel (fun _ _ => True) w := by
    refine .operate (.startJob 2) (.operate (.submit 2 _) (.operate
      (.handleFileDescriptorEvent 1000 {}) (.operate (.startJob 1) (.operate (.submit 1 _)
        (.start 1000) ?_ ?_) ?_ ?_) ?_ ?_) ?_ ?_) ?_ ?_
    · exact rfl
    · trivial
    · trivial
    · trivial
    · trivial
    · trivial
    · show Table.find _ 2 = none
      decide +kernel
    · trivial
    · trivial
    · trivial
  have hfresh : ForksFresh w.log := by decide +kernel
  have hheld : 100 ∈ w.st.heldPids := by decide +kernel
  have hnone : w.st.pidToJob.find 100 = none := by decide +kernel
  obtain ⟨j, p, hactive, hpid⟩ := mem_heldPids.mp hheld
  rw [((h recyclingKernel w hrun hfresh).pid_iff 100 j).mpr ⟨p, hactive, hpid⟩] at hnone
  cases hnone

end ProcessMonitor

end Runnerd
