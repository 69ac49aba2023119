import Runnerd.JobRecords
import Runnerd.PidRouting

/-!
# The modules agree

No exception that guards the agreement of two modules is ever thrown. `Sound` rules out all but one
of them; the last is about a child that somebody else has waited for. An active job whose exit has
not been recorded has a child that nobody has waited for, as long as no two jobs share a pid.
-/

namespace Runnerd

open Effect Effect.Prog Steps Trace

namespace ProcessMonitor

variable {K : Kernel} {w w' : World ProcessMonitor} {l : Label} {j : JobId} {p : ActiveProcess}

/-! ## What the kernel promises -/

/-- The children that were forked and not waited for. -/
def unwaited : List Event → List Pid :=
  List.foldl (fun pids e =>
    match e with
    | .forked pid => pid :: pids
    | .reaped pid _ => pids.erase pid
    | _ => pids) []

/-- Nobody else waits for the daemon's children: `waitpid` knows each of them until it has reported
its end. -/
def ReapsAlone (K : Kernel) : Prop :=
  ∀ log pid, pid ∈ unwaited log → (K.waitpid log pid).last ≠ .failed .ECHILD

/-- The pids of the jobs that run or terminate. -/
def activePids (log : List Event) : List Pid :=
  log.filterMap fun e =>
    match e with
    | .adopted j pid _ _ _ => if ((ledger log).state j).any JobState.isActive then some pid else none
    | _ => none

/-- `fork` never returns the pid of a job that runs or terminates. -/
def ForksAside (log : List Event) : Prop :=
  Throughout (fun before e _ => ∀ pid ∈ forkedPid e, pid ∉ activePids before) [] log

instance (log : List Event) : Decidable (ForksAside log) :=
  inferInstanceAs (Decidable (Throughout _ [] log))

theorem ForksAside.left (log events : List Event) (h : ForksAside (log ++ events)) :
    ForksAside log := Throughout.left (fun _ _ _ _ h => h) h

/-! ## Children -/

theorem unwaited_concat (log : List Event) (e : Event) : unwaited (log ++ [e]) =
    match e with
    | .forked pid => pid :: unwaited log
    | .reaped pid _ => (unwaited log).erase pid
    | _ => unwaited log := by
  unfold unwaited
  rw [List.foldl_append]
  rfl

theorem unwaited_append {events : List Event} (hforked : ∀ e ∈ events, forkedPid e = none)
    (hreaped : ∀ pid status, .reaped pid status ∉ events) (log : List Event) :
    unwaited (log ++ events) = unwaited log := by
  induction events generalizing log with
  | nil => rw [List.append_nil]
  | cons e events ih =>
    obtain ⟨he, hrest⟩ := List.forall_mem_cons.mp hforked
    have htail := ih hrest (fun pid status h => hreaped pid status (List.mem_cons_of_mem _ h))
      (log ++ [e])
    rw [List.append_assoc, List.singleton_append] at htail
    rw [htail, unwaited_concat]
    cases e with
    | forked => cases he
    | reaped pid status => exact absurd List.mem_cons_self (hreaped pid status)
    | _ => rfl

theorem unwaited_congr {log log' : List Event} (h : unwaited log = unwaited log')
    (events : List Event) : unwaited (log ++ events) = unwaited (log' ++ events) := by
  unfold unwaited at h ⊢
  rw [List.foldl_append, List.foldl_append, h]

/-- A launch waits only for children of its own. -/
theorem count_unwaited_launch {log events : List Event} {h h' : Holdings}
    (hrun : h.run events = some h') (pid : Pid) {k : ℕ}
    (hcount : k + h.children.count pid ≤ (unwaited log).count pid) :
    k + h'.children.count pid ≤ (unwaited (log ++ events)).count pid := by
  induction events generalizing log h with
  | nil =>
    obtain rfl := Option.some.inj hrun
    rwa [List.append_nil]
  | cons e events ih =>
    obtain ⟨h₁, hstep, hrest⟩ := Holdings.run_cons hrun
    have htail := @ih (log ++ [e]) h₁ hrest ?_
    · rwa [List.append_assoc] at htail
    rw [unwaited_concat]
    cases e with
    | forked c =>
      obtain rfl := Option.some.inj hstep
      simp only [List.count_cons]
      omega
    | reaped c status =>
      have hmem := Holdings.mem_of_reaped hstep
      simp only [Holdings.step] at hstep
      split_ifs at hstep
      obtain rfl := Option.some.inj hstep
      simp only [List.count_erase]
      split_ifs with hpid
      · have hpos : 0 < h.children.count pid := by
          rw [← eq_of_beq hpid]
          exact List.count_pos_iff.mpr hmem
        omega
      · omega
    | waitFailed c =>
      simp only [Holdings.step] at hstep
      split_ifs at hstep
      obtain rfl := Option.some.inj hstep
      exact le_trans (Nat.add_le_add_left (List.erase_sublist.count_le pid) k) hcount
    | called | registered | unregistered | opened =>
      obtain rfl := Option.some.inj hstep
      exact hcount
    | closed | killSent =>
      simp only [Holdings.step] at hstep
      split_ifs at hstep
      obtain rfl := Option.some.inj hstep
      exact hcount
    | _ => cases hstep

/-- A launch that holds these children leaves them to be waited for, besides those before it. -/
theorem mem_unwaited_launch {log events : List Event} {fds : List Fd} {children : List Pid}
    (hlaunch : Launching events fds children) {pid : Pid}
    (hpid : pid ∈ unwaited log ∨ pid ∈ children) : pid ∈ unwaited (log ++ events) := by
  obtain ⟨-, h, -, hrun, -, rfl⟩ := hlaunch
  have hkept := @count_unwaited_launch log events _ _ hrun pid ((unwaited log).count pid) (by simp)
  refine List.count_pos_iff.mp (lt_of_lt_of_le ?_ hkept)
  obtain hpid | hpid := hpid
  · exact Nat.add_pos_left (List.count_pos_iff.mpr hpid) _
  · exact Nat.add_pos_right _ (List.count_pos_iff.mpr hpid)

/-- A launch has forked the children it holds. -/
theorem forked_of_launch {events : List Event} {h h' : Holdings} (hrun : h.run events = some h')
    {pid : Pid} (hpid : pid ∈ h'.children) : pid ∈ h.children ∨ .forked pid ∈ events := by
  induction events generalizing h with
  | nil =>
    obtain rfl := Option.some.inj hrun
    exact Or.inl hpid
  | cons e events ih =>
    obtain ⟨h₁, hstep, hrest⟩ := Holdings.run_cons hrun
    obtain hpid | hpid := ih hrest
    · obtain hpid | rfl := Holdings.children_of_step hstep hpid
      · exact Or.inl hpid
      · exact Or.inr List.mem_cons_self
    · exact Or.inr (List.mem_cons_of_mem _ hpid)

theorem Launching.forked {events : List Event} {fds : List Fd} {pid : Pid}
    (hlaunch : Launching events fds [pid]) : .forked pid ∈ events := by
  obtain ⟨-, h, -, hrun, -, hchildren⟩ := hlaunch
  have hmem : pid ∈ h.children := by simp [hchildren]
  exact (forked_of_launch hrun hmem).resolve_left List.not_mem_nil

/-- A launch kills children of its own. -/
theorem forked_of_killSent {events : List Event} {h h' : Holdings} (hrun : h.run events = some h')
    {target : KillTarget} {signal : Signal} (hmem : .killSent target signal ∈ events) :
    target.id ∈ h.children ∨ .forked target.id ∈ events := by
  induction events generalizing h with
  | nil => cases hmem
  | cons e events ih =>
    obtain ⟨h₁, hstep, hrest⟩ := Holdings.run_cons hrun
    obtain rfl | hmem := List.mem_cons.mp hmem
    · simp only [Holdings.step] at hstep
      split_ifs at hstep with hchild
      exact Or.inl hchild.1
    obtain hchild | hforked := ih hrest hmem
    · obtain hchild | rfl := Holdings.children_of_step hstep hchild
      · exact Or.inl hchild
      · exact Or.inr List.mem_cons_self
    · exact Or.inr (List.mem_cons_of_mem e hforked)

/-! ## Pids -/

theorem adopted_of_group {log : List Event} {pid : Pid} (h : (ledger log).group j = some pid) :
    ∃ a b c, .adopted j pid a b c ∈ log := by
  induction log using List.reverseRecOn with
  | nil => cases h
  | append_singleton log e ih =>
    rw [ledger_concat] at h
    have hold : (ledger log).group j = some pid → ∃ a b c, .adopted j pid a b c ∈ log ++ [e] :=
      fun h => by
        obtain ⟨a, b, c, hmem⟩ := ih h
        exact ⟨a, b, c, List.mem_append_left _ hmem⟩
    cases e with
    | adopted k pid' a b c =>
      have h : Function.update (ledger log).group k (some pid') j = some pid := h
      by_cases hj : j = k
      · subst hj
        rw [Function.update_self] at h
        obtain rfl := Option.some.inj h
        exact ⟨a, b, c, List.mem_append_right _ List.mem_cons_self⟩
      · rw [Function.update_of_ne hj] at h
        exact hold h
    | _ => exact hold h

/-- The pid of a process that a job holds, as long as the job stays as it is. -/
theorem mem_activePids_of_active (hwf : Wf w.st) (hrec : Recorded w)
    (hactive : w.st.activeJobs.find j = some p) {events : List Event}
    (hstate : (ledger (w.log ++ events)).state j = (ledger w.log).state j) :
    p.pid ∈ activePids (w.log ++ events) := by
  obtain ⟨a, b, c, hmem⟩ := adopted_of_group (hrec.group hactive)
  obtain ⟨job, hjob⟩ := hwf.job_of_active hactive
  rw [hrec.state, hjob, Option.map_some] at hstate
  refine List.mem_filterMap.mpr ⟨_, List.mem_append_left events hmem, ?_⟩
  simp [hstate, hwf.isActive hjob hactive]

/-- The pids that `fork` keeps away from are those of the processes that jobs hold. -/
theorem mem_activePids_of_held (hwf : Wf w.st) (hrec : Recorded w) {pid : Pid}
    (h : pid ∈ w.st.heldPids) {events : List Event} (hevents : ∀ e ∈ events, e.isLaunch) :
    pid ∈ activePids (w.log ++ [.starting j] ++ events) := by
  obtain ⟨k, p, hactive, rfl⟩ := mem_heldPids.mp h
  rw [List.append_assoc]
  refine mem_activePids_of_active hwf hrec hactive ?_
  rw [← List.append_assoc, (ledger_starting hevents w.log j).state]

/-- A job is never given the pid of another that runs or terminates. -/
theorem not_held_of_launch (hwf : Wf w.st) (hrec : Recorded w) {events more : List Event}
    {fds : List Fd} {pid : Pid} (hlaunch : Launching events fds [pid])
    (haside : ForksAside (w.log ++ .starting j :: (events ++ more))) : pid ∉ w.st.heldPids := by
  intro hheld
  have hevents := hlaunch.isLaunch
  obtain ⟨pre, post, rfl⟩ := List.append_of_mem hlaunch.forked
  refine haside (w.log ++ [.starting j] ++ pre) (.forked pid) (post ++ more) (by simp) pid rfl ?_
  rw [List.nil_append]
  exact mem_activePids_of_held hwf hrec hheld fun e he => hevents e (List.mem_append_left _ he)

theorem adoptedPid_of_isLaunch {e : Event} (he : e.isLaunch) : adoptedPid e = none := by
  cases e <;> first | rfl | cases he

theorem Step.noRecycledPid (hstep : Step K l w w') (hadopts : l.adopts) (hwf : Wf w.st)
    (hrec : Recorded w) (haside : ForksAside w'.log) : NoRecycledPid w w' := by
  have hlaunched : ∀ {events : List Event}, (∀ e ∈ events, e.isLaunch) →
      ∀ e ∈ events, ∀ pid ∈ adoptedPid e, pid ∉ w.st.heldPids := fun hevents e he pid hpid => by
    rw [adoptedPid_of_isLaunch (hevents e he)] at hpid
    cases hpid
  intro e he
  cases hstep with
  | @abandoned _ j job events rest tracked launched message hjob hqueued hlaunch hrest htracked =>
    have hnot := not_held_of_launch hwf hrec hlaunch haside
    have hevents := hrest.isLaunch
    rw [List.drop_left] at he
    obtain rfl | he := List.mem_cons.mp he
    · rintro pid ⟨⟩
    obtain he | he := List.mem_append.mp he
    · exact hlaunched hlaunch.isLaunch e he
    obtain rfl | he := List.mem_cons.mp he
    · rintro pid ⟨⟩
      exact hnot
    obtain he | he := List.mem_append.mp he
    · exact hlaunched (fun e he => hevents e (List.mem_append_right _ he)) e he
    · obtain rfl := List.mem_singleton.mp he
      rintro pid ⟨⟩
  | @started _ j job events launched hjob hqueued hlaunch hgroup hnone hfresh hdistinct =>
    have hnot := not_held_of_launch hwf hrec hlaunch haside
    rw [List.drop_left] at he
    obtain rfl | he := List.mem_cons.mp he
    · rintro pid ⟨⟩
    obtain he | he := List.mem_append.mp he
    · exact hlaunched hlaunch.isLaunch e he
    obtain rfl | he := List.mem_cons.mp he
    · rintro pid ⟨⟩
      exact hnot
    simp only [List.mem_cons, List.not_mem_nil, or_false] at he
    obtain rfl | rfl | rfl | rfl := he <;> rintro pid ⟨⟩
  | _ => cases hadopts

/-! ## Children of active jobs -/

/-- Nobody has waited for the child of an active job whose exit is not recorded. -/
def Waitable (activeJobs : Table JobId ActiveProcess) (log : List Event) : Prop :=
  ∀ j p, activeJobs.find j = some p → p.childExited = false → p.pid ∈ unwaited log

section Waitable

variable {activeJobs : Table JobId ActiveProcess} {log events : List Event}

/-- Nothing is waited for meanwhile but what is not an active job's. -/
theorem Waitable.mono (h : Waitable activeJobs log)
    (hkept : ∀ j p, activeJobs.find j = some p → p.pid ∈ unwaited log → p.pid ∈ unwaited events) :
    Waitable activeJobs events :=
  fun j p hactive hexited => hkept j p hactive (h j p hactive hexited)

theorem Waitable.append (h : Waitable activeJobs log)
    (hforked : ∀ e ∈ events, forkedPid e = none)
    (hreaped : ∀ pid status, .reaped pid status ∉ events) : Waitable activeJobs (log ++ events) :=
  h.mono fun _ _ _ hp => by rwa [unwaited_append hforked hreaped]

/-- A process changes, but not its pid, and it has exited or is unchanged in this too. -/
theorem Waitable.setProcess (h : Waitable activeJobs log) {p' : ActiveProcess}
    (hexited : p'.childExited = false → p'.pid ∈ unwaited log) :
    Waitable (activeJobs.set j p') log := fun k q hq hlive => by
  rw [Table.find_set] at hq
  split_ifs at hq with hk
  · obtain rfl := Option.some.inj hq
    exact hexited hlive
  · exact h k q hq hlive

theorem Waitable.del (h : Waitable activeJobs log) : Waitable (activeJobs.del j) log :=
  fun k q hq hlive => by
    rw [Table.find_del] at hq
    split_ifs at hq
    exact h k q hq hlive

end Waitable

theorem Step.waitable (hstep : Step K l w w') (hrouting : PidRouting w)
    (h : Waitable w.st.activeJobs w.log) : Waitable w'.st.activeJobs w'.log := by
  cases hstep with
  | @idle _ e he =>
    refine h.append ?_ ?_ <;> cases e <;> first | (cases he; done) | simp [forkedPid]
  | @receive _ fd j kind p bytes htracked hactive =>
    exact Waitable.append (h.setProcess (h j p hactive)) (by simp [forkedPid]) (by simp)
  | @finish _ fd j kind p htracked hactive =>
    exact Waitable.append (h.setProcess (h j p hactive)) (by simp [forkedPid]) (by simp)
  | @exited _ j p status hactive hpid =>
    intro k q hq hlive
    rw [Table.find_set] at hq
    split_ifs at hq with hk
    · obtain rfl := Option.some.inj hq
      cases hlive
    · -- no other job has this child
      have hne : q.pid ≠ p.pid := fun heq => hk (hrouting.pid_inj hq hactive heq)
      rw [List.append_cons, unwaited_concat, unwaited_concat]
      exact (List.mem_erase_of_ne hne).mpr (h k q hq hlive)
  | @stray _ pid status hstray =>
    refine h.mono fun k q hq hlive => ?_
    have hne : q.pid ≠ pid := fun heq => by
      rw [(hrouting.pid_iff pid k).mpr ⟨q, hq, heq⟩] at hstray
      cases hstray
    rw [World.emit_log, unwaited_concat]
    exact (List.mem_erase_of_ne hne).mpr hlive
  | lost hactive hexited hwait => exact h.append (by simp [forkedPid]) (by simp)
  | settle hactive hcomplete hjob hsettled =>
    exact h.del.append (by simp [forkedPid]) (by simp)
  | @garble _ j p job hactive hcomplete hjob hsettled => exact h.setProcess (h j p hactive)
  | misuse | misstart => exact h.append (by simp [forkedPid]) (by simp)
  | @launchFailed _ j job events message hjob hqueued hlaunch hmessage =>
    refine h.mono fun k q hq hlive => ?_
    rw [List.append_cons, ← List.append_assoc, unwaited_append (by simp [forkedPid]) (by simp)]
    refine mem_unwaited_launch hlaunch (Or.inl ?_)
    rwa [unwaited_append (by simp [forkedPid]) (by simp)]
  | @abandoned _ j job events rest tracked launched message hjob hqueued hlaunch hrest htracked =>
    refine h.mono fun k q hq hlive => ?_
    have hadopted : unwaited (w.log ++ [.starting j] ++ events ++ [.adopted j launched.pid
        launched.stdoutFd launched.stderrFd launched.startupErrorFd] ++ rest) =
        unwaited (w.log ++ (events ++ rest)) := by
      rw [← List.append_assoc w.log]
      refine unwaited_congr ?_ rest
      rw [unwaited_append (by simp [forkedPid]) (by simp)]
      exact unwaited_congr (unwaited_append (by simp [forkedPid]) (by simp) _) events
    have hend : ∀ log, unwaited (log ++ [.entered j .failed]) = unwaited log :=
      unwaited_append (by simp [forkedPid]) (by simp)
    have hmem := mem_unwaited_launch hrest (Or.inl hlive)
    rw [← hadopted, ← hend] at hmem
    simpa using hmem
  | @started _ j job events launched hjob hqueued hlaunch hgroup hnone hfresh hdistinct =>
    rw [List.append_cons, ← List.append_assoc]
    refine Waitable.append (Waitable.setProcess (h.mono fun k q hq hlive => ?_) fun _ => ?_)
      (by simp [forkedPid]) (by simp)
    · refine mem_unwaited_launch hlaunch (Or.inl ?_)
      rwa [unwaited_append (by simp [forkedPid]) (by simp)]
    · exact mem_unwaited_launch hlaunch (Or.inr List.mem_cons_self)
  | terminate | kill | submit | dequeue =>
    exact h.append (by simp [forkedPid]) (by simp)
  | collect => exact h

/-! ## Exceptions -/

/-- The exceptions of a piece of history. -/
def raisedIn (events : List Event) : List Exception :=
  events.filterMap fun e =>
    match e with
    | .raised e => some e
    | _ => none

theorem raisedIn_launch {events : List Event} (h : ∀ e ∈ events, e.isLaunch) :
    raisedIn events = [] := by
  refine List.filterMap_eq_nil_iff.mpr fun e he => ?_
  have := h e he
  cases e <;> first | rfl | cases this

/-- Where another module uses the monitor as it should, only a child that somebody else has waited
for makes it throw such an exception. -/
theorem Step.raised (hstep : Step K l w w') (hmisuse : l ≠ .misuse)
    (hmisstart : ∀ j, l ≠ .misstart j) (hlost : ∀ j, l ≠ .lost j) :
    raisedIn w'.log = raisedIn w.log := by
  have happend : ∀ {events : List Event}, raisedIn events = [] →
      raisedIn (w.log ++ events) = raisedIn w.log := fun hevents => by
    unfold raisedIn at hevents ⊢
    rw [List.filterMap_append, hevents, List.append_nil]
  cases hstep with
  | @idle _ e he =>
    refine happend ?_
    cases e <;> first | rfl | cases he
  | lost => exact absurd rfl (hlost _)
  | misuse => exact absurd rfl hmisuse
  | misstart => exact absurd rfl (hmisstart _)
  | @launchFailed _ j job events message hjob hqueued hlaunch hmessage =>
    have hevents := raisedIn_launch hlaunch.isLaunch
    refine happend ?_
    simp only [raisedIn, List.filterMap_cons, List.filterMap_append, List.filterMap_nil,
      List.append_nil] at hevents ⊢
    exact hevents
  | @abandoned _ j job events rest tracked launched message hjob hqueued hlaunch hrest htracked =>
    have hevents := raisedIn_launch hrest.isLaunch
    refine happend ?_
    simp only [raisedIn, List.filterMap_cons, List.filterMap_append, List.filterMap_nil,
      List.append_nil] at hevents ⊢
    exact hevents
  | @started _ j job events launched hjob hqueued hlaunch hgroup hnone hfresh hdistinct =>
    have hevents := raisedIn_launch hlaunch.isLaunch
    refine happend ?_
    simp only [raisedIn, List.filterMap_cons, List.filterMap_append, List.filterMap_nil,
      List.append_nil] at hevents ⊢
    exact hevents
  | garble | collect => rfl
  | _ => exact happend rfl

/-! ## Agreement -/

/-- What holds of the monitor as long as no two modules disagree. -/
structure Consistent (w : World ProcessMonitor) : Prop where
  routing : PidRouting w
  waitable : Waitable w.st.activeJobs w.log
  calm : raisedIn w.log = []

theorem Step.consistent (hstep : Step K l w w') (hwf : Wf w.st) (hrec : Recorded w)
    (hreaps : ReapsAlone K) (haside : ForksAside w'.log) (hmisuse : l ≠ .misuse)
    (hmisstart : ∀ j, l ≠ .misstart j) (h : Consistent w) : Consistent w' := by
  have hlost : ∀ j, l ≠ .lost j := by
    rintro j rfl
    cases hstep with
    | @lost _ _ p hactive hexited hwait => exact hreaps _ _ (h.waitable j p hactive hexited) hwait
  refine ⟨?_, hstep.waitable h.routing h.waitable, ?_⟩
  · exact hstep.pidRouting hwf hrec h.routing
      fun hadopts => hstep.noRecycledPid hadopts hwf hrec haside
  · rw [hstep.raised hmisuse hmisstart hlost, h.calm]

end ProcessMonitor

/-! ## The daemon -/

namespace Daemon

open ProcessMonitor (Wf Recorded Consistent ForksAside PidRouting ReapsAlone forkedPid raisedIn
  Routed routed_more)

variable {K : Kernel} {n : ℕ} {l : Label} {m m' : Moment}

theorem pidRouting_initial (s : Setup) : PidRouting (monitorWorld s.initial) :=
  .of_pid_iff (ProcessMonitor.wf_initial s.sigchldFd)
    (by simp [monitorWorld, Setup.initial]) (by simp [monitorWorld, Setup.initial, Routed])

theorem consistent_initial (s : Setup) : Consistent (monitorWorld s.initial) where
  routing := pidRouting_initial s
  waitable j p hactive := by simp [monitorWorld, Setup.initial] at hactive
  calm := rfl

/-- Events that say nothing of jobs and children move no pid. -/
theorem pidRouting_deskEvents {v : World ProcessMonitor} {events : List Event}
    (hevents : ∀ e ∈ events, deskEvent e) (hwf : Wf v.st) (h : PidRouting v) :
    PidRouting ⟨v.st, v.log ++ events⟩ := by
  refine .of_pid_iff hwf h.pid_iff (h.extend ?_)
  refine throughout_of_forall fun e he pre post => ?_
  have := hevents e he
  cases e <;> trivial

/-- As long as `fork` keeps away from the jobs' pids, pids stand for jobs as they should. -/
theorem Step.pidRouting (hstep : Step K l m m') (hsound : Sound n m)
    (haside : ForksAside m'.world.log) (h : PidRouting m.monitorWorld) :
    PidRouting m'.monitorWorld := by
  obtain ⟨v, events, hv, hm', hevents⟩ := hstep.monitor
  have hlog : m'.world.log = v.log ++ events := congrArg World.log hm'
  rw [hm']
  obtain rfl | ⟨l', hl', hv⟩ := hv
  · exact pidRouting_deskEvents hevents hsound.wf h
  · refine pidRouting_deskEvents hevents (hv.wf hsound.wf) ?_
    exact hv.pidRouting hsound.wf hsound.recorded h fun hadopts =>
      hv.noRecycledPid hadopts hsound.wf hsound.recorded (ForksAside.left _ events (hlog ▸ haside))

/-- Events that say nothing of jobs and children change nothing. -/
theorem consistent_deskEvents {v : World ProcessMonitor} {events : List Event}
    (hevents : ∀ e ∈ events, deskEvent e) (hwf : Wf v.st) (h : Consistent v) :
    Consistent ⟨v.st, v.log ++ events⟩ where
  routing := pidRouting_deskEvents hevents hwf h.routing
  waitable := by
    refine h.waitable.append (fun e he => ?_) fun pid status he => ?_
    · have := hevents e he
      cases e <;> first | rfl | cases this
    · cases hevents _ he
  calm := by
    have hquiet : raisedIn events = [] := by
      refine List.filterMap_eq_nil_iff.mpr fun e he => ?_
      have := hevents e he
      cases e <;> first | rfl | cases this
    have hcalm := h.calm
    unfold raisedIn at hcalm hquiet ⊢
    rw [List.filterMap_append, hcalm, hquiet, List.append_nil]

theorem Label.not_misuse {l' : ProcessMonitor.Label} (h : l.Invokes l') :
    l' ≠ .misuse ∧ ∀ j, l' ≠ .misstart j := by
  cases l with
  | watch =>
    have h : l'.watches = true := h
    refine ⟨?_, fun j => ?_⟩ <;> rintro rfl <;> cases h
  | misfire =>
    obtain rfl | rfl := h <;> exact ⟨by simp, by simp⟩
  | terminate =>
    obtain ⟨cause, rfl⟩ := h
    exact ⟨by simp, by simp⟩
  | submit | dequeue | run | release | kill =>
    obtain rfl := h
    exact ⟨by simp, by simp⟩
  | _ => cases h

theorem Step.consistent (hstep : Step K l m m') (hsound : Sound n m) (hreaps : ReapsAlone K)
    (haside : ForksAside m'.world.log) (h : Consistent m.monitorWorld) :
    Consistent m'.monitorWorld := by
  obtain ⟨v, events, hv, hm', hevents⟩ := hstep.monitor
  have hlog : m'.world.log = v.log ++ events := congrArg World.log hm'
  rw [hm']
  obtain rfl | ⟨l', hl', hv⟩ := hv
  · exact consistent_deskEvents hevents hsound.wf h
  · obtain ⟨hmisuse, hmisstart⟩ := Label.not_misuse hl'
    exact consistent_deskEvents hevents (hv.wf hsound.wf)
      (hv.consistent hsound.wf hsound.recorded hreaps (ForksAside.left _ events (hlog ▸ haside))
        hmisuse hmisstart h)

end Daemon

section Runs

open Daemon
open ProcessMonitor (Consistent ForksAside ReapsAlone raisedIn)

variable {K : Kernel} {s : Setup} {w : World Daemon}

/-- As long as nobody else waits for the daemon's children and `fork` does not return the pid of a
job that runs or terminates, no exception is ever thrown that says two modules disagree. -/
theorem neverRaised (h : Ran K s w) (hreaps : ReapsAlone K) (haside : ForksAside w.log)
    (e : Exception) : .raised e ∉ w.log := by
  intro hmem
  obtain ⟨due, hwalk⟩ := h.walk
  obtain ⟨-, hconsistent⟩ := sound_invariant_under (P := fun m => Consistent m.monitorWorld)
    ForksAside.left (fun _ _ _ hs hstep haside ih => hstep.consistent hs hreaps haside ih)
    hwalk (sound_initial s) (consistent_initial s) haside
  have hnone := List.filterMap_eq_nil_iff.mp hconsistent.calm (.raised e) hmem
  cases hnone

theorem neverRaised_run : Event.raised .outOfRange ∉ (after exitedScript oneSlot 4).log := by
  have hok : ∀ i < 3, (Daemon.iterate exitedScript (after exitedScript oneSlot i)).1 = .ok () := by
    decide +kernel
  have hran : Ran exitedScript oneSlot (after exitedScript oneSlot 4) := ran_after (m := 3) hok
  have hreaps : ReapsAlone exitedScript := fun log pid _ h => by cases h
  have haside : ForksAside (after exitedScript oneSlot 4).log := by decide +kernel
  exact neverRaised hran hreaps haside .outOfRange

end Runs

end Runnerd
