import Runnerd.Library.Trace
import Runnerd.MonitorSteps

/-!
# The ledger of a history

What a history says of the jobs, read off its events alone: the state each job last entered, the
child and the process group a start gave it, the descriptors of its pipes, what was read from each
pipe and whether its end was reached, the exit status handed to the job, the causes and the signals.

The theorems about runs are stated in these terms. The monitor's own records are compared with them.
-/

namespace Runnerd

open Function Effect Effect.Prog Steps Trace

/-- What a history says of the jobs. -/
structure Ledger where
  /-- The state a job last entered. -/
  state : JobId → Option JobState := fun _ => none
  /-- The process, and so the process group, of a job's last start. -/
  group : JobId → Option Pid := fun _ => none
  /-- The job whose child this is, as long as the child is not waited for. -/
  child : Pid → Option JobId := fun _ => none
  /-- The job and the pipe that this open descriptor belongs to. -/
  owner : Fd → Option TrackedFd := fun _ => none
  /-- What was read from a job's pipe. -/
  stream : JobId → ProcessFdKind → Bytes := fun _ _ => []
  /-- Whether the end of a job's pipe was reached. -/
  ended : JobId → ProcessFdKind → Bool := fun _ _ => false
  /-- The exit status handed to a job. -/
  status : JobId → Option WaitStatus := fun _ => none
  cause : JobId → Option TerminationCause := fun _ => none
  /-- The signals delivered for a job, oldest first. -/
  signals : JobId → List Signal := fun _ => []

namespace Ledger

/-- A chunk is read from a descriptor. -/
def hear (l : Ledger) (fd : Fd) (bytes : Bytes) : JobId → ProcessFdKind → Bytes :=
  match l.owner fd with
  | none => l.stream
  | some ⟨j, kind⟩ => update l.stream j (update (l.stream j) kind (l.stream j kind ++ bytes))

/-- The end of a descriptor is reached. -/
def finish (l : Ledger) (fd : Fd) : JobId → ProcessFdKind → Bool :=
  match l.owner fd with
  | none => l.ended
  | some ⟨j, kind⟩ => update l.ended j (update (l.ended j) kind true)

/-- One event. -/
def step (l : Ledger) : Event → Ledger
  | .submitted j => { l with state := update l.state j (some .queued) }
  | .entered j s => { l with state := update l.state j (some s) }
  | .forked pid | .reaped pid _ => { l with child := update l.child pid none }
  | .adopted j pid stdoutFd stderrFd startupErrorFd =>
    { l with
      group := update l.group j (some pid)
      child := update l.child pid (some j)
      owner := update (update (update l.owner stdoutFd (some ⟨j, .stdout⟩))
        stderrFd (some ⟨j, .stderr⟩)) startupErrorFd (some ⟨j, .startupError⟩) }
  | .closed fd => { l with owner := update l.owner fd none }
  | .received fd bytes => { l with stream := l.hear fd bytes }
  | .reachedEof fd => { l with ended := l.finish fd }
  | .recorded j status => { l with status := update l.status j (some status) }
  | .blamed j cause => { l with cause := update l.cause j (some cause) }
  | .signalled j _ signal => { l with signals := update l.signals j (l.signals j ++ [signal]) }
  | _ => l

end Ledger

/-- The ledger of a history. -/
def ledger (log : List Event) : Ledger := log.foldl Ledger.step {}

theorem ledger_append (log events : List Event) :
    ledger (log ++ events) = events.foldl Ledger.step (ledger log) := List.foldl_append

theorem ledger_concat (log : List Event) (e : Event) :
    ledger (log ++ [e]) = (ledger log).step e := ledger_append log [e]

/-! ## Launches -/

/-- The events of a launch. -/
def Event.isLaunch : Event → Bool
  | .called _ | .registered _ _ | .unregistered _ | .opened _ | .closed _ | .forked _
  | .killSent _ _ | .reaped _ _ | .waitFailed _ => true
  | _ => false

theorem Holdings.isLaunch_of_step {h h' : Holdings} {e : Event} (hstep : h.step e = some h') :
    e.isLaunch := by
  cases e <;> first | rfl | cases hstep

/-- The second part of a launch. -/
theorem Holdings.run_rest {h₀ h h' : Holdings} {events rest : List Event}
    (hrun : h₀.run events = some h) (hrun' : h₀.run (events ++ rest) = some h') :
    h.run rest = some h' := by
  unfold Holdings.run at hrun hrun' ⊢
  rw [List.foldlM_append, hrun] at hrun'
  exact hrun'

theorem Holdings.isLaunch_of_run {h h' : Holdings} {events : List Event}
    (hrun : h.run events = some h') : ∀ e ∈ events, e.isLaunch := by
  induction events generalizing h with
  | nil => exact List.forall_mem_nil _
  | cons e events ih =>
    obtain ⟨h₁, hstep, hrest⟩ := Holdings.run_cons hrun
    exact List.forall_mem_cons.mpr ⟨Holdings.isLaunch_of_step hstep, ih hrest⟩

/-- A launch gets a child by forking it. -/
theorem Holdings.children_of_step {h h' : Holdings} {e : Event} (hstep : h.step e = some h')
    {pid : Pid} (hpid : pid ∈ h'.children) : pid ∈ h.children ∨ e = .forked pid := by
  unfold Holdings.step at hstep
  split at hstep
  iterate 4
    · obtain rfl := Option.some.inj hstep
      exact Or.inl hpid
  · split_ifs at hstep
    obtain rfl := Option.some.inj hstep
    exact Or.inl hpid
  · obtain rfl := Option.some.inj hstep
    obtain rfl | hpid := List.mem_cons.mp hpid
    · exact Or.inr rfl
    · exact Or.inl hpid
  · split_ifs at hstep
    obtain rfl := Option.some.inj hstep
    exact Or.inl hpid
  · split_ifs at hstep
    obtain rfl := Option.some.inj hstep
    exact Or.inl (List.mem_of_mem_erase hpid)
  · split_ifs at hstep
    obtain rfl := Option.some.inj hstep
    exact Or.inl (List.mem_of_mem_erase hpid)
  · cases hstep

/-- A launch waits for its own children. -/
theorem Holdings.mem_of_reaped {h h' : Holdings} {pid : Pid} {status : WaitStatus}
    (hstep : h.step (.reaped pid status) = some h') : pid ∈ h.children := by
  simp only [Holdings.step] at hstep
  split_ifs at hstep with hmem
  exact hmem.1

/-- What a ledger keeps across the events of a launch. -/
structure Ledger.Keeps (l l' : Ledger) : Prop where
  state : l'.state = l.state
  group : l'.group = l.group
  stream : l'.stream = l.stream
  ended : l'.ended = l.ended
  status : l'.status = l.status
  cause : l'.cause = l.cause
  signals : l'.signals = l.signals
  child : ∀ {pid j}, l'.child pid = some j → l.child pid = some j
  owner : ∀ {fd t}, l'.owner fd = some t → l.owner fd = some t

theorem Ledger.Keeps.refl (l : Ledger) : Keeps l l :=
  ⟨rfl, rfl, rfl, rfl, rfl, rfl, rfl, id, id⟩

theorem Ledger.Keeps.trans {l l' l'' : Ledger} (h : Keeps l l') (h' : Keeps l' l'') :
    Keeps l l'' where
  state := h'.state.trans h.state
  group := h'.group.trans h.group
  stream := h'.stream.trans h.stream
  ended := h'.ended.trans h.ended
  status := h'.status.trans h.status
  cause := h'.cause.trans h.cause
  signals := h'.signals.trans h.signals
  child hc := h.child (h'.child hc)
  owner ho := h.owner (h'.owner ho)

theorem update_none_eq_some {α β : Type} [DecidableEq α] {f : α → Option β} {a a' : α} {b : β}
    (h : update f a none a' = some b) : f a' = some b := by
  by_cases heq : a' = a
  · subst heq
    rw [update_self] at h
    cases h
  · rwa [update_of_ne heq] at h

theorem Ledger.keeps_step (l : Ledger) {e : Event} (he : e.isLaunch) : Keeps l (l.step e) := by
  cases e with
  | called | registered | unregistered | opened | killSent | waitFailed => exact Keeps.refl l
  | closed fd => exact { Keeps.refl l with owner := update_none_eq_some }
  | forked pid => exact { Keeps.refl l with child := update_none_eq_some }
  | reaped pid status => exact { Keeps.refl l with child := update_none_eq_some }
  | _ => cases he

theorem ledger_launch {events : List Event} (h : ∀ e ∈ events, e.isLaunch) (log : List Event) :
    Ledger.Keeps (ledger log) (ledger (log ++ events)) := by
  induction events generalizing log with
  | nil => simpa using Ledger.Keeps.refl (ledger log)
  | cons e events ih =>
    obtain ⟨he, hrest⟩ := List.forall_mem_cons.mp h
    have htail := ih hrest (log ++ [e])
    rw [List.append_assoc, List.singleton_append] at htail
    rw [ledger_concat] at htail
    exact ((ledger log).keeps_step he).trans htail

/-! ## Descriptors -/

/-- The descriptor that a call returned. -/
def openedFd : Event → Option Fd
  | .opened fd => some fd
  | _ => none

/-- A descriptor that is returned is not open. -/
def Fresh (before : List Event) (e : Event) (_after : List Event) : Prop :=
  ∀ fd ∈ openedFd e, fd ∉ openFds before

/-- No call returns a descriptor that is open. -/
def FreshFds (log : List Event) : Prop := Throughout Fresh [] log

instance (log : List Event) : Decidable (FreshFds log) :=
  inferInstanceAs (Decidable (Throughout (fun before e _ => ∀ fd ∈ openedFd e, fd ∉ openFds before)
    [] log))

theorem FreshFds.left {log events : List Event} (h : FreshFds (log ++ events)) : FreshFds log :=
  Throughout.left (fun _ _ _ _ h => h) h

theorem FreshFds.before {log log' : List Event} (h : FreshFds log') (hbegins : log <+: log') :
    FreshFds log := by
  obtain ⟨events, rfl⟩ := hbegins
  exact h.left

theorem FreshFds.right {log events : List Event} (h : FreshFds (log ++ events)) :
    Throughout Fresh log events := by simpa using Throughout.right h

theorem mem_openFds_concat (log : List Event) (e : Event) (fd : Fd) :
    fd ∈ openFds (log ++ [e]) ↔ openedFd e = some fd ∨ fd ∈ openFds log ∧ e ≠ .closed fd := by
  unfold openFds
  rw [List.foldl_append]
  cases e with
  | opened fd' => simp [openedFd, @eq_comm _ fd]
  | closed fd' => simp [openedFd, @eq_comm _ fd]
  | _ => simp [openedFd]

/-- What a launch holds besides what was open before it, and who owned that. -/
structure Holdings.Above (h : Holdings) (log₀ log : List Event) : Prop where
  nodup : h.fds.Nodup
  open_iff : ∀ fd, fd ∈ openFds log ↔ fd ∈ openFds log₀ ∨ fd ∈ h.fds
  disjoint : ∀ fd ∈ h.fds, fd ∉ openFds log₀
  owner : ∀ fd ∈ openFds log₀, (ledger log).owner fd = (ledger log₀).owner fd

theorem Holdings.above_start (log : List Event) : Above {} log log where
  nodup := List.nodup_nil
  open_iff fd := by simp
  disjoint fd hfd := by cases hfd
  owner _ _ := rfl

/-- An event that neither opens nor closes anything. -/
theorem Holdings.Above.skip {h : Holdings} {log₀ log : List Event} (hh : Above h log₀ log) {e : Event}
    (hopened : openedFd e = none) (hclosed : ∀ fd, e ≠ .closed fd)
    (howner : ∀ fd ∈ openFds log₀, ((ledger log).step e).owner fd = (ledger log).owner fd) :
    Above h log₀ (log ++ [e]) where
  nodup := hh.nodup
  open_iff fd := by
    rw [mem_openFds_concat, hopened, ← hh.open_iff]
    simp [hclosed fd]
  disjoint := hh.disjoint
  owner fd hfd := by rw [ledger_concat, howner fd hfd, hh.owner fd hfd]

theorem Holdings.Above.step {h h' : Holdings} {log₀ log : List Event} (hh : Above h log₀ log)
    {e : Event} (hstep : h.step e = some h') (hfresh : ∀ fd ∈ openedFd e, fd ∉ openFds log) :
    Above h' log₀ (log ++ [e]) := by
  unfold Holdings.step at hstep
  split at hstep
  · obtain rfl := Option.some.inj hstep
    exact hh.skip rfl (fun _ => by simp) fun _ _ => rfl
  · obtain rfl := Option.some.inj hstep
    exact hh.skip rfl (fun _ => by simp) fun _ _ => rfl
  · obtain rfl := Option.some.inj hstep
    exact hh.skip rfl (fun _ => by simp) fun _ _ => rfl
  · rename_i fd
    obtain rfl := Option.some.inj hstep
    have hnew : fd ∉ openFds log := hfresh fd rfl
    rw [hh.open_iff, not_or] at hnew
    refine ⟨List.nodup_cons.mpr ⟨hnew.2, hh.nodup⟩, fun fd' => ?_, ?_, fun fd' hfd' => ?_⟩
    · rw [mem_openFds_concat, hh.open_iff]
      simp only [openedFd, Option.some.injEq, List.mem_cons, ne_eq, reduceCtorEq,
        not_false_eq_true, and_true]
      tauto
    · exact List.forall_mem_cons.mpr ⟨hnew.1, hh.disjoint⟩
    · rw [ledger_concat]
      exact hh.owner fd' hfd'
  · rename_i fd
    split_ifs at hstep with hmem
    obtain rfl := Option.some.inj hstep
    refine ⟨hh.nodup.erase fd, fun fd' => ?_, fun fd' hfd' => ?_, fun fd' hfd' => ?_⟩
    · rw [mem_openFds_concat, hh.open_iff, hh.nodup.mem_erase_iff]
      have hdisjoint := hh.disjoint fd hmem
      simp only [openedFd, reduceCtorEq, false_or, ne_eq, Event.closed.injEq]
      constructor
      · rintro ⟨hfd | hfd, hne⟩
        · exact Or.inl hfd
        · exact Or.inr ⟨Ne.symm hne, hfd⟩
      · rintro (hfd | ⟨hne, hfd⟩)
        · exact ⟨Or.inl hfd, fun heq => hdisjoint (heq ▸ hfd)⟩
        · exact ⟨Or.inr hfd, Ne.symm hne⟩
    · exact hh.disjoint fd' (List.mem_of_mem_erase hfd')
    · rw [ledger_concat]
      show update (ledger log).owner fd none fd' = _
      rw [update_of_ne, hh.owner fd' hfd']
      rintro rfl
      exact hh.disjoint fd' hmem hfd'
  · obtain rfl := Option.some.inj hstep
    exact { hh.skip rfl (fun _ => by simp) fun _ _ => rfl with }
  · split_ifs at hstep
    obtain rfl := Option.some.inj hstep
    exact { hh.skip rfl (fun _ => by simp) fun _ _ => rfl with }
  · split_ifs at hstep
    obtain rfl := Option.some.inj hstep
    exact { hh.skip rfl (fun _ => by simp) fun _ _ => rfl with }
  · split_ifs at hstep
    obtain rfl := Option.some.inj hstep
    exact { hh.skip rfl (fun _ => by simp) fun _ _ => rfl with }
  · cases hstep

/-- A launch closes nothing but what it opened. -/
theorem Holdings.Above.run {h h' : Holdings} {log₀ log events : List Event} (hh : Above h log₀ log)
    (hrun : h.run events = some h') (hfresh : Throughout Fresh log events) :
    Above h' log₀ (log ++ events) := by
  induction events generalizing h log with
  | nil =>
    obtain rfl := Option.some.inj hrun
    rwa [List.append_nil]
  | cons e events ih =>
    obtain ⟨h₁, hstep, hrest⟩ := Holdings.run_cons hrun
    obtain ⟨hhead, htail⟩ := throughout_cons.mp hfresh
    have := ih (hh.step hstep hhead) hrest htail
    rwa [List.append_assoc] at this

/-- What a ledger keeps where neither jobs nor processes change. -/
structure Ledger.SameJobs (l l' : Ledger) : Prop where
  state : l'.state = l.state
  group : l'.group = l.group
  status : l'.status = l.status
  cause : l'.cause = l.cause
  child : ∀ {pid j}, l'.child pid = some j → l.child pid = some j

/-! ## What the monitor knows of the ledger -/

namespace ProcessMonitor

/-- The monitor's records of the jobs agree with the ledger. -/
structure Recorded (w : World ProcessMonitor) : Prop where
  state : ∀ j, (ledger w.log).state j = (w.st.jobs.find j).map Job.state
  cause : ∀ j, (ledger w.log).cause j = (w.st.jobs.find j).bind Job.terminationCause
  group : ∀ {j p}, w.st.activeJobs.find j = some p → (ledger w.log).group j = some p.pid
  child : ∀ {pid j s}, (ledger w.log).child pid = some j → (ledger w.log).state j = some s →
    s.isActive → ∃ p, w.st.activeJobs.find j = some p ∧ p.pid = pid
  status : ∀ {j p}, w.st.activeJobs.find j = some p →
    (ledger w.log).status j = if p.childExited then some p.waitStatus else none
  /-- A job that is not started has neither status nor child. -/
  fresh : ∀ {j}, (ledger w.log).state j = none ∨ (ledger w.log).state j = some .queued →
    (ledger w.log).status j = none ∧ ∀ pid, (ledger w.log).child pid ≠ some j

theorem recorded_initial (fd : Fd) : Recorded ⟨{ sigchldFd := fd }, []⟩ where
  state _ := rfl
  cause _ := rfl
  group h := by simp at h
  child h := by cases h
  status h := by simp at h
  fresh _ := ⟨rfl, fun _ h => by cases h⟩

section Recorded

variable {K : Kernel} {w w' : World ProcessMonitor} {l : Label} {j : JobId} {job job' : Job}

/-- The record of a job that enters a state. -/
theorem Recorded.state_set (h : Recorded w) {s : JobState} (hs : job'.state = s) (k : JobId) :
    update (ledger w.log).state j (some s) k =
      ((w.st.jobs.set j job').find k).map Job.state := by
  by_cases hk : k = j
  · subst hk
    rw [update_self, Table.find_set_self, Option.map_some, hs]
  · rw [update_of_ne hk, Table.find_set_of_ne _ _ hk]
    exact h.state k

/-- The record of a job that keeps its cause. -/
theorem Recorded.cause_set (h : Recorded w) (hjob : w.st.jobs.find j = some job)
    (hcause : job'.terminationCause = job.terminationCause) (k : JobId) :
    (ledger w.log).cause k = ((w.st.jobs.set j job').find k).bind Job.terminationCause := by
  rw [h.cause k, Table.find_set]
  split_ifs with hk
  · subst hk
    rw [hjob]
    exact hcause.symm
  · rfl

/-- Neither jobs nor processes change. -/
theorem Recorded.keep (h : Recorded w) {st : ProcessMonitor} {log : List Event}
    (hl : Ledger.SameJobs (ledger w.log) (ledger log)) (hjobs : st.jobs = w.st.jobs)
    (hactives : st.activeJobs = w.st.activeJobs) : Recorded ⟨st, log⟩ where
  state k := by rw [hl.state, h.state, hjobs]
  cause k := by rw [hl.cause, h.cause, hjobs]
  group hq := by
    rw [hl.group]
    exact h.group (hactives ▸ hq)
  child hc hs hact := by
    simp only [hactives]
    rw [hl.state] at hs
    exact h.child (hl.child hc) hs hact
  status hq := by
    rw [hl.status]
    exact h.status (hactives ▸ hq)
  fresh hk := by
    rw [hl.state] at hk
    rw [hl.status]
    obtain ⟨hstatus, hchild⟩ := h.fresh hk
    exact ⟨hstatus, fun pid hc => hchild pid (hl.child hc)⟩

/-- An active job's process changes but for its child and its status. -/
theorem Recorded.setProcess (h : Recorded w) {p : ActiveProcess}
    (hactive : w.st.activeJobs.find j = some p) (p' : ActiveProcess) (hpid : p'.pid = p.pid)
    (hexited : p'.childExited = p.childExited) (hstatus : p'.waitStatus = p.waitStatus)
    (tracked : Table Fd TrackedFd) : Recorded
      ⟨{ w.st with activeJobs := w.st.activeJobs.set j p', trackedFds := tracked }, w.log⟩ where
  state := h.state
  cause := h.cause
  group {k q} hq := by
    simp only [Table.find_set] at hq
    split_ifs at hq with hk
    · obtain rfl := Option.some.inj hq
      rw [hk, hpid, h.group hactive]
    · exact h.group hq
  child {pid k s} hc hs hact := by
    obtain ⟨q, hq, hqpid⟩ := h.child hc hs hact
    simp only [Table.find_set]
    split_ifs with hk
    · subst hk
      rw [hactive] at hq
      obtain rfl := Option.some.inj hq
      exact ⟨p', rfl, hpid.trans hqpid⟩
    · exact ⟨q, hq, hqpid⟩
  status {k q} hq := by
    simp only [Table.find_set] at hq
    split_ifs at hq with hk
    · obtain rfl := Option.some.inj hq
      rw [hk, hexited, hstatus, h.status hactive]
    · exact h.status hq
  fresh := h.fresh

/-- A job enters a state, and no process changes. -/
theorem Recorded.setJob (h : Recorded w) {st : ProcessMonitor} {log : List Event}
    (hjobs : st.jobs = w.st.jobs.set j job') (hactives : st.activeJobs = w.st.activeJobs)
    (hstate : (ledger log).state = update (ledger w.log).state j (some job'.state))
    (hcause : ∀ k, (ledger log).cause k = (st.jobs.find k).bind Job.terminationCause)
    (hgroup : ∀ {k p}, w.st.activeJobs.find k = some p →
      (ledger log).group k = (ledger w.log).group k)
    (hchild : ∀ {pid k}, (ledger log).child pid = some k →
      (ledger w.log).child pid = some k ∨ k = j ∧ isTerminal job'.state)
    (hstatus : (ledger log).status = (ledger w.log).status)
    (hactive : job'.state.isActive → ∃ s, (ledger w.log).state j = some s ∧ s.isActive)
    (hqueued : job'.state = .queued → (ledger w.log).state j = none) :
    Recorded ⟨st, log⟩ where
  state k := by
    rw [hstate, hjobs]
    exact h.state_set rfl k
  cause := hcause
  group hq := by
    simp only [hactives] at hq
    rw [hgroup hq]
    exact h.group hq
  child {pid k s} hc hs hact := by
    simp only [hactives]
    rw [hstate] at hs
    by_cases hk : k = j
    · subst hk
      rw [update_self] at hs
      obtain rfl := Option.some.inj hs
      obtain ⟨s, hs, hact'⟩ := hactive hact
      refine h.child ((hchild hc).resolve_right fun hterm => ?_) hs hact'
      rw [isActive_of_isTerminal hterm.2] at hact
      cases hact
    · rw [update_of_ne hk] at hs
      exact h.child ((hchild hc).resolve_right fun hterm => hk hterm.1) hs hact
  status hq := by
    rw [hstatus]
    exact h.status (hactives ▸ hq)
  fresh {k} hk := by
    rw [hstatus]
    rw [hstate] at hk
    by_cases hkj : k = j
    · subst hkj
      rw [update_self] at hk
      obtain hk | hk := hk
      · cases hk
      · obtain ⟨hst, hc⟩ := h.fresh (Or.inl (hqueued (Option.some.inj hk)))
        refine ⟨hst, fun pid hpid => hc pid ((hchild hpid).resolve_right fun hterm => ?_)⟩
        exact ne_of_isTerminal hterm.2 rfl (Option.some.inj hk)
    · rw [update_of_ne hkj] at hk
      obtain ⟨hst, hc⟩ := h.fresh hk
      exact ⟨hst, fun pid hpid => hc pid ((hchild hpid).resolve_right fun hterm => hkj hterm.1)⟩

/-- The ledger before a launched child is adopted. -/
theorem ledger_starting {events : List Event} (hevents : ∀ e ∈ events, e.isLaunch)
    (log : List Event) (j : JobId) :
    Ledger.Keeps (ledger log) (ledger (log ++ [.starting j] ++ events)) := by
  have h := ledger_launch hevents (log ++ [.starting j])
  rwa [ledger_concat] at h

theorem Launching.isLaunch {events : List Event} {fds : List Fd} {children : List Pid}
    (h : Launching events fds children) : ∀ e ∈ events, e.isLaunch := by
  obtain ⟨-, h, -, hrun, -⟩ := h
  exact Holdings.isLaunch_of_run hrun

theorem Step.recorded (hstep : Step K l w w') (hwf : Wf w.st) (h : Recorded w) : Recorded w' := by
  cases hstep with
  | @idle _ e he =>
    refine h.keep ?_ rfl rfl
    rw [ledger_concat]
    cases e with
    | called | groupGone => exact ⟨rfl, rfl, rfl, rfl, id⟩
    | _ => cases he
  | @receive _ fd j kind p bytes htracked hactive =>
    have hprocess := h.setProcess hactive (p.receive kind bytes) rfl rfl rfl w.st.trackedFds
    exact hprocess.keep (by rw [ledger_concat]; exact ⟨rfl, rfl, rfl, rfl, id⟩) rfl rfl
  | @finish _ fd j kind p htracked hactive =>
    have hprocess := h.setProcess hactive (p.closePipe kind) rfl rfl rfl
      (w.st.trackedFds.del fd)
    exact hprocess.keep (by rw [ledger_append]; exact ⟨rfl, rfl, rfl, rfl, id⟩) rfl rfl
  | @exited _ j p status hactive hpid =>
    have hledger := ledger_append w.log [.reaped p.pid status, .recorded j status]
    obtain ⟨job, hjob⟩ := hwf.job_of_active hactive
    have hstate := hwf.isActive hjob hactive
    constructor
    · intro k
      rw [hledger]
      exact h.state k
    · intro k
      rw [hledger]
      exact h.cause k
    · intro k q hq
      rw [hledger]
      simp only [Table.find_set] at hq
      split_ifs at hq with hk
      · obtain rfl := Option.some.inj hq
        subst hk
        have hgroup := h.group hactive
        exact hgroup
      · exact h.group hq
    · intro pid k s hc hs hact
      rw [hledger] at hc hs
      obtain ⟨q, hq, hqpid⟩ := h.child (update_none_eq_some hc) hs hact
      simp only [Table.find_set]
      split_ifs with hk
      · subst hk
        rw [hactive] at hq
        obtain rfl := Option.some.inj hq
        exact ⟨_, rfl, hqpid⟩
      · exact ⟨q, hq, hqpid⟩
    · intro k q hq
      rw [hledger]
      show update (ledger w.log).status j (some status) k = _
      simp only [Table.find_set] at hq
      split_ifs at hq with hk
      · obtain rfl := Option.some.inj hq
        rw [hk, update_self]
        rfl
      · rw [update_of_ne hk]
        exact h.status hq
    · intro k hk
      rw [hledger] at hk ⊢
      obtain ⟨hst, hc⟩ := h.fresh hk
      refine ⟨?_, fun pid hpid => hc pid (update_none_eq_some hpid)⟩
      show update (ledger w.log).status j (some status) k = none
      rw [update_of_ne, hst]
      rintro rfl
      have hk : (ledger w.log).state k = none ∨ (ledger w.log).state k = some .queued := hk
      rw [h.state, hjob] at hk
      obtain hk | hk := hk
      · cases hk
      · rw [Option.some.inj hk] at hstate
        cases hstate
  | stray hpid =>
    refine h.keep ?_ rfl rfl
    rw [ledger_concat]
    exact ⟨rfl, rfl, rfl, rfl, update_none_eq_some⟩
  | @settle _ j p job job' hactive hcomplete hjob hsettled =>
    have hsettles := settles_of_settledJob hsettled
    have hledger := ledger_append w.log [.entered j job'.state]
    constructor
    · intro k
      rw [hledger]
      exact h.state_set (by rfl) k
    · intro k
      rw [hledger]
      exact h.cause_set hjob hsettles.cause k
    · intro k q hq
      rw [hledger]
      rw [Table.find_del] at hq
      split_ifs at hq
      exact h.group hq
    · intro pid k s hc hs hact
      rw [hledger] at hc hs
      have hs : update (ledger w.log).state j (some job'.state) k = some s := hs
      have hk : k ≠ j := by
        rintro rfl
        rw [update_self] at hs
        obtain rfl := Option.some.inj hs
        rw [isActive_of_isTerminal hsettles.terminal] at hact
        cases hact
      rw [update_of_ne hk] at hs
      obtain ⟨q, hq, hqpid⟩ := h.child hc hs hact
      exact ⟨q, by rw [Table.find_del_of_ne _ hk, hq], hqpid⟩
    · intro k q hq
      rw [hledger]
      rw [Table.find_del] at hq
      split_ifs at hq
      exact h.status hq
    · intro k hk
      rw [hledger] at hk ⊢
      have hk : update (ledger w.log).state j (some job'.state) k = none ∨
          update (ledger w.log).state j (some job'.state) k = some .queued := hk
      have hkj : k ≠ j := by
        rintro rfl
        rw [update_self] at hk
        obtain hk | hk := hk
        · cases hk
        · exact ne_of_isTerminal hsettles.terminal rfl (Option.some.inj hk)
      rw [update_of_ne hkj] at hk
      exact h.fresh hk
  | @garble _ j p job hactive hcomplete hjob hsettled =>
    have hprocess := h.setProcess hactive
      (p.swapOutput job.standardOutput job.standardError) rfl rfl rfl w.st.trackedFds
    have hcause : ∀ k, (ledger w.log).cause k =
        ((w.st.jobs.set j (withOutput p job)).find k).bind Job.terminationCause :=
      h.cause_set hjob rfl
    refine { hprocess with state := fun k => ?_, cause := hcause }
    rw [h.state k, Table.find_set]
    split_ifs with hk
    · subst hk
      rw [hjob]
      rfl
    · rfl
  | lost | misstart =>
    refine h.keep ?_ rfl rfl
    rw [ledger_append]
    exact ⟨rfl, rfl, rfl, rfl, id⟩
  | misuse =>
    refine h.keep ?_ rfl rfl
    rw [ledger_concat]
    exact ⟨rfl, rfl, rfl, rfl, id⟩
  | @launchFailed _ j job events message hjob hqueued hlaunch =>
    have hkeeps := ledger_starting hlaunch.isLaunch w.log j
    have hlog : w.log ++ .starting j :: (events ++ [.entered j .failed]) =
        w.log ++ [.starting j] ++ events ++ [.entered j .failed] := by simp
    rw [hlog]
    refine h.setJob rfl rfl ?_ (fun k => ?_) ?_ ?_ ?_ (fun hact => by cases hact)
      fun hq => by cases hq
    all_goals rw [ledger_concat]
    · show update (ledger (w.log ++ [.starting j] ++ events)).state j (some .failed) = _
      rw [hkeeps.state]
    · refine Eq.trans ?_ (h.cause_set hjob (by rfl) k)
      exact congrFun hkeeps.cause k
    · exact fun _ => congrFun hkeeps.group _
    · exact fun hc => Or.inl (hkeeps.child hc)
    · exact hkeeps.status
  | @abandoned _ j job events rest tracked launched message hjob hqueued hlaunch hrest htracked =>
    have hinactive := hwf.not_active hjob (by rw [hqueued]; rfl)
    have hlaunch' := hrest.isLaunch
    have hkeeps := ledger_starting (fun e he => hlaunch' e (List.mem_append_left rest he)) w.log j
    set log1 := w.log ++ [.starting j] ++ events with hlog1
    set adopted := Event.adopted j launched.pid launched.stdoutFd launched.stderrFd
      launched.startupErrorFd with hadopted
    have hkeeps' := ledger_launch (fun e he => hlaunch' e (List.mem_append_right events he))
      (log1 ++ [adopted])
    have hlog : w.log ++ .starting j :: (events ++ adopted :: (rest ++ [.entered j .failed])) =
        log1 ++ [adopted] ++ rest ++ [.entered j .failed] := by simp [hlog1]
    rw [hlog]
    rw [ledger_concat log1] at hkeeps'
    refine h.setJob rfl rfl ?_ (fun k => ?_) ?_ ?_ ?_ (fun hact => by cases hact)
      fun hq => by cases hq
    all_goals rw [ledger_concat]
    · show update (ledger (log1 ++ [adopted] ++ rest)).state j (some .failed) = _
      rw [hkeeps'.state, show ((ledger log1).step adopted).state = (ledger log1).state from rfl,
        hkeeps.state]
    · refine Eq.trans ?_ (h.cause_set hjob (by rfl) k)
      exact (congrFun hkeeps'.cause k).trans (congrFun hkeeps.cause k)
    · intro k p hk
      have hkj : k ≠ j := by
        rintro rfl
        rw [hinactive] at hk
        cases hk
      calc (ledger (log1 ++ [adopted] ++ rest)).group k
          = update (ledger log1).group j (some launched.pid) k := congrFun hkeeps'.group k
        _ = (ledger w.log).group k := by rw [update_of_ne hkj, hkeeps.group]
    · intro pid k hc
      have hc' : update (ledger log1).child launched.pid (some j) pid = some k := hkeeps'.child hc
      by_cases hpid : pid = launched.pid
      · subst hpid
        rw [update_self] at hc'
        exact Or.inr ⟨(Option.some.inj hc').symm, rfl⟩
      · rw [update_of_ne hpid] at hc'
        exact Or.inl (hkeeps.child hc')
    · exact hkeeps'.status.trans hkeeps.status
  | @started _ j job events launched hjob hqueued hlaunch hgroup hpid hfresh hdistinct =>
    have hkeeps := ledger_starting hlaunch.isLaunch w.log j
    set log1 := w.log ++ [.starting j] ++ events with hlog1
    set after : List Event := [.adopted j launched.pid launched.stdoutFd launched.stderrFd
      launched.startupErrorFd, .registered launched.stdoutFd .readable,
      .registered launched.stderrFd .readable, .registered launched.startupErrorFd .readable,
      .entered j .running] with hafter
    have hlog : w.log ++ .starting j :: (events ++ after) = log1 ++ after := by simp [hlog1]
    have hledger := ledger_append log1 after
    have hqueued' := h.fresh (j := j) (Or.inr (by rw [h.state, hjob, Option.map_some, hqueued]))
    rw [hlog]
    constructor
    · intro k
      rw [hledger]
      show update (ledger log1).state j (some .running) k = _
      rw [hkeeps.state]
      exact h.state_set (by rfl) k
    · intro k
      rw [hledger]
      refine Eq.trans ?_ (h.cause_set hjob (by rfl) k)
      exact congrFun hkeeps.cause k
    · intro k q hq
      rw [hledger]
      show update (ledger log1).group j (some launched.pid) k = _
      rw [hkeeps.group]
      simp only [Table.find_set] at hq
      split_ifs at hq with hk
      · obtain rfl := Option.some.inj hq
        rw [hk, update_self]
        rfl
      · rw [update_of_ne hk]
        exact h.group hq
    · intro pid k s hc hs hact
      rw [hledger] at hc hs
      have hc : update (ledger log1).child launched.pid (some j) pid = some k := hc
      have hs : update (ledger log1).state j (some .running) k = some s := hs
      by_cases hk : k = j
      · subst hk
        refine ⟨_, Table.find_set_self _ _ _, ?_⟩
        by_cases hp : pid = launched.pid
        · exact hp.symm
        · -- a queued job has no child
          rw [update_of_ne hp] at hc
          exact absurd (hkeeps.child hc) (hqueued'.2 pid)
      · rw [update_of_ne hk, hkeeps.state] at hs
        have hp : pid ≠ launched.pid := by
          rintro rfl
          rw [update_self] at hc
          exact hk (Option.some.inj hc).symm
        rw [update_of_ne hp] at hc
        obtain ⟨q, hq, hqpid⟩ := h.child (hkeeps.child hc) hs hact
        exact ⟨q, by rw [Table.find_set_of_ne _ _ hk, hq], hqpid⟩
    · intro k q hq
      rw [hledger]
      show (ledger log1).status k = _
      rw [hkeeps.status]
      simp only [Table.find_set] at hq
      split_ifs at hq with hk
      · obtain rfl := Option.some.inj hq
        rw [hk]
        exact hqueued'.1
      · exact h.status hq
    · intro k hk
      rw [hledger] at hk ⊢
      have hk : update (ledger log1).state j (some .running) k = none ∨
          update (ledger log1).state j (some .running) k = some .queued := hk
      rw [hkeeps.state] at hk
      have hkj : k ≠ j := by
        rintro rfl
        rw [update_self] at hk
        obtain hk | hk := hk <;> cases hk
      rw [update_of_ne hkj] at hk
      obtain ⟨hst, hc⟩ := h.fresh hk
      refine ⟨(congrFun hkeeps.status k).trans hst, fun pid hpid => ?_⟩
      have hpid : update (ledger log1).child launched.pid (some j) pid = some k := hpid
      by_cases hp : pid = launched.pid
      · subst hp
        rw [update_self] at hpid
        exact hkj (Option.some.inj hpid).symm
      · rw [update_of_ne hp] at hpid
        exact hc pid (hkeeps.child hpid)
  | @terminate _ j p job cause hactive hjob hrunning =>
    have hledger := ledger_append w.log [.signalled j p.processGroupId .SIGTERM,
      .entered j .terminating, .blamed j cause]
    refine h.setJob rfl rfl ?_ (fun k => ?_) ?_ ?_ ?_ (fun _ => ⟨.running, ?_, rfl⟩)
      fun hq => by cases hq
    · rw [hledger]
      rfl
    · rw [hledger]
      show update (ledger w.log).cause j (some cause) k = _
      simp only [Table.find_set]
      split_ifs with hk
      · rw [hk, update_self]
        rfl
      · rw [update_of_ne hk, h.cause k]
    · rw [hledger]
      exact fun _ => rfl
    · rw [hledger]
      exact Or.inl
    · rw [hledger]
      rfl
    · rw [h.state, hjob, Option.map_some, hrunning]
  | kill hactive hjob hterminating =>
    refine h.keep ?_ rfl rfl
    rw [ledger_concat]
    exact ⟨rfl, rfl, rfl, rfl, id⟩
  | @submit _ j spec hjob =>
    have hstate : (ledger w.log).state j = none := by rw [h.state, hjob, Option.map_none]
    refine h.setJob rfl rfl ?_ (fun k => ?_) ?_ ?_ ?_ (fun hact => by cases hact) fun _ => hstate
    all_goals rw [ledger_concat]
    · rfl
    · refine (h.cause k).trans ?_
      simp only [Table.find_set]
      split_ifs with hk
      · rw [hk, hjob]
        rfl
      · rfl
    · exact fun _ => rfl
    · exact Or.inl
    · rfl
  | @dequeue _ j job hjob hqueued =>
    refine h.setJob rfl rfl ?_ (fun k => ?_) ?_ ?_ ?_ (fun hact => by cases hact)
      fun hq => by cases hq
    all_goals rw [ledger_concat]
    · rfl
    · exact h.cause_set hjob (by rfl) k
    · exact fun _ => rfl
    · exact Or.inl
    · rfl
  | @collect _ j rest hnotified => exact h.keep ⟨rfl, rfl, rfl, rfl, id⟩ rfl rfl

end Recorded

end ProcessMonitor

end Runnerd
