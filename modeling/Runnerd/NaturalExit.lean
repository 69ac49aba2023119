import Runnerd.KernelAnswers
import Runnerd.SignalDiscipline

/-!
# Natural exits

What a request to terminate does to a job whose child has exited already. It reads the job's pipes to
what they have got and settles the job if all have ended. If a descendant holds one open, it sends
SIGTERM to the process group all the same, and if that finds a process, the job is marked.
-/

namespace Runnerd

open Function Effect Effect.Prog Steps Trace

/-! ## Reading pipes out -/

/-- Reading these pipes one after the other: the history then, and whether all have ended; or nothing
where a reading fails. -/
def readOut (K : Kernel) (log : List Event) : List Fd → Option (List Event × Bool)
  | [] => some (log, true)
  | fd :: rest =>
    match (K.read log fd).ending with
    | .eof => readOut K (log ++ (K.read log fd).events fd) rest
    | .again => (readOut K (log ++ (K.read log fd).events fd) rest).map fun r => (r.1, false)
    | .failed => none

section Pipes

variable {K : Kernel} {p q : ActiveProcess} {log log' : List Event} {kinds : List ProcessFdKind}

/-- The pipes that are not read are left open, and the child is the same one. -/
theorem readPipes_spares (h : readPipes K kinds log p = some (log', q)) :
    q.processGroupId = p.processGroupId ∧ q.childExited = p.childExited ∧
      ∀ kind ∉ kinds, (q.pipe kind).fd = (p.pipe kind).fd := by
  induction kinds generalizing log p with
  | nil =>
    obtain ⟨rfl, rfl⟩ := Prod.mk.inj (Option.some.inj h)
    exact ⟨rfl, rfl, fun _ _ => rfl⟩
  | cons kind rest ih =>
    unfold readPipes at h
    cases hfd : (p.pipe kind).fd with
    | none =>
      rw [hfd] at h
      obtain ⟨hgroup, hexited, hfds⟩ := ih h
      exact ⟨hgroup, hexited, fun k hk => hfds k fun hmem => hk (List.mem_cons_of_mem _ hmem)⟩
    | some fd =>
      simp only [hfd] at h
      split_ifs at h
      obtain ⟨hgroup, hexited, hfds⟩ := ih h
      obtain ⟨-, hgroup', hexited', -⟩ := (K.read log fd).applied_child kind p
      refine ⟨hgroup.trans hgroup', hexited.trans hexited', fun k hk => ?_⟩
      rw [hfds k fun hmem => hk (List.mem_cons_of_mem _ hmem), Reads.applied_fd, if_neg]
      rintro ⟨rfl, -⟩
      exact hk List.mem_cons_self

/-- A pipe has ended exactly where it is closed. -/
def Closes (p : ActiveProcess) : Prop := ∀ kind, (p.pipe kind).eof ↔ (p.pipe kind).fd = none

theorem Closes.applied (h : Closes p) (kind : ProcessFdKind) (reads : Reads) :
    Closes (reads.applied kind p) := by
  induction reads generalizing p with
  | data bytes rest ih =>
    refine ih fun k => ?_
    rw [ActiveProcess.receive_eof, ActiveProcess.receive_fd]
    exact h k
  | interrupted rest ih => exact ih h
  | eof =>
    intro k
    rw [Reads.applied, ActiveProcess.closePipe_pipe]
    split_ifs
    · simp
    · exact h k
  | again => exact h
  | failed e => exact h

theorem Closes.readPipes (hp : Closes p) (h : readPipes K kinds log p = some (log', q)) :
    Closes q := by
  induction kinds generalizing log p with
  | nil =>
    obtain ⟨rfl, rfl⟩ := Prod.mk.inj (Option.some.inj h)
    exact hp
  | cons kind rest ih =>
    unfold Runnerd.readPipes at h
    cases hfd : (p.pipe kind).fd with
    | none =>
      rw [hfd] at h
      exact ih hp h
    | some fd =>
      simp only [hfd] at h
      split_ifs at h
      exact ih (hp.applied kind _) h

/-- Reading the open pipes of a process. -/
theorem readOut_eq (hnodup : kinds.Nodup) :
    readOut K log (kinds.filterMap fun kind => (p.pipe kind).fd) =
      (readPipes K kinds log p).map fun r =>
        (r.1, decide (∀ kind ∈ kinds, (r.2.pipe kind).fd = none)) := by
  induction kinds generalizing log p with
  | nil => simp [readOut, readPipes]
  | cons kind rest ih =>
    obtain ⟨hnot, hnodup⟩ := List.nodup_cons.mp hnodup
    unfold readPipes
    cases hfd : (p.pipe kind).fd with
    | none =>
      rw [List.filterMap_cons_none (f := fun k => (p.pipe k).fd) hfd, ih hnodup]
      refine Option.map_congr fun r hr => ?_
      have hnone := (readPipes_spares hr).2.2 kind hnot
      simp [hnone, hfd]
    | some fd =>
      -- the other pipes are those they were
      have hsame : (rest.filterMap fun k => (p.pipe k).fd) =
          rest.filterMap fun k => (((K.read log fd).applied kind p).pipe k).fd := by
        refine List.filterMap_congr fun k hk => ?_
        rw [Reads.applied_fd, if_neg]
        rintro ⟨rfl, -⟩
        exact hnot hk
      have hkind : ∀ r, readPipes K rest (log ++ (K.read log fd).events fd)
          ((K.read log fd).applied kind p) = some r →
            ((r.2.pipe kind).fd = none ↔ (K.read log fd).ending = .eof) := by
        intro r hr
        rw [(readPipes_spares hr).2.2 kind hnot, Reads.applied_fd, hfd]
        by_cases heof : (K.read log fd).ending = .eof <;> simp [heof]
      rw [List.filterMap_cons_some (f := fun k => (p.pipe k).fd) hfd, hsame]
      unfold readOut
      cases hending : (K.read log fd).ending with
      | eof =>
        simp only [hending, reduceCtorEq, if_false]
        rw [ih hnodup]
        refine Option.map_congr fun r hr => ?_
        simp [(hkind r hr).mpr hending]
      | again =>
        simp only [hending, reduceCtorEq, if_false]
        rw [ih hnodup, Option.map_map]
        refine Option.map_congr fun r hr => ?_
        have hopen : (r.2.pipe kind).fd ≠ none := fun hnone => by
          rw [(hkind r hr).mp hnone] at hending
          cases hending
        simp [hopen]
      | failed => simp only [hending, if_true, Option.map_none]

end Pipes

namespace ProcessMonitor

variable {K : Kernel} {w w' : World ProcessMonitor} {j : JobId} {p : ActiveProcess} {job : Job}
  {fd : Fd} {kind : ProcessFdKind} {log : List Event}

/-! ## Requests -/

/-- The child of a process has exited, as a request to terminate will find; and the history once that
is recorded. -/
inductive ExitKnown (K : Kernel) (log : List Event) (j : JobId) (p : ActiveProcess) :
    List Event → Prop where
  | before (hexited : p.childExited) : ExitKnown K log j p log
  | now {status : WaitStatus} (hexited : p.childExited = false)
      (hwait : (K.waitpid log p.pid).last = .exited status) :
      ExitKnown K log j p (log ++ [.reaped p.pid status, .recorded j status])

/-- A request to terminate this process, whose child has exited, spares it: reading its pipes fails,
or finds them all ended, or `kill` fails. -/
def Spared (K : Kernel) (log : List Event) (p : ActiveProcess) : Prop :=
  match readOut K log p.openFds with
  | some (log', false) => (K.kill log' p.processGroupId .SIGTERM).last ≠ .ok ()
  | _ => True

/-- What the look at an exited child begins with. -/
theorem ExitKnown.lookAnswer (job : Job) (h : ExitKnown K w.log j p log) :
    ∃ q, lookAnswer K j job w.log p = readAnswer K j job log q ∧ q.childExited ∧
      q.pipe = p.pipe ∧ q.processGroupId = p.processGroupId := by
  unfold ProcessMonitor.lookAnswer
  cases h with
  | before hexited => exact ⟨p, if_pos hexited, hexited, rfl, rfl⟩
  | @now status hexited hwait =>
    refine ⟨p.exit status, ?_, rfl, rfl, rfl⟩
    rw [if_neg (by rw [hexited]; simp), hwait]

/-- SIGTERM is delivered to a running job whose child has exited if and only if the job is not spared. -/
theorem signalAnswer_spared (job : Job) (hcloses : Closes p) (hexit : ExitKnown K w.log j p log) :
    (∃ log' q, signalAnswer K j .SIGTERM job w.log p = .delivered log' q) ↔ ¬ Spared K log p := by
  obtain ⟨q, hlook, hexited, hpipe, hgroup⟩ := hexit.lookAnswer job
  have hcloses : Closes q := fun kind => by
    rw [hpipe]
    exact hcloses kind
  have hread : readOut K log p.openFds = (readPipes K ProcessFdKind.all log q).map fun r =>
      (r.1, decide (∀ kind ∈ ProcessFdKind.all, (r.2.pipe kind).fd = none)) := by
    rw [← readOut_eq (by decide), hpipe]
    rfl
  unfold signalAnswer Spared
  rw [hlook, hread]
  unfold readAnswer
  cases hpipes : readPipes K ProcessFdKind.all log q with
  | none => simp
  | some r =>
    obtain ⟨log1, q1⟩ := r
    obtain ⟨hgroup1, hexited1, -⟩ := readPipes_spares hpipes
    have hcomplete : q1.complete ↔ ∀ kind ∈ ProcessFdKind.all, (q1.pipe kind).fd = none := by
      rw [ActiveProcess.complete_iff, hexited1, and_iff_right hexited]
      refine ⟨fun h kind _ => (hcloses.readPipes hpipes kind).mp (h kind), fun h kind => ?_⟩
      exact (hcloses.readPipes hpipes kind).mpr (h kind (by cases kind <;> decide))
    simp only [Option.map_some]
    by_cases hended : ∀ kind ∈ ProcessFdKind.all, (q1.pipe kind).fd = none
    · -- all pipes have ended: the job is settled
      simp only [hcomplete.mpr hended, if_true, decide_eq_true hended, not_true_eq_false, iff_false]
      rintro ⟨log', q', h⟩
      cases hsettled : settledJob K q1 (withOutput q1 job) <;> rw [hsettled] at h <;> cases h
    · -- a pipe is still open: the signal is sent
      have hincomplete : q1.complete = false := Bool.eq_false_iff.mpr fun h => hended (hcomplete.mp h)
      simp only [hincomplete, Bool.false_eq_true, if_false, decide_eq_false hended, ne_eq, not_not]
      rw [hgroup1, hgroup]
      cases (K.kill log1 p.processGroupId .SIGTERM).last with
      | ok _ => exact iff_of_true ⟨_, _, rfl⟩ rfl
      | error e =>
        apply iff_of_false
        · rintro ⟨log', q', h⟩
          simp only at h
          split_ifs at h
        · intro h
          cases h

/-- A request to terminate a job whose child has exited leaves it without a cause if and only if the
job is spared. -/
theorem requestTerminate_spared (hwf : Wf w.st) (hheld : Held w.st)
    (hjob : w.st.jobs.find j = some job) (hrunning : job.state = .running)
    (hactive : w.st.activeJobs.find j = some p) (hexit : ExitKnown K w.log j p log)
    (cause : TerminationCause) :
    wp (requestTerminate K j cause) (fun _ w' => (∃ job', w'.st.jobs.find j = some job' ∧
      job'.terminationCause = none) ↔ Spared K log p) w := by
  have hcause := hwf.no_cause hjob (Or.inr hrunning)
  have hends := requestTerminate_ends (K := K) hwf hactive hjob hrunning cause
  have hforetold := requestTerminate_foretold (K := K) hwf hheld hjob hactive hrunning cause
  rcases hrun : requestTerminate K j cause w with ⟨r, w'⟩
  obtain ⟨events, hends⟩ := wp_run hends hrun
  have hrequests := wp_run hforetold hrun
  have hunmarked : (∃ job', w'.st.jobs.find j = some job' ∧ job'.terminationCause = none) ↔
      r ≠ .ok true := by
    constructor
    · rintro ⟨job', hjob', hnone⟩ rfl
      rw [hends.terminated rfl, Table.find_set_self] at hjob'
      rw [← Option.some.inj hjob'] at hnone
      cases hnone
    · intro hr
      cases r with
      | error e => exact ⟨job, by rw [hends.threw e rfl]; exact hjob, hcause⟩
      | ok delivered =>
        obtain rfl : delivered = false := Bool.eq_false_iff.mpr fun h => hr (by rw [h])
        obtain heq | ⟨job', -, hnone, heq⟩ := hends.declined rfl
        · exact ⟨job, by rw [heq]; exact hjob, hcause⟩
        · exact ⟨job', by rw [heq]; exact Table.find_set_self _ _ _, hnone⟩
  have hsent : r = .ok true ↔ ∃ log' q, signalAnswer K j .SIGTERM job w.log p = .delivered log' q := by
    revert hrequests
    generalize signalAnswer K j .SIGTERM job w.log p = answer
    intro hrequests
    cases hrequests with
    | marked => simp
    | unsent hsignals hunsent =>
      cases hsignals with
      | delivered => exact absurd rfl hunsent
      | _ => simp
  have hspared := signalAnswer_spared job (fun kind => hwf.eof_iff hactive kind) hexit
  refine wp_of_run hrun (hunmarked.trans ?_)
  rw [ne_eq, hsent, hspared, not_not]

/-! ## Exits in a history -/

variable {l : Label}

/-- A job gets a process by entering RUNNING. -/
theorem Step.activated (hstep : Step K l w w') (hactive : w'.st.activeJobs.find j = some p) :
    (∃ p, w.st.activeJobs.find j = some p) ∨ .entered j .running ∈ w'.log := by
  have hset : ∀ {k : JobId} {q q' : ActiveProcess}, w.st.activeJobs.find k = some q →
      (w.st.activeJobs.set k q').find j = some p → ∃ p, w.st.activeJobs.find j = some p := by
    intro k q q' hk hj
    by_cases hjk : j = k
    · exact ⟨q, hjk ▸ hk⟩
    · rw [Table.find_set_of_ne _ _ hjk] at hj
      exact ⟨p, hj⟩
  cases hstep with
  | receive _ hk => exact Or.inl (hset hk hactive)
  | finish _ hk => exact Or.inl (hset hk hactive)
  | exited hk => exact Or.inl (hset hk hactive)
  | garble hk => exact Or.inl (hset hk hactive)
  | @settle _ k =>
    refine Or.inl ⟨p, ?_⟩
    by_cases hjk : j = k
    · subst hjk
      rw [Table.find_del_self] at hactive
      cases hactive
    · exact (Table.find_del_of_ne _ hjk).symm.trans hactive
  | @started _ k =>
    by_cases hjk : j = k
    · subst hjk
      exact Or.inr (by simp)
    · exact Or.inl ⟨p, (Table.find_set_of_ne _ _ hjk).symm.trans hactive⟩
  | _ => exact Or.inl ⟨p, hactive⟩

/-- A status is recorded for a job that has a process. -/
theorem Step.recordedOf (hstep : Step K l w w') {status : WaitStatus}
    (h : .recorded j status ∈ w'.log) :
    .recorded j status ∈ w.log ∨ ∃ p, w.st.activeJobs.find j = some p := by
  have hnot : ∀ {events : List Event}, (∀ e ∈ events, e.isLaunch) → Event.recorded j status ∉ events :=
    fun hevents => recorded_not_launch hevents j status
  cases hstep with
  | @idle _ e he =>
    obtain h | h := List.mem_append.mp h
    · exact Or.inl h
    · rw [← List.mem_singleton.mp h] at he
      cases he
  | exited hactive =>
    obtain h | h := List.mem_append.mp h
    · exact Or.inl h
    · simp only [List.mem_cons, reduceCtorEq, Event.recorded.injEq, List.not_mem_nil, or_false,
        false_or] at h
      exact Or.inr ⟨_, h.1 ▸ hactive⟩
  | launchFailed _ _ hlaunch => exact Or.inl (by simpa [hnot hlaunch.isLaunch] using h)
  | abandoned _ _ hlaunch hrest =>
    have hrests := hnot fun (e : Event) he => hrest.isLaunch e (List.mem_append_right _ he)
    exact Or.inl (by simpa [hnot hlaunch.isLaunch, hrests] using h)
  | started _ _ hlaunch => exact Or.inl (by simpa [hnot hlaunch.isLaunch] using h)
  | garble | collect => exact Or.inl h
  | _ => exact Or.inl (by simpa using h)

/-- A job that has a process, or whose child's status is known, has entered RUNNING. -/
structure Begun (w : World ProcessMonitor) (j : JobId) : Prop where
  active : ∀ p, w.st.activeJobs.find j = some p → .entered j .running ∈ w.log
  recorded : ∀ status, .recorded j status ∈ w.log → .entered j .running ∈ w.log

theorem Step.begun (hstep : Step K l w w') (h : Begun w j) : Begun w' j := by
  obtain ⟨events, hlog⟩ := hstep.log_prefix
  have hlater : .entered j .running ∈ w.log → .entered j .running ∈ w'.log := fun hentered =>
    hlog ▸ List.mem_append_left events hentered
  refine ⟨fun p hactive => ?_, fun status hrecorded => ?_⟩
  · obtain ⟨q, hq⟩ | hentered := hstep.activated hactive
    · exact hlater (h.active q hq)
    · exact hentered
  · obtain hrecorded | ⟨q, hq⟩ := hstep.recordedOf hrecorded
    · exact hlater (h.recorded status hrecorded)
    · exact hlater (h.active q hq)

/-- SIGTERM reaches a job whose child has exited only where one of its pipes has not ended. -/
def StillOpen (before : List Event) (e : Event) (_after : List Event) : Prop :=
  match e with
  | .signalled j _ .SIGTERM =>
    (ledger before).status j ≠ none → ∃ kind, (ledger before).ended j kind = false
  | _ => True

theorem stillOpen_of_calm {log events : List Event} (h : ∀ e ∈ events, calmEvent e) :
    Throughout StillOpen log events := by
  refine throughout_of_forall fun e he pre post => ?_
  have hcalm := h e he
  cases e <;> trivial

/-- A job is sent SIGTERM after it has been looked after, so something is still missing of it. -/
theorem Step.stillOpen (hstep : Step K l w w') (h : Kept K w) :
    ∃ events, w'.log = w.log ++ events ∧ Throughout StillOpen w.log events := by
  by_cases hterminate : ∃ j cause, l = .terminate j cause
  · obtain ⟨j, cause, rfl⟩ := hterminate
    cases hstep with
    | @terminate _ _ p job _ hactive hjob hrunning hincomplete =>
      refine ⟨_, rfl, ?_⟩
      simp only [throughout_cons, throughout_nil, and_true]
      refine ⟨fun hstatus => ?_, trivial, trivial⟩
      have hexited : p.childExited := by
        by_contra hrunning
        rw [h.recorded.status hactive, if_neg hrunning] at hstatus
        exact hstatus rfl
      have hopen : ¬ ∀ kind, (p.pipe kind).eof := fun hall => by
        rw [p.complete_iff.mpr ⟨hexited, hall⟩] at hincomplete
        cases hincomplete
      obtain ⟨kind, hkind⟩ := not_forall.mp hopen
      rw [Bool.not_eq_true] at hkind
      exact ⟨kind, ((h.jobs j).eof hactive kind).symm.trans hkind⟩
  · by_cases hkill : ∃ j, l = .kill j
    · obtain ⟨j, rfl⟩ := hkill
      cases hstep with
      | kill => exact ⟨_, rfl, throughout_cons.mpr ⟨trivial, throughout_nil⟩⟩
    · obtain ⟨events, hlog, hcalm⟩ := hstep.calm (fun j cause heq => hterminate ⟨j, cause, heq⟩)
        fun j heq => hkill ⟨j, heq⟩
      exact ⟨events, hlog, stillOpen_of_calm hcalm⟩

end ProcessMonitor

namespace Daemon

open ProcessMonitor (Begun)

theorem Step.begun {K : Kernel} {l : Label} {m m' : Moment} {j : JobId} (hstep : Step K l m m')
    (h : Begun m.monitorWorld j) : Begun m'.monitorWorld j := by
  obtain ⟨v, events, hv, hm', hevents⟩ := hstep.monitor
  have hbegun : Begun v j := by
    obtain rfl | ⟨l', -, hv⟩ := hv
    · exact h
    · exact hv.begun h
  rw [hm']
  refine ⟨fun p hactive => List.mem_append_left events (hbegun.active p hactive),
    fun status hrecorded => List.mem_append_left events (hbegun.recorded status ?_)⟩
  refine (List.mem_append.mp hrecorded).resolve_right fun hmem => ?_
  cases hevents _ hmem

theorem Step.stillOpen {K : Kernel} {l : Label} {m m' : Moment} (hstep : Step K l m m')
    (h : ProcessMonitor.Kept K m.monitorWorld)
    (hopen : Throughout ProcessMonitor.StillOpen [] m.world.log) :
    Throughout ProcessMonitor.StillOpen [] m'.world.log := by
  obtain ⟨v, events, hv, hm', hevents⟩ := hstep.monitor
  have hlog : m'.world.log = v.log ++ events := congrArg World.log hm'
  have hmonitor : Throughout ProcessMonitor.StillOpen [] v.log := by
    obtain rfl | ⟨l', -, hstep'⟩ := hv
    · exact hopen
    · obtain ⟨more, hmore, hstill⟩ := hstep'.stillOpen h
      rw [hmore]
      exact hopen.append (fun _ _ _ _ h => h) hstill
  rw [hlog]
  refine hmonitor.append (fun _ _ _ _ h => h) (ProcessMonitor.stillOpen_of_calm fun e he => ?_)
  exact calm_of_deskEvent (hevents e he)

end Daemon

/-! ## Runs -/

section Runs

open Daemon
open ProcessMonitor (outcomeState ExitKnown Spared StillOpen Begun Clean OnlyExits)

variable {K : Kernel} {s : Setup} {w : World Daemon}

/-- A signal that was delivered stands in the history. -/
theorem signalled_of_mem {log : List Event} {j : JobId} {signal : Signal}
    (h : signal ∈ (ledger log).signals j) : ∃ group, .signalled j group signal ∈ log := by
  induction log using List.reverseRecOn with
  | nil => cases h
  | append_singleton log e ih =>
    rw [ledger_concat] at h
    cases e with
    | signalled k group signal' =>
      have h : signal ∈ update (ledger log).signals k ((ledger log).signals k ++ [signal']) j := h
      by_cases hk : j = k
      · subst hk
        rw [update_self, List.mem_append, List.mem_singleton] at h
        obtain h | rfl := h
        · exact (ih h).imp fun _ => List.mem_append_left _
        · exact ⟨group, by simp⟩
      · rw [update_of_ne hk] at h
        exact (ih h).imp fun _ => List.mem_append_left _
    | _ => exact (ih h).imp fun _ => List.mem_append_left _

/-- A job that has got no signal has no cause. -/
theorem cause_of_signals {log : List Event} (h : Throughout Disciplined [] log) {j : JobId}
    (before after : List Event) (hlog : log = before ++ after)
    (hsignals : (ledger before).signals j = []) : (ledger before).cause j = none := by
  induction before using List.reverseRecOn generalizing after with
  | nil => rfl
  | append_singleton before e ih =>
    have hbefore := ih (e :: after) (by rw [hlog]; simp)
    rw [ledger_concat] at hsignals ⊢
    cases e with
    | signalled k group signal =>
      have hsignals : update (ledger before).signals k ((ledger before).signals k ++ [signal]) j = [] :=
        hsignals
      refine hbefore ?_
      by_cases hk : j = k
      · subst hk
        rw [update_self] at hsignals
        exact (List.append_eq_nil_iff.mp hsignals).1
      · rwa [update_of_ne hk] at hsignals
    | blamed k cause =>
      show update (ledger before).cause k (some cause) j = none
      rw [update_of_ne]
      · exact hbefore hsignals
      · -- the cause of a job comes right after its SIGTERM
        rintro rfl
        obtain ⟨-, earlier, group, heq⟩ := h before (.blamed j cause) after (by rw [hlog]; simp)
        rw [List.nil_append] at heq
        subst heq
        rw [ledger_append] at hsignals
        have hsignals : update (ledger earlier).signals j ((ledger earlier).signals j ++ [.SIGTERM]) j =
            [] := hsignals
        rw [update_self] at hsignals
        exact List.append_ne_nil_of_right_ne_nil _ (by simp) hsignals
    | _ => exact hbefore hsignals

/-- A job that has got a signal has a cause. -/
theorem Orderly.caused {log : List Event} (h : Orderly log) {j : JobId}
    (hsignals : (ledger log).signals j ≠ []) : ∃ cause, (ledger log).cause j = some cause := by
  have hmem : .SIGTERM ∈ (ledger log).signals j := by
    obtain hnone | hterm | hboth := (h.signals j).cases
    · exact absurd hnone hsignals
    · simp [hterm]
    · simp [hboth]
  obtain ⟨group, hmem⟩ := signalled_of_mem hmem
  obtain ⟨before, after, rfl⟩ := List.append_of_mem hmem
  obtain ⟨-, -, cause, rest, rfl⟩ := h.disciplined before _ after rfl
  refine ⟨cause, ?_⟩
  have hlog : before ++ .signalled j group .SIGTERM :: .entered j .terminating :: .blamed j cause ::
      rest = before ++ [.signalled j group .SIGTERM, .entered j .terminating, .blamed j cause] ++
        rest := by simp
  have hdisciplined := h.disciplined
  rw [hlog] at hdisciplined ⊢
  refine cause_append hdisciplined.right ?_
  rw [List.nil_append, ledger_append]
  exact update_self _ _ _

/-- The job is settled as its child's status says. -/
def EndsNaturally (w : World Daemon) (j : JobId) : Prop :=
  ∃ job, w.st.monitor.jobs.find j = some job ∧ job.terminationCause = none ∧
    (isTerminal job.state → ∃ status, (ledger w.log).status j = some status ∧
      job.state = outcomeState ((ledger w.log).stream j .startupError) status none)

theorem During.orderly (h : During K s w) : Orderly w.log := by
  obtain ⟨due, hwalk⟩ := h
  exact (sound_invariant (P := fun m => Orderly m.world.log ∧ Spent m)
    (fun l m m' hs hstep ⟨ho, hspent⟩ =>
      ⟨orderly_daemonStep hstep hs hspent ho, spent_step hstep hs ho hspent⟩)
    hwalk (sound_initial s) ⟨orderly_initial s, spent_initial s⟩).2.1

theorem During.begun (h : During K s w) (j : JobId) : Begun (monitorWorld w) j := by
  obtain ⟨due, hwalk⟩ := h
  refine (sound_invariant (P := fun m => Begun m.monitorWorld j)
    (fun l m m' _ hstep h => hstep.begun h) hwalk (sound_initial s) ⟨fun p hp => ?_, ?_⟩).2
  · cases hp
  · simp [monitorWorld, Setup.initial]

/-- Only exits and signals are recorded for a job if only these are reported. -/
theorem During.clean (h : During K s w) (hfresh : FreshFds w.log) (hexits : OnlyExits w.log)
    (j : JobId) : Clean w.log j := by
  rintro status hmem rfl
  obtain ⟨before, after, hlog⟩ := List.append_of_mem hmem
  have hlog : (monitorWorld w).log = before ++ .recorded j .other :: after := hlog
  obtain ⟨pid, -, hlast⟩ := (h.separate hfresh).kept.inOrder before _ after hlog
  refine hexits (.reaped pid .other) ?_ rfl
  have hreaped := List.mem_of_getLast? hlast
  have hlog : w.log = before ++ .recorded j .other :: after := hlog
  rw [hlog]
  exact List.mem_append_left _ hreaped

/-- A job without a cause whose child has exited ends as the child's status says. -/
theorem During.endsNaturally (h : During K s w) (hfresh : FreshFds w.log) (hexits : OnlyExits w.log)
    {j : JobId} (hstatus : (ledger w.log).status j ≠ none) (hcause : (ledger w.log).cause j = none) :
    EndsNaturally w j := by
  obtain ⟨due, hsound⟩ := h.sound
  obtain ⟨status, hknown⟩ := Option.ne_none_iff_exists'.mp hstatus
  have hentered := (h.begun j).recorded status (ProcessMonitor.recorded_of_status hknown)
  have hstate : (ledger w.log).state j ≠ none := fun hnone =>
    hstatus (hsound.recorded.fresh (Or.inl hnone)).1
  cases hjob : w.st.monitor.jobs.find j with
  | none =>
    refine absurd ?_ hstate
    have hrec := hsound.recorded.state j
    rw [show (monitorWorld w).st.jobs.find j = none from hjob] at hrec
    exact hrec
  | some job =>
    refine ⟨job, hjob, ?_, fun hterm => ?_⟩
    · have hrec := hsound.recorded.cause j
      rw [show (monitorWorld w).st.jobs.find j = some job from hjob] at hrec
      exact hrec.symm.trans hcause
    · obtain ⟨status', hknown', -, hrecord⟩ :=
        ((h.separate hfresh).kept.jobs j).settled hjob hterm hentered
      have hrecord := hrecord (h.clean hfresh hexits j)
      have hcause : (ledger (monitorWorld w).log).cause j = none := hcause
      rw [hcause] at hrecord
      exact ⟨status', hknown', congrArg ProcessMonitor.Outcome.state hrecord⟩

/-- SIGTERM is delivered to a job whose child has exited only where one of its pipes has not ended. -/
theorem During.stillOpen (h : During K s w) (hfresh : FreshFds w.log) :
    Throughout ProcessMonitor.StillOpen [] w.log := by
  obtain ⟨due, hwalk⟩ := h
  have hinitial : Throughout ProcessMonitor.StillOpen [] s.initial.log :=
    ProcessMonitor.stillOpen_of_calm (by simp [Setup.initial, calmEvent])
  exact (sound_invariant_under
    (P := fun m => m.Separate K ∧ Throughout ProcessMonitor.StillOpen [] m.world.log)
    (fun _ _ => FreshFds.left)
    (fun _ _ _ hs hstep hfresh ih => ⟨hstep.separate hs hfresh ih.1, hstep.stillOpen ih.1.kept ih.2⟩)
    hwalk (sound_initial s) ⟨separate_initial s, hinitial⟩ hfresh).2.2

/-- A request to terminate a running job whose child has exited leaves it without a cause if and only
if the job is spared. In every run SIGTERM is delivered to a job whose child has exited only where one
of its pipes has not ended, and a job whose child's status is known ends as that status says if and only
if no signal has been delivered to it. -/
theorem naturalExit (h : During K s w) (hfresh : FreshFds w.log) (hexits : OnlyExits w.log) :
    (∀ j job p log cause, w.st.monitor.jobs.find j = some job → job.state = .running →
      w.st.monitor.activeJobs.find j = some p → ExitKnown K w.log j p log →
      wp (ProcessMonitor.requestTerminate K j cause) (fun _ w' =>
        (∃ job', w'.st.jobs.find j = some job' ∧ job'.terminationCause = none) ↔ Spared K log p)
        (monitorWorld w)) ∧
    Throughout StillOpen [] w.log ∧
    ∀ j, (ledger w.log).status j ≠ none → (EndsNaturally w j ↔ (ledger w.log).signals j = []) := by
  have horderly := h.orderly
  obtain ⟨due, hsound⟩ := h.sound
  refine ⟨fun j job p log cause hjob hrunning hactive hexit => ?_, h.stillOpen hfresh,
    fun j hstatus => ⟨fun hends => ?_, fun hsignals => ?_⟩⟩
  · exact ProcessMonitor.requestTerminate_spared (w := monitorWorld w) hsound.wf
      (h.separate hfresh).held hjob hrunning hactive hexit cause
  · by_contra hsignals
    obtain ⟨cause, hcause⟩ := horderly.caused hsignals
    obtain ⟨job, hjob, hnone, -⟩ := hends
    have hrec := hsound.recorded.cause j
    rw [show (monitorWorld w).st.jobs.find j = some job from hjob] at hrec
    rw [show (ledger (monitorWorld w).log).cause j = some cause from hcause] at hrec
    rw [Option.bind_some, hnone] at hrec
    cases hrec
  · exact h.endsNaturally hfresh hexits hstatus
      (cause_of_signals horderly.disciplined w.log [] (List.append_nil _).symm hsignals)

theorem naturalExit_run : EndsNaturally (after exitedScript oneSlot 3) 1 := by
  obtain ⟨hok, hfresh, hexits, hstatus, hsignals⟩ :
      (∀ i < 2, (Daemon.iterate exitedScript (after exitedScript oneSlot i)).1 = .ok ()) ∧
      FreshFds (after exitedScript oneSlot 3).log ∧ OnlyExits (after exitedScript oneSlot 3).log ∧
      (ledger (after exitedScript oneSlot 3).log).status 1 ≠ none ∧
      (ledger (after exitedScript oneSlot 3).log).signals 1 = [] := by decide +kernel
  have hran : Ran exitedScript oneSlot (after exitedScript oneSlot 3) := ran_after hok
  exact ((naturalExit hran.during hfresh hexits).2.2 1 hstatus).mpr hsignals

/-- A machine on which the job's child has exited with code 0, and a descendant of it holds the pipes
open until it gets SIGTERM. -/
def heldScript : Kernel :=
  { Kernel.quiet with
    waitpid := fun _ _ => .done (.exited (.exited 0))
    read := fun log _ => if (ledger log).signals 1 = [] then .again else .eof }.withClient
    [[(3, { epollin := true })], [(7, { epollin := true })], [(7, { epollin := true })],
      [(9, { epollhup := true }), (11, { epollhup := true }), (13, { epollhup := true })]]
    [[], submitPayload 0 [text "/a"], appendJobId kCancelCommand 1]

/-- A job that exited with code 0 before CANCEL, and ends CANCELLED. -/
theorem naturalExit_held : ∃ before after', (after heldScript oneSlot 4).log = before ++ after' ∧
    (ledger before).status 1 = some (.exited 0) ∧ (ledger before).cause 1 = none ∧
    ∃ job, (after heldScript oneSlot 4).st.jobs.find 1 = some job ∧ job.state = .cancelled ∧
      job.terminationCause = some .cancelled := by
  obtain ⟨hjob, hbefore⟩ : ((after heldScript oneSlot 4).st.jobs.find 1).map
        (fun job => (job.state, job.terminationCause)) = some (.cancelled, some .cancelled) ∧
      (ledger ((after heldScript oneSlot 4).log.take 60)).status 1 = some (.exited 0) ∧
      (ledger ((after heldScript oneSlot 4).log.take 60)).cause 1 = none := by decide +kernel
  obtain ⟨job, hfind, heq⟩ := Option.map_eq_some_iff.mp hjob
  obtain ⟨hstate, hcause⟩ := Prod.mk.inj heq
  have hlog := (List.take_append_drop 60 (after heldScript oneSlot 4).log).symm
  refine ⟨(after heldScript oneSlot 4).log.take 60, (after heldScript oneSlot 4).log.drop 60, hlog,
    hbefore.1, hbefore.2, job, hfind, hstate, hcause⟩

end Runs

end Runnerd
