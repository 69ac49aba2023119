import Mathlib.Data.List.Chain
import Runnerd.DaemonRuns
import Runnerd.Settlement
import Runnerd.SubmitCodec

/-!
# Job records

What the fields of a job say together, over whole runs: which of them are set in which state, that
the states of a job follow the edges of `canTransition` from `queued`, and that the record of a
terminal job is final.

The exit status of a terminating job is stored before its state changes, and that of a status
neither exited nor signalled makes the settlement throw between the two; `waitpid` reports such a
status for stopped children only, if it is asked to.
-/

namespace Runnerd

open Effect Effect.Prog Steps
open ProcessMonitor (Wf Rewrites Outcome exitMessage finalState outcomeCode outcomeMessage
  outcomeSignal outcomeState record_settledJob settledJob settles_of_settledJob startupErrorMessage
  withOutput)

/-! ## One record -/

/-- What the fields of a job say together. -/
structure Job.Consistent (job : Job) : Prop where
  queued : job.state = .queued → job.pid = none ∧ job.terminationCause = none ∧
    job.exitCode = none ∧ job.exitSignal = none ∧ job.failureMessage = [] ∧
    job.standardOutput = [] ∧ job.standardError = []
  active : job.state.isActive → job.pid.isSome ∧ job.exitCode = none ∧ job.exitSignal = none ∧
    job.standardOutput = [] ∧ job.standardError = [] ∧
    (job.terminationCause.isSome ↔ job.state = .terminating)
  exits : job.exitCode = none ∨ job.exitSignal = none
  succeeded : job.state = .succeeded →
    job.exitCode = some 0 ∧ job.terminationCause = none ∧ job.failureMessage = []
  failed : (job.state = .failed ↔ job.failureMessage ≠ []) ∧
    (job.state = .failed → job.terminationCause = none)
  timedOut : job.state = .timedOut → job.terminationCause = some .timedOut ∧
    (job.exitCode.isSome ↔ job.exitSignal = none)
  cancelled : job.state = .cancelled →
    job.terminationCause = some .cancelled ∧ (job.exitCode.isSome ↔ job.exitSignal = none) ∨
      job.pid = none ∧ job.terminationCause = none ∧ job.exitCode = none ∧ job.exitSignal = none
  not_interrupted : job.state ≠ .interrupted

section Consistent

variable {K : Kernel} {process : Option ActiveProcess} {p : ActiveProcess} {job job' : Job}

theorem consistent_new (j : JobId) (spec : JobSpec) : Job.Consistent { id := j, spec } := by
  constructor <;> simp [JobState.isActive]

/-- A job without a failure message has not failed. -/
theorem Job.Consistent.message_eq (h : job.Consistent) (hstate : job.state ≠ .failed) :
    job.failureMessage = [] := by
  by_contra hmessage
  exact hstate (h.failed.1.mpr hmessage)

theorem text_append_ne {s : String} (h : text s ≠ []) (bytes : Bytes) : text s ++ bytes ≠ [] :=
  fun heq => h (List.append_eq_nil_iff.mp heq).1

theorem exitMessage_ne {status : WaitStatus} (h : status ≠ .exited 0) : exitMessage status ≠ [] := by
  cases status with
  | exited code =>
    cases code with
    | zero => exact absurd rfl h
    | succ code => exact text_append_ne (by decide) _
  | signaled signal => exact text_append_ne (by decide) _
  | other => decide

/-- A job that no cause ends fails if and only if there is something to say about it. -/
theorem outcomeMessage_ne_iff (K : Kernel) (startup : Bytes) (status : WaitStatus) :
    outcomeState startup status none = .failed ↔ outcomeMessage K startup status none ≠ [] := by
  unfold outcomeState outcomeMessage
  by_cases hstartup : startup = []
  · by_cases hstatus : status = .exited 0
    · simp [hstartup, hstatus, exitMessage]
    · simp [hstartup, hstatus, exitMessage_ne hstatus]
  · simp only [hstartup, false_and, if_false, true_iff]
    split_ifs
    · unfold startupErrorMessage
      simp only [List.append_assoc]
      exact text_append_ne (by decide) _
    · decide

/-- The settlement of a job throws only for want of a cause or of a status. -/
theorem settledJob_of_status (hstatus : p.waitStatus ≠ .other)
    (hcause : job.state = .terminating → job.terminationCause ≠ none) :
    ∃ job', settledJob K p (withOutput p job) = some job' := by
  unfold settledJob
  split_ifs with hterminating
  · obtain ⟨cause, hc⟩ := Option.ne_none_iff_exists'.mp (hcause hterminating)
    rw [show (withOutput p job).terminationCause = some cause from hc]
    cases hw : p.waitStatus with
    | exited code => exact ⟨_, rfl⟩
    | signaled signal => exact ⟨_, rfl⟩
    | other => exact absurd hw hstatus
  · cases hw : p.waitStatus with
    | exited code =>
      simp only
      split_ifs <;> exact ⟨_, rfl⟩
    | signaled signal => exact ⟨_, rfl⟩
    | other => exact absurd hw hstatus
  · exact ⟨_, rfl⟩
  · exact ⟨_, rfl⟩

/-- A settlement leaves a consistent record. -/
theorem Job.Consistent.settled (h : job.Consistent) (hactive : job.state.isActive)
    (hstatus : p.waitStatus ≠ .other) (hsettled : settledJob K p (withOutput p job) = some job') :
    job'.Consistent := by
  obtain ⟨-, hcode, hsignal, -, -, hcause⟩ := h.active hactive
  have hmessage : job.failureMessage = [] := h.message_eq fun hfailed => by
    rw [hfailed] at hactive
    cases hactive
  rw [Option.isSome_iff_ne_none] at hcause
  have hrecord := record_settledJob hactive hcause.symm hcode hsignal hmessage hstatus hsettled
  have hs := settles_of_settledJob hsettled
  set startup := (p.pipe .startupError).bytes
  have hstate' : job'.state = outcomeState startup p.waitStatus job.terminationCause :=
    congrArg Outcome.state hrecord
  have hcode' : job'.exitCode = outcomeCode startup job.terminationCause p.waitStatus :=
    congrArg Outcome.exitCode hrecord
  have hsignal' : job'.exitSignal = outcomeSignal startup job.terminationCause p.waitStatus :=
    congrArg Outcome.exitSignal hrecord
  have hmessage' : job'.failureMessage = outcomeMessage K startup p.waitStatus
    job.terminationCause := congrArg Outcome.failureMessage hrecord
  have hcause' : job'.terminationCause = job.terminationCause := hs.cause
  have hinactive := isActive_of_isTerminal hs.terminal
  have hexits : job'.exitCode = none ∨ job'.exitSignal = none := by
    rw [hcode', hsignal']
    cases p.waitStatus with
    | exited code => exact Or.inr rfl
    | signaled signal => exact Or.inl rfl
    | other => exact Or.inl rfl
  cases hc : job.terminationCause with
  | some cause =>
    rw [hc] at hstate' hcode' hsignal' hmessage' hcause'
    have hone : job'.exitCode.isSome ↔ job'.exitSignal = none := by
      rw [hcode', hsignal']
      cases hw : p.waitStatus with
      | exited code => simp [outcomeCode, outcomeSignal]
      | signaled signal => simp [outcomeCode, outcomeSignal]
      | other => exact absurd hw hstatus
    have hstate' : job'.state = finalState cause := hstate'
    have hmessage' : job'.failureMessage = [] := hmessage'
    constructor
    · exact fun hs => by rw [hstate'] at hs; cases cause <;> cases hs
    · exact fun hs => by rw [hinactive] at hs; cases hs
    · exact hexits
    · exact fun hs => by rw [hstate'] at hs; cases cause <;> cases hs
    · have hnot : job'.state ≠ .failed := by rw [hstate']; cases cause <;> simp [finalState]
      exact ⟨iff_of_false hnot (not_not.mpr hmessage'), fun hs => absurd hs hnot⟩
    · refine fun hs => ⟨?_, hone⟩
      rw [hstate'] at hs
      cases cause with
      | cancelled => cases hs
      | timedOut => exact hcause'
    · refine fun hs => Or.inl ⟨?_, hone⟩
      rw [hstate'] at hs
      cases cause with
      | cancelled => exact hcause'
      | timedOut => cases hs
    · rw [hstate']
      cases cause <;> simp [finalState]
  | none =>
    rw [hc] at hstate' hcode' hsignal' hmessage' hcause'
    have hfailed := outcomeMessage_ne_iff K startup p.waitStatus
    rw [← hstate', ← hmessage'] at hfailed
    have hends : job'.state = .succeeded ∨ job'.state = .failed := by
      rw [hstate']
      unfold outcomeState
      split_ifs <;> simp
    have hsucceeded : job'.state = .succeeded → startup = [] ∧ p.waitStatus = .exited 0 := by
      rw [hstate']
      unfold outcomeState
      split_ifs with hzero
      · exact fun _ => hzero
      · exact fun hs => by cases hs
    constructor
    · exact fun hs => by obtain hs' | hs' := hends <;> rw [hs'] at hs <;> cases hs
    · exact fun hs => by rw [hinactive] at hs; cases hs
    · exact hexits
    · intro hs
      obtain ⟨hstartup, hzero⟩ := hsucceeded hs
      refine ⟨by rw [hcode', hzero, hstartup]; rfl, hcause', ?_⟩
      rw [hmessage', hzero, hstartup]
      rfl
    · exact ⟨hfailed, fun _ => hcause'⟩
    · exact fun hs => by obtain hs' | hs' := hends <;> rw [hs'] at hs <;> cases hs
    · exact fun hs => by obtain hs' | hs' := hends <;> rw [hs'] at hs <;> cases hs
    · exact fun hs => by obtain hs' | hs' := hends <;> rw [hs'] at hs <;> cases hs

/-- What a step makes of a consistent record is consistent, unless its process reports a status that
is none. -/
theorem Job.Consistent.rewrites (h : job.Consistent) (hrewrites : Rewrites K process job job')
    (hstatus : ∀ p, process = some p → p.waitStatus ≠ .other) : job'.Consistent := by
  cases hrewrites with
  | settle hprocess hactive hcomplete hsettled =>
    exact h.settled hactive (hstatus _ hprocess) hsettled
  | @garble p hprocess hactive hcomplete hsettled =>
    obtain ⟨-, -, -, -, -, hcause⟩ := h.active hactive
    obtain ⟨job', hjob'⟩ := settledJob_of_status (K := K) (hstatus p hprocess) fun hterminating =>
      Option.isSome_iff_ne_none.mp (hcause.mpr hterminating)
    rw [hjob'] at hsettled
    cases hsettled
  | launchFailed hqueued hmessage =>
    obtain ⟨hpid, hcause, hcode, hsignal, -, hout, herr⟩ := h.queued hqueued
    constructor <;> simp [JobState.isActive, hmessage, hcode, hcause]
  | abandoned hqueued hmessage =>
    obtain ⟨hpid, hcause, hcode, hsignal, -, hout, herr⟩ := h.queued hqueued
    constructor <;> simp [JobState.isActive, hmessage, hcode, hcause]
  | started hqueued =>
    obtain ⟨hpid, hcause, hcode, hsignal, hmessage, hout, herr⟩ := h.queued hqueued
    constructor <;> simp [hmessage, hcode, hsignal, hcause, hout, herr]
  | terminate hprocess hrunning =>
    obtain ⟨hpid, hcode, hsignal, hout, herr, hcause⟩ := h.active (by rw [hrunning]; rfl)
    have hmessage := h.message_eq (by rw [hrunning]; simp)
    constructor <;> simp [hpid, hmessage, hcode, hsignal, hout, herr]
  | dequeue hqueued =>
    obtain ⟨hpid, hcause, hcode, hsignal, hmessage, hout, herr⟩ := h.queued hqueued
    constructor <;> simp [JobState.isActive, hpid, hmessage, hcode, hsignal, hcause]

end Consistent

/-! ## The states of a job -/

/-- The state that an event gives a job. -/
def stateGiven (j : JobId) : Event → Option JobState
  | .submitted k => if k = j then some .queued else none
  | .entered k s => if k = j then some s else none
  | _ => none

/-- The states a job has been in, oldest first. -/
def statesOf (log : List Event) (j : JobId) : List JobState := log.filterMap (stateGiven j)

theorem statesOf_append (log events : List Event) (j : JobId) :
    statesOf (log ++ events) j = statesOf log j ++ statesOf events j := List.filterMap_append

/-- One event that gives a job a state. -/
theorem statesOf_given {e : Event} {j : JobId} {s : JobState}
    (h : ∀ k, stateGiven k e = if j = k then some s else none) (k : JobId) :
    statesOf [e] k = if j = k then [s] else [] := by
  unfold statesOf
  rw [List.filterMap_cons, h]
  split_ifs <;> rfl

theorem getLast?_statesOf (log : List Event) (j : JobId) :
    (statesOf log j).getLast? = (ledger log).state j := by
  induction log using List.reverseRecOn with
  | nil => rfl
  | append_singleton log e ih =>
    have hkeep : stateGiven j e = none → ((ledger log).step e).state j = (ledger log).state j →
        (statesOf (log ++ [e]) j).getLast? = ((ledger log).step e).state j := fun hnone hsame => by
      rw [statesOf_append, hsame, ← ih]
      simp [statesOf, hnone]
    have hgive : ∀ s, stateGiven j e = some s → ((ledger log).step e).state j = some s →
        (statesOf (log ++ [e]) j).getLast? = ((ledger log).step e).state j := fun s hsome hsame => by
      rw [statesOf_append, hsame]
      simp [statesOf, hsome]
    rw [ledger_concat]
    cases e with
    | submitted k =>
      by_cases hk : k = j
      · exact hgive .queued (if_pos hk) (hk ▸ Function.update_self _ _ _)
      · exact hkeep (if_neg hk) (Function.update_of_ne (Ne.symm hk) _ _)
    | entered k s =>
      by_cases hk : k = j
      · exact hgive s (if_pos hk) (hk ▸ Function.update_self _ _ _)
      · exact hkeep (if_neg hk) (Function.update_of_ne (Ne.symm hk) _ _)
    | _ => exact hkeep rfl rfl

/-- A job begins in the queue, goes along the edges of `canTransition`, and is never interrupted. -/
structure Follows (states : List JobState) : Prop where
  head : states.head? = some .queued
  chain : states.IsChain fun s s' => canTransition s s'
  not_interrupted : .interrupted ∉ states

theorem follows_queued : Follows [.queued] where
  head := rfl
  chain := List.IsChain.singleton _
  not_interrupted := by simp

theorem Follows.concat {states : List JobState} {s s' : JobState} (h : Follows states)
    (hlast : states.getLast? = some s) (hedge : canTransition s s') (hs' : s' ≠ .interrupted) :
    Follows (states ++ [s']) where
  head := by rw [List.head?_append, h.head]; rfl
  chain := by
    refine List.isChain_append.mpr ⟨h.chain, List.IsChain.singleton _, fun x hx y hy => ?_⟩
    rw [hlast] at hx
    obtain rfl := Option.some.inj hx
    obtain rfl := Option.some.inj hy
    exact hedge
  not_interrupted := by
    rw [List.mem_append, List.mem_singleton, not_or]
    exact ⟨h.not_interrupted, hs'.symm⟩

/-- How a history goes on for a job: not at all, with its submission, or along an edge. -/
def Advances (d : JobTable) (log log' : List Event) (k : JobId) : Prop :=
  statesOf log' k = statesOf log k ∨
    (d.find k = none ∧ statesOf log' k = statesOf log k ++ [.queued]) ∨
    ∃ job s, d.find k = some job ∧ canTransition job.state s ∧ s ≠ .interrupted ∧
      statesOf log' k = statesOf log k ++ [s]

namespace ProcessMonitor

variable {K : Kernel} {l : Label} {w w' : World ProcessMonitor}

theorem statesOf_launch {events : List Event} (h : ∀ e ∈ events, e.isLaunch) (k : JobId) :
    statesOf events k = [] := by
  refine List.filterMap_eq_nil_iff.mpr fun e he => ?_
  have := h e he
  cases e <;> first | rfl | cases this

theorem Step.advances (hstep : Step K l w w') (hwf : Wf w.st) (k : JobId) :
    Advances w.st.jobs w.log w'.log k := by
  have henter : ∀ {j s job events}, w.st.jobs.find j = some job → canTransition job.state s →
      s ≠ .interrupted → statesOf events k = (if j = k then [s] else []) →
      Advances w.st.jobs w.log (w.log ++ events) k := by
    intro j s job events hjob hedge hs hevents
    unfold Advances
    rw [statesOf_append, hevents]
    split_ifs with hk
    · exact Or.inr (Or.inr ⟨job, s, hk ▸ hjob, hedge, hs, rfl⟩)
    · exact Or.inl (List.append_nil _)
  have hquiet : ∀ {events}, statesOf events k = [] →
      Advances w.st.jobs w.log (w.log ++ events) k := by
    intro events hevents
    exact Or.inl (by rw [statesOf_append, hevents, List.append_nil])
  cases hstep with
  | @idle _ e he =>
    refine hquiet ?_
    cases e <;> first | rfl | cases he
  | receive | finish | exited | stray | lost | misuse | misstart => exact hquiet rfl
  | kill => exact hquiet rfl
  | garble | collect => exact Or.inl rfl
  | @settle _ j p job job' hactive hcomplete hjob hsettled =>
    have hs := settles_of_settledJob hsettled
    have hedge : canTransition job.state job'.state ∧ job'.state ≠ .interrupted := by
      have hstate := hwf.isActive hjob hactive
      cases hjs : job.state with
      | running =>
        obtain hend | hend := hs.running
          (by rw [show (withOutput p job).state = job.state from rfl, hjs]; simp)
        · rw [hend]
          exact ⟨rfl, by simp⟩
        · rw [hend]
          exact ⟨rfl, by simp⟩
      | terminating =>
        obtain ⟨cause, -, hend⟩ := hs.terminating hjs
        rw [hend]
        cases cause <;> exact ⟨rfl, by simp [finalState]⟩
      | _ =>
        rw [hjs] at hstate
        cases hstate
    exact henter hjob hedge.1 hedge.2 (statesOf_given (fun _ => rfl) k)
  | @launchFailed _ j job events message hjob hqueued hlaunch hmessage =>
    refine @henter j .failed job (.starting j :: (events ++ [.entered j .failed])) hjob
      (by rw [hqueued]; rfl) (by simp) ?_
    show statesOf (events ++ [.entered j .failed]) k = _
    rw [statesOf_append, statesOf_launch hlaunch.isLaunch]
    exact statesOf_given (fun _ => rfl) k
  | @abandoned _ j job events rest tracked launched message hjob hqueued hlaunch hrest =>
    have hrests := fun e he => hrest.isLaunch e (List.mem_append_right events he)
    refine henter hjob (s := .failed) (by rw [hqueued]; rfl) (by simp) ?_
    show statesOf (events ++ _) k = _
    rw [statesOf_append, statesOf_launch hlaunch.isLaunch]
    show statesOf (rest ++ [.entered j .failed]) k = _
    rw [statesOf_append, statesOf_launch hrests]
    exact statesOf_given (fun _ => rfl) k
  | @started _ j job events launched hjob hqueued hlaunch =>
    refine henter hjob (s := .running) (by rw [hqueued]; rfl) (by simp) ?_
    show statesOf (events ++ _) k = _
    rw [statesOf_append, statesOf_launch hlaunch.isLaunch]
    exact statesOf_given (fun _ => rfl) k
  | @terminate _ j p job cause hactive hjob hrunning =>
    refine henter hjob (s := .terminating) (by rw [hrunning]; rfl) (by simp) ?_
    show statesOf ([.entered j .terminating] ++ [.blamed j cause]) k = _
    rw [statesOf_append]
    exact (List.append_nil _).trans (statesOf_given (fun _ => rfl) k)
  | @submit _ j spec hjob =>
    have hevents := statesOf_given (e := .submitted j) (fun _ => rfl) k
    unfold Advances
    rw [statesOf_append, hevents]
    split_ifs with hk
    · exact Or.inr (Or.inl ⟨hk ▸ hjob, rfl⟩)
    · exact Or.inl (List.append_nil _)
  | @dequeue _ j job hjob hqueued =>
    exact henter hjob (s := .cancelled) (by rw [hqueued]; rfl) (by simp)
      (statesOf_given (fun _ => rfl) k)

/-! ## Statuses -/

/-- The status that a `waitpid` reports. -/
def reportedStatus : Event → Option WaitStatus
  | .reaped _ status => some status
  | _ => none

/-- `waitpid` reports exits and signals only. -/
def OnlyExits (log : List Event) : Prop := ∀ e ∈ log, reportedStatus e ≠ some .other

instance (log : List Event) : Decidable (OnlyExits log) :=
  inferInstanceAs (Decidable (∀ e ∈ log, _))

theorem OnlyExits.left (log events : List Event) (h : OnlyExits (log ++ events)) : OnlyExits log :=
  fun e he => h e (List.mem_append_left events he)

/-- The statuses of the processes. -/
def Exits (t : ProcessMonitor) : Prop :=
  ∀ j p, t.activeJobs.find j = some p → p.waitStatus ≠ .other

theorem Exits.set {t : ProcessMonitor} (h : Exits t) (j : JobId) {p : ActiveProcess}
    (hp : p.waitStatus ≠ .other) (k : JobId) (q : ActiveProcess)
    (hq : (t.activeJobs.set j p).find k = some q) : q.waitStatus ≠ .other := by
  rw [Table.find_set] at hq
  split_ifs at hq
  · exact Option.some.inj hq ▸ hp
  · exact h k q hq

theorem Step.exits (hstep : Step K l w w') (hexits : OnlyExits w'.log) (h : Exits w.st) :
    Exits w'.st := by
  cases hstep with
  | idle | stray | lost | misuse | misstart | launchFailed | abandoned | terminate | kill | submit
    | dequeue | collect => exact h
  | receive htracked hactive => exact h.set _ (h _ _ hactive :)
  | finish htracked hactive => exact h.set _ (h _ _ hactive :)
  | @exited _ j p status hactive hpid =>
    have hstatus := hexits (.reaped p.pid status) (by simp)
    exact h.set j fun heq => hstatus (congrArg some heq)
  | settle hactive =>
    intro k q hq
    rw [Table.find_del] at hq
    split_ifs at hq
    exact h k q hq
  | garble hactive => exact h.set _ (h _ _ hactive :)
  | started => exact h.set _ (by simp [ActiveProcess.create])

end ProcessMonitor

/-! ## Whole runs -/

namespace Daemon

open ProcessMonitor (Exits OnlyExits)

variable {K : Kernel} {n : ℕ} {l : Label} {m m' : Moment}

theorem statesOf_deskEvents {events : List Event} (h : ∀ e ∈ events, deskEvent e) (k : JobId) :
    statesOf events k = [] := by
  refine List.filterMap_eq_nil_iff.mpr fun e he => ?_
  have hdesk := h e he
  cases e <;> first | rfl | cases hdesk

theorem Step.advances (hstep : Step K l m m') (hwf : Wf m.world.st.monitor) (k : JobId) :
    Advances m.world.st.jobs m.world.log m'.world.log k := by
  obtain ⟨v, events, hv, hm', hevents⟩ := hstep.monitor
  have hlog : m'.world.log = v.log ++ events := congrArg World.log hm'
  have hsame : statesOf m'.world.log k = statesOf v.log k := by
    rw [hlog, statesOf_append, statesOf_deskEvents hevents, List.append_nil]
  unfold Advances
  rw [hsame]
  obtain rfl | ⟨_, _, hstep⟩ := hv
  · exact Or.inl rfl
  · exact hstep.advances hwf k

/-- The records of all jobs are in order. -/
structure Coherent (w : World Daemon) : Prop where
  exits : Exits w.st.monitor
  consistent : ∀ {j job}, w.st.jobs.find j = some job → job.Consistent
  follows : ∀ j, statesOf w.log j = [] ∨ Follows (statesOf w.log j)

theorem coherent_initial (s : Setup) : Coherent s.initial where
  exits _ _ h := by cases h
  consistent h := by cases h
  follows _ := Or.inl rfl

theorem Step.coherent (hstep : Step K l m m') (hsound : Sound n m)
    (hexits : OnlyExits m'.world.log) (h : Coherent m.world) : Coherent m'.world where
  exits := by
    obtain ⟨v, events, hv, hm', -⟩ := hstep.monitor
    have hlog : m'.world.log = v.log ++ events := congrArg World.log hm'
    rw [show m'.world.st.monitor = v.st from congrArg World.st hm']
    obtain rfl | ⟨_, _, hv⟩ := hv
    · exact h.exits
    · exact hv.exits (OnlyExits.left _ events (hlog ▸ hexits)) h.exits
  consistent {j job} hjob := by
    obtain heq | ⟨job₀, job', hjob₀, hjob', hrewrites⟩ | ⟨spec, -, -, hnew⟩ :=
      hstep.rewrites hsound.wf j
    · exact h.consistent (heq.symm.trans hjob)
    · rw [hjob'] at hjob
      obtain rfl := Option.some.inj hjob
      exact (h.consistent hjob₀).rewrites hrewrites (h.exits j)
    · rw [hnew] at hjob
      exact Option.some.inj hjob ▸ consistent_new j spec
  follows j := by
    have hstate : (statesOf m.world.log j).getLast? = (m.world.st.jobs.find j).map Job.state :=
      (getLast?_statesOf _ j).trans (hsound.recorded.state j)
    obtain heq | ⟨hnone, hnew⟩ | ⟨job, s, hjob, hedge, hs, hnew⟩ := hstep.advances hsound.wf j
    · rw [heq]
      exact h.follows j
    · rw [hnone] at hstate
      rw [hnew, List.getLast?_eq_none_iff.mp hstate]
      exact Or.inr follows_queued
    · rw [hjob] at hstate
      rw [hnew]
      obtain hnil | hfollows := h.follows j
      · rw [hnil] at hstate
        cases hstate
      · exact Or.inr (hfollows.concat hstate hedge hs)

/-- The record of a terminal job is final. -/
theorem Step.final (hstep : Step K l m m') (hwf : Wf m.world.st.monitor) {j : JobId} {job : Job}
    (hjob : m.world.st.jobs.find j = some job) (hterm : isTerminal job.state) :
    m'.world.st.jobs.find j = some job := by
  obtain heq | ⟨job₀, _, hjob₀, _, hrewrites⟩ | ⟨_, _, hnone, _⟩ := hstep.rewrites hwf j
  · exact heq.trans hjob
  · rw [hjob] at hjob₀
    obtain rfl := Option.some.inj hjob₀
    rw [hrewrites.not_terminal] at hterm
    cases hterm
  · rw [hjob] at hnone
    cases hnone

end Daemon

section Runs

open Daemon
open ProcessMonitor (OnlyExits)

variable {K : Kernel} {s : Setup} {w w' : World Daemon}

/-- As long as `waitpid` reports exits and signals only, the fields of every job agree with each
other and with its state, which it has reached from the queue along the edges of `canTransition`; and
the record of a terminal job never changes again. -/
theorem jobRecords (h : Reachable K s w) (hlater : Later K w w') (hexits : OnlyExits w'.log) :
    (∀ j job, w'.st.jobs.find j = some job → job.Consistent ∧ Follows (statesOf w'.log j) ∧
      (statesOf w'.log j).getLast? = some job.state) ∧
    ∀ j job, w.st.jobs.find j = some job → isTerminal job.state →
      w'.st.jobs.find j = some job := by
  obtain ⟨due, hwalk⟩ := hlater.walk h
  obtain ⟨hsound, hcoherent⟩ := sound_invariant_under (P := fun m => Coherent m.world)
    OnlyExits.left (fun _ _ _ hs hstep hexits ih => hstep.coherent hs hexits ih)
    (h.sound_walk.2.trans hwalk) (sound_initial s) (coherent_initial s) hexits
  refine ⟨fun j job hjob => ?_, fun j job hjob hterm => ?_⟩
  · have hstate : (statesOf w'.log j).getLast? = some job.state := by
      rw [getLast?_statesOf, show (ledger w'.log).state j = _ from hsound.recorded.state j]
      exact congrArg (Option.map Job.state) hjob
    refine ⟨hcoherent.consistent hjob, (hcoherent.follows j).resolve_left fun hnil => ?_, hstate⟩
    rw [hnil] at hstate
    cases hstate
  · have hfinal := sound_invariant (P := fun m => m.world.st.jobs.find j = some job)
      (fun _ _ _ hs hstep ih => hstep.final hs.wf ih hterm) hwalk h.sound hjob
    exact hfinal.2

/-- A client submits a job and cancels it when its child has exited. -/
def exitedScript : Kernel :=
  { Kernel.quiet with
    waitpid := fun _ _ => .done (.exited (.exited 0))
    read := fun _ _ => .eof }.withClient
    [[(3, { epollin := true })], [(7, { epollin := true })], [(7, { epollin := true })]]
    [[], submitPayload 0 [text "/a"], appendJobId kCancelCommand 1]

theorem jobRecords_run : ∃ job, (after exitedScript oneSlot 4).st.jobs.find 1 = some job ∧
    job.Consistent ∧ statesOf (after exitedScript oneSlot 4).log 1 =
      [.queued, .running, .succeeded] := by
  have hok : ∀ i < 4, (Daemon.iterate exitedScript (after exitedScript oneSlot i)).1 = .ok () := by
    decide +kernel
  have hreachable : Reachable exitedScript oneSlot (after exitedScript oneSlot 3) :=
    reachable_after fun i hi => hok i (by omega)
  have hlater : Later exitedScript (after exitedScript oneSlot 3) (after exitedScript oneSlot 4) :=
    later_after (m := 3) (k := 1) hok
  have hexits : OnlyExits (after exitedScript oneSlot 4).log := by decide +kernel
  have hstate : ((after exitedScript oneSlot 3).st.jobs.find 1).map Job.state =
      some .succeeded := by decide +kernel
  obtain ⟨job, hjob, hstate⟩ := Option.map_eq_some_iff.mp hstate
  obtain ⟨hrecords, hfinal⟩ := jobRecords hreachable hlater hexits
  have hjob' := hfinal 1 job hjob (by rw [hstate]; rfl)
  exact ⟨job, hjob', (hrecords 1 job hjob').1, by decide +kernel⟩

end Runs

end Runnerd
