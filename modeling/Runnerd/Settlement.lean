import Mathlib.Data.List.Induction
import Runnerd.Ledger
import Runnerd.MonitorRuns

/-!
# Settlement

The final record of a job as a function of what its pipes delivered, its exit status and the cause
recorded for it (`outcome`), and the proof that the monitor computes it whatever the order in which
chunks, ends of pipes, exits and polls come in.

The invariant compares the buffers and flags of a process with the ledger. A step about one job
leaves what concerns the others untouched.
-/

namespace Runnerd

open Function Effect Effect.Prog Steps Trace

namespace ProcessMonitor

/-! ## The reference -/

/-- What a settlement decides about a job. -/
structure Outcome where
  state : JobState
  exitCode : Option ℕ
  exitSignal : Option ℕ
  failureMessage : Bytes
  standardOutput : Bytes
  standardError : Bytes
  deriving DecidableEq, Repr

/-- The exit code, unless the child never ran the program. -/
def outcomeCode (startup : Bytes) (cause : Option TerminationCause) : WaitStatus → Option ℕ
  | .exited code => if cause ≠ none ∨ startup = [] then some code else none
  | _ => none

def outcomeSignal (startup : Bytes) (cause : Option TerminationCause) : WaitStatus → Option ℕ
  | .signaled signal => if cause ≠ none ∨ startup = [] then some signal else none
  | _ => none

def outcomeState (startup : Bytes) (status : WaitStatus) : Option TerminationCause → JobState
  | some cause => finalState cause
  | none => if startup = [] ∧ status = .exited 0 then .succeeded else .failed

/-- The message for a program that ran. -/
def exitMessage : WaitStatus → Bytes
  | .exited 0 => []
  | .exited code => text "process exited with code " ++ decimal code
  | .signaled signal => text "process terminated by signal " ++ decimal signal
  | .other => text "unexpected waitpid status"

def outcomeMessage (K : Kernel) (startup : Bytes) (status : WaitStatus) :
    Option TerminationCause → Bytes
  | some _ => []
  | none =>
    if startup = [] then exitMessage status
    else if startup.length = childStartupErrorSize then startupErrorMessage K startup
    else text "malformed child startup error record"

/-- The record of a settled job. -/
def outcome (K : Kernel) (stdout stderr startup : Bytes) (status : WaitStatus)
    (cause : Option TerminationCause) : Outcome where
  state := outcomeState startup status cause
  exitCode := outcomeCode startup cause status
  exitSignal := outcomeSignal startup cause status
  failureMessage := outcomeMessage K startup status cause
  standardOutput := stdout
  standardError := stderr

/-- The part of a job's record that a settlement decides. -/
def record (job : Job) : Outcome where
  state := job.state
  exitCode := job.exitCode
  exitSignal := job.exitSignal
  failureMessage := job.failureMessage
  standardOutput := job.standardOutput
  standardError := job.standardError

variable {K : Kernel} {w w' : World ProcessMonitor} {l : Label} {j k : JobId} {job job' : Job}
  {p : ActiveProcess}

/-- A settlement of a job whose record is still empty. -/
theorem record_settledJob (hactive : job.state.isActive)
    (hcause : job.state = .terminating ↔ job.terminationCause ≠ none)
    (hcode : job.exitCode = none) (hsignal : job.exitSignal = none) (hmessage : job.failureMessage = [])
    (hstatus : p.waitStatus ≠ .other) (h : settledJob K p (withOutput p job) = some job') :
    record job' = outcome K (p.pipe .stdout).bytes (p.pipe .stderr).bytes
      (p.pipe .startupError).bytes p.waitStatus job.terminationCause := by
  obtain ⟨id, spec, state, pid, group, cause, code, signal, message, out, err⟩ := job
  simp only at hcode hsignal hmessage hcause hactive
  subst hcode hsignal hmessage
  unfold settledJob at h
  simp only [withOutput] at h
  cases hc : cause with
  | some cause' =>
    subst hc
    obtain rfl : state = .terminating := hcause.mpr (Option.some_ne_none _)
    simp only [if_true] at h
    cases hs : p.waitStatus with
    | exited n =>
      rw [hs] at h
      obtain rfl := Option.some.inj h
      simp [record, outcome, outcomeState, outcomeCode, outcomeSignal, outcomeMessage]
    | signaled n =>
      rw [hs] at h
      obtain rfl := Option.some.inj h
      simp [record, outcome, outcomeState, outcomeCode, outcomeSignal, outcomeMessage]
    | other => exact absurd hs hstatus
  | none =>
    subst hc
    have hrunning : state ≠ .terminating := fun ht => hcause.mp ht rfl
    simp only [hrunning, if_false] at h
    by_cases hempty : (p.pipe .startupError).bytes = []
    · simp only [hempty, if_true] at h
      cases hs : p.waitStatus with
      | exited n =>
        rw [hs] at h
        simp only at h
        split_ifs at h with hn
        · obtain rfl := Option.some.inj h
          subst hn
          simp [record, outcome, outcomeState, outcomeCode, outcomeSignal, outcomeMessage,
            exitMessage, hempty]
        · obtain rfl := Option.some.inj h
          obtain ⟨m, rfl⟩ := Nat.exists_eq_succ_of_ne_zero hn
          simp [record, outcome, outcomeState, outcomeCode, outcomeSignal, outcomeMessage,
            exitMessage, hempty]
      | signaled n =>
        rw [hs] at h
        obtain rfl := Option.some.inj h
        simp [record, outcome, outcomeState, outcomeCode, outcomeSignal, outcomeMessage,
          exitMessage, hempty]
      | other => exact absurd hs hstatus
    · simp only [hempty, if_false] at h
      have hcodes : outcomeCode (p.pipe .startupError).bytes none p.waitStatus = none ∧
          outcomeSignal (p.pipe .startupError).bytes none p.waitStatus = none := by
        cases p.waitStatus <;> simp [outcomeCode, outcomeSignal, hempty]
      split_ifs at h with hlength
      · obtain rfl := Option.some.inj h
        simp [record, outcome, outcomeState, outcomeMessage, hcodes, hempty, hlength]
      · obtain rfl := Option.some.inj h
        simp [record, outcome, outcomeState, outcomeMessage, hcodes, hempty, hlength]

/-! ## Frames -/

/-- The job whose process or record a step can change. -/
def Label.subject : Label → Option JobId
  | .receive j | .finish j | .exited j | .settle j | .garble j | .launchFailed j | .abandoned j
  | .started j | .terminate j _ | .submit j | .dequeue j => some j
  | .idle | .stray | .lost _ | .misuse | .misstart _ | .kill _ | .collect => none

/-- What a step leaves alone of a job. -/
structure Untouched (w w' : World ProcessMonitor) (k : JobId) : Prop where
  job : w'.st.jobs.find k = w.st.jobs.find k
  process : w'.st.activeJobs.find k = w.st.activeJobs.find k
  state : (ledger w'.log).state k = (ledger w.log).state k
  stream : (ledger w'.log).stream k = (ledger w.log).stream k
  ended : (ledger w'.log).ended k = (ledger w.log).ended k
  status : (ledger w'.log).status k = (ledger w.log).status k
  cause : (ledger w'.log).cause k = (ledger w.log).cause k
  recorded : ∀ status, Event.recorded k status ∈ w'.log ↔ Event.recorded k status ∈ w.log
  running : Event.entered k .running ∈ w'.log ↔ Event.entered k .running ∈ w.log

theorem recorded_not_launch {events : List Event} (h : ∀ e ∈ events, e.isLaunch) (k : JobId)
    (status : WaitStatus) : Event.recorded k status ∉ events := fun hmem => by cases h _ hmem

theorem entered_not_launch {events : List Event} (h : ∀ e ∈ events, e.isLaunch) (k : JobId)
    (state : JobState) : Event.entered k state ∉ events := fun hmem => by cases h _ hmem

theorem Step.untouched (hstep : Step K l w w') (hk : l.subject ≠ some k)
    (howner : ∀ fd t, w.st.trackedFds.find fd = some t → (ledger w.log).owner fd = some t) :
    Untouched w w' k := by
  cases hstep with
  | @idle _ e he =>
    have hledger := ledger_concat w.log e
    cases e with
    | called | groupGone => constructor <;> simp [hledger, Ledger.step]
    | _ => cases he
  | @receive _ fd j kind p bytes htracked hactive =>
    have hkj : k ≠ j := fun heq => hk (congrArg some heq.symm)
    have hledger := ledger_concat w.log (.received fd bytes)
    have hhear : (ledger w.log).hear fd bytes k = (ledger w.log).stream k := by
      unfold Ledger.hear
      rw [howner _ _ htracked]
      exact update_of_ne hkj _ _
    constructor <;> simp [hledger, Ledger.step, Table.find_set_of_ne _ _ hkj, hhear]
  | @finish _ fd j kind p htracked hactive =>
    have hkj : k ≠ j := fun heq => hk (congrArg some heq.symm)
    have hledger := ledger_append w.log [.reachedEof fd, .unregistered fd, .closed fd]
    have hfinish : (ledger w.log).finish fd k = (ledger w.log).ended k := by
      unfold Ledger.finish
      rw [howner _ _ htracked]
      exact update_of_ne hkj _ _
    constructor <;> simp [hledger, Ledger.step, Table.find_set_of_ne _ _ hkj, hfinish]
  | @exited _ j p status hactive hpid =>
    have hkj : k ≠ j := fun heq => hk (congrArg some heq.symm)
    have hledger := ledger_append w.log [.reaped p.pid status, .recorded j status]
    constructor <;> simp [hledger, Ledger.step, Table.find_set_of_ne _ _ hkj, hkj]
  | @stray _ pid status hpid =>
    have hledger := ledger_concat w.log (.reaped pid status)
    constructor <;> simp [hledger, Ledger.step]
  | @settle _ j p job job' hactive hcomplete hjob hsettled =>
    have hkj : k ≠ j := fun heq => hk (congrArg some heq.symm)
    have hledger := ledger_concat w.log (.entered j job'.state)
    constructor <;> simp [hledger, Ledger.step, Table.find_set_of_ne _ _ hkj,
      Table.find_del_of_ne _ hkj, hkj]
  | @garble _ j p job hactive hcomplete hjob hsettled =>
    have hkj : k ≠ j := fun heq => hk (congrArg some heq.symm)
    constructor <;> simp [Table.find_set_of_ne _ _ hkj]
  | @lost _ j p hactive hexited hwait =>
    have hledger := ledger_append w.log [.called .waitpid,
      .raised (.logicError (text "active child was reaped without being recorded"))]
    constructor <;> simp [hledger, Ledger.step]
  | @misuse _ e =>
    have hledger := ledger_concat w.log (.raised e)
    constructor <;> simp [hledger, Ledger.step]
  | @misstart _ j e hjob =>
    have hledger := ledger_append w.log [.starting j, .raised e]
    constructor <;> simp [hledger, Ledger.step]
  | @launchFailed _ j job events message hjob hqueued hlaunch =>
    have hkj : k ≠ j := fun heq => hk (congrArg some heq.symm)
    have hevents := hlaunch.isLaunch
    have hkeeps := ledger_starting hevents w.log j
    have hledger : ledger (w.log ++ .starting j :: (events ++ [.entered j .failed])) =
        (ledger (w.log ++ [.starting j] ++ events)).step (.entered j .failed) := by
      rw [← ledger_concat]
      simp
    generalize w.log ++ [.starting j] ++ events = log1 at hkeeps hledger
    constructor <;> simp [hledger, Ledger.step, hkeeps.state, hkeeps.stream, hkeeps.ended,
      hkeeps.status, hkeeps.cause, Table.find_set_of_ne _ _ hkj, hkj,
      recorded_not_launch hevents, entered_not_launch hevents]
  | @abandoned _ j job events rest tracked launched message hjob hqueued hlaunch hrest htracked =>
    have hkj : k ≠ j := fun heq => hk (congrArg some heq.symm)
    have hevents := fun e he => hrest.isLaunch e (List.mem_append_left rest he)
    have hrests := fun e he => hrest.isLaunch e (List.mem_append_right events he)
    have hkeeps := ledger_starting hevents w.log j
    set adopted := Event.adopted j launched.pid launched.stdoutFd launched.stderrFd
      launched.startupErrorFd with hadopted
    have hkeeps' := ledger_launch hrests (w.log ++ [.starting j] ++ events ++ [adopted])
    have hledger : ledger (w.log ++ .starting j :: (events ++ adopted :: (rest ++
        [.entered j .failed]))) =
        (ledger (w.log ++ [.starting j] ++ events ++ [adopted] ++ rest)).step
          (.entered j .failed) := by
      rw [← ledger_concat]
      simp
    generalize w.log ++ [.starting j] ++ events = log1 at hkeeps hkeeps' hledger
    rw [ledger_concat log1] at hkeeps'
    generalize log1 ++ [adopted] ++ rest = log2 at hkeeps' hledger
    rw [hadopted] at hkeeps' hledger
    constructor <;> simp [hledger, Ledger.step, hkeeps'.state, hkeeps'.stream, hkeeps'.ended,
      hkeeps'.status, hkeeps'.cause, hkeeps.state, hkeeps.stream, hkeeps.ended, hkeeps.status,
      hkeeps.cause, Table.find_set_of_ne _ _ hkj, hkj, recorded_not_launch hevents,
      entered_not_launch hevents, recorded_not_launch hrests, entered_not_launch hrests, hadopted]
  | @started _ j job events launched hjob hqueued hlaunch hgroup hpid hfresh hdistinct =>
    have hkj : k ≠ j := fun heq => hk (congrArg some heq.symm)
    have hevents := hlaunch.isLaunch
    have hkeeps := ledger_starting hevents w.log j
    have hledger := ledger_append (w.log ++ [.starting j] ++ events) [.adopted j launched.pid
      launched.stdoutFd launched.stderrFd launched.startupErrorFd,
      .registered launched.stdoutFd .readable, .registered launched.stderrFd .readable,
      .registered launched.startupErrorFd .readable, .entered j .running]
    rw [show ∀ more, w.log ++ [.starting j] ++ events ++ more = w.log ++ .starting j ::
      (events ++ more) by simp] at hledger
    generalize w.log ++ [.starting j] ++ events = log1 at hkeeps hledger
    constructor <;> simp [hledger, Ledger.step, hkeeps.state, hkeeps.stream, hkeeps.ended,
      hkeeps.status, hkeeps.cause, Table.find_set_of_ne _ _ hkj, hkj,
      recorded_not_launch hevents, entered_not_launch hevents]
  | @terminate _ j p job cause hactive hjob hrunning =>
    have hkj : k ≠ j := fun heq => hk (congrArg some heq.symm)
    have hledger := ledger_append w.log [.signalled j p.processGroupId .SIGTERM,
      .entered j .terminating, .blamed j cause]
    constructor <;> simp [hledger, Ledger.step, Table.find_set_of_ne _ _ hkj, hkj]
  | @kill _ j p job hactive hjob hterminating =>
    have hledger := ledger_concat w.log (.signalled j p.processGroupId .SIGKILL)
    constructor <;> simp [hledger, Ledger.step]
  | @submit _ j spec hjob =>
    have hkj : k ≠ j := fun heq => hk (congrArg some heq.symm)
    have hledger := ledger_concat w.log (.submitted j)
    constructor <;> simp [hledger, Ledger.step, Table.find_set_of_ne _ _ hkj, hkj]
  | @dequeue _ j job hjob hqueued =>
    have hkj : k ≠ j := fun heq => hk (congrArg some heq.symm)
    have hledger := ledger_concat w.log (.entered j .cancelled)
    constructor <;> simp [hledger, Ledger.step, Table.find_set_of_ne _ _ hkj, hkj]
  | collect hnotified => constructor <;> simp

/-! ## Descriptors -/

/-- The tracked descriptors are open, and the ledger knows their owners. -/
def Tracks (w : World ProcessMonitor) : Prop :=
  ∀ fd t, w.st.trackedFds.find fd = some t →
    (ledger w.log).owner fd = some t ∧ fd ∈ openFds w.log

/-- Events that neither open nor close a descriptor, nor give one to a job. -/
def keepsFds : Event → Bool
  | .opened _ | .closed _ | .adopted _ _ _ _ _ => false
  | _ => true

theorem fds_of_keepsFds {events : List Event} (h : ∀ e ∈ events, keepsFds e) (log : List Event) :
    (ledger (log ++ events)).owner = (ledger log).owner ∧
      openFds (log ++ events) = openFds log := by
  induction events generalizing log with
  | nil => simp
  | cons e events ih =>
    obtain ⟨he, hrest⟩ := List.forall_mem_cons.mp h
    have hconcat := ih hrest (log ++ [e])
    rw [List.append_assoc, List.singleton_append, ledger_concat] at hconcat
    have hstep : ((ledger log).step e).owner = (ledger log).owner ∧
        openFds (log ++ [e]) = openFds log := by
      unfold openFds
      rw [List.foldl_append]
      cases e <;> first | exact ⟨rfl, rfl⟩ | cases he
    exact ⟨hconcat.1.trans hstep.1, hconcat.2.trans hstep.2⟩

theorem Tracks.keep (h : Tracks w) {st : ProcessMonitor} {events : List Event}
    (htracked : st.trackedFds = w.st.trackedFds) (hevents : ∀ e ∈ events, keepsFds e) :
    Tracks ⟨st, w.log ++ events⟩ := by
  intro fd t hfd
  obtain ⟨howner, hopen⟩ := fds_of_keepsFds hevents w.log
  simp only [htracked] at hfd
  simp only [howner, hopen]
  exact h fd t hfd

/-- A launch leaves the tracked descriptors alone. -/
theorem Tracks.above {held : Holdings} {log : List Event} (h : Tracks w)
    (habove : Holdings.Above held w.log log) (st : ProcessMonitor)
    (htracked : ∀ fd t, st.trackedFds.find fd = some t → w.st.trackedFds.find fd = some t) :
    Tracks ⟨st, log⟩ := by
  intro fd t hfd
  obtain ⟨howner, hopen⟩ := h fd t (htracked fd t hfd)
  exact ⟨(habove.owner fd hopen).trans howner, (habove.open_iff fd).mpr (Or.inl hopen)⟩

/-- What a launch has done to the descriptors, when it has adopted its child. -/
theorem above_adopted {h : Holdings} {log₀ log : List Event} {launched : LaunchedProcess}
    {std : List Fd} (hh : Holdings.Above h log₀ log)
    (hfds : h.fds.Perm ([launched.stdoutFd, launched.stderrFd, launched.startupErrorFd] ++ std)) :
    Holdings.Above h log₀ (log ++ [.adopted j launched.pid launched.stdoutFd launched.stderrFd
      launched.startupErrorFd]) := by
  refine hh.skip rfl (fun _ => by simp) fun fd hfd => ?_
  have hne : ∀ fd' ∈ [launched.stdoutFd, launched.stderrFd, launched.startupErrorFd], fd ≠ fd' := by
    rintro fd' hfd' rfl
    exact hh.disjoint fd (hfds.mem_iff.mpr (List.mem_append_left std hfd')) hfd
  show update (update (update _ _ _) _ _) _ _ fd = _
  rw [update_of_ne (hne _ (by simp)), update_of_ne (hne _ (by simp)), update_of_ne (hne _ (by simp))]

/-- The history of a start, piece by piece. -/
theorem history_pieces (log : List Event) (first : Event) (events : List Event) (adopted : Event)
    (rest : List Event) : log ++ first :: (events ++ adopted :: rest) =
      log ++ [first] ++ events ++ [adopted] ++ rest := by
  simp

/-- The holdings of a launch, above what was open when it began. -/
theorem above_starting {h : Holdings} {events : List Event} (hrun : Holdings.run {} events = some h)
    (hfresh : Throughout Fresh (w.log ++ [.starting j]) events) :
    Holdings.Above h w.log (w.log ++ [.starting j] ++ events) :=
  ((Holdings.above_start w.log).skip rfl (fun _ => by simp) fun _ _ => rfl).run hrun hfresh

theorem Step.tracks (hstep : Step K l w w') (h : Tracks w) (hfresh : FreshFds w'.log) :
    Tracks w' := by
  cases hstep with
  | idle he =>
    refine h.keep rfl (List.forall_mem_singleton.mpr ?_)
    rename_i e
    cases e <;> first | rfl | cases he
  | receive htracked hactive => exact h.keep rfl (by simp [keepsFds])
  | @finish _ fd j kind p htracked hactive =>
    intro fd' t hfd'
    rw [Table.find_del] at hfd'
    split_ifs at hfd' with hne
    obtain ⟨howner, hopen⟩ := h fd' t hfd'
    have hlog : w.log ++ [.reachedEof fd, .unregistered fd, .closed fd] =
        w.log ++ [.reachedEof fd, .unregistered fd] ++ [.closed fd] := by simp
    have hkeeps : ∀ e ∈ [Event.reachedEof fd, .unregistered fd], keepsFds e := by simp [keepsFds]
    obtain ⟨howners, hopens⟩ := fds_of_keepsFds hkeeps w.log
    refine ⟨?_, ?_⟩
    · simp only [hlog]
      rw [ledger_concat]
      show update (ledger (w.log ++ [.reachedEof fd, .unregistered fd])).owner fd none fd' = _
      rw [update_of_ne hne, howners, howner]
    · simp only [hlog]
      rw [mem_openFds_concat, hopens]
      exact Or.inr ⟨hopen, by simpa using Ne.symm hne⟩
  | exited hactive hpid => exact h.keep rfl (by simp [keepsFds])
  | stray hpid => exact h.keep rfl (by simp [keepsFds])
  | settle hactive hcomplete hjob hsettled => exact h.keep rfl (by simp [keepsFds])
  | garble hactive hcomplete hjob hsettled => exact h
  | lost | misuse | misstart => exact h.keep rfl (by simp [keepsFds])
  | @launchFailed _ j job events message hjob hqueued hlaunch =>
    obtain ⟨std, held, hstd, hrun, -, -⟩ := hlaunch
    have hlog : w.log ++ .starting j :: (events ++ [.entered j .failed]) =
        w.log ++ [.starting j] ++ events ++ [.entered j .failed] := by simp
    simp only [hlog] at hfresh ⊢
    have habove := above_starting hrun hfresh.left.right
    exact (h.above habove w.st fun _ _ => id).keep rfl (by simp [keepsFds])
  | @abandoned _ j job events rest tracked launched message hjob hqueued hlaunch hrest htracked =>
    obtain ⟨std, held, hstd, hrun, hfds, -⟩ := hlaunch
    obtain ⟨std', held', hstd', hrun', -, -⟩ := hrest
    rw [history_pieces, ← List.append_assoc _ rest] at hfresh ⊢
    have habove := above_starting hrun hfresh.left.left.left.right
    have hfinal := (above_adopted (j := j) habove hfds).run (Holdings.run_rest hrun hrun')
      hfresh.left.right
    refine (h.above hfinal { w.st with trackedFds := tracked } fun fd t hfd => ?_).keep rfl
      (by simp [keepsFds])
    rw [htracked] at hfd
    split_ifs at hfd
    exact hfd
  | @started _ j job events launched hjob hqueued hlaunch hgroup hpid hnone hdistinct =>
    obtain ⟨std, held, hstd, hrun, hfds, -⟩ := hlaunch
    rw [history_pieces] at hfresh ⊢
    set log1 := w.log ++ [.starting j] ++ events with hlog1
    set log2 := log1 ++ [.adopted j launched.pid launched.stdoutFd launched.stderrFd
      launched.startupErrorFd] with hlog2
    have habove := above_starting hrun hfresh.left.left.right
    have hadopted := above_adopted (j := j) habove hfds
    have howner : (ledger log2).owner = update (update (update (ledger log1).owner
        launched.stdoutFd (some ⟨j, .stdout⟩)) launched.stderrFd (some ⟨j, .stderr⟩))
        launched.startupErrorFd (some ⟨j, .startupError⟩) := by
      rw [hlog2, ledger_concat]
      rfl
    have hopened : ∀ fd ∈ [launched.stdoutFd, launched.stderrFd, launched.startupErrorFd],
        fd ∈ openFds log2 := fun fd hfd => (hadopted.open_iff fd).mpr
      (Or.inr (hfds.mem_iff.mpr (List.mem_append_left std hfd)))
    set tracked := ((w.st.trackedFds.set launched.stdoutFd ⟨j, .stdout⟩).set launched.stderrFd
      ⟨j, .stderr⟩).set launched.startupErrorFd ⟨j, .startupError⟩ with htracked
    have htracks : Tracks ⟨{ w.st with trackedFds := tracked }, log2⟩ := by
      intro fd t hfd
      simp only [htracked, Table.find_set] at hfd
      rw [howner]
      split_ifs at hfd with h1 h2 h3
      · subst h1
        exact ⟨by rw [update_self, hfd], hopened _ (by simp)⟩
      · subst h2
        exact ⟨by rw [update_of_ne h1, update_self, hfd], hopened _ (by simp)⟩
      · subst h3
        exact ⟨by rw [update_of_ne h1, update_of_ne h2, update_self, hfd], hopened _ (by simp)⟩
      · obtain ⟨hown, hopen⟩ := h fd t hfd
        rw [update_of_ne h1, update_of_ne h2, update_of_ne h3]
        exact ⟨(habove.owner fd hopen).trans hown, (hadopted.open_iff fd).mpr (Or.inl hopen)⟩
    exact htracks.keep rfl (by simp [keepsFds])
  | terminate hactive hjob hrunning => exact h.keep rfl (by simp [keepsFds])
  | kill hactive hjob hterminating => exact h.keep rfl (by simp [keepsFds])
  | submit hjob => exact h.keep rfl (by simp [keepsFds])
  | dequeue hjob hqueued => exact h.keep rfl (by simp [keepsFds])
  | collect hnotified => exact h

/-! ## Jobs -/

/-- Only exits and signals are reported for the job. -/
def Clean (log : List Event) (j : JobId) : Prop :=
  ∀ status, .recorded j status ∈ log → status ≠ .other

/-- The final record is the reference's. -/
def Settled (K : Kernel) (log : List Event) (j : JobId) (job : Job) : Prop :=
  ∃ status, (ledger log).status j = some status ∧ (∀ kind, (ledger log).ended j kind) ∧
    (Clean log j → record job = outcome K ((ledger log).stream j .stdout)
      ((ledger log).stream j .stderr) ((ledger log).stream j .startupError) status
      ((ledger log).cause j))

/-- What the monitor keeps of one job. -/
structure JobKept (K : Kernel) (w : World ProcessMonitor) (j : JobId) : Prop where
  eof : ∀ {p}, w.st.activeJobs.find j = some p →
    ∀ kind, (p.pipe kind).eof = (ledger w.log).ended j kind
  bytes : Clean w.log j → ∀ {p}, w.st.activeJobs.find j = some p →
    ∀ kind, (p.pipe kind).bytes = (ledger w.log).stream j kind
  blank : Clean w.log j → ∀ {job}, w.st.jobs.find j = some job → isTerminal job.state = false →
    job.exitCode = none ∧ job.exitSignal = none ∧ job.failureMessage = []
  unstarted : (ledger w.log).state j = none ∨ (ledger w.log).state j = some .queued →
    (∀ kind, (ledger w.log).stream j kind = [] ∧ (ledger w.log).ended j kind = false) ∧
      .entered j .running ∉ w.log
  settled : ∀ {job}, w.st.jobs.find j = some job → isTerminal job.state →
    .entered j .running ∈ w.log → Settled K w.log j job

theorem Untouched.clean_iff (h : Untouched w w' k) : Clean w'.log k ↔ Clean w.log k := by
  unfold Clean
  simp only [h.recorded]

theorem JobKept.untouched (h : JobKept K w k) (hu : Untouched w w' k) : JobKept K w' k where
  eof hactive kind := by
    rw [hu.process] at hactive
    rw [hu.ended]
    exact h.eof hactive kind
  bytes hclean {p} hactive kind := by
    rw [hu.process] at hactive
    rw [hu.stream]
    exact h.bytes (hu.clean_iff.mp hclean) hactive kind
  blank hclean {job} hjob hstate := by
    rw [hu.job] at hjob
    exact h.blank (hu.clean_iff.mp hclean) hjob hstate
  unstarted hstate := by
    rw [hu.state] at hstate
    rw [hu.stream, hu.ended, hu.running]
    exact h.unstarted hstate
  settled hjob hterm hrunning := by
    rw [hu.job] at hjob
    rw [hu.running] at hrunning
    obtain ⟨status, hstatus, hended, hrecord⟩ := h.settled hjob hterm hrunning
    refine ⟨status, by rw [hu.status, hstatus], by rwa [hu.ended], fun hclean => ?_⟩
    rw [hu.stream, hu.cause]
    exact hrecord (hu.clean_iff.mp hclean)

/-- The job of a process is neither unstarted nor terminal. -/
theorem state_of_active (hwf : Wf w.st) (hrec : Recorded w)
    (hactive : w.st.activeJobs.find j = some p) :
    ∃ job, w.st.jobs.find j = some job ∧ job.state.isActive ∧
      (ledger w.log).state j = some job.state := by
  obtain ⟨job, hjob⟩ := hwf.job_of_active hactive
  exact ⟨job, hjob, hwf.isActive hjob hactive, by rw [hrec.state, hjob, Option.map_some]⟩

/-- A job that has a process throughout. -/
theorem JobKept.of_active {job : Job} (hjob : w.st.jobs.find j = some job)
    (hactive : job.state.isActive) (hstate : (ledger w.log).state j = some job.state)
    (heof : ∀ {p}, w.st.activeJobs.find j = some p →
      ∀ kind, (p.pipe kind).eof = (ledger w.log).ended j kind)
    (hbytes : Clean w.log j → ∀ {p}, w.st.activeJobs.find j = some p →
      ∀ kind, (p.pipe kind).bytes = (ledger w.log).stream j kind)
    (hblank : Clean w.log j →
      job.exitCode = none ∧ job.exitSignal = none ∧ job.failureMessage = []) : JobKept K w j where
  eof := heof
  bytes := hbytes
  blank hclean {job'} hjob' _ := by
    rw [hjob] at hjob'
    obtain rfl := Option.some.inj hjob'
    exact hblank hclean
  unstarted h := by
    rw [hstate] at h
    obtain h | h := h
    · cases h
    · rw [Option.some.inj h] at hactive
      cases hactive
  settled hjob' hterm := by
    rw [hjob] at hjob'
    obtain rfl := Option.some.inj hjob'
    rw [isActive_of_isTerminal hterm] at hactive
    cases hactive

/-- A job that ends without having run. -/
theorem JobKept.of_unstarted {job : Job} (hjob : w.st.jobs.find j = some job)
    (hinactive : w.st.activeJobs.find j = none) (hterm : isTerminal job.state)
    (hstate : (ledger w.log).state j = some job.state) (hrunning : .entered j .running ∉ w.log) :
    JobKept K w j where
  eof h := by
    rw [hinactive] at h
    cases h
  bytes _ {_} h := by
    rw [hinactive] at h
    cases h
  blank _ {job'} hjob' hnot := by
    rw [hjob] at hjob'
    obtain rfl := Option.some.inj hjob'
    rw [hterm] at hnot
    cases hnot
  unstarted h := by
    rw [hstate] at h
    obtain h | h := h
    · cases h
    · exact absurd (Option.some.inj h) (ne_of_isTerminal hterm rfl)
  settled _ _ h := absurd h hrunning

/-- The status of the ledger was stored in the job. -/
theorem recorded_of_status {log : List Event} {status : WaitStatus}
    (h : (ledger log).status j = some status) : .recorded j status ∈ log := by
  induction log using List.reverseRecOn with
  | nil => cases h
  | append_singleton log e ih =>
    rw [ledger_concat] at h
    rw [List.mem_append]
    cases e with
    | recorded k s =>
      have h : update (ledger log).status k (some s) j = some status := h
      by_cases hk : j = k
      · subst hk
        rw [update_self] at h
        obtain rfl := Option.some.inj h
        exact Or.inr (List.mem_singleton.mpr rfl)
      · rw [update_of_ne hk] at h
        exact Or.inl (ih h)
    | _ => exact Or.inl (ih h)

/-- The settlement of a terminating job throws on a status that is neither an exit nor a signal. -/
theorem waitStatus_of_settledJob (hcause : job.state = .terminating → job.terminationCause ≠ none)
    (h : settledJob K p job = none) : p.waitStatus = .other := by
  unfold settledJob at h
  split_ifs at h with hterm
  · cases hc : job.terminationCause with
    | none => exact absurd hc (hcause hterm)
    | some cause =>
      rw [hc] at h
      cases hs : p.waitStatus with
      | other => rfl
      | exited => rw [hs] at h; cases h
      | signaled => rw [hs] at h; cases h
  · cases hs : p.waitStatus with
    | other => rfl
    | exited =>
      rw [hs] at h
      simp only at h
      split_ifs at h
    | signaled => rw [hs] at h; cases h

theorem Clean.left {log events : List Event} (h : Clean (log ++ events) j) : Clean log j :=
  fun status hmem => h status (List.mem_append_left events hmem)

/-- A step keeps what the monitor keeps of the job it is about. -/
theorem Step.jobKept (hstep : Step K l w w') (hwf : Wf w.st) (hrec : Recorded w) (htracks : Tracks w)
    (h : JobKept K w j) (hj : l.subject = some j) : JobKept K w' j := by
  have hrec' := hstep.recorded hwf hrec
  have hwf' := hstep.wf hwf
  cases hstep with
  | idle | stray | lost | misuse | misstart | kill | collect => cases hj
  | @receive _ fd k kind p bytes htracked hactive =>
    obtain rfl := Option.some.inj hj
    obtain ⟨job, hjob, hact, hstate⟩ := state_of_active hwf hrec hactive
    have hledger := ledger_concat w.log (.received fd bytes)
    have hstream : (ledger (w.log ++ [.received fd bytes])).stream k =
        update ((ledger w.log).stream k) kind ((ledger w.log).stream k kind ++ bytes) := by
      rw [hledger]
      show (ledger w.log).hear fd bytes k = _
      unfold Ledger.hear
      rw [(htracks _ _ htracked).1]
      exact update_self _ _ _
    refine .of_active hjob hact ?_ (fun hq kind' => ?_) (fun hclean _ hq kind' => ?_)
      fun hclean => h.blank hclean.left hjob (isTerminal_of_isActive hact)
    · rw [hledger]
      exact hstate
    · rw [Table.find_set_self] at hq
      obtain rfl := Option.some.inj hq
      rw [ActiveProcess.receive_eof, h.eof hactive, hledger]
      rfl
    · rw [Table.find_set_self] at hq
      obtain rfl := Option.some.inj hq
      rw [ActiveProcess.receive_bytes, hstream, h.bytes hclean.left hactive kind']
      by_cases hk : kind' = kind
      · subst hk
        rw [if_pos rfl, update_self]
      · rw [if_neg hk, update_of_ne hk]
  | @finish _ fd k kind p htracked hactive =>
    obtain rfl := Option.some.inj hj
    obtain ⟨job, hjob, hact, hstate⟩ := state_of_active hwf hrec hactive
    have hledger := ledger_append w.log [.reachedEof fd, .unregistered fd, .closed fd]
    have hended : (ledger (w.log ++ [.reachedEof fd, .unregistered fd, .closed fd])).ended k =
        update ((ledger w.log).ended k) kind true := by
      rw [hledger]
      show (ledger w.log).finish fd k = _
      unfold Ledger.finish
      rw [(htracks _ _ htracked).1]
      exact update_self _ _ _
    refine .of_active hjob hact ?_ (fun hq kind' => ?_) (fun hclean _ hq kind' => ?_)
      fun hclean => h.blank hclean.left hjob (isTerminal_of_isActive hact)
    · rw [hledger]
      exact hstate
    · rw [Table.find_set_self] at hq
      obtain rfl := Option.some.inj hq
      rw [hended, ActiveProcess.closePipe_pipe]
      by_cases hk : kind' = kind
      · subst hk
        rw [if_pos rfl, update_self]
      · rw [if_neg hk, update_of_ne hk, h.eof hactive]
    · rw [Table.find_set_self] at hq
      obtain rfl := Option.some.inj hq
      rw [ActiveProcess.closePipe_bytes, h.bytes hclean.left hactive kind', hledger]
      rfl
  | @exited _ k p status hactive hpid =>
    obtain rfl := Option.some.inj hj
    obtain ⟨job, hjob, hact, hstate⟩ := state_of_active hwf hrec hactive
    have hledger := ledger_append w.log [.reaped p.pid status, .recorded k status]
    refine .of_active hjob hact ?_ (fun hq kind' => ?_) (fun hclean _ hq kind' => ?_)
      fun hclean => h.blank hclean.left hjob (isTerminal_of_isActive hact)
    · rw [hledger]
      exact hstate
    · rw [Table.find_set_self] at hq
      obtain rfl := Option.some.inj hq
      rw [hledger, ActiveProcess.exit_pipe, h.eof hactive]
      rfl
    · rw [Table.find_set_self] at hq
      obtain rfl := Option.some.inj hq
      rw [hledger, ActiveProcess.exit_pipe, h.bytes hclean.left hactive kind']
      rfl
  | @settle _ k p job job' hactive hcomplete hjob hsettled =>
    obtain rfl := Option.some.inj hj
    have hsettles := settles_of_settledJob hsettled
    have hledger := ledger_concat w.log (.entered k job'.state)
    obtain ⟨hexited, heof⟩ := (ActiveProcess.complete_iff p).mp hcomplete
    have hstatus := hrec.status hactive
    rw [if_pos hexited] at hstatus
    have hact := hwf.isActive hjob hactive
    have hcause : job.state = .terminating ↔ job.terminationCause ≠ none := by
      refine ⟨hwf.cause hjob, fun hne => ?_⟩
      by_contra hnot
      refine hne (hwf.no_cause hjob (Or.inr ?_))
      cases hs : job.state <;> simp_all [JobState.isActive]
    have hgone : (w.st.activeJobs.del k).find k = none := Table.find_del_self _ _
    constructor
    · intro q hq
      rw [hgone] at hq
      cases hq
    · intro _ q hq
      rw [hgone] at hq
      cases hq
    · intro _ job₂ hjob₂ hnot
      rw [Table.find_set_self] at hjob₂
      obtain rfl := Option.some.inj hjob₂
      rw [hsettles.terminal] at hnot
      cases hnot
    · intro hstate
      rw [hrec'.state, Table.find_set_self, Option.map_some] at hstate
      obtain hstate | hstate := hstate
      · cases hstate
      · exact absurd (Option.some.inj hstate) (ne_of_isTerminal hsettles.terminal rfl)
    · intro job₂ hjob₂ _ _
      rw [Table.find_set_self] at hjob₂
      obtain rfl := Option.some.inj hjob₂
      refine ⟨p.waitStatus, by rw [hledger]; exact hstatus, fun kind => ?_, fun hclean => ?_⟩
      · rw [hledger]
        show (ledger w.log).ended k kind
        rw [← h.eof hactive kind]
        exact heof kind
      · have hclean := hclean.left
        obtain ⟨hcode, hsignal, hmessage⟩ := h.blank hclean hjob (isTerminal_of_isActive hact)
        rw [record_settledJob hact hcause hcode hsignal hmessage
          (hclean _ (recorded_of_status hstatus)) hsettled, hledger]
        simp only [h.bytes hclean hactive]
        have hledgerCause := hrec.cause k
        rw [hjob, Option.bind_some] at hledgerCause
        rw [← hledgerCause]
        rfl
  | @garble _ k p job hactive hcomplete hjob hsettled =>
    obtain rfl := Option.some.inj hj
    have hact := hwf.isActive hjob hactive
    have hcause : (withOutput p job).state = .terminating →
        (withOutput p job).terminationCause ≠ none := (hwf.cause hjob :)
    have hother := waitStatus_of_settledJob hcause hsettled
    have hstatus := hrec.status hactive
    rw [if_pos ((ActiveProcess.complete_iff p).mp hcomplete).1] at hstatus
    have hdirty : ¬ Clean w.log k := fun hclean =>
      hclean _ (recorded_of_status hstatus) hother
    refine .of_active (Table.find_set_self _ _ _) hact ?_
      (fun hq kind => ?_) (fun hclean => absurd hclean hdirty) fun hclean => absurd hclean hdirty
    · rw [hrec.state, hjob]
      rfl
    · rw [Table.find_set_self] at hq
      obtain rfl := Option.some.inj hq
      rw [ActiveProcess.swapOutput_eof, h.eof hactive]
  | @launchFailed _ k job events message hjob hqueued hlaunch =>
    obtain rfl := Option.some.inj hj
    refine .of_unstarted (Table.find_set_self _ _ _)
      (hwf.not_active hjob (by rw [hqueued]; rfl)) rfl ?_ ?_
    · rw [hrec'.state, Table.find_set_self]
      rfl
    · have hnot := (h.unstarted (Or.inr (by rw [hrec.state, hjob, Option.map_some, hqueued]))).2
      simp [hnot, entered_not_launch hlaunch.isLaunch]
  | @abandoned _ k job events rest tracked launched message hjob hqueued hlaunch hrest htracked =>
    obtain rfl := Option.some.inj hj
    refine .of_unstarted (Table.find_set_self _ _ _)
      (hwf.not_active hjob (by rw [hqueued]; rfl)) rfl ?_ ?_
    · rw [hrec'.state, Table.find_set_self]
      rfl
    · have hnot := (h.unstarted (Or.inr (by rw [hrec.state, hjob, Option.map_some, hqueued]))).2
      have hlaunches := entered_not_launch hrest.isLaunch k .running
      rw [List.mem_append, not_or] at hlaunches
      simp [hnot, hlaunches]
  | @started _ k job events launched hjob hqueued hlaunch hgroup hpid hfresh hdistinct =>
    obtain rfl := Option.some.inj hj
    have hevents := hlaunch.isLaunch
    have hkeeps := ledger_starting hevents w.log k
    have hledger := ledger_append (w.log ++ [.starting k] ++ events) [.adopted k launched.pid
      launched.stdoutFd launched.stderrFd launched.startupErrorFd,
      .registered launched.stdoutFd .readable, .registered launched.stderrFd .readable,
      .registered launched.startupErrorFd .readable, .entered k .running]
    rw [show ∀ more, w.log ++ [.starting k] ++ events ++ more = w.log ++ .starting k ::
      (events ++ more) by simp] at hledger
    have hempty := (h.unstarted (Or.inr (by rw [hrec.state, hjob, Option.map_some, hqueued]))).1
    have hblank := fun hclean => h.blank hclean hjob (by rw [hqueued]; rfl)
    refine .of_active (Table.find_set_self _ _ _) rfl ?_ (fun hq kind => ?_)
      (fun hclean _ hq kind => ?_) fun hclean => hblank hclean.left
    · rw [hrec'.state, Table.find_set_self]
      rfl
    · rw [Table.find_set_self] at hq
      obtain rfl := Option.some.inj hq
      rw [hledger]
      show false = (ledger (w.log ++ [.starting k] ++ events)).ended k kind
      rw [hkeeps.ended, (hempty kind).2]
    · rw [Table.find_set_self] at hq
      obtain rfl := Option.some.inj hq
      rw [hledger]
      show [] = (ledger (w.log ++ [.starting k] ++ events)).stream k kind
      rw [hkeeps.stream, (hempty kind).1]
  | @terminate _ k p job cause hactive hjob hrunning =>
    obtain rfl := Option.some.inj hj
    have hledger := ledger_append w.log [.signalled k p.processGroupId .SIGTERM,
      .entered k .terminating, .blamed k cause]
    have hblank := fun hclean => h.blank hclean hjob (by rw [hrunning]; rfl)
    refine .of_active (Table.find_set_self _ _ _) rfl ?_ (fun hq kind => ?_)
      (fun hclean _ hq kind => ?_) fun hclean => hblank hclean.left
    · rw [hrec'.state, Table.find_set_self]
      rfl
    · rw [hledger]
      exact h.eof hq kind
    · rw [hledger]
      exact h.bytes hclean.left hq kind
  | @submit _ k spec hjob =>
    obtain rfl := Option.some.inj hj
    have hledger := ledger_concat w.log (.submitted k)
    have hstate : (ledger w.log).state k = none := by rw [hrec.state, hjob, Option.map_none]
    obtain ⟨hempty, hnot⟩ := h.unstarted (Or.inl hstate)
    have hinactive : w.st.activeJobs.find k = none := by
      rw [← Option.not_isSome_iff_eq_none, Option.isSome_iff_exists]
      rintro ⟨p, hp⟩
      obtain ⟨job, hjob'⟩ := hwf.job_of_active hp
      rw [hjob] at hjob'
      cases hjob'
    constructor
    · intro q hq
      rw [hinactive] at hq
      cases hq
    · intro _ q hq
      rw [hinactive] at hq
      cases hq
    · intro _ job₂ hjob₂ _
      rw [Table.find_set_self] at hjob₂
      obtain rfl := Option.some.inj hjob₂
      exact ⟨rfl, rfl, rfl⟩
    · intro _
      rw [hledger]
      exact ⟨hempty, by simp [hnot]⟩
    · intro job₂ hjob₂ hterm
      rw [Table.find_set_self] at hjob₂
      obtain rfl := Option.some.inj hjob₂
      cases hterm
  | @dequeue _ k job hjob hqueued =>
    obtain rfl := Option.some.inj hj
    refine .of_unstarted (Table.find_set_self _ _ _)
      (hwf.not_active hjob (by rw [hqueued]; rfl)) rfl ?_ ?_
    · rw [hrec'.state, Table.find_set_self]
      rfl
    · have hnot := (h.unstarted (Or.inr (by rw [hrec.state, hjob, Option.map_some, hqueued]))).2
      simp [hnot]

/-! ## Runs -/

/-- What must come before an event: a status stored in a job has just been reported for the job's
process, and a job that had a process becomes terminal with a status and all its pipes ended. -/
def InOrder (before : List Event) (e : Event) (_after : List Event) : Prop :=
  match e with
  | .recorded j status =>
    ∃ pid, (ledger before).group j = some pid ∧ before.getLast? = some (.reaped pid status)
  | .entered j s => isTerminal s → ∀ s', (ledger before).state j = some s' → s'.isActive →
      (∃ status, (ledger before).status j = some status) ∧ ∀ kind, (ledger before).ended j kind
  | _ => True

theorem inOrder_launch {events : List Event} (h : ∀ e ∈ events, e.isLaunch) (log : List Event) :
    Throughout InOrder log events := by
  refine throughout_of_forall fun e he pre post => ?_
  have := h e he
  cases e <;> trivial

/-- What the monitor keeps of all jobs. -/
structure Kept (K : Kernel) (w : World ProcessMonitor) : Prop where
  recorded : Recorded w
  tracks : Tracks w
  jobs : ∀ j, JobKept K w j
  inOrder : Throughout InOrder [] w.log

theorem kept_initial (sigchldFd : Fd) : Kept K ⟨{ sigchldFd }, []⟩ where
  recorded := recorded_initial sigchldFd
  tracks fd t h := by simp at h
  jobs j := {
    eof := fun h => by simp at h
    bytes := fun _ _ h => by simp at h
    blank := fun _ _ h => by simp at h
    unstarted := fun _ => ⟨fun _ => ⟨rfl, rfl⟩, List.not_mem_nil⟩
    settled := fun h => by simp at h }
  inOrder := throughout_nil

theorem Step.inOrder (hstep : Step K l w w') (hrec : Recorded w)
    (hjobs : ∀ j, JobKept K w j) (h : Throughout InOrder [] w.log) :
    Throughout InOrder [] w'.log := by
  have extend : ∀ {events}, Throughout InOrder w.log events →
      Throughout InOrder [] (w.log ++ events) := fun hevents =>
    h.append (fun _ _ _ _ h => h) (by simpa using hevents)
  -- a job that is not active becomes terminal as it likes
  have hidle : ∀ {log j s}, (ledger log).state j = (ledger w.log).state j →
      (ledger w.log).state j = some .queued → InOrder log (.entered j s) [] := by
    intro log j s hsame hqueued _ s' hs' hact
    rw [hsame, hqueued] at hs'
    obtain rfl := Option.some.inj hs'
    cases hact
  cases hstep with
  | @idle _ e he =>
    refine extend (throughout_cons.mpr ⟨?_, throughout_nil⟩)
    cases e <;> trivial
  | receive htracked hactive => exact extend (by simp [InOrder])
  | finish htracked hactive => exact extend (by simp [InOrder])
  | @exited _ j p status hactive hpid =>
    refine extend (throughout_cons.mpr ⟨trivial, throughout_cons.mpr ⟨⟨p.pid, ?_, ?_⟩,
      throughout_nil⟩⟩)
    · rw [ledger_concat]
      exact hrec.group hactive
    · exact List.getLast?_concat
  | stray hpid => exact extend (by simp [InOrder])
  | @settle _ j p job job' hactive hcomplete hjob hsettled =>
    refine extend (throughout_cons.mpr ⟨fun _ s' _ _ => ?_, throughout_nil⟩)
    obtain ⟨hexited, heof⟩ := (ActiveProcess.complete_iff p).mp hcomplete
    refine ⟨⟨p.waitStatus, by rw [hrec.status hactive, if_pos hexited]⟩, fun kind => ?_⟩
    rw [← (hjobs j).eof hactive kind]
    exact heof kind
  | garble hactive hcomplete hjob hsettled => exact h
  | lost | misuse | misstart => exact extend (by simp [InOrder])
  | @launchFailed _ j job events message hjob hqueued hlaunch =>
    have hkeeps := ledger_starting hlaunch.isLaunch w.log j
    refine extend (throughout_cons.mpr ⟨trivial, (inOrder_launch hlaunch.isLaunch _).append
      (fun _ _ _ _ h => h) (throughout_cons.mpr ⟨hidle (congrFun hkeeps.state j) ?_,
        throughout_nil⟩)⟩)
    rw [hrec.state, hjob, Option.map_some, hqueued]
  | @abandoned _ j job events rest tracked launched message hjob hqueued hlaunch hrest htracked =>
    have hevents := fun e he => hrest.isLaunch e (List.mem_append_left rest he)
    have hrests := fun e he => hrest.isLaunch e (List.mem_append_right events he)
    have hkeeps := ledger_starting hevents w.log j
    have hkeeps' := ledger_launch hrests (w.log ++ [.starting j] ++ events ++
      [.adopted j launched.pid launched.stdoutFd launched.stderrFd launched.startupErrorFd])
    rw [ledger_concat _ (.adopted _ _ _ _ _)] at hkeeps'
    refine extend (throughout_cons.mpr ⟨trivial, (inOrder_launch hevents _).append
      (fun _ _ _ _ h => h) (throughout_cons.mpr ⟨trivial, (inOrder_launch hrests _).append
        (fun _ _ _ _ h => h) (throughout_cons.mpr
          ⟨hidle ((congrFun hkeeps'.state j).trans (congrFun hkeeps.state j)) ?_,
            throughout_nil⟩)⟩)⟩)
    rw [hrec.state, hjob, Option.map_some, hqueued]
  | @started _ j job events launched hjob hqueued hlaunch hgroup hpid hfresh hdistinct =>
    refine extend (throughout_cons.mpr ⟨trivial, (inOrder_launch hlaunch.isLaunch _).append
      (fun _ _ _ _ h => h) ?_⟩)
    simp [InOrder, isTerminal]
  | terminate hactive hjob hrunning => exact extend (by simp [InOrder, isTerminal])
  | kill hactive hjob hterminating => exact extend (by simp [InOrder])
  | submit hjob => exact extend (by simp [InOrder])
  | @dequeue _ j job hjob hqueued =>
    refine extend (throughout_cons.mpr ⟨hidle rfl ?_, throughout_nil⟩)
    rw [hrec.state, hjob, Option.map_some, hqueued]
  | collect hnotified => exact h

/-- A step keeps what the monitor keeps, as long as no call returns a descriptor that is open. -/
theorem Step.kept (hstep : Step K l w w') (hwf : Wf w.st) (h : Kept K w) (hfresh : FreshFds w'.log) :
    Kept K w' where
  recorded := hstep.recorded hwf h.recorded
  tracks := hstep.tracks h.tracks hfresh
  jobs j := by
    by_cases hj : l.subject = some j
    · exact hstep.jobKept hwf h.recorded h.tracks (h.jobs j) hj
    · exact (h.jobs j).untouched (hstep.untouched hj fun fd t hfd => (h.tracks fd t hfd).1)
  inOrder := hstep.inOrder h.recorded h.jobs h.inOrder

theorem Operated.kept {ok : World ProcessMonitor → World ProcessMonitor → Prop}
    (h : Operated K ok w) (hfresh : FreshFds w.log) : Kept K w := by
  have hkept : FreshFds w.log → Kept K w := by
    refine (h.invariant (P := fun w => FreshFds w.log → Kept K w)
      (fun sigchldFd _ => kept_initial sigchldFd) fun l a b hwf hstep _ ih hb => ?_).2
    obtain ⟨events, hlog⟩ := hstep.log_prefix
    rw [hlog] at hb
    exact hstep.kept hwf (ih hb.left) (hlog ▸ hb)
  exact hkept hfresh

/-- In every run, a started job becomes terminal only with its exit status known and its three pipes
ended, and its final record is the reference's of what its pipes delivered, that status and the
cause recorded for it. -/
theorem settlement_eq_outcome (h : Operated K (fun _ _ => True) w) (hfresh : FreshFds w.log) :
    Throughout InOrder [] w.log ∧ ∀ j job, w.st.jobs.find j = some job → isTerminal job.state →
      .entered j .running ∈ w.log → Settled K w.log j job :=
  ⟨(h.kept hfresh).inOrder, fun j _ hjob hterm hrunning =>
    ((h.kept hfresh).jobs j).settled hjob hterm hrunning⟩

/-- A machine on which the first child writes to its standard output and exits. -/
def writingKernel : Kernel :=
  { Kernel.quiet with
    read := fun _ fd =>
      if fd = 4 then .data (text "he") (.interrupted (.data (text "llo") .eof)) else .eof
    fork := fun _ => .ok ⟨100, by decide⟩
    waitAny := fun _ => .child ⟨100, by decide⟩ (.exited 0) .none }

/-- A job that runs to its end: its standard output ends before its child exits, the other pipes
after that. -/
def writingOperations : List Operation :=
  [.submit 1 { argv := [text "/hello"] }, .startJob 1,
    .handleFileDescriptorEvent 4 { epollin := true }, .handleFileDescriptorEvent 1000 {},
    .handleFileDescriptorEvent 6 { epollhup := true },
    .handleFileDescriptorEvent 8 { epollhup := true }]

theorem settlement_eq_outcome_run : ∃ job,
    (operations writingKernel ⟨{ sigchldFd := 1000 }, []⟩ writingOperations).st.jobs.find 1 =
        some job ∧
      Settled writingKernel
        (operations writingKernel ⟨{ sigchldFd := 1000 }, []⟩ writingOperations).log 1 job ∧
      record job = ⟨.succeeded, some 0, none, [], text "hello", []⟩ := by
  set w := operations writingKernel ⟨{ sigchldFd := 1000 }, []⟩ writingOperations with hw
  have hrun : Operated writingKernel (fun _ _ => True) w := by
    refine .operate (.handleFileDescriptorEvent 8 _) (.operate (.handleFileDescriptorEvent 6 _)
      (.operate (.handleFileDescriptorEvent 1000 _) (.operate (.handleFileDescriptorEvent 4 _)
        (.operate (.startJob 1) (.operate (.submit 1 _) (.start 1000) ?_ ?_) ?_ ?_) ?_ ?_)
          ?_ ?_) ?_ ?_) ?_ ?_
    · exact rfl
    all_goals trivial
  have hfresh : FreshFds w.log := by decide +kernel
  have hjob : (w.st.jobs.find 1).map (fun job => (record job, isTerminal job.state)) =
      some (⟨.succeeded, some 0, none, [], text "hello", []⟩, true) := by decide +kernel
  rw [Option.map_eq_some_iff] at hjob
  obtain ⟨job, hfind, hrecord⟩ := hjob
  obtain ⟨hrecord, hterm⟩ := Prod.mk.inj hrecord
  exact ⟨job, hfind, (settlement_eq_outcome hrun hfresh).2 1 job hfind hterm (by decide +kernel),
    hrecord⟩

end ProcessMonitor

end Runnerd
