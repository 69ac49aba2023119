import Runnerd.DaemonRuns
import Runnerd.SubmitCodec

/-!
# Signals and causes

Which signals a job's process group gets, in which states, and which cause is recorded for the job:
over every run of the daemon, however CANCEL requests, execution deadlines, grace deadlines and the
failures to set one follow each other. No second SIGKILL is sent because a job that has got one has no
deadline left, and gets none.
-/

namespace Runnerd

open Function Effect Effect.Prog Steps Trace
open ProcessMonitor (Wf Recorded finalState settles_of_settledJob ledger_starting)

/-! ## What a history shows -/

/-- The signals delivered for a job in a state. -/
def SignalsIn : Option JobState → List Signal → Prop
  | none, signals | some .queued, signals | some .running, signals => signals = []
  | some .terminating, signals => signals = [.SIGTERM] ∨ signals = [.SIGTERM, .SIGKILL]
  | some _, signals => signals = [] ∨ signals = [.SIGTERM] ∨ signals = [.SIGTERM, .SIGKILL]

theorem SignalsIn.cases {state : Option JobState} {signals : List Signal}
    (h : SignalsIn state signals) :
    signals = [] ∨ signals = [.SIGTERM] ∨ signals = [.SIGTERM, .SIGKILL] := by
  rcases state with _ | (_ | _ | _ | _ | _ | _ | _ | _)
  case some.terminating => exact Or.inr h
  case none | some.queued | some.running => exact Or.inl h
  all_goals exact h

theorem SignalsIn.terminal {state : Option JobState} {signals : List Signal}
    (h : SignalsIn state signals) {s : JobState} (hs : isTerminal s) : SignalsIn (some s) signals := by
  cases s <;> first | exact h.cases | cases hs

/-- What holds at an event about the end of a job. A signal goes to the job's own group, SIGTERM
while the job runs and SIGKILL while it terminates. The cause is recorded right after SIGTERM, for a
job that had none. And a terminating job ends in the state its cause says. -/
def Disciplined (before : List Event) (e : Event) (after : List Event) : Prop :=
  match e with
  | .signalled j group .SIGTERM =>
    (ledger before).group j = some group ∧ (ledger before).state j = some .running ∧
      ∃ cause rest, after = .entered j .terminating :: .blamed j cause :: rest
  | .signalled j group .SIGKILL =>
    (ledger before).group j = some group ∧ (ledger before).state j = some .terminating
  | .blamed j _ =>
    (ledger before).cause j = none ∧
      ∃ earlier group, before = earlier ++ [.signalled j group .SIGTERM, .entered j .terminating]
  | .entered j s =>
    (ledger before).state j = some .terminating →
      ∃ cause, (ledger before).cause j = some cause ∧ s = finalState cause
  | _ => True

theorem Disciplined.more {before post more : List Event} {e : Event}
    (h : Disciplined before e post) : Disciplined before e (post ++ more) := by
  unfold Disciplined at *
  split
  · obtain ⟨hgroup, hstate, cause, rest, rfl⟩ := h
    exact ⟨hgroup, hstate, cause, rest ++ more, rfl⟩
  · exact h
  · exact h
  · exact h
  · trivial

/-- Signals and causes are as they should be, so far. -/
structure Orderly (log : List Event) : Prop where
  signals : ∀ j, SignalsIn ((ledger log).state j) ((ledger log).signals j)
  disciplined : Throughout Disciplined [] log

theorem orderly_nil : Orderly [] where
  signals _ := rfl
  disciplined := throughout_nil

/-- Events that move no job, send no signal and record no cause. -/
def quietEvent : Event → Bool
  | .signalled _ _ _ | .blamed _ _ | .entered _ _ | .submitted _ => false
  | _ => true

theorem quietEvent_of_deskEvent {e : Event} (h : Daemon.deskEvent e) : quietEvent e := by
  cases e <;> first | rfl | cases h

theorem quietEvent_of_isLaunch {e : Event} (h : e.isLaunch) : quietEvent e := by
  cases e <;> first | rfl | cases h

theorem ledger_quietEvents {events : List Event} (h : ∀ e ∈ events, quietEvent e)
    (log : List Event) : (ledger (log ++ events)).state = (ledger log).state ∧
      (ledger (log ++ events)).signals = (ledger log).signals ∧
      (ledger (log ++ events)).cause = (ledger log).cause := by
  induction events generalizing log with
  | nil => simp
  | cons e events ih =>
    obtain ⟨he, hrest⟩ := List.forall_mem_cons.mp h
    have htail := ih hrest (log ++ [e])
    rw [List.append_assoc, List.singleton_append, ledger_concat] at htail
    have hstep : ((ledger log).step e).state = (ledger log).state ∧
        ((ledger log).step e).signals = (ledger log).signals ∧
        ((ledger log).step e).cause = (ledger log).cause := by
      cases e <;> first | exact ⟨rfl, rfl, rfl⟩ | cases he
    rw [hstep.1, hstep.2.1, hstep.2.2] at htail
    exact htail

section Orderly

variable {log events : List Event} {j : JobId} {s : JobState}

theorem Orderly.append (h : Orderly log)
    (hsignals : ∀ j, SignalsIn ((ledger (log ++ events)).state j)
      ((ledger (log ++ events)).signals j))
    (hdisciplined : Throughout Disciplined log events) : Orderly (log ++ events) where
  signals := hsignals
  disciplined := h.disciplined.append (fun _ _ _ _ => Disciplined.more) hdisciplined

theorem Orderly.quiet (h : Orderly log) (hevents : ∀ e ∈ events, quietEvent e) :
    Orderly (log ++ events) := by
  obtain ⟨hstate, hsignals, -⟩ := ledger_quietEvents hevents log
  refine h.append (fun j => ?_) (throughout_of_forall fun e he pre post => ?_)
  · rw [hstate, hsignals]
    exact h.signals j
  · have hquiet := hevents e he
    cases e <;> trivial

/-- A job enters a state. -/
theorem Orderly.enter (h : Orderly log) (hs : SignalsIn (some s) ((ledger log).signals j))
    (hterminating : (ledger log).state j = some .terminating →
      ∃ cause, (ledger log).cause j = some cause ∧ s = finalState cause) :
    Orderly (log ++ [.entered j s]) := by
  refine h.append (fun k => ?_) (throughout_cons.mpr ⟨hterminating, throughout_nil⟩)
  rw [ledger_concat]
  show SignalsIn (update (ledger log).state j (some s) k) ((ledger log).signals k)
  by_cases hk : k = j
  · subst hk
    rwa [update_self]
  · rw [update_of_ne hk]
    exact h.signals k

/-- A queued job enters a state in which it has got no signal. -/
theorem Orderly.leaveQueue (h : Orderly log) (hqueued : (ledger log).state j = some .queued)
    (hs : SignalsIn (some s) []) : Orderly (log ++ [.entered j s]) := by
  have hnone := h.signals j
  rw [hqueued] at hnone
  refine h.enter (by rwa [show (ledger log).signals j = [] from hnone]) fun hterm => ?_
  rw [hqueued] at hterm
  cases hterm

end Orderly

/-! ## Steps that send no signal -/

/-- Events that neither deliver a signal nor record a cause. -/
def calmEvent : Event → Bool
  | .signalled _ _ _ | .blamed _ _ => false
  | _ => true

theorem calm_of_isLaunch {e : Event} (h : e.isLaunch) : calmEvent e := by
  cases e <;> first | rfl | cases h

theorem calm_of_deskEvent {e : Event} (h : Daemon.deskEvent e) : calmEvent e := by
  cases e <;> first | rfl | cases h

namespace ProcessMonitor

variable {K : Kernel} {w w' : World ProcessMonitor} {l : Label}

/-- Signals and causes come from requests to terminate and to kill. -/
theorem Step.calm (hstep : Step K l w w') (hterminate : ∀ j cause, l ≠ .terminate j cause)
    (hkill : ∀ j, l ≠ .kill j) :
    ∃ events, w'.log = w.log ++ events ∧ ∀ e ∈ events, calmEvent e := by
  cases hstep with
  | @idle _ e he =>
    refine ⟨[e], rfl, ?_⟩
    intro e' he'
    rw [List.mem_singleton] at he'
    subst he'
    cases e' <;> first | rfl | cases he
  | receive | finish | exited | stray | lost | settle | misuse | misstart | submit | dequeue =>
    exact ⟨_, rfl, by simp [calmEvent]⟩
  | garble | collect => exact ⟨[], (List.append_nil _).symm, by simp⟩
  | launchFailed hjob hqueued hlaunch =>
    refine ⟨_, rfl, ?_⟩
    intro e he
    simp only [List.mem_cons, List.mem_append, List.not_mem_nil, or_false] at he
    rcases he with rfl | he | rfl
    · rfl
    · exact calm_of_isLaunch (hlaunch.isLaunch e he)
    · rfl
  | abandoned hjob hqueued hlaunch hrest =>
    refine ⟨_, rfl, ?_⟩
    intro e he
    simp only [List.mem_cons, List.mem_append, List.not_mem_nil, or_false] at he
    rcases he with rfl | he | rfl | he | rfl
    · rfl
    · exact calm_of_isLaunch (hlaunch.isLaunch e he)
    · rfl
    · exact calm_of_isLaunch (hrest.isLaunch e (List.mem_append_right _ he))
    · rfl
  | started hjob hqueued hlaunch =>
    refine ⟨_, rfl, ?_⟩
    intro e he
    simp only [List.mem_cons, List.mem_append, List.not_mem_nil, or_false] at he
    rcases he with rfl | he | rfl | rfl | rfl | rfl | rfl
    · rfl
    · exact calm_of_isLaunch (hlaunch.isLaunch e he)
    all_goals rfl
  | terminate => exact absurd rfl (hterminate _ _)
  | kill => exact absurd rfl (hkill _)

end ProcessMonitor

/-! ## The steps of the monitor -/

section Steps

variable {K : Kernel} {w w' : World ProcessMonitor} {l : ProcessMonitor.Label}

theorem orderly_step (hstep : ProcessMonitor.Step K l w w') (hwf : Wf w.st) (hr : Recorded w)
    (hkill : ∀ j, l = .kill j → .SIGKILL ∉ (ledger w.log).signals j) (h : Orderly w.log) :
    Orderly w'.log := by
  have hqueue : ∀ {j job}, w.st.jobs.find j = some job → job.state = .queued →
      (ledger w.log).state j = some .queued := fun hjob hqueued => by
    rw [hr.state, hjob, Option.map_some, hqueued]
  cases hstep with
  | idle he =>
    refine h.quiet (List.forall_mem_singleton.mpr ?_)
    rename_i e
    cases e <;> first | rfl | cases he
  | receive | finish | exited | stray | lost | misuse | misstart =>
    exact h.quiet (by simp [quietEvent])
  | garble | collect => exact h
  | @settle _ j p job job' hactive hcomplete hjob hsettled =>
    have hsettles := settles_of_settledJob hsettled
    refine h.enter ((h.signals j).terminal hsettles.terminal) fun hterm => ?_
    rw [hr.state, hjob] at hterm
    obtain ⟨cause, hcause, hstate⟩ := hsettles.terminating (Option.some.inj hterm)
    refine ⟨cause, ?_, hstate⟩
    rw [hr.cause, hjob]
    exact hcause
  | @launchFailed _ j job events message hjob hqueued hlaunch =>
    have hquiet : ∀ e ∈ .starting j :: events, quietEvent e :=
      List.forall_mem_cons.mpr ⟨rfl, fun e he => quietEvent_of_isLaunch (hlaunch.isLaunch e he)⟩
    have hstate := (ledger_quietEvents hquiet w.log).1
    have hlog : w.log ++ .starting j :: (events ++ [.entered j .failed]) =
        w.log ++ (.starting j :: events) ++ [.entered j .failed] := by simp
    rw [hlog]
    exact (h.quiet hquiet).leaveQueue (by rw [hstate, hqueue hjob hqueued]) (Or.inl rfl)
  | @abandoned _ j job events rest tracked launched message hjob hqueued hlaunch hrest htracked =>
    have hquiet : ∀ e ∈ .starting j :: (events ++ .adopted j launched.pid launched.stdoutFd
        launched.stderrFd launched.startupErrorFd :: rest), quietEvent e := by
      have hevents := fun e he => quietEvent_of_isLaunch (hrest.isLaunch e he)
      obtain ⟨hevents, hrests⟩ := List.forall_mem_append.mp hevents
      exact List.forall_mem_cons.mpr ⟨rfl, List.forall_mem_append.mpr ⟨hevents,
        List.forall_mem_cons.mpr ⟨rfl, hrests⟩⟩⟩
    have hstate := (ledger_quietEvents hquiet w.log).1
    have hlog : w.log ++ .starting j :: (events ++ .adopted j launched.pid launched.stdoutFd
        launched.stderrFd launched.startupErrorFd :: (rest ++ [.entered j .failed])) =
        w.log ++ (.starting j :: (events ++ .adopted j launched.pid launched.stdoutFd
          launched.stderrFd launched.startupErrorFd :: rest)) ++ [.entered j .failed] := by simp
    rw [hlog]
    exact (h.quiet hquiet).leaveQueue (by rw [hstate, hqueue hjob hqueued]) (Or.inl rfl)
  | @started _ j job events launched hjob hqueued hlaunch hgroup hpid hfresh hdistinct =>
    have hquiet : ∀ e ∈ .starting j :: (events ++ [.adopted j launched.pid launched.stdoutFd
        launched.stderrFd launched.startupErrorFd, .registered launched.stdoutFd .readable,
        .registered launched.stderrFd .readable, .registered launched.startupErrorFd .readable]),
        quietEvent e := by
      refine List.forall_mem_cons.mpr ⟨rfl, List.forall_mem_append.mpr
        ⟨fun e he => quietEvent_of_isLaunch (hlaunch.isLaunch e he), by simp [quietEvent]⟩⟩
    have hstate := (ledger_quietEvents hquiet w.log).1
    have hlog : w.log ++ .starting j :: (events ++ [.adopted j launched.pid launched.stdoutFd
        launched.stderrFd launched.startupErrorFd, .registered launched.stdoutFd .readable,
        .registered launched.stderrFd .readable, .registered launched.startupErrorFd .readable,
        .entered j .running]) = w.log ++ (.starting j :: (events ++ [.adopted j launched.pid
          launched.stdoutFd launched.stderrFd launched.startupErrorFd,
          .registered launched.stdoutFd .readable, .registered launched.stderrFd .readable,
          .registered launched.startupErrorFd .readable])) ++ [.entered j .running] := by simp
    rw [hlog]
    exact (h.quiet hquiet).leaveQueue (by rw [hstate, hqueue hjob hqueued]) rfl
  | @terminate _ j p job cause hactive hjob hrunning =>
    have hstate : (ledger w.log).state j = some .running := by
      rw [hr.state, hjob, Option.map_some, hrunning]
    have hnone := h.signals j
    rw [hstate] at hnone
    have hledger := ledger_append w.log [.signalled j p.processGroupId .SIGTERM,
      .entered j .terminating, .blamed j cause]
    refine h.append (fun k => ?_) ?_
    · rw [hledger]
      show SignalsIn (update (ledger w.log).state j (some .terminating) k)
        (update (ledger w.log).signals j ((ledger w.log).signals j ++ [.SIGTERM]) k)
      by_cases hk : k = j
      · subst hk
        rw [update_self, update_self, show (ledger w.log).signals k = [] from hnone]
        exact Or.inl rfl
      · rw [update_of_ne hk, update_of_ne hk]
        exact h.signals k
    · have hgroup : (ledger w.log).group j = some p.processGroupId := by
        rw [hr.group hactive, hwf.group_eq hactive]
      have hcause : (ledger w.log).cause j = none := by
        rw [hr.cause, hjob]
        exact hwf.no_cause hjob (Or.inr hrunning)
      simp only [throughout_cons, throughout_nil, and_true]
      refine ⟨⟨hgroup, hstate, cause, [], rfl⟩, ?_, ?_, w.log, p.processGroupId, ?_⟩
      · intro hterm
        rw [ledger_concat] at hterm
        rw [show (ledger w.log).state j = some .terminating from hterm] at hstate
        cases hstate
      · rw [ledger_concat, ledger_concat]
        exact hcause
      · simp
  | @kill _ j p job hactive hjob hterminating =>
    have hstate : (ledger w.log).state j = some .terminating := by
      rw [hr.state, hjob, Option.map_some, hterminating]
    have hsignals := h.signals j
    rw [hstate] at hsignals
    refine h.append (fun k => ?_) ?_
    · rw [ledger_concat]
      show SignalsIn ((ledger w.log).state k)
        (update (ledger w.log).signals j ((ledger w.log).signals j ++ [.SIGKILL]) k)
      by_cases hk : k = j
      · subst hk
        rw [update_self, hstate]
        obtain hterm | hboth := hsignals
        · rw [hterm]
          exact Or.inr rfl
        · exact absurd (by rw [hboth]; simp) (hkill k rfl)
      · rw [update_of_ne hk]
        exact h.signals k
    · simp only [throughout_cons, throughout_nil, and_true]
      exact ⟨by rw [hr.group hactive, hwf.group_eq hactive], hstate⟩
  | @submit _ j spec hjob =>
    have hstate : (ledger w.log).state j = none := by rw [hr.state, hjob, Option.map_none]
    have hnone := h.signals j
    rw [hstate] at hnone
    refine h.append (fun k => ?_) (by simp [Disciplined])
    rw [ledger_concat]
    show SignalsIn (update (ledger w.log).state j (some .queued) k) ((ledger w.log).signals k)
    by_cases hk : k = j
    · subst hk
      rw [update_self]
      exact hnone
    · rw [update_of_ne hk]
      exact h.signals k
  | @dequeue _ j job hjob hqueued => exact h.leaveQueue (hqueue hjob hqueued) (Or.inl rfl)

/-- A signal that has been sent was sent before these events or by one of them. -/
theorem mem_signals_append {log events : List Event} {j : JobId} {signal : Signal}
    (h : signal ∈ (ledger (log ++ events)).signals j) :
    signal ∈ (ledger log).signals j ∨ ∃ group, .signalled j group signal ∈ events := by
  induction events generalizing log with
  | nil => exact Or.inl (by simpa using h)
  | cons e events ih =>
    rw [show log ++ e :: events = log ++ [e] ++ events by simp] at h
    obtain h | ⟨group, h⟩ := ih h
    · rw [ledger_concat] at h
      cases e with
      | signalled k group signal' =>
        have h : signal ∈ update (ledger log).signals k ((ledger log).signals k ++ [signal']) j := h
        by_cases hj : j = k
        · subst hj
          rw [update_self] at h
          obtain h | h := List.mem_append.mp h
          · exact Or.inl h
          · rw [List.mem_singleton] at h
            exact Or.inr ⟨group, by simp [h]⟩
        · rw [update_of_ne hj] at h
          exact Or.inl h
      | _ => exact Or.inl h
    · exact Or.inr ⟨group, List.mem_cons_of_mem _ h⟩

/-- Only a step that sends SIGKILL to a job adds it to the job's signals. -/
theorem killed_of_step (hstep : ProcessMonitor.Step K l w w') {j : JobId}
    (h : .SIGKILL ∈ (ledger w'.log).signals j) :
    .SIGKILL ∈ (ledger w.log).signals j ∨ l = .kill j := by
  have hlaunch : ∀ {events : List Event}, (∀ e ∈ events, e.isLaunch) →
      ∀ group, .signalled j group .SIGKILL ∉ events := fun hevents _ hmem => by
    cases hevents _ hmem
  have happend : ∀ {events : List Event}, .SIGKILL ∈ (ledger (w.log ++ events)).signals j →
      (∀ group, .signalled j group .SIGKILL ∉ events) → .SIGKILL ∈ (ledger w.log).signals j :=
    fun h hnot => (mem_signals_append h).resolve_right fun ⟨group, hmem⟩ => hnot group hmem
  cases hstep with
  | @idle _ e he =>
    refine Or.inl (happend h fun group hmem => ?_)
    rw [List.mem_singleton] at hmem
    subst hmem
    cases he
  | receive | finish | exited | stray | lost | misuse | misstart | settle | terminate | submit
    | dequeue =>
    exact Or.inl (happend h (by simp))
  | garble | collect => exact Or.inl h
  | launchFailed hjob hqueued hevents =>
    exact Or.inl (happend h (by simp [hlaunch hevents.isLaunch]))
  | @abandoned _ k job events rest tracked launched message hjob hqueued hevents hrest =>
    have hboth := hlaunch hrest.isLaunch
    refine Or.inl (happend h fun group hmem => hboth group ?_)
    simpa using hmem
  | started hjob hqueued hevents =>
    exact Or.inl (happend h (by simp [hlaunch hevents.isLaunch]))
  | @kill _ k p job hactive hjob hterminating =>
    obtain h | ⟨group, hmem⟩ := mem_signals_append h
    · exact Or.inl h
    · right
      simp only [List.mem_singleton, Event.signalled.injEq] at hmem
      rw [hmem.1]

end Steps

/-! ## The steps of the daemon -/

namespace Daemon

variable {K : Kernel} {n : ℕ} {m m' : Moment} {l : Label}

/-- A job that has got SIGKILL has no deadline, and none of its is being acted upon. -/
def Spent (m : Moment) : Prop :=
  ∀ j, .SIGKILL ∈ (ledger m.world.log).signals j →
    j ∉ m.due ∧ m.world.st.timeouts.activeGenerations.find j = none

theorem killed_of_deskEvents {log events : List Event} (hevents : ∀ e ∈ events, deskEvent e)
    {j : JobId} (h : .SIGKILL ∈ (ledger (log ++ events)).signals j) :
    .SIGKILL ∈ (ledger log).signals j := by
  have hquiet := fun e he => quietEvent_of_deskEvent (hevents e he)
  rwa [(ledger_quietEvents hquiet log).2.1] at h

theorem Label.eq_of_invokes_kill {j : JobId} (h : l.Invokes (.kill j)) : l = .kill j := by
  cases l with
  | kill k =>
    have h : ProcessMonitor.Label.kill j = .kill k := h
    rw [ProcessMonitor.Label.kill.inj h]
  | misfire k => obtain h | h := h <;> cases h
  | terminate k =>
    obtain ⟨_, h⟩ := h
    cases h
  | _ => cases h

/-- Only `kill` sends SIGKILL. -/
theorem killed_of_daemonStep (hstep : Step K l m m') {j : JobId}
    (h : .SIGKILL ∈ (ledger m'.world.log).signals j) :
    .SIGKILL ∈ (ledger m.world.log).signals j ∨ l = .kill j := by
  obtain ⟨v, events, hv, hm', hevents⟩ := hstep.monitor
  have hlog : m'.world.log = v.log ++ events := congrArg World.log hm'
  rw [hlog] at h
  replace h := killed_of_deskEvents hevents h
  obtain rfl | ⟨l', hl', hstep'⟩ := hv
  · exact Or.inl h
  · obtain h | rfl := killed_of_step hstep' h
    · exact Or.inl h
    · exact Or.inr (Label.eq_of_invokes_kill hl')

theorem orderly_daemonStep (hstep : Step K l m m') (h : Sound n m) (hspent : Spent m)
    (ho : Orderly m.world.log) : Orderly m'.world.log := by
  have hkill : ∀ j, l = .kill j → j ∈ m.due := by
    rintro j rfl
    cases hstep
    exact List.mem_cons_self
  obtain ⟨v, events, hv, hm', hevents⟩ := hstep.monitor
  have hlog : m'.world.log = v.log ++ events := congrArg World.log hm'
  rw [hlog]
  refine Orderly.quiet ?_ fun e he => quietEvent_of_deskEvent (hevents e he)
  obtain rfl | ⟨l', hl', hstep'⟩ := hv
  · exact ho
  · refine orderly_step hstep' h.wf h.recorded (fun j hj hkilled => ?_) ho
    subst hj
    exact (hspent j hkilled).1 (hkill j (Label.eq_of_invokes_kill hl'))

/-- A job that comes due had a deadline. -/
theorem off_of_expireAt {t : TimeoutManager} {f : DeadlineMap JobId ℤ} (h : t.Refines f) (now : ℤ)
    {j : JobId} (hj : t.activeGenerations.find j = none) :
    j ∉ (t.expireAt now).2 ∧
      (t.expireAt now).1.discardStaleEntries.activeGenerations.find j = none := by
  have hnone : f j = none := by
    rw [← Option.not_isSome_iff_eq_none, ← h.isSome_iff, hj]
    simp
  obtain ⟨hrefines, hdue⟩ := h.expireAt now
  refine ⟨fun hmem => ?_, ?_⟩
  · obtain ⟨d, hd, -⟩ := (hdue.mem_iff j).mp hmem
    rw [hnone] at hd
    cases hd
  · rw [← Option.not_isSome_iff_eq_none, hrefines.discardStaleEntries.isSome_iff]
    rw [Option.isSome_iff_exists]
    rintro ⟨d, hd⟩
    rw [(DeadlineMap.expire_eq_some_iff.mp hd).1] at hnone
    cases hnone

theorem spent_step (hstep : Step K l m m') (h : Sound n m) (ho : Orderly m.world.log)
    (hspent : Spent m) : Spent m' := by
  intro j hj
  obtain hold | rfl := killed_of_daemonStep hstep hj
  · obtain ⟨hdue, hoff⟩ := hspent j hold
    obtain ⟨f, hf⟩ := h.timed.refines
    have hactive : ∀ {s}, m.world.st.stateOf j = some s → s ≠ .queued ∧ s ≠ .running := by
      intro s hs
      have hsignals := ho.signals j
      have hstate : (ledger m.world.log).state j = some s := (h.recorded.state j).trans hs
      rw [hstate] at hsignals
      constructor
      · rintro rfl
        rw [show (ledger m.world.log).signals j = [] from hsignals] at hold
        cases hold
      · rintro rfl
        rw [show (ledger m.world.log).signals j = [] from hsignals] at hold
        cases hold
    cases hstep with
    | attend | take | accept | refuse | hangUp | tend | rearm | answer | watch | submit | dequeue
      | misfire => exact ⟨hdue, hoff⟩
    | @run w v k rest job timeouts events hslot hwaiting hstep hjob htimed hevents =>
      refine ⟨hdue, ?_⟩
      obtain ⟨rfl, -⟩ | ⟨timeout, -, hgen, rfl⟩ := htimed
      · exact hoff
      · have hid : job.id = k := h.wf.id_eq hjob
        show (TimeoutManager.discardStaleEntries _).activeGenerations.find j = none
        rw [activeGenerations_insert, hid, Table.find_set_of_ne]
        · exact hoff
        · rintro rfl
          refine (hactive (s := .queued) ?_).1 rfl
          exact (h.slots.takeNext h.wf hwaiting).2.2.2.1
    | release => exact ⟨hdue, by simp only [find_cancel, hoff, ite_self]⟩
    | @expire w now events hnow hread hevents => exact off_of_expireAt hf now hoff
    | skip | spare | kill => exact ⟨fun hmem => hdue (List.mem_cons_of_mem _ hmem), hoff⟩
    | @terminate w v k cause due rest hdue' hstep =>
      have hne : j ≠ k := by
        rintro rfl
        cases hstep with
        | terminate hactive' hjob hrunning =>
          exact (hactive (stateOf_of_find hjob)).2 hrunning
      refine ⟨?_, by simp only [find_cancel, hoff, ite_self]⟩
      obtain ⟨rfl, -⟩ | ⟨rfl, rfl, -⟩ := hdue'
      · exact hdue
      · simpa using hne
    | @arm w k rest job deadline events hjob hterminating hdeadline hgen hevents =>
      refine ⟨fun hmem => hdue (List.mem_cons_of_mem _ hmem), ?_⟩
      have hne : j ≠ k := fun hjk => hdue (hjk ▸ List.mem_cons_self)
      show (TimeoutManager.discardStaleEntries _).activeGenerations.find j = none
      rw [activeGenerations_insert, Table.find_set_of_ne _ _ hne]
      exact hoff
    | @fumble w k rest deadline events hgen hevents =>
      refine ⟨hdue, ?_⟩
      have hne : j ≠ k := fun hjk => hdue (hjk ▸ List.mem_cons_self)
      simp only [find_cancel, activeGenerations_insert, if_neg hne]
      rw [Table.find_set_of_ne _ _ hne]
      exact hoff
  · cases hstep with
    | kill hstep =>
      have hnodup := h.timed.due_nodup
      exact ⟨(List.nodup_cons.mp hnodup).1, h.timed.due_off j List.mem_cons_self⟩

theorem spent_initial (s : Setup) : Spent ⟨s.initial, []⟩ := fun j hj => by cases hj

theorem orderly_initial (s : Setup) : Orderly s.initial.log :=
  orderly_nil.quiet (by simp [quietEvent])

end Daemon

/-! ## Whole runs -/

section Runs

variable {K : Kernel} {s : Setup} {w : World Daemon}

open Daemon

theorem Ran.orderly (h : Ran K s w) : Orderly w.log ∧ ∃ due, Sound s.maxRunning ⟨w, due⟩ := by
  obtain ⟨due, hsound, horderly, -⟩ := h.invariant
    (P := fun m => Orderly m.world.log ∧ Spent m) ⟨orderly_initial s, spent_initial s⟩
    fun l m m' hs hstep ⟨ho, hspent⟩ =>
      ⟨orderly_daemonStep hstep hs hspent ho, spent_step hstep hs ho hspent⟩
  exact ⟨horderly, due, hsound⟩

/-- A cause once recorded stays. -/
theorem cause_append {before events : List Event}
    (h : Throughout Disciplined before events) {j : JobId} {cause : TerminationCause}
    (hcause : (ledger before).cause j = some cause) :
    (ledger (before ++ events)).cause j = some cause := by
  induction events generalizing before with
  | nil => rwa [List.append_nil]
  | cons e events ih =>
    obtain ⟨he, hrest⟩ := throughout_cons.mp h
    have hnext : (ledger (before ++ [e])).cause j = some cause := by
      rw [ledger_concat]
      cases e with
      | blamed k cause' =>
        show update (ledger before).cause k (some cause') j = some cause
        rw [update_of_ne]
        · exact hcause
        · rintro rfl
          rw [he.1] at hcause
          cases hcause
      | _ => exact hcause
    have htail := ih hrest hnext
    rwa [List.append_assoc, List.singleton_append] at htail

/-- The signals of a job are none, SIGTERM, or SIGTERM and then SIGKILL, each sent to its own group
and in the state for it; its cause is recorded once, right after SIGTERM, stays, and decides the state
it ends in. -/
theorem signalDiscipline (h : Ran K s w) : Throughout Disciplined [] w.log ∧ ∀ j,
    ((ledger w.log).signals j = [] ∨ (ledger w.log).signals j = [.SIGTERM] ∨
      (ledger w.log).signals j = [.SIGTERM, .SIGKILL]) ∧
    (∀ job, w.st.jobs.find j = some job → job.terminationCause = (ledger w.log).cause j) ∧
    ∀ before after cause, w.log = before ++ after → (ledger before).cause j = some cause →
      (ledger w.log).cause j = some cause := by
  obtain ⟨horderly, due, hsound⟩ := h.orderly
  refine ⟨horderly.disciplined, fun j => ⟨(horderly.signals j).cases, fun job hjob => ?_, ?_⟩⟩
  · have hcause : (ledger w.log).cause j = (w.st.jobs.find j).bind Job.terminationCause :=
      hsound.recorded.cause j
    rw [hcause, hjob]
    rfl
  · intro before after cause hlog hcause
    have hdisciplined := horderly.disciplined
    rw [hlog] at hdisciplined ⊢
    have hafter := hdisciplined.right
    rw [List.nil_append] at hafter
    exact cause_append hafter hcause

/-- A client submits a job and cancels it, and the grace deadline comes. -/
def cancelScript : Kernel :=
  { Kernel.quiet with now := fun log => 1000000000 * rounds log }.withClient
    [[(3, { epollin := true })], [(7, { epollin := true })], [(7, { epollin := true })],
      [(6, { epollin := true })]]
    [[], submitPayload 0 [text "/a"], appendJobId kCancelCommand 1]

theorem signalDiscipline_run : Throughout Disciplined [] (after cancelScript oneSlot 4).log ∧
    (ledger (after cancelScript oneSlot 4).log).signals 1 = [.SIGTERM, .SIGKILL] :=
  ⟨(signalDiscipline (ran_after (m := 3) (by decide +kernel))).1, by decide +kernel⟩

end Runs

end Runnerd
