import Runnerd.JobIds

/-!
# The order of starts

How many jobs run at a time, and in which order they are started, over whole runs. The queue is
sorted by id and holds the queued jobs; every other known job was started or cancelled in the queue,
so a job that is taken off the front has no smaller id left before it.
-/

namespace Runnerd

open Effect Effect.Prog Steps Trace
open ProcessMonitor (Wf)

/-! ## Histories -/

/-- The jobs passed to `ProcessMonitor::startJob`, in order. -/
def startsOf (log : List Event) : List JobId :=
  log.filterMap fun e =>
    match e with
    | .starting j => some j
    | _ => none

theorem startsOf_append (log events : List Event) :
    startsOf (log ++ events) = startsOf log ++ startsOf events := List.filterMap_append

theorem startsOf_of_forall {events : List Event} (h : ∀ e ∈ events, ∀ j, e ≠ .starting j) :
    startsOf events = [] := by
  refine List.filterMap_eq_nil_iff.mpr fun e he => ?_
  cases e with
  | starting j => exact absurd rfl (h _ he j)
  | _ => rfl

theorem startsOf_starting (js : List JobId) : startsOf (js.map .starting) = js := by
  unfold startsOf
  rw [List.filterMap_map]
  exact List.filterMap_some

theorem mem_startsOf {log : List Event} {j : JobId} : j ∈ startsOf log ↔ .starting j ∈ log := by
  unfold startsOf
  rw [List.mem_filterMap]
  constructor
  · rintro ⟨e, he, hj⟩
    cases e with
    | starting k =>
      obtain rfl := Option.some.inj hj
      exact he
    | _ => cases hj
  · exact fun h => ⟨_, h, rfl⟩

/-- Events that give a job a state. -/
def moves : Event → Bool
  | .submitted _ | .entered _ _ => true
  | _ => false

theorem state_of_not_moves {events : List Event} (h : events.countP moves = 0) (log : List Event) :
    (ledger (log ++ events)).state = (ledger log).state := by
  induction events generalizing log with
  | nil => rw [List.append_nil]
  | cons e events ih =>
    rw [List.countP_eq_zero] at h
    obtain ⟨he, hrest⟩ := List.forall_mem_cons.mp h
    have htail := ih (List.countP_eq_zero.mpr hrest) (log ++ [e])
    rw [List.append_assoc, List.singleton_append, ledger_concat] at htail
    rw [htail]
    cases e <;> first | rfl | exact absurd rfl he

/-- Where one event at most gives a job a state, the states are those from before or those from
after all along. -/
theorem state_of_one_move {log p q : List Event} (h : (p ++ q).countP moves ≤ 1) :
    (ledger (log ++ p)).state = (ledger log).state ∨
      (ledger (log ++ p)).state = (ledger (log ++ (p ++ q))).state := by
  rw [List.countP_append] at h
  obtain hp | hq : p.countP moves = 0 ∨ q.countP moves = 0 := by omega
  · exact Or.inl (state_of_not_moves hp log)
  · rw [← List.append_assoc]
    exact Or.inr (state_of_not_moves hq (log ++ p)).symm

theorem cancelledWhileQueued_concat (log : List Event) (e : Event) (j : JobId) :
    Daemon.CancelledWhileQueued (log ++ [e]) j ↔ Daemon.CancelledWhileQueued log j ∨
      e = .entered j .cancelled ∧ (ledger log).state j = some .queued := by
  constructor
  · rintro ⟨pre, post, heq, hstate⟩
    induction post using List.reverseRecOn with
    | nil =>
      obtain ⟨rfl, he⟩ := List.append_inj' heq rfl
      exact Or.inr ⟨(List.cons.inj he).1, hstate⟩
    | append_singleton post last =>
      rw [← List.cons_append, ← List.append_assoc] at heq
      obtain ⟨rfl, -⟩ := List.append_inj' heq rfl
      exact Or.inl ⟨pre, post, rfl, hstate⟩
  · rintro (⟨pre, post, rfl, hstate⟩ | ⟨rfl, hstate⟩)
    · exact ⟨pre, post ++ [e], by simp, hstate⟩
    · exact ⟨log, [], rfl, hstate⟩

theorem mem_of_cancelledWhileQueued {log : List Event} {j : JobId}
    (h : Daemon.CancelledWhileQueued log j) : .entered j .cancelled ∈ log := by
  obtain ⟨pre, post, rfl, -⟩ := h
  exact List.mem_append_right _ List.mem_cons_self

theorem cancelledWhileQueued_append {events : List Event} {j : JobId}
    (h : .entered j .cancelled ∉ events) (log : List Event) :
    Daemon.CancelledWhileQueued (log ++ events) j ↔ Daemon.CancelledWhileQueued log j := by
  induction events generalizing log with
  | nil => rw [List.append_nil]
  | cons e events ih =>
    rw [List.mem_cons, not_or] at h
    obtain ⟨he, hrest⟩ := h
    have htail := ih hrest (log ++ [e])
    rw [List.append_assoc, List.singleton_append] at htail
    rw [htail, cancelledWhileQueued_concat, or_iff_left]
    exact fun hmem => he hmem.1.symm

/-! ## Steps of the monitor -/

namespace ProcessMonitor

variable {K : Kernel} {w w' : World ProcessMonitor} {l : Label}

/-- The job that a step starts. -/
def Label.begins : Label → List JobId
  | .misstart j | .launchFailed j | .abandoned j | .started j => [j]
  | _ => []

theorem startsOf_launch {events : List Event} (h : ∀ e ∈ events, e.isLaunch) :
    startsOf events = [] := startsOf_of_forall fun e he j heq => by
  have := h e he
  rw [heq] at this
  cases this

theorem countP_moves_launch {events : List Event} (h : ∀ e ∈ events, e.isLaunch) :
    events.countP moves = 0 := List.countP_eq_zero.mpr fun e he hmoves => by
  have := h e he
  cases e <;> first | (cases this; done) | cases hmoves

/-- What a step adds to the history: the start first, and one new state at most. -/
theorem Step.starts (hstep : Step K l w w') : ∃ more,
    w'.log = w.log ++ (l.begins.map .starting ++ more) ∧ startsOf more = [] ∧
      more.countP moves ≤ 1 := by
  cases hstep with
  | @idle _ e he =>
    refine ⟨[e], rfl, ?_⟩
    cases e <;> first | (cases he; done) | exact ⟨rfl, by simp [moves]⟩
  | garble | collect => exact ⟨[], (List.append_nil _).symm, rfl, by simp⟩
  | @launchFailed _ j job events message hjob hqueued hlaunch hmessage =>
    refine ⟨events ++ [.entered j .failed], rfl, ?_, ?_⟩
    · rw [startsOf_append, startsOf_launch hlaunch.isLaunch]
      rfl
    · rw [List.countP_append, countP_moves_launch hlaunch.isLaunch]
      simp [moves]
  | @abandoned _ j job events rest tracked launched message hjob hqueued hlaunch hrest htracked =>
    have hrests := fun e he => hrest.isLaunch e (List.mem_append_right events he)
    refine ⟨events ++ .adopted j launched.pid launched.stdoutFd launched.stderrFd
      launched.startupErrorFd :: (rest ++ [.entered j .failed]), rfl, ?_, ?_⟩
    · rw [startsOf_append, startsOf_launch hlaunch.isLaunch]
      show startsOf (rest ++ [.entered j .failed]) = []
      rw [startsOf_append, startsOf_launch hrests]
      rfl
    · rw [List.countP_append, countP_moves_launch hlaunch.isLaunch, List.countP_cons,
        List.countP_append, countP_moves_launch hrests]
      simp [moves]
  | @started _ j job events launched hjob hqueued hlaunch hgroup hpid hfresh hdistinct =>
    refine ⟨events ++ [.adopted j launched.pid launched.stdoutFd launched.stderrFd
      launched.startupErrorFd, .registered launched.stdoutFd .readable,
      .registered launched.stderrFd .readable, .registered launched.startupErrorFd .readable,
      .entered j .running], rfl, ?_, ?_⟩
    · rw [startsOf_append, startsOf_launch hlaunch.isLaunch]
      rfl
    · rw [List.countP_append, countP_moves_launch hlaunch.isLaunch]
      simp [moves]
  | terminate => exact ⟨_, rfl, rfl, by simp [moves, List.countP_cons]⟩
  | _ => exact ⟨_, rfl, rfl, by simp [moves]⟩

/-- Only a queued job that the daemon cancels is cancelled while queued. -/
theorem Step.dequeues (hstep : Step K l w w') (hwf : Wf w.st) (hrec : Recorded w) (k : JobId) :
    Daemon.CancelledWhileQueued w'.log k ↔
      Daemon.CancelledWhileQueued w.log k ∨ l = .dequeue k := by
  have hquiet : ∀ {events : List Event}, .entered k .cancelled ∉ events → l ≠ .dequeue k →
      (Daemon.CancelledWhileQueued (w.log ++ events) k ↔
        Daemon.CancelledWhileQueued w.log k ∨ l = .dequeue k) := fun hevents hl => by
    rw [cancelledWhileQueued_append hevents, or_iff_left hl]
  have hlaunches : ∀ {events : List Event}, (∀ e ∈ events, e.isLaunch) →
      .entered k .cancelled ∉ events := fun hevents hmem => by
    have := hevents _ hmem
    cases this
  cases hstep with
  | @idle _ e he =>
    refine hquiet ?_ (by simp)
    cases e <;> first | (cases he; done) | simp
  | garble | collect => simp
  | @settle _ j p job job' hactive hcomplete hjob hsettled =>
    rw [cancelledWhileQueued_concat, or_iff_left (by simp : Label.settle j ≠ .dequeue k)]
    refine or_iff_left ?_
    rintro ⟨heq, hqueued⟩
    obtain ⟨rfl, -⟩ := Event.entered.inj heq
    -- the settled job was active
    have hstate := hwf.isActive hjob hactive
    rw [hrec.state, hjob] at hqueued
    rw [Option.some.inj hqueued] at hstate
    cases hstate
  | @launchFailed _ j job events message hjob hqueued hlaunch hmessage =>
    exact hquiet (by simp [hlaunches hlaunch.isLaunch]) (by simp)
  | @abandoned _ j job events rest tracked launched message hjob hqueued hlaunch hrest htracked =>
    have hrests := fun e he => hrest.isLaunch e (List.mem_append_right events he)
    exact hquiet (by simp [hlaunches hlaunch.isLaunch, hlaunches hrests]) (by simp)
  | @started _ j job events launched hjob hqueued hlaunch hgroup hpid hfresh hdistinct =>
    exact hquiet (by simp [hlaunches hlaunch.isLaunch]) (by simp)
  | @dequeue _ j job hjob hqueued =>
    rw [cancelledWhileQueued_concat]
    refine or_congr_right ⟨fun h => ?_, fun h => ?_⟩
    · obtain ⟨rfl, -⟩ := Event.entered.inj h.1
      rfl
    · obtain rfl := Label.dequeue.inj h
      refine ⟨rfl, ?_⟩
      rw [hrec.state, hjob, Option.map_some, hqueued]
  | _ => exact hquiet (by simp) (by simp)

end ProcessMonitor

/-! ## Steps of the daemon -/

namespace Daemon

variable {K : Kernel} {n : ℕ} {l : Label} {m m' : Moment}

/-- The job that a step starts. -/
def Label.begins : Label → List JobId
  | .misfire j | .run j => [j]
  | _ => []

theorem Label.begins_of_invokes {l' : ProcessMonitor.Label} (h : l.Invokes l') :
    l'.begins = l.begins := by
  cases l with
  | watch =>
    have hwatches : l'.watches = true := h
    cases l' <;> first | rfl | cases hwatches
  | misfire => obtain rfl | rfl := h <;> rfl
  | terminate =>
    obtain ⟨cause, rfl⟩ := h
    rfl
  | submit | dequeue | run | release | kill =>
    obtain rfl : l' = _ := h
    rfl
  | _ => cases h

/-- What a step does to the queue. -/
inductive Queues (d : Daemon) : Label → Daemon → Prop where
  | keep {l d'} (hwaiting : d'.scheduler.waitingJobs = d.scheduler.waitingJobs)
      (hbegins : l.begins = []) (hl : ∀ j, l ≠ .submit j ∧ l ≠ .dequeue j) : Queues d l d'
  | submit {d'} (hnone : d.stateOf d.nextJobId = none) (hid : d.nextJobId ≠ 0)
      (hwaiting : d'.scheduler.waitingJobs = d.scheduler.waitingJobs ++ [d.nextJobId]) :
      Queues d (.submit d.nextJobId) d'
  | dequeue {j d'} (hqueued : d.stateOf j = some .queued)
      (hwaiting : d'.scheduler.waitingJobs = d.scheduler.waitingJobs.erase j) :
      Queues d (.dequeue j) d'
  | start {j l d'} (hwaiting : d.scheduler.waitingJobs = j :: d'.scheduler.waitingJobs)
      (hbegins : l.begins = [j]) (hl : ∀ j, l ≠ .submit j ∧ l ≠ .dequeue j) : Queues d l d'

theorem Step.queues (hstep : Step K l m m') : Queues m.world.st l m'.world.st := by
  cases hstep with
  | @submit w due spec hid hjob htimeout =>
    exact .submit (congrArg (Option.map Job.state) hjob) hid rfl
  | @dequeue w due v j hstep =>
    cases hstep with
    | dequeue hjob hqueued =>
    exact .dequeue ((stateOf_of_find hjob).trans (congrArg some hqueued)) rfl
  | misfire hl hslot hwaiting hstep => exact .start hwaiting rfl (by simp)
  | run hslot hwaiting hstep hjob htimed hevents => exact .start hwaiting rfl (by simp)
  | _ => exact .keep rfl rfl (by simp)

theorem startsOf_deskEvents {events : List Event} (h : ∀ e ∈ events, deskEvent e) :
    startsOf events = [] := startsOf_of_forall fun e he j heq => by
  have := h e he
  rw [heq] at this
  cases this

theorem countP_moves_deskEvents {events : List Event} (h : ∀ e ∈ events, deskEvent e) :
    events.countP moves = 0 := List.countP_eq_zero.mpr fun e he hmoves => by
  have := h e he
  cases e <;> first | (cases this; done) | cases hmoves

/-- A step that invokes no step of the monitor starts nothing. -/
theorem Label.begins_of_idle (h : ∀ l', ¬ l.Invokes l') : l.begins = [] := by
  cases l with
  | misfire j => exact absurd (Or.inl rfl) (h (.launchFailed j))
  | run j => exact absurd rfl (h (.started j))
  | _ => rfl

theorem Label.eq_of_invokes_dequeue {j : JobId} (h : l.Invokes (.dequeue j)) : l = .dequeue j := by
  cases l with
  | dequeue k =>
    obtain rfl := ProcessMonitor.Label.dequeue.inj h
    rfl
  | misfire => obtain h | h := h <;> cases h
  | terminate =>
    obtain ⟨cause, h⟩ := h
    cases h
  | _ => cases h

/-- What a step adds to the history: the start first, and one new state at most. -/
theorem Step.starts (hstep : Step K l m m') : ∃ more,
    m'.world.log = m.world.log ++ (l.begins.map .starting ++ more) ∧ startsOf more = [] ∧
      more.countP moves ≤ 1 := by
  obtain ⟨v, events, hv, hm', hevents⟩ := hstep.invokes
  have hlog : m'.world.log = v.log ++ events := congrArg World.log hm'
  have hmoves := countP_moves_deskEvents hevents
  obtain ⟨rfl, hidle⟩ | ⟨l', hinvokes, hv⟩ := hv
  · refine ⟨events, ?_, startsOf_deskEvents hevents, by omega⟩
    rw [hlog, Label.begins_of_idle hidle]
    rfl
  · obtain ⟨more, hmore, hstarts, hmore'⟩ := hv.starts
    refine ⟨more ++ events, ?_, ?_, ?_⟩
    · rw [hlog, hmore, Label.begins_of_invokes hinvokes]
      simp only [List.append_assoc]
      rfl
    · rw [startsOf_append, hstarts, startsOf_deskEvents hevents]
      rfl
    · rw [List.countP_append, hmoves]
      exact hmore'

/-- Only a step that takes a job out of the queue cancels it there. -/
theorem Step.dequeues (hstep : Step K l m m') (hsound : Sound n m) (k : JobId) :
    CancelledWhileQueued m'.world.log k ↔ CancelledWhileQueued m.world.log k ∨ l = .dequeue k := by
  obtain ⟨v, events, hv, hm', hevents⟩ := hstep.invokes
  have hlog : m'.world.log = v.log ++ events := congrArg World.log hm'
  have hquiet : .entered k .cancelled ∉ events := fun hmem => by
    have := hevents _ hmem
    cases this
  rw [hlog, cancelledWhileQueued_append hquiet]
  obtain ⟨rfl, hidle⟩ | ⟨l', hinvokes, hv⟩ := hv
  · refine (or_iff_left ?_).symm
    rintro rfl
    exact hidle _ rfl
  · rw [hv.dequeues hsound.wf hsound.recorded]
    refine or_congr_right ⟨?_, ?_⟩
    · rintro rfl
      exact Label.eq_of_invokes_dequeue hinvokes
    · rintro rfl
      exact hinvokes

/-! ## Fair moments -/

/-- When a job is started, every smaller one has been started, or cancelled in the queue. -/
def FirstCome (before : List Event) (e : Event) (_after : List Event) : Prop :=
  ∀ j, e = .starting j → ∀ k, 0 < k → k < j →
    .starting k ∈ before ∨ CancelledWhileQueued before k

/-- The starts so far, and the jobs that are still to be started. -/
structure Fair (w : World Daemon) : Prop where
  increasing : (startsOf w.log).Pairwise (· < ·)
  ahead : ∀ j ∈ startsOf w.log, ∀ k ∈ w.st.scheduler.waitingJobs, j < k
  known : ∀ j, j ∈ startsOf w.log ∨ CancelledWhileQueued w.log j → (w.st.stateOf j).isSome
  settled : ∀ j, (w.st.stateOf j).isSome → j ∈ w.st.scheduler.waitingJobs ∨
    j ∈ startsOf w.log ∨ CancelledWhileQueued w.log j
  kept : ∀ j, CancelledWhileQueued w.log j →
    j ∉ w.st.scheduler.waitingJobs ∧ j ∉ startsOf w.log
  firstCome : Throughout FirstCome [] w.log

theorem not_cancelledWhileQueued_initial (s : Setup) (j : JobId) :
    ¬ CancelledWhileQueued s.initial.log j := fun h => by
  have hmem := mem_of_cancelledWhileQueued h
  simp [Setup.initial] at hmem

theorem fair_initial (s : Setup) : Fair s.initial where
  increasing := List.Pairwise.nil
  ahead j hj := by cases hj
  known j hj := by
    obtain hj | hj := hj
    · cases hj
    · exact absurd hj (not_cancelledWhileQueued_initial s j)
  settled j hj := by cases hj
  kept j hj := absurd hj (not_cancelledWhileQueued_initial s j)
  firstCome := by simp [Setup.initial, FirstCome]

/-- Only a submission makes a job known. -/
theorem Step.known_iff (hstep : Step K l m m') (hwf : Wf m.world.st.monitor) (j : JobId) :
    (m'.world.st.stateOf j).isSome ↔ (m.world.st.stateOf j).isSome ∨ l = .submit j := by
  unfold stateOf
  rw [Option.isSome_map, Option.isSome_map]
  constructor
  · obtain heq | ⟨job, _, hjob, _⟩ | ⟨_, hl, _⟩ := hstep.rewrites hwf j
    · exact fun h => Or.inl (heq ▸ h)
    · exact fun _ => Or.inl (by rw [hjob]; rfl)
    · exact fun _ => Or.inr hl
  · rintro (h | rfl)
    · obtain heq | ⟨_, job', _, hjob', _⟩ | ⟨_, _, _, hnew⟩ := hstep.rewrites hwf j
      · rw [heq, h]
      · rw [hjob']
        rfl
      · rw [hnew]
        rfl
    · cases hstep with
      | submit =>
        rw [Option.isSome_iff_exists]
        exact ⟨_, Table.find_set_self _ _ _⟩

/-- A start is the first come of those that wait. -/
theorem Fair.first {w : World Daemon} (h : Fair w) (hslots : Slots n w.st) {j : JobId}
    {rest : List JobId} (hwaiting : w.st.scheduler.waitingJobs = j :: rest) {k : JobId}
    (hpos : 0 < k) (hk : k < j) : k ∈ startsOf w.log ∨ CancelledWhileQueued w.log k := by
  have hsorted : (j :: rest).Pairwise (· < ·) := hwaiting ▸ hslots.sorted
  have hj : (w.st.stateOf j).isSome := by
    rw [(hslots.waiting j).mp (by rw [hwaiting]; exact List.mem_cons_self)]
    rfl
  have hlimit := (hslots.known j).mp hj
  refine (h.settled k ((hslots.known k).mpr ⟨hpos, hk.trans hlimit.2⟩)).resolve_left fun hmem => ?_
  rw [hwaiting, List.mem_cons] at hmem
  obtain rfl | hmem := hmem
  · exact lt_irrefl _ hk
  · exact lt_asymm hk (List.rel_of_pairwise_cons hsorted hmem)

theorem Step.firstCome (hstep : Step K l m m') (hsound : Sound n m) (h : Fair m.world) :
    Throughout FirstCome [] m'.world.log := by
  obtain ⟨more, hlog, hmore, -⟩ := hstep.starts
  rw [hlog]
  refine h.firstCome.append (fun _ _ _ _ h => h) ?_
  rw [List.nil_append]
  have hrest : ∀ before, Throughout FirstCome before more := fun before =>
    throughout_of_forall fun e he pre post j hj => by
      have hmem : j ∈ startsOf more := mem_startsOf.mpr (hj ▸ he)
      rw [hmore] at hmem
      cases hmem
  cases hstep.queues with
  | keep hwaiting hbegins =>
    rw [hbegins]
    exact hrest _
  | submit | dequeue => exact hrest _
  | start hwaiting hbegins =>
    rw [hbegins]
    refine throughout_cons.mpr ⟨fun j hj k hpos hk => ?_, hrest _⟩
    obtain rfl := Event.starting.inj hj
    exact (h.first hsound.slots hwaiting hpos hk).imp_left mem_startsOf.mp

theorem Step.fair (hstep : Step K l m m') (hsound : Sound n m) (h : Fair m.world) :
    Fair m'.world := by
  have hfirst := hstep.firstCome hsound h
  have hcancelled := hstep.dequeues hsound
  have hknown := hstep.known_iff hsound.wf
  have hsorted := hsound.slots.sorted
  have hstarts : startsOf m'.world.log = startsOf m.world.log ++ l.begins := by
    obtain ⟨more, hlog, hmore, -⟩ := hstep.starts
    rw [hlog, startsOf_append, startsOf_append, hmore, startsOf_starting, List.append_nil]
  cases hstep.queues with
  | keep hwaiting hbegins hl =>
    rw [hbegins, List.append_nil] at hstarts
    refine ⟨?_, ?_, fun j => ?_, fun j => ?_, fun j => ?_, hfirst⟩
    · rw [hstarts]
      exact h.increasing
    · rw [hstarts, hwaiting]
      exact h.ahead
    · rw [hstarts, hcancelled, hknown, or_iff_left (hl j).1, or_iff_left (hl j).2]
      exact h.known j
    · rw [hstarts, hcancelled, hknown, hwaiting, or_iff_left (hl j).1, or_iff_left (hl j).2]
      exact h.settled j
    · rw [hstarts, hcancelled, hwaiting, or_iff_left (hl j).2]
      exact h.kept j
  | submit hnone hid hwaiting =>
    set next := m.world.st.nextJobId
    have hnew : ¬ (m.world.st.stateOf next).isSome := by simp [hnone]
    have hcancelled : ∀ j, CancelledWhileQueued m'.world.log j ↔
        CancelledWhileQueued m.world.log j := fun j => by
      rw [hcancelled, or_iff_left (by simp)]
    have hstarts : startsOf m'.world.log = startsOf m.world.log := by
      rw [hstarts]
      exact List.append_nil _
    refine ⟨?_, ?_, fun j => ?_, fun j => ?_, fun j => ?_, hfirst⟩
    · rw [hstarts]
      exact h.increasing
    · rw [hstarts, hwaiting]
      refine fun j hj k hk => ?_
      obtain hk | hk := List.mem_append.mp hk
      · exact h.ahead j hj k hk
      · -- the new id is above those handed out
        rw [List.mem_singleton.mp hk]
        have hbelow := ((hsound.slots.known j).mp (h.known j (Or.inl hj))).2
        rwa [idLimit, if_neg hid] at hbelow
    · rw [hstarts, hcancelled, hknown]
      exact fun hj => Or.inl (h.known j hj)
    · rw [hstarts, hcancelled, hknown, hwaiting]
      rintro (hj | hj)
      · exact (h.settled j hj).imp_left (List.mem_append_left _)
      · obtain rfl := Label.submit.inj hj
        exact Or.inl (by simp)
    · rw [hstarts, hcancelled, hwaiting]
      intro hj
      obtain ⟨hout, hnot⟩ := h.kept j hj
      refine ⟨fun hmem => ?_, hnot⟩
      obtain hmem | hmem := List.mem_append.mp hmem
      · exact hout hmem
      · rw [List.mem_singleton.mp hmem] at hj
        exact hnew (h.known _ (Or.inr hj))
  | @dequeue i d' hqueued hwaiting =>
    have hi : i ∈ m.world.st.scheduler.waitingJobs := (hsound.slots.waiting i).mpr hqueued
    have hnodup : m.world.st.scheduler.waitingJobs.Nodup := hsorted.imp ne_of_lt
    have hmem : ∀ j, j ∈ m'.world.st.scheduler.waitingJobs ↔
        j ≠ i ∧ j ∈ m.world.st.scheduler.waitingJobs := fun j => by
      rw [hwaiting]
      exact hnodup.mem_erase_iff
    have hcancelled : ∀ j, CancelledWhileQueued m'.world.log j ↔
        CancelledWhileQueued m.world.log j ∨ j = i := fun j => by
      rw [hcancelled, Label.dequeue.injEq, @eq_comm _ i]
    have hstarts : startsOf m'.world.log = startsOf m.world.log := by
      rw [hstarts]
      exact List.append_nil _
    have hknown : ∀ j, (m'.world.st.stateOf j).isSome ↔ (m.world.st.stateOf j).isSome :=
      fun j => by rw [hknown, or_iff_left (by simp)]
    refine ⟨?_, fun j => ?_, fun j => ?_, fun j => ?_, fun j => ?_, hfirst⟩
    · rw [hstarts]
      exact h.increasing
    · rw [hstarts]
      exact fun hj k hk => h.ahead j hj k ((hmem k).mp hk).2
    · rw [hstarts, hcancelled, hknown]
      rintro (hj | hj | rfl)
      · exact h.known j (Or.inl hj)
      · exact h.known j (Or.inr hj)
      · rw [hqueued]
        rfl
    · rw [hstarts, hcancelled, hknown, hmem]
      intro hj
      by_cases hji : j = i
      · exact Or.inr (Or.inr (Or.inr hji))
      · exact (h.settled j hj).imp (fun hj => ⟨hji, hj⟩) (Or.imp_right Or.inl)
    · rw [hstarts, hcancelled, hmem]
      rintro (hj | rfl)
      · exact ⟨fun hout => (h.kept j hj).1 hout.2, (h.kept j hj).2⟩
      · exact ⟨fun hout => hout.1 rfl, fun hstarted => lt_irrefl j (h.ahead j hstarted j hi)⟩
  | @start i _ d' hwaiting hbegins hl =>
    rw [hbegins] at hstarts
    rw [hwaiting] at hsorted
    have hmem : ∀ j, j ∈ m.world.st.scheduler.waitingJobs ↔
        j = i ∨ j ∈ m'.world.st.scheduler.waitingJobs := fun j => by rw [hwaiting, List.mem_cons]
    have hi : i ∈ m.world.st.scheduler.waitingJobs := (hmem i).mpr (Or.inl rfl)
    have hstarted : ∀ j, j ∈ startsOf m'.world.log ↔ j ∈ startsOf m.world.log ∨ j = i :=
      fun j => by rw [hstarts, List.mem_append, List.mem_singleton]
    have hcancelled : ∀ j, CancelledWhileQueued m'.world.log j ↔
        CancelledWhileQueued m.world.log j := fun j => by
      rw [hcancelled, or_iff_left (hl j).2]
    have hknown : ∀ j, (m'.world.st.stateOf j).isSome ↔ (m.world.st.stateOf j).isSome :=
      fun j => by rw [hknown, or_iff_left (hl j).1]
    refine ⟨?_, fun j => ?_, fun j => ?_, fun j => ?_, fun j => ?_, hfirst⟩
    · rw [hstarts]
      refine List.pairwise_append.mpr ⟨h.increasing, List.pairwise_singleton _ _, ?_⟩
      exact fun j hj k hk => List.mem_singleton.mp hk ▸ h.ahead j hj i hi
    · rw [hstarted]
      rintro (hj | rfl) k hk
      · exact h.ahead j hj k ((hmem k).mpr (Or.inr hk))
      · exact List.rel_of_pairwise_cons hsorted hk
    · rw [hstarted, hcancelled, hknown]
      rintro ((hj | rfl) | hj)
      · exact h.known j (Or.inl hj)
      · rw [(hsound.slots.waiting j).mp hi]
        rfl
      · exact h.known j (Or.inr hj)
    · rw [hstarted, hcancelled, hknown]
      intro hj
      obtain hj | hj | hj := h.settled j hj
      · obtain rfl | hj := (hmem j).mp hj
        · exact Or.inr (Or.inl (Or.inr rfl))
        · exact Or.inl hj
      · exact Or.inr (Or.inl (Or.inl hj))
      · exact Or.inr (Or.inr hj)
    · rw [hstarted, hcancelled]
      intro hj
      obtain ⟨hout, hnot⟩ := h.kept j hj
      refine ⟨fun hmem' => hout ((hmem j).mpr (Or.inr hmem')), ?_⟩
      rintro (hj | rfl)
      · exact hnot hj
      · exact hout hi

/-! ## The cap -/

/-- No more jobs than this many run or terminate. -/
def AtMost (n : ℕ) (log : List Event) : Prop :=
  ∀ active : Finset JobId, (∀ j ∈ active, ∃ s, (ledger log).state j = some s ∧ s.isActive) →
    active.card ≤ n

/-- The jobs that run or terminate hold the slots. -/
theorem Sound.atMost (h : Sound n m) : AtMost n m.world.log := by
  intro active hactive
  have hsub : active ⊆ m.world.st.scheduler.activeJobIds := fun j hj => by
    obtain ⟨s, hs, hact⟩ := hactive j hj
    exact (h.slots.slots j).mpr (Or.inl ⟨s, (h.recorded.state j).symm.trans hs, hact⟩)
  exact (Finset.card_le_card hsub).trans h.slots.card

theorem AtMost.of_state {log log' : List Event} (h : AtMost n log)
    (hstate : (ledger log').state = (ledger log).state) : AtMost n log' := fun active hactive =>
  h active fun j hj => hstate ▸ hactive j hj

/-- The cap holds at every moment of a step, if it does before. -/
theorem Step.atMost (hstep : Step K l m m') (hsound : Sound n m)
    (h : ∀ pre post, m.world.log = pre ++ post → AtMost n pre) {pre post : List Event}
    (hlog : m'.world.log = pre ++ post) : AtMost n pre := by
  obtain ⟨more, hgrow, -, hmoves⟩ := hstep.starts
  have hone : (l.begins.map Event.starting ++ more).countP moves ≤ 1 := by
    have hbegins : (l.begins.map Event.starting).countP moves = 0 :=
      List.countP_eq_zero.mpr fun e he => by
        obtain ⟨j, -, rfl⟩ := List.mem_map.mp he
        simp [moves]
    rw [List.countP_append, hbegins]
    omega
  have hcut := hgrow.symm.trans hlog
  obtain ⟨inside, rfl, hinside⟩ | ⟨before, hbefore, -⟩ := List.append_eq_append_iff.mp hcut
  · rw [hinside] at hone
    have hafter := (hstep.sound hsound).atMost
    rw [hlog, List.append_assoc] at hafter
    obtain hstate | hstate := @state_of_one_move m.world.log _ _ hone
    · exact hsound.atMost.of_state hstate
    · exact hafter.of_state hstate
  · exact h pre before hbefore

/-! ## Answers -/

/-- What is answered with `OK cancelled` has been cancelled in the queue. -/
def Confirmed (log : List Event) : Prop :=
  ∀ fd request j, .answered fd request (text "OK cancelled") ∈ log →
    decodeCancelRequest request = .ok j → CancelledWhileQueued log j

theorem Step.confirmed (hstep : Step K l m m') (h : Confirmed m.world.log) :
    Confirmed m'.world.log := by
  obtain ⟨events, hlog, hnew⟩ := hstep.parley
  have hkeep : ∀ {j}, CancelledWhileQueued m.world.log j →
      CancelledWhileQueued m'.world.log j := by
    rintro j ⟨pre, post, heq, hstate⟩
    exact ⟨pre, post ++ events, by rw [hlog, heq, List.append_assoc]; rfl, hstate⟩
  intro fd request j hmem hdecode
  rw [hlog] at hmem
  obtain hmem | hmem := List.mem_append.mp hmem
  · exact hkeep (h fd request j hmem hdecode)
  · obtain hquiet | ⟨i, -, rfl⟩ | ⟨fd', request', response, -, rfl, htruthful⟩ := hnew
    · obtain hquiet | ⟨_, _, hasked⟩ := hquiet _ hmem
      · cases hquiet
      · cases hasked
    · cases List.mem_singleton.mp hmem
    · obtain ⟨rfl, rfl, hresponse⟩ := Event.answered.inj (List.mem_singleton.mp hmem)
      exact hkeep (htruthful.cancelled hresponse.symm j hdecode)

end Daemon

section Runs

open Daemon

variable {K : Kernel} {s : Setup} {w : World Daemon}

/-- At every moment of a run at most `max_running` jobs run or terminate. Jobs are started in
increasing order of their ids, each one when all before it have been started or were cancelled in
the queue; and a job whose cancellation was confirmed with `OK cancelled` is never started. -/
theorem startOrder (h : Ran K s w) :
    (∀ pre post, w.log = pre ++ post → AtMost s.maxRunning pre) ∧
    (startsOf w.log).Pairwise (· < ·) ∧ Throughout FirstCome [] w.log ∧
    ∀ fd request j, .answered fd request (text "OK cancelled") ∈ w.log →
      decodeCancelRequest request = .ok j → .starting j ∉ w.log := by
  have hinitial : ∀ pre post, s.initial.log = pre ++ post → AtMost s.maxRunning pre := by
    intro pre post hlog active hactive
    have hmoves : (pre ++ post).countP moves = 0 := by
      rw [← hlog]
      rfl
    rw [List.countP_append, Nat.add_eq_zero_iff] at hmoves
    obtain rfl : active = ∅ := Finset.eq_empty_of_forall_notMem fun j hj => by
      obtain ⟨s, hs, -⟩ := hactive j hj
      rw [← List.nil_append pre, state_of_not_moves hmoves.1] at hs
      cases hs
    exact Nat.zero_le _
  obtain ⟨due, hsound, hcap, hfair, hconfirmed⟩ := h.invariant (P := fun m =>
      (∀ pre post, m.world.log = pre ++ post → AtMost s.maxRunning pre) ∧ Fair m.world ∧
        Confirmed m.world.log)
    ⟨hinitial, fair_initial s, fun _ _ _ hmem => by simp [Setup.initial] at hmem⟩
    fun l m m' hs hstep ⟨hcap, hfair, hconfirmed⟩ =>
      ⟨fun pre post => hstep.atMost hs hcap, hstep.fair hs hfair, hstep.confirmed hconfirmed⟩
  refine ⟨hcap, hfair.increasing, hfair.firstCome, fun fd request j hmem hdecode hstart => ?_⟩
  exact (hfair.kept j (hconfirmed fd request j hmem hdecode)).2 (mem_startsOf.mpr hstart)

/-- A client submits two jobs for one slot, and cancels the second. -/
def queueScript : Kernel := Kernel.quiet.withClient
  [[(3, { epollin := true })], [(7, { epollin := true })], [(7, { epollin := true })],
    [(7, { epollin := true })]]
  [[], submitPayload 0 [text "/a"], submitPayload 0 [text "/b"], appendJobId kCancelCommand 2]

theorem startOrder_run : startsOf (after queueScript oneSlot 4).log = [1] ∧
    (startsOf (after queueScript oneSlot 4).log).Pairwise (· < ·) ∧
    .starting 2 ∉ (after queueScript oneSlot 4).log := by
  have hok : ∀ i < 3, (Daemon.iterate queueScript (after queueScript oneSlot i)).1 = .ok () := by
    decide +kernel
  have hran : Ran queueScript oneSlot (after queueScript oneSlot 4) := ran_after hok
  have hstarts : startsOf (after queueScript oneSlot 4).log = [1] := by decide +kernel
  have hanswered : .answered 7 (appendJobId kCancelCommand 2) (text "OK cancelled") ∈
      (after queueScript oneSlot 4).log := by decide +kernel
  have hdecode : decodeCancelRequest (appendJobId kCancelCommand 2) = .ok 2 := by decide
  obtain ⟨-, hincreasing, -, hconfirmed⟩ := startOrder hran
  exact ⟨hstarts, hincreasing, hconfirmed 7 _ 2 hanswered hdecode⟩

end Runs

end Runnerd
