import Runnerd.Punctuality

/-!
# Execution deadlines

A running job with an execution timeout keeps its deadline for as long as it runs, with one exception:
the deadline has come, it is taken off the timeout manager, and `kill` finds no process in the group of
the job. `requestTerminate` returns false, as it does for a job that has been settled, but this job still
runs: a descendant in another session may hold its pipes open. It is never asked to terminate again.
-/

namespace Runnerd

open Effect Effect.Prog Steps Trace

/-- Events other than the taking up of an event of the batch. -/
def innerEvent : Event → Bool
  | .dispatching _ => false
  | _ => true

theorem inner_of_choreEvent {e : Event} (h : Daemon.choreEvent e) : innerEvent e := by
  cases e <;> first | rfl | cases h

theorem inner_of_not_loopEvent {e : Event} (h : Daemon.loopEvent e = false) : innerEvent e := by
  cases e <;> first | rfl | cases h

namespace Daemon

variable {K : Kernel} {n : ℕ} {l : Label} {m m' : Moment} {w w' : World Daemon} {j : JobId}
  {job job' : Job} {log events : List Event}

/-- Only the taking up of an event writes its mark. -/
theorem Step.inner (hstep : Step K l m m') (htake : ∀ fd, l ≠ .take fd) :
    ∃ events, m'.world.log = m.world.log ++ events ∧ ∀ e ∈ events, innerEvent e := by
  by_cases hquiet : l.quiet
  · obtain ⟨-, events, hlog, hevents⟩ := hstep.quiet hquiet
    exact ⟨events, hlog, fun e he => inner_of_not_loopEvent (hevents e he)⟩
  have hbracket : ∀ {e e' : Event} {events : List Event}, innerEvent e → innerEvent e' →
      (∀ e ∈ events, choreEvent e) → ∀ x ∈ e :: (events ++ [e']), innerEvent x := by
    intro e e' events he he' hevents
    refine List.forall_mem_cons.mpr ⟨he, List.forall_mem_append.mpr ⟨?_, by simpa using he'⟩⟩
    exact fun x hx => inner_of_choreEvent (hevents x hx)
  cases hstep with
  | take => exact absurd rfl (htake _)
  | accept hnew hevents => exact ⟨_, rfl, hbracket rfl rfl hevents⟩
  | refuse hevents => exact ⟨_, rfl, hbracket rfl rfl hevents⟩
  | hangUp | rearm | answer => exact ⟨_, rfl, by simp [innerEvent]⟩
  | tend hfind htending =>
    refine ⟨_, rfl, ?_⟩
    cases htending <;> simp [innerEvent]
  | _ => exact absurd rfl hquiet

/-! ## The deadlines that have come -/

/-- The timer has been read since the last event was taken up. -/
def TimerRead (log : List Event) : Prop :=
  ∃ a b, log = a ++ .called .readTimer :: b ∧ ∀ e ∈ b, innerEvent e

theorem TimerRead.append (h : TimerRead log) (hevents : ∀ e ∈ events, innerEvent e) :
    TimerRead (log ++ events) := by
  obtain ⟨a, b, rfl, hb⟩ := h
  refine ⟨a, b ++ events, by simp, ?_⟩
  exact List.forall_mem_append.mpr ⟨hb, hevents⟩

/-- SIGTERM finds the group of a job empty only where it is not for a deadline that has come. -/
def Found (before : List Event) (e : Event) (_after : List Event) : Prop :=
  ∀ j group, e = .groupGone j group .SIGTERM → ¬ TimerRead before

/-- A job that runs on keeps its deadline, unless the step spares it. -/
theorem Step.still_owed (hstep : Step K l m m') (hsound : Sound n m) (howed : m.Owed j)
    (hjob' : m'.world.st.jobs.find j = some job') (hrunning : job'.state = .running) :
    m'.Owed j ∨ ∃ group, j ∈ m.due ∧ m'.world.log = m.world.log ++ [.groupGone j group .SIGTERM] := by
  have hdrop : ∀ {k rest}, m.due = k :: rest → k ≠ j → j ∈ m.due → j ∈ rest := by
    intro k rest hdue hk hj
    rw [hdue] at hj
    exact (List.mem_cons.mp hj).resolve_left (Ne.symm hk)
  cases hstep with
  | attend | take | accept | refuse | hangUp | tend | rearm | answer | watch | submit | dequeue
    | misfire => exact Or.inl howed
  | @run w v k rest job timeouts events hslot hwaiting hstep hjob htimed hevents =>
    rcases htimed with ⟨rfl, -⟩ | ⟨timeout, -, -, rfl⟩
    · exact Or.inl howed
    · left
      left
      simp only [activeGenerations_insert, Table.find_set]
      split_ifs
      · rfl
      · exact howed.resolve_right (by simp)
  | @release w due k rest hnotified =>
    left
    rcases howed with hactive | hdue
    · left
      simp only [find_cancel]
      split_ifs with hk
      · obtain ⟨job, hjob, hterminal⟩ := hsound.wf.notified j (by
          show j ∈ w.st.monitor.terminalJobNotifications
          rw [hnotified, hk]
          exact List.mem_cons_self)
        obtain rfl := Option.some.inj (hjob.symm.trans hjob')
        rw [hrunning] at hterminal
        cases hterminal
      · exact hactive
    · exact Or.inr hdue
  | @expire w now more hread_at hread hmore =>
    obtain ⟨f, hf⟩ := hsound.timed.refines
    obtain ⟨hexpired, hinorder⟩ := hf.expireAt now
    left
    have hactive := (hf.isSome_iff j).mp (howed.resolve_right (by simp))
    by_cases hdue : f.IsDue now j
    · exact Or.inr ((hinorder.mem_iff j).mpr hdue)
    · left
      apply (hexpired.discardStaleEntries.isSome_iff j).mpr
      rw [DeadlineMap.expire_of_not_isDue hdue]
      exact hactive
  | @skip w k rest hjob =>
    left
    refine howed.imp_right (hdrop rfl ?_)
    rintro rfl
    exact hjob job' hjob' hrunning
  | @spare w k rest group =>
    by_cases hk : k = j
    · subst hk
      exact Or.inr ⟨group, List.mem_cons_self, rfl⟩
    · exact Or.inl (howed.imp_right (hdrop rfl hk))
  | @terminate w v k cause due rest hdue hstep =>
    left
    by_cases hk : k = j
    · exact Or.inr (hk ▸ List.mem_cons_self)
    · rcases howed with hactive | hj
      · left
        simp only [find_cancel, if_neg (Ne.symm hk)]
        exact hactive
      · right
        rcases hdue with ⟨rfl, -⟩ | ⟨rfl, -⟩
        · exact hj
        · cases hj
  | @arm w k rest job deadline more hjob hterminating hdeadline hgen hmore =>
    left
    by_cases hk : k = j
    · left
      simp only [activeGenerations_insert, Table.find_set, if_pos hk.symm]
      rfl
    · refine howed.imp (fun hactive => ?_) (hdrop rfl hk)
      simp only [activeGenerations_insert, Table.find_set, if_neg (Ne.symm hk)]
      exact hactive
  | @fumble w k rest deadline more hgen hmore =>
    left
    by_cases hk : k = j
    · exact Or.inr (hk ▸ List.mem_cons_self)
    · refine howed.imp_left fun hactive => ?_
      simp only [find_cancel, activeGenerations_insert, Table.find_set, if_neg (Ne.symm hk)]
      exact hactive
  | @kill w v k rest hstep =>
    left
    refine howed.imp_right (hdrop rfl ?_)
    rintro rfl
    cases hstep with
    | kill hactive hjob hterminating =>
      obtain rfl := Option.some.inj (hjob.symm.trans hjob')
      rw [hterminating] at hrunning
      cases hrunning

/-- A running job with a timeout has a deadline, in the timeout manager or among those that have just
come, unless the generations are used up. -/
structure Watched (m : Moment) : Prop where
  owed : ∀ {j job}, m.world.st.jobs.find j = some job → job.state = .running →
    job.spec.executionTimeout ≠ none → m.Owed j ∨ m.world.st.timeouts.nextGeneration = 0
  read : ∀ {j job}, j ∈ m.due → m.world.st.jobs.find j = some job → job.state = .running →
    TimerRead m.world.log

theorem watched_initial (s : Setup) : Watched ⟨s.initial, []⟩ where
  owed h := by cases h
  read hj := by cases hj

/-- The jobs that a step leaves to be seen to. -/
theorem Step.due_of (hstep : Step K l m m') (hj : j ∈ m'.due) :
    j ∈ m.due ∨ l = .expire ∨ l = .terminate j := by
  cases hstep with
  | run => cases hj
  | expire => exact Or.inr (Or.inl rfl)
  | skip | spare | arm | kill => exact Or.inl (List.mem_cons_of_mem _ hj)
  | terminate hdue hstep =>
    rcases List.mem_cons.mp hj with rfl | hj
    · exact Or.inr (Or.inr rfl)
    · rcases hdue with ⟨rfl, -⟩ | ⟨-, rfl, -⟩
      · exact Or.inl (List.mem_cons_of_mem _ hj)
      · cases hj
  | _ => exact Or.inl hj

theorem Step.watched (hstep : Step K l m m') (hsound : Sound n m)
    (hfound : Throughout Found [] m'.world.log) (h : Watched m) : Watched m' := by
  -- a job that runs on was running before, but for the one that is started
  have hbefore : ∀ {j job'}, m'.world.st.jobs.find j = some job' → job'.state = .running →
      l ≠ .run j → ∃ job, m.world.st.jobs.find j = some job ∧ job.state = .running ∧
        job.spec = job'.spec := by
    intro j job' hjob' hrunning hrun
    have hterminate : l ≠ .terminate j := by
      rintro rfl
      cases hstep with
      | terminate hdue hstep =>
        cases hstep with
        | terminate =>
          obtain rfl := Option.some.inj ((Table.find_set_self _ _ _).symm.trans hjob')
          cases hrunning
    obtain ⟨job, hjob, heq, hspec⟩ := hstep.live hrun hterminate hjob' (by rw [hrunning]; rfl)
    exact ⟨job, hjob, heq.trans hrunning, hspec⟩
  constructor
  · intro j job' hjob' hrunning htimeout
    by_cases hrun : l = .run j
    · subst hrun
      cases hstep with
      | @run w v _ rest job timeouts events hslot hwaiting hstep hjob htimed hevents =>
        obtain ⟨-, job₁, hjob₁, -, hspec⟩ := hstep.enters hjob
        obtain rfl : job₁ = job' := Option.some.inj (hjob₁.symm.trans hjob')
        rcases htimed with ⟨rfl, hnone | hgen⟩ | ⟨timeout, -, hgen, rfl⟩
        · exact absurd (hspec ▸ hnone) htimeout
        · exact Or.inr hgen
        · left
          left
          simp only [activeGenerations_insert, hsound.wf.id_eq hjob, Table.find_set_self]
          rfl
    · obtain ⟨job, hjob, hrunning₀, hspec⟩ := hbefore hjob' hrunning hrun
      rcases h.owed hjob hrunning₀ (hspec ▸ htimeout) with howed | hgen
      · rcases hstep.still_owed hsound howed hjob' hrunning with howed | ⟨group, hdue, hlog⟩
        · exact Or.inl howed
        · exact absurd (h.read hdue hjob hrunning₀) (hfound m.world.log _ [] hlog j group rfl)
      · exact Or.inr (hstep.exhausted hgen)
  · intro j job' hj hjob' hrunning
    by_cases hexpire : l = .expire
    · subst hexpire
      cases hstep with
      | @expire w now events hnow hread hevents =>
        obtain ⟨more, rfl⟩ := hread
        refine ⟨w.log, more, rfl, ?_⟩
        intro e he
        exact inner_of_choreEvent (hevents e (List.mem_cons_of_mem _ he))
    · have hrun : l ≠ .run j := by
        rintro rfl
        cases hstep
        cases hj
      have htake : ∀ fd, l ≠ .take fd := by
        rintro fd rfl
        cases hstep
        cases hj
      obtain ⟨job, hjob, hrunning₀, -⟩ := hbefore hjob' hrunning hrun
      rcases hstep.due_of hj with hj | hl | rfl
      · obtain ⟨events, hlog, hinner⟩ := hstep.inner htake
        rw [hlog]
        exact (h.read hj hjob hrunning₀).append hinner
      · exact absurd hl hexpire
      · cases hstep with
        | terminate hdue hstep =>
          cases hstep with
          | terminate =>
            obtain rfl := Option.some.inj ((Table.find_set_self _ _ _).symm.trans hjob')
            cases hrunning

end Daemon

/-! ## Runs -/

section Runs

open Daemon

variable {K : Kernel} {s : Setup} {w : World Daemon}

/-- Whenever the loop returns to `epoll_wait`, every running job with an execution timeout has a
deadline: in every run in which no SIGTERM for a deadline that has come finds the group of its job
empty, until the generations are used up. -/
theorem deadlines_watched (h : Reachable K s w) (hfound : Throughout Found [] w.log)
    (hgen : w.st.timeouts.nextGeneration ≠ 0) :
    ∃ f, w.st.timeouts.Refines f ∧ ∀ j job, w.st.jobs.find j = some job → job.state = .running →
      job.spec.executionTimeout ≠ none → (f j).isSome := by
  obtain ⟨hsound, hwatched⟩ := sound_invariant_under (P := Watched)
    (H := fun log => Throughout Found [] log) (fun _ _ h => h.left fun _ _ _ _ h => h)
    (fun _ _ _ hs hstep hfound h => hstep.watched hs hfound h) h.sound_walk.2 (sound_initial s)
    (watched_initial s) hfound
  obtain ⟨f, hf⟩ := hsound.timed.refines
  refine ⟨f, hf, ?_⟩
  intro j job hjob hrunning htimeout
  rcases hwatched.owed hjob hrunning htimeout with howed | hexhausted
  · exact (hf.isSome_iff j).mp (howed.resolve_right (by simp))
  · exact absurd hexhausted hgen

/-- Events other than that `kill` finds the group of a job empty. -/
def populatedEvent : Event → Bool
  | .groupGone _ _ _ => false
  | _ => true

/-- The shell of the job has exited, and its group is empty, but its pipes are still open. -/
def emptyGroupKernel : Kernel :=
  timeoutScript { Kernel.quiet with
    now := fun log => 1000000000 * rounds log
    waitpid := fun _ _ => .done (.exited (.exited 0))
    kill := fun _ _ _ => .done (.error .ESRCH) }

theorem found_of_forall {log : List Event} (h : ∀ e ∈ log, populatedEvent e) :
    Throughout Found [] log := by
  apply throughout_of_forall
  rintro e he pre post j group rfl
  cases h _ he

/-- A client submits two jobs, with timeouts of a millisecond and of a minute, and the timer expires. -/
def minuteKernel : Kernel := { Kernel.quiet with now := fun log => 1000000000 * rounds log }.withClient
  [[(3, { epollin := true })], [(7, { epollin := true })], [(7, { epollin := true })],
    [(6, { epollin := true })]]
  [[], submitPayload 1 [text "/a"], submitPayload 60000 [text "/b"]]

def minuteWorld : World Daemon := after minuteKernel twoSlots 4

/-- The deadline of the first job has come, and the second one still runs. -/
theorem deadlines_watched_run : (ledger minuteWorld.log).signals 1 = [.SIGTERM] ∧
    minuteWorld.st.stateOf 2 = some .running ∧ ∃ f, minuteWorld.st.timeouts.Refines f ∧
      ∀ j job, minuteWorld.st.jobs.find j = some job → job.state = .running →
        job.spec.executionTimeout ≠ none → (f j).isSome := by
  obtain ⟨hok, hpopulated, hgen, hsignals, hstate⟩ :
      (∀ i < 4, (Daemon.iterate minuteKernel (after minuteKernel twoSlots i)).1 = .ok ()) ∧
      (∀ e ∈ minuteWorld.log, populatedEvent e) ∧ minuteWorld.st.timeouts.nextGeneration ≠ 0 ∧
      (ledger minuteWorld.log).signals 1 = [.SIGTERM] ∧
      minuteWorld.st.stateOf 2 = some .running := by decide +kernel
  have hreached : Reachable minuteKernel twoSlots minuteWorld := reachable_after hok
  exact ⟨hsignals, hstate, deadlines_watched hreached (found_of_forall hpopulated) hgen⟩

/-- The deadline of this job has come, and it still runs, without one. -/
theorem deadline_lost : Reachable emptyGroupKernel oneSlot (after emptyGroupKernel oneSlot 3) ∧
    ∃ job, (after emptyGroupKernel oneSlot 3).st.jobs.find 1 = some job ∧ job.state = .running ∧
      job.spec.executionTimeout ≠ none ∧
      (after emptyGroupKernel oneSlot 3).st.timeouts.activeGenerations.find 1 = none := by
  have hjob : ∀ job : Option Job, (job.map fun job => (job.state, job.spec.executionTimeout)) =
      some (.running, some 1) → ∃ job', job = some job' ∧ job'.state = .running ∧
        job'.spec.executionTimeout ≠ none := by
    intro job h
    obtain ⟨job', rfl, heq⟩ := Option.map_eq_some_iff.mp h
    obtain ⟨hstate, htimeout⟩ := Prod.mk.inj heq
    exact ⟨job', rfl, hstate, by rw [htimeout]; simp⟩
  obtain ⟨hok, hrecord, hnone⟩ :
      (∀ i < 3, (Daemon.iterate emptyGroupKernel (after emptyGroupKernel oneSlot i)).1 = .ok ()) ∧
      (((after emptyGroupKernel oneSlot 3).st.jobs.find 1).map fun job =>
        (job.state, job.spec.executionTimeout)) = some (.running, some 1) ∧
      (after emptyGroupKernel oneSlot 3).st.timeouts.activeGenerations.find 1 = none := by
    decide +kernel
  obtain ⟨job, hfind, hstate, htimeout⟩ := hjob _ hrecord
  exact ⟨reachable_after hok, job, hfind, hstate, htimeout, hnone⟩

end Runs

end Runnerd
