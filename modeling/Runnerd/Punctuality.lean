import Runnerd.JobIsolation
import Runnerd.SignalDiscipline

/-!
# Deadlines are never early

One entry of the timeout manager can mean two things: the end of the execution timeout of a job that
runs, the end of the grace period of one that terminates. Which one it is depends on the state of the
job when the entry expires, and old entries are removed lazily. An entry is `Ripe` at its time in
both readings: whatever the state of the job is, what is done then is not done too early.

Only where the timer cannot be set for the grace period is SIGKILL sent at once.
-/

namespace Runnerd

open Effect Effect.Prog Steps Trace

namespace TimeoutManager

variable {K : Kernel} {w : World TimeoutManager}

theorem nextGeneration_expireLoop (now : ℤ) (fuel : ℕ) (t : TimeoutManager) :
    (expireLoop now fuel t).1.nextGeneration = t.nextGeneration := by
  induction fuel generalizing t with
  | zero => rfl
  | succ fuel ih =>
    unfold expireLoop
    cases t.deadlines.top with
    | none => rfl
    | some entry =>
      simp only
      split_ifs
      · rfl
      · cases t.activeGenerations.find entry.jobId with
        | none => exact ih _
        | some generation =>
          simp only
          split_ifs
          · exact ih _
          · exact (ih _).trans (discardStaleEntries_spec _).generation

theorem nextGeneration_expireAt (t : TimeoutManager) (now : ℤ) :
    (t.expireAt now).1.nextGeneration = t.nextGeneration :=
  (nextGeneration_expireLoop now _ _).trans (discardStaleEntries_spec t).generation

end TimeoutManager

namespace ProcessMonitor

variable {K : Kernel} {w w' : World ProcessMonitor} {l : Label} {j : JobId} {job' : Job}

theorem delivered_calm {events : List Event} (h : ∀ e ∈ events, calmEvent e) :
    delivered events = [] := by
  apply List.filterMap_eq_nil_iff.mpr
  intro e he
  have hcalm := h e he
  cases e <;> first | rfl | cases hcalm

theorem mem_delivered {events : List Event} {group : Pid} {signal : Signal} :
    (j, group, signal) ∈ delivered events ↔ .signalled j group signal ∈ events := by
  unfold delivered
  rw [List.mem_filterMap]
  constructor
  · rintro ⟨e, he, hsignal⟩
    cases e with
    | signalled k group' signal' =>
      obtain ⟨rfl, rfl, rfl⟩ : k = j ∧ group' = group ∧ signal' = signal := by
        simpa [deliveredSignal] using hsignal
      exact he
    | _ => cases hsignal
  · exact fun h => ⟨_, h, rfl⟩

/-- An active job got its state in the step that started or terminated it, or had it before. -/
theorem Step.live (hstep : Step K l w w') (hstarted : l ≠ .started j)
    (hterminate : ∀ cause, l ≠ .terminate j cause) (hjob' : w'.st.jobs.find j = some job')
    (hactive : job'.state.isActive) :
    ∃ job, w.st.jobs.find j = some job ∧ job.state = job'.state ∧ job.spec = job'.spec := by
  have hset : ∀ {k : JobId} {job₁ : Job}, (w.st.jobs.set k job₁).find j = some job' →
      (k = j → job₁ = job' → ∃ job, w.st.jobs.find j = some job ∧ job.state = job'.state ∧
        job.spec = job'.spec) →
      ∃ job, w.st.jobs.find j = some job ∧ job.state = job'.state ∧ job.spec = job'.spec := by
    intro k job₁ hfind hown
    by_cases hk : k = j
    · subst hk
      rw [Table.find_set_self] at hfind
      exact hown rfl (Option.some.inj hfind)
    · rw [Table.find_set_of_ne _ _ (Ne.symm hk)] at hfind
      exact ⟨job', hfind, rfl, rfl⟩
  cases hstep with
  | idle | receive | finish | exited | stray | lost | misuse | misstart | kill | collect =>
    exact ⟨job', hjob', rfl, rfl⟩
  | settle hprocess hcomplete hjob hsettled =>
    apply hset hjob'
    rintro rfl rfl
    rw [isActive_of_isTerminal (settles_of_settledJob hsettled).terminal] at hactive
    cases hactive
  | garble hprocess hcomplete hjob hsettled =>
    apply hset hjob'
    rintro rfl rfl
    exact ⟨_, hjob, rfl, rfl⟩
  | launchFailed hjob hqueued hlaunch =>
    apply hset hjob'
    rintro rfl rfl
    cases hactive
  | abandoned hjob hqueued hlaunch hrest =>
    apply hset hjob'
    rintro rfl rfl
    cases hactive
  | started hjob hqueued hlaunch =>
    apply hset hjob'
    rintro rfl -
    exact absurd rfl hstarted
  | terminate hprocess hjob hrunning =>
    apply hset hjob'
    rintro rfl -
    exact absurd rfl (hterminate _)
  | submit hjob =>
    apply hset hjob'
    rintro rfl rfl
    cases hactive
  | dequeue hjob hqueued =>
    apply hset hjob'
    rintro rfl rfl
    cases hactive

/-- The last thing that the start of a job does is to enter RUNNING. -/
theorem Step.enters {job : Job} (hstep : Step K (.started j) w w')
    (hjob : w.st.jobs.find j = some job) :
    (∃ before, w'.log = before ++ [.entered j .running]) ∧
      ∃ job', w'.st.jobs.find j = some job' ∧ job'.state = .running ∧ job'.spec = job.spec := by
  cases hstep with
  | @started _ _ job₁ events launched hjob₁ hqueued hlaunch =>
    obtain rfl := Option.some.inj (hjob.symm.trans hjob₁)
    constructor
    · refine ⟨w.log ++ .starting j :: (events ++ [.adopted j launched.pid launched.stdoutFd
        launched.stderrFd launched.startupErrorFd, .registered launched.stdoutFd .readable,
        .registered launched.stderrFd .readable, .registered launched.startupErrorFd .readable]), ?_⟩
      simp
    · exact ⟨_, Table.find_set_self _ _ _, rfl, rfl⟩

end ProcessMonitor

namespace Daemon

open ProcessMonitor (delivered delivered_append delivered_calm)

variable {K : Kernel} {n : ℕ} {l : Label} {m m' : Moment} {w w' : World Daemon} {j : JobId}
  {job job' : Job} {base log events : List Event}

/-! ## What a step does to an active job -/

theorem Label.eq_of_invokes_started (h : l.Invokes (.started j)) : l = .run j := by
  cases l with
  | run k =>
    have h : ProcessMonitor.Label.started j = .started k := h
    rw [ProcessMonitor.Label.started.inj h]
  | misfire k => rcases h with h | h <;> cases h
  | terminate k =>
    obtain ⟨cause, h⟩ := h
    cases h
  | _ => cases h

theorem Label.eq_of_invokes_terminate {cause : TerminationCause}
    (h : l.Invokes (.terminate j cause)) : l = .terminate j := by
  cases l with
  | terminate k =>
    obtain ⟨cause', h⟩ := h
    rw [(ProcessMonitor.Label.terminate.inj h).1]
  | misfire k => rcases h with h | h <;> cases h
  | _ => cases h

/-- A job keeps its state while it is active, but for the steps that start and terminate it. -/
theorem Step.live (hstep : Step K l m m') (hrun : l ≠ .run j) (hterminate : l ≠ .terminate j)
    (hjob' : m'.world.st.jobs.find j = some job') (hactive : job'.state.isActive) :
    ∃ job, m.world.st.jobs.find j = some job ∧ job.state = job'.state ∧ job.spec = job'.spec := by
  obtain ⟨v, events, hv, hm', -⟩ := hstep.monitor
  have hjobs : m'.world.st.jobs = v.st.jobs := congrArg (fun t => t.st.jobs) hm'
  rw [hjobs] at hjob'
  rcases hv with rfl | ⟨l', hinvokes, hv⟩
  · exact ⟨job', hjob', rfl, rfl⟩
  · apply hv.live _ _ hjob' hactive
    · rintro rfl
      exact hrun (Label.eq_of_invokes_started hinvokes)
    · rintro cause rfl
      exact hterminate (Label.eq_of_invokes_terminate hinvokes)

theorem Step.calm (hstep : Step K l m m') (hterminate : ∀ j, l ≠ .terminate j)
    (hkill : ∀ j, l ≠ .kill j) :
    ∃ events, m'.world.log = m.world.log ++ events ∧ ∀ e ∈ events, calmEvent e := by
  obtain ⟨v, events, hv, hm', hevents⟩ := hstep.monitor
  have hlog : m'.world.log = v.log ++ events := congrArg World.log hm'
  have hdesk : ∀ e ∈ events, calmEvent e := fun e he => calm_of_deskEvent (hevents e he)
  rcases hv with rfl | ⟨l', hinvokes, hv⟩
  · exact ⟨events, hlog, hdesk⟩
  · have hcalm : ∃ more, v.log = m.world.log ++ more ∧ ∀ e ∈ more, calmEvent e := by
      apply hv.calm
      · rintro k cause rfl
        exact hterminate k (Label.eq_of_invokes_terminate hinvokes)
      · rintro k rfl
        exact hkill k (Label.eq_of_invokes_kill hinvokes)
    obtain ⟨more, hmore, hcalm⟩ := hcalm
    refine ⟨more ++ events, by rw [hlog, hmore, List.append_assoc], ?_⟩
    exact List.forall_mem_append.mpr ⟨hcalm, hdesk⟩

/-- A job that has left the queue does not enter RUNNING again. -/
theorem Step.not_restarted (hstep : Step K l m m') (hwf : ProcessMonitor.Wf m.world.st.monitor)
    (hoff : OffQueue m.world.st j) (hlog : m'.world.log = m.world.log ++ events) :
    .entered j .running ∉ events := by
  intro hmem
  have hgiven : JobState.running ∈ statesOf events j :=
    List.mem_filterMap.mpr ⟨_, hmem, if_pos rfl⟩
  obtain ⟨job, hjob, hqueued⟩ := hoff
  have hadvances := hstep.advances hwf j
  unfold Advances at hadvances
  rw [hlog, statesOf_append] at hadvances
  rcases hadvances with heq | ⟨hnone, -⟩ | ⟨job', s, hjob', hedge, -, heq⟩
  · rw [List.append_cancel_left (heq.trans (List.append_nil _).symm)] at hgiven
    cases hgiven
  · rw [hjob] at hnone
    cases hnone
  · rw [List.append_cancel_left heq, List.mem_singleton] at hgiven
    obtain rfl : job = job' := Option.some.inj (hjob.symm.trans hjob')
    rw [← hgiven] at hedge
    cases hstate : job.state with
    | queued => exact hqueued hstate
    | _ =>
      rw [hstate] at hedge
      cases hedge

/-! ## Time -/

/-- The clock never goes back. -/
def Steady (K : Kernel) : Prop := ∀ log events, K.now log ≤ K.now (log ++ events)

/-- At this time the job has been in RUNNING for so many milliseconds. -/
def RunFor (K : Kernel) (log : List Event) (j : JobId) (timeout : JobTimeout) (t : ℤ) : Prop :=
  ∃ a b, log = a ++ .entered j .running :: b ∧ .entered j .running ∉ b ∧
    K.now (a ++ [.entered j .running]) + timeout * 1000000 ≤ t

/-- At this time the grace period since the job's SIGTERM was delivered is over. -/
def GraceOver (K : Kernel) (log : List Event) (j : JobId) (t : ℤ) : Prop :=
  ∃ a group b, log = a ++ .signalled j group .SIGTERM :: b ∧
    K.now (a ++ [.signalled j group .SIGTERM]) + kTerminationGracePeriod * 1000000 ≤ t

/-- SIGTERM was delivered to the job since this point of the history. -/
def SentSince (base log : List Event) (j : JobId) : Prop :=
  ∃ events group, log = base ++ events ∧ .signalled j group .SIGTERM ∈ events

theorem RunFor.append {timeout : JobTimeout} {t : ℤ} (h : RunFor K log j timeout t)
    (hevents : .entered j .running ∉ events) : RunFor K (log ++ events) j timeout t := by
  obtain ⟨a, b, rfl, hb, ht⟩ := h
  refine ⟨a, b ++ events, by simp, ?_, ht⟩
  rw [List.mem_append, not_or]
  exact ⟨hb, hevents⟩

theorem RunFor.later {timeout : JobTimeout} {t t' : ℤ} (h : RunFor K log j timeout t)
    (ht : t ≤ t') : RunFor K log j timeout t' := by
  obtain ⟨a, b, hlog, hb, hle⟩ := h
  exact ⟨a, b, hlog, hb, hle.trans ht⟩

theorem GraceOver.append {t : ℤ} (h : GraceOver K log j t) (events : List Event) :
    GraceOver K (log ++ events) j t := by
  obtain ⟨a, group, b, rfl, ht⟩ := h
  exact ⟨a, group, b ++ events, by simp, ht⟩

theorem GraceOver.later {t t' : ℤ} (h : GraceOver K log j t) (ht : t ≤ t') :
    GraceOver K log j t' := by
  obtain ⟨a, group, b, hlog, hle⟩ := h
  exact ⟨a, group, b, hlog, hle.trans ht⟩

theorem SentSince.append (h : SentSince base log j) (events : List Event) :
    SentSince base (log ++ events) j := by
  obtain ⟨more, group, rfl, hmem⟩ := h
  exact ⟨more ++ events, group, by simp, List.mem_append_left _ hmem⟩

/-- Whatever is done about the job's deadline at this time is not done too early, unless SIGTERM has
just been sent. -/
structure Ripe (K : Kernel) (w : World Daemon) (j : JobId) (t : ℤ) (justSent : Prop) : Prop where
  running : ∀ job, w.st.jobs.find j = some job → job.state = .running →
    ∃ timeout, job.spec.executionTimeout = some timeout ∧ RunFor K w.log j timeout t
  terminating : ∀ job, w.st.jobs.find j = some job → job.state = .terminating →
    GraceOver K w.log j t ∨ justSent

theorem Ripe.later {t t' : ℤ} {justSent justSent' : Prop} (h : Ripe K w j t justSent) (ht : t ≤ t')
    (hsent : justSent → justSent') : Ripe K w j t' justSent' where
  running job hjob hstate := by
    obtain ⟨timeout, htimeout, hrun⟩ := h.running job hjob hstate
    exact ⟨timeout, htimeout, hrun.later ht⟩
  terminating job hjob hstate :=
    (h.terminating job hjob hstate).imp (fun hgrace => hgrace.later ht) hsent

/-- A job that is not in the queue is not the next one to start. -/
theorem Step.ne_run (hstep : Step K l m m') (hsound : Sound n m) (hoff : OffQueue m.world.st j) :
    l ≠ .run j := by
  rintro rfl
  obtain ⟨job, hjob, hqueued⟩ := hoff
  cases hstep with
  | run hslot hwaiting =>
    have hstate := (hsound.slots.takeNext hsound.wf hwaiting).2.2.2.1
    rw [stateOf_of_find hjob] at hstate
    exact hqueued (Option.some.inj hstate)

/-- Only SIGTERM for this job can make its deadline mean something else. -/
theorem Step.ripe {t : ℤ} {justSent : Prop} (hstep : Step K l m m') (hsound : Sound n m)
    (hoff : OffQueue m.world.st j) (hterminate : l ≠ .terminate j)
    (h : Ripe K m.world j t justSent) : Ripe K m'.world j t justSent := by
  obtain ⟨events, hlog⟩ := hstep.log_prefix
  have hrun := hstep.ne_run hsound hoff
  constructor
  · intro job' hjob' hstate
    obtain ⟨job, hjob, heq, hspec⟩ := hstep.live hrun hterminate hjob' (by rw [hstate]; rfl)
    obtain ⟨timeout, htimeout, hfor⟩ := h.running job hjob (heq.trans hstate)
    refine ⟨timeout, hspec ▸ htimeout, ?_⟩
    rw [hlog]
    exact hfor.append (hstep.not_restarted hsound.wf hoff hlog)
  · intro job' hjob' hstate
    obtain ⟨job, hjob, heq, -⟩ := hstep.live hrun hterminate hjob' (by rw [hstate]; rfl)
    rw [hlog]
    exact (h.terminating job hjob (heq.trans hstate)).imp_left fun hgrace => hgrace.append events

/-- No deadline comes too early: neither those of the timeout manager nor those being acted upon,
`base` being the history when the last event was taken up. -/
structure Timely (K : Kernel) (base : List Event) (m : Moment) : Prop where
  grown : base <+: m.world.log
  deadlines : ∃ f, m.world.st.timeouts.Refines f ∧
    ∀ j d, f j = some d → Ripe K m.world j d False
  due : ∀ j ∈ m.due, Ripe K m.world j (K.now m.world.log) (SentSince base m.world.log j)

/-- A job with a deadline has left the queue. -/
theorem offQueue_of_deadline (hsound : Sound n m) {f : DeadlineMap JobId ℤ} {d : ℤ}
    (hf : m.world.st.timeouts.Refines f) (hj : f j = some d) : OffQueue m.world.st j := by
  apply hsound.timed.offQueue
  left
  rw [hf.isSome_iff, hj]
  rfl

/-- The time of a job's SIGTERM, as it stands in the history, is past. -/
theorem graceOver_of_sent (hclock : Steady K) {t : ℤ}
    (hsent : GraceOver K log j t ∨ SentSince base log j) :
    GraceOver K log j (K.now log + kTerminationGracePeriod * 1000000) := by
  have hfound : ∃ a group b, log = a ++ .signalled j group .SIGTERM :: b := by
    rcases hsent with ⟨a, group, b, hlog, -⟩ | ⟨events, group, hlog, hmem⟩
    · exact ⟨a, group, b, hlog⟩
    · obtain ⟨a, b, rfl⟩ := List.append_of_mem hmem
      exact ⟨base ++ a, group, b, by rw [hlog, List.append_assoc]⟩
  obtain ⟨a, group, b, hlog⟩ := hfound
  refine ⟨a, group, b, hlog, ?_⟩
  have hpast := hclock (a ++ [.signalled j group .SIGTERM]) b
  rw [List.append_assoc, List.singleton_append, ← hlog] at hpast
  omega

theorem Step.timely (hstep : Step K l m m') (hsound : Sound n m) (hclock : Steady K)
    (h : Timely K base m) : Timely K base m' := by
  obtain ⟨hgrown, ⟨f, hf, hripe⟩, hdue⟩ := h
  obtain ⟨events, hlog⟩ := hstep.log_prefix
  have hnow : K.now m.world.log ≤ K.now m'.world.log := hlog ▸ hclock _ _
  have hgrown' : base <+: m'.world.log := by
    rw [hlog]
    exact hgrown.trans (List.prefix_append _ _)
  have hsent : ∀ k, SentSince base m.world.log k → SentSince base m'.world.log k := by
    intro k hk
    rw [hlog]
    exact hk.append events
  -- what there was stays ripe
  have hold : ∀ k d, l ≠ .terminate k → f k = some d → Ripe K m'.world k d False := by
    intro k d hterminate hk
    exact hstep.ripe hsound (offQueue_of_deadline hsound hf hk) hterminate (hripe k d hk)
  have hstill : ∀ k ∈ m.due, l ≠ .terminate k →
      Ripe K m'.world k (K.now m'.world.log) (SentSince base m'.world.log k) := by
    intro k hk hterminate
    have hoff := hsound.timed.offQueue k (Or.inr hk)
    exact (hstep.ripe hsound hoff hterminate (hdue k hk)).later hnow (hsent k)
  have hcancelled : ∀ {j k : JobId} {d : ℤ}, (f.cancel j) k = some d → k ≠ j ∧ f k = some d := by
    intro j k d hk
    by_cases heq : k = j
    · rw [heq, DeadlineMap.cancel_self] at hk
      cases hk
    · rw [DeadlineMap.cancel_of_ne heq] at hk
      exact ⟨heq, hk⟩
  cases hstep with
  | attend | take | accept | refuse | hangUp | tend | rearm | answer | watch | submit | dequeue
    | misfire =>
    exact ⟨hgrown', ⟨f, hf, fun k d => hold k d (by simp)⟩, fun k hk => hstill k hk (by simp)⟩
  | @run w v k rest job timeouts more hslot hwaiting hstep hjob htimed hmore =>
    refine ⟨hgrown', ?_, by simp⟩
    rcases htimed with ⟨rfl, -⟩ | ⟨timeout, htimeout, hgen, rfl⟩
    · exact ⟨f, hf, fun k d => hold k d (by simp)⟩
    refine ⟨_, (hf.insert hgen _ _).discardStaleEntries, ?_⟩
    intro i d hi
    by_cases hik : i = job.id
    · subst hik
      rw [DeadlineMap.schedule_self] at hi
      obtain rfl := Option.some.inj hi
      rw [hsound.wf.id_eq hjob]
      obtain ⟨⟨before, hbefore⟩, job', hjob', hrunning, hspec⟩ := hstep.enters hjob
      constructor
      · intro job₁ hjob₁ _
        obtain rfl : job' = job₁ := Option.some.inj (hjob'.symm.trans hjob₁)
        refine ⟨timeout, hspec ▸ htimeout, before, more, ?_, ?_, ?_⟩
        · show v.log ++ more = _
          rw [hbefore, List.append_assoc, List.singleton_append]
        · intro hmem
          cases hmore _ hmem
        · rw [← hbefore]
      · intro job₁ hjob₁ hterminating
        obtain rfl : job' = job₁ := Option.some.inj (hjob'.symm.trans hjob₁)
        rw [hrunning] at hterminating
        cases hterminating
    · rw [DeadlineMap.schedule_of_ne hik] at hi
      exact hold i d (by simp) hi
  | release hnotified =>
    refine ⟨hgrown', ⟨_, hf.cancel _, ?_⟩, fun k hk => hstill k hk (by simp)⟩
    intro k d hk
    exact hold k d (by simp) (hcancelled hk).2
  | @expire w now more hread_at hread hmore =>
    obtain ⟨hexpired, hinorder⟩ := hf.expireAt now
    refine ⟨hgrown', ⟨_, hexpired.discardStaleEntries, ?_⟩, ?_⟩
    · intro k d hk
      exact hold k d (by simp) (DeadlineMap.expire_eq_some_iff.mp hk).1
    · intro k hk
      obtain ⟨d, hd, hle⟩ := (hinorder.mem_iff k).mp hk
      have hpast : now ≤ K.now (w.log ++ more) := by
        obtain ⟨rest, rfl⟩ := hread
        have hreading := hclock (w.log ++ [.called .readTimer]) rest
        rw [List.append_assoc, List.singleton_append, ← hread_at] at hreading
        exact hreading
      exact (hold k d (by simp) hd).later (hle.trans hpast) False.elim
  | skip | spare | kill =>
    exact ⟨hgrown', ⟨f, hf, fun k d => hold k d (by simp)⟩,
      fun k hk => hstill k (List.mem_cons_of_mem _ hk) (by simp)⟩
  | @terminate w v k cause due rest hdue' hstep =>
    refine ⟨hgrown', ⟨_, hf.cancel k, ?_⟩, ?_⟩
    · intro i d hi
      obtain ⟨hik, hi⟩ := hcancelled hi
      exact hold i d (by simpa using Ne.symm hik) hi
    · intro i hi
      by_cases hik : i = k
      · subst hik
        cases hstep with
        | @terminate _ _ p job _ hactive hjob hrunning =>
          have hfind := Table.find_set_self w.st.jobs i { job with
            state := .terminating, terminationCause := some cause }
          constructor
          · intro job₁ hjob₁ hstate
            obtain rfl := Option.some.inj (hfind.symm.trans hjob₁)
            cases hstate
          · intro _ _ _
            right
            obtain ⟨before, hbefore⟩ := hgrown
            have hbefore : base ++ before = w.log := hbefore
            refine ⟨before ++ [.signalled i p.processGroupId .SIGTERM, .entered i .terminating,
              .blamed i cause], p.processGroupId, ?_, by simp⟩
            rw [← List.append_assoc, hbefore]
            rfl
      · have hi := (List.mem_cons.mp hi).resolve_left hik
        rcases hdue' with ⟨rfl, -⟩ | ⟨-, rfl, -⟩
        · exact hstill i (List.mem_cons_of_mem _ hi) (by simpa using Ne.symm hik)
        · cases hi
  | @arm w k rest job deadline more hjob hterminating hdeadline hgen hmore =>
    refine ⟨hgrown', ⟨_, (hf.insert hgen k deadline).discardStaleEntries, ?_⟩,
      fun i hi => hstill i (List.mem_cons_of_mem _ hi) (by simp)⟩
    intro i d hi
    by_cases hik : i = k
    · subst hik
      rw [DeadlineMap.schedule_self] at hi
      obtain rfl := Option.some.inj hi
      subst hdeadline
      constructor
      · intro job₁ hjob₁ hstate
        obtain rfl := Option.some.inj (hjob.symm.trans hjob₁)
        rw [hterminating] at hstate
        cases hstate
      · intro job₁ hjob₁ hstate
        left
        have hdue := (hdue i List.mem_cons_self).terminating job hjob hterminating
        exact (graceOver_of_sent hclock hdue).append more
    · rw [DeadlineMap.schedule_of_ne hik] at hi
      exact hold i d (by simp) hi
  | @fumble w k rest deadline more hgen hmore =>
    refine ⟨hgrown', ⟨_, ((hf.insert hgen k deadline).discardStaleEntries).cancel k, ?_⟩,
      fun i hi => hstill i hi (by simp)⟩
    intro i d hi
    by_cases hik : i = k
    · rw [hik, DeadlineMap.cancel_self] at hi
      cases hi
    · rw [DeadlineMap.cancel_of_ne hik, DeadlineMap.schedule_of_ne hik] at hi
      exact hold i d (by simp) hi

/-! ## Timeouts -/

/-- The termination for a timeout comes when the job has run for as long as its timeout says. -/
def TimedOut (K : Kernel) (d : Daemon) (before : List Event) (e : Event) (_after : List Event) :
    Prop :=
  ∀ j, e = .blamed j .timedOut → ∃ job timeout group pre, d.jobs.find j = some job ∧
    job.spec.executionTimeout = some timeout ∧
    before = pre ++ [.signalled j group .SIGTERM, .entered j .terminating] ∧
    RunFor K pre j timeout (K.now pre)

theorem timedOut_calm {d : Daemon} (hevents : ∀ e ∈ events, calmEvent e) :
    Throughout (TimedOut K d) log events := by
  apply throughout_of_forall
  rintro e he pre post j rfl
  cases hevents _ he

theorem Step.timedOut (hstep : Step K l m m') (hsound : Sound n m) (htimely : Timely K base m)
    (h : Throughout (TimedOut K m.world.st) [] m.world.log) :
    Throughout (TimedOut K m'.world.st) [] m'.world.log := by
  have hold : Throughout (TimedOut K m'.world.st) [] m.world.log := by
    rintro pre e post hlog j rfl
    obtain ⟨job, timeout, group, before, hjob, htimeout, hrest⟩ := h pre _ post hlog j rfl
    obtain ⟨job', hjob', -, hspec⟩ := hstep.keeps_job hsound.wf ⟨job, hjob, rfl, rfl⟩
    exact ⟨job', timeout, group, before, hjob', hspec ▸ htimeout, hrest⟩
  have hgrow : ∀ {events}, m'.world.log = m.world.log ++ events →
      Throughout (TimedOut K m'.world.st) m.world.log events →
      Throughout (TimedOut K m'.world.st) [] m'.world.log := by
    intro events hlog hevents
    rw [hlog]
    apply hold.append (fun _ _ _ _ hevent => hevent)
    simpa using hevents
  by_cases hterminate : ∃ k, l = .terminate k
  · obtain ⟨k, rfl⟩ := hterminate
    cases hstep with
    | @terminate w v _ cause due rest hdue hstep =>
      cases hstep with
      | @terminate _ _ p job _ hactive hjob hrunning =>
        apply hgrow rfl
        simp only [throughout_cons, throughout_nil, and_true]
        refine ⟨(by simp [TimedOut]), (by simp [TimedOut]), ?_⟩
        intro j hj
        obtain ⟨rfl, rfl⟩ := Event.blamed.inj hj
        rcases hdue with ⟨rfl, -⟩ | ⟨-, -, hcause⟩
        · have hripe := htimely.due k List.mem_cons_self
          obtain ⟨timeout, htimeout, hrun⟩ := hripe.running job hjob hrunning
          refine ⟨_, timeout, p.processGroupId, w.log, Table.find_set_self _ _ _, htimeout, ?_, hrun⟩
          simp
        · cases hcause
  · by_cases hkill : ∃ k, l = .kill k
    · obtain ⟨k, rfl⟩ := hkill
      cases hstep with
      | kill hstep =>
        cases hstep with
        | kill =>
          apply hgrow rfl
          simp [TimedOut]
    · obtain ⟨events, hlog, hcalm⟩ := hstep.calm (fun k hk => hterminate ⟨k, hk⟩)
        fun k hk => hkill ⟨k, hk⟩
      exact hgrow hlog (timedOut_calm hcalm)

/-! ## Generations -/

/-- Once the generations are used up, they stay so. -/
theorem Step.exhausted (hstep : Step K l m m') (h : m.world.st.timeouts.nextGeneration = 0) :
    m'.world.st.timeouts.nextGeneration = 0 := by
  cases hstep with
  | run hslot hwaiting hstep hjob htimed hevents =>
    rcases htimed with ⟨rfl, -⟩ | ⟨timeout, -, hgen, -⟩
    · exact h
    · exact absurd h hgen
  | expire hnow hread hevents =>
    show (TimeoutManager.discardStaleEntries _).nextGeneration = 0
    rw [(TimeoutManager.discardStaleEntries_spec _).generation,
      TimeoutManager.nextGeneration_expireAt]
    exact h
  | arm hjob hterminating hdeadline hgen hevents => exact absurd h hgen
  | fumble hgen hevents => exact absurd h hgen
  | _ => exact h

/-! ## SIGKILL in a deadline event -/

/-- SIGKILL for a job at once, in an event that began in the world `start`. In the world `v` its
SIGTERM has just been delivered for its timeout, and `schedule` is called for its grace period. That
call fails, as no generation is left or `timerfd_settime` refuses, and since then the job has only
been looked after. -/
structure AtOnce (K : Kernel) (start v : World Daemon) (j : JobId) (before : List Event) : Prop where
  reached : ∃ due, Walk (Step K) Set.univ ⟨start, []⟩ ⟨v, j :: due⟩
  sent : ∃ a group, v.log = start.log ++ (a ++ [.signalled j group .SIGTERM,
    .entered j .terminating, .blamed j .timedOut])
  unscheduled : ¬ TimeoutManager.Settable K v.st.timeouts v.log
  since : ∃ looks, start.log ++ before = v.log ++
    (TimeoutManager.unsetEvents K v.st.timeouts v.log ++ looks) ∧
      ∀ e ∈ looks, ProcessMonitor.lookEvent e

/-- The SIGKILL of a deadline event comes when the grace period is over, or at once where the grace
period of this job could not be scheduled. -/
def Killed (K : Kernel) (start : World Daemon) (before : List Event) (e : Event)
    (_after : List Event) : Prop :=
  ∀ j group, e = .signalled j group .SIGKILL →
    GraceOver K (start.log ++ before) j (K.now (start.log ++ before)) ∨
      ∃ v, AtOnce K start v j before

variable {start : World Daemon}

theorem killed_calm (hevents : delivered events = []) :
    Throughout (Killed K start) log events := by
  apply throughout_of_forall
  rintro e he pre post j group rfl
  have hmem := ProcessMonitor.mem_delivered.mpr he
  rw [hevents] at hmem
  cases hmem

theorem delivered_looks (h : ∀ e ∈ events, ProcessMonitor.lookEvent e) : delivered events = [] := by
  apply delivered_calm
  intro e he
  have hlook := h e he
  cases e <;> first | rfl | cases hlook

theorem unsetEvents_quiet (t : TimeoutManager) (log : List Event) :
    delivered (TimeoutManager.unsetEvents K t log) = [] := by
  unfold TimeoutManager.unsetEvents
  split_ifs <;> rfl

/-- The attempt to kill a job. -/
theorem forceKill_signals (hwf : ProcessMonitor.Wf w.st.monitor)
    (hjob : w.st.jobs.find j = some job) (hterminating : job.state = .terminating) :
    wp (inMonitor (ProcessMonitor.forceKill K j)) (fun _ w' => ∃ events, w'.log = w.log ++ events ∧
      (delivered events = [] ∨ ∃ looks group, (∀ e ∈ looks, ProcessMonitor.lookEvent e) ∧
        events = looks ++ [.signalled j group .SIGKILL])) w := by
  obtain ⟨p, hactive⟩ := (hwf.active_iff hjob).mpr (by rw [hterminating]; rfl)
  apply wp_inMonitor
  have hboth : wp (ProcessMonitor.forceKill K j) (fun r v => (∃ events,
      ProcessMonitor.KillEnds K j p job (monitorWorld w) r v events) ∧ (r = .ok true → ∃ looks,
        v.log = w.log ++ (looks ++ [.signalled j p.processGroupId .SIGKILL]) ∧
          ∀ e ∈ looks, ProcessMonitor.lookEvent e)) (monitorWorld w) :=
    ⟨ProcessMonitor.forceKill_ends (w := monitorWorld w) hwf hactive hjob hterminating,
      ProcessMonitor.forceKill_looks (w := monitorWorld w) hwf hactive hjob hterminating⟩
  apply wp_mono hboth
  intro r v hv
  obtain ⟨⟨events, hends⟩, hlooks⟩ := hv
  by_cases hr : r = .ok true
  · obtain ⟨looks, hlog, hlooks⟩ := hlooks hr
    exact ⟨_, hlog, Or.inr ⟨looks, _, hlooks, rfl⟩⟩
  · refine ⟨events, hends.log, Or.inl ?_⟩
    rw [hends.signals]
    split
    · exact absurd rfl hr
    · rfl

/-- `scheduleForceKillDeadline` kills only where the grace period cannot be scheduled. -/
theorem scheduleForceKillDeadline_signals (hwf : ProcessMonitor.Wf w.st.monitor)
    (htimeouts : ∃ f, (withoutDeadline w j).st.timeouts.Refines f)
    (hjob : w.st.jobs.find j = some job) (hterminating : job.state = .terminating) :
    wp (scheduleForceKillDeadline K j) (fun _ w' => ∃ events, w'.log = w.log ++ events ∧
      (delivered events = [] ∨
        ¬ TimeoutManager.Settable K (withoutDeadline w j).st.timeouts w.log ∧
          ∃ looks group, (∀ e ∈ looks, ProcessMonitor.lookEvent e) ∧
            events = TimeoutManager.unsetEvents K (withoutDeadline w j).st.timeouts w.log ++
              (looks ++ [.signalled j group .SIGKILL]))) w := by
  unfold scheduleForceKillDeadline
  have hupdate : ∀ w : World Daemon,
      inTimeouts (update fun t => t.cancel j) w = (.ok (), withoutDeadline w j) := fun _ => rfl
  refine wp_bind_ok (hupdate w) ?_
  obtain ⟨f, hf⟩ := htimeouts
  obtain ⟨-, hrun⟩ | ⟨hnot, e, hrun⟩ := TimeoutManager.schedule_foretold (K := K)
    (w := ⟨(withoutDeadline w j).st.timeouts, w.log⟩) hf j kTerminationGracePeriod_pos
  · apply wp_of_run (tryCatch_of_ok (inTimeouts_run hrun))
    refine ⟨_, rfl, Or.inl (delivered_calm fun e he => ?_)⟩
    simp only [TimeoutManager.setEvents, TimeoutManager.clockReads, List.mem_append, List.mem_cons,
      List.not_mem_nil, or_false] at he
    rcases he with (rfl | rfl) | rfl <;> rfl
  · refine wp_tryCatch_error (inTimeouts_run hrun) (wp_bind_ok (hupdate _) ?_)
    set unset := TimeoutManager.unsetEvents K (withoutDeadline w j).st.timeouts w.log with hunset
    have hquiet : delivered unset = [] := unsetEvents_quiet _ _
    have hdone : ∀ w' : World Daemon, (∃ events, w'.log = w.log ++ unset ++ events ∧
        (delivered events = [] ∨ ∃ looks group, (∀ e ∈ looks, ProcessMonitor.lookEvent e) ∧
          events = looks ++ [.signalled j group .SIGKILL])) →
        ∃ events, w'.log = w.log ++ events ∧ (delivered events = [] ∨
          ¬ TimeoutManager.Settable K (withoutDeadline w j).st.timeouts w.log ∧
            ∃ looks group, (∀ e ∈ looks, ProcessMonitor.lookEvent e) ∧
              events = unset ++ (looks ++ [.signalled j group .SIGKILL])) := by
      rintro w' ⟨events, hlog, hkill⟩
      refine ⟨unset ++ events, by rw [hlog, List.append_assoc], hkill.imp (fun hnone => ?_) ?_⟩
      · rw [delivered_append, hquiet, hnone]
        rfl
      · rintro ⟨looks, group, hlooks, rfl⟩
        exact ⟨hnot, looks, group, hlooks, rfl⟩
    exact wp_bind (wp_mono (forceKill_signals (w := withoutDeadline _ j) hwf hjob hterminating)
      fun _ w' h => hdone w' h) (fun _ _ h => wp_pure h) fun _ _ h => h

/-- A request to terminate a job whose time is up. Where SIGTERM is delivered, this is where `schedule`
is called for the grace period. -/
theorem requestTerminate_signals {rest : List JobId} (hsound : Sound n ⟨w, j :: rest⟩)
    (hjob : w.st.jobs.find j = some job) (hrunning : job.state = .running) :
    wp (inMonitor (ProcessMonitor.requestTerminate K j .timedOut)) (fun r w' => ∃ events,
      w'.log = w.log ++ events ∧ (∀ x ∈ delivered events, ∃ group, x = (j, group, .SIGTERM)) ∧
      (r = .ok true → (∃ a group, events = a ++ [.signalled j group .SIGTERM,
          .entered j .terminating, .blamed j .timedOut]) ∧
        Walk (Step K) Set.univ ⟨w, j :: rest⟩ ⟨withoutDeadline w' j, j :: rest⟩ ∧
        ∃ job', w'.st.jobs.find j = some job' ∧ job'.state = .terminating)) w := by
  have hwf := hsound.wf
  obtain ⟨p, hactive⟩ := (hwf.active_iff hjob).mpr (by rw [hrunning]; rfl)
  have hwalk := ProcessMonitor.looked_walk (K := K) (w := monitorWorld w) hwf hactive
  have hwatch : Walk (Step K) Set.univ ⟨w, j :: rest⟩
      ⟨withMonitor w (ProcessMonitor.looked K j (monitorWorld w)), j :: rest⟩ :=
    (walk_watch (ProcessMonitor.polls_le_watches j) hwalk).mono (Set.subset_univ _)
  obtain ⟨looks, hlooks⟩ := prefix_of_walk hwatch
  have hlooks : w.log ++ looks = (ProcessMonitor.looked K j (monitorWorld w)).log := hlooks
  have hasked : wp (ProcessMonitor.requestTerminate K j .timedOut) (fun r v =>
      (∃ events, ProcessMonitor.TerminateEnds K j p job .timedOut (monitorWorld w) r v events) ∧
        ProcessMonitor.Requested K j .timedOut (ProcessMonitor.looked K j (monitorWorld w)) v r)
      (monitorWorld w) :=
    ⟨ProcessMonitor.requestTerminate_ends (w := monitorWorld w) hwf hactive hjob hrunning .timedOut,
      ProcessMonitor.requestTerminate_spec (w := monitorWorld w) hwf hjob hrunning .timedOut⟩
  apply wp_inMonitor
  apply wp_mono hasked
  intro r v hv
  obtain ⟨⟨events, hends⟩, hrequested⟩ := hv
  have hsignals := hends.signals
  refine ⟨events, hends.log, ?_, ?_⟩
  · intro x hx
    rw [hsignals] at hx
    split at hx
    · exact ⟨_, List.mem_singleton.mp hx⟩
    · cases hx
  · intro hr
    subst hr
    cases hrequested with
    | terminated hstep =>
      obtain ⟨hterminate, -⟩ := terminated_due (sound_of_walk hwatch hsound) (Or.inl ⟨rfl, rfl⟩)
        (w := withMonitor w (ProcessMonitor.looked K j (monitorWorld w))) hstep
      refine ⟨?_, hwatch.tail (Set.mem_univ _) hterminate, ?_⟩
      · cases hstep with
        | @terminate _ _ q _ _ hactive' hjob' hrunning' =>
          have hlog := hends.log
          rw [← hlooks] at hlog
          refine ⟨looks, q.processGroupId, ?_⟩
          rw [List.append_assoc] at hlog
          exact (List.append_cancel_left hlog).symm
      · refine ⟨{ job with state := .terminating, terminationCause := some .timedOut }, ?_, rfl⟩
        show v.st.jobs.find j = _
        rw [hends.terminated rfl]
        exact Table.find_set_self _ _ _

/-- What a round of the loop over the jobs that are due writes: the signals are for its job, and
SIGKILL does not come too early. -/
def RoundKills (K : Kernel) (start : World Daemon) (e0 : List Event) (j : JobId)
    (w w' : World Daemon) : Prop :=
  ∃ events, w'.log = w.log ++ events ∧ (∀ x ∈ delivered events, x.1 = j) ∧
    Throughout (Killed K start) e0 events

theorem roundKills_calm {w' : World Daemon} {e0 : List Event} (hlog : w'.log = w.log ++ events)
    (hevents : delivered events = []) : RoundKills K start e0 j w w' := by
  refine ⟨events, hlog, ?_, killed_calm hevents⟩
  rw [hevents]
  intro x hx
  cases hx

/-- A SIGKILL after events that deliver no signal. -/
theorem roundKills_kill {w' : World Daemon} {e0 looks : List Event} {group : Pid}
    (hlog : w'.log = w.log ++ (looks ++ [.signalled j group .SIGKILL]))
    (hlooks : delivered looks = []) (hkill : GraceOver K (start.log ++ (e0 ++ looks)) j
      (K.now (start.log ++ (e0 ++ looks))) ∨ ∃ v, AtOnce K start v j (e0 ++ looks)) :
    RoundKills K start e0 j w w' := by
  refine ⟨_, hlog, ?_, (killed_calm hlooks).append (fun _ _ _ _ h => h) ?_⟩
  · intro x hx
    rw [delivered_append, hlooks, List.nil_append] at hx
    rw [List.mem_singleton.mp hx]
  · rw [throughout_cons]
    refine ⟨?_, throughout_nil⟩
    intro i group' heq
    obtain ⟨rfl, -⟩ := Event.signalled.inj heq
    exact hkill

theorem RoundKills.trans {w1 w' : World Daemon} {e0 : List Event}
    (h : RoundKills K start e0 j w w1) (hlog : w1.log = w.log ++ events)
    (h' : RoundKills K start (e0 ++ events) j w1 w') : RoundKills K start e0 j w w' := by
  obtain ⟨before, hlog₁, hown, hkilled⟩ := h
  obtain rfl : before = events := List.append_cancel_left (hlog₁.symm.trans hlog)
  obtain ⟨more, hlog', hown', hkilled'⟩ := h'
  refine ⟨before ++ more, by rw [hlog', hlog, List.append_assoc], ?_,
    hkilled.append (fun _ _ _ _ h => h) hkilled'⟩
  intro x hx
  rw [delivered_append, List.mem_append] at hx
  exact hx.elim (hown x) (hown' x)

/-- Signals that are SIGTERMs for the job of this round. -/
theorem roundKills_terms {w' : World Daemon} {e0 : List Event} (hlog : w'.log = w.log ++ events)
    (hterms : ∀ x ∈ delivered events, ∃ group, x = (j, group, .SIGTERM)) :
    RoundKills K start e0 j w w' := by
  refine ⟨events, hlog, ?_, ?_⟩
  · intro x hx
    obtain ⟨group, rfl⟩ := hterms x hx
    rfl
  · apply throughout_of_forall
    rintro e he pre post i group rfl
    obtain ⟨group', hx⟩ := hterms _ (ProcessMonitor.mem_delivered.mpr he)
    cases hx

/-- One round of the loop. -/
theorem deadlineRound_kills {rest : List JobId} {e0 : List Event} (hclock : Steady K)
    (hreached : Walk (Step K) Set.univ ⟨start, []⟩ ⟨w, j :: rest⟩)
    (hsound : Sound n ⟨w, j :: rest⟩) (htimely : Timely K start.log ⟨w, j :: rest⟩)
    (hlog : w.log = start.log ++ e0) (hothers : ∀ x ∈ delivered e0, x.1 ≠ j) :
    wp (deadlineLoop K [j]) (fun _ w' => RoundKills K start e0 j w w') w := by
  have hwf : ProcessMonitor.Wf w.st.monitor := hsound.wf
  have hidle : RoundKills K start e0 j w w := roundKills_calm (List.append_nil _).symm rfl
  have hdone : ∀ w', RoundKills K start e0 j w w' →
      wp (deadlineLoop K []) (fun _ w' => RoundKills K start e0 j w w') w' := fun _ h => wp_pure h
  unfold deadlineLoop
  refine wp_bind_ok (state_run w) ?_
  obtain ⟨job, hjob, hqueued⟩ := hsound.timed.offQueue j (Or.inr List.mem_cons_self)
  rw [hjob]
  simp only
  cases hstate : job.state with
  | running =>
    refine wp_bind (requestTerminate_signals hsound hjob hstate) (fun requested w1 h1 => ?_)
      fun e w1 h1 => ?_
    · obtain ⟨events, hlog1, hown, htrue⟩ := h1
      have hterms : RoundKills K start e0 j w w1 := roundKills_terms hlog1 hown
      cases requested with
      | false => exact hdone w1 hterms
      | true =>
        obtain ⟨⟨a, group, hevents⟩, hwalk, job1, hjob1, hstate1⟩ := htrue rfl
        have hsound1 := sound_of_walk hwalk hsound
        have hkills : wp (scheduleForceKillDeadline K j) (fun _ w' => RoundKills K start e0 j w w')
            w1 := by
          apply wp_mono (scheduleForceKillDeadline_signals (K := K) (w := w1) hsound1.wf
            hsound1.timed.refines hjob1 hstate1)
          intro _ w2 h2
          obtain ⟨more, hlog2, hmore⟩ := h2
          -- the history when `schedule` is called
          have hbefore : w1.log = start.log ++ (e0 ++ events) := by
            rw [hlog1, hlog, List.append_assoc]
          have hround : RoundKills K start (e0 ++ events) j w1 w2 := by
            obtain hquiet | ⟨hnot, looks, group', hlooks, rfl⟩ := hmore
            · exact roundKills_calm hlog2 hquiet
            · set unset := TimeoutManager.unsetEvents K (withoutDeadline w1 j).st.timeouts w1.log
                with hunset
              rw [← List.append_assoc unset] at hlog2
              refine roundKills_kill hlog2 ?_ (Or.inr ⟨withoutDeadline w1 j, ?_⟩)
              · rw [delivered_append, unsetEvents_quiet, delivered_looks hlooks]
                rfl
              · refine ⟨⟨rest, hreached.trans hwalk⟩, ⟨e0 ++ a, group, ?_⟩, hnot, looks, ?_, hlooks⟩
                · show w1.log = _
                  rw [hbefore, hevents, List.append_assoc e0]
                · show start.log ++ (e0 ++ events ++ (unset ++ looks)) = w1.log ++ (unset ++ looks)
                  rw [← List.append_assoc, ← hbefore]
          exact hterms.trans hlog1 hround
        exact wp_bind hkills (fun _ w2 h2 => hdone w2 h2) fun _ _ h2 => h2
    · obtain ⟨events, hlog1, hown, -⟩ := h1
      exact roundKills_terms hlog1 hown
  | terminating =>
    have hgrace : GraceOver K w.log j (K.now w.log) := by
      rcases (htimely.due j List.mem_cons_self).terminating job hjob hstate with hgrace | hsent
      · exact hgrace
      · -- no signal has been sent to this job since the event was taken up
        obtain ⟨events, group, heq, hmem⟩ := hsent
        have heq : w.log = start.log ++ events := heq
        rw [hlog] at heq
        obtain rfl := List.append_cancel_left heq
        exact absurd rfl (hothers _ (ProcessMonitor.mem_delivered.mpr hmem))
    have hkill : wp (inMonitor (ProcessMonitor.forceKill K j))
        (fun _ w' => RoundKills K start e0 j w w') w := by
      apply wp_mono (forceKill_signals hwf hjob hstate)
      intro _ w1 h1
      obtain ⟨events, hlog1, hquiet | ⟨looks, group, hlooks, rfl⟩⟩ := h1
      · exact roundKills_calm hlog1 hquiet
      · refine roundKills_kill hlog1 (delivered_looks hlooks) (Or.inl ?_)
        rw [← List.append_assoc, ← hlog]
        exact (hgrace.append looks).later (hclock _ _)
    exact wp_bind hkill (fun _ w1 h1 => hdone w1 h1) fun _ _ h1 => h1
  | queued => exact absurd hstate hqueued
  | succeeded => exact hdone w hidle
  | failed => exact hdone w hidle
  | cancelled => exact hdone w hidle
  | timedOut => exact hdone w hidle
  | interrupted => exact hdone w hidle

/-- The loop over the jobs that are due. -/
theorem deadlineLoop_kills (due : List JobId) (e0 : List Event) (hclock : Steady K)
    (hreached : Walk (Step K) Set.univ ⟨start, []⟩ ⟨w, due⟩) (hsound : Sound n ⟨w, due⟩)
    (htimely : Timely K start.log ⟨w, due⟩) (hlog : w.log = start.log ++ e0)
    (hothers : ∀ x ∈ delivered e0, x.1 ∉ due) :
    wp (deadlineLoop K due) (fun _ w' => ∃ events, w'.log = w.log ++ events ∧
      Throughout (Killed K start) e0 events) w := by
  induction due generalizing w e0 with
  | nil => exact wp_pure ⟨[], (List.append_nil _).symm, throughout_nil⟩
  | cons j rest ih =>
    have hnodup := List.nodup_cons.mp hsound.timed.due_nodup
    have hown : ∀ x ∈ delivered e0, x.1 ≠ j := by
      rintro x hx rfl
      exact hothers x hx List.mem_cons_self
    rw [deadlineLoop_cons]
    have hround : wp (deadlineLoop K [j]) (fun r w1 => RoundKills K start e0 j w w1 ∧ ∃ due',
        Walk (Step K) {l | l.strikes} ⟨w, j :: rest⟩ ⟨w1, due'⟩ ∧ (r = .ok () → due' = rest)) w :=
      ⟨deadlineRound_kills hclock hreached hsound htimely hlog hown, deadlineRound_spec hsound⟩
    refine wp_bind hround (fun _ w1 h1 => ?_) fun e w1 h1 => ?_
    · obtain ⟨⟨events, hlog1, hsignals, hkilled⟩, due', hwalk, hok⟩ := h1
      obtain rfl := hok rfl
      obtain ⟨hsound1, htimely1⟩ := sound_invariant (P := Timely K start.log)
        (fun _ _ _ hs hstep ht => hstep.timely hs hclock ht) hwalk hsound htimely
      have hlog' : w1.log = start.log ++ (e0 ++ events) := by
        rw [hlog1, hlog, List.append_assoc]
      have hothers' : ∀ x ∈ delivered (e0 ++ events), x.1 ∉ due' := by
        intro x hx
        rw [delivered_append, List.mem_append] at hx
        rcases hx with hx | hx
        · exact fun hmem => hothers x hx (List.mem_cons_of_mem _ hmem)
        · rw [hsignals x hx]
          exact hnodup.1
      have hreached1 := hreached.trans (hwalk.mono (Set.subset_univ _))
      apply wp_mono (ih _ hreached1 hsound1 htimely1 hlog' hothers')
      intro _ w' h'
      obtain ⟨more, hmore, hkilled'⟩ := h'
      refine ⟨events ++ more, by rw [hmore, hlog1, List.append_assoc], ?_⟩
      exact hkilled.append (fun _ _ _ _ h => h) hkilled'
    · obtain ⟨⟨events, hlog1, -, hkilled⟩, -⟩ := h1
      exact ⟨events, hlog1, hkilled⟩

theorem handleDeadlineEvent_kills (e0 : List Event) (hclock : Steady K)
    (hreached : Walk (Step K) Set.univ ⟨start, []⟩ ⟨w, []⟩) (hsound : Sound n ⟨w, []⟩)
    (htimely : Timely K start.log ⟨w, []⟩) (hlog : w.log = start.log ++ e0)
    (hquiet : delivered e0 = []) (eventMask : EventMask) :
    wp (handleDeadlineEvent K eventMask) (fun _ w' => ∃ events, w'.log = w.log ++ events ∧
      Throughout (Killed K start) e0 events) w := by
  have hchores : ∀ w' : World Daemon, ∀ events, w'.log = w.log ++ events →
      (∀ e ∈ events, choreEvent e) → ∃ events, w'.log = w.log ++ events ∧
        Throughout (Killed K start) e0 events :=
    fun _ events hlog' hevents => ⟨events, hlog', killed_calm (delivered_chores hevents)⟩
  unfold handleDeadlineEvent
  split_ifs
  · exact wp_throw (hchores w [] (List.append_nil _).symm (by simp))
  obtain ⟨e, hrun⟩ | ⟨now, events, hnow, hevents, ⟨e, hrun⟩ | hrun⟩ :=
    TimeoutManager.handleReadable_run K ⟨w.st.timeouts, w.log⟩
  · apply wp_of_run (bind_of_error (inTimeouts_run hrun))
    exact hchores _ _ rfl (by simp [choreEvent])
  · apply wp_of_run (bind_of_error (inTimeouts_run hrun))
    exact hchores _ _ rfl (List.forall_mem_cons.mpr ⟨rfl, choreEvents_of_armingEvents _ hevents⟩)
  · refine wp_bind_ok (inTimeouts_run hrun) ?_
    have hread : ∀ e ∈ .called .readTimer :: .clock now ::
        (events ++ [.expired (w.st.timeouts.expireAt now).2]), choreEvent e := by
      refine List.forall_mem_cons.mpr ⟨rfl, List.forall_mem_cons.mpr ⟨rfl, ?_⟩⟩
      refine List.forall_mem_append.mpr ⟨fun e he => choreEvent_of_armingEvent (hevents e he), ?_⟩
      simp [choreEvent]
    have hexpire := Step.expire (K := K) (w := w) hnow ⟨_, rfl⟩ hread
    have hnone := delivered_chores hread
    have hloop := deadlineLoop_kills _ (e0 ++ .called .readTimer :: .clock now ::
        (events ++ [.expired (w.st.timeouts.expireAt now).2])) hclock
      (hreached.tail (Set.mem_univ _) hexpire) (hexpire.sound hsound)
      (hexpire.timely hsound hclock htimely) (by simp [hlog]) (by
        rw [delivered_append, hquiet, hnone]
        simp)
    apply wp_mono hloop
    intro _ w' h'
    obtain ⟨more, hmore, hkilled⟩ := h'
    refine ⟨_ ++ more, hmore.trans (List.append_assoc _ _ _), ?_⟩
    exact (killed_calm hnone).append (fun _ _ _ _ h => h) hkilled

/-- Starting jobs and giving slots back delivers no signal. -/
theorem quiet_of_pumps {A : Set Label} (hA : A ⊆ {l | l.pumps}) (hwalk : Walk (Step K) A m m') :
    ∃ events, m'.world.log = m.world.log ++ events ∧ delivered events = [] := by
  induction hwalk with
  | refl => exact ⟨[], (List.append_nil _).symm, rfl⟩
  | tail _ hlast ih =>
    obtain ⟨events, hlog, hquiet⟩ := ih
    obtain ⟨l, hl, hstep⟩ := hlast
    have hl : l.pumps = true := hA hl
    have hcalm := hstep.calm (by rintro k rfl; cases hl) (by rintro k rfl; cases hl)
    obtain ⟨more, hmore, hcalm⟩ := hcalm
    refine ⟨events ++ more, by rw [hmore, hlog, List.append_assoc], ?_⟩
    rw [delivered_append, hquiet, delivered_calm hcalm]
    rfl

theorem dispatch_kills {fd : Fd} (hclock : Steady K) (hsound : Sound n ⟨w, []⟩)
    (htimely : Timely K w.log ⟨w, []⟩) (hroute : w.st.route fd = .timer) (eventMask : EventMask) :
    wp (dispatch K fd eventMask) (fun _ w' => ∃ events, w'.log = w.log ++ events ∧
      Throughout (Killed K w) [] events) w := by
  unfold route at hroute
  split_ifs at hroute with h1 h2
  have htake : Step K (.take fd) ⟨w, []⟩ ⟨dispatching w fd, []⟩ := Step.take
  have hsound1 := htake.sound hsound
  refine wp_bind_ok (emit_run w _) (wp_bind_ok (state_run _) ?_)
  rw [if_neg (by exact h1), if_pos (by exact h2)]
  have hhandle : wp (handleDeadlineEvent K eventMask) (fun r w1 => (∃ events,
      w1.log = w.log ++ .dispatching fd :: events ∧
        Throughout (Killed K w) [] (.dispatching fd :: events)) ∧
      ∃ due, Walk (Step K) {l | l.times} ⟨dispatching w fd, []⟩ ⟨w1, due⟩ ∧ (r = .ok () → due = []))
      (dispatching w fd) := by
    have hkills := handleDeadlineEvent_kills [.dispatching fd] hclock
      (Walk.single (Set.mem_univ _) htake) hsound1 (htake.timely hsound hclock htimely) rfl rfl
      eventMask
    obtain ⟨events, hlog, hkilled⟩ := hkills
    refine ⟨⟨events, by rw [hlog]; simp, ?_⟩, handleDeadlineEvent_spec hsound1 eventMask⟩
    rw [throughout_cons]
    exact ⟨(by simp [Killed]), hkilled⟩
  refine wp_bind hhandle (fun _ w1 hw1 => ?_) fun _ w1 hw1 => ?_
  · obtain ⟨⟨events, hlog, hkilled⟩, due, hwalk, hok⟩ := hw1
    obtain rfl := hok rfl
    apply wp_mono (processTerminalJobNotifications_spec (K := K) (sound_of_walk hwalk hsound1))
    intro _ w' h'
    obtain ⟨more, hmore, hquiet⟩ := quiet_of_pumps (fun _ hl => hl) h'.1
    refine ⟨_ ++ more, ?_, hkilled.append (fun _ _ _ _ h => h) (killed_calm hquiet)⟩
    exact (hmore.trans (congrArg (· ++ more) hlog)).trans (List.append_assoc _ _ _)
  · obtain ⟨⟨events, hlog, hkilled⟩, -⟩ := hw1
    exact ⟨_, hlog, hkilled⟩

end Daemon

/-! ## Runs -/

section Runs

open Daemon ProcessMonitor

variable {K : Kernel} {s : Setup}

theorem Daemon.timely_initial (K : Kernel) (s : Setup) : Timely K [] ⟨s.initial, []⟩ where
  grown := List.nil_prefix
  deadlines := ⟨_, TimeoutManager.refines_initial, fun _ _ h => by cases h⟩
  due j hj := by cases hj

/-- The cause of the ledger was recorded. -/
theorem blamed_of_cause {log : List Event} {j : JobId} {cause : TerminationCause}
    (h : (ledger log).cause j = some cause) : .blamed j cause ∈ log := by
  induction log using List.reverseRecOn with
  | nil => cases h
  | append_singleton log e ih =>
    rw [ledger_concat] at h
    rw [List.mem_append]
    cases e with
    | blamed k c =>
      have h : Function.update (ledger log).cause k (some c) j = some cause := h
      by_cases hk : j = k
      · subst hk
        rw [Function.update_self] at h
        obtain rfl := Option.some.inj h
        exact Or.inr (List.mem_singleton.mpr rfl)
      · rw [Function.update_of_ne hk] at h
        exact Or.inl (ih h)
    | _ => exact Or.inl (ih h)

/-- On a clock that never goes back: a job without an execution timeout is never given the cause
`TimedOut`; the SIGTERM with this cause comes when the job has been in RUNNING for its timeout; and the
SIGKILL of a deadline event comes when the grace period is over, unless this event has just sent
SIGTERM to the job and the call of `schedule` for its grace period has failed. -/
theorem deadlines_kept (hclock : Steady K) :
    (∀ w, Ran K s w →
      (∀ j job, w.st.jobs.find j = some job → job.terminationCause = some .timedOut →
        job.spec.executionTimeout ≠ none) ∧
      Throughout (TimedOut K w.st) [] w.log) ∧
    ∀ w fd eventMask, Between K s w → w.st.route fd = .timer →
      wp (dispatch K fd eventMask) (fun _ w' => ∃ events, w'.log = w.log ++ events ∧
        Throughout (Killed K w) [] events) w := by
  have hstep : ∀ l m m', Sound s.maxRunning m → Daemon.Step K l m m' → Timely K [] m →
      Timely K [] m' := fun _ _ _ hs hstep ht => hstep.timely hs hclock ht
  constructor
  · intro w hran
    have hboth : ∀ l m m', Sound s.maxRunning m → Daemon.Step K l m m' →
        Timely K [] m ∧ Throughout (TimedOut K m.world.st) [] m.world.log →
        Timely K [] m' ∧ Throughout (TimedOut K m'.world.st) [] m'.world.log :=
      fun _ _ _ hs hlast h => ⟨hstep _ _ _ hs hlast h.1, hlast.timedOut hs h.1 h.2⟩
    have hstart : Throughout (TimedOut K s.initial.st) [] s.initial.log :=
      timedOut_calm (by simp [Setup.initial, calmEvent])
    obtain ⟨due, hsound, -, htimed⟩ := hran.invariant ⟨Daemon.timely_initial K s, hstart⟩ hboth
    refine ⟨?_, htimed⟩
    intro j job hjob hcause
    have hledger : (ledger w.log).cause j = some .timedOut := by
      have hrec := hsound.recorded.cause j
      rw [show (monitorWorld w).st.jobs.find j = some job from hjob, Option.bind_some, hcause] at hrec
      exact hrec
    obtain ⟨pre, post, hlog⟩ := List.append_of_mem (blamed_of_cause hledger)
    obtain ⟨job', timeout, -, -, hjob', htimeout, -⟩ := htimed pre _ post hlog j rfl
    obtain rfl := Option.some.inj (hjob.symm.trans hjob')
    rw [htimeout]
    exact Option.some_ne_none timeout
  · intro w fd eventMask hbetween hroute
    obtain ⟨hsound, htimely⟩ := sound_invariant hstep hbetween (sound_initial s)
      (Daemon.timely_initial K s)
    exact dispatch_kills hclock hsound ⟨List.prefix_rfl, htimely.deadlines, by simp⟩ hroute eventMask

/-- A client submits a job with a timeout of a millisecond, and the timer expires twice. -/
def timeoutScript (K : Kernel) : Kernel :=
  K.withClient [[(3, { epollin := true })], [(7, { epollin := true })], [(6, { epollin := true })],
    [(6, { epollin := true })]] [[], submitPayload 1 [text "/a"]]

/-- A machine on which a second passes in each round. -/
def slowKernel : Kernel :=
  timeoutScript { Kernel.quiet with now := fun log => 1000000000 * rounds log }

/-- A machine on which a millisecond passes in each round, and on which the timer cannot be set any
more once a signal has been delivered. -/
def hastyKernel : Kernel :=
  timeoutScript { Kernel.quiet with
    now := fun log => 1000000 * rounds log
    settime := fun log => if delivered log = [] then .done (.ok ()) else .done (.error (.other 22)) }

theorem rounds_append (log events : List Event) :
    rounds (log ++ events) = rounds log + rounds events := List.count_append

theorem steady_slowKernel : Steady slowKernel := by
  intro log events
  show (1000000000 * rounds log : ℤ) ≤ 1000000000 * rounds (log ++ events)
  rw [rounds_append]
  omega

theorem steady_hastyKernel : Steady hastyKernel := by
  intro log events
  show (1000000 * rounds log : ℤ) ≤ 1000000 * rounds (log ++ events)
  rw [rounds_append]
  omega

theorem deadlines_kept_run :
    Throughout (TimedOut slowKernel (after slowKernel oneSlot 4).st) []
      (after slowKernel oneSlot 4).log ∧
    .blamed 1 .timedOut ∈ (after slowKernel oneSlot 4).log ∧
    (ledger (after slowKernel oneSlot 4).log).signals 1 = [.SIGTERM, .SIGKILL] := by
  have hran : Ran slowKernel oneSlot (after slowKernel oneSlot 4) :=
    ran_after (m := 3) (by decide +kernel)
  exact ⟨((deadlines_kept steady_slowKernel).1 _ hran).2, by decide +kernel, by decide +kernel⟩

/-- The moment in which the job's timeout is over on the hasty machine. -/
def hastyMoment : World Daemon := (after hastyKernel oneSlot 2).emit .woke

/-- A SIGKILL less than the grace period after the start of the clock is too early. -/
theorem not_graceOver {w w' : World Daemon} {j : JobId} {g : Pid} (hclock : Steady K)
    (hstart : ∀ log, 0 ≤ K.now log) (hsoon : K.now w'.log < kTerminationGracePeriod * 1000000)
    (hkill : .signalled j g .SIGKILL ∈ w'.log.drop w.log.length) :
    ¬ ∃ events, w'.log = w.log ++ events ∧ Throughout (fun before e _ => ∀ j group,
      e = .signalled j group .SIGKILL →
        GraceOver K (w.log ++ before) j (K.now (w.log ++ before))) [] events := by
  rintro ⟨events, hlog, hgrace⟩
  rw [hlog, List.drop_left] at hkill
  obtain ⟨pre, post, rfl⟩ := List.append_of_mem hkill
  obtain ⟨a, g', b, -, hover⟩ := hgrace pre _ post rfl j g rfl
  rw [List.nil_append] at hover
  have hlast := hclock (w.log ++ pre) (.signalled j g .SIGKILL :: post)
  rw [List.append_assoc, ← hlog] at hlast
  have hsent := hstart (a ++ [.signalled j g' .SIGTERM])
  omega

/-- Where the timer cannot be set for the grace period, SIGKILL is sent at once. -/
theorem dispatch_killsAtOnce : Steady hastyKernel ∧ Between hastyKernel oneSlot hastyMoment ∧
    hastyMoment.st.route 6 = .timer ∧
    ¬ ∃ events, (dispatch hastyKernel 6 { epollin := true } hastyMoment).2.log =
        hastyMoment.log ++ events ∧
      Throughout (fun before e _ => ∀ j group, e = .signalled j group .SIGKILL →
        GraceOver hastyKernel (hastyMoment.log ++ before) j
          (hastyKernel.now (hastyMoment.log ++ before))) [] events := by
  have hreached : Reachable hastyKernel oneSlot (after hastyKernel oneSlot 2) :=
    reachable_after (by decide +kernel)
  refine ⟨steady_hastyKernel, hreached.between.trans (walk_woke _), by decide +kernel, ?_⟩
  apply not_graceOver steady_hastyKernel (j := 1) (g := ⟨131, by decide⟩)
  · intro log
    show (0 : ℤ) ≤ 1000000 * rounds log
    omega
  · decide +kernel
  · decide +kernel

end Runs

end Runnerd
