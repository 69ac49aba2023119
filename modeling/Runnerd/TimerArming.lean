import Runnerd.TimeoutRefinement

/-!
# The timer

One timerfd wakes the daemon for all deadlines. `schedule` and `handleReadable` set it for the earliest
one; `cancel` leaves it alone, so it may go off too early, and the next `handleReadable` puts that
right. It is never set too late.
-/

namespace DeadlineMap

variable {κ τ : Type} [LinearOrder τ]

/-- The earliest of the deadlines. -/
def Earliest (m : DeadlineMap κ τ) (d : τ) : Prop :=
  (∃ k, m k = some d) ∧ ∀ k d', m k = some d' → d ≤ d'

end DeadlineMap

namespace Runnerd

open Effect Effect.Prog
open DeadlineMap (Earliest)

namespace TimeoutManager

/-! ## The timer in a history -/

/-- A setting of the timer: the reading of the clock it was made from, and the time it goes off. -/
structure Setting where
  made : ℤ
  fires : ℤ
  deriving DecidableEq, Repr

/-- What a history says of the timer. -/
structure Timerfd where
  /-- The last reading of the clock. -/
  clock : ℤ := 0
  /-- The last setting, as long as it was not disarmed and nothing was read that might have taken its
  expiration away. -/
  setting : Option Setting := none

/-- A setting counts from the last reading of the clock, from which its value was computed. What
passes between that reading and `timerfd_settime` is not counted: the timer goes off later by as
much. -/
def Timerfd.step (t : Timerfd) : Event → Timerfd
  | .clock now => { t with clock := now }
  | .armed seconds nanoseconds =>
    { t with
      setting :=
        if seconds = 0 ∧ nanoseconds = 0 then none
        else some ⟨t.clock, t.clock + (seconds * nanosecondsPerSecond + nanoseconds)⟩ }
  | .called .readTimer => { t with setting := none }
  | _ => t

def timerfd (log : List Event) : Timerfd := log.foldl Timerfd.step {}

theorem timerfd_append (log events : List Event) :
    timerfd (log ++ events) = events.foldl Timerfd.step (timerfd log) := List.foldl_append

/-- The events that the timer takes notice of. -/
def timerEvent : Event → Bool
  | .clock _ | .armed _ _ | .called .readTimer => true
  | _ => false

theorem timerfd_concat {e : Event} (he : timerEvent e = false) (log : List Event) :
    timerfd (log ++ [e]) = timerfd log := by
  rw [timerfd_append]
  show Timerfd.step (timerfd log) e = timerfd log
  cases e with
  | clock | armed => cases he
  | called c => cases c <;> first | rfl | cases he
  | _ => rfl

/-! ## Arming -/

variable {K : Kernel} {w w' : World TimeoutManager} {t : TimeoutManager} {m : DeadlineMap JobId ℤ}

/-- The time that is written into the timer. -/
structure Written (remaining seconds nanoseconds : ℤ) : Prop where
  seconds_nonneg : 0 ≤ seconds
  nanoseconds_nonneg : 0 ≤ nanoseconds
  nanoseconds_lt : nanoseconds < nanosecondsPerSecond
  total : seconds * nanosecondsPerSecond + nanoseconds = remaining

theorem written_divMod {remaining : ℤ} (h : 0 < remaining) :
    Written remaining (remaining / nanosecondsPerSecond) (remaining % nanosecondsPerSecond) := by
  refine ⟨?_, ?_, ?_, Int.ediv_mul_add_emod _ _⟩ <;> unfold nanosecondsPerSecond <;> omega

/-- A time in the future is not written as zero. -/
theorem Written.ne_zero {remaining seconds nanoseconds : ℤ}
    (h : Written remaining seconds nanoseconds) (hpos : 0 < remaining) :
    ¬ (seconds = 0 ∧ nanoseconds = 0) := by
  rintro ⟨rfl, rfl⟩
  have := h.total
  omega

/-- What arming writes: zero for an empty heap, and for another the time until the deadline of its
top, but at least a nanosecond. -/
inductive Arming (t : TimeoutManager) (now : ℤ) : List Event → Prop where
  | off (htop : t.deadlines.top = none) : Arming t now [.armed 0 0]
  | on {entry : DeadlineEntry} {remaining seconds nanoseconds : ℤ}
      (htop : t.deadlines.top = some entry) (hremaining : remaining = max 1 (entry.deadline - now))
      (hwritten : Written remaining seconds nanoseconds) :
      Arming t now [.clock now, .armed seconds nanoseconds]

theorem setTimer_ok {seconds nanoseconds : ℤ} {u : Unit}
    (h : setTimer K seconds nanoseconds w = (.ok u, w')) :
    w' = w.emit (.armed seconds nanoseconds) := by
  unfold setTimer at h
  cases hlast : (K.settime w.log).last with
  | ok =>
    rw [hlast] at h
    exact (Prod.mk.inj h).2.symm
  | error e =>
    rw [hlast] at h
    cases h

theorem armToNextDeadline_ok {u : Unit} (h : armToNextDeadline K w = (.ok u, w')) :
    ∃ events, w' = ⟨w.st.discardStaleEntries, w.log ++ events⟩ ∧
      Arming w.st.discardStaleEntries (K.now w.log) events := by
  unfold armToNextDeadline at h
  rw [bind_of_ok (update_run _ _), bind_of_ok (state_run _)] at h
  simp only [World.put_st] at h
  cases htop : w.st.discardStaleEntries.deadlines.top with
  | none =>
    rw [htop] at h
    exact ⟨_, setTimer_ok h, .off htop⟩
  | some entry =>
    rw [htop] at h
    simp only at h
    rw [bind_of_ok (clockNow_run K _)] at h
    have hlater := setTimer_ok h
    have hmax : (if entry.deadline - K.now w.log ≤ 0 then 1 else entry.deadline - K.now w.log) =
        max 1 (entry.deadline - K.now w.log) := by
      split_ifs <;> omega
    refine ⟨_, hlater.trans ?_, .on htop hmax (written_divMod (by omega))⟩
    simp [World.emit, World.put]

/-- The timer is set for the earliest deadline, or one nanosecond after the clock's reading if that has
passed; and it is not set if there is none. -/
def OnTime (m : DeadlineMap JobId ℤ) (log : List Event) : Prop :=
  match (timerfd log).setting with
  | none => ∀ j, m j = none
  | some setting => ∃ d, Earliest m d ∧
      setting.fires = if d ≤ setting.made then setting.made + 1 else d

/-- The top of a heap whose top is current is the earliest deadline. -/
theorem Refines.earliest (h : Refines t m) {entry : DeadlineEntry}
    (htop : t.deadlines.top = some entry) (hcur : t.isCurrent entry) : Earliest m entry.deadline := by
  have hentries := PriorityQueue.entries_of_top htop
  refine ⟨⟨entry.jobId, h.eq_some_of_isCurrent (by rw [hentries]; exact List.mem_cons_self) hcur⟩, ?_⟩
  intro j d hj
  by_contra hlt
  exact h.not_isDue_of_top htop (not_le.mp hlt) j ⟨d, hj, le_rfl⟩

/-- What arming does to the timer. -/
theorem Arming.onTime {log events : List Event} {now : ℤ}
    (harm : Arming t.discardStaleEntries now events) (h : Refines t m) :
    OnTime m (log ++ events) ∧
      ((timerfd (log ++ events)).setting = none ↔
        t.discardStaleEntries.deadlines.top = none) := by
  have hdiscarded := discardStaleEntries_spec t
  have h := h.discardStaleEntries
  unfold OnTime
  rw [timerfd_append]
  cases harm with
  | off htop =>
    exact ⟨h.none_of_top htop, iff_of_true rfl htop⟩
  | @on entry remaining seconds nanoseconds htop hremaining hwritten =>
    have hcur : t.discardStaleEntries.isCurrent entry := by
      have hcur := hdiscarded.current entry htop
      rw [isCurrent_iff] at hcur ⊢
      rwa [hdiscarded.active]
    have hset : ([Event.clock now, .armed seconds nanoseconds].foldl Timerfd.step
        (timerfd log)).setting = some ⟨now, now + max 1 (entry.deadline - now)⟩ := by
      show (if seconds = 0 ∧ nanoseconds = 0 then none else some (Setting.mk now
        (now + (seconds * nanosecondsPerSecond + nanoseconds)))) = _
      rw [if_neg (hwritten.ne_zero (by omega)), hwritten.total, hremaining]
    rw [hset]
    refine ⟨⟨entry.deadline, h.earliest htop hcur, ?_⟩, iff_of_false (by simp) (by rw [htop]; simp)⟩
    simp only
    split_ifs <;> omega

/-! ## Runs -/

/-- The calls of a manager that return, with anything else that happens in the program between them, and
the deadlines they leave. -/
inductive Calls (K : Kernel) : World TimeoutManager → DeadlineMap JobId ℤ → Prop where
  | start {log : List Event} (h : ∀ e ∈ log, timerEvent e = false) : Calls K ⟨{}, log⟩ fun _ => none
  | idle {w : World TimeoutManager} {m : DeadlineMap JobId ℤ} {e : Event} : Calls K w m →
      timerEvent e = false → Calls K (w.emit e) m
  | schedule {w w' : World TimeoutManager} {m : DeadlineMap JobId ℤ} {jobId : JobId}
      {timeout : JobTimeout} : Calls K w m → schedule K jobId timeout w = (.ok (), w') →
      Calls K w' (m.schedule jobId (K.now w.log + timeout * 1000000))
  | cancel {w : World TimeoutManager} {m : DeadlineMap JobId ℤ} (jobId : JobId) : Calls K w m →
      Calls K (w.put (w.st.cancel jobId)) (m.cancel jobId)
  | handleReadable {w w' : World TimeoutManager} {m : DeadlineMap JobId ℤ} {jobs : List JobId}
      {now : ℤ} : Calls K w m → handleReadable K w = (.ok jobs, w') →
      reading w w' = some now → Calls K w' (m.expire now)

/-- What a call that arms the timer leaves. -/
structure Armed (w : World TimeoutManager) (m : DeadlineMap JobId ℤ) : Prop where
  refines : Refines w.st m
  onTime : OnTime m w.log
  /-- The timer is not set exactly when the heap is empty. -/
  set : (timerfd w.log).setting = none ↔ w.st.deadlines.top = none

/-- Every time written into the timer is one that the kernel accepts. -/
def WellWritten (log : List Event) : Prop := ∀ seconds nanoseconds,
  .armed seconds nanoseconds ∈ log →
    Written (seconds * nanosecondsPerSecond + nanoseconds) seconds nanoseconds

theorem Arming.wellWritten {now : ℤ} {events : List Event} (h : Arming t now events) :
    WellWritten events := by
  cases h with
  | off =>
    intro s n hmem
    obtain ⟨rfl, rfl⟩ := Event.armed.inj (List.mem_singleton.mp hmem)
    exact ⟨le_rfl, le_rfl, by decide, rfl⟩
  | on _ _ hwritten =>
    intro s n hmem
    obtain hmem | hmem := List.mem_cons.mp hmem
    · cases hmem
    · obtain ⟨rfl, rfl⟩ := Event.armed.inj (List.mem_singleton.mp hmem)
      rw [hwritten.total]
      exact hwritten

theorem schedule_armed (h : Refines w.st m) {jobId : JobId} {timeout : JobTimeout}
    (hrun : schedule K jobId timeout w = (.ok (), w')) :
    Armed w' (m.schedule jobId (K.now w.log + timeout * 1000000)) ∧
      ∃ now t' events, w'.log = w.log ++ .clock (K.now w.log) :: events ∧ Arming t' now events := by
  unfold schedule at hrun
  split_ifs at hrun with htimeout
  · cases hrun
  rw [bind_of_ok (state_run _)] at hrun
  split_ifs at hrun with hgen
  · cases hrun
  have hrefines := h.insert hgen jobId (K.now w.log + timeout * 1000000)
  have hrun : armToNextDeadline K ⟨w.st.insert jobId (K.now w.log + timeout * 1000000),
    w.log ++ [.clock (K.now w.log)]⟩ = (.ok (), w') := hrun
  obtain ⟨events, rfl, harm⟩ := armToNextDeadline_ok (K := K)
    (w := ⟨w.st.insert jobId (K.now w.log + timeout * 1000000), w.log ++ [.clock (K.now w.log)]⟩) hrun
  obtain ⟨honTime, hset⟩ :=
    @Arming.onTime _ _ (w.log ++ [.clock (K.now w.log)]) _ _ harm hrefines
  refine ⟨⟨hrefines.discardStaleEntries, honTime, hset⟩, _, _, events, ?_, harm⟩
  simp

theorem handleReadable_armed (h : Refines w.st m) {jobs : List JobId} {now : ℤ}
    (hrun : handleReadable K w = (.ok jobs, w')) (hnow : reading w w' = some now) :
    Armed w' (m.expire now) ∧ ∃ now' t' events jobs, w'.log = w.log ++ .called .readTimer ::
      .clock now :: (events ++ [.expired jobs]) ∧ Arming t' now' events := by
  unfold handleReadable at hrun
  rw [bind_of_ok (history_run _)] at hrun
  obtain ⟨e | a, hread⟩ := readTimerLoop_run w (K.readTimer w.log)
  · rw [bind_of_error hread] at hrun
    cases hrun
  rw [bind_of_ok hread, bind_of_ok (clockNow_run K _), bind_of_ok (update_run _ _),
    bind_of_ok (state_run _)] at hrun
  set now' := K.now (w.emit (.called .readTimer)).log with hnow'
  obtain ⟨hrefines, -⟩ := h.expireAt now'
  obtain ⟨_, w₁, hset, hrun⟩ := bind_ok_inv hrun
  obtain ⟨-, rfl⟩ := Prod.mk.inj hset
  obtain ⟨u, w₂, harm, hrun⟩ := bind_ok_inv hrun
  set log := w.log ++ [.called .readTimer] ++ [.clock now'] with hlog
  have harm : armToNextDeadline K ⟨(w.st.expireAt now').1, log⟩ = (.ok u, w₂) := harm
  obtain ⟨events, rfl, harming⟩ := armToNextDeadline_ok harm
  obtain ⟨-, rfl⟩ := Prod.mk.inj hrun
  have hend : log ++ events ++ [Event.expired (w.st.expireAt now').2] = w.log ++ .called .readTimer ::
      .clock now' :: (events ++ [.expired (w.st.expireAt now').2]) := by simp [hlog]
  obtain rfl : now' = now := by
    have hreading : firstReading ((log ++ events ++ [Event.expired (w.st.expireAt now').2]).drop
      w.log.length) = some now := hnow
    rw [hend, List.drop_left] at hreading
    exact Option.some.inj hreading
  obtain ⟨honTime, hset⟩ := @Arming.onTime _ _ log _ _ harming hrefines
  have hsame : timerfd (log ++ events ++ [.expired (w.st.expireAt now').2]) =
      timerfd (log ++ events) := timerfd_concat rfl _
  refine ⟨⟨hrefines.discardStaleEntries, ?_, ?_⟩, _, _, events, (w.st.expireAt now').2, hend,
    harming⟩
  · show OnTime _ (log ++ events ++ [.expired (w.st.expireAt now').2])
    unfold OnTime at honTime ⊢
    rw [hsame]
    exact honTime
  · show (timerfd (log ++ events ++ [.expired (w.st.expireAt now').2])).setting = none ↔ _
    rw [hsame]
    exact hset

/-- Whatever returned: the manager stands for its deadlines, the timer goes off no later than the
earliest of them, or one nanosecond after it was set if that had passed then, and every time written
was one that the kernel accepts. -/
structure NeverLate (w : World TimeoutManager) (m : DeadlineMap JobId ℤ) : Prop where
  refines : Refines w.st m
  early : ∀ j d, m j = some d → ∃ setting, (timerfd w.log).setting = some setting ∧
    (setting.fires ≤ d ∨ d ≤ setting.made ∧ setting.fires = setting.made + 1)
  written : WellWritten w.log

theorem OnTime.early {log : List Event} (h : OnTime m log) {j : JobId} {d : ℤ} (hj : m j = some d) :
    ∃ setting, (timerfd log).setting = some setting ∧
      (setting.fires ≤ d ∨ d ≤ setting.made ∧ setting.fires = setting.made + 1) := by
  unfold OnTime at h
  cases hsetting : (timerfd log).setting with
  | none =>
    rw [hsetting] at h
    rw [h j] at hj
    cases hj
  | some setting =>
    rw [hsetting] at h
    obtain ⟨d', hearliest, hfires⟩ := h
    have hle := hearliest.2 j d hj
    refine ⟨setting, rfl, ?_⟩
    split_ifs at hfires with hpast
    · by_cases hd : d ≤ setting.made
      · exact Or.inr ⟨hd, hfires⟩
      · exact Or.inl (by omega)
    · exact Or.inl (by omega)

theorem Calls.punctual (h : Calls K w m) : NeverLate w m := by
  induction h with
  | start hlog =>
    refine ⟨refines_initial, (fun j d hj => by cases hj), fun s n hmem => ?_⟩
    cases hlog _ hmem
  | @idle w m e _ he ih =>
    refine ⟨ih.refines, fun j d hj => ?_, fun s n hmem => ?_⟩
    · rw [World.emit_log, timerfd_concat he]
      exact ih.early j d hj
    · obtain hmem | hmem := List.mem_append.mp hmem
      · exact ih.written s n hmem
      · rw [← List.mem_singleton.mp hmem] at he
        cases he
  | @schedule w w' m jobId timeout _ hrun ih =>
    obtain ⟨harmed, now, t', events, hlog, harm⟩ := schedule_armed ih.refines hrun
    refine ⟨harmed.refines, fun j d hj => harmed.onTime.early hj, fun s n hmem => ?_⟩
    rw [hlog] at hmem
    obtain hmem | hmem := List.mem_append.mp hmem
    · exact ih.written s n hmem
    · exact harm.wellWritten s n ((List.mem_cons.mp hmem).resolve_left (by simp))
  | @cancel w m jobId _ ih =>
    refine ⟨ih.refines.cancel jobId, fun j d hj => ?_, ih.written⟩
    refine ih.early j d ?_
    by_cases heq : j = jobId
    · subst heq
      rw [DeadlineMap.cancel_self] at hj
      cases hj
    · rwa [DeadlineMap.cancel_of_ne heq] at hj
  | @handleReadable w w' m jobs now _ hrun hnow ih =>
    obtain ⟨harmed, now', t', events, jobs, hlog, harm⟩ := handleReadable_armed ih.refines hrun hnow
    refine ⟨harmed.refines, fun j d hj => harmed.onTime.early hj, fun s n hmem => ?_⟩
    rw [hlog] at hmem
    obtain hmem | hmem := List.mem_append.mp hmem
    · exact ih.written s n hmem
    · simp only [List.mem_cons, reduceCtorEq, false_or, List.mem_append, List.not_mem_nil,
        or_false] at hmem
      exact harm.wellWritten s n hmem

end TimeoutManager

end Runnerd
