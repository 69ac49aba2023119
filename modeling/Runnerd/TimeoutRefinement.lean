import Runnerd.Library.DeadlineMap
import Runnerd.TimeoutManager

/-!
# The timeout manager as a map of deadlines

The heap of the `TimeoutManager` is cleaned lazily: rescheduling and cancelling leave records behind
that name a generation no longer active. `Refines` ties the heap to one deadline for each job, and
every call of the manager keeps it. So `handleReadable` returns the jobs whose deadline has come, in
order, whatever stale records the heap holds.
-/

namespace Runnerd

open Effect Effect.Prog

/-- The reading of the timer ends with `EAGAIN`. -/
def TimerReads.drains : TimerReads → Bool
  | .expirations rest => rest.drains
  | .interrupted rest => rest.drains
  | .again => true
  | .failed _ | .partialCount => false

namespace TimeoutManager

/-- The manager stands for the map `m`: the record of a job's active generation carries the job's
deadline, and no generation is used twice. -/
structure Refines (t : TimeoutManager) (m : DeadlineMap JobId ℤ) : Prop where
  live : ∀ j d, m j = some d ↔ ∃ e ∈ t.deadlines.entries,
    e.jobId = j ∧ e.deadline = d ∧ t.activeGenerations.find j = some e.generation
  active : ∀ j, (t.activeGenerations.find j).isSome → (m j).isSome
  unique : (t.deadlines.entries.map DeadlineEntry.generation).Nodup
  fresh : ∀ e ∈ t.deadlines.entries, t.nextGeneration ≠ 0 → e.generation < t.nextGeneration
  bounded : t.nextGeneration < 2 ^ 64

variable {t : TimeoutManager} {m : DeadlineMap JobId ℤ}

theorem isCurrent_iff (e : DeadlineEntry) :
    t.isCurrent e ↔ t.activeGenerations.find e.jobId = some e.generation := by
  unfold isCurrent
  cases t.activeGenerations.find e.jobId with
  | none => simp
  | some g => simp

theorem Refines.eq_some_of_isCurrent (h : Refines t m) {e : DeadlineEntry}
    (he : e ∈ t.deadlines.entries) (hcur : t.isCurrent e) : m e.jobId = some e.deadline :=
  (h.live _ _).mpr ⟨e, he, rfl, rfl, (isCurrent_iff e).mp hcur⟩

theorem Refines.exists_isCurrent (h : Refines t m) {j : JobId} {d : ℤ} (hj : m j = some d) :
    ∃ e ∈ t.deadlines.entries, e.jobId = j ∧ e.deadline = d ∧ t.isCurrent e := by
  obtain ⟨e, he, rfl, hd, hg⟩ := (h.live j d).mp hj
  exact ⟨e, he, rfl, hd, (isCurrent_iff e).mpr hg⟩

/-- A job has an active generation exactly when it has a deadline. -/
theorem Refines.isSome_iff (h : Refines t m) (j : JobId) :
    (t.activeGenerations.find j).isSome ↔ (m j).isSome := by
  refine ⟨h.active j, fun hj => ?_⟩
  obtain ⟨d, hd⟩ := Option.isSome_iff_exists.mp hj
  obtain ⟨e, -, rfl, -, hg⟩ := (h.live j d).mp hd
  rw [hg]
  rfl

theorem Refines.none_iff (h : Refines t m) (j : JobId) :
    m j = none ↔ t.activeGenerations.find j = none := by
  rw [← Option.not_isSome_iff_eq_none, ← Option.not_isSome_iff_eq_none, h.isSome_iff]

theorem refines_initial : Refines {} fun _ => none where
  live j d := by simp [PriorityQueue.empty]
  active j := by simp
  unique := List.nodup_nil
  fresh e he := by cases he
  bounded := by decide

/-! ## Stale records -/

/-- Removing stale records changes nothing. -/
theorem Refines.discard (h : Refines t m) {q : PriorityQueue earlierDeadline}
    (hsub : q.entries.Sublist t.deadlines.entries)
    (hkeep : ∀ e ∈ t.deadlines.entries, t.isCurrent e → e ∈ q.entries) :
    Refines { t with deadlines := q } m where
  live j d := by
    rw [h.live]
    constructor
    · rintro ⟨e, he, rfl, hd, hg⟩
      exact ⟨e, hkeep e he ((isCurrent_iff e).mpr hg), rfl, hd, hg⟩
    · rintro ⟨e, he, hrest⟩
      exact ⟨e, hsub.subset he, hrest⟩
  active := h.active
  unique := h.unique.sublist (hsub.map _)
  fresh e he := h.fresh e (hsub.subset he)
  bounded := h.bounded

/-- What `discardStaleEntries` leaves: a heap of the same current records, whose top is current. -/
structure Discarded (t t' : TimeoutManager) : Prop where
  generation : t'.nextGeneration = t.nextGeneration
  active : t'.activeGenerations = t.activeGenerations
  suffix : t'.deadlines.entries <:+ t.deadlines.entries
  keeps : ∀ e ∈ t.deadlines.entries, t.isCurrent e → e ∈ t'.deadlines.entries
  current : ∀ e, t'.deadlines.top = some e → t.isCurrent e

theorem discardLoop_spec (fuel : ℕ) (t : TimeoutManager)
    (hfuel : t.deadlines.entries.length ≤ fuel) : Discarded t (discardLoop fuel t) := by
  induction fuel generalizing t with
  | zero =>
    have hnil : t.deadlines.entries = [] := List.length_eq_zero_iff.mp (by omega)
    refine ⟨rfl, rfl, List.suffix_rfl, fun e he _ => he, fun e he => ?_⟩
    unfold discardLoop PriorityQueue.top at he
    rw [hnil] at he
    cases he
  | succ fuel ih =>
    unfold discardLoop
    cases htop : t.deadlines.top with
    | none =>
      exact ⟨rfl, rfl, List.suffix_rfl, fun e he _ => he, fun e he => by
        rw [htop] at he
        cases he⟩
    | some entry =>
      simp only
      have hentries := PriorityQueue.entries_of_top htop
      split_ifs with hcur
      · refine ⟨rfl, rfl, List.suffix_rfl, fun e he _ => he, fun e he => ?_⟩
        rw [htop] at he
        obtain rfl := Option.some.inj he
        exact hcur
      · have hlen : t.deadlines.pop.entries.length ≤ fuel := by
          rw [hentries, List.length_cons] at hfuel
          omega
        obtain ⟨hgen, hactive, hsuffix, hkeeps, hcurrent⟩ :=
          ih { t with deadlines := t.deadlines.pop } hlen
        refine ⟨hgen, hactive, ?_, fun e he hc => ?_, hcurrent⟩
        · exact hsuffix.trans ⟨[entry], hentries.symm⟩
        · rw [hentries] at he
          obtain rfl | he := List.mem_cons.mp he
          · exact absurd hc hcur
          · exact hkeeps e he hc

theorem discardStaleEntries_spec (t : TimeoutManager) : Discarded t t.discardStaleEntries :=
  discardLoop_spec _ t le_rfl

theorem Discarded.refines {t' : TimeoutManager} (hd : Discarded t t') (h : Refines t m) :
    Refines t' m := by
  have h' := h.discard hd.suffix.sublist hd.keeps
  obtain ⟨hgen, hactive, -, -, -⟩ := hd
  cases t'
  cases t
  obtain rfl := hgen
  obtain rfl := hactive
  exact h'

theorem Refines.discardStaleEntries (h : Refines t m) : Refines t.discardStaleEntries m :=
  (discardStaleEntries_spec t).refines h

/-! ## Cancelling and scheduling -/

theorem Refines.cancel (h : Refines t m) (j : JobId) : Refines (t.cancel j) (m.cancel j) where
  live k d := by
    unfold TimeoutManager.cancel
    by_cases hk : k = j
    · subst hk
      simp
    · rw [DeadlineMap.cancel_of_ne hk, h.live]
      simp only [Table.find_del_of_ne _ hk]
  active k hk := by
    unfold TimeoutManager.cancel at hk
    by_cases hne : k = j
    · subst hne
      simp at hk
    · rw [DeadlineMap.cancel_of_ne hne]
      exact h.active k (by simpa only [Table.find_del_of_ne _ hne] using hk)
  unique := h.unique
  fresh := h.fresh
  bounded := h.bounded

/-- The manager with a new deadline for a job, before the timer is set. -/
def insert (t : TimeoutManager) (j : JobId) (deadline : ℤ) : TimeoutManager where
  nextGeneration := (t.nextGeneration + 1) % 2 ^ 64
  deadlines := t.deadlines.push { deadline, jobId := j, generation := t.nextGeneration }
  activeGenerations := t.activeGenerations.set j t.nextGeneration

theorem Refines.insert (h : Refines t m) (hgen : t.nextGeneration ≠ 0) (j : JobId) (d : ℤ) :
    Refines (t.insert j d) (m.schedule j d) := by
  have hnew : ∀ e ∈ t.deadlines.entries, e.generation ≠ t.nextGeneration :=
    fun e he => (h.fresh e he hgen).ne
  refine ⟨fun k d' => ?_, fun k hk => ?_, ?_, fun e he hg => ?_, Nat.mod_lt _ (by decide)⟩
  · simp only [TimeoutManager.insert, PriorityQueue.mem_push]
    by_cases hk : k = j
    · subst hk
      rw [DeadlineMap.schedule_self, Table.find_set_self]
      constructor
      · intro hd
        obtain rfl := Option.some.inj hd
        exact ⟨_, Or.inl rfl, rfl, rfl, rfl⟩
      · rintro ⟨e, rfl | he, -, hd, hg⟩
        · rw [← hd]
        · exact absurd (Option.some.inj hg).symm (hnew e he)
    · rw [DeadlineMap.schedule_of_ne hk, Table.find_set_of_ne _ _ hk, h.live]
      constructor
      · rintro ⟨e, he, hrest⟩
        exact ⟨e, Or.inr he, hrest⟩
      · rintro ⟨e, rfl | he, hj, hrest⟩
        · exact absurd hj.symm hk
        · exact ⟨e, he, hj, hrest⟩
  · by_cases hne : k = j
    · subst hne
      rw [DeadlineMap.schedule_self]
      rfl
    · rw [DeadlineMap.schedule_of_ne hne]
      exact h.active k (by simpa only [TimeoutManager.insert, Table.find_set_of_ne _ _ hne] using hk)
  · refine (List.Perm.nodup_iff ((PriorityQueue.perm_push t.deadlines _).map _)).mpr ?_
    rw [List.map_cons, List.nodup_cons]
    refine ⟨fun hmem => ?_, h.unique⟩
    obtain ⟨e, he, hg⟩ := List.mem_map.mp hmem
    exact hnew e he hg
  · -- the next generation has not wrapped around, so it is the successor
    have hlt := h.bounded
    have hnext : (t.insert j d).nextGeneration = t.nextGeneration + 1 := by
      simp only [TimeoutManager.insert] at hg ⊢
      omega
    obtain rfl | he := PriorityQueue.mem_push.mp he
    · rw [hnext]
      exact Nat.lt_succ_self _
    · have := h.fresh e he hgen
      omega

/-! ## Expiry -/

/-- A heap whose top is not due holds no due record. -/
theorem Refines.not_isDue_of_top (h : Refines t m) {entry : DeadlineEntry}
    (htop : t.deadlines.top = some entry) {now : ℤ} (hnow : now < entry.deadline) (j : JobId) :
    ¬ DeadlineMap.IsDue m now j := by
  rintro ⟨d, hj, hle⟩
  obtain ⟨e, he, -, rfl, -⟩ := h.exists_isCurrent hj
  rw [PriorityQueue.entries_of_top htop] at he
  obtain rfl | he := List.mem_cons.mp he
  · omega
  · have := (notBelow_iff entry e).mp (PriorityQueue.notBelow_of_top htop e he)
    omega

/-- The manager without a record at its top that is current. -/
theorem Refines.expireTop (h : Refines t m) {entry : DeadlineEntry}
    (htop : t.deadlines.top = some entry) (hcur : t.isCurrent entry) :
    Refines { t with
      deadlines := t.deadlines.pop
      activeGenerations := t.activeGenerations.del entry.jobId } (m.cancel entry.jobId) := by
  have hentries := PriorityQueue.entries_of_top htop
  refine (h.cancel entry.jobId).discard (q := t.deadlines.pop) ?_ fun e he hc => ?_
  · show t.deadlines.pop.entries.Sublist t.deadlines.entries
    rw [hentries]
    exact List.sublist_cons_self _ _
  · have he' : e ∈ entry :: t.deadlines.pop.entries := hentries ▸ he
    obtain rfl | he' := List.mem_cons.mp he'
    · rw [isCurrent_iff] at hc
      simp [TimeoutManager.cancel] at hc
    · exact he'

/-- The loop of `handleReadable`, given fuel for every record: it takes off the map the jobs that
are due and returns them in order. -/
theorem expireLoop_spec (now : ℤ) (fuel : ℕ) (h : Refines t m)
    (hfuel : t.deadlines.entries.length ≤ fuel) :
    Refines (expireLoop now fuel t).1 (m.expire now) ∧
      DeadlineMap.DueInOrder m now (expireLoop now fuel t).2 := by
  induction fuel generalizing t m with
  | zero =>
    have hnil : t.deadlines.entries = [] := List.length_eq_zero_iff.mp (by omega)
    have hnone : ∀ j, ¬ DeadlineMap.IsDue m now j := by
      rintro j ⟨d, hj, -⟩
      obtain ⟨e, he, -⟩ := h.exists_isCurrent hj
      rw [hnil] at he
      cases he
    rw [DeadlineMap.expire_of_forall_not_isDue hnone]
    exact ⟨h, DeadlineMap.dueInOrder_nil hnone⟩
  | succ fuel ih =>
    unfold expireLoop
    cases htop : t.deadlines.top with
    | none =>
      have hnone : ∀ j, ¬ DeadlineMap.IsDue m now j := by
        rintro j ⟨d, hj, -⟩
        obtain ⟨e, he, -⟩ := h.exists_isCurrent hj
        rw [PriorityQueue.entries_of_top_eq_none htop] at he
        cases he
      simp only
      rw [DeadlineMap.expire_of_forall_not_isDue hnone]
      exact ⟨h, DeadlineMap.dueInOrder_nil hnone⟩
    | some entry =>
      simp only
      have hentries := PriorityQueue.entries_of_top htop
      have hlen : t.deadlines.pop.entries.length ≤ fuel := by
        rw [hentries, List.length_cons] at hfuel
        omega
      by_cases hdue : entry.deadline > now
      · rw [if_pos hdue]
        have hnone := h.not_isDue_of_top htop hdue
        rw [DeadlineMap.expire_of_forall_not_isDue hnone]
        exact ⟨h, DeadlineMap.dueInOrder_nil hnone⟩
      rw [if_neg hdue]
      by_cases hcur : t.isCurrent entry
      · -- the top is a live deadline that has come
        have hm := h.eq_some_of_isCurrent (by rw [hentries]; exact List.mem_cons_self) hcur
        rw [(isCurrent_iff entry).mp hcur]
        simp only
        rw [if_neg (not_not.mpr rfl)]
        have hpop := h.expireTop htop hcur
        have hlen' : ({ t with
            deadlines := t.deadlines.pop
            activeGenerations := t.activeGenerations.del entry.jobId } :
              TimeoutManager).discardStaleEntries.deadlines.entries.length ≤ fuel :=
          ((discardStaleEntries_spec _).suffix.length_le).trans hlen
        obtain ⟨hrefines, hjobs⟩ := ih hpop.discardStaleEntries hlen'
        rw [DeadlineMap.expire_cancel ⟨_, hm, not_lt.mp hdue⟩] at hrefines
        refine ⟨hrefines, hjobs.cons hm (not_lt.mp hdue) fun k d hk hne => ?_⟩
        obtain ⟨e, he, rfl, rfl, -⟩ := h.exists_isCurrent hk
        rw [hentries] at he
        obtain rfl | he := List.mem_cons.mp he
        · exact absurd rfl hne
        · obtain hlt | ⟨heq, hle⟩ :=
            (notBelow_iff entry e).mp (PriorityQueue.notBelow_of_top htop e he)
          · exact Or.inl hlt
          · exact Or.inr ⟨heq, lt_of_le_of_ne hle (Ne.symm hne)⟩
      · -- a stale record is dropped
        have hpop : Refines { t with deadlines := t.deadlines.pop } m := by
          refine h.discard (by rw [hentries]; exact List.sublist_cons_self _ _) fun e he hc => ?_
          rw [hentries] at he
          obtain rfl | he := List.mem_cons.mp he
          · exact absurd hc hcur
          · exact he
        rw [isCurrent_iff] at hcur
        cases hg : t.activeGenerations.find entry.jobId with
        | none => exact ih hpop hlen
        | some g =>
          rw [hg, Option.some.injEq] at hcur
          simp only
          rw [if_pos hcur]
          exact ih hpop hlen

/-! ## The calls -/

/-- The events of arming the timer. -/
def armingEvent : Event → Bool
  | .called .settime | .clock _ | .armed _ _ => true
  | _ => false

section Calls

variable (K : Kernel) (w : World TimeoutManager)

theorem setTimer_run (s n : ℤ) :
    ∃ r e, setTimer K s n w = (r, w.emit e) ∧ armingEvent e ∧ NotInvalid r := by
  unfold setTimer
  cases (K.settime w.log).last with
  | ok _ => exact ⟨_, _, rfl, rfl, fun _ hr => by cases hr⟩
  | error _ => exact ⟨_, _, rfl, rfl, fun _ hr => by cases hr⟩

/-- Arming cleans the top of the heap, whether or not the timer takes the new time. -/
theorem armToNextDeadline_run :
    ∃ r events, armToNextDeadline K w = (r, ⟨w.st.discardStaleEntries, w.log ++ events⟩) ∧
      (∀ e ∈ events, armingEvent e) ∧ NotInvalid r := by
  unfold armToNextDeadline
  rw [bind_of_ok (update_run _ _), bind_of_ok (state_run _)]
  simp only [World.put_st]
  cases w.st.discardStaleEntries.deadlines.top with
  | none =>
    obtain ⟨r, e, hrun, he, hr⟩ := setTimer_run K (w.put w.st.discardStaleEntries) 0 0
    exact ⟨r, [e], hrun, by simpa using he, hr⟩
  | some entry =>
    simp only
    rw [bind_of_ok (clockNow_run K _)]
    obtain ⟨r, e, hrun, he, hr⟩ := setTimer_run K
      ((w.put w.st.discardStaleEntries).emit (.clock (K.now w.log)))
      ((if entry.deadline - K.now w.log ≤ 0 then 1 else entry.deadline - K.now w.log) /
        nanosecondsPerSecond)
      ((if entry.deadline - K.now w.log ≤ 0 then 1 else entry.deadline - K.now w.log) %
        nanosecondsPerSecond)
    refine ⟨r, [.clock (K.now w.log), e], hrun.trans ?_, by simpa [armingEvent] using he, hr⟩
    simp [World.emit, World.put]

/-- What `schedule` does: nothing, or the new deadline from the clock's reading on. An exception of
the timer leaves the deadline in place. -/
theorem schedule_run (j : JobId) (timeout : JobTimeout) :
    timeout ≤ 0 ∨
      (w.st.nextGeneration = 0 ∧ ∃ e, schedule K j timeout w = (.error e, w) ∧
        NotInvalid (.error e : Except Exception Unit)) ∨
      (w.st.nextGeneration ≠ 0 ∧ ∃ r events, schedule K j timeout w = (r,
        ⟨(w.st.insert j (K.now w.log + timeout * 1000000)).discardStaleEntries,
          w.log ++ .clock (K.now w.log) :: events⟩) ∧ (∀ e ∈ events, armingEvent e) ∧
        NotInvalid r) := by
  unfold schedule
  by_cases hpos : timeout ≤ 0
  · exact Or.inl hpos
  right
  rw [if_neg hpos, bind_of_ok (state_run _)]
  by_cases hgen : w.st.nextGeneration = 0
  · rw [if_pos hgen]
    exact Or.inl ⟨hgen, _, rfl, fun _ hr => by cases hr⟩
  rw [if_neg hgen]
  refine Or.inr ⟨hgen, ?_⟩
  obtain ⟨r, events, hrun, hevents, hr⟩ := armToNextDeadline_run K
    ⟨w.st.insert j (K.now w.log + timeout * 1000000), w.log ++ [.clock (K.now w.log)]⟩
  refine ⟨r, events, ?_, hevents, hr⟩
  rw [List.append_assoc, List.singleton_append] at hrun
  exact hrun

theorem readTimerLoop_run (reads : TimerReads) :
    ∃ r, readTimerLoop reads w = (r, w.emit (.called .readTimer)) := by
  induction reads with
  | expirations rest ih => exact ih
  | interrupted rest ih => exact ih
  | again => exact ⟨_, rfl⟩
  | failed e => exact ⟨_, rfl⟩
  | partialCount => exact ⟨_, rfl⟩

/-- The manager and the jobs that `handleReadable` takes off it at a reading of the clock. -/
def expireAt (t : TimeoutManager) (now : ℤ) : TimeoutManager × List JobId :=
  expireLoop now t.discardStaleEntries.deadlines.entries.length t.discardStaleEntries

/-- What `handleReadable` does: it fails to read the timer, fails to arm it, or returns. -/
theorem handleReadable_run :
    (∃ e, handleReadable K w = (.error e, w.emit (.called .readTimer))) ∨
      ∃ now events, now = K.now (w.log ++ [.called .readTimer]) ∧
        (∀ e ∈ events, armingEvent e) ∧ ((∃ e, handleReadable K w =
            (.error e, ⟨(w.st.expireAt now).1.discardStaleEntries,
              w.log ++ .called .readTimer :: .clock now :: events⟩)) ∨
          handleReadable K w = (.ok (w.st.expireAt now).2,
            ⟨(w.st.expireAt now).1.discardStaleEntries,
              w.log ++ .called .readTimer :: .clock now ::
                (events ++ [.expired (w.st.expireAt now).2])⟩)) := by
  unfold handleReadable
  rw [bind_of_ok (history_run _)]
  obtain ⟨e | a, hread⟩ := readTimerLoop_run w (K.readTimer w.log)
  · rw [bind_of_error hread]
    exact Or.inl ⟨e, rfl⟩
  rw [bind_of_ok hread]
  rw [bind_of_ok (clockNow_run K _), bind_of_ok (update_run _ _), bind_of_ok (state_run _)]
  set now := K.now (w.emit (.called .readTimer)).log with hnow
  obtain ⟨r, events, harm, hevents, -⟩ := armToNextDeadline_run K
    ⟨(w.st.expireAt now).1, w.log ++ [.called .readTimer] ++ [.clock now]⟩
  refine Or.inr ⟨now, events, rfl, hevents, ?_⟩
  have hlog : w.log ++ [.called .readTimer] ++ [.clock now] ++ events =
      w.log ++ .called .readTimer :: .clock now :: events := by simp
  rw [hlog] at harm
  cases r with
  | error e => exact Or.inl ⟨e, (bind_of_ok (update_run _ _)).trans (bind_of_error harm)⟩
  | ok a =>
    refine Or.inr ((bind_of_ok (update_run _ _)).trans ((bind_of_ok harm).trans ?_))
    rw [bind_of_ok (emit_run _ _), pure_run]
    simp [World.emit, expireAt]

end Calls

/-! ## The answers of the kernel -/

section Answers

variable (K : Kernel) (t : TimeoutManager) (log : List Event)

/-- What `schedule` notes before it sets the timer: it reads the clock for the deadline, and again for
the time that is left until the earliest one. -/
def clockReads : List Event :=
  [.clock (K.now log), .clock (K.now (log ++ [.clock (K.now log)]))]

/-- The answers with which a `schedule` with a positive timeout returns: there is a generation left,
and `timerfd_settime` takes the time. -/
def Settable : Prop :=
  t.nextGeneration ≠ 0 ∧ (K.settime (log ++ clockReads K log)).last = .ok ()

instance : Decidable (Settable K t log) := by
  unfold Settable
  infer_instance

/-- The time written into the timer for the earliest deadline, at this reading of the clock. -/
def remaining (t : TimeoutManager) (now : ℤ) : ℤ :=
  match t.deadlines.top with
  | none => 0
  | some entry => if entry.deadline - now ≤ 0 then 1 else entry.deadline - now

/-- The manager that such a `schedule` leaves, whether or not it returns. -/
def scheduled (j : JobId) (timeout : JobTimeout) : TimeoutManager :=
  if t.nextGeneration = 0 then t
  else (t.insert j (K.now log + timeout * 1000000)).discardStaleEntries

/-- What it adds to the history where it returns. -/
def setEvents (j : JobId) (timeout : JobTimeout) : List Event :=
  let left := (scheduled K t log j timeout).remaining (K.now (log ++ [.clock (K.now log)]))
  clockReads K log ++ [.armed (left / nanosecondsPerSecond) (left % nanosecondsPerSecond)]

/-- What it adds to the history where it throws. -/
def unsetEvents : List Event :=
  if t.nextGeneration = 0 then [] else clockReads K log ++ [.called .settime]

end Answers

theorem Refines.none_of_top (h : Refines t m) (htop : t.deadlines.top = none) (j : JobId) :
    m j = none := by
  refine Option.eq_none_iff_forall_ne_some.mpr fun d hd => ?_
  obtain ⟨e, he, -⟩ := h.exists_isCurrent hd
  rw [PriorityQueue.entries_of_top_eq_none htop] at he
  cases he

/-- `schedule` is foretold by the answers of the kernel. -/
theorem schedule_foretold {K : Kernel} {w : World TimeoutManager} (h : Refines w.st m) (j : JobId)
    {timeout : JobTimeout} (hpos : 0 < timeout) :
    (Settable K w.st w.log ∧ schedule K j timeout w =
        (.ok (), ⟨scheduled K w.st w.log j timeout, w.log ++ setEvents K w.st w.log j timeout⟩)) ∨
      (¬ Settable K w.st w.log ∧ ∃ e, schedule K j timeout w =
        (.error e, ⟨scheduled K w.st w.log j timeout, w.log ++ unsetEvents K w.st w.log⟩)) := by
  unfold schedule
  rw [if_neg (not_le.mpr hpos), bind_of_ok (state_run _)]
  by_cases hgen : w.st.nextGeneration = 0
  · right
    simp only [Settable, scheduled, unsetEvents, hgen, if_true, ne_eq, not_true_eq_false, false_and,
      not_false_eq_true, true_and, List.append_nil]
    exact ⟨_, rfl⟩
  rw [if_neg hgen]
  set now := K.now w.log with hnow
  set t := w.st.insert j (now + timeout * 1000000) with ht
  have hscheduled : scheduled K w.st w.log j timeout = t.discardStaleEntries := if_neg hgen
  -- the heap holds the new deadline, so its top is some record
  obtain ⟨entry, htop⟩ : ∃ entry, t.discardStaleEntries.deadlines.top = some entry := by
    by_contra hnone
    have hnone := Option.eq_none_iff_forall_ne_some.mpr (not_exists.mp hnone)
    have hrefines := (h.insert hgen j (now + timeout * 1000000)).discardStaleEntries
    have hj := hrefines.none_of_top hnone j
    rw [DeadlineMap.schedule_self] at hj
    cases hj
  have hrun : armToNextDeadline K ⟨t, w.log ++ [.clock now]⟩ =
      setTimer K (t.discardStaleEntries.remaining (K.now (w.log ++ [.clock now])) /
          nanosecondsPerSecond)
        (t.discardStaleEntries.remaining (K.now (w.log ++ [.clock now])) % nanosecondsPerSecond)
        ⟨t.discardStaleEntries, w.log ++ clockReads K w.log⟩ := by
    unfold armToNextDeadline
    rw [bind_of_ok (update_run _ _), bind_of_ok (state_run _)]
    simp only [World.put_st, htop]
    rw [bind_of_ok (clockNow_run K _)]
    simp only [remaining, htop, clockReads, World.emit, World.put, List.append_assoc,
      List.singleton_append, hnow]
  have hgo : (do
      let generation := w.st.nextGeneration
      update fun t => { t with nextGeneration := (t.nextGeneration + 1) % 2 ^ 64 }
      let now ← K.clockNow
      let deadline := now + timeout * 1000000
      update fun t => { t with deadlines := t.deadlines.push { deadline, jobId := j, generation } }
      update fun t => { t with activeGenerations := t.activeGenerations.set j generation }
      armToNextDeadline K : Prog TimeoutManager Unit) w =
      armToNextDeadline K ⟨t, w.log ++ [.clock now]⟩ := rfl
  have hset : Settable K w.st w.log ↔ (K.settime (w.log ++ clockReads K w.log)).last = .ok () :=
    and_iff_right hgen
  rw [hgo, hrun, hset, hscheduled, unsetEvents, if_neg hgen]
  unfold setTimer setEvents
  rw [hscheduled]
  cases (K.settime (w.log ++ clockReads K w.log)).last with
  | ok _ => exact Or.inl ⟨rfl, by simp [World.emit, hnow]⟩
  | error e => exact Or.inr ⟨by simp, .systemError e (text "timerfd_settime"), by simp [World.emit]⟩

/-! ## Runs -/

/-- The first reading of the clock among these events. -/
def firstReading : List Event → Option ℤ
  | [] => none
  | .clock now :: _ => some now
  | _ :: rest => firstReading rest

/-- The reading of the clock by a call that led from `w` to `w'`, if the call got that far. -/
def reading (w w' : World TimeoutManager) : Option ℤ := firstReading (w'.log.drop w.log.length)

/-- The calls of a manager since it was built, and the map they stand for: `schedule` overwrites a
deadline, `cancel` deletes it, `handleReadable` deletes what is due at its reading of the clock. A
call that throws counts as far as it got. -/
inductive Run (K : Kernel) : World TimeoutManager → DeadlineMap JobId ℤ → Prop where
  | start (log : List Event) : Run K ⟨{}, log⟩ fun _ => none
  /-- Something else happens in the program. -/
  | idle {w m} (e : Event) : Run K w m → Run K (w.emit e) m
  | schedule {w m} (jobId : JobId) (timeout : JobTimeout) : Run K w m → 0 < timeout →
      timeout ≤ uint32Max → w.st.nextGeneration ≠ 0 →
      Run K (schedule K jobId timeout w).2 (m.schedule jobId (K.now w.log + timeout * 1000000))
  | cancel {w m} (jobId : JobId) : Run K w m → Run K (w.put (w.st.cancel jobId)) (m.cancel jobId)
  | handleReadable {w m} : Run K w m →
      Run K (handleReadable K w).2 ((reading w (handleReadable K w).2).elim m m.expire)

variable {K : Kernel} {w w' : World TimeoutManager}

theorem Refines.expireAt (h : Refines t m) (now : ℤ) :
    Refines (t.expireAt now).1 (m.expire now) ∧ DeadlineMap.DueInOrder m now (t.expireAt now).2 :=
  expireLoop_spec now _ h.discardStaleEntries le_rfl

theorem handleReadable_refines (h : Refines w.st m) :
    Refines (handleReadable K w).2.st
        ((reading w (handleReadable K w).2).elim m m.expire) ∧
      ∀ jobs, (handleReadable K w).1 = .ok jobs →
        ∃ now, reading w (handleReadable K w).2 = some now ∧ DeadlineMap.DueInOrder m now jobs := by
  obtain ⟨e, hrun⟩ | ⟨now, events, -, -, ⟨e, hrun⟩ | hrun⟩ := handleReadable_run K w
  · rw [hrun]
    refine ⟨?_, fun jobs hjobs => by cases hjobs⟩
    simpa [reading, firstReading] using h
  · obtain ⟨hrefines, -⟩ := h.expireAt now
    rw [hrun]
    refine ⟨?_, fun jobs hjobs => by cases hjobs⟩
    simpa [reading, firstReading] using hrefines.discardStaleEntries
  · obtain ⟨hrefines, hdue⟩ := h.expireAt now
    rw [hrun]
    refine ⟨?_, fun jobs hjobs => ⟨now, ?_, ?_⟩⟩
    · simpa [reading, firstReading] using hrefines.discardStaleEntries
    · simp [reading, firstReading]
    · obtain rfl := Except.ok.inj hjobs
      exact hdue

/-- In every run the manager stands for the run's map. -/
theorem Run.refines (h : Run K w m) : Refines w.st m := by
  induction h with
  | start log => exact refines_initial
  | idle e _ ih => exact ih
  | @schedule w m jobId timeout _ hpos _ hgen ih =>
    obtain hbad | ⟨hbad, -⟩ | ⟨-, r, events, hrun, -⟩ := schedule_run K w jobId timeout
    · exact absurd hbad (not_le.mpr hpos)
    · exact absurd hbad hgen
    · rw [hrun]
      exact (ih.insert hgen jobId _).discardStaleEntries
  | cancel jobId _ ih => exact ih.cancel jobId
  | handleReadable _ ih => exact (handleReadable_refines ih).1

theorem readTimerLoop_drains {reads : TimerReads} (h : reads.drains) :
    readTimerLoop reads w = (.ok (), w.emit (.called .readTimer)) := by
  induction reads with
  | expirations rest ih => exact ih h
  | interrupted rest ih => exact ih h
  | again => rfl
  | failed e => cases h
  | partialCount => cases h

theorem armToNextDeadline_returns (hset : ∀ events, (K.settime (w.log ++ events)).last = .ok ()) :
    (armToNextDeadline K w).1 = .ok () := by
  unfold armToNextDeadline
  rw [bind_of_ok (update_run _ _), bind_of_ok (state_run _)]
  simp only [World.put_st]
  cases w.st.discardStaleEntries.deadlines.top with
  | none =>
    have hnow := hset []
    rw [List.append_nil] at hnow
    simp only [setTimer, World.put_log, hnow]
  | some entry =>
    simp only
    rw [bind_of_ok (clockNow_run K _)]
    simp only [setTimer, World.emit_log, World.put_log, hset]

/-- `handleReadable` returns where the reading of the timer ends with `EAGAIN` and the timer can be
set. -/
theorem handleReadable_returns (hread : (K.readTimer w.log).drains)
    (hset : ∀ events, (K.settime (w.log ++ events)).last = .ok ()) :
    ∃ jobs w', handleReadable K w = (.ok jobs, w') := by
  unfold handleReadable
  rw [bind_of_ok (history_run _), bind_of_ok (readTimerLoop_drains hread),
    bind_of_ok (clockNow_run K _), bind_of_ok (update_run _ _), bind_of_ok (state_run _)]
  set now := K.now (w.emit (.called .readTimer)).log with hnow
  set w1 : World TimeoutManager :=
    ⟨(w.st.expireAt now).1, w.log ++ [.called .readTimer] ++ [.clock now]⟩ with hw1
  have harm : (armToNextDeadline K w1).1 = .ok () :=
    armToNextDeadline_returns fun events => by
      rw [hw1, List.append_assoc, List.append_assoc]
      exact hset _
  have hrun : armToNextDeadline K w1 = (.ok (), (armToNextDeadline K w1).2) := Prod.ext harm rfl
  exact ⟨_, _, (bind_of_ok (update_run _ _)).trans
    ((bind_of_ok hrun).trans (bind_of_ok (emit_run _ _)))⟩

/-- After every run, `handleReadable` returns the jobs whose deadline has come at its reading of the
clock, each once and in order, and takes exactly these off the map; it does return where the reading
of the timer ends with `EAGAIN` and the timer can be set; and a job has an active generation exactly
when the map has a deadline for it. -/
theorem run_expires (h : Run K w m) :
    (∀ jobs, handleReadable K w = (.ok jobs, w') → ∃ now, reading w w' = some now ∧
        DeadlineMap.DueInOrder m now jobs ∧ jobs.Nodup ∧ Run K w' (m.expire now) ∧
        ∀ j, m.expire now j = if j ∈ jobs then none else m j) ∧
      ((K.readTimer w.log).drains → (∀ events, (K.settime (w.log ++ events)).last = .ok ()) →
        ∃ jobs w'', handleReadable K w = (.ok jobs, w'')) ∧
      ∀ j, (w.st.activeGenerations.find j).isSome ↔ (m j).isSome := by
  refine ⟨fun jobs hjobs => ?_, handleReadable_returns, h.refines.isSome_iff⟩
  obtain ⟨-, hdue⟩ := handleReadable_refines (K := K) h.refines
  obtain ⟨now, hnow, horder⟩ := hdue jobs (by rw [hjobs])
  have hrun := h.handleReadable
  rw [hjobs] at hnow hrun
  simp only at hnow hrun
  rw [hnow] at hrun
  refine ⟨now, hnow, horder, horder.nodup, hrun, fun j => ?_⟩
  split_ifs with hj
  · rw [← Option.not_isSome_iff_eq_none, Option.isSome_iff_exists]
    rintro ⟨d, hd⟩
    exact (DeadlineMap.expire_eq_some_iff.mp hd).2 ((horder.mem_iff j).mp hj)
  · refine Option.ext fun d => ?_
    rw [DeadlineMap.expire_eq_some_iff, ← horder.mem_iff]
    exact ⟨And.left, fun hd => ⟨hd, hj⟩⟩

/-- Two deadlines, the first one moved behind the second: the second expires, alone. -/
theorem run_expires_moved : ∃ w m, Run Kernel.quiet w m ∧ ∃ w' now,
    handleReadable Kernel.quiet w = (.ok [8], w') ∧ DeadlineMap.DueInOrder m now [8] ∧
      Run Kernel.quiet w' (m.expire now) := by
  have h1 := (Run.start (K := Kernel.quiet) []).schedule 7 1 (by decide) (by decide) (by decide)
  have h2 := h1.schedule 8 2 (by decide) (by decide) (by decide)
  have h3 := h2.schedule 7 50 (by decide) (by decide) (by decide)
  have hjobs : (handleReadable Kernel.quiet (schedule Kernel.quiet 7 50
      (schedule Kernel.quiet 8 2 (schedule Kernel.quiet 7 1 ⟨{}, []⟩).2).2).2).1 = .ok [8] := by
    decide
  have hreturned := Prod.ext hjobs rfl
  obtain ⟨now, -, hdue, -, hrun, -⟩ := (run_expires h3).1 [8] hreturned
  exact ⟨_, _, h3, _, now, hreturned, hdue, hrun⟩

end TimeoutManager

end Runnerd
