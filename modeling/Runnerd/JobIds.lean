import Runnerd.DaemonRuns
import Runnerd.SubmitCodec

/-!
# Job ids

Which ids the job table holds, over whole runs, and what a SUBMIT does: it adds the job it
acknowledges under the next id, or changes nothing.

`submitJob` adds the job before the scheduler takes it, and takes it out again if the scheduler
throws. What it does after that can throw too, but nothing that is answered with `ERR`.
-/

namespace Runnerd

open Effect Effect.Prog Steps Trace
open ProcessMonitor (Wf)

namespace Daemon

variable {K : Kernel} {n : ℕ} {l : Label} {m m' : Moment} {w w' : World Daemon} {j : JobId}
  {job : Job} {request response : Bytes} {r : Except Exception Bytes}

/-! ## The job table -/

/-- A job stays in the table, with its id and spec. -/
theorem Step.keeps_job (hstep : Step K l m m') (hwf : Wf m.world.st.monitor) {id : JobId}
    {spec : JobSpec} (h : ∃ job, m.world.st.jobs.find j = some job ∧ job.id = id ∧
      job.spec = spec) :
    ∃ job, m'.world.st.jobs.find j = some job ∧ job.id = id ∧ job.spec = spec := by
  obtain ⟨job, hjob, rfl, rfl⟩ := h
  obtain heq | ⟨job₀, job', hjob₀, hjob', hrewrites⟩ | ⟨_, _, hnone, _⟩ := hstep.rewrites hwf j
  · exact ⟨job, heq.trans hjob, rfl, rfl⟩
  · rw [hjob] at hjob₀
    obtain rfl := Option.some.inj hjob₀
    exact ⟨job', hjob', hrewrites.id_eq, hrewrites.spec_eq⟩
  · rw [hjob] at hnone
    cases hnone

/-- Only a submission hands out an id. -/
theorem nextJobId_of_starts {due rest : List JobId}
    (hwalk : Walk (Step K) {l | l.starts} ⟨w, due⟩ ⟨w', rest⟩) :
    w'.st.nextJobId = w.st.nextJobId := by
  have key := hwalk.invariant (P := fun m => m.world.st.nextJobId = w.st.nextJobId) ?_ rfl
  · exact key
  · intro l hl a b hstep ha
    cases hstep with
    | misfire | run => exact ha
    | _ => cases hl

/-! ## One SUBMIT -/

/-- A SUBMIT is none of the other requests. -/
theorem handleRequest_of_submit (h : isSubmitRequest request) :
    handleRequest K request = answeringInvalidArgument (submitJob K request) := by
  have hne : ∀ command, command.length = kSubmitCommand.length → command ≠ kSubmitCommand →
      ¬ startsWith command request := fun command hlength hne hstart =>
    hne (startsWith_inj hstart h hlength)
  have hping : request ≠ text "PING" := by
    rintro rfl
    revert h
    decide
  have hlist : request ≠ text "LIST" := by
    rintro rfl
    revert h
    decide
  have hstatus : ¬ isStatusRequest request := hne kStatusCommand (by decide) (by decide)
  have hcancel : ¬ isCancelRequest request := hne kCancelCommand (by decide) (by decide)
  unfold handleRequest
  rw [if_neg hping, if_neg hlist, if_neg hstatus, if_neg hcancel, if_neg (by rw [h]; simp)]

theorem inScheduler_error {α : Type} {f : JobScheduler → Except Exception (α × JobScheduler)}
    {e : Exception} (h : f w.st.scheduler = .error e) :
    inScheduler f w = (.error e, w.emit (.raised e)) := by
  unfold inScheduler
  rw [h]
  rfl

/-- A SUBMIT that the scheduler will not take is undone. -/
theorem submitJob_undone {e : Exception} (h : w.st.scheduler.enqueue w.st.nextJobId = .error e) :
    (submitJob K request w).2.st = w.st := by
  show wp (submitJob K request) (fun _ w' => w'.st = w.st) w
  unfold submitJob
  refine wp_bind (wp_ofExcept (Q := fun _ w' => w' = w) rfl) (fun spec w1 hw1 => ?_)
    fun e w1 hw1 => hw1 ▸ rfl
  subst hw1
  refine wp_bind (wp_ofExcept (Q := fun _ w' => w' = w1) rfl) (fun _ w2 hw2 => ?_)
    fun e w2 hw2 => hw2 ▸ rfl
  subst hw2
  refine wp_bind_ok (state_run w2) ?_
  by_cases hid : w2.st.nextJobId = 0
  · simp only [hid, if_true]
    exact wp_throw rfl
  simp only [hid, if_false]
  cases hfind : w2.st.jobs.find w2.st.nextJobId with
  | some job => exact wp_of_run (raise_run _ w2) rfl
  | none =>
  simp only
  refine wp_bind_ok (inMonitor_run (update_run _ _)) (wp_bind_ok (emit_run _ _) ?_)
  have hthrow : ∀ w3 : World Daemon, w3.st.scheduler = w2.st.scheduler →
      inScheduler (fun s => do return ((), ← s.enqueue w2.st.nextJobId)) w3 =
        (.error e, w3.emit (.raised e)) := fun w3 hw3 => by
    refine inScheduler_error ?_
    rw [hw3]
    simp only [h]
    rfl
  have hrestore : (w2.st.jobs.set w2.st.nextJobId { id := w2.st.nextJobId, spec }).del
      w2.st.nextJobId = w2.st.jobs := by
    rw [Table.del_set, Table.del_of_find_eq_none hfind]
  refine wp_bind (R := fun r w' => (∃ e, r = .error e) ∧ w'.st = w2.st)
    (wp_tryCatch_error (hthrow _ rfl) (wp_bind_ok (inMonitor_run (update_run _ _))
      (wp_throw ⟨⟨e, rfl⟩, ?_⟩)))
    (fun _ w3 h3 => ?_) fun _ w3 h3 => h3.2
  · exact congrArg (fun jobs => { w2.st with monitor := { w2.st.monitor with jobs } }) hrestore
  · obtain ⟨⟨_, hr⟩, -⟩ := h3
    cases hr

/-- What a SUBMIT does to the daemon, by its response. -/
theorem handleRequest_submit (h : Sound n ⟨w, []⟩) (hsubmit : isSubmitRequest request)
    (hrun : handleRequest K request w = (r, w')) :
    (∀ j, r = .ok (acknowledgement j) → j = w.st.nextJobId ∧ j ≠ 0 ∧
      w'.st.nextJobId = (j + 1) % 2 ^ 64 ∧ ∃ spec job, decodeSubmitRequest request = .ok spec ∧
        w'.st.jobs.find j = some job ∧ job.id = j ∧ job.spec = spec) ∧
      ((∃ what, r = .ok (text "ERR " ++ what)) ∨ w.st.nextJobId = 0 → w'.st = w.st) := by
  have hne : ∀ what j, text "ERR " ++ what ≠ acknowledgement j := fun what j heq => by
    have hhead := congrArg List.head? heq
    simp [text, acknowledgement] at hhead
  have hspec : wp (handleRequest K request) (fun r w' =>
      (w'.st = w.st ∧ ∀ j, r ≠ .ok (acknowledgement j)) ∨ w.st.nextJobId ≠ 0 ∧
        (∀ response, r = .ok response → response = acknowledgement w.st.nextJobId) ∧
        w'.st.nextJobId = (w.st.nextJobId + 1) % 2 ^ 64 ∧ ∃ spec job,
          decodeSubmitRequest request = .ok spec ∧ w'.st.jobs.find w.st.nextJobId = some job ∧
          job.id = w.st.nextJobId ∧ job.spec = spec) w := by
    rw [handleRequest_of_submit hsubmit]
    refine answeringInvalidArgument_spec (wp_mono (submitJob_spec h request) fun r w' hs => ?_)
    cases hs with
    | refused =>
      exact ⟨Or.inl ⟨rfl, fun _ hr => by cases hr⟩, fun what _ =>
        Or.inl ⟨rfl, fun j hr => hne what j (Except.ok.inj hr)⟩⟩
    | @added spec r w' hdecode hid hstep hwalk hresponse hinvalid hidle =>
      refine ⟨Or.inr ⟨hid, hresponse, nextJobId_of_starts hwalk, spec, ?_⟩,
        fun what hr => absurd hr (hinvalid what)⟩
      have hkept := sound_invariant (P := fun m => ∃ job,
          m.world.st.jobs.find w.st.nextJobId = some job ∧ job.id = w.st.nextJobId ∧
            job.spec = spec)
        (fun _ _ _ hs hstep => hstep.keeps_job hs.wf) hwalk (hstep.sound h)
        ⟨_, Table.find_set_self _ _ _, rfl, rfl⟩
      obtain ⟨-, job, hjob⟩ := hkept
      exact ⟨job, hdecode, hjob⟩
  obtain ⟨hsame, hnot⟩ | ⟨hid, hresponse, hnext, hjob⟩ := wp_run hspec hrun
  · exact ⟨fun j hr => absurd hr (hnot j), fun _ => hsame⟩
  · refine ⟨fun j hr => ?_, ?_⟩
    · obtain rfl := decimal_injective (List.append_cancel_left (hresponse _ hr))
      exact ⟨rfl, hid, hnext, hjob⟩
    · rintro (⟨what, hr⟩ | hzero)
      · exact absurd (hresponse _ hr) (hne what _)
      · exact absurd hzero hid

/-! ## Acknowledgements -/

/-- No id is handed out twice, nor acknowledged twice. -/
def Unrepeated (before : List Event) (e : Event) (_after : List Event) : Prop :=
  match e with
  | .submitted j => .submitted j ∉ before
  | .answered _ request response => isSubmitRequest request → ∀ j, response = acknowledgement j →
      .submitted j ∈ before ∧ ∀ fd request', isSubmitRequest request' →
        .answered fd request' (acknowledgement j) ∉ before
  | _ => True

theorem state_of_submitted {log : List Event} (h : .submitted j ∈ log) :
    (ledger log).state j ≠ none := by
  induction log using List.reverseRecOn with
  | nil => cases h
  | append_singleton log e ih =>
    rw [ledger_concat]
    obtain h | h := List.mem_append.mp h
    · have hold := ih h
      cases e with
      | submitted k | entered k =>
        show Function.update (ledger log).state k _ j ≠ none
        by_cases hj : j = k
        · rw [hj, Function.update_self]
          simp
        · rwa [Function.update_of_ne hj]
      | _ => exact hold
    · obtain rfl := List.mem_singleton.mp h
      show Function.update (ledger log).state j _ j ≠ none
      rw [Function.update_self]
      simp

theorem mem_of_submission {log : List Event} (h : submission log = some j) :
    .submitted j ∈ log := by
  induction log using List.reverseRecOn with
  | nil => cases h
  | append_singleton log e ih =>
    unfold submission at h
    rw [List.foldl_append] at h
    cases e with
    | submitted k =>
      obtain rfl := Option.some.inj h
      exact List.mem_append_right _ List.mem_cons_self
    | asked | answered => cases h
    | _ => exact List.mem_append_left _ (ih h)

/-- What is submitted after a response is submitted after it. -/
theorem submission_answered (log rest : List Event) (fd : Fd) (request response : Bytes) :
    submission (log ++ .answered fd request response :: rest) = submission rest := by
  unfold submission
  rw [List.foldl_append]
  rfl

/-- Only the steps for them hand out ids and answer requests. -/
theorem Step.parley (hstep : Step K l m m') : ∃ events, m'.world.log = m.world.log ++ events ∧
    ((∀ e ∈ events, parleyEvent e = false ∨ ∃ fd request, e = .asked fd request) ∨
      (∃ j, l = .submit j ∧ events = [.submitted j]) ∨
      ∃ fd request response, l = .answer fd ∧ events = [.answered fd request response] ∧
        Truthful m.world.log request response) := by
  have hquiet : ∀ {events : List Event}, (∀ e ∈ events, parleyEvent e = false) →
      ∀ e ∈ events, parleyEvent e = false ∨ ∃ fd request, e = .asked fd request :=
    fun h e he => Or.inl (h e he)
  have hchore : ∀ {events : List Event}, (∀ e ∈ events, choreEvent e) →
      ∀ e ∈ events, parleyEvent e = false := fun h e he => by
    have := h e he
    cases e <;> first | rfl | cases this
  have hmonitor : ∀ {w : World Daemon} {v l}, ProcessMonitor.Step K l (monitorWorld w) v →
      (∀ j, l ≠ .submit j) → ∃ events, v.log = w.log ++ events ∧
        ∀ e ∈ events, parleyEvent e = false := fun hv hl => parley_of_monitorStep hv hl
  have hnothing : ∃ events, m.world.log = m.world.log ++ events ∧
      ∀ e ∈ events, parleyEvent e = false := ⟨[], (List.append_nil _).symm, by simp⟩
  cases hstep with
  | attend hevents => exact ⟨_, rfl, Or.inl (hquiet (hchore hevents))⟩
  | take | hangUp | rearm | spare => exact ⟨_, rfl, Or.inl (hquiet (by simp [parleyEvent]))⟩
  | accept hnew hevents =>
    refine ⟨_, rfl, Or.inl (hquiet (List.forall_mem_cons.mpr ⟨rfl, ?_⟩))⟩
    exact List.forall_mem_append.mpr ⟨hchore hevents, by simp [parleyEvent]⟩
  | refuse hevents =>
    refine ⟨_, rfl, Or.inl (hquiet (List.forall_mem_cons.mpr ⟨rfl, ?_⟩))⟩
    exact List.forall_mem_append.mpr ⟨hchore hevents, by simp [parleyEvent]⟩
  | tend hfind htending =>
    refine ⟨_, rfl, Or.inl ?_⟩
    cases htending <;> simp [parleyEvent]
  | @answer w due fd c connections request response hfind hresponding htruthful =>
    exact ⟨_, rfl, Or.inr (Or.inr ⟨fd, request, response, rfl, rfl, htruthful⟩)⟩
  | watch hl hstep =>
    obtain ⟨events, hlog, hevents⟩ := hmonitor hstep fun j hj => by
      rw [hj] at hl
      cases hl
    exact ⟨events, hlog, Or.inl (hquiet hevents)⟩
  | submit => exact ⟨_, rfl, Or.inr (Or.inl ⟨_, rfl, rfl⟩)⟩
  | misfire hl hslot hwaiting hstep =>
    obtain ⟨events, hlog, hevents⟩ := hmonitor hstep fun j hj => by
      obtain rfl | rfl := hl <;> cases hj
    exact ⟨events, hlog, Or.inl (hquiet hevents)⟩
  | dequeue hstep | kill hstep =>
    obtain ⟨events, hlog, hevents⟩ := hmonitor hstep (by simp)
    exact ⟨events, hlog, Or.inl (hquiet hevents)⟩
  | terminate hdue hstep =>
    obtain ⟨events, hlog, hevents⟩ := hmonitor hstep (by simp)
    exact ⟨events, hlog, Or.inl (hquiet hevents)⟩
  | @run w v j rest job timeouts events hslot hwaiting hstep hjob htimed hevents =>
    obtain ⟨more, hlog, hmore⟩ := hmonitor hstep (by simp)
    refine ⟨more ++ events, ?_, Or.inl (hquiet (List.forall_mem_append.mpr
      ⟨hmore, hchore hevents⟩))⟩
    show v.log ++ events = _
    rw [hlog, List.append_assoc]
  | release | skip =>
    obtain ⟨events, hlog, hevents⟩ := hnothing
    exact ⟨events, hlog, Or.inl (hquiet hevents)⟩
  | expire hnow hread hevents => exact ⟨_, rfl, Or.inl (hquiet (hchore hevents))⟩
  | arm hjob hterminating hdeadline hgen hevents =>
    exact ⟨_, rfl, Or.inl (hquiet (hchore hevents))⟩
  | fumble hgen hevents => exact ⟨_, rfl, Or.inl (hquiet (hchore hevents))⟩

theorem Step.unrepeated (hstep : Step K l m m') (hsound : Sound n m)
    (h : Throughout Unrepeated [] m.world.log) : Throughout Unrepeated [] m'.world.log := by
  have extend : ∀ {events}, Throughout Unrepeated m.world.log events →
      Throughout Unrepeated [] (m.world.log ++ events) := fun hevents =>
    h.append (fun _ _ _ _ h => h) (by simpa using hevents)
  obtain ⟨events, hlog, hquiet | ⟨j, rfl, rfl⟩ | ⟨fd, request, response, rfl, rfl, htruthful⟩⟩ :=
    hstep.parley
  · rw [hlog]
    refine extend (throughout_of_forall fun e he pre post => ?_)
    obtain hparley | ⟨fd, request, rfl⟩ := hquiet e he
    · cases e <;> trivial
    · trivial
  · rw [hlog]
    refine extend (throughout_cons.mpr ⟨fun hmem => state_of_submitted hmem ?_, throughout_nil⟩)
    cases hstep with
    | submit hid hnone =>
      exact (hsound.recorded.state _).trans (congrArg (Option.map Job.state) hnone)
  · rw [hlog]
    refine extend (throughout_cons.mpr ⟨fun hsubmit j hj => ?_, throughout_nil⟩)
    have hlast := htruthful.submitted hsubmit j hj
    refine ⟨mem_of_submission hlast, fun fd' request' hsubmit' hmem => ?_⟩
    -- the earlier response had its own submission before it, and another one followed
    obtain ⟨pre, post, heq⟩ := List.append_of_mem hmem
    rw [heq, submission_answered] at hlast
    obtain ⟨mid, rest, rfl⟩ := List.append_of_mem (mem_of_submission hlast)
    have hfirst := h pre _ _ heq
    have hagain := h (pre ++ .answered fd' request' (acknowledgement j) :: mid)
      (.submitted _) rest (by rw [heq, List.append_assoc, List.cons_append])
    refine hagain ?_
    rw [List.nil_append]
    exact List.mem_append_left _ (hfirst hsubmit' j rfl).1

end Daemon

/-! ## Whole runs -/

section Runs

open Daemon

variable {K : Kernel} {s : Setup} {w w' : World Daemon}

/-- In every run the ids of the job table are those from 1 on that have been handed out, and a job
keeps its id and spec. A SUBMIT is acknowledged with the next id, for which the table then holds a
job with the spec asked for; where it is answered with `ERR`, the ids are used up or the scheduler
throws, it has changed nothing. No id is handed out twice or acknowledged twice. -/
theorem jobIds (h : Reachable K s w) (hlater : Later K w w') :
    (∀ j, j ∈ w'.st.jobs.keys ↔ 0 < j ∧
      j < if w'.st.nextJobId = 0 then 2 ^ 64 else w'.st.nextJobId) ∧
    (∀ j job, w.st.jobs.find j = some job → job.id = j ∧ ∃ job',
      w'.st.jobs.find j = some job' ∧ job'.id = job.id ∧ job'.spec = job.spec) ∧
    Throughout Unrepeated [] w'.log ∧
    (∀ v v' request r, Between K s v → isSubmitRequest request →
      handleRequest K request v = (r, v') →
      (∀ j, r = .ok (acknowledgement j) → j = v.st.nextJobId ∧ j ≠ 0 ∧
        v'.st.nextJobId = (j + 1) % 2 ^ 64 ∧ ∃ spec job, decodeSubmitRequest request = .ok spec ∧
          v'.st.jobs.find j = some job ∧ job.id = j ∧ job.spec = spec) ∧
      ((∃ what, r = .ok (text "ERR " ++ what)) ∨ v.st.nextJobId = 0 → v'.st = v.st)) ∧
    ∀ (v : World Daemon) e request, v.st.scheduler.enqueue v.st.nextJobId = .error e →
      (submitJob K request v).2.st = v.st := by
  obtain ⟨due, hwalk⟩ := hlater.walk h
  obtain ⟨hsound, hunrepeated⟩ := sound_invariant
    (P := fun m => Throughout Unrepeated [] m.world.log)
    (fun _ _ _ hs hstep => hstep.unrepeated hs) (h.sound_walk.2.trans hwalk) (sound_initial s)
    (by simp [Setup.initial, Unrepeated])
  refine ⟨fun j => ?_, fun j job hjob => ⟨h.sound.wf.id_eq hjob, ?_⟩, hunrepeated, ?_,
    fun _ _ _ => submitJob_undone⟩
  · rw [Table.mem_keys_iff, ← Option.isSome_iff_exists]
    refine Iff.trans ?_ (hsound.slots.known j)
    unfold stateOf
    rw [Option.isSome_map]
  · exact (sound_invariant (fun _ _ _ hs hstep => hstep.keeps_job hs.wf) hwalk h.sound
      ⟨job, hjob, rfl, rfl⟩).2
  · exact fun v v' request r hbetween hsubmit hrun =>
      handleRequest_submit hbetween.sound hsubmit hrun

/-- A client submits a job, and then one that is refused. -/
def refusedScript : Kernel := Kernel.quiet.withClient
  [[(3, { epollin := true })], [(7, { epollin := true })], [(7, { epollin := true })]]
  [[], submitPayload 0 [text "/a"], text "SUBMIT"]

theorem jobIds_run : (∀ j, j ∈ (after refusedScript oneSlot 3).st.jobs.keys ↔ 0 < j ∧ j < 2) ∧
    ∃ job, (after refusedScript oneSlot 3).st.jobs.find 1 = some job ∧
      job.spec.argv = [text "/a"] := by
  have hok : ∀ i < 3, (Daemon.iterate refusedScript (after refusedScript oneSlot i)).1 = .ok () := by
    decide +kernel
  have hreachable : Reachable refusedScript oneSlot (after refusedScript oneSlot 2) :=
    reachable_after fun i hi => hok i (by omega)
  have hlater : Later refusedScript (after refusedScript oneSlot 2)
      (after refusedScript oneSlot 3) := later_after (m := 2) (k := 1) hok
  have hargv : ((after refusedScript oneSlot 2).st.jobs.find 1).map (fun job => job.spec.argv) =
      some [text "/a"] := by decide +kernel
  have hnext : (after refusedScript oneSlot 3).st.nextJobId = 2 := by decide +kernel
  obtain ⟨job, hjob, hargv⟩ := Option.map_eq_some_iff.mp hargv
  obtain ⟨hkeys, hkept, -⟩ := jobIds hreachable hlater
  obtain ⟨-, job', hjob', -, hspec⟩ := hkept 1 job hjob
  rw [hnext, if_neg (by decide)] at hkeys
  exact ⟨hkeys, job', hjob', by rw [hspec, hargv]⟩

end Runs

end Runnerd
