import Runnerd.Descriptors
import Runnerd.SignalAtomicity

/-!
# The answers of the kernel

What comes of a look at a job's child, of a signal and of a deadline depends on the answers that the
kernel gives from the history at hand on, and on the job's own entries in the tables. The functions
below say how, and the monitor and the daemon are proved to do just that. The entries of other jobs
play no part in it, and stay as they are.
-/

namespace Runnerd

open Function Effect Effect.Prog Steps

/-! ## Reading pipes -/

/-- How the reading of a pipe ends. -/
inductive Ending where
  | eof
  | again
  | failed
  deriving DecidableEq, Repr

def Reads.ending : Reads → Ending
  | .data _ rest => rest.ending
  | .interrupted rest => rest.ending
  | .eof => .eof
  | .again => .again
  | .failed _ => .failed

/-- What the reading of a pipe appends to the history. -/
def Reads.events (fd : Fd) : Reads → List Event
  | .data bytes rest => .received fd bytes :: rest.events fd
  | .interrupted rest => rest.events fd
  | .eof => [.reachedEof fd, .unregistered fd, .closed fd]
  | .again => [.called .read]
  | .failed _ => [.called .read]

/-- The process once one of its pipes has been read. -/
def Reads.applied (kind : ProcessFdKind) : Reads → ActiveProcess → ActiveProcess
  | .data bytes rest, p => rest.applied kind (p.receive kind bytes)
  | .interrupted rest, p => rest.applied kind p
  | .eof, p => p.closePipe kind
  | .again, p | .failed _, p => p

theorem Reads.applied_child (kind : ProcessFdKind) (reads : Reads) (p : ActiveProcess) :
    (reads.applied kind p).pid = p.pid ∧
      (reads.applied kind p).processGroupId = p.processGroupId ∧
      (reads.applied kind p).childExited = p.childExited ∧
      (reads.applied kind p).waitStatus = p.waitStatus := by
  induction reads generalizing p with
  | data bytes rest ih => exact ih (p.receive kind bytes)
  | interrupted rest ih => exact ih p
  | eof => exact ⟨rfl, rfl, rfl, rfl⟩
  | again => exact ⟨rfl, rfl, rfl, rfl⟩
  | failed e => exact ⟨rfl, rfl, rfl, rfl⟩

/-- A pipe is closed where its reading came to the end. -/
theorem Reads.applied_fd (kind : ProcessFdKind) (reads : Reads) (p : ActiveProcess)
    (k : ProcessFdKind) : ((reads.applied kind p).pipe k).fd =
      if k = kind ∧ reads.ending = .eof then none else (p.pipe k).fd := by
  induction reads generalizing p with
  | data bytes rest ih =>
    rw [Reads.applied, ih, ActiveProcess.receive_fd]
    rfl
  | interrupted rest ih => exact ih p
  | eof =>
    rw [Reads.applied, ActiveProcess.closePipe_pipe]
    by_cases hk : k = kind <;> simp [hk, Reads.ending]
  | again => simp [Reads.applied, Reads.ending]
  | failed e => simp [Reads.applied, Reads.ending]

/-- The history and the process once these pipes of it have been read one after the other, or nothing
where a reading fails. -/
def readPipes (K : Kernel) : List ProcessFdKind → List Event → ActiveProcess →
    Option (List Event × ActiveProcess)
  | [], log, p => some (log, p)
  | kind :: rest, log, p =>
    match (p.pipe kind).fd with
    | none => readPipes K rest log p
    | some fd =>
      if (K.read log fd).ending = .failed then none
      else
        readPipes K rest (log ++ (K.read log fd).events fd) ((K.read log fd).applied kind p)

/-- The pipes in the order of the source's arrays. -/
def ProcessFdKind.all : List ProcessFdKind := [.stdout, .stderr, .startupError]

namespace ProcessMonitor

variable {K : Kernel} {w w' w'' : World ProcessMonitor} {j : JobId} {p q : ActiveProcess} {job : Job}
  {fd : Fd} {kind : ProcessFdKind} {log : List Event}

/-- What looking at a job's child and reading its pipes does: the jobs and the notifications are as they
were, and so are the processes of other jobs. -/
structure Seen (j : JobId) (log : List Event) (q : ActiveProcess) (w w' : World ProcessMonitor) :
    Prop where
  log : w'.log = log
  jobs : w'.st.jobs = w.st.jobs
  notified : w'.st.terminalJobNotifications = w.st.terminalJobNotifications
  process : w'.st.activeJobs.find j = some q
  others : ∀ k, k ≠ j → w'.st.activeJobs.find k = w.st.activeJobs.find k
  held : Held w'.st

theorem Seen.refl (hactive : w.st.activeJobs.find j = some p) (hheld : Held w.st) :
    Seen j w.log p w w := ⟨rfl, rfl, rfl, hactive, fun _ _ => rfl, hheld⟩

theorem Seen.trans {log' : List Event} (h : Seen j log p w w') (h' : Seen j log' q w' w'') :
    Seen j log' q w w'' :=
  ⟨h'.log, h'.jobs.trans h.jobs, h'.notified.trans h.notified, h'.process,
    fun k hk => (h'.others k hk).trans (h.others k hk), h'.held⟩

theorem Seen.emit (h : Seen j log q w w') (e : Event) : Seen j (log ++ [e]) q w (w'.emit e) :=
  ⟨congrArg (· ++ [e]) h.log, h.jobs, h.notified, h.process, h.others, h.held⟩

/-- Another value for the process, with the same pipes. -/
theorem Seen.setProcess (hactive : w.st.activeJobs.find j = some p) (hheld : Held w.st)
    (hfds : ∀ kind, (q.pipe kind).fd = (p.pipe kind).fd) :
    Seen j w.log q w (w.put { w.st with activeJobs := w.st.activeJobs.set j q }) :=
  ⟨rfl, rfl, rfl, Table.find_set_self _ _ _, fun _ hk => Table.find_set_of_ne _ _ hk,
    hheld.setProcess hactive hfds⟩

theorem drainLoop_foretold (reads : Reads) (htracked : w.st.trackedFds.find fd = some ⟨j, kind⟩)
    (hactive : w.st.activeJobs.find j = some p) (hheld : Held w.st) :
    wp (drainLoop fd ⟨j, kind⟩ reads) (fun r w' =>
      Seen j (w.log ++ reads.events fd) (reads.applied kind p) w w' ∧
        (reads.ending = .failed ∧ (∃ e, r = .error e) ∨ reads.ending ≠ .failed ∧ r = .ok ())) w := by
  induction reads generalizing w p with
  | data bytes rest ih =>
    have hseen := (Seen.refl hactive hheld).emit (.received fd bytes)
    have hset := Seen.setProcess (q := p.receive kind bytes) hseen.process hseen.held (by simp)
    refine wp_bind_ok (emit_run w _) (wp_bind_ok (modifyProcess_run hseen.process _) ?_)
    refine wp_mono (ih htracked hset.process hset.held) fun r w' h => ⟨?_, h.2⟩
    have hdrained := (hseen.trans hset).trans h.1
    rwa [World.put_log, World.emit_log, List.append_assoc] at hdrained
  | interrupted rest ih => exact ih htracked hactive hheld
  | eof =>
    have hactive' : (w.emit (.reachedEof fd)).st.activeJobs.find j = some p := hactive
    refine wp_bind_ok (emit_run w _) (wp_of_run (closeTrackedFd_run htracked hactive')
      ⟨⟨?_, rfl, rfl, Table.find_set_self _ _ _, fun k hk => Table.find_set_of_ne _ _ hk, ?_⟩,
        Or.inr ⟨by simp [Reads.ending], rfl⟩⟩)
    · simp [Reads.events]
    · exact hheld.closePipe htracked hactive
  | again =>
    exact ⟨(Seen.refl hactive hheld).emit _, Or.inr ⟨by simp [Reads.ending], rfl⟩⟩
  | failed e =>
    exact ⟨(Seen.refl hactive hheld).emit _, Or.inl ⟨rfl, _, rfl⟩⟩

theorem drainProcessFd_foretold (hfd : (p.pipe kind).fd = some fd)
    (hactive : w.st.activeJobs.find j = some p) (hheld : Held w.st) :
    wp (drainProcessFd K fd) (fun r w' =>
      Seen j (w.log ++ (K.read w.log fd).events fd) ((K.read w.log fd).applied kind p) w w' ∧
        ((K.read w.log fd).ending = .failed ∧ (∃ e, r = .error e) ∨
          (K.read w.log fd).ending ≠ .failed ∧ r = .ok ())) w := by
  have htracked := hheld j p kind fd hactive hfd
  unfold drainProcessFd
  refine wp_bind_ok (state_run w) ?_
  simp only [htracked, hactive]
  exact wp_bind_ok (history_run w) (drainLoop_foretold _ htracked hactive hheld)

/-- Reading several pipes of a job. -/
theorem drainFds_foretold (kinds : List ProcessFdKind) (hnodup : kinds.Nodup)
    (hactive : w.st.activeJobs.find j = some p) (hheld : Held w.st) :
    wp (drainFds K (kinds.filterMap fun k => (p.pipe k).fd)) (fun r w' =>
      (readPipes K kinds w.log p = none ∧ (∃ e, r = .error e) ∧ ∃ log q, Seen j log q w w') ∨
        ∃ log q, readPipes K kinds w.log p = some (log, q) ∧ r = .ok () ∧ Seen j log q w w') w := by
  induction kinds generalizing w p with
  | nil => exact wp_pure (Or.inr ⟨w.log, p, rfl, rfl, .refl hactive hheld⟩)
  | cons kind rest ih =>
    obtain ⟨hnot, hnodup⟩ := List.nodup_cons.mp hnodup
    unfold readPipes
    cases hfd : (p.pipe kind).fd with
    | none =>
      rw [List.filterMap_cons_none (f := fun k => (p.pipe k).fd) hfd]
      exact ih hnodup hactive hheld
    | some fd =>
      rw [List.filterMap_cons_some (f := fun k => (p.pipe k).fd) hfd]
      refine wp_bind (drainProcessFd_foretold hfd hactive hheld) (fun _ w1 h1 => ?_) fun e w1 h1 => ?_
      · obtain ⟨hseen, ⟨-, e, hr⟩ | ⟨hending, -⟩⟩ := h1
        · cases hr
        simp only [if_neg hending]
        -- the other pipes are those they were
        have hsame : (rest.filterMap fun k => (p.pipe k).fd) =
            rest.filterMap fun k => (((K.read w.log fd).applied kind p).pipe k).fd := by
          refine List.filterMap_congr fun k hk => ?_
          rw [Reads.applied_fd, if_neg]
          rintro ⟨rfl, -⟩
          exact hnot hk
        rw [hsame]
        refine wp_mono (ih hnodup hseen.process hseen.held) fun r w' h' => ?_
        rw [hseen.log] at h'
        obtain ⟨hnone, hr, log, q, hrest⟩ | ⟨log, q, hsome, hr, hrest⟩ := h'
        · exact Or.inl ⟨hnone, hr, log, q, hseen.trans hrest⟩
        · exact Or.inr ⟨log, q, hsome, hr, hseen.trans hrest⟩
      · obtain ⟨hseen, ⟨hending, -⟩ | ⟨-, hr⟩⟩ := h1
        · exact Or.inl ⟨if_pos hending, ⟨e, rfl⟩, _, _, hseen⟩
        · cases hr

/-! ## A look at the child -/

/-- What a look at a job's child and its pipes comes to: it fails, it settles the job, or the job is
still there, with this process. -/
inductive LookAnswer where
  | failed
  | settled (log : List Event) (job : Job)
  | kept (log : List Event) (process : ActiveProcess)

/-- The look at a child that has exited: its pipes are read out, and the job is settled if they have all
ended. -/
def readAnswer (K : Kernel) (j : JobId) (job : Job) (log : List Event) (p : ActiveProcess) :
    LookAnswer :=
  match readPipes K ProcessFdKind.all log p with
  | none => .failed
  | some (log, q) =>
    if q.complete then
      match settledJob K q (withOutput q job) with
      | none => .failed
      | some job' => .settled (log ++ [.entered j job'.state]) job'
    else .kept log q

/-- The look at a child. -/
def lookAnswer (K : Kernel) (j : JobId) (job : Job) (log : List Event) (p : ActiveProcess) :
    LookAnswer :=
  if p.childExited then readAnswer K j job log p
  else
    match (K.waitpid log p.pid).last with
    | .exited status =>
      readAnswer K j job (log ++ [.reaped p.pid status, .recorded j status]) (p.exit status)
    | .running => .kept (log ++ [.called .waitpid]) p
    | .failed _ => .failed

/-- Nothing of another job has changed. -/
structure KeepsOthers (j : JobId) (w w' : World ProcessMonitor) : Prop where
  jobs : ∀ k, k ≠ j → w'.st.jobs.find k = w.st.jobs.find k
  processes : ∀ k, k ≠ j → w'.st.activeJobs.find k = w.st.activeJobs.find k
  held : Held w'.st

theorem KeepsOthers.of_state (j : JobId) (hstate : w'.st = w.st) (hheld : Held w.st) :
    KeepsOthers j w w' :=
  ⟨fun _ _ => by rw [hstate], fun _ _ => by rw [hstate], by rwa [hstate]⟩

theorem KeepsOthers.trans (h : KeepsOthers j w w') (h' : KeepsOthers j w' w'') : KeepsOthers j w w'' :=
  ⟨fun k hk => (h'.jobs k hk).trans (h.jobs k hk),
    fun k hk => (h'.processes k hk).trans (h.processes k hk), h'.held⟩

theorem Seen.confined (h : Seen j log q w w') : KeepsOthers j w w' :=
  ⟨fun k _ => congrArg (·.find k) h.jobs, h.others, h.held⟩

/-- What `finishExitedChildBeforeSignal` does where the look has this answer. -/
inductive Looks (j : JobId) (w w' : World ProcessMonitor) : LookAnswer → Except Exception Bool → Prop
  where
  | failed {e : Exception}
      (hnotified : w'.st.terminalJobNotifications = w.st.terminalJobNotifications)
      (hconfined : KeepsOthers j w w') : Looks j w w' .failed (.error e)
  | settled {log : List Event} {job' : Job} (hlog : w'.log = log)
      (hjob : w'.st.jobs.find j = some job') (hterminal : isTerminal job'.state)
      (hnotified : w'.st.terminalJobNotifications = w.st.terminalJobNotifications ++ [j])
      (hconfined : KeepsOthers j w w') : Looks j w w' (.settled log job') (.ok true)
  | kept {log : List Event} {q : ActiveProcess} (hseen : Seen j log q w w') :
      Looks j w w' (.kept log q) (.ok false)

/-- A look that begins where a part of it has been done. -/
theorem Looks.of_seen {answer : LookAnswer} {r : Except Exception Bool} (h : Seen j log q w w')
    (h' : Looks j w' w'' answer r) : Looks j w w'' answer r := by
  cases h' with
  | failed hnotified hconfined =>
    exact .failed (hnotified.trans h.notified) (h.confined.trans hconfined)
  | settled hlog hjob hterminal hnotified hconfined =>
    exact .settled hlog hjob hterminal (by rw [hnotified, h.notified]) (h.confined.trans hconfined)
  | kept hseen => exact .kept (h.trans hseen)

/-- The end of a look, where the child has exited. -/
theorem readOut_foretold (hwf : Wf w.st) (hheld : Held w.st) (hjob : w.st.jobs.find j = some job)
    (hactive : w.st.activeJobs.find j = some p) :
    wp (do
      drainFds K p.openFds
      tryFinalizeJob K j
      let job ← jobAt j
      return isTerminal job.state : Prog ProcessMonitor Bool)
      (fun r w' => Looks j w w' (readAnswer K j job w.log p) r) w := by
  have hdrains := drainFds_foretold (K := K) ProcessFdKind.all (by decide) hactive hheld
  have hopen : p.openFds = ProcessFdKind.all.filterMap fun k => (p.pipe k).fd := rfl
  rw [hopen]
  unfold readAnswer
  rcases hdrain : drainFds K (ProcessFdKind.all.filterMap fun k => (p.pipe k).fd) w with ⟨r, w1⟩
  have hwf1 : Wf w1.st := wf_of_walk (wp_run (drainFds_spec hwf _) hdrain) hwf
  obtain ⟨hnone, ⟨e, rfl⟩, log, q, hseen⟩ | ⟨log, q, hsome, rfl, hseen⟩ := wp_run hdrains hdrain
  · refine wp_of_run (bind_of_error hdrain) ?_
    rw [hnone]
    exact .failed hseen.notified hseen.confined
  refine wp_bind_ok hdrain ?_
  rw [hsome]
  have hjob1 : w1.st.jobs.find j = some job := by
    rw [hseen.jobs]
    exact hjob
  rcases hfinal : tryFinalizeJob K j w1 with ⟨r, w2⟩
  obtain ⟨rfl, rfl, hincomplete⟩ | ⟨rfl, hstep⟩ | ⟨e, rfl, hstep⟩ :=
    wp_run (tryFinalizeJob_spec (K := K) hwf1 j) hfinal
  · -- a pipe is still open
    have hrunning : isTerminal job.state = false := by
      have hactive := hwf.isActive hjob hactive
      cases hstate : job.state <;> rw [hstate] at hactive <;> first | rfl | cases hactive
    refine wp_bind_ok hfinal (wp_of_run (bind_of_ok (jobAt_run hjob1)) ?_)
    simp only [hincomplete q hseen.process, Bool.false_eq_true, if_false, hrunning]
    exact .kept hseen
  · cases hstep with
    | @settle _ _ q' job₁ job' hactive' hcomplete hjob' hsettled =>
    obtain rfl := Option.some.inj (hseen.process.symm.trans hactive')
    obtain rfl := Option.some.inj (hjob1.symm.trans hjob')
    have hterminal := (settles_of_settledJob hsettled).terminal
    refine wp_bind_ok hfinal (wp_of_run (bind_of_ok (jobAt_run (Table.find_set_self _ _ _))) ?_)
    simp only [hcomplete, if_true, hsettled, hterminal]
    refine .of_seen hseen (.settled ?_ (Table.find_set_self _ _ _) hterminal rfl
      ⟨fun k hk => Table.find_set_of_ne _ _ hk, fun k hk => Table.find_del_of_ne _ hk, ?_⟩)
    · rw [hseen.log]
    · exact hseen.held.settle
  · cases hstep with
    | @garble _ _ q' job₁ hactive' hcomplete hjob' hsettled =>
    obtain rfl := Option.some.inj (hseen.process.symm.trans hactive')
    obtain rfl := Option.some.inj (hjob1.symm.trans hjob')
    refine wp_of_run (bind_of_error hfinal) ?_
    simp only [hcomplete, if_true, hsettled]
    refine .of_seen hseen (.failed rfl ⟨fun k hk => Table.find_set_of_ne _ _ hk,
      fun k hk => Table.find_set_of_ne _ _ hk, ?_⟩)
    exact hseen.held.setProcess hactive' (by simp)

theorem finishExitedChildBeforeSignal_foretold (hwf : Wf w.st) (hheld : Held w.st)
    (hjob : w.st.jobs.find j = some job) (hactive : w.st.activeJobs.find j = some p) :
    wp (finishExitedChildBeforeSignal K j)
      (fun r w' => Looks j w w' (lookAnswer K j job w.log p) r) w := by
  unfold finishExitedChildBeforeSignal lookAnswer
  cases hexited : p.childExited with
  | true =>
    have hpoll : pollChild K j w = (.ok p, w) := by
      unfold pollChild
      rw [bind_of_ok (state_run w), hactive]
      simp only [hexited, if_true]
      rfl
    refine wp_bind_ok hpoll ?_
    simp only [hexited, Bool.true_eq_false, if_false, if_true]
    exact readOut_foretold hwf hheld hjob hactive
  | false =>
    cases hwait : (K.waitpid w.log p.pid).last with
    | exited status =>
      obtain ⟨w1, hpoll, hseen⟩ : ∃ w1, pollChild K j w = (.ok (p.exit status), w1) ∧
          Seen j (w.log ++ [.reaped p.pid status, .recorded j status]) (p.exit status) w w1 := by
        unfold pollChild
        rw [bind_of_ok (state_run w), hactive]
        simp only [hexited, Bool.false_eq_true, if_false]
        rw [bind_of_ok (history_run w), hwait]
        have hreaped := (Seen.refl hactive hheld).emit (.reaped p.pid status)
        have hset := Seen.setProcess (q := p.exit status) hreaped.process hreaped.held (by simp)
        refine ⟨_, (bind_of_ok (emit_run w _)).trans ((bind_of_ok
          (modifyProcess_run hreaped.process _)).trans (bind_of_ok (emit_run _ _))), ?_⟩
        have hseen := (hreaped.trans hset).emit (.recorded j status)
        rwa [World.emit_log, List.append_assoc] at hseen
      refine wp_bind_ok hpoll ?_
      simp only [ActiveProcess.exit_childExited, Bool.true_eq_false, if_false]
      have hwf' := wf_of_walk (wp_run (pollChild_spec (K := K) hactive) hpoll).1 hwf
      have hjob' := (congrArg (·.find j) hseen.jobs).trans hjob
      refine wp_mono (readOut_foretold hwf' hseen.held hjob' hseen.process) fun r w' h => ?_
      have hlooks := h.of_seen hseen
      rwa [hseen.log] at hlooks
    | running =>
      have hpoll : pollChild K j w = (.ok p, w.emit (.called .waitpid)) := by
        unfold pollChild
        rw [bind_of_ok (state_run w), hactive]
        simp only [hexited, Bool.false_eq_true, if_false]
        rw [bind_of_ok (history_run w), hwait]
        exact bind_of_ok (emit_run w _)
      refine wp_bind_ok hpoll ?_
      simp only [hexited, if_true]
      exact wp_pure (.kept ((Seen.refl hactive hheld).emit _))
    | failed e =>
      obtain ⟨e', w', hpoll, hstate⟩ : ∃ e' w', pollChild K j w = (.error e', w') ∧ w'.st = w.st := by
        unfold pollChild
        rw [bind_of_ok (state_run w), hactive]
        simp only [hexited, Bool.false_eq_true, if_false]
        rw [bind_of_ok (history_run w), hwait]
        simp only
        rw [bind_of_ok (emit_run w _)]
        split_ifs
        · exact ⟨_, _, rfl, rfl⟩
        · exact ⟨_, _, rfl, rfl⟩
      exact wp_of_run (bind_of_error hpoll) (.failed (by rw [hstate]) (.of_state j hstate hheld))

/-! ## Signals -/

/-- What a signal to a job comes to that is looked after first: it fails, the job is settled instead,
its process group is empty, or the signal is delivered. -/
inductive SignalAnswer where
  | failed
  | settled (log : List Event) (job : Job)
  | gone (log : List Event) (process : ActiveProcess)
  | delivered (log : List Event) (process : ActiveProcess)

/-- A signal to a job: a look, and a `kill` if the job is still there. -/
def signalAnswer (K : Kernel) (j : JobId) (signal : Signal) (job : Job) (log : List Event)
    (p : ActiveProcess) : SignalAnswer :=
  match lookAnswer K j job log p with
  | .failed => .failed
  | .settled log job' => .settled log job'
  | .kept log q =>
    match (K.kill log q.processGroupId signal).last with
    | .ok _ => .delivered (log ++ [.signalled j q.processGroupId signal]) q
    | .error e =>
      if e = .ESRCH then .gone (log ++ [.groupGone j q.processGroupId signal]) q else .failed

/-- What a signal does that has this answer. -/
inductive Signals (j : JobId) (w w' : World ProcessMonitor) :
    SignalAnswer → Except Exception Bool → Prop where
  | failed {e : Exception}
      (hnotified : w'.st.terminalJobNotifications = w.st.terminalJobNotifications)
      (hconfined : KeepsOthers j w w') : Signals j w w' .failed (.error e)
  | settled {log : List Event} {job' : Job} (hlog : w'.log = log)
      (hjob : w'.st.jobs.find j = some job') (hterminal : isTerminal job'.state)
      (hnotified : w'.st.terminalJobNotifications = w.st.terminalJobNotifications ++ [j])
      (hconfined : KeepsOthers j w w') : Signals j w w' (.settled log job') (.ok false)
  | gone {log : List Event} {q : ActiveProcess} (hseen : Seen j log q w w') :
      Signals j w w' (.gone log q) (.ok false)
  | delivered {log : List Event} {q : ActiveProcess} (hseen : Seen j log q w w') :
      Signals j w w' (.delivered log q) (.ok true)

/-- A signal comes to what the kernel's answers make of it. -/
theorem signal_foretold (hwf : Wf w.st) (hheld : Held w.st) (hjob : w.st.jobs.find j = some job)
    (hactive : w.st.activeJobs.find j = some p) (signal : Signal) (operation : Bytes) :
    wp (do
      let finished ← finishExitedChildBeforeSignal K j
      if finished then return false
      else sendSignalToProcessGroup K j signal operation : Prog ProcessMonitor Bool)
      (fun r w' => Signals j w w' (signalAnswer K j signal job w.log p) r) w := by
  unfold signalAnswer
  rcases hlook : finishExitedChildBeforeSignal K j w with ⟨r, w1⟩
  have hlooks := wp_run (finishExitedChildBeforeSignal_foretold (K := K) hwf hheld hjob hactive) hlook
  revert hlooks
  generalize lookAnswer K j job w.log p = answer
  intro hlooks
  cases hlooks with
  | failed hnotified hconfined =>
    exact wp_of_run (bind_of_error hlook) (.failed hnotified hconfined)
  | settled hlog hjob hterminal hnotified hconfined =>
    exact wp_of_run (bind_of_ok hlook) (.settled hlog hjob hterminal hnotified hconfined)
  | @kept log q hseen =>
    refine wp_bind_ok hlook ?_
    simp only [Bool.false_eq_true, if_false]
    unfold sendSignalToProcessGroup
    refine wp_bind_ok (state_run _) ?_
    simp only [hseen.process]
    refine wp_bind_ok (history_run _) ?_
    rw [hseen.log]
    cases (K.kill log q.processGroupId signal).last with
    | ok _ => exact wp_bind_ok (emit_run _ _) (wp_pure (.delivered (hseen.emit _)))
    | error e =>
      simp only
      split_ifs
      · exact wp_bind_ok (emit_run _ _) (wp_pure (.gone (hseen.emit _)))
      · have hfailed := hseen.emit (.called .kill)
        exact wp_bind_ok (emit_run _ _) (wp_throw (.failed hfailed.notified hfailed.confined))

/-- What a request to terminate does where the signal has this answer: as `Signals`, and the job is
marked where SIGTERM was delivered. -/
inductive Requests (j : JobId) (job : Job) (cause : TerminationCause) (w w' : World ProcessMonitor) :
    SignalAnswer → Except Exception Bool → Prop where
  | unsent {answer : SignalAnswer} {r : Except Exception Bool} (hsignals : Signals j w w' answer r)
      (hunsent : r ≠ .ok true) : Requests j job cause w w' answer r
  | marked {log : List Event} {q : ActiveProcess}
      (hlog : w'.log = log ++ [.entered j .terminating, .blamed j cause])
      (hjob : w'.st.jobs.find j =
        some { job with state := .terminating, terminationCause := some cause })
      (hprocess : w'.st.activeJobs.find j = some q)
      (hnotified : w'.st.terminalJobNotifications = w.st.terminalJobNotifications)
      (hconfined : KeepsOthers j w w') : Requests j job cause w w' (.delivered log q) (.ok true)

theorem requestTerminate_foretold (hwf : Wf w.st) (hheld : Held w.st)
    (hjob : w.st.jobs.find j = some job) (hactive : w.st.activeJobs.find j = some p)
    (hrunning : job.state = .running) (cause : TerminationCause) :
    wp (requestTerminate K j cause)
      (fun r w' => Requests j job cause w w' (signalAnswer K j .SIGTERM job w.log p) r) w := by
  have hsignals := signal_foretold (K := K) hwf hheld hjob hactive .SIGTERM
    (text "send SIGTERM to job process group")
  unfold requestTerminate
  refine wp_bind_ok (jobAt_run hjob) ?_
  rw [if_neg (not_not.mpr hrunning)]
  rcases hlook : finishExitedChildBeforeSignal K j w with ⟨r, w1⟩
  cases r with
  | error e =>
    exact wp_of_run (bind_of_error hlook)
      (.unsent (wp_run hsignals (bind_of_error hlook)) (by simp))
  | ok finished =>
    cases finished with
    | true =>
      exact wp_of_run (r := .ok false) (bind_of_ok hlook)
        (.unsent (wp_run hsignals (bind_of_ok hlook)) (by simp))
    | false =>
      refine wp_bind_ok hlook ?_
      simp only [Bool.false_eq_true, if_false]
      rcases hsend : sendSignalToProcessGroup K j .SIGTERM
        (text "send SIGTERM to job process group") w1 with ⟨r, w2⟩
      have hsent := wp_run hsignals ((bind_of_ok hlook).trans hsend)
      cases r with
      | error e => exact wp_of_run (bind_of_error hsend) (.unsent hsent (by simp))
      | ok delivered =>
        cases delivered with
        | false => exact wp_of_run (r := .ok false) (bind_of_ok hsend) (.unsent hsent (by simp))
        | true =>
          refine wp_bind_ok hsend ?_
          simp only [Bool.true_eq_false, if_false]
          revert hsent
          generalize signalAnswer K j .SIGTERM job w.log p = answer
          intro hsent
          cases hsent with
          | @delivered log q hseen =>
          have hjob2 : w2.st.jobs.find j = some job := (congrArg (·.find j) hseen.jobs).trans hjob
          have htrans : canTransition job.state .terminating := by
            rw [hrunning]
            rfl
          refine wp_bind_ok (withJob_enter hjob2 (hwf.id_eq hjob) htrans) ?_
          refine wp_bind_ok (withJob_update (Table.find_set_self _ _ _) _) ?_
          refine wp_bind_ok (emit_run _ _) (wp_pure (.marked ?_ ?_ hseen.process hseen.notified ?_))
          · simp [hseen.log, World.emit, World.put]
          · exact Table.find_set_self _ _ _
          · refine hseen.confined.trans ⟨fun k hk => ?_, fun _ _ => rfl, hseen.held⟩
            exact (Table.find_set_of_ne _ _ hk).trans (Table.find_set_of_ne _ _ hk)

theorem forceKill_foretold (hwf : Wf w.st) (hheld : Held w.st) (hjob : w.st.jobs.find j = some job)
    (hactive : w.st.activeJobs.find j = some p) (hterminating : job.state = .terminating) :
    wp (forceKill K j)
      (fun r w' => Signals j w w' (signalAnswer K j .SIGKILL job w.log p) r) w := by
  unfold forceKill
  refine wp_bind_ok (jobAt_run hjob) ?_
  rw [if_neg (not_not.mpr hterminating), if_neg (hwf.cause hjob hterminating)]
  exact signal_foretold hwf hheld hjob hactive .SIGKILL _

end ProcessMonitor

/-! ## Deadlines -/

namespace Daemon

open ProcessMonitor (Wf Held KeepsOthers Signals Requests SignalAnswer signalAnswer)
open TimeoutManager (Settable scheduled setEvents unsetEvents)

variable {K : Kernel} {n : ℕ} {w w' w'' : World Daemon} {rest : List JobId} {j : JobId}
  {p : ActiveProcess} {job : Job} {log : List Event} {t : TimeoutManager}

/-- What seeing to a job comes to: something fails, the job is settled, or it is still there; with the
history and the deadlines then. -/
inductive Turn where
  | failed
  | settled (log : List Event) (timeouts : TimeoutManager)
  | done (log : List Event) (timeouts : TimeoutManager)

/-- A turn that is one signal. -/
def signalTurn (t : TimeoutManager) : SignalAnswer → Turn
  | .failed => .failed
  | .settled log _ => .settled log t
  | .gone log _ | .delivered log _ => .done log t

/-- The grace deadline of a job that was sent SIGTERM. If it cannot be scheduled, SIGKILL is next. -/
def graceTurn (K : Kernel) (j : JobId) (job : Job) (log : List Event) (p : ActiveProcess)
    (t : TimeoutManager) : Turn :=
  if Settable K (t.cancel j) log then
    .done (log ++ setEvents K (t.cancel j) log j kTerminationGracePeriod)
      (scheduled K (t.cancel j) log j kTerminationGracePeriod)
  else
    signalTurn ((scheduled K (t.cancel j) log j kTerminationGracePeriod).cancel j)
      (signalAnswer K j .SIGKILL job (log ++ unsetEvents K (t.cancel j) log) p)

/-- A running job is asked to terminate, and gets its grace deadline. -/
def terminateTurn (K : Kernel) (j : JobId) (cause : TerminationCause) (job : Job) (log : List Event)
    (p : ActiveProcess) (t : TimeoutManager) : Turn :=
  match signalAnswer K j .SIGTERM job log p with
  | .delivered log q =>
    graceTurn K j { job with state := .terminating, terminationCause := some cause }
      (log ++ [.entered j .terminating, .blamed j cause]) q t
  | answer => signalTurn t answer

/-- What a turn does that comes to this. -/
inductive Turns (j : JobId) (w w' : World Daemon) : Turn → Except Exception Unit → Prop where
  | failed {e : Exception}
      (hnotified : w'.st.monitor.terminalJobNotifications = w.st.monitor.terminalJobNotifications)
      (hconfined : KeepsOthers j (monitorWorld w) (monitorWorld w')) : Turns j w w' .failed (.error e)
  | settled {log : List Event} {t : TimeoutManager} (hlog : w'.log = log)
      (htimeouts : w'.st.timeouts = t)
      (hconfined : KeepsOthers j (monitorWorld w) (monitorWorld w')) :
      Turns j w w' (.settled log t) (.ok ())
  | done {log : List Event} {t : TimeoutManager} (hlog : w'.log = log) (htimeouts : w'.st.timeouts = t)
      (hnotified : w'.st.monitor.terminalJobNotifications = w.st.monitor.terminalJobNotifications)
      (hconfined : KeepsOthers j (monitorWorld w) (monitorWorld w')) :
      Turns j w w' (.done log t) (.ok ())

/-- A signal that was sent from the daemon. -/
theorem Turns.of_signals {v : World ProcessMonitor} {answer : SignalAnswer} {r : Except Exception Bool}
    (h : Signals j (monitorWorld w) v answer r) :
    Turns j w (withMonitor w v) (signalTurn w.st.timeouts answer) (r.map fun _ => ()) := by
  cases h with
  | failed hnotified hconfined => exact .failed hnotified hconfined
  | settled hlog hjob hterminal hnotified hconfined => exact .settled hlog rfl hconfined
  | gone hseen => exact .done hseen.log rfl hseen.notified hseen.confined
  | delivered hseen => exact .done hseen.log rfl hseen.notified hseen.confined

/-- A turn that begins where a part of it has been done. -/
theorem Turns.of_confined {turn : Turn} {r : Except Exception Unit}
    (hnotified : w'.st.monitor.terminalJobNotifications = w.st.monitor.terminalJobNotifications)
    (hconfined : KeepsOthers j (monitorWorld w) (monitorWorld w')) (h : Turns j w' w'' turn r) :
    Turns j w w'' turn r := by
  cases h with
  | failed hnotified' hconfined' =>
    exact .failed (hnotified'.trans hnotified) (hconfined.trans hconfined')
  | settled hlog htimeouts hconfined' => exact .settled hlog htimeouts (hconfined.trans hconfined')
  | done hlog htimeouts hnotified' hconfined' =>
    exact .done hlog htimeouts (hnotified'.trans hnotified) (hconfined.trans hconfined')

theorem forceKill_turn (hwf : Wf w.st.monitor) (hheld : Held w.st.monitor)
    (hjob : w.st.monitor.jobs.find j = some job) (hactive : w.st.monitor.activeJobs.find j = some p)
    (hterminating : job.state = .terminating) :
    wp (do let _ ← inMonitor (ProcessMonitor.forceKill K j) : Prog Daemon Unit)
      (fun r w' => Turns j w w'
        (signalTurn w.st.timeouts (signalAnswer K j .SIGKILL job w.log p)) r) w := by
  have hsignals := ProcessMonitor.forceKill_foretold (K := K) (w := monitorWorld w) hwf hheld hjob
    hactive hterminating
  rcases hrun : ProcessMonitor.forceKill K j (monitorWorld w) with ⟨r, v⟩
  have hturns := Turns.of_signals (wp_run hsignals hrun)
  cases r with
  | ok b => exact wp_of_run (bind_of_ok (inMonitor_run hrun)) hturns
  | error e => exact wp_of_run (bind_of_error (inMonitor_run hrun)) hturns

theorem scheduleForceKillDeadline_foretold (hwf : Wf w.st.monitor) (hheld : Held w.st.monitor)
    (hrefines : ∃ f, w.st.timeouts.Refines f) (hjob : w.st.monitor.jobs.find j = some job)
    (hactive : w.st.monitor.activeJobs.find j = some p) (hterminating : job.state = .terminating) :
    wp (scheduleForceKillDeadline K j)
      (fun r w' => Turns j w w' (graceTurn K j job w.log p w.st.timeouts) r) w := by
  obtain ⟨f, hf⟩ := hrefines
  have hupdate : ∀ w : World Daemon,
      inTimeouts (update fun t => t.cancel j) w = (.ok (), withoutDeadline w j) := fun _ => rfl
  unfold scheduleForceKillDeadline graceTurn
  refine wp_bind_ok (hupdate w) ?_
  obtain ⟨hset, hrun⟩ | ⟨hunset, e, hrun⟩ := TimeoutManager.schedule_foretold (K := K)
    (w := ⟨w.st.timeouts.cancel j, w.log⟩) (hf.cancel j) j
    (show 0 < kTerminationGracePeriod by decide)
  · rw [if_pos hset]
    refine wp_of_run (tryCatch_of_ok (inTimeouts_run (w := withoutDeadline w j) hrun)) ?_
    exact .done rfl rfl rfl (.of_state j rfl hheld)
  · rw [if_neg hunset]
    refine wp_tryCatch_error (inTimeouts_run (w := withoutDeadline w j) hrun) ?_
    refine wp_bind_ok (hupdate _) ?_
    set w1 : World Daemon := withoutDeadline ⟨{ w.st with
      timeouts := scheduled K (w.st.timeouts.cancel j) w.log j kTerminationGracePeriod },
      w.log ++ unsetEvents K (w.st.timeouts.cancel j) w.log⟩ j with hw1
    have hconfined : KeepsOthers j (monitorWorld w) (monitorWorld w1) := .of_state j rfl hheld
    have hkill := forceKill_turn (K := K) (w := w1) hwf hheld hjob hactive hterminating
    have hnotified : w1.st.monitor.terminalJobNotifications =
        w.st.monitor.terminalJobNotifications := rfl
    exact wp_mono hkill fun _ _ h => h.of_confined hnotified hconfined

section Requested

variable {cause : TerminationCause} {r : Except Exception Bool} {v : World ProcessMonitor}

/-- A request that has not delivered SIGTERM is the whole turn. -/
theorem requestTerminate_turn (hwf : Wf w.st.monitor) (hheld : Held w.st.monitor)
    (hjob : w.st.monitor.jobs.find j = some job) (hactive : w.st.monitor.activeJobs.find j = some p)
    (hrunning : job.state = .running)
    (hrun : ProcessMonitor.requestTerminate K j cause (monitorWorld w) = (r, v)) (hr : r ≠ .ok true) :
    Turns j w (withMonitor w v) (terminateTurn K j cause job w.log p w.st.timeouts)
      (r.map fun _ => ()) := by
  have hrequests : Requests j job cause (monitorWorld w) v
      (signalAnswer K j .SIGTERM job w.log p) r :=
    wp_run (ProcessMonitor.requestTerminate_foretold hwf hheld hjob hactive hrunning cause) hrun
  unfold terminateTurn
  revert hrequests
  generalize signalAnswer K j .SIGTERM job w.log p = answer
  intro hrequests
  cases hrequests with
  | marked => exact absurd rfl hr
  | unsent hsignals =>
    have hturns := Turns.of_signals hsignals
    cases hsignals with
    | delivered => exact absurd rfl hr
    | _ => exact hturns

/-- A request that has delivered SIGTERM goes on to the grace deadline. -/
theorem scheduleForceKillDeadline_turn (hwf : Wf w.st.monitor) (hheld : Held w.st.monitor)
    (hrefines : ∃ f, w.st.timeouts.Refines f) (hjob : w.st.monitor.jobs.find j = some job)
    (hactive : w.st.monitor.activeJobs.find j = some p) (hrunning : job.state = .running)
    (hrun : ProcessMonitor.requestTerminate K j cause (monitorWorld w) = (.ok true, v)) :
    wp (scheduleForceKillDeadline K j) (fun r w' =>
      Turns j w w' (terminateTurn K j cause job w.log p w.st.timeouts) r) (withMonitor w v) := by
  have hrequests : Requests j job cause (monitorWorld w) v
      (signalAnswer K j .SIGTERM job w.log p) (.ok true) :=
    wp_run (ProcessMonitor.requestTerminate_foretold hwf hheld hjob hactive hrunning cause) hrun
  have hwf1 : Wf v.st := wp_run (ProcessMonitor.requestTerminate_wf (K := K) (w := monitorWorld w) hwf
    hjob hrunning cause) hrun
  unfold terminateTurn
  revert hrequests
  generalize signalAnswer K j .SIGTERM job w.log p = answer
  intro hrequests
  cases hrequests with
  | unsent hsignals hunsent => exact absurd rfl hunsent
  | @marked log q hlog hjob1 hprocess hnotified hconfined =>
    have hgrace := scheduleForceKillDeadline_foretold (K := K) (w := withMonitor w v) hwf1
      hconfined.held hrefines hjob1 hprocess rfl
    have hlog1 : (withMonitor w v).log = log ++ [.entered j .terminating, .blamed j cause] := hlog
    rw [hlog1] at hgrace
    have hconfined1 : KeepsOthers j (monitorWorld w) (monitorWorld (withMonitor w v)) := hconfined
    have hnotified1 : (withMonitor w v).st.monitor.terminalJobNotifications =
        w.st.monitor.terminalJobNotifications := hnotified
    exact wp_mono hgrace fun _ _ h => h.of_confined hnotified1 hconfined1

end Requested

end Daemon

end Runnerd
