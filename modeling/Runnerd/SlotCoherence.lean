import Runnerd.KernelAnswers
import Runnerd.SignalDiscipline

/-!
# Slots, queue and notifications between the rounds

A job that is settled is notified, and the notification is dealt with in the branches of the timer and
of the monitor. The branch of a client deals with none, although a CANCEL looks after the job before it
signals it, and may find that it can be settled. Then the notification waits for the next event of the
other two branches. So whenever the loop returns to `epoll_wait` the scheduler agrees with the job table
and no slot is idle, as long as each CANCEL that comes to settle a job, by the answers of the kernel, is
followed in its batch by an event of the timer or the monitor.
-/

namespace Runnerd

open Effect Effect.Prog Steps

namespace Daemon

open ProcessMonitor (Held)

variable {K : Kernel} {s : Setup} {n : ℕ} {m m' : Moment} {w w' : World Daemon} {fd : Fd}
  {c : Connection} {j : JobId} {p : ActiveProcess} {job : Job}

/-! ## One request -/

/-- The notifications are those they were. -/
def Unnotified (w w' : World Daemon) : Prop :=
  w'.st.monitor.terminalJobNotifications = w.st.monitor.terminalJobNotifications

def Turn.settles : Turn → Bool
  | .settled _ _ => true
  | _ => false

theorem Turns.unnotified {turn : Turn} {r : Except Exception Unit} (h : Turns j w w' turn r) :
    Unnotified w w' ∨ turn.settles := by
  cases h with
  | failed hnotified => exact Or.inl hnotified
  | settled => exact Or.inr rfl
  | done _ _ hnotified => exact Or.inl hnotified

/-- By the answers of the kernel this request comes to settle a job: it is the CANCEL of a running job
that is found to have exited, with all of its pipes at the end, before it is signalled, or before the
SIGKILL that is sent where its grace deadline cannot be scheduled. -/
def settlesJob (K : Kernel) (request : Bytes) (w : World Daemon) : Bool :=
  match decodeCancelRequest request with
  | .error _ => false
  | .ok j =>
    match w.st.jobs.find j, w.st.monitor.activeJobs.find j with
    | some job, some p =>
      job.state = .running && (terminateTurn K j .cancelled job w.log p w.st.timeouts).settles
    | _, _ => false

theorem cancelRunningJob_notifies (hsound : Sound n ⟨w, []⟩) (hheld : Held w.st.monitor)
    (hjob : w.st.jobs.find j = some job) (hrunning : job.state = .running)
    (hactive : w.st.monitor.activeJobs.find j = some p) :
    wp (cancelRunningJob K j) (fun _ w' => Unnotified w w' ∨
      (terminateTurn K j .cancelled job w.log p w.st.timeouts).settles) w := by
  have hwf : w.st.monitor.Wf := hsound.wf
  unfold cancelRunningJob
  rcases hrun : ProcessMonitor.requestTerminate K j .cancelled (monitorWorld w) with ⟨r, v⟩
  have hasked := inMonitor_run hrun
  by_cases hr : r = .ok true
  · subst hr
    refine wp_bind_ok (tryCatch_of_ok (bind_of_ok hasked)) ?_
    simp only [Bool.true_eq_false, if_false]
    have hturn := scheduleForceKillDeadline_turn hwf hheld hsound.timed.refines hjob hactive hrunning
      hrun
    refine wp_bind (wp_mono hturn fun _ _ h => h.unnotified) (fun _ _ h => wp_pure h) fun _ _ h => h
  · have hturn := (requestTerminate_turn hwf hheld hjob hactive hrunning hrun hr).unnotified
    cases r with
    | ok requested =>
      obtain rfl : requested = false := Bool.eq_false_iff.mpr fun h => hr (by rw [h])
      refine wp_bind_ok (tryCatch_of_ok (bind_of_ok hasked)) ?_
      simp only [if_true]
      exact wp_pure hturn
    | error e =>
      -- the exception is answered, or leaves the request
      refine wp_bind (R := fun r w1 => w1 = withMonitor w v ∧
        ∀ answer, r = .ok answer → ∃ response, answer = .error response) ?_ (fun answer w1 hw1 => ?_)
        fun _ _ hw1 => hw1.1 ▸ hturn
      · refine wp_tryCatch_error (bind_of_error hasked) ?_
        cases e with
        | systemError => exact wp_pure ⟨rfl, fun _ hanswer => ⟨_, (Except.ok.inj hanswer).symm⟩⟩
        | _ => exact wp_throw ⟨rfl, fun _ hanswer => by cases hanswer⟩
      · obtain ⟨rfl, hanswer⟩ := hw1
        obtain ⟨response, rfl⟩ := hanswer answer rfl
        exact wp_pure hturn

theorem withJob_notified {v : World ProcessMonitor} (m : Prog Job Unit) :
    wp (ProcessMonitor.withJob j m) (fun _ v' =>
      v'.st.terminalJobNotifications = v.st.terminalJobNotifications) v := by
  unfold ProcessMonitor.withJob wp
  beta_reduce
  cases v.st.jobs.find j with
  | none => rfl
  | some job => rfl

theorem inScheduler_monitor {α : Type} (f : JobScheduler → Except Exception (α × JobScheduler)) :
    wp (inScheduler f) (fun _ w' => w'.st.monitor = w.st.monitor) w := by
  unfold inScheduler wp
  beta_reduce
  cases f w.st.scheduler with
  | error e => rfl
  | ok a => rfl

theorem cancelJob_notifies (hsound : Sound n ⟨w, []⟩) (hheld : Held w.st.monitor) {request : Bytes}
    (hrequest : decodeCancelRequest request = .ok j) :
    wp (cancelJob K j) (fun _ w' => Unnotified w w' ∨ settlesJob K request w) w := by
  have hwf : w.st.monitor.Wf := hsound.wf
  unfold cancelJob
  refine wp_bind_ok (state_run w) ?_
  cases hjob : w.st.jobs.find j with
  | none => exact wp_pure (Or.inl rfl)
  | some job =>
    simp only
    cases hstate : job.state with
    | queued =>
      simp only
      refine wp_bind (inScheduler_monitor _) (fun removed w1 hw1 => ?_) fun _ w1 hw1 => Or.inl ?_
      · have hsame : Unnotified w w1 := congrArg ProcessMonitor.terminalJobNotifications hw1
        split_ifs
        · exact Or.inl hsame
        · refine wp_bind (R := fun _ w2 => Unnotified w w2) (wp_inMonitor ?_)
            (fun _ _ hw2 => wp_pure (Or.inl hw2)) fun _ _ hw2 => Or.inl hw2
          exact wp_mono (withJob_notified _) fun _ _ h => Eq.trans h hsame
      · exact congrArg ProcessMonitor.terminalJobNotifications hw1
    | running =>
      obtain ⟨p, hactive⟩ := (hwf.active_iff hjob).mpr (by rw [hstate]; rfl)
      refine wp_mono (cancelRunningJob_notifies hsound hheld hjob hstate hactive) fun _ _ h => ?_
      refine h.imp_right fun hsettles => ?_
      unfold settlesJob
      simp only [hrequest, hjob, hactive, hstate, hsettles, decide_true, Bool.and_self]
    | terminating | succeeded | failed | cancelled | timedOut | interrupted =>
      exact wp_pure (Or.inl rfl)

theorem handleRequest_notifies (hsound : Sound n ⟨w, []⟩) (hheld : Held w.st.monitor)
    (request : Bytes) :
    wp (handleRequest K request) (fun _ w' => Unnotified w w' ∨ settlesJob K request w) w := by
  unfold handleRequest
  split_ifs
  · exact wp_pure (Or.inl rfl)
  · refine wp_bind_ok (state_run w) ?_
    cases makeListResponse w.st.jobs with
    | ok response => exact Or.inl rfl
    | error e => exact Or.inl rfl
  · refine answeringInvalidArgument_spec (wp_bind (wp_ofExcept (Q := fun _ w' => w' = w) rfl)
      (fun id w1 hw1 => ?_) fun e w1 hw1 => ?_)
    · subst hw1
      refine wp_bind_ok (state_run _) ?_
      cases w1.st.jobs.find id with
      | none => exact wp_pure ⟨Or.inl rfl, fun _ _ => Or.inl rfl⟩
      | some job => exact wp_pure ⟨Or.inl rfl, fun _ _ => Or.inl rfl⟩
    · subst hw1
      exact ⟨Or.inl rfl, fun _ _ => Or.inl rfl⟩
  · refine answeringInvalidArgument_spec ?_
    suffices hcancel : wp _ (fun _ w' => Unnotified w w' ∨ settlesJob K request w) w from
      wp_mono hcancel fun _ _ h => ⟨h, fun _ _ => h⟩
    cases hrequest : decodeCancelRequest request with
    | error e => exact wp_of_run (bind_of_error (ofExcept_run _ _)) (Or.inl rfl)
    | ok id => exact wp_bind_ok (ofExcept_run _ _) (cancelJob_notifies hsound hheld hrequest)
  · exact wp_pure (Or.inl rfl)
  · refine answeringInvalidArgument_spec (wp_mono (submitJob_spec hsound request) fun r w' h => ?_)
    have hsame : Unnotified w w' := by
      cases h with
      | refused => rfl
      | added hdecode hid hstep hwalk => exact Eq.trans (notifications_of_starts hwalk) rfl
    exact ⟨Or.inl hsame, fun _ _ => Or.inl hsame⟩

/-! ## Reading and writing -/

/-- The notifications are those they were, and the history goes on. -/
def Passes (w w' : World Daemon) : Prop := Unnotified w w' ∧ w.log <+: w'.log

theorem Passes.trans {w'' : World Daemon} (h : Passes w w') (h' : Passes w' w'') : Passes w w'' :=
  ⟨Eq.trans h'.1 h.1, h.2.trans h'.2⟩

theorem passes_refl (w : World Daemon) : Passes w w := ⟨rfl, List.prefix_rfl⟩

theorem passes_emit (w : World Daemon) (e : Event) : Passes w (w.emit e) :=
  ⟨rfl, List.prefix_append _ _⟩

theorem connectionAt_eq (fd : Fd) (w : World Daemon) :
    connectionAt fd w = (.ok ((w.st.connections.find fd).getD {}), w) := rfl

theorem modifyConnection_passes (fd : Fd) (f : Connection → Connection) :
    wp (modifyConnection fd f) (fun _ w' => Passes w w') w := by
  unfold modifyConnection
  refine wp_update ⟨?_, List.prefix_rfl⟩
  unfold Unnotified
  rw [World.put_st]
  cases w.st.connections.find fd with
  | none => rfl
  | some c => rfl

theorem feedConnection_passes (fd : Fd) (data : Bytes) :
    wp (feedConnection fd data) (fun _ w' => Passes w w') w :=
  wp_bind_ok (connectionAt_eq fd w) (wp_bind (modifyConnection_passes fd _)
    (fun _ _ h => wp_ofExcept h) fun _ _ h => h)

theorem clearWriteBuffer_passes (fd : Fd) :
    wp (clearWriteBuffer fd) (fun _ w' => Passes w w') w :=
  wp_bind (modifyConnection_passes fd _) (fun _ _ h => wp_pure h) fun _ _ h => h

theorem writeLoop_passes (fd : Fd) (writes : Writes) :
    wp (writeLoop fd writes) (fun _ w' => Passes w w') w := by
  induction writes generalizing w with
  | wrote count rest ih =>
    refine wp_bind_ok (connectionAt_eq fd w) ?_
    split_ifs
    · exact clearWriteBuffer_passes fd
    · refine wp_bind_ok (emit_run w _) ?_
      refine wp_bind (modifyConnection_passes fd _) (fun _ w1 h1 => ?_) fun _ _ h1 =>
        (passes_emit w _).trans h1
      exact wp_mono ih fun _ _ h => ((passes_emit w _).trans h1).trans h
  | interrupted rest ih =>
    refine wp_bind_ok (connectionAt_eq fd w) ?_
    split_ifs
    · exact clearWriteBuffer_passes fd
    · exact ih
  | again =>
    refine wp_bind_ok (connectionAt_eq fd w) ?_
    split_ifs
    · exact clearWriteBuffer_passes fd
    · exact wp_bind_ok (emit_run w _) (wp_pure (passes_emit w _))
  | failed =>
    refine wp_bind_ok (connectionAt_eq fd w) ?_
    split_ifs
    · exact clearWriteBuffer_passes fd
    · exact wp_bind_ok (emit_run w _) (wp_pure (passes_emit w _))

theorem writeClient_passes (fd : Fd) (eventMask : EventMask) (alive : Bool) :
    wp (writeClient K fd eventMask alive) (fun _ w' => Passes w w') w := by
  unfold writeClient
  split_ifs
  · exact wp_bind_ok (history_run w) (writeLoop_passes fd _)
  · exact wp_pure (passes_refl w)

theorem keepClient_passes (fd : Fd) (eventMask : EventMask) (alive : Bool) :
    wp (keepClient K fd eventMask alive) (fun _ w' => Passes w w') w := by
  unfold keepClient
  split_ifs
  · exact wp_pure (passes_refl w)
  refine wp_bind_ok (connectionAt_eq fd w) ?_
  split_ifs
  · exact wp_pure (passes_refl w)
  refine wp_bind_ok (connectionAt_eq fd w) ?_
  obtain ⟨e, -, hrun⟩ | hrun := epollMod_run K w fd
    (clientEvents ((w.st.connections.find fd).getD {}))
  · exact wp_bind_ok hrun (wp_pure (passes_emit w _))
  · exact wp_bind_ok hrun (wp_pure (passes_emit w _))

/-! ## The requests of an event -/

/-- The requests that `frameLoop` hands to `handleRequest`, each with the world at that moment. -/
def frameRequests (K : Kernel) (fd : Fd) : ℕ → World Daemon → List (Bytes × World Daemon)
  | 0, _ => []
  | fuel + 1, w =>
    match w.st.connections.find fd with
    | none => []
    | some c =>
      match c.decoder.popFrame with
      | .error _ => []
      | .ok (request, decoder) =>
        (request, askedWorld w fd c request decoder) ::
          match handleRequest K request (askedWorld w fd c request decoder) with
          | (.error _, _) => []
          | (.ok response, w') =>
            match encodeFrame response with
            | .error _ => []
            | .ok frame =>
              frameRequests K fd fuel (answeredWorld w' fd { c with decoder } request response frame)

/-- Those of `readLoop`. -/
def readRequests (K : Kernel) (fd : Fd) : Reads → World Daemon → List (Bytes × World Daemon)
  | .data bytes rest, w =>
    match feedConnection fd bytes (w.emit (.received fd bytes)) with
    | (.error _, _) => []
    | (.ok _, w1) =>
      let fuel := ((w1.st.connections.find fd).getD {}).decoder.buffer.length + 1
      frameRequests K fd fuel w1 ++
        match frameLoop K fd fuel w1 with
        | (.error _, _) => []
        | (.ok _, w2) => readRequests K fd rest w2
  | .interrupted rest, w => readRequests K fd rest w
  | .eof, _ | .again, _ | .failed _, _ => []

/-- Those of an event of a client. -/
def clientRequests (K : Kernel) (fd : Fd) (eventMask : EventMask) (w : World Daemon) :
    List (Bytes × World Daemon) :=
  if eventMask.epollerr then []
  else if eventMask.epollin ∨ eventMask.epollrdhup then readRequests K fd (K.read w.log fd) w
  else []

/-- One of these requests comes to settle a job. -/
def SomeSettles (K : Kernel) (requests : List (Bytes × World Daemon)) : Prop :=
  ∃ asked ∈ requests, settlesJob K asked.1 asked.2

instance (K : Kernel) (requests : List (Bytes × World Daemon)) : Decidable (SomeSettles K requests) :=
  inferInstanceAs (Decidable (∃ asked ∈ requests, settlesJob K asked.1 asked.2))

/-- What a part of an event leaves: the notifications, unless one of its requests comes to settle a
job. -/
def Notifies (K : Kernel) (requests : List (Bytes × World Daemon)) (w w' : World Daemon) : Prop :=
  FreshFds w'.log → Unnotified w w' ∨ SomeSettles K requests

theorem Notifies.trans {before requests : List (Bytes × World Daemon)} {w1 : World Daemon}
    (hlog : w1.log <+: w'.log) (h : Notifies K before w w1) (h' : Notifies K requests w1 w') :
    Notifies K (before ++ requests) w w' := by
  intro hfresh
  obtain hsame | ⟨asked, hmem, hsettles⟩ := h (hfresh.before hlog)
  · obtain hsame' | ⟨asked, hmem, hsettles⟩ := h' hfresh
    · exact Or.inl (Eq.trans hsame' hsame)
    · exact Or.inr ⟨asked, List.mem_append_right before hmem, hsettles⟩
  · exact Or.inr ⟨asked, List.mem_append_left requests hmem, hsettles⟩

theorem between_of_served (h : Between K s w) (hserved : ServedAt K fd w w') : Between K s w' :=
  Walk.trans h (hserved.1.mono (Set.subset_univ _))

theorem frameLoop_notifies (fuel : ℕ) (h : Between K s w)
    (hfind : w.st.connections.find fd = some c) (hfuel : c.decoder.buffer.length < fuel) :
    wp (frameLoop K fd fuel) (fun _ w' => Notifies K (frameRequests K fd fuel w) w w') w := by
  induction fuel generalizing w c with
  | zero => omega
  | succ fuel ih =>
  refine wp_bind_ok (connectionAt_run hfind) ?_
  unfold frameRequests
  simp only [hfind]
  cases hmore : c.decoder.hasFrame with
  | error e => exact wp_of_run (bind_of_error (ofExcept_run _ _)) fun _ => Or.inl rfl
  | ok more =>
  refine wp_bind_ok (ofExcept_run _ _) ?_
  split_ifs with hempty
  · exact wp_pure fun _ => Or.inl rfl
  cases hpop : c.decoder.popFrame with
  | error e => exact wp_of_run (bind_of_error (ofExcept_run _ _)) fun _ => Or.inl rfl
  | ok popped =>
  obtain ⟨request, decoder⟩ := popped
  have hshorter := FrameDecoder.length_of_popFrame hpop
  refine wp_bind_ok (ofExcept_run _ _) ?_
  refine wp_bind_ok (modifyConnection_run hfind _) (wp_bind_ok (emit_run _ _) ?_)
  change wp _ _ (askedWorld w fd c request decoder)
  have hpopped : ServedAt K fd w (askedWorld w fd c request decoder) :=
    ServedAt.tend hfind (Tending.pop hpop)
  have hasked : Between K s (askedWorld w fd c request decoder) := between_of_served h hpopped
  rcases hrun : handleRequest K request (askedWorld w fd c request decoder) with ⟨r, w2⟩
  obtain ⟨hserved, hsame, ⟨events, hlog, -⟩, -⟩ := asked_spec h.sound hfind hpop hrun
  have hfind2 := find_of_asked hsame
  have hbegins : (askedWorld w fd c request decoder).log <+: w2.log := ⟨events, by
    rw [hlog]
    simp [askedWorld]⟩
  -- what the request itself leaves
  have hrequest : Notifies K [(request, askedWorld w fd c request decoder)] w w2 := fun hfresh => by
    have hheld := (hasked.during.separate (hfresh.before hbegins)).held
    obtain hsame | hsettles := wp_run (handleRequest_notifies hasked.sound hheld request) hrun
    · exact Or.inl hsame
    · exact Or.inr ⟨_, List.mem_singleton_self _, hsettles⟩
  cases r with
  | error e =>
    simp only [hrun]
    exact wp_of_run (bind_of_error hrun) hrequest
  | ok response =>
  refine wp_bind_ok hrun (wp_bind_ok (emit_run w2 _) ?_)
  cases hframe : encodeFrame response with
  | error e =>
    simp only [hrun, hframe]
    exact wp_of_run (bind_of_error (ofExcept_run _ _)) fun hfresh => hrequest hfresh.left
  | ok frame =>
  simp only [hrun, hframe]
  have hact : Act K fd w _ := Act.exchange hfind hpop hrun hframe
  have happend := modifyConnection_run (w := w2.emit (.answered fd request response)) hfind2
    fun connection => { connection with writeBuffer := connection.writeBuffer ++ frame }
  refine wp_bind_ok (ofExcept_run _ _) (wp_bind_ok happend ?_)
  change wp _ _ (answeredWorld w2 fd { c with decoder } request response frame)
  have hanswered := between_of_served h (hact.served h.sound)
  have hfind3 := Table.find_set_self w2.st.connections fd
    { { c with decoder } with writeBuffer := c.writeBuffer ++ frame }
  have hfuel3 : decoder.buffer.length < fuel := by omega
  have hrest : wp (frameLoop K fd fuel) (fun _ w' => Notifies K (frameRequests K fd fuel
      (answeredWorld w2 fd { c with decoder } request response frame))
      (answeredWorld w2 fd { c with decoder } request response frame) w' ∧
      (answeredWorld w2 fd { c with decoder } request response frame).log <+: w'.log)
      (answeredWorld w2 fd { c with decoder } request response frame) :=
    ⟨ih hanswered hfind3 hfuel3,
      prefix_of_walk ((frameLoop_spec fuel hanswered.sound hfind3 hfuel3).1.served hanswered.sound).1⟩
  refine wp_mono hrest fun _ w' hw' => ?_
  have hfirst : Notifies K [(request, askedWorld w fd c request decoder)] w
      (answeredWorld w2 fd { c with decoder } request response frame) :=
    fun hfresh => hrequest hfresh.left
  exact hfirst.trans hw'.2 hw'.1

theorem readLoop_notifies (reads : Reads) (h : Between K s w)
    (hfind : w.st.connections.find fd = some c) :
    wp (readLoop K fd reads) (fun _ w' => Notifies K (readRequests K fd reads w) w w') w := by
  induction reads generalizing w c with
  | data bytes rest ih =>
    refine wp_bind_ok (emit_run w _) ?_
    unfold readRequests
    have hfeeds := feedConnection_spec (K := K) bytes hfind
    rcases hfeed : feedConnection fd bytes (w.emit (.received fd bytes)) with ⟨r, w1⟩
    obtain ⟨hcarried1, c1, hfind1⟩ := wp_run hfeeds hfeed
    have hsame : Unnotified w w1 :=
      (wp_run (feedConnection_passes fd bytes) hfeed).1
    cases r with
    | error e => exact wp_of_run (bind_of_error hfeed) fun _ => Or.inl hsame
    | ok _ =>
    simp only
    have hbetween1 := between_of_served h (hcarried1.served h.sound)
    refine wp_bind_ok hfeed (wp_bind_ok (connectionAt_run hfind1) ?_)
    rw [hfind1, Option.getD_some]
    have hframes := frameLoop_notifies (K := K) (c1.decoder.buffer.length + 1) hbetween1 hfind1
      (Nat.lt_succ_self _)
    have hspec := frameLoop_spec (K := K) (c1.decoder.buffer.length + 1) hbetween1.sound hfind1
      (Nat.lt_succ_self _)
    rcases hframe : frameLoop K fd (c1.decoder.buffer.length + 1) w1 with ⟨r, w2⟩
    have hfirst : Notifies K (frameRequests K fd (c1.decoder.buffer.length + 1) w1) w w2 :=
      fun hfresh => (wp_run hframes hframe hfresh).imp_left fun h => Eq.trans h hsame
    cases r with
    | error e =>
      simp only [List.append_nil]
      exact wp_of_run (bind_of_error hframe) hfirst
    | ok _ =>
    simp only
    obtain ⟨hcarried2, hempty2⟩ := wp_run hspec hframe
    have hserved2 := hcarried2.served hbetween1.sound
    obtain ⟨c2, hfind2⟩ := hserved2.find hfind1
    have hbetween2 := between_of_served hbetween1 hserved2
    have hrest : wp (readLoop K fd rest) (fun _ w' => Notifies K (readRequests K fd rest w2) w2 w' ∧
        w2.log <+: w'.log) w2 :=
      ⟨ih hbetween2 hfind2,
        prefix_of_walk ((readLoop_spec rest hbetween2.sound hfind2).1.served hbetween2.sound).1⟩
    exact wp_bind_ok hframe (wp_mono hrest fun _ w' hw' => hfirst.trans hw'.2 hw'.1)
  | interrupted rest ih => exact ih h hfind
  | eof =>
    refine wp_bind_ok (emit_run w _) (wp_bind_ok (modifyConnection_run (by exact hfind) _) ?_)
    exact wp_pure fun _ => Or.inl rfl
  | again => exact wp_bind_ok (emit_run w _) (wp_pure fun _ => Or.inl rfl)
  | failed e => exact wp_bind_ok (emit_run w _) (wp_pure fun _ => Or.inl rfl)

/-! ## One event -/

theorem Notifies.passes {requests : List (Bytes × World Daemon)} {w1 : World Daemon}
    (h : Notifies K requests w w1) (h' : Passes w1 w') : Notifies K requests w w' := fun hfresh =>
  (h (hfresh.before h'.2)).imp_left fun hsame => Eq.trans h'.1 hsame

theorem serveClient_notifies (eventMask : EventMask) (h : Between K s w)
    (hfind : w.st.connections.find fd = some c) :
    wp (serveClient K fd eventMask)
      (fun _ w' => Notifies K (clientRequests K fd eventMask w) w w') w := by
  unfold serveClient clientRequests
  split_ifs with herr hin
  · exact wp_pure fun _ => Or.inl rfl
  all_goals
    refine wp_bind (R := fun _ w1 => Notifies K _ w w1) ?_ (fun alive w1 h1 => ?_) fun _ _ h1 => h1
    swap
    · refine wp_bind (writeClient_passes fd eventMask alive) (fun alive w2 h2 => ?_) fun _ _ h2 =>
        h1.passes h2
      exact wp_mono (keepClient_passes fd eventMask alive) fun _ _ h3 => h1.passes (h2.trans h3)
  · unfold readClient
    rw [if_pos hin]
    exact wp_bind_ok (history_run w) (readLoop_notifies _ h hfind)
  · unfold readClient
    rw [if_neg hin]
    exact wp_pure fun _ => Or.inl rfl

/-- Steps that take nothing off the queue and give no slot back. -/
def Label.parked : Label → Bool
  | .submit _ | .dequeue _ | .misfire _ | .run _ | .release _ => false
  | _ => true

theorem scheduler_of_parked {A : Set Label} (hA : A ⊆ {l | l.parked}) (hwalk : Walk (Step K) A m m') :
    m'.world.st.scheduler = m.world.st.scheduler := by
  apply hwalk.invariant (P := fun m' => m'.world.st.scheduler = m.world.st.scheduler) _ rfl
  intro l hl m₁ m₂ hstep heq
  have hparked : l.parked = true := hA hl
  rw [← heq]
  cases hstep with
  | submit | dequeue | misfire | run | release => cases hparked
  | _ => rfl

theorem noIdle_of_parked {A : Set Label} (hA : A ⊆ {l | l.parked}) (hwalk : Walk (Step K) A m m')
    (h : NoIdle m.world.st) : NoIdle m'.world.st := by
  unfold NoIdle
  rw [scheduler_of_parked hA hwalk]
  exact h

theorem admits_le_parked : {l : Label | l.admits} ⊆ {l | l.parked} := by
  intro l hl
  cases l <;> first | rfl | cases hl

theorem minds_le_parked : {l : Label | l.minds} ⊆ {l | l.parked} := by
  intro l hl
  cases l <;> first | rfl | cases hl

theorem times_le_parked : {l : Label | l.times} ⊆ {l | l.parked} := by
  intro l hl
  cases l <;> first | rfl | cases hl

/-- An event of a client in which a request comes to settle a job. -/
def SettlesHere (K : Kernel) (w : World Daemon) (fd : Fd) (eventMask : EventMask) : Prop :=
  w.st.route fd = .client ∧ SomeSettles K (clientRequests K fd eventMask (dispatching w fd))

instance (K : Kernel) (w : World Daemon) (fd : Fd) (eventMask : EventMask) :
    Decidable (SettlesHere K w fd eventMask) := by
  unfold SettlesHere
  infer_instance

/-- The branches that deal with notifications. -/
def Route.drains : Route → Bool
  | .timer | .monitor => true
  | _ => false

theorem dispatch_client_notifies (h : Between K s w) (hroute : w.st.route fd = .client)
    (eventMask : EventMask) (hfresh : FreshFds (dispatch K fd eventMask w).2.log) :
    Unnotified w (dispatch K fd eventMask w).2 ∨ SettlesHere K w fd eventMask := by
  obtain ⟨c, hfind⟩ := find_of_route hroute
  have hbetween := between_of_served h (servedAt_dispatching (K := K) w fd)
  rcases hserve : serveClient K fd eventMask (dispatching w fd) with ⟨r, w1⟩
  have hnotifies := wp_run (serveClient_notifies (K := K) eventMask hbetween hfind) hserve
  rcases hrun : dispatch K fd eventMask w with ⟨r', w'⟩
  rw [hrun] at hfresh
  obtain ⟨-, ⟨-, rfl⟩ | ⟨-, rfl⟩⟩ := wp_run (dispatch_client_run hroute eventMask hserve) hrun
  · exact (hnotifies hfresh).imp_right fun hsettles => ⟨hroute, hsettles⟩
  · exact (hnotifies hfresh.left).imp_right fun hsettles => ⟨hroute, hsettles⟩

/-- What one event leaves of the notifications, if its handler returns. -/
theorem dispatch_drains (h : Between K s w) (hidle : NoIdle w.st) (fd : Fd) (eventMask : EventMask)
    (hok : (dispatch K fd eventMask w).1 = .ok ())
    (hfresh : FreshFds (dispatch K fd eventMask w).2.log) :
    NoIdle (dispatch K fd eventMask w).2.st ∧
      if (w.st.route fd).drains then
        (dispatch K fd eventMask w).2.st.monitor.terminalJobNotifications = []
      else Unnotified w (dispatch K fd eventMask w).2 ∨ SettlesHere K w fd eventMask := by
  have hsound := h.sound
  cases hroute : w.st.route fd with
  | listener =>
    have hwalk := dispatch_listener (K := K) hsound hroute eventMask
    refine ⟨noIdle_of_parked admits_le_parked hwalk hidle, Or.inl ?_⟩
    apply hwalk.invariant (P := fun m => Unnotified w m.world) _ (passes_refl w).1
    intro l hl m m' hstep heq
    cases hstep with
    | attend | take | accept | refuse => exact heq
    | _ => cases hl
  | stranger =>
    rw [dispatch_stranger hroute eventMask]
    exact ⟨hidle, Or.inl rfl⟩
  | client =>
    obtain ⟨-, w1, hserved, hend⟩ := dispatch_client (K := K) hsound hroute eventMask
    refine ⟨?_, dispatch_client_notifies h hroute eventMask hfresh⟩
    rcases hend with heq | hhangUp
    · rw [heq]
      exact hserved.2 hidle
    · exact noIdle_of_parked (A := {.hangUp fd}) (by rintro l rfl; rfl)
        (Walk.single rfl hhangUp) (hserved.2 hidle)
  | monitor =>
    obtain ⟨w1, hwalk, -, hdrained⟩ := dispatch_monitor (K := K) hsound hroute eventMask
    obtain ⟨hnil, hkeeps⟩ := hdrained hok
    exact ⟨hkeeps (noIdle_of_parked minds_le_parked hwalk hidle), hnil⟩
  | timer =>
    obtain ⟨w1, due, hwalk, hend⟩ := dispatch_timer (K := K) hsound hroute eventMask
    rcases hend with ⟨⟨e, herror⟩, -⟩ | ⟨rfl, -, hdrained⟩
    · rw [hok] at herror
      cases herror
    · obtain ⟨hnil, hkeeps⟩ := hdrained hok
      exact ⟨hkeeps (noIdle_of_parked times_le_parked hwalk hidle), hnil⟩

/-! ## A batch -/

/-- An event of this batch goes, at its turn, to a branch that deals with notifications. -/
def DrainedLater (K : Kernel) : List (Fd × EventMask) → World Daemon → Prop
  | [], _ => False
  | (fd, eventMask) :: rest, w =>
    (w.st.route fd).drains ∨ DrainedLater K rest (dispatch K fd eventMask w).2

/-- Each event of a client that comes to settle a job is followed by one that deals with notifications. -/
def Followed (K : Kernel) : List (Fd × EventMask) → World Daemon → Prop
  | [], _ => True
  | (fd, eventMask) :: rest, w =>
    (SettlesHere K w fd eventMask → DrainedLater K rest (dispatch K fd eventMask w).2) ∧
      Followed K rest (dispatch K fd eventMask w).2

instance decidableDrainedLater (K : Kernel) (events : List (Fd × EventMask)) (w : World Daemon) :
    Decidable (DrainedLater K events w) :=
  match events with
  | [] => inferInstanceAs (Decidable False)
  | (fd, eventMask) :: rest =>
    have : Decidable (DrainedLater K rest (dispatch K fd eventMask w).2) :=
      decidableDrainedLater K rest _
    inferInstanceAs (Decidable (_ ∨ _))

instance decidableFollowed (K : Kernel) (events : List (Fd × EventMask)) (w : World Daemon) :
    Decidable (Followed K events w) :=
  match events with
  | [] => inferInstanceAs (Decidable True)
  | (fd, eventMask) :: rest =>
    have : Decidable (Followed K rest (dispatch K fd eventMask w).2) := decidableFollowed K rest _
    inferInstanceAs (Decidable ((_ → _) ∧ _))

theorem dispatchAll_cons_ok {fd : Fd} {eventMask : EventMask} {rest : List (Fd × EventMask)}
    (hok : (dispatchAll K ((fd, eventMask) :: rest) w).1 = .ok ()) :
    (dispatch K fd eventMask w).1 = .ok () ∧
      dispatchAll K ((fd, eventMask) :: rest) w = dispatchAll K rest (dispatch K fd eventMask w).2 := by
  have hcons : dispatchAll K ((fd, eventMask) :: rest) =
      (do dispatch K fd eventMask; dispatchAll K rest) := rfl
  rw [hcons] at hok ⊢
  rcases hrun : dispatch K fd eventMask w with ⟨r, w1⟩
  cases r with
  | ok _ =>
    rw [bind_of_ok hrun]
    exact ⟨rfl, rfl⟩
  | error e =>
    rw [bind_of_error hrun] at hok
    cases hok

/-- What comes of one event whose handler returns. -/
theorem between_dispatch (h : Between K s w) (fd : Fd) (eventMask : EventMask)
    (hok : (dispatch K fd eventMask w).1 = .ok ()) : Between K s (dispatch K fd eventMask w).2 := by
  obtain ⟨due, hwalk, hdone⟩ := dispatch_spec (K := K) h.sound fd eventMask
  obtain rfl := hdone hok
  exact Walk.trans h hwalk

theorem dispatchAll_drains (events : List (Fd × EventMask)) (h : Between K s w)
    (hidle : NoIdle w.st) (hfollowed : Followed K events w)
    (hpending : w.st.monitor.terminalJobNotifications = [] ∨ DrainedLater K events w)
    (hok : (dispatchAll K events w).1 = .ok ()) (hfresh : FreshFds (dispatchAll K events w).2.log) :
    NoIdle (dispatchAll K events w).2.st ∧
      (dispatchAll K events w).2.st.monitor.terminalJobNotifications = [] := by
  induction events generalizing w with
  | nil => exact ⟨hidle, hpending.resolve_right id⟩
  | cons event rest ih =>
    obtain ⟨fd, eventMask⟩ := event
    obtain ⟨hreturned, hrest⟩ := dispatchAll_cons_ok hok
    rw [hrest] at hok hfresh ⊢
    have h' := between_dispatch h fd eventMask hreturned
    obtain ⟨due, hwalk, -⟩ := dispatchAll_spec (K := K) rest h'.sound
    obtain ⟨hidle', hnotified⟩ :=
      dispatch_drains h hidle fd eventMask hreturned (hfresh.before (prefix_of_walk hwalk))
    apply ih h' hidle' hfollowed.2 _ hok hfresh
    by_cases hdrains : (w.st.route fd).drains
    · rw [if_pos hdrains] at hnotified
      exact Or.inl hnotified
    · rw [if_neg hdrains] at hnotified
      rcases hpending with hnil | hlater
      · rcases hnotified with heq | hsettles
        · exact Or.inl (Eq.trans heq hnil)
        · exact Or.inr (hfollowed.1 hsettles)
      · exact Or.inr (hlater.resolve_left hdrains)

/-! ## Between the rounds -/

/-- The job table, the scheduler and the notifications agree, and no slot is idle. -/
structure InStep (n : ℕ) (d : Daemon) : Prop where
  notified : d.monitor.terminalJobNotifications = []
  active : ∀ j, j ∈ d.scheduler.activeJobIds ↔
    d.stateOf j = some .running ∨ d.stateOf j = some .terminating
  waiting : ∀ j, j ∈ d.scheduler.waitingJobs ↔ d.stateOf j = some .queued
  full : (∃ j, d.stateOf j = some .queued) → d.scheduler.activeJobIds.card = n

theorem inStep_of_noIdle {d : Daemon} (hslots : Slots n d) (hidle : NoIdle d)
    (hnotified : d.monitor.terminalJobNotifications = []) : InStep n d := by
  refine ⟨hnotified, ?_, hslots.waiting, ?_⟩
  · intro j
    rw [hslots.slots j, hnotified]
    constructor
    · rintro (⟨s, hs, hactive⟩ | hmem)
      · rw [hs]
        cases s <;> first | exact Or.inl rfl | exact Or.inr rfl | cases hactive
      · cases hmem
    · rintro (hs | hs)
      · exact Or.inl ⟨_, hs, rfl⟩
      · exact Or.inl ⟨_, hs, rfl⟩
  · rintro ⟨j, hj⟩
    have hwaiting := (hslots.waiting j).mpr hj
    rcases hidle with hnil | hfull
    · rw [hnil] at hwaiting
      cases hwaiting
    · rw [hslots.maxRunning] at hfull
      exact le_antisymm hslots.card hfull

end Daemon

/-! ## Runs -/

section Runs

open Daemon

variable {K : Kernel} {s : Setup} {w : World Daemon}

/-- In this round each event of a client that comes to settle a job is followed, in its batch, by an
event of the timer or the monitor. -/
def FollowedRound (K : Kernel) (w : World Daemon) : Prop :=
  match K.epollWait w.log with
  | .ready events => Followed K events (w.emit .woke)
  | _ => True

instance (K : Kernel) (w : World Daemon) : Decidable (FollowedRound K w) := by
  unfold FollowedRound
  split <;> infer_instance

/-- The daemon at a call of `epoll_wait`, after such rounds. -/
inductive FollowedRun (K : Kernel) (s : Setup) : World Daemon → Prop where
  | start : FollowedRun K s s.initial
  | step {w w' : World Daemon} (h : FollowedRun K s w) (hfollowed : FollowedRound K w)
      (hrun : Daemon.iterate K w = (.ok (), w')) : FollowedRun K s w'

theorem FollowedRun.reachable (h : FollowedRun K s w) : Reachable K s w := by
  induction h with
  | start => exact .start
  | step _ _ hrun ih => exact ih.step hrun

/-- A round takes no slot idle and leaves no notification. -/
theorem iterate_drains {w' : World Daemon} (h : Between K s w) (hidle : NoIdle w.st)
    (hnotified : w.st.monitor.terminalJobNotifications = []) (hfollowed : FollowedRound K w)
    (hrun : Daemon.iterate K w = (.ok (), w')) (hfresh : FreshFds w'.log) :
    NoIdle w'.st ∧ w'.st.monitor.terminalJobNotifications = [] := by
  have hwait : epollWait K w = (.ok (K.epollWait w.log), w.emit .woke) := rfl
  unfold iterate at hrun
  rw [bind_of_ok hwait] at hrun
  unfold FollowedRound at hfollowed
  cases hevents : K.epollWait w.log with
  | interrupted =>
    rw [hevents] at hrun
    obtain ⟨-, rfl⟩ := Prod.mk.inj hrun
    exact ⟨hidle, hnotified⟩
  | failed =>
    rw [hevents] at hrun
    cases hrun
  | ready events =>
    rw [hevents] at hrun hfollowed
    have hrun : dispatchAll K events (w.emit .woke) = (.ok (), w') := hrun
    have hwoke : Between K s (w.emit .woke) := Walk.trans h (walk_woke w)
    have hdrained := dispatchAll_drains (K := K) events hwoke hidle hfollowed (Or.inl hnotified)
      (congrArg Prod.fst hrun)
    rw [hrun] at hdrained
    exact hdrained hfresh

theorem followedRun_after {m : ℕ} (hok : ∀ i < m, (Daemon.iterate K (after K s i)).1 = .ok ())
    (hfollowed : ∀ i < m, FollowedRound K (after K s i)) : FollowedRun K s (after K s m) := by
  induction m with
  | zero => exact .start
  | succ m ih =>
    exact .step (ih (fun i hi => hok i (Nat.lt_succ_of_lt hi))
      fun i hi => hfollowed i (Nat.lt_succ_of_lt hi)) (hfollowed m (Nat.lt_succ_self m))
        (Prod.ext (hok m (Nat.lt_succ_self m)) rfl)

/-- A client submits two jobs and cancels the first, whose child has just exited. In the batch of the
CANCEL, the client's event is followed by these. -/
def exitedKernel (events : List (Fd × EventMask)) : Kernel := { Kernel.quiet with
    waitpid := fun _ _ => .done (.exited (.exited 0))
    read := fun _ _ => .eof }.withClient
  [[(3, { epollin := true })], [(7, { epollin := true })], [(7, { epollin := true })],
    (7, { epollin := true }) :: events]
  [[], submitPayload 0 [text "/a"], submitPayload 0 [text "/b"], appendJobId kCancelCommand 1]

/-- The timer's event follows: its branch gives the slot of the first job to the second. -/
def drainedScript : Kernel := exitedKernel [(6, { epollin := true })]

/-- No event follows. -/
def strandedScript : Kernel := exitedKernel []

end Runs

end Runnerd
