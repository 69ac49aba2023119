import Runnerd.ClientFailures
import Runnerd.Descriptors

/-!
# Stale events

The main loop goes by the number of a descriptor alone. An event of a batch reaches an owner that held
the descriptor when `epoll_wait` returned, or nobody, unless a call has opened a descriptor of this number
since. Where one has, the event reaches the new owner: `staleEvent_closesClient` is a batch in which
a client loses its connection to the hang-up of another job's pipe.
-/

namespace Runnerd

open Effect Effect.Prog Steps

/-- What a launch holds in the end it has opened. -/
theorem opened_of_run {h h' : Holdings} {events : List Event} {fd : Fd}
    (hrun : h.run events = some h') (hfd : fd ∈ h'.fds) : fd ∈ h.fds ∨ .opened fd ∈ events := by
  induction events generalizing h with
  | nil =>
    obtain rfl := Option.some.inj hrun
    exact Or.inl hfd
  | cons e events ih =>
    obtain ⟨h₁, hstep, hrest⟩ := Holdings.run_cons hrun
    rcases ih hrest with hfd | hopened
    · unfold Holdings.step at hstep
      cases e with
      | opened fd' =>
        obtain rfl := Option.some.inj hstep
        rcases List.mem_cons.mp hfd with rfl | hfd
        · exact Or.inr List.mem_cons_self
        · exact Or.inl hfd
      | closed fd' =>
        simp only at hstep
        split_ifs at hstep
        obtain rfl := Option.some.inj hstep
        exact Or.inl (List.mem_of_mem_erase hfd)
      | killSent | reaped | waitFailed =>
        simp only at hstep
        split_ifs at hstep
        obtain rfl := Option.some.inj hstep
        exact Or.inl hfd
      | called | registered | unregistered | forked =>
        obtain rfl := Option.some.inj hstep
        exact Or.inl hfd
      | _ => cases hstep
    · exact Or.inr (List.mem_cons_of_mem _ hopened)

theorem ProcessMonitor.Launching.opened {events : List Event} {fds : List Fd} {children : List Pid}
    {fd : Fd} (h : ProcessMonitor.Launching events fds children) (hfd : fd ∈ fds) :
    .opened fd ∈ events := by
  obtain ⟨std, held, -, hrun, hfds, -⟩ := h
  have hmem : fd ∈ held.fds := hfds.mem_iff.mpr (List.mem_append_left std hfd)
  exact (opened_of_run hrun hmem).resolve_left List.not_mem_nil

namespace Daemon

/-! ## Owners -/

/-- Whom an event of a descriptor may be for. -/
inductive Owner where
  | listener
  | timer
  | signals
  | pipe (jobId : JobId) (kind : ProcessFdKind)
  | client
  deriving DecidableEq, Repr

def Owns (d : Daemon) (fd : Fd) : Owner → Prop
  | .listener => fd = d.listenFd
  | .timer => fd = d.timerFd
  | .signals => fd = d.monitor.sigchldFd
  | .pipe jobId kind => d.monitor.trackedFds.find fd = some ⟨jobId, kind⟩
  | .client => (d.connections.find fd).isSome

/-- The owner whose event it is, in the order in which the main loop asks. -/
def owner (d : Daemon) (fd : Fd) : Option Owner :=
  if fd = d.listenFd then some .listener
  else if fd = d.timerFd then some .timer
  else if fd = d.monitor.sigchldFd then some .signals
  else
    match d.monitor.trackedFds.find fd with
    | some tracked => some (.pipe tracked.jobId tracked.kind)
    | none => if (d.connections.find fd).isSome then some .client else none

/-- What the main loop does for the owner. -/
def Owner.serve (K : Kernel) (fd : Fd) (eventMask : EventMask) : Owner → Prog Daemon Unit
  | .listener => acceptClients K
  | .timer => do
    handleDeadlineEvent K eventMask
    processTerminalJobNotifications K
  | .signals => do
    inMonitor (ProcessMonitor.handleSigchld K)
    processTerminalJobNotifications K
  | .pipe jobId _ => do
    if eventMask.epollin ∨ eventMask.epollhup ∨ eventMask.epollerr then
      inMonitor do
        ProcessMonitor.drainProcessFd K fd
        ProcessMonitor.tryFinalizeJob K jobId
    processTerminalJobNotifications K
  | .client => do
    let alive ← tryCatch (serveClient K fd eventMask) fun _ => return false
    if alive then pure () else closeClient fd

variable {K : Kernel} {s : Setup} {n : ℕ} {w w' : World Daemon} {m m' : Moment} {fd : Fd}

theorem owns_of_owner {d : Daemon} {o : Owner} (h : d.owner fd = some o) : d.Owns fd o := by
  unfold owner at h
  by_cases h1 : fd = d.listenFd
  · rw [if_pos h1] at h
    obtain rfl := Option.some.inj h
    exact h1
  by_cases h2 : fd = d.timerFd
  · rw [if_neg h1, if_pos h2] at h
    obtain rfl := Option.some.inj h
    exact h2
  by_cases h3 : fd = d.monitor.sigchldFd
  · rw [if_neg h1, if_neg h2, if_pos h3] at h
    obtain rfl := Option.some.inj h
    exact h3
  rw [if_neg h1, if_neg h2, if_neg h3] at h
  cases htracked : d.monitor.trackedFds.find fd with
  | some tracked =>
    rw [htracked] at h
    obtain rfl := Option.some.inj h
    exact htracked
  | none =>
    rw [htracked] at h
    simp only at h
    split_ifs at h with h4
    obtain rfl := Option.some.inj h
    exact h4

theorem inMonitor_congr {m m' : Prog ProcessMonitor Unit}
    (h : m (monitorWorld w) = m' (monitorWorld w)) : inMonitor m w = inMonitor m' w := by
  show within _ _ m w = within _ _ m' w
  unfold within
  rw [show m ⟨w.st.monitor, w.log⟩ = m' ⟨w.st.monitor, w.log⟩ from h]

theorem bind_congr_left {m m' f : Prog Daemon Unit} (h : m w = m' w) :
    (do m; f : Prog Daemon Unit) w = (do m'; f : Prog Daemon Unit) w := by
  rcases hrun : m' w with ⟨_ | _, v⟩
  · rw [bind_of_error (h.trans hrun), bind_of_error hrun]
  · rw [bind_of_ok (h.trans hrun), bind_of_ok hrun]

/-- An event of a descriptor reaches its owner. -/
theorem dispatch_of_owner {o : Owner} (h : w.st.owner fd = some o) (eventMask : EventMask) :
    dispatch K fd eventMask w = o.serve K fd eventMask (dispatching w fd) := by
  unfold dispatch
  rw [bind_of_ok (emit_run w _), bind_of_ok (state_run _)]
  unfold owner at h
  by_cases h1 : fd = w.st.listenFd
  · rw [if_pos h1] at h
    obtain rfl := Option.some.inj h
    rw [if_pos (by exact h1)]
    rfl
  by_cases h2 : fd = w.st.timerFd
  · rw [if_neg h1, if_pos h2] at h
    obtain rfl := Option.some.inj h
    rw [if_neg (by exact h1), if_pos (by exact h2)]
    rfl
  rw [if_neg h1, if_neg h2] at h
  rw [if_neg (by exact h1), if_neg (by exact h2)]
  by_cases h3 : fd = w.st.monitor.sigchldFd
  · rw [if_pos h3] at h
    obtain rfl := Option.some.inj h
    have howns : w.st.monitor.ownsFileDescriptor fd := by simp [ProcessMonitor.ownsFileDescriptor, h3]
    rw [if_pos (by exact howns)]
    refine bind_congr_left (inMonitor_congr ?_)
    unfold ProcessMonitor.handleFileDescriptorEvent
    rw [bind_of_ok (state_run _), if_pos (by exact h3)]
  rw [if_neg h3] at h
  cases htracked : w.st.monitor.trackedFds.find fd with
  | some tracked =>
    rw [htracked] at h
    obtain rfl := Option.some.inj h
    have howns : w.st.monitor.ownsFileDescriptor fd := by
      simp [ProcessMonitor.ownsFileDescriptor, htracked]
    rw [if_pos (by exact howns)]
    have hhandle : ∀ v : World ProcessMonitor, v.st = w.st.monitor →
        ProcessMonitor.handleFileDescriptorEvent K fd eventMask v =
          if eventMask.epollin ∨ eventMask.epollhup ∨ eventMask.epollerr then
            (do ProcessMonitor.drainProcessFd K fd
                ProcessMonitor.tryFinalizeJob K tracked.jobId : Prog ProcessMonitor Unit) v
          else (.ok (), v) := by
      intro v hv
      unfold ProcessMonitor.handleFileDescriptorEvent
      rw [bind_of_ok (state_run _), hv, if_neg h3, htracked]
      split_ifs <;> rfl
    unfold Owner.serve
    simp only
    split_ifs with hmask
    · refine bind_congr_left (inMonitor_congr ?_)
      rw [hhandle _ rfl, if_pos hmask]
    · have hnothing := hhandle (monitorWorld (dispatching w fd)) rfl
      rw [if_neg hmask] at hnothing
      exact bind_of_ok (inMonitor_run hnothing)
  | none =>
    rw [htracked] at h
    simp only at h
    split_ifs at h with h4
    obtain rfl := Option.some.inj h
    have hforeign : ¬ w.st.monitor.ownsFileDescriptor fd := by
      simp [ProcessMonitor.ownsFileDescriptor, h3, htracked]
    rw [if_neg (by exact hforeign)]
    obtain ⟨c, hc⟩ := Option.isSome_iff_exists.mp h4
    rw [show (dispatching w fd).st.connections.find fd = some c from hc]
    rfl

/-- An event of a descriptor without an owner is dropped. -/
theorem route_of_owner_none {d : Daemon} (h : d.owner fd = none) : d.route fd = .stranger := by
  unfold owner at h
  by_cases h1 : fd = d.listenFd
  · simp [h1] at h
  by_cases h2 : fd = d.timerFd
  · rw [if_neg h1, if_pos h2] at h
    cases h
  by_cases h3 : fd = d.monitor.sigchldFd
  · rw [if_neg h1, if_neg h2, if_pos h3] at h
    cases h
  rw [if_neg h1, if_neg h2, if_neg h3] at h
  cases htracked : d.monitor.trackedFds.find fd with
  | some tracked =>
    rw [htracked] at h
    cases h
  | none =>
    rw [htracked] at h
    simp only at h
    split_ifs at h with h4
    unfold route ProcessMonitor.ownsFileDescriptor
    rw [if_neg h1, if_neg h2, htracked, if_neg (by simpa using h3), if_neg h4]

/-- Every owner of a descriptor owned it before, unless it has been opened. -/
def Inherits (fd : Fd) (w w' : World Daemon) : Prop :=
  ∃ events, w'.log = w.log ++ events ∧
    (.opened fd ∉ events → ∀ o, w'.st.Owns fd o → w.st.Owns fd o)

theorem Inherits.refl (fd : Fd) (w : World Daemon) : Inherits fd w w :=
  ⟨[], (List.append_nil _).symm, fun _ _ => id⟩

theorem Inherits.trans {w'' : World Daemon} (h : Inherits fd w w') (h' : Inherits fd w' w'') :
    Inherits fd w w'' := by
  obtain ⟨events, hlog, howns⟩ := h
  obtain ⟨more, hmore, howns'⟩ := h'
  refine ⟨events ++ more, by rw [hmore, hlog, List.append_assoc], fun hnot o ho => ?_⟩
  rw [List.mem_append, not_or] at hnot
  exact howns hnot.1 o (howns' hnot.2 o ho)

/-- The monitor takes a descriptor only where it has been opened. -/
theorem tracked_of_monitorStep {v v' : World ProcessMonitor} {l : ProcessMonitor.Label}
    (hstep : ProcessMonitor.Step K l v v') : v'.st.sigchldFd = v.st.sigchldFd ∧
      ∃ events, v'.log = v.log ++ events ∧ ∀ fd tracked, .opened fd ∉ events →
        v'.st.trackedFds.find fd = some tracked → v.st.trackedFds.find fd = some tracked := by
  cases hstep with
  | idle | receive | exited | stray | lost | settle | misuse | misstart | terminate | kill | submit
    | dequeue | launchFailed => exact ⟨rfl, _, rfl, fun _ _ _ h => h⟩
  | garble | collect => exact ⟨rfl, [], (List.append_nil _).symm, fun _ _ _ h => h⟩
  | @finish w fd' j kind p htracked hactive =>
    refine ⟨rfl, _, rfl, fun fd tracked _ h => ?_⟩
    rcases eq_or_ne fd fd' with rfl | hne
    · exact absurd ((Table.find_del_self _ _).symm.trans h) (by simp)
    · exact (Table.find_del_of_ne _ hne).symm.trans h
  | abandoned hjob hqueued hlaunch hrest htracked =>
    refine ⟨rfl, _, rfl, fun fd tracked _ h => ?_⟩
    have h := (htracked fd).symm.trans h
    split_ifs at h
    exact h
  | @started w j job events launched hjob hqueued hlaunch =>
    refine ⟨rfl, _, rfl, fun fd tracked hnot h => ?_⟩
    have hother : ∀ fd' ∈ [launched.stdoutFd, launched.stderrFd, launched.startupErrorFd],
        fd ≠ fd' := by
      intro fd' hfd' heq
      have hopened := hlaunch.opened hfd'
      rw [← heq] at hopened
      exact hnot (List.mem_cons_of_mem _ (List.mem_append_left _ hopened))
    have h3 := Table.find_set_of_ne ((v.st.trackedFds.set launched.stdoutFd ⟨j, .stdout⟩).set
      launched.stderrFd ⟨j, .stderr⟩) (⟨j, .startupError⟩ : TrackedFd)
      (hother launched.startupErrorFd (by simp))
    have h2 := Table.find_set_of_ne (v.st.trackedFds.set launched.stdoutFd ⟨j, .stdout⟩)
      (⟨j, .stderr⟩ : TrackedFd) (hother launched.stderrFd (by simp))
    have h1 := Table.find_set_of_ne v.st.trackedFds (⟨j, .stdout⟩ : TrackedFd)
      (hother launched.stdoutFd (by simp))
    exact (h1.symm.trans (h2.symm.trans h3.symm)).trans h

/-- A step of the monitor gives no descriptor an owner but those it opens. -/
theorem inherits_of_monitorStep {l : ProcessMonitor.Label} {v : World ProcessMonitor}
    (hstep : ProcessMonitor.Step K l (monitorWorld w) v) {d : Daemon} {more : List Event}
    (hlisten : d.listenFd = w.st.listenFd) (htimer : d.timerFd = w.st.timerFd)
    (hconnections : d.connections = w.st.connections)
    (hsignals : d.monitor.sigchldFd = v.st.sigchldFd)
    (htracked : d.monitor.trackedFds = v.st.trackedFds) :
    Inherits fd w ⟨d, v.log ++ more⟩ := by
  obtain ⟨hsigchld, events, hlog, hkeep⟩ := tracked_of_monitorStep hstep
  refine ⟨events ++ more, ?_, fun hnot o ho => ?_⟩
  · rw [← List.append_assoc]
    exact congrArg (· ++ more) hlog
  have hnot : .opened fd ∉ events := fun hmem => hnot (List.mem_append_left _ hmem)
  cases o with
  | listener => exact ho.trans hlisten
  | timer => exact ho.trans htimer
  | signals => exact ho.trans (hsignals.trans hsigchld)
  | pipe jobId kind =>
    apply hkeep fd _ hnot
    rw [← htracked]
    exact ho
  | client =>
    show (w.st.connections.find fd).isSome
    rw [← hconnections]
    exact ho

/-- Where the owners of no descriptor change. -/
theorem Inherits.same {d : Daemon} {events : List Event} (hlisten : d.listenFd = w.st.listenFd)
    (htimer : d.timerFd = w.st.timerFd) (hsignals : d.monitor.sigchldFd = w.st.monitor.sigchldFd)
    (htracked : d.monitor.trackedFds = w.st.monitor.trackedFds)
    (hconnections : .opened fd ∉ events → (d.connections.find fd).isSome →
      (w.st.connections.find fd).isSome) : Inherits fd w ⟨d, w.log ++ events⟩ := by
  refine ⟨events, rfl, fun hnot o ho => ?_⟩
  cases o with
  | listener => exact ho.trans hlisten
  | timer => exact ho.trans htimer
  | signals => exact ho.trans hsignals
  | pipe jobId kind =>
    show w.st.monitor.trackedFds.find fd = _
    rw [← htracked]
    exact ho
  | client => exact hconnections hnot ho

theorem Step.inherits {l : Label} (hstep : Step K l m m') (fd : Fd) :
    Inherits fd m.world m'.world := by
  have hmonitor : ∀ {l' : ProcessMonitor.Label} {v : World ProcessMonitor} {d : Daemon},
      ProcessMonitor.Step K l' (monitorWorld m.world) v → d.listenFd = m.world.st.listenFd →
      d.timerFd = m.world.st.timerFd → d.connections = m.world.st.connections →
      d.monitor.sigchldFd = v.st.sigchldFd → d.monitor.trackedFds = v.st.trackedFds →
      Inherits fd m.world ⟨d, v.log⟩ := by
    intro l' v d hstep h1 h2 h3 h4 h5
    have h : Inherits fd m.world ⟨d, v.log ++ []⟩ := inherits_of_monitorStep hstep h1 h2 h3 h4 h5
    rwa [List.append_nil] at h
  -- a table that is set where there was an entry already
  have hset : ∀ {connections : Table Fd Connection} {fd' : Fd} {c c' : Connection},
      connections.find fd' = some c → ((connections.set fd' c').find fd).isSome →
        (connections.find fd).isSome := fun hfind h => isSome_set_of_find hfind h
  cases hstep with
  | attend | take | rearm | expire | spare | arm | fumble | submit =>
    exact .same rfl rfl rfl rfl fun _ h => h
  | @release w due j rest =>
    have h : Inherits fd w ⟨_, w.log ++ []⟩ := Inherits.same (d := { w.st with
      monitor := { w.st.monitor with terminalJobNotifications := rest }
      timeouts := w.st.timeouts.cancel j
      scheduler := { w.st.scheduler with
        activeJobIds := w.st.scheduler.activeJobIds.erase j } }) rfl rfl rfl rfl fun _ h => h
    rwa [List.append_nil] at h
  | skip => exact .refl fd _
  | @accept w due fd' events hnew hevents =>
    refine .same rfl rfl rfl rfl fun hnot h => ?_
    have hne : fd ≠ fd' := fun heq => hnot (heq ▸ List.mem_cons_self)
    rwa [Table.find_set_of_ne _ _ hne] at h
  | refuse => exact .same rfl rfl rfl rfl fun _ h => (isSome_of_del h).1
  | hangUp => exact .same rfl rfl rfl rfl fun _ h => (isSome_of_del h).1
  | tend hfind => exact .same rfl rfl rfl rfl fun _ h => hset hfind h
  | answer hfind hresponding =>
    refine .same rfl rfl rfl rfl fun _ h => ?_
    obtain ⟨frame, -, rfl⟩ | ⟨-, rfl⟩ := hresponding
    · exact hset hfind h
    · exact h
  | watch hl hstep => exact hmonitor hstep rfl rfl rfl rfl rfl
  | dequeue hstep => exact hmonitor hstep rfl rfl rfl rfl rfl
  | misfire hl hslot hwaiting hstep => exact hmonitor hstep rfl rfl rfl rfl rfl
  | run hslot hwaiting hstep => exact inherits_of_monitorStep hstep rfl rfl rfl rfl rfl
  | terminate hdue hstep => exact hmonitor hstep rfl rfl rfl rfl rfl
  | kill hstep => exact hmonitor hstep rfl rfl rfl rfl rfl

theorem inherits_of_walk {A : Set Label} (hwalk : Walk (Step K) A m m') (fd : Fd) :
    Inherits fd m.world m'.world :=
  hwalk.relates (R := fun m m' => Inherits fd m.world m'.world) (fun m => .refl fd m.world)
    (fun _ _ _ => Inherits.trans) fun _ _ _ _ hstep => hstep.inherits fd

end Daemon

/-! ## Runs -/

open Daemon

variable {K : Kernel} {s : Setup} {w v : World Daemon} {fd : Fd}

/-- An event of a batch reaches an owner that held the descriptor when `epoll_wait` returned, or is
dropped, unless the batch has opened a descriptor of the same number in the meantime. -/
theorem staleEvents_dropped (h : Reachable K s w) {pre : List (Fd × EventMask)}
    (hpre : dispatchAll K pre (w.emit .woke) = (.ok (), v))
    (hnot : .opened fd ∉ v.log.drop w.log.length) (eventMask : EventMask) :
    (∃ o, v.st.owner fd = some o ∧ w.st.Owns fd o ∧
        dispatch K fd eventMask v = o.serve K fd eventMask (dispatching v fd)) ∨
      v.st.owner fd = none ∧ dispatch K fd eventMask v = (.ok (), dispatching v fd) := by
  have hwoke : Between K s (w.emit .woke) := h.between.trans (walk_woke w)
  obtain ⟨due, hwalk, -⟩ := wp_run (dispatchAll_spec pre hwoke.sound) hpre
  obtain ⟨events, hlog, howns⟩ := inherits_of_walk ((walk_woke (K := K) w).trans hwalk) fd
  have hnot' : .opened fd ∉ events := by
    rw [show v.log = w.log ++ events from hlog, List.drop_left] at hnot
    exact hnot
  cases howner : v.st.owner fd with
  | none => exact Or.inr ⟨rfl, dispatch_stranger (route_of_owner_none howner) eventMask⟩
  | some o =>
    exact Or.inl ⟨o, rfl, howns hnot' o (owns_of_owner howner), dispatch_of_owner howner eventMask⟩

/-- A client submits a job, another client connects, and then one batch brings a CANCEL of the job,
a third client, and the hang-up of the job's standard output. The child has exited. -/
def hangUpScript : Kernel := { Kernel.quiet with
    waitpid := fun _ _ => .done (.exited (.exited 0))
    read := fun _ _ => .eof }.withClient
  [[(3, { epollin := true })], [(7, { epollin := true })], [(3, { epollin := true })],
    [(7, { epollin := true }), (3, { epollin := true }), (9, { epollhup := true })]]
  [[], submitPayload 0 [text "/a"], [], appendJobId kCancelCommand 1]

theorem hangUpScript_returns :
    ∀ i < 3, (iterate hangUpScript (after hangUpScript oneSlot i)).1 = .ok () := by decide +kernel

/-- The daemon after the first events of the fourth batch. -/
def hangUpMoment (events : List (Fd × EventMask)) : World Daemon :=
  (dispatchAll hangUpScript events ((after hangUpScript oneSlot 3).emit .woke)).2

/-- The CANCEL has closed the pipe, and its event is dropped. -/
theorem staleEvents_dropped_run :
    (hangUpMoment [(7, { epollin := true })]).st.owner 9 = none ∧
      (dispatch hangUpScript 9 { epollhup := true } (hangUpMoment [(7, { epollin := true })])).2.log =
        (hangUpMoment [(7, { epollin := true })]).log ++ [.dispatching 9] := by
  have hreached := reachable_after hangUpScript_returns
  obtain ⟨hreturns, hnot, hnone⟩ :
      (dispatchAll hangUpScript [(7, { epollin := true })]
        ((after hangUpScript oneSlot 3).emit .woke)).1 = .ok () ∧
        .opened 9 ∉ (hangUpMoment [(7, { epollin := true })]).log.drop
          (after hangUpScript oneSlot 3).log.length ∧
        (hangUpMoment [(7, { epollin := true })]).st.owner 9 = none := by
    decide +kernel
  unfold hangUpMoment at hnot hnone ⊢
  generalize after hangUpScript oneSlot 3 = w at hreached hreturns hnot hnone ⊢
  rcases staleEvents_dropped hreached (Prod.ext hreturns rfl) hnot { epollhup := true } with
    ⟨o, howner, -⟩ | ⟨-, hdropped⟩
  · rw [hnone] at howner
    cases howner
  · exact ⟨hnone, by rw [hdropped]; rfl⟩

/-- Where the third client is taken in first, it gets the number of the pipe and loses its connection
to the event of the pipe. -/
theorem staleEvent_closesClient : Reachable hangUpScript oneSlot (after hangUpScript oneSlot 3) ∧
    hangUpScript.epollWait (after hangUpScript oneSlot 3).log =
      .ready [(7, { epollin := true }), (3, { epollin := true }), (9, { epollhup := true })] ∧
    (after hangUpScript oneSlot 3).st.owner 9 = some (.pipe 1 .stdout) ∧
    (hangUpMoment [(7, { epollin := true }), (3, { epollin := true })]).st.connections.find 9 =
      some {} ∧
    (hangUpMoment [(7, { epollin := true }), (3, { epollin := true }),
      (9, { epollhup := true })]).st.connections.find 9 = none :=
  ⟨reachable_after hangUpScript_returns, by decide +kernel⟩

end Runnerd
