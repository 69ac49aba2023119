import Runnerd.Conversation

/-!
# Runs of the daemon

Where the main loop sends an event, what its handler does, and what every step preserves along a run:
over the events of a batch, and over the rounds of the loop. A run is followed to any moment at which
a round returns, and to the exception that ends it.
-/

namespace Runnerd

open Effect Effect.Prog Steps
open ProcessMonitor (Wf Recorded)

namespace Daemon

variable {K : Kernel} {n : ℕ} {w w' : World Daemon} {fd : Fd}

/-! ## Routes -/

/-- The branches of the main loop. -/
inductive Route where
  | listener
  | timer
  | monitor
  | client
  | stranger
  deriving DecidableEq

/-- The branch that an event of this descriptor takes. -/
def route (d : Daemon) (fd : Fd) : Route :=
  if fd = d.listenFd then .listener
  else if fd = d.timerFd then .timer
  else if d.monitor.ownsFileDescriptor fd then .monitor
  else if (d.connections.find fd).isSome then .client
  else .stranger

/-- The world in which an event is taken up. -/
abbrev dispatching (w : World Daemon) (fd : Fd) : World Daemon := w.emit (.dispatching fd)

theorem walk_dispatching {A : Set Label} {fd : Fd} (hA : .take fd ∈ A) (w : World Daemon) :
    Walk (Step K) A ⟨w, []⟩ ⟨dispatching w fd, []⟩ := Walk.single hA Step.take

/-- The end of the branches that deal with notifications: either an exception, or no notification
is left and no slot has become idle. -/
def Drained (K : Kernel) (w w' : World Daemon) (r : Except Exception Unit) : Prop :=
  Walk (Step K) {l | l.pumps} ⟨w, []⟩ ⟨w', []⟩ ∧
    (r = .ok () → w'.st.monitor.terminalJobNotifications = [] ∧ (NoIdle w.st → NoIdle w'.st))

/-- What comes before the notifications are dealt with, in the branch of the monitor. -/
def Label.minds : Label → Bool
  | .take _ | .watch => true
  | _ => false

/-- What comes before the notifications are dealt with, in the branch of the timer. -/
def Label.times (l : Label) : Bool :=
  l.strikes || match l with
    | .attend | .take _ | .expire => true
    | _ => false

theorem strikes_le_times : {l : Label | l.strikes} ⊆ {l | l.times} := by
  intro l hl
  have hl : l.strikes = true := hl
  show l.times = true
  simp [Label.times, hl]

/-! ## One event -/

theorem dispatch_listener_run (hroute : w.st.route fd = .listener) (eventMask : EventMask) :
    dispatch K fd eventMask w =
      acceptLoop K (K.accept4 (dispatching w fd).log) (dispatching w fd) := by
  have hfd : fd = w.st.listenFd := by
    unfold route at hroute
    split_ifs at hroute with h1
    exact h1
  unfold dispatch
  rw [bind_of_ok (emit_run w _), bind_of_ok (state_run _), if_pos (by exact hfd)]
  rfl

theorem dispatch_listener (h : Sound n ⟨w, []⟩) (hroute : w.st.route fd = .listener)
    (eventMask : EventMask) : wp (dispatch K fd eventMask)
      (fun _ w' => Walk (Step K) {l | l.admits} ⟨w, []⟩ ⟨w', []⟩) w := by
  have hwalk := @walk_dispatching K {l | l.admits} fd rfl w
  refine wp_of_run (dispatch_listener_run hroute eventMask) ?_
  exact wp_mono (acceptLoop_spec _ (sound_of_walk hwalk h)) fun _ _ h' => hwalk.trans h'

theorem dispatch_stranger (hroute : w.st.route fd = .stranger) (eventMask : EventMask) :
    dispatch K fd eventMask w = (.ok (), dispatching w fd) := by
  unfold route at hroute
  split_ifs at hroute with h1 h2 h3 h4
  unfold dispatch
  rw [bind_of_ok (emit_run w _), bind_of_ok (state_run _), if_neg (by exact h1),
    if_neg (by exact h2), if_neg (by exact h3)]
  rw [show (dispatching w fd).st.connections.find fd = none by
    rw [← Option.not_isSome_iff_eq_none]; exact h4]
  rfl

/-- The world in which a client has been hung up on. -/
def hungUp (w : World Daemon) (fd : Fd) : World Daemon :=
  ⟨{ w.st with connections := w.st.connections.del fd }, w.log ++ [.unregistered fd, .closed fd]⟩

/-- The connection whose event a client's is. -/
theorem find_of_route (hroute : w.st.route fd = .client) :
    ∃ c, w.st.connections.find fd = some c := by
  unfold route at hroute
  split_ifs at hroute with h1 h2 h3 h4
  exact Option.isSome_iff_exists.mp h4

/-- The event of a client never throws: the client is served, and then kept or hung up on. -/
theorem dispatch_client_run (hroute : w.st.route fd = .client) (eventMask : EventMask)
    {r : Except Exception Bool} {w₁ : World Daemon}
    (hrun : serveClient K fd eventMask (dispatching w fd) = (r, w₁)) :
    wp (dispatch K fd eventMask) (fun r' w' => r' = .ok () ∧
      (r = .ok true ∧ w' = w₁ ∨ r ≠ .ok true ∧ w' = hungUp w₁ fd)) w := by
  obtain ⟨c, hfind⟩ := find_of_route hroute
  unfold route at hroute
  split_ifs at hroute with h1 h2 h3
  refine wp_bind_ok (emit_run w _) (wp_bind_ok (state_run _) ?_)
  rw [if_neg (by exact h1), if_neg (by exact h2), if_neg (by exact h3)]
  rw [show (dispatching w fd).st.connections.find fd = some c from hfind]
  simp only
  have hclose : ∀ v : World Daemon, closeClient fd v = (.ok (), hungUp v fd) := fun v => by
    refine (bind_of_ok (epollDel_run v fd)).trans ((bind_of_ok (close_run _ fd)).trans ?_)
    simp [hungUp, World.emit, World.put]
  cases r with
  | error e =>
    refine wp_bind_ok (tryCatch_of_error hrun) (wp_of_run (hclose w₁) ⟨rfl, Or.inr ⟨?_, rfl⟩⟩)
    exact fun hr => by cases hr
  | ok alive =>
    refine wp_bind_ok (tryCatch_of_ok hrun) ?_
    cases alive with
    | true => exact wp_pure ⟨rfl, Or.inl ⟨rfl, rfl⟩⟩
    | false => exact wp_of_run (hclose w₁) ⟨rfl, Or.inr ⟨by simp, rfl⟩⟩

/-- What taking up a client's event does is part of serving it. -/
theorem servedAt_dispatching (w : World Daemon) (fd : Fd) :
    ServedAt K fd w (dispatching w fd) :=
  ⟨walk_dispatching (by simp [Label.serves]) w, id⟩

/-- A client is served, and then kept or hung up on, whatever it was served with. -/
theorem dispatch_client (h : Sound n ⟨w, []⟩) (hroute : w.st.route fd = .client)
    (eventMask : EventMask) : wp (dispatch K fd eventMask) (fun r w' => r = .ok () ∧
      ∃ w1, ServedAt K fd w w1 ∧ (w' = w1 ∨ Step K (.hangUp fd) ⟨w1, []⟩ ⟨w', []⟩)) w := by
  have htaken := servedAt_dispatching (K := K) w fd
  obtain ⟨c, hfind⟩ := find_of_route hroute
  rcases hrun : serveClient K fd eventMask (dispatching w fd) with ⟨r, w₁⟩
  have hclient := wp_run (serveClient_spec (K := K) eventMask (htaken.sound h) hfind) hrun
  have hserved : ServedAt K fd w w₁ := htaken.trans (hclient.carried.served (htaken.sound h))
  refine wp_mono (dispatch_client_run hroute eventMask hrun) fun r' w' h' => ⟨h'.1, w₁, hserved, ?_⟩
  rcases h'.2 with ⟨-, rfl⟩ | ⟨-, rfl⟩
  · exact Or.inl rfl
  · obtain ⟨c', hfind'⟩ := hserved.find hfind
    exact Or.inr (Step.hangUp (by rw [hfind']; rfl))

/-- The branch of the monitor. -/
theorem dispatch_monitor (h : Sound n ⟨w, []⟩) (hroute : w.st.route fd = .monitor)
    (eventMask : EventMask) : wp (dispatch K fd eventMask) (fun r w' =>
      ∃ w1, Walk (Step K) {l | l.minds} ⟨w, []⟩ ⟨w1, []⟩ ∧ Drained K w1 w' r) w := by
  unfold route at hroute
  split_ifs at hroute with h1 h2 h3
  have hwalk := @walk_dispatching K {l | l.minds} fd rfl w
  have hwatch : ({.watch} : Set Label) ⊆ {l | l.minds} := by
    rintro l rfl
    rfl
  have hwf : Wf (dispatching w fd).st.monitor := h.wf
  have hmonitor : wp (inMonitor (ProcessMonitor.handleFileDescriptorEvent K fd eventMask))
      (fun _ w1 => Walk (Step K) {l | l.minds} ⟨w, []⟩ ⟨w1, []⟩) (dispatching w fd) := by
    refine wp_inMonitor (wp_mono (ProcessMonitor.handleFileDescriptorEvent_spec hwf fd eventMask)
      fun _ v hv => hwalk.trans ?_)
    exact (walk_watch (w := dispatching w fd) (by rfl) hv).mono hwatch
  refine wp_bind_ok (emit_run w _) (wp_bind_ok (state_run _) ?_)
  rw [if_neg (by exact h1), if_neg (by exact h2), if_pos (by exact h3)]
  refine wp_bind hmonitor (fun _ w1 h1 => ?_) fun e w1 h1 => ?_
  · exact wp_mono (processTerminalJobNotifications_spec (sound_of_walk h1 h))
      fun r w' h' => ⟨w1, h1, h'⟩
  · exact ⟨w1, h1, Walk.refl, fun hr => by cases hr⟩

/-- What the timerfd's event does to the deadlines: some jobs may be left where a call throws. -/
theorem handleDeadlineEvent_spec (h : Sound n ⟨w, []⟩) (eventMask : EventMask) :
    wp (handleDeadlineEvent K eventMask) (fun r w' => ∃ due,
      Walk (Step K) {l | l.times} ⟨w, []⟩ ⟨w', due⟩ ∧ (r = .ok () → due = [])) w := by
  unfold handleDeadlineEvent
  split_ifs
  · exact wp_throw ⟨[], Walk.refl, fun hr => by cases hr⟩
  obtain ⟨e, hrun⟩ | ⟨now, events, hnow, hevents, ⟨e, hrun⟩ | hrun⟩ :=
    TimeoutManager.handleReadable_run K ⟨w.st.timeouts, w.log⟩
  · refine wp_of_run (bind_of_error (inTimeouts_run hrun)) ⟨[], ?_, fun hr => by cases hr⟩
    exact Walk.single rfl (Step.attend (by simp [choreEvent]))
  · have hexpire := Step.expire (K := K) (w := w) hnow ⟨_, rfl⟩
      (List.forall_mem_cons.mpr ⟨rfl, choreEvents_of_armingEvents now hevents⟩)
    exact wp_of_run (bind_of_error (inTimeouts_run hrun))
      ⟨_, Walk.single rfl hexpire, fun hr => by cases hr⟩
  · refine wp_bind_ok (inTimeouts_run hrun) ?_
    have hchores : ∀ e ∈ .called .readTimer :: .clock now ::
        (events ++ [.expired (w.st.timeouts.expireAt now).2]), choreEvent e := by
      refine List.forall_mem_cons.mpr ⟨rfl, List.forall_mem_cons.mpr ⟨rfl, ?_⟩⟩
      refine List.forall_mem_append.mpr ⟨fun e he => choreEvent_of_armingEvent (hevents e he), ?_⟩
      simp [choreEvent]
    have hexpire := Step.expire (K := K) (w := w) hnow ⟨_, rfl⟩ hchores
    refine wp_mono (deadlineLoop_spec _ (hexpire.sound h)) fun r w' h' => ?_
    obtain ⟨due, hwalk, hok⟩ := h'
    exact ⟨due, (hwalk.mono strikes_le_times).head hexpire rfl, hok⟩

/-- The branch of the timer. -/
theorem dispatch_timer (h : Sound n ⟨w, []⟩) (hroute : w.st.route fd = .timer)
    (eventMask : EventMask) : wp (dispatch K fd eventMask) (fun r w' =>
      ∃ w1 due, Walk (Step K) {l | l.times} ⟨w, []⟩ ⟨w1, due⟩ ∧
        ((∃ e, r = .error e) ∧ w' = w1 ∨ due = [] ∧ Drained K w1 w' r)) w := by
  unfold route at hroute
  split_ifs at hroute with h1 h2
  have hwalk := @walk_dispatching K {l | l.times} fd rfl w
  refine wp_bind_ok (emit_run w _) (wp_bind_ok (state_run _) ?_)
  rw [if_neg (by exact h1), if_pos (by exact h2)]
  refine wp_bind (handleDeadlineEvent_spec (sound_of_walk hwalk h) eventMask)
    (fun _ w1 h1 => ?_) fun e w1 h1 => ?_
  · obtain ⟨due, hwalk1, hok⟩ := h1
    obtain rfl := hok rfl
    have hwalk1 := hwalk.trans hwalk1
    exact wp_mono (processTerminalJobNotifications_spec (sound_of_walk hwalk1 h))
      fun r w' h' => ⟨w1, [], hwalk1, Or.inr ⟨rfl, h'⟩⟩
  · obtain ⟨due, hwalk1, -⟩ := h1
    exact ⟨w1, due, hwalk.trans hwalk1, Or.inl ⟨⟨e, rfl⟩, rfl⟩⟩

/-- Every event is a walk of steps, and leaves no deadline unattended if its handler returns. -/
theorem dispatch_spec (h : Sound n ⟨w, []⟩) (fd : Fd) (eventMask : EventMask) :
    wp (dispatch K fd eventMask) (fun r w' => ∃ due,
      Walk (Step K) Set.univ ⟨w, []⟩ ⟨w', due⟩ ∧ (r = .ok () → due = [])) w := by
  have huniv : ∀ A : Set Label, A ⊆ Set.univ := fun _ => Set.subset_univ _
  cases hroute : w.st.route fd with
  | listener =>
    exact wp_mono (dispatch_listener h hroute eventMask) fun _ _ hwalk =>
      ⟨[], hwalk.mono (huniv _), fun _ => rfl⟩
  | stranger =>
    exact wp_of_run (dispatch_stranger hroute eventMask)
      ⟨[], walk_dispatching (Set.mem_univ _) w, fun _ => rfl⟩
  | client =>
    refine wp_mono (dispatch_client h hroute eventMask) fun _ w' ⟨_, w1, hserved, hend⟩ => ?_
    have hwalk := hserved.1.mono (huniv _)
    obtain rfl | hstep := hend
    · exact ⟨[], hwalk, fun _ => rfl⟩
    · exact ⟨[], hwalk.tail trivial hstep, fun _ => rfl⟩
  | monitor =>
    refine wp_mono (dispatch_monitor h hroute eventMask) fun _ w' ⟨w1, hwalk, hdrained⟩ => ?_
    exact ⟨[], (hwalk.mono (huniv _)).trans (hdrained.1.mono (huniv _)), fun _ => rfl⟩
  | timer =>
    refine wp_mono (dispatch_timer h hroute eventMask) fun r w' ⟨w1, due, hwalk, hend⟩ => ?_
    obtain ⟨⟨e, rfl⟩, rfl⟩ | ⟨rfl, hdrained⟩ := hend
    · exact ⟨due, hwalk.mono (huniv _), fun hr => by cases hr⟩
    · exact ⟨[], (hwalk.mono (huniv _)).trans (hdrained.1.mono (huniv _)), fun _ => rfl⟩

/-- An event of no client leaves the connections alone, but for new ones. -/
theorem connections_of_calm {A : Set Label} {m m' : Moment}
    (hA : ∀ l ∈ A, l.quiet ∨ ∃ fd, l = .take fd) (hwalk : Walk (Step K) A m m') :
    m'.world.st.connections = m.world.st.connections := by
  apply hwalk.invariant (P := fun m' => m'.world.st.connections = m.world.st.connections) _ rfl
  intro l hl m₁ m₂ hstep hsame
  rcases hA l hl with hquiet | ⟨fd, rfl⟩
  · exact (hstep.quiet hquiet).1.trans hsame
  · cases hstep
    exact hsame

/-- Where an event's handler returns, only the client whose event it was has lost its connection. -/
theorem dispatch_keeps (h : Sound n ⟨w, []⟩) {eventMask : EventMask}
    (hrun : dispatch K fd eventMask w = (.ok (), w')) {fd' : Fd} {c : Connection}
    (haside : fd' ≠ fd ∨ w.st.route fd ≠ .client) (hfind : w.st.connections.find fd' = some c) :
    w'.st.connections.find fd' = some c := by
  have hpumps : ∀ l ∈ {l : Label | l.pumps}, l.quiet ∨ ∃ fd, l = .take fd := fun l hl => by
    cases l <;> first | exact Or.inl rfl | cases hl
  cases hroute : w.st.route fd with
  | listener =>
    exact acceptLoop_keeps _ ((dispatch_listener_run hroute eventMask).symm.trans hrun) hfind
  | stranger =>
    obtain rfl : dispatching w fd = w' :=
      congrArg Prod.snd ((dispatch_stranger hroute eventMask).symm.trans hrun)
    exact hfind
  | monitor =>
    obtain ⟨w1, hwalk, hpumped, -⟩ := wp_run (dispatch_monitor h hroute eventMask) hrun
    have hminds : ∀ l ∈ {l : Label | l.minds}, l.quiet ∨ ∃ fd, l = .take fd := fun l hl => by
      cases l <;> first | exact Or.inl rfl | exact Or.inr ⟨_, rfl⟩ | cases hl
    rw [connections_of_calm hpumps hpumped, connections_of_calm hminds hwalk]
    exact hfind
  | timer =>
    obtain ⟨w1, due, hwalk, ⟨⟨e, he⟩, -⟩ | ⟨rfl, hpumped, -⟩⟩ :=
      wp_run (dispatch_timer h hroute eventMask) hrun
    · cases he
    · have htimes : ∀ l ∈ {l : Label | l.times}, l.quiet ∨ ∃ fd, l = .take fd := fun l hl => by
        cases l <;> first | exact Or.inl rfl | exact Or.inr ⟨_, rfl⟩ | cases hl
      rw [connections_of_calm hpumps hpumped, connections_of_calm htimes hwalk]
      exact hfind
  | client =>
    have hne : fd' ≠ fd := haside.resolve_right (not_not_intro hroute)
    obtain ⟨-, w1, hserved, rfl | hstep⟩ := wp_run (dispatch_client h hroute eventMask) hrun
    · exact ((connections_of_serves hserved.1).2 fd' hne).trans hfind
    · cases hstep
      exact (Table.find_del_of_ne _ hne).trans
        (((connections_of_serves hserved.1).2 fd' hne).trans hfind)

/-! ## Rounds -/

theorem dispatchAll_spec (events : List (Fd × EventMask)) (h : Sound n ⟨w, []⟩) :
    wp (dispatchAll K events) (fun r w' => ∃ due,
      Walk (Step K) Set.univ ⟨w, []⟩ ⟨w', due⟩ ∧ (r = .ok () → due = [])) w := by
  induction events generalizing w with
  | nil => exact wp_pure ⟨[], Walk.refl, fun _ => rfl⟩
  | cons event rest ih =>
    obtain ⟨fd, eventMask⟩ := event
    refine wp_bind (dispatch_spec h fd eventMask) (fun _ w1 h1 => ?_) fun e w1 h1 => ?_
    · obtain ⟨due, hwalk, hok⟩ := h1
      obtain rfl := hok rfl
      refine wp_mono (ih (sound_of_walk hwalk h)) fun r w' ⟨due, hwalk', hok'⟩ => ?_
      exact ⟨due, hwalk.trans hwalk', hok'⟩
    · obtain ⟨due, hwalk, -⟩ := h1
      exact ⟨due, hwalk, fun hr => by cases hr⟩

theorem walk_woke (w : World Daemon) :
    Walk (Step K) Set.univ ⟨w, []⟩ ⟨w.emit .woke, []⟩ :=
  Walk.single trivial (Step.attend (by simp [choreEvent]))

theorem iterate_spec (h : Sound n ⟨w, []⟩) :
    wp (iterate K) (fun r w' => ∃ due,
      Walk (Step K) Set.univ ⟨w, []⟩ ⟨w', due⟩ ∧ (r = .ok () → due = [])) w := by
  have hwait : epollWait K w = (.ok (K.epollWait w.log), w.emit .woke) := rfl
  refine wp_bind_ok hwait ?_
  cases K.epollWait w.log with
  | interrupted => exact wp_pure ⟨[], walk_woke w, fun _ => rfl⟩
  | failed => exact wp_throw ⟨[], walk_woke w, fun hr => by cases hr⟩
  | ready events =>
    have hsound := sound_of_walk (walk_woke (K := K) w) h
    refine wp_mono (dispatchAll_spec events hsound) fun r w' ⟨due, hwalk, hok⟩ => ?_
    exact ⟨due, (walk_woke w).trans hwalk, hok⟩

/-! ## What holds along a walk -/

variable {A : Set Label} {m m' : Moment} {P : Moment → Prop}

theorem sound_invariant (hstep : ∀ l m m', Sound n m → Step K l m m' → P m → P m')
    (hwalk : Walk (Step K) A m m') (hsound : Sound n m) (hP : P m) : Sound n m' ∧ P m' :=
  hwalk.invariant (P := fun m => Sound n m ∧ P m)
    (fun l _ m m' hlast ⟨hs, hP⟩ => ⟨hlast.sound hs, hstep l m m' hs hlast hP⟩) ⟨hsound, hP⟩

/-- What every step keeps as long as the history allows it. -/
theorem sound_invariant_under {H : List Event → Prop}
    (hH : ∀ log events, H (log ++ events) → H log)
    (hstep : ∀ l m m', Sound n m → Step K l m m' → H m'.world.log → P m → P m')
    (hwalk : Walk (Step K) A m m') (hsound : Sound n m) (hP : P m) (hlog : H m'.world.log) :
    Sound n m' ∧ P m' := by
  have hkeep : ∀ l m m', Sound n m → Step K l m m' → (H m.world.log → P m) →
      H m'.world.log → P m' := fun l m m' hs hlast ih hlog' => by
    obtain ⟨events, hevents⟩ := hlast.log_prefix
    exact hstep l m m' hs hlast hlog' (ih (hH _ events (hevents ▸ hlog')))
  obtain ⟨hsound', hP'⟩ := sound_invariant (P := fun m => H m.world.log → P m) hkeep hwalk hsound
    fun _ => hP
  exact ⟨hsound', hP' hlog⟩

end Daemon

/-! ## Runs -/

open Daemon

variable {K : Kernel} {s : Setup} {w w' : World Daemon} {P : Moment → Prop}

theorem Reachable.sound_walk (h : Reachable K s w) : Sound s.maxRunning ⟨w, []⟩ ∧
    Walk (Step K) Set.univ ⟨s.initial, []⟩ ⟨w, []⟩ := by
  induction h with
  | start => exact ⟨sound_initial s, Walk.refl⟩
  | @step w w' _ hrun ih =>
    obtain ⟨hsound, hwalk⟩ := ih
    obtain ⟨due, hround, hok⟩ := wp_run (iterate_spec hsound) hrun
    obtain rfl := hok rfl
    exact ⟨sound_of_walk hround hsound, hwalk.trans hround⟩

theorem Reachable.sound (h : Reachable K s w) : Sound s.maxRunning ⟨w, []⟩ := h.sound_walk.1

/-- The daemon after a round of its loop, whether the round returned or ended the program. Every
history of a run is the beginning of one of these. -/
inductive Ran (K : Kernel) (s : Setup) : World Daemon → Prop where
  | round {w : World Daemon} (h : Reachable K s w) : Ran K s (Daemon.iterate K w).2

theorem Ran.walk (h : Ran K s w) :
    ∃ due, Walk (Step K) Set.univ ⟨s.initial, []⟩ ⟨w, due⟩ := by
  obtain ⟨h⟩ := h
  obtain ⟨due, hwalk, -⟩ := iterate_spec (K := K) h.sound
  exact ⟨due, h.sound_walk.2.trans hwalk⟩

/-- What every step keeps holds after every round. -/
theorem Ran.invariant (hstart : P ⟨s.initial, []⟩)
    (hstep : ∀ l m m', Sound s.maxRunning m → Step K l m m' → P m → P m') (h : Ran K s w) :
    ∃ due, Sound s.maxRunning ⟨w, due⟩ ∧ P ⟨w, due⟩ := by
  obtain ⟨due, hwalk⟩ := h.walk
  exact ⟨due, sound_invariant hstep hwalk (sound_initial s) hstart⟩

/-- Rounds of the loop that return. -/
inductive Rounds (K : Kernel) (w : World Daemon) : World Daemon → Prop where
  | refl : Rounds K w w
  | step {w' w'' : World Daemon} :
      Rounds K w w' → Daemon.iterate K w' = (.ok (), w'') → Rounds K w w''

theorem Rounds.reachable (hrounds : Rounds K w w') (h : Reachable K s w) : Reachable K s w' := by
  induction hrounds with
  | refl => exact h
  | step _ hrun ih => exact ih.step hrun

/-- The daemon at this or a later moment of a run: at a call of `epoll_wait`, or after the round that
an exception ends. -/
def Later (K : Kernel) (w w' : World Daemon) : Prop :=
  ∃ w₁, Rounds K w w₁ ∧ (w' = w₁ ∨ w' = (Daemon.iterate K w₁).2)

theorem Later.walk (hlater : Later K w w') (h : Reachable K s w) :
    ∃ due, Walk (Step K) Set.univ ⟨w, []⟩ ⟨w', due⟩ := by
  obtain ⟨w₁, hrounds, hlast⟩ := hlater
  have hwalk : Walk (Step K) Set.univ ⟨w, []⟩ ⟨w₁, []⟩ := by
    clear hlast
    induction hrounds with
    | refl => exact Walk.refl
    | @step w' w'' hrounds hrun ih =>
      obtain ⟨due, hround, hok⟩ := wp_run (iterate_spec (hrounds.reachable h).sound) hrun
      obtain rfl := hok rfl
      exact ih.trans hround
  obtain rfl | rfl := hlast
  · exact ⟨[], hwalk⟩
  · obtain ⟨due, hround, -⟩ := iterate_spec (K := K) (hrounds.reachable h).sound
    exact ⟨due, hwalk.trans hround⟩

/-- The daemon between two steps of a run, with no deadline being acted upon: at a call of
`epoll_wait`, or where a request is handled. -/
def Between (K : Kernel) (s : Setup) (w : World Daemon) : Prop :=
  Walk (Step K) Set.univ ⟨s.initial, []⟩ ⟨w, []⟩

theorem Between.sound (h : Between K s w) : Sound s.maxRunning ⟨w, []⟩ :=
  sound_of_walk h (sound_initial s)

theorem Reachable.between (h : Reachable K s w) : Between K s w := h.sound_walk.2

/-! ## Machines with a client -/

/-- The rounds so far. -/
def rounds (log : List Event) : ℕ := log.count .woke

/-- The frame that carries a payload. -/
def frameOf (payload : Bytes) : Bytes := bigEndian kFrameHeaderSize payload.length ++ payload

/-- A machine that delivers these events in its rounds, and on which the client at descriptor 7 sends
one of these requests whenever it is read. -/
def Kernel.withClient (K : Kernel) (batches : List (List (Fd × EventMask)))
    (requests : List Bytes) : Kernel :=
  { K with
    epollWait := fun log => .ready (batches.getD (rounds log) [])
    accept4 := fun log => .client (lowestFd log) .again
    read := fun log fd =>
      if fd = 7 then .data (frameOf (requests.getD (rounds log - 1) [])) .again
      else K.read log fd }

/-- A daemon with one slot. -/
def oneSlot : Setup where
  maxRunning := 1
  listenFd := 3
  epollFd := 4
  sigchldFd := 5
  timerFd := 6
  maxRunning_pos := by decide
  distinct := by decide

/-- The daemon after some rounds. -/
def after (K : Kernel) (s : Setup) : ℕ → World Daemon
  | 0 => s.initial
  | n + 1 => (Daemon.iterate K (after K s n)).2

theorem reachable_after {m : ℕ} (h : ∀ i < m, (Daemon.iterate K (after K s i)).1 = .ok ()) :
    Reachable K s (after K s m) := by
  induction m with
  | zero => exact .start
  | succ m ih =>
    exact .step (ih fun i hi => h i (Nat.lt_succ_of_lt hi))
      (Prod.ext (h m (Nat.lt_succ_self m)) rfl)

theorem ran_after {m : ℕ} (h : ∀ i < m, (Daemon.iterate K (after K s i)).1 = .ok ()) :
    Ran K s (after K s (m + 1)) := .round (reachable_after h)

theorem later_after {m k : ℕ} (h : ∀ i < m + k, (Daemon.iterate K (after K s i)).1 = .ok ()) :
    Later K (after K s m) (after K s (m + k)) := by
  refine ⟨after K s (m + k), ?_, Or.inl rfl⟩
  induction k with
  | zero => exact .refl
  | succ k ih =>
    exact .step (ih fun i hi => h i (by omega)) (Prod.ext (h (m + k) (by omega)) rfl)

end Runnerd
