import Runnerd.Bookkeeping

/-!
# Descriptors

Clients and jobs hold different descriptors. As long as no call returns a descriptor that is open,
those of the connections are open and belong to no job, over whole runs, so that what clients send is
never taken for the output of a job; and the daemon's monitor keeps what it keeps on its own.
-/

namespace Runnerd

open Function Effect Effect.Prog Steps Trace
open ProcessMonitor (Held JobKept Kept Tracks Untouched Wf above_adopted above_starting fds_of_keepsFds
  keepsFds kept_initial)

/-! ## Owned descriptors -/

/-- Only open descriptors have an owner. -/
def OwnersOpen (log : List Event) : Prop :=
  ∀ fd, (ledger log).owner fd ≠ none → fd ∈ openFds log

/-- The descriptors given to a job are open. -/
def AdoptsOpen (log : List Event) : Event → Prop
  | .adopted _ _ stdoutFd stderrFd startupErrorFd =>
    ∀ fd ∈ [stdoutFd, stderrFd, startupErrorFd], fd ∈ openFds log
  | _ => True

theorem OwnersOpen.concat {log : List Event} {e : Event} (h : OwnersOpen log)
    (he : AdoptsOpen log e) : OwnersOpen (log ++ [e]) := by
  intro fd howner
  rw [mem_openFds_concat]
  rw [ledger_concat] at howner
  cases e with
  | closed fd' =>
    have howner : update (ledger log).owner fd' none fd ≠ none := howner
    by_cases hfd : fd = fd'
    · rw [hfd, update_self] at howner
      exact absurd rfl howner
    · rw [update_of_ne hfd] at howner
      exact Or.inr ⟨h fd howner, by simpa using Ne.symm hfd⟩
  | adopted j pid stdoutFd stderrFd startupErrorFd =>
    have howner : update (update (update (ledger log).owner stdoutFd _) stderrFd _)
      startupErrorFd _ fd ≠ none := howner
    refine Or.inr ⟨?_, by simp⟩
    by_cases h3 : fd = startupErrorFd
    · exact he fd (by simp [h3])
    by_cases h2 : fd = stderrFd
    · exact he fd (by simp [h2])
    by_cases h1 : fd = stdoutFd
    · exact he fd (by simp [h1])
    rw [update_of_ne h3, update_of_ne h2, update_of_ne h1] at howner
    exact h fd howner
  | _ => exact Or.inr ⟨h fd howner, by simp⟩

/-- Events that give no descriptor to a job. -/
def givesNothing : Event → Bool
  | .adopted _ _ _ _ _ => false
  | _ => true

theorem OwnersOpen.append {log events : List Event} (h : OwnersOpen log)
    (hevents : ∀ e ∈ events, givesNothing e) : OwnersOpen (log ++ events) := by
  induction events generalizing log with
  | nil => rwa [List.append_nil]
  | cons e events ih =>
    obtain ⟨he, hrest⟩ := List.forall_mem_cons.mp hevents
    have hconcat : OwnersOpen (log ++ [e]) := by
      refine h.concat ?_
      cases e <;> trivial
    simpa using ih hconcat hrest

namespace ProcessMonitor

variable {K : Kernel} {l : Label} {w w' : World ProcessMonitor} {fd : Fd}

theorem givesNothing_of_isLaunch {events : List Event} (h : ∀ e ∈ events, e.isLaunch) :
    ∀ e ∈ events, givesNothing e := fun e he => by
  have := h e he
  cases e <;> first | rfl | cases this

/-- The ledger's owners when a launch has adopted its child. -/
theorem ownersOpen_adopted {j : JobId} {events : List Event} {launched : LaunchedProcess}
    (hlaunch : Launching events [launched.stdoutFd, launched.stderrFd, launched.startupErrorFd]
      [launched.pid]) (hfresh : Throughout Fresh (w.log ++ [.starting j]) events)
    (h : OwnersOpen w.log) : OwnersOpen (w.log ++ [.starting j] ++ events ++ [.adopted j
      launched.pid launched.stdoutFd launched.stderrFd launched.startupErrorFd]) := by
  obtain ⟨std, held, hstd, hrun, hfds, -⟩ := hlaunch
  have hevents := Holdings.isLaunch_of_run hrun
  have hbefore : OwnersOpen (w.log ++ [.starting j] ++ events) :=
    (h.append (by simp [givesNothing])).append (givesNothing_of_isLaunch hevents)
  refine hbefore.concat fun fd hfd => ?_
  have habove := above_starting hrun hfresh
  exact (habove.open_iff fd).mpr (Or.inr (hfds.mem_iff.mpr (List.mem_append_left std hfd)))

theorem Step.ownersOpen (hstep : Step K l w w') (hfresh : FreshFds w'.log)
    (h : OwnersOpen w.log) : OwnersOpen w'.log := by
  cases hstep with
  | @idle _ e he =>
    refine h.append (List.forall_mem_singleton.mpr ?_)
    cases e <;> first | rfl | cases he
  | garble | collect => exact h
  | @launchFailed _ j job events message hjob hqueued hlaunch =>
    refine h.append (List.forall_mem_cons.mpr ⟨rfl, List.forall_mem_append.mpr
      ⟨givesNothing_of_isLaunch hlaunch.isLaunch, by simp [givesNothing]⟩⟩)
  | @abandoned _ j job events rest tracked launched message hjob hqueued hlaunch hrest htracked =>
    have hrests := fun e he => hrest.isLaunch e (List.mem_append_right events he)
    rw [history_pieces] at hfresh ⊢
    refine (ownersOpen_adopted hlaunch hfresh.left.left.right h).append ?_
    exact List.forall_mem_append.mpr ⟨givesNothing_of_isLaunch hrests, by simp [givesNothing]⟩
  | @started _ j job events launched hjob hqueued hlaunch hgroup hpid hnone hdistinct =>
    rw [history_pieces] at hfresh ⊢
    refine (ownersOpen_adopted hlaunch hfresh.left.left.right h).append ?_
    simp [givesNothing]
  | _ => exact h.append (by simp [givesNothing])

theorem above_keepsFds {held : Holdings} {log₀ log events : List Event}
    (h : Holdings.Above held log₀ log) (hevents : ∀ e ∈ events, keepsFds e) :
    Holdings.Above held log₀ (log ++ events) := by
  obtain ⟨howners, hopens⟩ := fds_of_keepsFds hevents log
  exact ⟨h.nodup, fun fd => by rw [hopens, h.open_iff], h.disjoint,
    fun fd hfd => by rw [howners, h.owner fd hfd]⟩

/-- What a step does to the descriptors that are open before it: nothing, or it closes one that is
tracked. -/
theorem Step.descriptors (hstep : Step K l w w') (hfresh : FreshFds w'.log) :
    (∃ held, Holdings.Above held w.log w'.log) ∨
      ∃ fd t, w.st.trackedFds.find fd = some t ∧
        w'.log = w.log ++ [.reachedEof fd, .unregistered fd] ++ [.closed fd] := by
  have habove := Holdings.above_start w.log
  have hkeeps : ∀ {events : List Event}, (∀ e ∈ events, keepsFds e) →
      ∃ held, Holdings.Above held w.log (w.log ++ events) := fun hevents =>
    ⟨_, above_keepsFds habove hevents⟩
  cases hstep with
  | @idle _ e he =>
    refine Or.inl (hkeeps (List.forall_mem_singleton.mpr ?_))
    cases e <;> first | rfl | cases he
  | garble | collect => exact Or.inl ⟨_, habove⟩
  | @finish _ fd j kind p htracked hactive =>
    exact Or.inr ⟨fd, _, htracked, by simp⟩
  | @launchFailed _ j job events message hjob hqueued hlaunch =>
    obtain ⟨std, held, hstd, hrun, -, -⟩ := hlaunch
    have hlog : w.log ++ .starting j :: (events ++ [.entered j .failed]) =
        w.log ++ [.starting j] ++ events ++ [.entered j .failed] := by simp
    simp only [hlog] at hfresh ⊢
    exact Or.inl ⟨held, above_keepsFds (above_starting hrun hfresh.left.right)
      (by simp [keepsFds])⟩
  | @abandoned _ j job events rest tracked launched message hjob hqueued hlaunch hrest htracked =>
    obtain ⟨std, held, hstd, hrun, hfds, -⟩ := hlaunch
    obtain ⟨std', held', hstd', hrun', -, -⟩ := hrest
    rw [history_pieces, ← List.append_assoc _ rest] at hfresh ⊢
    have hadopted := above_adopted (j := j) (above_starting hrun hfresh.left.left.left.right) hfds
    exact Or.inl ⟨held', above_keepsFds (hadopted.run (Holdings.run_rest hrun hrun')
      hfresh.left.right) (by simp [keepsFds])⟩
  | @started _ j job events launched hjob hqueued hlaunch hgroup hpid hnone hdistinct =>
    obtain ⟨std, held, hstd, hrun, hfds, -⟩ := hlaunch
    rw [history_pieces] at hfresh ⊢
    have hadopted := above_adopted (j := j) (above_starting hrun hfresh.left.left.right) hfds
    exact Or.inl ⟨held, above_keepsFds hadopted (by simp [keepsFds])⟩
  | _ => exact Or.inl (hkeeps (by simp [keepsFds]))

/-- An open descriptor that belongs to no job stays open and belongs to none. -/
theorem Step.unowned (hstep : Step K l w w') (htracks : Tracks w) (hfresh : FreshFds w'.log)
    (hopen : fd ∈ openFds w.log) (howner : (ledger w.log).owner fd = none) :
    fd ∈ openFds w'.log ∧ (ledger w'.log).owner fd = none := by
  obtain ⟨held, habove⟩ | ⟨fd', t, htracked, hlog⟩ := hstep.descriptors hfresh
  · exact ⟨(habove.open_iff fd).mpr (Or.inl hopen), (habove.owner fd hopen).trans howner⟩
  · have hne : fd ≠ fd' := by
      rintro rfl
      rw [(htracks fd t htracked).1] at howner
      cases howner
    have hkeeps : ∀ e ∈ [Event.reachedEof fd', .unregistered fd'], keepsFds e := by
      simp [keepsFds]
    obtain ⟨howners, hopens⟩ := fds_of_keepsFds hkeeps w.log
    rw [hlog, mem_openFds_concat, ledger_concat, hopens]
    refine ⟨Or.inr ⟨hopen, by simpa using Ne.symm hne⟩, ?_⟩
    show update (ledger (w.log ++ [.reachedEof fd', .unregistered fd'])).owner fd' none fd = none
    rw [update_of_ne hne, howners, howner]

end ProcessMonitor

/-! ## Connections -/

namespace Daemon

variable {K : Kernel} {n : ℕ} {l : Label} {m m' : Moment} {w : World Daemon} {fd : Fd}
  {v : World ProcessMonitor} {connections : Table Fd Connection} {log events : List Event} {e : Event}

/-- The descriptor that an event takes something from, or closes. -/
def drawnFd : Event → Option Fd
  | .received fd _ | .reachedEof fd | .closed fd => some fd
  | _ => none

/-- An event that has nothing to do with jobs. -/
def Foreign (before : List Event) (e : Event) (_after : List Event) : Prop :=
  deskEvent e ∧ ∀ fd ∈ drawnFd e, (ledger before).owner fd = none

theorem foreign_of_choreEvents (h : ∀ e ∈ events, choreEvent e) (log : List Event) :
    Throughout Foreign log events := throughout_of_forall fun e he _ _ => by
  have := h e he
  refine ⟨deskEvent_of_choreEvent this, fun fd hfd => ?_⟩
  cases e <;> first | (cases hfd; done) | cases this

/-- What a foreign event leaves of the ledger. -/
theorem ledger_foreign {after : List Event} (h : Foreign log e after) :
    Ledger.SameJobs (ledger log) (ledger (log ++ [e])) ∧
      (ledger (log ++ [e])).stream = (ledger log).stream ∧
      (ledger (log ++ [e])).ended = (ledger log).ended ∧
      (ledger (log ++ [e])).owner = (ledger log).owner := by
  obtain ⟨hdesk, hdrawn⟩ := h
  rw [ledger_concat]
  refine ⟨(ledger_deskEvent _ hdesk).2.2.2, ?_⟩
  cases e with
  | received fd bytes =>
    have hnone := hdrawn fd rfl
    refine ⟨?_, rfl, rfl⟩
    show (ledger log).hear fd bytes = _
    unfold Ledger.hear
    rw [hnone]
  | reachedEof fd =>
    have hnone := hdrawn fd rfl
    refine ⟨rfl, ?_, rfl⟩
    show (ledger log).finish fd = _
    unfold Ledger.finish
    rw [hnone]
  | closed fd => exact ⟨rfl, rfl, update_eq_self_iff.mpr (hdrawn fd rfl).symm⟩
  | _ => first | exact ⟨rfl, rfl, rfl⟩ | cases hdesk

theorem mem_openFds_foreign {after : List Event} (h : Foreign log e after) (hfd : fd ∈ openFds log)
    (howner : (ledger log).owner fd ≠ none) : fd ∈ openFds (log ++ [e]) := by
  refine (mem_openFds_concat _ _ _).mpr (Or.inr ⟨hfd, ?_⟩)
  rintro rfl
  exact howner (h.2 fd rfl)

theorem kept_foreign {after : List Event} (hkept : Kept K v) (h : Foreign v.log e after) :
    Kept K ⟨v.st, v.log ++ [e]⟩ := by
  obtain ⟨hjobs, hstream, hended, howner⟩ := ledger_foreign h
  have hdesk := h.1
  refine ⟨hkept.recorded.keep hjobs rfl rfl, fun fd t hfd => ?_, fun j => ?_, ?_⟩
  · obtain ⟨hown, hopen⟩ := hkept.tracks fd t hfd
    refine ⟨(congrFun howner fd).trans hown, mem_openFds_foreign h hopen ?_⟩
    rw [hown]
    exact Option.some_ne_none t
  · refine (hkept.jobs j).untouched ⟨rfl, rfl, congrFun hjobs.state j, congrFun hstream j,
      congrFun hended j, congrFun hjobs.status j, congrFun hjobs.cause j, fun status => ?_, ?_⟩
    · cases e <;> first | (cases hdesk; done) | simp
    · cases e <;> first | (cases hdesk; done) | simp
  · refine hkept.inOrder.append (fun _ _ _ _ h => h) (throughout_cons.mpr ⟨?_, throughout_nil⟩)
    cases e <;> first | (cases hdesk; done) | trivial

/-- What the monitor keeps, the pipes of active jobs are tracked, the descriptors of jobs are open, and
those of the connections are open and belong to no job. -/
structure Separate (K : Kernel) (connections : Table Fd Connection) (v : World ProcessMonitor) :
    Prop where
  kept : Kept K v
  held : Held v.st
  ownersOpen : OwnersOpen v.log
  apart : ∀ fd, (connections.find fd).isSome →
    fd ∈ openFds v.log ∧ (ledger v.log).owner fd = none

/-- Foreign events that close no connection. -/
theorem Separate.append (h : Separate K connections v) (hevents : Throughout Foreign v.log events)
    (hclosed : ∀ fd, .closed fd ∈ events → connections.find fd = none) :
    Separate K connections ⟨v.st, v.log ++ events⟩ := by
  induction events generalizing v with
  | nil => simpa using h
  | cons e events ih =>
    obtain ⟨he, hrest⟩ := throughout_cons.mp hevents
    have hgives : givesNothing e := by
      have hdesk := he.1
      cases e <;> first | (cases hdesk; done) | rfl
    have hconcat : Separate K connections ⟨v.st, v.log ++ [e]⟩ := by
      refine ⟨kept_foreign h.kept he, h.held,
        h.ownersOpen.append (List.forall_mem_singleton.mpr hgives),
        fun fd hfd => ?_⟩
      obtain ⟨hopen, howner⟩ := h.apart fd hfd
      refine ⟨(mem_openFds_concat _ _ _).mpr (Or.inr ⟨hopen, ?_⟩), ?_⟩
      · rintro rfl
        rw [hclosed fd List.mem_cons_self] at hfd
        cases hfd
      · rw [(ledger_foreign he).2.2.2, howner]
    have htail := ih hconcat hrest fun fd hfd => hclosed fd (List.mem_cons_of_mem e hfd)
    simpa using htail

theorem Separate.subset (h : Separate K connections v) {connections' : Table Fd Connection}
    (hsub : ∀ fd, (connections'.find fd).isSome → (connections.find fd).isSome) :
    Separate K connections' v := ⟨h.kept, h.held, h.ownersOpen, fun fd hfd => h.apart fd (hsub fd hfd)⟩

theorem Separate.monitorStep {l : ProcessMonitor.Label} {v' : World ProcessMonitor}
    (h : Separate K connections v) (hstep : ProcessMonitor.Step K l v v') (hwf : Wf v.st)
    (hfresh : FreshFds v'.log) : Separate K connections v' where
  kept := hstep.kept hwf h.kept hfresh
  held := hstep.held h.kept.tracks hfresh h.held
  ownersOpen := hstep.ownersOpen hfresh h.ownersOpen
  apart fd hfd := by
    obtain ⟨hopen, howner⟩ := h.apart fd hfd
    exact hstep.unowned h.kept.tracks hfresh hopen howner

/-- The descriptors of clients and jobs. -/
abbrev Moment.Separate (K : Kernel) (m : Moment) : Prop :=
  Daemon.Separate K m.world.st.connections m.monitorWorld

theorem isSome_set_of_find {c c' : Connection} (hfind : connections.find fd = some c) {fd' : Fd}
    (h : ((connections.set fd c').find fd').isSome) : (connections.find fd').isSome := by
  rw [Table.find_set] at h
  split_ifs at h with hfd
  · rw [hfd, hfind]
    rfl
  · exact h

theorem isSome_of_del {fd' : Fd} (h : ((connections.del fd).find fd').isSome) :
    (connections.find fd').isSome ∧ fd' ≠ fd := by
  rw [Table.find_del] at h
  split_ifs at h with hfd
  · cases h
  · exact ⟨h, hfd⟩

/-- One event that takes nothing from a descriptor. -/
theorem Separate.concat (h : Separate K connections v) (he : deskEvent e)
    (hdrawn : drawnFd e = none) : Separate K connections ⟨v.st, v.log ++ [e]⟩ := by
  refine h.append (throughout_cons.mpr ⟨⟨he, by simp [hdrawn]⟩, throughout_nil⟩) fun fd hfd => ?_
  rw [List.mem_singleton.mp hfd |>.symm] at hdrawn
  cases hdrawn

/-- Reading and writing a connection. -/
theorem Separate.tend {c c' : Connection} (h : Separate K connections v)
    (hfind : connections.find fd = some c) (htending : Tending fd c c' events) :
    Separate K (connections.set fd c') ⟨v.st, v.log ++ events⟩ := by
  have hnone := (h.apart fd (by rw [hfind]; rfl)).2
  refine Separate.subset (h.append ?_ fun fd' hfd' => ?_) fun fd' => isSome_set_of_find hfind
  · cases htending <;> simp [Foreign, deskEvent, drawnFd, hnone]
  · cases htending <;> simp at hfd'

/-- A new connection. -/
theorem Separate.opened (h : Separate K connections v) (hnew : fd ∉ openFds v.log) :
    Separate K (connections.set fd {}) ⟨v.st, v.log ++ [.opened fd]⟩ := by
  have hconcat := h.concat (e := .opened fd) rfl rfl
  refine ⟨hconcat.kept, h.held, hconcat.ownersOpen, fun fd' hfd' => ?_⟩
  rw [Table.find_set] at hfd'
  split_ifs at hfd' with hfd
  · subst hfd
    rw [mem_openFds_concat, ledger_concat]
    exact ⟨Or.inl rfl, not_not.mp fun hne => hnew (h.ownersOpen fd' hne)⟩
  · exact hconcat.apart fd' hfd'

/-- A connection is closed. -/
theorem Separate.closed (h : Separate K connections v) (hfind : (connections.find fd).isSome) :
    Separate K (connections.del fd) ⟨v.st, v.log ++ [.closed fd]⟩ := by
  have hnone := (h.apart fd hfind).2
  refine (h.subset fun fd' hfd' => (isSome_of_del hfd').1).append ?_ fun fd' hfd' => ?_
  · exact throughout_cons.mpr ⟨⟨rfl, by simp [drawnFd, hnone]⟩, throughout_nil⟩
  · obtain rfl := Event.closed.inj (List.mem_singleton.mp hfd')
    exact Table.find_del_self _ _

theorem Separate.chores (h : Separate K connections v) (hchores : ∀ e ∈ events, choreEvent e) :
    Separate K connections ⟨v.st, v.log ++ events⟩ :=
  h.append (foreign_of_choreEvents hchores _) fun fd hfd => by cases hchores _ hfd

theorem Step.separate (hstep : Step K l m m') (hsound : Sound n m) (hfresh : FreshFds m'.world.log)
    (h : m.Separate K) : m'.Separate K := by
  cases hstep with
  | attend hevents => exact h.chores hevents
  | expire hnow hread hevents => exact h.chores hevents
  | arm hjob hterminating hdeadline hgen hevents => exact h.chores hevents
  | fumble hgen hevents => exact h.chores hevents
  | take | spare | rearm => exact h.concat rfl rfl
  | tend hfind htending => exact h.tend hfind htending
  | @answer w due fd c connections request response hfind hresponding htruthful =>
    refine (h.concat (e := .answered fd request response) rfl rfl).subset fun fd' hfd' => ?_
    obtain ⟨frame, -, rfl⟩ | ⟨-, rfl⟩ := hresponding
    · exact isSome_set_of_find hfind hfd'
    · exact hfd'
  | watch hl hstep => exact h.monitorStep hstep hsound.wf hfresh
  | submit hid hnone htimeout => exact h.monitorStep (.submit hnone) hsound.wf hfresh
  | dequeue hstep => exact h.monitorStep hstep hsound.wf hfresh
  | misfire hl hslot hwaiting hstep => exact h.monitorStep hstep hsound.wf hfresh
  | run hslot hwaiting hstep hjob htimed hevents =>
    exact (Separate.monitorStep h hstep hsound.wf hfresh.left).chores hevents
  | release hnotified => exact h.monitorStep (.collect hnotified) hsound.wf hfresh
  | skip => exact h
  | terminate hdue hstep => exact h.monitorStep hstep hsound.wf hfresh
  | kill hstep => exact h.monitorStep hstep hsound.wf hfresh
  | @hangUp w due fd hfind =>
    have hclosed := (Separate.concat h (e := .unregistered fd) rfl rfl).closed hfind
    simp only [List.append_assoc, List.singleton_append] at hclosed
    exact hclosed
  | @accept w due fd events hnew hevents =>
    have hlog : w.log ++ .opened fd ::
        (events ++ [.connected fd { epollin := true, epollrdhup := true }]) =
        w.log ++ [.opened fd] ++ events ++
          [.connected fd { epollin := true, epollrdhup := true }] := by simp
    simp only [hlog] at hfresh
    have hopened := (Separate.opened h ((throughout_cons.mp hfresh.left.left.right).1 fd rfl)).chores
      hevents
    have hconnected := hopened.concat
      (e := .connected fd { epollin := true, epollrdhup := true }) rfl rfl
    simp only [List.append_assoc, List.cons_append] at hconnected
    exact hconnected
  | @refuse w due fd events hevents =>
    have hlog : w.log ++ .opened fd :: (events ++ [.closed fd]) =
        w.log ++ [.opened fd] ++ events ++ [.closed fd] := by simp
    simp only [hlog] at hfresh
    have hopened := (Separate.opened h ((throughout_cons.mp hfresh.left.left.right).1 fd rfl)).chores
      hevents
    have hclosed := hopened.closed (by rw [Table.find_set_self]; rfl)
    rw [Table.del_set] at hclosed
    simp only [List.append_assoc, List.cons_append] at hclosed
    exact hclosed

theorem separate_initial (s : Setup) : Moment.Separate K ⟨s.initial, []⟩ := by
  have hstart : Separate K ∅ ⟨{ sigchldFd := s.sigchldFd }, []⟩ :=
    ⟨kept_initial s.sigchldFd, (fun _ _ _ _ h => by cases h), fun fd hfd => absurd rfl hfd,
      fun fd hfd => by cases hfd⟩
  have hforeign : Throughout Foreign [] s.initial.log := by
    simp [Setup.initial, Foreign, deskEvent, choreEvent, drawnFd]
  refine hstart.append hforeign fun fd hfd => ?_
  simp at hfd

end Daemon

section Runs

open Daemon

variable {K : Kernel} {s : Setup} {w : World Daemon}

/-- The daemon at any moment of a run, between two of its steps. -/
def During (K : Kernel) (s : Setup) (w : World Daemon) : Prop :=
  ∃ due, Walk (Step K) Set.univ ⟨s.initial, []⟩ ⟨w, due⟩

theorem Ran.during (h : Ran K s w) : During K s w := h.walk

theorem Between.during (h : Between K s w) : During K s w := ⟨[], h⟩

/-- As long as no call returns a descriptor that is open, the daemon's monitor keeps what it keeps
on its own, and clients and jobs hold different descriptors. -/
theorem During.separate (h : During K s w) (hfresh : FreshFds w.log) :
    Separate K w.st.connections (monitorWorld w) := by
  obtain ⟨due, hwalk⟩ := h
  exact (sound_invariant_under (P := Moment.Separate K) (fun log events => FreshFds.left)
    (fun _ _ _ hs hstep hfresh ih => hstep.separate hs hfresh ih) hwalk (sound_initial s)
    (separate_initial s) hfresh).2

theorem During.sound (h : During K s w) : ∃ due, Sound s.maxRunning ⟨w, due⟩ := by
  obtain ⟨due, hwalk⟩ := h
  exact ⟨due, sound_of_walk hwalk (sound_initial s)⟩

end Runs

end Runnerd
