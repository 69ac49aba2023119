import Runnerd.DaemonRuns
import Runnerd.SubmitCodec

/-!
# Failures of clients

What an event of a client or of the listener can break. Whatever a client sends, however `read`, `write`
and `epoll_ctl` fail and whatever its requests throw, the main loop goes on, the other connections keep
what they hold, and the jobs change only as the requests read from it are handled. The `catch` clause
stands around the serving of a client only: a client that cannot be taken in ends the main loop.
-/

namespace Runnerd

open Effect Effect.Prog Steps

namespace Daemon

/-- The daemon without its connections: the jobs, their processes, the queue, the slots, the deadlines
and the next id. -/
def work (d : Daemon) : Daemon := { d with connections := ∅ }

/-- The requests taken from a connection in these events. -/
def askedOf (events : List Event) : List Bytes :=
  events.filterMap fun e => match e with
    | .asked _ request => some request
    | _ => none

/-- Requests that are taken from connections and handled, each in the history that it comes in, with
nothing else done to the work of the daemon. -/
inductive Handles (K : Kernel) (w : World Daemon) : List Bytes → World Daemon → Prop where
  | refl : Handles K w [] w
  | idle {requests : List Bytes} {v v' : World Daemon} {events : List Event}
      (h : Handles K w requests v) (hlog : v'.log = v.log ++ events) (hasked : askedOf events = [])
      (hwork : v'.st.work = v.st.work) : Handles K w requests v'
  | handled {requests : List Bytes} {request : Bytes} {fd : Fd} {u v v' : World Daemon}
      {r : Except Exception Bytes} (h : Handles K w requests v)
      (hlog : u.log = v.log ++ [.asked fd request]) (hwork : u.st.work = v.st.work)
      (hrun : handleRequest K request u = (r, v')) : Handles K w (requests ++ [request]) v'

variable {K : Kernel} {s : Setup} {n : ℕ} {w w' : World Daemon} {fd : Fd} {c : Connection}
  {events : List Event}

theorem askedOf_append (events more : List Event) :
    askedOf (events ++ more) = askedOf events ++ askedOf more := List.filterMap_append

theorem askedOf_quiet (h : ∀ e ∈ events, loopEvent e = false) : askedOf events = [] := by
  apply List.filterMap_eq_nil_iff.mpr
  intro e he
  have hquiet := h e he
  cases e <;> first | rfl | cases hquiet

theorem Handles.trans {w'' : World Daemon} {requests more : List Bytes}
    (h : Handles K w requests w') (h' : Handles K w' more w'') :
    Handles K w (requests ++ more) w'' := by
  induction h' with
  | refl =>
    rw [List.append_nil]
    exact h
  | idle _ hlog hasked hwork ih => exact .idle ih hlog hasked hwork
  | handled _ hlog hwork hrun ih =>
    rw [← List.append_assoc]
    exact .handled ih hlog hwork hrun

/-! ## What a client's event does to the work -/

/-- The work changes only as requests are handled, those that the events show as taken. -/
def Worked (K : Kernel) (w w' : World Daemon) : Prop :=
  ∃ events, w'.log = w.log ++ events ∧ Handles K w (askedOf events) w'

theorem Worked.idle (hlog : w'.log = w.log ++ events) (hasked : askedOf events = [])
    (hwork : w'.st.work = w.st.work) : Worked K w w' := by
  refine ⟨events, hlog, ?_⟩
  rw [hasked]
  exact .idle .refl hlog hasked hwork

theorem Worked.trans {w'' : World Daemon} (h : Worked K w w') (h' : Worked K w' w'') :
    Worked K w w'' := by
  obtain ⟨events, hlog, hhandles⟩ := h
  obtain ⟨more, hmore, hhandles'⟩ := h'
  refine ⟨events ++ more, by rw [hmore, hlog, List.append_assoc], ?_⟩
  rw [askedOf_append]
  exact hhandles.trans hhandles'

/-- A request that is handled, and the events after it. -/
theorem Worked.asked {request : Bytes} {decoder : FrameDecoder} {r : Except Exception Bytes}
    {w₂ : World Daemon} {more : List Event} (hsound : Sound n ⟨w, []⟩)
    (hfind : w.st.connections.find fd = some c)
    (hpop : c.decoder.popFrame = .ok (request, decoder))
    (hrun : handleRequest K request (askedWorld w fd c request decoder) = (r, w₂))
    (hlog : w'.log = w₂.log ++ more) (hmore : askedOf more = []) (hwork : w'.st.work = w₂.st.work) :
    Worked K w w' := by
  obtain ⟨-, -, ⟨events, hlog₂, hquiet⟩, -⟩ := asked_spec hsound hfind hpop hrun
  refine ⟨.asked fd request :: events ++ more, by rw [hlog, hlog₂, List.append_assoc], ?_⟩
  have hasked : askedOf (.asked fd request :: events ++ more) = [] ++ [request] := by
    rw [askedOf_append, hmore, List.append_nil, List.nil_append]
    show request :: askedOf events = [request]
    rw [askedOf_quiet hquiet]
  rw [hasked]
  have htaken : (askedWorld w fd c request decoder).log = w.log ++ [.asked fd request] := rfl
  exact .idle (.handled .refl htaken rfl hrun) hlog hmore hwork

theorem Tending.askedOf_eq {c' : Connection} (h : Tending fd c c' events)
    (hplain : ∀ request, .asked fd request ∉ events) : askedOf events = [] := by
  cases h with
  | pop => exact absurd List.mem_cons_self (hplain _)
  | _ => rfl

theorem Act.worked (hact : Act K fd w w') (hsound : Sound n ⟨w, []⟩) : Worked K w w' := by
  cases hact with
  | attend hevents =>
    exact .idle rfl (askedOf_quiet fun e he => loopEvent_of_choreEvent (hevents e he)) rfl
  | tend hfind htending hplain => exact .idle rfl (htending.askedOf_eq hplain) rfl
  | rearm => exact .idle rfl rfl rfl
  | exchange hfind hpop hrun hframe => exact .asked hsound hfind hpop hrun rfl rfl rfl

theorem Break.worked (hbreak : Break K fd w w') (hsound : Sound n ⟨w, []⟩) : Worked K w w' := by
  cases hbreak with
  | choked => exact .idle rfl rfl rfl
  | thrown hfind hpop hrun =>
    exact .asked hsound hfind hpop hrun (List.append_nil _).symm rfl rfl
  | oversized hfind hpop hrun hframe => exact .asked hsound hfind hpop hrun rfl rfl rfl

theorem Carried.worked {α : Type} {r : Except Exception α} (hcarried : Carried K fd w r w')
    (hsound : Sound n ⟨w, []⟩) : Worked K w w' := by
  obtain ⟨w₁, hacts, hend⟩ := hcarried
  have hworked : Worked K w w₁ := by
    clear hend
    induction hacts with
    | refl => exact .idle (List.append_nil _).symm rfl rfl
    | tail hacts hlast ih =>
      exact ih.trans (hlast.worked ((served_of_acts hsound hacts).sound hsound))
  rcases hend with rfl | ⟨-, hbreak⟩
  · exact hworked
  · exact hworked.trans (hbreak.worked ((served_of_acts hsound hacts).sound hsound))

/-! ## Confinement -/

/-- What an event of this descriptor breaks, if anything, is its own connection. -/
structure Confined (K : Kernel) (fd : Fd) (eventMask : EventMask) (w : World Daemon) : Prop where
  returns : (dispatch K fd eventMask w).1 = .ok ()
  others : ∀ fd' ≠ fd, ∀ c, w.st.connections.find fd' = some c →
    (dispatch K fd eventMask w).2.st.connections.find fd' = some c
  worked : Worked K w (dispatch K fd eventMask w).2

/-- The answers of the kernel with which every client that waits is taken in. -/
def Admitted (K : Kernel) : Accepts → World Daemon → Prop
  | .client fd rest, w => Admits K w fd ∧ Admitted K rest (acceptedWorld w fd)
  | .interrupted rest, w => Admitted K rest w
  | .again, _ => True
  | .failed _, _ => False

/-- `acceptClients` returns where every client is taken in, and only there. -/
theorem acceptLoop_returns_iff (accepts : Accepts) (w : World Daemon) :
    (acceptLoop K accepts w).1 = .ok () ↔ Admitted K accepts w := by
  induction accepts generalizing w with
  | client fd rest ih =>
    rcases acceptLoop_client K fd rest w with ⟨hadmits, hnext⟩ | ⟨hnot, e, v, hthrow⟩
    · rw [hnext, ih]
      exact ⟨fun h => ⟨hadmits, h⟩, And.right⟩
    · rw [hthrow]
      constructor
      · intro h
        cases h
      · exact fun h => absurd h.1 hnot
  | interrupted rest ih => exact ih w
  | again => exact ⟨fun _ => trivial, fun _ => rfl⟩
  | failed e =>
    constructor
    · intro h
      cases h
    · exact False.elim

theorem acceptLoop_worked (accepts : Accepts) (hrun : acceptLoop K accepts w = (.ok (), w')) :
    Worked K w w' := by
  induction accepts generalizing w with
  | client fd rest ih =>
    rcases acceptLoop_client K fd rest w with ⟨-, hnext⟩ | ⟨-, e, v, hthrow⟩
    · have haccepted : Worked K w (acceptedWorld w fd) := .idle rfl rfl rfl
      exact haccepted.trans (ih (hnext.symm.trans hrun))
    · exact absurd (hthrow.symm.trans hrun) (by simp)
  | interrupted rest ih => exact ih hrun
  | again =>
    obtain rfl : w.emit (.called .accept4) = w' := congrArg Prod.snd hrun
    exact .idle rfl rfl rfl
  | failed e => cases hrun

theorem worked_dispatching (K : Kernel) (w : World Daemon) (fd : Fd) :
    Worked K w (dispatching w fd) := .idle rfl rfl rfl

theorem dispatch_client_worked (hsound : Sound n ⟨w, []⟩) (hroute : w.st.route fd = .client)
    (eventMask : EventMask) :
    wp (dispatch K fd eventMask) (fun r w' => r = .ok () ∧ Worked K w w') w := by
  obtain ⟨c, hfind⟩ := find_of_route hroute
  have hsound' := (servedAt_dispatching (K := K) w fd).sound hsound
  rcases hrun : serveClient K fd eventMask (dispatching w fd) with ⟨r, w₁⟩
  have hclient := wp_run (serveClient_spec (K := K) eventMask hsound' hfind) hrun
  have hworked := (worked_dispatching K w fd).trans (hclient.carried.worked hsound')
  apply wp_mono (dispatch_client_run hroute eventMask hrun)
  rintro r' w' ⟨hr, ⟨-, rfl⟩ | ⟨-, rfl⟩⟩
  · exact ⟨hr, hworked⟩
  · exact ⟨hr, hworked.trans (.idle rfl rfl rfl)⟩

theorem confined_of_returns (hsound : Sound n ⟨w, []⟩) {eventMask : EventMask}
    (hclient : w.st.route fd = .listener ∨ w.st.route fd = .client)
    (hreturns : (dispatch K fd eventMask w).1 = .ok ()) : Confined K fd eventMask w := by
  have hrun : dispatch K fd eventMask w = (.ok (), (dispatch K fd eventMask w).2) :=
    Prod.ext hreturns rfl
  refine ⟨hreturns, fun fd' hne c => dispatch_keeps hsound hrun (Or.inl hne), ?_⟩
  rcases hclient with hlistener | hclient
  · have haccepts := (dispatch_listener_run (K := K) hlistener eventMask).symm.trans hrun
    exact (worked_dispatching K w fd).trans (acceptLoop_worked _ haccepts)
  · exact (dispatch_client_worked hsound hclient eventMask).2

end Daemon

/-! ## Runs -/

open Daemon

variable {K : Kernel} {s : Setup} {w w' : World Daemon} {fd : Fd}

/-- Whatever a client does, an event of its connection is confined to it; an event of the listener is
confined where every client that waits can be taken in, and only there. -/
theorem clientFailures_confined (h : Between K s w) (eventMask : EventMask)
    (hclient : w.st.route fd = .listener ∨ w.st.route fd = .client) :
    Confined K fd eventMask w ↔ (w.st.route fd = .listener →
      Admitted K (K.accept4 (dispatching w fd).log) (dispatching w fd)) := by
  constructor
  · intro hconfined hlistener
    rw [← acceptLoop_returns_iff, ← dispatch_listener_run hlistener eventMask]
    exact hconfined.returns
  · intro hadmitted
    apply confined_of_returns h.sound hclient
    rcases hclient with hlistener | hclient
    · rw [dispatch_listener_run hlistener eventMask, acceptLoop_returns_iff]
      exact hadmitted hlistener
    · exact (dispatch_client_worked h.sound hclient eventMask).1

/-- A client connects and sends a length that no frame may have. -/
def garbledScript : Kernel := { Kernel.quiet with
  epollWait := fun log => .ready ([[(3, { epollin := true })], [(7, { epollin := true })]].getD
    (rounds log) [])
  accept4 := fun log => .client (lowestFd log) .again
  read := fun _ _ => .data [255, 255, 255, 255] .eof }

theorem clientFailures_confined_run :
    Confined garbledScript 7 { epollin := true } (after garbledScript oneSlot 1) := by
  have hreached : Reachable garbledScript oneSlot (after garbledScript oneSlot 1) :=
    reachable_after (by decide +kernel)
  have hroute : (after garbledScript oneSlot 1).st.route 7 = .client := by decide +kernel
  have hconfined : ∀ w : World Daemon, Between garbledScript oneSlot w → w.st.route 7 = .client →
      Confined garbledScript 7 { epollin := true } w := by
    intro w h hclient
    apply (clientFailures_confined h _ (Or.inr hclient)).mpr
    intro hlistener
    rw [hclient] at hlistener
    cases hlistener
  generalize after garbledScript oneSlot 1 = w at hreached hroute ⊢
  exact hconfined w hreached.between hroute

/-- An exception that leaves the events of a batch has left one of them. -/
theorem dispatchAll_throws (h : Between K s w) {events : List (Fd × EventMask)} {e : Exception}
    (hrun : dispatchAll K events w = (.error e, w')) :
    ∃ pre fd eventMask post v, events = pre ++ (fd, eventMask) :: post ∧ Between K s v ∧
      dispatchAll K pre w = (.ok (), v) ∧ dispatch K fd eventMask v = (.error e, w') := by
  induction events generalizing w with
  | nil => cases hrun
  | cons event rest ih =>
    obtain ⟨fd, eventMask⟩ := event
    rcases bind_error_inv hrun with hfirst | ⟨_, w₁, hfirst, hrest⟩
    · exact ⟨[], fd, eventMask, rest, w, rfl, h, rfl, hfirst⟩
    · obtain ⟨due, hwalk, hok⟩ := wp_run (dispatch_spec h.sound fd eventMask) hfirst
      obtain rfl := hok rfl
      obtain ⟨pre, fd', eventMask', post, v, rfl, hv, hpre, hlast⟩ := ih (h.trans hwalk) hrest
      exact ⟨(fd, eventMask) :: pre, fd', eventMask', post, v, rfl, hv,
        (bind_of_ok hfirst).trans hpre, hlast⟩

/-- What ends the main loop: `epoll_wait` fails, the listener cannot take a client in, or the deadlines
or the monitor throw. Nothing that comes over a connection does. -/
theorem mainLoop_ends (h : Reachable K s w) {e : Exception}
    (hrun : iterate K w = (.error e, w')) :
    K.epollWait w.log = .failed ∨
      ∃ pre fd eventMask post v, K.epollWait w.log = .ready (pre ++ (fd, eventMask) :: post) ∧
        dispatchAll K pre (w.emit .woke) = (.ok (), v) ∧
        dispatch K fd eventMask v = (.error e, w') ∧
        (v.st.route fd = .timer ∨ v.st.route fd = .monitor ∨ v.st.route fd = .listener ∧
          ¬ Admitted K (K.accept4 (dispatching v fd).log) (dispatching v fd)) := by
  have hwait : epollWait K w = (.ok (K.epollWait w.log), w.emit .woke) := rfl
  have hround := (bind_of_ok hwait).symm.trans hrun
  cases hwaits : K.epollWait w.log with
  | failed => exact Or.inl rfl
  | interrupted =>
    rw [hwaits] at hround
    cases hround
  | ready events =>
    rw [hwaits] at hround
    obtain ⟨pre, fd, eventMask, post, v, rfl, hv, hpre, hlast⟩ :=
      dispatchAll_throws (h.between.trans (walk_woke w)) hround
    refine Or.inr ⟨pre, fd, eventMask, post, v, rfl, hpre, hlast, ?_⟩
    have hthrows : (dispatch K fd eventMask v).1 ≠ .ok () := by
      rw [hlast]
      exact fun hr => by cases hr
    cases hroute : v.st.route fd with
    | timer => exact Or.inl rfl
    | monitor => exact Or.inr (Or.inl rfl)
    | listener =>
      refine Or.inr (Or.inr ⟨rfl, fun hadmitted => hthrows ?_⟩)
      rw [dispatch_listener_run hroute eventMask, acceptLoop_returns_iff]
      exact hadmitted
    | client => exact absurd (dispatch_client_worked hv.sound hroute eventMask).1 hthrows
    | stranger =>
      rw [dispatch_stranger hroute eventMask] at hthrows
      exact absurd rfl hthrows

/-- A client submits a job, and the next client finds no descriptor left. -/
def crowdedScript : Kernel := { Kernel.quiet.withClient
    [[(3, { epollin := true })], [(7, { epollin := true })], [(3, { epollin := true })]]
    [[], submitPayload 0 [text "/a"]] with
  accept4 := fun log =>
    if rounds log ≤ 1 then .client (lowestFd log) .again else .failed (.other 24) }

/-- A job runs, and the main loop ends. -/
theorem mainLoop_ends_run :
    (after crowdedScript oneSlot 2).st.stateOf 1 = some .running ∧
      (crowdedScript.epollWait (after crowdedScript oneSlot 2).log = .failed ∨
        ∃ pre fd eventMask post v, crowdedScript.epollWait (after crowdedScript oneSlot 2).log =
            .ready (pre ++ (fd, eventMask) :: post) ∧
          dispatchAll crowdedScript pre ((after crowdedScript oneSlot 2).emit .woke) =
            (.ok (), v) ∧
          dispatch crowdedScript fd eventMask v = (.error (.runtimeError (text "accept4 failed")),
            (iterate crowdedScript (after crowdedScript oneSlot 2)).2) ∧
          (v.st.route fd = .timer ∨ v.st.route fd = .monitor ∨ v.st.route fd = .listener ∧
            ¬ Admitted crowdedScript (crowdedScript.accept4 (dispatching v fd).log)
              (dispatching v fd))) := by
  have hreached : Reachable crowdedScript oneSlot (after crowdedScript oneSlot 2) :=
    reachable_after (by decide +kernel)
  have hthrow : (iterate crowdedScript (after crowdedScript oneSlot 2)).1 =
      .error (.runtimeError (text "accept4 failed")) := by decide +kernel
  have hrunning : (after crowdedScript oneSlot 2).st.stateOf 1 = some .running := by
    decide +kernel
  generalize after crowdedScript oneSlot 2 = w at hreached hthrow hrunning ⊢
  exact ⟨hrunning, mainLoop_ends hreached (Prod.ext hthrow rfl)⟩

end Runnerd
