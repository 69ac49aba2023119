import Runnerd.Responses
import Runnerd.Descriptors

/-!
# Arrivals

What comes in over a connection. The requests taken from a connection are the frames at the head of
all that has been read from it, and what is left of these bytes stands in its decoder: nothing that a
client sends is lost, made up or taken twice. This needs that no call returns a descriptor that is
open, so that a pipe of a job is never taken for a client.
-/

namespace Runnerd

open Effect Effect.Prog Steps Trace

/-! ## Descriptors that the monitor leaves alone -/

namespace ProcessMonitor

variable {K : Kernel} {l : Label} {w w' : World ProcessMonitor} {fd : Fd}

/-- A launch closes only what it has opened. -/
theorem undrawn_of_run {h h' : Holdings} {log₀ log events : List Event}
    (habove : Holdings.Above h log₀ log) (hrun : h.run events = some h')
    (hfresh : Throughout Fresh log events) (hopen : fd ∈ openFds log₀) :
    ∀ e ∈ events, Daemon.drawnFd e ≠ some fd := by
  induction events generalizing h log with
  | nil => simp
  | cons e events ih =>
    obtain ⟨h₁, hstep, hrest⟩ := Holdings.run_cons hrun
    obtain ⟨hhead, htail⟩ := throughout_cons.mp hfresh
    refine List.forall_mem_cons.mpr ⟨fun hdrawn => ?_, ih (habove.step hstep hhead) hrest htail⟩
    unfold Holdings.step at hstep
    cases e with
    | closed fd' =>
      obtain rfl : fd' = fd := Option.some.inj hdrawn
      simp only at hstep
      split_ifs at hstep with hmem
      exact habove.disjoint fd' hmem hopen
    | received | reachedEof => cases hstep
    | _ => cases hdrawn

theorem append_cons_append (log : List Event) (e : Event) (events more : List Event) :
    log ++ e :: (events ++ more) = log ++ [e] ++ events ++ more := by simp

/-- The monitor takes nothing from a descriptor that is open and belongs to no job, and does not close
it. -/
theorem Step.undrawn (hstep : Step K l w w') (htracks : Tracks w) (hfresh : FreshFds w'.log)
    (hopen : fd ∈ openFds w.log) (howner : (ledger w.log).owner fd = none) :
    ∃ events, w'.log = w.log ++ events ∧ ∀ e ∈ events, Daemon.drawnFd e ≠ some fd := by
  have htracked : ∀ {fd' t}, w.st.trackedFds.find fd' = some t → fd' ≠ fd := by
    rintro fd' t hfind rfl
    rw [(htracks fd' t hfind).1] at howner
    cases howner
  have habove : ∀ j, Holdings.Above {} w.log (w.log ++ [.starting j]) := fun j =>
    (Holdings.above_start w.log).skip rfl (fun _ => by simp) fun _ _ => rfl
  cases hstep with
  | @idle _ e he =>
    refine ⟨[e], rfl, List.forall_mem_singleton.mpr ?_⟩
    cases e <;> first | (cases he; done) | simp [Daemon.drawnFd]
  | garble | collect => exact ⟨[], (List.append_nil _).symm, by simp⟩
  | receive hfind hactive => exact ⟨_, rfl, by simp [Daemon.drawnFd, htracked hfind]⟩
  | finish hfind hactive => exact ⟨_, rfl, by simp [Daemon.drawnFd, htracked hfind]⟩
  | @launchFailed _ j job events message hjob hqueued hlaunch =>
    obtain ⟨std, held, hstd, hrun, -, -⟩ := hlaunch
    simp only [append_cons_append _ _ events] at hfresh
    have hundrawn := undrawn_of_run (habove j) hrun hfresh.left.right hopen
    refine ⟨_, rfl, List.forall_mem_cons.mpr ⟨by simp [Daemon.drawnFd], ?_⟩⟩
    exact List.forall_mem_append.mpr ⟨hundrawn, by simp [Daemon.drawnFd]⟩
  | @abandoned _ j job events rest tracked launched message hjob hqueued hlaunch hrest htracked =>
    obtain ⟨std, held, hstd, hrun, hfds, -⟩ := hlaunch
    obtain ⟨std', held', hstd', hrun', -, -⟩ := hrest
    simp only [append_cons_append _ _ events] at hfresh
    simp only [append_cons_append _ _ rest] at hfresh
    have hundrawn := undrawn_of_run (habove j) hrun hfresh.left.left.left.right hopen
    have hadopted := above_adopted (j := j) (above_starting hrun hfresh.left.left.left.right) hfds
    have hundrawn' := undrawn_of_run hadopted (Holdings.run_rest hrun hrun') hfresh.left.right hopen
    refine ⟨_, rfl, List.forall_mem_cons.mpr ⟨by simp [Daemon.drawnFd], ?_⟩⟩
    refine List.forall_mem_append.mpr
      ⟨hundrawn, List.forall_mem_cons.mpr ⟨by simp [Daemon.drawnFd], ?_⟩⟩
    exact List.forall_mem_append.mpr ⟨hundrawn', by simp [Daemon.drawnFd]⟩
  | @started _ j job events launched hjob hqueued hlaunch hgroup hpid hnone hdistinct =>
    obtain ⟨std, held, hstd, hrun, hfds, -⟩ := hlaunch
    simp only [append_cons_append _ _ events] at hfresh
    have hundrawn := undrawn_of_run (habove j) hrun hfresh.left.right hopen
    refine ⟨_, rfl, List.forall_mem_cons.mpr ⟨by simp [Daemon.drawnFd], ?_⟩⟩
    exact List.forall_mem_append.mpr ⟨hundrawn, by simp [Daemon.drawnFd]⟩
  | _ => exact ⟨_, rfl, by simp [Daemon.drawnFd]⟩

end ProcessMonitor

namespace Daemon

/-! ## What has been read from a connection -/

/-- What has been read from the connection at a descriptor since it was accepted, up to its end. -/
structure Inbox where
  live : Bool := false
  arrived : Bytes := []
  deriving DecidableEq, Repr

def Inbox.step (fd : Fd) (x : Inbox) : Event → Inbox
  | .connected fd' _ => if fd' = fd then { live := true } else x
  | .closed fd' => if fd' = fd then { x with live := false } else x
  | .received fd' bytes =>
    if fd' = fd ∧ x.live then { x with arrived := x.arrived ++ bytes } else x
  | _ => x

def inbox (fd : Fd) (log : List Event) : Inbox := log.foldl (Inbox.step fd) {}

variable {K : Kernel} {s : Setup} {n : ℕ} {w w' : World Daemon} {m m' : Moment} {fd : Fd}
  {c c' : Connection} {log events : List Event} {l : Label}

theorem inbox_append (fd : Fd) (log events : List Event) :
    inbox fd (log ++ events) = events.foldl (Inbox.step fd) (inbox fd log) :=
  List.foldl_append

theorem inbox_concat (fd : Fd) (log : List Event) (e : Event) :
    inbox fd (log ++ [e]) = (inbox fd log).step fd e := inbox_append fd log [e]

/-- Events that take nothing from a descriptor and do not close it. -/
theorem inbox_undrawn (hdrawn : ∀ e ∈ events, drawnFd e ≠ some fd)
    (hkept : ∀ mask, .connected fd mask ∉ events) :
    inbox fd (log ++ events) = inbox fd log := by
  rw [inbox_append]
  induction events with
  | nil => rfl
  | cons e events ih =>
    obtain ⟨he, hrest⟩ := List.forall_mem_cons.mp hdrawn
    have hsame : (inbox fd log).step fd e = inbox fd log := by
      cases e with
      | connected fd' mask =>
        exact if_neg fun heq : fd' = fd => hkept mask (heq ▸ List.mem_cons_self)
      | closed fd' => exact if_neg fun heq : fd' = fd => he (congrArg some heq)
      | received fd' bytes => exact if_neg fun heq => he (congrArg some heq.1)
      | _ => rfl
    rw [List.foldl_cons, hsame]
    exact ih hrest fun mask hmem => hkept mask (List.mem_cons_of_mem _ hmem)

/-- After the end of a connection, what is read from its descriptor is not its client's. -/
theorem inbox_dead (hdead : (inbox fd log).live = false)
    (hkept : ∀ mask, .connected fd mask ∉ events) :
    inbox fd (log ++ events) = inbox fd log := by
  rw [inbox_append]
  generalize inbox fd log = x at hdead ⊢
  induction events with
  | nil => rfl
  | cons e events ih =>
    have hsame : x.step fd e = x := by
      cases e with
      | connected fd' mask =>
        exact if_neg fun heq : fd' = fd => hkept mask (heq ▸ List.mem_cons_self)
      | closed fd' =>
        show (if fd' = fd then { x with live := false } else x) = x
        rw [← hdead, ite_self]
      | received fd' bytes => exact if_neg (by simp [hdead])
      | _ => rfl
    rw [List.foldl_cons, hsame]
    exact ih fun mask hmem => hkept mask (List.mem_cons_of_mem _ hmem)

/-! ## Steps about something else -/

theorem drawnFd_of_choreEvent {e : Event} (h : choreEvent e) : drawnFd e = none := by
  cases e <;> first | rfl | cases h

/-- Nothing is read from a client by a step about something else, and only hanging up closes its
descriptor. -/
theorem Step.undrawn (hstep : Step K l m m') (hseparate : m.Separate K)
    (hfresh : FreshFds m'.world.log) (hsome : (m.world.st.connections.find fd).isSome)
    (hl : l.serving fd = false) (hstays : l ≠ .hangUp fd) :
    ∃ events, m'.world.log = m.world.log ++ events ∧ ∀ e ∈ events, drawnFd e ≠ some fd := by
  obtain ⟨hopen, howner⟩ := hseparate.apart fd hsome
  have hmonitor : ∀ {l' : ProcessMonitor.Label} {v : World ProcessMonitor},
      ProcessMonitor.Step K l' (monitorWorld m.world) v → FreshFds v.log →
        ∃ events, v.log = m.world.log ++ events ∧ ∀ e ∈ events, drawnFd e ≠ some fd :=
    fun hstep hfresh => hstep.undrawn hseparate.kept.tracks hfresh hopen howner
  have hchores : ∀ {events : List Event}, (∀ e ∈ events, choreEvent e) →
      ∀ e ∈ events, drawnFd e ≠ some fd := fun h e he => by simp [drawnFd_of_choreEvent (h e he)]
  have hother : ∀ {fd'}, (fd' == fd) = false → fd' ≠ fd := fun h heq => by simp [heq] at h
  cases hstep with
  | attend hevents => exact ⟨_, rfl, hchores hevents⟩
  | expire hnow hread hevents => exact ⟨_, rfl, hchores hevents⟩
  | arm hjob hterminating hdeadline hgen hevents => exact ⟨_, rfl, hchores hevents⟩
  | fumble hgen hevents => exact ⟨_, rfl, hchores hevents⟩
  | release | skip => exact ⟨[], (List.append_nil _).symm, by simp⟩
  | watch hl' hstep => exact hmonitor hstep hfresh
  | dequeue hstep => exact hmonitor hstep hfresh
  | misfire hl' hslot hwaiting hstep => exact hmonitor hstep hfresh
  | terminate hdue hstep => exact hmonitor hstep hfresh
  | kill hstep => exact hmonitor hstep hfresh
  | @run w v j rest job timeouts events hslot hwaiting hstep hjob htimed hevents =>
    obtain ⟨more, hmore, hundrawn⟩ := hmonitor hstep hfresh.left
    refine ⟨more ++ events, (congrArg (· ++ events) hmore).trans (List.append_assoc _ _ _), ?_⟩
    exact List.forall_mem_append.mpr ⟨hundrawn, hchores hevents⟩
  | @accept w due fd' events hnone hevents =>
    refine ⟨_, rfl, List.forall_mem_cons.mpr ⟨by simp [drawnFd], ?_⟩⟩
    exact List.forall_mem_append.mpr ⟨hchores hevents, by simp [drawnFd]⟩
  | @refuse w due fd' events hevents =>
    have hne : fd' ≠ fd := by
      rintro rfl
      exact (throughout_cons.mp hfresh.right).1 fd' rfl hopen
    refine ⟨_, rfl, List.forall_mem_cons.mpr ⟨by simp [drawnFd], ?_⟩⟩
    exact List.forall_mem_append.mpr ⟨hchores hevents, by simp [drawnFd, hne]⟩
  | @hangUp w due fd' hfind =>
    have hne : fd' ≠ fd := fun heq => hstays (heq ▸ rfl)
    exact ⟨_, rfl, by simp [drawnFd, hne]⟩
  | tend hfind htending =>
    have hne := hother hl
    refine ⟨_, rfl, ?_⟩
    cases htending <;> simp [drawnFd, hne]
  | take | rearm | answer | submit | spare => exact ⟨_, rfl, by simp [drawnFd]⟩

/-- What the history shows of a connection: its streams, and what has been read from it. -/
def shown (fd : Fd) (log : List Event) : Wire × Bytes := (wire fd log, (inbox fd log).arrived)

/-- What happens aside from a connection, as far as its streams and its arrivals go. -/
abbrev ShownAside (fd : Fd) : World Daemon → World Daemon → Prop :=
  Aside fd (shown fd) ({ interest := clientMask }, [])

/-- A connection is live while it stands in the table. -/
def Live (fd : Fd) (w : World Daemon) : Prop :=
  (inbox fd w.log).live = (w.st.connections.find fd).isSome

theorem Step.shown (hstep : Step K l m m') (hseparate : m.Separate K)
    (hfresh : FreshFds m'.world.log) (hlive : Live fd m.world) (hl : l.serving fd = false) :
    ShownAside fd m.world m'.world ∧ Live fd m'.world := by
  unfold Live at hlive ⊢
  by_cases hnew : l = .accept fd
  · subst hnew
    obtain ⟨-, hfind, events, hlog⟩ := hstep.accepted
    have hinbox : inbox fd m'.world.log = { live := true } := by
      rw [hlog, inbox_concat]
      exact if_pos rfl
    refine ⟨.renewed hlog (by simp) ?_ (Or.inl hfind), by rw [hinbox, hfind]; rfl⟩
    rw [Daemon.shown, hinbox, hlog, wire_concat]
    exact congrArg (·, []) (if_pos rfl)
  obtain ⟨events, hlog, hunspoken, hfind⟩ := hstep.unspoken hl hnew
  have hkept : ∀ mask, .connected fd mask ∉ events := fun mask hmem => by
    simpa [speaks] using hunspoken _ hmem
  have hpassed : (inbox fd m'.world.log).arrived = (inbox fd m.world.log).arrived →
      ShownAside fd m.world m'.world := fun harrived => by
    refine .passed hlog hkept ?_ (hfind.imp_right And.right)
    rw [Daemon.shown, harrived, hlog, wire_unspoken hunspoken]
    rfl
  cases hsome : (m.world.st.connections.find fd).isSome with
  | false =>
    -- the descriptor is no client's, before and after
    rw [hsome] at hlive
    have hsame : inbox fd m'.world.log = inbox fd m.world.log := by rw [hlog, inbox_dead hlive hkept]
    refine ⟨hpassed (by rw [hsame]), ?_⟩
    rw [hsame, hlive]
    rw [Option.isSome_eq_false_iff, Option.isNone_iff_eq_none] at hsome
    rcases hfind with hfind | ⟨-, hfind⟩ <;> simp [hfind, hsome]
  | true =>
    by_cases hstays : l = .hangUp fd
    · subst hstays
      have hclosed : m'.world.log = m.world.log ++ [.unregistered fd, .closed fd] ∧
          m'.world.st.connections.find fd = none := by
        cases hstep
        exact ⟨rfl, Table.find_del_self _ _⟩
      obtain ⟨hlog', hnone⟩ := hclosed
      have hsame : inbox fd m'.world.log = { inbox fd m.world.log with live := false } := by
        rw [hlog', inbox_append]
        exact if_pos rfl
      exact ⟨hpassed (by rw [hsame]), by rw [hsame, hnone]; rfl⟩
    · obtain ⟨events', hlog', hdrawn⟩ := hstep.undrawn hseparate hfresh hsome hl hstays
      obtain rfl : events = events' := List.append_cancel_left (hlog.symm.trans hlog')
      have hsame : inbox fd m'.world.log = inbox fd m.world.log := by
        rw [hlog, inbox_undrawn hdrawn hkept]
      refine ⟨hpassed (by rw [hsame]), ?_⟩
      rw [hsame, hlive]
      rcases hfind with hfind | ⟨hgone | hrefused, -⟩
      · rw [hfind]
      · exact absurd hgone hstays
      · -- a descriptor that is open is not returned for a new client
        subst hrefused
        have hopen := (hseparate.apart fd hsome).1
        cases hstep
        exact absurd hopen ((throughout_cons.mp hfresh.right).1 fd rfl)

theorem shown_of_walk {A : Set Label} (hA : ∀ l ∈ A, l.serving fd = false)
    (hwalk : Walk (Step K) A m m') (hsound : Sound n m) (hseparate : m.Separate K)
    (hlive : Live fd m.world) (hfresh : FreshFds m'.world.log) :
    ShownAside fd m.world m'.world ∧ Live fd m'.world := by
  have key := hwalk.invariant (P := fun m' => Sound n m' ∧ (FreshFds m'.world.log →
    m'.Separate K ∧ ShownAside fd m.world m'.world ∧ Live fd m'.world)) ?_
    ⟨hsound, fun _ => ⟨hseparate, Aside.refl fd _ _ m.world, hlive⟩⟩
  · exact (key.2 hfresh).2
  · rintro l hl m₁ m₂ hstep ⟨hsound₁, ih⟩
    refine ⟨hstep.sound hsound₁, fun hfresh₂ => ?_⟩
    obtain ⟨events, hlog⟩ := hstep.log_prefix
    obtain ⟨hseparate₁, hshown₁, hlive₁⟩ := ih (FreshFds.left (hlog ▸ hfresh₂))
    obtain ⟨hshown₂, hlive₂⟩ := hstep.shown hseparate₁ hfresh₂ hlive₁ (hA l hl)
    exact ⟨hstep.separate hsound₁ hfresh₂ hseparate₁, hshown₁.trans hshown₂, hlive₂⟩

/-- Nothing is read from a client while a request is handled. -/
theorem arrived_of_quiet {A : Set Label} (hA : A ⊆ {l | l.quiet}) (hwalk : Walk (Step K) A m m')
    (hsound : Sound n m) (hseparate : m.Separate K) (hlive : Live fd m.world)
    (hfresh : FreshFds m'.world.log) :
    (inbox fd m'.world.log).arrived = (inbox fd m.world.log).arrived ∧ Live fd m'.world := by
  have hserving : ∀ l ∈ A, l.serving fd = false := fun l hl => by
    have hquiet : l.quiet := hA hl
    cases l <;> first | rfl | cases hquiet
  obtain ⟨hshown, hlive'⟩ := shown_of_walk hserving hwalk hsound hseparate hlive hfresh
  refine ⟨?_, hlive'⟩
  cases hshown with
  | passed hlog hkept hseen hfind => exact congrArg Prod.snd hseen
  | @renewed pre post hlog hkept hseen hfind =>
    -- a quiet step takes no client in
    obtain ⟨-, events, hlog', hquiet⟩ := quiet_of_walk hA hwalk
    rw [hlog, List.append_assoc] at hlog'
    obtain rfl := List.append_cancel_left hlog'
    have hloud := hquiet (.connected fd clientMask) (by simp)
    cases hloud

/-! ## Acts -/

/-- All that has been read from a connection: the requests taken from it, and what stands in its
decoder. -/
def Taken (fd : Fd) (log : List Event) (c : Connection) : Prop :=
  ∃ stream, encodeFrames (wire fd log).asked = .ok stream ∧
    (inbox fd log).arrived = stream ++ c.decoder.buffer

/-- The history shows nothing new of a connection. -/
theorem Taken.passed (h : Taken fd log c) (hdecoder : c'.decoder = c.decoder)
    (hasked : (wire fd (log ++ events)).asked = (wire fd log).asked)
    (harrived : (inbox fd (log ++ events)).arrived = (inbox fd log).arrived) :
    Taken fd (log ++ events) c' := by
  unfold Taken
  rw [hasked, harrived, hdecoder]
  exact h

theorem inbox_chores (h : ∀ e ∈ events, choreEvent e) : inbox fd (log ++ events) = inbox fd log := by
  apply inbox_undrawn
  · intro e he
    simp [drawnFd_of_choreEvent (h e he)]
  · intro mask hmem
    cases h _ hmem

theorem wire_received (fd fd' : Fd) (log : List Event) (bytes : Bytes) :
    wire fd (log ++ [.received fd' bytes]) = wire fd log :=
  wire_quiet (by simp [loopEvent])

theorem arrived_received (fd : Fd) (log : List Event) (bytes : Bytes) :
    (inbox fd log).arrived <+: (inbox fd (log ++ [.received fd bytes])).arrived := by
  rw [inbox_concat, Inbox.step]
  split_ifs
  · exact List.prefix_append _ _
  · exact List.prefix_rfl

/-- What is read goes into the decoder. -/
theorem Taken.feed (h : Taken fd log c) (hlive : (inbox fd log).live) {bytes : Bytes}
    {decoder : FrameDecoder} (hfeed : c.decoder.feed bytes = (.ok (), decoder)) :
    Taken fd (log ++ [.received fd bytes]) { c with decoder } := by
  obtain ⟨stream, hstream, harrived⟩ := h
  refine ⟨stream, ?_, ?_⟩
  · rw [wire_received]
    exact hstream
  · rw [inbox_concat, Inbox.step, if_pos ⟨rfl, hlive⟩, FrameDecoder.feed_ok hfeed]
    simp only [harrived, List.append_assoc]

/-- A request is taken from the decoder. -/
theorem Taken.pop (h : Taken fd log c) {request : Bytes} {decoder : FrameDecoder}
    (hpop : c.decoder.popFrame = .ok (request, decoder)) :
    Taken fd (log ++ [.asked fd request]) { c with decoder } := by
  obtain ⟨stream, hstream, harrived⟩ := h
  obtain ⟨frame, hframe, hbuffer⟩ :=
    encodeFrame_of_nextFrame (FrameDecoder.nextFrame_of_popFrame hpop)
  refine ⟨stream ++ frame, ?_, ?_⟩
  · rw [wire_concat, Wire.step, if_pos rfl]
    exact encodeFrames_concat hstream hframe
  · rw [inbox_concat, List.append_assoc, ← hbuffer]
    exact harrived

theorem Live.keep (h : Live fd w) (hfind : w.st.connections.find fd = some c)
    (hfind' : w'.st.connections.find fd = some c')
    (hsame : (inbox fd w'.log).live = (inbox fd w.log).live) : Live fd w' := by
  unfold Live at h ⊢
  rw [hsame, h, hfind, hfind']
  rfl

/-- Reading and writing loses nothing of what has been read. -/
theorem Tending.taken (htending : Tending fd c c' events) (h : Taken fd log c)
    (hlive : (inbox fd log).live) (hplain : ∀ request, .asked fd request ∉ events)
    (hfed : ∀ bytes, .received fd bytes ∈ events → c.decoder.feed bytes = (.ok (), c'.decoder)) :
    Taken fd (log ++ events) c' ∧ (inbox fd (log ++ events)).live = (inbox fd log).live := by
  cases htending with
  | feed hfeed =>
    refine ⟨h.feed hlive hfeed, ?_⟩
    rw [inbox_concat, Inbox.step, if_pos ⟨rfl, hlive⟩]
  | choke hfeed =>
    have hok := hfed _ List.mem_cons_self
    rw [hfeed] at hok
    cases (Prod.mk.inj hok).1
  | pop => exact absurd List.mem_cons_self (hplain _)
  | write hpending hbytes =>
    refine ⟨h.passed rfl ?_ ?_, ?_⟩
    · rw [wire_concat, Wire.step, if_pos rfl]
    · rw [inbox_concat]
      rfl
    · rw [inbox_concat]
      rfl
  | clear hdone =>
    rw [List.append_nil]
    exact ⟨h, rfl⟩
  | finish =>
    refine ⟨h.passed rfl ?_ ?_, ?_⟩
    · rw [wire_quiet (by simp [loopEvent])]
    · rw [inbox_concat]
      rfl
    · rw [inbox_concat]
      rfl

/-- A request is taken and handled, however that ends. -/
theorem taken_of_asked (hbetween : Between K s w) (hlive : Live fd w)
    (hfind : w.st.connections.find fd = some c) (htaken : Taken fd w.log c) {request : Bytes}
    {decoder : FrameDecoder} {r : Except Exception Bytes}
    (hpop : c.decoder.popFrame = .ok (request, decoder))
    (hrun : handleRequest K request (askedWorld w fd c request decoder) = (r, w'))
    (hfresh : FreshFds w'.log) : Taken fd w'.log { c with decoder } ∧ Live fd w' := by
  set v := askedWorld w fd c request decoder with hv
  have hpopped : ServedAt K fd w v := ServedAt.tend hfind (Tending.pop hpop)
  have hbetween' : Between K s v := hbetween.trans (hpopped.1.mono (Set.subset_univ _))
  obtain ⟨hrequested, -⟩ := wp_run (handleRequest_spec hbetween'.sound request) hrun
  have hfresh' : FreshFds v.log := hfresh.before (prefix_of_walk hrequested.1)
  have hlive' : Live fd v := hlive.keep hfind (Table.find_set_self _ _ _) (by
    rw [hv, askedWorld, inbox_concat]
    rfl)
  have htaken' : Taken fd v.log { c with decoder } := htaken.pop hpop
  obtain ⟨harrived, hlive''⟩ := arrived_of_quiet requests_le_quiet hrequested.1 hbetween'.sound
    (hbetween'.during.separate hfresh') hlive' hfresh
  obtain ⟨-, events, hlog, hquiet⟩ := quiet_of_walk requests_le_quiet hrequested.1
  simp only at hlog harrived
  refine ⟨?_, hlive''⟩
  rw [hlog] at harrived ⊢
  exact htaken'.passed rfl (by rw [wire_quiet hquiet]) harrived

/-- Later in the run, and with the same connection. -/
def Onward (K : Kernel) (fd : Fd) (w w' : World Daemon) : Prop :=
  Walk (Step K) Set.univ ⟨w, []⟩ ⟨w', []⟩ ∧
    ∃ events, w'.log = w.log ++ events ∧ ∀ mask, .connected fd mask ∉ events

theorem Onward.trans {w'' : World Daemon} (h : Onward K fd w w') (h' : Onward K fd w' w'') :
    Onward K fd w w'' := by
  obtain ⟨hwalk, events, hlog, hkept⟩ := h
  obtain ⟨hwalk', more, hmore, hkept'⟩ := h'
  refine ⟨hwalk.trans hwalk', events ++ more, by rw [hmore, hlog, List.append_assoc], ?_⟩
  exact fun mask hmem => (List.mem_append.mp hmem).elim (hkept mask) (hkept' mask)

theorem ServedAt.onward (h : ServedAt K fd w w') (hlog : w'.log = w.log ++ events)
    (hkept : ∀ mask, .connected fd mask ∉ events) : Onward K fd w w' :=
  ⟨h.1.mono (Set.subset_univ _), events, hlog, hkept⟩

/-- The response came of handling the request, while this connection was there. -/
def Handled (K : Kernel) (s : Setup) (fd : Fd) (w : World Daemon) (request response : Bytes) : Prop :=
  ∃ v v', Between K s v ∧ handleRequest K request v = (.ok response, v') ∧ Onward K fd v' w

/-- Every response came of handling its request. -/
def AllHandled (K : Kernel) (s : Setup) (fd : Fd) (w : World Daemon) : Prop :=
  ∀ request response, (request, response) ∈ (wire fd w.log).answered →
    Handled K s fd w request response

theorem AllHandled.onward (h : AllHandled K s fd w) (honward : Onward K fd w w')
    (hsame : (wire fd w'.log).answered = (wire fd w.log).answered) : AllHandled K s fd w' := by
  intro request response hmem
  rw [hsame] at hmem
  obtain ⟨v, v', hbetween, hrun, honward'⟩ := h request response hmem
  exact ⟨v, v', hbetween, hrun, honward'.trans honward⟩

/-- A request is taken and handled. -/
theorem handled_of_asked (hbetween : Between K s w) (hfind : w.st.connections.find fd = some c)
    (h : AllHandled K s fd w) {request : Bytes} {decoder : FrameDecoder}
    {r : Except Exception Bytes} (hpop : c.decoder.popFrame = .ok (request, decoder))
    (hrun : handleRequest K request (askedWorld w fd c request decoder) = (r, w')) :
    wire fd w'.log = { wire fd w.log with asked := (wire fd w.log).asked ++ [request] } ∧
      AllHandled K s fd w' := by
  obtain ⟨hserved, -, ⟨events, hlog, hquiet⟩, -⟩ := asked_spec hbetween.sound hfind hpop hrun
  have hwire : wire fd w'.log =
      { wire fd w.log with asked := (wire fd w.log).asked ++ [request] } := by
    rw [hlog, List.append_cons, wire_quiet hquiet, wire_concat, Wire.step, if_pos rfl]
  have hkept : ∀ mask, .connected fd mask ∉ .asked fd request :: events := fun mask hmem => by
    have hloud : loopEvent (.connected fd mask) = true := rfl
    rw [hquiet _ ((List.mem_cons.mp hmem).resolve_left (by simp))] at hloud
    cases hloud
  exact ⟨hwire, h.onward (hserved.onward hlog hkept) (by rw [hwire])⟩

/-- A request is answered with what came of handling it. -/
theorem handled_of_answered (hbetween : Between K s w) (hfind : w.st.connections.find fd = some c)
    (h : AllHandled K s fd w) {request response : Bytes} {decoder : FrameDecoder}
    {v : World Daemon} (hpop : c.decoder.popFrame = .ok (request, decoder))
    (hrun : handleRequest K request (askedWorld w fd c request decoder) = (.ok response, v))
    (hserved : ServedAt K fd v w') (hlog : w'.log = v.log ++ [.answered fd request response]) :
    AllHandled K s fd w' := by
  have hpopped : ServedAt K fd w (askedWorld w fd c request decoder) :=
    ServedAt.tend hfind (Tending.pop hpop)
  have honward : Onward K fd v w' := hserved.onward hlog (by simp)
  intro request' response' hmem
  rw [hlog, wire_concat, Wire.step, if_pos rfl, List.mem_append, List.mem_singleton] at hmem
  rcases hmem with hmem | hmem
  · obtain ⟨v₁, v₂, hbetween', hrun', honward'⟩ :=
      (handled_of_asked hbetween hfind h hpop hrun).2 request' response' hmem
    exact ⟨v₁, v₂, hbetween', hrun', honward'.trans honward⟩
  · obtain ⟨rfl, rfl⟩ := Prod.mk.inj hmem
    exact ⟨_, v, hbetween.trans (hpopped.1.mono (Set.subset_univ _)), hrun, honward⟩

/-- An act does not make a new connection, and an answer is the response that was computed. -/
theorem Act.handled (hact : Act K fd w w') (hbetween : Between K s w)
    (h : AllHandled K s fd w) : AllHandled K s fd w' := by
  have hserved := hact.served hbetween.sound
  cases hact with
  | attend hevents =>
    refine h.onward (hserved.onward rfl fun mask hmem => ?_) ?_
    · cases hevents _ hmem
    · rw [wire_chores hevents]
  | tend hfind htending hplain hfed =>
    refine h.onward (hserved.onward rfl fun mask hmem => ?_) ?_
    · cases htending <;> simp at hmem
    · cases htending with
      | feed | choke | finish => rw [wire_quiet (by simp [loopEvent])]
      | pop => exact absurd List.mem_cons_self (hplain _)
      | write => rw [wire_concat, Wire.step, if_pos rfl]
      | clear => rw [List.append_nil]
  | rearm =>
    refine h.onward (hserved.onward rfl (by simp)) ?_
    rw [World.emit_log, wire_concat, Wire.step, if_pos rfl]
  | exchange hfind hpop hrun hframe =>
    obtain ⟨-, hsame, -, htruthful⟩ := asked_spec hbetween.sound hfind hpop hrun
    have hanswer := @ServedAt.answer K _ fd _ _ _ _ (find_of_asked hsame)
      (Or.inl ⟨_, hframe, rfl⟩) (htruthful _ rfl)
    exact handled_of_answered hbetween hfind h hpop hrun hanswer rfl

/-- A connection whose client is served. -/
structure Attended (K : Kernel) (s : Setup) (fd : Fd) (w : World Daemon) (c : Connection) : Prop where
  live : Live fd w
  find : w.st.connections.find fd = some c
  sequenced : Sequenced (wire fd w.log) c
  taken : Taken fd w.log c
  handled : AllHandled K s fd w

theorem Act.attended (hact : Act K fd w w') (hbetween : Between K s w) (hfresh : FreshFds w'.log)
    (h : Attended K s fd w c) : ∃ c', Attended K s fd w' c' := by
  obtain ⟨hlive, hfind, hsequenced, htaken, hhandled⟩ := h
  obtain ⟨c', hfind', hsequenced'⟩ := hact.sequenced hbetween.sound hfind hsequenced
  have hopen : (inbox fd w.log).live := by
    rw [hlive, hfind]
    rfl
  suffices hkept : Live fd w' ∧ Taken fd w'.log c' from
    ⟨c', hkept.1, hfind', hsequenced', hkept.2, hact.handled hbetween hhandled⟩
  cases hact with
  | attend hevents =>
    obtain rfl := Option.some.inj (hfind.symm.trans hfind')
    refine ⟨hlive.keep hfind hfind (by rw [inbox_chores hevents]), ?_⟩
    exact htaken.passed rfl (by rw [wire_chores hevents]) (by rw [inbox_chores hevents])
  | tend hfind₁ htending hplain hfed =>
    obtain rfl := Option.some.inj (hfind.symm.trans hfind₁)
    obtain rfl := Option.some.inj ((Table.find_set_self _ _ _).symm.trans hfind')
    obtain ⟨htaken', hsame⟩ := htending.taken htaken hopen hplain hfed
    exact ⟨hlive.keep hfind hfind' hsame, htaken'⟩
  | rearm hfind₁ =>
    obtain rfl := Option.some.inj (hfind.symm.trans hfind')
    refine ⟨hlive.keep hfind hfind (by rw [World.emit_log, inbox_concat]; rfl), ?_⟩
    refine htaken.passed rfl ?_ (by rw [inbox_concat]; rfl)
    rw [wire_concat, Wire.step, if_pos rfl]
  | @exchange v c₁ request response frame decoder hfind₁ hpop hrun hframe =>
    obtain rfl := Option.some.inj (hfind.symm.trans hfind₁)
    obtain rfl := Option.some.inj ((Table.find_set_self _ _ _).symm.trans hfind')
    have hsame := (asked_spec hbetween.sound hfind hpop hrun).2.1
    obtain ⟨htaken', hlive'⟩ := taken_of_asked hbetween hlive hfind htaken hpop hrun hfresh.left
    refine ⟨hlive'.keep (find_of_asked hsame) hfind' ?_, ?_⟩
    · show (inbox fd (v.log ++ [_])).live = _
      rw [inbox_concat]
      rfl
    · refine htaken'.passed rfl ?_ (by rw [inbox_concat]; rfl)
      rw [wire_concat, Wire.step, if_pos rfl]

theorem attended_of_acts (hacts : Acts K fd w w') (hbetween : Between K s w)
    (hfresh : FreshFds w'.log) (h : Attended K s fd w c) :
    Between K s w' ∧ ∃ c', Attended K s fd w' c' := by
  induction hacts with
  | refl => exact ⟨hbetween, c, h⟩
  | @tail v w' hacts hlast ih =>
    have hserved := served_of_acts hbetween.sound hacts
    have hlast' := hlast.served (hserved.sound hbetween.sound)
    obtain ⟨hbetween', c', h'⟩ := ih (hfresh.before (prefix_of_walk hlast'.1))
    exact ⟨hbetween'.trans (hlast'.1.mono (Set.subset_univ _)), hlast.attended hbetween' hfresh h'⟩

/-! ## Conversations -/

/-- What the history shows of a connection is a conversation, which may have been broken off: requests
that were sent, responses that came of handling them, and of these responses the first ones. -/
structure Faithful (K : Kernel) (s : Setup) (fd : Fd) (w : World Daemon) : Prop where
  asked : ∃ stream, encodeFrames (wire fd w.log).asked = .ok stream ∧
    stream <+: (inbox fd w.log).arrived
  answered : (wire fd w.log).answered.map Prod.fst <+: (wire fd w.log).asked
  handled : AllHandled K s fd w
  sent : ∃ framed stream, framed <+: (wire fd w.log).answered.map Prod.snd ∧
    encodeFrames framed = .ok stream ∧ (wire fd w.log).sent <+: stream

theorem Faithful.onward (h : Faithful K s fd w) (honward : Onward K fd w w')
    (hshown : shown fd w'.log = shown fd w.log) : Faithful K s fd w' := by
  obtain ⟨hwire, harrived⟩ := Prod.mk.inj hshown
  constructor
  · rw [hwire, harrived]
    exact h.asked
  · rw [hwire]
    exact h.answered
  · exact h.handled.onward honward (by rw [hwire])
  · rw [hwire]
    exact h.sent

/-- A connection that nothing has gone over. -/
theorem faithful_new {interest : EventMask} (hshown : shown fd w.log = ({ interest }, [])) :
    Faithful K s fd w := by
  obtain ⟨hwire, harrived⟩ := Prod.mk.inj hshown
  constructor
  · rw [hwire]
    exact ⟨[], rfl, List.nil_prefix⟩
  · rw [hwire]
    exact List.nil_prefix
  · intro request response hmem
    rw [hwire] at hmem
    cases hmem
  · rw [hwire]
    exact ⟨[], [], List.nil_prefix, rfl, List.nil_prefix⟩

/-- Where a client is served, nothing is broken off. -/
theorem Attended.faithful (h : Attended K s fd w c) : Faithful K s fd w where
  asked := by
    obtain ⟨stream, hstream, harrived⟩ := h.taken
    exact ⟨stream, hstream, harrived ▸ List.prefix_append _ _⟩
  answered := h.sequenced.asked ▸ List.prefix_rfl
  handled := h.handled
  sent := ⟨_, _, List.prefix_rfl, h.sequenced.stream, List.prefix_append _ _⟩

theorem Break.faithful (hbreak : Break K fd w w') (hbetween : Between K s w)
    (hfresh : FreshFds w'.log) (h : Attended K s fd w c) : Faithful K s fd w' := by
  have hserved := hbreak.served hbetween.sound
  have hsent := h.faithful.sent
  obtain ⟨hlive, hfind, hsequenced, htaken, hhandled⟩ := h
  cases hbreak with
  | @choked c₁ bytes decoder e hfind₁ hfeed =>
    have hwire := wire_received fd fd w.log bytes
    obtain ⟨stream, hstream, heq⟩ := htaken
    constructor
    · refine ⟨stream, by rw [hwire, hstream],
        List.IsPrefix.trans ?_ (arrived_received fd w.log bytes)⟩
      rw [heq]
      exact List.prefix_append _ _
    · rw [hwire, hsequenced.asked]
    · exact hhandled.onward (hserved.onward rfl (by simp)) (by rw [hwire])
    · rw [hwire]
      exact hsent
  | @thrown _ c₁ request decoder e hfind₁ hpop hrun =>
    obtain rfl := Option.some.inj (hfind.symm.trans hfind₁)
    obtain ⟨⟨stream, hstream, harrived⟩, -⟩ :=
      taken_of_asked hbetween hlive hfind htaken hpop hrun hfresh
    obtain ⟨hwire, hasked⟩ := handled_of_asked hbetween hfind hhandled hpop hrun
    constructor
    · exact ⟨stream, hstream, harrived ▸ List.prefix_append _ _⟩
    · rw [hwire, ← hsequenced.asked]
      exact List.prefix_append _ _
    · exact hasked
    · rw [hwire]
      exact hsent
  | @oversized v c₁ request response decoder e hfind₁ hpop hrun hframe =>
    obtain rfl := Option.some.inj (hfind.symm.trans hfind₁)
    obtain ⟨⟨stream, hstream, harrived⟩, -⟩ :=
      taken_of_asked hbetween hlive hfind htaken hpop hrun hfresh.left
    have hwire := (handled_of_asked hbetween hfind hhandled hpop hrun).1
    obtain ⟨-, hsame, -, htruthful⟩ := asked_spec hbetween.sound hfind hpop hrun
    have hanswer := @ServedAt.answer K _ fd _ _ _ _ (find_of_asked hsame)
      (Or.inr ⟨⟨_, hframe⟩, rfl⟩) (htruthful _ rfl)
    have hwire' : wire fd (v.log ++ [.answered fd request response]) =
        { wire fd w.log with
          asked := (wire fd w.log).asked ++ [request]
          answered := (wire fd w.log).answered ++ [(request, response)] } := by
      rw [wire_concat, Wire.step, if_pos rfl, hwire]
    have hinbox : inbox fd (v.log ++ [.answered fd request response]) = inbox fd v.log := by
      rw [inbox_concat]
      rfl
    constructor
    · refine ⟨stream, ?_, ?_⟩
      · rw [World.emit_log, hwire', ← hstream, hwire]
      · rw [World.emit_log, hinbox, harrived]
        exact List.prefix_append _ _
    · rw [World.emit_log, hwire']
      simp only [List.map_append, List.map_cons, List.map_nil, hsequenced.asked]
      exact List.prefix_rfl
    · exact handled_of_answered hbetween hfind hhandled hpop hrun hanswer rfl
    · -- the response that does not fit is not sent
      obtain ⟨framed, stream', hframed, hstream', hbegins⟩ := hsent
      rw [World.emit_log, hwire']
      refine ⟨framed, stream', hframed.trans ?_, hstream', hbegins⟩
      simp only [List.map_append]
      exact List.prefix_append _ _

/-! ## Runs -/

theorem Aside.faithful (h : ShownAside fd w w')
    (hwalk : Walk (Step K) Set.univ ⟨w, []⟩ ⟨w', []⟩) (hfaithful : Faithful K s fd w) :
    Faithful K s fd w' := by
  cases h with
  | passed hlog hkept hseen hfind => exact hfaithful.onward ⟨hwalk, _, hlog, hkept⟩ hseen
  | renewed hlog hkept hseen hfind => exact faithful_new hseen

/-- Hanging up says nothing more of a connection, and ends it. -/
theorem faithful_hungUp (h : Faithful K s fd w) (hsome : (w.st.connections.find fd).isSome) :
    Faithful K s fd (hungUp w fd) ∧ Live fd (hungUp w fd) := by
  have hinbox : inbox fd (w.log ++ [.unregistered fd, .closed fd]) =
      { inbox fd w.log with live := false } := by
    rw [inbox_append]
    exact if_pos rfl
  constructor
  · refine h.onward ⟨Walk.single trivial (Step.hangUp hsome), _, rfl, by simp⟩ ?_
    show shown fd (w.log ++ [.unregistered fd, .closed fd]) = shown fd w.log
    rw [shown, hinbox, wire_quiet (by simp [loopEvent])]
    rfl
  · show (inbox fd (w.log ++ [.unregistered fd, .closed fd])).live =
      ((w.st.connections.del fd).find fd).isSome
    rw [hinbox, Table.find_del_self]
    rfl

end Daemon

open Daemon

variable {K : Kernel} {s : Setup} {w w' : World Daemon} {fd : Fd} {c : Connection}

/-- What holds of the connections of a descriptor between two events. -/
structure Upheld (K : Kernel) (s : Setup) (fd : Fd) (w : World Daemon) : Prop where
  live : Live fd w
  faithful : Faithful K s fd w
  taken : ∀ c, w.st.connections.find fd = some c → Taken fd w.log c

/-- An event of a client. -/
theorem dispatch_client_kept (h : Dispatched K s w) (hroute : w.st.route fd = .client)
    (hkept : Upheld K s fd w) {eventMask : EventMask}
    (hrun : dispatch K fd eventMask w = (.ok (), w')) (hfresh : FreshFds w'.log) :
    Upheld K s fd w' := by
  obtain ⟨c, hfind⟩ := find_of_route hroute
  have htaking := servedAt_dispatching (K := K) w fd
  have hbetween : Between K s (dispatching w fd) :=
    h.between.trans (htaking.1.mono (Set.subset_univ _))
  have hinbox : inbox fd (dispatching w fd).log = inbox fd w.log := inbox_concat fd w.log _
  have hdispatching : (dispatching w fd).log = w.log ++ [.dispatching fd] := rfl
  have hattended : Attended K s fd (dispatching w fd) c := by
    refine ⟨?_, hfind, ?_, ?_, ?_⟩
    · exact hkept.live.keep hfind hfind (by rw [hinbox])
    · rw [wire_dispatching]
      exact (h.atRest hfind).toSequenced
    · exact (hkept.taken c hfind).passed rfl (by rw [← hdispatching, wire_dispatching])
        (by rw [← hdispatching, hinbox])
    · exact hkept.faithful.handled.onward (htaking.onward hdispatching (by simp))
        (by rw [wire_dispatching])
  rcases hserve : serveClient K fd eventMask (dispatching w fd) with ⟨r, w₁⟩
  have hclient := wp_run (serveClient_spec (K := K) eventMask hbetween.sound hfind) hserve
  rcases (wp_run (dispatch_client_run hroute eventMask hserve) hrun).2 with ⟨rfl, rfl⟩ | ⟨-, rfl⟩
  · -- the connection stays
    obtain ⟨-, c', hattended'⟩ := attended_of_acts hclient.carried.acts hbetween hfresh hattended
    refine ⟨hattended'.live, hattended'.faithful, fun c'' hfind'' => ?_⟩
    obtain rfl := Option.some.inj (hattended'.find.symm.trans hfind'')
    exact hattended'.taken
  · have hfresh₁ : FreshFds w₁.log := hfresh.left
    obtain ⟨w₂, hacts, hend⟩ := id hclient.carried
    have hbegins : w₂.log <+: w₁.log := by
      rcases hend with rfl | ⟨-, hbreak⟩
      · exact List.prefix_rfl
      · have hserved := served_of_acts hbetween.sound hacts
        exact prefix_of_walk (hbreak.served (hserved.sound hbetween.sound)).1
    obtain ⟨hbetween₂, c₂, hattended₂⟩ :=
      attended_of_acts hacts hbetween (hfresh₁.before hbegins) hattended
    have hfaithful : Faithful K s fd w₁ := by
      rcases hend with rfl | ⟨-, hbreak⟩
      · exact hattended₂.faithful
      · exact hbreak.faithful hbetween₂ hfresh₁ hattended₂
    have hsome : (w₁.st.connections.find fd).isSome := by
      obtain ⟨c₁, hfind₁⟩ := (hclient.carried.served hbetween.sound).find hfind
      rw [hfind₁]
      rfl
    obtain ⟨hfaithful', hlive⟩ := faithful_hungUp hfaithful hsome
    refine ⟨hlive, hfaithful', fun c' hfind' => ?_⟩
    exact absurd ((Table.find_del_self _ _).symm.trans hfind') (by simp)

/-- Other events. -/
theorem dispatch_aside_kept (h : Dispatched K s w) {fd' : Fd}
    (haside : fd ≠ fd' ∨ w.st.route fd' ≠ .client) (hkept : Upheld K s fd w) {eventMask : EventMask}
    (hrun : dispatch K fd' eventMask w = (.ok (), w')) (hfresh : FreshFds w'.log) :
    Upheld K s fd w' := by
  have hsound := h.between.sound
  obtain ⟨due, hwalk⟩ := wp_run (dispatch_aside hsound fd' eventMask haside) hrun
  have hfresh₀ : FreshFds w.log := hfresh.before (prefix_of_walk hwalk)
  obtain ⟨hshown, hlive⟩ := shown_of_walk (fun _ => id) hwalk hsound
    (h.between.during.separate hfresh₀) hkept.live hfresh
  obtain ⟨due', hwalk', hdue⟩ := wp_run (dispatch_spec hsound fd' eventMask) hrun
  obtain rfl := hdue rfl
  refine ⟨hlive, hshown.faithful hwalk' hkept.faithful, fun c hfind => ?_⟩
  cases hshown with
  | passed hlog hquiet hseen hsame =>
    obtain ⟨hwire, harrived⟩ := Prod.mk.inj hseen
    rcases hsame with hsame | hnone
    · have htaken := hkept.taken c (hsame.symm.trans hfind)
      unfold Taken at htaken ⊢
      rw [hwire, harrived]
      exact htaken
    · exact absurd (hnone.symm.trans hfind) (by simp)
  | renewed hlog hquiet hseen hnew =>
    obtain ⟨hwire, harrived⟩ := Prod.mk.inj hseen
    rcases hnew with hnew | hnone
    · obtain rfl := Option.some.inj (hnew.symm.trans hfind)
      refine ⟨[], ?_, ?_⟩
      · rw [hwire]
        rfl
      · rw [harrived]
        rfl
    · exact absurd (hnone.symm.trans hfind) (by simp)

theorem Dispatched.kept (h : Dispatched K s w) (hfresh : FreshFds w.log) (fd : Fd) :
    Upheld K s fd w := by
  induction h with
  | start =>
    refine ⟨rfl, @faithful_new K s s.initial fd {} rfl, fun c hfind => ?_⟩
    cases hfind
  | @woke w h ih =>
    obtain ⟨hlive, hfaithful, htaken⟩ := ih hfresh.left
    have hinbox : inbox fd (w.log ++ [.woke]) = inbox fd w.log := inbox_concat fd w.log _
    have hwire : wire fd (w.log ++ [.woke]) = wire fd w.log := wire_concat fd w.log _
    refine ⟨?_, hfaithful.onward ⟨walk_woke w, _, rfl, by simp⟩ ?_, fun c hfind => ?_⟩
    · show (inbox fd (w.log ++ [.woke])).live = _
      rw [hinbox]
      exact hlive
    · show shown fd (w.log ++ [.woke]) = shown fd w.log
      rw [shown, hinbox, hwire]
      rfl
    · exact (htaken c hfind).passed rfl (by rw [hwire]) (by rw [hinbox])
  | @event w w' fd' eventMask h hrun ih =>
    have hfresh₀ : FreshFds w.log := by
      obtain ⟨due, hwalk, -⟩ := wp_run (dispatch_spec h.between.sound fd' eventMask) hrun
      exact hfresh.before (prefix_of_walk hwalk)
    by_cases hown : fd = fd' ∧ w.st.route fd' = .client
    · obtain ⟨rfl, hroute⟩ := hown
      exact dispatch_client_kept h hroute (ih hfresh₀) hrun hfresh
    · exact dispatch_aside_kept h (by tauto) (ih hfresh₀) hrun hfresh

/-- On every open connection the requests are the frames at the head of all that has been read from it,
and the rest of it stands in the decoder; each was handled in its turn, and the frames of the responses
are what has been sent and what is still to be sent. At the end of a connection all of this is so up to
where it was broken off. -/
theorem requests_inOrder (h : Dispatched K s w) (hfresh : FreshFds w.log) (fd : Fd) :
    (∀ c, w.st.connections.find fd = some c →
      parseFrames (inbox fd w.log).arrived =
        ((wire fd w.log).answered.map Prod.fst, .ok c.decoder.buffer) ∧
      encodeFrames ((wire fd w.log).answered.map Prod.snd) =
        .ok ((wire fd w.log).sent ++ c.writeBuffer.drop c.writeOffset)) ∧
    Faithful K s fd w := by
  have hkept := h.kept hfresh fd
  refine ⟨fun c hfind => ?_, hkept.faithful⟩
  have hrest := h.atRest hfind
  refine ⟨?_, hrest.stream⟩
  obtain ⟨stream, hstream, harrived⟩ := hkept.taken c hfind
  have hincomplete : frameLexer.next c.decoder.buffer = .incomplete :=
    FrameDecoder.incomplete_of_hasFrame hrest.emptied
  rw [harrived, parseFrames_append hstream, hrest.asked, parseFrames,
    Lexer.parse_of_incomplete hincomplete, List.append_nil]

/-- The client that sent PING. -/
theorem requests_inOrder_run :
    parseFrames (inbox 7 (after pingScript oneSlot 2).log).arrived = ([text "PING"], .ok []) ∧
      Faithful pingScript oneSlot 7 (after pingScript oneSlot 2) := by
  have hreached : Reachable pingScript oneSlot (after pingScript oneSlot 2) :=
    reachable_after (by decide +kernel)
  have hfresh : FreshFds (after pingScript oneSlot 2).log := by decide +kernel
  have hfind : (after pingScript oneSlot 2).st.connections.find 7 =
      some { writeBuffer := frameOf (text "PONG") } := by decide +kernel
  have hanswered : (wire 7 (after pingScript oneSlot 2).log).answered =
      [(text "PING", text "PONG")] := by decide +kernel
  generalize after pingScript oneSlot 2 = w at hreached hfresh hfind hanswered ⊢
  obtain ⟨hopen, hfaithful⟩ := requests_inOrder hreached.dispatched hfresh 7
  refine ⟨?_, hfaithful⟩
  rw [(hopen _ hfind).1, hanswered]
  rfl

end Runnerd
