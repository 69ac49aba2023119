import Runnerd.DaemonRuns

/-!
# Responses

A connection is a stream in each direction. What has been written to the socket, followed by what still
stands in the write buffer, is the frames of the responses to the requests taken from the decoder, in
their order: at every act of serving the client, however `read` and `write` cut the streams. Between two
events a connection is watched for exactly what it waits for, and it is given up without an error only
when nothing is left to be read or sent.
-/

namespace Runnerd

open Effect Effect.Prog Steps

namespace Daemon

/-! ## The two streams of a connection -/

/-- What has gone over the connection at a descriptor since it was accepted, and the events that
`epoll` watches it for. -/
structure Wire where
  sent : Bytes := []
  asked : List Bytes := []
  answered : List (Bytes × Bytes) := []
  interest : EventMask := {}
  deriving DecidableEq, Repr

def Wire.step (fd : Fd) (x : Wire) : Event → Wire
  | .connected fd' events => if fd' = fd then { interest := events } else x
  | .modified fd' events => if fd' = fd then { x with interest := events } else x
  | .sent fd' bytes => if fd' = fd then { x with sent := x.sent ++ bytes } else x
  | .asked fd' request => if fd' = fd then { x with asked := x.asked ++ [request] } else x
  | .answered fd' request response =>
    if fd' = fd then { x with answered := x.answered ++ [(request, response)] } else x
  | _ => x

def wire (fd : Fd) (log : List Event) : Wire := log.foldl (Wire.step fd) {}

variable {K : Kernel} {s : Setup} {n : ℕ} {w w' : World Daemon} {m m' : Moment} {fd : Fd}
  {c c' : Connection} {x : Wire} {log events : List Event}

theorem wire_append (fd : Fd) (log events : List Event) :
    wire fd (log ++ events) = events.foldl (Wire.step fd) (wire fd log) :=
  List.foldl_append

theorem wire_concat (fd : Fd) (log : List Event) (e : Event) :
    wire fd (log ++ [e]) = (wire fd log).step fd e := wire_append fd log [e]

/-- The events about the connection at a descriptor. -/
def speaks (fd : Fd) : Event → Bool
  | .connected fd' _ | .modified fd' _ | .sent fd' _ | .asked fd' _ | .answered fd' _ _ => fd' == fd
  | _ => false

theorem Wire.step_unspoken {e : Event} (h : speaks fd e = false) (x : Wire) : x.step fd e = x := by
  cases e <;> first | rfl | exact if_neg (by simpa [speaks] using h)

theorem wire_unspoken (h : ∀ e ∈ events, speaks fd e = false) :
    wire fd (log ++ events) = wire fd log := by
  rw [wire_append]
  induction events with
  | nil => rfl
  | cons e events ih =>
    obtain ⟨he, hrest⟩ := List.forall_mem_cons.mp h
    rw [List.foldl_cons, Wire.step_unspoken he, ih hrest]

theorem speaks_of_not_loopEvent {e : Event} (h : loopEvent e = false) : speaks fd e = false := by
  cases e <;> first | rfl | cases h

theorem wire_quiet (h : ∀ e ∈ events, loopEvent e = false) :
    wire fd (log ++ events) = wire fd log :=
  wire_unspoken fun e he => speaks_of_not_loopEvent (h e he)

theorem wire_chores (h : ∀ e ∈ events, choreEvent e) : wire fd (log ++ events) = wire fd log :=
  wire_quiet fun e he => loopEvent_of_choreEvent (h e he)

/-- What has been sent and what is still to be sent are the frames of the responses to the requests
taken so far, in their order. -/
structure Sequenced (x : Wire) (c : Connection) : Prop where
  offset_le : c.writeOffset ≤ c.writeBuffer.length
  asked : x.asked = x.answered.map Prod.fst
  stream : encodeFrames (x.answered.map Prod.snd) =
    .ok (x.sent ++ c.writeBuffer.drop c.writeOffset)

/-- A connection that is left open: no complete request waits in its decoder, and `epoll` watches
it for what it waits for. -/
structure AtRest (x : Wire) (c : Connection) : Prop extends Sequenced x c where
  emptied : c.decoder.hasFrame = .ok false
  nonempty : x.interest ≠ {}
  epollout : x.interest.epollout ↔ c.writeOffset < c.writeBuffer.length
  epollin : x.interest.epollin ↔ c.readClosed = false
  epollrdhup : x.interest.epollrdhup ↔ c.readClosed = false

/-- A new connection. -/
theorem atRest_new : AtRest { interest := { epollin := true, epollrdhup := true } } {} where
  offset_le := le_rfl
  asked := rfl
  stream := rfl
  emptied := rfl
  nonempty := by decide
  epollout := by decide
  epollin := by decide
  epollrdhup := by decide

/-! ## Acts -/

theorem Sequenced.interest (h : Sequenced x c) (mask : EventMask) :
    Sequenced { x with interest := mask } c := ⟨h.offset_le, h.asked, h.stream⟩

/-- Reading changes nothing of what has been asked, answered and sent. -/
theorem Sequenced.read (h : Sequenced x c) (decoder : FrameDecoder) (readClosed : Bool) :
    Sequenced x { c with decoder, readClosed } := ⟨h.offset_le, h.asked, h.stream⟩

/-- `write` takes bytes off the front of what is still to be sent. -/
theorem Sequenced.write (h : Sequenced x c) {count : ℕ} {bytes : Bytes}
    (hbytes : bytes = accepted count (c.writeBuffer.drop c.writeOffset)) :
    Sequenced { x with sent := x.sent ++ bytes }
      { c with writeOffset := c.writeOffset + bytes.length } := by
  have hlength : bytes.length ≤ c.writeBuffer.length - c.writeOffset := by
    rw [hbytes, accepted, List.length_take, List.length_drop]
    omega
  have hoffset := h.offset_le
  refine ⟨by simp only; omega, h.asked, ?_⟩
  rw [h.stream]
  simp only
  have hfront : bytes ++ c.writeBuffer.drop (c.writeOffset + bytes.length) =
      c.writeBuffer.drop c.writeOffset := by
    rw [← List.drop_drop, hbytes]
    exact List.prefix_iff_eq_append.mp (List.take_prefix _ _)
  rw [← hfront, List.append_assoc]

theorem drop_of_done (hdone : hasPendingWrite c = false) :
    c.writeBuffer.drop c.writeOffset = [] := by
  unfold hasPendingWrite at hdone
  rw [decide_eq_false_iff_not, not_lt] at hdone
  exact List.drop_eq_nil_of_le hdone

/-- The write buffer is cleared once everything in it has been sent. -/
theorem Sequenced.clear (h : Sequenced x c) (hdone : hasPendingWrite c = false) :
    Sequenced x { c with writeBuffer := [], writeOffset := 0 } := by
  refine ⟨le_rfl, h.asked, ?_⟩
  rw [h.stream, drop_of_done hdone]
  rfl

/-- A request is taken, and the frame of its response goes behind what is still to be sent. -/
theorem Sequenced.exchange (h : Sequenced x c) {decoder : FrameDecoder} {request response frame : Bytes}
    (hframe : encodeFrame response = .ok frame) :
    Sequenced { x with
        asked := x.asked ++ [request]
        answered := x.answered ++ [(request, response)] }
      { c with decoder, writeBuffer := c.writeBuffer ++ frame } := by
  refine ⟨?_, ?_, ?_⟩
  · have hoffset := h.offset_le
    simp only [List.length_append]
    omega
  · simp only [List.map_append, List.map_cons, List.map_nil, h.asked]
  · simp only [List.map_append, List.map_cons, List.map_nil]
    rw [encodeFrames_concat h.stream hframe, List.drop_append_of_le_length h.offset_le,
      List.append_assoc]

theorem Tending.sequenced {events : List Event} (h : Sequenced (wire fd log) c)
    (htending : Tending fd c c' events) (hplain : ∀ request, .asked fd request ∉ events) :
    Sequenced (wire fd (log ++ events)) c' := by
  cases htending with
  | feed | choke | finish =>
    rw [wire_quiet (by simp [loopEvent])]
    exact h.read _ _
  | pop => exact absurd List.mem_cons_self (hplain _)
  | write hpending hbytes =>
    rw [wire_concat]
    simp only [Wire.step, if_true]
    exact h.write hbytes
  | clear hdone =>
    rw [List.append_nil]
    exact h.clear hdone

/-- Every act keeps the streams in order. -/
theorem Act.sequenced (hact : Act K fd w w') (hsound : Sound n ⟨w, []⟩)
    (hfind : w.st.connections.find fd = some c) (h : Sequenced (wire fd w.log) c) :
    ∃ c', w'.st.connections.find fd = some c' ∧ Sequenced (wire fd w'.log) c' := by
  cases hact with
  | attend hevents =>
    refine ⟨c, hfind, ?_⟩
    rw [wire_chores hevents]
    exact h
  | tend hfind' htending hplain =>
    rw [hfind] at hfind'
    obtain rfl := Option.some.inj hfind'
    exact ⟨_, Table.find_set_self _ _ _, htending.sequenced h hplain⟩
  | rearm hfind' =>
    refine ⟨c, hfind, ?_⟩
    rw [World.emit_log, wire_concat]
    simp only [Wire.step, if_true]
    exact h.interest _
  | exchange hfind' hpop hrun hframe =>
    rw [hfind] at hfind'
    obtain rfl := Option.some.inj hfind'
    obtain ⟨-, -, ⟨events, hlog, hquiet⟩, -⟩ := asked_spec hsound hfind hpop hrun
    refine ⟨_, Table.find_set_self _ _ _, ?_⟩
    show Sequenced (wire fd (_ ++ [_])) _
    rw [wire_concat, hlog, List.append_cons, wire_quiet hquiet, wire_concat]
    simp only [Wire.step, if_true]
    exact h.exchange hframe

theorem sequenced_of_acts (hacts : Acts K fd w w') (hsound : Sound n ⟨w, []⟩)
    (hfind : w.st.connections.find fd = some c) (h : Sequenced (wire fd w.log) c) :
    ∃ c', w'.st.connections.find fd = some c' ∧ Sequenced (wire fd w'.log) c' := by
  induction hacts with
  | refl => exact ⟨c, hfind, h⟩
  | tail hacts hlast ih =>
    obtain ⟨c', hfind', h'⟩ := ih
    exact hlast.sequenced ((served_of_acts hsound hacts).sound hsound) hfind' h'

/-! ## Other steps -/

section Aside

variable {β : Type} {seen : List Event → β} {fresh : β}

/-- What happens aside from a connection, as far as something is seen of it in the history: nothing
about it, unless it is given up, or a new one takes its place. -/
inductive Aside (fd : Fd) (seen : List Event → β) (fresh : β) (w w' : World Daemon) : Prop where
  | passed {events : List Event} (hlog : w'.log = w.log ++ events)
      (hkept : ∀ mask, .connected fd mask ∉ events) (hseen : seen w'.log = seen w.log)
      (hfind : w'.st.connections.find fd = w.st.connections.find fd ∨
        w'.st.connections.find fd = none)
  | renewed {pre post : List Event}
      (hlog : w'.log = w.log ++ pre ++ .connected fd clientMask :: post)
      (hkept : ∀ mask, .connected fd mask ∉ post) (hseen : seen w'.log = fresh)
      (hfind : w'.st.connections.find fd = some {} ∨ w'.st.connections.find fd = none)

theorem Aside.refl (fd : Fd) (seen : List Event → β) (fresh : β) (w : World Daemon) :
    Aside fd seen fresh w w :=
  .passed (List.append_nil _).symm (by simp) rfl (Or.inl rfl)

theorem Aside.trans {w'' : World Daemon} (h : Aside fd seen fresh w w')
    (h' : Aside fd seen fresh w' w'') : Aside fd seen fresh w w'' := by
  cases h' with
  | @renewed pre post hlog' hkept' hseen' hfind' =>
    obtain ⟨events, hlog⟩ : ∃ events, w'.log = w.log ++ events := by
      cases h with
      | passed hlog => exact ⟨_, hlog⟩
      | renewed hlog => exact ⟨_, hlog.trans (List.append_assoc _ _ _)⟩
    exact .renewed (by rw [hlog', hlog, List.append_assoc w.log]) hkept' hseen' hfind'
  | @passed more hlog' hkept' hseen' hfind' =>
    have hboth : ∀ {events : List Event}, (∀ mask, .connected fd mask ∉ events) →
        ∀ mask, .connected fd mask ∉ events ++ more := fun h mask hmem =>
      (List.mem_append.mp hmem).elim (h mask) (hkept' mask)
    cases h with
    | @passed events hlog hkept hseen hfind =>
      refine .passed (by rw [hlog', hlog, List.append_assoc]) (hboth hkept) (hseen'.trans hseen) ?_
      rcases hfind' with hsame | hnone
      · rw [hsame]
        exact hfind
      · exact Or.inr hnone
    | @renewed pre post hlog hkept hseen hfind =>
      refine .renewed (by rw [hlog', hlog, List.append_assoc, List.cons_append]) (hboth hkept)
        (hseen'.trans hseen) ?_
      rcases hfind' with hsame | hnone
      · rw [hsame]
        exact hfind
      · exact Or.inr hnone

end Aside

/-- What happens aside from a connection, as far as its streams go. -/
abbrev WireAside (fd : Fd) : World Daemon → World Daemon → Prop :=
  Aside fd (wire fd) { interest := clientMask }

/-- A connection stays at rest where nothing is done about it. -/
theorem Aside.atRest (h : WireAside fd w w')
    (hrest : ∀ c, w.st.connections.find fd = some c → AtRest (wire fd w.log) c)
    (hfind : w'.st.connections.find fd = some c) : AtRest (wire fd w'.log) c := by
  cases h with
  | passed hlog hkept hseen hsame =>
    rw [hseen]
    rcases hsame with hsame | hnone
    · exact hrest c (hsame.symm.trans hfind)
    · exact absurd (hnone.symm.trans hfind) (by simp)
  | renewed hlog hkept hseen hnew =>
    rw [hseen]
    rcases hnew with hnew | hnone
    · obtain rfl := Option.some.inj (hnew.symm.trans hfind)
      exact atRest_new
    · exact absurd (hnone.symm.trans hfind) (by simp)

/-- The steps about the client at a descriptor, which stands in the table already. -/
def Label.serving (fd : Fd) : Label → Bool
  | .tend fd' | .answer fd' => fd' == fd
  | _ => false

theorem Tending.unspoken {fd' : Fd} (hne : fd' ≠ fd) (h : Tending fd' c c' events) :
    ∀ e ∈ events, speaks fd e = false := by
  cases h <;> simp [speaks, hne]

/-- A step about something else says nothing of a connection, unless it is the new one. -/
theorem Step.unspoken {l : Label} (hstep : Step K l m m') (hl : l.serving fd = false)
    (hnew : l ≠ .accept fd) : ∃ events, m'.world.log = m.world.log ++ events ∧
      (∀ e ∈ events, speaks fd e = false) ∧
      (m'.world.st.connections.find fd = m.world.st.connections.find fd ∨
        (l = .hangUp fd ∨ l = .refuse fd) ∧ m'.world.st.connections.find fd = none) := by
  by_cases hquiet : l.quiet
  · obtain ⟨hsame, events, hlog, hevents⟩ := hstep.quiet hquiet
    exact ⟨events, hlog, fun e he => speaks_of_not_loopEvent (hevents e he), Or.inl (by rw [hsame])⟩
  have hother : ∀ {fd'}, (fd' == fd) = false → fd ≠ fd' := fun h heq => by simp [heq] at h
  have hchores : ∀ {events : List Event}, (∀ e ∈ events, choreEvent e) →
      ∀ e ∈ events, speaks fd e = false := fun h e he =>
    speaks_of_not_loopEvent (loopEvent_of_choreEvent (h e he))
  cases hstep with
  | take => exact ⟨_, rfl, by simp [speaks], Or.inl rfl⟩
  | @accept w due fd' events hnone hevents =>
    have hne : fd' ≠ fd := fun heq => hnew (heq ▸ rfl)
    refine ⟨_, rfl, ?_, Or.inl (Table.find_set_of_ne _ _ hne.symm)⟩
    rw [List.forall_mem_cons, List.forall_mem_append]
    exact ⟨rfl, hchores hevents, by simp [speaks, hne]⟩
  | @refuse w due fd' events hevents =>
    refine ⟨_, rfl, ?_, ?_⟩
    · rw [List.forall_mem_cons, List.forall_mem_append]
      exact ⟨rfl, hchores hevents, by simp [speaks]⟩
    · rcases eq_or_ne fd fd' with rfl | hne
      · exact Or.inr ⟨Or.inr rfl, Table.find_del_self _ _⟩
      · exact Or.inl (Table.find_del_of_ne _ hne)
  | @hangUp w due fd' hsome =>
    refine ⟨_, rfl, by simp [speaks], ?_⟩
    rcases eq_or_ne fd fd' with rfl | hne
    · exact Or.inr ⟨Or.inl rfl, Table.find_del_self _ _⟩
    · exact Or.inl (Table.find_del_of_ne _ hne)
  | tend hfind' htending =>
    have hne := hother hl
    exact ⟨_, rfl, htending.unspoken hne.symm, Or.inl (Table.find_set_of_ne _ _ hne)⟩
  | rearm =>
    have hne := hother hl
    exact ⟨_, rfl, by simp [speaks, hne.symm], Or.inl rfl⟩
  | answer hfind' hresponding =>
    have hne := hother hl
    refine ⟨_, rfl, by simp [speaks, hne.symm], Or.inl ?_⟩
    obtain ⟨frame, -, rfl⟩ | ⟨-, rfl⟩ := hresponding
    · exact Table.find_set_of_ne _ _ hne
    · rfl
  | _ => exact absurd rfl hquiet

/-- The step that takes a new client in. -/
theorem Step.accepted (hstep : Step K (.accept fd) m m') :
    m.world.st.connections.find fd = none ∧ m'.world.st.connections.find fd = some {} ∧
      ∃ events, m'.world.log = m.world.log ++ events ++ [.connected fd clientMask] := by
  cases hstep with
  | @accept w due fd events hnone hevents =>
    refine ⟨hnone, Table.find_set_self _ _ _, .opened fd :: events, ?_⟩
    simp [clientMask]

theorem Step.aside {l : Label} (hstep : Step K l m m') (hl : l.serving fd = false) :
    WireAside fd m.world m'.world := by
  by_cases hnew : l = .accept fd
  · subst hnew
    obtain ⟨-, hfind, events, hlog⟩ := hstep.accepted
    refine .renewed hlog (by simp) ?_ (Or.inl hfind)
    rw [hlog, wire_concat]
    exact if_pos rfl
  · obtain ⟨events, hlog, hunspoken, hfind⟩ := hstep.unspoken hl hnew
    refine .passed hlog (fun mask hmem => ?_) (by rw [hlog, wire_unspoken hunspoken])
      (hfind.imp_right And.right)
    simpa [speaks] using hunspoken _ hmem

theorem aside_of_walk {A : Set Label} (hA : ∀ l ∈ A, l.serving fd = false)
    (hwalk : Walk (Step K) A m m') : WireAside fd m.world m'.world :=
  hwalk.relates (R := fun m m' => WireAside fd m.world m'.world)
    (fun m => Aside.refl fd _ _ m.world) (fun _ _ _ => Aside.trans)
    fun l hl _ _ hstep => hstep.aside (hA l hl)

/-! ## Events of a batch -/

/-- An event of another descriptor, or of none that is a client's. -/
theorem dispatch_aside (h : Sound n ⟨w, []⟩) (fd : Fd) (eventMask : EventMask) {fd' : Fd}
    (haside : fd' ≠ fd ∨ w.st.route fd ≠ .client) : wp (dispatch K fd eventMask) (fun _ w' =>
      ∃ due, Walk (Step K) {l | l.serving fd' = false} ⟨w, []⟩ ⟨w', due⟩) w := by
  have hadmits : {l : Label | l.admits} ⊆ {l | l.serving fd' = false} := fun l hl => by
    cases l <;> first | rfl | cases hl
  have hminds : {l : Label | l.minds} ⊆ {l | l.serving fd' = false} := fun l hl => by
    cases l <;> first | rfl | cases hl
  have htimes : {l : Label | l.times} ⊆ {l | l.serving fd' = false} := fun l hl => by
    cases l <;> first | rfl | cases hl
  have hpumps : {l : Label | l.pumps} ⊆ {l | l.serving fd' = false} := fun l hl => by
    cases l <;> first | rfl | cases hl
  cases hroute : w.st.route fd with
  | listener =>
    exact wp_mono (dispatch_listener h hroute eventMask) fun r w' hwalk => ⟨[], hwalk.mono hadmits⟩
  | stranger =>
    have htaken := @walk_dispatching K {l | l.serving fd' = false} fd rfl w
    exact wp_of_run (dispatch_stranger hroute eventMask) ⟨[], htaken⟩
  | monitor =>
    apply wp_mono (dispatch_monitor h hroute eventMask)
    rintro r w' ⟨w1, hwalk, hpumped, -⟩
    exact ⟨[], (hwalk.mono hminds).trans (hpumped.mono hpumps)⟩
  | timer =>
    apply wp_mono (dispatch_timer h hroute eventMask)
    rintro r w' ⟨w1, due, hwalk, ⟨-, rfl⟩ | ⟨rfl, hpumped, -⟩⟩
    · exact ⟨due, hwalk.mono htimes⟩
    · exact ⟨[], (hwalk.mono htimes).trans (hpumped.mono hpumps)⟩
  | client =>
    have hne : fd' ≠ fd := haside.resolve_right (not_not_intro hroute)
    have hserves : {l : Label | l.serves fd} ⊆ {l | l.serving fd' = false} := by
      intro l hl
      cases l with
      | tend fd1 | answer fd1 =>
        obtain rfl : fd1 = fd := by
          simpa [Label.serves, Label.requests, Label.cancels, Label.starts] using hl
        simpa [Label.serving] using hne.symm
      | _ => rfl
    apply wp_mono (dispatch_client h hroute eventMask)
    rintro r w' ⟨-, w1, hserved, rfl | hstep⟩
    · exact ⟨[], hserved.1.mono hserves⟩
    · exact ⟨[], (hserved.1.mono hserves).tail rfl hstep⟩

theorem wire_dispatching (w : World Daemon) (fd fd' : Fd) :
    wire fd' (dispatching w fd).log = wire fd' w.log := wire_concat fd' w.log _

theorem clientEvents_ne (h : c.readClosed → hasPendingWrite c) : clientEvents c ≠ {} := by
  intro hnone
  have hin : (!c.readClosed) = false := congrArg EventMask.epollin hnone
  have hout : hasPendingWrite c = false := congrArg EventMask.epollout hnone
  rw [Bool.not_eq_false'] at hin
  rw [h hin] at hout
  cases hout

/-- A connection that is kept is at rest: `epoll` has just been told what it waits for. -/
theorem atRest_of_kept {log : List Event} (h : Sequenced (wire fd w.log) c)
    (hlog : w.log = log ++ [.modified fd (clientEvents c)])
    (hpending : c.readClosed → hasPendingWrite c) (hempty : c.decoder.hasFrame = .ok false) :
    AtRest (wire fd w.log) c := by
  have hinterest : (wire fd w.log).interest = clientEvents c := by
    rw [hlog, wire_concat]
    simp only [Wire.step, if_true]
  refine { h with emptied := hempty, nonempty := ?_, epollout := ?_, epollin := ?_, epollrdhup := ?_ }
  all_goals rw [hinterest]
  · exact clientEvents_ne hpending
  · simp [clientEvents, hasPendingWrite]
  · simp [clientEvents]
  · simp [clientEvents]

/-- While a client is served, its streams stay in order. -/
theorem AtRest.acts {w₁ : World Daemon} (hrest : AtRest (wire fd w.log) c) (h : Sound n ⟨w, []⟩)
    (hfind : w.st.connections.find fd = some c) (hacts : Acts K fd (dispatching w fd) w₁) :
    ∃ c', w₁.st.connections.find fd = some c' ∧ Sequenced (wire fd w₁.log) c' := by
  apply sequenced_of_acts hacts ((servedAt_dispatching (K := K) w fd).sound h) hfind
  rw [wire_dispatching]
  exact hrest.toSequenced

/-! ## Ends -/

/-- A connection that has nothing left to read, to answer or to send. -/
structure Complete (x : Wire) (c : Connection) : Prop where
  readClosed : c.readClosed
  emptied : c.decoder.hasFrame = .ok false
  asked : x.asked = x.answered.map Prod.fst
  stream : encodeFrames (x.answered.map Prod.snd) = .ok x.sent

theorem Sequenced.complete (h : Sequenced x c) (hclosed : c.readClosed)
    (hdone : hasPendingWrite c = false) (hempty : c.decoder.hasFrame = .ok false) : Complete x c := by
  refine ⟨hclosed, hempty, h.asked, ?_⟩
  rw [h.stream, drop_of_done hdone, List.append_nil]

/-- How an event of a client goes: in acts, after which the connection stays or is given up. -/
inductive Conducted (K : Kernel) (fd : Fd) (eventMask : EventMask) (w : World Daemon) :
    World Daemon → Prop where
  | stays {w₁ : World Daemon} (hacts : Acts K fd (dispatching w fd) w₁) :
      Conducted K fd eventMask w w₁
  | completed {w₁ : World Daemon} {c : Connection} (hacts : Acts K fd (dispatching w fd) w₁)
      (hfind : w₁.st.connections.find fd = some c) (hcomplete : Complete (wire fd w₁.log) c) :
      Conducted K fd eventMask w (hungUp w₁ fd)
  /-- `epoll` reported an error, or a call failed. -/
  | failed {w₁ : World Daemon} (hacts : Acts K fd (dispatching w fd) w₁)
      (hfault : Faulted K fd eventMask (dispatching w fd)) :
      Conducted K fd eventMask w (hungUp w₁ fd)
  /-- An exception was caught. -/
  | thrown {w₁ w₂ : World Daemon} {e : Exception} (hacts : Acts K fd (dispatching w fd) w₁)
      (hend : w₂ = w₁ ∨ Break K fd w₁ w₂)
      (hthrow : serveClient K fd eventMask (dispatching w fd) = (.error e, w₂)) :
      Conducted K fd eventMask w (hungUp w₂ fd)

theorem dispatch_conducted (h : Sound n ⟨w, []⟩) (hroute : w.st.route fd = .client)
    (hrest : ∀ c, w.st.connections.find fd = some c → AtRest (wire fd w.log) c)
    (eventMask : EventMask) :
    wp (dispatch K fd eventMask) (fun _ w' => Conducted K fd eventMask w w' ∧
      ∀ c, w'.st.connections.find fd = some c → AtRest (wire fd w'.log) c) w := by
  obtain ⟨c, hfind⟩ := find_of_route hroute
  have hatRest := hrest c hfind
  have hsound := (servedAt_dispatching (K := K) w fd).sound h
  rcases hrun : serveClient K fd eventMask (dispatching w fd) with ⟨r, w₁⟩
  have hclient := wp_run (serveClient_spec (K := K) eventMask hsound hfind) hrun
  have hempty : Emptied (dispatching w fd) fd := ⟨c, hfind, hatRest.emptied⟩
  have hgone : ∀ v c, (hungUp v fd).st.connections.find fd = some c →
      AtRest (wire fd (hungUp v fd).log) c := fun v c hfind' =>
    absurd ((Table.find_del_self _ _).symm.trans hfind') (by simp)
  apply wp_mono (dispatch_client_run hroute eventMask hrun)
  rintro - w' ⟨-, ⟨rfl, rfl⟩ | ⟨hr, rfl⟩⟩
  · -- the connection stays
    refine ⟨.stays hclient.carried.acts, fun c' hfind' => ?_⟩
    obtain ⟨c₁, log, hfind₁, hlog, hpending, hdrained⟩ := hclient.kept rfl
    obtain rfl := Option.some.inj (hfind₁.symm.trans hfind')
    obtain ⟨c₂, hfind₂, horder⟩ := hatRest.acts h hfind hclient.carried.acts
    obtain rfl := Option.some.inj (hfind₁.symm.trans hfind₂)
    exact atRest_of_kept horder hlog hpending (hdrained hempty)
  · refine ⟨?_, hgone w₁⟩
    cases r with
    | error e =>
      obtain ⟨w₂, hacts, rfl | ⟨-, hbreak⟩⟩ := hclient.carried
      · exact .thrown hacts (Or.inl rfl) hrun
      · exact .thrown hacts (Or.inr hbreak) hrun
    | ok alive =>
      have halive : alive = false := by simpa using hr
      subst halive
      have hacts := hclient.carried.acts
      rcases hclient.ended rfl with hfault | ⟨c₁, hfind₁, hclosed, hdone, hdrained⟩
      · exact .failed hacts hfault
      · obtain ⟨c₂, hfind₂, horder⟩ := hatRest.acts h hfind hacts
        obtain rfl := Option.some.inj (hfind₁.symm.trans hfind₂)
        exact .completed hacts hfind₁ (horder.complete hclosed hdone (hdrained hempty))

end Daemon

/-! ## Runs -/

open Daemon

variable {K : Kernel} {s : Setup} {w w' : World Daemon}

/-- The daemon between two events of its main loop, whatever comes in its batches. -/
inductive Dispatched (K : Kernel) (s : Setup) : World Daemon → Prop where
  | start : Dispatched K s s.initial
  | woke {w : World Daemon} (h : Dispatched K s w) : Dispatched K s (w.emit .woke)
  | event {w w' : World Daemon} {fd : Fd} {eventMask : EventMask} (h : Dispatched K s w)
      (hrun : dispatch K fd eventMask w = (.ok (), w')) : Dispatched K s w'

theorem Dispatched.between (h : Dispatched K s w) : Between K s w := by
  induction h with
  | start => exact Walk.refl
  | woke _ ih => exact ih.trans (walk_woke _)
  | @event w w' fd eventMask h hrun ih =>
    obtain ⟨due, hwalk, hok⟩ := wp_run (dispatch_spec (Between.sound ih) fd eventMask) hrun
    obtain rfl := hok rfl
    exact ih.trans hwalk

/-- The events of a batch that has been dealt with. -/
theorem Dispatched.batch (h : Dispatched K s w) {events : List (Fd × EventMask)}
    (hrun : dispatchAll K events w = (.ok (), w')) : Dispatched K s w' := by
  induction events generalizing w with
  | nil =>
    obtain rfl : w = w' := congrArg Prod.snd hrun
    exact h
  | cons event rest ih =>
    obtain ⟨_, w1, hfirst, hrest⟩ := bind_ok_inv hrun
    exact ih (h.event hfirst) hrest

/-- Every call of `epoll_wait` comes between two events. -/
theorem Reachable.dispatched (h : Reachable K s w) : Dispatched K s w := by
  induction h with
  | start => exact .start
  | @step w w' _ hrun ih =>
    obtain ⟨waits, w1, hwait, hrest⟩ := bind_ok_inv hrun
    obtain ⟨hwaits, rfl⟩ := Prod.mk.inj hwait
    cases waits with
    | interrupted =>
      obtain rfl : w.emit .woke = w' := congrArg Prod.snd hrest
      exact ih.woke
    | failed => cases hrest
    | ready events => exact ih.woke.batch hrest

/-- Between two events every connection is at rest. -/
theorem Dispatched.atRest (h : Dispatched K s w) {fd : Fd} {c : Connection}
    (hfind : w.st.connections.find fd = some c) : AtRest (wire fd w.log) c := by
  induction h generalizing c with
  | start => cases hfind
  | @woke w _ ih =>
    rw [World.emit_log, wire_concat]
    exact ih hfind
  | @event w w' fd' eventMask h hrun ih =>
    have hsound := h.between.sound
    by_cases hown : fd = fd' ∧ w.st.route fd' = .client
    · obtain ⟨rfl, hroute⟩ := hown
      exact (wp_run (dispatch_conducted hsound hroute (fun _ => ih) eventMask) hrun).2 c hfind
    · have haside : fd ≠ fd' ∨ w.st.route fd' ≠ .client := by tauto
      obtain ⟨due, hwalk⟩ := wp_run (dispatch_aside hsound fd' eventMask haside) hrun
      have hpassed := aside_of_walk (fun _ => id) hwalk
      exact hpassed.atRest (fun _ => ih) hfind

/-- On every connection, what has been sent and what is still to be sent are the frames of the responses
to the requests read so far, in their order: between two events, and after every act of serving the
client. Between two events `epoll` watches the connection for what it waits for. Only an event of its
own ends a connection, and without an error only when all has been sent. -/
theorem responses_inOrder (h : Dispatched K s w) :
    (∀ fd c, w.st.connections.find fd = some c → AtRest (wire fd w.log) c) ∧
    (∀ fd w₁, w.st.route fd = .client → Acts K fd (dispatching w fd) w₁ →
      ∃ c, w₁.st.connections.find fd = some c ∧ Sequenced (wire fd w₁.log) c) ∧
    (∀ fd eventMask, w.st.route fd = .client →
      Conducted K fd eventMask w (dispatch K fd eventMask w).2) ∧
    ∀ fd eventMask w', dispatch K fd eventMask w = (.ok (), w') → ∀ fd' c,
      w.st.connections.find fd' = some c → w'.st.connections.find fd' = none →
        fd' = fd ∧ w.st.route fd = .client := by
  have hsound := h.between.sound
  refine ⟨fun _ _ => h.atRest, fun fd w₁ hroute hacts => ?_, fun fd eventMask hroute => ?_,
    fun fd eventMask w' hrun fd' c hfind hnone => ?_⟩
  · obtain ⟨c, hfind⟩ := find_of_route hroute
    exact (h.atRest hfind).acts hsound hfind hacts
  · exact (dispatch_conducted hsound hroute (fun _ => h.atRest) eventMask).1
  · by_contra hother
    have hkept := dispatch_keeps hsound hrun (by tauto) hfind
    rw [hnone] at hkept
    cases hkept

/-- A client connects and sends PING. -/
def pingScript : Kernel := Kernel.quiet.withClient
  [[(3, { epollin := true })], [(7, { epollin := true })]] [[], text "PING"]

/-- The response stands in the write buffer, and `epoll` watches for room to send it. -/
theorem responses_inOrder_run :
    (after pingScript oneSlot 2).st.connections.find 7 =
        some { writeBuffer := frameOf (text "PONG") } ∧
      AtRest (wire 7 (after pingScript oneSlot 2).log) { writeBuffer := frameOf (text "PONG") } := by
  have hfind : (after pingScript oneSlot 2).st.connections.find 7 =
      some { writeBuffer := frameOf (text "PONG") } := by decide +kernel
  have hreached : Reachable pingScript oneSlot (after pingScript oneSlot 2) :=
    reachable_after (by decide +kernel)
  have hrest : ∀ w : World Daemon, Dispatched pingScript oneSlot w → ∀ c,
      w.st.connections.find 7 = some c → AtRest (wire 7 w.log) c :=
    fun w h => (responses_inOrder h).1 7
  exact ⟨hfind, hrest _ hreached.dispatched _ hfind⟩

end Runnerd
