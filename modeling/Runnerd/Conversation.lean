import Runnerd.DaemonOperations
import Runnerd.FrameStream

/-!
# Serving a client

What an event of a connection comes to. The daemon reads, takes a request and answers it, writes, and
tells `epoll` what the connection waits for. Each of these is one act, and to serve a client is a chain
of acts, which a request that cannot be answered may end.
-/

namespace Runnerd

open Effect Effect.Prog Steps

/-- The results of `write` end with an error. -/
def Writes.fails : Writes → Bool
  | .wrote _ rest | .interrupted rest => rest.fails
  | .again => false
  | .failed => true

/-- The results of `read` end with an error. -/
def Reads.fails : Reads → Bool
  | .data _ rest | .interrupted rest => rest.fails
  | .eof | .again => false
  | .failed _ => true

namespace Daemon

variable {K : Kernel} {n : ℕ} {w w' : World Daemon} {m m' : Moment} {due rest : List JobId} {fd : Fd}
  {c : Connection}

/-! ## What leaves the connections alone -/

/-- Steps that have nothing to do with the main loop's own events. -/
def Label.quiet : Label → Bool
  | .take _ | .accept _ | .refuse _ | .hangUp _ | .tend _ | .answer _ => false
  | _ => true

theorem requests_le_quiet : {l : Label | l.requests} ⊆ {l | l.quiet} := by
  intro l hl
  cases l <;> first | rfl | cases hl

theorem Step.quiet {l : Label} (hstep : Step K l m m') (hl : l.quiet) :
    m'.world.st.connections = m.world.st.connections ∧
      ∃ events, m'.world.log = m.world.log ++ events ∧ ∀ e ∈ events, loopEvent e = false := by
  have hchores : ∀ {events : List Event}, (∀ e ∈ events, choreEvent e) →
      ∀ e ∈ events, loopEvent e = false := fun h e he => loopEvent_of_choreEvent (h e he)
  have hmonitor : ∀ {l' : ProcessMonitor.Label} {v v' : World ProcessMonitor},
      ProcessMonitor.Step K l' v v' →
        ∃ events, v'.log = v.log ++ events ∧ ∀ e ∈ events, loopEvent e = false := fun hstep => by
    obtain ⟨events, hlog, hquiet⟩ := loopEvent_of_monitorStep hstep
    exact ⟨events, hlog, fun e he => (hquiet e he).1⟩
  cases hstep with
  | take | accept | refuse | hangUp | tend | rearm | answer => cases hl
  | attend hevents => exact ⟨rfl, _, rfl, hchores hevents⟩
  | watch hlabel hstep => exact ⟨rfl, hmonitor hstep⟩
  | submit => exact ⟨rfl, _, rfl, by simp [loopEvent]⟩
  | dequeue hstep => exact ⟨rfl, hmonitor hstep⟩
  | misfire hlabel hslot hwaiting hstep => exact ⟨rfl, hmonitor hstep⟩
  | run hslot hwaiting hstep hjob htimed hevents =>
    obtain ⟨more, hmore, hquiet⟩ := hmonitor hstep
    refine ⟨rfl, more ++ _, (congrArg (· ++ _) hmore).trans (List.append_assoc _ _ _), ?_⟩
    exact List.forall_mem_append.mpr ⟨hquiet, hchores hevents⟩
  | release | skip => exact ⟨rfl, [], (List.append_nil _).symm, by simp⟩
  | expire hnow hread hevents => exact ⟨rfl, _, rfl, hchores hevents⟩
  | spare => exact ⟨rfl, _, rfl, by simp [loopEvent]⟩
  | terminate hdue hstep => exact ⟨rfl, hmonitor hstep⟩
  | arm hjob hterminating hdeadline hgen hevents => exact ⟨rfl, _, rfl, hchores hevents⟩
  | fumble hgen hevents => exact ⟨rfl, _, rfl, hchores hevents⟩
  | kill hstep => exact ⟨rfl, hmonitor hstep⟩

theorem quiet_of_walk {A : Set Label} (hA : A ⊆ {l | l.quiet}) (hwalk : Walk (Step K) A m m') :
    m'.world.st.connections = m.world.st.connections ∧
      ∃ events, m'.world.log = m.world.log ++ events ∧ ∀ e ∈ events, loopEvent e = false := by
  apply hwalk.invariant (P := fun m' => m'.world.st.connections = m.world.st.connections ∧
    ∃ events, m'.world.log = m.world.log ++ events ∧ ∀ e ∈ events, loopEvent e = false)
  · rintro l hl m₁ m₂ hstep ⟨hsame, events, hlog, hquiet⟩
    obtain ⟨hsame', more, hmore, hquiet'⟩ := hstep.quiet (hA hl)
    refine ⟨hsame'.trans hsame, events ++ more, ?_, List.forall_mem_append.mpr ⟨hquiet, hquiet'⟩⟩
    rw [hmore, hlog, List.append_assoc]
  · exact ⟨rfl, [], (List.append_nil _).symm, by simp⟩

theorem prefix_of_walk {A : Set Label} (hwalk : Walk (Step K) A m m') :
    m.world.log <+: m'.world.log := by
  apply hwalk.invariant (P := fun m' => m.world.log <+: m'.world.log) _ List.prefix_rfl
  intro l _ m₁ m₂ hstep hprefix
  obtain ⟨events, hlog⟩ := hstep.log_prefix
  rw [hlog]
  exact hprefix.trans (List.prefix_append _ _)

/-- A client's event leaves the other connections alone, and ends none. -/
theorem connections_of_serves (hwalk : Walk (Step K) {l | l.serves fd} ⟨w, due⟩ ⟨w', rest⟩) :
    (w'.st.connections.find fd).isSome = (w.st.connections.find fd).isSome ∧
      ∀ fd' ≠ fd, w'.st.connections.find fd' = w.st.connections.find fd' := by
  have key := hwalk.invariant (P := fun m => (m.world.st.connections.find fd).isSome =
    (w.st.connections.find fd).isSome ∧ ∀ fd' ≠ fd, m.world.st.connections.find fd' =
      w.st.connections.find fd') ?_ ⟨rfl, fun _ _ => rfl⟩
  · exact key
  · rintro l hl a b hstep ⟨hsome, hother⟩
    cases hstep with
    | accept | refuse | hangUp | expire | spare | release => cases hl
    | @tend w due fd' c c' events hfind htending =>
      obtain rfl : fd' = fd := by
        simpa [Label.serves, Label.requests, Label.cancels, Label.starts] using hl
      refine ⟨?_, fun fd'' hne => ?_⟩
      · rw [← hsome]
        simp only [Table.find_set_self, hfind, Option.isSome_some]
      · rw [← hother fd'' hne]
        exact Table.find_set_of_ne _ _ hne
    | @answer w due fd' c connections request response hfind hresponding htruthful =>
      obtain rfl : fd' = fd := by
        simpa [Label.serves, Label.requests, Label.cancels, Label.starts] using hl
      obtain ⟨frame, -, rfl⟩ | ⟨-, rfl⟩ := hresponding
      · refine ⟨?_, fun fd'' hne => ?_⟩
        · rw [← hsome]
          simp only [Table.find_set_self, hfind, Option.isSome_some]
        · rw [← hother fd'' hne]
          exact Table.find_set_of_ne _ _ hne
      · exact ⟨hsome, hother⟩
    | _ => exact ⟨hsome, hother⟩

/-- What serving the client at a descriptor does. -/
abbrev ServedAt (K : Kernel) (fd : Fd) (w w' : World Daemon) : Prop :=
  Served K {l | l.serves fd} w w'

theorem ServedAt.refl (K : Kernel) (fd : Fd) (w : World Daemon) : ServedAt K fd w w :=
  Served.refl K _ w

/-- The connection is there as long as its client is served. -/
theorem ServedAt.find (h : ServedAt K fd w w') (hfind : w.st.connections.find fd = some c) :
    ∃ c', w'.st.connections.find fd = some c' := by
  have hsome := (connections_of_serves h.1).1
  rw [hfind] at hsome
  exact Option.isSome_iff_exists.mp hsome

theorem ServedAt.attend {events : List Event} (hevents : ∀ e ∈ events, choreEvent e) :
    ServedAt K fd w ⟨w.st, w.log ++ events⟩ :=
  ⟨Walk.single rfl (Step.attend hevents), id⟩

theorem ServedAt.tend {c' : Connection} {events : List Event}
    (hfind : w.st.connections.find fd = some c) (htending : Tending fd c c' events) :
    ServedAt K fd w
      ⟨{ w.st with connections := w.st.connections.set fd c' }, w.log ++ events⟩ :=
  ⟨Walk.single (by simp [Label.serves]) (Step.tend hfind htending), id⟩

theorem modifyConnection_run (hfind : w.st.connections.find fd = some c)
    (f : Connection → Connection) : modifyConnection fd f w =
      (.ok (), w.put { w.st with connections := w.st.connections.set fd (f c) }) := by
  unfold modifyConnection
  rw [update_run, hfind]

theorem connectionAt_run (hfind : w.st.connections.find fd = some c) :
    connectionAt fd w = (.ok c, w) := by
  unfold connectionAt
  rw [bind_of_ok (state_run w), hfind]
  rfl

/-! ## Acts -/

/-- The world in which a request has been taken from a connection. -/
def askedWorld (w : World Daemon) (fd : Fd) (c : Connection) (request : Bytes)
    (decoder : FrameDecoder) : World Daemon :=
  ⟨{ w.st with connections := w.st.connections.set fd { c with decoder } },
    w.log ++ [.asked fd request]⟩

/-- The world in which the frame of a response stands behind what is still to be sent. -/
def answeredWorld (w : World Daemon) (fd : Fd) (c : Connection) (request response frame : Bytes) :
    World Daemon :=
  ⟨{ w.st with
    connections := w.st.connections.set fd { c with writeBuffer := c.writeBuffer ++ frame } },
    w.log ++ [.answered fd request response]⟩

/-- One act of serving the client at a descriptor. -/
inductive Act (K : Kernel) (fd : Fd) : World Daemon → World Daemon → Prop where
  | attend {w : World Daemon} {events : List Event} (hevents : ∀ e ∈ events, choreEvent e) :
      Act K fd w ⟨w.st, w.log ++ events⟩
  /-- Reading and writing. What is read goes into the decoder. -/
  | tend {w : World Daemon} {c c' : Connection} {events : List Event}
      (hfind : w.st.connections.find fd = some c) (htending : Tending fd c c' events)
      (hplain : ∀ request, .asked fd request ∉ events)
      (hfed : ∀ bytes, .received fd bytes ∈ events → c.decoder.feed bytes = (.ok (), c'.decoder)) :
      Act K fd w
        ⟨{ w.st with connections := w.st.connections.set fd c' }, w.log ++ events⟩
  | rearm {w : World Daemon} {c : Connection} (hfind : w.st.connections.find fd = some c) :
      Act K fd w (w.emit (.modified fd (clientEvents c)))
  /-- A request is taken from the decoder and answered. -/
  | exchange {w w' : World Daemon} {c : Connection} {request response frame : Bytes}
      {decoder : FrameDecoder}
      (hfind : w.st.connections.find fd = some c)
      (hpop : c.decoder.popFrame = .ok (request, decoder))
      (hrun : handleRequest K request (askedWorld w fd c request decoder) = (.ok response, w'))
      (hframe : encodeFrame response = .ok frame) :
      Act K fd w (answeredWorld w' fd { c with decoder } request response frame)

/-- An exception leaves the loop that serves the client: the decoder throws, or a request cannot be
answered. -/
inductive Break (K : Kernel) (fd : Fd) : World Daemon → World Daemon → Prop where
  | choked {w : World Daemon} {c : Connection} {bytes : Bytes} {decoder : FrameDecoder}
      {e : Exception} (hfind : w.st.connections.find fd = some c)
      (hfeed : c.decoder.feed bytes = (.error e, decoder)) :
      Break K fd w
        ⟨{ w.st with connections := w.st.connections.set fd { c with decoder } },
          w.log ++ [.received fd bytes]⟩
  | thrown {w w' : World Daemon} {c : Connection} {request : Bytes} {decoder : FrameDecoder}
      {e : Exception} (hfind : w.st.connections.find fd = some c)
      (hpop : c.decoder.popFrame = .ok (request, decoder))
      (hrun : handleRequest K request (askedWorld w fd c request decoder) = (.error e, w')) :
      Break K fd w w'
  /-- The response does not fit into a frame. -/
  | oversized {w w' : World Daemon} {c : Connection} {request response : Bytes}
      {decoder : FrameDecoder} {e : Exception} (hfind : w.st.connections.find fd = some c)
      (hpop : c.decoder.popFrame = .ok (request, decoder))
      (hrun : handleRequest K request (askedWorld w fd c request decoder) = (.ok response, w'))
      (hframe : encodeFrame response = .error e) :
      Break K fd w (w'.emit (.answered fd request response))

/-- Acts, one after another. -/
abbrev Acts (K : Kernel) (fd : Fd) : World Daemon → World Daemon → Prop :=
  Relation.ReflTransGen (Act K fd)

/-- What a part of serving a client comes to. -/
def Carried (K : Kernel) (fd : Fd) {α : Type} (w : World Daemon) (r : Except Exception α)
    (w' : World Daemon) : Prop :=
  ∃ w₁, Acts K fd w w₁ ∧ (w' = w₁ ∨ (∃ e, r = .error e) ∧ Break K fd w₁ w')

theorem Carried.of_acts {α : Type} (r : Except Exception α) (h : Acts K fd w w') :
    Carried K fd w r w' := ⟨w', h, Or.inl rfl⟩

theorem Carried.refl {α : Type} (r : Except Exception α) : Carried K fd w r w :=
  .of_acts r .refl

theorem Carried.trans {α : Type} {r : Except Exception α} {w₁ : World Daemon}
    (h : Acts K fd w w₁) (h' : Carried K fd w₁ r w') : Carried K fd w r w' := by
  obtain ⟨w₂, hacts, hend⟩ := h'
  exact ⟨w₂, h.trans hacts, hend⟩

/-- Where a part returns, it was acts only. -/
theorem Carried.acts {α : Type} {a : α} (h : Carried K fd w (.ok a) w') : Acts K fd w w' := by
  obtain ⟨w₁, hacts, rfl | ⟨⟨e, he⟩, -⟩⟩ := h
  · exact hacts
  · cases he

/-- Where a part throws, the whole does. -/
theorem Carried.throw {α β : Type} {e : Exception}
    (h : Carried K fd w (.error e : Except Exception α) w') :
    Carried K fd w (.error e : Except Exception β) w' := by
  obtain ⟨w₁, hacts, hend⟩ := h
  exact ⟨w₁, hacts, hend.imp_right fun hbreak => ⟨⟨e, rfl⟩, hbreak.2⟩⟩

/-! ## Acts are steps -/

/-- A request at work: only its own connection has changed, and a response is truthful. -/
theorem asked_spec (h : Sound n ⟨w, []⟩) (hfind : w.st.connections.find fd = some c)
    {request : Bytes} {decoder : FrameDecoder} {r : Except Exception Bytes}
    (hpop : c.decoder.popFrame = .ok (request, decoder))
    (hrun : handleRequest K request (askedWorld w fd c request decoder) = (r, w')) :
    ServedAt K fd w w' ∧ w'.st.connections = w.st.connections.set fd { c with decoder } ∧
      (∃ events, w'.log = w.log ++ .asked fd request :: events ∧ ∀ e ∈ events, loopEvent e = false) ∧
      ∀ response, r = .ok response → Truthful w'.log request response := by
  have hpopped : ServedAt K fd w (askedWorld w fd c request decoder) :=
    ServedAt.tend hfind (Tending.pop hpop)
  obtain ⟨hrequested, htruthful⟩ := wp_run (handleRequest_spec (hpopped.sound h) request) hrun
  obtain ⟨hsame, events, hlog, hquiet⟩ := quiet_of_walk requests_le_quiet hrequested.1
  refine ⟨hpopped.trans (hrequested.mono (requests_le_serves fd)), hsame, ⟨events, ?_, hquiet⟩,
    htruthful⟩
  rw [hlog]
  simp [askedWorld]

/-- The connection of a request while it is handled. -/
theorem find_of_asked {decoder : FrameDecoder}
    (h : w'.st.connections = w.st.connections.set fd { c with decoder }) :
    w'.st.connections.find fd = some { c with decoder } := by
  rw [h]
  exact Table.find_set_self _ _ _

theorem ServedAt.answer {request response : Bytes} {connections : Table Fd Connection}
    (hfind : w.st.connections.find fd = some c)
    (hresponding : Responding w.st.connections fd c response connections)
    (htruthful : Truthful w.log request response) :
    ServedAt K fd w
      ⟨{ w.st with connections }, w.log ++ [.answered fd request response]⟩ :=
  ⟨Walk.single (by simp [Label.serves]) (Step.answer hfind hresponding htruthful), id⟩

theorem Act.served (h : Sound n ⟨w, []⟩) (hact : Act K fd w w') : ServedAt K fd w w' := by
  cases hact with
  | attend hevents => exact ServedAt.attend hevents
  | tend hfind htending => exact ServedAt.tend hfind htending
  | rearm hfind => exact ⟨Walk.single (by simp [Label.serves]) (Step.rearm hfind), id⟩
  | exchange hfind hpop hrun hframe =>
    obtain ⟨hserved, hsame, -, htruthful⟩ := asked_spec h hfind hpop hrun
    exact hserved.trans
      (ServedAt.answer (find_of_asked hsame) (Or.inl ⟨_, hframe, rfl⟩) (htruthful _ rfl))

theorem Break.served (h : Sound n ⟨w, []⟩) (hbreak : Break K fd w w') : ServedAt K fd w w' := by
  cases hbreak with
  | choked hfind hfeed => exact ServedAt.tend hfind (Tending.choke hfeed)
  | thrown hfind hpop hrun => exact (asked_spec h hfind hpop hrun).1
  | oversized hfind hpop hrun hframe =>
    obtain ⟨hserved, hsame, -, htruthful⟩ := asked_spec h hfind hpop hrun
    exact hserved.trans
      (ServedAt.answer (find_of_asked hsame) (Or.inr ⟨⟨_, hframe⟩, rfl⟩) (htruthful _ rfl))

theorem served_of_acts (h : Sound n ⟨w, []⟩) (hacts : Acts K fd w w') : ServedAt K fd w w' := by
  induction hacts with
  | refl => exact ServedAt.refl K fd w
  | tail _ hlast ih => exact ih.trans (hlast.served (ih.sound h))

theorem Carried.served {α : Type} {r : Except Exception α} (h : Sound n ⟨w, []⟩)
    (hcarried : Carried K fd w r w') : ServedAt K fd w w' := by
  obtain ⟨w₁, hacts, hend⟩ := hcarried
  have hserved := served_of_acts h hacts
  rcases hend with rfl | ⟨-, hbreak⟩
  · exact hserved
  · exact hserved.trans (hbreak.served (hserved.sound h))

/-! ## Writing -/

/-- What a part of serving a client comes to that takes nothing from the decoder. -/
def Written (K : Kernel) (fd : Fd) (c : Connection) (w w' : World Daemon) : Prop :=
  Acts K fd w w' ∧ ∃ c', w'.st.connections.find fd = some c' ∧ c'.decoder = c.decoder

theorem Written.refl (hfind : w.st.connections.find fd = some c) : Written K fd c w w :=
  ⟨.refl, c, hfind, rfl⟩

theorem Written.attend {events : List Event} (hfind : w.st.connections.find fd = some c)
    (hevents : ∀ e ∈ events, choreEvent e) : Written K fd c w ⟨w.st, w.log ++ events⟩ :=
  ⟨.single (.attend hevents), c, hfind, rfl⟩

theorem clearWriteBuffer_spec (hfind : w.st.connections.find fd = some c)
    (hdone : hasPendingWrite c = false) :
    wp (clearWriteBuffer fd) (fun r w' => Written K fd c w w' ∧ r = .ok true) w := by
  refine wp_bind_ok (modifyConnection_run hfind _) (wp_pure ⟨⟨?_, ?_⟩, rfl⟩)
  · have hact : Act K fd w _ := Act.tend hfind (Tending.clear hdone) (by simp) (by simp)
    rw [List.append_nil] at hact
    exact .single hact
  · exact ⟨_, Table.find_set_self _ _ _, rfl⟩

theorem writeLoop_spec (writes : Writes) (hfind : w.st.connections.find fd = some c) :
    wp (writeLoop fd writes)
      (fun r w' => Written K fd c w w' ∧ (r = .ok false → writes.fails)) w := by
  have hclear : hasPendingWrite c = false → wp (clearWriteBuffer fd)
      (fun r w' => Written K fd c w w' ∧ (r = .ok false → writes.fails)) w := fun hdone =>
    wp_mono (clearWriteBuffer_spec hfind hdone) fun r w' h => ⟨h.1, fun hr => by
      rw [h.2] at hr
      cases hr⟩
  induction writes generalizing w c with
  | wrote count rest ih =>
    refine wp_bind_ok (connectionAt_run hfind) ?_
    split_ifs with hpending
    · exact hclear hpending
    rw [Bool.not_eq_false] at hpending
    set bytes := accepted count (c.writeBuffer.drop c.writeOffset) with hbytes
    have hact : Act K fd w _ := Act.tend hfind (Tending.write hpending hbytes) (by simp) (by simp)
    have hfind' : (w.emit (.sent fd bytes)).st.connections.find fd = some c := hfind
    refine wp_bind_ok (emit_run w _) (wp_bind_ok (modifyConnection_run hfind' _) ?_)
    have hnext := Table.find_set_self w.st.connections fd
      { c with writeOffset := c.writeOffset + bytes.length }
    refine wp_mono (ih hnext fun hdone => ?_) fun r w' h => ?_
    · refine wp_mono (clearWriteBuffer_spec hnext hdone) fun r w' h => ⟨h.1, fun hr => ?_⟩
      rw [h.2] at hr
      cases hr
    · exact ⟨⟨h.1.1.head hact, h.1.2⟩, h.2⟩
  | interrupted rest ih =>
    refine wp_bind_ok (connectionAt_run hfind) ?_
    split_ifs with hpending
    · exact hclear hpending
    · exact ih hfind hclear
  | again =>
    refine wp_bind_ok (connectionAt_run hfind) ?_
    split_ifs with hpending
    · exact hclear hpending
    · refine wp_bind_ok (emit_run w _) (wp_pure ⟨?_, fun hr => by cases hr⟩)
      exact .attend hfind (by simp [choreEvent])
  | failed =>
    refine wp_bind_ok (connectionAt_run hfind) ?_
    split_ifs with hpending
    · exact hclear hpending
    · exact wp_bind_ok (emit_run w _)
        (wp_pure ⟨.attend hfind (by simp [choreEvent]), fun _ => rfl⟩)

/-! ## Reading -/

/-- The decoder of a connection holds no complete request. -/
def Emptied (w : World Daemon) (fd : Fd) : Prop :=
  ∃ c, w.st.connections.find fd = some c ∧ c.decoder.hasFrame = .ok false

/-- The loop over the requests of a decoder, given fuel for each. -/
theorem frameLoop_spec (fuel : ℕ) (h : Sound n ⟨w, []⟩)
    (hfind : w.st.connections.find fd = some c) (hfuel : c.decoder.buffer.length < fuel) :
    wp (frameLoop K fd fuel)
      (fun r w' => Carried K fd w r w' ∧ (r = .ok () → Emptied w' fd)) w := by
  induction fuel generalizing w c with
  | zero => omega
  | succ fuel ih =>
  have hstop : ∀ e : Exception, Carried K fd w (.error e : Except Exception Unit) w ∧
      ((.error e : Except Exception Unit) = .ok () → Emptied w fd) :=
    fun e => ⟨.refl _, fun hr => by cases hr⟩
  refine wp_bind_ok (connectionAt_run hfind) ?_
  cases hmore : c.decoder.hasFrame with
  | error e => exact wp_of_run (bind_of_error (ofExcept_run _ _)) (hstop e)
  | ok more =>
  refine wp_bind_ok (ofExcept_run _ _) ?_
  split_ifs with hempty
  · exact wp_pure ⟨.refl _, fun _ => ⟨c, hfind, by rw [hmore, hempty]⟩⟩
  cases hpop : c.decoder.popFrame with
  | error e => exact wp_of_run (bind_of_error (ofExcept_run _ _)) (hstop e)
  | ok popped =>
  obtain ⟨request, decoder⟩ := popped
  have hshorter := FrameDecoder.length_of_popFrame hpop
  refine wp_bind_ok (ofExcept_run _ _) ?_
  refine wp_bind_ok (modifyConnection_run hfind _) (wp_bind_ok (emit_run _ _) ?_)
  change wp _ _ (askedWorld w fd c request decoder)
  rcases hrun : handleRequest K request (askedWorld w fd c request decoder) with ⟨r, w2⟩
  obtain ⟨hserved, hsame, -⟩ := asked_spec h hfind hpop hrun
  have hfind2 := find_of_asked hsame
  cases r with
  | error e =>
    refine wp_of_run (bind_of_error hrun) ⟨⟨w, .refl, Or.inr ⟨⟨e, rfl⟩, ?_⟩⟩, fun hr => by cases hr⟩
    exact .thrown hfind hpop hrun
  | ok response =>
  refine wp_bind_ok hrun (wp_bind_ok (emit_run w2 _) ?_)
  cases hframe : encodeFrame response with
  | error e =>
    refine wp_of_run (bind_of_error (ofExcept_run _ _))
      ⟨⟨w, .refl, Or.inr ⟨⟨e, rfl⟩, ?_⟩⟩, fun hr => by cases hr⟩
    exact .oversized hfind hpop hrun hframe
  | ok frame =>
  have hact : Act K fd w _ := Act.exchange hfind hpop hrun hframe
  have happend := modifyConnection_run (w := w2.emit (.answered fd request response)) hfind2
    fun connection => { connection with writeBuffer := connection.writeBuffer ++ frame }
  refine wp_bind_ok (ofExcept_run _ _) (wp_bind_ok happend ?_)
  have hrest := ih ((hact.served h).sound h) (Table.find_set_self _ _ _) (by simp only; omega)
  exact wp_mono hrest fun r w' h' => ⟨.trans (.single hact) h'.1, h'.2⟩

/-- The bytes go into the decoder, which may throw. -/
theorem feedConnection_spec (data : Bytes) (hfind : w.st.connections.find fd = some c) :
    wp (feedConnection fd data)
      (fun r w' => Carried K fd w r w' ∧ ∃ c', w'.st.connections.find fd = some c')
      (w.emit (.received fd data)) := by
  refine wp_bind_ok (connectionAt_run (by exact hfind)) ?_
  refine wp_bind_ok (modifyConnection_run (by exact hfind) _) (wp_ofExcept ⟨?_, ?_⟩)
  · rcases hfeed : c.decoder.feed data with ⟨e | _, decoder⟩
    · exact ⟨w, .refl, Or.inr ⟨⟨e, rfl⟩, .choked hfind hfeed⟩⟩
    · refine .of_acts _ (.single (Act.tend hfind (Tending.feed hfeed) (by simp) ?_))
      intro bytes hbytes
      obtain ⟨-, rfl⟩ : fd = fd ∧ bytes = data := by simpa using hbytes
      exact hfeed
  · exact ⟨_, Table.find_set_self _ _ _⟩

/-- The loop of `handleClientRead`: where it returns, every complete request has been answered. -/
theorem readLoop_spec (reads : Reads) (h : Sound n ⟨w, []⟩)
    (hfind : w.st.connections.find fd = some c) :
    wp (readLoop K fd reads) (fun r w' => Carried K fd w r w' ∧
      (r = .ok false → reads.fails) ∧
      ((∃ alive, r = .ok alive) → Emptied w fd → Emptied w' fd)) w := by
  induction reads generalizing w c with
  | data bytes rest ih =>
    refine wp_bind_ok (emit_run w _) ?_
    refine wp_bind (feedConnection_spec (K := K) bytes hfind) (fun _ w1 h1 => ?_) fun e w1 h1 => ?_
    swap
    · refine ⟨h1.1.throw, (fun hr => by cases hr), ?_⟩
      rintro ⟨alive, hr⟩
      cases hr
    obtain ⟨hcarried1, c1, hfind1⟩ := h1
    have hacts1 := hcarried1.acts
    have hsound1 := (served_of_acts h hacts1).sound h
    refine wp_bind_ok (connectionAt_run hfind1) ?_
    refine wp_bind (frameLoop_spec _ hsound1 hfind1 (Nat.lt_succ_self _)) (fun _ w2 h2 => ?_)
      fun e w2 h2 => ?_
    · have hacts2 := hacts1.trans h2.1.acts
      have hempty2 := h2.2 rfl
      obtain ⟨c2, hfind2, -⟩ := id hempty2
      refine wp_mono (ih ((served_of_acts h hacts2).sound h) hfind2) fun r w' h3 => ?_
      exact ⟨.trans hacts2 h3.1, h3.2.1, fun hr _ => h3.2.2 hr hempty2⟩
    · refine ⟨.trans hacts1 h2.1.throw, (fun hr => by cases hr), ?_⟩
      rintro ⟨alive, hr⟩
      cases hr
  | interrupted rest ih => exact ih h hfind
  | eof =>
    refine wp_bind_ok (emit_run w _) (wp_bind_ok (modifyConnection_run (by exact hfind) _) ?_)
    refine wp_pure ⟨.of_acts _ (.single (Act.tend hfind Tending.finish (by simp) (by simp))),
      (fun hr => by cases hr), ?_⟩
    rintro - ⟨c', hfind', hempty⟩
    rw [hfind] at hfind'
    obtain rfl := Option.some.inj hfind'
    exact ⟨_, Table.find_set_self _ _ _, hempty⟩
  | again =>
    refine wp_bind_ok (emit_run w _) (wp_pure ⟨.of_acts _ (.single ?_), (fun hr => by cases hr),
      fun _ hempty => hempty⟩)
    exact .attend (by simp [choreEvent])
  | failed e =>
    refine wp_bind_ok (emit_run w _) (wp_pure ⟨.of_acts _ (.single ?_), fun _ => rfl,
      fun _ hempty => hempty⟩)
    exact .attend (by simp [choreEvent])

/-! ## A whole event -/

/-- `epoll` reported an error, or a call failed while the client was served: the reading or the writing
that the event asks for, or the `epoll_ctl` after them. -/
inductive Faulted (K : Kernel) (fd : Fd) (eventMask : EventMask) (w : World Daemon) : Prop where
  | reported (hmask : eventMask.epollerr ∨ eventMask.epollhup)
  | read (hmask : eventMask.epollin ∨ eventMask.epollrdhup) (hfails : (K.read w.log fd).fails)
  | write {w₁ : World Daemon} (hread : readClient K fd eventMask w = (.ok true, w₁))
      (hmask : eventMask.epollout) (hfails : (K.write w₁.log fd).fails)
  | epollCtl {w₁ w₂ : World Daemon} {e : Errno}
      (hread : readClient K fd eventMask w = (.ok true, w₁))
      (hwrite : writeClient K fd eventMask true w₁ = (.ok true, w₂))
      (hfails : K.epollCtl w₂.log fd = .error e)

/-- What an event of a connection comes to, up to the question whether the connection stays. -/
structure ClientServed (K : Kernel) (fd : Fd) (eventMask : EventMask) (w : World Daemon)
    (r : Except Exception Bool) (w' : World Daemon) : Prop where
  carried : Carried K fd w r w'
  /-- A connection that stays is watched for what it waits for. -/
  kept : r = .ok true → ∃ c log, w'.st.connections.find fd = some c ∧
    w'.log = log ++ [.modified fd (clientEvents c)] ∧ (c.readClosed → hasPendingWrite c) ∧
    (Emptied w fd → c.decoder.hasFrame = .ok false)
  /-- One that does not has failed or is done. -/
  ended : r = .ok false → Faulted K fd eventMask w ∨
    ∃ c, w'.st.connections.find fd = some c ∧ c.readClosed ∧ hasPendingWrite c = false ∧
      (Emptied w fd → c.decoder.hasFrame = .ok false)

/-- The reading: nothing happens unless the mask asks for it. -/
theorem readClient_spec (eventMask : EventMask) (h : Sound n ⟨w, []⟩)
    (hfind : w.st.connections.find fd = some c) :
    wp (readClient K fd eventMask) (fun r w' => Carried K fd w r w' ∧
      (r = .ok false → (eventMask.epollin ∨ eventMask.epollrdhup) ∧ (K.read w.log fd).fails) ∧
      ((∃ alive, r = .ok alive) → Emptied w fd → Emptied w' fd)) w := by
  unfold readClient
  split_ifs with hmask
  · refine wp_bind_ok (history_run w) (wp_mono (readLoop_spec _ h hfind) fun r w' h1 => ?_)
    exact ⟨h1.1, fun hr => ⟨hmask, h1.2.1 hr⟩, h1.2.2⟩
  · exact wp_pure ⟨.refl _, (fun hr => by cases hr), fun _ hempty => hempty⟩

/-- The writing. -/
theorem writeClient_spec (eventMask : EventMask) (alive : Bool)
    (hfind : w.st.connections.find fd = some c) :
    wp (writeClient K fd eventMask alive) (fun r w' => Written K fd c w w' ∧
      (r = .ok false → alive = false ∨ eventMask.epollout ∧ (K.write w.log fd).fails)) w := by
  unfold writeClient
  split_ifs with hmask
  · refine wp_bind_ok (history_run w) (wp_mono (writeLoop_spec (K := K) _ hfind) fun r w' h => ?_)
    exact ⟨h.1, fun hr => Or.inr ⟨hmask.2, h.2 hr⟩⟩
  · exact wp_pure ⟨.refl hfind, fun hr => Or.inl (Except.ok.inj hr)⟩

/-- The end: the connection is done with, or `epoll` is told what it waits for. -/
theorem keepClient_spec (eventMask : EventMask) (alive : Bool)
    (hfind : w.st.connections.find fd = some c) :
    wp (keepClient K fd eventMask alive) (fun r w' => Written K fd c w w' ∧
      w'.st.connections = w.st.connections ∧
      (r = .ok true → w'.log = w.log ++ [.modified fd (clientEvents c)] ∧
        (c.readClosed → hasPendingWrite c)) ∧
      (r = .ok false → alive = false ∨ eventMask.epollhup ∨
        (∃ e, K.epollCtl w.log fd = .error e) ∨ c.readClosed ∧ hasPendingWrite c = false)) w := by
  unfold keepClient
  split_ifs with hgone
  · exact wp_pure ⟨.refl hfind, rfl, (fun hr => by cases hr), fun _ => hgone.imp_right Or.inl⟩
  refine wp_bind_ok (connectionAt_run hfind) ?_
  split_ifs with hdone
  · exact wp_pure ⟨.refl hfind, rfl, (fun hr => by cases hr),
      fun _ => Or.inr (Or.inr (Or.inr hdone))⟩
  refine wp_bind_ok (connectionAt_run hfind) ?_
  obtain ⟨e, he, hrun⟩ | hrun := epollMod_run K w fd (clientEvents c)
  · refine wp_bind_ok hrun (wp_pure ⟨.attend hfind (by simp [choreEvent]), rfl,
      (fun hr => by cases hr), fun _ => ?_⟩)
    exact Or.inr (Or.inr (Or.inl ⟨e, he⟩))
  · refine wp_bind_ok hrun (wp_pure ⟨⟨.single (.rearm hfind), c, hfind, rfl⟩, rfl,
      fun _ => ⟨rfl, fun hclosed => ?_⟩, fun hr => by cases hr⟩)
    rw [not_and, Bool.not_eq_false] at hdone
    exact hdone hclosed

theorem serveClient_spec (eventMask : EventMask) (h : Sound n ⟨w, []⟩)
    (hfind : w.st.connections.find fd = some c) :
    wp (serveClient K fd eventMask) (fun r w' => ClientServed K fd eventMask w r w') w := by
  unfold serveClient
  split_ifs with herr
  · exact wp_pure ⟨.refl _, (fun hr => by cases hr), fun _ => Or.inl (.reported (Or.inl herr))⟩
  rcases hread : readClient K fd eventMask w with ⟨r1, w1⟩
  obtain ⟨hcarried1, hfails1, hempty1⟩ := wp_run (readClient_spec eventMask h hfind) hread
  cases r1 with
  | error e =>
    exact wp_of_run (bind_of_error hread) ⟨hcarried1, (fun hr => by cases hr), fun hr => by cases hr⟩
  | ok alive =>
  refine wp_bind_ok hread ?_
  have hacts1 := hcarried1.acts
  have hserved1 := served_of_acts h hacts1
  obtain ⟨c1, hfind1⟩ := hserved1.find hfind
  rcases hwrite : writeClient K fd eventMask alive w1 with ⟨r2, w2⟩
  obtain ⟨⟨hacts2, c2, hfind2, hdecoder2⟩, hfails2⟩ :=
    wp_run (writeClient_spec (K := K) eventMask alive hfind1) hwrite
  cases r2 with
  | error e =>
    exact wp_of_run (bind_of_error hwrite) ⟨.of_acts _ (hacts1.trans hacts2),
      (fun hr => by cases hr), fun hr => by cases hr⟩
  | ok alive2 =>
  refine wp_bind_ok hwrite (wp_mono (keepClient_spec (K := K) eventMask alive2 hfind2)
    fun r w3 h3 => ?_)
  obtain ⟨⟨hacts3, -⟩, hsame3, hkept3, hended3⟩ := h3
  have hfind3 : w3.st.connections.find fd = some c2 := hsame3 ▸ hfind2
  have hempty3 : Emptied w fd → c2.decoder.hasFrame = .ok false := fun hempty => by
    obtain ⟨c', hfind', hempty'⟩ := hempty1 ⟨alive, rfl⟩ hempty
    rw [hfind1] at hfind'
    obtain rfl := Option.some.inj hfind'
    rw [hdecoder2, hempty']
  refine ⟨.of_acts r ((hacts1.trans hacts2).trans hacts3), fun hr => ?_, fun hr => ?_⟩
  · exact ⟨c2, w2.log, hfind3, (hkept3 hr).1, (hkept3 hr).2, hempty3⟩
  -- whatever failed before is what ends the connection
  cases alive with
  | false => exact Or.inl (.read (hfails1 rfl).1 (hfails1 rfl).2)
  | true =>
    rcases hended3 hr with rfl | hhup | ⟨e, hctl⟩ | hdone
    · rcases hfails2 rfl with halive | hfails
      · cases halive
      · exact Or.inl (.write hread hfails.1 hfails.2)
    · exact Or.inl (.reported (Or.inr hhup))
    · cases alive2 with
      | false =>
        rcases hfails2 rfl with halive | hfails
        · cases halive
        · exact Or.inl (.write hread hfails.1 hfails.2)
      | true => exact Or.inl (.epollCtl hread hwrite hctl)
    · exact Or.inr ⟨c2, hfind3, hdone.1, hdone.2, hempty3⟩

end Daemon

end Runnerd
