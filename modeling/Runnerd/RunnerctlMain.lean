import Runnerd.Daemon
import Runnerd.FrameStream
import Runnerd.Runnerctl
import Runnerd.UnixSocket

/-!
# A run of the client

`main` of `runnerctl_main.cpp` with `writeAll` and `readFrame`: one request and one response over a
connection of its own. The client's environment is what the system calls return to it, its history
what it does to descriptors and what it sends, receives and prints.
-/

namespace Runnerd

open Effect Effect.Prog

namespace Runnerctl

/-- What the system calls of the client return. Those that it repeats are listed up to the one that
ends the loop. -/
structure Environment where
  strerror : ℤ → Bytes
  programName : Bytes
  answer : (c : UnixSocket.Call) → c.Answer
  write : Writes
  read : Reads

inductive ClientEvent where
  | opened (fd : Fd)
  | closed (fd : Fd)
  | sent (bytes : Bytes)
  | received (bytes : Bytes)
  | stdout (bytes : Bytes)
  | stderr (bytes : Bytes)
  deriving DecidableEq, Repr

/-- A computation of the client, over `socket_fd`. -/
abbrev ClientProg (α : Type) := Effect.Prog ClientEvent Exception (Option Fd) α

abbrev ClientWorld := Effect.World ClientEvent (Option Fd)

/-- The client as it is started. -/
def start : ClientWorld := ⟨none, []⟩

/-- What a call about the socket leaves in the history. -/
def record : (c : UnixSocket.Call) → c.Answer → ClientProg Unit
  | .socket, .ok fd => emit (.opened fd)
  | .close fd, _ => emit (.closed fd)
  | _, _ => pure ()

variable (E : Environment)

/-- A program of `unix_socket.cpp`, run by the client. -/
def perform {α : Type} : UnixSocket.Program α → ClientProg α
  | .done a => pure a
  | .throw what => throw (.runtimeError what)
  | .call c next => do
    record c (E.answer c)
    perform (next (E.answer c))

def printUsage : ClientProg Unit :=
  emit (.stderr (text "Usage:\n" ++
    text "  " ++ E.programName ++ text " [--socket <path>] ping\n" ++
    text "  " ++ E.programName ++ text " [--socket <path>] submit [--timeout <milliseconds>] " ++
      text "-- <absolute-path> [arguments...]\n" ++
    text "  " ++ E.programName ++ text " [--socket <path>] status <job_id>\n" ++
    text "  " ++ E.programName ++ text " [--socket <path>] list\n" ++
    text "  " ++ E.programName ++ text " [--socket <path>] cancel <job_id>\n"))

/-- The loop of `writeAll`: the bytes that are still to be written. -/
def writeAll : Writes → Bytes → ClientProg Bool
  | .wrote count rest, data =>
    if data = [] then return true
    else do
      let bytes := Daemon.accepted count data
      emit (.sent bytes)
      writeAll rest (data.drop bytes.length)
  | .interrupted rest, data => if data = [] then return true else writeAll rest data
  | .again, data | .failed, data => return decide (data = [])

/-- The loop of `readFrame`. Without `O_NONBLOCK` a `read` that would block is an error. -/
def readFrame : Reads → FrameDecoder → ClientProg (Option Bytes)
  | reads, decoder => do
    if (← ofExcept decoder.hasFrame) = true then
      let popped ← ofExcept decoder.popFrame
      return some popped.1
    else
      match reads with
      | .data bytes rest => do
        emit (.received bytes)
        let (fed, decoder) := decoder.feed bytes
        ofExcept fed
        readFrame rest decoder
      | .eof => return none
      | .interrupted rest => readFrame rest decoder
      | .again => throw (.systemError (.other 11) (text "read response frame"))
      | .failed e => throw (.systemError e (text "read response frame"))

/-- The `try` block of `main`. -/
def converse (commandLine : CommandLine) : ClientProg ℕ := do
  let socketFd ← perform E (UnixSocket.connectUnixSocket E.strerror commandLine.socketPath)
  update fun _ => some socketFd
  let requestPayload ← ofExcept (makeRequestPayload commandLine)
  let request ← ofExcept (encodeFrame requestPayload)
  if (← writeAll E.write request) = false then
    throw (.runtimeError (text "failed to send request"))
  else
    match ← readFrame E.read {} with
    | none =>
      throw (.runtimeError (text "server disconnected before sending a complete response"))
    | some response => do
      let outcome := handleResponse commandLine response
      emit (.stdout outcome.out)
      emit (.stderr outcome.err)
      emit (.closed socketFd)
      return if outcome.succeeded then 0 else 1

/-- The `catch` clause of `main`. -/
def complain (exception : Exception) : ClientProg ℕ := do
  match ← state with
  | none => pure ()
  | some socketFd => emit (.closed socketFd)
  emit (.stderr (text "runnerctl error: " ++ exception.what E.strerror ++ text "\n"))
  return 1

/-- The exit status of the client, for the arguments behind the program's name. -/
def main (args : List Bytes) : ClientProg ℕ :=
  match parseCommandLine args with
  | .error error => do
    emit (.stderr (text "runnerctl error: " ++ error ++ text "\n"))
    printUsage E
    return 1
  | .ok commandLine => tryCatch (converse E commandLine) (complain E)

/-! ## What a run shows -/

/-- The bytes that were sent. -/
def sentBy (log : List ClientEvent) : Bytes := log.flatMap fun e => match e with
  | .sent bytes => bytes
  | _ => []

/-- The bytes that were received. -/
def receivedBy (log : List ClientEvent) : Bytes := log.flatMap fun e => match e with
  | .received bytes => bytes
  | _ => []

/-- What was printed to the standard output. -/
def stdoutOf (log : List ClientEvent) : Bytes := log.flatMap fun e => match e with
  | .stdout bytes => bytes
  | _ => []

/-- What was printed to the standard error output. -/
def stderrOf (log : List ClientEvent) : Bytes := log.flatMap fun e => match e with
  | .stderr bytes => bytes
  | _ => []

/-- The descriptors left open. -/
def leftOpen (log : List ClientEvent) : List Fd := log.foldl (fun fds e => match e with
  | .opened fd => fd :: fds
  | .closed fd => fds.erase fd
  | _ => fds) []

variable {E : Environment} {w w' : ClientWorld} {log events : List ClientEvent}
  {commandLine : CommandLine}

theorem sentBy_append (log events : List ClientEvent) :
    sentBy (log ++ events) = sentBy log ++ sentBy events := List.flatMap_append

theorem receivedBy_append (log events : List ClientEvent) :
    receivedBy (log ++ events) = receivedBy log ++ receivedBy events := List.flatMap_append

theorem stdoutOf_append (log events : List ClientEvent) :
    stdoutOf (log ++ events) = stdoutOf log ++ stdoutOf events := List.flatMap_append

theorem stderrOf_append (log events : List ClientEvent) :
    stderrOf (log ++ events) = stderrOf log ++ stderrOf events := List.flatMap_append

theorem leftOpen_append (log events : List ClientEvent) :
    leftOpen (log ++ events) = events.foldl (fun fds e => match e with
      | .opened fd => fd :: fds
      | .closed fd => fds.erase fd
      | _ => fds) (leftOpen log) := List.foldl_append

/-! ## The loops -/

/-- What goes over the connection. -/
def exchanges : ClientEvent → Bool
  | .sent _ | .received _ => true
  | _ => false

theorem leftOpen_exchanges (h : ∀ e ∈ events, exchanges e) :
    leftOpen (log ++ events) = leftOpen log := by
  rw [leftOpen_append]
  induction events with
  | nil => rfl
  | cons e events ih =>
    obtain ⟨he, hrest⟩ := List.forall_mem_cons.mp h
    rw [List.foldl_cons]
    cases e <;> first | exact ih hrest | cases he

/-- The loop writes the bytes from the front on, and returns `true` if these are all. -/
theorem writeAll_spec (writes : Writes) (data : Bytes) :
    wp (writeAll writes data) (fun r w' => ∃ events done, w' = ⟨w.st, w.log ++ events⟩ ∧
      r = .ok done ∧ (∀ e ∈ events, exchanges e) ∧ receivedBy events = [] ∧
      sentBy events <+: data ∧ (done = true ↔ sentBy events = data)) w := by
  induction writes generalizing data w with
  | wrote count rest ih =>
    unfold writeAll
    split_ifs with hnil
    · refine wp_pure ⟨[], true, by simp, rfl, by simp, rfl, List.nil_prefix, ?_⟩
      simp [hnil, sentBy]
    · have hback : Daemon.accepted count data ++ data.drop (Daemon.accepted count data).length =
          data := List.prefix_iff_eq_append.mp (List.take_prefix _ _)
      refine wp_bind_ok (emit_run w _) (wp_mono (ih _) ?_)
      rintro r w' ⟨events, done, rfl, rfl, hevents, hreceived, hbegins, hdone⟩
      refine ⟨.sent (Daemon.accepted count data) :: events, done, by simp, rfl,
        List.forall_mem_cons.mpr ⟨rfl, hevents⟩, hreceived, ?_, ?_⟩
      · show Daemon.accepted count data ++ sentBy events <+: data
        conv_rhs => rw [← hback]
        exact (List.prefix_append_right_inj _).mpr hbegins
      · show done = true ↔ Daemon.accepted count data ++ sentBy events = data
        conv_rhs => rhs; rw [← hback]
        rw [List.append_right_inj]
        exact hdone
  | interrupted rest ih =>
    unfold writeAll
    split_ifs with hnil
    · refine wp_pure ⟨[], true, by simp, rfl, by simp, rfl, List.nil_prefix, ?_⟩
      simp [hnil, sentBy]
    · exact ih _
  | again | failed =>
    refine wp_pure ⟨[], decide (data = []), by simp, rfl, by simp, rfl, List.nil_prefix, ?_⟩
    exact decide_eq_true_iff.trans eq_comm

/-- A `read` into a buffer of 4096 bytes. -/
def FitsBuffer : Reads → Prop
  | .data bytes rest => bytes.length ≤ 4096 ∧ FitsBuffer rest
  | .interrupted rest => FitsBuffer rest
  | _ => True

theorem readFrame_found (reads : Reads) {decoder : FrameDecoder} {response rest : Bytes}
    (h : nextFrame decoder.buffer = .item response rest) :
    readFrame reads decoder w = (.ok (some response), w) := by
  unfold readFrame
  rw [FrameDecoder.hasFrame_of_item h, bind_of_ok (ofExcept_run _ _), if_pos rfl,
    FrameDecoder.popFrame_of_item h, bind_of_ok (ofExcept_run _ _)]
  rfl

theorem readFrame_bad (reads : Reads) {decoder : FrameDecoder} {e : Exception}
    (h : nextFrame decoder.buffer = .bad e) : readFrame reads decoder w = (.error e, w) := by
  unfold readFrame
  rw [FrameDecoder.hasFrame_of_bad h, bind_of_error (ofExcept_run _ _)]

/-- What the loop has come to when it ends: it returns the first frame of all it has received, or
there is none. -/
def Read (fits : Prop) (buffer : Bytes) (w : ClientWorld) (r : Except Exception (Option Bytes))
    (w' : ClientWorld) : Prop :=
  ∃ events, w' = ⟨w.st, w.log ++ events⟩ ∧ (∀ e ∈ events, exchanges e) ∧ sentBy events = [] ∧
    ((∃ response rest, r = .ok (some response) ∧
        nextFrame (buffer ++ receivedBy events) = .item response rest) ∨
      (∀ response, r ≠ .ok (some response)) ∧ (fits →
        ∀ response rest, nextFrame (buffer ++ receivedBy events) ≠ .item response rest))

theorem Read.ended {fits : Prop} {buffer : Bytes} {r : Except Exception (Option Bytes)}
    (hr : ∀ response, r ≠ .ok (some response))
    (hnone : ∀ response rest, nextFrame buffer ≠ .item response rest) : Read fits buffer w r w := by
  refine ⟨[], by simp, by simp, rfl, Or.inr ⟨hr, fun _ => ?_⟩⟩
  rw [show receivedBy [] = [] from rfl, List.append_nil]
  exact hnone

/-- More bytes stand behind those that came before. -/
theorem Read.received {fits fits' : Prop} {buffer bytes : Bytes}
    {r : Except Exception (Option Bytes)}
    (h : Read fits' (buffer ++ bytes) (w.emit (.received bytes)) r w') (himp : fits → fits') :
    Read fits buffer w r w' := by
  obtain ⟨events, rfl, hevents, hsent, hend⟩ := h
  have hjoin : buffer ++ receivedBy (.received bytes :: events) =
      buffer ++ bytes ++ receivedBy events := (List.append_assoc _ _ _).symm
  refine ⟨.received bytes :: events, by simp, List.forall_mem_cons.mpr ⟨rfl, hevents⟩, hsent, ?_⟩
  rw [hjoin]
  exact hend.imp_right fun ⟨hr, hnone⟩ => ⟨hr, fun hfits => hnone (himp hfits)⟩

/-- Before a frame is complete, the loop goes on to the next `read`. -/
theorem readFrame_waits {reads : Reads} {decoder : FrameDecoder}
    {Q : Except Exception (Option Bytes) → ClientWorld → Prop}
    (hfound : ∀ response rest, nextFrame decoder.buffer = .item response rest →
      Q (.ok (some response)) w)
    (hbad : ∀ e, nextFrame decoder.buffer = .bad e → Q (.error e) w)
    (hwait : nextFrame decoder.buffer = .incomplete →
      wp (match reads with
        | .data bytes rest => do
          emit (.received bytes)
          let (fed, decoder) := decoder.feed bytes
          ofExcept fed
          readFrame rest decoder
        | .eof => return none
        | .interrupted rest => readFrame rest decoder
        | .again => throw (.systemError (.other 11) (text "read response frame"))
        | .failed e => throw (.systemError e (text "read response frame"))) Q w) :
    wp (readFrame reads decoder) Q w := by
  cases hnext : nextFrame decoder.buffer with
  | item response rest => exact wp_of_run (readFrame_found reads hnext) (hfound _ _ hnext)
  | bad e => exact wp_of_run (readFrame_bad reads hnext) (hbad e hnext)
  | incomplete =>
    unfold readFrame
    rw [FrameDecoder.hasFrame_of_incomplete hnext]
    exact wp_bind_ok (ofExcept_run _ _) (hwait hnext)

theorem readFrame_spec (reads : Reads) (decoder : FrameDecoder) :
    wp (readFrame reads decoder) (Read (FitsBuffer reads) decoder.buffer w) w := by
  have hfound : ∀ {fits : Prop} {w : ClientWorld} {decoder : FrameDecoder} (response rest : Bytes),
      nextFrame decoder.buffer = .item response rest →
        Read fits decoder.buffer w (.ok (some response)) w := by
    intro fits w decoder response rest hnext
    refine ⟨[], by simp, by simp, rfl, Or.inl ⟨response, rest, rfl, ?_⟩⟩
    rw [show receivedBy [] = [] from rfl, List.append_nil]
    exact hnext
  have hbad : ∀ {fits : Prop} {w : ClientWorld} {decoder : FrameDecoder} (e : Exception),
      nextFrame decoder.buffer = .bad e → Read fits decoder.buffer w (.error e) w := by
    intro fits w decoder e hnext
    exact Read.ended (by simp) (by simp [hnext])
  induction reads generalizing decoder w with
  | data bytes rest ih =>
    refine readFrame_waits hfound hbad fun hnext => ?_
    refine wp_bind_ok (emit_run w _) ?_
    rcases hfeed : decoder.feed bytes with ⟨fed, decoder'⟩
    cases fed with
    | ok _ =>
      obtain rfl := FrameDecoder.feed_ok hfeed
      refine wp_bind_ok (ofExcept_run _ _) (wp_mono (ih _) ?_)
      intro r w' h
      exact Read.received h And.right
    | error e =>
      refine wp_of_run (bind_of_error (ofExcept_run _ _)) ?_
      have hnone : FitsBuffer (.data bytes rest) →
          ∀ response after, nextFrame (decoder.buffer ++ bytes) ≠ .item response after := by
        intro hfits response after hnext'
        have hchunk : FrameDecoder.Fits bytes := by
          have := hfits.1
          unfold FrameDecoder.Fits kMaxFrameSize kFrameHeaderSize vectorMaxSize
          omega
        obtain hok | ⟨-, hover⟩ := FrameDecoder.feed_cases hnext hchunk
        · rw [hok] at hfeed
          cases hfeed
        · rw [hover] at hnext'
          cases hnext'
      refine ⟨[.received bytes], rfl, by simp [exchanges], rfl, Or.inr ⟨by simp, ?_⟩⟩
      rw [show receivedBy [.received bytes] = bytes from List.append_nil _]
      exact hnone
  | interrupted rest ih =>
    refine readFrame_waits hfound hbad fun _ => ih decoder
  | eof =>
    refine readFrame_waits hfound hbad fun hnext => ?_
    exact wp_pure (Read.ended (by simp) (by simp [hnext]))
  | again | failed =>
    refine readFrame_waits hfound hbad fun hnext => ?_
    exact wp_throw (Read.ended (by simp) (by simp [hnext]))

/-! ## The whole run -/

/-- The frame of the request. -/
def requestFrame (commandLine : CommandLine) : Except Exception Bytes := do
  let requestPayload ← makeRequestPayload commandLine
  encodeFrame requestPayload

theorem quiet_of_exchanges (h : ∀ e ∈ events, exchanges e) :
    stdoutOf events = [] ∧ stderrOf events = [] := by
  unfold stdoutOf stderrOf
  rw [List.flatMap_eq_nil_iff, List.flatMap_eq_nil_iff]
  constructor <;> intro e he <;> cases e <;> first | rfl | cases h _ he

/-- A socket is opened, or the call fails and closes the one it has opened. -/
theorem connect_spec (socketPath : Bytes) :
    wp (perform E (UnixSocket.connectUnixSocket E.strerror socketPath)) (fun r w' =>
      (∃ fd, r = .ok fd ∧ w' = w.emit (.opened fd)) ∨
        (∃ e, r = .error e) ∧
          (w' = w ∨ ∃ fd, w' = (w.emit (.opened fd)).emit (.closed fd))) w := by
  unfold UnixSocket.connectUnixSocket UnixSocket.makeUnixAddress
  split_ifs with hempty hlong
  · exact Or.inr ⟨⟨_, rfl⟩, Or.inl rfl⟩
  · exact Or.inr ⟨⟨_, rfl⟩, Or.inl rfl⟩
  · show wp (record .socket (E.answer .socket) >>= fun _ => _) _ w
    cases hsocket : E.answer .socket with
    | error e => exact Or.inr ⟨⟨_, rfl⟩, Or.inl rfl⟩
    | ok fd =>
      refine wp_bind_ok (emit_run w _) ?_
      show wp (record (.connect fd) (E.answer (.connect fd)) >>= fun _ => _) _ _
      cases hconnect : E.answer (.connect fd) with
      | error e => exact Or.inr ⟨⟨_, rfl⟩, Or.inr ⟨fd, rfl⟩⟩
      | ok _ => exact Or.inl ⟨fd, rfl, rfl⟩

/-- The response was handled. -/
def Responded (commandLine : CommandLine) (status : ℕ) (log : List ClientEvent) : Prop :=
  ∃ response rest, requestFrame commandLine = .ok (sentBy log) ∧
    nextFrame (receivedBy log) = .item response rest ∧
    stdoutOf log = (handleResponse commandLine response).out ∧
    stderrOf log = (handleResponse commandLine response).err ∧
    status = if (handleResponse commandLine response).succeeded then 0 else 1

/-- There was no response: the request was not sent, or only its first bytes, or no complete frame has
come back. -/
def Unanswered (E : Environment) (commandLine : CommandLine) (log : List ClientEvent) : Prop :=
  stdoutOf log = [] ∧
    (sentBy log = [] ∨ ∃ request, requestFrame commandLine = .ok request ∧ sentBy log <+: request) ∧
    (FitsBuffer E.read → ∀ response rest, nextFrame (receivedBy log) ≠ .item response rest)

/-- What the `try` block leaves to the `catch` clause. -/
def Thrown (E : Environment) (commandLine : CommandLine) (w : ClientWorld) : Prop :=
  Unanswered E commandLine w.log ∧ stderrOf w.log = [] ∧ leftOpen w.log = w.st.toList

/-- An exchange over an open socket that comes to no response. -/
theorem thrown_of_exchanges {socketFd : Fd} (hw : w = ⟨some socketFd, .opened socketFd :: events⟩)
    (hevents : ∀ e ∈ events, exchanges e)
    (hsent : sentBy events = [] ∨
      ∃ request, requestFrame commandLine = .ok request ∧ sentBy events <+: request)
    (hreceived : FitsBuffer E.read →
      ∀ response rest, nextFrame (receivedBy events) ≠ .item response rest) :
    Thrown E commandLine w := by
  subst hw
  obtain ⟨hout, herr⟩ := quiet_of_exchanges hevents
  exact ⟨⟨hout, hsent, hreceived⟩, herr, @leftOpen_exchanges [.opened socketFd] _ hevents⟩

/-- A response is printed, and the socket closed. -/
theorem responded_of_exchanges {socketFd : Fd} {response rest : Bytes}
    (hevents : ∀ e ∈ events, exchanges e)
    (hsent : requestFrame commandLine = .ok (sentBy events))
    (hreceived : nextFrame (receivedBy events) = .item response rest)
    (hlog : log = .opened socketFd :: (events ++
      [.stdout (handleResponse commandLine response).out,
        .stderr (handleResponse commandLine response).err, .closed socketFd])) :
    leftOpen log = [] ∧ Responded commandLine
      (if (handleResponse commandLine response).succeeded then 0 else 1) log := by
  obtain ⟨hout, herr⟩ := quiet_of_exchanges hevents
  subst hlog
  set printed : List ClientEvent := [.stdout (handleResponse commandLine response).out,
    .stderr (handleResponse commandLine response).err, .closed socketFd]
  have hopen : leftOpen (.opened socketFd :: events) = [socketFd] :=
    @leftOpen_exchanges [.opened socketFd] _ hevents
  have hleft : leftOpen (.opened socketFd :: (events ++ printed)) = [] := by
    rw [← List.cons_append, leftOpen_append, hopen]
    simp [printed]
  refine ⟨hleft, response, rest, ?_, ?_, ?_, ?_, rfl⟩
  · show requestFrame commandLine = .ok (sentBy (events ++ printed))
    rw [sentBy_append, hsent]
    simp [printed, sentBy]
  · show nextFrame (receivedBy (events ++ printed)) = _
    rw [receivedBy_append, ← hreceived]
    simp [printed, receivedBy]
  · show stdoutOf (events ++ printed) = _
    rw [stdoutOf_append, hout]
    simp [printed, stdoutOf]
  · show stderrOf (events ++ printed) = _
    rw [stderrOf_append, herr]
    simp [printed, stderrOf]

theorem converse_spec (commandLine : CommandLine) :
    wp (converse E commandLine) (fun r w' =>
      (∀ status, r = .ok status → leftOpen w'.log = [] ∧ Responded commandLine status w'.log) ∧
      ∀ e, r = .error e → Thrown E commandLine w') start := by
  have hnothing : FitsBuffer E.read → ∀ response rest, nextFrame [] ≠ .item response rest := by
    intro _ response rest
    exact nofun
  unfold converse
  refine wp_bind (connect_spec commandLine.socketPath) ?_ ?_
  swap
  · rintro e w' (⟨fd, he, -⟩ | ⟨-, rfl | ⟨fd, rfl⟩⟩)
    · cases he
    · exact ⟨nofun, fun _ _ => ⟨⟨rfl, Or.inl rfl, hnothing⟩, rfl, rfl⟩⟩
    · have hleft : leftOpen [.opened fd, .closed fd] = [] := by simp [leftOpen]
      exact ⟨nofun, fun _ _ => ⟨⟨rfl, Or.inl rfl, hnothing⟩, rfl, hleft⟩⟩
  rintro socketFd w' (⟨fd, hfd, rfl⟩ | ⟨⟨e, he⟩, -⟩)
  swap
  · cases he
  obtain rfl := Except.ok.inj hfd
  refine wp_bind_ok (update_run _ _) ?_
  cases hpayload : makeRequestPayload commandLine with
  | error e =>
    refine wp_of_run (bind_of_error (ofExcept_run _ _)) ⟨nofun, fun _ _ => ?_⟩
    exact thrown_of_exchanges rfl (by simp) (Or.inl rfl) hnothing
  | ok requestPayload =>
  refine wp_bind_ok (ofExcept_run _ _) ?_
  have hrequest : requestFrame commandLine = encodeFrame requestPayload := by
    rw [requestFrame, hpayload]
    rfl
  cases hframe : encodeFrame requestPayload with
  | error e =>
    refine wp_of_run (bind_of_error (ofExcept_run _ _)) ⟨nofun, fun _ _ => ?_⟩
    exact thrown_of_exchanges rfl (by simp) (Or.inl rfl) hnothing
  | ok request =>
  rw [hframe] at hrequest
  refine wp_bind_ok (ofExcept_run _ _) (wp_bind (writeAll_spec E.write request) ?_ ?_)
  swap
  · rintro e w' ⟨events, done, -, he, -⟩
    cases he
  rintro _ w' ⟨events, done, rfl, hdone, hevents, hnone, hbegins, hall⟩
  obtain rfl := Except.ok.inj hdone
  split_ifs with hfalse
  · refine wp_throw ⟨nofun, fun _ _ => ?_⟩
    refine @thrown_of_exchanges _ _ events _ socketFd rfl hevents (Or.inr ⟨_, hrequest, hbegins⟩) ?_
    rw [hnone]
    exact hnothing
  obtain rfl := hall.mp (by simpa using hfalse)
  have hthrown : ∀ {events' : List ClientEvent} {w' : ClientWorld},
      w' = ⟨some socketFd, .opened socketFd :: (events ++ events')⟩ →
      (∀ e ∈ events', exchanges e) → sentBy events' = [] →
      (FitsBuffer E.read → ∀ response rest, nextFrame (receivedBy events') ≠ .item response rest) →
        Thrown E commandLine w' := by
    intro events' w' hw hevents' hsent hreceived
    refine thrown_of_exchanges hw (List.forall_mem_append.mpr ⟨hevents, hevents'⟩) ?_ ?_
    · exact Or.inr ⟨_, hrequest, by rw [sentBy_append, hsent, List.append_nil]⟩
    · rw [receivedBy_append, hnone, List.nil_append]
      exact hreceived
  refine wp_bind (readFrame_spec E.read {}) ?_ ?_
  · rintro read w' ⟨events', rfl, hevents', hsent, hend⟩
    rcases hend with ⟨response, rest, hread, hnext⟩ | ⟨hno, hreceived⟩
    · obtain rfl := Except.ok.inj hread
      refine wp_bind_ok (emit_run _ _) (wp_bind_ok (emit_run _ _) (wp_bind_ok (emit_run _ _) ?_))
      refine wp_pure ⟨fun status hstatus => ?_, nofun⟩
      obtain rfl := Except.ok.inj hstatus
      refine @responded_of_exchanges _ (events ++ events') _ socketFd _ rest
        (List.forall_mem_append.mpr ⟨hevents, hevents'⟩) ?_ ?_ (by simp [start])
      · rw [sentBy_append, hsent, List.append_nil, hrequest]
      · rw [receivedBy_append, hnone, List.nil_append]
        exact hnext
    · cases read with
      | none => exact wp_throw ⟨nofun, fun _ _ => hthrown rfl hevents' hsent hreceived⟩
      | some response => exact absurd rfl (hno response)
  · rintro e w' ⟨events', rfl, hevents', hsent, hend⟩
    rcases hend with ⟨response, rest, hread, -⟩ | ⟨-, hreceived⟩
    · cases hread
    · exact ⟨nofun, fun _ _ => hthrown rfl hevents' hsent hreceived⟩

theorem complain_run (w : ClientWorld) (e : Exception) :
    complain E e w = (.ok 1, ⟨w.st, w.log ++ (w.st.toList.map .closed ++
      [.stderr (text "runnerctl error: " ++ e.what E.strerror ++ text "\n")])⟩) := by
  obtain ⟨st, log⟩ := w
  unfold complain
  rw [bind_of_ok (state_run _)]
  cases st with
  | none => rfl
  | some socketFd =>
    show (_, World.mk _ (log ++ _ ++ _)) = _
    rw [List.append_assoc]
    rfl

/-- A run that is given a command. -/
theorem main_run {args : List Bytes} (hparse : parseCommandLine args = .ok commandLine) :
    ∃ status w, main E args start = (.ok status, w) ∧ leftOpen w.log = [] ∧
      (Responded commandLine status w.log ∨ status = 1 ∧ Unanswered E commandLine w.log ∧
        text "runnerctl error: " <+: stderrOf w.log) := by
  have hmain : main E args start = tryCatch (converse E commandLine) (complain E) start := by
    unfold main
    rw [hparse]
  rw [hmain]
  rcases hrun : converse E commandLine start with ⟨e | status, w⟩
  · obtain ⟨hunanswered, herr, hleft⟩ := (wp_run (converse_spec commandLine) hrun).2 e rfl
    obtain ⟨hout, hsent, hreceived⟩ := hunanswered
    have hrun' : tryCatch (converse E commandLine) (complain E) start = _ :=
      (tryCatch_of_error hrun).trans (complain_run w e)
    set complaint : List ClientEvent := w.st.toList.map .closed ++
      [.stderr (text "runnerctl error: " ++ e.what E.strerror ++ text "\n")] with hcomplaint
    have hnone : stdoutOf complaint = [] ∧ sentBy complaint = [] ∧ receivedBy complaint = [] := by
      rw [hcomplaint]
      cases w.st <;> exact ⟨rfl, rfl, rfl⟩
    refine ⟨1, _, hrun', ?_, Or.inr ⟨rfl, ?_, ?_⟩⟩
    · rw [leftOpen_append, hleft, hcomplaint]
      cases w.st <;> simp
    · unfold Unanswered
      rw [stdoutOf_append, sentBy_append, receivedBy_append, hout, hnone.1, hnone.2.1, hnone.2.2,
        List.append_nil, List.append_nil, List.append_nil]
      exact ⟨rfl, hsent, hreceived⟩
    · rw [stderrOf_append, herr, hcomplaint]
      cases w.st <;> simp [stderrOf]
  · obtain ⟨hleft, hresponded⟩ := (wp_run (converse_spec commandLine) hrun).1 status rfl
    exact ⟨status, w, tryCatch_of_ok hrun, hleft, Or.inl hresponded⟩

/-- A result goes to the standard output, a reason for failing to the standard error output. -/
theorem handleResponse_prints (commandLine : CommandLine) (response : Bytes) :
    (handleResponse commandLine response).succeeded = true ∧
        (handleResponse commandLine response).err = [] ∨
      (handleResponse commandLine response).succeeded = false ∧
        (handleResponse commandLine response).out = [] := by
  have hreporting : ∀ line, (reporting line).succeeded = true ∧ (reporting line).err = [] ∨
      (reporting line).succeeded = false ∧ (reporting line).out = [] :=
    fun line => Or.inl ⟨rfl, rfl⟩
  have hunexpected : (unexpected response).succeeded = true ∧ (unexpected response).err = [] ∨
      (unexpected response).succeeded = false ∧ (unexpected response).out = [] := Or.inr ⟨rfl, rfl⟩
  unfold handleResponse
  by_cases herror : isErrorResponse response
  · rw [if_pos herror]
    exact Or.inr ⟨rfl, rfl⟩
  · rw [if_neg herror]
    cases commandLine.command with
    | ping =>
      simp only
      split_ifs
      · exact hunexpected
      · exact hreporting _
    | submit =>
      cases parseSubmitSuccessResponse response with
      | none => exact hunexpected
      | some jobId => exact hreporting _
    | status =>
      simp only
      split_ifs
      · exact hunexpected
      · exact hreporting _
    | list =>
      simp only
      split_ifs
      · exact hreporting _
      · exact hunexpected
      · exact hreporting _
    | cancel =>
      simp only
      split_ifs
      · exact hreporting _
      · exact hreporting _
      · exact hunexpected

/-- However the system calls end, the client returns, with every descriptor closed. It exits with 0
only where it has sent its request and got a response in full that it takes for a success, and then
prints nothing but the result; otherwise it exits with 1 and prints why to the standard error output
only. -/
theorem main_ends (args : List Bytes) :
    ∃ status w, main E args start = (.ok status, w) ∧ leftOpen w.log = [] ∧
      (status = 0 ∧ stderrOf w.log = [] ∨ status = 1 ∧ stdoutOf w.log = []) ∧
      match parseCommandLine args with
      | .error error => status = 1 ∧ sentBy w.log = [] ∧
          text "runnerctl error: " ++ error ++ text "\n" <+: stderrOf w.log
      | .ok commandLine => Responded commandLine status w.log ∨ status = 1 ∧
          Unanswered E commandLine w.log ∧ text "runnerctl error: " <+: stderrOf w.log := by
  cases hparse : parseCommandLine args with
  | error error =>
    unfold main
    rw [hparse]
    refine ⟨1, _, rfl, rfl, Or.inr ⟨rfl, rfl⟩, rfl, rfl, ?_⟩
    exact List.prefix_append _ _
  | ok commandLine =>
    obtain ⟨status, w, hrun, hleft, hends⟩ := main_run (E := E) hparse
    refine ⟨status, w, hrun, hleft, ?_, hends⟩
    rcases hends with ⟨response, rest, -, -, hout, herr, rfl⟩ | ⟨rfl, hunanswered, -⟩
    · rw [hout, herr]
      rcases handleResponse_prints commandLine response with ⟨hsucceeded, hnone⟩ | ⟨hfailed, hnone⟩
      · exact Or.inl ⟨if_pos hsucceeded, hnone⟩
      · exact Or.inr ⟨if_neg (by simp [hfailed]), hnone⟩
    · exact Or.inr ⟨rfl, hunanswered.1⟩

end Runnerctl

end Runnerd
