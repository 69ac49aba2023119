import Runnerd.CancelAnswers
import Runnerd.FrameStream
import Runnerd.JobIds
import Runnerd.Requests
import Runnerd.Runnerctl

/-!
# The client and the daemon agree

What the client makes of a command line is what the daemon does, whatever the stream between them is
cut into, and every response of the daemon is one that the client expects.
-/

namespace Runnerd

open Effect Effect.Prog

namespace Runnerctl

variable {args rest : List Bytes} {commandLine cl : CommandLine} {name argument : Bytes}

/-! ## Command lines -/

/-- An option and its value, if it is given. -/
def given (name : Bytes) : Option Bytes → List Bytes
  | none => []
  | some value => [name, value]

/-- The command lines that are accepted, from the command on. -/
inductive Accepts (socketPath : Bytes) : List Bytes → CommandLine → Prop where
  | ping : Accepts socketPath [text "ping"] { socketPath, command := .ping }
  | list : Accepts socketPath [text "list"] { socketPath, command := .list }
  | status {argument : Bytes} {jobId : JobId} (hid : parseJobId argument = .ok jobId) :
      Accepts socketPath [text "status", argument] { socketPath, command := .status, jobId }
  | cancel {argument : Bytes} {jobId : JobId} (hid : parseJobId argument = .ok jobId) :
      Accepts socketPath [text "cancel", argument] { socketPath, command := .cancel, jobId }
  | submit {value : Option Bytes} {executionTimeout : Option JobTimeout} {argv : List Bytes}
      (htimeout : ∀ timeout, executionTimeout = some timeout →
        ∃ argument, value = some argument ∧ parsePositiveTimeout argument = .ok timeout)
      (hnone : executionTimeout = none → value = none)
      (hvalid : validateJobSpec { argv, executionTimeout } = .ok ()) :
      Accepts socketPath
        (text "submit" :: (given (text "--timeout") value ++ text "--" :: argv))
        { socketPath, command := .submit, jobSpec := { argv, executionTimeout } }

theorem parseSocket_ok (h : parseSocket commandLine args = .ok (cl, rest)) :
    ∃ path, args = given (text "--socket") path ++ rest ∧
      cl = { commandLine with socketPath := path.getD commandLine.socketPath } := by
  unfold parseSocket at h
  split at h
  · obtain ⟨rfl, rfl⟩ := Prod.mk.inj (Except.ok.inj h)
    exact ⟨none, rfl, rfl⟩
  · split_ifs at h with hsocket
    · subst hsocket
      split at h
      · cases h
      · split_ifs at h
        obtain ⟨rfl, rfl⟩ := Prod.mk.inj (Except.ok.inj h)
        exact ⟨some _, rfl, rfl⟩
    · obtain ⟨rfl, rfl⟩ := Prod.mk.inj (Except.ok.inj h)
      exact ⟨none, rfl, rfl⟩

theorem parseAlone_ok (h : parseAlone name commandLine args = .ok cl) :
    args = [] ∧ cl = commandLine := by
  unfold parseAlone at h
  split_ifs at h with hargs
  exact ⟨not_not.mp hargs, (Except.ok.inj h).symm⟩

theorem parseWithJobId_ok (h : parseWithJobId name commandLine args = .ok cl) :
    ∃ argument jobId, args = [argument] ∧ parseJobId argument = .ok jobId ∧
      cl = { commandLine with jobId } := by
  unfold parseWithJobId at h
  split at h
  · cases h
  · rename_i argument rest
    cases hid : parseJobId argument with
    | error e =>
      rw [hid] at h
      cases h
    | ok jobId =>
      rw [hid] at h
      simp only [bind, Except.bind] at h
      split_ifs at h with hrest
      rw [not_not.mp hrest]
      exact ⟨argument, jobId, rfl, hid, (Except.ok.inj h).symm⟩

theorem parseTimeout_ok (h : parseTimeout commandLine args = .ok (cl, rest)) :
    ∃ value executionTimeout, args = given (text "--timeout") value ++ rest ∧
      (∀ timeout, executionTimeout = some timeout →
        ∃ argument, value = some argument ∧ parsePositiveTimeout argument = .ok timeout) ∧
      (executionTimeout = none → value = none) ∧
      cl = { commandLine with jobSpec := { commandLine.jobSpec with
        executionTimeout := executionTimeout.orElse fun _ =>
          commandLine.jobSpec.executionTimeout } } := by
  unfold parseTimeout at h
  split at h
  · obtain ⟨rfl, rfl⟩ := Prod.mk.inj (Except.ok.inj h)
    exact ⟨none, none, rfl, nofun, fun _ => rfl, rfl⟩
  · split_ifs at h with htimeout
    · subst htimeout
      split at h
      · cases h
      · rename_i value rest'
        cases hvalue : parsePositiveTimeout value with
        | error e =>
          rw [hvalue] at h
          cases h
        | ok timeout =>
          rw [hvalue] at h
          obtain ⟨rfl, rfl⟩ := Prod.mk.inj (Except.ok.inj h)
          refine ⟨some value, some timeout, rfl, fun t ht => ⟨value, rfl, ?_⟩, nofun, rfl⟩
          rw [hvalue, Option.some.inj ht]
    · obtain ⟨rfl, rfl⟩ := Prod.mk.inj (Except.ok.inj h)
      exact ⟨none, none, rfl, nofun, fun _ => rfl, rfl⟩

theorem parseSubmit_ok {socketPath : Bytes}
    (h : parseSubmit { socketPath, command := .submit } args = .ok cl) :
    Accepts socketPath (text "submit" :: args) cl := by
  unfold parseSubmit at h
  cases htimeout : parseTimeout { socketPath, command := .submit } args with
  | error e =>
    rw [htimeout] at h
    cases h
  | ok parsed =>
    obtain ⟨cl', rest⟩ := parsed
    rw [htimeout] at h
    obtain ⟨value, executionTimeout, rfl, hvalue, hnone, rfl⟩ := parseTimeout_ok htimeout
    simp only [bind, Except.bind] at h
    split at h
    · cases h
    · rename_i marker argv
      split_ifs at h with hmarker hargv
      obtain rfl := not_not.mp hmarker
      split at h
      · rename_i hvalid
        obtain rfl := Except.ok.inj h
        have hor : (executionTimeout.orElse fun _ => none) = executionTimeout := by
          cases executionTimeout <;> rfl
        rw [hor] at hvalid ⊢
        exact .submit hvalue hnone hvalid
      · cases h
      · cases h

/-- What the parser accepts. -/
theorem parseCommandLine_ok (h : parseCommandLine args = .ok cl) :
    ∃ path rest, args = given (text "--socket") path ++ rest ∧
      Accepts (path.getD kDefaultSocketPath) rest cl := by
  unfold parseCommandLine at h
  cases hsocket : parseSocket {} args with
  | error e =>
    rw [hsocket] at h
    cases h
  | ok parsed =>
    obtain ⟨cl', rest⟩ := parsed
    rw [hsocket] at h
    obtain ⟨path, rfl, rfl⟩ := parseSocket_ok hsocket
    refine ⟨path, rest, rfl, ?_⟩
    simp only [bind, Except.bind] at h
    split at h
    · cases h
    · rename_i command args
      split_ifs at h with hping hlist hstatus hcancel hsubmit
      · obtain ⟨rfl, rfl⟩ := parseAlone_ok h
        exact hping ▸ .ping
      · obtain ⟨rfl, rfl⟩ := parseAlone_ok h
        exact hlist ▸ .list
      · obtain ⟨argument, jobId, rfl, hid, rfl⟩ := parseWithJobId_ok h
        exact hstatus ▸ .status hid
      · obtain ⟨argument, jobId, rfl, hid, rfl⟩ := parseWithJobId_ok h
        exact hcancel ▸ .cancel hid
      · rw [not_not.mp hsubmit]
        exact parseSubmit_ok h

/-! ## Requests -/

/-- What the daemon does with a request is what the command line says. -/
def Dispatches (K : Kernel) (commandLine : CommandLine) (request : Bytes) : Prop :=
  match commandLine.command with
  | .ping => ∀ w, Daemon.handleRequest K request w = (.ok (text "PONG"), w)
  | .list => ∀ w, Daemon.handleRequest K request w =
      raising (Daemon.makeListResponse w.st.jobs) w
  | .status => decodeStatusRequest request = .ok commandLine.jobId ∧
      ∀ w, Daemon.handleRequest K request w =
        (.ok (match w.st.jobs.find commandLine.jobId with
          | none => text "ERR job not found"
          | some job => Daemon.makeStatusResponse job), w)
  | .cancel => decodeCancelRequest request = .ok commandLine.jobId ∧
      ∀ w, Daemon.handleRequest K request w =
        Daemon.answeringInvalidArgument (Daemon.cancelJob K commandLine.jobId) w
  | .submit => decodeSubmitRequest request = .ok commandLine.jobSpec ∧
      validateJobSpec commandLine.jobSpec = .ok () ∧
      ∀ w, Daemon.handleRequest K request w =
        Daemon.answeringInvalidArgument (Daemon.submitJob K request) w

theorem dispatches_status {K : Kernel} {request : Bytes} {socketPath : Bytes} {jobId : JobId}
    (h : IsJobIdRequest kStatusCommand request jobId) :
    Dispatches K { socketPath, command := .status, jobId } request := by
  have hdecode : decodeStatusRequest request = .ok jobId := decodeJobIdRequest_of_isJobIdRequest h
  have hstatus : isStatusRequest request :=
    startsWith_iff.mpr (h.1 ▸ List.prefix_append kStatusCommand _)
  obtain ⟨hping, hlist⟩ := ne_of_startsWith hstatus (by decide)
  refine ⟨hdecode, fun w => ?_⟩
  unfold Daemon.handleRequest
  rw [if_neg hping, if_neg hlist, if_pos hstatus]
  refine tryCatch_of_ok ((bind_of_ok ((ofExcept_run w _).trans (by rw [hdecode]))).trans
    ((bind_of_ok (state_run w)).trans ?_))
  show _ = (Except.ok (match w.st.jobs.find jobId with
    | none => text "ERR job not found"
    | some job => Daemon.makeStatusResponse job), w)
  cases w.st.jobs.find jobId <;> rfl

theorem dispatches_cancel {K : Kernel} {request : Bytes} {socketPath : Bytes} {jobId : JobId}
    (h : IsJobIdRequest kCancelCommand request jobId) :
    Dispatches K { socketPath, command := .cancel, jobId } request := by
  have hdecode : decodeCancelRequest request = .ok jobId := decodeJobIdRequest_of_isJobIdRequest h
  have hcancel : isCancelRequest request :=
    startsWith_iff.mpr (h.1 ▸ List.prefix_append kCancelCommand _)
  have hstatus : ¬ isStatusRequest request := fun hstatus =>
    absurd (startsWith_inj hstatus hcancel (by decide)) (by decide)
  obtain ⟨hping, hlist⟩ := ne_of_startsWith hcancel (by decide)
  refine ⟨hdecode, fun w => ?_⟩
  unfold Daemon.handleRequest
  rw [if_neg hping, if_neg hlist, if_neg hstatus, if_pos hcancel]
  have hrun : (do
      let jobId ← ofExcept (decodeCancelRequest request)
      Daemon.cancelJob K jobId : Prog Daemon Bytes) w = Daemon.cancelJob K jobId w :=
    bind_of_ok ((ofExcept_run w _).trans (by rw [hdecode]))
  unfold Daemon.answeringInvalidArgument
  rcases hcancelled : Daemon.cancelJob K jobId w with ⟨e | response, w'⟩
  · rw [tryCatch_of_error (hrun.trans hcancelled), tryCatch_of_error hcancelled]
  · rw [tryCatch_of_ok (hrun.trans hcancelled), tryCatch_of_ok hcancelled]

theorem fits_of_flatten {chunks : List Bytes} {request frame : Bytes}
    (hframe : encodeFrame request = .ok frame) (hchunks : chunks.flatten = frame) :
    ∀ chunk ∈ chunks, FrameDecoder.Fits chunk := by
  intro chunk hchunk
  obtain ⟨hlength, rfl⟩ := encodeFrame_ok hframe
  have hle := (List.sublist_flatten_of_mem hchunk).length_le
  rw [hchunks, List.length_append, length_bigEndian] at hle
  unfold FrameDecoder.Fits kMaxFrameSize kFrameHeaderSize vectorMaxSize at *
  omega

/-- A frame is read back, whatever it is cut into. -/
theorem decodeChunks_frame {request : Bytes} (hlength : request.length ≤ kMaxFrameSize) :
    ∃ frame, encodeFrame request = .ok frame ∧ ∀ chunks : List Bytes, chunks.flatten = frame →
      FrameDecoder.decodeChunks {} chunks = ([request], .ok {}) := by
  have hframe : encodeFrame request =
      .ok (bigEndian kFrameHeaderSize request.length ++ request) := if_neg (not_lt.mpr hlength)
  refine ⟨_, hframe, fun chunks hchunks => ?_⟩
  obtain ⟨stream, hstream, hparse⟩ := @parseFrames_encodeFrames [request]
    (by simpa using hlength)
  unfold encodeFrames encodeFrames at hstream
  rw [hframe] at hstream
  obtain rfl := Except.ok.inj hstream
  rw [FrameDecoder.decodeChunks_eq rfl (fits_of_flatten hframe hchunks), List.nil_append, hchunks]
  rw [List.append_nil] at hparse
  rw [hparse]
  rfl

theorem length_of_isJobIdRequest {command request : Bytes} {jobId : JobId}
    (h : IsJobIdRequest command request jobId) (hcommand : command.length = 6) :
    request.length ≤ kMaxFrameSize := by
  rw [h.1, List.length_append, length_bigEndian, hcommand]
  decide

/-- The size of the request, where it is not fixed. -/
def requestSize (commandLine : CommandLine) : ℕ :=
  match commandLine.command with
  | .submit => (submitPayload (timeoutNumber commandLine.jobSpec.executionTimeout)
      commandLine.jobSpec.argv).length
  | _ => 0

theorem parseJobId_ok {jobId : JobId} (h : parseJobId argument = .ok jobId) :
    0 < jobId ∧ jobId < 2 ^ 64 := by
  obtain ⟨hpos, hle⟩ := parsePositive_ok (by decide) h
  exact ⟨hpos, Nat.lt_of_le_pred (by decide) hle⟩

theorem parsePositiveTimeout_ok {timeout : JobTimeout}
    (h : parsePositiveTimeout argument = .ok timeout) : timeout ≤ uint32Max := by
  unfold parsePositiveTimeout at h
  revert h
  cases hvalue : parsePositive uint32Max _ argument with
  | error e => exact nofun
  | ok value =>
    intro h
    obtain rfl := Except.ok.inj h
    exact_mod_cast (parsePositive_ok (by decide) hvalue).2

theorem encodable_of_accepts {socketPath : Bytes} (h : Accepts socketPath args cl)
    (hcommand : cl.command = .submit) (hfits : requestSize cl ≤ kMaxFrameSize) :
    Encodable cl.jobSpec := by
  cases h with
  | submit htimeout hnone hvalid =>
    refine ⟨hvalid, fun timeout ht => ?_, hfits⟩
    obtain ⟨argument, -, hargument⟩ := htimeout timeout ht
    exact parsePositiveTimeout_ok hargument
  | _ => cases hcommand

/-- The request of an accepted command line, and what the daemon makes of it. -/
theorem request_of_accepts {socketPath : Bytes} (h : Accepts socketPath args cl)
    (hfits : requestSize cl ≤ kMaxFrameSize) :
    ∃ request, makeRequestPayload cl = .ok request ∧ request.length ≤ kMaxFrameSize ∧
      ∀ K, Dispatches K cl request := by
  cases h with
  | ping => exact ⟨text "PING", rfl, by decide, fun K w => rfl⟩
  | list => exact ⟨text "LIST", rfl, by decide, fun K w => rfl⟩
  | @status argument jobId hid =>
    obtain ⟨hpos, hlt⟩ := parseJobId_ok hid
    obtain ⟨request, hencode, hrequest⟩ := @encodeJobIdRequest_eq kStatusCommand jobId hpos hlt
    exact ⟨request, hencode, length_of_isJobIdRequest hrequest (by decide),
      fun K => dispatches_status hrequest⟩
  | @cancel argument jobId hid =>
    obtain ⟨hpos, hlt⟩ := parseJobId_ok hid
    obtain ⟨request, hencode, hrequest⟩ := @encodeJobIdRequest_eq kCancelCommand jobId hpos hlt
    exact ⟨request, hencode, length_of_isJobIdRequest hrequest (by decide),
      fun K => dispatches_cancel hrequest⟩
  | @submit value executionTimeout argv htimeout hnone hvalid =>
    have hspec := encodable_of_accepts (.submit htimeout hnone hvalid) rfl hfits
    obtain ⟨-, hencode⟩ | ⟨hnot, -⟩ := encodeSubmitRequest_cases { argv, executionTimeout }
    · have hdecode := decodeSubmitRequest_of_isSubmitPayload hspec.size_le
        (isSubmitPayload_of_encodable hspec)
      rw [decodedTimeout_timeoutNumber hspec.valid] at hdecode
      refine ⟨_, hencode, hspec.size_le, fun K => ⟨hdecode, hvalid, fun w => ?_⟩⟩
      rw [Daemon.handleRequest_of_submit]
      exact startsWith_iff.mpr (by
        unfold submitPayload
        simp only [List.append_assoc]
        exact List.prefix_append _ _)
    · exact absurd hspec hnot

/-- Every command line that is accepted, and whose request fits in a frame, comes out of the daemon's
decoder as one request, however the stream is cut, and is handled as what it says: with the job id that
was given, or with just the strings behind `--` and the timeout. -/
theorem requests_agree (h : parseCommandLine args = .ok cl)
    (hfits : requestSize cl ≤ kMaxFrameSize) :
    (∃ path rest, args = given (text "--socket") path ++ rest ∧
      Accepts (path.getD kDefaultSocketPath) rest cl) ∧
    ∃ request frame, makeRequestPayload cl = .ok request ∧ encodeFrame request = .ok frame ∧
      (∀ chunks : List Bytes, chunks.flatten = frame →
        FrameDecoder.decodeChunks {} chunks = ([request], .ok {})) ∧
      ∀ K, Dispatches K cl request := by
  obtain ⟨path, rest, hargs, haccepts⟩ := parseCommandLine_ok h
  obtain ⟨request, hpayload, hlength, hdispatches⟩ := request_of_accepts haccepts hfits
  obtain ⟨frame, hframe, hdecode⟩ := decodeChunks_frame hlength
  exact ⟨⟨path, rest, hargs, haccepts⟩, request, frame, hpayload, hframe, hdecode, hdispatches⟩

/-- A program with arguments that look like options. -/
theorem requests_agree_submit : ∃ request frame,
    encodeFrame request = .ok frame ∧
      FrameDecoder.decodeChunks {} [frame.take 3, frame.drop 3] = ([request], .ok {}) ∧
      decodeSubmitRequest request = .ok { argv := [text "/a", text "--timeout", text "--", []] } := by
  have hparse : parseCommandLine [text "submit", text "--", text "/a", text "--timeout", text "--",
      []] = .ok { command := .submit, jobSpec := { argv := [text "/a", text "--timeout",
        text "--", []] } } := by decide
  obtain ⟨-, request, frame, -, hframe, hdecode, hdispatches⟩ := requests_agree hparse (by decide)
  exact ⟨request, frame, hframe, hdecode _ (by simp), (hdispatches Kernel.quiet).1⟩

/-! ## Responses -/

/-- The client expects the response, and fails exactly where it is an error. -/
def Understood (commandLine : CommandLine) (response : Bytes) : Prop :=
  handleResponse commandLine response ≠ unexpected response ∧
    ((handleResponse commandLine response).succeeded = false ↔ text "ERR " <+: response)

variable {response : Bytes}

theorem isErrorResponse_of_err (h : text "ERR " <+: response) : isErrorResponse response := by
  have htake : text "ERR " = response.take 4 := List.prefix_iff_eq_take.mp h
  unfold isErrorResponse
  rw [← htake]
  simp

/-- A response that begins with another letter is no error. -/
theorem not_error {c : UInt8} (h : response.head? = some c) (hc : c ≠ 69) :
    isErrorResponse response = false ∧ ¬ text "ERR " <+: response := by
  obtain ⟨rest, rfl⟩ : ∃ rest, response = c :: rest := by
    cases response with
    | nil => cases h
    | cons d rest =>
      obtain rfl := Option.some.inj h
      exact ⟨rest, rfl⟩
  have hne : ∀ more : Bytes, c :: rest ≠ 69 :: more := fun more heq => hc (List.cons.inj heq).1
  refine ⟨?_, fun ⟨more, hmore⟩ => hc (List.cons.inj hmore).1.symm⟩
  unfold isErrorResponse
  rw [Bool.or_eq_false_iff, beq_eq_false_iff_ne, beq_eq_false_iff_ne]
  exact ⟨fun heq => hc (List.cons.inj heq).1, fun heq => hc (List.cons.inj heq).1⟩

theorem understood_error (h : text "ERR " <+: response) : Understood cl response := by
  have hrun : (handleResponse cl response).succeeded = false ∧
      text "server error" <+: (handleResponse cl response).err := by
    unfold handleResponse
    rw [if_pos (isErrorResponse_of_err h)]
    refine ⟨rfl, ?_⟩
    split_ifs
    · exact ⟨text "\n", by decide⟩
    · exact ⟨text ": " ++ response.drop 4 ++ text "\n", by simp [text]⟩
  refine ⟨fun heq => ?_, iff_of_true hrun.1 h⟩
  obtain ⟨more, hmore⟩ := hrun.2
  rw [heq] at hmore
  have hhead := congrArg List.head? hmore
  simp [text, unexpected] at hhead

theorem understood_reporting {line : Bytes} {c : UInt8} (hhead : response.head? = some c)
    (hc : c ≠ 69) (h : handleResponse cl response = reporting line) : Understood cl response := by
  rw [Understood, h]
  refine ⟨fun heq => ?_, iff_of_false nofun (not_error hhead hc).2⟩
  have := congrArg Outcome.succeeded heq
  cases this

theorem take_ok (rest : Bytes) : (text "OK " ++ rest).take 3 = text "OK " :=
  List.take_left' (by decide)

theorem drop_ok (rest : Bytes) : (text "OK " ++ rest).drop 3 = rest := List.drop_left' (by decide)

/-- Every id the daemon can hand out is printed as it is. -/
theorem handleResponse_acknowledgement (hcommand : cl.command = .submit) {j : JobId} (hpos : 0 < j)
    (hlt : j < 2 ^ 64) :
    handleResponse cl (Daemon.acknowledgement j) = reporting (decimal j) := by
  have htake : (Daemon.acknowledgement j).take 3 = text "OK " := take_ok _
  have hdrop : (Daemon.acknowledgement j).drop 3 = decimal j := drop_ok _
  have hlength : (Daemon.acknowledgement j).length ≠ 3 := by
    unfold Daemon.acknowledgement decimal
    rw [List.length_append, List.length_map]
    have hdigits : 0 < (Nat.toDigits 10 j).length := Nat.length_toDigits_pos
    show 3 + _ ≠ 3
    omega
  have hparse : parseSubmitSuccessResponse (Daemon.acknowledgement j) = some j := by
    unfold parseSubmitSuccessResponse
    rw [if_neg (by rw [not_or]; exact ⟨not_not.mpr htake, hlength⟩), hdrop,
      @parseDigits_decimal uint64Max j (Nat.le_pred_of_lt hlt)]
    simp only
    rw [if_neg (Nat.ne_of_gt hpos)]
  have hfalse := (@not_error (Daemon.acknowledgement j) 79 rfl (by decide)).1
  unfold handleResponse
  rw [hfalse, if_neg (by simp), hcommand]
  simp only [hparse]

theorem understood_status (hcommand : cl.command = .status) (job : Job) :
    Understood cl (Daemon.makeStatusResponse job) := by
  unfold Daemon.makeStatusResponse
  simp only
  split_ifs
  · exact understood_error (by decide)
  · have hstatus : ∃ c rest, Daemon.formatJobStatus job = c :: rest := ⟨105, _, rfl⟩
    obtain ⟨c, rest, hformat⟩ := hstatus
    refine @understood_reporting cl _ (Daemon.formatJobStatus job) 79 rfl (by decide) ?_
    have hfalse := (@not_error (text "OK " ++ Daemon.formatJobStatus job) 79 rfl
      (by decide)).1
    unfold handleResponse
    rw [hfalse, if_neg (by simp), hcommand]
    simp only
    rw [if_neg, drop_ok]
    rw [not_or, take_ok]
    refine ⟨?_, not_not.mpr rfl⟩
    rw [hformat, List.length_append, List.length_cons]
    show ¬ (3 + _ ≤ 3)
    omega

/-- A list of jobs is `OK`, with lines behind it if there are jobs. -/
theorem listLoop_shape {jobs : JobTable} {ids : List JobId} {response list : Bytes}
    (h : Daemon.listLoop jobs response ids = .ok list) :
    text "ERR " <+: list ∨ list = response ∨ response ++ text "\n" <+: list := by
  induction ids generalizing response with
  | nil => exact Or.inr (Or.inl (Except.ok.inj h).symm)
  | cons jobId rest ih =>
    unfold Daemon.listLoop at h
    split at h
    · cases h
    · rename_i job hjob
      cases hroom : subSize kMaxFrameSize response.length with
      | error e =>
        rw [hroom] at h
        cases h
      | ok room =>
        rw [hroom] at h
        simp only [bind, Except.bind] at h
        split_ifs at h
        · obtain rfl := Except.ok.inj h
          exact Or.inl (by decide)
        · have hline : response ++ text "\n" <+: response ++ Daemon.listLine job := by
            unfold Daemon.listLine
            rw [List.prefix_append_right_inj]
            exact ⟨text "id=" ++ decimal job.id ++ text " state=" ++ jobStateName job.state,
              by simp [text]⟩
          obtain herror | rfl | hmore := ih h
          · exact Or.inl herror
          · exact Or.inr (Or.inr hline)
          · exact Or.inr (Or.inr (hline.trans ((List.prefix_append _ _).trans hmore)))

theorem understood_list (hcommand : cl.command = .list) {jobs : JobTable}
    (h : Daemon.makeListResponse jobs = .ok response) : Understood cl response := by
  obtain herror | rfl | ⟨lines, rfl⟩ := listLoop_shape h
  · exact understood_error herror
  · refine @understood_reporting cl _ (text "No jobs") 79 rfl (by decide) ?_
    unfold handleResponse
    rw [if_neg (by decide), hcommand]
    rfl
  · refine @understood_reporting cl _ lines 79 rfl (by decide) ?_
    have hfalse := (@not_error (text "OK" ++ text "\n" ++ lines) 79 rfl (by decide)).1
    unfold handleResponse
    rw [hfalse, if_neg (by simp), hcommand]
    simp only
    have hdrop : (text "OK" ++ text "\n" ++ lines).drop 3 = lines := List.drop_left' (by decide)
    have htake : (text "OK" ++ text "\n" ++ lines).take 3 = text "OK\n" :=
      (List.take_left' (by decide)).trans (by decide)
    rw [if_neg, if_neg, hdrop]
    · exact not_not.mpr htake
    · intro heq
      have := congrArg List.length heq
      simp [text] at this

theorem understood_cancel {K : Kernel} {w w' : World Daemon} {j : JobId}
    (hcommand : cl.command = .cancel) (h : Daemon.Cancels K j w w' response) :
    Understood cl response := by
  cases h with
  | cancelled =>
    refine @understood_reporting cl _ (text "Cancelled job " ++ decimal cl.jobId) 79 rfl
      (by decide) ?_
    unfold handleResponse
    rw [if_neg (by decide), hcommand]
    rfl
  | terminating =>
    refine @understood_reporting cl _ (text "Cancellation requested for job " ++ decimal cl.jobId)
      79 rfl (by decide) ?_
    unfold handleResponse
    rw [if_neg (by decide), hcommand]
    simp only
    rw [if_neg (by decide)]
    rfl
  | declined herr => exact understood_error herr

/-- What a SUBMIT is answered with. -/
theorem submit_answers {K : Kernel} {n : ℕ} {w : World Daemon} {request : Bytes}
    (h : Daemon.Sound n ⟨w, []⟩) :
    wp (Daemon.answeringInvalidArgument (Daemon.submitJob K request)) (fun r _ => ∀ response,
      r = .ok response → text "ERR " <+: response ∨
        response = Daemon.acknowledgement w.st.nextJobId) w := by
  refine Daemon.answeringInvalidArgument_spec (wp_mono (Daemon.submitJob_spec h request)
    fun r w' hs => ⟨fun response hr => ?_, fun what _ response hr => Or.inl ?_⟩)
  · cases hs with
    | refused => cases hr
    | added hdecode hid hstep hwalk hresponse => exact Or.inr (hresponse response hr)
  · exact Except.ok.inj hr ▸ List.prefix_append _ _

theorem requestSize_le {request : Bytes} (h : makeRequestPayload cl = .ok request) :
    requestSize cl ≤ kMaxFrameSize := by
  unfold makeRequestPayload at h
  unfold requestSize
  cases hcommand : cl.command with
  | submit =>
    rw [hcommand] at h
    obtain ⟨hspec, -⟩ | ⟨-, what, herror⟩ := encodeSubmitRequest_cases cl.jobSpec
    · exact hspec.size_le
    · obtain herror | herror := herror <;> cases herror.symm.trans h
  | _ => exact Nat.zero_le _

/-- The client expects every response that the daemon gives, in whatever state, to the request of a
command line, and fails exactly where it is an error. For a SUBMIT it prints the id of the job that was
added. -/
theorem responses_agree {K : Kernel} {s : Setup} {w : World Daemon} {request : Bytes}
    (hparse : parseCommandLine args = .ok cl) (hpayload : makeRequestPayload cl = .ok request)
    (hbetween : Between K s w) :
    (cl.command = .submit → ∀ j, 0 < j → j < 2 ^ 64 →
      handleResponse cl (Daemon.acknowledgement j) = reporting (decimal j)) ∧
    wp (Daemon.handleRequest K request) (fun r w' => ∀ response, r = .ok response →
      handleResponse cl response ≠ unexpected response ∧
      ((handleResponse cl response).succeeded = false ↔ text "ERR " <+: response) ∧
      (cl.command = .submit → (handleResponse cl response).succeeded →
        ∃ j job, 0 < j ∧ j < 2 ^ 64 ∧ handleResponse cl response = reporting (decimal j) ∧
          w.st.jobs.find j = none ∧ w'.st.jobs.find j = some job ∧ job.id = j ∧
          job.spec = cl.jobSpec)) w := by
  refine ⟨fun hcommand j hpos hlt => handleResponse_acknowledgement hcommand hpos hlt, ?_⟩
  have h := hbetween.sound
  obtain ⟨path, rest, -, haccepts⟩ := parseCommandLine_ok hparse
  obtain ⟨request', hpayload', -, hdispatches⟩ :=
    request_of_accepts haccepts (requestSize_le hpayload)
  obtain rfl := Except.ok.inj (hpayload.symm.trans hpayload')
  have hdispatches := hdispatches K
  rcases hrun : Daemon.handleRequest K request w with ⟨r, w'⟩
  refine wp_of_run hrun fun response hr => ?_
  have hother : cl.command ≠ .submit → Understood cl response →
      handleResponse cl response ≠ unexpected response ∧
      ((handleResponse cl response).succeeded = false ↔ text "ERR " <+: response) ∧
      (cl.command = .submit → (handleResponse cl response).succeeded →
        ∃ j job, 0 < j ∧ j < 2 ^ 64 ∧ handleResponse cl response = reporting (decimal j) ∧
          w.st.jobs.find j = none ∧ w'.st.jobs.find j = some job ∧ job.id = j ∧
          job.spec = cl.jobSpec) :=
    fun hcommand hunderstood => ⟨hunderstood.1, hunderstood.2, fun heq => absurd heq hcommand⟩
  subst hr
  unfold Dispatches at hdispatches
  obtain ⟨command, hcommand⟩ : ∃ command, cl.command = command := ⟨_, rfl⟩
  cases command with
  | ping =>
    rw [hcommand] at hdispatches
    rw [hdispatches w] at hrun
    obtain rfl := Except.ok.inj (Prod.mk.inj hrun).1
    refine hother (by simp [hcommand]) (@understood_reporting cl _ (text "PONG") 80 rfl (by decide) ?_)
    unfold handleResponse
    rw [if_neg (by decide), hcommand]
    rfl
  | list =>
    rw [hcommand] at hdispatches
    obtain ⟨list, hlist⟩ := Daemon.makeListResponse_ok w.st.jobs
    rw [hdispatches w, raising_run_ok hlist] at hrun
    obtain rfl := Except.ok.inj (Prod.mk.inj hrun).1
    exact hother (by simp [hcommand]) (understood_list hcommand hlist)
  | status =>
    rw [hcommand] at hdispatches
    rw [hdispatches.2 w] at hrun
    obtain rfl := Except.ok.inj (Prod.mk.inj hrun).1
    refine hother (by simp [hcommand]) ?_
    cases w.st.jobs.find cl.jobId with
    | none => exact understood_error (by decide)
    | some job => exact understood_status hcommand job
  | cancel =>
    rw [hcommand] at hdispatches
    rw [hdispatches.2 w] at hrun
    have hcancelled := Daemon.answeringInvalidArgument_spec (wp_mono
      (Daemon.cancelJob_cancels (K := K) h cl.jobId) (Q := fun r _ =>
        (∀ answer, r = .ok answer → Understood cl answer) ∧
          ∀ what, r = .error (.invalidArgument what) → ∀ answer,
            (Except.ok (text "ERR " ++ what) : Except Exception Bytes) = .ok answer →
              Understood cl answer)
      fun r w' hcancels => ⟨fun answer hr => understood_cancel hcommand (hcancels answer hr),
        fun what _ answer hr => understood_error (Except.ok.inj hr ▸ List.prefix_append _ _)⟩)
    exact hother (by simp [hcommand]) (wp_run hcancelled hrun response rfl)
  | submit =>
    rw [hcommand] at hdispatches
    obtain ⟨hdecode, -, hsubmit⟩ := hdispatches
    have hrequest : isSubmitRequest request := isSubmitRequest_of_decode hdecode
    obtain ⟨hadded, -⟩ := Daemon.handleRequest_submit h hrequest hrun
    rw [hsubmit w] at hrun
    obtain herror | rfl := wp_run (submit_answers h) hrun response rfl
    · have hunderstood := @understood_error cl _ herror
      refine ⟨hunderstood.1, hunderstood.2, fun _ hsucceeded => ?_⟩
      rw [hunderstood.2.mpr herror] at hsucceeded
      cases hsucceeded
    · obtain ⟨-, hne, -, spec, job, hspec, hjob, hid, heq⟩ := hadded _ rfl
      have hpos := Nat.pos_of_ne_zero hne
      have hprints := @handleResponse_acknowledgement cl hcommand _ hpos h.slots.bounded
      have hunderstood := understood_reporting (c := 79) rfl (by decide) hprints
      refine ⟨hunderstood.1, hunderstood.2, fun _ _ => ⟨w.st.nextJobId, job, hpos, h.slots.bounded,
        hprints, (h.fresh hne).1, hjob, hid, ?_⟩⟩
      rw [heq]
      exact Except.ok.inj (hspec.symm.trans hdecode)

/-- A job runs, and another one is queued. -/
def queuedWorld : World Daemon := after queueScript oneSlot 3

def thirdLine : CommandLine := { command := .submit, jobSpec := { argv := [text "/c"] } }

/-- A third job is submitted. -/
theorem responses_agree_submit :
    queuedWorld.st.stateOf 1 = some .running ∧ queuedWorld.st.stateOf 2 = some .queued ∧
    (Daemon.handleRequest queueScript (submitPayload 0 [text "/c"]) queuedWorld).1 =
      .ok (text "OK 3") ∧
    handleResponse thirdLine (text "OK 3") = reporting (text "3") ∧
    ∃ j job, handleResponse thirdLine (text "OK 3") = reporting (decimal j) ∧
      queuedWorld.st.jobs.find j = none ∧
      (Daemon.handleRequest queueScript (submitPayload 0 [text "/c"])
        queuedWorld).2.st.jobs.find j = some job ∧ job.spec = { argv := [text "/c"] } := by
  have hparse : parseCommandLine [text "submit", text "--", text "/c"] = .ok thirdLine := by decide
  have hpayload : makeRequestPayload thirdLine = .ok (submitPayload 0 [text "/c"]) := by
    decide +kernel
  have hrun : (Daemon.handleRequest queueScript (submitPayload 0 [text "/c"]) queuedWorld).1 =
      .ok (text "OK 3") := by decide +kernel
  have hprints : handleResponse thirdLine (text "OK 3") = reporting (text "3") := by decide
  have hbetween : Between queueScript oneSlot queuedWorld :=
    (reachable_after (m := 3) (by decide +kernel)).between
  obtain ⟨-, -, hadded⟩ := (responses_agree hparse hpayload hbetween).2 _ hrun
  obtain ⟨j, job, -, -, hprinted, hnone, hjob, -, hspec⟩ := hadded rfl (by rw [hprints]; rfl)
  exact ⟨by decide +kernel, by decide +kernel, hrun, hprints, j, job, hprinted, hnone, hjob, hspec⟩

end Runnerctl

end Runnerd
