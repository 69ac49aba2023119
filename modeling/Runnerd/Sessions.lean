import Runnerd.Arrivals
import Runnerd.ClientAgreement
import Runnerd.RunnerctlMain

/-!
# Sessions

A run of the client against the daemon, over a stream between them that may be cut off anywhere. The
daemon sees no request but the one that the command line says, and at most once. What the client prints
of a response is so in the daemon, and stays so.
-/

namespace Runnerd

open Effect Effect.Prog Steps Trace Runnerctl

namespace Runnerctl

/-- A client at the other end of a connection of the daemon: what has come in there is the beginning of
what the client has sent, and what the client has received the beginning of what was sent there. -/
structure Linked (fd : Fd) (log : List ClientEvent) (w : World Daemon) : Prop where
  requests : (Daemon.inbox fd w.log).arrived <+: sentBy log
  responses : receivedBy log <+: (Daemon.wire fd w.log).sent

variable {K : Kernel} {s : Setup} {n : ℕ} {v v' w w' : World Daemon} {fd : Fd}
  {cl : CommandLine} {args : List Bytes} {request response : Bytes}

/-! ## One request, one response -/

/-- At the head of one frame stand no other frames. -/
theorem payloads_of_prefix {payloads : List Bytes} {stream frame : Bytes}
    (h : encodeFrames payloads = .ok stream) (hframe : encodeFrame request = .ok frame)
    (hbegins : stream <+: frame) : payloads = [] ∨ payloads = [request] := by
  cases payloads with
  | nil => exact Or.inl rfl
  | cons payload payloads =>
    obtain ⟨head, tail, hhead, htail, rfl⟩ := encodeFrames_cons_ok.mp h
    obtain ⟨rest, rfl⟩ := hbegins
    have hnext := nextFrame_encodeFrame hframe []
    rw [List.append_nil, List.append_assoc, nextFrame_encodeFrame hhead] at hnext
    obtain ⟨rfl, hnil⟩ := Next.item.inj hnext
    obtain ⟨rfl, rfl⟩ := List.append_eq_nil_iff.mp hnil
    cases payloads with
    | nil => exact Or.inr rfl
    | cons next payloads =>
      obtain ⟨head', tail', hhead', -, hjoin⟩ := encodeFrames_cons_ok.mp htail
      obtain ⟨rfl, -⟩ := List.append_eq_nil_iff.mp hjoin.symm
      have hnext' := nextFrame_encodeFrame hhead' []
      cases hnext'

/-- The frame at the head of what has come of some frames is the first of these. -/
theorem head_of_nextFrame {payloads : List Bytes} {stream received rest : Bytes}
    (h : encodeFrames payloads = .ok stream) (hbegins : received <+: stream)
    (hnext : nextFrame received = .item response rest) : ∃ others, payloads = response :: others := by
  obtain ⟨more, rfl⟩ := hbegins
  have hwhole : nextFrame (received ++ more) = .item response (rest ++ more) :=
    frameLexer.item_append more hnext
  cases payloads with
  | nil =>
    rw [← Except.ok.inj h] at hwhole
    cases hwhole
  | cons payload payloads =>
    obtain ⟨head, tail, hhead, -, hjoin⟩ := encodeFrames_cons_ok.mp h
    rw [hjoin, nextFrame_encodeFrame hhead] at hwhole
    obtain ⟨rfl, -⟩ := Next.item.inj hwhole
    exact ⟨payloads, rfl⟩

/-! ## What a response stands for -/

/-- The daemon declined. -/
def refusal (reason : Bytes) : Outcome where
  err := text "server error: " ++ reason ++ text "\n"
  succeeded := false

/-- What a command has come to and what is printed of it. The daemon was in `v` when it began to handle
the request and in `v'` when it had handled it, and is in `w` now. -/
inductive Fulfilled (K : Kernel) (cl : CommandLine) (v v' w : World Daemon) :
    Outcome → Prop where
  | pong (hcommand : cl.command = .ping) : Fulfilled K cl v v' w (reporting (text "PONG"))
  | submitted {j : JobId} {job : Job} (hcommand : cl.command = .submit)
      (hnew : v.st.jobs.find j = none) (hjob : w.st.jobs.find j = some job) (hid : job.id = j)
      (hspec : job.spec = cl.jobSpec) : Fulfilled K cl v v' w (reporting (decimal j))
  | status {job : Job} (hcommand : cl.command = .status)
      (hjob : v.st.jobs.find cl.jobId = some job) :
      Fulfilled K cl v v' w (reporting (Daemon.formatJobStatus job))
  | listed {ids : List JobId} (hcommand : cl.command = .list)
      (hids : Daemon.InOrder v.st.jobs ids) :
      Fulfilled K cl v v' w (reporting
        (if ids = [] then text "No jobs" else (Daemon.listLines v.st.jobs ids).drop 1))
  | cancelled (hcommand : cl.command = .cancel) (hqueued : v.st.stateOf cl.jobId = some .queued)
      (hstate : w.st.stateOf cl.jobId = some .cancelled) (hnever : .starting cl.jobId ∉ w.log) :
      Fulfilled K cl v v' w (reporting (text "Cancelled job " ++ decimal cl.jobId))
  | terminating (hcommand : cl.command = .cancel) (hrunning : v.st.stateOf cl.jobId = some .running)
      (hsent : Daemon.SentTerm cl.jobId v v')
      (hends : ∀ state, w.st.stateOf cl.jobId = some state → isTerminal state →
        state = .cancelled) :
      Fulfilled K cl v v' w
        (reporting (text "Cancellation requested for job " ++ decimal cl.jobId))
  | refused {reason : Bytes} (hkept : cl.command ≠ .cancel → v'.st = v.st) :
      Fulfilled K cl v v' w (refusal reason)

theorem handleResponse_err (h : text "ERR " <+: response) :
    ∃ reason, handleResponse cl response = refusal reason := by
  obtain ⟨reason, rfl⟩ := h
  refine ⟨reason, ?_⟩
  have hne : text "ERR " ++ reason ≠ text "ERR" := fun heq => by
    have hlength := congrArg List.length heq
    rw [List.length_append] at hlength
    have h4 : (text "ERR ").length = 4 := by decide
    have h3 : (text "ERR").length = 3 := by decide
    omega
  unfold handleResponse
  rw [if_pos (isErrorResponse_of_err (List.prefix_append _ _)), if_neg hne]
  rfl

theorem handleResponse_list (hcommand : cl.command = .list) (jobs : JobTable) (ids : List JobId)
    (hids : ∀ j ∈ ids, ∃ job, jobs.find j = some job) :
    handleResponse cl (text "OK" ++ Daemon.listLines jobs ids) =
      reporting (if ids = [] then text "No jobs" else (Daemon.listLines jobs ids).drop 1) := by
  have hfalse : isErrorResponse (text "OK" ++ Daemon.listLines jobs ids) = false :=
    (@not_error (text "OK" ++ Daemon.listLines jobs ids) 79 rfl (by decide)).1
  unfold handleResponse
  rw [hfalse, if_neg (by simp), hcommand]
  cases ids with
  | nil => rfl
  | cons j ids =>
    obtain ⟨job, hjob⟩ := hids j List.mem_cons_self
    obtain ⟨lines, hlines⟩ : ∃ lines, Daemon.listLines jobs (j :: ids) = text "\n" ++ lines := by
      rw [Daemon.listLines_cons hjob, Daemon.listLine]
      exact ⟨text "id=" ++ decimal job.id ++ text " state=" ++ jobStateName job.state ++
        Daemon.listLines jobs ids, by simp [text]⟩
    have hne : text "OK" ++ (text "\n" ++ lines) ≠ text "OK" := fun heq => by
      have hlength := congrArg List.length heq
      simp [text] at hlength
    have htake : (text "OK" ++ (text "\n" ++ lines)).take 3 = text "OK\n" := by
      rw [← List.append_assoc]
      exact (List.take_left' (by decide)).trans (by decide)
    have hdrop : (text "OK" ++ (text "\n" ++ lines)).drop 3 = lines := by
      rw [← List.append_assoc]
      exact List.drop_left' (by decide)
    rw [hlines]
    simp only
    rw [if_neg hne, if_neg (not_not.mpr htake), hdrop, if_neg (by simp)]
    rfl

theorem formatJobStatus_ne_nil (job : Job) : Daemon.formatJobStatus job ≠ [] := by
  obtain ⟨c, rest, hstatus⟩ : ∃ c rest, Daemon.formatJobStatus job = c :: rest := ⟨105, _, rfl⟩
  rw [hstatus]
  exact List.cons_ne_nil c rest

theorem handleResponse_status (hcommand : cl.command = .status) {line : Bytes} (hline : line ≠ []) :
    handleResponse cl (text "OK " ++ line) = reporting line := by
  have hfalse : isErrorResponse (text "OK " ++ line) = false :=
    (@not_error (text "OK " ++ line) 79 rfl (by decide)).1
  have hlong : ¬ (text "OK " ++ line).length ≤ 3 := by
    have hpos := List.length_pos_iff.mpr hline
    rw [List.length_append]
    show ¬ 3 + line.length ≤ 3
    omega
  unfold handleResponse
  rw [hfalse, if_neg (by simp), hcommand]
  simp only
  rw [if_neg (not_or.mpr ⟨hlong, not_not.mpr (take_ok line)⟩), drop_ok]

theorem handleResponse_cancelled (hcommand : cl.command = .cancel) :
    handleResponse cl Daemon.cancelledResponse =
      reporting (text "Cancelled job " ++ decimal cl.jobId) := by
  unfold handleResponse
  rw [if_neg (by decide), hcommand]
  rfl

theorem handleResponse_terminating (hcommand : cl.command = .cancel) :
    handleResponse cl Daemon.terminatingResponse =
      reporting (text "Cancellation requested for job " ++ decimal cl.jobId) := by
  unfold handleResponse
  rw [if_neg (by decide), hcommand]
  simp only
  rw [if_neg (by decide)]
  rfl

/-- What a CANCEL is answered with. -/
theorem cancel_answers (h : Daemon.Sound n ⟨v, []⟩) (j : JobId) :
    wp (Daemon.answeringInvalidArgument (Daemon.cancelJob K j)) (fun r v' => ∀ response,
      r = .ok response → text "ERR " <+: response ∨ Daemon.Cancels K j v v' response ∧
        (response = Daemon.cancelledResponse → Daemon.CancelledWhileQueued v'.log j)) v := by
  apply Daemon.answeringInvalidArgument_spec
  rcases hrun : Daemon.cancelJob K j v with ⟨r, v'⟩
  refine wp_of_run hrun ⟨fun response hr => Or.inr ⟨?_, ?_⟩, fun what _ response hr => Or.inl ?_⟩
  · exact wp_run (Daemon.cancelJob_cancels h j) hrun response hr
  · rintro rfl
    exact (wp_run (Daemon.cancelJob_spec h j) hrun).2 hr
  · rw [← Except.ok.inj hr]
    exact List.prefix_append _ _

/-- A job that is terminating because it was cancelled has, whenever it is settled, been cancelled. -/
theorem ends_cancelled {j : JobId} {state : JobState} (hsound : Daemon.Sound n ⟨v', []⟩)
    (hlater : Walk (Daemon.Step K) Set.univ ⟨v', []⟩ ⟨w, []⟩)
    (h : ∃ job, v'.st.jobs.find j = some job ∧ job.terminationCause = some .cancelled ∧
      (job.state = .terminating ∨ job.state = .cancelled))
    (hnow : w.st.stateOf j = some state) (hterm : isTerminal state) : state = .cancelled := by
  obtain ⟨-, job, hjob, -, hstate⟩ := Daemon.sound_invariant
    (fun _ _ _ hs hstep ih => hstep.cancelling hs.wf ih) hlater hsound h
  rw [Daemon.stateOf_of_find hjob] at hnow
  obtain rfl := Option.some.inj hnow
  refine hstate.resolve_left fun hterminating => ?_
  rw [hterminating] at hterm
  cases hterm

/-- The client prints what a CANCEL has come to, unless it was declined. -/
theorem fulfilled_of_cancels (hcommand : cl.command = .cancel) (hbetween : Between K s v')
    (hlater : Walk (Daemon.Step K) Set.univ ⟨v', []⟩ ⟨w, []⟩)
    (hcancels : Daemon.Cancels K cl.jobId v v' response)
    (hqueue : response = Daemon.cancelledResponse → Daemon.CancelledWhileQueued v'.log cl.jobId) :
    text "ERR " <+: response ∨ Fulfilled K cl v v' w (handleResponse cl response) := by
  cases hcancels with
  | cancelled hqueued hstate =>
    obtain ⟨hnow, hnever⟩ := Daemon.never_started hbetween hstate (hqueue rfl) w [] hlater
    rw [handleResponse_cancelled hcommand]
    exact Or.inr (.cancelled hcommand hqueued hnow hnever)
  | terminating hrunning hsent hscheduler htimeouts hlog hdeadline hjob hcause hstate =>
    rw [handleResponse_terminating hcommand]
    exact Or.inr (.terminating hcommand hrunning hsent fun state =>
      ends_cancelled hbetween.sound hlater ⟨_, hjob, hcause, hstate⟩)
  | declined herr => exact Or.inl herr

/-- The client prints the id of the job that a SUBMIT has added, and the job stays. -/
theorem fulfilled_of_submitted {j : JobId} {job : Job} (hcommand : cl.command = .submit)
    (hsound : Daemon.Sound n ⟨v', []⟩)
    (hlater : Walk (Daemon.Step K) Set.univ ⟨v', []⟩ ⟨w, []⟩) (hne : j ≠ 0)
    (hnew : v.st.jobs.find j = none) (hjob : v'.st.jobs.find j = some job) (hid : job.id = j)
    (hbounded : j < 2 ^ 64) (hspec : job.spec = cl.jobSpec) :
    Fulfilled K cl v v' w (handleResponse cl (Daemon.acknowledgement j)) := by
  rw [@handleResponse_acknowledgement cl hcommand _ (Nat.pos_of_ne_zero hne) hbounded]
  obtain ⟨-, job', hjob', hid', hspec'⟩ := Daemon.sound_invariant
    (fun _ _ _ hs hstep => hstep.keeps_job hs.wf) hlater hsound ⟨job, hjob, hid, hspec⟩
  exact .submitted hcommand hnew hjob' hid' hspec'

/-- The client prints what is so. -/
theorem fulfilled_of_handled (hparse : parseCommandLine args = .ok cl)
    (hpayload : makeRequestPayload cl = .ok request) (hbetween : Between K s v)
    (hrun : Daemon.handleRequest K request v = (.ok response, v'))
    (hlater : Walk (Daemon.Step K) Set.univ ⟨v', []⟩ ⟨w, []⟩) :
    Fulfilled K cl v v' w (handleResponse cl response) := by
  have hsound := hbetween.sound
  obtain ⟨hrequested, -⟩ := wp_run (Daemon.handleRequest_spec hsound request) hrun
  have hbetween' : Between K s v' := hbetween.trans (hrequested.1.mono (Set.subset_univ _))
  obtain ⟨path, rest, -, haccepts⟩ := parseCommandLine_ok hparse
  obtain ⟨request', hpayload', -, hdispatches⟩ :=
    request_of_accepts haccepts (requestSize_le hpayload)
  obtain rfl := Except.ok.inj (hpayload.symm.trans hpayload')
  have hdispatches := hdispatches K
  have hrefused : text "ERR " <+: response → (cl.command ≠ .cancel → v'.st = v.st) →
      Fulfilled K cl v v' w (handleResponse cl response) := by
    intro herr hkept
    obtain ⟨reason, hreason⟩ := @handleResponse_err cl response herr
    rw [hreason]
    exact .refused hkept
  unfold Dispatches at hdispatches
  obtain ⟨command, hcommand⟩ : ∃ command, cl.command = command := ⟨_, rfl⟩
  cases command with
  | ping =>
    rw [hcommand] at hdispatches
    rw [hdispatches v] at hrun
    obtain rfl := Except.ok.inj (Prod.mk.inj hrun).1
    have hprints : handleResponse cl (text "PONG") = reporting (text "PONG") := by
      unfold handleResponse
      rw [if_neg (by decide), hcommand]
      rfl
    rw [hprints]
    exact .pong hcommand
  | list =>
    rw [hcommand] at hdispatches
    have hids := Daemon.inOrder_insertionSort v.st.jobs
    have hlist := Daemon.makeListResponse_eq hids
    rw [hdispatches v, raising_run_ok hlist] at hrun
    obtain ⟨hresponse, rfl⟩ := Prod.mk.inj hrun
    obtain rfl := Except.ok.inj hresponse
    unfold Daemon.boundedList at hrefused ⊢
    split_ifs at hrefused ⊢ with hfits
    · rw [handleResponse_list hcommand _ _ fun j => (hids.mem_iff j).mp]
      exact .listed hcommand hids
    · exact hrefused (by decide) fun _ => rfl
  | status =>
    rw [hcommand] at hdispatches
    rw [hdispatches.2 v] at hrun
    obtain ⟨hresponse, rfl⟩ := Prod.mk.inj hrun
    obtain rfl := Except.ok.inj hresponse
    cases hjob : v.st.jobs.find cl.jobId with
    | none =>
      simp only [hjob] at hrefused
      exact hrefused (by decide) fun _ => trivial
    | some job =>
      simp only [hjob, Daemon.makeStatusResponse] at hrefused ⊢
      split_ifs at hrefused ⊢ with hlong
      · exact hrefused (by decide) fun _ => trivial
      · rw [handleResponse_status hcommand (formatJobStatus_ne_nil job)]
        exact .status hcommand hjob
  | cancel =>
    rw [hcommand] at hdispatches
    rw [hdispatches.2 v] at hrun
    have hdeclined : text "ERR " <+: response →
        Fulfilled K cl v v' w (handleResponse cl response) := fun herr =>
      hrefused herr fun hne => absurd hcommand hne
    obtain herr | ⟨hcancels, hqueue⟩ := wp_run (cancel_answers hsound cl.jobId) hrun response rfl
    · exact hdeclined herr
    · exact (fulfilled_of_cancels hcommand hbetween' hlater hcancels hqueue).elim hdeclined id
  | submit =>
    rw [hcommand] at hdispatches
    obtain ⟨hdecode, -, hsubmit⟩ := hdispatches
    have hrequest : isSubmitRequest request := isSubmitRequest_of_decode hdecode
    obtain ⟨hadded, hkept⟩ := Daemon.handleRequest_submit hsound hrequest hrun
    rw [hsubmit v] at hrun
    obtain herr | rfl := wp_run (submit_answers hsound) hrun response rfl
    · obtain ⟨what, hwhat⟩ := id herr
      exact hrefused herr fun _ => hkept (Or.inl ⟨what, by rw [hwhat]⟩)
    · obtain ⟨-, hne, -, spec, job, hspec, hjob, hid, heq⟩ := hadded _ rfl
      have hspec' : job.spec = cl.jobSpec := heq.trans (Except.ok.inj (hspec.symm.trans hdecode))
      exact fulfilled_of_submitted hcommand hbetween'.sound hlater hne (hsound.fresh hne).1 hjob hid
        hsound.slots.bounded hspec'

/-! ## Both ends -/

theorem requestFrame_ok {frame : Bytes} (h : requestFrame cl = .ok frame) :
    ∃ request, makeRequestPayload cl = .ok request ∧ encodeFrame request = .ok frame := by
  unfold requestFrame at h
  cases hpayload : makeRequestPayload cl with
  | error e =>
    rw [hpayload] at h
    cases h
  | ok request =>
    rw [hpayload] at h
    exact ⟨request, rfl, h⟩

/-- The requests taken from a connection whose client has a command line. -/
def AskedOnce (cl : CommandLine) (asked : List Bytes) : Prop :=
  asked = [] ∨ ∃ request, makeRequestPayload cl = .ok request ∧ asked = [request]

theorem askedOnce_of_sent {log : List ClientEvent} (hfaithful : Daemon.Faithful K s fd w)
    (hlink : Linked fd log w)
    (hsent : sentBy log = [] ∨ ∃ frame, requestFrame cl = .ok frame ∧ sentBy log <+: frame) :
    AskedOnce cl (Daemon.wire fd w.log).asked := by
  obtain ⟨stream, hstream, harrived⟩ := hfaithful.asked
  have hbegins := harrived.trans hlink.requests
  rcases hsent with hnone | ⟨frame, hframe, hsent⟩
  · rw [hnone, List.prefix_nil] at hbegins
    subst hbegins
    refine Or.inl ?_
    generalize (Daemon.wire fd w.log).asked = asked at hstream
    cases asked with
    | nil => rfl
    | cons request asked =>
      obtain ⟨head, tail, hhead, -, hjoin⟩ := encodeFrames_cons_ok.mp hstream
      obtain ⟨rfl, -⟩ := List.append_eq_nil_iff.mp hjoin.symm
      have hnext := nextFrame_encodeFrame hhead []
      cases hnext
  · obtain ⟨request, hpayload, hencode⟩ := requestFrame_ok hframe
    rcases payloads_of_prefix hstream hencode (hbegins.trans hsent) with hnil | hone
    · exact Or.inl hnil
    · exact Or.inr ⟨request, hpayload, hone⟩

/-- A response that the client has received in full is what its request was answered with. -/
theorem answered_of_received {log : List ClientEvent} {rest : Bytes}
    (hfaithful : Daemon.Faithful K s fd w) (hlink : Linked fd log w)
    (hasked : AskedOnce cl (Daemon.wire fd w.log).asked)
    (hpayload : makeRequestPayload cl = .ok request)
    (hnext : nextFrame (receivedBy log) = .item response rest) :
    (request, response) ∈ (Daemon.wire fd w.log).answered := by
  obtain ⟨framed, stream, hframed, hstream, hsent⟩ := hfaithful.sent
  obtain ⟨others, rfl⟩ := head_of_nextFrame hstream (hlink.responses.trans hsent) hnext
  have hmem : response ∈ (Daemon.wire fd w.log).answered.map Prod.snd :=
    hframed.subset List.mem_cons_self
  obtain ⟨⟨request', response'⟩, hpair, rfl⟩ := List.mem_map.mp hmem
  have hrequest : request' ∈ (Daemon.wire fd w.log).asked :=
    hfaithful.answered.subset (List.mem_map_of_mem hpair)
  rcases hasked with hnone | ⟨request'', hpayload', hone⟩
  · rw [hnone] at hrequest
    cases hrequest
  · obtain rfl := Except.ok.inj (hpayload.symm.trans hpayload')
    rw [hone, List.mem_singleton] at hrequest
    exact hrequest ▸ hpair

end Runnerctl

open Daemon

/-- A run of the client, and a daemon that it is connected to. -/
structure Session (K : Kernel) (s : Setup) (E : Environment) (cl : CommandLine) (fd : Fd)
    (w : World Daemon) (status : ℕ) (c : ClientWorld) : Prop where
  dispatched : Dispatched K s w
  fresh : FreshFds w.log
  run : ∃ args, parseCommandLine args = .ok cl ∧
    Runnerctl.main E args start = (.ok status, c)
  linked : Linked fd c.log w

variable {K : Kernel} {s : Setup} {w w' : World Daemon} {fd fd' : Fd}
  {E E' : Environment} {cl cl' : CommandLine} {status : ℕ} {c c' : ClientWorld}
  {log events : List Event}

/-- What the client prints is what its request was answered with. -/
theorem Session.answered (h : Session K s E cl fd w status c) :
    AskedOnce cl (wire fd w.log).asked ∧
    ((∃ request response, makeRequestPayload cl = .ok request ∧
        (request, response) ∈ (wire fd w.log).answered ∧
        stdoutOf c.log = (handleResponse cl response).out ∧
        stderrOf c.log = (handleResponse cl response).err ∧
        status = if (handleResponse cl response).succeeded then 0 else 1) ∨
      status = 1 ∧ stdoutOf c.log = []) := by
  obtain ⟨hdispatched, hfresh, ⟨args, hparse, hrun⟩, hlink⟩ := h
  have hfaithful := (hdispatched.kept hfresh fd).faithful
  obtain ⟨status', c', hrun', -, hends⟩ := main_run (E := E) hparse
  obtain ⟨hstatus, rfl⟩ := Prod.mk.inj (hrun.symm.trans hrun')
  obtain rfl := Except.ok.inj hstatus
  rcases hends with ⟨response, rest, hrequest, hnext, hout, herr, hstatus⟩ |
    ⟨hstatus, ⟨hout, hsent, -⟩, -⟩
  · have hasked := askedOnce_of_sent hfaithful hlink (Or.inr ⟨_, hrequest, List.prefix_rfl⟩)
    obtain ⟨request, hpayload, -⟩ := requestFrame_ok hrequest
    have hanswered := answered_of_received hfaithful hlink hasked hpayload hnext
    exact ⟨hasked, Or.inl ⟨request, response, hpayload, hanswered, hout, herr, hstatus⟩⟩
  · exact ⟨askedOnce_of_sent hfaithful hlink hsent, Or.inr ⟨hstatus, hout⟩⟩

/-- However a session ends, the daemon takes at most one request from the connection, which is the one
that the command line says. If the client prints a response, this is what the daemon made of the
request, and what it says is so; otherwise the client fails and prints no result. -/
theorem sessions_faithful (h : Session K s E cl fd w status c) :
    AskedOnce cl (wire fd w.log).asked ∧
    ((∃ request response v v', makeRequestPayload cl = .ok request ∧ Between K s v ∧
        handleRequest K request v = (.ok response, v') ∧ Onward K fd v' w ∧
        Fulfilled K cl v v' w (handleResponse cl response) ∧
        stdoutOf c.log = (handleResponse cl response).out ∧
        stderrOf c.log = (handleResponse cl response).err ∧
        status = if (handleResponse cl response).succeeded then 0 else 1) ∨
      status = 1 ∧ stdoutOf c.log = []) := by
  obtain ⟨hasked, ⟨request, response, hpayload, hanswered, hprinted⟩ | hfailed⟩ := h.answered
  · obtain ⟨v, v', hbetween, hhandled, honward⟩ :=
      (h.dispatched.kept h.fresh fd).faithful.handled request response hanswered
    obtain ⟨args, hparse, -⟩ := h.run
    have hfulfilled := fulfilled_of_handled hparse hpayload hbetween hhandled honward.1
    exact ⟨hasked, Or.inl ⟨request, response, v, v', hpayload, hbetween, hhandled, honward,
      hfulfilled, hprinted⟩⟩
  · exact ⟨hasked, Or.inr hfailed⟩

/-- Two clients connect one after the other, and each submits a job. -/
def clientsScript : Kernel := { Kernel.quiet with
  epollWait := fun log => .ready ([[(3, { epollin := true })], [(7, { epollin := true })],
    [(7, { epollout := true }), (3, { epollin := true })], [(8, { epollin := true })],
    [(8, { epollout := true })]].getD (rounds log) [])
  accept4 := fun log => .client (lowestFd log) .again
  read := fun log fd => if fd = 7 ∨ fd = 8 then
      .data (frameOf (submitPayload 0 [text "/a"])) .again
    else Kernel.quiet.read log fd
  write := fun _ _ => .wrote 1000 .again }

/-- The calls of a client that can connect. -/
def connects : (call : UnixSocket.Call) → call.Answer
  | .lstat => (Except.error UnixSocket.ENOENT : Except Errno UnixSocket.FileStat)
  | .socket => (Except.ok 3 : Except Errno Fd)
  | .connect _ | .unlink | .bind _ | .chmod | .listen _ => (Except.ok () : Except Errno Unit)
  | .close _ | .serve => ()

/-- A client that gets this response. -/
def receiving (response : Bytes) : Environment where
  strerror _ := []
  programName := text "runnerctl"
  answer := connects
  write := .wrote 1000 .again
  read := .data (frameOf response) .eof

def submitting (response : Bytes) : ClientWorld :=
  (Runnerctl.main (receiving response) [text "submit", text "--", text "/a"] start).2

theorem session_of_submission {response : Bytes} {fd : Fd} {m : ℕ}
    (hok : ∀ i < m, (iterate clientsScript (after clientsScript oneSlot i)).1 = .ok ())
    (hfresh : FreshFds (after clientsScript oneSlot m).log)
    (hrun : (Runnerctl.main (receiving response) [text "submit", text "--", text "/a"] start).1 =
      .ok 0)
    (hrequests : (inbox fd (after clientsScript oneSlot m).log).arrived <+:
      sentBy (submitting response).log)
    (hresponses : receivedBy (submitting response).log <+:
      (wire fd (after clientsScript oneSlot m).log).sent) :
    Session clientsScript oneSlot (receiving response)
      { command := .submit, jobSpec := { argv := [text "/a"] } } fd
      (after clientsScript oneSlot m) 0 (submitting response) where
  dispatched := (reachable_after hok).dispatched
  fresh := hfresh
  run := ⟨[text "submit", text "--", text "/a"], by decide, Prod.ext hrun rfl⟩
  linked := ⟨hrequests, hresponses⟩

theorem session_first : Session clientsScript oneSlot (receiving (text "OK 1"))
    { command := .submit, jobSpec := { argv := [text "/a"] } } 7 (after clientsScript oneSlot 3) 0
    (submitting (text "OK 1")) :=
  session_of_submission (by decide +kernel) (by decide +kernel) (by decide +kernel)
    (by decide +kernel) (by decide +kernel)

/-- The job of the first client is in the table under the id that it was told. -/
theorem sessions_faithful_run : ∃ j job, (after clientsScript oneSlot 3).st.jobs.find j = some job ∧
    job.spec = { argv := [text "/a"] } ∧
    stdoutOf (submitting (text "OK 1")).log = decimal j ++ text "\n" := by
  obtain ⟨-, ⟨request, response, v, v', -, -, -, -, hfulfilled, hout, -, hstatus⟩ | ⟨hstatus, -⟩⟩ :=
    sessions_faithful session_first
  swap
  · cases hstatus
  rw [hout]
  generalize handleResponse _ response = outcome at hfulfilled hstatus ⊢
  cases hfulfilled with
  | submitted hcommand hnew hjob hid hspec => exact ⟨_, _, hjob, hspec, rfl⟩
  | refused => cases hstatus
  | pong hcommand | status hcommand | listed hcommand | cancelled hcommand | terminating hcommand =>
    cases hcommand

/-! ## Two sessions -/

/-- A response stands in the history behind the start of its connection. -/
theorem answered_mem {request response : Bytes} (h : (request, response) ∈ (wire fd log).answered) :
    ∃ pre post, log = pre ++ .answered fd request response :: post ∧
      ∀ mask, .connected fd mask ∉ post := by
  induction log using List.reverseRecOn with
  | nil => cases h
  | append_singleton log e ih =>
    rw [wire_concat] at h
    have hearlier : (request, response) ∈ (wire fd log).answered → (∀ mask, e ≠ .connected fd mask) →
        ∃ pre post, log ++ [e] = pre ++ .answered fd request response :: post ∧
          ∀ mask, .connected fd mask ∉ post := by
      intro hmem hne
      obtain ⟨pre, post, rfl, hquiet⟩ := ih hmem
      refine ⟨pre, post ++ [e], by simp, fun mask hmem => ?_⟩
      rcases List.mem_append.mp hmem with hmem | hmem
      · exact hquiet mask hmem
      · exact hne mask (List.mem_singleton.mp hmem).symm
    by_cases hspeaks : speaks fd e
    · cases e with
      | connected fd' mask =>
        obtain rfl : fd' = fd := by simpa [speaks] using hspeaks
        rw [Wire.step, if_pos rfl] at h
        cases h
      | answered fd' request' response' =>
        obtain rfl : fd' = fd := by simpa [speaks] using hspeaks
        rw [Wire.step, if_pos rfl] at h
        rcases List.mem_append.mp h with h | h
        · exact hearlier h (by simp)
        · obtain ⟨rfl, rfl⟩ := Prod.mk.inj (List.mem_singleton.mp h)
          exact ⟨log, [], rfl, by simp⟩
      | modified fd' mask | sent fd' bytes | asked fd' request' =>
        obtain rfl : fd' = fd := by simpa [speaks] using hspeaks
        rw [Wire.step, if_pos rfl] at h
        exact hearlier h (by simp)
      | _ => cases hspeaks
    · rw [Wire.step_unspoken (by simpa using hspeaks)] at h
      refine hearlier h fun mask heq => hspeaks ?_
      rw [heq]
      exact beq_self_eq_true fd

/-- A SUBMIT is acknowledged with an id once. -/
theorem acknowledged_once {pre post pre' post' : List Event} {request request' : Bytes} {j : JobId}
    (h : Throughout Unrepeated [] log) (hsubmit : isSubmitRequest request)
    (hsubmit' : isSubmitRequest request')
    (hlog : log = pre ++ .answered fd request (acknowledgement j) :: post)
    (hlog' : log = pre' ++ .answered fd' request' (acknowledgement j) :: post') : pre = pre' := by
  have honce := (h pre _ post hlog hsubmit j rfl).2 fd' request' hsubmit'
  have honce' := (h pre' _ post' hlog' hsubmit' j rfl).2 fd request hsubmit
  rw [List.nil_append] at honce honce'
  rcases List.append_eq_append_iff.mp (hlog.symm.trans hlog') with ⟨mid, rfl, hmid⟩ | ⟨mid, rfl, hmid⟩
  · cases mid with
    | nil => exact (List.append_nil _).symm
    | cons e mid =>
      rw [List.cons_append] at hmid
      obtain ⟨rfl, -⟩ := List.cons.inj hmid
      exact absurd (List.mem_append_right _ List.mem_cons_self) honce'
  · cases mid with
    | nil => exact List.append_nil _
    | cons e mid =>
      rw [List.cons_append] at hmid
      obtain ⟨rfl, -⟩ := List.cons.inj hmid
      exact absurd (List.mem_append_right _ List.mem_cons_self) honce

/-- The id that a successful SUBMIT prints was acknowledged over its connection. -/
theorem Session.acknowledged (h : Session K s E cl fd w 0 c) (hcommand : cl.command = .submit) :
    ∃ request j, isSubmitRequest request ∧
      (request, acknowledgement j) ∈ (wire fd w.log).answered ∧
      stdoutOf c.log = decimal j ++ text "\n" := by
  obtain ⟨-, ⟨request, response, hpayload, hanswered, hout, -, hstatus⟩ | ⟨hstatus, -⟩⟩ := h.answered
  swap
  · cases hstatus
  have hsucceeded : (handleResponse cl response).succeeded = true := by
    by_contra hfailed
    rw [if_neg hfailed] at hstatus
    cases hstatus
  obtain ⟨v, v', hbetween, hhandled, -⟩ :=
    (h.dispatched.kept h.fresh fd).faithful.handled request response hanswered
  have hsound := hbetween.sound
  obtain ⟨args, hparse, -⟩ := h.run
  obtain ⟨path, rest, -, haccepts⟩ := parseCommandLine_ok hparse
  obtain ⟨request', hpayload', -, hdispatches⟩ :=
    request_of_accepts haccepts (requestSize_le hpayload)
  obtain rfl := Except.ok.inj (hpayload.symm.trans hpayload')
  have hdispatches := hdispatches K
  unfold Dispatches at hdispatches
  rw [hcommand] at hdispatches
  obtain ⟨hdecode, -, hsubmit⟩ := hdispatches
  have hrequest : isSubmitRequest request := isSubmitRequest_of_decode hdecode
  obtain ⟨hadded, -⟩ := handleRequest_submit hsound hrequest hhandled
  rw [hsubmit v] at hhandled
  obtain herr | rfl := wp_run (submit_answers hsound) hhandled response rfl
  · obtain ⟨reason, hreason⟩ := @handleResponse_err cl response herr
    rw [hreason] at hsucceeded
    cases hsucceeded
  · have hpos := Nat.pos_of_ne_zero (hadded _ rfl).2.1
    rw [@handleResponse_acknowledgement cl hcommand _ hpos hsound.slots.bounded] at hout
    exact ⟨request, _, hrequest, hanswered, hout⟩

/-- Two submissions that succeed print different ids, also where the later one comes over the
descriptor of the earlier one. -/
theorem sessions_distinct (h : Session K s E cl fd w 0 c) (h' : Session K s E' cl' fd' w' 0 c')
    (hsubmit : cl.command = .submit) (hsubmit' : cl'.command = .submit)
    (hlater : w'.log = w.log ++ events) (hother : fd ≠ fd' ∨ ∃ mask, .connected fd' mask ∈ events) :
    stdoutOf c.log ≠ stdoutOf c'.log := by
  obtain ⟨request, j, hrequest, hanswered, hout⟩ := h.acknowledged hsubmit
  obtain ⟨request', j', hrequest', hanswered', hout'⟩ := h'.acknowledged hsubmit'
  intro hsame
  rw [hout, hout'] at hsame
  obtain rfl := decimal_injective (List.append_cancel_right hsame)
  obtain ⟨pre, post, hlog, -⟩ := answered_mem hanswered
  obtain ⟨pre', post', hlog', hquiet⟩ := answered_mem hanswered'
  obtain ⟨-, hunrepeated⟩ := sound_invariant (P := fun m => Throughout Unrepeated [] m.world.log)
    (fun _ _ _ hs hstep => hstep.unrepeated hs) h'.dispatched.between (sound_initial s)
    (by simp [Setup.initial, Unrepeated])
  -- the two responses are one, over one connection
  have hwhole : w'.log = pre ++ .answered fd request (acknowledgement j) :: (post ++ events) := by
    rw [hlater, hlog, List.append_assoc]
    rfl
  obtain rfl := acknowledged_once hunrepeated hrequest hrequest' hwhole hlog'
  obtain ⟨heq, rfl⟩ := List.cons.inj (List.append_cancel_left (hwhole.symm.trans hlog'))
  cases heq
  rcases hother with hne | ⟨mask, hmem⟩
  · exact hne rfl
  · exact hquiet mask (List.mem_append_right _ hmem)

/-- The two clients are told different ids. -/
theorem sessions_distinct_run :
    stdoutOf (submitting (text "OK 1")).log ≠ stdoutOf (submitting (text "OK 2")).log := by
  have hsecond : Session clientsScript oneSlot (receiving (text "OK 2")) _ 8
      (after clientsScript oneSlot 5) 0 (submitting (text "OK 2")) :=
    session_of_submission (by decide +kernel) (by decide +kernel) (by decide +kernel)
      (by decide +kernel) (by decide +kernel)
  have hlater : (after clientsScript oneSlot 5).log = (after clientsScript oneSlot 3).log ++
      (after clientsScript oneSlot 5).log.drop (after clientsScript oneSlot 3).log.length := by
    decide +kernel
  exact sessions_distinct session_first hsecond rfl rfl hlater (Or.inl (by decide))

end Runnerd
