import Runnerd.DaemonRuns
import Runnerd.SubmitCodec
import Runnerd.JobIdCodec

/-!
# Requests

`handleRequest` tells the requests apart by their first bytes and leaves the rest to a decoder for each
command. What is no request of any command, or a job that cannot be run, is answered with `ERR` and
changes nothing.
-/

namespace Runnerd

open Effect Effect.Prog

namespace Daemon

variable {K : Kernel} {w : World Daemon} {request : Bytes}

/-- The requests that the daemon carries out. -/
inductive WellFormed (request : Bytes) : Prop where
  | ping (h : request = text "PING")
  | list (h : request = text "LIST")
  | status {jobId : JobId} (h : IsJobIdRequest kStatusCommand request jobId)
  | cancel {jobId : JobId} (h : IsJobIdRequest kCancelCommand request jobId)
  | submit {timeoutMs : ℕ} {argv : List Bytes} (h : IsSubmitPayload request timeoutMs argv)
      (hvalid : validateJobSpec { argv, executionTimeout := decodedTimeout timeoutMs } = .ok ())

theorem answeringInvalidArgument_run {m : Prog Daemon Bytes} {what : Bytes} {w' : World Daemon}
    (h : m w = (.error (.invalidArgument what), w')) :
    answeringInvalidArgument m w = (.ok (text "ERR " ++ what), w') :=
  tryCatch_of_error h

theorem ofExcept_bind {α β : Type} {x : Except Exception α} {e : Exception}
    (h : x = .error e) (f : α → Prog Daemon β) :
    (ofExcept x >>= f) w = (.error e, w) := by
  rw [bind_of_error (ofExcept_run w x |>.trans (by rw [h]))]

/-- A request that is not well-formed is answered with an error, and nothing changes. -/
theorem malformed_harmless (hsize : request.length ≤ kMaxFrameSize) (h : ¬ WellFormed request) :
    ∃ what, handleRequest K request w = (.ok (text "ERR " ++ what), w) := by
  unfold handleRequest
  rw [if_neg fun hping => h (.ping hping), if_neg fun hlist => h (.list hlist)]
  by_cases hstatus : isStatusRequest request
  · rw [if_pos hstatus]
    obtain ⟨what, herror⟩ | ⟨jobId, hrequest, -⟩ :=
      decodeJobIdRequest_cases kStatusCommand (text "STATUS") request
    · exact ⟨what, answeringInvalidArgument_run (ofExcept_bind herror _)⟩
    · exact absurd (.status hrequest) h
  rw [if_neg hstatus]
  by_cases hcancel : isCancelRequest request
  · rw [if_pos hcancel]
    obtain ⟨what, herror⟩ | ⟨jobId, hrequest, -⟩ :=
      decodeJobIdRequest_cases kCancelCommand (text "CANCEL") request
    · exact ⟨what, answeringInvalidArgument_run (ofExcept_bind herror _)⟩
    · exact absurd (.cancel hrequest) h
  rw [if_neg hcancel]
  by_cases hsubmit : isSubmitRequest request = false
  · rw [if_pos hsubmit]
    have htext : text "ERR unknown request" = text "ERR " ++ text "unknown request" := by decide
    exact ⟨text "unknown request", by rw [pure_run, htext]⟩
  rw [if_neg hsubmit]
  unfold submitJob
  obtain ⟨what, herror⟩ | ⟨timeoutMs, argv, hpayload, hdecode⟩ := decodeSubmitRequest_cases hsize
  · exact ⟨what, answeringInvalidArgument_run (ofExcept_bind herror _)⟩
  · cases hvalid : validateJobSpec { argv, executionTimeout := decodedTimeout timeoutMs } with
    | ok => exact absurd (.submit hpayload hvalid) h
    | error e =>
      obtain ⟨what, rfl⟩ := validateJobSpec_error hvalid
      refine ⟨what, answeringInvalidArgument_run ?_⟩
      rw [bind_of_ok ((ofExcept_run w _).trans (by rw [hdecode]))]
      exact ofExcept_bind hvalid _

/-- A CANCEL request that ends after one byte of its job id. -/
theorem malformed_harmless_truncated : ∃ what,
    handleRequest Kernel.quiet (kCancelCommand ++ [1]) oneSlot.initial =
      (.ok (text "ERR " ++ what), oneSlot.initial) := by
  have hlength : ∀ jobId, (kCancelCommand ++ bigEndian sizeofJobId jobId).length = 14 := fun jobId => by
    rw [List.length_append, length_bigEndian]
    decide
  refine malformed_harmless (by decide) ?_
  rintro (h | h | ⟨h, -⟩ | ⟨h, -⟩ | ⟨hpayload, -⟩)
  · revert h
    decide
  · revert h
    decide
  · have := congrArg List.head? h
    revert this
    simp [kStatusCommand, kCancelCommand, text]
  · have := congrArg List.length h
    rw [hlength] at this
    revert this
    decide
  · have := congrArg List.head? hpayload.eq
    revert this
    simp [submitPayload, kSubmitCommand, kCancelCommand, text]

end Daemon

end Runnerd
