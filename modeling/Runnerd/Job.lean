import Runnerd.Basic

/-!
# Jobs

`job.h` and `job.cpp`: the record the daemon keeps for a job, its states and the transitions
between them, and the check of what a client submits.
-/

namespace Runnerd

/-- The number that identifies a job, a `uint64_t`. -/
abbrev JobId := ℕ

/-- A timeout in milliseconds. -/
abbrev JobTimeout := ℤ

inductive JobState where
  | queued
  | running
  | terminating
  | succeeded
  | failed
  | cancelled
  | timedOut
  | interrupted
  deriving DecidableEq, Repr

/-- Why a job entered `terminating`. -/
inductive TerminationCause where
  | cancelled
  | timedOut
  deriving DecidableEq, Repr

def jobStateName : JobState → Bytes
  | .queued => text "QUEUED"
  | .running => text "RUNNING"
  | .terminating => text "TERMINATING"
  | .succeeded => text "SUCCEEDED"
  | .failed => text "FAILED"
  | .cancelled => text "CANCELLED"
  | .timedOut => text "TIMED_OUT"
  | .interrupted => text "INTERRUPTED"

def isTerminal : JobState → Bool
  | .succeeded | .failed | .cancelled | .timedOut | .interrupted => true
  | .queued | .running | .terminating => false

def canTransition : JobState → JobState → Bool
  | .queued, target =>
    target == .running || target == .failed || target == .cancelled || target == .interrupted
  | .running, target =>
    target == .succeeded || target == .failed || target == .terminating || target == .interrupted
  | .terminating, target => target == .cancelled || target == .timedOut || target == .interrupted
  | .succeeded, _ | .failed, _ | .cancelled, _ | .timedOut, _ | .interrupted, _ => false

/-- What a client asks for. -/
structure JobSpec where
  argv : List Bytes := []
  executionTimeout : Option JobTimeout := none
  deriving DecidableEq, Repr

def validateJobSpec (spec : JobSpec) : Except Exception Unit :=
  match spec.argv with
  | [] => .error (.invalidArgument (text "job argv must not be empty"))
  | program :: _ =>
    match program with
    | [] => .error (.invalidArgument (text "job argv[0] must not be empty"))
    | c :: _ =>
      if c ≠ '/'.toNat.toUInt8 then
        .error (.invalidArgument (text "job argv[0] must be an absolute path"))
      else if spec.argv.any fun argument => argument.contains 0 then
        .error (.invalidArgument (text "job argument contains a NUL byte"))
      else
        match spec.executionTimeout with
        | some timeout =>
          if timeout ≤ 0 then
            .error (.invalidArgument (text "execution timeout must be positive"))
          else .ok ()
        | none => .ok ()

/-- The daemon's record of a job. -/
structure Job where
  id : JobId := 0
  spec : JobSpec := {}
  state : JobState := .queued
  pid : Option Pid := none
  processGroupId : Option Pid := none
  terminationCause : Option TerminationCause := none
  exitCode : Option ℕ := none
  exitSignal : Option ℕ := none
  failureMessage : Bytes := []
  standardOutput : Bytes := []
  standardError : Bytes := []
  deriving DecidableEq, Repr

def transitionJob (job : Job) (target : JobState) : Except Exception Job :=
  if canTransition job.state target then .ok { job with state := target }
  else
    .error (.logicError (text "invalid job state transition from " ++ jobStateName job.state ++
      text " to " ++ jobStateName target))

/-- A job that occupies a process: `running` or `terminating`. -/
def JobState.isActive : JobState → Bool
  | .running | .terminating => true
  | _ => false

/-! ## Transitions -/

theorem isTerminal_of_isActive {s : JobState} (h : s.isActive) : isTerminal s = false := by
  cases s <;> first | rfl | cases h

theorem isActive_of_isTerminal {s : JobState} (h : isTerminal s) : s.isActive = false := by
  cases s <;> first | rfl | cases h

theorem ne_of_isTerminal {s s' : JobState} (h : isTerminal s) (h' : isTerminal s' = false) :
    s ≠ s' := by
  rintro rfl
  rw [h] at h'
  cases h'

/-- A terminal state has no successor. -/
theorem canTransition_of_isTerminal {s : JobState} (h : isTerminal s) (target : JobState) :
    canTransition s target = false := by
  cases s <;> first | rfl | cases h

theorem transitionJob_eq {job : Job} {target : JobState} (h : canTransition job.state target) :
    transitionJob job target = .ok { job with state := target } := by
  unfold transitionJob
  rw [if_pos h]

/-- `validateJobSpec` accepts an absolute program path, arguments without NUL bytes, and no timeout
or a positive one. -/
theorem validateJobSpec_ok_iff (spec : JobSpec) :
    validateJobSpec spec = .ok () ↔
      (∃ rest args, spec.argv = ('/'.toNat.toUInt8 :: rest) :: args) ∧
        (∀ argument ∈ spec.argv, 0 ∉ argument) ∧ ∀ t, spec.executionTimeout = some t → 0 < t := by
  unfold validateJobSpec
  rcases hargv : spec.argv with _ | ⟨_ | ⟨c, rest⟩, args⟩
  · simp
  · simp
  · simp only
    by_cases hc : c = '/'.toNat.toUInt8
    · subst hc
      rw [if_neg (not_not.mpr rfl)]
      split_ifs with hnul
      · simp only [false_iff]
        rintro ⟨-, h, -⟩
        rw [List.any_eq_true] at hnul
        obtain ⟨a, ha, h0⟩ := hnul
        exact h a ha (by simpa using h0)
      · have hall : ∀ argument ∈ ('/'.toNat.toUInt8 :: rest) :: args, 0 ∉ argument := by
          intro a ha h0
          exact hnul (List.any_eq_true.mpr ⟨a, ha, by simpa using h0⟩)
        have hex : ∃ rest' args', ('/'.toNat.toUInt8 :: rest) :: args =
            ('/'.toNat.toUInt8 :: rest') :: args' := ⟨rest, args, rfl⟩
        rcases ht : spec.executionTimeout with _ | t
        · simp only [true_iff]
          exact ⟨hex, hall, by simp⟩
        · simp only
          split_ifs with hpos
          · simp only [false_iff]
            rintro ⟨-, -, h⟩
            exact absurd (h t rfl) (not_lt.mpr hpos)
          · simp only [true_iff]
            refine ⟨hex, hall, fun t' h' => ?_⟩
            obtain rfl := Option.some.inj h'
            exact not_le.mp hpos
    · rw [if_pos hc]
      simp only [reduceCtorEq, false_iff]
      rintro ⟨⟨_, _, h⟩, -⟩
      exact hc (List.cons.inj (List.cons.inj h).1).1

/-- Whatever `validateJobSpec` throws is an `invalid_argument`. -/
theorem validateJobSpec_error {spec : JobSpec} {e : Exception}
    (h : validateJobSpec spec = .error e) : ∃ what, e = .invalidArgument what := by
  unfold validateJobSpec at h
  split at h
  · exact ⟨_, (Except.error.inj h).symm⟩
  · split at h
    · exact ⟨_, (Except.error.inj h).symm⟩
    · split_ifs at h
      · exact ⟨_, (Except.error.inj h).symm⟩
      · exact ⟨_, (Except.error.inj h).symm⟩
      · split at h
        · split_ifs at h
          exact ⟨_, (Except.error.inj h).symm⟩
        · cases h

end Runnerd
