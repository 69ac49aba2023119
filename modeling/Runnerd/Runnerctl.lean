import Runnerd.Protocol

/-!
# The client

`runnerctl_main.cpp`: the command line, the request that is made of it, and what becomes of the
response.
-/

namespace Runnerd

namespace Runnerctl

def kDefaultSocketPath : Bytes := text "/tmp/runnerd.sock"

inductive Command where
  | ping
  | submit
  | status
  | list
  | cancel
  deriving DecidableEq, Repr

structure CommandLine where
  socketPath : Bytes := kDefaultSocketPath
  command : Command := .ping
  jobSpec : JobSpec := {}
  jobId : JobId := 0
  deriving DecidableEq, Repr

/-! ## Numbers -/

/-- The largest `uint64_t`. -/
def uint64Max : ℕ := 2 ^ 64 - 1

/-- Why a text is no number. -/
inductive BadNumber where
  | character
  | tooLarge
  deriving DecidableEq, Repr

/-- The loop over the digits of a number. The overflow is checked before `value * 10 + digit`. -/
def parseDigits (maximum : ℕ) : ℕ → Bytes → Except BadNumber ℕ
  | value, [] => .ok value
  | value, character :: rest =>
    if character < 48 ∨ character > 57 then .error .character
    else if value > (maximum - (character.toNat - 48)) / 10 then .error .tooLarge
    else parseDigits maximum (value * 10 + (character.toNat - 48)) rest

/-- What is said of a number on the command line. -/
structure NumberErrors where
  empty : Bytes
  character : Bytes
  tooLarge : Bytes
  zero : Bytes

def parsePositive (maximum : ℕ) (errors : NumberErrors) (argument : Bytes) : Except Bytes ℕ :=
  if argument = [] then .error errors.empty
  else
    match parseDigits maximum 0 argument with
    | .error .character => .error errors.character
    | .error .tooLarge => .error errors.tooLarge
    | .ok value => if value = 0 then .error errors.zero else .ok value

def parsePositiveTimeout (argument : Bytes) : Except Bytes JobTimeout := do
  let value ← parsePositive uint32Max {
    empty := text "--timeout requires a positive integer"
    character := text "--timeout must be a positive integer"
    tooLarge := text "--timeout is too large"
    zero := text "--timeout must be greater than zero" } argument
  return (value : ℤ)

def parseJobId (argument : Bytes) : Except Bytes JobId :=
  parsePositive uint64Max {
    empty := text "job id must not be empty"
    character := text "job id must be a positive integer"
    tooLarge := text "job id is too large"
    zero := text "job id must be greater than zero" } argument

/-! ## The command line

The arguments behind the program's name. An error is the text that is printed for it. -/

/-- `--socket`, which may only stand in front of the command. -/
def parseSocket (commandLine : CommandLine) :
    List Bytes → Except Bytes (CommandLine × List Bytes)
  | [] => .ok (commandLine, [])
  | argument :: rest =>
    if argument = text "--socket" then
      match rest with
      | [] => .error (text "--socket requires a non-empty path")
      | path :: rest =>
        if path = [] then .error (text "--socket requires a non-empty path")
        else .ok ({ commandLine with socketPath := path }, rest)
    else .ok (commandLine, argument :: rest)

/-- A command without arguments. -/
def parseAlone (name : Bytes) (commandLine : CommandLine) (args : List Bytes) :
    Except Bytes CommandLine :=
  if args ≠ [] then .error (name ++ text " does not accept additional arguments")
  else .ok commandLine

/-- A command with a job id. -/
def parseWithJobId (name : Bytes) (commandLine : CommandLine) :
    List Bytes → Except Bytes CommandLine
  | [] => .error (name ++ text " requires a job id")
  | argument :: rest => do
    let jobId ← parseJobId argument
    if rest ≠ [] then throw (name ++ text " accepts exactly one job id")
    else return { commandLine with jobId }

/-- `--timeout`, which may only stand between `submit` and `--`. -/
def parseTimeout (commandLine : CommandLine) :
    List Bytes → Except Bytes (CommandLine × List Bytes)
  | [] => .ok (commandLine, [])
  | argument :: rest =>
    if argument = text "--timeout" then
      match rest with
      | [] => .error (text "--timeout requires a value")
      | value :: rest => do
        let timeout ← parsePositiveTimeout value
        return ({ commandLine with
          jobSpec := { commandLine.jobSpec with executionTimeout := some timeout } }, rest)
    else .ok (commandLine, argument :: rest)

/-- The rest of a `submit`: all behind `--` belongs to the program to be run. -/
def parseSubmit (commandLine : CommandLine) (args : List Bytes) : Except Bytes CommandLine := do
  let (commandLine, args) ← parseTimeout commandLine args
  match args with
  | [] => throw (text "submit requires -- before the executable path")
  | marker :: argv =>
    if marker ≠ text "--" then throw (text "submit requires -- before the executable path")
    else if argv = [] then throw (text "submit requires an executable path after --")
    else
      let jobSpec := { commandLine.jobSpec with argv := commandLine.jobSpec.argv ++ argv }
      match validateJobSpec jobSpec with
      | .ok _ => return { commandLine with jobSpec }
      | .error (.invalidArgument what) => throw what
      -- validateJobSpec throws nothing else
      | .error _ => throw []

def parseCommandLine (args : List Bytes) : Except Bytes CommandLine := do
  let (commandLine, args) ← parseSocket {} args
  match args with
  | [] => throw (text "missing command")
  | command :: args =>
    if command = text "ping" then
      parseAlone command { commandLine with command := .ping } args
    else if command = text "list" then
      parseAlone command { commandLine with command := .list } args
    else if command = text "status" then
      parseWithJobId command { commandLine with command := .status } args
    else if command = text "cancel" then
      parseWithJobId command { commandLine with command := .cancel } args
    else if command ≠ text "submit" then throw (text "unknown command: " ++ command)
    else parseSubmit { commandLine with command := .submit } args

def makeRequestPayload (commandLine : CommandLine) : Except Exception Bytes :=
  match commandLine.command with
  | .ping => .ok (text "PING")
  | .submit => encodeSubmitRequest commandLine.jobSpec
  | .status => encodeStatusRequest commandLine.jobId
  | .list => .ok (text "LIST")
  | .cancel => encodeCancelRequest commandLine.jobId

/-! ## The response -/

/-- `response == "ERR" || response.compare(0, 4, "ERR ") == 0`. -/
def isErrorResponse (response : Bytes) : Bool :=
  response == text "ERR" || response.take 4 == text "ERR "

def parseSubmitSuccessResponse (response : Bytes) : Option JobId :=
  if response.take 3 ≠ text "OK " ∨ response.length = 3 then none
  else
    match parseDigits uint64Max 0 (response.drop 3) with
    | .error _ => none
    | .ok value => if value = 0 then none else some value

/-- What is printed, and whether the program succeeds. -/
structure Outcome where
  out : Bytes := []
  err : Bytes := []
  succeeded : Bool
  deriving DecidableEq, Repr

/-- A success that prints one line. -/
def reporting (line : Bytes) : Outcome := { out := line ++ text "\n", succeeded := true }

/-- A response that no request of the command is answered with. -/
def unexpected (response : Bytes) : Outcome where
  err := text "unexpected response: " ++ response ++ text "\n"
  succeeded := false

def handleResponse (commandLine : CommandLine) (response : Bytes) : Outcome :=
  if isErrorResponse response then
    { err :=
        if response = text "ERR" then text "server error\n"
        else text "server error: " ++ response.drop 4 ++ text "\n"
      succeeded := false }
  else
    match commandLine.command with
    | .ping => if response ≠ text "PONG" then unexpected response else reporting (text "PONG")
    | .submit =>
      match parseSubmitSuccessResponse response with
      | none => unexpected response
      | some jobId => reporting (decimal jobId)
    | .status =>
      if response.length ≤ 3 ∨ response.take 3 ≠ text "OK " then unexpected response
      else reporting (response.drop 3)
    | .list =>
      if response = text "OK" then reporting (text "No jobs")
      else if response.take 3 ≠ text "OK\n" then unexpected response
      else reporting (response.drop 3)
    | .cancel =>
      if response = text "OK cancelled" then
        reporting (text "Cancelled job " ++ decimal commandLine.jobId)
      else if response = text "OK terminating" then
        reporting (text "Cancellation requested for job " ++ decimal commandLine.jobId)
      else unexpected response

/-! ## Numbers and their digits -/

theorem le_ofDigitChars (chars : List Char) (value : ℕ) :
    value ≤ Nat.ofDigitChars 10 chars value := by
  rw [Nat.ofDigitChars_eq_ofDigitChars_zero]
  have := Nat.le_mul_of_pos_left value (Nat.pow_pos (n := chars.length) (show 0 < 10 by decide))
  omega

/-- The loop reads digits up to the maximum. -/
theorem parseDigits_ofDigitChars {maximum : ℕ} {chars : List Char} {value : ℕ}
    (hdigits : ∀ c ∈ chars, c.isDigit) (hmax : Nat.ofDigitChars 10 chars value ≤ maximum) :
    parseDigits maximum value (chars.map fun c => c.toNat.toUInt8) =
      .ok (Nat.ofDigitChars 10 chars value) := by
  induction chars generalizing value with
  | nil => rfl
  | cons c chars ih =>
    have hrange : 48 ≤ c.toNat ∧ c.toNat ≤ 57 := by
      have hdigit := hdigits c List.mem_cons_self
      simp only [Char.isDigit, Bool.and_eq_true, decide_eq_true_eq] at hdigit
      exact ⟨UInt32.le_iff_toNat_le.mp hdigit.1, UInt32.le_iff_toNat_le.mp hdigit.2⟩
    have hbyte : c.toNat.toUInt8.toNat = c.toNat := by
      rw [Nat.toUInt8_eq, UInt8.toNat_ofNat']
      omega
    have hin : ¬ (c.toNat.toUInt8 < 48 ∨ c.toNat.toUInt8 > 57) := by
      rw [gt_iff_lt, UInt8.lt_iff_toNat_lt, UInt8.lt_iff_toNat_lt, hbyte]
      show ¬ (c.toNat < 48 ∨ 57 < c.toNat)
      omega
    have hnext : 10 * value + (c.toNat - 48) = value * 10 + (c.toNat - 48) := by omega
    rw [Nat.ofDigitChars_cons] at hmax ⊢
    change Nat.ofDigitChars 10 chars (10 * value + (c.toNat - 48)) ≤ maximum at hmax
    change _ = Except.ok (Nat.ofDigitChars 10 chars (10 * value + (c.toNat - 48)))
    rw [hnext] at hmax ⊢
    have hle := (le_ofDigitChars chars (value * 10 + (c.toNat - 48))).trans hmax
    rw [List.map_cons, parseDigits, if_neg hin, hbyte, if_neg (by omega)]
    exact ih (fun c' hc' => hdigits c' (List.mem_cons_of_mem c hc')) hmax

theorem parseDigits_decimal {maximum n : ℕ} (h : n ≤ maximum) :
    parseDigits maximum 0 (decimal n) = .ok n := by
  have hback : Nat.ofDigitChars 10 (Nat.toDigits 10 n) 0 = n := Nat.ofDigitChars_ten_toDigits
  unfold decimal
  rw [parseDigits_ofDigitChars (fun c hc => ?_) (by rw [hback]; exact h), hback]
  exact Nat.isDigit_of_mem_toDigits (by decide) (by decide) hc

/-- What the loop reads is no larger than the maximum. -/
theorem parseDigits_le {maximum value n : ℕ} {digits : Bytes} (hmax : 9 ≤ maximum)
    (hvalue : value ≤ maximum) (h : parseDigits maximum value digits = .ok n) : n ≤ maximum := by
  induction digits generalizing value with
  | nil =>
    obtain rfl := Except.ok.inj h
    exact hvalue
  | cons character rest ih =>
    rw [parseDigits] at h
    split_ifs at h with hcharacter hlarge
    have hdigit : character.toNat ≤ 57 :=
      UInt8.le_iff_toNat_le.mp (UInt8.not_lt.mp fun hlt => hcharacter (Or.inr hlt))
    exact ih (by omega) h

theorem parsePositive_ok {maximum n : ℕ} {errors : NumberErrors} {argument : Bytes}
    (hmax : 9 ≤ maximum) (h : parsePositive maximum errors argument = .ok n) :
    0 < n ∧ n ≤ maximum := by
  unfold parsePositive at h
  split_ifs at h
  cases hvalue : parseDigits maximum 0 argument with
  | error bad =>
    rw [hvalue] at h
    cases bad <;> cases h
  | ok value =>
    rw [hvalue] at h
    simp only at h
    split_ifs at h with hzero
    obtain rfl := Except.ok.inj h
    exact ⟨Nat.pos_of_ne_zero hzero, parseDigits_le hmax (Nat.zero_le _) hvalue⟩

end Runnerctl

end Runnerd
