import Mathlib.Data.List.TakeWhile
import Runnerd.NaturalExit

/-!
# The child between `fork` and `execve`

The child's side of `launchProcess`. It gives itself the descriptors of a job and becomes the
program of the job, or reports over a pipe where it failed. Whatever fails, the parent settles the
job by what the child came to: a program that was never started is no success, and one that was is
never taken for a failed start.
-/

namespace Runnerd

open Effect Effect.Prog Steps

namespace Child

/-! ## The report -/

inductive ChildStartupStage where
  | parentDied
  | setParentDeathSignal
  | setProcessGroup
  | duplicateStdin
  | duplicateStdout
  | duplicateStderr
  | execve
  deriving DecidableEq, Repr

def ChildStartupStage.number : ChildStartupStage → ℕ
  | .parentDied => 1
  | .setParentDeathSignal => 2
  | .setProcessGroup => 3
  | .duplicateStdin => 4
  | .duplicateStdout => 5
  | .duplicateStderr => 6
  | .execve => 7

structure ChildStartupError where
  stage : ChildStartupStage
  errorNumber : ℤ
  deriving DecidableEq

/-- The bytes of a `uint32_t`, lowest first. -/
def native32 (v : ℕ) : Bytes :=
  [v.toUInt8, (v / 256).toUInt8, (v / 65536).toUInt8, (v / 16777216).toUInt8]

/-- The bytes of a `ChildStartupError` in memory. -/
def ChildStartupError.bytes (error : ChildStartupError) : Bytes :=
  native32 error.stage.number ++ native32 (error.errorNumber % 2 ^ 32).toNat

/-! ## The process -/

/-- What a descriptor refers to. -/
inductive File where
  | devNull
  | readEnd (kind : ProcessFdKind)
  | writeEnd (kind : ProcessFdKind)
  | other (id : ℕ)
  deriving DecidableEq

structure Descriptor where
  file : File
  closeOnExec : Bool
  deriving DecidableEq

/-- The open descriptors of a process. -/
abbrev Descriptors := Fd → Option Descriptor

/-- What the child writes. -/
structure ChildEvent where
  file : File
  bytes : Bytes
  deriving DecidableEq

/-- How the child ends: `_exit`, or another program in its place. -/
inductive ChildEnding where
  | exit (code : ℕ)
  | image (path : Bytes) (argv : List Bytes)
  deriving DecidableEq

/-- A computation of the child. It does not return where the child ends. -/
abbrev ChildProg (α : Type) := Effect.Prog ChildEvent ChildEnding Descriptors α

abbrev ChildWorld := Effect.World ChildEvent Descriptors

/-- What the system calls of the child return. -/
structure Calls where
  prctl : Except Errno Unit
  getppid : Pid
  setpgid : Except Errno Unit
  dup2 : Fd → Except Errno Unit
  execve : Option Errno
  write : Writes

variable (C : Calls)

def closeFd (fd : Fd) : ChildProg Unit := update fun fds => Function.update fds fd none

/-- What `dup2` does when it succeeds. -/
def duplicate (sourceFd targetFd : Fd) : ChildProg Unit := update fun fds =>
  if sourceFd = targetFd then fds
  else Function.update fds targetFd ((fds sourceFd).map fun d => { d with closeOnExec := false })

/-- The loop of `reportChildStartupError`: the bytes that are still to be written. -/
def reportLoop (errorFd : Fd) : Writes → Bytes → ChildProg Unit
  | .wrote count rest, data =>
    if data = [] then return ()
    else do
      match (← state) errorFd with
      | none => return ()
      | some descriptor =>
        let bytes := Daemon.accepted count data
        emit ⟨descriptor.file, bytes⟩
        reportLoop errorFd rest (data.drop bytes.length)
  | .interrupted rest, data => if data = [] then return () else reportLoop errorFd rest data
  | .again, _ | .failed, _ => return ()

def reportChildStartupError (errorFd : Fd) (stage : ChildStartupStage) (errno : Errno) :
    ChildProg Unit := do
  reportLoop errorFd C.write (ChildStartupError.bytes ⟨stage, errno.number⟩)
  throw (.exit 127)

/-- A call that must succeed. -/
def orReport (errorFd : Fd) (stage : ChildStartupStage) : Except Errno Unit → ChildProg Unit
  | .ok _ => return ()
  | .error errno => reportChildStartupError C errorFd stage errno

def duplicateOrReport (sourceFd targetFd errorFd : Fd) (stage : ChildStartupStage) :
    ChildProg Unit := do
  orReport C errorFd stage (C.dup2 targetFd)
  duplicate sourceFd targetFd

/-- What a string is to a function that takes a `char*`. -/
def cString (s : Bytes) : Bytes := s.takeWhile (· ≠ 0)

/-- `execve`, which does not return if it succeeds. -/
def execve (path : Bytes) (argv : List Bytes) (errorFd : Fd) : ChildProg Unit :=
  match C.execve with
  | none => do
    update fun fds fd => (fds fd).filter fun d => !d.closeOnExec
    throw (.image path argv)
  | some errno => reportChildStartupError C errorFd .execve errno

/-- The child's branch of `launchProcess`. -/
def startChild (originalParentPid : Pid) (fds : LaunchFds) (argv : List Bytes) :
    ChildProg Unit := do
  closeFd fds.stdoutPipe.readFd
  closeFd fds.stderrPipe.readFd
  closeFd fds.startupErrorPipe.readFd
  let errorFd := fds.startupErrorPipe.writeFd
  orReport C errorFd .setParentDeathSignal C.prctl
  orReport C errorFd .parentDied
    (if C.getppid ≠ originalParentPid then .error .ECHILD else .ok ())
  orReport C errorFd .setProcessGroup C.setpgid
  duplicateOrReport C fds.devNullFd 0 errorFd .duplicateStdin
  duplicateOrReport C fds.stdoutPipe.writeFd 1 errorFd .duplicateStdout
  duplicateOrReport C fds.stderrPipe.writeFd 2 errorFd .duplicateStderr
  closeFd fds.devNullFd
  closeFd fds.stdoutPipe.writeFd
  closeFd fds.stderrPipe.writeFd
  execve C (cString (argv.headD [])) (argv.map cString) errorFd

/-! ## Reporting -/

/-- The bytes written to a file. -/
def writtenTo (file : File) (log : List ChildEvent) : Bytes :=
  log.flatMap fun e => if e.file = file then e.bytes else []

variable {C : Calls} {w w' : ChildWorld} {errorFd : Fd} {stage : ChildStartupStage} {errno : Errno}
  {d : Descriptor}

theorem writtenTo_cons (file : File) (e : ChildEvent) (log : List ChildEvent) :
    writtenTo file (e :: log) = (if e.file = file then e.bytes else []) ++ writtenTo file log :=
  List.flatMap_cons

/-- A report over a descriptor: the beginning of a record, written to one file. -/
def Reports (file : File) (data : Bytes) (events : List ChildEvent) : Prop :=
  (∀ e ∈ events, e.file = file) ∧ writtenTo file events <+: data

theorem reports_nil (file : File) (data : Bytes) : Reports file data [] :=
  ⟨by simp, List.nil_prefix⟩

theorem reportLoop_spec (writes : Writes) (data : Bytes) (hopen : w.st errorFd = some d) :
    wp (reportLoop errorFd writes data) (fun r w' => r = .ok () ∧
      ∃ events, w' = ⟨w.st, w.log ++ events⟩ ∧ Reports d.file data events) w := by
  have hnothing : ∀ {w : ChildWorld} {data : Bytes}, ∃ events, w = ⟨w.st, w.log ++ events⟩ ∧
      Reports d.file data events := fun {w data} =>
    ⟨[], by rw [List.append_nil], reports_nil d.file data⟩
  induction writes generalizing data w with
  | wrote count rest ih =>
    unfold reportLoop
    split_ifs with hnil
    · exact wp_pure ⟨rfl, hnothing⟩
    · refine wp_bind_ok (state_run w) ?_
      simp only [hopen]
      refine wp_bind_ok (emit_run w _) (wp_mono (ih _ hopen) ?_)
      rintro r w' ⟨rfl, events, rfl, hfile, hwritten⟩
      refine ⟨rfl, _, congrArg _ (List.append_assoc _ _ _), ?_, ?_⟩
      · exact List.forall_mem_cons.mpr ⟨rfl, hfile⟩
      · rw [List.singleton_append, writtenTo_cons, if_pos rfl]
        have hback : Daemon.accepted count data ++
            data.drop (Daemon.accepted count data).length = data :=
          List.prefix_iff_eq_append.mp (List.take_prefix _ _)
        conv_rhs => rw [← hback]
        exact (List.prefix_append_right_inj _).mpr hwritten
  | interrupted rest ih =>
    unfold reportLoop
    split_ifs with hnil
    · exact wp_pure ⟨rfl, hnothing⟩
    · exact ih _ hopen
  | again | failed => exact wp_pure ⟨rfl, hnothing⟩

theorem reportChildStartupError_spec (hopen : w.st errorFd = some d) :
    wp (reportChildStartupError C errorFd stage errno) (fun r w' => r = .error (.exit 127) ∧
      ∃ events, w' = ⟨w.st, w.log ++ events⟩ ∧
        Reports d.file (ChildStartupError.bytes ⟨stage, errno.number⟩) events) w := by
  unfold reportChildStartupError
  refine wp_bind (reportLoop_spec C.write _ hopen) ?_ ?_
  · rintro _ w' ⟨-, hreports⟩
    exact wp_throw ⟨rfl, hreports⟩
  · rintro e w' ⟨he, -⟩
    cases he

/-! ## The first call that fails -/

def firstFailure : List (ChildStartupStage × Except Errno Unit) → Option (ChildStartupStage × Errno)
  | [] => none
  | (_, .ok _) :: rest => firstFailure rest
  | (stage, .error errno) :: _ => some (stage, errno)

/-- How calls end: with a report of the first that fails, or in `Done`. -/
def EndsBy (calls : List (ChildStartupStage × Except Errno Unit))
    (Done : Except ChildEnding Unit → ChildWorld → Prop) (r : Except ChildEnding Unit)
    (w : ChildWorld) : Prop :=
  match firstFailure calls with
  | some (stage, errno) => r = .error (.exit 127) ∧
      Reports (.writeEnd .startupError) (ChildStartupError.bytes ⟨stage, errno.number⟩) w.log
  | none => Done r w

section EndsBy

variable {rest : List (ChildStartupStage × Except Errno Unit)} {next : Unit → ChildProg Unit}
  {Done : Except ChildEnding Unit → ChildWorld → Prop}

theorem endsBy_error (hopen : w.st errorFd = some ⟨.writeEnd .startupError, true⟩)
    (hlog : w.log = []) :
    wp (reportChildStartupError C errorFd stage errno)
      (EndsBy ((stage, .error errno) :: rest) Done) w := by
  refine wp_mono (reportChildStartupError_spec hopen) ?_
  rintro r w' ⟨hr, events, rfl, hreports⟩
  refine ⟨hr, ?_⟩
  rw [hlog]
  exact hreports

theorem wp_orReport {call : Except Errno Unit}
    (hopen : w.st errorFd = some ⟨.writeEnd .startupError, true⟩) (hlog : w.log = [])
    (hok : wp (next ()) (EndsBy rest Done) w) :
    wp (orReport C errorFd stage call >>= next) (EndsBy ((stage, call) :: rest) Done) w := by
  cases call with
  | ok _ => exact wp_bind_ok rfl hok
  | error errno =>
    have hreport : wp (reportChildStartupError C errorFd stage errno)
        (EndsBy ((stage, .error errno) :: rest) Done) w := endsBy_error hopen hlog
    refine wp_bind hreport ?_ fun e w' hends => hends
    rintro _ w' ⟨he, -⟩
    cases he

theorem duplicate_run {sourceFd targetFd : Fd} (hne : sourceFd ≠ targetFd)
    (hopen : w.st sourceFd = some d) :
    duplicate sourceFd targetFd w = (.ok (),
      w.put (Function.update w.st targetFd (some { d with closeOnExec := false }))) := by
  unfold duplicate
  rw [update_run, if_neg hne, hopen]
  rfl

theorem wp_duplicateOrReport {sourceFd targetFd : Fd}
    (hopen : w.st errorFd = some ⟨.writeEnd .startupError, true⟩) (hlog : w.log = [])
    (hne : sourceFd ≠ targetFd) (hsource : w.st sourceFd = some d)
    (hok : wp (next ()) (EndsBy rest Done)
      (w.put (Function.update w.st targetFd (some { d with closeOnExec := false })))) :
    wp (duplicateOrReport C sourceFd targetFd errorFd stage >>= next)
      (EndsBy ((stage, C.dup2 targetFd) :: rest) Done) w := by
  unfold duplicateOrReport
  rw [bind_bind]
  exact wp_orReport hopen hlog (wp_bind_ok (duplicate_run hne hsource) hok)

end EndsBy

/-- `execve` as a call that can fail. -/
def execveCall (C : Calls) : Except Errno Unit :=
  match C.execve with
  | none => .ok ()
  | some errno => .error errno

/-- The descriptors that `execve` keeps. -/
def keptOpen (table : Descriptors) : Descriptors := fun fd =>
  (table fd).filter fun d => !d.closeOnExec

theorem execve_spec (path : Bytes) (argv : List Bytes)
    (hopen : w.st errorFd = some ⟨.writeEnd .startupError, true⟩) (hlog : w.log = []) :
    wp (execve C path argv errorFd) (EndsBy [(.execve, execveCall C)] fun r w' =>
      r = .error (.image path argv) ∧ w'.log = [] ∧ w'.st = keptOpen w.st) w := by
  unfold execve execveCall
  cases C.execve with
  | none => exact wp_bind_ok (update_run _ _) (wp_throw ⟨rfl, hlog, rfl⟩)
  | some errno => exact endsBy_error hopen hlog

/-! ## The descriptors -/

/-- The descriptors of a job's program, by those of the daemon at `fork`: the standard ones are the
job's, and behind them only what is not close-on-exec is kept. -/
def jobDescriptors (table : Descriptors) : Descriptors
  | 0 => some ⟨.devNull, false⟩
  | 1 => some ⟨.writeEnd .stdout, false⟩
  | 2 => some ⟨.writeEnd .stderr, false⟩
  | fd => keptOpen table fd

theorem jobDescriptors_of_ge {table : Descriptors} {fd : Fd} (hfd : 3 ≤ fd) :
    jobDescriptors table fd = keptOpen table fd := by
  unfold jobDescriptors
  split <;> first | rfl | exact absurd hfd (by decide)

/-- The descriptors of a launch at `fork`: they stand behind the standard ones and are
close-on-exec. -/
structure Ready (fds : LaunchFds) (table : Descriptors) : Prop where
  devNull : table fds.devNullFd = some ⟨.devNull, true⟩
  stdoutRead : table fds.stdoutPipe.readFd = some ⟨.readEnd .stdout, true⟩
  stdoutWrite : table fds.stdoutPipe.writeFd = some ⟨.writeEnd .stdout, true⟩
  stderrRead : table fds.stderrPipe.readFd = some ⟨.readEnd .stderr, true⟩
  stderrWrite : table fds.stderrPipe.writeFd = some ⟨.writeEnd .stderr, true⟩
  startupErrorRead : table fds.startupErrorPipe.readFd = some ⟨.readEnd .startupError, true⟩
  startupErrorWrite : table fds.startupErrorPipe.writeFd = some ⟨.writeEnd .startupError, true⟩
  behind : ∀ fd ∈ fds.all, 3 ≤ fd

variable {fds : LaunchFds} {table : Descriptors} {fd : Fd}

theorem ne_of_files {fd' : Fd} {d' : Descriptor} (h : table fd = some d) (h' : table fd' = some d')
    (hne : d ≠ d') : fd ≠ fd' := by
  rintro rfl
  exact hne (Option.some.inj (h.symm.trans h'))

section Ready

variable (h : Ready fds table)

include h

theorem Ready.devNull_ge : 3 ≤ fds.devNullFd := h.behind _ (by simp [LaunchFds.all])

theorem Ready.stdoutWrite_ge : 3 ≤ fds.stdoutPipe.writeFd := h.behind _ (by simp [LaunchFds.all])

theorem Ready.stderrWrite_ge : 3 ≤ fds.stderrPipe.writeFd := h.behind _ (by simp [LaunchFds.all])

theorem Ready.startupErrorWrite_ge : 3 ≤ fds.startupErrorPipe.writeFd :=
  h.behind _ (by simp [LaunchFds.all])

end Ready

theorem ne_standard {targetFd : Fd} (hfd : 3 ≤ fd) (htarget : targetFd < 3) : fd ≠ targetFd :=
  (htarget.trans_le hfd).ne'

theorem find_replaced {targetFd : Fd} {x : Option Descriptor} (htarget : targetFd < 3)
    (hfd : 3 ≤ fd) :
    Function.update table targetFd x fd = table fd :=
  Function.update_of_ne (ne_standard hfd htarget) x table

theorem open_of_close {closedFd : Fd} (h : Function.update table closedFd none fd = some d) :
    table fd = some d := by
  by_cases heq : fd = closedFd
  · subst heq
    rw [Function.update_self] at h
    cases h
  · rwa [Function.update_of_ne heq] at h

/-- The child closes its read ends. -/
def readEndsClosed (fds : LaunchFds) (table : Descriptors) : Descriptors :=
  Function.update (Function.update (Function.update table fds.stdoutPipe.readFd none)
    fds.stderrPipe.readFd none) fds.startupErrorPipe.readFd none

/-- The standard descriptors of a job in a table. -/
def withStandard (table : Descriptors) : Descriptors :=
  Function.update (Function.update (Function.update table 0 (some ⟨.devNull, false⟩))
    1 (some ⟨.writeEnd .stdout, false⟩)) 2 (some ⟨.writeEnd .stderr, false⟩)

/-- The child closes what it has duplicated. -/
def duplicatesClosed (fds : LaunchFds) (table : Descriptors) : Descriptors :=
  Function.update (Function.update (Function.update table fds.devNullFd none)
    fds.stdoutPipe.writeFd none) fds.stderrPipe.writeFd none

theorem find_readEndsClosed {file : File} (h : Ready fds table) (hfd : table fd = some ⟨file, true⟩)
    (hfile : ∀ kind, file ≠ .readEnd kind) : readEndsClosed fds table fd = some ⟨file, true⟩ := by
  unfold readEndsClosed
  rw [Function.update_of_ne, Function.update_of_ne, Function.update_of_ne]
  · exact hfd
  · exact ne_of_files hfd h.stdoutRead (by simp [hfile])
  · exact ne_of_files hfd h.stderrRead (by simp [hfile])
  · exact ne_of_files hfd h.startupErrorRead (by simp [hfile])

theorem find_withStandard (hfd : 3 ≤ fd) : withStandard table fd = table fd := by
  unfold withStandard
  rw [find_replaced (by decide) hfd, find_replaced (by decide) hfd, find_replaced (by decide) hfd]

theorem find_duplicatesClosed (h : fd ≠ fds.devNullFd) (h' : fd ≠ fds.stdoutPipe.writeFd)
    (h'' : fd ≠ fds.stderrPipe.writeFd) : duplicatesClosed fds table fd = table fd := by
  unfold duplicatesClosed
  rw [Function.update_of_ne h'', Function.update_of_ne h', Function.update_of_ne h]

/-- The pipe of the report stays open until `execve`. -/
theorem find_startupError (h : Ready fds table) :
    duplicatesClosed fds (withStandard (readEndsClosed fds table)) fds.startupErrorPipe.writeFd =
      some ⟨.writeEnd .startupError, true⟩ := by
  rw [find_duplicatesClosed, find_withStandard h.startupErrorWrite_ge]
  · exact find_readEndsClosed h h.startupErrorWrite (by simp)
  · exact ne_of_files h.startupErrorWrite h.devNull (by simp)
  · exact ne_of_files h.startupErrorWrite h.stdoutWrite (by simp)
  · exact ne_of_files h.startupErrorWrite h.stderrWrite (by simp)

/-- What `execve` keeps of the descriptors of the child are those of a job. -/
theorem keptOpen_eq_jobDescriptors (h : Ready fds table) :
    keptOpen (duplicatesClosed fds (withStandard (readEndsClosed fds table))) =
      jobDescriptors table := by
  funext fd
  by_cases hbehind : 3 ≤ fd
  · rw [jobDescriptors_of_ge hbehind]
    refine Option.ext fun d => ?_
    simp only [keptOpen, Option.filter_eq_some_iff]
    refine and_congr_left fun hkept => ⟨fun hd => ?_, fun hd => ?_⟩
    · have hstandard : withStandard (readEndsClosed fds table) fd = some d :=
        open_of_close (open_of_close (open_of_close hd))
      rw [find_withStandard hbehind] at hstandard
      exact open_of_close (open_of_close (open_of_close hstandard))
    · -- what is kept is none of the launch's own
      have hnot : ∀ {fd' file}, table fd' = some ⟨file, true⟩ → fd ≠ fd' := fun hfd' =>
        ne_of_files hd hfd' (by rintro rfl; cases hkept)
      rw [find_duplicatesClosed (hnot h.devNull) (hnot h.stdoutWrite) (hnot h.stderrWrite),
        find_withStandard hbehind]
      unfold readEndsClosed
      rw [Function.update_of_ne (hnot h.startupErrorRead), Function.update_of_ne (hnot h.stderrRead),
        Function.update_of_ne (hnot h.stdoutRead)]
      exact hd
  · have hlt := not_le.mp hbehind
    unfold keptOpen
    rw [find_duplicatesClosed (ne_standard h.devNull_ge hlt).symm
      (ne_standard h.stdoutWrite_ge hlt).symm (ne_standard h.stderrWrite_ge hlt).symm]
    rcases fd with _ | _ | _ | fd
    · rfl
    · rfl
    · rfl
    · exact absurd (Nat.le_add_left 3 fd) hbehind

/-! ## The whole run -/

/-- The calls of the child in their order. -/
def checks (C : Calls) (originalParentPid : Pid) : List (ChildStartupStage × Except Errno Unit) :=
  [(.setParentDeathSignal, C.prctl),
    (.parentDied, if C.getppid ≠ originalParentPid then .error .ECHILD else .ok ()),
    (.setProcessGroup, C.setpgid), (.duplicateStdin, C.dup2 0), (.duplicateStdout, C.dup2 1),
    (.duplicateStderr, C.dup2 2), (.execve, execveCall C)]

/-- The first call that fails, and why. -/
def failedCall (C : Calls) (originalParentPid : Pid) : Option (ChildStartupStage × Errno) :=
  firstFailure (checks C originalParentPid)

theorem startChild_spec (originalParentPid : Pid) (argv : List Bytes) (h : Ready fds table) :
    wp (startChild C originalParentPid fds argv) (EndsBy (checks C originalParentPid) fun r w =>
      r = .error (.image (cString (argv.headD [])) (argv.map cString)) ∧ w.log = [] ∧
        w.st = jobDescriptors table) ⟨table, []⟩ := by
  have herror := find_readEndsClosed h h.startupErrorWrite (by simp)
  have hnull := find_readEndsClosed h h.devNull (by simp)
  have hout := find_readEndsClosed h h.stdoutWrite (by simp)
  have herr := find_readEndsClosed h h.stderrWrite (by simp)
  have hge := h.startupErrorWrite_ge
  have hgeNull := h.devNull_ge
  have hgeOut := h.stdoutWrite_ge
  have hgeErr := h.stderrWrite_ge
  unfold startChild
  refine wp_bind_ok (update_run _ _) (wp_bind_ok (update_run _ _) (wp_bind_ok (update_run _ _) ?_))
  refine wp_orReport herror rfl (wp_orReport herror rfl (wp_orReport herror rfl ?_))
  refine wp_duplicateOrReport herror rfl (ne_standard hgeNull (by decide)) hnull ?_
  refine wp_duplicateOrReport ((find_replaced (by decide) hge).trans herror) rfl
    (ne_standard hgeOut (by decide)) ((find_replaced (by decide) hgeOut).trans hout) ?_
  refine wp_duplicateOrReport
    ((find_replaced (by decide) hge).trans ((find_replaced (by decide) hge).trans herror)) rfl
    (ne_standard hgeErr (by decide))
    ((find_replaced (by decide) hgeErr).trans ((find_replaced (by decide) hgeErr).trans herr)) ?_
  refine wp_bind_ok (update_run _ _) (wp_bind_ok (update_run _ _) (wp_bind_ok (update_run _ _) ?_))
  have hexecve := execve_spec (C := C)
    (w := ⟨duplicatesClosed fds (withStandard (readEndsClosed fds table)), []⟩)
    (cString (argv.headD [])) (argv.map cString) (find_startupError h) rfl
  rw [keptOpen_eq_jobDescriptors h] at hexecve
  exact hexecve

theorem cString_of_valid {spec : JobSpec} (hvalid : validateJobSpec spec = .ok ()) :
    spec.argv.map cString = spec.argv := by
  obtain ⟨-, hnul, -⟩ := (validateJobSpec_ok_iff spec).mp hvalid
  refine (List.map_congr_left fun argument hargument => ?_).trans (List.map_id _)
  refine List.takeWhile_eq_self_iff.mpr fun b hb => ?_
  have hne : b ≠ 0 := fun heq => hnul argument hargument (heq ▸ hb)
  simpa using hne

/-- The child of a valid job exits with code 127 and has written to the pipe of the report, and to
nothing else, the beginning of a record of the first call that failed. If none fails, it has written
nothing and becomes the job's program with the job's arguments, its standard input is `/dev/null`,
its other standard descriptors are the job's pipes, and of the daemon's other descriptors exactly those
are left open that were not close-on-exec: none, where all of them were. -/
theorem startChild_ends {spec : JobSpec} (originalParentPid : Pid) (h : Ready fds table)
    (hvalid : validateJobSpec spec = .ok ()) :
    wp (startChild C originalParentPid fds spec.argv) (fun r w =>
      (∀ stage errno, failedCall C originalParentPid = some (stage, errno) →
        r = .error (.exit 127) ∧ Reports (.writeEnd .startupError)
          (ChildStartupError.bytes ⟨stage, errno.number⟩) w.log) ∧
      (failedCall C originalParentPid = none → ∃ path args, spec.argv = path :: args ∧
        r = .error (.image path spec.argv) ∧ w.log = [] ∧ w.st = jobDescriptors table ∧
          ((∀ fd ≥ 3, keptOpen table fd = none) → ∀ fd ≥ 3, w.st fd = none))) ⟨table, []⟩ := by
  refine wp_mono (startChild_spec originalParentPid spec.argv h) fun r w hends =>
    ⟨fun stage errno hfailure => ?_, fun hnone => ?_⟩
  · unfold failedCall at hfailure
    unfold EndsBy at hends
    rwa [hfailure] at hends
  · unfold failedCall at hnone
    unfold EndsBy at hends
    rw [hnone, cString_of_valid hvalid] at hends
    obtain ⟨hr, hlog, htable⟩ := hends
    obtain ⟨⟨rest, args, hargv⟩, -⟩ := (validateJobSpec_ok_iff spec).mp hvalid
    have hpath := cString_of_valid hvalid
    rw [hargv, List.map_cons] at hpath
    refine ⟨_, args, hargv, ?_, hlog, htable, fun hnone fd hfd => ?_⟩
    · rw [hr, hargv, List.headD_cons, (List.cons.inj hpath).1]
    · rw [htable, jobDescriptors_of_ge hfd, hnone fd hfd]

/-- The descriptors of a daemon with a client, of a launch behind them, and one that the daemon was
started with. -/
def launchFiles : List Descriptor :=
  [⟨.other 0, false⟩, ⟨.other 1, false⟩, ⟨.other 2, false⟩, ⟨.other 3, true⟩, ⟨.other 4, true⟩,
    ⟨.other 5, true⟩, ⟨.other 6, true⟩, ⟨.other 7, true⟩, ⟨.devNull, true⟩,
    ⟨.readEnd .stdout, true⟩, ⟨.writeEnd .stdout, true⟩, ⟨.readEnd .stderr, true⟩,
    ⟨.writeEnd .stderr, true⟩, ⟨.readEnd .startupError, true⟩, ⟨.writeEnd .startupError, true⟩,
    ⟨.other 15, false⟩]

def launchFds : LaunchFds where
  devNullFd := 8
  stdoutPipe := ⟨9, 10⟩
  stderrPipe := ⟨11, 12⟩
  startupErrorPipe := ⟨13, 14⟩

theorem ready_launchFiles : Ready launchFds fun fd => launchFiles[fd]? where
  devNull := rfl
  stdoutRead := rfl
  stdoutWrite := rfl
  stderrRead := rfl
  stderrWrite := rfl
  startupErrorRead := rfl
  startupErrorWrite := rfl
  behind := by decide

/-- A child whose calls succeed but for `execve`, and whose report is written in two parts. -/
def missing : Calls where
  prctl := .ok ()
  getppid := Nat.succPNat 0
  setpgid := .ok ()
  dup2 _ := .ok ()
  execve := some (.other 2)
  write := .wrote 3 (.interrupted (.wrote 8 .again))

theorem startChild_ends_run :
    ∃ r w, startChild { missing with execve := none } missing.getppid launchFds [text "/a", text "b"]
        ⟨fun fd => launchFiles[fd]?, []⟩ = (r, w) ∧
      r = .error (.image (text "/a") [text "/a", text "b"]) ∧
      w.st = jobDescriptors fun fd => launchFiles[fd]? := by
  have hvalid : validateJobSpec { argv := [text "/a", text "b"] } = .ok () := by decide
  have hends := (startChild_ends (C := { missing with execve := none }) missing.getppid
    ready_launchFiles hvalid).2 (by decide)
  obtain ⟨path, args, hargv, hr, -, htable, -⟩ := hends
  obtain ⟨rfl, -⟩ := List.cons.inj hargv
  exact ⟨_, _, rfl, hr, htable⟩

/-! ## The record in the parent -/

theorem readNative32_native32 {v : ℕ} (h : v < 2 ^ 32) :
    ProcessMonitor.readNative32 (native32 v) = v := by
  have hbyte : ∀ n : ℕ, n.toUInt8.toNat = n % 256 := fun n => by
    rw [Nat.toUInt8_eq, UInt8.toNat_ofNat']
  simp only [native32, ProcessMonitor.readNative32, hbyte]
  omega

theorem bytes_length (error : ChildStartupError) :
    error.bytes.length = ProcessMonitor.childStartupErrorSize := rfl

theorem number_lt (stage : ChildStartupStage) : stage.number < 2 ^ 32 := by
  cases stage <;> decide

theorem number_nonneg (errno : Errno) : 0 ≤ errno.number := by
  cases errno with
  | other code => exact Int.natCast_nonneg code
  | _ => decide

variable {K : Kernel}

/-- The parent reads from a record what the child put in. -/
theorem startupErrorMessage_bytes (hnumber : errno.number < 2 ^ 31) :
    ProcessMonitor.startupErrorMessage K (ChildStartupError.bytes ⟨stage, errno.number⟩) =
      text "child startup failed at " ++ ProcessMonitor.startupStageName stage.number ++
        text ": " ++ K.strerror errno.number := by
  have hnonneg := number_nonneg errno
  have hraw : (errno.number % 2 ^ 32).toNat = errno.number.toNat := by
    rw [Int.emod_eq_of_lt hnonneg (hnumber.trans (by decide))]
  have hlt : errno.number.toNat < 2 ^ 31 := by omega
  have hstage : (ChildStartupError.bytes ⟨stage, errno.number⟩).take 4 =
      native32 stage.number := rfl
  have herrno : (ChildStartupError.bytes ⟨stage, errno.number⟩).drop 4 =
      native32 (errno.number % 2 ^ 32).toNat := rfl
  unfold ProcessMonitor.startupErrorMessage
  rw [hstage, herrno, hraw, readNative32_native32 (number_lt stage),
    readNative32_native32 (hlt.trans (by decide))]
  simp only [if_pos hlt, Int.toNat_of_nonneg hnonneg]

/-- What a job's record says of a program that was not started, by what came of the report. -/
inductive Explains (K : Kernel) (stage : ChildStartupStage) (errno : Errno) :
    Bytes → Bytes → Prop
  | reported {report : Bytes} (hfull : report.length = ProcessMonitor.childStartupErrorSize) :
    Explains K stage errno report (text "child startup failed at " ++
      ProcessMonitor.startupStageName stage.number ++ text ": " ++ K.strerror errno.number)
  | torn {report : Bytes} (hsome : report ≠ [])
    (htorn : report.length < ProcessMonitor.childStartupErrorSize) :
    Explains K stage errno report (text "malformed child startup error record")
  | silent : Explains K stage errno [] (text "process exited with code " ++ decimal 127)
  | killed (signal : ℕ) :
    Explains K stage errno [] (text "process terminated by signal " ++ decimal signal)

theorem explains_of_report {report : Bytes} {status : WaitStatus}
    (hreport : report <+: ChildStartupError.bytes ⟨stage, errno.number⟩)
    (hnumber : errno.number < 2 ^ 31)
    (hstatus : status = .exited 127 ∨ ∃ signal, status = .signaled signal) :
    ProcessMonitor.outcomeState report status none = .failed ∧
      Explains K stage errno report (ProcessMonitor.outcomeMessage K report status none) := by
  constructor
  · unfold ProcessMonitor.outcomeState
    refine if_neg ?_
    rintro ⟨-, rfl⟩
    rcases hstatus with hstatus | ⟨signal, hstatus⟩
    · exact absurd hstatus (by decide)
    · cases hstatus
  · unfold ProcessMonitor.outcomeMessage
    by_cases hnil : report = []
    · subst hnil
      rcases hstatus with rfl | ⟨signal, rfl⟩
      · exact .silent
      · exact .killed signal
    · simp only [if_neg hnil]
      split_ifs with hfull
      · obtain rfl := hreport.eq_of_length (hfull.trans (bytes_length _).symm)
        rw [startupErrorMessage_bytes hnumber]
        exact .reported hfull
      · exact .torn hnil (lt_of_le_of_ne hreport.length_le hfull)

end Child

/-! ## The daemon -/

namespace Daemon

open Child
open ProcessMonitor (outcome outcomeState outcomeMessage record OnlyExits recorded_of_status)

variable {K : Kernel} {s : Setup} {w : World Daemon} {j : JobId} {job : Job} {C : Calls}
  {fds : LaunchFds} {table : Descriptors} {originalParentPid : Pid}

/-- What the daemon has heard of the child of a job: some of what was written to the pipe of the
report, and how the child exited. -/
structure Heard (child : Except ChildEnding Unit × ChildWorld) (log : List Event) (j : JobId) :
    Prop where
  report : (ledger log).stream j .startupError <+:
    writtenTo (.writeEnd .startupError) child.2.log
  code : ∀ code code', child.1 = .error (.exit code) →
    (ledger log).status j = some (.exited code') → code' = code

/-- A started job that nobody asked to terminate is settled as its child was started. If a call of
the child failed, the job is FAILED and its message names the call and the error, as far as the
report has come. If none failed, the job is settled as its program ends, and never as one that was
not started. -/
theorem startup_settled (h : During K s w) (hfresh : FreshFds w.log) (hexits : OnlyExits w.log)
    (hready : Ready fds table) (hjob : w.st.monitor.jobs.find j = some job)
    (hterm : isTerminal job.state) (hentered : .entered j .running ∈ w.log)
    (hcause : job.terminationCause = none)
    (hheard : Heard (startChild C originalParentPid fds job.spec.argv ⟨table, []⟩) w.log j) :
    (∀ stage errno, failedCall C originalParentPid = some (stage, errno) →
      errno.number < 2 ^ 31 → job.state = .failed ∧
        Explains K stage errno ((ledger w.log).stream j .startupError) job.failureMessage) ∧
    (failedCall C originalParentPid = none → ∃ status, (ledger w.log).status j = some status ∧
      record job = outcome K ((ledger w.log).stream j .stdout) ((ledger w.log).stream j .stderr) []
        status none) := by
  obtain ⟨due, hsound⟩ := h.sound
  obtain ⟨status, hknown, -, hrecord⟩ :=
    ((h.separate hfresh).kept.jobs j).settled hjob hterm hentered
  have hclean := h.clean hfresh hexits j
  have hrecord := hrecord hclean
  have hcause' : (ledger w.log).cause j = none := by
    have hrec := hsound.recorded.cause j
    rw [show (monitorWorld w).st.jobs.find j = some job from hjob] at hrec
    exact hrec.trans hcause
  rw [show (ledger (monitorWorld w).log).cause j = none from hcause'] at hrecord
  have hends := startChild_spec (C := C) originalParentPid job.spec.argv hready
  unfold wp EndsBy at hends
  refine ⟨fun stage errno hfailure hnumber => ?_, fun hnone => ?_⟩
  · unfold failedCall at hfailure
    rw [hfailure] at hends
    obtain ⟨hexit, -, hwritten⟩ := hends
    have hstatus : status = .exited 127 ∨ ∃ signal, status = .signaled signal := by
      cases status with
      | exited code => exact Or.inl (congrArg _ (hheard.code 127 code hexit hknown))
      | signaled signal => exact Or.inr ⟨signal, rfl⟩
      | other => exact absurd rfl (hclean _ (recorded_of_status hknown))
    obtain ⟨hstate, hexplains⟩ := explains_of_report (K := K) (hheard.report.trans hwritten) hnumber
      hstatus
    have hstate' : job.state = _ := congrArg ProcessMonitor.Outcome.state hrecord
    have hmessage : job.failureMessage = _ := congrArg ProcessMonitor.Outcome.failureMessage hrecord
    exact ⟨hstate'.trans hstate, hmessage ▸ hexplains⟩
  · unfold failedCall at hnone
    rw [hnone] at hends
    obtain ⟨-, hlog, -⟩ := hends
    have hreport := hheard.report
    rw [hlog] at hreport
    have hsilent : (ledger (monitorWorld w).log).stream j .startupError = [] :=
      List.prefix_nil.mp hreport
    rw [hsilent] at hrecord
    exact ⟨status, hknown, hrecord⟩

/-- A machine on which the program of the job is missing. -/
def missingScript : Kernel :=
  { Kernel.quiet with
    strerror := fun n => if n = 2 then text "No such file or directory" else []
    fork := fun _ => .ok (Nat.succPNat 99)
    waitAny := fun _ => .child (Nat.succPNat 99) (.exited 127) .none
    read := fun _ fd => if fd = 13 then
        .data (ChildStartupError.bytes ⟨.execve, 2⟩) .eof
      else .eof }.withClient
    [[(3, { epollin := true })], [(7, { epollin := true })], [(5, { epollin := true }),
      (9, { epollhup := true }), (11, { epollhup := true }), (13, { epollhup := true })]]
    [[], submitPayload 0 [text "/a"]]

theorem startup_settled_run : ∃ job, (after missingScript oneSlot 3).st.monitor.jobs.find 1 =
      some job ∧ job.state = .failed ∧
    Explains missingScript .execve (.other 2) (ChildStartupError.bytes ⟨.execve, 2⟩)
      job.failureMessage := by
  have hran : Ran missingScript oneSlot (after missingScript oneSlot 3) :=
    ran_after (m := 2) (by decide +kernel)
  obtain ⟨hfresh, hexits, hjob, hentered, hstream, hstatus⟩ :
      FreshFds (after missingScript oneSlot 3).log ∧ OnlyExits (after missingScript oneSlot 3).log ∧
        ((after missingScript oneSlot 3).st.monitor.jobs.find 1).map (fun job =>
          (isTerminal job.state, job.terminationCause, job.spec.argv)) =
            some (true, none, [text "/a"]) ∧
        .entered 1 .running ∈ (after missingScript oneSlot 3).log ∧
        (ledger (after missingScript oneSlot 3).log).stream 1 .startupError =
          ChildStartupError.bytes ⟨.execve, 2⟩ ∧
        (ledger (after missingScript oneSlot 3).log).status 1 = some (.exited 127) := by
    decide +kernel
  obtain ⟨job, hfind, heq⟩ := Option.map_eq_some_iff.mp hjob
  obtain ⟨hterm, heq⟩ := Prod.mk.inj heq
  obtain ⟨hcause, hargv⟩ := Prod.mk.inj heq
  have hchild : writtenTo (.writeEnd .startupError) (startChild missing missing.getppid launchFds
      [text "/a"] ⟨fun fd => launchFiles[fd]?, []⟩).2.log =
        ChildStartupError.bytes ⟨.execve, 2⟩ := by decide +kernel
  have hexit : (startChild missing missing.getppid launchFds [text "/a"]
      ⟨fun fd => launchFiles[fd]?, []⟩).1 = .error (.exit 127) := by rfl
  have hheard : Heard (startChild missing missing.getppid launchFds job.spec.argv
      ⟨fun fd => launchFiles[fd]?, []⟩) (after missingScript oneSlot 3).log 1 := by
    rw [hargv]
    refine ⟨?_, fun code code' hcode hcode' => ?_⟩
    · rw [hstream, hchild]
    · cases hexit.symm.trans hcode
      cases hstatus.symm.trans hcode'
      rfl
  have hsettled := (startup_settled hran.during hfresh hexits ready_launchFiles hfind hterm hentered
    hcause hheard).1 .execve (.other 2) rfl (by decide)
  rw [hstream] at hsettled
  exact ⟨job, hfind, hsettled⟩

end Daemon

end Runnerd
