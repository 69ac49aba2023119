import Mathlib.Logic.Function.Basic
import Runnerd.Library.Steps
import Runnerd.UnixSocket

/-!
# Several daemons on one path

Any number of processes run `main` with the same path, one system call at a time and in any order.
The path names a file or a socket; a socket belongs to the process that opened it, and refuses
connections unless it listens.

The path has one owner at a time unless a socket is bound while another process is about to unlink
the path, or probed before it listens.
-/

namespace Runnerd

namespace UnixSocket

open Steps

variable {ι : Type}

/-! ## Files and processes -/

inductive Phase where
  | fresh
  | bound
  | listening
  | closed
  deriving DecidableEq

/-- A socket with a path. -/
def Phase.isBound : Phase → Bool
  | .bound | .listening => true
  | .fresh | .closed => false

structure Socket (ι : Type) where
  process : ι
  phase : Phase
  deriving DecidableEq

/-- What a path names. -/
inductive Entry where
  | file
  | socket (fd : Fd) (uid : ℕ)
  deriving DecidableEq

/-- The file at the path, and the sockets of all processes, numbered through. -/
structure Files (ι : Type) where
  entry : Option Entry := none
  sockets : Fd → Option (Socket ι)
  nextFd : Fd

section Calls

variable [DecidableEq ι]

namespace Files

def setPhase (f : Files ι) (p : ι) (fd : Fd) (phase : Phase) : Files ι :=
  { f with sockets := Function.update f.sockets fd (some ⟨p, phase⟩) }

/-- What a call of `p` that does not fail by itself is answered, and what it leaves. -/
def answer (uid : ι → ℕ) (p : ι) (f : Files ι) : (c : Call) → c.Answer × Files ι
  | .lstat =>
    match f.entry with
    | none => (.error ENOENT, f)
    | some .file => (.ok ⟨false, 0⟩, f)
    | some (.socket _ u) => (.ok ⟨true, u⟩, f)
  | .socket => (.ok f.nextFd, { f.setPhase p f.nextFd .fresh with nextFd := f.nextFd + 1 })
  | .connect _ =>
    match f.entry with
    | none => (.error ENOENT, f)
    | some .file => (.error ECONNREFUSED, f)
    | some (.socket fd _) =>
      if (f.sockets fd).map Socket.phase = some .listening then (.ok (), f)
      else (.error ECONNREFUSED, f)
  | .unlink =>
    match f.entry with
    | none => (.error ENOENT, f)
    | some _ => (.ok (), { f with entry := none })
  | .bind fd =>
    if f.entry ≠ none then (.error EADDRINUSE, f)
    else if f.sockets fd = some ⟨p, .fresh⟩ then
      (.ok (), { f.setPhase p fd .bound with entry := some (.socket fd (uid p)) })
    else (.error EINVAL, f)
  | .chmod => (if f.entry = none then .error ENOENT else .ok (), f)
  | .listen fd =>
    if f.sockets fd = some ⟨p, .bound⟩ then (.ok (), f.setPhase p fd .listening)
    else (.error EINVAL, f)
  | .close fd =>
    ((), if (f.sockets fd).map Socket.process = some p then f.setPhase p fd .closed else f)
  | .serve => ((), f)

/-- The sockets of a process that has ended are closed. -/
def release (p : ι) (f : Files ι) : Files ι :=
  { f with sockets := fun fd => (f.sockets fd).map fun s =>
      if s.process = p then { s with phase := .closed } else s }

end Files

/-- The errors that a call may fail with whatever the path names. -/
def Call.MayFail : Call → Errno → Prop
  | .lstat, e | .unlink, e => e ≠ ENOENT
  | .connect _, e => e ≠ ENOENT ∧ e ≠ ECONNREFUSED
  | .socket, _ | .bind _, _ | .chmod, _ | .listen _, _ => True
  | .close _, _ | .serve, _ => False

def Call.failure : (c : Call) → Errno → c.Answer
  | .lstat, e | .socket, e | .connect _, e | .unlink, e | .bind _, e | .chmod, e | .listen _, e =>
    Except.error e
  | .close _, _ | .serve, _ => ()

/-- The files, and what each process that still runs has to do. -/
structure System (ι : Type) where
  files : Files ι
  running : ι → Option (Program Unit)

def System.resume (σ : System ι) (p : ι) (program : Program Unit) (f : Files ι) : System ι :=
  ⟨f, Function.update σ.running p (some program)⟩

/-- A step of process `p`: a system call, or its end, which may come at any time. -/
inductive Step (uid : ι → ℕ) : ι → System ι → System ι → Prop where
  | answered {σ : System ι} {p : ι} {c : Call} {next : c.Answer → Program Unit}
      (hp : σ.running p = some (.call c next)) :
      Step uid p σ (σ.resume p (next (σ.files.answer uid p c).1) (σ.files.answer uid p c).2)
  | failed {σ : System ι} {p : ι} {c : Call} {next : c.Answer → Program Unit} {e : Errno}
      (hp : σ.running p = some (.call c next)) (he : c.MayFail e) :
      Step uid p σ (σ.resume p (next (c.failure e)) σ.files)
  | ended {σ : System ι} {p : ι} {program : Program Unit} (hp : σ.running p = some program) :
      Step uid p σ ⟨σ.files.release p, Function.update σ.running p none⟩

end Calls

/-- No socket has a path but those of processes that have ended, and all daemons are about to start. -/
structure Starts (strerror : ℤ → Bytes) (uid : ι → ℕ) (socketPath : Bytes) (σ : System ι) : Prop where
  running : ∀ p, σ.running p = some (main strerror (uid p) socketPath)
  closed : ∀ fd s, σ.files.sockets fd = some s → s.phase = .closed
  numbered : ∀ fd, σ.files.nextFd ≤ fd → σ.files.sockets fd = none
  entry : ∀ fd u, σ.files.entry = some (.socket fd u) → fd < σ.files.nextFd

/-! ## Ownership of the path -/

/-- The path names a socket that `q` has bound and not closed. -/
def System.Owns (σ : System ι) (q : ι) : Prop :=
  ∃ fd u phase, σ.files.entry = some (.socket fd u) ∧ σ.files.sockets fd = some ⟨q, phase⟩ ∧
    phase.isBound

/-- `createUnixListener` has returned to `p`, which still runs its loop. -/
def System.Serving (σ : System ι) (p : ι) : Prop :=
  ∃ next, σ.running p = some (.call .serve next)

/-- What a process has to do next is to unlink the path, after closing sockets. -/
def unlinks : Program Unit → Bool
  | .call .unlink _ => true
  | .call (.close _) next => unlinks (next ())
  | _ => false

/-- No socket is bound while another process is about to unlink the path, and no socket is probed
between `bind` and `listen`. -/
def System.Careful (σ : System ι) (p : ι) : Prop :=
  match σ.running p with
  | some (.call (.bind _) _) => σ.files.entry = none → ∀ q, q ≠ p → ∀ program,
      σ.running q = some program → unlinks program = false
  | some (.call (.connect _) _) => ∀ fd u, σ.files.entry = some (.socket fd u) →
      (σ.files.sockets fd).map Socket.phase ≠ some .bound
  | _ => True

/-- A run of careful steps. -/
def CarefulRun [DecidableEq ι] (uid : ι → ℕ) : System ι → System ι → Prop :=
  Walk (fun p σ σ' => Step uid p σ σ' ∧ σ.Careful p) Set.univ

/-- What a process knows about the path. -/
inductive Role where
  /-- It has no socket with a path. -/
  | idle
  | bound (fd : Fd)
  | listening (fd : Fd)
  /-- It is about to close its socket and to unlink the path. -/
  | leaving (fd : Fd)
  /-- It is about to unlink a path that names its closed socket, or has refused its probe. -/
  | clearing

/-- A call that a process makes in its role, and the role that the answer gives it. -/
inductive Next : Role → (c : Call) → c.Answer → Role → Prop where
  | lstat (a : Except Errno FileStat) : Next .idle .lstat a .idle
  | socket (a : Except Errno Fd) : Next .idle .socket a .idle
  | connected (fd : Fd) : Next .idle (.connect fd) (Except.ok ()) .idle
  | refused (fd : Fd) {e : Errno} (he : e = ECONNREFUSED ∨ e = ENOENT) :
      Next .idle (.connect fd) (Except.error e) .clearing
  | unprobed (fd : Fd) {e : Errno} (he : ¬ (e = ECONNREFUSED ∨ e = ENOENT)) :
      Next .idle (.connect fd) (Except.error e) .idle
  | closeIdle (fd : Fd) : Next .idle (.close fd) () .idle
  | closeClearing (fd : Fd) : Next .clearing (.close fd) () .clearing
  | unlink (a : Except Errno Unit) : Next .clearing .unlink a .idle
  | bind (fd : Fd) : Next .idle (.bind fd) (Except.ok ()) (.bound fd)
  | unbound (fd : Fd) (e : Errno) : Next .idle (.bind fd) (Except.error e) .idle
  | chmod (fd : Fd) : Next (.bound fd) .chmod (Except.ok ()) (.bound fd)
  | unchanged (fd : Fd) (e : Errno) : Next (.bound fd) .chmod (Except.error e) (.leaving fd)
  | listen (fd : Fd) : Next (.bound fd) (.listen fd) (Except.ok ()) (.listening fd)
  | deaf (fd : Fd) (e : Errno) : Next (.bound fd) (.listen fd) (Except.error e) (.leaving fd)
  | serve (fd : Fd) : Next (.listening fd) .serve () (.leaving fd)
  | closeLeaving (fd : Fd) : Next (.leaving fd) (.close fd) () .clearing

/-- A program keeps to its role, whatever it is answered, and ends in a role that fits its result. -/
def Follows {α : Type} (Q : α → Role → Prop) (E : Role → Prop) : Program α → Role → Prop
  | .done a, role => Q a role
  | .throw _, role => E role
  | .call c next, role => ∀ a, ∃ role', Next role c a role' ∧ Follows Q E (next a) role'

section Follows

variable {α β : Type} {Q : α → Role → Prop} {E : Role → Prop} {role : Role}

theorem Follows.bind {Q' : β → Role → Prop} {m : Program α} {f : α → Program β}
    (h : Follows Q E m role) (hf : ∀ a role', Q a role' → Follows Q' E (f a) role') :
    Follows Q' E (m >>= f) role := by
  induction m generalizing role with
  | done a => exact hf a role h
  | throw e => exact h
  | call c next ih =>
    intro a
    obtain ⟨role', hnext, hrest⟩ := h a
    exact ⟨role', hnext, ih a hrest⟩

theorem Follows.tryCatch {E' : Role → Prop} {m : Program α} {handler : Bytes → Program α}
    (h : Follows Q E' m role) (hhandler : ∀ e role', E' role' → Follows Q E (handler e) role') :
    Follows Q E (tryCatch m handler) role := by
  induction m generalizing role with
  | done a => exact h
  | throw e => exact hhandler e role h
  | call c next ih =>
    intro a
    obtain ⟨role', hnext, hrest⟩ := h a
    exact ⟨role', hnext, ih a hrest⟩

end Follows

section Programs

variable {E : Role → Prop} {role : Role} {α : Type} {Q : α → Role → Prop}

/-- A program that begins with a call. -/
theorem follows_call {c : Call} {f : c.Answer → Program α}
    (h : ∀ a, ∃ role', Next role c a role' ∧ Follows Q E (f a) role') :
    Follows Q E ((.call c .done : Program c.Answer) >>= f) role := h

variable (strerror : ℤ → Bytes) (euid : ℕ) (socketPath : Bytes)

/-- A process without a socket. -/
def Idle (role : Role) : Prop := role = .idle

theorem makeUnixAddress_follows :
    Follows (fun _ => Idle) Idle (makeUnixAddress socketPath) .idle := by
  unfold makeUnixAddress
  split_ifs <;> exact rfl

theorem removeStaleSocketIfNeeded_follows : Follows (fun _ => Idle) Idle
    (removeStaleSocketIfNeeded strerror euid socketPath) .idle := by
  unfold removeStaleSocketIfNeeded
  refine follows_call fun stat => ⟨_, .lstat stat, ?_⟩
  cases stat with
  | error e =>
    dsimp only
    split_ifs <;> exact rfl
  | ok fileStat =>
    dsimp only
    split_ifs
    · exact rfl
    · exact rfl
    refine follows_call fun probe => ⟨_, .socket probe, ?_⟩
    cases probe with
    | error e => exact rfl
    | ok probeFd =>
      refine (makeUnixAddress_follows socketPath).bind fun _ role' hidle => ?_
      obtain rfl := hidle
      refine follows_call fun connected => ?_
      cases connected with
      | ok _ =>
        refine ⟨_, .connected probeFd, ?_⟩
        exact follows_call fun _ => ⟨_, .closeIdle probeFd, rfl⟩
      | error e =>
        by_cases he : e = ECONNREFUSED ∨ e = ENOENT
        · refine ⟨_, .refused probeFd he, ?_⟩
          refine follows_call fun _ => ⟨_, .closeClearing probeFd, ?_⟩
          rw [if_pos he]
          refine follows_call fun unlinked => ⟨_, .unlink unlinked, ?_⟩
          cases unlinked with
          | ok _ => exact rfl
          | error e =>
            dsimp only
            split_ifs <;> exact rfl
        · refine ⟨_, .unprobed probeFd he, ?_⟩
          refine follows_call fun _ => ⟨_, .closeIdle probeFd, ?_⟩
          rw [if_neg he]
          exact rfl

theorem createUnixListener_follows : Follows (fun fd role => role = .listening fd) Idle
    (createUnixListener strerror euid socketPath) .idle := by
  unfold createUnixListener
  refine (removeStaleSocketIfNeeded_follows strerror euid socketPath).bind fun _ role' hidle => ?_
  obtain rfl := hidle
  refine (makeUnixAddress_follows socketPath).bind fun _ role' hidle => ?_
  obtain rfl := hidle
  refine follows_call fun opened => ⟨_, .socket opened, ?_⟩
  cases opened with
  | error e => exact rfl
  | ok listenFd =>
    refine follows_call fun bound => ?_
    cases bound with
    | error e =>
      refine ⟨_, .unbound listenFd e, ?_⟩
      exact follows_call fun _ => ⟨_, .closeIdle listenFd, rfl⟩
    | ok _ =>
      refine ⟨_, .bind listenFd, follows_call fun changed => ?_⟩
      cases changed with
      | error e =>
        refine ⟨_, .unchanged listenFd e, ?_⟩
        refine follows_call fun _ => ⟨_, .closeLeaving listenFd, ?_⟩
        exact follows_call fun unlinked => ⟨_, .unlink unlinked, rfl⟩
      | ok _ =>
        refine ⟨_, .chmod listenFd, follows_call fun heard => ?_⟩
        cases heard with
        | error e =>
          refine ⟨_, .deaf listenFd e, ?_⟩
          refine follows_call fun _ => ⟨_, .closeLeaving listenFd, ?_⟩
          exact follows_call fun unlinked => ⟨_, .unlink unlinked, rfl⟩
        | ok _ => exact ⟨_, .listen listenFd, rfl⟩

/-- What `main` knows after `createUnixListener`. -/
def Created : Option Fd → Role → Prop
  | none, role => Idle role
  | some fd, role => role = .listening fd

theorem main_follows : Follows (fun _ => Idle) Idle (main strerror euid socketPath) .idle := by
  have hcreate : Follows Created Idle (some <$> createUnixListener strerror euid socketPath)
      .idle := (createUnixListener_follows strerror euid socketPath).bind fun _ _ h => h
  have hcaught : Follows Created Idle (tryCatch (some <$> createUnixListener strerror euid socketPath)
      fun _ => return none) .idle := hcreate.tryCatch fun _ _ hidle => hidle
  refine hcaught.bind fun created role' hcreated => ?_
  cases created with
  | none => exact hcreated
  | some listenFd =>
    obtain rfl := hcreated
    refine follows_call fun _ => ⟨_, .serve listenFd, ?_⟩
    refine follows_call fun _ => ⟨_, .closeLeaving listenFd, ?_⟩
    exact follows_call fun unlinked => ⟨_, .unlink unlinked, rfl⟩

end Programs

/-- What a process is about to unlink in its role. -/
theorem unlinks_of_clearing {program : Program Unit}
    (h : Follows (fun _ => Idle) Idle program .clearing) : unlinks program = true := by
  induction program with
  | done a => cases h
  | throw e => cases h
  | call c next ih =>
    obtain ⟨role', hnext, hrest⟩ := h (c.failure ENOENT)
    cases c with
    | unlink => rfl
    | close fd =>
      cases hnext
      exact ih () hrest
    | _ => cases hnext

theorem unlinks_of_leaving {program : Program Unit} {fd : Fd}
    (h : Follows (fun _ => Idle) Idle program (.leaving fd)) : unlinks program = true := by
  cases program with
  | done a => cases h
  | throw e => cases h
  | call c next =>
    obtain ⟨role', hnext, hrest⟩ := h (c.failure ENOENT)
    cases c with
    | close fd' =>
      cases hnext
      show unlinks (next ()) = true
      exact unlinks_of_clearing hrest
    | _ => cases hnext

/-! ## The invariant -/

/-- Descriptors that are still to be returned are no socket's and no path's. -/
structure Files.Numbered (f : Files ι) : Prop where
  fresh : ∀ fd, f.nextFd ≤ fd → f.sockets fd = none
  entry : ∀ fd u, f.entry = some (.socket fd u) → fd < f.nextFd

/-- Each process plays a role, and the path is that of the socket that is bound, if there is one. -/
structure Coherent (σ : System ι) (role : ι → Role) : Prop where
  numbered : σ.files.Numbered
  follows : ∀ p program, σ.running p = some program →
    Follows (fun _ => Idle) Idle program (role p)
  ended : ∀ p, σ.running p = none → role p = .idle
  bound : ∀ p fd, role p = .bound fd → (∃ u, σ.files.entry = some (.socket fd u)) ∧
    σ.files.sockets fd = some ⟨p, .bound⟩
  listening : ∀ p fd, role p = .listening fd → (∃ u, σ.files.entry = some (.socket fd u)) ∧
    σ.files.sockets fd = some ⟨p, .listening⟩
  alone : ∀ p, (role p = .clearing ∨ ∃ fd, role p = .leaving fd) → ∀ q, q ≠ p → ¬ σ.Owns q
  held : ∀ fd p phase, σ.files.sockets fd = some ⟨p, phase⟩ → phase.isBound →
    role p = .bound fd ∨ role p = .listening fd ∨ role p = .leaving fd

section Preservation

variable {uid : ι → ℕ} {σ σ' : System ι} {role : ι → Role} {p q : ι} {program : Program Unit}
  {r : Role} {f : Files ι}

/-- A path has one owner at most. -/
theorem System.Owns.unique (h : σ.Owns p) (h' : σ.Owns q) : p = q := by
  obtain ⟨fd, u, phase, hentry, hsocket, -⟩ := h
  obtain ⟨fd', u', phase', hentry', hsocket', -⟩ := h'
  obtain ⟨rfl, -⟩ := Entry.socket.inj (Option.some.inj (hentry.symm.trans hentry'))
  exact (Socket.mk.inj (Option.some.inj (hsocket.symm.trans hsocket'))).1

theorem Coherent.owns (h : Coherent σ role) {fd : Fd}
    (hr : role p = .bound fd ∨ role p = .listening fd) : σ.Owns p := by
  obtain hr | hr := hr
  · obtain ⟨⟨u, hentry⟩, hsocket⟩ := h.bound p fd hr
    exact ⟨fd, u, _, hentry, hsocket, rfl⟩
  · obtain ⟨⟨u, hentry⟩, hsocket⟩ := h.listening p fd hr
    exact ⟨fd, u, _, hentry, hsocket, rfl⟩

/-- The path is still the same, and so are the bound sockets of all processes but `p`, which binds no
other socket. -/
structure Unmoved (p : ι) (f f' : Files ι) : Prop where
  numbered : f.Numbered → f'.Numbered
  entry : f'.entry = f.entry
  sockets : ∀ fd q phase, q ≠ p → phase.isBound →
    (f'.sockets fd = some ⟨q, phase⟩ ↔ f.sockets fd = some ⟨q, phase⟩)
  own : ∀ fd phase, phase.isBound → f'.sockets fd = some ⟨p, phase⟩ →
    ∃ before, before.isBound ∧ f.sockets fd = some ⟨p, before⟩

theorem Unmoved.refl (p : ι) (f : Files ι) : Unmoved p f f :=
  ⟨id, rfl, fun _ _ _ _ _ => Iff.rfl, fun _ phase hphase hsocket => ⟨phase, hphase, hsocket⟩⟩

theorem Unmoved.owns {running : ι → Option (Program Unit)} (h : Unmoved p σ.files f)
    (hq : System.Owns ⟨f, running⟩ q) : σ.Owns q := by
  obtain ⟨fd, u, phase, hentry, hsocket, hbound⟩ := hq
  have hentry : σ.files.entry = some (.socket fd u) := h.entry.symm.trans hentry
  by_cases hqp : q = p
  · subst hqp
    obtain ⟨before, hbefore, hsocket⟩ := h.own fd phase hbound hsocket
    exact ⟨fd, u, before, hentry, hsocket, hbefore⟩
  · exact ⟨fd, u, phase, hentry, (h.sockets fd q phase hqp hbound).mp hsocket, hbound⟩

/-- A socket of `p` enters another phase. -/
theorem unmoved_setPhase {fd : Fd} {before phase : Phase}
    (hsocket : f.sockets fd = some ⟨p, before⟩) (hphase : phase.isBound → before.isBound) :
    Unmoved p f (f.setPhase p fd phase) where
  numbered h := by
    refine ⟨fun fd' hfd' => ?_, h.entry⟩
    have hne : fd' ≠ fd := fun heq => by
      rw [← heq, h.fresh fd' hfd'] at hsocket
      cases hsocket
    exact (Function.update_of_ne hne _ _).trans (h.fresh fd' hfd')
  entry := rfl
  sockets fd' q phase' hq _ := by
    by_cases hfd : fd' = fd
    · subst hfd
      have hafter : (f.setPhase p fd' phase).sockets fd' = some ⟨p, phase⟩ :=
        Function.update_self _ _ _
      rw [hafter, hsocket]
      refine iff_of_false (fun heq => ?_) fun heq => ?_ <;>
        exact hq (Socket.mk.inj (Option.some.inj heq)).1.symm
    · rw [show (f.setPhase p fd phase).sockets fd' = f.sockets fd' from
        Function.update_of_ne hfd _ _]
  own fd' phase' hphase' hafter := by
    by_cases hfd : fd' = fd
    · subst hfd
      have heq : some ⟨p, phase⟩ = some (Socket.mk p phase') :=
        (Function.update_self fd' _ f.sockets).symm.trans hafter
      obtain ⟨-, rfl⟩ := Socket.mk.inj (Option.some.inj heq)
      exact ⟨before, hphase hphase', hsocket⟩
    · exact ⟨phase', hphase', (Function.update_of_ne hfd _ f.sockets).symm.trans hafter⟩

theorem unmoved_socket (h : f.Numbered) :
    Unmoved p f { f.setPhase p f.nextFd .fresh with nextFd := f.nextFd + 1 } where
  numbered _ := by
    refine ⟨fun fd hfd => ?_, fun fd u hentry => Nat.lt_succ_of_lt (h.entry fd u hentry)⟩
    have hne : fd ≠ f.nextFd := Nat.ne_of_gt hfd
    exact (Function.update_of_ne hne _ _).trans (h.fresh fd (Nat.le_of_succ_le hfd))
  entry := rfl
  sockets fd q phase hq hphase := by
    by_cases hfd : fd = f.nextFd
    · subst hfd
      rw [show (f.setPhase p f.nextFd .fresh).sockets f.nextFd = some ⟨p, .fresh⟩ from
        Function.update_self _ _ _, h.fresh _ (Nat.le_refl _)]
      refine iff_of_false (fun heq => ?_) nofun
      exact hq (Socket.mk.inj (Option.some.inj heq)).1.symm
    · rw [show (f.setPhase p f.nextFd .fresh).sockets fd = f.sockets fd from
        Function.update_of_ne hfd _ _]
  own fd phase hphase hafter := by
    by_cases hfd : fd = f.nextFd
    · subst hfd
      have heq : some ⟨p, .fresh⟩ = some (Socket.mk p phase) :=
        (Function.update_self f.nextFd _ f.sockets).symm.trans hafter
      obtain ⟨-, rfl⟩ := Socket.mk.inj (Option.some.inj heq)
      cases hphase
    · exact ⟨phase, hphase, (Function.update_of_ne hfd _ f.sockets).symm.trans hafter⟩

/-- What the files are to a process in its role. -/
structure Fits (p : ι) (f : Files ι) (r : Role) : Prop where
  bound : ∀ fd, r = .bound fd → (∃ u, f.entry = some (.socket fd u)) ∧
    f.sockets fd = some ⟨p, .bound⟩
  listening : ∀ fd, r = .listening fd → (∃ u, f.entry = some (.socket fd u)) ∧
    f.sockets fd = some ⟨p, .listening⟩
  held : ∀ fd phase, f.sockets fd = some ⟨p, phase⟩ → phase.isBound →
    r = .bound fd ∨ r = .listening fd ∨ r = .leaving fd

theorem Coherent.fits (h : Coherent σ role) (p : ι) : Fits p σ.files (role p) :=
  ⟨h.bound p, h.listening p, fun fd => h.held fd p⟩

/-- A role without a socket that has a path. -/
def Role.IsBare (r : Role) : Prop := r = .idle ∨ r = .clearing

/-- A process stays without a socket that has a path. -/
theorem Coherent.fits_bare (h : Coherent σ role) (hf : Unmoved p σ.files f)
    (hp : (role p).IsBare) (hr : r.IsBare) : Fits p f r where
  bound fd hfd := by
    subst hfd
    obtain hr | hr := hr <;> cases hr
  listening fd hfd := by
    subst hfd
    obtain hr | hr := hr <;> cases hr
  held fd phase hsocket hphase := by
    obtain ⟨before, hbefore, hsocket⟩ := hf.own fd phase hphase hsocket
    have hheld := h.held fd p before hsocket hbefore
    obtain hp | hp := hp <;> rw [hp] at hheld <;> simp at hheld

theorem fits_listening (h : Coherent σ role) {fd : Fd} (hrole : role p = .bound fd) :
    Fits p (σ.files.setPhase p fd .listening) (.listening fd) where
  bound := nofun
  listening fd' hfd' := by
    obtain rfl := Role.listening.inj hfd'
    exact ⟨(h.bound p fd hrole).1, Function.update_self _ _ _⟩
  held fd' phase hsocket hphase := by
    by_cases hfd : fd' = fd
    · exact Or.inr (Or.inl (congrArg Role.listening hfd.symm))
    · have hsocket : σ.files.sockets fd' = some ⟨p, phase⟩ :=
        (Function.update_of_ne hfd _ σ.files.sockets).symm.trans hsocket
      have hheld := h.held fd' p phase hsocket hphase
      rw [hrole] at hheld
      simp [Ne.symm hfd] at hheld

theorem coherent_of_starts {strerror : ℤ → Bytes} {socketPath : Bytes}
    (h : Starts strerror uid socketPath σ) : Coherent σ fun _ => .idle where
  numbered := ⟨h.numbered, h.entry⟩
  follows p program hp := by
    obtain rfl := Option.some.inj ((h.running p).symm.trans hp)
    exact main_follows strerror (uid p) socketPath
  ended _ _ := rfl
  bound := nofun
  listening := nofun
  alone _ hp := by obtain hp | ⟨fd, hp⟩ := hp <;> cases hp
  held fd p phase hsocket hphase := by
    have hclosed : phase = .closed := h.closed fd _ hsocket
    rw [hclosed] at hphase
    cases hphase

variable [DecidableEq ι] {program? : Option (Program Unit)}

/-- What a process has to do in its new role. -/
structure Assigned (program? : Option (Program Unit)) (r : Role) : Prop where
  follows : ∀ program, program? = some program → Follows (fun _ => Idle) Idle program r
  ended : program? = none → r = .idle

theorem Coherent.follows_update (h : Coherent σ role) (hassigned : Assigned program? r) (q : ι)
    (program : Program Unit) (hq : Function.update σ.running p program? q = some program) :
    Follows (fun _ => Idle) Idle program (Function.update role p r q) := by
  by_cases hqp : q = p
  · subst hqp
    rw [Function.update_self] at hq ⊢
    exact hassigned.follows program hq
  · rw [Function.update_of_ne hqp] at hq ⊢
    exact h.follows q program hq

theorem Coherent.ended_update (h : Coherent σ role) (hassigned : Assigned program? r) (q : ι)
    (hq : Function.update σ.running p program? q = none) : Function.update role p r q = .idle := by
  by_cases hqp : q = p
  · subst hqp
    rw [Function.update_self] at hq ⊢
    exact hassigned.ended hq
  · rw [Function.update_of_ne hqp] at hq ⊢
    exact h.ended q hq

/-- A process goes on in another role, and the path stays as it is. -/
theorem Coherent.move (h : Coherent σ role) (hf : Unmoved p σ.files f)
    (hassigned : Assigned program? r) (hfits : Fits p f r)
    (halone : (r = .clearing ∨ ∃ fd, r = .leaving fd) → ∀ q, q ≠ p → ¬ σ.Owns q) :
    Coherent ⟨f, Function.update σ.running p program?⟩ (Function.update role p r) where
  numbered := hf.numbered h.numbered
  follows := h.follows_update hassigned
  ended := h.ended_update hassigned
  bound q fd hq := by
    by_cases hqp : q = p
    · subst hqp
      rw [Function.update_self] at hq
      exact hfits.bound fd hq
    · rw [Function.update_of_ne hqp] at hq
      obtain ⟨⟨u, hentry⟩, hsocket⟩ := h.bound q fd hq
      exact ⟨⟨u, hf.entry.trans hentry⟩, (hf.sockets fd q _ hqp rfl).mpr hsocket⟩
  listening q fd hq := by
    by_cases hqp : q = p
    · subst hqp
      rw [Function.update_self] at hq
      exact hfits.listening fd hq
    · rw [Function.update_of_ne hqp] at hq
      obtain ⟨⟨u, hentry⟩, hsocket⟩ := h.listening q fd hq
      exact ⟨⟨u, hf.entry.trans hentry⟩, (hf.sockets fd q _ hqp rfl).mpr hsocket⟩
  alone q hq q' hne howns := by
    by_cases hqp : q = p
    · subst hqp
      rw [Function.update_self] at hq
      exact halone hq q' hne (hf.owns howns)
    · rw [Function.update_of_ne hqp] at hq
      exact h.alone q hq q' hne (hf.owns howns)
  held fd q phase hsocket hphase := by
    by_cases hqp : q = p
    · subst hqp
      rw [Function.update_self]
      exact hfits.held fd phase hsocket hphase
    · rw [Function.update_of_ne hqp]
      exact h.held fd q phase ((hf.sockets fd q phase hqp hphase).mp hsocket) hphase

theorem unmoved_close (fd : Fd) : Unmoved p f (f.answer uid p (.close fd)).2 := by
  show Unmoved p f (if _ then _ else _)
  split_ifs with hown
  · cases hsocket : f.sockets fd with
    | none =>
      rw [hsocket] at hown
      cases hown
    | some s =>
      rw [hsocket] at hown
      obtain ⟨q, phase⟩ := s
      obtain rfl : q = p := Option.some.inj hown
      exact unmoved_setPhase hsocket nofun
  · exact .refl p f

theorem unmoved_release : Unmoved p f (f.release p) where
  numbered h := by
    refine ⟨fun fd hfd => ?_, h.entry⟩
    show (f.sockets fd).map _ = none
    rw [h.fresh fd hfd]
    rfl
  entry := rfl
  sockets fd q phase hq _ := by
    show (f.sockets fd).map _ = _ ↔ _
    cases f.sockets fd with
    | none => exact Iff.rfl
    | some s =>
      rw [Option.map_some]
      by_cases hs : s.process = p
      · rw [if_pos hs]
        refine iff_of_false (fun heq => ?_) fun heq => ?_
        · exact hq ((congrArg Socket.process (Option.some.inj heq)).symm.trans hs)
        · exact hq ((congrArg Socket.process (Option.some.inj heq)).symm.trans hs)
      · rw [if_neg hs]
  own fd phase hphase hafter := by
    have hafter : (f.sockets fd).map (fun s =>
      if s.process = p then { s with phase := Phase.closed } else s) = some ⟨p, phase⟩ := hafter
    obtain ⟨s, hs, heq⟩ := Option.map_eq_some_iff.mp hafter
    by_cases hsp : s.process = p
    · rw [if_pos hsp] at heq
      obtain ⟨-, rfl⟩ := Socket.mk.inj heq
      cases hphase
    · rw [if_neg hsp] at heq
      exact ⟨phase, hphase, hs.trans (congrArg some heq)⟩

theorem assigned_some (h : Follows (fun _ => Idle) Idle program r) : Assigned (some program) r :=
  ⟨fun _ heq => Option.some.inj heq ▸ h, nofun⟩

/-- The path is unlinked by a process that no other process owns it from. -/
theorem Coherent.unlinked (h : Coherent σ role) (hp : role p = .clearing)
    (hfollows : Follows (fun _ => Idle) Idle program .idle) :
    Coherent (σ.resume p program { σ.files with entry := none }) (Function.update role p .idle) where
  numbered := ⟨h.numbered.fresh, nofun⟩
  follows := h.follows_update (assigned_some hfollows)
  ended := h.ended_update (assigned_some hfollows)
  bound q fd hq := by
    have hqp : q ≠ p := by
      rintro rfl
      rw [Function.update_self] at hq
      cases hq
    rw [Function.update_of_ne hqp] at hq
    exact absurd (h.owns (Or.inl hq)) (h.alone p (Or.inl hp) q hqp)
  listening q fd hq := by
    have hqp : q ≠ p := by
      rintro rfl
      rw [Function.update_self] at hq
      cases hq
    rw [Function.update_of_ne hqp] at hq
    exact absurd (h.owns (Or.inr hq)) (h.alone p (Or.inl hp) q hqp)
  alone _ _ _ _ howns := by
    obtain ⟨fd, u, phase, hentry, -⟩ := howns
    cases hentry
  held fd q phase hsocket hphase := by
    have hheld := h.held fd q phase hsocket hphase
    have hqp : q ≠ p := by
      rintro rfl
      rw [hp] at hheld
      simp at hheld
    rwa [Function.update_of_ne hqp]

/-- A socket is bound while no other process is about to unlink the path. -/
theorem Coherent.bind (h : Coherent σ role) {fd : Fd} (hp : role p = .idle)
    (hentry : σ.files.entry = none) (hfresh : σ.files.sockets fd = some ⟨p, .fresh⟩)
    (hothers : ∀ q, q ≠ p → ∀ program, σ.running q = some program → unlinks program = false)
    (hfollows : Follows (fun _ => Idle) Idle program (.bound fd)) :
    Coherent (σ.resume p program
      { σ.files.setPhase p fd .bound with entry := some (.socket fd (uid p)) })
      (Function.update role p (.bound fd)) where
  numbered := by
    have hlt : fd < σ.files.nextFd := by
      rw [← Nat.not_le]
      intro hle
      rw [h.numbered.fresh fd hle] at hfresh
      cases hfresh
    refine ⟨fun fd' hfd' => ?_, fun fd' u heq => ?_⟩
    · have hne : fd' ≠ fd := Nat.ne_of_gt (Nat.lt_of_lt_of_le hlt hfd')
      exact (Function.update_of_ne hne _ _).trans (h.numbered.fresh fd' hfd')
    · obtain ⟨rfl, -⟩ := Entry.socket.inj (Option.some.inj heq)
      exact hlt
  follows := h.follows_update (assigned_some hfollows)
  ended := h.ended_update (assigned_some hfollows)
  bound q fd' hq := by
    by_cases hqp : q = p
    · subst hqp
      rw [Function.update_self] at hq
      obtain rfl := Role.bound.inj hq
      exact ⟨⟨_, rfl⟩, Function.update_self _ _ _⟩
    · rw [Function.update_of_ne hqp] at hq
      obtain ⟨u, hnamed⟩ := (h.bound q fd' hq).1
      cases hentry.symm.trans hnamed
  listening q fd' hq := by
    by_cases hqp : q = p
    · subst hqp
      rw [Function.update_self] at hq
      cases hq
    · rw [Function.update_of_ne hqp] at hq
      obtain ⟨u, hnamed⟩ := (h.listening q fd' hq).1
      cases hentry.symm.trans hnamed
  alone q hq := by
    have hqp : q ≠ p := by
      rintro rfl
      rw [Function.update_self] at hq
      obtain hq | ⟨fd', hq⟩ := hq <;> cases hq
    rw [Function.update_of_ne hqp] at hq
    cases hrunning : σ.running q with
    | none =>
      rw [h.ended q hrunning] at hq
      obtain hq | ⟨fd', hq⟩ := hq <;> cases hq
    | some program' =>
      have hfollows' := h.follows q program' hrunning
      have hunlinks := hothers q hqp program' hrunning
      obtain hq | ⟨fd', hq⟩ := hq <;> rw [hq] at hfollows'
      · cases hunlinks.symm.trans (unlinks_of_clearing hfollows')
      · cases hunlinks.symm.trans (unlinks_of_leaving hfollows')
  held fd' q phase hsocket hphase := by
    by_cases hfd : fd' = fd
    · subst hfd
      have heq : some ⟨p, Phase.bound⟩ = some (Socket.mk q phase) :=
        (Function.update_self fd' _ σ.files.sockets).symm.trans hsocket
      obtain ⟨rfl, rfl⟩ := Socket.mk.inj (Option.some.inj heq)
      rw [Function.update_self]
      exact Or.inl rfl
    · have hsocket : σ.files.sockets fd' = some ⟨q, phase⟩ :=
        (Function.update_of_ne hfd _ σ.files.sockets).symm.trans hsocket
      have hheld := h.held fd' q phase hsocket hphase
      have hqp : q ≠ p := by
        rintro rfl
        rw [hp] at hheld
        simp at hheld
      rwa [Function.update_of_ne hqp]

/-- What a call is answered and leaves, whether it fails by itself or not. -/
def Answered (uid : ι → ℕ) (p : ι) (f : Files ι) (c : Call) (a : c.Answer) (f' : Files ι) : Prop :=
  (a, f') = f.answer uid p c ∨ ∃ e, c.MayFail e ∧ a = c.failure e ∧ f' = f

theorem files_of_lstat {a : Except Errno FileStat} (h : Answered uid p σ.files .lstat a f) :
    f = σ.files := by
  obtain h | ⟨e, -, -, rfl⟩ := h
  · refine (congrArg Prod.snd h).trans ?_
    show (match σ.files.entry with | none => _ | some .file => _ | some (.socket _ u) => _ :
      Except Errno FileStat × Files ι).2 = _
    split <;> rfl
  · rfl

theorem files_of_connect {fd : Fd} {a : Except Errno Unit}
    (h : Answered uid p σ.files (.connect fd) a f) : f = σ.files ∧
      ∀ e, a = .error e → e = ECONNREFUSED ∨ e = ENOENT → ∀ fd' u,
        σ.files.entry = some (.socket fd' u) →
          (σ.files.sockets fd').map Socket.phase ≠ some .listening := by
  obtain h | ⟨e, he, rfl, rfl⟩ := h
  · unfold Files.answer at h
    cases hentry : σ.files.entry with
    | none =>
      rw [hentry] at h
      exact ⟨congrArg Prod.snd h, fun _ _ _ _ _ => nofun⟩
    | some entry =>
      rw [hentry] at h
      cases entry with
      | file => exact ⟨congrArg Prod.snd h, fun _ _ _ _ _ => nofun⟩
      | socket fd' u =>
        simp only at h
        split_ifs at h with hlistening
        · refine ⟨congrArg Prod.snd h, fun e he => ?_⟩
          cases he.symm.trans (congrArg Prod.fst h)
        · refine ⟨congrArg Prod.snd h, fun e _ _ fd'' u' heq => ?_⟩
          obtain ⟨rfl, -⟩ := Entry.socket.inj (Option.some.inj heq)
          exact hlistening
  · refine ⟨rfl, fun e' heq href => ?_⟩
    obtain rfl := Except.error.inj heq
    obtain href | href := href
    · exact absurd href he.2
    · exact absurd href he.1

theorem files_of_bind {fd : Fd} {a : Except Errno Unit}
    (h : Answered uid p σ.files (.bind fd) a f) : (∃ e, a = .error e) ∧ f = σ.files ∨
      a = .ok () ∧ σ.files.entry = none ∧ σ.files.sockets fd = some ⟨p, .fresh⟩ ∧
        f = { σ.files.setPhase p fd .bound with entry := some (.socket fd (uid p)) } := by
  obtain h | ⟨e, -, rfl, rfl⟩ := h
  · unfold Files.answer at h
    simp only at h
    split_ifs at h with hentry hfresh
    · exact Or.inl ⟨⟨_, congrArg Prod.fst h⟩, congrArg Prod.snd h⟩
    · exact Or.inr ⟨congrArg Prod.fst h, not_not.mp hentry, hfresh, congrArg Prod.snd h⟩
    · exact Or.inl ⟨⟨_, congrArg Prod.fst h⟩, congrArg Prod.snd h⟩
  · exact Or.inl ⟨⟨e, rfl⟩, rfl⟩

theorem files_of_listen {fd : Fd} {a : Except Errno Unit}
    (h : Answered uid p σ.files (.listen fd) a f) : (∃ e, a = .error e) ∧ f = σ.files ∨
      a = .ok () ∧ σ.files.sockets fd = some ⟨p, .bound⟩ ∧
        f = σ.files.setPhase p fd .listening := by
  obtain h | ⟨e, -, rfl, rfl⟩ := h
  · unfold Files.answer at h
    simp only at h
    split_ifs at h with hbound
    · exact Or.inr ⟨congrArg Prod.fst h, hbound, congrArg Prod.snd h⟩
    · exact Or.inl ⟨⟨_, congrArg Prod.fst h⟩, congrArg Prod.snd h⟩
  · exact Or.inl ⟨⟨e, rfl⟩, rfl⟩

theorem files_of_unlink {a : Except Errno Unit} (h : Answered uid p σ.files .unlink a f) :
    f = σ.files ∨ f = { σ.files with entry := none } := by
  obtain h | ⟨e, -, -, rfl⟩ := h
  · unfold Files.answer at h
    cases hentry : σ.files.entry with
    | none =>
      rw [hentry] at h
      exact Or.inl (congrArg Prod.snd h)
    | some entry =>
      rw [hentry] at h
      exact Or.inr (congrArg Prod.snd h)
  · exact Or.inl rfl

theorem files_of_chmod {a : Except Errno Unit} (h : Answered uid p σ.files .chmod a f) :
    f = σ.files := by
  obtain h | ⟨e, -, -, rfl⟩ := h
  · exact congrArg Prod.snd h
  · rfl

/-- A process that owns the path is about to give it up. -/
theorem Coherent.leave (h : Coherent σ role) {fd : Fd}
    (hrole : role p = .bound fd ∨ role p = .listening fd)
    (hfollows : Follows (fun _ => Idle) Idle program (.leaving fd)) :
    Coherent (σ.resume p program σ.files) (Function.update role p (.leaving fd)) := by
  have howns := h.owns hrole
  refine h.move (.refl p _) (assigned_some hfollows) ⟨nofun, nofun, fun fd' phase hsocket hphase => ?_⟩
    fun _ q hq howns' => hq (howns'.unique howns)
  have hheld := h.held fd' p phase hsocket hphase
  obtain hrole | hrole := hrole <;> rw [hrole] at hheld <;> simp at hheld <;>
    exact Or.inr (Or.inr (congrArg Role.leaving hheld))

theorem fits_clearing (h : Coherent σ role) {fd : Fd} (hrole : role p = .leaving fd) :
    Fits p (σ.files.answer uid p (.close fd)).2 .clearing where
  bound := nofun
  listening := nofun
  held fd' phase hsocket hphase := by
    obtain ⟨before, hbefore, howned⟩ := (unmoved_close fd).own fd' phase hphase hsocket
    have hheld := h.held fd' p before howned hbefore
    rw [hrole] at hheld
    obtain rfl : fd = fd' := by simpa using hheld
    have hown : (σ.files.sockets fd).map Socket.process = some p := by rw [howned]; rfl
    have hclosed : (σ.files.answer uid p (.close fd)).2.sockets fd = some ⟨p, .closed⟩ := by
      show (if (σ.files.sockets fd).map Socket.process = some p then σ.files.setPhase p fd .closed
        else σ.files).sockets fd = _
      rw [if_pos hown]
      exact Function.update_self _ _ _
    rw [hclosed] at hsocket
    obtain ⟨-, rfl⟩ := Socket.mk.inj (Option.some.inj hsocket)
    cases hphase

/-- A careful call keeps the invariant. -/
theorem Coherent.call (h : Coherent σ role) {c : Call} {next : c.Answer → Program Unit}
    (hp : σ.running p = some (.call c next)) (hcareful : σ.Careful p) {a : c.Answer}
    (hanswered : Answered uid p σ.files c a f) :
    ∃ role', Coherent (σ.resume p (next a) f) role' := by
  obtain ⟨r, hnext, hfollows⟩ := h.follows p _ hp a
  refine ⟨Function.update role p r, ?_⟩
  have hassigned := assigned_some hfollows
  have hbare : ∀ {f' : Files ι}, Unmoved p σ.files f' → (role p).IsBare → r = .idle →
      Coherent (σ.resume p (next a) f') (Function.update role p r) := by
    rintro f' hf hrole rfl
    exact h.move hf hassigned (h.fits_bare hf hrole (Or.inl rfl)) fun hleaves => by
      obtain hleaves | ⟨fd, hleaves⟩ := hleaves <;> cases hleaves
  unfold System.Careful at hcareful
  rw [hp] at hcareful
  obtain ⟨role₀, hrole⟩ : ∃ role₀, role p = role₀ := ⟨_, rfl⟩
  rw [hrole] at hnext
  cases hnext with
  | lstat =>
    obtain rfl := files_of_lstat hanswered
    exact hbare (.refl p _) (Or.inl hrole) rfl
  | socket =>
    obtain hanswer | ⟨e, -, -, rfl⟩ := hanswered
    · obtain rfl : f = _ := congrArg Prod.snd hanswer
      exact hbare (unmoved_socket h.numbered) (Or.inl hrole) rfl
    · exact hbare (.refl p _) (Or.inl hrole) rfl
  | connected =>
    obtain rfl := (files_of_connect hanswered).1
    exact hbare (.refl p _) (Or.inl hrole) rfl
  | unprobed =>
    obtain rfl := (files_of_connect hanswered).1
    exact hbare (.refl p _) (Or.inl hrole) rfl
  | refused fd he =>
    obtain ⟨rfl, hrefused⟩ := files_of_connect hanswered
    refine h.move (.refl p _) hassigned
      (h.fits_bare (.refl p _) (Or.inl hrole) (Or.inr rfl)) fun _ q _ howns => ?_
    -- a socket that refuses the probe does not listen, and it is not about to
    obtain ⟨fd', u, phase, hentry, hsocket, hphase⟩ := howns
    have hlistening := hrefused _ rfl he fd' u hentry
    have hbound := hcareful fd' u hentry
    rw [hsocket] at hlistening hbound
    cases phase with
    | bound => exact hbound rfl
    | listening => exact hlistening rfl
    | fresh => cases hphase
    | closed => cases hphase
  | closeIdle fd =>
    obtain hanswer | ⟨e, he, -⟩ := hanswered
    · obtain rfl : f = _ := congrArg Prod.snd hanswer
      exact hbare (unmoved_close fd) (Or.inl hrole) rfl
    · exact he.elim
  | closeClearing fd =>
    obtain hanswer | ⟨e, he, -⟩ := hanswered
    · obtain rfl : f = _ := congrArg Prod.snd hanswer
      exact h.move (unmoved_close fd) hassigned
        (h.fits_bare (unmoved_close fd) (Or.inr hrole) (Or.inr rfl))
        fun _ => h.alone p (Or.inl hrole)
    · exact he.elim
  | unlink =>
    obtain rfl | rfl := files_of_unlink hanswered
    · exact hbare (.refl p _) (Or.inr hrole) rfl
    · exact h.unlinked hrole hfollows
  | bind fd =>
    obtain ⟨⟨e, he⟩, -⟩ | ⟨-, hentry, hfresh, rfl⟩ := files_of_bind hanswered
    · cases he
    · exact h.bind hrole hentry hfresh (hcareful hentry) hfollows
  | unbound fd e =>
    obtain ⟨-, rfl⟩ | ⟨he, -⟩ := files_of_bind hanswered
    · exact hbare (.refl p _) (Or.inl hrole) rfl
    · cases he
  | chmod fd =>
    obtain rfl := files_of_chmod hanswered
    refine h.move (.refl p _) hassigned (hrole ▸ h.fits p) fun hleaves => ?_
    obtain hleaves | ⟨fd', hleaves⟩ := hleaves <;> cases hleaves
  | unchanged fd e =>
    obtain rfl := files_of_chmod hanswered
    exact h.leave (Or.inl hrole) hfollows
  | listen fd =>
    obtain ⟨⟨e, he⟩, -⟩ | ⟨-, hbound, rfl⟩ := files_of_listen hanswered
    · cases he
    · refine h.move (unmoved_setPhase hbound fun _ => rfl) hassigned (fits_listening h hrole)
        fun hleaves => ?_
      obtain hleaves | ⟨fd', hleaves⟩ := hleaves <;> cases hleaves
  | deaf fd e =>
    obtain ⟨-, rfl⟩ | ⟨he, -⟩ := files_of_listen hanswered
    · exact h.leave (Or.inl hrole) hfollows
    · cases he
  | serve fd =>
    obtain hanswer | ⟨e, he, -⟩ := hanswered
    · obtain rfl : f = _ := congrArg Prod.snd hanswer
      exact h.leave (Or.inr hrole) hfollows
    · exact he.elim
  | closeLeaving fd =>
    obtain hanswer | ⟨e, he, -⟩ := hanswered
    · obtain rfl : f = _ := congrArg Prod.snd hanswer
      exact h.move (unmoved_close fd) hassigned (fits_clearing h hrole)
        fun _ => h.alone p (Or.inr ⟨fd, hrole⟩)
    · exact he.elim

/-- A careful step keeps the invariant. -/
theorem Coherent.step (h : Coherent σ role) (hstep : Step uid p σ σ') (hcareful : σ.Careful p) :
    ∃ role', Coherent σ' role' := by
  cases hstep with
  | answered hp => exact h.call hp hcareful (Or.inl rfl)
  | failed hp he =>
    have hanswered : Answered uid p σ.files _ _ σ.files := Or.inr ⟨_, he, rfl, rfl⟩
    exact h.call hp hcareful hanswered
  | ended hp =>
    refine ⟨_, h.move unmoved_release ⟨nofun, fun _ => rfl⟩ ⟨nofun, nofun, ?_⟩ fun hleaves => ?_⟩
    · intro fd phase hsocket hphase
      obtain ⟨s, -, heq⟩ := Option.map_eq_some_iff.mp hsocket
      split_ifs at heq with hs
      · obtain ⟨-, rfl⟩ := Socket.mk.inj heq
        cases hphase
      · exact absurd (congrArg Socket.process heq) hs
    · obtain hleaves | ⟨fd, hleaves⟩ := hleaves <;> cases hleaves

end Preservation

section Runs

variable [DecidableEq ι] {strerror : ℤ → Bytes} {uid : ι → ℕ} {socketPath : Bytes}
  {σ σ' : System ι}

/-- As long as no socket is bound while another process is about to unlink the path, and none is
probed between `bind` and `listen`, no process unlinks the path of another process's socket, and the
path is that of the only process that serves. -/
theorem pathOwner (hstart : Starts strerror uid socketPath σ) (hrun : CarefulRun uid σ σ') :
    (∀ p next, σ'.running p = some (.call .unlink next) → ∀ q, q ≠ p → ¬ σ'.Owns q) ∧
      (∀ p q, σ'.Serving p → σ'.Serving q → p = q) ∧
      ∀ p, σ'.Serving p → ∃ fd u, σ'.files.entry = some (.socket fd u) ∧
        σ'.files.sockets fd = some ⟨p, .listening⟩ := by
  obtain ⟨role, h⟩ : ∃ role, Coherent σ' role :=
    hrun.invariant (P := fun σ => ∃ role, Coherent σ role)
      (fun p _ _ _ ⟨hstep, hcareful⟩ ⟨_, h⟩ => h.step hstep hcareful)
      ⟨_, coherent_of_starts hstart⟩
  have hserving : ∀ p, σ'.Serving p → ∃ fd, role p = .listening fd := by
    rintro p ⟨next, hp⟩
    obtain ⟨role', hnext, -⟩ := h.follows p _ hp ()
    obtain ⟨role₀, hrole⟩ : ∃ role₀, role p = role₀ := ⟨_, rfl⟩
    rw [hrole] at hnext
    cases hnext
    exact ⟨_, hrole⟩
  refine ⟨fun p next hp => ?_, fun p q hp hq => ?_, fun p hp => ?_⟩
  · obtain ⟨role', hnext, -⟩ := h.follows p _ hp (.error ENOENT)
    obtain ⟨role₀, hrole⟩ : ∃ role₀, role p = role₀ := ⟨_, rfl⟩
    rw [hrole] at hnext
    cases hnext
    exact h.alone p (Or.inl hrole)
  · obtain ⟨fd, hfd⟩ := hserving p hp
    obtain ⟨fd', hfd'⟩ := hserving q hq
    exact (h.owns (Or.inr hfd)).unique (h.owns (Or.inr hfd'))
  · obtain ⟨fd, hfd⟩ := hserving p hp
    obtain ⟨⟨u, hentry⟩, hsocket⟩ := h.listening p fd hfd
    exact ⟨fd, u, hentry, hsocket⟩

/-- The next call of `p`, which does not fail by itself. -/
def System.advance (uid : ι → ℕ) (σ : System ι) (p : ι) : System ι :=
  match σ.running p with
  | some (.call c next) => σ.resume p (next (σ.files.answer uid p c).1) (σ.files.answer uid p c).2
  | _ => σ

theorem advance_step (σ : System ι) (p : ι) :
    σ.advance uid p = σ ∨ Step uid p σ (σ.advance uid p) := by
  unfold System.advance
  split
  · exact Or.inr (.answered (by assumption))
  · exact Or.inl rfl

/-- A schedule of next calls is a run. -/
theorem schedule_walk (σ : System ι) (schedule : List ι) :
    Walk (Step uid) Set.univ σ (schedule.foldl (System.advance uid) σ) := by
  induction schedule generalizing σ with
  | nil => exact .refl
  | cons p schedule ih =>
    have hnext : σ.advance uid p = σ ∨ Step uid p σ (σ.advance uid p) := advance_step σ p
    obtain heq | hstep := hnext
    · rw [List.foldl_cons, heq]
      exact ih σ
    · exact (Walk.single (Set.mem_univ p) hstep).trans (ih _)

/-- All calls of a schedule are careful. -/
def AllCareful (uid : ι → ℕ) : System ι → List ι → Prop
  | _, [] => True
  | σ, p :: schedule => σ.Careful p ∧ AllCareful uid (σ.advance uid p) schedule

theorem schedule_carefulRun {schedule : List ι} (h : AllCareful uid σ schedule) :
    CarefulRun uid σ (schedule.foldl (System.advance uid) σ) := by
  induction schedule generalizing σ with
  | nil => exact .refl
  | cons p schedule ih =>
    have hnext : σ.advance uid p = σ ∨ Step uid p σ (σ.advance uid p) := advance_step σ p
    obtain heq | hstep := hnext
    · rw [List.foldl_cons]
      have hrest := ih h.2
      rwa [heq] at hrest ⊢
    · exact (Walk.single (Set.mem_univ p) ⟨hstep, h.1⟩).trans (ih h.2)

end Runs

/-- The call that a program makes next. -/
def nextCall : Program Unit → Option Call
  | .call c _ => some c
  | _ => none

theorem call_of_nextCall {σ : System ι} {p : ι} {c : Call}
    (h : (σ.running p).bind nextCall = some c) : ∃ next, σ.running p = some (.call c next) := by
  obtain ⟨program, hprogram, hcall⟩ := Option.bind_eq_some_iff.mp h
  cases program with
  | call c' next =>
    obtain rfl := Option.some.inj hcall
    exact ⟨next, hprogram⟩
  | _ => cases hcall

theorem serving_of_nextCall {σ : System ι} {p : ι}
    (h : (σ.running p).bind nextCall = some .serve) : σ.Serving p := call_of_nextCall h

/-- Two processes are about to start, and the path is that of a socket which nobody has open. -/
def twoStarts : System Bool where
  files := {
    entry := some (.socket 0 1000)
    sockets := fun fd => if fd = 0 then some ⟨true, .closed⟩ else none
    nextFd := 1 }
  running _ := some (main (fun _ => []) 1000 [47])

theorem starts_twoStarts : Starts (fun _ => []) (fun _ => 1000) [47] twoStarts where
  running _ := rfl
  closed fd s hs := by
    have hs : (if fd = 0 then some (Socket.mk true Phase.closed) else none) = some s := hs
    split_ifs at hs
    rw [← Option.some.inj hs]
  numbered fd hfd := if_neg (Nat.ne_of_gt hfd)
  entry fd u h := by
    obtain ⟨rfl, -⟩ := Entry.socket.inj (Option.some.inj h)
    exact Nat.zero_lt_one

/-- The first process starts, and then the second one, which finds that the first one is running. -/
def oneAfterTheOther : List Bool := .replicate 9 false ++ .replicate 4 true

theorem oneAfterTheOther_careful :
    AllCareful (fun _ : Bool => 1000) twoStarts oneAfterTheOther := by
  refine ⟨trivial, trivial, fun fd u hentry => ?_, trivial, trivial, trivial,
    fun _ q hq program hprogram => ?_, trivial, trivial, trivial, trivial, fun fd u hentry => ?_,
    trivial, trivial⟩
  · obtain ⟨rfl, -⟩ := Entry.socket.inj (Option.some.inj hentry)
    decide
  · cases q with
    | false => exact absurd rfl hq
    | true =>
      obtain rfl := Option.some.inj hprogram
      rfl
  · obtain ⟨rfl, -⟩ := Entry.socket.inj (Option.some.inj hentry)
    decide

/-- The first process serves alone, and the path is that of its socket. -/
theorem pathOwner_second : ∃ σ : System Bool, σ.Serving false ∧
    (∀ p q, σ.Serving p → σ.Serving q → p = q) ∧ σ.running true = some (.done ()) := by
  obtain ⟨-, hone, -⟩ := pathOwner starts_twoStarts (schedule_carefulRun oneAfterTheOther_careful)
  exact ⟨_, serving_of_nextCall (by decide), hone, rfl⟩

/-- Both processes probe the stale socket before the first one replaces it. -/
def bothAtOnce : List Bool := .replicate 4 false ++ .replicate 4 true ++ .replicate 5 false

/-- The first process serves when the second one unlinks its path and serves, too. -/
theorem path_unlinked : ∃ σ σ' : System Bool,
    Starts (fun _ => []) (fun _ => 1000) [47] twoStarts ∧
    Walk (Step fun _ => 1000) Set.univ twoStarts σ ∧ σ.Serving false ∧ σ.Owns false ∧
    (∃ next, σ.running true = some (.call .unlink next)) ∧
    Walk (Step fun _ => 1000) Set.univ σ σ' ∧ σ'.Serving false ∧ σ'.Serving true ∧
    ¬ σ'.Owns false := by
  refine ⟨bothAtOnce.foldl (System.advance fun _ => 1000) twoStarts,
    (List.replicate 5 true).foldl (System.advance fun _ => 1000)
      (bothAtOnce.foldl (System.advance fun _ => 1000) twoStarts), starts_twoStarts,
    schedule_walk _ _, serving_of_nextCall (by decide),
    ⟨3, 1000, .listening, by decide, by decide, rfl⟩, ?_,
    schedule_walk _ _, serving_of_nextCall (by decide), serving_of_nextCall (by decide), ?_⟩
  · exact call_of_nextCall (show ((bothAtOnce.foldl (System.advance fun _ => 1000)
      twoStarts).running true).bind nextCall = some .unlink by decide)
  · rintro ⟨fd, u, phase, hentry, hsocket, -⟩
    have hnamed : ((List.replicate 5 true).foldl (System.advance fun _ => 1000)
      (bothAtOnce.foldl (System.advance fun _ => 1000) twoStarts)).files.entry =
        some (.socket 4 1000) := by decide
    obtain ⟨rfl, -⟩ := Entry.socket.inj (Option.some.inj (hentry.symm.trans hnamed))
    have hother : ((List.replicate 5 true).foldl (System.advance fun _ => 1000)
      (bothAtOnce.foldl (System.advance fun _ => 1000) twoStarts)).files.sockets 4 =
        some ⟨true, .listening⟩ := by decide
    cases hsocket.symm.trans hother

end UnixSocket

end Runnerd
