import Mathlib.Data.List.Perm.Basic
import Mathlib.Tactic.Ring
import Runnerd.ProcessLauncher

/-!
# What a launch holds

`launchProcess` opens eight descriptors and forks a child, and on each of its failures gives back
what it has so far. `Holdings` follows the descriptors and children of a piece of history. It
refuses a `close` or a `kill` of what the piece does not hold, any signal but SIGKILL, and a
`waitpid` for a child that was not killed. A launch that fails holds nothing but standard
descriptors it had to open; one that succeeds holds three pipes and a child besides.
-/

namespace Runnerd

open Effect Effect.Prog

/-- The descriptors and the children that a piece of history has acquired, and whom it has sent
SIGKILL. -/
structure Holdings where
  fds : List Fd := []
  children : List Pid := []
  killed : List KillTarget := []

/-- One event. -/
def Holdings.step (h : Holdings) : Event → Option Holdings
  | .called _ | .registered _ _ | .unregistered _ => some h
  | .opened fd => some { h with fds := fd :: h.fds }
  | .closed fd => if fd ∈ h.fds then some { h with fds := h.fds.erase fd } else none
  | .forked pid => some { h with children := pid :: h.children }
  | .killSent target signal =>
    if target.id ∈ h.children ∧ signal = .SIGKILL then
      some { h with killed := target :: h.killed }
    else none
  | .reaped pid _ | .waitFailed pid =>
    if pid ∈ h.children ∧ pid ∈ h.killed.map KillTarget.id then
      some { h with children := h.children.erase pid }
    else none
  | _ => none

/-- The events of a piece of history. -/
def Holdings.run (h : Holdings) (events : List Event) : Option Holdings := events.foldlM step h

theorem Holdings.run_append {h h₁ h₂ : Holdings} {evs evs' : List Event} (h1 : h.run evs = some h₁)
    (h2 : h₁.run evs' = some h₂) : h.run (evs ++ evs') = some h₂ := by
  unfold Holdings.run at *
  rw [List.foldlM_append, h1]
  exact h2

theorem Holdings.run_cons {h h' : Holdings} {e : Event} {events : List Event}
    (hrun : h.run (e :: events) = some h') :
    ∃ h₁, h.step e = some h₁ ∧ h₁.run events = some h' := by
  unfold Holdings.run at hrun
  rw [List.foldlM_cons] at hrun
  cases hstep : h.step e with
  | none =>
    rw [hstep] at hrun
    cases hrun
  | some h₁ =>
    rw [hstep] at hrun
    exact ⟨h₁, rfl, hrun⟩

/-! ## The children of a launch -/

/-- These events wait for a child, whether or not the call succeeds. -/
def WaitedFor (events : List Event) (pid : Pid) : Prop :=
  .waitFailed pid ∈ events ∨ ∃ status, .reaped pid status ∈ events

theorem WaitedFor.mono {events events' : List Event} {pid : Pid} (h : WaitedFor events pid)
    (hsub : events ⊆ events') : WaitedFor events' pid :=
  h.imp (fun hmem => hsub hmem) fun hreaped => hreaped.imp fun _ hmem => hsub hmem

/-- One event of a launch, as far as its children go. -/
theorem Holdings.children_step {h h' : Holdings} {e : Event} (hstep : h.step e = some h') :
    (∀ target ∈ h'.killed, target ∈ h.killed ∨ e = .killSent target .SIGKILL) ∧
      ∀ pid, pid ∈ h.children ∨ e = .forked pid →
        pid ∈ h'.children ∨ WaitedFor [e] pid ∧ pid ∈ h.killed.map KillTarget.id := by
  unfold Holdings.step at hstep
  split at hstep
  iterate 4
    · obtain rfl := Option.some.inj hstep
      exact ⟨fun _ => Or.inl, fun pid hpid => Or.inl (hpid.resolve_right (by simp))⟩
  · split_ifs at hstep
    obtain rfl := Option.some.inj hstep
    exact ⟨fun _ => Or.inl, fun pid hpid => Or.inl (hpid.resolve_right (by simp))⟩
  · rename_i child
    obtain rfl := Option.some.inj hstep
    refine ⟨fun _ => Or.inl, fun pid hpid => Or.inl ?_⟩
    obtain hpid | hpid := hpid
    · exact List.mem_cons_of_mem _ hpid
    · obtain rfl : child = pid := by injection hpid
      exact List.mem_cons_self
  · rename_i target signal
    split_ifs at hstep with hchild
    obtain rfl := Option.some.inj hstep
    refine ⟨fun other hother => ?_, fun pid hpid => Or.inl (hpid.resolve_right (by simp))⟩
    obtain rfl | hother := List.mem_cons.mp hother
    · exact Or.inr (by rw [hchild.2])
    · exact Or.inl hother
  · rename_i child status
    split_ifs at hstep with hkilled
    obtain rfl := Option.some.inj hstep
    refine ⟨fun _ => Or.inl, fun pid hpid => ?_⟩
    by_cases hchild : pid = child
    · subst hchild
      exact Or.inr ⟨Or.inr ⟨status, List.mem_cons_self⟩, hkilled.2⟩
    · exact Or.inl ((List.mem_erase_of_ne hchild).mpr (hpid.resolve_right (by simp)))
  · rename_i child
    split_ifs at hstep with hkilled
    obtain rfl := Option.some.inj hstep
    refine ⟨fun _ => Or.inl, fun pid hpid => ?_⟩
    by_cases hchild : pid = child
    · subst hchild
      exact Or.inr ⟨Or.inl List.mem_cons_self, hkilled.2⟩
    · exact Or.inl ((List.mem_erase_of_ne hchild).mpr (hpid.resolve_right (by simp)))
  · cases hstep

theorem Holdings.killed_of_run {h h' : Holdings} {events : List Event}
    (hrun : h.run events = some h') {target : KillTarget} (htarget : target ∈ h'.killed) :
    target ∈ h.killed ∨ .killSent target .SIGKILL ∈ events := by
  induction events generalizing h with
  | nil =>
    obtain rfl := Option.some.inj hrun
    exact Or.inl htarget
  | cons e events ih =>
    obtain ⟨h₁, hstep, hrest⟩ := Holdings.run_cons hrun
    obtain hkilled | hsent := ih hrest
    · obtain hkilled | rfl := (Holdings.children_step hstep).1 target hkilled
      · exact Or.inl hkilled
      · exact Or.inr List.mem_cons_self
    · exact Or.inr (List.mem_cons_of_mem e hsent)

/-- The killed stay killed. -/
theorem Holdings.killed_mono {h h' : Holdings} {events : List Event}
    (hrun : h.run events = some h') : h.killed ⊆ h'.killed := by
  induction events generalizing h with
  | nil =>
    obtain rfl := Option.some.inj hrun
    exact fun _ => id
  | cons e events ih =>
    obtain ⟨h₁, hstep, hrest⟩ := Holdings.run_cons hrun
    refine List.Subset.trans ?_ (ih hrest)
    unfold Holdings.step at hstep
    split at hstep <;> try split_ifs at hstep
    all_goals
      try cases hstep
    all_goals
      first | exact fun _ => id | exact List.subset_cons_self _ _

/-- A child that a launch no longer holds was killed and waited for. -/
theorem Holdings.waitedFor_of_run {h h' : Holdings} {events : List Event}
    (hrun : h.run events = some h') {pid : Pid}
    (hpid : pid ∈ h.children ∨ .forked pid ∈ events) :
    pid ∈ h'.children ∨ WaitedFor events pid ∧ pid ∈ h'.killed.map KillTarget.id := by
  induction events generalizing h with
  | nil =>
    obtain rfl := Option.some.inj hrun
    exact Or.inl (hpid.resolve_right List.not_mem_nil)
  | cons e events ih =>
    obtain ⟨h₁, hstep, hrest⟩ := Holdings.run_cons hrun
    have hheld : (pid ∈ h₁.children ∨ .forked pid ∈ events) ∨
        WaitedFor [e] pid ∧ pid ∈ h.killed.map KillTarget.id := by
      obtain hpid | hpid := hpid
      · exact ((Holdings.children_step hstep).2 pid (Or.inl hpid)).imp_left Or.inl
      · obtain rfl | hpid := List.mem_cons.mp hpid
        · exact ((Holdings.children_step hstep).2 pid (Or.inr rfl)).imp_left Or.inl
        · exact Or.inl (Or.inr hpid)
    obtain hheld | ⟨hwaited, hkilled⟩ := hheld
    · exact (ih hrest hheld).imp_right fun h => ⟨h.1.mono (List.subset_cons_self _ _), h.2⟩
    · exact Or.inr ⟨hwaited.mono (List.cons_subset_cons e (List.nil_subset _)),
        List.map_subset _ (Holdings.killed_mono hrun) hkilled⟩

/-! ## Holding -/

variable {σ : Type}

/-- Between `log₀` and `log` these descriptors, in any order, and these children are acquired, and
these targets sent SIGKILL. -/
def Holds (log₀ log : List Event) (fds : List Fd) (children : List Pid)
    (killed : List KillTarget) : Prop :=
  ∃ events h, log = log₀ ++ events ∧ Holdings.run {} events = some h ∧ h.fds.Perm fds ∧
    h.children = children ∧ h.killed = killed

section Holds

variable {log₀ log : List Event} {fds fds' : List Fd} {children : List Pid}
  {killed : List KillTarget} {e : Event}

theorem Holds.start (log : List Event) : Holds log log [] [] [] :=
  ⟨[], {}, (List.append_nil _).symm, rfl, List.Perm.refl _, rfl, rfl⟩

theorem Holds.perm (h : Holds log₀ log fds children killed) (hp : fds.Perm fds') :
    Holds log₀ log fds' children killed := by
  obtain ⟨events, h, hlog, hrun, hfds, hrest⟩ := h
  exact ⟨events, h, hlog, hrun, hfds.trans hp, hrest⟩

theorem Holds.snoc {children' : List Pid} {killed' : List KillTarget}
    (h : Holds log₀ log fds children killed)
    (hstep : ∀ h : Holdings, h.fds.Perm fds → h.children = children → h.killed = killed →
      ∃ h', h.step e = some h' ∧ h'.fds.Perm fds' ∧ h'.children = children' ∧
        h'.killed = killed') :
    Holds log₀ (log ++ [e]) fds' children' killed' := by
  obtain ⟨events, h, hlog, hrun, hfds, hchildren, hkilled⟩ := h
  obtain ⟨h', hnext, hrest⟩ := hstep h hfds hchildren hkilled
  refine ⟨events ++ [e], h', by rw [hlog, List.append_assoc], Holdings.run_append hrun ?_, hrest⟩
  unfold Holdings.run
  rw [List.foldlM_cons, hnext]
  rfl

/-- An event that acquires and releases nothing. -/
theorem Holds.skip (h : Holds log₀ log fds children killed)
    (he : ∀ h : Holdings, h.step e = some h) : Holds log₀ (log ++ [e]) fds children killed :=
  h.snoc fun h hfds hchildren hkilled => ⟨h, he h, hfds, hchildren, hkilled⟩

theorem Holds.opened (h : Holds log₀ log fds children killed) (fd : Fd) :
    Holds log₀ (log ++ [.opened fd]) (fd :: fds) children killed :=
  h.snoc fun _ hfds hchildren hkilled => ⟨_, rfl, hfds.cons fd, hchildren, hkilled⟩

theorem Holds.forked (h : Holds log₀ log fds children killed) (pid : Pid) :
    Holds log₀ (log ++ [.forked pid]) fds (pid :: children) killed :=
  h.snoc fun _ hfds hchildren hkilled => ⟨_, rfl, hfds, congrArg _ hchildren, hkilled⟩

theorem Holds.closed {fd : Fd} (h : Holds log₀ log (fd :: fds) children killed) :
    Holds log₀ (log ++ [.closed fd]) fds children killed := by
  refine h.snoc fun h hfds hchildren hkilled =>
    ⟨{ h with fds := h.fds.erase fd }, ?_, ?_, hchildren, hkilled⟩
  · exact if_pos (hfds.mem_iff.mpr List.mem_cons_self)
  · exact (hfds.erase fd).trans (by rw [List.erase_cons_head])

theorem Holds.killSent {target : KillTarget} (h : Holds log₀ log fds (target.id :: children) killed) :
    Holds log₀ (log ++ [.killSent target .SIGKILL]) fds (target.id :: children)
      (target :: killed) :=
  h.snoc fun h hfds hchildren hkilled => ⟨{ h with killed := target :: h.killed },
    if_pos ⟨hchildren ▸ List.mem_cons_self, rfl⟩, hfds, hchildren, congrArg _ hkilled⟩

/-- A killed child is waited for, whether or not the call succeeds. -/
theorem Holds.waited {target : KillTarget} (h : Holds log₀ log fds (target.id :: children) killed)
    (hkill : target ∈ killed)
    (he : e = .waitFailed target.id ∨ ∃ status, e = .reaped target.id status) :
    Holds log₀ (log ++ [e]) fds children killed := by
  refine h.snoc fun h hfds hchildren hkilled =>
    ⟨{ h with children := h.children.erase target.id }, ?_, hfds, ?_, hkilled⟩
  · have hmem : target.id ∈ h.children ∧ target.id ∈ h.killed.map KillTarget.id :=
      ⟨hchildren ▸ List.mem_cons_self, hkilled ▸ List.mem_map_of_mem hkill⟩
    obtain rfl | ⟨status, rfl⟩ := he <;> exact if_pos hmem
  · show h.children.erase target.id = children
    rw [hchildren, List.erase_cons_head]

/-- A child is killed and waited for. -/
theorem Holds.reaped (target : KillTarget) (h : Holds log₀ log fds (target.id :: children) killed)
    (he : e = .waitFailed target.id ∨ ∃ status, e = .reaped target.id status) :
    Holds log₀ (log ++ [.killSent target .SIGKILL, e]) fds children (target :: killed) := by
  simpa only [List.append_assoc, List.singleton_append] using
    h.killSent.waited List.mem_cons_self he

end Holds

/-- From `w₀` to `w` these descriptors and children are acquired, single processes killed, and the
state is the same. -/
def Acquired (w₀ w : World σ) (fds : List Fd) (children : List Pid) : Prop :=
  w.st = w₀.st ∧ ∃ killed : List Pid, Holds w₀.log w.log fds children (killed.map .process)

section Acquired

variable {w₀ w : World σ} {fds fds' : List Fd} {children : List Pid}

theorem Acquired.start (w : World σ) : Acquired w w [] [] := ⟨rfl, [], Holds.start w.log⟩

theorem Acquired.perm (h : Acquired w₀ w fds children) (hp : fds.Perm fds') :
    Acquired w₀ w fds' children := ⟨h.1, h.2.imp fun _ h => h.perm hp⟩

theorem Acquired.called (h : Acquired w₀ w fds children) (c : Call) :
    Acquired w₀ (w.emit (.called c)) fds children :=
  ⟨h.1, h.2.imp fun _ h => h.skip fun _ => rfl⟩

theorem Acquired.opened (h : Acquired w₀ w fds children) (fd : Fd) :
    Acquired w₀ (w.emit (.opened fd)) (fd :: fds) children :=
  ⟨h.1, h.2.imp fun _ h => h.opened fd⟩

theorem Acquired.forked (h : Acquired w₀ w fds children) (pid : Pid) :
    Acquired w₀ (w.emit (.forked pid)) fds (pid :: children) :=
  ⟨h.1, h.2.imp fun _ h => h.forked pid⟩

theorem Acquired.closed {fd : Fd} (h : Acquired w₀ w (fd :: fds) children) :
    Acquired w₀ (w.emit (.closed fd)) fds children := ⟨h.1, h.2.imp fun _ h => h.closed⟩

/-- A child is killed and waited for, whether or not the call succeeds. -/
theorem Acquired.reaped {pid : Pid} (h : Acquired w₀ w fds (pid :: children)) {e : Event}
    (he : e = .waitFailed pid ∨ ∃ status, e = .reaped pid status) :
    Acquired w₀ ((w.emit (.killSent (.process pid) .SIGKILL)).emit e) fds children := by
  obtain ⟨hst, killed, h⟩ := h
  refine ⟨hst, pid :: killed, ?_⟩
  have h' := h.reaped (.process pid) he
  simpa using h'

end Acquired

/-! ## The launcher -/

variable (K : Kernel) {w₀ w : World σ} {fds : List Fd} {children : List Pid}

theorem closeFds_spec {gone : List Fd} (h : Acquired w₀ w (gone ++ fds) children) :
    wp (closeFds gone) (fun r w' => r = .ok () ∧ Acquired w₀ w' fds children) w := by
  induction gone generalizing w with
  | nil => exact wp_pure ⟨rfl, h⟩
  | cons fd gone ih => exact wp_bind_ok (close_run w fd) (ih h.closed)

/-- A failure runs the cleanup. -/
theorem onFailure_spec {α : Type} {m : Prog σ α} {cleanup : Prog σ Unit}
    {R Q : Except Exception α → World σ → Prop} (hm : wp m R w)
    (hok : ∀ a w', R (.ok a) w' → Q (.ok a) w')
    (herror : ∀ e w', R (.error e) w' →
      wp cleanup (fun r w' => r = .ok () ∧ ∀ e, Q (.error e) w') w') :
    wp (onFailure m cleanup) Q w := by
  refine wp_tryCatch hm hok fun e w' hR => ?_
  refine wp_bind (herror e w' hR) (fun _ w'' h => wp_throw (h.2 e)) fun e' w'' h => ?_
  cases h.1

/-- Descriptors among the standard ones. -/
abbrev Standard (fds : List Fd) : Prop := ∀ fd ∈ fds, fd ≤ 2

/-- Standard descriptors besides what was held. -/
def MoreStandard (w₀ w : World σ) (fds : List Fd) (children : List Pid) : Prop :=
  ∃ std, Standard std ∧ Acquired w₀ w (fds ++ std) children

theorem ensureStandardDescriptor_spec {standardFd : Fd} (hstd : standardFd ≤ 2)
    (h : MoreStandard w₀ w [] []) :
    wp (ensureStandardDescriptor K standardFd) (fun _ w' => MoreStandard w₀ w' [] []) w := by
  obtain ⟨std, hs, h⟩ := h
  have hcons : Standard (standardFd :: std) := List.forall_mem_cons.mpr ⟨hstd, hs⟩
  unfold ensureStandardDescriptor
  refine wp_bind_ok (fcntlOn_run K w standardFd) ?_
  have h1 := h.called .fcntl
  cases K.fcntl w.log standardFd with
  | ok _ => exact wp_pure ⟨std, hs, h1⟩
  | error e =>
    simp only
    split_ifs with hbad
    · exact wp_throw ⟨std, hs, h1⟩
    obtain ⟨e, hopen⟩ | ⟨fd, hopen⟩ := openNullFd_run K (w.emit (.called .fcntl))
    · exact wp_bind_ok hopen (wp_throw ⟨std, hs, h1.called _⟩)
    refine wp_bind_ok hopen ?_
    have h2 := h1.opened fd
    simp only
    split_ifs with heq
    · subst heq
      exact wp_pure ⟨_, hcons, h2⟩
    obtain ⟨e, hdup⟩ | hdup := dup2Onto_run K ((w.emit (.called .fcntl)).emit (.opened fd)) standardFd
    · refine wp_bind_ok hdup (wp_bind_ok (close_run _ fd) ?_)
      exact wp_throw ⟨std, hs, (h2.called _).closed⟩
    · refine wp_bind_ok hdup (wp_of_run (close_run _ fd) ?_)
      exact ⟨_, hcons, ((h2.opened standardFd).perm (List.Perm.swap _ _ _)).closed⟩

theorem ensureStandardDescriptors_spec (h : MoreStandard w₀ w [] []) :
    wp (ensureStandardDescriptors K) (fun _ w' => MoreStandard w₀ w' [] []) w := by
  unfold ensureStandardDescriptors
  refine wp_bind (ensureStandardDescriptor_spec K (by decide) h) (fun _ w1 h1 => ?_) fun _ _ h => h
  refine wp_bind (ensureStandardDescriptor_spec K (by decide) h1) (fun _ w2 h2 => ?_) fun _ _ h => h
  exact ensureStandardDescriptor_spec K (by decide) h2

theorem openDevNull_spec (h : Acquired w₀ w fds children) :
    wp (openDevNull K) (fun r w' =>
      match r with
      | .ok fd => Acquired w₀ w' (fd :: fds) children
      | .error _ => Acquired w₀ w' fds children) w := by
  unfold openDevNull
  obtain ⟨e, hopen⟩ | ⟨fd, hopen⟩ := openNullFd_run K w
  · exact wp_bind_ok hopen (wp_throw (h.called _))
  · exact wp_bind_ok hopen (wp_pure (h.opened fd))

theorem createPipe_spec (h : Acquired w₀ w fds children) :
    wp (createPipe K) (fun r w' =>
      match r with
      | .ok p => Acquired w₀ w' (p.writeFd :: p.readFd :: fds) children
      | .error _ => Acquired w₀ w' fds children) w := by
  unfold createPipe
  obtain ⟨e, hopen⟩ | ⟨r, s, hopen⟩ := pipe2Fds_run K w
  · exact wp_bind_ok hopen (wp_throw (h.called _))
  · exact wp_bind_ok hopen (wp_pure ((h.opened r).opened s))

/-- A pipe, or none and the descriptors before it closed. -/
theorem createPipe_onFailure {gone : List Fd} (h : Acquired w₀ w (gone ++ fds) children) :
    wp (onFailure (createPipe K) (closeFds gone)) (fun r w' =>
      match r with
      | .ok p => Acquired w₀ w' (gone ++ [p.readFd, p.writeFd] ++ fds) children
      | .error _ => Acquired w₀ w' fds children) w := by
  refine onFailure_spec (createPipe_spec K h) (fun p w' h' => h'.perm ?_) fun e w' h' => ?_
  · rw [List.append_assoc]
    refine (List.Perm.swap _ _ _).trans ?_
    exact (List.perm_append_comm_assoc gone [p.readFd, p.writeFd] fds).symm
  · exact wp_mono (closeFds_spec h') fun r w'' hr => ⟨hr.1, fun _ => hr.2⟩

/-- The eight descriptors of a launch in the order they are opened. -/
def LaunchFds.all (fds : LaunchFds) : List Fd :=
  [fds.devNullFd, fds.stdoutPipe.readFd, fds.stdoutPipe.writeFd, fds.stderrPipe.readFd,
    fds.stderrPipe.writeFd, fds.startupErrorPipe.readFd, fds.startupErrorPipe.writeFd]

theorem openLaunchFds_spec (h : MoreStandard w₀ w [] []) :
    wp (openLaunchFds K) (fun r w' =>
      match r with
      | .ok fds => MoreStandard w₀ w' fds.all []
      | .error _ => MoreStandard w₀ w' [] []) w := by
  obtain ⟨std, hs, h⟩ := h
  unfold openLaunchFds
  refine wp_bind (openDevNull_spec K h) (fun devNullFd w1 h1 => ?_) fun _ _ h => ⟨std, hs, h⟩
  have h1 : Acquired w₀ w1 ([devNullFd] ++ std) [] := h1
  refine wp_bind (createPipe_onFailure K h1) (fun stdoutPipe w2 h2 => ?_)
    fun _ _ h => ⟨std, hs, h⟩
  refine wp_bind (createPipe_onFailure K h2) (fun stderrPipe w3 h3 => ?_) fun _ _ h => ⟨std, hs, h⟩
  refine wp_bind (createPipe_onFailure K h3) (fun startupErrorPipe w4 h4 => ?_)
    fun _ _ h => ⟨std, hs, h⟩
  exact wp_pure ⟨std, hs, h4⟩

theorem setParentProcessGroup_spec (h : Acquired w₀ w fds children) :
    wp (setParentProcessGroup K) (fun _ w' => Acquired w₀ w' fds children) w := by
  unfold setParentProcessGroup
  refine wp_bind_ok (setpgidChild_run K w) ?_
  cases K.setpgid w.log with
  | ok _ => exact wp_pure (h.called _)
  | error e =>
    simp only
    split_ifs
    · exact wp_pure (h.called _)
    · exact wp_throw (h.called _)

theorem setNonBlocking_spec {fd : Fd} (h : Acquired w₀ w fds children) :
    wp (setNonBlocking K fd) (fun _ w' => Acquired w₀ w' fds children) w := by
  unfold setNonBlocking
  refine wp_bind_ok (fcntlOn_run K w fd) ?_
  cases K.fcntl w.log fd with
  | error e => exact wp_throw (h.called _)
  | ok _ =>
    simp only
    refine wp_bind_ok (fcntlOn_run K _ fd) ?_
    cases K.fcntl (w.emit (.called .fcntl)).log fd with
    | error e => exact wp_throw ((h.called _).called _)
    | ok _ => exact wp_pure ((h.called _).called _)

theorem configureChild_spec {launchFds : LaunchFds} {pid : Pid}
    (h : Acquired w₀ w fds children) :
    wp (configureChild K launchFds pid) (fun r w' => Acquired w₀ w' fds children ∧
      ∀ launched, r = .ok launched → launched = {
        pid, processGroupId := pid, stdoutFd := launchFds.stdoutPipe.readFd
        stderrFd := launchFds.stderrPipe.readFd
        startupErrorFd := launchFds.startupErrorPipe.readFd }) w := by
  have hstop : ∀ (e : Exception) (w' : World σ), Acquired w₀ w' fds children →
      Acquired w₀ w' fds children ∧ ∀ launched, (.error e : Except Exception LaunchedProcess) =
        .ok launched → launched = {
          pid, processGroupId := pid, stdoutFd := launchFds.stdoutPipe.readFd
          stderrFd := launchFds.stderrPipe.readFd
          startupErrorFd := launchFds.startupErrorPipe.readFd } :=
    fun e w' h' => ⟨h', fun _ hr => by cases hr⟩
  unfold configureChild
  refine wp_bind (setParentProcessGroup_spec K h) (fun _ w1 h1 => ?_) hstop
  refine wp_bind (setNonBlocking_spec K h1) (fun _ w2 h2 => ?_) hstop
  refine wp_bind (setNonBlocking_spec K h2) (fun _ w3 h3 => ?_) hstop
  refine wp_bind (setNonBlocking_spec K h3) (fun _ w4 h4 => ?_) hstop
  exact wp_pure ⟨h4, fun launched hr => (Except.ok.inj hr).symm⟩

theorem killAndReapChild_spec {pid : Pid} (h : Acquired w₀ w fds (pid :: children)) :
    wp (killAndReapChild K pid) (fun r w' => r = .ok () ∧ Acquired w₀ w' fds children) w := by
  unfold killAndReapChild
  refine wp_bind_ok (killDiscarded_run w _ _) ?_
  obtain hwait | ⟨status, hwait⟩ :=
    waitForChild_run K (w.emit (.killSent (.process pid) .SIGKILL)) pid
  · exact wp_of_run hwait ⟨rfl, h.reaped (Or.inl rfl)⟩
  · exact wp_of_run hwait ⟨rfl, h.reaped (Or.inr ⟨status, rfl⟩)⟩

/-- A launch returns a child, its group and the ends of its three pipes, or gives back all it
has. -/
theorem launchProcess_spec (spec : JobSpec) :
    wp (launchProcess K spec) (fun r w' =>
      match r with
      | .ok launched => launched.processGroupId = launched.pid ∧ MoreStandard w w'
          [launched.stdoutFd, launched.stderrFd, launched.startupErrorFd] [launched.pid]
      | .error _ => MoreStandard w w' [] []) w := by
  have hnone : MoreStandard w w [] [] := ⟨[], List.forall_mem_nil _, Acquired.start w⟩
  unfold launchProcess
  refine wp_bind (R := fun _ w' => MoreStandard w w' [] []) (wp_ofExcept hnone) (fun _ w1 h1 => ?_)
    fun _ _ h => h
  refine wp_bind (ensureStandardDescriptors_spec K h1) (fun _ w2 h2 => ?_) fun _ _ h => h
  refine wp_bind (openLaunchFds_spec K h2) (fun fds w3 h3 => ?_) fun _ _ h => h
  obtain ⟨std, hs, h3⟩ := h3
  obtain ⟨e, hfork⟩ | ⟨pid, hfork⟩ := forkChild_run K w3
  · refine wp_bind_ok hfork ?_
    refine wp_bind (closeFds_spec (h3.called .fork)) (fun _ w4 h4 => ?_) fun _ _ h => by cases h.1
    exact wp_throw ⟨std, hs, h4.2⟩
  refine wp_bind_ok hfork ?_
  have hperm : (fds.all ++ std).Perm
      ([fds.devNullFd, fds.stdoutPipe.writeFd, fds.stderrPipe.writeFd,
        fds.startupErrorPipe.writeFd] ++ ([fds.stdoutPipe.readFd, fds.stderrPipe.readFd,
          fds.startupErrorPipe.readFd] ++ std)) := by
    refine List.perm_iff_count.mpr fun fd => ?_
    simp only [LaunchFds.all, List.count_append, List.count_cons, List.count_nil]
    ring
  refine wp_bind (closeFds_spec ((h3.forked pid).perm hperm)) (fun _ w4 h4 => ?_)
    fun _ _ h => by cases h.1
  refine onFailure_spec (configureChild_spec K h4.2) (fun launched w5 h5 => ?_) fun e w5 h5 => ?_
  · obtain rfl := h5.2 launched rfl
    exact ⟨rfl, std, hs, h5.1⟩
  · refine wp_bind (closeFds_spec h5.1) (fun _ w6 h6 => ?_) fun _ _ h => by cases h.1
    exact wp_mono (killAndReapChild_spec K h6.2) fun r w7 h7 => ⟨h7.1, fun _ => ⟨std, hs, h7.2⟩⟩

/-- A launch that holds no child has sent each child it forked SIGKILL, and waited for it. -/
theorem MoreStandard.killed (h : MoreStandard w₀ w fds []) :
    ∃ events, w.log = w₀.log ++ events ∧ ∀ pid, .forked pid ∈ events →
      .killSent (.process pid) .SIGKILL ∈ events ∧ WaitedFor events pid := by
  obtain ⟨std, -, -, killed, events, held, hlog, hrun, -, hchildren, hkilled⟩ := h
  refine ⟨events, hlog, fun pid hforked => ?_⟩
  obtain hheld | ⟨hwaited, hmem⟩ := Holdings.waitedFor_of_run hrun (Or.inr hforked)
  · rw [hchildren] at hheld
    cases hheld
  · refine ⟨?_, hwaited⟩
    obtain ⟨target, htarget, rfl⟩ := List.mem_map.mp hmem
    have hprocess := htarget
    rw [hkilled] at hprocess
    obtain ⟨child, -, rfl⟩ := List.mem_map.mp hprocess
    exact (Holdings.killed_of_run hrun htarget).resolve_left List.not_mem_nil

end Runnerd
