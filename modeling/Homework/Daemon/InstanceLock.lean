import Homework.Daemon.Processes

/-!
# The lock of the instance

The lock is taken before the forks and before all descriptors are closed. A process that is
forked does not have it, and one that closes the descriptor loses it. So a process that serves
has the lock only if it took it itself, could not fork and kept the descriptor.
-/

namespace Homework.Daemon

set_option autoImplicit false

def Protected (s : State) : Prop := ∀ p, (s.procs p).pc = .serving → s.owner = some p

theorem Protected.one {s : State} (h : Protected s) {p q : Nat}
    (hp : (s.procs p).pc = .serving) (hq : (s.procs q).pc = .serving) : p = q := by
  have heq := (h p hp).symm.trans (h q hq)
  exact Option.some.inj heq

/-- The process was granted the lock itself, and the loop of `daemonize` stopped before it
came to the descriptor of the file. -/
def Shielded (past : List Event) (p : Nat) : Prop :=
  ∃ fd limit, Event.lock p fd true ∈ past ∧ Event.closeAll p limit ∈ past ∧ limit ≤ fd

theorem Shielded.append {past : List Event} {p : Nat} (h : Shielded past p) (more : List Event) :
    Shielded (past ++ more) p := by
  obtain ⟨fd, limit, hlock, hclose, hle⟩ := h
  exact ⟨fd, limit, List.mem_append_left _ hlock, List.mem_append_left _ hclose, hle⟩

/-- What the events so far say of a process, by where it stands. -/
structure Consistent (past : List Event) (owner : Option Nat) (p : Nat) (proc : Process) :
    Prop where
  starting : proc.pc = .absent ∨ proc.pc = .alreadyRunning → owner ≠ some p ∧
    (∀ fd granted, Event.lock p fd granted ∉ past) ∧ ∀ limit, Event.closeAll p limit ∉ past
  daemonizing : proc.pc = .fork1 ∨ proc.pc = .fork2 ∨ proc.pc = .closing →
    (∀ limit, Event.closeAll p limit ∉ past) ∧ (owner = some p → proc.lockFd ≠ none) ∧
      ∀ fd, Event.lock p fd true ∈ past ↔ owner = some p ∧ proc.lockFd = some fd
  running : proc.pc = .binding ∨ proc.pc = .serving → (owner = some p ↔ Shielded past p)
  bound : proc.pc = .serving → Event.bind p true ∈ past

/-- Only these events change what is known of a process. -/
def Event.Tells (p : Nat) : Event → Prop
  | .lock q _ _ => q = p
  | .closeAll q _ => q = p
  | _ => False

theorem Consistent.frame {past : List Event} {owner owner' : Option Nat} {p : Nat}
    {proc : Process} {e : Event} (h : Consistent past owner p proc) (he : ¬ e.Tells p)
    (howner : owner' = some p ↔ owner = some p) : Consistent (past ++ [e]) owner' p proc := by
  have hlock : ∀ fd granted, Event.lock p fd granted ∈ past ++ [e] ↔
      Event.lock p fd granted ∈ past := by
    intro fd granted
    rw [List.mem_append, List.mem_singleton, or_iff_left]
    rintro rfl
    exact he rfl
  have hclose : ∀ limit, Event.closeAll p limit ∈ past ++ [e] ↔ Event.closeAll p limit ∈ past := by
    intro limit
    rw [List.mem_append, List.mem_singleton, or_iff_left]
    rintro rfl
    exact he rfl
  have hshielded : Shielded (past ++ [e]) p ↔ Shielded past p := by
    simp only [Shielded, hlock, hclose]
  refine ⟨fun hpc => ?_, fun hpc => ?_, fun hpc => ?_, fun hpc => ?_⟩
  · simpa only [hlock, hclose, howner, ne_eq] using h.starting hpc
  · simpa only [hlock, hclose, howner] using h.daemonizing hpc
  · rw [hshielded, howner]
    exact h.running hpc
  · exact List.mem_append_left _ (h.bound hpc)

theorem unlock_owner_iff (s : State) {p q : Nat} (hq : q ≠ p) :
    (s.unlock p).owner = some q ↔ s.owner = some q := by
  unfold State.unlock
  dsimp only
  split
  · rename_i howner
    simp [howner, Ne.symm hq]
  · rfl

theorem unlock_owner_ne (s : State) (p : Nat) : (s.unlock p).owner ≠ some p := by
  unfold State.unlock
  dsimp only
  split
  · simp
  · assumption

structure Traced (past : List Event) (s : State) : Prop where
  unborn : ∀ p, s.nextId ≤ p → (s.procs p).pc = .absent
  consistent : ∀ p, Consistent past s.owner p (s.procs p)

theorem traced_init : Traced [] init where
  unborn _ _ := rfl
  consistent p := ⟨fun _ => ⟨by simp [init], by simp, by simp⟩, by simp [init], by simp [init],
    by simp [init]⟩

namespace Traced
variable {past : List Event} {s : State}

theorem lt_nextId (h : Traced past s) {p : Nat} (hp : (s.procs p).pc ≠ .absent) :
    p < s.nextId := by
  by_contra hge
  exact hp (h.unborn p (by omega))

/-- A step that changes one process and leaves the lock of the others alone. -/
theorem setProc (h : Traced past s) {p : Nat} {proc : Process} {e : Event} {owner : Option Nat}
    (hp : p < s.nextId) (he : ∀ q, q ≠ p → ¬ e.Tells q)
    (howner : ∀ q, q ≠ p → (owner = some q ↔ s.owner = some q))
    (hproc : Consistent (past ++ [e]) owner p proc) :
    Traced (past ++ [e]) { s.setProc p proc with owner } where
  unborn q hq := by
    have hne : q ≠ p := by
      rintro rfl
      exact absurd hp (Nat.not_lt.mpr hq)
    simpa [State.setProc, hne] using h.unborn q hq
  consistent q := by
    by_cases hq : q = p
    · rw [hq]
      simpa [State.setProc] using hproc
    · have hother := (h.consistent q).frame (he q hq) (howner q hq)
      simpa [State.setProc, hq] using hother

/-- A new process is one that no event tells of. -/
theorem spawn (h : Traced past s) {proc : Process}
    (hproc : proc.pc ≠ .binding ∧ proc.pc ≠ .serving) : Traced past (s.spawn proc) where
  unborn q hq := by
    have hle : s.nextId + 1 ≤ q := hq
    have hne : q ≠ s.nextId := by omega
    simpa [State.spawn, State.setProc, hne] using h.unborn q (by omega)
  consistent q := by
    by_cases hq : q = s.nextId
    · obtain ⟨howner, hlock, hclose⟩ :=
        (h.consistent q).starting (Or.inl (h.unborn q (Nat.le_of_eq hq.symm)))
      have hspawn : (s.spawn proc).procs q = proc := by simp [State.spawn, State.setProc, hq]
      rw [hspawn]
      refine ⟨fun _ => ⟨howner, hlock, hclose⟩, fun _ => ⟨hclose, fun h => absurd h howner, ?_⟩,
        fun hpc => ?_, fun hpc => absurd hpc hproc.2⟩
      · exact fun fd => ⟨fun h => absurd h (hlock fd true), fun h => absurd h.1 howner⟩
      · exact hpc.elim (fun h => absurd h hproc.1) fun h => absurd h hproc.2
    · have hspawn : (s.spawn proc).procs q = s.procs q := by simp [State.spawn, State.setProc, hq]
      rw [hspawn]
      exact h.consistent q

theorem append (h : Traced past s) {e : Event} (he : ∀ p, ¬ e.Tells p) :
    Traced (past ++ [e]) s where
  unborn := h.unborn
  consistent p := (h.consistent p).frame (he p) Iff.rfl

theorem leave (h : Traced past s) {p : Nat} (hp : p < s.nextId) {e : Event}
    (he : ∀ q, ¬ e.Tells q) : Traced (past ++ [e]) (Daemon.leave s p) := by
  apply h.setProc hp fun q _ => he q
  · exact fun q hq => unlock_owner_iff s hq
  · exact ⟨by simp, by simp, by simp, by simp⟩

theorem lockStep (h : Traced past s) {p fd : Nat} {granted : Bool}
    (hpc : (s.procs p).pc = .alreadyRunning)
    (hgranted : granted = true ↔ s.owner = none ∨ s.owner = some p) :
    Traced (past ++ [.lock p fd granted]) (Daemon.lockStep s p fd granted) := by
  have hp := h.lt_nextId (p := p) (by simp [hpc])
  have he : ∀ q, q ≠ p → ¬ (Event.lock p fd granted).Tells q := fun q hq h => hq h.symm
  obtain ⟨howner, hlock, hclose⟩ := (h.consistent p).starting (Or.inr hpc)
  unfold Daemon.lockStep
  split
  · rename_i hyes
    apply h.setProc hp he
    · intro q hq
      have hne : s.owner ≠ some q := by
        rcases hgranted.mp hyes with hnone | hsome
        · simp [hnone]
        · simp [hsome, Ne.symm hq]
      simp [hne, Ne.symm hq]
    · refine ⟨by simp, fun _ => ⟨by simp [hclose], by simp, fun fd' => ?_⟩, by simp, by simp⟩
      simp [hlock, hyes, eq_comm]
  · apply h.setProc hp he fun q _ => Iff.rfl
    refine ⟨by simp, by simp, fun _ => ⟨fun h => absurd h howner, ?_⟩, by simp⟩
    rintro ⟨fd', limit, -, hlimit, -⟩
    simp [hclose] at hlimit

theorem forkStep (h : Traced past s) {p : Nat} {next : Pc} {ok : Bool}
    (hpc : (s.procs p).pc = .fork1 ∨ (s.procs p).pc = .fork2)
    (hnext : next = .fork2 ∨ next = .closing) :
    Traced (past ++ [.fork p ok]) (Daemon.forkStep s p next ok) := by
  have hp := h.lt_nextId (p := p) (by rcases hpc with h | h <;> simp [h])
  have he : ∀ q, ¬ (Event.fork p ok).Tells q := fun q h => h
  unfold Daemon.forkStep
  dsimp only
  split
  · have hparent : Traced (past ++ [.fork p ok]) (s.setProc p ⟨.exiting, (s.procs p).lockFd⟩) :=
      h.setProc hp (fun q _ => he q) (fun q _ => Iff.rfl) ⟨by simp, by simp, by simp, by simp⟩
    apply hparent.spawn
    rcases hnext with rfl | rfl <;> simp
  · apply h.setProc hp (fun q _ => he q) fun q _ => Iff.rfl
    have hsame := (h.append he).consistent p
    refine ⟨?_, fun _ => ?_, ?_, ?_⟩
    · rcases hnext with rfl | rfl <;> simp
    · exact hsame.daemonizing (hpc.imp_right Or.inl)
    · rcases hnext with rfl | rfl <;> simp
    · rcases hnext with rfl | rfl <;> simp

theorem closeAll (h : Traced past s) {p limit : Nat} (hpc : (s.procs p).pc = .closing) :
    Traced (past ++ [.closeAll p limit]) (Daemon.closeAll s p limit) := by
  have hp := h.lt_nextId (p := p) (by simp [hpc])
  have he : ∀ q, q ≠ p → ¬ (Event.closeAll p limit).Tells q := fun q hq h => hq h.symm
  obtain ⟨hclose, hfd, hlock⟩ := (h.consistent p).daemonizing (Or.inr (Or.inr hpc))
  have hshielded : Shielded (past ++ [.closeAll p limit]) p ↔
      ∃ fd, (s.owner = some p ∧ (s.procs p).lockFd = some fd) ∧ limit ≤ fd := by
    simp only [Shielded, List.mem_append, List.mem_singleton, hclose, hlock, false_or,
      reduceCtorEq, or_false, Event.closeAll.injEq, true_and]
    constructor
    · rintro ⟨fd, limit', hown, rfl, hle⟩
      exact ⟨fd, hown, hle⟩
    · rintro ⟨fd, hown, hle⟩
      exact ⟨fd, limit, hown, rfl, hle⟩
  unfold Daemon.closeAll
  split
  · rename_i hclosed
    apply h.setProc hp he fun q hq => unlock_owner_iff s hq
    refine ⟨by simp, by simp, fun _ => ?_, by simp⟩
    rw [hshielded]
    constructor
    · exact fun hown => absurd hown (unlock_owner_ne s p)
    · rintro ⟨fd, ⟨-, hsome⟩, hle⟩
      obtain ⟨fd', hmem, hlt⟩ := hclosed
      rw [hsome] at hmem
      cases hmem
      omega
  · rename_i hkept
    apply h.setProc hp he fun q _ => Iff.rfl
    refine ⟨by simp, by simp, fun _ => ?_, by simp⟩
    rw [hshielded]
    constructor
    · intro hown
      obtain ⟨fd, hsome⟩ := Option.ne_none_iff_exists'.mp (hfd hown)
      exact ⟨fd, ⟨hown, hsome⟩, Nat.le_of_not_lt fun hlt => hkept ⟨fd, hsome, hlt⟩⟩
    · exact fun ⟨fd, hown, _⟩ => hown.1

theorem bindStep (h : Traced past s) {p : Nat} {ok : Bool} (hpc : (s.procs p).pc = .binding) :
    Traced (past ++ [.bind p ok]) (Daemon.bindStep s p ok) := by
  have hp := h.lt_nextId (p := p) (by simp [hpc])
  have he : ∀ q, ¬ (Event.bind p ok).Tells q := fun q h => h
  unfold Daemon.bindStep
  split
  · rename_i hok
    apply h.setProc hp (fun q _ => he q) fun q _ => Iff.rfl
    have hsame := (h.append he).consistent p
    exact ⟨by simp, by simp, fun _ => hsame.running (Or.inl hpc), fun _ => by simp [hok]⟩
  · exact h.leave hp he

theorem step (h : Traced past s) {e : Event} (hkernel : Kernel s e) :
    Traced (past ++ [e]) (Daemon.step s e) := by
  cases e with
  | start =>
    have happend : Traced (past ++ [.start]) s := h.append fun _ h => h
    exact happend.spawn (by simp)
  | lock p fd granted => exact h.lockStep hkernel.1 hkernel.2
  | fork p ok =>
    apply h.forkStep hkernel
    split
    · exact Or.inl rfl
    · exact Or.inr rfl
  | closeAll p limit => exact h.closeAll hkernel
  | bind p ok => exact h.bindStep hkernel
  | exit p => exact h.leave (h.lt_nextId hkernel.1) fun _ h => h

end Traced

theorem traced_run {events : List Event} (hkernel : Along step Kernel init events) :
    Traced events (run step init events) :=
  run_history_invariant (fun _ _ _ h hok => h.step hok) traced_init hkernel

/-- A process that serves is protected by the lock only if its start could not fork and kept
the descriptor, which no start that has become a daemon does. -/
theorem lock_protects_iff {events : List Event} (hkernel : Along step Kernel init events) :
    (∀ past, past <+: events → Protected (run step init past)) ↔
      ∀ past p rest, events = past ++ .bind p true :: rest → Shielded past p := by
  constructor
  · intro h past p rest hevents
    have hbound : past ++ [.bind p true] <+: events := ⟨rest, by simp [hevents]⟩
    obtain ⟨-, hpc, -⟩ := (along_append step Kernel init past _).mp (hkernel.of_prefix hbound)
    have htraced := traced_run (hkernel.of_prefix hbound)
    have hserving : ((run step init (past ++ [.bind p true])).procs p).pc = .serving := by
      rw [run_append]
      simp [step, bindStep, State.setProc]
    have hshielded := ((htraced.consistent p).running (Or.inr hserving)).mp (h _ hbound p hserving)
    obtain ⟨fd, limit, hlock, hclose, hle⟩ := hshielded
    exact ⟨fd, limit, by simpa using hlock, by simpa using hclose, hle⟩
  · intro h past hpast p hserving
    have htraced := traced_run (hkernel.of_prefix hpast)
    obtain ⟨before, after, rfl⟩ := List.append_of_mem ((htraced.consistent p).bound hserving)
    obtain ⟨rest, hevents⟩ := hpast
    have hshielded := h before p (after ++ rest) (by simp [← hevents])
    exact ((htraced.consistent p).running (Or.inr hserving)).mpr (hshielded.append _)

/-- One start that becomes a daemon: both parents exit, the child closes its descriptors. -/
def daemonized : List Event :=
  [.start, .lock 0 3 true, .fork 0 true, .exit 0, .fork 1 true, .exit 1, .closeAll 2 1024,
    .bind 2 true]

theorem kernel_daemonized : Along step Kernel init daemonized :=
  ⟨trivial, ⟨rfl, by decide⟩, Or.inl rfl, ⟨by decide, by decide⟩, Or.inr rfl,
    ⟨by decide, by decide⟩, rfl, rfl, trivial⟩

theorem lock_protects_iff_of_one_start :
    (∀ past, past <+: daemonized → Protected (run step init past)) ↔
      ∀ past p rest, daemonized = past ++ .bind p true :: rest → Shielded past p :=
  lock_protects_iff kernel_daemonized

/-- The daemon serves, and nobody has the lock. -/
theorem daemon_serves_without_the_lock : ¬ ∀ events, Along step Kernel init events →
    ∀ past, past <+: events → Protected (run step init past) := by
  intro h
  have howner := h daemonized kernel_daemonized daemonized (List.prefix_refl _) 2 rfl
  cases howner

end Homework.Daemon
