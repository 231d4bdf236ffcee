import Mathlib.Data.List.Perm.Subperm
import Homework.Daemon.Processes

/-!
# The socket file

What keeps the instances of `hw08-daemon/main.c` apart is not the lock: `bind` fails while the
socket file is there. A server removes the file when its loop around `accept` ends, and the
handler of `SIGQUIT` removes it at once. A signal that comes while `accept` waits makes it fail, so
that the loop ends too, but later. One that comes elsewhere leaves a server without a file, beside
which another one can start.

The name of the file is absolute, so that it is one file for all. A process exits without removing
it if it is killed, or if `bind` fails.
-/

namespace Homework.Daemon

set_option autoImplicit false

/-- The processes, which of them have the handler, and whose socket the file is. -/
structure Site where
  sys : State
  handled : Nat → Bool
  file : Option Nat

namespace Site

def init : Site where
  sys := Daemon.init
  handled := fun _ => false
  file := none

inductive Event where
  | process (e : Daemon.Event)
  /-- A start with `Daemonize=no`, which takes no lock and installs no handler. -/
  | foreground
  /-- `accept` fails, also because of a signal. -/
  | acceptError (p : Nat)
  | sigquit (p : Nat)
  /-- The file is removed from outside. -/
  | remove

/-- The handler is installed behind the first `fork` and inherited through the second one. -/
def handlers (s : Site) : Daemon.Event → Nat → Bool
  | .fork p ok => Function.update s.handled (if ok then s.sys.nextId else p) true
  | _ => s.handled

def fileAfter (s : Site) : Daemon.Event → Option Nat
  | .bind p true => some p
  | _ => s.file

def sigquitHandler (s : Site) : Site := { s with file := none }

/-- What comes behind the loop of `run_unix_socket`. -/
def endLoop (s : Site) (p : Nat) : Site := { s with sys := leave s.sys p, file := none }

def step (s : Site) : Event → Site
  | .process e => { sys := Daemon.step s.sys e, handled := handlers s e, file := fileAfter s e }
  | .foreground => { s with sys := s.sys.spawn ⟨.binding, none⟩ }
  | .acceptError p => s.endLoop p
  | .sigquit _ => s.sigquitHandler
  | .remove => { s with file := none }

def Serving (s : Site) (p : Nat) : Prop := (s.sys.procs p).pc = .serving

/-- `bind` succeeds only where there is no file. A signal without the handler kills, which is an
exit of the process. -/
def Kernel (s : Site) : Event → Prop
  | .process e => Daemon.Kernel s.sys e ∧ ∀ p, e = .bind p true → s.file = none
  | .foreground => True
  | .acceptError p => s.Serving p
  | .sigquit p => (s.sys.procs p).pc ≠ .absent ∧ (s.sys.procs p).pc ≠ .exited ∧
      s.handled p = true
  | .remove => True

/-- The file is removed, whoever has it, and nobody ends. -/
def Event.cutsOff : Event → Bool
  | .sigquit _ => true
  | .remove => true
  | _ => false

/-! ## Who serves -/

theorem procs_setProc_self (sys : State) (p : Nat) (proc : Process) :
    (sys.setProc p proc).procs p = proc := Function.update_self ..

theorem procs_setProc_of_ne (sys : State) {p q : Nat} (hq : q ≠ p) (proc : Process) :
    (sys.setProc p proc).procs q = sys.procs q := Function.update_of_ne hq ..

theorem serving_setProc {sys : State} {p q : Nat} {proc : Process} (hproc : proc.pc ≠ .serving)
    (h : ((sys.setProc p proc).procs q).pc = .serving) : (sys.procs q).pc = .serving := by
  by_cases hq : q = p
  · rw [hq, procs_setProc_self] at h
    exact absurd h hproc
  · rwa [procs_setProc_of_ne sys hq] at h

theorem serving_spawn {sys : State} {q : Nat} {proc : Process} (hproc : proc.pc ≠ .serving)
    (h : ((sys.spawn proc).procs q).pc = .serving) : (sys.procs q).pc = .serving :=
  serving_setProc hproc h

theorem serving_leave {sys : State} {p q : Nat} (h : ((leave sys p).procs q).pc = .serving) :
    q ≠ p ∧ (sys.procs q).pc = .serving := by
  refine ⟨?_, @serving_setProc (sys.unlock p) p q ⟨.exited, none⟩ (by simp) h⟩
  rintro rfl
  rw [leave, procs_setProc_self] at h
  cases h

/-- A process comes to serve only by binding. -/
theorem serving_process {sys : State} {e : Daemon.Event} {q : Nat}
    (h : ((Daemon.step sys e).procs q).pc = .serving) :
    e = .bind q true ∨ (sys.procs q).pc = .serving := by
  cases e with
  | start => exact Or.inr (serving_spawn (by simp) h)
  | lock p fd granted =>
    dsimp only [Daemon.step, lockStep] at h
    split at h
    · exact Or.inr (serving_setProc (by simp) h)
    · exact Or.inr (serving_setProc (by simp) h)
  | fork p ok =>
    have hnext : (if (sys.procs p).pc = .fork1 then Pc.fork2 else .closing) ≠ .serving := by
      split <;> simp
    dsimp only [Daemon.step, forkStep] at h
    split at h
    · exact Or.inr (serving_setProc (by simp) (serving_spawn hnext h))
    · exact Or.inr (serving_setProc hnext h)
  | closeAll p limit =>
    dsimp only [Daemon.step, Daemon.closeAll] at h
    split at h
    · exact Or.inr (@serving_setProc (sys.unlock p) p q ⟨.binding, none⟩ (by simp) h)
    · exact Or.inr (serving_setProc (by simp) h)
  | bind p ok =>
    cases ok with
    | true =>
      by_cases hq : q = p
      · exact Or.inl (by rw [hq])
      · dsimp only [Daemon.step, bindStep] at h
        rw [if_pos rfl, procs_setProc_of_ne sys hq] at h
        exact Or.inr h
    | false => exact Or.inr (serving_leave h).2
  | exit p => exact Or.inr (serving_leave h).2

/-! ## How many serve -/

/-- The processes in `lost` serve, if at all, without the file. -/
def Accounted (s : Site) (lost : List Nat) : Prop :=
  ∀ p, s.Serving p → s.file = some p ∨ p ∈ lost

section Account
variable {s : Site} {lost : List Nat}

/-- Whoever has the file loses it. -/
theorem Accounted.sigquitHandler (h : s.Accounted lost) :
    s.sigquitHandler.Accounted (s.file.toList ++ lost) := by
  intro p hp
  apply Or.inr
  rcases h p hp with hfile | hlost
  · exact List.mem_append_left _ (by simp [hfile])
  · exact List.mem_append_right _ hlost

/-- A server that ends either has the file itself or makes room for the one that has it. -/
theorem Accounted.endLoop (h : s.Accounted lost) {p : Nat} (hp : s.Serving p) :
    ∃ lost', lost'.length ≤ lost.length ∧ (s.endLoop p).Accounted lost' := by
  by_cases hfile : s.file = some p
  · refine ⟨lost, le_rfl, fun q hq => ?_⟩
    obtain ⟨hne, hserving⟩ := serving_leave hq
    refine Or.inr ((h q hserving).resolve_left fun heq => hne ?_)
    exact Option.some.inj (heq.symm.trans hfile)
  · have hlost := (h p hp).resolve_left hfile
    refine ⟨s.file.toList ++ lost.erase p, ?_, fun q hq => Or.inr ?_⟩
    · have hpos := List.length_pos_of_mem hlost
      have hone : s.file.toList.length ≤ 1 := by
        cases s.file <;> simp
      rw [List.length_append, List.length_erase_of_mem hlost]
      omega
    · obtain ⟨hne, hserving⟩ := serving_leave hq
      rcases h q hserving with heq | hmem
      · exact List.mem_append_left _ (by simp [heq])
      · exact List.mem_append_right _ ((List.mem_erase_of_ne hne).mpr hmem)

theorem Accounted.process (h : s.Accounted lost) {e : Daemon.Event}
    (hfile : ∀ p, e = .bind p true → s.file = none) : (s.step (.process e)).Accounted lost := by
  intro q hq
  rcases serving_process hq with rfl | hserving
  · exact Or.inl rfl
  · by_cases hbind : ∃ p, e = .bind p true
    · obtain ⟨p, rfl⟩ := hbind
      refine Or.inr ((h q hserving).resolve_left ?_)
      rw [hfile p rfl]
      simp
    · have hsame : (s.step (.process e)).file = s.file := by
        dsimp only [step, fileAfter]
        split
        · rename_i p
          exact absurd ⟨p, rfl⟩ hbind
        · rfl
      rw [hsame]
      exact h q hserving

theorem Accounted.step (h : s.Accounted lost) {e : Event} (hkernel : Kernel s e) :
    ∃ lost', lost'.length ≤ lost.length + e.cutsOff.toNat ∧ (s.step e).Accounted lost' := by
  have hone : s.file.toList.length ≤ 1 := by
    cases s.file <;> simp
  cases e with
  | process e => exact ⟨lost, Nat.le_add_right _ _, h.process hkernel.2⟩
  | foreground =>
    refine ⟨lost, Nat.le_add_right _ _, fun q hq => h q ?_⟩
    exact serving_spawn (by simp) hq
  | acceptError p => exact h.endLoop hkernel
  | sigquit p =>
    refine ⟨s.file.toList ++ lost, ?_, h.sigquitHandler⟩
    rw [List.length_append, Event.cutsOff, Bool.toNat_true]
    omega
  | remove =>
    refine ⟨s.file.toList ++ lost, ?_, h.sigquitHandler⟩
    rw [List.length_append, Event.cutsOff, Bool.toNat_true]
    omega

theorem accounted_init : init.Accounted [] := fun _ hp => nomatch hp

theorem accounted_run {events : List Event} (hkernel : Along step Kernel init events) :
    ∃ lost, lost.length ≤ events.countP Event.cutsOff ∧
      (run step init events).Accounted lost := by
  have hstep : ∀ (past : List Event) (s : Site) (e : Event),
      (∃ lost, lost.length ≤ past.countP Event.cutsOff ∧ s.Accounted lost) → Kernel s e →
      ∃ lost, lost.length ≤ (past ++ [e]).countP Event.cutsOff ∧ (s.step e).Accounted lost := by
    rintro past s e ⟨lost, hlength, haccounted⟩ hok
    obtain ⟨lost', hlength', haccounted'⟩ := haccounted.step hok
    have hone : [e].countP Event.cutsOff = e.cutsOff.toNat := by
      cases hcuts : e.cutsOff <;> simp [hcuts]
    refine ⟨lost', ?_, haccounted'⟩
    rw [List.countP_append, hone]
    omega
  exact run_history_invariant hstep ⟨[], Nat.zero_le _, accounted_init⟩ hkernel

end Account

/-! ## What the file says -/

/-- In every run, whatever the lock does, at most one process serves, and it is the one that the
file leads to, but for one more process for every `SIGQUIT` that was handled and every time that
the file was removed from outside. -/
theorem servers_are_counted {events : List Event} (hkernel : Along step Kernel init events) :
    (∀ ps : List Nat, ps.Nodup → (∀ p ∈ ps, (run step init events).Serving p) →
      ps.length ≤ 1 + events.countP Event.cutsOff) ∧
    (events.countP Event.cutsOff = 0 → ∀ p, (run step init events).Serving p →
      (run step init events).file = some p) := by
  obtain ⟨lost, hlength, haccounted⟩ := accounted_run hkernel
  constructor
  · intro ps hnodup hserving
    have hsub : ps ⊆ (run step init events).file.toList ++ lost := by
      intro p hp
      rcases haccounted p (hserving p hp) with hfile | hlost
      · exact List.mem_append_left _ (by simp [hfile])
      · exact List.mem_append_right _ hlost
    have hle := (List.subperm_of_subset hnodup hsub).length_le
    have hone : (run step init events).file.toList.length ≤ 1 := by
      cases (run step init events).file <;> simp
    rw [List.length_append] at hle
    omega
  · intro hnone p hp
    rw [hnone] at hlength
    have hempty : lost = [] := List.eq_nil_of_length_eq_zero (Nat.le_zero.mp hlength)
    subst lost
    exact (haccounted p hp).resolve_right (List.not_mem_nil)

/-- Two servers: the first one was sent `SIGQUIT` while it was not in `accept`. -/
def quitWhileServing : List Event :=
  [.process .start, .process (.lock 0 3 true), .process (.fork 0 true), .process (.exit 0),
    .process (.fork 1 true), .process (.exit 1), .process (.closeAll 2 1024),
    .process (.bind 2 true), .sigquit 2, .foreground, .process (.bind 3 true)]

theorem kernel_quitWhileServing : Along step Kernel init quitWhileServing := by
  simp only [quitWhileServing, along_cons, along_nil, and_true]
  refine ⟨⟨trivial, by simp⟩, ⟨⟨rfl, by decide⟩, by simp⟩, ⟨Or.inl rfl, by simp⟩,
    ⟨⟨by decide, by decide⟩, by simp⟩, ⟨Or.inr rfl, by simp⟩, ⟨⟨by decide, by decide⟩, by simp⟩,
    ⟨rfl, by simp⟩, ⟨rfl, fun _ _ => rfl⟩, ⟨by decide, by decide, rfl⟩, trivial, rfl,
    fun _ _ => rfl⟩

theorem servers_are_counted_while_quitting :
    (∀ ps : List Nat, ps.Nodup → (∀ p ∈ ps, (run step init quitWhileServing).Serving p) →
      ps.length ≤ 1 + quitWhileServing.countP Event.cutsOff) ∧
    (quitWhileServing.countP Event.cutsOff = 0 → ∀ p, (run step init quitWhileServing).Serving p →
      (run step init quitWhileServing).file = some p) :=
  servers_are_counted kernel_quitWhileServing

example : (run step init quitWhileServing).Serving 2 ∧ (run step init quitWhileServing).Serving 3 :=
  ⟨rfl, rfl⟩

/-- Nobody serves, and the file of one that has served is still there. -/
def Stale (p : Nat) (s : Site) : Prop := s.file = some p ∧ ∀ q, ¬ s.Serving q

theorem Stale.step {p : Nat} {s : Site} (h : Stale p s) {e : Event} (hkernel : Kernel s e)
    (he : e.cutsOff = false) : Stale p (s.step e) := by
  obtain ⟨hfile, hgone⟩ := h
  cases e with
  | process e =>
    have hno : ∀ q, e ≠ .bind q true := by
      intro q hbind
      have hfree := hkernel.2 q hbind
      rw [hfile] at hfree
      cases hfree
    constructor
    · dsimp only [Site.step, fileAfter]
      split
      · exact absurd rfl (hno _)
      · exact hfile
    · exact fun q hq => (serving_process hq).elim (hno q) (hgone q)
  | foreground => exact ⟨hfile, fun q hq => hgone q (serving_spawn (by simp) hq)⟩
  | acceptError q => exact absurd hkernel (hgone q)
  | sigquit q => cases he
  | remove => cases he

/-- Once a server has gone without removing its file, no start gets to serve
until somebody removes the file, or a start is sent `SIGQUIT` before it binds. -/
theorem stale_file_keeps_starts_out {events more : List Event}
    (hkernel : Along step Kernel init (events ++ more)) {p : Nat}
    (hfile : (run step init events).file = some p)
    (hgone : ∀ q, ¬ (run step init events).Serving q) (hmore : ∀ e ∈ more, e.cutsOff = false) :
    (∀ q, Event.process (.bind q true) ∉ more) ∧ ∀ past, past <+: more →
      (run step init (events ++ past)).file = some p ∧
        ∀ q, ¬ (run step init (events ++ past)).Serving q := by
  obtain ⟨-, hlater⟩ := (along_append step Kernel init events more).mp hkernel
  have hok := hlater.and (Along.of_forall_mem hmore)
  have hstale : Stale p (run step init events) := ⟨hfile, hgone⟩
  have hstep : ∀ s e, Stale p s → Kernel s e ∧ e.cutsOff = false → Stale p (s.step e) :=
    fun s e h he => h.step he.1 he.2
  constructor
  · intro q hq
    obtain ⟨past, rest, rfl⟩ := List.append_of_mem hq
    obtain ⟨hpast, hbind, -⟩ := (along_append step _ _ past _).mp hok
    have hfree := hbind.1.2 q rfl
    rw [(run_invariant (Stale p) hstep hstale hpast).1] at hfree
    cases hfree
  · intro past hpast
    rw [run_append]
    exact run_invariant (Stale p) hstep hstale (hok.of_prefix hpast)

/-- A server in the foreground is killed, and the next start exits. -/
theorem stale_file_keeps_starts_out_after_kill :
    let events := [.foreground, .process (.bind 0 true), .process (.exit 0)]
    let more := [.foreground, .process (.bind 1 false)]
    (∀ q, Event.process (.bind q true) ∉ more) ∧ ∀ past, past <+: more →
      (run step init (events ++ past)).file = some 0 ∧
        ∀ q, ¬ (run step init (events ++ past)).Serving q := by
  have hkernel : Along step Kernel init ([.foreground, .process (.bind 0 true),
      .process (.exit 0)] ++ [.foreground, .process (.bind 1 false)]) := by
    simp only [List.cons_append, List.nil_append, along_cons, along_nil, and_true]
    exact ⟨trivial, ⟨rfl, fun _ _ => rfl⟩, ⟨⟨by decide, by decide⟩, by simp⟩, trivial, rfl,
      by simp⟩
  have hgone : ∀ q, ¬ (run step init [.foreground, .process (.bind 0 true),
      .process (.exit 0)]).Serving q := by
    intro q hq
    obtain ⟨hne, hserving⟩ := serving_leave hq
    rcases @serving_process (init.step .foreground).sys (.bind 0 true) q hserving with
      hbind | hbefore
    · cases hbind
      exact hne rfl
    · have habsent := @serving_spawn Daemon.init q ⟨.binding, none⟩ (by simp) hbefore
      cases habsent
  exact stale_file_keeps_starts_out hkernel rfl hgone (by simp [Event.cutsOff])

end Site

end Homework.Daemon
