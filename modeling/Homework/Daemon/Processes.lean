import Mathlib.Logic.Function.Basic
import Homework.Shared.Run

/-!
# The processes of the daemon

`hw08-daemon/main.c`, started any number of times with `Daemonize=yes`. A process is given by
where it stands in the program and by its descriptor of `LOCKFILE`. The kernel knows which
process owns the write lock on the file. An event is one step of one process with what the
system answers; a process that is killed or gives up on an error exits.
-/

namespace Homework.Daemon

set_option autoImplicit false

inductive Pc where
  | absent
  /-- In `already_running`. -/
  | alreadyRunning
  /-- In `daemonize`, in front of the first `fork`. -/
  | fork1
  | fork2
  /-- In front of the loop that closes the descriptors. -/
  | closing
  /-- In `run_unix_socket`, in front of `bind`. -/
  | binding
  /-- In the loop around `accept`. -/
  | serving
  /-- The parent after a `fork`. -/
  | exiting
  | exited
  deriving DecidableEq

structure Process where
  pc : Pc
  lockFd : Option Nat
  deriving DecidableEq

structure State where
  procs : Nat → Process
  nextId : Nat
  owner : Option Nat

def init : State where
  procs := fun _ => ⟨.absent, none⟩
  nextId := 0
  owner := none

inductive Event where
  | start
  | lock (p fd : Nat) (granted : Bool)
  | fork (p : Nat) (ok : Bool)
  | closeAll (p limit : Nat)
  | bind (p : Nat) (ok : Bool)
  | exit (p : Nat)
  deriving DecidableEq

def State.setProc (s : State) (p : Nat) (proc : Process) : State :=
  { s with procs := Function.update s.procs p proc }

/-- A process loses its lock with any descriptor of the file, and when it exits. -/
def State.unlock (s : State) (p : Nat) : State :=
  { s with owner := if s.owner = some p then none else s.owner }

def State.spawn (s : State) (proc : Process) : State :=
  { s.setProc s.nextId proc with nextId := s.nextId + 1 }

def leave (s : State) (p : Nat) : State := (s.unlock p).setProc p ⟨.exited, none⟩

/-- `lockfile` in `already_running`. The caller goes on to serve also if it is refused. -/
def lockStep (s : State) (p fd : Nat) (granted : Bool) : State :=
  if granted then { s.setProc p ⟨.fork1, some fd⟩ with owner := some p }
  else s.setProc p ⟨.binding, none⟩

/-- A `fork` of `daemonize`, with `next` behind it. The child has the descriptors of its
parent but not its locks. A process that cannot fork goes on itself. -/
def forkStep (s : State) (p : Nat) (next : Pc) (ok : Bool) : State :=
  let fd := (s.procs p).lockFd
  if ok then (s.setProc p ⟨.exiting, fd⟩).spawn ⟨next, fd⟩
  else s.setProc p ⟨next, fd⟩

def closeAll (s : State) (p limit : Nat) : State :=
  if ∃ fd ∈ (s.procs p).lockFd, fd < limit then (s.unlock p).setProc p ⟨.binding, none⟩
  else s.setProc p ⟨.binding, (s.procs p).lockFd⟩

def bindStep (s : State) (p : Nat) (ok : Bool) : State :=
  if ok then s.setProc p ⟨.serving, (s.procs p).lockFd⟩ else leave s p

def step (s : State) : Event → State
  | .start => s.spawn ⟨.alreadyRunning, none⟩
  | .lock p fd granted => lockStep s p fd granted
  | .fork p ok => forkStep s p (if (s.procs p).pc = .fork1 then .fork2 else .closing) ok
  | .closeAll p limit => closeAll s p limit
  | .bind p ok => bindStep s p ok
  | .exit p => leave s p

/-- The event is a step of a process that stands in front of it, and the lock is granted if
and only if no other process has it. -/
def Kernel (s : State) : Event → Prop
  | .start => True
  | .lock p _ granted => (s.procs p).pc = .alreadyRunning ∧
      (granted = true ↔ s.owner = none ∨ s.owner = some p)
  | .fork p _ => (s.procs p).pc = .fork1 ∨ (s.procs p).pc = .fork2
  | .closeAll p _ => (s.procs p).pc = .closing
  | .bind p _ => (s.procs p).pc = .binding
  | .exit p => (s.procs p).pc ≠ .absent ∧ (s.procs p).pc ≠ .exited

end Homework.Daemon
