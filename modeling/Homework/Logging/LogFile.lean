import Homework.Shared.Bytes
import Homework.Shared.Mutex

/-!
# The log file

`hw07-logger/logger/logger.c`, called from any number of threads that share one logger. A call
to `fprintf` is a turn of its own, and an error is written with one call for its record and one
for every line of its trace. What the mutex keeps together is a call of `logger_log`.

A C string is given by its bytes in front of the terminator.
-/

namespace Homework.Logging

open Mutex
set_option autoImplicit false

universe u

/-! ## A call of `logger_log` -/

/-- The values of `LogType_t`. A C enumeration holds other numbers too. -/
def debug : Int := 0
def info : Int := 1
def warning : Int := 2
def error : Int := 3

structure Call where
  logType : Int
  line : Int
  func : List UInt8
  file : List UInt8
  message : List UInt8
  /-- What `backtrace_symbols` returns if it is called. -/
  strings : Option (List (List UInt8))

def logPrefix (logType : Int) : List UInt8 :=
  if logType = debug then ascii "[DEBUG]"
  else if logType = info then ascii "[INFO ]"
  else if logType = warning then ascii "[WARN ]"
  else if logType = error then ascii "[ERROR]"
  else ascii "[LOG  ]"

def record (call : Call) : List UInt8 :=
  logPrefix call.logType ++ ascii "\t" ++ call.file ++ ascii ":" ++ ascii (toString call.line) ++
    ascii "\tfunction '" ++ call.func ++ ascii "'\t\t" ++ call.message ++ ascii "\n"

/-- `backtrace` finds at most ten addresses. -/
def loggerLogTrace (strings : Option (List (List UInt8))) : List (List UInt8) :=
  match strings with
  | none => []
  | some strings => (strings.take 10).map fun string => string ++ ascii "\n"

/-- What a call writes, one text for each `fprintf`. -/
def texts (call : Call) : List (List UInt8) :=
  record call :: if call.logType = error then loggerLogTrace call.strings else []

/-! ## Threads that log -/

/-- The texts that are still to be written, and the calls behind this one. -/
abbrev Registers := List (List UInt8) × List Call

/-- A logger, and whether its `fopen` has succeeded. -/
structure Logger where
  opened : Bool

/-- Without a logger or without a file a call returns before it takes the lock. -/
def loggerLog (logger : Option Logger) :
    Code Unit (fun _ => List UInt8) (List Call) fun _ => Registers where
  next
    | [] => .own []
    | call :: calls =>
      match logger with
      | none => .own calls
      | some logger => if logger.opened then .lock () (texts call, calls) else .own calls
  body _ file
    | (text :: rest, calls) => (file ++ text, .inl (rest, calls))
    | ([], calls) => (file, .inr calls)

/-- A call at once. -/
def logTurn (logger : Option Logger) (shared : Unit → List UInt8) :
    List Call → (Unit → List UInt8) × List Call
  | [] => (shared, [])
  | call :: calls =>
    match logger with
    | none => (shared, calls)
    | some logger =>
      if logger.opened then
        (Function.update shared () (shared () ++ (texts call).flatten), calls)
      else (shared, calls)

/-- Where a thread is in a call when it has appended `written` to `file`. -/
def Writing (file : List UInt8) (registers : Registers) (written : List (List UInt8))
    (file' : List UInt8) : Registers ⊕ List Call → Prop
  | .inl (rest, calls) =>
    file' = file ++ written.flatten ∧ written ++ rest = registers.1 ∧ calls = registers.2
  | .inr calls =>
    file' = file ++ written.flatten ∧ written = registers.1 ∧ calls = registers.2

theorem runs_writing {logger : Option Logger} {file file' : List UInt8} {registers : Registers}
    {next : Registers ⊕ List Call} (h : Runs (loggerLog logger) () file registers file' next) :
    ∃ written, Writing file registers written file' next := by
  refine h.invariant (P := fun file' next => ∃ written, Writing file registers written file' next)
    ⟨[], (List.append_nil _).symm, rfl, rfl⟩ ?_
  rintro file' ⟨rest, calls⟩ ⟨written, hfile, hwritten, hcalls⟩
  cases rest with
  | nil => exact ⟨written, hfile, (List.append_nil written).symm.trans hwritten, hcalls⟩
  | cons text rest =>
    refine ⟨written ++ [text], ?_, ?_, hcalls⟩
    · dsimp only [loggerLog]
      rw [hfile, List.flatten_append, List.flatten_singleton, List.append_assoc]
    · rw [← hwritten, List.append_assoc, List.singleton_append]

theorem loggerLog_ends (logger : Option Logger) : Ends (loggerLog logger) := by
  apply @ends_of_decreasing _ _ _ _ _ fun _ _ registers => registers.1.length
  rintro l file ⟨rest, calls⟩ file' registers' h
  cases rest with
  | nil => cases h
  | cons text rest =>
    cases h
    exact Nat.lt_succ_self _

theorem next_eq_lock {logger : Option Logger} {worker : List Call} {registers : Registers}
    (h : (loggerLog logger).next worker = .lock () registers) :
    logger = some ⟨true⟩ ∧ ∃ call, worker = call :: registers.2 ∧ registers.1 = texts call := by
  cases worker with
  | nil => cases h
  | cons call calls =>
    cases logger with
    | none => cases h
    | some logger =>
      obtain ⟨opened⟩ := logger
      cases opened with
      | false => cases h
      | true =>
        cases h
        exact ⟨rfl, call, rfl, rfl⟩

theorem loggerLog_atomic (logger : Option Logger) : Atomic (loggerLog logger) (logTurn logger) where
  own shared worker worker' h := by
    cases worker with
    | nil =>
      cases h
      rfl
    | cons call calls =>
      cases logger with
      | none =>
        cases h
        rfl
      | some logger =>
        obtain ⟨opened⟩ := logger
        cases opened with
        | false =>
          cases h
          rfl
        | true => cases h
  whole shared worker l registers part worker' h hruns := by
    obtain ⟨rfl, call, rfl, hsome⟩ := next_eq_lock h
    obtain ⟨written, rfl, rfl, rfl⟩ := runs_writing hruns
    rw [hsome]
    rfl

/-! ## What is in the file -/

/-- What a call leaves in the file. -/
def left (logger : Option Logger) (call : Call) : List UInt8 :=
  match logger with
  | none => []
  | some logger => if logger.opened then (texts call).flatten else []

theorem logTurn_cons (logger : Option Logger) (shared : Unit → List UInt8) (call : Call)
    (calls : List Call) : logTurn logger shared (call :: calls) =
      (fun _ => shared () ++ left logger call, calls) := by
  have hsame : shared = fun _ => shared () ++ [] := funext fun _ => (List.append_nil _).symm
  cases logger with
  | none => exact congrArg (·, calls) hsame
  | some logger =>
    unfold logTurn left
    dsimp only
    split
    · apply congrArg (·, calls)
      funext l
      exact Function.update_self ..
    · exact congrArg (·, calls) hsame

variable {ι : Type u} [DecidableEq ι]

/-- The file has the calls of `log`, and these are of each thread the first ones of its calls. -/
structure Logged (logger : Option Logger) (file : List UInt8) (calls : ι → List Call)
    (log : List (ι × Call)) (a : System (Unit → List UInt8) (List Call) ι) : Prop where
  file : a.shared () = file ++ log.flatMap fun c => left logger c.2
  order : ∀ i, ofThread i log ++ a.workers i = calls i

theorem step_logged {logger : Option Logger} {file : List UInt8} {calls : ι → List Call}
    {a : System (Unit → List UInt8) (List Call) ι} (i : ι)
    (h : ∃ log, Logged logger file calls log a) :
    ∃ log, Logged logger file calls log (a.step (logTurn logger) i) := by
  obtain ⟨log, hfile, hcalls⟩ := h
  cases hworker : a.workers i with
  | nil =>
    have hstep : a.step (logTurn logger) i = a := by
      rw [System.step, hworker, logTurn, ← hworker, Function.update_eq_self]
    rw [hstep]
    exact ⟨log, hfile, hcalls⟩
  | cons call rest =>
    refine ⟨log ++ [(i, call)], ?_, fun j => ?_⟩
    · rw [System.step, hworker, logTurn_cons]
      dsimp only
      rw [hfile, List.flatMap_append, List.append_assoc]
      simp
    · rw [System.step, hworker, logTurn_cons]
      dsimp only
      by_cases hji : j = i
      · subst j
        have hhere := hcalls i
        rw [hworker] at hhere
        rw [ofThread_concat_self, Function.update_self, ← hhere, List.append_assoc,
          List.singleton_append]
      · rw [ofThread_concat_of_ne hji, Function.update_of_ne hji, hcalls j]

/-- The calls in `log` are whole and in the order of each thread. Behind them is what the thread
that has the lock has written of its next call. -/
structure WholeCalls (logger : Option Logger) (file : List UInt8) (calls : ι → List Call)
    (s : Threads Unit (fun _ => List UInt8) (List Call) (fun _ => Registers) ι)
    (log : List (ι × Call)) (written : List UInt8) : Prop where
  file : s.shared () = file ++ (log.flatMap fun c => left logger c.2) ++ written
  order : ∀ i, ofThread i log <+: calls i
  free : s.holder () = none → written = []
  held : ∀ i, s.holder () = some i → ∃ call some, ofThread i log ++ [call] <+: calls i ∧
    some <+: texts call ∧ written = some.flatten
  all : ∀ i, s.phase i = .out [] → ofThread i log = calls i

theorem wholeCalls_of_follows {logger : Option Logger} {file : List UInt8}
    {calls : ι → List Call} {log : List (ι × Call)}
    {a : System (Unit → List UInt8) (List Call) ι}
    {s : Threads Unit (fun _ => List UInt8) (List Call) (fun _ => Registers) ι}
    (ha : Logged logger file calls log a) (h : Follows (loggerLog logger) a s) :
    ∃ written, WholeCalls logger file calls s log written := by
  have hcalls : ∀ i, ofThread i log <+: calls i := fun i => ⟨_, ha.order i⟩
  have hall : ∀ i, s.phase i = .out [] → ofThread i log = calls i := by
    intro i hi
    have hend := ha.order i
    rwa [h.out i [] hi, List.append_nil] at hend
  cases hholder : s.holder () with
  | none =>
    refine ⟨[], ?_, hcalls, fun _ => rfl, fun i hi => ?_, hall⟩
    · rw [List.append_nil, h.free () hholder, ha.file]
    · rw [hholder] at hi
      cases hi
  | some i =>
    obtain ⟨⟨rest, behind⟩, hphase⟩ := h.held () i hholder
    obtain ⟨-, ⟨some₀, behind₀⟩, hnext, hruns⟩ := h.inside i () _ hphase
    obtain ⟨written, hfile, hwritten, rfl⟩ := runs_writing hruns
    obtain ⟨-, call, hworker, hsome⟩ := next_eq_lock hnext
    refine ⟨written.flatten, ?_, hcalls, fun hfree => ?_, fun j hj => ?_, hall⟩
    · rw [hfile, ha.file]
    · rw [hholder] at hfree
      cases hfree
    · rw [hholder] at hj
      cases hj
      refine ⟨call, written, ⟨behind, ?_⟩, ⟨rest, hwritten.trans hsome⟩, rfl⟩
      rw [List.append_assoc, List.singleton_append, ← hworker, ha.order i]

/-- Whatever the schedule, the lines of a call are together in the file, the calls of a thread are
in its order, and none is lost or doubled. The threads can always come to the end of their
calls. -/
theorem calls_stay_whole [Fintype ι] (logger : Option Logger) (file : List UInt8)
    (calls : ι → List Call) (schedule : List ι) :
    (∃ log written, WholeCalls logger file calls
      (run (Threads.turn (loggerLog logger)) (Mutex.start (fun _ => file) calls) schedule) log
      written) ∧
    ∃ more, ∀ i, (run (Threads.turn (loggerLog logger)) (Mutex.start (fun _ => file) calls)
      (schedule ++ more)).phase i = .out [] := by
  have hstart : Logged logger file calls []
      (⟨fun _ => file, calls⟩ : System (Unit → List UInt8) (List Call) ι) :=
    ⟨(List.append_nil _).symm, fun _ => rfl⟩
  obtain ⟨order, -, hfollows⟩ := exists_follows (loggerLog_atomic logger)
    (follows_start (fun _ => file) calls) schedule
  obtain ⟨log, hlogged⟩ := run_invariant_all (fun a => ∃ log, Logged logger file calls log a)
    (fun a i => step_logged i) ⟨[], hstart⟩ order
  refine ⟨⟨log, wholeCalls_of_follows hlogged hfollows⟩, ?_⟩
  have hleft : ∀ (shared : Unit → List UInt8) (worker : List Call), worker.length ≠ 0 →
      (logTurn logger shared worker).2.length < worker.length := by
    intro shared worker hworker
    cases worker with
    | nil => exact absurd rfl hworker
    | cons call rest =>
      rw [logTurn_cons]
      exact Nat.lt_succ_self _
  obtain ⟨more, shared, workers, hmore, hend⟩ := exists_completion (loggerLog_atomic logger)
    (loggerLog_ends logger) hleft hfollows
  refine ⟨more, fun i => ?_⟩
  rw [run_append, hmore]
  exact congrArg Phase.out (List.eq_nil_of_length_eq_zero (hend i))

end Homework.Logging
