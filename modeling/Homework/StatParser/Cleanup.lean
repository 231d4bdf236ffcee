import Mathlib.Algebra.BigOperators.Fin
import Mathlib.Data.Fintype.Option
import Mathlib.Data.Fintype.Prod
import Homework.StatParser.Sizes
import Homework.StatParser.Worker
import Homework.TopN.Lifetimes

/-!
# What the threads allocate and free

`get_stat` and `main` of `hw10-threads/main.c` by the containers that they allocate, use and free.
A thread has two for the file that it reads and frees them behind the merges, while the others go
on with theirs. `main` frees the global ones in the end. What a merge does to the global container
happens under its lock.
-/

namespace Homework.StatParser

set_option autoImplicit false

open Regex TopN Mutex Blocks

/-! ## The code -/

inductive Table where
  | urlToSz
  | refToCt
  deriving DecidableEq

instance : Fintype Table where
  elems := {.urlToSz, .refToCt}
  complete table := by cases table <;> decide

/-- The containers of the threads, and the global ones. -/
abbrev Handle (τ : Type) := Option τ × Table

/-- What a thread does with its two containers. -/
inductive ThreadEvent where
  | init (table : Table) (capacity : Int)
  | add (table : Table) (key : List UInt8) (value : Int)
  /-- Into the global one. -/
  | merge (table : Table)
  | free (table : Table)

def ThreadEvent.event {τ : Type} (t : τ) : ThreadEvent → Pointers.Event (Handle τ) (List UInt8)
  | .init table capacity => .init (some t, table) capacity
  | .add table key value => .call (.add (some t, table) key value)
  | .merge table => .call (.merge (none, table) (some t, table))
  | .free table => .free (some t, table)

def addEvent : Call → Option ThreadEvent
  | .addUrl key value => some (.add .urlToSz key value)
  | .addReferer key value => some (.add .refToCt key value)
  | .addTotal _ => none

section Code
variable {ρ : Type} (pcre : Pcre ρ)

def fileEvents : File → List ThreadEvent
  | none => []
  | some bytes =>
    [.init .urlToSz (top * 100), .init .refToCt (top * 100)] ++
      (getlines bytes).flatMap (fun line => (loglineCalls pcre line).filterMap addEvent) ++
      [.merge .urlToSz, .free .urlToSz, .merge .refToCt, .free .refToCt]

def getStatEvents (fileList : List File) : List ThreadEvent := fileList.flatMap (fileEvents pcre)

end Code

/-- `main` in front of the threads. -/
def mainInits (τ : Type) : List (Pointers.Event (Handle τ) (List UInt8)) :=
  [.init (none, .urlToSz) (top * 100), .init (none, .refToCt) (top * 100)]

/-- `main` behind the threads. -/
def mainFrees (τ : Type) : List (Pointers.Event (Handle τ) (List UInt8)) :=
  [.free (none, .refToCt), .free (none, .urlToSz)]

/-! ## One thread -/

abbrev Own := Table → Option Cont

def stepOwn (own : Own) : ThreadEvent → Own
  | .init table capacity => Function.update own table (some (topnContInit capacity))
  | .add table key value =>
    Function.update own table ((own table).map fun c => topnContAdd c key value)
  | .merge _ => own
  | .free table => Function.update own table none

def AllowedOwn (own : Own) : ThreadEvent → Prop
  | .init table _ => own table = none
  | .add table _ _ => (own table).isSome
  | .merge table => (own table).isSome
  | .free table => (own table).isSome

def copiedOwn (own : Own) : ThreadEvent → Nat
  | .merge table => ((own table).map fun c => c.list.length).getD 0
  | _ => 0

def tables (urlToSz refToCt : Cont) : Own
  | .urlToSz => some urlToSz
  | .refToCt => some refToCt

section Thread
variable {ρ : Type} (pcre : Pcre ρ)

/-- The containers of a file when all of its lines have been counted. -/
def fileStats (bytes : List UInt8) : Stats :=
  (getlines bytes).foldl (parseCombinedLogline pcre)
    ⟨topnContInit (top * 100), topnContInit (top * 100), 0⟩

/-- How many items the two merges of a file copy. -/
def itemsOfFile : File → Nat
  | none => 0
  | some bytes =>
    (fileStats pcre bytes).urlToSz.list.length + (fileStats pcre bytes).refToCt.list.length

theorem addEvents_spec (calls : List Call) (stats : Stats) :
    let own := tables stats.urlToSz stats.refToCt
    let events := calls.filterMap addEvent
    Along stepOwn AllowedOwn own events ∧
      run stepOwn own events =
        tables (calls.foldl perform stats).urlToSz (calls.foldl perform stats).refToCt ∧
      (trace stepOwn copiedOwn own events).sum = 0 := by
  induction calls generalizing stats with
  | nil => exact ⟨trivial, rfl, rfl⟩
  | cons call calls ih =>
    have hrest := ih (perform stats call)
    cases call with
    | addTotal size => exact hrest
    | addUrl key value =>
      have hstep : stepOwn (tables stats.urlToSz stats.refToCt) (.add .urlToSz key value) =
          tables (topnContAdd stats.urlToSz key value) stats.refToCt := by
        funext table
        cases table <;> rfl
      dsimp only
      rw [List.filterMap_cons_some (f := addEvent) (b := .add .urlToSz key value) rfl, along_cons,
        run_cons, trace_cons, hstep, List.sum_cons]
      exact ⟨⟨rfl, hrest.1⟩, hrest.2.1, (Nat.zero_add _).trans hrest.2.2⟩
    | addReferer key value =>
      have hstep : stepOwn (tables stats.urlToSz stats.refToCt) (.add .refToCt key value) =
          tables stats.urlToSz (topnContAdd stats.refToCt key value) := by
        funext table
        cases table <;> rfl
      dsimp only
      rw [List.filterMap_cons_some (f := addEvent) (b := .add .refToCt key value) rfl, along_cons,
        run_cons, trace_cons, hstep, List.sum_cons]
      exact ⟨⟨rfl, hrest.1⟩, hrest.2.1, (Nat.zero_add _).trans hrest.2.2⟩

theorem lineEvents_spec (lines : List (List UInt8)) (stats : Stats) :
    let own := tables stats.urlToSz stats.refToCt
    let events := lines.flatMap fun line => (loglineCalls pcre line).filterMap addEvent
    let stats' := lines.foldl (parseCombinedLogline pcre) stats
    Along stepOwn AllowedOwn own events ∧
      run stepOwn own events = tables stats'.urlToSz stats'.refToCt ∧
      (trace stepOwn copiedOwn own events).sum = 0 := by
  induction lines generalizing stats with
  | nil => exact ⟨trivial, rfl, rfl⟩
  | cons line lines ih =>
    obtain ⟨halong, hrun, hsum⟩ := addEvents_spec (loglineCalls pcre line) stats
    obtain ⟨halong', hrun', hsum'⟩ := ih (parseCombinedLogline pcre stats line)
    dsimp only at hrun ⊢
    rw [List.flatMap_cons, along_append, run_append, trace_append, List.sum_append, hrun, hsum,
      Nat.zero_add]
    exact ⟨⟨halong, halong'⟩, hrun', hsum'⟩

theorem initEvents_spec (capacity : Int) :
    let events := [.init .urlToSz capacity, .init .refToCt capacity]
    Along stepOwn AllowedOwn (fun _ => none) events ∧
      run stepOwn (fun _ => none) events = tables (topnContInit capacity) (topnContInit capacity) ∧
      (trace stepOwn copiedOwn (fun _ => none) events).sum = 0 := by
  refine ⟨⟨rfl, rfl, trivial⟩, ?_, rfl⟩
  funext table
  cases table <;> rfl

theorem mergeEvents_spec (urlToSz refToCt : Cont) :
    let own := tables urlToSz refToCt
    let events := [.merge .urlToSz, .free .urlToSz, .merge .refToCt, .free .refToCt]
    Along stepOwn AllowedOwn own events ∧ run stepOwn own events = (fun _ => none) ∧
      (trace stepOwn copiedOwn own events).sum = urlToSz.list.length + refToCt.list.length := by
  refine ⟨⟨rfl, rfl, rfl, rfl, trivial⟩, ?_, ?_⟩
  · funext table
    cases table <;> rfl
  · simp [trace, stepOwn, copiedOwn, tables]

theorem fileEvents_spec (file : File) :
    Along stepOwn AllowedOwn (fun _ => none) (fileEvents pcre file) ∧
      run stepOwn (fun _ => none) (fileEvents pcre file) = (fun _ => none) ∧
      (trace stepOwn copiedOwn (fun _ => none) (fileEvents pcre file)).sum =
        itemsOfFile pcre file := by
  cases file with
  | none => exact ⟨trivial, rfl, rfl⟩
  | some bytes =>
    obtain ⟨hinits, hstart, hnone⟩ := initEvents_spec (top * 100)
    obtain ⟨hadds, hcounted, hzero⟩ := lineEvents_spec pcre (getlines bytes)
      ⟨topnContInit (top * 100), topnContInit (top * 100), 0⟩
    obtain ⟨hmerges, hend, hcopied⟩ := mergeEvents_spec (fileStats pcre bytes).urlToSz
      (fileStats pcre bytes).refToCt
    dsimp only at hstart hcounted
    rw [← fileStats] at hcounted
    simp only [fileEvents, along_append, run_append, trace_append, List.sum_append, hstart,
      hcounted, hnone, hzero, Nat.zero_add]
    exact ⟨⟨⟨hinits, hadds⟩, hmerges⟩, hend, hcopied⟩

theorem getStatEvents_spec (fileList : List File) :
    Along stepOwn AllowedOwn (fun _ => none) (getStatEvents pcre fileList) ∧
      run stepOwn (fun _ => none) (getStatEvents pcre fileList) = (fun _ => none) ∧
      (trace stepOwn copiedOwn (fun _ => none) (getStatEvents pcre fileList)).sum =
        (fileList.map (itemsOfFile pcre)).sum := by
  induction fileList with
  | nil => exact ⟨trivial, rfl, rfl⟩
  | cons file fileList ih =>
    obtain ⟨halong, hrun, hsum⟩ := fileEvents_spec pcre file
    rw [getStatEvents, List.flatMap_cons, ← getStatEvents, along_append, run_append, trace_append,
      List.sum_append, hrun, hsum, List.map_cons, List.sum_cons, ih.2.2]
    exact ⟨⟨halong, ih.1⟩, ih.2.1, rfl⟩

end Thread

/-! ## All threads -/

section Threads
variable {τ : Type} [DecidableEq τ]

/-- The containers of the threads are what each of them has made of its own. -/
structure Splits (pool : Pointers.Pool (Handle τ) (List UInt8)) (own : τ → Own) : Prop where
  own : ∀ t table, pool (some t, table) = own t table
  globals : ∀ table, (pool (none, table)).isSome

namespace Splits
variable {pool : Pointers.Pool (Handle τ) (List UInt8)} {own : τ → Own} {t : τ}

theorem update (h : Splits pool own) (table : Table) (cont : Option Cont) :
    Splits (Function.update pool (some t, table) cont)
      (Function.update own t (Function.update (own t) table cont)) where
  own t' table' := by
    by_cases ht : t' = t
    · subst t'
      rw [Function.update_self]
      by_cases htable : table' = table
      · subst table'
        rw [Function.update_self, Function.update_self]
      · rw [Function.update_of_ne (by simp [htable]), Function.update_of_ne htable]
        exact h.own t table'
    · rw [Function.update_of_ne ht, Function.update_of_ne (by simp [ht])]
      exact h.own t' table'
  globals table' := by
    rw [Function.update_of_ne (by simp)]
    exact h.globals table'

theorem merge (h : Splits pool own) (table : Table) {cont : Option Cont} (hcont : cont.isSome) :
    Splits (Function.update pool (none, table) cont) own where
  own t table' := by
    rw [Function.update_of_ne (by simp)]
    exact h.own t table'
  globals table' := by
    by_cases htable : table' = table
    · subst table'
      rwa [Function.update_self]
    · rw [Function.update_of_ne (by simp [htable])]
      exact h.globals table'

theorem step (h : Splits pool own) {e : ThreadEvent} (hallowed : AllowedOwn (own t) e) :
    Pointers.Allowed pool (e.event t) ∧
      Splits (Pointers.stepPool pool (e.event t)) (Function.update own t (stepOwn (own t) e)) ∧
      Pointers.copied pool (e.event t) = copiedOwn (own t) e := by
  cases e with
  | init table capacity => exact ⟨(h.own t table).trans hallowed, h.update table _, rfl⟩
  | add table key value =>
    have hown := h.own t table
    refine ⟨(congrArg Option.isSome hown).trans hallowed, ?_, rfl⟩
    dsimp only [ThreadEvent.event, Pointers.stepPool, stepOwn]
    rw [hown]
    exact h.update table _
  | merge table =>
    have hown := h.own t table
    refine ⟨⟨h.globals table, (congrArg Option.isSome hown).trans hallowed, by simp⟩, ?_, ?_⟩
    · obtain ⟨d, hd⟩ := Option.isSome_iff_exists.mp (h.globals table)
      obtain ⟨c, hc⟩ := Option.isSome_iff_exists.mp hallowed
      dsimp only [ThreadEvent.event, Pointers.stepPool, stepOwn]
      rw [Function.update_eq_self, hown, hd, hc]
      exact h.merge table rfl
    · dsimp only [ThreadEvent.event, Pointers.copied, copiedOwn]
      rw [hown]
  | free table =>
    have hown := h.own t table
    exact ⟨(congrArg Option.isSome hown).trans hallowed, h.update table none, rfl⟩

end Splits

/-- The events of all threads in the order in which they happen. -/
def events (log : List (τ × ThreadEvent)) : List (Pointers.Event (Handle τ) (List UInt8)) :=
  log.map fun c => c.2.event c.1

theorem Splits.run [Fintype τ] {log : List (τ × ThreadEvent)}
    {pool : Pointers.Pool (Handle τ) (List UInt8)} {own : τ → Own} (h : Splits pool own)
    (hallowed : ∀ t, Along stepOwn AllowedOwn (own t) (ofThread t log)) :
    Along Pointers.stepPool Pointers.Allowed pool (events log) ∧
      Splits (Homework.run Pointers.stepPool pool (events log))
        (fun t => Homework.run stepOwn (own t) (ofThread t log)) ∧
      (trace Pointers.stepPool Pointers.copied pool (events log)).sum =
        ∑ t, (trace stepOwn copiedOwn (own t) (ofThread t log)).sum := by
  induction log generalizing pool own with
  | nil => exact ⟨trivial, h, (Finset.sum_const_zero).symm⟩
  | cons c log ih =>
    obtain ⟨t, e⟩ := c
    obtain ⟨own', hown'⟩ : ∃ own', own' = Function.update own t (stepOwn (own t) e) := ⟨_, rfl⟩
    have hself : ofThread t ((t, e) :: log) = e :: ofThread t log := by
      rw [ofThread_cons, if_pos rfl, List.singleton_append]
    have hother : ∀ t', t' ≠ t → ofThread t' ((t, e) :: log) = ofThread t' log ∧
        own' t' = own t' := by
      intro t' ht
      rw [ofThread_cons, if_neg (Ne.symm ht), List.nil_append, hown', Function.update_of_ne ht]
      exact ⟨rfl, rfl⟩
    have hstep : own' t = stepOwn (own t) e := by rw [hown', Function.update_self]
    have hfirst := hallowed t
    rw [hself, along_cons, ← hstep] at hfirst
    obtain ⟨hnow, hsplits, hcopied⟩ := h.step hfirst.1
    rw [← hown'] at hsplits
    have hlater : ∀ t', Along stepOwn AllowedOwn (own' t') (ofThread t' log) := by
      intro t'
      by_cases ht : t' = t
      · exact ht ▸ hfirst.2
      · obtain ⟨hsame, hsame'⟩ := hother t' ht
        rw [hsame', ← hsame]
        exact hallowed t'
    obtain ⟨hmore, hend, hsum⟩ := ih hsplits hlater
    refine ⟨⟨hnow, hmore⟩, ?_, ?_⟩
    · have hrun : (fun t' => Homework.run stepOwn (own t') (ofThread t' ((t, e) :: log))) =
          fun t' => Homework.run stepOwn (own' t') (ofThread t' log) := by
        funext t'
        by_cases ht : t' = t
        · rw [ht, hself, run_cons, hstep]
        · rw [(hother t' ht).1, (hother t' ht).2]
      rw [hrun]
      exact hend
    · have hpart : ∀ t', (trace stepOwn copiedOwn (own t') (ofThread t' ((t, e) :: log))).sum =
          (if t = t' then copiedOwn (own t) e else 0) +
            (trace stepOwn copiedOwn (own' t') (ofThread t' log)).sum := by
        intro t'
        by_cases ht : t' = t
        · rw [ht, hself, trace_cons, List.sum_cons, if_pos rfl, hstep]
        · rw [(hother t' ht).1, (hother t' ht).2, if_neg (Ne.symm ht), Nat.zero_add]
      simp only [hpart, Finset.sum_add_distrib, Finset.sum_ite_eq, Finset.mem_univ, if_true]
      rw [events, List.map_cons, ← events, trace_cons, List.sum_cons, hcopied, hsum]

end Threads

/-! ## The whole program -/

section Program
variable {τ : Type} [DecidableEq τ]

theorem mainInits_spec :
    Along Pointers.stepPool Pointers.Allowed (fun _ => none) (mainInits τ) ∧
      Splits (run Pointers.stepPool (fun _ => none) (mainInits τ)) (fun _ _ => none) ∧
      (trace Pointers.stepPool Pointers.copied (fun _ => none) (mainInits τ)).sum = 0 := by
  refine ⟨⟨rfl, ?_, trivial⟩, ⟨fun t table => ?_, fun table => ?_⟩, rfl⟩
  · simp [Pointers.Allowed, Pointers.stepPool]
  · simp [mainInits, Pointers.stepPool]
  · cases table <;> simp [mainInits, Pointers.stepPool]

theorem mainFrees_spec {pool : Pointers.Pool (Handle τ) (List UInt8)}
    (h : Splits pool fun _ _ => none) :
    Along Pointers.stepPool Pointers.Allowed pool (mainFrees τ) ∧
      run Pointers.stepPool pool (mainFrees τ) = (fun _ => none) ∧
      (trace Pointers.stepPool Pointers.copied pool (mainFrees τ)).sum = 0 := by
  refine ⟨⟨h.globals _, ?_, trivial⟩, ?_, rfl⟩
  · dsimp only [Pointers.stepPool, Pointers.Allowed]
    rw [Function.update_of_ne (by simp)]
    exact h.globals _
  · funext i
    obtain ⟨t, table⟩ := i
    cases t with
    | none => cases table <;> simp [mainFrees, Pointers.stepPool]
    | some t => simp [mainFrees, Pointers.stepPool, h.own]

end Program

/-- However the threads come to their turns, no item is read or freed that is not allocated, the
containers come to what they are as values, and only their items are allocated. Behind the last
thread and `main` every item and every container has been freed. What is left of the nodes is what
the merges have copied: one for every item of the containers of every file. -/
theorem all_but_copies_is_freed {ρ : Type} (pcre : Pcre ρ)
    {malloc : Store (ListItem (List UInt8)) → Nat} (hmalloc : Fresh malloc)
    (fileList : List File) (threadCount : Nat) (hpos : 1 ≤ threadCount) :
    let lists := threadFileLists fileList threadCount
    let mainEnds := mainFrees (Fin lists.length)
    ∀ log : List (Fin lists.length × ThreadEvent),
      (∀ t, ofThread t log <+: getStatEvents pcre (lists.get t)) →
      let sofar := mainInits (Fin lists.length) ++ events log
      (∃ s lost, sofar.foldlM (Pointers.step malloc) Pointers.start = some s ∧
        Pointers.Represents s (run Pointers.stepPool (fun _ => none) sofar) lost) ∧
      ((∀ t, ofThread t log = getStatEvents pcre (lists.get t)) →
        ∃ s, (sofar ++ mainEnds).foldlM (Pointers.step malloc) Pointers.start = some s ∧
          (∀ i, s.conts i = none) ∧ (∀ a, s.mem.items a = none) ∧
          s.mem.nodes = (fileList.map (itemsOfFile pcre)).sum) := by
  intro lists mainEnds log hlog sofar
  have hempty : Pointers.Represents
      (Pointers.start : Pointers.State (Handle (Fin lists.length)) (List UInt8))
      (fun _ => none) 0 := Pointers.represents_start
  obtain ⟨hinits, hstart, hnone⟩ := @mainInits_spec (Fin lists.length) _
  have hown : ∀ t, Along stepOwn AllowedOwn (fun _ => none) (ofThread t log) :=
    fun t => Along.of_prefix (getStatEvents_spec pcre (lists.get t)).1 (hlog t)
  obtain ⟨hevents, hsplits, hcopied⟩ := hstart.run hown
  have hsofar : Along Pointers.stepPool Pointers.Allowed (fun _ => none) sofar :=
    (along_append ..).mpr ⟨hinits, hevents⟩
  obtain ⟨s, hrun, hrepresents⟩ := hempty.run hmalloc hsofar
  refine ⟨⟨s, _, hrun, hrepresents⟩, fun hdone => ?_⟩
  have hown' : (fun t => run stepOwn (fun _ => none) (ofThread t log)) = fun _ _ => none := by
    funext t
    rw [hdone t, (getStatEvents_spec pcre (lists.get t)).2.1]
  rw [hown', ← run_append] at hsplits
  obtain ⟨hfrees, hgone, hzero⟩ := mainFrees_spec hsplits
  obtain ⟨s', hrun', hrepresents'⟩ := hrepresents.run hmalloc hfrees
  rw [hgone] at hrepresents'
  obtain ⟨hconts, hitems, hnodes⟩ := hrepresents'.all_freed
  refine ⟨s', ?_, hconts, hitems, ?_⟩
  · rw [List.foldlM_append, hrun]
    exact hrun'
  · have hflat : lists.flatten = fileList := flatten_threadFileLists fileList hpos
    have hparts : ∀ t, (trace stepOwn copiedOwn (fun _ => none) (ofThread t log)).sum =
        ((lists.get t).map (itemsOfFile pcre)).sum := fun t => by
      rw [hdone t, (getStatEvents_spec pcre (lists.get t)).2.2]
    rw [hnodes, hzero, trace_append, List.sum_append, hnone, hcopied, Finset.sum_congr rfl
      fun t _ => hparts t, ← hflat, List.map_flatten, List.sum_flatten, List.map_map]
    simp only [Nat.zero_add, Nat.add_zero]
    exact Fin.sum_univ_fun_getElem lists fun files => (files.map (itemsOfFile pcre)).sum

/-- Two files, one of which can be opened and has two lines, and one thread. -/
def getFiles : List File := [some getText, none]

def getLog : List (Fin 1 × ThreadEvent) :=
  (getStatEvents (backtracking loglinePattern) getFiles).map fun e => (0, e)

theorem ofThread_getLog (t : Fin 1) : ofThread t getLog =
    getStatEvents (backtracking loglinePattern) ((threadFileLists getFiles 1).get t) := by
  rw [Subsingleton.elim t 0]
  exact ofThread_map_self 0 _

theorem all_but_copies_is_freed_of_get :
    ∃ s, (mainInits (Fin 1) ++ events getLog ++ mainFrees (Fin 1)).foldlM
        (Pointers.step anyFree) Pointers.start = some s ∧
      (∀ i, s.conts i = none) ∧ (∀ a, s.mem.items a = none) ∧
      s.mem.nodes = (getFiles.map (itemsOfFile (backtracking loglinePattern))).sum := by
  have h := all_but_copies_is_freed (backtracking loglinePattern) fresh_anyFree getFiles 1
    (by decide)
  exact (h getLog fun t => ⟨[], (List.append_nil _).trans (ofThread_getLog t)⟩).2 ofThread_getLog

example : (getFiles.map (itemsOfFile (backtracking loglinePattern))).sum = 2 := by decide +kernel

end Homework.StatParser
