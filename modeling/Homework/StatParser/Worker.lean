import Homework.Shared.Mutex
import Homework.StatParser.Logline
import Homework.TopN.Order

/-!
# The threads, load by load

`get_stat` of `hw10-threads/main.c` with the files as they are, down to the loads and stores of
the calls that a mutex guards: `ts_add` loads the total and stores the sum, and
`topn_cont_merge` adds the items one by one and cuts the list one by one. Between these turns of
a thread other threads take theirs. The containers of a file are the thread's own.
-/

namespace Homework.StatParser

set_option autoImplicit false

open Regex TopN Mutex

/-- The lines that `getline` returns, with their ends. -/
def getlines : List UInt8 → List (List UInt8)
  | [] => []
  | b :: bytes =>
    if b = 10 then [b] :: getlines bytes
    else
      match getlines bytes with
      | [] => [[b]]
      | line :: lines => (b :: line) :: lines

/-- A file of the list of a thread, or `none` if it cannot be opened. -/
abbrev File := Option (List UInt8)

abbrev Cont := TopNContainer (List UInt8)

inductive Worker where
  /-- At the head of the loop over the files. -/
  | next (files : List File)
  /-- At the head of the loop over the lines. -/
  | reading (urlToSz refToCt : Cont) (lines : List (List UInt8)) (files : List File)
  /-- In `parse_combined_logline`, with these calls to make. -/
  | counting (urlToSz refToCt : Cont) (calls : List Call) (lines : List (List UInt8))
      (files : List File)
  | mergingUrl (urlToSz refToCt : Cont) (files : List File)
  | mergingRef (refToCt : Cont) (files : List File)

/-- The three mutexes, by what they guard. -/
inductive Global where
  | urlToSz
  | refToCt
  | totalSize
  deriving DecidableEq

def Shared : Global → Type
  | .urlToSz => Cont
  | .refToCt => Cont
  | .totalSize => Nat

/-- In `ts_add`, and what the thread does behind it. -/
inductive AddRegisters where
  | load (size : Nat) (worker : Worker)
  | store (total : Nat) (worker : Worker)

/-- In `topn_cont_merge`, and what the thread does behind it. -/
inductive MergeRegisters where
  | copy (src : Cont) (worker : Worker)
  | items (capacity : Nat) (rest : List (ListItem (List UInt8))) (worker : Worker)
  /-- In the loop of `topn_cont_prep_capacity`. -/
  | prep (worker : Worker)

def Registers : Global → Type
  | .urlToSz => MergeRegisters
  | .refToCt => MergeRegisters
  | .totalSize => AddRegisters

def addBody (total : Nat) : AddRegisters → Nat × (AddRegisters ⊕ Worker)
  | .load size worker => (total, .inl (.store (tsAdd total size) worker))
  | .store sum worker => (sum, .inr worker)

def mergeBody (dst : Cont) : MergeRegisters → Cont × (MergeRegisters ⊕ Worker)
  | .copy src worker =>
    ({ dst with capacity := (dst.capacity + src.capacity) % 2 ^ 64 },
      .inl (.items dst.capacity src.list worker))
  | .items capacity (item :: rest) worker =>
    (topnContAddItem dst item.key item.value, .inl (.items capacity rest worker))
  | .items capacity [] worker => ({ dst with capacity }, .inl (.prep worker))
  | .prep worker =>
    if dst.capacity < dst.list.length then
      ({ dst with list := dst.list.eraseIdx dst.capacity }, .inl (.prep worker))
    else (dst, .inr worker)

section Code
variable {ρ : Type} (pcre : Pcre ρ)

def getStatNext : Worker → Next Global Worker Registers
  | .next [] => .own (.next [])
  | .next (none :: files) => .own (.next files)
  | .next (some bytes :: files) =>
    .own (.reading (topnContInit (top * 100)) (topnContInit (top * 100)) (getlines bytes) files)
  | .reading urlToSz refToCt [] files => .own (.mergingUrl urlToSz refToCt files)
  | .reading urlToSz refToCt (line :: lines) files =>
    .own (.counting urlToSz refToCt (loglineCalls pcre line) lines files)
  | .counting urlToSz refToCt [] lines files => .own (.reading urlToSz refToCt lines files)
  | .counting urlToSz refToCt (.addUrl key value :: calls) lines files =>
    .own (.counting (topnContAdd urlToSz key value) refToCt calls lines files)
  | .counting urlToSz refToCt (.addReferer key value :: calls) lines files =>
    .own (.counting urlToSz (topnContAdd refToCt key value) calls lines files)
  | .counting urlToSz refToCt (.addTotal size :: calls) lines files =>
    .lock .totalSize (AddRegisters.load size (.counting urlToSz refToCt calls lines files))
  | .mergingUrl urlToSz refToCt files =>
    .lock .urlToSz (MergeRegisters.copy urlToSz (.mergingRef refToCt files))
  | .mergingRef refToCt files => .lock .refToCt (MergeRegisters.copy refToCt (.next files))

def getStatCode : Code Global Shared Worker Registers where
  next := getStatNext pcre
  body
    | .urlToSz => mergeBody
    | .refToCt => mergeBody
    | .totalSize => addBody

/-- The same with every call that a mutex guards at once. -/
def getStatTurn (gl : (g : Global) → Shared g) :
    Worker → ((g : Global) → Shared g) × Worker
  | .next [] => (gl, .next [])
  | .next (none :: files) => (gl, .next files)
  | .next (some bytes :: files) =>
    (gl, .reading (topnContInit (top * 100)) (topnContInit (top * 100)) (getlines bytes) files)
  | .reading urlToSz refToCt [] files => (gl, .mergingUrl urlToSz refToCt files)
  | .reading urlToSz refToCt (line :: lines) files =>
    (gl, .counting urlToSz refToCt (loglineCalls pcre line) lines files)
  | .counting urlToSz refToCt [] lines files => (gl, .reading urlToSz refToCt lines files)
  | .counting urlToSz refToCt (.addUrl key value :: calls) lines files =>
    (gl, .counting (topnContAdd urlToSz key value) refToCt calls lines files)
  | .counting urlToSz refToCt (.addReferer key value :: calls) lines files =>
    (gl, .counting urlToSz (topnContAdd refToCt key value) calls lines files)
  | .counting urlToSz refToCt (.addTotal size :: calls) lines files =>
    (Function.update gl .totalSize (tsAdd (gl .totalSize) size),
      .counting urlToSz refToCt calls lines files)
  | .mergingUrl urlToSz refToCt files =>
    (Function.update gl .urlToSz (topnContMerge (gl .urlToSz) urlToSz), .mergingRef refToCt files)
  | .mergingRef refToCt files =>
    (Function.update gl .refToCt (topnContMerge (gl .refToCt) refToCt), .next files)

/-! ## The sections of one turn -/

/-- Where `topn_cont_merge` is, against what it comes to. -/
def Merging (dst src : Cont) (worker : Worker) (part : Cont) : MergeRegisters ⊕ Worker → Prop
  | .inl (.copy src' worker') => part = dst ∧ src' = src ∧ worker' = worker
  | .inl (.items capacity rest worker') =>
    { rest.foldl (fun d item => topnContAddItem d item.key item.value) part with capacity } =
      topnContMergeItems dst src ∧ worker' = worker
  | .inl (.prep worker') =>
    topnContPrepCapacity part = topnContMerge dst src ∧ worker' = worker
  | .inr worker' => part = topnContMerge dst src ∧ worker' = worker

theorem mergeBody_merging {dst src : Cont} {worker : Worker} {part : Cont}
    {registers : MergeRegisters} (h : Merging dst src worker part (.inl registers)) :
    Merging dst src worker (mergeBody part registers).1 (mergeBody part registers).2 := by
  cases registers with
  | copy src' worker' =>
    obtain ⟨rfl, rfl, rfl⟩ := h
    exact ⟨rfl, rfl⟩
  | items capacity rest worker' =>
    obtain ⟨hmerge, rfl⟩ := h
    cases rest with
    | nil => exact ⟨congrArg topnContPrepCapacity hmerge, rfl⟩
    | cons item rest => exact ⟨hmerge, rfl⟩
  | prep worker' =>
    obtain ⟨hmerge, rfl⟩ := h
    rw [topnContPrepCapacity] at hmerge
    by_cases hlt : part.capacity < part.list.length
    · rw [if_pos hlt] at hmerge
      simp only [mergeBody, if_pos hlt]
      exact ⟨hmerge, rfl⟩
    · rw [if_neg hlt] at hmerge
      simp only [mergeBody, if_neg hlt]
      exact ⟨hmerge, rfl⟩

/-- Where `ts_add` is, with the mutex held. -/
def Adding (total size : Nat) (worker : Worker) (part : Nat) : AddRegisters ⊕ Worker → Prop
  | .inl (.load size' worker') => part = total ∧ size' = size ∧ worker' = worker
  | .inl (.store sum worker') => sum = tsAdd total size ∧ worker' = worker
  | .inr worker' => part = tsAdd total size ∧ worker' = worker

theorem addBody_adding {total size : Nat} {worker : Worker} {part : Nat}
    {registers : AddRegisters} (h : Adding total size worker part (.inl registers)) :
    Adding total size worker (addBody part registers).1 (addBody part registers).2 := by
  cases registers with
  | load size' worker' =>
    obtain ⟨rfl, rfl, rfl⟩ := h
    exact ⟨rfl, rfl⟩
  | store sum worker' => exact h

/-- One turn of `topn_cont_merge` after another, up to its end. -/
inductive Merges : Cont → MergeRegisters → Cont → Worker → Prop
  | leave {part part' : Cont} {registers : MergeRegisters} {worker : Worker}
      (h : mergeBody part registers = (part', .inr worker)) : Merges part registers part' worker
  | work {part part' part'' : Cont} {registers registers' : MergeRegisters} {worker : Worker}
      (h : mergeBody part registers = (part', .inl registers'))
      (hrest : Merges part' registers' part'' worker) : Merges part registers part'' worker

theorem merges_prep (part : Cont) (worker : Worker) :
    ∃ part', Merges part (.prep worker) part' worker := by
  induction hn : part.list.length using Nat.strong_induction_on generalizing part with
  | _ n ih =>
    by_cases hlt : part.capacity < part.list.length
    · obtain ⟨part', hrest⟩ := ih _ (hn ▸ length_eraseIdx_lt hlt)
        { part with list := part.list.eraseIdx part.capacity } rfl
      exact ⟨part', .work (by rw [mergeBody, if_pos hlt]) hrest⟩
    · exact ⟨part, .leave (by rw [mergeBody, if_neg hlt])⟩

theorem merges_items (part : Cont) (capacity : Nat) (rest : List (ListItem (List UInt8)))
    (worker : Worker) : ∃ part', Merges part (.items capacity rest worker) part' worker := by
  induction rest generalizing part with
  | nil =>
    obtain ⟨part', hrest⟩ := merges_prep { part with capacity } worker
    exact ⟨part', .work rfl hrest⟩
  | cons item rest ih =>
    obtain ⟨part', hrest⟩ := ih (topnContAddItem part item.key item.value)
    exact ⟨part', .work rfl hrest⟩

theorem exists_merges (part : Cont) (registers : MergeRegisters) :
    ∃ part' worker, Merges part registers part' worker := by
  cases registers with
  | copy src worker =>
    obtain ⟨part', hrest⟩ := merges_items
      { part with capacity := (part.capacity + src.capacity) % 2 ^ 64 } part.capacity src.list
      worker
    exact ⟨part', worker, .work rfl hrest⟩
  | items capacity rest worker =>
    obtain ⟨part', h⟩ := merges_items part capacity rest worker
    exact ⟨part', worker, h⟩
  | prep worker =>
    obtain ⟨part', h⟩ := merges_prep part worker
    exact ⟨part', worker, h⟩

theorem Merges.runs_url {part part' : Cont} {registers : MergeRegisters} {worker : Worker}
    (h : Merges part registers part' worker) :
    Runs (getStatCode pcre) .urlToSz part registers part' (.inr worker) := by
  induction h with
  | leave h => exact .leave h
  | work h _ ih => exact .work h ih

theorem Merges.runs_ref {part part' : Cont} {registers : MergeRegisters} {worker : Worker}
    (h : Merges part registers part' worker) :
    Runs (getStatCode pcre) .refToCt part registers part' (.inr worker) := by
  induction h with
  | leave h => exact .leave h
  | work h _ ih => exact .work h ih

theorem getStatCode_ends : Ends (getStatCode pcre) := by
  intro g part registers
  cases g with
  | urlToSz =>
    obtain ⟨part', worker, h⟩ := exists_merges part registers
    exact ⟨part', worker, h.runs_url pcre⟩
  | refToCt =>
    obtain ⟨part', worker, h⟩ := exists_merges part registers
    exact ⟨part', worker, h.runs_ref pcre⟩
  | totalSize =>
    cases registers with
    | load size worker => exact ⟨_, worker, .work rfl (.leave rfl)⟩
    | store sum worker => exact ⟨sum, worker, .leave rfl⟩

theorem merged_of_runs_url {dst src part : Cont} {worker worker' : Worker}
    (h : Runs (getStatCode pcre) .urlToSz dst (MergeRegisters.copy src worker) part
      (.inr worker')) : part = topnContMerge dst src ∧ worker' = worker :=
  h.invariant (P := Merging dst src worker) ⟨rfl, rfl, rfl⟩ fun _ _ => mergeBody_merging

theorem merged_of_runs_ref {dst src part : Cont} {worker worker' : Worker}
    (h : Runs (getStatCode pcre) .refToCt dst (MergeRegisters.copy src worker) part
      (.inr worker')) : part = topnContMerge dst src ∧ worker' = worker :=
  h.invariant (P := Merging dst src worker) ⟨rfl, rfl, rfl⟩ fun _ _ => mergeBody_merging

theorem added_of_runs {total part size : Nat} {worker worker' : Worker}
    (h : Runs (getStatCode pcre) .totalSize total (AddRegisters.load size worker) part
      (.inr worker')) : part = tsAdd total size ∧ worker' = worker :=
  h.invariant (P := Adding total size worker) ⟨rfl, rfl, rfl⟩ fun _ _ => addBody_adding

/-- The three places at which a thread takes a lock. -/
theorem getStatNext_eq_lock {worker : Worker} {g : Global} {registers : Registers g}
    (h : getStatNext pcre worker = .lock g registers) :
    (∃ urlToSz refToCt size calls lines files,
      worker = .counting urlToSz refToCt (.addTotal size :: calls) lines files ∧
        (⟨g, registers⟩ : Sigma Registers) =
          ⟨.totalSize, AddRegisters.load size (.counting urlToSz refToCt calls lines files)⟩) ∨
      (∃ urlToSz refToCt files, worker = .mergingUrl urlToSz refToCt files ∧
        (⟨g, registers⟩ : Sigma Registers) =
          ⟨.urlToSz, MergeRegisters.copy urlToSz (.mergingRef refToCt files)⟩) ∨
      ∃ refToCt files, worker = .mergingRef refToCt files ∧
        (⟨g, registers⟩ : Sigma Registers) =
          ⟨.refToCt, MergeRegisters.copy refToCt (.next files)⟩ := by
  unfold getStatNext at h
  split at h <;> cases h
  · exact Or.inl ⟨_, _, _, _, _, _, rfl, rfl⟩
  · exact Or.inr (Or.inl ⟨_, _, _, rfl, rfl⟩)
  · exact Or.inr (Or.inr ⟨_, _, rfl, rfl⟩)

theorem getStatTurn_atomic : Atomic (getStatCode pcre) (getStatTurn pcre) where
  own gl worker worker' h := by
    change getStatNext pcre worker = _ at h
    unfold getStatNext at h
    split at h <;> cases h <;> rfl
  whole gl worker g registers part worker' h hruns := by
    rcases getStatNext_eq_lock pcre h with
      ⟨urlToSz, refToCt, size, calls, lines, files, rfl, heq⟩ |
        ⟨urlToSz, refToCt, files, rfl, heq⟩ | ⟨refToCt, files, rfl, heq⟩
    · cases heq
      obtain ⟨rfl, rfl⟩ := added_of_runs pcre hruns
      rfl
    · cases heq
      obtain ⟨rfl, rfl⟩ := merged_of_runs_url pcre hruns
      rfl
    · cases heq
      obtain ⟨rfl, rfl⟩ := merged_of_runs_ref pcre hruns
      rfl

end Code

end Homework.StatParser
