import Mathlib.Data.List.DropRight
import Homework.Shared.Glob
import Homework.StatParser.Totals
import Homework.TopN.Partition

/-!
# From the arguments to the report

`main` of `hw10-threads/main.c` and `get_file_list_by_mask` of `file_list.c`. The names that the
mask matches, in the order in which the directory gives them, are divided among the threads, and
when these are joined the report is printed.

A directory is read by `readDir`, `none` being one that cannot be opened, and `fs` has the
contents of a file. How names are matched and paths are built is up to GLib, which is a parameter.
A thread can always be created. What the threads themselves print while they run is left out.
-/

namespace Homework.StatParser

set_option autoImplicit false

open Regex TopN Mutex

abbrev Path := List UInt8

/-- `g_pattern_spec_match_string` and `g_build_filename`. -/
structure Glib where
  patternSpecMatchString : Path → Path → Bool
  buildFilename : Path → Path → Path

def questionMark : UInt8 := 63

/-- What GLib documents of a pattern without question marks. -/
structure Glib.Documented (glib : Glib) : Prop where
  patternSpecMatchString : ∀ pattern name, questionMark ∉ pattern →
    glib.patternSpecMatchString pattern name = matchGlob pattern name

def getFileListByMask (glib : Glib) (readDir : Path → Option (List Path))
    (directory pattern : Path) : List Path :=
  match readDir directory with
  | none => []
  | some names =>
    (names.filter (glib.patternSpecMatchString pattern)).map (glib.buildFilename directory)

def mask : Path := ascii "*.log.*"

/-- The size of `log_path`. -/
def logPathSize : Nat := 256

/-- How far `main` comes before there is a thread. -/
inductive Begin where
  /-- `strcpy` writes past the end of `log_path`. -/
  | overflow
  | noFiles
  | divisionByZero
  /-- The lists of files that the threads are given. -/
  | threads (lists : List (List Path))
  deriving DecidableEq

def logPathOf (argv : List Path) : Path := (argv[2]?).getD (ascii "/home/user/Temp/logs/")

def threadCountOf (argv : List Path) : Int := ((argv[1]?).map atoi).getD 7

def begin (glib : Glib) (readDir : Path → Option (List Path)) (argv : List Path) : Begin :=
  if logPathSize ≤ (logPathOf argv).length then .overflow
  else
    let fileList := getFileListByMask glib readDir (logPathOf argv) mask
    if fileList = [] then .noFiles
    else
      match divideFiles fileList (threadCountOf argv) with
      | none => .divisionByZero
      | some positions =>
        .threads (positions.map fun indices => indices.filterMap fun i => fileList[i]?)

def rule : List UInt8 := ascii "-------------------\n"

def heading (title : String) : List UInt8 := ascii "\n\n" ++ rule ++ ascii title ++ rule

/-- What `main` prints after the join. -/
def report (gl : Globals (List UInt8)) : List UInt8 :=
  heading "Top 10 URL by size:\n" ++ topnContPrint id gl.glUrlToSz top ++
    heading "Top 10 Referer by count:\n" ++ topnContPrint id gl.glRefToCt top ++
    ascii "\n\n" ++ rule ++ ascii "Total: " ++ ascii (toString gl.glTotalSize) ++
    ascii " bytes\n" ++ rule

/-- A report on these rankings: one item more than the headings say. -/
def reportOf (urls referers : List (ListItem (List UInt8))) (total : Nat) : List UInt8 :=
  heading "Top 10 URL by size:\n" ++ (urls.take (top + 1)).flatMap (printItem id) ++
    heading "Top 10 Referer by count:\n" ++ (referers.take (top + 1)).flatMap (printItem id) ++
    ascii "\n\n" ++ rule ++ ascii "Total: " ++ ascii (toString total) ++ ascii " bytes\n" ++ rule

/-- The names that count as logs. -/
def logNames (names : List Path) : List Path := names.filter fun name => ascii ".log." <:+: name

section Begin
variable {glib : Glib} (hglib : glib.Documented)
variable {readDir : Path → Option (List Path)} {argv : List Path} {names : List Path}
include hglib

theorem getFileListByMask_eq {directory : Path} (h : readDir directory = some names) :
    getFileListByMask glib readDir directory mask =
      (logNames names).map (glib.buildFilename directory) := by
  have hmask : mask = star :: (ascii ".log." ++ [star]) := by decide
  have hsame : ∀ name,
      glib.patternSpecMatchString mask name = decide (ascii ".log." <:+: name) := by
    intro name
    rw [hglib.patternSpecMatchString mask name (by decide), Bool.eq_iff_iff, hmask,
      matchGlob_infix (by decide), decide_eq_true_iff]
  rw [getFileListByMask, h, logNames]
  dsimp only
  rw [List.filter_congr fun name _ => hsame name]

omit hglib in
theorem inInt_threadCountOf (argv : List Path) : InInt (threadCountOf argv) := by
  unfold threadCountOf
  cases argv[1]? with
  | none => exact ⟨by decide, by decide⟩
  | some arg => exact isAtoi_atoi.inInt arg

theorem begin_eq_threads (hpath : (logPathOf argv).length < logPathSize)
    (hdir : readDir (logPathOf argv) = some names) (hsome : logNames names ≠ [])
    (hmany : (logNames names).length < 2 ^ 32) (hcount : threadCountOf argv ≠ 0) :
    begin glib readDir argv = .threads (threadFileLists
      ((logNames names).map (glib.buildFilename (logPathOf argv)))
      (sizeT (threadCountOf argv))) := by
  have hpaths := getFileListByMask_eq hglib hdir
  have hne : (logNames names).map (glib.buildFilename (logPathOf argv)) ≠ [] :=
    fun h => hsome (List.map_eq_nil_iff.mp h)
  have hlength : gSListLength ((logNames names).map (glib.buildFilename (logPathOf argv))) =
      (logNames names).length := by
    rw [gSListLength, List.length_map, Nat.mod_eq_of_lt hmany]
  have hvalue : sizeT (threadCountOf argv) ≠ 0 :=
    fun h => hcount ((sizeT_eq_zero_iff (inInt_threadCountOf argv)).mp h)
  unfold begin
  dsimp only
  rw [if_neg (not_le.mpr hpath), hpaths, if_neg hne, divideFiles_eq _ hvalue]
  · dsimp only
    rw [hlength, threadFileLists, List.length_map]
  · rw [hlength]
    exact fun h => hsome (List.length_eq_zero_iff.mp h)

omit hglib in
theorem map_threadFileLists {α β : Type} (f : α → β) (fileList : List α) (threadCount : Nat) :
    (threadFileLists fileList threadCount).map (List.map f) =
      threadFileLists (fileList.map f) threadCount := by
  rw [threadFileLists, threadFileLists, List.map_map, List.length_map]
  apply List.map_congr_left
  intro indices _
  rw [Function.comp_apply, List.map_filterMap]
  simp only [List.getElem?_map]

end Begin

section Ranking
variable {list : List (ListItem (List UInt8))} {fields : List LogFields}
  {keyOf : LogFields → Option (List UInt8)} {amount : LogFields → Nat}

theorem Ranks.length_le (h : Ranks list fields keyOf amount) :
    list.length ≤ (fields.filterMap keyOf).toFinset.card := by
  have hlength : (keys list).toFinset.card = list.length := by
    rw [List.toFinset_card_of_nodup h.ordered.nodup, keys, List.length_map]
  rw [← hlength]
  apply Finset.card_le_card
  intro k hk
  rw [List.mem_toFinset] at hk ⊢
  exact List.mem_filterMap.mpr ((h.mem_keys k).mp hk)

/-- `topn_cont_print` goes one item too far. -/
theorem print_of_ranks {cont : TopNContainer (List UInt8)}
    (h : Ranks cont.list fields keyOf amount) (hcap : cont.capacity = top * 100)
    (hroom : (fields.filterMap keyOf).toFinset.card ≤ top * 100) :
    topnContPrint id cont top = (cont.list.take (top + 1)).flatMap (printItem id) := by
  have hle := h.length_le.trans hroom
  have hlength : gSListLength cont.list = cont.list.length := by
    unfold gSListLength top at *
    omega
  rw [topnContPrint_eq, hlength, hcap]
  congr 1
  unfold top at *
  rcases Nat.lt_or_ge cont.list.length 10 with hlt | hge
  · rw [List.take_of_length_le (by omega), List.take_of_length_le (by omega)]
  · have hmin : min (min 10 (10 * 100)) cont.list.length = 10 := by omega
    rw [hmin]

end Ranking

theorem Accounted.report_eq {fields : List LogFields} {gl : (g : Global) → Shared g}
    (h : Accounted fields gl) (hlimits : WithinLimits fields) : report (globals gl) =
      reportOf (globals gl).glUrlToSz.list (globals gl).glRefToCt.list (bytesOf fields) := by
  have hreferers : (fields.filterMap fun f => some f.referer).toFinset.card ≤ top * 100 := by
    rw [List.filterMap_eq_map']
    exact hlimits.referers
  unfold report reportOf
  rw [print_of_ranks h.urls h.urlRoom hlimits.urls,
    print_of_ranks h.referers h.refererRoom hreferers, h.total]

section Result
variable {ρ : Type} {pcre : Pcre ρ}

/-- The files of the names that count as logs. -/
def logFiles (glib : Glib) (fs : Path → File) (directory : Path) (names : List Path) : List File :=
  (logNames names).map fun name => fs (glib.buildFilename directory name)

/-- With a log in the directory and a number of threads that is not 0, and within the limits of
the containers and the types, the program prints in the end the ranking of all lines of all logs
in the directory, however many threads there are and whatever their schedule. -/
theorem report_of_logs (hpcre : pcre.Compiles loglinePattern) {glib : Glib}
    (hglib : glib.Documented) (readDir : Path → Option (List Path)) (fs : Path → File)
    (argv names : List Path)
    (hpath : (logPathOf argv).length < logPathSize) (hcount : threadCountOf argv ≠ 0)
    (hdir : readDir (logPathOf argv) = some names) (hsome : logNames names ≠ [])
    (hmany : (logNames names).length < 2 ^ 32)
    (hzero : ∀ bytes, some bytes ∈ logFiles glib fs (logPathOf argv) names → 0 ∉ bytes)
    (hlimits : WithinLimits (fieldsIn (logFiles glib fs (logPathOf argv) names))) :
    ∃ paths, begin glib readDir argv = .threads paths ∧
      let lists := paths.map (List.map fs)
      let fields := fieldsIn (logFiles glib fs (logPathOf argv) names)
      ∀ schedule : List (Fin lists.length),
        let s := run (Mutex.Threads.turn (getStatCode pcre)) (startThreads lists) schedule
        (AllJoined s → ∃ urls referers,
          Ranks urls fields (fun f => urlOf f.request) LogFields.bytes ∧
            Ranks referers fields (fun f => some f.referer) (fun _ => 1) ∧
            report (globals s.shared) = reportOf urls referers (bytesOf fields)) ∧
        ∃ more, AllJoined (run (Mutex.Threads.turn (getStatCode pcre)) (startThreads lists)
          (schedule ++ more)) := by
  refine ⟨_, begin_eq_threads hglib hpath hdir hsome hmany hcount, ?_⟩
  have hpos : 1 ≤ sizeT (threadCountOf argv) := Nat.one_le_iff_ne_zero.mpr fun h =>
    hcount ((sizeT_eq_zero_iff (inInt_threadCountOf argv)).mp h)
  have hfiles : ((logNames names).map (glib.buildFilename (logPathOf argv))).map fs =
      logFiles glib fs (logPathOf argv) names := List.map_map
  rw [map_threadFileLists, hfiles]
  intro lists fields schedule s
  have hflat : lists.flatten = logFiles glib fs (logPathOf argv) names :=
    flatten_threadFileLists _ hpos
  rw [← hflat] at hzero hlimits
  refine ⟨fun hjoined => ?_, exists_allJoined schedule⟩
  have haccounted := accounted_of_allJoined hpcre hzero hlimits hjoined
  have hreport := haccounted.report_eq hlimits
  rw [hflat] at haccounted hreport
  exact ⟨_, _, haccounted.urls, haccounted.referers, hreport⟩

end Result

/-- Of three names two count as logs, and one of these files can be opened. -/
def exampleArgv : List Path := [ascii "stat", ascii "2", ascii "/d/"]

def exampleNames : List Path := [ascii "a.log.1", ascii "notes", ascii "b.log.2"]

def separator : UInt8 := 47

/-- One separator between the two, and those in front as they are. -/
def gBuildFilename (directory filename : Path) : Path :=
  let leading := directory.takeWhile (· = separator)
  let stem := (directory.dropWhile (· = separator)).rdropWhile (· = separator)
  if stem = [] then leading ++ filename else leading ++ stem ++ [separator] ++ filename

def exampleGlib : Glib := ⟨matchGlob, gBuildFilename⟩

theorem exampleGlib_documented : exampleGlib.Documented := ⟨fun _ _ _ => rfl⟩

def exampleFs (path : Path) : File :=
  if path = ascii "/d/a.log.1" then some getText else none

theorem logFiles_example : logFiles exampleGlib exampleFs (logPathOf exampleArgv) exampleNames =
    [some getText, none] := by decide +kernel

theorem report_of_two_logs :
    ∃ paths, begin exampleGlib (fun _ => some exampleNames) exampleArgv = .threads paths ∧
      let lists := paths.map (List.map exampleFs)
      ∀ schedule : List (Fin lists.length),
        let s := run (Mutex.Threads.turn (getStatCode (backtracking loglinePattern)))
          (startThreads lists) schedule
        (AllJoined s → ∃ urls referers,
          Ranks urls getFields (fun f => urlOf f.request) LogFields.bytes ∧
            Ranks referers getFields (fun f => some f.referer) (fun _ => 1) ∧
            report (globals s.shared) = reportOf urls referers 2000) ∧
        ∃ more, AllJoined (run (Mutex.Threads.turn (getStatCode (backtracking loglinePattern)))
          (startThreads lists) (schedule ++ more)) := by
  have hfields : fieldsIn (logFiles exampleGlib exampleFs (logPathOf exampleArgv) exampleNames) =
      getFields := by rw [logFiles_example, fieldsIn_get]
  have hbytes : bytesOf getFields = 2000 := by decide +kernel
  have h := report_of_logs (backtracking_compiles loglinePattern) exampleGlib_documented
    (fun _ => some exampleNames) exampleFs exampleArgv exampleNames (by decide)
    (by decide +kernel) rfl (by decide +kernel) (by decide +kernel)
    (logFiles_example ▸ zero_notMem_get) (hfields ▸ withinLimits_get)
  rw [hfields] at h
  rw [← hbytes]
  exact h

end Homework.StatParser
