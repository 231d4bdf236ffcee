import Mathlib.Algebra.BigOperators.Fin
import Mathlib.Tactic.Abel
import Homework.TopN.Threads

/-!
# The statistics do not depend on the schedule

All lines of all files are at every moment in exactly one of three places: counted in the
globals, counted in a thread's own containers, or still to be read. Each step of a thread
moves some from one place to another, so once the threads are joined the globals have them
all, in whatever order the steps came and however the files were dealt out.
-/

namespace Homework.TopN

set_option autoImplicit false

universe u
variable {κ : Type u}

def linesOf (fileList : List (LogFile κ)) : List (LogLine κ) :=
  (fileList.map fun file => file.getD []).flatten

def urlAdds (lines : List (LogLine κ)) : Multiset (κ × Int) :=
  (lines.map fun line => (line.url, (line.size : Int)) : List (κ × Int))

def refAdds (lines : List (LogLine κ)) : Multiset (κ × Int) :=
  (lines.map fun line => (line.referer, 1) : List (κ × Int))

/-- What some lines contribute to the URL sizes, to the referer counts and to the total. -/
abbrev Dues (κ : Type u) := Multiset (κ × Int) × Multiset (κ × Int) × Nat

def dues (lines : List (LogLine κ)) : Dues κ :=
  (urlAdds lines, refAdds lines, (lines.map LogLine.size).sum)

@[simp] theorem dues_nil : dues ([] : List (LogLine κ)) = 0 := rfl

theorem dues_append (lines lines' : List (LogLine κ)) :
    dues (lines ++ lines') = dues lines + dues lines' := by
  simp [dues, urlAdds, refAdds]

theorem dues_cons (line : LogLine κ) (lines : List (LogLine κ)) :
    dues (line :: lines) = dues [line] + dues lines := dues_append [line] lines

theorem dues_linesOf_flatten (lists : List (List (LogFile κ))) :
    dues (linesOf lists.flatten) = (lists.map fun l => dues (linesOf l)).sum := by
  induction lists with
  | nil => rfl
  | cons l lists ih =>
    rw [List.flatten_cons, List.map_cons, List.sum_cons, ← ih, ← dues_append, linesOf, linesOf,
      linesOf, List.map_append, List.flatten_append]

theorem dues_line (urls refs : Multiset (κ × Int)) (line : LogLine κ) :
    ((line.url, (line.size : Int)) ::ₘ urls, (line.referer, (1 : Int)) ::ₘ refs, 0) +
      (0, 0, line.size) = (urls, refs, 0) + dues [line] := by
  refine Prod.ext ?_ (Prod.ext ?_ ?_)
  · exact (add_zero _).trans ((Multiset.singleton_add _ _).symm.trans (add_comm _ _))
  · exact (add_zero _).trans ((Multiset.singleton_add _ _).symm.trans (add_comm _ _))
  · rfl

variable [DecidableEq κ]

structure Holds (gl : Globals κ) (held : Dues κ) : Prop where
  url : Complete (top * 100) gl.glUrlToSz held.1
  ref : Complete (top * 100) gl.glRefToCt held.2.1
  total : gl.glTotalSize = held.2.2

/-- A thread has counted or still has to read exactly what `owed` says. -/
inductive Owes : GetStat κ → Dues κ → Prop
  | next (fileList : List (LogFile κ)) : Owes (.next fileList) (dues (linesOf fileList))
  | reading {urlToSz refToCt : TopNContainer κ} {urls refs : Multiset (κ × Int)}
      (lines : List (LogLine κ)) (fileList : List (LogFile κ))
      (hurl : Complete (top * 100) urlToSz urls) (href : Complete (top * 100) refToCt refs) :
      Owes (.reading urlToSz refToCt lines fileList)
        ((urls, refs, 0) + dues (lines ++ linesOf fileList))
  | merging {refToCt : TopNContainer κ} {refs : Multiset (κ × Int)}
      (fileList : List (LogFile κ)) (href : Complete (top * 100) refToCt refs) :
      Owes (.merging refToCt fileList) ((0, refs, 0) + dues (linesOf fileList))

structure DuesFit (total : Dues κ) : Prop where
  urls : Fits (top * 100) total.1
  refs : Fits (top * 100) total.2.1
  size : total.2.2 < 2 ^ 64

theorem DuesFit.part {total part : Dues κ} (h : DuesFit total) (rest : Dues κ)
    (hsum : part + rest = total) : DuesFit part := by
  subst total
  exact ⟨h.urls.part, h.refs.part, Nat.lt_of_le_of_lt (Nat.le_add_right _ _) h.size⟩

theorem complete_init : Complete (top * 100) (topnContInit (κ := κ) (top * 100)) 0 :=
  Complete.init rfl

theorem Holds.line {gl : Globals κ} {held : Dues κ} (h : Holds gl held) {size : Nat}
    (hfit : DuesFit (held + (0, 0, size))) :
    Holds { gl with glTotalSize := tsAdd gl.glTotalSize size } (held + (0, 0, size)) where
  url := by simpa using h.url
  ref := by simpa using h.ref
  total := by
    rw [tsAdd, h.total]
    exact Nat.mod_eq_of_lt hfit.size

theorem Holds.mergeUrl {gl : Globals κ} {held : Dues κ} (h : Holds gl held)
    {cont : TopNContainer κ} {urls : Multiset (κ × Int)} (hcont : Complete (top * 100) cont urls)
    (hfit : DuesFit (held + (urls, 0, 0))) :
    Holds { gl with glUrlToSz := topnContMerge gl.glUrlToSz cont } (held + (urls, 0, 0)) where
  url := h.url.merge hcont hfit.urls
  ref := by simpa using h.ref
  total := h.total

theorem Holds.mergeRef {gl : Globals κ} {held : Dues κ} (h : Holds gl held)
    {cont : TopNContainer κ} {refs : Multiset (κ × Int)} (hcont : Complete (top * 100) cont refs)
    (hfit : DuesFit (held + (0, refs, 0))) :
    Holds { gl with glRefToCt := topnContMerge gl.glRefToCt cont } (held + (0, refs, 0)) where
  url := by simpa using h.url
  ref := h.ref.merge hcont hfit.refs
  total := h.total

theorem getStat_transfers {total : Dues κ} (hfit : DuesFit total) :
    System.Transfers (getStat (κ := κ)) Holds Owes total := by
  intro gl worker held owed rest hheld howed hsum
  cases howed with
  | next fileList =>
    cases fileList with
    | nil => exact ⟨held, _, hheld, .next [], rfl⟩
    | cons file fileList =>
      cases file with
      | none => exact ⟨held, _, hheld, .next fileList, rfl⟩
      | some lines =>
        refine ⟨held, _, hheld, .reading lines fileList complete_init complete_init, ?_⟩
        exact congrArg (held + ·) (zero_add _)
  | @reading urlToSz refToCt urls refs lines fileList hurl href =>
    cases lines with
    | cons line lines =>
      have hline := dues_line urls refs line
      have hmoved : held + (0, 0, line.size) +
          (((line.url, (line.size : Int)) ::ₘ urls, (line.referer, (1 : Int)) ::ₘ refs, 0) +
            dues (lines ++ linesOf fileList)) =
          held + ((urls, refs, 0) + dues (line :: lines ++ linesOf fileList)) := by
        rw [List.cons_append, dues_cons, ← add_assoc (urls, refs, 0), ← hline]
        abel
      rw [← hmoved] at hsum
      have hgl : DuesFit (held + (0, 0, line.size)) :=
        hfit.part _ ((add_assoc _ _ _).symm.trans hsum)
      have hown : DuesFit
          ((line.url, (line.size : Int)) ::ₘ urls, (line.referer, (1 : Int)) ::ₘ refs, 0) :=
        hfit.part (held + (0, 0, line.size) + dues (lines ++ linesOf fileList) + rest) (by
          rw [← hsum]
          abel)
      exact ⟨_, _, hheld.line hgl,
        .reading lines fileList (hurl.add hown.urls) (href.add hown.refs), hmoved⟩
    | nil =>
      have hsplit : ((urls, refs, 0) : Dues κ) = (urls, 0, 0) + (0, refs, 0) := by simp
      have hmoved : held + (urls, 0, 0) + ((0, refs, 0) + dues (linesOf fileList)) =
          held + ((urls, refs, 0) + dues (linesOf fileList)) := by
        rw [hsplit]
        abel
      have hgl : DuesFit (held + (urls, 0, 0)) :=
        hfit.part ((0, refs, 0) + dues (linesOf fileList) + rest) (by
          rw [← hsum, List.nil_append, ← hmoved]
          abel)
      exact ⟨_, _, hheld.mergeUrl hurl hgl, .merging fileList href, hmoved⟩
  | @merging refToCt refs fileList href =>
    refine ⟨_, _, hheld.mergeRef href (hfit.part (dues (linesOf fileList) + rest) ?_),
      .next fileList, ?_⟩
    · rw [← hsum]
      abel
    · abel

/-! ## The sizes fit in the total -/

theorem sum_eq_sum_totalOf {adds : Multiset (κ × Int)} {ks : Finset κ}
    (h : ∀ a ∈ adds, a.1 ∈ ks) : (adds.map Prod.snd).sum = ∑ k ∈ ks, totalOf adds k := by
  induction adds using Multiset.induction with
  | empty => simp
  | cons a adds ih =>
    have ha := h a (Multiset.mem_cons_self _ _)
    rw [Multiset.map_cons, Multiset.sum_cons, ih fun b hb => h b (Multiset.mem_cons_of_mem hb)]
    simp only [totalOf_cons, Finset.sum_add_distrib, Finset.sum_ite_eq', ha, if_true]
    exact Int.add_comm _ _

omit [DecidableEq κ] in
theorem sum_urlAdds (lines : List (LogLine κ)) :
    ((urlAdds lines).map Prod.snd).sum = ((lines.map LogLine.size).sum : Nat) := by
  induction lines with
  | nil => rfl
  | cons line lines ih =>
    have hcons : urlAdds (line :: lines) = (line.url, (line.size : Int)) ::ₘ urlAdds lines := rfl
    rw [hcons, Multiset.map_cons, Multiset.sum_cons, ih]
    simp

theorem size_lt {lines : List (LogLine κ)} (h : Fits (top * 100) (urlAdds lines)) :
    (lines.map LogLine.size).sum < 2 ^ 64 := by
  have hsum : ((urlAdds lines).map Prod.snd).sum =
      ∑ k ∈ distinctKeys (urlAdds lines), totalOf (urlAdds lines) k :=
    sum_eq_sum_totalOf fun a ha => mem_distinctKeys.mpr ⟨a, ha, rfl⟩
  have hle := Finset.sum_le_card_nsmul (distinctKeys (urlAdds lines)) (totalOf (urlAdds lines))
    intMax fun k _ => h.total_le k
  have hkeys := h.keys_le
  rw [← hsum, sum_urlAdds, nsmul_eq_mul] at hle
  have hbound : ((distinctKeys (urlAdds lines)).card : Int) * intMax ≤ (top * 100 : Nat) * intMax :=
    Int.mul_le_mul_of_nonneg_right (by exact_mod_cast hkeys) (by decide)
  have hval : ((top * 100 : Nat) : Int) * intMax < 2 ^ 64 := by decide
  omega

/-! ## Every thread ends -/

def turnsLeft : GetStat κ → Nat
  | .next fileList => fileTurns fileList
  | .reading _ _ lines fileList => lines.length + 2 + fileTurns fileList
  | .merging _ fileList => 1 + fileTurns fileList
where
  fileTurns : List (LogFile κ) → Nat
    | [] => 0
    | none :: fileList => 1 + fileTurns fileList
    | some lines :: fileList => lines.length + 3 + fileTurns fileList

theorem getStat_turnsLeft (gl : Globals κ) (worker : GetStat κ) (h : turnsLeft worker ≠ 0) :
    turnsLeft (getStat gl worker).2 < turnsLeft worker := by
  cases worker with
  | next fileList =>
    cases fileList with
    | nil => exact absurd rfl h
    | cons file fileList =>
      cases file <;> simp only [getStat, turnsLeft, turnsLeft.fileTurns] <;> omega
  | reading urlToSz refToCt lines fileList =>
    cases lines <;> simp only [getStat, turnsLeft, List.length_cons, List.length_nil] <;> omega
  | merging refToCt fileList =>
    simp only [getStat, turnsLeft]
    omega

omit [DecidableEq κ] in
theorem eq_next_nil_of_turnsLeft {worker : GetStat κ} (h : turnsLeft worker = 0) :
    worker = .next [] := by
  cases worker with
  | next fileList =>
    cases fileList with
    | nil => rfl
    | cons file fileList =>
      cases file <;> simp only [turnsLeft, turnsLeft.fileTurns] at h <;> omega
  | reading urlToSz refToCt lines fileList => simp only [turnsLeft] at h; omega
  | merging refToCt fileList => simp only [turnsLeft] at h; omega

/-! ## The result -/

variable {fileList : List (LogFile κ)} {threadCount : Nat}

theorem start_balanced (hpos : 1 ≤ threadCount) :
    System.Balanced Holds Owes (dues (linesOf fileList)) (start fileList threadCount) := by
  refine ⟨0, fun i => dues (linesOf ((threadFileLists fileList threadCount).get i)),
    ⟨complete_init, complete_init, rfl⟩, fun i => .next _, ?_⟩
  have hsum := dues_linesOf_flatten (threadFileLists fileList threadCount)
  rw [flatten_threadFileLists fileList hpos] at hsum
  rw [zero_add, hsum]
  exact Fin.sum_univ_fun_getElem (threadFileLists fileList threadCount) fun l => dues (linesOf l)

theorem duesFit (hurls : (distinctKeys (urlAdds (linesOf fileList))).card ≤ top * 100)
    (hrefs : (distinctKeys (refAdds (linesOf fileList))).card ≤ top * 100)
    (hsizes : ∀ url, totalOf (urlAdds (linesOf fileList)) url ≤ intMax)
    (hcounts : ∀ referer, totalOf (refAdds (linesOf fileList)) referer ≤ intMax) :
    DuesFit (dues (linesOf fileList)) := by
  have hurl : Fits (top * 100) (urlAdds (linesOf fileList)) :=
    ⟨by simp [urlAdds], hsizes, hurls⟩
  exact ⟨hurl, ⟨by simp [dues, refAdds], hcounts, hrefs⟩, size_lt hurl⟩

/-- With at most `top * 100` URLs and referers in all files and no sum past the `gint`
maximum, the globals have after the join exactly the totals over all files, whatever the
schedule and the number of threads. And every schedule can be completed to a join. -/
theorem statistics_of_joined_threads (fileList : List (LogFile κ)) (threadCount : Nat)
    (hpos : 1 ≤ threadCount)
    (hurls : (distinctKeys (urlAdds (linesOf fileList))).card ≤ top * 100)
    (hrefs : (distinctKeys (refAdds (linesOf fileList))).card ≤ top * 100)
    (hsizes : ∀ url, totalOf (urlAdds (linesOf fileList)) url ≤ intMax)
    (hcounts : ∀ referer, totalOf (refAdds (linesOf fileList)) referer ≤ intMax) :
    ∀ schedule,
      (Joined (run (System.step getStat) (start fileList threadCount) schedule) →
        let gl := (run (System.step getStat) (start fileList threadCount) schedule).shared
        Tallies gl.glUrlToSz.list (urlAdds (linesOf fileList)) ∧
          Tallies gl.glRefToCt.list (refAdds (linesOf fileList)) ∧
          gl.glTotalSize = ((linesOf fileList).map LogLine.size).sum) ∧
      ∃ rest, Joined
        (run (System.step getStat) (start fileList threadCount) (schedule ++ rest)) := by
  intro schedule
  constructor
  · intro hjoined gl
    have hfit := duesFit hurls hrefs hsizes hcounts
    have hpaid : ∀ i m, Owes ((run (System.step getStat) (start fileList threadCount)
        schedule).workers i) m → m = 0 := by
      intro i m howes
      rw [hjoined i] at howes
      cases howes
      rfl
    have hgl := System.holds_total (getStat_transfers hfit) (start_balanced hpos) hpaid
    exact ⟨hgl.url.tallies, hgl.ref.tallies, hgl.total⟩
  · obtain ⟨rest, hrest⟩ := System.exists_schedule_to_end getStat_turnsLeft
      (run (System.step getStat) (start fileList threadCount) schedule)
    refine ⟨rest, fun i => ?_⟩
    rw [run_append]
    exact eq_next_nil_of_turnsLeft (hrest i)

theorem statistics_of_two_threads :
    let fileList : List (LogFile Bool) := [some [⟨true, 3, false⟩], none, some [⟨true, 4, true⟩]]
    ∀ schedule,
      (Joined (run (System.step getStat) (start fileList 2) schedule) →
        let gl := (run (System.step getStat) (start fileList 2) schedule).shared
        Tallies gl.glUrlToSz.list (urlAdds (linesOf fileList)) ∧
          Tallies gl.glRefToCt.list (refAdds (linesOf fileList)) ∧
          gl.glTotalSize = ((linesOf fileList).map LogLine.size).sum) ∧
      ∃ rest, Joined (run (System.step getStat) (start fileList 2) (schedule ++ rest)) :=
  statistics_of_joined_threads _ 2 (by decide) (by decide) (by decide)
    (fun url => by cases url <;> decide) (fun referer => by cases referer <;> decide)

end Homework.TopN
