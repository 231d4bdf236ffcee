import Mathlib.Algebra.Ring.Nat
import Homework.StatParser.Url
import Homework.TopN.Wrapping

/-!
# Adding up the sizes

A size is read by `atoi`: `strtol` stops at `2 ^ 63 - 1`, and the conversion to `int` keeps
the low 32 bits, with a sign. The total takes this `int` as a `size_t`, and the container
adds it up in a `gint`. What the first conversion loses shows in both.
-/

namespace Homework.StatParser

set_option autoImplicit false

open Regex TopN

def LogFields.bytes (f : LogFields) : Nat := digitsValue f.size

/-- What `atoi` takes away from a number. -/
def lost (n : Nat) : Nat := if n < 2 ^ 63 then 2 ^ 32 * ((n + 2 ^ 31) / 2 ^ 32) else n + 1

def urlAdds (fields : List LogFields) : List (List UInt8 × Int) :=
  fields.filterMap fun f => (urlOf f.request).map fun url => (url, atoi f.size)

def withUrl (url : List UInt8) (fields : List LogFields) : List LogFields :=
  fields.filter fun f => urlOf f.request = some url

def bytesOf (fields : List LogFields) : Nat := (fields.map LogFields.bytes).sum

def lostOf (fields : List LogFields) : Nat := (fields.map fun f => lost f.bytes).sum

/-- The containers and the total, as they are created. -/
def Stats.init (urlCapacity refCapacity : Int) : Stats where
  urlToSz := topnContInit urlCapacity
  refToCt := topnContInit refCapacity
  totalSz := 0

structure SizesAccounted (urlCapacity : Int) (fields : List LogFields) (stats : Stats) : Prop where
  total : stats.totalSz = bytesOf fields
  urls : NoneEvicted urlCapacity (urlAdds fields) →
    ∀ url, valueIn stats.urlToSz.list url = bytesOf (withUrl url fields)

theorem atoi_size {f : LogFields} (hf : f.WellFormed) :
    atoi f.size = f.bytes - lost f.bytes ∧ InInt (atoi f.size) := by
  have hatoi := @atoi_append_of_digits f.size [] hf.size.1 hf.size.2 (by simp)
  rw [List.append_nil] at hatoi
  refine ⟨?_, isAtoi_atoi.inInt _⟩
  rw [hatoi, ← LogFields.bytes, lost, intOf, Int.bmod_def]
  split <;> split <;> omega

theorem lost_eq_zero {n : Nat} (h : (n : Int) ≤ intMax) : lost n = 0 := by
  unfold intMax at h
  rw [lost, if_pos (by omega)]
  omega

section Totals

theorem tsAdd_eq (total : Nat) (size : Int) :
    (tsAdd total (sizeOfInt size) : Int) = (total + size) % 2 ^ 64 := by
  unfold tsAdd sizeOfInt
  omega

theorem foldl_tsAdd {fields : List LogFields} (hfields : ∀ f ∈ fields, f.WellFormed)
    (total : Nat) (htotal : total < 2 ^ 64) :
    ((fields.foldl (fun total f => tsAdd total (sizeOfInt (atoi f.size))) total : Nat) : Int) =
      (total + bytesOf fields - lostOf fields) % 2 ^ 64 := by
  induction fields generalizing total with
  | nil =>
    simp only [List.foldl_nil, bytesOf, lostOf, List.map_nil, List.sum_nil]
    omega
  | cons f fields ih =>
    have hf := (atoi_size (hfields f (List.mem_cons_self ..))).1
    have hadd := tsAdd_eq total (atoi f.size)
    have hrec := ih (fun g hg => hfields g (List.mem_cons_of_mem f hg))
      (tsAdd total (sizeOfInt (atoi f.size))) (Nat.mod_lt _ (by decide))
    rw [hf] at hadd
    rw [List.foldl_cons, hrec, hf]
    simp only [bytesOf, lostOf, List.map_cons, List.sum_cons] at hadd ⊢
    omega

theorem totalOf_urlAdds {fields : List LogFields} (hfields : ∀ f ∈ fields, f.WellFormed)
    (url : List UInt8) : totalOf ↑(urlAdds fields) url =
      bytesOf (withUrl url fields) - lostOf (withUrl url fields) := by
  induction fields with
  | nil => rfl
  | cons f fields ih =>
    have hf := (atoi_size (hfields f (List.mem_cons_self ..))).1
    have hrec := ih fun g hg => hfields g (List.mem_cons_of_mem f hg)
    unfold urlAdds withUrl at hrec ⊢
    cases hurl : urlOf f.request with
    | none =>
      rw [List.filterMap_cons_none (by rw [hurl]; rfl), List.filter_cons_of_neg (by simp [hurl])]
      exact hrec
    | some key =>
      rw [List.filterMap_cons_some (by rw [hurl]; rfl), ← Multiset.cons_coe, totalOf_cons, hrec]
      by_cases heq : key = url
      · subst heq
        rw [List.filter_cons_of_pos (by simp [hurl]), if_pos rfl, hf]
        simp only [bytesOf, lostOf, List.map_cons, List.sum_cons]
        omega
      · rw [List.filter_cons_of_neg (by simp [hurl, heq]), if_neg (Ne.symm heq), Int.add_zero]

theorem bytesOf_withUrl_le (url : List UInt8) (fields : List LogFields) :
    bytesOf (withUrl url fields) ≤ bytesOf fields :=
  (List.filter_sublist.map _).sum_le_sum fun _ _ => Nat.zero_le _

theorem lostOf_eq_zero {fields : List LogFields} (h : (bytesOf fields : Int) ≤ intMax) :
    lostOf fields = 0 := by
  rw [lostOf, List.sum_eq_zero_iff]
  intro n hn
  obtain ⟨f, hf, rfl⟩ := List.mem_map.mp hn
  have hle : f.bytes ≤ bytesOf fields := List.single_le_sum (by simp) _ (List.mem_map_of_mem hf)
  exact lost_eq_zero (by omega)

theorem intOf_totalOf_iff {fields : List LogFields} (hfields : ∀ f ∈ fields, f.WellFormed)
    (url : List UInt8) : intOf (totalOf ↑(urlAdds fields) url) = bytesOf (withUrl url fields) ↔
      (bytesOf (withUrl url fields) : Int) ≤ intMax := by
  constructor
  · intro h
    rw [← h]
    have hlt : intOf (totalOf ↑(urlAdds fields) url) < 2 ^ 31 := Int.bmod_lt (by decide)
    unfold intMax
    omega
  · intro h
    have hlost := lostOf_eq_zero h
    rw [totalOf_urlAdds hfields, hlost, Int.natCast_zero, Int.sub_zero]
    exact intOf_eq (inInt_of_le (Int.natCast_nonneg _) h)

end Totals

section Lines
variable {ρ : Type} {pcre : Pcre ρ}

/-- A line and the fields it begins with. -/
def IsLineOf (logline : List UInt8) (f : LogFields) : Prop := 0 ∉ logline ∧ f.Matches logline

theorem parseCombinedLogline_eq (hpcre : pcre.Compiles loglinePattern) {logline : List UInt8}
    {f : LogFields} (h : IsLineOf logline f) (stats : Stats) :
    parseCombinedLogline pcre stats logline =
      { urlToSz := (urlAdds [f]).foldl (fun cont a => topnContAdd cont a.1 a.2) stats.urlToSz
        refToCt := topnContAdd stats.refToCt f.referer 1
        totalSz := tsAdd stats.totalSz (sizeOfInt (atoi f.size)) } := by
  rw [parseCombinedLogline, loglineCalls_of_matches hpcre h.1 h.2, requestCalls, urlAdds,
    List.filterMap_cons, List.filterMap_nil]
  cases urlOf f.request <;> rfl

theorem run_parseCombinedLogline (hpcre : pcre.Compiles loglinePattern)
    {loglines : List (List UInt8)} {fields : List LogFields}
    (h : List.Forall₂ IsLineOf loglines fields) (stats : Stats) :
    let after := run (parseCombinedLogline pcre) stats loglines
    after.urlToSz = (urlAdds fields).foldl (fun cont a => topnContAdd cont a.1 a.2) stats.urlToSz ∧
      after.totalSz =
        fields.foldl (fun total f => tsAdd total (sizeOfInt (atoi f.size))) stats.totalSz := by
  induction h generalizing stats with
  | nil => exact ⟨rfl, rfl⟩
  | @cons logline f loglines fields hline _ ih =>
    obtain ⟨hurls, htotals⟩ := ih (parseCombinedLogline pcre stats logline)
    rw [parseCombinedLogline_eq hpcre hline] at hurls htotals
    have hadds : urlAdds (f :: fields) = urlAdds [f] ++ urlAdds fields := by
      rw [urlAdds, ← List.singleton_append, List.filterMap_append]
      rfl
    constructor
    · rw [run_cons, parseCombinedLogline_eq hpcre hline, hurls, hadds, List.foldl_append]
    · rw [run_cons, parseCombinedLogline_eq hpcre hline, htotals, List.foldl_cons]

theorem wellFormed_of_lines {loglines : List (List UInt8)} {fields : List LogFields}
    (h : List.Forall₂ IsLineOf loglines fields) : ∀ f ∈ fields, f.WellFormed := by
  induction h with
  | nil => simp
  | cons hline _ ih => exact List.forall_mem_cons.mpr ⟨hline.2.wellFormed, ih⟩

theorem totalSz_run_iff (hpcre : pcre.Compiles loglinePattern) {loglines : List (List UInt8)}
    {fields : List LogFields} (hlines : List.Forall₂ IsLineOf loglines fields)
    (hsum : bytesOf fields < 2 ^ 64) (urlCapacity refCapacity : Int) :
    (run (parseCombinedLogline pcre) (Stats.init urlCapacity refCapacity) loglines).totalSz =
      bytesOf fields ↔ 2 ^ 64 ∣ lostOf fields := by
  obtain ⟨-, htotal⟩ := run_parseCombinedLogline hpcre hlines (Stats.init urlCapacity refCapacity)
  have hsums := foldl_tsAdd (wellFormed_of_lines hlines) 0 (by decide)
  rw [htotal, Stats.init]
  dsimp only
  omega

theorem valueIn_run (hpcre : pcre.Compiles loglinePattern) {loglines : List (List UInt8)}
    {fields : List LogFields} (hlines : List.Forall₂ IsLineOf loglines fields)
    {urlCapacity : Int} (refCapacity : Int) (hkept : NoneEvicted urlCapacity (urlAdds fields))
    (url : List UInt8) :
    valueIn (run (parseCombinedLogline pcre) (Stats.init urlCapacity refCapacity)
      loglines).urlToSz.list url = intOf (totalOf ↑(urlAdds fields) url) := by
  obtain ⟨hurls, -⟩ := run_parseCombinedLogline hpcre hlines (Stats.init urlCapacity refCapacity)
  rw [hurls]
  apply valueIn_topnContAdds _ hkept
  intro a ha
  obtain ⟨f, -, hmap⟩ := List.mem_filterMap.mp ha
  obtain ⟨url, -, rfl⟩ := Option.map_eq_some_iff.mp hmap
  exact isAtoi_atoi.inInt _

/-- The sizes add up exactly when what is lost of them is a multiple of `2 ^ 64`, and no URL
has more than an `int` holds. -/
theorem sizes_add_up_iff (hpcre : pcre.Compiles loglinePattern) (loglines : List (List UInt8))
    (fields : List LogFields) (hlines : List.Forall₂ IsLineOf loglines fields)
    (hsum : bytesOf fields < 2 ^ 64) (urlCapacity refCapacity : Int) :
    SizesAccounted urlCapacity fields
        (run (parseCombinedLogline pcre) (Stats.init urlCapacity refCapacity) loglines) ↔
      2 ^ 64 ∣ lostOf fields ∧ (NoneEvicted urlCapacity (urlAdds fields) →
        ∀ url, (bytesOf (withUrl url fields) : Int) ≤ intMax) := by
  have hfields := wellFormed_of_lines hlines
  have htotals := totalSz_run_iff hpcre hlines hsum urlCapacity refCapacity
  constructor
  · rintro ⟨htotal, hurls⟩
    refine ⟨htotals.mp htotal, fun hkept url => ?_⟩
    rw [← intOf_totalOf_iff hfields, ← valueIn_run hpcre hlines refCapacity hkept]
    exact hurls hkept url
  · rintro ⟨hdvd, hurls⟩
    refine ⟨htotals.mpr hdvd, fun hkept url => ?_⟩
    rw [valueIn_run hpcre hlines refCapacity hkept, intOf_totalOf_iff hfields]
    exact hurls hkept url

end Lines

/-- A request for `/a` that took `size` bytes. -/
def getOf (size : String) : LogFields := { requestFor "GET" with size := ascii size }

/-- As `getline` returns it. -/
def LogFields.line (f : LogFields) : List UInt8 := f.text ++ [10]

theorem matches_line {f : LogFields} (hf : f.WellFormed) (h : f.line.length < 2 ^ 31) :
    f.Matches f.line := ⟨hf, _, subjectOf_of_short h, List.prefix_append _ _⟩

def getFields : List LogFields := [getOf "1500", getOf "500"]

def getText : List UInt8 := getFields.flatMap LogFields.line

theorem isLineOf_getFields : List.Forall₂ IsLineOf (getFields.map LogFields.line) getFields := by
  refine .cons ⟨by decide +kernel, ?_⟩ (.cons ⟨by decide +kernel, ?_⟩ .nil)
  all_goals
    apply matches_line
    · constructor <;> decide +kernel
    · decide +kernel

theorem noneEvicted_getFields : NoneEvicted 1000 (urlAdds getFields) := by
  have hinits : ∀ done ∈ (urlAdds getFields).inits,
      ∀ a ∈ done, a.1 ∈ keys (topnContAdds 1000 done).list := by decide +kernel
  exact fun done hdone => hinits done ((List.mem_inits _ _).mpr hdone)

theorem sizes_add_up_iff_of_get :
    let stats := run (parseCombinedLogline (backtracking loglinePattern)) (Stats.init 1000 1000)
      (getFields.map LogFields.line)
    SizesAccounted 1000 getFields stats ∧ stats.totalSz = 2000 ∧
      valueIn stats.urlToSz.list (ascii "/a") = 2000 := by
  intro stats
  have hbytes : bytesOf getFields = 2000 := by decide +kernel
  have hlost : lostOf getFields = 0 := by decide +kernel
  have hfit : ∀ url, (bytesOf (withUrl url getFields) : Int) ≤ intMax := by
    intro url
    have hle := bytesOf_withUrl_le url getFields
    unfold intMax
    omega
  have haccounted := (sizes_add_up_iff (backtracking_compiles loglinePattern) _ getFields
    isLineOf_getFields (by omega) 1000 1000).mpr ⟨hlost ▸ Nat.dvd_zero _, fun _ => hfit⟩
  refine ⟨haccounted, haccounted.total.trans hbytes, ?_⟩
  rw [haccounted.urls noneEvicted_getFields]
  decide +kernel

/-- Three thousand million is negative as an `int`. -/
def largeSize : LogFields := getOf "3000000000"

theorem large_size_is_not_added : bytesOf [largeSize] = 3000000000 ∧
    ¬ SizesAccounted 1000 [largeSize]
      (run (parseCombinedLogline (backtracking loglinePattern)) (Stats.init 1000 1000)
        [largeSize.text]) := by
  have hmatches : largeSize.Matches largeSize.text := by
    apply matches_text
    · constructor <;> decide +kernel
    · decide
  have hbytes : bytesOf [largeSize] = 3000000000 := by decide
  have hlost : lostOf [largeSize] = 2 ^ 32 := by decide
  refine ⟨hbytes, fun h => ?_⟩
  have hdvd := (totalSz_run_iff (backtracking_compiles loglinePattern)
    (.cons ⟨by decide, hmatches⟩ .nil) (by omega) 1000 1000).mp h.total
  rw [hlost] at hdvd
  revert hdvd
  decide

end Homework.StatParser
