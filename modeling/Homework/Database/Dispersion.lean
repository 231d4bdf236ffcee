import Homework.Shared.CInt
import Homework.Shared.Variance

/-!
# The statistics of a column

`get_stat` of `hw15-database/main.c`, on the rows of a column. An aggregate is computed by
SQLite, the dispersion by a loop over the rows around the mean that SQLite reports as an
`int`. What `sqlite3_column_int` returns for the row of an aggregate is a parameter.
-/

namespace Homework.Database

set_option autoImplicit false

inductive Op where
  | sum
  | avg
  | max
  | min
  | dsp
  deriving DecidableEq

/-- The rows of a column. A `NULL` is `none`. -/
abbrev Column := List (Option Int)

def values (column : Column) : List Int := column.filterMap id

/-- `sqlite3_column_int` of a row. -/
def columnInt (row : Option Int) : Int := intOf (row.getD 0)

/-- The variables of the loop, and the positions of the rows that are in `sum` and `cnt`. -/
structure Dispersion where
  sum : Int
  cnt : Int
  rows : List Nat
  deriving DecidableEq

def addRow (avg : Int) (d : Dispersion) (row : Option Int × Nat) : Dispersion :=
  let val := intOf (columnInt row.1 - avg)
  { sum := intAdd d.sum (intOf (val * val)), cnt := intAdd d.cnt 1, rows := d.rows ++ [row.2] }

def dispersion (avg : Int) (column : Column) : Dispersion :=
  column.zipIdx.foldl (addRow avg) { sum := 0, cnt := 0, rows := [] }

section GetStat

variable (aggregate : Op → Column → Int)

/-- `get_stat`, or `none` if it divides by zero. -/
def getStat (op : Op) (column : Column) : Option Int :=
  if op ≠ .dsp then some (aggregate op column)
  else
    let d := dispersion (aggregate .avg column) column
    if d.cnt = 0 then none else some (d.sum.tdiv d.cnt)

end GetStat

/-- What is relied on of SQLite: `avg` ignores the rows that are `NULL`, and read as an `int` it
is the mean truncated towards zero, or 0 if there is none. -/
def IsAvg (avg : Column → Int) : Prop :=
  ∀ column, (∀ v ∈ values column, InInt v) →
    avg column = (values column).sum.tdiv (values column).length

/-- The aggregates by their definition. -/
def exactAggregate : Op → Column → Int
  | .sum, column => (values column).sum
  | .avg, column => (values column).sum.tdiv (values column).length
  | .max, column => (values column).max?.getD 0
  | .min, column => (values column).min?.getD 0
  | .dsp, _ => 0

theorem isAvg_exactAggregate : IsAvg (exactAggregate .avg) := fun _ _ => rfl

/-! ## The loop -/

theorem dispersion_concat (avg : Int) (column : Column) (row : Option Int) :
    dispersion avg (column ++ [row]) = addRow avg (dispersion avg column) (row, column.length) := by
  simp [dispersion, List.zipIdx_append]

theorem rows_dispersion (avg : Int) (column : Column) :
    (dispersion avg column).rows = List.range column.length := by
  induction column using List.reverseRecOn with
  | nil => rfl
  | append_singleton column row ih =>
    rw [dispersion_concat, addRow, List.length_append, List.length_singleton, List.range_succ, ih]

theorem cnt_dispersion (avg : Int) (column : Column) :
    (dispersion avg column).cnt = intOf column.length := by
  induction column using List.reverseRecOn with
  | nil => rfl
  | append_singleton column row ih =>
    rw [dispersion_concat, addRow, List.length_append, List.length_singleton, ih]
    unfold intAdd intOf
    rw [Int.bmod_add_bmod, Nat.cast_succ]

/-! ## Accuracy -/

/-- No `int` overflows while the squares of the distances from `avg` are added up. -/
structure NoOverflow (avg : Int) (vs : List Int) : Prop where
  value : ∀ v ∈ vs, InInt v
  distance : ∀ v ∈ vs, InInt (v - avg)
  square : ∀ v ∈ vs, InInt ((v - avg) ^ 2)
  sum : ∀ passed, passed <+: vs → InInt (passed.map fun v => (v - avg) ^ 2).sum
  cnt : InInt vs.length

theorem NoOverflow.of_prefix {avg : Int} {vs passed : List Int} (h : NoOverflow avg vs)
    (hpassed : passed <+: vs) : NoOverflow avg passed where
  value v hv := h.value v (hpassed.subset hv)
  distance v hv := h.distance v (hpassed.subset hv)
  square v hv := h.square v (hpassed.subset hv)
  sum passed' hpassed' := h.sum passed' (hpassed'.trans hpassed)
  cnt := by
    have hlen := hpassed.length_le
    obtain ⟨-, hhi⟩ := h.cnt
    exact ⟨by omega, by omega⟩

theorem sum_dispersion {avg : Int} {vs : List Int} (h : NoOverflow avg vs) :
    (dispersion avg (vs.map some)).sum = (vs.map fun v => (v - avg) ^ 2).sum := by
  induction vs using List.reverseRecOn with
  | nil => rfl
  | append_singleton vs v ih =>
    have hbefore := ih (h.of_prefix (List.prefix_append _ _))
    have hv : v ∈ vs ++ [v] := by simp
    have hsum := h.sum (vs ++ [v]) (List.prefix_refl _)
    rw [List.map_append, List.sum_append, List.map_singleton, List.sum_singleton] at hsum
    have hread : columnInt (some v) = v := intOf_eq (h.value v hv)
    rw [List.map_append, List.map_singleton, dispersion_concat, addRow, hbefore, hread]
    dsimp only
    rw [intOf_eq (h.distance v hv), ← pow_two, intOf_eq (h.square v hv), intAdd_eq hsum,
      List.map_append, List.sum_append, List.map_singleton, List.sum_singleton]

theorem values_map_some (vs : List Int) : values (vs.map some) = vs := by
  simp [values, List.filterMap_map]

/-- Both truncations together cost less than 1. -/
theorem dispersion_is_accurate {aggregate : Op → Column → Int} (havg : IsAvg (aggregate .avg))
    {vs : List Int} (hne : vs ≠ []) (hfit : NoOverflow (aggregate .avg (vs.map some)) vs) :
    ∃ res, getStat aggregate .dsp (vs.map some) = some res ∧
      |(res : ℚ) - variance (vs.map (Int.cast : Int → ℚ))| < 1 := by
  have hcnt : (dispersion (aggregate .avg (vs.map some)) (vs.map some)).cnt = vs.length := by
    rw [cnt_dispersion, List.length_map, intOf_eq hfit.cnt]
  have hpos := List.length_pos_of_ne_nil hne
  have hmean := havg (vs.map some)
  rw [values_map_some] at hmean
  have hmean := hmean hfit.value
  refine ⟨_, ?_, abs_tdiv_sub_variance_lt_one hne hmean⟩
  rw [getStat, if_neg (not_not.mpr rfl)]
  dsimp only
  rw [hcnt, if_neg (by omega), sum_dispersion hfit]

theorem dispersion_is_accurate_of_three :
    ∃ res, getStat exactAggregate .dsp ([-3, 4, 5].map some) = some res ∧
      |(res : ℚ) - variance ([-3, 4, 5].map (Int.cast : Int → ℚ))| < 1 := by
  have hfit : NoOverflow (exactAggregate .avg ([-3, 4, 5].map some)) [-3, 4, 5] := by
    refine ⟨by decide, by decide, by decide, fun passed hpassed => ?_, by decide⟩
    rw [← List.mem_inits] at hpassed
    revert passed
    decide
  exact dispersion_is_accurate isAvg_exactAggregate (by decide) hfit

end Homework.Database
