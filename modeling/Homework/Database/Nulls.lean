import Homework.Database.Dispersion

/-!
# Columns with NULLs

SQLite averages the rows that are not `NULL`. The loop of `get_stat` adds every row, a `NULL`
for the number 0, and divides by their number, which may be 0.
-/

namespace Homework.Database

set_option autoImplicit false

/-- The positions of the rows that SQLite averages. -/
def averagedRows (column : Column) : List Nat :=
  (column.zipIdx.filter fun row => row.1.isSome).map Prod.snd

/-- The dispersion is there, it is taken over the rows of the mean, and the `NULL`s of the
column make no difference to it. -/
structure IgnoresNulls (aggregate : Op → Column → Int) (column : Column) : Prop where
  divides : getStat aggregate .dsp column ≠ none
  rows : (dispersion (aggregate .avg column) column).rows = averagedRows column
  same : getStat aggregate .dsp column = getStat aggregate .dsp ((values column).map some)

theorem getStat_dsp_ne_none_iff (aggregate : Op → Column → Int) (column : Column) :
    getStat aggregate .dsp column ≠ none ↔ column.length % 2 ^ 32 ≠ 0 := by
  have hcnt : intOf column.length = 0 ↔ column.length % 2 ^ 32 = 0 := by
    rw [intOf, Int.bmod_def]
    split <;> omega
  rw [getStat, if_neg (not_not.mpr rfl)]
  dsimp only
  rw [cnt_dispersion, Ne, Ne, ← hcnt]
  split
  · rename_i h
    simp [h]
  · rename_i h
    simp [h]

theorem forall_isSome_zipIdx_iff (column : Column) :
    (∀ row ∈ column.zipIdx, row.1.isSome = true) ↔ none ∉ column := by
  have hcolumn := List.zipIdx_map_fst 0 column
  constructor
  · intro h hnone
    rw [← hcolumn] at hnone
    obtain ⟨row, hrow, hfst⟩ := List.mem_map.mp hnone
    have hsome := h row hrow
    rw [hfst] at hsome
    cases hsome
  · intro h row hrow
    rw [Option.isSome_iff_ne_none]
    intro hfst
    apply h
    rw [← hcolumn, ← hfst]
    exact List.mem_map_of_mem hrow

theorem map_some_values {column : Column} (h : none ∉ column) :
    (values column).map some = column := by
  induction column with
  | nil => rfl
  | cons row column ih =>
    rw [List.mem_cons, not_or] at h
    cases row with
    | none => exact absurd rfl h.1
    | some v =>
      have hrest := ih h.2
      simpa [values] using hrest

/-- A `NULL` is added, and it is not averaged. -/
theorem rows_eq_averagedRows_iff (avg : Int) (column : Column) :
    (dispersion avg column).rows = averagedRows column ↔ none ∉ column := by
  rw [rows_dispersion, averagedRows, List.range_eq_range', ← List.zipIdx_map_snd 0 column,
    ← forall_isSome_zipIdx_iff]
  constructor
  · intro h
    have hlen := congrArg List.length h
    rw [List.length_map, List.length_map] at hlen
    exact List.length_filter_eq_length_iff.mp hlen.symm
  · intro h
    rw [List.filter_eq_self.mpr h]

theorem nulls_are_ignored_iff (aggregate : Op → Column → Int) (column : Column) :
    IgnoresNulls aggregate column ↔ none ∉ column ∧ column.length % 2 ^ 32 ≠ 0 := by
  rw [← getStat_dsp_ne_none_iff aggregate]
  constructor
  · intro h
    exact ⟨(rows_eq_averagedRows_iff _ column).mp h.rows, h.divides⟩
  · rintro ⟨hnull, hdivides⟩
    refine ⟨hdivides, (rows_eq_averagedRows_iff _ column).mpr hnull, ?_⟩
    rw [map_some_values hnull]

theorem nulls_are_not_ignored :
    ¬ IgnoresNulls exactAggregate [some 2, none] ∧ getStat exactAggregate .dsp [] = none := by
  constructor
  · intro h
    have hsame := h.same
    revert hsame
    decide
  · decide

end Homework.Database
