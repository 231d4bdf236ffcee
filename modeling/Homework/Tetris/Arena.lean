import Mathlib.Data.List.Range

/-!
# The arena

`hw17-tetris/game.c`: a field of 10 columns and 20 rows, indexed column first, row 0 on top.
An access outside the field has no value, so a function that makes one returns `none`.
-/

namespace Homework.Tetris

set_option autoImplicit false

def arenaWidth : Int := 10
def arenaHeight : Int := 20

abbrev Arena := Int → Int → Int

def InArena (x y : Int) : Prop := (0 ≤ x ∧ x < arenaWidth) ∧ 0 ≤ y ∧ y < arenaHeight

instance (x y : Int) : Decidable (InArena x y) := inferInstanceAs (Decidable (_ ∧ _))

def readArena (arena : Arena) (x y : Int) : Option Int :=
  if InArena x y then some (arena x y) else none

def setCell (arena : Arena) (x y value : Int) : Arena :=
  fun x' y' => if x' = x ∧ y' = y then value else arena x' y'

def writeArena (arena : Arena) (x y value : Int) : Option Arena :=
  if InArena x y then some (setCell arena x y value) else none

theorem readArena_eq {x y : Int} (h : InArena x y) (arena : Arena) :
    readArena arena x y = some (arena x y) := if_pos h

theorem writeArena_eq {x y : Int} (h : InArena x y) (arena : Arena) (value : Int) :
    writeArena arena x y value = some (setCell arena x y value) := if_pos h

@[simp] theorem setCell_self (arena : Arena) (x y value : Int) :
    setCell arena x y value x y = value := if_pos ⟨rfl, rfl⟩

theorem setCell_of_ne (arena : Arena) {x y x' y' : Int} (value : Int) (h : ¬ (x' = x ∧ y' = y)) :
    setCell arena x y value x' y' = arena x' y' := if_neg h

def Binary (arena : Arena) : Prop := ∀ x y, InArena x y → arena x y = 0 ∨ arena x y = 1

/-- The values of the loop variable in `for (int x = 0; x < ARENA_WIDTH; ++x)`. -/
def columns : List Int := (List.range 10).map Nat.cast

theorem mem_columns {x : Int} : x ∈ columns ↔ 0 ≤ x ∧ x < arenaWidth := by
  simp only [columns, arenaWidth, List.mem_map, List.mem_range]
  constructor
  · rintro ⟨n, hn, rfl⟩
    omega
  · rintro ⟨h₀, h⟩
    exact ⟨x.toNat, by omega, by omega⟩

/-! ## Rows -/

def rowOf (arena : Arena) (y : Int) : List Int := columns.map fun x => arena x y

def rows (arena : Arena) : List (List Int) := (List.range 20).map fun y : Nat => rowOf arena y

@[simp] theorem length_rowOf (arena : Arena) (y : Int) : (rowOf arena y).length = 10 := by
  simp [rowOf, columns]

@[simp] theorem length_rows (arena : Arena) : (rows arena).length = 20 := by simp [rows]

theorem getElem_rows (arena : Arena) {y : Nat} (h : y < (rows arena).length) :
    (rows arena)[y] = rowOf arena y := by simp [rows]

theorem rowOf_congr {arena arena' : Arena} {y y' : Int}
    (h : ∀ x, 0 ≤ x → x < arenaWidth → arena x y = arena' x y') :
    rowOf arena y = rowOf arena' y' := by
  apply List.map_congr_left
  intro x hx
  obtain ⟨h₀, h₁⟩ := mem_columns.mp hx
  exact h x h₀ h₁

theorem mem_rowOf {arena : Arena} {y v : Int} :
    v ∈ rowOf arena y ↔ ∃ x, (0 ≤ x ∧ x < arenaWidth) ∧ arena x y = v := by
  simp only [rowOf, List.mem_map, mem_columns]

theorem mem_rows {arena : Arena} {row : List Int} :
    row ∈ rows arena ↔ ∃ y, (0 ≤ y ∧ y < arenaHeight) ∧ rowOf arena y = row := by
  simp only [rows, List.mem_map, List.mem_range, arenaHeight]
  constructor
  · rintro ⟨n, hn, rfl⟩
    exact ⟨n, by omega, rfl⟩
  · rintro ⟨y, hy, rfl⟩
    exact ⟨y.toNat, by omega, by rw [Int.toNat_of_nonneg hy.1]⟩

theorem forall_cells_iff {arena : Arena} {P : Int → Prop} :
    (∀ x y, InArena x y → P (arena x y)) ↔ ∀ row ∈ rows arena, ∀ v ∈ row, P v := by
  constructor
  · intro h row hrow v hv
    obtain ⟨y, hy, rfl⟩ := mem_rows.mp hrow
    obtain ⟨x, hx, rfl⟩ := mem_rowOf.mp hv
    exact h x y ⟨hx, hy⟩
  · rintro h x y ⟨hx, hy⟩
    exact h _ (mem_rows.mpr ⟨y, hy, rfl⟩) _ (mem_rowOf.mpr ⟨x, hx, rfl⟩)

/-- No cell of the row is 0. -/
def IsFull (row : List Int) : Prop := 0 ∉ row

instance (row : List Int) : Decidable (IsFull row) := inferInstanceAs (Decidable (¬ _))

def emptyRow : List Int := List.replicate 10 0

theorem not_isFull_emptyRow : ¬ IsFull emptyRow := by decide

end Homework.Tetris
