import Homework.Tetris.Game

/-!
# What checking and placing a piece do

A piece occupies four of the sixteen cells of its square. `check_position` says whether
these are all in the arena and free, and `place_to_arena` fills them.
-/

namespace Homework.Tetris

set_option autoImplicit false

structure Legal (index rotation : Int) : Prop where
  index : 0 ≤ index ∧ index < 7
  rotation : 0 ≤ rotation ∧ rotation < 4

def Occupies (index rotation : Int) (c : Int × Int) : Prop :=
  tetrominoAt index (rotate rotation c.1 c.2) = some 1

instance (index rotation : Int) (c : Int × Int) : Decidable (Occupies index rotation c) :=
  inferInstanceAs (Decidable (_ = _))

def pieceCells (index rotation : Int) : List (Int × Int) :=
  columnwise.filter fun c => decide (Occupies index rotation c)

theorem mem_pieceCells {index rotation : Int} {c : Int × Int} :
    c ∈ pieceCells index rotation ↔ c ∈ columnwise ∧ Occupies index rotation c := by
  simp [pieceCells]

theorem mem_rowwise_iff (c : Int × Int) : c ∈ rowwise ↔ c ∈ columnwise :=
  ⟨(by decide : ∀ c ∈ rowwise, c ∈ columnwise) c, (by decide : ∀ c ∈ columnwise, c ∈ rowwise) c⟩

/-- What holds of all entries of the tables holds of all legal positions. -/
theorem Legal.of_tables {P : Int → Int → Prop} (h : ∀ i < 7, ∀ r < 4, P (i : Nat) (r : Nat))
    {index rotation : Int} (hl : Legal index rotation) : P index rotation := by
  obtain ⟨⟨hi₀, hi⟩, hr₀, hr⟩ := hl
  obtain ⟨i, rfl⟩ := Int.eq_ofNat_of_zero_le hi₀
  obtain ⟨r, rfl⟩ := Int.eq_ofNat_of_zero_le hr₀
  exact h i (by omega) r (by omega)

theorem tetrominoAt_isSome {index rotation : Int} (hl : Legal index rotation) :
    ∀ c ∈ columnwise, (tetrominoAt index (rotate rotation c.1 c.2)).isSome :=
  hl.of_tables (P := fun i r => ∀ c ∈ columnwise, (tetrominoAt i (rotate r c.1 c.2)).isSome)
    (by decide)

theorem length_pieceCells {index rotation : Int} (hl : Legal index rotation) :
    (pieceCells index rotation).length = 4 :=
  hl.of_tables (P := fun i r => (pieceCells i r).length = 4) (by decide)

theorem length_pieceCells_rowwise {index rotation : Int} (hl : Legal index rotation) :
    (rowwise.filter fun c => decide (Occupies index rotation c)).length = 4 :=
  hl.of_tables (P := fun i r => (rowwise.filter fun c => decide (Occupies i r c)).length = 4)
    (by decide)

/-! ## Checking -/

def Free (arena : Arena) (x y : Int) : Prop := InArena x y ∧ arena x y ≠ 1

instance (arena : Arena) (x y : Int) : Decidable (Free arena x y) :=
  inferInstanceAs (Decidable (_ ∧ _))

/-- The cells of the piece, with its square at `(x, y)`, are free cells of the arena. -/
def Fits (arena : Arena) (index rotation x y : Int) : Prop :=
  ∀ c ∈ pieceCells index rotation, Free arena (c.1 + x) (c.2 + y)

instance (arena : Arena) (index rotation x y : Int) : Decidable (Fits arena index rotation x y) :=
  inferInstanceAs (Decidable (∀ c ∈ _, _))

variable {index rotation x y : Int}

theorem checkCells_eq (hl : Legal index rotation) (hy : 0 ≤ y) (arena : Arena)
    {cells : List (Int × Int)} (hcells : ∀ c ∈ cells, c ∈ columnwise) :
    checkCells arena index rotation x y cells =
      some (decide (∀ c ∈ cells, Occupies index rotation c → Free arena (c.1 + x) (c.2 + y))) := by
  induction cells with
  | nil => simp [checkCells]
  | cons c cells ih =>
    obtain ⟨xIdx, yIdx⟩ := c
    have hmem := hcells _ List.mem_cons_self
    have htail := ih fun c hc => hcells c (List.mem_cons_of_mem _ hc)
    obtain ⟨v, hv⟩ := Option.isSome_iff_exists.mp (tetrominoAt_isSome hl _ hmem)
    have hpos : ∀ c ∈ columnwise, 0 ≤ c.2 := by decide
    have hyIdx : 0 ≤ yIdx := hpos _ hmem
    simp only [List.forall_mem_cons]
    rw [checkCells, hv, Option.bind_eq_bind, Option.bind_some]
    by_cases hone : v = 1
    · have hocc : Occupies index rotation (xIdx, yIdx) := by rw [Occupies, hv, hone]
      rw [if_neg (not_not.mpr hone)]
      dsimp only
      by_cases hout : xIdx + x < 0 ∨ xIdx + x ≥ arenaWidth ∨ yIdx + y ≥ arenaHeight
      · have hfree : ¬ Free arena (xIdx + x) (yIdx + y) := by
          rintro ⟨⟨hx, hy'⟩, -⟩
          omega
        rw [if_pos hout, decide_eq_false fun h => hfree (h.1 hocc)]
      · have hin : InArena (xIdx + x) (yIdx + y) := by
          unfold InArena
          omega
        rw [if_neg hout, readArena_eq hin, Option.bind_some]
        by_cases hfilled : arena (xIdx + x) (yIdx + y) = 1
        · rw [if_pos ⟨by omega, hfilled⟩, decide_eq_false fun h => (h.1 hocc).2 hfilled]
        · have hfree : Free arena (xIdx + x) (yIdx + y) := ⟨hin, hfilled⟩
          rw [if_neg fun h => hfilled h.2, htail]
          simp only [hfree, implies_true, true_and]
    · have hocc : ¬ Occupies index rotation (xIdx, yIdx) := by
        rw [Occupies, hv]
        simpa using hone
      rw [if_pos hone, htail]
      simp only [hocc, false_implies, true_and]

theorem checkPosition_eq (hl : Legal index rotation) (hy : 0 ≤ y) (arena : Arena) :
    checkPosition arena index rotation x y = some (decide (Fits arena index rotation x y)) := by
  rw [checkPosition, checkCells_eq hl hy arena fun c hc => hc]
  simp only [Fits, mem_pieceCells, and_imp]

/-! ## Placing -/

theorem placeCells_cons (hl : Legal index rotation) {c : Int × Int} (hc : c ∈ columnwise)
    (cells : List (Int × Int)) (arena : Arena) :
    placeCells index rotation x y (c :: cells) arena = placeCells index rotation x y cells
      (if Occupies index rotation c ∧ InArena (c.1 + x) (c.2 + y) then
        setCell arena (c.1 + x) (c.2 + y) 1 else arena) := by
  obtain ⟨v, hv⟩ := Option.isSome_iff_exists.mp (tetrominoAt_isSome hl c hc)
  obtain ⟨xIdx, yIdx⟩ := c
  rw [placeCells, hv, Option.bind_eq_bind, Option.bind_some]
  by_cases hone : v = 1
  · have hocc : Occupies index rotation (xIdx, yIdx) := by rw [Occupies, hv, hone]
    rw [if_neg (not_not.mpr hone)]
    by_cases hin : InArena (xIdx + x) (yIdx + y)
    · rw [if_pos hin, if_pos ⟨hocc, hin⟩, writeArena_eq hin, Option.bind_eq_bind, Option.bind_some]
    · rw [if_neg hin, if_neg fun h => hin h.2]
  · have hocc : ¬ Occupies index rotation (xIdx, yIdx) := by
      rw [Occupies, hv]
      simpa using hone
    rw [if_pos hone, if_neg fun h => hocc h.1]

theorem placeCells_eq (hl : Legal index rotation) {cells : List (Int × Int)}
    (hcells : ∀ c ∈ cells, c ∈ columnwise) (arena : Arena) :
    placeCells index rotation x y cells arena = some fun x' y' =>
      if ((x' - x, y' - y) ∈ cells ∧ Occupies index rotation (x' - x, y' - y)) ∧ InArena x' y'
      then 1 else arena x' y' := by
  induction cells generalizing arena with
  | nil => simp [placeCells]
  | cons c cells ih =>
    rw [placeCells_cons hl (hcells c List.mem_cons_self),
      ih fun c' hc' => hcells c' (List.mem_cons_of_mem c hc')]
    congr 1
    funext x' y'
    obtain ⟨xIdx, yIdx⟩ := c
    by_cases hhere : x' = xIdx + x ∧ y' = yIdx + y
    · obtain ⟨rfl, rfl⟩ := hhere
      have hx : xIdx + x - x = xIdx := by omega
      have hy : yIdx + y - y = yIdx := by omega
      rw [hx, hy]
      by_cases hset : Occupies index rotation (xIdx, yIdx) ∧ InArena (xIdx + x) (yIdx + y)
      · simp [hset.1, hset.2]
      · rw [if_neg hset, if_neg fun h => hset ⟨h.1.2, h.2⟩, if_neg fun h => hset ⟨h.1.2, h.2⟩]
    · have hne : (x' - x, y' - y) ≠ (xIdx, yIdx) := by
        intro heq
        obtain ⟨hx, hy⟩ := Prod.mk.inj heq
        omega
      have hkeep : (if Occupies index rotation (xIdx, yIdx) ∧ InArena (xIdx + x) (yIdx + y) then
          setCell arena (xIdx + x) (yIdx + y) 1 else arena) x' y' = arena x' y' := by
        split
        · exact setCell_of_ne arena 1 hhere
        · rfl
      simp only [hkeep, List.mem_cons, hne, false_or]

theorem placeToArena_eq {g : Game} (hl : Legal g.currIndex g.currRotation) :
    placeToArena g = some fun x y =>
      if (x - g.currX, y - g.currY) ∈ pieceCells g.currIndex g.currRotation ∧ InArena x y then 1
      else g.arena x y := by
  rw [placeToArena, placeCells_eq hl fun c hc => (mem_rowwise_iff c).mp hc]
  simp only [mem_rowwise_iff, mem_pieceCells]

end Homework.Tetris
