import Homework.Shared.Bytes
import Homework.Tetris.Pieces

/-!
# Drawing

`draw_arena` looks up each cell of the arena in the square of the current piece, where
`place_to_arena` goes over the cells of the square. A row of the text is a bar, ten cells, a
bar and the end of the line.

Near the ends of `int` the positions in the source could overflow. A piece that far out has
no cell in the arena however they do.
-/

namespace Homework.Tetris

set_option autoImplicit false

def hash : UInt8 := 35
def spaceChar : UInt8 := 32
def bar : UInt8 := 124

/-- The size of `buf`. -/
def bufSize : Nat := 512

/-- The position is in the square of the current piece. -/
def Game.InSquare (g : Game) (x y : Int) : Prop :=
  (x ≥ g.currX ∧ x < g.currX + tetrominoWidth) ∧ y ≥ g.currY ∧ y < g.currY + tetrominoWidth

instance (g : Game) (x y : Int) : Decidable (g.InSquare x y) :=
  inferInstanceAs (Decidable (_ ∧ _))

def drawCell (g : Game) (x y : Int) : Option UInt8 := do
  let idx := rotate g.currRotation (x - g.currX) (y - g.currY)
  if (← readArena g.arena x y) = 1 then some hash
  else if g.InSquare x y then
    if (← tetrominoAt g.currIndex idx) = 1 then some hash else some spaceChar
  else some spaceChar

def drawCells (g : Game) (y : Int) : List Int → List UInt8 → Option (List UInt8)
  | [], buf => some buf
  | x :: xs, buf => do drawCells g y xs (buf ++ [← drawCell g x y])

def drawRows (g : Game) : List Int → List UInt8 → Option (List UInt8)
  | [], buf => some buf
  | y :: ys, buf => do
    let buf ← drawCells g y columns (buf ++ [bar])
    drawRows g ys (buf ++ [bar, 13, 10])

/-- The values of the loop variable in `for (int y = 0; y < ARENA_HEIGHT; ++y)`. -/
def lines : List Int := (List.range 20).map Nat.cast

/-- The string in `buf`, if the array has room for it. -/
def drawBuf (g : Game) : Option (List UInt8) := do
  let buf ← drawRows g lines []
  if buf.length < bufSize then some buf else none

/-- The two sequences that clear the terminal. -/
def clearScreen : List UInt8 := ascii "\x1b[2J\x1b[H"

def scoreText (score : Int) : List UInt8 := ascii s!"\n\nScore: {score}\n\n"

/-- What `draw_arena` prints. -/
def drawArena (g : Game) : Option (List UInt8) := do
  some (clearScreen ++ (← drawBuf g) ++ scoreText g.score)

/-! ## The picture of an arena -/

def cellChar (arena : Arena) (x y : Int) : UInt8 := if arena x y = 1 then hash else spaceChar

def rowText (arena : Arena) (y : Int) : List UInt8 :=
  bar :: (columns.map (cellChar arena · y) ++ [bar, 13, 10])

def picture (arena : Arena) : List UInt8 := lines.flatMap (rowText arena)

/-- What the terminal shows for a cell of the arena. -/
def shownAt (text : List UInt8) (x y : Int) : Option UInt8 :=
  (text.drop clearScreen.length)[(14 * y + 1 + x).toNat]?

theorem length_rowText (arena : Arena) (y : Int) : (rowText arena y).length = 14 := by
  simp [rowText, columns]

theorem length_picture (arena : Arena) : (picture arena).length = 280 := by
  simp [picture, lines, List.length_flatMap, length_rowText, Function.comp_def]

theorem getElem?_flatMap_rows (arena : Arena) (n y k : Nat) (hy : y < n) (hk : k < 14) :
    ((List.range n).flatMap fun y : Nat => rowText arena y)[14 * y + k]? =
      (rowText arena y)[k]? := by
  have hlen : ∀ m, ((List.range m).flatMap fun y : Nat => rowText arena y).length = 14 * m := by
    intro m
    simp [List.length_flatMap, length_rowText, Nat.mul_comm]
  induction n with
  | zero => omega
  | succ n ih =>
    rw [List.range_succ, List.flatMap_append, List.flatMap_singleton]
    by_cases hlast : y = n
    · rw [hlast, List.getElem?_append_right (by rw [hlen]; omega), hlen, Nat.add_sub_cancel_left]
    · rw [List.getElem?_append_left (by rw [hlen]; omega)]
      exact ih (by omega)

theorem shownAt_picture (arena : Arena) (rest : List UInt8) {x y : Int} (h : InArena x y) :
    shownAt (clearScreen ++ picture arena ++ rest) x y = some (cellChar arena x y) := by
  obtain ⟨⟨hx₀, hx⟩, hy₀, hy⟩ := h
  obtain ⟨i, rfl⟩ := Int.eq_ofNat_of_zero_le hx₀
  obtain ⟨j, rfl⟩ := Int.eq_ofNat_of_zero_le hy₀
  unfold arenaWidth at hx
  unfold arenaHeight at hy
  have hplace : (14 * (j : Int) + 1 + i).toNat = 14 * j + (i + 1) := by omega
  have hi : i < 10 := by omega
  have hinside : 14 * j + (i + 1) < (picture arena).length := by
    rw [length_picture]
    omega
  rw [shownAt, List.append_assoc, List.drop_left, hplace, List.getElem?_append_left hinside]
  unfold picture lines
  rw [List.flatMap_map, getElem?_flatMap_rows arena 20 j (i + 1) (by omega) (by omega)]
  unfold rowText columns
  rw [List.getElem?_cons_succ, List.getElem?_append_left (by simpa using hi)]
  simp [hi]

/-! ## Drawn and placed -/

section
variable {g : Game}

theorem mem_columnwise {c : Int × Int} :
    c ∈ columnwise ↔ (0 ≤ c.1 ∧ c.1 < 4) ∧ 0 ≤ c.2 ∧ c.2 < 4 := by
  have hin : ∀ c ∈ columnwise, (0 ≤ c.1 ∧ c.1 < 4) ∧ 0 ≤ c.2 ∧ c.2 < 4 := by decide
  have hall : ∀ i < 4, ∀ j < 4, (((i : Nat) : Int), ((j : Nat) : Int)) ∈ columnwise := by decide
  constructor
  · exact hin c
  · obtain ⟨x, y⟩ := c
    rintro ⟨⟨hx₀, hx⟩, hy₀, hy⟩
    obtain ⟨i, rfl⟩ := Int.eq_ofNat_of_zero_le hx₀
    obtain ⟨j, rfl⟩ := Int.eq_ofNat_of_zero_le hy₀
    exact hall i (Int.ofNat_lt.mp hx) j (Int.ofNat_lt.mp hy)

/-- The cells of the arena in the square are the cells of the square in the arena. -/
theorem inSquare_iff (x y : Int) :
    g.InSquare x y ↔ (x - g.currX, y - g.currY) ∈ columnwise := by
  rw [mem_columnwise]
  unfold Game.InSquare tetrominoWidth
  dsimp only
  omega

theorem drawCell_eq (hl : Legal g.currIndex g.currRotation) {arena : Arena}
    (hplace : placeToArena g = some arena) {x y : Int} (h : InArena x y) :
    drawCell g x y = some (cellChar arena x y) := by
  rw [placeToArena_eq hl] at hplace
  cases hplace
  unfold drawCell cellChar
  dsimp only
  rw [readArena_eq h, Option.bind_eq_bind, Option.bind_some]
  by_cases hfilled : g.arena x y = 1
  · rw [if_pos hfilled, if_pos]
    split
    · rfl
    · exact hfilled
  · rw [if_neg hfilled]
    by_cases hsquare : g.InSquare x y
    · rw [if_pos hsquare]
      rw [inSquare_iff] at hsquare
      obtain ⟨v, hv⟩ := Option.isSome_iff_exists.mp (tetrominoAt_isSome hl _ hsquare)
      have hocc : Occupies g.currIndex g.currRotation (x - g.currX, y - g.currY) ↔ v = 1 := by
        rw [Occupies, hv, Option.some.injEq]
      rw [hv, Option.bind_some]
      simp only [mem_pieceCells, hsquare, h, hocc, true_and, and_true]
      by_cases hone : v = 1
      · simp [hone]
      · simp [hone, hfilled]
    · rw [if_neg hsquare]
      rw [inSquare_iff] at hsquare
      simp [mem_pieceCells, hsquare, hfilled]

theorem drawCells_eq (hl : Legal g.currIndex g.currRotation) {arena : Arena}
    (hplace : placeToArena g = some arena) {y : Int} {xs : List Int}
    (hxs : ∀ x ∈ xs, InArena x y) (buf : List UInt8) :
    drawCells g y xs buf = some (buf ++ xs.map (cellChar arena · y)) := by
  induction xs generalizing buf with
  | nil => simp [drawCells]
  | cons x xs ih =>
    obtain ⟨hx, hxs⟩ := List.forall_mem_cons.mp hxs
    rw [drawCells, drawCell_eq hl hplace hx, Option.bind_eq_bind, Option.bind_some, ih hxs]
    simp

theorem drawRows_eq (hl : Legal g.currIndex g.currRotation) {arena : Arena}
    (hplace : placeToArena g = some arena) {ys : List Int}
    (hys : ∀ y ∈ ys, 0 ≤ y ∧ y < arenaHeight) (buf : List UInt8) :
    drawRows g ys buf = some (buf ++ ys.flatMap (rowText arena)) := by
  induction ys generalizing buf with
  | nil => simp [drawRows]
  | cons y ys ih =>
    obtain ⟨hy, hys⟩ := List.forall_mem_cons.mp hys
    have hrow : ∀ x ∈ columns, InArena x y := fun x hx => ⟨mem_columns.mp hx, hy⟩
    rw [drawRows, drawCells_eq hl hplace hrow, Option.bind_eq_bind, Option.bind_some, ih hys]
    simp [rowText]

theorem drawBuf_eq (hl : Legal g.currIndex g.currRotation) {arena : Arena}
    (hplace : placeToArena g = some arena) : drawBuf g = some (picture arena) := by
  have hlines : ∀ y ∈ lines, 0 ≤ y ∧ y < arenaHeight := by decide
  have hroom : (picture arena).length < bufSize := by
    rw [length_picture]
    decide
  unfold drawBuf
  rw [drawRows_eq hl hplace hlines, Option.bind_eq_bind, Option.bind_some, List.nil_append]
  exact if_pos hroom

theorem drawArena_eq (hl : Legal g.currIndex g.currRotation) {arena : Arena}
    (hplace : placeToArena g = some arena) :
    drawArena g = some (clearScreen ++ picture arena ++ scoreText g.score) := by
  rw [drawArena, drawBuf_eq hl hplace]
  rfl

/-- The text is the picture of the arena in which the piece is placed: it shows a `#` for exactly
the cells that are filled there, and a space for all others. -/
theorem drawn_is_placed (hl : Legal g.currIndex g.currRotation) :
    ∃ arena text, placeToArena g = some arena ∧ drawArena g = some text ∧
      text = clearScreen ++ picture arena ++ scoreText g.score ∧
      ∀ x y, InArena x y →
        shownAt text x y = some (if arena x y = 1 then hash else spaceChar) := by
  refine ⟨_, _, placeToArena_eq hl, drawArena_eq hl (placeToArena_eq hl), rfl, ?_⟩
  exact fun x y h => shownAt_picture _ _ h

end

/-- A piece that hangs over the left wall and the floor. -/
def overhanging : Game :=
  { cleared with currIndex := 2, currRotation := 1, currX := -1, currY := 18 }

theorem drawn_is_placed_overhanging :
    ∃ arena text, placeToArena overhanging = some arena ∧ drawArena overhanging = some text ∧
      text = clearScreen ++ picture arena ++ scoreText overhanging.score ∧
      ∀ x y, InArena x y →
        shownAt text x y = some (if arena x y = 1 then hash else spaceChar) :=
  drawn_is_placed ⟨by decide, by decide⟩

end Homework.Tetris
