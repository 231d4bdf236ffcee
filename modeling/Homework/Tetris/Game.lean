import Homework.Shared.Run
import Homework.Tetris.Lines

/-!
# The game

`hw17-tetris/game.c` without its drawing. The globals of the file are the state. A number
drawn by `rand`, a key read by `getch` and whether the frame time has passed come from
outside.
-/

namespace Homework.Tetris

set_option autoImplicit false

def tetrominoWidth : Int := 4

def tetrominoes : List (List Int) :=
  [[0, 0, 0, 0, 1, 1, 1, 1, 0, 0, 0, 0, 0, 0, 0, 0],
   [0, 0, 0, 0, 0, 1, 1, 0, 0, 1, 1, 0, 0, 0, 0, 0],
   [0, 0, 0, 0, 0, 0, 1, 1, 0, 1, 1, 0, 0, 0, 0, 0],
   [0, 0, 0, 0, 1, 1, 0, 0, 0, 1, 1, 0, 0, 0, 0, 0],
   [0, 0, 0, 0, 0, 1, 0, 0, 1, 1, 1, 0, 0, 0, 0, 0],
   [0, 0, 0, 0, 1, 0, 0, 0, 1, 1, 1, 0, 0, 0, 0, 0],
   [0, 0, 0, 0, 0, 0, 0, 1, 0, 1, 1, 1, 0, 0, 0, 0]]

def tetrominoAt (index idx : Int) : Option Int :=
  if 0 ≤ index ∧ 0 ≤ idx then (tetrominoes[index.toNat]?).bind fun piece => piece[idx.toNat]?
  else none

def rotate (rotation x y : Int) : Int :=
  let direction := rotation.tmod 4
  if direction = 0 then x + y * tetrominoWidth
  else if direction = 1 then 12 + y - x * tetrominoWidth
  else if direction = 2 then 15 - y * tetrominoWidth - x
  else if direction = 3 then 3 - y + x * tetrominoWidth
  else 0

/-- The cells of a piece's square in the order in which `check_position` looks at them.
`place_to_arena` goes row by row. -/
def columnwise : List (Int × Int) :=
  (List.range 4).flatMap fun x => (List.range 4).map fun y : Nat => ((x : Int), (y : Int))

def rowwise : List (Int × Int) :=
  (List.range 4).flatMap fun y => (List.range 4).map fun x : Nat => ((x : Int), (y : Int))

def checkCells (arena : Arena) (index rotation x y : Int) : List (Int × Int) → Option Bool
  | [] => some true
  | (xIdx, yIdx) :: cells => do
    if (← tetrominoAt index (rotate rotation xIdx yIdx)) ≠ 1 then
      checkCells arena index rotation x y cells
    else
      let xArena := xIdx + x
      let yArena := yIdx + y
      if xArena < 0 ∨ xArena ≥ arenaWidth ∨ yArena ≥ arenaHeight then some false
      else
        let posArena ← readArena arena xArena yArena
        if yArena ≥ 0 ∧ posArena = 1 then some false
        else checkCells arena index rotation x y cells

def checkPosition (arena : Arena) (index rotation x y : Int) : Option Bool :=
  checkCells arena index rotation x y columnwise

structure Game where
  arena : Arena
  currIndex : Int
  currRotation : Int
  currX : Int
  currY : Int
  isGameOver : Bool
  score : Int

def Game.check (g : Game) : Option Bool :=
  checkPosition g.arena g.currIndex g.currRotation g.currX g.currY

def generateTetromino (g : Game) (rand : Nat) : Option Game := do
  let g := { g with
    currIndex := (rand % 7 : Nat), currRotation := 0
    currX := arenaWidth / 2 - tetrominoWidth / 2, currY := 0 }
  let free ← g.check
  some { g with isGameOver := !free }

def tryMove (g g' : Game) : Option Game := do
  if ← g'.check then some g' else some g

/-- `move_down`: whether the piece has moved, and the game after it. -/
def moveDown (g : Game) : Option (Bool × Game) := do
  let down := { g with currY := g.currY + 1 }
  if ← down.check then some (true, down) else some (false, g)

def placeCells (index rotation x y : Int) : List (Int × Int) → Arena → Option Arena
  | [], arena => some arena
  | (xIdx, yIdx) :: cells, arena => do
    if (← tetrominoAt index (rotate rotation xIdx yIdx)) ≠ 1 then
      placeCells index rotation x y cells arena
    else if InArena (xIdx + x) (yIdx + y) then
      placeCells index rotation x y cells (← writeArena arena (xIdx + x) (yIdx + y) 1)
    else placeCells index rotation x y cells arena

def placeToArena (g : Game) : Option Arena :=
  placeCells g.currIndex g.currRotation g.currX g.currY rowwise g.arena

def handleKey (g : Game) (key : Int) : Option Game :=
  if key = 119 then tryMove g { g with currRotation := (g.currRotation + 1).tmod 4 }
  else if key = 97 then tryMove g { g with currX := g.currX - 1 }
  else if key = 100 then tryMove g { g with currX := g.currX + 1 }
  else if key = 115 then tryMove g { g with currY := g.currY + 1 }
  else some g

/-- What `run_game` does when the frame time has passed. -/
def tick (g : Game) (rand : Nat) : Option Game := do
  let (moved, g) ← moveDown g
  if moved then some g
  else
    let (arena, score) ← checkLines (← placeToArena g) g.score
    generateTetromino { g with arena, score } rand

/-! ## Runs of the game -/

def cleared : Game where
  arena := fun _ _ => 0
  currIndex := 0
  currRotation := 0
  currX := 0
  currY := 0
  isGameOver := false
  score := 0

def start (rand : Nat) : Option Game := generateTetromino cleared rand

inductive Event where
  | key (key : Int)
  | tick (rand : Nat)

def Game.step (g : Game) (e : Event) : Option Game :=
  -- the main loop has ended
  if g.isGameOver then some g
  else
    match e with
    | .key key => handleKey g key
    | .tick rand => tick g rand

def step (s : Option Game) (e : Event) : Option Game := s.bind fun g => g.step e

/-- An iteration of the main loop: the keys that `handle_input` finds and, if the frame time
has passed, the number `rand` will give when the next piece is drawn. -/
structure Frame where
  keys : List Int
  rand : Option Nat

def runFrame (g : Game) (frame : Frame) : Option Game := do
  let g ← frame.keys.foldlM handleKey g
  match frame.rand with
  | none => some g
  | some rand => tick g rand

def runGame (rand : Nat) (frames : List Frame) : Option Game := do
  frames.foldlM (fun g frame => if g.isGameOver then some g else runFrame g frame) (← start rand)

/-! ## Frames as events -/

def Frame.events (frame : Frame) : List Event :=
  frame.keys.map .key ++ (frame.rand.map .tick).toList

theorem tryMove_cases {g g' g'' : Game} (h : tryMove g g' = some g'') : g'' = g' ∨ g'' = g := by
  unfold tryMove at h
  cases hcheck : g'.check with
  | none => rw [hcheck] at h; cases h
  | some free =>
    rw [hcheck, Option.bind_eq_bind, Option.bind_some] at h
    split at h <;> cases h
    · exact Or.inl rfl
    · exact Or.inr rfl

theorem handleKey_keeps {g g' : Game} {key : Int} (h : handleKey g key = some g') :
    g'.arena = g.arena ∧ g'.score = g.score ∧ g'.isGameOver = g.isGameOver := by
  unfold handleKey at h
  repeat' split at h
  all_goals first
    | (rcases tryMove_cases h with rfl | rfl <;> exact ⟨rfl, rfl, rfl⟩)
    | (cases h; exact ⟨rfl, rfl, rfl⟩)

theorem run_none (events : List Event) : run step none events = none := by
  induction events with
  | nil => rfl
  | cons e events ih => exact ih

theorem run_over {g : Game} (hover : g.isGameOver = true) (events : List Event) :
    run step (some g) events = some g := by
  induction events with
  | nil => rfl
  | cons e events ih =>
    have hstep : step (some g) e = some g := by simp [step, Game.step, hover]
    rw [run_cons, hstep, ih]

theorem runFrame_eq_run {g : Game} (hrun : g.isGameOver = false) (frame : Frame) :
    runFrame g frame = run step (some g) frame.events := by
  obtain ⟨keys, rand⟩ := frame
  unfold runFrame Frame.events
  dsimp only
  induction keys generalizing g with
  | nil =>
    cases rand with
    | none => rfl
    | some rand => simp [step, Game.step, hrun]
  | cons key keys ih =>
    have hstep : step (some g) (.key key) = handleKey g key := by simp [step, Game.step, hrun]
    rw [List.foldlM_cons, List.map_cons, List.cons_append, run_cons, hstep]
    cases hkey : handleKey g key with
    | none => rw [run_none]; rfl
    | some g' => exact ih ((handleKey_keeps hkey).2.2.trans hrun)

theorem runGame_eq_run (rand : Nat) (frames : List Frame) :
    runGame rand frames = run step (start rand) (frames.flatMap Frame.events) := by
  unfold runGame
  cases start rand with
  | none => exact (run_none _).symm
  | some g =>
    rw [Option.bind_eq_bind, Option.bind_some]
    induction frames generalizing g with
    | nil => rfl
    | cons frame frames ih =>
      rw [List.foldlM_cons, List.flatMap_cons, run_append]
      cases hover : g.isGameOver with
      | true => rw [run_over hover]; exact ih g
      | false =>
        rw [← runFrame_eq_run hover]
        cases hframe : runFrame g frame with
        | none => rw [run_none]; simp
        | some g' => simpa [hframe] using ih g'

end Homework.Tetris
