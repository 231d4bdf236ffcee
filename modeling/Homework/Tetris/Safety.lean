import Homework.Tetris.Pieces

/-!
# What holds in every state of the game

No index ever leaves its array: `currY` only grows, the tables are complete for the four
rotations, and a piece moves only to where `check_position` has found it free. A full row
is there only between `place_to_arena` and `check_lines`.
-/

namespace Homework.Tetris

set_option autoImplicit false

def NoFullRow (arena : Arena) : Prop := ∀ row ∈ rows arena, ¬ IsFull row

structure Safe (g : Game) : Prop where
  legal : Legal g.currIndex g.currRotation
  row : 0 ≤ g.currY
  binary : Binary g.arena
  no_full : NoFullRow g.arena
  piece : g.isGameOver = false → ∀ c ∈ pieceCells g.currIndex g.currRotation,
    InArena (c.1 + g.currX) (c.2 + g.currY) ∧ g.arena (c.1 + g.currX) (c.2 + g.currY) = 0

/-- A cell of the piece is in the bottom row or directly above a filled one. -/
def Rests (g : Game) : Prop :=
  ∃ c ∈ pieceCells g.currIndex g.currRotation, c.2 + g.currY = arenaHeight - 1 ∨
    InArena (c.1 + g.currX) (c.2 + g.currY + 1) ∧
      g.arena (c.1 + g.currX) (c.2 + g.currY + 1) = 1

theorem free_iff {arena : Arena} (h : Binary arena) (x y : Int) :
    Free arena x y ↔ InArena x y ∧ arena x y = 0 := by
  refine and_congr_right fun hin => ?_
  rcases h x y hin with hv | hv <;> simp [hv]

theorem fits_iff {arena : Arena} (h : Binary arena) (index rotation x y : Int) :
    Fits arena index rotation x y ↔ ∀ c ∈ pieceCells index rotation,
      InArena (c.1 + x) (c.2 + y) ∧ arena (c.1 + x) (c.2 + y) = 0 := by
  simp only [Fits, free_iff h]

def Game.Fits (g : Game) : Prop := Tetris.Fits g.arena g.currIndex g.currRotation g.currX g.currY

instance (g : Game) : Decidable g.Fits := inferInstanceAs (Decidable (Tetris.Fits _ _ _ _ _))

theorem Game.check_eq {g : Game} (hl : Legal g.currIndex g.currRotation) (hy : 0 ≤ g.currY) :
    g.check = some (decide g.Fits) := checkPosition_eq hl hy g.arena

theorem Safe.fits {g : Game} (h : Safe g) (hrun : g.isGameOver = false) : g.Fits :=
  (fits_iff h.binary _ _ _ _).mpr (h.piece hrun)

/-! ## The operations -/

theorem tryMove_eq {g g' : Game} (hl : Legal g'.currIndex g'.currRotation) (hy : 0 ≤ g'.currY) :
    tryMove g g' = some (if g'.Fits then g' else g) := by
  rw [tryMove, Game.check_eq hl hy]
  by_cases hfits : g'.Fits <;> simp [hfits]

theorem tryMove_safe {g g' : Game} (h : Safe g) (hl : Legal g'.currIndex g'.currRotation)
    (hy : 0 ≤ g'.currY) (harena : g'.arena = g.arena) :
    ∃ g'', tryMove g g' = some g'' ∧ Safe g'' := by
  refine ⟨_, tryMove_eq hl hy, ?_⟩
  split
  · rename_i hfits
    have hbinary : Binary g'.arena := harena ▸ h.binary
    exact ⟨hl, hy, hbinary, harena ▸ h.no_full, fun _ => (fits_iff hbinary _ _ _ _).mp hfits⟩
  · exact h

theorem handleKey_safe {g : Game} (h : Safe g) (key : Int) :
    ∃ g', handleKey g key = some g' ∧ Safe g' := by
  obtain ⟨hindex, hrotation⟩ := h.legal
  have hrow := h.row
  unfold handleKey
  split
  · refine tryMove_safe h ⟨hindex, ?_⟩ hrow rfl
    change 0 ≤ (g.currRotation + 1).tmod 4 ∧ (g.currRotation + 1).tmod 4 < 4
    rw [Int.tmod_eq_emod_of_nonneg (by omega)]
    omega
  · split
    · exact tryMove_safe h h.legal hrow rfl
    · split
      · exact tryMove_safe h h.legal hrow rfl
      · split
        · exact tryMove_safe h h.legal (by dsimp only; omega) rfl
        · exact ⟨g, rfl, h⟩

theorem moveDown_eq {g : Game} (h : Safe g) :
    moveDown g = some (if Game.Fits { g with currY := g.currY + 1 } then
      (true, { g with currY := g.currY + 1 }) else (false, g)) := by
  have hrow := h.row
  have hcheck := Game.check_eq (g := { g with currY := g.currY + 1 }) h.legal (by dsimp only; omega)
  rw [moveDown, hcheck]
  by_cases hfits : Game.Fits { g with currY := g.currY + 1 } <;> simp [hfits]

theorem rests_of_not_fits {g : Game} (h : Safe g) (hrun : g.isGameOver = false)
    (hdown : ¬ Game.Fits { g with currY := g.currY + 1 }) : Rests g := by
  simp only [Game.Fits, Fits, not_forall] at hdown
  obtain ⟨c, hc, hblocked⟩ := hdown
  obtain ⟨⟨hx, hy⟩, -⟩ := h.piece hrun c hc
  rw [← Int.add_assoc] at hblocked
  refine ⟨c, hc, ?_⟩
  by_cases hbottom : c.2 + g.currY = arenaHeight - 1
  · exact Or.inl hbottom
  · have hin : InArena (c.1 + g.currX) (c.2 + g.currY + 1) := ⟨hx, by omega⟩
    exact Or.inr ⟨hin, not_not.mp fun hne => hblocked ⟨hin, hne⟩⟩

theorem generateTetromino_safe {g : Game} (hbinary : Binary g.arena) (hno : NoFullRow g.arena)
    (rand : Nat) : ∃ g', generateTetromino g rand = some g' ∧ Safe g' ∧ g'.arena = g.arena ∧
      g'.score = g.score := by
  have hl : Legal (rand % 7 : Nat) 0 := ⟨by omega, by omega⟩
  have hcheck := checkPosition_eq (x := arenaWidth / 2 - tetrominoWidth / 2) hl (Int.le_refl 0)
    g.arena
  refine ⟨{ g with
    currIndex := (rand % 7 : Nat), currRotation := 0
    currX := arenaWidth / 2 - tetrominoWidth / 2, currY := 0
    isGameOver := !decide (Tetris.Fits g.arena (rand % 7 : Nat) 0
      (arenaWidth / 2 - tetrominoWidth / 2) 0) }, ?_, ?_, rfl, rfl⟩
  · rw [generateTetromino, Game.check, hcheck]
    rfl
  · refine ⟨hl, Int.le_refl 0, hbinary, hno, fun hrun => ?_⟩
    exact (fits_iff hbinary _ _ _ _).mp (by simpa using hrun)

theorem placeToArena_binary {g : Game} (h : Safe g) :
    ∃ placed, placeToArena g = some placed ∧ Binary placed := by
  refine ⟨_, placeToArena_eq h.legal, fun x y hin => ?_⟩
  split
  · exact Or.inr rfl
  · exact h.binary x y hin

theorem checkLines_safe {arena : Arena} (h : Binary arena) (score : Int) :
    ∃ arena' score', checkLines arena score = some (arena', score') ∧ Binary arena' ∧
      NoFullRow arena' := by
  obtain ⟨arena', hlines, hrows⟩ := checkLines_eq arena score
  refine ⟨arena', _, hlines, (forall_cells_iff (P := fun v => v = 0 ∨ v = 1)).mpr ?_, ?_⟩
  · rw [hrows]
    exact forall_mem_settled (P := fun v => v = 0 ∨ v = 1) (Or.inl rfl) h
  · intro row hrow
    exact not_isFull_of_mem_settled (hrows ▸ hrow)

theorem tick_safe {g : Game} (h : Safe g) (rand : Nat) :
    ∃ g', tick g rand = some g' ∧ Safe g' := by
  have hrow := h.row
  rw [tick, moveDown_eq h]
  by_cases hfits : Game.Fits { g with currY := g.currY + 1 }
  · rw [if_pos hfits]
    refine ⟨_, rfl, ?_⟩
    exact ⟨h.legal, by dsimp only; omega, h.binary, h.no_full,
      fun _ => (fits_iff h.binary _ _ _ _).mp hfits⟩
  · obtain ⟨placed, hplaced, hbinary⟩ := placeToArena_binary h
    obtain ⟨arena', score', hlines, hbinary', hno⟩ := checkLines_safe hbinary g.score
    obtain ⟨g', hg', hsafe, -, -⟩ := generateTetromino_safe
      (g := { g with arena := arena', score := score' }) hbinary' hno rand
    refine ⟨g', ?_, hsafe⟩
    rw [if_neg hfits]
    simp only [Option.bind_eq_bind, Option.bind_some, Bool.false_eq_true, if_false, hplaced, hlines,
      hg']

/-! ## Runs -/

def Reached (s : Option Game) : Prop := ∃ g, s = some g ∧ Safe g

theorem start_eq (rand : Nat) :
    ∃ g, start rand = some g ∧ Safe g ∧ g.arena = cleared.arena ∧ g.score = 0 := by
  have hbinary : Binary cleared.arena := fun _ _ _ => Or.inl rfl
  have hno : ∀ row ∈ rows cleared.arena, ¬ IsFull row := by decide
  exact generateTetromino_safe (g := cleared) hbinary hno rand

theorem start_reached (rand : Nat) : Reached (start rand) := by
  obtain ⟨g, hg, hsafe, -, -⟩ := start_eq rand
  exact ⟨g, hg, hsafe⟩

theorem step_reached (s : Option Game) (e : Event) (h : Reached s) : Reached (step s e) := by
  obtain ⟨g, rfl, hsafe⟩ := h
  rw [step, Option.bind_some]
  unfold Game.step
  split
  · exact ⟨g, rfl, hsafe⟩
  · cases e with
    | key key => exact handleKey_safe hsafe key
    | tick rand => exact tick_safe hsafe rand

/-- Where a tick locks the piece it is at rest, and once the lines are checked no row is
full. -/
def LocksAtRest (s : Option Game) (e : Event) : Prop :=
  ∀ g rand, s = some g → e = .tick rand → g.isGameOver = false → moveDown g = some (false, g) →
    Rests g ∧ ∃ placed arena score, placeToArena g = some placed ∧ Binary placed ∧
      checkLines placed g.score = some (arena, score) ∧ Binary arena ∧ NoFullRow arena

theorem locksAtRest_of_reached (s : Option Game) (e : Event) (h : Reached s) : LocksAtRest s e := by
  rintro g rand rfl rfl hrun hstuck
  obtain ⟨g', hg', hsafe⟩ := h
  obtain rfl : g = g' := Option.some.inj hg'
  have hdown : ¬ Game.Fits { g with currY := g.currY + 1 } := by
    intro hfits
    rw [moveDown_eq hsafe, if_pos hfits] at hstuck
    cases hstuck
  obtain ⟨placed, hplaced, hbinary⟩ := placeToArena_binary hsafe
  obtain ⟨arena, score, hlines, hclean⟩ := checkLines_safe hbinary g.score
  exact ⟨rests_of_not_fits hsafe hrun hdown, placed, arena, score, hplaced, hbinary, hlines, hclean⟩

/-- Whatever is drawn, pressed and timed, every state of the game is safe, every piece has
four cells and every piece is locked at rest. -/
theorem game_stays_safe (rand : Nat) (events : List Event) :
    (∃ g, run step (start rand) events = some g ∧ Safe g ∧
      (pieceCells g.currIndex g.currRotation).length = 4) ∧
    Along step LocksAtRest (start rand) events := by
  constructor
  · obtain ⟨g, hg, hsafe⟩ := run_invariant_all Reached step_reached (start_reached rand) events
    exact ⟨g, hg, hsafe, length_pieceCells hsafe.legal⟩
  · have hany : Along step (fun _ _ => True) (start rand) events :=
      Along.of_forall_mem (p := fun _ => True) fun _ _ => trivial
    exact along_of_invariant Reached (fun s e h _ => step_reached s e h)
      (fun s e h _ => locksAtRest_of_reached s e h) (start_reached rand) hany

end Homework.Tetris
