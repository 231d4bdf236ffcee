import Mathlib.Algebra.Order.BigOperators.Group.List
import Mathlib.Algebra.Order.Group.Nat
import Homework.Tetris.Conservation

/-!
# The end of the game

A piece is at most twenty ticks in the arena, and an arena without full rows has room for 45
pieces. What is cleared makes room for more, and pays for it. So a game that is not over has
run no longer than its score allows.
-/

namespace Homework.Tetris

set_option autoImplicit false

/-! ## The arena -/

theorem filled_le {arena : Arena} (h : NoFullRow arena) : filled arena ≤ 180 := by
  have hrow : ∀ n ∈ (rows arena).map (List.count 1), n ≤ 9 := by
    intro n hn
    obtain ⟨row, hrow, rfl⟩ := List.mem_map.mp hn
    have hlen : row.length = 10 := by
      obtain ⟨y, -, rfl⟩ := mem_rows.mp hrow
      exact length_rowOf arena y
    have hzero : (0 : Int) ∈ row := not_not.mp (h row hrow)
    have hne : row.count 1 ≠ row.length := by
      intro hall
      cases List.count_eq_length.mp hall 0 hzero
    have hle := List.count_le_length (a := (1 : Int)) (l := row)
    omega
  have hsum := List.sum_le_card_nsmul _ 9 hrow
  rwa [List.length_map, length_rows] at hsum

theorem currY_le {g : Game} (h : Safe g) (hrun : g.isGameOver = false) : g.currY ≤ 19 := by
  have hcells := length_pieceCells h.legal
  obtain ⟨c, hc⟩ := List.exists_mem_of_length_pos (by rw [hcells]; decide)
  have hnonneg : ∀ c ∈ columnwise, 0 ≤ c.2 := by decide
  have hrow := hnonneg c (mem_pieceCells.mp hc).1
  obtain ⟨⟨-, -, hbottom⟩, -⟩ := h.piece hrun c hc
  unfold arenaHeight at hbottom
  omega

/-! ## Ticks -/

theorem handleKey_currY {g g' : Game} {key : Int} (h : handleKey g key = some g') :
    g.currY ≤ g'.currY := by
  unfold handleKey at h
  split at h
  · rcases tryMove_cases h with rfl | rfl <;> exact Int.le_refl _
  · split at h
    · rcases tryMove_cases h with rfl | rfl <;> exact Int.le_refl _
    · split at h
      · rcases tryMove_cases h with rfl | rfl <;> exact Int.le_refl _
      · split at h
        · rcases tryMove_cases h with rfl | rfl
          · exact Int.le_add_one (Int.le_refl _)
          · exact Int.le_refl _
        · cases h
          exact Int.le_refl _

/-- A tick moves the piece down, or locks it and draws the next one. -/
theorem tick_cases {g : Game} (h : Safe g) (hrun : g.isGameOver = false) (rand : Nat) :
    ∃ g', step (some g) (.tick rand) = some g' ∧ Safe g' ∧
      (locks (some g) (.tick rand) = 0 ∧ g'.currY = g.currY + 1 ∨
        locks (some g) (.tick rand) = 1) := by
  obtain ⟨g', hg', hsafe⟩ := tick_safe h rand
  have hstep : step (some g) (.tick rand) = some g' := by
    simpa [step, Game.step, hrun] using hg'
  refine ⟨g', hstep, hsafe, ?_⟩
  by_cases hdown : Game.Fits { g with currY := g.currY + 1 }
  · have hmove : moveDown g = some (true, { g with currY := g.currY + 1 }) := by
      rw [moveDown_eq h, if_pos hdown]
    refine Or.inl ⟨by simp [locks, lockedArena, hrun, hmove], ?_⟩
    have hmoved : g' = { g with currY := g.currY + 1 } := by
      simpa [tick, hmove] using hg'.symm
    rw [hmoved]
  · have hstuck : moveDown g = some (false, g) := by rw [moveDown_eq h, if_neg hdown]
    obtain ⟨placed, hplaced, -⟩ := placeToArena_binary h
    exact Or.inr (by simp [locks, lockedArena, hrun, hstuck, hplaced])

def Event.isTick : Event → Bool
  | .key _ => false
  | .tick _ => true

/-- After so many ticks and locked pieces: every piece but the last one has had its twenty. -/
structure Paced (ticks locked : Nat) (g : Game) : Prop where
  safe : Safe g
  pace : g.isGameOver = false → (ticks : Int) ≤ 20 * locked + g.currY

theorem Paced.step {ticks locked : Nat} {g : Game} (h : Paced ticks locked g) (e : Event) :
    ∃ g', step (some g) e = some g' ∧
      Paced (ticks + if e.isTick then 1 else 0) (locked + locks (some g) e) g' := by
  cases hover : g.isGameOver with
  | true =>
    refine ⟨g, by simp [Tetris.step, Game.step, hover], h.safe, fun hrun => ?_⟩
    rw [hover] at hrun
    cases hrun
  | false =>
    have hpace := h.pace hover
    cases e with
    | key key =>
      obtain ⟨g', hg', hsafe⟩ := handleKey_safe h.safe key
      refine ⟨g', by simpa [Tetris.step, Game.step, hover] using hg', hsafe, fun _ => ?_⟩
      have hle := handleKey_currY hg'
      have hlocks : locks (some g) (.key key) = 0 := rfl
      have hticks : (if (Event.key key).isTick then 1 else 0) = 0 := rfl
      rw [hlocks, hticks]
      omega
    | tick rand =>
      obtain ⟨g', hg', hsafe, hcases⟩ := tick_cases h.safe hover rand
      refine ⟨g', hg', hsafe, fun _ => ?_⟩
      have hticks : (if (Event.tick rand).isTick then 1 else 0) = 1 := rfl
      have hbottom := currY_le h.safe hover
      have hrow := hsafe.row
      rw [hticks]
      rcases hcases with ⟨hlocks, hmoved⟩ | hlocks
      · rw [hlocks]
        omega
      · rw [hlocks]
        omega

theorem Paced.run {ticks locked : Nat} {g : Game} (h : Paced ticks locked g)
    (events : List Event) : ∃ g', run Tetris.step (some g) events = some g' ∧
      Paced (ticks + events.countP Event.isTick)
        (locked + (trace Tetris.step locks (some g) events).sum) g' := by
  induction events generalizing g ticks locked with
  | nil => exact ⟨g, rfl, h⟩
  | cons e events ih =>
    obtain ⟨g', hg', hpaced⟩ := h.step e
    obtain ⟨g'', hrun, hend⟩ := ih hpaced
    refine ⟨g'', by rw [run_cons, hg', hrun], ?_⟩
    rw [trace_cons, List.sum_cons, List.countP_cons, hg', ← Nat.add_assoc, ← Nat.add_assoc,
      Nat.add_right_comm ticks]
    exact hend

theorem countP_isTick (frames : List Frame) :
    (frames.flatMap Frame.events).countP Event.isTick =
      frames.countP fun frame => frame.rand.isSome := by
  induction frames with
  | nil => rfl
  | cons frame frames ih =>
    obtain ⟨keys, rand⟩ := frame
    have hkeys : (keys.map Event.key).countP Event.isTick = 0 := by
      simp [List.countP_map, Function.comp_def, Event.isTick]
    rw [List.flatMap_cons, List.countP_append, ih, List.countP_cons, Frame.events,
      List.countP_append, hkeys]
    cases rand with
    | none => simp
    | some rand => simp [Event.isTick, Nat.add_comm]

/-- As long as the score has not passed the `int` maximum, a game that is not over has had at
most 919 ticks, and fifty more for every 100 points. -/
theorem game_ends_unless_it_scores (rand : Nat) (frames : List Frame)
    (hfits : Along step ScoreFits (start rand) (frames.flatMap Frame.events)) :
    ∃ g, runGame rand frames = some g ∧ (g.isGameOver = false →
      (frames.countP fun frame => frame.rand.isSome : Int) ≤ 919 + g.score / 2) := by
  obtain ⟨g₀, hg₀, hsafe₀, -, -⟩ := start_eq rand
  have hpaced₀ : Paced 0 0 g₀ := ⟨hsafe₀, fun _ => by
    have := hsafe₀.row
    omega⟩
  obtain ⟨g, hg, hpaced⟩ := hpaced₀.run (frames.flatMap Frame.events)
  obtain ⟨hcells, hscore⟩ := run_accounts rand hfits
  rw [← hg₀] at hg hpaced
  rw [hg] at hcells hscore
  simp only [cellsIn, scoreOf, Option.map_some, Option.getD_some] at hcells hscore
  refine ⟨g, (runGame_eq_run rand frames).trans hg, fun hrun => ?_⟩
  have hpace := hpaced.pace hrun
  have hbottom := currY_le hpaced.safe hrun
  have hfilled := filled_le hpaced.safe.no_full
  rw [Nat.zero_add, Nat.zero_add, countP_isTick] at hpace
  omega

theorem game_ends_unless_it_scores_of_three_pieces : ∃ g, runGame 0 threePieces = some g ∧
    (g.isGameOver = false → 3 ≤ 919 + g.score / 2) :=
  game_ends_unless_it_scores 0 threePieces scoreFits_threePieces

end Homework.Tetris
