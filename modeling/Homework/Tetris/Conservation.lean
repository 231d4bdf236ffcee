import Mathlib.Algebra.Ring.Basic
import Mathlib.Algebra.Ring.Int.Defs
import Mathlib.Data.Nat.Cast.Basic
import Homework.Tetris.Safety

/-!
# No cell is lost, doubled or paid for twice

A locked piece adds four cells to the arena. A cleared row takes ten away and pays 100
points. So the cells in the arena and a tenth of the score are always four times the number
of locked pieces.
-/

namespace Homework.Tetris

set_option autoImplicit false

def filled (arena : Arena) : Nat := ((rows arena).map (List.count 1)).sum

/-! ## Filling a cell -/

theorem rows_setCell (arena : Arena) (x y : Nat) (value : Int) :
    rows (setCell arena x y value) = (rows arena).set y ((rowOf arena y).set x value) := by
  apply List.ext_getElem
  · simp
  · intro i hi hi'
    rw [length_rows] at hi
    rw [getElem_rows, List.getElem_set]
    split
    · rename_i heq
      subst i
      apply List.ext_getElem
      · simp
      · intro j hj hj'
        rw [length_rowOf] at hj
        simp only [rowOf, columns, List.getElem_map, List.getElem_range, List.getElem_set, setCell]
        by_cases hjx : x = j
        · simp [hjx]
        · have hne : (j : Int) ≠ x := by omega
          simp [hjx, hne]
    · rename_i hne
      rw [getElem_rows]
      apply rowOf_congr
      intro x' _ _
      exact setCell_of_ne arena value (by omega)

theorem filled_setCell {arena : Arena} {x y : Int} (h : Free arena x y) :
    filled (setCell arena x y 1) = filled arena + 1 := by
  obtain ⟨⟨⟨hx₀, hx⟩, hy₀, hy⟩, hfree⟩ := h
  obtain ⟨x, rfl⟩ := Int.eq_ofNat_of_zero_le hx₀
  obtain ⟨y, rfl⟩ := Int.eq_ofNat_of_zero_le hy₀
  unfold arenaWidth at hx
  unfold arenaHeight at hy
  have hlen : y < (rows arena).length := by rw [length_rows]; omega
  have hlen' : x < (rowOf arena y).length := by rw [length_rowOf]; omega
  have hcell : (rowOf arena y)[x] = arena x y := by simp [rowOf, columns]
  have hrow : ((rowOf arena y).set x 1).count 1 = (rowOf arena y).count 1 + 1 := by
    rw [List.count_set hlen', hcell]
    simp [hfree]
  have hsplit := List.take_append_drop y (rows arena)
  rw [List.drop_eq_getElem_cons hlen, getElem_rows] at hsplit
  rw [filled, rows_setCell, List.set_eq_take_append_cons_drop, if_pos hlen, filled]
  conv_rhs => rw [← hsplit]
  simp only [List.map_append, List.map_cons, List.sum_append, List.sum_cons, hrow]
  omega

theorem filled_placeCells {index rotation x y : Int} (hl : Legal index rotation)
    {cells : List (Int × Int)} (hnodup : cells.Nodup) (hcells : ∀ c ∈ cells, c ∈ columnwise)
    {arena : Arena}
    (hfree : ∀ c ∈ cells, Occupies index rotation c → Free arena (c.1 + x) (c.2 + y)) :
    ∃ arena', placeCells index rotation x y cells arena = some arena' ∧
      filled arena' =
        filled arena + (cells.filter fun c => decide (Occupies index rotation c)).length := by
  induction cells generalizing arena with
  | nil => exact ⟨arena, by rw [placeCells], by rw [List.filter_nil, List.length_nil, Nat.add_zero]⟩
  | cons c cells ih =>
    obtain ⟨hc, hnodup⟩ := List.nodup_cons.mp hnodup
    have hcells' : ∀ c' ∈ cells, c' ∈ columnwise := fun c' hc' =>
      hcells c' (List.mem_cons_of_mem c hc')
    have hhere := hfree c List.mem_cons_self
    rw [placeCells_cons hl (hcells c List.mem_cons_self), List.filter_cons]
    by_cases hocc : Occupies index rotation c
    · have hfreeC := hhere hocc
      have hother : ∀ c' ∈ cells, Occupies index rotation c' →
          Free (setCell arena (c.1 + x) (c.2 + y) 1) (c'.1 + x) (c'.2 + y) := by
        intro c' hc' hocc'
        obtain ⟨hin, hempty⟩ := hfree c' (List.mem_cons_of_mem c hc') hocc'
        refine ⟨hin, ?_⟩
        rw [setCell_of_ne]
        · exact hempty
        · intro heq
          have : c' = c := Prod.ext (by omega) (by omega)
          exact hc (this ▸ hc')
      obtain ⟨arena', hplace, hfilled⟩ := ih hnodup hcells' hother
      rw [if_pos ⟨hocc, hfreeC.1⟩, if_pos (decide_eq_true hocc)]
      refine ⟨arena', hplace, ?_⟩
      rw [hfilled, filled_setCell hfreeC, List.length_cons]
      omega
    · obtain ⟨arena', hplace, hfilled⟩ := ih hnodup hcells' fun c' hc' =>
        hfree c' (List.mem_cons_of_mem c hc')
      rw [if_neg fun h => hocc h.1, if_neg (by simpa using hocc)]
      exact ⟨arena', hplace, hfilled⟩

theorem filled_placeToArena {g : Game} (h : Safe g) (hrun : g.isGameOver = false) :
    ∃ placed, placeToArena g = some placed ∧ filled placed = filled g.arena + 4 := by
  have hfree : ∀ c ∈ rowwise, Occupies g.currIndex g.currRotation c →
      Free g.arena (c.1 + g.currX) (c.2 + g.currY) := fun c hc hocc =>
    h.fits hrun c (mem_pieceCells.mpr ⟨(mem_rowwise_iff c).mp hc, hocc⟩)
  obtain ⟨placed, hplaced, hfilled⟩ := filled_placeCells h.legal (by decide)
    (fun c hc => (mem_rowwise_iff c).mp hc) hfree
  rw [length_pieceCells_rowwise h.legal] at hfilled
  exact ⟨placed, hplaced, hfilled⟩

/-! ## Clearing rows -/

theorem count_of_isFull {row : List Int} (hfull : IsFull row) (h : ∀ v ∈ row, v = 0 ∨ v = 1) :
    row.count 1 = row.length := by
  apply List.count_eq_length.mpr
  intro v hv
  rcases h v hv with rfl | rfl
  · exact absurd hv hfull
  · rfl

theorem sum_filter_not_full {l : List (List Int)} (hlen : ∀ row ∈ l, row.length = 10)
    (h : ∀ row ∈ l, ∀ v ∈ row, v = 0 ∨ v = 1) :
    (l.map (List.count 1)).sum =
      10 * l.countP (fun row => decide (IsFull row)) +
        ((l.filter fun row => decide (¬ IsFull row)).map (List.count 1)).sum := by
  induction l with
  | nil => rfl
  | cons row l ih =>
    have htail := ih (fun r hr => hlen r (List.mem_cons_of_mem row hr))
      fun r hr => h r (List.mem_cons_of_mem row hr)
    rw [List.map_cons, List.sum_cons, htail, List.countP_cons, List.filter_cons]
    by_cases hfull : IsFull row
    · have hten := count_of_isFull hfull (h row List.mem_cons_self)
      rw [hlen row List.mem_cons_self] at hten
      simp [hfull, hten]
      omega
    · simp [hfull]
      omega

theorem filled_of_settled {arena arena' : Arena} (h : Binary arena)
    (hrows : rows arena' = settled arena) : filled arena = 10 * fullRows arena + filled arena' := by
  have hempty : ((List.replicate (fullRows arena) emptyRow).map (List.count 1)).sum = 0 := by
    have hcount : emptyRow.count 1 = 0 := by decide
    simp [hcount]
  have hlen : ∀ row ∈ rows arena, row.length = 10 := by
    intro row hrow
    obtain ⟨y, -, rfl⟩ := mem_rows.mp hrow
    exact length_rowOf arena y
  have hsum := sum_filter_not_full hlen ((forall_cells_iff (P := fun v => v = 0 ∨ v = 1)).mp h)
  rw [filled, hsum, filled, hrows, settled, List.map_append, List.sum_append, hempty,
    Nat.zero_add, fullRows]

/-! ## Steps of the game -/

/-- The arena that `check_lines` is given, if the event locks a piece. -/
def lockedArena (s : Option Game) (e : Event) : Option Arena :=
  match s, e with
  | some g, .tick _ =>
    if g.isGameOver then none
    else
      match moveDown g with
      | some (false, g) => placeToArena g
      | _ => none
  | _, _ => none

def locks (s : Option Game) (e : Event) : Nat := if (lockedArena s e).isSome then 1 else 0

def linesCleared (s : Option Game) (e : Event) : Nat := ((lockedArena s e).map fullRows).getD 0

def cellsIn (s : Option Game) : Nat := (s.map fun g => filled g.arena).getD 0

def scoreOf (s : Option Game) : Int := (s.map Game.score).getD 0

def ScoreFits (s : Option Game) (e : Event) : Prop :=
  scoreOf s + 100 * linesCleared s e ≤ intMax

instance (s : Option Game) (e : Event) : Decidable (ScoreFits s e) :=
  inferInstanceAs (Decidable (_ ≤ _))

structure Balances (s : Option Game) (e : Event) : Prop where
  cells : cellsIn s + 4 * locks s e = 10 * linesCleared s e + cellsIn (step s e)
  score : scoreOf s + 100 * linesCleared s e = 0 + scoreOf (step s e)

theorem balances_of_idle (g g' : Game) {e : Event} (hstep : step (some g) e = some g')
    (hidle : lockedArena (some g) e = none) (harena : g'.arena = g.arena)
    (hscore : g'.score = g.score) : Balances (some g) e := by
  constructor
  · simp [hstep, locks, linesCleared, hidle, cellsIn, harena]
  · simp [hstep, linesCleared, hidle, scoreOf, hscore]

theorem tick_balances {g : Game} (h : Safe g) (hscore₀ : 0 ≤ g.score) (hrun : g.isGameOver = false)
    (rand : Nat) (hfits : ScoreFits (some g) (.tick rand)) : Balances (some g) (.tick rand) := by
  by_cases hdown : Game.Fits { g with currY := g.currY + 1 }
  · have hmove : moveDown g = some (true, { g with currY := g.currY + 1 }) := by
      rw [moveDown_eq h, if_pos hdown]
    refine balances_of_idle g { g with currY := g.currY + 1 } ?_ ?_ rfl rfl
    · simp [step, Game.step, hrun, tick, hmove]
    · simp [lockedArena, hrun, hmove]
  · have hstuck : moveDown g = some (false, g) := by rw [moveDown_eq h, if_neg hdown]
    obtain ⟨placed, hplaced, hfour⟩ := filled_placeToArena h hrun
    have hlocked : lockedArena (some g) (.tick rand) = some placed := by
      simp [lockedArena, hrun, hstuck, hplaced]
    obtain ⟨placed', hplaced', hbinary⟩ := placeToArena_binary h
    obtain rfl : placed = placed' := Option.some.inj (hplaced.symm.trans hplaced')
    obtain ⟨arena, hlines, hrows⟩ := checkLines_eq placed g.score
    obtain ⟨arena', score, hlines', hbinary', hno⟩ := checkLines_safe hbinary g.score
    obtain ⟨g', hg', -, harena, hscore⟩ := generateTetromino_safe
      (g := { g with arena := arena', score := score }) hbinary' hno rand
    have hstep : step (some g) (.tick rand) = some g' := by
      rw [hrun] at hg'
      simp [step, Game.step, hrun, tick, hstuck, hplaced, hlines', hg']
    rw [hlines'] at hlines
    obtain ⟨rfl, rfl⟩ := Prod.mk.inj (Option.some.inj hlines)
    have hcleared : linesCleared (some g) (.tick rand) = fullRows placed := by
      simp [linesCleared, hlocked]
    have hpaid : g'.score = g.score + 100 * fullRows placed := by
      have hle : g.score + 100 * fullRows placed ≤ intMax := by
        simpa [ScoreFits, scoreOf, hcleared] using hfits
      rw [hscore]
      dsimp only
      split
      · rw [intAdd_eq (inInt_of_le (by omega) (by omega))]
        omega
      · omega
    constructor
    · have hten := filled_of_settled hbinary hrows
      rw [hstep, hcleared]
      simp only [cellsIn, locks, hlocked, Option.map_some, Option.getD_some, Option.isSome_some,
        if_true, harena]
      omega
    · rw [hstep, hcleared]
      simp only [scoreOf, Option.map_some, Option.getD_some, hpaid]
      omega

/-! ## Runs -/

theorem step_balances {s : Option Game} {e : Event} (h : Reached s) (hscore₀ : 0 ≤ scoreOf s)
    (hfits : ScoreFits s e) : Balances s e := by
  obtain ⟨g, rfl, hsafe⟩ := h
  cases hover : g.isGameOver with
  | true =>
    refine balances_of_idle g g ?_ ?_ rfl rfl
    · simp [step, Game.step, hover]
    · cases e <;> simp [lockedArena, hover]
  | false =>
    cases e with
    | key key =>
      obtain ⟨g', hg', -⟩ := handleKey_safe hsafe key
      obtain ⟨harena, hscore, -⟩ := handleKey_keeps hg'
      refine balances_of_idle g g' ?_ rfl harena hscore
      simpa [step, Game.step, hover] using hg'
    | tick rand => exact tick_balances hsafe hscore₀ hover rand hfits

theorem run_accounts (rand : Nat) {events : List Event}
    (hfits : Along step ScoreFits (start rand) events) :
    4 * (trace step locks (start rand) events).sum =
        10 * (trace step linesCleared (start rand) events).sum +
          cellsIn (run step (start rand) events) ∧
      100 * ((trace step linesCleared (start rand) events).sum : Int) =
        scoreOf (run step (start rand) events) := by
  obtain ⟨g₀, hg₀, hsafe₀, harena₀, hzero⟩ := start_eq rand
  have hscore₀ : scoreOf (start rand) = 0 := by rw [hg₀]; exact hzero
  have hcells₀ : cellsIn (start rand) = 0 := by
    have hempty : filled cleared.arena = 0 := by decide
    rw [hg₀, cellsIn, Option.map_some, Option.getD_some, harena₀, hempty]
  have hbalances : Along step Balances (start rand) events := by
    refine along_of_invariant (fun s => Reached s ∧ 0 ≤ scoreOf s) (fun s e hs hok => ?_)
      (fun s e hs hok => step_balances hs.1 hs.2 hok) ⟨⟨g₀, hg₀, hsafe₀⟩, by omega⟩ hfits
    have hscore := (step_balances hs.1 hs.2 hok).score
    have := hs.2
    exact ⟨step_reached s e hs.1, by omega⟩
  have hcells := conserved_of_along cellsIn (fun s e => AddMonoidHom.mulLeft 4 (locks s e))
    (fun s e => AddMonoidHom.mulLeft 10 (linesCleared s e)) (hbalances.imp fun s e h => h.cells)
  have hscore := conserved_of_along scoreOf
    (fun s e => (AddMonoidHom.mulLeft (100 : Int)).comp (Nat.castAddMonoidHom Int)
      (linesCleared s e))
    (fun _ _ => (0 : Nat →+ Int) 0) (hbalances.imp fun s e h => h.score)
  rw [Conserved, sum_trace_map, sum_trace_map] at hcells hscore
  simp only [hscore₀, hcells₀, AddMonoidHom.coe_mulLeft, AddMonoidHom.comp_apply,
    Nat.coe_castAddMonoidHom, AddMonoidHom.zero_apply, Nat.zero_add, Int.zero_add] at hcells hscore
  exact ⟨hcells, hscore⟩

/-- Between the iterations of the main loop, as long as the score has not passed the `int`
maximum, four times the number of locked pieces is the number of filled cells and a tenth
of the score, which is a multiple of 100. -/
theorem locked_cells_are_conserved (rand : Nat) (frames : List Frame)
    (hfits : Along step ScoreFits (start rand) (frames.flatMap Frame.events)) :
    ∃ g, runGame rand frames = some g ∧
      4 * ((trace step locks (start rand) (frames.flatMap Frame.events)).sum : Int) =
        filled g.arena + g.score / 10 ∧ g.score % 100 = 0 := by
  obtain ⟨hcells, hscore⟩ := run_accounts rand hfits
  obtain ⟨⟨g, hg, -, -⟩, -⟩ := game_stays_safe rand (frames.flatMap Frame.events)
  rw [hg] at hcells hscore
  simp only [cellsIn, scoreOf, Option.map_some, Option.getD_some] at hcells hscore
  refine ⟨g, (runGame_eq_run rand frames).trans hg, ?_, ?_⟩ <;> omega

/-- A key pressed so many times, and then the piece is moved down as far as it goes. -/
def dropped (key : Int) (times rand : Nat) : Frame where
  keys := List.replicate times key ++ List.replicate 18 115
  rand := some rand

/-- Two bars side by side and a square beside them: the bottom row is full. -/
def threePieces : List Frame := [dropped 97 3 0, dropped 100 1 1, dropped 100 4 2]

theorem scoreFits_threePieces :
    Along step ScoreFits (start 0) (threePieces.flatMap Frame.events) := by decide +kernel

theorem locked_cells_are_conserved_of_three_pieces : ∃ g, runGame 0 threePieces = some g ∧
    4 * 3 = (filled g.arena : Int) + g.score / 10 ∧ g.score % 100 = 0 := by
  have hlocks : (trace step locks (start 0) (threePieces.flatMap Frame.events)).sum = 3 := by
    decide +kernel
  have h := locked_cells_are_conserved 0 threePieces scoreFits_threePieces
  rw [hlocks] at h
  exact h

example : (runGame 0 threePieces).map (fun g => (filled g.arena, g.score)) = some (2, 100) := by
  decide +kernel

end Homework.Tetris
